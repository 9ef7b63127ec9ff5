import OgsDp.Dsmf.Dispatch
import OgsDp.Pfcp.XactLists

/-!
# DN4 requests and their transactions (src/dsmf/dn4-handler.c, src/dsmf/pfcp-path.c)

The DSMF creates a transaction for each request and commits it to send the request.
-/

namespace OgsDp.Dsmf
open Lib OgsDp.Core
open Pfcp (Layer Xact Header Rcounts Rv Result getStage)

/-- The sessions, the transactions with `local_seid`, and the DN4 message events that wait in the
queue. -/
structure Dn4 where
  ctx : Context
  layer : Layer
  localSeid : Nat → BitVec 64
  queue : List Event

-- The timers that are left and what `dsmf_dn4_build_session_*_request` returns.
structure Supply where
  timers : Nat
  body : Option (List Byte)

def sessionEstablishmentRequest : Byte := 50
def sessionModificationRequest : Byte := 52
def sessionDeletionRequest : Byte := 54
def heartbeatRequest : Byte := 1
def heartbeatResponse : Byte := 2
def associationSetupResponse : Byte := 6

namespace Dn4

def withLayer (t : Dn4) (s : Layer) : Dn4 := { t with layer := s }

def commit (t : Dn4) (r : Nat) : Outcome Dn4 Unit :=
  match t.layer.commit r with
  | some (.ok s _) => .ok (t.withLayer s) ()
  | some (.abort s) => .abort (t.withLayer s)
  | none => .abort t

/-- What the three `dsmf_dn4_handle_session_*` do once they have the node. -/
def sendRequest (rc : Rcounts) (sup : Supply) (t : Dn4) (type : Byte) (headerSeid : BitVec 64)
    (node sess : Nat) : Outcome Dn4 Unit :=
  match t.layer.localCreate rc node sup.timers with
  | .abort s => .abort (t.withLayer s)
  | .ok s r =>
    let t:={ t.withLayer s with
      localSeid := Function.update t.localSeid r (t.ctx.sess sess).dsmfDn4Seid }
    match sup.body with
    | none => .ok (t.withLayer (s.delete r)) ()
    | some body =>
      match (s.xact r).updateTx ⟨type,headerSeid,0⟩ body with
      | .ok x .ok => (t.withLayer (s.setXact r x)).commit r
      | .ok x _ => .ok (t.withLayer ((s.setXact r x).delete r)) ()
      | .abort x => .abort (t.withLayer (s.setXact r x))

/-- `dsmf_dn4_handle_message`: the message is logged and its transaction committed. -/
def handleMessage (t : Dn4) (xactId : Nat) : Outcome Dn4 Unit :=
  if xactId=0 then .ok t ()
  else
    match t.layer.pool.findById xactId with
    | none => .ok t ()
    | some r => t.commit r

/-- What the handler of a state does to the transactions; `sess` is the session it has found. -/
def handleCall (rc : Rcounts) (env : Env) (sup : Supply) (xactId sess : Nat) (t : Dn4)
    (call : Call) : Outcome Dn4 Unit :=
  match call.state, call.sig with
  | .waitPfcpEstablishment, .entrySig =>
    match env.dfNode with
    | none => .ok t ()
    | some node => t.sendRequest rc sup sessionEstablishmentRequest 0 node sess
  | .operational, .dn4Message => t.handleMessage xactId
  | .operational, .sessionModificationRequest =>
    match (t.ctx.sess sess).pfcpNode with
    | none => .abort t
    | some node =>
      t.sendRequest rc sup sessionModificationRequest (t.ctx.sess sess).dsmfDn4Seid node sess
  | .waitPfcpDeletion, .entrySig =>
    match (t.ctx.sess sess).pfcpNode with
    | none => .abort t
    | some node =>
      t.sendRequest rc sup sessionDeletionRequest (t.ctx.sess sess).dsmfDn4Seid node sess
  | _, _ => .ok t ()

end Dn4

def Input.env : Input → Env
  | .event env _ | .addGnbWithRanInfo env _ | .sessEstablish env _ | .sessModify env _
  | .sessDelete env _ => env

def Input.granted : Input → Input
  | .event env e => .event { env with xact := true } e
  | .addGnbWithRanInfo env r => .addGnbWithRanInfo { env with xact := true } r
  | .sessEstablish env n => .sessEstablish { env with xact := true } n
  | .sessModify env n => .sessModify { env with xact := true } n
  | .sessDelete env n => .sessDelete { env with xact := true } n

def Input.xactId : Input → Nat
  | .event _ e => e.pfcpXactId
  | _ => 0

def Input.session (i : Input) (c : Context) (call : Call) : Nat :=
  let own:=(c.sess call.sess).id
  let sessId :=
    match i with
    | .event _ e => if e.id = .ranSyncRequest then own else e.sessId
    | _ => own
  (sessFindById c sessId).getD call.sess

namespace Dn4

/-- An input to the session machines, and what its handler calls do to the transactions. -/
def dispatch (rc : Rcounts) (sup : Supply) (t : Dn4) (i : Input) : Option (Outcome Dn4 Unit) :=
  match deliver t.ctx i.granted with
  | none => none
  | some (.abort c) => some (.abort { t with ctx := c })
  | some (.ok c calls) =>
    some (calls.foldl
      (fun o call => o.bind fun t _ =>
        t.handleCall rc i.env sup i.xactId (i.session t.ctx call) call)
      (.ok { t with ctx := c } ()))

def seidOf (t : Dn4) (r : Nat) : BitVec 64 :=
  match (t.layer.xact r).org with
  | .localOriginator => t.localSeid r
  | .remoteOriginator => 0

def messageEvent (t : Dn4) (type : Byte) (r : Nat) : Event where
  id := .dn4Message
  sessId :=
    if t.seidOf r=0 then 0
    else
      match sessFindByDsmfDn4Seid t.ctx (t.seidOf r) with
      | some n => (t.ctx.sess n).id
      | none => 0
  timerId := none
  pfcpMessage := some type.val
  pfcpXactId := (t.layer.xact r).id
  ranSync := none

/-- `ogs_pfcp_handle_heartbeat_request`; `body` is the response, if there is one to be sent. -/
def handleHeartbeatRequest (t : Dn4) (r : Nat) (body : Option (List Byte)) : Outcome Dn4 Unit :=
  match body with
  | none => .ok t ()
  | some body =>
    match (t.layer.xact r).updateTx ⟨heartbeatResponse,0,0⟩ body with
    | .ok x .ok =>
      ((t.withLayer (t.layer.setXact r x)).commit r).bind fun t _ =>
        .ok (t.withLayer (t.layer.delete r)) ()
    | .ok x _ => .ok (t.withLayer (t.layer.setXact r x)) ()
    | .abort x => .abort (t.withLayer (t.layer.setXact r x))

/-- `pfcp_recv_cb` from `ogs_pfcp_xact_receive` on. The event is freed if the queue refuses it. -/
def recvCb (rc : Rcounts) (t : Dn4) (node : Nat) (h : Header) (timers : Nat) (pushed : Bool)
    (heartbeat : Option (List Byte)) : Outcome Dn4 Unit :=
  match t.layer.receive rc node h timers with
  | .abort s => .abort (t.withLayer s)
  | .ok s ⟨.ok,some r,_⟩ =>
    let t:=t.withLayer s
    if h.type=heartbeatRequest then t.handleHeartbeatRequest r heartbeat
    else if h.type=heartbeatResponse ∨ h.type=associationSetupResponse then t.commit r
    else if pushed then .ok { t with queue := t.queue++[t.messageEvent h.type r] } ()
    else .ok t ()
  | .ok s _ => .ok (t.withLayer s) ()

inductive Op where
  | message (node : Nat) (h : Header) (timers : Nat) (pushed : Bool)
      (heartbeat : Option (List Byte))
  | handle (env : Env) (sup : Supply)
  | input (i : Input) (sup : Supply)
  | responseTimeout (r : Nat)
  | holdingTimeout (r : Nat)

def isMessage : Input → Bool
  | .event _ e => e.id == .dn4Message
  | _ => false

def step (rc : Rcounts) (t : Dn4) : Op → Option (Outcome Dn4 Unit)
  | .message node h timers pushed heartbeat =>
    some (t.recvCb rc node h timers pushed heartbeat)
  | .handle env sup =>
    match t.queue with
    | [] => none
    | e::queue => dispatch rc sup { t with queue := queue } (.event env e)
  | .input i sup => if isMessage i then none else dispatch rc sup t i
  | .responseTimeout r =>
    (t.layer.step rc (.responseTimeout r)).map fun o =>
      (o.mapState t.withLayer).bind fun t _ => .ok t ()
  | .holdingTimeout r =>
    (t.layer.step rc (.holdingTimeout r)).map fun o =>
      (o.mapState t.withLayer).bind fun t _ => .ok t ()

def init (ctx : Context) (size : Nat) (xact : Nat → Xact) : Dn4 :=
  ⟨ctx,Layer.init size xact,fun _ => 0,[]⟩

def Waiting (x : Xact) : Prop := x.step=1 ∧ x.tmResponse=true

/-- Each transaction the DSMF created waits for its response, or the response is in the queue. -/
def Accounted (t : Dn4) : Prop :=
  ∀ node,∀ r ∈ t.layer.list .localOriginator node,
    Waiting (t.layer.xact r) ∨ ∃ e∈t.queue,e.pfcpXactId=(t.layer.xact r).id

def ForOperational (c : Context) (e : Event) : Prop :=
  ∃ n∈sessFindById c e.sessId,(c.sess n).sm = .operational

/-- A response is queued; a queued message of a transaction the DSMF created is taken when its
session is operational; and the ids of transactions have not come to their end. -/
def Committable (t : Dn4) : Op → Prop
  | .message _ _ _ pushed _ => pushed=true ∧ t.layer.pool.id+3 < maxPoolId
  | .handle _ _ =>
    t.layer.pool.id+3 < maxPoolId ∧ ∀ e ∈ t.queue.head?,
      ∀ r ∈ t.layer.pool.findById e.pfcpXactId,
        (t.layer.xact r).org = .localOriginator → ForOperational t.ctx e
  | .input _ _ => t.layer.pool.id+3 < maxPoolId
  | .responseTimeout _ => True
  | .holdingTimeout _ => True

instance (c : Context) (e : Event) : Decidable (ForOperational c e) :=
  inferInstanceAs (Decidable (∃ n∈_,_))

instance (t : Dn4) (i : Op) : Decidable (Committable t i) :=
  match i with
  | .message _ _ _ _ _ => inferInstanceAs (Decidable (_ ∧ _))
  | .handle _ _ => inferInstanceAs (Decidable (_ ∧ ∀ e∈_,∀ r∈_,_ → ForOperational _ e))
  | .input _ _ => inferInstanceAs (Decidable (_<_))
  | .responseTimeout _ => isTrue trivial
  | .holdingTimeout _ => isTrue trivial

end Dn4

end OgsDp.Dsmf
