import OgsDp.Df.Context

/-!
# N4 requests to the DF (src/df/ndf-handler.c, src/df/pfcp-path.c)

A Session Establishment Request makes its session before it is handled.
-/

namespace OgsDp.Df
open Lib RefTable OgsDp.Core
open Pfcp hiding Context contextInit

structure HandlerEnv where
  pfcp : Env
  peers : GtpPeers

namespace Context

def onUp {ρ : Type} (c : Context) (f : Up → Outcome Up ρ) : Outcome Context ρ :=
  (f c.up).mapState c.withUp

def eachUp {μ : Type} (c : Context) (handle : Up → μ → Outcome Up Reply) (ms : List μ) :
    Outcome Context (Except Refusal (List Nat)) :=
  c.onUp fun u => each handle u ms

def onceUp {μ : Type} (c : Context) (handle : Up → μ → Outcome Up Reply) (m : μ) :
    Outcome Context (Except Refusal Unit) :=
  once (c.onUp fun u => handle u m)

def registerTeid (c : Context) (n p : Nat) : Context :=
  let f:=(c.up.ctx.pdr p).fTeid
  if f.teid≠0 then
    let c:={ c with teidHash := set c.teidKeys c.teidHash p f.teid n }
    if f.ipv4 then
      c.modify n fun x => { x with ranAddr := some (.inet f.addr),ranTeid := f.teid }
    else if f.ipv6 then
      c.modify n fun x => { x with ranAddr := some (.inet6 f.addr6),ranTeid := f.teid }
    else c
  else c

def createPdr (env : HandlerEnv) (restoration : Bool) (n : Nat) (c : Context)
    (message : Option CreatePdrUp) : Outcome Context Reply :=
  (c.onUp fun u => u.handleCreatePdr env.pfcp restoration n message).bind fun c reply =>
    match reply with
    | .rule p => .ok (c.registerTeid n p) reply
    | _ => .ok c reply

def takeApnDnn (env : HandlerEnv) (c : Context) (n : Nat) (apnDnn : Option (List Byte)) :
    Outcome Context (Except Refusal Unit) :=
  match apnDnn with
  | none => .ok c (.ok ())
  | some data =>
    match fqdnParse env.pfcp.beyond data with
    | none => .ok c (.error ⟨.mandatoryIeIncorrect,none⟩)
    | some name => .ok (c.modify n fun x => { x with apnDnn := some name }) (.ok ())

def setupNodes (env : HandlerEnv) (c : Context) (n : Nat) : Outcome Context (Except Refusal Unit) :=
  (c.onUp fun u => u.setupGtpNodes env.peers (u.ctx.far.list n)).bind fun c done =>
    .ok c (if done then .ok () else .error ⟨.requestAccepted,none⟩)

def setupPdrs (env : HandlerEnv) (n : Nat) (pdnType : Option Byte) :
    Context → List Nat → Outcome Context (Except Refusal Unit)
  | c, [] => .ok c (.ok ())
  | c, p::ps =>
    let ueIp : Outcome Context (Except Refusal Unit) :=
      match pdnType with
      | some type =>
        if (c.up.pdrUp p).ueIpAddrLen≠0 then c.sessSetUeIp n type (c.up.pdrUp p)
        else .ok c (.ok ())
      | none => .ok c (.ok ())
    ueIp.next fun c _ =>
      (c.onUp fun u => u.teidHashSet env.pfcp p).bind fun c _ => setupPdrs env n pdnType c ps

def restorationIndication (req : EstablishmentRequest) : Bool :=
  (req.pfcpsereqFlags.getD 0).val.testBit 0

/-- The part of `df_n4_handle_session_establishment_request` up to the answer; the result is
the created PDRs. -/
def establish (env : HandlerEnv) (c : Context) (n : Nat) (req : EstablishmentRequest) :
    Outcome Context (Except Refusal (List Nat)) :=
  let restoration:=restorationIndication req
  (each (createPdr env restoration n) c (req.createPdr.take maxNumOfPdr)).next fun c pdrs =>
    (c.eachUp (Up.handleFar handleCreateFar n) (req.createFar.take maxNumOfFar)).next fun c _ =>
      (c.takeApnDnn env n req.apnDnn).next fun c _ =>
        (c.eachUp (Up.handleQer handleCreateQer n) (req.createQer.take maxNumOfQer)).next fun c _ =>
          (c.onceUp (Up.handleBar BarTable.handleCreateBar n) req.createBar).next fun c _ =>
            (c.setupNodes env n).next fun c _ =>
              (if restoration then c.onUp fun u => u.swapTeids pdrs else .ok c (.ok ())).next
                fun c _ => (setupPdrs env n req.pdnType c pdrs).next fun c _ => .ok c (.ok pdrs)

/-- The part of `df_n4_handle_session_modification_request` up to the answer. -/
def change (env : HandlerEnv) (c : Context) (n : Nat) (req : ModificationRequest) :
    Outcome Context (Except Refusal (List Nat)) :=
  (c.eachUp (Up.handleCreatePdr env.pfcp false n) (req.createPdr.take maxNumOfPdr)).next fun c ps =>
  (c.eachUp (Up.handleUpdatePdr env.pfcp n) (req.updatePdr.take maxNumOfPdr)).next fun c _ =>
  (c.eachUp (Up.handleRemovePdr n) (req.removePdr.take maxNumOfPdr)).next fun c _ =>
  (c.eachUp (Up.handleFar handleCreateFar n) (req.createFar.take maxNumOfFar)).next fun c _ =>
  (c.eachUp (Up.handleFar handleUpdateFarFlags n) (req.updateFar.take maxNumOfFar)).next fun c _ =>
  let c:=c.withUp (c.up.clearSmreqFlags n)
  (c.eachUp (Up.handleFar handleUpdateFar n) (req.updateFar.take maxNumOfFar)).next fun c _ =>
  (c.eachUp (Up.handleRemoveFar n) (req.removeFar.take maxNumOfFar)).next fun c _ =>
  (c.eachUp (Up.handleUrr (handleUpdateUrr env.pfcp) n) (req.updateUrr.take maxNumOfUrr)).next
    fun c _ =>
  (c.eachUp (Up.handleRemoveUrr n) (req.removeUrr.take maxNumOfUrr)).next fun c _ =>
  (c.eachUp (Up.handleQer handleCreateQer n) (req.createQer.take maxNumOfQer)).next fun c _ =>
  (c.eachUp (Up.handleQer handleUpdateQer n) (req.updateQer.take maxNumOfQer)).next fun c _ =>
  (c.eachUp (Up.handleRemoveQer n) (req.removeQer.take maxNumOfQer)).next fun c _ =>
  (c.onceUp (Up.handleBar BarTable.handleCreateBar n) req.createBar).next fun c _ =>
  (c.onceUp (Up.handleBar BarTable.handleRemoveBar n) req.removeBar).next fun c _ =>
  (c.setupNodes env n).next fun c _ =>
  (setupPdrs env n none c ps).next fun c _ => .ok c (.ok ps)

def answer (env : HandlerEnv) (type : Byte) (restoration : Bool) (upSeid : Option (BitVec 64))
    (n : Nat) (o : Outcome Context (Except Refusal (List Nat))) : Outcome Context Response :=
  o.bind fun c r =>
    match r with
    | .ok pdrs =>
      .ok c ⟨type,(c.sess n).dsmfSeid,.requestAccepted,none,upSeid,
        if restoration || !env.pfcp.ftup then [] else createdPdrs c.up.ctx pdrs,false⟩
    | .error e =>
      .ok (c.withUp (c.up.sessClear n))
        ⟨type,(c.sess n).dsmfSeid,e.cause,e.offendingIe,none,[],true⟩

def handleSessionEstablishmentRequest (env : HandlerEnv) (c : Context) (n : Nat)
    (req : EstablishmentRequest) : Outcome Context Response :=
  answer env 51 (restorationIndication req) (some (c.sess n).dfN4Seid) n (c.establish env n req)

def handleSessionModificationRequest (env : HandlerEnv) (c : Context) (n : Nat)
    (req : ModificationRequest) : Outcome Context Response :=
  answer env 53 false none n (c.change env n req)

/-- `df_n4_handle_session_deletion_request`, which answers nothing. -/
def handleSessionDeletionRequest (c : Context) (n : Nat) : Context :=
  (c.unsetTeid (c.sess n).ranTeid).sessRemove n

end Context

/-- A session request; `seid` is that of the header, `none` without one. -/
inductive Request where
  | establishment (req : EstablishmentRequest)
  | modification (seid : Option (BitVec 64)) (req : ModificationRequest)
  | deletion (seid : Option (BitVec 64))

def Request.type : Request → Byte
  | .establishment _ => 50
  | .modification .. => 52
  | .deletion _ => 54

namespace Context

def sessOfHeader (c : Context) (seid : Option (BitVec 64)) : Option Nat :=
  seid.bind fun seid => if seid≠0 then c.sessFindByDfN4Seid seid else none

/-- The session requests in `df_pfcp_handle_message`, for the node `node` of the peer; without a
session none of them is handled. -/
def handleRequest (env : HandlerEnv) (node : Nat) (c : Context) :
    Request → Outcome Context (Option Response)
  | .establishment req =>
    (c.sessAddByMessage req.cpFSeid).bind fun c n =>
      match n with
      | none => .ok c none
      | some n =>
        ((c.modify n fun x => { x with pfcpNode := some node }).handleSessionEstablishmentRequest
          env n req).bind fun c rsp => .ok c (some rsp)
  | .modification seid req =>
    match c.sessOfHeader seid with
    | none => .ok c none
    | some n => (c.handleSessionModificationRequest env n req).bind fun c rsp => .ok c (some rsp)
  | .deletion seid =>
    match c.sessOfHeader seid with
    | none => .ok c none
    | some n => .ok (c.handleSessionDeletionRequest n) none

end Context

end OgsDp.Df
