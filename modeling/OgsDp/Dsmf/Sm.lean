import OgsDp.Dsmf.Context

/-!
# The session state machine (src/dsmf/dsmf-sm.c, lib/core/ogs-fsm.c)

A handler `dsmf_session_state_*` gets the machine `s` it runs on, which is a field of session `n`,
and an event, and looks the session of the event up by `e->sess_id`; `OGS_FSM_TRAN` writes the
state of `s` only.
-/

namespace OgsDp.Dsmf
open Lib RefTable OgsDp.Core

-- `dsmf_event_e` and the two signals; `proto` stands for the ids below `DSMF_EVT_BASE`.
inductive EventId where
  | entrySig
  | exitSig
  | proto
  | dn4Message
  | dn4Timer
  | dn4NoHeartbeat
  | sbiMessage
  | sbiTimer
  | sessionEstablishmentRequest
  | sessionModificationRequest
  | sessionDeletionRequest
  | sessionReportRequest
  | ranSyncRequest
  | ranSyncResponse
  deriving DecidableEq

inductive TimerId where
  | pfcpAssociation
  | pfcpNoHeartbeat
  | pfcpNoEstablishmentResponse
  | pfcpNoDeletionResponse
  | sessionEstablishment
  | sessionModification
  | sessionDeletion
  | ranSync
  deriving DecidableEq

structure RanSync where
  gnbId : CStr
  sessionId : CStr
  teid : BitVec 32
  deriving DecidableEq

structure Event where
  id : EventId
  sessId : Nat
  timerId : Option TimerId
  pfcpMessage : Option Nat
  pfcpXactId : Nat
  ranSync : Option RanSync
  deriving DecidableEq

def sessionEstablishmentResponse : Nat := 51
def sessionDeletionResponse : Nat := 55

/-- What a call finds outside the component: the stack, a free timer, the node that
`dsmf_discover_df_node` returns, whether the calls into the transaction layer return, the first
PFCP peer, `pfcp_addr`, and what `ogs_getaddrinfo` makes of the RAN address. -/
structure Env where
  frame : Frame
  later : Nat → Byte
  timerAdd : Bool
  dfNode : Option Nat
  xact : Bool
  peerNode : Option Nat
  pfcpAddr : Option (BitVec 32)
  ranAddr : Option Nat

def tran (c : Context) (n : Nat) (target : SmState) : Context :=
  c.modify n fun s => { s with sm := target }

theorem tran_seidKeys (c : Context) (n : Nat) (target : SmState) :
    (tran c n target).seidKeys=c.seidKeys :=
  Context.modify_seidKeys c n (fun s => { s with sm := target }) fun _ => rfl

-- `dsmf_dn4_handle_message` commits the transaction of the message, if it has one.
def dn4HandleMessage (env : Env) (c : Context) (e : Event) : Outcome Context Unit :=
  if e.pfcpXactId=0 ∨ env.xact then .ok c () else .abort c

def dn4HandleSessionEstablishment (env : Env) (c : Context) (n : Nat) : Outcome Context Unit :=
  match env.dfNode with
  | none => .ok c ()
  | some node =>
    let c:=c.modify n fun s => { s with pfcpNode := some node }
    if env.xact then .ok c () else .abort c

def dn4HandleSessionModification (env : Env) (c : Context) (n : Nat) : Outcome Context Unit :=
  if (c.sess n).pfcpNode.isSome ∧ env.xact then .ok c () else .abort c

def dn4HandleSessionDeletion (env : Env) (c : Context) (n : Nat) : Outcome Context Unit :=
  if (c.sess n).pfcpNode.isSome ∧ env.xact then .ok c () else .abort c

def sessionStateInitial (c : Context) (n : Nat) (e : Event) : Outcome Context Unit :=
  match sessFindById c e.sessId with
  | none => .abort c
  | some _ => .ok (tran c n .waitRanSync) ()

def sessionStateFinal (c : Context) (e : Event) : Outcome Context Unit :=
  match sessFindById c e.sessId with
  | none => .abort c
  | some _ => .ok c ()

def sessionStateWaitRanSync (env : Env) (c : Context) (n : Nat) (e : Event) :
    Outcome Context Unit :=
  match sessFindById c e.sessId with
  | none => .abort c
  | some sess =>
    match e.id with
    | .ranSyncRequest => .ok (tran c n .waitPfcpEstablishment) ()
    | .sessionDeletionRequest =>
      (sessRemove c env.frame sess).bind fun c _ => .ok (tran c n .final) ()
    | _ => .ok c ()

def sessionStateWaitPfcpEstablishment (env : Env) (c : Context) (n : Nat) (e : Event) :
    Outcome Context Unit :=
  match sessFindById c e.sessId with
  | none => .abort c
  | some sess =>
    match e.id with
    | .entrySig =>
      if env.timerAdd then
        dn4HandleSessionEstablishment env
          (c.modify sess fun s => { s with tEstablishment := true }) sess
      else .abort c
    | .exitSig => .ok (c.modify sess fun s => { s with tEstablishment := false }) ()
    | .dn4Message =>
      if e.pfcpMessage=some sessionEstablishmentResponse then
        .ok (tran (c.modify sess fun s => { s with pfcpEstablished := true }) n .operational) ()
      else .ok c ()
    | .sbiTimer =>
      if e.timerId=some .sessionEstablishment then .ok (tran c n .exception) () else .ok c ()
    | .sessionDeletionRequest =>
      (sessRemove c env.frame sess).bind fun c _ => .ok (tran c n .final) ()
    | _ => .ok c ()

def sessionStateOperational (env : Env) (c : Context) (n : Nat) (e : Event) :
    Outcome Context Unit :=
  match sessFindById c e.sessId with
  | none => .abort c
  | some sess =>
    match e.id with
    | .dn4Message => dn4HandleMessage env c e
    | .sessionModificationRequest => dn4HandleSessionModification env c sess
    | .sessionDeletionRequest => .ok (tran c n .waitPfcpDeletion) ()
    | _ => .ok c ()

def sessionStateWaitPfcpDeletion (env : Env) (c : Context) (n : Nat) (e : Event) :
    Outcome Context Unit :=
  match sessFindById c e.sessId with
  | none => .abort c
  | some sess =>
    match e.id with
    | .entrySig =>
      if env.timerAdd then
        dn4HandleSessionDeletion env (c.modify sess fun s => { s with tDeletion := true }) sess
      else .abort c
    | .exitSig => .ok (c.modify sess fun s => { s with tDeletion := false }) ()
    | .dn4Message =>
      if e.pfcpMessage=some sessionDeletionResponse then
        (sessRemove c env.frame sess).bind fun c _ => .ok (tran c n .final) ()
      else .ok c ()
    | .sbiTimer =>
      if e.timerId=some .sessionDeletion then
        (sessRemove c env.frame sess).bind fun c _ => .ok (tran c n .final) ()
      else .ok c ()
    | _ => .ok c ()

def sessionStateException (env : Env) (c : Context) (n : Nat) (e : Event) :
    Outcome Context Unit :=
  match sessFindById c e.sessId with
  | none => .abort c
  | some sess =>
    match e.id with
    | .sessionDeletionRequest =>
      (sessRemove c env.frame sess).bind fun c _ => .ok (tran c n .final) ()
    | _ => .ok c ()

def sessionState (env : Env) (st : SmState) (c : Context) (n : Nat) (e : Event) :
    Outcome Context Unit :=
  match st with
  | .initial => sessionStateInitial c n e
  | .final => sessionStateFinal c e
  | .waitRanSync => sessionStateWaitRanSync env c n e
  | .waitPfcpEstablishment => sessionStateWaitPfcpEstablishment env c n e
  | .operational => sessionStateOperational env c n e
  | .waitPfcpDeletion => sessionStateWaitPfcpDeletion env c n e
  | .exception => sessionStateException env c n e

/-- One handler call: the session, the state, the signal, and whether the session was listed. -/
structure Call where
  sess : Nat
  state : SmState
  sig : EventId
  live : Bool
  deriving DecidableEq

def signal (env : Env) (st : SmState) (c : Context) (n : Nat) (e : Event) :
    Outcome Context (List Call) :=
  (sessionState env st c n e).bind fun t _ => .ok t [⟨n,st,e.id,decide (n∈c.sessList)⟩]

def fsmEntry (env : Env) (c : Context) (n : Nat) (st : SmState) (e : Event) :
    Outcome Context (List Call) :=
  signal env st c n { e with id := .entrySig }

def fsmExit (env : Env) (c : Context) (n : Nat) (st : SmState) (e : Event) :
    Outcome Context (List Call) :=
  signal env st c n { e with id := .exitSig }

def fsmChange (env : Env) (c : Context) (n : Nat) (oldstate newstate : SmState) (e : Event) :
    Outcome Context (List Call) :=
  (fsmExit env c n oldstate e).bind fun c l =>
    (fsmEntry env c n newstate e).bind fun c l' => .ok c (l++l')

def fsmInit (env : Env) (c : Context) (n : Nat) (e : Event) : Outcome Context (List Call) :=
  (signal env .initial (tran c n .initial) n e).bind fun c l =>
    if (c.sess n).sm ≠ .initial then
      (fsmEntry env c n (c.sess n).sm e).bind fun c l' => .ok c (l++l')
    else .ok c l

def fsmDispatch (env : Env) (c : Context) (n : Nat) (e : Event) : Outcome Context (List Call) :=
  let tmp:=(c.sess n).sm
  (signal env tmp c n e).bind fun c l =>
    if (c.sess n).sm≠tmp then
      (fsmChange env c n tmp (c.sess n).sm e).bind fun c l' => .ok c (l++l')
    else .ok c l

end OgsDp.Dsmf
