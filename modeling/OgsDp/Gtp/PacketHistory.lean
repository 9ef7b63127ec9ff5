import OgsDp.Gtp.Xact
import OgsDp.Pfcp.Xact

/-!
# The packet history of a transaction (lib/gtp/xact.c, lib/pfcp/xact.c)

One transaction of GTPv1, GTPv2 or PFCP. A packet is the pointer that was passed to `update_tx`;
what its header says is in the models of the layers.
-/

namespace OgsDp.Gtp
open Lib OgsDp.Core

inductive Protocol where
  | pfcp
  | gtp1
  | gtp2
  deriving DecidableEq

def ofPfcp : Pfcp.Stage → Stage
  | .unknown => .unknown
  | .initial => .initial
  | .intermediate => .intermediate
  | .final => .final

def Protocol.getStage : Protocol → Byte → BitVec 32 → Stage
  | .pfcp, type, _ => ofPfcp (Pfcp.getStage type)
  | .gtp1, type, _ => gtp1XactGetStage type
  | .gtp2, type, xid => gtp2XactGetStage type xid

theorem Protocol.getStage_zero (v : Protocol) (xid : BitVec 32) : v.getStage 0 xid = .unknown := by
  cases v <;> rfl

abbrev PkbufRef := Nat

structure Slot where
  type : Byte
  pkbuf : Option PkbufRef
  deriving DecidableEq

/-- What ends the process: an assertion that no stage is unknown, that a packet is there, that a
packet to be freed is not null, or an access that is not to one of the three slots. -/
inductive Fault where
  | reached
  | noPacket
  | nullFreed
  | outside
  deriving DecidableEq

structure History where
  protocol : Protocol
  org : Org
  xid : BitVec 32
  step : Nat
  seq : Vector Slot 3
  tmResponse : Option Bool
  responseRcount : BitVec 8
  tmHolding : Bool
  holdingRcount : BitVec 8
  alive : Bool
  written : List Nat
  freed : List PkbufRef
  calls : List (PkbufRef × Rv)
  fault : Option Fault
  deriving DecidableEq

namespace History

def create (v : Protocol) (org : Org) (xid : BitVec 32) (response : Bool) (rc : Rcounts) :
    History where
  protocol := v
  org := org
  xid := xid
  step := 0
  seq := Vector.replicate 3 ⟨0,none⟩
  tmResponse := if response then some false else none
  responseRcount := if response then rc.response else 0
  tmHolding := false
  holdingRcount := rc.holding
  alive := true
  written := []
  freed := []
  calls := []
  fault := none

variable {ρ : Type*} (s : History)

abbrev stage (type : Byte) : Stage := s.protocol.getStage type s.xid

abbrev firstSeq : Slot := getElem s.seq 0 Xact.first_lt
abbrev secondSeq : Slot := getElem s.seq 1 Xact.second_lt
abbrev thirdSeq : Slot := getElem s.seq 2 Xact.third_lt

def lastSeq : Option Slot := if s.step=0 then none else s.seq[s.step-1]?

def stop (f : Fault) : Outcome History ρ := .abort { s with fault := some f }

def pkbufFree (p : PkbufRef) : History := { s with freed := p::s.freed }

def startResponse : History := { s with tmResponse := s.tmResponse.map fun _ => true }
def stopResponse : History := { s with tmResponse := s.tmResponse.map fun _ => false }

def save (q : Slot) : History :=
  { s with seq := s.seq.setIfInBounds s.step q,step := s.step+1,written := s.step::s.written }

def record (q : Slot) (r : ρ) : Outcome History ρ :=
  if s.step<3 then .ok (s.save q) r else (s.save q).stop .outside

def updateTx (stage : Stage) (finals : List Nat) (type : Byte) (p : PkbufRef) :
    Outcome History Rv :=
  let refused : Outcome History Rv := .ok (s.pkbufFree p) .error
  let sent : Outcome History Rv := s.record ⟨type,some p⟩ .ok
  match s.org, stage with
  | .localOriginator, .initial => if s.step≠0 then refused else sent
  | .localOriginator, .intermediate => refused
  | .localOriginator, .final => if s.step∉finals then refused else sent
  | .localOriginator, .unknown => s.stop .reached
  | .remoteOriginator, .initial => refused
  | .remoteOriginator, .intermediate => if s.step≠1 then refused else sent
  | .remoteOriginator, .final => if s.step≠1 then refused else sent
  | .remoteOriginator, .unknown => refused

def gtp1UpdateTx (type : Byte) (p : PkbufRef) : Outcome History Rv :=
  s.updateTx (gtp1XactGetStage type) [2,3] type p

def gtpUpdateTx (type : Byte) (p : PkbufRef) : Outcome History Rv :=
  s.updateTx (gtp2XactGetStage type s.xid) [2] type p

def pfcpUpdateTx (type : Byte) (p : PkbufRef) : Outcome History Rv :=
  s.updateTx (ofPfcp (Pfcp.getStage type)) [2] type p

def xactUpdateTx (type : Byte) (p : PkbufRef) : Outcome History Rv :=
  match s.protocol with
  | .pfcp => s.pfcpUpdateTx type p
  | .gtp1 => s.gtp1UpdateTx type p
  | .gtp2 => s.gtpUpdateTx type p

abbrev Answer := Rv × Option PkbufRef

def duplicated (next : Slot) : Outcome History Answer :=
  match next.pkbuf with
  | some p => .ok { s with tmHolding := true } (.retry,some p)
  | none => .ok s (.retry,none)

def received (type : Byte) : Outcome History Answer :=
  s.stopResponse.record { s.seq[s.step]?.getD ⟨0,none⟩ with type := type } (.ok,none)

/-- `ogs_gtp_xact_update_rx` and `ogs_pfcp_xact_update_rx`, which differ in the stage only; the
result says what was sent, too. -/
def updateRx (type : Byte) : Outcome History Answer :=
  match s.org, s.stage type with
  | .localOriginator, .initial => .ok s (.error,none)
  | .localOriginator, .intermediate =>
    if s.secondSeq.type=type then
      if s.step≠2 ∧ s.step≠3 then s.stop .nullFreed else s.duplicated s.thirdSeq
    else if s.step≠1 then .ok s (.error,none)
    else { s with tmHolding := true }.received type
  | .localOriginator, .final => if s.step≠1 then .ok s (.error,none) else s.received type
  | .localOriginator, .unknown => .ok s (.error,none)
  | .remoteOriginator, .initial =>
    if s.firstSeq.type=type then
      if s.step≠1 ∧ s.step≠2 then .ok s (.error,none) else s.duplicated s.secondSeq
    else if s.step≠0 then .ok s (.error,none)
    else { s with tmHolding := true }.received type
  | .remoteOriginator, .intermediate => .ok s (.error,none)
  | .remoteOriginator, .final => if s.step≠2 then .ok s (.error,none) else s.received type
  | .remoteOriginator, .unknown => .ok s (.error,none)

def held : List PkbufRef := s.seq.toList.filterMap Slot.pkbuf

def delete : History := { s with freed := s.held++s.freed,alive := false }

def action (intermediate : Xact.Commit) (type : Byte) : Xact.Commit :=
  match s.org, s.stage type with
  | .localOriginator, .initial => if s.step≠1 then .delete .error else .send true
  | .localOriginator, .intermediate => intermediate
  | .localOriginator, .final =>
    if s.step≠2 ∧ s.step≠3 then .delete .error
    else if s.step=2 then .delete .ok else .send false
  | .localOriginator, .unknown => .delete .error
  | .remoteOriginator, .initial => .delete .error
  | .remoteOriginator, .intermediate => if s.step≠2 then .delete .error else .send true
  | .remoteOriginator, .final =>
    if s.step≠2 ∧ s.step≠3 then .delete .error
    else if s.step=3 then .delete .ok else .send false
  | .remoteOriginator, .unknown => .delete .error

def gtpAction (type : Byte) : Xact.Commit :=
  s.action (if s.step≠2 then .delete .error else .keep) type

def pfcpAction (type : Byte) : Xact.Commit := s.action (.delete .error) type

def send (q : Slot) : Outcome History Answer :=
  match q.pkbuf with
  | some p => .ok s (.ok,some p)
  | none => s.stop .noPacket

def commit : Outcome History Answer :=
  match s.lastSeq with
  | none => s.stop .outside
  | some last =>
    match if s.protocol = .pfcp then s.pfcpAction last.type else s.gtpAction last.type with
    | .delete rv => .ok s.delete (rv,none)
    | .keep => .ok s (.ok,none)
    | .send start => (if start then s.startResponse else s).send last

-- `ogs_gtp_xact_receive` and `ogs_pfcp_xact_receive` from where the transaction is known
def receive (type : Byte) : Outcome History Answer :=
  (s.updateRx type).bind fun t a => .ok (if a.1 = .error then t.delete else t) a

/-- `response_timeout`; the first thing it does is to write the type of the last step to the
log. -/
def responseExpired : Outcome History Answer :=
  match s.lastSeq with
  | none => s.stop .outside
  | some last =>
    let t : History := { s with responseRcount := s.responseRcount-1 }
    if 0<t.responseRcount then t.startResponse.send last else .ok t.delete (.ok,none)

def holdingExpired : Outcome History Answer :=
  match s.lastSeq with
  | none => s.stop .outside
  | some _ =>
    let t : History := { s with holdingRcount := s.holdingRcount-1 }
    if 0<t.holdingRcount then .ok { t with tmHolding := true } (.ok,none)
    else .ok t.delete (.ok,none)

/-- What the application, the peer and the timers do with a transaction. A delayed commit of PFCP
is a `commit` at the time its timer runs out. -/
inductive Op where
  | updateTx (type : Byte) (p : PkbufRef)
  | receive (type : Byte)
  | commit
  | responseTimeout
  | holdingTimeout
  | deleteAll
  deriving DecidableEq

def call : Op → Option (Outcome History Answer)
  | .updateTx type p =>
    some ((s.xactUpdateTx type p).bind fun t rv =>
      .ok { t with calls := (p,rv)::t.calls } (rv,none))
  | .receive type => some (s.receive type)
  | .commit => if s.written≠[] then some s.commit else none
  | .responseTimeout =>
    if s.tmResponse=some true then some { s with tmResponse := some false }.responseExpired
    else none
  | .holdingTimeout =>
    if s.tmHolding then some { s with tmHolding := false }.holdingExpired else none
  | .deleteAll => some (.ok s.delete (.ok,none))

def stepOf (e : Op) : Option (Outcome History Answer) := if s.alive then s.call e else none

end History

end OgsDp.Gtp
