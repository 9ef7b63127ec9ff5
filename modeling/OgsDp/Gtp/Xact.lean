import Mathlib.Data.BitVec
import OgsDp.Core.Hash
import OgsDp.Core.Store
import OgsDp.Lib.Run

/-!
# GTP transactions (lib/gtp/xact.c)

GTPv1 and GTPv2 share the pool, the lists of the peers and the counter `g_xact_id`. An
`ogs_gtp_xact_t *` is the subscript of its node in the pool.
-/

namespace OgsDp.Gtp
open Lib OgsDp.Core

inductive Stage where
  | unknown
  | initial
  | intermediate
  | final
  deriving DecidableEq

inductive Version where
  | gtp1
  | gtp2
  deriving DecidableEq

inductive Org where
  | localOriginator
  | remoteOriginator
  deriving DecidableEq

inductive Rv where
  | ok
  | error
  | retry
  deriving DecidableEq

def gtp1XactGetStage (type : Byte) : Stage :=
  if type.val∈[1,4,6,16,18,20,22,27,29,32,34,36,48,50,53,56,61,70] then .initial
  else if type.val=51 then .intermediate
  else if type.val∈[2,5,7,17,19,21,23,28,30,33,35,37,49,52,54,57,62] then .final
  else .unknown

def isCmdXid (xid : BitVec 32) : Bool := xid.getLsbD 23

def gtp2XactGetStage (type : Byte) (xid : BitVec 32) : Stage :=
  if type.val∈[1,32,34,36,38,40,64,66,68,71,72,73,101,103,160,162,164,166,168,
      170,176,179,200,211] then .initial
  else if type.val∈[95,97,99] then if isCmdXid xid then .intermediate else .initial
  else if type.val∈[2,3,33,35,37,39,41,65,67,69,70,96,98,100,102,104,161,163,
      165,167,169,171,177,180,201,212] then .final
  else .unknown

def getStage : Version → Byte → BitVec 32 → Stage
  | .gtp1, type, _ => gtp1XactGetStage type
  | .gtp2, type, xid => gtp2XactGetStage type xid

def isCommand (type : Byte) : Prop := type.val∈[64,66,68]
def isFailureIndication (type : Byte) : Prop := type.val∈[65,67,69]

instance (type : Byte) : Decidable (isCommand type) := inferInstanceAs (Decidable (_∈_))
instance (type : Byte) : Decidable (isFailureIndication type) := inferInstanceAs (Decidable (_∈_))

def nextXactId (id min max : BitVec 32) : BitVec 32 := if id=max then min else id+1

structure Header1 where
  type : Byte
  s : Bool
  teid : BitVec 32
  sqn : BitVec 16
  deriving DecidableEq

-- Without a TEID `sqn_only` is in its place; both numbers as `be32toh` reads them.
structure Header2 where
  type : Byte
  teidPresence : Bool
  teid : BitVec 32
  sqn : BitVec 32
  deriving DecidableEq

def Header2.sqnOnly (h : Header2) : BitVec 32 := h.teid

def gtp1XidToSqn (xid : BitVec 32) : BitVec 16 := xid.setWidth 16
def gtp1SqnToXid (sqn : BitVec 16) : BitVec 32 := sqn.setWidth 32
def gtp2XidToSqn (xid : BitVec 32) : BitVec 32 := xid <<< 8
def gtp2SqnToXid (sqn : BitVec 32) : BitVec 32 := sqn >>> 8

def gtp1Push (type : Byte) (teid xid : BitVec 32) (body : List Byte) : List Byte :=
  [0x32,type]++netBytes 2 (12+body.length-8)++netBytes 4 teid.toNat ++
    netBytes 2 (gtp1XidToSqn xid).toNat++[0,0]++body

def gtp2Push (type : Byte) (teid xid : BitVec 32) (body : List Byte) : List Byte :=
  if 3<type.val then
    [0x48,type]++netBytes 2 (12+body.length-4)++netBytes 4 teid.toNat ++
      netBytes 4 (gtp2XidToSqn xid).toNat++body
  else
    [0x40,type]++netBytes 2 (8+body.length-4)++netBytes 4 (gtp2XidToSqn xid).toNat++body

structure Seq where
  type : Byte
  pkbuf : Option (List Byte)
  deriving DecidableEq

-- A timer that was not added is `none`, else it says whether the timer is running.
structure Xact where
  id : Nat
  gtpVersion : Version
  org : Org
  xid : BitVec 32
  node : Nat
  step : Nat
  seq : Vector Seq 3
  tmResponse : Option Bool
  responseRcount : BitVec 8
  tmHolding : Bool
  holdingRcount : BitVec 8
  tmPeer : Option Bool
  deriving DecidableEq

/-- `n3_response_rcount` and `n3_holding_rcount` of the configuration. -/
structure Rcounts where
  response : BitVec 8
  holding : BitVec 8

instance : Housed Xact (Org × Nat) where
  home x := (x.org,x.node)
  ident x := x.id

namespace Xact

def create (rc : Rcounts) (id : Nat) (v : Version) (org : Org) (xid : BitVec 32) (node : Nat)
    (response peer : Bool) : Xact where
  id := id
  gtpVersion := v
  org := org
  xid := xid
  node := node
  step := 0
  seq := Vector.replicate 3 ⟨0,none⟩
  tmResponse := if response then some false else none
  responseRcount := if response then rc.response else 0
  tmHolding := false
  holdingRcount := rc.holding
  tmPeer := if peer then some false else none

theorem first_lt : 0<3 := by decide
theorem second_lt : 1<3 := by decide
theorem third_lt : 2<3 := by decide

abbrev firstSeq (x : Xact) : Seq := getElem x.seq 0 first_lt
abbrev secondSeq (x : Xact) : Seq := getElem x.seq 1 second_lt
abbrev thirdSeq (x : Xact) : Seq := getElem x.seq 2 third_lt

def lastSeq (x : Xact) : Option Seq :=
  if x.step=0 then none else x.seq[x.step-1]?

def save (x : Xact) (s : Seq) : Xact :=
  { x with seq := x.seq.setIfInBounds x.step s,step := x.step+1 }

def startResponse (x : Xact) : Xact := { x with tmResponse := x.tmResponse.map fun _ => true }
def stopResponse (x : Xact) : Xact := { x with tmResponse := x.tmResponse.map fun _ => false }

def updateTx (x : Xact) (stage : Stage) (finals : List Nat) (s : Seq) : Option (Outcome Xact Rv) :=
  let sent : Option (Outcome Xact Rv) := if x.step<3 then some (.ok (x.save s) .ok) else none
  match x.org, stage with
  | .localOriginator, .initial => if x.step≠0 then some (.ok x .error) else sent
  | .localOriginator, .intermediate => some (.ok x .error)
  | .localOriginator, .final => if x.step∉finals then some (.ok x .error) else sent
  | .localOriginator, .unknown => some (.abort x)
  | .remoteOriginator, .initial => some (.ok x .error)
  | .remoteOriginator, .intermediate => if x.step≠1 then some (.ok x .error) else sent
  | .remoteOriginator, .final => if x.step≠1 then some (.ok x .error) else sent
  | .remoteOriginator, .unknown => some (.ok x .error)

def gtp1UpdateTx (x : Xact) (h : Header1) (body : List Byte) : Option (Outcome Xact Rv) :=
  x.updateTx (gtp1XactGetStage h.type) [2,3] ⟨h.type,some (gtp1Push h.type h.teid x.xid body)⟩

def gtpUpdateTx (x : Xact) (h : Header2) (body : List Byte) : Option (Outcome Xact Rv) :=
  x.updateTx (gtp2XactGetStage h.type x.xid) [2] ⟨h.type,some (gtp2Push h.type h.teid x.xid body)⟩

def duplicated (x : Xact) (next : Seq) : Outcome Xact (Rv × Option (List Byte)) :=
  match next.pkbuf with
  | some pkbuf => .ok { x with tmHolding := true } (.retry,some pkbuf)
  | none => .ok x (.retry,none)

def received (x : Xact) (type : Byte) : Outcome Xact (Rv × Option (List Byte)) :=
  .ok (x.stopResponse.save { x.seq[x.step]?.getD ⟨0,none⟩ with type := type }) (.ok,none)

/-- `ogs_gtp_xact_update_rx`; the result says what was sent, too. -/
def updateRx (x : Xact) (type : Byte) : Outcome Xact (Rv × Option (List Byte)) :=
  match x.org, getStage x.gtpVersion type x.xid with
  | .localOriginator, .initial => .ok x (.error,none)
  | .localOriginator, .intermediate =>
    if x.secondSeq.type=type then
      -- `ogs_pkbuf_free` of a null pointer
      if x.step≠2 ∧ x.step≠3 then .abort x else x.duplicated x.thirdSeq
    else if x.step≠1 then .ok x (.error,none)
    else { x with tmHolding := true }.received type
  | .localOriginator, .final => if x.step≠1 then .ok x (.error,none) else x.received type
  | .localOriginator, .unknown => .ok x (.error,none)
  | .remoteOriginator, .initial =>
    if x.firstSeq.type=type then
      if x.step≠1 ∧ x.step≠2 then .ok x (.error,none) else x.duplicated x.secondSeq
    else if x.step≠0 then .ok x (.error,none)
    else { x with tmHolding := true }.received type
  | .remoteOriginator, .intermediate => .ok x (.error,none)
  | .remoteOriginator, .final => if x.step≠2 then .ok x (.error,none) else x.received type
  | .remoteOriginator, .unknown => .ok x (.error,none)

/-- What `ogs_gtp_xact_commit` does with a transaction: it is deleted, left as it is, or its last
packet is sent after the response timer was started or not. -/
inductive Commit where
  | delete (rv : Rv)
  | keep
  | send (startResponse : Bool)
  deriving DecidableEq

def commit (x : Xact) (type : Byte) : Commit :=
  match x.org, getStage x.gtpVersion type x.xid with
  | .localOriginator, .initial => if x.step≠1 then .delete .error else .send true
  | .localOriginator, .intermediate => if x.step≠2 then .delete .error else .keep
  | .localOriginator, .final =>
    if x.step≠2 ∧ x.step≠3 then .delete .error
    else if x.step=2 then .delete .ok else .send false
  | .localOriginator, .unknown => .delete .error
  | .remoteOriginator, .initial => .delete .error
  | .remoteOriginator, .intermediate => if x.step≠2 then .delete .error else .send true
  | .remoteOriginator, .final =>
    if x.step≠2 ∧ x.step≠3 then .delete .error
    else if x.step=3 then .delete .ok else .send false
  | .remoteOriginator, .unknown => .delete .error

end Xact

/-- The transactions in `local_list` and `remote_list` of every peer, and `g_xact_id`. -/
structure Layer extends Store Xact (Org × Nat) where
  xactId : BitVec 32

structure Result where
  rv : Rv
  xact : Option Nat
  sent : Option (Nat × List Byte)
  deriving DecidableEq

namespace Layer

/-- `ogs_gtp_xact_init`; `obj` is what the nodes of the pool hold then. -/
def init (size : Nat) (obj : Nat → Xact) : Layer := ⟨Store.init size obj,0⟩

def setXact (s : Layer) (r : Nat) (x : Xact) : Layer := { s with toStore := s.setObj r x }

def delete (s : Layer) (r : Nat) : Layer := { s with toStore := s.remove r }

def create (rc : Rcounts) (s : Layer) (v : Version) (org : Org) (xid : BitVec 32) (node : Nat)
    (response peer : Bool) (timers : Nat) : Outcome Layer Nat :=
  match s.pool.idCalloc with
  | (pool,some (r,id)) =>
    if timers < response.toNat+1+peer.toNat then .abort { s with pool := pool }
    else .ok { s with toStore := s.add pool r (.create rc id v org xid node response peer) } r
  | (pool,none) => .abort { s with pool := pool }

def firstTx (s : Layer) (r : Nat) : Option (Outcome Xact Rv) → Option (Outcome Layer Result)
  | some (.ok x .ok) => some (.ok (s.setXact r x) ⟨.ok,some r,none⟩)
  | some (.ok x _) => some (.ok ((s.setXact r x).delete r) ⟨.error,none,none⟩)
  | some (.abort x) => some (.abort (s.setXact r x))
  | none => none

/-- `ogs_gtp1_xact_local_create`; a RAN Information Relay has no response. -/
def gtp1LocalCreate (rc : Rcounts) (s : Layer) (node : Nat) (h : Header1) (body : List Byte)
    (timers : Nat) : Option (Outcome Layer Result) :=
  let xid:=nextXactId s.xactId 0 65535
  match create rc { s with xactId := xid } .gtp1 .localOriginator xid node (h.type.val≠70) false
      timers with
  | .ok t r => t.firstTx r ((t.obj r).gtp1UpdateTx h body)
  | .abort t => some (.abort t)

def gtpLocalCreate (rc : Rcounts) (s : Layer) (node : Nat) (h : Header2) (body : List Byte)
    (timers : Nat) : Option (Outcome Layer Result) :=
  let next:=nextXactId s.xactId 1 0x800000
  let xid := if isCommand h.type then next ||| 0x800000 else next
  match create rc { s with xactId := next } .gtp2 .localOriginator xid node true true timers with
  | .ok t r => t.firstTx r ((t.obj r).gtpUpdateTx h body)
  | .abort t => some (.abort t)

def remoteCreate (rc : Rcounts) (s : Layer) (node : Nat) (v : Version) (xid : BitVec 32)
    (timers : Nat) : Outcome Layer Nat :=
  create rc s v .remoteOriginator xid node true true timers

def deleteList (s : Layer) (l : List Nat) : Layer := l.foldl delete s

def deleteAll (s : Layer) (node : Nat) : Layer :=
  let s:=s.deleteList (s.list (.localOriginator,node))
  s.deleteList (s.list (.remoteOriginator,node))

def commit (s : Layer) (r : Nat) : Option (Outcome Layer Result) :=
  let x:=s.obj r
  match x.lastSeq with
  | none => none
  | some last =>
    match x.commit last.type with
    | .delete rv => some (.ok (s.delete r) ⟨rv,none,none⟩)
    | .keep => some (.ok s ⟨.ok,none,none⟩)
    | .send start =>
      let t:=s.setXact r (if start then x.startResponse else x)
      match last.pkbuf with
      | some pkbuf => some (.ok t ⟨.ok,none,some (x.node,pkbuf)⟩)
      | none => some (.abort t)

def findXact (s : Layer) (l : List Nat) (v : Version) (xid : BitVec 32) : Option Nat :=
  l.find? fun r => (s.obj r).gtpVersion == v && (s.obj r).xid == xid

-- What both versions of `receive` do with the transaction of a message.
def deliver (s : Layer) (r : Nat) (type : Byte) : Outcome Layer Result :=
  match (s.obj r).updateRx type with
  | .ok x (.error,_) => .ok ((s.setXact r x).delete r) ⟨.error,none,none⟩
  | .ok x (.retry,sent) => .ok (s.setXact r x) ⟨.retry,none,sent.map fun p => (x.node,p)⟩
  | .ok x (.ok,_) => .ok (s.setXact r x) ⟨.ok,some r,none⟩
  | .abort x => .abort (s.setXact r x)

def receive (rc : Rcounts) (s : Layer) (node : Nat) (v : Version) (org : Option Org) (type : Byte)
    (xid : BitVec 32) (timers : Nat) : Outcome Layer Result :=
  match org with
  | none => .ok s ⟨.error,none,none⟩
  | some org =>
    match s.findXact (s.list (org,node)) v xid with
    | some r => s.deliver r type
    | none => (s.remoteCreate rc node v xid timers).bind fun t r => t.deliver r type

end Layer

def gtp1ListOf (type : Byte) : Option Org :=
  match gtp1XactGetStage type with
  | .initial => some .remoteOriginator
  | .intermediate => some .localOriginator
  | .final => if type.val=52 then some .remoteOriginator else some .localOriginator
  | .unknown => none

def gtp2ListOf (type : Byte) (xid : BitVec 32) : Option Org :=
  match gtp2XactGetStage type xid with
  | .initial => some .remoteOriginator
  | .intermediate => some .localOriginator
  | .final =>
    if isCmdXid xid then
      if isFailureIndication type then some .localOriginator else some .remoteOriginator
    else some .localOriginator
  | .unknown => none

namespace Layer

def gtp1Receive (rc : Rcounts) (s : Layer) (node : Nat) (h : Header1) (timers : Nat) :
    Outcome Layer Result :=
  if !h.s then .ok s ⟨.error,none,none⟩
  else s.receive rc node .gtp1 (gtp1ListOf h.type) h.type (gtp1SqnToXid h.sqn) timers

def gtpReceive (rc : Rcounts) (s : Layer) (node : Nat) (h : Header2) (timers : Nat) :
    Outcome Layer Result :=
  let xid:=gtp2SqnToXid (if h.teidPresence then h.sqn else h.sqnOnly)
  s.receive rc node .gtp2 (gtp2ListOf h.type xid) h.type xid timers

/-- `response_timeout` of the transaction that was found by its id. -/
def responseExpired (s : Layer) (r : Nat) : Option (Outcome Layer Result) :=
  let x:={ s.obj r with responseRcount := (s.obj r).responseRcount-1 }
  if 0<x.responseRcount then
    match x.lastSeq with
    | none => none
    | some last =>
      let t:=s.setXact r x.startResponse
      match last.pkbuf with
      | some pkbuf => some (.ok t ⟨.ok,none,some (x.node,pkbuf)⟩)
      | none => some (.abort t)
  else some (.ok ((s.setXact r x).delete r) ⟨.ok,none,none⟩)

/-- `holding_timeout` of the transaction that was found by its id. -/
def holdingExpired (s : Layer) (r : Nat) : Option (Outcome Layer Result) :=
  let x:={ s.obj r with holdingRcount := (s.obj r).holdingRcount-1 }
  if 0<x.holdingRcount then
    some (.ok (s.setXact r { x with tmHolding := true }) ⟨.ok,none,none⟩)
  else some (.ok ((s.setXact r x).delete r) ⟨.ok,none,none⟩)

def timeout (s : Layer) (id : Nat) (expired : Layer → Nat → Option (Outcome Layer Result)) :
    Option (Outcome Layer Result) :=
  match s.pool.findById id with
  | some r => expired s r
  | none => some (.ok s ⟨.ok,none,none⟩)

inductive Op where
  | gtp1LocalCreate (node : Nat) (h : Header1) (body : List Byte) (timers : Nat)
  | gtpLocalCreate (node : Nat) (h : Header2) (body : List Byte) (timers : Nat)
  | gtp1Receive (node : Nat) (h : Header1) (timers : Nat)
  | gtpReceive (node : Nat) (h : Header2) (timers : Nat)
  | gtp1UpdateTx (r : Nat) (h : Header1) (body : List Byte)
  | gtpUpdateTx (r : Nat) (h : Header2) (body : List Byte)
  | commit (r : Nat)
  | deleteAll (node : Nat)
  | startPeer (r : Nat)
  | responseTimeout (r : Nat)
  | holdingTimeout (r : Nat)
  | peerTimeout (r : Nat)
  deriving DecidableEq

def tx (s : Layer) (r : Nat) : Option (Outcome Xact Rv) → Option (Outcome Layer Result)
  | some (.ok x rv) => some (.ok (s.setXact r x) ⟨rv,none,none⟩)
  | some (.abort x) => some (.abort (s.setXact r x))
  | none => none

def step (rc : Rcounts) (s : Layer) : Op → Option (Outcome Layer Result)
  | .gtp1LocalCreate node h body timers => s.gtp1LocalCreate rc node h body timers
  | .gtpLocalCreate node h body timers => s.gtpLocalCreate rc node h body timers
  | .gtp1Receive node h timers => some (s.gtp1Receive rc node h timers)
  | .gtpReceive node h timers => some (s.gtpReceive rc node h timers)
  | .gtp1UpdateTx r h body => if s.Live r then s.tx r ((s.obj r).gtp1UpdateTx h body) else none
  | .gtpUpdateTx r h body => if s.Live r then s.tx r ((s.obj r).gtpUpdateTx h body) else none
  | .commit r => if s.Live r then s.commit r else none
  | .deleteAll node => some (.ok (s.deleteAll node) ⟨.ok,none,none⟩)
  | .startPeer r =>
    if s.Live r then
      some (.ok (s.setXact r { s.obj r with tmPeer := (s.obj r).tmPeer.map fun _ => true })
        ⟨.ok,none,none⟩)
    else none
  -- the timer manager stops a timer before it calls back
  | .responseTimeout r =>
    if s.Live r ∧ (s.obj r).tmResponse=some true then
      (s.setXact r (s.obj r).stopResponse).timeout (s.obj r).id responseExpired
    else none
  | .holdingTimeout r =>
    if s.Live r ∧ (s.obj r).tmHolding then
      (s.setXact r { s.obj r with tmHolding := false }).timeout (s.obj r).id holdingExpired
    else none
  | .peerTimeout r =>
    if s.Live r ∧ (s.obj r).tmPeer=some true then
      some (.ok (s.setXact r { s.obj r with tmPeer := some false }) ⟨.ok,none,none⟩)
    else none

end Layer

end OgsDp.Gtp
