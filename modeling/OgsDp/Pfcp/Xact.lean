import OgsDp.Lib.Run
import OgsDp.Core.Pool
import OgsDp.Core.Hash

/-!
# PFCP transactions (lib/pfcp/xact.c)

The transactions of all peers are the nodes of one pool; an `ogs_pfcp_xact_t *` is the subscript
of its node.
-/

namespace OgsDp.Pfcp
open Lib OgsDp.Core Function

inductive Stage where
  | unknown
  | initial
  | intermediate
  | final
  deriving DecidableEq

def getStage (type : Byte) : Stage :=
  if type.val∈[1,5,7,9,50,52,54,56] then .initial
  else if type.val∈[2,6,8,10,11,51,53,55,57] then .final
  else .unknown

theorem getStage_ne_intermediate (type : Byte) : getStage type ≠ .intermediate := by
  unfold getStage
  split
  · decide
  · split <;> decide

inductive Org where
  | localOriginator
  | remoteOriginator
  deriving DecidableEq

theorem Org.local_or_remote (o : Org) : o = .localOriginator ∨ o = .remoteOriginator := by
  cases o
  · exact .inl rfl
  · exact .inr rfl

inductive Rv where
  | ok
  | error
  | retry
  deriving DecidableEq

-- `sqn` as `be32toh` reads it: the sequence number, then a spare byte.
structure Header where
  type : Byte
  seid : BitVec 64
  sqn : BitVec 32
  deriving DecidableEq

def sqnToXid (sqn : BitVec 32) : BitVec 32 := sqn >>> 8
def xidToSqn (xid : BitVec 32) : BitVec 32 := xid <<< 8

def pushHeader (type : Byte) (seid : BitVec 64) (xid : BitVec 32) (body : List Byte) : List Byte :=
  if 50≤type.val then
    [0x21,type]++netBytes 2 (16+body.length-4)++netBytes 8 seid.toNat ++
      netBytes 4 (xidToSqn xid).toNat++body
  else
    [0x20,type]++netBytes 2 (8+body.length-4)++netBytes 4 (xidToSqn xid).toNat++body

structure Seq where
  type : Byte
  pkbuf : Option (List Byte)
  deriving DecidableEq

structure Xact where
  id : Nat
  index : Nat
  org : Org
  xid : BitVec 32
  node : Nat
  step : Nat
  seq : Vector Seq 3
  tmResponse : Bool
  responseRcount : BitVec 8
  tmHolding : Bool
  holdingRcount : BitVec 8
  tmDelayedCommit : Bool
  deriving DecidableEq

/-- `n1_response_rcount` and `n1_holding_rcount` of the configuration. -/
structure Rcounts where
  response : BitVec 8
  holding : BitVec 8

namespace Xact

def create (rc : Rcounts) (id index : Nat) (org : Org) (xid : BitVec 32) (node : Nat) : Xact where
  id := id
  index := index
  org := org
  xid := xid
  node := node
  step := 0
  seq := Vector.replicate 3 ⟨0,none⟩
  tmResponse := false
  responseRcount := rc.response
  tmHolding := false
  holdingRcount := rc.holding
  tmDelayedCommit := false

-- `seq[0]` and `seq[1]`, in a transaction of the peer its request and the response to it.
abbrev firstSeq (x : Xact) : Seq := x.seq[0]

abbrev secondSeq (x : Xact) : Seq := x.seq[1]

def lastSeq (x : Xact) : Option Seq :=
  if x.step=0 then none else x.seq[x.step-1]?

def save (x : Xact) (s : Seq) : Xact :=
  { x with seq := x.seq.setIfInBounds x.step s,step := x.step+1 }

def updateTx (x : Xact) (h : Header) (body : List Byte) : Outcome Xact Rv :=
  let sent : Outcome Xact Rv := .ok (x.save ⟨h.type,some (pushHeader h.type h.seid x.xid body)⟩) .ok
  match x.org, getStage h.type with
  | .localOriginator, .initial => if x.step≠0 then .ok x .error else sent
  | .localOriginator, .intermediate => .ok x .error
  | .localOriginator, .final => if x.step≠2 then .ok x .error else sent
  | .localOriginator, .unknown => .abort x
  | .remoteOriginator, .initial => .ok x .error
  | .remoteOriginator, .intermediate => if x.step≠1 then .ok x .error else sent
  | .remoteOriginator, .final => if x.step≠1 then .ok x .error else sent
  | .remoteOriginator, .unknown => .ok x .error

def duplicated (x : Xact) (next : Seq) : Outcome Xact (Rv × Option (List Byte)) :=
  match next.pkbuf with
  | some pkbuf => .ok { x with tmHolding := true } (.retry,some pkbuf)
  | none => .ok x (.retry,none)

def received (x : Xact) (type : Byte) : Outcome Xact (Rv × Option (List Byte)) :=
  .ok ({ x with tmResponse := false }.save { x.seq[x.step]?.getD ⟨0,none⟩ with type := type })
    (.ok,none)

/-- `ogs_pfcp_xact_update_rx`; the result says what was sent, too. -/
def updateRx (x : Xact) (type : Byte) : Outcome Xact (Rv × Option (List Byte)) :=
  match x.org, getStage type with
  | .localOriginator, .initial => .ok x (.error,none)
  | .localOriginator, .intermediate =>
    if x.secondSeq.type=type then
      -- `ogs_pkbuf_free` of a null pointer
      if x.step≠2 ∧ x.step≠3 then .abort x else x.duplicated x.seq[2]
    else if x.step≠1 then .ok x (.error,none)
    else { x with tmHolding := true }.received type
  | .localOriginator, .final =>
    if x.step≠1 then .ok x (.error,none) else x.received type
  | .localOriginator, .unknown => .ok x (.error,none)
  | .remoteOriginator, .initial =>
    if x.firstSeq.type=type then
      if x.step≠1 ∧ x.step≠2 then .ok x (.error,none) else x.duplicated x.secondSeq
    else if x.step≠0 then .ok x (.error,none)
    else { x with tmHolding := true }.received type
  | .remoteOriginator, .intermediate => .ok x (.error,none)
  | .remoteOriginator, .final =>
    if x.step≠2 then .ok x (.error,none) else x.received type
  | .remoteOriginator, .unknown => .ok x (.error,none)

/-- What `ogs_pfcp_xact_commit` does with a transaction: it is deleted, or its last packet is
sent after the response timer was started or not. -/
inductive Commit where
  | delete (rv : Rv)
  | send (startResponse : Bool)
  deriving DecidableEq

def commit (x : Xact) (type : Byte) : Commit :=
  match x.org, getStage type with
  | .localOriginator, .initial => if x.step≠1 then .delete .error else .send true
  | .localOriginator, .intermediate => .delete .error
  | .localOriginator, .final =>
    if x.step≠2 ∧ x.step≠3 then .delete .error
    else if x.step=2 then .delete .ok else .send false
  | .localOriginator, .unknown => .delete .error
  | .remoteOriginator, .initial => .delete .error
  | .remoteOriginator, .intermediate => if x.step≠2 then .delete .error else .send true
  | .remoteOriginator, .final =>
    if x.step≠2 ∧ x.step≠3 then .delete .error
    else if x.step=3 then .delete .ok else .send false
  | .remoteOriginator, .unknown => .delete .error

end Xact

structure Xact.Same (x y : Xact) : Prop where
  id : y.id=x.id
  org : y.org=x.org
  xid : y.xid=x.xid
  node : y.node=x.node

/-- The transaction pool, `g_xact_id`, and `local_list` and `remote_list` of every peer. -/
structure Layer where
  pool : Pool
  xact : Nat → Xact
  xactId : Nat
  list : Org → Nat → List Nat

structure Result where
  rv : Rv
  xact : Option Nat
  sent : Option (Nat × List Byte)
  deriving DecidableEq

namespace Layer

/-- `ogs_pfcp_xact_init`; `xact` is what the nodes of the pool hold then. -/
def init (size : Nat) (xact : Nat → Xact) : Layer where
  pool := Pool.init size
  xact := xact
  xactId := 0
  list := fun _ _ => []

def setXact (s : Layer) (r : Nat) (x : Xact) : Layer :=
  { s with xact := update s.xact r x }

def setList (s : Layer) (org : Org) (node : Nat) (l : List Nat) : Layer :=
  { s with list := update s.list org (update (s.list org) node l) }

def create (rc : Rcounts) (s : Layer) (org : Org) (xid : BitVec 32) (node timers : Nat) :
    Outcome Layer Nat :=
  match s.pool.idCalloc with
  | (pool,some (r,id)) =>
    if timers<3 then .abort { s with pool := pool }
    else
      .ok (({ s with pool := pool }.setXact r
        (Xact.create rc id (Pool.poolIndex r) org xid node)).setList org node (s.list org node++[r])) r
  | (pool,none) => .abort { s with pool := pool }

def localCreate (rc : Rcounts) (s : Layer) (node timers : Nat) : Outcome Layer Nat :=
  let xid:=nextId s.xactId 1 0x800000
  create rc { s with xactId := xid } .localOriginator (BitVec.ofNat 32 xid) node timers

def remoteCreate (rc : Rcounts) (s : Layer) (node : Nat) (sqn : BitVec 32) (timers : Nat) :
    Outcome Layer Nat :=
  create rc s .remoteOriginator (sqnToXid sqn) node timers

def delete (s : Layer) (r : Nat) : Layer :=
  let x:=s.xact r
  { s.setList x.org x.node ((s.list x.org x.node).erase r) with pool := s.pool.idFree r x.id }

def commit (s : Layer) (r : Nat) : Option (Outcome Layer Result) :=
  let x:=s.xact r
  match x.lastSeq with
  | none => none
  | some last =>
    match x.commit last.type with
    | .delete rv => some (.ok (s.delete r) ⟨rv,none,none⟩)
    | .send startResponse =>
      let t:=s.setXact r { x with tmResponse := x.tmResponse || startResponse }
      match last.pkbuf with
      | some pkbuf => some (.ok t ⟨.ok,none,some (x.node,pkbuf)⟩)
      | none => some (.abort t)

def listOf (s : Layer) (node : Nat) : Stage → Option (List Nat)
  | .initial => some (s.list .remoteOriginator node)
  | .intermediate => some (s.list .localOriginator node)
  | .final => some (s.list .localOriginator node)
  | .unknown => none

def findByXid (s : Layer) (l : List Nat) (xid : BitVec 32) : Option Nat :=
  l.find? fun r => (s.xact r).xid == xid

def deliver (s : Layer) (r : Nat) (type : Byte) : Outcome Layer Result :=
  match (s.xact r).updateRx type with
  | .ok x (.error,_) => .ok ((s.setXact r x).delete r) ⟨.error,none,none⟩
  | .ok x (.retry,sent) => .ok (s.setXact r x) ⟨.retry,none,sent.map fun p => (x.node,p)⟩
  | .ok x (.ok,_) => .ok (s.setXact r x) ⟨.ok,some r,none⟩
  | .abort x => .abort (s.setXact r x)

def receive (rc : Rcounts) (s : Layer) (node : Nat) (h : Header) (timers : Nat) :
    Outcome Layer Result :=
  match s.listOf node (getStage h.type) with
  | none => .ok s ⟨.error,none,none⟩
  | some l =>
    match s.findByXid l (sqnToXid h.sqn) with
    | some r => s.deliver r h.type
    | none => (s.remoteCreate rc node h.sqn timers).bind fun t r => t.deliver r h.type

/-- `response_timeout` of the transaction that was found by its id. -/
def responseExpired (s : Layer) (r : Nat) : Option (Outcome Layer Result) :=
  let x:={ s.xact r with responseRcount := (s.xact r).responseRcount-1 }
  if 0<x.responseRcount then
    match x.lastSeq with
    | none => none
    | some last =>
      let t:=s.setXact r { x with tmResponse := true }
      match last.pkbuf with
      | some pkbuf => some (.ok t ⟨.ok,none,some (x.node,pkbuf)⟩)
      | none => some (.abort t)
  else some (.ok ((s.setXact r x).delete r) ⟨.ok,none,none⟩)

def holdingExpired (s : Layer) (r : Nat) : Option (Outcome Layer Result) :=
  let x:={ s.xact r with holdingRcount := (s.xact r).holdingRcount-1 }
  if 0<x.holdingRcount then
    some (.ok (s.setXact r { x with tmHolding := true }) ⟨.ok,none,none⟩)
  else some (.ok ((s.setXact r x).delete r) ⟨.ok,none,none⟩)

def timeout (s : Layer) (id : Nat) (expired : Layer → Nat → Option (Outcome Layer Result)) :
    Option (Outcome Layer Result) :=
  match s.pool.findById id with
  | some r => expired s r
  | none => some (.ok s ⟨.ok,none,none⟩)

def Live (s : Layer) (r : Nat) : Prop := s.pool.index r=some r

instance (s : Layer) (r : Nat) : Decidable (s.Live r) := inferInstanceAs (Decidable (_=_))

inductive Op where
  | localCreate (node timers : Nat)
  | receive (node : Nat) (h : Header) (timers : Nat)
  | updateTx (r : Nat) (h : Header) (body : List Byte)
  | commit (r : Nat)
  | delayedCommit (r : Nat)
  | responseTimeout (r : Nat)
  | holdingTimeout (r : Nat)
  | delayedCommitTimeout (r : Nat)
  deriving DecidableEq

def step (rc : Rcounts) (s : Layer) : Op → Option (Outcome Layer Result)
  | .localCreate node timers =>
    some ((s.localCreate rc node timers).bind fun t r => .ok t ⟨.ok,some r,none⟩)
  | .receive node h timers => some (s.receive rc node h timers)
  | .updateTx r h body =>
    if s.Live r then
      match (s.xact r).updateTx h body with
      | .ok x rv => some (.ok (s.setXact r x) ⟨rv,none,none⟩)
      | .abort x => some (.abort (s.setXact r x))
    else none
  | .commit r => if s.Live r then s.commit r else none
  | .delayedCommit r =>
    if s.Live r then
      some (.ok (s.setXact r { s.xact r with tmDelayedCommit := true }) ⟨.ok,none,none⟩)
    else none
  -- the timer manager stops a timer before it calls back
  | .responseTimeout r =>
    if s.Live r ∧ (s.xact r).tmResponse then
      (s.setXact r { s.xact r with tmResponse := false }).timeout (s.xact r).id responseExpired
    else none
  | .holdingTimeout r =>
    if s.Live r ∧ (s.xact r).tmHolding then
      (s.setXact r { s.xact r with tmHolding := false }).timeout (s.xact r).id holdingExpired
    else none
  | .delayedCommitTimeout r =>
    if s.Live r ∧ (s.xact r).tmDelayedCommit then
      (s.setXact r { s.xact r with tmDelayedCommit := false }).timeout (s.xact r).id commit
    else none

end Layer

end OgsDp.Pfcp
