import OgsDp.Core.Pool
import OgsDp.Lib.Run
import OgsDp.Pfcp.Types

/-!
# PFCP rules and the TEID table (lib/pfcp/context.c)

PDRs, FARs, URRs and QERs are nodes of pools, named by their subscripts, and the lists of a
session hold them in order; `NULL` is `none`.
-/

namespace OgsDp.Pfcp
open Lib RefTable OgsDp.Core Function

def maxNumOfPdr : Nat := 16
def maxNumOfFar : Nat := 16
def maxNumOfUrr : Nat := 16
def maxNumOfQer : Nat := 4

structure Rule (α : Type) where
  idNode : Nat
  id : BitVec 32
  sess : Nat
  body : α

/-- One kind of rule: its pool, and the list and the id pool that each session has of it. -/
structure RuleTable (α : Type) where
  pool : Pool
  slot : Nat → Rule α
  list : Nat → List Nat
  idPool : Nat → Pool

/-- What a rule of one kind says after `memset` and when it has been added, and the bound of
the assertion on the id it gets. -/
structure RuleKind (α : Type) where
  zero : α
  added : α
  max : Nat

namespace RuleTable

variable {α : Type}

def find (t : RuleTable α) (s : Nat) (id : BitVec 32) : Option Nat :=
  (t.list s).find? fun r => (t.slot r).id == id

def modify (t : RuleTable α) (r : Nat) (f : Rule α → Rule α) : RuleTable α :=
  { t with slot := update t.slot r (f (t.slot r)) }

def add (kind : RuleKind α) (t : RuleTable α) (s : Nat) : Outcome (RuleTable α) (Option Nat) :=
  match t.pool.alloc with
  | (_,none) => .ok t none
  | (pool,some r) =>
    let t:={ t with pool := pool,slot := update t.slot r ⟨0,0,0,kind.zero⟩ }
    match (t.idPool s).alloc with
    | (_,none) => .ok { t with pool := t.pool.release r } none
    | (idPool,some k) =>
      let t:={ t with idPool := update t.idPool s idPool }
      let t:=t.modify r fun x => { x with idNode := k,id := BitVec.ofNat 32 (k+1) }
      if k+1≤kind.max then
        let t:=t.modify r fun x => { x with body := kind.added,sess := s }
        .ok { t with list := update t.list s (t.list s++[r]) } (some r)
      else .abort t

def findOrAdd (kind : RuleKind α) (t : RuleTable α) (s : Nat) (id : BitVec 32) :
    Outcome (RuleTable α) Nat :=
  match t.find s id with
  | some r => .ok t r
  | none =>
    (t.add kind s).bind fun t r =>
      match r with
      | none => .abort t
      | some r => .ok (t.modify r fun x => { x with id := id }) r

def remove (t : RuleTable α) (r : Nat) : RuleTable α :=
  let s:=(t.slot r).sess
  { t with
    list := update t.list s ((t.list s).erase r)
    idPool := update t.idPool s ((t.idPool s).release (t.slot r).idNode)
    pool := t.pool.release r }

def init (kind : RuleKind α) (poolSess : Nat) : RuleTable α where
  pool := Pool.init (poolSess*kind.max)
  slot := fun _ => ⟨0,0,0,kind.zero⟩
  list := fun _ => []
  idPool := fun _ => Pool.init kind.max

end RuleTable

structure Far where
  applyAction : BitVec 16
  dstIf : Byte
  dstIfType : Option Byte
  outerHeaderCreation : Vector Byte 26
  smreqFlags : Byte

structure Urr where
  measMethod : Byte
  repTriggers : Byte × Byte × Byte
  measInfo : Byte
  measPeriod : BitVec 32
  volThreshold : Volume
  volQuota : Volume
  eventThreshold : BitVec 32
  eventQuota : BitVec 32
  timeThreshold : BitVec 32
  timeQuota : BitVec 32
  quotaHoldingTime : BitVec 32
  droppedDlTrafficThreshold : DroppedDlTrafficThreshold
  quotaValidityTime : BitVec 32

structure Qer where
  gateStatus : Byte
  mbr : Bitrate
  gbr : Bitrate
  qfi : Byte

def Far.zero : Far := ⟨0,0,none,Vector.replicate 26 0,0⟩

def Urr.zero : Urr :=
  ⟨0,(0,0,0),0,0,⟨0,0,0,0⟩,⟨0,0,0,0⟩,0,0,0,0,0,⟨0,0,0⟩,0⟩

def Qer.zero : Qer := ⟨0,.zero,.zero,0⟩

def interfaceUnknown : Byte := 0xff

def farKind : RuleKind Far := ⟨.zero,{ Far.zero with dstIf := interfaceUnknown },maxNumOfFar⟩
def urrKind : RuleKind Urr := ⟨.zero,.zero,maxNumOfUrr⟩
def qerKind : RuleKind Qer := ⟨.zero,.zero,maxNumOfQer⟩

def farAdd : RuleTable Far → Nat → Outcome (RuleTable Far) (Option Nat) := RuleTable.add farKind

def farFindOrAdd : RuleTable Far → Nat → BitVec 32 → Outcome (RuleTable Far) Nat :=
  RuleTable.findOrAdd farKind

def urrAdd : RuleTable Urr → Nat → Outcome (RuleTable Urr) (Option Nat) := RuleTable.add urrKind

def urrFindOrAdd : RuleTable Urr → Nat → BitVec 32 → Outcome (RuleTable Urr) Nat :=
  RuleTable.findOrAdd urrKind

def qerAdd : RuleTable Qer → Nat → Outcome (RuleTable Qer) (Option Nat) := RuleTable.add qerKind

def qerFindOrAdd : RuleTable Qer → Nat → BitVec 32 → Outcome (RuleTable Qer) Nat :=
  RuleTable.findOrAdd qerKind

/-- `ogs_pfcp_pdr_t`; `urr` is the part of the array that is in use. -/
structure Pdr where
  teidNode : Nat
  teid : BitVec 32
  hashLen : Nat
  hashKey : BitVec 32
  idNode : Nat
  id : BitVec 16
  precedence : BitVec 32
  srcIf : Byte
  srcIfType : Option Byte
  fTeid : FTeid
  fTeidLen : Nat
  chid : Bool
  chooseId : Byte
  qfi : Byte
  far : Option Nat
  urr : List Nat
  qer : Option Nat
  sess : Nat

def Pdr.zero : Pdr where
  teidNode := 0
  teid := 0
  hashLen := 0
  hashKey := 0
  idNode := 0
  id := 0
  precedence := 0
  srcIf := 0
  srcIfType := none
  fTeid := .zero
  fTeidLen := 0
  chid := false
  chooseId := 0
  qfi := 0
  far := none
  urr := []
  qer := none
  sess := 0

inductive Obj where
  | pdr (p : Nat)
  | sess (s : Nat)
  deriving DecidableEq

inductive ObjType where
  | pdr
  | sess
  deriving DecidableEq

structure Context where
  pdrPool : Pool
  pdr : Nat → Pdr
  teidPool : Pool
  teidArray : Nat → BitVec 32
  randomToIndex : Nat → Nat
  pdrList : Nat → List Nat
  pdrIdPool : Nat → Pool
  far : RuleTable Far
  urr : RuleTable Urr
  qer : RuleTable Qer
  seed : BitVec 32
  objectTeidHash : List (Entry Nat Obj)

/-- What a call reads besides the context: the configuration of the user plane, what the SDF
filter loop meets, bytes behind an IE and on the stack. -/
structure Env where
  ftup : Bool
  -- the resource `ogs_pfcp_find_gtpu_resource` finds for the DNN and interface of the PDR
  resource : Option IpResourceInfo
  gtpuAddr : Option Addr
  gtpuAddr6 : Option Addr6
  -- whether the loop over the SDF filters passes its assertions
  flowsCompile : Bool
  beyond : Byte
  stackFTeid : FTeid

/-- `ogs_pool_random_id_generate`, with the numbers it draws. -/
def randomIdGenerate (size : Nat) (random : Nat → Nat) : Nat → BitVec 32 :=
  (List.range (size-1)).foldl
    (fun array i' =>
      let i:=size-1-i'
      let j:=random i % (i+1)
      update (update array i (array j)) j (array i))
    fun i => BitVec.ofNat 32 (i+1)

/-- `ogs_pfcp_context_init` for `poolSess` sessions, each with its pools from
`ogs_pfcp_pool_init`. -/
def contextInit (poolSess : Nat) (random : Nat → Nat) (seed : BitVec 32) : Context :=
  let size:=poolSess*maxNumOfPdr
  let array:=randomIdGenerate size random
  { pdrPool := Pool.init size
    pdr := fun _ => .zero
    teidPool := Pool.init size
    teidArray := array
    randomToIndex := (List.range size).foldl
      (fun r i => update r (array i).toNat i) fun _ => 0
    pdrList := fun _ => []
    pdrIdPool := fun _ => Pool.init maxNumOfPdr
    far := .init farKind poolSess
    urr := .init urrKind poolSess
    qer := .init qerKind poolSess
    seed := seed
    objectTeidHash := [] }

def Context.modify (c : Context) (p : Nat) (f : Pdr → Pdr) : Context :=
  { c with pdr := update c.pdr p (f (c.pdr p)) }

section Modify

variable (c : Context) (p : Nat) (f : Pdr → Pdr)

@[simp] theorem Context.modify_teidPool : (c.modify p f).teidPool=c.teidPool := rfl

@[simp] theorem Context.modify_teidArray : (c.modify p f).teidArray=c.teidArray := rfl

@[simp] theorem Context.modify_randomToIndex :
    (c.modify p f).randomToIndex=c.randomToIndex := rfl

end Modify

def pdrAdd (c : Context) (s : Nat) : Outcome Context (Option Nat) :=
  match c.pdrPool.alloc with
  | (_,none) => .ok c none
  | (pool,some p) =>
    let c:={ c with
      pdrPool := pool
      pdr := update c.pdr p { Pdr.zero with srcIf := interfaceUnknown } }
    match c.teidPool.alloc with
    | (_,none) => .abort c
    | (teidPool,some k) =>
      let c:={ c with teidPool := teidPool }.modify p fun x => { x with
        teidNode := k
        teid := c.teidArray k }
      match (c.pdrIdPool s).alloc with
      -- the TEID node is not given back
      | (_,none) => .ok { c with pdrPool := c.pdrPool.release p } none
      | (idPool,some i) =>
        let c:={ c with pdrIdPool := update c.pdrIdPool s idPool }.modify p
          fun x => { x with idNode := i,id := BitVec.ofNat 16 (i+1) }
        if i+1 ≤ maxNumOfPdr then
          .ok { c.modify p fun x => { x with sess := s } with
            pdrList := update c.pdrList s (c.pdrList s++[p]) } (some p)
        else .abort c

def pdrFind (c : Context) (s : Nat) (id : BitVec 16) : Option Nat :=
  (c.pdrList s).find? fun p => (c.pdr p).id == id

def pdrFindOrAdd (c : Context) (s : Nat) (id : BitVec 16) : Outcome Context Nat :=
  match pdrFind c s id with
  | some p => .ok c p
  | none =>
    (pdrAdd c s).bind fun c p =>
      match p with
      | none => .abort c
      | some p => .ok (c.modify p fun x => { x with id := id }) p

def pdrSwapTeid (c : Context) (p : Nat) : Outcome Context Cause :=
  let x:=c.pdr p
  if 0<x.fTeidLen ∧ x.fTeid.ch=false then
    let t:=x.fTeid.teid
    if 0<t.toNat ∧ t.toNat ≤ c.teidPool.size then
      let i:=c.randomToIndex t.toNat
      if i<c.teidPool.size then
        if t=c.teidArray i then
          .ok { c with
            teidArray := update
              (update c.teidArray i (c.teidArray x.teidNode)) x.teidNode t }
            .requestAccepted
        else .ok c .requestAccepted
      else .abort c
    else .ok c .mandatoryIeIncorrect
  else .abort c

def Context.teidKeys (c : Context) : Keys Nat (BitVec 32) :=
  fieldKeys 4 c.seed fun p => (c.pdr p).hashKey

def objectFindByTeid (c : Context) (teid : BitVec 32) : Option Obj :=
  get c.teidKeys c.objectTeidHash teid

def objectCountByTeid (c : Context) (s : Nat) (teid : BitVec 32) : Nat :=
  (c.pdrList s).countP fun p => (c.pdr p).fTeid.teid == teid

def pdrFindByChooseId (c : Context) (s : Nat) (chooseId : Byte) : Option Nat :=
  (c.pdrList s).find? fun p => (c.pdr p).chid && (c.pdr p).chooseId == chooseId

def chooseFTeid (env : Env) (x : Pdr) : Option (FTeid × Nat) :=
  match env.resource with
  | some info =>
    (userPlaneIpResourceInfoToFTeid info x.fTeid).map fun r =>
      (r.1.setTeid (if info.teidri=0 then x.teid
        else gtpuIndexToTeid x.teid info.teidri info.teidRange),r.2)
  | none =>
    (sockaddrToFTeid (if x.fTeid.ipv4 then env.gtpuAddr else none)
      (if x.fTeid.ipv6 then env.gtpuAddr6 else none)).map fun r => (r.1.setTeid x.teid,r.2)

def pdrChooseFTeid (env : Env) (c : Context) (p : Nat) : Outcome Context Unit :=
  let x:=c.pdr p
  if env.ftup && x.fTeid.ch then
    let choosed := if x.fTeid.chid then pdrFindByChooseId c x.sess x.fTeid.chooseId else none
    match choosed with
    | some p' =>
      -- a longer copy would run over the end of the structure
      if (c.pdr p').fTeidLen≤25 then
        .ok (c.modify p fun x => { x with
          fTeidLen := (c.pdr p').fTeidLen
          fTeid := x.fTeid.copy ((c.pdr p').fTeid.octets.toList.take (c.pdr p').fTeidLen) }) ()
      else .abort c
    | none =>
      let c := if x.fTeid.chid then
        c.modify p fun x => { x with chid := true,chooseId := x.fTeid.chooseId } else c
      match chooseFTeid env x with
      | some (f,len) => .ok (c.modify p fun x => { x with fTeid := f,fTeidLen := len }) ()
      | none => .abort c
  else .ok c ()

def pdrUnsetTeid (c : Context) (p : Nat) : Context :=
  if (c.pdr p).hashLen≠0 then
    { c with objectTeidHash := unset c.teidKeys c.objectTeidHash (c.pdr p).hashKey }
  else c

def ObjType.obj (type : ObjType) (c : Context) (p : Nat) : Obj :=
  match type with
  | .pdr => .pdr p
  | .sess => .sess (c.pdr p).sess

def pdrSetTeid (type : ObjType) (c : Context) (p : Nat) : Context :=
  let c:=c.modify p fun x => { x with hashKey := x.fTeid.teid,hashLen := 4 }
  { c with
    objectTeidHash := set c.teidKeys c.objectTeidHash p (c.pdr p).hashKey (type.obj c p) }

def objectTeidHashSet (env : Env) (type : ObjType) (c : Context) (p : Nat) :
    Outcome Context Unit :=
  (pdrChooseFTeid env c p).bind fun c _ => .ok (pdrSetTeid type (pdrUnsetTeid c p) p) ()

def insertSorted (c : Context) (p : Nat) : List Nat → List Nat
  | [] => [p]
  | q::l =>
    if (c.pdr p).precedence<(c.pdr q).precedence then p::q::l else q::insertSorted c p l

def pdrReorderByPrecedence (c : Context) (p : Nat) (precedence : BitVec 32) : Context :=
  let s:=(c.pdr p).sess
  let l:=(c.pdrList s).erase p
  let c:=c.modify p fun x => { x with precedence := precedence }
  { c with pdrList := update c.pdrList s (insertSorted c p l) }

def pdrRemove (c : Context) (p : Nat) : Context :=
  let x:=c.pdr p
  let c:={ c with pdrList := update c.pdrList x.sess ((c.pdrList x.sess).erase p) }
  let c := if x.hashLen≠0 ∧ objectCountByTeid c x.sess x.fTeid.teid=0 then
    { c with objectTeidHash := unset c.teidKeys c.objectTeidHash x.hashKey } else c
  { c with
    pdrIdPool := update c.pdrIdPool x.sess ((c.pdrIdPool x.sess).release x.idNode)
    teidPool := c.teidPool.release x.teidNode
    pdrPool := c.pdrPool.release p }

def pdrAssociateFar (c : Context) (p far : Nat) : Context :=
  c.modify p fun x => { x with far := some far }

def pdrAssociateUrr (c : Context) (p urr : Nat) : Outcome Context Unit :=
  if (c.pdr p).urr.length < maxNumOfUrr then
    if (c.pdr p).urr.any fun u => (c.urr.slot u).id == (c.urr.slot urr).id then .ok c ()
    else .ok (c.modify p fun x => { x with urr := x.urr++[urr] }) ()
  else .abort c

def pdrAssociateQer (c : Context) (p qer : Nat) : Context :=
  c.modify p fun x => { x with qer := some qer }

end OgsDp.Pfcp
