import Mathlib.Logic.Function.Basic
import OgsDp.Core.Tlv

/-!
# TLV messages (lib/core/ogs-tlv-msg.c)

A message structure is read through its descriptor: the slots of the child `i` are numbered by the
repetitions of it that a MORE entry makes room for.
-/

namespace OgsDp.Core
open Function

inductive TlvType where
  | uint8 | uint16 | uint24 | uint32
  | int8 | int16 | int24 | int32
  | fixedStr | varStr | null | more | compound | message
  | tvUint8 | tvUint16 | tvUint24 | tvUint32
  | tvInt8 | tvInt16 | tvInt24 | tvInt32
  | tvFixedStr | tvVarStr | tvNull | tvMore
  deriving DecidableEq

instance halfwordNeZero : NeZero 65536 := ⟨by decide⟩

inductive TlvDesc where
  | mk (ctype : TlvType) (type length : Fin 65536) (inst : Byte) (children : List TlvDesc)

namespace TlvDesc

def ctype : TlvDesc → TlvType
  | mk c _ _ _ _ => c

def type : TlvDesc → Fin 65536
  | mk _ t _ _ _ => t

def length : TlvDesc → Fin 65536
  | mk _ _ l _ _ => l

def inst : TlvDesc → Byte
  | mk _ _ _ i _ => i

def children : TlvDesc → List TlvDesc
  | mk _ _ _ _ ds => ds

def key (d : TlvDesc) : Nat × Nat := (d.type.val,d.inst.val)

end TlvDesc

/-- One field of a message structure: its presence flag and, as the descriptor of the field says,
its integer, its octets or the structure of a compound. -/
structure Slot (S : Type) where
  presence : Bool
  num : BitVec 32
  data : List Byte
  sub : S

def Msg : Nat → Type
  | 0 => Unit
  | n+1 => Nat → Nat → Slot (Msg n)

def tlvCtype2mode (ctype : TlvType) (msgMode : TlvMode) : TlvMode :=
  match ctype with
  | .tvUint8 | .tvUint16 | .tvUint24 | .tvUint32 | .tvInt8 | .tvInt16 | .tvInt24 | .tvInt32
  | .tvFixedStr | .tvVarStr | .tvNull | .tvMore => .t1
  | _ => msgMode

section Build

variable {S : Type}

def leafValue (desc : TlvDesc) (v : Slot S) : Except Stop (List Byte) :=
  match desc.ctype with
  | .uint8 | .int8 | .tvUint8 | .tvInt8 => .ok (netBytes 1 v.num.toNat)
  | .uint16 | .int16 | .tvUint16 | .tvInt16 => .ok (netBytes 2 v.num.toNat)
  | .uint24 | .int24 | .tvUint24 | .tvInt24 => .ok ((netBytes 4 (v.num <<< 8).toNat).take 3)
  | .uint32 | .int32 | .tvUint32 | .tvInt32 => .ok (netBytes 4 v.num.toNat)
  | .fixedStr | .tvFixedStr =>
    if v.data.length<desc.length.val then .error .wild else .ok (v.data.take desc.length.val)
  | .varStr => if v.data.length=0 then .error .error else .ok v.data
  | .null | .tvNull => .ok []
  | .tvVarStr | .more | .tvMore | .compound | .message => .error .error

def addField (sub : List TlvDesc → S → Nat → Except Stop (List Tlv × Nat)) (mode : TlvMode)
    (desc : TlvDesc) (v : Slot S) (avail : Nat) : Except Stop (Tlv × Nat) :=
  if desc.ctype = .compound then do
    let avail ← ogsTlvGet avail
    let (embedded,avail) ← sub desc.children v.sub avail
    if embedded.isEmpty then .error .error
    else return (.mk (tlvCtype2mode desc.ctype mode) desc.type.val desc.inst [] embedded,avail)
  else do
    let value ← leafValue desc v
    let avail ← ogsTlvGet avail
    return (.mk (tlvCtype2mode desc.ctype mode) desc.type.val desc.inst value [],avail)

-- The slots `j`, .. of a child that a MORE entry follows, up to the first absent one.
def addRepeats (add : Slot S → Nat → Except Stop (Tlv × Nat)) (slots : Nat → Slot S) :
    Nat → Nat → Nat → Except Stop (List Tlv × Nat)
  | 0, _, avail => .ok ([],avail)
  | n+1, j, avail =>
    if (slots j).presence then do
      let (tlv,avail) ← add (slots j) avail
      let (tlvs,avail) ← addRepeats add slots n (j+1) avail
      return (tlv::tlvs,avail)
    else .ok ([],avail)

def addChildren (add : TlvDesc → Slot S → Nat → Except Stop (Tlv × Nat))
    (m : Nat → Nat → Slot S) : Nat → List TlvDesc → Nat → Except Stop (List Tlv × Nat)
  | _, [], avail => .ok ([],avail)
  | i, [desc], avail => addRepeats (add desc) (m i) 1 0 avail
  | i, desc::next::rest, avail =>
    if next.ctype = .more then do
      let (tlvs,avail) ← addRepeats (add desc) (m i) next.length.val 0 avail
      let (tlvs',avail) ← addChildren add m (i+2) rest avail
      return (tlvs++tlvs',avail)
    else do
      let (tlvs,avail) ← addRepeats (add desc) (m i) 1 0 avail
      let (tlvs',avail) ← addChildren add m (i+1) (next::rest) avail
      return (tlvs++tlvs',avail)

end Build

def tlvAddCompound (mode : TlvMode) :
    (n : Nat) → List TlvDesc → Msg n → Nat → Except Stop (List Tlv × Nat)
  | 0, _, _, _ => .error .abort
  | n+1, descs, m, avail => addChildren (addField (tlvAddCompound mode n) mode) m 0 descs avail

/-- `ogs_tlv_build_msg`; `room` is the size of the largest buffer that `ogs_pkbuf_alloc` has. -/
def ogsTlvBuildMsg (desc : TlvDesc) (m : Msg 9) (mode : TlvMode) (room avail : Nat) :
    Except Stop (List Byte) :=
  if desc.ctype ≠ .message then .error .abort
  else if desc.children.isEmpty then if room<16 then .error .error else .ok []
  else do
    let (root,_) ← tlvAddCompound mode 9 desc.children m avail
    if root.isEmpty then .error .error
    else if room<16+calcLength root then .error .error
    else do
      let data ← render (calcLength root) root
      if data.length≠calcLength root then .error .error else return data

-- The search of `tlv_find_desc_by_type_inst` from the child `i` on, behind one of type `prev`
-- and after `matched` children of the same type and instance.
def findDescFrom (key : Nat × Nat) (pos : Nat) :
    Nat → Option TlvType → Nat → List TlvDesc → Except Stop (Option (Nat × TlvDesc))
  | _, _, _, [] => .ok none
  | i, prev, matched, d::ds =>
    if d.key=key ∧ matched=pos then .ok (some (i,d))
    else if d.ctype = .more ∧ (prev=none ∨ prev=some .more) then .error .abort
    else
      findDescFrom key pos (i+1) (some d.ctype) (if d.key=key then matched+1 else matched) ds

def tlvFindDescByTypeInst (children : List TlvDesc) (key : Nat × Nat) (pos : Nat) :
    Except Stop (Option (Nat × TlvDesc)) :=
  findDescFrom key pos 0 none 0 children

/-- The tree of `tlv_count_node_t`: the keys in it and the count of each. -/
structure Counts where
  keys : List (Nat × Nat)
  count : Nat × Nat → Nat

def Counts.zero : Counts := ⟨[],fun _ => 0⟩

def tlvCountNodeFind (c : Counts) (key : Nat × Nat) : Except Stop Counts :=
  if key∈c.keys then .ok c
  else if c.keys.length=128 then .error .error
  else .ok ⟨key::c.keys,update c.count key 0⟩

def Counts.find (c : Counts) (key : Nat × Nat) : Counts :=
  if key∈c.keys then c else ⟨key::c.keys,c.count⟩

def Counts.incr (c : Counts) (key : Nat × Nat) : Counts :=
  { c with count := update c.count key (c.count key+1) }

section Parse

variable {S : Type}

def parseInt (data : List Byte) (e : Elem) (width : Nat) (v : Slot S) : Except Stop (Slot S) :=
  if e.length<1 ∨ width<e.length then .error .error
  else do
    let x ← readNet data e.value width
    return { v with num := BitVec.ofNat 32 x }

def parseStr (data : List Byte) (e : Elem) (v : Slot S) : Except Stop (Slot S) :=
  if data.length<e.next then .error .wild
  else .ok { v with data := (data.drop e.value).take e.length }

def tlvParseLeaf (data : List Byte) (desc : TlvDesc) (e : Elem) (v : Slot S) :
    Except Stop (Slot S) :=
  match desc.ctype with
  | .uint8 | .int8 | .tvUint8 | .tvInt8 => parseInt data e 1 v
  | .uint16 | .int16 | .tvUint16 | .tvInt16 => parseInt data e 2 v
  | .uint24 | .int24 | .tvUint24 | .tvInt24 => parseInt data e 3 v
  | .uint32 | .int32 | .tvUint32 | .tvInt32 => parseInt data e 4 v
  | .fixedStr | .tvFixedStr =>
    if e.length≠desc.length.val then .error .error else parseStr data e v
  | .varStr => parseStr data e v
  | .null | .tvNull => if e.length≠0 then .error .error else .ok v
  | .tvVarStr | .more | .tvMore | .compound | .message => .error .error

-- What `tlv_parse_compound` does with the value of an element once its slot is known; `sub` is
-- `tlv_parse_compound` one level below.
def parseField (sub : List TlvDesc → List Elem → S → Nat → Except Stop (S × Nat))
    (data : List Byte) (mode : TlvMode) (desc : TlvDesc) (e : Elem) (v : Slot S) (avail : Nat) :
    Except Stop (Slot S × Nat) :=
  if desc.ctype = .compound then do
    let (embedded,avail) ← ogsTlvParseBlock data mode e.value e.length avail
    let (s,avail) ← sub desc.children embedded v.sub avail
    return ({ v with sub := s,presence := true },avail)
  else do
    let v ← tlvParseLeaf data desc e v
    return ({ v with presence := true },avail)

/-- Where an element goes: nowhere, or to a slot of the child `i`. -/
inductive Place where
  | skip (c : Counts)
  | slot (c : Counts) (i j : Nat) (desc : TlvDesc)

def place (descs : List TlvDesc) (m : Nat → Nat → Slot S) (e : Elem) (c : Counts) :
    Except Stop Place := do
  let c ← tlvCountNodeFind c (e.type,e.inst)
  match ← tlvFindDescByTypeInst descs (e.type,e.inst) (c.count (e.type,e.inst)) with
  | none => return .skip c
  | some (i,desc) =>
    match descs[i+1]? with
    | some next =>
      if next.ctype = .more then
        match (List.range next.length.val).find? fun j => !(m i j).presence with
        | some j => return .slot c i j desc
        | none => return .skip c
      else return .slot (c.incr (e.type,e.inst)) i 0 desc
    | none => return .slot (c.incr (e.type,e.inst)) i 0 desc

def parseElems (field : TlvDesc → Elem → Slot S → Nat → Except Stop (Slot S × Nat))
    (descs : List TlvDesc) :
    List Elem → Counts → (Nat → Nat → Slot S) → Nat → Except Stop ((Nat → Nat → Slot S) × Nat)
  | [], _, m, avail => .ok (m,avail)
  | e::es, c, m, avail => do
    match ← place descs m e c with
    | .skip c => parseElems field descs es c m avail
    | .slot c i j desc =>
      let (v,avail) ← field desc e (m i j) avail
      parseElems field descs es c (update m i (update (m i) j v)) avail

end Parse

def tlvParseCompound (data : List Byte) (mode : TlvMode) :
    (n : Nat) → List TlvDesc → List Elem → Msg n → Nat → Except Stop (Msg n × Nat)
  | 0, _, _, _, _ => .error .abort
  | n+1, descs, es, m, avail =>
    parseElems (parseField (tlvParseCompound data mode n) data mode) descs es .zero m avail

def ogsTlvParseMsg (m : Msg 9) (desc : TlvDesc) (data : List Byte) (mode : TlvMode) (avail : Nat) :
    Except Stop (Msg 9) :=
  if desc.ctype ≠ .message ∨ desc.children.isEmpty then .error .abort
  else do
    let (root,avail) ← ogsTlvParseBlock data mode 0 data.length avail
    let (m,_) ← tlvParseCompound data mode 9 desc.children root m avail
    return m

/-- `tlv_get_element_desc`; a null pointer fails the assertion of its caller. -/
def tlvGetElementDesc (data : List Byte) (mode : TlvMode) (descs : List TlvDesc) (pos : Nat) :
    Except Stop Elem := do
  let type ← readNet data pos mode.typeLen
  match ← tlvFindDescByTypeInst descs (type,0) 0 with
  | none => .error .abort
  | some (_,desc) =>
    if tlvCtype2mode desc.ctype mode = .t1 then tlvGetElementFixed data pos desc.length.val
    else tlvGetElement data (tlvCtype2mode desc.ctype mode) pos

def ogsTlvParseBlockDesc (data : List Byte) (mode : TlvMode) (descs : List TlvDesc)
    (length avail : Nat) : Except Stop (List Elem × Nat) :=
  parseElements (tlvGetElementDesc data mode descs) 0 length avail

def ogsTlvParseMsgDesc (m : Msg 9) (desc : TlvDesc) (data : List Byte) (mode : TlvMode)
    (avail : Nat) : Except Stop (Msg 9) :=
  if desc.ctype ≠ .message ∨ desc.children.isEmpty then .error .abort
  else do
    let (root,avail) ← ogsTlvParseBlockDesc data mode desc.children data.length avail
    let (m,_) ← tlvParseCompound data mode 9 desc.children root m avail
    return m

end OgsDp.Core
