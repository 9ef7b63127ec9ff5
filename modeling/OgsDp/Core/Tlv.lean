import OgsDp.Core.Hash

/-!
# Type-length-value elements (lib/core/ogs-tlv.c)

A pointer into the packet is an offset and the packet is the list of its bytes; reading past it is
told apart from an error and from a failed assertion.
-/

namespace OgsDp.Core

/-- Why a call does not return what it is asked for: `OGS_ERROR` or a null pointer, a failed
assertion, the one of `ogs_tlv_get`, or an access past the end of an object. -/
inductive Stop where
  | error
  | abort
  | exhausted
  | wild
  deriving DecidableEq

inductive TlvMode where
  | t1L1
  | t1L2
  | t1L2I1
  | t2L2
  | t1
  deriving DecidableEq

namespace TlvMode

def typeLen : TlvMode → Nat
  | t2L2 => 2
  | _ => 1

def lengthLen : TlvMode → Nat
  | t1L1 => 1
  | t1 => 0
  | _ => 2

def instanceLen : TlvMode → Nat
  | t1L2I1 => 1
  | _ => 0

def headerLen (mode : TlvMode) : Nat := mode.typeLen+mode.lengthLen+mode.instanceLen

theorem headerLen_pos (mode : TlvMode) : 0 < mode.headerLen := by
  cases mode <;> decide

end TlvMode

def ogsTlvGet (avail : Nat) : Except Stop Nat :=
  if avail=0 then .error .exhausted else .ok (avail-1)

/-- `ogs_tlv_t` of a message that is built; a null `embedded` is the empty list. -/
inductive Tlv where
  | mk (mode : TlvMode) (type : Nat) (inst : Byte) (value : List Byte) (embedded : List Tlv)

mutual

def Tlv.calcLength : Tlv → Nat
  | .mk mode _ _ value [] => mode.headerLen+value.length
  | .mk mode _ _ _ (t::ts) => mode.headerLen+(t.calcLength+calcLength ts)

def calcLength : List Tlv → Nat
  | [] => 0
  | t::ts => t.calcLength+calcLength ts

end

def putHeader (mode : TlvMode) (type length : Nat) (inst : Byte) : List Byte :=
  netBytes mode.typeLen type++netBytes mode.lengthLen length++netBytes mode.instanceLen inst.val

@[simp] theorem length_putHeader (mode : TlvMode) (type length : Nat) (inst : Byte) :
    (putHeader mode type length inst).length=mode.headerLen := by
  simp [putHeader,TlvMode.headerLen]
  omega

mutual

def Tlv.render (room : Nat) : Tlv → Except Stop (List Byte)
  | .mk mode type inst value [] =>
    if room < mode.headerLen+value.length then .error .abort
    else .ok (putHeader mode type value.length inst++value)
  | .mk mode type inst _ (t::ts) => do
    let first ← t.render (room-mode.headerLen)
    let rest ← render (room-mode.headerLen-first.length) ts
    return putHeader mode type (calcLength (t::ts)) inst++(first++rest)

def render (room : Nat) : List Tlv → Except Stop (List Byte)
  | [] => .ok []
  | t::ts => do
    let first ← t.render room
    let rest ← render (room-first.length) ts
    return first++rest

end

/-- `ogs_tlv_t` of a message that is parsed: `value` is an offset into the packet. -/
structure Elem where
  type : Nat
  length : Nat
  inst : Nat
  value : Nat
  deriving DecidableEq

def Elem.next (e : Elem) : Nat := e.value+e.length

def readNet (data : List Byte) (pos n : Nat) : Except Stop Nat :=
  if pos+n≤data.length then .ok (netValue ((data.drop pos).take n)) else .error .wild

def tlvGetElement (data : List Byte) (mode : TlvMode) (pos : Nat) : Except Stop Elem := do
  let type ← readNet data pos mode.typeLen
  let length ← readNet data (pos+mode.typeLen) mode.lengthLen
  let inst ← readNet data (pos+mode.typeLen+mode.lengthLen) mode.instanceLen
  return ⟨type,length,inst % 16,pos+mode.headerLen⟩

def tlvGetElementFixed (data : List Byte) (pos fixedLength : Nat) : Except Stop Elem := do
  let type ← readNet data pos 1
  return ⟨type,fixedLength,0,pos+1⟩

-- The loop of `ogs_tlv_parse_block` from an element at `pos` on; each element has at least one
-- byte, so `length + 1` rounds are enough.
def getElements (get : Nat → Except Stop Elem) (blk length : Nat) :
    Nat → Nat → Nat → Except Stop (List Elem × Nat × Nat)
  | 0, _, _ => .error .abort
  | fuel+1, pos, avail => do
    let avail ← ogsTlvGet avail
    let e ← get pos
    if e.next-blk<length then
      let (es,last,avail) ← getElements get blk length fuel e.next avail
      return (e::es,last,avail)
    else return ([e],e.next,avail)

def parseElements (get : Nat → Except Stop Elem) (blk length avail : Nat) :
    Except Stop (List Elem × Nat) := do
  let (es,last,avail) ← getElements get blk length (length+1) blk avail
  if length≠last-blk then .error .error else return (es,avail)

def ogsTlvParseBlock (data : List Byte) (mode : TlvMode) (blk length avail : Nat) :
    Except Stop (List Elem × Nat) :=
  parseElements (tlvGetElement data mode) blk length avail

end OgsDp.Core
