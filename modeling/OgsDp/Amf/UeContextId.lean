import OgsDp.Sbi.IdentifierTexts

/-!
# The UE context id (src/amf/context.c)

A peer names a UE by its SUPI or by a GUTI in text, of which the digits begin behind `5g-guti-`.
-/

namespace OgsDp.Amf
open Lib OgsDp.Core Sbi

def max5gGutiLen : Nat := 28

/-- `ogs_cpystrn` of `src[i]`, …; `room` characters fit in front of the terminator. -/
def cpystrn (src : List Byte) : Nat → Nat → Except Fault (List Byte)
  | _, 0 => .ok []
  | i, room+1 => do
    let c ← octetAt src i
    if c=0 then return [] else return c::(← cpystrn src (i+1) room)

/-- `ogs_amf_id_from_string`; `hexbuf` holds what was on the stack. -/
def amfIdFromString (hexbuf : Vector Byte 3) (hex : List Byte) : Except Fault AmfId := do
  let (_,buf) ← asciiToHex hex hexbuf.toList 0 false
  let region ← octetAt buf 0
  let set1 ← octetAt buf 1
  let last ← octetAt buf 2
  return ⟨BitVec.ofNat 8 region.val,BitVec.ofNat 8 set1.val,
    BitVec.ofNat 2 (last.val / 64),BitVec.ofNat 6 (last.val % 64)⟩

def amfNamfCommParseGuti (hexbuf : Vector Byte 3) (ueContextId : CStr) :
    Except Fault (Option Guti) := do
  let mcc ← cpystrn ueContextId.mem 8 3
  let length:=ueContextId.bytes.length
  if length=max5gGutiLen-1 ∨ length=max5gGutiLen then
    let mncLen := if length=max5gGutiLen-1 then 2 else 3
    let mnc ← cpystrn ueContextId.mem 11 mncLen
    let amfIdString ← cpystrn ueContextId.mem (11+mncLen) 6
    let tmsiString ← cpystrn ueContextId.mem (17+mncLen) 8
    let amfId ← amfIdFromString hexbuf amfIdString
    return some ⟨nasFromPlmnId (parsePlmnId ⟨mcc,mnc⟩),amfId,
      BitVec.ofInt 32 (clampLong (hexNumber tmsiString))⟩
  else return none

def supiTypeImsi : List Byte := ascii "imsi"
def fivegGutiType : List Byte := ascii "5g-guti"

theorem ne_nil_of_supi {s : CStr} (h : supiTypeImsi.isPrefixOf s.bytes=true) :
    s.bytes≠[] := by
  intro hnil
  rw [hnil] at h
  cases h

def Ues.amfUeFindByUeContextId (s : Ues) (hexbuf : Vector Byte 3) (ueContextId : CStr) :
    Except Fault (Option Nat) :=
  if himsi : supiTypeImsi.isPrefixOf ueContextId.bytes=true then
    .ok (s.amfUeFindBySupi ⟨ueContextId,ne_nil_of_supi himsi⟩)
  else if fivegGutiType.isPrefixOf ueContextId.bytes then do
    match ← amfNamfCommParseGuti hexbuf ueContextId with
    | none => return none
    | some guti => return s.amfUeFindByGuti guti
  else .ok none

variable {s : CStr} {i room : Nat}

theorem mem_getElem? (h : i<s.bytes.length) : s.mem[i]?=s.bytes[i]? := by
  unfold CStr.mem
  exact List.getElem?_append_left h

theorem cpystrn_ok (h : i ≤ s.bytes.length) :
    cpystrn s.mem i room = .ok ((s.bytes.drop i).take room) := by
  induction room generalizing i with
  | zero => rfl
  | succ room ih =>
    rw [cpystrn]
    by_cases hend : i=s.bytes.length
    · have hzero : octetAt s.mem i = .ok 0 := by
        rw [hend]
        exact octetAt_append s.bytes [] 0
      rw [hzero,ok_bind,if_pos rfl,hend,List.drop_length]
      rfl
    · have hi : i<s.bytes.length := by omega
      have hoctet : octetAt s.mem i = .ok s.bytes[i] := by
        rw [octetAt,mem_getElem? hi,List.getElem?_eq_getElem hi]
      have hne : s.bytes[i]≠0 := by
        intro h0
        exact s.noNul (h0 ▸ List.getElem_mem hi)
      rw [hoctet,ok_bind,if_neg hne,ih (by omega),ok_bind,List.drop_eq_getElem_cons hi]
      rfl

theorem cpystrn_error (h : s.bytes.length < i) : cpystrn s.mem i (room+1) = .error .read := by
  have hout : s.mem.length ≤ i := by
    unfold CStr.mem
    rw [List.length_append,List.length_singleton]
    omega
  rw [cpystrn,octetAt_of_le hout]
  rfl

theorem amfIdFromString_returns (hexbuf : Vector Byte 3) (hex : List Byte) :
    Returns (amfIdFromString hexbuf hex) := by
  obtain ⟨j,buf,hread,hlen⟩ := asciiToHex_ok hex hexbuf.toList 0 false
  rw [Vector.length_toList] at hlen
  rw [amfIdFromString,hread,ok_bind]
  simp only
  rw [octetAt_of_lt (by omega),ok_bind,
    octetAt_of_lt (by omega),ok_bind,octetAt_of_lt (by omega),ok_bind]
  exact returns_ok _

theorem amfNamfCommParseGuti_returns (hexbuf : Vector Byte 3) (ueContextId : CStr) :
    Returns (amfNamfCommParseGuti hexbuf ueContextId) ↔ 8≤ueContextId.bytes.length := by
  unfold amfNamfCommParseGuti
  by_cases hlen : 8≤ueContextId.bytes.length
  · rw [cpystrn_ok hlen,ok_bind]
    refine iff_of_true ?_ hlen
    simp only
    by_cases hguti : ueContextId.bytes.length=max5gGutiLen-1 ∨
        ueContextId.bytes.length=max5gGutiLen
    · have hroom : 27≤ueContextId.bytes.length := by
        unfold max5gGutiLen at hguti
        omega
      have hmnc : (if ueContextId.bytes.length=max5gGutiLen-1 then 2 else 3)≤3 := by
        split
        · decide
        · decide
      rw [if_pos hguti,cpystrn_ok (by omega),ok_bind,cpystrn_ok (by omega),ok_bind,
        cpystrn_ok (by omega),ok_bind]
      exact (returns_bind fun _ => returns_ok _).mpr (amfIdFromString_returns hexbuf _)
    · rw [if_neg hguti]
      exact returns_ok _
  · rw [cpystrn_error (by omega)]
    exact iff_of_false not_gives_error hlen

theorem fivegGuti_prefix_lengths (h : fivegGutiType.isPrefixOf s.bytes=true) :
    s.bytes.length<8 ↔ s.bytes=fivegGutiType := by
  have hbegins:=List.isPrefixOf_iff_prefix.mp h
  have hle : 7 ≤ s.bytes.length := hbegins.length_le
  constructor
  · intro hlt
    exact (hbegins.eq_of_length (by show 7=_; omega)).symm
  · intro heq
    rw [heq]
    decide

theorem amfUeFindByUeContextId_returns (ues : Ues) (hexbuf : Vector Byte 3) (ueContextId : CStr) :
    Returns (ues.amfUeFindByUeContextId hexbuf ueContextId) ↔
      ueContextId.bytes≠fivegGutiType := by
  unfold Ues.amfUeFindByUeContextId
  by_cases himsi : supiTypeImsi.isPrefixOf ueContextId.bytes=true
  · rw [dif_pos himsi]
    refine iff_of_true (returns_ok _) fun heq => ?_
    rw [heq] at himsi
    exact absurd himsi (by decide)
  · rw [dif_neg himsi]
    by_cases hguti : fivegGutiType.isPrefixOf ueContextId.bytes
    · have hlookup : ∀ guti : Option Guti, Returns (match guti with
          | none => (.ok none : Except Fault (Option Nat))
          | some guti => .ok (ues.amfUeFindByGuti guti)) := by
        intro guti
        cases guti with
        | none => exact returns_ok _
        | some guti => exact returns_ok _
      have hends:=fivegGuti_prefix_lengths hguti
      rw [if_pos hguti]
      refine (returns_bind hlookup).trans ((amfNamfCommParseGuti_returns _ _).trans ?_)
      rw [← Nat.not_lt,hends]
    · rw [if_neg hguti]
      refine iff_of_true (returns_ok _) fun heq => ?_
      rw [heq] at hguti
      exact hguti (by decide)

/-- The texts of a peer that are read, and the values that come back from their text. -/
theorem identifier_texts (ues : Ues) (hexbuf : Vector Byte 3) (str : CStr) (tai old : Tai)
    (nrCgi oldCgi : NrCgi) (loc : NrLocation) (sNssai : SNssai) (x : BitVec 64) :
    (Returns (ues.amfUeFindByUeContextId hexbuf str) ↔ str.bytes≠fivegGutiType) ∧
      (Returns (sNssaiFromString str.bytes) ↔ SdInRange str.bytes) ∧
      (Returns (parseNrLocation tai nrCgi loc) ↔ loc.InRange) ∧
      sNssaiFromString (sNssaiToString sNssai) = .ok sNssai ∧
      (∃ tai' nrCgi',parseNrLocation old oldCgi (buildNrLocation tai nrCgi) = .ok (tai',nrCgi') ∧
        tai'.tac=tai.tac ∧ nrCgi'.cellId=nrCgi.cellId ∧
        (IsDecimal (plmnIdOf tai.plmnId) → plmnIdOf tai'.plmnId=plmnIdOf tai.plmnId) ∧
        (IsDecimal (plmnIdOf nrCgi.plmnId) → plmnIdOf nrCgi'.plmnId=plmnIdOf nrCgi.plmnId)) ∧
      (uint64FromString (uint64To0String x) = .ok x ↔ x.toNat<2^63) := by
  have hplmn {v : Vector Byte 3} (h : IsDecimal (plmnIdOf v)) :
      plmnIdOf (parsePlmnId (buildPlmnId (plmnIdOf v))).bytes=plmnIdOf v := by
    rw [plmnIdOf_bytes,parsePlmnId_build h]
  refine ⟨amfUeFindByUeContextId_returns ues hexbuf str,sNssaiFromString_returns str.bytes,
    parseNrLocation_returns tai nrCgi loc,sNssaiFromString_toString sNssai,?_,
    uint64FromString_to0String x⟩
  exact ⟨_,_,parseNrLocation_build old tai oldCgi nrCgi,rfl,rfl,hplmn,hplmn⟩

def typeAlone : CStr := ⟨fivegGutiType,by decide⟩

/-- The id is read behind its end, and a number with its highest bit set stops its reader. -/
theorem short_guti_read_behind_end :
    (∀ ues hexbuf,Ues.amfUeFindByUeContextId ues hexbuf typeAlone = .error .read) ∧
      sNssaiFromString (ascii "1-ffffffffffffffff") = .error .assertion ∧
      uint64FromString (uint64To0String 0xffffffffffffffff) = .error .assertion := by
  refine ⟨fun ues hexbuf => rfl,?_,?_⟩
  · decide
  · decide

end OgsDp.Amf
