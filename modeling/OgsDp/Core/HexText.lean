import OgsDp.Core.Calendar
import OgsDp.Core.Octets
import OgsDp.Core.CString

/-!
# Hexadecimal numbers in text (lib/core/ogs-conv.c)

Numbers are written with `%0*x` and read with `strtoll`, whose range error stops the process.
-/

namespace OgsDp.Core
open Lib

def isHexDigit (b : Byte) : Bool :=
  isDigit b || (97≤b.val && b.val≤102) || (65≤b.val && b.val≤70)

def hexValueOf (b : Byte) : Nat :=
  if isDigit b then b.val-48 else if 97≤b.val then b.val-87 else b.val-55

def hexFrom (v : Nat) (l : List Byte) : Nat := l.foldl (fun v b => 16*v+hexValueOf b) v

def skip0x : List Byte → List Byte
  | [] => []
  | [b] => [b]
  | b::c::rest => if b=48 ∧ (c=120 ∨ c=88) then rest else b::c::rest

def hexDigitsValue (text : List Byte) : Nat := hexFrom 0 ((skip0x text).takeWhile isHexDigit)

def hexNumber (text : List Byte) : Int :=
  match text.dropWhile isSpace with
  | [] => 0
  | b::rest =>
    if b=minus then -(hexDigitsValue rest : Int)
    else if b=plus then hexDigitsValue rest
    else hexDigitsValue (b::rest)

def longMin : Int := -9223372036854775808
def longMax : Int := 9223372036854775807

/-- `ogs_uint64_from_string` with base 16; `strtoll` returns the nearest number that there is, and
sets `errno` if it is another one. -/
def uint64FromString (str : List Byte) : Except Fault (BitVec 64) :=
  if str.length=0 then .ok 0
  else
    let x:=clampLong (hexNumber str)
    let erange:=x≠hexNumber str
    if erange ∧ (x=longMax ∨ x=longMin) ∨ erange ∧ x=0 then .error .assertion
    else .ok (BitVec.ofInt 64 x)

def uint24FromString (str : List Byte) : Except Fault (BitVec 24) :=
  return (← uint64FromString str).setWidth 24

def hexText (n : Nat) : List Byte := (Nat.toDigits 16 n).map fun c => Fin.ofNat 256 c.toNat

def hexPadded (width n : Nat) : List Byte :=
  List.replicate (width-(hexText n).length) 48++hexText n

def uint64To0String (x : BitVec 64) : List Byte := hexPadded 16 x.toNat

def uint24To0String (x : BitVec 24) : List Byte := hexPadded 6 x.toNat

def uint36To0String (x : BitVec 64) : List Byte := hexPadded 9 x.toNat

def HexInRange (text : List Byte) : Prop := longMin≤hexNumber text ∧ hexNumber text≤longMax

theorem clampLong_eq_iff (v : Int) : clampLong v=v ↔ longMin≤v ∧ v≤longMax := by
  unfold clampLong longMin longMax
  split
  · omega
  · split
    · omega
    · omega

theorem uint64FromString_eq (str : List Byte) (hrange : HexInRange str) :
    uint64FromString str = .ok (BitVec.ofInt 64 (hexNumber str)) := by
  unfold uint64FromString
  by_cases hnil : str.length=0
  · rw [if_pos hnil,List.length_eq_zero_iff.mp hnil]
    rfl
  · have hclamp:=(clampLong_eq_iff (hexNumber str)).mpr hrange
    rw [if_neg hnil]
    simp only [hclamp,ne_eq,not_true,false_and,or_self,if_false]

theorem uint64FromString_error (str : List Byte) (hrange : ¬ HexInRange str) :
    uint64FromString str = .error .assertion := by
  have hnil : str.length≠0 := by
    intro h0
    apply hrange
    rw [List.length_eq_zero_iff.mp h0]
    exact ⟨by decide,by decide⟩
  have hne : clampLong (hexNumber str)≠hexNumber str :=
    fun h => hrange ((clampLong_eq_iff _).mp h)
  have hend : clampLong (hexNumber str)=longMax ∨ clampLong (hexNumber str)=longMin := by
    have hout : ¬ (longMin≤hexNumber str ∧ hexNumber str≤longMax) := hrange
    unfold clampLong longMin longMax at *
    split
    · exact .inr rfl
    · split
      · exact .inl rfl
      · omega
  unfold uint64FromString
  rw [if_neg hnil]
  exact if_pos (.inl ⟨hne,hend⟩)

theorem digitChar_facts (d : Nat) (hd : d<16) :
    isHexDigit (Fin.ofNat 256 (Nat.digitChar d).toNat)=true ∧
      hexValueOf (Fin.ofNat 256 (Nat.digitChar d).toNat)=d := by
  have hall : ∀ d : Fin 16, isHexDigit (Fin.ofNat 256 (Nat.digitChar d).toNat)=true ∧
      hexValueOf (Fin.ofNat 256 (Nat.digitChar d).toNat)=d.val := by
    decide
  exact hall ⟨d,hd⟩

theorem hexText_step {n : Nat} (h : 16≤n) : hexText n =
    hexText (n / 16)++[Fin.ofNat 256 (Nat.digitChar (n % 16)).toNat] := by
  unfold hexText
  rw [Nat.toDigits_of_base_le (by decide) h,List.map_append]
  rfl

theorem hexText_digit {n : Nat} (h : n<16) :
    hexText n=[Fin.ofNat 256 (Nat.digitChar n).toNat] := by
  rw [hexText,Nat.toDigits_of_lt_base h]
  rfl

theorem isHexDigit_hexText {n : Nat} : ∀ b∈hexText n,isHexDigit b=true := by
  induction n using Nat.strongRecOn with
  | ind n ih =>
    intro b hb
    by_cases h : n<16
    · rw [hexText_digit h,List.mem_singleton] at hb
      rw [hb]
      exact (digitChar_facts n h).1
    · rw [hexText_step (by omega)] at hb
      rcases List.mem_append.mp hb with hb | hb
      · exact ih (n / 16) (by omega) b hb
      · rw [List.mem_singleton.mp hb]
        exact (digitChar_facts (n % 16) (by omega)).1

theorem hexFrom_hexText (n : Nat) : hexFrom 0 (hexText n)=n := by
  induction n using Nat.strongRecOn with
  | ind n ih =>
    by_cases h : n<16
    · rw [hexText_digit h]
      show 16*0+hexValueOf _=n
      rw [(digitChar_facts n h).2]
      omega
    · have hhigh:=ih (n / 16) (by omega)
      unfold hexFrom at hhigh ⊢
      rw [hexText_step (by omega),List.foldl_append,hhigh]
      show 16*(n / 16)+hexValueOf _=n
      rw [(digitChar_facts (n % 16) (by omega)).2]
      omega

theorem isHexDigit_hexPadded {w n : Nat} : ∀ b∈hexPadded w n,isHexDigit b=true := by
  intro b hb
  rcases List.mem_append.mp hb with hb | hb
  · rw [List.eq_of_mem_replicate hb]
    rfl
  · exact isHexDigit_hexText b hb

theorem hexFrom_hexPadded (w n : Nat) : hexFrom 0 (hexPadded w n)=n := by
  have hzeros (k : Nat) : hexFrom 0 (List.replicate k (48 : Byte))=0 := by
    induction k with
    | zero => rfl
    | succ k ih => exact ih
  have htext:=hexFrom_hexText n
  unfold hexPadded
  unfold hexFrom at hzeros htext ⊢
  rw [List.foldl_append,hzeros,htext]

set_option maxRecDepth 4000 in
theorem hexNumber_digits {l : List Byte} (h : ∀ b∈l,isHexDigit b=true) :
    hexNumber l=hexFrom 0 l := by
  have hplain : ∀ b : Byte, isHexDigit b=true → isSpace b=false ∧ b≠minus ∧ b≠plus ∧
      b≠120 ∧ b≠88 := by
    decide
  cases l with
  | nil => rfl
  | cons b rest =>
    obtain ⟨hspace,hminus,hplus,-,-⟩ := hplain b (h b (List.mem_cons_self ..))
    have hskip : skip0x (b::rest)=b::rest := by
      cases rest with
      | nil => rfl
      | cons c rest =>
        obtain ⟨-,-,-,hlower,hupper⟩ :=
          hplain c (h c (List.mem_cons_of_mem _ (List.mem_cons_self ..)))
        rw [skip0x,if_neg fun hx => hx.2.elim hlower hupper]
    unfold hexNumber
    rw [List.dropWhile_cons_of_neg (by rw [hspace]; decide)]
    simp only
    rw [if_neg hminus,if_neg hplus,hexDigitsValue,hskip,List.takeWhile_eq_self_iff.mpr h]

theorem hexNumber_hexPadded (w n : Nat) : hexNumber (hexPadded w n)=n := by
  rw [hexNumber_digits isHexDigit_hexPadded,hexFrom_hexPadded]

theorem hexInRange_hexPadded (w n : Nat) : HexInRange (hexPadded w n) ↔ n<2^63 := by
  unfold HexInRange longMin longMax
  rw [hexNumber_hexPadded]
  omega

theorem uint64FromString_hexPadded (w : Nat) {n : Nat} (h : n<2^63) :
    uint64FromString (hexPadded w n) = .ok (BitVec.ofNat 64 n) := by
  rw [uint64FromString_eq _ ((hexInRange_hexPadded w n).mpr h),hexNumber_hexPadded,
    BitVec.ofInt_natCast]

theorem uint24FromString_hexPadded (w : Nat) (x : BitVec 24) :
    uint24FromString (hexPadded w x.toNat) = .ok x := by
  have hlt:=x.isLt
  rw [uint24FromString,uint64FromString_hexPadded w (by omega),ok_bind]
  show Except.ok _=_
  congr 1
  apply BitVec.eq_of_toNat_eq
  rw [BitVec.toNat_setWidth,BitVec.toNat_ofNat]
  omega

theorem uint64FromString_to0String (x : BitVec 64) :
    uint64FromString (uint64To0String x) = .ok x ↔ x.toNat<2^63 := by
  constructor
  · intro h
    by_contra hlarge
    rw [uint64To0String,uint64FromString_error _
      (fun hr => hlarge ((hexInRange_hexPadded _ _).mp hr))] at h
    cases h
  · intro h
    rw [uint64To0String,uint64FromString_hexPadded _ h,BitVec.ofNat_toNat,BitVec.setWidth_eq]

end OgsDp.Core
