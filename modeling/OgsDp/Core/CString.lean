import OgsDp.Core.Conv

/-!
# Strings with a terminator, and hexadecimal digits (lib/core/ogs-conv.c)

A `char` is eight bits, and what is computed with it comes back to eight bits. Neither function on
digits looks whether it is given one.
-/

namespace OgsDp.Core
open List

def plus : Byte := 43
def minus : Byte := 45

def beforeZero (l : List Byte) : List Byte := l.takeWhile (· ≠ 0)

namespace CStr

def mem (s : CStr) : List Byte := s.bytes++[0]

def ofMem (m : List Byte) : CStr :=
  ⟨beforeZero m,fun h => by simpa using mem_takeWhile_imp h⟩

theorem eq_of_bytes {s t : CStr} (h : s.bytes=t.bytes) : s=t := by
  cases s
  cases t
  cases h
  rfl

end CStr

variable {s : List Byte}

theorem beforeZero_append (h : (0 : Byte)∉s) (l : List Byte) :
    beforeZero (s++l)=s++beforeZero l := by
  refine takeWhile_append_of_pos fun b hb => ?_
  have hne : b≠0 := fun he => h (he ▸ hb)
  exact decide_eq_true hne

theorem length_beforeZero (l : List Byte) : (beforeZero l).length≤l.length :=
  ( takeWhile_prefix _).length_le

theorem beforeZero_append_zero (l : List Byte) : beforeZero (l++[0])=beforeZero l := by
  induction l with
  | nil => rfl
  | cons c l ih =>
    unfold beforeZero at ih ⊢
    rw [cons_append,takeWhile_cons,takeWhile_cons,ih]

theorem ofMem_append {l : List Byte} (h : (0 : Byte)∉l) : (CStr.ofMem (l++[0])).bytes=l := by
  show beforeZero (l++[0])=l
  rw [beforeZero_append h]
  exact append_nil l

def toLower (ch : Byte) : Byte := if 65 ≤ ch.val ∧ ch.val≤90 then ch+32 else ch

def sameNoCase (a b : List Byte) : Bool := decide (a.map toLower=b.map toLower)

def ogsFromHex (ch : Byte) : Byte := if isDigit ch then ch-48 else toLower ch-97+10

def ogsToHex (ch : Byte) : Byte :=
  (ascii "0123456789ABCDEF")[ch.val % 16]?.getD 0

-- `ogs_from_hex(high) << 4 | ogs_from_hex(low)`, of which a `char` keeps eight bits.
def hexPair (high low : Byte) : Byte :=
  Fin.ofNat 256 ((ogsFromHex high).val <<< 4 ||| (ogsFromHex low).val)

set_option maxRecDepth 4000 in
theorem hexPair_toHex :
    ∀ c : Byte, hexPair (ogsToHex (Fin.ofNat 256 (c.val >>> 4)))
      (ogsToHex (Fin.ofNat 256 (c.val &&& 15)))=c := by
  decide

end OgsDp.Core
