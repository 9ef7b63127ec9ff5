import Mathlib.Tactic.IntervalCases
import Mathlib.Tactic.NormNum
import OgsDp.Lib.Checked
import OgsDp.Smf.ModificationRequest

/-!
# Bit rates in NAS messages (lib/nas/common/types.c, lib/gtp/v2/types.c)

A bit rate of 5GS is a number of a unit.
-/

namespace OgsDp.Smf
open Lib OgsDp.Core BitVec

def bitrateLoop : Nat → Nat → BitVec 64 → NasBitrate
  | 0, unit, bitrate => ⟨unit,bitrate.setWidth 16⟩
  | room+1, unit, bitrate =>
    if bitrate≤0xFFFF then ⟨unit,bitrate.setWidth 16⟩
    else bitrateLoop room (unit+1) (bitrate >>> 2)

def bitrateFromUint64 (bitrate : BitVec 64) : Except Fault NasBitrate :=
  if bitrate=0 then .error .assertion else .ok (bitrateLoop 24 1 (bitrate / 1000))

def NasBitrate.unitRate (br : NasBitrate) : Nat :=
  4^((br.unit-1) % 5)*1000^((br.unit-1) / 5+1)

def NasBitrate.IsExact (br : NasBitrate) : Prop :=
  ∃ r,br.toUint64=some r ∧ r.toNat=br.value.toNat*br.unitRate

/-- What was encoded of the rate is at most the rate, and less than a unit below it. -/
def FloorOf (b : BitVec 64) : Prop :=
  ∃ br r,bitrateFromUint64 b = .ok br ∧ br.toUint64=some r ∧ r.toNat≤b.toNat ∧
    b.toNat < r.toNat+max br.unitRate 1000

section Units

variable {room unit : Nat} {b : BitVec 64}

theorem bitrateLoop_eq (hb : b.toNat<65536*4^room) :
    ∃ k ≤ room,(bitrateLoop room unit b).unit=unit+k ∧
      (bitrateLoop room unit b).value.toNat=b.toNat / 4^k ∧ b.toNat / 4^k<65536 ∧
      (k=0 ∨ 65536*4^(k-1)≤b.toNat) := by
  induction room generalizing unit b with
  | zero =>
    refine ⟨0,Nat.le_refl 0,rfl,?_,by omega,.inl rfl⟩
    show (b.setWidth 16).toNat=_
    rw [toNat_setWidth]
    omega
  | succ room ih =>
    rw [bitrateLoop]
    by_cases hfits : b≤0xFFFF
    · have hle : b.toNat≤65535 := hfits
      rw [if_pos hfits]
      refine ⟨0,Nat.zero_le _,rfl,?_,by omega,.inl rfl⟩
      show (b.setWidth 16).toNat=_
      rw [toNat_setWidth]
      omega
    · have hlarge : ¬ b.toNat≤65535 := hfits
      have hshift : (b >>> 2).toNat=b.toNat / 4 := by
        rw [toNat_ushiftRight,Nat.shiftRight_eq_div_pow]
      have hpow : 4^(room+1)=4*4^room := by rw [Nat.pow_succ,Nat.mul_comm]
      obtain ⟨k,hk,hunit,hvalue,hlt,hmin⟩ := @ih (unit+1) (b >>> 2)
        (by rw [hshift]; omega)
      rw [hshift,Nat.div_div_eq_div_mul,← Nat.pow_succ'] at hvalue hlt
      rw [if_neg hfits]
      refine ⟨k+1,by omega,by omega,hvalue,hlt,.inr ?_⟩
      rw [hshift] at hmin
      cases k with
      | zero =>
        show 65536*4^0≤_
        omega
      | succ k =>
        have hstep : 4^(k+1)=4*4^k := by rw [Nat.pow_succ,Nat.mul_comm]
        have hlow : 65536*4^k≤b.toNat / 4 := hmin.resolve_left (by omega)
        show 65536*4^(k+1)≤_
        omega

theorem toUint64_eq {br : NasBitrate} (h : 1≤br.unit ∧ br.unit≤25) :
    ∃ r,br.toUint64=some r ∧
      let p:=br.value.toNat*br.unitRate % 2^32
      p<2^31 ∧ r.toNat=p ∨ 2^31≤p ∧ r.toNat=p+(2^64-2^32) := by
  refine ⟨_,if_pos h,?_⟩
  have hvalue:=br.value.isLt
  have hp : (br.value.setWidth 32*BitVec.ofNat 32 br.unitRate).toNat =
      br.value.toNat*br.unitRate % 2^32 := by
    rw [toNat_mul,toNat_setWidth,toNat_ofNat,
      Nat.mod_eq_of_lt (by omega : br.value.toNat<2^32),Nat.mul_mod_mod]
  have hextend:=toNat_signExtend (v := 64)
    (br.value.setWidth 32*BitVec.ofNat 32 br.unitRate)
  rw [toNat_setWidth,msb_eq_decide,hp] at hextend
  have hlt:=Nat.mod_lt (br.value.toNat*br.unitRate) (by decide : 0<2^32)
  by_cases hmsb : br.value.toNat*br.unitRate % 2^32<2^31
  · have hfalse : decide (2^(32-1)≤br.value.toNat*br.unitRate % 2^32)=false :=
      decide_eq_false (by omega)
    rw [hfalse] at hextend
    refine .inl ⟨hmsb,hextend.trans ?_⟩
    simp only [Bool.false_eq_true,if_false]
    omega
  · have htrue : decide (2^(32-1)≤br.value.toNat*br.unitRate % 2^32)=true :=
      decide_eq_true (by omega)
    rw [htrue] at hextend
    refine .inr ⟨by omega,hextend.trans ?_⟩
    simp only [if_true]
    omega

theorem isExact_iff (br : NasBitrate) : br.IsExact ↔
    (1≤br.unit ∧ br.unit≤25) ∧ br.value.toNat*br.unitRate<2^31 := by
  unfold NasBitrate.IsExact
  by_cases hunit : 1≤br.unit ∧ br.unit≤25
  · obtain ⟨r,hr,hval⟩ := toUint64_eq hunit
    -- Products near 2 ^ 64, whose low half would be extended to them, are no products of a unit.
    have hgap : br.value.toNat*br.unitRate<2^64-2^31 ∨
        2^64≤br.value.toNat*br.unitRate := by
      have hvalue:=br.value.isLt
      obtain ⟨hlow,hhigh⟩ := hunit
      unfold NasBitrate.unitRate
      generalize br.unit=unit at hlow hhigh
      interval_cases unit
      all_goals
        norm_num only
        omega
    constructor
    · intro h
      obtain ⟨r',hr',hexact⟩ := h
      rw [hr] at hr'
      cases hr'
      refine ⟨hunit,?_⟩
      have hmod:=Nat.mod_lt (br.value.toNat*br.unitRate) (by decide : 0<2^32)
      simp only at hval
      omega
    · intro h
      refine ⟨r,hr,?_⟩
      have hmod:=Nat.mod_eq_of_lt (by omega : br.value.toNat*br.unitRate<2^32)
      simp only [hmod] at hval
      omega
  · have hnone : br.toUint64=none := if_neg hunit
    constructor
    · intro h
      obtain ⟨r,hr,-⟩ := h
      rw [hnone] at hr
      cases hr
    · exact fun h => absurd h.1 hunit

section Between

variable {b k r p : Nat}

theorem between_of_small (hk : k≤3) (hlt : b / 1000 / 4^k<65536)
    (hmin : k=0 ∨ 65536*4^(k-1)≤b / 1000)
    (hp : p=b / 1000 / 4^k*(4^(k % 5)*1000^(k / 5+1)) % 2^32)
    (hr : p<2^31 ∧ r=p ∨ 2^31≤p ∧ r=p+(2^64-2^32)) :
    r≤b ∧ b < r+max (4^(k % 5)*1000^(k / 5+1)) 1000 ↔ b<2147520000 := by
  have hsmall : b / 1000 / 4^k*(4^(k % 5)*1000^(k / 5+1))<2^32 := by
    interval_cases k
    all_goals
      norm_num only at hlt ⊢
      omega
  rw [Nat.mod_eq_of_lt hsmall] at hp
  interval_cases k
  all_goals
    norm_num only at hp hlt hmin hr ⊢
    omega

theorem not_between_of_large (hk : 4≤k ∧ k≤20) (hmin : 65536*4^(k-1)≤b / 1000)
    (hr : r<2^31 ∨ b < r) :
    ¬ (r≤b ∧ b < r+max (4^(k % 5)*1000^(k / 5+1)) 1000) := by
  obtain ⟨hlow,hhigh⟩ := hk
  interval_cases k
  all_goals
    norm_num only at hmin ⊢
    omega

theorem between_iff (hb : b<2^64) (hk : k≤20) (hlt : b / 1000 / 4^k<65536)
    (hmin : k=0 ∨ 65536*4^(k-1)≤b / 1000)
    (hp : p=b / 1000 / 4^k*(4^(k % 5)*1000^(k / 5+1)) % 2^32)
    (hr : p<2^31 ∧ r=p ∨ 2^31≤p ∧ r=p+(2^64-2^32)) :
    r≤b ∧ b < r+max (4^(k % 5)*1000^(k / 5+1)) 1000 ↔
      b<2147520000 ∨ 0xffffffff94ba8000≤b := by
  by_cases hsmall : k≤3
  · have hpow : 4^k≤4^3 := Nat.pow_le_pow_right (by decide) hsmall
    have hdiv:=Nat.div_add_mod (b / 1000) (4^k)
    have hmod:=Nat.mod_lt (b / 1000) (Nat.pow_pos (n := k) (by decide : 0<4))
    have hmul : 4^k*(b / 1000 / 4^k)≤4^3*(b / 1000 / 4^k) :=
      Nat.mul_le_mul_right _ hpow
    rw [between_of_small hsmall hlt hmin hp hr]
    omega
  · have hfifth : 65536*4^(k-1)≤b / 1000 := hmin.resolve_left (by omega)
    have hpow : 4^3≤4^(k-1) := Nat.pow_le_pow_right (by decide) (by omega)
    by_cases hend : b<2^64-2^31
    · refine iff_of_false (not_between_of_large ⟨by omega,hk⟩ hfifth (by omega)) (by omega)
    · have hlast : k=20 := by
        by_contra hne
        have hpow : 4^k≤4^19 := Nat.pow_le_pow_right (by decide) (by omega)
        have hroom : b / 1000<65536*4^k :=
          Nat.lt_mul_of_div_lt hlt (Nat.pow_pos (by decide))
        omega
      subst hlast
      have hvalue : b / 1000 / 4^20=16777 := by omega
      rw [hvalue] at hp
      norm_num only at hp hr ⊢
      omega

end Between

theorem floorOf_iff (b : BitVec 64) : FloorOf b ↔
    b≠0 ∧ (b.toNat<2147520000 ∨ 0xffffffff94ba8000≤b.toNat) := by
  unfold FloorOf bitrateFromUint64
  by_cases hzero : b=0
  · rw [if_pos hzero]
    constructor
    · intro h
      obtain ⟨br,r,hbr,-⟩ := h
      cases hbr
    · exact fun h => absurd hzero h.1
  · rw [if_neg hzero]
    have hb:=b.isLt
    have hkbps : (b / 1000).toNat=b.toNat / 1000 := toNat_udiv
    obtain ⟨k,hk,hunit,hvalue,hlt,hmin⟩ := @bitrateLoop_eq 24 1 (b / 1000)
      (by rw [hkbps]; omega)
    rw [hkbps] at hvalue hlt hmin
    have hk20 : k≤20 := by
      by_contra hlarge
      have hpow : 4^20≤4^(k-1) := Nat.pow_le_pow_right (by decide) (by omega)
      have hlow:=hmin.resolve_left (by omega)
      omega
    obtain ⟨r,hr,hval⟩ := @toUint64_eq (bitrateLoop 24 1 (b / 1000))
      (by rw [hunit]; omega)
    have hrate : (bitrateLoop 24 1 (b / 1000)).unitRate=4^(k % 5)*1000^(k / 5+1) := by
      unfold NasBitrate.unitRate
      rw [hunit,Nat.add_sub_cancel_left]
    rw [hvalue,hrate] at hval
    have hfloor : (∃ br r',Except.ok (bitrateLoop 24 1 (b / 1000))=(.ok br : Except Fault _) ∧
        br.toUint64=some r' ∧ r'.toNat≤b.toNat ∧
          b.toNat < r'.toNat+max br.unitRate 1000) ↔
        r.toNat≤b.toNat ∧ b.toNat < r.toNat+max (4^(k % 5)*1000^(k / 5+1)) 1000 := by
      constructor
      · intro h
        obtain ⟨br,r',hbr,hr',hle,hltr⟩ := h
        cases hbr
        rw [hr] at hr'
        cases hr'
        rw [hrate] at hltr
        exact ⟨hle,hltr⟩
      · intro h
        exact ⟨_,r,rfl,hr,h.1,by rw [hrate]; exact h.2⟩
    rw [hfloor]
    simp only [ne_eq,hzero,not_false_eq_true,true_and]
    exact between_iff hb hk20 hlt hmin rfl hval

end Units

end OgsDp.Smf
