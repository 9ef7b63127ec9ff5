import OgsDp.Nas.Security

/-!
# The uplink NAS COUNT (lib/nas/common/security.h, ul_count)

A message carries 8 bits of the sender's COUNT, a service request 5. The receiver takes the next
COUNT that ends with these bits.
-/

namespace OgsDp.Nas
open OgsDp.Core BitVec

theorem sub_toNat_eq_zero {w : Nat} (a b : BitVec w) : (a-b).toNat=0 ↔ b=a := by
  constructor
  · intro h
    have hzero : a-b=0 := eq_of_toNat_eq (by simpa using h)
    have hsum:=congrArg (· + b) hzero
    simpa [BitVec.sub_add_cancel,eq_comm] using hsum
  · rintro rfl
    simp

namespace UlCount

variable {c : UlCount} {s : BitVec 8} {k j : Nat}

def low (c : UlCount) : Nat := c.overflow.toNat*256+c.sqn.toNat

def advance (c : UlCount) (k : Nat) : UlCount where
  spare := c.spare
  overflow := BitVec.ofNat 16 ((c.low+k) / 256)
  sqn := BitVec.ofNat 8 (c.low+k)

theorem low_lt (c : UlCount) : c.low<2^24 := by
  have ho:=c.overflow.isLt
  have hs:=c.sqn.isLt
  unfold low
  omega

theorem low_advance (c : UlCount) (k : Nat) : (c.advance k).low=(c.low+k) % 2^24 := by
  show (BitVec.ofNat 16 ((c.low+k) / 256)).toNat*256+(BitVec.ofNat 8 (c.low+k)).toNat=_
  rw [toNat_ofNat,toNat_ofNat]
  omega

@[simp] theorem advance_spare (c : UlCount) (k : Nat) : (c.advance k).spare=c.spare := rfl

theorem ext_low {d : UlCount} (hspare : c.spare=d.spare) (hlow : c.low=d.low) : c=d := by
  obtain ⟨cs,co,cq⟩ := c
  obtain ⟨ds,do',dq⟩ := d
  have h1:=cq.isLt
  have h2:=dq.isLt
  simp only [low] at hspare hlow
  have ho : co = do' := eq_of_toNat_eq (by omega)
  have hq : cq=dq := eq_of_toNat_eq (by omega)
  rw [hspare,ho,hq]

theorem i32_toNat (c : UlCount) : c.i32.toNat=c.spare.toNat*2^24+c.low := by
  have ho:=c.overflow.isLt
  have hs:=c.sqn.isLt
  unfold i32 low
  rw [toNat_append,toNat_append,← Nat.shiftLeft_add_eq_or_of_lt hs,
    ← Nat.shiftLeft_add_eq_or_of_lt ho]
  simp only [Nat.shiftLeft_eq]
  omega

theorem i32_inj {d : UlCount} (h : c.i32=d.i32) : c=d := by
  have hval:=congrArg BitVec.toNat h
  rw [i32_toNat,i32_toNat] at hval
  have hc:=c.low_lt
  have hd:=d.low_lt
  apply ext_low
  · apply eq_of_toNat_eq
    omega
  · omega

theorem advance_zero (c : UlCount) : c.advance 0=c := by
  apply ext_low
  · rfl
  · rw [low_advance,Nat.add_zero,Nat.mod_eq_of_lt c.low_lt]

theorem advance_advance (c : UlCount) (j k : Nat) :
    (c.advance j).advance k=c.advance (j+k) := by
  apply ext_low
  · rfl
  · rw [low_advance,low_advance,low_advance,Nat.mod_add_mod,Nat.add_assoc]

theorem advance_inj (hj : j<2^24) (hk : k<2^24) (h : c.advance j=c.advance k) :
    j=k := by
  have hlow:=congrArg low h
  rw [low_advance,low_advance] at hlow
  have hc:=c.low_lt
  omega

theorem estimate_eq (c : UlCount) (s : BitVec 8) :
    c.estimate s=c.advance (s-c.sqn).toNat := by
  have ho:=c.overflow.isLt
  have hs:=s.isLt
  have hc:=c.sqn.isLt
  have hsub:=toNat_sub s c.sqn
  unfold estimate
  apply ext_low
  · split <;> rfl
  · rw [low_advance]
    unfold low
    split
    · rename_i hlt
      have hlt' : s.toNat<c.sqn.toNat := hlt
      have hone : (1 : BitVec 16).toNat=1 := rfl
      show (c.overflow+1).toNat*256+s.toNat=_
      rw [toNat_add,hone]
      omega
    · rename_i hle
      have hle' : ¬ s.toNat<c.sqn.toNat := hle
      simp only
      omega

theorem and_high (x : BitVec 8) : (x &&& 0xe0).toNat=x.toNat / 32*32 := by
  revert x
  decide

theorem and_low (x : BitVec 8) : (x &&& 0x1f).toNat=x.toNat % 32 := by
  revert x
  decide

theorem estimatedSequenceNumber_sub (c : UlCount) (s : BitVec 5) :
    (c.estimatedSequenceNumber s-c.sqn).toNat=(s-c.sqn.setWidth 5).toNat := by
  have hs:=s.isLt
  have hc:=c.sqn.isLt
  have hhigh:=and_high c.sqn
  have hlow:=and_low c.sqn
  have hwide : (s.setWidth 8).toNat=s.toNat := by
    rw [toNat_setWidth,Nat.mod_eq_of_lt (by omega)]
  rw [toNat_sub,toNat_sub,toNat_setWidth]
  unfold estimatedSequenceNumber
  simp only [lt_def]
  rw [hwide,hlow]
  split
  · have hcarry : (0x20 : BitVec 8).toNat=32 := rfl
    rw [toNat_add,toNat_add,hwide,hhigh,hcarry]
    omega
  · rw [toNat_add,hwide,hhigh]
    omega

end UlCount

/-- What a decoder takes from a message before it knows about the MAC. -/
inductive Reading where
  | idle
  | restart
  | full (restart : Bool) (sqn : BitVec 8)
  | short (sqn : BitVec 5)
  deriving DecidableEq

namespace Reading

def counted : Reading → Bool
  | .full .. => true
  | .short _ => true
  | _ => false

def restarts : Reading → Bool
  | .restart => true
  | .full true _ => true
  | _ => false

def steps (c : UlCount) : Reading → Nat
  | .full _ sqn => (sqn-c.sqn).toNat
  | .short sqn => (sqn-c.sqn.setWidth 5).toNat
  | _ => 0

def Carries (n : Nat) : Reading → Prop
  | .full _ sqn => sqn=BitVec.ofNat 8 n
  | .short sqn => sqn=BitVec.ofNat 5 n
  | _ => True

def range : Reading → Nat
  | .full .. => 2^8
  | .short _ => 2^5
  | _ => 0

end Reading

namespace UlCount

variable {c : UlCount} {r : Reading} {n : Nat}

def read (c : UlCount) (r : Reading) : UlCount :=
  let c := if r.restarts then zero else c
  match r with
  | .full _ sqn => c.estimate sqn
  | .short sqn => c.estimate (c.estimatedSequenceNumber sqn)
  | _ => c

theorem read_eq (c : UlCount) (r : Reading) :
    c.read r=(if r.restarts then zero else c).advance
      (r.steps (if r.restarts then zero else c)) := by
  cases r with
  | idle => exact c.advance_zero.symm
  | restart => exact zero.advance_zero.symm
  | full restart sqn => exact estimate_eq _ sqn
  | short sqn =>
    show c.estimate (c.estimatedSequenceNumber sqn)=c.advance _
    rw [estimate_eq,estimatedSequenceNumber_sub]
    rfl

theorem steps_le (c : UlCount) (r : Reading) : r.steps c≤255 := by
  cases r with
  | idle => exact Nat.zero_le 255
  | restart => exact Nat.zero_le 255
  | full restart sqn =>
    have h:=(sqn-c.sqn).isLt
    show (sqn-c.sqn).toNat≤255
    omega
  | short sqn =>
    have h:=(sqn-c.sqn.setWidth 5).isLt
    show (sqn-c.sqn.setWidth 5).toNat≤255
    omega

theorem steps_lt (c : UlCount) (r : Reading) : r.steps c<2^24 := by
  have h:=steps_le c r
  omega

theorem steps_of_carries (hcounted : r.counted=true) (hcarries : r.Carries n) (hle : c.low≤n)
    (hlt : n<c.low+r.range) : r.steps c=n-c.low := by
  have hs:=c.sqn.isLt
  cases r with
  | idle => cases hcounted
  | restart => cases hcounted
  | full restart sqn =>
    simp only [Reading.Carries,Reading.range,low] at hcarries hle hlt
    show (sqn-c.sqn).toNat=n-(c.overflow.toNat*256+c.sqn.toNat)
    rw [hcarries,toNat_sub,toNat_ofNat]
    omega
  | short sqn =>
    simp only [Reading.Carries,Reading.range,low] at hcarries hle hlt
    show (sqn-c.sqn.setWidth 5).toNat=n-(c.overflow.toNat*256+c.sqn.toNat)
    rw [hcarries,toNat_sub,toNat_ofNat,toNat_setWidth]
    omega

end UlCount

end OgsDp.Nas
