import OgsDp.Core.Octets
import OgsDp.Pfcp.RuleBuild

/-!
# The reads of the decoders of quantities (lib/pfcp/types.c)

The flags are read of an empty IE too.
-/

namespace OgsDp.Pfcp
open Lib OgsDp.Core List Option

def parseBitrateWithin (octets : List Byte) : Except Fault Bitrate :=
  if octets.length=10 then do
    let uplink ← octetsAt octets 0 5
    let downlink ← octetsAt octets 5 5
    .ok ⟨be64 uplink*1000,be64 downlink*1000⟩
  else .error .assertion

-- One volume that is compared with what is left: `none` is the early `return 0`.
def volumeFieldWithin (octets : List Byte) (bit : Nat) (put : BitVec 64 → Volume → Volume)
    (r : Volume × Option Nat) : Except Fault (Volume × Option Nat) :=
  match r with
  | (v,none) => .ok (v,none)
  | (v,some size) =>
    if v.flags.val.testBit bit then
      if octets.length<size+8 then .ok (v,none)
      else do
        let b ← octetsAt octets size 8
        .ok (put (be64 b) v,some (size+8))
    else .ok (v,some size)

def parseVolumeWithin (octets : List Byte) : Except Fault (Volume × Nat) := do
  let flags ← octetAt octets 0
  let r ← volumeFieldWithin octets 0 (fun x v => { v with totalVolume := x })
    (⟨flags,0,0,0⟩,some 1)
  let r ← volumeFieldWithin octets 1 (fun x v => { v with uplinkVolume := x }) r
  let r ← volumeFieldWithin octets 2 (fun x v => { v with downlinkVolume := x }) r
  .ok (r.1,r.2.getD 0)

-- A number that is there if `present`, and the size with it. Nothing is compared.
def numberWithin (octets : List Byte) (present : Bool) (size : Nat) :
    Except Fault (BitVec 64 × Nat) :=
  if present then do
    let b ← octetsAt octets size 8
    .ok (be64 b,size+8)
  else .ok (0,size)

def parseDroppedWithin (octets : List Byte) : Except Fault DroppedDlTrafficThreshold := do
  let flags ← octetAt octets 0
  let packets ← numberWithin octets (flags.val.testBit 0) 1
  let bytes ← numberWithin octets (flags.val.testBit 1) packets.2
  if bytes.2=octets.length then .ok ⟨flags,packets.1,bytes.1⟩ else .error .assertion

def announced (n : Nat) (flags : Byte) : Nat :=
  8*((List.range n).filter fun bit => flags.val.testBit bit).length

/-- A bit rate in kilobits that five octets hold. -/
structure WholeRate (x : BitVec 64) : Prop where
  kilobits : x.toNat % 1000=0
  small : x.toNat / 1000<2^40

variable {octets : List Byte} {size : Nat} {flags : Byte}

theorem octetAt_zero {b : Byte} : octetAt octets 0 = .ok b ↔ octets≠[] ∧ b=octets.headD 0 := by
  cases octets with
  | nil => exact iff_of_false nofun fun h => h.1 rfl
  | cons a l => exact ⟨fun h => ⟨cons_ne_nil _ _,(Except.ok.inj h).symm⟩,
      fun h => congrArg _ h.2.symm⟩

def fieldLength (present : Bool) : Nat := if present then 8 else 0

def fieldValue (octets : List Byte) (present : Bool) (size : Nat) : BitVec 64 :=
  if present then be64 ((octets.drop size).take 8) else 0

theorem numberWithin_ok {present : Bool} {r : BitVec 64 × Nat} :
    numberWithin octets present size = .ok r ↔
      (present=true → size+8≤octets.length) ∧
        r=(fieldValue octets present size,size+fieldLength present) := by
  unfold numberWithin fieldValue fieldLength
  cases present with
  | false => exact ⟨fun h => ⟨nofun,(Except.ok.inj h).symm⟩,by rintro ⟨-,rfl⟩; rfl⟩
  | true =>
    rw [if_pos rfl,bind_eq_ok]
    constructor
    · rintro ⟨b,hb,hr⟩
      by_cases hin : size+8≤octets.length
      · rw [octetsAt_of_le hin] at hb
        obtain rfl := Except.ok.inj hb
        exact ⟨fun _ => hin,(Except.ok.inj hr).symm⟩
      · rw [octetsAt_of_lt (Nat.not_le.mp hin)] at hb
        cases hb
    · rintro ⟨hin,rfl⟩
      exact ⟨_,octetsAt_of_le (hin rfl),rfl⟩

theorem fieldLength_fits {present : Bool} {length : Nat} (h : size+fieldLength present≤length) :
    present=true → size+8≤length := by
  rintro rfl
  exact h

theorem announced_succ (n : Nat) (flags : Byte) :
    announced (n+1) flags=announced n flags+fieldLength (flags.val.testBit n) := by
  unfold announced fieldLength
  rw [range_succ,filter_append,length_append,Nat.mul_add]
  cases h : flags.val.testBit n with
  | false => rw [filter_cons_of_neg (by simp [h])]; rfl
  | true => rw [filter_cons_of_pos h]; rfl

theorem announced_two (flags : Byte) : announced 2 flags =
    fieldLength (flags.val.testBit 0)+fieldLength (flags.val.testBit 1) := by
  rw [announced_succ,announced_succ]
  exact congrArg (· + _) (Nat.zero_add _)

theorem announced_six (flags : Byte) : announced 6 flags =
    fieldLength (flags.val.testBit 0)+fieldLength (flags.val.testBit 1) +
      fieldLength (flags.val.testBit 2)+fieldLength (flags.val.testBit 3) +
        fieldLength (flags.val.testBit 4)+fieldLength (flags.val.testBit 5) := by
  rw [announced_succ,announced_succ,announced_succ,announced_succ,announced_two]

theorem parseDroppedWithin_ok {d : DroppedDlTrafficThreshold} : parseDroppedWithin octets = .ok d ↔
    octets.length=1+announced 2 (octets.headD 0) ∧
      d=⟨octets.headD 0,fieldValue octets ((octets.headD 0).val.testBit 0) 1,
        fieldValue octets ((octets.headD 0).val.testBit 1)
          (1+fieldLength ((octets.headD 0).val.testBit 0))⟩ := by
  rw [announced_two,← Nat.add_assoc]
  unfold parseDroppedWithin
  constructor
  · intro h
    obtain ⟨flags,hflags,h⟩ := bind_eq_ok.mp h
    obtain ⟨-,rfl⟩ := octetAt_zero.mp hflags
    obtain ⟨packets,hpackets,h⟩ := bind_eq_ok.mp h
    obtain ⟨-,rfl⟩ := numberWithin_ok.mp hpackets
    obtain ⟨bytes,hbytes,h⟩ := bind_eq_ok.mp h
    obtain ⟨-,rfl⟩ := numberWithin_ok.mp hbytes
    split at h
    · rename_i hsize
      exact ⟨hsize.symm,(Except.ok.inj h).symm⟩
    · cases h
  · rintro ⟨hlen,rfl⟩
    have hne : octets≠[] := length_pos_iff.mp (by omega)
    refine bind_eq_ok.mpr ⟨_,octetAt_zero.mpr ⟨hne,rfl⟩,?_⟩
    refine bind_eq_ok.mpr ⟨_,numberWithin_ok.mpr ⟨fieldLength_fits (by omega),rfl⟩,?_⟩
    refine bind_eq_ok.mpr
      ⟨_,numberWithin_ok.mpr ⟨fieldLength_fits (by dsimp only; omega),rfl⟩,?_⟩
    exact if_pos hlen.symm

theorem parseDroppedWithin_iff (beyond : Byte) {d : DroppedDlTrafficThreshold} :
    parseDroppedWithin octets = .ok d ↔
      octets≠[] ∧ parseDroppedDlTrafficThreshold beyond octets=some d := by
  rw [parseDroppedWithin_ok,announced_two,← Nat.add_assoc]
  cases octets with
  | nil => exact iff_of_false nofun fun h => h.1 rfl
  | cons flags l =>
    unfold parseDroppedDlTrafficThreshold fieldValue fieldLength
    dsimp only [headD_cons,List.head?_cons,getD_some]
    constructor
    · rintro ⟨hlen,rfl⟩
      exact ⟨cons_ne_nil _ _,if_pos hlen.symm⟩
    · rintro ⟨-,h⟩
      obtain ⟨hlen,hd⟩ := ite_none_right_eq_some.mp h
      exact ⟨hlen.symm,(some.inj hd).symm⟩

theorem getVolume_ok {present : Bool} {r : BitVec 64 × Nat} :
    getVolume octets present size = .ok r ↔
      (present=true → size+8≤octets.length) ∧
        r=(fieldValue octets present size,size+fieldLength present) := by
  unfold getVolume fieldValue fieldLength
  cases present with
  | false => exact ⟨fun h => ⟨nofun,(Except.ok.inj h).symm⟩,by rintro ⟨-,rfl⟩; rfl⟩
  | true =>
    rw [if_pos rfl,bind_eq_ok]
    constructor
    · rintro ⟨x,hx,hr⟩
      unfold readNet at hx
      split at hx
      · rename_i hin
        obtain rfl := Except.ok.inj hx
        rw [if_pos rfl,be64_eq]
        exact ⟨fun _ => hin,(Except.ok.inj hr).symm⟩
      · cases hx
    · rintro ⟨hin,rfl⟩
      rw [if_pos rfl,be64_eq]
      exact ⟨_,if_pos (hin rfl),rfl⟩

theorem parseVolumeMeasurement_ok : (∃ v,parseVolumeMeasurement octets = .ok v) ↔
    octets.length=1+announced 6 (octets.headD 0) := by
  cases octets with
  | nil => exact ⟨nofun,nofun⟩
  | cons flags l =>
    have hflags : readNet (flags::l) 0 1 = .ok flags.val := by
      unfold readNet
      rw [if_pos (by simp)]
      simp [netValue]
    have hbyte : Fin.ofNat 256 flags.val=flags := Fin.ofNat_val_eq_self flags
    unfold parseVolumeMeasurement
    rw [hflags,ok_bind]
    dsimp only
    rw [hbyte,headD_cons,announced_six]
    constructor
    · rintro ⟨v,h⟩
      obtain ⟨_,h₀,h⟩ := bind_eq_ok.mp h
      obtain ⟨-,rfl⟩ := getVolume_ok.mp h₀
      obtain ⟨_,h₁,h⟩ := bind_eq_ok.mp h
      obtain ⟨-,rfl⟩ := getVolume_ok.mp h₁
      obtain ⟨_,h₂,h⟩ := bind_eq_ok.mp h
      obtain ⟨-,rfl⟩ := getVolume_ok.mp h₂
      obtain ⟨_,h₃,h⟩ := bind_eq_ok.mp h
      obtain ⟨-,rfl⟩ := getVolume_ok.mp h₃
      obtain ⟨_,h₄,h⟩ := bind_eq_ok.mp h
      obtain ⟨-,rfl⟩ := getVolume_ok.mp h₄
      obtain ⟨_,h₅,h⟩ := bind_eq_ok.mp h
      obtain ⟨-,rfl⟩ := getVolume_ok.mp h₅
      split at h
      · cases h
      · rename_i hsize
        dsimp only at hsize
        omega
    · intro hlen
      rw [getVolume_ok.mpr ⟨fieldLength_fits (by omega),rfl⟩,ok_bind,
        getVolume_ok.mpr ⟨fieldLength_fits (by dsimp only; omega),rfl⟩,ok_bind,
        getVolume_ok.mpr ⟨fieldLength_fits (by dsimp only; omega),rfl⟩,ok_bind,
        getVolume_ok.mpr ⟨fieldLength_fits (by dsimp only; omega),rfl⟩,ok_bind,
        getVolume_ok.mpr ⟨fieldLength_fits (by dsimp only; omega),rfl⟩,ok_bind,
        getVolume_ok.mpr ⟨fieldLength_fits (by dsimp only; omega),rfl⟩,ok_bind]
      exact ⟨_,if_neg (by dsimp only; omega)⟩

theorem volumeFieldWithin_eq (bit : Nat) (put : BitVec 64 → Volume → Volume)
    (r : Volume × Option Nat) :
    volumeFieldWithin octets bit put r = .ok (parseVolumeField octets bit put r) := by
  obtain ⟨v,_ | size⟩ := r
  · rfl
  · unfold volumeFieldWithin parseVolumeField
    dsimp only
    split
    · split
      · rfl
      · rename_i hin
        rw [octetsAt_of_le (Nat.not_lt.mp hin)]
        rfl
    · rfl

theorem parseVolumeWithin_ok (beyond : Byte) {r : Volume × Nat} :
    parseVolumeWithin octets = .ok r ↔ octets≠[] ∧ r=parseVolume beyond octets := by
  cases octets with
  | nil => exact iff_of_false nofun fun h => h.1 rfl
  | cons flags l =>
    unfold parseVolumeWithin parseVolume
    rw [octetAt_zero.mpr ⟨cons_ne_nil flags l,rfl⟩,ok_bind,volumeFieldWithin_eq,ok_bind,
      volumeFieldWithin_eq,ok_bind,volumeFieldWithin_eq,ok_bind]
    exact ⟨fun h => ⟨cons_ne_nil _ _,(Except.ok.inj h).symm⟩,by rintro ⟨-,rfl⟩; rfl⟩

theorem parseBitrateWithin_iff {b : Bitrate} :
    parseBitrateWithin octets = .ok b ↔ parseBitrate octets=some b := by
  unfold parseBitrateWithin parseBitrate
  split
  · rename_i hlen
    rw [octetsAt_of_le (by omega),ok_bind,octetsAt_of_le (by omega),ok_bind,drop_zero]
    exact ⟨fun h => congrArg some (Except.ok.inj h),
      fun h => congrArg Except.ok (some.inj h)⟩
  · exact ⟨nofun,nofun⟩

theorem parseBitrateWithin_ok : (∃ b,parseBitrateWithin octets = .ok b) ↔ octets.length=10 := by
  simp only [parseBitrateWithin_iff]
  unfold parseBitrate
  split
  · exact iff_of_true ⟨_,rfl⟩ (by assumption)
  · exact iff_of_false nofun (by assumption)

theorem kbps_back (x : BitVec 64) :
    BitVec.ofNat 64 (kbps x % 2^40)*1000=x ↔ WholeRate x := by
  have hlt : kbps x % 2^40*1000<2^64 := by omega
  have hsmall : kbps x % 2^40<2^64 := by omega
  have hback : BitVec.ofNat 64 (kbps x % 2^40)*1000=x ↔ kbps x % 2^40*1000=x.toNat := by
    rw [← BitVec.toNat_inj,BitVec.toNat_mul,BitVec.toNat_ofNat,Nat.mod_eq_of_lt hsmall]
    show _*1000 % 2^64=_ ↔ _
    rw [Nat.mod_eq_of_lt hlt]
  rw [hback]
  unfold kbps
  constructor
  · intro h
    have hwhole : x.toNat % 1000=0 := by omega
    rw [hwhole] at h
    exact ⟨hwhole,by simp only [ne_eq,not_true_eq_false,if_false] at h; omega⟩
  · rintro ⟨hwhole,hkilobits⟩
    rw [hwhole,if_neg (fun h => h rfl),Nat.add_zero,Nat.mod_eq_of_lt hkilobits]
    omega

theorem parseBitrateWithin_build (b : Bitrate) :
    parseBitrateWithin (buildBitrate b) = .ok b ↔ WholeRate b.uplink ∧ WholeRate b.downlink := by
  rw [parseBitrateWithin_iff,parseBitrate_build,← kbps_back,← kbps_back,some_inj]
  constructor
  · intro h
    exact ⟨congrArg Bitrate.uplink h,congrArg Bitrate.downlink h⟩
  · rintro ⟨hup,hdown⟩
    rw [hup,hdown]

theorem parseVolumeWithin_build (v : Volume) :
    parseVolumeWithin (buildVolume v) = .ok (v.sent,(buildVolume v).length) :=
  (parseVolumeWithin_ok 0).mpr ⟨cons_ne_nil _ _,(parseVolume_build 0 v).symm⟩

theorem parseDroppedWithin_build (d : DroppedDlTrafficThreshold) :
    parseDroppedWithin (buildDroppedDlTrafficThreshold d) = .ok d.sent :=
  (parseDroppedWithin_iff 0).mpr ⟨cons_ne_nil _ _,parseDroppedDlTrafficThreshold_build 0 d⟩

end OgsDp.Pfcp
