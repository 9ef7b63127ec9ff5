import OgsDp.Pfcp.Handler
import OgsDp.Pfcp.VolumeMeasurement

/-!
# The IEs of URRs and QERs (lib/pfcp/build.c and types.c)

A quantity that is zero is left out of the IE.
-/

namespace OgsDp.Pfcp
open Lib OgsDp.Core

def buildVolume (v : Volume) : List Byte :=
  v.flags::(putVolume (v.flags.val.testBit 0) v.totalVolume ++
    putVolume (v.flags.val.testBit 1) v.uplinkVolume ++
      putVolume (v.flags.val.testBit 2) v.downlinkVolume)

def buildDroppedDlTrafficThreshold (d : DroppedDlTrafficThreshold) : List Byte :=
  d.flags::(putVolume (d.flags.val.testBit 0) d.downlinkPackets ++
    putVolume (d.flags.val.testBit 1) d.numberOfBytesOfDownlinkData)

def kbps (x : BitVec 64) : Nat := x.toNat / 1000 + if x.toNat % 1000≠0 then 1 else 0

def buildBitrate (b : Bitrate) : List Byte :=
  netBytes 5 (kbps b.uplink)++netBytes 5 (kbps b.downlink)

def nonzero {n : Nat} (x : BitVec n) : Option (BitVec n) := if x=0 then none else some x

def volumeIe (v : Volume) : Option (List Byte) := if v.flags=0 then none else some (buildVolume v)

def droppedDlTrafficThresholdIe (d : DroppedDlTrafficThreshold) : Option (List Byte) :=
  if d.flags=0 then none else some (buildDroppedDlTrafficThreshold d)

def bitrateIe (b : Bitrate) : Option (List Byte) :=
  if b.uplink≠0 ∨ b.downlink≠0 then some (buildBitrate b) else none

def triggersU24 (t : Byte × Byte × Byte) : BitVec 24 :=
  BitVec.ofNat 24 (t.1.val*65536+t.2.1.val*256+t.2.2.val)

def buildCreateUrr (id : BitVec 32) (x : Urr) : UrrIe where
  urrId := some id
  measurementMethod := some x.measMethod
  reportingTriggers := some (triggersU24 x.repTriggers)
  measurementPeriod := nonzero x.measPeriod
  volumeThreshold := volumeIe x.volThreshold
  volumeQuota := volumeIe x.volQuota
  eventThreshold := nonzero x.eventThreshold
  eventQuota := nonzero x.eventQuota
  timeThreshold := nonzero x.timeThreshold
  timeQuota := nonzero x.timeQuota
  quotaHoldingTime := nonzero x.quotaHoldingTime
  droppedDlTrafficThreshold := droppedDlTrafficThresholdIe x.droppedDlTrafficThreshold
  quotaValidityTime := nonzero x.quotaValidityTime
  measurementInformation := if x.measInfo=0 then none else some [x.measInfo]

structure UrrFlags where
  measMethod : Bool
  reportTrigger : Bool
  quotaValidityTime : Bool
  volumeQuota : Bool
  timeQuota : Bool
  volumeThresh : Bool
  timeThresh : Bool

def urrFlags (modifyFlags : BitVec 64) : UrrFlags where
  measMethod := modifyFlags.getLsbD 27
  reportTrigger := modifyFlags.getLsbD 28
  quotaValidityTime := modifyFlags.getLsbD 29
  volumeQuota := modifyFlags.getLsbD 30
  timeQuota := modifyFlags.getLsbD 31
  volumeThresh := modifyFlags.getLsbD 32
  timeThresh := modifyFlags.getLsbD 33

def UrrFlags.any (f : UrrFlags) : Bool :=
  f.measMethod || f.reportTrigger || f.volumeThresh || f.volumeQuota || f.timeThresh ||
    f.timeQuota || f.quotaValidityTime

/-- `ogs_pfcp_build_update_urr`; without a flag there is no IE. -/
def buildUpdateUrr (id : BitVec 32) (x : Urr) (modifyFlags : BitVec 64) : Option UrrIe :=
  let f:=urrFlags modifyFlags
  if f.any then
    some {
      urrId := some id
      measurementMethod := if f.measMethod then some x.measMethod else none
      reportingTriggers := if f.reportTrigger then some (triggersU24 x.repTriggers) else none
      measurementPeriod := none
      volumeThreshold := if f.volumeThresh then volumeIe x.volThreshold else none
      volumeQuota := if f.volumeQuota then volumeIe x.volQuota else none
      eventThreshold := none
      eventQuota := none
      timeThreshold := if f.timeThresh then nonzero x.timeThreshold else none
      timeQuota := if f.timeQuota then nonzero x.timeQuota else none
      quotaHoldingTime := none
      droppedDlTrafficThreshold := none
      quotaValidityTime := if f.quotaValidityTime then nonzero x.quotaValidityTime else none
      measurementInformation := none }
  else none

def buildCreateQer (id : BitVec 32) (x : Qer) : QerIe where
  qerId := some id
  gateStatus := some x.gateStatus
  maximumBitrate := bitrateIe x.mbr
  guaranteedBitrate := bitrateIe x.gbr
  qosFlowIdentifier := if x.qfi=0 then none else some x.qfi

def buildUpdateQer (id : BitVec 32) (x : Qer) : QerIe where
  qerId := some id
  gateStatus := none
  maximumBitrate := bitrateIe x.mbr
  guaranteedBitrate := bitrateIe x.gbr
  qosFlowIdentifier := none

theorem be64_eq (l : List Byte) : be64 l=BitVec.ofNat 64 (netValue l) := by
  induction l using List.reverseRecOn with
  | nil => rfl
  | append_singleton l b ih =>
    have hfold : be64 (l++[b])=be64 l*256+BitVec.ofNat 64 b.val := by
      simp only [be64,List.foldl_append,List.foldl_cons,List.foldl_nil]
    rw [hfold,ih,netValue_append]
    apply BitVec.eq_of_toNat_eq
    simp

theorem be64_netBytes (x : BitVec 64) : be64 (netBytes 8 x.toNat)=x := by
  have hlt : x.toNat<256^8 := x.isLt
  rw [be64_eq,netValue_netBytes,Nat.mod_eq_of_lt hlt,BitVec.ofNat_toNat,BitVec.setWidth_eq]

def Volume.sent (v : Volume) : Volume where
  flags := v.flags
  totalVolume := if v.flags.val.testBit 0 then v.totalVolume else 0
  uplinkVolume := if v.flags.val.testBit 1 then v.uplinkVolume else 0
  downlinkVolume := if v.flags.val.testBit 2 then v.downlinkVolume else 0

theorem parseVolumeField_put {octets before after : List Byte} {v : Volume} {bit n : Nat}
    {x : BitVec 64} (hoctets : octets=before++putVolume (v.flags.val.testBit bit) x++after)
    (hn : before.length=n) (put : BitVec 64 → Volume → Volume) (hzero : put 0 v=v) :
    parseVolumeField octets bit put (v,some n) =
      (put (if v.flags.val.testBit bit then x else 0) v,
        some (n+(putVolume (v.flags.val.testBit bit) x).length)) := by
  subst hoctets hn
  unfold parseVolumeField putVolume
  cases hbit : v.flags.val.testBit bit with
  | false =>
    simp only [hbit,Bool.false_eq_true,if_false,List.length_nil,Nat.add_zero]
    exact Prod.ext hzero.symm rfl
  | true =>
    have hlen : ¬ (before++netBytes 8 x.toNat++after).length<before.length+8 := by
      simp only [List.length_append,length_netBytes]
      omega
    have htake : ((before++netBytes 8 x.toNat++after).drop before.length).take 8 =
        netBytes 8 x.toNat := by
      rw [List.append_assoc,List.drop_left' rfl,List.take_left' (length_netBytes 8 _)]
    simp only [hbit,if_true,hlen,if_false,htake,be64_netBytes,length_netBytes]

theorem parseVolume_build (beyond : Byte) (v : Volume) :
    parseVolume beyond (buildVolume v)=(v.sent,(buildVolume v).length) := by
  have hfirst : buildVolume v=[v.flags]++putVolume (v.flags.val.testBit 0) v.totalVolume ++
      (putVolume (v.flags.val.testBit 1) v.uplinkVolume ++
        putVolume (v.flags.val.testBit 2) v.downlinkVolume) := by
    simp [buildVolume]
  have hsecond : buildVolume v =
      ([v.flags]++putVolume (v.flags.val.testBit 0) v.totalVolume) ++
        putVolume (v.flags.val.testBit 1) v.uplinkVolume ++
          putVolume (v.flags.val.testBit 2) v.downlinkVolume := by
    simp [buildVolume]
  have hthird : buildVolume v =
      ([v.flags]++putVolume (v.flags.val.testBit 0) v.totalVolume ++
        putVolume (v.flags.val.testBit 1) v.uplinkVolume) ++
          putVolume (v.flags.val.testBit 2) v.downlinkVolume++[] := by
    simp [buildVolume]
  have hhead : (buildVolume v).head?.getD beyond=v.flags := rfl
  unfold parseVolume
  dsimp only
  have hread₁:=parseVolumeField_put (v := ⟨v.flags,0,0,0⟩) hfirst (n := 1) rfl
    (fun x v => { v with totalVolume := x }) rfl
  have hread₂ := fun total => parseVolumeField_put (v := ⟨v.flags,total,0,0⟩) hsecond
    (n := 1+(putVolume (v.flags.val.testBit 0) v.totalVolume).length) (by simp; omega)
    (fun x v => { v with uplinkVolume := x }) rfl
  have hread₃ := fun total uplink => parseVolumeField_put (v := ⟨v.flags,total,uplink,0⟩) hthird
    (n := 1+(putVolume (v.flags.val.testBit 0) v.totalVolume).length +
      (putVolume (v.flags.val.testBit 1) v.uplinkVolume).length) (by simp; omega)
    (fun x v => { v with downlinkVolume := x }) rfl
  rw [hhead,hread₁]
  dsimp only
  rw [hread₂]
  dsimp only
  rw [hread₃]
  rw [hthird]
  simp [Volume.sent]
  omega

theorem length_buildBitrate (b : Bitrate) : (buildBitrate b).length=10 := by
  simp [buildBitrate]

theorem parseBitrate_build (b : Bitrate) : parseBitrate (buildBitrate b) =
    some ⟨BitVec.ofNat 64 (kbps b.uplink % 2^40)*1000,
      BitVec.ofNat 64 (kbps b.downlink % 2^40)*1000⟩ := by
  have htake : (buildBitrate b).take 5=netBytes 5 (kbps b.uplink) :=
    List.take_left' (length_netBytes 5 _)
  have hdrop : ((buildBitrate b).drop 5).take 5=netBytes 5 (kbps b.downlink) := by
    rw [buildBitrate,List.drop_left' (length_netBytes 5 _),List.take_of_length_le (by simp)]
  have hpow : (256 : Nat)^5=2^40 := by decide
  rw [parseBitrate,if_pos (length_buildBitrate b),htake,hdrop,be64_eq,be64_eq,
    netValue_netBytes,netValue_netBytes,hpow]

theorem u24Byte_triggers (t : Byte × Byte × Byte) :
    u24Byte (triggersU24 t) 2=t.1 ∧ u24Byte (triggersU24 t) 1=t.2.1 ∧
      u24Byte (triggersU24 t) 0=t.2.2 := by
  have h0:=t.1.isLt
  have h1:=t.2.1.isLt
  have h2:=t.2.2.isLt
  refine ⟨?_,?_,?_⟩
  all_goals
    apply Fin.ext
    simp only [u24Byte,triggersU24,BitVec.toNat_ofNat,Fin.ofNat]
    omega

def DroppedDlTrafficThreshold.sent (d : DroppedDlTrafficThreshold) : DroppedDlTrafficThreshold where
  flags := d.flags
  downlinkPackets := if d.flags.val.testBit 0 then d.downlinkPackets else 0
  numberOfBytesOfDownlinkData :=
    if d.flags.val.testBit 1 then d.numberOfBytesOfDownlinkData else 0

theorem parseDroppedDlTrafficThreshold_build (beyond : Byte) (d : DroppedDlTrafficThreshold) :
    parseDroppedDlTrafficThreshold beyond (buildDroppedDlTrafficThreshold d)=some d.sent := by
  have hhead : (buildDroppedDlTrafficThreshold d).head?.getD beyond=d.flags := rfl
  have htake : ∀ x : BitVec 64, ∀ l : List Byte, (netBytes 8 x.toNat++l).take 8 =
      netBytes 8 x.toNat := fun x l => List.take_left' (length_netBytes 8 _)
  have hall : ∀ x : BitVec 64, (netBytes 8 x.toNat).take 8=netBytes 8 x.toNat :=
    fun x => List.take_of_length_le (by simp)
  unfold parseDroppedDlTrafficThreshold
  rw [hhead]
  unfold buildDroppedDlTrafficThreshold putVolume DroppedDlTrafficThreshold.sent
  dsimp only
  generalize d.flags.val.testBit 0=dlpa
  generalize d.flags.val.testBit 1=dlby
  cases dlpa <;> cases dlby
  · simp
  · simp [hall,be64_netBytes]
  · simp [hall,be64_netBytes]
  · simp [htake,hall,be64_netBytes]

theorem Volume.sent_sent (v : Volume) : v.sent.sent=v.sent := by
  unfold Volume.sent
  cases v.flags.val.testBit 0 <;> cases v.flags.val.testBit 1 <;>
    cases v.flags.val.testBit 2 <;> rfl

theorem sayVolume_built (beyond : Byte) (type : IeType) (flag : Bool) (v old : Volume)
    (put : Volume → Urr → Urr) (x : Urr) (hold : put old x=x) :
    sayVolume beyond type (if flag then volumeIe v else none) put x =
      (put (if flag ∧ v.flags≠0 ∧ measuresVolume x then v.sent else old) x,none) := by
  unfold sayVolume volumeIe
  cases flag with
  | false => simp [hold]
  | true =>
    by_cases hflags : v.flags=0
    · simp [hflags,hold]
    · by_cases hmeasures : measuresVolume x
      · simp [hflags,hmeasures,parseVolume_build]
      · simp [hflags,hmeasures,hold]

theorem nonzero_getD {n : Nat} (flag : Bool) (v w : BitVec n) :
    (if flag then nonzero v else none).getD w = if flag ∧ v≠0 then v else w := by
  unfold nonzero
  cases flag with
  | false => simp
  | true =>
    by_cases hv : v=0
    · simp [hv]
    · rw [if_pos rfl,if_neg hv,if_pos ⟨rfl,hv⟩,Option.getD_some]

theorem triggers_elim (flag : Bool) (v w : Byte × Byte × Byte) :
    (if flag then some (triggersU24 v) else none).elim w (fun n =>
      (u24Byte n 0,u24Byte n 1,u24Byte n 2)) =
        if flag then (v.2.2,v.2.1,v.1) else w := by
  obtain ⟨h2,h1,h0⟩ := u24Byte_triggers v
  cases flag with
  | false => rfl
  | true => simp only [if_true,Option.elim_some,h0,h1,h2]

theorem getD_ite {α : Type} (flag : Bool) (v w : α) :
    (if flag then some v else none).getD w = if flag then v else w := by
  cases flag <;> rfl

theorem sayUrr_built (beyond : Byte) (m : UrrIe) (x : Urr) {a b c : Bool} {v w : Volume}
    {d : DroppedDlTrafficThreshold}
    (hthreshold : m.volumeThreshold = if a then volumeIe v else none)
    (hquota : m.volumeQuota = if b then volumeIe w else none)
    (hdropped : m.droppedDlTrafficThreshold = if c then droppedDlTrafficThresholdIe d else none) :
    sayUrr beyond m x = .ok { x with
      measPeriod := m.measurementPeriod.getD x.measPeriod
      volThreshold := if a ∧ v.flags≠0 ∧ measuresVolume x then v.sent else x.volThreshold
      volQuota := if b ∧ w.flags≠0 ∧ measuresVolume x then w.sent else x.volQuota
      eventThreshold := if measuresEvent x then m.eventThreshold.getD x.eventThreshold
        else x.eventThreshold
      eventQuota := if measuresEvent x then m.eventQuota.getD x.eventQuota else x.eventQuota
      timeThreshold := if measuresDuration x then m.timeThreshold.getD x.timeThreshold
        else x.timeThreshold
      timeQuota := if measuresDuration x then m.timeQuota.getD x.timeQuota else x.timeQuota
      quotaHoldingTime := m.quotaHoldingTime.getD x.quotaHoldingTime
      droppedDlTrafficThreshold := if c ∧ d.flags≠0 then d.sent else x.droppedDlTrafficThreshold
      quotaValidityTime := m.quotaValidityTime.getD x.quotaValidityTime
      measInfo := (m.measurementInformation.bind List.head?).getD x.measInfo } none := by
  unfold sayUrr
  dsimp only
  rw [hthreshold,sayVolume_built _ _ _ _ x.volThreshold _ _ rfl]
  dsimp only
  rw [hquota,sayVolume_built _ _ _ _ x.volQuota _ _ rfl]
  dsimp only
  by_cases hsent : c ∧ d.flags≠0
  · have hsome : m.droppedDlTrafficThreshold=some (buildDroppedDlTrafficThreshold d) := by
      rw [hdropped,if_pos hsent.1,droppedDlTrafficThresholdIe,if_neg hsent.2]
    rw [hsome,if_pos hsent]
    dsimp only
    rw [parseDroppedDlTrafficThreshold_build]
    rfl
  · have hnone : m.droppedDlTrafficThreshold=none := by
      rw [hdropped]
      cases c with
      | false => rfl
      | true =>
        have hflags : d.flags=0 := by
          by_contra hflags
          exact hsent ⟨rfl,hflags⟩
        rw [if_pos rfl,droppedDlTrafficThresholdIe,if_pos hflags]
    rw [hnone,if_neg hsent]
    rfl

end OgsDp.Pfcp
