import OgsDp.Pfcp.Types
import Mathlib.Data.BitVec
import OgsDp.Core.TlvBlock

/-!
# Volume measurements on the wire (lib/pfcp/types.c)
-/

/-! ### Usage reports (lib/pfcp/types.h, types.c) -/

namespace OgsDp.Pfcp
open OgsDp.Core

/-- `ogs_pfcp_reporting_triggers_t`: `reptri_5`, `reptri_6` and `reptri_7`. -/
abbrev ReportingTriggers := Byte × Byte × Byte

namespace ReportingTriggers

variable (t : ReportingTriggers)

def volumeThreshold : Bool := t.1.val.testBit 1
def timeThreshold : Bool := t.1.val.testBit 2
def volumeQuota : Bool := t.2.1.val.testBit 0
def timeQuota : Bool := t.2.1.val.testBit 1
def quotaValidityTime : Bool := t.2.1.val.testBit 7

end ReportingTriggers

structure UsageReportTrigger where
  reptri5 : Byte
  reptri6 : Byte
  reptri7 : Byte
  deriving DecidableEq

namespace UsageReportTrigger

def setBit (b : Bool) (k : Nat) (octet : Byte) : Byte :=
  if b then Fin.ofNat 256 (octet.val ||| 2^k) else octet

def setVolumeThreshold (b : Bool) (t : UsageReportTrigger) : UsageReportTrigger :=
  { t with reptri5 := setBit b 1 t.reptri5 }
def setTimeThreshold (b : Bool) (t : UsageReportTrigger) : UsageReportTrigger :=
  { t with reptri5 := setBit b 2 t.reptri5 }
def setVolumeQuota (b : Bool) (t : UsageReportTrigger) : UsageReportTrigger :=
  { t with reptri6 := setBit b 0 t.reptri6 }
def setTimeQuota (b : Bool) (t : UsageReportTrigger) : UsageReportTrigger :=
  { t with reptri6 := setBit b 1 t.reptri6 }
def setTerminationReport (b : Bool) (t : UsageReportTrigger) : UsageReportTrigger :=
  { t with reptri6 := setBit b 3 t.reptri6 }
def setQuotaValidityTime (b : Bool) (t : UsageReportTrigger) : UsageReportTrigger :=
  { t with reptri7 := setBit b 3 t.reptri7 }

end UsageReportTrigger

structure VolumeMeasurement where
  flags : Byte
  totalVolume : BitVec 64
  uplinkVolume : BitVec 64
  downlinkVolume : BitVec 64
  totalNPackets : BitVec 64
  uplinkNPackets : BitVec 64
  downlinkNPackets : BitVec 64
  deriving DecidableEq

structure UsageReport where
  id : BitVec 32
  seqn : BitVec 32
  repTrigger : UsageReportTrigger
  startTime : BitVec 32
  endTime : BitVec 32
  volMeasurement : VolumeMeasurement
  durMeasurement : BitVec 32
  timeOfFirstPacket : BitVec 32
  timeOfLastPacket : BitVec 32
  deriving DecidableEq

end OgsDp.Pfcp

namespace OgsDp.Pfcp
open OgsDp.Core List

namespace VolumeMeasurement

variable (v : VolumeMeasurement)

def tovol : Bool := v.flags.val.testBit 0
def ulvol : Bool := v.flags.val.testBit 1
def dlvol : Bool := v.flags.val.testBit 2
def tonop : Bool := v.flags.val.testBit 3
def ulnop : Bool := v.flags.val.testBit 4
def dlnop : Bool := v.flags.val.testBit 5

def sent : VolumeMeasurement where
  flags := v.flags
  totalVolume := if v.tovol then v.totalVolume else 0
  uplinkVolume := if v.ulvol then v.uplinkVolume else 0
  downlinkVolume := if v.dlvol then v.downlinkVolume else 0
  totalNPackets := if v.tonop then v.totalNPackets else 0
  uplinkNPackets := if v.ulnop then v.uplinkNPackets else 0
  downlinkNPackets := if v.dlnop then v.downlinkNPackets else 0

def zero : VolumeMeasurement := ⟨0,0,0,0,0,0,0⟩

end VolumeMeasurement

def putVolume (b : Bool) (x : BitVec 64) : List Byte := if b then netBytes 8 x.toNat else []

def buildVolumeMeasurement (v : VolumeMeasurement) : List Byte :=
  v.flags::(putVolume v.tovol v.totalVolume++putVolume v.ulvol v.uplinkVolume ++
    putVolume v.dlvol v.downlinkVolume++putVolume v.tonop v.totalNPackets ++
    putVolume v.ulnop v.uplinkNPackets++putVolume v.dlnop v.downlinkNPackets)

def getVolume (octet : List Byte) (b : Bool) (size : Nat) : Except Stop (BitVec 64 × Nat) :=
  if b then do
    let x ← readNet octet size 8
    return (BitVec.ofNat 64 x,size+8)
  else .ok (0,size)

def parseVolumeMeasurement (octet : List Byte) : Except Stop VolumeMeasurement := do
  let octet0 ← readNet octet 0 1
  let flags : Byte := Fin.ofNat 256 octet0
  let (totalVolume,size) ← getVolume octet (flags.val.testBit 0) 1
  let (uplinkVolume,size) ← getVolume octet (flags.val.testBit 1) size
  let (downlinkVolume,size) ← getVolume octet (flags.val.testBit 2) size
  let (totalNPackets,size) ← getVolume octet (flags.val.testBit 3) size
  let (uplinkNPackets,size) ← getVolume octet (flags.val.testBit 4) size
  let (downlinkNPackets,size) ← getVolume octet (flags.val.testBit 5) size
  if size≠octet.length then .error .abort
  else return {
    flags := flags
    totalVolume := totalVolume
    uplinkVolume := uplinkVolume
    downlinkVolume := downlinkVolume
    totalNPackets := totalNPackets
    uplinkNPackets := uplinkNPackets
    downlinkNPackets := downlinkNPackets }

section Measurement

variable {octet : List Byte} {size : Nat} {b : Bool} {x : BitVec 64} {v v' : VolumeMeasurement}

theorem getVolume_putVolume (h : At octet size (putVolume b x)) :
    getVolume octet b size = .ok (if b then x else 0,size+(putVolume b x).length) := by
  unfold getVolume putVolume at *
  cases b with
  | false => rfl
  | true =>
    rw [if_pos rfl] at h
    have hlt : x.toNat<256^8 := x.isLt
    rw [if_pos rfl,if_pos rfl,if_pos rfl,h.readNet_netBytes hlt,length_netBytes]
    show Except.ok _=_
    rw [BitVec.ofNat_toNat,BitVec.setWidth_eq]

theorem length_putVolume_le (b : Bool) (x : BitVec 64) : (putVolume b x).length≤8 := by
  unfold putVolume
  split
  · rw [length_netBytes]
  · exact Nat.zero_le 8

theorem length_buildVolumeMeasurement_le (v : VolumeMeasurement) :
    (buildVolumeMeasurement v).length≤49 := by
  have h₀:=length_putVolume_le v.tovol v.totalVolume
  have h₁:=length_putVolume_le v.ulvol v.uplinkVolume
  have h₂:=length_putVolume_le v.dlvol v.downlinkVolume
  have h₃:=length_putVolume_le v.tonop v.totalNPackets
  have h₄:=length_putVolume_le v.ulnop v.uplinkNPackets
  have h₅:=length_putVolume_le v.dlnop v.downlinkNPackets
  unfold buildVolumeMeasurement
  simp only [length_cons,length_append]
  omega

theorem parse_buildVolumeMeasurement (v : VolumeMeasurement) :
    parseVolumeMeasurement (buildVolumeMeasurement v) = .ok v.sent := by
  have hflags : readNet (buildVolumeMeasurement v) 0 1 = .ok v.flags.val := by
    unfold readNet buildVolumeMeasurement
    rw [if_pos (by simp)]
    simp [netValue]
  have hcons : buildVolumeMeasurement v=[v.flags]++(putVolume v.tovol v.totalVolume ++
      (putVolume v.ulvol v.uplinkVolume++(putVolume v.dlvol v.downlinkVolume ++
        (putVolume v.tonop v.totalNPackets++(putVolume v.ulnop v.uplinkNPackets ++
          putVolume v.dlnop v.downlinkNPackets))))) := by
    simp only [buildVolumeMeasurement,append_assoc,singleton_append]
  have htail : At (buildVolumeMeasurement v) 1 _ := (At.of_eq hcons).right
  have h₁:=htail.right
  have h₂:=h₁.right
  have h₃:=h₂.right
  have h₄:=h₃.right
  have h₅:=h₄.right
  have hsize : (buildVolumeMeasurement v).length=1+(putVolume v.tovol v.totalVolume).length +
      (putVolume v.ulvol v.uplinkVolume).length+(putVolume v.dlvol v.downlinkVolume).length +
      (putVolume v.tonop v.totalNPackets).length+(putVolume v.ulnop v.uplinkNPackets).length +
      (putVolume v.dlnop v.downlinkNPackets).length := by
    unfold buildVolumeMeasurement
    simp only [length_cons,length_append]
    omega
  have hbyte : Fin.ofNat 256 v.flags.val=v.flags := Fin.ofNat_val_eq_self v.flags
  unfold parseVolumeMeasurement
  rw [hflags]
  show Except.bind (getVolume _ ((Fin.ofNat 256 v.flags.val).val.testBit 0) 1) _=_
  rw [hbyte]
  show Except.bind (getVolume _ v.tovol 1) _=_
  rw [getVolume_putVolume htail.left]
  show Except.bind (getVolume _ v.ulvol _) _=_
  rw [getVolume_putVolume h₁.left]
  show Except.bind (getVolume _ v.dlvol _) _=_
  rw [getVolume_putVolume h₂.left]
  show Except.bind (getVolume _ v.tonop _) _=_
  rw [getVolume_putVolume h₃.left]
  show Except.bind (getVolume _ v.ulnop _) _=_
  rw [getVolume_putVolume h₄.left]
  show Except.bind (getVolume _ v.dlnop _) _=_
  rw [getVolume_putVolume h₅]
  show (if _ then _ else _)=_
  rw [if_neg (by omega)]
  rfl

theorem sent_sent (v : VolumeMeasurement) :
    buildVolumeMeasurement v.sent=buildVolumeMeasurement v := by
  have hput : ∀ (b : Bool) (x : BitVec 64),putVolume b (if b then x else 0)=putVolume b x := by
    intro b x
    cases b <;> rfl
  show v.flags::(putVolume v.tovol (if v.tovol then _ else 0) ++
    putVolume v.ulvol (if v.ulvol then _ else 0)++putVolume v.dlvol (if v.dlvol then _ else 0) ++
    putVolume v.tonop (if v.tonop then _ else 0)++putVolume v.ulnop (if v.ulnop then _ else 0) ++
    putVolume v.dlnop (if v.dlnop then _ else 0))=_
  simp only [hput]
  rfl

theorem buildVolumeMeasurement_inj :
    buildVolumeMeasurement v=buildVolumeMeasurement v' ↔ v.sent=v'.sent := by
  constructor
  · intro h
    have hparse:=parse_buildVolumeMeasurement v
    rw [h,parse_buildVolumeMeasurement v'] at hparse
    exact (Except.ok.inj hparse).symm
  · intro h
    rw [← sent_sent v,h,sent_sent v']

theorem length_buildVolumeMeasurement (h : v.flags=v'.flags) :
    (buildVolumeMeasurement v).length=(buildVolumeMeasurement v').length := by
  have hput : ∀ (b : Bool) (x : BitVec 64),(putVolume b x).length = if b then 8 else 0 := by
    intro b x
    cases b <;> simp [putVolume]
  unfold buildVolumeMeasurement
  simp only [length_cons,length_append,hput]
  unfold VolumeMeasurement.tovol VolumeMeasurement.ulvol VolumeMeasurement.dlvol
    VolumeMeasurement.tonop VolumeMeasurement.ulnop VolumeMeasurement.dlnop
  rw [h]

end Measurement

end OgsDp.Pfcp
