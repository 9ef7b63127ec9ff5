import Mathlib.Algebra.Group.Pi.Lemmas
import Mathlib.Data.BitVec
import OgsDp.Lib.Snapshot
import OgsDp.Pfcp.VolumeMeasurement
import OgsDp.Upf.Context

/-!
# Usage accounting (src/upf/context.c, src/upf/n4-build.c)

An entry of `urr_acc` counts the packets of one URR id.
-/

namespace OgsDp.Upf
open Lib OgsDp.Core Pfcp List

inductive Counter where
  | totalOctets
  | ulOctets
  | dlOctets
  | totalPkts
  | ulPkts
  | dlPkts
  deriving DecidableEq

abbrev Counters := Counter → BitVec 64

structure Accounting where
  reportingEnabled : Bool
  timers : UrrAcc
  timeStart : BitVec 32
  reportSeqn : BitVec 32
  counters : Counters
  timeOfFirstPacket : Int
  timeOfLastPacket : Int
  lastReport : Counters
  lastReportTimestamp : Int

def Accounting.zero : Accounting where
  reportingEnabled := false
  timers := .zero
  timeStart := 0
  reportSeqn := 0
  counters := 0
  timeOfFirstPacket := 0
  timeOfLastPacket := 0
  lastReport := 0
  lastReportTimestamp := 0

def secDiff1970 : Nat := 2208988800
def usecPerSec : Int := 1000000

def timeToNtp32 (time : Int) : BitVec 32 :=
  BitVec.ofInt 32 (time.tdiv usecPerSec+secDiff1970)

def timeFromNtp32 (ntpTimestamp : BitVec 32) : Int :=
  if ntpTimestamp.toNat<secDiff1970 then 0
  else (ntpTimestamp.toNat-secDiff1970 : Nat)*usecPerSec

structure Packet where
  size : BitVec 64
  isUplink : Bool
  deriving DecidableEq

def Packet.counts (p : Packet) : Counters
  | .totalOctets => p.size
  | .ulOctets => if p.isUplink then p.size else 0
  | .dlOctets => if p.isUplink then 0 else p.size
  | .totalPkts => 1
  | .ulPkts => if p.isUplink then 1 else 0
  | .dlPkts => if p.isUplink then 0 else 1

def volMeasurement (d : Counters) : VolumeMeasurement where
  flags := 0x3f
  totalVolume := d .totalOctets
  uplinkVolume := d .ulOctets
  downlinkVolume := d .dlOctets
  totalNPackets := d .totalPkts
  uplinkNPackets := d .ulPkts
  downlinkNPackets := d .dlPkts

def repTrigger (urr : Urr) (dur : BitVec 32) (total : BitVec 64) : UsageReportTrigger :=
  let t : ReportingTriggers := urr.repTriggers
  (UsageReportTrigger.mk 0 0 0)
    |>.setQuotaValidityTime
      (decide (0<urr.quotaValidityTime.toNat ∧ urr.quotaValidityTime.toNat≤dur.toNat))
    |>.setTimeQuota (decide (0<urr.timeQuota.toNat ∧ urr.timeQuota.toNat≤dur.toNat))
    |>.setTimeThreshold
      (decide (0<urr.timeThreshold.toNat ∧ urr.timeThreshold.toNat≤dur.toNat))
    |>.setVolumeQuota (t.volumeQuota && urr.volQuota.flags.val.testBit 0 &&
      decide (urr.volQuota.totalVolume.toNat≤total.toNat))
    |>.setVolumeThreshold (t.volumeThreshold && urr.volThreshold.flags.val.testBit 0 &&
      decide (urr.volThreshold.totalVolume.toNat≤total.toNat))

namespace Accounting

def fillUsageReport (urr : Urr) (id : BitVec 32) (now : Int) (acc : Accounting) :
    Accounting × UsageReport :=
  let timestamp := if acc.lastReportTimestamp≠0 then acc.lastReportTimestamp
    else timeFromNtp32 acc.timeStart
  let dur := if timestamp≤now then
      BitVec.ofInt 32 ((now-timestamp+usecPerSec / 2).tdiv usecPerSec) else 0
  let d:=acc.counters-acc.lastReport
  ({ acc with reportSeqn := acc.reportSeqn+1 },
    { id := id
      seqn := acc.reportSeqn
      repTrigger := repTrigger urr dur (d .totalOctets)
      startTime := acc.timeStart
      endTime := timeToNtp32 now
      volMeasurement := volMeasurement d
      durMeasurement := dur
      timeOfFirstPacket := timeToNtp32 acc.timeOfFirstPacket
      timeOfLastPacket := timeToNtp32 acc.timeOfLastPacket })

def snapshot (now : Int) (acc : Accounting) : Accounting :=
  { acc with lastReport := acc.counters,lastReportTimestamp := now }

def startTimer (r : Nat) (timer : Option AccTimer) : Option AccTimer :=
  some { (timer.getD ⟨r,false⟩) with running := true }

def validityTimeSetup (r : Nat) (acc : Accounting) : Accounting :=
  { acc with
    reportingEnabled := true
    timers := { acc.timers with validityTime := startTimer r acc.timers.validityTime } }

def timeQuotaSetup (r : Nat) (acc : Accounting) : Accounting :=
  { acc with
    reportingEnabled := true
    timers := { acc.timers with timeQuota := startTimer r acc.timers.timeQuota } }

def timeThresholdSetup (r : Nat) (acc : Accounting) : Accounting :=
  { acc with
    reportingEnabled := true
    timers := { acc.timers with timeThreshold := startTimer r acc.timers.timeThreshold } }

/-- `upf_sess_urr_acc_timers_setup`; `r` is the pointer to the URR. -/
def timersSetup (urr : Urr) (r : Nat) (now : Int) (acc : Accounting) : Accounting :=
  let t : ReportingTriggers := urr.repTriggers
  let acc:={ acc with timeStart := timeToNtp32 now }
  let acc := if t.quotaValidityTime && decide (0<urr.quotaValidityTime.toNat) then
    acc.validityTimeSetup r else acc
  let acc := if t.timeQuota && decide (0<urr.timeQuota.toNat) then acc.timeQuotaSetup r else acc
  if t.timeThreshold && decide (0<urr.timeThreshold.toNat) then acc.timeThresholdSetup r else acc

def volumeReached (urr : Urr) (vol : BitVec 64) : Bool :=
  let t : ReportingTriggers := urr.repTriggers
  t.volumeQuota && urr.volQuota.flags.val.testBit 0 &&
      decide (urr.volQuota.totalVolume.toNat≤vol.toNat) ||
    t.volumeThreshold && urr.volThreshold.flags.val.testBit 0 &&
      decide (urr.volThreshold.totalVolume.toNat≤vol.toNat)

def count (p : Packet) (now : Int) (acc : Accounting) : Accounting :=
  { acc with
    counters := acc.counters+p.counts
    timeOfLastPacket := now
    timeOfFirstPacket := if acc.timeOfFirstPacket=0 then now else acc.timeOfFirstPacket }

end Accounting

/-- An entry with the packets it counted and the reports filled from it. -/
structure Account where
  acc : Accounting
  packets : List Packet
  reports : List UsageReport

/-- A URR as its id and its pointer name it. -/
structure UrrRef where
  urr : Urr
  id : BitVec 32
  r : Nat

inductive AccountEvent where
  | packet (x : UrrRef) (p : Packet) (now : Nat → Int) (sent : Bool)
  | timer (x : UrrRef) (now : Nat → Int) (sent : Bool)
  | deletion (x : UrrRef) (now : Nat → Int)

namespace Account

def init : Account := ⟨.zero,[],[]⟩

def report (x : UrrRef) (mark : UsageReport → UsageReport) (fillNow snapshotNow : Int)
    (a : Account) : Account :=
  let filled:=a.acc.fillUsageReport x.urr x.id fillNow
  { a with acc := filled.1.snapshot snapshotNow,reports := a.reports++[mark filled.2] }

def timersSetup (x : UrrRef) (now : Int) (a : Account) : Account :=
  { a with acc := a.acc.timersSetup x.urr x.r now }

/-- `upf_sess_urr_acc_add`; `sent` says whether the report request could be sent. -/
def sessUrrAccAdd (x : UrrRef) (p : Packet) (now : Nat → Int) (sent : Bool) (a : Account) :
    Outcome Account Unit :=
  let a:={ a with acc := a.acc.count p (now 0),packets := a.packets++[p] }
  if Accounting.volumeReached x.urr
      (a.acc.counters .totalOctets-a.acc.lastReport .totalOctets) then
    let a:=a.report x id (now 1) (now 2)
    if sent then .ok (a.timersSetup x (now 3)) () else .abort a
  else .ok a ()

def sessUrrAccTimersCb (x : UrrRef) (now : Nat → Int) (sent : Bool) (a : Account) :
    Outcome Account Unit :=
  let t : ReportingTriggers := x.urr.repTriggers
  if t.quotaValidityTime || t.timeQuota || t.timeThreshold then
    let a:=a.report x id (now 0) (now 1)
    if sent then .ok (a.timersSetup x (now 2)) () else .abort a
  else .ok (a.timersSetup x (now 2)) ()

def deletionReport (x : UrrRef) (now : Nat → Int) (a : Account) : Account :=
  a.report x (fun report => { report with
    repTrigger := report.repTrigger.setTerminationReport true }) (now 0) (now 1)

def step (a : Account) : AccountEvent → Option (Outcome Account Unit)
  | .packet x p now sent => some (a.sessUrrAccAdd x p now sent)
  | .timer x now sent => some (a.sessUrrAccTimersCb x now sent)
  | .deletion x now => some (.ok (a.deletionReport x now) ())

def measured (report : UsageReport) : Counters
  | .totalOctets => report.volMeasurement.totalVolume
  | .ulOctets => report.volMeasurement.uplinkVolume
  | .dlOctets => report.volMeasurement.downlinkVolume
  | .totalPkts => report.volMeasurement.totalNPackets
  | .ulPkts => report.volMeasurement.uplinkNPackets
  | .dlPkts => report.volMeasurement.downlinkNPackets

def unreported (a : Account) : Counters := a.acc.counters-a.acc.lastReport

structure Kept (a : Account) : Prop where
  tallied : Tallied Packet.counts a.packets (a.reports.map measured) a.acc.counters
    a.acc.lastReport
  seqn : a.reports.map (·.seqn)=(List.range a.reports.length).map (BitVec.ofNat 32)
  next : a.acc.reportSeqn=BitVec.ofNat 32 a.reports.length

variable {a : Account} {x : UrrRef}

theorem kept_init : init.Kept := ⟨tallied_nil _,rfl,rfl⟩

theorem timersSetup_frame (urr : Urr) (r : Nat) (now : Int) (acc : Accounting) :
    (acc.timersSetup urr r now).counters=acc.counters ∧
      (acc.timersSetup urr r now).lastReport=acc.lastReport ∧
      (acc.timersSetup urr r now).reportSeqn=acc.reportSeqn := by
  unfold Accounting.timersSetup
  simp only
  split_ifs <;> exact ⟨rfl,rfl,rfl⟩

theorem Kept.timersSetup (h : a.Kept) (now : Int) : (a.timersSetup x now).Kept := by
  obtain ⟨hcounters,hlast,hseqn⟩ := timersSetup_frame x.urr x.r now a.acc
  refine ⟨?_,h.seqn,hseqn.trans h.next⟩
  unfold Account.timersSetup
  rw [hcounters,hlast]
  exact h.tallied

theorem Kept.count (h : a.Kept) (p : Packet) (now : Int) :
    Kept { a with acc := a.acc.count p now,packets := a.packets++[p] } :=
  ⟨h.tallied.entry p,h.seqn,h.next⟩

theorem measured_volMeasurement {report : UsageReport} {d : Counters}
    (h : report.volMeasurement=Upf.volMeasurement d) : measured report=d := by
  funext k
  unfold measured
  rw [h]
  cases k <;> rfl

theorem Kept.report (h : a.Kept) (x : UrrRef) (mark : UsageReport → UsageReport)
    (hvol : ∀ r,(mark r).volMeasurement=r.volMeasurement) (hseqn : ∀ r,(mark r).seqn=r.seqn)
    (fillNow snapshotNow : Int) : (a.report x mark fillNow snapshotNow).Kept := by
  have hmeasured : measured (mark (a.acc.fillUsageReport x.urr x.id fillNow).2) =
      a.acc.counters-a.acc.lastReport :=
    measured_volMeasurement (hvol _)
  refine ⟨?_,?_,?_⟩
  · have hreport:=h.tallied.report
    rw [← hmeasured] at hreport
    unfold Account.report
    rw [map_append]
    exact hreport
  · unfold Account.report
    rw [map_append,length_append,length_singleton,range_succ,
      map_append,h.seqn,map_singleton,map_singleton,hseqn]
    exact congrArg (_++[·]) h.next
  · unfold Account.report
    rw [length_append,length_singleton]
    show a.acc.reportSeqn+1=_
    rw [h.next,BitVec.ofNat_add]
    rfl

theorem Kept.step (h : a.Kept) {e : AccountEvent} {o : Outcome Account Unit}
    (ho : a.step e=some o) : o.Leaves Kept Kept := by
  cases e with
  | packet x p now sent =>
    cases ho
    have hcount:=h.count p (now 0)
    have hreport:=hcount.report x id (fun _ => rfl) (fun _ => rfl) (now 1) (now 2)
    unfold sessUrrAccAdd
    simp only
    split
    · split
      · exact hreport.timersSetup (now 3)
      · exact hreport
    · exact hcount
  | timer x now sent =>
    cases ho
    have hreport:=h.report x id (fun _ => rfl) (fun _ => rfl) (now 0) (now 1)
    unfold sessUrrAccTimersCb
    simp only
    split
    · split
      · exact hreport.timersSetup (now 2)
      · exact hreport
    · exact h.timersSetup (now 2)
  | deletion x now =>
    cases ho
    exact h.report x (fun r => { r with repTrigger := r.repTrigger.setTerminationReport true })
      (fun _ => rfl) (fun _ => rfl) (now 0) (now 1)

theorem sum_octets (l : List Packet) :
    (l.map Packet.counts).sum .totalOctets =
        (l.map Packet.counts).sum .ulOctets+(l.map Packet.counts).sum .dlOctets ∧
      (l.map Packet.counts).sum .totalPkts =
        (l.map Packet.counts).sum .ulPkts+(l.map Packet.counts).sum .dlPkts := by
  induction l with
  | nil => exact ⟨rfl,rfl⟩
  | cons p l ih =>
    rw [map_cons,sum_cons]
    simp only [Pi.add_apply,ih.1,ih.2]
    cases hp : p.isUplink with
    | true => simp [Packet.counts,hp,add_assoc]
    | false => simp [Packet.counts,hp,add_left_comm]

/-- The packets are conserved: what the reports measured and what is left are the packets. -/
structure Conserved (a : Account) : Prop where
  sum : (a.reports.map measured).sum+a.unreported=(a.packets.map Packet.counts).sum
  integers : ∀ k,(a.packets.map fun p => (p.counts k).toNat).sum<2^64 →
    (a.reports.map fun r => (measured r k).toNat).sum+(a.unreported k).toNat =
      (a.packets.map fun p => (p.counts k).toNat).sum
  octets : ∀ r∈a.reports,measured r .totalOctets=measured r .ulOctets+measured r .dlOctets
  pkts : ∀ r∈a.reports,measured r .totalPkts=measured r .ulPkts+measured r .dlPkts
  seqn : a.reports.map (·.seqn)=(List.range a.reports.length).map (BitVec.ofNat 32)
  once : ∃ (segments : List (List Packet)) (rest : List Packet),
    a.packets=segments.flatten++rest ∧
      a.reports.map measured=segments.map fun l : List Packet => (l.map Packet.counts).sum

theorem Kept.conserved (h : a.Kept) : a.Conserved := by
  have hsegments:=h.tallied
  obtain ⟨segments,rest,hpackets,hreports,-,-⟩ := hsegments
  have hsegment : ∀ r∈a.reports,∃ l : List Packet, measured r=(l.map Packet.counts).sum := by
    intro r hr
    have hmem : measured r∈a.reports.map measured := List.mem_map.mpr ⟨r,hr,rfl⟩
    rw [hreports] at hmem
    obtain ⟨l,-,hl⟩ := List.mem_map.mp hmem
    exact ⟨l,hl.symm⟩
  refine ⟨h.tallied.sum_reports,?_,?_,?_,h.seqn,segments,rest,hpackets,hreports⟩
  · intro k hk
    have hcounter:=h.tallied.map (Pi.evalAddMonoidHom (fun _ => BitVec 64) k)
    have hval:=hcounter.val_reports BitVec.toNat (2^64) rfl ?_ hk
    · rw [List.map_map,List.map_map] at hval
      exact hval
    · intro b c hbc
      rw [BitVec.toNat_add,Nat.mod_eq_of_lt hbc]
  · intro r hr
    obtain ⟨l,hl⟩ := hsegment r hr
    rw [hl]
    exact (sum_octets l).1
  · intro r hr
    obtain ⟨l,hl⟩ := hsegment r hr
    rw [hl]
    exact (sum_octets l).2

def counterFilled : List AccountEvent :=
  [.packet ⟨.zero,1,0⟩ ⟨2^63,true⟩ (fun _ => 0) true,
    .packet ⟨.zero,1,0⟩ ⟨2^63,true⟩ (fun _ => 0) true,.deletion ⟨.zero,1,0⟩ fun _ => 0]

end Account

end OgsDp.Upf
