import OgsDp.Core.TlvRows
import OgsDp.Pfcp.VolumeMeasurement

/-!
# Messages with usage reports (lib/pfcp/build.c)

The volume measurements of a message are all built into one static buffer, `usage_report_buf`, and
the TLV builder reads the buffer when the loop over the reports is over.
-/

/-! ### The descriptors of the messages that carry usage reports (lib/pfcp/message.c) -/

namespace OgsDp.Pfcp
open OgsDp.Core

def tlvDescReportType : TlvDesc := leaf .uint8 39 1 0
def tlvDescPdrId : TlvDesc := leaf .uint16 56 2 0
def tlvDescDownlinkDataServiceInformation : TlvDesc := leaf .varStr 45 0 0
def tlvDescDlDataPacketsSize : TlvDesc := leaf .varStr 250 0 0
def tlvDescDataStatus : TlvDesc := leaf .uint8 260 1 0
def tlvDescDownlinkDataReport : TlvDesc := compound 83
  [tlvDescPdrId,tlvDescDownlinkDataServiceInformation,tlvDescDlDataPacketsSize,tlvDescDataStatus]
def tlvDescUrrId : TlvDesc := leaf .uint32 81 4 0
def tlvDescUrSeqn : TlvDesc := leaf .uint32 104 4 0
def tlvDescUsageReportTrigger : TlvDesc := leaf .uint24 63 3 0
def tlvDescStartTime : TlvDesc := leaf .uint32 75 4 0
def tlvDescEndTime : TlvDesc := leaf .uint32 76 4 0
def tlvDescVolumeMeasurement : TlvDesc := leaf .varStr 66 0 0
def tlvDescDurationMeasurement : TlvDesc := leaf .uint32 67 4 0
def tlvDescApplicationId : TlvDesc := leaf .varStr 24 0 0
def tlvDescApplicationInstanceId : TlvDesc := leaf .varStr 91 0 0
def tlvDescFlowInformation : TlvDesc := leaf .varStr 92 0 0
def tlvDescApplicationDetectionInformation : TlvDesc := compound 68
  [tlvDescApplicationId,tlvDescApplicationInstanceId,tlvDescFlowInformation,tlvDescPdrId]
def tlvDescUeIpAddress : TlvDesc := leaf .varStr 93 0 0
def tlvDescNetworkInstance : TlvDesc := leaf .varStr 22 0 0
def tlvDescTimeOfFirstPacket : TlvDesc := leaf .uint32 69 4 0
def tlvDescTimeOfLastPacket : TlvDesc := leaf .uint32 70 4 0
def tlvDescUsageInformation : TlvDesc := leaf .varStr 90 0 0
def tlvDescQueryUrrReference : TlvDesc := leaf .varStr 125 0 0
def tlvDescTimeStamp : TlvDesc := leaf .varStr 156 0 0
def tlvDescMacAddressesDetected : TlvDesc := leaf .varStr 144 0 0
def tlvDescMacAddressesRemoved : TlvDesc := leaf .varStr 145 0 0
def tlvDescEthernetTrafficInformation : TlvDesc := compound 143
  [tlvDescMacAddressesDetected,tlvDescMacAddressesRemoved]
def tlvDescIpMulticastAddress : TlvDesc := leaf .varStr 191 0 0
def tlvDescSourceIpAddress : TlvDesc := leaf .varStr 192 0 0
def tlvDescJoinIpMulticastInformationIeWithinUsageReport : TlvDesc := compound 189
  [tlvDescIpMulticastAddress,tlvDescSourceIpAddress]
def tlvDescLeaveIpMulticastInformationIeWithinUsageReport : TlvDesc := compound 190
  [tlvDescIpMulticastAddress,tlvDescSourceIpAddress]
def tlvDescPredefinedRulesName : TlvDesc := leaf .varStr 299 0 0
def tlvDescUsageReportSessionReportRequest : TlvDesc := compound 80
  [tlvDescUrrId,tlvDescUrSeqn,tlvDescUsageReportTrigger,tlvDescStartTime,tlvDescEndTime,
   tlvDescVolumeMeasurement,tlvDescDurationMeasurement,tlvDescApplicationDetectionInformation,
   tlvDescUeIpAddress,tlvDescNetworkInstance,tlvDescTimeOfFirstPacket,tlvDescTimeOfLastPacket,
   tlvDescUsageInformation,tlvDescQueryUrrReference,tlvDescTimeStamp,
   tlvDescEthernetTrafficInformation,tlvDescJoinIpMulticastInformationIeWithinUsageReport,
   tlvDescLeaveIpMulticastInformationIeWithinUsageReport,tlvDescPredefinedRulesName]
def tlvDescFTeid : TlvDesc := leaf .varStr 21 0 0
def tlvDescErrorIndicationReport : TlvDesc := compound 99 [tlvDescFTeid]
def tlvDescSequenceNumber : TlvDesc := leaf .varStr 52 0 0
def tlvDescMetric : TlvDesc := leaf .varStr 53 0 0
def tlvDescLoadControlInformation : TlvDesc := compound 51 [tlvDescSequenceNumber,tlvDescMetric]
def tlvDescTimer : TlvDesc := leaf .varStr 55 0 0
def tlvDescOciFlags : TlvDesc := leaf .varStr 110 0 0
def tlvDescOverloadControlInformation : TlvDesc := compound 54
  [tlvDescSequenceNumber,tlvDescMetric,tlvDescTimer,tlvDescOciFlags]
def tlvDescAdditionalUsageReportsInformation : TlvDesc := leaf .varStr 126 0 0
def tlvDescPfcpsrreqFlags : TlvDesc := leaf .uint8 161 1 0
def tlvDescFSeid : TlvDesc := leaf .varStr 57 0 0
def tlvDescQerId : TlvDesc := leaf .uint32 109 4 0
def tlvDescPacketRateStatus : TlvDesc := leaf .varStr 193 0 0
def tlvDescPacketRateStatusReport : TlvDesc := compound 252 [tlvDescQerId,tlvDescPacketRateStatus]
def tlvDescPortManagementInformationContainer : TlvDesc := leaf .varStr 202 0 0
def tlvDescBridgeManagementInformationContainer : TlvDesc := leaf .varStr 266 0 0
def tlvDescNwTtPortNumber : TlvDesc := leaf .varStr 197 0 0
def tlvDescTscManagementInformationIeWithinPfcpSessionModificationRequest : TlvDesc := compound 199
  [tlvDescPortManagementInformationContainer,tlvDescBridgeManagementInformationContainer,
   tlvDescNwTtPortNumber]
def tlvDescSrrId : TlvDesc := leaf .varStr 215 0 0
def tlvDescAccessAvailabilityInformation : TlvDesc := leaf .varStr 219 0 0
def tlvDescAccessAvailabilityReport : TlvDesc := compound 218 [tlvDescAccessAvailabilityInformation]
def tlvDescQfi : TlvDesc := leaf .uint8 124 1 0
def tlvDescQosMonitoringMeasurement : TlvDesc := leaf .varStr 248 0 0
def tlvDescQosMonitoringReport : TlvDesc := compound 247
  [tlvDescQfi,tlvDescQosMonitoringMeasurement,tlvDescTimeStamp,tlvDescStartTime]
def tlvDescSessionReport : TlvDesc := compound 214
  [tlvDescSrrId,tlvDescAccessAvailabilityReport,tlvDescQosMonitoringReport]
def tlvDescCause : TlvDesc := leaf .uint8 19 1 0

def msgDescPfcpSessionReportRequest : TlvDesc := message
  [tlvDescReportType,tlvDescDownlinkDataReport,tlvDescUsageReportSessionReportRequest,more 8,
   tlvDescErrorIndicationReport,tlvDescLoadControlInformation,tlvDescOverloadControlInformation,
   tlvDescAdditionalUsageReportsInformation,tlvDescPfcpsrreqFlags,tlvDescFSeid,
   tlvDescPacketRateStatusReport,
   tlvDescTscManagementInformationIeWithinPfcpSessionModificationRequest,tlvDescSessionReport,
   tlvDescCause]
def tlvDescOffendingIe : TlvDesc := leaf .uint16 40 2 0
def tlvDescUsageReportSessionDeletionResponse : TlvDesc := compound 79
  [tlvDescUrrId,tlvDescUrSeqn,tlvDescUsageReportTrigger,tlvDescStartTime,tlvDescEndTime,
   tlvDescVolumeMeasurement,tlvDescDurationMeasurement,tlvDescTimeOfFirstPacket,
   tlvDescTimeOfLastPacket,tlvDescUsageInformation,tlvDescEthernetTrafficInformation]
def tlvDescMbsSessionIdentifier : TlvDesc := leaf .varStr 305 0 0
def tlvDescAreaSessionId : TlvDesc := leaf .varStr 314 0 0
def tlvDescMbsn4respFlags : TlvDesc := leaf .varStr 312 0 0
def tlvDescMbsSessionN4Information : TlvDesc := compound 311
  [tlvDescMbsSessionIdentifier,tlvDescAreaSessionId,tlvDescFTeid,tlvDescMbsn4respFlags]
def tlvDescPfcpsdrspFlags : TlvDesc := leaf .varStr 318 0 0

def msgDescPfcpSessionDeletionResponse : TlvDesc := message
  [tlvDescCause,tlvDescOffendingIe,tlvDescLoadControlInformation,
   tlvDescOverloadControlInformation,tlvDescUsageReportSessionDeletionResponse,more 8,
   tlvDescAdditionalUsageReportsInformation,tlvDescPacketRateStatusReport,tlvDescSessionReport,
   tlvDescMbsSessionN4Information,tlvDescPfcpsdrspFlags]

end OgsDp.Pfcp

namespace OgsDp.Pfcp
open OgsDp.Core

/-- `ogs_pfcp_user_plane_report_t`; `remote_f_teid` is its `remote_f_teid_len` octets. -/
structure UserPlaneReport where
  type : Byte
  pdrId : Byte
  pagingPolicyIndicationValue : Byte
  qfi : Byte
  usageReport : List UsageReport
  remoteFTeid : { octets : List Byte // octets.length≤25 }

namespace UserPlaneReport

variable (report : UserPlaneReport)

def downlinkDataReport : Bool := report.type.val.testBit 0
def hasUsageReport : Bool := report.type.val.testBit 1

def reported : List UsageReport := if report.hasUsageReport then report.usageReport else []

/-- The usage reports are there if they are said to be, and the message has room for them. -/
structure Encodable : Prop where
  ne_nil : report.hasUsageReport → report.usageReport≠[]
  le : report.reported.length≤8

end UserPlaneReport

def UsageReportTrigger.u24 (t : UsageReportTrigger) : BitVec 32 :=
  BitVec.ofNat 32 (t.reptri5.val <<< 16 ||| t.reptri6.val <<< 8 ||| t.reptri7.val)

def parseUsageReportTrigger (u24 : BitVec 32) : UsageReportTrigger where
  reptri5 := Fin.ofNat 256 (u24.toNat >>> 16)
  reptri6 := Fin.ofNat 256 (u24.toNat >>> 8)
  reptri7 := Fin.ofNat 256 u24.toNat

section Build

variable {n : Nat}

def nonzeroRow (x : BitVec 32) : List (Slot (Msg n)) := if x=0 then [] else [intSlot x]

def octetsRow (octets : Option (List Byte)) : List (Slot (Msg n)) := octets.toList.map strSlot

end Build

def usageReportBuf (rs : List UsageReport) (buf : List Byte) : List Byte :=
  rs.foldl (fun buf r =>
    if r.volMeasurement.flags=0 then buf
    else buildVolumeMeasurement r.volMeasurement ++
      buf.drop (buildVolumeMeasurement r.volMeasurement).length) buf

def volumeOctet (buf : List Byte) (r : UsageReport) : Option (List Byte) :=
  if r.volMeasurement.flags=0 then none
  else some (buf.take (buildVolumeMeasurement r.volMeasurement).length)

def reportRequestSlot (buf : List Byte) (r : UsageReport) : Slot (Msg 8) :=
  rowsSlot [[intSlot r.id],[intSlot r.seqn],[intSlot r.repTrigger.u24],nonzeroRow r.startTime,
    nonzeroRow r.endTime,octetsRow (volumeOctet buf r),nonzeroRow r.durMeasurement,[],[],[],
    nonzeroRow r.timeOfFirstPacket,nonzeroRow r.timeOfLastPacket,[],[],[],[],[],[],[]]

def deletionResponseSlot (buf : List Byte) (r : UsageReport) : Slot (Msg 8) :=
  rowsSlot [[intSlot r.id],[intSlot r.seqn],[intSlot r.repTrigger.u24],nonzeroRow r.startTime,
    nonzeroRow r.endTime,octetsRow (volumeOctet buf r),[intSlot r.durMeasurement],
    nonzeroRow r.timeOfFirstPacket,nonzeroRow r.timeOfLastPacket,[],[]]

-- `ogs_pfcp_downlink_data_service_information_t`, where `qfi` and
-- `paging_policy_indication_value` are in a union.
def downlinkDataServiceInformation (report : UserPlaneReport) : Option (List Byte) :=
  if report.qfi≠0 ∧ report.pagingPolicyIndicationValue≠0 then
    some [3,report.pagingPolicyIndicationValue,0]
  else if report.qfi≠0 then some [2,report.qfi]
  else if report.pagingPolicyIndicationValue≠0 then some [1,report.pagingPolicyIndicationValue]
  else none

def downlinkDataRow (report : UserPlaneReport) : List (Slot (Msg 8)) :=
  if report.downlinkDataReport then
    [rowsSlot [[intSlot (BitVec.ofNat 32 report.pdrId.val)],
      octetsRow (downlinkDataServiceInformation report),[],[]]]
  else []

def errorIndicationRow (report : UserPlaneReport) : List (Slot (Msg 8)) :=
  if report.remoteFTeid.val=[] then [] else [rowsSlot [[strSlot report.remoteFTeid.val]]]

def reportRequestRows (report : UserPlaneReport) (buf : List Byte) : List (List (Slot (Msg 8))) :=
  [[intSlot (BitVec.ofNat 32 report.type.val)],downlinkDataRow report,
    report.reported.map (reportRequestSlot (usageReportBuf report.reported buf)),[],
    errorIndicationRow report,[],[],[],[],[],[],[],[],[]]

def deletionResponseRows (cause : Byte) (report : UserPlaneReport) (buf : List Byte) :
    List (List (Slot (Msg 8))) :=
  [[intSlot (BitVec.ofNat 32 cause.val)],[],[],[],
    report.reported.map (deletionResponseSlot (usageReportBuf report.reported buf)),[],[],[],[],
    [],[]]

def clusterBigSize : Nat := 1024*1024
def tlvPool : Nat := 512

def buildReports (desc : TlvDesc) (rows : List (List (Slot (Msg 8)))) (report : UserPlaneReport) :
    Except Stop (List Byte) :=
  if report.hasUsageReport ∧ report.usageReport=[] then .error .abort
  else if 8 < report.reported.length then .error .wild
  else ogsTlvBuildMsg desc (ofRows rows) .t2L2 clusterBigSize tlvPool

/-- `ogs_pfcp_build_session_report_request`; `buf` is what `usage_report_buf` holds before. -/
def buildSessionReportRequest (report : UserPlaneReport) (buf : List Byte) :
    Except Stop (List Byte) :=
  buildReports msgDescPfcpSessionReportRequest (reportRequestRows report buf) report

def buildSessionDeletionResponse (cause : Byte) (report : UserPlaneReport) (buf : List Byte) :
    Except Stop (List Byte) :=
  buildReports msgDescPfcpSessionDeletionResponse (deletionResponseRows cause report buf) report

def readVolume : Option (List Byte) → Except Stop VolumeMeasurement
  | none => .ok .zero
  | some octet => parseVolumeMeasurement octet

def readUsageReport (first last : Nat) (w : Msg 8) : Except Stop UsageReport := do
  let volume ← readVolume (w 5 0).octets
  return {
    id := (w 0 0).number
    seqn := (w 1 0).number
    repTrigger := parseUsageReportTrigger (w 2 0).number
    startTime := (w 3 0).number
    endTime := (w 4 0).number
    volMeasurement := volume
    durMeasurement := (w 6 0).number
    timeOfFirstPacket := (w first 0).number
    timeOfLastPacket := (w last 0).number }

def readUsageReports (read : Msg 8 → Except Stop UsageReport) (slots : Nat → Slot (Msg 8)) :
    Nat → Nat → Except Stop (List UsageReport)
  | 0, _ => .ok []
  | k+1, j =>
    if (slots j).presence then do
      let r ← read (slots j).sub
      let rs ← readUsageReports read slots k (j+1)
      return r::rs
    else .ok []

def parseSessionReportRequest (bytes : List Byte) : Except Stop (List UsageReport) := do
  let m ← ogsTlvParseMsg (blankMsg 9) msgDescPfcpSessionReportRequest bytes .t2L2 tlvPool
  readUsageReports (readUsageReport 10 11) (m 2) 8 0

def parseSessionDeletionResponse (bytes : List Byte) : Except Stop (List UsageReport) := do
  let m ← ogsTlvParseMsg (blankMsg 9) msgDescPfcpSessionDeletionResponse bytes .t2L2 tlvPool
  readUsageReports (readUsageReport 7 8) (m 4) 8 0

def UsageReport.sent (r : UsageReport) : UsageReport :=
  { r with volMeasurement := r.volMeasurement.sent }

def Yields (build : Except Stop (List Byte)) (parse : List Byte → Except Stop (List UsageReport))
    (report : UserPlaneReport) : Prop :=
  build.bind parse = .ok (report.reported.map UsageReport.sent)

/-- All the reports that measure a volume have the same measurement. -/
def OneVolume (rs : List UsageReport) : Prop :=
  ∀ r∈rs,∀ r'∈rs,r.volMeasurement.flags≠0 → r'.volMeasurement.flags≠0 →
    r.volMeasurement.sent=r'.volMeasurement.sent

end OgsDp.Pfcp
