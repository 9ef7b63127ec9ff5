import OgsDp.Lib.Checked
import OgsDp.Pfcp.Types

/-!
# PCC rules from the PCF (src/smf/npcf-handler.c)

The policy of a session is the array of its PCC rules up to their number; what is behind is zero,
since a rule is freed before its slot is used again.
-/

namespace OgsDp.Smf
open Lib OgsDp.Core Pfcp

structure Qos where
  index : Byte
  priorityLevel : Byte
  preEmptionCapability : Byte
  preEmptionVulnerability : Byte
  mbr : Bitrate
  gbr : Bitrate
  deriving DecidableEq

def Qos.zero : Qos := ⟨0,0,0,0,.zero,.zero⟩

def flowDownlinkOnly : Byte := 1
def flowUplinkOnly : Byte := 2
def flowBidirectional : Byte := 3

def preEmptionDisabled : Byte := 1
def preEmptionEnabled : Byte := 2

structure Flow where
  direction : Byte
  description : CStr
  deriving DecidableEq

inductive PccRuleType where
  | install
  | remove
  deriving DecidableEq

structure PccRule where
  type : PccRuleType
  id : CStr
  flow : List Flow
  precedence : BitVec 32
  qos : Qos
  deriving DecidableEq

def maxNumOfPccRule : Nat := 8
def maxNumOfFlowInPccRule : Nat := 15
def maxBitRate : BitVec 64 := 10000000000

inductive FlowDirection where
  | null
  | downlink
  | uplink
  | bidirectional
  | unspecified
  deriving DecidableEq

inductive PreemptionCapability where
  | null
  | notPreempt
  | mayPreempt
  deriving DecidableEq

inductive PreemptionVulnerability where
  | null
  | notPreemptable
  | preemptable
  deriving DecidableEq

structure FlowInformation where
  flowDirection : FlowDirection
  flowDescription : Option CStr

structure Arp where
  priorityLevel : BitVec 32
  preemptCap : PreemptionCapability
  preemptVuln : PreemptionVulnerability

structure QosData where
  qosId : Option CStr
  fiveQi : BitVec 32
  priorityLevel : BitVec 32
  arp : Option Arp
  maxbrUl : Option CStr
  maxbrDl : Option CStr
  gbrUl : Option CStr
  gbrDl : Option CStr

structure PccRuleData where
  pccRuleId : Option CStr
  precedence : BitVec 32
  flowInfos : Option (List (Option FlowInformation))
  refQosData : Option (List (Option CStr))

structure MapEntry (α : Type) where
  key : Option CStr
  value : Option α

structure SmPolicyDecision where
  pccRules : Option (List (Option (MapEntry PccRuleData)))
  qosDecs : Option (List (Option (MapEntry QosData)))

def qosDataFind (qosDecs : Option (List (Option (MapEntry QosData)))) (id : CStr) :
    Option QosData :=
  (qosDecs.getD []).findSome? fun entry =>
    (entry.bind MapEntry.value).filter fun d => d.qosId=some id

def flowDirectionOf : FlowDirection → Option Byte
  | .uplink => some flowUplinkOnly
  | .downlink => some flowDownlinkOnly
  | .bidirectional => some flowBidirectional
  | _ => none

def addFlow (flows : List Flow) (info : Option FlowInformation) : Except Fault (List Flow) :=
  match info with
  | none => .ok flows
  | some info =>
    match flowDirectionOf info.flowDirection with
    | none => .ok flows
    | some direction =>
      if flows.length < maxNumOfFlowInPccRule then
        match info.flowDescription with
        | none => .error .assertion
        | some description => .ok (flows++[⟨direction,description⟩])
      else .error .write

def lowOctet (x : BitVec 32) : Byte := Fin.ofNat 256 x.toNat

def capabilityOf (old : Byte) : PreemptionCapability → Byte
  | .notPreempt => preEmptionDisabled
  | .mayPreempt => preEmptionEnabled
  | .null => old

def vulnerabilityOf (old : Byte) : PreemptionVulnerability → Byte
  | .notPreemptable => preEmptionDisabled
  | .preemptable => preEmptionEnabled
  | .null => old

def putArp (d : QosData) (q : Qos) : Except Fault Qos :=
  let q:={ q with priorityLevel := lowOctet d.priorityLevel }
  match d.arp with
  | none => .ok q
  | some arp =>
    let q:={ q with
      priorityLevel := lowOctet arp.priorityLevel
      preEmptionCapability := capabilityOf q.preEmptionCapability arp.preemptCap }
    if q.preEmptionCapability≠0 then
      let q:={ q with
        preEmptionVulnerability := vulnerabilityOf q.preEmptionVulnerability arp.preemptVuln }
      if q.preEmptionVulnerability≠0 then .ok q else .error .assertion
    else .error .assertion

def orMaxBitRate (r : BitVec 64) : BitVec 64 := if r=0 then maxBitRate else r

def fillRates (q : Qos) : Qos :=
  if q.mbr.downlink≠0 ∨ q.mbr.uplink≠0 ∨ q.gbr.downlink≠0 ∨ q.gbr.uplink≠0 then
    { q with
      mbr := ⟨orMaxBitRate q.mbr.uplink,orMaxBitRate q.mbr.downlink⟩
      gbr := ⟨orMaxBitRate q.gbr.uplink,orMaxBitRate q.gbr.downlink⟩ }
  else q

section Import

variable (bitrateFromString : CStr → BitVec 64)

def putRates (d : QosData) (q : Qos) : Qos :=
  fillRates { q with
    mbr := ⟨d.maxbrUl.elim q.mbr.uplink bitrateFromString,
      d.maxbrDl.elim q.mbr.downlink bitrateFromString⟩
    gbr := ⟨d.gbrUl.elim q.gbr.uplink bitrateFromString,
      d.gbrDl.elim q.gbr.downlink bitrateFromString⟩ }

def installRule (rule : PccRuleData) (d : QosData) : Except Fault PccRule :=
  match rule.pccRuleId with
  | none => .error .assertion
  | some id => do
    let flows ← (rule.flowInfos.getD []).foldlM addFlow []
    let q ← putArp d { Qos.zero with index := lowOctet d.fiveQi }
    .ok ⟨.install,id,flows,rule.precedence,putRates bitrateFromString d q⟩

def removeRule (id : CStr) : PccRule := ⟨.remove,id,[],0,.zero⟩

/-- `QosData`, which is kept from one rule to the next, and the policy. -/
structure ImportState where
  qosData : Option QosData
  policy : List PccRule

-- The slot at `num_of_pcc_rule` is written and counted.
def store (s : ImportState) (rule : Except Fault PccRule) : Except Fault ImportState :=
  if s.policy.length < maxNumOfPccRule then do
    let rule ← rule
    .ok { s with policy := s.policy++[rule] }
  else .error .write

def importRule (qosDecs : Option (List (Option (MapEntry QosData)))) (s : ImportState)
    (entry : Option (MapEntry PccRuleData)) : Except Fault ImportState :=
  match entry with
  | none => .ok s
  | some entry =>
    match entry.key with
    | none => .ok s
    | some key =>
      match entry.value with
      | none => store s (.ok (removeRule key))
      | some rule =>
        match (rule.refQosData.bind List.head?).join with
        | none => .ok s
        | some qosId =>
          let s:={ s with qosData := (qosDataFind qosDecs qosId).or s.qosData }
          match s.qosData with
          | none => .ok s
          | some d => store s (installRule bitrateFromString rule d)

def updateAuthorizedPccRuleAndQos (policy : List PccRule) (decision : SmPolicyDecision) :
    Except Fault (List PccRule) :=
  match decision.pccRules with
  | none => .ok policy
  | some entries => do
    let s ← entries.foldlM (importRule bitrateFromString decision.qosDecs) ⟨none,[]⟩
    .ok s.policy

end Import

end OgsDp.Smf
