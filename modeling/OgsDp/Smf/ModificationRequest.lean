import OgsDp.Pfcp.FlowDescription
import OgsDp.Smf.Bearer

/-!
# PDU Session Modification Request (src/smf/gsm-handler.c)

The QoS rules and QoS flow descriptions are the ones that the decoder leaves: their codes, packet
filter components and parameters are those it knows.
-/

namespace OgsDp.Smf
open Lib OgsDp.Core Pfcp Function

inductive PfComponent where
  | proto (proto : Byte)
  | ipv4RemoteAddress (addr mask : BitVec 32)
  | ipv4LocalAddress (addr mask : BitVec 32)
  | ipv6RemoteAddress (addr mask : Vector (BitVec 32) 4)
  | ipv6RemoteAddressPrefixLength (addr : Vector (BitVec 32) 4) (prefixlen : Byte)
  | ipv6LocalAddress (addr mask : Vector (BitVec 32) 4)
  | ipv6LocalAddressPrefixLength (addr : Vector (BitVec 32) 4) (prefixlen : Byte)
  | singleLocalPort (low : BitVec 16)
  | singleRemotePort (low : BitVec 16)
  | localPortRange (low high : BitVec 16)
  | remotePortRange (low high : BitVec 16)
  deriving DecidableEq

structure NasPf where
  direction : PfDirection
  identifier : Nat
  component : List PfComponent
  deriving DecidableEq

def NasPf.zero : NasPf := ⟨.unspecified,0,[]⟩

inductive QosCode where
  | createNewQosRule
  | deleteExistingQosRule
  | addPacketFilters
  | replaceAllPacketFilters
  | deletePacketFilters
  | withoutModifyingPacketFilters
  deriving DecidableEq

structure QosRule where
  identifier : Nat
  code : QosCode
  filters : List NasPf
  bounded : filters.length ≤ maxNumOfFlowInBearer

def QosRule.pf (r : QosRule) (i : Nat) : NasPf := r.filters.getD i .zero

structure NasBitrate where
  unit : Nat
  value : BitVec 16

inductive QosFlowParam where
  | fiveQi
  | gfbrUplink (br : NasBitrate)
  | gfbrDownlink (br : NasBitrate)
  | mfbrUplink (br : NasBitrate)
  | mfbrDownlink (br : NasBitrate)

/-- `ogs_nas_qos_flow_description_t`; the decoder reads the first eight parameters. -/
structure QosFlowDescription where
  identifier : Nat
  numOfParameter : Nat
  param : List QosFlowParam
  read : param.length=min numOfParameter 8

structure ModificationRequest where
  qosRules : Option (List QosRule)
  qosFlowDescriptions : Option (List QosFlowDescription)

/-- `ogs_nas_bitrate_to_uint64`; the products are of type `int`. -/
def NasBitrate.toUint64 (br : NasBitrate) : Option (BitVec 64) :=
  if 1≤br.unit ∧ br.unit≤25 then
    let factor:=4^((br.unit-1) % 5)*1000^((br.unit-1) / 5+1)
    some ((br.value.setWidth 32*BitVec.ofNat 32 factor).signExtend 64)
  else none

def PfComponent.write (rule : IpfwRule) : PfComponent → Option IpfwRule
  | .proto n => some { rule with proto := n }
  | .ipv4RemoteAddress addr mask =>
    some { rule with dst := { rule.dst with
      ipv4 := 1
      addr := rule.dst.addr.setIfInBounds 0 addr
      mask := rule.dst.mask.setIfInBounds 0 mask } }
  | .ipv4LocalAddress addr mask =>
    some { rule with src := { rule.src with
      ipv4 := 1
      addr := rule.src.addr.setIfInBounds 0 addr
      mask := rule.src.mask.setIfInBounds 0 mask } }
  | .ipv6RemoteAddress addr mask =>
    some { rule with dst := { rule.dst with ipv6 := 1,addr := addr,mask := mask } }
  | .ipv6RemoteAddressPrefixLength addr prefixlen =>
    (n2mask prefixlen.val).map fun mask =>
      { rule with dst := { rule.dst with ipv6 := 1,addr := addr,mask := mask } }
  | .ipv6LocalAddress addr mask =>
    some { rule with src := { rule.src with ipv6 := 1,addr := addr,mask := mask } }
  | .ipv6LocalAddressPrefixLength addr prefixlen =>
    (n2mask prefixlen.val).map fun mask =>
      { rule with src := { rule.src with ipv6 := 1,addr := addr,mask := mask } }
  | .singleLocalPort low => some { rule with src := { rule.src with low := low,high := low } }
  | .singleRemotePort low => some { rule with dst := { rule.dst with low := low,high := low } }
  | .localPortRange low high =>
    some { rule with src := { rule.src with low := low,high := high } }
  | .remotePortRange low high =>
    some { rule with dst := { rule.dst with low := low,high := high } }

/-- The rule that `reconfigure_packet_filter` makes; local is its source. -/
def NasPf.ipfwRule (p : NasPf) : Option IpfwRule := p.component.foldlM PfComponent.write .zero

structure QosRates where
  mbrUplink : BitVec 64
  mbrDownlink : BitVec 64
  gbrUplink : BitVec 64
  gbrDownlink : BitVec 64
  deriving DecidableEq

/-- `qos_flow_to_modify_list` belongs to a session, the QER and the lists of packet filters to a
QoS flow. -/
structure QosFlows where
  bearers : Bearers
  ipfwRule : Nat → IpfwRule
  qos : Nat → QosRates
  toModify : Nat → List Nat
  pfToAdd : Nat → List Nat
  pfToDelete : Nat → List Nat
  qer : Nat → Option QosRates
  qerFree : Nat
  qerIdFree : Nat → Nat

structure ModifyFlags where
  remove : Bool
  tftNew : Bool
  tftAdd : Bool
  tftReplace : Bool
  tftDelete : Bool
  qosModify : Bool
  deriving DecidableEq

namespace ModifyFlags

def zero : ModifyFlags := ⟨false,false,false,false,false,false⟩

def tft (flags : ModifyFlags) : Bool :=
  flags.tftNew || flags.tftAdd || flags.tftReplace || flags.tftDelete

def install (code : QosCode) (flags : ModifyFlags) : ModifyFlags :=
  match code with
  | .createNewQosRule => { flags with tftNew := true }
  | .addPacketFilters => { flags with tftAdd := true }
  | .replaceAllPacketFilters => { flags with tftReplace := true }
  | _ => flags

end ModifyFlags

namespace QosFlows

def withBearers {ρ : Type} (c : QosFlows) (o : Outcome Bearers ρ) : Outcome QosFlows ρ :=
  o.mapState fun bearers => { c with bearers := bearers }

def findByQfi (c : QosFlows) (s qfi : Nat) : Option Nat :=
  (c.bearers.bearerList s).find? fun b => (c.bearers.bearer b).qfi == qfi

def queue (c : QosFlows) (s b : Nat) : QosFlows :=
  if (c.toModify s).any fun b' => (c.bearers.bearer b').qfi == (c.bearers.bearer b).qfi then c
  else { c with toModify := update c.toModify s (c.toModify s++[b]) }

def pfFindByIdentifier (c : QosFlows) (b identifier : Nat) : Option Nat :=
  (c.bearers.pfList b).find? fun f => (c.bearers.pf f).identifier == identifier

/-- One turn of the loop over packet filters; all turns read the entry `i`, the index of the
rule. -/
def installPacketFilter (c : QosFlows) (s b : Nat) (p : NasPf) : Outcome QosFlows Nat :=
  (c.withBearers (c.bearers.smfPfAdd b)).bind fun c f =>
    match f with
    | none => .abort c
    | some f =>
      match p.ipfwRule with
      | none => .abort c
      | some rule =>
        if p.component=[] then .abort c
        else
          let rule := if p.direction = .downlinkOnly then rule.swap else rule
          -- a new packet filter has no text that would be freed
          let text:=encodeFlowDescription
            (if p.direction = .uplinkOnly then rule.swap else rule)
          match text with
          | none => .abort c
          | some text =>
            let (texts,k) := c.bearers.texts.strdup text
            let bearers:={ c.bearers with texts := texts }.modifyPf f fun x =>
              { x with direction := p.direction,flowDescription := some k }
            let c:={ c with
              bearers := bearers
              ipfwRule := update c.ipfwRule f rule }
            let c:=c.queue s b
            .ok { c with pfToAdd := update c.pfToAdd b (c.pfToAdd b++[f]) } f

def installPacketFilters (c : QosFlows) (s b : Nat) (p : NasPf) : Nat → Outcome QosFlows Unit
  | 0 => .ok c ()
  | n+1 => (c.installPacketFilter s b p).bind fun c _ => c.installPacketFilters s b p n

def deletePacketFilters (c : QosFlows) (b : Nat) : List NasPf → Outcome QosFlows Unit
  | [] => .ok c ()
  | p::ps =>
    match c.pfFindByIdentifier b p.identifier with
    | none => c.deletePacketFilters b ps
    | some f =>
      let c:={ c with
        pfToDelete := update c.pfToDelete b (c.pfToDelete b++[p.identifier]) }
      (c.withBearers (c.bearers.smfPfRemove f)).bind fun c _ => c.deletePacketFilters b ps

/-- One turn of the loop over QoS rules: what is left in `qos_flow`, and the flags. -/
def handleQosRule (c : QosFlows) (s i : Nat) (r : QosRule) (flags : ModifyFlags) :
    Outcome QosFlows (Option Nat × ModifyFlags) :=
  match c.findByQfi s r.identifier with
  | none => .ok c (none,flags)
  | some b =>
    let c:={ c with pfToAdd := update c.pfToAdd b [] }
    let removeAll:=c.withBearers (c.bearers.smfPfRemoveAll (c.bearers.pfList b))
    let install := fun c : QosFlows =>
      (c.installPacketFilters s b (r.pf i) r.filters.length).bind fun c _ =>
        .ok c (some b,if r.filters=[] then flags else flags.install r.code)
    match r.code with
    | .deleteExistingQosRule =>
      removeAll.bind fun c _ => .ok (c.queue s b) (some b,{ flags with remove := true })
    | .createNewQosRule => removeAll.bind fun c _ => install c
    | .replaceAllPacketFilters => removeAll.bind fun c _ => install c
    | .addPacketFilters => install c
    | .deletePacketFilters =>
      let c:={ c with pfToDelete := update c.pfToDelete b [] }
      (c.deletePacketFilters b r.filters).bind fun c _ =>
        .ok (c.queue s b) (some b,
          if c.bearers.pfList b=[] then { flags with remove := true }
          else { flags with tftDelete := true })
    | .withoutModifyingPacketFilters => .ok c (some b,flags)

def handleQosRules (c : QosFlows) (s : Nat) :
    Nat → List QosRule → Option Nat → ModifyFlags → Outcome QosFlows (Option Nat × ModifyFlags)
  | _, [], b, flags => .ok c (b,flags)
  | i, r::rs, _, flags =>
    (c.handleQosRule s i r flags).bind fun c p => c.handleQosRules s (i+1) rs p.1 p.2

def writeParam (x : QosRates) : QosFlowParam → Option QosRates
  | .fiveQi => some x
  | .gfbrUplink br => br.toUint64.map fun rate => { x with gbrUplink := rate }
  | .gfbrDownlink br => br.toUint64.map fun rate => { x with gbrDownlink := rate }
  | .mfbrUplink br => br.toUint64.map fun rate => { x with mbrUplink := rate }
  | .mfbrDownlink br => br.toUint64.map fun rate => { x with mbrDownlink := rate }

/-- One turn of the loop over QoS flow descriptions; the process stops at a parameter that the
decoder did not read. -/
def handleQosFlowDescription (c : QosFlows) (s : Nat) (d : QosFlowDescription)
    (flags : ModifyFlags) : Outcome QosFlows (Option Nat × ModifyFlags) :=
  match c.findByQfi s d.identifier with
  | none => .ok c (none,flags)
  | some b =>
    match d.param.foldlM writeParam (c.qos b) with
    | none => .abort c
    | some x =>
      let c:={ c with qos := update c.qos b x }
      if 8<d.numOfParameter then .abort c
      else .ok (c.queue s b) (some b,{ flags with qosModify := true })

def handleQosFlowDescriptions (c : QosFlows) (s : Nat) :
    List QosFlowDescription → Option Nat → ModifyFlags →
      Outcome QosFlows (Option Nat × ModifyFlags)
  | [], b, flags => .ok c (b,flags)
  | d::ds, _, flags =>
    (c.handleQosFlowDescription s d flags).bind fun c p =>
      c.handleQosFlowDescriptions s ds p.1 p.2

def smfBearerQosUpdate (c : QosFlows) (b : Nat) : Outcome QosFlows Unit :=
  let s:=(c.bearers.bearer b).sess
  if (c.qer b).isSome then .ok { c with qer := update c.qer b (some (c.qos b)) } ()
  else if c.qerFree=0 ∨ c.qerIdFree s=0 then .abort c
  else
    .ok { c with
      qerFree := c.qerFree-1
      qerIdFree := update c.qerIdFree s (c.qerIdFree s-1)
      qer := update c.qer b (some (c.qos b)) } ()

inductive ModificationAnswer where
  | command
  | reject
  deriving DecidableEq

-- What follows when one QoS flow is to be modified: `b` is the one that was looked up last.
def finishModification (send : QosFlows → ModifyFlags → Bool) (c : QosFlows) (b : Option Nat)
    (flags : ModifyFlags) : Outcome QosFlows ModificationAnswer :=
  let command := fun c : QosFlows => if send c flags then .ok c .command else .abort c
  if flags.remove then
    if flags.tft || flags.qosModify then .abort c else command c
  else if flags.tft || flags.qosModify then
    match b with
    | none => .abort c
    | some b =>
      (if flags.tft then c.withBearers (c.bearers.smfBearerTftUpdate b) else .ok c ()).bind
        fun c _ => (if flags.qosModify then c.smfBearerQosUpdate b else .ok c ()).bind
          fun c _ => command c
  else .abort c

def handleDescriptionsIe (send : QosFlows → ModifyFlags → Bool) (c : QosFlows) (s : Nat)
    (b : Option Nat) (flags : ModifyFlags) (descriptions : Option (List QosFlowDescription)) :
    Outcome QosFlows ModificationAnswer :=
  match descriptions with
  | some [] => .ok c .reject
  | _ =>
    (c.handleQosFlowDescriptions s (descriptions.getD []) b flags).bind fun c p =>
      if (c.toModify s).length≠1 then .ok c .reject else finishModification send c p.1 p.2

def handleModificationRequest (send : QosFlows → ModifyFlags → Bool) (c : QosFlows) (s : Nat)
    (m : ModificationRequest) : Outcome QosFlows ModificationAnswer :=
  let c:={ c with toModify := update c.toModify s [] }
  match m.qosRules with
  | some [] => .ok c .reject
  | rules =>
    (c.handleQosRules s 0 (rules.getD []) none .zero).bind fun c p =>
      c.handleDescriptionsIe send s p.1 p.2 m.qosFlowDescriptions

end QosFlows

end OgsDp.Smf
