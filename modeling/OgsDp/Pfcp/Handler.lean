import OgsDp.Pfcp.Context

/-!
# PFCP rule handlers (lib/pfcp/handler.c)

Each handler gets an IE of the session, or `none` where its `presence` is zero.
-/

namespace OgsDp.Pfcp
open Lib RefTable OgsDp.Core

structure Pdi where
  sourceInterface : Option Byte
  sourceInterfaceType : Option Byte
  localFTeid : Option (List Byte)
  qfi : Option Byte

structure CreatePdr where
  pdrId : Option (BitVec 16)
  precedence : Option (BitVec 32)
  pdi : Option Pdi
  farId : Option (BitVec 32)
  -- those present among the eight
  urrId : List (BitVec 32)
  qerId : Option (BitVec 32)

structure CreatedPdr where
  pdrId : Option (BitVec 16)
  localFTeid : Option (List Byte)

structure UpdatePdr where
  pdrId : Option (BitVec 16)
  pdi : Option Pdi

structure ForwardingParameters where
  destinationInterface : Option Byte
  destinationInterfaceType : Option Byte
  outerHeaderCreation : Option (List Byte)
  pfcpsmreqFlags : Option Byte

structure FarIe where
  farId : Option (BitVec 32)
  applyAction : Option (BitVec 16)
  forwardingParameters : Option ForwardingParameters

structure UrrIe where
  urrId : Option (BitVec 32)
  measurementMethod : Option Byte
  reportingTriggers : Option (BitVec 24)
  measurementPeriod : Option (BitVec 32)
  volumeThreshold : Option (List Byte)
  volumeQuota : Option (List Byte)
  eventThreshold : Option (BitVec 32)
  eventQuota : Option (BitVec 32)
  timeThreshold : Option (BitVec 32)
  timeQuota : Option (BitVec 32)
  quotaHoldingTime : Option (BitVec 32)
  droppedDlTrafficThreshold : Option (List Byte)
  quotaValidityTime : Option (BitVec 32)
  measurementInformation : Option (List Byte)

structure QerIe where
  qerId : Option (BitVec 32)
  gateStatus : Option Byte
  maximumBitrate : Option (List Byte)
  guaranteedBitrate : Option (List Byte)
  qosFlowIdentifier : Option Byte

def fTeidHasAddr (env : Env) (data : List Byte) : Bool :=
  (env.stackFTeid.copy data).ipv4 || (env.stackFTeid.copy data).ipv6

/-- The checks of Create PDR on the PDI; the result is the IE to be used. -/
def createPdrCheck (env : Env) (c : Context) (restoration : Bool) (pdi : Option Pdi) :
    Except Reply Pdi :=
  match pdi with
  | none => .error (.rejected .mandatoryIeMissing (some .pdi))
  | some pdi =>
    if pdi.sourceInterface.isNone then
      .error (.rejected .mandatoryIeMissing (some .sourceInterface))
    else match pdi.localFTeid with
    | none => .ok pdi
    | some data =>
      let f:=env.stackFTeid.copy data
      if fTeidHasAddr env data=false then
        .error (.rejected .mandatoryIeIncorrect (some .fTeid))
      else if f.ch=false ∧ restoration=true ∧ (objectFindByTeid c f.ntoh.teid).isSome then
        .error (.rejected .invalidFTeidAllocationOption (some .fTeid))
      else .ok pdi

def resetByPdi (pdi : Pdi) (x : Pdr) : Pdr :=
  { x with
    srcIf := pdi.sourceInterface.getD 0
    srcIfType := pdi.sourceInterfaceType.or x.srcIfType
    chid := false
    chooseId := 0
    fTeid := .zero
    fTeidLen := 0
    qfi := pdi.qfi.getD 0 }

def createPdrPdi (c : Context) (p : Nat) (pdi : Pdi) : Outcome Context Unit :=
  let c:=c.modify p (resetByPdi pdi)
  match pdi.localFTeid with
  | none => .ok c ()
  | some data =>
    let f:=FTeid.zero.copy data
    if f.ipv4 || f.ipv6 then
      .ok (c.modify p fun x => { x with fTeidLen := min data.length 25,fTeid := f.ntoh }) ()
    else .abort c

def createPdrFar (c : Context) (s p : Nat) (farId : Option (BitVec 32)) : Outcome Context Unit :=
  let c:=c.modify p fun x => { x with far := none }
  match farId with
  | none => .ok c ()
  | some id =>
    ((farFindOrAdd c.far s id).mapState fun t => { c with far := t }).bind fun c r =>
      .ok (pdrAssociateFar c p r) ()

def createPdrUrr (s p : Nat) : Context → List (BitVec 32) → Outcome Context Unit
  | c, [] => .ok c ()
  | c, id::ids =>
    ((urrFindOrAdd c.urr s id).mapState fun t => { c with urr := t }).bind fun c r =>
      (pdrAssociateUrr c p r).bind fun c _ => createPdrUrr s p c ids

def createPdrQer (c : Context) (s p : Nat) (qerId : Option (BitVec 32)) : Outcome Context Unit :=
  let c:=c.modify p fun x => { x with qer := none }
  match qerId with
  | none => .ok c ()
  | some id =>
    ((qerFindOrAdd c.qer s id).mapState fun t => { c with qer := t }).bind fun c r =>
      .ok (pdrAssociateQer c p r) ()

/-- `ogs_pfcp_handle_create_pdr`; `restoration` is the flag of a PFCPSEReq-Flags that is not
`NULL`. -/
def handleCreatePdr (env : Env) (c : Context) (s : Nat) (restoration : Bool)
    (message : Option CreatePdr) : Outcome Context Reply :=
  match message with
  | none => .ok c .absent
  | some m =>
    match m.pdrId with
    | none => .ok c (.rejected .mandatoryIeMissing (some .pdrId))
    | some id =>
      (pdrFindOrAdd c s id).bind fun c p =>
        let c:=m.precedence.elim c (pdrReorderByPrecedence c p)
        match createPdrCheck env c restoration m.pdi with
        | .error reply => .ok c reply
        | .ok pdi =>
          if env.flowsCompile then
            (createPdrPdi c p pdi).bind fun c _ =>
              (createPdrFar c s p m.farId).bind fun c _ =>
                (createPdrUrr s p (c.modify p fun x => { x with urr := [] }) m.urrId).bind
                  fun c _ => (createPdrQer c s p m.qerId).bind fun c _ => .ok c (.rule p)
          else .abort c

def knownPdr (c : Context) (s : Nat) (pdrId : Option (BitVec 16)) : Except Reply Nat :=
  match pdrId with
  | none => .error (.rejected .mandatoryIeMissing (some .pdrId))
  | some id =>
    match pdrFind c s id with
    | none => .error (.rejected .mandatoryIeIncorrect (some .pdrId))
    | some p => .ok p

def overlayFTeid (data : List Byte) (x : Pdr) : Pdr :=
  { x with fTeidLen := data.length,fTeid := (x.fTeid.copy data).ntoh }

def handleCreatedPdr (env : Env) (c : Context) (s : Nat) (message : Option CreatedPdr) :
    Outcome Context Reply :=
  match message with
  | none => .ok c .absent
  | some m =>
    match knownPdr c s m.pdrId with
    | .error reply => .ok c reply
    | .ok p =>
      match m.localFTeid with
      | none => .ok c (.rule p)
      | some data =>
        if fTeidHasAddr env data=false then
          .ok c (.rejected .mandatoryIeIncorrect (some .fTeid))
        else if ((c.pdr p).fTeid.copy data).ipv4 || ((c.pdr p).fTeid.copy data).ipv6 then
          .ok (c.modify p (overlayFTeid data)) (.rule p)
        else .abort c

def handleUpdatePdr (env : Env) (c : Context) (s : Nat) (message : Option UpdatePdr) :
    Outcome Context Reply :=
  match message with
  | none => .ok c .absent
  | some m =>
    match knownPdr c s m.pdrId with
    | .error reply => .ok c reply
    | .ok p =>
      match m.pdi with
      | none => .ok c (.rule p)
      | some pdi =>
        if pdi.sourceInterface.isNone then
          .ok c (.rejected .mandatoryIeMissing (some .sourceInterface))
        else if pdi.localFTeid.any fun data => !fTeidHasAddr env data then
          .ok c (.rejected .mandatoryIeIncorrect (some .fTeid))
        else
          let c:=c.modify p fun x => { x with
            srcIf := pdi.sourceInterface.getD 0
            srcIfType := pdi.sourceInterfaceType.or x.srcIfType }
          if env.flowsCompile then
            .ok (c.modify p fun x => { (pdi.localFTeid.elim id overlayFTeid) x with
              qfi := pdi.qfi.getD x.qfi }) (.rule p)
          else .abort c

def handleRemovePdr (c : Context) (s : Nat) (message : Option (Option (BitVec 16))) :
    Context × Reply :=
  match message with
  | none => (c,.absent)
  | some none => (c,.rejected .mandatoryIeMissing (some .pdrId))
  | some (some id) =>
    match pdrFind c s id with
    | none => (c,.rejected .sessionContextNotFound none)
    | some p => (pdrRemove c p,.rule p)

section Rules

variable {α : Type}

def knownRule (type : IeType) (t : RuleTable α) (s : Nat) (id : Option (BitVec 32)) :
    Except Reply Nat :=
  match id with
  | none => .error (.rejected .mandatoryIeMissing (some type))
  | some id =>
    match t.find s id with
    | none => .error (.rejected .mandatoryIeIncorrect (some type))
    | some r => .ok r

def RuleTable.say (t : RuleTable α) (r : Nat) (body : α) : RuleTable α :=
  t.modify r fun x => { x with body := body }

abbrev RuleHandler (α μ : Type) : Type :=
  RuleTable α → Nat → Option μ → Outcome (RuleTable α) Reply

def handleRule {μ : Type} (type : IeType) (id : μ → Option (BitVec 32))
    (say : μ → α → Outcome α (Option (Cause × IeType))) : RuleHandler α μ := fun t s message =>
  match message with
  | none => .ok t .absent
  | some m =>
    match knownRule type t s (id m) with
    | .error reply => .ok t reply
    | .ok r =>
      ((say m (t.slot r).body).mapState fun x => t.say r x).bind fun t refused =>
        match refused with
        | some (cause,ie) => .ok t (.rejected cause (some ie))
        | none => .ok t (.rule r)

def handleRemoveRule (type : IeType) (t : RuleTable α) (s : Nat)
    (message : Option (Option (BitVec 32))) : RuleTable α × Reply :=
  match message with
  | none => (t,.absent)
  | some none => (t,.rejected .mandatoryIeMissing (some type))
  | some (some id) =>
    match t.find s id with
    | none => (t,.rejected .sessionContextNotFound none)
    | some r => (t.remove r,.rule r)

end Rules

def forward (f : ForwardingParameters) (x : Far) : Outcome Far Unit :=
  let x:={ x with
    dstIf := f.destinationInterface.getD x.dstIf
    dstIfType := f.destinationInterfaceType.or x.dstIfType }
  match f.outerHeaderCreation with
  | none => .ok x ()
  | some [] => .abort x
  | some data =>
    .ok { x with outerHeaderCreation := be32toh (memcpy x.outerHeaderCreation data) 2 } ()

def handleCreateFar : RuleHandler Far FarIe :=
  handleRule .farId FarIe.farId fun m x =>
    match m.applyAction with
    | none => .ok x (some (.mandatoryIeMissing,.applyAction))
    | some a =>
      let x:={ x with
        applyAction := a
        dstIf := 0
        outerHeaderCreation := Vector.replicate 26 0 }
      match m.forwardingParameters with
      | none => .ok x none
      | some f => (forward f x).bind fun x _ => .ok x none

def handleUpdateFarFlags : RuleHandler Far FarIe :=
  handleRule .farId FarIe.farId fun m x =>
    .ok { x with
      smreqFlags := (m.forwardingParameters.bind fun f => f.pfcpsmreqFlags).getD x.smreqFlags } none

def handleUpdateFar : RuleHandler Far FarIe :=
  handleRule .farId FarIe.farId fun m x =>
    let x:={ x with applyAction := m.applyAction.getD x.applyAction }
    match m.forwardingParameters with
    | none => .ok x none
    | some f => (forward f x).bind fun x _ => .ok x none

def measuresDuration (x : Urr) : Bool := x.measMethod.val.testBit 0
def measuresVolume (x : Urr) : Bool := x.measMethod.val.testBit 1
def measuresEvent (x : Urr) : Bool := x.measMethod.val.testBit 2

def sayVolume (beyond : Byte) (type : IeType) (ie : Option (List Byte)) (put : Volume → Urr → Urr)
    (x : Urr) : Urr × Option (Cause × IeType) :=
  match ie with
  | none => (x,none)
  | some octets =>
    if measuresVolume x then
      let r:=parseVolume beyond octets
      (put r.1 x,if octets.length=r.2 then none else some (.mandatoryIeIncorrect,type))
    else (x,none)

def sayUrr (beyond : Byte) (m : UrrIe) (x : Urr) : Outcome Urr (Option (Cause × IeType)) :=
  let x:={ x with measPeriod := m.measurementPeriod.getD x.measPeriod }
  match sayVolume beyond .volumeThreshold m.volumeThreshold
      (fun v x => { x with volThreshold := v }) x with
  | (x,some refused) => .ok x (some refused)
  | (x,none) =>
    match sayVolume beyond .volumeQuota m.volumeQuota (fun v x => { x with volQuota := v }) x with
    | (x,some refused) => .ok x (some refused)
    | (x,none) =>
      let event:=measuresEvent x
      let duration:=measuresDuration x
      let x:={ x with
        eventThreshold := if event then m.eventThreshold.getD x.eventThreshold else x.eventThreshold
        eventQuota := if event then m.eventQuota.getD x.eventQuota else x.eventQuota
        timeThreshold := if duration then m.timeThreshold.getD x.timeThreshold else x.timeThreshold
        timeQuota := if duration then m.timeQuota.getD x.timeQuota else x.timeQuota
        quotaHoldingTime := m.quotaHoldingTime.getD x.quotaHoldingTime }
      let dropped : Outcome Urr Unit :=
        match m.droppedDlTrafficThreshold with
        | none => .ok x ()
        | some octets =>
          match parseDroppedDlTrafficThreshold beyond octets with
          | none => .abort x
          | some d => .ok { x with droppedDlTrafficThreshold := d } ()
      dropped.bind fun x _ =>
        .ok { x with
          quotaValidityTime := m.quotaValidityTime.getD x.quotaValidityTime
          measInfo := (m.measurementInformation.bind List.head?).getD x.measInfo } none

def u24Byte (v : BitVec 24) (i : Nat) : Byte := Fin.ofNat 256 (v.toNat / 256^i)

def handleCreateUrr (env : Env) : RuleHandler Urr UrrIe :=
  handleRule .urrId UrrIe.urrId fun m x =>
    match m.measurementMethod with
    | none => .ok x (some (.mandatoryIeMissing,.measurementMethod))
    | some method =>
      match m.reportingTriggers with
      | none => .ok x (some (.mandatoryIeMissing,.reportingTriggers))
      | some v => sayUrr env.beyond m { x with
          measMethod := method
          repTriggers := (u24Byte v 2,u24Byte v 1,u24Byte v 0) }

/-- `ogs_pfcp_handle_update_urr`; the triggers are taken in the other order. -/
def handleUpdateUrr (env : Env) : RuleHandler Urr UrrIe :=
  handleRule .urrId UrrIe.urrId fun m x =>
    sayUrr env.beyond m { x with
      measMethod := m.measurementMethod.getD x.measMethod
      repTriggers := m.reportingTriggers.elim x.repTriggers fun v =>
        (u24Byte v 0,u24Byte v 1,u24Byte v 2) }

def sayBitrates (m : QerIe) (x : Qer) : Outcome Qer Unit :=
  let mbr : Outcome Qer Unit :=
    match m.maximumBitrate with
    | none => .ok x ()
    | some octets =>
      match parseBitrate octets with
      | none => .abort x
      | some v => .ok { x with mbr := v } ()
  mbr.bind fun x _ =>
    match m.guaranteedBitrate with
    | none => .ok x ()
    | some octets =>
      match parseBitrate octets with
      | none => .abort x
      | some v => .ok { x with gbr := v } ()

/-- `ogs_pfcp_handle_create_qer`; a missing Gate Status is reported as an Apply Action. -/
def handleCreateQer : RuleHandler Qer QerIe :=
  handleRule .qerId QerIe.qerId fun m x =>
    match m.gateStatus with
    | none => .ok x (some (.mandatoryIeMissing,.applyAction))
    | some g =>
      (sayBitrates m { x with gateStatus := g,mbr := .zero,gbr := .zero }).bind fun x _ =>
        .ok { x with qfi := m.qosFlowIdentifier.getD 0 } none

def handleUpdateQer : RuleHandler Qer QerIe :=
  handleRule .qerId QerIe.qerId fun m x => (sayBitrates m x).bind fun x _ => .ok x none

/-- `ogs_pfcp_handle_remove_far`, `ogs_pfcp_handle_remove_urr`, `ogs_pfcp_handle_remove_qer`. -/
def handleRemoveFar : RuleTable Far → Nat → Option (Option (BitVec 32)) → RuleTable Far × Reply :=
  handleRemoveRule .farId

def handleRemoveUrr : RuleTable Urr → Nat → Option (Option (BitVec 32)) → RuleTable Urr × Reply :=
  handleRemoveRule .urrId

def handleRemoveQer : RuleTable Qer → Nat → Option (Option (BitVec 32)) → RuleTable Qer × Reply :=
  handleRemoveRule .qerId

end OgsDp.Pfcp
