import OgsDp.Amf.Context

/-!
# NG Setup (src/amf/ngap-handler.c)

A request is checked as it is read: its PLMN id and the tracking areas are stored before the
request can still be refused, the gNB id only once it is accepted.
-/

namespace OgsDp.Amf
open Lib OgsDp.Core

def maxNumOfSupportedTa : Nat := 256
def maxNumOfBplmn : Nat := 12
def maxNumOfSliceSupport : Nat := 1024
def sNssaiNoSdValue : BitVec 24 := 0xffffff

structure SliceSupportItem where
  sST : Byte
  sD : Option (BitVec 24)

structure BroadcastPlmnItem where
  pLMNIdentity : Vector Byte 3
  tAISliceSupportList : List (Option SliceSupportItem)

structure SupportedTaItem where
  tAC : BitVec 24
  broadcastPLMNList : List (Option BroadcastPlmnItem)

structure GlobalGnbId where
  pLMNIdentity : Vector Byte 3
  gNBId : BitVec 32

structure NgSetupRequest where
  globalRANNodeID : Option (Option GlobalGnbId)
  supportedTAList : Option (List (Option SupportedTaItem))

inductive SetupCause where
  | protocolSemanticError
  | miscControlProcessingOverload
  | miscUnknownPlmnOrSnpn
  | radioNetworkSliceNotSupported
  deriving DecidableEq

inductive NgSetupAnswer where
  | response
  | failure (cause : SetupCause)
  deriving DecidableEq

/-- A loop over the first `max` items of a list: what it stored, and whether it came to its end. -/
def parseItems {α β : Type} (parse : α → Option β) : Nat → List (Option α) → List β × Bool
  | 0, _ => ([],true)
  | _, [] => ([],true)
  | _, none::_ => ([],false)
  | max+1, some item::items =>
    match parse item with
    | none => ([],false)
    | some b =>
      let r:=parseItems parse max items
      (b::r.1,r.2)

def parsedItems {α β : Type} (parse : α → Option β) (max : Nat) (items : List (Option α)) :
    Option (List β) :=
  match parseItems parse max items with
  | (l,true) => some l
  | (_,false) => none

def parseSlice (item : SliceSupportItem) : Option SNssai :=
  some ⟨item.sST,item.sD.getD sNssaiNoSdValue⟩

def parseBplmn (item : BroadcastPlmnItem) : Option Bplmn :=
  (parsedItems parseSlice maxNumOfSliceSupport item.tAISliceSupportList).map fun l =>
    ⟨item.pLMNIdentity,l⟩

def parseSupportedTa (item : SupportedTaItem) : Option SupportedTa :=
  (parsedItems parseBplmn maxNumOfBplmn item.broadcastPLMNList).map fun l => ⟨item.tAC,l⟩

def Gnb.bplmns (gnb : Gnb) : List (BitVec 24 × Bplmn) :=
  gnb.supportedTaList.flatMap fun ta => ta.bplmnList.map fun bplmn => (ta.tac,bplmn)

namespace Context

def maximumNumberOfGnbsIsReached (c : Context) : Bool :=
  decide (c.config.peer ≤ c.gnbList.countP fun n => (c.gnb n).ngSetupSuccess)

def gnbPlmnIdIsForeign (c : Context) (gnb : Gnb) : Bool :=
  !c.config.plmnSupport.any fun support =>
    gnb.bplmns.any fun bplmn => support.plmnId == bplmn.2.plmnId

def servedTaiIsFound (c : Context) (gnb : Gnb) : Bool :=
  gnb.bplmns.any fun bplmn =>
    match c.findServedTai ⟨bplmn.2.plmnId,bplmn.1⟩ with
    | some i => decide (i < maxNumOfSupportedTa)
    | none => false

def sNssaiIsFound (c : Context) (gnb : Gnb) : Bool :=
  gnb.bplmns.any fun bplmn =>
    bplmn.2.sNssai.any fun sNssai => (c.findSNssai bplmn.2.plmnId sNssai).isSome

def ngSetupRefused (c : Context) (gnb : Gnb) : Option SetupCause :=
  if c.maximumNumberOfGnbsIsReached then some .miscControlProcessingOverload
  else if c.gnbPlmnIdIsForeign gnb then some .miscUnknownPlmnOrSnpn
  else if !c.servedTaiIsFound gnb then some .miscUnknownPlmnOrSnpn
  else if !c.sNssaiIsFound gnb then some .radioNetworkSliceNotSupported
  else none

/-- The part of `ngap_handle_ng_setup_request` in which it can refuse: what it stored by then, and
the gNB id of an accepted request. -/
def ngSetupCheck (c : Context) (n : Nat) (message : NgSetupRequest) :
    Context × Except SetupCause (BitVec 32) :=
  match message.globalRANNodeID, message.supportedTAList with
  | some (some globalGNBId), some items =>
    let r:=parseItems parseSupportedTa maxNumOfSupportedTa items
    let c:=c.modify n fun gnb => { gnb with
      plmnId := globalGNBId.pLMNIdentity
      supportedTaList := r.1 }
    if r.2 then
      match c.ngSetupRefused (c.gnb n) with
      | some cause => (c,.error cause)
      | none => (c,.ok globalGNBId.gNBId)
    else (c,.error .protocolSemanticError)
  | _, _ => (c,.error .protocolSemanticError)

def ngapHandleNgSetupRequest (c : Context) (n : Nat) (message : NgSetupRequest) :
    Context × NgSetupAnswer :=
  match c.ngSetupCheck n message with
  | (c,.error cause) => (c,.failure cause)
  | (c,.ok gnbId) =>
    ((c.gnbSetGnbId n gnbId).modify n fun gnb => { gnb with ngSetupSuccess := true },.response)

theorem ngSetupCheck_kept (c : Context) (n : Nat) (message : NgSetupRequest) :
    c.Kept (c.ngSetupCheck n message).1 := by
  have hself : c.Kept c := ⟨rfl,rfl,rfl,rfl,fun _ => rfl,fun _ => rfl⟩
  have hstored : ∀ plmnId l,c.Kept (c.modify n fun gnb => { gnb with
      plmnId := plmnId
      supportedTaList := l }) := by
    intro plmnId l
    refine ⟨rfl,rfl,rfl,rfl,?_,?_⟩
    · intro m
      by_cases hm : m=n <;> simp [modify,hm]
    · intro m
      by_cases hm : m=n <;> simp [modify,hm]
  unfold ngSetupCheck
  split
  · simp only
    split
    · split
      · exact hstored _ _
      · exact hstored _ _
    · exact hstored _ _
  · exact hself

end Context

def readable {α β : Type} (parse : α → Option β) (max : Nat) (items : List (Option α)) : List β :=
  (((items.take max).map (·.bind parse)).takeWhile Option.isSome).reduceOption

theorem parseItems_fst {α β : Type} (parse : α → Option β) (max : Nat) (items : List (Option α)) :
    (parseItems parse max items).1=readable parse max items := by
  induction items generalizing max with
  | nil => cases max <;> rfl
  | cons item items ih =>
    cases max with
    | zero => rfl
    | succ max =>
      unfold readable
      rw [List.take_succ_cons,List.map_cons]
      cases item with
      | none => rfl
      | some item =>
        rw [Option.bind_some,parseItems]
        cases hb : parse item with
        | none => rfl
        | some b => exact congrArg (b :: ·) (ih max)

namespace Context

/-- What a refused request has changed: nothing, if an IE is missing, else the PLMN id and the
tracking areas of the gNB. -/
def storedOfRefused (c : Context) (n : Nat) (message : NgSetupRequest) : Context :=
  match message.globalRANNodeID, message.supportedTAList with
  | some (some globalGNBId), some items =>
    c.modify n fun gnb => { gnb with
      plmnId := globalGNBId.pLMNIdentity
      supportedTaList := readable parseSupportedTa maxNumOfSupportedTa items }
  | _, _ => c

theorem ngSetupCheck_stored (c : Context) (n : Nat) (message : NgSetupRequest) :
    (c.ngSetupCheck n message).1=c.storedOfRefused n message := by
  unfold ngSetupCheck storedOfRefused
  rcases message with ⟨_ | _ | globalGNBId,_ | items⟩
  case some.some.some =>
    simp only [parseItems_fst]
    split
    · split <;> rfl
    · rfl
  all_goals rfl

/-- A refused request leaves the gNB id, the setup state, the index by gNB id and all other gNBs as
they were. The PLMN id and the tracking areas are stored before it is refused. -/
theorem ng_setup_refused (c : Context) (n : Nat) (message : NgSetupRequest) {cause : SetupCause}
    (h : (c.ngapHandleNgSetupRequest n message).2 = .failure cause) :
    (c.ngapHandleNgSetupRequest n message).1=c.storedOfRefused n message ∧
      (c.storedOfRefused n message).gnbIdHash=c.gnbIdHash ∧
      (∀ m,((c.storedOfRefused n message).gnb m).gnbId=(c.gnb m).gnbId ∧
        ((c.storedOfRefused n message).gnb m).ngSetupSuccess=(c.gnb m).ngSetupSuccess) ∧
      ∀ m,m≠n → (c.storedOfRefused n message).gnb m=c.gnb m := by
  have hstored:=c.ngSetupCheck_stored n message
  have hkept:=c.ngSetupCheck_kept n message
  rw [hstored] at hkept
  refine ⟨?_,hkept.gnbIdHash,fun m => ⟨hkept.gnbId m,hkept.ngSetupSuccess m⟩,?_⟩
  · unfold ngapHandleNgSetupRequest at h ⊢
    rcases hcheck : c.ngSetupCheck n message with ⟨c',cause' | gnbId⟩
    · rw [hcheck] at hstored
      exact hstored
    · rw [hcheck] at h
      cases h
  · intro m hm
    unfold storedOfRefused
    split
    · exact Function.update_of_ne hm ..
    · rfl

def refusing : Context :=
  { contextInit ⟨2,[],[]⟩
      (fun _ => { Gnb.zero with ngSetupSuccess := true,supportedTaList := [⟨7,[]⟩] }) 0 with
    gnbList := [0] }

def refusedRequest : NgSetupRequest := ⟨some (some ⟨#v[0x00,0xf1,0x10],1⟩),some []⟩

theorem ng_setup_refused_foreign :
    (refusing.storedOfRefused 0 refusedRequest).gnbIdHash=refusing.gnbIdHash := by
  have hanswer : (refusing.ngapHandleNgSetupRequest 0 refusedRequest).2 =
      .failure .miscUnknownPlmnOrSnpn := by
    decide
  exact (ng_setup_refused refusing 0 refusedRequest hanswer).2.1

/-- The PLMN id and the tracking areas of the gNB are not what they were. -/
theorem ng_setup_refused_stored :
    (refusing.ngapHandleNgSetupRequest 0 refusedRequest).2 = .failure .miscUnknownPlmnOrSnpn ∧
      ((refusing.ngapHandleNgSetupRequest 0 refusedRequest).1.gnb 0).plmnId ≠
        (refusing.gnb 0).plmnId ∧
      ((refusing.ngapHandleNgSetupRequest 0 refusedRequest).1.gnb 0).supportedTaList ≠
        (refusing.gnb 0).supportedTaList := by
  decide

end Context

end OgsDp.Amf
