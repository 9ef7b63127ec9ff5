import OgsDp.Amf.Ue
import OgsDp.Core.CString

/-!
# Which NF instances are discovered (lib/sbi/context.c)

An NF instance is matched with the type and the options of a discovery request.
-/

namespace OgsDp.Sbi
open OgsDp.Core Amf

/-- `OpenAPI_nf_type_e`. With its zero an assertion fails in each of the functions below. -/
inductive NfType where
  | nrf | udm | amf | smf | ausf | nef | pcf | smsf | nssf | udr | lmf | gmlc | eir5g | sepp
  | upf | n3iwf | af | udsf | bsf | chf | nwdaf | pcscf | cbcf | hss | ucmf | sorAf | spaf
  | mme | scsas | scef | scp | nssaaf | icscf | scscf | dra | imsAs | aanf | ddnmf5g | nsacf
  | mfaf | easdf | dccf | mbSmf | tsctsf | adrf | gbaBsf | cef | mbUpf | nswof | pkmf | mnpf
  | smsGmsc | smsIwmsc | mbsf | mbstf | panf | dmf | dsmf | df | dnf
  deriving DecidableEq

structure NrTai where
  plmnId : PlmnId
  tac : BitVec 24
  deriving DecidableEq

structure InfoSlice where
  sNssai : SNssai
  dnn : List (List Byte)

-- An item of `nr_tai_range`; `tac` has the start and the end of each range.
structure NrTaiRange where
  plmnId : PlmnId
  tac : List (BitVec 24 × BitVec 24)

structure SmfInfo where
  slice : List InfoSlice
  nrTai : List NrTai
  nrTaiRange : List NrTaiRange

structure AmfInfo where
  guami : List Guami

/-- `ogs_sbi_nf_info_t`: the type tells which member is read. -/
structure NfInfo where
  nfType : NfType
  smf : SmfInfo
  amf : AmfInfo

structure NfService where
  name : Option (List Byte)
  allowedNfType : List NfType

structure NfInstance where
  id : Option (List Byte)
  nfType : NfType
  plmnId : List PlmnId
  nfServiceList : List NfService
  nfInfoList : List NfInfo

/-- `ogs_sbi_discovery_option_t`; `tai` and `guami` with their presence. -/
structure DiscoveryOption where
  targetNfInstanceId : Option (List Byte)
  serviceNames : List (Option (List Byte))
  snssais : List SNssai
  dnn : Option (List Byte)
  tai : Option NrTai
  guami : Option Guami
  targetPlmnList : List PlmnId

def checkAmfInfoGuami (info : AmfInfo) (guami : Guami) : Bool :=
  info.guami.any fun g => decide (g.amfId=guami.amfId) && decide (g.plmnId=guami.plmnId)

def checkSmfInfoSlice (info : SmfInfo) (sNssai : SNssai) (dnn : List Byte) : Bool :=
  info.slice.any fun x =>
    decide (sNssai.sst=x.sNssai.sst) && decide (sNssai.sd=x.sNssai.sd) &&
      x.dnn.any (sameNoCase dnn)

def checkSmfInfoTai (info : SmfInfo) (tai : NrTai) : Bool :=
  if info.nrTai.length=0 ∧ info.nrTaiRange.length=0 then true
  else
    (info.nrTai.any fun x => decide (tai.plmnId=x.plmnId) && decide (tai.tac=x.tac)) ||
      info.nrTaiRange.any fun x => decide (tai.plmnId=x.plmnId) &&
        x.tac.any fun r => decide (r.1≤tai.tac) && decide (tai.tac ≤ r.2)

def NfService.isAllowedNfType (service : NfService) (nfType : NfType) : Bool :=
  if service.allowedNfType.length=0 then true
  else service.allowedNfType.any fun t => decide (t=nfType)

namespace NfInstance

variable (inst : NfInstance)

def serviceNamesIsMatched (requester : NfType) (o : DiscoveryOption) : Bool :=
  inst.nfServiceList.any fun service =>
    o.serviceNames.any fun name =>
      service.name.isSome && name.isSome && decide (service.name=name) &&
        service.isAllowedNfType requester

/-- `ogs_sbi_discovery_param_serving_plmn_list_is_matched`; `serving` is the list of the local
configuration. -/
def servingPlmnListIsMatched (serving : List PlmnId) : Bool :=
  if serving.length=0 ∨ inst.plmnId.length=0 then true
  else inst.plmnId.any fun p => serving.any fun q => decide (p=q)

def targetPlmnListIsMatched (o : DiscoveryOption) : Bool :=
  inst.plmnId.any fun p => o.targetPlmnList.any fun q => decide (p=q)

def infoIsMatched (requester : NfType) (o : DiscoveryOption) (info : NfInfo) : Bool :=
  if inst.nfType≠info.nfType then false
  else
    match info.nfType with
    | .amf =>
      match o.guami with
      | some guami => decide (requester ≠ .amf) || checkAmfInfoGuami info.amf guami
      | none => true
    | .smf =>
      (match o.snssais,o.dnn with
        | sNssai::_,some dnn => checkSmfInfoSlice info.smf sNssai dnn
        | _,_ => true) &&
      (match o.tai with
        | some tai => checkSmfInfoTai info.smf tai
        | none => true)
    | _ => true

def optionIsMatched (requester : NfType) (o : DiscoveryOption) : Bool :=
  (match o.targetNfInstanceId,inst.id with
    | some target,some id => decide (id=target)
    | _,_ => true) &&
  (decide (o.serviceNames.length=0) || inst.serviceNamesIsMatched requester o) &&
  (decide (o.targetPlmnList.length=0) || inst.targetPlmnListIsMatched o) &&
  inst.nfInfoList.all (inst.infoIsMatched requester o)

def paramIsMatched (serving : List PlmnId) (target requester : NfType)
    (option : Option DiscoveryOption) : Bool :=
  if inst.id.isNone then false
  else if inst.nfType≠target then false
  else
    (match option with
      | none => inst.servingPlmnListIsMatched serving
      | some o => decide (o.targetPlmnList.length≠0) || inst.servingPlmnListIsMatched serving) &&
    (match option with
      | none => true
      | some o => inst.optionIsMatched requester o)

def addInfo (info : NfInfo) : NfInstance :=
  { inst with nfInfoList := inst.nfInfoList++[info] }

def addService (service : NfService) : NfInstance :=
  { inst with nfServiceList := inst.nfServiceList++[service] }

end NfInstance

def SmfInfo.InArea (info : SmfInfo) (tai : NrTai) : Prop :=
  info.nrTai=[] ∧ info.nrTaiRange=[] ∨ tai∈info.nrTai ∨
    ∃ x∈info.nrTaiRange,x.plmnId=tai.plmnId ∧ ∃ r∈x.tac,r.1≤tai.tac ∧ tai.tac ≤ r.2

def SmfInfo.HasSlice (info : SmfInfo) (sNssai : SNssai) (dnn : List Byte) : Prop :=
  ∃ x∈info.slice,x.sNssai=sNssai ∧ ∃ d∈x.dnn,dnn.map toLower=d.map toLower

structure SmfInfo.Serves (info : SmfInfo) (o : DiscoveryOption) : Prop where
  slice : ∀ sNssai∈o.snssais,∀ dnn∈o.dnn,info.HasSlice sNssai dnn
  tai : ∀ tai∈o.tai,info.InArea tai

/-- The info is one for the instance, and serves all that is requested. -/
structure NfInstance.Serves (inst : NfInstance) (o : DiscoveryOption) (info : NfInfo) : Prop where
  nfType : inst.nfType=info.nfType
  amf : info.nfType = .amf → ∀ guami∈o.guami,guami∈info.amf.guami
  smf : info.nfType = .smf → info.smf.Serves o

structure NfInstance.Eligible (inst : NfInstance) (serving : List PlmnId)
    (target requester : NfType) (option : Option DiscoveryOption) : Prop where
  included : inst.id≠none
  nfType : inst.nfType=target
  id : ∀ o∈option,∀ id∈o.targetNfInstanceId,inst.id=some id
  service : ∀ o∈option,o.serviceNames≠[] → ∃ service ∈ inst.nfServiceList,
    ∃ name,service.name=some name ∧ some name∈o.serviceNames ∧
      (service.allowedNfType=[] ∨ requester∈service.allowedNfType)
  targetPlmn : ∀ o∈option,o.targetPlmnList≠[] → ∃ p∈inst.plmnId,p∈o.targetPlmnList
  servingPlmn : (∀ o∈option,o.targetPlmnList=[]) →
    serving=[] ∨ inst.plmnId=[] ∨ ∃ p∈inst.plmnId,p∈serving

structure NfInstance.Discoverable (inst : NfInstance) (serving : List PlmnId)
    (target requester : NfType) (option : Option DiscoveryOption) : Prop where
  eligible : inst.Eligible serving target requester option
  info : ∀ o∈option,inst.nfInfoList=[] ∨ ∃ info∈inst.nfInfoList,inst.Serves o info

/-- The match is the wanted one, and neither one info nor one service more undoes it. -/
structure NfInstance.MatchesRightly (inst : NfInstance) (serving : List PlmnId)
    (target requester : NfType) (option : Option DiscoveryOption) (info : NfInfo)
    (service : NfService) : Prop where
  wanted : inst.paramIsMatched serving target requester option=true ↔
    inst.Discoverable serving target requester option
  info : inst.paramIsMatched serving target requester option=true →
    (inst.addInfo info).paramIsMatched serving target requester option=true
  service : inst.paramIsMatched serving target requester option=true →
    (inst.addService service).paramIsMatched serving target requester option=true

/-- The same as `Serves`, but for a GUAMI that no AMF asks for. -/
structure NfInstance.Passes (inst : NfInstance) (requester : NfType) (o : DiscoveryOption)
    (info : NfInfo) : Prop where
  nfType : inst.nfType=info.nfType
  amf : info.nfType = .amf → requester = .amf → ∀ guami∈o.guami,guami∈info.amf.guami
  smf : info.nfType = .smf → info.smf.Serves o

/-- The infos of the instance are of one mind, and so is the one that is added. -/
structure NfInstance.InfosAgree (inst : NfInstance) (requester : NfType) (o : DiscoveryOption)
    (more : NfInfo) : Prop where
  all : ∀ info∈inst.nfInfoList,inst.Serves o info →
    ∀ other∈inst.nfInfoList,inst.Passes requester o other
  some : (∀ info∈inst.nfInfoList,inst.Passes requester o info) →
    inst.nfInfoList=[] ∨ ∃ info∈inst.nfInfoList,inst.Serves o info
  more : (∀ info∈inst.nfInfoList,inst.Passes requester o info) → inst.Passes requester o more

theorem checkAmfInfoGuami_iff {info : AmfInfo} {guami : Guami} :
    checkAmfInfoGuami info guami=true ↔ guami∈info.guami := by
  simp only [checkAmfInfoGuami,List.any_eq_true,Bool.and_eq_true,decide_eq_true_eq]
  constructor
  · intro h
    obtain ⟨g,hg,ha,hp⟩ := h
    cases g
    cases guami
    cases ha
    cases hp
    exact hg
  · exact fun h => ⟨guami,h,rfl,rfl⟩

theorem checkSmfInfoSlice_iff {info : SmfInfo} {sNssai : SNssai} {dnn : List Byte} :
    checkSmfInfoSlice info sNssai dnn=true ↔ info.HasSlice sNssai dnn := by
  simp only [checkSmfInfoSlice,SmfInfo.HasSlice,sameNoCase,List.any_eq_true,Bool.and_eq_true,
    decide_eq_true_eq]
  refine exists_congr fun x => and_congr_right fun _ => and_congr_left fun _ => ?_
  constructor
  · intro h
    cases sNssai
    cases hx : x.sNssai
    simp_all
  · intro h
    simp [h]

theorem checkSmfInfoTai_iff {info : SmfInfo} {tai : NrTai} :
    checkSmfInfoTai info tai=true ↔ info.InArea tai := by
  unfold checkSmfInfoTai SmfInfo.InArea
  simp only [List.length_eq_zero_iff]
  by_cases hnone : info.nrTai=[] ∧ info.nrTaiRange=[]
  · simp [hnone]
  · rw [if_neg hnone,or_iff_right hnone]
    have hmem : (∃ x∈info.nrTai,tai.plmnId=x.plmnId ∧ tai.tac=x.tac) ↔
        tai∈info.nrTai := by
      constructor
      · intro h
        obtain ⟨x,hx,hp,ht⟩ := h
        cases x
        cases tai
        cases hp
        cases ht
        exact hx
      · exact fun h => ⟨tai,h,rfl,rfl⟩
    simp only [Bool.or_eq_true,List.any_eq_true,Bool.and_eq_true,decide_eq_true_eq,hmem]
    simp only [eq_comm (a := tai.plmnId)]

theorem isAllowedNfType_iff {service : NfService} {nfType : NfType} :
    service.isAllowedNfType nfType=true ↔
      service.allowedNfType=[] ∨ nfType∈service.allowedNfType := by
  unfold NfService.isAllowedNfType
  simp only [List.length_eq_zero_iff]
  by_cases hnone : service.allowedNfType=[]
  · simp [hnone]
  · simp [hnone]

namespace NfInstance

variable {inst : NfInstance} {serving : List PlmnId} {target requester : NfType}
  {option : Option DiscoveryOption} {o : DiscoveryOption} {info : NfInfo}

theorem serviceNamesIsMatched_iff : inst.serviceNamesIsMatched requester o=true ↔
    ∃ service∈inst.nfServiceList,∃ name,service.name=some name ∧
      some name∈o.serviceNames ∧
      (service.allowedNfType=[] ∨ requester∈service.allowedNfType) := by
  simp only [serviceNamesIsMatched,List.any_eq_true,Bool.and_eq_true,decide_eq_true_eq,
    isAllowedNfType_iff]
  refine exists_congr fun service => and_congr_right fun _ => ?_
  constructor
  · intro h
    obtain ⟨name,hname,⟨⟨hsome,-⟩,heq⟩,hallowed⟩ := h
    obtain ⟨n,hn⟩ := Option.isSome_iff_exists.mp hsome
    exact ⟨n,hn,hn ▸ heq ▸ hname,hallowed⟩
  · intro h
    obtain ⟨n,hn,hname,hallowed⟩ := h
    exact ⟨some n,hname,⟨⟨by simp [hn],rfl⟩,hn⟩,hallowed⟩

theorem servingPlmnListIsMatched_iff : inst.servingPlmnListIsMatched serving=true ↔
    serving=[] ∨ inst.plmnId=[] ∨ ∃ p∈inst.plmnId,p∈serving := by
  unfold servingPlmnListIsMatched
  simp only [List.length_eq_zero_iff]
  rw [← or_assoc]
  by_cases hnone : serving=[] ∨ inst.plmnId=[]
  · rw [if_pos hnone]
    exact iff_of_true rfl (.inl hnone)
  · rw [if_neg hnone,or_iff_right hnone]
    simp

theorem targetPlmnListIsMatched_iff : inst.targetPlmnListIsMatched o=true ↔
    ∃ p∈inst.plmnId,p∈o.targetPlmnList := by
  simp [targetPlmnListIsMatched]

theorem infoIsMatched_iff (hone : o.snssais.length≤1) :
    inst.infoIsMatched requester o info=true ↔ inst.Passes requester o info := by
  unfold infoIsMatched
  by_cases htype : inst.nfType=info.nfType
  · rw [if_neg (not_not_intro htype)]
    split
    · rename_i hamf
      have hiff : inst.Passes requester o info ↔
          (requester = .amf → ∀ guami∈o.guami,guami∈info.amf.guami) :=
        ⟨fun h => h.amf hamf,fun h => ⟨htype,fun _ => h,fun hsmf => by simp [hamf] at hsmf⟩⟩
      rw [hiff]
      cases o.guami with
      | none => simp
      | some guami =>
        simp only [Bool.or_eq_true,decide_eq_true_eq,checkAmfInfoGuami_iff,Option.mem_some_iff,
          forall_eq']
        exact imp_iff_not_or.symm
    · rename_i hsmf
      have hiff : inst.Passes requester o info ↔ info.smf.Serves o :=
        ⟨fun h => h.smf hsmf,fun h => ⟨htype,fun hamf => by simp [hsmf] at hamf,fun _ => h⟩⟩
      have hserves : info.smf.Serves o ↔
          (∀ sNssai∈o.snssais,∀ dnn∈o.dnn,info.smf.HasSlice sNssai dnn) ∧
            ∀ tai∈o.tai,info.smf.InArea tai :=
        ⟨fun h => ⟨h.slice,h.tai⟩,fun h => ⟨h.1,h.2⟩⟩
      rw [hiff,hserves,Bool.and_eq_true]
      apply and_congr
      · match hs : o.snssais, o.dnn with
        | [], dnn => simp
        | s::rest, none => simp
        | s::rest, some dnn =>
          have hrest : rest=[] := by simpa [hs] using hone
          simp [hrest,checkSmfInfoSlice_iff]
      · cases o.tai with
        | none => simp
        | some tai => simp [checkSmfInfoTai_iff]
    · rename_i hamf hsmf
      exact iff_of_true rfl ⟨htype,fun h => absurd h hamf,fun h => absurd h hsmf⟩
  · rw [if_pos htype]
    exact iff_of_false Bool.false_ne_true fun h => htype h.nfType

theorem optionIsMatched_iff (hone : o.snssais.length≤1) (hid : inst.id≠none) :
    inst.optionIsMatched requester o=true ↔
      (∀ id∈o.targetNfInstanceId,inst.id=some id) ∧
      (o.serviceNames≠[] → inst.serviceNamesIsMatched requester o=true) ∧
      (o.targetPlmnList≠[] → inst.targetPlmnListIsMatched o=true) ∧
      ∀ info∈inst.nfInfoList,inst.Passes requester o info := by
  obtain ⟨id,hid⟩ := Option.ne_none_iff_exists'.mp hid
  have htarget : (match o.targetNfInstanceId,inst.id with
      | some target,some id => decide (id=target)
      | _,_ => true)=true ↔ ∀ id∈o.targetNfInstanceId,inst.id=some id := by
    rw [hid]
    cases o.targetNfInstanceId with
    | none => simp
    | some target => simp
  unfold optionIsMatched
  simp only [Bool.and_eq_true,htarget,Bool.or_eq_true,decide_eq_true_eq,
    List.length_eq_zero_iff,List.all_eq_true,infoIsMatched_iff hone,and_assoc,
    ne_eq,or_iff_not_imp_left]

theorem paramIsMatched_iff (hone : ∀ o∈option,o.snssais.length≤1) :
    inst.paramIsMatched serving target requester option=true ↔
      inst.Eligible serving target requester option ∧
        ∀ o∈option,∀ info∈inst.nfInfoList,inst.Passes requester o info := by
  unfold paramIsMatched
  by_cases hid : inst.id=none
  · rw [if_pos (by simp [hid])]
    exact iff_of_false Bool.false_ne_true fun h => h.1.included hid
  rw [if_neg (by simpa using hid)]
  by_cases htype : inst.nfType=target
  · rw [if_neg (not_not_intro htype),Bool.and_eq_true]
    cases option with
    | none =>
      rw [servingPlmnListIsMatched_iff]
      constructor
      · intro h
        exact ⟨⟨hid,htype,by simp,by simp,by simp,fun _ => h.1⟩,by simp⟩
      · exact fun h => ⟨h.1.servingPlmn (by simp),rfl⟩
    | some o =>
      simp only [optionIsMatched_iff (hone o rfl) hid,serviceNamesIsMatched_iff,
        targetPlmnListIsMatched_iff,Bool.or_eq_true,decide_eq_true_eq,ne_eq,
        List.length_eq_zero_iff,servingPlmnListIsMatched_iff,Option.mem_some_iff,forall_eq',
        or_iff_not_imp_left,not_not]
      constructor
      · intro h
        obtain ⟨hserving,htarget,hservice,hplmn,hinfo⟩ := h
        refine ⟨⟨hid,htype,?_,?_,?_,?_⟩,hinfo⟩
        · simpa using htarget
        · simpa [or_iff_not_imp_left] using hservice
        · simpa using hplmn
        · intro hnone
          have hcase:=hserving (hnone o rfl)
          simpa only [or_iff_not_imp_left] using hcase
      · intro h
        obtain ⟨he,hinfo⟩ := h
        refine ⟨fun hnone => ?_,he.id o rfl,?_,?_,hinfo⟩
        · have hcase:=he.servingPlmn (by simpa using hnone)
          simpa only [or_iff_not_imp_left] using hcase
        · have hservice:=he.service o rfl
          simpa only [or_iff_not_imp_left] using hservice
        · exact he.targetPlmn o rfl
  · rw [if_pos htype]
    exact iff_of_false Bool.false_ne_true fun h => htype h.1.nfType

theorem Eligible.addInfo (h : inst.Eligible serving target requester option) (info : NfInfo) :
    (inst.addInfo info).Eligible serving target requester option :=
  ⟨h.included,h.nfType,h.id,h.service,h.targetPlmn,h.servingPlmn⟩

theorem Eligible.addService (h : inst.Eligible serving target requester option)
    (service : NfService) :
    (inst.addService service).Eligible serving target requester option where
  included := h.included
  nfType := h.nfType
  id := h.id
  service := by
    intro o ho hnames
    obtain ⟨s,hs,hmatch⟩ := h.service o ho hnames
    exact ⟨s,List.mem_append_left _ hs,hmatch⟩
  targetPlmn := h.targetPlmn
  servingPlmn := h.servingPlmn

theorem passes_addInfo {more : NfInfo} :
    (inst.addInfo more).Passes requester o info ↔ inst.Passes requester o info :=
  ⟨fun h => ⟨h.nfType,h.amf,h.smf⟩,fun h => ⟨h.nfType,h.amf,h.smf⟩⟩

theorem passes_addService {service : NfService} :
    (inst.addService service).Passes requester o info ↔ inst.Passes requester o info :=
  ⟨fun h => ⟨h.nfType,h.amf,h.smf⟩,fun h => ⟨h.nfType,h.amf,h.smf⟩⟩

theorem Serves.passes (h : inst.Serves o info) : inst.Passes requester o info :=
  ⟨h.nfType,fun hamf _ => h.amf hamf,h.smf⟩

/-- An instance that meets the other conditions is matched as it is wanted exactly if its infos
are of one mind. -/
theorem matches_rightly_iff (inst : NfInstance) (serving : List PlmnId)
    (target requester : NfType) (option : Option DiscoveryOption) (info : NfInfo)
    (service : NfService) (hone : ∀ o∈option,o.snssais.length≤1) :
    inst.MatchesRightly serving target requester option info service ↔
      (inst.Eligible serving target requester option →
        ∀ o∈option,inst.InfosAgree requester o info) := by
  have hiff : inst.paramIsMatched serving target requester option=true ↔ _ :=
    paramIsMatched_iff hone
  constructor
  · intro h he o ho
    have honly : ∀ o'∈option,o'=o := by
      intro o' ho'
      exact Option.some.inj (ho'.symm.trans ho)
    have hpass : (∀ x∈inst.nfInfoList,inst.Passes requester o x) →
        inst.paramIsMatched serving target requester option=true := by
      intro hall
      refine hiff.mpr ⟨he,fun o' ho' => ?_⟩
      rw [honly o' ho']
      exact hall
    constructor
    · intro x hx hserves
      refine (hiff.mp (h.wanted.mpr ⟨he,fun o' ho' => ?_⟩)).2 o ho
      rw [honly o' ho']
      exact .inr ⟨x,hx,hserves⟩
    · exact fun hall => (h.wanted.mp (hpass hall)).info o ho
    · intro hall
      have hmore:=((paramIsMatched_iff hone).mp (h.info (hpass hall))).2 o ho
      exact passes_addInfo.mp (hmore info (List.mem_append_right _ (List.mem_singleton_self _)))
  · intro h
    constructor
    · rw [hiff]
      constructor
      · exact fun hm => ⟨hm.1,fun o ho => (h hm.1 o ho).some (hm.2 o ho)⟩
      · intro hd
        refine ⟨hd.eligible,fun o ho x hx => ?_⟩
        rcases hd.info o ho with hnone | hserves
        · rw [hnone] at hx
          cases hx
        · obtain ⟨y,hy,hserves⟩ := hserves
          exact (h hd.eligible o ho).all y hy hserves x hx
    · intro hm
      obtain ⟨he,hpass⟩ := hiff.mp hm
      refine (paramIsMatched_iff hone).mpr ⟨he.addInfo info,fun o ho x hx => ?_⟩
      rw [passes_addInfo]
      rcases List.mem_append.mp hx with hx | hx
      · exact hpass o ho x hx
      · rw [List.mem_singleton.mp hx]
        exact (h he o ho).more (hpass o ho)
    · intro hm
      obtain ⟨he,hpass⟩ := hiff.mp hm
      refine (paramIsMatched_iff hone).mpr ⟨he.addService service,fun o ho x hx => ?_⟩
      rw [passes_addService]
      exact hpass o ho x hx

end NfInstance

def internet : List Byte := [105,110,116,101,114,110,101,116]

def sliceInfo (sst : Byte) : NfInfo where
  nfType := .smf
  smf := ⟨[⟨⟨sst,0xffffff⟩,[internet]⟩],[],[]⟩
  amf := ⟨[]⟩

def twoInfoSmf : NfInstance where
  id := some [52]
  nfType := .smf
  plmnId := []
  nfServiceList := []
  nfInfoList := [sliceInfo 1,sliceInfo 2]

def sliceOption : DiscoveryOption where
  targetNfInstanceId := none
  serviceNames := []
  snssais := [⟨1,0xffffff⟩]
  dnn := some internet
  tai := none
  guami := none
  targetPlmnList := []

theorem twoInfoSmf_eligible : twoInfoSmf.Eligible [] .smf .amf (some sliceOption) where
  included := by simp [twoInfoSmf]
  nfType := rfl
  id := by simp [sliceOption]
  service := by simp [sliceOption]
  targetPlmn := by simp [sliceOption]
  servingPlmn := by simp

theorem sliceInfo_serves : twoInfoSmf.Serves sliceOption (sliceInfo 1) where
  nfType := rfl
  amf := by simp [sliceInfo]
  smf := fun _ => ⟨by simp [sliceOption,SmfInfo.HasSlice,sliceInfo],by simp [sliceOption]⟩

theorem matches_rightly_one_info :
    (∀ o∈some sliceOption,o.snssais.length≤1) ∧
      NfInstance.MatchesRightly { twoInfoSmf with nfInfoList := [sliceInfo 1] } [] .smf .amf
        (some sliceOption) (sliceInfo 1) ⟨none,[]⟩ := by
  have hone : ∀ o∈some sliceOption,o.snssais.length≤1 := by simp [sliceOption]
  refine ⟨hone,(NfInstance.matches_rightly_iff _ [] .smf .amf (some sliceOption) (sliceInfo 1)
    ⟨none,[]⟩ hone).mpr fun _ o ho => ?_⟩
  obtain rfl : sliceOption=o := Option.some.inj ho
  have hserves : NfInstance.Serves { twoInfoSmf with nfInfoList := [sliceInfo 1] } sliceOption
      (sliceInfo 1) :=
    ⟨rfl,sliceInfo_serves.amf,sliceInfo_serves.smf⟩
  constructor
  · intro _ _ _ other hother
    rw [List.mem_singleton.mp hother]
    exact hserves.passes
  · exact fun _ => .inr ⟨sliceInfo 1,List.mem_singleton_self _,hserves⟩
  · exact fun _ => hserves.passes

/-- The first info serves the slice, and the second one hides the instance. -/
theorem second_info_hides_instance :
    twoInfoSmf.paramIsMatched [] .smf .amf (some sliceOption)=false ∧
      twoInfoSmf.Discoverable [] .smf .amf (some sliceOption) ∧
      NfInstance.paramIsMatched { twoInfoSmf with nfInfoList := [sliceInfo 1] } [] .smf .amf
        (some sliceOption)=true ∧
      ¬ twoInfoSmf.MatchesRightly [] .smf .amf (some sliceOption) (sliceInfo 2) ⟨none,[]⟩ := by
  have hno : twoInfoSmf.paramIsMatched [] .smf .amf (some sliceOption)=false := by decide
  have hwanted : twoInfoSmf.Discoverable [] .smf .amf (some sliceOption) := by
    refine ⟨twoInfoSmf_eligible,fun o ho => .inr ⟨sliceInfo 1,List.mem_cons_self ..,?_⟩⟩
    obtain rfl : sliceOption=o := Option.some.inj ho
    exact sliceInfo_serves
  refine ⟨hno,hwanted,by decide,fun h => ?_⟩
  rw [h.wanted.mpr hwanted] at hno
  cases hno

end OgsDp.Sbi
