import Mathlib.Data.BitVec
import Mathlib.Data.List.Forall2
import OgsDp.Core.Conv
import OgsDp.Smf.PolicyDecision

/-!
# What is imported of a policy decision

Each entry by itself says which rule it wants stored, with the QoS decision that its reference
names.
-/

namespace OgsDp.Smf
open Lib OgsDp.Core Pfcp List Option

inductive Wanted where
  | remove (id : CStr)
  | install (rule : PccRuleData) (d : QosData)

def refOf (entry : Option (MapEntry PccRuleData)) : Option (PccRuleData × CStr) :=
  match entry with
  | none => none
  | some entry =>
    match entry.key, entry.value with
    | some _, some rule => (rule.refQosData.bind List.head?).join.map fun qosId => (rule,qosId)
    | _, _ => none

def removalOf (entry : Option (MapEntry PccRuleData)) : Option Wanted :=
  match entry with
  | none => none
  | some entry =>
    match entry.key, entry.value with
    | some key, none => some (.remove key)
    | _, _ => none

section Wants

variable (qosDecs : Option (List (Option (MapEntry QosData))))

def wanted (entry : Option (MapEntry PccRuleData)) : Option Wanted :=
  match refOf entry with
  | none => removalOf entry
  | some (rule,qosId) => (qosDataFind qosDecs qosId).map (.install rule)

def Resolves (entry : Option (MapEntry PccRuleData)) : Prop :=
  ∃ r∈refOf entry,(qosDataFind qosDecs r.2).isSome

def Dangles (entry : Option (MapEntry PccRuleData)) : Prop :=
  ∃ r∈refOf entry,qosDataFind qosDecs r.2=none

end Wants

def flowOf (info : Option FlowInformation) : Option (Byte × Option CStr) :=
  info.bind fun info => (flowDirectionOf info.flowDirection).map fun d => (d,info.flowDescription)

def flowsOf (rule : PccRuleData) : List (Byte × Option CStr) :=
  (rule.flowInfos.getD []).filterMap flowOf

section Stored

variable (bitrateFromString : CStr → BitVec 64)

/-- A rate that is left out is zero if all four are, and the maximum otherwise. -/
def rateOf (d : QosData) (rate : Option CStr) : BitVec 64 :=
  match rate with
  | some text => bitrateFromString text
  | none =>
    if d.maxbrUl=none ∧ d.maxbrDl=none ∧ d.gbrUl=none ∧ d.gbrDl=none then 0
    else maxBitRate

/-- The level and the capabilities of an ARP, or the level there is without one. -/
def ArpOf (d : QosData) (q : Qos) : Prop :=
  match d.arp with
  | none => q.priorityLevel.val=d.priorityLevel.toNat ∧ q.preEmptionCapability=0 ∧
      q.preEmptionVulnerability=0
  | some arp => q.priorityLevel.val=arp.priorityLevel.toNat ∧
      q.preEmptionCapability=capabilityOf 0 arp.preemptCap ∧
        q.preEmptionVulnerability=vulnerabilityOf 0 arp.preemptVuln

/-- The QoS of the decision, with nothing cut off. -/
structure QosOf (d : QosData) (q : Qos) : Prop where
  index : q.index.val=d.fiveQi.toNat
  arp : ArpOf d q
  mbrUplink : q.mbr.uplink=rateOf bitrateFromString d d.maxbrUl
  mbrDownlink : q.mbr.downlink=rateOf bitrateFromString d d.maxbrDl
  gbrUplink : q.gbr.uplink=rateOf bitrateFromString d d.gbrUl
  gbrDownlink : q.gbr.downlink=rateOf bitrateFromString d d.gbrDl

def Wanted.Stored (w : Wanted) (r : PccRule) : Prop :=
  match w with
  | .remove id => r=removeRule id
  | .install rule d => r.type = .install ∧ some r.id=rule.pccRuleId ∧
      r.precedence=rule.precedence ∧
        r.flow.map (fun f => (f.direction,some f.description))=flowsOf rule ∧
          QosOf bitrateFromString d r.qos

/-- The policy has the rules that the entries want, each with the QoS of its decision. -/
def Imported (old : List PccRule) (decision : SmPolicyDecision) (policy : List PccRule) : Prop :=
  match decision.pccRules with
  | none => policy=old
  | some entries =>
    List.Forall₂ (Wanted.Stored bitrateFromString) (entries.filterMap (wanted decision.qosDecs))
      policy

/-- Every rate that is given is not zero, or all are given and are zero. -/
def RatesFilled (d : QosData) : Prop :=
  (∀ rate∈[d.maxbrUl,d.maxbrDl,d.gbrUl,d.gbrDl],rate.map bitrateFromString≠some 0) ∨
    ∀ rate∈[d.maxbrUl,d.maxbrDl,d.gbrUl,d.gbrDl],rate.map bitrateFromString=some 0

/-- A rule with an id, at most 15 flows that all have a text, and an ARP with both capabilities. -/
structure Storable (rule : PccRuleData) (d : QosData) : Prop where
  id : rule.pccRuleId.isSome
  flows : (flowsOf rule).length ≤ maxNumOfFlowInPccRule
  texts : ∀ f∈flowsOf rule,f.2.isSome
  arp : ∀ arp∈d.arp,arp.preemptCap ≠ .null ∧ arp.preemptVuln ≠ .null

/-- Numbers that fit an octet, and rates that are not mistaken for ones that are left out. -/
structure Exactly (d : QosData) : Prop where
  index : d.fiveQi.toNat<256
  level : (d.arp.elim d.priorityLevel Arp.priorityLevel).toNat<256
  rates : RatesFilled bitrateFromString d

/-- At most eight rules, each storable with its decision, and none with a reference that dangles
behind one with a reference that does not. -/
structure Importable (decision : SmPolicyDecision) : Prop where
  count : ∀ entries ∈ decision.pccRules,
    (entries.filterMap (wanted decision.qosDecs)).length ≤ maxNumOfPccRule
  storable : ∀ entries∈decision.pccRules,∀ entry∈entries,∀ rule d,
    wanted decision.qosDecs entry=some (.install rule d) →
      Storable rule d ∧ Exactly bitrateFromString d
  order : ∀ entries∈decision.pccRules,entries.Pairwise fun e e' =>
    Resolves decision.qosDecs e → ¬ Dangles decision.qosDecs e'

end Stored

theorem addFlow_eq (flows : List Flow) (info : Option FlowInformation) : addFlow flows info =
    (flowOf info).elim (.ok flows) fun f =>
      if flows.length < maxNumOfFlowInPccRule then
        f.2.elim (.error .assertion) fun text => .ok (flows++[⟨f.1,text⟩])
      else .error .write := by
  cases info with
  | none => rfl
  | some info =>
    obtain ⟨direction,text⟩ := info
    cases direction <;> cases text <;> rfl

theorem gives_addFlows (infos : List (Option FlowInformation)) (flows : List Flow)
    (hflows : flows.length ≤ maxNumOfFlowInPccRule) (P : List Flow → Prop) :
    Gives (infos.foldlM addFlow flows) P ↔
      (∀ f∈infos.filterMap flowOf,f.2.isSome) ∧
        flows.length+(infos.filterMap flowOf).length ≤ maxNumOfFlowInPccRule ∧
          P (flows++(infos.filterMap flowOf).filterMap fun f =>
            f.2.map fun text => ⟨f.1,text⟩) := by
  induction infos generalizing flows with
  | nil =>
    rw [foldlM_nil]
    refine gives_ok.trans ?_
    simp [hflows]
  | cons info infos ih =>
    rw [foldlM_cons,gives_bind,addFlow_eq]
    cases hflow : flowOf info with
    | none => rw [elim_none,gives_ok,ih flows hflows,filterMap_cons_none hflow]
    | some f =>
      rw [elim_some,gives_check,filterMap_cons_some hflow,forall_mem_cons,
        length_cons]
      by_cases hroom : flows.length < maxNumOfFlowInPccRule
      · obtain ⟨direction,text⟩ := f
        cases text with
        | none => exact iff_of_false (fun h => not_gives_error h.2) fun h => nomatch h.1.1
        | some text =>
          rw [elim_some,gives_ok,ih _ (by rw [length_append]; exact hroom)]
          have hlen : (flows++[(⟨direction,text⟩ : Flow)]).length +
              (infos.filterMap flowOf).length =
                flows.length+((infos.filterMap flowOf).length+1) := by
            rw [length_append,length_singleton]
            omega
          rw [hlen]
          simp [hroom]
      · exact iff_of_false (fun h => hroom h.1) fun h => hroom (by omega)

theorem gives_putArp {d : QosData} {q : Qos} (hcap : q.preEmptionCapability=0)
    (hvuln : q.preEmptionVulnerability=0) {P : Qos → Prop} :
    Gives (putArp d q) P ↔
      (∀ arp∈d.arp,arp.preemptCap ≠ .null ∧ arp.preemptVuln ≠ .null) ∧
        P { q with
          priorityLevel := lowOctet (d.arp.elim d.priorityLevel Arp.priorityLevel)
          preEmptionCapability := d.arp.elim 0 fun arp => capabilityOf 0 arp.preemptCap
          preEmptionVulnerability :=
            d.arp.elim 0 fun arp => vulnerabilityOf 0 arp.preemptVuln } := by
  unfold putArp
  cases harp : d.arp with
  | none => simp [gives_ok,hcap,hvuln]
  | some arp =>
    dsimp only
    rw [gives_check,gives_check,gives_ok,hcap,hvuln]
    have hcapability : capabilityOf 0 arp.preemptCap≠0 ↔ arp.preemptCap ≠ .null := by
      cases arp.preemptCap <;> decide
    have hvulnerability : vulnerabilityOf 0 arp.preemptVuln≠0 ↔ arp.preemptVuln ≠ .null := by
      cases arp.preemptVuln <;> decide
    simp [hcapability,hvulnerability,and_assoc]

section Built

variable (bitrateFromString : CStr → BitVec 64)

def builtQos (d : QosData) : Qos :=
  putRates bitrateFromString d ⟨lowOctet d.fiveQi,
    lowOctet (d.arp.elim d.priorityLevel Arp.priorityLevel),
    d.arp.elim 0 fun arp => capabilityOf 0 arp.preemptCap,
    d.arp.elim 0 fun arp => vulnerabilityOf 0 arp.preemptVuln,.zero,.zero⟩

def Wanted.built : Wanted → PccRule
  | .remove id => removeRule id
  | .install rule d => ⟨.install,rule.pccRuleId.getD ⟨[],not_mem_nil⟩,
      (flowsOf rule).filterMap fun f => f.2.map fun text => ⟨f.1,text⟩,rule.precedence,
      builtQos bitrateFromString d⟩

def Wanted.Fits : Wanted → Prop
  | .remove _ => True
  | .install rule d => Storable rule d

theorem gives_installRule (rule : PccRuleData) (d : QosData) (P : PccRule → Prop) :
    Gives (installRule bitrateFromString rule d) P ↔
      Storable rule d ∧ P ((Wanted.install rule d).built bitrateFromString) := by
  unfold installRule
  cases hid : rule.pccRuleId with
  | none =>
    refine iff_of_false not_gives_error fun h => ?_
    have hsome:=h.1.id
    rw [hid] at hsome
    cases hsome
  | some id =>
    dsimp only
    rw [gives_bind,gives_addFlows _ _ (Nat.zero_le _),gives_bind,gives_putArp rfl rfl,gives_ok]
    have hbuilt : (Wanted.install rule d).built bitrateFromString=⟨.install,id,
        (flowsOf rule).filterMap fun f => f.2.map fun text => ⟨f.1,text⟩,rule.precedence,
          builtQos bitrateFromString d⟩ := by
      rw [Wanted.built,hid]
      rfl
    rw [hbuilt]
    constructor
    · rintro ⟨htexts,hlen,harp,hP⟩
      refine ⟨⟨by rw [hid]; rfl,?_,htexts,harp⟩,hP⟩
      rwa [length_nil,Nat.zero_add] at hlen
    · rintro ⟨h,hP⟩
      refine ⟨h.texts,?_,h.arp,hP⟩
      rw [length_nil,Nat.zero_add]
      exact h.flows

def Wanted.make : Wanted → Except Fault PccRule
  | .remove id => .ok (removeRule id)
  | .install rule d => installRule bitrateFromString rule d

theorem Wanted.gives_make (w : Wanted) (P : PccRule → Prop) :
    Gives (w.make bitrateFromString) P ↔ w.Fits ∧ P (w.built bitrateFromString) := by
  cases w with
  | remove id => exact gives_ok.trans (and_iff_right trivial).symm
  | install rule d => exact gives_installRule bitrateFromString rule d P

variable (qosDecs : Option (List (Option (MapEntry QosData))))

/-- What is stored for an entry if `old` was found before, and what is kept for the next one. -/
def keptFor (old : Option QosData) (entry : Option (MapEntry PccRuleData)) :
    Option Wanted × Option QosData :=
  match refOf entry with
  | none => (removalOf entry,old)
  | some (rule,qosId) =>
    (((qosDataFind qosDecs qosId).or old).map (.install rule),(qosDataFind qosDecs qosId).or old)

theorem importRule_eq (s : ImportState) (entry : Option (MapEntry PccRuleData)) :
    importRule bitrateFromString qosDecs s entry =
      (keptFor qosDecs s.qosData entry).1.elim
        (.ok { s with qosData := (keptFor qosDecs s.qosData entry).2 })
        fun w => store { s with qosData := (keptFor qosDecs s.qosData entry).2 }
          (w.make bitrateFromString) := by
  rcases entry with _ | ⟨_ | key,_ | rule⟩
  · rfl
  · rfl
  · rfl
  · rfl
  · unfold importRule keptFor refOf
    dsimp only
    cases href : (rule.refQosData.bind List.head?).join with
    | none => rfl
    | some qosId =>
      dsimp only [map_some]
      cases (qosDataFind qosDecs qosId).or s.qosData with
      | none => rfl
      | some d => rfl

def keptRules (old : Option QosData) : List (Option (MapEntry PccRuleData)) → List Wanted
  | [] => []
  | entry::entries =>
    (keptFor qosDecs old entry).1.toList++keptRules (keptFor qosDecs old entry).2 entries

theorem gives_importRules (entries : List (Option (MapEntry PccRuleData))) (s : ImportState)
    (hpolicy : s.policy.length ≤ maxNumOfPccRule) (P : List PccRule → Prop) :
    Gives (entries.foldlM (importRule bitrateFromString qosDecs) s) (fun s' => P s'.policy) ↔
      (∀ w∈keptRules qosDecs s.qosData entries,w.Fits) ∧
        s.policy.length+(keptRules qosDecs s.qosData entries).length ≤ maxNumOfPccRule ∧
          P (s.policy++(keptRules qosDecs s.qosData entries).map
            (Wanted.built bitrateFromString)) := by
  induction entries generalizing s with
  | nil =>
    rw [foldlM_nil]
    refine gives_ok.trans ?_
    simp [keptRules,hpolicy]
  | cons entry entries ih =>
    rw [foldlM_cons,gives_bind,importRule_eq,keptRules]
    cases (keptFor qosDecs s.qosData entry).1 with
    | none =>
      rw [elim_none,gives_ok,ih ⟨(keptFor qosDecs s.qosData entry).2,s.policy⟩ hpolicy,
        toList_none,nil_append]
    | some w =>
      rw [elim_some,store,gives_check]
      by_cases hroom : s.policy.length < maxNumOfPccRule
      · rw [gives_bind,Wanted.gives_make,gives_ok,ih _ (by rw [length_append]; exact hroom)]
        have hlen : ∀ n,(s.policy++[w.built bitrateFromString]).length+n =
            s.policy.length+(n+1) := by
          intro n
          rw [length_append,length_singleton]
          omega
        rw [hlen]
        simp only [hroom,true_and,toList_some,cons_append,nil_append,
          forall_mem_cons,length_cons,map_cons,append_assoc,and_assoc]
      · refine iff_of_false (fun h => hroom h.1) fun h => hroom ?_
        have hlen:=h.2.1
        rw [toList_some,length_append,length_singleton] at hlen
        omega

variable {qosDecs} {entry : Option (MapEntry PccRuleData)}

theorem keptFor_of_not_dangles {old : Option QosData} (h : ¬ Dangles qosDecs entry) :
    (keptFor qosDecs old entry).1=wanted qosDecs entry := by
  unfold keptFor wanted
  cases href : refOf entry with
  | none => rfl
  | some r =>
    obtain ⟨rule,qosId⟩ := r
    cases hfind : qosDataFind qosDecs qosId with
    | none => exact absurd ⟨_,href,hfind⟩ h
    | some d =>
      dsimp only
      rw [hfind]
      rfl

theorem keptFor_dangles (old : Option QosData) (h : Dangles qosDecs entry) :
    (keptFor qosDecs old entry).1.isSome=old.isSome ∧
      (keptFor qosDecs old entry).2=old ∧ wanted qosDecs entry=none := by
  obtain ⟨⟨rule,qosId⟩,href,hfind⟩ := h
  unfold keptFor wanted
  rw [mem_def.mp href]
  dsimp only at hfind ⊢
  rw [hfind]
  simp

theorem keptFor_keeps (old : Option QosData) (entry : Option (MapEntry PccRuleData)) :
    (keptFor qosDecs old entry).2.isSome ↔ old.isSome ∨ Resolves qosDecs entry := by
  unfold keptFor Resolves
  cases href : refOf entry with
  | none => simp
  | some r => simp [or_comm]

def NoneKept (qosDecs : Option (List (Option (MapEntry QosData)))) (old : Option QosData)
    (entries : List (Option (MapEntry PccRuleData))) : Prop :=
  (old.isSome → ∀ e∈entries,¬ Dangles qosDecs e) ∧
    entries.Pairwise fun e e' => Resolves qosDecs e → ¬ Dangles qosDecs e'

theorem noneKept_cons {old : Option QosData} {entries : List (Option (MapEntry PccRuleData))} :
    NoneKept qosDecs old (entry::entries) ↔
      (old.isSome → ¬ Dangles qosDecs entry) ∧
        NoneKept qosDecs (keptFor qosDecs old entry).2 entries := by
  unfold NoneKept
  rw [keptFor_keeps,pairwise_cons,forall_mem_cons]
  constructor
  · rintro ⟨hold,hhead,htail⟩
    refine ⟨fun h => (hold h).1,?_,htail⟩
    rintro (h | h) e he
    · exact (hold h).2 e he
    · exact hhead e he h
  · rintro ⟨hentry,hkept,htail⟩
    exact ⟨fun h => ⟨hentry h,hkept (.inl h)⟩,fun e he h => hkept (.inr h) e he,htail⟩

variable (qosDecs) in
theorem keptRules_wanted (old : Option QosData) (entries : List (Option (MapEntry PccRuleData))) :
    (entries.filterMap (wanted qosDecs)).length≤(keptRules qosDecs old entries).length ∧
      ((keptRules qosDecs old entries).length≤(entries.filterMap (wanted qosDecs)).length →
        NoneKept qosDecs old entries) ∧
        (NoneKept qosDecs old entries →
          keptRules qosDecs old entries=entries.filterMap (wanted qosDecs)) := by
  induction entries generalizing old with
  | nil => exact ⟨Nat.zero_le _,fun _ => ⟨fun _ => nofun,.nil⟩,fun _ => rfl⟩
  | cons entry entries ih =>
    obtain ⟨hle,hnone,heq⟩ := ih (keptFor qosDecs old entry).2
    have hwanted : (entry::entries).filterMap (wanted qosDecs) =
        (wanted qosDecs entry).toList++entries.filterMap (wanted qosDecs) := by
      cases h : wanted qosDecs entry with
      | none => rw [filterMap_cons_none h,toList_none,nil_append]
      | some w => rw [filterMap_cons_some h,toList_some,singleton_append]
    rw [hwanted,keptRules,noneKept_cons,length_append,length_append]
    by_cases hdangles : Dangles qosDecs entry
    · obtain ⟨hsome,-,hno⟩ := keptFor_dangles old hdangles
      rw [hno,toList_none,length_nil,nil_append,Nat.zero_add]
      cases hkept : (keptFor qosDecs old entry).1 with
      | none =>
        rw [hkept] at hsome
        have hold : ¬ old.isSome=true := fun h => nomatch hsome.trans h
        rw [toList_none,length_nil,Nat.zero_add,nil_append]
        exact ⟨hle,fun h => ⟨fun h' => absurd h' hold,hnone h⟩,fun h => heq h.2⟩
      | some w =>
        rw [hkept] at hsome
        rw [toList_some,length_singleton]
        exact ⟨by omega,fun h => absurd h (by omega),fun h => absurd hdangles (h.1 hsome.symm)⟩
    · rw [keptFor_of_not_dangles hdangles]
      refine ⟨by omega,fun h => ⟨fun _ => hdangles,hnone (by omega)⟩,fun h => ?_⟩
      rw [heq h.2]

theorem lowOctet_exact {x : BitVec 32} : (lowOctet x).val=x.toNat ↔ x.toNat<256 :=
  Nat.mod_eq_iff_lt (by decide)

theorem orMaxBitRate_eq_iff {x : Option (BitVec 64)} :
    orMaxBitRate (x.getD 0)=x.getD maxBitRate ↔ x≠some 0 := by
  unfold orMaxBitRate
  cases x with
  | none => simp
  | some r =>
    by_cases hr : r=0
    · subst hr
      simp [maxBitRate]
    · rw [getD_some,getD_some,if_neg hr]
      exact iff_of_true rfl fun h => hr (some.inj h)

theorem fillRates_iff {a b c e : Option (BitVec 64)} {m : BitVec 64} (q : Qos)
    (hnone : a=none ∧ b=none ∧ c=none ∧ e=none → m=0)
    (hsome : ¬ (a=none ∧ b=none ∧ c=none ∧ e=none) → m=maxBitRate) {r : Qos}
    (hr : r=fillRates { q with mbr := ⟨a.getD 0,b.getD 0⟩,gbr := ⟨c.getD 0,e.getD 0⟩ }) :
    (r.mbr.uplink=a.getD m ∧ r.mbr.downlink=b.getD m ∧ r.gbr.uplink=c.getD m ∧
      r.gbr.downlink=e.getD m) ↔
        (∀ x∈[a,b,c,e],x≠some 0) ∨ ∀ x∈[a,b,c,e],x=some 0 := by
  have hmax : maxBitRate≠0 := by decide
  have hmem : ∀ P : Option (BitVec 64) → Prop,(∀ x∈[a,b,c,e],P x) ↔ P a ∧ P b ∧ P c ∧ P e :=
    fun P => by simp
  rw [hmem,hmem]
  subst hr
  unfold fillRates
  by_cases hany : b.getD 0≠0 ∨ a.getD 0≠0 ∨ e.getD 0≠0 ∨ c.getD 0≠0
  · have hm : m=maxBitRate := by
      refine hsome fun h => ?_
      rw [h.1,h.2.1,h.2.2.1,h.2.2.2] at hany
      simp at hany
    have hnot : ¬ (a=some 0 ∧ b=some 0 ∧ c=some 0 ∧ e=some 0) := by
      intro h
      rw [h.1,h.2.1,h.2.2.1,h.2.2.2] at hany
      simp at hany
    rw [if_pos hany,hm,or_iff_left hnot]
    exact and_congr orMaxBitRate_eq_iff (and_congr orMaxBitRate_eq_iff
      (and_congr orMaxBitRate_eq_iff orMaxBitRate_eq_iff))
  · have hzero : ∀ x : Option (BitVec 64),x.getD 0=0 →
        (x.getD 0=x.getD m ↔ x=some 0 ∨ m=0 ∧ x=none) := by
      intro x hx
      cases x with
      | none => exact ⟨fun h => .inr ⟨h.symm,rfl⟩,fun h => (h.resolve_left nofun).1.symm⟩
      | some r => simpa using hx
    rw [if_neg hany]
    simp only [not_or,not_not] at hany
    obtain ⟨hb,ha,he,hc⟩ := hany
    have hcases : ∀ x : Option (BitVec 64),x.getD 0=0 → x=none ∨ x=some 0 := by
      intro x hx
      cases x with
      | none => exact .inl rfl
      | some r => exact .inr (congrArg some hx)
    dsimp only
    rw [hzero a ha,hzero b hb,hzero c hc,hzero e he]
    by_cases hall : a=none ∧ b=none ∧ c=none ∧ e=none
    · rw [hnone hall,hall.1,hall.2.1,hall.2.2.1,hall.2.2.2]
      simp
    · have hm : m≠0 := by
        rw [hsome hall]
        exact hmax
      have hmixed : ¬ (a≠some 0 ∧ b≠some 0 ∧ c≠some 0 ∧ e≠some 0) := fun h => hall
        ⟨(hcases a ha).resolve_right h.1,(hcases b hb).resolve_right h.2.1,
          (hcases c hc).resolve_right h.2.2.1,(hcases e he).resolve_right h.2.2.2⟩
      have hdrop : ∀ x : Option (BitVec 64),x=some 0 ∨ m=0 ∧ x=none ↔ x=some 0 :=
        fun x => or_iff_left fun h => hm h.1
      rw [or_iff_right hmixed,hdrop,hdrop,hdrop,hdrop]

theorem fillRates_keeps (q : Qos) : (fillRates q).index=q.index ∧
    (fillRates q).priorityLevel=q.priorityLevel ∧
      (fillRates q).preEmptionCapability=q.preEmptionCapability ∧
        (fillRates q).preEmptionVulnerability=q.preEmptionVulnerability := by
  unfold fillRates
  split
  · exact ⟨rfl,rfl,rfl,rfl⟩
  · exact ⟨rfl,rfl,rfl,rfl⟩

theorem builtQos_arp {d : QosData} : ArpOf d (builtQos bitrateFromString d) ↔
    (d.arp.elim d.priorityLevel Arp.priorityLevel).toNat<256 := by
  obtain ⟨-,hlevel,hcap,hvuln⟩ := fillRates_keeps { (⟨lowOctet d.fiveQi,
    lowOctet (d.arp.elim d.priorityLevel Arp.priorityLevel),
    d.arp.elim 0 fun arp => capabilityOf 0 arp.preemptCap,
    d.arp.elim 0 fun arp => vulnerabilityOf 0 arp.preemptVuln,.zero,.zero⟩ : Qos) with
    mbr := ⟨d.maxbrUl.elim 0 bitrateFromString,d.maxbrDl.elim 0 bitrateFromString⟩
    gbr := ⟨d.gbrUl.elim 0 bitrateFromString,d.gbrDl.elim 0 bitrateFromString⟩ }
  change (builtQos bitrateFromString d).priorityLevel=_ at hlevel
  change (builtQos bitrateFromString d).preEmptionCapability=_ at hcap
  change (builtQos bitrateFromString d).preEmptionVulnerability=_ at hvuln
  unfold ArpOf
  rw [hlevel,hcap,hvuln]
  cases d.arp with
  | none => exact (and_iff_left ⟨rfl,rfl⟩).trans lowOctet_exact
  | some arp => exact (and_iff_left ⟨rfl,rfl⟩).trans lowOctet_exact

theorem builtQos_iff {d : QosData} : QosOf bitrateFromString d (builtQos bitrateFromString d) ↔
    Exactly bitrateFromString d := by
  have hrate : ∀ x : Option CStr, x.elim 0 bitrateFromString =
      (x.map bitrateFromString).getD 0 := fun x => by cases x <;> rfl
  have hspec : ∀ x : Option CStr, rateOf bitrateFromString d x=(x.map bitrateFromString).getD
      (if d.maxbrUl=none ∧ d.maxbrDl=none ∧ d.gbrUl=none ∧ d.gbrDl=none then 0
        else maxBitRate) := fun x => by cases x <;> rfl
  have hmap : ∀ x : Option CStr, x.map bitrateFromString=none ↔ x=none :=
    fun x => map_eq_none_iff
  have hrates:=fillRates_iff (a := d.maxbrUl.map bitrateFromString)
    (b := d.maxbrDl.map bitrateFromString) (c := d.gbrUl.map bitrateFromString)
    (e := d.gbrDl.map bitrateFromString)
    (m := if d.maxbrUl=none ∧ d.maxbrDl=none ∧ d.gbrUl=none ∧ d.gbrDl=none then 0
        else maxBitRate) (r := builtQos bitrateFromString d)
    ⟨lowOctet d.fiveQi,lowOctet (d.arp.elim d.priorityLevel Arp.priorityLevel),
      d.arp.elim 0 fun arp => capabilityOf 0 arp.preemptCap,
      d.arp.elim 0 fun arp => vulnerabilityOf 0 arp.preemptVuln,.zero,.zero⟩
    (fun h => if_pos (by simpa only [hmap] using h))
    (fun h => if_neg (by simpa only [hmap] using h))
    (by simp only [builtQos,putRates,Bitrate.zero,hrate])
  rw [← hspec,← hspec,← hspec,← hspec] at hrates
  have hmapped : ∀ P : Option (BitVec 64) → Prop,
      (∀ x∈[d.maxbrUl,d.maxbrDl,d.gbrUl,d.gbrDl].map (Option.map bitrateFromString),P x) ↔
        ∀ x∈[d.maxbrUl,d.maxbrDl,d.gbrUl,d.gbrDl],P (x.map bitrateFromString) :=
    fun P => List.forall_mem_map
  have hfilled:=or_congr (hmapped fun x => x≠some 0) (hmapped fun x => x=some 0)
  have hindex : (builtQos bitrateFromString d).index=lowOctet d.fiveQi := (fillRates_keeps _).1
  constructor
  · intro h
    have hval:=h.index
    rw [hindex] at hval
    exact ⟨lowOctet_exact.mp hval,(builtQos_arp bitrateFromString).mp h.arp,
      hfilled.mp (hrates.mp ⟨h.mbrUplink,h.mbrDownlink,h.gbrUplink,h.gbrDownlink⟩)⟩
  · intro h
    obtain ⟨h1,h2,h3,h4⟩ := hrates.mpr (hfilled.mpr h.rates)
    exact ⟨by rw [hindex]; exact lowOctet_exact.mpr h.index,
      (builtQos_arp bitrateFromString).mpr h.level,h1,h2,h3,h4⟩

theorem flows_built {flows : List (Byte × Option CStr)} (h : ∀ f∈flows,f.2.isSome) :
    (flows.filterMap fun f => f.2.map fun text => (⟨f.1,text⟩ : Flow)).map
      (fun f => (f.direction,some f.description))=flows := by
  induction flows with
  | nil => rfl
  | cons f flows ih =>
    obtain ⟨hhead,htail⟩ := forall_mem_cons.mp h
    obtain ⟨direction,text⟩ := f
    cases text with
    | none => cases hhead
    | some text =>
      exact congrArg (List.cons (direction,some text)) (ih htail)

theorem Wanted.stored_built_iff {w : Wanted} (hfits : w.Fits) :
    w.Stored bitrateFromString (w.built bitrateFromString) ↔
      ∀ rule d,w = .install rule d → Exactly bitrateFromString d := by
  cases w with
  | remove id =>
    refine iff_of_true rfl fun rule d heq => ?_
    cases heq
  | install rule d =>
    have hid : some (rule.pccRuleId.getD ⟨[],not_mem_nil⟩)=rule.pccRuleId := by
      have hsome:=Storable.id hfits
      cases hcase : rule.pccRuleId with
      | none =>
        rw [hcase] at hsome
        cases hsome
      | some id => rfl
    have hflows:=flows_built (Storable.texts hfits)
    constructor
    · rintro ⟨-,-,-,-,hqos⟩ rule' d' heq
      cases heq
      exact (builtQos_iff bitrateFromString).mp hqos
    · intro h
      exact ⟨rfl,hid,rfl,hflows,(builtQos_iff bitrateFromString).mpr (h rule d rfl)⟩

/-- What the entries want is stored, and nothing else, exactly if the decision can be imported. -/
theorem policy_decision_imported (old : List PccRule) (decision : SmPolicyDecision) :
    Gives (updateAuthorizedPccRuleAndQos bitrateFromString old decision)
      (Imported bitrateFromString old decision) ↔ Importable bitrateFromString decision := by
  obtain ⟨pccRules,qosDecs⟩ := decision
  cases pccRules with
  | none => exact iff_of_true (gives_ok.mpr rfl) ⟨nofun,nofun,nofun⟩
  | some entries =>
    unfold updateAuthorizedPccRuleAndQos
    dsimp only
    rw [gives_bind,gives_congr fun s => gives_ok,
      gives_importRules bitrateFromString qosDecs entries ⟨none,[]⟩ (Nat.zero_le _)]
    obtain ⟨-,hnone,heq⟩ := keptRules_wanted qosDecs none entries
    rw [nil_append,length_nil,Nat.zero_add]
    constructor
    · rintro ⟨hfits,hlen,himported⟩
      have hlength : (keptRules qosDecs none entries).length ≤
          (entries.filterMap (wanted qosDecs)).length := by
        have := Forall₂.length_eq himported
        rw [length_map] at this
        exact Nat.le_of_eq this.symm
      have hkept:=heq (hnone hlength)
      rw [hkept] at hfits hlen
      have hstored : ∀ w ∈ entries.filterMap (wanted qosDecs),
          w.Stored bitrateFromString (w.built bitrateFromString) := by
        rw [hkept] at himported
        exact List.forall₂_same.mp (forall₂_map_right_iff.mp himported)
      refine ⟨fun _ h => ?_,fun _ h entry hentry rule d hwant => ?_,fun _ h => ?_⟩
      · cases h
        exact hlen
      · cases h
        have hmem:=mem_filterMap.mpr ⟨entry,hentry,hwant⟩
        have hfit:=hfits _ hmem
        exact ⟨hfit,
          (Wanted.stored_built_iff bitrateFromString hfit).mp (hstored _ hmem) rule d rfl⟩
      · cases h
        exact (hnone hlength).2
    · intro h
      have hkept:=heq ⟨nofun,h.order entries rfl⟩
      have hinstall : ∀ w∈entries.filterMap (wanted qosDecs),w.Fits ∧
          w.Stored bitrateFromString (w.built bitrateFromString) := by
        intro w hw
        obtain ⟨entry,hentry,hwant⟩ := mem_filterMap.mp hw
        cases w with
        | remove id => exact ⟨trivial,rfl⟩
        | install rule d =>
          obtain ⟨hstorable,hexact⟩ := h.storable entries rfl entry hentry rule d hwant
          refine ⟨hstorable,(Wanted.stored_built_iff (w := .install rule d) bitrateFromString
            hstorable).mpr ?_⟩
          intro rule' d' hsame
          cases hsame
          exact hexact
      rw [hkept]
      exact ⟨fun w hw => (hinstall w hw).1,h.count entries rfl,forall₂_map_right_iff.mpr
        (List.forall₂_same.mpr fun w hw => (hinstall w hw).2)⟩

end Built

def asText (s : String) (h : 0∉ascii s := by decide) : CStr := ⟨ascii s,h⟩

def danglingSecond : SmPolicyDecision where
  pccRules := some [
    some ⟨some (asText "r1"),some ⟨some (asText "r1"),10#32,none,some [some (asText "q1")]⟩⟩,
    some ⟨some (asText "r2"),some ⟨some (asText "r2"),20#32,none,some [some (asText "q2")]⟩⟩]
  qosDecs := some [
    some ⟨some (asText "q1"),some ⟨some (asText "q1"),5#32,1#32,none,none,none,none,none⟩⟩]

def signalling : Qos := ⟨5,1,0,0,.zero,.zero⟩

/-- The second rule is stored with the QoS of the first; nine rules are written past the array. -/
theorem dangling_rule_stored :
    updateAuthorizedPccRuleAndQos (fun _ => 0) [] danglingSecond =
      .ok [⟨.install,asText "r1",[],10,signalling⟩,
        ⟨.install,asText "r2",[],20,signalling⟩] ∧
    ¬ Imported (fun _ => 0) [] danglingSecond
      [⟨.install,asText "r1",[],10,signalling⟩,⟨.install,asText "r2",[],20,signalling⟩] ∧
    updateAuthorizedPccRuleAndQos (fun _ => 0) []
      ⟨some (List.replicate 9 (some ⟨some (asText "r1"),none⟩)),none⟩ = .error .write :=
  ⟨rfl,fun h => absurd (Forall₂.length_eq h) (by decide),rfl⟩

end OgsDp.Smf
