import OgsDp.Pfcp.SessionRules

/-!
# When the rule handlers return (lib/pfcp/handler.c)

A handler fails an assertion where an id of the peer finds no room for a rule, where a text is not
compiled, and where an IE has not the length that its decoder expects.
-/

namespace OgsDp.Pfcp
open Lib RefTable OgsDp.Core Outcome Function Option

section Fits

variable (assemble : List (List Byte) → Option IpfwRule) (x : PfcpContext) (s : Nat)

/-- Create PDR: the PDR is known or has room; if its PDI is accepted, the flow descriptions are
compiled, the F-TEID is not empty and the rules that it names are known or have room. -/
def CreatePdrFits (env : Env) (restoration : Bool) (message : Option CreatePdrIe) : Prop :=
  ∀ m∈message,∀ id ∈ m.rule.pdrId,
    ((pdrFind x.rules s id).isSome ∨ x.rules.PdrRoom s) ∧
      ∀ pdi,createPdrCheck env (x.rules.cleared s id) restoration m.rule.pdi = .ok pdi →
        FiltersCompile assemble m.sdfFilter ∧ Context.FTeidTaken pdi ∧
          x.rules.far.RoomFor s m.rule.farId.toList ∧ x.rules.urr.RoomFor s m.rule.urrId ∧
            x.rules.qer.RoomFor s m.rule.qerId.toList

/-- Update PDR: if the PDR is known and the PDI is accepted, the flow descriptions are compiled. -/
def UpdatePdrFits (env : Env) (message : Option UpdatePdrIe) : Prop :=
  ∀ m∈message,∀ p,knownPdr x.rules s m.rule.pdrId = .ok p → ∀ pdi ∈ m.rule.pdi,
    pdi.sourceInterface.isSome → (∀ data∈pdi.localFTeid,fTeidHasAddr env data=true) →
      FiltersCompile assemble m.sdfFilter

def ForwardingParameters.Fits (f : ForwardingParameters) : Prop :=
  f.outerHeaderCreation≠some []

/-- Create FAR and Update FAR: an Outer Header Creation that is read is not empty. -/
def FarFits (needsAction : Bool) (message : Option FarIe) : Prop :=
  ∀ m∈message,∀ r,knownRule .farId x.rules.far s m.farId = .ok r →
    (needsAction=true → m.applyAction.isSome) → ∀ f∈m.forwardingParameters,f.Fits

def droppedLength (flags : Byte) : Nat :=
  1+(if flags.val.testBit 0 then 8 else 0)+(if flags.val.testBit 1 then 8 else 0)

def VolumeAccepted (beyond : Byte) (method : Byte) (ie : Option (List Byte)) : Prop :=
  method.val.testBit 1=true → ∀ octets∈ie,octets.length=(parseVolume beyond octets).2

/-- If the volumes are accepted, a Dropped DL Traffic Threshold is as long as its flags say. -/
def UrrIe.Fits (beyond : Byte) (method : Byte) (m : UrrIe) : Prop :=
  VolumeAccepted beyond method m.volumeThreshold → VolumeAccepted beyond method m.volumeQuota →
    ∀ octets ∈ m.droppedDlTrafficThreshold,
      octets.length=droppedLength (octets.head?.getD beyond)

def CreateUrrFits (env : Env) (message : Option UrrIe) : Prop :=
  ∀ m∈message,∀ r,knownRule .urrId x.rules.urr s m.urrId = .ok r →
    ∀ method∈m.measurementMethod,m.reportingTriggers.isSome → m.Fits env.beyond method

def UpdateUrrFits (env : Env) (message : Option UrrIe) : Prop :=
  ∀ m∈message,∀ r,knownRule .urrId x.rules.urr s m.urrId = .ok r →
    m.Fits env.beyond (m.measurementMethod.getD (x.rules.urr.slot r).body.measMethod)

def QerFits (needsGate : Bool) (message : Option QerIe) : Prop :=
  ∀ m∈message,∀ r,knownRule .qerId x.rules.qer s m.qerId = .ok r →
    (needsGate=true → m.gateStatus.isSome) →
      (∀ octets∈m.maximumBitrate,octets.length=10) ∧
        ∀ octets∈m.guaranteedBitrate,octets.length=10

def CreateBarFits (message : Option (Option Byte)) : Prop :=
  message.join.isSome → (x.bar.bar s).isSome ∨ 0<x.bar.pool.avail

def RuleIe.Fits : RuleIe → Prop
  | .createPdr env restoration m => CreatePdrFits assemble x s env restoration m
  | .updatePdr env m => UpdatePdrFits assemble x s env m
  | .createFar m => FarFits x s true m
  | .updateFar m => FarFits x s false m
  | .createUrr env m => CreateUrrFits x s env m
  | .updateUrr env m => UpdateUrrFits x s env m
  | .createQer m => QerFits x s true m
  | .updateQer m => QerFits x s false m
  | .createBar m => CreateBarFits x s m

end Fits

theorem handleRule_done_iff {α μ : Type} (t : RuleTable α) (type : IeType)
    (id : μ → Option (BitVec 32)) (say : μ → α → Outcome α (Option (Cause × IeType))) (s : Nat)
    (message : Option μ) : Outcome.Done (handleRule type id say t s message) ↔
      ∀ m∈message,∀ r,knownRule type t s (id m) = .ok r →
        Outcome.Done (say m (t.slot r).body) := by
  cases message with
  | none => exact iff_of_true (done_ok _ _) (by simp)
  | some m =>
    simp only [handleRule,mem_def,some.injEq,forall_eq']
    cases knownRule type t s (id m) with
    | error reply => exact iff_of_true (done_ok _ _) (by simp)
    | ok r =>
      simp only [Except.ok.injEq,forall_eq']
      cases say m (t.slot r).body with
      | abort x => exact iff_of_false (not_done_abort _) (not_done_abort _)
      | ok x refused =>
        refine iff_of_true ?_ (done_ok _ _)
        cases refused with
        | none => exact done_ok _ _
        | some refused => exact done_ok _ _

theorem forward_done_iff (f : ForwardingParameters) (y : Far) :
    Outcome.Done (forward f y) ↔ f.Fits := by
  unfold forward ForwardingParameters.Fits
  cases f.outerHeaderCreation with
  | none => exact iff_of_true (done_ok _ _) (by simp)
  | some data =>
    cases data with
    | nil => exact iff_of_false (not_done_abort _) (by simp)
    | cons b data => exact iff_of_true (done_ok _ _) (by simp)

theorem farSay_done_iff (m : FarIe) (y : Far) :
    Outcome.Done (match m.forwardingParameters with
      | none => .ok y none
      | some f => (forward f y).bind fun y _ => .ok y none :
        Outcome Far (Option (Cause × IeType))) ↔ ∀ f∈m.forwardingParameters,f.Fits := by
  cases m.forwardingParameters with
  | none => exact iff_of_true (done_ok _ _) (by simp)
  | some f =>
    simp only [mem_def,some.injEq,forall_eq',← forward_done_iff f y]
    cases forward f y with
    | ok y' r => exact iff_of_true (done_ok _ _) (done_ok _ _)
    | abort y' => exact iff_of_false (not_done_abort _) (not_done_abort _)

theorem handleCreateFar_done_iff (x : PfcpContext) (s : Nat) (message : Option FarIe) :
    Outcome.Done (handleCreateFar x.rules.far s message) ↔ FarFits x s true message := by
  unfold handleCreateFar FarFits
  rw [handleRule_done_iff]
  refine forall₂_congr fun m _ => forall₂_congr fun r _ => ?_
  cases m.applyAction with
  | none => exact iff_of_true (done_ok _ _) (by simp)
  | some a =>
    simp only [isSome_some,implies_true,forall_const]
    exact farSay_done_iff m _

theorem handleUpdateFar_done_iff (x : PfcpContext) (s : Nat) (message : Option FarIe) :
    Outcome.Done (handleUpdateFar x.rules.far s message) ↔ FarFits x s false message := by
  unfold handleUpdateFar FarFits
  rw [handleRule_done_iff]
  refine forall₂_congr fun m _ => forall₂_congr fun r _ => ?_
  simp only [Bool.false_eq_true,false_implies,forall_const]
  exact farSay_done_iff m _

theorem sayVolume_cases (beyond : Byte) (type : IeType) (ie : Option (List Byte))
    (put : Volume → Urr → Urr) (hput : ∀ v y,(put v y).measMethod=y.measMethod) (y : Urr) :
    ∃ y',y'.measMethod=y.measMethod ∧
      ((VolumeAccepted beyond y.measMethod ie ∧ sayVolume beyond type ie put y=(y',none)) ∨
        ¬ VolumeAccepted beyond y.measMethod ie ∧
          ∃ refused,sayVolume beyond type ie put y=(y',some refused)) := by
  unfold sayVolume VolumeAccepted
  cases ie with
  | none => exact ⟨y,rfl,.inl ⟨by simp,rfl⟩⟩
  | some octets =>
    dsimp only
    by_cases hmeasures : measuresVolume y=true
    · rw [if_pos hmeasures]
      have hbit : y.measMethod.val.testBit 1=true := hmeasures
      refine ⟨put (parseVolume beyond octets).1 y,hput _ _,?_⟩
      by_cases hlen : octets.length=(parseVolume beyond octets).2
      · rw [if_pos hlen]
        exact .inl ⟨by simpa using fun _ => hlen,rfl⟩
      · rw [if_neg hlen]
        exact .inr ⟨fun hall => hlen (hall hbit octets rfl),_,rfl⟩
    · rw [if_neg hmeasures]
      exact ⟨y,rfl,.inl ⟨fun hbit => absurd hbit hmeasures,rfl⟩⟩

theorem parseDropped_isSome (beyond : Byte) (octets : List Byte) :
    (parseDroppedDlTrafficThreshold beyond octets).isSome ↔
      octets.length=droppedLength (octets.head?.getD beyond) := by
  by_cases hlen : droppedLength (octets.head?.getD beyond)=octets.length
  · refine iff_of_true ?_ hlen.symm
    unfold parseDroppedDlTrafficThreshold
    exact congrArg Option.isSome (if_pos hlen)
  · refine iff_of_false ?_ fun he => hlen he.symm
    have hnone : parseDroppedDlTrafficThreshold beyond octets=none := if_neg hlen
    simp [hnone]

theorem sayUrr_done_iff (beyond : Byte) (m : UrrIe) (y : Urr) :
    Outcome.Done (sayUrr beyond m y) ↔ m.Fits beyond y.measMethod := by
  unfold sayUrr UrrIe.Fits
  dsimp only
  generalize hy : ({ y with measPeriod := m.measurementPeriod.getD y.measPeriod } : Urr)=z
  have hz : z.measMethod=y.measMethod := by rw [← hy]
  rw [← hz]
  obtain ⟨y₁,hy₁,hthreshold⟩ := sayVolume_cases beyond .volumeThreshold m.volumeThreshold
    (fun v x => { x with volThreshold := v }) (fun _ _ => rfl) z
  rcases hthreshold with ⟨hok,hsay⟩ | ⟨hno,refused,hsay⟩
  · obtain ⟨y₂,hy₂,hquota⟩ := sayVolume_cases beyond .volumeQuota m.volumeQuota
      (fun v x => { x with volQuota := v }) (fun _ _ => rfl) y₁
    rw [hy₁] at hquota
    rw [hsay]
    dsimp only
    rcases hquota with ⟨hok',hsay'⟩ | ⟨hno',refused,hsay'⟩
    · rw [hsay']
      dsimp only
      simp only [hok,hok',true_implies]
      cases m.droppedDlTrafficThreshold with
      | none => exact iff_of_true (done_ok _ _) (by simp)
      | some octets =>
        simp only [mem_def,some.injEq,forall_eq',
          ← parseDropped_isSome beyond octets]
        cases parseDroppedDlTrafficThreshold beyond octets with
        | none => exact iff_of_false (not_done_abort _) (by simp)
        | some d => exact iff_of_true (done_ok _ _) rfl
    · rw [hsay']
      exact iff_of_true (done_ok _ _) fun _ hacc => absurd hacc hno'
  · rw [hsay]
    exact iff_of_true (done_ok _ _) fun hacc => absurd hacc hno

theorem handleCreateUrr_done_iff (env : Env) (x : PfcpContext) (s : Nat)
    (message : Option UrrIe) :
    Outcome.Done (handleCreateUrr env x.rules.urr s message) ↔ CreateUrrFits x s env message := by
  unfold handleCreateUrr CreateUrrFits
  rw [handleRule_done_iff]
  refine forall₂_congr fun m _ => forall₂_congr fun r _ => ?_
  cases m.measurementMethod with
  | none => exact iff_of_true (done_ok _ _) (by simp)
  | some method =>
    simp only [mem_def,some.injEq,forall_eq']
    cases m.reportingTriggers with
    | none => exact iff_of_true (done_ok _ _) (by simp)
    | some v =>
      simp only [isSome_some,true_implies]
      exact sayUrr_done_iff env.beyond m _

theorem handleUpdateUrr_done_iff (env : Env) (x : PfcpContext) (s : Nat)
    (message : Option UrrIe) :
    Outcome.Done (handleUpdateUrr env x.rules.urr s message) ↔ UpdateUrrFits x s env message := by
  unfold handleUpdateUrr UpdateUrrFits
  rw [handleRule_done_iff]
  refine forall₂_congr fun m _ => forall₂_congr fun r _ => ?_
  exact sayUrr_done_iff env.beyond m _

theorem parseBitrate_cases (octets : List Byte) :
    (octets.length=10 ∧ ∃ v,parseBitrate octets=some v) ∨
      octets.length≠10 ∧ parseBitrate octets=none := by
  unfold parseBitrate
  by_cases hlen : octets.length=10
  · exact .inl ⟨hlen,_,if_pos hlen⟩
  · exact .inr ⟨hlen,if_neg hlen⟩

theorem bitrate_cases (ie : Option (List Byte)) :
    ie=none ∨ (∃ octets v,ie=some octets ∧ octets.length=10 ∧ parseBitrate octets=some v) ∨
      ∃ octets,ie=some octets ∧ octets.length≠10 ∧ parseBitrate octets=none := by
  cases ie with
  | none => exact .inl rfl
  | some octets =>
    rcases parseBitrate_cases octets with ⟨hlen,v,hv⟩ | ⟨hlen,hv⟩
    · exact .inr (.inl ⟨octets,v,rfl,hlen,hv⟩)
    · exact .inr (.inr ⟨octets,rfl,hlen,hv⟩)

theorem sayBitrates_done_iff (m : QerIe) (y : Qer) : (sayBitrates m y).Done ↔
    (∀ octets∈m.maximumBitrate,octets.length=10) ∧
      ∀ octets∈m.guaranteedBitrate,octets.length=10 := by
  unfold sayBitrates
  rcases bitrate_cases m.maximumBitrate with hm | ⟨a,v,hm,ha,hv⟩ | ⟨a,hm,ha,hv⟩
  · rcases bitrate_cases m.guaranteedBitrate with hg | ⟨b,w,hg,hb,hw⟩ | ⟨b,hg,hb,hw⟩
    · simp only [hm,hg]
      exact iff_of_true (done_ok _ _) (by simp)
    · simp only [hm,hg,hw]
      exact iff_of_true (done_ok _ _) (by simp [hb])
    · simp only [hm,hg,hw]
      exact iff_of_false (not_done_abort _) (by simp [hb])
  · rcases bitrate_cases m.guaranteedBitrate with hg | ⟨b,w,hg,hb,hw⟩ | ⟨b,hg,hb,hw⟩
    · simp only [hm,hg,hv]
      exact iff_of_true (done_ok _ _) (by simp [ha])
    · simp only [hm,hg,hv,hw]
      exact iff_of_true (done_ok _ _) (by simp [ha,hb])
    · simp only [hm,hg,hv,hw]
      exact iff_of_false (not_done_abort _) (by simp [hb])
  · simp only [hm,hv]
    exact iff_of_false (not_done_abort _) (by simp [ha])

theorem qerSay_done_iff (m : QerIe) (y : Qer) (f : Qer → Qer) :
    Outcome.Done ((sayBitrates m y).bind fun z _ =>
      (.ok (f z) none : Outcome Qer (Option (Cause × IeType)))) ↔
        (∀ octets∈m.maximumBitrate,octets.length=10) ∧
          ∀ octets∈m.guaranteedBitrate,octets.length=10 := by
  rw [← sayBitrates_done_iff m y]
  cases sayBitrates m y with
  | ok z r => exact iff_of_true (done_ok _ _) (done_ok _ _)
  | abort z => exact iff_of_false (not_done_abort _) (not_done_abort _)

theorem handleCreateQer_done_iff (x : PfcpContext) (s : Nat) (message : Option QerIe) :
    Outcome.Done (handleCreateQer x.rules.qer s message) ↔ QerFits x s true message := by
  unfold handleCreateQer QerFits
  rw [handleRule_done_iff]
  refine forall₂_congr fun m _ => forall₂_congr fun r _ => ?_
  cases m.gateStatus with
  | none => exact iff_of_true (done_ok _ _) (by simp)
  | some g =>
    simp only [isSome_some,implies_true,forall_const]
    exact qerSay_done_iff m _ _

theorem handleUpdateQer_done_iff (x : PfcpContext) (s : Nat) (message : Option QerIe) :
    Outcome.Done (handleUpdateQer x.rules.qer s message) ↔ QerFits x s false message := by
  unfold handleUpdateQer QerFits
  rw [handleRule_done_iff]
  refine forall₂_congr fun m _ => forall₂_congr fun r _ => ?_
  simp only [Bool.false_eq_true,false_implies,forall_const]
  exact qerSay_done_iff m _ _

/-- What is left of `handleCreatePdr` when the request has passed its checks. -/
def PfcpContext.createPdrRules (x : PfcpContext) (assemble : List (List Byte) → Option IpfwRule)
    (s p : Nat) (pdi : Pdi) (m : CreatePdrIe) : Outcome PfcpContext Reply :=
  (x.setFilters assemble s p (pdi.sourceInterface.getD 0) m.sdfFilter).bind fun x _ =>
    ((createPdrPdi x.rules p pdi).mapState x.setRules).bind fun x _ =>
      ((createPdrFar x.rules s p m.rule.farId).mapState x.setRules).bind fun x _ =>
        ((createPdrUrr s p (x.rules.modify p fun y => { y with urr := [] })
          m.rule.urrId).mapState x.setRules).bind fun x _ =>
            ((createPdrQer x.rules s p m.rule.qerId).mapState x.setRules).bind fun x _ =>
              .ok x (.rule p)

namespace PfcpContext.Stocked

variable {assemble : List (List Byte) → Option IpfwRule} {x : PfcpContext} {L : Nat → Prop}
  {s p : Nat}

theorem setFilters (h : x.Stocked L) (assemble : List (List Byte) → Option IpfwRule)
    (hp : p∈x.rules.pdrList s) (srcIf : Byte)
    (sdfFilter : List (List Byte)) :
    (FiltersCompile assemble sdfFilter ∧
      ∃ y,x.setFilters assemble s p srcIf sdfFilter = .ok y () ∧ y.Stocked L ∧
        y.rules=x.rules) ∨
      ¬ FiltersCompile assemble sdfFilter ∧
        ∃ y,x.setFilters assemble s p srcIf sdfFilter = .abort y := by
  have hlt : p<x.rules.pdrPool.size := h.rules.pdrs.nodes.lt_size ⟨s,hp⟩
  have hothers:=FlowRules.setFilters_others assemble (x.rules.pdrList s) srcIf p x.flow sdfFilter
  unfold PfcpContext.setFilters
  rcases FlowRules.setFilters_iff assemble (x.rules.pdrList s) srcIf h.flow hlt sdfFilter with
    ⟨hok,t,ht,hstock⟩ | ⟨hno,t,ht⟩
  · rw [ht] at hothers ⊢
    refine .inl ⟨hok,_,rfl,⟨h.rules,hstock,?_,h.bars⟩,rfl⟩
    intro q hq
    have hne : q≠p := fun he => hq ⟨s,he ▸ hp⟩
    exact (hothers q hne).trans (h.flowOf q hq)
  · rw [ht]
    exact .inr ⟨hno,_,rfl⟩

theorem createPdr (h : x.Stocked L) (assemble : List (List Byte) → Option IpfwRule)
    (hp : p∈x.rules.pdrList s) (pdi : Pdi) (m : CreatePdrIe) :
    let fits:=FiltersCompile assemble m.sdfFilter ∧ Context.FTeidTaken pdi ∧
      x.rules.far.RoomFor s m.rule.farId.toList ∧ x.rules.urr.RoomFor s m.rule.urrId ∧
        x.rules.qer.RoomFor s m.rule.qerId.toList
    let o:=x.createPdrRules assemble s p pdi m
    (fits ∧ ∃ y,o = .ok y (.rule p) ∧ y.Stocked L) ∨ ¬ fits ∧ ∃ y,o = .abort y := by
  dsimp only [createPdrRules]
  rcases h.setFilters assemble hp (pdi.sourceInterface.getD 0) m.sdfFilter with
    ⟨hflow,x₁,hx₁,h₁,hrules₁⟩ | ⟨hno,x₁,hx₁⟩
  · rw [hx₁,Outcome.bind_ok]
    rcases Context.createPdrPdi_iff x₁.rules p pdi with
      ⟨hpdi,c₂,hc₂,hsame₂,hfar₂,hurr₂,hqer₂⟩ | ⟨hno,c₂,hc₂⟩
    · have h₂ : (x₁.setRules c₂).Stocked L := h₁.congr hsame₂
      rw [hc₂,Outcome.mapState,Outcome.bind_ok]
      rcases Context.createPdrFar_iff h₂.rules s p m.rule.farId with
        ⟨hfar,c₃,hc₃,hstock₃,hlisted₃,hurr₃,hqer₃⟩ | ⟨hno,c₃,hc₃⟩
      · have h₃ : ((x₁.setRules c₂).setRules c₃).Stocked L := h₂.setListed hstock₃ hlisted₃
        have hclear:=Context.sameNodes_modify c₃ p (f := fun y => { y with urr := [] })
          fun _ => ⟨rfl,rfl,rfl⟩
        have hlen : ((c₃.modify p fun y => { y with urr := [] }).pdr p).urr.length +
            m.rule.urrId.length ≤ maxNumOfUrr := by
          have hurrIds:=m.urrIds
          simp only [Context.modify,update_self,List.length_nil,maxNumOfUrr]
          omega
        rw [hc₃,Outcome.mapState,Outcome.bind_ok]
        rcases Context.createPdrUrr_iff s p m.rule.urrId (hstock₃.congr hclear) hlen with
          ⟨hurr,c₄,hc₄,hstock₄,hlisted₄,hqer₄⟩ | ⟨hno,c₄,hc₄⟩
        · have h₄ : (((x₁.setRules c₂).setRules c₃).setRules c₄).Stocked L :=
            h₃.setListed hstock₄ (hclear.listed.trans hlisted₄)
          have hc₄' : createPdrUrr s p (((x₁.setRules c₂).setRules c₃).rules.modify p
              fun y => { y with urr := [] }) m.rule.urrId = .ok c₄ () := hc₄
          rw [hc₄',Outcome.mapState,Outcome.bind_ok]
          rcases Context.createPdrQer_iff hstock₄ s p m.rule.qerId with
            ⟨hqer,c₅,hc₅,hstock₅,hlisted₅⟩ | ⟨hno,c₅,hc₅⟩
          · have hc₅' : createPdrQer (((x₁.setRules c₂).setRules c₃).setRules c₄).rules s p
                m.rule.qerId = .ok c₅ () := hc₅
            rw [hc₅']
            refine .inl ⟨⟨hflow,hpdi,?_,?_,?_⟩,_,rfl,h₄.setListed hstock₅ hlisted₅⟩
            · rw [← hrules₁,← hfar₂]
              exact hfar
            · rw [← hrules₁,← hurr₂,← show c₃.urr=c₂.urr from hurr₃]
              exact hurr
            · rw [← hrules₁,← hqer₂,← show c₃.qer=c₂.qer from hqer₃,
                ← show c₄.qer=c₃.qer from hqer₄]
              exact hqer
          · have hc₅' : createPdrQer (((x₁.setRules c₂).setRules c₃).setRules c₄).rules s p
                m.rule.qerId = .abort c₅ := hc₅
            rw [hc₅']
            refine .inr ⟨fun hall => hno ?_,_,rfl⟩
            rw [show c₄.qer=c₃.qer from hqer₄,show c₃.qer=c₂.qer from hqer₃,hqer₂,hrules₁]
            exact hall.2.2.2.2
        · have hc₄' : createPdrUrr s p (((x₁.setRules c₂).setRules c₃).rules.modify p
              fun y => { y with urr := [] }) m.rule.urrId = .abort c₄ := hc₄
          rw [hc₄']
          refine .inr ⟨fun hall => hno ?_,_,rfl⟩
          rw [show (c₃.modify p fun y => { y with urr := [] }).urr=c₂.urr from hurr₃,hurr₂,
            hrules₁]
          exact hall.2.2.2.1
      · rw [hc₃]
        refine .inr ⟨fun hall => hno ?_,_,rfl⟩
        rw [show (x₁.setRules c₂).rules.far=x₁.rules.far from hfar₂,hrules₁]
        exact hall.2.2.1
    · rw [hc₂]
      exact .inr ⟨fun hall => hno hall.2.1,_,rfl⟩
  · rw [hx₁]
    exact .inr ⟨fun hall => hno hall.1,_,rfl⟩

theorem handleCreatePdr (h : x.Stocked L) (env : Env) (s : Nat) (restoration : Bool)
    (message : Option CreatePdrIe) :
    (CreatePdrFits assemble x s env restoration message ∧
      ∃ y r,x.handleCreatePdr assemble env s restoration message = .ok y r ∧ y.Stocked L) ∨
      ¬ CreatePdrFits assemble x s env restoration message ∧
        ∃ y,x.handleCreatePdr assemble env s restoration message = .abort y := by
  cases message with
  | none => exact .inl ⟨fun m hm => (by cases hm),x,_,rfl,h⟩
  | some m =>
    simp only [PfcpContext.handleCreatePdr,CreatePdrFits,mem_def,some.injEq,
      forall_eq']
    cases m.rule.pdrId with
    | none => exact .inl ⟨fun id hid => (by cases hid),x,_,rfl,h⟩
    | some id =>
      simp only [some.injEq,forall_eq']
      rcases h.rules.pdrFindOrAdd s id with ⟨hroom,c₁,p,hc₁,hready⟩ | ⟨hno,c₁,hc₁⟩
      · have hready':=hready.reorder m.rule.precedence
        rw [hc₁,Outcome.mapState,Outcome.bind_ok]
        dsimp only [PfcpContext.setRules]
        generalize m.rule.precedence.elim c₁ (pdrReorderByPrecedence c₁ p)=c₂ at hready' ⊢
        have h₂ : (x.setRules c₂).Stocked L := h.setRules hready'.stocked hready'.listed hready'.size
        rw [createPdrCheck_congr hready'.find]
        cases createPdrCheck env (x.rules.cleared s id) restoration m.rule.pdi with
        | error reply => exact .inl ⟨⟨hroom,fun pdi hpdi => (by cases hpdi)⟩,_,_,rfl,h₂⟩
        | ok pdi =>
          simp only [Except.ok.injEq,forall_eq']
          rcases h₂.createPdr assemble hready'.mem pdi m with
            ⟨hfits,y,hy,hstock⟩ | ⟨hno,y,hy⟩
          · refine .inl ⟨⟨hroom,?_⟩,y,_,hy,hstock⟩
            rw [← hready'.far,← hready'.urr,← hready'.qer]
            exact hfits
          · refine .inr ⟨fun hall => hno ?_,y,hy⟩
            have hfits:=hall.2
            rw [← hready'.far,← hready'.urr,← hready'.qer] at hfits
            exact hfits
      · rw [hc₁]
        exact .inr ⟨fun hall => hno hall.1,_,rfl⟩

theorem knownPdr_mem {c : Context} {id : Option (BitVec 16)} (h : knownPdr c s id = .ok p) :
    p∈c.pdrList s := by
  cases id with
  | none => cases h
  | some id =>
    cases hfind : pdrFind c s id with
    | none => simp [knownPdr,hfind] at h
    | some q =>
      simp only [knownPdr,hfind,Except.ok.injEq] at h
      exact h ▸ pdrFind_mem hfind

theorem handleUpdatePdr (h : x.Stocked L) (env : Env) (s : Nat) (message : Option UpdatePdrIe) :
    (UpdatePdrFits assemble x s env message ∧
      ∃ y r,x.handleUpdatePdr assemble env s message = .ok y r ∧ y.Stocked L) ∨
      ¬ UpdatePdrFits assemble x s env message ∧
        ∃ y,x.handleUpdatePdr assemble env s message = .abort y := by
  cases message with
  | none => exact .inl ⟨fun m hm => (by cases hm),x,_,rfl,h⟩
  | some m =>
    simp only [PfcpContext.handleUpdatePdr,UpdatePdrFits,mem_def,some.injEq,
      forall_eq']
    cases hknown : knownPdr x.rules s m.rule.pdrId with
    | error reply => exact .inl ⟨fun p hp => (by cases hp),x,_,rfl,h⟩
    | ok p =>
      have hp:=knownPdr_mem hknown
      simp only [Except.ok.injEq,forall_eq']
      cases m.rule.pdi with
      | none => exact .inl ⟨fun pdi hpdi => (by cases hpdi),x,_,rfl,h⟩
      | some pdi =>
        simp only [some.injEq,forall_eq']
        cases hsource : pdi.sourceInterface with
        | none => exact .inl ⟨fun hno => (by cases hno),x,_,rfl,h⟩
        | some srcIf =>
          simp only [isNone_some,Bool.false_eq_true,if_false,isSome_some,
            true_implies]
          by_cases haddr : ∀ data,pdi.localFTeid=some data → fTeidHasAddr env data=true
          · have hany : (pdi.localFTeid.any fun data => !fTeidHasAddr env data)=false := by
              cases hdata : pdi.localFTeid with
              | none => rfl
              | some data => simp [haddr data hdata]
            simp only [hany,Bool.false_eq_true,if_false]
            have hsame:=Context.sameNodes_modify x.rules p (f := fun y => { y with
              srcIf := (some srcIf).getD 0
              srcIfType := pdi.sourceInterfaceType.or y.srcIfType }) fun _ => ⟨rfl,rfl,rfl⟩
            have h₁:=h.congr hsame
            rcases h₁.setFilters assemble (p := p) hp ((some srcIf).getD 0)
              m.sdfFilter with ⟨hflow,y,hy,hstock,-⟩ | ⟨hno,y,hy⟩
            · rw [hy]
              refine .inl ⟨fun _ => hflow,_,_,rfl,hstock.congr ?_⟩
              refine Context.sameNodes_modify y.rules p ?_
              cases pdi.localFTeid with
              | none => exact fun _ => ⟨rfl,rfl,rfl⟩
              | some data => simp [overlayFTeid]
            · rw [hy]
              exact .inr ⟨fun hall => hno (hall haddr),_,rfl⟩
          · have hany : (pdi.localFTeid.any fun data => !fTeidHasAddr env data)=true := by
              cases hdata : pdi.localFTeid with
              | none => simp [hdata] at haddr
              | some data =>
                rw [hdata] at haddr
                simpa using haddr
            simp only [hany,if_true]
            exact .inl ⟨fun hall => absurd hall haddr,x,_,rfl,h⟩

theorem ofRules {α : Type} {o : Outcome (RuleTable α) Reply} {fits : Prop}
    {set : RuleTable α → PfcpContext} (hdone : o.Done ↔ fits)
    (hset : o.Returns fun t _ => (set t).Stocked L) :
    (fits ∧ ∃ y r,o.mapState set = .ok y r ∧ y.Stocked L) ∨
      ¬ fits ∧ ∃ y,o.mapState set = .abort y := by
  cases o with
  | ok t r => exact .inl ⟨hdone.mp (done_ok t r),_,_,rfl,hset⟩
  | abort t => exact .inr ⟨fun hfits => not_done_abort t (hdone.mpr hfits),_,rfl⟩

theorem setFar (h : x.Stocked L) {t : RuleTable Far} (ht : t.shelf=x.rules.far.shelf) :
    (x.setRules { x.rules with far := t }).Stocked L :=
  h.congr ⟨.refl _,rfl,fun _ _ _ => rfl,ht,rfl,rfl⟩

theorem setUrr (h : x.Stocked L) {t : RuleTable Urr} (ht : t.shelf=x.rules.urr.shelf) :
    (x.setRules { x.rules with urr := t }).Stocked L :=
  h.congr ⟨.refl _,rfl,fun _ _ _ => rfl,rfl,ht,rfl⟩

theorem setQer (h : x.Stocked L) {t : RuleTable Qer} (ht : t.shelf=x.rules.qer.shelf) :
    (x.setRules { x.rules with qer := t }).Stocked L :=
  h.congr ⟨.refl _,rfl,fun _ _ _ => rfl,rfl,rfl,ht⟩

theorem handle (h : x.Stocked L) (assemble : List (List Byte) → Option IpfwRule) (s : Nat)
    (ie : RuleIe) :
    (ie.Fits assemble x s ∧ ∃ y r,x.handle assemble s ie = .ok y r ∧ y.Stocked L) ∨
      ¬ ie.Fits assemble x s ∧ ∃ y,x.handle assemble s ie = .abort y := by
  cases ie with
  | createPdr env restoration m => exact h.handleCreatePdr env s restoration m
  | updatePdr env m => exact h.handleUpdatePdr env s m
  | createFar m =>
    exact ofRules (handleCreateFar_done_iff x s m)
      ((x.rules.far.handleRule_shelf _ _ _ s m).mono fun t _ ht => h.setFar ht)
  | updateFar m =>
    exact ofRules (handleUpdateFar_done_iff x s m)
      ((x.rules.far.handleRule_shelf _ _ _ s m).mono fun t _ ht => h.setFar ht)
  | createUrr env m =>
    exact ofRules (handleCreateUrr_done_iff env x s m)
      ((x.rules.urr.handleRule_shelf _ _ _ s m).mono fun t _ ht => h.setUrr ht)
  | updateUrr env m =>
    exact ofRules (handleUpdateUrr_done_iff env x s m)
      ((x.rules.urr.handleRule_shelf _ _ _ s m).mono fun t _ ht => h.setUrr ht)
  | createQer m =>
    exact ofRules (handleCreateQer_done_iff x s m)
      ((x.rules.qer.handleRule_shelf _ _ _ s m).mono fun t _ ht => h.setQer ht)
  | updateQer m =>
    exact ofRules (handleUpdateQer_done_iff x s m)
      ((x.rules.qer.handleRule_shelf _ _ _ s m).mono fun t _ ht => h.setQer ht)
  | createBar m =>
    rcases h.bars.handleCreateBar s m with ⟨hfits,t,r,ht,hstock⟩ | ⟨hno,t,ht⟩
    · refine .inl ⟨hfits,x.setBar t,r,?_,h.rules,h.flow,h.flowOf,hstock⟩
      exact congrArg (Outcome.mapState x.setBar) ht
    · exact .inr ⟨hno,x.setBar t,congrArg (Outcome.mapState x.setBar) ht⟩

end PfcpContext.Stocked

/-- The call does not add a PDR to a session without a free id, for which a PDR and a TEID node
would be drawn first. -/
def PfcpOp.ReturnsTeid (x : PfcpContext) : PfcpOp → Prop
  | .rules (.pdrAdd s) => x.rules.pdrPool.avail=0 ∨ 0<(x.rules.pdrIdPool s).avail
  | _ => True

instance (x : PfcpContext) : ∀ op,Decidable (PfcpOp.ReturnsTeid x op)
  | .rules (.pdrAdd _) => inferInstanceAs (Decidable (_ ∨ _))
  | .rules (.pdrFindOrAdd ..) => isTrue trivial
  | .rules (.pdrRemove ..) => isTrue trivial
  | .rules (.pdrSwapTeid ..) => isTrue trivial
  | .rules (.objectTeidHashSet ..) => isTrue trivial
  | .rules (.handleCreatePdr ..) => isTrue trivial
  | .rules (.handleCreatedPdr ..) => isTrue trivial
  | .rules (.handleUpdatePdr ..) => isTrue trivial
  | .rules (.handleRemovePdr ..) => isTrue trivial
  | .rules (.far _) => isTrue trivial
  | .rules (.handleUpdateFarFlags ..) => isTrue trivial
  | .rules (.urr ..) => isTrue trivial
  | .rules (.qer _) => isTrue trivial
  | .handle .. => isTrue trivial
  | .barNew _ => isTrue trivial
  | .barDelete _ => isTrue trivial
  | .handleRemoveBar .. => isTrue trivial

structure Context.Steps (L : Nat → Prop) (c : Context) (removed : Option Nat) (returnsTeid : Prop)
    (c' : Context) : Prop where
  stocked : ∃ M,c'.Stocked M ∧ (returnsTeid → M=L)
  kept : ∀ s,∀ p∈c.pdrList s,removed≠some p → p∈c'.pdrList s
  removed : ∀ p∈removed,c.Listed p
  size : c'.pdrPool.size=c.pdrPool.size

namespace Context.Stocked

variable {c c' : Context} {L : Nat → Prop} {P : Prop} {s p : Nat}

theorem stepsSame (h : c.Stocked L) (hc : c.SameNodes c') : c.Steps L none P c' where
  stocked := ⟨L,h.congr hc,fun _ => rfl⟩
  kept := fun s p hp _ => (hc.listed.list s p).mpr hp
  removed := fun _ hp => by cases hp
  size := hc.listed.size

theorem stepsRules (h : c'.Stocked L) (hlist : c'.pdrList=c.pdrList)
    (hpool : c'.pdrPool=c.pdrPool) : c.Steps L none P c' where
  stocked := ⟨L,h,fun _ => rfl⟩
  kept := fun s p hp _ => hlist ▸ hp
  removed := fun _ hp => by cases hp
  size := congrArg Pool.size hpool

theorem stepsRemove (h : c.Stocked L) (hp : p∈c.pdrList s) :
    c.Steps L (some p) P (Pfcp.pdrRemove c p) := by
  obtain ⟨h',hsize,hmem⟩ := h.pdrRemove hp
  refine ⟨⟨L,h',fun _ => rfl⟩,?_,?_,hsize⟩
  · exact fun s' p' hp' hne => (hmem s' p').mpr ⟨hp',fun he => hne (by rw [he])⟩
  · intro q hq
    cases hq
    exact ⟨s,hp⟩

theorem step (h : c.Stocked L) {op : Op} (hop : op.handlesPdi=false)
    {o : Outcome Context Reply} (ho : c.step op=some o) :
    o.Returns fun c' _ => c.Steps L (op.removedPdr c)
      (∀ s,op = .pdrAdd s → c.pdrPool.avail=0 ∨ 0<(c.pdrIdPool s).avail) c' := by
  cases op with
  | pdrAdd s =>
    simp only [Context.step,some.injEq] at ho
    rw [← ho]
    rcases h.pdrAdd s with ⟨-,hadd⟩ | ⟨-,c',hadd⟩ | ⟨-,hpool,hid,c',k,hadd,h',hlist,hsize⟩ |
      ⟨-,c',p,hadd,h',hadded⟩
    · rw [hadd]
      exact h.stepsSame (.refl c)
    · rw [hadd]
      trivial
    · rw [hadd]
      refine ⟨⟨_,h',fun hreturns => ?_⟩,?_,?_,hsize⟩
      · rcases hreturns s rfl with hno | hno
        · exact absurd hno hpool
        · omega
      · intro s' p hp _
        rw [hlist]
        exact hp
      · intro p hp
        cases hp
    · rw [hadd]
      refine ⟨⟨L,h',fun _ => rfl⟩,?_,?_,hadded.size⟩
      · intro s' p' hp' _
        rw [hadded.list]
        exact mem_update_append.mpr (.inl hp')
      · intro p hp
        cases hp
  | pdrFindOrAdd s id =>
    simp only [Context.step,some.injEq] at ho
    rw [← ho]
    rcases h.pdrFindOrAdd s id with ⟨-,c',p,hadd,hready⟩ | ⟨-,c',hadd⟩
    · rw [hadd]
      refine ⟨⟨L,hready.stocked,fun _ => rfl⟩,fun s p hp _ => hready.listed s p hp,?_,
        hready.size⟩
      intro p hp
      cases hp
    · rw [hadd]
      trivial
  | pdrRemove s p =>
    simp only [Context.step,ite_none_right_eq_some,some.injEq] at ho
    exact ho.2 ▸ h.stepsRemove ho.1
  | pdrSwapTeid s p =>
    simp only [Context.step,ite_none_right_eq_some,some.injEq] at ho
    exact ho.2 ▸ (swapTeid_sameNodes c p).bind fun c' _ h' => h.stepsSame h'
  | objectTeidHashSet env type s p =>
    simp only [Context.step,ite_none_right_eq_some,some.injEq] at ho
    rw [← ho.2]
    refine Outcome.Returns.bind (R := fun c' _ => c.SameNodes c') ?_ fun c' _ h' => h.stepsSame h'
    exact (chooseFTeid_sameNodes env c p).bind fun c' _ h' =>
      h'.trans (setTeid_sameNodes type c' p)
  | handleCreatePdr env s restoration m => cases hop
  | handleCreatedPdr env s m =>
    simp only [Context.step,some.injEq] at ho
    exact ho ▸ (handleCreatedPdr_sameNodes env c s m).mono fun c' _ h' => h.stepsSame h'
  | handleUpdatePdr env s m => cases hop
  | handleRemovePdr s m =>
    simp only [Context.step,some.injEq] at ho
    rw [← ho]
    cases m with
    | none => exact h.stepsSame (.refl c)
    | some id =>
      cases id with
      | none => exact h.stepsSame (.refl c)
      | some id =>
        simp only [Pfcp.handleRemovePdr,Op.removedPdr]
        cases hfind : pdrFind c s id with
        | none => exact h.stepsSame (.refl c)
        | some p => exact h.stepsRemove (pdrFind_mem hfind)
  | far op =>
    simp only [Context.step,map_eq_some_iff] at ho
    obtain ⟨o',ho',rfl⟩ := ho
    exact Outcome.Returns.mapState
      ((farStep_stocked h.far ho').mono fun t _ ht => (h.setFar ht).stepsRules rfl rfl)
  | handleUpdateFarFlags s m =>
    simp only [Context.step,some.injEq] at ho
    rw [← ho]
    refine Outcome.Returns.mapState ((c.far.handleRule_shelf _ _ _ s m).mono fun t _ ht => ?_)
    exact h.stepsSame ⟨.refl _,rfl,fun _ _ _ => rfl,ht,rfl,rfl⟩
  | urr env op =>
    simp only [Context.step,map_eq_some_iff] at ho
    obtain ⟨o',ho',rfl⟩ := ho
    exact Outcome.Returns.mapState
      ((urrStep_stocked h.urr ho').mono fun t _ ht => (h.setUrr ht).stepsRules rfl rfl)
  | qer op =>
    simp only [Context.step,map_eq_some_iff] at ho
    obtain ⟨o',ho',rfl⟩ := ho
    exact Outcome.Returns.mapState
      ((qerStep_stocked h.qer ho').mono fun t _ ht => (h.setQer ht).stepsRules rfl rfl)

end Context.Stocked

namespace PfcpContext

variable {assemble : List (List Byte) → Option IpfwRule} {x y : PfcpContext} {L : Nat → Prop}

theorem Stocked.stepRules {removed : Option Nat} {P : Prop} {c : Context} (h : x.Stocked L)
    (hc : x.rules.Steps L removed P c) :
    ∃ M,Stocked M { x with rules := c,flow := removed.elim x.flow x.flow.removeAll } ∧
      (P → M=L) := by
  obtain ⟨M,hM,hreturns⟩ := hc.stocked
  refine ⟨M,⟨hM,?_,?_,h.bars⟩,hreturns⟩
  · dsimp only
    rw [hc.size]
    cases hr : removed with
    | none => exact h.flow
    | some p =>
      obtain ⟨s,hs⟩ := hc.removed p hr
      exact h.flow.removeAll (h.rules.pdrs.nodes.lt_size ⟨s,hs⟩)
  · intro q hq
    have hkeep : ∀ p,removed=some p ∨ ¬ x.rules.Listed p ∨ c.Listed p := by
      intro p
      by_cases hp : removed=some p
      · exact .inl hp
      · refine .inr ?_
        by_cases hl : x.rules.Listed p
        · obtain ⟨s,hs⟩ := hl
          exact .inr ⟨s,hc.kept s p hs hp⟩
        · exact .inl hl
    rcases hkeep q with rfl | hno | hyes
    · exact update_self ..
    · cases hr : removed with
      | none => exact h.flowOf q hno
      | some p =>
        have hne : q≠p := by
          rintro rfl
          exact hno (hc.removed q hr)
        exact (update_of_ne hne _ _).trans (h.flowOf q hno)
    · exact absurd hyes hq

theorem Stocked.step (h : x.Stocked L) {op : PfcpOp} {o : Outcome PfcpContext Reply}
    (ho : x.step assemble op=some o) :
    o.Returns fun y _ => ∃ M,y.Stocked M ∧ (op.ReturnsTeid x → M=L) := by
  cases op with
  | rules op =>
    simp only [PfcpContext.step] at ho
    cases hop : op.handlesPdi with
    | true => simp [hop] at ho
    | false =>
      simp only [hop,Bool.false_eq_true,if_false,map_eq_some_iff] at ho
      obtain ⟨o',ho',rfl⟩ := ho
      refine Outcome.Returns.mapState ((h.rules.step hop ho').mono fun c _ hc => ?_)
      obtain ⟨M,hM,hreturns⟩ := h.stepRules hc
      refine ⟨M,hM,fun hr => hreturns fun s hs => ?_⟩
      subst hs
      exact hr
  | handle s ie =>
    rw [← some.inj ho]
    rcases h.handle assemble s ie with ⟨-,y,r,hy,hstock⟩ | ⟨-,y,hy⟩
    · rw [hy]
      exact ⟨L,hstock,fun _ => rfl⟩
    · rw [hy]
      trivial
  | barNew s =>
    rw [← some.inj ho]
    rcases h.bars.barNew s with ⟨-,t,b,ht,hstock,-⟩ | ⟨-,t,ht⟩
    · rw [ht]
      exact ⟨L,⟨h.rules,h.flow,h.flowOf,hstock⟩,fun _ => rfl⟩
    · rw [ht]
      trivial
  | barDelete s =>
    simp only [PfcpContext.step,map_eq_some_iff] at ho
    obtain ⟨b,hb,rfl⟩ := ho
    exact ⟨L,⟨h.rules,h.flow,h.flowOf,(h.bars.barDelete hb).1⟩,fun _ => rfl⟩
  | handleRemoveBar s m =>
    rw [← some.inj ho]
    refine Outcome.Returns.mapState ((h.bars.handleRemoveBar s m).mono fun t _ hstock => ?_)
    exact ⟨L,⟨h.rules,h.flow,h.flowOf,hstock⟩,fun _ => rfl⟩

theorem stocked_run (assemble : List (List Byte) → Option IpfwRule) (poolSess : Nat)
    (random : Nat → Nat) (seed : BitVec 32) (ops : List PfcpOp) :
    ∀ x ∈ completed (PfcpContext.step assemble) (PfcpContext.init poolSess random seed) ops,
      ∃ L,x.Stocked L := by
  have hstep : ∀ (x : PfcpContext) op y r,(∃ L,x.Stocked L) → True →
      x.step assemble op=some (.ok y r) → ∃ L,y.Stocked L := by
    intro x op y r h _ ho
    obtain ⟨L,h⟩ := h
    obtain ⟨M,hM,-⟩ := h.step ho
    exact ⟨M,hM⟩
  have hcond : EachStep (PfcpContext.step assemble) (fun _ _ => True)
      (PfcpContext.init poolSess random seed) ops := eachStep_of_forall fun _ _ => trivial
  exact completed_inv hstep ⟨_,Stocked.init poolSess random seed⟩ hcond

/-- In every state that a run reaches, a handler returns exactly where its IE fits. -/
theorem handlers_return_run (assemble : List (List Byte) → Option IpfwRule) (poolSess : Nat)
    (random : Nat → Nat) (seed : BitVec 32) (ops : List PfcpOp) :
    ∀ x ∈ completed (PfcpContext.step assemble) (PfcpContext.init poolSess random seed) ops,
      ∀ s ie,(x.handle assemble s ie).Done ↔ ie.Fits assemble x s := by
  intro x hx s ie
  obtain ⟨L,h⟩ := stocked_run assemble poolSess random seed ops x hx
  rcases h.handle assemble s ie with ⟨hfits,y,r,hy,-⟩ | ⟨hno,y,hy⟩
  · exact iff_of_true ⟨y,r,hy⟩ hfits
  · rw [hy]
    exact iff_of_false (not_done_abort y) hno

def createPdrQer1 : CreatePdrIe where
  rule := ⟨some 1,none,some ⟨some 0,none,none,none⟩,none,[],some 1⟩
  urrIds := Nat.zero_le 8
  sdfFilter := []

def createQerEmpty : RuleIe := .createQer (some ⟨some 1,some 0,some [],none,none⟩)

theorem handlers_return_run_qer :
    ∃ x ∈ completed (PfcpContext.step fun _ => none) (PfcpContext.init 1 id 0)
        [.handle 0 (.createPdr env0 false (some createPdrQer1))],
      x.rules.qer.list 0=[0] ∧
        ((x.handle (fun _ => none) 0 createQerEmpty).Done ↔
          createQerEmpty.Fits (fun _ => none) x 0) := by
  have hrun : ∃ x ∈ completed (PfcpContext.step fun _ => none) (PfcpContext.init 1 id 0)
      [.handle 0 (.createPdr env0 false (some createPdrQer1))], x.rules.qer.list 0=[0] := by
    decide
  obtain ⟨x,hx,hlist⟩ := hrun
  exact ⟨x,hx,hlist,handlers_return_run _ 1 id 0 _ x hx 0 createQerEmpty⟩

/-- A bit rate that is not ten bytes long stops the process. -/
theorem handler_stops :
    ¬ ∀ x ∈ completed (PfcpContext.step fun _ => none) (PfcpContext.init 1 id 0)
        [.handle 0 (.createPdr env0 false (some createPdrQer1))],
      ∀ s ie,(x.handle (fun _ => none) s ie).Done := by
  have hrun : ∃ x ∈ completed (PfcpContext.step fun _ => none) (PfcpContext.init 1 id 0)
      [.handle 0 (.createPdr env0 false (some createPdrQer1))],
      ¬ (x.handle (fun _ => none) 0 createQerEmpty).Done := by
    decide
  intro hall
  obtain ⟨x,hx,hstop⟩ := hrun
  exact hstop (hall x hx 0 createQerEmpty)

end PfcpContext

end OgsDp.Pfcp

/-! ### What rules take and give back (lib/pfcp/context.c) -/

namespace OgsDp.Pfcp
open Lib OgsDp.Core

namespace PfcpContext

/-- The pools are full where the rules that hold their nodes are gone, and the nodes of listed
rules are in use, each by one rule: a removal returns no node a second time. -/
structure Conserved (x : PfcpContext) : Prop where
  pdrs : x.rules.shelf.Conserved maxNumOfPdr
  far : x.rules.far.shelf.Conserved maxNumOfFar
  urr : x.rules.urr.shelf.Conserved maxNumOfUrr
  qer : x.rules.qer.shelf.Conserved maxNumOfQer
  bars : x.bar.shelf.Conserved maxNumOfBar
  teids : (∀ s,x.rules.pdrList s=[]) → x.rules.teidPool.avail=x.rules.teidPool.size
  teidHeld : ∀ s,∀ p ∈ x.rules.pdrList s,
    x.rules.teidPool.index (x.rules.pdr p).teidNode=some (x.rules.pdr p).teidNode
  teidOnce : ∀ s s' p p',p∈x.rules.pdrList s → p'∈x.rules.pdrList s' →
    (x.rules.pdr p).teidNode=(x.rules.pdr p').teidNode → p=p'
  flow : (∀ s,x.rules.pdrList s=[]) →
    x.flow.free=x.rules.pdrPool.size*maxNumOfFlowInPdr

theorem Stocked.conserved {x : PfcpContext} (h : x.Stocked fun _ => False) : x.Conserved where
  pdrs := h.rules.pdrs.conserved
  far := h.rules.far.conserved
  urr := h.rules.urr.conserved
  qer := h.rules.qer.conserved
  bars := h.bars.conserved
  teids := fun hnil => h.rules.teids.full (by simp [hnil])
  teidHeld := fun s p hp => h.rules.teids.index (.inr ⟨s,p,hp,rfl⟩)
  teidOnce := h.rules.inj
  flow := by
    intro hnil
    have hlist : ∀ p,x.flow.list p=[] := by
      intro p
      refine h.flowOf p ?_
      rintro ⟨s,hs⟩
      rw [hnil s] at hs
      cases hs
    have htotal:=h.flow.total
    simpa only [hlist,List.length_nil,Finset.sum_const_zero,Nat.add_zero] using htotal

/-- While every PDR that is added finds a free id, nothing is lost. -/
theorem rules_conserved_run (assemble : List (List Byte) → Option IpfwRule) (poolSess : Nat)
    (random : Nat → Nat) (seed : BitVec 32) (ops : List PfcpOp)
    (hops : EachStep (PfcpContext.step assemble) (fun x op => op.ReturnsTeid x)
      (PfcpContext.init poolSess random seed) ops) :
    ∀ x ∈ completed (PfcpContext.step assemble) (PfcpContext.init poolSess random seed) ops,
      x.Conserved := by
  have hstep : ∀ (x : PfcpContext) op y r,x.Stocked (fun _ => False) → op.ReturnsTeid x →
      x.step assemble op=some (.ok y r) → y.Stocked fun _ => False := by
    intro x op y r h hreturns ho
    obtain ⟨M,hM,hlost⟩ := h.step ho
    rw [hlost hreturns] at hM
    exact hM
  intro x hx
  exact (completed_inv hstep (Stocked.init poolSess random seed) hops x hx).conserved

def addAndRemoveAll (n : Nat) : List PfcpOp :=
  List.replicate n (.rules (.pdrAdd 0))++(List.range 16).map fun p => .rules (.pdrRemove 0 p)

theorem rules_conserved_run_full :
    (completed (PfcpContext.step fun _ => none) (PfcpContext.init 2 id 0)
        (addAndRemoveAll 16)).length=33 ∧
      ∀ x ∈ completed (PfcpContext.step fun _ => none) (PfcpContext.init 2 id 0)
        (addAndRemoveAll 16), x.Conserved := by
  exact ⟨by decide,rules_conserved_run _ 2 id 0 _ (by decide)⟩

/-- A seventeenth PDR takes a TEID node with it. -/
theorem teid_node_lost :
    ¬ ∀ x ∈ completed (PfcpContext.step fun _ => none) (PfcpContext.init 2 id 0)
        (addAndRemoveAll 17), x.Conserved := by
  have hrun : ∃ x ∈ completed (PfcpContext.step fun _ => none) (PfcpContext.init 2 id 0)
      (addAndRemoveAll 17), x.rules.pdrPool.avail=x.rules.pdrPool.size ∧
        x.rules.teidPool.avail≠x.rules.teidPool.size ∧ x.rules.teidPool.avail=31 := by
    decide
  intro hall
  obtain ⟨x,hx,hfull,hlost,-⟩ := hrun
  obtain ⟨L,h⟩ := stocked_run _ 2 id 0 _ x hx
  refine hlost ((hall x hx).teids fun s => ?_)
  refine List.eq_nil_iff_forall_not_mem.mpr fun p hp => ?_
  exact h.rules.pdrs.nodes.none_of_full hfull ⟨s,hp⟩

end PfcpContext

end OgsDp.Pfcp
