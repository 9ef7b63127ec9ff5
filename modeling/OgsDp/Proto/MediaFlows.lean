import Mathlib.Algebra.Order.Group.Multiset
import Mathlib.Algebra.Order.Sub.Basic
import Mathlib.Data.Multiset.OrderedMonoid
import Mathlib.Data.Multiset.UnionInter
import OgsDp.Proto.FlowConversion

/-!
# Flows of a PCC rule and of a media component (lib/proto/types.c)

A media component that comes again is compared with the PCC rule made of it before: the flows of
the component that the rule has are counted, and the flows of the rule are installed anew if they
are not as many as the rule has.
-/

namespace OgsDp.Proto
open Lib OgsDp.Core List Option

def maxFlowInPccRule : Nat := 15
def maxFlowInMediaSub : Nat := 15
def maxMediaSub : Nat := 8

/-- `ogs_pcc_rule_t` with the entries of its array that are in use. -/
structure PccRule where
  flow : List Flow
  room : flow.length ≤ maxFlowInPccRule

/-- `ogs_media_sub_component_t`; a flow has no direction of its own here. -/
structure MediaSub where
  flow : List FlowText
  room : flow.length ≤ maxFlowInMediaSub

structure MediaComponent where
  sub : List MediaSub
  room : sub.length ≤ maxMediaSub

def MediaComponent.flows (media : MediaComponent) : List FlowText :=
  media.sub.flatMap fun sub => sub.flow.take maxFlowInMediaSub

def MediaComponent.numOfFlow (media : MediaComponent) : Nat :=
  media.sub.foldl (fun new sub => new+sub.flow.length) 0

def matchFlows (rule : List Flow) : Nat → List FlowText → Except Fault (Option Nat)
  | matched, [] => .ok (some matched)
  | matched, rx::rxs => do
    match ← flowRxToGx rx.bytes with
    | none => .ok none
    | some gx => matchFlows rule (if gx∈rule then matched+1 else matched) rxs

def numOfFlowEqualToMedia (rule : PccRule) (media : MediaComponent) : Except Fault Int :=
  if media.numOfFlow=0 then .ok rule.flow.length
  else do
    match ← matchFlows rule.flow 0 media.flows with
    | none => .ok (-1)
    | some matched => .ok matched

def installFlows : List Flow → List FlowText → Except Fault (Option (List Flow))
  | flow, [] => .ok (some flow)
  | flow, rx::rxs =>
    if flow.length < maxFlowInPccRule then do
      match ← flowRxToGx rx.bytes with
      | none => .ok none
      | some gx => installFlows (flow++[gx]) rxs
    else .ok none

/-- `ogs_pcc_rule_install_flow_from_media`: the flows of the rule, `none` for `OGS_ERROR`. -/
def installFlowFromMedia (media : MediaComponent) : Except Fault (Option (List Flow)) :=
  installFlows [] media.flows

/-- What the handlers of the PCF and of the PCRF do with a rule that is there already; `none` where
they refuse the request. -/
def checkFlow (rule : PccRule) (media : MediaComponent) : Except Fault (Option (List Flow)) := do
  let count ← numOfFlowEqualToMedia rule media
  if count = -1 then .ok none
  else if (rule.flow.length : Int)≠count then installFlowFromMedia media
  else .ok (some rule.flow)

def gxFlows : List FlowText → Except Fault (Option (List Flow))
  | [] => .ok (some [])
  | rx::rxs => do
    match ← flowRxToGx rx.bytes with
    | none => .ok none
    | some gx => (gxFlows rxs).map (Option.map (gx :: ·))

/-- The flows of the component are the flows of the rule, each as often. -/
def SameFlows (rule : PccRule) (media : MediaComponent) : Prop :=
  ∃ flows,gxFlows media.flows = .ok (some flows) ∧ (flows : Multiset Flow)=rule.flow

def DecidesEquality (rule : PccRule) (media : MediaComponent) : Prop :=
  numOfFlowEqualToMedia rule media = .ok rule.flow.length ↔ SameFlows rule media

/-- A rule that is left with flows is left with those of the component. -/
def FollowsMedia (rule : PccRule) (media : MediaComponent) : Prop :=
  ∀ flow,checkFlow rule media = .ok (some flow) →
    ∃ flows,gxFlows media.flows = .ok (some flows) ∧ (flows : Multiset Flow)=flow

def missing (rule flows : List Flow) : Multiset Flow := (rule : Multiset Flow)-flows

def surplus (rule flows : List Flow) : Multiset Flow :=
  ((flows.filter (· ∈ rule) : List Flow) : Multiset Flow)-rule

/-- What is missing and what there is too much of are not as many, or there is neither and nothing
foreign to the rule. -/
def TellsApart (rule : PccRule) (media : MediaComponent) : Prop :=
  ∀ flows,gxFlows media.flows = .ok (some flows) →
    (missing rule.flow flows).card≠(surplus rule.flow flows).card ∨
      missing rule.flow flows=0 ∧ surplus rule.flow flows=0 ∧ ∀ gx∈flows,gx∈rule.flow

theorem matchFlows_eq (rule : List Flow) (matched : Nat) (rxs : List FlowText) :
    matchFlows rule matched rxs =
      (gxFlows rxs).map (Option.map fun flows =>
        matched+(flows.filter (· ∈ rule)).length) := by
  induction rxs generalizing matched with
  | nil => rfl
  | cons rx rxs ih =>
    rw [matchFlows,gxFlows]
    cases flowRxToGx rx.bytes with
    | error f => rfl
    | ok g =>
      cases g with
      | none => rfl
      | some gx =>
        rw [ok_bind,ok_bind]
        simp only
        rw [ih]
        cases gxFlows rxs with
        | error f => rfl
        | ok g =>
          cases g with
          | none => rfl
          | some flows =>
            simp only [Except.map,Option.map]
            by_cases hgx : gx∈rule
            · rw [if_pos hgx,filter_cons_of_pos (by simpa using hgx),length_cons]
              congr 2
              omega
            · rw [if_neg hgx,filter_cons_of_neg (by simpa using hgx)]

theorem installFlows_some {flow flow' : List Flow} {rxs : List FlowText}
    (h : installFlows flow rxs = .ok (some flow')) :
    ∃ flows,gxFlows rxs = .ok (some flows) ∧ flow'=flow++flows := by
  induction rxs generalizing flow with
  | nil =>
    obtain rfl : flow=flow' := some.inj (Except.ok.inj h)
    exact ⟨[],rfl,(append_nil _).symm⟩
  | cons rx rxs ih =>
    rw [installFlows] at h
    split at h
    · obtain ⟨g,hg,h⟩ := bind_eq_ok.mp h
      cases g with
      | none => cases h
      | some gx =>
        obtain ⟨flows,hflows,rfl⟩ := ih h
        refine ⟨gx::flows,?_,append_assoc ..⟩
        rw [gxFlows,hg,ok_bind]
        simp only
        rw [hflows]
        rfl
    · cases h

theorem numOfFlowEqualToMedia_of {rule : PccRule} {media : MediaComponent}
    (hsome : 0 < media.numOfFlow) :
    numOfFlowEqualToMedia rule media=(gxFlows media.flows).map fun g =>
      g.elim (-1) fun flows => ((flows.filter (· ∈ rule.flow)).length : Int) := by
  unfold numOfFlowEqualToMedia
  rw [if_neg (Nat.ne_of_gt hsome),matchFlows_eq]
  cases gxFlows media.flows with
  | error f => rfl
  | ok g =>
    cases g with
    | none => rfl
    | some flows =>
      show (Except.ok (((0+(flows.filter (· ∈ rule.flow)).length : Nat)) : Int) :
        Except Fault Int)=_
      rw [Nat.zero_add]
      rfl

theorem count_missing (rule flows : List Flow) :
    missing rule flows=(rule : Multiset Flow)-(flows.filter (· ∈ rule) : List Flow) := by
  ext gx
  unfold missing
  rw [Multiset.count_sub,Multiset.count_sub,Multiset.coe_count,Multiset.coe_count,
    Multiset.coe_count]
  by_cases hgx : gx∈rule
  · rw [count_filter (by simpa using hgx)]
  · rw [count_eq_zero_of_not_mem hgx,Nat.zero_sub,Nat.zero_sub]

theorem found_eq_iff (rule flows : List Flow) :
    (flows.filter (· ∈ rule)).length=rule.length ↔
      (missing rule flows).card=(surplus rule flows).card := by
  have hunion : missing rule flows+((flows.filter (· ∈ rule) : List Flow) : Multiset Flow) =
      surplus rule flows+(rule : Multiset Flow) := by
    rw [count_missing,surplus,← Multiset.union_def,← Multiset.union_def,Multiset.union_comm]
  have hcard:=congrArg Multiset.card hunion
  rw [Multiset.card_add,Multiset.card_add,Multiset.coe_card,Multiset.coe_card] at hcard
  omega

theorem same_iff (rule flows : List Flow) :
    (flows : Multiset Flow)=rule ↔
      missing rule flows=0 ∧ surplus rule flows=0 ∧ ∀ gx∈flows,gx∈rule := by
  constructor
  · intro h
    have hall : ∀ gx∈flows,gx∈rule := fun gx hgx =>
      Multiset.mem_coe.mp (h ▸ Multiset.mem_coe.mpr hgx)
    have hfilter : flows.filter (· ∈ rule)=flows :=
      List.filter_eq_self.mpr fun gx hgx => by simpa using hall gx hgx
    refine ⟨?_,?_,hall⟩
    · rw [missing,h,tsub_self]
    · rw [surplus,hfilter,h,tsub_self]
  · rintro ⟨hmissing,hsurplus,hall⟩
    have hfilter : flows.filter (· ∈ rule)=flows :=
      List.filter_eq_self.mpr fun gx hgx => by simpa using hall gx hgx
    rw [surplus,hfilter] at hsurplus
    exact le_antisymm (tsub_eq_zero_iff_le.mp hsurplus) (tsub_eq_zero_iff_le.mp hmissing)

theorem decidesEquality_iff {rule : PccRule} {media : MediaComponent}
    (hsome : 0 < media.numOfFlow) : DecidesEquality rule media ↔ TellsApart rule media := by
  unfold DecidesEquality SameFlows TellsApart
  rw [numOfFlowEqualToMedia_of hsome]
  cases gxFlows media.flows with
  | error f => exact iff_of_true (iff_of_false nofun fun ⟨_,h,_⟩ => nomatch h) nofun
  | ok g =>
    cases g with
    | none =>
      refine iff_of_true (iff_of_false (fun h => ?_) fun ⟨_,h,_⟩ => nomatch h) nofun
      have hneg : (-1 : Int)=rule.flow.length := Except.ok.inj h
      omega
    | some flows =>
      have hnum : ((Except.ok (some flows) : Except Fault (Option (List Flow))).map fun g =>
          g.elim (-1) fun flows => ((flows.filter (· ∈ rule.flow)).length : Int)) =
            .ok rule.flow.length ↔
          (missing rule.flow flows).card=(surplus rule.flow flows).card := by
        rw [← found_eq_iff]
        constructor
        · exact fun h => Int.ofNat.inj (Except.ok.inj h)
        · intro h
          show Except.ok ((flows.filter (· ∈ rule.flow)).length : Int)=_
          rw [h]
      have hsame : (∃ flows',(Except.ok (some flows) : Except Fault (Option (List Flow))) =
          .ok (some flows') ∧ (flows' : Multiset Flow)=rule.flow) ↔
          (flows : Multiset Flow)=rule.flow := by
        constructor
        · rintro ⟨flows',h,heq⟩
          cases h
          exact heq
        · exact fun h => ⟨flows,rfl,h⟩
      rw [hnum,hsame,same_iff]
      constructor
      · intro h flows' hflows'
        cases hflows'
        by_cases hcard : (missing rule.flow flows).card=(surplus rule.flow flows).card
        · exact .inr (h.mp hcard)
        · exact .inl hcard
      · intro h
        constructor
        · exact fun hcard => (h flows rfl).resolve_left (not_not_intro hcard)
        · rintro ⟨hmissing,hsurplus,-⟩
          rw [hmissing,hsurplus]

theorem followsMedia_iff {rule : PccRule} {media : MediaComponent}
    (hsome : 0 < media.numOfFlow) : FollowsMedia rule media ↔ DecidesEquality rule media := by
  constructor
  · intro h
    constructor
    · intro hnum
      refine h rule.flow ?_
      unfold checkFlow
      rw [hnum,ok_bind,if_neg (by omega),if_neg (not_not_intro rfl)]
    · rintro ⟨flows,hflows,hsame⟩
      have hcard : (missing rule.flow flows).card=(surplus rule.flow flows).card := by
        obtain ⟨hmissing,hsurplus,-⟩ := (same_iff rule.flow flows).mp hsame
        rw [hmissing,hsurplus]
      rw [numOfFlowEqualToMedia_of hsome,hflows]
      show Except.ok ((flows.filter (· ∈ rule.flow)).length : Int)=_
      rw [(found_eq_iff rule.flow flows).mpr hcard]
  · intro h flow hcheck
    obtain ⟨count,hcount,hcheck⟩ := bind_eq_ok.mp hcheck
    split at hcheck
    · cases hcheck
    · split at hcheck
      · obtain ⟨flows,hflows,hflow⟩ := installFlows_some hcheck
        rw [nil_append] at hflow
        exact ⟨flows,hflows,congrArg _ hflow.symm⟩
      · rename_i hnum
        cases hcheck
        exact h.mp (hcount.trans (congrArg Except.ok (not_not.mp hnum).symm))

/-- The number of flows found decides equality, and the rule has the flows of the component behind
the check, exactly if what the component lacks and what it repeats are not as many, or nothing
differs at all. -/
theorem flow_equality (rule : PccRule) (media : MediaComponent) (hsome : 0 < media.numOfFlow) :
    (DecidesEquality rule media ↔ TellsApart rule media) ∧
      (FollowsMedia rule media ↔ TellsApart rule media) :=
  ⟨decidesEquality_iff hsome,(followsMedia_iff hsome).trans (decidesEquality_iff hsome)⟩

def udpFlow : FlowText := ⟨⟨ascii "permit out 17 from any to any",by decide⟩,by decide⟩
def tcpFlow : FlowText := ⟨⟨ascii "permit out 6 from any to any",by decide⟩,by decide⟩

def udpTcpRule : PccRule :=
  ⟨[⟨downlinkOnly,udpFlow.bytes⟩,⟨downlinkOnly,tcpFlow.bytes⟩],by decide⟩

def oneSub (flow : List FlowText) (room : flow.length ≤ maxFlowInMediaSub) : MediaComponent :=
  ⟨[⟨flow,room⟩],Nat.le_of_ble_eq_true rfl⟩

theorem gxFlows_permitOut (rxs : List FlowText) (h : ∀ rx∈rxs,permitOut <+: rx.bytes) :
    gxFlows rxs = .ok (some (rxs.map fun rx => ⟨downlinkOnly,rx.bytes⟩)) := by
  induction rxs with
  | nil => rfl
  | cons rx rxs ih =>
    obtain ⟨hrx,hrxs⟩ := forall_mem_cons.mp h
    have hconv : flowRxToGx rx.bytes = .ok (some ⟨downlinkOnly,rx.bytes⟩) := if_pos hrx
    rw [gxFlows,hconv,ok_bind,ih hrxs]
    rfl

theorem flow_equality_other_order :
    let media:=oneSub [tcpFlow,udpFlow] (by decide)
    0 < media.numOfFlow ∧ DecidesEquality udpTcpRule media ∧ FollowsMedia udpTcpRule media := by
  intro media
  have hsome : 0 < media.numOfFlow := by decide
  have htells : TellsApart udpTcpRule media := by
    intro flows hflows
    have hgx:=gxFlows_permitOut media.flows (by decide)
    obtain rfl := some.inj (Except.ok.inj (hgx.symm.trans hflows))
    refine .inr ((same_iff _ _).mp (Multiset.coe_eq_coe.mpr ?_))
    exact List.Perm.swap ..
  have h:=flow_equality udpTcpRule media hsome
  exact ⟨hsome,h.1.mpr htells,h.2.mpr htells⟩

/-- A flow of the component twice stands for the other one of the rule, and a rule without flows
gets none. -/
theorem flow_equality_repeated :
    0<(oneSub [udpFlow,udpFlow] (by decide)).numOfFlow ∧
      numOfFlowEqualToMedia udpTcpRule (oneSub [udpFlow,udpFlow] (by decide)) = .ok 2 ∧
      ¬ DecidesEquality udpTcpRule (oneSub [udpFlow,udpFlow] (by decide)) ∧
      numOfFlowEqualToMedia ⟨[],by decide⟩ (oneSub [udpFlow] (by decide)) = .ok 0 := by
  have hnum : numOfFlowEqualToMedia udpTcpRule (oneSub [udpFlow,udpFlow] (by decide)) = .ok 2 := by
    decide
  refine ⟨by decide,hnum,fun h => ?_,by decide⟩
  obtain ⟨flows,hflows,hsame⟩ := h.mp hnum
  have hgx:=gxFlows_permitOut (oneSub [udpFlow,udpFlow] (by decide)).flows
    (by decide)
  obtain rfl := some.inj (Except.ok.inj (hgx.symm.trans hflows))
  have hmem : (⟨downlinkOnly,tcpFlow.bytes⟩ : Flow)∈[udpFlow,udpFlow].map fun rx =>
      (⟨downlinkOnly,rx.bytes⟩ : Flow) :=
    Multiset.mem_coe.mp (hsame ▸ mem_cons_of_mem _ (mem_cons_self ..))
  exact absurd hmem (by decide)

end OgsDp.Proto
