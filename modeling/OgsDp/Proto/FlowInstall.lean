import OgsDp.Proto.MediaFlows

/-!
# What a refused installation of flows leaves (lib/proto/types.c)

The flows of a PCC rule are freed before those of the media component are converted, one by one
into their places.
-/

namespace OgsDp.Proto
open Lib OgsDp.Core List Option

/-- `flow_rx_to_gx` where memory may be short: for both kinds of flow it is asked for once, and
an assertion fails if there is none. -/
def flowRxToGxIn (memory : Bool) (rx : List Byte) : Except Fault (Option Flow) :=
  if (permitOut <+: rx ∨ permitIn <+: rx) ∧ memory=false then .error .assertion
  else flowRxToGx rx

-- The two loops, with the flows of the rule at the `return`; `memory n` tells whether there is
-- memory for the next flow when the rule has `n`.
def installLoop (memory : Nat → Bool) : List Flow → List FlowText →
    Except Fault (Bool × List Flow)
  | flow, [] => .ok (true,flow)
  | flow, rx::rxs =>
    if flow.length < maxFlowInPccRule then do
      match ← flowRxToGxIn (memory flow.length) rx.bytes with
      | none => .ok (false,flow)
      | some gx => installLoop memory (flow++[gx]) rxs
    else .ok (false,flow)

/-- `ogs_pcc_rule_install_flow_from_media`: whether it returns `OGS_OK`, and the flows of the
rule then. The old flows are gone before the loops begin. -/
def installInRule (memory : Nat → Bool) (_rule : PccRule) (media : MediaComponent) :
    Except Fault (Bool × List Flow) :=
  installLoop memory [] media.flows

/-- An error leaves the rule as it was, and otherwise it has the flows of the component. -/
def InstallsAtomically (memory : Nat → Bool) (rule : PccRule) (media : MediaComponent) : Prop :=
  ∀ ok flow,installInRule memory rule media = .ok (ok,flow) →
    if ok then gxFlows media.flows = .ok (some flow) else flow=rule.flow

/-- A flow that is reached, and that is no `permit` or has no place. -/
structure Refused (memory : Nat → Bool) (front : List FlowText) (rx : FlowText) : Prop where
  room : front.length ≤ maxFlowInPccRule
  memory : ∀ i<front.length,memory i=true
  why : front.length=maxFlowInPccRule ∨ ¬ permitOut <+: rx.bytes ∧ ¬ permitIn <+: rx.bytes

/-- Where a flow is refused, the rule has the conversions of those in front of it already. -/
def KeptWhereRefused (memory : Nat → Bool) (rule : PccRule) (media : MediaComponent) : Prop :=
  ∀ front rx behind gxs,media.flows=front++rx::behind → Refused memory front rx →
    gxFlows front = .ok (some gxs) → gxs=rule.flow

theorem flowRxToGxIn_ok {memory : Bool} {rx : List Byte} {g : Option Flow}
    (h : flowRxToGxIn memory rx = .ok g) : flowRxToGx rx = .ok g ∧
      (g≠none → memory=true) := by
  unfold flowRxToGxIn at h
  split at h
  · cases h
  · rename_i hno
    refine ⟨h,fun hg => ?_⟩
    by_contra hmem
    apply hg
    -- Without memory the flow is neither kind of `permit`.
    have hkind : ¬ permitOut <+: rx ∧ ¬ permitIn <+: rx := by
      simpa [hmem] using hno
    rw [flowRxToGx,if_neg hkind.1,if_neg hkind.2] at h
    exact (Except.ok.inj h).symm

theorem flowRxToGx_none_iff {rx : List Byte} (hshort : rx.length<2^64) :
    flowRxToGx rx = .ok none ↔ ¬ permitOut <+: rx ∧ ¬ permitIn <+: rx := by
  constructor
  · intro h
    constructor
    · intro hout
      rw [flowRxToGx,if_pos hout] at h
      cases h
    · intro hin
      obtain ⟨rest,rfl⟩ := hin
      obtain ⟨a,x,c,y,-,-,-,-,hg⟩ := flowRxToGx_shape hshort h
      cases hg
  · intro h
    rw [flowRxToGx,if_neg h.1,if_neg h.2]

theorem flowRxToGxIn_none {memory : Bool} {rx : List Byte}
    (h : ¬ permitOut <+: rx ∧ ¬ permitIn <+: rx) : flowRxToGxIn memory rx = .ok none := by
  rw [flowRxToGxIn,if_neg (fun hkind => hkind.1.elim h.1 h.2),flowRxToGx,if_neg h.1,
    if_neg h.2]

theorem gxFlows_cons {rx : FlowText} {rxs : List FlowText} {flows : List Flow}
    (h : gxFlows (rx::rxs) = .ok (some flows)) :
    ∃ gx gxs,flowRxToGx rx.bytes = .ok (some gx) ∧ gxFlows rxs = .ok (some gxs) ∧
      flows=gx::gxs := by
  rw [gxFlows] at h
  obtain ⟨g,hg,h⟩ := bind_eq_ok.mp h
  cases g with
  | none => cases h
  | some gx =>
    cases hrest : gxFlows rxs with
    | error f =>
      rw [hrest] at h
      cases h
    | ok g =>
      cases g with
      | none =>
        rw [hrest] at h
        cases h
      | some gxs =>
        rw [hrest] at h
        exact ⟨gx,gxs,hg,rfl,(some.inj (Except.ok.inj h)).symm⟩

theorem gxFlows_of_cons {rx : FlowText} {rxs : List FlowText} {gx : Flow} {gxs : List Flow}
    (hrx : flowRxToGx rx.bytes = .ok (some gx)) (hrxs : gxFlows rxs = .ok (some gxs)) :
    gxFlows (rx::rxs) = .ok (some (gx::gxs)) := by
  rw [gxFlows,hrx,ok_bind]
  simp only
  rw [hrxs]
  rfl

theorem installLoop_true {memory : Nat → Bool} {flow flow' : List Flow} {rxs : List FlowText}
    (h : installLoop memory flow rxs = .ok (true,flow')) :
    ∃ gxs,gxFlows rxs = .ok (some gxs) ∧ flow'=flow++gxs := by
  induction rxs generalizing flow with
  | nil =>
    obtain rfl : flow=flow' := congrArg Prod.snd (Except.ok.inj h)
    exact ⟨[],rfl,(append_nil _).symm⟩
  | cons rx rxs ih =>
    rw [installLoop] at h
    split at h
    · obtain ⟨g,hg,h⟩ := bind_eq_ok.mp h
      cases g with
      | none => cases h
      | some gx =>
        obtain ⟨gxs,hgxs,rfl⟩ := ih h
        exact ⟨gx::gxs,gxFlows_of_cons (flowRxToGxIn_ok hg).1 hgxs,append_assoc ..⟩
    · cases h

theorem installLoop_false {memory : Nat → Bool} {flow flow' : List Flow} {rxs : List FlowText}
    (hroom : flow.length ≤ maxFlowInPccRule)
    (h : installLoop memory flow rxs = .ok (false,flow')) :
    ∃ front rx behind gxs,rxs=front++rx::behind ∧ gxFlows front = .ok (some gxs) ∧
      flow'=flow++gxs ∧ flow.length+front.length ≤ maxFlowInPccRule ∧
      (∀ i<front.length,memory (flow.length+i)=true) ∧
      (flow.length+front.length=maxFlowInPccRule ∨
        ¬ permitOut <+: rx.bytes ∧ ¬ permitIn <+: rx.bytes) := by
  induction rxs generalizing flow with
  | nil => cases h
  | cons rx rxs ih =>
    rw [installLoop] at h
    split at h
    · rename_i hlt
      obtain ⟨g,hg,h⟩ := bind_eq_ok.mp h
      obtain ⟨hconv,hmem⟩ := flowRxToGxIn_ok hg
      cases g with
      | none =>
        obtain rfl : flow=flow' := congrArg Prod.snd (Except.ok.inj h)
        have hkind:=(flowRxToGx_none_iff rx.short).mp hconv
        exact ⟨[],rx,rxs,[],rfl,rfl,(append_nil _).symm,hroom,by simp,.inr hkind⟩
      | some gx =>
        have hone : (flow++[gx]).length=flow.length+1 := by simp
        obtain ⟨front,rx',behind,gxs,rfl,hfront,rfl,hle,hmems,hwhy⟩ :=
          ih (by omega) h
        rw [hone] at hle hmems hwhy
        refine ⟨rx::front,rx',behind,gx::gxs,rfl,gxFlows_of_cons hconv hfront,
          append_assoc ..,?_,?_,?_⟩
        · rw [length_cons]
          omega
        · intro i hi
          cases i with
          | zero => exact hmem (some_ne_none gx)
          | succ i =>
            have hthis:=hmems i (by simpa using hi)
            rwa [show flow.length+(i+1)=flow.length+1+i by omega]
        · rw [length_cons]
          exact hwhy.imp_left fun hfull => by omega
    · obtain rfl : flow=flow' := congrArg Prod.snd (Except.ok.inj h)
      exact ⟨[],rx,rxs,[],rfl,rfl,(append_nil _).symm,hroom,by simp,
        .inl (by rw [length_nil]; omega)⟩

theorem installLoop_refused {memory : Nat → Bool} {flow gxs : List Flow} {front : List FlowText}
    {rx : FlowText} {behind : List FlowText} (hfront : gxFlows front = .ok (some gxs))
    (hle : flow.length+front.length ≤ maxFlowInPccRule)
    (hmem : ∀ i<front.length,memory (flow.length+i)=true)
    (hwhy : flow.length+front.length=maxFlowInPccRule ∨
      ¬ permitOut <+: rx.bytes ∧ ¬ permitIn <+: rx.bytes) :
    installLoop memory flow (front++rx::behind) = .ok (false,flow++gxs) := by
  induction front generalizing flow gxs with
  | nil =>
    obtain rfl := some.inj (Except.ok.inj hfront)
    rw [length_nil,Nat.add_zero] at hwhy
    rw [nil_append,installLoop,append_nil]
    split
    · rename_i hlt
      have hkind:=hwhy.resolve_left (Nat.ne_of_lt hlt)
      rw [flowRxToGxIn_none hkind,ok_bind]
    · rfl
  | cons rx' front ih =>
    obtain ⟨gx,gxs',hgx,hfront',rfl⟩ := gxFlows_cons hfront
    rw [length_cons] at hle hmem hwhy
    have hone : (flow++[gx]).length=flow.length+1 := by simp
    have hhere : memory flow.length=true := hmem 0 (by omega)
    have hconv : flowRxToGxIn (memory flow.length) rx'.bytes = .ok (some gx) := by
      rw [flowRxToGxIn,hhere,if_neg (by simp),hgx]
    have hlt : flow.length < maxFlowInPccRule := by omega
    rw [cons_append,installLoop,if_pos hlt,hconv,ok_bind]
    simp only
    rw [ih hfront' (by omega) ?_ ?_,append_assoc,singleton_append]
    · intro i hi
      rw [hone,show flow.length+1+i=flow.length+(i+1) by omega]
      exact hmem (i+1) (by omega)
    · exact hwhy.imp_left fun hfull => by omega

/-- A call leaves the rule alone or gives it all flows exactly if the rule has the conversions of
the flows in front of one that is refused. -/
theorem installs_atomically_iff (memory : Nat → Bool) (rule : PccRule) (media : MediaComponent) :
    InstallsAtomically memory rule media ↔ KeptWhereRefused memory rule media := by
  constructor
  · intro h front rx behind gxs hflows hrefused hgxs
    have hcall : installInRule memory rule media = .ok (false,gxs) := by
      unfold installInRule
      rw [hflows]
      have hloop:=@installLoop_refused memory [] _ _ rx behind hgxs
      simp only [length_nil,Nat.zero_add,nil_append] at hloop
      exact hloop hrefused.room hrefused.memory hrefused.why
    exact h false gxs hcall
  · intro h ok flow hcall
    cases ok with
    | true =>
      obtain ⟨gxs,hgxs,rfl⟩ := installLoop_true hcall
      exact hgxs
    | false =>
      obtain ⟨front,rx,behind,gxs,hflows,hgxs,hflow,hle,hmem,hwhy⟩ :=
        installLoop_false (Nat.zero_le _) hcall
      rw [nil_append] at hflow
      subst hflow
      simp only [length_nil,Nat.zero_add] at hle hmem hwhy
      exact h front rx behind flow hflows ⟨hle,hmem,hwhy⟩ hgxs

def denyFlow : FlowText := ⟨⟨ascii "deny in ip from any to any",by decide⟩,by decide⟩

/-- The two flows of the rule are gone once the only flow of the component is refused. -/
theorem refused_flow_empties_rule :
    installInRule (fun _ => true) udpTcpRule (oneSub [denyFlow] (by decide)) = .ok (false,[]) ∧
      ¬ InstallsAtomically (fun _ => true) udpTcpRule (oneSub [denyFlow] (by decide)) := by
  have hcall : installInRule (fun _ => true) udpTcpRule (oneSub [denyFlow] (by decide)) =
      .ok (false,[]) := by
    decide
  refine ⟨hcall,fun h => ?_⟩
  have hkept : []=udpTcpRule.flow := h false [] hcall
  exact absurd hkept (by decide)

end OgsDp.Proto
