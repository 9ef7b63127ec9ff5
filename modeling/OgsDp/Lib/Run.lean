import Mathlib.Logic.Basic
import Mathlib.Data.List.Basic

/-!
# Runs of a program that an assertion can stop

A call returns with a new state and a result, or a failed assertion stops the process in the
state it had then. A run is a list of calls, each made in the state the one before left; it
ends early where a call stops the process or cannot be made at all.

The rules below turn what one call preserves into what a whole run preserves.
-/

namespace OgsDp.Lib
open List

universe u v w

/-- What a call leaves: it returned, or an assertion failed with the memory as it was then. -/
inductive Outcome (σ : Type u) (ρ : Type v) where
  | ok (s : σ) (r : ρ)
  | abort (s : σ)
  deriving DecidableEq

namespace Outcome

variable {σ : Type u} {ρ : Type v}

def state : Outcome σ ρ → σ
  | ok s _ => s
  | abort s => s

def mapState {τ : Type w} (f : σ → τ) : Outcome σ ρ → Outcome τ ρ
  | ok s r => ok (f s) r
  | abort s => abort (f s)

/-- `P` holds of the state if the call returned, `Q` if an assertion failed. -/
def Leaves (P Q : σ → Prop) : Outcome σ ρ → Prop
  | ok s _ => P s
  | abort s => Q s

/-- Partial correctness: `R` holds of what the call left and of its result, if it returned. -/
def Returns (R : σ → ρ → Prop) : Outcome σ ρ → Prop
  | ok s r => R s r
  | abort _ => True

/-- Sequencing: the rest of a function runs only if the call before it returned. -/
def bind {τ : Type w} (o : Outcome σ ρ) (f : σ → ρ → Outcome σ τ) : Outcome σ τ :=
  match o with
  | ok s r => f s r
  | abort s => abort s

@[simp] theorem bind_ok {τ : Type w} (s : σ) (r : ρ) (f : σ → ρ → Outcome σ τ) :
    (ok s r).bind f=f s r := rfl

@[simp] theorem bind_abort {τ : Type w} (s : σ) (f : σ → ρ → Outcome σ τ) :
    (abort s : Outcome σ ρ).bind f=abort s := rfl

@[simp] theorem returns_ok {R : σ → ρ → Prop} {s : σ} {r : ρ} : (ok s r).Returns R ↔ R s r :=
  Iff.rfl

@[simp] theorem returns_abort {R : σ → ρ → Prop} {s : σ} : (abort s).Returns R :=
  trivial

def Done (o : Outcome σ ρ) : Prop := ∃ s r,o=ok s r

theorem done_ok (s : σ) (r : ρ) : (ok s r).Done := ⟨s,r,rfl⟩

theorem not_done_abort (s : σ) : ¬ (abort s : Outcome σ ρ).Done := by
  rintro ⟨t,r,h⟩
  cases h

instance (o : Outcome σ ρ) : Decidable o.Done :=
  match o with
  | ok s r => isTrue (done_ok s r)
  | abort s => isFalse (not_done_abort s)

theorem returns_of_forall {R : σ → ρ → Prop} (o : Outcome σ ρ) (h : ∀ s r,R s r) :
    o.Returns R := by
  cases o with
  | ok s r => exact h s r
  | abort s => trivial

theorem Returns.mono {R R' : σ → ρ → Prop} {o : Outcome σ ρ} (h : o.Returns R)
    (hR : ∀ s r,R s r → R' s r) : o.Returns R' := by
  cases o with
  | ok s r => exact hR s r h
  | abort s => trivial

theorem Returns.and {R R' : σ → ρ → Prop} {o : Outcome σ ρ} (h : o.Returns R)
    (h' : o.Returns R') : o.Returns fun s r => R s r ∧ R' s r := by
  cases o with
  | ok s r => exact ⟨h,h'⟩
  | abort s => trivial

theorem Returns.of_imp {p : Prop} {R : σ → ρ → Prop} {o : Outcome σ ρ} (h : p → o.Returns R) :
    o.Returns fun s r => p → R s r := by
  cases o with
  | ok s r => exact h
  | abort s => trivial

theorem Returns.bind {τ : Type w} {R : σ → ρ → Prop} {R' : σ → τ → Prop} {o : Outcome σ ρ}
    {f : σ → ρ → Outcome σ τ} (h : o.Returns R) (hf : ∀ s r,R s r → (f s r).Returns R') :
    (o.bind f).Returns R' := by
  cases o with
  | ok s r => exact hf s r h
  | abort s => trivial

theorem Returns.mapState {τ : Type w} {f : σ → τ} {R : τ → ρ → Prop} {o : Outcome σ ρ}
    (h : o.Returns fun s r => R (f s) r) : (o.mapState f).Returns R := by
  cases o with
  | ok s r => exact h
  | abort s => trivial

theorem Leaves.mapState {τ : Type w} {f : σ → τ} {P Q : τ → Prop} {o : Outcome σ ρ}
    (h : o.Leaves (fun s => P (f s)) fun s => Q (f s)) : (o.mapState f).Leaves P Q := by
  cases o <;> exact h

/-- Sequencing with a way out: a call that was refused ends the function. -/
def next {ε α β : Type*} (o : Outcome σ (Except ε α)) (f : σ → α → Outcome σ (Except ε β)) :
    Outcome σ (Except ε β) :=
  o.bind fun s r =>
    match r with
    | .error e => ok s (.error e)
    | .ok a => f s a

theorem Returns.next {ε α β : Type*} {R : σ → Except ε α → Prop} {R' : σ → Except ε β → Prop}
    {o : Outcome σ (Except ε α)} {f : σ → α → Outcome σ (Except ε β)} (h : o.Returns R)
    (herror : ∀ s e,R s (.error e) → R' s (.error e))
    (hok : ∀ s a,R s (.ok a) → (f s a).Returns R') : (o.next f).Returns R' := by
  apply h.bind
  intro s r hr
  cases r with
  | error e => exact herror s e hr
  | ok a => exact hok s a hr

/-- The call leaves `g` as it was in `s`. -/
def Keeps {α : Type*} (g : σ → α) (s : σ) (o : Outcome σ ρ) : Prop :=
  o.Returns fun t _ => g t=g s

section Keeps

variable {α ε β γ : Type*} {g : σ → α} {s : σ}

theorem Keeps.bind {o : Outcome σ ρ} {f : σ → ρ → Outcome σ β} (h : o.Keeps g s)
    (hf : ∀ t r,(f t r).Keeps g t) : (o.bind f).Keeps g s := by
  apply Returns.bind h
  intro t r ht
  exact (hf t r).mono fun u _ hu => hu.trans ht

theorem Keeps.next {o : Outcome σ (Except ε β)} {f : σ → β → Outcome σ (Except ε γ)}
    (h : o.Keeps g s) (hf : ∀ t r,(f t r).Keeps g t) : (o.next f).Keeps g s := by
  apply Keeps.bind h
  intro t r
  cases r with
  | error e => rfl
  | ok a => exact hf t a

end Keeps

end Outcome

section Runs

variable {σ : Type u} {ε : Type v} {ρ : Type w} (step : σ → ε → Option (Outcome σ ρ))

/-- Every state a run passes through, the one a failed assertion leaves included. -/
def visited : σ → List ε → List σ
  | s, [] => [s]
  | s, e::es =>
    s :: match step s e with
      | some (.ok t _) => visited t es
      | some (.abort t) => [t]
      | none => []

/-- The states after the calls that returned. -/
def completed : σ → List ε → List σ
  | s, [] => [s]
  | s, e::es =>
    s :: match step s e with
      | some (.ok t _) => completed t es
      | _ => []

/-- The calls that returned, each with its result. -/
def trace : σ → List ε → List (ε × ρ)
  | _, [] => []
  | s, e::es =>
    match step s e with
    | some (.ok t r) => (e,r)::trace t es
    | _ => []

/-- What the calls of a run make known, a failed assertion included. -/
def emitted {α : Type*} (f : σ → ε → Outcome σ ρ → List α) : σ → List ε → List α
  | _, [] => []
  | s, e::es =>
    match step s e with
    | some (.ok t r) => f s e (.ok t r)++emitted f t es
    | some (.abort t) => f s e (.abort t)
    | none => []

/-- A condition on the state before each call of a run and on the call. -/
def EachStep (C : σ → ε → Prop) : σ → List ε → Prop
  | _, [] => True
  | s, e::es =>
    C s e ∧ match step s e with
      | some (.ok t _) => EachStep C t es
      | _ => True

instance decidableEachStep (C : σ → ε → Prop) [∀ s e,Decidable (C s e)] :
    ∀ s es,Decidable (EachStep step C s es)
  | _, [] => isTrue trivial
  | s, e::es =>
    have : Decidable (match step s e with
        | some (.ok t _) => EachStep step C t es
        | _ => True) :=
      match step s e with
      | some (.ok t _) => decidableEachStep C t es
      | some (.abort _) => isTrue trivial
      | none => isTrue trivial
    inferInstanceAs (Decidable (C s e ∧ _))

/-- A condition on every call made in a run, and on what it left. -/
def EachOutcome (Q : σ → ε → Outcome σ ρ → Prop) : σ → List ε → Prop
  | _, [] => True
  | s, e::es =>
    match step s e with
    | some (.ok t r) => Q s e (.ok t r) ∧ EachOutcome Q t es
    | some (.abort t) => Q s e (.abort t)
    | none => True

instance decidableEachOutcome (Q : σ → ε → Outcome σ ρ → Prop) [∀ s e o,Decidable (Q s e o)] :
    ∀ s es,Decidable (EachOutcome step Q s es)
  | _, [] => isTrue trivial
  | s, e::es =>
    match h : step s e with
    | some (.ok t r) =>
      have := decidableEachOutcome Q t es
      decidable_of_iff (Q s e (.ok t r) ∧ EachOutcome step Q t es) (by simp only [EachOutcome,h])
    | some (.abort t) => decidable_of_iff (Q s e (.abort t)) (by simp only [EachOutcome,h])
    | none => isTrue (by simp only [EachOutcome,h])

/-- The state after all the calls, if they all return. -/
def final : σ → List ε → Option σ
  | s, [] => some s
  | s, e::es =>
    match step s e with
    | some (.ok t _) => final t es
    | _ => none

theorem completed_cons (s : σ) (e : ε) (es : List ε) : completed step s (e::es)=
    s :: match step s e with
      | some (.ok t _) => completed step t es
      | _ => [] :=
  rfl

theorem visited_cons (s : σ) (e : ε) (es : List ε) : visited step s (e::es)=
    s :: match step s e with
      | some (.ok t _) => visited step t es
      | some (.abort t) => [t]
      | none => [] :=
  rfl

variable {step} in
theorem eachStep_cons {C : σ → ε → Prop} {s : σ} {e : ε} {es : List ε} :
    EachStep step C s (e::es) ↔ C s e ∧ match step s e with
      | some (.ok t _) => EachStep step C t es
      | _ => True :=
  .rfl

variable {step} in
theorem mem_completed_of_final {s t : σ} {es : List ε} (h : final step s es=some t) :
    t∈completed step s es := by
  induction es generalizing s with
  | nil =>
    obtain rfl := Option.some.inj h
    exact mem_singleton_self s
  | cons e es ih =>
    simp only [final] at h
    simp only [completed_cons,mem_cons]
    split at h
    · exact .inr (ih h)
    · cases h

variable {step} in
theorem final_append {s t : σ} {es es' : List ε} (h : final step s es=some t) :
    final step s (es++es')=final step t es' := by
  induction es generalizing s with
  | nil =>
    obtain rfl := Option.some.inj h
    rfl
  | cons e es ih =>
    simp only [final,cons_append] at h ⊢
    split at h
    · exact ih h
    · cases h

variable {step} in
theorem mem_completed_self (s : σ) (es : List ε) : s∈completed step s es := by
  cases es <;> exact mem_cons_self ..

variable {step} in
theorem eachStep_of {C : σ → ε → Prop} {s : σ} {es : List ε} (h : ∀ s,∀ e∈es,C s e) :
    EachStep step C s es := by
  induction es generalizing s with
  | nil => trivial
  | cons e es ih =>
    refine And.intro (h s e (mem_cons_self ..)) ?_
    split
    · exact ih fun s e' he => h s e' (mem_cons_of_mem e he)
    · trivial

variable {step} in
theorem eachStep_of_forall {C : σ → ε → Prop} (h : ∀ s e,C s e) {s : σ} {es : List ε} :
    EachStep step C s es :=
  eachStep_of fun s e _ => h s e

variable {step} in
theorem eachStep_of_mem {C : ε → Prop} {s : σ} {es : List ε} (h : ∀ e∈es,C e) :
    EachStep step (fun _ e => C e) s es :=
  eachStep_of fun _ => h

variable {step} in
theorem EachStep.and {C C' : σ → ε → Prop} {s : σ} {es : List ε} (h : EachStep step C s es)
    (h' : EachStep step C' s es) : EachStep step (fun s e => C s e ∧ C' s e) s es := by
  induction es generalizing s with
  | nil => trivial
  | cons e es ih =>
    simp only [eachStep_cons] at h h' ⊢
    refine ⟨⟨h.1,h'.1⟩,?_⟩
    cases ho : step s e with
    | none => trivial
    | some o =>
      cases o with
      | ok t r =>
        simp only [ho] at h h'
        exact ih h.2 h'.2
      | abort t => trivial

variable {step} in
theorem eachOutcome_of_forall {Q : σ → ε → Outcome σ ρ → Prop}
    (h : ∀ s e o,step s e=some o → Q s e o) {s : σ} {es : List ε} :
    EachOutcome step Q s es := by
  induction es generalizing s with
  | nil => trivial
  | cons e es ih =>
    simp only [EachOutcome]
    cases ho : step s e with
    | none => trivial
    | some o =>
      have hQ:=h s e o ho
      cases o with
      | ok t r => exact ⟨hQ,ih⟩
      | abort t => exact hQ

variable {step} {Inv P : σ → Prop} {C : σ → ε → Prop}

/-- Invariant rule: what every admissible call preserves holds after every call of a run of
admissible calls. -/
theorem completed_inv
    (hok : ∀ s e t r,Inv s → C s e → step s e=some (.ok t r) → Inv t) {s : σ} {es : List ε}
    (hs : Inv s) (hc : EachStep step C s es) : ∀ t∈completed step s es,Inv t := by
  induction es generalizing s with
  | nil =>
    intro t ht
    rw [mem_singleton.mp ht]
    exact hs
  | cons e es ih =>
    intro t ht
    simp only [completed_cons,mem_cons] at ht
    simp only [eachStep_cons] at hc
    rcases ht with rfl | ht
    · exact hs
    · cases ho : step s e with
      | none => simp [ho] at ht
      | some o =>
        cases o with
        | ok u r =>
          simp only [ho] at ht hc
          exact ih (hok s e u r hs hc.1 ho) hc.2 t ht
        | abort u => simp [ho] at ht

/-- A property that the admissible calls keep, and no others, holds after every call of a run
exactly when all its calls are admissible. -/
theorem completed_iff
    (hok : ∀ s e t r,Inv s → P s → step s e=some (.ok t r) → Inv t ∧ (P t ↔ C s e))
    (hstop : ∀ s e,(∀ t r,step s e≠some (.ok t r)) → C s e) {s : σ} {es : List ε}
    (hs : Inv s) (hP : P s) : (∀ t∈completed step s es,P t) ↔ EachStep step C s es := by
  induction es generalizing s with
  | nil => exact iff_of_true (forall_mem_singleton.mpr hP) trivial
  | cons e es ih =>
    by_cases hret : ∃ t r,step s e=some (.ok t r)
    · obtain ⟨t,r,ho⟩ := hret
      obtain ⟨ht,hiff⟩ := hok s e t r hs hP ho
      simp only [completed_cons,eachStep_cons,ho,forall_mem_cons]
      constructor
      · intro hall
        have hPt:=hall.2 t (mem_completed_self t es)
        exact ⟨hiff.mp hPt,(ih ht hPt).mp hall.2⟩
      · intro hall
        exact ⟨hP,(ih ht (hiff.mpr hall.1)).mpr hall.2⟩
    · have hno : ∀ t r,step s e≠some (.ok t r) := fun t r ho => hret ⟨t,r,ho⟩
      have hC:=hstop s e hno
      cases ho : step s e with
      | none => simp [completed_cons,eachStep_cons,ho,hP,hC]
      | some o =>
        cases o with
        | ok t r => exact absurd ho (hno t r)
        | abort t => simp [completed_cons,eachStep_cons,ho,hP,hC]

/-- Where each call that returns shows that it was admissible, a run that keeps the property has
admissible calls only. -/
theorem eachStep_of_completed
    (hok : ∀ s e t r,step s e=some (.ok t r) → P t → C s e)
    (hstop : ∀ s e,(∀ t r,step s e≠some (.ok t r)) → C s e) {s : σ} {es : List ε}
    (h : ∀ t∈completed step s es,P t) : EachStep step C s es := by
  induction es generalizing s with
  | nil => trivial
  | cons e es ih =>
    by_cases hret : ∃ t r,step s e=some (.ok t r)
    · obtain ⟨t,r,ho⟩ := hret
      simp only [completed_cons,ho,forall_mem_cons] at h
      simp only [eachStep_cons,ho]
      exact ⟨hok s e t r ho (h.2 t (mem_completed_self t es)),ih h.2⟩
    · have hno : ∀ t r,step s e≠some (.ok t r) := fun t r ho => hret ⟨t,r,ho⟩
      cases ho : step s e with
      | none => simp [eachStep_cons,ho,hstop s e hno]
      | some o =>
        cases o with
        | ok t r => exact absurd ho (hno t r)
        | abort t => simp [eachStep_cons,ho,hstop s e hno]

/-- A step that keeps a record beside the state makes the same runs of the state. -/
theorem completed_map {τ : Type*} {recorded : τ → ε → Option (Outcome τ ρ)} {π : τ → σ}
    (h : ∀ s e,(recorded s e).map (Outcome.mapState π)=step (π s) e) (s : τ) (es : List ε) :
    (completed recorded s es).map π=completed step (π s) es := by
  induction es generalizing s with
  | nil => rfl
  | cons e es ih =>
    simp only [completed_cons,map_cons,← h]
    cases ho : recorded s e with
    | none => rfl
    | some o =>
      cases o with
      | ok t r => exact congrArg _ (ih t)
      | abort t => rfl

/-- The same with the state of a failed assertion: the invariant covers the calls that
returned, `P` is what is left of it where one did not. -/
theorem visited_inv (hP : ∀ s,Inv s → P s)
    (hstep : ∀ s e o,Inv s → C s e → step s e=some o → o.Leaves Inv P) {s : σ} {es : List ε}
    (hs : Inv s) (hc : EachStep step C s es) : ∀ t∈visited step s es,P t := by
  induction es generalizing s with
  | nil =>
    intro t ht
    rw [mem_singleton.mp ht]
    exact hP s hs
  | cons e es ih =>
    intro t ht
    simp only [visited_cons,mem_cons] at ht
    simp only [eachStep_cons] at hc
    rcases ht with rfl | ht
    · exact hP t hs
    · cases ho : step s e with
      | none => simp [ho] at ht
      | some o =>
        have hleaves:=hstep s e o hs hc.1 ho
        cases o with
        | ok u r =>
          simp only [ho] at ht hc
          exact ih hleaves hc.2 t ht
        | abort u =>
          simp only [ho,mem_singleton] at ht
          rw [ht]
          exact hleaves

/-- Where a call that is not admissible leaves a state without the property, a run keeps it exactly
when all its calls are admissible. -/
theorem visited_iff (hP : ∀ s,Inv s → P s)
    (hstep : ∀ s e o,Inv s → C s e → step s e=some o → o.Leaves Inv P)
    (hbad : ∀ s e,Inv s → ¬ C s e → ∃ o,step s e=some o ∧ ¬ P o.state) {s : σ} {es : List ε}
    (hs : Inv s) : (∀ t∈visited step s es,P t) ↔ EachStep step C s es := by
  constructor
  · intro hall
    induction es generalizing s with
    | nil => trivial
    | cons e es ih =>
      simp only [visited_cons,forall_mem_cons] at hall
      obtain ⟨-,hrest⟩ := hall
      have hself : ∀ t,t∈visited step t es := fun t => by
        cases es <;> exact mem_cons_self ..
      by_cases hC : C s e
      · refine eachStep_cons.mpr ⟨hC,?_⟩
        cases ho : step s e with
        | none => trivial
        | some o =>
          have hleaves:=hstep s e o hs hC ho
          cases o with
          | abort t => trivial
          | ok t r =>
            rw [ho] at hrest
            exact ih hleaves hrest
      · obtain ⟨o,ho,hnot⟩ := hbad s e hs hC
        rw [ho] at hrest
        cases o with
        | ok t r => exact absurd (hrest t (hself t)) hnot
        | abort t => exact absurd (hrest t (mem_singleton_self t)) hnot
  · exact visited_inv hP hstep hs

/-- What holds of every admissible call in a state of the invariant holds of every call of a run
of admissible calls. -/
theorem eachOutcome_inv {Q : σ → ε → Outcome σ ρ → Prop}
    (hstep : ∀ s e o,Inv s → C s e → step s e=some o →
      Q s e o ∧ o.Leaves Inv fun _ => True) {s : σ} {es : List ε}
    (hs : Inv s) (hc : EachStep step C s es) : EachOutcome step Q s es := by
  induction es generalizing s with
  | nil => trivial
  | cons e es ih =>
    simp only [eachStep_cons] at hc
    simp only [EachOutcome]
    cases ho : step s e with
    | none => trivial
    | some o =>
      obtain ⟨hQ,hleaves⟩ := hstep s e o hs hc.1 ho
      cases o with
      | ok t r =>
        simp only [ho] at hc
        exact ⟨hQ,ih hleaves hc.2⟩
      | abort t => exact hQ

end Runs

end OgsDp.Lib
