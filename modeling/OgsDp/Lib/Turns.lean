import OgsDp.Lib.Checked

/-!
# Programs with loops that need not end

A loop is given a number of turns, and nothing is known of it when they are used up. A program
returns if some number of turns is enough.
-/

namespace OgsDp.Lib
open Option

universe u v

/-- A program whose loops get so many turns each. More of them do not change what came out. -/
structure Turns (α : Type u) where
  run : Nat → Option (Except Fault α)
  stable : ∀ {n r},run n=some r → run (n+1)=some r

namespace Turns

variable {α β : Type u} {σ : Type v} {x : Turns α} {f : α → Turns β} {a a' : α} {b : β} {n m : Nat}

def of (x : Except Fault α) : Turns α := ⟨fun _ => some x,id⟩

def bindRun (x : Turns α) (f : α → Turns β) (n : Nat) : Option (Except Fault β) :=
  match x.run n with
  | none => none
  | some (.error e) => some (.error e)
  | some (.ok a) => (f a).run n

theorem bindRun_ok {r : Except Fault β} :
    bindRun x f n=some r ↔
      (∃ e,x.run n=some (.error e) ∧ r = .error e) ∨
        ∃ a,x.run n=some (.ok a) ∧ (f a).run n=some r := by
  unfold bindRun
  cases x.run n with
  | none => exact iff_of_false nofun (by rintro (⟨_,h,_⟩ | ⟨_,h,_⟩) <;> cases h)
  | some r' =>
    cases r' with
    | error e =>
      constructor
      · exact fun h => .inl ⟨e,rfl,(some.inj h).symm⟩
      · rintro (⟨_,h,rfl⟩ | ⟨_,h,-⟩)
        · cases h
          rfl
        · cases h
    | ok a =>
      constructor
      · exact fun h => .inr ⟨a,rfl,h⟩
      · rintro (⟨_,h,-⟩ | ⟨_,h,hr⟩)
        · cases h
        · cases h
          exact hr

def bind (x : Turns α) (f : α → Turns β) : Turns β where
  run := bindRun x f
  stable h := by
    rcases bindRun_ok.mp h with ⟨e,hx,hr⟩ | ⟨a,hx,hr⟩
    · exact bindRun_ok.mpr (.inl ⟨e,x.stable hx,hr⟩)
    · exact bindRun_ok.mpr (.inr ⟨a,x.stable hx,(f a).stable hr⟩)

instance : Monad Turns where
  pure a := of (.ok a)
  bind := bind

theorem run_le {r : Except Fault α} (h : x.run n=some r) (hle : n ≤ m) : x.run m=some r := by
  induction hle with
  | refl => exact h
  | step _ ih => exact x.stable ih

/-- The program comes to an end with this value. -/
def Returns (x : Turns α) (a : α) : Prop := ∃ n,x.run n=some (.ok a)

theorem Returns.unique (h : x.Returns a) (h' : x.Returns a') : a=a' := by
  obtain ⟨n,hn⟩ := h
  obtain ⟨m,hm⟩ := h'
  have hmax:=run_le hn (Nat.le_max_left n m)
  rw [run_le hm (Nat.le_max_right n m)] at hmax
  exact (Except.ok.inj (some.inj hmax)).symm

@[simp] theorem returns_of {x : Except Fault α} : (of x).Returns a ↔ x = .ok a :=
  ⟨fun ⟨_,h⟩ => some.inj h,fun h => ⟨0,congrArg some h⟩⟩

@[simp] theorem returns_pure : (pure a : Turns α).Returns a' ↔ a=a' :=
  returns_of.trans ⟨Except.ok.inj,congrArg _⟩

@[simp] theorem returns_bind : (x >>= f).Returns b ↔ ∃ a,x.Returns a ∧ (f a).Returns b := by
  constructor
  · rintro ⟨n,h⟩
    rcases bindRun_ok.mp h with ⟨e,-,hr⟩ | ⟨a,hx,hr⟩
    · cases hr
    · exact ⟨a,⟨n,hx⟩,n,hr⟩
  · rintro ⟨a,⟨n,hn⟩,m,hm⟩
    exact ⟨max n m,bindRun_ok.mpr (.inr
      ⟨a,run_le hn (Nat.le_max_left n m),run_le hm (Nat.le_max_right n m)⟩)⟩

/-- What is done with the value does not decide whether there is one. -/
theorem exists_returns_bind_pure {f : α → β} :
    (∃ b,(x >>= fun a => pure (f a)).Returns b) ↔ ∃ a,x.Returns a := by
  simp only [returns_bind,returns_pure]
  constructor
  · rintro ⟨b,a,ha,-⟩
    exact ⟨a,ha⟩
  · rintro ⟨a,ha⟩
    exact ⟨f a,a,ha,rfl⟩

theorem run_bind_none (h : x.run n=none) : (x >>= f).run n=none := by
  show bindRun x f n=none
  rw [bindRun,h]

/-! ### Loops -/

def loopRun (step : σ → Except Fault (σ ⊕ α)) : Nat → σ → Option (Except Fault α)
  | 0, _ => none
  | n+1, s =>
    match step s with
    | .error e => some (.error e)
    | .ok (.inl s') => loopRun step n s'
    | .ok (.inr a) => some (.ok a)

theorem loopRun_stable (step : σ → Except Fault (σ ⊕ α)) {s : σ} {r : Except Fault α}
    (h : loopRun step n s=some r) : loopRun step (n+1) s=some r := by
  induction n generalizing s with
  | zero => cases h
  | succ n ih =>
    rw [loopRun] at h ⊢
    cases hstep : step s with
    | error e => rw [hstep] at h; exact h
    | ok next =>
      rw [hstep] at h
      cases next with
      | inl s' => exact ih h
      | inr a => exact h

def loop (step : σ → Except Fault (σ ⊕ α)) (s : σ) : Turns α :=
  ⟨fun n => loopRun step n s,loopRun_stable step⟩

variable {step : σ → Except Fault (σ ⊕ α)} {s s' : σ}

/-- Finitely many turns lead from the state to the value. -/
inductive Leads (step : σ → Except Fault (σ ⊕ α)) : σ → α → Prop
  | done {s : σ} {a : α} (h : step s = .ok (.inr a)) : Leads step s a
  | next {s s' : σ} {a : α} (h : step s = .ok (.inl s')) (hs : Leads step s' a) : Leads step s a

theorem returns_loop : (loop step s).Returns a ↔ Leads step s a := by
  constructor
  · rintro ⟨n,h⟩
    change loopRun step n s=some (.ok a) at h
    induction n generalizing s with
    | zero => cases h
    | succ n ih =>
      rw [loopRun] at h
      cases hstep : step s with
      | error e => rw [hstep] at h; cases h
      | ok next =>
        rw [hstep] at h
        cases next with
        | inl s' => exact .next hstep (ih h)
        | inr a' =>
          obtain rfl := Except.ok.inj (some.inj h)
          exact .done hstep
  · intro h
    induction h with
    | done h =>
      refine ⟨1,?_⟩
      show loopRun step 1 _=_
      rw [loopRun,h]
    | next h _ ih =>
      obtain ⟨n,hn⟩ := ih
      refine ⟨n+1,?_⟩
      show loopRun step (n+1) _=_
      rw [loopRun,h]
      exact hn

theorem Leads.keeps {I : σ → Prop} {Q : α → Prop} (h : Leads step s a)
    (hnext : ∀ s s',I s → step s = .ok (.inl s') → I s')
    (hdone : ∀ s a,I s → step s = .ok (.inr a) → Q a) (hs : I s) : Q a := by
  induction h with
  | done h => exact hdone _ _ hs h
  | next h _ ih => exact ih (hnext _ _ hs h)

/-- A loop ends if every turn succeeds and brings something down: by induction on a bound. -/
theorem leads_of_measure {I : σ → Prop} (measure : σ → Nat)
    (hturn : ∀ s,I s → (∃ a,step s = .ok (.inr a)) ∨
      ∃ s',step s = .ok (.inl s') ∧ I s' ∧ measure s' < measure s) (hs : I s) :
    ∃ a,Leads step s a := by
  obtain ⟨bound,hbound⟩ : ∃ bound,measure s<bound := ⟨_,Nat.lt_succ_self _⟩
  induction bound generalizing s with
  | zero => exact absurd hbound (Nat.not_lt_zero _)
  | succ bound ih =>
    rcases hturn s hs with ⟨a,ha⟩ | ⟨s',hs',hkeep,hlt⟩
    · exact ⟨a,.done ha⟩
    · obtain ⟨a,ha⟩ := ih hkeep (by omega)
      exact ⟨a,.next hs' ha⟩

/-- A loop whose turns succeed where those of another one do returns what that one returns. -/
theorem loopRun_of_step {step' : σ → Except Fault (σ ⊕ α)}
    (hstep : ∀ s r,step s = .ok r → step' s = .ok r) (h : loopRun step n s=some (.ok a)) :
    loopRun step' n s=some (.ok a) := by
  induction n generalizing s with
  | zero => cases h
  | succ n ih =>
    rw [loopRun] at h ⊢
    cases hs : step s with
    | error e => rw [hs] at h; cases h
    | ok r =>
      rw [hs] at h
      rw [hstep s r hs]
      cases r with
      | inl s' => exact ih h
      | inr a' => exact h

theorem loopRun_stuck (h : step s = .ok (.inl s)) (n : Nat) : loopRun step n s=none := by
  induction n with
  | zero => rfl
  | succ n ih => rw [loopRun,h]; exact ih

end Turns

end OgsDp.Lib
