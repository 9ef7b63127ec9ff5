import Mathlib.Logic.Basic
import Mathlib.Data.List.Basic

/-!
# Programs that a check can stop

A call yields a value or stops at a check that fails. Where all that matters of the state is an
abstraction of it, and a step is known by what it needs and what it makes of that, so is a loop.
-/

namespace OgsDp.Lib

universe u v w

/-- What stops a C function: a failed assertion, or an access outside what it may touch. -/
inductive Fault where
  | assertion
  | read
  | write
  deriving DecidableEq

variable {ε : Type u} {α β : Type v} {σ : Type v} {τ : Type w}

/-- The call yields a value, of which `P` holds. -/
def Gives (x : Except ε α) (P : α → Prop) : Prop := ∃ a,x = .ok a ∧ P a

@[simp] theorem ok_bind (a : α) (f : α → Except ε β) : (Except.ok a >>= f)=f a := rfl

theorem bind_eq_ok {x : Except ε α} {f : α → Except ε β} {b : β} :
    (x >>= f) = .ok b ↔ ∃ a,x = .ok a ∧ f a = .ok b := by
  cases x with
  | error e => exact iff_of_false nofun fun ⟨a,ha,_⟩ => nomatch ha
  | ok a =>
    constructor
    · exact fun h => ⟨a,rfl,h⟩
    · rintro ⟨a',ha,h⟩
      cases ha
      exact h

theorem gives_ok {a : α} {P : α → Prop} : Gives (.ok a : Except ε α) P ↔ P a := by
  constructor
  · rintro ⟨b,hb,h⟩
    cases hb
    exact h
  · exact fun h => ⟨a,rfl,h⟩

theorem not_gives_error {e : ε} {P : α → Prop} : ¬ Gives (.error e) P := by
  rintro ⟨a,ha,-⟩
  cases ha

theorem gives_bind {x : Except ε α} {f : α → Except ε β} {P : β → Prop} :
    Gives (x >>= f) P ↔ Gives x fun a => Gives (f a) P := by
  cases x with
  | error e => exact iff_of_false not_gives_error not_gives_error
  | ok a => exact (gives_ok (P := fun a => Gives (f a) P)).symm

theorem gives_check {c : Prop} [Decidable c] {x : Except ε α} {e : ε} {P : α → Prop} :
    Gives (if c then x else .error e) P ↔ c ∧ Gives x P := by
  by_cases hc : c
  · rw [if_pos hc]
    exact (and_iff_right hc).symm
  · rw [if_neg hc]
    exact iff_of_false not_gives_error fun h => hc h.1

theorem Gives.mono {x : Except ε α} {P Q : α → Prop} (h : Gives x P) (himp : ∀ a,P a → Q a) :
    Gives x Q := by
  obtain ⟨a,ha,hP⟩ := h
  exact ⟨a,ha,himp a hP⟩

theorem gives_congr {x : Except ε α} {P Q : α → Prop} (h : ∀ a,P a ↔ Q a) :
    Gives x P ↔ Gives x Q :=
  ⟨fun hx => hx.mono fun a => (h a).1,fun hx => hx.mono fun a => (h a).2⟩

/-! ### Loops -/

section Loops

variable {γ : Type*} {step : σ → γ → Except ε σ} {abs : σ → τ}

/-- Every step of the abstract loop has what it needs. -/
def NeedsMet (needs : τ → γ → Prop) (next : τ → γ → τ) : τ → List γ → Prop
  | _, [] => True
  | t, c::cs => needs t c ∧ NeedsMet needs next (next t c) cs

/-- A loop whose steps are exact on the abstraction is exact on it. -/
theorem gives_foldlM (needs : τ → γ → Prop) (next : τ → γ → τ)
    (hstep : ∀ s c (Q : τ → Prop),Gives (step s c) (fun s' => Q (abs s')) ↔
      needs (abs s) c ∧ Q (next (abs s) c)) (cs : List γ) (s : σ) (Q : τ → Prop) :
    Gives (cs.foldlM step s) (fun s' => Q (abs s')) ↔
      NeedsMet needs next (abs s) cs ∧ Q (cs.foldl next (abs s)) := by
  induction cs generalizing s with
  | nil =>
    rw [List.foldlM_nil,List.foldl_nil]
    exact gives_ok.trans (and_iff_right trivial).symm
  | cons c cs ih =>
    rw [List.foldlM_cons,gives_bind,gives_congr fun s' => ih s']
    rw [hstep s c fun t => NeedsMet needs next t cs ∧ Q (cs.foldl next t)]
    exact and_assoc.symm

end Loops

end OgsDp.Lib
