import Mathlib.Data.List.Basic
import Mathlib.Logic.Function.Basic
import Mathlib.Order.Defs.PartialOrder

/-!
# Alarms that ring one after the other

Each alarm that runs is due at a time. An alarm that rings makes calls: they start and stop alarms,
also those whose turn is still to come.
-/

namespace OgsDp.Lib.Alarms
open Function List

universe u v

variable {α : Type u} {ι : Type v}

inductive Call (α : Type u) (ι : Type v) where
  | start (alarm : α) (time : ι)
  | stop (alarm : α)

namespace Call

def alarm : Call α ι → α
  | start a _ => a
  | stop a => a

/-- When its alarm is due afterwards. -/
def time : Call α ι → Option ι
  | start _ t => some t
  | stop _ => none

end Call

section Calls

variable [DecidableEq α]

def call (s : α → Option ι) (c : Call α ι) : α → Option ι := update s c.alarm c.time

def calls (s : α → Option ι) (cs : List (Call α ι)) : α → Option ι := cs.foldl call s

variable {s s' : α → Option ι} {a b : α} {c : Call α ι} {cs : List (Call α ι)}

theorem call_self (hc : c.alarm=b) : call s c b=c.time := by
  rw [call,hc,update_self]

theorem call_ne (hc : c.alarm≠b) : call s c b=s b := update_of_ne (Ne.symm hc) _ _

theorem calls_cons : calls s (c::cs)=calls (call s c) cs := rfl

theorem calls_append (cs' : List (Call α ι)) : calls s (cs++cs')=calls (calls s cs) cs' :=
  foldl_append

theorem calls_congr (h : s b=s' b) : calls s cs b=calls s' cs b := by
  induction cs generalizing s s' with
  | nil => exact h
  | cons c cs ih =>
    rw [calls_cons,calls_cons]
    apply ih
    by_cases hc : c.alarm=b
    · rw [call_self hc,call_self hc]
    · rw [call_ne hc,call_ne hc,h]

theorem calls_apply (s : α → Option ι) (cs : List (Call α ι)) (b : α) :
    calls s cs b=((cs.filter fun c => c.alarm=b).getLast?.map Call.time).getD (s b) := by
  induction cs generalizing s with
  | nil => rfl
  | cons c cs ih =>
    rw [calls_cons,ih]
    by_cases hc : c.alarm=b
    · have hlast : (List.filter (fun c => c.alarm=b) (c::cs)).getLast? =
          some ((cs.filter fun c => c.alarm=b).getLast?.getD c) := by
        rw [filter_cons,if_pos (by simpa using hc),List.getLast?_cons]
      rw [hlast,call_self hc]
      cases (cs.filter fun c => c.alarm=b).getLast? <;> rfl
    · rw [filter_cons,if_neg (by simpa using hc),call_ne hc]

end Calls

section Ring

variable [LE ι]

/-- It runs, and its time has come. -/
def Due (s : α → Option ι) (now : ι) (a : α) : Prop := ∃ t∈s a,t≤now

instance (s : α → Option ι) (now : ι) [DecidableLE ι] (a : α) : Decidable (Due s now a) :=
  Option.decidableExistsMem (s a)

/-- What an alarm does when it rings is nothing to another alarm but for the calls it makes. -/
theorem due_ring [DecidableEq α] {now : ι} {made : α → List (Call α ι)} {s : α → Option ι} {a b : α}
    (hab : a≠b) (cs : List (Call α ι)) :
    Due (calls (calls (call s (.stop a)) (made a)) cs) now b ↔
      Due (calls s (made a++cs)) now b := by
  have hstop : call s (.stop a) b=s b := call_ne (c := .stop a) hab
  unfold Due
  rw [calls_append,calls_congr (calls_congr hstop)]

variable [DecidableEq α] [DecidableLE ι]

/-- The alarms of the list that ring: each is asked when its turn comes, and stops when it rings.
The calls that it then makes are `made`. -/
def ring (now : ι) (made : α → List (Call α ι)) : (α → Option ι) → List α → List α
  | _, [] => []
  | s, a::l =>
    if Due s now a then a::ring now made (calls (call s (.stop a)) (made a)) l
    else ring now made s l

variable {now : ι} {made : α → List (Call α ι)} {s : α → Option ι} {l : List α} {a b : α}

theorem ring_due (h : Due s now a) :
    ring now made s (a::l)=a::ring now made (calls (call s (.stop a)) (made a)) l := if_pos h

theorem ring_skip (h : ¬ Due s now a) : ring now made s (a::l)=ring now made s l := if_neg h

/-- No alarm rings twice, and they ring in the order of the list. -/
theorem ring_sublist (now : ι) (made : α → List (Call α ι)) (s : α → Option ι) (l : List α) :
    (ring now made s l).Sublist l := by
  induction l generalizing s with
  | nil => exact Sublist.refl []
  | cons a l ih =>
    by_cases h : Due s now a
    · rw [ring_due h]
      exact (ih _).cons_cons a
    · rw [ring_skip h]
      exact (ih _).cons a

/-- The alarms that are heard all ring if and only if each of them is due after the calls of those
in front of it. -/
theorem ring_all_iff {heard : α → Bool}
    (hquiet : ∀ a,¬ heard a → made a=[]) (hl : l.Nodup) :
    (ring now made s l).filter heard=l.filter heard ↔
      ∀ (l₁ : List α) b l₂,l=l₁++b::l₂ → heard b → Due (calls s (l₁.flatMap made)) now b := by
  induction l generalizing s with
  | nil => simp [ring]
  | cons a l ih =>
    obtain ⟨ha,hl⟩ := nodup_cons.mp hl
    have hsplit : (∀ (l₁ : List α) b l₂,a::l=l₁++b::l₂ → heard b →
        Due (calls s (l₁.flatMap made)) now b) ↔ (heard a → Due s now a) ∧
          ∀ (l₁ : List α) b l₂,l=l₁++b::l₂ → heard b →
            Due (calls s (made a++l₁.flatMap made)) now b := by
      constructor
      · intro h
        refine ⟨fun hh => h [] a l rfl hh,fun l₁ b l₂ he hb => ?_⟩
        exact h (a::l₁) b l₂ (congrArg (a :: ·) he) hb
      · intro h l₁ b l₂ he hb
        cases l₁ with
        | nil =>
          cases he
          exact h.1 hb
        | cons x l₁ =>
          cases he
          exact h.2 l₁ b l₂ rfl hb
    have hnext : ∀ s',(∀ b,b≠a → ∀ cs,Due (calls s' cs) now b ↔
        Due (calls s (made a++cs)) now b) → ((ring now made s' l).filter heard=l.filter heard ↔
          ∀ (l₁ : List α) b l₂,l=l₁++b::l₂ → heard b →
            Due (calls s (made a++l₁.flatMap made)) now b) := by
      intro s' hs'
      rw [ih hl]
      refine forall₃_congr fun l₁ b l₂ => forall₂_congr fun he hb => hs' b ?_ _
      intro hba
      exact ha (hba ▸ he ▸ mem_append_right l₁ mem_cons_self)
    have hrest:=hnext (calls (call s (.stop a)) (made a)) fun b hb cs => due_ring hb.symm cs
    rw [hsplit]
    by_cases hheard : heard a
    · rw [filter_cons_of_pos hheard]
      by_cases hdue : Due s now a
      · rw [ring_due hdue,filter_cons_of_pos hheard,cons_inj_right,
          hrest]
        simp [hdue]
      · rw [ring_skip hdue]
        refine iff_of_false (fun he => ?_) (fun h => hdue (h.1 hheard))
        have hmem : a∈(ring now made s l).filter heard := he ▸ mem_cons_self
        exact ha ((ring_sublist now made s l).subset (mem_of_mem_filter hmem))
    · rw [filter_cons_of_neg hheard]
      by_cases hdue : Due s now a
      · rw [ring_due hdue,filter_cons_of_neg hheard,hrest]
        simp [hheard]
      · rw [ring_skip hdue,hnext s fun b _ cs => by rw [hquiet a hheard,nil_append]]
        simp [hheard]

end Ring

end OgsDp.Lib.Alarms
