import Mathlib.Data.List.Basic
import Mathlib.Order.Lattice

/-!
# Lists in the order of a key

Elements with the same key stand in the order of a stamp. Inserting in front of the first larger
key keeps the order if what is inserted has the latest stamp; a search from the front then finds
the least element of what it looks for.
-/

namespace OgsDp.Lib
open List

universe u v

variable {α : Type u} {ι : Type v} [LinearOrder ι]

/-- The key of `a` is smaller, or the keys are the same and `a` has been here longer. -/
def Before (key : α → ι) (since : α → Nat) (a b : α) : Prop :=
  key a<key b ∨ key a=key b ∧ since a<since b

def insertStable (key : α → ι) (a : α) : List α → List α
  | [] => [a]
  | b::l => if key a<key b then a::b::l else b::insertStable key a l

variable {key : α → ι} {since : α → Nat} {a b c : α} {l : List α}

theorem Before.le (h : Before key since a b) : key a≤key b := by
  rcases h with h | h
  · exact h.le
  · exact h.1.le

theorem Before.asymm (h : Before key since a b) : ¬ Before key since b a := by
  intro h'
  rcases h with h | ⟨heq,hlt⟩
  · exact not_le.mpr h h'.le
  · rcases h' with h' | ⟨-,hlt'⟩
    · exact h'.ne heq.symm
    · exact Nat.lt_asymm hlt hlt'

theorem mem_insertStable : b∈insertStable key a l ↔ b=a ∨ b∈l := by
  induction l with
  | nil => simp [insertStable]
  | cons c l ih =>
    simp only [insertStable]
    split
    · simp
    · simp only [mem_cons,ih]
      exact or_left_comm

theorem pairwise_insertStable (h : l.Pairwise (Before key since))
    (hnew : ∀ b∈l,since b<since a) :
    (insertStable key a l).Pairwise (Before key since) := by
  induction l with
  | nil => exact pairwise_singleton _ _
  | cons b l ih =>
    obtain ⟨hb,hl⟩ := pairwise_cons.mp h
    simp only [insertStable]
    split
    · rename_i hlt
      refine pairwise_cons.mpr ⟨?_,h⟩
      intro c hc
      rcases mem_cons.mp hc with rfl | hc
      · exact .inl hlt
      · exact .inl (hlt.trans_le (hb c hc).le)
    · rename_i hle
      refine pairwise_cons.mpr ⟨?_,ih hl fun c hc => hnew c (mem_cons_of_mem b hc)⟩
      intro c hc
      rcases mem_insertStable.mp hc with rfl | hc
      · rcases (not_lt.mp hle).lt_or_eq with hlt | heq
        · exact .inl hlt
        · exact .inr ⟨heq,hnew b mem_cons_self⟩
      · exact hb c hc

theorem insertStable_append {l' : List α} (hl : ∀ b∈l,key b≤key a)
    (hl' : ∀ b∈l',key a<key b) : insertStable key a (l++l')=l++a::l' := by
  induction l with
  | nil =>
    cases l' with
    | nil => rfl
    | cons b l' => exact if_pos (hl' b mem_cons_self)
  | cons b l ih =>
    have hb:=not_lt.mpr (hl b mem_cons_self)
    rw [cons_append,insertStable,if_neg hb,
      ih fun c hc => hl c (mem_cons_of_mem b hc)]
    rfl

/-- The order is that of the keys and stamps of the elements in the list. -/
theorem pairwise_before_congr {key' : α → ι} {since' : α → Nat}
    (h : l.Pairwise (Before key since)) (hkey : ∀ b∈l,key' b=key b)
    (hsince : ∀ b∈l,since' b=since b) : l.Pairwise (Before key' since') := by
  refine h.imp_of_mem ?_
  intro b c hb hc hbc
  unfold Before
  rw [hkey b hb,hkey c hc,hsince b hb,hsince c hc]
  exact hbc

end OgsDp.Lib
