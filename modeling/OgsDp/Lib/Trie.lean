import Mathlib.Data.List.Basic
import Mathlib.Logic.Basic

/-!
# Binary tries

A trie holds values under words of bits. The longest match of a word is the value under the
longest of its prefixes that has one. A value is removed together with the branch that only led
to it: one walk down clears the node and notes from which depth the branch can be cut.
-/

namespace OgsDp.Lib
open List Option

universe u

inductive Trie (α : Type u) where
  | null
  | node (value : Option α) (left right : Trie α)
  deriving DecidableEq

namespace Trie

variable {α : Type u} {a : α} {t s : Trie α} {bits w : List Bool} {b : Bool}

def value : Trie α → Option α
  | null => none
  | node v _ _ => v

def left : Trie α → Trie α
  | null => null
  | node _ l _ => l

def right : Trie α → Trie α
  | null => null
  | node _ _ r => r

def isNull : Trie α → Bool
  | null => true
  | node .. => false

def child (t : Trie α) (b : Bool) : Trie α := if b then t.right else t.left

def setChild (t : Trie α) (b : Bool) (s : Trie α) : Trie α :=
  if b then node t.value t.left s else node t.value s t.right

def get (t : Trie α) : List Bool → Option α
  | [] => t.value
  | b::bits => (t.child b).get bits

def add (a : α) (t : Trie α) : List Bool → Trie α
  | [] => node (some a) t.left t.right
  | b::bits => t.setChild b ((t.child b).add a bits)

/-- The longest match, `ret` where there is none. -/
def longest (ret : Option α) : Trie α → List Bool → Option α
  | null, _ => ret
  | node v _ _, [] => v.or ret
  | node v l r, b::bits => longest (v.or ret) ((node v l r).child b) bits

/-- The value under a word is cleared. `i` is the depth of the walk and `j` the depth below the
last node on the way that is needed for something else. -/
def clear : Trie α → List Bool → Nat → Nat → Trie α × Nat × Nat
  | null, _, i, j => (null,i,j)
  | node _ l r, [], i, j => (node none l r,i+1,if l.isNull && r.isNull then j else i+1)
  | node v l r, b::bits, i, j =>
    let t:=node v l r
    let s:=clear (t.child b) bits (i+1)
      (if (t.child !b).isNull && v.isNone then j else i+1)
    (t.setChild b s.1,s.2)

/-- What is at a depth on the way is cut off. -/
def cut : Nat → Trie α → List Bool → Trie α
  | 0, _, _ => null
  | k+1, node v l r, b::bits =>
    (node v l r).setChild b (cut k ((node v l r).child b) bits)
  | _+1, t, _ => t

def free (t : Trie α) (bits : List Bool) : Trie α :=
  let s:=t.clear bits 0 0
  if s.2.2<s.2.1 then s.1.cut s.2.2 bits else s.1

/-! ### What is added is found -/

@[simp] theorem get_null (w : List Bool) : (null : Trie α).get w=none := by
  induction w with
  | nil => rfl
  | cons b w ih => cases b <;> exact ih

@[simp] theorem setChild_get_nil : (t.setChild b s).get []=t.value := by
  cases b <;> rfl

theorem setChild_get_cons (c : Bool) : (t.setChild b s).get (c::w) =
    if c=b then s.get w else (t.child c).get w := by
  cases b <;> cases c <;> rfl

theorem get_add (t : Trie α) (bits w : List Bool) :
    (t.add a bits).get w = if w=bits then some a else t.get w := by
  induction bits generalizing t w with
  | nil =>
    cases w with
    | nil => rfl
    | cons c w => cases c <;> rfl
  | cons b bits ih =>
    cases w with
    | nil =>
      rw [add,setChild_get_nil,if_neg (cons_ne_nil b bits).symm]
      rfl
    | cons c w =>
      rw [add,setChild_get_cons,ih]
      by_cases hc : c=b
      · simp [hc,get]
      · simp [hc,get]

/-! ### What is freed is gone, and nothing else -/

def Empty (t : Trie α) : Prop := ∀ w,t.get w=none

theorem Empty.null : (null : Trie α).Empty := get_null

theorem Empty.setChild (hv : t.value=none) (ht : (t.child !b).Empty) (hs : s.Empty) :
    (t.setChild b s).Empty := by
  intro w
  cases w with
  | nil => rw [setChild_get_nil,hv]
  | cons c w =>
    rw [setChild_get_cons]
    by_cases hc : c=b
    · rw [if_pos hc]
      exact hs w
    · rw [if_neg hc,(Bool.eq_not.mpr hc : c = !b)]
      exact ht w

theorem isNull_iff : t.isNull=true ↔ t=null := by
  cases t <;> simp [isNull]

/-- The walk down: the word is cleared, and below the noted depth is nothing but the way. -/
structure Cleared (t : Trie α) (bits : List Bool) (i j : Nat) (s : Trie α × Nat × Nat) :
    Prop where
  get : ∀ w,s.1.get w = if w=bits then none else t.get w
  kept : s.2.2 ≤ i → s.2.2=j ∧ s.1.Empty
  cut : ∀ k,s.2.2=i+(k+1) → s.2.2<s.2.1 → ∀ w,(s.1.cut (k+1) bits).get w=s.1.get w

theorem cleared_null (bits : List Bool) (i j : Nat) :
    Cleared (null : Trie α) bits i j (null,i,j) where
  get := by simp
  kept := fun _ => ⟨rfl,Empty.null⟩
  cut := by
    intro k hk hlt
    simp only at hlt hk
    omega

theorem clear_cleared (t : Trie α) (bits : List Bool) (i j : Nat) (hj : j ≤ i) :
    Cleared t bits i j (t.clear bits i j) := by
  induction bits generalizing t i j with
  | nil =>
    cases t with
    | null => exact cleared_null [] i j
    | node v l r =>
      refine ⟨?_,?_,fun k _ _ w => rfl⟩
      · intro w
        cases w with
        | nil => rfl
        | cons c w => cases c <;> rfl
      · intro hle
        simp only [clear] at hle ⊢
        split at hle
        · rename_i hnull
          rw [if_pos hnull]
          rw [Bool.and_eq_true,isNull_iff,isNull_iff] at hnull
          rw [hnull.1,hnull.2]
          refine ⟨rfl,?_⟩
          intro w
          cases w with
          | nil => rfl
          | cons c w => cases c <;> exact get_null w
        · omega
  | cons b bits ih =>
    cases t with
    | null => exact cleared_null _ i j
    | node v l r =>
      generalize ht : node v l r=t
      have hvalue : v=t.value := by rw [← ht]; rfl
      generalize hj' : (if (t.child !b).isNull && v.isNone then j else i+1)=j'
      have hle : j' ≤ i+1 := by
        rw [← hj']
        split <;> omega
      have hs:=ih (t.child b) (i+1) j' hle
      have hclear : t.clear (b::bits) i j =
          (t.setChild b (clear (t.child b) bits (i+1) j').1,
            (clear (t.child b) bits (i+1) j').2) := by
        rw [← hj',← ht]
        rfl
      rw [hclear]
      generalize clear (t.child b) bits (i+1) j'=s at hs
      refine ⟨?_,?_,?_⟩
      · intro w
        cases w with
        | nil =>
          rw [setChild_get_nil,if_neg (cons_ne_nil b bits).symm]
          rfl
        | cons c w =>
          rw [setChild_get_cons,hs.get]
          by_cases hc : c=b
          · simp [hc,get]
          · simp [hc,get]
      · intro hkept
        simp only at hkept ⊢
        obtain ⟨hsame,hempty⟩ := hs.kept (by omega)
        rw [hsame] at hkept
        rw [← hj'] at hkept hsame
        split at hkept
        · rename_i hother
          rw [if_pos hother] at hsame
          rw [Bool.and_eq_true,isNull_iff,isNone_iff_eq_none] at hother
          refine ⟨hsame,Empty.setChild (hvalue ▸ hother.2) ?_ hempty⟩
          rw [hother.1]
          exact Empty.null
        · omega
      · intro k hk hlt w
        simp only at hk hlt ⊢
        have hcut : (t.setChild b s.1).cut (k+1) (b::bits)=t.setChild b (s.1.cut k bits) := by
          cases b <;> rfl
        rw [hcut]
        cases w with
        | nil => simp
        | cons c w =>
          rw [setChild_get_cons,setChild_get_cons]
          by_cases hc : c=b
          · rw [if_pos hc,if_pos hc]
            cases k with
            | zero =>
              rw [(hs.kept (by omega)).2 w]
              exact get_null w
            | succ k => exact hs.cut k (by omega) hlt w
          · rw [if_neg hc,if_neg hc]

theorem get_free (t : Trie α) (bits w : List Bool) :
    (t.free bits).get w = if w=bits then none else t.get w := by
  have hs:=clear_cleared t bits 0 0 (Nat.le_refl 0)
  rw [← hs.get w]
  unfold free
  generalize t.clear bits 0 0=s at hs
  simp only
  split
  · rename_i hlt
    cases hk : s.2.2 with
    | zero =>
      rw [(hs.kept (by omega)).2 w]
      exact get_null w
    | succ k =>
      rw [hk] at hlt
      exact hs.cut k (by omega) (by omega) w
  · rfl

/-! ### The longest match -/

/-- The value under the longest prefix of the word that has one. -/
def Longest (t : Trie α) (bits : List Bool) (a : α) : Prop :=
  ∃ w,w <+: bits ∧ t.get w=some a ∧
    ∀ w',w' <+: bits → t.get w'≠none → w'.length≤w.length

theorem longest_none {ret : Option α} (h : t.longest ret bits=none) :
    ret=none ∧ ∀ w,w <+: bits → t.get w=none := by
  induction bits generalizing t ret with
  | nil =>
    cases t with
    | null => exact ⟨h,fun w _ => get_null w⟩
    | node v l r =>
      simp only [longest,or_eq_none_iff] at h
      refine ⟨h.2,?_⟩
      intro w hw
      rw [List.prefix_nil.mp hw]
      exact h.1
  | cons b bits ih =>
    cases t with
    | null => exact ⟨h,fun w _ => get_null w⟩
    | node v l r =>
      simp only [longest] at h
      obtain ⟨hor,hget⟩ := ih h
      rw [or_eq_none_iff] at hor
      refine ⟨hor.2,?_⟩
      intro w hw
      rcases List.prefix_cons_iff.mp hw with rfl | ⟨w',rfl,hw'⟩
      · exact hor.1
      · exact hget w' hw'

theorem longest_some {ret : Option α} (h : t.longest ret bits=some a) :
    t.Longest bits a ∨ (ret=some a ∧ ∀ w,w <+: bits → t.get w=none) := by
  induction bits generalizing t ret with
  | nil =>
    cases t with
    | null => exact .inr ⟨h,fun w _ => get_null w⟩
    | node v l r =>
      cases v with
      | none =>
        refine .inr ⟨h,?_⟩
        intro w hw
        rw [List.prefix_nil.mp hw]
        rfl
      | some a' =>
        refine .inl ⟨[], nil_prefix,h,?_⟩
        intro w hw _
        obtain rfl := List.prefix_nil.mp hw
        exact Nat.le_refl _
  | cons b bits ih =>
    cases t with
    | null => exact .inr ⟨h,fun w _ => get_null w⟩
    | node v l r =>
      simp only [longest] at h
      rcases ih h with ⟨w,hw,hget,hmax⟩ | ⟨hor,hnone⟩
      · refine .inl ⟨b::w,(prefix_cons_inj b).mpr hw,hget,?_⟩
        intro w' hw' hne
        rcases List.prefix_cons_iff.mp hw' with rfl | ⟨w'',rfl,hw''⟩
        · exact Nat.zero_le _
        · exact Nat.succ_le_succ (hmax w'' hw'' hne)
      · have hdeeper : ∀ w,w <+: b::bits → w=[] ∨ (node v l r).get w=none := by
          intro w hw
          rcases List.prefix_cons_iff.mp hw with rfl | ⟨w',rfl,hw'⟩
          · exact .inl rfl
          · exact .inr (hnone w' hw')
        cases v with
        | none =>
          refine .inr ⟨hor,?_⟩
          intro w hw
          rcases hdeeper w hw with rfl | hget
          · rfl
          · exact hget
        | some a' =>
          refine .inl ⟨[], nil_prefix,hor,?_⟩
          intro w hw hne
          rcases hdeeper w hw with rfl | hget
          · exact Nat.le_refl _
          · exact absurd hget hne

end Trie

end OgsDp.Lib
