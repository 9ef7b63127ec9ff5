import Mathlib.Data.List.Rotate
import Mathlib.Data.List.Nodup
import Mathlib.Data.List.Range

/-!
# Round-robin selection from a list

The positions of a list are gone round from the one behind the last that was taken, and the first
eligible one is taken next. As many selections as there are eligible positions take each of them
once.
-/

namespace OgsDp.Lib.RoundRobin
open List

variable {n cur i : Nat} {c d : Nat → Bool}

/-- The positions behind `cur`, then those from the front up to it. -/
def around (n cur : Nat) : List Nat :=
  List.range' (cur+1) (n-(cur+1))++List.range (cur+1)

def next (c : Nat → Bool) (n cur : Nat) : Option Nat := (around n cur).find? c

/-- The eligible positions in the order in which they are taken. -/
def turn (c : Nat → Bool) (n cur : Nat) : List Nat := (around n cur).filter c

/-- Each position is the next one behind the one before. -/
def Follows (c : Nat → Bool) (n : Nat) : Nat → List Nat → Prop
  | _, [] => True
  | cur, i::is => next c n cur=some i ∧ Follows c n i is

theorem around_eq_rotate (h : cur<n) : around n cur=(List.range n).rotate (cur+1) := by
  have hle : cur+1≤(List.range n).length := by
    rw [length_range]
    omega
  have htake : (List.range n).take (cur+1)=List.range (cur+1) := by
    rw [take_range,Nat.min_eq_left h]
  have hdrop : (List.range n).drop (cur+1)=List.range' (cur+1) (n-(cur+1)) := by
    rw [range_eq_range',drop_range',Nat.zero_add,Nat.mul_one]
  rw [rotate_eq_drop_append_take hle,htake,hdrop,around]

theorem around_perm (h : cur<n) : (around n cur).Perm (List.range n) := by
  rw [around_eq_rotate h]
  exact rotate_perm _ _

theorem mem_around (h : cur<n) : i∈around n cur ↔ i<n := by
  rw [(around_perm h).mem_iff,mem_range]

/-- Behind a position come those that came behind it, and then those that came in front. -/
theorem around_of_split (h : cur<n) {front behind : List Nat}
    (hsplit : around n cur=front++i::behind) :
    around n i=behind++front++[i] := by
  have hi : i<n := (mem_around h).mp (by simp [hsplit])
  have hlen : front.length<n := by
    have hall:=congrArg List.length hsplit
    rw [(around_perm h).length_eq] at hall
    simp at hall
    omega
  have hget : (around n cur)[front.length]?=some i := by simp [hsplit]
  rw [around_eq_rotate h,List.getElem?_rotate (by simpa using hlen),length_range,
    List.getElem?_range (Nat.mod_lt _ (by omega))] at hget
  have hpos:=Option.some.inj hget
  have hrot : (around n cur).rotate (front.length+1)=behind++front++[i] := by
    have happ : around n cur=(front++[i])++behind := by simp [hsplit]
    rw [happ,show front.length+1=(front++[i]).length by simp,
      rotate_append_length_eq,append_assoc]
  rw [← hrot,around_eq_rotate h,around_eq_rotate hi,rotate_rotate,
    ← rotate_mod,← rotate_mod (List.range n) (cur+1+_),length_range,← hpos]
  congr 1
  rw [Nat.mod_add_mod]
  congr 1
  omega

theorem next_eq_some : next c n cur=some i ↔
    ∃ front behind,around n cur=front++i::behind ∧ c i=true ∧
      ∀ j∈front,c j=false := by
  unfold next
  rw [List.find?_eq_some_iff_append]
  constructor
  · intro hfind
    obtain ⟨hi,front,behind,hsplit,hno⟩ := hfind
    exact ⟨front,behind,hsplit,hi,fun j hj => by simpa using hno j hj⟩
  · intro hfind
    obtain ⟨front,behind,hsplit,hi,hno⟩ := hfind
    exact ⟨hi,front,behind,hsplit,fun j hj => by simpa using hno j hj⟩

theorem next_eq_none (h : cur<n) : next c n cur=none ↔ ∀ j<n,c j=false := by
  unfold next
  rw [List.find?_eq_none]
  simp only [mem_around h,Bool.not_eq_true]

theorem next_lt (h : cur<n) (hnext : next c n cur=some i) : i<n ∧ c i=true := by
  obtain ⟨front,behind,hsplit,hi,-⟩ := next_eq_some.mp hnext
  exact ⟨(mem_around h).mp (by simp [hsplit]),hi⟩

theorem next_of_imp (h : cur<n) (himp : ∀ j,j<n → c j=true → d j=true)
    (hnext : next d n cur=some i) (hi : c i=true) : next c n cur=some i := by
  obtain ⟨front,behind,hsplit,-,hno⟩ := next_eq_some.mp hnext
  refine next_eq_some.mpr ⟨front,behind,hsplit,hi,fun j hj => ?_⟩
  by_contra hc
  have hlt : j<n := (mem_around h).mp (by simp [hsplit,hj])
  have hd:=himp j hlt (by simpa using hc)
  rw [hno j hj] at hd
  cases hd

theorem turn_perm (h : cur<n) : (turn c n cur).Perm ((List.range n).filter c) :=
  (around_perm h).filter c

theorem turn_cons (h : cur<n) {rest : List Nat} (hturn : turn c n cur=i::rest) :
    next c n cur=some i ∧ turn c n i=rest++[i] := by
  obtain ⟨front,behind,hsplit,hno,hi,hrest⟩ := List.filter_eq_cons_iff.mp hturn
  refine ⟨next_eq_some.mpr ⟨front,behind,hsplit,hi,fun j hj => by simpa using hno j hj⟩,?_⟩
  have hfront : front.filter c=[] := filter_eq_nil_iff.mpr hno
  rw [turn,around_of_split h hsplit,filter_append,filter_append,hfront,hrest]
  simp [hi]

theorem follows_front {taken left is : List Nat} (h : cur<n)
    (hturn : turn c n cur=taken++left) (hfollows : Follows c n cur is)
    (hlen : is.length=taken.length) : is=taken := by
  induction taken generalizing cur left is with
  | nil => exact length_eq_zero_iff.mp hlen
  | cons i taken ih =>
    cases is with
    | nil => cases hlen
    | cons j is =>
      obtain ⟨hj,hrest⟩ := hfollows
      obtain ⟨hnext,hturn'⟩ := turn_cons h hturn
      rw [hnext] at hj
      obtain rfl : i=j := Option.some.inj hj
      have hrotated : turn c n i=taken++(left++[i]) := by
        rw [← append_assoc]
        exact hturn'
      rw [ih (next_lt h hnext).1 hrotated hrest (by simpa using hlen)]

/-- As many selections as there are eligible positions take each of them once. -/
theorem follows_perm {is : List Nat} (h : cur<n) (hfollows : Follows c n cur is)
    (hlen : is.length=((List.range n).filter c).length) :
    is.Perm ((List.range n).filter c) := by
  have hperm:=turn_perm (c := c) h
  have hturn : turn c n cur=turn c n cur++[] := (append_nil _).symm
  rw [follows_front h hturn hfollows (hlen.trans hperm.length_eq.symm)]
  exact hperm

end OgsDp.Lib.RoundRobin
