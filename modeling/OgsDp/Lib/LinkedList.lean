import Mathlib.Data.List.Nodup
import Mathlib.Data.List.Basic
import Mathlib.Logic.Function.Basic
import Mathlib.Tactic.SplitIfs

/-!
# Doubly linked lists inside their nodes

A list is a head with its two ends, and each node keeps its two neighbours. `Chained` says that
a head and the memory of the nodes are one list; the rules say what adding a node at the end and
taking a node out make of it, and that the nodes of other lists are left alone.
-/

namespace OgsDp.Lib.LinkedList
open Function List

/-- The neighbours that the nodes keep. -/
structure Links (α : Type*) where
  prev : α → Option α
  next : α → Option α

/-- The last and the first node of a list. -/
structure Head (α : Type*) where
  prev : Option α
  next : Option α
  deriving DecidableEq

def Head.empty {α : Type*} : Head α := ⟨none,none⟩

section Operations

variable {α : Type*}

/-- The nodes from `n` on, if there are no more of them than there is fuel. -/
def walk (m : Links α) : Nat → Option α → Option (List α)
  | _, none => some []
  | 0, some _ => none
  | fuel+1, some n => (walk m fuel (m.next n)).map (n :: ·)

variable [DecidableEq α]

def Links.setPrev (m : Links α) (n : α) (p : Option α) : Links α :=
  { m with prev := update m.prev n p }

def Links.setNext (m : Links α) (n : α) (p : Option α) : Links α :=
  { m with next := update m.next n p }

def add (m : Links α) (h : Head α) (n : α) : Links α × Head α :=
  let m:=(m.setPrev n h.prev).setNext n none
  match h.prev with
  | some p => (m.setNext p (some n),{ h with prev := some n })
  | none => (m,⟨some n,some n⟩)

def remove (m : Links α) (h : Head α) (n : α) : Links α × Head α :=
  let prev:=m.prev n
  let next:=m.next n
  let r := match prev with
    | some p => (m.setNext p next,h)
    | none => (m,{ h with next := next })
  match next with
  | some q => (r.1.setPrev q prev,r.2)
  | none => (r.1,{ r.2 with prev := prev })

variable {m : Links α} {h : Head α} {n k : α}

theorem add_head : (add m h n).2=⟨some n,if h.prev=none then some n else h.next⟩ := by
  unfold add
  cases h.prev <;> rfl

theorem add_prev : (add m h n).1.prev k = if k=n then h.prev else m.prev k := by
  unfold add
  cases h.prev <;> simp [Links.setPrev,Links.setNext,update_apply]

theorem add_next : (add m h n).1.next k =
    if h.prev=some k then some n else if k=n then none else m.next k := by
  unfold add
  cases hp : h.prev with
  | none => simp [Links.setPrev,Links.setNext,update_apply]
  | some p => simp [Links.setPrev,Links.setNext,update_apply,eq_comm]

theorem remove_head : (remove m h n).2 =
    ⟨if m.next n=none then m.prev n else h.prev,
      if m.prev n=none then m.next n else h.next⟩ := by
  unfold remove
  cases hp : m.prev n <;> cases hq : m.next n <;> simp

theorem remove_prev : (remove m h n).1.prev k =
    if m.next n=some k then m.prev n else m.prev k := by
  unfold remove
  cases hp : m.prev n <;> cases hq : m.next n <;>
    simp [Links.setPrev,Links.setNext,update_apply,eq_comm]

theorem remove_next : (remove m h n).1.next k =
    if m.prev n=some k then m.next n else m.next k := by
  unfold remove
  cases hp : m.prev n <;> cases hq : m.next n <;>
    simp [Links.setPrev,Links.setNext,update_apply,eq_comm]

end Operations

/-! ### Chains -/

section Chains

variable {α : Type*}

/-- The nodes of `l` are linked in its order, and the head has its ends. -/
structure Chained (m : Links α) (h : Head α) (l : List α) : Prop where
  nodup : l.Nodup
  first : h.next=l.head?
  last : h.prev=l.getLast?
  linked : ∀ a n b,l=a++n::b → m.prev n=a.getLast? ∧ m.next n=b.head?

variable {m m' : Links α} {h : Head α} {l : List α} {n : α}

theorem chained_empty (m : Links α) : Chained m Head.empty [] where
  nodup := nodup_nil
  first := rfl
  last := rfl
  linked := by
    intro a n b hl
    simp at hl

theorem Chained.congr (hc : Chained m h l) (hprev : ∀ n∈l,m'.prev n=m.prev n)
    (hnext : ∀ n∈l,m'.next n=m.next n) : Chained m' h l where
  nodup := hc.nodup
  first := hc.first
  last := hc.last
  linked := by
    intro a n b hl
    have hmem : n∈l := by simp [hl]
    rw [hprev n hmem,hnext n hmem]
    exact hc.linked a n b hl

theorem walk_suffix (hlinked : ∀ a n b,l=a++n::b → m.next n=b.head?) (fuel : Nat)
    (a b : List α) (hl : l=a++b) (hfuel : b.length≤fuel) :
    walk m fuel b.head?=some b := by
  induction b generalizing a fuel with
  | nil => cases fuel <;> rfl
  | cons n b ih =>
    cases fuel with
    | zero => simp at hfuel
    | succ fuel =>
      have hrest : walk m fuel b.head?=some b := by
        apply ih fuel (a++[n])
        · simp [hl]
        · simpa using hfuel
      simp only [List.head?_cons,walk]
      rw [hlinked a n b hl,hrest]
      rfl

theorem Chained.walk_eq (hc : Chained m h l) {fuel : Nat} (hfuel : l.length≤fuel) :
    walk m fuel h.next=some l := by
  rw [hc.first]
  exact walk_suffix (fun a n b hl => (hc.linked a n b hl).2) fuel [] l rfl hfuel

theorem Chained.unique {l' : List α} (hc : Chained m h l) (hc' : Chained m h l') : l=l' := by
  have hlong:=hc.walk_eq (Nat.le_max_left l.length l'.length)
  have hlong':=hc'.walk_eq (Nat.le_max_right l.length l'.length)
  exact Option.some.inj (hlong.symm.trans hlong')

theorem Chained.neighbours (hc : Chained m h l) (hn : n∈l) {k : α}
    (hk : m.prev n=some k ∨ m.next n=some k) : k∈l := by
  obtain ⟨a,b,rfl⟩ := append_of_mem hn
  obtain ⟨hprev,hnext⟩ := hc.linked a n b rfl
  rcases hk with hk | hk
  · rw [hprev] at hk
    exact mem_append_left _ (List.mem_of_getLast? hk)
  · rw [hnext] at hk
    exact mem_append_right _ (mem_cons_of_mem n (List.mem_of_head? hk))

variable [DecidableEq α]

/-! ### A node at the end -/

theorem Chained.add_others (hc : Chained m h l) {k : α} (hk : k∉l) (hkn : k≠n) :
    (add m h n).1.prev k=m.prev k ∧ (add m h n).1.next k=m.next k := by
  have hlast : h.prev≠some k := by
    intro hp
    rw [hc.last] at hp
    exact hk (List.mem_of_getLast? hp)
  rw [add_prev,add_next,if_neg hkn,if_neg hlast,if_neg hkn]
  exact ⟨rfl,rfl⟩

theorem Chained.add (hc : Chained m h l) (hn : n∉l) :
    Chained (LinkedList.add m h n).1 (LinkedList.add m h n).2 (l++[n]) where
  nodup := by
    refine nodup_append.mpr ⟨hc.nodup,nodup_singleton n,?_⟩
    intro a ha b hb he
    rw [mem_singleton.mp hb] at he
    exact hn (he ▸ ha)
  first := by
    rw [add_head,hc.first,hc.last]
    cases l <;> simp
  last := by
    rw [add_head]
    simp
  linked := by
    intro a k b hl
    have hlast:=hc.last
    rcases eq_nil_or_concat b with rfl | ⟨b,x,rfl⟩
    · -- The node that was added.
      obtain ⟨rfl,hk⟩ := append_inj' hl rfl
      obtain rfl : n=k := by simpa using hk
      have hprev : h.prev≠some n := by
        intro hp
        rw [hlast] at hp
        exact hn (List.mem_of_getLast? hp)
      rw [add_prev,add_next,if_pos rfl,if_neg hprev,if_pos rfl]
      exact ⟨hlast,rfl⟩
    · have hsplit : l++[n]=(a++k::b)++[x] := by simpa using hl
      obtain ⟨rfl,hx⟩ := append_inj' hsplit rfl
      obtain rfl : n=x := by simpa using hx
      have hkn : k≠n := by
        rintro rfl
        exact hn (by simp)
      obtain ⟨hprev,hnext⟩ := hc.linked a k b rfl
      rw [add_prev,add_next,if_neg hkn,if_neg hkn]
      refine ⟨hprev,?_⟩
      cases b with
      | nil =>
        have hpk : h.prev=some k := by simpa using hlast
        simp [hpk]
      | cons y b =>
        have hpk : h.prev≠some k := by
          intro hpk
          rw [hpk,List.getLast?_append_cons,List.getLast?_cons_cons] at hlast
          have hmem : k∈y::b := List.mem_of_getLast? hlast.symm
          have hnodup:=(nodup_append.mp hc.nodup).2.1
          exact (nodup_cons.mp hnodup).1 hmem
        rw [if_neg hpk,hnext]
        simp

/-! ### A node taken out -/

theorem Chained.remove_others (hc : Chained m h l) (hn : n∈l) {k : α} (hk : k∉l) :
    (remove m h n).1.prev k=m.prev k ∧ (remove m h n).1.next k=m.next k := by
  have hprev : m.prev n≠some k := fun hp => hk (hc.neighbours hn (.inl hp))
  have hnext : m.next n≠some k := fun hp => hk (hc.neighbours hn (.inr hp))
  rw [remove_prev,remove_next,if_neg hprev,if_neg hnext]
  exact ⟨rfl,rfl⟩

theorem Chained.remove_split {a b : List α} (hc : Chained m h (a++n::b)) :
    Chained (LinkedList.remove m h n).1 (LinkedList.remove m h n).2 (a++b) := by
  obtain ⟨hprev,hnext⟩ := hc.linked a n b rfl
  have hfirst:=hc.first
  have hlast:=hc.last
  have hnodup:=hc.nodup
  have hdisj : ∀ x∈a,∀ y∈b,x≠y := by
    intro x hx y hy
    exact (nodup_append.mp hnodup).2.2 x hx y (mem_cons_of_mem n hy)
  refine ⟨?_,?_,?_,?_⟩
  · exact hnodup.sublist (Sublist.append_left (sublist_cons_self n b) a)
  · rw [remove_head,hprev,hnext,hfirst]
    cases a <;> simp
  · rw [remove_head,hprev,hnext,hlast]
    cases b <;> simp
  · intro c k d hl
    rw [remove_prev,remove_next,hprev,hnext]
    rcases List.append_eq_append_iff.mp hl with ⟨e,rfl,rfl⟩ | ⟨e,rfl,hd⟩
    · -- The node is behind the one taken out.
      obtain ⟨hkp,hkn⟩ := hc.linked (a++n::e) k d (by simp)
      have hne : a.getLast?≠some k := by
        intro hp
        exact hdisj k (List.mem_of_getLast? hp) k (by simp) rfl
      rw [if_neg hne]
      refine ⟨?_,hkn⟩
      cases e with
      | nil => simp
      | cons x e =>
        have hxk : x≠k := by
          rintro rfl
          have hb:=(nodup_cons.mp (nodup_append.mp hnodup).2.1).2
          exact (nodup_cons.mp hb).1 (by simp)
        rw [if_neg (by simpa using hxk),hkp]
        simp
    · cases e with
      | nil =>
        obtain rfl : k::d=b := by simpa using hd
        obtain ⟨hkp,hkn⟩ := hc.linked (c++[n]) k d (by simp)
        have hne : c.getLast?≠some k := by
          intro hp
          exact hdisj k (by simpa using List.mem_of_getLast? hp) k (by simp) rfl
        rw [append_nil,if_neg hne]
        exact ⟨by simp,hkn⟩
      | cons x e =>
        obtain rfl : k=x := (cons.inj hd).1
        obtain rfl : d=e++b := (cons.inj hd).2
        -- The node is before the one taken out.
        obtain ⟨hkp,hkn⟩ := hc.linked c k (e++n::b) (by simp)
        have hne : b.head?≠some k := by
          intro hp
          exact hdisj k (by simp) k (List.mem_of_head? hp) rfl
        rw [if_neg hne]
        refine ⟨hkp,?_⟩
        rcases eq_nil_or_concat e with rfl | ⟨e,x,rfl⟩
        · simp
        · have hxk : x≠k := by
            rintro rfl
            have hb:=(nodup_append.mp (nodup_append.mp hnodup).1).2.1
            exact (nodup_cons.mp hb).1 (by simp)
          have hgl : (c++k::e.concat x).getLast?=some x := by
            rw [concat_eq_append,← cons_append,← append_assoc,
              List.getLast?_concat]
          rw [hgl,if_neg (by simpa using hxk),hkn]
          simp

theorem Chained.remove (hc : Chained m h l) (hn : n∈l) :
    Chained (LinkedList.remove m h n).1 (LinkedList.remove m h n).2 (l.erase n) := by
  obtain ⟨a,b,rfl⟩ := append_of_mem hn
  have hna : n∉a := by
    intro ha
    exact (nodup_append.mp hc.nodup).2.2 n ha n (by simp) rfl
  rw [erase_append_right _ hna,erase_cons_head]
  exact hc.remove_split

theorem Chained.next_first {b : List α} (hc : Chained m h (n::b)) :
    m.next n=(LinkedList.remove m h n).2.next := by
  obtain ⟨-,hnext⟩ := hc.linked [] n b rfl
  have hrest : Chained (LinkedList.remove m h n).1 (LinkedList.remove m h n).2 b :=
    hc.remove_split (a := [])
  rw [hrest.first,hnext]

end Chains

/-! ### Several lists in one memory -/

section Families

variable {α ι : Type*}

/-- The heads of `is` have the lists `lists`, and no two of them share a node. -/
structure Family (m : Links α) (heads : ι → Head α) (is : List ι) (lists : ι → List α) : Prop where
  chained : ∀ i∈is,Chained m (heads i) (lists i)
  apart : ∀ i∈is,∀ j∈is,∀ n,n∈lists i → n∈lists j → i=j

variable {m : Links α} {heads heads' : ι → Head α} {is js : List ι} {lists lists' : ι → List α}
  {i j : ι} {n : α}

theorem Family.congr (h : Family m heads is lists) (hjs : ∀ i∈js,i∈is)
    (hheads : ∀ i∈js,heads' i=heads i) (hlists : ∀ i∈js,lists' i=lists i) :
    Family m heads' js lists' where
  chained := by
    intro i hi
    rw [hheads i hi,hlists i hi]
    exact h.chained i (hjs i hi)
  apart := by
    intro i hi j hj n hn hn'
    rw [hlists i hi] at hn
    rw [hlists j hj] at hn'
    exact h.apart i (hjs i hi) j (hjs j hj) n hn hn'

variable [DecidableEq ι]

theorem Family.cons (h : Family m heads is lists) (hhead : heads i=Head.empty)
    (hlist : lists i=[]) : Family m heads (i::is) lists where
  chained := by
    intro k hk
    by_cases hki : k=i
    · rw [hki,hhead,hlist]
      exact chained_empty m
    · exact h.chained k ((mem_cons.mp hk).resolve_left hki)
  apart := by
    intro k hk l hl n hn hn'
    have hne : ∀ k,n∈lists k → k≠i := by
      rintro k hn rfl
      rw [hlist] at hn
      cases hn
    exact h.apart k ((mem_cons.mp hk).resolve_left (hne k hn)) l
      ((mem_cons.mp hl).resolve_left (hne l hn')) n hn hn'

theorem Family.move (h : Family m heads is lists) (hi : i∈is) (hj : j∈is) (hij : i≠j)
    (hempty : lists i=[]) :
    Family m (update (update heads i (heads j)) j Head.empty) is
      (update (update lists i (lists j)) j []) where
  chained := by
    intro k hk
    by_cases hkj : k=j
    · subst hkj
      simp only [update_self]
      exact chained_empty m
    · rw [update_of_ne hkj,update_of_ne hkj]
      by_cases hki : k=i
      · subst hki
        simp only [update_self]
        exact h.chained j hj
      · rw [update_of_ne hki,update_of_ne hki]
        exact h.chained k hk
  apart := by
    -- Who has a node now is `i` if it was `j`, and no other has changed.
    have hnow : ∀ k∈is,∀ n,
        n∈update (update lists i (lists j)) j [] k →
          k=i ∧ n∈lists j ∨ k≠j ∧ n∈lists k := by
      intro k hk n hn
      by_cases hkj : k=j
      · rw [hkj,update_self] at hn
        cases hn
      · rw [update_of_ne hkj] at hn
        by_cases hki : k=i
        · rw [hki,update_self] at hn
          exact .inl ⟨hki,hn⟩
        · rw [update_of_ne hki] at hn
          exact .inr ⟨hkj,hn⟩
    intro k hk l hl n hkn hln
    rcases hnow k hk n hkn with ⟨rfl,hjn⟩ | ⟨hkj,hkn'⟩
    · rcases hnow l hl n hln with ⟨rfl,-⟩ | ⟨hlj,hln'⟩
      · rfl
      · exact absurd (h.apart l hl j hj n hln' hjn) hlj
    · rcases hnow l hl n hln with ⟨rfl,hjn⟩ | ⟨-,hln'⟩
      · exact absurd (h.apart k hk j hj n hkn' hjn) hkj
      · exact h.apart k hk l hl n hkn' hln'

variable [DecidableEq α]

theorem Family.add (h : Family m heads is lists) (hi : i∈is) (hn : ∀ k∈is,n∉lists k) :
    Family (LinkedList.add m (heads i) n).1
      (update heads i (LinkedList.add m (heads i) n).2) is
      (update lists i (lists i++[n])) where
  chained := by
    intro k hk
    by_cases hki : k=i
    · subst hki
      simp only [update_self]
      exact (h.chained k hk).add (hn k hk)
    · rw [update_of_ne hki,update_of_ne hki]
      have hothers : ∀ x∈lists k,(LinkedList.add m (heads i) n).1.prev x=m.prev x ∧
          (LinkedList.add m (heads i) n).1.next x=m.next x := by
        intro x hx
        apply (h.chained i hi).add_others
        · exact fun hx' => hki (h.apart k hk i hi x hx hx')
        · rintro rfl
          exact hn k hk hx
      exact (h.chained k hk).congr (fun x hx => (hothers x hx).1) fun x hx => (hothers x hx).2
  apart := by
    have hnow : ∀ k∈is,∀ x,x∈update lists i (lists i++[n]) k →
        x∈lists k ∨ k=i ∧ x=n := by
      intro k hk x hx
      by_cases hki : k=i
      · rw [hki,update_self] at hx
        rcases mem_append.mp hx with hx | hx
        · exact .inl (hki ▸ hx)
        · exact .inr ⟨hki,mem_singleton.mp hx⟩
      · rw [update_of_ne hki] at hx
        exact .inl hx
    intro k hk l hl x hkx hlx
    rcases hnow k hk x hkx with hkx' | ⟨rfl,rfl⟩
    · rcases hnow l hl x hlx with hlx' | ⟨rfl,rfl⟩
      · exact h.apart k hk l hl x hkx' hlx'
      · exact absurd hkx' (hn k hk)
    · rcases hnow l hl x hlx with hlx' | ⟨rfl,-⟩
      · exact absurd hlx' (hn l hl)
      · rfl

theorem Family.remove (h : Family m heads is lists) (hi : i∈is) (hn : n∈lists i) :
    Family (LinkedList.remove m (heads i) n).1
      (update heads i (LinkedList.remove m (heads i) n).2) is
      (update lists i ((lists i).erase n)) where
  chained := by
    intro k hk
    by_cases hki : k=i
    · subst hki
      simp only [update_self]
      exact (h.chained k hk).remove hn
    · rw [update_of_ne hki,update_of_ne hki]
      have hothers : ∀ x∈lists k,(LinkedList.remove m (heads i) n).1.prev x=m.prev x ∧
          (LinkedList.remove m (heads i) n).1.next x=m.next x := by
        intro x hx
        apply (h.chained i hi).remove_others hn
        exact fun hx' => hki (h.apart k hk i hi x hx hx')
      exact (h.chained k hk).congr (fun x hx => (hothers x hx).1) fun x hx => (hothers x hx).2
  apart := by
    have hnow : ∀ k,∀ x∈update lists i ((lists i).erase n) k,x∈lists k := by
      intro k x hx
      by_cases hki : k=i
      · rw [hki,update_self] at hx
        exact hki ▸ mem_of_mem_erase hx
      · rw [update_of_ne hki] at hx
        exact hx
    intro k hk l hl x hx hx'
    exact h.apart k hk l hl x (hnow k x hx) (hnow l x hx')

end Families

end OgsDp.Lib.LinkedList
