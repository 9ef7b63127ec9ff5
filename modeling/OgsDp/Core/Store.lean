import Mathlib.Data.List.Nodup
import OgsDp.Core.Pool

/-!
# Objects of a pool in lists (lib/core/ogs-pool.h, ogs-list.h)

The objects of one kind are the nodes of a pool, and each is in the list that is its home from its
creation to its removal.
-/

namespace OgsDp.Core
open Function List

/-- The list that an object belongs to and the id that it got. -/
class Housed (X : Type) (L : outParam Type) where
  home : X → L
  ident : X → Nat

export Housed (home ident)

structure Store (X L : Type) where
  pool : Pool
  obj : Nat → X
  list : L → List Nat

namespace Store

section Operations

variable {X L : Type}

def init (size : Nat) (obj : Nat → X) : Store X L where
  pool := Pool.init size
  obj := obj
  list := fun _ => []

def setObj (s : Store X L) (r : Nat) (x : X) : Store X L :=
  { s with obj := update s.obj r x }

def Live (s : Store X L) (r : Nat) : Prop := s.pool.index r=some r

instance (s : Store X L) (r : Nat) : Decidable (s.Live r) := inferInstanceAs (Decidable (_=_))

variable [DecidableEq L] [Housed X L]

def add (s : Store X L) (pool : Pool) (r : Nat) (x : X) : Store X L where
  pool := pool
  obj := update s.obj r x
  list := update s.list (home x) (s.list (home x)++[r])

def remove (s : Store X L) (r : Nat) : Store X L where
  pool := s.pool.idFree r (ident (s.obj r))
  obj := s.obj
  list := update s.list (home (s.obj r)) ((s.list (home (s.obj r))).erase r)

end Operations

section Shape

variable {X L : Type} [Housed X L]

/-- The lists hold exactly the nodes in use, each in its home, and what an id leads to is in use
and has that id. -/
structure Lists (s : Store X L) : Prop where
  split : ∃ q live,Pool.Split s.pool q live ∧ ∀ r,r∈live ↔ ∃ l,r∈s.list l
  listed : ∀ l r,r∈s.list l → home (s.obj r)=l
  nodup : ∀ l,(s.list l).Nodup
  found : ∀ i r,s.pool.findById i=some r → ident (s.obj r)=i ∧ ∃ l,r∈s.list l

end Shape

section Objects

variable {X L : Type} {s : Store X L} {r i : Nat} {x : X}

@[simp] theorem setObj_self : (s.setObj r x).obj r=x := update_self ..

theorem setObj_of_ne (h : i≠r) : (s.setObj r x).obj i=s.obj i := update_of_ne h ..

variable [Housed X L] {l : L}

theorem lists_init (size : Nat) (obj : Nat → X) : (init size obj : Store X L).Lists where
  split := ⟨_,_,Pool.split_init size,by simp [init]⟩
  listed := by simp [init]
  nodup := by simp [init]
  found := by simp [init,Pool.init,Pool.findById]

theorem Lists.mem_of_live (h : s.Lists) (hr : s.Live r) : r∈s.list (home (s.obj r)) := by
  obtain ⟨q,live,hs,hl⟩ := h.split
  have hlive : r∈live := by
    by_contra hno
    have hnone:=hs.index_free r hno
    rw [Live,hnone] at hr
    cases hr
  obtain ⟨l,hmem⟩ := (hl r).mp hlive
  rw [h.listed l r hmem]
  exact hmem

theorem Lists.live_of_mem (h : s.Lists) (hr : r∈s.list l) : s.Live r := by
  obtain ⟨q,live,hs,hl⟩ := h.split
  exact hs.index_live r ((hl r).mpr ⟨l,hr⟩)

theorem Lists.live_of_found (h : s.Lists) (hr : s.pool.findById i=some r) : s.Live r := by
  obtain ⟨-,l,hmem⟩ := h.found i r hr
  exact h.live_of_mem hmem

theorem Lists.setObj (h : s.Lists) (hx : home x=home (s.obj r))
    (hid : ident x=ident (s.obj r)) : (s.setObj r x).Lists where
  split := h.split
  listed := by
    intro l i hi
    by_cases hir : i=r
    · rw [hir,setObj_self,hx,← hir]
      exact h.listed l i hi
    · rw [setObj_of_ne hir]
      exact h.listed l i hi
  nodup := h.nodup
  found := by
    intro k i hi
    refine ⟨?_,(h.found k i hi).2⟩
    by_cases hir : i=r
    · rw [hir,setObj_self,hid,← hir]
      exact (h.found k i hi).1
    · rw [setObj_of_ne hir]
      exact (h.found k i hi).1

end Objects

section Rules

variable {X L : Type} [DecidableEq L] [Housed X L] {s : Store X L} {l k : L} {r i : Nat} {x : X}
  {p : Pool}

@[simp] theorem add_self : (s.add p r x).obj r=x := update_self ..

theorem add_of_ne (h : i≠r) : (s.add p r x).obj i=s.obj i := update_of_ne h ..

theorem mem_add : i∈(s.add p r x).list k ↔ i∈s.list k ∨ (i=r ∧ k=home x) := by
  unfold add
  by_cases hk : k=home x
  · subst hk
    simp
  · simp [hk]

namespace Lists

theorem idCalloc (h : s.Lists) {id : Nat} (hp : s.pool.idCalloc=(p,some (r,id))) :
    (∀ l,r∉s.list l) ∧ id=nextId s.pool.id 1 maxPoolId ∧
      p.idHash=update s.pool.idHash id (some r) ∧
      ∀ x,ident x=id → (s.add p r x).Lists := by
  obtain ⟨q,live,hs,hl⟩ := h.split
  cases q with
  | nil =>
    rw [hs.idCalloc_nil] at hp
    cases hp
  | cons n q =>
    obtain ⟨p',hp',hsplit,-,-⟩ := hs.idCalloc
    rw [hp'] at hp
    cases hp
    have hnew : ∀ l,r∉s.list l := fun l hmem =>
      hs.not_live_of_free (mem_cons_self ..) ((hl r).mpr ⟨l,hmem⟩)
    have hhash:=Pool.idCalloc_idHash hp'
    refine ⟨hnew,rfl,hhash,fun x hx => ⟨⟨q,live++[r],hsplit,?_⟩,?_,?_,?_⟩⟩
    · intro i
      rw [mem_append,hl i,mem_singleton]
      constructor
      · intro hi
        rcases hi with ⟨l,hi⟩ | hi
        · exact ⟨l,mem_add.mpr (.inl hi)⟩
        · exact ⟨_,mem_add.mpr (.inr ⟨hi,rfl⟩)⟩
      · intro hi
        obtain ⟨l,hi⟩ := hi
        rcases mem_add.mp hi with hi | ⟨hi,-⟩
        · exact .inl ⟨l,hi⟩
        · exact .inr hi
    · intro l i hi
      rcases mem_add.mp hi with hi | ⟨rfl,hl⟩
      · have hne : i≠r := fun he => hnew l (he ▸ hi)
        rw [add_of_ne hne]
        exact h.listed l i hi
      · rw [add_self,hl]
    · intro l
      by_cases hl : l=home x
      · subst hl
        show (update s.list (home x) _ (home x)).Nodup
        rw [update_self,nodup_append]
        refine ⟨h.nodup _,nodup_singleton r,?_⟩
        intro i hi j hj he
        rw [he,mem_singleton.mp hj] at hi
        exact hnew _ hi
      · show (update s.list (home x) _ l).Nodup
        rw [update_of_ne hl]
        exact h.nodup l
    · intro k i hi
      replace hi : p.idHash k=some i := hi
      rw [hhash] at hi
      by_cases hk : k=nextId s.pool.id 1 maxPoolId
      · rw [hk,update_self] at hi
        cases hi
        rw [add_self,hk]
        exact ⟨hx,_,mem_add.mpr (.inr ⟨rfl,rfl⟩)⟩
      · rw [update_of_ne hk] at hi
        obtain ⟨hid,l,hmem⟩ := h.found k i hi
        have hne : i≠r := fun he => hnew l (he ▸ hmem)
        rw [add_of_ne hne]
        exact ⟨hid,l,mem_add.mpr (.inl hmem)⟩

theorem mem_remove (h : s.Lists) (hr : r∈s.list l) :
    i∈(s.remove r).list k ↔ i≠r ∧ i∈s.list k := by
  have hhome:=h.listed l r hr
  show i∈update s.list (home (s.obj r)) _ k ↔ _
  rw [hhome]
  by_cases hk : k=l
  · rw [hk,update_self]
    exact (h.nodup l).mem_erase_iff
  · rw [update_of_ne hk]
    constructor
    · intro hi
      refine ⟨fun he => hk ?_,hi⟩
      rw [he] at hi
      exact (h.listed k r hi).symm.trans hhome
    · exact fun hi => hi.2

theorem remove (h : s.Lists) (hr : r∈s.list l) : (s.remove r).Lists where
  split := by
    obtain ⟨q,live,hs,hl⟩ := h.split
    refine ⟨q++[r],live.erase r,hs.idFree ((hl r).mpr ⟨l,hr⟩) _,?_⟩
    intro i
    rw [hs.live_nodup.mem_erase_iff,hl]
    constructor
    · intro hi
      obtain ⟨hne,k,hmem⟩ := hi
      exact ⟨k,(h.mem_remove hr).mpr ⟨hne,hmem⟩⟩
    · intro hi
      obtain ⟨k,hmem⟩ := hi
      obtain ⟨hne,hmem⟩ := (h.mem_remove hr).mp hmem
      exact ⟨hne,k,hmem⟩
  listed := by
    intro k i hi
    exact h.listed k i ((h.mem_remove hr).mp hi).2
  nodup := by
    intro k
    show (update s.list (home (s.obj r)) _ k).Nodup
    by_cases hk : k=home (s.obj r)
    · rw [hk,update_self]
      exact (h.nodup _).erase r
    · rw [update_of_ne hk]
      exact h.nodup k
  found := by
    intro k i hi
    replace hi : (s.pool.idFree r (ident (s.obj r))).idHash k=some i := hi
    rw [Pool.idFree_idHash] at hi
    by_cases hk : k=ident (s.obj r)
    · rw [hk,update_self] at hi
      cases hi
    · rw [update_of_ne hk] at hi
      obtain ⟨hid,m,hmem⟩ := h.found k i hi
      have hne : i≠r := by
        intro he
        rw [he] at hid
        exact hk hid.symm
      exact ⟨hid,m,(h.mem_remove hr).mpr ⟨hne,hmem⟩⟩

theorem giveBack (h : s.Lists) {id : Nat} (hp : s.pool.idCalloc=(p,some (r,id)))
    (hx : ident x=id) :
    (⟨p.idFree r id,update s.obj r x,s.list⟩ : Store X L).Lists := by
  obtain ⟨hnew,-,-,hadd⟩ := h.idCalloc hp
  have hgone:=(hadd x hx).remove (mem_add.mpr (.inr ⟨rfl,rfl⟩) : r∈_)
  have hlist : (s.list (home x)++[r]).erase r=s.list (home x) := by
    rw [erase_append_right _ (hnew _),erase_cons_head,append_nil]
  rw [Store.remove,add_self,hx] at hgone
  simpa only [Store.add,update_self,update_idem,hlist,
    update_eq_self] using hgone

end Lists

end Rules

end Store

end OgsDp.Core
