import Mathlib.Data.List.Nodup
import OgsDp.Core.Pool

/-!
# Who holds the nodes of a pool

A pool whose nodes in use are described by a predicate, and records that are nodes of one pool
themselves, are listed by their owners and hold a node of a pool of their owner each.
-/

namespace OgsDp.Core
open Function List

def Pool.Holds (p : Pool) (U : Nat → Prop) : Prop :=
  ∃ q live,Pool.Split p q live ∧ ∀ n,n∈live ↔ U n

namespace Pool.Holds

variable {p p' : Pool} {U V : Nat → Prop} {n : Nat}

theorem init (size : Nat) (h : ∀ n,¬ U n) : (Pool.init size).Holds U :=
  ⟨_,[],Pool.split_init size,fun n => iff_of_false (by simp) (h n)⟩

theorem congr (h : p.Holds U) (hU : ∀ n,V n ↔ U n) : p.Holds V := by
  obtain ⟨q,live,hs,hlive⟩ := h
  exact ⟨q,live,hs,fun n => (hlive n).trans (hU n).symm⟩

theorem lt_size (h : p.Holds U) (hn : U n) : n<p.size := by
  obtain ⟨q,live,hs,hlive⟩ := h
  exact hs.lt_size ((hlive n).mpr hn)

theorem index (h : p.Holds U) (hn : U n) : p.index n=some n := by
  obtain ⟨q,live,hs,hlive⟩ := h
  exact hs.index_live n ((hlive n).mpr hn)

theorem index_iff (h : p.Holds U) : p.index n=some n ↔ U n := by
  constructor
  · intro hn
    obtain ⟨q,live,hs,hlive⟩ := h
    by_contra hU
    rw [hs.index_free n (fun hmem => hU ((hlive n).mp hmem))] at hn
    cases hn
  · exact h.index

theorem of_find (h : p.Holds U) {i : Nat} (hfind : p.find i=some n) : U n := by
  obtain ⟨q,live,hs,hlive⟩ := h
  rw [hs.find_eq,Option.ite_none_right_eq_some] at hfind
  obtain ⟨⟨-,hmem⟩,heq⟩ := hfind
  exact (hlive n).mp (Option.some.inj heq ▸ hmem)

theorem full (h : p.Holds U) (hnone : ∀ n,¬ U n) : p.avail=p.size := by
  obtain ⟨q,live,hs,hlive⟩ := h
  have hnil : live=[] := List.eq_nil_iff_forall_not_mem.mpr
    fun n hn => hnone n ((hlive n).mp hn)
  have hlen:=hs.length_add
  rw [hnil,length_nil,Nat.add_zero] at hlen
  exact hs.queue.length_eq.symm.trans hlen

theorem none_of_full (h : p.Holds U) (hfull : p.avail=p.size) : ¬ U n := by
  obtain ⟨q,live,hs,hlive⟩ := h
  intro hn
  have hpos : 0<live.length := length_pos_of_mem ((hlive n).mpr hn)
  have hlen:=hs.length_add
  have hq:=hs.queue.length_eq
  omega

theorem alloc (h : p.Holds U) :
    (p.avail=0 ∧ p.alloc=(p,none)) ∨ ∃ p' n,p.alloc=(p',some n) ∧ 0<p.avail ∧
      n<p.size ∧ ¬ U n ∧ p'.Holds (fun m => U m ∨ m=n) ∧ p'.size=p.size ∧
        p'.avail+1=p.avail := by
  obtain ⟨q,live,hs,hlive⟩ := h
  have hlen:=hs.queue.length_eq
  cases q with
  | nil => exact .inl ⟨hlen.symm,Pool.alloc_of_nil hs.queue⟩
  | cons n q =>
    obtain ⟨p',halloc,hs',hsize,-,-⟩ := hs.alloc
    have hfree:=hs.not_live_of_free (mem_cons_self ..)
    have hlen':=hs'.queue.length_eq
    rw [length_cons] at hlen
    refine .inr ⟨p',n,halloc,by omega,hs.free_lt_size (mem_cons_self ..),?_,?_,hsize,
      by omega⟩
    · exact fun hn => hfree ((hlive n).mpr hn)
    · refine ⟨q,live++[n],hs',?_⟩
      intro m
      rw [mem_append,mem_singleton,hlive]

theorem alloc_some (h : p.Holds U) (halloc : p.alloc=(p',some n)) :
    n<p.size ∧ ¬ U n ∧ p'.Holds (fun m => U m ∨ m=n) ∧ p'.size=p.size := by
  rcases h.alloc with ⟨-,hno⟩ | ⟨r,m,hm,-,hlt,hfresh,hholds,hsize,-⟩
  · rw [hno] at halloc
    cases halloc
  · rw [hm] at halloc
    cases halloc
    exact ⟨hlt,hfresh,hholds,hsize⟩

theorem release (h : p.Holds U) (hn : U n) : (p.release n).Holds fun m => U m ∧ m≠n := by
  obtain ⟨q,live,hs,hlive⟩ := h
  refine ⟨_,_,hs.release ((hlive n).mpr hn),?_⟩
  intro m
  rw [hs.live_nodup.mem_erase_iff,hlive,and_comm]

theorem release_avail (h : p.Holds U) (hn : U n) : (p.release n).avail=p.avail+1 := by
  obtain ⟨q,live,hs,hlive⟩ := h
  have hpos : 0<live.length := length_pos_of_mem ((hlive n).mpr hn)
  have hlen:=hs.length_add
  have hq:=hs.queue.length_eq
  have hlt : p.avail<p.size := by omega
  unfold Pool.release
  rw [if_pos hlt]

theorem idCalloc {id : Nat} (h : p.Holds U) (hcalloc : p.idCalloc=(p',some (n,id))) :
    ¬ U n ∧ p'.Holds (fun m => U m ∨ m=n) ∧ p'.size=p.size ∧
      p'.idHash=update p.idHash id (some n) ∧ id=nextId p.id 1 maxPoolId := by
  have hhash:=Pool.idCalloc_idHash hcalloc
  obtain ⟨q,live,hs,hlive⟩ := h
  cases q with
  | nil =>
    rw [hs.idCalloc_nil] at hcalloc
    cases hcalloc
  | cons k q =>
    obtain ⟨r,hr,hs',hsize,-⟩ := hs.idCalloc
    rw [hr] at hcalloc
    cases hcalloc
    refine ⟨fun hn => hs.not_live_of_free (mem_cons_self ..) ((hlive n).mpr hn),
      ⟨q,live++[n],hs',?_⟩,hsize,hhash,rfl⟩
    intro m
    rw [mem_append,mem_singleton,hlive]

theorem idCalloc_none (h : p.Holds U) (hcalloc : p.idCalloc=(p',none)) : p'=p := by
  obtain ⟨q,live,hs,-⟩ := h
  cases q with
  | nil =>
    rw [hs.idCalloc_nil] at hcalloc
    exact (Prod.mk.inj hcalloc).1.symm
  | cons k q =>
    obtain ⟨r,hr,-⟩ := hs.idCalloc
    rw [hr] at hcalloc
    cases hcalloc

theorem idFree (h : p.Holds U) (hn : U n) (id : Nat) :
    (p.idFree n id).Holds fun m => U m ∧ m≠n := by
  obtain ⟨q,live,hs,hlive⟩ := h
  refine ⟨_,_,hs.idFree ((hlive n).mpr hn) id,?_⟩
  intro m
  rw [hs.live_nodup.mem_erase_iff,hlive,and_comm]

theorem alloc_release (h : p.Holds U) (halloc : p.alloc=(p',some n)) :
    (p'.release n).Holds U := by
  obtain ⟨-,hfresh,hholds,-⟩ := h.alloc_some halloc
  refine (hholds.release (.inr rfl)).congr ?_
  intro m
  constructor
  · exact fun hm => ⟨.inl hm,fun he => hfresh (he ▸ hm)⟩
  · exact fun hm => hm.1.resolve_right hm.2

end Pool.Holds

/-- Records that their owners list; `idNode` is the node each holds of a pool of its owner. -/
structure Shelf where
  pool : Pool
  list : Nat → List Nat
  idPool : Nat → Pool
  idNode : Nat → Nat
  owner : Nat → Nat

namespace Shelf

structure Stocked (max : Nat) (K : Shelf) : Prop where
  owner : ∀ s,∀ r∈K.list s,K.owner r=s
  nodup : ∀ s,(K.list s).Nodup
  nodes : K.pool.Holds fun r => ∃ s,r∈K.list s
  ids : ∀ s,(K.idPool s).Holds fun k => ∃ r∈K.list s,K.idNode r=k
  inj : ∀ s,∀ r∈K.list s,∀ r'∈K.list s,K.idNode r=K.idNode r' → r=r'
  idSize : ∀ s,(K.idPool s).size=max

structure Same (K L : Shelf) : Prop where
  pool : L.pool=K.pool
  list : ∀ s,(L.list s).Perm (K.list s)
  idPool : L.idPool=K.idPool
  idNode : ∀ s,∀ r∈K.list s,L.idNode r=K.idNode r
  owner : ∀ s,∀ r∈K.list s,L.owner r=K.owner r

theorem Same.refl (K : Shelf) : K.Same K :=
  ⟨rfl,fun _ => Perm.refl _,rfl,fun _ _ _ => rfl,fun _ _ _ => rfl⟩

theorem Same.trans {K L M : Shelf} (h : K.Same L) (h' : L.Same M) : K.Same M where
  pool := h'.pool.trans h.pool
  list := fun s => (h'.list s).trans (h.list s)
  idPool := h'.idPool.trans h.idPool
  idNode := fun s r hr => (h'.idNode s r ((h.list s).mem_iff.mpr hr)).trans (h.idNode s r hr)
  owner := fun s r hr => (h'.owner s r ((h.list s).mem_iff.mpr hr)).trans (h.owner s r hr)

namespace Stocked

variable {max : Nat} {K L : Shelf} {s r k : Nat} {pool idPool : Pool}

theorem init (size max : Nat) (idNode owner : Nat → Nat) :
    Stocked max ⟨Pool.init size,fun _ => [],fun _ => Pool.init max,idNode,owner⟩ where
  owner := fun _ _ h => by cases h
  nodup := fun _ => nodup_nil
  nodes := .init size (by simp)
  ids := fun _ => .init max (by simp)
  inj := fun _ _ h => by cases h
  idSize := fun _ => rfl

theorem congr (h : Stocked max K) (hL : K.Same L) : Stocked max L where
  owner := by
    intro s r hr
    have hr':=(hL.list s).mem_iff.mp hr
    rw [hL.owner s r hr',h.owner s r hr']
  nodup := fun s => (hL.list s).nodup_iff.mpr (h.nodup s)
  nodes := by
    rw [hL.pool]
    exact h.nodes.congr fun r => exists_congr fun s => (hL.list s).mem_iff
  ids := by
    intro s
    rw [hL.idPool]
    refine (h.ids s).congr ?_
    intro k
    refine exists_congr fun r => ?_
    rw [(hL.list s).mem_iff]
    exact and_congr_right fun hr => by rw [hL.idNode s r hr]
  inj := by
    intro s r hr r' hr' he
    rw [(hL.list s).mem_iff] at hr hr'
    rw [hL.idNode s r hr,hL.idNode s r' hr'] at he
    exact h.inj s r hr r' hr' he
  idSize := fun s => hL.idPool ▸ h.idSize s

theorem fresh (h : Stocked max K) (hr : K.pool.alloc=(pool,some r)) : ∀ s,r∉K.list s :=
  fun s hm => (h.nodes.alloc_some hr).2.1 ⟨s,hm⟩

theorem giveBack (h : Stocked max K) (hr : K.pool.alloc=(pool,some r)) {idNode owner : Nat → Nat}
    (hid : ∀ r',r'≠r → idNode r'=K.idNode r') (howner : ∀ r',r'≠r → owner r'=K.owner r') :
    Stocked max ⟨pool.release r,K.list,K.idPool,idNode,owner⟩ := by
  have hne : ∀ s,∀ r'∈K.list s,r'≠r := fun s r' hr' he => h.fresh hr s (he ▸ hr')
  have hsame : Stocked max ⟨K.pool,K.list,K.idPool,idNode,owner⟩ :=
    h.congr ⟨rfl,fun _ => Perm.refl _,rfl,fun s r' hr' => hid r' (hne s r' hr'),
      fun s r' hr' => howner r' (hne s r' hr')⟩
  exact ⟨hsame.owner,hsame.nodup,h.nodes.alloc_release hr,hsame.ids,hsame.inj,hsame.idSize⟩

theorem mem_add {f : Nat → List Nat} {s' r' : Nat} :
    r'∈update f s (f s++[r]) s' ↔ r'∈f s' ∨ s'=s ∧ r'=r := by
  by_cases he : s'=s
  · simp [he]
  · simp [he]

theorem add (h : Stocked max K) (hr : K.pool.alloc=(pool,some r))
    (hk : (K.idPool s).alloc=(idPool,some k)) {idNode owner : Nat → Nat}
    (hid : ∀ r',r'≠r → idNode r'=K.idNode r') (howner : ∀ r',r'≠r → owner r'=K.owner r')
    (hidNode : idNode r=k) (hown : owner r=s) :
    Stocked max ⟨pool,update K.list s (K.list s++[r]),
      update K.idPool s idPool,idNode,owner⟩ := by
  have hfresh:=h.fresh hr
  have hne : ∀ s,∀ r'∈K.list s,r'≠r := fun s r' hr' he => hfresh s (he ▸ hr')
  obtain ⟨-,-,hnodes,-⟩ := h.nodes.alloc_some hr
  obtain ⟨-,hknew,hids,hsize⟩ := (h.ids s).alloc_some hk
  have hold : ∀ s',∀ r'∈K.list s',idNode r'=K.idNode r' :=
    fun s' r' hr' => hid r' (hne s' r' hr')
  constructor
  · intro s' r' hr'
    rcases mem_add.mp hr' with hr' | ⟨rfl,rfl⟩
    · exact (howner r' (hne s' r' hr')).trans (h.owner s' r' hr')
    · exact hown
  · intro s'
    dsimp only
    by_cases he : s'=s
    · subst he
      rw [update_self]
      refine nodup_append.mpr ⟨h.nodup s',nodup_singleton r,?_⟩
      intro a ha b hb
      rw [mem_singleton.mp hb]
      exact hne s' a ha
    · rw [update_of_ne he]
      exact h.nodup s'
  · refine hnodes.congr ?_
    intro r'
    simp only [mem_add,exists_or]
    exact or_congr_right ⟨fun hm => hm.choose_spec.2,fun he => ⟨s,rfl,he⟩⟩
  · intro s'
    dsimp only
    by_cases he : s'=s
    · subst he
      rw [update_self]
      refine hids.congr ?_
      intro k'
      constructor
      · intro hm
        obtain ⟨r',hr',rfl⟩ := hm
        rcases mem_add.mp hr' with hr' | ⟨-,rfl⟩
        · exact .inl ⟨r',hr',(hold s' r' hr').symm⟩
        · exact .inr hidNode
      · intro hm
        rcases hm with ⟨r',hr',rfl⟩ | rfl
        · exact ⟨r',mem_add.mpr (.inl hr'),hold s' r' hr'⟩
        · exact ⟨r,mem_add.mpr (.inr ⟨rfl,rfl⟩),hidNode⟩
    · rw [update_of_ne he,update_of_ne he]
      refine (h.ids s').congr ?_
      intro k'
      refine exists_congr fun r' => and_congr_right fun hr' => ?_
      rw [hold s' r' hr']
  · intro s' a ha b hb he
    rcases mem_add.mp ha with ha' | ⟨hs,ha'⟩ <;> rcases mem_add.mp hb with hb' | ⟨hs',hb'⟩
    · have he' : idNode a=idNode b := he
      rw [hold s' a ha',hold s' b hb'] at he'
      exact h.inj s' a ha' b hb' he'
    · subst hs' hb'
      exact absurd ⟨a,ha',(hold s' a ha').symm.trans (he.trans hidNode)⟩ hknew
    · subst hs ha'
      exact absurd ⟨b,hb',(hold s' b hb').symm.trans (he.symm.trans hidNode)⟩ hknew
    · rw [ha',hb']
  · intro s'
    dsimp only
    by_cases he : s'=s
    · subst he
      rw [update_self]
      exact hsize.trans (h.idSize s')
    · rw [update_of_ne he]
      exact h.idSize s'

theorem mem_remove (h : Stocked max K) (hr : r∈K.list s) (s' r' : Nat) :
    r'∈update K.list s ((K.list s).erase r) s' ↔ r'∈K.list s' ∧ r'≠r := by
  by_cases he : s'=s
  · subst he
    rw [update_self,(h.nodup s').mem_erase_iff,and_comm]
  · rw [update_of_ne he]
    refine ⟨fun hm => ⟨hm,?_⟩,fun hm => hm.1⟩
    rintro rfl
    exact he ((h.owner s' r' hm).symm.trans (h.owner s r' hr))

theorem remove (h : Stocked max K) (hr : r∈K.list s) :
    Stocked max ⟨K.pool.release r,update K.list s ((K.list s).erase r),
      update K.idPool s ((K.idPool s).release (K.idNode r)),K.idNode,K.owner⟩ := by
  have hmem:=h.mem_remove hr
  constructor
  · exact fun s' r' hr' => h.owner s' r' ((hmem s' r').mp hr').1
  · intro s'
    dsimp only
    by_cases he : s'=s
    · subst he
      rw [update_self]
      exact (h.nodup s').erase r
    · rw [update_of_ne he]
      exact h.nodup s'
  · refine (h.nodes.release ⟨s,hr⟩).congr ?_
    intro r'
    simp only [hmem,exists_and_right]
  · intro s'
    dsimp only
    by_cases he : s'=s
    · subst he
      rw [update_self]
      refine ((h.ids s').release ⟨r,hr,rfl⟩).congr ?_
      intro k'
      constructor
      · intro hm
        obtain ⟨r',hr',rfl⟩ := hm
        obtain ⟨hr',hne⟩ := (hmem s' r').mp hr'
        exact ⟨⟨r',hr',rfl⟩,fun he => hne (h.inj s' r' hr' r hr he)⟩
      · intro hm
        obtain ⟨⟨r',hr',rfl⟩,hne⟩ := hm
        exact ⟨r',(hmem s' r').mpr ⟨hr',fun he => hne (congrArg K.idNode he)⟩,rfl⟩
    · rw [update_of_ne he,update_of_ne he]
      exact h.ids s'
  · intro s' a ha b hb he
    exact h.inj s' a ((hmem s' a).mp ha).1 b ((hmem s' b).mp hb).1 he
  · intro s'
    dsimp only
    by_cases he : s'=s
    · subst he
      simp only [update_self,Pool.release_size]
      exact h.idSize s'
    · rw [update_of_ne he]
      exact h.idSize s'

theorem ids_full (h : Stocked max K) (hs : K.list s=[]) : (K.idPool s).avail=max := by
  rw [← h.idSize s]
  exact (h.ids s).full (by simp [hs])

theorem nodes_full (h : Stocked max K) (hnil : ∀ s,K.list s=[]) :
    K.pool.avail=K.pool.size :=
  h.nodes.full (by simp [hnil])

end Stocked

/-- The pools are full where their records are gone, and the nodes of the records are in use, each
by one of them. -/
structure Conserved (max : Nat) (K : Shelf) : Prop where
  ids : ∀ s,K.list s=[] → (K.idPool s).avail=max
  nodes : (∀ s,K.list s=[]) → K.pool.avail=K.pool.size
  held : ∀ s,∀ r ∈ K.list s,
    K.pool.index r=some r ∧ (K.idPool s).index (K.idNode r)=some (K.idNode r)
  once : ∀ s s',∀ r∈K.list s,r∈K.list s' → s=s'
  idOnce : ∀ s,∀ r∈K.list s,∀ r'∈K.list s,K.idNode r=K.idNode r' → r=r'

theorem Stocked.conserved {max : Nat} {K : Shelf} (h : Stocked max K) : K.Conserved max where
  ids := fun _ hs => h.ids_full hs
  nodes := h.nodes_full
  held := fun s r hr => ⟨h.nodes.index ⟨s,hr⟩,(h.ids s).index ⟨r,hr,rfl⟩⟩
  once := fun s s' r hr hr' => (h.owner s r hr).symm.trans (h.owner s' r hr')
  idOnce := h.inj

end Shelf

end OgsDp.Core

/-! ### Pools whose nodes their users remember -/

namespace OgsDp.Core
open Option

universe u

structure Pool.Serves {ι : Type u} (p : Pool) (U : ι → Prop) (node : ι → Option Nat) : Prop where
  holds : p.Holds fun k => ∃ i,U i ∧ node i=some k
  inj : ∀ i j k,U i → U j → node i=some k → node j=some k → i=j

namespace Pool.Serves

variable {ι : Type u} {p p' : Pool} {U V : ι → Prop} {node node' : ι → Option Nat} {i : ι}
  {k : Nat}

theorem init (size : Nat) (h : ∀ i,¬ U i) : (Pool.init size).Serves U node where
  holds := .init size fun _ ⟨i,hi,_⟩ => h i hi
  inj := fun i _ _ hi => absurd hi (h i)

theorem congr (h : p.Serves U node) (hU : ∀ i,V i ↔ U i) (hnode : ∀ i,U i → node' i=node i) :
    p.Serves V node' where
  holds := by
    refine h.holds.congr fun k => exists_congr fun i => ?_
    rw [hU]
    exact and_congr_right fun hi => by rw [hnode i hi]
  inj := by
    intro i j k hi hj hik hjk
    rw [hU] at hi hj
    rw [hnode i hi] at hik
    rw [hnode j hj] at hjk
    exact h.inj i j k hi hj hik hjk

theorem lt_size (h : p.Serves U node) (hi : U i) (hk : node i=some k) : k<p.size :=
  h.holds.lt_size ⟨i,hi,hk⟩

theorem join (h : p.Serves U node) (hi : ¬ U i) (halloc : p.alloc=(p',some k))
    (hV : ∀ j,V j ↔ U j ∨ j=i) (hnode : ∀ j,U j → node' j=node j)
    (hk : node' i=some k) : p'.Serves V node' ∧ p'.size=p.size := by
  obtain ⟨-,hfresh,hholds,hsize⟩ := h.holds.alloc_some halloc
  have hold : ∀ j l,U j → node' j=some l → l≠k := by
    rintro j l hj hl rfl
    rw [hnode j hj] at hl
    exact hfresh ⟨j,hj,hl⟩
  refine ⟨⟨hholds.congr fun l => ?_,?_⟩,hsize⟩
  · simp only [hV]
    constructor
    · rintro ⟨j,hj | rfl,hl⟩
      · exact .inl ⟨j,hj,(hnode j hj).symm.trans hl⟩
      · exact .inr (some.inj (hl.symm.trans hk))
    · rintro (⟨j,hj,hl⟩ | rfl)
      · exact ⟨j,.inl hj,(hnode j hj).trans hl⟩
      · exact ⟨i,.inr rfl,hk⟩
  · intro a b l ha hb hal hbl
    rcases (hV a).mp ha with ha | rfl
    · rcases (hV b).mp hb with hb | rfl
      · rw [hnode a ha] at hal
        rw [hnode b hb] at hbl
        exact h.inj a b l ha hb hal hbl
      · exact absurd (some.inj (hbl.symm.trans hk)) (hold a l ha hal)
    · rcases (hV b).mp hb with hb | rfl
      · exact absurd (some.inj (hal.symm.trans hk)) (hold b l hb hbl)
      · rfl

theorem join_none (h : p.Serves U node) (hV : ∀ j,V j ↔ U j ∨ j=i)
    (hnode : ∀ j,U j → node' j=node j) (hnone : node' i=none) : p.Serves V node' := by
  have hold : ∀ j l,V j → node' j=some l → U j := by
    intro j l hj hl
    rcases (hV j).mp hj with hj | rfl
    · exact hj
    · rw [hnone] at hl
      cases hl
  refine ⟨h.holds.congr fun l => ?_,?_⟩
  · constructor
    · rintro ⟨j,hj,hl⟩
      have hj':=hold j l hj hl
      exact ⟨j,hj',(hnode j hj').symm.trans hl⟩
    · rintro ⟨j,hj,hl⟩
      exact ⟨j,(hV j).mpr (.inl hj),(hnode j hj).trans hl⟩
  · intro a b l ha hb hal hbl
    have ha':=hold a l ha hal
    have hb':=hold b l hb hbl
    rw [hnode a ha'] at hal
    rw [hnode b hb'] at hbl
    exact h.inj a b l ha' hb' hal hbl

theorem leave (h : p.Serves U node) (hi : U i) (hV : ∀ j,V j ↔ U j ∧ j≠i)
    (hk : node i=some k) : (p.release k).Serves V node := by
  refine ⟨(h.holds.release ⟨i,hi,hk⟩).congr fun l => ?_,?_⟩
  · simp only [hV]
    constructor
    · rintro ⟨j,⟨hj,hne⟩,hl⟩
      refine ⟨⟨j,hj,hl⟩,?_⟩
      rintro rfl
      exact hne (h.inj j i l hj hi hl hk)
    · rintro ⟨⟨j,hj,hl⟩,hne⟩
      refine ⟨j,⟨hj,?_⟩,hl⟩
      rintro rfl
      exact hne (some.inj (hl.symm.trans hk))
  · intro a b l ha hb
    exact h.inj a b l ((hV a).mp ha).1 ((hV b).mp hb).1

theorem leave_none (h : p.Serves U node) (hV : ∀ j,V j ↔ U j ∧ j≠i) (hnone : node i=none) :
    p.Serves V node := by
  refine ⟨h.holds.congr fun l => exists_congr fun j => ?_,?_⟩
  · rw [hV]
    constructor
    · exact fun hj => ⟨hj.1.1,hj.2⟩
    · rintro ⟨hj,hl⟩
      refine ⟨⟨hj,?_⟩,hl⟩
      rintro rfl
      rw [hnone] at hl
      cases hl
  · intro a b l ha hb
    exact h.inj a b l ((hV a).mp ha).1 ((hV b).mp hb).1

theorem alloc_release (h : p.Serves U node) (halloc : p.alloc=(p',some k)) :
    (p'.release k).Serves U node :=
  ⟨h.holds.alloc_release halloc,h.inj⟩

theorem full (h : p.Serves U node) (hnone : ∀ i,¬ U i) : p.avail=p.size :=
  h.holds.full fun _ ⟨i,hi,_⟩ => hnone i hi

end Pool.Serves

end OgsDp.Core
