import OgsDp.Core.Pool
import OgsDp.Lib.Run

/-!
# Runs of a pool

Nodes are drawn with or without an id and given back the way they were drawn.
-/

namespace OgsDp.Core
open List Option

open Lib Function

structure PoolRun where
  pool : Pool
  id : Nat → Nat
  plain : List Nat
  withId : List Nat
  drawn : Nat
  gone : List Nat

inductive PoolCall where
  | alloc
  | idCalloc
  | free (node : Nat)
  | idFree (node : Nat)
  deriving DecidableEq

def Pool.entries (p : Pool) : List (Option Nat) :=
  (List.range p.avail).map fun i => p.free ((p.head+i) % p.size)

namespace PoolRun

def init (size : Nat) : PoolRun where
  pool := Pool.init size
  id := fun _ => 0
  plain := []
  withId := []
  drawn := 0
  gone := []

def used (s : PoolRun) : List Nat := s.plain++s.withId

def alloc (s : PoolRun) : PoolRun × Option Nat :=
  match s.pool.alloc with
  | (p,some n) => ({ s with pool := p,plain := s.plain++[n] },some n)
  | (p,none) => ({ s with pool := p },none)

def idCalloc (s : PoolRun) : PoolRun × Option Nat :=
  match s.pool.idCalloc with
  | (p,some (n,id)) =>
    ({ s with
        pool := p
        id := update s.id n id
        withId := s.withId++[n]
        drawn := s.drawn+1 },some n)
  | (p,none) => ({ s with pool := p },none)

def free (s : PoolRun) (node : Nat) : PoolRun :=
  { s with pool := s.pool.release node,plain := s.plain.erase node }

/-- `ogs_pool_id_free`, with the assertion on the id of the node. -/
def idFree (s : PoolRun) (node : Nat) : Outcome PoolRun (Option Nat) :=
  if 1 ≤ s.id node ∧ s.id node ≤ maxPoolId then
    .ok { s with
          pool := s.pool.idFree node (s.id node)
          withId := s.withId.erase node
          gone := s.gone++[s.id node] } none
  else
    .abort s

/-- A node is given back only while it is in use, and the way it was drawn. -/
def step (s : PoolRun) : PoolCall → Option (Outcome PoolRun (Option Nat))
  | .alloc => some (.ok s.alloc.1 s.alloc.2)
  | .idCalloc => some (.ok s.idCalloc.1 s.idCalloc.2)
  | .free node => if s.plain.contains node then some (.ok (s.free node) none) else none
  | .idFree node => if s.withId.contains node then some (s.idFree node) else none

structure Split (s : PoolRun) : Prop where
  split : ∃ q live,Pool.Split s.pool q live ∧ live.Perm s.used

structure Ids (s : PoolRun) : Prop where
  counter : s.pool.id=s.drawn
  found : ∀ id n,s.pool.idHash id=some n ↔ n∈s.withId ∧ s.id n=id
  range : ∀ n∈s.withId,1 ≤ s.id n ∧ s.id n ≤ s.drawn
  gone_le : ∀ id∈s.gone,id ≤ s.drawn
  gone : ∀ id∈s.gone,s.pool.idHash id=none

structure Good (size : Nat) (s : PoolRun) : Prop where
  size_eq : s.pool.size=size
  nodes : s.Split
  ids : s.drawn < maxPoolId → s.Ids

variable {s : PoolRun} {size n : Nat}

theorem Split.nodup (h : s.Split) : s.used.Nodup := by
  obtain ⟨q,live,hs,hperm⟩ := h.split
  exact hperm.nodup_iff.mp hs.live_nodup

theorem good_init (size : Nat) : (init size).Good size where
  size_eq := rfl
  nodes := ⟨_,[],Pool.split_init size,Perm.refl _⟩
  ids := fun _ => ⟨rfl,by simp [init,Pool.init],by simp [init],by simp [init],by simp [init]⟩

theorem Split.alloc_cases (h : s.Split) :
    (s.pool.avail=0 ∧ s.alloc=(s,none) ∧ s.idCalloc=(s,none)) ∨
    ∃ n p r,0<s.pool.avail ∧ n∉s.used ∧
      s.alloc=({ s with pool := p,plain := s.plain++[n] },some n) ∧
      p.size=s.pool.size ∧ p.id=s.pool.id ∧ p.idHash=s.pool.idHash ∧
      (∃ q live,Pool.Split p q live ∧ live.Perm (n::s.used)) ∧
      s.idCalloc=({ s with
        pool := r
        id := update s.id n (nextId s.pool.id 1 maxPoolId)
        withId := s.withId++[n]
        drawn := s.drawn+1 },some n) ∧
      r.size=s.pool.size ∧ r.id=nextId s.pool.id 1 maxPoolId ∧
      r.idHash=update s.pool.idHash (nextId s.pool.id 1 maxPoolId) (some n) ∧
      ∃ q live,Pool.Split r q live ∧ live.Perm (n::s.used) := by
  obtain ⟨q,live,hs,hperm⟩ := h.split
  have hlen:=hs.queue.length_eq
  cases q with
  | nil =>
    left
    have halloc:=Pool.alloc_of_nil hs.queue
    have hcalloc:=hs.idCalloc_nil
    simp [alloc,idCalloc,halloc,hcalloc,← hlen]
  | cons n q =>
    right
    have hnot:=hs.not_live_of_free (mem_cons_self ..)
    have hmore : (live++[n]).Perm (n::s.used) :=
      perm_append_comm.trans (hperm.cons n)
    obtain ⟨p,hp,hps,hpsize,hhash,hid⟩ := hs.alloc
    obtain ⟨r,hr,hrs,hrsize,hrid⟩ := hs.idCalloc
    refine ⟨n,p,r,?_,?_,?_,hpsize,hid,hhash,⟨q,_,hps,hmore⟩,?_,hrsize,hrid,?_,
      ⟨q,_,hrs,hmore⟩⟩
    · rw [← hlen,length_cons]
      omega
    · exact fun hn => hnot (hperm.mem_iff.mpr hn)
    · simp only [PoolRun.alloc,hp]
    · simp only [PoolRun.idCalloc,hr]
    · exact Pool.idCalloc_idHash hr

theorem Good.alloc (h : s.Good size) : s.alloc.1.Good size := by
  obtain ⟨-,hno,-⟩ | ⟨n,p,-,-,-,hsome,hsize,hid,hhash,⟨q,live,hs,hperm⟩,-⟩ :=
    h.nodes.alloc_cases
  · rw [hno]
    exact h
  · rw [hsome]
    constructor
    · exact hsize.trans h.size_eq
    · refine ⟨q,live,hs,hperm.trans ?_⟩
      simp only [used,append_assoc,singleton_append]
      exact perm_middle.symm
    · intro hd
      obtain ⟨hcounter,hfound,hrange,hle,hgone⟩ := h.ids hd
      exact ⟨hid.trans hcounter,by simpa [hhash] using hfound,hrange,hle,
        by simpa [hhash] using hgone⟩

theorem Good.idCalloc (h : s.Good size) : s.idCalloc.1.Good size := by
  obtain ⟨-,-,hno⟩ | ⟨n,-,r,-,hnew,-,-,-,-,-,hsome,hsize,hid,hhash,
    ⟨q,live,hs,hperm⟩⟩ :=
    h.nodes.alloc_cases
  · rw [hno]
    exact h
  · rw [hsome]
    constructor
    · exact hsize.trans h.size_eq
    · refine ⟨q,live,hs,hperm.trans ?_⟩
      simp only [used,← append_assoc]
      exact (perm_append_singleton n _).symm
    · intro hd
      replace hd : s.drawn+1 < maxPoolId := hd
      obtain ⟨hcounter,hfound,hrange,hle,hgone⟩ := h.ids (by omega)
      have hnext : nextId s.pool.id 1 maxPoolId=s.drawn+1 := by
        rw [hcounter,nextId,if_neg (by omega)]
      have hne : ∀ m∈s.withId,m≠n := by
        intro m hm he
        exact hnew (mem_append_right _ (he ▸ hm))
      rw [hnext] at hid hhash ⊢
      constructor
      · exact hid
      · intro id m
        simp only [hhash,mem_append,mem_singleton]
        by_cases hm : m=n
        · subst hm
          by_cases hi : id=s.drawn+1
          · simp [hi]
          · have hold:=hfound id m
            have hout : m∉s.withId := fun hmem => hne m hmem rfl
            simp only [update_of_ne hi,hold,hout,false_and,false_iff,
              update_self]
            omega
        · rw [update_of_ne hm]
          by_cases hi : id=s.drawn+1
          · subst hi
            have hbound:=hrange m
            constructor
            · intro he
              rw [update_self] at he
              exact absurd (some.inj he).symm hm
            · intro hmem
              have hlt:=hbound (hmem.1.resolve_right hm)
              omega
          · rw [update_of_ne hi,hfound]
            simp [hm]
      · intro m hm
        simp only [mem_append,mem_singleton] at hm
        rcases hm with hm | hm
        · have hlt:=hrange m hm
          dsimp only
          rw [update_of_ne (hne m hm)]
          omega
        · subst hm
          simp
      · intro id hg
        exact Nat.le_succ_of_le (hle id hg)
      · intro id hg
        have hlt:=hle id hg
        dsimp only
        rw [hhash,update_of_ne (by omega)]
        exact hgone id hg

theorem Good.free (h : s.Good size) (hn : n∈s.plain) : (s.free n).Good size := by
  obtain ⟨q,live,hs,hperm⟩ := h.nodes.split
  constructor
  · exact (Pool.release_size ..).trans h.size_eq
  · refine ⟨_,_,hs.release (hperm.mem_iff.mpr (mem_append_left _ hn)),?_⟩
    have hleft : s.used.erase n=s.plain.erase n++s.withId := erase_append_left _ hn
    exact (hperm.erase n).trans (Perm.of_eq hleft)
  · intro hd
    obtain ⟨hcounter,hfound,hrange,hle,hgone⟩ := h.ids hd
    exact ⟨by simpa [PoolRun.free] using hcounter,by simpa [PoolRun.free] using hfound,hrange,
      hle,by simpa [PoolRun.free] using hgone⟩

theorem Good.idFree (h : s.Good size) (hn : n∈s.withId) : (s.idFree n).Leaves (Good size) fun _ => True := by
  obtain ⟨q,live,hs,hperm⟩ := h.nodes.split
  unfold PoolRun.idFree
  split
  · constructor
    · exact (Pool.idFree_size ..).trans h.size_eq
    · refine ⟨_,_,hs.idFree (hperm.mem_iff.mpr (mem_append_right _ hn)) _,?_⟩
      have hnot : n∉s.plain := by
        intro hp
        exact (nodup_append.mp h.nodes.nodup).2.2 n hp n hn rfl
      have hright : s.used.erase n=s.plain++s.withId.erase n := erase_append_right _ hnot
      exact (hperm.erase n).trans (Perm.of_eq hright)
    · intro hd
      obtain ⟨hcounter,hfound,hrange,hle,hgone⟩ := h.ids hd
      have hnodup : s.withId.Nodup := (nodup_append.mp h.nodes.nodup).2.1
      constructor
      · simpa using hcounter
      · intro id m
        simp only [Pool.idFree_idHash,hnodup.mem_erase_iff]
        by_cases hi : id=s.id n
        · subst hi
          have hown:=(hfound (s.id n) n).mpr ⟨hn,rfl⟩
          simp only [update_self,reduceCtorEq,false_iff]
          intro hm
          -- Two nodes of one id would be one entry of the hash.
          have hother:=(hfound (s.id n) m).mpr ⟨hm.1.2,hm.2⟩
          exact hm.1.1 (some.inj (hother.symm.trans hown))
        · rw [update_of_ne hi,hfound]
          constructor
          · intro hm
            refine ⟨⟨?_,hm.1⟩,hm.2⟩
            intro he
            exact hi (he ▸ hm.2).symm
          · exact fun hm => ⟨hm.1.2,hm.2⟩
      · exact fun m hm => hrange m (mem_of_mem_erase hm)
      · intro id hg
        rcases mem_append.mp hg with hg | hg
        · exact hle id hg
        · rw [mem_singleton.mp hg]
          exact (hrange n hn).2
      · intro id hg
        simp only [Pool.idFree_idHash]
        by_cases hi : id=s.id n
        · rw [hi,update_self]
        · rw [update_of_ne hi]
          exact hgone id ((mem_append.mp hg).resolve_right (by simpa using hi))
  · trivial

theorem Good.step {e : PoolCall} {t : PoolRun} {r : Option Nat} (h : s.Good size)
    (hstep : s.step e=some (.ok t r)) : t.Good size := by
  cases e with
  | alloc =>
    cases hstep
    exact h.alloc
  | idCalloc =>
    cases hstep
    exact h.idCalloc
  | free n =>
    simp only [PoolRun.step] at hstep
    split at hstep
    · rename_i hn
      cases hstep
      exact h.free (by simpa using hn)
    · cases hstep
  | idFree n =>
    simp only [PoolRun.step] at hstep
    split at hstep
    · rename_i hn
      have hleaves:=h.idFree (n := n) (by simpa using hn)
      rw [some.inj hstep] at hleaves
      exact hleaves
    · cases hstep

/-- The ring, the count, the table and the hash of a pool say the same about its nodes. -/
structure Consistent (size : Nat) (s : PoolRun) : Prop where
  size_eq : s.pool.size=size
  used_nodup : s.used.Nodup
  used_lt : ∀ n∈s.used,n<size
  avail : s.pool.avail=size-s.used.length
  entries_nodup : s.pool.entries.Nodup
  entries : ∀ o,o∈s.pool.entries ↔ ∃ n<size,n∉s.used ∧ o=some n
  index : ∀ i<size,s.pool.index i = if i∈s.used then some i else none
  alloc : s.alloc.2.isSome ↔ ∃ n<size,n∉s.used
  idCalloc : s.idCalloc.2.isSome ↔ ∃ n<size,n∉s.used
  findById : ∀ id n,s.pool.findById id=some n ↔ n∈s.withId ∧ s.id n=id
  gone : ∀ id∈s.gone,s.pool.findById id=none
  done : ∀ e o,s.step e=some o → o.Done

theorem entries_eq {p : Pool} {q : List Nat} (h : Pool.Queue p q) : p.entries=q.map some := by
  apply ext_getElem
  · simp [Pool.entries,h.length_eq]
  · intro i hi hi'
    simp only [length_map] at hi'
    simp [Pool.entries,h.ring i hi']

theorem Split.free_iff {q live : List Nat} (h : Pool.Split s.pool q live) (hperm : live.Perm s.used) :
    n∈q ↔ n<s.pool.size ∧ n∉s.used := by
  constructor
  · exact fun hn => ⟨h.free_lt_size hn,fun hu => h.not_live_of_free hn (hperm.mem_iff.mpr hu)⟩
  · intro hn
    have hmem : n∈q++live := h.perm.mem_iff.mpr (mem_range.mpr hn.1)
    exact (mem_append.mp hmem).resolve_right fun hl => hn.2 (hperm.mem_iff.mp hl)

theorem Split.drawn_iff (h : s.Split) :
    (s.alloc.2.isSome ↔ ∃ n<s.pool.size,n∉s.used) ∧
      (s.idCalloc.2.isSome ↔ ∃ n<s.pool.size,n∉s.used) := by
  obtain ⟨q,live,hs,hperm⟩ := h.split
  have hlen:=hs.queue.length_eq
  have hfree : (∃ n<s.pool.size,n∉s.used) ↔ 0<s.pool.avail := by
    rw [← hlen,length_pos_iff_exists_mem]
    exact exists_congr fun n => (Split.free_iff hs hperm).symm
  rw [hfree]
  obtain ⟨h0,halloc,hcalloc⟩ | ⟨n,p,r,hpos,-,halloc,-,-,-,-,hcalloc,-⟩ := h.alloc_cases
  · simp [h0,halloc,hcalloc]
  · simp [hpos,halloc,hcalloc]

theorem Good.consistent (h : s.Good size) (hd : s.drawn < maxPoolId) :
    s.Consistent s.pool.size := by
  obtain ⟨q,live,hs,hperm⟩ := h.nodes.split
  obtain ⟨-,hfound,hrange,-,hgone⟩ := h.ids hd
  have hentries:=entries_eq hs.queue
  have hlen:=hs.length_add
  have hq:=hs.queue.length_eq
  have hused:=hperm.length_eq
  constructor
  · rfl
  · exact h.nodes.nodup
  · exact fun n hn => hs.lt_size (hperm.mem_iff.mpr hn)
  · omega
  · rw [hentries]
    exact List.Pairwise.map _ (fun _ _ hab he => hab (some.inj he)) (nodup_append.mp hs.nodup).1
  · intro o
    rw [hentries,List.mem_map]
    refine exists_congr fun n => ?_
    rw [Split.free_iff hs hperm,and_assoc,eq_comm (a := some n)]
  · intro i _
    by_cases hi : i∈s.used
    · rw [if_pos hi]
      exact hs.index_live i (hperm.mem_iff.mpr hi)
    · rw [if_neg hi]
      exact hs.index_free i fun hl => hi (hperm.mem_iff.mp hl)
  · exact h.nodes.drawn_iff.1
  · exact h.nodes.drawn_iff.2
  · exact hfound
  · exact hgone
  · intro e o ho
    cases e with
    | alloc | idCalloc =>
      cases ho
      exact Outcome.done_ok _ _
    | free n =>
      simp only [PoolRun.step] at ho
      split at ho
      · cases ho
        exact Outcome.done_ok _ _
      · cases ho
    | idFree n =>
      simp only [PoolRun.step] at ho
      split at ho
      · rename_i hn
        have hid:=hrange n (by simpa using hn)
        cases ho
        rw [PoolRun.idFree,if_pos (by omega)]
        exact Outcome.done_ok _ _
      · cases ho

theorem runs_consistent (size : Nat) (calls : List PoolCall) :
    ∀ s∈completed step (init size) calls,s.drawn < maxPoolId → s.Consistent size := by
  intro s hs hd
  have hinv : ∀ t∈completed step (init size) calls,t.Good size :=
    completed_inv (C := fun _ _ => True) (fun _ _ _ _ h _ hstep => h.step hstep) (good_init size)
      (eachStep_of_forall fun _ _ => trivial)
  have hgood:=hinv s hs
  rw [← hgood.size_eq]
  exact hgood.consistent hd

theorem runs_consistent_two :
    ∃ s ∈ completed step (init 2) [.alloc,.idCalloc,.idFree 1,.idCalloc],
      s.gone=[1] ∧ s.withId=[1] ∧ s.Consistent 2 := by
  have hrun:=runs_consistent 2 [.alloc,.idCalloc,.idFree 1,.idCalloc]
  exact ⟨_,getElem_mem (n := 4) (by decide),rfl,rfl,
    hrun _ (getElem_mem (n := 4) (by decide)) (by decide)⟩

end PoolRun
end OgsDp.Core
