import Mathlib.Data.List.Basic
import Mathlib.Data.List.Perm.Basic
import Mathlib.Data.List.Range
import Mathlib.Data.Nat.ModEq
import Mathlib.Logic.Function.Basic
import Mathlib.Tactic.SplitIfs

/-!
# Index pools (lib/core/ogs-pool.h)

`OGS_POOL(pool, type)` is an array of nodes with a ring of free nodes, a table of the nodes in use
and a hash from running ids to nodes.
-/

namespace OgsDp.Core
open Function List

def maxPoolId : Nat := 0x7fffffff

structure Pool where
  head : Nat
  tail : Nat
  size : Nat
  avail : Nat
  free : Nat → Option Nat
  index : Nat → Option Nat
  idHash : Nat → Option Nat
  id : Nat

def nextId (id min max : Nat) : Nat := if id=max then min else id+1

namespace Pool

def init (size : Nat) : Pool where
  head := 0
  tail := 0
  size := size
  avail := size
  free := fun i => if i<size then some i else none
  index := fun _ => none
  idHash := fun _ => none
  id := 0

def poolIndex (node : Nat) : Nat := node+1

/-- `ogs_pool_alloc`; the result is `*node`. -/
def alloc (p : Pool) : Pool × Option Nat :=
  if 0<p.avail then
    match p.free p.head with
    | some node =>
      ({ p with
          avail := p.avail-1
          free := update p.free p.head none
          head := (p.head+1) % p.size
          index := update p.index node (some node) },some node)
    | none => (p,none)
  else (p,none)

def release (p : Pool) (node : Nat) : Pool :=
  if p.avail<p.size then
    { p with
        avail := p.avail+1
        free := update p.free p.tail (some node)
        tail := (p.tail+1) % p.size
        index := update p.index node none }
  else p

/-- `ogs_pool_find`: by position, not by id. -/
def find (p : Pool) (index : Nat) : Option Nat :=
  if 0 < index ∧ index≤p.size then p.index (index-1) else none

def idCalloc (p : Pool) : Pool × Option (Nat × Nat) :=
  match p.alloc with
  | (q,some node) =>
    let id:=nextId q.id 1 maxPoolId
    ({ q with id := id,idHash := update q.idHash id (some node) },some (node,id))
  | (q,none) => (q,none)

def idFree (p : Pool) (node id : Nat) : Pool :=
  release { p with idHash := update p.idHash id none } node

def findById (p : Pool) (id : Nat) : Option Nat := p.idHash id

/-- `q` lists the free nodes in the order in which they will be handed out. -/
structure Queue (p : Pool) (q : List Nat) : Prop where
  length_eq : q.length=p.avail
  avail_le : p.avail≤p.size
  head_lt : 0<p.size → p.head<p.size
  tail_eq : 0<p.size → p.tail=(p.head+p.avail) % p.size
  ring : ∀ i (h : i<q.length),p.free ((p.head+i) % p.size)=some q[i]

theorem queue_init (size : Nat) : Queue (init size) (List.range size) where
  length_eq := by simp [init]
  avail_le := by simp [init]
  head_lt := by simp [init]
  tail_eq := by intro _; simp [init]
  ring := by
    intro i h
    have hi : i<size := by simpa using h
    simp [init,Nat.mod_eq_of_lt hi,hi]

theorem alloc_of_nil {p : Pool} (h : Queue p []) : p.alloc=(p,none) := by
  have h0 : p.avail=0 := by simpa using h.length_eq.symm
  simp [alloc,h0]

theorem ring_ne {size head i j : Nat} (hi : i<j) (hj : j<size) :
    (head+i) % size≠(head+j) % size := by
  intro h
  have hmod : (head+i) ≡ (head+j) [MOD size] := h
  have hcancel : i ≡ j [MOD size] := Nat.ModEq.add_left_cancel' head hmod
  have heq : i=j := by
    rw [← Nat.mod_eq_of_lt (by omega : i<size),← Nat.mod_eq_of_lt hj]
    exact hcancel
  omega

theorem alloc_of_cons {p : Pool} {n : Nat} {q : List Nat} (h : Queue p (n::q)) :
    ∃ r,p.alloc=(r,some n) ∧ Queue r q ∧ r.index=update p.index n (some n) ∧
      r.size=p.size ∧ r.idHash=p.idHash ∧ r.id=p.id := by
  have hlen : q.length+1=p.avail := by simpa using h.length_eq
  have hle:=h.avail_le
  have hpos : 0<p.size := by omega
  have hhead:=h.head_lt hpos
  have hfirst : p.free p.head=some n := by
    have h0:=h.ring 0 (by simp)
    simpa [Nat.mod_eq_of_lt hhead] using h0
  have hav : 0<p.avail := by omega
  have hr : p.alloc=({ p with
      avail := p.avail-1
      free := update p.free p.head none
      head := (p.head+1) % p.size
      index := update p.index n (some n) },some n) := by
    simp only [alloc,if_pos hav,hfirst]
  refine ⟨_,hr,?_,rfl,rfl,rfl,rfl⟩
  refine ⟨by simp; omega,by simp; omega,fun _ => Nat.mod_lt _ hpos,?_,?_⟩
  · intro _
    simp only
    rw [h.tail_eq hpos,Nat.mod_add_mod]
    congr 1
    omega
  · intro i hi
    have hnext:=h.ring (i+1) (by simp; omega)
    have hslot : (((p.head+1) % p.size)+i) % p.size=(p.head+(i+1)) % p.size := by
      rw [Nat.mod_add_mod]
      congr 1
      omega
    have hne : (p.head+(i+1)) % p.size≠p.head := by
      have h0 : (p.head+0) % p.size≠(p.head+(i+1)) % p.size :=
        ring_ne (by omega) (by omega)
      rw [Nat.add_zero,Nat.mod_eq_of_lt hhead] at h0
      exact h0.symm
    simp only
    rw [hslot,update_of_ne hne,hnext]
    rfl

theorem release_queue {p : Pool} {n : Nat} {q : List Nat} (h : Queue p q) (hn : q.length<p.size) :
    Queue (p.release n) (q++[n]) := by
  have hlen:=h.length_eq
  have hlt : p.avail<p.size := by omega
  have hpos : 0<p.size := by omega
  have htail:=h.tail_eq hpos
  simp only [release,if_pos hlt]
  refine ⟨by simp; omega,by simp; omega,h.head_lt,?_,?_⟩
  · intro _
    simp only
    rw [htail,Nat.mod_add_mod,Nat.add_assoc]
  · intro i hi
    simp only [length_append,length_singleton] at hi
    simp only
    by_cases hlast : i<q.length
    · have hne : (p.head+i) % p.size≠p.tail := by
        rw [htail]
        exact ring_ne (by omega) hlt
      rw [update_of_ne hne,h.ring i hlast,getElem_append_left hlast]
    · have heq : i=p.avail := by omega
      subst heq
      rw [← htail,update_self]
      simp [← hlen]

theorem release_index {p : Pool} {n : Nat} (hlt : p.avail<p.size) :
    (p.release n).index=update p.index n none := by
  simp [release,hlt]

@[simp] theorem release_size (p : Pool) (n : Nat) : (p.release n).size=p.size := by
  unfold release
  split_ifs <;> rfl

@[simp] theorem release_idHash (p : Pool) (n : Nat) : (p.release n).idHash=p.idHash := by
  unfold release
  split_ifs <;> rfl

@[simp] theorem idFree_size (p : Pool) (n id : Nat) : (p.idFree n id).size=p.size :=
  release_size ..

@[simp] theorem release_id (p : Pool) (n : Nat) : (p.release n).id=p.id := by
  unfold release
  split_ifs <;> rfl

@[simp] theorem idFree_id (p : Pool) (n id : Nat) : (p.idFree n id).id=p.id :=
  release_id ..

theorem alloc_idHash (p : Pool) : p.alloc.1.idHash=p.idHash := by
  unfold alloc
  split_ifs
  · split <;> rfl
  · rfl

theorem idCalloc_idHash {p q : Pool} {n id : Nat} (h : p.idCalloc=(q,some (n,id))) :
    q.idHash=update p.idHash id (some n) := by
  have hkeep:=p.alloc_idHash
  unfold idCalloc at h
  split at h
  · rename_i a node ha
    rw [ha] at hkeep
    cases h
    simp only
    rw [hkeep]
  · cases h

@[simp] theorem idFree_idHash (p : Pool) (n id : Nat) :
    (p.idFree n id).idHash=update p.idHash id none :=
  release_idHash ..

/-- `q` is the queue of free nodes and `live` the nodes in use: each node of the pool is in
exactly one of them, and the table of nodes in use is right. -/
structure Split (p : Pool) (q live : List Nat) : Prop where
  queue : Queue p q
  perm : (q++live).Perm (List.range p.size)
  index_live : ∀ n∈live,p.index n=some n
  index_free : ∀ n,n∉live → p.index n=none

theorem split_init (size : Nat) : Split (init size) (List.range size) [] where
  queue := queue_init size
  perm := by simp [init]
  index_live := by simp
  index_free := by simp [init]

namespace Split

variable {p : Pool} {q live : List Nat}

theorem nodup (h : Split p q live) : (q++live).Nodup :=
  h.perm.nodup_iff.mpr nodup_range

theorem live_nodup (h : Split p q live) : live.Nodup :=
  (nodup_append.mp h.nodup).2.1

theorem lt_size (h : Split p q live) {n : Nat} (hn : n∈live) : n<p.size := by
  have hmem : n∈List.range p.size := h.perm.mem_iff.mp (mem_append_right q hn)
  simpa using hmem

theorem not_live_of_free (h : Split p q live) {n : Nat} (hn : n∈q) : n∉live :=
  fun hl => (nodup_append.mp h.nodup).2.2 n hn n hl rfl

theorem free_lt_size (h : Split p q live) {n : Nat} (hn : n∈q) : n<p.size := by
  have hmem : n∈List.range p.size := h.perm.mem_iff.mp (mem_append_left live hn)
  simpa using hmem

theorem length_add (h : Split p q live) : q.length+live.length=p.size := by
  have hl:=h.perm.length_eq
  simpa using hl

theorem in_use (h : Split p q live) : p.size-p.avail=live.length := by
  have hlen:=h.length_add
  have hq:=h.queue.length_eq
  omega

theorem alloc {n : Nat} (h : Split p (n::q) live) :
    ∃ r,p.alloc=(r,some n) ∧ Split r q (live++[n]) ∧ r.size=p.size ∧
      r.idHash=p.idHash ∧ r.id=p.id := by
  obtain ⟨r,hr,hq,hidx,hsize,hhash,hid⟩ := alloc_of_cons h.queue
  refine ⟨r,hr,⟨hq,?_,?_,?_⟩,hsize,hhash,hid⟩
  · rw [hsize]
    refine List.Perm.trans ?_ h.perm
    rw [← append_assoc]
    exact (perm_append_comm).trans (by simp)
  · intro m hm
    rw [hidx]
    rcases mem_append.mp hm with hm | hm
    · have hne : m≠n := by
        intro he
        exact h.not_live_of_free (mem_cons_self ..) (he ▸ hm)
      rw [update_of_ne hne]
      exact h.index_live m hm
    · rw [mem_singleton.mp hm,update_self]
  · intro m hm
    simp only [mem_append,mem_singleton,not_or] at hm
    rw [hidx,update_of_ne hm.2]
    exact h.index_free m hm.1

theorem setIds (h : Split p q live) (id : Nat) (idHash : Nat → Option Nat) :
    Split { p with id := id,idHash := idHash } q live where
  queue := ⟨h.queue.length_eq,h.queue.avail_le,h.queue.head_lt,h.queue.tail_eq,h.queue.ring⟩
  perm := h.perm
  index_live := h.index_live
  index_free := h.index_free

theorem release {n : Nat} (h : Split p q live) (hn : n∈live) :
    Split (p.release n) (q++[n]) (live.erase n) := by
  have hpos : 0<live.length := length_pos_of_mem hn
  have hlen:=h.length_add
  have hlt : p.avail<p.size := by
    have := h.queue.length_eq
    omega
  refine ⟨release_queue h.queue (by omega),?_,?_,?_⟩
  · rw [release_size,append_assoc,singleton_append]
    refine List.Perm.trans ?_ h.perm
    exact Perm.append_left q (perm_cons_erase hn).symm
  · intro m hm
    rw [release_index hlt]
    have hne : m≠n := by
      rintro rfl
      exact h.live_nodup.not_mem_erase hm
    rw [update_of_ne hne]
    exact h.index_live m (mem_of_mem_erase hm)
  · intro m hm
    rw [release_index hlt]
    by_cases he : m=n
    · rw [he,update_self]
    · rw [update_of_ne he]
      refine h.index_free m fun hml => hm ?_
      exact (mem_erase_of_ne he).mpr hml

theorem idCalloc {n : Nat} (h : Split p (n::q) live) :
    ∃ r,p.idCalloc=(r,some (n,nextId p.id 1 maxPoolId)) ∧ Split r q (live++[n]) ∧
      r.size=p.size ∧ r.id=nextId p.id 1 maxPoolId := by
  obtain ⟨r,hr,hs,hsize,-,hid⟩ := h.alloc
  refine ⟨{ r with
    id := nextId r.id 1 maxPoolId
    idHash := update r.idHash (nextId r.id 1 maxPoolId) (some n) },?_,?_,hsize,?_⟩
  · simp only [Pool.idCalloc,hr]
    rw [hid]
  · exact hs.setIds _ _
  · rw [hid]

theorem idCalloc_nil (h : Split p [] live) : p.idCalloc=(p,none) := by
  simp only [Pool.idCalloc,alloc_of_nil h.queue]

theorem idCalloc_isSome (h : Split p q live) :
    p.idCalloc.2.isSome=decide (0<p.avail) := by
  have hlen:=h.queue.length_eq
  cases q with
  | nil =>
    have h0 : p.avail=0 := by simpa using hlen.symm
    simp [h.idCalloc_nil,h0]
  | cons n q =>
    obtain ⟨r,hr,-⟩ := h.idCalloc
    have hpos : 0<p.avail := by simp at hlen; omega
    simp [hr,hpos]

theorem idFree {n : Nat} (h : Split p q live) (hn : n∈live) (id : Nat) :
    Split (p.idFree n id) (q++[n]) (live.erase n) :=
  (h.setIds p.id _).release hn

theorem find_eq (h : Split p q live) (i : Nat) :
    p.find i = if 0 < i ∧ i-1∈live then some (i-1) else none := by
  unfold find
  by_cases hl : i-1∈live
  · have hlt:=h.lt_size hl
    by_cases hi : 0 < i
    · rw [if_pos ⟨hi,by omega⟩,if_pos ⟨hi,hl⟩,h.index_live _ hl]
    · rw [if_neg (by omega),if_neg (by omega)]
  · have hidx:=h.index_free _ hl
    have hno : ¬ (0 < i ∧ i-1∈live) := fun hh => hl hh.2
    rw [if_neg hno,hidx]
    split_ifs <;> rfl

end Split

end Pool
end OgsDp.Core
