import OgsDp.Dsmf.Session

/-!
# The session table over whole runs (src/dsmf/context.c)

`dsmf_sess_find_by_id` reads its argument as a position in the pool, while `sess->id` is a counter
that every `ogs_pool_id_calloc` advances.
-/

namespace OgsDp.Dsmf
open Lib RefTable OgsDp.Core List Option

inductive Op where
  | sessAdd (env : Env) (cpFSeid : FSeid)
  | sessAddByRanSync (env : Env) (r : RanSync)
  | sessRemove (fr : Frame) (n : Nat)

-- `removed` is the history of the ids of removed sessions; the program does not keep it.
structure Table where
  ctx : Context
  removed : List Nat

def Table.init (poolSess : Nat) (sess : Nat → Sess) (dn4Seid : Nat → BitVec 32)
    (seed : BitVec 32) : Table :=
  ⟨contextInit poolSess sess dn4Seid seed,[]⟩

def Table.step (t : Table) : Op → Option (Outcome Table Nat)
  | .sessAdd env f => some ((sessAdd env t.ctx f).mapState fun c => ⟨c,t.removed⟩)
  | .sessAddByRanSync env r =>
    some ((sessAddByRanSync env t.ctx r).mapState fun c => ⟨c,t.removed⟩)
  | .sessRemove fr n =>
    if n∈t.ctx.sessList then
      some (((sessRemove t.ctx fr n).bind fun c _ => .ok c n).mapState fun c =>
        ⟨c,(t.ctx.sess n).id::t.removed⟩)
    else none

/-- The call makes a session: a synchronisation does unless it finds one. -/
def creates (c : Context) : Op → Bool
  | .sessAdd _ _ => true
  | .sessAddByRanSync env r => (sessFindByGnbSession c env.frame r.gnbId r.sessionId).isNone
  | .sessRemove _ _ => false

/-- Every live session is found under its id, and no removed one is. -/
def FindsById (t : Table) : Prop :=
  (∀ n∈t.ctx.sessList,sessFindById t.ctx (t.ctx.sess n).id=some n) ∧
    ∀ id∈t.removed,sessFindById t.ctx id=none

/-- Fewer sessions were ever made than the pool has nodes, where a session is about to be made
from a free node. -/
def IdsInRange (t : Table) (op : Op) : Prop :=
  creates t.ctx op=true → 0<t.ctx.sessPool.avail → t.ctx.sessPool.id<t.ctx.sessPool.size

instance (t : Table) (op : Op) : Decidable (IdsInRange t op) :=
  inferInstanceAs (Decidable (_ → _ → _))

structure Aligned (t : Table) : Prop where
  split : ∃ freed,Pool.Split t.ctx.sessPool
    (List.range' t.ctx.sessPool.id (t.ctx.sessPool.size-t.ctx.sessPool.id)++freed)
      t.ctx.sessList
  id_le : t.ctx.sessPool.id≤t.ctx.sessPool.size
  size_le : t.ctx.sessPool.size ≤ maxPoolId
  id_eq : ∀ n∈t.ctx.sessList,(t.ctx.sess n).id=n+1
  removed_le : ∀ id∈t.removed,0 < id ∧ id≤t.ctx.sessPool.id
  removed_free : ∀ id∈t.removed,id-1∉t.ctx.sessList

namespace Aligned

variable {t : Table}

theorem init {poolSess : Nat} (h : poolSess ≤ maxPoolId) (sess : Nat → Sess)
    (dn4Seid : Nat → BitVec 32) (seed : BitVec 32) :
    Aligned (Table.init poolSess sess dn4Seid seed) where
  split := by
    refine ⟨[],?_⟩
    have hs:=Pool.split_init poolSess
    rw [range_eq_range'] at hs
    simpa [Table.init,contextInit,Pool.init] using hs
  id_le := Nat.zero_le _
  size_le := h
  id_eq := by simp [Table.init,contextInit]
  removed_le := by simp [Table.init]
  removed_free := by simp [Table.init]

theorem findsById (h : Aligned t) : FindsById t := by
  obtain ⟨freed,hs⟩ := h.split
  constructor
  · intro n hn
    rw [h.id_eq n hn,sessFindById,hs.find_eq,if_pos ⟨Nat.succ_pos n,hn⟩]
    rfl
  · intro id hid
    rw [sessFindById,hs.find_eq,if_neg fun hh => h.removed_free id hid hh.2]

theorem congr {u : Table} (h : Aligned t) (hpool : u.ctx.sessPool=t.ctx.sessPool)
    (hlist : u.ctx.sessList=t.ctx.sessList) (hid : ∀ m,(u.ctx.sess m).id=(t.ctx.sess m).id)
    (hremoved : u.removed=t.removed) : Aligned u where
  split := by rw [hpool,hlist]; exact h.split
  id_le := by rw [hpool]; exact h.id_le
  size_le := by rw [hpool]; exact h.size_le
  id_eq := by intro n hn; rw [hid]; exact h.id_eq n (hlist ▸ hn)
  removed_le := by rw [hpool,hremoved]; exact h.removed_le
  removed_free := by rw [hlist,hremoved]; exact h.removed_free

/-! The node drawn next is the next position, and its id is the next id. -/

section Draw

variable (h : Aligned t) (hlt : t.ctx.sessPool.id<t.ctx.sessPool.size)
include h hlt

theorem next_split : ∃ q,Pool.Split t.ctx.sessPool (t.ctx.sessPool.id::q) t.ctx.sessList ∧
    ∃ freed,q=List.range' (t.ctx.sessPool.id+1)
      (t.ctx.sessPool.size-(t.ctx.sessPool.id+1))++freed := by
  obtain ⟨freed,hs⟩ := h.split
  have hrange : List.range' t.ctx.sessPool.id (t.ctx.sessPool.size-t.ctx.sessPool.id) =
      t.ctx.sessPool.id::List.range' (t.ctx.sessPool.id+1)
        (t.ctx.sessPool.size-(t.ctx.sessPool.id+1)) := by
    have hsub : t.ctx.sessPool.size-t.ctx.sessPool.id =
        (t.ctx.sessPool.size-(t.ctx.sessPool.id+1))+1 := by omega
    rw [hsub,range'_succ]
  rw [hrange,cons_append] at hs
  exact ⟨_,hs,freed,rfl⟩

theorem next_id : nextId t.ctx.sessPool.id 1 maxPoolId=t.ctx.sessPool.id+1 := by
  have hmax:=h.size_le
  rw [nextId,if_neg (by omega)]

theorem next_fresh : t.ctx.sessPool.id∉t.ctx.sessList := by
  obtain ⟨q,hs,-⟩ := h.next_split hlt
  exact hs.not_live_of_free (mem_cons_self ..)

theorem findsById_drawn {u : Table} {q : List Nat}
    (hsplit : Pool.Split u.ctx.sessPool q (t.ctx.sessList++[t.ctx.sessPool.id]))
    (hlist : u.ctx.sessList=t.ctx.sessList) (hremoved : u.removed=t.removed)
    (hsess : ∀ m,m≠t.ctx.sessPool.id → u.ctx.sess m=t.ctx.sess m) : FindsById u := by
  have hfresh:=h.next_fresh hlt
  constructor
  · intro n hn
    rw [hlist] at hn
    have hne : n≠t.ctx.sessPool.id := by
      intro he
      exact hfresh (he ▸ hn)
    rw [hsess n hne,h.id_eq n hn,sessFindById,hsplit.find_eq,
      if_pos ⟨Nat.succ_pos n,mem_append_left _ hn⟩]
    rfl
  · intro id hid
    rw [hremoved] at hid
    have hle:=h.removed_le id hid
    have hfree:=h.removed_free id hid
    rw [sessFindById,hsplit.find_eq,if_neg]
    rintro ⟨-,hmem⟩
    rcases mem_append.mp hmem with hmem | hmem
    · exact hfree hmem
    · rw [mem_singleton] at hmem
      omega

theorem added {u : Table} {q : List Nat}
    (hq : ∃ freed,q=List.range' (t.ctx.sessPool.id+1)
      (t.ctx.sessPool.size-(t.ctx.sessPool.id+1))++freed)
    (hsplit : Pool.Split u.ctx.sessPool q (t.ctx.sessList++[t.ctx.sessPool.id]))
    (hsize : u.ctx.sessPool.size=t.ctx.sessPool.size)
    (hid : u.ctx.sessPool.id=t.ctx.sessPool.id+1)
    (hlist : u.ctx.sessList=t.ctx.sessList++[t.ctx.sessPool.id])
    (hself : (u.ctx.sess t.ctx.sessPool.id).id=t.ctx.sessPool.id+1)
    (hsess : ∀ m,m≠t.ctx.sessPool.id → u.ctx.sess m=t.ctx.sess m)
    (hremoved : u.removed=t.removed) : Aligned u where
  split := by
    obtain ⟨freed,rfl⟩ := hq
    rw [hsize,hid,hlist]
    exact ⟨freed,hsplit⟩
  id_le := by omega
  size_le := by rw [hsize]; exact h.size_le
  id_eq := by
    intro n hn
    rw [hlist] at hn
    by_cases he : n=t.ctx.sessPool.id
    · rw [he,hself]
    · rcases mem_append.mp hn with hn | hn
      · rw [hsess n he,h.id_eq n hn]
      · exact absurd (mem_singleton.mp hn) he
  removed_le := by
    intro id hmem
    rw [hremoved] at hmem
    have hle:=h.removed_le id hmem
    omega
  removed_free := by
    intro id hmem hin
    rw [hremoved] at hmem
    rw [hlist] at hin
    have hle:=h.removed_le id hmem
    rcases mem_append.mp hin with hin | hin
    · exact h.removed_free id hmem hin
    · rw [mem_singleton] at hin
      omega

end Draw

/-- What is asked of the state a call leaves: the invariant, or what is left of it where an
assertion failed. -/
def Kept (removed : List Nat) (o : Outcome Context Nat) : Prop :=
  o.Leaves (fun c => Aligned ⟨c,removed⟩) fun c => FindsById ⟨c,removed⟩

theorem sessAdd_next (h : Aligned t) (env : Env) (f : FSeid)
    (hlt : t.ctx.sessPool.id<t.ctx.sessPool.size) :
    (t.ctx.dn4SeidPool.alloc.2=none ∧
      ∃ c,sessAdd env t.ctx f = .abort c ∧ FindsById ⟨c,t.removed⟩) ∨
    ∃ k pool,t.ctx.dn4SeidPool.alloc.2=some k ∧
      sessAdd env t.ctx f = .ok (sessAdded t.ctx t.ctx.sessPool.id pool t.ctx.dn4SeidPool.alloc.1
        (t.ctx.sessPool.id+1) k f) t.ctx.sessPool.id ∧
      Aligned ⟨sessAdded t.ctx t.ctx.sessPool.id pool t.ctx.dn4SeidPool.alloc.1
        (t.ctx.sessPool.id+1) k f,t.removed⟩ := by
  obtain ⟨q,hs,hq⟩ := h.next_split hlt
  obtain ⟨pool,hpool,hsize,hid,hadd⟩ := sessAdd_drawn env t.ctx _ hs f
  rw [h.next_id hlt] at hid
  rw [hadd]
  have hfind : pool.find (t.ctx.sessPool.id+1)=some t.ctx.sessPool.id := by
    have hmem : t.ctx.sessPool.id+1-1∈t.ctx.sessList++[t.ctx.sessPool.id] := by simp
    rw [hpool.find_eq,if_pos ⟨Nat.succ_pos _,hmem⟩]
    rfl
  rcases t.ctx.dn4SeidPool.alloc with ⟨seidPool,k⟩
  cases k with
  | none =>
    left
    refine ⟨rfl,_,rfl,h.findsById_drawn hlt hpool rfl rfl ?_⟩
    intro m hm
    simp [sessCalloc,Function.update_of_ne hm]
  | some k =>
    right
    simp only [hid,hfind]
    refine ⟨k,pool,rfl,rfl,h.added hlt hq hpool hsize hid rfl ?_ ?_ rfl⟩
    · rw [sessAdded_sess_self]
    · exact fun m hm => sessAdded_sess_of_ne t.ctx _ pool seidPool _ k f m hm

theorem sessAdd_kept (h : Aligned t) (env : Env) (f : FSeid)
    (hc : 0<t.ctx.sessPool.avail → t.ctx.sessPool.id<t.ctx.sessPool.size) :
    Kept t.removed (sessAdd env t.ctx f) := by
  by_cases havail : 0<t.ctx.sessPool.avail
  · rcases h.sessAdd_next env f (hc havail) with ⟨-,c,hadd,hfinds⟩ | ⟨k,pool,-,hadd,hnext⟩
    · rw [hadd]
      exact hfinds
    · rw [hadd]
      exact hnext
  · obtain ⟨queue,hqueue⟩ : ∃ q,Pool.Split t.ctx.sessPool q t.ctx.sessList :=
      h.split.elim fun _ hs => ⟨_,hs⟩
    have hnil : queue=[] := by
      have hlen:=hqueue.queue.length_eq
      exact length_eq_zero_iff.mp (by omega)
    subst hnil
    rw [sessAdd_empty env t.ctx hqueue f]
    exact h.findsById

theorem sessAddByRanSync_kept (h : Aligned t) (env : Env) (r : RanSync)
    (hc : IdsInRange t (.sessAddByRanSync env r)) :
    Kept t.removed (sessAddByRanSync env t.ctx r) := by
  unfold sessAddByRanSync
  cases hfind : sessFindByGnbSession t.ctx env.frame r.gnbId r.sessionId with
  | some n => exact h
  | none =>
    have hc':=hc (by simp [creates,hfind])
    rcases t.ctx.dn4SeidPool.alloc with ⟨seidPool,k⟩
    cases k with
    | none => exact h.findsById
    | some k =>
      have hu : Aligned ⟨{ t.ctx with dn4SeidPool := seidPool },t.removed⟩ :=
        h.congr rfl rfl (fun _ => rfl) rfl
      have hadd:=hu.sessAdd_kept env ⟨(t.ctx.dn4Seid k).signExtend 64,cpAddr env⟩ hc'
      simp only
      revert hadd
      cases sessAdd env { t.ctx with dn4SeidPool := seidPool }
        ⟨(t.ctx.dn4Seid k).signExtend 64,cpAddr env⟩ with
      | ok c n =>
        intro hadd
        exact hadd.congr rfl rfl (sessBindRan_id env c n r) rfl
      | abort c => exact id

theorem sessRemove_kept (h : Aligned t) (fr : Frame) {n : Nat} (hn : n∈t.ctx.sessList) :
    sessRemove t.ctx fr n = .ok (sessRemoved t.ctx fr n) () ∧
      Aligned ⟨sessRemoved t.ctx fr n,(t.ctx.sess n).id::t.removed⟩ := by
  obtain ⟨freed,hs⟩ := h.split
  have hid:=h.id_eq n hn
  have hlt:=hs.lt_size hn
  have hsize:=h.size_le
  have hle:=h.id_le
  -- the nodes not yet drawn are free, so a listed node was drawn
  have hdrawn : n<t.ctx.sessPool.id := by
    by_contra hge
    refine hs.not_live_of_free (mem_append_left _ ?_) hn
    rw [mem_range'_1]
    omega
  refine ⟨sessRemove_ok t.ctx fr n (by omega) (by omega),?_⟩
  refine ⟨⟨freed++[n],?_⟩,?_,?_,?_,?_,?_⟩
  · simp only [sessRemoved_sessPool,sessRemoved_sessList,Pool.idFree_id,Pool.idFree_size]
    rw [← append_assoc]
    exact hs.idFree hn _
  · simpa using hle
  · simpa using hsize
  · intro m hm
    simp only [sessRemoved_sessList] at hm
    simp only [sessRemoved_sess,sessUnlink_id]
    exact h.id_eq m (mem_of_mem_erase hm)
  · intro id hmem
    simp only [sessRemoved_sessPool,Pool.idFree_id]
    rcases mem_cons.mp hmem with rfl | hmem
    · omega
    · exact h.removed_le id hmem
  · intro id hmem hin
    simp only [sessRemoved_sessList] at hin
    rcases mem_cons.mp hmem with rfl | hmem
    · rw [hid,Nat.add_sub_cancel] at hin
      exact hs.live_nodup.not_mem_erase hin
    · exact h.removed_free id hmem (mem_of_mem_erase hin)

end Aligned

theorem step_kept {t : Table} {op : Op} {o : Outcome Table Nat} (h : Aligned t)
    (hc : IdsInRange t op) (hstep : t.step op=some o) : o.Leaves Aligned FindsById := by
  cases op with
  | sessAdd env f =>
    simp only [Table.step,some.injEq] at hstep
    subst hstep
    exact Outcome.Leaves.mapState (h.sessAdd_kept env f (hc rfl))
  | sessAddByRanSync env r =>
    simp only [Table.step,some.injEq] at hstep
    subst hstep
    exact Outcome.Leaves.mapState (h.sessAddByRanSync_kept env r hc)
  | sessRemove fr n =>
    simp only [Table.step] at hstep
    split at hstep
    · rename_i hn
      obtain ⟨hrun,hrem⟩ := h.sessRemove_kept fr hn
      simp only [hrun,Outcome.bind_ok,some.injEq] at hstep
      subst hstep
      exact hrem
    · cases hstep

/-- In a run that makes a session only while the ids handed out are fewer than the nodes of the
pool, every state finds the live sessions by their ids and no removed one. -/
theorem sess_findById_run {poolSess : Nat} (hsize : poolSess ≤ maxPoolId) (sess : Nat → Sess)
    (dn4Seid : Nat → BitVec 32) (seed : BitVec 32) (ops : List Op)
    (hops : EachStep Table.step IdsInRange (Table.init poolSess sess dn4Seid seed) ops) :
    ∀ t∈visited Table.step (Table.init poolSess sess dn4Seid seed) ops,FindsById t := by
  refine visited_inv (fun t ht => ht.findsById) ?_ (Aligned.init hsize sess dn4Seid seed) hops
  intro t op o ht hc hstep
  exact step_kept ht hc hstep

/-! One session, made and removed; the pool has one node. -/

def env0 : Env where
  frame := ⟨0,fun _ => 0⟩
  later := fun _ => 0
  timerAdd := true
  dfNode := none
  xact := true
  peerNode := none
  pfcpAddr := none
  ranAddr := none

def strA : CStr := ⟨[97],by decide⟩
def strB : CStr := ⟨[98],by decide⟩
def strC : CStr := ⟨[99],by decide⟩
def strAB : CStr := ⟨[97,45,98],by decide⟩
def strBC : CStr := ⟨[98,45,99],by decide⟩

def table0 : Table := Table.init 1 (fun _ => Sess.zero) (fun _ => 0) 0

theorem sess_findById_run_once :
    (visited Table.step table0 [.sessAdd env0 ⟨0,0⟩,.sessRemove env0.frame 0]).length=3 ∧
      ∀ t∈visited Table.step table0 [.sessAdd env0 ⟨0,0⟩,.sessRemove env0.frame 0],FindsById t := by
  exact ⟨by decide,sess_findById_run (by decide) _ _ _ _ (by decide)⟩

instance (t : Table) : Decidable (FindsById t) :=
  inferInstanceAs (Decidable (_ ∧ _))

/-- The second session ever made has id 2 in a pool of one node: the initial state does not find
it, and its assertion fails. -/
theorem sess_findById_second_sess :
    ∃ t ∈ visited Table.step table0
        [.sessAdd env0 ⟨0,0⟩,.sessRemove env0.frame 0,.sessAdd env0 ⟨0,0⟩],
      t.ctx.sessList=[0] ∧ (t.ctx.sess 0).id=2 ∧ sessFindById t.ctx 2=none ∧
        ¬ FindsById t := by
  decide

end OgsDp.Dsmf
