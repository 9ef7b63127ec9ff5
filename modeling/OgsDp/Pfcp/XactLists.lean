import OgsDp.Pfcp.Xact

/-!
# The transaction lists and their pool (lib/pfcp/xact.c)

Creation and deletion keep the lists of the peers, the pool and the ids together.
-/

namespace OgsDp.Pfcp
open Lib OgsDp.Core Function List

structure Layer.Heap (s : Layer) : Prop where
  split : ∃ q live,Pool.Split s.pool q live ∧ ∀ r,r∈live ↔ ∃ org node,r∈s.list org node
  listed : ∀ org node r,r∈s.list org node → (s.xact r).org=org ∧ (s.xact r).node=node
  nodup : ∀ org node,(s.list org node).Nodup
  byId : ∀ org node r,r∈s.list org node → s.pool.findById (s.xact r).id=some r

structure Layer.Lists (s : Layer) : Prop where
  split : ∃ q live,Pool.Split s.pool q live ∧ ∀ r,r∈live ↔ ∃ org node,r∈s.list org node
  listed : ∀ org node r,r∈s.list org node → (s.xact r).org=org ∧ (s.xact r).node=node
  nodup : ∀ org node,(s.list org node).Nodup

namespace Layer

variable {rc : Rcounts} {s : Layer} {org : Org} {node r : Nat} {x : Xact}

@[simp] theorem setXact_list : (s.setXact r x).list=s.list := rfl

@[simp] theorem setXact_pool : (s.setXact r x).pool=s.pool := rfl

@[simp] theorem setList_xact {l : List Nat} : (s.setList org node l).xact=s.xact := rfl

@[simp] theorem setXact_self : (s.setXact r x).xact r=x := update_self ..

theorem setXact_of_ne {i : Nat} (h : i≠r) : (s.setXact r x).xact i=s.xact i :=
  update_of_ne h ..

theorem setXact_same (hx : (s.xact r).Same x) (i : Nat) :
    (s.xact i).Same ((s.setXact r x).xact i) := by
  by_cases hi : i=r
  · subst hi
    rw [setXact_self]
    exact hx
  · rw [setXact_of_ne hi]
    exact ⟨rfl,rfl,rfl,rfl⟩

theorem list_update (l : List Nat) (org' : Org) (node' : Nat) :
    (s.setList org node l).list org' node' =
      if org'=org ∧ node'=node then l else s.list org' node' := by
  unfold setList
  by_cases ho : org'=org
  · subst ho
    by_cases hn : node'=node
    · subst hn
      simp
    · simp [hn]
  · simp [ho]

theorem delete_list (o : Org) (n : Nat) :
    (s.delete r).list o n =
      if o=(s.xact r).org ∧ n=(s.xact r).node then
        (s.list (s.xact r).org (s.xact r).node).erase r
      else s.list o n :=
  list_update ..

theorem create_eq {p : Pool} {id timers : Nat} {xid : BitVec 32} (ht : ¬ timers<3)
    (hp : s.pool.idCalloc=(p,some (r,id))) :
    Layer.create rc s org xid node timers =
      .ok (({ s with pool := p }.setXact r
        (Xact.create rc id (Pool.poolIndex r) org xid node)).setList org node
          (s.list org node++[r])) r := by
  unfold Layer.create
  simp only [hp,if_neg ht]

theorem findByXid_mem {l : List Nat} {xid : BitVec 32} (hf : s.findByXid l xid=some r) :
    r∈l ∧ (s.xact r).xid=xid := by
  unfold findByXid at hf
  exact ⟨List.mem_of_find?_eq_some hf,by simpa using List.find?_some hf⟩

theorem init_heap (size : Nat) (xact : Nat → Xact) : (init size xact).Heap where
  split := ⟨_,_,Pool.split_init size,by simp [init]⟩
  listed := by simp [init]
  nodup := by simp [init]
  byId := by simp [init]

namespace Lists

theorem mem_of_live (h : s.Lists) (hr : s.Live r) :
    r∈s.list (s.xact r).org (s.xact r).node := by
  obtain ⟨q,live,hs,hl⟩ := h.split
  have hlive : r∈live := by
    by_contra hno
    have hnone:=hs.index_free r hno
    rw [Live,hnone] at hr
    cases hr
  obtain ⟨org,node,hmem⟩ := (hl r).mp hlive
  obtain ⟨ho,hn⟩ := h.listed org node r hmem
  rw [ho,hn]
  exact hmem

theorem setXact (h : s.Lists) (hx : (s.xact r).Same x) : (s.setXact r x).Lists where
  split := h.split
  listed := by
    intro org node i hi
    have hsame:=setXact_same hx i
    rw [hsame.org,hsame.node]
    exact h.listed org node i hi
  nodup := h.nodup

theorem mem_insert {t : Layer}
    (hlist : ∀ o n,t.list o n =
      if o=(t.xact r).org ∧ n=(t.xact r).node then s.list o n++[r] else s.list o n)
    {o : Org} {n i : Nat} : i∈t.list o n ↔
      i∈s.list o n ∨ (i=r ∧ o=(t.xact r).org ∧ n=(t.xact r).node) := by
  rw [hlist]
  split
  · rename_i ho
    simp [ho]
  · rename_i ho
    simp [ho]

theorem insert {t : Layer} {q live : List Nat} (h : s.Lists)
    (hl : ∀ i,i∈live ↔ ∃ org node,i∈s.list org node) (hnew : ∀ o n,r∉s.list o n)
    (hsplit : Pool.Split t.pool q (live++[r]))
    (hx : ∀ i,i≠r → t.xact i=s.xact i)
    (hlist : ∀ o n,t.list o n =
      if o=(t.xact r).org ∧ n=(t.xact r).node then s.list o n++[r] else s.list o n) :
    t.Lists := by
  have hne : ∀ o n i,i∈s.list o n → i≠r := by
    rintro o n i hi rfl
    exact hnew o n hi
  refine ⟨⟨q,live++[r],hsplit,?_⟩,?_,?_⟩
  · intro i
    rw [mem_append,hl i,mem_singleton]
    constructor
    · rintro (⟨o,n,hi⟩ | hi)
      · exact ⟨o,n,(mem_insert hlist).mpr (.inl hi)⟩
      · exact ⟨_,_,(mem_insert hlist).mpr (.inr ⟨hi,rfl,rfl⟩)⟩
    · rintro ⟨o,n,hi⟩
      rcases (mem_insert hlist).mp hi with hi | ⟨hi,_,_⟩
      · exact .inl ⟨o,n,hi⟩
      · exact .inr hi
  · intro o n i hi
    rcases (mem_insert hlist).mp hi with hi | ⟨rfl,ho,hn⟩
    · rw [hx i (hne o n i hi)]
      exact h.listed o n i hi
    · exact ⟨ho.symm,hn.symm⟩
  · intro o n
    rw [hlist]
    split
    · rw [nodup_append]
      refine ⟨h.nodup o n,nodup_singleton r,?_⟩
      intro i hi j hj
      rw [mem_singleton.mp hj]
      exact hne o n i hi
    · exact h.nodup o n

variable (rc) in
theorem create (h : s.Lists) (org : Org) (xid : BitVec 32) (node timers : Nat) :
    (Layer.create rc s org xid node timers).Returns fun t r =>
      t.Lists ∧ (∀ o n,r∉s.list o n) ∧ (∀ i,i≠r → t.xact i=s.xact i) ∧
        (∀ o n,t.list o n = if o=org ∧ n=node then s.list o n++[r] else s.list o n) ∧
        (∃ id index,t.xact r=Xact.create rc id index org xid node) ∧
        t.pool.idHash=update s.pool.idHash (nextId s.pool.id 1 maxPoolId) (some r) ∧
        (t.xact r).id=nextId s.pool.id 1 maxPoolId := by
  obtain ⟨q,live,hs,hl⟩ := h.split
  unfold Layer.create
  cases q with
  | nil =>
    rw [hs.idCalloc_nil]
    exact Outcome.returns_abort
  | cons r q =>
    obtain ⟨p,hp,hsplit,_,_⟩ := hs.idCalloc
    have hhash:=Pool.idCalloc_idHash hp
    rw [hp]
    simp only
    split
    · exact Outcome.returns_abort
    rw [Outcome.returns_ok]
    generalize ht : setList _ org node (s.list org node++[r])=t
    have hpool : t.pool=p := by rw [← ht]; rfl
    have hr : t.xact r=Xact.create rc (nextId s.pool.id 1 maxPoolId) (Pool.poolIndex r) org xid node := by
      rw [← ht]
      exact setXact_self
    have hx : ∀ i,i≠r → t.xact i=s.xact i := by
      intro i hi
      rw [← ht]
      exact setXact_of_ne hi
    have hlist : ∀ o n,t.list o n = if o=org ∧ n=node then s.list o n++[r] else s.list o n := by
      intro o n
      rw [← ht,list_update]
      split
      · rename_i ho
        rw [ho.1,ho.2]
      · rfl
    have hnew : ∀ o n,r∉s.list o n := fun o n hmem =>
      hs.not_live_of_free (mem_cons_self ..) ((hl r).mpr ⟨o,n,hmem⟩)
    have hlists : t.Lists := by
      apply h.insert hl hnew (hpool ▸ hsplit) hx
      rw [hr]
      exact hlist
    exact ⟨hlists,hnew,hx,hlist,⟨_,_,hr⟩,hpool ▸ hhash,congrArg Xact.id hr⟩

theorem delete_list (h : s.Lists) (hr : r∈s.list org node) (o : Org) (n : Nat) :
    (s.delete r).list o n=(s.list o n).erase r := by
  obtain ⟨ho,hn⟩ := h.listed org node r hr
  rw [Layer.delete_list,ho,hn]
  split
  · rename_i he
    rw [he.1,he.2]
  · rename_i he
    refine (erase_of_not_mem fun hmem => he ?_).symm
    obtain ⟨ho',hn'⟩ := h.listed o n r hmem
    exact ⟨ho'.symm.trans ho,hn'.symm.trans hn⟩

theorem mem_delete (h : s.Lists) (hr : r∈s.list org node) {o : Org} {n i : Nat} :
    i∈(s.delete r).list o n ↔ i≠r ∧ i∈s.list o n := by
  rw [h.delete_list hr]
  exact (h.nodup o n).mem_erase_iff

theorem delete (h : s.Lists) (hr : r∈s.list org node) : (s.delete r).Lists where
  split := by
    obtain ⟨q,live,hs,hl⟩ := h.split
    refine ⟨q++[r],live.erase r,hs.idFree ((hl r).mpr ⟨org,node,hr⟩) _,?_⟩
    intro i
    rw [hs.live_nodup.mem_erase_iff,hl]
    constructor
    · rintro ⟨hi,o,n,hmem⟩
      exact ⟨o,n,(h.mem_delete hr).mpr ⟨hi,hmem⟩⟩
    · rintro ⟨o,n,hmem⟩
      obtain ⟨hi,hmem⟩ := (h.mem_delete hr).mp hmem
      exact ⟨hi,o,n,hmem⟩
  listed := by
    intro o n i hi
    exact h.listed o n i ((h.mem_delete hr).mp hi).2
  nodup := by
    intro o n
    rw [h.delete_list hr]
    exact (h.nodup o n).erase r

end Lists

namespace Heap

theorem lists (h : s.Heap) : s.Lists := ⟨h.split,h.listed,h.nodup⟩

theorem of_lists (h : s.Lists)
    (hid : ∀ org node r,r∈s.list org node → s.pool.findById (s.xact r).id=some r) :
    s.Heap :=
  ⟨h.split,h.listed,h.nodup,hid⟩

theorem mem_of_live (h : s.Heap) (hr : s.Live r) :
    r∈s.list (s.xact r).org (s.xact r).node :=
  h.lists.mem_of_live hr

theorem setXact (h : s.Heap) (hx : (s.xact r).Same x) : (s.setXact r x).Heap := by
  apply of_lists (h.lists.setXact hx)
  intro org node i hi
  rw [(setXact_same hx i).id]
  exact h.byId org node i hi

variable (rc) in
theorem create (h : s.Heap) (hid : s.pool.findById (nextId s.pool.id 1 maxPoolId)=none)
    (org : Org) (xid : BitVec 32) (node timers : Nat) :
    (Layer.create rc s org xid node timers).Returns fun t r =>
      t.Heap ∧ (∀ o n,r∉s.list o n) ∧ (∀ i,i≠r → t.xact i=s.xact i) ∧
        (∀ o n,t.list o n = if o=org ∧ n=node then s.list o n++[r] else s.list o n) ∧
        ∃ id index,t.xact r=Xact.create rc id index org xid node := by
  apply (h.lists.create rc org xid node timers).mono
  intro t r ⟨hlists,hnew,hx,hlist,hcreate,hhash,hown⟩
  refine ⟨of_lists hlists ?_,hnew,hx,hlist,hcreate⟩
  intro o n i hi
  show t.pool.idHash (t.xact i).id=some i
  rw [hlist] at hi
  have hmem : i∈s.list o n ∨ i=r := by
    split at hi
    · simpa using hi
    · exact .inl hi
  rcases hmem with hold | rfl
  · have hbyId:=h.byId o n i hold
    have hne : i≠r := by
      rintro rfl
      exact hnew o n hold
    rw [hx i hne,hhash,update_of_ne]
    · exact hbyId
    · intro he
      rw [he,hid] at hbyId
      cases hbyId
  · rw [hhash,hown,update_self]

theorem delete_list (h : s.Heap) (hr : r∈s.list org node) (o : Org) (n : Nat) :
    (s.delete r).list o n=(s.list o n).erase r :=
  h.lists.delete_list hr o n

theorem mem_delete (h : s.Heap) (hr : r∈s.list org node) {o : Org} {n i : Nat} :
    i∈(s.delete r).list o n ↔ i≠r ∧ i∈s.list o n :=
  h.lists.mem_delete hr

theorem delete (h : s.Heap) (hr : r∈s.list org node) : (s.delete r).Heap := by
  apply of_lists (h.lists.delete hr)
  intro o n i hi
  obtain ⟨hne,hi⟩ := (h.mem_delete hr).mp hi
  have hbyId:=h.byId o n i hi
  have hother : (s.xact i).id≠(s.xact r).id := by
    intro he
    rw [he,h.byId org node r hr] at hbyId
    exact hne (Option.some.inj hbyId).symm
  show (s.pool.idFree r (s.xact r).id).idHash (s.xact i).id=some i
  rw [Pool.idFree_idHash,update_of_ne hother]
  exact hbyId

end Heap

end Layer

end OgsDp.Pfcp
