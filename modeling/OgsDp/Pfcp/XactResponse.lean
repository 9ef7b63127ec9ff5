import OgsDp.Pfcp.XactLists
import OgsDp.Pfcp.XactRequest

/-!
# Responses of the peer (lib/pfcp/xact.c)

A transaction of this node is found by its peer and its number. The first response that comes with
them is handed to the application, and no other.
-/

namespace OgsDp.Pfcp
open Lib OgsDp.Core Function List Option

namespace Layer

/-- The transactions of this node with the number `k.2` to the peer `k.1`. -/
def numbered (s : Layer) (k : Nat × BitVec 32) : List Nat :=
  (s.list .localOriginator k.1).filter fun r => (s.xact r).xid == k.2

/-- The lists, and the ids that lead to a transaction in them. -/
structure Known (s : Layer) : Prop extends s.Lists where
  found : ∀ id r,s.pool.findById id=some r →
    r∈s.list (s.xact r).org (s.xact r).node ∧ (s.xact r).id=id

structure Spared (k : Nat × BitVec 32) (s t : Layer) : Prop where
  numbered : t.numbered k=s.numbered k
  xact : ∀ r∈s.numbered k,t.xact r=s.xact r

variable {rc : Rcounts} {s t u : Layer} {k : Nat × BitVec 32} {r : Nat} {x : Xact}

theorem mem_numbered : r∈s.numbered k ↔
    r∈s.list .localOriginator k.1 ∧ (s.xact r).xid=k.2 := by
  simp [numbered,mem_filter]

theorem findByXid_numbered (s : Layer) (k : Nat × BitVec 32) :
    s.findByXid (s.list .localOriginator k.1) k.2=(s.numbered k).head? := by
  simp [findByXid,numbered]

theorem Spared.refl (s : Layer) : Spared k s s := ⟨rfl,fun _ _ => rfl⟩

theorem Spared.trans (h : Spared k s t) (h' : Spared k t u) : Spared k s u where
  numbered := h'.numbered.trans h.numbered
  xact := by
    intro r hr
    rw [h'.xact r (h.numbered ▸ hr),h.xact r hr]

theorem Spared.of_list
    (hlist : (t.list .localOriginator k.1).filter (fun r => (s.xact r).xid == k.2) =
      s.numbered k)
    (hxid : ∀ r ∈ t.list .localOriginator k.1,
      ((t.xact r).xid == k.2)=((s.xact r).xid == k.2))
    (hxact : ∀ r∈s.numbered k,t.xact r=s.xact r) : Spared k s t where
  numbered := by
    rw [← hlist]
    exact filter_congr hxid
  xact := hxact

theorem Known.init (size : Nat) (xact : Nat → Xact) : (init size xact).Known where
  toLists := (init_heap size xact).lists
  found := by
    intro id r hr
    cases hr

theorem Known.setXact (h : s.Known) (hx : (s.xact r).Same x) :
    (s.setXact r x).Known ∧ (r∉s.numbered k → Spared k s (s.setXact r x)) := by
  refine ⟨⟨h.toLists.setXact hx,?_⟩,?_⟩
  · intro id i hi
    obtain ⟨hmem,hid⟩ := h.found id i hi
    have hsame:=setXact_same hx i
    rw [hsame.org,hsame.node,hsame.id]
    exact ⟨hmem,hid⟩
  · intro hr
    have hne : ∀ i∈s.numbered k,i≠r := by
      rintro i hi rfl
      exact hr hi
    refine .of_list rfl ?_ fun i hi => setXact_of_ne (hne i hi)
    intro i _
    rw [(setXact_same hx i).xid]

theorem Known.delete (h : s.Known) (hr : r∈s.list (s.xact r).org (s.xact r).node) :
    (s.delete r).Known ∧ (r∉s.numbered k → Spared k s (s.delete r)) := by
  refine ⟨⟨h.toLists.delete hr,?_⟩,?_⟩
  · intro id i hi
    have hhash : (s.pool.idFree r (s.xact r).id).idHash id=some i := hi
    rw [Pool.idFree_idHash] at hhash
    by_cases hid : id=(s.xact r).id
    · rw [hid,update_self] at hhash
      cases hhash
    · rw [update_of_ne hid] at hhash
      obtain ⟨hmem,hown⟩ := h.found id i hhash
      have hne : i≠r := by
        rintro rfl
        exact hid hown.symm
      exact ⟨(h.toLists.mem_delete hr).mpr ⟨hne,hmem⟩,hown⟩
  · intro hno
    refine .of_list ?_ (fun _ _ => rfl) fun _ _ => rfl
    have hlist:=h.toLists.delete_list hr .localOriginator k.1
    rw [hlist]
    unfold numbered
    by_cases hmem : r∈s.list .localOriginator k.1
    · have hxid : ((s.xact r).xid == k.2)=false := by
        rw [beq_eq_false_iff_ne]
        exact fun he => hno (mem_numbered.mpr ⟨hmem,he⟩)
      rw [(h.nodup _ _).erase_eq_filter,List.filter_filter]
      apply filter_congr
      intro i _
      by_cases hi : i=r
      · simp [hi,hxid]
      · simp [hi]
    · rw [erase_of_not_mem hmem]

theorem Known.create (h : s.Known) (org : Org) (xid : BitVec 32) (node timers : Nat) :
    (Layer.create rc s org xid node timers).Returns fun t r =>
      t.Known ∧ r∈t.list org node ∧ (t.xact r).org=org ∧ (t.xact r).node=node ∧
        (t.xact r).step=0 ∧ (¬ (org = .localOriginator ∧ node=k.1 ∧ xid=k.2) →
          Spared k s t ∧ r∉t.numbered k) := by
  refine (h.toLists.create rc org xid node timers).mono ?_
  rintro t r ⟨hlists,hnew,hx,hlist,⟨id,index,hcreate⟩,hhash,hown⟩
  have hmem : r∈t.list org node := by
    rw [hlist,if_pos ⟨rfl,rfl⟩]
    simp
  refine ⟨⟨hlists,?_⟩,hmem,by rw [hcreate]; rfl,by rw [hcreate]; rfl,by rw [hcreate]; rfl,?_⟩
  · intro id' i hi
    have hidHash : t.pool.idHash id'=some i := hi
    rw [hhash] at hidHash
    by_cases hid : id'=nextId s.pool.id 1 maxPoolId
    · rw [hid,update_self] at hidHash
      cases hidHash
      rw [hcreate]
      exact ⟨hmem,by rw [← hcreate,hown,hid]⟩
    · rw [update_of_ne hid] at hidHash
      obtain ⟨hold,hid'⟩ := h.found id' i hidHash
      have hne : i≠r := by
        rintro rfl
        exact hnew _ _ hold
      rw [hx i hne]
      refine ⟨?_,hid'⟩
      rw [hlist]
      split
      · exact mem_append_left _ hold
      · exact hold
  · intro hother
    have hxr : ∀ i∈s.list .localOriginator k.1,t.xact i=s.xact i := by
      intro i hi
      refine hx i ?_
      rintro rfl
      exact hnew _ _ hi
    have hnumbered : t.numbered k=s.numbered k := by
      unfold numbered
      rw [hlist]
      split
      · rename_i he
        have hxid : ((t.xact r).xid == k.2)=false := by
          rw [beq_eq_false_iff_ne,hcreate]
          exact fun hk => hother ⟨he.1.symm,he.2.symm,hk⟩
        rw [filter_append,filter_singleton,hxid]
        rw [cond_false,append_nil]
        exact filter_congr fun i hi => by rw [hxr i hi]
      · exact filter_congr fun i hi => by rw [hxr i hi]
    refine ⟨⟨hnumbered,fun i hi => hxr i (mem_numbered.mp hi).1⟩,?_⟩
    rw [hnumbered]
    exact fun hi => hnew _ _ (mem_numbered.mp hi).1

end Layer

namespace Layer

variable {rc : Rcounts} {s t : Layer} {k : Nat × BitVec 32} {r node timers : Nat} {x : Xact}
  {h : Header}

def Responds (k : Nat × BitVec 32) (node : Nat) (h : Header) : Prop :=
  node=k.1 ∧ sqnToXid h.sqn=k.2 ∧ getStage h.type = .final

instance (k : Nat × BitVec 32) (node : Nat) (h : Header) : Decidable (Responds k node h) :=
  inferInstanceAs (Decidable (_ ∧ _))

-- What a call for a transaction that is not numbered `k` leaves.
def Leaves (k : Nat × BitVec 32) (s t : Layer) (a : Result) : Prop :=
  Spared k s t ∧ ∀ r∈a.xact,r∉t.numbered k

theorem Leaves.none (hs : Spared k s t) (rv : Rv) (sent : Option (Nat × List Byte)) :
    Leaves k s t ⟨rv,none,sent⟩ := by
  refine ⟨hs,?_⟩
  intro r hr
  cases hr

theorem Known.deliver (hs : s.Known) (hr : r∈s.list (s.xact r).org (s.xact r).node)
    (type : Byte) : (s.deliver r type).Returns fun t a =>
      t.Known ∧ (r∉s.numbered k → Leaves k s t a) := by
  have hrx:=(s.xact r).updateRx_same type
  unfold Layer.deliver
  cases hu : (s.xact r).updateRx type with
  | abort y => exact Outcome.returns_abort
  | ok y a =>
    rw [hu] at hrx
    obtain ⟨hset,hspared⟩ := hs.setXact (k := k) hrx
    obtain ⟨rv,sent⟩ := a
    cases rv with
    | ok =>
      refine ⟨hset,fun hno => ⟨hspared hno,?_⟩⟩
      intro r' hr'
      cases hr'
      rw [(hspared hno).numbered]
      exact hno
    | retry => exact ⟨hset,fun hno => .none (hspared hno) ..⟩
    | error =>
      have hmem : r∈(s.setXact r y).list ((s.setXact r y).xact r).org
          ((s.setXact r y).xact r).node := by
        rw [setXact_self,hrx.org,hrx.node]
        exact hr
      obtain ⟨hdelete,hspared'⟩ := hset.delete (k := k) hmem
      refine ⟨hdelete,fun hno => .none ((hspared hno).trans (hspared' ?_)) ..⟩
      rw [(hspared hno).numbered]
      exact hno

theorem Known.create_deliver (hs : s.Known) (sqn : BitVec 32) (type : Byte) :
    ((s.remoteCreate rc node sqn timers).bind fun t r => t.deliver r type).Returns fun t a =>
      t.Known ∧ Leaves k s t a := by
  refine (hs.create (k := k) .remoteOriginator (sqnToXid sqn) node timers).bind ?_
  rintro u r ⟨hu,hmem,horg,hnode,-,hother⟩
  obtain ⟨hspared,hno⟩ := hother fun he => by cases he.1
  have hr : r∈u.list (u.xact r).org (u.xact r).node := by
    rw [horg,hnode]
    exact hmem
  refine (hu.deliver (k := k) hr type).mono ?_
  rintro t a ⟨ht,hleaves⟩
  obtain ⟨hspared',hresult⟩ := hleaves hno
  exact ⟨ht,hspared.trans hspared',hresult⟩

theorem Known.receive (hs : s.Known) (rc : Rcounts) (node : Nat) (h : Header) (timers : Nat) :
    (s.receive rc node h timers).Returns fun t a =>
      t.Known ∧ (¬ Responds k node h → Leaves k s t a) := by
  have hfound : ∀ org r,s.findByXid (s.list org node) (sqnToXid h.sqn)=some r →
      (s.deliver r h.type).Returns fun t a => t.Known ∧ (r∉s.numbered k → Leaves k s t a) := by
    intro org r hf
    obtain ⟨horg,hnode⟩ := hs.listed org node r (findByXid_mem hf).1
    refine hs.deliver ?_ h.type
    rw [horg,hnode]
    exact (findByXid_mem hf).1
  unfold Layer.receive
  cases hstage : getStage h.type with
  | unknown => exact ⟨hs,fun _ => .none (.refl s) ..⟩
  | intermediate => exact absurd hstage (getStage_ne_intermediate _)
  | initial =>
    simp only [listOf]
    cases hf : s.findByXid (s.list .remoteOriginator node) (sqnToXid h.sqn) with
    | none => exact (hs.create_deliver h.sqn h.type).mono fun t a ht => ⟨ht.1,fun _ => ht.2⟩
    | some r =>
      refine (hfound _ r hf).mono fun t a ht => ⟨ht.1,fun _ => ht.2 ?_⟩
      intro hmem
      have hlocal:=hs.listed _ _ r (mem_numbered.mp hmem).1
      have hremote:=hs.listed _ _ r (findByXid_mem hf).1
      rw [hlocal.1] at hremote
      cases hremote.1
  | final =>
    simp only [listOf]
    cases hf : s.findByXid (s.list .localOriginator node) (sqnToXid h.sqn) with
    | none => exact (hs.create_deliver h.sqn h.type).mono fun t a ht => ⟨ht.1,fun _ => ht.2⟩
    | some r =>
      refine (hfound _ r hf).mono fun t a ht => ⟨ht.1,fun hno => ht.2 ?_⟩
      intro hmem
      obtain ⟨hlist,hxid⟩ := mem_numbered.mp hmem
      obtain ⟨hlist',hxid'⟩ := findByXid_mem hf
      refine hno ⟨?_,?_,hstage⟩
      · rw [← (hs.listed _ _ r hlist').2,(hs.listed _ _ r hlist).2]
      · rw [← hxid',hxid]

end Layer

/-- The request was handed over, and nothing came since. -/
structure Xact.Waits (x : Xact) : Prop where
  step : x.step=1
  request : getStage x.firstSeq.type = .initial
  packet : x.firstSeq.pkbuf.isSome

instance (x : Xact) : Decidable x.Waits :=
  decidable_of_iff (x.step=1 ∧ getStage x.firstSeq.type = .initial ∧ x.firstSeq.pkbuf.isSome)
    ⟨fun h => ⟨h.1,h.2.1,h.2.2⟩,fun h => ⟨h.step,h.request,h.packet⟩⟩

structure Xact.Answered (x : Xact) : Prop where
  step : x.step=2
  response : getStage x.secondSeq.type = .final

instance (x : Xact) : Decidable x.Answered :=
  decidable_of_iff (x.step=2 ∧ getStage x.secondSeq.type = .final)
    ⟨fun h => ⟨h.1,h.2⟩,fun h => ⟨h.step,h.response⟩⟩

namespace Layer

variable {rc : Rcounts} {s t u : Layer} {k : Nat × BitVec 32} {r node timers : Nat} {x : Xact}
  {h : Header}

def Waiting (s : Layer) (k : Nat × BitVec 32) : Prop :=
  ∃ r,s.numbered k=[r] ∧ (s.xact r).Waits

instance (s : Layer) (k : Nat × BitVec 32) : Decidable (s.Waiting k) :=
  decidable_of_iff (∃ r∈s.numbered k,s.numbered k=[r] ∧ (s.xact r).Waits)
    ⟨fun ⟨r,_,h⟩ => ⟨r,h⟩,fun ⟨r,h,hx⟩ => ⟨r,by simp [h],h,hx⟩⟩

def Over (s : Layer) (k : Nat × BitVec 32) : Prop :=
  s.numbered k=[] ∨ ∃ r,s.numbered k=[r] ∧ (s.xact r).Answered

structure Stays (k : Nat × BitVec 32) (s t : Layer) : Prop where
  waiting : s.Waiting k → t.Waiting k
  done : s.Over k → t.Over k

theorem Stays.refl (s : Layer) : Stays k s s := ⟨id,id⟩

theorem Stays.trans (h : Stays k s t) (h' : Stays k t u) : Stays k s u :=
  ⟨h'.waiting ∘ h.waiting,h'.done ∘ h.done⟩

theorem Spared.stays (h : Spared k s t) : Stays k s t where
  waiting := by
    rintro ⟨r,hr,hx⟩
    exact ⟨r,h.numbered.trans hr,by rwa [h.xact r (by simp [hr])]⟩
  done := by
    rintro (hnil | ⟨r,hr,hx⟩)
    · exact .inl (h.numbered.trans hnil)
    · exact .inr ⟨r,h.numbered.trans hr,by rwa [h.xact r (by simp [hr])]⟩

theorem numbered_setXact (hx : (s.xact r).Same x) : (s.setXact r x).numbered k=s.numbered k :=
  filter_congr fun i _ => by rw [(setXact_same hx i).xid]

theorem stays_setXact (hx : (s.xact r).Same x) (hstep : x.step=(s.xact r).step)
    (hseq : x.seq=(s.xact r).seq) : Stays k s (s.setXact r x) := by
  have hkeep : ∀ i,((s.setXact r x).xact i).step=(s.xact i).step ∧
      ((s.setXact r x).xact i).seq=(s.xact i).seq := by
    intro i
    by_cases hi : i=r
    · rw [hi,setXact_self]
      exact ⟨hstep,hseq⟩
    · rw [setXact_of_ne hi]
      exact ⟨rfl,rfl⟩
  constructor
  · rintro ⟨i,hi,hw⟩
    refine ⟨i,(numbered_setXact hx).trans hi,(hkeep i).1.trans hw.step,?_,?_⟩
    · rw [Xact.firstSeq,(hkeep i).2]
      exact hw.request
    · rw [Xact.firstSeq,(hkeep i).2]
      exact hw.packet
  · rintro (hnil | ⟨i,hi,ha⟩)
    · exact .inl ((numbered_setXact hx).trans hnil)
    · refine .inr ⟨i,(numbered_setXact hx).trans hi,(hkeep i).1.trans ha.step,?_⟩
      rw [Xact.secondSeq,(hkeep i).2]
      exact ha.response

theorem numbered_delete (hs : s.Known) (hr : s.numbered k=[r]) :
    (s.delete r).numbered k=[] := by
  have hmem : r∈s.list .localOriginator k.1 := (mem_numbered.mp (by rw [hr]; simp)).1
  refine List.eq_nil_iff_forall_not_mem.mpr fun i hi => ?_
  obtain ⟨hlist,hxid⟩ := mem_numbered.mp hi
  obtain ⟨hne,hold⟩ := (hs.toLists.mem_delete hmem).mp hlist
  have hin : i∈s.numbered k := mem_numbered.mpr ⟨hold,hxid⟩
  rw [hr,mem_singleton] at hin
  exact hne hin

theorem stays_delete (hs : s.Known) (hr : r∈s.list (s.xact r).org (s.xact r).node)
    (hw : r∈s.numbered k → ¬ (s.xact r).Waits) : Stays k s (s.delete r) := by
  by_cases hmem : r∈s.numbered k
  · constructor
    · rintro ⟨i,hi,hx⟩
      rw [hi,mem_singleton] at hmem
      subst hmem
      exact absurd hx (hw (by simp [hi]))
    · rintro (hnil | ⟨i,hi,-⟩)
      · rw [hnil] at hmem
        cases hmem
      · rw [hi,mem_singleton] at hmem
        subst hmem
        exact .inl (numbered_delete hs hi)
  · exact ((hs.delete hr).2 hmem).stays

theorem commit_waits (horg : x.org = .localOriginator) (hx : x.Waits) :
    x.lastSeq=some x.firstSeq ∧ x.commit x.firstSeq.type = .send true := by
  constructor
  · simp [Xact.lastSeq,hx.step]
  · simp [Xact.commit,horg,hx.request,hx.step]

theorem Known.commit (hs : s.Known) (hr : r∈s.list (s.xact r).org (s.xact r).node)
    {o : Outcome Layer Result} (ho : s.commit r=some o) :
    o.Returns fun t _ => t.Known ∧ Stays k s t := by
  unfold Layer.commit at ho
  cases hlast : (s.xact r).lastSeq with
  | none => simp [hlast] at ho
  | some last =>
    simp only [hlast] at ho
    cases hc : (s.xact r).commit last.type with
    | delete rv =>
      simp only [hc,some.injEq] at ho
      subst ho
      refine ⟨(hs.delete (k := k) hr).1,stays_delete hs hr ?_⟩
      intro hmem hx
      have horg:=(hs.listed _ _ r (mem_numbered.mp hmem).1).1
      obtain ⟨hfirst,hsend⟩ := commit_waits horg hx
      cases hlast.symm.trans hfirst
      rw [hsend] at hc
      cases hc
    | send b =>
      simp only [hc] at ho
      cases hp : last.pkbuf with
      | none =>
        simp only [hp,some.injEq] at ho
        subst ho
        exact Outcome.returns_abort
      | some p =>
        simp only [hp,some.injEq] at ho
        subst ho
        refine ⟨(hs.setXact (k := k) ?_).1,stays_setXact ?_ rfl rfl⟩ <;>
          exact ⟨rfl,rfl,rfl,rfl⟩

theorem Known.countDown (hs : s.Known) (hr : r∈s.list (s.xact r).org (s.xact r).node)
    (hx : (s.xact r).Same x) : ((s.setXact r x).delete r).Known ∧
      (r∉s.numbered k → Stays k s ((s.setXact r x).delete r)) := by
  obtain ⟨hset,hspared⟩ := hs.setXact (k := k) hx
  have hmem : r∈(s.setXact r x).list ((s.setXact r x).xact r).org
      ((s.setXact r x).xact r).node := by
    rw [setXact_self,hx.org,hx.node]
    exact hr
  obtain ⟨hdelete,hspared'⟩ := hset.delete (k := k) hmem
  refine ⟨hdelete,fun hno => ((hspared hno).trans (hspared' ?_)).stays⟩
  rw [(hspared hno).numbered]
  exact hno

theorem eq_zero_of_not_pos {n : BitVec 8} (h : ¬ 0<n) : n=0 := by
  by_contra hne
  exact h ((BitVec.pos_iff_ne_zero _).mpr hne)

theorem Known.responseExpired (hs : s.Known) (hr : r∈s.list (s.xact r).org (s.xact r).node)
    {o : Outcome Layer Result} (ho : s.responseExpired r=some o) :
    o.Returns fun t _ => t.Known ∧
      (¬ (r∈s.numbered k ∧ (s.xact r).responseRcount-1=0) → Stays k s t) := by
  unfold Layer.responseExpired at ho
  dsimp only at ho
  split at ho
  · split at ho
    · cases ho
    · split at ho
      · cases ho
        refine ⟨(hs.setXact (k := k) ?_).1,fun _ => stays_setXact ?_ rfl rfl⟩ <;>
          exact ⟨rfl,rfl,rfl,rfl⟩
      · cases ho
        exact Outcome.returns_abort
  · rename_i hpos
    cases ho
    refine ⟨(hs.countDown (k := k) hr ?_).1,fun hno => (hs.countDown hr ?_).2 fun hmem => ?_⟩
    · exact ⟨rfl,rfl,rfl,rfl⟩
    · exact ⟨rfl,rfl,rfl,rfl⟩
    · exact hno ⟨hmem,eq_zero_of_not_pos hpos⟩

theorem Known.holdingExpired (hs : s.Known) (hr : r∈s.list (s.xact r).org (s.xact r).node)
    {o : Outcome Layer Result} (ho : s.holdingExpired r=some o) :
    o.Returns fun t _ => t.Known ∧
      (¬ (r∈s.numbered k ∧ (s.xact r).holdingRcount-1=0) → Stays k s t) := by
  unfold Layer.holdingExpired at ho
  dsimp only at ho
  split at ho
  · cases ho
    refine ⟨(hs.setXact (k := k) ?_).1,fun _ => stays_setXact ?_ rfl rfl⟩ <;>
      exact ⟨rfl,rfl,rfl,rfl⟩
  · rename_i hpos
    cases ho
    refine ⟨(hs.countDown (k := k) hr ?_).1,fun hno => (hs.countDown hr ?_).2 fun hmem => ?_⟩
    · exact ⟨rfl,rfl,rfl,rfl⟩
    · exact ⟨rfl,rfl,rfl,rfl⟩
    · exact hno ⟨hmem,eq_zero_of_not_pos hpos⟩

theorem Known.timeout {expired : Layer → Nat → Option (Outcome Layer Result)} {c : Nat → Prop}
    {id : Nat} (hs : s.Known)
    (hexpired : ∀ r o,r∈s.list (s.xact r).org (s.xact r).node → expired s r=some o →
      o.Returns fun t _ => t.Known ∧ (c r → Stays k s t))
    {o : Outcome Layer Result} (ho : s.timeout id expired=some o) :
    o.Returns fun t _ => t.Known ∧ ((∀ r∈s.pool.findById id,c r) → Stays k s t) := by
  unfold Layer.timeout at ho
  cases hf : s.pool.findById id with
  | none =>
    rw [hf] at ho
    cases ho
    exact ⟨hs,fun _ => .refl s⟩
  | some r =>
    rw [hf] at ho
    refine (hexpired r o (hs.found id r hf).1 ho).mono ?_
    exact fun t _ ht => ⟨ht.1,fun hc => ht.2 (hc r rfl)⟩

end Layer

section Events

variable (s : Layer) (k : Nat × BitVec 32)

open Layer

/-- The number is not given out again, nothing more is handed over for its transaction, and none
of its timers gives up. -/
def Undisturbed : Layer.Op → Prop
  | .localCreate node _ => (node,BitVec.ofNat 32 (nextId s.xactId 1 0x800000))≠k
  | .updateTx r _ _ => r∉s.numbered k
  | .responseTimeout r => ∀ i ∈ s.pool.findById (s.xact r).id,
      ¬ (i∈s.numbered k ∧ (s.xact i).responseRcount-1=0)
  | .holdingTimeout r => ∀ i ∈ s.pool.findById (s.xact r).id,
      ¬ (i∈s.numbered k ∧ (s.xact i).holdingRcount-1=0)
  | .receive _ _ _ | .commit _ | .delayedCommit _ | .delayedCommitTimeout _ => True

instance decidableUndisturbed : ∀ e,Decidable (Undisturbed s k e)
  | .localCreate _ _ => inferInstanceAs (Decidable (_≠_))
  | .updateTx _ _ _ => inferInstanceAs (Decidable (¬ _))
  | .responseTimeout _ => inferInstanceAs (Decidable (∀ i∈_,_))
  | .holdingTimeout _ => inferInstanceAs (Decidable (∀ i∈_,_))
  | .receive _ _ _ | .commit _ | .delayedCommit _ | .delayedCommitTimeout _ => isTrue trivial

def responses (_ : Layer) : Layer.Op → Outcome Layer Result → List Byte
  | .receive node h _, _ => if Responds k node h then [h.type] else []
  | _, _ => []

/-- The types of the messages that are handed to the application with a transaction numbered
`k`. -/
def handed (_ : Layer) : Layer.Op → Outcome Layer Result → List Byte
  | .receive _ h _, .ok t a => if a.xact.any fun r => r∈t.numbered k then [h.type] else []
  | _, _ => []

/-- A message that is no response for number `k` leaves its transactions as they are. -/
def LeavesOthers : Layer.Op → Outcome Layer Result → Prop
  | .receive node h _, o => ¬ Responds k node h → o.Returns fun t _ => Spared k s t
  | _, _ => True

end Events

namespace Layer

variable {rc : Rcounts} {s t u : Layer} {k : Nat × BitVec 32} {r node timers : Nat} {x : Xact}
  {h : Header} {e : Layer.Op} {o : Outcome Layer Result}

theorem handed_leaves {a : Result} (hleaves : Leaves k s t a) :
    handed k s (.receive node h timers) (.ok t a)=[] := by
  have hnone : ¬ (a.xact.any fun r => r∈t.numbered k)=true := by
    rw [Option.any_eq_true]
    rintro ⟨r,hr,hmem⟩
    exact hleaves.2 r hr (by simpa using hmem)
  simp only [handed,if_neg hnone]

theorem Known.step (hs : s.Known) (ho : Layer.step rc s e=some o) :
    o.Returns fun t _ => t.Known ∧ (Undisturbed s k e → responses k s e o=[] → Stays k s t) := by
  cases e with
  | localCreate node timers =>
    cases ho
    unfold Layer.localCreate
    have hs' : Known { s with xactId := nextId s.xactId 1 0x800000 } :=
      ⟨⟨hs.split,hs.listed,hs.nodup⟩,hs.found⟩
    refine (hs'.create (k := k) .localOriginator (BitVec.ofNat 32 (nextId s.xactId 1 0x800000))
      node timers).bind ?_
    rintro t r ⟨ht,-,-,-,-,hother⟩
    refine ⟨ht,fun hno _ => ?_⟩
    obtain ⟨hspared,-⟩ := hother fun he => hno (Prod.ext he.2.1 he.2.2)
    have hspared' : Spared k s t := ⟨hspared.numbered,hspared.xact⟩
    exact hspared'.stays
  | receive node h timers =>
    cases ho
    refine (hs.receive (k := k) rc node h timers).mono ?_
    intro t a ht
    refine ⟨ht.1,fun _ hno => (ht.2 fun hresponds => ?_).1.stays⟩
    simp only [responses,if_pos hresponds] at hno
    cases hno
  | updateTx r h body =>
    simp only [Layer.step] at ho
    split at ho
    · have hkeep:=(s.xact r).updateTx_keeps h body
      cases hu : (s.xact r).updateTx h body with
      | abort x =>
        rw [hu] at ho
        cases ho
        exact Outcome.returns_abort
      | ok x rv =>
        rw [hu] at ho hkeep
        cases ho
        obtain ⟨hset,hspared⟩ := hs.setXact (k := k) hkeep.toSame
        exact ⟨hset,fun hno _ => (hspared hno).stays⟩
    · cases ho
  | commit r =>
    simp only [Layer.step] at ho
    split at ho
    · rename_i hlive
      exact (hs.commit (hs.mem_of_live hlive) ho).mono fun t _ ht => ⟨ht.1,fun _ _ => ht.2⟩
    · cases ho
  | delayedCommit r =>
    simp only [Layer.step] at ho
    split at ho
    · cases ho
      refine ⟨(hs.setXact (k := k) ?_).1,fun _ _ => stays_setXact ?_ rfl rfl⟩ <;>
        exact ⟨rfl,rfl,rfl,rfl⟩
    · cases ho
  | responseTimeout r =>
    simp only [Layer.step] at ho
    split at ho
    · have hsame : (s.xact r).Same { s.xact r with tmResponse := false } := ⟨rfl,rfl,rfl,rfl⟩
      have hrcount : ∀ i,((s.setXact r { s.xact r with
          tmResponse := false }).xact i).responseRcount=(s.xact i).responseRcount := by
        intro i
        by_cases hi : i=r
        · rw [hi,setXact_self]
        · rw [setXact_of_ne hi]
      have hset:=(hs.setXact (k := k) hsame).1
      refine (hset.timeout (k := k) (fun i o hi => hset.responseExpired hi) ho).mono ?_
      rintro t _ ⟨ht,hstays⟩
      refine ⟨ht,fun hno _ => (stays_setXact hsame rfl rfl).trans (hstays fun i hi => ?_)⟩
      rw [numbered_setXact hsame,hrcount]
      exact hno i hi
    · cases ho
  | holdingTimeout r =>
    simp only [Layer.step] at ho
    split at ho
    · have hsame : (s.xact r).Same { s.xact r with tmHolding := false } := ⟨rfl,rfl,rfl,rfl⟩
      have hrcount : ∀ i,((s.setXact r { s.xact r with
          tmHolding := false }).xact i).holdingRcount=(s.xact i).holdingRcount := by
        intro i
        by_cases hi : i=r
        · rw [hi,setXact_self]
        · rw [setXact_of_ne hi]
      have hset:=(hs.setXact (k := k) hsame).1
      refine (hset.timeout (k := k) (fun i o hi => hset.holdingExpired hi) ho).mono ?_
      rintro t _ ⟨ht,hstays⟩
      refine ⟨ht,fun hno _ => (stays_setXact hsame rfl rfl).trans (hstays fun i hi => ?_)⟩
      rw [numbered_setXact hsame,hrcount]
      exact hno i hi
    · cases ho
  | delayedCommitTimeout r =>
    simp only [Layer.step] at ho
    split at ho
    · have hsame : (s.xact r).Same { s.xact r with tmDelayedCommit := false } :=
        ⟨rfl,rfl,rfl,rfl⟩
      have hset:=(hs.setXact (k := k) hsame).1
      refine (hset.timeout (k := k) (c := fun _ => True) (fun r o hr ho =>
        (hset.commit hr ho).mono fun t _ ht => ⟨ht.1,fun _ => ht.2⟩) ho).mono ?_
      rintro t _ ⟨ht,hstays⟩
      exact ⟨ht,fun _ _ => (stays_setXact hsame rfl rfl).trans (hstays fun _ _ => trivial)⟩
    · cases ho

theorem known_run {size : Nat} {xact : Nat → Xact} {es : List Layer.Op} :
    ∀ s∈completed (Layer.step rc) (Layer.init size xact) es,s.Known := by
  have hstep : ∀ (s : Layer) e t a,s.Known → True → Layer.step rc s e=some (.ok t a) →
      t.Known := fun s e t a hs _ ho => (hs.step (k := (0,0)) ho).1
  exact completed_inv hstep (.init size xact) (eachStep_of_forall fun _ _ => trivial)

theorem receive_waiting (hs : s.Known) (hw : s.Waiting k) (hresponds : Responds k node h)
    (rc : Rcounts) (timers : Nat) :
    ∃ t r,s.receive rc node h timers = .ok t ⟨.ok,some r,none⟩ ∧ r∈t.numbered k ∧
      t.Over k := by
  obtain ⟨hnode,hxid,hstage⟩ := hresponds
  obtain ⟨r,hr,hwaits⟩ := hw
  have horg:=(hs.listed _ _ r (mem_numbered.mp (by rw [hr]; simp)).1).1
  have hf : s.findByXid (s.list .localOriginator node) (sqnToXid h.sqn)=some r := by
    rw [hnode,hxid,findByXid_numbered,hr]
    rfl
  have hrx : (s.xact r).updateRx h.type=(s.xact r).received h.type := by
    unfold Xact.updateRx
    rw [horg,hstage]
    simp only [hwaits.step,ne_eq,not_true_eq_false,if_false]
  have hsame : (s.xact r).Same ((s.xact r).received h.type).state := ⟨rfl,rfl,rfl,rfl⟩
  have hnumbered : (s.setXact r ((s.xact r).received h.type).state).numbered k=[r] :=
    (numbered_setXact hsame).trans hr
  refine ⟨s.setXact r ((s.xact r).received h.type).state,r,?_,by rw [hnumbered]; simp,
    .inr ⟨r,hnumbered,?_⟩⟩
  · simp only [Layer.receive,hstage,listOf,hf,Layer.deliver,hrx,Xact.received,Outcome.state]
  · rw [setXact_self]
    constructor
    · simp [Xact.received,Xact.save,Outcome.state,hwaits.step]
    · simpa [Xact.received,Xact.save,Outcome.state,hwaits.step,Xact.secondSeq] using hstage

theorem receive_over (hs : s.Known) (hover : s.Over k) (hresponds : Responds k node h)
    (rc : Rcounts) (timers : Nat) :
    (s.receive rc node h timers).Returns fun t a =>
      t.Over k ∧ handed k s (.receive node h timers) (.ok t a)=[] := by
  obtain ⟨hnode,hxid,hstage⟩ := hresponds
  unfold Layer.receive
  simp only [hstage,listOf,hnode,hxid,findByXid_numbered]
  rcases hover with hnil | ⟨r,hr,hanswered⟩
  · simp only [hnil,List.head?_nil]
    refine (hs.create_deliver (k := k) h.sqn h.type).mono ?_
    rintro t a ⟨-,hleaves⟩
    exact ⟨hleaves.1.stays.done (.inl hnil),handed_leaves hleaves⟩
  · have hmem : r∈s.list .localOriginator k.1 := (mem_numbered.mp (by rw [hr]; simp)).1
    obtain ⟨horg,hnode'⟩ := hs.listed _ _ r hmem
    have hrx : (s.xact r).updateRx h.type = .ok (s.xact r) (.error,none) := by
      unfold Xact.updateRx
      rw [horg,hstage]
      simp [hanswered.step]
    have hself : s.setXact r (s.xact r)=s := by
      unfold Layer.setXact
      rw [update_eq_self]
    simp only [hr,List.head?_cons,Layer.deliver,hrx,hself]
    exact ⟨.inl (numbered_delete hs hr),rfl⟩

theorem handed_nil (hs : s.Known) (ho : Layer.step rc s e=some o) (hno : responses k s e o=[]) :
    handed k s e o=[] := by
  cases e with
  | receive node h timers =>
    cases ho
    have hreceive:=hs.receive (k := k) rc node h timers
    cases hr : s.receive rc node h timers with
    | abort t => rfl
    | ok t a =>
      rw [hr] at hreceive
      refine handed_leaves (hreceive.2 fun hresponds => ?_)
      simp only [responses,if_pos hresponds] at hno
      cases hno
  | _ => rfl

theorem handed_waiting (hs : s.Known) (hw : s.Waiting k) (hu : Undisturbed s k e)
    (ho : Layer.step rc s e=some o) :
    (handed k s e o=[] ∧ responses k s e o=[] ∧ o.Returns fun t _ => t.Waiting k) ∨
      ∃ type t a,o = .ok t a ∧ handed k s e o=[type] ∧ responses k s e o=[type] ∧
        t.Over k := by
  by_cases hno : responses k s e o=[]
  · have hstays:=(hs.step ho).mono fun t _ ht => (ht.2 hu hno).waiting hw
    exact .inl ⟨handed_nil hs ho hno,hno,hstays⟩
  · cases e with
    | receive node h timers =>
      cases ho
      have hresponds : Responds k node h := by
        by_contra hnot
        exact hno (if_neg hnot)
      obtain ⟨t,r,hreceive,hr,hover⟩ := receive_waiting hs hw hresponds rc timers
      refine .inr ⟨h.type,t,_,hreceive,?_,if_pos hresponds,hover⟩
      rw [hreceive]
      simp [handed,hr]
    | _ => exact absurd rfl hno

theorem handed_over (hs : s.Known) (hover : s.Over k) (hu : Undisturbed s k e)
    (ho : Layer.step rc s e=some o) :
    handed k s e o=[] ∧ o.Returns fun t _ => t.Over k := by
  by_cases hno : responses k s e o=[]
  · have hstays:=(hs.step ho).mono fun t _ ht => (ht.2 hu hno).done hover
    exact ⟨handed_nil hs ho hno,hstays⟩
  · cases e with
    | receive node h timers =>
      cases ho
      have hresponds : Responds k node h := by
        by_contra hnot
        exact hno (if_neg hnot)
      have hreceive:=receive_over hs hover hresponds rc timers
      cases hr : s.receive rc node h timers with
      | abort t => exact ⟨rfl,trivial⟩
      | ok t a =>
        rw [hr] at hreceive
        exact ⟨hreceive.2,hreceive.1⟩
    | _ => exact absurd rfl hno

theorem known_leaves {a : Result} (hs : s.Known) (ho : Layer.step rc s e=some (.ok t a)) :
    t.Known :=
  (hs.step (k := (0,0)) ho).1

theorem handed_run_over {es : List Layer.Op} (hs : s.Known) (hover : s.Over k)
    (hes : EachStep (Layer.step rc) (fun s e => Undisturbed s k e) s es) :
    emitted (Layer.step rc) (handed k) s es=[] := by
  induction es generalizing s with
  | nil => rfl
  | cons e es ih =>
    simp only [EachStep] at hes
    simp only [emitted]
    cases ho : Layer.step rc s e with
    | none => rfl
    | some o =>
      obtain ⟨hnil,hkept⟩ := handed_over hs hover hes.1 ho
      cases o with
      | abort t => exact hnil
      | ok t a =>
        simp only [ho] at hes
        dsimp only
        rw [hnil,nil_append]
        exact ih (known_leaves hs ho) hkept hes.2

theorem handed_run {es : List Layer.Op} (hs : s.Known) (hw : s.Waiting k)
    (hes : EachStep (Layer.step rc) (fun s e => Undisturbed s k e) s es) :
    emitted (Layer.step rc) (handed k) s es =
      (emitted (Layer.step rc) (responses k) s es).take 1 := by
  induction es generalizing s with
  | nil => rfl
  | cons e es ih =>
    simp only [EachStep] at hes
    simp only [emitted]
    cases ho : Layer.step rc s e with
    | none => rfl
    | some o =>
      rcases handed_waiting hs hw hes.1 ho with
        ⟨hnil,hno,hkept⟩ | ⟨type,t,a,rfl,hone,hresp,hover⟩
      · cases o with
        | abort t =>
          show handed k s e (.abort t)=(responses k s e (.abort t)).take 1
          rw [hnil,hno]
          rfl
        | ok t a =>
          simp only [ho] at hes
          dsimp only
          rw [hnil,hno,nil_append,nil_append]
          exact ih (known_leaves hs ho) hkept hes.2
      · simp only [ho] at hes
        dsimp only
        rw [hone,hresp,handed_run_over (known_leaves hs ho) hover hes.2]
        rfl

/-- Of the responses to a request that waits exactly the first is handed to the application, and
every other message leaves the transaction as it is. -/
theorem responses_matched_run (rc : Rcounts) (size : Nat) (xact : Nat → Xact)
    (ops es : List Layer.Op) :
    ∀ s∈completed (Layer.step rc) (Layer.init size xact) ops,∀ k,s.Waiting k →
      EachStep (Layer.step rc) (fun s e => Undisturbed s k e) s es →
        emitted (Layer.step rc) (handed k) s es =
            (emitted (Layer.step rc) (responses k) s es).take 1 ∧
          EachOutcome (Layer.step rc) (fun s e o => LeavesOthers s k e o) s es := by
  intro s hs k hw hes
  have hknown:=known_run s hs
  refine ⟨handed_run hknown hw hes,?_⟩
  have hstep : ∀ (s : Layer) e o,s.Known → True → Layer.step rc s e=some o →
      LeavesOthers s k e o ∧ o.Leaves Layer.Known fun _ => True := by
    intro s e o hs _ ho
    constructor
    · cases e with
      | receive node h timers =>
        cases ho
        exact fun hno => (hs.receive (k := k) rc node h timers).mono fun t a ht => (ht.2 hno).1
      | _ => trivial
    · cases o with
      | ok t a => exact known_leaves hs ho
      | abort t => trivial
  exact eachOutcome_inv hstep hknown (eachStep_of_forall fun _ _ => trivial)

def empty : Layer := Layer.init 4 fun _ => Xact.create ⟨3,3⟩ 0 0 .localOriginator 0 0

def request : List Layer.Op := [.localCreate 0 9,.updateTx 0 ⟨50,0,0⟩ [1],.commit 0]

def message (type : Byte) : Layer.Op := .receive 0 ⟨type,0,0x100⟩ 9

theorem responses_matched_run_three :
    ∃ s∈completed (Layer.step ⟨3,3⟩) empty request,s.Waiting (0,1) ∧
      emitted (Layer.step ⟨3,3⟩) (handed (0,1)) s [message 52,message 51,message 51] =
        [51] := by
  have hrun : ∃ s∈completed (Layer.step ⟨3,3⟩) empty request,s.Waiting (0,1) ∧
      EachStep (Layer.step ⟨3,3⟩) (fun s e => Undisturbed s (0,1) e) s
        [message 52,message 51,message 51] ∧
      emitted (Layer.step ⟨3,3⟩) (responses (0,1)) s [message 52,message 51,message 51] =
        [51,51] := by
    decide
  obtain ⟨s,hs,hw,hu,hresponses⟩ := hrun
  refine ⟨s,hs,hw,?_⟩
  rw [(responses_matched_run ⟨3,3⟩ 4 _ request _ s hs (0,1) hw hu).1,hresponses]
  rfl

/-- A Heartbeat Response is handed over for the request, and a copy of the response to it deletes
the transaction before it is committed. -/
theorem unpaired_response :
    (∃ s∈completed (Layer.step ⟨3,3⟩) empty request,s.Waiting (0,1) ∧
      (∀ r∈s.numbered (0,1),(s.xact r).firstSeq.type=50) ∧
        emitted (Layer.step ⟨3,3⟩) (handed (0,1)) s [message 2]=[2]) ∧
      ∃ s ∈ completed (Layer.step ⟨3,3⟩) empty (request++[message 51]),
        s.numbered (0,1)=[0] ∧ (s.xact 0).Answered ∧
          ∃ t∈completed (Layer.step ⟨3,3⟩) s [message 51],t.numbered (0,1)=[] := by
  decide

end Layer

end OgsDp.Pfcp
