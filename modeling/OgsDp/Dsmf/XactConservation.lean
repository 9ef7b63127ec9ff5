import OgsDp.Dsmf.Dn4
import OgsDp.Pfcp.XactRequest

/-!
# Every DN4 transaction is accounted for (src/dsmf/dsmf-sm.c, lib/pfcp/xact.c)

A transaction of the DSMF waits for its response with the response timer running, or it was
answered and its event is in the queue.
-/

namespace OgsDp.Dsmf
open Lib OgsDp.Core Function List Option
open Pfcp (Layer Xact Header Rcounts Rv Result getStage Seq)
open Pfcp.Layer (Heap)

namespace Dn4

def Answered (x : Xact) : Prop := x.step=2 ∧ getStage x.secondSeq.type = .final

def LocalOk (q : List Event) (x : Xact) : Prop :=
  Waiting x ∨ Answered x ∧ ∃ e∈q,e.pfcpXactId=x.id

def IdsBelow (s : Layer) : Prop :=
  ∀ id i,s.pool.findById id=some i → (0 < id ∧ id ≤ s.pool.id) ∧
    i∈s.list (s.xact i).org (s.xact i).node ∧ (s.xact i).id=id

structure Kept (q : List Event) (s : Layer) : Prop where
  heap : s.Heap
  ids : IdsBelow s
  locals : ∀ node,∀ r∈s.list .localOriginator node,LocalOk q (s.xact r)

/-- The same but for transaction `r`, which is being handled. -/
structure Pending (q : List Event) (s : Layer) (r : Nat) : Prop where
  heap : s.Heap
  ids : IdsBelow s
  listed : r∈s.list (s.xact r).org (s.xact r).node
  others : ∀ node,∀ i∈s.list .localOriginator node,i≠r → LocalOk q (s.xact i)

variable {q : List Event} {s : Layer} {r : Nat} {x : Xact} {rc : Rcounts}

theorem Kept.pending {org : Pfcp.Org} {node : Nat} (h : Kept q s) (hr : r∈s.list org node) :
    Pending q s r where
  heap := h.heap
  ids := h.ids
  listed := by
    obtain ⟨ho,hn⟩ := h.heap.listed org node r hr
    rw [ho,hn]
    exact hr
  others := fun node i hi _ => h.locals node i hi

theorem IdsBelow.delete (h : IdsBelow s) (hheap : s.Heap)
    (hr : r∈s.list (s.xact r).org (s.xact r).node) : IdsBelow (s.delete r) := by
  intro id i hid
  have hfind : (s.delete r).pool.findById id =
      update s.pool.idHash (s.xact r).id none id := by
    show (s.pool.idFree r (s.xact r).id).idHash id=_
    rw [Pool.idFree_idHash]
  have hcount : (s.delete r).pool.id=s.pool.id := Pool.idFree_id ..
  rw [hfind] at hid
  rw [hcount]
  by_cases he : id=(s.xact r).id
  · rw [he,update_self] at hid
    cases hid
  · rw [update_of_ne he] at hid
    obtain ⟨hle,hlist,hself⟩ := h id i hid
    have hne : i≠r := by
      rintro rfl
      exact he hself.symm
    exact ⟨hle,(hheap.mem_delete hr).mpr ⟨hne,hlist⟩,hself⟩

theorem IdsBelow.setXact (h : IdsBelow s) (hx : (s.xact r).Same x) : IdsBelow (s.setXact r x) := by
  intro id i hid
  obtain ⟨hle,hlist,hself⟩ := h id i hid
  have hsame:=Layer.setXact_same hx i
  rw [hsame.org,hsame.node,hsame.id]
  exact ⟨hle,hlist,hself⟩

namespace Pending

theorem done (h : Pending q s r)
    (hr : (s.xact r).org = .localOriginator → LocalOk q (s.xact r)) : Kept q s where
  heap := h.heap
  ids := h.ids
  locals := by
    intro node i hi
    by_cases he : i=r
    · rw [he]
      apply hr
      exact (h.heap.listed _ node r (he ▸ hi)).1
    · exact h.others node i hi he

theorem delete (h : Pending q s r) : Kept q (s.delete r) where
  heap := h.heap.delete h.listed
  ids := h.ids.delete h.heap h.listed
  locals := by
    intro node i hi
    obtain ⟨hne,hi⟩ := (h.heap.mem_delete h.listed).mp hi
    exact h.others node i hi hne

theorem setXact (h : Pending q s r) (hx : (s.xact r).Same x) : Pending q (s.setXact r x) r where
  heap := h.heap.setXact hx
  ids := h.ids.setXact hx
  listed := by
    rw [Layer.setXact_self,hx.org,hx.node]
    exact h.listed
  others := by
    intro node i hi hne
    rw [Layer.setXact_of_ne hne]
    exact h.others node i hi hne

end Pending

theorem LocalOk.mono {q' : List Event} (h : LocalOk q x) (hq : ∀ e∈q,e∈q') : LocalOk q' x := by
  rcases h with h | ⟨ha,e,he,hid⟩
  · exact Or.inl h
  · exact Or.inr ⟨ha,e,hq e he,hid⟩

theorem LocalOk.started (h : LocalOk q x) (b : Bool) :
    LocalOk q { x with tmResponse := x.tmResponse || b } := by
  rcases h with ⟨hstep,htm⟩ | h
  · apply Or.inl
    exact ⟨hstep,by simp [htm]⟩
  · exact Or.inr h

theorem commit_cases {o : Outcome Layer Result} (ho : s.commit r=some o) :
    (∃ rv,o = .ok (s.delete r) ⟨rv,none,none⟩) ∨
      ∃ start,(∃ res,o = .ok (s.setXact r
        { s.xact r with tmResponse := (s.xact r).tmResponse || start }) res) ∨ ∃ u,o = .abort u := by
  unfold Layer.commit at ho
  simp only at ho
  split at ho
  · cases ho
  · rename_i last hlast
    split at ho
    · cases ho
      exact Or.inl ⟨_,rfl⟩
    · rename_i start hcommit
      apply Or.inr
      apply Exists.intro start
      split at ho
      · cases ho
        exact Or.inl ⟨_,rfl⟩
      · cases ho
        exact Or.inr ⟨_,rfl⟩

theorem Kept.setXact {org : Pfcp.Org} {node : Nat} (h : Kept q s) (hr : r∈s.list org node)
    (hx : (s.xact r).Same x) (hok : LocalOk q (s.xact r) → LocalOk q x) :
    Kept q (s.setXact r x) := by
  apply ((h.pending hr).setXact hx).done
  intro horg
  rw [Layer.setXact_self] at horg ⊢
  have hlocal : r∈s.list .localOriginator node := by
    have hown:=(h.heap.listed org node r hr).1
    rw [← horg,hx.org,hown]
    exact hr
  exact hok (h.locals node r hlocal)

theorem Kept.commit {org : Pfcp.Org} {node : Nat} {o : Outcome Layer Result} (h : Kept q s)
    (hr : r∈s.list org node) (ho : s.commit r=some o) :
    o.Returns fun u _ => Kept q u ∧ u.pool.id=s.pool.id := by
  rcases commit_cases ho with ⟨rv,rfl⟩ | ⟨start,⟨res,rfl⟩ | ⟨u,rfl⟩⟩
  · exact ⟨(h.pending hr).delete,Pool.idFree_id ..⟩
  · constructor
    · apply h.setXact hr
      · exact ⟨rfl,rfl,rfl,rfl⟩
      · exact fun hok => hok.started start
    · rfl
  · exact Outcome.returns_abort

theorem commit_answered (ho : (s.xact r).org = .localOriginator) (ha : Answered (s.xact r)) :
    s.commit r=some (.ok (s.delete r) ⟨.ok,none,none⟩) := by
  obtain ⟨hstep,hfinal⟩ := ha
  have hlast : (s.xact r).lastSeq=some (s.xact r).secondSeq := by
    unfold Xact.lastSeq
    rw [if_neg (by omega),hstep]
    rfl
  have hcommit : (s.xact r).commit (s.xact r).secondSeq.type = .delete .ok := by
    unfold Xact.commit
    rw [ho,hfinal]
    simp only
    rw [if_neg (by omega),if_pos hstep]
  unfold Layer.commit
  simp only [hlast,hcommit]

theorem commit_request {pkbuf : List Byte} (ho : (s.xact r).org = .localOriginator)
    (hstep : (s.xact r).step=1) (htype : getStage (s.xact r).firstSeq.type = .initial)
    (hpkbuf : (s.xact r).firstSeq.pkbuf=some pkbuf) :
    s.commit r=some (.ok (s.setXact r { s.xact r with tmResponse := true })
      ⟨.ok,none,some ((s.xact r).node,pkbuf)⟩) := by
  have hlast : (s.xact r).lastSeq=some (s.xact r).firstSeq := by
    unfold Xact.lastSeq
    rw [if_neg (by omega),hstep]
    rfl
  have hcommit : (s.xact r).commit (s.xact r).firstSeq.type = .send true := by
    unfold Xact.commit
    rw [ho,htype]
    simp only
    rw [if_neg (by omega)]
  unfold Layer.commit
  simp only [hlast,hcommit,hpkbuf,Bool.or_true]

theorem LocalOk.restarted (h : LocalOk q x) (rcount : BitVec 8) :
    LocalOk q { x with responseRcount := rcount,tmResponse := true } := by
  rcases h with h | h
  · exact Or.inl ⟨h.1,rfl⟩
  · exact Or.inr h

theorem setXact_setXact (x y : Xact) : (s.setXact r x).setXact r y=s.setXact r y := by
  simp [Layer.setXact]

theorem Kept.responseTimeout {o : Outcome Layer Result} (h : Kept q s)
    (ho : s.step rc (.responseTimeout r)=some o) : o.Returns fun u _ => Kept q u := by
  simp only [Layer.step] at ho
  split at ho
  · rename_i hlive
    have hr:=h.heap.mem_of_live hlive.1
    unfold Layer.timeout at ho
    rw [Layer.setXact_pool,h.heap.byId _ _ r hr] at ho
    simp only [Layer.responseExpired,Layer.setXact_self,setXact_setXact] at ho
    have hpending:=h.pending hr
    split at ho
    · split at ho
      · cases ho
      · split at ho
        · cases ho
          rw [Outcome.returns_ok]
          apply h.setXact hr
          · exact ⟨rfl,rfl,rfl,rfl⟩
          · exact fun hok => hok.restarted _
        · cases ho
          exact Outcome.returns_abort
    · cases ho
      rw [Outcome.returns_ok]
      have hx : (s.xact r).Same { s.xact r with
          tmResponse := false
          responseRcount := (s.xact r).responseRcount-1 } := ⟨rfl,rfl,rfl,rfl⟩
      exact (hpending.setXact hx).delete
  · cases ho

theorem Kept.holdingTimeout {o : Outcome Layer Result} (h : Kept q s)
    (ho : s.step rc (.holdingTimeout r)=some o) : o.Returns fun u _ => Kept q u := by
  simp only [Layer.step] at ho
  split at ho
  · rename_i hlive
    have hr:=h.heap.mem_of_live hlive.1
    unfold Layer.timeout at ho
    rw [Layer.setXact_pool,h.heap.byId _ _ r hr] at ho
    simp only [Layer.holdingExpired,Layer.setXact_self,setXact_setXact] at ho
    have hpending:=h.pending hr
    split at ho
    · cases ho
      rw [Outcome.returns_ok]
      apply h.setXact hr
      · exact ⟨rfl,rfl,rfl,rfl⟩
      · exact fun hok => hok
    · cases ho
      rw [Outcome.returns_ok]
      have hx : (s.xact r).Same { s.xact r with
          tmHolding := false
          holdingRcount := (s.xact r).holdingRcount-1 } := ⟨rfl,rfl,rfl,rfl⟩
      exact (hpending.setXact hx).delete
  · cases ho

theorem Kept.create {org : Pfcp.Org} {xid : BitVec 32} {node timers : Nat} (h : Kept q s)
    (hid : s.pool.id < maxPoolId) :
    (Layer.create rc s org xid node timers).Returns fun t r =>
      Pending q t r ∧ t.pool.id=s.pool.id+1 ∧
        ∃ id index,t.xact r=Xact.create rc id index org xid node := by
  have hnext : nextId s.pool.id 1 maxPoolId=s.pool.id+1 := by
    unfold nextId
    rw [if_neg (by omega)]
  have hfresh : s.pool.findById (nextId s.pool.id 1 maxPoolId)=none := by
    rw [hnext]
    cases hf : s.pool.findById (s.pool.id+1) with
    | none => rfl
    | some i =>
      have hle:=(h.ids (s.pool.id+1) i hf).1
      omega
  have hcreate:=h.heap.create rc hfresh org xid node timers
  cases hc : Layer.create rc s org xid node timers with
  | abort t => exact Outcome.returns_abort
  | ok t r =>
    rw [hc,Outcome.returns_ok] at hcreate
    obtain ⟨hheap,hnew,hx,hlist,hself⟩ := hcreate
    have hpool : t.pool.id=s.pool.id+1 ∧
        t.pool.idHash=update s.pool.idHash (s.pool.id+1) (some r) := by
      obtain ⟨fq,live,hs,-⟩ := h.heap.split
      unfold Layer.create at hc
      cases fq with
      | nil =>
        rw [hs.idCalloc_nil] at hc
        cases hc
      | cons n fq =>
        obtain ⟨p,hp,-,-,hpid⟩ := hs.idCalloc
        have hhash:=Pool.idCalloc_idHash hp
        rw [hp] at hc
        simp only at hc
        split at hc
        · cases hc
        · cases hc
          rw [hnext] at hhash hpid
          exact ⟨hpid,hhash⟩
    have hlisted : r∈t.list (t.xact r).org (t.xact r).node := by
      obtain ⟨id,index,hself⟩ := hself
      rw [hself,hlist]
      simp [Xact.create]
    have hbyId:=hheap.byId _ _ r hlisted
    rw [Outcome.returns_ok]
    refine ⟨⟨hheap,?_,hlisted,?_⟩,hpool.1,hself⟩
    · intro id i hsome
      have hfind : ∀ id,t.pool.findById id =
          update s.pool.idHash (s.pool.id+1) (some r) id := by
        intro id
        show t.pool.idHash id=_
        rw [hpool.2]
      rw [hpool.1]
      rw [hfind] at hsome
      by_cases he : id=s.pool.id+1
      · rw [he,update_self] at hsome
        cases hsome
        have hown : (t.xact r).id=s.pool.id+1 := by
          by_contra hne
          rw [hfind,update_of_ne hne] at hbyId
          exact hnew _ _ (h.ids _ r hbyId).2.1
        exact ⟨by omega,hlisted,by rw [hown,he]⟩
      · rw [update_of_ne he] at hsome
        obtain ⟨hle,hmem,hid'⟩ := h.ids id i hsome
        have hne : i≠r := by
          rintro rfl
          exact hnew _ _ hmem
        rw [hx i hne]
        refine ⟨by omega,?_,hid'⟩
        rw [hlist]
        split
        · exact mem_append_left _ hmem
        · exact hmem
    · intro n i hi hne
      rw [hx i hne]
      rw [hlist] at hi
      split at hi
      · rename_i heq
        rcases mem_append.mp hi with hi | hi
        · exact h.locals n i hi
        · exact absurd (mem_singleton.mp hi) hne
      · exact h.locals n i hi

theorem updateRx_local_cases (ho : x.org = .localOriginator) (type : Byte) :
    (∃ y,x.updateRx type = .ok y (.ok,none) ∧ Answered y ∧ getStage type = .final) ∨
      x.updateRx type = .ok x (.error,none) := by
  unfold Xact.updateRx
  rw [ho]
  cases hstage : getStage type with
  | initial => exact Or.inr rfl
  | intermediate => exact absurd hstage (Pfcp.getStage_ne_intermediate type)
  | final =>
    simp only
    split_ifs with hstep
    · exact Or.inr rfl
    · have hone : x.step=1 := not_not.mp hstep
      apply Or.inl
      refine ⟨_,rfl,⟨?_,?_⟩,trivial⟩
      · simp [Xact.save,hone]
      · simpa [Xact.save,Xact.secondSeq,hone] using hstage
  | unknown => exact Or.inr rfl

def Received (q : List Event) (type : Byte) (s : Layer) : Result → Prop
  | ⟨.ok,some r,_⟩ => Pending q s r ∧
      ((s.xact r).org = .remoteOriginator ∧ getStage type = .initial ∨
        (s.xact r).org = .localOriginator ∧ Answered (s.xact r) ∧ getStage type = .final)
  | _ => Kept q s

theorem Pending.deliver_remote {type : Byte} (h : Pending q s r)
    (ho : (s.xact r).org = .remoteOriginator)
    (hstage : getStage type = .initial ∨ ∃ y,(s.xact r).updateRx type = .ok y (.error,none)) :
    (s.deliver r type).Returns (Received q type) := by
  have hsame:=(s.xact r).updateRx_same type
  unfold Layer.deliver
  cases hu : (s.xact r).updateRx type with
  | abort y => exact Outcome.returns_abort
  | ok y a =>
    rw [hu,Outcome.returns_ok] at hsame
    have hset:=h.setXact hsame
    have hkept : Kept q (s.setXact r y) := by
      apply hset.done
      intro horg
      rw [Layer.setXact_self,hsame.org,ho] at horg
      cases horg
    obtain ⟨rv,sent⟩ := a
    cases rv with
    | error => exact hset.delete
    | retry => exact hkept
    | ok =>
      constructor
      · exact hset
      · apply Or.inl
        rw [Layer.setXact_self,hsame.org]
        rcases hstage with hstage | ⟨y',hy'⟩
        · exact ⟨ho,hstage⟩
        · rw [hu] at hy'
          cases hy'

theorem Pending.deliver_local {type : Byte} (h : Pending q s r)
    (ho : (s.xact r).org = .localOriginator) : (s.deliver r type).Returns (Received q type) := by
  have hsame:=(s.xact r).updateRx_same type
  unfold Layer.deliver
  rcases updateRx_local_cases ho type with ⟨y,hu,hy⟩ | hu
  · rw [hu,Outcome.returns_ok] at hsame
    rw [hu]
    constructor
    · exact h.setXact hsame
    · apply Or.inr
      rw [Layer.setXact_self,hsame.org]
      exact ⟨ho,hy⟩
  · rw [hu,Outcome.returns_ok] at hsame
    rw [hu]
    exact (h.setXact hsame).delete

theorem Kept.receive {node timers : Nat} {h : Header} (hk : Kept q s)
    (hid : s.pool.id < maxPoolId) :
    (s.receive rc node h timers).Returns (Received q h.type) := by
  have hmem : ∀ org,∀ r,s.findByXid (s.list org node) (Pfcp.sqnToXid h.sqn)=some r →
      r∈s.list org node ∧ (s.xact r).org=org := by
    intro org r hf
    have hr:=List.mem_of_find?_eq_some hf
    exact ⟨hr,(hk.heap.listed org node r hr).1⟩
  have hnew : ∀ hstage : getStage h.type = .initial ∨ ∀ id index xid,∃ y,
      (Xact.create rc id index .remoteOriginator xid node).updateRx h.type = .ok y (.error,none),
      ((s.remoteCreate rc node h.sqn timers).bind fun t r => t.deliver r h.type).Returns
        (Received q h.type) := by
    intro hstage
    have hcreate : (s.remoteCreate rc node h.sqn timers).Returns _ := hk.create hid
    cases hc : s.remoteCreate rc node h.sqn timers with
    | abort t => exact Outcome.returns_abort
    | ok t r =>
      rw [hc,Outcome.returns_ok] at hcreate
      obtain ⟨hpending,-,id,index,hself⟩ := hcreate
      rw [Outcome.bind_ok]
      apply hpending.deliver_remote
      · rw [hself]
        rfl
      · rw [hself]
        exact hstage.imp_right fun hstage => hstage id index _
  unfold Layer.receive Layer.listOf
  cases hstage : getStage h.type with
  | unknown => exact hk
  | intermediate => exact absurd hstage (Pfcp.getStage_ne_intermediate h.type)
  | initial =>
    simp only
    cases hf : s.findByXid (s.list .remoteOriginator node) (Pfcp.sqnToXid h.sqn) with
    | some r =>
      obtain ⟨hr,ho⟩ := hmem .remoteOriginator r hf
      exact (hk.pending hr).deliver_remote ho (Or.inl hstage)
    | none => exact hnew (Or.inl hstage)
  | final =>
    simp only
    cases hf : s.findByXid (s.list .localOriginator node) (Pfcp.sqnToXid h.sqn) with
    | some r =>
      obtain ⟨hr,ho⟩ := hmem .localOriginator r hf
      exact (hk.pending hr).deliver_local ho
    | none =>
      apply hnew
      apply Or.inr
      intro id index xid
      exact ⟨_,Pfcp.updateRx_stray (by rw [hstage]; decide)⟩

structure Inv (t : Dn4) : Prop where
  kept : Kept t.queue t.layer
  events : ∀ e∈t.queue,e.id = .dn4Message

variable {t : Dn4}

theorem Inv.accounted (h : Inv t) : Accounted t := by
  intro node r hr
  rcases h.kept.locals node r hr with hw | ⟨-,hq⟩
  · exact Or.inl hw
  · exact Or.inr hq

theorem Inv.withLayer (h : Inv t) (hs : Kept t.queue s) : Inv (t.withLayer s) := ⟨hs,h.events⟩

def After (t u : Dn4) : Prop :=
  Inv u ∧ u.queue=t.queue ∧ u.layer.pool.id≤t.layer.pool.id+1

theorem Inv.commit {org : Pfcp.Org} {node : Nat} (h : Inv t)
    (hr : r∈t.layer.list org node) : (t.commit r).Returns fun u _ =>
      Inv u ∧ u.queue=t.queue ∧ u.layer.pool.id=t.layer.pool.id := by
  unfold Dn4.commit
  cases hc : t.layer.commit r with
  | none => exact Outcome.returns_abort
  | some o =>
    have hkept:=h.kept.commit hr hc
    cases o with
    | abort s => exact Outcome.returns_abort
    | ok s res => exact ⟨h.withLayer hkept.1,rfl,hkept.2⟩

theorem Inv.sendRequest {sup : Supply} {type : Byte} {seid : BitVec 64} {node sess : Nat}
    (h : Inv t) (hid : t.layer.pool.id < maxPoolId) (htype : getStage type = .initial) :
    (t.sendRequest rc sup type seid node sess).Returns fun u _ => After t u := by
  have hcreate : (t.layer.localCreate rc node sup.timers).Returns fun s r =>
      Pending t.queue s r ∧ s.pool.id=t.layer.pool.id+1 ∧
        ∃ id index xid,s.xact r=Xact.create rc id index .localOriginator xid node := by
    have hk : Kept t.queue { t.layer with xactId := nextId t.layer.xactId 1 0x800000 } :=
      ⟨⟨h.kept.heap.split,h.kept.heap.listed,h.kept.heap.nodup,h.kept.heap.byId⟩,h.kept.ids,
        h.kept.locals⟩
    apply (hk.create hid).mono
    rintro s r ⟨hp,hcount,id,index,hself⟩
    exact ⟨hp,hcount,id,index,_,hself⟩
  unfold Dn4.sendRequest
  cases hc : t.layer.localCreate rc node sup.timers with
  | abort s => exact Outcome.returns_abort
  | ok s r =>
    rw [hc,Outcome.returns_ok] at hcreate
    obtain ⟨hp,hcount,id,index,xid,hself⟩ := hcreate
    have hdelete : ∀ u,Pending t.queue u r → u.pool.id=s.pool.id →
        (u.delete r).pool.id≤t.layer.pool.id+1 := by
      intro u _ hu
      have hd : (u.delete r).pool.id=u.pool.id := Pool.idFree_id ..
      omega
    cases hbody : sup.body with
    | none => exact ⟨⟨hp.delete,h.events⟩,rfl,hdelete s hp rfl⟩
    | some body =>
      simp only
      have hupdate : (s.xact r).updateTx ⟨type,seid,0⟩ body =
          .ok ((s.xact r).save ⟨type,some (Pfcp.pushHeader type seid (s.xact r).xid body)⟩)
            .ok := by
        unfold Xact.updateTx
        rw [hself,htype]
        rfl
      rw [hupdate]
      simp only
      generalize hseq : (⟨type,some (Pfcp.pushHeader type seid (s.xact r).xid body)⟩ : Seq) =
        first
      have hset:=hp.setXact (Xact.save_same (s.xact r) first)
      have hx : ((s.setXact r ((s.xact r).save first)).xact r)=(s.xact r).save first :=
        Layer.setXact_self
      have hfirst : ((s.xact r).save first).firstSeq=first := by
        rw [hself]
        simp [Xact.save,Xact.create,Xact.firstSeq]
      have hpkbuf : ((s.setXact r ((s.xact r).save first)).xact r).firstSeq.pkbuf =
          some (Pfcp.pushHeader type seid (s.xact r).xid body) := by
        rw [hx,hfirst,← hseq]
      have hcommit:=commit_request (by rw [hx,hself]; rfl) (by rw [hx,hself]; rfl)
        (by rw [hx,hfirst,← hseq]; exact htype) hpkbuf
      unfold Dn4.commit
      have hlayer : (Dn4.withLayer { t.withLayer s with
          localSeid := update t.localSeid r (t.ctx.sess sess).dsmfDn4Seid }
            (s.setXact r ((s.xact r).save first))).layer=s.setXact r ((s.xact r).save first) := rfl
      rw [hlayer,hcommit]
      refine ⟨⟨?_,h.events⟩,rfl,?_⟩
      · apply (hset.setXact _).done
        · intro _
          rw [Layer.setXact_self]
          apply Or.inl
          rw [hx,hself]
          exact ⟨rfl,rfl⟩
        · exact ⟨rfl,rfl,rfl,rfl⟩
      · show s.pool.id≤_
        omega

theorem Inv.handleMessage (h : Inv t) (xactId : Nat) :
    (t.handleMessage xactId).Returns fun u _ => After t u := by
  unfold Dn4.handleMessage
  split_ifs
  · exact ⟨h,rfl,Nat.le_succ _⟩
  · cases hf : t.layer.pool.findById xactId with
    | none => exact ⟨h,rfl,Nat.le_succ _⟩
    | some r =>
      have hr:=(h.kept.ids xactId r hf).2.1
      simp only
      apply (h.commit hr).mono
      rintro u-⟨hu,hq,hid⟩
      exact ⟨hu,hq,by omega⟩

theorem Inv.handleCall {env : Env} {sup : Supply} {xactId sess : Nat} (h : Inv t) (call : Call)
    (hid : t.layer.pool.id < maxPoolId) :
    (t.handleCall rc env sup xactId sess call).Returns fun u _ => After t u := by
  have hsame : (Outcome.ok t () : Outcome Dn4 Unit).Returns fun u _ => After t u :=
    ⟨h,rfl,Nat.le_succ _⟩
  unfold Dn4.handleCall
  split
  · split
    · exact hsame
    · exact h.sendRequest hid rfl
  · exact h.handleMessage xactId
  · split
    · exact Outcome.returns_abort
    · exact h.sendRequest hid rfl
  · split
    · exact Outcome.returns_abort
    · exact h.sendRequest hid rfl
  · exact hsame

theorem inv_handleCalls {env : Env} {sup : Supply} {xactId : Nat} {session : Context → Call → Nat}
    (calls : List Call) {o : Outcome Dn4 Unit}
    (ho : o.Returns fun u _ => Inv u ∧ u.layer.pool.id+calls.length ≤ maxPoolId) :
    (calls.foldl (fun o call => o.bind fun t _ =>
      t.handleCall rc env sup xactId (session t.ctx call) call) o).Returns fun u _ => Inv u := by
  induction calls generalizing o with
  | nil =>
    apply ho.mono
    exact fun u _ hu => hu.1
  | cons call calls ih =>
    apply ih
    apply ho.bind
    rintro u-⟨hu,hid⟩
    rw [length_cons] at hid
    apply (hu.handleCall call (by omega)).mono
    rintro v-⟨hv,-,hle⟩
    exact ⟨hv,by omega⟩

theorem length_signal {env : Env} {st : SmState} {c u : Context} {n : Nat} {e : Event}
    {l : List Call} (h : signal env st c n e = .ok u l) : l.length=1 := by
  unfold signal at h
  cases ho : sessionState env st c n e with
  | abort v =>
    rw [ho] at h
    cases h
  | ok v a =>
    rw [ho] at h
    cases h
    rfl

theorem length_fsmDispatch (env : Env) (c : Context) (n : Nat) (e : Event) :
    (fsmDispatch env c n e).Returns fun _ l => l.length≤3 := by
  unfold fsmDispatch
  simp only
  cases hs : signal env (c.sess n).sm c n e with
  | abort v => exact Outcome.returns_abort
  | ok v l =>
    have hl:=length_signal hs
    rw [Outcome.bind_ok]
    split_ifs
    · unfold fsmChange fsmExit fsmEntry
      cases hx : signal env (c.sess n).sm v n { e with id := .exitSig } with
      | abort w => exact Outcome.returns_abort
      | ok w l' =>
        have hl':=length_signal hx
        rw [Outcome.bind_ok]
        cases he : signal env (v.sess n).sm w n { e with id := .entrySig } with
        | abort z => exact Outcome.returns_abort
        | ok z l'' =>
          have hl'':=length_signal he
          rw [Outcome.bind_ok,Outcome.bind_ok,Outcome.returns_ok]
          simp only [length_append]
          omega
    · rw [Outcome.returns_ok]
      omega

theorem length_deliver {c : Context} {i : Input} {o : Outcome Context (List Call)}
    (h : deliver c i=some o) : o.Returns fun _ l => l.length≤3 := by
  have hnone : ∀ c,(Outcome.ok c [] : Outcome Context (List Call)).Returns fun _ l =>
      l.length≤3 := fun _ => by simp
  cases i with
  | event env e =>
    simp only [deliver,some.injEq] at h
    subst h
    unfold stateOperational
    split
    iterate 4
      · split
        · exact length_fsmDispatch ..
        · exact hnone _
    · split
      · exact Outcome.returns_abort
      · apply Outcome.Returns.bind (Outcome.returns_of_forall _ fun _ _ => trivial)
        exact fun _ _ _ => length_fsmDispatch ..
    · exact hnone _
  | addGnbWithRanInfo env r =>
    simp only [deliver,some.injEq] at h
    subst h
    apply Outcome.Returns.bind (Outcome.returns_of_forall _ fun _ _ => trivial)
    exact fun _ _ _ => length_fsmDispatch ..
  | sessEstablish env n =>
    simp only [deliver] at h
    split_ifs at h
    cases h
    exact length_fsmDispatch ..
  | sessModify env n =>
    simp only [deliver] at h
    split_ifs at h
    cases h
    exact length_fsmDispatch ..
  | sessDelete env n =>
    simp only [deliver] at h
    split_ifs at h
    cases h
    exact length_fsmDispatch ..

theorem Inv.dispatch {sup : Supply} {i : Input} {o : Outcome Dn4 Unit} (h : Inv t)
    (hid : t.layer.pool.id+3 < maxPoolId) (ho : dispatch rc sup t i=some o) :
    o.Returns fun u _ => Inv u := by
  unfold Dn4.dispatch at ho
  split at ho
  · cases ho
  · cases ho
    exact Outcome.returns_abort
  · rename_i c calls hdeliver
    cases ho
    have hlen : calls.length≤3 := length_deliver hdeliver
    apply inv_handleCalls
    rw [Outcome.returns_ok]
    constructor
    · exact ⟨h.kept,h.events⟩
    · show t.layer.pool.id+calls.length ≤ maxPoolId
      omega

theorem commit_response {pkbuf : List Byte} (ho : (s.xact r).org = .remoteOriginator)
    (hstep : (s.xact r).step=2) (htype : getStage (s.xact r).secondSeq.type = .final)
    (hpkbuf : (s.xact r).secondSeq.pkbuf=some pkbuf) :
    s.commit r=some (.ok (s.setXact r { s.xact r with tmResponse := (s.xact r).tmResponse })
      ⟨.ok,none,some ((s.xact r).node,pkbuf)⟩) := by
  have hlast : (s.xact r).lastSeq=some (s.xact r).secondSeq := by
    unfold Xact.lastSeq
    rw [if_neg (by omega),hstep]
    rfl
  have hcommit : (s.xact r).commit (s.xact r).secondSeq.type = .send false := by
    unfold Xact.commit
    rw [ho,htype]
    simp only
    rw [if_neg (by omega),if_neg (by omega)]
  unfold Layer.commit
  simp only [hlast,hcommit,hpkbuf,Bool.or_false]

theorem inv_handleHeartbeatRequest {body : Option (List Byte)} (h : Pending t.queue t.layer r)
    (hevents : ∀ e∈t.queue,e.id = .dn4Message)
    (ho : (t.layer.xact r).org = .remoteOriginator) :
    (t.handleHeartbeatRequest r body).Returns fun u _ => Inv u := by
  have hremote : ∀ s',Pending t.queue s' r → (s'.xact r).org = .remoteOriginator →
      Kept t.queue s' := by
    intro s' hs' ho'
    apply hs'.done
    intro horg
    rw [ho'] at horg
    cases horg
  unfold Dn4.handleHeartbeatRequest
  cases body with
  | none => exact ⟨hremote _ h ho,hevents⟩
  | some body =>
    simp only
    have hstage : getStage heartbeatResponse = .final := rfl
    have hupdate : (t.layer.xact r).updateTx ⟨heartbeatResponse,0,0⟩ body =
        if (t.layer.xact r).step≠1 then .ok (t.layer.xact r) .error
        else .ok ((t.layer.xact r).save ⟨heartbeatResponse,
          some (Pfcp.pushHeader heartbeatResponse 0 (t.layer.xact r).xid body)⟩) .ok := by
      unfold Xact.updateTx
      rw [ho,hstage]
    rw [hupdate]
    split_ifs with hstep
    · have hset:=h.setXact (x := t.layer.xact r) ⟨rfl,rfl,rfl,rfl⟩
      have hself : ((t.layer.setXact r (t.layer.xact r)).xact r).org = .remoteOriginator := by
        rw [Layer.setXact_self]
        exact ho
      exact ⟨hremote _ hset hself,hevents⟩
    · have hone : (t.layer.xact r).step=1 := not_not.mp hstep
      simp only
      generalize hseq : (⟨heartbeatResponse,
        some (Pfcp.pushHeader heartbeatResponse 0 (t.layer.xact r).xid body)⟩ : Seq)=second
      have hset:=h.setXact (Xact.save_same (t.layer.xact r) second)
      have hx : (t.layer.setXact r ((t.layer.xact r).save second)).xact r =
          (t.layer.xact r).save second := Layer.setXact_self
      have hsecond : ((t.layer.xact r).save second).secondSeq=second := by
        simp [Xact.save,Xact.secondSeq,hone]
      have hpkbuf : ((t.layer.setXact r ((t.layer.xact r).save second)).xact r).secondSeq.pkbuf =
          some (Pfcp.pushHeader heartbeatResponse 0 (t.layer.xact r).xid body) := by
        rw [hx,hsecond,← hseq]
      have hcommit:=commit_response (by rw [hx]; exact ho) (by rw [hx]; simp [Xact.save,hone])
        (by rw [hx,hsecond,← hseq]; rfl) hpkbuf
      unfold Dn4.commit
      have hlayer : (t.withLayer (t.layer.setXact r ((t.layer.xact r).save second))).layer =
          t.layer.setXact r ((t.layer.xact r).save second) := rfl
      rw [hlayer,hcommit]
      rw [Outcome.bind_ok,Outcome.returns_ok]
      have hsent:=hset.setXact (x := { (t.layer.setXact r
        ((t.layer.xact r).save second)).xact r with
          tmResponse := ((t.layer.setXact r ((t.layer.xact r).save second)).xact r).tmResponse })
        ⟨rfl,rfl,rfl,rfl⟩
      exact ⟨hsent.delete,hevents⟩

theorem Inv.recvCb {node timers : Nat} {hd : Header} {heartbeat : Option (List Byte)} (h : Inv t)
    (hid : t.layer.pool.id < maxPoolId) :
    (t.recvCb rc node hd timers true heartbeat).Returns fun u _ => Inv u := by
  have hreceive : (t.layer.receive rc node hd timers).Returns _ := h.kept.receive hid
  unfold Dn4.recvCb
  cases hrecv : t.layer.receive rc node hd timers with
  | abort s => exact Outcome.returns_abort
  | ok s res =>
    rw [hrecv,Outcome.returns_ok] at hreceive
    obtain ⟨rv,xact,sent⟩ := res
    cases rv with
    | error => exact ⟨hreceive,h.events⟩
    | retry => exact ⟨hreceive,h.events⟩
    | ok =>
      cases xact with
      | none => exact ⟨hreceive,h.events⟩
      | some r =>
        obtain ⟨hp,hr⟩ := hreceive
        simp only
        split_ifs with hbeat hanswer
        · rcases hr with ⟨ho,-⟩ | ⟨-,-,hfinal⟩
          · exact inv_handleHeartbeatRequest (t := t.withLayer s) hp h.events ho
          · rw [hbeat] at hfinal
            cases hfinal
        · have hfinal : getStage hd.type = .final := by
            rcases hanswer with hanswer | hanswer
            · rw [hanswer]
              rfl
            · rw [hanswer]
              rfl
          rcases hr with ⟨-,hinitial⟩ | ⟨ho,ha,-⟩
          · rw [hinitial] at hfinal
            cases hfinal
          · unfold Dn4.commit
            have hlayer : (t.withLayer s).layer=s := rfl
            rw [hlayer,commit_answered ho ha]
            exact ⟨hp.delete,h.events⟩
        · rw [Outcome.returns_ok]
          have hevent : ((t.withLayer s).messageEvent hd.type r).pfcpXactId=(s.xact r).id := rfl
          constructor
          · have hmono : Pending (t.queue++[(t.withLayer s).messageEvent hd.type r]) s r :=
              ⟨hp.heap,hp.ids,hp.listed,fun n i hi hne =>
                (hp.others n i hi hne).mono fun e he => mem_append_left _ he⟩
            apply hmono.done
            intro horg
            rcases hr with ⟨ho,-⟩ | ⟨-,ha,-⟩
            · rw [ho] at horg
              cases horg
            · apply Or.inr
              exact ⟨ha,_,mem_append_right _ (mem_singleton_self _),hevent⟩
          · intro e he
            rcases mem_append.mp he with he | he
            · exact h.events e he
            · rw [mem_singleton.mp he]
              rfl

theorem deliver_operational {env : Env} {c : Context} {e : Event} {n : Nat}
    (hid : e.id = .dn4Message) (hfind : sessFindById c e.sessId=some n)
    (hsm : (c.sess n).sm = .operational) (hxact : env.xact=true) :
    deliver c (.event env e) =
      some (.ok c [⟨n,.operational,.dn4Message,decide (n∈c.sessList)⟩]) := by
  have hstate : sessionState env .operational c n e = .ok c () := by
    simp only [sessionState,sessionStateOperational,hfind,hid,dn4HandleMessage,hxact,or_true,
      if_true]
  have hsignal : signal env .operational c n e =
      .ok c [⟨n,.operational,.dn4Message,decide (n∈c.sessList)⟩] := by
    unfold signal
    rw [hstate,Outcome.bind_ok,hid]
  simp only [deliver,stateOperational,hid,hfind,fsmDispatch,hsm,hsignal,Outcome.bind_ok]
  rfl

theorem Kept.take {e : Event} {queue : List Event} (h : Kept (e::queue) s) {node i : Nat}
    (hi : i∈s.list .localOriginator node) (hne : e.pfcpXactId≠(s.xact i).id) :
    LocalOk queue (s.xact i) := by
  rcases h.locals node i hi with hw | ⟨ha,e',he',hid⟩
  · exact Or.inl hw
  · rcases mem_cons.mp he' with rfl | he'
    · exact absurd hid hne
    · exact Or.inr ⟨ha,e',he',hid⟩

theorem Kept.take_pending {e : Event} {queue : List Event} (h : Kept (e::queue) s)
    (hr : s.pool.findById e.pfcpXactId=some r) : Pending queue s r where
  heap := h.heap
  ids := h.ids
  listed := (h.ids _ r hr).2.1
  others := by
    intro node i hi hne
    apply h.take hi
    intro hid
    have hbyId:=h.heap.byId _ node i hi
    rw [← hid,hr] at hbyId
    exact hne (some.inj hbyId).symm

theorem inv_handle {env : Env} {sup : Supply} {e : Event} {queue : List Event}
    {o : Outcome Dn4 Unit} (h : Inv t) (hqueue : t.queue=e::queue)
    (hid : t.layer.pool.id+3 < maxPoolId)
    (hc : ∀ r,t.layer.pool.findById e.pfcpXactId=some r →
      (t.layer.xact r).org = .localOriginator → ForOperational t.ctx e)
    (ho : dispatch rc sup { t with queue := queue } (.event env e)=some o) :
    o.Returns fun u _ => Inv u := by
  have hk : Kept (e::queue) t.layer := hqueue ▸ h.kept
  have hevents : ∀ e∈queue,e.id = .dn4Message := fun e' he' =>
    h.events e' (hqueue ▸ mem_cons_of_mem _ he')
  by_cases hlocal : ∃ r,t.layer.pool.findById e.pfcpXactId=some r ∧
      (t.layer.xact r).org = .localOriginator
  · obtain ⟨r,hr,horg⟩ := hlocal
    obtain ⟨n,hfind,hsm⟩ := hc r hr horg
    have hxact : ({ env with xact := true } : Env).xact=true := rfl
    have hdeliver:=deliver_operational
      (h.events e (hqueue ▸ mem_cons_self ..)) hfind hsm hxact
    have hpending:=hk.take_pending hr
    have hone : 0<e.pfcpXactId := (hk.ids _ r hr).1.1
    have hdispatch : dispatch rc sup { t with queue := queue } (.event env e) =
        some (Dn4.handleMessage { t with queue := queue } e.pfcpXactId) := by
      unfold Dn4.dispatch
      simp only [Input.granted]
      rw [hdeliver]
      rfl
    rw [hdispatch] at ho
    cases ho
    have hown:=hk.locals _ r (horg ▸ hpending.listed)
    rcases hown with hw | ⟨ha,-⟩
    · have hkept : Inv { t with queue := queue } :=
        ⟨hpending.done fun _ => Or.inl hw,hevents⟩
      apply (hkept.handleMessage e.pfcpXactId).mono
      exact fun u _ hu => hu.1
    · unfold Dn4.handleMessage
      rw [if_neg (by omega)]
      simp only [hr]
      unfold Dn4.commit
      simp only [commit_answered horg ha]
      exact ⟨hpending.delete,hevents⟩
  · have hkept : Kept queue t.layer := by
      refine ⟨hk.heap,hk.ids,?_⟩
      intro node i hi
      apply hk.take hi
      intro hid'
      have hbyId:=hk.heap.byId _ node i hi
      rw [← hid'] at hbyId
      exact hlocal ⟨i,hbyId,(hk.heap.listed _ node i hi).1⟩
    have hinv : Inv { t with queue := queue } := ⟨hkept,hevents⟩
    exact hinv.dispatch hid ho

theorem inv_step {i : Op} {u : Dn4} {a : Unit} (h : Inv t) (hc : Committable t i)
    (hstep : step rc t i=some (.ok u a)) : Inv u := by
  cases i with
  | message node hd timers pushed heartbeat =>
    obtain ⟨rfl,hid⟩ := hc
    simp only [step,some.injEq] at hstep
    have hrecv : (t.recvCb rc node hd timers true heartbeat).Returns fun u _ => Inv u :=
      h.recvCb (by omega)
    rw [hstep] at hrecv
    exact hrecv
  | handle env sup =>
    obtain ⟨hid,hc⟩ := hc
    simp only [step] at hstep
    split at hstep
    · cases hstep
    · rename_i e queue hqueue
      rw [hqueue] at hc
      exact inv_handle h hqueue hid (hc e rfl) hstep
  | input i sup =>
    simp only [step] at hstep
    split at hstep
    · cases hstep
    · exact h.dispatch hc hstep
  | responseTimeout r =>
    simp only [step,map_eq_some_iff] at hstep
    obtain ⟨o,ho,hstep⟩ := hstep
    have hkept:=h.kept.responseTimeout ho
    cases o with
    | abort s => cases hstep
    | ok s res =>
      cases hstep
      exact h.withLayer hkept
  | holdingTimeout r =>
    simp only [step,map_eq_some_iff] at hstep
    obtain ⟨o,ho,hstep⟩ := hstep
    have hkept:=h.kept.holdingTimeout ho
    cases o with
    | abort s => cases hstep
    | ok s res =>
      cases hstep
      exact h.withLayer hkept

theorem inv_init (ctx : Context) (size : Nat) (xact : Nat → Xact) : Inv (init ctx size xact) where
  kept :=
    { heap := Layer.init_heap size xact
      ids := fun _ _ h => by cases h
      locals := fun _ _ h => by cases h }
  events := fun _ h => by cases h

def dn4Context : Dn4 := init context2 2 fun _ => Xact.create ⟨3,1⟩ 0 0 .localOriginator 0 0

def supply : Supply := ⟨9,some []⟩

def fromDf (type : Byte) (xid : BitVec 32) : Op :=
  .message 0 ⟨type,0,Pfcp.xidToSqn xid⟩ 9 true none

def modified : List Op :=
  [.input (.addGnbWithRanInfo envUp ranSyncAB) supply,fromDf 51 1,fromDf 51 1,
    .handle envUp supply,.input (.sessModify envUp 0) supply,fromDf 53 2,.handle envUp supply]

end Dn4

end OgsDp.Dsmf
