import OgsDp.Lib.Delivery
import OgsDp.Pfcp.XactLists
import OgsDp.Pfcp.XactRequest

/-!
# Every PFCP request is delivered once (lib/pfcp/xact.c)

A request is known by its peer and its transaction id. It is held from its delivery until the
holding timer of its transaction runs out.
-/

namespace OgsDp.Pfcp
open Lib OgsDp.Core Delivery Layer Function Option

abbrev Request := Nat × BitVec 32
abbrev Packet := Nat × List Byte

section Events

variable (s : Layer)

def commitLabels (r : Nat) (o : Outcome Layer Result) : List (Label Request Packet) :=
  match (s.xact r).org, o with
  | .remoteOriginator, .ok _ ⟨_,_,some p⟩ => [.committed ((s.xact r).node,(s.xact r).xid) p]
  | _, _ => []

/-- What a call means for the requests of the peers: whether a request was handed to the
application, what was sent for a copy of it, which response was committed, and for which
transaction the holding timer ran out for the last time. -/
def label : Layer.Op → Outcome Layer Result → List (Label Request Packet)
  | .receive node h _, .ok _ a =>
    if getStage h.type = .initial then
      match a.rv with
      | .ok => [.delivered (node,sqnToXid h.sqn)]
      | .retry => [.dropped (node,sqnToXid h.sqn) a.sent]
      | .error => [.refused (node,sqnToXid h.sqn)]
    else []
  | .commit r, o => commitLabels s r o
  | .delayedCommitTimeout r, o => commitLabels s r o
  | .holdingTimeout r, .ok _ _ =>
    if (s.xact r).org = .remoteOriginator ∧ (s.xact r).holdingRcount-1=0 then
      [.expired ((s.xact r).node,(s.xact r).xid)]
    else []
  | _, _ => []

/-- The peer does not use the sequence number of a transaction that is alive for a request of
another kind. -/
def SameRequest : Layer.Op → Prop
  | .receive node h _ =>
    getStage h.type = .initial →
      ∀ r ∈ s.findByXid (s.list .remoteOriginator node) (sqnToXid h.sqn),
        (s.xact r).firstSeq.type=h.type
  | _ => True

/-- A transaction of the peer is committed only after the response to it was handed over. -/
def Answered : Layer.Op → Prop
  | .commit r => (s.xact r).org = .remoteOriginator → (s.xact r).step≠1
  | .delayedCommitTimeout r => (s.xact r).org = .remoteOriginator → (s.xact r).step≠1
  | _ => True

def FreshId : Layer.Op → Prop
  | .localCreate _ _ => s.pool.findById (nextId s.pool.id 1 maxPoolId)=none
  | .receive node h _ =>
    ∀ l∈s.listOf node (getStage h.type),s.findByXid l (sqnToXid h.sqn)=none →
      s.pool.findById (nextId s.pool.id 1 maxPoolId)=none
  | _ => True

instance decidableSameRequest : ∀ e,Decidable (SameRequest s e)
  | .receive _ _ _ => inferInstanceAs (Decidable (_ → ∀ r∈_,_))
  | .localCreate _ _ | .updateTx _ _ _ | .commit _ | .delayedCommit _ | .responseTimeout _
  | .holdingTimeout _ | .delayedCommitTimeout _ => isTrue trivial

instance decidableAnswered : ∀ e,Decidable (Answered s e)
  | .commit _ => inferInstanceAs (Decidable (_ → _))
  | .delayedCommitTimeout _ => inferInstanceAs (Decidable (_ → _))
  | .localCreate _ _ | .receive _ _ _ | .updateTx _ _ _ | .delayedCommit _ | .responseTimeout _
  | .holdingTimeout _ => isTrue trivial

instance decidableFreshId : ∀ e,Decidable (FreshId s e)
  | .localCreate _ _ => inferInstanceAs (Decidable (_=_))
  | .receive _ _ _ => inferInstanceAs (Decidable (∀ l∈_,_ → _))
  | .updateTx _ _ _ | .commit _ | .delayedCommit _ | .responseTimeout _ | .holdingTimeout _
  | .delayedCommitTimeout _ => isTrue trivial

end Events

/-- The table holds the requests whose transactions are alive, and a reply in it is the packet
that the transaction keeps. -/
structure Sim (s : Layer) (t : Table Request Packet) : Prop extends s.Heap where
  unique : ∀ node,∀ i∈s.list .remoteOriginator node,∀ j ∈ s.list .remoteOriginator node,
    (s.xact i).xid=(s.xact j).xid → i=j
  held : ∀ node,∀ i∈s.list .remoteOriginator node,(s.xact i).Held
  table : ∀ node xid,(t (node,xid)).isSome ↔
    ∃ i∈s.list .remoteOriginator node,(s.xact i).xid=xid
  reply : ∀ node,∀ i∈s.list .remoteOriginator node,∀ p,
    t (node,(s.xact i).xid)=some (some p) →
      ∃ b,p=(node,b) ∧ (s.xact i).secondSeq.pkbuf=some b

theorem sim_init (size : Nat) (xact : Nat → Xact) : Sim (init size xact) fun _ => none where
  toHeap := init_heap size xact
  unique := by simp [init]
  held := by simp [init]
  table := by simp [init]
  reply := by simp [init]

namespace Sim

variable {s s' : Layer} {t : Table Request Packet} {org : Org} {node r : Nat} {x : Xact}
  {xid : BitVec 32}

theorem congr (h : Sim s t) (hheap : s'.Heap)
    (hlist : ∀ n,s'.list .remoteOriginator n=s.list .remoteOriginator n)
    (hx : ∀ n,∀ i∈s.list .remoteOriginator n,s'.xact i=s.xact i) : Sim s' t where
  toHeap := hheap
  unique := by
    intro n i hi j hj he
    rw [hlist] at hi hj
    rw [hx n i hi,hx n j hj] at he
    exact h.unique n i hi j hj he
  held := by
    intro n i hi
    rw [hlist] at hi
    rw [hx n i hi]
    exact h.held n i hi
  table := by
    intro n xid
    rw [h.table,hlist]
    constructor
    · rintro ⟨i,hi,he⟩
      exact ⟨i,hi,by rw [hx n i hi,he]⟩
    · rintro ⟨i,hi,he⟩
      exact ⟨i,hi,by rw [← hx n i hi,he]⟩
  reply := by
    intro n i hi p hp
    rw [hlist] at hi
    rw [hx n i hi] at hp ⊢
    exact h.reply n i hi p hp

theorem setXact (h : Sim s t) (hk : (s.xact r).Keeps x) : Sim (s.setXact r x) t := by
  have hkeep : ∀ i,(s.xact i).Keeps ((s.setXact r x).xact i) := by
    intro i
    by_cases hi : i=r
    · subst hi
      rw [setXact_self]
      exact hk
    · rw [setXact_of_ne hi]
      exact Xact.Keeps.refl _
  have hremote : ∀ n,∀ i∈s.list .remoteOriginator n,(s.xact i).org = .remoteOriginator :=
    fun n i hi => (h.listed _ n i hi).1
  refine ⟨h.toHeap.setXact hk.toSame,?_,?_,?_,?_⟩
  · intro n i hi j hj he
    rw [(hkeep i).xid,(hkeep j).xid] at he
    exact h.unique n i hi j hj he
  · intro n i hi
    exact (hkeep i).held (hremote n i hi) (h.held n i hi)
  · intro n xid
    rw [h.table]
    simp only [(hkeep _).xid,setXact_list]
  · intro n i hi p hp
    rw [(hkeep i).xid] at hp
    obtain ⟨b,hb,hseq⟩ := h.reply n i hi p hp
    exact ⟨b,hb,(hkeep i).reply (hremote n i hi) (h.held n i hi) b hseq⟩

theorem find_none (h : Sim s t) (hf : s.findByXid (s.list .remoteOriginator node) xid=none) :
    t (node,xid)=none := by
  unfold findByXid at hf
  rw [List.find?_eq_none] at hf
  by_contra hne
  obtain ⟨i,hi,hxid⟩ := (h.table node xid).mp (isSome_iff_ne_none.mpr hne)
  exact hf i hi (by simpa using hxid)

theorem deliver (h : Sim s t) (hheap : s'.Heap) (hnone : t (node,xid)=none)
    (hnew : ∀ n,r∉s.list .remoteOriginator n)
    (hlist : ∀ n,s'.list .remoteOriginator n =
      if n=node then s.list .remoteOriginator n++[r] else s.list .remoteOriginator n)
    (hx : ∀ i,i≠r → s'.xact i=s.xact i) (hxid : (s'.xact r).xid=xid)
    (hheld : (s'.xact r).Held) :
    ∃ u,next t (.delivered (node,xid))=some u ∧ Sim s' u := by
  have hkeep : ∀ n,∀ i∈s.list .remoteOriginator n,s'.xact i=s.xact i := by
    intro n i hi
    refine hx i ?_
    rintro rfl
    exact hnew n hi
  have hmem : ∀ n i,i∈s'.list .remoteOriginator n ↔
      i∈s.list .remoteOriginator n ∨ (i=r ∧ n=node) := by
    intro n i
    rw [hlist]
    split
    · rename_i hn
      simp [hn]
    · rename_i hn
      simp [hn]
  have habsent : ∀ i∈s.list .remoteOriginator node,(s.xact i).xid≠xid := by
    intro i hi he
    have hsome:=(h.table node xid).mpr ⟨i,hi,he⟩
    rw [hnone] at hsome
    cases hsome
  refine ⟨update t (node,xid) (some none),?_,hheap,?_,?_,?_,?_⟩
  · simp [next,Label.key,hnone,answer]
  · intro n i hi j hj he
    rcases (hmem n i).mp hi with hi | ⟨rfl,rfl⟩ <;> rcases (hmem n j).mp hj with hj | ⟨rfl,hn⟩
    · rw [hkeep n i hi,hkeep n j hj] at he
      exact h.unique n i hi j hj he
    · rw [hkeep n i hi,hxid] at he
      subst hn
      exact absurd he (habsent i hi)
    · rw [hkeep n j hj,hxid] at he
      exact absurd he.symm (habsent j hj)
    · rfl
  · intro n i hi
    rcases (hmem n i).mp hi with hi | ⟨rfl,_⟩
    · rw [hkeep n i hi]
      exact h.held n i hi
    · exact hheld
  · intro n y
    by_cases hk : (n,y)=(node,xid)
    · rw [hk,update_self]
      cases hk
      simp only [isSome_some,true_iff]
      exact ⟨r,(hmem node r).mpr (.inr ⟨rfl,rfl⟩),hxid⟩
    · rw [update_of_ne hk,h.table]
      constructor
      · rintro ⟨i,hi,he⟩
        exact ⟨i,(hmem n i).mpr (.inl hi),by rw [hkeep n i hi,he]⟩
      · rintro ⟨i,hi,he⟩
        rcases (hmem n i).mp hi with hi | ⟨rfl,rfl⟩
        · exact ⟨i,hi,by rw [← hkeep n i hi,he]⟩
        · exact absurd (by rw [← he,hxid]) hk
  · intro n i hi p hp
    rcases (hmem n i).mp hi with hi | ⟨rfl,rfl⟩
    · rw [hkeep n i hi] at hp ⊢
      have hk : (n,(s.xact i).xid)≠(node,xid) := by
        intro hk
        cases hk
        exact habsent i hi rfl
      rw [update_of_ne hk] at hp
      exact h.reply n i hi p hp
    · rw [hxid,update_self] at hp
      cases hp

theorem commit (h : Sim s t) {b : List Byte} (hr : r∈s.list .remoteOriginator node)
    (hb : (s.xact r).secondSeq.pkbuf=some b) :
    ∃ u,next t (.committed (node,(s.xact r).xid) (node,b))=some u ∧ Sim s u := by
  have hsome:=(h.table node (s.xact r).xid).mpr ⟨r,hr,rfl⟩
  obtain ⟨o,ho⟩ := isSome_iff_exists.mp hsome
  cases o with
  | some p =>
    obtain ⟨b',hp,hb'⟩ := h.reply node r hr p ho
    have heq : (node,b)=p := by
      rw [hb] at hb'
      rw [hp,some.inj hb']
    refine ⟨t,?_,h⟩
    apply next_self
    simp only [Label.key,ho,answer,if_pos heq]
  | none =>
    refine ⟨update t (node,(s.xact r).xid) (some (some (node,b))),?_,h.toHeap,
      h.unique,h.held,?_,?_⟩
    · simp [next,Label.key,ho,answer]
    · intro n y
      by_cases hk : (n,y)=(node,(s.xact r).xid)
      · cases hk
        rw [update_self]
        simp only [isSome_some,true_iff]
        exact ⟨r,hr,rfl⟩
      · rw [update_of_ne hk]
        exact h.table n y
    · intro n i hi p hp
      by_cases hk : (n,(s.xact i).xid)=(node,(s.xact r).xid)
      · rw [hk,update_self] at hp
        have hn : n=node := congrArg Prod.fst hk
        subst hn
        have hir : i=r := h.unique n i hi r hr (congrArg Prod.snd hk)
        cases hp
        rw [hir]
        exact ⟨b,rfl,hb⟩
      · rw [update_of_ne hk] at hp
        exact h.reply n i hi p hp

theorem expire (h : Sim s t) (hr : r∈s.list .remoteOriginator node) :
    ∃ u,next t (.expired (node,(s.xact r).xid))=some u ∧ Sim (s.delete r) u := by
  have hsome:=(h.table node (s.xact r).xid).mpr ⟨r,hr,rfl⟩
  obtain ⟨o,ho⟩ := isSome_iff_exists.mp hsome
  have hmem : ∀ n i,i∈(s.delete r).list .remoteOriginator n ↔
      i≠r ∧ i∈s.list .remoteOriginator n := fun n i => h.mem_delete hr
  refine ⟨update t (node,(s.xact r).xid) none,?_,h.toHeap.delete hr,?_,?_,?_,?_⟩
  · cases o <;> simp [next,Label.key,ho,answer]
  · intro n i hi j hj he
    exact h.unique n i ((hmem n i).mp hi).2 j ((hmem n j).mp hj).2 he
  · intro n i hi
    exact h.held n i ((hmem n i).mp hi).2
  · intro n y
    by_cases hk : (n,y)=(node,(s.xact r).xid)
    · cases hk
      rw [update_self]
      simp only [isSome_none,Bool.false_eq_true,false_iff,not_exists,not_and]
      intro i hi he
      obtain ⟨hne,hi⟩ := (hmem node i).mp hi
      exact hne (h.unique node i hi r hr he)
    · rw [update_of_ne hk,h.table]
      constructor
      · rintro ⟨i,hi,he⟩
        refine ⟨i,(hmem n i).mpr ⟨?_,hi⟩,he⟩
        rintro rfl
        have hn:=(h.listed _ n i hi).2.symm.trans (h.listed _ node i hr).2
        exact hk (by rw [hn,← he])
      · rintro ⟨i,hi,he⟩
        exact ⟨i,((hmem n i).mp hi).2,he⟩
  · intro n i hi p hp
    obtain ⟨hne,hi⟩ := (hmem n i).mp hi
    have hk : (n,(s.xact i).xid)≠(node,(s.xact r).xid) := by
      intro hk
      have hn : n=node := congrArg Prod.fst hk
      subst hn
      exact hne (h.unique n i hi r hr (congrArg Prod.snd hk))
    have hsame : (s.delete r).xact i=s.xact i := rfl
    rw [hsame,update_of_ne hk] at hp
    exact h.reply n i hi p hp

theorem delete_local (h : Sim s t) (hr : r∈s.list .localOriginator node) :
    Sim (s.delete r) t := by
  refine h.congr (h.toHeap.delete hr) ?_ fun _ _ _ => rfl
  intro n
  rw [h.delete_list hr]
  refine List.erase_of_not_mem fun hmem => ?_
  have horg:=(h.listed _ n r hmem).1.symm.trans (h.listed _ node r hr).1
  cases horg

end Sim

def Follows (t : Table Request Packet) (L : List (Label Request Packet))
    (o : Outcome Layer Result) : Prop :=
  ∃ u,run t L=some u ∧ o.Leaves (fun s => Sim s u) fun _ => True

section Calls

variable {rc : Rcounts} {s s' : Layer} {t : Table Request Packet} {node r : Nat} {h : Header}
  {timers : Nat} {a : Result} {l : Label Request Packet}

theorem follows_nil (hs : Sim s t) : Follows t [] (.ok s a) := ⟨t,rfl,hs⟩

theorem follows_abort : Follows t [] (.abort s') := ⟨t,rfl,trivial⟩

theorem follows_one (hs : ∃ u,next t l=some u ∧ Sim s u) : Follows t [l] (.ok s a) := by
  obtain ⟨u,hu,hs⟩ := hs
  exact ⟨u,by simp [run,hu],hs⟩

theorem follows_deliver_held (hs : Sim s t) (hr : r∈s.list .remoteOriginator node)
    (hsame : (s.xact r).firstSeq.type=h.type) (hstage : getStage h.type = .initial)
    (hxid : (s.xact r).xid=sqnToXid h.sqn) :
    Follows t (label s (.receive node h timers) (s.deliver r h.type)) (s.deliver r h.type) := by
  obtain ⟨ho,hn⟩ := hs.listed _ node r hr
  have hrx:=Xact.updateRx_held ho (hs.held node r hr)
  rw [hsame] at hrx
  unfold deliver
  cases hu : (s.xact r).updateRx h.type with
  | abort x => exact follows_abort
  | ok x a =>
    rw [hu] at hrx
    obtain ⟨hk,rfl⟩ := hrx
    simp only [label,if_pos hstage]
    rw [hk.node,hn,← hxid]
    -- a copy changes nothing but the holding timer
    have hsome:=(hs.table node (s.xact r).xid).mpr ⟨r,hr,rfl⟩
    obtain ⟨o,ho⟩ := isSome_iff_exists.mp hsome
    refine follows_one ⟨t,next_self ?_,hs.setXact hk⟩
    cases o with
    | none => simp only [Label.key,ho,answer]
    | some p =>
      obtain ⟨b,rfl,hb⟩ := hs.reply node r hr p ho
      simp [Label.key,ho,answer,hb]

theorem follows_deliver_new (hs : Sim s t)
    (hid : s.pool.findById (nextId s.pool.id 1 maxPoolId)=none)
    (hnone : t (node,sqnToXid h.sqn)=none) (hstage : getStage h.type = .initial) :
    Follows t
      (label s (.receive node h timers)
        ((s.remoteCreate rc node h.sqn timers).bind fun t r => t.deliver r h.type))
      ((s.remoteCreate rc node h.sqn timers).bind fun t r => t.deliver r h.type) := by
  have hcreate:=hs.toHeap.create rc hid .remoteOriginator (sqnToXid h.sqn) node timers
  unfold remoteCreate
  cases hc : Layer.create rc s .remoteOriginator (sqnToXid h.sqn) node timers with
  | abort u => exact follows_abort
  | ok u r =>
    rw [hc] at hcreate
    obtain ⟨hheap,hnew,hx,hlist,id,index,hr⟩ := hcreate
    have hrx:=updateRx_new rc id index node (sqnToXid h.sqn) hstage
    simp only [Outcome.bind_ok]
    unfold deliver
    rw [hr]
    cases hu : (Xact.create rc id index .remoteOriginator (sqnToXid h.sqn) node).updateRx h.type with
    | abort x => exact follows_abort
    | ok x a =>
      rw [hu] at hrx
      obtain ⟨hsame,hheld,hempty,rfl⟩ := hrx
      simp only [label,if_pos hstage]
      refine follows_one (hs.deliver (hheap.setXact (hr ▸ hsame)) hnone (fun n => hnew _ n) ?_ ?_ ?_ ?_)
      · intro n
        rw [setXact_list,hlist]
        simp
      · intro i hi
        rw [setXact_of_ne hi,hx i hi]
      · rw [setXact_self,hsame.xid]
        rfl
      · rw [setXact_self]
        exact hheld

theorem sim_deliver_stray (hs : Sim s t)
    (hid : s.pool.findById (nextId s.pool.id 1 maxPoolId)=none)
    (hstage : getStage h.type ≠ .initial) :
    ((s.remoteCreate rc node h.sqn timers).bind fun t r => t.deliver r h.type).Returns
      fun s' _ => Sim s' t := by
  have hcreate:=hs.toHeap.create rc hid .remoteOriginator (sqnToXid h.sqn) node timers
  unfold remoteCreate
  refine hcreate.bind ?_
  rintro u r ⟨hheap,hnew,hx,hlist,id,index,hr⟩
  unfold deliver
  rw [hr,updateRx_stray hstage,← hr]
  have hmem : r∈u.list .remoteOriginator node := by
    rw [hlist,if_pos ⟨rfl,rfl⟩]
    simp
  have hsame : u.setXact r (u.xact r)=u := by
    unfold Layer.setXact
    rw [update_eq_self]
  show Sim ((u.setXact r (u.xact r)).delete r) t
  rw [hsame]
  refine hs.congr (hheap.delete hmem) ?_ ?_
  · intro n
    rw [hheap.delete_list hmem,hlist]
    split
    · rw [List.erase_append_right _ (hnew _ n)]
      simp
    · exact List.erase_of_not_mem (hnew _ n)
  · intro n i hi
    refine hx i ?_
    rintro rfl
    exact hnew _ n hi

theorem sim_deliver_local (hs : Sim s t) (hr : r∈s.list .localOriginator node) (type : Byte) :
    (s.deliver r type).Returns fun s' _ => Sim s' t := by
  have hrx:=Xact.updateRx_local (hs.listed _ node r hr).1 type
  unfold deliver
  cases hu : (s.xact r).updateRx type with
  | abort x => exact Outcome.returns_abort
  | ok x a =>
    rw [hu] at hrx
    have hset:=hs.setXact hrx
    obtain ⟨rv,sent⟩ := a
    cases rv with
    | ok => exact hset
    | error => exact Sim.delete_local hset hr
    | retry => exact hset

theorem Follows.of_returns {o : Outcome Layer Result} (ho : o.Returns fun s' _ => Sim s' t) :
    Follows t [] o := by
  cases o with
  | ok s' a => exact follows_nil ho
  | abort s' => exact follows_abort

theorem follows_receive (hs : Sim s t) (hsame : SameRequest s (.receive node h timers))
    (hid : FreshId s (.receive node h timers)) :
    Follows t (label s (.receive node h timers) (s.receive rc node h timers))
      (s.receive rc node h timers) := by
  unfold Layer.receive
  cases hstage : getStage h.type with
  | unknown =>
    simp only [listOf,label,hstage]
    exact follows_nil hs
  | intermediate => exact absurd hstage (getStage_ne_intermediate _)
  | initial =>
    simp only [listOf]
    cases hf : s.findByXid (s.list .remoteOriginator node) (sqnToXid h.sqn) with
    | some r =>
      obtain ⟨hr,hxid⟩ := findByXid_mem hf
      exact follows_deliver_held hs hr (hsame hstage r hf) hstage hxid
    | none =>
      have hfresh:=hid _ (by rw [hstage]; rfl) hf
      exact follows_deliver_new hs hfresh (hs.find_none hf) hstage
  | final =>
    have hne : getStage h.type ≠ .initial := by
      rw [hstage]
      decide
    have hlabel : ∀ o,label s (.receive node h timers) o=[] := by
      intro o
      cases o with
      | ok s' a => simp only [label,if_neg hne]
      | abort s' => rfl
    simp only [listOf,hlabel]
    cases hf : s.findByXid (s.list .localOriginator node) (sqnToXid h.sqn) with
    | some r => exact .of_returns (sim_deliver_local hs (findByXid_mem hf).1 h.type)
    | none =>
      have hfresh:=hid _ (by rw [hstage]; rfl) hf
      exact .of_returns (sim_deliver_stray hs hfresh hne)

theorem sim_set_local (hs : Sim s t) (hr : r∈s.list .localOriginator node) {x : Xact}
    (hx : (s.xact r).Same x) : Sim (s.setXact r x) t :=
  hs.setXact (.of_local hx (hs.listed _ node r hr).1)

theorem sim_commit_local (hs : Sim s t) (hr : r∈s.list .localOriginator node)
    {o : Outcome Layer Result} (ho : s.commit r=some o) : o.Returns fun s' _ => Sim s' t := by
  unfold Layer.commit at ho
  cases hlast : (s.xact r).lastSeq with
  | none => simp [hlast] at ho
  | some last =>
    simp only [hlast] at ho
    cases hc : (s.xact r).commit last.type with
    | delete rv =>
      simp only [hc,some.injEq] at ho
      subst ho
      exact hs.delete_local hr
    | send b =>
      simp only [hc] at ho
      cases hp : last.pkbuf with
      | none =>
        simp only [hp,some.injEq] at ho
        subst ho
        exact Outcome.returns_abort
      | some p =>
        simp only [hp,some.injEq] at ho
        subst ho
        exact sim_set_local hs hr ⟨rfl,rfl,rfl,rfl⟩

theorem commit_remote (hs : Sim s t) (hr : r∈s.list .remoteOriginator node)
    (hstep : (s.xact r).step≠1) :
    ∃ x b,s.commit r=some (.ok (s.setXact r x) ⟨.ok,none,some (node,b)⟩) ∧
      (s.xact r).Keeps x ∧ (s.xact r).secondSeq.pkbuf=some b := by
  obtain ⟨horg,hnode⟩ := hs.listed _ node r hr
  obtain ⟨_,_,hresp⟩ := hs.held node r hr
  rcases hresp with ⟨h1,_⟩ | ⟨h2,hfinal,hsome⟩
  · exact absurd h1 hstep
  obtain ⟨b,hb⟩ := isSome_iff_exists.mp hsome
  have hlast : (s.xact r).lastSeq=some (s.xact r).secondSeq := by
    simp [Xact.lastSeq,h2]
  have hc : (s.xact r).commit (s.xact r).secondSeq.type = .send false := by
    simp [Xact.commit,horg,hfinal,h2]
  refine ⟨{ s.xact r with tmResponse := (s.xact r).tmResponse || false },b,?_,
    Xact.Keeps.of_seq ⟨rfl,rfl,rfl,rfl⟩ rfl rfl (Bool.or_false _),hb⟩
  unfold Layer.commit
  rw [← hnode]
  simp only [hlast,hc,hb]

theorem follows_commit (hs : Sim s t) (hr : r∈s.list (s.xact r).org (s.xact r).node)
    (hstep : (s.xact r).org = .remoteOriginator → (s.xact r).step≠1) {o : Outcome Layer Result}
    (ho : s.commit r=some o) : Follows t (commitLabels s r o) o := by
  cases horg : (s.xact r).org with
  | localOriginator =>
    rw [horg] at hr
    simp only [commitLabels,horg]
    exact .of_returns (sim_commit_local hs hr ho)
  | remoteOriginator =>
    rw [horg] at hr
    obtain ⟨x,b,hc,hk,hb⟩ := commit_remote hs hr (hstep horg)
    rw [hc] at ho
    cases ho
    simp only [commitLabels,horg]
    obtain ⟨u,hu,hsu⟩ := hs.commit hr hb
    exact follows_one ⟨u,hu,hsu.setXact hk⟩

theorem sim_responseExpired (hs : Sim s t) (hr : r∈s.list .localOriginator node)
    {o : Outcome Layer Result} (ho : s.responseExpired r=some o) :
    o.Returns fun s' _ => Sim s' t := by
  unfold Layer.responseExpired at ho
  simp only at ho
  split at ho
  · split at ho
    · cases ho
    · split at ho
      · cases ho
        exact sim_set_local hs hr ⟨rfl,rfl,rfl,rfl⟩
      · cases ho
        exact Outcome.returns_abort
  · cases ho
    have hset : Sim (s.setXact r
        { s.xact r with responseRcount := (s.xact r).responseRcount-1 }) t :=
      sim_set_local hs hr ⟨rfl,rfl,rfl,rfl⟩
    exact hset.delete_local hr

theorem follows_holdingExpired (hs : Sim s t) (hr : r∈s.list (s.xact r).org (s.xact r).node)
    {o : Outcome Layer Result} (ho : s.holdingExpired r=some o) :
    Follows t
      (if (s.xact r).org = .remoteOriginator ∧ (s.xact r).holdingRcount-1=0 then
        [.expired ((s.xact r).node,(s.xact r).xid)] else []) o := by
  unfold Layer.holdingExpired at ho
  simp only at ho
  split at ho
  · rename_i hpos
    cases ho
    have hne : (s.xact r).holdingRcount-1≠0 := by
      intro he
      rw [he] at hpos
      exact absurd hpos (by decide)
    rw [if_neg fun h => hne h.2]
    exact follows_nil (hs.setXact (.of_seq ⟨rfl,rfl,rfl,rfl⟩ rfl rfl rfl))
  · rename_i hpos
    cases ho
    have hzero : (s.xact r).holdingRcount-1=0 := by
      by_contra hne
      exact hpos ((BitVec.pos_iff_ne_zero _).mpr hne)
    have hset : Sim (s.setXact r
        { s.xact r with holdingRcount := (s.xact r).holdingRcount-1 }) t :=
      hs.setXact (.of_seq ⟨rfl,rfl,rfl,rfl⟩ rfl rfl rfl)
    rcases (s.xact r).org.local_or_remote with horg | horg
    · rw [horg] at hr
      have hlocal : ¬ ((s.xact r).org = .remoteOriginator ∧ (s.xact r).holdingRcount-1=0) := by
        simp [horg]
      rw [if_neg hlocal]
      exact follows_nil (hset.delete_local hr)
    · rw [horg] at hr
      rw [if_pos ⟨horg,hzero⟩]
      have hexp:=hset.expire hr
      rw [setXact_self] at hexp
      exact follows_one hexp

theorem sim_localCreate (hs : Sim s t)
    (hid : s.pool.findById (nextId s.pool.id 1 maxPoolId)=none) :
    (s.localCreate rc node timers).Returns fun s' _ => Sim s' t := by
  unfold localCreate
  have hs' : Sim { s with xactId := nextId s.xactId 1 0x800000 } t :=
    hs.congr ⟨hs.split,hs.listed,hs.nodup,hs.byId⟩ (fun _ => rfl) fun _ _ _ => rfl
  have hcreate:=hs'.toHeap.create rc hid .localOriginator
    (BitVec.ofNat 32 (nextId s.xactId 1 0x800000)) node timers
  refine hcreate.mono ?_
  rintro s' r ⟨hheap,hnew,hx,hlist,_⟩
  refine hs'.congr hheap ?_ ?_
  · intro n
    rw [hlist,if_neg fun h => by cases h.1]
  · intro n i hi
    refine hx i ?_
    rintro rfl
    exact hnew _ n hi

theorem follows_step {e : Layer.Op} {o : Outcome Layer Result} (hs : Sim s t)
    (hc : SameRequest s e ∧ Answered s e ∧ FreshId s e) (ho : step rc s e=some o) :
    Follows t (label s e o) o := by
  obtain ⟨hsame,hans,hid⟩ := hc
  -- the callback of a timer finds the transaction whose timer it is
  have htimeout : ∀ r x f,r∈s.list (s.xact r).org (s.xact r).node →
      (s.setXact r x).timeout (s.xact r).id f=f (s.setXact r x) r := by
    intro r x f hr
    unfold timeout
    rw [setXact_pool,hs.byId _ _ r hr]
  cases e with
  | localCreate node timers =>
    simp only [step,some.injEq] at ho
    subst ho
    have hreturns : (s.localCreate rc node timers).Returns fun s' _ => Sim s' t :=
      sim_localCreate hs hid
    cases hc : s.localCreate rc node timers with
    | ok s' r =>
      rw [hc] at hreturns
      exact follows_nil hreturns
    | abort s' => exact follows_abort
  | receive node h timers =>
    simp only [step,some.injEq] at ho
    subst ho
    exact follows_receive hs hsame hid
  | updateTx r h body =>
    simp only [step] at ho
    split at ho
    · have hkeep:=(s.xact r).updateTx_keeps h body
      cases hu : (s.xact r).updateTx h body with
      | ok x rv =>
        rw [hu] at ho hkeep
        cases ho
        exact follows_nil (hs.setXact hkeep)
      | abort x =>
        rw [hu] at ho
        cases ho
        exact follows_abort
    · cases ho
  | commit r =>
    simp only [step] at ho
    split at ho
    · rename_i hlive
      exact follows_commit hs (hs.mem_of_live hlive) hans ho
    · cases ho
  | delayedCommit r =>
    simp only [step] at ho
    split at ho
    · cases ho
      exact follows_nil (hs.setXact (.of_seq ⟨rfl,rfl,rfl,rfl⟩ rfl rfl rfl))
    · cases ho
  | responseTimeout r =>
    simp only [step] at ho
    split at ho
    · rename_i hlive
      have hr:=hs.mem_of_live hlive.1
      rw [htimeout r _ _ hr] at ho
      rcases (s.xact r).org.local_or_remote with horg | horg
      · rw [horg] at hr
        have hset : Sim (s.setXact r { s.xact r with tmResponse := false }) t :=
          sim_set_local hs hr ⟨rfl,rfl,rfl,rfl⟩
        exact .of_returns (sim_responseExpired hset hr ho)
      · rw [horg] at hr
        -- nobody answers a response
        have hidle:=(hs.held _ r hr).idle
        rw [hlive.2] at hidle
        cases hidle
    · cases ho
  | holdingTimeout r =>
    simp only [step] at ho
    split at ho
    · rename_i hlive
      have hr:=hs.mem_of_live hlive.1
      rw [htimeout r _ _ hr] at ho
      have hset : Sim (s.setXact r { s.xact r with tmHolding := false }) t :=
        hs.setXact (.of_seq ⟨rfl,rfl,rfl,rfl⟩ rfl rfl rfl)
      have hfollows:=follows_holdingExpired hset (by rw [setXact_self]; exact hr) ho
      rw [setXact_self] at hfollows
      cases o with
      | ok s' a => exact hfollows
      | abort s' => exact follows_abort
    · cases ho
  | delayedCommitTimeout r =>
    simp only [step] at ho
    split at ho
    · rename_i hlive
      have hr:=hs.mem_of_live hlive.1
      rw [htimeout r _ _ hr] at ho
      have hset : Sim (s.setXact r { s.xact r with tmDelayedCommit := false }) t :=
        hs.setXact (.of_seq ⟨rfl,rfl,rfl,rfl⟩ rfl rfl rfl)
      have hfollows:=follows_commit hset (by rw [setXact_self]; exact hr)
        (by rw [setXact_self]; exact hans) ho
      unfold commitLabels at hfollows
      rw [setXact_self] at hfollows
      exact hfollows
    · cases ho

end Calls

/-- In every run in which the peers do not use a sequence number twice at a time, no transaction
of a peer is committed without its response and no id is given out twice at a time, each request
is delivered once until the holding timer of its transaction runs out, and each copy of it that
comes after the commit is answered with the committed response. -/
theorem delivered_once_run (rc : Rcounts) (size : Nat) (xact : Nat → Xact) (es : List Layer.Op)
    (hc : EachStep (step rc) (fun s e => SameRequest s e ∧ Answered s e ∧ FreshId s e)
      (init size xact) es) :
    AtMostOnce (emitted (step rc) label (init size xact) es) := by
  refine atMostOnce_of_sim ?_ (sim_init size xact) hc
  intro s t e o hs hc ho
  exact follows_step hs hc ho

def rc1 : Rcounts := ⟨3,1⟩
def noXact : Nat → Xact := fun _ => Xact.create rc1 0 0 .localOriginator 0 0

def establish : Header := ⟨50,0,0x100⟩
def established : Header := ⟨51,7,0⟩

def copies : List Layer.Op :=
  [.localCreate 0 9,.updateTx 0 ⟨1,0,0⟩ [],.commit 0,.receive 0 establish 9,
    .receive 0 establish 9,.updateTx 1 established [1,2],.commit 1,.receive 0 establish 9,
    .receive 0 ⟨2,0,0x100⟩ 9,.commit 0,.holdingTimeout 1,.receive 0 establish 9]

theorem delivered_once_run_copies :
    AtMostOnce (emitted (step rc1) label (init 4 noXact) copies) ∧
      emitted (step rc1) label (init 4 noXact) copies =
        [.delivered (0,1),.dropped (0,1) none,
          .committed (0,1) (0,[0x21,51,0,14,0,0,0,0,0,0,0,7,0,0,1,0,1,2]),
          .dropped (0,1) (some (0,[0x21,51,0,14,0,0,0,0,0,0,0,7,0,0,1,0,1,2])),
          .expired (0,1),.delivered (0,1)] :=
  ⟨delivered_once_run rc1 4 noXact copies (by decide),by decide⟩

theorem committed_unanswered :
    EachStep (step rc1) SameRequest (init 4 noXact)
        [.receive 0 establish 9,.commit 0,.receive 0 establish 9] ∧
      ¬ AtMostOnce (emitted (step rc1) label (init 4 noXact)
        [.receive 0 establish 9,.commit 0,.receive 0 establish 9]) := by
  refine ⟨by decide,?_⟩
  intro h
  have hlabels : emitted (step rc1) label (init 4 noXact)
      [.receive 0 establish 9,.commit 0,.receive 0 establish 9] =
        [.delivered (0,1),.delivered (0,1)] := by decide
  rw [hlabels] at h
  have hbetween:=h.once (0,1) [] [] [] rfl
  cases hbetween

/-! The counter of the pool comes round while the first transaction is alive, and the second gets
its id: the holding timer of the first then ends the second. -/

def stray : Layer.Op := .receive 0 ⟨2,0,0x900⟩ 9

def held (id index : Nat) (xid : BitVec 32) : Xact where
  id := id
  index := index
  org := .remoteOriginator
  xid := xid
  node := 0
  step := 1
  seq := #v[⟨50,none⟩,⟨0,none⟩,⟨0,none⟩]
  tmResponse := false
  responseRcount := 3
  tmHolding := true
  holdingRcount := 1
  tmDelayedCommit := false

/-- Node 0 of a pool of two holds transaction 1 under id 1, and `k` ids were given out. -/
structure Alone (k : Nat) (s : Layer) : Prop where
  split : Pool.Split s.pool [1] [0]
  id : s.pool.id=k
  idHash : s.pool.idHash=update (fun _ => none) 1 (some 0)
  remote : s.list .remoteOriginator 0=[0]
  mine : s.list .localOriginator 0=[]
  first : s.xact 0=held 1 1 1

-- `s` after transaction `xid` of the peer got node `r` and the id `id`.
def withRequest (s : Layer) (p : Pool) (r id : Nat) (xid : BitVec 32) : Layer :=
  ({ s with pool := p }.setXact r (held id (r+1) xid)).setList .remoteOriginator 0
    (s.list .remoteOriginator 0++[r])

theorem deliver_new {s : Layer} {p : Pool} {r id : Nat} (sqn : BitVec 32)
    (hp : s.pool.idCalloc=(p,some (r,id)))
    (hf : s.findByXid (s.list .remoteOriginator 0) (sqnToXid sqn)=none) :
    step rc1 s (.receive 0 ⟨50,0,sqn⟩ 9) =
      some (.ok (withRequest s p r id (sqnToXid sqn)) ⟨.ok,some r,none⟩) := by
  have hstage : getStage 50 = .initial := by decide
  have hrx : (Xact.create rc1 id (Pool.poolIndex r) .remoteOriginator (sqnToXid sqn) 0).updateRx 50 =
      .ok (held id (r+1) (sqnToXid sqn)) (.ok,none) := rfl
  simp only [step,Layer.receive,hstage,listOf,hf,remoteCreate]
  rw [create_eq (by decide) hp]
  simp only [Outcome.bind_ok,deliver]
  rw [setList_xact,setXact_self,hrx]
  simp [withRequest,Layer.setXact,setList]

theorem withRequest_list {s : Layer} {p : Pool} {r id : Nat} {xid : BitVec 32} (o : Org) (n : Nat) :
    (withRequest s p r id xid).list o n =
      if o = .remoteOriginator ∧ n=0 then s.list .remoteOriginator 0++[r] else s.list o n :=
  list_update ..

theorem alone_delete {s t : Layer} {k : Nat} {x : Xact} (hs : Alone k s)
    (hsplit : Pool.Split t.pool [] [0,1])
    (hhash : t.pool.idHash=update s.pool.idHash x.id (some 1)) (hid : t.pool.id=x.id)
    (hfresh : x.id≠1) (hx : t.xact 1=x) (horg : x.org = .remoteOriginator) (hnode : x.node=0)
    (hremote : t.list .remoteOriginator 0=[0,1]) (hmine : t.list .localOriginator 0=[])
    (hfirst : t.xact 0=s.xact 0) : Alone x.id (t.delete 1) where
  split := by
    have hfree:=hsplit.idFree (n := 1) (by decide) (t.xact 1).id
    exact hfree
  id := by
    show (t.pool.idFree 1 (t.xact 1).id).id=x.id
    rw [Pool.idFree_id,hid]
  idHash := by
    show (t.pool.idFree 1 (t.xact 1).id).idHash=_
    rw [Pool.idFree_idHash,hhash,hx,update_idem,← hs.idHash]
    refine update_eq_self_iff.mpr ?_
    rw [hs.idHash,update_of_ne hfresh]
  remote := by
    rw [delete_list,hx,horg,hnode,hremote]
    rfl
  mine := by
    rw [delete_list,hx,horg,if_neg (by simp)]
    exact hmine
  first := hfirst.trans hs.first

theorem stray_step {s : Layer} {k : Nat} (hs : Alone k s) (hk : 0<k) (hmax : k < maxPoolId) :
    ∃ s' a,step rc1 s stray=some (.ok s' a) ∧ Alone (k+1) s' := by
  obtain ⟨p,hp,hsplit,_,hid⟩ := hs.split.idCalloc
  have hnext : nextId s.pool.id 1 maxPoolId=k+1 := by
    unfold nextId
    rw [hs.id,if_neg (by omega)]
  rw [hnext] at hp hid
  have hhash:=Pool.idCalloc_idHash hp
  have hstage : getStage 2 = .final := by decide
  have hxid : sqnToXid 0x900=9 := by decide
  have hrx : (Xact.create rc1 (k+1) (Pool.poolIndex 1) .remoteOriginator 9 0).updateRx 2 =
      .ok (Xact.create rc1 (k+1) (Pool.poolIndex 1) .remoteOriginator 9 0) (.error,none) := rfl
  let x:=Xact.create rc1 (k+1) (Pool.poolIndex 1) .remoteOriginator 9 0
  let t:=(({ s with pool := p }.setXact 1 x).setList .remoteOriginator 0
    (s.list .remoteOriginator 0++[1])).setXact 1 x
  refine ⟨t.delete 1,⟨.error,none,none⟩,?_,?_⟩
  · simp only [step,stray,Layer.receive,hstage,listOf,hxid,hs.mine,findByXid,List.find?_nil,
      remoteCreate]
    rw [create_eq (by decide) hp]
    simp only [Outcome.bind_ok,deliver]
    rw [setList_xact,setXact_self,hrx]
  · have htlist : ∀ o n,t.list o n =
        if o = .remoteOriginator ∧ n=0 then s.list .remoteOriginator 0++[1] else s.list o n := by
      intro o n
      show (({ s with pool := p }.setXact 1 x).setList .remoteOriginator 0 _).list o n=_
      exact list_update ..
    refine alone_delete (x := x) hs hsplit hhash hid ?_ setXact_self rfl rfl ?_ ?_ ?_
    · show k+1≠1
      omega
    · rw [htlist,if_pos ⟨rfl,rfl⟩,hs.remote]
      rfl
    · rw [htlist,if_neg (by simp)]
      exact hs.mine
    · show update (update s.xact 1 x) 1 x 0=s.xact 0
      simp

theorem stray_run {k : Nat} (n : Nat) {s : Layer} (hs : Alone k s) (hk : 0<k)
    (hmax : k+n ≤ maxPoolId) :
    ∃ s',Alone (k+n) s' ∧ ∀ es,
      emitted (step rc1) label s (List.replicate n stray++es)=emitted (step rc1) label s' es ∧
        (EachStep (step rc1) (fun s e => SameRequest s e ∧ Answered s e) s' es →
          EachStep (step rc1) (fun s e => SameRequest s e ∧ Answered s e) s
            (List.replicate n stray++es)) := by
  induction n generalizing k s with
  | zero => exact ⟨s,hs,fun es => ⟨rfl,id⟩⟩
  | succ n ih =>
    obtain ⟨s₁,a,hstep,hs₁⟩ := stray_step hs hk (by omega)
    obtain ⟨s',hs',hrun⟩ := ih hs₁ (by omega) (by omega)
    refine ⟨s',by rw [show k+(n+1)=k+1+n by omega]; exact hs',?_⟩
    intro es
    obtain ⟨hlabels,heach⟩ := hrun es
    have hstray : label s stray (.ok s₁ a)=[] := rfl
    refine ⟨?_,?_⟩
    · rw [List.replicate_succ,List.cons_append]
      simp only [emitted,hstep,hstray,List.nil_append]
      exact hlabels
    · intro he
      rw [List.replicate_succ,List.cons_append]
      simp only [EachStep,hstep]
      refine ⟨⟨?_,trivial⟩,heach he⟩
      intro h
      exact absurd h (by decide)

theorem alone_first : ∃ s a,step rc1 (init 2 noXact) (.receive 0 establish 9)=some (.ok s a) ∧
    Alone 1 s ∧ label (init 2 noXact) (.receive 0 establish 9) (.ok s a)=[.delivered (0,1)] := by
  obtain ⟨p,hp,hsplit,_,hid⟩ := (Pool.split_init 2).idCalloc
  have hhash:=Pool.idCalloc_idHash hp
  refine ⟨_,_,deliver_new (s := init 2 noXact) 0x100 hp rfl,?_,rfl⟩
  exact ⟨hsplit,hid,hhash,by rw [withRequest_list]; rfl,by rw [withRequest_list]; rfl,rfl⟩

theorem holdingTimeout_other {s : Layer} {r r' : Nat} (hr : s.Live r ∧ (s.xact r).tmHolding=true)
    (hf : s.pool.findById (s.xact r).id=some r') (hne : r'≠r)
    (hlast : (s.xact r').holdingRcount=1) :
    step rc1 s (.holdingTimeout r) =
      some (.ok (((s.setXact r { s.xact r with tmHolding := false }).setXact r'
        { s.xact r' with holdingRcount := 0 }).delete r') ⟨.ok,none,none⟩) := by
  simp only [step]
  rw [if_pos hr]
  unfold timeout
  rw [setXact_pool,hf]
  simp only [holdingExpired]
  rw [setXact_of_ne hne,hlast]
  rfl

theorem reused_id : ∃ es,
    EachStep (step rc1) (fun s e => SameRequest s e ∧ Answered s e) (init 2 noXact) es ∧
      ¬ AtMostOnce (emitted (step rc1) label (init 2 noXact) es) := by
  obtain ⟨s₁,a₁,hstep₁,hs₁,hlabel₁⟩ := alone_first
  obtain ⟨s₂,hs₂,hrun⟩ := stray_run (maxPoolId-1) hs₁ (by decide) (by decide)
  have hother : sqnToXid 0x200=2 := by decide
  -- the second request gets id 1
  obtain ⟨p,hp,hsplit,_,_⟩ := hs₂.split.idCalloc
  have hnext : nextId s₂.pool.id 1 maxPoolId=1 := by
    rw [hs₂.id]
    rfl
  rw [hnext] at hp
  have hhash:=Pool.idCalloc_idHash hp
  have hfind : ∀ s : Layer, s.list .remoteOriginator 0=[0] → (s.xact 0).xid=1 →
      s.findByXid (s.list .remoteOriginator 0) (sqnToXid 0x200)=none := by
    intro s hl hx
    rw [hl,hother]
    simp [findByXid,hx]
  have hstep₂:=deliver_new 0x200 hp (hfind s₂ hs₂.remote (by rw [hs₂.first]; rfl))
  have hlist₃ : (withRequest s₂ p 1 1 (sqnToXid 0x200)).list .remoteOriginator 0=[0,1] := by
    rw [withRequest_list,if_pos ⟨rfl,rfl⟩,hs₂.remote]
    rfl
  have hfirst₃ : (withRequest s₂ p 1 1 (sqnToXid 0x200)).xact 0=held 1 1 1 := hs₂.first
  have hsecond₃ : (withRequest s₂ p 1 1 (sqnToXid 0x200)).xact 1=held 1 2 2 := rfl
  have hpool₃ : (withRequest s₂ p 1 1 (sqnToXid 0x200)).pool=p := rfl
  generalize withRequest s₂ p 1 1 (sqnToXid 0x200)=s₃ at hstep₂ hlist₃ hfirst₃ hsecond₃ hpool₃
  -- the holding timer of the first finds the second
  have hlive : s₃.Live 0 := by
    show s₃.pool.index 0=some 0
    rw [hpool₃]
    exact hsplit.index_live 0 (by simp)
  have hfound : s₃.pool.findById (s₃.xact 0).id=some 1 := by
    show s₃.pool.idHash (s₃.xact 0).id=some 1
    rw [hfirst₃,hpool₃,hhash]
    exact update_self ..
  have hstep₃:=@holdingTimeout_other s₃ 0 1 ⟨hlive,by rw [hfirst₃]; rfl⟩
    hfound (by decide) (by rw [hsecond₃]; rfl)
  have hlabel₃ : ∀ s,label s₃ (.holdingTimeout 0) (.ok s ⟨.ok,none,none⟩)=[.expired (0,1)] := by
    intro s
    simp only [label,hfirst₃]
    rfl
  generalize hs₄ : Layer.delete _ 1=s₄ at hstep₃
  have hsplit₄ : Pool.Split s₄.pool [1] [0] := by
    rw [← hs₄]
    show Pool.Split (s₃.pool.idFree 1 _) _ _
    rw [hpool₃]
    exact hsplit.idFree (n := 1) (by decide) _
  have hlist₄ : s₄.list .remoteOriginator 0=[0] := by
    rw [← hs₄,delete_list,setXact_self,hsecond₃]
    show (s₃.list .remoteOriginator 0).erase 1=[0]
    rw [hlist₃]
    rfl
  have hxid₄ : (s₄.xact 0).xid=1 := by
    rw [← hs₄]
    show (((s₃.setXact 0 { s₃.xact 0 with tmHolding := false }).setXact 1
      { s₃.xact 1 with holdingRcount := 0 }).xact 0).xid=1
    rw [setXact_of_ne (by decide),setXact_self,hfirst₃]
    rfl
  obtain ⟨p₄,hp₄,_⟩ := hsplit₄.idCalloc
  have hstep₄:=deliver_new 0x200 hp₄ (hfind s₄ hlist₄ hxid₄)
  have hlabel : ∀ s s' r,label s (.receive 0 ⟨50,0,0x200⟩ 9) (.ok s' ⟨.ok,r,none⟩) =
      [.delivered (0,2)] := fun _ _ _ => rfl
  let es : List Layer.Op := [.receive 0 ⟨50,0,0x200⟩ 9,.holdingTimeout 0,.receive 0 ⟨50,0,0x200⟩ 9]
  obtain ⟨hlabels,heach⟩ := hrun es
  refine ⟨.receive 0 establish 9::(List.replicate (maxPoolId-1) stray++es),?_,?_⟩
  · simp only [EachStep,hstep₁]
    refine ⟨⟨by decide,trivial⟩,heach ?_⟩
    simp only [es,EachStep,hstep₂,hstep₃,hstep₄]
    refine ⟨⟨?_,trivial⟩,⟨trivial,trivial⟩,⟨?_,trivial⟩,trivial⟩
    · intro _ r hr
      rw [hfind s₂ hs₂.remote (by rw [hs₂.first]; rfl)] at hr
      cases hr
    · intro _ r hr
      rw [hfind s₄ hlist₄ hxid₄] at hr
      cases hr
  · intro h
    have hall : emitted (step rc1) label (init 2 noXact)
        (.receive 0 establish 9::(List.replicate (maxPoolId-1) stray++es)) =
          [.delivered (0,1),.delivered (0,2),.expired (0,1),.delivered (0,2)] := by
      simp only [emitted,hstep₁,hlabel₁]
      rw [hlabels]
      simp only [es,emitted,hstep₂,hstep₃,hstep₄,hlabel,hlabel₃]
      rfl
    rw [hall] at h
    have hbetween:=h.once (0,2) [.delivered (0,1)] [.expired (0,1)] [] rfl
    simp at hbetween

/-- Without either condition a request is delivered twice. -/
theorem delivered_twice :
    (EachStep (step rc1) SameRequest (init 4 noXact)
        [.receive 0 establish 9,.commit 0,.receive 0 establish 9] ∧
      ¬ AtMostOnce (emitted (step rc1) label (init 4 noXact)
        [.receive 0 establish 9,.commit 0,.receive 0 establish 9])) ∧
    ∃ es,EachStep (step rc1) (fun s e => SameRequest s e ∧ Answered s e) (init 2 noXact) es ∧
      ¬ AtMostOnce (emitted (step rc1) label (init 2 noXact) es) :=
  ⟨committed_unanswered,reused_id⟩

end OgsDp.Pfcp
