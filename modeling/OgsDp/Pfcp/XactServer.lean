import OgsDp.Pfcp.XactLists
import OgsDp.Pfcp.XactRequest

/-!
# The transactions of a server (lib/pfcp/xact.c)

All of them are requests of peers, each answered under its own number. The ids may wrap around: a
timer then ends another transaction than its own.
-/

namespace OgsDp.Pfcp
open Lib OgsDp.Core Function Option

namespace Xact

/-- A held request whose response is one to it. -/
structure Paired (x : Xact) : Prop extends x.Held where
  reply : ∀ p,x.secondSeq.pkbuf=some p →
    ∃ seid body,p=pushHeader (x.firstSeq.type+1) seid x.xid body

variable {x y : Xact} {type : Byte} {h : Header} {body : List Byte}

theorem Paired.of_seq (hx : x.Paired) (hxid : y.xid=x.xid) (hstep : y.step=x.step)
    (hseq : y.seq=x.seq) (htm : y.tmResponse=x.tmResponse) : y.Paired where
  request := by
    rw [firstSeq,hseq]
    exact hx.request
  idle := htm.trans hx.idle
  response := by
    rw [secondSeq,hseq,hstep]
    exact hx.response
  reply := by
    rw [secondSeq,firstSeq,hseq,hxid]
    exact hx.reply

def taken (x : Xact) (type : Byte) : Xact := { x with tmHolding := true }.save ⟨type,none⟩

variable {rc : Rcounts} {id index node : Nat} {xid : BitVec 32}

theorem taken_type :
    ((Xact.create rc id index .remoteOriginator xid node).taken type).firstSeq.type=type := by
  simp [taken,save,Xact.create,firstSeq]

theorem updateRx_taken (hstage : getStage type = .initial) :
    (Xact.create rc id index .remoteOriginator xid node).updateRx type =
      .ok ((Xact.create rc id index .remoteOriginator xid node).taken type) (.ok,none) := by
  have hne : (0 : Byte)≠type := by
    rintro rfl
    cases hstage
  unfold updateRx
  simp only [Xact.create,firstSeq,hstage,Vector.getElem_replicate,if_neg hne]
  rfl

theorem taken_paired (hstage : getStage type = .initial) :
    ((Xact.create rc id index .remoteOriginator xid node).taken type).Paired := by
  have hpkbuf : ((Xact.create rc id index .remoteOriginator xid node).taken type).secondSeq.pkbuf =
      none := by
    simp [taken,save,Xact.create,secondSeq]
  refine ⟨⟨?_,rfl,.inl ⟨rfl,hpkbuf⟩⟩,?_⟩
  · rw [taken_type]
    exact hstage
  · intro p hp
    rw [hpkbuf] at hp
    cases hp

theorem updateTx_response (ho : x.org = .remoteOriginator) (hstep : x.step=1)
    (hfinal : getStage h.type = .final) :
    x.updateTx h body = .ok (x.save ⟨h.type,some (pushHeader h.type h.seid x.xid body)⟩) .ok := by
  unfold updateTx
  rw [ho,hfinal]
  simp [hstep]

theorem save_secondSeq {q : Seq} (hstep : x.step=1) : (x.save q).secondSeq=q := by
  simp [save,secondSeq,hstep]

theorem save_firstSeq {q : Seq} (hstep : x.step=1) : (x.save q).firstSeq=x.firstSeq := by
  simp [save,firstSeq,hstep]

variable (body) in
theorem save_paired (hx : x.Paired) (hstep : x.step=1) (htype : h.type=x.firstSeq.type+1)
    (hfinal : getStage h.type = .final) :
    (x.save ⟨h.type,some (pushHeader h.type h.seid x.xid body)⟩).Paired where
  request := by
    rw [save_firstSeq hstep]
    exact hx.request
  idle := hx.idle
  response := by
    rw [save_secondSeq hstep]
    refine .inr ⟨?_,hfinal,rfl⟩
    show x.step+1=2
    omega
  reply := by
    intro p hp
    rw [save_secondSeq hstep] at hp
    rw [save_firstSeq hstep,← htype]
    exact ⟨h.seid,body,(some.inj hp).symm⟩

end Xact

structure Layer.Serves (s : Layer) : Prop extends s.Lists where
  remote : ∀ org node r,r∈s.list org node → org = .remoteOriginator ∧ (s.xact r).Paired
  byId : ∀ id r,s.pool.findById id=some r →
    (∃ org node,r∈s.list org node) ∧ (s.xact r).id=id

namespace Layer.Serves

variable {rc : Rcounts} {s : Layer} {node r : Nat} {x : Xact} {h : Header} {timers : Nat}

theorem init (size : Nat) (xact : Nat → Xact) : (Layer.init size xact).Serves where
  toLists := (init_heap size xact).lists
  remote := by simp [Layer.init]
  byId := by simp [Layer.init,Pool.init,Pool.findById]

theorem org (hs : s.Serves) (hr : r∈s.list .remoteOriginator node) :
    (s.xact r).org = .remoteOriginator :=
  (hs.listed _ node r hr).1

theorem node_eq (hs : s.Serves) (hr : r∈s.list .remoteOriginator node) :
    (s.xact r).node=node :=
  (hs.listed _ node r hr).2

theorem paired (hs : s.Serves) (hr : r∈s.list .remoteOriginator node) : (s.xact r).Paired :=
  (hs.remote _ node r hr).2

theorem setXact (hs : s.Serves) (hx : (s.xact r).Same x)
    (hp : ∀ org node,r∈s.list org node → x.Paired) : (s.setXact r x).Serves where
  toLists := hs.toLists.setXact hx
  remote := by
    intro org node i hi
    obtain ⟨ho,hpaired⟩ := hs.remote org node i hi
    refine ⟨ho,?_⟩
    by_cases he : i=r
    · subst he
      rw [setXact_self]
      exact hp org node hi
    · rw [setXact_of_ne he]
      exact hpaired
  byId := by
    intro id i hi
    obtain ⟨hmem,hid⟩ := hs.byId id i hi
    exact ⟨hmem,(setXact_same hx i).id.trans hid⟩

theorem delete {org : Org} (hs : s.Serves) (hr : r∈s.list org node) : (s.delete r).Serves where
  toLists := hs.toLists.delete hr
  remote := by
    intro o n i hi
    exact hs.remote o n i ((hs.mem_delete hr).mp hi).2
  byId := by
    intro id i hi
    have hhash : (s.delete r).pool.findById id =
        update s.pool.idHash (s.xact r).id none id := by
      show (s.pool.idFree r (s.xact r).id).idHash id=_
      rw [Pool.idFree_idHash]
    rw [hhash] at hi
    by_cases hne : id=(s.xact r).id
    · rw [hne,update_self] at hi
      cases hi
    · rw [update_of_ne hne] at hi
      obtain ⟨⟨o,n,hmem⟩,hid⟩ := hs.byId id i hi
      refine ⟨⟨o,n,(hs.mem_delete hr).mpr ⟨?_,hmem⟩⟩,hid⟩
      intro he
      exact hne (by rw [← hid,he])

variable (rc timers) in
theorem receive_new (hs : s.Serves) (hstage : getStage h.type = .initial)
    (hf : s.findByXid (s.list .remoteOriginator node) (sqnToXid h.sqn)=none) :
    (s.receive rc node h timers).Returns fun t a => t.Serves ∧
      ∃ r∈t.list .remoteOriginator node,a=⟨.ok,some r,none⟩ ∧
        (t.xact r).xid=sqnToXid h.sqn ∧ (t.xact r).firstSeq.type=h.type ∧
          (t.xact r).step=1 := by
  unfold receive
  rw [hstage]
  simp only [listOf,hf]
  apply (hs.toLists.create rc _ _ node timers).bind
  intro t r ⟨hlists,hnew,hx,hlist,⟨id,index,hcreate⟩,hhash,hid⟩
  have hmem : r∈t.list .remoteOriginator node := by
    rw [hlist,if_pos ⟨rfl,rfl⟩]
    exact List.mem_append_right _ (List.mem_singleton_self r)
  have hmemT : ∀ o n i,i∈t.list o n → i∈s.list o n ∨ (i=r ∧ o = .remoteOriginator) := by
    intro o n i hi
    rw [hlist] at hi
    split at hi
    · rename_i ho
      simpa [ho.1] using hi
    · exact .inl hi
  unfold deliver
  rw [hcreate,Xact.updateRx_taken hstage]
  simp only [Outcome.returns_ok]
  generalize hy : (Xact.create rc id index Org.remoteOriginator (sqnToXid h.sqn) node).taken
    h.type=y
  have hyid : y.id=nextId s.pool.id 1 maxPoolId := by
    rw [← hid,hcreate,← hy]
    rfl
  have hpaired : y.Paired := hy ▸ Xact.taken_paired hstage
  refine ⟨⟨hlists.setXact ?_,?_,?_⟩,r,hmem,rfl,?_⟩
  · rw [hcreate,← hy]
    exact ⟨rfl,rfl,rfl,rfl⟩
  · intro o n i hi
    rcases hmemT o n i hi with hold | ⟨rfl,ho⟩
    · have hne : i≠r := by
        rintro rfl
        exact hnew o n hold
      rw [setXact_of_ne hne,hx i hne]
      exact hs.remote o n i hold
    · rw [setXact_self]
      exact ⟨ho,hpaired⟩
  · intro k i hi
    have hi' : update s.pool.idHash (nextId s.pool.id 1 maxPoolId) (some r) k =
        some i := hhash ▸ hi
    by_cases hk : k=nextId s.pool.id 1 maxPoolId
    · rw [hk,update_self] at hi'
      obtain rfl := some.inj hi'
      rw [setXact_self,hk]
      exact ⟨⟨_,_,hmem⟩,hyid⟩
    · rw [update_of_ne hk] at hi'
      obtain ⟨⟨o,n,hold⟩,hki⟩ := hs.byId k i hi'
      have hne : i≠r := by
        rintro rfl
        exact hnew o n hold
      rw [setXact_of_ne hne,hx i hne]
      refine ⟨⟨o,n,?_⟩,hki⟩
      show i∈t.list o n
      rw [hlist]
      split
      · exact List.mem_append_left _ hold
      · exact hold
  · rw [setXact_self,← hy]
    exact ⟨rfl,Xact.taken_type,rfl⟩

variable (rc timers) in
theorem receive_copy (hs : s.Serves) (hstage : getStage h.type = .initial)
    (hf : s.findByXid (s.list .remoteOriginator node) (sqnToXid h.sqn)=some r)
    (htype : (s.xact r).firstSeq.type=h.type) :
    (s.receive rc node h timers).Returns fun t a => t.Serves ∧ t.list=s.list ∧
      (s.xact r).Same (t.xact r) ∧ (t.xact r).seq=(s.xact r).seq ∧
      (t.xact r).step=(s.xact r).step ∧
      a=⟨.retry,none,(s.xact r).secondSeq.pkbuf.map fun p => (node,p)⟩ := by
  obtain ⟨hr,-⟩ := findByXid_mem hf
  have hpaired:=hs.paired hr
  unfold receive
  rw [hstage]
  simp only [listOf,hf]
  unfold deliver
  rw [← htype,Xact.updateRx_copy (hs.org hr) hpaired.toHeld]
  unfold Xact.duplicated
  cases hp : (s.xact r).secondSeq.pkbuf with
  | none =>
    refine ⟨hs.setXact ⟨rfl,rfl,rfl,rfl⟩ fun _ _ _ => hpaired,rfl,?_⟩
    rw [setXact_self]
    exact ⟨⟨rfl,rfl,rfl,rfl⟩,rfl,rfl,rfl⟩
  | some p =>
    refine ⟨hs.setXact ⟨rfl,rfl,rfl,rfl⟩ fun _ _ _ => hpaired.of_seq rfl rfl rfl rfl,rfl,?_⟩
    rw [setXact_self]
    refine ⟨⟨rfl,rfl,rfl,rfl⟩,rfl,rfl,?_⟩
    simp only [map_some,hs.node_eq hr]

variable (rc timers) in
theorem receive_other (hs : s.Serves) (hstage : getStage h.type = .initial)
    (hf : s.findByXid (s.list .remoteOriginator node) (sqnToXid h.sqn)=some r)
    (hne : (s.xact r).firstSeq.type≠h.type) :
    (s.receive rc node h timers).Returns fun t a => t.Serves ∧ a=⟨.error,none,none⟩ := by
  obtain ⟨hr,-⟩ := findByXid_mem hf
  have hpaired:=hs.paired hr
  unfold receive
  rw [hstage]
  simp only [listOf,hf]
  unfold deliver
  rw [Xact.updateRx_other (hs.org hr) hpaired.toHeld hstage hne]
  refine ⟨?_,rfl⟩
  apply (hs.setXact ⟨rfl,rfl,rfl,rfl⟩ fun _ _ _ => hpaired).delete
  exact hr

theorem commit_response {type : Byte} {p : List Byte} (ho : (s.xact r).org = .remoteOriginator)
    (hstep : (s.xact r).step=2) (hseq : (s.xact r).secondSeq=⟨type,some p⟩)
    (hfinal : getStage type = .final) :
    s.commit r=some (.ok s ⟨.ok,none,some ((s.xact r).node,p)⟩) := by
  have hlast : (s.xact r).lastSeq=some ⟨type,some p⟩ := by
    unfold Xact.lastSeq
    rw [hstep,← hseq]
    rfl
  have hcommit : (s.xact r).commit type = .send false := by
    unfold Xact.commit
    rw [ho,hfinal]
    simp [hstep]
  have hsame : s.setXact r (s.xact r)=s := by
    unfold Layer.setXact
    rw [update_eq_self]
  unfold Layer.commit
  simp only [hlast,hcommit,Bool.or_false]
  rw [hsame]

theorem holdingTimeout (hs : s.Serves) {o : Outcome Layer Result}
    (ho : step rc s (.holdingTimeout r)=some o) : o.Returns fun t _ => t.Serves := by
  simp only [step] at ho
  split at ho
  · have hs₁ : (s.setXact r { s.xact r with tmHolding := false }).Serves :=
      hs.setXact ⟨rfl,rfl,rfl,rfl⟩ fun org node hr =>
        (hs.remote org node r hr).2.of_seq rfl rfl rfl rfl
    revert ho
    generalize (s.setXact r { s.xact r with tmHolding := false })=t at hs₁
    generalize (s.xact r).id=id
    intro ho
    unfold timeout at ho
    cases hi : t.pool.findById id with
    | none =>
      rw [hi] at ho
      cases ho
      exact hs₁
    | some i =>
      rw [hi] at ho
      obtain ⟨⟨org,node,hmem⟩,-⟩ := hs₁.byId id i hi
      have hpaired:=(hs₁.remote org node i hmem).2
      simp only [holdingExpired] at ho
      split at ho
      · cases ho
        exact hs₁.setXact ⟨rfl,rfl,rfl,rfl⟩ fun _ _ _ => hpaired.of_seq rfl rfl rfl rfl
      · cases ho
        have hs₂:=hs₁.setXact (x := { t.xact i with
          holdingRcount := (t.xact i).holdingRcount-1 }) ⟨rfl,rfl,rfl,rfl⟩
          fun _ _ _ => hpaired.of_seq rfl rfl rfl rfl
        have hmem₂ : i∈(t.setXact i { t.xact i with
            holdingRcount := (t.xact i).holdingRcount-1 }).list org node := hmem
        exact hs₂.delete hmem₂
  · cases ho

end Layer.Serves

end OgsDp.Pfcp
