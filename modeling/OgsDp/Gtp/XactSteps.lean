import OgsDp.Gtp.Xact

/-!
# What the calls leave of a transaction (lib/gtp/xact.c)

Who a transaction is never changes, nor the message it began with. Only the two functions that
create a local transaction move the counter.
-/

namespace OgsDp.Gtp
open Lib OgsDp.Core

namespace Xact

structure Kept (x y : Xact) : Prop where
  id : y.id=x.id
  gtpVersion : y.gtpVersion=x.gtpVersion
  org : y.org=x.org
  xid : y.xid=x.xid
  node : y.node=x.node
  begun : x.step≠0 → y.step≠0
  first : x.step≠0 → y.firstSeq=x.firstSeq

variable {x y z : Xact}

theorem Kept.of_seq (hid : y.id=x.id) (hv : y.gtpVersion=x.gtpVersion) (ho : y.org=x.org)
    (hxid : y.xid=x.xid) (hn : y.node=x.node) (hstep : y.step=x.step) (hseq : y.seq=x.seq) :
    x.Kept y where
  id := hid
  gtpVersion := hv
  org := ho
  xid := hxid
  node := hn
  begun := fun h => by rw [hstep]; exact h
  first := fun _ => by rw [firstSeq,hseq]

theorem Kept.refl (x : Xact) : x.Kept x := .of_seq rfl rfl rfl rfl rfl rfl rfl

theorem Kept.trans (h : x.Kept y) (k : y.Kept z) : x.Kept z where
  id := k.id.trans h.id
  gtpVersion := k.gtpVersion.trans h.gtpVersion
  org := k.org.trans h.org
  xid := k.xid.trans h.xid
  node := k.node.trans h.node
  begun := fun hx => k.begun (h.begun hx)
  first := fun hx => (k.first (h.begun hx)).trans (h.first hx)

theorem Kept.home (h : x.Kept y) : home y=home x := by
  show (y.org,y.node)=(x.org,x.node)
  rw [h.org,h.node]

theorem save_kept (x : Xact) (q : Seq) : x.Kept (x.save q) where
  id := rfl
  gtpVersion := rfl
  org := rfl
  xid := rfl
  node := rfl
  begun := fun _ => Nat.succ_ne_zero _
  first := fun h => by simp [firstSeq,save,h]

theorem startResponse_kept (x : Xact) : x.Kept x.startResponse :=
  .of_seq rfl rfl rfl rfl rfl rfl rfl

theorem stopResponse_kept (x : Xact) : x.Kept x.stopResponse :=
  .of_seq rfl rfl rfl rfl rfl rfl rfl

theorem hold_kept (x : Xact) (b : Bool) : x.Kept { x with tmHolding := b } :=
  .of_seq rfl rfl rfl rfl rfl rfl rfl

theorem updateTx_cases (x : Xact) (stage : Stage) (finals : List Nat) (q : Seq) :
    x.updateTx stage finals q=none ∨ x.updateTx stage finals q=some (.abort x) ∨
      x.updateTx stage finals q=some (.ok x .error) ∨
      x.step<3 ∧ x.updateTx stage finals q=some (.ok (x.save q) .ok) := by
  unfold updateTx
  by_cases h3 : x.step<3
  · cases x.org <;> cases stage <;> simp only [if_pos h3] <;> (try split) <;> simp [h3]
  · cases x.org <;> cases stage <;> simp only [if_neg h3] <;> (try split) <;> simp

theorem updateTx_kept {stage : Stage} {finals : List Nat} {q : Seq} {rv : Rv}
    (h : x.updateTx stage finals q=some (.ok y rv)) : x.Kept y := by
  rcases x.updateTx_cases stage finals q with hu | hu | hu | ⟨-,hu⟩ <;> rw [hu] at h <;> cases h
  · exact Kept.refl x
  · exact save_kept x q

theorem received_kept (x : Xact) (type : Byte) : (x.received type).Returns fun y _ => x.Kept y :=
  (stopResponse_kept x).trans (save_kept ..)

theorem duplicated_kept (x : Xact) (next : Seq) :
    (x.duplicated next).Returns fun y _ => x.Kept y := by
  unfold duplicated
  cases next.pkbuf with
  | some pkbuf => exact hold_kept x true
  | none => exact Kept.refl x

theorem updateRx_kept (x : Xact) (type : Byte) : (x.updateRx type).Returns fun y _ => x.Kept y := by
  have hrecv : ∀ z : Xact, x.Kept z → (z.received type).Returns fun y _ => x.Kept y :=
    fun z hz => (received_kept z type).mono fun y _ hy => hz.trans hy
  unfold updateRx
  cases ho : x.org <;> cases getStage x.gtpVersion type x.xid <;> simp only
  case localOriginator.intermediate =>
    split
    · split
      · exact Outcome.returns_abort
      · exact duplicated_kept x _
    · split
      · exact Kept.refl x
      · exact hrecv _ (.of_seq rfl rfl ho.symm rfl rfl rfl rfl)
  case remoteOriginator.initial =>
    split
    · split
      · exact Kept.refl x
      · exact duplicated_kept x _
    · split
      · exact Kept.refl x
      · exact hrecv _ (.of_seq rfl rfl ho.symm rfl rfl rfl rfl)
  case localOriginator.final | remoteOriginator.final =>
    split
    · exact Kept.refl x
    · exact hrecv x (Kept.refl x)
  all_goals exact Kept.refl x

end Xact

namespace Layer

structure Later (s t : Layer) : Prop where
  lists : t.Lists
  xactId : t.xactId=s.xactId
  locals : ∀ node,∀ r ∈ t.list (.localOriginator,node),
    r∈s.list (.localOriginator,node) ∧ (s.obj r).Kept (t.obj r)

variable {rc : Rcounts} {s t u : Layer} {r : Nat} {x : Xact}

theorem Later.refl (h : s.Lists) : s.Later s := ⟨h,rfl,fun _ _ hr => ⟨hr,Xact.Kept.refl _⟩⟩

theorem Later.trans (h : s.Later t) (k : t.Later u) : s.Later u where
  lists := k.lists
  xactId := k.xactId.trans h.xactId
  locals := by
    intro node r hr
    obtain ⟨hrt,hk⟩ := k.locals node r hr
    obtain ⟨hrs,hh⟩ := h.locals node r hrt
    exact ⟨hrs,hh.trans hk⟩

theorem later_setXact (h : s.Lists) (hx : (s.obj r).Kept x) : s.Later (s.setXact r x) where
  lists := h.setObj hx.home hx.id
  xactId := rfl
  locals := by
    intro node i hi
    refine ⟨hi,?_⟩
    show (s.obj i).Kept ((s.setObj r x).obj i)
    by_cases hir : i=r
    · rw [hir,Store.setObj_self]
      exact hx
    · rw [Store.setObj_of_ne hir]
      exact Xact.Kept.refl _

theorem later_delete {l : Org × Nat} (h : s.Lists) (hr : r∈s.list l) : s.Later (s.delete r) where
  lists := h.remove hr
  xactId := rfl
  locals := by
    intro node i hi
    obtain ⟨-,hi⟩ := (h.mem_remove hr).mp hi
    exact ⟨hi,Xact.Kept.refl _⟩

theorem later_drop (h : s.Lists) (hr : s.Live r) (hx : (s.obj r).Kept x) :
    s.Later ((s.setXact r x).delete r) := by
  have hset:=later_setXact h hx
  have hmem : r∈(s.setXact r x).list (home (s.obj r)) := h.mem_of_live hr
  exact hset.trans (later_delete hset.lists hmem)

theorem later_deleteList (key : Org × Nat) (l : List Nat) (h : s.Lists) (hnodup : l.Nodup)
    (hl : ∀ r∈l,r∈s.list key) : s.Later (s.deleteList l) := by
  induction l generalizing s with
  | nil => exact Later.refl h
  | cons r l ih =>
    have hr:=hl r (List.mem_cons_self ..)
    obtain ⟨hnot,hnodup⟩ := List.nodup_cons.mp hnodup
    have hdel:=later_delete h hr
    refine hdel.trans (ih hdel.lists hnodup ?_)
    intro i hi
    refine (h.mem_remove hr).mpr ⟨?_,hl i (List.mem_cons_of_mem r hi)⟩
    intro he
    rw [he] at hi
    exact hnot hi

theorem later_deleteAll (h : s.Lists) (node : Nat) : s.Later (s.deleteAll node) := by
  have hlocal:=later_deleteList (.localOriginator,node) _ h (h.nodup _) fun _ => id
  exact hlocal.trans (later_deleteList (.remoteOriginator,node) _ hlocal.lists
    (hlocal.lists.nodup _) fun _ => id)

variable {v : Version} {org : Org} {xid : BitVec 32} {node timers : Nat} {response peer : Bool}
  {a : Result} {type : Byte}

theorem create_ok (h : create rc s v org xid node response peer timers = .ok t r) :
    ∃ p id,s.pool.idCalloc=(p,some (r,id)) ∧
      t = { s with toStore := s.add p r (.create rc id v org xid node response peer) } := by
  unfold create at h
  cases hp : s.pool.idCalloc with
  | mk p found =>
    rw [hp] at h
    cases found with
    | none => cases h
    | some node =>
      obtain ⟨r',id⟩ := node
      simp only at h
      split at h
      · cases h
      · cases h
        exact ⟨p,id,rfl,rfl⟩

structure New (rc : Rcounts) (s t : Layer) (v : Version) (org : Org) (xid : BitVec 32)
    (node r : Nat) : Prop where
  lists : t.Lists
  xactId : t.xactId=s.xactId
  absent : ∀ l,r∉s.list l
  mem : ∀ l i,i∈t.list l ↔ i∈s.list l ∨ i=r ∧ l=(org,node)
  old : ∀ i,i≠r → t.obj i=s.obj i
  new : ∃ id response peer,t.obj r = .create rc id v org xid node response peer

theorem create_new (h : s.Lists)
    (hc : create rc s v org xid node response peer timers = .ok t r) :
    New rc s t v org xid node r := by
  obtain ⟨p,id,hp,rfl⟩ := create_ok hc
  obtain ⟨habsent,-,-,hadd⟩ := h.idCalloc hp
  refine ⟨hadd _ rfl,rfl,habsent,?_,?_,id,response,peer,Store.add_self⟩
  · intro l i
    exact Store.mem_add
  · intro i hi
    exact Store.add_of_ne hi

theorem New.live (h : New rc s t v org xid node r) : t.Live r :=
  h.lists.live_of_mem ((h.mem (org,node) r).mpr (.inr ⟨rfl,rfl⟩))

theorem New.later (h : New rc s t v .remoteOriginator xid node r) : s.Later t where
  lists := h.lists
  xactId := h.xactId
  locals := by
    intro m i hi
    rcases (h.mem _ i).mp hi with hi | ⟨-,hl⟩
    · have hne : i≠r := fun he => h.absent _ (he ▸ hi)
      rw [h.old i hne]
      exact ⟨hi,Xact.Kept.refl _⟩
    · cases hl

theorem deliver_later (h : s.Lists) (hr : s.Live r) (type : Byte) :
    (s.deliver r type).Returns fun t _ => s.Later t := by
  have hx:=Xact.updateRx_kept (s.obj r) type
  unfold deliver
  cases hu : (s.obj r).updateRx type with
  | abort x => exact Outcome.returns_abort
  | ok x a =>
    rw [hu] at hx
    obtain ⟨rv,sent⟩ := a
    cases rv with
    | ok => exact later_setXact h hx
    | error => exact later_drop h hr hx
    | retry => exact later_setXact h hx

theorem findXact_some {l : List Nat} (h : s.findXact l v xid=some r) :
    r∈l ∧ (s.obj r).gtpVersion=v ∧ (s.obj r).xid=xid := by
  have hp:=List.find?_some h
  rw [Bool.and_eq_true,beq_iff_eq,beq_iff_eq] at hp
  exact ⟨List.mem_of_find?_eq_some h,hp.1,hp.2⟩

theorem receive_later {org : Option Org} (h : s.Lists)
    (hr : s.receive rc node v org type xid timers = .ok t a) : s.Later t := by
  suffices hl : (s.receive rc node v org type xid timers).Returns fun t _ => s.Later t by
    rw [hr] at hl
    exact hl
  unfold receive
  cases org with
  | none => exact Later.refl h
  | some org =>
    simp only
    cases hf : s.findXact (s.list (org,node)) v xid with
    | some r => exact deliver_later h (h.live_of_mem (findXact_some hf).1) type
    | none =>
      simp only
      cases hc : s.remoteCreate rc node v xid timers with
      | abort t => exact Outcome.returns_abort
      | ok t r =>
        have hnew:=create_new h hc
        exact (deliver_later hnew.lists hnew.live type).mono fun u _ hu => hnew.later.trans hu

theorem commit_later (h : s.Lists) (hr : s.Live r) (hc : s.commit r=some (.ok t a)) :
    s.Later t := by
  unfold commit at hc
  simp only at hc
  cases hl : (s.obj r).lastSeq with
  | none =>
    rw [hl] at hc
    cases hc
  | some last =>
    rw [hl] at hc
    simp only at hc
    cases hx : (s.obj r).commit last.type with
    | delete rv =>
      rw [hx] at hc
      cases hc
      exact later_delete h (h.mem_of_live hr)
    | keep =>
      rw [hx] at hc
      cases hc
      exact Later.refl h
    | send start =>
      rw [hx] at hc
      simp only at hc
      cases hp : last.pkbuf with
      | none =>
        rw [hp] at hc
        cases hc
      | some pkbuf =>
        rw [hp] at hc
        cases hc
        apply later_setXact h
        split
        · exact Xact.startResponse_kept _
        · exact Xact.Kept.refl _

theorem responseExpired_later (h : s.Lists) (hr : s.Live r)
    (he : s.responseExpired r=some (.ok t a)) : s.Later t := by
  unfold responseExpired at he
  simp only at he
  split at he
  · split at he
    · cases he
    · split at he
      · cases he
        exact later_setXact h (.of_seq rfl rfl rfl rfl rfl rfl rfl)
      · cases he
  · cases he
    exact later_drop h hr (.of_seq rfl rfl rfl rfl rfl rfl rfl)

theorem holdingExpired_later (h : s.Lists) (hr : s.Live r)
    (he : s.holdingExpired r=some (.ok t a)) : s.Later t := by
  unfold holdingExpired at he
  simp only at he
  split at he
  · cases he
    exact later_setXact h (.of_seq rfl rfl rfl rfl rfl rfl rfl)
  · cases he
    exact later_drop h hr (.of_seq rfl rfl rfl rfl rfl rfl rfl)

theorem timeout_later {expired : Layer → Nat → Option (Outcome Layer Result)} {id : Nat}
    (h : s.Lists)
    (hexp : ∀ r,s.Live r → expired s r=some (.ok t a) → s.Later t)
    (ht : s.timeout id expired=some (.ok t a)) : s.Later t := by
  unfold timeout at ht
  cases hf : s.pool.findById id with
  | none =>
    rw [hf] at ht
    cases ht
    exact Later.refl h
  | some r =>
    rw [hf] at ht
    exact hexp r (h.live_of_found hf) ht

theorem tx_later {stage : Stage} {finals : List Nat} {q : Seq} (h : s.Lists)
    (ht : s.tx r ((s.obj r).updateTx stage finals q)=some (.ok t a)) : s.Later t := by
  cases hu : (s.obj r).updateTx stage finals q with
  | none =>
    rw [hu] at ht
    cases ht
  | some o =>
    rw [hu] at ht
    cases o with
    | abort x => cases ht
    | ok x rv =>
      cases ht
      exact later_setXact h (Xact.updateTx_kept hu)

def Op.IsLocalCreate : Op → Prop
  | .gtp1LocalCreate .. | .gtpLocalCreate .. => True
  | _ => False

theorem step_later {e : Op} (h : s.Lists) (he : ¬ e.IsLocalCreate)
    (hstep : s.step rc e=some (.ok t a)) : s.Later t := by
  cases e with
  | gtp1LocalCreate node h body timers => exact absurd trivial he
  | gtpLocalCreate node h body timers => exact absurd trivial he
  | gtp1Receive node hd timers =>
    simp only [step,gtp1Receive,Option.some.injEq] at hstep
    split at hstep
    · cases hstep
      exact Later.refl h
    · exact receive_later h hstep
  | gtpReceive node hd timers =>
    simp only [step,gtpReceive,Option.some.injEq] at hstep
    exact receive_later h hstep
  | gtp1UpdateTx r hd body =>
    simp only [step] at hstep
    split at hstep
    · exact tx_later h hstep
    · cases hstep
  | gtpUpdateTx r hd body =>
    simp only [step] at hstep
    split at hstep
    · exact tx_later h hstep
    · cases hstep
  | commit r =>
    simp only [step] at hstep
    split at hstep
    · exact commit_later h ‹_› hstep
    · cases hstep
  | deleteAll node =>
    cases hstep
    exact later_deleteAll h node
  | startPeer r =>
    simp only [step] at hstep
    split at hstep
    · cases hstep
      exact later_setXact h (.of_seq rfl rfl rfl rfl rfl rfl rfl)
    · cases hstep
  | responseTimeout r =>
    simp only [step] at hstep
    split at hstep
    · have hset:=later_setXact (r := r) h (Xact.stopResponse_kept (s.obj r))
      exact hset.trans (timeout_later hset.lists
        (fun i hi => responseExpired_later hset.lists hi) hstep)
    · cases hstep
  | holdingTimeout r =>
    simp only [step] at hstep
    split at hstep
    · have hset:=later_setXact (r := r) h (Xact.hold_kept (s.obj r) false)
      exact hset.trans (timeout_later hset.lists
        (fun i hi => holdingExpired_later hset.lists hi) hstep)
    · cases hstep
  | peerTimeout r =>
    simp only [step] at hstep
    split at hstep
    · cases hstep
      exact later_setXact h (.of_seq rfl rfl rfl rfl rfl rfl rfl)
    · cases hstep

end Layer

end OgsDp.Gtp
