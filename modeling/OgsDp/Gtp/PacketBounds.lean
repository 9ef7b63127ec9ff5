import OgsDp.Gtp.PacketHistory

/-!
# Bounds of the packet history (lib/gtp/xact.c, lib/pfcp/xact.c)

A local transaction sends in its first and third step, one of the peer in its second.
-/

namespace OgsDp.Gtp
open Lib OgsDp.Core

namespace History

variable {ρ : Type*} {s t : History} {type : Byte} {p : PkbufRef} {q : Slot}

/-- The history stays in its three slots, none is written twice, no packet is missing, and each
packet is freed once. -/
structure Bounded (s : History) : Prop where
  step : s.step≤3
  once : s.written.Nodup
  inside : ∀ i∈s.written,i<3
  asserted : s.fault=none ∨ s.fault=some .reached
  freedOnce : ∀ p,s.freed.count p =
    s.calls.count (p,.error) + if s.alive then 0 else s.calls.count (p,.ok)

def Overruns (s : History) : Op → Prop
  | .updateTx type _ =>
    s.alive ∧ s.protocol = .gtp1 ∧ s.org = .localOriginator ∧ s.step=3 ∧
      gtp1XactGetStage type = .final
  | _ => False

instance (s : History) : ∀ e,Decidable (s.Overruns e)
  | .updateTx _ _ => inferInstanceAs (Decidable (_ ∧ _))
  | .receive _ | .commit | .responseTimeout | .holdingTimeout | .deleteAll => isFalse id

def Sends (org : Org) (i : Nat) : Prop :=
  match org with
  | .localOriginator => i=0 ∨ i=2
  | .remoteOriginator => i=1

def StageAt (i : Nat) (stage : Stage) : Prop :=
  match i with
  | 0 => stage = .initial
  | 1 => stage = .intermediate ∨ stage = .final
  | _ => stage = .final

structure Holds (s : History) (i : Nat) (q : Slot) : Prop where
  packet : q.pkbuf.isSome ↔ Sends s.org i
  stage : StageAt i (s.stage q.type)

structure Kept (s : History) : Prop where
  alive : s.alive=true
  fault : s.fault=none
  step : s.step≤3
  written : s.written=(List.range s.step).reverse
  ahead : ∀ i q,s.step ≤ i → s.seq[i]?=some q → q=⟨0,none⟩
  behind : ∀ i q,i<s.step → s.seq[i]?=some q → s.Holds i q
  waiting : s.tmResponse=some true → s.step≠0 ∧ Sends s.org (s.step-1)
  holding : s.tmHolding=true → s.step≠0
  refused : ∀ p,s.freed.count p=s.calls.count (p,.error)
  taken : ∀ p,s.held.count p=s.calls.count (p,.ok)

structure Sound (s : History) : Prop extends s.Bounded where
  kept : s.alive=true → s.Kept

theorem Kept.bounded (h : s.Kept) : s.Bounded where
  step := h.step
  once := by
    rw [h.written]
    exact List.nodup_reverse.mpr List.nodup_range
  inside := by
    intro i hi
    rw [h.written,List.mem_reverse,List.mem_range] at hi
    have hstep:=h.step
    omega
  asserted := .inl h.fault
  freedOnce := by
    intro p
    rw [h.refused p,h.alive]
    simp

theorem Kept.sound (h : s.Kept) : s.Sound := ⟨h.bounded,fun _ => h⟩

theorem Kept.timers (h : s.Kept) {response : Option Bool} {holding : Bool} {a b : BitVec 8}
    (hwait : response=some true → s.step≠0 ∧ Sends s.org (s.step-1))
    (hhold : holding=true → s.step≠0) :
    Kept { s with
      tmResponse := response,responseRcount := a,tmHolding := holding,holdingRcount := b } where
  alive := h.alive
  fault := h.fault
  step := h.step
  written := h.written
  ahead := h.ahead
  behind := fun i q hi hq => ⟨(h.behind i q hi hq).packet,(h.behind i q hi hq).stage⟩
  waiting := hwait
  holding := hhold
  refused := h.refused
  taken := h.taken

theorem Kept.deleted (h : s.Kept) : s.delete.Sound where
  step := h.step
  once := h.bounded.once
  inside := h.bounded.inside
  asserted := .inl h.fault
  freedOnce := by
    intro p
    show (s.held++s.freed).count p=_
    rw [List.count_append,h.refused p,h.taken p,Nat.add_comm]
    rfl
  kept := fun halive => nomatch halive

theorem Kept.reached (h : s.Kept) : Bounded { s with fault := some .reached } where
  step := h.step
  once := h.bounded.once
  inside := h.bounded.inside
  asserted := .inr rfl
  freedOnce := h.bounded.freedOnce

theorem not_sends (org : Org) (i : Nat) (h : Sends org i) : ¬ Sends org (i+1) := by
  cases org <;> simp only [Sends] at h ⊢ <;> omega

theorem create_kept (v : Protocol) (org : Org) (xid : BitVec 32) (response : Bool) (rc : Rcounts) :
    (create v org xid response rc).Kept where
  alive := rfl
  fault := rfl
  step := Nat.zero_le 3
  written := rfl
  ahead := by
    intro i q _ hq
    obtain ⟨hi,hq⟩ := Vector.getElem?_eq_some_iff.mp hq
    rw [← hq]
    exact Vector.getElem_replicate hi
  behind := fun i q hi => absurd hi (Nat.not_lt_zero i)
  waiting := by
    intro h
    cases response <;> cases h
  holding := fun h => nomatch h
  refused := fun p => rfl
  taken := fun p => rfl

theorem count_filterMap_set (l : List Slot) (i : Nat) (q : Slot) (p : PkbufRef)
    (h : ∀ r,l[i]?=some r → r.pkbuf=none) (hi : i<l.length) :
    ((l.set i q).filterMap Slot.pkbuf).count p =
      (l.filterMap Slot.pkbuf).count p + if q.pkbuf=some p then 1 else 0 := by
  induction l generalizing i with
  | nil => exact absurd hi (Nat.not_lt_zero i)
  | cons r l ih =>
    cases i with
    | zero =>
      have hr : r.pkbuf=none := h r rfl
      rw [List.set_cons_zero,List.filterMap_cons_none hr]
      cases hq : q.pkbuf with
      | none => simp [List.filterMap_cons_none hq]
      | some p' => simp [List.filterMap_cons_some hq,List.count_cons]
    | succ i =>
      have ih:=ih i h (Nat.lt_of_succ_lt_succ hi)
      rw [List.set_cons_succ,List.filterMap_cons,List.filterMap_cons]
      cases r.pkbuf with
      | none => exact ih
      | some p' =>
        simp only [List.count_cons,ih]
        omega

theorem Kept.held_save (h : s.Kept) (hstep : s.step<3) (q : Slot) (p : PkbufRef) :
    (s.save q).held.count p=s.held.count p + if q.pkbuf=some p then 1 else 0 := by
  have hset : (s.save q).seq.toList=s.seq.toList.set s.step q := Vector.toList_setIfInBounds
  unfold held
  rw [hset]
  apply count_filterMap_set
  · intro r hr
    rw [h.ahead s.step r le_rfl (by simpa using hr)]
  · simpa using hstep

theorem Kept.saved (h : s.Kept) (hstep : s.step<3) {response : Option Bool} {holding : Bool}
    {calls : List (PkbufRef × Rv)} (hpacket : q.pkbuf.isSome ↔ Sends s.org s.step)
    (hstage : StageAt s.step (s.stage q.type)) (hwait : response≠some true)
    (hrefused : ∀ p,s.freed.count p=calls.count (p,.error))
    (htaken : ∀ p,(s.save q).held.count p=calls.count (p,.ok)) :
    Kept { s.save q with tmResponse := response,tmHolding := holding,calls := calls } where
  alive := h.alive
  fault := h.fault
  step := hstep
  written := by
    show s.step::s.written=(List.range (s.step+1)).reverse
    rw [h.written,List.range_succ,List.reverse_append]
    rfl
  ahead := by
    intro i r hi hr
    have hr : (s.seq.setIfInBounds s.step q)[i]?=some r := hr
    rw [Vector.getElem?_setIfInBounds_ne (Nat.ne_of_lt hi)] at hr
    exact h.ahead i r (Nat.le_of_lt hi) hr
  behind := by
    intro i r hi hr
    have hi : i<s.step+1 := hi
    have hr : (s.seq.setIfInBounds s.step q)[i]?=some r := hr
    by_cases hne : s.step=i
    · rw [← hne,Vector.getElem?_setIfInBounds_self_of_lt hstep] at hr
      cases hr
      rw [← hne]
      exact ⟨hpacket,hstage⟩
    · rw [Vector.getElem?_setIfInBounds_ne hne] at hr
      have hlt : i<s.step := by omega
      exact ⟨(h.behind i r hlt hr).packet,(h.behind i r hlt hr).stage⟩
  waiting := fun hrun => absurd hrun hwait
  holding := fun _ => Nat.succ_ne_zero _
  refused := hrefused
  taken := htaken

theorem Kept.sent (h : s.Kept) (hstep : s.step<3) (hsend : Sends s.org s.step)
    (hstage : StageAt s.step (s.stage type)) :
    Kept { s.save ⟨type,some p⟩ with calls := (p,.ok)::s.calls } := by
  have hpacket : (some p).isSome ↔ Sends s.org s.step := ⟨fun _ => hsend,fun _ => rfl⟩
  have hwait : s.tmResponse≠some true := by
    intro hrun
    obtain ⟨hne,hlast⟩ := h.waiting hrun
    have hnext:=not_sends s.org _ hlast
    rw [Nat.sub_add_cancel (Nat.pos_of_ne_zero hne)] at hnext
    exact hnext hsend
  apply h.saved hstep hpacket hstage hwait
  · intro p'
    rw [h.refused p',List.count_cons_of_ne]
    exact fun he => nomatch he
  · intro p'
    rw [h.held_save hstep,h.taken p',List.count_cons]
    congr 1
    simp

theorem Kept.got (h : s.Kept) (hstep : s.step<3) (hsend : ¬ Sends s.org s.step)
    (hstage : StageAt s.step (s.stage type)) {holding : Bool} :
    ∃ t,Kept t ∧ received { s with tmHolding := holding } type = .ok t (.ok,none) := by
  have hempty : s.seq[s.step]?.getD ⟨0,none⟩=⟨0,none⟩ := by
    rw [Vector.getElem?_eq_getElem hstep]
    exact h.ahead s.step _ le_rfl (Vector.getElem?_eq_getElem hstep)
  have hwait : (s.tmResponse.map fun _ => false)≠some true := by
    cases s.tmResponse <;> simp
  have hkept:=@saved s ⟨type,none⟩ h hstep _ holding _
    ⟨(fun hp => nomatch hp),fun hs => absurd hs hsend⟩ hstage hwait h.refused
    (fun p => by rw [h.held_save hstep,h.taken p]; rfl)
  refine ⟨_,hkept,?_⟩
  simp only [received,record,stopResponse,hempty,if_pos hstep]
  rfl

theorem updateTx_cases (s : History) (stage : Stage) (finals : List Nat)
    (hfinals : ∀ i∈finals,i=2 ∨ i=3) :
    s.updateTx stage finals type p=s.stop .reached ∨
    s.updateTx stage finals type p = .ok (s.pkbufFree p) .error ∨
    (s.step<3 ∧ Sends s.org s.step ∧ StageAt s.step stage ∧
      s.updateTx stage finals type p = .ok (s.save ⟨type,some p⟩) .ok) ∨
    (3∈finals ∧ s.org = .localOriginator ∧ s.step=3 ∧ stage = .final ∧
      s.updateTx stage finals type p=(s.save ⟨type,some p⟩).stop .outside) := by
  have hrecord : ∀ i,i<3 → s.step=i →
      s.record ⟨type,some p⟩ Rv.ok = .ok (s.save ⟨type,some p⟩) .ok := by
    intro i hi he
    exact if_pos (he ▸ hi)
  unfold updateTx
  cases horg : s.org <;> cases stage <;> simp only
  case localOriginator.unknown => exact .inl trivial
  case localOriginator.initial =>
    split
    · exact .inr (.inl rfl)
    · have he : s.step=0 := by omega
      exact .inr (.inr (.inl ⟨by omega,by simp [Sends,he],by simp [StageAt,he],
        hrecord 0 (by omega) he⟩))
  case localOriginator.final =>
    split
    · exact .inr (.inl rfl)
    · rename_i hmem
      have hmem : s.step∈finals := by simpa using hmem
      rcases hfinals _ hmem with he | he
      · exact .inr (.inr (.inl ⟨by omega,by simp [Sends,he],by simp [StageAt,he],
          hrecord 2 (by omega) he⟩))
      · exact .inr (.inr (.inr ⟨he ▸ hmem,trivial,he,trivial,if_neg (by omega)⟩))
  case remoteOriginator.intermediate | remoteOriginator.final =>
    split
    · exact .inr (.inl rfl)
    · have he : s.step=1 := by omega
      exact .inr (.inr (.inl ⟨by omega,by simp [Sends,he],by simp [StageAt,he],
        hrecord 1 (by omega) he⟩))
  all_goals exact .inr (.inl trivial)

theorem xactUpdateTx_cases (h : s.Kept) (type : Byte) (p : PkbufRef) :
    s.xactUpdateTx type p=s.stop .reached ∨
    s.xactUpdateTx type p = .ok (s.pkbufFree p) .error ∨
    (s.step<3 ∧ Sends s.org s.step ∧ StageAt s.step (s.stage type) ∧
      s.xactUpdateTx type p = .ok (s.save ⟨type,some p⟩) .ok) ∨
    (s.Overruns (.updateTx type p) ∧
      s.xactUpdateTx type p=(s.save ⟨type,some p⟩).stop .outside) := by
  unfold xactUpdateTx stage
  cases hv : s.protocol with
  | pfcp =>
    rcases @updateTx_cases type p s (ofPfcp (Pfcp.getStage type)) [2] (by simp) with
      hu | hu | hu | ⟨hmem,-⟩
    · exact .inl hu
    · exact .inr (.inl hu)
    · exact .inr (.inr (.inl hu))
    · simp at hmem
  | gtp1 =>
    rcases @updateTx_cases type p s (gtp1XactGetStage type) [2,3] (by simp) with
      hu | hu | hu | ⟨-,horg,hstep,hstage,hu⟩
    · exact .inl hu
    · exact .inr (.inl hu)
    · exact .inr (.inr (.inl hu))
    · exact .inr (.inr (.inr ⟨⟨h.alive,hv,horg,hstep,hstage⟩,hu⟩))
  | gtp2 =>
    rcases @updateTx_cases type p s (gtp2XactGetStage type s.xid) [2] (by simp) with
      hu | hu | hu | ⟨hmem,-⟩
    · exact .inl hu
    · exact .inr (.inl hu)
    · exact .inr (.inr (.inl hu))
    · simp at hmem

theorem overruns_updateTx (h : s.Overruns (.updateTx type p)) :
    s.xactUpdateTx type p=(s.save ⟨type,some p⟩).stop .outside := by
  obtain ⟨-,hv,horg,hstep,hstage⟩ := h
  simp [xactUpdateTx,hv,gtp1UpdateTx,updateTx,horg,hstage,hstep,record]

theorem Kept.refusedTx (h : s.Kept) :
    Kept { s.pkbufFree p with calls := (p,.error)::s.calls } where
  alive := h.alive
  fault := h.fault
  step := h.step
  written := h.written
  ahead := h.ahead
  behind := fun i q hi hq => ⟨(h.behind i q hi hq).packet,(h.behind i q hi hq).stage⟩
  waiting := h.waiting
  holding := h.holding
  refused := by
    intro p'
    show (p::s.freed).count p'=_
    rw [List.count_cons,List.count_cons,h.refused p']
    congr 1
    simp
  taken := by
    intro p'
    show s.held.count p'=((p,Rv.error)::s.calls).count (p',.ok)
    rw [List.count_cons_of_ne (by simp)]
    exact h.taken p'

theorem updateRx_kept (h : s.Kept) (type : Byte) :
    ∃ t a,Kept t ∧ s.updateRx type = .ok t a := by
  have hdup : ∀ next,s.step≠0 → ∃ t a,Kept t ∧ s.duplicated next = .ok t a := by
    intro next hne
    unfold duplicated
    cases next.pkbuf with
    | some p' => exact ⟨_,_,h.timers h.waiting (fun _ => hne),rfl⟩
    | none => exact ⟨_,_,h,rfl⟩
  have hgot : ∀ holding,s.step<3 → ¬ Sends s.org s.step → StageAt s.step (s.stage type) →
      ∃ t a,Kept t ∧ received { s with tmHolding := holding } type = .ok t a := by
    intro holding hstep hsend hstage
    obtain ⟨t,ht,he⟩ := @Kept.got s type h hstep hsend hstage holding
    exact ⟨t,_,ht,he⟩
  unfold updateRx
  cases horg : s.org <;> cases hstage : s.stage type <;> simp only
  case localOriginator.intermediate =>
    split
    · rename_i htype
      split
      · rename_i hstep
        have hle:=h.step
        have hzero:=h.ahead 1 s.secondSeq (by omega) (Vector.getElem?_eq_getElem Xact.second_lt)
        rw [hzero] at htype
        rw [← htype,stage,Protocol.getStage_zero] at hstage
        cases hstage
      · exact hdup _ (by omega)
    · split
      · exact ⟨_,_,h,rfl⟩
      · have he : s.step=1 := by omega
        rw [← horg]
        exact hgot true (by omega) (by simp [Sends,horg,he]) (by simp [StageAt,he,hstage])
  case localOriginator.final =>
    split
    · exact ⟨_,_,h,rfl⟩
    · have he : s.step=1 := by omega
      exact hgot s.tmHolding (by omega) (by simp [Sends,horg,he]) (by simp [StageAt,he,hstage])
  case remoteOriginator.initial =>
    split
    · split
      · exact ⟨_,_,h,rfl⟩
      · exact hdup _ (by omega)
    · split
      · exact ⟨_,_,h,rfl⟩
      · have he : s.step=0 := by omega
        rw [← horg]
        exact hgot true (by omega) (by simp [Sends,horg,he]) (by simp [StageAt,he,hstage])
  case remoteOriginator.final =>
    split
    · exact ⟨_,_,h,rfl⟩
    · have he : s.step=2 := by omega
      exact hgot s.tmHolding (by omega) (by simp [Sends,horg,he]) (by simp [StageAt,he,hstage])
  all_goals exact ⟨_,_,h,rfl⟩

theorem receive_sound (h : s.Kept) (type : Byte) : ∃ t a,t.Sound ∧ s.receive type = .ok t a := by
  obtain ⟨t,a,ht,hu⟩ := updateRx_kept h type
  refine ⟨_,_,?_,by rw [receive,hu]; rfl⟩
  split
  · exact ht.deleted
  · exact ht.sound

theorem Kept.lastSeq (h : s.Kept) (hne : s.step≠0) :
    ∃ q,s.lastSeq=some q ∧ s.Holds (s.step-1) q := by
  have hstep:=h.step
  have hlt : s.step-1<3 := by omega
  have hq : s.seq[s.step-1]?=some _ := Vector.getElem?_eq_getElem hlt
  refine ⟨_,(if_neg hne).trans hq,h.behind _ _ (by omega) hq⟩

theorem send_of_holds {i : Nat} (hq : s.Holds i q) (hsend : Sends s.org i) (t : History) :
    ∃ a,t.send q = .ok t a := by
  obtain ⟨p,hp⟩ := Option.isSome_iff_exists.mp (hq.packet.mpr hsend)
  refine ⟨(.ok,some p),?_⟩
  rw [send,hp]

theorem action_send {intermediate : Xact.Commit} {start : Bool}
    (hi : ∀ b,intermediate ≠ .send b) (ha : s.action intermediate type = .send start) :
    Sends s.org (s.step-1) := by
  unfold action at ha
  cases horg : s.org <;> cases hstage : s.stage type <;> simp only [horg,hstage] at ha
  case localOriginator.intermediate => exact absurd ha (hi start)
  case localOriginator.initial =>
    split at ha
    · cases ha
    · exact .inl (by omega)
  case localOriginator.final =>
    split at ha
    · cases ha
    · split at ha
      · cases ha
      · exact .inr (by omega)
  case remoteOriginator.intermediate =>
    split at ha
    · cases ha
    · show s.step-1=1
      omega
  case remoteOriginator.final =>
    split at ha
    · cases ha
    · split at ha
      · cases ha
      · show s.step-1=1
        omega
  all_goals cases ha

theorem startResponse_kept (h : s.Kept) (hne : s.step≠0) (hsend : Sends s.org (s.step-1)) :
    s.startResponse.Kept := h.timers (fun _ => ⟨hne,hsend⟩) h.holding

theorem commit_sound (h : s.Kept) (hne : s.step≠0) : ∃ t a,t.Sound ∧ s.commit = .ok t a := by
  obtain ⟨q,hlast,hq⟩ := h.lastSeq hne
  have hsend : ∀ start,(if s.protocol = .pfcp then s.pfcpAction q.type else s.gtpAction q.type) =
      .send start → Sends s.org (s.step-1) := by
    intro start ha
    split at ha
    · exact action_send (fun b => by simp) ha
    · exact action_send (fun b => by split <;> simp) ha
  unfold commit
  rw [hlast]
  simp only
  cases ha : if s.protocol = .pfcp then s.pfcpAction q.type else s.gtpAction q.type with
  | delete rv => exact ⟨_,_,h.deleted,rfl⟩
  | keep => exact ⟨_,_,h.sound,rfl⟩
  | send start =>
    have hs:=hsend start ha
    obtain ⟨a,he⟩ := send_of_holds hq hs (if start then s.startResponse else s)
    refine ⟨_,a,?_,he⟩
    split
    · exact (startResponse_kept h hne hs).sound
    · exact h.sound

theorem responseExpired_sound (h : s.Kept) (hrun : s.tmResponse=some true) :
    ∃ t a,Sound t ∧ responseExpired { s with tmResponse := some false } = .ok t a := by
  obtain ⟨hne,hsend⟩ := h.waiting hrun
  obtain ⟨q,hlast,hq⟩ := h.lastSeq hne
  have hlast : lastSeq { s with tmResponse := some false }=some q := hlast
  unfold responseExpired
  rw [hlast]
  simp only
  split
  · obtain ⟨a,he⟩ := send_of_holds hq hsend
      (startResponse { s with tmResponse := some false,responseRcount := s.responseRcount-1 })
    exact ⟨_,a,(h.timers (fun _ => ⟨hne,hsend⟩) h.holding).sound,he⟩
  · have hk : Kept { s with tmResponse := some false,responseRcount := s.responseRcount-1 } :=
      h.timers (by simp) h.holding
    exact ⟨_,_,hk.deleted,rfl⟩

theorem holdingExpired_sound (h : s.Kept) (hrun : s.tmHolding=true) :
    ∃ t a,Sound t ∧ holdingExpired { s with tmHolding := false } = .ok t a := by
  have hne:=h.holding hrun
  obtain ⟨q,hlast,-⟩ := h.lastSeq hne
  have hlast : lastSeq { s with tmHolding := false }=some q := hlast
  unfold holdingExpired
  rw [hlast]
  simp only
  split
  · exact ⟨_,_,(h.timers h.waiting fun _ => hne).sound,rfl⟩
  · have hk : Kept { s with tmHolding := false,holdingRcount := s.holdingRcount-1 } :=
      h.timers h.waiting (by simp)
    exact ⟨_,_,hk.deleted,rfl⟩

theorem updateTx_leaves (h : s.Kept) (hno : ¬ s.Overruns (.updateTx type p))
    {o : Outcome History Answer} (hcall : s.call (.updateTx type p)=some o) :
    o.Leaves Sound Bounded := by
  have hcall:=Option.some.inj hcall
  rcases xactUpdateTx_cases h type p with hu | hu | ⟨hstep,hsend,hstage,hu⟩ | ⟨hover,-⟩
  · rw [hu] at hcall
    rw [← hcall]
    exact h.reached
  · rw [hu] at hcall
    rw [← hcall]
    exact h.refusedTx.sound
  · rw [hu] at hcall
    rw [← hcall]
    exact (h.sent hstep hsend hstage).sound
  · exact absurd hover hno

theorem stepOf_sound {e : Op} {o : Outcome History Answer} (h : s.Sound) (hno : ¬ s.Overruns e)
    (hstep : s.stepOf e=some o) : o.Leaves Sound Bounded := by
  have hof : ∀ {c : Outcome History Answer}, (∃ t a,t.Sound ∧ c = .ok t a) →
      c.Leaves Sound Bounded := by
    intro c ⟨t,a,ht,hc⟩
    rw [hc]
    exact ht
  unfold stepOf at hstep
  split at hstep
  · rename_i halive
    have hk:=h.kept halive
    cases e with
    | updateTx type p => exact updateTx_leaves hk hno hstep
    | receive type =>
      cases hstep
      exact hof (receive_sound hk type)
    | commit =>
      simp only [call] at hstep
      split at hstep
      · rename_i hbegun
        cases hstep
        refine hof (commit_sound hk fun hzero => hbegun ?_)
        rw [hk.written,hzero]
        rfl
      · cases hstep
    | responseTimeout =>
      simp only [call] at hstep
      split at hstep
      · cases hstep
        exact hof (responseExpired_sound hk ‹_›)
      · cases hstep
    | holdingTimeout =>
      simp only [call] at hstep
      split at hstep
      · cases hstep
        exact hof (holdingExpired_sound hk ‹_›)
      · cases hstep
    | deleteAll =>
      cases hstep
      exact hk.deleted
  · cases hstep

theorem stepOf_overruns {e : Op} (h : s.Overruns e) :
    ∃ o,s.stepOf e=some o ∧ ¬ o.state.Bounded := by
  cases e with
  | updateTx type p =>
    have hu:=overruns_updateTx h
    obtain ⟨halive,-,-,hstep,-⟩ := h
    refine ⟨_,if_pos halive,?_⟩
    rw [hu]
    intro hb
    have hle : s.step+1≤3 := hb.step
    omega
  | receive type => exact absurd h id
  | commit => exact absurd h id
  | responseTimeout => exact absurd h id
  | holdingTimeout => exact absurd h id
  | deleteAll => exact absurd h id

/-- A transaction of any version and origin keeps to its history and frees each packet once
exactly as long as GTPv1 does not take a final message in a transaction that is over. -/
theorem packet_history (v : Protocol) (org : Org) (xid : BitVec 32) (response : Bool)
    (rc : Rcounts) (ops : List Op) :
    (∀ t∈visited stepOf (create v org xid response rc) ops,t.Bounded) ↔
      EachStep stepOf (fun s e => ¬ s.Overruns e) (create v org xid response rc) ops :=
  visited_iff (fun _ h => h.toBounded) (fun _ _ _ h hno hstep => stepOf_sound h hno hstep)
    (fun _ _ _ hnot => stepOf_overruns (not_not.mp hnot)) (create_kept v org xid response rc).sound

/-- An SGSN Context Acknowledge is sent twice: the second is saved behind the history. -/
theorem second_acknowledge_behind_history :
    ¬ ∀ (v : Protocol) (org : Org) (xid : BitVec 32) (response : Bool) (rc : Rcounts)
      (ops : List Op), ∀ t∈visited stepOf (create v org xid response rc) ops,t.Bounded := by
  intro h
  have hlast : ¬ ∀ t ∈ visited stepOf (create .gtp1 .localOriginator 1 true ⟨3,3⟩)
      [.updateTx 50 0,.commit,.receive 51,.updateTx 52 1,.commit,.updateTx 52 2],
      t.step≤3 := by decide
  exact hlast fun t ht => (h _ _ _ _ _ _ t ht).step

end History
end OgsDp.Gtp
