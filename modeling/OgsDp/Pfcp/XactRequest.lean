import OgsDp.Pfcp.Xact

/-!
# A transaction of the peer (lib/pfcp/xact.c)

From its request on it is in step 1 without a response or in step 2 with one, and no call replaces
the response.
-/

namespace OgsDp.Pfcp
open Lib OgsDp.Core

namespace Xact

/-- A request of the peer that was handed to the application, and the response to it; no answer
to the response is waited for. -/
structure Held (x : Xact) : Prop where
  request : getStage x.firstSeq.type = .initial
  idle : x.tmResponse=false
  response : (x.step=1 ∧ x.secondSeq.pkbuf=none) ∨
    (x.step=2 ∧ getStage x.secondSeq.type = .final ∧ x.secondSeq.pkbuf.isSome)

structure Keeps (x y : Xact) : Prop extends x.Same y where
  held : x.org = .remoteOriginator → x.Held → y.Held
  reply : x.org = .remoteOriginator → x.Held → ∀ p,x.secondSeq.pkbuf=some p → y.secondSeq.pkbuf=some p

variable {x y : Xact} {h : Header} {body : List Byte} {type : Byte}

theorem Keeps.of_seq (hs : x.Same y) (hstep : y.step=x.step) (hseq : y.seq=x.seq)
    (htm : y.tmResponse=x.tmResponse) : x.Keeps y where
  toSame := hs
  held := by
    intro _ hx
    refine ⟨?_,htm.trans hx.idle,?_⟩
    · rw [firstSeq,hseq]
      exact hx.request
    · rw [secondSeq,hseq,hstep]
      exact hx.response
  reply := by
    intro _ _ p hp
    rw [secondSeq,hseq]
    exact hp

theorem Keeps.refl (x : Xact) : x.Keeps x := .of_seq ⟨rfl,rfl,rfl,rfl⟩ rfl rfl rfl

theorem save_same (x : Xact) (q : Seq) : x.Same (x.save q) := ⟨rfl,rfl,rfl,rfl⟩

theorem save_response (hstep : x.step=1) (hfinal : getStage h.type = .final) :
    x.Keeps (x.save ⟨h.type,some body⟩) where
  toSame := save_same ..
  held := by
    intro _ hx
    refine ⟨?_,hx.idle,.inr ⟨?_,?_,?_⟩⟩
    · simpa [firstSeq,save,hstep] using hx.request
    · simp [save,hstep]
    · simpa [secondSeq,save,hstep] using hfinal
    · simp [secondSeq,save,hstep]
  reply := by
    intro _ hx p hp
    rcases hx.response with ⟨_,hnone⟩ | ⟨h2,_⟩
    · rw [hnone] at hp
      cases hp
    · omega

theorem Keeps.of_local (hs : x.Same y) (hx : x.org = .localOriginator) : x.Keeps y where
  toSame := hs
  held := by
    intro ho
    rw [hx] at ho
    cases ho
  reply := by
    intro ho
    rw [hx] at ho
    cases ho

theorem updateTx_keeps (x : Xact) (h : Header) (body : List Byte) :
    (x.updateTx h body).Returns fun y _ => x.Keeps y := by
  unfold updateTx
  have hsame:=save_same x ⟨h.type,some (pushHeader h.type h.seid x.xid body)⟩
  cases ho : x.org with
  | localOriginator =>
    cases getStage h.type <;> simp only
    case unknown => exact Outcome.returns_abort
    case intermediate => exact Keeps.refl x
    all_goals
      split
      · exact Keeps.refl x
      · exact Keeps.of_local hsame ho
  | remoteOriginator =>
    cases hstage : getStage h.type <;> simp only
    case final =>
      split
      · exact Keeps.refl x
      · rename_i hstep
        exact save_response (by omega) hstage
    case intermediate => exact absurd hstage (getStage_ne_intermediate _)
    all_goals exact Keeps.refl x

theorem received_same (x : Xact) (type : Byte) :
    (x.received type).Returns fun y _ => x.Same y := by
  exact ⟨rfl,rfl,rfl,rfl⟩

theorem duplicated_keeps (x : Xact) (next : Seq) :
    (x.duplicated next).Returns fun y a => x.Keeps y ∧ a=(.retry,next.pkbuf) := by
  unfold duplicated
  cases hp : next.pkbuf with
  | none => exact ⟨Keeps.refl x,rfl⟩
  | some p => exact ⟨Keeps.of_seq ⟨rfl,rfl,rfl,rfl⟩ rfl rfl rfl,rfl⟩

theorem updateRx_local (hx : x.org = .localOriginator) (type : Byte) :
    (x.updateRx type).Returns fun y _ => x.Keeps y := by
  unfold updateRx
  rw [hx]
  cases hstage : getStage type with
  | initial => exact Keeps.refl x
  | intermediate => exact absurd hstage (getStage_ne_intermediate _)
  | final =>
    simp only
    split
    · exact Keeps.refl x
    · exact Keeps.of_local (received_same x type) hx
  | unknown => exact Keeps.refl x

theorem updateRx_copy (ho : x.org = .remoteOriginator) (hx : x.Held) :
    x.updateRx x.firstSeq.type=x.duplicated x.secondSeq := by
  unfold updateRx
  rw [ho,hx.request]
  have hstep : ¬ (x.step≠1 ∧ x.step≠2) := by
    rcases hx.response with ⟨h1,_⟩ | ⟨h2,_⟩ <;> omega
  simp only [if_neg hstep,if_true]

theorem updateRx_held (ho : x.org = .remoteOriginator) (hx : x.Held) :
    (x.updateRx x.firstSeq.type).Returns fun y a => x.Keeps y ∧ a=(.retry,x.secondSeq.pkbuf) := by
  rw [updateRx_copy ho hx]
  exact duplicated_keeps x x.secondSeq

theorem updateRx_other (ho : x.org = .remoteOriginator) (hx : x.Held)
    (hstage : getStage type = .initial) (hne : x.firstSeq.type≠type) :
    x.updateRx type = .ok x (.error,none) := by
  unfold updateRx
  rw [ho,hstage]
  have hstep : x.step≠0 := by
    rcases hx.response with ⟨h1,_⟩ | ⟨h2,_⟩ <;> omega
  simp only [if_neg hne,if_pos hstep]

theorem updateRx_same (x : Xact) (type : Byte) :
    (x.updateRx type).Returns fun y _ => x.Same y := by
  have hsame : x.Same x := ⟨rfl,rfl,rfl,rfl⟩
  have hreceived : (x.received type).Returns fun y _ => x.Same y := ⟨rfl,rfl,rfl,rfl⟩
  unfold updateRx
  cases ho : x.org <;> cases hstage : getStage type <;> simp only
  case localOriginator.intermediate => exact absurd hstage (getStage_ne_intermediate _)
  case localOriginator.final =>
    split
    · exact hsame
    · exact hreceived
  case remoteOriginator.initial =>
    split
    · split
      · exact hsame
      · exact (duplicated_keeps x x.secondSeq).mono fun _ _ h => h.1.toSame
    · split
      · exact hsame
      · exact ⟨rfl,ho.symm,rfl,rfl⟩
  case remoteOriginator.final =>
    split
    · exact hsame
    · exact hreceived
  all_goals exact hsame

end Xact

section NewXact

variable {rc : Rcounts} {id index node : Nat} {xid : BitVec 32} {type : Byte}

variable (rc id index node xid) in
theorem updateRx_new (htype : getStage type = .initial) :
    ((Xact.create rc id index .remoteOriginator xid node).updateRx type).Returns fun y a =>
      (Xact.create rc id index .remoteOriginator xid node).Same y ∧ y.Held ∧
        y.secondSeq.pkbuf=none ∧ a=(.ok,none) := by
  have hne : (0 : Byte)≠type := by
    rintro rfl
    cases htype
  unfold Xact.updateRx
  simp only [Xact.create,Xact.firstSeq,htype,Vector.getElem_replicate,if_neg hne]
  refine ⟨⟨rfl,rfl,rfl,rfl⟩,⟨?_,rfl,.inl ⟨rfl,?_⟩⟩,?_,rfl⟩
  · simpa [Xact.firstSeq,Xact.save] using htype
  · simp [Xact.secondSeq,Xact.save]
  · simp [Xact.secondSeq,Xact.save]

theorem updateRx_stray (htype : getStage type ≠ .initial) :
    (Xact.create rc id index .remoteOriginator xid node).updateRx type =
      .ok (Xact.create rc id index .remoteOriginator xid node) (.error,none) := by
  unfold Xact.updateRx
  cases hstage : getStage type with
  | initial => exact absurd hstage htype
  | intermediate => rfl
  | final => rfl
  | unknown => rfl

end NewXact

end OgsDp.Pfcp
