import OgsDp.Gtp.XactSteps

/-!
# A transaction of the peer (lib/gtp/xact.c)

Two messages: the request and its reply.
-/

namespace OgsDp.Gtp
open Lib OgsDp.Core

namespace Xact

def stage (x : Xact) (type : Byte) : Stage := getStage x.gtpVersion type x.xid

inductive Phase (x : Xact) : Prop
  | received (step : x.step=1) (silent : x.secondSeq=⟨0,none⟩)
  | replied (step : x.step=2) (final : x.stage x.secondSeq.type = .final)
      (sent : x.secondSeq.pkbuf.isSome)
  | triggered (step : x.step=2) (intermediate : x.stage x.secondSeq.type = .intermediate)
      (sent : x.secondSeq.pkbuf.isSome)
  | answered (step : x.step=3) (intermediate : x.stage x.secondSeq.type = .intermediate)
      (sent : x.secondSeq.pkbuf.isSome) (final : x.stage x.thirdSeq.type = .final)

/-- A message of the peer that was handed to the application, and what followed it. -/
structure Held (x : Xact) : Prop where
  request : x.stage x.firstSeq.type = .initial
  phase : x.Phase

structure Serves (x y : Xact) : Prop extends x.Kept y where
  held : x.org = .remoteOriginator → x.Held → y.Held
  reply : x.org = .remoteOriginator → x.Held →
    ∀ p,x.secondSeq.pkbuf=some p → y.secondSeq.pkbuf=some p

variable {x y : Xact} {type : Byte}

theorem Kept.stage (h : x.Kept y) (type : Byte) : y.stage type=x.stage type := by
  unfold Xact.stage
  rw [h.gtpVersion,h.xid]

theorem not_triggered (h : x.secondSeq=⟨0,none⟩) : x.stage x.secondSeq.type ≠ .intermediate := by
  unfold Xact.stage
  rw [h]
  cases x.gtpVersion <;> exact fun he => nomatch he

theorem Held.begun (h : x.Held) : x.step≠0 := by
  cases h.phase with
  | received step | replied step | triggered step | answered step => omega

theorem Serves.of_local (hk : x.Kept y) (hx : x.org = .localOriginator) : x.Serves y where
  toKept := hk
  held := by
    intro ho
    rw [hx] at ho
    cases ho
  reply := by
    intro ho
    rw [hx] at ho
    cases ho

theorem Serves.of_seq (hk : x.Kept y) (hstep : y.step=x.step) (hseq : y.seq=x.seq) :
    x.Serves y where
  toKept := hk
  held := by
    intro _ hx
    have hstage:=hk.stage
    have hsecond : y.secondSeq=x.secondSeq := by rw [secondSeq,hseq]
    refine ⟨?_,?_⟩
    · rw [hstage,firstSeq,hseq]
      exact hx.request
    · cases hx.phase with
      | received step silent => exact .received (hstep.trans step) (by rw [hsecond]; exact silent)
      | replied step final sent =>
        refine .replied (hstep.trans step) ?_ (by rw [hsecond]; exact sent)
        rw [hstage,hsecond]
        exact final
      | triggered step intermediate sent =>
        refine .triggered (hstep.trans step) ?_ (by rw [hsecond]; exact sent)
        rw [hstage,hsecond]
        exact intermediate
      | answered step intermediate sent final =>
        refine .answered (hstep.trans step) ?_ (by rw [hsecond]; exact sent) ?_
        · rw [hstage,hsecond]
          exact intermediate
        · rw [hstage,thirdSeq,hseq]
          exact final
  reply := by
    intro _ _ p hp
    rw [secondSeq,hseq]
    exact hp

theorem Serves.refl (x : Xact) : x.Serves x := .of_seq (Kept.refl x) rfl rfl

theorem save_second (hstep : x.step=1) {q : Seq} (hp : q.pkbuf.isSome)
    (hstage : x.stage q.type = .intermediate ∨ x.stage q.type = .final) : x.Serves (x.save q) where
  toKept := save_kept x q
  held := by
    intro _ hx
    have hkept:=(save_kept x q).stage
    have hsecond : (x.save q).secondSeq=q := by simp [secondSeq,save,hstep]
    refine ⟨?_,?_⟩
    · rw [hkept,(save_kept x q).first hx.begun]
      exact hx.request
    · have hstep' : (x.save q).step=2 := by simp [save,hstep]
      rcases hstage with hstage | hstage
      · refine .triggered hstep' ?_ (by rw [hsecond]; exact hp)
        rw [hkept,hsecond]
        exact hstage
      · refine .replied hstep' ?_ (by rw [hsecond]; exact hp)
        rw [hkept,hsecond]
        exact hstage
  reply := by
    intro _ hx p hs
    cases hx.phase with
    | received step silent =>
      rw [silent] at hs
      cases hs
    | replied step | triggered step | answered step => omega

theorem updateTx_serves {finals : List Nat} {packet : List Byte} {rv : Rv}
    (h : x.updateTx (x.stage type) finals ⟨type,some packet⟩=some (.ok y rv)) : x.Serves y := by
  have hkept:=updateTx_kept h
  cases ho : x.org with
  | localOriginator => exact .of_local hkept ho
  | remoteOriginator =>
    unfold updateTx at h
    cases hs : x.stage type with
    | initial | unknown =>
      rw [ho,hs] at h
      cases h
      exact Serves.refl x
    | intermediate | final =>
      rw [ho,hs] at h
      simp only at h
      by_cases hstep : x.step=1
      · rw [if_neg (not_not.mpr hstep),if_pos (by omega)] at h
        cases h
        exact save_second hstep rfl (by simp [hs])
      · rw [if_pos hstep] at h
        cases h
        exact Serves.refl x

theorem updateRx_copy (ho : x.org = .remoteOriginator) (hx : x.Held) (hstep : x.step≠3) :
    (x.updateRx x.firstSeq.type).Returns fun y a =>
      x.Serves y ∧ a=(.retry,x.secondSeq.pkbuf) := by
  have hcopy : x.updateRx x.firstSeq.type=x.duplicated x.secondSeq := by
    have hreq : getStage x.gtpVersion x.firstSeq.type x.xid = .initial := hx.request
    unfold updateRx
    rw [ho,hreq]
    have h12 : ¬ (x.step≠1 ∧ x.step≠2) := by
      cases hx.phase with
      | received step | replied step | triggered step | answered step => omega
    simp only [if_neg h12,if_true]
  rw [hcopy]
  unfold duplicated
  cases hp : x.secondSeq.pkbuf with
  | none => exact ⟨Serves.refl x,rfl⟩
  | some p => exact ⟨.of_seq (hold_kept x true) rfl rfl,rfl⟩

theorem updateRx_answer (ho : x.org = .remoteOriginator) (hstep : x.step=2)
    (hsecond : x.stage x.secondSeq.type = .intermediate) (htype : x.stage type = .final) :
    (x.updateRx type).Returns fun y a => x.Serves y ∧ a=(.ok,none) := by
  have hkept:=received_kept x type
  have hrx : x.updateRx type=x.received type := by
    have hstage : getStage x.gtpVersion type x.xid = .final := htype
    unfold updateRx
    rw [ho,hstage]
    simp [hstep]
  rw [hrx]
  refine ⟨⟨hkept,?_,?_⟩,rfl⟩
  · intro _ hx
    refine ⟨?_,?_⟩
    · rw [hkept.stage,hkept.first hx.begun]
      exact hx.request
    · have hsame : ((x.stopResponse).save { x.seq[x.step]?.getD ⟨0,none⟩ with
          type := type }).secondSeq=x.secondSeq := by
        simp [secondSeq,save,stopResponse,hstep]
      refine .answered (by simp [save,stopResponse,hstep]) ?_ ?_ ?_
      · rw [hkept.stage,hsame]
        exact hsecond
      · rw [hsame]
        cases hx.phase with
        | replied step final sent | triggered step final sent | answered step final sent =>
          exact sent
        | received step => omega
      · rw [hkept.stage]
        simpa [thirdSeq,save,stopResponse,hstep] using htype
  · intro _ _ p hp
    simpa [secondSeq,save,stopResponse,hstep] using hp

theorem commit_second (ho : x.org = .remoteOriginator) (hstep : x.step=2)
    (hstage : x.stage x.secondSeq.type = .intermediate ∨ x.stage x.secondSeq.type = .final) :
    x.lastSeq=some x.secondSeq ∧ ∃ start,x.commit x.secondSeq.type = .send start := by
  refine ⟨by simp [lastSeq,hstep],?_⟩
  unfold commit
  rw [ho]
  rcases hstage with hstage | hstage
  · replace hstage : getStage x.gtpVersion x.secondSeq.type x.xid = .intermediate := hstage
    rw [hstage]
    exact ⟨true,by simp [hstep]⟩
  · replace hstage : getStage x.gtpVersion x.secondSeq.type x.xid = .final := hstage
    rw [hstage]
    exact ⟨false,by simp [hstep]⟩

theorem commit_answered (ho : x.org = .remoteOriginator) (hstep : x.step=3)
    (hstage : x.stage x.thirdSeq.type = .final) :
    x.lastSeq=some x.thirdSeq ∧ x.commit x.thirdSeq.type = .delete .ok := by
  refine ⟨by simp [lastSeq,hstep],?_⟩
  replace hstage : getStage x.gtpVersion x.thirdSeq.type x.xid = .final := hstage
  unfold commit
  rw [ho,hstage]
  simp [hstep]

variable {rc : Rcounts} {id node : Nat} {v : Version} {xid : BitVec 32} {response peer : Bool}

theorem updateRx_new (hx : x = .create rc id v .remoteOriginator xid node response peer)
    (htype : getStage v type xid = .initial) :
    (x.updateRx type).Returns fun y a =>
      x.Kept y ∧ y.Held ∧ a=(.ok,none) := by
  subst hx
  have hne : (0 : Byte)≠type := by
    intro he
    rw [← he] at htype
    cases v <;> cases htype
  unfold updateRx
  simp only [create,firstSeq,htype,Vector.getElem_replicate,if_neg hne]
  refine ⟨⟨rfl,rfl,rfl,rfl,rfl,fun h => absurd rfl h,fun h => absurd rfl h⟩,⟨?_,?_⟩,rfl⟩
  · simpa [firstSeq,save,stopResponse,stage] using htype
  · exact .received rfl (by simp [secondSeq,save,stopResponse])

theorem updateRx_stray (hx : x = .create rc id v .remoteOriginator xid node response peer)
    (htype : getStage v type xid ≠ .initial) : x.updateRx type = .ok x (.error,none) := by
  subst hx
  unfold updateRx
  cases hs : getStage v type xid with
  | initial => exact absurd hs htype
  | intermediate | final | unknown => simp [create,hs]

end Xact

end OgsDp.Gtp
