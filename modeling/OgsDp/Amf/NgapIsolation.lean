import OgsDp.Amf.GnbIndex
import OgsDp.Amf.NgapUplink

/-!
# Isolation of the gNBs (src/amf/ngap-handler.c)

A message may change the contexts of its own gNB only.
-/

namespace OgsDp.Amf
open Lib OgsDp.Core Option

inductive NgapOp where
  | call (op : UeOp)
  | uplink (n : Around) (m : UplinkMessage)

namespace Ues

variable {s t : Ues} {gnbId r u : Nat} {amfUeNgapId : BitVec 64} {n : Around}

def ngapStep (s : Ues) : NgapOp → Option (Outcome Ues Unit)
  | .call op => s.step op
  | .uplink n m => n.handleUplink s m

theorem ngapStep_pooled {op : NgapOp} (hs : s.Indexed ∧ s.RanPooled)
    (hstep : s.ngapStep op=some (.ok t ())) : t.Indexed ∧ t.RanPooled := by
  cases op with
  | call op => exact ⟨(hs.1.step hstep).1,hs.2.step (step_ranUes hs.1 hs.2 hstep)⟩
  | uplink n m => exact handleUplink_pooled hs.1 hs.2 hstep

def Own (s : Ues) (gnbId : Nat) (amfUeNgapId : BitVec 64) (r : Nat) : Prop :=
  (s.ranUe r).gnbId=gnbId ∧ (s.ranUe r).amfUeNgapId=amfUeNgapId

def Elsewhere (s : Ues) (gnbId u : Nat) : Prop :=
  ∃ r,s.cmConnected u=some r ∧ (s.ranUe r).gnbId≠gnbId

/-- Other contexts, and the UEs that are attached through other gNBs, are there as before. -/
structure Isolated (s : Ues) (gnbId : Nat) (amfUeNgapId : BitVec 64) (t : Ues) : Prop where
  ranUe : ∀ r,s.RanLive r → ¬ s.Own gnbId amfUeNgapId r → t.RanLive r ∧ t.ranUe r=s.ranUe r
  amfUe : ∀ u∈s.amfUeList,s.Elsewhere gnbId u → u∈t.amfUeList ∧ t.amfUe u=s.amfUe u

/-- The context that is found is one of the gNB and has the whole AMF-UE-NGAP-ID, its UE is not
attached through another gNB, and its release takes no other context out of a handover. -/
def FindsOwn (s : Ues) (gnbId : Nat) (amfUeNgapId : BitVec 64) : Prop :=
  ∀ r,s.ranUeFindByAmfUeNgapId amfUeNgapId=some r →
    s.Own gnbId amfUeNgapId r ∧
    (∀ p,s.releasePartner r=some p → s.Own gnbId amfUeNgapId p) ∧
    ∀ u,s.amfUeFindById (s.ranUe r).amfUeId=some u → ¬ s.Elsewhere gnbId u

theorem isolated_self (s : Ues) : s.Isolated gnbId amfUeNgapId s :=
  ⟨fun _ hc _ => ⟨hc,rfl⟩,fun _ hu _ => ⟨hu,rfl⟩⟩

theorem Confined.isolated (h : s.Confined r t) (hown : s.Own gnbId amfUeNgapId r)
    (hpartner : ∀ p,s.releasePartner r=some p → s.Own gnbId amfUeNgapId p)
    (hue : ∀ u,s.amfUeFindById (s.ranUe r).amfUeId=some u → ¬ s.Elsewhere gnbId u) :
    s.Isolated gnbId amfUeNgapId t := by
  constructor
  · intro c hc hno
    refine h.ranUe c hc ?_ fun hp => hno (hpartner c hp)
    rintro rfl
    exact hno hown
  · exact fun u hu helse => h.amfUe u hu fun hfind => hue u hfind helse

theorem isolated_of_findsOwn {body : UplinkBody} {o : Outcome Ues Unit} (hs : s.Indexed)
    (hp : s.RanPooled) (hown : s.FindsOwn gnbId amfUeNgapId)
    (h : n.handleUplink s ⟨gnbId,some (some amfUeNgapId),body⟩=some o) :
    s.Isolated gnbId amfUeNgapId o.state := by
  rcases handleUplink_confined hs hp h with hsame | ⟨id,r,hid,hr,hconfined⟩
  · rw [hsame]
    exact s.isolated_self
  · obtain rfl : amfUeNgapId=id := some.inj (some.inj hid)
    obtain ⟨hown,hpartner,hue⟩ := hown r hr
    exact hconfined.isolated hown hpartner hue

def tai1 : Tai := ⟨plmn99970,1⟩

/-- What is sent goes out, and the tracking area of `tai1` is served. -/
def around1 : Around where
  self := contextInit config1 (fun _ => Gnb.zero) 0
  nasSecurityDecode := fun _ _ _ => none
  stale := 0
  sessionContextInSmf := fun _ => false
  discoverAndSend := fun _ => some false
  sent := true

theorem around1_served : (around1.self.findServedTai tai1).isNone=false := by
  decide

variable (s) in
def locatedAndRemoved (r u : Nat) (nrCgi : NrCgi) : Ues :=
  ((s.modifyRanUe r fun ranUe => { ranUe with savedNrTai := tai1,savedNrCgi := nrCgi }).modifyUe u
    fun ue => { ue with nrTai := tai1,nrCgi := nrCgi }).ranUeRemove r

theorem handleUplink_emptyNas (hr : s.ranUeFindByAmfUeNgapId amfUeNgapId=some r)
    (hu : s.amfUeFindById (s.ranUe r).amfUeId=some u) (nrCgi : NrCgi) :
    around1.handleUplink s ⟨gnbId,some (some amfUeNgapId),
      .uplinkNasTransport (some (.nr nrCgi tai1)) (some [])⟩ =
        some (.ok (s.locatedAndRemoved r u nrCgi) ()) := by
  simp only [Around.handleUplink,hr,Around.handleUplinkNasTransport,hu,around1_served,
    Bool.false_eq_true,if_false,Around.sendToNas,if_true,locatedAndRemoved]

theorem handleUplink_setupFailure (hr : s.ranUeFindByAmfUeNgapId amfUeNgapId=some r)
    (hu : s.amfUeFindById (s.ranUe r).amfUeId=none) :
    around1.handleUplink s ⟨gnbId,some (some amfUeNgapId),
      .initialContextSetupFailure (some normalRelease)⟩ =
        some (.ok (s.modifyRanUe r fun ranUe => { ranUe with ueCtxRelAction := .ngContextRemove })
          ()) := by
  simp only [Around.handleUplink,hr,Around.handleInitialContextSetupFailure,hu,
    Around.sendRanUeContextReleaseCommand,around1,if_true]

theorem handleUplink_complete (hr : s.ranUeFindByAmfUeNgapId amfUeNgapId=some r) :
    around1.handleUplink s ⟨gnbId,some (some amfUeNgapId),.ueContextReleaseComplete⟩ =
      s.ueContextReleaseAction r := by
  simp only [Around.handleUplink,hr]

theorem not_live_ranUeRemove (hp : s.RanPooled) (hr : s.RanLive r) :
    ¬ (s.ranUeRemove r).RanLive r := by
  obtain ⟨-,hlive,-⟩ := ranUeRemove_pool hp.pool hr
  exact fun h => ((hlive r).mp h).2 rfl

theorem own_of_isolated (hp : s.RanPooled)
    (hr : s.ranUeFindByAmfUeNgapId amfUeNgapId=some r)
    (h : ∀ n body o,Around.handleUplink n s ⟨gnbId,some (some amfUeNgapId),body⟩=some o →
      s.Isolated gnbId amfUeNgapId o.state) : s.Own gnbId amfUeNgapId r := by
  by_contra hno
  have hlive:=ranUeFind_live hp hr
  cases hu : s.amfUeFindById (s.ranUe r).amfUeId with
  | some u =>
    have hisolated:=h _ _ _ (handleUplink_emptyNas hr hu zeroNrCgi)
    have hmodified : (s.modifyRanUe r fun ranUe =>
        { ranUe with savedNrTai := tai1,savedNrCgi := zeroNrCgi }).RanPooled :=
      hp.modifyRanUe fun _ => rfl
    exact not_live_ranUeRemove (hmodified.kept rfl rfl) hlive (hisolated.ranUe r hlive hno).1
  | none =>
    have hsame:=((h _ _ _ (handleUplink_setupFailure hr hu)).ranUe r hlive hno).2
    have haction : (s.ranUe r).ueCtxRelAction = .ngContextRemove := by
      rw [← hsame]
      simp [Outcome.state,modifyRanUe]
    have hremove : s.ueContextReleaseAction r=some (.ok (s.ranUeRemove r) ()) := by
      simp only [ueContextReleaseAction,haction]
    have hisolated:=h _ _ _ ((handleUplink_complete hr).trans hremove)
    exact not_live_ranUeRemove hp hlive (hisolated.ranUe r hlive hno).1

theorem partner_live {p : Nat} (hp : s.RanPooled) (h : s.partner r=some p) : s.RanLive p := by
  unfold partner at h
  split at h
  · exact (hp.ids _ p (filter_eq_some_iff.mp h).1).1
  · split at h
    · exact (hp.ids _ p (filter_eq_some_iff.mp h).1).1
    · cases h

theorem partner_changed {p : Nat} (h : s.partner r=some p) (hne : p≠r) :
    ∃ t,s.sourceUeDeassociateTargetUe r = .ok t () ∧ t.ranUe p≠s.ranUe p := by
  unfold partner at h
  unfold sourceUeDeassociateTargetUe
  split at h
  · rename_i hvalid
    obtain ⟨hfind,hvalid'⟩ := filter_eq_some_iff.mp h
    rw [if_pos hvalid,hfind,unlink,if_pos ⟨hvalid,hvalid'⟩]
    refine ⟨_,rfl,fun heq => validId_ne_zero hvalid' ?_⟩
    rw [← heq]
    simp [modifyRanUe]
  · rename_i hno
    rw [if_neg hno]
    split at h
    · rename_i hvalid
      obtain ⟨hfind,hvalid'⟩ := filter_eq_some_iff.mp h
      rw [if_pos hvalid,hfind,unlink,if_pos ⟨hvalid',hvalid⟩]
      refine ⟨_,rfl,fun heq => validId_ne_zero hvalid' ?_⟩
      rw [← heq]
      simp [modifyRanUe,hne]
    · cases h

theorem releasePartner_changed {p : Nat} (h : s.releasePartner r=some p) (hne : p≠r) :
    s.partner r=some p ∧ ∃ t,s.ueContextReleaseAction r=some (.ok t ()) ∧
      t.ranUe p≠s.ranUe p := by
  have hrelease : s.releasePartner r=s.partner r → s.ueContextReleaseAction r =
      some ((s.sourceUeDeassociateTargetUe r).bind fun s _ => .ok (s.ranUeRemove r) ()) →
        s.partner r=some p ∧ ∃ t,s.ueContextReleaseAction r=some (.ok t ()) ∧
          t.ranUe p≠s.ranUe p := by
    intro hpartner ho
    have hp:=hpartner.symm.trans h
    obtain ⟨t,ht,hchanged⟩ := partner_changed hp hne
    rw [ho,ht,Outcome.bind_ok]
    exact ⟨hp,_,rfl,hchanged⟩
  cases haction : (s.ranUe r).ueCtxRelAction with
  | ngHandoverComplete | ngHandoverCancel | ngHandoverFailure =>
    apply hrelease
    · simp only [releasePartner,haction]
    · simp only [ueContextReleaseAction,haction]
  | invalidAction | ngContextRemove | ngRemoveAndUnlink | ueContextRemove =>
    simp [releasePartner,haction] at h

theorem findsOwn_of_isolated (hs : s.Indexed) (hp : s.RanPooled)
    (h : ∀ n body o,Around.handleUplink n s ⟨gnbId,some (some amfUeNgapId),body⟩=some o →
      s.Isolated gnbId amfUeNgapId o.state) : s.FindsOwn gnbId amfUeNgapId := by
  intro r hr
  have hown:=own_of_isolated hp hr h
  refine ⟨hown,fun p hpartner => ?_,fun u hu helse => ?_⟩
  · by_contra hno
    have hne : p≠r := by
      rintro rfl
      exact hno hown
    obtain ⟨hpartner,t,ht,hchanged⟩ := releasePartner_changed hpartner hne
    have hisolated:=h _ _ _ ((handleUplink_complete hr).trans ht)
    exact hchanged (hisolated.ranUe p (partner_live hp hpartner) hno).2
  · -- any cell but the one that the UE is in
    have hisolated:=h _ _ _
      (handleUplink_emptyNas hr hu ⟨zeroPlmn,(s.amfUe u).nrCgi.cellId+1⟩)
    have hsame:=(hisolated.amfUe u (hs.ids _ u hu).1 helse).2
    have hcell:=congrArg (fun ue => ue.nrCgi.cellId) hsame
    simp [Outcome.state,locatedAndRemoved,Ues.ranUeRemove,Ues.modifyUe] at hcell

end Ues

theorem isolation_run (config : UeConfig) (s : Ues) (ops : List NgapOp) :
    ∀ t∈completed Ues.ngapStep (Ues.init config s) ops,∀ gnbId amfUeNgapId,
      (∀ (n : Around) (body : UplinkBody) (o : Outcome Ues Unit),
        n.handleUplink t ⟨gnbId,some (some amfUeNgapId),body⟩=some o →
          t.Isolated gnbId amfUeNgapId o.state) ↔ t.FindsOwn gnbId amfUeNgapId := by
  have hinv : ∀ t∈completed Ues.ngapStep (Ues.init config s) ops,t.Indexed ∧ t.RanPooled :=
    completed_inv (C := fun _ _ => True)
      (fun s op t _ hs _ ht => Ues.ngapStep_pooled hs ht)
      ⟨Ues.Indexed.init config s,Ues.RanPooled.init config s⟩
      (eachStep_of_forall fun _ _ => trivial)
  intro t ht gnbId amfUeNgapId
  obtain ⟨hs,hp⟩ := hinv t ht
  exact ⟨fun h => Ues.findsOwn_of_isolated hs hp h,
    fun hown n body o ho => Ues.isolated_of_findsOwn hs hp hown ho⟩

def attached1 : List NgapOp := [.call (.ranUeAdd 1 2 5 true)]

def afterAttached1 : Ues := ((completed Ues.ngapStep ues2 attached1)[1]?).getD ues2

theorem afterAttached1_mem : afterAttached1∈completed Ues.ngapStep ues2 attached1 :=
  List.mem_of_getElem? (i := 1) rfl

theorem afterAttached1_find : afterAttached1.ranUeFindByAmfUeNgapId 1=some 0 := by
  decide

theorem afterAttached1_ue :
    afterAttached1.amfUeFindById (afterAttached1.ranUe 0).amfUeId=none := by
  decide

/-- A message of gNB 1 changes nothing else. -/
theorem isolation_run_attached : ∃ o,Ues.around1.handleUplink afterAttached1 ⟨1,some (some 1),
      .initialContextSetupFailure (some normalRelease)⟩=some o ∧
    afterAttached1.Isolated 1 1 o.state := by
  have hown : afterAttached1.FindsOwn 1 1 := by
    intro r hr
    obtain rfl := some.inj (afterAttached1_find.symm.trans hr)
    refine ⟨by unfold Ues.Own; decide,fun p hp => ?_,fun u hu => ?_⟩
    · have hnone : afterAttached1.releasePartner 0=none := by decide
      cases hnone.symm.trans hp
    · cases afterAttached1_ue.symm.trans hu
  have hrun:=isolation_run ueConfig2 ues2 attached1 afterAttached1 afterAttached1_mem 1 1
  exact ⟨_,Ues.handleUplink_setupFailure afterAttached1_find afterAttached1_ue,
    hrun.mpr hown _ _ _ (Ues.handleUplink_setupFailure afterAttached1_find afterAttached1_ue)⟩

/-- The same message of gNB 2. -/
theorem isolation_broken : ¬ ∀ t ∈ completed Ues.ngapStep ues2 attached1,
    ∀ (n : Around) (body : UplinkBody) (o : Outcome Ues Unit),
      n.handleUplink t ⟨2,some (some 1),body⟩=some o → t.Isolated 2 1 o.state := by
  intro h
  have hlive : afterAttached1.ranUePool.index 0=some 0 := by decide
  have hgnb : (afterAttached1.ranUe 0).gnbId=1 := by decide
  have haction : (afterAttached1.ranUe 0).ueCtxRelAction = .invalidAction := by decide
  have hisolated:=h _ afterAttached1_mem _ _ _
    (Ues.handleUplink_setupFailure afterAttached1_find afterAttached1_ue)
  have hown : ¬ afterAttached1.Own 2 1 0 := by
    intro hown
    have hgnb':=hgnb.symm.trans hown.1
    cases hgnb'
  have hsame:=congrArg RanUe.ueCtxRelAction (hisolated.ranUe 0 hlive hown).2
  rw [haction] at hsame
  simp [Outcome.state,Ues.modifyRanUe] at hsame

end OgsDp.Amf
