import OgsDp.Pfcp.Rules

/-!
# The rules a PDR refers to

`far`, `urr` and `qer` of a PDR are set by Create PDR alone, to rules that its session lists.
-/

namespace OgsDp.Pfcp
open Lib RefTable OgsDp.Core Function List Option

structure Pdr.RefersTo (x : Pdr) (far urr qer : List Nat) : Prop where
  far : ∀ r∈x.far,r∈far
  urr : ∀ r∈x.urr,r∈urr
  qer : ∀ r∈x.qer,r∈qer

def RefsLive (c : Context) : Prop :=
  ∀ s,∀ p∈c.pdrList s,(c.pdr p).RefersTo (c.far.list s) (c.urr.list s) (c.qer.list s)

def Op.removedFar (c : Context) : Op → Option Nat
  | .far op => op.removed c.far
  | _ => none

def Op.removedUrr (c : Context) : Op → Option Nat
  | .urr _ op => op.removed c.urr
  | _ => none

def Op.removedQer (c : Context) : Op → Option Nat
  | .qer op => op.removed c.qer
  | _ => none

/-- A rule that the call removes is none that a PDR of its session refers to. -/
def RemovesUnreferenced (c : Context) (op : Op) : Prop :=
  (∀ r∈op.removedFar c,∀ p∈c.pdrList (c.far.slot r).sess,(c.pdr p).far≠some r) ∧
    (∀ r∈op.removedUrr c,∀ p∈c.pdrList (c.urr.slot r).sess,r∉(c.pdr p).urr) ∧
      ∀ r∈op.removedQer c,∀ p∈c.pdrList (c.qer.slot r).sess,(c.pdr p).qer≠some r

instance (c : Context) (op : Op) : Decidable (RemovesUnreferenced c op) :=
  inferInstanceAs (Decidable (_ ∧ _ ∧ _))

structure Linked (c : Context) : Prop where
  pdrs : c.PdrsOk
  far : c.far.Ok
  urr : c.urr.Ok
  qer : c.qer.Ok
  refs : RefsLive c

def Pdr.refs (x : Pdr) : Option Nat × List Nat × Option Nat := (x.far,x.urr,x.qer)

theorem Pdr.RefersTo.congr {x x' : Pdr} {far urr qer : List Nat} (h : x.RefersTo far urr qer)
    (hx : x'.refs=x.refs) : x'.RefersTo far urr qer := by
  simp only [Pdr.refs,Prod.mk.injEq] at hx
  exact ⟨hx.1 ▸ h.far,hx.2.1 ▸ h.urr,hx.2.2 ▸ h.qer⟩

structure SameRefs (c c' : Context) : Prop where
  pdrs : c.SamePdrs c'
  refs : ∀ p,(c'.pdr p).refs=(c.pdr p).refs
  far : c'.far=c.far
  urr : c'.urr=c.urr
  qer : c'.qer=c.qer

theorem SameRefs.refl (c : Context) : SameRefs c c := ⟨.refl c,fun _ => rfl,rfl,rfl,rfl⟩

theorem sameRefs_modify (c : Context) (p : Nat) {f : Pdr → Pdr} (hsess : ∀ x,(f x).sess=x.sess)
    (hrefs : ∀ x,(f x).refs=x.refs) : SameRefs c (c.modify p f) :=
  ⟨Context.samePdrs_modify c p hsess,Context.modify_pdr_frame c p f Pdr.refs hrefs,rfl,rfl,rfl⟩

namespace Linked

variable {c c' : Context} {s p : Nat}

theorem init (poolSess : Nat) (random : Nat → Nat) (seed : BitVec 32) :
    Linked (contextInit poolSess random seed) where
  pdrs := .init poolSess random seed
  far := .init farKind poolSess
  urr := .init urrKind poolSess
  qer := .init qerKind poolSess
  refs := fun _ _ h => by cases h

theorem congr (h : Linked c) (hc : SameRefs c c') : Linked c' where
  pdrs := h.pdrs.congr hc.pdrs
  far := hc.far ▸ h.far
  urr := hc.urr ▸ h.urr
  qer := hc.qer ▸ h.qer
  refs := by
    intro s p hp
    rw [hc.far,hc.urr,hc.qer]
    exact (h.refs s p ((hc.pdrs.list s).mem_iff.mp hp)).congr (hc.refs p)

theorem modify (h : Linked c) (hp : p∈c.pdrList s) {f : Pdr → Pdr}
    (hsess : ∀ x,(f x).sess=x.sess)
    (hrefs : (f (c.pdr p)).RefersTo (c.far.list s) (c.urr.list s) (c.qer.list s)) :
    Linked (c.modify p f) where
  pdrs := h.pdrs.congr (Context.samePdrs_modify c p hsess)
  far := h.far
  urr := h.urr
  qer := h.qer
  refs := by
    intro s' p' hp'
    by_cases he : p'=p
    · subst he
      have hs : s'=s := (h.pdrs.sess s' p' hp').symm.trans (h.pdrs.sess s p' hp)
      subst hs
      simpa only [Context.modify,update_self] using hrefs
    · simpa only [Context.modify,update_of_ne he] using h.refs s' p' hp'

theorem setRules (h : Linked c) {far : RuleTable Far} {urr : RuleTable Urr} {qer : RuleTable Qer}
    (hfar : far.Ok) (hurr : urr.Ok) (hqer : qer.Ok)
    (hkeep : ∀ s,∀ p ∈ c.pdrList s,
      (c.pdr p).RefersTo (c.far.list s) (c.urr.list s) (c.qer.list s) →
        (c.pdr p).RefersTo (far.list s) (urr.list s) (qer.list s)) :
    Linked { c with far := far,urr := urr,qer := qer } where
  pdrs := h.pdrs.congr ⟨rfl,fun _ => Perm.refl _,fun _ => rfl⟩
  far := hfar
  urr := hurr
  qer := hqer
  refs := fun s p hp => hkeep s p hp (h.refs s p hp)

theorem growFar (h : Linked c) {t : RuleTable Far} (ht : c.far.Grows t) :
    Linked { c with far := t } :=
  h.setRules ht.ok h.urr h.qer fun s _ _ hr => ⟨fun r hm => ht.list s (hr.far r hm),hr.urr,hr.qer⟩

theorem growUrr (h : Linked c) {t : RuleTable Urr} (ht : c.urr.Grows t) :
    Linked { c with urr := t } :=
  h.setRules h.far ht.ok h.qer fun s _ _ hr => ⟨hr.far,fun r hm => ht.list s (hr.urr r hm),hr.qer⟩

theorem growQer (h : Linked c) {t : RuleTable Qer} (ht : c.qer.Grows t) :
    Linked { c with qer := t } :=
  h.setRules h.far h.urr ht.ok fun s _ _ hr => ⟨hr.far,hr.urr,fun r hm => ht.list s (hr.qer r hm)⟩

theorem pdrAdd (h : Linked c) (s : Nat) :
    (Pfcp.pdrAdd c s).Returns fun c' r => Linked c' ∧ ∀ p∈r,p∈c'.pdrList s := by
  refine (pdrAdd_returns h.pdrs s).mono ?_
  intro c' r hadd
  obtain ⟨hok,hadd⟩ := hadd
  cases hadd with
  | full => exact ⟨h,by simp⟩
  | @noId p k pool teidPool hp hk =>
    refine ⟨⟨hok,h.far,h.urr,h.qer,?_⟩,by simp⟩
    intro s' p' hp'
    have hne : p'≠p := fun he => hp ⟨s',he ▸ hp'⟩
    simpa only [update_of_ne hne] using h.refs s' p' hp'
  | @added p k i pool teidPool idPool hp hk =>
    refine ⟨⟨hok,h.far,h.urr,h.qer,?_⟩,by simp⟩
    intro s' p' hp'
    rcases mem_update_append.mp hp' with hp' | ⟨-,rfl⟩
    · have hne : p'≠p := fun he => hp ⟨s',he ▸ hp'⟩
      simpa only [update_of_ne hne] using h.refs s' p' hp'
    · simp only [update_self]
      exact ⟨by simp [blankPdr,Pdr.zero],by simp [blankPdr,Pdr.zero],
        by simp [blankPdr,Pdr.zero]⟩

theorem pdrFindOrAdd (h : Linked c) (s : Nat) (id : BitVec 16) :
    (Pfcp.pdrFindOrAdd c s id).Returns fun c' p => Linked c' ∧ p∈c'.pdrList s := by
  simp only [Pfcp.pdrFindOrAdd]
  cases hfind : pdrFind c s id with
  | some p => exact ⟨h,pdrFind_mem hfind⟩
  | none =>
    refine (h.pdrAdd s).bind ?_
    intro c' p h'
    cases p with
    | none => trivial
    | some p =>
      have hsame : SameRefs c' (c'.modify p fun x => { x with id := id }) :=
        sameRefs_modify c' p (fun _ => rfl) fun _ => rfl
      exact ⟨h'.1.congr hsame,h'.2 p rfl⟩

theorem pdrRemove (h : Linked c) (hp : p∈c.pdrList s) : Linked (Pfcp.pdrRemove c p) := by
  obtain ⟨hok,hpdr,hmem⟩ := pdrRemove_pdrsOk h.pdrs hp
  have hrules : (Pfcp.pdrRemove c p).far=c.far ∧ (Pfcp.pdrRemove c p).urr=c.urr ∧
      (Pfcp.pdrRemove c p).qer=c.qer := by
    simp only [Pfcp.pdrRemove]
    split <;> exact ⟨rfl,rfl,rfl⟩
  obtain ⟨hfar,hurr,hqer⟩ := hrules
  refine ⟨hok,hfar ▸ h.far,hurr ▸ h.urr,hqer ▸ h.qer,?_⟩
  intro s' p' hp'
  rw [hpdr,hfar,hurr,hqer]
  exact h.refs s' p' ((hmem s' p').mp hp').1

theorem createPdrPdi (h : Linked c) (hp : p∈c.pdrList s) (pdi : Pdi) :
    (Pfcp.createPdrPdi c p pdi).Returns fun c' _ => Linked c' ∧ p∈c'.pdrList s := by
  have h0 : Linked (c.modify p (resetByPdi pdi)) :=
    h.congr (sameRefs_modify c p (fun _ => rfl) fun _ => rfl)
  simp only [Pfcp.createPdrPdi]
  cases pdi.localFTeid with
  | none => exact ⟨h0,hp⟩
  | some data =>
    simp only
    split
    · refine ⟨h0.congr (sameRefs_modify (c.modify p (resetByPdi pdi)) p ?_ ?_),hp⟩
      · simp
      · simp [Pdr.refs]
    · trivial

theorem createPdrFar (h : Linked c) (hp : p∈c.pdrList s) (farId : Option (BitVec 32)) :
    (Pfcp.createPdrFar c s p farId).Returns fun c' _ => Linked c' ∧ p∈c'.pdrList s := by
  have hrefs:=h.refs s p hp
  have h0 : Linked (c.modify p fun x => { x with far := none }) :=
    h.modify hp (fun _ => rfl) ⟨by simp,hrefs.urr,hrefs.qer⟩
  simp only [Pfcp.createPdrFar]
  cases farId with
  | none => exact ⟨h0,hp⟩
  | some id =>
    have hfind:=h0.far.findOrAdd farKind s id
    refine Outcome.Returns.bind (R := fun c' r => Linked c' ∧ p∈c'.pdrList s ∧ r∈c'.far.list s)
      (Outcome.Returns.mapState (hfind.mono fun t r hr => ⟨h0.growFar hr.1,hp,hr.2⟩)) ?_
    intro c' r h'
    have hrefs':=h'.1.refs s p h'.2.1
    exact ⟨h'.1.modify h'.2.1 (fun _ => rfl)
      ⟨by simpa using h'.2.2,hrefs'.urr,hrefs'.qer⟩,h'.2.1⟩

theorem associateUrr (h : Linked c) (hp : p∈c.pdrList s) {u : Nat} (hu : u∈c.urr.list s) :
    (Pfcp.pdrAssociateUrr c p u).Returns fun c' _ => Linked c' ∧ p∈c'.pdrList s := by
  simp only [Pfcp.pdrAssociateUrr]
  split
  · split
    · exact ⟨h,hp⟩
    · have hrefs:=h.refs s p hp
      refine ⟨h.modify hp (fun _ => rfl) ⟨hrefs.far,?_,hrefs.qer⟩,hp⟩
      intro r hr
      rcases mem_append.mp hr with hr | hr
      · exact hrefs.urr r hr
      · rw [mem_singleton.mp hr]
        exact hu
  · trivial

theorem createPdrUrr (ids : List (BitVec 32)) :
    ∀ {c : Context}, Linked c → p∈c.pdrList s →
      (Pfcp.createPdrUrr s p c ids).Returns fun c' _ => Linked c' ∧ p∈c'.pdrList s := by
  induction ids with
  | nil => exact fun h hp => ⟨h,hp⟩
  | cons id ids ih =>
    intro c h hp
    simp only [Pfcp.createPdrUrr]
    have hfind:=h.urr.findOrAdd urrKind s id
    refine Outcome.Returns.bind (R := fun c' u => Linked c' ∧ p∈c'.pdrList s ∧ u∈c'.urr.list s)
      (Outcome.Returns.mapState (hfind.mono fun t u hu => ⟨h.growUrr hu.1,hp,hu.2⟩)) ?_
    intro c' u h'
    exact (h'.1.associateUrr h'.2.1 h'.2.2).bind fun c' _ h' => ih h'.1 h'.2

theorem createPdrQer (h : Linked c) (hp : p∈c.pdrList s) (qerId : Option (BitVec 32)) :
    (Pfcp.createPdrQer c s p qerId).Returns fun c' _ => Linked c' := by
  have hrefs:=h.refs s p hp
  have h0 : Linked (c.modify p fun x => { x with qer := none }) :=
    h.modify hp (fun _ => rfl) ⟨hrefs.far,hrefs.urr,by simp⟩
  simp only [Pfcp.createPdrQer]
  cases qerId with
  | none => exact h0
  | some id =>
    have hfind:=h0.qer.findOrAdd qerKind s id
    refine Outcome.Returns.bind (R := fun c' r => Linked c' ∧ p∈c'.pdrList s ∧ r∈c'.qer.list s)
      (Outcome.Returns.mapState (hfind.mono fun t r hr => ⟨h0.growQer hr.1,hp,hr.2⟩)) ?_
    intro c' r h'
    have hrefs':=h'.1.refs s p h'.2.1
    exact h'.1.modify h'.2.1 (fun _ => rfl) ⟨hrefs'.far,hrefs'.urr,by simpa using h'.2.2⟩

theorem reorder (h : Linked c) (hp : p∈c.pdrList s) (v : Option (BitVec 32)) :
    Linked (v.elim c (pdrReorderByPrecedence c p)) ∧
      p∈(v.elim c (pdrReorderByPrecedence c p)).pdrList s := by
  cases v with
  | none => exact ⟨h,hp⟩
  | some v =>
    have hsame:=reorder_samePdrs h.pdrs hp v
    refine ⟨h.congr ⟨hsame,?_,rfl,rfl,rfl⟩,(hsame.list s).mem_iff.mpr hp⟩
    exact Context.modify_pdr_frame c p (fun x => { x with precedence := v }) Pdr.refs fun _ => rfl

theorem handleCreatePdr (h : Linked c) (env : Env) (s : Nat) (restoration : Bool)
    (m : Option CreatePdr) :
    (Pfcp.handleCreatePdr env c s restoration m).Returns fun c' _ => Linked c' := by
  cases m with
  | none => exact h
  | some m =>
    simp only [Pfcp.handleCreatePdr]
    cases m.pdrId with
    | none => exact h
    | some id =>
      refine (h.pdrFindOrAdd s id).bind ?_
      intro c1 p h1
      obtain ⟨h2,hp⟩ := h1.1.reorder h1.2 m.precedence
      generalize m.precedence.elim c1 (pdrReorderByPrecedence c1 p)=c2 at h2 hp ⊢
      cases createPdrCheck env c2 restoration m.pdi with
      | error reply => exact h2
      | ok pdi =>
        simp only
        split
        · refine (h2.createPdrPdi hp pdi).bind fun c3 _ h3 => ?_
          refine (h3.1.createPdrFar h3.2 m.farId).bind fun c4 _ h4 => ?_
          have hrefs:=h4.1.refs s p h4.2
          have h5 : Linked (c4.modify p fun x => { x with urr := [] }) :=
            h4.1.modify h4.2 (fun _ => rfl) ⟨hrefs.far,by simp,hrefs.qer⟩
          refine (createPdrUrr m.urrId h5 h4.2).bind fun c6 _ h6 => ?_
          exact (h6.1.createPdrQer h6.2 m.qerId).bind fun c7 _ h7 => h7
        · trivial

end Linked

theorem handleCreatedPdr_sameRefs (env : Env) (c : Context) (s : Nat) (m : Option CreatedPdr) :
    (handleCreatedPdr env c s m).Returns fun c' _ => SameRefs c c' := by
  cases m with
  | none => exact .refl c
  | some m =>
    simp only [handleCreatedPdr]
    cases knownPdr c s m.pdrId with
    | error reply => exact .refl c
    | ok p =>
      cases m.localFTeid with
      | none => exact .refl c
      | some data =>
        simp only
        split
        · exact .refl c
        · split
          · exact sameRefs_modify c p (by simp [overlayFTeid]) (by simp [overlayFTeid,Pdr.refs])
          · trivial

theorem SameRefs.trans {c c' c'' : Context} (h : SameRefs c c') (h' : SameRefs c' c'') :
    SameRefs c c'' where
  pdrs := h.pdrs.trans h'.pdrs
  refs := fun p => (h'.refs p).trans (h.refs p)
  far := h'.far.trans h.far
  urr := h'.urr.trans h.urr
  qer := h'.qer.trans h.qer

theorem handleUpdatePdr_sameRefs (env : Env) (c : Context) (s : Nat) (m : Option UpdatePdr) :
    (handleUpdatePdr env c s m).Returns fun c' _ => SameRefs c c' := by
  cases m with
  | none => exact .refl c
  | some m =>
    simp only [handleUpdatePdr]
    cases knownPdr c s m.pdrId with
    | error reply => exact .refl c
    | ok p =>
      cases m.pdi with
      | none => exact .refl c
      | some pdi =>
        simp only
        split
        · exact .refl c
        · split
          · exact .refl c
          · split
            · refine SameRefs.trans (sameRefs_modify c p (f := fun x => { x with
                srcIf := pdi.sourceInterface.getD 0
                srcIfType := pdi.sourceInterfaceType.or x.srcIfType }) (by simp)
                (by simp [Pdr.refs])) (sameRefs_modify _ p ?_ ?_)
              · cases pdi.localFTeid <;> simp [overlayFTeid]
              · cases pdi.localFTeid <;> simp [overlayFTeid,Pdr.refs]
            · trivial

theorem chooseFTeid_sameRefs (env : Env) (c : Context) (p : Nat) :
    (pdrChooseFTeid env c p).Returns fun c' _ => SameRefs c c' := by
  simp only [pdrChooseFTeid]
  split
  · split
    · split
      · exact sameRefs_modify c p (by simp) (by simp [Pdr.refs])
      · trivial
    · cases chooseFTeid env (c.pdr p) with
      | none => trivial
      | some r =>
        simp only
        split
        · exact (sameRefs_modify c p (f := fun x =>
            { x with chid := true,chooseId := x.fTeid.chooseId }) (by simp)
            (by simp [Pdr.refs])).trans (sameRefs_modify _ p (by simp) (by simp [Pdr.refs]))
        · exact sameRefs_modify c p (by simp) (by simp [Pdr.refs])
  · exact .refl c

theorem setTeid_sameRefs (type : ObjType) (c : Context) (p : Nat) :
    SameRefs c (pdrSetTeid type (pdrUnsetTeid c p) p) := by
  have h:=sameRefs_modify c p (f := fun x => { x with hashKey := x.fTeid.teid,hashLen := 4 })
    (by simp) (by simp [Pdr.refs])
  simp only [pdrSetTeid,pdrUnsetTeid]
  split <;> exact ⟨⟨rfl,h.pdrs.list,h.pdrs.sess⟩,h.refs,rfl,rfl,rfl⟩

theorem swapTeid_sameRefs (c : Context) (p : Nat) :
    (pdrSwapTeid c p).Returns fun c' _ => SameRefs c c' := by
  have hself : ∀ a,SameRefs c { c with teidArray := a } :=
    fun a => ⟨⟨rfl,fun _ => Perm.refl _,fun _ => rfl⟩,fun _ => rfl,rfl,rfl,rfl⟩
  simp only [pdrSwapTeid]
  split
  · split
    · split
      · split
        · exact hself _
        · exact .refl c
      · trivial
    · exact .refl c
  · trivial

namespace Linked

variable {c : Context}

theorem handleRemovePdr (h : Linked c) (s : Nat) (m : Option (Option (BitVec 16))) :
    Linked (Pfcp.handleRemovePdr c s m).1 := by
  cases m with
  | none => exact h
  | some id =>
    cases id with
    | none => exact h
    | some id =>
      simp only [Pfcp.handleRemovePdr]
      cases hfind : pdrFind c s id with
      | none => exact h
      | some p => exact h.pdrRemove (pdrFind_mem hfind)

theorem step (h : Linked c) {op : Op} (hc : RemovesUnreferenced c op) {o : Outcome Context Reply}
    (ho : c.step op=some o) : o.Returns fun c' _ => Linked c' := by
  cases op with
  | pdrAdd s =>
    simp only [Context.step,some.injEq] at ho
    exact ho ▸ (h.pdrAdd s).bind fun c' r h' => h'.1
  | pdrFindOrAdd s id =>
    simp only [Context.step,some.injEq] at ho
    exact ho ▸ (h.pdrFindOrAdd s id).bind fun c' r h' => h'.1
  | pdrRemove s p =>
    simp only [Context.step,ite_none_right_eq_some,some.injEq] at ho
    exact ho.2 ▸ h.pdrRemove ho.1
  | pdrSwapTeid s p =>
    simp only [Context.step,ite_none_right_eq_some,some.injEq] at ho
    exact ho.2 ▸ (swapTeid_sameRefs c p).bind fun c' _ h' => h.congr h'
  | objectTeidHashSet env type s p =>
    simp only [Context.step,ite_none_right_eq_some,some.injEq] at ho
    rw [← ho.2]
    refine Outcome.Returns.bind (R := fun c' _ => SameRefs c c') ?_ fun c' _ h' => h.congr h'
    exact (chooseFTeid_sameRefs env c p).bind fun c' _ h' =>
      h'.trans (setTeid_sameRefs type c' p)
  | handleCreatePdr env s restoration m =>
    simp only [Context.step,some.injEq] at ho
    exact ho ▸ h.handleCreatePdr env s restoration m
  | handleCreatedPdr env s m =>
    simp only [Context.step,some.injEq] at ho
    exact ho ▸ (handleCreatedPdr_sameRefs env c s m).mono fun c' _ h' => h.congr h'
  | handleUpdatePdr env s m =>
    simp only [Context.step,some.injEq] at ho
    exact ho ▸ (handleUpdatePdr_sameRefs env c s m).mono fun c' _ h' => h.congr h'
  | handleRemovePdr s m =>
    simp only [Context.step,some.injEq] at ho
    exact ho ▸ h.handleRemovePdr s m
  | far op =>
    simp only [Context.step,map_eq_some_iff] at ho
    obtain ⟨o',ho',rfl⟩ := ho
    refine Outcome.Returns.mapState ((farStep_returns h.far ho').mono fun t _ ht => ?_)
    refine h.setRules ht.1 h.urr h.qer fun s p hp hr => ⟨fun r hm => ?_,hr.urr,hr.qer⟩
    refine ht.2 s r (hr.far r hm) fun he => ?_
    have hs:=h.far.sess s r (hr.far r hm)
    exact hc.1 r he p (hs ▸ hp) hm
  | handleUpdateFarFlags s m =>
    simp only [Context.step,some.injEq] at ho
    rw [← ho]
    exact Outcome.Returns.mapState
      ((h.far.handleRule _ _ _ s m).mono fun t _ ht => h.growFar ht)
  | urr env op =>
    simp only [Context.step,map_eq_some_iff] at ho
    obtain ⟨o',ho',rfl⟩ := ho
    refine Outcome.Returns.mapState ((urrStep_returns h.urr ho').mono fun t _ ht => ?_)
    refine h.setRules h.far ht.1 h.qer fun s p hp hr => ⟨hr.far,fun r hm => ?_,hr.qer⟩
    refine ht.2 s r (hr.urr r hm) fun he => ?_
    have hs:=h.urr.sess s r (hr.urr r hm)
    exact hc.2.1 r he p (hs ▸ hp) hm
  | qer op =>
    simp only [Context.step,map_eq_some_iff] at ho
    obtain ⟨o',ho',rfl⟩ := ho
    refine Outcome.Returns.mapState ((qerStep_returns h.qer ho').mono fun t _ ht => ?_)
    refine h.setRules h.far h.urr ht.1 fun s p hp hr => ⟨hr.far,hr.urr,fun r hm => ?_⟩
    refine ht.2 s r (hr.qer r hm) fun he => ?_
    have hs:=h.qer.sess s r (hr.qer r hm)
    exact hc.2.2 r he p (hs ▸ hp) hm

end Linked

/-- In a run that removes no rule a PDR refers to, the references are live after every call. -/
theorem refs_live_run (poolSess : Nat) (random : Nat → Nat) (seed : BitVec 32) (ops : List Op)
    (hops : EachStep Context.step RemovesUnreferenced (contextInit poolSess random seed) ops) :
    ∀ c∈completed Context.step (contextInit poolSess random seed) ops,RefsLive c := by
  have hstep : ∀ c op c' r,Linked c → RemovesUnreferenced c op →
      c.step op=some (.ok c' r) → Linked c' := by
    intro c op c' r h hc ho
    exact h.step hc ho
  intro c hc
  exact (completed_inv hstep (Linked.init poolSess random seed) hops c hc).refs

def createPdr1 : CreatePdr where
  pdrId := some 1
  precedence := none
  pdi := some ⟨some 0,none,none,none⟩
  farId := some 1
  urrId := []
  qerId := none

theorem refs_live_run_two :
    (completed Context.step (contextInit 1 (fun _ => 0) 0)
        [.handleCreatePdr env0 0 false (some createPdr1),.handleRemovePdr 0 (some (some 1)),
          .far (.handleRemove 0 (some (some 1)))]).length=4 ∧
      ∀ c ∈ completed Context.step (contextInit 1 (fun _ => 0) 0)
        [.handleCreatePdr env0 0 false (some createPdr1),.handleRemovePdr 0 (some (some 1)),
          .far (.handleRemove 0 (some (some 1)))], RefsLive c := by
  exact ⟨by decide,refs_live_run 1 _ _ _ (by decide)⟩

/-- A FAR removed before the PDR that refers to it. -/
theorem refs_dangle :
    ∃ c ∈ completed Context.step (contextInit 1 (fun _ => 0) 0)
        [.handleCreatePdr env0 0 false (some createPdr1),.far (.handleRemove 0 (some (some 1)))],
      c.pdrList 0=[0] ∧ (c.pdr 0).far=some 0 ∧ c.far.list 0=[] ∧ ¬ RefsLive c := by
  have hrun : ∃ c ∈ completed Context.step (contextInit 1 (fun _ => 0) 0)
      [.handleCreatePdr env0 0 false (some createPdr1),.far (.handleRemove 0 (some (some 1)))],
      c.pdrList 0=[0] ∧ (c.pdr 0).far=some 0 ∧ c.far.list 0=[] := by
    decide
  obtain ⟨c,hc,hlist,hfar,hnone⟩ := hrun
  refine ⟨c,hc,hlist,hfar,hnone,?_⟩
  intro hlive
  have hmem : 0∈c.far.list 0 := (hlive 0 0 (by simp [hlist])).far 0 hfar
  simp [hnone] at hmem

end OgsDp.Pfcp
