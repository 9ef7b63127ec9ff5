import OgsDp.Lib.StableOrder
import OgsDp.Pfcp.RuleSurvival

/-!
# The order of the PDRs of a session (lib/pfcp/context.c)

`ogs_pfcp_pdr_add` appends a PDR, and the Precedence of its Create PDR then puts it in its place.
-/

namespace OgsDp.Pfcp
open Lib OgsDp.Core Function List Option

namespace Context

variable {c c' : Context} {s p q : Nat}

def precedenceOf (c : Context) (p : Nat) : Nat := (c.pdr p).precedence.toNat

theorem insertSorted_eq (c : Context) (p : Nat) (l : List Nat) :
    insertSorted c p l=insertStable c.precedenceOf p l := by
  induction l with
  | nil => rfl
  | cons q l ih =>
    simp only [insertSorted,insertStable,ih]
    rfl

def order (c : Context) : (Nat → List Nat) × (Nat → BitVec 32) :=
  (c.pdrList,fun p => (c.pdr p).precedence)

theorem order_modify (h : c'.order=c.order) (p : Nat) {f : Pdr → Pdr}
    (hf : ∀ x,(f x).precedence=x.precedence) : (c'.modify p f).order=c.order :=
  (congrArg (Prod.mk c'.pdrList) (funext (modify_pdr_frame c' p f Pdr.precedence hf))).trans h

theorem createPdrPdi_order (c : Context) (p : Nat) (pdi : Pdi) :
    (createPdrPdi c p pdi).Keeps order c := by
  have hreset:=order_modify (Eq.refl c.order) p (f := resetByPdi pdi) fun _ => rfl
  unfold createPdrPdi
  cases pdi.localFTeid with
  | none => exact hreset
  | some data =>
    dsimp only
    split
    · exact order_modify hreset p fun _ => rfl
    · trivial

theorem createPdrFar_order (c : Context) (s p : Nat) (farId : Option (BitVec 32)) :
    (createPdrFar c s p farId).Keeps order c := by
  have hclear:=order_modify (Eq.refl c.order) p (f := fun x => { x with far := none })
    fun _ => rfl
  unfold createPdrFar
  cases farId with
  | none => exact hclear
  | some id =>
    refine Outcome.Returns.bind (R := fun c' _ => c'.order=c.order) ?_ fun c' r h => ?_
    · exact Outcome.Returns.mapState (Outcome.returns_of_forall _ fun _ _ => hclear)
    · exact order_modify h p fun _ => rfl

theorem createPdrQer_order (c : Context) (s p : Nat) (qerId : Option (BitVec 32)) :
    (createPdrQer c s p qerId).Keeps order c := by
  have hclear:=order_modify (Eq.refl c.order) p (f := fun x => { x with qer := none })
    fun _ => rfl
  unfold createPdrQer
  cases qerId with
  | none => exact hclear
  | some id =>
    refine Outcome.Returns.bind (R := fun c' _ => c'.order=c.order) ?_ fun c' r h => ?_
    · exact Outcome.Returns.mapState (Outcome.returns_of_forall _ fun _ _ => hclear)
    · exact order_modify h p fun _ => rfl

theorem pdrAssociateUrr_order (c : Context) (p u : Nat) :
    (pdrAssociateUrr c p u).Keeps order c := by
  unfold pdrAssociateUrr
  split
  · split
    · rfl
    · exact order_modify rfl p fun _ => rfl
  · trivial

theorem createPdrUrr_order (s p : Nat) (ids : List (BitVec 32)) (c : Context) :
    (createPdrUrr s p c ids).Keeps order c := by
  induction ids generalizing c with
  | nil => rfl
  | cons id ids ih =>
    refine Outcome.Returns.bind (R := fun c' _ => c'.order=c.order) ?_ fun c' r h => ?_
    · exact Outcome.Returns.mapState (Outcome.returns_of_forall _ fun _ _ => rfl)
    · refine Outcome.Returns.bind (pdrAssociateUrr_order c' p r) fun c'' _ h' => ?_
      exact (ih c'').mono fun _ _ h'' => (h''.trans h').trans h

theorem handleCreatedPdr_order (env : Env) (c : Context) (s : Nat) (m : Option CreatedPdr) :
    (handleCreatedPdr env c s m).Keeps order c := by
  cases m with
  | none => rfl
  | some m =>
    simp only [handleCreatedPdr]
    cases knownPdr c s m.pdrId with
    | error reply => rfl
    | ok p =>
      cases m.localFTeid with
      | none => rfl
      | some data =>
        dsimp only
        split
        · rfl
        · split
          · exact order_modify rfl p (by simp [overlayFTeid])
          · trivial

theorem pdrSwapTeid_order (c : Context) (p : Nat) : (pdrSwapTeid c p).Keeps order c := by
  simp only [pdrSwapTeid]
  split
  · split
    · split
      · split
        · rfl
        · rfl
      · trivial
    · rfl
  · trivial

theorem pdrChooseFTeid_order (env : Env) (c : Context) (p : Nat) :
    (pdrChooseFTeid env c p).Keeps order c := by
  simp only [pdrChooseFTeid]
  split
  · split
    · split
      · exact order_modify rfl p (by simp)
      · trivial
    · cases chooseFTeid env (c.pdr p) with
      | none => trivial
      | some r =>
        dsimp only
        split
        · have hchid:=order_modify (Eq.refl c.order) p
            (f := fun x => { x with chid := true,chooseId := x.fTeid.chooseId }) fun _ => rfl
          exact order_modify hchid p fun _ => rfl
        · exact order_modify rfl p fun _ => rfl
  · rfl

theorem objectTeidHashSet_order (env : Env) (type : ObjType) (c : Context) (p : Nat) :
    (objectTeidHashSet env type c p).Keeps order c := by
  refine Outcome.Returns.bind (pdrChooseFTeid_order env c p) fun c' _ h => ?_
  have hunset : (pdrUnsetTeid c' p).order=c'.order := by
    unfold pdrUnsetTeid
    split <;> rfl
  have hset:=order_modify (hunset.trans h) p
    (f := fun x => { x with hashKey := x.fTeid.teid,hashLen := 4 }) fun _ => rfl
  exact hset

structure Dropped (c c' : Context) : Prop where
  list : ∀ s,(c'.pdrList s).Sublist (c.pdrList s)
  precedence : ∀ q,(c'.pdr q).precedence=(c.pdr q).precedence

theorem pdrRemove_dropped (c : Context) (p : Nat) : c.Dropped (pdrRemove c p) where
  list := by
    intro s
    have hlist : (pdrRemove c p).pdrList=update c.pdrList (c.pdr p).sess
        ((c.pdrList (c.pdr p).sess).erase p) := by
      simp only [pdrRemove]
      split <;> rfl
    rw [hlist]
    by_cases he : s=(c.pdr p).sess
    · rw [he,update_self]
      exact erase_sublist
    · rw [update_of_ne he]
  precedence := by
    intro q
    have hpdr : (pdrRemove c p).pdr=c.pdr := by
      simp only [pdrRemove]
      split <;> rfl
    rw [hpdr]

/-- The PDR that a call with this id works on: the listed one, or the next node of the pool. -/
def target (c : Context) (s : Nat) (id : BitVec 16) : Option Nat :=
  (pdrFind c s id).or c.pdrPool.alloc.2

structure Drawn (c : Context) (s : Nat) (id : BitVec 16) (c' : Context) (p : Nat) : Prop where
  target : c.target s id=some p
  rest : ((c'.pdrList s).erase p).Sublist (c.pdrList s)
  others : ∀ s',s'≠s → c'.pdrList s'=c.pdrList s'
  precedence : ∀ q,q≠p → (c'.pdr q).precedence=(c.pdr q).precedence

theorem pdrAdd_drawn (c : Context) (s : Nat) :
    (pdrAdd c s).Returns fun c' r => ∀ p∈r,c.pdrPool.alloc.2=some p ∧
      c'.pdrList=update c.pdrList s (c.pdrList s++[p]) ∧
        ∀ q,q≠p → (c'.pdr q).precedence=(c.pdr q).precedence := by
  unfold pdrAdd
  rcases hp : c.pdrPool.alloc with ⟨pool,_ | p⟩
  · simp
  · dsimp only
    rcases c.teidPool.alloc with ⟨teidPool,_ | k⟩
    · trivial
    · simp only [Context.modify,update_self,update_idem]
      rcases (c.pdrIdPool s).alloc with ⟨idPool,_ | i⟩
      · exact fun p hp => by cases hp
      · dsimp only
        split
        · rintro p' hp'
          cases hp'
          exact ⟨rfl,rfl,fun q hq => congrArg Pdr.precedence (update_of_ne hq _ _)⟩
        · trivial

theorem pdrFindOrAdd_drawn (c : Context) (s : Nat) (id : BitVec 16) :
    (pdrFindOrAdd c s id).Returns fun c' p => (c'.pdrList s).Nodup → Drawn c s id c' p := by
  unfold pdrFindOrAdd
  cases hfind : pdrFind c s id with
  | some p =>
    intro _
    exact ⟨by simp [target,hfind],erase_sublist,fun _ _ => rfl,fun _ _ => rfl⟩
  | none =>
    refine Outcome.Returns.bind (pdrAdd_drawn c s) fun c' r hr => ?_
    cases r with
    | none => trivial
    | some p =>
      obtain ⟨hdrawn,hlist,hprec⟩ := hr p rfl
      have hs : c'.pdrList s=c.pdrList s++[p] := by
        rw [hlist,update_self]
      intro hnodup
      have hp : p∉c.pdrList s := by
        have hnodup' : (c'.pdrList s).Nodup := hnodup
        rw [hs] at hnodup'
        exact fun hp => (nodup_append.mp hnodup').2.2 p hp p (by simp) rfl
      refine ⟨by simp [target,hfind,hdrawn],?_,?_,?_⟩
      · show ((c'.pdrList s).erase p).Sublist (c.pdrList s)
        rw [hs,erase_append_right _ hp]
        simp
      · intro s' hs'
        show c'.pdrList s'=c.pdrList s'
        rw [hlist,update_of_ne hs']
      · intro q hq
        rw [← hprec q hq]
        exact modify_pdr_frame c' p (fun x => { x with id := id }) Pdr.precedence (fun _ => rfl) q

structure Put (c : Context) (s p : Nat) (c' : Context) : Prop where
  list : ∃ l,l.Sublist (c.pdrList s) ∧ p∉l ∧ c'.pdrList s=insertStable c'.precedenceOf p l
  others : ∀ s',s'≠s → c'.pdrList s'=c.pdrList s' ∧ p∉c.pdrList s'
  precedence : ∀ q,q≠p → (c'.pdr q).precedence=(c.pdr q).precedence

theorem Drawn.reorder {L : Nat → Prop} {id : BitVec 16} (h : Drawn c s id c' p)
    (hstock : c'.Stocked L) (hp : p∈c'.pdrList s) (v : BitVec 32) :
    Put c s p (pdrReorderByPrecedence c' p v) := by
  have hs : (c'.pdr p).sess=s := hstock.pdrs.owner s p hp
  have hlists : (pdrReorderByPrecedence c' p v).pdrList=update c'.pdrList s
      (insertStable (pdrReorderByPrecedence c' p v).precedenceOf p ((c'.pdrList s).erase p)) := by
    simp only [pdrReorderByPrecedence,hs,insertSorted_eq]
    rfl
  refine ⟨⟨_,h.rest,(hstock.pdrs.nodup s).not_mem_erase,?_⟩,?_,?_⟩
  · rw [hlists,update_self]
  · intro s' hs'
    rw [hlists,update_of_ne hs',h.others s' hs']
    refine ⟨rfl,fun hp' => hs' ?_⟩
    rw [← h.others s' hs'] at hp'
    exact (hstock.pdrs.owner s' p hp').symm.trans hs
  · intro q hq
    rw [← h.precedence q hq]
    exact congrArg Pdr.precedence (update_of_ne hq _ _)

theorem Put.congr {c'' : Context} (h : Put c s p c') (hc : c''.order=c'.order) :
    Put c s p c'' := by
  obtain ⟨hlist,hprec⟩ := Prod.mk.inj hc
  have hkey : c''.precedenceOf=c'.precedenceOf :=
    funext fun q => congrArg BitVec.toNat (congrFun hprec q)
  refine ⟨?_,?_,?_⟩
  · rw [hlist,hkey]
    exact h.list
  · rw [hlist]
    exact h.others
  · intro q hq
    exact (congrFun hprec q).trans (h.precedence q hq)

def Ordered (since : Nat → Nat) (c : Context) : Prop :=
  ∀ s,(c.pdrList s).Pairwise (Before c.precedenceOf since)

variable {since : Nat → Nat}

theorem Ordered.congr (h : c.Ordered since) (hc : c'.order=c.order) : c'.Ordered since := by
  obtain ⟨hlist,hprec⟩ := Prod.mk.inj hc
  intro s
  rw [hlist]
  refine pairwise_before_congr (h s) (fun q _ => ?_) fun _ _ => rfl
  exact congrArg BitVec.toNat (congrFun hprec q)

theorem Ordered.dropped (h : c.Ordered since) (hc : c.Dropped c') : c'.Ordered since := by
  intro s
  refine pairwise_before_congr ((h s).sublist (hc.list s)) (fun q _ => ?_) fun _ _ => rfl
  exact congrArg BitVec.toNat (hc.precedence q)

theorem Ordered.put {now : Nat} (h : c.Ordered since) (hpast : ∀ q,since q<now)
    (hc : Put c s p c') : c'.Ordered (update since p now) := by
  have hkey : ∀ l : List Nat, p∉l → ∀ q∈l,c'.precedenceOf q=c.precedenceOf q := by
    intro l hp q hq
    exact congrArg BitVec.toNat (hc.precedence q (ne_of_mem_of_not_mem hq hp))
  have hsince : ∀ l : List Nat, p∉l → ∀ q∈l,update since p now q=since q := by
    intro l hp q hq
    exact update_of_ne (ne_of_mem_of_not_mem hq hp) _ _
  intro s'
  by_cases he : s'=s
  · obtain ⟨l,hsub,hp,hlist⟩ := hc.list
    rw [he,hlist]
    refine pairwise_insertStable ?_ ?_
    · exact pairwise_before_congr ((h s).sublist hsub) (hkey l hp) (hsince l hp)
    · intro q hq
      rw [hsince l hp q hq,update_self]
      exact hpast q
  · obtain ⟨hlist,hp⟩ := hc.others s' he
    rw [hlist]
    exact pairwise_before_congr (h s') (hkey _ hp) (hsince _ hp)

end Context

def PfcpOp.CarriesPrecedence : PfcpOp → Prop
  | .rules (.pdrAdd _) => False
  | .rules (.pdrFindOrAdd ..) => False
  | .handle _ (.createPdr _ _ (some m)) => m.rule.precedence.isSome=true
  | _ => True

def PfcpOp.puts (c : Context) : PfcpOp → Option Nat
  | .handle s (.createPdr _ _ (some m)) => m.rule.pdrId.bind (c.target s)
  | _ => none

inductive Context.Reordered (c : Context) : Option Nat → Context → Prop where
  | same {c' : Context} (h : c'.order=c.order) : Reordered c none c'
  | dropped {c' : Context} (h : c.Dropped c') : Reordered c none c'
  | put {s p : Nat} {c' : Context} (h : c.Put s p c') : Reordered c (some p) c'

namespace Context

variable {c : Context} {L : Nat → Prop} {s p : Nat}

theorem step_reordered {op : Op} (hop : op.handlesPdi=false)
    (hadds : PfcpOp.CarriesPrecedence (.rules op)) {o : Outcome Context Reply}
    (ho : c.step op=some o) : o.Returns fun c' _ => c.Reordered none c' := by
  have hsame : ∀ {o : Outcome Context Reply}, o.Keeps order c →
      o.Returns fun c' _ => c.Reordered none c' := fun h => h.mono fun _ _ h => .same h
  cases op with
  | pdrAdd s => exact absurd hadds id
  | pdrFindOrAdd s id => exact absurd hadds fun h => h
  | pdrRemove s p =>
    simp only [Context.step,ite_none_right_eq_some,some.injEq] at ho
    exact ho.2 ▸ .dropped (pdrRemove_dropped c p)
  | pdrSwapTeid s p =>
    simp only [Context.step,ite_none_right_eq_some,some.injEq] at ho
    exact ho.2 ▸ hsame ((pdrSwapTeid_order c p).bind fun _ _ => rfl)
  | objectTeidHashSet env type s p =>
    simp only [Context.step,ite_none_right_eq_some,some.injEq] at ho
    exact ho.2 ▸ hsame ((objectTeidHashSet_order env type c p).bind fun _ _ => rfl)
  | handleCreatePdr env s restoration m => cases hop
  | handleCreatedPdr env s m =>
    rw [← some.inj ho]
    exact hsame (handleCreatedPdr_order env c s m)
  | handleUpdatePdr env s m => cases hop
  | handleRemovePdr s m =>
    rw [← some.inj ho]
    rcases m with _ | _ | id
    · exact .same rfl
    · exact .same rfl
    · simp only [Pfcp.handleRemovePdr]
      cases pdrFind c s id with
      | none => exact .same rfl
      | some p => exact .dropped (pdrRemove_dropped c p)
  | far op =>
    obtain ⟨o',-,rfl⟩ := map_eq_some_iff.mp ho
    exact hsame (Outcome.Returns.mapState (Outcome.returns_of_forall _ fun _ _ => rfl))
  | handleUpdateFarFlags s m =>
    rw [← some.inj ho]
    exact hsame (Outcome.Returns.mapState (Outcome.returns_of_forall _ fun _ _ => rfl))
  | urr env op =>
    obtain ⟨o',-,rfl⟩ := map_eq_some_iff.mp ho
    exact hsame (Outcome.Returns.mapState (Outcome.returns_of_forall _ fun _ _ => rfl))
  | qer op =>
    obtain ⟨o',-,rfl⟩ := map_eq_some_iff.mp ho
    exact hsame (Outcome.Returns.mapState (Outcome.returns_of_forall _ fun _ _ => rfl))

end Context

namespace PfcpContext

variable {assemble : List (List Byte) → Option IpfwRule} {x : PfcpContext} {L : Nat → Prop}

def order (x : PfcpContext) : (Nat → List Nat) × (Nat → BitVec 32) := x.rules.order

theorem keeps_mapState {σ ρ : Type} {f : σ → PfcpContext} (x : PfcpContext) (o : Outcome σ ρ)
    (hf : ∀ t,(f t).order=x.order) : (o.mapState f).Keeps order x :=
  Outcome.Returns.mapState (Outcome.returns_of_forall _ fun t _ => hf t)

theorem setFilters_order (x : PfcpContext) (s p : Nat) (srcIf : Byte)
    (sdfFilter : List (List Byte)) :
    (x.setFilters assemble s p srcIf sdfFilter).Keeps order x :=
  keeps_mapState x _ fun _ => rfl

theorem keeps_setRules {ρ : Type} {o : Outcome Context ρ} (x : PfcpContext)
    (h : o.Keeps Context.order x.rules) : (o.mapState x.setRules).Keeps order x :=
  Outcome.Returns.mapState h

theorem createPdr_order (x : PfcpContext) (s p : Nat) (pdi : Pdi) (m : CreatePdrIe) :
    (x.createPdrRules assemble s p pdi m).Keeps order x := by
  refine (x.setFilters_order s p _ _).bind fun x _ => ?_
  refine (x.keeps_setRules (Context.createPdrPdi_order x.rules p pdi)).bind fun x _ => ?_
  refine (x.keeps_setRules (Context.createPdrFar_order x.rules s p _)).bind fun x _ => ?_
  refine Outcome.Keeps.bind (x.keeps_setRules ?_) fun x _ => ?_
  · have hclear:=Context.order_modify (Eq.refl x.rules.order) p
      (f := fun y => { y with urr := [] }) fun _ => rfl
    exact (Context.createPdrUrr_order s p _ _).mono fun _ _ h => h.trans hclear
  · exact (x.keeps_setRules (Context.createPdrQer_order x.rules s p _)).bind fun _ _ => rfl

theorem handleCreatePdr_reordered (h : x.Stocked L) (env : Env) (s : Nat) (restoration : Bool)
    (m : CreatePdrIe) (hv : m.rule.precedence.isSome=true) :
    (x.handleCreatePdr assemble env s restoration (some m)).Returns fun y _ =>
      x.rules.Reordered (m.rule.pdrId.bind (x.rules.target s)) y.rules := by
  obtain ⟨v,hv⟩ := isSome_iff_exists.mp hv
  simp only [handleCreatePdr]
  cases m.rule.pdrId with
  | none => exact .same rfl
  | some id =>
    rw [bind_some]
    dsimp only
    have hdrawn:=Context.pdrFindOrAdd_drawn x.rules s id
    rcases h.rules.pdrFindOrAdd s id with ⟨-,c,p,hc,hready⟩ | ⟨-,c,hc⟩
    · rw [hc] at hdrawn
      have hdrawn':=hdrawn (hready.stocked.pdrs.nodup s)
      have hput:=hdrawn'.reorder hready.stocked hready.mem v
      rw [hc,hv,hdrawn'.target]
      dsimp only [Outcome.mapState,Outcome.bind_ok]
      split
      · exact .put hput
      · exact (createPdr_order _ s p _ m).mono fun _ _ hy => .put (hput.congr hy)
    · rw [hc]
      trivial

theorem handleUpdatePdr_order (x : PfcpContext) (env : Env) (s : Nat)
    (message : Option UpdatePdrIe) :
    (x.handleUpdatePdr assemble env s message).Keeps order x := by
  cases message with
  | none => rfl
  | some m =>
    simp only [handleUpdatePdr]
    cases knownPdr x.rules s m.rule.pdrId with
    | error reply => rfl
    | ok p =>
      cases m.rule.pdi with
      | none => rfl
      | some pdi =>
        dsimp only
        split
        · rfl
        · split
          · rfl
          · have hsrc:=Context.order_modify (Eq.refl x.rules.order) p
              (f := fun y => { y with
                srcIf := pdi.sourceInterface.getD 0
                srcIfType := pdi.sourceInterfaceType.or y.srcIfType }) fun _ => rfl
            have hover : ∀ y,((pdi.localFTeid.elim id overlayFTeid) y).precedence =
                y.precedence := by
              intro y
              cases pdi.localFTeid with
              | none => rfl
              | some data => simp [overlayFTeid]
            refine Outcome.Returns.bind (setFilters_order _ s p _ _) fun x' _ h => ?_
            exact Context.order_modify (h.trans hsrc) p hover

theorem step_reordered (h : x.Stocked L) {op : PfcpOp} (hop : op.CarriesPrecedence)
    {o : Outcome PfcpContext Reply} (ho : x.step assemble op=some o) :
    o.Returns fun y _ => x.rules.Reordered (op.puts x.rules) y.rules := by
  have hsame : ∀ {o : Outcome PfcpContext Reply}, o.Keeps order x →
      o.Returns fun y _ => x.rules.Reordered none y.rules := fun h => h.mono fun _ _ h => .same h
  cases op with
  | rules op =>
    simp only [PfcpContext.step] at ho
    cases hpdi : op.handlesPdi with
    | true => simp [hpdi] at ho
    | false =>
      simp only [hpdi,Bool.false_eq_true,if_false,map_eq_some_iff] at ho
      obtain ⟨o',ho',rfl⟩ := ho
      exact Outcome.Returns.mapState (Context.step_reordered hpdi hop ho')
  | handle s ie =>
    rw [← some.inj ho]
    cases ie with
    | createPdr env restoration m =>
      cases m with
      | none => exact .same rfl
      | some m => exact handleCreatePdr_reordered h env s restoration m hop
    | updatePdr env m => exact hsame (x.handleUpdatePdr_order env s m)
    | createFar m => exact hsame (keeps_mapState x _ fun _ => rfl)
    | updateFar m => exact hsame (keeps_mapState x _ fun _ => rfl)
    | createUrr env m => exact hsame (keeps_mapState x _ fun _ => rfl)
    | updateUrr env m => exact hsame (keeps_mapState x _ fun _ => rfl)
    | createQer m => exact hsame (keeps_mapState x _ fun _ => rfl)
    | updateQer m => exact hsame (keeps_mapState x _ fun _ => rfl)
    | createBar m => exact hsame (keeps_mapState x _ fun _ => rfl)
  | barNew s =>
    rw [← some.inj ho]
    exact hsame (Outcome.Keeps.bind (keeps_mapState x _ fun _ => rfl) fun _ _ => rfl)
  | barDelete s =>
    simp only [PfcpContext.step,map_eq_some_iff] at ho
    obtain ⟨b,-,rfl⟩ := ho
    exact .same rfl
  | handleRemoveBar s m =>
    rw [← some.inj ho]
    exact hsame (keeps_mapState x _ fun _ => rfl)

end PfcpContext

/-- The context, with the number of the next call and when each PDR was put in its place. -/
structure Placed where
  ctx : PfcpContext
  now : Nat
  since : Nat → Nat

namespace Placed

def init (poolSess : Nat) (random : Nat → Nat) (seed : BitVec 32) : Placed :=
  ⟨.init poolSess random seed,1,fun _ => 0⟩

def step (assemble : List (List Byte) → Option IpfwRule) (y : Placed) (op : PfcpOp) :
    Option (Outcome Placed Reply) :=
  (y.ctx.step assemble op).map fun o => o.mapState fun x =>
    { ctx := x
      now := y.now+1
      since := (op.puts y.ctx.rules).elim y.since fun p => update y.since p y.now }

structure Inv (y : Placed) : Prop where
  stocked : ∃ L,y.ctx.Stocked L
  ordered : y.ctx.rules.Ordered y.since
  past : ∀ p,y.since p<y.now

theorem Inv.init (poolSess : Nat) (random : Nat → Nat) (seed : BitVec 32) :
    (Placed.init poolSess random seed).Inv where
  stocked := ⟨_,.init poolSess random seed⟩
  ordered := fun _ => List.Pairwise.nil
  past := fun _ => Nat.zero_lt_one

theorem Inv.step {assemble : List (List Byte) → Option IpfwRule} {y z : Placed} {op : PfcpOp}
    {r : Reply} (h : y.Inv) (hop : op.CarriesPrecedence)
    (ho : y.step assemble op=some (.ok z r)) : z.Inv := by
  obtain ⟨L,hL⟩ := h.stocked
  simp only [Placed.step,map_eq_some_iff] at ho
  obtain ⟨o,ho,hz⟩ := ho
  cases o with
  | abort x => cases hz
  | ok x r' =>
    have hstock:=hL.step ho
    have hre:=PfcpContext.step_reordered hL hop ho
    obtain ⟨rfl,-⟩ := Outcome.ok.inj hz
    obtain ⟨M,hM,-⟩ := hstock
    have hpast : ∀ p q,update y.since p y.now q<y.now+1 := by
      intro p q
      by_cases he : q=p
      · rw [he,update_self]
        exact Nat.lt_succ_self _
      · rw [update_of_ne he]
        exact Nat.lt_succ_of_lt (h.past q)
    refine ⟨⟨M,hM⟩,?_,?_⟩
    · dsimp only
      generalize op.puts y.ctx.rules=put at hre
      cases hre with
      | same hc => exact h.ordered.congr hc
      | dropped hc => exact h.ordered.dropped hc
      | put hc => exact h.ordered.put h.past hc
    · intro q
      dsimp only
      cases op.puts y.ctx.rules with
      | none => exact Nat.lt_succ_of_lt (h.past q)
      | some p => exact hpast p q

theorem inv_run (assemble : List (List Byte) → Option IpfwRule) (poolSess : Nat)
    (random : Nat → Nat) (seed : BitVec 32) (ops : List PfcpOp)
    (hops : ∀ op∈ops,op.CarriesPrecedence) :
    ∀ y∈completed (Placed.step assemble) (Placed.init poolSess random seed) ops,y.Inv := by
  exact completed_inv (fun _ _ _ _ h hop ho => h.step hop ho) (.init poolSess random seed)
    (eachStep_of_mem hops)

end Placed

end OgsDp.Pfcp
