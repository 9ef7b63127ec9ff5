import OgsDp.Smf.IdentifierRuns
import OgsDp.Smf.TftUpdate

/-!
# Flows of the PDRs in runs (src/smf/context.c)

The entries of the PDRs carry the texts of packet filters, which own them. While a bearer is
removed, `V` holds of the others.
-/

namespace OgsDp.Smf
open Lib OgsDp.Core List Option

namespace PdrFlows

instance (p : PdrFlows) (es : List PdrFlow) : Decidable (p.Fits es) :=
  inferInstanceAs (Decidable (∀ i,i<es.length → ∀ e∈es[i]?,(p.flow i).Under e))

end PdrFlows

def SmfBearer.carried (x : SmfBearer) : List Nat :=
  (x.dlPdr.toList++x.ulPdr.toList).filterMap PdrFlow.description

namespace Bearers

variable {c c' : Bearers} {L : Nat → List Nat} {V : Nat → Prop} {s b f : Nat}

instance (c : Bearers) (b : Nat) : Decidable (c.FlowsFit b) :=
  inferInstanceAs (Decidable (_ ∧ _))

structure Texted (c : Bearers) (L : Nat → List Nat) (V : Nat → Prop) : Prop where
  live : ∀ s f,c.HasPf L s f → ∃ k,(c.pf f).flowDescription=some k ∧ c.texts.live k=true
  apart : ∀ s s' f f' k,c.HasPf L s f → c.HasPf L s' f' →
    (c.pf f).flowDescription=some k → (c.pf f').flowDescription=some k → f=f'
  bounded : ∀ k,c.texts.live k=true → k<c.texts.blocks
  carried : ∀ s,∀ b∈L s,V b → ∀ k∈(c.bearer b).carried,c.texts.live k=true ∧
    ∀ s' b' f,b'∈L s' → f∈c.pfList b' → (c.pf f).flowDescription=some k → b'=b

theorem carried_of_right (h : c.FlowsRight b) {k : Nat} (hk : k∈(c.bearer b).carried) :
    ∃ f∈c.pfList b,(c.pf f).flowDescription=some k := by
  unfold SmfBearer.carried at hk
  rw [h.1,h.2,mem_filterMap] at hk
  obtain ⟨e,he,hd⟩ := hk
  rcases mem_append.mp he with he | he
  · obtain ⟨f,hf,hflow⟩ := mem_filterMap.mp he
    refine ⟨f,hf,?_⟩
    unfold SmfPf.dlFlow at hflow
    split at hflow <;> cases hflow <;> exact hd
  · obtain ⟨f,hf,hflow⟩ := mem_filterMap.mp he
    refine ⟨f,hf,?_⟩
    unfold SmfPf.ulFlow at hflow
    split at hflow <;> cases hflow
    · exact hd
    · cases hd

theorem Texted.congr (h : c.Texted L V) (htexts : c'.texts=c.texts)
    (hbearer : ∀ b,(c'.bearer b).carried=(c.bearer b).carried) (hlist : c'.pfList=c.pfList)
    (hpf : ∀ s f,c.HasPf L s f → (c'.pf f).flowDescription=(c.pf f).flowDescription) :
    c'.Texted L V := by
  have hhas : c'.HasPf L=c.HasPf L := by
    unfold HasPf
    rw [hlist]
  refine ⟨?_,?_,htexts ▸ h.bounded,?_⟩
  · intro s f hf
    rw [hhas] at hf
    rw [hpf s f hf,htexts]
    exact h.live s f hf
  · intro s s' f f' k hf hf' hk hk'
    rw [hhas] at hf hf'
    rw [hpf s f hf] at hk
    rw [hpf s' f' hf'] at hk'
    exact h.apart s s' f f' k hf hf' hk hk'
  · intro s b hb hV k hk
    rw [hbearer] at hk
    obtain ⟨hlive,howner⟩ := h.carried s b hb hV k hk
    rw [htexts]
    refine ⟨hlive,?_⟩
    intro s' b' f hb' hf hd
    rw [hlist] at hf
    rw [hpf s' f ⟨b',hb',hf⟩] at hd
    exact howner s' b' f hb' hf hd

theorem Texted.update (h : c.Texted L V) (hbound : c.Bound L) (hb : b∈L s) {dl ul : PdrFlows}
    (hc' : c'=c.modifyBearer b fun x => { x with dlPdr := dl,ulPdr := ul })
    (hright : c'.FlowsRight b) : c'.Texted L V := by
  subst hc'
  refine ⟨h.live,h.apart,h.bounded,?_⟩
  intro s' b' hb' hV k hk
  by_cases hbb : b'=b
  · subst hbb
    obtain ⟨f,hf,hd⟩ := carried_of_right hright hk
    have hhas : c.HasPf L s' f := ⟨b',hb',hf⟩
    obtain ⟨k',hk',hlive⟩ := h.live s' f hhas
    obtain rfl := some.inj (hd.symm.trans hk')
    refine ⟨hlive,?_⟩
    intro s'' b'' f'' hb'' hf'' hd''
    obtain rfl := h.apart s' s'' f f'' k hhas ⟨b'',hb'',hf''⟩ hd hd''
    exact hbound.bearer_unique hb' hb'' hf hf''
  · have hsame : (c.modifyBearer b fun x => { x with dlPdr := dl,ulPdr := ul }).bearer b' =
        c.bearer b' := Function.update_of_ne hbb ..
    rw [hsame] at hk
    exact h.carried s' b' hb' hV k hk

theorem Texted.insert (h : c.Texted L V) (hbound : c.Bound L) (hb : b∈L s)
    (hnew : ∀ s',¬ c.HasPf L s' f) {t : List Byte}
    (htexts : c'.texts=(c.texts.strdup t).1) (hbearer : c'.bearer=c.bearer)
    (hlist : c'.pfList=Function.update c.pfList b (c.pfList b++[f]))
    (hself : (c'.pf f).flowDescription=some c.texts.blocks)
    (hpf : ∀ s f,c.HasPf L s f → (c'.pf f).flowDescription=(c.pf f).flowDescription) :
    c'.Texted L V := by
  have hmem : ∀ s' f',c'.HasPf L s' f' ↔ c.HasPf L s' f' ∨ s'=s ∧ f'=f := by
    intro s' f'
    have hsame : c'.HasPf L s' f' ↔
        (Bound.withPf c s b f .zero c.pfPool c.pfPool c.pfPool).HasPf L s' f' := by
      unfold HasPf
      rw [hlist]
      rfl
    exact hsame.trans (hbound.hasPf_withPf hb s' f')
  have hlive : ∀ k,c.texts.live k=true → c'.texts.live k=true := by
    intro k hk
    rw [htexts]
    show Function.update c.texts.live c.texts.blocks true k=true
    by_cases hkb : k=c.texts.blocks
    · rw [hkb,Function.update_self]
    · rw [Function.update_of_ne hkb]
      exact hk
  have hlast : c'.texts.live c.texts.blocks=true := by
    rw [htexts]
    exact Function.update_self ..
  have hne : ∀ s' f' k,c.HasPf L s' f' → (c.pf f').flowDescription=some k →
      k≠c.texts.blocks := by
    rintro s' f' k hf' hk rfl
    obtain ⟨k',hk',hlive'⟩ := h.live s' f' hf'
    obtain rfl := some.inj (hk.symm.trans hk')
    exact Nat.lt_irrefl _ (h.bounded _ hlive')
  refine ⟨?_,?_,?_,?_⟩
  · intro s' f' hf'
    rcases (hmem s' f').mp hf' with hf' | ⟨-,rfl⟩
    · obtain ⟨k,hk,hk'⟩ := h.live s' f' hf'
      exact ⟨k,(hpf s' f' hf').trans hk,hlive k hk'⟩
    · exact ⟨_,hself,hlast⟩
  · intro s₁ s₂ f₁ f₂ k hf₁ hf₂ hk₁ hk₂
    rcases (hmem s₁ f₁).mp hf₁ with hf₁ | ⟨-,rfl⟩
    · rw [hpf s₁ f₁ hf₁] at hk₁
      rcases (hmem s₂ f₂).mp hf₂ with hf₂ | ⟨-,rfl⟩
      · rw [hpf s₂ f₂ hf₂] at hk₂
        exact h.apart s₁ s₂ f₁ f₂ k hf₁ hf₂ hk₁ hk₂
      · exact absurd (some.inj (hk₂.symm.trans hself)) (hne s₁ f₁ k hf₁ hk₁)
    · rcases (hmem s₂ f₂).mp hf₂ with hf₂ | ⟨-,rfl⟩
      · rw [hpf s₂ f₂ hf₂] at hk₂
        exact absurd (some.inj (hk₁.symm.trans hself)) (hne s₂ f₂ k hf₂ hk₂)
      · rfl
  · intro k hk
    rw [htexts] at hk ⊢
    show k<c.texts.blocks+1
    change Function.update c.texts.live c.texts.blocks true k=true at hk
    by_cases hkb : k=c.texts.blocks
    · omega
    · rw [Function.update_of_ne hkb] at hk
      exact Nat.lt_succ_of_lt (h.bounded k hk)
  · intro s' b' hb' hV k hk
    rw [hbearer] at hk
    obtain ⟨hk',howner⟩ := h.carried s' b' hb' hV k hk
    refine ⟨hlive k hk',?_⟩
    intro s'' b'' f'' hb'' hf'' hd
    rw [hlist] at hf''
    have hcases : f''∈c.pfList b'' ∨ f''=f := by
      by_cases hbb : b''=b
      · subst hbb
        rw [Function.update_self,mem_append,mem_singleton] at hf''
        exact hf''
      · rw [Function.update_of_ne hbb] at hf''
        exact .inl hf''
    rcases hcases with hf'' | rfl
    · rw [hpf s'' f'' ⟨b'',hb'',hf''⟩] at hd
      exact howner s'' b'' f'' hb'' hf'' hd
    · have heq:=some.inj (hd.symm.trans hself)
      have hlt:=h.bounded k hk'
      omega

theorem Texted.delete (h : c.Texted L V) (hbound : c.Bound L) (hb : b∈L s)
    (hf : f∈c.pfList b) {texts : Texts}
    (hfree : c.texts.free (c.pf f).flowDescription = .ok texts ())
    (hnot : ∀ s',∀ b'∈L s',V b' → ∀ k,(c.pf f).flowDescription=some k →
      k∉(c.bearer b').carried) : (Bound.sansPf c s b f texts).Texted L V := by
  obtain ⟨k,hk,hklive⟩ := h.live s f ⟨b,hb,hf⟩
  have htexts : texts = { c.texts with live := Function.update c.texts.live k false } := by
    rw [hk] at hfree
    simp only [Texts.free,hklive,if_true] at hfree
    cases hfree
    rfl
  have hmem : ∀ s' f',(Bound.sansPf c s b f texts).HasPf L s' f' ↔ c.HasPf L s' f' ∧ f'≠f :=
    hbound.hasPf_sansPf hb hf
  have hlists : ∀ s' b',b'∈L s' → ∀ f',f'∈(Bound.sansPf c s b f texts).pfList b' →
      f'∈c.pfList b' := fun s' b' hb' f' hf' => ((hbound.mem_sansPf hb hf hb' f').mp hf').1
  subst htexts
  have hlive : ∀ k',k'≠k → c.texts.live k'=true →
      Function.update c.texts.live k false k'=true := by
    intro k' hne hk'
    rw [Function.update_of_ne hne]
    exact hk'
  refine ⟨?_,?_,?_,?_⟩
  · intro s' f' hf'
    obtain ⟨hold,hne⟩ := (hmem s' f').mp hf'
    obtain ⟨k',hk',hlive'⟩ := h.live s' f' hold
    refine ⟨k',hk',hlive k' ?_ hlive'⟩
    rintro rfl
    exact hne (h.apart s' s f' f k' hold ⟨b,hb,hf⟩ hk' hk)
  · intro s₁ s₂ f₁ f₂ k' hf₁ hf₂
    exact h.apart s₁ s₂ f₁ f₂ k' ((hmem s₁ f₁).mp hf₁).1 ((hmem s₂ f₂).mp hf₂).1
  · intro k' hk'
    change Function.update c.texts.live k false k'=true at hk'
    by_cases hkk : k'=k
    · rw [hkk,Function.update_self] at hk'
      cases hk'
    · rw [Function.update_of_ne hkk] at hk'
      exact h.bounded k' hk'
  · intro s' b' hb' hV k' hk'
    obtain ⟨hlive',howner⟩ := h.carried s' b' hb' hV k' hk'
    refine ⟨hlive k' ?_ hlive',?_⟩
    · rintro rfl
      exact hnot s' b' hb' hV k' hk hk'
    · intro s'' b'' f'' hb'' hf'' hd
      exact howner s'' b'' f'' hb'' (hlists s'' b'' hb'' f'' hf'') hd

theorem Texted.pfAddFlow (h : c.Texted L V) (hbound : c.Bound L) (hb : b∈L s)
    (direction : PfDirection) (description : List Byte) :
    (c.pfAddFlow b direction description).Returns fun c' _ => c'.Texted L V := by
  unfold Bearers.pfAddFlow
  refine (hbound.pfAdd hb).bind ?_
  rintro c₁ r ⟨-,hadded⟩
  cases r with
  | none =>
    refine h.congr hadded.texts ?_ hadded.pfList ?_
    · intro b'
      rw [hadded.bearer]
    · intro s' f' hf'
      rw [hadded.old s' f' hf']
  | some f =>
    have hnew:=hadded.new f rfl
    refine Texted.insert (f := f) h hbound hb hnew (t := description) ?_ ?_ ?_ ?_ ?_
    · show (c₁.texts.strdup description).1=_
      rw [hadded.texts]
    · exact hadded.bearer
    · exact hadded.pfList
    · show (Function.update c₁.pf f _ f).flowDescription=_
      rw [Function.update_self,← hadded.texts]
    · intro s' f' hf'
      show (Function.update c₁.pf f _ f').flowDescription=_
      rw [Function.update_of_ne,hadded.old s' f' hf']
      rintro rfl
      exact hnew s' hf'

theorem Texted.pfRemoveAll (h : c.Texted L (· ≠ b)) (hbound : c.Bound L) (hb : b∈L s)
    {fs : List Nat} (hfs : c.pfList b=fs) :
    (c.smfPfRemoveAll fs).Returns fun c' _ => c'.Texted L (· ≠ b) := by
  induction fs generalizing c with
  | nil => exact h
  | cons f fs ih =>
    have hf : f∈c.pfList b := hfs ▸ mem_cons_self ..
    refine (hbound.pfRemove hb hf).bind ?_
    rintro c₁-⟨h₁,texts,hfree,rfl⟩
    refine ih (h.delete hbound hb hf hfree ?_) h₁ ?_
    · intro s' b' hb' hne k hk hcarried
      exact hne ((h.carried s' b' hb' hne k hcarried).2 s b f hb hf hk).symm
    · show Function.update c.pfList b ((c.pfList b).erase f) b=fs
      rw [Function.update_self,hfs,erase_cons_head]

structure Joined (c : Bearers) (s b : Nat) (c' : Bearers) : Prop where
  new : ∀ s',b∉c.bearerList s'
  bearerList : c'.bearerList=Function.update c.bearerList s (c.bearerList s++[b])
  dlPdr : (c'.bearer b).dlPdr = .zero
  ulPdr : (c'.bearer b).ulPdr = .zero
  others : ∀ b',b'≠b → c'.bearer b'=c.bearer b'
  pfList : c'.pfList=Function.update c.pfList b []
  pf : c'.pf=c.pf
  texts : c'.texts=c.texts

theorem Bound.bearerCalloc_joined (h : c.Bound c.bearerList) {c₁ : Bearers}
    (hcalloc : c.bearerCalloc s=some (c₁,b)) :
    (∀ s',b∉c.bearerList s') ∧ c₁.bearerList=c.bearerList ∧
      c₁.pfList=Function.update c.pfList b [] ∧ c₁.pf=c.pf ∧ c₁.texts=c.texts ∧
      ∃ id,c₁.bearer =
        Function.update c.bearer b { SmfBearer.zero with id := id,sess := s } := by
  unfold bearerCalloc at hcalloc
  split at hcalloc
  · cases hcalloc
  · rename_i pool b' id hid
    obtain ⟨rfl,rfl⟩ := Prod.mk.inj (some.inj hcalloc)
    obtain ⟨hnew,-⟩ := h.bearers.holds.idCalloc hid
    exact ⟨fun s' hb => hnew ⟨s',hb⟩,rfl,rfl,rfl,rfl,id,rfl⟩

theorem Bound.bearerAdd_joined (h : c.Bound c.bearerList) (s : Nat) :
    (c.smfBearerAdd s).Returns fun c' b => c.Joined s b c' := by
  unfold smfBearerAdd
  split
  · trivial
  · rename_i c₁ b hcalloc
    obtain ⟨hnew,hlist,hfilters,hpf,htexts,id,hbearer⟩ := h.bearerCalloc_joined hcalloc
    refine ⟨hnew,?_,?_,?_,?_,hfilters,hpf,htexts⟩
    · show Function.update c₁.bearerList s (c₁.bearerList s++[b])=_
      rw [hlist]
    · show (c₁.bearer b).dlPdr=_
      rw [hbearer,Function.update_self]
      rfl
    · show (c₁.bearer b).ulPdr=_
      rw [hbearer,Function.update_self]
      rfl
    · intro b' hne
      show c₁.bearer b'=_
      rw [hbearer,Function.update_of_ne hne]

theorem Bound.qosFlowAdd_joined (h : c.Bound c.bearerList) (s : Nat) :
    (c.smfQosFlowAdd s).Returns fun c' b => c.Joined s b c' := by
  unfold smfQosFlowAdd
  split
  · trivial
  · rename_i c₁ b hcalloc
    obtain ⟨hnew,hlist,hfilters,hpf,htexts,id,hbearer⟩ := h.bearerCalloc_joined hcalloc
    split
    · trivial
    · rename_i qfis k halloc
      refine ⟨hnew,?_,?_,?_,?_,hfilters,hpf,htexts⟩
      · show Function.update c₁.bearerList s (c₁.bearerList s++[b])=_
        rw [hlist]
      · show (Function.update c₁.bearer b _ b).dlPdr=_
        rw [Function.update_self,hbearer,Function.update_self]
        rfl
      · show (Function.update c₁.bearer b _ b).ulPdr=_
        rw [Function.update_self,hbearer,Function.update_self]
        rfl
      · intro b' hne
        show Function.update c₁.bearer b _ b'=_
        rw [Function.update_of_ne hne,hbearer,Function.update_of_ne hne]

theorem Texted.join (h : c.Texted c.bearerList V) (hj : c.Joined s b c') :
    c'.Texted c'.bearerList V := by
  have hne : ∀ s' b',b'∈c.bearerList s' → b'≠b := by
    rintro s' b' hb' rfl
    exact hj.new s' hb'
  have hself : c'.pfList b=[] := by rw [hj.pfList,Function.update_self]
  have hlist : ∀ b',b'≠b → c'.pfList b'=c.pfList b' := by
    intro b' hbb
    rw [hj.pfList,Function.update_of_ne hbb]
  have hold : ∀ s' b' f',b'∈c'.bearerList s' → f'∈c'.pfList b' →
      b'∈c.bearerList s' ∧ f'∈c.pfList b' := by
    intro s' b' f' hb' hf'
    rw [hj.bearerList] at hb'
    rcases Bound.mem_more.mp hb' with hb' | ⟨-,rfl⟩
    · rw [hlist b' (hne s' b' hb')] at hf'
      exact ⟨hb',hf'⟩
    · rw [hself] at hf'
      cases hf'
  have hhas : ∀ s' f',c'.HasPf c'.bearerList s' f' → c.HasPf c.bearerList s' f' := by
    rintro s' f' ⟨b',hb',hf'⟩
    exact ⟨b',hold s' b' f' hb' hf'⟩
  refine ⟨?_,?_,hj.texts ▸ h.bounded,?_⟩
  · intro s' f' hf'
    rw [hj.pf,hj.texts]
    exact h.live s' f' (hhas s' f' hf')
  · intro s₁ s₂ f₁ f₂ k hf₁ hf₂
    rw [hj.pf]
    exact h.apart s₁ s₂ f₁ f₂ k (hhas s₁ f₁ hf₁) (hhas s₂ f₂ hf₂)
  · intro s' b' hb' hV k hk
    rw [hj.bearerList] at hb'
    rcases Bound.mem_more.mp hb' with hb' | ⟨-,rfl⟩
    · rw [hj.others b' (hne s' b' hb')] at hk
      obtain ⟨hlive,howner⟩ := h.carried s' b' hb' hV k hk
      refine ⟨hj.texts ▸ hlive,?_⟩
      intro s'' b'' f hb'' hf hd
      rw [hj.pf] at hd
      obtain ⟨hb'',hf⟩ := hold s'' b'' f hb'' hf
      exact howner s'' b'' f hb'' hf hd
    · unfold SmfBearer.carried at hk
      rw [hj.dlPdr,hj.ulPdr] at hk
      cases hk

theorem Texted.leave (h : c.Texted L (· ≠ b)) (hbound : c.Bound L) (hb : b∈L s) :
    c.Texted (Function.update L s ((L s).erase b)) fun _ => True := by
  have hhas : ∀ s' f',c.HasPf (Function.update L s ((L s).erase b)) s' f' → c.HasPf L s' f' := by
    rintro s' f' ⟨b',hb',hf'⟩
    exact ⟨b',((hbound.mem_less hb).mp hb').1,hf'⟩
  refine ⟨fun s' f' hf' => h.live s' f' (hhas s' f' hf'),?_,h.bounded,?_⟩
  · intro s₁ s₂ f₁ f₂ k hf₁ hf₂
    exact h.apart s₁ s₂ f₁ f₂ k (hhas s₁ f₁ hf₁) (hhas s₂ f₂ hf₂)
  · intro s' b' hb' _ k hk
    obtain ⟨hb',hne⟩ := (hbound.mem_less hb).mp hb'
    obtain ⟨hlive,howner⟩ := h.carried s' b' hb' hne k hk
    refine ⟨hlive,?_⟩
    intro s'' b'' f hb'' hf
    exact howner s'' b'' f ((hbound.mem_less hb).mp hb'').1 hf

theorem Bound.bearerRemove_bearer (h : c.Bound c.bearerList) (hb : b∈c.bearerList s) :
    (c.smfBearerRemove b).Returns fun c' _ => c'.bearer=c.bearer := by
  have hsess:=h.bearers.owner s b hb
  have h₁ : ({ c with
      bearerList := Function.update c.bearerList s ((c.bearerList s).erase b) } : Bearers).Bound
        c.bearerList := h.of_bare rfl
  unfold smfBearerRemove
  simp only [hsess]
  refine (h₁.pfRemoveAll hb rfl).bind ?_
  rintro c₂-⟨-,-,hbearer,-⟩
  exact hbearer

theorem Texted.bearerRemove (h : c.Texted c.bearerList fun _ => True)
    (hbound : c.Bound c.bearerList) (hb : b∈c.bearerList s) :
    (c.smfBearerRemove b).Returns fun c' _ => c'.Texted c'.bearerList fun _ => True := by
  have hsess:=hbound.bearers.owner s b hb
  have hbound₁ : ({ c with
      bearerList := Function.update c.bearerList s ((c.bearerList s).erase b) } : Bearers).Bound
        c.bearerList := hbound.of_bare rfl
  have h₁ : ({ c with
      bearerList := Function.update c.bearerList s ((c.bearerList s).erase b) } : Bearers).Texted
        c.bearerList (· ≠ b) :=
    ⟨h.live,h.apart,h.bounded,fun s' b' hb' _ => h.carried s' b' hb' trivial⟩
  unfold smfBearerRemove
  simp only [hsess]
  refine (Outcome.Returns.and (h₁.pfRemoveAll hbound₁ hb rfl)
    (hbound₁.pfRemoveAll hb rfl)).bind ?_
  rintro c₂-⟨h₂,hbound₂,-,-,hlist⟩
  have hless:=h₂.leave hbound₂ hb
  change c₂.bearerList=Function.update c.bearerList s ((c.bearerList s).erase b) at hlist
  rw [← hlist] at hless
  exact ⟨hless.live,hless.apart,hless.bounded,hless.carried⟩

structure Tended (c : Bearers) : Prop where
  bound : c.Bound c.bearerList
  tidy : ∀ s,∀ b∈c.bearerList s,FlowsTidy (c.bearer b)

def Carries (c : Bearers) : Prop :=
  ∀ s,∀ b∈c.bearerList s,∀ k∈(c.bearer b).carried,c.texts.live k=true

def Owned (c : Bearers) : Prop := c.Texted c.bearerList fun _ => True

/-- An id of a bearer is new, and an update finds no flags that it would not set. -/
def Fit (c : Bearers) : BearerOp → Prop
  | .bearerAdd _ => c.FreshId
  | .qosFlowAdd _ => c.FreshId
  | .tftUpdate b => c.FlowsFit b
  | _ => True

instance (c : Bearers) : (op : BearerOp) → Decidable (c.Fit op)
  | .bearerAdd _ => inferInstanceAs (Decidable c.FreshId)
  | .qosFlowAdd _ => inferInstanceAs (Decidable c.FreshId)
  | .bearerRemove _ => inferInstanceAs (Decidable True)
  | .pfAdd .. => inferInstanceAs (Decidable True)
  | .pfRemove .. => inferInstanceAs (Decidable True)
  | .tftUpdate b => inferInstanceAs (Decidable (c.FlowsFit b))

def Holding (c : Bearers) : BearerOp → Prop
  | .pfRemove b f => ∀ k∈(c.pf f).flowDescription,k∉(c.bearer b).carried
  | _ => True

instance (c : Bearers) : (op : BearerOp) → Decidable (c.Holding op)
  | .bearerAdd _ => inferInstanceAs (Decidable True)
  | .qosFlowAdd _ => inferInstanceAs (Decidable True)
  | .bearerRemove _ => inferInstanceAs (Decidable True)
  | .pfAdd .. => inferInstanceAs (Decidable True)
  | .pfRemove b f =>
    Option.decidableForallMem (p := fun k => k∉(c.bearer b).carried) (c.pf f).flowDescription
  | .tftUpdate _ => inferInstanceAs (Decidable True)

def UpdatesRight (_ : Bearers) : BearerOp → Outcome Bearers Unit → Prop
  | .tftUpdate b, o => o.Returns fun c' _ => c'.FlowsRight b
  | _, _ => True

instance (c : Bearers) (b : Nat) : Decidable (c.FlowsRight b) :=
  inferInstanceAs (Decidable (_=_ ∧ _=_))

instance (c : Bearers) : (op : BearerOp) → (o : Outcome Bearers Unit) →
    Decidable (c.UpdatesRight op o)
  | .bearerAdd _, _ => inferInstanceAs (Decidable True)
  | .qosFlowAdd _, _ => inferInstanceAs (Decidable True)
  | .bearerRemove _, _ => inferInstanceAs (Decidable True)
  | .pfAdd .., _ => inferInstanceAs (Decidable True)
  | .pfRemove .., _ => inferInstanceAs (Decidable True)
  | .tftUpdate b, .ok c' _ => inferInstanceAs (Decidable (c'.FlowsRight b))
  | .tftUpdate _, .abort _ => inferInstanceAs (Decidable True)

theorem Owned.carries (h : c.Owned) : c.Carries :=
  fun s b hb k hk => (h.carried s b hb trivial k hk).1

theorem Tended.join (h : c.Tended) (hj : c.Joined s b c') (hbound : c'.Bound c'.bearerList) :
    c'.Tended := by
  refine ⟨hbound,?_⟩
  intro s' b' hb'
  rw [hj.bearerList] at hb'
  rcases Bound.mem_more.mp hb' with hold | ⟨-,rfl⟩
  · rw [hj.others]
    · exact h.tidy s' b' hold
    · rintro rfl
      exact hj.new s' hold
  · intro i
    rw [hj.dlPdr,hj.ulPdr]
    exact ⟨⟨fun _ => rfl,fun _ => rfl⟩,fun _ => rfl,fun _ => rfl⟩

theorem Tended.pfRemove (h : c.Tended) (hb : b∈c.bearerList s) (hf : f∈c.pfList b) :
    (c.smfPfRemove f).Returns fun c' _ => c'.Tended ∧
      (c.Owned → (∀ k∈(c.pf f).flowDescription,k∉(c.bearer b).carried) → c'.Owned) := by
  refine (h.bound.pfRemove hb hf).mono ?_
  rintro c'-⟨hbound,texts,hfree,rfl⟩
  refine ⟨⟨hbound,h.tidy⟩,?_⟩
  intro howned hnot
  refine Texted.delete howned h.bound hb hf hfree ?_
  intro s' b' hb' _ k hk hcarried
  obtain rfl : b'=b := ((howned.carried s' b' hb' trivial k hcarried).2 s b f hb hf hk).symm
  exact hnot k hk hcarried

theorem Tended.pfAddFlow (h : c.Tended) (hb : b∈c.bearerList s) (direction : PfDirection)
    (description : List Byte) :
    (c.pfAddFlow b direction description).Returns fun c' _ =>
      c'.Tended ∧ (c.Owned → c'.Owned) := by
  have htexted : c.Owned → (c.pfAddFlow b direction description).Returns fun c' _ =>
      c'.Texted c.bearerList fun _ => True :=
    fun howned => howned.pfAddFlow h.bound hb direction description
  refine ((h.bound.pfAddFlow hb direction description).and (.of_imp htexted)).mono ?_
  rintro c'-⟨⟨hbound,hlist,hbearer⟩,howned⟩
  refine ⟨⟨hlist ▸ hbound,?_⟩,?_⟩
  · rw [hlist,hbearer]
    exact h.tidy
  · unfold Owned
    rw [hlist]
    exact howned

theorem Tended.tftUpdate (h : c.Tended) (hb : b∈c.bearerList s) (hfit : c.FlowsFit b) :
    (c.smfBearerTftUpdate b).Returns fun c' _ =>
      c'.Tended ∧ c'.FlowsRight b ∧ (c.Owned → c'.Owned) := by
  refine (Outcome.Returns.and (tftUpdate_spec (h.tidy s b hb)) (h.bound.tftUpdate b)).mono ?_
  rintro c'-⟨⟨hiff,htidy,dl,ul,hc'⟩,hbound,hlist⟩
  have hright:=hiff.mpr hfit
  refine ⟨⟨hlist ▸ hbound,?_⟩,hright,?_⟩
  · intro s' b' hb'
    rw [hlist] at hb'
    by_cases hbb : b'=b
    · rw [hbb]
      exact htidy
    · have hsame : c'.bearer b'=c.bearer b' := by
        rw [hc']
        exact Function.update_of_ne hbb ..
      rw [hsame]
      exact h.tidy s' b' hb'
  · intro howned
    unfold Owned
    rw [hlist]
    exact Texted.update howned h.bound hb hc' hright

theorem Tended.bearerRemove (h : c.Tended) (hb : b∈c.bearerList s) :
    (c.smfBearerRemove b).Returns fun c' _ => c'.Tended ∧ (c.Owned → c'.Owned) := by
  have htexted : c.Owned → (c.smfBearerRemove b).Returns fun c' _ => c'.Owned :=
    fun howned => howned.bearerRemove h.bound hb
  refine (((h.bound.bearerRemove hb).and (h.bound.bearerRemove_bearer hb)).and
    (.of_imp htexted)).mono ?_
  rintro c'-⟨⟨⟨hbound,hlist⟩,hbearer⟩,howned⟩
  refine ⟨⟨hbound,?_⟩,howned⟩
  intro s' b' hb'
  rw [hlist] at hb'
  rw [hbearer]
  exact h.tidy s' b' ((h.bound.mem_less hb).mp hb').1

theorem Tended.step {op : BearerOp} {o : Outcome Bearers Unit} (h : c.Tended) (hfit : c.Fit op)
    (ho : c.step op=some o) :
    UpdatesRight c op o ∧ o.Returns fun c' _ =>
      c'.Tended ∧ (c.Owned → c.Holding op → c'.Owned) := by
  cases op with
  | bearerAdd s =>
    obtain rfl := some.inj ho
    refine ⟨trivial,((h.bound.bearerAdd hfit s).and (h.bound.bearerAdd_joined s)).bind ?_⟩
    rintro c' b ⟨hbound,hj⟩
    exact ⟨h.join hj hbound,fun howned _ => Texted.join howned hj⟩
  | qosFlowAdd s =>
    obtain rfl := some.inj ho
    refine ⟨trivial,((h.bound.qosFlowAdd hfit s).and (h.bound.qosFlowAdd_joined s)).bind ?_⟩
    rintro c' b ⟨hbound,hj⟩
    exact ⟨h.join hj hbound,fun howned _ => Texted.join howned hj⟩
  | bearerRemove b =>
    simp only [Bearers.step] at ho
    split at ho
    · rename_i hb
      obtain rfl := some.inj ho
      refine ⟨trivial,(h.bearerRemove hb).mono ?_⟩
      exact fun c' _ h' => ⟨h'.1,fun howned _ => h'.2 howned⟩
    · cases ho
  | pfAdd b direction description =>
    simp only [Bearers.step] at ho
    split at ho
    · rename_i hb
      obtain rfl := some.inj ho
      refine ⟨trivial,(h.pfAddFlow hb direction description).bind ?_⟩
      exact fun c' _ h' => ⟨h'.1,fun howned _ => h'.2 howned⟩
    · cases ho
  | pfRemove b f =>
    simp only [Bearers.step] at ho
    split at ho
    · rename_i hf
      obtain rfl := some.inj ho
      exact ⟨trivial,h.pfRemove hf.1 hf.2⟩
    · cases ho
  | tftUpdate b =>
    simp only [Bearers.step] at ho
    split at ho
    · rename_i hb
      obtain rfl := some.inj ho
      have hupdate:=h.tftUpdate hb hfit
      refine ⟨hupdate.mono fun c' _ h' => h'.2.1,hupdate.mono ?_⟩
      exact fun c' _ h' => ⟨h'.1,fun howned _ => h'.2.2 howned⟩
    · cases ho

theorem Tended.init (poolBearer : Nat) : (bearersInit poolBearer).Tended :=
  ⟨.init poolBearer,fun _ _ => nofun⟩

theorem Owned.init (poolBearer : Nat) : (bearersInit poolBearer).Owned := by
  have hno : ∀ s f,¬ (bearersInit poolBearer).HasPf (bearersInit poolBearer).bearerList s f := by
    rintro s f ⟨b,hb,-⟩
    cases hb
  refine ⟨fun s f hf => absurd hf (hno s f),?_,nofun,fun _ _ => nofun⟩
  intro s s' f f' k hf
  exact absurd hf (hno s f)

/-- In a run in which no update leaves a flag of an earlier one, and no id of a bearer comes round,
every update makes the flows right; if no text is freed while it is carried, all that the flows
carry is there at any time. -/
theorem tft_run {poolBearer : Nat} {ops : List BearerOp}
    (hfit : EachStep Bearers.step Fit (bearersInit poolBearer) ops) :
    EachOutcome Bearers.step UpdatesRight (bearersInit poolBearer) ops ∧
      (EachStep Bearers.step Holding (bearersInit poolBearer) ops →
        ∀ c∈completed Bearers.step (bearersInit poolBearer) ops,c.Carries) := by
  constructor
  · refine eachOutcome_inv ?_ (Tended.init poolBearer) hfit
    intro c op o h hop ho
    obtain ⟨hright,hnext⟩ := Tended.step h hop ho
    refine ⟨hright,?_⟩
    cases o with
    | ok c' r => exact hnext.1
    | abort c' => trivial
  · intro hholding c hc
    refine Owned.carries ?_
    have hinit : (bearersInit poolBearer).Tended ∧ (bearersInit poolBearer).Owned :=
      ⟨Tended.init poolBearer,Owned.init poolBearer⟩
    have hall : ∀ c∈completed Bearers.step (bearersInit poolBearer) ops,c.Tended ∧ c.Owned := by
      refine completed_inv ?_ hinit (hfit.and hholding)
      intro t op t' r h hop ho
      have hnext:=(Tended.step h.1 hop.1 ho).2
      exact ⟨hnext.1,hnext.2 h.2 hop.2⟩
    exact (hall c hc).2

def fitOps : List BearerOp :=
  [.qosFlowAdd 0,.pfAdd 0 .downlinkOnly [],.tftUpdate 0,.pfAdd 0 .bidirectional [],
    .tftUpdate 0,.pfAdd 0 .uplinkOnly [],.pfRemove 0 2,.bearerAdd 1,.pfAdd 1 .uplinkOnly [],
    .tftUpdate 1,.tftUpdate 0,.bearerRemove 1]

def fitted : Bearers := (final Bearers.step (bearersInit 4) fitOps).getD (bearersInit 4)

theorem tft_run_fits : EachOutcome Bearers.step UpdatesRight (bearersInit 4) fitOps ∧
    fitted.Carries := by
  have hfit : EachStep Bearers.step Fit (bearersInit 4) fitOps := by decide
  have hholding : EachStep Bearers.step Holding (bearersInit 4) fitOps := by decide
  obtain ⟨hright,hcarries⟩ := tft_run hfit
  exact ⟨hright,hcarries hholding fitted (mem_completed_of_final rfl)⟩

def replaceOps : List BearerOp :=
  [.qosFlowAdd 0,.pfAdd 0 .bidirectional [],.tftUpdate 0,.pfRemove 0 0,.tftUpdate 0,
    .pfAdd 0 .downlinkOnly [],.tftUpdate 0]

def replaced : Bearers :=
  (final Bearers.step (bearersInit 4) (replaceOps.take 4)).getD (bearersInit 4)

/-- The flag and the filter id of the filter before are still there after the last update, and the
text of a removed filter is gone while the flows carry it. -/
theorem tft_replaced : ¬ EachOutcome Bearers.step UpdatesRight (bearersInit 4) replaceOps ∧
    ¬ ∀ c∈completed Bearers.step (bearersInit 4) (replaceOps.take 4),c.Carries := by
  refine ⟨by decide,?_⟩
  intro h
  have hcarries:=h replaced (mem_completed_of_final rfl)
  have hlive:=hcarries 0 0 (by decide) 0 (by decide)
  exact absurd hlive (by decide)

end Bearers

end OgsDp.Smf
