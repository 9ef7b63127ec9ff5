import OgsDp.Core.PoolHolders
import OgsDp.Smf.Bearer

/-!
# Identifiers of bearers and packet filters (src/smf/context.c)

`L` lists the bearers of each session whose records are in use; while a bearer is removed it is
longer than the list of the session.
-/

namespace OgsDp.Smf
open Lib OgsDp.Core Function List Option

namespace Bearers

variable {c c' : Bearers} {L : Nat → List Nat} {s b f : Nat}

def HasPf (c : Bearers) (L : Nat → List Nat) (s f : Nat) : Prop := ∃ b∈L s,f∈c.pfList b

/-- The values that a packet filter got from the nodes it remembers. -/
def Numbered (x : SmfPf) : Prop :=
  ∃ k j,x.identifierNode=some k ∧ x.identifier=sequenceId k ∧ x.precedenceNode=some j ∧
    x.precedence=sequenceId j ∧ x.sdfFilterId=sequenceId j

structure BearersBound (c : Bearers) (L : Nat → List Nat) : Prop where
  nodup : ∀ s,(L s).Nodup
  owner : ∀ s,∀ b∈L s,(c.bearer b).sess=s
  holds : c.bearerPool.Holds fun b => ∃ s,b∈L s
  ids : ∀ s,∀ b∈L s,c.bearerPool.findById (c.bearer b).id=some b
  qfis : ∀ s,(c.qfiPool s).Serves (fun b => b∈L s) fun b => (c.bearer b).qfiNode
  qfiSize : ∀ s,(c.qfiPool s).size=maxQosFlowId
  qfi : ∀ s,∀ b∈L s,∀ k,(c.bearer b).qfiNode=some k → (c.bearer b).qfi=sequenceId k

structure PfsBound (c : Bearers) (L : Nat → List Nat) : Prop where
  nodup : ∀ s,∀ b∈L s,(c.pfList b).Nodup
  owner : ∀ s,∀ b∈L s,∀ f∈c.pfList b,(c.pf f).bearerId=(c.bearer b).id
  holds : c.pfPool.Holds fun f => ∃ s,c.HasPf L s f
  identifiers : ∀ s,∀ b ∈ L s,
    (c.identifierPool b).Serves (fun f => f∈c.pfList b) fun f => (c.pf f).identifierNode
  identifierSize : ∀ s,∀ b∈L s,(c.identifierPool b).size=maxNumOfFlowInBearer
  precedences : ∀ s,(c.precedencePool s).Serves (c.HasPf L s) fun f => (c.pf f).precedenceNode
  precedenceSize : ∀ s,(c.precedencePool s).size=maxNumOfBearer*maxNumOfFlowInBearer
  numbered : ∀ s f,c.HasPf L s f → Numbered (c.pf f)

structure Bound (c : Bearers) (L : Nat → List Nat) : Prop where
  bearers : c.BearersBound L
  pfs : c.PfsBound L

namespace Bound

theorem sess_unique (h : c.Bound L) {s' : Nat} (hb : b∈L s) (hb' : b∈L s') : s'=s :=
  (h.bearers.owner s' b hb').symm.trans (h.bearers.owner s b hb)

theorem bearer_unique (h : c.Bound L) {s' b' : Nat} (hb : b∈L s) (hb' : b'∈L s')
    (hf : f∈c.pfList b) (hf' : f∈c.pfList b') : b'=b := by
  have hid : (c.bearer b').id=(c.bearer b).id :=
    (h.pfs.owner s' b' hb' f hf').symm.trans (h.pfs.owner s b hb f hf)
  have hfind:=h.bearers.ids s' b' hb'
  rw [hid,h.bearers.ids s b hb] at hfind
  exact (some.inj hfind).symm

end Bound

def bearersPart (c : Bearers) : Pool × (Nat → Nat × Option Nat × Nat × Nat) × (Nat → Pool) :=
  (c.bearerPool,fun b => ((c.bearer b).id,(c.bearer b).qfiNode,(c.bearer b).qfi,
    (c.bearer b).sess),c.qfiPool)

theorem BearersBound.congr (h : c.BearersBound L) (heq : c'.bearersPart=c.bearersPart) :
    c'.BearersBound L := by
  have hpool : c'.bearerPool=c.bearerPool := congrArg (fun x => x.1) heq
  have hid : ∀ b,(c'.bearer b).id=(c.bearer b).id := fun b =>
    congrArg (fun x => (x.2.1 b).1) heq
  have hnode : ∀ b,(c'.bearer b).qfiNode=(c.bearer b).qfiNode := fun b =>
    congrArg (fun x => (x.2.1 b).2.1) heq
  have hqfi : ∀ b,(c'.bearer b).qfi=(c.bearer b).qfi := fun b =>
    congrArg (fun x => (x.2.1 b).2.2.1) heq
  have hsess : ∀ b,(c'.bearer b).sess=(c.bearer b).sess := fun b =>
    congrArg (fun x => (x.2.1 b).2.2.2) heq
  have hqfis : c'.qfiPool=c.qfiPool := congrArg (fun x => x.2.2) heq
  refine ⟨h.nodup,?_,hpool ▸ h.holds,?_,?_,hqfis ▸ h.qfiSize,?_⟩
  · simpa only [hsess] using h.owner
  · simpa only [hpool,hid] using h.ids
  · simpa only [hqfis,hnode] using h.qfis
  · simpa only [hnode,hqfi] using h.qfi

def bare (c : Bearers) : Bearers :=
  { c with
    bearer := fun b => { c.bearer b with dlPdr := .zero,ulPdr := .zero }
    bearerList := fun _ => []
    pf := fun f => { c.pf f with direction := .unspecified,flowDescription := none }
    texts := .init }

theorem bare_modifyPf (c : Bearers) (f : Nat) {g : SmfPf → SmfPf}
    (hg : ∀ x,({ g x with direction := .unspecified,flowDescription := none } : SmfPf) =
      { x with direction := .unspecified,flowDescription := none }) :
    (c.modifyPf f g).bare=c.bare := by
  have hpf : (fun f' => ({ (c.modifyPf f g).pf f' with
      direction := .unspecified,flowDescription := none } : SmfPf)) =
        fun f' => { c.pf f' with direction := .unspecified,flowDescription := none } := by
    funext f'
    unfold modifyPf
    by_cases hff : f'=f
    · subst hff
      simp only [update_self]
      exact hg _
    · simp only [update_of_ne hff]
  unfold bare
  simp only [hpf]
  rfl

theorem bare_modifyBearer (c : Bearers) (b : Nat) {g : SmfBearer → SmfBearer}
    (hg : ∀ x,({ g x with dlPdr := .zero,ulPdr := .zero } : SmfBearer) =
      { x with dlPdr := .zero,ulPdr := .zero }) : (c.modifyBearer b g).bare=c.bare := by
  have hbearer : (fun b' => ({ (c.modifyBearer b g).bearer b' with
      dlPdr := .zero,ulPdr := .zero } : SmfBearer)) =
        fun b' => { c.bearer b' with dlPdr := .zero,ulPdr := .zero } := by
    funext b'
    unfold modifyBearer
    by_cases hbb : b'=b
    · subst hbb
      simp only [update_self]
      exact hg _
    · simp only [update_of_ne hbb]
  unfold bare
  simp only [hbearer]
  rfl

theorem Bound.of_bare (h : c.Bound L) (hbare : c'.bare=c.bare) : c'.Bound L := by
  have h₀ : c.bare.Bound L :=
    ⟨h.bearers.congr rfl,⟨h.pfs.nodup,h.pfs.owner,h.pfs.holds,h.pfs.identifiers,
      h.pfs.identifierSize,h.pfs.precedences,h.pfs.precedenceSize,h.pfs.numbered⟩⟩
  rw [← hbare] at h₀
  exact ⟨h₀.bearers.congr rfl,⟨h₀.pfs.nodup,h₀.pfs.owner,h₀.pfs.holds,h₀.pfs.identifiers,
    h₀.pfs.identifierSize,h₀.pfs.precedences,h₀.pfs.precedenceSize,h₀.pfs.numbered⟩⟩

namespace Bound

-- The filter `f` with the fields `x` is listed by the bearer, and drew a node from each pool.
def withPf (c : Bearers) (s b f : Nat) (x : SmfPf) (pool ids precedences : Pool) : Bearers :=
  { c with
    pfPool := pool
    pf := update c.pf f x
    identifierPool := update c.identifierPool b ids
    precedencePool := update c.precedencePool s precedences
    pfList := update c.pfList b (c.pfList b++[f]) }

variable {x : SmfPf} {pool ids precedences : Pool} {k j : Nat}

theorem hasPf_withPf (h : c.Bound L) (hb : b∈L s) (s' f' : Nat) :
    (withPf c s b f x pool ids precedences).HasPf L s' f' ↔
      c.HasPf L s' f' ∨ s'=s ∧ f'=f := by
  unfold HasPf withPf
  simp only
  constructor
  · rintro ⟨b',hb',hf'⟩
    by_cases hbb : b'=b
    · subst hbb
      rw [update_self,mem_append,mem_singleton] at hf'
      rcases hf' with hf' | rfl
      · exact .inl ⟨b',hb',hf'⟩
      · exact .inr ⟨h.sess_unique hb hb',rfl⟩
    · rw [update_of_ne hbb] at hf'
      exact .inl ⟨b',hb',hf'⟩
  · rintro (⟨b',hb',hf'⟩ | ⟨rfl,rfl⟩)
    · refine ⟨b',hb',?_⟩
      by_cases hbb : b'=b
      · subst hbb
        rw [update_self]
        exact mem_append_left _ hf'
      · rw [update_of_ne hbb]
        exact hf'
    · refine ⟨b,hb,?_⟩
      rw [update_self]
      exact mem_append_right _ (mem_singleton_self f')

theorem insertPf (h : c.Bound L) (hb : b∈L s) (hnew : ∀ s',¬ c.HasPf L s' f)
    (hpool : pool.Holds fun f' => (∃ s',c.HasPf L s' f') ∨ f'=f)
    (hids : (c.identifierPool b).alloc=(ids,some k))
    (hprecs : (c.precedencePool s).alloc=(precedences,some j))
    (hbearer : x.bearerId=(c.bearer b).id) (hk : x.identifierNode=some k)
    (hj : x.precedenceNode=some j) (hx : Numbered x) :
    (withPf c s b f x pool ids precedences).Bound L := by
  have hmem : ∀ s' f',(withPf c s b f x pool ids precedences).HasPf L s' f' ↔
      c.HasPf L s' f' ∨ s'=s ∧ f'=f := h.hasPf_withPf hb
  have hself : (withPf c s b f x pool ids precedences).pf f=x := update_self ..
  have hold : ∀ f',f'≠f → (withPf c s b f x pool ids precedences).pf f'=c.pf f' :=
    fun f' hne => update_of_ne hne ..
  have hlist : (withPf c s b f x pool ids precedences).pfList b=c.pfList b++[f] :=
    update_self ..
  have hlists : ∀ b',b'≠b →
      (withPf c s b f x pool ids precedences).pfList b'=c.pfList b' :=
    fun b' hne => update_of_ne hne ..
  have hne : ∀ s' f',c.HasPf L s' f' → f'≠f := by
    rintro s' f' hf' rfl
    exact hnew s' hf'
  refine ⟨h.bearers.congr rfl,?_⟩
  refine ⟨?_,?_,?_,?_,?_,?_,?_,?_⟩
  · intro s' b' hb'
    by_cases hbb : b'=b
    · subst hbb
      rw [hlist,nodup_append]
      refine ⟨h.pfs.nodup s' b' hb',nodup_singleton f,?_⟩
      intro a ha d hd
      rw [mem_singleton.mp hd]
      exact hne s' a ⟨b',hb',ha⟩
    · rw [hlists b' hbb]
      exact h.pfs.nodup s' b' hb'
  · intro s' b' hb' f' hf'
    by_cases hff : f'=f
    · subst hff
      rw [hself]
      by_cases hbb : b'=b
      · subst hbb
        exact hbearer
      · rw [hlists b' hbb] at hf'
        exact absurd ⟨b',hb',hf'⟩ (hnew s')
    · rw [hold f' hff]
      by_cases hbb : b'=b
      · subst hbb
        rw [hlist,mem_append,mem_singleton] at hf'
        exact h.pfs.owner s' b' hb' f' (hf'.resolve_right hff)
      · rw [hlists b' hbb] at hf'
        exact h.pfs.owner s' b' hb' f' hf'
  · refine hpool.congr ?_
    intro f'
    simp only [hmem]
    constructor
    · rintro ⟨s',hf' | ⟨-,rfl⟩⟩
      · exact .inl ⟨s',hf'⟩
      · exact .inr rfl
    · rintro (⟨s',hf'⟩ | rfl)
      · exact ⟨s',.inl hf'⟩
      · exact ⟨s,.inr ⟨rfl,rfl⟩⟩
  · intro s' b' hb'
    by_cases hbb : b'=b
    · subst hbb
      show (update c.identifierPool b' ids b').Serves _ _
      rw [update_self]
      have hnone : f∉c.pfList b' := fun hf => hnew s' ⟨b',hb',hf⟩
      refine ((h.pfs.identifiers s' b' hb').join hnone hids ?_ ?_ ?_).1
      · intro f'
        rw [hlist,mem_append,mem_singleton]
      · intro f' hf'
        rw [hold f' (hne s' f' ⟨b',hb',hf'⟩)]
      · rw [hself]
        exact hk
    · show (update c.identifierPool b ids b').Serves _ _
      rw [update_of_ne hbb]
      refine (h.pfs.identifiers s' b' hb').congr ?_ ?_
      · intro f'
        rw [hlists b' hbb]
      · intro f' hf'
        rw [hold f' (hne s' f' ⟨b',hb',hf'⟩)]
  · intro s' b' hb'
    show (update c.identifierPool b ids b').size=_
    by_cases hbb : b'=b
    · subst hbb
      rw [update_self]
      have hsize:=((h.pfs.identifiers s' b' hb').holds.alloc_some hids).2.2.2
      exact hsize.trans (h.pfs.identifierSize s' b' hb')
    · rw [update_of_ne hbb]
      exact h.pfs.identifierSize s' b' hb'
  · intro s'
    by_cases hss : s'=s
    · subst hss
      show (update c.precedencePool s' precedences s').Serves _ _
      rw [update_self]
      refine ((h.pfs.precedences s').join (hnew s') hprecs ?_ ?_ ?_).1
      · intro f'
        rw [hmem]
        simp only [true_and]
      · intro f' hf'
        rw [hold f' (hne s' f' hf')]
      · rw [hself]
        exact hj
    · show (update c.precedencePool s precedences s').Serves _ _
      rw [update_of_ne hss]
      refine (h.pfs.precedences s').congr ?_ ?_
      · intro f'
        rw [hmem]
        simp only [hss,false_and,or_false]
      · intro f' hf'
        rw [hold f' (hne s' f' hf')]
  · intro s'
    show (update c.precedencePool s precedences s').size=_
    by_cases hss : s'=s
    · subst hss
      rw [update_self]
      have hsize:=((h.pfs.precedences s').holds.alloc_some hprecs).2.2.2
      exact hsize.trans (h.pfs.precedenceSize s')
    · rw [update_of_ne hss]
      exact h.pfs.precedenceSize s'
  · intro s' f' hf'
    rcases (hmem s' f').mp hf' with hf' | ⟨-,rfl⟩
    · rw [hold f' (hne s' f' hf')]
      exact h.pfs.numbered s' f' hf'
    · rw [hself]
      exact hx

def sansPf (c : Bearers) (s b f : Nat) (texts : Texts) : Bearers :=
  { c with
    pfList := update c.pfList b ((c.pfList b).erase f)
    texts := texts
    identifierPool := update c.identifierPool b
      (giveBack (c.identifierPool b) (c.pf f).identifierNode)
    precedencePool := update c.precedencePool s
      (giveBack (c.precedencePool s) (c.pf f).precedenceNode)
    pfPool := c.pfPool.idFree f (c.pf f).id }

variable {texts : Texts}

theorem mem_sansPf (h : c.Bound L) (hb : b∈L s) (hf : f∈c.pfList b) {s' b' : Nat}
    (hb' : b'∈L s') (f' : Nat) :
    f'∈(sansPf c s b f texts).pfList b' ↔ f'∈c.pfList b' ∧ f'≠f := by
  show f'∈update c.pfList b ((c.pfList b).erase f) b' ↔ _
  by_cases hbb : b'=b
  · subst hbb
    rw [update_self,(h.pfs.nodup s b' hb).mem_erase_iff,and_comm]
  · rw [update_of_ne hbb]
    refine ⟨fun hf' => ⟨hf',?_⟩,fun hf' => hf'.1⟩
    rintro rfl
    exact hbb (h.bearer_unique hb hb' hf hf')

theorem hasPf_sansPf (h : c.Bound L) (hb : b∈L s) (hf : f∈c.pfList b) (s' f' : Nat) :
    (sansPf c s b f texts).HasPf L s' f' ↔ c.HasPf L s' f' ∧ f'≠f := by
  unfold HasPf
  constructor
  · rintro ⟨b',hb',hf'⟩
    obtain ⟨hf',hne⟩ := (h.mem_sansPf hb hf hb' f').mp hf'
    exact ⟨⟨b',hb',hf'⟩,hne⟩
  · rintro ⟨⟨b',hb',hf'⟩,hne⟩
    exact ⟨b',hb',(h.mem_sansPf hb hf hb' f').mpr ⟨hf',hne⟩⟩

theorem deletePf (h : c.Bound L) (hb : b∈L s) (hf : f∈c.pfList b) :
    (sansPf c s b f texts).Bound L := by
  have hmem : ∀ {s' b'},b'∈L s' → ∀ f',
      f'∈(sansPf c s b f texts).pfList b' ↔ f'∈c.pfList b' ∧ f'≠f :=
    fun hb' => h.mem_sansPf hb hf hb'
  have hhas : ∀ s' f',(sansPf c s b f texts).HasPf L s' f' ↔ c.HasPf L s' f' ∧ f'≠f :=
    h.hasPf_sansPf hb hf
  have hlisted : c.HasPf L s f := ⟨b,hb,hf⟩
  obtain ⟨k,j,hk,-,hj,-⟩ := h.pfs.numbered s f hlisted
  refine ⟨h.bearers.congr rfl,?_⟩
  refine ⟨?_,?_,?_,?_,?_,?_,?_,?_⟩
  · intro s' b' hb'
    show (update c.pfList b ((c.pfList b).erase f) b').Nodup
    by_cases hbb : b'=b
    · subst hbb
      rw [update_self]
      exact (h.pfs.nodup s' b' hb').erase f
    · rw [update_of_ne hbb]
      exact h.pfs.nodup s' b' hb'
  · intro s' b' hb' f' hf'
    exact h.pfs.owner s' b' hb' f' ((hmem hb' f').mp hf').1
  · refine (h.pfs.holds.idFree ⟨s,hlisted⟩ _).congr ?_
    intro f'
    simp only [hhas,exists_and_right]
  · intro s' b' hb'
    show (update c.identifierPool b
      (giveBack (c.identifierPool b) (c.pf f).identifierNode) b').Serves _ _
    by_cases hbb : b'=b
    · subst hbb
      rw [update_self,hk]
      exact (h.pfs.identifiers s' b' hb').leave hf (hmem hb') hk
    · rw [update_of_ne hbb]
      refine (h.pfs.identifiers s' b' hb').congr ?_ fun _ _ => rfl
      intro f'
      rw [hmem hb']
      refine and_iff_left_of_imp ?_
      rintro hf' rfl
      exact hbb (h.bearer_unique hb hb' hf hf')
  · intro s' b' hb'
    show (update c.identifierPool b
      (giveBack (c.identifierPool b) (c.pf f).identifierNode) b').size=_
    by_cases hbb : b'=b
    · subst hbb
      rw [update_self,hk]
      exact (Pool.release_size ..).trans (h.pfs.identifierSize s' b' hb')
    · rw [update_of_ne hbb]
      exact h.pfs.identifierSize s' b' hb'
  · intro s'
    show (update c.precedencePool s
      (giveBack (c.precedencePool s) (c.pf f).precedenceNode) s').Serves _ _
    by_cases hss : s'=s
    · subst hss
      rw [update_self,hj]
      exact (h.pfs.precedences s').leave hlisted (hhas s') hj
    · rw [update_of_ne hss]
      refine (h.pfs.precedences s').congr ?_ fun _ _ => rfl
      intro f'
      rw [hhas]
      refine and_iff_left_of_imp ?_
      rintro ⟨b',hb',hf'⟩ rfl
      obtain rfl := h.bearer_unique hb hb' hf hf'
      exact hss (h.sess_unique hb hb')
  · intro s'
    show (update c.precedencePool s
      (giveBack (c.precedencePool s) (c.pf f).precedenceNode) s').size=_
    by_cases hss : s'=s
    · subst hss
      rw [update_self,hj]
      exact (Pool.release_size ..).trans (h.pfs.precedenceSize s')
    · rw [update_of_ne hss]
      exact h.pfs.precedenceSize s'
  · intro s' f' hf'
    exact h.pfs.numbered s' f' ((hhas s' f').mp hf').1

structure PfAdded (c : Bearers) (L : Nat → List Nat) (b : Nat) (r : Option Nat) (c' : Bearers) :
    Prop where
  bearer : c'.bearer=c.bearer
  bearerList : c'.bearerList=c.bearerList
  texts : c'.texts=c.texts
  old : ∀ s f,c.HasPf L s f → c'.pf f=c.pf f
  pfList : c'.pfList=r.elim c.pfList fun f => update c.pfList b (c.pfList b++[f])
  new : ∀ f,r=some f → ∀ s,¬ c.HasPf L s f

theorem refusedPf (h : c.Bound L) {pool : Pool} {id : Nat} {y : SmfPf}
    (hcalloc : c.pfPool.idCalloc=(pool,some (f,id)))
    (hids : ∀ b' s',b'∈L s' → (c'.identifierPool b').Serves (fun f => f∈c.pfList b')
      fun f => (c.pf f).identifierNode)
    (hsize : ∀ b',(c'.identifierPool b').size=(c.identifierPool b').size)
    (hbearers : c'.bearersPart=c.bearersPart) (hlist : c'.pfList=c.pfList)
    (hpf : c'.pf=update c.pf f y) (hpool : c'.pfPool=pool.idFree f id)
    (hprecs : c'.precedencePool=c.precedencePool) : c'.Bound L := by
  obtain ⟨hnew,hholds,-⟩ := h.pfs.holds.idCalloc hcalloc
  have hhas : c'.HasPf L=c.HasPf L := by
    unfold HasPf
    rw [hlist]
  have hold : ∀ s' f',c.HasPf L s' f' → c'.pf f'=c.pf f' := by
    intro s' f' hf'
    rw [hpf,update_of_ne]
    rintro rfl
    exact hnew ⟨s',hf'⟩
  have hid : ∀ b',(c'.bearer b').id=(c.bearer b').id := fun b' =>
    congrArg (fun x => (x.2.1 b').1) hbearers
  refine ⟨h.bearers.congr hbearers,?_⟩
  refine ⟨hlist ▸ h.pfs.nodup,?_,?_,?_,?_,?_,hprecs ▸ h.pfs.precedenceSize,?_⟩
  · intro s' b' hb' f' hf'
    rw [hlist] at hf'
    rw [hold s' f' ⟨b',hb',hf'⟩,hid]
    exact h.pfs.owner s' b' hb' f' hf'
  · rw [hpool,hhas]
    refine (hholds.idFree (.inr rfl) id).congr ?_
    intro f'
    constructor
    · intro hf'
      refine ⟨.inl hf',?_⟩
      rintro rfl
      exact hnew hf'
    · exact fun hf' => hf'.1.resolve_right hf'.2
  · intro s' b' hb'
    refine (hids b' s' hb').congr ?_ ?_
    · intro f'
      rw [hlist]
    · intro f' hf'
      rw [hold s' f' ⟨b',hb',hf'⟩]
  · intro s' b' hb'
    rw [hsize]
    exact h.pfs.identifierSize s' b' hb'
  · intro s'
    rw [hprecs,hhas]
    exact (h.pfs.precedences s').congr (fun _ => Iff.rfl) fun f' hf' => by rw [hold s' f' hf']
  · intro s' f' hf'
    rw [hhas] at hf'
    rw [hold s' f' hf']
    exact h.pfs.numbered s' f' hf'

theorem pfAdd (h : c.Bound L) (hb : b∈L s) :
    (c.smfPfAdd b).Returns fun c' r => c'.Bound L ∧ PfAdded c L b r c' := by
  have hsess : (c.bearer b).sess=s := h.bearers.owner s b hb
  unfold smfPfAdd
  simp only
  split
  · trivial
  · rename_i pool f id hcalloc
    obtain ⟨hnew,hholds,-⟩ := h.pfs.holds.idCalloc hcalloc
    have hfresh : ∀ s',¬ c.HasPf L s' f := fun s' hf => hnew ⟨s',hf⟩
    have hold : ∀ (y : SmfPf) s' f',c.HasPf L s' f' → update c.pf f y f'=c.pf f' := by
      intro y s' f' hf'
      refine update_of_ne ?_ ..
      rintro rfl
      exact hfresh s' hf'
    split
    · refine ⟨h.refusedPf hcalloc ?_ (fun _ => rfl) rfl rfl rfl rfl rfl,rfl,rfl,rfl,hold _,rfl,
        nofun⟩
      exact fun b' s' hb' => h.pfs.identifiers s' b' hb'
    · rename_i ids k hids
      have hklt:=((h.pfs.identifiers s b hb).holds.alloc_some hids).1
      rw [h.pfs.identifierSize s b hb] at hklt
      split
      · split
        · refine ⟨h.refusedPf hcalloc ?_ ?_ rfl rfl rfl rfl rfl,rfl,rfl,rfl,hold _,rfl,nofun⟩
          · intro b' s' hb'
            simp only [update_idem]
            by_cases hbb : b'=b
            · subst hbb
              rw [update_self]
              exact (h.pfs.identifiers s' b' hb').alloc_release hids
            · rw [update_of_ne hbb]
              exact h.pfs.identifiers s' b' hb'
          · intro b'
            simp only [update_idem]
            by_cases hbb : b'=b
            · subst hbb
              rw [update_self,Pool.release_size]
              exact ((h.pfs.identifiers s b' hb).holds.alloc_some hids).2.2.2
            · rw [update_of_ne hbb]
        · rename_i precedences j hprecs
          rw [hsess] at hprecs
          have hjlt:=((h.pfs.precedences s).holds.alloc_some hprecs).1
          rw [h.pfs.precedenceSize s] at hjlt
          split
          · have hk : sequenceId k % 16=sequenceId k :=
              Nat.mod_eq_of_lt (by unfold sequenceId maxNumOfFlowInBearer at *; omega)
            have hj : sequenceId j % 256=sequenceId j := Nat.mod_eq_of_lt (by
              unfold sequenceId maxNumOfFlowInBearer maxNumOfBearer at *; omega)
            simp only [hk,hj,hsess]
            have hbound:=h.insertPf (x := { SmfPf.zero with
              id := id
              identifierNode := some k
              identifier := sequenceId k
              precedenceNode := some j
              precedence := sequenceId j
              sdfFilterId := sequenceId j
              bearerId := (c.bearer b).id }) hb hfresh hholds hids hprecs rfl rfl rfl
              ⟨k,j,rfl,rfl,rfl,rfl,rfl⟩
            simp only [modifyPf,update_self,update_idem]
            refine ⟨hbound,rfl,rfl,rfl,hold _,rfl,?_⟩
            rintro f' hf'
            obtain rfl := some.inj hf'
            exact hfresh
          · trivial
      · trivial

theorem pfAddFlow (h : c.Bound L) (hb : b∈L s) (direction : PfDirection)
    (description : List Byte) :
    (c.pfAddFlow b direction description).Returns fun c' _ => c'.Bound L ∧
      c'.bearerList=c.bearerList ∧ c'.bearer=c.bearer := by
  unfold Bearers.pfAddFlow
  refine (h.pfAdd hb).bind ?_
  rintro c₁ r ⟨h₁,hadded⟩
  cases r with
  | none => exact ⟨h₁,hadded.bearerList,hadded.bearer⟩
  | some f =>
    exact ⟨h₁.of_bare (bare_modifyPf _ f fun _ => rfl),hadded.bearerList,hadded.bearer⟩

theorem pfRemove (h : c.Bound L) (hb : b∈L s) (hf : f∈c.pfList b) :
    (c.smfPfRemove f).Returns fun c' _ => c'.Bound L ∧ ∃ texts,
      c.texts.free (c.pf f).flowDescription = .ok texts () ∧ c'=sansPf c s b f texts := by
  have hfind : c.bearerPool.findById (c.pf f).bearerId=some b := by
    rw [h.pfs.owner s b hb f hf]
    exact h.bearers.ids s b hb
  unfold smfPfRemove
  simp only [hfind,h.bearers.owner s b hb]
  cases hfree : c.texts.free (c.pf f).flowDescription with
  | abort t => trivial
  | ok t r => exact ⟨h.deletePf hb hf,t,rfl,rfl⟩

theorem pfRemoveAll (h : c.Bound L) (hb : b∈L s) {fs : List Nat} (hfs : c.pfList b=fs) :
    (c.smfPfRemoveAll fs).Returns fun c' _ => c'.Bound L ∧ c'.pfList b=[] ∧
      c'.bearer=c.bearer ∧ c'.bearerList=c.bearerList := by
  induction fs generalizing c with
  | nil => exact ⟨h,hfs,rfl,rfl⟩
  | cons f fs ih =>
    have hf : f∈c.pfList b := hfs ▸ mem_cons_self ..
    refine (h.pfRemove hb hf).bind ?_
    rintro c₁-⟨h₁,texts,-,rfl⟩
    refine (ih h₁ ?_).mono fun c' _ hc' => hc'
    show update c.pfList b ((c.pfList b).erase f) b=fs
    rw [update_self,hfs,erase_cons_head]

theorem mem_more {s' b' : Nat} :
    b'∈update L s (L s++[b]) s' ↔ b'∈L s' ∨ s'=s ∧ b'=b := by
  by_cases hss : s'=s
  · subst hss
    rw [update_self,mem_append,mem_singleton]
    simp only [true_and]
  · rw [update_of_ne hss]
    simp only [hss,false_and,or_false]

def withBearer (c : Bearers) (s b : Nat) (x : SmfBearer) (pool qfis : Pool)
    (l : Nat → List Nat) : Bearers :=
  { c with
    bearerPool := pool
    bearer := update c.bearer b x
    qfiPool := update c.qfiPool s qfis
    identifierPool := update c.identifierPool b (Pool.init maxNumOfFlowInBearer)
    pfList := update c.pfList b []
    bearerList := l }

variable {qfis : Pool} {y : SmfBearer} {l : Nat → List Nat}

theorem insertBearer_pfs (h : c.Bound L) (hnew : ∀ s',b∉L s') :
    (withBearer c s b y pool qfis l).PfsBound (update L s (L s++[b])) := by
  have hne : ∀ s' b',b'∈L s' → b'≠b := by
    rintro s' b' hb' rfl
    exact hnew s' hb'
  have hself : (withBearer c s b y pool qfis l).pfList b=[] := update_self ..
  have hlist : ∀ b',b'≠b → (withBearer c s b y pool qfis l).pfList b'=c.pfList b' :=
    fun b' hbb => update_of_ne hbb ..
  have hhas : (withBearer c s b y pool qfis l).HasPf (update L s (L s++[b])) =
      c.HasPf L := by
    funext s' f'
    simp only [HasPf,mem_more,eq_iff_iff]
    constructor
    · rintro ⟨b',hb' | ⟨-,rfl⟩,hf'⟩
      · rw [hlist b' (hne s' b' hb')] at hf'
        exact ⟨b',hb',hf'⟩
      · rw [hself] at hf'
        cases hf'
    · rintro ⟨b',hb',hf'⟩
      exact ⟨b',.inl hb',by rw [hlist b' (hne s' b' hb')]; exact hf'⟩
  refine ⟨?_,?_,?_,?_,?_,?_,h.pfs.precedenceSize,?_⟩
  · intro s' b' hb'
    rcases mem_more.mp hb' with hb' | ⟨-,rfl⟩
    · rw [hlist b' (hne s' b' hb')]
      exact h.pfs.nodup s' b' hb'
    · rw [hself]
      exact nodup_nil
  · intro s' b' hb' f' hf'
    rcases mem_more.mp hb' with hb' | ⟨-,rfl⟩
    · rw [hlist b' (hne s' b' hb')] at hf'
      show _=(update c.bearer b y b').id
      rw [update_of_ne (hne s' b' hb')]
      exact h.pfs.owner s' b' hb' f' hf'
    · rw [hself] at hf'
      cases hf'
  · rw [hhas]
    exact h.pfs.holds
  · intro s' b' hb'
    show (update c.identifierPool b _ b').Serves _ _
    rcases mem_more.mp hb' with hb' | ⟨-,rfl⟩
    · rw [update_of_ne (hne s' b' hb'),hlist b' (hne s' b' hb')]
      exact h.pfs.identifiers s' b' hb'
    · rw [update_self,hself]
      exact .init _ nofun
  · intro s' b' hb'
    show (update c.identifierPool b _ b').size=_
    rcases mem_more.mp hb' with hb' | ⟨-,rfl⟩
    · rw [update_of_ne (hne s' b' hb')]
      exact h.pfs.identifierSize s' b' hb'
    · rw [update_self]
      rfl
  · rw [hhas]
    exact h.pfs.precedences
  · rw [hhas]
    exact h.pfs.numbered

theorem insertBearer (h : c.Bound L) (hnew : ∀ s',b∉L s')
    (hpool : pool.Holds fun b' => (∃ s',b'∈L s') ∨ b'=b)
    (hhash : pool.idHash=update c.bearerPool.idHash y.id (some b))
    (hfresh : ∀ s',∀ b'∈L s',(c.bearer b').id≠y.id) (hsess : y.sess=s)
    (hqfis : qfis.Serves (fun b' => b'∈L s ∨ b'=b)
      fun b' => (update c.bearer b y b').qfiNode)
    (hsize : qfis.size=maxQosFlowId) (hqfi : ∀ k,y.qfiNode=some k → y.qfi=sequenceId k) :
    (withBearer c s b y pool qfis l).Bound (update L s (L s++[b])) := by
  have hne : ∀ s' b',b'∈L s' → b'≠b := by
    rintro s' b' hb' rfl
    exact hnew s' hb'
  have hself : (withBearer c s b y pool qfis l).bearer b=y := update_self ..
  have hold : ∀ b',b'≠b → (withBearer c s b y pool qfis l).bearer b'=c.bearer b' :=
    fun b' hbb => update_of_ne hbb ..
  refine ⟨⟨?_,?_,?_,?_,?_,?_,?_⟩,h.insertBearer_pfs hnew⟩
  · intro s'
    by_cases hss : s'=s
    · subst hss
      rw [update_self,nodup_append]
      refine ⟨h.bearers.nodup s',nodup_singleton b,?_⟩
      intro a ha d hd
      rw [mem_singleton.mp hd]
      exact hne s' a ha
    · rw [update_of_ne hss]
      exact h.bearers.nodup s'
  · intro s' b' hb'
    rcases mem_more.mp hb' with hb' | ⟨rfl,rfl⟩
    · rw [hold b' (hne s' b' hb')]
      exact h.bearers.owner s' b' hb'
    · rw [hself]
      exact hsess
  · refine hpool.congr ?_
    intro b'
    simp only [mem_more,exists_or]
    refine or_congr_right ⟨fun hb' => hb'.choose_spec.2,fun hb' => ⟨s,rfl,hb'⟩⟩
  · intro s' b' hb'
    show pool.idHash _=_
    rw [hhash]
    rcases mem_more.mp hb' with hb' | ⟨-,rfl⟩
    · rw [hold b' (hne s' b' hb'),update_of_ne (hfresh s' b' hb')]
      exact h.bearers.ids s' b' hb'
    · rw [hself,update_self]
  · intro s'
    show (update c.qfiPool s qfis s').Serves _ _
    by_cases hss : s'=s
    · subst hss
      rw [update_self]
      refine hqfis.congr ?_ fun _ _ => rfl
      intro b'
      rw [mem_more]
      simp only [true_and]
    · rw [update_of_ne hss,update_of_ne hss]
      refine (h.bearers.qfis s').congr (fun _ => Iff.rfl) ?_
      intro b' hb'
      rw [hold b' (hne s' b' hb')]
  · intro s'
    show (update c.qfiPool s qfis s').size=_
    by_cases hss : s'=s
    · subst hss
      rw [update_self]
      exact hsize
    · rw [update_of_ne hss]
      exact h.bearers.qfiSize s'
  · intro s' b' hb'
    rcases mem_more.mp hb' with hb' | ⟨-,rfl⟩
    · rw [hold b' (hne s' b' hb')]
      exact h.bearers.qfi s' b' hb'
    · rw [hself]
      exact hqfi

end Bound

def FreshId (c : Bearers) : Prop :=
  c.bearerPool.findById (nextId c.bearerPool.id 1 maxPoolId)=none

instance (c : Bearers) : Decidable c.FreshId :=
  inferInstanceAs (Decidable (c.bearerPool.findById (nextId c.bearerPool.id 1 maxPoolId)=none))

namespace Bound

theorem id_ne (h : c.Bound L) (hfresh : c.FreshId) (s b : Nat) (hb : b∈L s) :
    (c.bearer b).id≠nextId c.bearerPool.id 1 maxPoolId := by
  intro heq
  have hfind:=h.bearers.ids s b hb
  unfold FreshId at hfresh
  rw [heq,hfresh] at hfind
  cases hfind

theorem bearerAdd (h : c.Bound c.bearerList) (hfresh : c.FreshId) (s : Nat) :
    (c.smfBearerAdd s).Returns fun c' _ => c'.Bound c'.bearerList := by
  unfold smfBearerAdd bearerCalloc
  cases hcalloc : c.bearerPool.idCalloc with
  | mk pool r =>
    cases r with
    | none => trivial
    | some bi =>
      obtain ⟨b,id⟩ := bi
      obtain ⟨hnew,hpool,-,hhash,rfl⟩ := h.bearers.holds.idCalloc hcalloc
      have hnone : ∀ s',b∉c.bearerList s' := fun s' hb => hnew ⟨s',hb⟩
      have hbound : (withBearer c s b
          { SmfBearer.zero with id := nextId c.bearerPool.id 1 maxPoolId,sess := s } pool
          (c.qfiPool s) (update c.bearerList s (c.bearerList s++[b]))).Bound
            (update c.bearerList s (c.bearerList s++[b])) := by
        refine h.insertBearer hnone hpool hhash (h.id_ne hfresh) rfl ?_ (h.bearers.qfiSize s) nofun
        refine (h.bearers.qfis s).join_none (fun _ => Iff.rfl) ?_ ?_
        · intro b' hb'
          rw [update_of_ne]
          rintro rfl
          exact hnone s hb'
        · rw [update_self]
          rfl
      unfold withBearer at hbound
      rw [update_eq_self] at hbound
      exact hbound

theorem qosFlowAdd (h : c.Bound c.bearerList) (hfresh : c.FreshId) (s : Nat) :
    (c.smfQosFlowAdd s).Returns fun c' _ => c'.Bound c'.bearerList := by
  unfold smfQosFlowAdd bearerCalloc
  cases hcalloc : c.bearerPool.idCalloc with
  | mk pool r =>
    cases r with
    | none => trivial
    | some bi =>
      obtain ⟨b,id⟩ := bi
      obtain ⟨hnew,hpool,-,hhash,rfl⟩ := h.bearers.holds.idCalloc hcalloc
      have hnone : ∀ s',b∉c.bearerList s' := fun s' hb => hnew ⟨s',hb⟩
      simp only
      split
      · trivial
      · rename_i qfis k halloc
        simp only [modifyBearer,update_self,update_idem]
        refine h.insertBearer hnone hpool hhash (h.id_ne hfresh) rfl ?_ ?_ ?_
        · refine ((h.bearers.qfis s).join (hnone s) halloc (fun _ => Iff.rfl) ?_ ?_).1
          · intro b' hb'
            rw [update_of_ne]
            rintro rfl
            exact hnone s hb'
          · rw [update_self]
        · exact ((h.bearers.qfis s).holds.alloc_some halloc).2.2.2.trans (h.bearers.qfiSize s)
        · rintro k' hk'
          obtain rfl := some.inj hk'
          rfl

theorem mem_less (h : c.Bound L) (hb : b∈L s) {s' b' : Nat} :
    b'∈update L s ((L s).erase b) s' ↔ b'∈L s' ∧ b'≠b := by
  by_cases hss : s'=s
  · subst hss
    rw [update_self,(h.bearers.nodup s').mem_erase_iff,and_comm]
  · rw [update_of_ne hss]
    refine ⟨fun hb' => ⟨hb',?_⟩,fun hb' => hb'.1⟩
    rintro rfl
    exact hss (h.sess_unique hb hb')

theorem deleteBearer (h : c.Bound L) (hb : b∈L s) (hnil : c.pfList b=[]) :
    ({ c with
      qfiPool := update c.qfiPool s (giveBack (c.qfiPool s) (c.bearer b).qfiNode)
      bearerPool := c.bearerPool.idFree b (c.bearer b).id } : Bearers).Bound
        (update L s ((L s).erase b)) := by
  have hmem : ∀ {s' b'},b'∈update L s ((L s).erase b) s' ↔ b'∈L s' ∧ b'≠b :=
    h.mem_less hb
  have hhas : ∀ s' f',(∃ b'∈update L s ((L s).erase b) s',f'∈c.pfList b') ↔
      c.HasPf L s' f' := by
    intro s' f'
    simp only [hmem,HasPf]
    constructor
    · rintro ⟨b',hb',hf'⟩
      exact ⟨b',hb'.1,hf'⟩
    · rintro ⟨b',hb',hf'⟩
      refine ⟨b',⟨hb',?_⟩,hf'⟩
      rintro rfl
      rw [hnil] at hf'
      cases hf'
  refine ⟨⟨?_,?_,?_,?_,?_,?_,?_⟩,⟨?_,?_,?_,?_,?_,?_,h.pfs.precedenceSize,?_⟩⟩
  · intro s'
    by_cases hss : s'=s
    · subst hss
      rw [update_self]
      exact (h.bearers.nodup s').erase b
    · rw [update_of_ne hss]
      exact h.bearers.nodup s'
  · exact fun s' b' hb' => h.bearers.owner s' b' (hmem.mp hb').1
  · refine (h.bearers.holds.idFree ⟨s,hb⟩ _).congr ?_
    intro b'
    simp only [hmem,exists_and_right]
  · intro s' b' hb'
    obtain ⟨hb',hne⟩ := hmem.mp hb'
    show (c.bearerPool.idFree b (c.bearer b).id).idHash _=_
    rw [Pool.idFree_idHash,update_of_ne]
    · exact h.bearers.ids s' b' hb'
    · intro hid
      have hfind:=h.bearers.ids s' b' hb'
      rw [hid,h.bearers.ids s b hb] at hfind
      exact hne (some.inj hfind).symm
  · intro s'
    show (update c.qfiPool s _ s').Serves _ _
    by_cases hss : s'=s
    · subst hss
      rw [update_self]
      cases hnode : (c.bearer b).qfiNode with
      | none => exact (h.bearers.qfis s').leave_none (fun _ => hmem) hnode
      | some k => exact (h.bearers.qfis s').leave hb (fun _ => hmem) hnode
    · rw [update_of_ne hss,update_of_ne hss]
      exact h.bearers.qfis s'
  · intro s'
    show (update c.qfiPool s _ s').size=_
    by_cases hss : s'=s
    · subst hss
      rw [update_self]
      cases (c.bearer b).qfiNode with
      | none => exact h.bearers.qfiSize s'
      | some k => exact (Pool.release_size ..).trans (h.bearers.qfiSize s')
    · rw [update_of_ne hss]
      exact h.bearers.qfiSize s'
  · exact fun s' b' hb' => h.bearers.qfi s' b' (hmem.mp hb').1
  · exact fun s' b' hb' => h.pfs.nodup s' b' (hmem.mp hb').1
  · exact fun s' b' hb' => h.pfs.owner s' b' (hmem.mp hb').1
  · exact h.pfs.holds.congr fun f' => exists_congr fun s' => hhas s' f'
  · exact fun s' b' hb' => h.pfs.identifiers s' b' (hmem.mp hb').1
  · exact fun s' b' hb' => h.pfs.identifierSize s' b' (hmem.mp hb').1
  · exact fun s' => (h.pfs.precedences s').congr (hhas s') fun _ _ => rfl
  · exact fun s' f' hf' => h.pfs.numbered s' f' ((hhas s' f').mp hf')

theorem bearerRemove (h : c.Bound c.bearerList) (hb : b∈c.bearerList s) :
    (c.smfBearerRemove b).Returns fun c' _ => c'.Bound c'.bearerList ∧
      c'.bearerList=update c.bearerList s ((c.bearerList s).erase b) := by
  have hsess:=h.bearers.owner s b hb
  have h₁ : ({ c with
      bearerList := update c.bearerList s ((c.bearerList s).erase b) } : Bearers).Bound
        c.bearerList := h.of_bare rfl
  unfold smfBearerRemove
  simp only [hsess]
  refine (h₁.pfRemoveAll hb rfl).bind ?_
  rintro c₂-⟨h₂,hnil,hbearer,hlist⟩
  change c₂.bearerList=update c.bearerList s ((c.bearerList s).erase b) at hlist
  have hrecord : c₂.bearer b=c.bearer b := by rw [hbearer]
  rw [← hrecord]
  refine ⟨?_,hlist⟩
  have hbound:=h₂.deleteBearer hb hnil
  rw [← hlist] at hbound
  exact hbound

theorem tftUpdate (h : c.Bound L) (b : Nat) :
    (c.smfBearerTftUpdate b).Returns fun c' _ => c'.Bound L ∧ c'.bearerList=c.bearerList := by
  unfold smfBearerTftUpdate
  simp only
  split
  · trivial
  · exact ⟨h.of_bare (bare_modifyBearer _ b fun _ => rfl),rfl⟩

end Bound

end Bearers

end OgsDp.Smf
