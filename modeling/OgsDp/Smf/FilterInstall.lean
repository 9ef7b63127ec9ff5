import OgsDp.Smf.IdentifierRuns
import OgsDp.Smf.ModificationRequest

/-!
# Packet filters that a UE requests (src/smf/gsm-handler.c)

All turns of the loop over packet filters read the entry whose index is that of the rule.
-/

namespace OgsDp.Smf
open Lib OgsDp.Core Pfcp Function List

theorem swap_swap (rule : IpfwRule) : rule.swap.swap=rule := rfl

def NasPf.stored (p : NasPf) (rule : IpfwRule) : IpfwRule :=
  if p.direction = .downlinkOnly then rule.swap else rule

def NasPf.encoded (p : NasPf) (rule : IpfwRule) : IpfwRule :=
  if p.direction = .uplinkOnly then (p.stored rule).swap else p.stored rule

theorem stored_inj {p : NasPf} {rule rule' : IpfwRule} (h : p.stored rule=p.stored rule') :
    rule=rule' := by
  unfold NasPf.stored at h
  split at h
  · have hswap:=congrArg IpfwRule.swap h
    rwa [swap_swap,swap_swap] at hswap
  · exact h

theorem encoded_eq {p : NasPf} (rule : IpfwRule) :
    p.encoded rule = if p.direction = .downlinkOnly ∨ p.direction = .uplinkOnly then rule.swap
      else rule := by
  unfold NasPf.encoded NasPf.stored
  cases p.direction <;> rfl

namespace QosFlows

variable {c c' : QosFlows} {L : Nat → List Nat} {s b f : Nat} {p : NasPf}

structure Written (c : QosFlows) (p : NasPf) (f : Nat) : Prop where
  direction : (c.bearers.pf f).direction=p.direction
  content : ∃ rule text k,p.ipfwRule=some rule ∧ c.ipfwRule f=p.stored rule ∧
    encodeFlowDescription (p.encoded rule)=some text ∧
    (c.bearers.pf f).flowDescription=some k ∧ c.bearers.texts.text k=text ∧
    c.bearers.texts.live k=true ∧ k<c.bearers.texts.blocks

/-- The packet filter `f` is the one that `p` requests, with the remote side after "from". -/
structure Installed (c : QosFlows) (f : Nat) (p : NasPf) : Prop where
  direction : (c.bearers.pf f).direction=p.direction
  content : ∃ rule text k,p.ipfwRule=some rule ∧ c.ipfwRule f=p.stored rule ∧
    encodeFlowDescription rule.swap=some text ∧
    (c.bearers.pf f).flowDescription=some k ∧ c.bearers.texts.text k=text ∧
    c.bearers.texts.live k=true

structure Kept (c c' : QosFlows) (f : Nat) : Prop where
  pf : c'.bearers.pf f=c.bearers.pf f
  ipfwRule : c'.ipfwRule f=c.ipfwRule f
  text : ∀ k∈(c.bearers.pf f).flowDescription,k<c.bearers.texts.blocks →
    c'.bearers.texts.text k=c.bearers.texts.text k ∧
      c'.bearers.texts.live k=c.bearers.texts.live k

end QosFlows

/-- The entry `p` in place of `q` makes no difference, and its text has the remote side first. -/
def NasPf.Stands (q p : NasPf) : Prop :=
  q.direction=p.direction ∧ q.ipfwRule=p.ipfwRule ∧
    (q.direction = .downlinkOnly ∨ q.direction = .uplinkOnly ∨
      q.ipfwRule.bind (fun rule => encodeFlowDescription rule.swap) =
        q.ipfwRule.bind encodeFlowDescription)

instance (q p : NasPf) : Decidable (q.Stands p) := inferInstanceAs (Decidable (_ ∧ _ ∧ (_ ∨ _ ∨ _)))

namespace QosFlows
open Bearers Bearers.Bound

variable {c c' : QosFlows} {L : Nat → List Nat} {s b f : Nat} {p : NasPf}

theorem Written.installed_iff (h : c.Written p f) {q : NasPf} : c.Installed f q ↔ q.Stands p := by
  obtain ⟨hdir,rule,text,k,hrule,hstored,htext,hk,htextk,hlive,hlt⟩ := h
  constructor
  · rintro ⟨hdir',rule',text',k',hrule',hstored',htext',hk',htextk',-⟩
    have hd : q.direction=p.direction := hdir'.symm.trans hdir
    obtain rfl := Option.some.inj (hk.symm.trans hk')
    have hss : q.stored rule'=p.stored rule := hstored'.symm.trans hstored
    have hqp : q.stored=p.stored := by
      funext x
      unfold NasPf.stored
      rw [hd]
    rw [hqp] at hss
    obtain rfl := stored_inj hss
    refine ⟨hd,hrule'.trans hrule.symm,?_⟩
    by_cases hside : p.direction = .downlinkOnly ∨ p.direction = .uplinkOnly
    · rw [hd]
      tauto
    · rw [encoded_eq,if_neg hside] at htext
      refine .inr (.inr ?_)
      rw [hrule']
      show encodeFlowDescription rule'.swap=encodeFlowDescription rule'
      rw [htext,htext',← htextk,← htextk']
  · rintro ⟨hd,hrules,hside⟩
    refine ⟨hdir.trans hd.symm,rule,text,k,hrules.trans hrule,?_,?_,hk,htextk,hlive⟩
    · rw [hstored]
      unfold NasPf.stored
      rw [hd]
    · rw [encoded_eq] at htext
      rw [hrules,hrule,hd] at hside
      by_cases hcases : p.direction = .downlinkOnly ∨ p.direction = .uplinkOnly
      · rw [if_pos hcases] at htext
        exact htext
      · rw [if_neg hcases] at htext
        have heq : encodeFlowDescription rule.swap=encodeFlowDescription rule := by
          simp only [Option.bind_some] at hside
          tauto
        rw [heq,htext]

theorem withBearers_returns {ρ : Type} {o : Outcome Bearers ρ} {R : Bearers → ρ → Prop}
    (h : o.Returns R) :
    (c.withBearers o).Returns fun c' r =>
      R c'.bearers r ∧ c' = { c with bearers := c'.bearers } := by
  unfold withBearers
  cases o with
  | ok bearers r => exact ⟨h,rfl⟩
  | abort bearers => trivial

theorem Written.mono (h : c.Written p f) (hpf : c'.bearers.pf f=c.bearers.pf f)
    (hrule : c'.ipfwRule f=c.ipfwRule f)
    (htexts : ∀ k<c.bearers.texts.blocks,c'.bearers.texts.text k=c.bearers.texts.text k ∧
      c'.bearers.texts.live k=c.bearers.texts.live k)
    (hblocks : c.bearers.texts.blocks ≤ c'.bearers.texts.blocks) : c'.Written p f := by
  obtain ⟨hdir,rule,text,k,hr,hstored,htext,hk,htextk,hlive,hlt⟩ := h
  obtain ⟨htext',hlive'⟩ := htexts k hlt
  refine ⟨hpf ▸ hdir,rule,text,k,hr,hrule.trans hstored,htext,hpf ▸ hk,htext'.trans htextk,
    hlive'.trans hlive,lt_of_lt_of_le hlt hblocks⟩

/-- What stays when packet filters are added to the bearer `b`. -/
structure Adds (c : QosFlows) (L : Nat → List Nat) (c' : QosFlows) : Prop where
  bearer : c'.bearers.bearer=c.bearers.bearer
  bearerList : c'.bearers.bearerList=c.bearers.bearerList
  old : ∀ s f,c.bearers.HasPf L s f →
    c'.bearers.pf f=c.bearers.pf f ∧ c'.ipfwRule f=c.ipfwRule f
  texts : ∀ k<c.bearers.texts.blocks,c'.bearers.texts.text k=c.bearers.texts.text k ∧
    c'.bearers.texts.live k=c.bearers.texts.live k
  blocks : c.bearers.texts.blocks ≤ c'.bearers.texts.blocks

theorem queue_bearers (c : QosFlows) (s b : Nat) : (c.queue s b).bearers=c.bearers := by
  unfold queue
  split <;> rfl

theorem queue_ipfwRule (c : QosFlows) (s b : Nat) : (c.queue s b).ipfwRule=c.ipfwRule := by
  unfold queue
  split <;> rfl

theorem installPacketFilter_spec (h : c.bearers.Bound L) (hb : b∈L s) (p : NasPf) :
    (c.installPacketFilter s b p).Returns fun c' f => c'.bearers.Bound L ∧ Adds c L c' ∧
      c'.bearers.pfList=update c.bearers.pfList b (c.bearers.pfList b++[f]) ∧
      c'.Written p f ∧ ∀ s',¬ c.bearers.HasPf L s' f := by
  unfold installPacketFilter withBearers
  refine (withBearers_returns (h.pfAdd hb)).bind ?_
  rintro c₁ r ⟨⟨h₁,hadded⟩,hc₁⟩
  have hrules : c₁.ipfwRule=c.ipfwRule := by rw [hc₁]
  cases r with
  | none => trivial
  | some f =>
    cases hrule : p.ipfwRule with
    | none => trivial
    | some rule =>
      simp only
      split
      · trivial
      · split
        · trivial
        · rename_i text htext
          have hnew:=hadded.new f rfl
          have hne : ∀ s' f',c.bearers.HasPf L s' f' → f'≠f := by
            rintro s' f' hf' rfl
            exact hnew s' hf'
          refine ⟨?_,⟨?_,?_,?_,?_,?_⟩,?_,⟨?_,rule,text,c.bearers.texts.blocks,hrule,?_⟩,
            hnew⟩
          · simp only [queue_bearers]
            exact h₁.of_bare (bare_modifyPf _ f fun _ => rfl)
          · simp only [queue_bearers]
            exact hadded.bearer
          · simp only [queue_bearers]
            exact hadded.bearerList
          · intro s' f' hf'
            simp only [queue_bearers,queue_ipfwRule,modifyPf]
            rw [update_of_ne (hne s' f' hf'),update_of_ne (hne s' f' hf'),
              hrules]
            exact ⟨hadded.old s' f' hf',rfl⟩
          · intro k hk
            simp only [queue_bearers,modifyPf,Texts.strdup,hadded.texts]
            rw [update_of_ne (Nat.ne_of_lt hk),update_of_ne (Nat.ne_of_lt hk)]
            exact ⟨rfl,rfl⟩
          · simp only [queue_bearers,modifyPf,Texts.strdup,hadded.texts]
            exact Nat.le_succ _
          · simp only [queue_bearers]
            exact hadded.pfList
          · simp only [queue_bearers,modifyPf,update_self]
          · simp only [queue_bearers,queue_ipfwRule,modifyPf,Texts.strdup,hadded.texts,
              update_self]
            exact ⟨rfl,htext,trivial,trivial,trivial,Nat.lt_succ_self _⟩

theorem Adds.trans {c₁ c₂ : QosFlows} (h : Adds c L c₁) (h' : Adds c₁ L c₂)
    (hhas : ∀ s f,c.bearers.HasPf L s f → c₁.bearers.HasPf L s f) : Adds c L c₂ := by
  refine ⟨h'.bearer.trans h.bearer,h'.bearerList.trans h.bearerList,?_,?_,
    h.blocks.trans h'.blocks⟩
  · intro s f hf
    obtain ⟨hpf,hrule⟩ := h.old s f hf
    obtain ⟨hpf',hrule'⟩ := h'.old s f (hhas s f hf)
    exact ⟨hpf'.trans hpf,hrule'.trans hrule⟩
  · intro k hk
    obtain ⟨htext,hlive⟩ := h.texts k hk
    obtain ⟨htext',hlive'⟩ := h'.texts k (lt_of_lt_of_le hk h.blocks)
    exact ⟨htext'.trans htext,hlive'.trans hlive⟩

theorem Adds.kept (h : Adds c L c') (hb : b∈L s) (hf : f∈c.bearers.pfList b) :
    c.Kept c' f := by
  obtain ⟨hpf,hrule⟩ := h.old s f ⟨b,hb,hf⟩
  exact ⟨hpf,hrule,fun k _ hk => h.texts k hk⟩

theorem installPacketFilters_spec (h : c.bearers.Bound L) (hb : b∈L s) (p : NasPf) (n : Nat) :
    (c.installPacketFilters s b p n).Returns fun c' _ => Adds c L c' ∧ ∃ fs,
      c'.bearers.pfList b=c.bearers.pfList b++fs ∧ fs.length=n ∧
        ∀ f∈fs,c'.Written p f := by
  induction n generalizing c with
  | zero =>
    refine ⟨⟨rfl,rfl,fun _ _ _ => ⟨rfl,rfl⟩,fun _ _ => ⟨rfl,rfl⟩,le_refl _⟩,[],?_,rfl,
      fun _ => nofun⟩
    rw [append_nil]
  | succ n ih =>
    refine (installPacketFilter_spec h hb p).bind ?_
    rintro c₁ f ⟨h₁,hadds,hlist,hwritten,hnew⟩
    have hlist' : c₁.bearers.pfList b=c.bearers.pfList b++[f] := by
      rw [hlist,update_self]
    refine (ih h₁).mono ?_
    rintro c'-⟨hadds',fs,hfs,hlen,hall⟩
    refine ⟨hadds.trans hadds' ?_,f::fs,?_,by rw [length_cons,hlen],?_⟩
    · rintro s' f' ⟨b',hb',hf'⟩
      refine ⟨b',hb',?_⟩
      rw [hlist]
      by_cases hbb : b'=b
      · subst hbb
        rw [update_self]
        exact mem_append_left _ hf'
      · rw [update_of_ne hbb]
        exact hf'
    · rw [hfs,hlist',append_assoc,singleton_append]
    · intro f' hf'
      rcases mem_cons.mp hf' with rfl | hf'
      · have hhas : c₁.bearers.HasPf L s f' :=
          ⟨b,hb,hlist' ▸ mem_append_right _ (mem_singleton_self f')⟩
        obtain ⟨hpf,hrule⟩ := hadds'.old s f' hhas
        exact hwritten.mono hpf hrule hadds'.texts hadds'.blocks
      · exact hall f' hf'

def filters (c : QosFlows) :
    (Nat → List Nat) × (Nat → SmfPf) × Texts × (Nat → IpfwRule) :=
  (c.bearers.pfList,c.bearers.pf,c.bearers.texts,c.ipfwRule)

def Installs : QosCode → Prop
  | .createNewQosRule => True
  | .addPacketFilters => True
  | .replaceAllPacketFilters => True
  | _ => False

/-- The packet filters of `r` follow those that stay, each as it was requested. -/
structure FiltersInstalled (c : QosFlows) (b : Nat) (r : QosRule) (c' : QosFlows) : Prop where
  list : ∃ fs,c'.bearers.pfList b =
    (if r.code = .addPacketFilters then c.bearers.pfList b else [])++fs ∧
      List.Forall₂ c'.Installed fs r.filters
  old : r.code = .addPacketFilters → ∀ f∈c.bearers.pfList b,c.Kept c' f

/-- All packet filters are the one that the code installs, and its text has the remote side
first. -/
def Faithful (r : QosRule) (i : Nat) : Prop :=
  ∀ q∈r.filters,q.Stands (r.pf i)

structure RuleWritten (c : QosFlows) (b : Nat) (r : QosRule) (i : Nat) (c' : QosFlows) :
    Prop where
  old : r.code = .addPacketFilters → ∀ f∈c.bearers.pfList b,c.Kept c' f
  list : ∃ fs,c'.bearers.pfList b =
    (if r.code = .addPacketFilters then c.bearers.pfList b else [])++fs ∧
      fs.length=r.filters.length ∧ ∀ f∈fs,c'.Written (r.pf i) f

theorem handleQosRule_installs {r : QosRule} (h : c.bearers.Bound c.bearers.bearerList)
    (hfind : c.findByQfi s r.identifier=some b) (hcode : Installs r.code) (i : Nat)
    (flags : ModifyFlags) :
    (c.handleQosRule s i r flags).Returns fun c' _ =>
      c'.bearers.bearer=c.bearers.bearer ∧ c'.bearers.bearerList=c.bearers.bearerList ∧
        c.RuleWritten b r i c' := by
  have hb : b∈c.bearers.bearerList s := List.mem_of_find?_eq_some hfind
  unfold handleQosRule
  simp only [hfind]
  have hreplace : r.code ≠ .addPacketFilters →
      ((({ c with pfToAdd := update c.pfToAdd b [] } : QosFlows).withBearers
        (c.bearers.smfPfRemoveAll (c.bearers.pfList b))).bind fun c _ =>
          (c.installPacketFilters s b (r.pf i) r.filters.length).bind fun c _ =>
            .ok c (some b,if r.filters=[] then flags else flags.install r.code)).Returns
        fun c' _ => c'.bearers.bearer=c.bearers.bearer ∧
          c'.bearers.bearerList=c.bearers.bearerList ∧ c.RuleWritten b r i c' := by
    intro hne
    refine (withBearers_returns (h.pfRemoveAll hb rfl)).bind ?_
    rintro c₁-⟨⟨h₁,hnil,hbearer,hlist⟩,-⟩
    refine (installPacketFilters_spec h₁ hb (r.pf i) r.filters.length).bind ?_
    rintro c'-⟨hadds,fs,hfs,hlen,hall⟩
    refine ⟨hadds.bearer.trans hbearer,hadds.bearerList.trans hlist,fun heq => absurd heq hne,
      fs,?_,hlen,hall⟩
    rw [hfs,hnil,if_neg hne]
  cases hr : r.code with
  | createNewQosRule =>
    rw [hr] at hreplace
    exact hreplace nofun
  | replaceAllPacketFilters =>
    rw [hr] at hreplace
    exact hreplace nofun
  | addPacketFilters =>
    have hspec:=installPacketFilters_spec
      (c := { c with pfToAdd := update c.pfToAdd b [] }) h hb (r.pf i) r.filters.length
    refine hspec.bind ?_
    rintro c'-⟨hadds,fs,hfs,hlen,hall⟩
    refine ⟨hadds.bearer,hadds.bearerList,?_,fs,?_,hlen,hall⟩
    · intro _ f hf
      obtain ⟨hpf,hrule,htext⟩ := hadds.kept hb hf
      exact ⟨hpf,hrule,htext⟩
    · rw [if_pos hr]
      exact hfs
  | deleteExistingQosRule => rw [hr] at hcode; exact absurd hcode id
  | deletePacketFilters => rw [hr] at hcode; exact absurd hcode id
  | withoutModifyingPacketFilters => rw [hr] at hcode; exact absurd hcode id

def Idle (c : QosFlows) (s : Nat) (r : QosRule) : Prop :=
  c.findByQfi s r.identifier=none ∨ r.code = .withoutModifyingPacketFilters

theorem handleQosRules_idle {rs : List QosRule} (h : ∀ r∈rs,c.Idle s r) (i : Nat)
    (o : Option Nat) (flags : ModifyFlags) :
    (c.handleQosRules s i rs o flags).Returns fun c' _ =>
      c'.bearers=c.bearers ∧ c'.ipfwRule=c.ipfwRule := by
  induction rs generalizing c i o flags with
  | nil => exact ⟨rfl,rfl⟩
  | cons r rs ih =>
    obtain ⟨hr,hrs⟩ := forall_mem_cons.mp h
    have hone : (c.handleQosRule s i r flags).Returns fun c' _ =>
        c'.bearers=c.bearers ∧ c'.ipfwRule=c.ipfwRule := by
      unfold handleQosRule
      split
      · exact ⟨rfl,rfl⟩
      · rename_i b hfind
        have hcode : r.code = .withoutModifyingPacketFilters := by
          rcases hr with hnone | hcode
          · rw [hfind] at hnone
            cases hnone
          · exact hcode
        rw [hcode]
        exact ⟨rfl,rfl⟩
    refine hone.bind ?_
    rintro c₁ p ⟨hbearers,hrule⟩
    have hidle : ∀ r∈rs,c₁.Idle s r := by
      intro r hr
      have hfind : c₁.findByQfi s r.identifier=c.findByQfi s r.identifier := by
        unfold findByQfi
        rw [hbearers]
      unfold Idle
      rw [hfind]
      exact hrs r hr
    refine (ih hidle (i+1) p.1 p.2).mono ?_
    rintro c'-⟨hbearers',hrule'⟩
    exact ⟨hbearers'.trans hbearers,hrule'.trans hrule⟩

theorem handleQosRules_append (c : QosFlows) (s i : Nat) (rs rs' : List QosRule) (o : Option Nat)
    (flags : ModifyFlags) : c.handleQosRules s i (rs++rs') o flags =
      (c.handleQosRules s i rs o flags).bind fun c p =>
        c.handleQosRules s (i+rs.length) rs' p.1 p.2 := by
  induction rs generalizing c i o flags with
  | nil => rfl
  | cons r rs ih =>
    simp only [cons_append,handleQosRules]
    cases c.handleQosRule s i r flags with
    | abort c₁ => rfl
    | ok c₁ p =>
      simp only [Outcome.bind_ok]
      rw [ih,length_cons]
      have hi : i+1+rs.length=i+(rs.length+1) := by omega
      rw [hi]

theorem handleQosFlowDescriptions_filters (ds : List QosFlowDescription) (c : QosFlows) (s : Nat)
    (o : Option Nat) (flags : ModifyFlags) :
    (c.handleQosFlowDescriptions s ds o flags).Keeps filters c := by
  induction ds generalizing c o flags with
  | nil => exact rfl
  | cons d ds ih =>
    refine Outcome.Keeps.bind ?_ fun t r => ih t r.1 r.2
    unfold handleQosFlowDescription
    split
    · exact rfl
    · split
      · trivial
      · dsimp only
        split
        · trivial
        · show filters (queue _ _ _)=_
          unfold filters
          rw [queue_bearers,queue_ipfwRule]

theorem finishModification_filters (send : QosFlows → ModifyFlags → Bool) (c : QosFlows)
    (o : Option Nat) (flags : ModifyFlags) :
    (finishModification send c o flags).Keeps filters c := by
  have hcommand : ∀ c : QosFlows, (if send c flags then
      (.ok c .command : Outcome QosFlows ModificationAnswer) else .abort c).Keeps filters c := by
    intro c
    split
    · exact rfl
    · trivial
  unfold finishModification
  dsimp only
  split
  · split
    · trivial
    · exact hcommand c
  · split
    · split
      · trivial
      · rename_i b
        refine Outcome.Keeps.bind ?_ fun t _ => Outcome.Keeps.bind ?_ fun t _ => hcommand t
        · split
          · unfold withBearers Bearers.smfBearerTftUpdate
            dsimp only
            split
            · trivial
            · exact rfl
          · exact rfl
        · split
          · unfold smfBearerQosUpdate
            dsimp only
            split
            · exact rfl
            · split
              · trivial
              · exact rfl
          · exact rfl
    · trivial

theorem handleDescriptionsIe_filters (send : QosFlows → ModifyFlags → Bool) (c : QosFlows) (s : Nat)
    (o : Option Nat) (flags : ModifyFlags) (ds : Option (List QosFlowDescription)) :
    (c.handleDescriptionsIe send s o flags ds).Keeps filters c := by
  unfold handleDescriptionsIe
  split
  · exact rfl
  · refine (handleQosFlowDescriptions_filters _ c s o flags).bind ?_
    intro t r
    split
    · exact rfl
    · exact finishModification_filters send t r.1 r.2

theorem handleModificationRequest_installs (send : QosFlows → ModifyFlags → Bool) {r : QosRule}
    {rs rs' : List QosRule} (h : c.bearers.Bound c.bearers.bearerList)
    (hfind : c.findByQfi s r.identifier=some b) (hcode : Installs r.code)
    (hidle : ∀ q∈rs++rs',c.Idle s q) (ds : Option (List QosFlowDescription)) :
    (c.handleModificationRequest send s ⟨some (rs++r::rs'),ds⟩).Returns fun c' _ =>
      c.RuleWritten b r rs.length c' := by
  have heq : c.handleModificationRequest send s ⟨some (rs++r::rs'),ds⟩ =
      (({ c with toModify := update c.toModify s [] } : QosFlows).handleQosRules s 0
        (rs++r::rs') none .zero).bind fun c p => c.handleDescriptionsIe send s p.1 p.2 ds := by
    cases rs <;> rfl
  rw [heq,handleQosRules_append]
  have hpre : ∀ q∈rs,({ c with toModify := update c.toModify s [] } : QosFlows).Idle
      s q := fun q hq => hidle q (mem_append_left _ hq)
  have hall : (({ c with toModify := update c.toModify s [] } : QosFlows).handleQosRules s
      0 rs none .zero |>.bind fun c p =>
        c.handleQosRules s (0+rs.length) (r::rs') p.1 p.2).Returns fun c' _ =>
          c.RuleWritten b r rs.length c' := by
    refine (handleQosRules_idle hpre 0 none .zero).bind ?_
    rintro c₁ p ⟨hbearers,hrule⟩
    have hfind₁ : c₁.findByQfi s r.identifier=some b := by
      unfold findByQfi
      rw [hbearers]
      exact hfind
    have h₁ : c₁.bearers.Bound c₁.bearers.bearerList := by
      rw [hbearers]
      exact h
    rw [Nat.zero_add]
    refine (handleQosRule_installs h₁ hfind₁ hcode _ _).bind ?_
    rintro c₂ p₂ ⟨hbearer,hlist,hold,fs,hfs,hlen,hall⟩
    have hidle₂ : ∀ q∈rs',c₂.Idle s q := by
      intro q hq
      have hfind₂ : c₂.findByQfi s q.identifier=c.findByQfi s q.identifier := by
        unfold findByQfi
        rw [hbearer,hlist,hbearers]
      unfold Idle
      rw [hfind₂]
      exact hidle q (mem_append_right _ hq)
    refine (handleQosRules_idle hidle₂ _ _ _).mono ?_
    rintro c'-⟨hbearers',hrule'⟩
    change c₁.bearers=c.bearers at hbearers
    change c₁.ipfwRule=c.ipfwRule at hrule
    refine ⟨?_,fs,?_,hlen,?_⟩
    · intro hadd f hf
      obtain ⟨hpf,hrulef,htext⟩ := hold hadd f (hbearers ▸ hf)
      rw [hbearers] at hpf htext
      refine ⟨?_,?_,?_⟩
      · rw [hbearers',hpf]
      · rw [hrule',hrulef,hrule]
      · rw [hbearers']
        exact htext
    · rw [hbearers',hfs,hbearers]
    · intro f hf
      refine (hall f hf).mono ?_ ?_ ?_ ?_
      · rw [hbearers']
      · rw [hrule']
      · rw [hbearers']
        exact fun _ _ => ⟨rfl,rfl⟩
      · rw [hbearers']
  refine hall.bind ?_
  rintro c₁ p ⟨hold,fs,hfs,hlen,hall⟩
  refine (handleDescriptionsIe_filters send c₁ s p.1 p.2 ds).mono ?_
  intro c' _ hkeeps
  have hpfList : c'.bearers.pfList=c₁.bearers.pfList := congrArg (fun x => x.1) hkeeps
  have hpf : c'.bearers.pf=c₁.bearers.pf := congrArg (fun x => x.2.1) hkeeps
  have htexts : c'.bearers.texts=c₁.bearers.texts := congrArg (fun x => x.2.2.1) hkeeps
  have hrule : c'.ipfwRule=c₁.ipfwRule := congrArg (fun x => x.2.2.2) hkeeps
  refine ⟨?_,fs,?_,hlen,?_⟩
  · intro hadd f hf
    obtain ⟨hpff,hrulef,htext⟩ := hold hadd f hf
    exact ⟨hpf ▸ hpff,hrule ▸ hrulef,htexts ▸ htext⟩
  · rw [hpfList,hfs]
  · intro f hf
    refine (hall f hf).mono (by rw [hpf]) (by rw [hrule]) ?_ (by rw [htexts])
    rw [htexts]
    exact fun _ _ => ⟨rfl,rfl⟩

theorem forall₂_iff {α β : Type} {R : α → β → Prop} {P : β → Prop} {fs : List α} {qs : List β}
    (hlen : fs.length=qs.length) (h : ∀ f∈fs,∀ q,R f q ↔ P q) :
    List.Forall₂ R fs qs ↔ ∀ q∈qs,P q := by
  induction fs generalizing qs with
  | nil =>
    obtain rfl := length_eq_zero_iff.mp hlen.symm
    simp
  | cons f fs ih =>
    cases qs with
    | nil => cases hlen
    | cons q qs =>
      obtain ⟨hf,hfs⟩ := forall_mem_cons.mp h
      rw [forall₂_cons,forall_mem_cons,hf q,ih (Nat.succ.inj hlen) hfs]

/-- An accepted request with one rule that installs packet filters in an existing QoS flow installs
them as requested exactly if the rule is faithful at its index. -/
theorem filters_installed_iff {send : QosFlows → ModifyFlags → Bool} {r : QosRule}
    {rs rs' : List QosRule} {ds : Option (List QosFlowDescription)}
    (h : c.bearers.InUse) (hfind : c.findByQfi s r.identifier=some b)
    (hcode : Installs r.code) (hidle : ∀ q∈rs++rs',c.Idle s q)
    (hok : c.handleModificationRequest send s ⟨some (rs++r::rs'),ds⟩ = .ok c' .command) :
    c.FiltersInstalled b r c' ↔ Faithful r rs.length := by
  have hspec:=handleModificationRequest_installs send h hfind hcode hidle ds
  rw [hok] at hspec
  obtain ⟨hold,fs,hfs,hlen,hall⟩ := hspec
  have hinst : List.Forall₂ c'.Installed fs r.filters ↔ Faithful r rs.length :=
    forall₂_iff hlen fun f hf q => (hall f hf).installed_iff
  constructor
  · rintro ⟨⟨gs,hgs,hinstalled⟩,-⟩
    obtain rfl := append_cancel_left (hgs.symm.trans hfs)
    exact hinst.mp hinstalled
  · exact fun hfaithful => ⟨⟨fs,hfs,hinst.mpr hfaithful⟩,hold⟩

def oneFlow : QosFlows where
  bearers := (final Bearers.step (bearersInit 4) [.qosFlowAdd 0]).getD (bearersInit 4)
  ipfwRule := fun _ => .zero
  qos := fun _ => ⟨0,0,0,0⟩
  toModify := fun _ => []
  pfToAdd := fun _ => []
  pfToDelete := fun _ => []
  qer := fun _ => none
  qerFree := 8
  qerIdFree := fun _ => 8

def afterRule (r : QosRule) : QosFlows :=
  (oneFlow.handleModificationRequest (fun _ _ => true) 0 ⟨some [r],none⟩).state

def remotePort (direction : PfDirection) (port : BitVec 16) : NasPf where
  direction := direction
  identifier := 0
  component := [.singleRemotePort port]

def oneFilter : QosRule where
  identifier := 1
  code := .addPacketFilters
  filters := [remotePort .downlinkOnly 5060]
  bounded := by decide

theorem filters_installed_one : oneFlow.FiltersInstalled 0 oneFilter (afterRule oneFilter) := by
  have hinit : (bearersInit 4).InUse := Bearers.Bound.init 4
  have hbound : oneFlow.bearers.InUse := by
    have hall : ∀ c∈completed Bearers.step (bearersInit 4) [.qosFlowAdd 0],c.InUse := by
      refine completed_inv ?_ hinit (by decide :
        EachStep Bearers.step Bearers.Apt (bearersInit 4) [.qosFlowAdd 0])
      intro t op t' r h hop ho
      exact Bearers.Bound.step h hop ho
    exact hall _ (mem_completed_of_final rfl)
  have hok : oneFlow.handleModificationRequest (fun _ _ => true) 0
      ⟨some ([]++oneFilter::[]),none⟩ = .ok (afterRule oneFilter) .command := rfl
  have hfaithful : Faithful oneFilter 0 := by
    unfold Faithful
    decide
  have hcode : Installs oneFilter.code := trivial
  have hidle : ∀ q∈([] : List QosRule)++[],oneFlow.Idle 0 q := fun _ => nofun
  exact (filters_installed_iff hbound rfl hcode hidle hok).mpr hfaithful

def twoFilters : QosRule where
  identifier := 1
  code := .createNewQosRule
  filters := [remotePort .downlinkOnly 5060,remotePort .uplinkOnly 5061]
  bounded := by decide

/-- Both packet filters are the first one. -/
theorem second_filter_lost : ¬ oneFlow.FiltersInstalled 0 twoFilters (afterRule twoFilters) := by
  rintro ⟨⟨fs,hfs,hinstalled⟩,-⟩
  have hlist : (afterRule twoFilters).bearers.pfList 0=[0,1] := by decide
  obtain rfl : [0,1]=fs := hlist.symm.trans hfs
  cases hinstalled with
  | cons _ hrest =>
    cases hrest with
    | cons hsecond _ =>
      have hdir : ((afterRule twoFilters).bearers.pf 1).direction = .downlinkOnly := by
        decide
      exact absurd (hdir.symm.trans hsecond.direction) nofun

end QosFlows

end OgsDp.Smf
