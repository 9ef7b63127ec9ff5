import OgsDp.Amf.UeIndex
import OgsDp.Lib.Pairing

/-!
# Handover between NG connections (src/amf/context.c, src/amf/ngap-handler.c)

The source and the target of a handover name each other by their ids.
-/

namespace OgsDp.Amf
open Lib OgsDp.Core Function List Option

namespace Ues

variable {s t : Ues} {r : Nat}

def RanLive (s : Ues) (r : Nat) : Prop := s.ranUePool.index r=some r

def ranId (s : Ues) (r : Nat) : Nat := (s.ranUe r).id

def targetId (s : Ues) (r : Nat) : Nat := (s.ranUe r).targetUeId

def sourceId (s : Ues) (r : Nat) : Nat := (s.ranUe r).sourceUeId

def Alone (s : Ues) (r : Nat) : Prop :=
  (s.targetId r=0 ∨ s.targetId r=s.ranId r) ∧ (s.sourceId r=0 ∨ s.sourceId r=s.ranId r)

instance (s : Ues) (r : Nat) : Decidable (s.Alone r) := inferInstanceAs (Decidable (_ ∧ _))

structure RanPooled (s : Ues) : Prop where
  pool : ∃ q live,Pool.Split s.ranUePool q live
  ids : ∀ id r,s.ranUeFindById id=some r → s.RanLive r ∧ s.ranId r=id

structure Connections (s : Ues) : Prop extends RanPooled s where
  last : s.ranUePool.id ≤ maxPoolId
  found : ∀ r,s.RanLive r → s.ranUeFindById (s.ranId r)=some r
  valid : ∀ r,s.RanLive r → validId (s.ranId r)=true
  pairs : Pairing 0 s.RanLive s.ranId s.targetId s.sourceId

structure RanKept (s t : Ues) : Prop where
  pool : t.ranUePool=s.ranUePool
  id : t.ranId=s.ranId
  target : t.targetId=s.targetId
  source : t.sourceId=s.sourceId

theorem RanKept.trans {s₁ s₂ s₃ : Ues} (h : s₁.RanKept s₂) (h' : s₂.RanKept s₃) :
    s₁.RanKept s₃ where
  pool := h'.pool.trans h.pool
  id := h'.id.trans h.id
  target := h'.target.trans h.target
  source := h'.source.trans h.source

structure RanSame (s t : Ues) : Prop where
  pool : t.ranUePool=s.ranUePool
  ranUe : t.ranUe=s.ranUe

theorem RanSame.trans {s₁ s₂ s₃ : Ues} (h : s₁.RanSame s₂) (h' : s₂.RanSame s₃) :
    s₁.RanSame s₃ where
  pool := h'.pool.trans h.pool
  ranUe := h'.ranUe.trans h.ranUe

theorem SessionsOnly.ranSame (h : s.SessionsOnly t) : s.RanSame t := by
  obtain ⟨pool,sess,links,list,rfl⟩ := h
  exact ⟨rfl,rfl⟩

theorem GutisOnly.ranSame (h : s.GutisOnly t) : s.RanSame t := by
  obtain ⟨pool,mTmsi,hash,rfl⟩ := h
  exact ⟨rfl,rfl⟩

theorem NamesOnly.ranSame (h : s.NamesOnly t) : s.RanSame t := by
  obtain ⟨str,suciHash,supiHash,rfl⟩ := h
  exact ⟨rfl,rfl⟩

theorem amfUeRemove_ranSame {u : Nat} (h : s.amfUeRemove u=some t) : s.RanSame t := by
  obtain ⟨s₁,hs₁,rfl⟩ := amfUeRemove_ok h
  have honly:=amfSessRemoveAll_sessionsOnly hs₁
  have hgutis:=(s₁.dropCurrentGuti_gutisOnly u).trans (dropNextGuti_gutisOnly _ u)
  generalize (s₁.dropCurrentGuti u).dropNextGuti u=s₂ at hgutis ⊢
  have hnames:=(s₂.dropSuci_namesOnly u).trans (dropSupi_namesOnly _ u)
  have hsame:=(honly.ranSame.trans hgutis.ranSame).trans hnames.ranSame
  exact ⟨hsame.pool,hsame.ranUe⟩

theorem RanSame.ranKept (h : s.RanSame t) : s.RanKept t := by
  refine ⟨h.pool,?_,?_,?_⟩
  · funext r
    rw [ranId,ranId,h.ranUe]
  · funext r
    rw [targetId,targetId,h.ranUe]
  · funext r
    rw [sourceId,sourceId,h.ranUe]

theorem modifyRanUe_field {β : Type} {f : RanUe → RanUe} (g : RanUe → β)
    (hg : ∀ ue,g (f ue)=g ue) (c : Nat) :
    g ((s.modifyRanUe r f).ranUe c)=g (s.ranUe c) := by
  by_cases hc : c=r
  · subst hc
    simp [modifyRanUe,hg]
  · simp [modifyRanUe,hc]

variable (s) in
theorem modifyRanUe_ranKept (f : RanUe → RanUe)
    (hf : ∀ ue,(f ue).id=ue.id ∧ (f ue).targetUeId=ue.targetUeId ∧
      (f ue).sourceUeId=ue.sourceUeId) (r : Nat) : s.RanKept (s.modifyRanUe r f) :=
  ⟨rfl,funext (modifyRanUe_field RanUe.id fun ue => (hf ue).1),
    funext (modifyRanUe_field RanUe.targetUeId fun ue => (hf ue).2.1),
    funext (modifyRanUe_field RanUe.sourceUeId fun ue => (hf ue).2.2)⟩

theorem ranUeAdd_cases {gnbId ostreams : Nat} {ngapId : BitVec 64} {timer : Bool} {o : Option Nat}
    (hpool : ∃ q live,Pool.Split s.ranUePool q live)
    (h : s.ranUeAdd gnbId ostreams ngapId timer = .ok t o) :
    (∃ q live,Pool.Split t.ranUePool q live) ∧
    ((t.RanLive=s.RanLive ∧ t.ranUe=s.ranUe ∧
        (t.ranUePool.id=s.ranUePool.id ∧ t.ranUeFindById=s.ranUeFindById ∨
          s.ranUePool.idCalloc.2.map Prod.snd=some (nextId s.ranUePool.id 1 maxPoolId) ∧
          t.ranUePool.id=nextId s.ranUePool.id 1 maxPoolId ∧
          t.ranUeFindById =
            update s.ranUeFindById (nextId s.ranUePool.id 1 maxPoolId) none)) ∨
      ∃ r,¬ s.RanLive r ∧ (∀ c,t.RanLive c ↔ c=r ∨ s.RanLive c) ∧
        t.ranUe r=newRanUe r (nextId s.ranUePool.id 1 maxPoolId) gnbId ngapId ∧
        (∀ c ≠ r,t.ranUe c=s.ranUe c) ∧
        s.ranUePool.idCalloc.2.map Prod.snd=some (nextId s.ranUePool.id 1 maxPoolId) ∧
        t.ranUePool.id=nextId s.ranUePool.id 1 maxPoolId ∧
        t.ranUeFindById =
          update s.ranUeFindById (nextId s.ranUePool.id 1 maxPoolId) (some r)) := by
  obtain ⟨q,live,hs⟩ := hpool
  unfold ranUeAdd at h
  cases q with
  | nil =>
    rw [hs.idCalloc_nil] at h
    cases h
    exact ⟨⟨[],live,hs⟩,.inl ⟨rfl,rfl,.inl ⟨rfl,rfl⟩⟩⟩
  | cons r q =>
    obtain ⟨pool,hcalloc,hsplit,hsize,hid⟩ := hs.idCalloc
    have hhash:=Pool.idCalloc_idHash hcalloc
    have hr:=hs.not_live_of_free (mem_cons_self ..)
    rw [hcalloc] at h ⊢
    cases timer with
    | true =>
      simp only [if_true] at h
      split at h
      · cases h
        refine ⟨⟨q,_,hsplit⟩,.inr ⟨r,?_,?_,update_self ..,?_,rfl,hid,?_⟩⟩
        · rw [RanLive,index_eq_some hs]
          exact hr
        · intro c
          rw [RanLive,index_eq_some hsplit,RanLive,index_eq_some hs,mem_append,
            mem_singleton,or_comm]
        · exact fun c hc => update_of_ne hc _ _
        · funext id
          exact congrFun hhash id
      · cases h
    | false =>
      cases h
      have hfree:=hsplit.idFree (mem_append_right _ (mem_singleton_self r))
        (nextId s.ranUePool.id 1 maxPoolId)
      rw [erase_append_right _ hr,erase_cons_head,append_nil] at hfree
      refine ⟨⟨_,_,hfree⟩,.inl ⟨?_,rfl,.inr ⟨rfl,?_,?_⟩⟩⟩
      · funext c
        rw [RanLive,index_eq_some hfree,RanLive,index_eq_some hs]
      · rw [← hid]
        exact Pool.idFree_id ..
      · funext id
        show (pool.idFree r (nextId s.ranUePool.id 1 maxPoolId)).idHash id=_
        rw [Pool.idFree_idHash,hhash,update_idem]
        rfl

theorem ranUeRemove_pool (hpool : ∃ q live,Pool.Split s.ranUePool q live) (hr : s.RanLive r) :
    (∃ q live,Pool.Split (s.ranUeRemove r).ranUePool q live) ∧
      (∀ c,(s.ranUeRemove r).RanLive c ↔ s.RanLive c ∧ c≠r) ∧
      (s.ranUeRemove r).ranUeFindById=update s.ranUeFindById (s.ranId r) none := by
  obtain ⟨q,live,hs⟩ := hpool
  have hsplit:=hs.idFree ((index_eq_some hs).mp hr) (s.ranUe r).id
  refine ⟨⟨_,_,hsplit⟩,?_,?_⟩
  · intro c
    have hfree : (s.ranUeRemove r).RanLive c ↔ c∈live.erase r := index_eq_some hsplit
    rw [hfree,hs.live_nodup.mem_erase_iff,RanLive,index_eq_some hs,and_comm]
  · funext id
    show (s.ranUePool.idFree r (s.ranUe r).id).idHash id=_
    rw [Pool.idFree_idHash]
    rfl

namespace RanPooled

theorem kept (h : s.RanPooled) (hpool : t.ranUePool=s.ranUePool) (hid : t.ranId=s.ranId) :
    t.RanPooled := by
  have hlive : t.RanLive=s.RanLive := by
    funext r
    rw [RanLive,RanLive,hpool]
  have hfind : t.ranUeFindById=s.ranUeFindById := by
    funext id
    rw [ranUeFindById,ranUeFindById,hpool]
  refine ⟨hpool ▸ h.pool,?_⟩
  rw [hlive,hfind,hid]
  exact h.ids

theorem ranUeAdd {gnbId ostreams : Nat} {ngapId : BitVec 64} {timer : Bool} {o : Option Nat}
    (h : s.RanPooled) (ht : s.ranUeAdd gnbId ostreams ngapId timer = .ok t o) : t.RanPooled := by
  obtain ⟨hpool,⟨hlive,hue,hfind⟩ | ⟨r,hr,hlive,hself,hother,-,-,hfind⟩⟩ :=
    ranUeAdd_cases h.pool ht
  · refine ⟨hpool,fun id c hc => ?_⟩
    have hcs : s.ranUeFindById id=some c := by
      rcases hfind with ⟨-,hfind⟩ | ⟨-,-,hfind⟩
      · rw [← hfind]
        exact hc
      · rw [hfind,update_apply] at hc
        split at hc
        · cases hc
        · exact hc
    rw [hlive,ranId,hue]
    exact h.ids id c hcs
  · refine ⟨hpool,fun id c hc => ?_⟩
    rw [hfind,update_apply] at hc
    split at hc
    · rename_i hid
      obtain rfl := some.inj hc
      refine ⟨(hlive r).mpr (.inl rfl),?_⟩
      rw [ranId,hself,hid]
      rfl
    · obtain ⟨hc,hcid⟩ := h.ids id c hc
      have hcr : c≠r := fun he => hr (he ▸ hc)
      refine ⟨(hlive c).mpr (.inr hc),?_⟩
      rw [ranId,hother c hcr]
      exact hcid

theorem ranUeRemove (h : s.RanPooled) (hr : s.RanLive r) : (s.ranUeRemove r).RanPooled := by
  obtain ⟨hpool,hlive,hfind⟩ := ranUeRemove_pool h.pool hr
  refine ⟨hpool,fun id c hc => ?_⟩
  rw [hfind,update_apply] at hc
  split at hc
  · cases hc
  · rename_i hne
    obtain ⟨hc,hcid⟩ := h.ids id c hc
    refine ⟨(hlive c).mpr ⟨hc,?_⟩,hcid⟩
    rintro rfl
    exact hne hcid.symm

theorem modifyRanUe {f : RanUe → RanUe} (h : s.RanPooled) (hf : ∀ ue,(f ue).id=ue.id) :
    (s.modifyRanUe r f).RanPooled :=
  h.kept rfl (funext (modifyRanUe_field RanUe.id hf))

theorem init (config : UeConfig) (s : Ues) : (init config s).RanPooled := by
  refine ⟨⟨_,[],Pool.split_init _⟩,?_⟩
  intro id r hr
  cases hr

end RanPooled

theorem validId_nextId {id : Nat} (h : id ≤ maxPoolId) :
    validId (nextId id 1 maxPoolId)=true ∧ nextId id 1 maxPoolId ≤ maxPoolId := by
  have hmax : maxPoolId=0x7fffffff := rfl
  unfold validId nextId
  split
  · simp [hmax]
  · simp only [decide_eq_true_eq]
    omega

theorem validId_ne_zero {id : Nat} (h : validId id=true) : id≠0 := by
  rintro rfl
  cases h

namespace Connections

theorem kept (h : s.Connections) (hkept : s.RanKept t) : t.Connections := by
  have hlive : t.RanLive=s.RanLive := by
    funext r
    rw [RanLive,RanLive,hkept.pool]
  have hfind : t.ranUeFindById=s.ranUeFindById := by
    funext id
    rw [ranUeFindById,ranUeFindById,hkept.pool]
  refine ⟨h.toRanPooled.kept hkept.pool hkept.id,?_,?_,?_,?_⟩
  · rw [hkept.pool]
    exact h.last
  · rw [hlive,hfind,hkept.id]
    exact h.found
  · rw [hlive,hkept.id]
    exact h.valid
  · rw [hlive,hkept.id,hkept.target,hkept.source]
    exact h.pairs

theorem ranUeAdd {gnbId ostreams : Nat} {ngapId : BitVec 64} {timer : Bool} {o : Option Nat}
    (h : s.Connections) (hfresh : ∀ id ∈ s.ranUePool.idCalloc.2.map Prod.snd,
      s.ranUeFindById id=none)
    (ht : s.ranUeAdd gnbId ostreams ngapId timer = .ok t o) : t.Connections := by
  have hpooled:=h.toRanPooled.ranUeAdd ht
  obtain ⟨hvalid,hle⟩ := validId_nextId h.last
  obtain ⟨-,⟨hlive,hue,hpool⟩ | ⟨r,hr,hlive,hself,hother,hid,hlast,hfind⟩⟩ :=
    ranUeAdd_cases h.pool ht
  · have hfind : t.ranUeFindById=s.ranUeFindById := by
      rcases hpool with ⟨-,hfind⟩ | ⟨hid,-,hfind⟩
      · exact hfind
      · have hnone:=hfresh _ hid
        rw [hfind,← hnone]
        exact update_eq_self ..
    have hlast : t.ranUePool.id ≤ maxPoolId := by
      rcases hpool with ⟨hid,-⟩ | ⟨-,hid,-⟩
      · exact hid ▸ h.last
      · exact hid ▸ hle
    have hfields : t.ranId=s.ranId ∧ t.targetId=s.targetId ∧ t.sourceId=s.sourceId := by
      refine ⟨?_,?_,?_⟩
      · funext c
        rw [ranId,ranId,hue]
      · funext c
        rw [targetId,targetId,hue]
      · funext c
        rw [sourceId,sourceId,hue]
    obtain ⟨hranId,htarget,hsource⟩ := hfields
    refine ⟨hpooled,hlast,?_,?_,?_⟩
    · rw [hlive,hfind,hranId]
      exact h.found
    · rw [hlive,hranId]
      exact h.valid
    · rw [hlive,hranId,htarget,hsource]
      exact h.pairs
  · have hnone:=hfresh _ hid
    have hfresh' : ∀ c,s.RanLive c → s.ranId c≠nextId s.ranUePool.id 1 maxPoolId := by
      intro c hc heq
      have hfound:=h.found c hc
      rw [heq,hnone] at hfound
      cases hfound
    have hne : ∀ c,s.RanLive c → c≠r := fun c hc he => hr (he ▸ hc)
    have hranId : ∀ c,s.RanLive c → t.ranId c=s.ranId c :=
      fun c hc => congrArg RanUe.id (hother c (hne c hc))
    have hnew : t.ranId r=nextId s.ranUePool.id 1 maxPoolId := congrArg RanUe.id hself
    refine ⟨hpooled,hlast ▸ hle,?_,?_,?_⟩
    · intro c hc
      rw [hfind]
      rcases (hlive c).mp hc with rfl | hc
      · rw [hnew,update_self]
      · rw [hranId c hc,update_of_ne (hfresh' c hc)]
        exact h.found c hc
    · intro c hc
      rcases (hlive c).mp hc with rfl | hc
      · rw [hnew]
        exact hvalid
      · rw [hranId c hc]
        exact h.valid c hc
    · refine h.pairs.add hlive hr ?_ ?_ ?_ ?_ hranId ?_ ?_
      · rw [hnew]
        exact validId_ne_zero hvalid
      · intro c hc
        rw [hnew]
        exact hfresh' c hc
      · exact congrArg RanUe.targetUeId hself
      · exact congrArg RanUe.sourceUeId hself
      · exact fun c hc => congrArg RanUe.targetUeId (hother c (hne c hc))
      · exact fun c hc => congrArg RanUe.sourceUeId (hother c (hne c hc))

theorem ranUeRemove (h : s.Connections) (hr : s.RanLive r) (halone : s.Alone r) :
    (s.ranUeRemove r).Connections := by
  obtain ⟨-,hlive,hfind⟩ := ranUeRemove_pool h.pool hr
  refine ⟨h.toRanPooled.ranUeRemove hr,?_,?_,?_,h.pairs.drop hlive hr halone⟩
  · show (s.ranUePool.idFree r (s.ranUe r).id).id ≤ maxPoolId
    rw [Pool.idFree_id]
    exact h.last
  · intro c hc
    obtain ⟨hc,hcr⟩ := (hlive c).mp hc
    rw [hfind]
    have hne : s.ranId c≠s.ranId r := fun heq => hcr (h.pairs.inj c hc r hr heq)
    exact (update_of_ne hne _ _).trans (h.found c hc)
  · exact fun c hc => h.valid c ((hlive c).mp hc).1

theorem eq_zero_or_valid (h : s.Connections) (hr : s.RanLive r) :
    (s.targetId r=0 ∨ ∃ b,s.RanLive b ∧ s.targetId r=s.ranId b ∧
      validId (s.targetId r)=true ∧ s.ranUeFindById (s.targetId r)=some b) ∧
    (s.sourceId r=0 ∨ ∃ b,s.RanLive b ∧ s.sourceId r=s.ranId b ∧
      validId (s.sourceId r)=true ∧ s.ranUeFindById (s.sourceId r)=some b) := by
  constructor
  · refine (h.pairs.target_live r hr).imp_right ?_
    rintro ⟨b,hb,heq⟩
    exact ⟨b,hb,heq,heq ▸ h.valid b hb,heq ▸ h.found b hb⟩
  · refine (h.pairs.source_live r hr).imp_right ?_
    rintro ⟨b,hb,heq⟩
    exact ⟨b,hb,heq,heq ▸ h.valid b hb,heq ▸ h.found b hb⟩

theorem unlink {a b : Nat} (h : s.Connections) (ha : s.RanLive a) (hb : s.RanLive b)
    (hab : s.targetId a=s.ranId b) :
    ∃ t,s.unlink (some a) (some b) = .ok t () ∧ t.Connections ∧ t.ranUePool=s.ranUePool ∧
      t.ranId=s.ranId ∧ (∀ c,t.targetId c = if c=a then 0 else s.targetId c) ∧
      ∀ c,t.sourceId c = if c=b then 0 else s.sourceId c := by
  have hba:=(h.pairs.symm a ha b hb).mp hab
  have hvalid : validId (s.ranUe a).targetUeId=true ∧ validId (s.ranUe b).sourceUeId=true :=
    ⟨(congrArg validId hab).trans (h.valid b hb),(congrArg validId hba).trans (h.valid a ha)⟩
  have hok : s.unlink (some a) (some b) = .ok ((s.modifyRanUe a fun ranUe =>
      { ranUe with targetUeId := 0 }).modifyRanUe b fun ranUe => { ranUe with sourceUeId := 0 })
        () := by
    simp only [Ues.unlink,hvalid,and_self,if_true]
  have hfields : ∀ c,(((s.modifyRanUe a fun ranUe => { ranUe with targetUeId := 0 }).modifyRanUe b
      fun ranUe => { ranUe with sourceUeId := 0 }).ranUe c).id=s.ranId c ∧
      (((s.modifyRanUe a fun ranUe => { ranUe with targetUeId := 0 }).modifyRanUe b
        fun ranUe => { ranUe with sourceUeId := 0 }).ranUe c).targetUeId =
          (if c=a then 0 else s.targetId c) ∧
      (((s.modifyRanUe a fun ranUe => { ranUe with targetUeId := 0 }).modifyRanUe b
        fun ranUe => { ranUe with sourceUeId := 0 }).ranUe c).sourceUeId =
          (if c=b then 0 else s.sourceId c) := by
    intro c
    unfold modifyRanUe
    simp only [update_apply]
    by_cases hcb : c=b
    · subst hcb
      by_cases hca : c=a
      · simp [hca,ranId]
      · simp [hca,ranId,targetId]
    · by_cases hca : c=a
      · subst hca
        simp [hcb,ranId,sourceId]
      · simp [hca,hcb,ranId,targetId,sourceId]
  refine ⟨_,hok,⟨h.toRanPooled.kept rfl (funext fun c => (hfields c).1),h.last,?_,?_,?_⟩,
    rfl,funext fun c => (hfields c).1,fun c => (hfields c).2.1,fun c => (hfields c).2.2⟩
  · intro c hc
    rw [show ranId _ c=s.ranId c from (hfields c).1]
    exact h.found c hc
  · intro c hc
    rw [show ranId _ c=s.ranId c from (hfields c).1]
    exact h.valid c hc
  · have hunlinked:=h.pairs.unlink ha hb hab (fun c => (hfields c).2.1) fun c => (hfields c).2.2
    exact hunlinked.congr (fun _ => Iff.rfl) (fun c _ => (hfields c).1) (fun _ _ => rfl)
      fun _ _ => rfl

theorem deassociate (h : s.Connections) (hr : s.RanLive r) :
    ∃ t,s.sourceUeDeassociateTargetUe r = .ok t () ∧ t.Connections ∧
      t.ranUePool=s.ranUePool ∧
      (s.targetId r=0 ∨ s.targetId r=s.ranId r ∨ s.sourceId r=0 → t.Alone r) := by
  obtain ⟨htarget,hsource⟩ := h.eq_zero_or_valid hr
  have hzero : ∀ id,id=0 → validId id=false := by
    rintro id rfl
    rfl
  unfold sourceUeDeassociateTargetUe
  rcases htarget with htarget | ⟨b,hb,heq,hvalid,hfind⟩
  · have hno:=hzero (s.ranUe r).targetUeId htarget
    rw [hno]
    rcases hsource with hsource | ⟨b,hb,heq,hvalid,hfind⟩
    · have hno':=hzero (s.ranUe r).sourceUeId hsource
      rw [hno']
      exact ⟨s,rfl,h,rfl,fun _ => ⟨.inl htarget,.inl hsource⟩⟩
    · have hlink:=(h.pairs.symm b hb r hr).mpr heq
      obtain ⟨t,ht,hconn,hpool,-,htargets,hsources⟩ := h.unlink hb hr hlink
      have hvalid' : validId (s.ranUe r).sourceUeId=true := hvalid
      have hfind' : s.ranUeFindById (s.ranUe r).sourceUeId=some b := hfind
      rw [hvalid',hfind']
      refine ⟨t,ht,hconn,hpool,fun _ => ⟨.inl ?_,.inl ?_⟩⟩
      · rw [htargets,htarget,ite_self]
      · rw [hsources,if_pos rfl]
  · obtain ⟨t,ht,hconn,hpool,-,htargets,hsources⟩ := h.unlink hr hb heq
    have hvalid' : validId (s.ranUe r).targetUeId=true := hvalid
    have hfind' : s.ranUeFindById (s.ranUe r).targetUeId=some b := hfind
    rw [hvalid',hfind']
    refine ⟨t,ht,hconn,hpool,fun hone => ⟨.inl ?_,.inl ?_⟩⟩
    · rw [htargets,if_pos rfl]
    · rw [hsources]
      rcases hone with hone | hone | hone
      · exact absurd hone (validId_ne_zero hvalid)
      · rw [h.pairs.inj b hb r hr (heq.symm.trans hone),if_pos rfl]
      · rw [hone,ite_self]

theorem associate {a b : Nat} (h : s.Connections) (ha : s.RanLive a) (hb : s.RanLive b)
    (hfree : s.targetId a=0 ∨ s.targetId a=s.ranId b)
    (hfree' : s.sourceId b=0 ∨ s.sourceId b=s.ranId a) :
    (s.sourceUeAssociateTargetUe a b).Connections := by
  have hfields : ∀ c,((s.sourceUeAssociateTargetUe a b).ranUe c).id=s.ranId c ∧
      ((s.sourceUeAssociateTargetUe a b).ranUe c).targetUeId =
        (if c=a then s.ranId b else s.targetId c) ∧
      ((s.sourceUeAssociateTargetUe a b).ranUe c).sourceUeId =
        (if c=b then s.ranId a else s.sourceId c) := by
    intro c
    unfold sourceUeAssociateTargetUe modifyRanUe
    simp only [update_apply]
    by_cases hca : c=a
    · subst hca
      by_cases hcb : c=b
      · simp [hcb,ranId]
      · simp [hcb,ranId,sourceId]
    · by_cases hcb : c=b
      · subst hcb
        simp [hca,ranId,targetId]
      · simp [hca,hcb,ranId,targetId,sourceId]
  refine ⟨h.toRanPooled.kept rfl (funext fun c => (hfields c).1),h.last,?_,?_,?_⟩
  · intro c hc
    rw [show ranId _ c=s.ranId c from (hfields c).1]
    exact h.found c hc
  · intro c hc
    rw [show ranId _ c=s.ranId c from (hfields c).1]
    exact h.valid c hc
  · have hlinked:=h.pairs.link ha hb hfree hfree' (fun c => (hfields c).2.1)
      fun c => (hfields c).2.2
    exact hlinked.congr (fun _ => Iff.rfl) (fun c _ => (hfields c).1) (fun _ _ => rfl)
      fun _ _ => rfl

end Connections

end Ues

def UeOp.removedRanUe (s : Ues) : UeOp → Option Nat
  | .ranUeRemove r => some r
  | .setSuci u _ (some x) =>
    (s.amfUeFindBySuci x).bind fun old => if old=u then none else s.cmConnected old
  | .releaseAction r =>
    match (s.ranUe r).ueCtxRelAction with
    | .ngContextRemove | .ngRemoveAndUnlink | .ueContextRemove => some r
    | .ngHandoverComplete | .ngHandoverCancel | .ngHandoverFailure | .invalidAction => none
  | _ => none

/-- The context that a call takes out of a handover and then removes. -/
def UeOp.partedRanUe (s : Ues) : UeOp → Option Nat
  | .releaseAction r =>
    match (s.ranUe r).ueCtxRelAction with
    | .ngHandoverComplete | .ngHandoverCancel | .ngHandoverFailure => some r
    | .ngContextRemove | .ngRemoveAndUnlink | .ueContextRemove | .invalidAction => none
  | _ => none

def UeOp.handover : UeOp → Option (Nat × Nat)
  | .associateTargetUe source target => some (source,target)
  | _ => none

def UeOp.addedRanId (s : Ues) : UeOp → Option Nat
  | .ranUeAdd _ _ _ _ => s.ranUePool.idCalloc.2.map Prod.snd
  | _ => none

/-- No context is removed in the middle of a handover, no handover begins from a source that has
another target or to a target that has another source, and no context is added under the id of
another. -/
def UeOp.KeepsPairs (s : Ues) (op : UeOp) : Prop :=
  (∀ r∈op.removedRanUe s,s.Alone r) ∧
  (∀ r∈op.partedRanUe s,s.targetId r=0 ∨ s.targetId r=s.ranId r ∨ s.sourceId r=0) ∧
  (∀ p∈op.handover,(s.targetId p.1=0 ∨ s.targetId p.1=s.ranId p.2) ∧
    (s.sourceId p.2=0 ∨ s.sourceId p.2=s.ranId p.1)) ∧
  ∀ id∈op.addedRanId s,s.ranUeFindById id=none

instance (s : Ues) (op : UeOp) : Decidable (op.KeepsPairs s) :=
  inferInstanceAs (Decidable (_ ∧ _))

namespace Ues

variable {s t : Ues} {r : Nat}

inductive RanStep (s : Ues) : UeOp → Ues → Prop where
  | kept {op : UeOp} {t : Ues} (h : s.RanKept t) : RanStep s op t
  | removed {op : UeOp} {t : Ues} {r : Nat} (hr : s.RanLive r) (hop : op.removedRanUe s=some r)
      (h : (s.ranUeRemove r).RanKept t) : RanStep s op t
  | added {t : Ues} {gnbId ostreams : Nat} {ngapId : BitVec 64} {timer : Bool} {o : Option Nat}
      (h : s.ranUeAdd gnbId ostreams ngapId timer = .ok t o) :
      RanStep s (.ranUeAdd gnbId ostreams ngapId timer) t
  | linked {a b : Nat} (ha : s.RanLive a) (hb : s.RanLive b) :
      RanStep s (.associateTargetUe a b) (s.sourceUeAssociateTargetUe a b)
  | unlinked {r : Nat} {t : Ues} (hr : s.RanLive r)
      (h : s.sourceUeDeassociateTargetUe r = .ok t ()) : RanStep s (.deassociateTargetUe r) t
  | parted {op : UeOp} {r : Nat} {t : Ues} (hr : s.RanLive r) (hop : op.partedRanUe s=some r)
      (h : s.sourceUeDeassociateTargetUe r = .ok t ()) : RanStep s op (t.ranUeRemove r)

theorem ranKept_self (s : Ues) : s.RanKept s := ⟨rfl,rfl,rfl,rfl⟩

theorem RanKept.ranUeRemove (h : s.RanKept t) (r : Nat) :
    (s.ranUeRemove r).RanKept (t.ranUeRemove r) := by
  refine ⟨?_,h.id,h.target,h.source⟩
  show t.ranUePool.idFree r (t.ranId r)=s.ranUePool.idFree r (s.ranId r)
  rw [h.pool,h.id]

theorem RanPooled.cmConnected_live {u : Nat} (h : s.RanPooled) (hr : s.cmConnected u=some r) :
    s.RanLive r := by
  unfold cmConnected at hr
  split at hr
  · exact (h.ids _ r hr).1
  · cases hr

theorem setSuci_ranUes {u a : Nat} {suci : Option IdStr} (hs : s.Indexed) (h : s.RanPooled)
    (ht : s.amfUeSetSuci u a suci=some (.ok t ())) : s.RanStep (.setSuci u a suci) t := by
  obtain ⟨x,s₁,rfl,hfree,rfl,htaken⟩ := amfUeSetSuci_ok ht
  obtain ⟨-,-,hget,-,-⟩ := hs.names.store hfree x
  have hend : s₁.RanKept ((s₁.dropSuci u).takeSuci u a) :=
    (s₁.dropSuci_namesOnly u).ranSame.ranKept.trans ⟨rfl,rfl,rfl,rfl⟩
  have hstore : s.RanKept (s.store a x) := ⟨rfl,rfl,rfl,rfl⟩
  rcases htaken with ⟨old,hold,hne,htake⟩ | ⟨-,rfl⟩
  · obtain ⟨s₂,hsessions,hremove⟩ := takeOver_ok htake
    have hrest:=((takeSessions_sessionsOnly hsessions).ranSame.trans
      (amfUeRemove_ranSame hremove)).ranKept.trans hend
    unfold implicitRelease at hrest
    cases hr : (s.store a x).cmConnected old with
    | none =>
      rw [hr] at hrest
      exact .kept (hstore.trans hrest)
    | some r =>
      rw [hr] at hrest
      have hfind : s.amfUeFindBySuci x=some old := (hget _).symm.trans hold
      have hop : (UeOp.setSuci u a (some x)).removedRanUe s=some r := by
        show (s.amfUeFindBySuci x).bind _=some r
        rw [hfind,bind_some,if_neg hne]
        exact hr
      exact .removed (h.cmConnected_live hr) hop ((hstore.ranUeRemove r).trans hrest)
  · exact .kept (hstore.trans hend)

theorem releaseAction_ranUes (hr : s.RanLive r)
    (h : s.ueContextReleaseAction r=some (.ok t ())) : s.RanStep (.releaseAction r) t := by
  have hself:=(s.ranUeRemove r).ranKept_self
  have hhandover : (UeOp.releaseAction r).partedRanUe s=some r →
      (s.sourceUeDeassociateTargetUe r).bind (fun s _ => .ok (s.ranUeRemove r) ()) = .ok t () →
        s.RanStep (.releaseAction r) t := by
    intro hop ho
    cases hd : s.sourceUeDeassociateTargetUe r with
    | ok s₁ _ =>
      rw [hd] at ho
      obtain rfl := (Outcome.ok.inj ho).1
      exact .parted hr hop hd
    | abort s₁ =>
      rw [hd] at ho
      cases ho
  unfold ueContextReleaseAction at h
  cases haction : (s.ranUe r).ueCtxRelAction with
  | invalidAction =>
    simp only [haction,some.injEq,Outcome.ok.injEq,and_true] at h
    exact h ▸ .kept s.ranKept_self
  | ngContextRemove =>
    simp only [haction,some.injEq,Outcome.ok.injEq,and_true] at h
    exact h ▸ .removed hr (by simp [UeOp.removedRanUe,haction]) hself
  | ngRemoveAndUnlink =>
    have hop : (UeOp.releaseAction r).removedRanUe s=some r := by
      simp [UeOp.removedRanUe,haction]
    simp only [haction] at h
    cases hfind : s.amfUeFindById (s.ranUe r).amfUeId with
    | none =>
      simp only [hfind,some.injEq,Outcome.ok.injEq,and_true] at h
      exact h ▸ .removed hr hop hself
    | some u =>
      simp only [hfind,some.injEq,Outcome.ok.injEq,and_true] at h
      exact h ▸ .removed hr hop ⟨rfl,rfl,rfl,rfl⟩
  | ueContextRemove =>
    have hop : (UeOp.releaseAction r).removedRanUe s=some r := by
      simp [UeOp.removedRanUe,haction]
    simp only [haction] at h
    cases hfind : s.amfUeFindById (s.ranUe r).amfUeId with
    | none =>
      simp only [hfind,some.injEq,Outcome.ok.injEq,and_true] at h
      exact h ▸ .removed hr hop hself
    | some u =>
      simp only [hfind] at h
      obtain ⟨s₁,hs₁,ho⟩ := map_eq_some_iff.mp h
      obtain rfl := (Outcome.ok.inj ho).1
      exact .removed hr hop (amfUeRemove_ranSame hs₁).ranKept
  | ngHandoverComplete | ngHandoverCancel | ngHandoverFailure =>
    simp only [haction,some.injEq] at h
    exact hhandover (by simp [UeOp.partedRanUe,haction]) h

theorem step_ranUes {op : UeOp} (hs : s.Indexed) (h : s.RanPooled)
    (hstep : s.step op=some (.ok t ())) : s.RanStep op t := by
  unfold Ues.step at hstep
  split at hstep
  case isFalse => cases hstep
  case isTrue honLive =>
    cases op with
    | ranUeAdd gnbId ostreams ngapId timer =>
      obtain ⟨r,hadd⟩ := call_ranUeAdd hstep
      exact .added hadd
    | ranUeRemove r =>
      cases hstep
      exact .removed (by simpa [onLive,RanLive] using honLive) rfl (s.ranUeRemove r).ranKept_self
    | amfUeAdd gnb timers =>
      cases hstep
      obtain ⟨q,hsplit⟩ := hs.pool
      rcases amfUeAdd_cases hsplit gnb timers with
        ⟨pool,-,-,-,-,-,heq⟩ | ⟨w,pool,-,-,-,-,-,heq⟩
      · rw [heq]
        exact .kept ⟨rfl,rfl,rfl,rfl⟩
      · rw [heq]
        exact .kept ⟨rfl,rfl,rfl,rfl⟩
    | amfUeRemove u =>
      obtain ⟨s₁,hs₁,ho⟩ := map_eq_some_iff.mp hstep
      obtain rfl := (Outcome.ok.inj ho).1
      exact .kept (amfUeRemove_ranSame hs₁).ranKept
    | setSuci u a suci => exact setSuci_ranUes hs h hstep
    | setSupi u a supi =>
      obtain ⟨x,rfl,hfree,rfl⟩ := amfUeSetSupi_ok hstep
      exact .kept ((s.dropSupi_namesOnly u).ranSame.ranKept.trans ⟨rfl,rfl,rfl,rfl⟩)
    | setGuami u guami =>
      cases hstep
      exact .kept ⟨rfl,rfl,rfl,rfl⟩
    | newGuti u =>
      rcases amfUeNewGuti_ok (some.inj hstep) with rfl | ⟨s₁,next,honly,rfl⟩
      · exact .kept t.ranKept_self
      · exact .kept (honly.ranSame.ranKept.trans ⟨rfl,rfl,rfl,rfl⟩)
    | confirmGuti u =>
      obtain ⟨-,rfl⟩ := amfUeConfirmGuti_ok (some.inj hstep)
      exact .kept ((s.dropCurrentGuti_gutisOnly u).ranSame.ranKept.trans ⟨rfl,rfl,rfl,rfl⟩)
    | sessAdd u psi => exact .kept (amfSessAdd_ok (some.inj hstep)).ranSame.ranKept
    | sessRemove n =>
      cases hstep
      exact .kept (s.amfSessRemove_sessionsOnly n).ranSame.ranKept
    | associateRanUe u r =>
      cases hstep
      have hmodify:=(s.modifyUe u fun ue => { ue with ranUeId := (s.ranUe r).id }
        ).modifyRanUe_ranKept (fun ranUe => { ranUe with amfUeId := (s.amfUe u).id })
          (fun _ => ⟨rfl,rfl,rfl⟩) r
      have hue : s.RanKept (s.modifyUe u fun ue => { ue with ranUeId := (s.ranUe r).id }) :=
        ⟨rfl,rfl,rfl,rfl⟩
      exact .kept (hue.trans hmodify)
    | ranUeDeassociate r =>
      cases hstep
      exact .kept (s.modifyRanUe_ranKept (fun ranUe => { ranUe with amfUeId := 0 })
        (fun _ => ⟨rfl,rfl,rfl⟩) r)
    | amfUeDeassociate u =>
      cases hstep
      exact .kept ⟨rfl,rfl,rfl,rfl⟩
    | associateTargetUe source target =>
      cases hstep
      have hlive : s.RanLive source ∧ s.RanLive target := by
        simpa [onLive,RanLive] using honLive
      exact .linked hlive.1 hlive.2
    | deassociateTargetUe r =>
      exact .unlinked (by simpa [onLive,RanLive] using honLive) (some.inj hstep)
    | releaseCommand r action =>
      cases hstep
      exact .kept (s.modifyRanUe_ranKept (fun ranUe => { ranUe with ueCtxRelAction := action })
        (fun _ => ⟨rfl,rfl,rfl⟩) r)
    | releaseAction r =>
      exact releaseAction_ranUes (by simpa [onLive,RanLive] using honLive) hstep

theorem unlink_ok {source target : Option Nat} (h : s.unlink source target = .ok t ()) :
    ∃ a b,source=some a ∧ target=some b ∧ validId (s.ranUe a).targetUeId=true ∧
      validId (s.ranUe b).sourceUeId=true ∧
      t=(s.modifyRanUe a fun ranUe => { ranUe with targetUeId := 0 }).modifyRanUe b
        fun ranUe => { ranUe with sourceUeId := 0 } := by
  unfold unlink at h
  split at h
  · rename_i a b
    split at h
    · rename_i hvalid
      exact ⟨a,b,rfl,rfl,hvalid.1,hvalid.2,(Outcome.ok.inj h).1.symm⟩
    · cases h
  · cases h

namespace RanPooled

theorem unlink {source target : Option Nat} (h : s.RanPooled)
    (ht : s.unlink source target = .ok t ()) : t.RanPooled ∧ t.RanLive=s.RanLive := by
  obtain ⟨a,b,-,-,-,-,rfl⟩ := unlink_ok ht
  have hsource : (s.modifyRanUe a fun ranUe => { ranUe with targetUeId := 0 }).RanPooled :=
    h.modifyRanUe fun _ => rfl
  exact ⟨hsource.modifyRanUe fun _ => rfl,rfl⟩

theorem deassociate (h : s.RanPooled) (ht : s.sourceUeDeassociateTargetUe r = .ok t ()) :
    t.RanPooled ∧ t.RanLive=s.RanLive := by
  unfold sourceUeDeassociateTargetUe at ht
  split at ht
  · exact h.unlink ht
  · split at ht
    · exact h.unlink ht
    · cases ht
      exact ⟨h,rfl⟩

theorem step {op : UeOp} (h : s.RanPooled) (hstep : s.RanStep op t) : t.RanPooled := by
  cases hstep with
  | kept hkept => exact h.kept hkept.pool hkept.id
  | removed hr _ hkept => exact (h.ranUeRemove hr).kept hkept.pool hkept.id
  | added hadd => exact h.ranUeAdd hadd
  | linked ha hb =>
    refine RanPooled.modifyRanUe (h.modifyRanUe ?_) ?_
    · exact fun _ => rfl
    · exact fun _ => rfl
  | unlinked _ hdeassociate => exact (h.deassociate hdeassociate).1
  | parted hr _ hdeassociate =>
    obtain ⟨hpooled,hlive⟩ := h.deassociate hdeassociate
    exact hpooled.ranUeRemove (hlive ▸ hr)

end RanPooled

namespace Connections

theorem releaseAction {o : Outcome Ues Unit} (h : s.Connections) (hr : s.RanLive r)
    (hkeeps : (UeOp.releaseAction r).KeepsPairs s) (ho : s.ueContextReleaseAction r=some o) :
    ∃ t,o = .ok t () ∧ t.Connections := by
  obtain ⟨hremoved,hparted,-,-⟩ := hkeeps
  have hhandover : s.targetId r=0 ∨ s.targetId r=s.ranId r ∨ s.sourceId r=0 →
      (s.sourceUeDeassociateTargetUe r).bind (fun s _ => .ok (s.ranUeRemove r) ())=o →
        ∃ t,o = .ok t () ∧ t.Connections := by
    rintro hone rfl
    obtain ⟨t,ht,hconn,hpool,halone⟩ := h.deassociate hr
    have hrt : t.RanLive r := by
      rw [RanLive,hpool]
      exact hr
    exact ⟨_,by rw [ht,Outcome.bind_ok],hconn.ranUeRemove hrt (halone hone)⟩
  unfold ueContextReleaseAction at ho
  cases haction : (s.ranUe r).ueCtxRelAction with
  | invalidAction =>
    simp only [haction,some.injEq] at ho
    exact ⟨s,ho.symm,h⟩
  | ngContextRemove =>
    simp only [haction,some.injEq] at ho
    exact ⟨_,ho.symm,h.ranUeRemove hr (hremoved r (by simp [UeOp.removedRanUe,haction]))⟩
  | ngRemoveAndUnlink =>
    have halone:=hremoved r (by simp [UeOp.removedRanUe,haction])
    have hrest:=h.ranUeRemove hr halone
    simp only [haction] at ho
    cases hfind : s.amfUeFindById (s.ranUe r).amfUeId with
    | none =>
      simp only [hfind,some.injEq] at ho
      exact ⟨_,ho.symm,hrest⟩
    | some u =>
      simp only [hfind,some.injEq] at ho
      exact ⟨_,ho.symm,hrest.kept ⟨rfl,rfl,rfl,rfl⟩⟩
  | ueContextRemove =>
    have halone:=hremoved r (by simp [UeOp.removedRanUe,haction])
    have hrest:=h.ranUeRemove hr halone
    simp only [haction] at ho
    cases hfind : s.amfUeFindById (s.ranUe r).amfUeId with
    | none =>
      simp only [hfind,some.injEq] at ho
      exact ⟨_,ho.symm,hrest⟩
    | some u =>
      simp only [hfind] at ho
      obtain ⟨s₁,hs₁,ho⟩ := map_eq_some_iff.mp ho
      exact ⟨_,ho.symm,hrest.kept (amfUeRemove_ranSame hs₁).ranKept⟩
  | ngHandoverComplete | ngHandoverCancel | ngHandoverFailure =>
    simp only [haction,some.injEq] at ho
    exact hhandover (hparted r (by simp [UeOp.partedRanUe,haction])) ho

theorem step {op : UeOp} (h : s.Connections) (hs : s.Indexed) (hkeeps : op.KeepsPairs s)
    (hstep : s.step op=some (.ok t ())) : t.Connections := by
  obtain ⟨hremoved,hparted,hhandover,hadded⟩ := hkeeps
  cases step_ranUes hs h.toRanPooled hstep with
  | kept hkept => exact h.kept hkept
  | removed hr hop hkept => exact (h.ranUeRemove hr (hremoved _ hop)).kept hkept
  | added hadd => exact h.ranUeAdd hadded hadd
  | linked ha hb =>
    obtain ⟨hfree,hfree'⟩ := hhandover (_,_) rfl
    exact h.associate ha hb hfree hfree'
  | unlinked hr hdeassociate =>
    obtain ⟨t',ht',hconn,-,-⟩ := h.deassociate hr
    obtain rfl := (Outcome.ok.inj (ht'.symm.trans hdeassociate)).1
    exact hconn
  | parted hr hop hdeassociate =>
    obtain ⟨t',ht',hconn,hpool,halone⟩ := h.deassociate hr
    obtain rfl := (Outcome.ok.inj (ht'.symm.trans hdeassociate)).1
    refine hconn.ranUeRemove ?_ (halone (hparted _ hop))
    rw [RanLive,hpool]
    exact hr

theorem init (config : UeConfig) (s : Ues) : (init config s).Connections := by
  have hnone : ∀ r,¬ (Ues.init config s).RanLive r := by
    intro r hr
    cases hr
  refine ⟨RanPooled.init config s,Nat.zero_le _,?_,?_,?_⟩
  · exact fun r hr => absurd hr (hnone r)
  · exact fun r hr => absurd hr (hnone r)
  · exact ⟨fun r hr => absurd hr (hnone r),fun r hr => absurd hr (hnone r),
      fun r hr => absurd hr (hnone r),fun r hr => absurd hr (hnone r),
      fun r hr => absurd hr (hnone r)⟩

end Connections

/-- An id of another context: there is none, or it leads to a context that is there. -/
def Leads (s : Ues) (id : Nat) : Prop :=
  validId id=true → ∃ r,s.ranUeFindById id=some r ∧ s.ranUePool.index r=some r

structure HandoverRight (s : Ues) : Prop where
  symm : ∀ source target,s.ranUePool.index source=some source →
    s.ranUePool.index target=some target →
      ((s.ranUe source).targetUeId=(s.ranUe target).id ↔
        (s.ranUe target).sourceUeId=(s.ranUe source).id)
  leads : ∀ r,s.ranUePool.index r=some r →
    s.Leads (s.ranUe r).targetUeId ∧ s.Leads (s.ranUe r).sourceUeId
  deassociate : ∀ r,s.ranUePool.index r=some r →
    ∃ t,s.sourceUeDeassociateTargetUe r = .ok t ()

theorem Connections.right (h : s.Connections) : s.HandoverRight where
  symm := fun a b ha hb => h.pairs.symm a ha b hb
  leads := by
    have hleads : ∀ id,(id=0 ∨ ∃ b,s.RanLive b ∧ id=s.ranId b ∧
        validId id=true ∧ s.ranUeFindById id=some b) → s.Leads id := by
      rintro id (rfl | ⟨b,hb,-,-,hfind⟩) hvalid
      · cases hvalid
      · exact ⟨b,hfind,hb⟩
    intro r hr
    obtain ⟨htarget,hsource⟩ := h.eq_zero_or_valid hr
    exact ⟨hleads _ htarget,hleads _ hsource⟩
  deassociate := by
    intro r hr
    obtain ⟨t,ht,-⟩ := h.deassociate hr
    exact ⟨t,ht⟩

end Ues

def UeOp.Parts (_ : Ues) (op : UeOp) (o : Outcome Ues Unit) : Prop :=
  (∃ r,op = .deassociateTargetUe r ∨ op = .releaseAction r) → ∃ t,o = .ok t ()

theorem Ues.Connections.parts {s : Ues} {op : UeOp} {o : Outcome Ues Unit} (h : s.Connections)
    (hkeeps : op.KeepsPairs s) (ho : s.step op=some o) : op.Parts s o := by
  rintro ⟨r,hr⟩
  unfold Ues.step at ho
  split at ho
  case isFalse => cases ho
  case isTrue honLive =>
    rcases hr with rfl | rfl
    · obtain ⟨t,ht,-⟩ :=
        h.deassociate (r := r) (by simpa [Ues.onLive,Ues.RanLive] using honLive)
      exact ⟨t,(some.inj ho).symm.trans ht⟩
    · obtain ⟨t,ht,-⟩ :=
        h.releaseAction (by simpa [Ues.onLive,Ues.RanLive] using honLive) hkeeps ho
      exact ⟨t,ht⟩

theorem handovers_run (config : UeConfig) (s : Ues) (ops : List UeOp)
    (h : EachStep Ues.step UeOp.KeepsPairs (Ues.init config s) ops) :
    (∀ t∈completed Ues.step (Ues.init config s) ops,t.HandoverRight) ∧
    EachOutcome Ues.step UeOp.Parts (Ues.init config s) ops := by
  have hinit : (Ues.init config s).Indexed ∧ (Ues.init config s).Connections :=
    ⟨Ues.Indexed.init config s,Ues.Connections.init config s⟩
  constructor
  · have hinv : ∀ t∈completed Ues.step (Ues.init config s) ops,t.Indexed ∧ t.Connections :=
      completed_inv (fun s op t r hs hkeeps ho =>
        ⟨(hs.1.step ho).1,hs.2.step hs.1 hkeeps ho⟩) hinit h
    exact fun t ht => (hinv t ht).2.right
  · have hstep : ∀ (s : Ues) (op : UeOp) (o : Outcome Ues Unit),s.Indexed ∧ s.Connections →
        op.KeepsPairs s → s.step op=some o →
          op.Parts s o ∧ o.Leaves (fun t => t.Indexed ∧ t.Connections) fun _ => True := by
      intro s op o hs hkeeps ho
      constructor
      · exact fun hop => hs.2.parts hkeeps ho hop
      · cases o with
        | ok t r => exact ⟨(hs.1.step ho).1,hs.2.step hs.1 hkeeps ho⟩
        | abort t => trivial
    exact eachOutcome_inv hstep hinit h

def handoverBegun : List UeOp :=
  [.amfUeAdd true true,.amfUeAdd true true,.setSuci 0 8 (some suci1),.ranUeAdd 1 2 5 true,
    .associateRanUe 0 0,.ranUeAdd 2 2 6 true,.associateTargetUe 0 1,
    .releaseCommand 1 .ngHandoverCancel]

def handoverCancelled : List UeOp := handoverBegun++[.releaseAction 1]

def afterHandoverCancelled : Ues :=
  ((completed Ues.step ues2 handoverCancelled)[9]?).getD ues2

theorem handovers_run_cancelled : (afterHandoverCancelled.ranUe 0).targetUeId=0 ∧
    afterHandoverCancelled.HandoverRight ∧
    EachOutcome Ues.step UeOp.Parts ues2 handoverCancelled := by
  have hrun:=handovers_run ueConfig2 ues2 handoverCancelled (by decide)
  exact ⟨by decide,
    hrun.1 afterHandoverCancelled (List.mem_of_getElem? (i := 9) rfl),hrun.2⟩

def sourceReleased : List UeOp := handoverBegun++[.setSuci 1 9 (some suci1)]

def afterSourceReleased : Ues := ((completed Ues.step ues2 sourceReleased)[9]?).getD ues2

theorem source_lost : ¬ ∀ t∈completed Ues.step ues2 sourceReleased,t.HandoverRight := by
  intro h
  have hright:=h afterSourceReleased (List.mem_of_getElem? (i := 9) rfl)
  have hindex : afterSourceReleased.ranUePool.index 1=some 1 := by decide
  have hvalid : Ues.validId (afterSourceReleased.ranUe 1).sourceUeId=true := by decide
  have hfind : afterSourceReleased.ranUeFindById (afterSourceReleased.ranUe 1).sourceUeId =
    none := by decide
  obtain ⟨r,hr,-⟩ := (hright.leads 1 hindex).2 hvalid
  rw [hfind] at hr
  cases hr

end OgsDp.Amf
