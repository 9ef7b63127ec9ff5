import OgsDp.Amf.UeIndex

/-!
# The sessions of the UEs (src/amf/context.c)

A session is on the list of the UE that it names.
-/

namespace OgsDp.Amf
open Lib LinkedList OgsDp.Core Function List Option

namespace Ues

variable {s t : Ues} {u a n : Nat} {us vs : List Nat} {lists : Nat → List Nat}

/-- The sessions in use are those on the lists of the UEs `us`, and each names its UE. -/
structure OwnedBy (us : List Nat) (lists : Nat → List Nat) (s : Ues) : Prop where
  family : Family s.sessLinks s.sessList us lists
  named : ∀ u∈us,∀ n∈lists u,s.amfUeFindById (s.sess n).amfUeId=some u
  pool : ∃ q live,Pool.Split s.sessPool q live ∧ ∀ n,n∈live ↔ ∃ u∈us,n∈lists u

structure SessKept (s t : Ues) : Prop where
  pool : t.sessPool=s.sessPool
  sess : t.sess=s.sess
  links : t.sessLinks=s.sessLinks
  list : t.sessList=s.sessList

theorem SessKept.trans {s₁ s₂ s₃ : Ues} (h : s₁.SessKept s₂) (h' : s₂.SessKept s₃) :
    s₁.SessKept s₃ where
  pool := h'.pool.trans h.pool
  sess := h'.sess.trans h.sess
  links := h'.links.trans h.links
  list := h'.list.trans h.list

theorem RanUesOnly.sessKept (h : s.RanUesOnly t) : s.SessKept t := by
  obtain ⟨pool,ranUe,rfl⟩ := h
  exact ⟨rfl,rfl,rfl,rfl⟩

theorem GutisOnly.sessKept (h : s.GutisOnly t) : s.SessKept t := by
  obtain ⟨pool,mTmsi,hash,rfl⟩ := h
  exact ⟨rfl,rfl,rfl,rfl⟩

theorem NamesOnly.sessKept (h : s.NamesOnly t) : s.SessKept t := by
  obtain ⟨str,suciHash,supiHash,rfl⟩ := h
  exact ⟨rfl,rfl,rfl,rfl⟩

namespace OwnedBy

theorem kept (h : OwnedBy us lists s) (hkept : s.SessKept t)
    (hfind : t.amfUeFindById=s.amfUeFindById) : OwnedBy us lists t where
  family := by
    rw [hkept.links,hkept.list]
    exact h.family
  named := by
    rw [hkept.sess,hfind]
    exact h.named
  pool := by
    rw [hkept.pool]
    exact h.pool

theorem index (h : OwnedBy us lists s) :
    s.sessPool.index n=some n ↔ ∃ u∈us,n∈lists u := by
  obtain ⟨q,live,hsplit,hlive⟩ := h.pool
  rw [← hlive,index_eq_some hsplit]

theorem length_le (h : OwnedBy us lists s) (hu : u∈us) :
    (lists u).length ≤ s.sessPool.size := by
  obtain ⟨q,live,hsplit,hlive⟩ := h.pool
  have hsub : lists u ⊆ live := fun n hn => (hlive n).mpr ⟨u,hu,hn⟩
  have hle:=(subperm_of_subset (h.family.chained u hu).nodup hsub).length_le
  have hlen:=hsplit.length_add
  omega

theorem sessAdd {psi : BitVec 8} (h : OwnedBy us lists s) (hu : u∈us)
    (hfind : s.amfUeFindById (s.amfUe u).id=some u) (ht : s.amfSessAdd u psi = .ok t ()) :
    ∃ n,OwnedBy us (update lists u (lists u++[n])) t := by
  obtain ⟨q,live,hsplit,hlive⟩ := h.pool
  unfold amfSessAdd at ht
  split at ht
  · cases ht
  · cases q with
    | nil =>
      rw [hsplit.idCalloc_nil] at ht
      cases ht
    | cons n q =>
      obtain ⟨pool,hcalloc,hsplit',-,-⟩ := hsplit.idCalloc
      have hfree:=hsplit.not_live_of_free (mem_cons_self ..)
      have hnew : ∀ w∈us,n∉lists w := fun w hw hn => hfree ((hlive n).mpr ⟨w,hw,hn⟩)
      rw [hcalloc] at ht
      cases ht
      have hmem : ∀ w∈us,∀ k,k∈update lists u (lists u++[n]) w ↔
          k∈lists w ∨ w=u ∧ k=n := by
        intro w hw k
        by_cases hwu : w=u
        · subst hwu
          simp
        · simp [hwu]
      refine ⟨n,⟨h.family.add hu hnew,?_,q,live++[n],hsplit',?_⟩⟩
      · intro w hw k hk
        rcases (hmem w hw k).mp hk with hkw | ⟨rfl,rfl⟩
        · have hkn : k≠n := fun he => hnew w hw (he ▸ hkw)
          simp only [update_of_ne hkn]
          exact h.named w hw k hkw
        · simp only [update_self]
          exact hfind
      · intro k
        rw [mem_append,hlive,mem_singleton]
        constructor
        · rintro (⟨w,hw,hk⟩ | rfl)
          · exact ⟨w,hw,(hmem w hw k).mpr (.inl hk)⟩
          · exact ⟨u,hu,(hmem u hu k).mpr (.inr ⟨rfl,rfl⟩)⟩
        · rintro ⟨w,hw,hk⟩
          rcases (hmem w hw k).mp hk with hk | ⟨-,hk⟩
          · exact .inl ⟨w,hw,hk⟩
          · exact .inr hk

theorem sessRemove (h : OwnedBy us lists s) (hu : u∈us) (hn : n∈lists u) :
    OwnedBy us (update lists u ((lists u).erase n)) (s.amfSessRemove n) := by
  obtain ⟨q,live,hsplit,hlive⟩ := h.pool
  have hnodup:=(h.family.chained u hu).nodup
  have hmem : ∀ w∈us,∀ k,k∈update lists u ((lists u).erase n) w ↔
      k∈lists w ∧ k≠n := by
    intro w hw k
    by_cases hwu : w=u
    · subst hwu
      rw [update_self,hnodup.mem_erase_iff,and_comm]
    · rw [update_of_ne hwu]
      refine ⟨fun hk => ⟨hk,?_⟩,fun hk => hk.1⟩
      rintro rfl
      exact hwu (h.family.apart w hw u hu k hk hn)
  unfold amfSessRemove
  rw [h.named u hu n hn]
  refine ⟨h.family.remove hu hn,?_,_,_,
    hsplit.idFree ((hlive n).mpr ⟨u,hu,hn⟩) (s.sess n).id,?_⟩
  · intro w hw k hk
    exact h.named w hw k ((hmem w hw k).mp hk).1
  · intro k
    rw [hsplit.live_nodup.mem_erase_iff,hlive]
    constructor
    · rintro ⟨hkn,w,hw,hk⟩
      exact ⟨w,hw,(hmem w hw k).mpr ⟨hk,hkn⟩⟩
    · rintro ⟨w,hw,hk⟩
      obtain ⟨hk,hkn⟩ := (hmem w hw k).mp hk
      exact ⟨hkn,w,hw,hk⟩

theorem sessRemoveFrom (h : OwnedBy us lists s) (hu : u∈us) {l : List Nat} (hl : lists u=l)
    {fuel : Nat} (hfuel : l.length≤fuel) :
    ∃ t,s.sessRemoveFrom fuel (s.sessList u).next=some t ∧
      OwnedBy us (update lists u []) t := by
  induction l generalizing s lists fuel with
  | nil =>
    have hfirst : (s.sessList u).next=none := by
      rw [(h.family.chained u hu).first,hl]
      rfl
    refine ⟨s,?_,?_⟩
    · rw [hfirst]
      cases fuel <;> rfl
    · rw [← hl,update_eq_self]
      exact h
  | cons n l ih =>
    have hchain : Chained s.sessLinks (s.sessList u) (n::l) := hl ▸ h.family.chained u hu
    have hn : n∈lists u := by simp [hl]
    have hremove:=h.sessRemove hu hn
    cases fuel with
    | zero => simp at hfuel
    | succ fuel =>
      have hlist : ((s.amfSessRemove n).sessList u) =
          (LinkedList.remove s.sessLinks (s.sessList u) n).2 := by
        unfold amfSessRemove
        rw [h.named u hu n hn]
        exact update_self ..
      have hrest:=ih hremove (by simp [hl]) (Nat.le_of_succ_le_succ hfuel)
      rw [update_idem,hlist,← hchain.next_first] at hrest
      obtain ⟨t,ht,howned⟩ := hrest
      refine ⟨t,?_,howned⟩
      rw [hchain.first]
      exact ht

theorem sessRemoveAll (h : OwnedBy us lists s) (hu : u∈us) :
    ∃ t,s.amfSessRemoveAll u=some t ∧ OwnedBy us (update lists u []) t :=
  h.sessRemoveFrom hu rfl (h.length_le hu)

theorem leave (h : OwnedBy us lists s) (hvs : ∀ w,w∈vs ↔ w∈us ∧ w≠u) (hu : lists u=[])
    (hkept : s.SessKept t) (hfind : ∀ id w,w≠u →
      s.amfUeFindById id=some w → t.amfUeFindById id=some w) :
    OwnedBy vs lists t where
  family := by
    rw [hkept.links,hkept.list]
    exact h.family.congr (fun w hw => ((hvs w).mp hw).1) (fun _ _ => rfl) fun _ _ => rfl
  named := by
    intro w hw n hn
    obtain ⟨hw,hwu⟩ := (hvs w).mp hw
    rw [hkept.sess]
    exact hfind _ w hwu (h.named w hw n hn)
  pool := by
    obtain ⟨q,live,hsplit,hlive⟩ := h.pool
    refine ⟨q,live,hkept.pool ▸ hsplit,fun n => ?_⟩
    rw [hlive]
    constructor
    · rintro ⟨w,hw,hn⟩
      refine ⟨w,(hvs w).mpr ⟨hw,?_⟩,hn⟩
      rintro rfl
      rw [hu] at hn
      cases hn
    · rintro ⟨w,hw,hn⟩
      exact ⟨w,((hvs w).mp hw).1,hn⟩

theorem takeSessions {old : Nat} (h : OwnedBy us lists s) (hu : u∈us) (hold : old∈us)
    (hne : u≠old) (hempty : lists u=[]) (hfind : s.amfUeFindById (s.amfUe u).id=some u)
    (ht : s.takeSessions u old=some t) :
    OwnedBy us (update (update lists u (lists old)) old []) t := by
  obtain ⟨q,live,hsplit,hlive⟩ := h.pool
  have hwalk:=(h.family.chained old hold).walk_eq (h.length_le hold)
  unfold Ues.takeSessions at ht
  rw [hwalk] at ht
  cases ht
  have hmem : ∀ w,∀ n,n∈update (update lists u (lists old)) old [] w ↔
      w=u ∧ n∈lists old ∨ w≠old ∧ n∈lists w := by
    intro w n
    by_cases hwo : w=old
    · subst hwo
      simp [Ne.symm hne]
    · rw [update_of_ne hwo]
      by_cases hwu : w=u
      · subst hwu
        simp [hempty]
      · simp [hwu,hwo]
  refine ⟨h.family.move hu hold hne hempty,?_,q,live,hsplit,?_⟩
  · intro w hw n hn
    rcases (hmem w n).mp hn with ⟨rfl,hno⟩ | ⟨hwo,hnw⟩
    · simp only [if_pos hno]
      exact hfind
    · have hno : n∉lists old := fun hno => hwo (h.family.apart w hw old hold n hnw hno)
      simp only [if_neg hno]
      exact h.named w hw n hnw
  · intro n
    rw [hlive]
    constructor
    · rintro ⟨w,hw,hn⟩
      by_cases hwo : w=old
      · exact ⟨u,hu,(hmem u n).mpr (.inl ⟨rfl,hwo ▸ hn⟩)⟩
      · exact ⟨w,hw,(hmem w n).mpr (.inr ⟨hwo,hn⟩)⟩
    · rintro ⟨w,hw,hn⟩
      rcases (hmem w n).mp hn with ⟨-,hn⟩ | ⟨-,hn⟩
      · exact ⟨old,hold,hn⟩
      · exact ⟨w,hw,hn⟩

theorem join (h : OwnedBy us lists s) (hu : u∉us) (hvs : ∀ w,w∈vs ↔ w=u ∨ w∈us)
    (hpool : t.sessPool=s.sessPool) (hsess : t.sess=s.sess) (hlinks : t.sessLinks=s.sessLinks)
    (hlist : t.sessList=update s.sessList u Head.empty)
    (hfind : ∀ id,∀ w∈us,s.amfUeFindById id=some w → t.amfUeFindById id=some w) :
    OwnedBy vs (update lists u []) t where
  family := by
    have hne : ∀ w∈us,w≠u := fun w hw he => hu (he ▸ hw)
    have hold : Family s.sessLinks t.sessList us (update lists u []) := by
      rw [hlist]
      exact h.family.congr (fun w hw => hw) (fun w hw => update_of_ne (hne w hw) _ _)
        fun w hw => update_of_ne (hne w hw) _ _
    have hnew:=hold.cons (i := u) (by rw [hlist,update_self])
      (update_self ..)
    rw [hlinks]
    refine hnew.congr ?_ (fun _ _ => rfl) fun _ _ => rfl
    intro w hw
    rw [mem_cons]
    exact (hvs w).mp hw
  named := by
    intro w hw n hn
    rw [hsess]
    rcases (hvs w).mp hw with rfl | hw
    · rw [update_self] at hn
      cases hn
    · have hwu : w≠u := fun he => hu (he ▸ hw)
      rw [update_of_ne hwu] at hn
      exact hfind _ w hw (h.named w hw n hn)
  pool := by
    obtain ⟨q,live,hsplit,hlive⟩ := h.pool
    refine ⟨q,live,hpool ▸ hsplit,fun n => ?_⟩
    rw [hlive]
    constructor
    · rintro ⟨w,hw,hn⟩
      have hwu : w≠u := fun he => hu (he ▸ hw)
      exact ⟨w,(hvs w).mpr (.inr hw),by rwa [update_of_ne hwu]⟩
    · rintro ⟨w,hw,hn⟩
      by_cases hwu : w=u
      · rw [hwu,update_self] at hn
        cases hn
      · rw [update_of_ne hwu] at hn
        exact ⟨w,((hvs w).mp hw).resolve_left hwu,hn⟩

end OwnedBy

def Found (s : Ues) : Prop := ∀ u∈s.amfUeList,s.amfUeFindById (s.amfUe u).id=some u

theorem PoolKept.find (h : s.PoolKept t) : t.amfUeFindById=s.amfUeFindById := by
  funext id
  rw [amfUeFindById,amfUeFindById,h.pool]

theorem Found.kept (h : s.Found) (hkept : s.PoolKept t) : t.Found := by
  intro u hu
  rw [hkept.find,hkept.id]
  exact h u (hkept.list ▸ hu)

structure Owned (s : Ues) : Prop where
  found : s.Found
  sessions : ∃ lists,OwnedBy s.amfUeList lists s

namespace Owned

theorem kept (h : s.Owned) (hpool : s.PoolKept t) (hkept : s.SessKept t) : t.Owned where
  found := h.found.kept hpool
  sessions := by
    obtain ⟨lists,howned⟩ := h.sessions
    refine ⟨lists,?_⟩
    rw [hpool.list]
    exact howned.kept hkept hpool.find

end Owned

theorem OwnedBy.amfUeRemove (h : OwnedBy s.amfUeList lists s) (hs : s.Indexed) (hfound : s.Found)
    (hu : u∈s.amfUeList) (ht : s.amfUeRemove u=some t) :
    t.Found ∧ OwnedBy t.amfUeList (update lists u []) t := by
  obtain ⟨-,hr⟩ := hs.remove hu ht
  obtain ⟨s₁,hremove,rfl⟩ := amfUeRemove_ok ht
  have herase : OwnedBy s.amfUeList lists { s with amfUeList := s.amfUeList.erase u } :=
    h.kept ⟨rfl,rfl,rfl,rfl⟩ rfl
  obtain ⟨s₂,hs₂,h₂⟩ := herase.sessRemoveAll hu
  obtain rfl : s₂=s₁ := some.inj (hs₂.symm.trans hremove)
  have hfind₂ : s₂.amfUeFindById=s.amfUeFindById := by
    have hkept:=(amfSessRemoveAll_sessionsOnly hremove).poolKept
    exact hkept.find
  have hgutis:=(s₂.dropCurrentGuti_gutisOnly u).trans (dropNextGuti_gutisOnly _ u)
  generalize (s₂.dropCurrentGuti u).dropNextGuti u=s₃ at hgutis hr ⊢
  have hnames:=(s₃.dropSuci_namesOnly u).trans (dropSupi_namesOnly _ u)
  generalize (s₃.dropSuci u).dropSupi u=s₄ at hnames hr ⊢
  have hkept : s₂.SessKept ((s₄.amfUeDeassociate u).amfUeFree u) := by
    have hend : s₄.SessKept ((s₄.amfUeDeassociate u).amfUeFree u) := ⟨rfl,rfl,rfl,rfl⟩
    exact (hgutis.sessKept.trans hnames.sessKept).trans hend
  generalize (s₄.amfUeDeassociate u).amfUeFree u=t at hr hkept ⊢
  have hfind : ∀ id w,w≠u → s.amfUeFindById id=some w → t.amfUeFindById id=some w := by
    intro id w hwu hw
    have hid : id≠(s.amfUe u).id := by
      rintro rfl
      rw [hfound u hu] at hw
      exact hwu (some.inj hw).symm
    rw [amfUeFindById,hr.pool,Pool.findById,Pool.idFree_idHash,update_of_ne hid]
    exact hw
  have hlist : ∀ w,w∈t.amfUeList ↔ w∈s.amfUeList ∧ w≠u := by
    intro w
    rw [hr.list]
    exact hs.mem_erase
  constructor
  · intro w hw
    obtain ⟨hw,hwu⟩ := (hlist w).mp hw
    rw [hr.ue w hwu]
    exact hfind _ w hwu (hfound w hw)
  · exact h₂.leave hlist (update_self ..) hkept
      fun id w hwu hw => hfind id w hwu (hfind₂ ▸ hw)

theorem OwnedBy.amfUeRemove_isSome (h : OwnedBy s.amfUeList lists s) (hu : u∈s.amfUeList) :
    (s.amfUeRemove u).isSome := by
  have herase : OwnedBy s.amfUeList lists { s with amfUeList := s.amfUeList.erase u } :=
    h.kept ⟨rfl,rfl,rfl,rfl⟩ rfl
  obtain ⟨s₁,hs₁,-⟩ := herase.sessRemoveAll hu
  unfold Ues.amfUeRemove
  rw [hs₁]
  rfl

theorem OwnedBy.takeOver {old : Nat} (h : OwnedBy s.amfUeList lists s) (hs : s.Indexed)
    (hfound : s.Found) (hu : u∈s.amfUeList) (hold : old∈s.amfUeList) (hne : u≠old)
    (hempty : lists u=[]) (ht : s.takeOver u old=some t) :
    t.Found ∧
      OwnedBy t.amfUeList (update (update lists u (lists old)) old []) t := by
  obtain ⟨s₂,htake,hremove⟩ := takeOver_ok ht
  have hs₁:=s.implicitRelease_ranUesOnly old
  generalize s.implicitRelease old=s₁ at hs₁ htake
  have hpool₁:=hs₁.poolKept
  have honly:=takeSessions_sessionsOnly htake
  have hpool₂:=honly.poolKept
  have hindexed₁:=(hs.kept hpool₁ hs₁.namesKept).1
  have hindexed₂:=(hindexed₁.kept hpool₂ honly.namesKept).1
  have hfound₁:=hfound.kept hpool₁
  have h₁ : OwnedBy s₁.amfUeList lists s₁ := by
    rw [hpool₁.list]
    exact h.kept hs₁.sessKept hpool₁.find
  have hu₁ : u∈s₁.amfUeList := hpool₁.list ▸ hu
  have hold₁ : old∈s₁.amfUeList := hpool₁.list ▸ hold
  have h₂:=h₁.takeSessions hu₁ hold₁ hne hempty (hfound₁ u hu₁) htake
  rw [← hpool₂.list] at h₂
  have hend:=h₂.amfUeRemove hindexed₂ (hfound₁.kept hpool₂) (hpool₂.list ▸ hold₁) hremove
  rw [update_idem] at hend
  exact hend

theorem OwnedBy.setSuci {suci : Option IdStr} (h : OwnedBy s.amfUeList lists s) (hs : s.Indexed)
    (hfound : s.Found) (hu : u∈s.amfUeList)
    (hnone : ∀ x old,suci=some x → s.amfUeFindBySuci x=some old → old≠u →
      s.sessList u=Head.empty)
    (ht : s.amfUeSetSuci u a suci=some (.ok t ())) :
    t.Found ∧ ∃ lists',OwnedBy t.amfUeList lists' t ∧ u∈t.amfUeList ∧
      ∀ w∈s.amfUeList,∀ n∈lists w,w∈t.amfUeList ∧ n∈lists' w ∨ n∈lists' u := by
  obtain ⟨x,s₁,rfl,hfree,rfl,htaken⟩ := amfUeSetSuci_ok ht
  have hs₀:=(hs.store hfree x).1
  obtain ⟨-,-,hget,-,-⟩ := hs.names.store hfree x
  have hstore : s.PoolKept (s.store a x) := ⟨rfl,rfl,fun _ => rfl⟩
  have h₀ : OwnedBy (s.store a x).amfUeList lists (s.store a x) :=
    h.kept ⟨rfl,rfl,rfl,rfl⟩ hstore.find
  have h₁ : s₁.Found ∧ ∃ lists',OwnedBy s₁.amfUeList lists' s₁ ∧ u∈s₁.amfUeList ∧
      ∀ w∈s.amfUeList,∀ n∈lists w,w∈s₁.amfUeList ∧ n∈lists' w ∨ n∈lists' u := by
    rcases htaken with ⟨old,hold,hne,htake⟩ | ⟨-,rfl⟩
    · have hmem:=(hs₀.names.suci.find_some hold).1
      have hhead:=hnone x old rfl ((hget _).symm.trans hold) hne
      have hempty : lists u=[] := by
        have hfirst:=(h.family.chained u hu).first
        rw [hhead] at hfirst
        exact List.head?_eq_none_iff.mp hfirst.symm
      have hlist:=(hs₀.takeOver hmem htake).2.list
      obtain ⟨hfound₁,howned⟩ := h₀.takeOver hs₀ (hfound.kept hstore) hu hmem (Ne.symm hne)
        hempty htake
      have hin : ∀ w∈s.amfUeList,w≠old → w∈s₁.amfUeList := by
        intro w hw hwo
        rw [hlist]
        exact hs₀.mem_erase.mpr ⟨hw,hwo⟩
      refine ⟨hfound₁,_,howned,hin u hu (Ne.symm hne),?_⟩
      intro w hw n hn
      by_cases hwo : w=old
      · right
        rw [update_of_ne (Ne.symm hne),update_self]
        exact hwo ▸ hn
      · left
        have hwu : w≠u := by
          rintro rfl
          rw [hempty] at hn
          cases hn
        refine ⟨hin w hw hwo,?_⟩
        rw [update_of_ne hwo,update_of_ne hwu]
        exact hn
    · exact ⟨hfound.kept hstore,lists,h₀,hu,fun w hw n hn => .inl ⟨hw,hn⟩⟩
  obtain ⟨hfound₁,lists',howned,hu₁,hkept⟩ := h₁
  have honly:=s₁.dropSuci_namesOnly u
  have htake:=(s₁.dropSuci u).takeSuci_poolKept u a
  have hpool:=honly.poolKept.trans htake
  have hsess : s₁.SessKept ((s₁.dropSuci u).takeSuci u a) :=
    honly.sessKept.trans ⟨rfl,rfl,rfl,rfl⟩
  refine ⟨hfound₁.kept hpool,lists',?_,?_,?_⟩
  · rw [hpool.list]
    exact howned.kept hsess hpool.find
  · rw [hpool.list]
    exact hu₁
  · rw [hpool.list]
    exact hkept

end Ues

def UeOp.addedId (s : Ues) : UeOp → Option Nat
  | .amfUeAdd true _ => s.amfUePool.idCalloc.2.map Prod.snd
  | _ => none

def UeOp.taker (s : Ues) : UeOp → Option Nat
  | .setSuci u _ (some x) => if (s.amfUeFindBySuci x).any (· ≠ u) then some u else none
  | _ => none

/-- A takeover is into a UE without sessions, and no UE is added under the id of another. -/
def UeOp.KeepsSessions (s : Ues) (op : UeOp) : Prop :=
  (∀ u∈op.taker s,s.sessList u=Head.empty) ∧
  ∀ id∈op.addedId s,∀ u∈s.amfUeList,(s.amfUe u).id≠id

instance (s : Ues) (op : UeOp) : Decidable (op.KeepsSessions s) :=
  inferInstanceAs (Decidable (_ ∧ _))

theorem UeOp.KeepsSessions.into {s : Ues} {u a : Nat} {suci : Option IdStr}
    (h : (UeOp.setSuci u a suci).KeepsSessions s) (x : IdStr) (old : Nat) (hx : suci=some x)
    (hold : s.amfUeFindBySuci x=some old) (hne : old≠u) : s.sessList u=Head.empty := by
  subst hx
  apply h.1 u
  simp [taker,hold,hne]

namespace Ues

variable {s t : Ues} {u a : Nat}

namespace Owned

theorem setSupi {supi : Option IdStr} (h : s.Owned)
    (ht : s.amfUeSetSupi u a supi=some (.ok t ())) : t.Owned := by
  obtain ⟨x,rfl,hfree,rfl⟩ := amfUeSetSupi_ok ht
  have honly:=s.dropSupi_namesOnly u
  have hstore : (s.dropSupi u).PoolKept ((s.dropSupi u).store a x) := ⟨rfl,rfl,fun _ => rfl⟩
  have htake:=((s.dropSupi u).store a x).takeSupi_poolKept u a
  have hpool:=honly.poolKept.trans (hstore.trans htake)
  exact h.kept hpool (honly.sessKept.trans ⟨rfl,rfl,rfl,rfl⟩)

theorem amfUeAdd (h : s.Owned) (hs : s.Pooled) {gnb timers : Bool}
    (hfresh : ∀ id ∈ (UeOp.amfUeAdd gnb timers).addedId s,
      ∀ u∈s.amfUeList,(s.amfUe u).id≠id) : (s.amfUeAdd gnb timers).1.Owned := by
  cases gnb with
  | false => exact h
  | true =>
    obtain ⟨q,hsplit⟩ := hs.pool
    obtain ⟨lists,howned⟩ := h.sessions
    have hid : q≠[] → ∀ u∈s.amfUeList,(s.amfUe u).id≠nextId s.amfUePool.id 1 maxPoolId := by
      intro hq
      apply hfresh
      cases q with
      | nil => exact absurd rfl hq
      | cons w q =>
        obtain ⟨pool,hcalloc,-⟩ := hsplit.idCalloc
        simp [UeOp.addedId,hcalloc]
    rcases amfUeAdd_cases hsplit true timers with
      ⟨pool,-,-,-,-,hfind,heq⟩ | ⟨w,pool,q',hw,hsplit',hsize,hhash,heq⟩
    · have hfind' : ∀ u∈s.amfUeList,pool.findById (s.amfUe u).id =
          s.amfUeFindById (s.amfUe u).id := by
        intro u hu
        apply hfind
        by_cases hq : q=[]
        · exact .inr hq
        · exact .inl (hid hq u hu)
      rw [heq]
      refine ⟨fun u hu => (hfind' u hu).trans (h.found u hu),lists,?_⟩
      refine ⟨howned.family,?_,howned.pool⟩
      intro u hu n hn
      have hnamed:=howned.named u hu n hn
      rw [← (hs.ids _ u hnamed).2]
      exact (hfind' u hu).trans (h.found u hu)
    · have hq : q≠[] := by
        rintro rfl
        have hlen:=hsplit.length_add
        have hlen':=hsplit'.length_add
        simp only [length_append,length_cons,length_nil] at hlen hlen'
        omega
      have hne : ∀ u∈s.amfUeList,u≠w := fun u hu he => hw (he ▸ hu)
      have hfind : ∀ id,∀ u∈s.amfUeList,s.amfUeFindById id=some u →
          pool.findById id=some u := by
        intro id u hu hfound
        have hne' : id≠nextId s.amfUePool.id 1 maxPoolId := by
          rw [← (hs.ids id u hfound).2]
          exact hid hq u hu
        rw [Pool.findById,hhash,update_of_ne hne']
        exact hfound
      rw [heq]
      refine ⟨?_,_,howned.join hw ?_ rfl rfl rfl rfl hfind⟩
      · intro u hu
        rcases mem_append.mp hu with hu | hu
        · simp only [update_of_ne (hne u hu)]
          exact hfind _ u hu (h.found u hu)
        · obtain rfl := mem_singleton.mp hu
          simp only [update_self]
          rw [amfUeFindById,Pool.findById,hhash]
          exact update_self ..
      · intro u
        rw [mem_append,mem_singleton,or_comm]

theorem step {op : UeOp} (h : s.Owned) (hs : s.Indexed) (hkeeps : op.KeepsSessions s)
    (hstep : s.step op=some (.ok t ())) : t.Owned := by
  unfold Ues.step at hstep
  split at hstep
  case isFalse => cases hstep
  case isTrue honLive =>
    obtain ⟨lists,howned⟩ := h.sessions
    cases op with
    | ranUeAdd gnbId ostreams ngapId timer =>
      obtain ⟨r,hadd⟩ := call_ranUeAdd hstep
      have honly:=ranUeAdd_ok hadd
      exact h.kept honly.poolKept honly.sessKept
    | ranUeRemove r =>
      cases hstep
      have honly:=s.ranUeRemove_ranUesOnly r
      exact h.kept honly.poolKept honly.sessKept
    | amfUeAdd gnb timers =>
      cases hstep
      exact h.amfUeAdd hs.toPooled hkeeps.2
    | amfUeRemove u =>
      obtain ⟨s₁,hs₁,ho⟩ := map_eq_some_iff.mp hstep
      obtain rfl := (Outcome.ok.inj ho).1
      obtain ⟨hfound,hsessions⟩ :=
        howned.amfUeRemove hs h.found (by simpa [onLive] using honLive) hs₁
      exact ⟨hfound,_,hsessions⟩
    | setSuci u a suci =>
      obtain ⟨hfound,lists',hsessions,-⟩ := howned.setSuci hs h.found
        (by simpa [onLive] using honLive) hkeeps.into hstep
      exact ⟨hfound,lists',hsessions⟩
    | setSupi u a supi => exact h.setSupi hstep
    | setGuami u guami =>
      cases hstep
      exact h.kept (s.modifyUe_poolKept (f := fun ue => { ue with guami := guami })
        (fun _ => rfl) u) ⟨rfl,rfl,rfl,rfl⟩
    | newGuti u =>
      rcases amfUeNewGuti_ok (some.inj hstep) with rfl | ⟨s₁,next,honly,rfl⟩
      · exact h
      · have hpool:=honly.poolKept.trans (s₁.modifyUe_poolKept
          (f := fun ue => { ue with next := next }) (fun _ => rfl) u)
        exact h.kept hpool (honly.sessKept.trans ⟨rfl,rfl,rfl,rfl⟩)
    | confirmGuti u =>
      obtain ⟨-,rfl⟩ := amfUeConfirmGuti_ok (some.inj hstep)
      have honly:=s.dropCurrentGuti_gutisOnly u
      obtain ⟨hpool,-⟩ := (s.dropCurrentGuti u).takeNext_kept u
      exact h.kept (honly.poolKept.trans hpool) (honly.sessKept.trans ⟨rfl,rfl,rfl,rfl⟩)
    | sessAdd u psi =>
      have hadd:=some.inj hstep
      have hu : u∈s.amfUeList := by simpa [onLive] using honLive
      have hpool:=(amfSessAdd_ok hadd).poolKept
      obtain ⟨n,hsessions⟩ := howned.sessAdd hu (h.found u hu) hadd
      exact ⟨h.found.kept hpool,_,hpool.list ▸ hsessions⟩
    | sessRemove n =>
      cases hstep
      have hn : s.sessPool.index n=some n := by simpa [onLive] using honLive
      obtain ⟨u,hu,hmem⟩ := howned.index.mp hn
      have hpool:=(s.amfSessRemove_sessionsOnly n).poolKept
      exact ⟨h.found.kept hpool,_,hpool.list.symm ▸ howned.sessRemove hu hmem⟩
    | associateRanUe u r =>
      cases hstep
      have hpool:=s.modifyUe_poolKept (f := fun ue => { ue with ranUeId := (s.ranUe r).id })
        (fun _ => rfl) u
      exact h.kept ⟨hpool.pool,hpool.list,hpool.id⟩ ⟨rfl,rfl,rfl,rfl⟩
    | ranUeDeassociate r =>
      cases hstep
      exact h.kept ⟨rfl,rfl,fun _ => rfl⟩ ⟨rfl,rfl,rfl,rfl⟩
    | amfUeDeassociate u =>
      cases hstep
      exact h.kept (s.modifyUe_poolKept (f := fun ue => { ue with ranUeId := 0 })
        (fun _ => rfl) u) ⟨rfl,rfl,rfl,rfl⟩
    | associateTargetUe source target =>
      cases hstep
      exact h.kept ⟨rfl,rfl,fun _ => rfl⟩ ⟨rfl,rfl,rfl,rfl⟩
    | deassociateTargetUe r =>
      have honly:=sourceUeDeassociateTargetUe_ranUesOnly (some.inj hstep)
      exact h.kept honly.poolKept honly.sessKept
    | releaseCommand r action =>
      cases hstep
      exact h.kept ⟨rfl,rfl,fun _ => rfl⟩ ⟨rfl,rfl,rfl,rfl⟩
    | releaseAction r =>
      have hranUe:=s.ranUeRemove_ranUesOnly r
      rcases ueContextReleaseAction_ok hstep with ⟨-,honly⟩ | ⟨-,w,-,rfl⟩ |
        ⟨-,w,hfind,hremove⟩
      · exact h.kept honly.poolKept honly.sessKept
      · have hpool:=(s.ranUeRemove r).modifyUe_poolKept
          (f := fun ue => { ue with ranUeId := 0 }) (fun _ => rfl) w
        exact h.kept (hranUe.poolKept.trans hpool) (hranUe.sessKept.trans ⟨rfl,rfl,rfl,rfl⟩)
      · have hpool:=hranUe.poolKept
        have hlists : OwnedBy (s.ranUeRemove r).amfUeList lists (s.ranUeRemove r) :=
          howned.kept hranUe.sessKept hpool.find
        obtain ⟨hfound,hsessions⟩ := hlists.amfUeRemove
          (hs.kept hpool hranUe.namesKept).1 (h.found.kept hpool) (hs.ids _ w hfind).1 hremove
        exact ⟨hfound,_,hsessions⟩

end Owned

def OnList (s : Ues) (u n : Nat) : Prop := ∃ l,Chained s.sessLinks (s.sessList u) l ∧ n∈l

structure SessionsRight (s : Ues) : Prop where
  owner : ∀ n,s.sessPool.index n=some n → ∃ u ∈ s.amfUeList,
    s.amfUeFindById (s.sess n).amfUeId=some u ∧ s.OnList u n ∧
      ∀ w∈s.amfUeList,s.OnList w n → w=u
  formed : ∀ u∈s.amfUeList,∃ l,Chained s.sessLinks (s.sessList u) l ∧
    ∀ n∈l,s.sessPool.index n=some n
  removed : ∀ u∈s.amfUeList,(s.amfUeRemove u).isSome

/-- What was on a list is in use, and on the same list or on that of UE `u`. -/
def NoneLost (u : Nat) (s t : Ues) : Prop :=
  ∀ w∈s.amfUeList,∀ n,s.OnList w n → t.sessPool.index n=some n ∧
    (w∈t.amfUeList ∧ t.OnList w n ∨ u∈t.amfUeList ∧ t.OnList u n)

theorem OwnedBy.onList {lists : Nat → List Nat} {n : Nat} (h : OwnedBy s.amfUeList lists s)
    (hu : u∈s.amfUeList) : s.OnList u n ↔ n∈lists u := by
  have hchain:=h.family.chained u hu
  constructor
  · rintro ⟨l,hl,hn⟩
    rw [hchain.unique hl]
    exact hn
  · exact fun hn => ⟨_,hchain,hn⟩

theorem Owned.right (h : s.Owned) : s.SessionsRight := by
  obtain ⟨lists,howned⟩ := h.sessions
  refine ⟨?_,?_,fun u hu => howned.amfUeRemove_isSome hu⟩
  · intro n hn
    obtain ⟨u,hu,hmem⟩ := howned.index.mp hn
    refine ⟨u,hu,howned.named u hu n hmem,(howned.onList hu).mpr hmem,?_⟩
    intro w hw hon
    exact howned.family.apart w hw u hu n ((howned.onList hw).mp hon) hmem
  · intro u hu
    exact ⟨_,howned.family.chained u hu,fun n hn => howned.index.mpr ⟨u,hu,hn⟩⟩

theorem Owned.noneLost {suci : Option IdStr} (h : s.Owned) (hs : s.Indexed)
    (hkeeps : (UeOp.setSuci u a suci).KeepsSessions s)
    (hstep : s.step (.setSuci u a suci)=some (.ok t ())) : NoneLost u s t := by
  unfold Ues.step at hstep
  split at hstep
  case isFalse => cases hstep
  case isTrue honLive =>
    obtain ⟨lists,howned⟩ := h.sessions
    obtain ⟨-,lists',hsessions,hu,hkept⟩ := howned.setSuci hs h.found
      (by simpa [onLive] using honLive) hkeeps.into hstep
    intro w hw n hon
    rcases hkept w hw n ((howned.onList hw).mp hon) with ⟨hw',hn⟩ | hn
    · exact ⟨hsessions.index.mpr ⟨w,hw',hn⟩,.inl ⟨hw',(hsessions.onList hw').mpr hn⟩⟩
    · exact ⟨hsessions.index.mpr ⟨u,hu,hn⟩,.inr ⟨hu,(hsessions.onList hu).mpr hn⟩⟩

theorem Owned.init (config : UeConfig) (s : Ues) : (init config s).Owned where
  found := by
    intro u hu
    cases hu
  sessions := by
    refine ⟨fun _ => [],⟨?_,?_⟩,?_,_,_,Pool.split_init _,?_⟩
    · intro u hu
      cases hu
    · intro u hu
      cases hu
    · intro u hu
      cases hu
    · intro n
      simp

end Ues

def UeOp.LosesNone (s : Ues) (op : UeOp) (o : Outcome Ues Unit) : Prop :=
  ∀ u a suci t,op = .setSuci u a suci → o = .ok t () → Ues.NoneLost u s t

theorem sessions_run (config : UeConfig) (s : Ues) (ops : List UeOp)
    (h : EachStep Ues.step UeOp.KeepsSessions (Ues.init config s) ops) :
    (∀ t∈completed Ues.step (Ues.init config s) ops,t.SessionsRight) ∧
    EachOutcome Ues.step UeOp.LosesNone (Ues.init config s) ops := by
  have hinit : (Ues.init config s).Indexed ∧ (Ues.init config s).Owned :=
    ⟨Ues.Indexed.init config s,Ues.Owned.init config s⟩
  constructor
  · have hinv : ∀ t∈completed Ues.step (Ues.init config s) ops,t.Indexed ∧ t.Owned :=
      completed_inv (fun s op t r hs hkeeps ho =>
        ⟨(hs.1.step ho).1,hs.2.step hs.1 hkeeps ho⟩) hinit h
    exact fun t ht => (hinv t ht).2.right
  · have hstep : ∀ (s : Ues) (op : UeOp) (o : Outcome Ues Unit),s.Indexed ∧ s.Owned →
        op.KeepsSessions s → s.step op=some o →
          op.LosesNone s o ∧ o.Leaves (fun t => t.Indexed ∧ t.Owned) fun _ => True := by
      intro s op o hs hkeeps ho
      constructor
      · rintro u a suci t rfl rfl
        exact hs.2.noneLost hs.1 hkeeps ho
      · cases o with
        | ok t r => exact ⟨(hs.1.step ho).1,hs.2.step hs.1 hkeeps ho⟩
        | abort t => trivial
    exact eachOutcome_inv hstep hinit h

def movedSessions : List UeOp :=
  [.amfUeAdd true true,.amfUeAdd true true,.setSuci 0 8 (some suci1),.sessAdd 0 5,
    .sessAdd 0 6,.setSuci 1 9 (some suci1),.sessRemove 0]

def afterMovedSessions : Ues := ((completed Ues.step ues2 movedSessions)[7]?).getD ues2

theorem sessions_run_moved : afterMovedSessions.sessList 1=⟨some 1,some 1⟩ ∧
    afterMovedSessions.SessionsRight ∧ EachOutcome Ues.step UeOp.LosesNone ues2 movedSessions := by
  have hrun:=sessions_run ueConfig2 ues2 movedSessions (by decide)
  exact ⟨by decide,hrun.1 afterMovedSessions (List.mem_of_getElem? (i := 7) rfl),hrun.2⟩

def takenOver : List UeOp :=
  [.amfUeAdd true true,.amfUeAdd true true,.setSuci 0 8 (some suci1),.sessAdd 1 5,
    .setSuci 1 9 (some suci1)]

def runTakenOver : List Ues := completed Ues.step ues2 takenOver

def afterTakenOver : Ues := (runTakenOver[5]?).getD ues2

theorem session_lost : ¬ ∀ t∈runTakenOver,t.SessionsRight := by
  intro h
  have hright:=h afterTakenOver (List.mem_of_getElem? (i := 5) rfl)
  have hlist : afterTakenOver.amfUeList=[1] := by decide
  have hindex : afterTakenOver.sessPool.index 0=some 0 := by decide
  have hhead : afterTakenOver.sessList 1=Head.empty := by decide
  obtain ⟨u,hu,-,⟨l,hl,hn⟩,-⟩ := hright.owner 0 hindex
  rw [hlist] at hu
  obtain rfl := mem_singleton.mp hu
  rw [hhead] at hl
  have hempty : l=[] := List.head?_eq_none_iff.mp hl.first.symm
  rw [hempty] at hn
  cases hn

end OgsDp.Amf
