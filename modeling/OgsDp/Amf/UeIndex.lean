import OgsDp.Amf.NameTable

/-!
# The SUCI and SUPI indexes (src/amf/context.c)

No two UEs have one SUCI, since the older context is released first, so that every SUCI leads to
its UE.
-/

namespace OgsDp.Amf
open Lib RefTable OgsDp.Core Function List Option

namespace Ues

def suciOf (s : Ues) (u : Nat) : Option Nat := (s.amfUe u).suci

def supiOf (s : Ues) (u : Nat) : Option Nat := (s.amfUe u).supi

def suciKey (s : Ues) : Nat → Option (List Byte) := keyOf s.str s.suciOf

def supiKey (s : Ues) : Nat → Option (List Byte) := keyOf s.str s.supiOf

def HasSuci (s : Ues) : List Byte → Prop := Has s.suciSeed s.str s.suciHash

def HasSupi (s : Ues) : List Byte → Prop := Has s.supiSeed s.str s.supiHash

structure Pooled (s : Ues) : Prop where
  pool : ∃ q,Pool.Split s.amfUePool q s.amfUeList
  ids : ∀ id u,s.amfUeFindById id=some u → u∈s.amfUeList ∧ (s.amfUe u).id=id

/-- `us` are the UEs whose SUCI counts, and `vs` those whose SUPI counts. -/
structure Names (s : Ues) (us vs : List Nat) : Prop where
  suci : NameTable s.suciSeed s.str s.suciHash s.suciOf us
  supi : NameTable s.supiSeed s.str s.supiHash s.supiOf vs
  found : ∀ u∈us,∀ k,s.suciKey u=some k → s.HasSuci k
  distinct : ∀ u∈us,∀ w∈us,∀ k,s.suciKey u=some k → s.suciKey w=some k → u=w
  apart : ∀ u∈us,∀ w∈vs,∀ a,s.suciOf u=some a → s.supiOf w≠some a

structure Indexed (s : Ues) : Prop extends Pooled s where
  names : s.Names s.amfUeList s.amfUeList

def SupiFound (s : Ues) : Prop := ∀ u∈s.amfUeList,∀ k,s.supiKey u=some k → s.HasSupi k

def SupiAlone (s : Ues) (u : Nat) : Prop :=
  ∀ k,s.supiKey u=some k → ∀ w∈s.amfUeList,w≠u → s.supiKey w≠some k

variable {s t : Ues} {us us' vs vs' : List Nat} {u a : Nat} {x : IdStr}

structure NamesKept (s t : Ues) : Prop where
  str : t.str=s.str
  suciHash : t.suciHash=s.suciHash
  supiHash : t.supiHash=s.supiHash
  suciSeed : t.suciSeed=s.suciSeed
  supiSeed : t.supiSeed=s.supiSeed
  suciOf : t.suciOf=s.suciOf
  supiOf : t.supiOf=s.supiOf

namespace NamesKept

theorem trans {s₁ s₂ s₃ : Ues} (h : s₁.NamesKept s₂) (h' : s₂.NamesKept s₃) :
    s₁.NamesKept s₃ where
  str := h'.str.trans h.str
  suciHash := h'.suciHash.trans h.suciHash
  supiHash := h'.supiHash.trans h.supiHash
  suciSeed := h'.suciSeed.trans h.suciSeed
  supiSeed := h'.supiSeed.trans h.supiSeed
  suciOf := h'.suciOf.trans h.suciOf
  supiOf := h'.supiOf.trans h.supiOf

theorem suciKey (h : s.NamesKept t) : t.suciKey=s.suciKey := by
  rw [Ues.suciKey,Ues.suciKey,h.str,h.suciOf]

theorem supiKey (h : s.NamesKept t) : t.supiKey=s.supiKey := by
  rw [Ues.supiKey,Ues.supiKey,h.str,h.supiOf]

theorem hasSupi (h : s.NamesKept t) : t.HasSupi=s.HasSupi := by
  rw [HasSupi,HasSupi,h.str,h.supiSeed,h.supiHash]

theorem names (h : s.NamesKept t) (hn : s.Names us vs) : t.Names us vs where
  suci := by
    rw [h.suciSeed,h.str,h.suciHash,h.suciOf]
    exact hn.suci
  supi := by
    rw [h.supiSeed,h.str,h.supiHash,h.supiOf]
    exact hn.supi
  found := by
    rw [h.suciKey,HasSuci,h.str,h.suciSeed,h.suciHash]
    exact hn.found
  distinct := by
    rw [h.suciKey]
    exact hn.distinct
  apart := by
    rw [h.suciOf,h.supiOf]
    exact hn.apart

end NamesKept

theorem SessionsOnly.namesKept (h : s.SessionsOnly t) : s.NamesKept t := by
  obtain ⟨pool,sess,links,list,rfl⟩ := h
  exact ⟨rfl,rfl,rfl,rfl,rfl,rfl,rfl⟩

theorem RanUesOnly.namesKept (h : s.RanUesOnly t) : s.NamesKept t := by
  obtain ⟨pool,ranUe,rfl⟩ := h
  exact ⟨rfl,rfl,rfl,rfl,rfl,rfl,rfl⟩

theorem GutisOnly.namesKept (h : s.GutisOnly t) : s.NamesKept t := by
  obtain ⟨pool,mTmsi,hash,rfl⟩ := h
  exact ⟨rfl,rfl,rfl,rfl,rfl,rfl,rfl⟩

variable (s) in
theorem modifyUe_namesKept {f : AmfUe → AmfUe} (hsuci : ∀ ue,(f ue).suci=ue.suci)
    (hsupi : ∀ ue,(f ue).supi=ue.supi) (u : Nat) : s.NamesKept (s.modifyUe u f) where
  str := rfl
  suciHash := rfl
  supiHash := rfl
  suciSeed := rfl
  supiSeed := rfl
  suciOf := funext (modifyUe_field AmfUe.suci hsuci)
  supiOf := funext (modifyUe_field AmfUe.supi hsupi)

variable (s) in
theorem amfUeDeassociate_namesKept (u : Nat) : s.NamesKept (s.amfUeDeassociate u) := by
  apply modifyUe_namesKept
  · intro ue
    rfl
  · intro ue
    rfl

namespace Names

theorem dropSuci (h : s.Names us vs) (hu : u∈us) (hus : ∀ w,w∈us' ↔ w∈us ∧ w≠u) :
    (s.dropSuci u).Names us' vs ∧ (∀ k,(s.dropSuci u).HasSupi k ↔ s.HasSupi k) ∧
      (∀ w∈us',(s.dropSuci u).suciKey w=s.suciKey w) ∧
      (∀ w∈vs,(s.dropSuci u).supiKey w=s.supiKey w) ∧
      ∀ b,s.suciOf u≠some b → (s.dropSuci u).str b=s.str b := by
  unfold Ues.dropSuci
  cases ha : (s.amfUe u).suci with
  | none =>
    refine ⟨⟨?_,h.supi,?_,?_,?_⟩,fun _ => Iff.rfl,fun _ _ => rfl,fun _ _ => rfl,
      fun _ _ => rfl⟩
    · refine (h.suci.congr ?_ ?_ (fun _ _ => rfl) fun _ _ _ _ => rfl).1
      · intro w hw
        by_cases hwu : w=u
        · subst hwu
          exact .inr ha
        · exact .inl ((hus w).mpr ⟨hw,hwu⟩)
      · exact fun w hw => .inl ((hus w).mp hw).1
    · exact fun w hw => h.found w ((hus w).mp hw).1
    · exact fun w hw v hv => h.distinct w ((hus w).mp hw).1 v ((hus v).mp hv).1
    · exact fun w hw => h.apart w ((hus w).mp hw).1
  | some a =>
    obtain ⟨hsuci,hhas,hkey⟩ := h.suci.drop hu ha hus
    have hsupiStr : ∀ w∈vs,∀ b,s.supiOf w=some b → update s.str a none b=s.str b := by
      intro w hw b hb
      have hba : b≠a := by
        rintro rfl
        exact h.apart u hu w hw b ha hb
      exact update_of_ne hba _ _
    obtain ⟨hsupi,hget⟩ := h.supi.congr (fun w hw => .inl hw) (fun w hw => .inl hw)
      (fun _ _ => rfl) hsupiStr
    refine ⟨⟨hsuci,hsupi,?_,?_,?_⟩,?_,hkey,?_,?_⟩
    · intro w hw k hk
      obtain ⟨hmem,hwu⟩ := (hus w).mp hw
      have hk' : s.suciKey w=some k := (hkey w hw).symm.trans hk
      refine (hhas k).mpr ⟨?_,h.found w hmem k hk'⟩
      rintro rfl
      refine hwu (h.distinct w hmem u hu _ hk' ?_)
      simp [suciKey,keyOf,suciOf,ha]
    · intro w hw v hv k hk hk'
      exact h.distinct w ((hus w).mp hw).1 v ((hus v).mp hv).1 k ((hkey w hw).symm.trans hk)
        ((hkey v hv).symm.trans hk')
    · exact fun w hw => h.apart w ((hus w).mp hw).1
    · intro k
      exact iff_of_eq (congrArg (fun o : Option Nat => (o.isSome : Prop)) (hget k))
    · intro w hw
      exact keyOf_congr rfl (hsupiStr w hw)
    · intro b hb
      have hba : b≠a := by
        rintro rfl
        exact hb ha
      exact update_of_ne hba _ _

theorem dropSupi (h : s.Names us vs) (hu : u∈vs) (hvs : ∀ w,w∈vs' ↔ w∈vs ∧ w≠u) :
    (s.dropSupi u).Names us vs' ∧
      (∀ k,(s.dropSupi u).HasSupi k ↔ s.supiKey u≠some k ∧ s.HasSupi k) ∧
      (∀ w∈us,(s.dropSupi u).suciKey w=s.suciKey w) ∧
      (∀ w∈vs',(s.dropSupi u).supiKey w=s.supiKey w) ∧
      ∀ b,s.supiOf u≠some b → (s.dropSupi u).str b=s.str b := by
  unfold Ues.dropSupi
  cases ha : (s.amfUe u).supi with
  | none =>
    refine ⟨⟨h.suci,?_,h.found,h.distinct,?_⟩,?_,fun _ _ => rfl,fun _ _ => rfl,
      fun _ _ => rfl⟩
    · refine (h.supi.congr ?_ ?_ (fun _ _ => rfl) fun _ _ _ _ => rfl).1
      · intro w hw
        by_cases hwu : w=u
        · subst hwu
          exact .inr ha
        · exact .inl ((hvs w).mpr ⟨hw,hwu⟩)
      · exact fun w hw => .inl ((hvs w).mp hw).1
    · exact fun w hw v hv => h.apart w hw v ((hvs v).mp hv).1
    · intro k
      simp [supiKey,keyOf,supiOf,ha]
  | some a =>
    obtain ⟨hsupi,hhas,hkey⟩ := h.supi.drop hu ha hvs
    have hsuciStr : ∀ w∈us,∀ b,s.suciOf w=some b →
        update s.str a none b=s.str b := by
      intro w hw b hb
      have hba : b≠a := by
        rintro rfl
        exact h.apart w hw u hu b hb ha
      exact update_of_ne hba _ _
    obtain ⟨hsuci,hget⟩ := h.suci.congr (fun w hw => .inl hw) (fun w hw => .inl hw)
      (fun _ _ => rfl) hsuciStr
    have hsuciKey : ∀ w∈us,keyOf (update s.str a none) s.suciOf w=s.suciKey w :=
      fun w hw => keyOf_congr rfl (hsuciStr w hw)
    refine ⟨⟨hsuci,hsupi,?_,?_,?_⟩,?_,hsuciKey,hkey,?_⟩
    · intro w hw k hk
      have hhas':=h.found w hw k ((hsuciKey w hw).symm.trans hk)
      unfold HasSuci Has at hhas' ⊢
      exact (hget k).symm ▸ hhas'
    · intro w hw v hv k hk hk'
      exact h.distinct w hw v hv k ((hsuciKey w hw).symm.trans hk) ((hsuciKey v hv).symm.trans hk')
    · exact fun w hw v hv => h.apart w hw v ((hvs v).mp hv).1
    · intro k
      have hself : s.supiKey u≠some k ↔ k≠heapBytes s.str a := by
        simp [supiKey,keyOf,supiOf,ha,eq_comm]
      rw [hself]
      exact hhas k
    · intro b hb
      have hba : b≠a := by
        rintro rfl
        exact hb ha
      exact update_of_ne hba _ _

end Names

theorem Pooled.mem_erase (h : s.Pooled) {w : Nat} :
    w∈s.amfUeList.erase u ↔ w∈s.amfUeList ∧ w≠u := by
  obtain ⟨q,hs⟩ := h.pool
  rw [hs.live_nodup.mem_erase_iff,and_comm]

structure PoolKept (s t : Ues) : Prop where
  pool : t.amfUePool=s.amfUePool
  list : t.amfUeList=s.amfUeList
  id : ∀ u,(t.amfUe u).id=(s.amfUe u).id

theorem PoolKept.trans {s₁ s₂ s₃ : Ues} (h : s₁.PoolKept s₂) (h' : s₂.PoolKept s₃) :
    s₁.PoolKept s₃ where
  pool := h'.pool.trans h.pool
  list := h'.list.trans h.list
  id := fun u => (h'.id u).trans (h.id u)

theorem Pooled.kept (h : s.Pooled) (hkept : s.PoolKept t) : t.Pooled where
  pool := by
    rw [hkept.pool,hkept.list]
    exact h.pool
  ids := by
    intro id u hfind
    rw [amfUeFindById,hkept.pool] at hfind
    rw [hkept.list,hkept.id]
    exact h.ids id u hfind

theorem Indexed.kept (h : s.Indexed) (hpool : s.PoolKept t) (hnames : s.NamesKept t) :
    t.Indexed ∧ (t.SupiFound ↔ s.SupiFound) := by
  refine ⟨⟨h.toPooled.kept hpool,?_⟩,?_⟩
  · rw [hpool.list]
    exact hnames.names h.names
  · unfold SupiFound
    rw [hpool.list,hnames.supiKey,hnames.hasSupi]

structure Removed (s t : Ues) (u : Nat) : Prop where
  list : t.amfUeList=s.amfUeList.erase u
  pool : t.amfUePool=s.amfUePool.idFree u (s.amfUe u).id
  ue : ∀ w ≠ u,t.amfUe w=s.amfUe w
  hasSupi : ∀ k,t.HasSupi k ↔ s.supiKey u≠some k ∧ s.HasSupi k
  suciKey : ∀ w∈t.amfUeList,t.suciKey w=s.suciKey w
  supiKey : ∀ w∈t.amfUeList,t.supiKey w=s.supiKey w
  str : ∀ b,s.suciOf u≠some b → s.supiOf u≠some b → t.str b=s.str b
  seeds : t.suciSeed=s.suciSeed ∧ t.supiSeed=s.supiSeed

theorem Pooled.removed (h : s.Pooled) (hu : u∈s.amfUeList) (hr : s.Removed t u)
    (hid : (t.amfUe u).id=(s.amfUe u).id) : t.Pooled where
  pool := by
    obtain ⟨q,hs⟩ := h.pool
    rw [hr.pool,hr.list]
    exact ⟨_,hs.idFree hu _⟩
  ids := by
    intro id w hfind
    rw [amfUeFindById,hr.pool,Pool.findById,Pool.idFree_idHash,update_apply] at hfind
    split at hfind
    · cases hfind
    · rename_i hne
      obtain ⟨hw,hwid⟩ := h.ids id w hfind
      have hwu : w≠u := by
        rintro rfl
        exact hne hwid.symm
      rw [hr.list,h.mem_erase,hr.ue w hwu]
      exact ⟨⟨hw,hwu⟩,hwid⟩

theorem Indexed.remove (h : s.Indexed) (hu : u∈s.amfUeList) (hr : s.amfUeRemove u=some t) :
    t.Indexed ∧ s.Removed t u := by
  obtain ⟨s₁,hremove,rfl⟩ := amfUeRemove_ok hr
  have hs₁:=amfSessRemoveAll_sessionsOnly hremove
  have hgutis:=(s₁.dropCurrentGuti_gutisOnly u).trans (dropNextGuti_gutisOnly _ u)
  generalize (s₁.dropCurrentGuti u).dropNextGuti u=s₂ at hgutis ⊢
  have hkept : s.NamesKept s₂ := by
    have hlist : s.NamesKept { s with amfUeList := s.amfUeList.erase u } :=
      ⟨rfl,rfl,rfl,rfl,rfl,rfl,rfl⟩
    exact (hlist.trans hs₁.namesKept).trans hgutis.namesKept
  obtain ⟨hsuci,hhas,hkey,hkey',hstr⟩ :=
    (hkept.names h.names).dropSuci hu fun w => h.mem_erase (u := u)
  have honly:=s₂.dropSuci_namesOnly u
  have hof : (s₂.dropSuci u).supiOf=s₂.supiOf := by
    obtain ⟨str,suciHash,supiHash,heq⟩ := honly
    rw [heq]
    rfl
  generalize s₂.dropSuci u=s₃ at hsuci hhas hkey hkey' hstr honly hof ⊢
  obtain ⟨hsupi,hhas',hkey₂,hkey₂',hstr'⟩ := hsuci.dropSupi hu fun w => h.mem_erase (u := u)
  have honly':=honly.trans (s₃.dropSupi_namesOnly u)
  generalize s₃.dropSupi u=s₄ at hsupi hhas' hkey₂ hkey₂' hstr' honly' ⊢
  have hfree : s₄.NamesKept ((s₄.amfUeDeassociate u).amfUeFree u) := by
    have hdeassociate:=s₄.amfUeDeassociate_namesKept u
    exact hdeassociate.trans ⟨rfl,rfl,rfl,rfl,rfl,rfl,rfl⟩
  have hue : ∀ w ≠ u,((s₄.amfUeDeassociate u).amfUeFree u).amfUe w=s₄.amfUe w := by
    intro w hw
    simp [amfUeFree,amfUeDeassociate,modifyUe,hw]
  have hid : ((s₄.amfUeDeassociate u).amfUe u).id=(s₄.amfUe u).id := by
    simp [amfUeDeassociate,modifyUe]
  have hamf : s₄.amfUe=s.amfUe ∧ s₄.amfUeList=s.amfUeList.erase u ∧
      s₄.amfUePool=s.amfUePool ∧ s₄.suciSeed=s.suciSeed ∧ s₄.supiSeed=s.supiSeed := by
    obtain ⟨str,suciHash,supiHash,rfl⟩ := honly'
    obtain ⟨pool,mTmsi,hash,rfl⟩ := hgutis
    obtain ⟨pool',sess,links,list,rfl⟩ := hs₁
    exact ⟨rfl,rfl,rfl,rfl,rfl⟩
  obtain ⟨hamfUe,hlist,hpool,hseed,hseed'⟩ := hamf
  have hremoved : s.Removed ((s₄.amfUeDeassociate u).amfUeFree u) u := by
    refine ⟨hlist,?_,?_,?_,?_,?_,?_,hseed,hseed'⟩
    · show s₄.amfUePool.idFree u ((s₄.amfUeDeassociate u).amfUe u).id=_
      rw [hid,hpool,hamfUe]
    · intro w hw
      rw [hue w hw,hamfUe]
    · intro k
      rw [hfree.hasSupi,hhas',hhas,hkey' u hu,hkept.supiKey,hkept.hasSupi]
    · intro w hw
      have hmem : w∈s.amfUeList.erase u := hlist ▸ hw
      rw [hfree.suciKey,hkey₂ w hmem,hkey w hmem,hkept.suciKey]
    · intro w hw
      have hmem : w∈s.amfUeList.erase u := hlist ▸ hw
      rw [hfree.supiKey,hkey₂' w hmem,hkey' w (mem_of_mem_erase hmem),hkept.supiKey]
    · intro b hsuci' hsupi'
      rw [hfree.str,hstr' b,hstr b,hkept.str]
      · rw [hkept.suciOf]
        exact hsuci'
      · rw [hof,hkept.supiOf]
        exact hsupi'
  refine ⟨⟨h.toPooled.removed hu hremoved ?_,?_⟩,hremoved⟩
  · show ((s₄.amfUeDeassociate u).amfUe u).id=_
    rw [hid,hamfUe]
  · rw [hremoved.list]
    exact hfree.names hsupi

theorem Removed.supiFound (h : s.Pooled) (hr : s.Removed t u) (hfound : s.SupiFound) :
    t.SupiFound ↔ s.SupiAlone u := by
  constructor
  · intro hall k hk w hw hwu hwk
    have hmem : w∈t.amfUeList := by
      rw [hr.list,h.mem_erase]
      exact ⟨hw,hwu⟩
    have hhas:=hall w hmem k ((hr.supiKey w hmem).trans hwk)
    exact ((hr.hasSupi k).mp hhas).1 hk
  · intro halone w hw k hk
    have hmem:=hw
    rw [hr.list,h.mem_erase] at hmem
    rw [hr.supiKey w hw] at hk
    exact (hr.hasSupi k).mpr ⟨fun hu => halone k hu w hmem.1 hmem.2 hk,hfound w hmem.1 k hk⟩

theorem SessionsOnly.poolKept (h : s.SessionsOnly t) : s.PoolKept t := by
  obtain ⟨pool,sess,links,list,rfl⟩ := h
  exact ⟨rfl,rfl,fun _ => rfl⟩

theorem RanUesOnly.poolKept (h : s.RanUesOnly t) : s.PoolKept t := by
  obtain ⟨pool,ranUe,rfl⟩ := h
  exact ⟨rfl,rfl,fun _ => rfl⟩

theorem GutisOnly.poolKept (h : s.GutisOnly t) : s.PoolKept t := by
  obtain ⟨pool,mTmsi,hash,rfl⟩ := h
  exact ⟨rfl,rfl,fun _ => rfl⟩

theorem NamesOnly.poolKept (h : s.NamesOnly t) : s.PoolKept t := by
  obtain ⟨str,suciHash,supiHash,rfl⟩ := h
  exact ⟨rfl,rfl,fun _ => rfl⟩

variable (s) in
theorem modifyUe_poolKept {f : AmfUe → AmfUe} (hid : ∀ ue,(f ue).id=ue.id) (u : Nat) :
    s.PoolKept (s.modifyUe u f) :=
  ⟨rfl,rfl,modifyUe_field AmfUe.id hid⟩

theorem Indexed.takeOver {old : Nat} (h : s.Indexed) (hold : old∈s.amfUeList)
    (ht : s.takeOver u old=some t) : t.Indexed ∧ s.Removed t old := by
  obtain ⟨s₂,htake,hremove⟩ := takeOver_ok ht
  have hs₁:=s.implicitRelease_ranUesOnly old
  have hs₂:=takeSessions_sessionsOnly htake
  generalize s.implicitRelease old=s₁ at hs₁ hs₂
  have h₁:=(h.kept hs₁.poolKept hs₁.namesKept).1
  have h₂:=(h₁.kept hs₂.poolKept hs₂.namesKept).1
  have hold₂ : old∈s₂.amfUeList := by
    rw [hs₂.poolKept.list,hs₁.poolKept.list]
    exact hold
  obtain ⟨ht',hr⟩ := h₂.remove hold₂ hremove
  refine ⟨ht',?_⟩
  obtain ⟨pool,ranUe,rfl⟩ := hs₁
  obtain ⟨pool',sess,links,list,rfl⟩ := hs₂
  exact ⟨hr.list,hr.pool,hr.ue,hr.hasSupi,hr.suciKey,hr.supiKey,hr.str,hr.seeds⟩

namespace Names

theorem store (h : s.Names us vs) (hfree : s.str a=none) (x : IdStr) :
    (s.store a x).Names us vs ∧ (∀ k,(s.store a x).HasSupi k ↔ s.HasSupi k) ∧
      (∀ k,RefTable.get (s.store a x).suciKeys s.suciHash k =
        RefTable.get s.suciKeys s.suciHash k) ∧
      (∀ w∈us,(s.store a x).suciKey w=s.suciKey w ∧ s.suciOf w≠some a) ∧
      ∀ w∈vs,(s.store a x).supiKey w=s.supiKey w ∧ s.supiOf w≠some a := by
  have hsuciFree:=h.suci.not_name hfree
  have hsupiFree:=h.supi.not_name hfree
  have hstr : ∀ {name : Nat → Option Nat} {os : List Nat}, (∀ w∈os,name w≠some a) →
      ∀ w∈os,∀ b,name w=some b → (s.store a x).str b=s.str b := by
    intro name os hne w hw b hb
    have hba : b≠a := by
      rintro rfl
      exact hne w hw hb
    exact update_of_ne hba _ _
  obtain ⟨hsuci,hget⟩ := h.suci.congr (fun w hw => .inl hw) (fun w hw => .inl hw)
    (fun _ _ => rfl) (hstr hsuciFree)
  obtain ⟨hsupi,hget'⟩ := h.supi.congr (fun w hw => .inl hw) (fun w hw => .inl hw)
    (fun _ _ => rfl) (hstr hsupiFree)
  have hkey : ∀ w∈us,(s.store a x).suciKey w=s.suciKey w :=
    fun w hw => keyOf_congr rfl (hstr hsuciFree w hw)
  have hkey' : ∀ w∈vs,(s.store a x).supiKey w=s.supiKey w :=
    fun w hw => keyOf_congr rfl (hstr hsupiFree w hw)
  have hhas : ∀ k,(s.store a x).HasSuci k ↔ s.HasSuci k := fun k =>
    iff_of_eq (congrArg (fun o : Option Nat => (o.isSome : Prop)) (hget k))
  refine ⟨⟨hsuci,hsupi,?_,?_,h.apart⟩,?_,hget,fun w hw => ⟨hkey w hw,hsuciFree w hw⟩,
    fun w hw => ⟨hkey' w hw,hsupiFree w hw⟩⟩
  · intro w hw k hk
    exact (hhas k).mpr (h.found w hw k ((hkey w hw).symm.trans hk))
  · intro w hw v hv k hk hk'
    exact h.distinct w hw v hv k ((hkey w hw).symm.trans hk) ((hkey v hv).symm.trans hk')
  · intro k
    exact iff_of_eq (congrArg (fun o : Option Nat => (o.isSome : Prop)) (hget' k))

end Names

variable (s) in
theorem takeSuci_of (u a : Nat) : (s.takeSuci u a).supiOf=s.supiOf ∧
    (s.takeSuci u a).suciOf u=some a ∧
    ∀ w ≠ u,(s.takeSuci u a).suciOf w=s.suciOf w := by
  refine ⟨?_,?_,?_⟩
  · funext w
    by_cases hw : w=u
    · subst hw
      simp [takeSuci,supiOf,modifyUe]
    · simp [takeSuci,supiOf,modifyUe,hw]
  · simp [takeSuci,suciOf,modifyUe]
  · intro w hw
    simp [takeSuci,suciOf,modifyUe,hw]

variable (s) in
theorem takeSuci_poolKept (u a : Nat) : s.PoolKept (s.takeSuci u a) := by
  refine ⟨rfl,rfl,fun w => ?_⟩
  by_cases hw : w=u
  · subst hw
    simp [takeSuci,modifyUe]
  · simp [takeSuci,modifyUe,hw]

variable (s) in
theorem takeSupi_poolKept (u a : Nat) : s.PoolKept (s.takeSupi u a) := by
  refine ⟨rfl,rfl,fun w => ?_⟩
  by_cases hw : w=u
  · subst hw
    simp [takeSupi,modifyUe]
  · simp [takeSupi,modifyUe,hw]

variable (s) in
theorem takeSupi_of (u a : Nat) : (s.takeSupi u a).suciOf=s.suciOf ∧
    (s.takeSupi u a).supiOf u=some a ∧
    ∀ w ≠ u,(s.takeSupi u a).supiOf w=s.supiOf w := by
  refine ⟨?_,?_,?_⟩
  · funext w
    by_cases hw : w=u
    · subst hw
      simp [takeSupi,suciOf,modifyUe]
    · simp [takeSupi,suciOf,modifyUe,hw]
  · simp [takeSupi,supiOf,modifyUe]
  · intro w hw
    simp [takeSupi,supiOf,modifyUe,hw]

theorem Names.takeSuci (h : s.Names us vs) (hu : u∉us) (hx : s.str a=some x)
    (hfresh : ∀ w∈us,s.suciOf w≠some a) (hfresh' : ∀ w∈vs,s.supiOf w≠some a)
    (hnew : ∀ w∈us,s.suciKey w≠some x.1.bytes) (hus : ∀ w,w∈us' ↔ w=u ∨ w∈us) :
    (s.takeSuci u a).Names us' vs ∧ (s.takeSuci u a).HasSupi=s.HasSupi ∧
      (s.takeSuci u a).supiKey=s.supiKey := by
  obtain ⟨hsupiOf,hself,hother⟩ := s.takeSuci_of u a
  have hne : ∀ w∈us,w≠u := by
    rintro w hw rfl
    exact hu hw
  obtain ⟨hsuci,hhas⟩ := h.suci.add hx hfresh hself (fun w hw => hother w (hne w hw)) hus
  have hkey : (s.takeSuci u a).suciKey u=some x.1.bytes := by
    rw [suciKey,keyOf,hself,map_some]
    exact congrArg some (heapBytes_eq hx)
  have hkeys : ∀ w∈us,(s.takeSuci u a).suciKey w=s.suciKey w := by
    intro w hw
    exact keyOf_congr (hother w (hne w hw)) fun _ _ => rfl
  refine ⟨⟨hsuci,?_,?_,?_,?_⟩,rfl,?_⟩
  · rw [hsupiOf]
    exact h.supi
  · intro w hw k hk
    refine (hhas k).mpr ?_
    rcases (hus w).mp hw with rfl | hw
    · exact .inl (some.inj (hk.symm.trans hkey))
    · exact .inr (h.found w hw k ((hkeys w hw).symm.trans hk))
  · intro w hw v hv k hk hk'
    rcases (hus w).mp hw with rfl | hw
    · rcases (hus v).mp hv with rfl | hv
      · rfl
      · rw [hkeys v hv] at hk'
        exact absurd (hk'.trans (hk.symm.trans hkey)) (hnew v hv)
    · rw [hkeys w hw] at hk
      rcases (hus v).mp hv with rfl | hv
      · exact absurd (hk.trans (hk'.symm.trans hkey)) (hnew w hw)
      · exact h.distinct w hw v hv k hk ((hkeys v hv).symm.trans hk')
  · intro w hw v hv b hb
    rw [hsupiOf]
    rcases (hus w).mp hw with rfl | hw
    · obtain rfl : a=b := some.inj (hself.symm.trans hb)
      exact hfresh' v hv
    · exact h.apart w hw v hv b ((hother w (hne w hw)).symm.trans hb)
  · rw [supiKey,hsupiOf]
    rfl

theorem Names.takeSupi (h : s.Names us vs) (hu : u∉vs) (hx : s.str a=some x)
    (hfresh : ∀ w∈us,s.suciOf w≠some a) (hfresh' : ∀ w∈vs,s.supiOf w≠some a)
    (hvs : ∀ w,w∈vs' ↔ w=u ∨ w∈vs) :
    (s.takeSupi u a).Names us vs' ∧
      (∀ k,(s.takeSupi u a).HasSupi k ↔ k=x.1.bytes ∨ s.HasSupi k) ∧
      (s.takeSupi u a).supiKey u=some x.1.bytes ∧
      ∀ w ≠ u,(s.takeSupi u a).supiKey w=s.supiKey w := by
  obtain ⟨hsuciOf,hself,hother⟩ := s.takeSupi_of u a
  have hne : ∀ w∈vs,w≠u := by
    rintro w hw rfl
    exact hu hw
  obtain ⟨hsupi,hhas⟩ := h.supi.add hx hfresh' hself (fun w hw => hother w (hne w hw)) hvs
  have hsuciKey : (s.takeSupi u a).suciKey=s.suciKey := by
    rw [suciKey,hsuciOf]
    rfl
  refine ⟨⟨?_,hsupi,?_,?_,?_⟩,hhas,?_,?_⟩
  · rw [hsuciOf]
    exact h.suci
  · rw [hsuciKey]
    exact h.found
  · rw [hsuciKey]
    exact h.distinct
  · intro w hw v hv b hb
    rw [hsuciOf] at hb
    rcases (hvs v).mp hv with rfl | hv
    · intro hb'
      obtain rfl : a=b := some.inj (hself.symm.trans hb')
      exact hfresh w hw hb
    · rw [hother v (hne v hv)]
      exact h.apart w hw v hv b hb
  · rw [supiKey,keyOf,hself,map_some]
    exact congrArg some (heapBytes_eq hx)
  · intro w hw
    exact keyOf_congr (hother w hw) fun _ _ => rfl

theorem Indexed.store (h : s.Indexed) (hfree : s.str a=none) (x : IdStr) :
    (s.store a x).Indexed ∧ ((s.store a x).SupiFound ↔ s.SupiFound) := by
  obtain ⟨hnames,hhas,-,-,hsupi⟩ := h.names.store hfree x
  refine ⟨⟨h.toPooled.kept ⟨rfl,rfl,fun _ => rfl⟩,hnames⟩,?_⟩
  unfold SupiFound
  refine forall₂_congr fun w hw => forall_congr' fun k => ?_
  rw [(hsupi w hw).1,hhas]

theorem Indexed.renameSuci (h : s.Indexed) (hu : u∈s.amfUeList) (hx : s.str a=some x)
    (hfresh : ∀ w∈s.amfUeList,s.suciOf w≠some a)
    (hfresh' : ∀ w∈s.amfUeList,s.supiOf w≠some a)
    (hnew : ∀ w∈s.amfUeList,w≠u → s.suciKey w≠some x.1.bytes) :
    ((s.dropSuci u).takeSuci u a).Indexed ∧
      (((s.dropSuci u).takeSuci u a).SupiFound ↔ s.SupiFound) := by
  obtain ⟨hnames,hhas,hsuci,hsupi,hstr⟩ := h.names.dropSuci hu fun w => h.mem_erase (u := u)
  have honly:=s.dropSuci_namesOnly u
  generalize s.dropSuci u=s₁ at hnames hhas hsuci hsupi hstr honly ⊢
  have hof : s₁.suciOf=s.suciOf ∧ s₁.supiOf=s.supiOf := by
    obtain ⟨str,suciHash,supiHash,rfl⟩ := honly
    exact ⟨rfl,rfl⟩
  obtain ⟨hsuciOf,hsupiOf⟩ := hof
  have herase := fun w => h.mem_erase (u := u) (w := w)
  obtain ⟨hnames',hhas',hkey⟩ : (s₁.takeSuci u a).Names s.amfUeList s.amfUeList ∧
      (s₁.takeSuci u a).HasSupi=s₁.HasSupi ∧ (s₁.takeSuci u a).supiKey=s₁.supiKey := by
    apply hnames.takeSuci
    · exact fun hmem => ((herase u).mp hmem).2 rfl
    · rw [hstr a (hfresh u hu)]
      exact hx
    · intro w hw
      rw [hsuciOf]
      exact hfresh w ((herase w).mp hw).1
    · rw [hsupiOf]
      exact hfresh'
    · intro w hw
      rw [hsuci w hw]
      exact hnew w ((herase w).mp hw).1 ((herase w).mp hw).2
    · intro w
      rw [herase]
      by_cases hwu : w=u
      · simp [hwu,hu]
      · simp [hwu]
  have hpool:=honly.poolKept
  have hkept:=s₁.takeSuci_poolKept u a
  have hlist : (s₁.takeSuci u a).amfUeList=s.amfUeList := hkept.list.trans hpool.list
  refine ⟨⟨(h.toPooled.kept hpool).kept hkept,hlist ▸ hnames'⟩,?_⟩
  unfold SupiFound
  rw [hlist,hkey,hhas']
  refine forall₂_congr fun w hw => forall_congr' fun k => ?_
  rw [hsupi w hw,hhas]

theorem Indexed.setSuci {suci : Option IdStr} (h : s.Indexed) (hu : u∈s.amfUeList)
    (ht : s.amfUeSetSuci u a suci=some (.ok t ())) :
    t.Indexed ∧ (s.SupiFound → (t.SupiFound ↔
      ∀ x old,suci=some x → s.amfUeFindBySuci x=some old → old≠u → s.SupiAlone old)) := by
  obtain ⟨x,s₁,rfl,hfree,rfl,htaken⟩ := amfUeSetSuci_ok ht
  obtain ⟨h₀,hfound₀⟩ := h.store hfree x
  obtain ⟨-,-,hget,hsuci₀,hsupi₀⟩ := h.names.store hfree x
  have hfind : (s.store a x).amfUeFindBySuci x=s.amfUeFindBySuci x := hget _
  have hstr : (s.store a x).str a=some x := update_self ..
  have hother : ∀ w∈s.amfUeList,(s.store a x).suciKey w=some x.1.bytes →
      (s.store a x).amfUeFindBySuci x=some w := by
    intro w hw hkey
    obtain ⟨old,hold⟩ := isSome_iff_exists.mp (h₀.names.found w hw _ hkey)
    obtain ⟨hmem,hkey'⟩ := h₀.names.suci.find_some hold
    obtain rfl := h₀.names.distinct w hw old hmem _ hkey hkey'
    exact hold
  rcases htaken with ⟨old,hold,hne,htake⟩ | ⟨hself,rfl⟩
  · have hmem:=(h₀.names.suci.find_some hold).1
    obtain ⟨h₁,hr⟩ := h₀.takeOver hmem htake
    have herase : ∀ w,w∈s₁.amfUeList → w∈s.amfUeList ∧ w≠old := by
      intro w hw
      rw [hr.list] at hw
      exact h₀.mem_erase.mp hw
    have hof : ∀ w∈s₁.amfUeList,s₁.suciOf w=s.suciOf w ∧ s₁.supiOf w=s.supiOf w := by
      intro w hw
      have hue:=hr.ue w (herase w hw).2
      exact ⟨congrArg AmfUe.suci hue,congrArg AmfUe.supi hue⟩
    have hu₁ : u∈s₁.amfUeList := by
      rw [hr.list,h₀.mem_erase]
      exact ⟨hu,Ne.symm hne⟩
    have hstr₁ : s₁.str a=some x := by
      rw [hr.str a (hsuci₀ old hmem).2 (hsupi₀ old hmem).2]
      exact hstr
    obtain ⟨ht',hfound⟩ := h₁.renameSuci hu₁ hstr₁
      (fun w hw => (hof w hw).1 ▸ (hsuci₀ w (herase w hw).1).2)
      (fun w hw => (hof w hw).2 ▸ (hsupi₀ w (herase w hw).1).2) fun w hw _ hkey => by
        rw [hr.suciKey w hw] at hkey
        have hw':=hother w (herase w hw).1 hkey
        rw [hold] at hw'
        exact (herase w hw).2 (some.inj hw').symm
    refine ⟨ht',fun hs => ?_⟩
    rw [hfound,hr.supiFound h₀.toPooled (hfound₀.mpr hs)]
    have halone : (s.store a x).SupiAlone old ↔ s.SupiAlone old := by
      unfold SupiAlone
      rw [(hsupi₀ old hmem).1]
      refine forall₂_congr fun k _ => forall₂_congr fun w hw => ?_
      rw [(hsupi₀ w hw).1]
    rw [halone]
    constructor
    · intro hal y old' hy hold' _
      cases hy
      rw [← hfind,hold] at hold'
      exact some.inj hold' ▸ hal
    · exact fun hal => hal x old rfl (hfind ▸ hold) hne
  · obtain ⟨ht',hfound⟩ := h₀.renameSuci hu hstr (fun w hw => (hsuci₀ w hw).2)
      (fun w hw => (hsupi₀ w hw).2) fun w hw hwu hkey => hwu (hself w (hother w hw hkey))
    refine ⟨ht',fun hs => iff_of_true (hfound.mpr (hfound₀.mpr hs)) ?_⟩
    intro y old hy hold hne
    cases hy
    exact absurd (hself old (hfind ▸ hold)) hne

theorem Indexed.setSupi {supi : Option IdStr} (h : s.Indexed) (hu : u∈s.amfUeList)
    (ht : s.amfUeSetSupi u a supi=some (.ok t ())) :
    t.Indexed ∧ (s.SupiFound → (t.SupiFound ↔
      ∀ x,supi=some x → s.supiKey u≠some x.1.bytes → s.SupiAlone u)) := by
  obtain ⟨x,rfl,hfree,rfl⟩ := amfUeSetSupi_ok ht
  obtain ⟨hnames,hhas,-,hkey,-⟩ := h.names.dropSupi hu fun w => h.mem_erase (u := u)
  have honly:=s.dropSupi_namesOnly u
  generalize s.dropSupi u=s₁ at hnames hhas hkey honly hfree ⊢
  obtain ⟨hnames₂,hhas₂,-,hsuci₂,hsupi₂⟩ := hnames.store hfree x
  have hstr : (s₁.store a x).str a=some x := update_self ..
  have herase := fun w => h.mem_erase (u := u) (w := w)
  have hnot : u∉s.amfUeList.erase u := fun hmem => ((herase u).mp hmem).2 rfl
  have hsplit : ∀ w,w∈s.amfUeList ↔ w=u ∨ w∈s.amfUeList.erase u := by
    intro w
    rw [herase]
    by_cases hwu : w=u
    · simp [hwu,hu]
    · simp [hwu]
  obtain ⟨hnames₃,hhas₃,hself,hother⟩ := hnames₂.takeSupi hnot hstr
    (fun w hw => (hsuci₂ w hw).2) (fun w hw => (hsupi₂ w hw).2) hsplit
  have hpool : s.PoolKept ((s₁.store a x).takeSupi u a) := by
    have hstore : s₁.PoolKept (s₁.store a x) := ⟨rfl,rfl,fun _ => rfl⟩
    have htake:=(s₁.store a x).takeSupi_poolKept u a
    have hdrop:=honly.poolKept
    exact (hdrop.trans hstore).trans htake
  refine ⟨⟨h.toPooled.kept hpool,hpool.list ▸ hnames₃⟩,fun hfound => ?_⟩
  have hkeyOf : ∀ w∈s.amfUeList,w≠u →
      ((s₁.store a x).takeSupi u a).supiKey w=s.supiKey w := by
    intro w hw hwu
    have hmem:=(herase w).mpr ⟨hw,hwu⟩
    rw [hother w hwu,(hsupi₂ w hmem).1,hkey w hmem]
  have hhasOf : ∀ k,((s₁.store a x).takeSupi u a).HasSupi k ↔
      k=x.1.bytes ∨ s.supiKey u≠some k ∧ s.HasSupi k := by
    intro k
    rw [hhas₃,hhas₂,hhas]
  unfold SupiFound
  rw [hpool.list]
  constructor
  · intro hall y hy hne k hk w hw hwu hwk
    cases hy
    have hw':=hall w hw k ((hkeyOf w hw hwu).trans hwk)
    rcases (hhasOf k).mp hw' with rfl | ⟨hgone,-⟩
    · exact hne hk
    · exact hgone hk
  · intro halone w hw k hk
    refine (hhasOf k).mpr ?_
    by_cases hwu : w=u
    · rw [hwu,hself] at hk
      exact .inl (some.inj hk).symm
    · rw [hkeyOf w hw hwu] at hk
      by_cases hkx : k=x.1.bytes
      · exact .inl hkx
      · refine .inr ⟨?_,hfound w hw k hk⟩
        intro huk
        have hne : s.supiKey u≠some x.1.bytes := by
          rw [huk]
          exact fun he => hkx (some.inj he)
        exact halone x rfl hne k huk w hw hwu hk

theorem Indexed.added (h : s.Indexed) (hpooled : t.Pooled)
    (hlist : t.amfUeList=s.amfUeList++[u]) (hue : ∀ w∈s.amfUeList,t.amfUe w=s.amfUe w)
    (hsuci : t.suciOf u=none) (hsupi : t.supiOf u=none) (hstr : t.str=s.str)
    (hsuciHash : t.suciHash=s.suciHash) (hsupiHash : t.supiHash=s.supiHash)
    (hsuciSeed : t.suciSeed=s.suciSeed) (hsupiSeed : t.supiSeed=s.supiSeed) :
    t.Indexed ∧ (s.SupiFound → t.SupiFound) := by
  have hsub : ∀ w∈s.amfUeList,w∈t.amfUeList := by
    intro w hw
    rw [hlist]
    exact mem_append_left _ hw
  have hmem : ∀ w∈t.amfUeList,w∈s.amfUeList ∨ w=u := by
    intro w hw
    rw [hlist] at hw
    simpa using hw
  have hsuciOf : ∀ w∈s.amfUeList,t.suciOf w=s.suciOf w :=
    fun w hw => congrArg AmfUe.suci (hue w hw)
  have hsupiOf : ∀ w∈s.amfUeList,t.supiOf w=s.supiOf w :=
    fun w hw => congrArg AmfUe.supi (hue w hw)
  have hsuciKey : ∀ w∈t.amfUeList,∀ k,t.suciKey w=some k →
      w∈s.amfUeList ∧ s.suciKey w=some k := by
    intro w hw k hk
    rcases hmem w hw with hw | rfl
    · refine ⟨hw,?_⟩
      rw [suciKey,keyOf,hsuciOf w hw,hstr] at hk
      exact hk
    · rw [suciKey,keyOf,hsuci] at hk
      cases hk
  have hsupiKey : ∀ w∈t.amfUeList,∀ k,t.supiKey w=some k →
      w∈s.amfUeList ∧ s.supiKey w=some k := by
    intro w hw k hk
    rcases hmem w hw with hw | rfl
    · refine ⟨hw,?_⟩
      rw [supiKey,keyOf,hsupiOf w hw,hstr] at hk
      exact hk
    · rw [supiKey,keyOf,hsupi] at hk
      cases hk
  have hhasSuci : t.HasSuci=s.HasSuci := by
    rw [HasSuci,HasSuci,hstr,hsuciHash,hsuciSeed]
  have hhasSupi : t.HasSupi=s.HasSupi := by
    rw [HasSupi,HasSupi,hstr,hsupiHash,hsupiSeed]
  refine ⟨⟨hpooled,?_,?_,?_,?_,?_⟩,?_⟩
  · rw [hsuciSeed,hstr,hsuciHash]
    refine (h.names.suci.congr (fun w hw => .inl (hsub w hw)) ?_ hsuciOf fun _ _ _ _ => rfl).1
    intro w hw
    rcases hmem w hw with hw | rfl
    · exact .inl hw
    · exact .inr hsuci
  · rw [hsupiSeed,hstr,hsupiHash]
    refine (h.names.supi.congr (fun w hw => .inl (hsub w hw)) ?_ hsupiOf fun _ _ _ _ => rfl).1
    intro w hw
    rcases hmem w hw with hw | rfl
    · exact .inl hw
    · exact .inr hsupi
  · intro w hw k hk
    obtain ⟨hw',hk'⟩ := hsuciKey w hw k hk
    rw [hhasSuci]
    exact h.names.found w hw' k hk'
  · intro w hw v hv k hk hk'
    obtain ⟨hw',hwk⟩ := hsuciKey w hw k hk
    obtain ⟨hv',hvk⟩ := hsuciKey v hv k hk'
    exact h.names.distinct w hw' v hv' k hwk hvk
  · intro w hw v hv b hb hb'
    rcases hmem w hw with hw | rfl
    · rcases hmem v hv with hv | rfl
      · rw [hsuciOf w hw] at hb
        rw [hsupiOf v hv] at hb'
        exact h.names.apart w hw v hv b hb hb'
      · rw [hsupi] at hb'
        cases hb'
    · rw [hsuci] at hb
      cases hb
  · intro hfound w hw k hk
    obtain ⟨hw',hk'⟩ := hsupiKey w hw k hk
    rw [hhasSupi]
    exact hfound w hw' k hk'

theorem Indexed.amfUeAdd (h : s.Indexed) (gnb timers : Bool) :
    (s.amfUeAdd gnb timers).1.Indexed ∧ (s.SupiFound → (s.amfUeAdd gnb timers).1.SupiFound) := by
  obtain ⟨q,hs⟩ := h.pool
  rcases amfUeAdd_cases hs gnb timers with
    ⟨pool,q',hsplit,-,hids,-,heq⟩ | ⟨u,pool,q',hu,hsplit,-,hhash,heq⟩
  · rw [heq]
    have hkept : s.NamesKept { s with amfUePool := pool } := ⟨rfl,rfl,rfl,rfl,rfl,rfl,rfl⟩
    exact ⟨⟨⟨⟨q',hsplit⟩,fun id w hfind => h.ids id w (hids id w hfind)⟩,
      hkept.names h.names⟩,fun hf => hf⟩
  · rw [heq]
    have hne : ∀ w∈s.amfUeList,w≠u := by
      rintro w hw rfl
      exact hu hw
    refine h.added ⟨⟨q',hsplit⟩,?_⟩ rfl (fun w hw => update_of_ne (hne w hw) _ _)
      ?_ ?_ rfl rfl rfl rfl rfl
    · intro id w hfind
      rw [amfUeFindById,Pool.findById,hhash,update_apply] at hfind
      split at hfind
      · rename_i hid
        obtain rfl := some.inj hfind
        simp [newAmfUe,hid]
      · obtain ⟨hw,hwid⟩ := h.ids id w hfind
        refine ⟨mem_append_left _ hw,?_⟩
        simp only [update_of_ne (hne w hw)]
        exact hwid
    · simp [suciOf,newAmfUe]
    · simp [supiOf,newAmfUe]

end Ues

def UeOp.gaveUp (s : Ues) : UeOp → Option Nat
  | .amfUeRemove u => some u
  | .setSuci u _ (some x) => (s.amfUeFindBySuci x).filter fun old => old≠u
  | .setSupi u _ (some x) => if s.supiKey u=some x.1.bytes then none else some u
  | .releaseAction r =>
    if (s.ranUe r).ueCtxRelAction = .ueContextRemove then s.amfUeFindById (s.ranUe r).amfUeId
    else none
  | _ => none

namespace Ues

variable {s t : Ues} {u a : Nat}

theorem Indexed.spared {op : UeOp} (h : s.Indexed) (hpool : s.PoolKept t)
    (hnames : s.NamesKept t) (hop : op.gaveUp s=none) :
    t.Indexed ∧ (s.SupiFound → (t.SupiFound ↔ ∀ u,op.gaveUp s=some u → s.SupiAlone u)) := by
  obtain ⟨ht,hfound⟩ := h.kept hpool hnames
  refine ⟨ht,fun hs => iff_of_true (hfound.mpr hs) ?_⟩
  rw [hop]
  intro u hu
  cases hu

theorem setFields_kept (s : Ues) (u : Nat) (f : AmfUe → AmfUe)
    (hf : ∀ ue,(f ue).id=ue.id ∧ (f ue).suci=ue.suci ∧ (f ue).supi=ue.supi) :
    s.PoolKept (s.modifyUe u f) ∧ s.NamesKept (s.modifyUe u f) :=
  ⟨s.modifyUe_poolKept (fun ue => (hf ue).1) u,
    s.modifyUe_namesKept (fun ue => (hf ue).2.1) (fun ue => (hf ue).2.2) u⟩

theorem Indexed.releaseAction {r : Nat} (h : s.Indexed)
    (ht : s.ueContextReleaseAction r=some (.ok t ())) :
    t.Indexed ∧ (s.SupiFound → (t.SupiFound ↔
      ∀ u,(UeOp.releaseAction r).gaveUp s=some u → s.SupiAlone u)) := by
  rcases ueContextReleaseAction_ok ht with ⟨hop,honly⟩ | ⟨haction,u,-,rfl⟩ |
    ⟨haction,u,hfind,hs₁⟩
  · refine h.spared honly.poolKept honly.namesKept ?_
    by_cases haction : (s.ranUe r).ueCtxRelAction = .ueContextRemove
    · simpa only [UeOp.gaveUp,haction,if_true] using hop.resolve_left (not_not.mpr haction)
    · simp only [UeOp.gaveUp,haction,if_false]
  · have honly:=s.ranUeRemove_ranUesOnly r
    obtain ⟨hpool,hnames⟩ := (s.ranUeRemove r).setFields_kept u
      (fun ue => { ue with ranUeId := 0 }) fun _ => ⟨rfl,rfl,rfl⟩
    refine h.spared (honly.poolKept.trans hpool) (honly.namesKept.trans hnames) ?_
    simp [UeOp.gaveUp,haction]
  · have honly:=s.ranUeRemove_ranUesOnly r
    have h₁:=(h.kept honly.poolKept honly.namesKept).1
    obtain ⟨ht',hr⟩ := h₁.remove (h.ids _ u hfind).1 hs₁
    refine ⟨ht',fun hs => (hr.supiFound h₁.toPooled hs).trans ?_⟩
    simp only [UeOp.gaveUp,haction,if_true,hfind,some.injEq,forall_eq']
    exact Iff.rfl

theorem takeNext_kept (s : Ues) (u : Nat) :
    s.PoolKept (s.takeNext u) ∧ s.NamesKept (s.takeNext u) := by
  have hfield : ∀ {β : Type} (g : AmfUe → β),(∀ ue slot,g { ue with current := slot }=g ue) →
      (∀ ue slot,g { ue with next := slot }=g ue) →
      ∀ w,g ((s.takeNext u).amfUe w)=g (s.amfUe w) := by
    intro β g hcurrent hnext w
    exact (modifyUe_field g (fun ue => hnext ue _) w).trans
      (modifyUe_field g (fun ue => hcurrent ue _) w)
  refine ⟨⟨rfl,rfl,?_⟩,rfl,rfl,rfl,rfl,rfl,?_,?_⟩
  · exact hfield AmfUe.id (fun _ _ => rfl) fun _ _ => rfl
  · exact funext (hfield AmfUe.suci (fun _ _ => rfl) fun _ _ => rfl)
  · exact funext (hfield AmfUe.supi (fun _ _ => rfl) fun _ _ => rfl)

theorem amfSessAdd_ok {psi : BitVec 8} (h : s.amfSessAdd u psi = .ok t ()) : s.SessionsOnly t := by
  unfold amfSessAdd at h
  split at h
  · cases h
  · split at h
    · cases h
    · cases h
      exact ⟨_,_,_,_,rfl⟩

theorem call_ranUeAdd {gnbId ostreams : Nat} {ngapId : BitVec 64} {timer : Bool}
    (h : s.call (.ranUeAdd gnbId ostreams ngapId timer)=some (.ok t ())) :
    ∃ r,s.ranUeAdd gnbId ostreams ngapId timer = .ok t r := by
  cases hadd : s.ranUeAdd gnbId ostreams ngapId timer with
  | abort s₁ => simp [call,hadd,Outcome.bind] at h
  | ok s₁ r =>
    simp only [call,hadd,Outcome.bind,some.injEq,Outcome.ok.injEq,and_true] at h
    exact ⟨r,h ▸ rfl⟩

theorem ranUeAdd_ok {gnbId ostreams : Nat} {ngapId : BitVec 64} {timer : Bool}
    {r : Option Nat} (h : s.ranUeAdd gnbId ostreams ngapId timer = .ok t r) : s.RanUesOnly t := by
  unfold ranUeAdd at h
  split at h
  · cases h
    exact ⟨_,_,rfl⟩
  · split at h
    · split at h
      · cases h
        exact ⟨_,_,rfl⟩
      · cases h
    · cases h
      exact ⟨_,_,rfl⟩

theorem Indexed.step {op : UeOp} (h : s.Indexed) (hstep : s.step op=some (.ok t ())) :
    t.Indexed ∧ (s.SupiFound → (t.SupiFound ↔ ∀ u,op.gaveUp s=some u → s.SupiAlone u)) := by
  unfold Ues.step at hstep
  split at hstep
  case isFalse => cases hstep
  case isTrue honLive =>
    cases op with
    | ranUeAdd gnbId ostreams ngapId timer =>
      obtain ⟨r,hadd⟩ := call_ranUeAdd hstep
      have honly:=ranUeAdd_ok hadd
      exact h.spared honly.poolKept honly.namesKept rfl
    | ranUeRemove r =>
      cases hstep
      exact h.spared ⟨rfl,rfl,fun _ => rfl⟩ ⟨rfl,rfl,rfl,rfl,rfl,rfl,rfl⟩ rfl
    | amfUeAdd gnb timers =>
      cases hstep
      obtain ⟨ht,hfound⟩ := h.amfUeAdd gnb timers
      refine ⟨ht,fun hs => iff_of_true (hfound hs) ?_⟩
      intro u hu
      cases hu
    | amfUeRemove u =>
      obtain ⟨s₁,hs₁,ho⟩ := map_eq_some_iff.mp hstep
      obtain rfl := (Outcome.ok.inj ho).1
      have hu : u∈s.amfUeList := by simpa [onLive] using honLive
      obtain ⟨ht,hr⟩ := h.remove hu hs₁
      refine ⟨ht,fun hs => (hr.supiFound h.toPooled hs).trans ?_⟩
      simp [UeOp.gaveUp]
    | setSuci u a suci =>
      have hu : u∈s.amfUeList := by simpa [onLive] using honLive
      obtain ⟨ht,hfound⟩ := h.setSuci hu hstep
      refine ⟨ht,fun hs => (hfound hs).trans ?_⟩
      cases suci with
      | none => simp [UeOp.gaveUp]
      | some x =>
        simp only [UeOp.gaveUp,filter_eq_some_iff,decide_eq_true_eq,and_imp]
        constructor
        · exact fun hall old hold hne => hall x old rfl hold hne
        · intro hall y old hy hold hne
          cases hy
          exact hall old hold hne
    | setSupi u a supi =>
      have hu : u∈s.amfUeList := by simpa [onLive] using honLive
      obtain ⟨ht,hfound⟩ := h.setSupi hu hstep
      refine ⟨ht,fun hs => (hfound hs).trans ?_⟩
      cases supi with
      | none => simp [UeOp.gaveUp]
      | some x =>
        by_cases hx : s.supiKey u=some x.1.bytes
        · simp [UeOp.gaveUp,hx]
        · simp [UeOp.gaveUp,hx]
    | setGuami u guami =>
      cases hstep
      obtain ⟨hpool,hnames⟩ := s.setFields_kept u (fun ue => { ue with guami := guami })
        fun _ => ⟨rfl,rfl,rfl⟩
      exact h.spared hpool hnames rfl
    | newGuti u =>
      rcases amfUeNewGuti_ok (some.inj hstep) with rfl | ⟨s₁,next,honly,rfl⟩
      · exact h.spared ⟨rfl,rfl,fun _ => rfl⟩ ⟨rfl,rfl,rfl,rfl,rfl,rfl,rfl⟩ rfl
      · obtain ⟨hpool,hnames⟩ := s₁.setFields_kept u (fun ue => { ue with next := next })
          fun _ => ⟨rfl,rfl,rfl⟩
        exact h.spared (honly.poolKept.trans hpool) (honly.namesKept.trans hnames) rfl
    | confirmGuti u =>
      obtain ⟨-,rfl⟩ := amfUeConfirmGuti_ok (some.inj hstep)
      have honly:=s.dropCurrentGuti_gutisOnly u
      obtain ⟨hpool,hnames⟩ := (s.dropCurrentGuti u).takeNext_kept u
      exact h.spared (honly.poolKept.trans hpool) (honly.namesKept.trans hnames) rfl
    | sessAdd u psi =>
      have honly:=amfSessAdd_ok (some.inj hstep)
      exact h.spared honly.poolKept honly.namesKept rfl
    | sessRemove n =>
      cases hstep
      have honly:=s.amfSessRemove_sessionsOnly n
      exact h.spared honly.poolKept honly.namesKept rfl
    | associateRanUe u r =>
      cases hstep
      obtain ⟨hpool,hnames⟩ := s.setFields_kept u (fun ue => { ue with ranUeId := (s.ranUe r).id })
        fun _ => ⟨rfl,rfl,rfl⟩
      exact h.spared ⟨hpool.pool,hpool.list,hpool.id⟩ (hnames.trans
        ⟨rfl,rfl,rfl,rfl,rfl,rfl,rfl⟩) rfl
    | ranUeDeassociate r =>
      cases hstep
      exact h.spared ⟨rfl,rfl,fun _ => rfl⟩ ⟨rfl,rfl,rfl,rfl,rfl,rfl,rfl⟩ rfl
    | amfUeDeassociate u =>
      cases hstep
      obtain ⟨hpool,hnames⟩ := s.setFields_kept u (fun ue => { ue with ranUeId := 0 })
        fun _ => ⟨rfl,rfl,rfl⟩
      exact h.spared hpool hnames rfl
    | associateTargetUe source target =>
      cases hstep
      exact h.spared ⟨rfl,rfl,fun _ => rfl⟩ ⟨rfl,rfl,rfl,rfl,rfl,rfl,rfl⟩ rfl
    | deassociateTargetUe r =>
      have honly:=sourceUeDeassociateTargetUe_ranUesOnly (some.inj hstep)
      exact h.spared honly.poolKept honly.namesKept rfl
    | releaseCommand r action =>
      cases hstep
      exact h.spared ⟨rfl,rfl,fun _ => rfl⟩ ⟨rfl,rfl,rfl,rfl,rfl,rfl,rfl⟩ rfl
    | releaseAction r => exact h.releaseAction hstep

theorem Indexed.init (config : UeConfig) (s : Ues) : (init config s).Indexed where
  pool := ⟨_,Pool.split_init _⟩
  ids := by
    intro id u hfind
    cases hfind
  names := ⟨NameTable.nil _ _ _,NameTable.nil _ _ _,by simp [Ues.init],by simp [Ues.init],
    by simp [Ues.init]⟩

def Reads (s : Ues) (name : Nat → Option Nat) (u : Nat) (x : IdStr) : Prop :=
  ∃ a,name u=some a ∧ s.str a=some x

/-- What the lookups find is right, no entry refers to a freed string, and every SUCI is found. -/
structure IndexRight (s : Ues) : Prop where
  supi : ∀ x u,s.amfUeFindBySupi x=some u → u∈s.amfUeList ∧ s.Reads s.supiOf u x
  suci : ∀ x u,s.amfUeFindBySuci x=some u ↔ u∈s.amfUeList ∧ s.Reads s.suciOf u x
  keys : ∀ e∈s.suciHash++s.supiHash,(s.str e.key).isSome

def SupisFound (s : Ues) : Prop :=
  ∀ u∈s.amfUeList,∀ x,s.Reads s.supiOf u x → (s.amfUeFindBySupi x).isSome

theorem Indexed.right (h : s.Indexed) : s.IndexRight where
  supi := by
    intro x u hfind
    obtain ⟨hu,hkey⟩ := h.names.supi.find_some hfind
    obtain ⟨a,ha,hbytes⟩ := map_eq_some_iff.mp hkey
    exact ⟨hu,a,ha,str_eq_of_bytes (h.names.supi.live u hu a ha) hbytes⟩
  suci := by
    intro x u
    constructor
    · intro hfind
      obtain ⟨hu,hkey⟩ := h.names.suci.find_some hfind
      obtain ⟨a,ha,hbytes⟩ := map_eq_some_iff.mp hkey
      exact ⟨hu,a,ha,str_eq_of_bytes (h.names.suci.live u hu a ha) hbytes⟩
    · rintro ⟨hu,a,ha,hx⟩
      have hkey : s.suciKey u=some x.1.bytes := by
        rw [suciKey,keyOf,ha,map_some,heapBytes_eq hx]
      obtain ⟨w,hw⟩ := isSome_iff_exists.mp (h.names.found u hu _ hkey)
      obtain ⟨hmem,hkey'⟩ := h.names.suci.find_some hw
      rw [h.names.distinct u hu w hmem _ hkey hkey']
      exact hw
  keys := by
    intro e he
    rcases mem_append.mp he with he | he
    · exact h.names.suci.key_live he
    · exact h.names.supi.key_live he

theorem Indexed.supisFound (h : s.Indexed) : s.SupisFound ↔ s.SupiFound := by
  constructor
  · intro hfound u hu k hk
    obtain ⟨a,ha,rfl⟩ := map_eq_some_iff.mp hk
    obtain ⟨x,hx⟩ := isSome_iff_exists.mp (h.names.supi.live u hu a ha)
    rw [heapBytes_eq hx]
    exact hfound u hu x ⟨a,ha,hx⟩
  · rintro hfound u hu x ⟨a,ha,hx⟩
    refine hfound u hu x.1.bytes ?_
    rw [supiKey,keyOf,ha,map_some,heapBytes_eq hx]

end Ues

/-- A call that takes a SUPI away takes it from the last UE that has it. -/
def UeOp.Spares (s : Ues) (op : UeOp) : Prop :=
  (∃ t,s.step op=some (.ok t ())) → ∀ u,op.gaveUp s=some u → s.SupiAlone u

theorem supis_run (config : UeConfig) (s : Ues) (ops : List UeOp) :
    (∀ t∈completed Ues.step (Ues.init config s) ops,t.IndexRight) ∧
    ((∀ t∈completed Ues.step (Ues.init config s) ops,t.SupisFound) ↔
      EachStep Ues.step UeOp.Spares (Ues.init config s) ops) := by
  have hinit:=Ues.Indexed.init config s
  have hindexed : ∀ t∈completed Ues.step (Ues.init config s) ops,t.Indexed :=
    completed_inv (C := fun _ _ => True) (fun s e t r hs _ ho => (hs.step ho).1) hinit
      (eachStep_of_forall fun _ _ => trivial)
  constructor
  · exact fun t ht => (hindexed t ht).right
  · have hfound : (∀ t∈completed Ues.step (Ues.init config s) ops,t.SupisFound) ↔
        ∀ t∈completed Ues.step (Ues.init config s) ops,t.SupiFound :=
      forall₂_congr fun t ht => (hindexed t ht).supisFound
    rw [hfound]
    have hok : ∀ s op t r,s.Indexed → s.SupiFound → Ues.step s op=some (.ok t r) →
        t.Indexed ∧ (t.SupiFound ↔ UeOp.Spares s op) := by
      intro s op t r hs hf ho
      obtain ⟨ht,hiff⟩ := hs.step ho
      exact ⟨ht,(hiff hf).trans ⟨fun hall _ => hall,fun hall => hall ⟨t,ho⟩⟩⟩
    refine completed_iff hok ?_ hinit ?_
    · rintro s op hstop ⟨t,ho⟩
      exact absurd ho (hstop t ())
    · intro u hu
      cases hu

def sharedSupi : List UeOp :=
  [.amfUeAdd true true,.amfUeAdd true true,.setSupi 0 8 (some imsi1),.setSupi 1 9 (some imsi1),
    .amfUeRemove 0]

def runSharedSupi : List Ues := completed Ues.step ues2 sharedSupi

def afterSharedSupi : Ues := (runSharedSupi[5]?).getD ues2

theorem supi_lost : ¬ ∀ t∈runSharedSupi,t.SupisFound := by
  intro h
  have hmem : afterSharedSupi∈runSharedSupi := List.mem_of_getElem? (i := 5) rfl
  have hlist : afterSharedSupi.amfUeList=[1] := by decide
  have hname : afterSharedSupi.supiOf 1=some 9 := by decide
  have hstr : afterSharedSupi.str 9=some imsi1 := by decide
  have hfind : afterSharedSupi.amfUeFindBySupi imsi1=none := by decide
  have hfound:=h afterSharedSupi hmem 1 (by simp [hlist]) imsi1 ⟨9,hname,hstr⟩
  rw [hfind] at hfound
  cases hfound

end OgsDp.Amf
