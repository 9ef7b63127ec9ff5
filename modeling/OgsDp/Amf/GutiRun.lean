import OgsDp.Amf.Guti
import OgsDp.Amf.UeIndex

/-!
# Runs of the 5G-GUTI calls (src/amf/context.c)

The nodes in use are those of the live UEs, two for each at most, so that the pool of two nodes a
UE never runs out.
-/

namespace OgsDp.Amf
open Lib RefTable OgsDp.Core List Option

namespace Ues

variable {val : Nat → BitVec 32} {s t : Ues} {m u : Nat}

def holders (f : Nat → Option Nat) (us : List Nat) : List (Nat × Nat) :=
  us.filterMap fun u => (f u).map fun m => (u,m)

section Holders

variable {f g : Nat → Option Nat} {us us' : List Nat}

theorem holders_cons_some (hu : f u=some m) : holders f (u::us)=(u,m)::holders f us := by
  simp [holders,hu]

theorem holders_cons_none (hu : f u=none) : holders f (u::us)=holders f us := by
  simp [holders,hu]

theorem holders_congr (h : ∀ u∈us,f u=g u) : holders f us=holders g us :=
  filterMap_congr fun u hu => by rw [h u hu]

theorem holders_perm (h : us.Perm us') : (holders f us).Perm (holders f us') := h.filterMap _

theorem mem_holders {b : Nat × Nat} : b∈holders f us ↔ b.1∈us ∧ f b.1=some b.2 := by
  unfold holders
  rw [mem_filterMap]
  constructor
  · rintro ⟨u,hu,heq⟩
    obtain ⟨m,hm,rfl⟩ := map_eq_some_iff.mp heq
    exact ⟨hu,hm⟩
  · rintro ⟨hu,hm⟩
    exact ⟨b.1,hu,by rw [hm,map_some]⟩

theorem length_holders_le : (holders f us).length≤us.length := length_filterMap_le ..

end Holders

def currentNode (s : Ues) (u : Nat) : Option Nat := (s.amfUe u).current.mTmsi

def nextNode (s : Ues) (u : Nat) : Option Nat := (s.amfUe u).next.mTmsi

def GutisOf (val : Nat → BitVec 32) (us : List Nat) (s : Ues) : Prop :=
  Gutis val (holders s.currentNode us) (holders s.nextNode us) s

structure GutisKept (s t : Ues) : Prop where
  pool : t.mTmsiPool=s.mTmsiPool
  val : t.mTmsi=s.mTmsi
  hash : t.gutiUeHash=s.gutiUeHash
  seed : t.gutiSeed=s.gutiSeed
  slots : ∀ u,(t.amfUe u).current=(s.amfUe u).current ∧ (t.amfUe u).next=(s.amfUe u).next

theorem GutisKept.trans {s₁ s₂ s₃ : Ues} (h : s₁.GutisKept s₂) (h' : s₂.GutisKept s₃) :
    s₁.GutisKept s₃ where
  pool := h'.pool.trans h.pool
  val := h'.val.trans h.val
  hash := h'.hash.trans h.hash
  seed := h'.seed.trans h.seed
  slots := fun u => ⟨(h'.slots u).1.trans (h.slots u).1,(h'.slots u).2.trans (h.slots u).2⟩

theorem SessionsOnly.gutisKept (h : s.SessionsOnly t) : s.GutisKept t := by
  obtain ⟨pool,sess,links,list,rfl⟩ := h
  exact ⟨rfl,rfl,rfl,rfl,fun _ => ⟨rfl,rfl⟩⟩

theorem RanUesOnly.gutisKept (h : s.RanUesOnly t) : s.GutisKept t := by
  obtain ⟨pool,ranUe,rfl⟩ := h
  exact ⟨rfl,rfl,rfl,rfl,fun _ => ⟨rfl,rfl⟩⟩

theorem NamesOnly.gutisKept (h : s.NamesOnly t) : s.GutisKept t := by
  obtain ⟨str,suciHash,supiHash,rfl⟩ := h
  exact ⟨rfl,rfl,rfl,rfl,fun _ => ⟨rfl,rfl⟩⟩

variable (s) in
theorem modifyUe_gutisKept (u : Nat) (f : AmfUe → AmfUe)
    (hf : ∀ ue,(f ue).current=ue.current ∧ (f ue).next=ue.next) :
    s.GutisKept (s.modifyUe u f) :=
  ⟨rfl,rfl,rfl,rfl,fun w => ⟨modifyUe_field AmfUe.current (fun ue => (hf ue).1) w,
    modifyUe_field AmfUe.next (fun ue => (hf ue).2) w⟩⟩

namespace GutisOf

variable {us us' : List Nat}

theorem kept (h : GutisOf val us s) (hkept : s.GutisKept t) : GutisOf val us t := by
  have hcur : t.currentNode=s.currentNode :=
    funext fun u => congrArg GutiSlot.mTmsi (hkept.slots u).1
  have hnxt : t.nextNode=s.nextNode :=
    funext fun u => congrArg GutiSlot.mTmsi (hkept.slots u).2
  unfold GutisOf
  rw [hcur,hnxt]
  exact h.congr hkept.pool hkept.val hkept.hash hkept.seed (fun b _ => (hkept.slots b.1).1)
    fun b _ => (hkept.slots b.1).2

theorem perm (h : GutisOf val us s) (hperm : us.Perm us') : GutisOf val us' s :=
  Gutis.perm h (holders_perm hperm) (holders_perm hperm)

theorem dropCurrent (hv : Values val s.mTmsiPool.size) (h : GutisOf val (u::us) s) :
    Gutis val (holders s.currentNode us) (holders s.nextNode (u::us)) (s.dropCurrentGuti u) := by
  unfold GutisOf at h
  cases hu : s.currentNode u with
  | none =>
    rw [holders_cons_none hu] at h
    have hsame : s.dropCurrentGuti u=s := by
      unfold Ues.dropCurrentGuti
      rw [show (s.amfUe u).current.mTmsi=none from hu]
    rw [hsame]
    exact h
  | some m =>
    rw [holders_cons_some hu] at h
    exact h.dropCurrentGuti hv

theorem dropCurrentGuti_size (s : Ues) (u : Nat) :
    (s.dropCurrentGuti u).mTmsiPool.size=s.mTmsiPool.size := by
  unfold Ues.dropCurrentGuti
  split
  · exact Pool.release_size ..
  · rfl

theorem dropNextGuti_size (s : Ues) (u : Nat) :
    (s.dropNextGuti u).mTmsiPool.size=s.mTmsiPool.size := by
  unfold Ues.dropNextGuti
  split
  · exact Pool.release_size ..
  · rfl

theorem remove (hv : Values val s.mTmsiPool.size) (h : GutisOf val (u::us) s) :
    GutisOf val us ((s.dropCurrentGuti u).dropNextGuti u) := by
  have hdrop:=dropCurrent hv h
  rw [← dropCurrentGuti_size s u] at hv
  have hue : (s.dropCurrentGuti u).amfUe=s.amfUe := by
    obtain ⟨pool,mTmsi,hash,heq⟩ := s.dropCurrentGuti_gutisOnly u
    rw [heq]
  have hue' : ((s.dropCurrentGuti u).dropNextGuti u).amfUe=s.amfUe := by
    obtain ⟨pool,mTmsi,hash,heq⟩ := (s.dropCurrentGuti u).dropNextGuti_gutisOnly u
    rw [heq]
    exact hue
  have hcur : ((s.dropCurrentGuti u).dropNextGuti u).currentNode=s.currentNode := by
    unfold currentNode
    rw [hue']
  have hnxt : ((s.dropCurrentGuti u).dropNextGuti u).nextNode=s.nextNode := by
    unfold nextNode
    rw [hue']
  unfold GutisOf
  rw [hcur,hnxt]
  cases hu : s.nextNode u with
  | none =>
    rw [holders_cons_none hu] at hdrop
    have hsame : (s.dropCurrentGuti u).dropNextGuti u=s.dropCurrentGuti u := by
      unfold Ues.dropNextGuti
      rw [hue,show (s.amfUe u).next.mTmsi=none from hu]
    rw [hsame]
    exact hdrop
  | some m =>
    rw [holders_cons_some hu] at hdrop
    exact hdrop.dropNextGuti hv

theorem newGuti (hv : Values val s.mTmsiPool.size) (h : GutisOf val (u::us) s) (hus : u∉us)
    (hlen : (u::us).length*2 ≤ s.mTmsiPool.size) :
    ∃ t,s.amfUeNewGuti u = .ok t () ∧ t.mTmsiPool.size=s.mTmsiPool.size ∧
      GutisOf val (u::us) t := by
  cases hu : s.nextNode u with
  | some m =>
    refine ⟨s,?_,rfl,h⟩
    unfold amfUeNewGuti
    rw [show (s.amfUe u).next.mTmsi=some m from hu]
    rfl
  | none =>
    unfold GutisOf at h
    rw [holders_cons_none hu] at h
    have hcount : (holders s.currentNode (u::us)++holders s.nextNode us).length <
        s.mTmsiPool.size := by
      have hcur : (holders s.currentNode (u::us)).length≤(u::us).length := length_holders_le
      have hnxt : (holders s.nextNode us).length≤us.length := length_holders_le
      simp only [length_append,length_cons] at *
      omega
    obtain ⟨m,pool,mTmsi,guti,hsize,hok,hgutis⟩ := h.newGuti hv hcount hu
    refine ⟨_,hok,hsize,?_⟩
    generalize ht : (modifyUe { s with mTmsiPool := pool,mTmsi := mTmsi } u
      fun ue => { ue with next := ⟨some m,guti⟩ })=t at hgutis
    have hcur : t.currentNode=s.currentNode := by
      rw [← ht]
      exact funext (modifyUe_field (fun ue => ue.current.mTmsi) fun ue => rfl)
    have hself : t.nextNode u=some m := by
      rw [← ht]
      simp [nextNode,modifyUe]
    have hnxt : ∀ w∈us,t.nextNode w=s.nextNode w := by
      intro w hw
      have hwu : w≠u := by
        rintro rfl
        exact hus hw
      rw [← ht]
      simp [nextNode,modifyUe,hwu]
    unfold GutisOf
    rw [hcur,holders_cons_some hself,holders_congr hnxt]
    exact hgutis

theorem confirmGuti (hv : Values val s.mTmsiPool.size) (h : GutisOf val (u::us) s) (hus : u∉us)
    (hu : (s.amfUe u).next.mTmsi=some m) :
    GutisOf val (u::us) ((s.dropCurrentGuti u).takeNext u) := by
  have hdrop:=dropCurrent hv h
  rw [← dropCurrentGuti_size s u] at hv
  have hue : (s.dropCurrentGuti u).amfUe=s.amfUe := by
    obtain ⟨pool,mTmsi,hash,heq⟩ := s.dropCurrentGuti_gutisOnly u
    rw [heq]
  have hne : ∀ (f : Nat → Option Nat),∀ b∈holders f us,b.1≠u := by
    rintro f b hb rfl
    exact hus (mem_holders.mp hb).1
  rw [holders_cons_some (show s.nextNode u=some m from hu)] at hdrop
  have htake:=hdrop.takeNext hv (hne _) (hne _)
  obtain ⟨hcurrent,hnext⟩ := (s.dropCurrentGuti u).takeNext_self u
  have hother := fun w (hw : w≠u) => (s.dropCurrentGuti u).takeNext_of_ne hw
  generalize (s.dropCurrentGuti u).takeNext u=t at htake hcurrent hnext hother ⊢
  have hwu : ∀ w∈us,t.amfUe w=s.amfUe w := by
    intro w hw
    rw [hother w fun he => hus (he ▸ hw),hue]
  have hself : t.currentNode u=some m := by
    unfold currentNode
    rw [hcurrent,hue]
    exact hu
  have hcur : holders t.currentNode us=holders s.currentNode us :=
    holders_congr fun w hw => congrArg (fun ue => ue.current.mTmsi) (hwu w hw)
  have hnxt : holders t.nextNode us=holders s.nextNode us :=
    holders_congr fun w hw => congrArg (fun ue => ue.next.mTmsi) (hwu w hw)
  unfold GutisOf
  rw [holders_cons_some hself,holders_cons_none (show t.nextNode u=none from hnext),
    hcur,hnxt]
  exact htake

end GutisOf

structure Numbered (val : Nat → BitVec 32) (maxUe : Nat) (s : Ues) : Prop where
  ueSize : s.amfUePool.size=maxUe
  nodeSize : s.mTmsiPool.size=maxUe*2
  gutis : GutisOf val s.amfUeList s

variable {maxUe a : Nat}

namespace Numbered

theorem kept (h : s.Numbered val maxUe) (hpool : s.PoolKept t) (hkept : s.GutisKept t) :
    t.Numbered val maxUe where
  ueSize := by
    rw [hpool.pool]
    exact h.ueSize
  nodeSize := by
    rw [hkept.pool]
    exact h.nodeSize
  gutis := by
    rw [hpool.list]
    exact h.gutis.kept hkept

theorem remove (h : s.Numbered val maxUe) (hv : Values val (maxUe*2)) (hu : u∈s.amfUeList)
    (ht : s.amfUeRemove u=some t) : t.Numbered val maxUe := by
  obtain ⟨s₁,hremove,rfl⟩ := amfUeRemove_ok ht
  have hs₁:=amfSessRemoveAll_sessionsOnly hremove
  have hlist : s.GutisKept { s with amfUeList := s.amfUeList.erase u } :=
    ⟨rfl,rfl,rfl,rfl,fun _ => ⟨rfl,rfl⟩⟩
  have hkept:=hlist.trans hs₁.gutisKept
  have hpool:=hs₁.poolKept
  have hsize : s₁.mTmsiPool.size=maxUe*2 := by
    rw [hkept.pool]
    exact h.nodeSize
  have hgutis:=GutisOf.remove (hsize ▸ hv)
    ((h.gutis.kept hkept).perm (perm_cons_erase hu))
  have honly:=(s₁.dropCurrentGuti_gutisOnly u).trans (dropNextGuti_gutisOnly _ u)
  have hsize₂ : ((s₁.dropCurrentGuti u).dropNextGuti u).mTmsiPool.size=maxUe*2 := by
    rw [GutisOf.dropNextGuti_size,GutisOf.dropCurrentGuti_size]
    exact hsize
  generalize (s₁.dropCurrentGuti u).dropNextGuti u=s₂ at hgutis honly hsize₂ ⊢
  have hnames:=(s₂.dropSuci_namesOnly u).trans (dropSupi_namesOnly _ u)
  generalize (s₂.dropSuci u).dropSupi u=s₃ at hnames ⊢
  have hdeassociate : s₃.GutisKept (s₃.amfUeDeassociate u) :=
    s₃.modifyUe_gutisKept u (fun ue => { ue with ranUeId := 0 }) fun _ => ⟨rfl,rfl⟩
  have hfree : (s₃.amfUeDeassociate u).GutisKept ((s₃.amfUeDeassociate u).amfUeFree u) :=
    ⟨rfl,rfl,rfl,rfl,fun _ => ⟨rfl,rfl⟩⟩
  have hend:=(hnames.gutisKept.trans hdeassociate).trans hfree
  have hues : s₃.amfUePool=s.amfUePool ∧ s₃.amfUeList=s.amfUeList.erase u := by
    have hpool₂:=honly.poolKept
    have hpool₃:=hnames.poolKept
    exact ⟨hpool₃.pool.trans (hpool₂.pool.trans hpool.pool),
      hpool₃.list.trans (hpool₂.list.trans hpool.list)⟩
  refine ⟨?_,?_,?_⟩
  · show (s₃.amfUePool.idFree u _).size=maxUe
    rw [Pool.idFree_size,hues.1]
    exact h.ueSize
  · rw [hend.pool]
    exact hsize₂
  · show GutisOf val s₃.amfUeList _
    rw [hues.2]
    exact hgutis.kept hend

theorem takeOver {old : Nat} (h : s.Numbered val maxUe) (hv : Values val (maxUe*2))
    (hold : old∈s.amfUeList) (ht : s.takeOver u old=some t) : t.Numbered val maxUe := by
  obtain ⟨s₂,htake,hremove⟩ := takeOver_ok ht
  have hs₁:=s.implicitRelease_ranUesOnly old
  have hs₂:=takeSessions_sessionsOnly htake
  have h₂:=(h.kept hs₁.poolKept hs₁.gutisKept).kept hs₂.poolKept hs₂.gutisKept
  refine h₂.remove hv ?_ hremove
  rw [hs₂.poolKept.list,hs₁.poolKept.list]
  exact hold

theorem setSuci {suci : Option IdStr} (hs : s.Indexed) (h : s.Numbered val maxUe)
    (hv : Values val (maxUe*2)) (ht : s.amfUeSetSuci u a suci=some (.ok t ())) :
    t.Numbered val maxUe := by
  obtain ⟨x,s₁,rfl,hfree,rfl,htaken⟩ := amfUeSetSuci_ok ht
  have hs₀:=(hs.store hfree x).1
  have h₀ : (s.store a x).Numbered val maxUe :=
    h.kept ⟨rfl,rfl,fun _ => rfl⟩ ⟨rfl,rfl,rfl,rfl,fun _ => ⟨rfl,rfl⟩⟩
  have h₁ : s₁.Numbered val maxUe := by
    rcases htaken with ⟨old,hold,-,htake⟩ | ⟨-,rfl⟩
    · exact h₀.takeOver hv (hs₀.names.suci.find_some hold).1 htake
    · exact h₀
  have honly:=s₁.dropSuci_namesOnly u
  have hmodify:=(s₁.dropSuci u).modifyUe_gutisKept u (fun ue => { ue with suci := some a })
    fun _ => ⟨rfl,rfl⟩
  have h₂:=h₁.kept honly.poolKept honly.gutisKept
  exact h₂.kept (takeSuci_poolKept _ u a)
    (hmodify.trans ⟨rfl,rfl,rfl,rfl,fun _ => ⟨rfl,rfl⟩⟩)

theorem setSupi {supi : Option IdStr} (h : s.Numbered val maxUe)
    (ht : s.amfUeSetSupi u a supi=some (.ok t ())) : t.Numbered val maxUe := by
  obtain ⟨x,rfl,hfree,rfl⟩ := amfUeSetSupi_ok ht
  have honly:=s.dropSupi_namesOnly u
  have h₁:=h.kept honly.poolKept honly.gutisKept
  have h₂ : ((s.dropSupi u).store a x).Numbered val maxUe :=
    h₁.kept ⟨rfl,rfl,fun _ => rfl⟩ ⟨rfl,rfl,rfl,rfl,fun _ => ⟨rfl,rfl⟩⟩
  have hmodify:=((s.dropSupi u).store a x).modifyUe_gutisKept u
    (fun ue => { ue with supi := some a }) fun _ => ⟨rfl,rfl⟩
  exact h₂.kept (takeSupi_poolKept _ u a)
    (hmodify.trans ⟨rfl,rfl,rfl,rfl,fun _ => ⟨rfl,rfl⟩⟩)

theorem amfUeAdd (hs : s.Pooled) (h : s.Numbered val maxUe) (gnb timers : Bool) :
    (s.amfUeAdd gnb timers).1.Numbered val maxUe := by
  obtain ⟨q,hsplit⟩ := hs.pool
  rcases amfUeAdd_cases hsplit gnb timers with
    ⟨pool,-,-,hsize,-,-,heq⟩ | ⟨w,pool,-,hw,-,hsize,-,heq⟩
  · rw [heq]
    exact ⟨hsize.trans h.ueSize,h.nodeSize,
      h.gutis.kept ⟨rfl,rfl,rfl,rfl,fun _ => ⟨rfl,rfl⟩⟩⟩
  · have hgutis : GutisOf val (w::s.amfUeList) (s.amfUeAdd gnb timers).1 := by
      -- The UE has no nodes yet.
      have hne : ∀ v∈s.amfUeList,v≠w := by
        rintro v hv rfl
        exact hw hv
      have hself : (s.amfUeAdd gnb timers).1.currentNode w=none ∧
          (s.amfUeAdd gnb timers).1.nextNode w=none := by
        rw [heq]
        simp [currentNode,nextNode,newAmfUe]
      have hcur : holders (s.amfUeAdd gnb timers).1.currentNode s.amfUeList =
          holders s.currentNode s.amfUeList := by
        rw [heq]
        apply holders_congr
        intro v hv
        simp [currentNode,hne v hv]
      have hnxt : holders (s.amfUeAdd gnb timers).1.nextNode s.amfUeList =
          holders s.nextNode s.amfUeList := by
        rw [heq]
        apply holders_congr
        intro v hv
        simp [nextNode,hne v hv]
      unfold GutisOf
      rw [holders_cons_none hself.1,holders_cons_none hself.2,hcur,hnxt,heq]
      refine h.gutis.congr rfl rfl rfl rfl ?_ ?_
      · intro b hb
        simp [hne b.1 (mem_holders.mp hb).1]
      · intro b hb
        simp [hne b.1 (mem_holders.mp hb).1]
    rw [heq] at hgutis ⊢
    exact ⟨hsize.trans h.ueSize,h.nodeSize,
      hgutis.perm (perm_append_singleton w s.amfUeList).symm⟩

theorem first (h : s.Numbered val maxUe) (hu : u∈s.amfUeList) :
    GutisOf val (u::s.amfUeList.erase u) s :=
  h.gutis.perm (perm_cons_erase hu)

theorem newGuti (hs : s.Pooled) (h : s.Numbered val maxUe) (hv : Values val (maxUe*2))
    (hu : u∈s.amfUeList) :
    ∃ t,s.amfUeNewGuti u = .ok t () ∧ t.Numbered val maxUe := by
  obtain ⟨q,hsplit⟩ := hs.pool
  have hperm:=perm_cons_erase hu
  have hcount : (u::s.amfUeList.erase u).length*2 ≤ s.mTmsiPool.size := by
    have hlen:=hsplit.length_add
    have hue:=h.ueSize
    have hnode:=h.nodeSize
    rw [← hperm.length_eq]
    omega
  have hnot : u∉s.amfUeList.erase u := fun hmem => (hs.mem_erase.mp hmem).2 rfl
  obtain ⟨t,ht,hsize,hgutis⟩ := (h.first hu).newGuti (h.nodeSize ▸ hv) hnot hcount
  have hpool : s.PoolKept t := by
    rcases amfUeNewGuti_ok ht with rfl | ⟨s₁,next,honly,rfl⟩
    · exact ⟨rfl,rfl,fun _ => rfl⟩
    · have hkept:=honly.poolKept
      exact hkept.trans (s₁.modifyUe_poolKept (f := fun ue => { ue with next := next })
        (fun _ => rfl) u)
  refine ⟨t,ht,hpool.pool ▸ h.ueSize,hsize.trans h.nodeSize,?_⟩
  rw [hpool.list]
  exact hgutis.perm hperm.symm

theorem confirmGuti (hs : s.Pooled) (h : s.Numbered val maxUe) (hv : Values val (maxUe*2))
    (hu : u∈s.amfUeList) (ht : s.amfUeConfirmGuti u = .ok t ()) : t.Numbered val maxUe := by
  obtain ⟨hnext,rfl⟩ := amfUeConfirmGuti_ok ht
  obtain ⟨m,hm⟩ := isSome_iff_exists.mp hnext
  have hnot : u∉s.amfUeList.erase u := fun hmem => (hs.mem_erase.mp hmem).2 rfl
  have hgutis:=(h.first hu).confirmGuti (h.nodeSize ▸ hv) hnot hm
  have honly:=s.dropCurrentGuti_gutisOnly u
  obtain ⟨htake,-⟩ := (s.dropCurrentGuti u).takeNext_kept u
  have hpool:=honly.poolKept.trans htake
  refine ⟨hpool.pool ▸ h.ueSize,?_,?_⟩
  · show (s.dropCurrentGuti u).mTmsiPool.size=maxUe*2
    rw [GutisOf.dropCurrentGuti_size]
    exact h.nodeSize
  · rw [hpool.list]
    exact hgutis.perm (perm_cons_erase hu).symm

theorem releaseAction {r : Nat} (hs : s.Pooled) (h : s.Numbered val maxUe)
    (hv : Values val (maxUe*2)) (ht : s.ueContextReleaseAction r=some (.ok t ())) :
    t.Numbered val maxUe := by
  have hranUe:=s.ranUeRemove_ranUesOnly r
  rcases ueContextReleaseAction_ok ht with ⟨-,honly⟩ | ⟨-,w,-,rfl⟩ | ⟨-,w,hfind,hremove⟩
  · exact h.kept honly.poolKept honly.gutisKept
  · have hmodify:=(s.ranUeRemove r).modifyUe_gutisKept w
      (fun ue => { ue with ranUeId := 0 }) fun _ => ⟨rfl,rfl⟩
    have hpool:=(s.ranUeRemove r).modifyUe_poolKept (f := fun ue => { ue with ranUeId := 0 })
      (fun _ => rfl) w
    exact (h.kept hranUe.poolKept hranUe.gutisKept).kept hpool hmodify
  · exact (h.kept hranUe.poolKept hranUe.gutisKept).remove hv (hs.ids _ w hfind).1 hremove

theorem step {op : UeOp} (hs : s.Indexed) (h : s.Numbered val maxUe)
    (hv : Values val (maxUe*2)) (hstep : s.step op=some (.ok t ())) :
    t.Numbered val maxUe := by
  unfold Ues.step at hstep
  split at hstep
  case isFalse => cases hstep
  case isTrue honLive =>
    cases op with
    | ranUeAdd gnbId ostreams ngapId timer =>
      obtain ⟨r,hadd⟩ := call_ranUeAdd hstep
      have honly:=ranUeAdd_ok hadd
      exact h.kept honly.poolKept honly.gutisKept
    | ranUeRemove r =>
      cases hstep
      have honly:=s.ranUeRemove_ranUesOnly r
      exact h.kept honly.poolKept honly.gutisKept
    | amfUeAdd gnb timers =>
      cases hstep
      exact h.amfUeAdd hs.toPooled gnb timers
    | amfUeRemove u =>
      obtain ⟨s₁,hs₁,ho⟩ := map_eq_some_iff.mp hstep
      obtain rfl := (Outcome.ok.inj ho).1
      exact h.remove hv (by simpa [onLive] using honLive) hs₁
    | setSuci u a suci => exact h.setSuci hs hv hstep
    | setSupi u a supi => exact h.setSupi hstep
    | setGuami u guami =>
      cases hstep
      exact h.kept (s.modifyUe_poolKept (f := fun ue => { ue with guami := guami })
        (fun _ => rfl) u) (s.modifyUe_gutisKept u _ fun _ => ⟨rfl,rfl⟩)
    | newGuti u =>
      obtain ⟨t',ht',hnumbered⟩ :=
        h.newGuti hs.toPooled hv (u := u) (by simpa [onLive] using honLive)
      obtain rfl := (Outcome.ok.inj (ht'.symm.trans (some.inj hstep))).1
      exact hnumbered
    | confirmGuti u =>
      exact h.confirmGuti hs.toPooled hv (by simpa [onLive] using honLive)
        (some.inj hstep)
    | sessAdd u psi =>
      have honly:=amfSessAdd_ok (some.inj hstep)
      exact h.kept honly.poolKept honly.gutisKept
    | sessRemove n =>
      cases hstep
      have honly:=s.amfSessRemove_sessionsOnly n
      exact h.kept honly.poolKept honly.gutisKept
    | associateRanUe u r =>
      cases hstep
      have hpool:=s.modifyUe_poolKept (f := fun ue => { ue with ranUeId := (s.ranUe r).id })
        (fun _ => rfl) u
      have hkept:=s.modifyUe_gutisKept u (fun ue => { ue with ranUeId := (s.ranUe r).id })
        fun _ => ⟨rfl,rfl⟩
      exact h.kept ⟨hpool.pool,hpool.list,hpool.id⟩
        (hkept.trans ⟨rfl,rfl,rfl,rfl,fun _ => ⟨rfl,rfl⟩⟩)
    | ranUeDeassociate r =>
      cases hstep
      exact h.kept ⟨rfl,rfl,fun _ => rfl⟩ ⟨rfl,rfl,rfl,rfl,fun _ => ⟨rfl,rfl⟩⟩
    | amfUeDeassociate u =>
      cases hstep
      exact h.kept (s.modifyUe_poolKept (f := fun ue => { ue with ranUeId := 0 })
        (fun _ => rfl) u) (s.modifyUe_gutisKept u _ fun _ => ⟨rfl,rfl⟩)
    | associateTargetUe source target =>
      cases hstep
      exact h.kept ⟨rfl,rfl,fun _ => rfl⟩ ⟨rfl,rfl,rfl,rfl,fun _ => ⟨rfl,rfl⟩⟩
    | deassociateTargetUe r =>
      have honly:=sourceUeDeassociateTargetUe_ranUesOnly (some.inj hstep)
      exact h.kept honly.poolKept honly.gutisKept
    | releaseCommand r action =>
      cases hstep
      exact h.kept ⟨rfl,rfl,fun _ => rfl⟩ ⟨rfl,rfl,rfl,rfl,fun _ => ⟨rfl,rfl⟩⟩
    | releaseAction r => exact h.releaseAction hs.toPooled hv hstep

end Numbered

def valueOf (slot : GutiSlot) : Option (BitVec 32) := slot.mTmsi.map fun _ => slot.guti.mTmsi

def mTmsisOf (s : Ues) : List (BitVec 32) :=
  (s.amfUeList.filterMap fun u => valueOf (s.amfUe u).current) ++
    s.amfUeList.filterMap fun u => valueOf (s.amfUe u).next

/-- `s` is the state at the start. -/
structure GutisRight (s t : Ues) : Prop where
  distinct : t.mTmsisOf.Nodup
  top : ∀ v∈t.mTmsisOf,v &&& 0xc0000000#32=0xc0000000#32
  found : ∀ guti u,t.amfUeFindByGuti guti=some u ↔
    u∈t.amfUeList ∧ (t.amfUe u).current.mTmsi.isSome ∧ (t.amfUe u).current.guti=guti
  alloc : ∀ u∈t.amfUeList,∃ t',t.amfUeNewGuti u = .ok t' ()
  restored : t.amfUeList=[] → t.mTmsiPool.avail=t.mTmsiPool.size ∧ t.mTmsi=s.mTmsi

theorem filterMap_valueOf {slot : Nat → GutiSlot} {us : List Nat} {mTmsi : Nat → BitVec 32}
    (h : ∀ b∈holders (fun u => (slot u).mTmsi) us,(slot b.1).guti.mTmsi=mTmsi b.2) :
    (us.filterMap fun u => valueOf (slot u)) =
      (holders (fun u => (slot u).mTmsi) us).map fun b => mTmsi b.2 := by
  unfold holders at h ⊢
  rw [map_filterMap]
  apply filterMap_congr
  intro u hu
  cases hm : (slot u).mTmsi with
  | none => simp [valueOf,hm]
  | some m =>
    have hb:=h (u,m) (mem_filterMap.mpr ⟨u,hu,by simp [hm]⟩)
    simp [valueOf,hm,hb]

theorem Numbered.right {val : Nat → BitVec 32} {maxUe : Nat} (hs : s.Pooled)
    (h : s.Numbered val maxUe) (hv : Values val (maxUe*2)) {s₀ : Ues} (h₀ : s₀.mTmsi=val) :
    s₀.GutisRight s := by
  have hvs : Values val s.mTmsiPool.size := h.nodeSize ▸ hv
  have hvalues : s.mTmsisOf=(holders s.currentNode s.amfUeList ++
      holders s.nextNode s.amfUeList).map fun b => s.mTmsi b.2 := by
    rw [map_append]
    unfold mTmsisOf
    rw [filterMap_valueOf fun b hb => (h.gutis.current b hb).2,
      filterMap_valueOf fun b hb => (h.gutis.next b hb).2]
    rfl
  refine ⟨?_,?_,?_,?_,?_⟩
  · rw [hvalues]
    exact h.gutis.values_nodup hvs
  · intro v hmem
    rw [hvalues] at hmem
    obtain ⟨b,hb,rfl⟩ := List.mem_map.mp hmem
    rw [h.gutis.nodes.taken b.2 (List.mem_map_of_mem hb)]
    exact scatter_top _
  · intro guti u
    rw [h.gutis.find hvs]
    have hmem : u∈(holders s.currentNode s.amfUeList).map Prod.fst ↔
        u∈s.amfUeList ∧ (s.amfUe u).current.mTmsi.isSome := by
      rw [List.mem_map]
      constructor
      · rintro ⟨b,hb,rfl⟩
        obtain ⟨hu,hm⟩ := mem_holders.mp hb
        exact ⟨hu,isSome_iff_exists.mpr ⟨b.2,hm⟩⟩
      · rintro ⟨hu,hm⟩
        obtain ⟨m,hm⟩ := isSome_iff_exists.mp hm
        exact ⟨(u,m),mem_holders.mpr ⟨hu,hm⟩,rfl⟩
    rw [hmem,and_assoc]
  · intro u hu
    obtain ⟨t,ht,-⟩ := h.newGuti hs hv hu
    exact ⟨t,ht⟩
  · intro hnil
    have hnodes:=h.gutis.nodes
    rw [hnil] at hnodes
    obtain ⟨q,live,hsplit,hlive⟩ := hnodes.pool
    obtain rfl : live=[] := hlive.eq_nil
    have hlen:=hsplit.length_add
    have hq:=hsplit.queue.length_eq
    refine ⟨by simpa [hq] using hlen,funext fun m => ?_⟩
    rw [h₀]
    exact hnodes.idle m (by simp [holders])

theorem Numbered.init (config : UeConfig) (s : Ues) :
    (init config s).Numbered s.mTmsi config.maxUe where
  ueSize := rfl
  nodeSize := rfl
  gutis :=
    { nodes := ⟨⟨_,[],Pool.split_init _,List.Perm.nil⟩,fun _ _ => rfl,
        by simp [Ues.init,holders]⟩
      current := by simp [Ues.init,holders]
      next := by simp [Ues.init,holders]
      hash := ⟨[],List.Perm.nil,rfl⟩ }

end Ues

theorem values_of_perm {val : Nat → BitVec 32} {size : Nat} (hsize : size≤2^22-1)
    (hperm : ((List.range size).map fun m => (val m).toNat).Perm (List.range' 1 size)) :
    Values val size where
  le := by
    intro m hm
    have hmem : (val m).toNat∈List.range' 1 size :=
      hperm.mem_iff.mp (List.mem_map.mpr ⟨m,mem_range.mpr hm,rfl⟩)
    rw [mem_range'_1] at hmem
    have hbound : (0x003fffff#32).toNat=2^22-1 := by decide
    rw [BitVec.le_def]
    omega
  inj := by
    intro m hm m' hm' heq
    have hnodup : ((List.range size).map fun m => (val m).toNat).Nodup :=
      hperm.nodup_iff.mpr (nodup_range' ..)
    exact inj_on_of_nodup_map hnodup (mem_range.mpr hm) (mem_range.mpr hm')
      (congrArg BitVec.toNat heq)

def fullGutis : List UeOp :=
  [.amfUeAdd true true,.amfUeAdd true true,.newGuti 0,.newGuti 1,.confirmGuti 1,.newGuti 1,
    .confirmGuti 0,.newGuti 0]

def afterFullGutis : Ues := ((completed Ues.step (Ues.init ueConfig2 ues2) fullGutis)[8]?).getD ues2

end OgsDp.Amf
