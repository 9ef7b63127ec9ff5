import OgsDp.Lib.Run
import OgsDp.Amf.NgSetup

/-!
# The index of gNB ids (src/amf/context.c)

Two gNBs may have one id, and every gNB has id 0 before its first NG Setup.
-/

namespace OgsDp.Amf
open Lib RefTable OgsDp.Core

/-- What reaches the gNBs: `setGnbId` is a RAN Configuration Update with an id, `discovery` a
change of what the AMF knows of the DMF. -/
inductive GnbEvent where
  | gnbAdd
  | setGnbId (n : Nat) (gnbId : BitVec 32)
  | ngSetup (n : Nat) (message : NgSetupRequest)
  | gnbRemove (n : Nat)
  | discovery (dmfInstance dmfClient : Bool)

namespace Context

def step (c : Context) : GnbEvent → Option (Outcome Context Unit)
  | .gnbAdd => some (.ok c.gnbAdd.1 ())
  | .setGnbId n gnbId => if n∈c.gnbList then some (.ok (c.gnbSetGnbId n gnbId) ()) else none
  | .ngSetup n message =>
    if n∈c.gnbList then some (.ok (c.ngapHandleNgSetupRequest n message).1 ()) else none
  | .gnbRemove n => if n∈c.gnbList then some (.ok (c.gnbRemove n) ()) else none
  | .discovery dmfInstance dmfClient =>
    some (.ok { c with dmfInstance := dmfInstance,dmfClient := dmfClient } ())

/-- The table was filled with `l`, and the gNBs its entries refer and lead to are among `live` and
have the id of the entry. -/
structure Index (c : Context) (live : List Nat) (l : List (BitVec 32 × Nat)) : Prop where
  records : Records c.gnbIdKeys c.gnbIdHash l
  refers : List.Forall₂ (fun e b => (e.key∈live ∧ (c.gnb e.key).gnbId=b.1) ∧
    b.2∈live ∧ (c.gnb b.2).gnbId=b.1) c.gnbIdHash l

variable {c : Context} {live : List Nat} {l : List (BitVec 32 × Nat)} {n : Nat}

namespace Index

theorem intact (h : c.Index live l) : Intact c.gnbIdKeys c.gnbIdHash l :=
  h.refers.imp fun _ _ hr => beq_iff_eq.mpr hr.1.2

theorem find (h : c.Index live l) (gnbId : BitVec 32) :
    c.gnbFindByGnbId gnbId=binding l gnbId :=
  get_eq h.records h.intact gnbId

theorem find_some (h : c.Index live l) {gnbId : BitVec 32} {m : Nat}
    (hfind : c.gnbFindByGnbId gnbId=some m) : m∈live ∧ (c.gnb m).gnbId=gnbId := by
  rw [h.find,binding_eq_some h.records.nodup] at hfind
  obtain ⟨e,he⟩ := exists_left h.refers hfind
  exact he.2

theorem found_iff (h : c.Index live l) (gnbId : BitVec 32) :
    (∃ m∈live,c.gnbFindByGnbId gnbId=some m ∧ (c.gnb m).gnbId=gnbId) ↔
      gnbId∈l.map Prod.fst := by
  constructor
  · rintro ⟨m,-,hfind,-⟩
    rw [h.find,binding_eq_some h.records.nodup] at hfind
    exact List.mem_map.mpr ⟨_,hfind,rfl⟩
  · intro hmem
    obtain ⟨⟨k,m⟩,hb,rfl⟩ := List.mem_map.mp hmem
    have hfind : c.gnbFindByGnbId k=some m := by
      rw [h.find]
      exact binding_of_mem h.records.nodup hb
    obtain ⟨hlive,hid⟩ := h.find_some hfind
    exact ⟨m,hlive,hfind,hid⟩

theorem unset (h : c.Index live l) (n : Nat) :
    Index { c with gnbIdHash := RefTable.unset c.gnbIdKeys c.gnbIdHash (c.gnb n).gnbId }
      (live.erase n) (l.filter fun b => b.1≠(c.gnb n).gnbId) where
  records := records_unset h.records h.intact _
  refers := by
    apply forall₂_of_mem (unset_forall₂ h.records h.intact h.refers (c.gnb n).gnbId)
    intro e _ b hb hr
    have hne : b.1≠(c.gnb n).gnbId := by simpa using (List.mem_filter.mp hb).2
    have hkey : e.key≠n := by
      rintro rfl
      exact hne hr.1.2.symm
    have hval : b.2≠n := by
      rintro rfl
      exact hne hr.2.2.symm
    exact ⟨⟨(List.mem_erase_of_ne hkey).mpr hr.1.1,hr.1.2⟩,
      (List.mem_erase_of_ne hval).mpr hr.2.1,hr.2.2⟩

theorem congr {c' : Context} {live' : List Nat} (h : c.Index live l)
    (hhash : c'.gnbIdHash=c.gnbIdHash) (hseed : c'.seed=c.seed)
    (hid : ∀ m∈live,(c'.gnb m).gnbId=(c.gnb m).gnbId) (hlive : live ⊆ live') :
    c'.Index live' l where
  records := by
    rw [hhash]
    refine h.records.congr ?_ rfl
    unfold gnbIdKeys fieldKeys
    rw [hseed]
  refers := by
    rw [hhash]
    apply h.refers.imp
    intro e b hr
    exact ⟨⟨hlive hr.1.1,(hid _ hr.1.1).trans hr.1.2⟩,hlive hr.2.1,(hid _ hr.2.1).trans hr.2.2⟩

theorem set (h : c.Index live l) (hn : n∈live) :
    Index { c with gnbIdHash := RefTable.set c.gnbIdKeys c.gnbIdHash n (c.gnb n).gnbId n }
      live (rebind l (c.gnb n).gnbId n) where
  records := records_set h.records h.intact _ _ _
  refers := by
    apply set_forall₂ h.records h.intact h.refers
    · intro e w hr
      exact ⟨hr.1,hn,rfl⟩
    · exact ⟨⟨hn,rfl⟩,hn,rfl⟩

end Index

/-- The gNBs are the nodes in use of their pool, and the table is an index of them. -/
structure Indexed (c : Context) : Prop where
  pool : ∃ q,Pool.Split c.gnbPool q c.gnbList
  index : ∃ l,c.Index c.gnbList l

/-- The id of a connected gNB that completed NG Setup leads to a connected gNB that has it. -/
def Found (c : Context) : Prop :=
  ∀ n∈c.gnbList,(c.gnb n).ngSetupSuccess=true →
    ∃ m∈c.gnbList,c.gnbFindByGnbId (c.gnb n).gnbId=some m ∧ (c.gnb m).gnbId=(c.gnb n).gnbId

def Alone (c : Context) (n : Nat) : Prop :=
  ∀ m∈c.gnbList,m≠n → (c.gnb m).ngSetupSuccess=true → (c.gnb m).gnbId≠(c.gnb n).gnbId

end Context

/-- A gNB that gives up its id, for another one or for good, does not share it. -/
def GnbEvent.Spares (c : Context) : GnbEvent → Prop
  | .gnbAdd => True
  | .setGnbId n gnbId => n∈c.gnbList → gnbId≠(c.gnb n).gnbId → c.Alone n
  | .ngSetup n message => n∈c.gnbList → ∀ gnbId,(c.ngSetupCheck n message).2 = .ok gnbId →
      gnbId≠(c.gnb n).gnbId → c.Alone n
  | .gnbRemove n => n∈c.gnbList → c.Alone n
  | .discovery _ _ => True

namespace Context

variable {c : Context} {live : List Nat} {l : List (BitVec 32 × Nat)} {n : Nat}

namespace Index

theorem found (h : c.Index c.gnbList l) :
    c.Found ↔ ∀ m∈c.gnbList,(c.gnb m).ngSetupSuccess=true →
      (c.gnb m).gnbId∈l.map Prod.fst := by
  unfold Found
  simp only [h.found_iff]

theorem gnbSetGnbId (h : c.Index c.gnbList l) (hnodup : c.gnbList.Nodup) (hn : n∈c.gnbList)
    (gnbId : BitVec 32) :
    (c.gnbSetGnbId n gnbId).Index c.gnbList
      (rebind (l.filter fun b => b.1≠(c.gnb n).gnbId) gnbId n) := by
  have hunset:=h.unset n
  generalize hc₁ : ({ c with
    gnbIdHash := RefTable.unset c.gnbIdKeys c.gnbIdHash (c.gnb n).gnbId } : Context)=c₁ at hunset
  have hgnb : c₁.gnb=c.gnb := by rw [← hc₁]
  have hrenamed : (c₁.modify n fun gnb => { gnb with gnbId := gnbId }).Index c.gnbList
      (l.filter fun b => b.1≠(c.gnb n).gnbId) := by
    refine hunset.congr rfl rfl ?_ (List.erase_subset ..)
    intro m hm
    have hne : m≠n := by
      rintro rfl
      exact hnodup.not_mem_erase hm
    simp [Context.modify,hne]
  have hset:=hrenamed.set hn
  have hself : ((c₁.modify n fun gnb => { gnb with gnbId := gnbId }).gnb n).gnbId=gnbId := by
    simp [Context.modify]
  rw [hself,← hc₁] at hset
  exact hset

theorem found_renamed {c' : Context} {gnbId : BitVec 32} (h : c.Index c.gnbList l)
    (h' : c'.Index c.gnbList (rebind (l.filter fun b => b.1≠(c.gnb n).gnbId) gnbId n))
    (hlist : c'.gnbList=c.gnbList) (hself : (c'.gnb n).gnbId=gnbId)
    (hother : ∀ m,m≠n → (c'.gnb m).gnbId=(c.gnb m).gnbId ∧
      (c'.gnb m).ngSetupSuccess=(c.gnb m).ngSetupSuccess) (hfound : c.Found) :
    c'.Found ↔ (gnbId≠(c.gnb n).gnbId → c.Alone n) := by
  have hkeys : ∀ k,k∈(rebind (l.filter fun b => b.1≠(c.gnb n).gnbId) gnbId n).map Prod.fst ↔
      k=gnbId ∨ k≠(c.gnb n).gnbId ∧ k∈l.map Prod.fst := by
    intro k
    rw [mem_keys_rebind]
    simp only [List.mem_map,List.mem_filter,decide_eq_true_eq]
    apply or_congr_right
    constructor
    · rintro ⟨b,⟨hb,hne⟩,rfl⟩
      exact ⟨hne,b,hb,rfl⟩
    · rintro ⟨hne,b,hb,rfl⟩
      exact ⟨b,⟨hb,hne⟩,rfl⟩
  rw [h.found] at hfound
  rw [← hlist] at h'
  rw [h'.found,hlist]
  simp only [hkeys]
  constructor
  · intro hall hne m hm hmn hsetup heq
    have hkey:=hall m hm
    rw [(hother m hmn).1,(hother m hmn).2] at hkey
    rcases hkey hsetup with hid | hid
    · exact hne (hid.symm.trans heq)
    · exact hid.1 heq
  · intro halone m hm hsetup
    by_cases hmn : m=n
    · rw [hmn]
      exact .inl hself
    · rw [(hother m hmn).1]
      rw [(hother m hmn).2] at hsetup
      by_cases hid : (c.gnb m).gnbId=gnbId
      · exact .inl hid
      · refine .inr ⟨?_,hfound m hm hsetup⟩
        intro heq
        exact halone (fun he => hid (heq.trans he.symm)) m hm hmn hsetup heq

theorem gnbRemove (h : c.Index c.gnbList l) (n : Nat) :
    (c.gnbRemove n).Index (c.gnbList.erase n) (l.filter fun b => b.1≠(c.gnb n).gnbId) := by
  have hsent:=c.sbiSendGnbSyncToDmf_kept (gnbIdStr (c.gnb n).gnbId) false
  refine (h.unset n).congr ?_ hsent.seed (fun m _ => hsent.gnbId m) (List.Subset.refl _)
  simp only [Context.gnbRemove]
  rw [hsent.gnbIdKeys,hsent.gnbIdHash,hsent.gnbId]

end Index

theorem init (config : Config) (gnb : Nat → Gnb) (seed : BitVec 32) :
    (contextInit config gnb seed).Indexed where
  pool := ⟨_,Pool.split_init _⟩
  index := ⟨[],records_nil,List.Forall₂.nil⟩

theorem Kept.indexed {c' : Context} (hkept : c.Kept c') (h : c.Indexed) : c'.Indexed := by
  obtain ⟨q,hs⟩ := h.pool
  obtain ⟨l,hl⟩ := h.index
  constructor
  · rw [hkept.gnbPool,hkept.gnbList]
    exact ⟨q,hs⟩
  · rw [hkept.gnbList]
    exact ⟨l,hl.congr hkept.gnbIdHash hkept.seed (fun m _ => hkept.gnbId m)
      (List.Subset.refl _)⟩

theorem Kept.found {c' : Context} (hkept : c.Kept c') : c'.Found ↔ c.Found := by
  unfold Found gnbFindByGnbId
  rw [hkept.gnbIdKeys,hkept.gnbIdHash,hkept.gnbList]
  simp only [hkept.gnbId,hkept.ngSetupSuccess]

theorem Indexed.gnbAdd (h : c.Indexed) : c.gnbAdd.1.Indexed ∧ (c.Found → c.gnbAdd.1.Found) := by
  obtain ⟨q,hs⟩ := h.pool
  obtain ⟨l,hl⟩ := h.index
  unfold Context.gnbAdd
  cases q with
  | nil =>
    rw [hs.idCalloc_nil]
    exact ⟨h,id⟩
  | cons n q =>
    obtain ⟨pool,hcalloc,hsplit,-⟩ := hs.idCalloc
    have hfree:=hs.not_live_of_free (List.mem_cons_self ..)
    rw [hcalloc]
    simp only
    generalize nextId c.gnbPool.id 1 maxPoolId=id
    have hsent:=sbiSendGnbSyncToDmf_kept (c.gnbCalloc pool n id)
      (gnbIdStr ((c.gnbCalloc pool n id).gnb n).gnbId) true
    have hother : ∀ m∈c.gnbList,(c.gnbCalloc pool n id).gnb m=c.gnb m := by
      intro m hm
      apply gnbCalloc_of_ne
      rintro rfl
      exact hfree hm
    have hindex : (c.gnbCalloc pool n id).Index (c.gnbList++[n]) l := by
      refine hl.congr rfl rfl ?_ (List.subset_append_left ..)
      intro m hm
      exact congrArg Gnb.gnbId (hother m hm)
    refine ⟨hsent.indexed ⟨⟨q,hsplit⟩,l,hindex⟩,fun hfound => hsent.found.mpr ?_⟩
    refine (Index.found hindex).mpr ?_
    rw [hl.found] at hfound
    intro m hm hsetup
    rcases List.mem_append.mp hm with hm | hm
    · simp only [hother m hm] at hsetup ⊢
      exact hfound m hm hsetup
    · rw [List.mem_singleton.mp hm] at hsetup
      simp [gnbCalloc_self,Gnb.zero] at hsetup

theorem Indexed.setGnbId (h : c.Indexed) (hn : n∈c.gnbList) (gnbId : BitVec 32)
    {f : Gnb → Gnb} (hf : ∀ gnb,(f gnb).gnbId=gnb.gnbId) :
    ((c.gnbSetGnbId n gnbId).modify n f).Indexed ∧ (c.Found →
      (((c.gnbSetGnbId n gnbId).modify n f).Found ↔ (gnbId≠(c.gnb n).gnbId → c.Alone n))) := by
  obtain ⟨q,hs⟩ := h.pool
  obtain ⟨l,hl⟩ := h.index
  have hl':=(hl.gnbSetGnbId hs.live_nodup hn gnbId)
  have hid : ∀ m,(((c.gnbSetGnbId n gnbId).modify n f).gnb m).gnbId =
      ((c.gnbSetGnbId n gnbId).gnb m).gnbId := by
    intro m
    by_cases hm : m=n
    · subst hm
      simp [modify,hf]
    · simp [modify,hm]
  have hindex : ((c.gnbSetGnbId n gnbId).modify n f).Index c.gnbList
      (rebind (l.filter fun b => b.1≠(c.gnb n).gnbId) gnbId n) := by
    refine hl'.congr rfl rfl (fun m _ => hid m) (List.Subset.refl _)
  refine ⟨⟨⟨q,hs⟩,_,hindex⟩,hl.found_renamed hindex rfl ?_ ?_⟩
  · rw [hid]
    simp [gnbSetGnbId,modify]
  · intro m hm
    simp [gnbSetGnbId,modify,hm]

theorem Indexed.ngSetup (h : c.Indexed) (hn : n∈c.gnbList) (message : NgSetupRequest) :
    (c.ngapHandleNgSetupRequest n message).1.Indexed ∧ (c.Found →
      ((c.ngapHandleNgSetupRequest n message).1.Found ↔
        ∀ gnbId,(c.ngSetupCheck n message).2 = .ok gnbId →
          gnbId≠(c.gnb n).gnbId → c.Alone n)) := by
  have hkept:=c.ngSetupCheck_kept n message
  unfold ngapHandleNgSetupRequest
  cases hcheck : c.ngSetupCheck n message with
  | mk c₁ u =>
    rw [hcheck] at hkept
    change c.Kept c₁ at hkept
    cases u with
    | error cause =>
      refine ⟨hkept.indexed h,fun hfound => iff_of_true (hkept.found.mpr hfound) ?_⟩
      intro gnbId herror
      cases herror
    | ok gnbId =>
      have hn₁ : n∈c₁.gnbList := hkept.gnbList ▸ hn
      have halone : c₁.Alone n ↔ c.Alone n := by
        unfold Alone
        simp only [hkept.gnbList,hkept.gnbId,hkept.ngSetupSuccess]
      have hset:=(hkept.indexed h).setGnbId hn₁ gnbId
        (f := fun gnb => { gnb with ngSetupSuccess := true }) fun _ => rfl
      rw [halone,hkept.gnbId n,hkept.found] at hset
      simp only [Except.ok.injEq,forall_eq']
      exact hset

theorem Indexed.gnbRemove (h : c.Indexed) (hn : n∈c.gnbList) :
    (c.gnbRemove n).Indexed ∧ (c.Found → ((c.gnbRemove n).Found ↔ c.Alone n)) := by
  obtain ⟨q,hs⟩ := h.pool
  obtain ⟨l,hl⟩ := h.index
  have hl':=hl.gnbRemove n
  obtain ⟨hlist,hgnb,hpool⟩ := c.gnbRemove_frame n
  rw [← hlist] at hl'
  refine ⟨⟨?_,_,hl'⟩,fun hfound => ?_⟩
  · rw [hpool,hlist]
    exact ⟨_,hs.idFree hn _⟩
  · rw [hl'.found,hlist,hgnb]
    rw [hl.found] at hfound
    constructor
    · intro hall m hm hmn hsetup
      have hkey:=hall m ((List.mem_erase_of_ne hmn).mpr hm) hsetup
      obtain ⟨b,hb,hid⟩ := List.mem_map.mp hkey
      have hne:=(List.mem_filter.mp hb).2
      rw [hid] at hne
      simpa using hne
    · intro halone m hm hsetup
      have hmn : m≠n := by
        rintro rfl
        exact hs.live_nodup.not_mem_erase hm
      have hlive:=List.mem_of_mem_erase hm
      obtain ⟨b,hb,hid⟩ := List.mem_map.mp (hfound m hlive hsetup)
      refine List.mem_map.mpr ⟨b,List.mem_filter.mpr ⟨hb,?_⟩,hid⟩
      rw [hid]
      simpa using halone m hlive hmn hsetup

theorem Indexed.step {e : GnbEvent} {c' : Context} {r : Unit} (h : c.Indexed)
    (hstep : c.step e=some (.ok c' r)) :
    c'.Indexed ∧ (c.Found → (c'.Found ↔ GnbEvent.Spares c e)) := by
  unfold Context.step at hstep
  cases e with
  | gnbAdd =>
    cases hstep
    obtain ⟨hindexed,hfound⟩ := h.gnbAdd
    exact ⟨hindexed,fun hf => iff_of_true (hfound hf) trivial⟩
  | setGnbId n gnbId =>
    simp only at hstep
    split at hstep
    · rename_i hn
      cases hstep
      have hset:=h.setGnbId hn gnbId (f := id) fun _ => rfl
      rw [modify_id] at hset
      exact ⟨hset.1,fun hf => (hset.2 hf).trans ⟨fun hc _ => hc,fun hc => hc hn⟩⟩
    · cases hstep
  | ngSetup n message =>
    simp only at hstep
    split at hstep
    · rename_i hn
      cases hstep
      have hsetup:=h.ngSetup hn message
      exact ⟨hsetup.1,fun hf => (hsetup.2 hf).trans ⟨fun hc _ => hc,fun hc => hc hn⟩⟩
    · cases hstep
  | gnbRemove n =>
    simp only at hstep
    split at hstep
    · rename_i hn
      cases hstep
      have hremove:=h.gnbRemove hn
      exact ⟨hremove.1,fun hf => (hremove.2 hf).trans ⟨fun hc _ => hc,fun hc => hc hn⟩⟩
    · cases hstep
  | discovery dmfInstance dmfClient =>
    cases hstep
    have hkept : c.Kept { c with dmfInstance := dmfInstance,dmfClient := dmfClient } :=
      ⟨rfl,rfl,rfl,rfl,fun _ => rfl,fun _ => rfl⟩
    exact ⟨hkept.indexed h,fun hf => iff_of_true (hkept.found.mpr hf) trivial⟩

theorem spares_of_stopped {e : GnbEvent} (h : ∀ c' r,c.step e≠some (.ok c' r)) :
    GnbEvent.Spares c e := by
  cases e with
  | gnbAdd => trivial
  | setGnbId n gnbId => exact fun hn => absurd (if_pos hn) (h _ ())
  | ngSetup n message => exact fun hn => absurd (if_pos hn) (h _ ())
  | gnbRemove n => exact fun hn => absurd (if_pos hn) (h _ ())
  | discovery dmfInstance dmfClient => trivial

end Context

section Runs

variable (config : Config) (gnb : Nat → Gnb) (seed : BitVec 32) (es : List GnbEvent)

theorem gnbFindByGnbId_run :
    (∀ c∈completed Context.step (contextInit config gnb seed) es,∀ gnbId m,
      c.gnbFindByGnbId gnbId=some m → m∈c.gnbList ∧ (c.gnb m).gnbId=gnbId) ∧
    ((∀ c∈completed Context.step (contextInit config gnb seed) es,c.Found) ↔
      EachStep Context.step GnbEvent.Spares (contextInit config gnb seed) es) := by
  have hinit:=Context.init config gnb seed
  constructor
  · intro c hc gnbId m hfind
    have hindexed:=completed_inv (fun s e t r hs _ ho => (Context.Indexed.step hs ho).1) hinit
      (eachStep_of_forall (C := fun _ _ => True) fun _ _ => trivial) c hc
    obtain ⟨l,hl⟩ := hindexed.index
    exact hl.find_some hfind
  · apply completed_iff
    · intro s e t r hs hf ho
      have hstep:=Context.Indexed.step hs ho
      exact ⟨hstep.1,hstep.2 hf⟩
    · exact fun s e => Context.spares_of_stopped
    · exact hinit
    · intro n hn
      cases hn

end Runs

def plmn99970 : Vector Byte 3 := #v[0x99,0xf9,0x07]

def config1 : Config where
  peer := 64
  servedTai := [⟨[(plmn99970,[1])],[],[]⟩]
  plmnSupport := [⟨plmn99970,[⟨1,sNssaiNoSdValue⟩]⟩]

def ngSetup1 (gnbId : BitVec 32) : NgSetupRequest where
  globalRANNodeID := some (some ⟨plmn99970,gnbId⟩)
  supportedTAList := some [some ⟨1,[some ⟨plmn99970,[some ⟨1,none⟩]⟩]⟩]

def reconnection : List GnbEvent :=
  [.gnbAdd,.ngSetup 0 (ngSetup1 5),.gnbAdd,.ngSetup 1 (ngSetup1 5),.gnbRemove 0]

def runReconnection : List Context :=
  completed Context.step (contextInit config1 (fun _ => Gnb.zero) 0) reconnection

def afterReconnection : Context :=
  (runReconnection[5]?).getD (contextInit config1 (fun _ => Gnb.zero) 0)

set_option maxRecDepth 4000 in
theorem reconnected_gnb_lost : ¬ ∀ c∈runReconnection,c.Found := by
  intro h
  have hmem : afterReconnection∈runReconnection := List.mem_of_getElem? (i := 5) rfl
  have hlist : afterReconnection.gnbList=[1] := rfl
  have hsetup : (afterReconnection.gnb 1).ngSetupSuccess=true := rfl
  have hfind : afterReconnection.gnbFindByGnbId (afterReconnection.gnb 1).gnbId=none := rfl
  obtain ⟨m,-,hfound,-⟩ := h afterReconnection hmem 1 (by simp [hlist]) hsetup
  rw [hfind] at hfound
  cases hfound

end OgsDp.Amf
