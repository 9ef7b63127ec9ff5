import OgsDp.Pfcp.Rules

/-!
# The table of TEIDs (lib/pfcp/context.c)

`object_teid_hash` maps the TEID of a registered PDR to the PDR or to its session.
-/

namespace OgsDp.Pfcp
open Lib RefTable OgsDp.Core Function List Option

/-- A live PDR that `ogs_pfcp_object_teid_hash_set` has registered, and its TEID. -/
def Context.Registered (c : Context) (p : Nat) (t : BitVec 32) : Prop :=
  p∈c.pdrList (c.pdr p).sess ∧ (c.pdr p).hashLen≠0 ∧ (c.pdr p).fTeid.teid=t

instance (c : Context) (p : Nat) (t : BitVec 32) : Decidable (c.Registered p t) :=
  inferInstanceAs (Decidable (_ ∧ _ ∧ _))

def Context.Owns (c : Context) (t : BitVec 32) : Obj → Prop
  | .pdr p => p∈c.pdrList (c.pdr p).sess ∧ (c.pdr p).fTeid.teid=t
  | .sess s => ∃ p∈c.pdrList s,(c.pdr p).fTeid.teid=t

/-- Lookups find an owner for the TEID of a registered PDR and nothing for one without owner. -/
def TeidsFound (c : Context) : Prop :=
  ∀ t,((∃ p,c.Registered p t) → ∃ o,objectFindByTeid c t=some o ∧ c.Owns t o) ∧
    ((∀ s,∀ p∈c.pdrList s,(c.pdr p).fTeid.teid≠t) → objectFindByTeid c t=none)

def SoleOwner (c : Context) (p : Nat) : Prop :=
  ∀ p'∈List.range c.pdrPool.size,c.Registered p' (c.pdr p).fTeid.teid → p'=p

/-- A registered PDR has a TEID that no other PDR of its session has, and then none of another
session that is registered; or the entry of the TEID neither refers to the PDR nor depends on
it. -/
def RemovalKeeps (c : Context) (p : Nat) : Prop :=
  ((∀ q∈(c.pdrList (c.pdr p).sess).erase p,(c.pdr q).fTeid.teid≠(c.pdr p).fTeid.teid) ∧
      SoleOwner c p) ∨
    ((∃ q∈(c.pdrList (c.pdr p).sess).erase p,(c.pdr q).fTeid.teid=(c.pdr p).fTeid.teid) ∧
      (∀ e∈c.objectTeidHash,e.key≠p) ∧
        match objectFindByTeid c (c.pdr p).fTeid.teid with
        | none => True
        | some (.pdr p') => p'≠p
        | some (.sess s) => ∃ p'∈(c.pdrList s).erase p,c.Registered p' (c.pdr p).fTeid.teid)

def Op.removedPdr (c : Context) : Op → Option Nat
  | .pdrRemove _ p => some p
  | .handleRemovePdr s (some (some id)) => pdrFind c s id
  | _ => none

def pdiTeid (pdi : Pdi) : BitVec 32 :=
  pdi.localFTeid.elim 0 fun data => (FTeid.zero.copy data).ntoh.teid

/-- The known PDR whose F-TEID a handler overwrites, and the TEID that it gets. -/
def Op.setsTeid (c : Context) : Op → Option (Nat × BitVec 32)
  | .handleCreatePdr env s restoration (some m) =>
    (m.pdrId.bind (pdrFind c s)).bind fun p =>
      match createPdrCheck env c restoration m.pdi with
      | .error _ => none
      | .ok pdi => some (p,pdiTeid pdi)
  | .handleCreatedPdr env s (some m) =>
    (m.pdrId.bind (pdrFind c s)).bind fun p => m.localFTeid.bind fun data =>
      if fTeidHasAddr env data then some (p,((c.pdr p).fTeid.copy data).ntoh.teid) else none
  | .handleUpdatePdr env s (some m) =>
    (m.pdrId.bind (pdrFind c s)).bind fun p => m.pdi.bind fun pdi => pdi.localFTeid.bind fun data =>
      if pdi.sourceInterface.isSome ∧ fTeidHasAddr env data then
        some (p,((c.pdr p).fTeid.copy data).ntoh.teid)
      else none
  | _ => none

def Op.chooses (c : Context) : Op → Option Nat
  | .objectTeidHashSet env _ _ p => if env.ftup && (c.pdr p).fTeid.ch then some p else none
  | _ => none

/-- A registered PDR keeps its TEID while it is live, except that one which no other has may
be chosen anew; and one that is removed leaves the entry of its TEID in order. -/
def KeepsTeids (c : Context) (op : Op) : Prop :=
  (∀ p∈op.removedPdr c,(c.pdr p).hashLen≠0 → RemovalKeeps c p) ∧
    (∀ r∈op.setsTeid c,(c.pdr r.1).hashLen≠0 → r.2=(c.pdr r.1).fTeid.teid) ∧
      ∀ p∈op.chooses c,(c.pdr p).hashLen≠0 → SoleOwner c p

instance (c : Context) (p : Nat) : Decidable (SoleOwner c p) :=
  inferInstanceAs (Decidable (∀ p'∈List.range c.pdrPool.size,_))

instance (c : Context) (p : Nat) : Decidable (RemovalKeeps c p) :=
  have : Decidable (match objectFindByTeid c (c.pdr p).fTeid.teid with
      | none => True
      | some (.pdr p') => p'≠p
      | some (.sess s) => ∃ p'∈(c.pdrList s).erase p,c.Registered p' (c.pdr p).fTeid.teid) :=
    match objectFindByTeid c (c.pdr p).fTeid.teid with
    | none => isTrue trivial
    | some (.pdr p') => inferInstanceAs (Decidable (p'≠p))
    | some (.sess s) => inferInstanceAs (Decidable (∃ p'∈(c.pdrList s).erase p,_))
  inferInstanceAs (Decidable ((_ ∧ _) ∨ (_ ∧ _ ∧ _)))

instance (c : Context) (op : Op) : Decidable (KeepsTeids c op) :=
  inferInstanceAs (Decidable (_ ∧ _ ∧ _))

structure Bound (c : Context) (e : Entry Nat Obj) (b : BitVec 32 × Obj) : Prop where
  ref : c.Registered e.key b.1
  owner : match b.2 with
    | .pdr p => c.Registered p b.1
    | .sess s => ∃ p∈c.pdrList s,c.Registered p b.1

/-- The table has an entry for the TEIDs in `T` of registered PDRs, and no others but such. -/
structure TabledOn (T : BitVec 32 → Prop) (c : Context) : Prop where
  pdrs : c.PdrsOk
  key : ∀ p t,c.Registered p t → (c.pdr p).hashKey=t
  table : ∃ l,Records c.teidKeys c.objectTeidHash l ∧
    List.Forall₂ (Bound c) c.objectTeidHash l ∧
      ∀ p t,c.Registered p t → T t → t∈l.map Prod.fst

abbrev Tabled : Context → Prop := TabledOn fun _ => True

namespace TabledOn

variable {T : BitVec 32 → Prop} {c c' : Context}

theorem intact (hkey : ∀ p t,c.Registered p t → (c.pdr p).hashKey=t) {l : List (BitVec 32 × Obj)}
    (hb : List.Forall₂ (Bound c) c.objectTeidHash l) : Intact c.teidKeys c.objectTeidHash l :=
  hb.imp fun e b h => by simp [Context.teidKeys,fieldKeys,hkey _ _ h.ref]

theorem init (poolSess : Nat) (random : Nat → Nat) (seed : BitVec 32) :
    TabledOn T (contextInit poolSess random seed) where
  pdrs := .init poolSess random seed
  key := fun p t h => by cases h.1
  table := ⟨[],records_nil,List.Forall₂.nil,fun p t h => by cases h.1⟩

theorem teidsFound (h : Tabled c) : TeidsFound c := by
  obtain ⟨l,hrec,hb,hall⟩ := h.table
  have hget : ∀ t,objectFindByTeid c t=binding l t :=
    fun t => get_eq hrec (intact h.key hb) t
  have hmem : ∀ b∈l,∃ e,Bound c e b := fun b hbl => exists_left hb hbl
  intro t
  constructor
  · intro hreg
    obtain ⟨p,hp⟩ := hreg
    obtain ⟨b,hbl,rfl⟩ := List.mem_map.mp (hall p t hp trivial)
    obtain ⟨e,he⟩ := hmem b hbl
    refine ⟨b.2,(hget b.1).trans (binding_of_mem hrec.nodup hbl),?_⟩
    have howner:=he.owner
    cases hb2 : b.2 with
    | pdr p' =>
      rw [hb2] at howner
      exact ⟨howner.1,howner.2.2⟩
    | sess s =>
      rw [hb2] at howner
      obtain ⟨p',hp',hreg'⟩ := howner
      exact ⟨p',hp',hreg'.2.2⟩
  · intro hno
    rw [hget]
    cases hbind : binding l t with
    | none => rfl
    | some o =>
      obtain ⟨e,he⟩ := hmem _ ((binding_eq_some hrec.nodup).mp hbind)
      exact absurd he.ref.2.2 (hno _ _ he.ref.1)

theorem frame (h : TabledOn T c) (hok : c'.PdrsOk) (hseed : c'.seed=c.seed)
    (htable : c'.objectTeidHash=c.objectTeidHash)
    (hreg : ∀ p t,c'.Registered p t ↔ c.Registered p t)
    (hsame : ∀ p t,c.Registered p t →
      (c'.pdr p).hashKey=(c.pdr p).hashKey ∧ (c'.pdr p).sess=(c.pdr p).sess) :
    TabledOn T c' where
  pdrs := hok
  key := by
    intro p t hp
    have hp':=(hreg p t).mp hp
    rw [(hsame p t hp').1]
    exact h.key p t hp'
  table := by
    obtain ⟨l,hrec,hb,hall⟩ := h.table
    refine ⟨l,?_,?_,fun p t hp => hall p t ((hreg p t).mp hp)⟩
    · rw [htable]
      exact hrec.congr (by simp [Context.teidKeys,fieldKeys,hseed]) rfl
    · rw [htable]
      refine hb.imp fun e b hb => ⟨(hreg _ _).mpr hb.ref,?_⟩
      have howner:=hb.owner
      cases hb2 : b.2 with
      | pdr p =>
        rw [hb2] at howner
        exact (hreg _ _).mpr howner
      | sess s =>
        rw [hb2] at howner
        obtain ⟨p,hp,hreg'⟩ := howner
        have hp':=(hreg _ _).mpr hreg'
        have hs : (c'.pdr p).sess=s :=
          ((hsame p _ hreg').2).trans (h.pdrs.sess s p hp)
        exact ⟨p,hs ▸ hp'.1,hp'⟩

end TabledOn

def Pdr.key (x : Pdr) : Nat × BitVec 32 := (x.hashLen,x.hashKey)

structure SameKeys (c c' : Context) : Prop where
  pdrs : c.SamePdrs c'
  seed : c'.seed=c.seed
  table : c'.objectTeidHash=c.objectTeidHash
  key : ∀ p,(c'.pdr p).key=(c.pdr p).key

structure SameTeids (c c' : Context) : Prop where
  keys : SameKeys c c'
  teid : ∀ p,(c'.pdr p).fTeid.teid=(c.pdr p).fTeid.teid

theorem SameKeys.refl (c : Context) : SameKeys c c := ⟨.refl c,rfl,rfl,fun _ => rfl⟩

theorem SameTeids.refl (c : Context) : SameTeids c c := ⟨.refl c,fun _ => rfl⟩

theorem SameKeys.trans {c c' c'' : Context} (h : SameKeys c c') (h' : SameKeys c' c'') :
    SameKeys c c'' where
  pdrs := h.pdrs.trans h'.pdrs
  seed := h'.seed.trans h.seed
  table := h'.table.trans h.table
  key := fun p => (h'.key p).trans (h.key p)

theorem SameTeids.trans {c c' c'' : Context} (h : SameTeids c c') (h' : SameTeids c' c'') :
    SameTeids c c'' where
  keys := h.keys.trans h'.keys
  teid := fun p => (h'.teid p).trans (h.teid p)

theorem sameKeys_modify (c : Context) (p : Nat) {f : Pdr → Pdr} (hsess : ∀ x,(f x).sess=x.sess)
    (hkey : ∀ x,(f x).key=x.key) : SameKeys c (c.modify p f) :=
  ⟨Context.samePdrs_modify c p hsess,rfl,rfl,Context.modify_pdr_frame c p f Pdr.key hkey⟩

theorem sameTeids_modify (c : Context) (p : Nat) {f : Pdr → Pdr} (hsess : ∀ x,(f x).sess=x.sess)
    (hkey : ∀ x,(f x).key=x.key) (hteid : ∀ x,(f x).fTeid=x.fTeid) :
    SameTeids c (c.modify p f) :=
  ⟨sameKeys_modify c p hsess hkey,
    Context.modify_pdr_frame c p f (fun x => x.fTeid.teid) fun x => by rw [hteid]⟩

theorem SameKeys.hashLen {c c' : Context} (h : SameKeys c c') (p : Nat) :
    (c'.pdr p).hashLen=(c.pdr p).hashLen := congrArg Prod.fst (h.key p)

theorem SameKeys.hashKey {c c' : Context} (h : SameKeys c c') (p : Nat) :
    (c'.pdr p).hashKey=(c.pdr p).hashKey := congrArg Prod.snd (h.key p)

theorem SameKeys.teidKeys {c c' : Context} (h : SameKeys c c') : c'.teidKeys=c.teidKeys := by
  have hkeys : (fun p => (c'.pdr p).hashKey) = fun p => (c.pdr p).hashKey := funext h.hashKey
  rw [Context.teidKeys,Context.teidKeys,h.seed,hkeys]

theorem SameKeys.find {c c' : Context} (h : SameKeys c c') :
    objectFindByTeid c'=objectFindByTeid c := by
  funext t
  rw [objectFindByTeid,objectFindByTeid,h.teidKeys,h.table]

namespace TabledOn

variable {T T' : BitVec 32 → Prop} {c c' : Context} {s p : Nat}

theorem same (h : TabledOn T c) (hc : SameKeys c c')
    (hteid : ∀ q,(c.pdr q).hashLen≠0 → (c'.pdr q).fTeid.teid=(c.pdr q).fTeid.teid) :
    TabledOn T c' := by
  refine h.frame (h.pdrs.congr hc.pdrs) hc.seed hc.table ?_
    fun q t _ => ⟨hc.hashKey q,hc.pdrs.sess q⟩
  intro q t
  simp only [Context.Registered,hc.pdrs.sess,hc.hashLen,(hc.pdrs.list _).mem_iff]
  refine and_congr_right fun _ => and_congr_right fun hlen => ?_
  rw [hteid q hlen]

theorem sameTeids (h : TabledOn T c) (hc : SameTeids c c') : TabledOn T c' :=
  h.same hc.keys fun q _ => hc.teid q

theorem pdrAdd (h : TabledOn T c) (s : Nat) :
    (Pfcp.pdrAdd c s).Returns fun c' r =>
      TabledOn T c' ∧ ∀ p∈r,p∈c'.pdrList s ∧ (c'.pdr p).hashLen=0 := by
  refine (pdrAdd_returns h.pdrs s).mono ?_
  intro c' r hadd
  obtain ⟨hok,hadd⟩ := hadd
  have hlisted : ∀ {p q : Nat} {t : BitVec 32}, ¬ c.Listed p → c.Registered q t → q≠p :=
    fun hp hq he => hp ⟨_,he ▸ hq.1⟩
  cases hadd with
  | full => exact ⟨h,by simp⟩
  | @noId p k pool teidPool hp hk =>
    refine ⟨h.frame hok rfl rfl ?_ ?_,by simp⟩
    · intro q t
      by_cases he : q=p
      · subst he
        simp only [Context.Registered,update_self,blankPdr,Pdr.zero,ne_eq,
          not_true_eq_false,false_and,and_false,false_iff]
        exact fun hq => hp ⟨_,hq.1⟩
      · simp only [Context.Registered,update_of_ne he]
    · intro q t hq
      simp only [update_of_ne (hlisted hp hq),and_self]
  | @added p k i pool teidPool idPool hp hk =>
    refine ⟨h.frame hok rfl rfl ?_ ?_,by simp [blankPdr,Pdr.zero]⟩
    · intro q t
      by_cases he : q=p
      · subst he
        simp only [Context.Registered,update_self,blankPdr,Pdr.zero,ne_eq,
          not_true_eq_false,false_and,and_false,false_iff]
        exact fun hq => hp ⟨_,hq.1⟩
      · simp only [Context.Registered,update_of_ne he,mem_update_append,he,and_false,
          or_false]
    · intro q t hq
      simp only [update_of_ne (hlisted hp hq),and_self]

theorem unique_of_sole (h : c.PdrsOk) (hsole : SoleOwner c p) {q : Nat}
    (hq : c.Registered q (c.pdr p).fTeid.teid) : q=p := by
  obtain ⟨free,live,hs,hlive⟩ := h.split
  exact hsole q (mem_range.mpr (hs.lt_size (hlive _ q hq.1))) hq

theorem pdrRemove (h : Tabled c) (hp : p∈c.pdrList s)
    (hkeep : (c.pdr p).hashLen≠0 → RemovalKeeps c p) : Tabled (Pfcp.pdrRemove c p) := by
  obtain ⟨hok,hpdr,hmem⟩ := pdrRemove_pdrsOk h.pdrs hp
  have hreg : ∀ q t,(Pfcp.pdrRemove c p).Registered q t ↔ c.Registered q t ∧ q≠p := by
    intro q t
    simp only [Context.Registered,hpdr,hmem]
    tauto
  have hseed : (Pfcp.pdrRemove c p).seed=c.seed := by
    simp only [Pfcp.pdrRemove]
    split <;> rfl
  have hkeys : (Pfcp.pdrRemove c p).teidKeys=c.teidKeys := by
    rw [Context.teidKeys,Context.teidKeys,hseed,hpdr]
  have hsess:=h.pdrs.sess s p hp
  by_cases hlen : (c.pdr p).hashLen=0
  · have htable : (Pfcp.pdrRemove c p).objectTeidHash=c.objectTeidHash := by
      simp [Pfcp.pdrRemove,hlen]
    refine h.frame hok hseed htable ?_ fun q t _ => by rw [hpdr]; exact ⟨rfl,rfl⟩
    intro q t
    rw [hreg]
    refine and_iff_left_of_imp ?_
    rintro hq rfl
    exact hq.2.1 hlen
  · have hpreg : c.Registered p (c.pdr p).fTeid.teid := ⟨by rw [hsess]; exact hp,hlen,rfl⟩
    have hkey : (c.pdr p).hashKey=(c.pdr p).fTeid.teid := h.key p _ hpreg
    have hother : ∀ q t,c.Registered q t → t≠(c.pdr p).fTeid.teid → q≠p := by
      rintro q t hq hne rfl
      exact hne hq.2.2.symm
    obtain ⟨l,hrec,hb,hall⟩ := h.table
    -- entries of other TEIDs are not affected
    have hbound : ∀ e b,Bound c e b → b.1≠(c.pdr p).fTeid.teid →
        Bound (Pfcp.pdrRemove c p) e b := by
      intro e b he hne
      refine ⟨(hreg _ _).mpr ⟨he.ref,hother _ _ he.ref hne⟩,?_⟩
      have howner:=he.owner
      cases hb2 : b.2 with
      | pdr q =>
        rw [hb2] at howner
        exact (hreg _ _).mpr ⟨howner,hother _ _ howner hne⟩
      | sess s' =>
        rw [hb2] at howner
        obtain ⟨q,hq,hqreg⟩ := howner
        have hqp:=hother _ _ hqreg hne
        exact ⟨q,(hmem s' q).mpr ⟨hq,hqp⟩,(hreg _ _).mpr ⟨hqreg,hqp⟩⟩
    have hcount : objectCountByTeid { c with
        pdrList := update c.pdrList (c.pdr p).sess ((c.pdrList (c.pdr p).sess).erase p) }
        (c.pdr p).sess (c.pdr p).fTeid.teid =
          ((c.pdrList (c.pdr p).sess).erase p).countP
            fun q => (c.pdr q).fTeid.teid == (c.pdr p).fTeid.teid := by
      simp only [objectCountByTeid,update_self]
    refine ⟨hok,fun q t hq => by rw [hpdr]; exact h.key q t ((hreg q t).mp hq).1,?_⟩
    rw [hkeys]
    rcases hkeep hlen with ⟨hnone,hsole⟩ | ⟨hshared,hrefs,hvalue⟩
    · have htable : (Pfcp.pdrRemove c p).objectTeidHash =
          unset c.teidKeys c.objectTeidHash (c.pdr p).fTeid.teid := by
        have hzero : ((c.pdrList (c.pdr p).sess).erase p).countP
            (fun q => (c.pdr q).fTeid.teid == (c.pdr p).fTeid.teid)=0 := by
          rw [countP_eq_zero]
          intro q hq
          simpa using hnone q hq
        simp only [Pfcp.pdrRemove,hcount,hzero,hkey]
        rw [if_pos ⟨hlen,trivial⟩]
        rfl
      rw [htable]
      have hi:=intact h.key hb
      refine ⟨_,records_unset hrec hi _,?_,?_⟩
      · refine forall₂_of_mem (unset_forall₂ hrec hi hb _) ?_
        intro e _ b hbl he
        exact hbound e b he (by simpa using (mem_filter.mp hbl).2)
      · intro q t hq _
        obtain ⟨hq,hqp⟩ := (hreg q t).mp hq
        obtain ⟨b,hbl,rfl⟩ := List.mem_map.mp (hall q t hq trivial)
        refine List.mem_map.mpr ⟨b,mem_filter.mpr ⟨hbl,?_⟩,rfl⟩
        have hne : b.1≠(c.pdr p).fTeid.teid :=
          fun he => hqp (unique_of_sole h.pdrs hsole (he ▸ hq))
        simpa using hne
    · have htable : (Pfcp.pdrRemove c p).objectTeidHash=c.objectTeidHash := by
        have hpos : ((c.pdrList (c.pdr p).sess).erase p).countP
            (fun q => (c.pdr q).fTeid.teid == (c.pdr p).fTeid.teid)≠0 := by
          rw [Ne,countP_eq_zero]
          obtain ⟨q,hq,hqt⟩ := hshared
          exact fun hall => hall q hq (by simpa using hqt)
        simp only [Pfcp.pdrRemove,hcount]
        rw [if_neg fun hh => hpos hh.2]
      rw [htable]
      refine ⟨l,hrec,forall₂_of_mem hb ?_,fun q t hq _ => hall q t ((hreg q t).mp hq).1 trivial⟩
      intro e hel b hbl he
      by_cases hbt : b.1=(c.pdr p).fTeid.teid
      · have hfind : objectFindByTeid c (c.pdr p).fTeid.teid=some b.2 := by
          rw [objectFindByTeid,get_eq hrec (intact h.key hb)]
          exact binding_of_mem hrec.nodup (hbt ▸ hbl)
        rw [hfind] at hvalue
        refine ⟨(hreg _ _).mpr ⟨he.ref,hrefs e hel⟩,?_⟩
        have howner:=he.owner
        cases hb2 : b.2 with
        | pdr q =>
          rw [hb2] at howner hvalue
          exact (hreg _ _).mpr ⟨howner,hvalue⟩
        | sess s' =>
          rw [hb2] at hvalue
          obtain ⟨q,hq,hqreg⟩ := hvalue
          have hq':=(h.pdrs.nodup s').mem_erase_iff.mp hq
          exact ⟨q,(hmem s' q).mpr ⟨hq'.2,hq'.1⟩,(hreg _ _).mpr ⟨hbt ▸ hqreg,hq'.1⟩⟩
      · exact hbound e b he hbt

theorem pdrSetTeid (h : TabledOn T c) (hp : p∈c.pdrList s) (hlen : (c.pdr p).hashLen=0)
    (type : ObjType) :
    TabledOn (fun t => T t ∨ t=(c.pdr p).fTeid.teid) (Pfcp.pdrSetTeid type c p) := by
  obtain ⟨l,hrec,hb,hall⟩ := h.table
  have hsess:=h.pdrs.sess s p hp
  let c1:=c.modify p fun x => { x with hashKey := x.fTeid.teid,hashLen := 4 }
  have hself : c1.pdr p = { c.pdr p with hashKey := (c.pdr p).fTeid.teid,hashLen := 4 } :=
    update_self ..
  have hother : ∀ q,q≠p → c1.pdr q=c.pdr q := fun q hq => update_of_ne hq _ _
  have hok : c1.PdrsOk := h.pdrs.congr (Context.samePdrs_modify c p fun _ => rfl)
  have hpreg : c1.Registered p (c.pdr p).fTeid.teid := by
    refine ⟨?_,?_,?_⟩
    · rw [hself]
      exact hsess ▸ hp
    · simp [hself]
    · rw [hself]
  have hne : ∀ q t,c.Registered q t → q≠p := by
    rintro q t hq rfl
    exact hq.2.1 hlen
  have hmono : ∀ q t,c.Registered q t → c1.Registered q t := by
    intro q t hq
    rw [Context.Registered,hother q (hne q t hq)]
    exact hq
  have hinv : ∀ q t,c1.Registered q t → c.Registered q t ∨ q=p ∧ t=(c.pdr p).fTeid.teid := by
    intro q t hq
    by_cases he : q=p
    · subst he
      exact .inr ⟨rfl,by rw [← hq.2.2,hself]⟩
    · rw [Context.Registered,hother q he] at hq
      exact .inl hq
  have hkey : ∀ q t,c1.Registered q t → (c1.pdr q).hashKey=t := by
    intro q t hq
    rcases hinv q t hq with hq' | ⟨rfl,rfl⟩
    · rw [hother q (hne q t hq')]
      exact h.key q t hq'
    · rw [hself]
  have hrec1 : Records c1.teidKeys c.objectTeidHash l := hrec.congr rfl rfl
  have hb1 : List.Forall₂ (Bound c1) c.objectTeidHash l := by
    refine hb.imp fun e b he => ⟨hmono _ _ he.ref,?_⟩
    have howner:=he.owner
    cases hb2 : b.2 with
    | pdr q =>
      rw [hb2] at howner
      exact hmono _ _ howner
    | sess s' =>
      rw [hb2] at howner
      obtain ⟨q,hq,hqreg⟩ := howner
      exact ⟨q,hq,hmono _ _ hqreg⟩
  have hi1 : Intact c1.teidKeys c.objectTeidHash l :=
    hb1.imp fun e b h => by simp [Context.teidKeys,fieldKeys,hkey _ _ h.ref]
  have hvalue : ∀ e : Entry Nat Obj, c1.Registered e.key (c.pdr p).fTeid.teid →
      Bound c1 e ((c.pdr p).fTeid.teid,type.obj c1 p) := by
    intro e he
    refine ⟨he,?_⟩
    cases type with
    | pdr => exact hpreg
    | sess => exact ⟨p,hpreg.1,hpreg⟩
  have hfinal : Pfcp.pdrSetTeid type c p = { c1 with
      objectTeidHash :=
        set c1.teidKeys c.objectTeidHash p (c.pdr p).fTeid.teid (type.obj c1 p) } := by
    simp only [Pfcp.pdrSetTeid,c1,Context.modify,update_self]
  rw [hfinal]
  refine ⟨⟨hok.split,hok.nodup,hok.sess⟩,hkey,_,records_set hrec1 hi1 p _ _,?_,?_⟩
  · exact (set_forall₂ hrec1 hi1 hb1 (fun e w he => hvalue _ he.ref) (hvalue _ hpreg)).imp
      fun e b he => ⟨he.ref,he.owner⟩
  · intro q t hq ht
    rw [mem_keys_rebind]
    rcases hinv q t hq with hq | ⟨-,ht⟩
    · rcases ht with ht | ht
      · exact .inr (hall q t hq ht)
      · exact .inl ht
    · exact .inl ht

theorem unset (h : Tabled c) (hc : SameKeys c c') (hp : p∈c.pdrList s)
    (hteid : ∀ q,q≠p → (c'.pdr q).fTeid.teid=(c.pdr q).fTeid.teid)
    (hlen : (c.pdr p).hashLen≠0) :
    TabledOn (fun t => SoleOwner c p ∨ t≠(c.pdr p).fTeid.teid)
      ((pdrUnsetTeid c' p).modify p fun x => { x with hashLen := 0 }) := by
  obtain ⟨l,hrec,hb,hall⟩ := h.table
  have hpreg : c.Registered p (c.pdr p).fTeid.teid := ⟨by rw [h.pdrs.sess s p hp]; exact hp,hlen,rfl⟩
  have hkey : (c'.pdr p).hashKey=(c.pdr p).fTeid.teid := (hc.hashKey p).trans (h.key p _ hpreg)
  have hunset : pdrUnsetTeid c' p = { c' with
      objectTeidHash := RefTable.unset c.teidKeys c.objectTeidHash (c.pdr p).fTeid.teid } := by
    have hlen' : (c'.pdr p).hashLen≠0 := by
      rw [hc.hashLen]
      exact hlen
    rw [pdrUnsetTeid,if_pos hlen',hkey,hc.teidKeys,hc.table]
  rw [hunset]
  generalize hc2 : Context.modify { c' with
    objectTeidHash := RefTable.unset c.teidKeys c.objectTeidHash (c.pdr p).fTeid.teid } p
      (fun x => { x with hashLen := 0 })=c2
  have hsame : c.SamePdrs c2 := by
    rw [← hc2]
    exact hc.pdrs.trans ⟨rfl,fun _ => Perm.refl _,
      Context.modify_pdr_frame _ p (fun x => { x with hashLen := 0 }) Pdr.sess fun _ => rfl⟩
  have hpdr : ∀ q,q≠p → c2.pdr q=c'.pdr q := by
    intro q hq
    rw [← hc2]
    exact update_of_ne hq _ _
  have hkeys : c2.teidKeys=c.teidKeys := by
    have hk : (fun q => (c2.pdr q).hashKey) = fun q => (c'.pdr q).hashKey := by
      funext q
      rw [← hc2]
      exact Context.modify_pdr_frame _ p (fun x => { x with hashLen := 0 }) Pdr.hashKey
        (fun _ => rfl) q
    rw [← hc.teidKeys,Context.teidKeys,Context.teidKeys,hk,← hc2]
    rfl
  have hreg : ∀ q t,c2.Registered q t ↔ c.Registered q t ∧ q≠p := by
    intro q t
    by_cases he : q=p
    · subst he
      simp only [ne_eq,not_true_eq_false,and_false,iff_false]
      intro hq
      apply hq.2.1
      rw [← hc2]
      simp [Context.modify]
    · rw [Context.Registered,hpdr q he,(hsame.list _).mem_iff,hc.pdrs.sess,hc.hashLen,
        hteid q he,Context.Registered]
      exact (and_iff_left he).symm
  have hother : ∀ q t,c.Registered q t → t≠(c.pdr p).fTeid.teid → q≠p := by
    rintro q t hq hne rfl
    exact hne hq.2.2.symm
  have htable : c2.objectTeidHash =
      RefTable.unset c.teidKeys c.objectTeidHash (c.pdr p).fTeid.teid := by
    rw [← hc2]
    rfl
  have hi:=intact h.key hb
  refine ⟨h.pdrs.congr hsame,?_,?_⟩
  · intro q t hq
    obtain ⟨hq,hne⟩ := (hreg q t).mp hq
    rw [hpdr q hne,hc.hashKey]
    exact h.key q t hq
  · rw [hkeys,htable]
    refine ⟨_,records_unset hrec hi _,?_,?_⟩
    · refine forall₂_of_mem (unset_forall₂ hrec hi hb _) ?_
      intro e _ b hbl he
      have hne : b.1≠(c.pdr p).fTeid.teid := by simpa using (mem_filter.mp hbl).2
      refine ⟨(hreg _ _).mpr ⟨he.ref,hother _ _ he.ref hne⟩,?_⟩
      have howner:=he.owner
      cases hb2 : b.2 with
      | pdr q =>
        rw [hb2] at howner
        exact (hreg _ _).mpr ⟨howner,hother _ _ howner hne⟩
      | sess s' =>
        rw [hb2] at howner
        obtain ⟨q,hq,hqreg⟩ := howner
        exact ⟨q,(hsame.list s').mem_iff.mpr hq,(hreg _ _).mpr ⟨hqreg,hother _ _ hqreg hne⟩⟩
    · intro q t hq ht
      obtain ⟨hq,hqp⟩ := (hreg q t).mp hq
      obtain ⟨b,hbl,rfl⟩ := List.mem_map.mp (hall q t hq trivial)
      refine List.mem_map.mpr ⟨b,mem_filter.mpr ⟨hbl,?_⟩,rfl⟩
      rcases ht with hsole | ht
      · have hne : b.1≠(c.pdr p).fTeid.teid :=
          fun he => hqp (unique_of_sole h.pdrs hsole (he ▸ hq))
        simpa using hne
      · simpa using ht

theorem mono (h : TabledOn T' c) (hT : ∀ t,T t → T' t) : TabledOn T c where
  pdrs := h.pdrs
  key := h.key
  table := by
    obtain ⟨l,hrec,hb,hall⟩ := h.table
    exact ⟨l,hrec,hb,fun p t hp ht => hall p t hp (hT t ht)⟩

end TabledOn

theorem chooseFTeid_returns (env : Env) (c : Context) (p : Nat) :
    (pdrChooseFTeid env c p).Returns fun c' _ => SameKeys c c' ∧
      (∀ q,q≠p → (c'.pdr q).fTeid.teid=(c.pdr q).fTeid.teid) ∧
        ((env.ftup && (c.pdr p).fTeid.ch)=false → c'=c) := by
  have hne : ∀ (c : Context) (f : Pdr → Pdr) q,q≠p →
      ((c.modify p f).pdr q).fTeid.teid=(c.pdr q).fTeid.teid := by
    intro c f q hq
    simp only [Context.modify,update_of_ne hq]
  simp only [pdrChooseFTeid]
  split
  · rename_i hch
    split
    · split
      · exact ⟨sameKeys_modify c p (by simp) (by simp [Pdr.key]),hne c _,by simp [hch]⟩
      · trivial
    · cases chooseFTeid env (c.pdr p) with
      | none => trivial
      | some r =>
        simp only
        split
        · refine ⟨?_,?_,by simp [hch]⟩
          · exact (sameKeys_modify c p (f := fun x =>
              { x with chid := true,chooseId := x.fTeid.chooseId }) (by simp)
              (by simp [Pdr.key])).trans (sameKeys_modify _ p (by simp) (by simp [Pdr.key]))
          · intro q hq
            rw [hne _ _ q hq,hne _ _ q hq]
        · exact ⟨sameKeys_modify c p (by simp) (by simp [Pdr.key]),hne c _,by simp [hch]⟩
  · exact ⟨.refl c,fun _ _ => rfl,fun _ => rfl⟩

theorem pdrSetTeid_restart (type : ObjType) (c : Context) (p : Nat) :
    pdrSetTeid type (c.modify p fun x => { x with hashLen := 0 }) p=pdrSetTeid type c p := by
  simp [pdrSetTeid,Context.modify,Context.teidKeys]

namespace TabledOn

variable {T : BitVec 32 → Prop} {c c' : Context} {s p : Nat}

theorem objectTeidHashSet (h : Tabled c) (hp : p∈c.pdrList s) (env : Env) (type : ObjType)
    (hsole : (env.ftup && (c.pdr p).fTeid.ch)=true → (c.pdr p).hashLen≠0 → SoleOwner c p) :
    (Pfcp.objectTeidHashSet env type c p).Returns fun c' _ => Tabled c' := by
  refine (chooseFTeid_returns env c p).bind ?_
  intro c1 _ hc1
  obtain ⟨hkeys,hteid,hkept⟩ := hc1
  have hp1 : p∈c1.pdrList s := (hkeys.pdrs.list s).mem_iff.mpr hp
  by_cases hlen : (c.pdr p).hashLen=0
  · have hlen1 : (c1.pdr p).hashLen=0 := (hkeys.hashLen p).trans hlen
    have h1 : Tabled c1 := by
      refine h.same hkeys fun q hq => hteid q ?_
      rintro rfl
      exact hq hlen
    have hun : pdrUnsetTeid c1 p=c1 := by
      rw [pdrUnsetTeid,if_neg (by simp [hlen1])]
    simp only [hun,Outcome.returns_ok]
    exact (h1.pdrSetTeid hp1 hlen1 type).mono fun t _ => .inl trivial
  · have h2:=h.unset hkeys hp hteid hlen
    have hlist : ((pdrUnsetTeid c1 p).modify p fun x => { x with hashLen := 0 }).pdrList =
        c1.pdrList := by
      rw [pdrUnsetTeid]
      split <;> rfl
    have hself : ((pdrUnsetTeid c1 p).modify p fun x => { x with hashLen := 0 }).pdr p =
        { c1.pdr p with hashLen := 0 } := by
      rw [pdrUnsetTeid]
      split <;> simp [Context.modify]
    have h3:=h2.pdrSetTeid (s := s) (hlist ▸ hp1) (by rw [hself]) type
    rw [pdrSetTeid_restart,hself] at h3
    refine h3.mono fun t _ => ?_
    cases hch : env.ftup && (c.pdr p).fTeid.ch with
    | true => exact .inl (.inl (hsole hch hlen))
    | false =>
      by_cases ht : t=(c.pdr p).fTeid.teid
      · right
        rw [hkept hch]
        exact ht
      · exact .inl (.inr ht)

end TabledOn

theorem reorder_sameTeids {c : Context} {s p : Nat} (h : c.PdrsOk) (hp : p∈c.pdrList s)
    (v : Option (BitVec 32)) : SameTeids c (v.elim c (pdrReorderByPrecedence c p)) := by
  cases v with
  | none => exact .refl c
  | some v =>
    have hsame:=sameTeids_modify c p (f := fun x => { x with precedence := v }) (by simp)
      (by simp [Pdr.key]) (by simp)
    exact ⟨⟨reorder_samePdrs h hp v,rfl,rfl,hsame.keys.key⟩,hsame.teid⟩

theorem createPdrPdi_returns (c : Context) (p : Nat) (pdi : Pdi) :
    (createPdrPdi c p pdi).Returns fun c' _ => SameKeys c c' ∧
      (∀ q,q≠p → (c'.pdr q).fTeid.teid=(c.pdr q).fTeid.teid) ∧
        (c'.pdr p).fTeid.teid=pdiTeid pdi := by
  have hreset:=sameKeys_modify c p (f := resetByPdi pdi) (by simp [resetByPdi])
    (by simp [resetByPdi,Pdr.key])
  simp only [createPdrPdi,pdiTeid]
  cases pdi.localFTeid with
  | none =>
    refine ⟨hreset,?_,?_⟩
    · intro q hq
      simp only [Context.modify,update_of_ne hq]
    · simp only [Context.modify,update_self,resetByPdi,Option.elim]
      decide
  | some data =>
    simp only
    split
    · refine ⟨hreset.trans (sameKeys_modify _ p (by simp) (by simp [Pdr.key])),?_,?_⟩
      · intro q hq
        simp only [Context.modify,update_of_ne hq]
      · simp [Context.modify]
    · trivial

theorem setFar_sameTeids (c : Context) (t : RuleTable Far) : SameTeids c { c with far := t } :=
  ⟨⟨⟨rfl,fun _ => Perm.refl _,fun _ => rfl⟩,rfl,rfl,fun _ => rfl⟩,fun _ => rfl⟩

theorem setUrr_sameTeids (c : Context) (t : RuleTable Urr) : SameTeids c { c with urr := t } :=
  ⟨⟨⟨rfl,fun _ => Perm.refl _,fun _ => rfl⟩,rfl,rfl,fun _ => rfl⟩,fun _ => rfl⟩

theorem setQer_sameTeids (c : Context) (t : RuleTable Qer) : SameTeids c { c with qer := t } :=
  ⟨⟨⟨rfl,fun _ => Perm.refl _,fun _ => rfl⟩,rfl,rfl,fun _ => rfl⟩,fun _ => rfl⟩

theorem createPdrFar_sameTeids (c : Context) (s p : Nat) (farId : Option (BitVec 32)) :
    (createPdrFar c s p farId).Returns fun c' _ => SameTeids c c' := by
  have h0:=sameTeids_modify c p (f := fun x => { x with far := none }) (by simp)
    (by simp [Pdr.key]) (by simp)
  simp only [createPdrFar]
  cases farId with
  | none => exact h0
  | some id =>
    refine Outcome.Returns.bind (R := fun c' _ => SameTeids c c') (Outcome.Returns.mapState
      (Outcome.returns_of_forall _ fun t _ => h0.trans (setFar_sameTeids _ t))) ?_
    · intro c' r hc'
      exact hc'.trans (sameTeids_modify c' p (by simp) (by simp [Pdr.key]) (by simp))

theorem createPdrUrr_sameTeids (s p : Nat) (ids : List (BitVec 32)) :
    ∀ c : Context, (createPdrUrr s p c ids).Returns fun c' _ => SameTeids c c' := by
  induction ids with
  | nil => exact fun c => .refl c
  | cons id ids ih =>
    intro c
    simp only [createPdrUrr]
    refine Outcome.Returns.bind (R := fun c' _ => SameTeids c c') (Outcome.Returns.mapState
      (Outcome.returns_of_forall _ fun t _ => setUrr_sameTeids c t)) ?_
    · intro c' u hc'
      refine Outcome.Returns.bind (R := fun c'' _ => SameTeids c c'') ?_ ?_
      · simp only [pdrAssociateUrr]
        split
        · split
          · exact hc'
          · exact hc'.trans (sameTeids_modify c' p (by simp) (by simp [Pdr.key]) (by simp))
        · trivial
      · intro c'' _ hc''
        exact (ih c'').mono fun c3 _ h3 => hc''.trans h3

theorem createPdrQer_sameTeids (c : Context) (s p : Nat) (qerId : Option (BitVec 32)) :
    (createPdrQer c s p qerId).Returns fun c' _ => SameTeids c c' := by
  have h0:=sameTeids_modify c p (f := fun x => { x with qer := none }) (by simp)
    (by simp [Pdr.key]) (by simp)
  simp only [createPdrQer]
  cases qerId with
  | none => exact h0
  | some id =>
    refine Outcome.Returns.bind (R := fun c' _ => SameTeids c c') (Outcome.Returns.mapState
      (Outcome.returns_of_forall _ fun t _ => h0.trans (setQer_sameTeids _ t))) ?_
    · intro c' r hc'
      exact hc'.trans (sameTeids_modify c' p (by simp) (by simp [Pdr.key]) (by simp))

theorem createPdrCheck_congr {c c' : Context} (h : objectFindByTeid c'=objectFindByTeid c)
    (env : Env) (restoration : Bool) (pdi : Option Pdi) :
    createPdrCheck env c' restoration pdi=createPdrCheck env c restoration pdi := by
  unfold createPdrCheck
  rw [h]

namespace TabledOn

variable {T : BitVec 32 → Prop} {c c' : Context} {s p : Nat}

theorem pdrFindOrAdd (h : TabledOn T c) (s : Nat) (id : BitVec 16) :
    (Pfcp.pdrFindOrAdd c s id).Returns fun c' p => TabledOn T c' ∧ p∈c'.pdrList s ∧
      (c'=c ∧ pdrFind c s id=some p ∨ (c'.pdr p).hashLen=0) := by
  simp only [Pfcp.pdrFindOrAdd]
  cases hfind : pdrFind c s id with
  | some p => exact ⟨h,pdrFind_mem hfind,.inl ⟨rfl,rfl⟩⟩
  | none =>
    refine (h.pdrAdd s).bind ?_
    intro c' p h'
    cases p with
    | none => trivial
    | some p =>
      have hsame : SameTeids c' (c'.modify p fun x => { x with id := id }) :=
        sameTeids_modify c' p (by simp) (by simp [Pdr.key]) (by simp)
      obtain ⟨hp,hlen⟩ := h'.2 p rfl
      exact ⟨h'.1.sameTeids hsame,hp,.inr ((hsame.keys.hashLen p).trans hlen)⟩

theorem handleCreatePdr (h : Tabled c) (env : Env) (s : Nat) (restoration : Bool)
    (m : Option CreatePdr)
    (hset : ∀ r ∈ (Op.handleCreatePdr env s restoration m).setsTeid c,
      (c.pdr r.1).hashLen≠0 → r.2=(c.pdr r.1).fTeid.teid) :
    (Pfcp.handleCreatePdr env c s restoration m).Returns fun c' _ => Tabled c' := by
  cases m with
  | none => exact h
  | some m =>
    simp only [Pfcp.handleCreatePdr]
    cases hid : m.pdrId with
    | none => exact h
    | some id =>
      refine (h.pdrFindOrAdd s id).bind ?_
      intro c1 p h1
      obtain ⟨h1,hp,hknown⟩ := h1
      have hc2:=reorder_sameTeids h1.pdrs hp m.precedence
      generalize m.precedence.elim c1 (pdrReorderByPrecedence c1 p)=c2 at hc2 ⊢
      have h2:=h1.sameTeids hc2
      cases hcheck : createPdrCheck env c2 restoration m.pdi with
      | error reply => exact h2
      | ok pdi =>
        simp only
        split
        · refine (createPdrPdi_returns c2 p pdi).bind fun c3 _ h3 => ?_
          have hteid : ∀ q,(c2.pdr q).hashLen≠0 →
              (c3.pdr q).fTeid.teid=(c2.pdr q).fTeid.teid := by
            intro q hq
            by_cases he : q=p
            · subst he
              rw [hc2.keys.hashLen] at hq
              rcases hknown with ⟨rfl,hfind⟩ | hlen
              · rw [createPdrCheck_congr hc2.keys.find] at hcheck
                have hmem : (q,pdiTeid pdi) ∈
                    (Op.handleCreatePdr env s restoration (some m)).setsTeid c1 := by
                  simp [Op.setsTeid,hid,hfind,hcheck]
                rw [h3.2.2,hc2.teid]
                exact hset _ hmem hq
              · exact absurd hlen hq
            · exact h3.2.1 q he
          have h3':=h2.same h3.1 hteid
          refine (createPdrFar_sameTeids c3 s p m.farId).bind fun c4 _ h4 => ?_
          have h4':=h3'.sameTeids h4
          have h5 : Tabled (c4.modify p fun x => { x with urr := [] }) :=
            h4'.sameTeids (sameTeids_modify c4 p (by simp) (by simp [Pdr.key]) (by simp))
          refine (createPdrUrr_sameTeids s p m.urrId _).bind fun c6 _ h6 => ?_
          have h6':=h5.sameTeids h6
          exact (createPdrQer_sameTeids c6 s p m.qerId).bind fun c7 _ h7 => h6'.sameTeids h7
        · trivial

theorem overlay (h : TabledOn T c) (data : List Byte)
    (hkeep : (c.pdr p).hashLen≠0 →
      ((c.pdr p).fTeid.copy data).ntoh.teid=(c.pdr p).fTeid.teid) :
    TabledOn T (c.modify p (overlayFTeid data)) := by
  refine h.same (sameKeys_modify c p (by simp [overlayFTeid]) (by simp [overlayFTeid,Pdr.key])) ?_
  intro q hq
  by_cases he : q=p
  · subst he
    simp only [Context.modify,update_self,overlayFTeid]
    exact hkeep hq
  · simp only [Context.modify,update_of_ne he]

theorem handleCreatedPdr (h : Tabled c) (env : Env) (s : Nat) (m : Option CreatedPdr)
    (hset : ∀ r ∈ (Op.handleCreatedPdr env s m).setsTeid c,
      (c.pdr r.1).hashLen≠0 → r.2=(c.pdr r.1).fTeid.teid) :
    (Pfcp.handleCreatedPdr env c s m).Returns fun c' _ => Tabled c' := by
  cases m with
  | none => exact h
  | some m =>
    simp only [Pfcp.handleCreatedPdr,knownPdr]
    cases hid : m.pdrId with
    | none => exact h
    | some id =>
      simp only
      cases hfind : pdrFind c s id with
      | none => exact h
      | some p =>
        simp only
        cases hdata : m.localFTeid with
        | none => exact h
        | some data =>
          simp only
          split
          · exact h
          · rename_i haddr
            split
            · refine h.overlay data fun hlen =>
                hset (p,((c.pdr p).fTeid.copy data).ntoh.teid) ?_ hlen
              simp [Op.setsTeid,hid,hfind,hdata,haddr]
            · trivial

theorem handleUpdatePdr (h : Tabled c) (env : Env) (s : Nat) (m : Option UpdatePdr)
    (hset : ∀ r ∈ (Op.handleUpdatePdr env s m).setsTeid c,
      (c.pdr r.1).hashLen≠0 → r.2=(c.pdr r.1).fTeid.teid) :
    (Pfcp.handleUpdatePdr env c s m).Returns fun c' _ => Tabled c' := by
  cases m with
  | none => exact h
  | some m =>
    simp only [Pfcp.handleUpdatePdr,knownPdr]
    cases hid : m.pdrId with
    | none => exact h
    | some id =>
      simp only
      cases hfind : pdrFind c s id with
      | none => exact h
      | some p =>
        simp only
        cases hpdi : m.pdi with
        | none => exact h
        | some pdi =>
          simp only
          split
          · exact h
          · rename_i hsrc
            split
            · exact h
            · rename_i haddr
              split
              · have hsame:=sameTeids_modify c p (f := fun x => { x with
                  srcIf := pdi.sourceInterface.getD 0
                  srcIfType := pdi.sourceInterfaceType.or x.srcIfType }) (by simp)
                  (by simp [Pdr.key]) (by simp)
                have h1:=h.sameTeids hsame
                generalize hc1 : c.modify p (fun x => { x with
                  srcIf := pdi.sourceInterface.getD 0
                  srcIfType := pdi.sourceInterfaceType.or x.srcIfType })=c1 at h1 hsame ⊢
                have hfteid : (c1.pdr p).fTeid=(c.pdr p).fTeid := by
                  simp [← hc1,Context.modify]
                cases hdata : pdi.localFTeid with
                | none =>
                  exact h1.sameTeids
                    (sameTeids_modify c1 p (by simp) (by simp [Pdr.key]) (by simp))
                | some data =>
                  have h2 : Tabled (c1.modify p (overlayFTeid data)) := by
                    refine h1.overlay data fun hlen => ?_
                    rw [hfteid]
                    refine hset (p,((c.pdr p).fTeid.copy data).ntoh.teid) ?_
                      ((hsame.keys.hashLen p) ▸ hlen)
                    have hsome : pdi.sourceInterface.isSome=true := by
                      cases hs : pdi.sourceInterface <;> simp [hs] at hsrc ⊢
                    simp only [hdata,any_some,Bool.not_eq_true',Bool.not_eq_false]
                      at haddr
                    simp [Op.setsTeid,hid,hfind,hpdi,hdata,hsome,haddr]
                  have hboth : (c1.modify p fun x => { overlayFTeid data x with
                      qfi := pdi.qfi.getD x.qfi }) =
                      (c1.modify p (overlayFTeid data)).modify p fun x => { x with
                        qfi := pdi.qfi.getD x.qfi } := by
                    simp [Context.modify,overlayFTeid]
                  simp only [Option.elim,Outcome.returns_ok]
                  rw [hboth]
                  exact h2.sameTeids
                    (sameTeids_modify _ p (by simp) (by simp [Pdr.key]) (by simp))
              · trivial

theorem handleRemovePdr (h : Tabled c) (s : Nat) (m : Option (Option (BitVec 16)))
    (hkeep : ∀ p ∈ (Op.handleRemovePdr s m).removedPdr c,
      (c.pdr p).hashLen≠0 → RemovalKeeps c p) :
    Tabled (Pfcp.handleRemovePdr c s m).1 := by
  cases m with
  | none => exact h
  | some id =>
    cases id with
    | none => exact h
    | some id =>
      simp only [Pfcp.handleRemovePdr]
      cases hfind : pdrFind c s id with
      | none => exact h
      | some p => exact h.pdrRemove (pdrFind_mem hfind) (hkeep p hfind)

theorem step (h : Tabled c) {op : Op} (hc : KeepsTeids c op) {o : Outcome Context Reply}
    (ho : c.step op=some o) : o.Returns fun c' _ => Tabled c' := by
  obtain ⟨hremove,hset,hchoose⟩ := hc
  cases op with
  | pdrAdd s =>
    simp only [Context.step,some.injEq] at ho
    exact ho ▸ (h.pdrAdd s).bind fun c' r h' => h'.1
  | pdrFindOrAdd s id =>
    simp only [Context.step,some.injEq] at ho
    exact ho ▸ (h.pdrFindOrAdd s id).bind fun c' r h' => h'.1
  | pdrRemove s p =>
    simp only [Context.step,ite_none_right_eq_some,some.injEq] at ho
    exact ho.2 ▸ h.pdrRemove ho.1 (hremove p rfl)
  | pdrSwapTeid s p =>
    simp only [Context.step,ite_none_right_eq_some,some.injEq] at ho
    rw [← ho.2]
    have hself : ∀ a,SameTeids c { c with teidArray := a } := fun a =>
      ⟨⟨⟨rfl,fun _ => Perm.refl _,fun _ => rfl⟩,rfl,rfl,fun _ => rfl⟩,fun _ => rfl⟩
    refine Outcome.Returns.bind (R := fun c' _ => Tabled c') ?_ fun c' _ h' => h'
    simp only [Pfcp.pdrSwapTeid]
    split
    · split
      · split
        · split
          · exact h.sameTeids (hself _)
          · exact h
        · trivial
      · exact h
    · trivial
  | objectTeidHashSet env type s p =>
    simp only [Context.step,ite_none_right_eq_some,some.injEq] at ho
    rw [← ho.2]
    refine (h.objectTeidHashSet ho.1 env type fun hch hlen => ?_).bind fun c' _ h' => h'
    exact hchoose p (by simp only [Op.chooses,hch,if_true,mem_def]) hlen
  | handleCreatePdr env s restoration m =>
    simp only [Context.step,some.injEq] at ho
    exact ho ▸ h.handleCreatePdr env s restoration m hset
  | handleCreatedPdr env s m =>
    simp only [Context.step,some.injEq] at ho
    exact ho ▸ h.handleCreatedPdr env s m hset
  | handleUpdatePdr env s m =>
    simp only [Context.step,some.injEq] at ho
    exact ho ▸ h.handleUpdatePdr env s m hset
  | handleRemovePdr s m =>
    simp only [Context.step,some.injEq] at ho
    exact ho ▸ h.handleRemovePdr s m hremove
  | far op =>
    simp only [Context.step,map_eq_some_iff] at ho
    obtain ⟨o',ho',rfl⟩ := ho
    exact Outcome.Returns.mapState
      (Outcome.returns_of_forall _ fun t _ => h.sameTeids (setFar_sameTeids c t))
  | handleUpdateFarFlags s m =>
    simp only [Context.step,some.injEq] at ho
    rw [← ho]
    exact Outcome.Returns.mapState
      (Outcome.returns_of_forall _ fun t _ => h.sameTeids (setFar_sameTeids c t))
  | urr env op =>
    simp only [Context.step,map_eq_some_iff] at ho
    obtain ⟨o',ho',rfl⟩ := ho
    exact Outcome.Returns.mapState
      (Outcome.returns_of_forall _ fun t _ => h.sameTeids (setUrr_sameTeids c t))
  | qer op =>
    simp only [Context.step,map_eq_some_iff] at ho
    obtain ⟨o',ho',rfl⟩ := ho
    exact Outcome.Returns.mapState
      (Outcome.returns_of_forall _ fun t _ => h.sameTeids (setQer_sameTeids c t))

end TabledOn

/-- In a run whose calls keep the TEIDs of registered PDRs, lookups are right after every
call. -/
theorem teids_found_run (poolSess : Nat) (random : Nat → Nat) (seed : BitVec 32) (ops : List Op)
    (hops : EachStep Context.step KeepsTeids (contextInit poolSess random seed) ops) :
    ∀ c∈completed Context.step (contextInit poolSess random seed) ops,TeidsFound c := by
  have hstep : ∀ c op c' r,Tabled c → KeepsTeids c op →
      c.step op=some (.ok c' r) → Tabled c' := by
    intro c op c' r h hc ho
    exact h.step hc ho
  intro c hc
  exact (completed_inv hstep (TabledOn.init poolSess random seed) hops c hc).teidsFound

def createPdrTeid (fTeid : List Byte) : CreatePdr where
  pdrId := some 1
  precedence := none
  pdi := some ⟨some 0,none,some fTeid,none⟩
  farId := none
  urrId := []
  qerId := none

theorem teids_found_run_choose :
    (completed Context.step (contextInit 1 (fun _ => 0) 0)
        [.handleCreatePdr env0 0 false (some (createPdrTeid [5,0,0,0,0])),
          .objectTeidHashSet env0 .sess 0 0,.handleRemovePdr 0 (some (some 1))]).length=4 ∧
      ∀ c ∈ completed Context.step (contextInit 1 (fun _ => 0) 0)
        [.handleCreatePdr env0 0 false (some (createPdrTeid [5,0,0,0,0])),
          .objectTeidHashSet env0 .sess 0 0,.handleRemovePdr 0 (some (some 1))], TeidsFound c := by
  exact ⟨by decide,teids_found_run 1 _ _ _ (by decide)⟩

/-- The F-TEID of a registered PDR is updated: its new TEID is not found. -/
theorem updated_teid_lost :
    ∃ c ∈ completed Context.step (contextInit 1 (fun _ => 0) 0)
        [.handleCreatePdr env0 0 false (some (createPdrTeid [1,0,0,0,5,127,0,0,1])),
          .objectTeidHashSet env0 .sess 0 0,
          .handleUpdatePdr env0 0
            (some ⟨some 1,some ⟨some 0,none,some [1,0,0,0,6,127,0,0,1],none⟩⟩)],
      c.Registered 0 6 ∧ objectFindByTeid c 6=none ∧ ¬ TeidsFound c := by
  have hrun : ∃ c ∈ completed Context.step (contextInit 1 (fun _ => 0) 0)
      [.handleCreatePdr env0 0 false (some (createPdrTeid [1,0,0,0,5,127,0,0,1])),
        .objectTeidHashSet env0 .sess 0 0,
        .handleUpdatePdr env0 0
          (some ⟨some 1,some ⟨some 0,none,some [1,0,0,0,6,127,0,0,1],none⟩⟩)],
      c.Registered 0 6 ∧ objectFindByTeid c 6=none := by
    decide
  obtain ⟨c,hc,hreg,hnone⟩ := hrun
  refine ⟨c,hc,hreg,hnone,?_⟩
  intro hfound
  obtain ⟨o,ho,-⟩ := (hfound 6).1 ⟨0,hreg⟩
  rw [hnone] at ho
  cases ho

end OgsDp.Pfcp
