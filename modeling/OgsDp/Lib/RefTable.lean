import Mathlib.Data.List.Basic
import Mathlib.Data.List.Forall2
import Mathlib.Data.List.Nodup
import Mathlib.Tactic.SplitIfs

/-!
# Hash tables that keep their keys by reference

A chained hash table whose entries hold the hash value and the length of the key they were
stored under, and a reference to the key instead of a copy of it. A lookup compares the two
numbers first and then reads the key through the reference, so what it finds depends on what
memory holds at that moment.

`Records` relates such a table to the association list it stands for and says nothing about
memory; `Intact` says that every reference still reads as the key stored under it. The rules
give the effect of each operation on the association list, for an intact table.
-/

namespace OgsDp.Lib.RefTable
open List

universe u v w

/-- `hash`, `klen`, `key` and `val` of one entry. -/
structure Entry (ρ : Type u) (ν : Type w) where
  hash : Nat
  klen : Nat
  key : ρ
  val : ν
  deriving DecidableEq

/-- What a table needs to know about its keys: the hash function, the length of a key, and
whether memory at a reference begins with the key. -/
structure Keys (ρ : Type u) (κ : Type v) where
  hash : κ → Nat
  klen : κ → Nat
  reads : ρ → κ → Bool
  det : ∀ r k k',klen k=klen k' → reads r k=true → reads r k'=true → k=k'

section Operations

variable {ρ : Type u} {κ : Type v} {ν : Type w}

/-- The comparison made at each entry of a chain. -/
def Keys.hits (K : Keys ρ κ) (k : κ) (e : Entry ρ ν) : Bool :=
  e.hash == K.hash k && e.klen == K.klen k && K.reads e.key k

def get (K : Keys ρ κ) (t : List (Entry ρ ν)) (k : κ) : Option ν :=
  (t.find? (K.hits k)).map Entry.val

/-- Replace the value of the first entry that is hit, keeping its reference. -/
def replace (K : Keys ρ κ) (k : κ) (v : ν) : List (Entry ρ ν) → List (Entry ρ ν)
  | [] => []
  | e::t => if K.hits k e then { e with val := v }::t else e::replace K k v t

/-- Store under the key at `r`, which reads as `k`. -/
def set (K : Keys ρ κ) (t : List (Entry ρ ν)) (r : ρ) (k : κ) (v : ν) : List (Entry ρ ν) :=
  if t.any (K.hits k) then replace K k v t else t++[⟨K.hash k,K.klen k,r,v⟩]

/-- Drop the first entry that is hit. -/
def unset (K : Keys ρ κ) (t : List (Entry ρ ν)) (k : κ) : List (Entry ρ ν) :=
  t.eraseP (K.hits k)

theorem get_mem {K : Keys ρ κ} {t : List (Entry ρ ν)} {k : κ} {v : ν} (h : get K t k=some v) :
    ∃ e∈t,e.val=v := by
  simp only [get,Option.map_eq_some_iff] at h
  obtain ⟨e,he,rfl⟩ := h
  exact ⟨e,List.mem_of_find?_eq_some he,rfl⟩

theorem mem_replace {K : Keys ρ κ} {k : κ} {v : ν} {t : List (Entry ρ ν)} {e : Entry ρ ν}
    (h : e∈replace K k v t) : e.val=v ∨ e∈t := by
  induction t with
  | nil => cases h
  | cons a t ih =>
    simp only [replace] at h
    split at h
    · rcases mem_cons.mp h with rfl | h
      · exact .inl rfl
      · exact .inr (mem_cons_of_mem a h)
    · rcases mem_cons.mp h with rfl | h
      · exact .inr (mem_cons_self ..)
      · exact (ih h).imp id (mem_cons_of_mem a)

theorem mem_set {K : Keys ρ κ} {t : List (Entry ρ ν)} {r : ρ} {k : κ} {v : ν} {e : Entry ρ ν}
    (h : e∈set K t r k v) : e.val=v ∨ e∈t := by
  simp only [set] at h
  split at h
  · exact mem_replace h
  · rcases mem_append.mp h with h | h
    · exact .inr h
    · rw [mem_singleton.mp h]
      exact .inl rfl

theorem klen_replace {K : Keys ρ κ} {k : κ} {v : ν} {t : List (Entry ρ ν)} {e : Entry ρ ν}
    (h : e∈replace K k v t) : ∃ e'∈t,e'.klen=e.klen := by
  induction t with
  | nil => cases h
  | cons a t ih =>
    simp only [replace] at h
    split at h
    · rcases mem_cons.mp h with rfl | h
      · exact ⟨a,mem_cons_self ..,rfl⟩
      · exact ⟨e,mem_cons_of_mem a h,rfl⟩
    · rcases mem_cons.mp h with rfl | h
      · exact ⟨e,mem_cons_self ..,rfl⟩
      · obtain ⟨e',he',hlen⟩ := ih h
        exact ⟨e',mem_cons_of_mem a he',hlen⟩

theorem klen_set {K : Keys ρ κ} {t : List (Entry ρ ν)} {r : ρ} {k : κ} {v : ν} {e : Entry ρ ν}
    (h : e∈set K t r k v) : e.klen=K.klen k ∨ ∃ e'∈t,e'.klen=e.klen := by
  simp only [set] at h
  split at h
  · exact .inr (klen_replace h)
  · rcases mem_append.mp h with h | h
    · exact .inr ⟨e,h,rfl⟩
    · rw [mem_singleton.mp h]
      exact .inl rfl

theorem get_of_klen {K : Keys ρ κ} {t : List (Entry ρ ν)} {k : κ}
    (h : ∀ e∈t,e.klen≠K.klen k) : get K t k=none := by
  unfold get
  rw [List.find?_eq_none.mpr]
  · rfl
  · intro e he hhit
    simp only [Keys.hits,Bool.and_eq_true,beq_iff_eq] at hhit
    exact h e he hhit.1.2

end Operations

section Pairs

variable {α : Type u} {β : Type v} {R R' : α → β → Prop} {t : List α} {l : List β}

theorem exists_left (h : List.Forall₂ R t l) {b : β} (hb : b∈l) : ∃ a,R a b := by
  induction h with
  | nil => cases hb
  | @cons a b' t l hab _ ih =>
    rcases mem_cons.mp hb with rfl | hb
    · exact ⟨a,hab⟩
    · exact ih hb

theorem forall₂_of_mem (h : List.Forall₂ R t l)
    (himp : ∀ a∈t,∀ b∈l,R a b → R' a b) : List.Forall₂ R' t l := by
  induction h with
  | nil => exact List.Forall₂.nil
  | @cons a b t l hab _ ih =>
    refine List.Forall₂.cons (himp a (mem_cons_self ..) b (mem_cons_self ..) hab) ?_
    exact ih fun a ha b hb => himp a (mem_cons_of_mem _ ha) b (mem_cons_of_mem _ hb)

end Pairs

section Meaning

variable {ρ : Type u} {κ : Type v} {ν : Type w} {K : Keys ρ κ} {t : List (Entry ρ ν)}
  {l : List (κ × ν)}

/-- The entry was stored under `b.1` with the value `b.2`. -/
structure Stored (K : Keys ρ κ) (e : Entry ρ ν) (b : κ × ν) : Prop where
  hash : e.hash=K.hash b.1
  klen : e.klen=K.klen b.1
  val : e.val=b.2

/-- The table was filled with the bindings `l`, no two of them for one key. -/
structure Records (K : Keys ρ κ) (t : List (Entry ρ ν)) (l : List (κ × ν)) : Prop where
  stored : List.Forall₂ (Stored K) t l
  nodup : (l.map Prod.fst).Nodup

/-- Each reference reads as the key of its binding. -/
def Intact (K : Keys ρ κ) (t : List (Entry ρ ν)) (l : List (κ × ν)) : Prop :=
  List.Forall₂ (fun e b => K.reads e.key b.1=true) t l

theorem records_nil : Records K ([] : List (Entry ρ ν)) [] where
  stored := List.Forall₂.nil
  nodup := nodup_nil

theorem Records.congr {K' : Keys ρ κ} (h : Records K t l) (hhash : K'.hash=K.hash)
    (hklen : K'.klen=K.klen) : Records K' t l where
  stored := h.stored.imp fun _ _ hb =>
    ⟨by rw [hhash]; exact hb.hash,by rw [hklen]; exact hb.klen,hb.val⟩
  nodup := h.nodup

theorem hits_iff {e : Entry ρ ν} {b : κ × ν} (hs : Stored K e b)
    (hr : K.reads e.key b.1=true) (k : κ) : K.hits k e=true ↔ b.1=k := by
  constructor
  · intro h
    simp only [Keys.hits,Bool.and_eq_true,beq_iff_eq] at h
    exact K.det e.key b.1 k (hs.klen.symm.trans h.1.2) hr h.2
  · rintro rfl
    simp [Keys.hits,hs.hash,hs.klen,hr]

theorem any_hits (hs : List.Forall₂ (Stored K) t l) (hi : Intact K t l) (k : κ) :
    t.any (K.hits k)=true ↔ k∈l.map Prod.fst := by
  induction hs with
  | nil => simp
  | cons hb _ ih =>
    obtain ⟨hr,hi⟩ := forall₂_cons.mp hi
    rw [any_cons,Bool.or_eq_true,hits_iff hb hr,ih hi,map_cons,mem_cons]
    exact or_congr_left eq_comm

/-- Storing under a key that is not bound adds an entry that refers to `r`. -/
theorem set_new (h : Records K t l) (hi : Intact K t l) {k : κ} (hk : k∉l.map Prod.fst) (r : ρ)
    (v : ν) : set K t r k v=t++[⟨K.hash k,K.klen k,r,v⟩] := by
  have hany : t.any (K.hits k)=false := by
    simpa using fun hh => hk ((any_hits h.stored hi k).mp hh)
  simp [set,hany]

theorem records_append (h : Records K t l) {k : κ} (hk : k∉l.map Prod.fst) (r : ρ) (v : ν) :
    Records K (t++[⟨K.hash k,K.klen k,r,v⟩]) (l++[(k,v)]) where
  stored := rel_append h.stored (List.Forall₂.cons ⟨rfl,rfl,rfl⟩ List.Forall₂.nil)
  nodup := by
    rw [map_append,nodup_append]
    refine ⟨h.nodup,nodup_singleton _,?_⟩
    intro a ha b hb
    rw [map_singleton,mem_singleton] at hb
    rintro rfl
    exact hk (by simpa [hb] using ha)

variable [DecidableEq κ]

def binding (l : List (κ × ν)) (k : κ) : Option ν :=
  (l.find? fun b => b.1 == k).map Prod.snd

theorem get_eq (h : Records K t l) (hi : Intact K t l) (k : κ) : get K t k=binding l k := by
  obtain ⟨hs,-⟩ := h
  induction hs with
  | nil => rfl
  | @cons e b t l hb hs ih =>
    obtain ⟨hr,hi⟩ := forall₂_cons.mp hi
    have hk:=hits_iff hb hr k
    by_cases hbk : b.1=k
    · simp [get,binding,hk.mpr hbk,hbk,hb.val]
    · have hno : K.hits k e=false := by
        simpa using fun hh => hbk (hk.mp hh)
      have hrest:=ih hi
      simp only [get,binding] at hrest
      simp [get,binding,hno,hbk,hrest]

theorem binding_of_mem (h : (l.map Prod.fst).Nodup) {k : κ} {v : ν} (hm : (k,v)∈l) :
    binding l k=some v := by
  induction l with
  | nil => cases hm
  | cons b l ih =>
    obtain ⟨hfresh,h⟩ := nodup_cons.mp h
    rcases mem_cons.mp hm with rfl | hm
    · simp [binding]
    · have hne : b.1≠k := by
        rintro rfl
        exact hfresh (List.mem_map.mpr ⟨_,hm,rfl⟩)
      simpa [binding,hne] using ih h hm

theorem binding_eq_some (h : (l.map Prod.fst).Nodup) {k : κ} {v : ν} :
    binding l k=some v ↔ (k,v)∈l := by
  refine ⟨fun hb => ?_,binding_of_mem h⟩
  simp only [binding,Option.map_eq_some_iff] at hb
  obtain ⟨b,hfind,rfl⟩ := hb
  have hk : b.1=k := by simpa using List.find?_some hfind
  rw [← hk]
  exact List.mem_of_find?_eq_some hfind

/-- Removal drops the entry of the key, if there is one, and leaves the others as they are. -/
theorem unset_forall₂ {R : Entry ρ ν → κ × ν → Prop} (h : Records K t l) (hi : Intact K t l)
    (hR : List.Forall₂ R t l) (k : κ) :
    List.Forall₂ R (unset K t k) (l.filter fun b => b.1≠k) := by
  obtain ⟨hs,hnd⟩ := h
  induction hs with
  | nil => exact List.Forall₂.nil
  | @cons e b t l hb hs ih =>
    obtain ⟨hr,hi⟩ := forall₂_cons.mp hi
    obtain ⟨hRb,hR⟩ := forall₂_cons.mp hR
    obtain ⟨hfresh,hnd⟩ := nodup_cons.mp hnd
    have hk:=hits_iff hb hr k
    by_cases hbk : b.1=k
    · have hrest : l.filter (fun b => decide (b.1≠k))=l := by
        refine List.filter_eq_self.mpr fun c hc => ?_
        have hne : c.1≠k := by
          intro he
          exact hfresh (List.mem_map.mpr ⟨c,hc,he.trans hbk.symm⟩)
        simpa using hne
      rw [filter_cons_of_neg (by simpa using hbk),hrest]
      simpa [unset,eraseP_cons,hk.mpr hbk] using hR
    · have hno : K.hits k e=false := by
        simpa using fun hh => hbk (hk.mp hh)
      simpa [unset,eraseP_cons,hno,hbk] using List.Forall₂.cons hRb (ih hi hR hnd)

theorem records_unset (h : Records K t l) (hi : Intact K t l) (k : κ) :
    Records K (unset K t k) (l.filter fun b => b.1≠k) where
  stored := unset_forall₂ h hi h.stored k
  nodup := h.nodup.sublist ((filter_sublist ..).map Prod.fst)

/-- The bindings after `v` is stored under `k`. -/
def rebind (l : List (κ × ν)) (k : κ) (v : ν) : List (κ × ν) :=
  if k∈l.map Prod.fst then l.map fun b => if b.1=k then (k,v) else b else l++[(k,v)]

theorem keys_replaced (l : List (κ × ν)) (k : κ) (v : ν) :
    (l.map fun b => if b.1=k then (k,v) else b).map Prod.fst=l.map Prod.fst := by
  rw [List.map_map]
  refine map_congr_left fun b _ => ?_
  by_cases hb : b.1=k <;> simp [hb]

theorem mem_keys_rebind {k k' : κ} {v : ν} :
    k'∈(rebind l k v).map Prod.fst ↔ k'=k ∨ k'∈l.map Prod.fst := by
  unfold rebind
  split
  · rename_i hk
    rw [keys_replaced]
    refine ⟨.inr,?_⟩
    intro h
    rcases h with rfl | h
    · exact hk
    · exact h
  · rw [map_append,mem_append,map_singleton,mem_singleton,or_comm]

/-- A value that is replaced leaves the other entries as they are. -/
theorem replace_forall₂ {R : Entry ρ ν → κ × ν → Prop} (h : Records K t l) (hi : Intact K t l)
    (hR : List.Forall₂ R t l) {k : κ} {v : ν}
    (hv : ∀ e w,R e (k,w) → R { e with val := v } (k,v)) :
    List.Forall₂ R (replace K k v t) (l.map fun b => if b.1=k then (k,v) else b) := by
  obtain ⟨hs,hnd⟩ := h
  induction hs with
  | nil => exact List.Forall₂.nil
  | @cons e b t l hb hs ih =>
    obtain ⟨hr,hi⟩ := forall₂_cons.mp hi
    obtain ⟨hRb,hR⟩ := forall₂_cons.mp hR
    obtain ⟨hfresh,hnd⟩ := nodup_cons.mp hnd
    have hk:=hits_iff hb hr k
    by_cases hbk : b.1=k
    · have hrest : l.map (fun b => if b.1=k then (k,v) else b)=l.map id := by
        refine map_congr_left fun c hc => ?_
        have hne : c.1≠k := by
          intro he
          exact hfresh (List.mem_map.mpr ⟨c,hc,he.trans hbk.symm⟩)
        simp [hne]
      rw [List.map_id] at hrest
      rw [replace,if_pos (hk.mpr hbk),map_cons,if_pos hbk,hrest]
      refine List.Forall₂.cons (hv e b.2 ?_) hR
      rw [← hbk]
      exact hRb
    · have hno : K.hits k e=false := by
        simpa using fun hh => hbk (hk.mp hh)
      rw [replace,if_neg (by simp [hno]),map_cons,if_neg hbk]
      exact List.Forall₂.cons hRb (ih hi hR hnd)

theorem set_forall₂ {R : Entry ρ ν → κ × ν → Prop} (h : Records K t l) (hi : Intact K t l)
    (hR : List.Forall₂ R t l) {r : ρ} {k : κ} {v : ν}
    (hv : ∀ e w,R e (k,w) → R { e with val := v } (k,v))
    (hnew : R ⟨K.hash k,K.klen k,r,v⟩ (k,v)) :
    List.Forall₂ R (set K t r k v) (rebind l k v) := by
  unfold rebind
  split
  · rename_i hk
    rw [set,if_pos ((any_hits h.stored hi k).mpr hk)]
    exact replace_forall₂ h hi hR hv
  · rename_i hk
    rw [set_new h hi hk]
    exact rel_append hR (List.Forall₂.cons hnew List.Forall₂.nil)

theorem records_set (h : Records K t l) (hi : Intact K t l) (r : ρ) (k : κ) (v : ν) :
    Records K (set K t r k v) (rebind l k v) where
  stored := set_forall₂ h hi h.stored (fun _ _ he => ⟨he.hash,he.klen,rfl⟩) ⟨rfl,rfl,rfl⟩
  nodup := by
    unfold rebind
    split
    · rw [keys_replaced]
      exact h.nodup
    · rename_i hk
      exact (records_append h hk r v).nodup

end Meaning

/-! ### Tables of references under what memory holds there -/

section Held

variable {ρ : Type u} {κ : Type v} {ν : Type w} {K : Keys ρ κ} {key : ρ → κ} {l : List (ρ × ν)}

/-- The references in `l`, each stored under the key it reads as. -/
def held (K : Keys ρ κ) (key : ρ → κ) (l : List (ρ × ν)) : List (Entry ρ ν) :=
  l.map fun b => ⟨K.hash (key b.1),K.klen (key b.1),b.1,b.2⟩

theorem held_congr {K' : Keys ρ κ} {key' : ρ → κ} (hhash : K'.hash=K.hash)
    (hklen : K'.klen=K.klen) (hkey : ∀ b∈l,key' b.1=key b.1) :
    held K' key' l=held K key l :=
  map_congr_left fun b hb => by rw [hhash,hklen,hkey b hb]

theorem hits_held {b : ρ × ν} (hr : K.reads b.1 (key b.1)=true) (k : κ) :
    K.hits k ⟨K.hash (key b.1),K.klen (key b.1),b.1,b.2⟩=true ↔ key b.1=k :=
  hits_iff (b := (key b.1,b.2)) ⟨rfl,rfl,rfl⟩ hr k

theorem records_held (h : (l.map fun b => key b.1).Nodup) :
    Records K (held K key l) (l.map fun b => (key b.1,b.2)) where
  stored := by
    rw [held,forall₂_map_left_iff,forall₂_map_right_iff]
    exact List.forall₂_same.mpr fun b _ => ⟨rfl,rfl,rfl⟩
  nodup := by
    rw [List.map_map]
    exact h

theorem intact_held (hr : ∀ b∈l,K.reads b.1 (key b.1)=true) :
    Intact K (held K key l) (l.map fun b => (key b.1,b.2)) := by
  rw [Intact,held,forall₂_map_left_iff,forall₂_map_right_iff]
  exact List.forall₂_same.mpr hr

theorem set_held (h : (l.map fun b => key b.1).Nodup)
    (hr : ∀ b∈l,K.reads b.1 (key b.1)=true) {r : ρ} (hnew : ∀ b∈l,key b.1≠key r)
    (v : ν) : set K (held K key l) r (key r) v=held K key (l++[(r,v)]) := by
  rw [set_new (records_held h) (intact_held hr)]
  · simp [held]
  · rw [List.map_map]
    intro hmem
    obtain ⟨b,hb,hkey⟩ := List.mem_map.mp hmem
    exact hnew b hb hkey

variable [DecidableEq κ]

theorem get_held (h : (l.map fun b => key b.1).Nodup)
    (hr : ∀ b∈l,K.reads b.1 (key b.1)=true) {k : κ} {v : ν} :
    get K (held K key l) k=some v ↔ ∃ r,(r,v)∈l ∧ key r=k := by
  rw [get_eq (records_held h) (intact_held hr),binding_eq_some (records_held (K := K) h).nodup,
    List.mem_map]
  constructor
  · rintro ⟨⟨r,v'⟩,hb,heq⟩
    obtain ⟨hkey,rfl⟩ := Prod.mk.inj heq
    exact ⟨r,hb,hkey⟩
  · rintro ⟨r,hb,rfl⟩
    exact ⟨(r,v),hb,rfl⟩

theorem unset_held (h : (l.map fun b => key b.1).Nodup)
    (hr : ∀ b∈l,K.reads b.1 (key b.1)=true) (k : κ) :
    unset K (held K key l) k=held K key (l.filter fun b => key b.1≠k) := by
  induction l with
  | nil => rfl
  | cons b l ih =>
    obtain ⟨hfresh,h⟩ := nodup_cons.mp h
    have hk:=hits_held (hr b (mem_cons_self ..)) k
    have hrest:=ih h fun c hc => hr c (mem_cons_of_mem b hc)
    by_cases hbk : key b.1=k
    · have hkeep : l.filter (fun c => decide (key c.1≠k))=l := by
        refine List.filter_eq_self.mpr fun c hc => ?_
        have hne : key c.1≠k := by
          intro he
          exact hfresh (List.mem_map.mpr ⟨c,hc,he.trans hbk.symm⟩)
        simpa using hne
      rw [filter_cons_of_neg (by simpa using hbk),hkeep]
      simp [unset,held,hk.mpr hbk]
    · have hno : K.hits k ⟨K.hash (key b.1),K.klen (key b.1),b.1,b.2⟩=false := by
        simpa using fun hh => hbk (hk.mp hh)
      rw [filter_cons_of_pos (by simpa using hbk)]
      simp only [unset,held,map_cons,eraseP_cons,hno] at hrest ⊢
      rw [hrest]
      rfl

end Held

/-! ### Tables of objects under one of their own fields -/

section Owned

variable {ρ : Type u} {κ : Type v} {K : Keys ρ κ} {key : ρ → κ} {l : List ρ}

/-- The objects `l`, each stored under its own field `key` with itself as the value. -/
def owned (K : Keys ρ κ) (key : ρ → κ) (l : List ρ) : List (Entry ρ ρ) :=
  l.map fun o => ⟨K.hash (key o),K.klen (key o),o,o⟩

theorem owned_eq_held (l : List ρ) : owned K key l=held K key (l.map fun o => (o,o)) := by
  simp [owned,held]

theorem owned_congr {K' : Keys ρ κ} {key' : ρ → κ} (hhash : K'.hash=K.hash)
    (hklen : K'.klen=K.klen) (hkey : ∀ o∈l,key' o=key o) :
    owned K' key' l=owned K key l :=
  map_congr_left fun o ho => by rw [hhash,hklen,hkey o ho]

theorem keys_dup (h : (l.map key).Nodup) :
    ((l.map fun o => (o,o)).map fun b : ρ × ρ => key b.1).Nodup := by
  rw [List.map_map]
  exact h

theorem reads_dup (hr : ∀ o∈l,K.reads o (key o)=true) :
    ∀ b∈l.map fun o => (o,o),K.reads b.1 (key b.1)=true := by
  intro b hb
  obtain ⟨o,ho,rfl⟩ := List.mem_map.mp hb
  exact hr o ho

theorem set_owned (h : (l.map key).Nodup) (hr : ∀ o∈l,K.reads o (key o)=true) {o : ρ}
    (ho : key o∉l.map key) :
    set K (owned K key l) o (key o) o=owned K key (l++[o]) := by
  rw [owned_eq_held,set_held (keys_dup h) (reads_dup hr),owned_eq_held,map_append,
    map_singleton]
  intro b hb hkey
  obtain ⟨o',ho',rfl⟩ := List.mem_map.mp hb
  exact ho (List.mem_map.mpr ⟨o',ho',hkey⟩)

variable [DecidableEq κ]

theorem get_owned (h : (l.map key).Nodup) (hr : ∀ o∈l,K.reads o (key o)=true) {o : ρ}
    (ho : o∈l) : get K (owned K key l) (key o)=some o := by
  rw [owned_eq_held,get_held (keys_dup h) (reads_dup hr)]
  exact ⟨o,List.mem_map.mpr ⟨o,ho,rfl⟩,rfl⟩

theorem unset_owned [DecidableEq ρ] (h : (l.map key).Nodup)
    (hr : ∀ o∈l,K.reads o (key o)=true) {o : ρ} (ho : o∈l) :
    unset K (owned K key l) (key o)=owned K key (l.erase o) := by
  have hkeep : l.filter (fun o' => decide (key o'≠key o))=l.erase o := by
    rw [Nodup.erase_eq_filter (Nodup.of_map key h)]
    refine filter_congr fun o' ho' => ?_
    have hinj : key o'=key o ↔ o'=o :=
      ⟨fun he => inj_on_of_nodup_map h ho' ho he,fun he => he ▸ rfl⟩
    by_cases he : o'=o
    · simp [he]
    · simp [hinj,he]
  rw [owned_eq_held,unset_held (keys_dup h) (reads_dup hr),owned_eq_held,List.filter_map,
    ← hkeep]
  rfl

end Owned

end OgsDp.Lib.RefTable
