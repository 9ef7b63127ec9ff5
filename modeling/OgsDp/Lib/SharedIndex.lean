import OgsDp.Lib.RefTable

/-!
# Indexes of objects by names that several may have

Each object may have a name, a reference to its key, and the table finds an object by the key.
Two objects with equal names share one entry: it refers to the name of one of them and leads to
the other, and who gives the name up takes the entry away. An entry is never wrong, but it may be
missing.
-/

namespace OgsDp.Lib.SharedIndex
open Lib.RefTable

universe u v w

variable {ρ : Type u} {κ : Type v} {ν : Type w}

/-- Object `o` is one of `os` and its name reads as `k`. -/
def Named (name : ν → Option ρ) (key : ρ → κ) (os : List ν) (k : κ) (o : ν) : Prop :=
  o∈os ∧ ∃ r,name o=some r ∧ key r=k

/-- The entries stand for `l`: each refers to the name of an object of `os` and leads to one, and
both names read as the key of the entry. -/
structure Index (K : Keys ρ κ) (t : List (Entry ρ ν)) (name : ν → Option ρ) (key : ρ → κ)
    (os : List ν) (l : List (κ × ν)) : Prop where
  reads : ∀ r,K.reads r (key r)=true
  records : Records K t l
  refers : List.Forall₂ (fun e b => ((∃ o∈os,name o=some e.key) ∧ key e.key=b.1) ∧
    Named name key os b.1 b.2) t l

def Complete (name : ν → Option ρ) (key : ρ → κ) (os : List ν) (l : List (κ × ν)) : Prop :=
  ∀ o∈os,∀ r,name o=some r → key r∈l.map Prod.fst

variable {K K' : Keys ρ κ} {t : List (Entry ρ ν)} {name name' : ν → Option ρ} {key key' : ρ → κ}
  {os os' : List ν} {l : List (κ × ν)}

theorem index_nil (hr : ∀ r,K.reads r (key r)=true) :
    Index K ([] : List (Entry ρ ν)) name key os [] where
  reads := hr
  records := records_nil
  refers := List.Forall₂.nil

namespace Index

theorem intact (h : Index K t name key os l) : Intact K t l := by
  apply h.refers.imp
  intro e b hr
  rw [← hr.1.2]
  exact h.reads e.key

theorem key_live (h : Index K t name key os l) {e : Entry ρ ν} (he : e∈t) :
    ∃ o∈os,name o=some e.key := by
  obtain ⟨b,hb⟩ := exists_left h.refers.flip he
  exact hb.1.1

theorem congr (h : Index K t name key os l) (hr : ∀ r,K'.reads r (key' r)=true)
    (hhash : K'.hash=K.hash) (hklen : K'.klen=K.klen)
    (hkeep : ∀ o∈os,∀ r,name o=some r → key r∈l.map Prod.fst →
      o∈os' ∧ name' o=some r ∧ key' r=key r) : Index K' t name' key' os' l where
  reads := hr
  records := h.records.congr hhash hklen
  refers := by
    apply forall₂_of_mem h.refers
    rintro e-b hb ⟨⟨⟨o,ho,hname⟩,hkey⟩,hb₂,r,hr₂,hkey₂⟩
    have hmem : b.1∈l.map Prod.fst := List.mem_map_of_mem hb
    obtain ⟨ho',hname',hkey'⟩ := hkeep o ho e.key hname (hkey.symm ▸ hmem)
    obtain ⟨hb',hname₂',hkey₂'⟩ := hkeep b.2 hb₂ r hr₂ (hkey₂.symm ▸ hmem)
    exact ⟨⟨⟨o,ho',hname'⟩,hkey'.trans hkey⟩,hb',r,hname₂',hkey₂'.trans hkey₂⟩

variable [DecidableEq κ]

theorem find (h : Index K t name key os l) (k : κ) : get K t k=binding l k :=
  get_eq h.records h.intact k

theorem find_some (h : Index K t name key os l) {k : κ} {o : ν} (hfind : get K t k=some o) :
    Named name key os k o := by
  rw [h.find,binding_eq_some h.records.nodup] at hfind
  obtain ⟨e,he⟩ := exists_left h.refers hfind
  exact he.2

theorem isSome_iff (h : Index K t name key os l) (k : κ) :
    (get K t k).isSome ↔ k∈l.map Prod.fst := by
  constructor
  · intro hsome
    obtain ⟨o,ho⟩ := Option.isSome_iff_exists.mp hsome
    rw [h.find,binding_eq_some h.records.nodup] at ho
    exact List.mem_map_of_mem ho
  · intro hmem
    obtain ⟨⟨k,o⟩,hb,rfl⟩ := List.mem_map.mp hmem
    rw [h.find,binding_of_mem h.records.nodup hb]
    rfl

theorem unset (h : Index K t name key os l) (k : κ) :
    Index K (RefTable.unset K t k) name key os (l.filter fun b => b.1≠k) where
  reads := h.reads
  records := records_unset h.records h.intact k
  refers := unset_forall₂ h.records h.intact h.refers k

theorem set (h : Index K t name key os l) {o : ν} {r : ρ} (ho : o∈os) (hname : name o=some r) :
    Index K (RefTable.set K t r (key r) o) name key os (rebind l (key r) o) where
  reads := h.reads
  records := records_set h.records h.intact r (key r) o
  refers := by
    apply set_forall₂ h.records h.intact h.refers
    · intro e w hr
      exact ⟨hr.1,ho,r,hname,rfl⟩
    · exact ⟨⟨⟨o,ho,hname⟩,rfl⟩,ho,r,hname,rfl⟩

end Index

variable [DecidableEq κ]

theorem mem_keys_filter {l : List (κ × ν)} {k k' : κ} :
    k'∈(l.filter fun b => b.1≠k).map Prod.fst ↔ k'≠k ∧ k'∈l.map Prod.fst := by
  simp only [List.mem_map,List.mem_filter,decide_eq_true_eq]
  constructor
  · rintro ⟨b,⟨hb,hne⟩,rfl⟩
    exact ⟨hne,b,hb,rfl⟩
  · rintro ⟨hne,b,hb,rfl⟩
    exact ⟨b,⟨hb,hne⟩,rfl⟩

end OgsDp.Lib.SharedIndex
