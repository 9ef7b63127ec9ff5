import OgsDp.Amf.Ue
import OgsDp.Lib.SharedIndex

/-!
# Tables of strings on the heap (src/amf/context.c)

`suci_hash` and `supi_hash` are filled and emptied in the same way.
-/

namespace OgsDp.Amf
open Lib RefTable SharedIndex OgsDp.Core Function Option

/-- `Ues.strBytes`. -/
def heapBytes (str : Nat → Option IdStr) (a : Nat) : List Byte :=
  (str a).elim [] fun s => s.1.bytes

def heapKeys (seed : BitVec 32) (str : Nat → Option IdStr) : Keys Nat (List Byte) :=
  bytesKeys seed (heapBytes str)

theorem heapKeys_reads (seed : BitVec 32) (str : Nat → Option IdStr) (a : Nat) :
    (heapKeys seed str).reads a (heapBytes str a)=true := by
  simp [heapKeys,bytesKeys]

def keyOf (str : Nat → Option IdStr) (name : Nat → Option Nat) (u : Nat) : Option (List Byte) :=
  (name u).map (heapBytes str)

def Has (seed : BitVec 32) (str : Nat → Option IdStr) (t : List (Entry Nat Nat))
    (k : List Byte) : Prop :=
  (RefTable.get (heapKeys seed str) t k).isSome

/-- `us` are UEs and `name` the addresses of their strings. -/
structure NameTable (seed : BitVec 32) (str : Nat → Option IdStr) (t : List (Entry Nat Nat))
    (name : Nat → Option Nat) (us : List Nat) : Prop where
  index : ∃ l,Index (heapKeys seed str) t name (heapBytes str) us l
  live : ∀ u∈us,∀ a,name u=some a → (str a).isSome
  own : ∀ u∈us,∀ w∈us,∀ a,name u=some a → name w=some a → u=w

variable {seed : BitVec 32} {str str' : Nat → Option IdStr} {t : List (Entry Nat Nat)}
  {name name' : Nat → Option Nat} {us us' : List Nat} {u a : Nat} {x : IdStr}

theorem heapBytes_of_ne {y : Option IdStr} {b : Nat} (h : b≠a) :
    heapBytes (update str a y) b=heapBytes str b := by
  simp [heapBytes,h]

theorem heapBytes_eq (h : str a=some x) : heapBytes str a=x.1.bytes := by
  simp [heapBytes,h]

theorem str_eq_of_bytes (hlive : (str a).isSome) (h : heapBytes str a=x.1.bytes) :
    str a=some x := by
  obtain ⟨y,hy⟩ := isSome_iff_exists.mp hlive
  rw [heapBytes_eq hy] at h
  rw [hy]
  obtain ⟨⟨bytes,hnul⟩,hne⟩ := y
  obtain ⟨⟨bytes',hnul'⟩,hne'⟩ := x
  obtain rfl : bytes=bytes' := h
  rfl

theorem keyOf_congr (hname : name' u=name u) (hstr : ∀ b,name u=some b → str' b=str b) :
    keyOf str' name' u=keyOf str name u := by
  unfold keyOf
  rw [hname]
  cases hb : name u with
  | none => rfl
  | some b => simp [heapBytes,hstr b hb]

namespace NameTable

theorem nil (seed : BitVec 32) (str : Nat → Option IdStr) (name : Nat → Option Nat) :
    NameTable seed str [] name [] where
  index := ⟨[],index_nil (heapKeys_reads seed str)⟩
  live := by simp
  own := by simp

theorem find_some (h : NameTable seed str t name us) {k : List Byte}
    (hfind : RefTable.get (heapKeys seed str) t k=some u) : u∈us ∧ keyOf str name u=some k := by
  obtain ⟨l,hl⟩ := h.index
  obtain ⟨hu,a,hname,hkey⟩ := hl.find_some hfind
  refine ⟨hu,?_⟩
  rw [keyOf,hname,map_some,hkey]

theorem key_live (h : NameTable seed str t name us) {e : Entry Nat Nat} (he : e∈t) :
    (str e.key).isSome := by
  obtain ⟨l,hl⟩ := h.index
  obtain ⟨o,ho,hname⟩ := hl.key_live he
  exact h.live o ho e.key hname

theorem not_name (h : NameTable seed str t name us) (hfree : str a=none) :
    ∀ w∈us,name w≠some a := by
  intro w hw hname
  have hlive:=h.live w hw a hname
  rw [hfree] at hlive
  cases hlive

theorem congr (h : NameTable seed str t name us) (hsub : ∀ w∈us,w∈us' ∨ name w=none)
    (hnew : ∀ w∈us',w∈us ∨ name' w=none) (hname : ∀ w∈us,name' w=name w)
    (hstr : ∀ w∈us,∀ b,name w=some b → str' b=str b) :
    NameTable seed str' t name' us' ∧
      ∀ k,RefTable.get (heapKeys seed str') t k=RefTable.get (heapKeys seed str) t k := by
  obtain ⟨l,hl⟩ := h.index
  have hl' : Index (heapKeys seed str') t name' (heapBytes str') us' l := by
    refine hl.congr (heapKeys_reads seed str') rfl rfl ?_
    intro w hw b hb _
    have hw' : w∈us' := by
      rcases hsub w hw with hmem | hnone
      · exact hmem
      · rw [hb] at hnone
        cases hnone
    refine ⟨hw',(hname w hw).trans hb,?_⟩
    unfold heapBytes
    rw [hstr w hw b hb]
  have hold : ∀ w∈us',∀ b,name' w=some b → w∈us ∧ name w=some b := by
    intro w hw b hb
    rcases hnew w hw with hmem | hnone
    · exact ⟨hmem,(hname w hmem).symm.trans hb⟩
    · rw [hnone] at hb
      cases hb
  refine ⟨⟨⟨l,hl'⟩,?_,?_⟩,fun k => ?_⟩
  · intro w hw b hb
    obtain ⟨hmem,hb'⟩ := hold w hw b hb
    rw [hstr w hmem b hb']
    exact h.live w hmem b hb'
  · intro w hw v hv b hb hb'
    obtain ⟨hmem,hwb⟩ := hold w hw b hb
    obtain ⟨hmem',hvb⟩ := hold v hv b hb'
    exact h.own w hmem v hmem' b hwb hvb
  · rw [hl.find,hl'.find]

theorem drop (h : NameTable seed str t name us) (hu : u∈us) (hname : name u=some a)
    (hus : ∀ w,w∈us' ↔ w∈us ∧ w≠u) :
    NameTable seed (update str a none)
      (RefTable.unset (heapKeys seed str) t (heapBytes str a)) name us' ∧
    (∀ k,Has seed (update str a none)
      (RefTable.unset (heapKeys seed str) t (heapBytes str a)) k ↔
        k≠heapBytes str a ∧ Has seed str t k) ∧
    ∀ w∈us',keyOf (update str a none) name w=keyOf str name w := by
  obtain ⟨l,hl⟩ := h.index
  have hne : ∀ w∈us,w≠u → ∀ b,name w=some b → b≠a := by
    rintro w hw hwu b hb rfl
    exact hwu (h.own w hw u hu b hb hname)
  have hl' : Index (heapKeys seed (update str a none))
      (RefTable.unset (heapKeys seed str) t (heapBytes str a)) name
      (heapBytes (update str a none)) us' (l.filter fun b => b.1≠heapBytes str a) := by
    refine (hl.unset (heapBytes str a)).congr (heapKeys_reads seed _) rfl rfl ?_
    intro w hw b hb hmem
    have hkey:=(mem_keys_filter.mp hmem).1
    have hba : b≠a := by
      rintro rfl
      exact hkey rfl
    have hwu : w≠u := by
      rintro rfl
      exact hba (some.inj (hb.symm.trans hname))
    exact ⟨(hus w).mpr ⟨hw,hwu⟩,hb,heapBytes_of_ne hba⟩
  refine ⟨⟨⟨_,hl'⟩,?_,?_⟩,?_,?_⟩
  · intro w hw b hb
    obtain ⟨hmem,hwu⟩ := (hus w).mp hw
    rw [update_of_ne (hne w hmem hwu b hb)]
    exact h.live w hmem b hb
  · intro w hw v hv b hb hb'
    exact h.own w ((hus w).mp hw).1 v ((hus v).mp hv).1 b hb hb'
  · intro k
    rw [Has,Has,hl.isSome_iff,hl'.isSome_iff,mem_keys_filter]
  · intro w hw
    obtain ⟨hmem,hwu⟩ := (hus w).mp hw
    exact keyOf_congr rfl fun b hb => update_of_ne (hne w hmem hwu b hb) _ _

theorem add (h : NameTable seed str t name us) (hx : str a=some x)
    (hfresh : ∀ w∈us,name w≠some a) (hself : name' u=some a)
    (hname : ∀ w∈us,name' w=name w) (hus : ∀ w,w∈us' ↔ w=u ∨ w∈us) :
    NameTable seed str (RefTable.set (heapKeys seed str) t a (heapBytes str a) u) name' us' ∧
    ∀ k,Has seed str (RefTable.set (heapKeys seed str) t a (heapBytes str a) u) k ↔
      k=x.1.bytes ∨ Has seed str t k := by
  obtain ⟨l,hl⟩ := h.index
  have hl' : Index (heapKeys seed str) t name' (heapBytes str) us' l :=
    hl.congr hl.reads rfl rfl fun w hw b hb _ =>
      ⟨(hus w).mpr (.inr hw),(hname w hw).trans hb,rfl⟩
  have hset:=hl'.set ((hus u).mpr (.inl rfl)) hself
  refine ⟨⟨⟨_,hset⟩,?_,?_⟩,fun k => ?_⟩
  · intro w hw b hb
    rcases (hus w).mp hw with rfl | hw
    · obtain rfl : a=b := some.inj (hself.symm.trans hb)
      simp [hx]
    · rw [hname w hw] at hb
      exact h.live w hw b hb
  · intro w hw v hv b hb hb'
    rcases (hus w).mp hw with rfl | hw
    · obtain rfl : a=b := some.inj (hself.symm.trans hb)
      rcases (hus v).mp hv with rfl | hv
      · rfl
      · exact absurd ((hname v hv).symm.trans hb') (hfresh v hv)
    · rcases (hus v).mp hv with rfl | hv
      · obtain rfl : a=b := some.inj (hself.symm.trans hb')
        exact absurd ((hname w hw).symm.trans hb) (hfresh w hw)
      · exact h.own w hw v hv b ((hname w hw).symm.trans hb) ((hname v hv).symm.trans hb')
  · rw [Has,Has,hl.isSome_iff,hset.isSome_iff,mem_keys_rebind,heapBytes_eq hx]

end NameTable

end OgsDp.Amf
