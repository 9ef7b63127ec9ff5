import Mathlib.Logic.Function.Basic
import OgsDp.Lib.RefTable

/-!
# Tables that lead from keys to holders

Each holder has at most one reference, and what memory holds there is its key. The table has an
entry for every holder under its key and no other entries, so no two holders share a key.
-/

namespace OgsDp.Lib.RefTable
open Function List

universe u v w

variable {ρ : Type u} {κ : Type v} {ν : Type w} {K K' : Keys ρ κ} {key key' : ρ → κ}
  {p p' : ν → Option ρ} {t : List (Entry ρ ν)} {r : ρ} {n : ν}

def Leads (K : Keys ρ κ) (key : ρ → κ) (p : ν → Option ρ) (t : List (Entry ρ ν)) : Prop :=
  ∃ l,t=held K key l ∧ (l.map fun b => key b.1).Nodup ∧ ∀ r n,(r,n)∈l ↔ p n=some r

namespace Leads

theorem nil (hp : ∀ n,p n=none) : Leads K key p [] := by
  refine ⟨[],rfl,nodup_nil,?_⟩
  intro r n
  rw [hp]
  exact iff_of_false nofun nofun

theorem congr (h : Leads K key p t) (hhash : K'.hash=K.hash) (hklen : K'.klen=K.klen)
    (hp : ∀ n,p' n=p n) (hkey : ∀ n r,p n=some r → key' r=key r) :
    Leads K' key' p' t := by
  obtain ⟨l,rfl,hnodup,hmem⟩ := h
  have hkeys : ∀ b∈l,key' b.1=key b.1 := fun b hb => hkey b.2 b.1 ((hmem b.1 b.2).mp hb)
  refine ⟨l,(held_congr hhash hklen hkeys).symm,?_,?_⟩
  · rw [map_congr_left hkeys]
    exact hnodup
  · intro r n
    rw [hmem,hp]

variable (hreads : ∀ r,K.reads r (key r)=true)
include hreads

theorem get [DecidableEq κ] (h : Leads K key p t) (k : κ) :
    RefTable.get K t k=some n ↔ ∃ r,p n=some r ∧ key r=k := by
  obtain ⟨l,rfl,hnodup,hmem⟩ := h
  rw [get_held hnodup fun b _ => hreads b.1]
  simp only [hmem]

variable [DecidableEq ν]

theorem set (h : Leads K key p t) (hp : p n=none)
    (hnew : ∀ m r',p m=some r' → key r'≠key r) :
    Leads K key (update p n (some r)) (RefTable.set K t r (key r) n) := by
  obtain ⟨l,rfl,hnodup,hmem⟩ := h
  have hfresh : ∀ b∈l,key b.1≠key r := fun b hb => hnew b.2 b.1 ((hmem b.1 b.2).mp hb)
  refine ⟨l++[(r,n)],set_held hnodup (fun b _ => hreads b.1) hfresh n,?_,?_⟩
  · rw [map_append,nodup_append]
    refine ⟨hnodup,nodup_singleton _,?_⟩
    intro k hk k' hk'
    obtain ⟨b,hb,rfl⟩ := List.mem_map.mp hk
    rw [map_singleton,mem_singleton] at hk'
    rw [hk']
    exact hfresh b hb
  · intro r' m
    rw [mem_append,hmem,mem_singleton]
    by_cases hm : m=n
    · subst hm
      rw [update_self,hp]
      simp [eq_comm]
    · rw [update_of_ne hm]
      simp [hm]

theorem unset [DecidableEq κ] (h : Leads K key p t) (hp : p n=some r) :
    Leads K key (update p n none) (RefTable.unset K t (key r)) := by
  obtain ⟨l,rfl,hnodup,hmem⟩ := h
  have hr : (r,n)∈l := (hmem r n).mpr hp
  refine ⟨_,unset_held hnodup (fun b _ => hreads b.1) _,
    hnodup.sublist ((filter_sublist ..).map _),?_⟩
  intro r' m
  rw [mem_filter,hmem]
  by_cases hm : m=n
  · subst hm
    rw [update_self,hp]
    constructor
    · rintro ⟨hr',hne⟩
      obtain rfl := Option.some.inj hr'
      simp at hne
    · exact nofun
  · rw [update_of_ne hm]
    constructor
    · exact fun hr' => hr'.1
    · intro hr'
      refine ⟨hr',?_⟩
      have hne : key r'≠key r := by
        intro hkey
        have heq:=inj_on_of_nodup_map hnodup ((hmem r' m).mpr hr') hr hkey
        exact hm (Prod.mk.inj heq).2
      simpa using hne

omit [DecidableEq ν] in
theorem unset_absent [DecidableEq κ] (h : Leads K key p t) {k : κ}
    (hno : ∀ m r,p m=some r → key r≠k) : Leads K key p (RefTable.unset K t k) := by
  obtain ⟨l,rfl,hnodup,hmem⟩ := h
  have hkeep : (l.filter fun b => key b.1≠k)=l := by
    refine List.filter_eq_self.mpr fun b hb => ?_
    simpa using hno b.2 b.1 ((hmem b.1 b.2).mp hb)
  refine ⟨l,?_,hnodup,hmem⟩
  rw [unset_held hnodup (fun b _ => hreads b.1),hkeep]

end Leads

end OgsDp.Lib.RefTable
