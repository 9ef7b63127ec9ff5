import OgsDp.Lib.Delivery

/-!
# Receivers that keep an object for each request

An object is made when its request is delivered, takes the reply to it and is given up when the
request expires. If no two objects alive have one request, they follow a `Table`.
-/

namespace OgsDp.Lib.Delivery
open Label Function Option

universe u v

/-- The objects of a receiver, with the request of each and the reply it has so far. -/
structure Holders (K : Type u) (R : Type v) where
  alive : Nat → Prop
  key : Nat → K
  reply : Nat → Option R

variable {K : Type u} {R : Type v}

/-- The table holds the requests of the objects alive, and its replies are theirs. -/
structure Matches (H : Holders K R) (t : Table K R) : Prop where
  unique : ∀ i j,H.alive i → H.alive j → H.key i=H.key j → i=j
  held : ∀ k,(t k).isSome ↔ ∃ i,H.alive i ∧ H.key i=k
  replied : ∀ i,H.alive i → ∀ r,t (H.key i)=some (some r) → H.reply i=some r

namespace Matches

variable {H J : Holders K R} {t : Table K R} {i : Nat} {k : K} {r : R}

theorem empty (h : ∀ i,¬ H.alive i) : Matches H fun _ => none where
  unique := fun i _ hi => absurd hi (h i)
  held := by simp [h]
  replied := fun i hi => absurd hi (h i)

theorem congr (h : Matches H t) (halive : ∀ i,J.alive i ↔ H.alive i)
    (hkey : ∀ i,H.alive i → J.key i=H.key i)
    (hreply : ∀ i,H.alive i → ∀ r,H.reply i=some r → J.reply i=some r) :
    Matches J t where
  unique := by
    intro i j hi hj he
    rw [halive] at hi hj
    rw [hkey i hi,hkey j hj] at he
    exact h.unique i j hi hj he
  held := by
    intro k
    rw [h.held]
    constructor
    · intro hk
      obtain ⟨i,hi,hik⟩ := hk
      exact ⟨i,(halive i).mpr hi,(hkey i hi).trans hik⟩
    · intro hk
      obtain ⟨i,hi,hik⟩ := hk
      rw [halive] at hi
      exact ⟨i,hi,(hkey i hi).symm.trans hik⟩
  replied := by
    intro i hi r ht
    rw [halive] at hi
    rw [hkey i hi] at ht
    exact hreply i hi r (h.replied i hi r ht)

theorem held_self (h : Matches H t) (hi : H.alive i) : ∃ e,t (H.key i)=some e :=
  isSome_iff_exists.mp ((h.held _).mpr ⟨i,hi,rfl⟩)

theorem absent (h : Matches H t) (hk : ∀ i,H.alive i → H.key i≠k) : t k=none := by
  by_contra hne
  obtain ⟨i,hi,hik⟩ := (h.held k).mp (isSome_iff_ne_none.mpr hne)
  exact hk i hi hik

variable [DecidableEq K] [DecidableEq R]

theorem deliver (h : Matches H t) (hk : ∀ j,H.alive j → H.key j≠k) (hnew : J.key i=k)
    (halive : ∀ j,J.alive j ↔ H.alive j ∨ j=i)
    (hkey : ∀ j,H.alive j → J.key j=H.key j)
    (hreply : ∀ j,H.alive j → J.reply j=H.reply j) :
    ∃ u,next t (delivered k)=some u ∧ Matches J u := by
  refine ⟨update t k (some none),?_,?_,?_,?_⟩
  · simp [next,Label.key,h.absent hk,answer]
  · intro a b ha hb he
    rcases (halive a).mp ha with ha | rfl <;> rcases (halive b).mp hb with hb | rfl
    · rw [hkey a ha,hkey b hb] at he
      exact h.unique a b ha hb he
    · rw [hkey a ha,hnew] at he
      exact absurd he (hk a ha)
    · rw [hkey b hb,hnew] at he
      exact absurd he.symm (hk b hb)
    · rfl
  · intro k'
    by_cases hkk : k'=k
    · rw [hkk,update_self]
      exact iff_of_true rfl ⟨i,(halive i).mpr (.inr rfl),hnew⟩
    · rw [update_of_ne hkk,h.held]
      constructor
      · intro hj
        obtain ⟨j,hj,hjk⟩ := hj
        exact ⟨j,(halive j).mpr (.inl hj),(hkey j hj).trans hjk⟩
      · intro hj
        obtain ⟨j,hj,hjk⟩ := hj
        rcases (halive j).mp hj with hj | rfl
        · exact ⟨j,hj,(hkey j hj).symm.trans hjk⟩
        · exact absurd (hjk.symm.trans hnew) hkk
  · intro j hj r ht
    rcases (halive j).mp hj with hj | rfl
    · rw [hkey j hj,update_of_ne (hk j hj)] at ht
      rw [hreply j hj]
      exact h.replied j hj r ht
    · rw [hnew,update_self] at ht
      cases ht

/-- A copy of a request that is held is answered with the reply of its object. -/
theorem drop (h : Matches H t) (hi : H.alive i) :
    next t (dropped (H.key i) (H.reply i))=some t := by
  obtain ⟨e,he⟩ := h.held_self hi
  apply next_self
  cases e with
  | none => simp only [Label.key,he,answer]
  | some r => simp only [Label.key,he,answer,h.replied i hi r he,if_true]

theorem commit (h : Matches H t) (hi : H.alive i) (hr : H.reply i=some r) :
    ∃ u,next t (committed (H.key i) r)=some u ∧ Matches H u := by
  obtain ⟨e,he⟩ := h.held_self hi
  cases e with
  | some r' =>
    have heq : r=r' := by
      rw [h.replied i hi r' he] at hr
      exact (some.inj hr).symm
    refine ⟨t,next_self ?_,h⟩
    simp only [Label.key,he,answer,if_pos heq]
  | none =>
    refine ⟨update t (H.key i) (some (some r)),?_,h.unique,?_,?_⟩
    · simp [next,Label.key,he,answer]
    · intro k
      by_cases hk : k=H.key i
      · rw [hk,update_self]
        exact iff_of_true rfl ⟨i,hi,rfl⟩
      · rw [update_of_ne hk]
        exact h.held k
    · intro j hj r' ht
      by_cases hk : H.key j=H.key i
      · rw [hk,update_self] at ht
        cases ht
        rw [h.unique j i hj hi hk]
        exact hr
      · rw [update_of_ne hk] at ht
        exact h.replied j hj r' ht

theorem expire (h : Matches H t) (hi : H.alive i) (halive : ∀ j,J.alive j ↔ j≠i ∧ H.alive j)
    (hkey : J.key=H.key) (hreply : J.reply=H.reply) :
    ∃ u,next t (expired (H.key i))=some u ∧ Matches J u := by
  obtain ⟨e,he⟩ := h.held_self hi
  have hother : ∀ j,J.alive j → H.key j≠H.key i := by
    intro j hj hk
    obtain ⟨hne,hj⟩ := (halive j).mp hj
    exact hne (h.unique j i hj hi hk)
  refine ⟨update t (H.key i) none,?_,?_,?_,?_⟩
  · cases e <;> simp [next,Label.key,he,answer]
  · intro a b ha hb hk
    rw [hkey] at hk
    exact h.unique a b ((halive a).mp ha).2 ((halive b).mp hb).2 hk
  · intro k
    rw [hkey]
    by_cases hk : k=H.key i
    · rw [hk,update_self]
      refine iff_of_false (by simp) ?_
      intro hj
      obtain ⟨j,hj,hjk⟩ := hj
      exact hother j hj hjk
    · rw [update_of_ne hk,h.held]
      constructor
      · intro hj
        obtain ⟨j,hj,hjk⟩ := hj
        refine ⟨j,(halive j).mpr ⟨?_,hj⟩,hjk⟩
        intro he
        rw [he] at hjk
        exact hk hjk.symm
      · intro hj
        obtain ⟨j,hj,hjk⟩ := hj
        exact ⟨j,((halive j).mp hj).2,hjk⟩
  · intro j hj r ht
    rw [hkey,update_of_ne (hother j hj)] at ht
    rw [hreply]
    exact h.replied j ((halive j).mp hj).2 r ht

end Matches

end OgsDp.Lib.Delivery
