import Mathlib.Data.List.Induction
import Mathlib.Logic.Function.Basic
import OgsDp.Lib.Run

/-!
# At-most-once delivery

A receiver hands a request over once, holds it until it expires and drops every copy that comes
in the meantime. A copy that comes after the reply was committed is answered with that reply.

A `Table` is all such a receiver has to know and `next` the one thing it may do on each event; a
component delivers at most once if its events can be followed by `next`.
-/

namespace OgsDp.Lib.Delivery
open Function List Option

universe u v

/-- What a receiver does: `dropped k sent` is a copy of `k` that was not handed over, with the
reply that was sent for it, and `refused k` a request that was turned away. -/
inductive Label (K : Type u) (R : Type v) where
  | delivered (k : K)
  | dropped (k : K) (sent : Option R)
  | refused (k : K)
  | committed (k : K) (r : R)
  | expired (k : K)
  deriving DecidableEq

open Label

def Label.key {K : Type u} {R : Type v} : Label K R → K
  | delivered k => k
  | dropped k _ => k
  | refused k => k
  | committed k _ => k
  | expired k => k

/-- What is delivered, dropped and sent again in the course of the events `L`. -/
structure AtMostOnce {K : Type u} {R : Type v} (L : List (Label K R)) : Prop where
  served : ∀ k,refused k∉L
  once : ∀ k a b c,L=a++delivered k::(b++delivered k::c) → expired k∈b
  handed : ∀ k sent a c,L=a++dropped k sent::c →
    ∃ a₁ a₂,a=a₁++delivered k::a₂ ∧ expired k∉a₂
  replied : ∀ k r sent a b c,L=a++committed k r::(b++dropped k sent::c) →
    expired k∉b → sent=some r

/-- The requests that are held, each with its reply once that is committed. -/
abbrev Table (K : Type u) (R : Type v) := K → Option (Option R)

theorem not_expired {K : Type u} {R : Type v} {k : K} {L : List (Label K R)} (h : expired k∉L) :
    ∀ l∈L,l.key=k → l≠expired l.key := by
  rintro l hl rfl he
  exact h (he ▸ hl)

section Tables

variable {K : Type u} {R : Type v} {k : K} {r : R} {l : Label K R} [DecidableEq R]

/-- The entry of the request after an event that concerns it, if the event is allowed. -/
def answer : Option (Option R) → Label K R → Option (Option (Option R))
  | none, delivered _ => some (some none)
  | some none, dropped _ _ => some (some none)
  | some (some r), dropped _ sent => if sent=some r then some (some (some r)) else none
  | some none, committed _ r => some (some (some r))
  | some (some r'), committed _ r => if r=r' then some (some (some r')) else none
  | some _, expired _ => some none
  | _, _ => none

/-! ### The entry of one request -/

theorem answer_delivered {e e' : Option (Option R)} (h : answer e (delivered k)=some e') :
    e=none ∧ e'=some none := by
  cases e with
  | none => exact ⟨rfl,(some.inj h).symm⟩
  | some o => cases o <;> cases h

theorem answer_committed {e e' : Option (Option R)} (h : answer e (committed k r)=some e') :
    e'=some (some r) := by
  rcases e with _ | _ | r'
  · cases h
  · exact (some.inj h).symm
  · simp only [answer] at h
    split at h
    · rename_i hr
      rw [← some.inj h,hr]
    · cases h

theorem answer_expired {e e' : Option (Option R)} (h : answer e l=some e')
    (hl : l=expired l.key) : e'=none := by
  rw [hl] at h
  cases e with
  | none => cases h
  | some o => cases o <;> exact (some.inj h).symm

theorem answer_isSome {e e' : Option (Option R)} (h : answer e l=some e') (he : e.isSome)
    (hl : l≠expired l.key) : e'.isSome := by
  obtain ⟨o,rfl⟩ := isSome_iff_exists.mp he
  cases l with
  | delivered k => cases (answer_delivered h).1
  | dropped k sent =>
    cases o with
    | none => simp [← some.inj h]
    | some r =>
      simp only [answer] at h
      split at h
      · simp [← some.inj h]
      · cases h
  | refused k => cases o <;> cases h
  | committed k r => simp [answer_committed h]
  | expired k => exact absurd rfl hl

theorem answer_replied {e' : Option (Option R)} (h : answer (some (some r)) l=some e')
    (hl : l≠expired l.key) : e'=some (some r) := by
  cases l with
  | delivered k => cases h
  | dropped k sent =>
    simp only [answer] at h
    split at h
    · exact (some.inj h).symm
    · cases h
  | refused k => cases h
  | committed k r' =>
    simp only [answer] at h
    split at h
    · exact (some.inj h).symm
    · cases h
  | expired k => exact absurd rfl hl

theorem answer_of_ne_delivered {e e' : Option (Option R)} (h : answer e l=some e')
    (hl : l≠delivered l.key) : e.isSome := by
  cases e with
  | some o => rfl
  | none =>
    cases l with
    | delivered k => exact absurd rfl hl
    | _ => cases h

/-! ### Tables -/

variable [DecidableEq K]

def next (t : Table K R) (l : Label K R) : Option (Table K R) :=
  (answer (t l.key) l).map (update t l.key)

def run (t : Table K R) : List (Label K R) → Option (Table K R)
  | [] => some t
  | l::L => (next t l).bind fun u => run u L

variable {t u w : Table K R} {L L₁ L₂ : List (Label K R)}

theorem next_entry (h : next t l=some u) (k : K) :
    (l.key=k ∧ answer (t k) l=some (u k)) ∨ (l.key≠k ∧ u k=t k) := by
  unfold next at h
  rw [map_eq_some_iff] at h
  obtain ⟨e,he,hu⟩ := h
  by_cases hk : l.key=k
  · subst hk
    refine .inl ⟨rfl,?_⟩
    rw [← hu,update_self]
    exact he
  · refine .inr ⟨hk,?_⟩
    rw [← hu,update_of_ne (Ne.symm hk)]

theorem next_self (h : answer (t l.key) l=some (t l.key)) : next t l=some t := by
  unfold next
  rw [h,map_some,update_eq_self]

theorem run_append : run t (L₁++L₂)=(run t L₁).bind fun u => run u L₂ := by
  induction L₁ generalizing t with
  | nil => rfl
  | cons l L₁ ih =>
    simp only [cons_append,run]
    cases next t l with
    | none => rfl
    | some u => exact ih

theorem run_split (h : run t (L₁++l::L₂)=some w) :
    ∃ u v,run t L₁=some u ∧ next u l=some v ∧ run v L₂=some w := by
  rw [run_append,bind_eq_some_iff] at h
  obtain ⟨u,hu,h⟩ := h
  simp only [run,bind_eq_some_iff] at h
  obtain ⟨v,hv,hw⟩ := h
  exact ⟨u,v,hu,hv,hw⟩

theorem run_entry {P : Option (Option R) → Prop} (h : run t L=some u) (ht : P (t k))
    (hstep : ∀ l∈L,l.key=k → ∀ e e',P e → answer e l=some e' → P e') : P (u k) := by
  induction L generalizing t with
  | nil =>
    simp only [run] at h
    rw [← some.inj h]
    exact ht
  | cons l L ih =>
    simp only [run,bind_eq_some_iff] at h
    obtain ⟨v,hv,h⟩ := h
    refine ih h ?_ fun l' hl' => hstep l' (mem_cons_of_mem l hl')
    rcases next_entry hv k with ⟨hk,ha⟩ | ⟨_,he⟩
    · exact hstep l (mem_cons_self ..) hk _ _ ht ha
    · rw [he]
      exact ht

theorem not_refused (h : run t L=some u) (k : K) : refused k∉L := by
  intro hm
  obtain ⟨L₁,L₂,rfl⟩ := append_of_mem hm
  obtain ⟨v,w,_,hn,_⟩ := run_split h
  simp only [next,map_eq_some_iff] at hn
  obtain ⟨e,he,_⟩ := hn
  rcases hv : v (refused k : Label K R).key with _ | _ | r <;> rw [hv] at he <;> cases he

theorem expired_between {a b c : List (Label K R)}
    (h : run t (a++delivered k::(b++delivered k::c))=some u) : expired k∈b := by
  by_contra hb
  obtain ⟨t₁,t₂,_,h₁,h⟩ := run_split h
  obtain ⟨t₃,t₄,h₂,h₃,_⟩ := run_split h
  have hheld : (t₂ k).isSome := by
    rcases next_entry h₁ k with ⟨_,ha⟩ | ⟨hne,_⟩
    · rw [(answer_delivered ha).2]
      rfl
    · exact absurd rfl hne
  have hstill : (t₃ k).isSome :=
    run_entry (P := fun e => e.isSome) h₂ hheld fun l hl hk e e' he ha =>
      answer_isSome ha he (not_expired hb l hl hk)
  rcases next_entry h₃ k with ⟨_,ha⟩ | ⟨hne,_⟩
  · rw [(answer_delivered ha).1] at hstill
    cases hstill
  · exact absurd rfl hne

theorem delivered_before (h : run t L=some u) (ht : t k=none) (hu : (u k).isSome) :
    ∃ a₁ a₂,L=a₁++delivered k::a₂ ∧ expired k∉a₂ := by
  induction L using List.reverseRecOn generalizing u with
  | nil =>
    simp only [run] at h
    rw [← some.inj h,ht] at hu
    cases hu
  | append_singleton L l ih =>
    obtain ⟨v,w,hv,hn,hw⟩ := run_split h
    simp only [run] at hw
    rw [← some.inj hw] at hu
    by_cases hd : l=delivered k
    · exact ⟨L,[],by rw [hd],not_mem_nil⟩
    -- an earlier delivery, unless this event ends the holding of `k`
    have hback : (v k).isSome ∧ l≠expired k := by
      rcases next_entry hn k with ⟨rfl,ha⟩ | ⟨hk,he⟩
      · refine ⟨answer_of_ne_delivered ha hd,?_⟩
        intro hx
        rw [answer_expired ha hx] at hu
        cases hu
      · rw [he] at hu
        exact ⟨hu,fun hx => hk (by rw [hx]; rfl)⟩
    obtain ⟨a₁,a₂,hL,ha₂⟩ := ih hv hback.1
    refine ⟨a₁,a₂++[l],by rw [hL]; simp,?_⟩
    rw [mem_append,mem_singleton,not_or]
    exact ⟨ha₂,Ne.symm hback.2⟩

theorem replied_after {a b c : List (Label K R)} {sent : Option R}
    (h : run t (a++committed k r::(b++dropped k sent::c))=some u)
    (hb : expired k∉b) : sent=some r := by
  obtain ⟨t₁,t₂,_,h₁,h⟩ := run_split h
  obtain ⟨t₃,t₄,h₂,h₃,_⟩ := run_split h
  have hreply : t₂ k=some (some r) := by
    rcases next_entry h₁ k with ⟨_,ha⟩ | ⟨hne,_⟩
    · exact answer_committed ha
    · exact absurd rfl hne
  have hstill : t₃ k=some (some r) :=
    run_entry (P := fun e => e=some (some r)) h₂ hreply fun l hl hk e e' he ha =>
      answer_replied (he ▸ ha) (not_expired hb l hl hk)
  rcases next_entry h₃ k with ⟨_,ha⟩ | ⟨hne,_⟩
  · rw [hstill] at ha
    simp only [answer] at ha
    split at ha
    · assumption
    · cases ha
  · exact absurd rfl hne

/-- Events that the table can follow from the start are delivered at most once. -/
theorem atMostOnce_of_run (h : run (fun _ => none) L=some u) : AtMostOnce L where
  served := not_refused h
  once := by
    rintro k a b c rfl
    exact expired_between h
  handed := by
    rintro k sent a c rfl
    obtain ⟨v,w,hv,hn,_⟩ := run_split h
    have hheld : (v k).isSome := by
      rcases next_entry hn k with ⟨_,ha⟩ | ⟨hne,_⟩
      · cases hvk : v k with
        | none =>
          rw [hvk] at ha
          cases ha
        | some o => rfl
      · exact absurd rfl hne
    exact delivered_before hv rfl hheld
  replied := by
    rintro k r sent a b c rfl
    exact replied_after h

/-- Simulation rule: a component whose calls each do what the table may do next delivers at most
once in every run. -/
theorem atMostOnce_of_sim {σ ε ρ : Type*} {step : σ → ε → Option (Outcome σ ρ)}
    {label : σ → ε → Outcome σ ρ → List (Label K R)} {C : σ → ε → Prop}
    {Sim : σ → Table K R → Prop}
    (hstep : ∀ s t e o,Sim s t → C s e → step s e=some o →
      ∃ u,run t (label s e o)=some u ∧ o.Leaves (fun s => Sim s u) fun _ => True)
    {s : σ} {es : List ε} (hs : Sim s fun _ => none) (hc : EachStep step C s es) :
    AtMostOnce (emitted step label s es) := by
  suffices h : ∀ es s t,Sim s t → EachStep step C s es →
      ∃ u,run t (emitted step label s es)=some u by
    obtain ⟨u,hu⟩ := h es s _ hs hc
    exact atMostOnce_of_run hu
  intro es
  induction es with
  | nil => exact fun s t _ _ => ⟨t,rfl⟩
  | cons e es ih =>
    intro s t hs hc
    simp only [EachStep] at hc
    simp only [emitted]
    cases ho : step s e with
    | none => exact ⟨t,rfl⟩
    | some o =>
      obtain ⟨u,hu,hleaves⟩ := hstep s t e o hs hc.1 ho
      cases o with
      | ok s' r =>
        simp only [ho] at hc
        obtain ⟨w,hw⟩ := ih s' u hleaves hc.2
        refine ⟨w,?_⟩
        rw [run_append,hu]
        exact hw
      | abort s' => exact ⟨u,hu⟩

end Tables

end OgsDp.Lib.Delivery
