import OgsDp.Lib.Checked

/-!
# Encoders into a buffer

An encoder appends to what is in a buffer of limited size, or stops for want of room. Encoders that
follow each other need the room for all that they append.
-/

namespace OgsDp.Lib
open List

universe u v

variable {α β : Type u} {ε : Type v} {limit : Nat} {bytes bytes' out r : List α}
  {write write' : List α → Except ε (List α)}

/-- `write` appends `bytes` where `limit` leaves room for them, and stops elsewhere. -/
def Writes (write : List α → Except ε (List α)) (limit : Nat) (bytes : List α) : Prop :=
  ∀ out r,out.length≤limit →
    (write out = .ok r ↔ out.length+bytes.length≤limit ∧ r=out++bytes)

/-- What fits behind the octets; the encoder stops with `e` if it does not. -/
def putWithin (e : ε) (limit : Nat) (bytes out : List α) : Except ε (List α) :=
  if out.length+bytes.length≤limit then .ok (out++bytes) else .error e

theorem writes_putWithin (e : ε) (limit : Nat) (bytes : List α) :
    Writes (putWithin e limit bytes) limit bytes := by
  intro out r _
  unfold putWithin
  split
  · rename_i hfits
    constructor
    · intro h
      exact ⟨hfits,(Except.ok.inj h).symm⟩
    · rintro ⟨-,rfl⟩
      rfl
  · rename_i hfits
    exact iff_of_false nofun fun h => hfits h.1

namespace Writes

theorem append (h : Writes write limit bytes) (hfits : out.length+bytes.length≤limit) :
    write out = .ok (out++bytes) :=
  (h out _ (by omega)).mpr ⟨hfits,rfl⟩

theorem nil : Writes (Except.ok : List α → Except ε (List α)) limit [] := by
  intro out r hout
  rw [append_nil,length_nil,Nat.add_zero]
  constructor
  · intro h
    exact ⟨hout,(Except.ok.inj h).symm⟩
  · rintro ⟨-,rfl⟩
    rfl

theorem bind (h : Writes write limit bytes) (h' : Writes write' limit bytes') :
    Writes (fun out => write out >>= write') limit (bytes++bytes') := by
  intro out r hout
  rw [length_append,← append_assoc]
  constructor
  · intro hok
    cases hw : write out with
    | error e =>
      simp only [hw] at hok
      cases hok
    | ok out' =>
      simp only [hw] at hok
      obtain ⟨hfits,rfl⟩ := (h out out' hout).mp hw
      obtain ⟨hfits',rfl⟩ := (h' _ r (by rw [length_append]; exact hfits)).mp hok
      rw [length_append] at hfits'
      exact ⟨by omega,rfl⟩
  · rintro ⟨hfits,rfl⟩
    have hfirst : write out = .ok (out++bytes) := h.append (by omega)
    have hnext : write' (out++bytes) = .ok (out++bytes++bytes') :=
      h'.append (by rw [length_append]; omega)
    simp only [hfirst]
    exact hnext

theorem foldlM {step : List α → β → Except ε (List α)} {enc : β → List α} {bs : List β}
    (h : ∀ b∈bs,Writes (fun out => step out b) limit (enc b)) :
    Writes (fun out => bs.foldlM step out) limit (bs.flatMap enc) := by
  induction bs with
  | nil => exact nil
  | cons b bs ih =>
    have hb:=h b (mem_cons_self ..)
    have hbs:=ih fun c hc => h c (mem_cons_of_mem b hc)
    exact hb.bind hbs

theorem foldlM_ok_mem {step : List α → β → Except ε (List α)} {bs : List β} {b : β}
    (h : bs.foldlM step out = .ok r) (hb : b∈bs) : ∃ o o',step o b = .ok o' := by
  induction bs generalizing out with
  | nil => exact absurd hb not_mem_nil
  | cons c bs ih =>
    rw [foldlM_cons] at h
    cases hstep : step out c with
    | error e =>
      rw [hstep] at h
      cases h
    | ok o =>
      rw [hstep] at h
      rcases mem_cons.mp hb with rfl | hb
      · exact ⟨out,o,hstep⟩
      · exact ih h hb

end Writes

end OgsDp.Lib
