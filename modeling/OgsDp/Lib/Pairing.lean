import Mathlib.Logic.Basic

/-!
# Records that name each other

Each record has an id, and it may name another record as its target and one as its source, by
their ids. In a pairing both sides agree, and no record names one that is gone.
-/

namespace OgsDp.Lib

variable {α κ : Type*}

/-- `nil` names no record. -/
structure Pairing (nil : κ) (live : α → Prop) (id target source : α → κ) : Prop where
  inj : ∀ a,live a → ∀ b,live b → id a=id b → a=b
  ne_nil : ∀ a,live a → id a≠nil
  symm : ∀ a,live a → ∀ b,live b → (target a=id b ↔ source b=id a)
  target_live : ∀ a,live a → target a=nil ∨ ∃ b,live b ∧ target a=id b
  source_live : ∀ a,live a → source a=nil ∨ ∃ b,live b ∧ source a=id b

namespace Pairing

variable {nil : κ} {live live' : α → Prop} {id id' target target' source source' : α → κ} {a b : α}

/-- No other record is the target or the source of `a`. -/
def Alone (nil : κ) (id target source : α → κ) (a : α) : Prop :=
  (target a=nil ∨ target a=id a) ∧ (source a=nil ∨ source a=id a)

theorem congr (h : Pairing nil live id target source) (hlive : ∀ c,live' c ↔ live c)
    (hid : ∀ c,live c → id' c=id c) (htarget : ∀ c,live c → target' c=target c)
    (hsource : ∀ c,live c → source' c=source c) : Pairing nil live' id' target' source' where
  inj := by
    intro a ha b hb heq
    rw [hlive] at ha hb
    rw [hid a ha,hid b hb] at heq
    exact h.inj a ha b hb heq
  ne_nil := by
    intro a ha
    rw [hlive] at ha
    rw [hid a ha]
    exact h.ne_nil a ha
  symm := by
    intro a ha b hb
    rw [hlive] at ha hb
    rw [htarget a ha,hsource b hb,hid a ha,hid b hb]
    exact h.symm a ha b hb
  target_live := by
    intro a ha
    rw [hlive] at ha
    rw [htarget a ha]
    refine (h.target_live a ha).imp_right ?_
    rintro ⟨b,hb,heq⟩
    exact ⟨b,(hlive b).mpr hb,heq.trans (hid b hb).symm⟩
  source_live := by
    intro a ha
    rw [hlive] at ha
    rw [hsource a ha]
    refine (h.source_live a ha).imp_right ?_
    rintro ⟨b,hb,heq⟩
    exact ⟨b,(hlive b).mpr hb,heq.trans (hid b hb).symm⟩

theorem add (h : Pairing nil live id target source) (hlive : ∀ c,live' c ↔ c=a ∨ live c)
    (ha : ¬ live a) (hnil : id' a≠nil) (hfresh : ∀ c,live c → id c≠id' a)
    (hatarget : target' a=nil) (hasource : source' a=nil)
    (hid : ∀ c,live c → id' c=id c) (htarget : ∀ c,live c → target' c=target c)
    (hsource : ∀ c,live c → source' c=source c) : Pairing nil live' id' target' source' where
  inj := by
    intro c hc d hd heq
    rcases (hlive c).mp hc with rfl | hc
    · rcases (hlive d).mp hd with rfl | hd
      · rfl
      · rw [hid d hd] at heq
        exact absurd heq.symm (hfresh d hd)
    · rw [hid c hc] at heq
      rcases (hlive d).mp hd with rfl | hd
      · exact absurd heq (hfresh c hc)
      · rw [hid d hd] at heq
        exact h.inj c hc d hd heq
  ne_nil := by
    intro c hc
    rcases (hlive c).mp hc with rfl | hc
    · exact hnil
    · rw [hid c hc]
      exact h.ne_nil c hc
  symm := by
    have hnone : ∀ c,live c → target c≠id' a ∧ source c≠id' a := by
      intro c hc
      constructor
      · intro heq
        rcases h.target_live c hc with hn | ⟨d,hd,hn⟩
        · exact hnil (heq.symm.trans hn)
        · exact hfresh d hd (hn.symm.trans heq)
      · intro heq
        rcases h.source_live c hc with hn | ⟨d,hd,hn⟩
        · exact hnil (heq.symm.trans hn)
        · exact hfresh d hd (hn.symm.trans heq)
    intro c hc d hd
    rcases (hlive c).mp hc with rfl | hc
    · rw [hatarget]
      rcases (hlive d).mp hd with rfl | hd
      · rw [hasource]
      · rw [hid d hd,hsource d hd]
        exact iff_of_false (h.ne_nil d hd).symm (hnone d hd).2
    · rw [htarget c hc,hid c hc]
      rcases (hlive d).mp hd with rfl | hd
      · rw [hasource]
        exact iff_of_false (hnone c hc).1 (h.ne_nil c hc).symm
      · rw [hid d hd,hsource d hd]
        exact h.symm c hc d hd
  target_live := by
    intro c hc
    rcases (hlive c).mp hc with rfl | hc
    · exact .inl hatarget
    · rw [htarget c hc]
      refine (h.target_live c hc).imp_right ?_
      rintro ⟨d,hd,heq⟩
      exact ⟨d,(hlive d).mpr (.inr hd),heq.trans (hid d hd).symm⟩
  source_live := by
    intro c hc
    rcases (hlive c).mp hc with rfl | hc
    · exact .inl hasource
    · rw [hsource c hc]
      refine (h.source_live c hc).imp_right ?_
      rintro ⟨d,hd,heq⟩
      exact ⟨d,(hlive d).mpr (.inr hd),heq.trans (hid d hd).symm⟩

theorem drop (h : Pairing nil live id target source) (hlive : ∀ c,live' c ↔ live c ∧ c≠a)
    (ha : live a) (halone : Alone nil id target source a) :
    Pairing nil live' id target source where
  inj := fun c hc d hd => h.inj c ((hlive c).mp hc).1 d ((hlive d).mp hd).1
  ne_nil := fun c hc => h.ne_nil c ((hlive c).mp hc).1
  symm := fun c hc d hd => h.symm c ((hlive c).mp hc).1 d ((hlive d).mp hd).1
  target_live := by
    intro c hc
    obtain ⟨hc,hca⟩ := (hlive c).mp hc
    refine (h.target_live c hc).imp_right ?_
    rintro ⟨d,hd,heq⟩
    refine ⟨d,(hlive d).mpr ⟨hd,?_⟩,heq⟩
    rintro rfl
    have hsource:=(h.symm c hc d ha).mp heq
    rcases halone.2 with hn | hn
    · exact h.ne_nil c hc (hsource.symm.trans hn)
    · exact hca (h.inj c hc d ha (hsource.symm.trans hn))
  source_live := by
    intro c hc
    obtain ⟨hc,hca⟩ := (hlive c).mp hc
    refine (h.source_live c hc).imp_right ?_
    rintro ⟨d,hd,heq⟩
    refine ⟨d,(hlive d).mpr ⟨hd,?_⟩,heq⟩
    rintro rfl
    have htarget:=(h.symm d ha c hc).mpr heq
    rcases halone.1 with hn | hn
    · exact h.ne_nil c hc (htarget.symm.trans hn)
    · exact hca (h.inj c hc d ha (htarget.symm.trans hn))

variable [DecidableEq α]

/-- `b` becomes the target of `a`, where `a` has no other target and `b` no other source. -/
theorem link (h : Pairing nil live id target source) (ha : live a) (hb : live b)
    (hfree : target a=nil ∨ target a=id b) (hfree' : source b=nil ∨ source b=id a)
    (htarget : ∀ c,target' c = if c=a then id b else target c)
    (hsource : ∀ c,source' c = if c=b then id a else source c) :
    Pairing nil live id target' source' where
  inj := h.inj
  ne_nil := h.ne_nil
  symm := by
    intro c hc d hd
    rw [htarget,hsource]
    by_cases hca : c=a
    · subst hca
      rw [if_pos rfl]
      by_cases hdb : d=b
      · subst hdb
        rw [if_pos rfl]
        exact iff_of_true rfl rfl
      · rw [if_neg hdb,← h.symm c hc d hd]
        refine iff_of_false (fun heq => hdb (h.inj b hb d hd heq).symm) fun heq => ?_
        rcases hfree with hn | hn
        · exact h.ne_nil d hd (heq.symm.trans hn)
        · exact hdb (h.inj d hd b hb (heq.symm.trans hn))
    · rw [if_neg hca]
      by_cases hdb : d=b
      · subst hdb
        rw [if_pos rfl,h.symm c hc d hd]
        refine iff_of_false (fun heq => ?_) fun heq => hca (h.inj a ha c hc heq).symm
        rcases hfree' with hn | hn
        · exact h.ne_nil c hc (heq.symm.trans hn)
        · exact hca (h.inj c hc a ha (heq.symm.trans hn))
      · rw [if_neg hdb]
        exact h.symm c hc d hd
  target_live := by
    intro c hc
    rw [htarget]
    by_cases hca : c=a
    · rw [if_pos hca]
      exact .inr ⟨b,hb,rfl⟩
    · rw [if_neg hca]
      exact h.target_live c hc
  source_live := by
    intro c hc
    rw [hsource]
    by_cases hcb : c=b
    · rw [if_pos hcb]
      exact .inr ⟨a,ha,rfl⟩
    · rw [if_neg hcb]
      exact h.source_live c hc

theorem unlink (h : Pairing nil live id target source) (ha : live a) (hb : live b)
    (hab : target a=id b) (htarget : ∀ c,target' c = if c=a then nil else target c)
    (hsource : ∀ c,source' c = if c=b then nil else source c) :
    Pairing nil live id target' source' where
  inj := h.inj
  ne_nil := h.ne_nil
  symm := by
    have hba:=(h.symm a ha b hb).mp hab
    intro c hc d hd
    rw [htarget,hsource]
    by_cases hca : c=a
    · subst hca
      rw [if_pos rfl]
      refine iff_of_false (h.ne_nil d hd).symm ?_
      by_cases hdb : d=b
      · rw [if_pos hdb]
        exact (h.ne_nil c hc).symm
      · rw [if_neg hdb,← h.symm c hc d hd,hab]
        exact fun heq => hdb (h.inj b hb d hd heq).symm
    · rw [if_neg hca]
      by_cases hdb : d=b
      · subst hdb
        rw [if_pos rfl,h.symm c hc d hd,hba]
        exact iff_of_false (fun heq => hca (h.inj a ha c hc heq).symm) (h.ne_nil c hc).symm
      · rw [if_neg hdb]
        exact h.symm c hc d hd
  target_live := by
    intro c hc
    rw [htarget]
    by_cases hca : c=a
    · exact .inl (if_pos hca)
    · rw [if_neg hca]
      exact h.target_live c hc
  source_live := by
    intro c hc
    rw [hsource]
    by_cases hcb : c=b
    · exact .inl (if_pos hcb)
    · rw [if_neg hcb]
      exact h.source_live c hc

end Pairing

end OgsDp.Lib
