import Mathlib.Data.List.Basic
import Mathlib.Tactic.SplitIfs

/-!
# Searching text

`strstr` and `strchr` return the text from the first hit on. A text whose parts are kept apart by
a separator, no part containing it, is searched separator by separator: a needle that starts with
the separator can only begin at one of them.
-/

namespace OgsDp.Lib.Text
open List

variable {α : Type*} [DecidableEq α]

def strstr (needle : List α) : List α → Option (List α)
  | [] => if needle=[] then some [] else none
  | x::xs => if needle <+: x::xs then some (x::xs) else strstr needle xs

def strchr (q : α) : List α → Option (List α)
  | [] => none
  | x::xs => if x=q then some (x::xs) else strchr q xs

/-- The text in front of the first `q`, where there is one. -/
def upTo (q : α) (text : List α) : Option (List α) :=
  (strchr q text).map fun e => text.take (text.length-e.length)

variable {q : α} {xs rest needle : List α}

theorem strchr_append (h : q∉xs) : strchr q (xs++q::rest)=some (q::rest) := by
  induction xs with
  | nil => simp [strchr]
  | cons x xs ih =>
    have hx : x≠q := fun he => h (he ▸ mem_cons_self ..)
    have hxs : q∉xs := fun hm => h (mem_cons_of_mem _ hm)
    rw [cons_append,strchr,if_neg hx,ih hxs]

theorem strchr_some {text e : List α} (h : strchr q text=some e) :
    ∃ xs rest,text=xs++q::rest ∧ e=q::rest ∧ q∉xs := by
  induction text with
  | nil => cases h
  | cons x text ih =>
    rw [strchr] at h
    split_ifs at h with hx
    · cases h
      exact ⟨[],text,by rw [hx]; rfl,by rw [hx],not_mem_nil⟩
    · obtain ⟨xs,rest,rfl,he,hxs⟩ := ih h
      apply Exists.intro (x::xs)
      apply Exists.intro rest
      have hmem : q∉x::xs := by
        intro hm
        rcases mem_cons.mp hm with hm | hm
        · exact hx hm.symm
        · exact hxs hm
      exact ⟨rfl,he,hmem⟩

theorem upTo_append (h : q∉xs) : upTo q (xs++q::rest)=some xs := by
  unfold upTo
  rw [strchr_append h]
  simp

/-- What lies in front of the first `q` has no `q` and was in the text. -/
theorem upTo_some {text part : List α} (h : upTo q text=some part) :
    ∃ rest,text=part++q::rest ∧ q∉part := by
  unfold upTo at h
  cases he : strchr q text with
  | none => simp [he] at h
  | some e =>
    obtain ⟨xs,rest,rfl,rfl,hxs⟩ := strchr_some he
    have hpart : part=xs := by simpa [he] using h.symm
    exact ⟨rest,by rw [hpart],hpart ▸ hxs⟩

theorem strstr_some {text e : List α} (h : strstr needle text=some e) :
    needle <+: e ∧ e <:+ text := by
  induction text with
  | nil =>
    rw [strstr] at h
    split_ifs at h with hn
    cases h
    exact ⟨hn ▸ prefix_refl _,suffix_refl _⟩
  | cons x text ih =>
    rw [strstr] at h
    split_ifs at h with hx
    · cases h
      exact ⟨hx,suffix_refl _⟩
    · have hrest:=ih h
      exact ⟨hrest.1,hrest.2.trans (suffix_cons ..)⟩

theorem strstr_first {text e : List α} (h : strstr needle text=some e) :
    ∃ front rest,text=front++(needle++rest) ∧ e=needle++rest ∧
      (needle≠[] → ¬ needle <:+: front) := by
  induction text with
  | nil =>
    rw [strstr] at h
    split_ifs at h with hn
    cases h
    exact ⟨[],[],by rw [hn]; rfl,by rw [hn]; rfl,fun hne => absurd hn hne⟩
  | cons x text ih =>
    rw [strstr] at h
    split_ifs at h with hx
    · cases h
      obtain ⟨rest,hrest⟩ := hx
      exact ⟨[],rest,hrest.symm,hrest.symm,fun hne hin => hne (List.infix_nil.mp hin)⟩
    · obtain ⟨front,rest,htext,he,hno⟩ := ih h
      refine ⟨x::front,rest,by rw [htext]; rfl,he,fun hne hin => ?_⟩
      rcases List.infix_cons_iff.mp hin with hpre | hin
      · refine hx (hpre.trans ?_)
        rw [htext]
        exact prefix_append (x::front) _
      · exact hno hne hin

/-! ### Needles without a repeated character -/

section Needles

variable {u v front front' rest' : List α}

omit [DecidableEq α] in
theorem needle_overlap (hnd : needle.Nodup) {c : List α} (hc : c≠[])
    (h : needle++rest=c++(needle++rest')) : needle <:+: rest := by
  rcases List.append_eq_append_iff.mp h with ⟨d,rfl,hrest⟩ | ⟨d,hneedle,hrest⟩
  · exact ⟨d,rest',by rw [hrest,append_assoc]⟩
  · cases d with
    | nil =>
      rw [nil_append] at hrest
      exact ⟨[],rest',by rw [← hrest]; rfl⟩
    | cons y d =>
      obtain ⟨x,c,rfl⟩ := exists_cons_of_ne_nil hc
      rw [hneedle] at hnd hrest
      have hy : x=y := (cons.inj hrest).1
      have hdis:=(nodup_append.mp hnd).2.2
      exact absurd hy (hdis x (mem_cons_self ..) y (mem_cons_self ..))

omit [DecidableEq α] in
theorem last_hit_unique (hnd : needle.Nodup) (hrest : ¬ needle <:+: rest)
    (hrest' : ¬ needle <:+: rest')
    (h : front++(needle++rest)=front'++(needle++rest')) :
    front=front' ∧ rest=rest' := by
  rcases List.append_eq_append_iff.mp h with ⟨c,rfl,hc⟩ | ⟨c,rfl,hc⟩
  · by_cases hnil : c=[]
    · subst hnil
      exact ⟨(append_nil _).symm,append_cancel_left hc⟩
    · exact absurd (needle_overlap hnd hnil hc) hrest
  · by_cases hnil : c=[]
    · subst hnil
      exact ⟨append_nil _,(append_cancel_left hc).symm⟩
    · exact absurd (needle_overlap hnd hnil hc) hrest'

theorem exists_last_hit {text : List α} (hne : needle≠[]) (h : needle <:+: text) :
    ∃ front rest,text=front++(needle++rest) ∧ ¬ needle <:+: rest := by
  induction text with
  | nil => exact absurd (List.infix_nil.mp h) hne
  | cons x text ih =>
    by_cases hin : needle <:+: text
    · obtain ⟨front,rest,rfl,hno⟩ := ih hin
      exact ⟨x::front,rest,rfl,hno⟩
    · rcases List.infix_cons_iff.mp h with ⟨rest,hrest⟩ | hno
      · refine ⟨[],rest,hrest.symm,fun hlast => hin (hlast.trans ?_)⟩
        obtain ⟨y,needle,rfl⟩ := exists_cons_of_ne_nil hne
        have htext : text=needle++rest := (cons.inj hrest).2.symm
        rw [htext]
        exact (suffix_append needle rest).isInfix
      · exact absurd hno hin

theorem strstr_here (hnd : needle.Nodup) (hne : needle≠[]) (hfront : ¬ needle <:+: front)
    (rest : List α) :
    strstr needle (front++(needle++rest))=some (needle++rest) := by
  induction front with
  | nil =>
    obtain ⟨x,needle,rfl⟩ := exists_cons_of_ne_nil hne
    exact if_pos (prefix_append _ _)
  | cons x front ih =>
    have hin : ¬ needle <:+: front := fun h => hfront (h.trans (suffix_cons x front).isInfix)
    have hno : ¬ needle <+: x::(front++(needle++rest)) := by
      rintro ⟨t,ht⟩
      have hover : needle++t=(x::front)++(needle++rest) := ht
      rcases List.append_eq_append_iff.mp hover with ⟨d,hd,-⟩ | ⟨d,hd,hrest⟩
      · exact hfront ⟨[],d,hd.symm⟩
      · cases d with
        | nil =>
          rw [append_nil] at hd
          exact hfront ⟨[],[],by rw [append_nil,nil_append]; exact hd⟩
        | cons y d =>
          have hcopy:=hnd
          rw [hd] at hcopy
          have hy : y=x := by
            rw [hd] at hrest
            exact (cons.inj hrest).1.symm
          have hdis:=(nodup_append.mp hcopy).2.2
          exact absurd hy.symm (hdis x (mem_cons_self ..) y (mem_cons_self ..))
    rw [cons_append,strstr,if_neg hno,ih hin]

omit [DecidableEq α] in
theorem infix_separator (hq : q∉needle) (hne : needle≠[]) :
    needle <:+: u++q::v ↔ needle <:+: u ∨ needle <:+: v := by
  constructor
  · rintro ⟨s,t,h⟩
    rw [append_assoc] at h
    rcases List.append_eq_append_iff.mp h with ⟨c,rfl,hc⟩ | ⟨c,rfl,hc⟩
    · rcases List.append_eq_append_iff.mp hc with ⟨d,rfl,-⟩ | ⟨d,rfl,hd⟩
      · exact .inl ⟨s,d,by rw [append_assoc]⟩
      · cases d with
        | nil => exact .inl ⟨s,[],by rw [append_nil,append_nil]⟩
        | cons y d =>
          have hy : q=y := (cons.inj hd).1
          exact absurd (mem_append_right c (hy ▸ mem_cons_self ..)) hq
    · cases c with
      | nil =>
        obtain ⟨x,needle,rfl⟩ := exists_cons_of_ne_nil hne
        have hx : q=x := (cons.inj hc).1
        exact absurd (hx ▸ mem_cons_self ..) hq
      | cons y c =>
        have hv : v=c++(needle++t) := (cons.inj hc).2
        exact .inr ⟨c,t,by rw [hv,append_assoc]⟩
  · rintro (h | h)
    · exact h.trans (prefix_append u (q::v)).isInfix
    · exact h.trans ((suffix_cons q v).trans (suffix_append u (q::v))).isInfix

end Needles

/-! ### Texts kept apart by a separator -/

theorem strstr_separator (h : q∉xs) :
    strstr (q::needle) (xs++q::rest) =
      if needle <+: rest then some (q::rest) else strstr (q::needle) rest := by
  induction xs with
  | nil =>
    rw [nil_append,strstr]
    simp only [cons_prefix_cons,true_and]
  | cons x xs ih =>
    have hx : q≠x := fun he => h (he ▸ mem_cons_self ..)
    have hxs : q∉xs := fun hm => h (mem_cons_of_mem _ hm)
    have hno : ¬ (q::needle <+: x::(xs++q::rest)) := by
      rw [cons_prefix_cons]
      exact fun hp => hx hp.1
    rw [cons_append,strstr,if_neg hno,ih hxs]

omit [DecidableEq α] in
theorem prefix_of_separator {name u v : List α} (hn : q∉name) (hx : q∉xs) :
    (name++q::u <+: xs++q::v) ↔ name=xs ∧ u <+: v := by
  induction name generalizing xs with
  | nil =>
    cases xs with
    | nil => simp
    | cons x xs =>
      have hne : q≠x := fun he => hx (he ▸ mem_cons_self ..)
      simp [hne]
  | cons a name ih =>
    have ha : a≠q := fun he => hn (he ▸ mem_cons_self ..)
    cases xs with
    | nil => simp [ha]
    | cons x xs =>
      have hname : q∉name := fun hm => hn (mem_cons_of_mem _ hm)
      have hxs : q∉xs := fun hm => hx (mem_cons_of_mem _ hm)
      rw [cons_append,cons_append,cons_prefix_cons,ih hname hxs,
        cons.injEq,and_assoc]

end OgsDp.Lib.Text
