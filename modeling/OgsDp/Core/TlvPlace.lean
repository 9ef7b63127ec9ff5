import Mathlib.Data.List.Perm.Subperm
import OgsDp.Core.TlvSlots

/-!
# Elements go back into the slots they were made of (lib/core/ogs-tlv-msg.c)

`tlv_parse_compound` counts the elements of each type and instance to find the child of the next
one.
-/

namespace OgsDp.Core
open Function List

theorem findDescFrom_eq {key : Nat × Nat} {d : TlvDesc} {pos : Nat} (ds : List TlvDesc) {t i : Nat}
    {prev : Option TlvType} {matched : Nat} (hmore : MoreOk prev ds) (hd : ds[t]?=some d)
    (hkey : d.key=key) (hpos : matched+(ds.take t).countP (fun d => d.key=key)=pos) :
    findDescFrom key pos i prev matched ds = .ok (some (i+t,d)) := by
  induction ds generalizing t i prev matched with
  | nil => simp at hd
  | cons d₀ ds ih =>
    obtain ⟨hfirst,hrest⟩ := hmore
    rw [findDescFrom]
    cases t with
    | zero =>
      have hd₀ : d₀=d := by simpa using hd
      rw [hd₀,if_pos ⟨hkey,by simpa using hpos⟩]
      rfl
    | succ t =>
      rw [take_succ_cons,countP_cons] at hpos
      rw [List.getElem?_cons_succ] at hd
      have hne : ¬ (d₀.key=key ∧ matched=pos) := by
        rintro ⟨hk,hm⟩
        simp only [hk,decide_true,if_true] at hpos
        omega
      have hplaced : ¬ (d₀.ctype = .more ∧ (prev=none ∨ prev=some .more)) := by
        rintro ⟨hm,hp⟩
        exact hp.elim (hfirst hm).1 (hfirst hm).2
      rw [if_neg hne,if_neg hplaced,ih hrest hd]
      · rw [Nat.add_right_comm,Nat.add_assoc]
      · by_cases hk : d₀.key=key
        · simp only [hk,decide_true,if_true] at hpos ⊢
          omega
        · simp only [hk,decide_false,if_false] at hpos ⊢
          simpa using hpos

section Count

variable {S : Type} {descs : List TlvDesc} {m : Nat → Nat → Slot S} {c : Counts} {i : Nat}
  {desc : TlvDesc} {key : Nat × Nat}

/-- The counts when the children before `i` are parsed. -/
structure Tally (descs : List TlvDesc) (m : Nat → Nat → Slot S) (i : Nat) (c : Counts) : Prop where
  nodup : c.keys.Nodup
  keys : ∀ key∈c.keys,key∈descs.map TlvDesc.key
  fresh : ∀ key,key∉c.keys → c.count key=0
  count : ∀ key,Earlier descs m i key →
    c.count key=(descs.take i).countP fun d => d.key=key

theorem Counts.mem_find (c : Counts) (key : Nat × Nat) : key∈(c.find key).keys := by
  unfold Counts.find
  split_ifs with h
  · exact h
  · exact mem_cons_self ..

theorem Counts.find_count (c : Counts) (key : Nat × Nat) : (c.find key).count=c.count := by
  unfold Counts.find
  split_ifs <;> rfl

theorem countP_take_succ (hd : descs[i]?=some desc) (key : Nat × Nat) :
    ((descs.take (i+1)).countP fun d => d.key=key) =
      ((descs.take i).countP fun d => d.key=key) + if desc.key=key then 1 else 0 := by
  have hlt:=(List.getElem?_eq_some_iff.mp hd).1
  have hget:=(List.getElem?_eq_some_iff.mp hd).2
  rw [take_succ_eq_append_getElem hlt,countP_append,hget]
  by_cases hk : desc.key=key
  · simp [hk]
  · simp [hk]

namespace Tally

theorem zero : Tally descs m 0 .zero where
  nodup := nodup_nil
  keys := by
    intro key hkey
    cases hkey
  fresh _ _ := rfl
  count _ _ := rfl

theorem room (h : Tally descs m i c) (hdescs : DescsOk descs) (hkey : key∉c.keys)
    (hmem : key∈descs.map TlvDesc.key) : c.keys.length<128 := by
  have hnodup : (key::c.keys).Nodup := nodup_cons.mpr ⟨hkey,h.nodup⟩
  have hsub : key::c.keys ⊆ descs.map TlvDesc.key := by
    intro k hk
    rcases mem_cons.mp hk with rfl | hk
    · exact hmem
    · exact h.keys k hk
  have hle:=(subperm_of_subset hnodup hsub).length_le
  have hlen:=hdescs.length_lt
  rw [length_map,length_cons] at hle
  omega

theorem countNodeFind (h : Tally descs m i c) (hdescs : DescsOk descs)
    (hmem : key∈descs.map TlvDesc.key) : tlvCountNodeFind c key = .ok (c.find key) := by
  unfold tlvCountNodeFind Counts.find
  by_cases hkey : key∈c.keys
  · rw [if_pos hkey,if_pos hkey]
  · have hroom:=h.room hdescs hkey hmem
    have hsame : update c.count key 0=c.count := by
      rw [← h.fresh key hkey]
      exact update_eq_self ..
    rw [if_neg hkey,if_neg hkey,if_neg (by omega),hsame]

theorem find (h : Tally descs m i c) (hmem : key∈descs.map TlvDesc.key) :
    Tally descs m i (c.find key) := by
  unfold Counts.find
  split_ifs with hkey
  · exact h
  · constructor
    · exact nodup_cons.mpr ⟨hkey,h.nodup⟩
    · intro k hk
      rcases mem_cons.mp hk with rfl | hk
      · exact hmem
      · exact h.keys k hk
    · intro k hk
      exact h.fresh k fun hk' => hk (mem_cons_of_mem _ hk')
    · exact h.count

theorem incr (h : Tally descs m i c) (hd : descs[i]?=some desc) (hmem : desc.key∈c.keys) :
    Tally descs m (i+1) (c.incr desc.key) := by
  constructor
  · exact h.nodup
  · exact h.keys
  · intro key hkey
    have hne : key≠desc.key := fun heq => hkey (heq ▸ hmem)
    exact (update_of_ne hne ..).trans (h.fresh key hkey)
  · intro key hearlier
    have hcount:=h.count key fun i' hi' => hearlier i' (by omega)
    rw [countP_take_succ hd,← hcount]
    by_cases hk : desc.key=key
    · rw [if_pos hk,← hk]
      exact update_self ..
    · rw [if_neg hk]
      exact update_of_ne (Ne.symm hk) ..

theorem skip (h : Tally descs m i c) (hd : descs[i]?=some desc)
    (hskip : ¬ (Single descs i ∧ (m i 0).presence)) : Tally descs m (i+1) c := by
  constructor
  · exact h.nodup
  · exact h.keys
  · exact h.fresh
  · intro key hearlier
    have hne : desc.key≠key := fun hk => hskip (hearlier i (by omega) desc hd hk)
    have hcount:=h.count key fun i' hi' => hearlier i' (by omega)
    rw [countP_take_succ hd,if_neg hne,hcount]
    rfl

end Tally

end Count

section Place

variable {S : Type} {descs : List TlvDesc} {m w : Nat → Nat → Slot S} {c : Counts} {e : Elem}
  {i j : Nat} {desc next : TlvDesc}

theorem place_eq (hdescs : DescsOk descs) (ht : Tally descs m i c) (hd : descs[i]?=some desc)
    (hearlier : Earlier descs m i desc.key) (hkey : (e.type,e.inst)=desc.key) :
    place descs w e c =
      match descs[i+1]? with
      | some next =>
        if next.ctype = .more then
          match (List.range next.length.val).find? fun j => !(w i j).presence with
          | some j => .ok (.slot (c.find desc.key) i j desc)
          | none => .ok (.skip (c.find desc.key))
        else .ok (.slot ((c.find desc.key).incr desc.key) i 0 desc)
      | none => .ok (.slot ((c.find desc.key).incr desc.key) i 0 desc) := by
  have hmem : desc.key∈descs.map TlvDesc.key := List.mem_map_of_mem (List.mem_of_getElem? hd)
  have hcount : 0+((descs.take i).countP fun d => d.key=desc.key) =
      (c.find desc.key).count desc.key := by
    rw [Nat.zero_add,c.find_count,ht.count _ hearlier]
  have hfound : tlvFindDescByTypeInst descs desc.key ((c.find desc.key).count desc.key) =
      .ok (some (i,desc)) := by
    have h:=findDescFrom_eq (i := 0) descs hdescs.more hd rfl hcount
    rwa [Nat.zero_add] at h
  unfold place
  rw [hkey,ht.countNodeFind hdescs hmem]
  show Except.bind (tlvFindDescByTypeInst descs desc.key _) _=_
  rw [hfound]
  rfl

theorem place_single (hdescs : DescsOk descs) (ht : Tally descs m i c) (hd : descs[i]?=some desc)
    (hearlier : Earlier descs m i desc.key) (hkey : (e.type,e.inst)=desc.key)
    (hnext : ∀ d∈descs[i+1]?,d.ctype ≠ .more) :
    place descs w e c = .ok (.slot ((c.find desc.key).incr desc.key) i 0 desc) := by
  rw [place_eq hdescs ht hd hearlier hkey]
  cases hn : descs[i+1]? with
  | none => rfl
  | some next => exact if_neg (hnext next hn)

theorem place_repeated (hdescs : DescsOk descs) (ht : Tally descs m i c)
    (hd : descs[i]?=some desc) (hearlier : Earlier descs m i desc.key)
    (hkey : (e.type,e.inst)=desc.key) (hnext : descs[i+1]?=some next)
    (hmore : next.ctype = .more) (hj : j<next.length.val) (hfree : (w i j).presence=false)
    (hused : ∀ j'<j,(w i j').presence) :
    place descs w e c = .ok (.slot (c.find desc.key) i j desc) := by
  have hfind : (List.range next.length.val).find? (fun j => !(w i j).presence)=some j := by
    rw [List.find?_range_eq_some]
    refine ⟨by rw [hfree]; rfl,mem_range.mpr hj,?_⟩
    intro j' hj'
    rw [hused j' hj']
    rfl
  rw [place_eq hdescs ht hd hearlier hkey,hnext]
  show (if next.ctype = .more then _ else _)=_
  rw [if_pos hmore,hfind]

end Place

/-- The element `e` is one of the slot `f`, and a blank slot is filled from it. -/
structure Reads {S : Type} (field : TlvDesc → Elem → Slot S → Nat → Except Stop (Slot S × Nat))
    (blank : TlvDesc → Slot S → Prop) (agree : TlvDesc → Slot S → Slot S → Prop)
    (cost : Loc → Nat) (m : Nat → Nat → Slot S) (e : Elem) (f : Loc) : Prop where
  key : (e.type,e.inst)=f.desc.key
  field : ∀ v avail,blank f.desc v → cost f≤avail → ∃ v',
    field f.desc e v avail = .ok (v',avail-cost f) ∧ v'.presence ∧ agree f.desc (at' m f) v'

section Run

variable {S : Type} {field : TlvDesc → Elem → Slot S → Nat → Except Stop (Slot S × Nat)}
  {blank : TlvDesc → Slot S → Prop} {agree : TlvDesc → Slot S → Slot S → Prop} {cost : Loc → Nat}
  {descs : List TlvDesc} {m w w' w'' : Nat → Nat → Slot S} {c c' c'' : Counts} {e : Elem}
  {es es' : List Elem} {i j avail avail' avail'' : Nat} {desc next : TlvDesc} {f : Loc}

def Goes (field : TlvDesc → Elem → Slot S → Nat → Except Stop (Slot S × Nat))
    (descs : List TlvDesc) (es : List Elem) (c : Counts) (w : Nat → Nat → Slot S) (avail : Nat)
    (c' : Counts) (w' : Nat → Nat → Slot S) (avail' : Nat) : Prop :=
  ∀ rest,parseElems field descs (es++rest) c w avail=parseElems field descs rest c' w' avail'

theorem Goes.refl : Goes field descs [] c w avail c w avail := fun _ => rfl

theorem Goes.trans (h : Goes field descs es c w avail c' w' avail')
    (h' : Goes field descs es' c' w' avail' c'' w'' avail'') :
    Goes field descs (es++es') c w avail c'' w'' avail'' := by
  intro rest
  rw [append_assoc,h,h']

theorem goes_one {v : Slot S} (hp : place descs w e c = .ok (.slot c' i j desc))
    (hf : field desc e (w i j) avail = .ok (v,avail')) :
    Goes field descs [e] c w avail c' (update w i (update (w i) j v)) avail' := by
  intro rest
  show parseElems field descs (e::rest) c w avail=_
  rw [parseElems,hp]
  show Except.bind (field desc e (w i j) avail) _=_
  rw [hf]
  rfl

theorem Back.absent (hm : (at' m f).presence=false) (hw : (at' w f).presence=false) :
    Back agree m w f := by
  constructor
  · rw [hw,hm]
  · intro hp
    rw [hm] at hp
    cases hp

def total (cost : Loc → Nat) (fs : List Loc) : Nat := (fs.map cost).sum

theorem total_append (fs gs : List Loc) : total cost (fs++gs)=total cost fs+total cost gs := by
  unfold total
  rw [map_append,sum_append]

theorem goes_slot (hr : Reads field blank agree cost m e f) (hm : (at' m f).presence)
    (hp : place descs w e c = .ok (.slot c' f.child f.rep f.desc)) (hw : Blank blank w f)
    (havail : cost f≤avail) :
    ∃ w',Goes field descs [e] c w avail c' w' (avail-cost f) ∧ Back agree m w' f ∧
      (∀ i ≠ f.child,w' i=w i) ∧ ∀ j ≠ f.rep,w' f.child j=w f.child j := by
  obtain ⟨v,hv,hpres,hagree⟩ := hr.field (at' w f) avail hw.2 havail
  have hat : at' (update w f.child (update (w f.child) f.rep v)) f=v := by
    unfold at'
    rw [update_self,update_self]
  refine ⟨_,goes_one hp hv,⟨?_,?_⟩,?_,?_⟩
  · rw [hat,hpres,hm]
  · intro _
    rw [hat]
    exact hagree
  · intro i hi
    exact update_of_ne hi ..
  · intro j hj
    rw [update_self]
    exact update_of_ne hj ..

theorem goes_single (hdescs : DescsOk descs) (ht : Tally descs m i c) (hd : descs[i]?=some desc)
    (hnext : ∀ d∈descs[i+1]?,d.ctype ≠ .more)
    (hearlier : (m i 0).presence → Earlier descs m i desc.key) (hw : Blank blank w ⟨i,0,desc⟩)
    (hes : List.Forall₂ (Reads field blank agree cost m) es (present m (childSlots i 1 desc)))
    (havail : total cost (present m (childSlots i 1 desc))≤avail) :
    ∃ c' w',Goes field descs es c w avail c' w'
        (avail-total cost (present m (childSlots i 1 desc))) ∧
      Tally descs m (i+1) c' ∧ Back agree m w' ⟨i,0,desc⟩ ∧ ∀ i' ≠ i,w' i'=w i' := by
  cases hp : (m i 0).presence with
  | false =>
    have hnone : present m (childSlots i 1 desc)=[] := by
      simp [present,childSlots,at',hp]
    rw [hnone] at hes ⊢
    cases hes
    have hskip : ¬ (Single descs i ∧ (m i 0).presence) := by
      rw [hp]
      simp
    exact ⟨c,w,.refl,ht.skip hd hskip,.absent hp hw.1,fun _ _ => rfl⟩
  | true =>
    have hone : present m (childSlots i 1 desc)=[⟨i,0,desc⟩] := by
      simp [present,childSlots,at',hp]
    have hcost : total cost [(⟨i,0,desc⟩ : Loc)]=cost ⟨i,0,desc⟩ := by
      simp [total]
    rw [hone,hcost] at havail
    rw [hone] at hes ⊢
    rw [hcost]
    rcases hes with _ | ⟨hr,hnil⟩
    cases hnil
    have hmem : desc.key∈descs.map TlvDesc.key := List.mem_map_of_mem (List.mem_of_getElem? hd)
    have hplace:=place_single (w := w) hdescs ht hd (hearlier hp) hr.key hnext
    obtain ⟨w',hgoes,hback,hframe,_⟩ := goes_slot hr hp hplace hw havail
    exact ⟨_,w',hgoes,(ht.find hmem).incr hd (c.mem_find _),hback,hframe⟩

theorem goes_repeated (hdescs : DescsOk descs) (hd : descs[i]?=some desc)
    (hnext : descs[i+1]?=some next) (hmore : next.ctype = .more)
    (hearlier : ∀ j<next.length.val,(m i j).presence → Earlier descs m i desc.key)
    (hfilled : ∀ j<next.length.val,(m i j).presence → ∀ j'<j,(m i j').presence) (k : Nat)
    (hk : j+k=next.length.val) (ht : Tally descs m i c) (hused : ∀ j'<j,(w i j').presence)
    (hw : ∀ j',j≤j' → j'<j+k → Blank blank w ⟨i,j',desc⟩)
    (hes : List.Forall₂ (Reads field blank agree cost m) es
      (present m ((List.range' j k).map fun j => ⟨i,j,desc⟩)))
    (havail : total cost (present m ((List.range' j k).map fun j => ⟨i,j,desc⟩))≤avail) :
    ∃ c' w',Goes field descs es c w avail c' w'
        (avail-total cost (present m ((List.range' j k).map fun j => ⟨i,j,desc⟩))) ∧
      Tally descs m i c' ∧ (∀ j',j≤j' → j'<j+k → Back agree m w' ⟨i,j',desc⟩) ∧
      (∀ i' ≠ i,w' i'=w i') ∧ ∀ j'<j,w' i j'=w i j' := by
  induction k generalizing j c w es avail with
  | zero =>
    cases hes
    exact ⟨c,w,.refl,ht,fun j' hle hlt => by omega,fun _ _ => rfl,fun _ _ => rfl⟩
  | succ k ih =>
    cases hp : (m i j).presence with
    | false =>
      have habsent : ∀ j',j≤j' → j'<j+(k+1) → (m i j').presence=false := by
        intro j' hle hlt
        rcases Nat.lt_or_eq_of_le hle with hlt' | rfl
        · by_contra hne
          have hpres:=hfilled j' (by omega) (by simpa using hne) j hlt'
          rw [hp] at hpres
          cases hpres
        · exact hp
      have hnone : present m ((List.range' j (k+1)).map fun j => ⟨i,j,desc⟩)=[] := by
        unfold present
        rw [filter_eq_nil_iff]
        intro f hf
        obtain ⟨j',hj',rfl⟩ := List.mem_map.mp hf
        rw [mem_range'_1] at hj'
        show ¬ (m i j').presence=true
        rw [habsent j' hj'.1 hj'.2]
        simp
      rw [hnone] at hes ⊢
      cases hes
      exact ⟨c,w,.refl,ht,fun j' hle hlt => .absent (habsent j' hle hlt) (hw j' hle hlt).1,
        fun _ _ => rfl,fun _ _ => rfl⟩
    | true =>
      have hcons : present m ((List.range' j (k+1)).map fun j => ⟨i,j,desc⟩) =
          ⟨i,j,desc⟩::present m ((List.range' (j+1) k).map fun j => ⟨i,j,desc⟩) := by
        rw [range'_succ,map_cons]
        exact filter_cons_of_pos hp
      have hcost (fs : List Loc) (f : Loc) : total cost (f::fs)=cost f+total cost fs := by
        simp [total]
      rw [hcons] at hes havail ⊢
      rw [hcost] at havail ⊢
      rcases hes with _ | ⟨hr,hrest⟩
      have hmem : desc.key∈descs.map TlvDesc.key := List.mem_map_of_mem (List.mem_of_getElem? hd)
      have hblank:=hw j (Nat.le_refl j) (by omega)
      have hplace:=place_repeated (j := j) hdescs ht hd (hearlier j (by omega) hp) hr.key hnext
        hmore (by omega) hblank.1 hused
      obtain ⟨w₁,hgoes₁,hback₁,hframe₁,hrep₁⟩ :=
        goes_slot hr hp hplace hblank (Nat.le_of_add_right_le havail)
      have hused₁ : ∀ j'<j+1,(w₁ i j').presence := by
        intro j' hj'
        rcases Nat.lt_or_eq_of_le (Nat.le_of_lt_succ hj') with hlt | rfl
        · rw [hrep₁ j' (Nat.ne_of_lt hlt)]
          exact hused j' hlt
        · exact hback₁.1.trans hp
      have hblank₁ : ∀ j',j+1≤j' → j'<j+1+k → Blank blank w₁ ⟨i,j',desc⟩ := by
        intro j' hle hlt
        have hsame : at' w₁ ⟨i,j',desc⟩ = at' w ⟨i,j',desc⟩ := hrep₁ j' (Nat.ne_of_gt hle)
        unfold Blank
        rw [hsame]
        exact hw j' (by omega) (by omega)
      obtain ⟨c',w',hgoes,htally,hback,hframe,hrep⟩ :=
        ih (by omega) (ht.find hmem) hused₁ hblank₁ hrest (Nat.le_sub_of_add_le' havail)
      refine ⟨c',w',?_,htally,?_,?_,?_⟩
      · rw [← Nat.sub_sub]
        exact hgoes₁.trans hgoes
      · intro j' hle hlt
        rcases Nat.lt_or_eq_of_le hle with hlt' | rfl
        · exact hback j' hlt' (by omega)
        · have hsame : at' w' ⟨i,j,desc⟩ = at' w₁ ⟨i,j,desc⟩ := hrep j (Nat.lt_succ_self j)
          unfold Back
          rw [hsame]
          exact hback₁
      · intro i' hi'
        rw [hframe i' hi',hframe₁ i' hi']
      · intro j' hj'
        rw [hrep j' (by omega),hrep₁ j' (Nat.ne_of_lt hj')]

theorem mem_childSlots {k : Nat} : f∈childSlots i k desc ↔ ∃ j<k,f=⟨i,j,desc⟩ := by
  unfold childSlots
  rw [List.mem_map]
  constructor
  · rintro ⟨j,hj,rfl⟩
    exact ⟨j,mem_range.mp hj,rfl⟩
  · rintro ⟨j,hj,rfl⟩
    exact ⟨j,mem_range.mpr hj,rfl⟩

theorem slotsFrom_le (i : Nat) (rest : List TlvDesc) : ∀ f∈slotsFrom i rest,i≤f.child := by
  induction i, rest using slotsFrom.induct with
  | case1 i =>
    intro f hf
    cases hf
  | case2 i desc =>
    intro f hf
    obtain ⟨j,_,rfl⟩ := mem_childSlots.mp hf
    exact Nat.le_refl i
  | case3 i desc next rest hmore ih =>
    intro f hf
    rw [slotsFrom,if_pos hmore,mem_append] at hf
    rcases hf with hf | hf
    · obtain ⟨j,_,rfl⟩ := mem_childSlots.mp hf
      exact Nat.le_refl i
    · have hle:=ih f hf
      omega
  | case4 i desc next rest hmore ih =>
    intro f hf
    rw [slotsFrom,if_neg hmore,mem_append] at hf
    rcases hf with hf | hf
    · obtain ⟨j,_,rfl⟩ := mem_childSlots.mp hf
      exact Nat.le_refl i
    · have hle:=ih f hf
      omega

theorem goes_append {fs gs : List Loc} {n : Nat} (hn : 0<n) (hfs : ∀ f∈fs,f.child=i)
    (hgs : ∀ f∈gs,i+n≤f.child) (hw : ∀ f∈gs,Blank blank w f)
    (hes : List.Forall₂ (Reads field blank agree cost m) es (present m (fs++gs)))
    (havail : total cost (present m (fs++gs))≤avail)
    (hfirst : ∀ es',List.Forall₂ (Reads field blank agree cost m) es' (present m fs) →
      total cost (present m fs)≤avail →
      ∃ c' w',Goes field descs es' c w avail c' w' (avail-total cost (present m fs)) ∧
        Tally descs m (i+n) c' ∧ (∀ f∈fs,Back agree m w' f) ∧ ∀ i' ≠ i,w' i'=w i')
    (hothers : ∀ es' c' w' avail',Tally descs m (i+n) c' → (∀ f∈gs,Blank blank w' f) →
      List.Forall₂ (Reads field blank agree cost m) es' (present m gs) →
      total cost (present m gs)≤avail' →
      ∃ c'' w'',Goes field descs es' c' w' avail' c'' w'' (avail'-total cost (present m gs)) ∧
        (∀ f∈gs,Back agree m w'' f) ∧ ∀ i' < i+n,w'' i'=w' i') :
    ∃ c'' w'',Goes field descs es c w avail c'' w''
        (avail-total cost (present m (fs++gs))) ∧
      (∀ f∈fs++gs,Back agree m w'' f) ∧ ∀ i' < i,w'' i'=w i' := by
  have hjoin : present m (fs++gs)=present m fs++present m gs := filter_append ..
  rw [hjoin] at hes havail ⊢
  rw [total_append] at havail ⊢
  obtain ⟨c',w',hgoes,ht,hback,hframe⟩ :=
    hfirst _ (forall₂_take_append _ _ _ hes) (by omega)
  have hblank : ∀ f∈gs,Blank blank w' f := by
    intro f hf
    have hle:=hgs f hf
    have hsame : at' w' f = at' w f := congrFun (hframe f.child (by omega)) f.rep
    unfold Blank
    rw [hsame]
    exact hw f hf
  obtain ⟨c'',w'',hgoes',hback',hframe'⟩ := hothers _ c' w' _ ht hblank
    (forall₂_drop_append _ _ _ hes) (Nat.le_sub_of_add_le' havail)
  have hall:=hgoes.trans hgoes'
  rw [take_append_drop,Nat.sub_sub] at hall
  refine ⟨c'',w'',hall,?_,?_⟩
  · intro f hf
    rcases mem_append.mp hf with hf | hf
    · have hchild:=hfs f hf
      have hsame : at' w'' f = at' w' f := congrFun (hframe' f.child (by omega)) f.rep
      unfold Back
      rw [hsame]
      exact hback f hf
    · exact hback' f hf
  · intro i' hi'
    rw [hframe' i' (by omega),hframe i' (Nat.ne_of_lt hi')]

theorem goes_children (hdescs : DescsOk descs) (i : Nat) (rest : List TlvDesc)
    (hrest : descs.drop i=rest) (ht : Tally descs m i c)
    (hw : ∀ f∈slotsFrom i rest,Blank blank w f)
    (hfilled : ∀ f∈slotsFrom i rest,(at' m f).presence → ∀ j<f.rep,(m f.child j).presence)
    (hearlier : ∀ f∈slotsFrom i rest,(at' m f).presence → Earlier descs m f.child f.desc.key)
    (hes : List.Forall₂ (Reads field blank agree cost m) es (present m (slotsFrom i rest)))
    (havail : total cost (present m (slotsFrom i rest))≤avail) :
    ∃ c' w',Goes field descs es c w avail c' w'
        (avail-total cost (present m (slotsFrom i rest))) ∧
      (∀ f∈slotsFrom i rest,Back agree m w' f) ∧ ∀ i' < i,w' i'=w i' := by
  induction i, rest using slotsFrom.induct generalizing c w es avail with
  | case1 i =>
    cases hes
    refine ⟨c,w,.refl,?_,fun _ _ => rfl⟩
    intro f hf
    cases hf
  | case2 i desc =>
    have hget (t : Nat) : descs[i+t]?=[desc][t]? := by
      rw [← hrest,List.getElem?_drop]
    have hnext : ∀ d∈descs[i+1]?,d.ctype ≠ .more := by
      rw [hget]
      intro d hd
      cases hd
    have hmem : (⟨i,0,desc⟩ : Loc)∈slotsFrom i [desc] := mem_singleton_self _
    obtain ⟨c',w',hgoes,_,hback,hframe⟩ :=
      goes_single hdescs ht (hget 0) hnext (hearlier _ hmem) (hw _ hmem) hes havail
    refine ⟨c',w',hgoes,?_,fun i' hi' => hframe i' (Nat.ne_of_lt hi')⟩
    intro f hf
    rw [mem_singleton.mp hf]
    exact hback
  | case3 i desc next rest hmore ih =>
    have hget (t : Nat) : descs[i+t]?=(desc::next::rest)[t]? := by
      rw [← hrest,List.getElem?_drop]
    have hdrop : descs.drop (i+2)=rest := by
      rw [← drop_drop,hrest]
      rfl
    simp only [slotsFrom,if_pos hmore,mem_append] at hw hfilled hearlier hes havail ⊢
    have hchild (j : Nat) (hj : j<next.length.val) :
        (⟨i,j,desc⟩ : Loc)∈childSlots i next.length.val desc := mem_childSlots.mpr ⟨j,hj,rfl⟩
    have hskip : ¬ (Single descs i ∧ (m i 0).presence) :=
      fun h => h.1.2 next (hget 1) hmore
    have hskip' : ¬ (Single descs (i+1) ∧ (m (i+1) 0).presence) :=
      fun h => h.1.1 next (hget 1) hmore
    have hfirst : ∀ es',List.Forall₂ (Reads field blank agree cost m) es'
          (present m (childSlots i next.length.val desc)) →
        total cost (present m (childSlots i next.length.val desc))≤avail →
        ∃ c' w',Goes field descs es' c w avail c' w'
            (avail-total cost (present m (childSlots i next.length.val desc))) ∧
          Tally descs m (i+2) c' ∧
          (∀ f∈childSlots i next.length.val desc,Back agree m w' f) ∧
          ∀ i' ≠ i,w' i'=w i' := by
      intro es' hes' havail'
      unfold childSlots at hes' havail' ⊢
      rw [range_eq_range'] at hes' havail' ⊢
      obtain ⟨c',w',hgoes,ht',hback,hframe,_⟩ := goes_repeated hdescs (hget 0) (hget 1) hmore
        (fun j hj => hearlier _ (.inl (hchild j hj))) (fun j hj => hfilled _ (.inl (hchild j hj)))
        next.length.val (Nat.zero_add _) ht (fun j' hj' => absurd hj' (Nat.not_lt_zero j'))
        (fun j' _ hj' => hw _ (.inl (hchild j' (by omega)))) hes' havail'
      refine ⟨c',w',hgoes,(ht'.skip (hget 0) hskip).skip (hget 1) hskip',?_,hframe⟩
      intro f hf
      rw [← range_eq_range'] at hf
      obtain ⟨j,hj,rfl⟩ := mem_childSlots.mp hf
      exact hback j (Nat.zero_le j) (by omega)
    have hsame : ∀ f∈childSlots i next.length.val desc,f.child=i := by
      intro f hf
      obtain ⟨j,_,rfl⟩ := mem_childSlots.mp hf
      rfl
    have hall:=goes_append (by decide) hsame (slotsFrom_le (i+2) rest)
      (fun f hf => hw f (.inr hf)) hes havail hfirst
      fun es' c' w' avail' ht' hw' hes' havail' => ih hdrop ht' hw'
        (fun f hf => hfilled f (.inr hf)) (fun f hf => hearlier f (.inr hf)) hes' havail'
    simpa only [mem_append] using hall
  | case4 i desc next rest hmore ih =>
    have hget (t : Nat) : descs[i+t]?=(desc::next::rest)[t]? := by
      rw [← hrest,List.getElem?_drop]
    have hdrop : descs.drop (i+1)=next::rest := by
      rw [← drop_drop,hrest]
      rfl
    simp only [slotsFrom,if_neg hmore,mem_append] at hw hfilled hearlier hes havail ⊢
    have hnext : ∀ d∈descs[i+1]?,d.ctype ≠ .more := by
      rw [hget]
      intro d hd
      rw [← Option.some.inj hd]
      exact hmore
    have hchild : (⟨i,0,desc⟩ : Loc)∈childSlots i 1 desc := mem_childSlots.mpr ⟨0,by decide,rfl⟩
    have hfirst : ∀ es',List.Forall₂ (Reads field blank agree cost m) es'
          (present m (childSlots i 1 desc)) →
        total cost (present m (childSlots i 1 desc))≤avail →
        ∃ c' w',Goes field descs es' c w avail c' w'
            (avail-total cost (present m (childSlots i 1 desc))) ∧
          Tally descs m (i+1) c' ∧ (∀ f∈childSlots i 1 desc,Back agree m w' f) ∧
          ∀ i' ≠ i,w' i'=w i' := by
      intro es' hes' havail'
      obtain ⟨c',w',hgoes,ht',hback,hframe⟩ := goes_single hdescs ht (hget 0) hnext
        (hearlier _ (.inl hchild)) (hw _ (.inl hchild)) hes' havail'
      refine ⟨c',w',hgoes,ht',?_,hframe⟩
      intro f hf
      rw [mem_singleton.mp hf]
      exact hback
    have hsame : ∀ f∈childSlots i 1 desc,f.child=i := by
      intro f hf
      obtain ⟨j,_,rfl⟩ := mem_childSlots.mp hf
      rfl
    have hall:=goes_append (by decide) hsame (slotsFrom_le (i+1) (next::rest))
      (fun f hf => hw f (.inr hf)) hes havail hfirst
      fun es' c' w' avail' ht' hw' hes' havail' => ih hdrop ht' hw'
        (fun f hf => hfilled f (.inr hf)) (fun f hf => hearlier f (.inr hf)) hes' havail'
    simpa only [mem_append] using hall

theorem parseElems_eq (hdescs : DescsOk descs) (hw : ∀ f∈slots descs,Blank blank w f)
    (hfilled : ∀ f∈slots descs,(at' m f).presence → ∀ j<f.rep,(m f.child j).presence)
    (hearlier : ∀ f∈slots descs,(at' m f).presence → Earlier descs m f.child f.desc.key)
    (hes : List.Forall₂ (Reads field blank agree cost m) es (present m (slots descs)))
    (havail : total cost (present m (slots descs))≤avail) :
    ∃ w',parseElems field descs es .zero w avail =
        .ok (w',avail-total cost (present m (slots descs))) ∧
      ∀ f∈slots descs,Back agree m w' f := by
  obtain ⟨c',w',hgoes,hback,_⟩ := goes_children hdescs 0 descs rfl Tally.zero hw hfilled
    hearlier hes havail
  have hall:=hgoes []
  rw [append_nil] at hall
  exact ⟨w',hall,hback⟩

end Run

end OgsDp.Core
