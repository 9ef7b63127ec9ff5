import Mathlib.Data.Finset.Card
import OgsDp.Core.TlvRoundTrip

/-!
# Reading a tree of elements (lib/core/ogs-tlv-msg.c)

What `tlv_parse_compound` makes of a message, without the bytes, the TLV pool and the room for
counters: the elements go from their tree into the slots.
-/

namespace OgsDp.Core
open Function List

def Tlv.key (t : Tlv) : Nat × Nat := (t.type,t.inst.val)

/-- The keys of the elements of one level. -/
abbrev Level := List (Nat × Nat)

structure Spot where
  child : Nat
  rep : Nat
  desc : TlvDesc
  single : Bool

theorem except_bind_ok {α β : Type} {x : Except Stop α} {f : α → Except Stop β} {b : β} :
    (do let a ← x; f a) = .ok b ↔ ∃ a,x = .ok a ∧ f a = .ok b := by
  cases x with
  | ok a =>
    constructor
    · exact fun h => ⟨a,rfl,h⟩
    · rintro ⟨a,⟨⟩,h⟩
      exact h
  | error e =>
    refine iff_of_false ?_ ?_
    · rintro ⟨⟩
    · rintro ⟨a,⟨⟩,-⟩

section Tree

variable {S : Type}

/-- The slot of an element that comes after `pos` others of its key in slots of their own. -/
def spot (descs : List TlvDesc) (m : Nat → Nat → Slot S) (key : Nat × Nat) (pos : Nat) :
    Except Stop (Option Spot) := do
  match ← tlvFindDescByTypeInst descs key pos with
  | none => return none
  | some (i,desc) =>
    match descs[i+1]? with
    | some next =>
      if next.ctype = .more then
        return ((List.range next.length.val).find? fun j => !(m i j).presence).map fun j =>
          ⟨i,j,desc,false⟩
      else return some ⟨i,0,desc,true⟩
    | none => return some ⟨i,0,desc,true⟩

def Spot.counted (p : Spot) (key : Nat × Nat) (count : Nat × Nat → Nat) : Nat × Nat → Nat :=
  if p.single then update count key (count key+1) else count

def fill (m : Nat → Nat → Slot S) (p : Spot) (v : Slot S) : Nat → Nat → Slot S :=
  update m p.child (update (m p.child) p.rep v)

def readElems (field : TlvDesc → Tlv → Slot S → Except Stop (Slot S × List Level))
    (descs : List TlvDesc) :
    List Tlv → (Nat × Nat → Nat) → (Nat → Nat → Slot S) →
      Except Stop ((Nat → Nat → Slot S) × List Level)
  | [], _, m => .ok (m,[])
  | t::ts, count, m => do
    match ← spot descs m t.key (count t.key) with
    | none => readElems field descs ts count m
    | some p =>
      let (v,ls) ← field p.desc t (m p.child p.rep)
      let (m,ls') ← readElems field descs ts (p.counted t.key count) (fill m p v)
      return (m,ls++ls')

/-- The value of an element; `sub` reads the elements of a compound. -/
def readField (sub : List TlvDesc → List Tlv → S → Except Stop (S × List Level))
    (desc : TlvDesc) (t : Tlv) (v : Slot S) : Except Stop (Slot S × List Level) :=
  if desc.ctype = .compound then do
    let (s,ls) ← sub desc.children t.embedded v.sub
    return ({ v with sub := s,presence := true },ls)
  else do
    let v ← tlvParseLeaf t.content desc ⟨t.type,t.content.length,t.inst.val,0⟩ v
    return ({ v with presence := true },[])

end Tree

/-- A message read from a tree, and the levels of the tree that were entered. -/
def readTree : (n : Nat) → List TlvDesc → List Tlv → Msg n → Except Stop (Msg n × List Level)
  | 0, _, _, _ => .error .abort
  | n+1, descs, ts, m => do
    let (m,ls) ← readElems (readField (readTree n)) descs ts (fun _ => 0) m
    return (m,ts.map Tlv.key::ls)

def Level.Fits (l : Level) : Prop := l.toFinset.card≤128

def AllFit (ls : List Level) : Prop := ∀ l∈ls,l.Fits

def nodesOf (ls : List Level) : Nat := (ls.map List.length).sum

instance (ls : List Level) : Decidable (AllFit ls) :=
  inferInstanceAs (Decidable (∀ l∈ls,l.toFinset.card≤128))

@[simp] theorem allFit_nil : AllFit [] := by
  intro l hl
  cases hl

@[simp] theorem allFit_cons {l : Level} {ls : List Level} :
    AllFit (l::ls) ↔ l.Fits ∧ AllFit ls := forall_mem_cons

@[simp] theorem allFit_append {ls ls' : List Level} :
    AllFit (ls++ls') ↔ AllFit ls ∧ AllFit ls' := forall_mem_append

@[simp] theorem nodesOf_nil : nodesOf []=0 := rfl

@[simp] theorem nodesOf_cons (l : Level) (ls : List Level) :
    nodesOf (l::ls)=l.length+nodesOf ls := sum_cons

@[simp] theorem nodesOf_append (ls ls' : List Level) :
    nodesOf (ls++ls')=nodesOf ls+nodesOf ls' := by
  simp [nodesOf]

structure Carries (data : List Byte) (e : Elem) (t : Tlv) : Prop where
  key : (e.type,e.inst)=t.key
  length : e.length=t.content.length
  bytes : At data e.value t.content

def TlvType.width : TlvType → Option Nat
  | .uint8 | .int8 | .tvUint8 | .tvInt8 => some 1
  | .uint16 | .int16 | .tvUint16 | .tvInt16 => some 2
  | .uint24 | .int24 | .tvUint24 | .tvInt24 => some 3
  | .uint32 | .int32 | .tvUint32 | .tvInt32 => some 4
  | _ => none

section Leaf

variable {S : Type} {data : List Byte} {e : Elem} {t : Tlv} {desc : TlvDesc}

theorem Carries.parseLeaf (h : Carries data e t)
    (hwidth : ∀ n∈desc.ctype.width,t.content.length=n) (v : Slot S) :
    tlvParseLeaf data desc e v =
      tlvParseLeaf t.content desc ⟨t.type,t.content.length,t.inst.val,0⟩ v := by
  have hself : At t.content 0 t.content := .self _
  have hint : ∀ n,t.content.length=n → parseInt data e n v =
      parseInt t.content ⟨t.type,t.content.length,t.inst.val,0⟩ n v := by
    rintro n rfl
    unfold parseInt
    rw [h.length,h.bytes.readNet,hself.readNet]
  have hstr : parseStr data e v =
      parseStr t.content ⟨t.type,t.content.length,t.inst.val,0⟩ v := by
    have hle:=h.bytes.le
    have hle':=hself.le
    unfold parseStr Elem.next
    dsimp only
    rw [h.length,if_neg (by omega),if_neg (by omega),h.bytes.slice,hself.slice]
  unfold tlvParseLeaf
  rw [h.length]
  cases hc : desc.ctype <;> rw [hc] at hwidth
  case fixedStr | tvFixedStr | varStr => simp only [hstr]
  all_goals exact hint _ (hwidth _ rfl)

end Leaf

section Block

variable {data : List Byte} {get : Nat → Except Stop Elem} {P : Tlv → Prop}

theorem getElements_not_ok {blk length pos avail : Nat} {t : Tlv} {ts : List Tlv}
    (hget : ∀ u∈t::ts,∀ pos,At data pos u.bytes →
      (P u → get pos = .ok (u.elemAt pos)) ∧ (¬ P u → ∀ e,get pos ≠ .ok e))
    (hat : At data pos t.bytes) (hno : ¬ (0<avail ∧ P t)) (fuel : Nat)
    (r : List Elem × Nat × Nat) : getElements get blk length (fuel+1) pos avail ≠ .ok r := by
  intro hok
  rw [getElements] at hok
  by_cases havail : avail=0
  · simp [ogsTlvGet,havail,bind,Except.bind] at hok
  · have hP : ¬ P t := fun hP => hno ⟨by omega,hP⟩
    have hbad:=(hget t (mem_cons_self ..) pos hat).2 hP
    cases hg : get pos with
    | ok e => exact hbad e hg
    | error e => simp [ogsTlvGet,havail,hg,bind,Except.bind] at hok

theorem getElements_ok_iff {blk length : Nat} (ts : List Tlv) {t : Tlv} {pos fuel avail : Nat}
    (hget : ∀ u∈t::ts,∀ pos,At data pos u.bytes →
      (P u → get pos = .ok (u.elemAt pos)) ∧ (¬ P u → ∀ e,get pos ≠ .ok e))
    (hat : At data pos (allBytes (t::ts))) (hblk : blk≤pos)
    (hend : blk+length=pos+(allBytes (t::ts)).length) (hfuel : ts.length<fuel)
    {r : List Elem × Nat × Nat} : getElements get blk length fuel pos avail = .ok r ↔
      (∀ u∈t::ts,P u) ∧ r.1=elemsAt pos (t::ts) ∧ r.2.1=blk+length ∧
        r.2.2+(ts.length+1)=avail := by
  induction ts generalizing t pos fuel avail r with
  | nil =>
    obtain ⟨fuel,rfl⟩ : ∃ k,fuel=k+1 := ⟨fuel-1,by omega⟩
    simp only [allBytes,append_nil] at hend
    by_cases hone : 0<avail ∧ P t
    · have ht:=(hget t (mem_cons_self ..) pos hat.left).1 hone.2
      have hnext:=t.elemAt_next pos
      rw [getElements_last ht hone.1 (by omega),hnext,← hend]
      constructor
      · intro hok
        cases hok
        refine ⟨by simpa using hone.2,rfl,rfl,?_⟩
        simp only [length_nil]
        omega
      · rintro ⟨-,hes,hlast,hcount⟩
        obtain ⟨es,last,rest⟩ := r
        simp only [length_nil] at hes hlast hcount
        rw [hes,hlast,show avail-1=rest by omega]
        rfl
    · refine iff_of_false (getElements_not_ok hget hat.left hone fuel r) ?_
      rintro ⟨hP,-,-,hcount⟩
      exact hone ⟨by omega,hP t (mem_cons_self ..)⟩
  | cons t' ts ih =>
    obtain ⟨fuel,rfl⟩ : ∃ k,fuel=k+1 := ⟨fuel-1,by omega⟩
    simp only [length_cons] at hfuel
    have hlen : (allBytes (t::t'::ts)).length =
        t.bytes.length+(allBytes (t'::ts)).length := by
      rw [allBytes,length_append]
    have hpos : 0<(allBytes (t'::ts)).length := by
      rw [allBytes,t'.bytes_eq]
      simp only [length_append,length_putHeader]
      have hhead:=t'.mode.headerLen_pos
      omega
    by_cases hone : 0<avail ∧ P t
    · have ht:=(hget t (mem_cons_self ..) pos hat.left).1 hone.2
      have hnext:=t.elemAt_next pos
      have hrest:=@ih t' (pos+t.bytes.length) fuel (avail-1)
        (fun u hu => hget u (mem_cons_of_mem _ hu)) hat.right (by omega) (by omega) (by omega)
      rw [getElements_more ht hone.1 (by omega),hnext]
      constructor
      · intro hok
        cases hg : getElements get blk length fuel (pos+t.bytes.length) (avail-1) with
        | error e => simp [hg,Except.map] at hok
        | ok r' =>
          rw [hg] at hok
          cases hok
          obtain ⟨hP,hes,hlast,hcount⟩ := hrest.mp hg
          refine ⟨forall_mem_cons.mpr ⟨hone.2,hP⟩,?_,hlast,?_⟩
          · show t.elemAt pos::r'.1=_
            rw [hes]
            rfl
          · simp only [length_cons] at hcount ⊢
            omega
      · rintro ⟨hP,hes,hlast,hcount⟩
        obtain ⟨es,last,rest⟩ := r
        simp only [length_cons] at hcount
        have hg : getElements get blk length fuel (pos+t.bytes.length) (avail-1) =
            .ok (elemsAt (pos+t.bytes.length) (t'::ts),last,rest) := by
          refine hrest.mpr ⟨fun u hu => hP u (mem_cons_of_mem _ hu),rfl,hlast,?_⟩
          show rest+(ts.length+1)=avail-1
          omega
        rw [hg]
        dsimp only at hes
        rw [hes]
        rfl
    · refine iff_of_false (getElements_not_ok hget hat.left hone fuel r) ?_
      rintro ⟨hP,-,-,hcount⟩
      exact hone ⟨by omega,hP t (mem_cons_self ..)⟩

theorem parseElements_ok_iff {blk : Nat} {ts : List Tlv} {avail : Nat} (hts : ts≠[])
    (hget : ∀ u∈ts,∀ pos,At data pos u.bytes →
      (P u → get pos = .ok (u.elemAt pos)) ∧ (¬ P u → ∀ e,get pos ≠ .ok e))
    (hat : At data blk (allBytes ts)) {r : List Elem × Nat} :
    parseElements get blk (allBytes ts).length avail = .ok r ↔
      (∀ u∈ts,P u) ∧ r.1=elemsAt blk ts ∧ r.2+ts.length=avail := by
  obtain ⟨t,ts,rfl⟩ := exists_cons_of_ne_nil hts
  have hle:=length_le_allBytes (t::ts)
  have hiff:=@getElements_ok_iff data get P blk (allBytes (t::ts)).length ts t blk
    ((allBytes (t::ts)).length+1) avail hget hat (Nat.le_refl _) rfl
    (Nat.lt_succ_of_lt (Nat.lt_of_succ_le hle))
  unfold parseElements
  constructor
  · intro hok
    cases hg : getElements get blk (allBytes (t::ts)).length ((allBytes (t::ts)).length+1)
        blk avail with
    | error e => simp [hg,bind,Except.bind] at hok
    | ok r' =>
      obtain ⟨hP,hes,hlast,hcount⟩ := hiff.mp hg
      obtain ⟨es,last,rest⟩ := r'
      dsimp only at hes hlast hcount
      rw [hg] at hok
      change (if _ then _ else _)=_ at hok
      rw [if_neg (by omega)] at hok
      cases hok
      exact ⟨hP,hes,hcount⟩
  · rintro ⟨hP,hes,hcount⟩
    obtain ⟨es,rest⟩ := r
    dsimp only at hes hcount
    have hg:=(@hiff (es,blk+(allBytes (t::ts)).length,rest)).mpr ⟨hP,hes,rfl,hcount⟩
    rw [hg]
    change (if _ then _ else _)=_
    rw [if_neg (by omega)]
    rfl

theorem parseBlock_ok_iff {mode : TlvMode} {blk : Nat} {ts : List Tlv} {avail : Nat}
    (hts : ts≠[]) (hfits : ∀ t∈ts,t.Fits mode) (hat : At data blk (allBytes ts))
    {r : List Elem × Nat} : ogsTlvParseBlock data mode blk (allBytes ts).length avail = .ok r ↔
      r.1=elemsAt blk ts ∧ r.2+ts.length=avail := by
  have hiff:=@parseElements_ok_iff data (tlvGetElement data mode) (fun _ => True) blk ts avail hts
    (fun u hu pos h => ⟨fun _ => tlvGetElement_eq h (hfits u hu),fun h => absurd trivial h⟩) hat r
  refine hiff.trans ?_
  simp

end Block

theorem carries_elemsAt {data : List Byte} {ts : List Tlv} {pos : Nat}
    (hat : At data pos (allBytes ts)) : List.Forall₂ (Carries data) (elemsAt pos ts) ts := by
  induction ts generalizing pos with
  | nil => exact .nil
  | cons t ts ih => exact .cons ⟨rfl,rfl,hat.left.content⟩ (ih hat.right)

section Place

variable {S : Type} {descs : List TlvDesc} {key : Nat × Nat} {m : Nat → Nat → Slot S} {c : Counts}

theorem findDescFrom_sound {pos i : Nat} {desc : TlvDesc} (ds : List TlvDesc)
    {prev : Option TlvType} {matched j : Nat}
    (h : findDescFrom key pos j prev matched ds = .ok (some (i,desc))) :
    ∃ k,i=j+k ∧ ds[k]?=some desc ∧ desc.key=key := by
  induction ds generalizing prev matched j with
  | nil => cases h
  | cons d ds ih =>
    rw [findDescFrom] at h
    split at h
    · rename_i hd
      cases h
      exact ⟨0,rfl,rfl,hd.1⟩
    · split at h
      · cases h
      · obtain ⟨k,hi,hk,hkey⟩ := ih h
        exact ⟨k+1,by omega,hk,hkey⟩

theorem spot_sound {pos : Nat} {p : Spot} (h : spot descs m key pos = .ok (some p)) :
    p.desc∈descs ∧ p.desc.key=key := by
  unfold spot at h
  cases hf : tlvFindDescByTypeInst descs key pos with
  | error e => simp [hf,bind,Except.bind] at h
  | ok o =>
    rw [hf] at h
    cases o with
    | none => cases h
    | some o =>
      obtain ⟨i,desc⟩ := o
      obtain ⟨k,hi,hk,hkey⟩ := findDescFrom_sound descs hf
      have hmem:=List.mem_of_getElem? hk
      have hdesc : p.desc=desc := by
        change (match descs[i+1]? with
          | some next => _
          | none => _)=_ at h
        split at h
        · split at h
          · obtain ⟨j,-,rfl⟩ := Option.map_eq_some_iff.mp (Except.ok.inj h)
            rfl
          · cases h
            rfl
        · cases h
          rfl
      rw [hdesc]
      exact ⟨hmem,hkey⟩

/-- The counters are distinct, there is room for them, and what is not counted counts as zero. -/
structure Counts.Ok (c : Counts) : Prop where
  nodup : c.keys.Nodup
  le : c.keys.length≤128
  zero : ∀ key ∉ c.keys,c.count key=0

theorem Counts.ok_zero : Counts.zero.Ok := ⟨nodup_nil,Nat.zero_le _,fun _ _ => rfl⟩

theorem Counts.Ok.find (h : c.Ok) (hroom : ¬ (key∉c.keys ∧ c.keys.length=128)) :
    (c.find key).Ok := by
  unfold Counts.find
  split
  · exact h
  · rename_i hkey
    refine ⟨nodup_cons.mpr ⟨hkey,h.nodup⟩,?_,?_⟩
    · have hle:=h.le
      have hne : c.keys.length≠128 := fun he => hroom ⟨hkey,he⟩
      show (key::c.keys).length≤128
      rw [length_cons]
      omega
    · intro k hk
      exact h.zero k fun hmem => hk (mem_cons_of_mem _ hmem)

theorem Counts.Ok.incr (h : c.Ok) (hkey : key∈c.keys) : (c.incr key).Ok := by
  refine ⟨h.nodup,h.le,?_⟩
  intro k hk
  have hne : k≠key := by
    rintro rfl
    exact hk hkey
  exact (update_of_ne hne _ _).trans (h.zero k hk)

theorem Counts.find_toFinset (c : Counts) (key : Nat × Nat) :
    (c.find key).keys.toFinset=insert key c.keys.toFinset := by
  unfold Counts.find
  split
  · rename_i hkey
    exact (Finset.insert_eq_of_mem (List.mem_toFinset.mpr hkey)).symm
  · exact toFinset_cons

def Spot.place (c : Counts) (key : Nat × Nat) : Option Spot → Place
  | none => .skip (c.find key)
  | some p => .slot (if p.single then (c.find key).incr key else c.find key) p.child p.rep p.desc

theorem place_eq_spot (hc : c.Ok) (e : Elem) (hkey : (e.type,e.inst)=key) :
    place descs m e c =
      if key∉c.keys ∧ c.keys.length=128 then .error .error
      else (spot descs m key (c.count key)).map (Spot.place c key) := by
  have hfind : ¬ (key∉c.keys ∧ c.keys.length=128) →
      tlvCountNodeFind c key = .ok (c.find key) := by
    intro hroom
    unfold tlvCountNodeFind Counts.find
    by_cases hmem : key∈c.keys
    · rw [if_pos hmem,if_pos hmem]
    · have hne : c.keys.length≠128 := fun he => hroom ⟨hmem,he⟩
      rw [if_neg hmem,if_neg hne,if_neg hmem]
      congr 2
      rw [← hc.zero key hmem]
      exact update_eq_self _ _
  unfold place
  rw [hkey]
  split
  · rename_i hfull
    unfold tlvCountNodeFind
    rw [if_neg hfull.1,if_pos hfull.2]
    rfl
  · rename_i hroom
    rw [hfind hroom,spot]
    simp only [bind,Except.bind,Counts.find_count]
    cases tlvFindDescByTypeInst descs key (c.count key) with
    | error e => rfl
    | ok o =>
      cases o with
      | none => rfl
      | some o =>
        obtain ⟨i,desc⟩ := o
        dsimp only
        cases descs[i+1]? with
        | none => rfl
        | some next =>
          dsimp only
          by_cases hmore : next.ctype = .more
          · rw [if_pos hmore,if_pos hmore]
            cases (List.range next.length.val).find? fun j => !(m i j).presence <;> rfl
          · rw [if_neg hmore,if_neg hmore]
            rfl

end Place

section Read

variable {S : Type} {descs : List TlvDesc} {c : Counts} {es : List Elem} {ts : List Tlv}
  {field : TlvDesc → Elem → Slot S → Nat → Except Stop (Slot S × Nat)}
  {rfield : TlvDesc → Tlv → Slot S → Except Stop (Slot S × List Level)}

def ReadsAs (field : TlvDesc → Elem → Slot S → Nat → Except Stop (Slot S × Nat))
    (rfield : TlvDesc → Tlv → Slot S → Except Stop (Slot S × List Level)) (desc : TlvDesc)
    (e : Elem) (t : Tlv) : Prop :=
  ∀ v avail w rest,field desc e v avail = .ok (w,rest) ↔
    ∃ ls,rfield desc t v = .ok (w,ls) ∧ AllFit ls ∧ rest+nodesOf ls=avail

theorem card_union_insert (key : Nat × Nat) (A B : Finset (Nat × Nat)) :
    (insert key A ∪ B)=A ∪ insert key B := by
  rw [Finset.insert_union,Finset.union_insert]

theorem parseElems_ok_iff (hes : List.Forall₂ (fun e t => (e.type,e.inst)=t.key ∧
      ∀ desc∈descs,desc.key=t.key → ReadsAs field rfield desc e t) es ts) (hc : c.Ok)
    {m w : Nat → Nat → Slot S} {avail rest : Nat} :
    parseElems field descs es c m avail = .ok (w,rest) ↔
      ∃ ls,readElems rfield descs ts c.count m = .ok (w,ls) ∧ AllFit ls ∧
        (c.keys.toFinset ∪ (ts.map Tlv.key).toFinset).card≤128 ∧ rest+nodesOf ls=avail := by
  induction hes generalizing c m avail with
  | nil =>
    have hcard : (c.keys.toFinset ∪ (([] : List Tlv).map Tlv.key).toFinset).card≤128 := by
      rw [map_nil,toFinset_nil,Finset.union_empty,
        toFinset_card_of_nodup hc.nodup]
      exact hc.le
    constructor
    · intro h
      cases h
      exact ⟨[],rfl,allFit_nil,hcard,rfl⟩
    · rintro ⟨ls,hread,-,-,hrest⟩
      cases hread
      rw [← hrest]
      rfl
  | @cons e t es ts he _ ih =>
    obtain ⟨hkey,hfield⟩ := he
    have hkeys : c.keys.toFinset ∪ ((t::ts).map Tlv.key).toFinset =
        (c.find t.key).keys.toFinset ∪ (ts.map Tlv.key).toFinset := by
      rw [Counts.find_toFinset,map_cons,toFinset_cons,card_union_insert]
    rw [parseElems,place_eq_spot hc e hkey,readElems]
    by_cases hfull : t.key∉c.keys ∧ c.keys.length=128
    · rw [if_pos hfull]
      refine iff_of_false (by simp [bind,Except.bind]) ?_
      rintro ⟨ls,-,-,hcard,-⟩
      rw [hkeys,Counts.find_toFinset] at hcard
      have hsub : insert t.key c.keys.toFinset ⊆
          insert t.key c.keys.toFinset ∪ (ts.map Tlv.key).toFinset := Finset.subset_union_left
      have hle:=(Finset.card_le_card hsub).trans hcard
      rw [Finset.card_insert_of_notMem fun hmem => hfull.1 (List.mem_toFinset.mp hmem),
        toFinset_card_of_nodup hc.nodup,hfull.2] at hle
      omega
    · rw [if_neg hfull,hkeys]
      have hfound:=hc.find hfull
      cases hspot : spot descs m t.key (c.count t.key) with
      | error e =>
        refine iff_of_false ?_ ?_
        · rintro ⟨⟩
        · rintro ⟨ls,⟨⟩,-⟩
      | ok o =>
        cases o with
        | none =>
          rw [← Counts.find_count c t.key]
          exact ih hfound
        | some p =>
          obtain ⟨hmem,hdesc⟩ := spot_sound hspot
          have hreads:=hfield p.desc hmem hdesc
          obtain ⟨c',hc',hok',hcount,hkeys'⟩ : ∃ c',c'=(if p.single then
              (c.find t.key).incr t.key else c.find t.key) ∧ c'.Ok ∧
              c'.count=p.counted t.key c.count ∧ c'.keys=(c.find t.key).keys := by
            refine ⟨_,rfl,?_⟩
            unfold Spot.counted
            split
            · refine ⟨hfound.incr (c.mem_find t.key),?_,rfl⟩
              rw [← Counts.find_count c t.key]
              rfl
            · exact ⟨hfound,Counts.find_count c t.key,rfl⟩
          have hrest : ∀ v a,parseElems field descs es c' (fill m p v) a = .ok (w,rest) ↔ _ :=
            fun v a => ih hok'
          simp only [hcount,hkeys'] at hrest
          constructor
          · intro h
            obtain ⟨place,hplace,h⟩ := except_bind_ok.mp h
            cases hplace
            dsimp only [Spot.place] at h
            rw [← hc'] at h
            obtain ⟨⟨v,a⟩,hf,h⟩ := except_bind_ok.mp h
            obtain ⟨ls,hls,hfit,hnodes⟩ := (hreads _ _ _ _).mp hf
            obtain ⟨ls',hls',hfit',hcard,hnodes'⟩ := (hrest v a).mp h
            refine ⟨ls++ls',?_,allFit_append.mpr ⟨hfit,hfit'⟩,hcard,?_⟩
            · exact except_bind_ok.mpr ⟨_,rfl,except_bind_ok.mpr
                ⟨_,hls,except_bind_ok.mpr ⟨_,hls',rfl⟩⟩⟩
            · rw [nodesOf_append]
              omega
          · rintro ⟨ls,hread,hfit,hcard,hnodes⟩
            obtain ⟨o,ho,hread⟩ := except_bind_ok.mp hread
            cases ho
            obtain ⟨⟨v,ls₁⟩,hf,hread⟩ := except_bind_ok.mp hread
            obtain ⟨⟨m',ls₂⟩,hr,hread⟩ := except_bind_ok.mp hread
            cases hread
            rw [allFit_append] at hfit
            rw [nodesOf_append] at hnodes
            have hfield':=(hreads (m p.child p.rep) avail v (rest+nodesOf ls₂)).mpr
              ⟨ls₁,hf,hfit.1,by omega⟩
            refine except_bind_ok.mpr ⟨_,rfl,?_⟩
            dsimp only [Spot.place]
            rw [← hc']
            exact except_bind_ok.mpr ⟨_,hfield',(hrest v _).mpr ⟨ls₂,hr,hfit.2,hcard,rfl⟩⟩

end Read

/-- The children are well-formed on every level that the parser can enter. -/
def DescsTree : Nat → List TlvDesc → Prop
  | 0, _ => True
  | n+1, descs => DescsOk descs ∧ ∀ d∈descs,DescsTree n d.children

/-- The compounds of a tree hold elements that fit the mode, and the integers of it have the
length that the builder gives them. -/
def Shaped (mode : TlvMode) : Nat → List TlvDesc → List Tlv → Prop
  | 0, _, _ => True
  | n+1, descs, ts => ∀ t∈ts,∀ d∈descs,d.key=t.key →
      if d.ctype = .compound then
        t.embedded≠[] ∧ (∀ u∈t.embedded,u.Fits mode) ∧ Shaped mode n d.children t.embedded
      else ∀ k∈d.ctype.width,t.content.length=k

theorem content_embedded {t : Tlv} (h : t.embedded≠[]) : t.content=allBytes t.embedded := by
  obtain ⟨mode,type,inst,value,embedded⟩ := t
  exact content_eq h

theorem readTree_ok {n : Nat} {descs : List TlvDesc} {ts : List Tlv} {m w : Msg n}
    {ls : List Level} (h : readTree n descs ts m = .ok (w,ls)) :
    ∃ ls',ls=ts.map Tlv.key::ls' := by
  cases n with
  | zero => cases h
  | succ n =>
    obtain ⟨⟨w',ls'⟩,-,h⟩ := except_bind_ok.mp h
    cases h
    exact ⟨ls',rfl⟩

theorem tlvParseCompound_ok_iff {data : List Byte} {mode : TlvMode} (n : Nat)
    {descs : List TlvDesc} {es : List Elem} {ts : List Tlv} {m w : Msg n} {avail rest : Nat}
    (hes : List.Forall₂ (Carries data) es ts) (hts : Shaped mode n descs ts) :
    tlvParseCompound data mode n descs es m avail = .ok (w,rest) ↔
      ∃ l ls,readTree n descs ts m = .ok (w,l::ls) ∧ AllFit (l::ls) ∧
        rest+nodesOf ls=avail := by
  induction n generalizing descs es ts avail rest with
  | zero =>
    refine iff_of_false ?_ ?_
    · rintro ⟨⟩
    · rintro ⟨l,ls,⟨⟩,-⟩
  | succ n ih =>
    have hread : ∀ e t,Carries data e t → t∈ts → ∀ desc∈descs,desc.key=t.key →
        ReadsAs (parseField (tlvParseCompound data mode n) data mode)
          (readField (readTree n)) desc e t := by
      intro e t he ht desc hdesc hkey v avail w rest
      have hshape:=hts t ht desc hdesc hkey
      unfold parseField readField
      by_cases hcomp : desc.ctype = .compound
      · rw [if_pos hcomp] at hshape
        obtain ⟨hne,hfits,hsub⟩ := hshape
        have hbytes:=he.bytes
        have hlength:=he.length
        rw [content_embedded hne] at hbytes hlength
        have hblock:=@parseBlock_ok_iff data mode e.value t.embedded avail hne hfits hbytes
        rw [if_pos hcomp,if_pos hcomp,hlength,except_bind_ok]
        constructor
        · rintro ⟨⟨embedded,a⟩,hb,h⟩
          obtain ⟨rfl,ha⟩ := hblock.mp hb
          obtain ⟨⟨s,a'⟩,hs,h⟩ := except_bind_ok.mp h
          obtain ⟨l,ls,hread,hfit,hnodes⟩ :=
            (ih (carries_elemsAt hbytes) hsub).mp hs
          cases h
          refine ⟨l::ls,?_,hfit,?_⟩
          · rw [hread]
            rfl
          · obtain ⟨ls',hls⟩ := readTree_ok hread
            cases hls
            rw [nodesOf_cons,length_map]
            dsimp only at ha
            omega
        · rintro ⟨ls,hread,hfit,hnodes⟩
          obtain ⟨⟨s,ls'⟩,hs,h⟩ := except_bind_ok.mp hread
          cases h
          obtain ⟨ls,rfl⟩ := readTree_ok hs
          rw [nodesOf_cons,length_map] at hnodes
          refine ⟨(elemsAt e.value t.embedded,rest+nodesOf ls),
            hblock.mpr ⟨rfl,by dsimp only; omega⟩,?_⟩
          have hparse : tlvParseCompound data mode n desc.children
              (elemsAt e.value t.embedded) v.sub (rest+nodesOf ls) = .ok (s,rest) :=
            (ih (carries_elemsAt hbytes) hsub).mpr ⟨_,ls,hs,hfit,rfl⟩
          exact except_bind_ok.mpr ⟨_,hparse,rfl⟩
      · rw [if_neg hcomp] at hshape
        rw [if_neg hcomp,if_neg hcomp,he.parseLeaf hshape,except_bind_ok]
        constructor
        · rintro ⟨v,hv,h⟩
          cases h
          exact ⟨[],except_bind_ok.mpr ⟨v,hv,rfl⟩,allFit_nil,rfl⟩
        · rintro ⟨ls,hread,-,hnodes⟩
          obtain ⟨v,hv,h⟩ := except_bind_ok.mp hread
          cases h
          rw [nodesOf_nil,Nat.add_zero] at hnodes
          exact ⟨v,hv,by rw [hnodes]; rfl⟩
    have hfields : List.Forall₂ (fun e t => (e.type,e.inst)=t.key ∧
        ∀ desc∈descs,desc.key=t.key →
          ReadsAs (parseField (tlvParseCompound data mode n) data mode)
            (readField (readTree n)) desc e t) es ts := by
      have hmem : List.Forall₂ (fun t e => t∈ts ∧ Carries data e t) ts es :=
        (forall₂_and_left ts es).mpr ⟨fun _ h => h,hes.flip⟩
      exact hmem.flip.imp fun e t h => ⟨h.2.key,hread e t h.2 h.1⟩
    refine (parseElems_ok_iff hfields Counts.ok_zero).trans ?_
    show (∃ ls,readElems (readField (readTree n)) descs ts (fun _ => 0) m = .ok (w,ls) ∧ _) ↔
      ∃ l ls,(do
        let (m,ls) ← readElems (readField (readTree n)) descs ts (fun _ => 0) m
        return (m,ts.map Tlv.key::ls))=Except.ok (w,l::ls) ∧ _
    constructor
    · rintro ⟨ls,hls,hfit,hcard,hnodes⟩
      refine ⟨ts.map Tlv.key,ls,?_,allFit_cons.mpr ⟨?_,hfit⟩,hnodes⟩
      · rw [hls]
        rfl
      · rwa [Counts.zero,toFinset_nil,Finset.empty_union] at hcard
    · rintro ⟨l,ls,hls,hfit,hnodes⟩
      cases hr : readElems (readField (readTree n)) descs ts (fun _ => 0) m with
      | error e => simp [hr,bind,Except.bind] at hls
      | ok r =>
        rw [hr] at hls
        obtain ⟨w',ls'⟩ := r
        cases hls
        obtain ⟨hlevel,hfit⟩ := allFit_cons.mp hfit
        refine ⟨ls,rfl,hfit,?_,hnodes⟩
        rwa [Counts.zero,toFinset_nil,Finset.empty_union]

end OgsDp.Core
