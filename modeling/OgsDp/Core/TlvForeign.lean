import OgsDp.Core.TlvTree

/-!
# Elements that the descriptor does not know (lib/core/ogs-tlv-msg.c)

`tlv_parse_compound` passes over an element of an unknown type, but it has a counter for it, of
the 128 that there are for the children.
-/

namespace OgsDp.Core
open Function List

/-- `ts'` is `ts` with elements put in whose types are unknown where they are. -/
inductive Inserted : List TlvDesc → List Tlv → List Tlv → Prop
  | nil {descs : List TlvDesc} : Inserted descs [] []
  | foreign {descs : List TlvDesc} {t : Tlv} {ts ts' : List Tlv}
      (ht : ∀ d∈descs,d.type.val≠t.type) (h : Inserted descs ts ts') :
      Inserted descs ts (t::ts')
  | keep {descs : List TlvDesc} {t : Tlv} {ts ts' : List Tlv} (h : Inserted descs ts ts') :
      Inserted descs (t::ts) (t::ts')
  | inside {descs : List TlvDesc} {mode : TlvMode} {type : Nat} {inst : Byte} {value : List Byte}
      {us us' ts ts' : List Tlv}
      (hknown : ∃ d∈descs,d.key=(type,inst.val))
      (hcomp : ∀ d∈descs,d.key=(type,inst.val) → d.ctype = .compound)
      (hus : ∀ d∈descs,d.key=(type,inst.val) → Inserted d.children us us')
      (h : Inserted descs ts ts') :
      Inserted descs (.mk mode type inst value us::ts) (.mk mode type inst value us'::ts')

section Read

variable {S : Type} {descs : List TlvDesc} {key : Nat × Nat}

theorem findDescFrom_unknown {pos : Nat} (ds : List TlvDesc) {prev : Option TlvType} {i k : Nat}
    (hkey : ∀ d∈ds,d.key≠key) (hmore : MoreOk prev ds) :
    findDescFrom key pos i prev k ds = .ok none := by
  induction ds generalizing prev i k with
  | nil => rfl
  | cons d ds ih =>
    have hne:=hkey d (mem_cons_self ..)
    have hok : ¬ (d.ctype = .more ∧ (prev=none ∨ prev=some .more)) := by
      rintro ⟨hd,hprev⟩
      obtain ⟨h₁,h₂⟩ := hmore.1 hd
      rcases hprev with hprev | hprev
      · exact h₁ hprev
      · exact h₂ hprev
    rw [findDescFrom,if_neg fun h => hne h.1,if_neg hok,if_neg hne]
    exact ih (fun d hd => hkey d (mem_cons_of_mem _ hd)) hmore.2

theorem spot_unknown (hkey : ∀ d∈descs,d.key≠key) (hdescs : DescsOk descs)
    (m : Nat → Nat → Slot S) (pos : Nat) : spot descs m key pos = .ok none := by
  unfold spot tlvFindDescByTypeInst
  rw [findDescFrom_unknown descs hkey hdescs.more]
  rfl

/-- Elements of unknown types that need more counters than there are. -/
theorem parseElems_crowded {field : TlvDesc → Elem → Slot S → Nat → Except Stop (Slot S × Nat)}
    {es : List Elem} {c : Counts} {m : Nat → Nat → Slot S} {avail : Nat} (hmore : MoreOk none descs)
    (hkey : ∀ e∈es,∀ d∈descs,d.key≠(e.type,e.inst))
    (hnew : (es.map fun e => (e.type,e.inst)).Nodup)
    (hold : ∀ e∈es,(e.type,e.inst)∉c.keys) (hkeys : c.keys.length≤128)
    (hmany : 128 < c.keys.length+es.length) :
    parseElems field descs es c m avail = .error .error := by
  induction es generalizing c with
  | nil =>
    rw [length_nil] at hmany
    omega
  | cons e es ih =>
    have hmem:=hold e (mem_cons_self ..)
    by_cases hfull : c.keys.length=128
    · rw [parseElems,place,tlvCountNodeFind,if_neg hmem,if_pos hfull]
      rfl
    · rw [map_cons,nodup_cons] at hnew
      rw [length_cons] at hmany
      have hfind (pos : Nat) :
          tlvFindDescByTypeInst descs (e.type,e.inst) pos = .ok none := by
        unfold tlvFindDescByTypeInst
        rw [findDescFrom_unknown descs (hkey e (mem_cons_self ..)) hmore]
      have hplace : place descs m e c =
          .ok (.skip ⟨(e.type,e.inst)::c.keys,update c.count (e.type,e.inst) 0⟩) := by
        rw [place,tlvCountNodeFind,if_neg hmem,if_neg hfull]
        simp only [bind,Except.bind,hfind]
        rfl
      rw [parseElems,hplace]
      refine ih (fun e' he => hkey e' (mem_cons_of_mem _ he)) hnew.2 (fun e' he hmem' => ?_) ?_ ?_
      · rcases mem_cons.mp hmem' with heq | hmem'
        · exact hnew.1 (mem_map.mpr ⟨e',he,heq⟩)
        · exact hold e' (mem_cons_of_mem _ he) hmem'
      · rw [length_cons]
        omega
      · rw [length_cons]
        omega

/-- What comes behind elements that were parsed starts with their counters. -/
theorem parseElems_append {field : TlvDesc → Elem → Slot S → Nat → Except Stop (Slot S × Nat)}
    {es : List Elem} {c : Counts} {m w : Nat → Nat → Slot S} {avail rest : Nat} (hc : c.Ok)
    (h : parseElems field descs es c m avail = .ok (w,rest)) :
    ∃ c' : Counts,c'.Ok ∧
      c'.keys.toFinset=c.keys.toFinset ∪ (es.map fun e => (e.type,e.inst)).toFinset ∧
      ∀ es',parseElems field descs (es++es') c m avail = parseElems field descs es' c' w rest := by
  induction es generalizing c m avail with
  | nil =>
    cases h
    exact ⟨c,hc,by simp,fun es' => rfl⟩
  | cons e es ih =>
    rw [parseElems,place_eq_spot hc e rfl] at h
    by_cases hfull : (e.type,e.inst)∉c.keys ∧ c.keys.length=128
    · rw [if_pos hfull] at h
      cases h
    · rw [if_neg hfull] at h
      have hfound:=hc.find hfull
      have hkeys : (c.find (e.type,e.inst)).keys.toFinset ∪
          (es.map fun e => (e.type,e.inst)).toFinset =
            c.keys.toFinset ∪ ((e::es).map fun e => (e.type,e.inst)).toFinset := by
        rw [Counts.find_toFinset,map_cons,toFinset_cons,card_union_insert]
      cases hspot : spot descs m (e.type,e.inst) (c.count (e.type,e.inst)) with
      | error e =>
        rw [hspot] at h
        cases h
      | ok o =>
        rw [hspot] at h
        cases o with
        | none =>
          obtain ⟨c',hc',hc'keys,happ⟩ := ih hfound h
          refine ⟨c',hc',hc'keys.trans hkeys,fun es' => ?_⟩
          rw [cons_append,parseElems,place_eq_spot hc e rfl,if_neg hfull,hspot]
          exact happ es'
        | some p =>
          obtain ⟨place,hplace,h⟩ := except_bind_ok.mp h
          cases hplace
          obtain ⟨⟨v,a⟩,hf,h⟩ := except_bind_ok.mp h
          have hcounted : (if p.single then (c.find (e.type,e.inst)).incr (e.type,e.inst)
              else c.find (e.type,e.inst)).Ok := by
            split
            · exact hfound.incr (c.mem_find _)
            · exact hfound
          obtain ⟨c',hc',hc'keys,happ⟩ := ih hcounted h
          refine ⟨c',hc',hc'keys.trans (.trans ?_ hkeys),fun es' => ?_⟩
          · split
            · rfl
            · rfl
          · rw [cons_append,parseElems,place_eq_spot hc e rfl,if_neg hfull,hspot]
            simp only [Except.map,bind,Except.bind,Spot.place,hf]
            exact happ es'

theorem counted_agree {p : Spot} {count count' : Nat × Nat → Nat} {k : Nat × Nat}
    (hkey : count' key=count key) (hk : count' k=count k) :
    p.counted key count' k=p.counted key count k := by
  unfold Spot.counted
  split
  · by_cases hkk : k=key
    · rw [hkk,update_self,update_self,hkey]
    · rw [update_of_ne hkk,update_of_ne hkk,hk]
  · exact hk

end Read

theorem readElems_cons {S : Type} {descs : List TlvDesc} {t : Tlv} {ts : List Tlv}
    {field : TlvDesc → Tlv → Slot S → Except Stop (Slot S × List Level)}
    {count : Nat × Nat → Nat} {m w : Nat → Nat → Slot S} {ls : List Level} :
    readElems field descs (t::ts) count m = .ok (w,ls) ↔
      (spot descs m t.key (count t.key) = .ok none ∧
        readElems field descs ts count m = .ok (w,ls)) ∨
      ∃ p v ls₁ ls₂,spot descs m t.key (count t.key) = .ok (some p) ∧
        field p.desc t (m p.child p.rep) = .ok (v,ls₁) ∧
        readElems field descs ts (p.counted t.key count) (fill m p v) = .ok (w,ls₂) ∧
          ls=ls₁++ls₂ := by
  rw [readElems,except_bind_ok]
  constructor
  · rintro ⟨o,hspot,hread⟩
    cases o with
    | none => exact .inl ⟨hspot,hread⟩
    | some p =>
      obtain ⟨⟨v,ls₁⟩,hfield,hread⟩ := except_bind_ok.mp hread
      obtain ⟨⟨w',ls₂⟩,hrest,hread⟩ := except_bind_ok.mp hread
      cases hread
      exact .inr ⟨p,v,ls₁,ls₂,hspot,hfield,hrest,rfl⟩
  · rintro (⟨hspot,hread⟩ | ⟨p,v,ls₁,ls₂,hspot,hfield,hrest,rfl⟩)
    · exact ⟨none,hspot,hread⟩
    · exact ⟨some p,hspot,except_bind_ok.mpr ⟨_,hfield,except_bind_ok.mpr ⟨_,hrest,rfl⟩⟩⟩

theorem readElems_head {n : Nat} {descs : List TlvDesc} {t t' : Tlv} {ts ts' : List Tlv}
    {count count' : Nat × Nat → Nat} {m w : Nat → Nat → Slot (Msg n)} {ls : List Level}
    (hdescs : DescsOk descs) (hcount : ∀ d∈descs,count' d.key=count d.key)
    (hkey : t'.key=t.key)
    (hfield : ∀ d∈descs,d.key=t.key → ∀ v w ls,readField (readTree n) d t v = .ok (w,ls) →
      ∃ ls',readField (readTree n) d t' v = .ok (w,ls'))
    (ih : ∀ {count count' : Nat × Nat → Nat} {m w : Nat → Nat → Slot (Msg n)} {ls : List Level},
      (∀ d∈descs,count' d.key=count d.key) →
      readElems (readField (readTree n)) descs ts count m = .ok (w,ls) →
        ∃ ls',readElems (readField (readTree n)) descs ts' count' m = .ok (w,ls'))
    (hread : readElems (readField (readTree n)) descs (t::ts) count m = .ok (w,ls)) :
    ∃ ls',readElems (readField (readTree n)) descs (t'::ts') count' m = .ok (w,ls') := by
  have hspot : spot descs m t'.key (count' t'.key)=spot descs m t.key (count t.key) := by
    rw [hkey]
    by_cases hknown : ∃ d∈descs,d.key=t.key
    · obtain ⟨d,hd,hdkey⟩ := hknown
      rw [← hdkey,hcount d hd]
    · have hunknown : ∀ d∈descs,d.key≠t.key := fun d hd he => hknown ⟨d,hd,he⟩
      rw [spot_unknown hunknown hdescs,spot_unknown hunknown hdescs]
  rcases readElems_cons.mp hread with ⟨hnone,hrest⟩ | ⟨p,v,ls₁,ls₂,hp,hv,hrest,-⟩
  · obtain ⟨ls',hls⟩ := ih hcount hrest
    exact ⟨ls',readElems_cons.mpr (.inl ⟨hspot.trans hnone,hls⟩)⟩
  · obtain ⟨hmem,hpkey⟩ := spot_sound hp
    obtain ⟨ls₁',hv'⟩ := hfield p.desc hmem hpkey _ _ _ hv
    have hcounted : ∀ d ∈ descs,
        p.counted t'.key count' d.key=p.counted t.key count d.key := by
      intro d hd
      rw [hkey]
      exact counted_agree (by rw [← hpkey,hcount p.desc hmem]) (hcount d hd)
    obtain ⟨ls₂',hrest'⟩ := ih hcounted hrest
    exact ⟨ls₁'++ls₂',readElems_cons.mpr
      (.inr ⟨p,v,ls₁',ls₂',hspot.trans hp,hv',hrest',rfl⟩)⟩

theorem readElems_inserted {descs : List TlvDesc} {ts ts' : List Tlv}
    (h : Inserted descs ts ts') : ∀ {n : Nat} {count count' : Nat × Nat → Nat}
      {m w : Nat → Nat → Slot (Msg n)} {ls : List Level}, DescsTree (n+1) descs →
      (∀ d∈descs,count' d.key=count d.key) →
      readElems (readField (readTree n)) descs ts count m = .ok (w,ls) →
        ∃ ls',readElems (readField (readTree n)) descs ts' count' m = .ok (w,ls') := by
  induction h with
  | nil =>
    intro n count count' m w ls _ _ hread
    cases hread
    exact ⟨[],rfl⟩
  | @foreign descs t ts ts' ht _ ih =>
    intro n count count' m w ls hdescs hcount hread
    have hkey : ∀ d∈descs,d.key≠t.key := fun d hd he => ht d hd (congrArg Prod.fst he)
    obtain ⟨ls',hls⟩ := ih hdescs hcount hread
    exact ⟨ls',readElems_cons.mpr (.inl ⟨spot_unknown hkey hdescs.1 _ _,hls⟩)⟩
  | @keep descs t ts ts' _ ih =>
    intro n count count' m w ls hdescs hcount hread
    exact readElems_head hdescs.1 hcount rfl (fun d _ _ v w ls hv => ⟨ls,hv⟩) (ih hdescs) hread
  | @inside descs mode type inst value us us' ts ts' _ hcomp _ _ ihus ih =>
    intro n count count' m w ls hdescs hcount hread
    have hsame : (Tlv.mk mode type inst value us').key=(Tlv.mk mode type inst value us).key := rfl
    refine readElems_head hdescs.1 hcount hsame ?_ (ih hdescs) hread
    intro d hd hkey v w ls hv
    unfold readField at hv ⊢
    rw [if_pos (hcomp d hd hkey)] at hv ⊢
    obtain ⟨⟨s,ls'⟩,hs,hv⟩ := except_bind_ok.mp hv
    cases hv
    cases n with
    | zero => cases hs
    | succ n =>
      obtain ⟨⟨s',ls''⟩,helems,hv⟩ := except_bind_ok.mp hs
      cases hv
      obtain ⟨ls₁,hls⟩ := ihus d hd hkey (hdescs.2 d hd) (fun _ _ => rfl) helems
      exact ⟨us'.map Tlv.key::ls₁,
        except_bind_ok.mpr ⟨_,except_bind_ok.mpr ⟨_,hls,rfl⟩,rfl⟩⟩

theorem readTree_inserted {n : Nat} {descs : List TlvDesc} {ts ts' : List Tlv} {m w : Msg n}
    {ls : List Level} (h : Inserted descs ts ts') (hdescs : DescsTree n descs)
    (hread : readTree n descs ts m = .ok (w,ls)) :
    ∃ ls',readTree n descs ts' m = .ok (w,ls') := by
  cases n with
  | zero => cases hread
  | succ n =>
    obtain ⟨⟨w',ls'⟩,hs,hv⟩ := except_bind_ok.mp hread
    cases hv
    obtain ⟨ls₁,hls⟩ := readElems_inserted h hdescs (fun _ _ => rfl) hs
    exact ⟨ts'.map Tlv.key::ls₁,except_bind_ok.mpr ⟨_,hls,rfl⟩⟩

theorem allBytes_append (ts us : List Tlv) : allBytes (ts++us)=allBytes ts++allBytes us := by
  induction ts with
  | nil => rfl
  | cons t ts ih => rw [cons_append,allBytes,ih,allBytes,append_assoc]

theorem elemsAt_append (ts us : List Tlv) (pos : Nat) : elemsAt pos (ts++us) =
    elemsAt pos ts++elemsAt (pos+(allBytes ts).length) us := by
  induction ts generalizing pos with
  | nil => rfl
  | cons t ts ih =>
    rw [cons_append,elemsAt,ih,elemsAt,cons_append,allBytes,length_append,Nat.add_assoc]

theorem key_elemsAt (ts : List Tlv) (pos : Nat) :
    (elemsAt pos ts).map (fun e => (e.type,e.inst))=ts.map Tlv.key := by
  induction ts generalizing pos with
  | nil => rfl
  | cons t ts ih =>
    rw [elemsAt,map_cons,map_cons,ih]
    rfl

theorem length_elemsAt (ts : List Tlv) (pos : Nat) : (elemsAt pos ts).length=ts.length := by
  have hmap:=congrArg length (key_elemsAt ts pos)
  rwa [length_map,length_map] at hmap

/-- The elements of a message as they are encoded for `ogs_tlv_parse_msg`. -/
structure Encoded (mode : TlvMode) (descs : List TlvDesc) (ts : List Tlv) : Prop where
  ne_nil : ts≠[]
  fits : ∀ t∈ts,t.Fits mode
  shaped : Shaped mode 9 descs ts

structure Tlv.FormedAs (mode : TlvMode) (desc : TlvDesc) (t : Tlv) : Prop where
  mode_eq : t.mode=tlvCtype2mode desc.ctype mode
  typeLen : t.mode.typeLen=mode.typeLen
  type_lt : t.type<256^mode.typeLen
  rest : if t.mode = .t1 then t.content.length=desc.length.val ∧ t.inst=0 else t.Fits t.mode

def Tlv.Known (descs : List TlvDesc) (t : Tlv) : Prop := ∃ d∈descs,d.type.val=t.type

/-- The elements of a message as they are encoded for `ogs_tlv_parse_msg_desc`: each that is known
has the form of the first child of its type, and another one fits the mode. -/
structure EncodedDesc (mode : TlvMode) (descs : List TlvDesc) (ts : List Tlv) : Prop where
  ne_nil : ts≠[]
  formed : ∀ t∈ts,t.Known descs → ∃ i d,
    tlvFindDescByTypeInst descs (t.type,0) 0 = .ok (some (i,d)) ∧ t.FormedAs mode d
  fits : ∀ t∈ts,¬ t.Known descs → t.Fits mode
  shaped : Shaped mode 9 descs ts

def levels (descs : List TlvDesc) (ts : List Tlv) (w : Msg 9) : List Level :=
  match readTree 9 descs ts w with
  | .ok (_,ls) => ls
  | .error _ => []

/-- There is a counter for each key of a level, and a node of the pool for each element. -/
def Roomy (descs : List TlvDesc) (ts : List Tlv) (w : Msg 9) (avail : Nat) : Prop :=
  AllFit (levels descs ts w) ∧ nodesOf (levels descs ts w)≤avail

instance (descs : List TlvDesc) (ts : List Tlv) (w : Msg 9) (avail : Nat) :
    Decidable (Roomy descs ts w avail) := inferInstanceAs (Decidable (_ ∧ _))

section Parse

variable {desc : TlvDesc} {descs : List TlvDesc} {mode : TlvMode} {ts ts' : List Tlv}
  {w m : Msg 9} {avail : Nat}

theorem roomy_iff (hread : ∃ ls,readTree 9 descs ts w = .ok (m,ls)) :
    Roomy descs ts w avail ↔ ∃ l ls,readTree 9 descs ts w = .ok (m,l::ls) ∧
      AllFit (l::ls) ∧ nodesOf (l::ls)≤avail := by
  obtain ⟨ls,hls⟩ := hread
  obtain ⟨ls',rfl⟩ := readTree_ok hls
  unfold Roomy levels
  rw [hls]
  constructor
  · rintro ⟨hfit,hnodes⟩
    exact ⟨_,ls',rfl,hfit,hnodes⟩
  · rintro ⟨l,ls,hls',hfit,hnodes⟩
    cases hls'
    exact ⟨hfit,hnodes⟩

theorem parse_ok_iff {data : List Byte} {block : Except Stop (List Elem × Nat)} {P : Prop}
    (hblock : ∀ r : List Elem × Nat, block = .ok r ↔
      P ∧ r.1=elemsAt 0 ts ∧ r.2+ts.length=avail)
    (hat : At data 0 (allBytes ts)) (hshaped : Shaped mode 9 descs ts) :
    (do
      let (root,avail) ← block
      let (m,_) ← tlvParseCompound data mode 9 descs root w avail
      return m) = .ok m ↔
    P ∧ ∃ l ls,readTree 9 descs ts w = .ok (m,l::ls) ∧ AllFit (l::ls) ∧
      nodesOf (l::ls)≤avail := by
  have hcompound : ∀ avail rest,tlvParseCompound data mode 9 descs (elemsAt 0 ts) w avail =
      .ok (m,rest) ↔ _ := fun avail rest =>
    tlvParseCompound_ok_iff 9 (carries_elemsAt hat) hshaped
  rw [except_bind_ok]
  constructor
  · rintro ⟨⟨root,rest⟩,hroot,h⟩
    obtain ⟨hP,rfl,hrest⟩ := (hblock _).mp hroot
    obtain ⟨⟨m',rest'⟩,hparse,h⟩ := except_bind_ok.mp h
    cases h
    obtain ⟨l,ls,hread,hfit,hnodes⟩ := (hcompound _ _).mp hparse
    obtain ⟨ls',hls⟩ := readTree_ok hread
    cases hls
    refine ⟨hP,_,ls,hread,hfit,?_⟩
    rw [nodesOf_cons,length_map]
    dsimp only at hrest hnodes
    omega
  · rintro ⟨hP,l,ls,hread,hfit,hnodes⟩
    obtain ⟨ls',hls⟩ := readTree_ok hread
    cases hls
    rw [nodesOf_cons,length_map] at hnodes
    have hroot:=(hblock (elemsAt 0 ts,avail-ts.length)).mpr
      ⟨hP,rfl,by dsimp only; omega⟩
    have hparse:=(hcompound (avail-ts.length) (avail-ts.length-nodesOf ls)).mpr
      ⟨_,ls,hread,hfit,by omega⟩
    exact ⟨_,hroot,except_bind_ok.mpr ⟨_,hparse,rfl⟩⟩

theorem ogsTlvParseMsg_ok_iff (hctype : desc.ctype = .message) (hne : desc.children≠[])
    (hts : Encoded mode desc.children ts) :
    ogsTlvParseMsg w desc (allBytes ts) mode avail = .ok m ↔
      ∃ l ls,readTree 9 desc.children ts w = .ok (m,l::ls) ∧ AllFit (l::ls) ∧
        nodesOf (l::ls)≤avail := by
  unfold ogsTlvParseMsg
  rw [if_neg (by simp [hctype,hne])]
  refine (parse_ok_iff (P := True) (fun r => ?_) (.self _) hts.shaped).trans
    ⟨fun h => h.2,fun h => ⟨trivial,h⟩⟩
  rw [parseBlock_ok_iff hts.ne_nil hts.fits (.self _)]
  exact ⟨fun h => ⟨trivial,h⟩,fun h => h.2⟩

/-- Behind a message that is parsed, 128 elements of other types need more counters than there are,
if no two of them have one type and instance. -/
theorem ogsTlvParseMsg_crowded {avail' : Nat} {us : List Tlv} (hctype : desc.ctype = .message)
    (hne : desc.children≠[]) (hmore : MoreOk none desc.children)
    (hts : Encoded mode desc.children ts) (hall : Encoded mode desc.children (ts++us))
    (hparse : ogsTlvParseMsg w desc (allBytes ts) mode avail = .ok m)
    (havail : avail+us.length≤avail') (hkey : ∀ u∈us,∀ d∈desc.children,d.key≠u.key)
    (hnew : (us.map Tlv.key).Nodup) (hold : ∀ u∈us,u.key∉ts.map Tlv.key)
    (hmany : 128≤us.length) :
    ogsTlvParseMsg w desc (allBytes (ts++us)) mode avail' = .error .error := by
  obtain ⟨l,ls,hread,hfit,hnodes⟩ := (ogsTlvParseMsg_ok_iff hctype hne hts).mp hparse
  obtain ⟨ls',hls⟩ := readTree_ok hread
  cases hls
  rw [nodesOf_cons,length_map] at hnodes
  have hat : At (allBytes (ts++us)) 0 (allBytes ts++allBytes us) := by
    rw [← allBytes_append]
    exact .self _
  have hroot : ogsTlvParseBlock (allBytes (ts++us)) mode 0 (allBytes (ts++us)).length avail' =
      .ok (elemsAt 0 ts++elemsAt (0+(allBytes ts).length) us,avail'-(ts++us).length) := by
    refine (parseBlock_ok_iff hall.ne_nil hall.fits (.self _)).mpr ⟨?_,?_⟩
    · exact (elemsAt_append ts us 0).symm
    · rw [length_append]
      dsimp only
      omega
  have hhead : tlvParseCompound (allBytes (ts++us)) mode 9 desc.children (elemsAt 0 ts) w
      (avail'-(ts++us).length) = .ok (m,avail'-(ts++us).length-nodesOf ls) :=
    (tlvParseCompound_ok_iff 9 (carries_elemsAt hat.left) hts.shaped).mpr
      ⟨_,ls,hread,hfit,by rw [length_append]; omega⟩
  obtain ⟨c,hc,hkeys,happ⟩ := parseElems_append Counts.ok_zero hhead
  have hmem (key : Nat × Nat) : key∈c.keys ↔ key∈ts.map Tlv.key := by
    have hk:=congrArg (key∈·) hkeys
    simpa [key_elemsAt,Counts.zero] using hk
  have hpos : 0<c.keys.length := by
    obtain ⟨t,ts,rfl⟩ := exists_cons_of_ne_nil hts.ne_nil
    exact length_pos_of_mem ((hmem t.key).mpr (mem_cons_self ..))
  have hes : ∀ e∈elemsAt (0+(allBytes ts).length) us,∃ u∈us,u.key=(e.type,e.inst) := by
    intro e he
    have hk : (e.type,e.inst)∈us.map Tlv.key := by
      rw [← key_elemsAt us (0+(allBytes ts).length)]
      exact mem_map.mpr ⟨e,he,rfl⟩
    exact mem_map.mp hk
  unfold ogsTlvParseMsg
  rw [if_neg (by simp [hctype,hne]),hroot]
  have hrest : tlvParseCompound (allBytes (ts++us)) mode 9 desc.children
      (elemsAt 0 ts++elemsAt (0+(allBytes ts).length) us) w (avail'-(ts++us).length) =
        .error .error := by
    refine (happ _).trans (parseElems_crowded hmore ?_ ?_ ?_ hc.le ?_)
    · intro e he d hd
      obtain ⟨u,hu,hue⟩ := hes e he
      rw [← hue]
      exact hkey u hu d hd
    · rwa [key_elemsAt]
    · intro e he hk
      obtain ⟨u,hu,hue⟩ := hes e he
      rw [← hue] at hk
      exact hold u hu ((hmem _).mp hk)
    · rw [length_elemsAt]
      omega
  simp only [bind,Except.bind,hrest]

theorem tlvGetElementDesc_eq {data : List Byte} {t : Tlv} {pos i : Nat} {d : TlvDesc}
    (hat : At data pos t.bytes)
    (hfind : tlvFindDescByTypeInst descs (t.type,0) 0 = .ok (some (i,d)))
    (ht : t.FormedAs mode d) : tlvGetElementDesc data mode descs pos = .ok (t.elemAt pos) := by
  have hbytes:=hat
  rw [t.bytes_eq,putHeader,ht.typeLen] at hbytes
  have htype:=hbytes.left.left.left.readNet_netBytes ht.type_lt
  have hrest:=ht.rest
  unfold tlvGetElementDesc
  refine except_bind_ok.mpr ⟨_,htype,except_bind_ok.mpr ⟨_,hfind,?_⟩⟩
  dsimp only
  rw [← ht.mode_eq]
  by_cases hmode : t.mode = .t1
  · rw [if_pos hmode] at hrest ⊢
    have hone : mode.typeLen=1 := by
      rw [← ht.typeLen,hmode]
      rfl
    rw [hone] at htype
    refine except_bind_ok.mpr ⟨_,htype,?_⟩
    rw [Tlv.elemAt,hmode,hrest.1,hrest.2]
    rfl
  · rw [if_neg hmode] at hrest ⊢
    exact tlvGetElement_eq hat hrest

theorem tlvGetElementDesc_unknown {data : List Byte} {t : Tlv} {pos : Nat}
    (hat : At data pos t.bytes) (hfits : t.Fits mode) (hdescs : DescsOk descs)
    (ht : ¬ t.Known descs) : tlvGetElementDesc data mode descs pos = .error .abort := by
  rw [t.bytes_eq,putHeader,hfits.mode_eq] at hat
  have htype:=hat.left.left.left.readNet_netBytes hfits.type_lt
  have hkey : ∀ d∈descs,d.key≠(t.type,0) :=
    fun d hd he => ht ⟨d,hd,congrArg Prod.fst he⟩
  unfold tlvGetElementDesc tlvFindDescByTypeInst
  rw [htype]
  simp only [bind,Except.bind]
  rw [findDescFrom_unknown descs hkey hdescs.more]

theorem ogsTlvParseMsgDesc_ok_iff (hctype : desc.ctype = .message) (hne : desc.children≠[])
    (hdescs : DescsOk desc.children) (hts : EncodedDesc mode desc.children ts) :
    ogsTlvParseMsgDesc w desc (allBytes ts) mode avail = .ok m ↔
      (∀ t∈ts,t.Known desc.children) ∧
        ∃ l ls,readTree 9 desc.children ts w = .ok (m,l::ls) ∧ AllFit (l::ls) ∧
          nodesOf (l::ls)≤avail := by
  unfold ogsTlvParseMsgDesc
  rw [if_neg (by simp [hctype,hne])]
  refine parse_ok_iff (fun r => ?_) (.self _) hts.shaped
  refine parseElements_ok_iff hts.ne_nil (fun u hu pos hat => ⟨fun hknown => ?_,?_⟩) (.self _)
  · obtain ⟨i,d,hfind,hformed⟩ := hts.formed u hu hknown
    exact tlvGetElementDesc_eq hat hfind hformed
  · intro hunknown e
    rw [tlvGetElementDesc_unknown hat (hts.fits u hu hunknown) hdescs hunknown]
    rintro ⟨⟩

/-- With elements of unknown types put in a message is parsed to the same, as long as there is room
for what is entered and, by the descriptor, none of them is on the first level. -/
theorem unknown_ies_iff (hctype : desc.ctype = .message) (hne : desc.children≠[])
    (hdescs : DescsTree 9 desc.children) (hins : Inserted desc.children ts ts') :
    (Encoded mode desc.children ts → Encoded mode desc.children ts' →
      ogsTlvParseMsg w desc (allBytes ts) mode avail = .ok m →
        (ogsTlvParseMsg w desc (allBytes ts') mode avail = .ok m ↔
          Roomy desc.children ts' w avail)) ∧
      (EncodedDesc mode desc.children ts → EncodedDesc mode desc.children ts' →
        ogsTlvParseMsgDesc w desc (allBytes ts) mode avail = .ok m →
          (ogsTlvParseMsgDesc w desc (allBytes ts') mode avail = .ok m ↔
            (∀ t∈ts',t.Known desc.children) ∧ Roomy desc.children ts' w avail)) := by
  constructor
  · intro hts hts' hparse
    obtain ⟨l,ls,hread,-,-⟩ := (ogsTlvParseMsg_ok_iff hctype hne hts).mp hparse
    rw [ogsTlvParseMsg_ok_iff hctype hne hts',roomy_iff (readTree_inserted hins hdescs hread)]
  · intro hts hts' hparse
    obtain ⟨-,l,ls,hread,-,-⟩ :=
      (ogsTlvParseMsgDesc_ok_iff hctype hne hdescs.1 hts).mp hparse
    rw [ogsTlvParseMsgDesc_ok_iff hctype hne hdescs.1 hts',
      roomy_iff (readTree_inserted hins hdescs hread)]

end Parse

/-! A compound with unknown elements in it and beside it, more unknown elements than counters, and
one unknown element that is parsed by the descriptor. -/

instance decidableDescsTree : ∀ n descs,Decidable (DescsTree n descs)
  | 0, _ => isTrue trivial
  | n+1, descs =>
    haveI := decidableDescsTree n
    inferInstanceAs (Decidable (DescsOk descs ∧ ∀ d∈descs,DescsTree n d.children))

instance decidableShaped (mode : TlvMode) : ∀ n descs ts,Decidable (Shaped mode n descs ts)
  | 0, _, _ => isTrue trivial
  | n+1, descs, ts =>
    haveI := decidableShaped mode n
    inferInstanceAs (Decidable (∀ t∈ts,∀ d∈descs,d.key=t.key →
      if d.ctype = .compound then
        t.embedded≠[] ∧ (∀ u∈t.embedded,u.Fits mode) ∧ Shaped mode n d.children t.embedded
      else ∀ k∈d.ctype.width,t.content.length=k))

def stopOf {α : Type} : Except Stop α → Option Stop
  | .ok _ => none
  | .error e => some e

theorem exists_ok {α : Type} {x : Except Stop α} (h : stopOf x=none) : ∃ a,x = .ok a := by
  cases x with
  | ok a => exact ⟨a,rfl⟩
  | error e => cases h

def plainDesc : TlvDesc :=
  message [leaf .uint8 1 1 0,compound 3 [leaf .uint8 4 1 0]]

def plainTlv (mode : TlvMode) (type : Nat) (value : List Byte) : Tlv := .mk mode type 0 value []

def plain (foreign : List Tlv) (inner : List Tlv) : List Tlv :=
  plainTlv .t2L2 1 [7] :: .mk .t2L2 3 0 [] (plainTlv .t2L2 4 [9]::inner)::foreign

theorem unknown_ies_iff_two : ∃ m,
    ogsTlvParseMsg (blankMsg 9) plainDesc (allBytes (plain [] [])) .t2L2 512 = .ok m ∧
      ogsTlvParseMsg (blankMsg 9) plainDesc
        (allBytes (plain [plainTlv .t2L2 8 [1,2]] [plainTlv .t2L2 5 [3]])) .t2L2 512 = .ok m := by
  obtain ⟨m,hm⟩ := exists_ok (x := ogsTlvParseMsg (blankMsg 9) plainDesc (allBytes (plain [] []))
    .t2L2 512) (by decide)
  refine ⟨m,hm,?_⟩
  have hins : Inserted plainDesc.children (plain [] [])
      (plain [plainTlv .t2L2 8 [1,2]] [plainTlv .t2L2 5 [3]]) := by
    refine .keep (.inside (by decide) (by decide) ?_ (.foreign (by decide) .nil))
    intro d hd hkey
    have hd' : d=leaf .uint8 1 1 0 ∨ d=compound 3 [leaf .uint8 4 1 0] := by
      simpa [plainDesc,message,TlvDesc.children] using hd
    rcases hd' with rfl | rfl
    · cases hkey
    · exact .keep (.foreign (by decide) .nil)
  exact ((unknown_ies_iff rfl (by decide) (by decide) hins).1
    ⟨by decide,by decide,by decide⟩
    ⟨by decide,by decide,by decide⟩ hm).mpr (by decide)

def many : List Tlv := (List.range 128).map fun i => plainTlv .t2L2 (8+i) []

theorem inserted_foreign {descs : List TlvDesc} {l : List Tlv}
    (h : ∀ t∈l,∀ d∈descs,d.type.val≠t.type) : Inserted descs [] l := by
  induction l with
  | nil => exact .nil
  | cons t l ih =>
    exact .foreign (h t (mem_cons_self ..)) (ih fun u hu => h u (mem_cons_of_mem t hu))

theorem fits_many {t : Tlv} (h : t∈many) : t.Fits .t2L2 := by
  obtain ⟨i,hi,rfl⟩ := mem_map.mp h
  have hlt : i<128 := mem_range.mp hi
  exact ⟨rfl,by show 8+i<256^2; omega,by show 0<256^2; decide,by show 0<16^0; decide⟩

theorem encoded_plain : Encoded .t2L2 plainDesc.children (plain [] []) :=
  ⟨by decide,by decide,by decide⟩

theorem le_type_many {t : Tlv} (h : t∈many) : 8≤t.type := by
  obtain ⟨i,-,rfl⟩ := mem_map.mp h
  exact Nat.le_add_right 8 i

theorem type_ne_many {t : Tlv} {d : TlvDesc} (h : t∈many) (hd : d∈plainDesc.children) :
    d.type.val≠t.type := by
  have hsmall : ∀ d∈plainDesc.children,d.type.val<8 := by decide
  have hlt:=hsmall d hd
  have hle:=le_type_many h
  omega

theorem length_many : many.length=128 := by
  rw [many,length_map,length_range]

theorem nodup_many : (many.map Tlv.key).Nodup := by
  rw [many,map_map]
  refine nodup_range.map fun i j h => ?_
  have htype : 8+i=8+j := congrArg Prod.fst h
  omega

theorem encoded_crowded : Encoded .t2L2 plainDesc.children (plain [] []++many) := by
  refine ⟨by decide,fun t ht => ?_,fun t ht => ?_⟩
  · rcases mem_append.mp ht with ht | ht
    · exact encoded_plain.fits t ht
    · exact fits_many ht
  · rcases mem_append.mp ht with ht | ht
    · exact encoded_plain.shaped t ht
    · intro d hd hkey
      exact absurd (congrArg Prod.fst hkey) (type_ne_many ht hd)

theorem parse_crowded :
    ogsTlvParseMsg (blankMsg 9) plainDesc (allBytes (plain many [])) .t2L2 512 =
      .error .error := by
  obtain ⟨w,hw⟩ := exists_ok (x := ogsTlvParseMsg (blankMsg 9) plainDesc
    (allBytes (plain [] [])) .t2L2 300) (by decide)
  have hplain : plain many []=plain [] []++many := rfl
  rw [hplain]
  refine ogsTlvParseMsg_crowded rfl (by decide) (by decide) encoded_plain encoded_crowded hw
    ?_ ?_ nodup_many ?_ ?_
  · rw [length_many]
    omega
  · intro u hu d hd hkey
    exact absurd (congrArg Prod.fst hkey) (type_ne_many hu hd)
  · intro u hu hk
    have hsmall : ∀ k∈(plain [] []).map Tlv.key,k.1<8 := by decide
    have hlt : u.type<8 := hsmall u.key hk
    have hle:=le_type_many hu
    omega
  · rw [length_many]

/-- A message with 128 elements of unknown types is not parsed, and one element of an unknown type
aborts the parser that goes by the descriptor. -/
theorem unknown_ies_not_tolerated :
    (Inserted plainDesc.children (plain [] []) (plain many []) ∧
      Encoded .t2L2 plainDesc.children (plain many []) ∧
      stopOf (ogsTlvParseMsg (blankMsg 9) plainDesc (allBytes (plain [] [])) .t2L2 512)=none ∧
      stopOf (ogsTlvParseMsg (blankMsg 9) plainDesc (allBytes (plain many [])) .t2L2 512) =
        some .error) ∧
    (Inserted plainDesc.children (plain [] []) (plain [plainTlv .t2L2 8 []] []) ∧
      stopOf (ogsTlvParseMsgDesc (blankMsg 9) plainDesc (allBytes (plain [] [])) .t2L2 512)=none ∧
      stopOf (ogsTlvParseMsgDesc (blankMsg 9) plainDesc
        (allBytes (plain [plainTlv .t2L2 8 []] [])) .t2L2 512)=some .abort) := by
  refine ⟨⟨.keep (.keep (inserted_foreign fun _ ht _ => type_ne_many ht)),encoded_crowded,by decide,
    congrArg stopOf parse_crowded⟩,.keep (.keep (.foreign (by decide) .nil)),by decide,by decide⟩

end OgsDp.Core
