import OgsDp.Core.TlvPlace

/-!
# A message that was built is parsed to itself (lib/core/ogs-tlv-msg.c)
-/

namespace OgsDp.Core
open List

section Leaf

variable {S : Type} {data : List Byte} {desc : TlvDesc} {e : Elem}

theorem parseInt_eq {v : Slot S} {width : Nat} {x : BitVec 32} (hx : x.toNat<256^width)
    (hwidth : 0<width) (hlen : e.length=width) (h : At data e.value (netBytes width x.toNat)) :
    parseInt data e width v = .ok { v with num := x } := by
  unfold parseInt
  rw [if_neg (by omega),h.readNet_netBytes hx]
  show Except.ok _=_
  rw [BitVec.ofNat_toNat,BitVec.setWidth_eq]

theorem parseStr_eq {v : Slot S} {bs : List Byte} (hlen : e.length=bs.length)
    (h : At data e.value bs) : parseStr data e v = .ok { v with data := bs } := by
  have hle:=h.le
  unfold parseStr Elem.next
  rw [if_neg (by omega),hlen,h.slice]

theorem parseLeaf_eq (agree : List TlvDesc → S → S → Prop) {v : Slot S} (v' : Slot S)
    (h : LeafFits desc v) (hlen : e.length=(leafBytes desc v).length) (hat : At data e.value (leafBytes desc v)) :
    ∃ v'',tlvParseLeaf data desc e v' = .ok v'' ∧ SlotAgrees agree desc v v'' := by
  unfold LeafFits at h
  unfold leafBytes at hlen hat
  unfold tlvParseLeaf SlotAgrees
  cases hc : desc.ctype <;> simp only [hc,length_netBytes] at h hlen hat ⊢
  case uint8 | int8 => exact ⟨_,parseInt_eq h (by decide) hlen hat,rfl⟩
  case uint16 | int16 => exact ⟨_,parseInt_eq h (by decide) hlen hat,rfl⟩
  case uint24 | int24 => exact ⟨_,parseInt_eq h (by decide) hlen hat,rfl⟩
  case uint32 | int32 =>
    have hlt : v.num.toNat<256^4 := v.num.isLt
    exact ⟨_,parseInt_eq hlt (by decide) hlen hat,rfl⟩
  case fixedStr =>
    rw [if_neg (by omega)]
    exact ⟨_,parseStr_eq hlen hat,rfl⟩
  case varStr => exact ⟨_,parseStr_eq hlen hat,rfl⟩
  case null =>
    rw [if_neg (by simpa using hlen)]
    exact ⟨_,rfl,trivial⟩

end Leaf

theorem forall₂_elemsAt {data : List Byte} {tlv : Loc → Tlv} {R : Elem → Loc → Prop} (fs : List Loc)
    {pos : Nat} (h : At data pos (allBytes (fs.map tlv)))
    (hr : ∀ f∈fs,∀ pos,At data pos (tlv f).bytes → R ((tlv f).elemAt pos) f) :
    List.Forall₂ R (elemsAt pos (fs.map tlv)) fs := by
  induction fs generalizing pos with
  | nil => exact .nil
  | cons f fs ih =>
    have hfirst:=hr f (mem_cons_self ..) pos h.left
    exact .cons hfirst (ih h.right fun g hg => hr g (mem_cons_of_mem _ hg))

def deeper (ts : List Tlv) : Nat := (ts.map fun t => nodes t.embedded).sum

theorem nodes_eq (ts : List Tlv) : nodes ts=ts.length+deeper ts := by
  induction ts with
  | nil => rfl
  | cons t ts ih =>
    obtain ⟨mode,type,inst,value,embedded⟩ := t
    have hcons : deeper (.mk mode type inst value embedded::ts)=nodes embedded+deeper ts := by
      unfold deeper
      rw [map_cons,sum_cons]
      rfl
    rw [nodes,Tlv.nodes,ih,hcons,length_cons]
    omega

theorem content_eq {mode : TlvMode} {type : Nat} {inst : Byte} {value : List Byte} {ts : List Tlv}
    (hts : ts≠[]) : (Tlv.mk mode type inst value ts).content=allBytes ts := by
  obtain ⟨t,ts,rfl⟩ := exists_cons_of_ne_nil hts
  rfl

section Compound

variable {S : Type} {data : List Byte} {mode : TlvMode} {desc : TlvDesc} {v v' : Slot S}
  {sub : List TlvDesc → S → List Tlv} {agree : List TlvDesc → S → S → Prop}
  {parse : List TlvDesc → List Elem → S → Nat → Except Stop (S × Nat)} {pos avail : Nat}

theorem key_elemAt :
    (((slotTlv sub mode desc v).elemAt pos).type,((slotTlv sub mode desc v).elemAt pos).inst) =
      desc.key := by
  unfold slotTlv
  split_ifs <;> rfl

theorem parseField_leaf (hleaf : desc.ctype ≠ .compound) (hfits : LeafFits desc v)
    (h : At data pos (slotTlv sub mode desc v).bytes) :
    ∃ w,parseField parse data mode desc ((slotTlv sub mode desc v).elemAt pos) v' avail =
        .ok (w,avail-nodes (slotTlv sub mode desc v).embedded) ∧
      w.presence ∧ SlotAgrees agree desc v w := by
  simp only [slotTlv,if_neg hleaf] at h ⊢
  obtain ⟨w,hparse,hagree⟩ := parseLeaf_eq agree v' hfits rfl h.content
  refine ⟨{ w with presence := true },?_,rfl,hagree⟩
  unfold parseField
  rw [if_neg hleaf,hparse]
  rfl

theorem parseField_compound (hcomp : desc.ctype = .compound)
    (hne : sub desc.children v.sub≠[]) (hfits : ∀ t∈sub desc.children v.sub,t.Fits mode)
    (hparse : ∀ pos avail,At data pos (allBytes (sub desc.children v.sub)) →
      deeper (sub desc.children v.sub)≤avail → ∃ s,
        parse desc.children (elemsAt pos (sub desc.children v.sub)) v'.sub avail =
          .ok (s,avail-deeper (sub desc.children v.sub)) ∧ agree desc.children v.sub s)
    (h : At data pos (slotTlv sub mode desc v).bytes)
    (havail : nodes (slotTlv sub mode desc v).embedded≤avail) :
    ∃ w,parseField parse data mode desc ((slotTlv sub mode desc v).elemAt pos) v' avail =
        .ok (w,avail-nodes (slotTlv sub mode desc v).embedded) ∧
      w.presence ∧ SlotAgrees agree desc v w := by
  simp only [slotTlv,if_pos hcomp] at h havail ⊢
  have hcontent:=h.content
  have hlength : ((Tlv.mk mode desc.type.val desc.inst [] (sub desc.children v.sub)).elemAt
      pos).length=(allBytes (sub desc.children v.sub)).length := by
    rw [← content_eq hne]
    rfl
  rw [content_eq hne] at hcontent
  change nodes (sub desc.children v.sub)≤avail at havail
  rw [nodes_eq] at havail
  obtain ⟨s,hs,hagree⟩ := hparse _ _ hcontent (Nat.le_sub_of_add_le' havail)
  refine ⟨{ v' with sub := s,presence := true },?_,rfl,?_⟩
  · unfold parseField
    rw [if_pos hcomp,hlength,parseBlock_eq hcontent hne hfits (by omega)]
    show Except.bind (parse desc.children _ v'.sub _) _=_
    rw [hs,Nat.sub_sub,← nodes_eq]
    rfl
  · unfold SlotAgrees
    rw [hcomp]
    exact hagree

end Compound

theorem fits_of_ok {mode : TlvMode} (n : Nat) {descs : List TlvDesc} {m : Msg n}
    (h : Ok mode n descs m) : ∀ t∈msgTlvs mode n descs m,t.Fits mode := by
  cases n with
  | zero => exact h.elim
  | succ n =>
    intro t ht
    obtain ⟨f,hf,rfl⟩ := List.mem_map.mp ht
    obtain ⟨hmem,hp⟩ := mem_filter.mp hf
    exact h.fits f hmem hp

theorem tlvParseCompound_eq {data : List Byte} {mode : TlvMode} (n : Nat) {descs : List TlvDesc}
    {m w : Msg n} {pos avail : Nat} (hok : Ok mode n descs m) (hclear : Clear n descs w)
    (h : At data pos (allBytes (msgTlvs mode n descs m)))
    (havail : deeper (msgTlvs mode n descs m)≤avail) :
    ∃ w',tlvParseCompound data mode n descs (elemsAt pos (msgTlvs mode n descs m)) w avail =
        .ok (w',avail-deeper (msgTlvs mode n descs m)) ∧ Agrees n descs m w' := by
  induction n generalizing descs pos avail with
  | zero => exact hok.elim
  | succ n ih =>
    have hcost : total (fun f => nodes (slotTlv (msgTlvs mode n) mode f.desc (at' m f)).embedded)
        (present m (slots descs))=deeper (msgTlvs mode (n+1) descs m) := by
      unfold total deeper msgTlvs
      rw [List.map_map]
      rfl
    have hes:=forall₂_elemsAt (R := Reads (parseField (tlvParseCompound data mode n) data mode)
      (fun desc v => desc.ctype = .compound → Clear n desc.children v.sub)
      (SlotAgrees (Agrees n))
      (fun f => nodes (slotTlv (msgTlvs mode n) mode f.desc (at' m f)).embedded) m)
      (present m (slots descs)) h ?_
    · rw [← hcost] at havail ⊢
      exact parseElems_eq hok.tree hclear hok.filled hok.earlier hes havail
    · intro f hf pos hat
      obtain ⟨hmem,hp⟩ := mem_filter.mp hf
      have hcontent:=hok.content f hmem hp
      refine ⟨key_elemAt,?_⟩
      intro v avail hblank hn
      by_cases hc : f.desc.ctype = .compound
      · rw [if_pos hc] at hcontent
        exact parseField_compound hc hcontent.1 (fits_of_ok n hcontent.2)
          (fun pos avail hat' hn' => ih hcontent.2 (hblank hc) hat' hn') hat hn
      · rw [if_neg hc] at hcontent
        exact parseField_leaf hc hcontent hat

def RoundTrips (desc : TlvDesc) (m w : Msg 9) (mode : TlvMode) (room avail avail' : Nat) : Prop :=
  ∃ bytes parsed,ogsTlvBuildMsg desc m mode room avail = .ok bytes ∧
    ogsTlvParseMsg w desc bytes mode avail' = .ok parsed ∧ Agrees 9 desc.children m parsed

section RoundTrip

variable {desc : TlvDesc} {m w : Msg 9} {mode : TlvMode} {room avail avail' : Nat}

/-- A message that is built and then parsed into a blank structure comes back. -/
theorem tlv_round_trip (hctype : desc.ctype = .message) (hok : Ok mode 9 desc.children m)
    (hne : msgTlvs mode 9 desc.children m≠[]) (hclear : Clear 9 desc.children w)
    (hroom : 16+calcLength (msgTlvs mode 9 desc.children m) ≤ room)
    (havail : nodes (msgTlvs mode 9 desc.children m)≤avail)
    (havail' : nodes (msgTlvs mode 9 desc.children m)≤avail') :
    RoundTrips desc m w mode room avail avail' := by
  have hchildren : desc.children≠[] := by
    intro hnil
    rw [hnil] at hne
    exact hne rfl
  have hempty : ¬ desc.children.isEmpty := by simpa using hchildren
  have hbuild : ogsTlvBuildMsg desc m mode room avail =
      .ok (allBytes (msgTlvs mode 9 desc.children m)) := by
    unfold ogsTlvBuildMsg
    rw [if_neg (by simpa using hctype),if_neg hempty,tlvAddCompound_eq 9 hok havail]
    show (if (msgTlvs mode 9 desc.children m).isEmpty then _ else _)=_
    rw [if_neg (by simpa using hne),if_neg (by omega),render_eq _ _ (Nat.le_refl _)]
    show (if _ then _ else _)=_
    rw [if_neg (by rw [length_allBytes]; simp)]
    rfl
  rw [nodes_eq] at havail'
  obtain ⟨parsed,hparsed,hagrees⟩ := tlvParseCompound_eq 9 hok hclear (At.self _)
    (Nat.le_sub_of_add_le' havail')
  refine ⟨_,parsed,hbuild,?_,hagrees⟩
  unfold ogsTlvParseMsg
  rw [if_neg (by simpa [hctype] using hchildren),
    parseBlock_eq (At.self _) hne (fits_of_ok 9 hok) (by omega)]
  show Except.bind (tlvParseCompound _ mode 9 desc.children _ w _) _=_
  rw [hparsed]
  rfl

end RoundTrip

instance (desc : TlvDesc) (m w : Msg 9) (mode : TlvMode) (room avail avail' : Nat) :
    Decidable (RoundTrips desc m w mode room avail avail') :=
  match hb : ogsTlvBuildMsg desc m mode room avail with
  | .error _ => isFalse fun ⟨_,_,h,_⟩ => nomatch hb.symm.trans h
  | .ok bytes =>
    match hp : ogsTlvParseMsg w desc bytes mode avail' with
    | .error _ => isFalse fun ⟨_,_,h,h',_⟩ => by
      cases hb.symm.trans h
      cases hp.symm.trans h'
    | .ok parsed => decidable_of_iff (Agrees 9 desc.children m parsed)
      ⟨fun h => ⟨bytes,parsed,hb,hp,h⟩,fun ⟨_,_,h,h',ha⟩ => by
        cases hb.symm.trans h
        cases hp.symm.trans h'
        exact ha⟩

/-! A message with a compound that is given twice, and one of the two with a string in it. -/

def blankMsg : (n : Nat) → Msg n
  | 0 => ()
  | n+1 => fun _ _ => ⟨false,0,[],blankMsg n⟩

def msgOf {n : Nat} (vs : List ((Nat × Nat) × Slot (Msg n))) : Msg (n+1) :=
  fun i j => (vs.lookup (i,j)).getD ⟨false,0,[],blankMsg n⟩

def intSlot {n : Nat} (num : BitVec 32) : Slot (Msg n) := ⟨true,num,[],blankMsg n⟩
def strSlot {n : Nat} (data : List Byte) : Slot (Msg n) := ⟨true,0,data,blankMsg n⟩
def subSlot {n : Nat} (vs : List ((Nat × Nat) × Slot (Msg n))) : Slot (Msg (n+1)) :=
  ⟨true,0,[],msgOf vs⟩

def message (children : List TlvDesc) : TlvDesc := .mk .message 0 0 0 children
def leaf (ctype : TlvType) (type length : Fin 65536) (inst : Byte) : TlvDesc :=
  .mk ctype type length inst []
def compound (type : Fin 65536) (children : List TlvDesc) : TlvDesc := .mk .compound type 0 0 children
def more (n : Fin 65536) : TlvDesc := .mk .more 0 n 0 []

def bearerDesc : TlvDesc :=
  message [leaf .uint32 1 4 0,leaf .uint24 2 3 0,
    compound 3 [leaf .uint8 4 1 0,leaf .varStr 5 0 0,leaf .null 6 0 0],more 3,leaf .uint8 2 1 0]

def bearers : Msg 9 :=
  msgOf [((1,0),intSlot 0x123456),((2,0),subSlot [((0,0),intSlot 7)]),
    ((2,1),subSlot [((1,0),strSlot [1,2,3]),((2,0),intSlot 0)]),((4,0),intSlot 9)]

theorem tlv_round_trip_bearers :
    Ok .t2L2 9 bearerDesc.children bearers ∧
      RoundTrips bearerDesc bearers (blankMsg 9) .t2L2 100 8 8 := by
  have hok : Ok .t2L2 9 bearerDesc.children bearers := by decide
  exact ⟨hok,tlv_round_trip rfl hok (by decide) (by decide) (by decide)
    (by decide) (by decide)⟩

/-! What does not come back: with enough memory, a message whose leaves fit the length field, whose
compounds have a present child and whose repetitions are a prefix. -/

section Plain

variable {S : Type}

structure PlainAt (mode : TlvMode) (sub : List TlvDesc → S → List Tlv)
    (plain : List TlvDesc → S → Prop) (descs : List TlvDesc) (m : Nat → Nat → Slot S) : Prop where
  filled : ∀ f∈slots descs,(at' m f).presence → ∀ j<f.rep,(m f.child j).presence
  content : ∀ f∈slots descs,(at' m f).presence →
    if f.desc.ctype = .compound then
      sub f.desc.children (at' m f).sub≠[] ∧ plain f.desc.children (at' m f).sub
    else (leafBytes f.desc (at' m f)).length<256^mode.lengthLen

instance decidablePlainAt (mode : TlvMode) (sub : List TlvDesc → S → List Tlv)
    (plain : List TlvDesc → S → Prop) [∀ ds s,Decidable (plain ds s)] (descs : List TlvDesc)
    (m : Nat → Nat → Slot S) : Decidable (PlainAt mode sub plain descs m) :=
  decidable_of_iff (
      (∀ f∈slots descs,(at' m f).presence → ∀ j<f.rep,(m f.child j).presence) ∧
      ∀ f∈slots descs,(at' m f).presence →
        if f.desc.ctype = .compound then
          sub f.desc.children (at' m f).sub≠[] ∧ plain f.desc.children (at' m f).sub
        else (leafBytes f.desc (at' m f)).length<256^mode.lengthLen)
    ⟨fun ⟨h₁,h₂⟩ => ⟨h₁,h₂⟩,fun h => ⟨h.filled,h.content⟩⟩

end Plain

def Plain (mode : TlvMode) : (n : Nat) → List TlvDesc → Msg n → Prop
  | 0, _, _ => True
  | n+1, descs, m => PlainAt mode (msgTlvs mode n) (Plain mode n) descs m

instance decidablePlain (mode : TlvMode) :
    (n : Nat) → (descs : List TlvDesc) → (m : Msg n) → Decidable (Plain mode n descs m)
  | 0, _, _ => isTrue trivial
  | n+1, descs, m =>
    haveI := decidablePlain mode n
    decidablePlainAt mode (msgTlvs mode n) (Plain mode n) descs m

def lost : List (TlvMode × TlvDesc × Msg 9) := [
  -- the first of two entries of one type and instance is absent
  (.t2L2,message [leaf .uint8 1 1 0,leaf .uint8 1 1 0],msgOf [((1,0),intSlot 5)]),
  -- an entry that repeats has another one of its type and instance behind it
  (.t2L2,message [leaf .uint8 1 1 0,more 1,leaf .uint8 1 1 0],
    msgOf [((0,0),intSlot 5),((2,0),intSlot 6)]),
  -- type, instance and length of a compound do not fit the header
  (.t1L2,message [leaf .uint8 256 1 0],msgOf [((0,0),intSlot 5)]),
  (.t2L2,message [leaf .uint8 1 1 1],msgOf [((0,0),intSlot 5)]),
  (.t1L2I1,message [leaf .uint8 1 1 16],msgOf [((0,0),intSlot 5)]),
  (.t1L1,message [compound 1 [leaf .varStr 1 0 0,leaf .varStr 2 0 0]],
    msgOf [((0,0),subSlot [((0,0),strSlot (.replicate 200 7)),
      ((1,0),strSlot (.replicate 200 8))])]),
  -- leaves: a number of more than 24 bits, strings of a length that is not theirs, no length field
  (.t2L2,message [leaf .uint24 1 3 0],msgOf [((0,0),intSlot 0x1000000)]),
  (.t2L2,message [leaf .varStr 1 0 0,leaf .uint8 2 1 0],
    msgOf [((0,0),strSlot []),((1,0),intSlot 5)]),
  (.t2L2,message [leaf .fixedStr 1 2 0],msgOf [((0,0),strSlot [1,2,3])]),
  (.t2L2,message [leaf .tvUint8 1 1 0],msgOf [((0,0),intSlot 5)]),
  -- nothing is present
  (.t2L2,message [leaf .uint8 1 1 0],msgOf []),
  -- a MORE entry comes first
  (.t2L2,message [more 1,leaf .uint8 1 1 0],msgOf [((1,0),intSlot 5)])]

set_option maxRecDepth 4000 in
theorem tlv_round_trip_lost : lost.length=12 ∧
    ∀ x∈lost,Plain x.1 9 x.2.1.children x.2.2 ∧
      ¬ RoundTrips x.2.1 x.2.2 (blankMsg 9) x.1 8192 512 512 := by
  decide

end OgsDp.Core
