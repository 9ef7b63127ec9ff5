import OgsDp.Core.TlvBlock
import OgsDp.Core.TlvMsg

/-!
# The slots of a message and the elements made of them (lib/core/ogs-tlv-msg.c)

The builder walks the descriptors and the parser the elements.
-/

namespace OgsDp.Core
open List

/-- A slot of a message: the child, the repetition of it and its descriptor. -/
structure Loc where
  child : Nat
  rep : Nat
  desc : TlvDesc

def childSlots (i k : Nat) (desc : TlvDesc) : List Loc := (List.range k).map fun j => ⟨i,j,desc⟩

def slotsFrom : Nat → List TlvDesc → List Loc
  | _, [] => []
  | i, [desc] => childSlots i 1 desc
  | i, desc::next::rest =>
    if next.ctype = .more then childSlots i next.length.val desc++slotsFrom (i+2) rest
    else childSlots i 1 desc++slotsFrom (i+1) (next::rest)

def slots (descs : List TlvDesc) : List Loc := slotsFrom 0 descs

section Fields

variable {S : Type}

def at' (m : Nat → Nat → Slot S) (f : Loc) : Slot S := m f.child f.rep

def present (m : Nat → Nat → Slot S) (fs : List Loc) : List Loc :=
  fs.filter fun f => (at' m f).presence

/-- The child `i` is an entry of its own, neither a MORE entry nor one that a MORE entry follows. -/
def Single (descs : List TlvDesc) (i : Nat) : Prop :=
  (∀ d∈descs[i]?,d.ctype ≠ .more) ∧ ∀ d∈descs[i+1]?,d.ctype ≠ .more

def Slot.IntFits (v : Slot S) (width : Nat) : Prop := v.num.toNat<256^width

def LeafFits (desc : TlvDesc) (v : Slot S) : Prop :=
  match desc.ctype with
  | .uint8 | .int8 => v.IntFits 1
  | .uint16 | .int16 => v.IntFits 2
  | .uint24 | .int24 => v.IntFits 3
  | .uint32 | .int32 => True
  | .fixedStr => v.data.length=desc.length.val
  | .varStr => v.data≠[]
  | .null => True
  | _ => False

def leafBytes (desc : TlvDesc) (v : Slot S) : List Byte :=
  match desc.ctype with
  | .uint8 | .int8 => netBytes 1 v.num.toNat
  | .uint16 | .int16 => netBytes 2 v.num.toNat
  | .uint24 | .int24 => netBytes 3 v.num.toNat
  | .uint32 | .int32 => netBytes 4 v.num.toNat
  | .fixedStr | .varStr => v.data
  | _ => []

def slotTlv (sub : List TlvDesc → S → List Tlv) (mode : TlvMode) (desc : TlvDesc) (v : Slot S) :
    Tlv :=
  if desc.ctype = .compound then
    .mk mode desc.type.val desc.inst [] (sub desc.children v.sub)
  else .mk mode desc.type.val desc.inst (leafBytes desc v) []

/-- The slots hold the same as far as the descriptor says that they hold something. -/
def SlotAgrees (sub : List TlvDesc → S → S → Prop) (desc : TlvDesc) (v w : Slot S) : Prop :=
  match desc.ctype with
  | .fixedStr | .varStr => w.data=v.data
  | .null => True
  | .compound => sub desc.children v.sub w.sub
  | _ => w.num=v.num

end Fields

def msgTlvs (mode : TlvMode) : (n : Nat) → List TlvDesc → Msg n → List Tlv
  | 0, _, _ => []
  | n+1, descs, m =>
    (present m (slots descs)).map fun f => slotTlv (msgTlvs mode n) mode f.desc (at' m f)

/-- Behind an entry of type `prev` each MORE entry follows one that is none. -/
def MoreOk : Option TlvType → List TlvDesc → Prop
  | _, [] => True
  | prev, d::ds => (d.ctype = .more → prev≠none ∧ prev≠some .more) ∧ MoreOk (some d.ctype) ds

/-- The list of the children ends with a null pointer, and MORE entries follow others. -/
structure DescsOk (descs : List TlvDesc) : Prop where
  length_lt : descs.length<128
  more : MoreOk none descs

/-- The children before `i` of one type and instance are present and none of them repeats. -/
def Earlier {S : Type} (descs : List TlvDesc) (m : Nat → Nat → Slot S) (i : Nat)
    (key : Nat × Nat) : Prop :=
  ∀ i' < i,∀ d∈descs[i']?,d.key=key → Single descs i' ∧ (m i' 0).presence

section Levels

variable {S : Type}

/-- What one level of a message has to meet to be read back; `mode` is that of the message, `sub`
makes the elements of a compound and `ok` is asked of it. -/
structure OkAt (mode : TlvMode) (sub : List TlvDesc → S → List Tlv) (ok : List TlvDesc → S → Prop)
    (descs : List TlvDesc) (m : Nat → Nat → Slot S) : Prop where
  tree : DescsOk descs
  /-- The repetitions are a prefix of the room for them. -/
  filled : ∀ f∈slots descs,(at' m f).presence → ∀ j<f.rep,(m f.child j).presence
  fits : ∀ f∈slots descs,(at' m f).presence → (slotTlv sub mode f.desc (at' m f)).Fits mode
  earlier : ∀ f∈slots descs,(at' m f).presence → Earlier descs m f.child f.desc.key
  content : ∀ f∈slots descs,(at' m f).presence →
    if f.desc.ctype = .compound then
      sub f.desc.children (at' m f).sub≠[] ∧ ok f.desc.children (at' m f).sub
    else LeafFits f.desc (at' m f)

def Back (agree : TlvDesc → Slot S → Slot S → Prop) (m w : Nat → Nat → Slot S) (f : Loc) : Prop :=
  (at' w f).presence=(at' m f).presence ∧
    ((at' m f).presence → agree f.desc (at' m f) (at' w f))

def Blank (blank : TlvDesc → Slot S → Prop) (w : Nat → Nat → Slot S) (f : Loc) : Prop :=
  (at' w f).presence=false ∧ blank f.desc (at' w f)

end Levels

def Ok (mode : TlvMode) : (n : Nat) → List TlvDesc → Msg n → Prop
  | 0, _, _ => False
  | n+1, descs, m => OkAt mode (msgTlvs mode n) (Ok mode n) descs m

/-- Both messages have the same presence flags and, where they are set, the same contents. -/
def Agrees : (n : Nat) → List TlvDesc → Msg n → Msg n → Prop
  | 0, _, _, _ => True
  | n+1, descs, m, w => ∀ f∈slots descs,Back (SlotAgrees (Agrees n)) m w f

def Clear : (n : Nat) → List TlvDesc → Msg n → Prop
  | 0, _, _ => True
  | n+1, descs, w => ∀ f ∈ slots descs,
      Blank (fun desc v => desc.ctype = .compound → Clear n desc.children v.sub) w f

/-! The conditions are decidable. -/

section Decide

variable {S : Type} (mode : TlvMode) (descs : List TlvDesc) (desc : TlvDesc)
  (m w : Nat → Nat → Slot S)

instance (t : Tlv) : Decidable (t.Fits mode) :=
  decidable_of_iff (t.mode=mode ∧ t.type<256^mode.typeLen ∧
      t.content.length<256^mode.lengthLen ∧ t.inst.val<16^mode.instanceLen)
    ⟨fun ⟨h₁,h₂,h₃,h₄⟩ => ⟨h₁,h₂,h₃,h₄⟩,
      fun h => ⟨h.mode_eq,h.type_lt,h.length_lt,h.inst_lt⟩⟩

instance (v : Slot S) : Decidable (LeafFits desc v) := by
  unfold LeafFits Slot.IntFits
  split <;> infer_instance

instance decidableMoreOk : (prev : Option TlvType) → (ds : List TlvDesc) → Decidable (MoreOk prev ds)
  | _, [] => isTrue trivial
  | prev, d::ds =>
    haveI := decidableMoreOk (some d.ctype) ds
    inferInstanceAs
      (Decidable ((d.ctype = .more → prev≠none ∧ prev≠some .more) ∧ MoreOk (some d.ctype) ds))

instance : Decidable (DescsOk descs) :=
  decidable_of_iff (descs.length<128 ∧ MoreOk none descs)
    ⟨fun ⟨h₁,h₂⟩ => ⟨h₁,h₂⟩,fun h => ⟨h.length_lt,h.more⟩⟩

instance (i : Nat) : Decidable (Single descs i) := inferInstanceAs (Decidable (_ ∧ _))

instance (i : Nat) (key : Nat × Nat) : Decidable (Earlier descs m i key) :=
  inferInstanceAs (Decidable (∀ i' < i,∀ d∈descs[i']?,d.key=key →
    Single descs i' ∧ (m i' 0).presence))

instance decidableOkAt (sub : List TlvDesc → S → List Tlv) (ok : List TlvDesc → S → Prop)
    [∀ ds s,Decidable (ok ds s)] : Decidable (OkAt mode sub ok descs m) :=
  decidable_of_iff (DescsOk descs ∧
      (∀ f∈slots descs,(at' m f).presence → ∀ j<f.rep,(m f.child j).presence) ∧
      (∀ f∈slots descs,(at' m f).presence → (slotTlv sub mode f.desc (at' m f)).Fits mode) ∧
      (∀ f∈slots descs,(at' m f).presence → Earlier descs m f.child f.desc.key) ∧
      ∀ f∈slots descs,(at' m f).presence →
        if f.desc.ctype = .compound then
          sub f.desc.children (at' m f).sub≠[] ∧ ok f.desc.children (at' m f).sub
        else LeafFits f.desc (at' m f))
    ⟨fun ⟨h₁,h₂,h₃,h₄,h₅⟩ => ⟨h₁,h₂,h₃,h₄,h₅⟩,
      fun h => ⟨h.tree,h.filled,h.fits,h.earlier,h.content⟩⟩

instance decidableOk : (n : Nat) → (descs : List TlvDesc) → (m : Msg n) → Decidable (Ok mode n descs m)
  | 0, _, _ => isFalse id
  | n+1, descs, m =>
    haveI := decidableOk n
    decidableOkAt mode descs m (msgTlvs mode n) (Ok mode n)

instance decidableSlotAgrees (agree : List TlvDesc → S → S → Prop) [∀ ds s t,Decidable (agree ds s t)]
    (v w : Slot S) : Decidable (SlotAgrees agree desc v w) := by
  unfold SlotAgrees
  split <;> infer_instance

instance decidableAgrees :
    (n : Nat) → (descs : List TlvDesc) → (m w : Msg n) → Decidable (Agrees n descs m w)
  | 0, _, _, _ => isTrue trivial
  | n+1, descs, m, w =>
    haveI := decidableAgrees n
    inferInstanceAs (Decidable (∀ f∈slots descs,(at' w f).presence=(at' m f).presence ∧
      ((at' m f).presence → SlotAgrees (Agrees n) f.desc (at' m f) (at' w f))))

instance decidableClear : (n : Nat) → (descs : List TlvDesc) → (w : Msg n) → Decidable (Clear n descs w)
  | 0, _, _ => isTrue trivial
  | n+1, descs, w =>
    haveI := decidableClear n
    inferInstanceAs (Decidable (∀ f∈slots descs,(at' w f).presence=false ∧
      (f.desc.ctype = .compound → Clear n f.desc.children (at' w f).sub)))

end Decide

mutual

def Tlv.nodes : Tlv → Nat
  | .mk _ _ _ _ ts => nodes ts+1

def nodes : List Tlv → Nat
  | [] => 0
  | t::ts => t.nodes+nodes ts

end

theorem nodes_append (ts us : List Tlv) : nodes (ts++us)=nodes ts+nodes us := by
  induction ts with
  | nil => simp [nodes]
  | cons t ts ih =>
    rw [cons_append,nodes,nodes,ih]
    omega

section Build

variable {S : Type} {mode : TlvMode} {desc : TlvDesc} {avail : Nat}

def Makes (f : Nat → Except Stop (Tlv × Nat)) (t : Tlv) : Prop :=
  ∀ avail,t.nodes≤avail → f avail = .ok (t,avail-t.nodes)

theorem netBytes_take (n v : Nat) : (netBytes (n+1) v).take n=netBytes n (v / 256) := by
  unfold netBytes
  rw [hostBytes_succ,reverse_cons]
  have hlen : ((hostBytes n (v / 256)).reverse).length=n := length_netBytes n (v / 256)
  exact take_left' hlen

theorem uint24_bytes {x : BitVec 32} (h : x.toNat<256^3) :
    (netBytes 4 (x <<< 8).toNat).take 3=netBytes 3 x.toNat := by
  have hshift : (x <<< 8).toNat=x.toNat*256 := by
    rw [BitVec.toNat_shiftLeft,Nat.shiftLeft_eq]
    exact Nat.mod_eq_of_lt (by omega)
  rw [netBytes_take,hshift]
  congr 1
  omega

theorem leafValue_eq {v : Slot S} (h : LeafFits desc v) : leafValue desc v = .ok (leafBytes desc v) := by
  unfold LeafFits at h
  unfold leafValue leafBytes
  cases hc : desc.ctype <;> simp only [hc] at h ⊢
  case uint24 => rw [uint24_bytes h]
  case int24 => rw [uint24_bytes h]
  case fixedStr => rw [if_neg (by omega),← h,take_length]
  case varStr => rw [if_neg (by simpa using h)]

theorem addRepeats_eq {add : Slot S → Nat → Except Stop (Tlv × Nat)} {slots : Nat → Slot S}
    {tlv : Nat → Tlv} (k : Nat) {j : Nat}
    (hfilled : ∀ i,j ≤ i → (slots i).presence=false →
      ∀ i',i ≤ i' → i'<j+k → (slots i').presence=false)
    (hadd : ∀ i,j ≤ i → i<j+k → (slots i).presence → Makes (add (slots i)) (tlv i))
    (havail : nodes (((List.range' j k).filter fun i => (slots i).presence).map tlv)≤avail) :
    addRepeats add slots k j avail =
      .ok (((List.range' j k).filter fun i => (slots i).presence).map tlv,
        avail-nodes (((List.range' j k).filter fun i => (slots i).presence).map tlv)) := by
  induction k generalizing j avail with
  | zero => simp [addRepeats,nodes]
  | succ k ih =>
    rw [range'_succ] at havail ⊢
    rw [addRepeats]
    cases hp : (slots j).presence with
    | false =>
      have hnone : ((j::List.range' (j+1) k).filter fun i => (slots i).presence)=[] := by
        rw [filter_eq_nil_iff]
        intro i hi
        rw [mem_cons,mem_range'_1] at hi
        have habsent:=hfilled j (Nat.le_refl j) hp i (by omega) (by omega)
        rw [habsent]
        decide
      rw [if_neg (by simp),hnone]
      simp [nodes]
    | true =>
      simp only [filter_cons,hp,if_true,map_cons,nodes] at havail ⊢
      have hfirst:=hadd j (Nat.le_refl j) (by omega) hp avail (by omega)
      have hrest:=@ih (avail-(tlv j).nodes) (j+1)
        (fun i hi hf i' hi' hk => hfilled i (by omega) hf i' hi' (by omega))
        (fun i hi hk => hadd i (by omega) (by omega)) (by omega)
      rw [hfirst]
      show Except.bind (addRepeats add slots k (j+1) (avail-(tlv j).nodes)) _=_
      rw [hrest]
      show Except.ok _=_
      rw [Nat.sub_sub]

theorem addRepeats_child {add : TlvDesc → Slot S → Nat → Except Stop (Tlv × Nat)}
    {m : Nat → Nat → Slot S} {tlv : Loc → Tlv} {i k : Nat}
    (hfilled : ∀ f∈childSlots i k desc,(at' m f).presence → ∀ j<f.rep,(m f.child j).presence)
    (hadd : ∀ f∈childSlots i k desc,(at' m f).presence → Makes (add f.desc (at' m f)) (tlv f))
    (havail : nodes ((present m (childSlots i k desc)).map tlv)≤avail) :
    addRepeats (add desc) (m i) k 0 avail =
      .ok ((present m (childSlots i k desc)).map tlv,
        avail-nodes ((present m (childSlots i k desc)).map tlv)) := by
  have hmem : ∀ j<k,(⟨i,j,desc⟩ : Loc)∈childSlots i k desc := fun j hj =>
    List.mem_map.mpr ⟨j,mem_range.mpr hj,rfl⟩
  have hmap : (present m (childSlots i k desc)).map tlv =
      ((List.range' 0 k).filter fun j => (m i j).presence).map fun j => tlv ⟨i,j,desc⟩ := by
    rw [present,childSlots,List.filter_map,List.map_map,range_eq_range']
    rfl
  rw [hmap] at havail ⊢
  apply addRepeats_eq k _ _ havail
  · intro j _ hj j' hle hlt
    by_contra hne
    rcases Nat.lt_or_eq_of_le hle with hlt' | rfl
    · have hpres' : (m i j').presence=true := by simpa using hne
      have hpres:=hfilled _ (hmem j' (by omega)) hpres' j hlt'
      rw [hj] at hpres
      cases hpres
    · exact hne hj
  · intro j _ hlt
    exact hadd _ (hmem j (by omega))

theorem add_append {m : Nat → Nat → Slot S} {tlv : Loc → Tlv} {a b : List Loc}
    {x y : Nat → Except Stop (List Tlv × Nat)}
    (hx : nodes ((present m a).map tlv)≤avail →
      x avail = .ok ((present m a).map tlv,avail-nodes ((present m a).map tlv)))
    (hy : ∀ n,nodes ((present m b).map tlv)≤n →
      y n = .ok ((present m b).map tlv,n-nodes ((present m b).map tlv)))
    (havail : nodes ((present m (a++b)).map tlv)≤avail) :
    ((x avail).bind fun p => (y p.2).bind fun q => .ok (p.1++q.1,q.2)) =
      .ok ((present m (a++b)).map tlv,avail-nodes ((present m (a++b)).map tlv)) := by
  have hjoin : (present m (a++b)).map tlv=(present m a).map tlv++(present m b).map tlv := by
    rw [present,filter_append,map_append]
    rfl
  rw [hjoin,nodes_append] at havail ⊢
  rw [hx (by omega)]
  show Except.bind (y (avail-nodes ((present m a).map tlv))) _=_
  rw [hy _ (by omega),Nat.sub_sub]
  rfl

theorem addChildren_eq {add : TlvDesc → Slot S → Nat → Except Stop (Tlv × Nat)}
    {m : Nat → Nat → Slot S} {tlv : Loc → Tlv} (i : Nat) (descs : List TlvDesc)
    (hfilled : ∀ f∈slotsFrom i descs,(at' m f).presence → ∀ j<f.rep,(m f.child j).presence)
    (hadd : ∀ f∈slotsFrom i descs,(at' m f).presence → Makes (add f.desc (at' m f)) (tlv f))
    (havail : nodes ((present m (slotsFrom i descs)).map tlv)≤avail) :
    addChildren add m i descs avail =
      .ok ((present m (slotsFrom i descs)).map tlv,
        avail-nodes ((present m (slotsFrom i descs)).map tlv)) := by
  induction i, descs using slotsFrom.induct generalizing avail with
  | case1 i => rfl
  | case2 i desc => exact addRepeats_child hfilled hadd havail
  | case3 i desc next rest hmore ih =>
    simp only [slotsFrom,if_pos hmore,mem_append] at hfilled hadd havail ⊢
    rw [addChildren,if_pos hmore]
    exact add_append
      (addRepeats_child (fun f hf => hfilled f (.inl hf)) fun f hf => hadd f (.inl hf))
      (fun n => ih (fun f hf => hfilled f (.inr hf)) fun f hf => hadd f (.inr hf)) havail
  | case4 i desc next rest hmore ih =>
    simp only [slotsFrom,if_neg hmore,mem_append] at hfilled hadd havail ⊢
    rw [addChildren,if_neg hmore]
    exact add_append
      (addRepeats_child (fun f hf => hfilled f (.inl hf)) fun f hf => hadd f (.inl hf))
      (fun n => ih (fun f hf => hfilled f (.inr hf)) fun f hf => hadd f (.inr hf)) havail

theorem addField_leaf {sub : List TlvDesc → S → Nat → Except Stop (List Tlv × Nat)}
    {sub' : List TlvDesc → S → List Tlv} {v : Slot S} (hleaf : desc.ctype ≠ .compound)
    (h : LeafFits desc v) : Makes (addField sub mode desc v) (slotTlv sub' mode desc v) := by
  intro avail havail
  have hmode : tlvCtype2mode desc.ctype mode=mode := by
    unfold LeafFits at h
    cases hc : desc.ctype <;> simp only [hc] at h <;> rfl
  simp only [slotTlv,if_neg hleaf,Tlv.nodes,nodes] at havail ⊢
  rw [addField,if_neg hleaf,leafValue_eq h,hmode]
  show Except.bind (ogsTlvGet avail) _=_
  rw [ogsTlvGet,if_neg (by omega)]
  rfl

theorem addField_compound {sub : List TlvDesc → S → Nat → Except Stop (List Tlv × Nat)}
    {sub' : List TlvDesc → S → List Tlv} {v : Slot S} (hcomp : desc.ctype = .compound)
    (hne : sub' desc.children v.sub≠[])
    (hsub : ∀ avail,nodes (sub' desc.children v.sub)≤avail →
      sub desc.children v.sub avail =
        .ok (sub' desc.children v.sub,avail-nodes (sub' desc.children v.sub))) :
    Makes (addField sub mode desc v) (slotTlv sub' mode desc v) := by
  intro avail havail
  simp only [slotTlv,if_pos hcomp,Tlv.nodes] at havail ⊢
  rw [addField,if_pos hcomp,ogsTlvGet,if_neg (by omega)]
  show Except.bind (sub desc.children v.sub (avail-1)) _=_
  rw [hsub _ (by omega),hcomp]
  show (if (sub' desc.children v.sub).isEmpty then _ else _)=_
  rw [if_neg (by simpa using hne),Nat.sub_sub,Nat.add_comm]
  rfl

end Build

theorem tlvAddCompound_eq {mode : TlvMode} (n : Nat) {descs : List TlvDesc} {m : Msg n} {avail : Nat}
    (h : Ok mode n descs m) (havail : nodes (msgTlvs mode n descs m)≤avail) :
    tlvAddCompound mode n descs m avail =
      .ok (msgTlvs mode n descs m,avail-nodes (msgTlvs mode n descs m)) := by
  induction n generalizing descs avail with
  | zero => exact h.elim
  | succ n ih =>
    refine addChildren_eq 0 descs h.filled ?_ havail
    intro f hf hp
    have hcontent:=h.content f hf hp
    by_cases hc : f.desc.ctype = .compound
    · rw [if_pos hc] at hcontent
      exact addField_compound hc hcontent.1 fun avail hn => ih hcontent.2 hn
    · rw [if_neg hc] at hcontent
      exact addField_leaf hc hcontent

end OgsDp.Core
