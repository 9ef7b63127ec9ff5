import OgsDp.Core.Tlv

/-!
# Blocks of elements are read as they were rendered (lib/core/ogs-tlv.c)

An element is read back from where it lies in a packet if its type, its length and its instance
fit the fields of the mode.
-/

namespace OgsDp.Core
open List

mutual

def Tlv.bytes : Tlv → List Byte
  | .mk mode type inst value [] => putHeader mode type value.length inst++value
  | .mk mode type inst _ (t::ts) =>
    putHeader mode type (t.bytes++allBytes ts).length inst++(t.bytes++allBytes ts)

def allBytes : List Tlv → List Byte
  | [] => []
  | t::ts => t.bytes++allBytes ts

end

namespace Tlv

def mode : Tlv → TlvMode
  | mk m _ _ _ _ => m

def type : Tlv → Nat
  | mk _ t _ _ _ => t

def inst : Tlv → Byte
  | mk _ _ i _ _ => i

def embedded : Tlv → List Tlv
  | mk _ _ _ _ ts => ts

def content : Tlv → List Byte
  | mk _ _ _ value [] => value
  | mk _ _ _ _ (t::ts) => allBytes (t::ts)

theorem bytes_eq (t : Tlv) :
    t.bytes=putHeader t.mode t.type t.content.length t.inst++t.content := by
  obtain ⟨mode,type,inst,value,_ | ⟨t,ts⟩⟩ := t
  · rw [Tlv.bytes]
    rfl
  · rw [Tlv.bytes]
    simp only [content,allBytes]
    rfl

end Tlv

mutual

theorem Tlv.length_bytes : ∀ t : Tlv, t.bytes.length=t.calcLength
  | .mk mode type inst value [] => by
    simp [Tlv.bytes,Tlv.calcLength]
  | .mk mode type inst value (t::ts) => by
    have ht:=Tlv.length_bytes t
    have hts:=length_allBytes ts
    simp only [Tlv.bytes,Tlv.calcLength,length_append,length_putHeader,ht,hts]

theorem length_allBytes : ∀ ts : List Tlv, (allBytes ts).length=calcLength ts
  | [] => rfl
  | t::ts => by
    have ht:=Tlv.length_bytes t
    have hts:=length_allBytes ts
    simp only [allBytes,calcLength,length_append,ht,hts]

end

mutual

theorem Tlv.render_eq : ∀ (t : Tlv) (room : Nat),t.calcLength ≤ room → t.render room = .ok t.bytes
  | .mk mode type inst value [], room, h => by
    simp only [Tlv.calcLength] at h
    rw [Tlv.render,if_neg (by omega),Tlv.bytes]
  | .mk mode type inst value (t::ts), room, h => by
    simp only [Tlv.calcLength] at h
    have ht:=Tlv.render_eq t (room-mode.headerLen) (by omega)
    have hts:=render_eq ts (room-mode.headerLen-t.bytes.length) (by
      rw [Tlv.length_bytes]
      omega)
    have hlen : calcLength (t::ts)=(t.bytes++allBytes ts).length := by
      rw [length_append,Tlv.length_bytes,length_allBytes,calcLength]
    rw [Tlv.render,ht]
    show (do let rest ← Core.render (room-mode.headerLen-t.bytes.length) ts; _)=_
    rw [hts,Tlv.bytes,hlen]
    rfl

theorem render_eq : ∀ (ts : List Tlv) (room : Nat),calcLength ts ≤ room →
    render room ts = .ok (allBytes ts)
  | [], _, _ => rfl
  | t::ts, room, h => by
    simp only [calcLength] at h
    have ht:=Tlv.render_eq t room (by omega)
    have hts:=render_eq ts (room-t.bytes.length) (by
      rw [Tlv.length_bytes]
      omega)
    rw [render,ht]
    show (do let rest ← render (room-t.bytes.length) ts; _)=_
    rw [hts,allBytes]
    rfl

end

def At (data : List Byte) (pos : Nat) (bs : List Byte) : Prop :=
  ∃ pre post,data=pre++bs++post ∧ pre.length=pos

namespace At

variable {data bs bs' : List Byte} {pos : Nat}

theorem self (data : List Byte) : At data 0 data := ⟨[],[],by simp,rfl⟩

theorem of_eq (h : data=bs) : At data 0 bs := h ▸ self data

theorem left (h : At data pos (bs++bs')) : At data pos bs := by
  obtain ⟨pre,post,hd,hp⟩ := h
  exact ⟨pre,bs'++post,by rw [hd]; simp,hp⟩

theorem right (h : At data pos (bs++bs')) : At data (pos+bs.length) bs' := by
  obtain ⟨pre,post,hd,hp⟩ := h
  exact ⟨pre++bs,post,by rw [hd]; simp,by rw [length_append,hp]⟩

theorem le (h : At data pos bs) : pos+bs.length≤data.length := by
  obtain ⟨pre,post,hd,hp⟩ := h
  rw [hd]
  simp only [length_append]
  omega

theorem slice (h : At data pos bs) : (data.drop pos).take bs.length=bs := by
  obtain ⟨pre,post,rfl,rfl⟩ := h
  simp

theorem readNet (h : At data pos bs) : readNet data pos bs.length = .ok (netValue bs) := by
  unfold Core.readNet
  rw [if_pos h.le,h.slice]

theorem readNet_netBytes {n v : Nat} (h : At data pos (netBytes n v)) (hv : v<256^n) :
    Core.readNet data pos n = .ok v := by
  have hr:=h.readNet
  rwa [length_netBytes,netValue_netBytes,Nat.mod_eq_of_lt hv] at hr

end At

/-- Type, length and instance fit the fields that `mode` has for them. -/
structure Tlv.Fits (mode : TlvMode) (t : Tlv) : Prop where
  mode_eq : t.mode=mode
  type_lt : t.type<256^mode.typeLen
  length_lt : t.content.length<256^mode.lengthLen
  inst_lt : t.inst.val<16^mode.instanceLen

def Tlv.elemAt (t : Tlv) (pos : Nat) : Elem :=
  ⟨t.type,t.content.length,t.inst.val,pos+t.mode.headerLen⟩

def elemsAt : Nat → List Tlv → List Elem
  | _, [] => []
  | pos, t::ts => t.elemAt pos::elemsAt (pos+t.bytes.length) ts

section Read

variable {data : List Byte} {mode : TlvMode} {pos blk length avail : Nat} {t : Tlv} {ts : List Tlv}

theorem Tlv.elemAt_next (t : Tlv) (pos : Nat) : (t.elemAt pos).next=pos+t.bytes.length := by
  rw [t.bytes_eq]
  simp only [Elem.next,elemAt,length_append,length_putHeader]
  omega

theorem At.content (h : At data pos t.bytes) : At data (t.elemAt pos).value t.content := by
  rw [t.bytes_eq] at h
  have hr:=h.right
  rwa [length_putHeader] at hr

theorem tlvGetElement_eq (h : At data pos t.bytes) (ht : t.Fits mode) :
    tlvGetElement data mode pos = .ok (t.elemAt pos) := by
  rw [t.bytes_eq,putHeader,ht.mode_eq] at h
  have htype:=h.left.left.left.readNet_netBytes ht.type_lt
  have hlength:=h.left.left.right.readNet_netBytes ht.length_lt
  have hinst:=h.left.right.readNet
  rw [length_netBytes] at hlength
  rw [length_netBytes,length_append,length_netBytes,length_netBytes,netValue_netBytes,
    ← Nat.add_assoc] at hinst
  have hmod : t.inst.val % 256^mode.instanceLen % 16=t.inst.val := by
    have hlt:=ht.inst_lt
    have hbyte:=t.inst.isLt
    cases mode <;> simp only [TlvMode.instanceLen,Nat.pow_zero,Nat.pow_one] at hlt ⊢ <;> omega
  unfold tlvGetElement
  rw [htype]
  show (do let length ← readNet data (pos+mode.typeLen) mode.lengthLen; _)=_
  rw [hlength]
  show (do let inst ← readNet data (pos+mode.typeLen+mode.lengthLen) mode.instanceLen; _)=_
  rw [hinst]
  show Except.ok _=_
  rw [hmod,Tlv.elemAt,ht.mode_eq]

theorem getElements_last {get : Nat → Except Stop Elem} {e : Elem} (he : get pos = .ok e)
    (havail : 0<avail) (hlast : ¬ e.next-blk<length) (fuel : Nat) :
    getElements get blk length (fuel+1) pos avail = .ok ([e],e.next,avail-1) := by
  rw [getElements,ogsTlvGet,if_neg (by omega)]
  show (do let e ← get pos; _)=_
  rw [he]
  exact if_neg hlast

theorem getElements_more {get : Nat → Except Stop Elem} {e : Elem} (he : get pos = .ok e)
    (havail : 0<avail) (hmore : e.next-blk<length) (fuel : Nat) :
    getElements get blk length (fuel+1) pos avail =
      (getElements get blk length fuel e.next (avail-1)).map fun a => (e::a.1,a.2) := by
  rw [getElements,ogsTlvGet,if_neg (by omega)]
  show (do let e ← get pos; _)=_
  rw [he]
  refine (if_pos hmore).trans ?_
  cases getElements get blk length fuel e.next (avail-1) <;> rfl

theorem getElements_eq (h : At data pos (allBytes (t::ts))) (hfits : ∀ t'∈t::ts,t'.Fits mode)
    (hblk : blk≤pos) (hend : blk+length=pos+(allBytes (t::ts)).length) {fuel : Nat}
    (hfuel : ts.length<fuel) (havail : ts.length<avail) :
    getElements (tlvGetElement data mode) blk length fuel pos avail =
      .ok (elemsAt pos (t::ts),blk+length,avail-(ts.length+1)) := by
  induction ts generalizing t pos fuel avail with
  | nil =>
    obtain ⟨fuel,rfl⟩ : ∃ k,fuel=k+1 := ⟨fuel-1,by omega⟩
    have ht:=tlvGetElement_eq h.left (hfits t (mem_cons_self ..))
    have hnext:=t.elemAt_next pos
    simp only [allBytes,append_nil] at hend
    rw [getElements_last ht (by omega) (by omega),hnext,hend]
    rfl
  | cons t' ts ih =>
    obtain ⟨fuel,rfl⟩ : ∃ k,fuel=k+1 := ⟨fuel-1,by omega⟩
    simp only [length_cons] at hfuel havail
    have ht:=tlvGetElement_eq h.left (hfits t (mem_cons_self ..))
    have hnext:=t.elemAt_next pos
    have hlen : (allBytes (t::t'::ts)).length =
        t.bytes.length+(allBytes (t'::ts)).length := by
      rw [allBytes,length_append]
    have hpos : 0<(allBytes (t'::ts)).length := by
      rw [allBytes,t'.bytes_eq]
      simp only [length_append,length_putHeader]
      have hhead:=t'.mode.headerLen_pos
      omega
    rw [getElements_more ht (by omega) (by omega),hnext]
    have hrest:=@ih (pos+t.bytes.length) (avail-1) t'
      h.right (fun u hu => hfits u (mem_cons_of_mem _ hu)) (by omega) (by omega) fuel (by omega)
      (by omega)
    rw [hrest]
    simp only [Except.map,elemsAt,length_cons]
    congr 3
    omega

theorem length_le_allBytes (ts : List Tlv) : ts.length≤(allBytes ts).length := by
  induction ts with
  | nil => exact Nat.zero_le _
  | cons t ts ih =>
    have hhead:=t.mode.headerLen_pos
    rw [allBytes,t.bytes_eq]
    simp only [length_cons,length_append,length_putHeader]
    omega

theorem parseBlock_eq (h : At data blk (allBytes ts)) (hts : ts≠[])
    (hfits : ∀ t∈ts,t.Fits mode) (havail : ts.length≤avail) :
    ogsTlvParseBlock data mode blk (allBytes ts).length avail =
      .ok (elemsAt blk ts,avail-ts.length) := by
  obtain ⟨t,ts,rfl⟩ := exists_cons_of_ne_nil hts
  have hle:=length_le_allBytes (t::ts)
  simp only [length_cons] at hle havail
  have hget:=getElements_eq h hfits (Nat.le_refl blk) rfl
    (Nat.lt_succ_of_lt (Nat.lt_of_succ_le hle)) (Nat.lt_of_succ_le havail)
  unfold ogsTlvParseBlock parseElements
  rw [hget]
  show (if _ then _ else _)=_
  rw [if_neg (by omega)]
  rfl

end Read

end OgsDp.Core
