import OgsDp.Core.Pkbuf

/-!
# GTP-U headers (lib/gtp/util.c, lib/gtp/v2/message.h, lib/gtp/v2/types.h)

The header proper has eight octets.
-/

namespace OgsDp.Gtp
open OgsDp.Core List Option

structure HeaderDesc where
  type : Byte
  flags : Byte
  teid : BitVec 32
  qosFlowIdentifier : Byte
  pduType : Byte
  udp : Option (BitVec 16)
  pdcpNumber : Option (BitVec 16)
  deriving DecidableEq

def octet (d : List Byte) (i : Nat) : Byte := (d[i]?).getD 0

def field (d : List Byte) (i n : Nat) : Nat := netValue ((d.drop i).take n)

def echoReq : Byte := 1
def echoRsp : Byte := 2
def gpdu : Byte := 255

/-- A header as `ogs_gtp2_header_t` lays it out, with `sqn` zero: twelve octets. -/
def header (flags type : Byte) (length : Nat) (teid : BitVec 32) : List Byte :=
  [flags,type]++netBytes 2 length++netBytes 4 teid.toNat++List.replicate 4 0

def HeaderDesc.extend (h : HeaderDesc) (ext : List Byte) : HeaderDesc :=
  match (octet ext 0).val with
  | 0x85 =>
    let pduType : Byte := Fin.ofNat 256 ((octet ext 2).val / 16)
    if pduType=1 then
      { h with
        pduType := pduType
        qosFlowIdentifier := Fin.ofNat 256 ((octet ext 3).val % 64) }
    else { h with pduType := pduType }
  | 0x40 => { h with udp := some (BitVec.ofNat 16 (field ext 2 2)) }
  | 0xc0 => { h with pdcpNumber := some (BitVec.ofNat 16 (field ext 2 2)) }
  | _ => h

/-- The extension headers behind the first `len` octets; `room` of them may still come. -/
def extensions (d : List Byte) : Nat → Nat → HeaderDesc → Option (Nat × HeaderDesc)
  | 0, _, _ => none
  | room+1, len, h =>
    if octet d (len-1)=0 then some (len,h)
    else
      let n:=(octet d len).val
      if n=0 ∨ 4<n*4 ∨ d.length<len+n*4 then none
      else extensions d room (len+n*4) (h.extend ((d.drop (len-1)).take 4))

def gtpuParseHeader (d : List Byte) : Option (Nat × HeaderDesc) :=
  let flags:=(octet d 0).val
  let h : HeaderDesc :=
    ⟨octet d 1,octet d 0,BitVec.ofNat 32 (field d 4 4),0,0,none,none⟩
  if d.length<8 then none
  else if flags.testBit 2 then
    if d.length<12 then none else extensions d 8 12 h
  else if flags.testBit 1 || flags.testBit 0 then
    if d.length<12 then none else some (12,h)
  else some (8,h)

variable {d : List Byte} {room len len' : Nat} {h h' : HeaderDesc}

theorem extend_start (h : HeaderDesc) (ext : List Byte) :
    (h.extend ext).type=h.type ∧ (h.extend ext).teid=h.teid := by
  unfold HeaderDesc.extend
  split
  · simp only
    split <;> exact ⟨rfl,rfl⟩
  · exact ⟨rfl,rfl⟩
  · exact ⟨rfl,rfl⟩
  · exact ⟨rfl,rfl⟩

theorem extensions_start (hp : extensions d room len h=some (len',h')) :
    len≤len' ∧ h'.type=h.type ∧ h'.teid=h.teid := by
  induction room generalizing len h with
  | zero => cases hp
  | succ room ih =>
    unfold extensions at hp
    split at hp
    · obtain ⟨rfl,rfl⟩ := Prod.mk.inj (some.inj hp)
      exact ⟨Nat.le_refl _,rfl,rfl⟩
    · simp only at hp
      split at hp
      · cases hp
      · obtain ⟨hlen,htype,hteid⟩ := ih hp
        obtain ⟨htype',hteid'⟩ := extend_start h ((d.drop (len-1)).take 4)
        exact ⟨by omega,htype.trans htype',hteid.trans hteid'⟩

theorem gtpuParseHeader_start (hp : gtpuParseHeader d=some (len,h)) :
    8≤d.length ∧ (len=8 ∨ 12≤len) ∧ h.type=octet d 1 ∧
      h.teid=BitVec.ofNat 32 (field d 4 4) := by
  unfold gtpuParseHeader at hp
  simp only at hp
  split at hp
  · cases hp
  · rename_i hlong
    refine ⟨by omega,?_⟩
    split at hp
    · split at hp
      · cases hp
      · obtain ⟨hlen,htype,hteid⟩ := extensions_start hp
        exact ⟨.inr hlen,htype,hteid⟩
    · split at hp
      · split at hp
        · cases hp
        · obtain ⟨rfl,rfl⟩ := Prod.mk.inj (some.inj hp)
          exact ⟨.inr (Nat.le_refl _),rfl,rfl⟩
      · obtain ⟨rfl,rfl⟩ := Prod.mk.inj (some.inj hp)
        exact ⟨.inl rfl,rfl,rfl⟩

@[simp] theorem length_header (flags type : Byte) (length : Nat) (teid : BitVec 32) :
    (header flags type length teid).length=12 := by
  simp [header]

theorem field_length (flags type : Byte) (length : Nat) (teid : BitVec 32) (payload : List Byte) :
    field (header flags type length teid++payload) 2 2=length % 65536 := by
  have htake : ((header flags type length teid++payload).drop 2).take 2=netBytes 2 length := by
    simp only [header,append_assoc,cons_append,nil_append,drop_succ_cons,
      drop_zero]
    exact take_left' (length_netBytes 2 length)
  rw [field,htake,netValue_netBytes]
  rfl

theorem field_start (flags type : Byte) (length : Nat) (teid : BitVec 32) (rest : List Byte) :
    BitVec.ofNat 32 (field ([flags,type]++netBytes 2 length++netBytes 4 teid.toNat++rest)
      4 4)=teid := by
  have htake : (([flags,type]++netBytes 2 length++netBytes 4 teid.toNat++rest).drop 4).take
      4=netBytes 4 teid.toNat := by
    have hhead : ([flags,type]++netBytes 2 length).length=4 := by simp
    rw [append_assoc,drop_left' hhead]
    exact take_left' (length_netBytes 4 teid.toNat)
  rw [field,htake,netValue_netBytes]
  apply BitVec.eq_of_toNat_eq
  rw [BitVec.toNat_ofNat]
  omega

theorem field_teid (flags type : Byte) (length : Nat) (teid : BitVec 32) (payload : List Byte) :
    BitVec.ofNat 32 (field (header flags type length teid++payload) 4 4)=teid := by
  rw [header,append_assoc]
  exact field_start flags type length teid _

theorem drop_header (flags type : Byte) (length : Nat) (teid : BitVec 32) (payload : List Byte) :
    (header flags type length teid++payload).drop 8=List.replicate 4 0++payload := by
  have hhead : ([flags,type]++netBytes 2 length++netBytes 4 teid.toNat).length=8 := by
    simp
  rw [header,append_assoc]
  exact drop_left' hhead

theorem gtpuParseHeader_header (type : Byte) (length : Nat) (teid : BitVec 32)
    (payload : List Byte) :
    gtpuParseHeader (header 0 type length teid++payload) =
      some (8,⟨type,0,teid,0,0,none,none⟩) := by
  have hlong : ¬ (header 0 type length teid++payload).length<8 := by
    rw [length_append,length_header]
    omega
  have hflags : octet (header 0 type length teid++payload) 0=0 := rfl
  have htype : octet (header 0 type length teid++payload) 1=type := rfl
  unfold gtpuParseHeader
  simp only [hflags,htype,field_teid,if_neg hlong]
  rfl

end OgsDp.Gtp
