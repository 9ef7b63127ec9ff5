import OgsDp.Core.Octets
import OgsDp.Lib.Writes
import OgsDp.Smf.PcoAnswer

/-!
# The PCO codec (lib/proto/types.c)

`ogs_pco_parse` leaves the octets of a container where they are and returns a pointer to them,
here an offset into the input.
-/

namespace OgsDp.Proto
open Lib OgsDp.Core Smf List

/-- `ogs_pco_t`; `α` is a container of the array `ids`. -/
structure Pco (α : Type) where
  ext : Bool
  spare : BitVec 4
  configurationProtocol : BitVec 3
  ids : List α
  deriving DecidableEq

/-- `ogs_pco_id_t` behind the parser: `data` is an offset into what was parsed. -/
structure PcoSpan where
  id : BitVec 16
  len : Byte
  data : Nat
  deriving DecidableEq

def pcoOctet (ext : Bool) (spare : BitVec 4) (configurationProtocol : BitVec 3) : Byte :=
  Fin.ofNat 256 (ext.toNat*128+spare.toNat*8+configurationProtocol.toNat)

def octetExt (b : Byte) : Bool := b.val.testBit 7
def octetProtocol (b : Byte) : BitVec 3 := BitVec.ofNat 3 b.val

def parseSpans (octets : List Byte) : Nat → Nat → Except Fault (List PcoSpan × Nat)
  | 0, size => .ok ([],size)
  | room+1, size =>
    if size<octets.length then
      if size+2≤octets.length then do
        let id ← octetsAt octets size 2
        if size+2+1≤octets.length then do
          let len ← octetAt octets (size+2)
          let r ← parseSpans octets room (size+3+len.val)
          .ok (⟨BitVec.ofNat 16 (netValue id),len,size+3⟩::r.1,r.2)
        else .error .assertion
      else .error .assertion
    else .ok ([],size)

def ogsPcoParse (octets : List Byte) : Except Fault (Pco PcoSpan) :=
  if octets.length=0 then .error .assertion
  else do
    let first ← octetAt octets 0
    let r ← parseSpans octets maxNumOfId 1
    if r.2=octets.length then .ok ⟨octetExt first,0,octetProtocol first,r.1⟩
    else .error .assertion

def buildId (dataLen : Nat) (out : List Byte) (c : PcoId) : Except Fault (List Byte) :=
  putWithin .assertion dataLen (netBytes 2 c.id.toNat) out >>= fun out =>
    putWithin .assertion dataLen [Fin.ofNat 256 c.data.length] out >>= fun out =>
      putWithin .assertion dataLen c.data out

def ogsPcoBuild (dataLen : Nat) (pco : Pco PcoId) : Except Fault (List Byte) :=
  if dataLen=0 then .error .assertion
  else do
    let out ← putWithin .assertion dataLen
      [pcoOctet pco.ext pco.spare pco.configurationProtocol] []
    if pco.ids.length ≤ maxNumOfId then pco.ids.foldlM (buildId dataLen) out
    else .error .assertion

def PcoSpan.view (octets : List Byte) (c : PcoSpan) : PcoId where
  id := c.id
  data := (octets.drop c.data).take c.len.val
  len_lt := Nat.lt_of_le_of_lt (length_take_le _ _) c.len.isLt

def PcoSpan.Inside (octets : List Byte) (c : PcoSpan) : Prop := c.data+c.len.val≤octets.length

def Pco.view (octets : List Byte) (pco : Pco PcoSpan) : Pco PcoId :=
  { pco with ids := pco.ids.map (PcoSpan.view octets) }

/-- A first octet and at most 32 containers, each as long as it says. -/
def WholeContainers (octets : List Byte) : Prop :=
  ∃ first,∃ ids : List PcoId, ids.length ≤ maxNumOfId ∧
    octets=first::ids.flatMap PcoId.encode

theorem length_encode (c : PcoId) : c.encode.length=3+c.data.length := by
  rw [encode_eq]
  simp only [length_cons]
  omega

theorem parseSpans_encode {octets : List Byte} {size : Nat} {c : PcoId} {rest : List Byte}
    (h : octets.drop size=c.encode++rest) (room : Nat) :
    ∃ span : PcoSpan, span.view octets=c ∧ span.Inside octets ∧
      octets.drop (size+c.encode.length)=rest ∧
      parseSpans octets (room+1) size =
        parseSpans octets room (size+c.encode.length) >>= fun r => .ok (span::r.1,r.2) := by
  have hlen:=congrArg List.length h
  rw [length_drop,length_append,length_encode] at hlen
  have hval : (Fin.ofNat 256 c.data.length : Byte).val=c.data.length :=
    Nat.mod_eq_of_lt c.len_lt
  have hdata : octets.drop (size+3)=c.data++rest := by
    rw [← drop_drop,h,encode_eq]
    rfl
  have hid : octetsAt octets size 2 = .ok (netBytes 2 c.id.toNat) := by
    rw [octetsAt_of_le (by omega),h,PcoId.encode,append_assoc,
      take_left' (length_netBytes 2 _)]
  have hoctet : octetAt octets (size+2) = .ok (Fin.ofNat 256 c.data.length) := by
    have hget : octets[size+2]?=some (Fin.ofNat 256 c.data.length) := by
      rw [← List.getElem?_drop,h,encode_eq]
      rfl
    rw [octetAt,hget]
  have hnet : BitVec.ofNat 16 (netValue (netBytes 2 c.id.toNat))=c.id := by
    apply BitVec.eq_of_toNat_eq
    rw [netValue_netBytes,BitVec.toNat_ofNat]
    have hlt:=c.id.isLt
    omega
  refine ⟨⟨c.id,Fin.ofNat 256 c.data.length,size+3⟩,?_,?_,?_,?_⟩
  · have htake : (octets.drop (size+3)).take (Fin.ofNat 256 c.data.length : Byte).val =
        c.data := by rw [hval,hdata,take_left' rfl]
    obtain ⟨id,data,len_lt⟩ := c
    simp only [PcoSpan.view]
    congr 1
  · show size+3+(Fin.ofNat 256 c.data.length : Byte).val≤octets.length
    omega
  · rw [length_encode,← Nat.add_assoc,← drop_drop,hdata,drop_left' rfl]
  · rw [parseSpans,if_pos (by omega),if_pos (by omega),hid,ok_bind,if_pos (by omega),hoctet,
      ok_bind,hnet,hval,length_encode,← Nat.add_assoc]

theorem parseSpans_containers {octets : List Byte} {size room : Nat} {ids : List PcoId}
    (hsize : size≤octets.length) (hroom : ids.length ≤ room)
    (h : octets.drop size=ids.flatMap PcoId.encode) :
    ∃ spans : List PcoSpan, spans.map (PcoSpan.view octets)=ids ∧
      (∀ c∈spans,c.Inside octets) ∧
      parseSpans octets room size = .ok (spans,octets.length) := by
  induction ids generalizing size room with
  | nil =>
    have hend : size=octets.length := by
      have hlen:=congrArg List.length h
      rw [length_drop,flatMap_nil,length_nil] at hlen
      omega
    refine ⟨[],rfl,fun c hc => absurd hc not_mem_nil,?_⟩
    cases room with
    | zero => rw [parseSpans,hend]
    | succ room => rw [parseSpans,if_neg (by omega),hend]
  | cons c ids ih =>
    obtain ⟨room,rfl⟩ : ∃ n,room=n+1 := ⟨room-1,by rw [length_cons] at hroom; omega⟩
    rw [flatMap_cons] at h
    have hfits:=congrArg List.length h
    rw [length_drop,length_append] at hfits
    obtain ⟨span,hview,hinside,hrest,hparse⟩ := parseSpans_encode h room
    obtain ⟨spans,hviews,hall,hloop⟩ := ih (by omega) (Nat.le_of_succ_le_succ hroom) hrest
    refine ⟨span::spans,by rw [map_cons,hview,hviews],
      forall_mem_cons.mpr ⟨hinside,hall⟩,?_⟩
    rw [hparse,hloop]
    rfl

theorem drop_span {octets : List Byte} {size : Nat} {len : Byte}
    (hlen : octetAt octets (size+2) = .ok len) (hfits : size+3+len.val≤octets.length) :
    octets.drop size=(PcoSpan.view octets
      ⟨BitVec.ofNat 16 (netValue ((octets.drop size).take 2)),len,size+3⟩).encode ++
        octets.drop (size+3+len.val) := by
  have hid : ((octets.drop size).take 2).length=2 := by
    rw [length_take,length_drop]
    omega
  have hlt:=netValue_lt ((octets.drop size).take 2)
  have hnet:=netBytes_netValue ((octets.drop size).take 2)
  rw [hid] at hlt hnet
  have hval : (BitVec.ofNat 16 (netValue ((octets.drop size).take 2))).toNat =
      netValue ((octets.drop size).take 2) := Nat.mod_eq_of_lt hlt
  have htake : ((octets.drop (size+3)).take len.val).length=len.val := by
    rw [length_take,length_drop]
    omega
  have hone : Fin.ofNat 256 ((octets.drop (size+3)).take len.val).length=len := by
    rw [htake]
    exact Fin.ofNat_val_eq_self len
  have hget : octets.drop (size+2)=len::octets.drop (size+3) := by
    have hat : octets[size+2]?=some len := by
      unfold octetAt at hlen
      cases hd : octets[size+2]? with
      | none => rw [hd] at hlen; cases hlen
      | some b => rw [hd] at hlen; rw [Except.ok.inj hlen]
    obtain ⟨hlt',hat⟩ := List.getElem?_eq_some_iff.mp hat
    rw [drop_eq_getElem_cons hlt',hat]
  unfold PcoId.encode PcoSpan.view
  simp only [hval,hnet,hone]
  rw [append_assoc,cons_append,← drop_drop (i := len.val),
    take_append_drop,← hget,← drop_drop (i := 2),take_append_drop]

theorem parseSpans_ok {octets : List Byte} {size room : Nat} {spans : List PcoSpan}
    (h : parseSpans octets room size = .ok (spans,octets.length)) :
    size≤octets.length ∧ spans.length ≤ room ∧
      octets.drop size=(spans.map (PcoSpan.view octets)).flatMap PcoId.encode := by
  induction room generalizing size spans with
  | zero =>
    obtain ⟨rfl,hsize⟩ := Prod.mk.inj (Except.ok.inj h)
    exact ⟨Nat.le_of_eq hsize,Nat.le_refl 0,drop_eq_nil_of_le (Nat.le_of_eq hsize.symm)⟩
  | succ room ih =>
    rw [parseSpans] at h
    split at h
    · split at h
      · rename_i hid
        rw [octetsAt_of_le hid,ok_bind] at h
        split at h
        · obtain ⟨len,hlen,h⟩ := bind_eq_ok.mp h
          obtain ⟨⟨rest,last⟩,hloop,h⟩ := bind_eq_ok.mp h
          obtain ⟨rfl,rfl⟩ := Prod.mk.inj (Except.ok.inj h)
          obtain ⟨hfits,hcount,hdrop⟩ := ih hloop
          refine ⟨by omega,Nat.succ_le_succ hcount,?_⟩
          rw [map_cons,flatMap_cons,← hdrop]
          exact drop_span hlen hfits
        · cases h
      · cases h
    · obtain ⟨rfl,hsize⟩ := Prod.mk.inj (Except.ok.inj h)
      exact ⟨Nat.le_of_eq hsize,Nat.zero_le _,
        drop_eq_nil_of_le (Nat.le_of_eq hsize.symm)⟩

theorem ogsPcoParse_containers (first : Byte) {ids : List PcoId} (hids : ids.length ≤ maxNumOfId) :
    ∃ spans : List PcoSpan,
      spans.map (PcoSpan.view (first::ids.flatMap PcoId.encode))=ids ∧
        (∀ c∈spans,c.Inside (first::ids.flatMap PcoId.encode)) ∧
        ogsPcoParse (first::ids.flatMap PcoId.encode) =
          .ok ⟨octetExt first,0,octetProtocol first,spans⟩ := by
  have hsize : 1≤(first::ids.flatMap PcoId.encode).length := Nat.succ_pos _
  obtain ⟨spans,hviews,hall,hloop⟩ := parseSpans_containers hsize hids rfl
  refine ⟨spans,hviews,hall,?_⟩
  unfold ogsPcoParse
  rw [if_neg (by omega),hloop]
  exact if_pos rfl

theorem ogsPcoParse_whole {octets : List Byte} {pco : Pco PcoSpan}
    (h : ogsPcoParse octets = .ok pco) : WholeContainers octets := by
  unfold ogsPcoParse at h
  split at h
  · cases h
  · obtain ⟨first,hfirst,h⟩ := bind_eq_ok.mp h
    obtain ⟨⟨spans,size⟩,hloop,h⟩ := bind_eq_ok.mp h
    simp only at h
    split at h
    · rename_i hend
      rw [hend] at hloop
      obtain ⟨-,hcount,hdrop⟩ := parseSpans_ok hloop
      cases octets with
      | nil => cases hfirst
      | cons b octets =>
        exact ⟨b,spans.map (PcoSpan.view (b::octets)),by rw [length_map]; exact hcount,
          congrArg (b :: ·) hdrop⟩
    · cases h

theorem ogsPcoParse_ok (octets : List Byte) :
    (∃ pco,ogsPcoParse octets = .ok pco ∧ ∀ c∈pco.ids,c.Inside octets) ↔
      WholeContainers octets := by
  constructor
  · rintro ⟨pco,h,-⟩
    exact ogsPcoParse_whole h
  · rintro ⟨first,ids,hids,rfl⟩
    obtain ⟨spans,-,hall,hparse⟩ := ogsPcoParse_containers first hids
    exact ⟨_,hparse,hall⟩

def Pco.bytes (pco : Pco PcoId) : List Byte :=
  pcoOctet pco.ext pco.spare pco.configurationProtocol::pco.ids.flatMap PcoId.encode

theorem writes_buildId (dataLen : Nat) (c : PcoId) :
    Writes (fun out => buildId dataLen out c) dataLen c.encode :=
  (writes_putWithin _ dataLen _).bind
    ((writes_putWithin _ dataLen _).bind (writes_putWithin _ dataLen _))

theorem ogsPcoBuild_ok {dataLen : Nat} {pco : Pco PcoId} {out : List Byte} :
    ogsPcoBuild dataLen pco = .ok out ↔
      pco.ids.length ≤ maxNumOfId ∧ pco.bytes.length≤dataLen ∧ out=pco.bytes := by
  have hwrite : Writes (fun out => putWithin .assertion dataLen
      [pcoOctet pco.ext pco.spare pco.configurationProtocol] out >>= fun out =>
        pco.ids.foldlM (buildId dataLen) out) dataLen pco.bytes :=
    (writes_putWithin .assertion dataLen _).bind
      (Writes.foldlM fun c _ => writes_buildId dataLen c)
  have hnil:=hwrite [] out (Nat.zero_le _)
  rw [length_nil,Nat.zero_add,nil_append] at hnil
  have hpos : 0<pco.bytes.length := Nat.succ_pos _
  unfold ogsPcoBuild
  by_cases hzero : dataLen=0
  · rw [if_pos hzero]
    exact iff_of_false nofun fun h => by omega
  · rw [if_neg hzero]
    by_cases hids : pco.ids.length ≤ maxNumOfId
    · simp only [if_pos hids]
      rw [hnil,and_iff_right hids]
    · simp only [if_neg hids]
      refine iff_of_false (fun h => ?_) fun h => hids h.1
      obtain ⟨out',-,h⟩ := bind_eq_ok.mp h
      cases h

theorem octetExt_pcoOctet (ext : Bool) (spare : BitVec 4) (configurationProtocol : BitVec 3) :
    octetExt (pcoOctet ext spare configurationProtocol)=ext := by
  revert ext spare configurationProtocol
  decide

theorem octetProtocol_pcoOctet (ext : Bool) (spare : BitVec 4) (configurationProtocol : BitVec 3) :
    octetProtocol (pcoOctet ext spare configurationProtocol)=configurationProtocol := by
  revert ext spare configurationProtocol
  decide

theorem ogsPcoParse_bytes {pco : Pco PcoId} (hids : pco.ids.length ≤ maxNumOfId) :
    ∃ q,ogsPcoParse pco.bytes = .ok q ∧ q.view pco.bytes = { pco with spare := 0 } := by
  obtain ⟨spans,hviews,-,hparse⟩ :=
    ogsPcoParse_containers (pcoOctet pco.ext pco.spare pco.configurationProtocol) hids
  refine ⟨_,hparse,?_⟩
  unfold Pco.view
  rw [octetExt_pcoOctet,octetProtocol_pcoOctet]
  exact congrArg (fun ids => Pco.mk pco.ext 0 pco.configurationProtocol ids) hviews

/-- Options with no spare bit set come back from the buffer they were built into, and of all octet
strings the parser returns on those of whole containers. -/
theorem pco_codec (dataLen : Nat) (pco : Pco PcoId) (octets : List Byte) :
    (pco.ids.length ≤ maxNumOfId → pco.bytes.length≤dataLen →
      ∃ out q,ogsPcoBuild dataLen pco = .ok out ∧ ogsPcoParse out = .ok q ∧
        (q.view out=pco ↔ pco.spare=0)) ∧
    ((∃ q,ogsPcoParse octets = .ok q ∧ ∀ c∈q.ids,c.Inside octets) ↔
      WholeContainers octets) := by
  refine ⟨fun hids hlen => ?_,ogsPcoParse_ok octets⟩
  obtain ⟨q,hparse,hview⟩ := ogsPcoParse_bytes hids
  refine ⟨pco.bytes,q,ogsPcoBuild_ok.mpr ⟨hids,hlen,rfl⟩,hparse,?_⟩
  rw [hview]
  constructor
  · exact fun h => (congrArg Pco.spare h).symm
  · intro h
    rw [← h]

theorem pco_codec_dns :
    ∃ out q,ogsPcoBuild 251 ⟨true,0,0,[⟨0x000d,[8,8,8,8],by decide⟩]⟩ = .ok out ∧
      ogsPcoParse out = .ok q ∧
        (q.view out=⟨true,0,0,[⟨0x000d,[8,8,8,8],by decide⟩]⟩ ↔ (0 : BitVec 4)=0) :=
  (pco_codec 251 ⟨true,0,0,[⟨0x000d,[8,8,8,8],by decide⟩]⟩ []).1 (by decide)
    (by decide)

/-- A container cut off behind its id, one cut off in its octets, and 33 empty ones. -/
theorem pco_cut_off :
    ogsPcoParse [0x80,0xc0,0x23] = .error .assertion ∧
      ogsPcoParse [0x80,0xc0,0x23,2,1] = .error .assertion ∧
      ogsPcoParse (0x80::(List.replicate 33 [0,0x0d,0]).flatten) = .error .assertion := by
  decide

end OgsDp.Proto
