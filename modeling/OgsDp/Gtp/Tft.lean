import OgsDp.Ipfw.PacketFilter

/-!
# Traffic flow templates (lib/gtp/v2/types.c)

The operation code says what a TFT has: nothing more, the flags of packet filters, or packet
filters with their contents.
-/

namespace OgsDp.Gtp
open OgsDp.Core Lib Ipfw

def maxNumOfFlowInGtp : Nat := 15
def maxTrafficFlowTemplate : Nat := 255

structure TftPf where
  flags : Byte
  precedence : Byte
  content : PfContent
  deriving DecidableEq

def TftPf.zero : TftPf := ⟨0,0,.zero⟩

structure Tft where
  flags : Byte
  pf : Vector TftPf maxNumOfFlowInGtp
  deriving DecidableEq

namespace Tft

def code (t : Tft) : Nat := t.flags.val / 32

def numOfPacketFilter (t : Tft) : Nat := t.flags.val % 16

end Tft

def ignoreThisIe : Nat := 0
def deleteExistingTft : Nat := 2
def deletePacketFiltersFromExisting : Nat := 5
def noTftOperation : Nat := 6

/-- `ogs_tlv_octet_t`, with the memory at `data`. -/
structure TlvOctet where
  len : Nat
  data : List Byte
  deriving DecidableEq

def TlvOctet.octets (o : TlvOctet) : List Byte := o.data.take o.len

/-- What ends the builder before its time. -/
inductive BuildStop where
  | assertion
  | unknown (out : List Byte)
  deriving DecidableEq

def putOctets (dataLen : Nat) (out bytes : List Byte) : Except BuildStop (List Byte) :=
  if out.length+bytes.length≤dataLen then .ok (out++bytes) else .error .assertion

def putComponent (dataLen : Nat) (out : List Byte) (c : PfComponent) :
    Except BuildStop (List Byte) :=
  if c = .matchAll then putOctets dataLen out [c.type] >>= fun out => .error (.unknown out)
  else putOctets dataLen out c.bytes

def putPf (code dataLen : Nat) (out : List Byte) (p : TftPf) : Except BuildStop (List Byte) :=
  putOctets dataLen out [p.flags] >>= fun out =>
    if code=deletePacketFiltersFromExisting then .ok out
    else
      putOctets dataLen out [p.precedence] >>= fun out =>
        putOctets dataLen out [p.content.length] >>= fun out =>
          p.content.component.1.foldlM (putComponent dataLen) out

/-- `ogs_gtp2_build_tft` into a buffer: what it returns, and the octet string. -/
def buildTft (octet : TlvOctet) (t : Tft) (data : List Byte) : Except Fault (Int × TlvOctet) :=
  if data.length < maxTrafficFlowTemplate then .error .assertion
  else if t.code=ignoreThisIe then .error .assertion
  else if t.code=noTftOperation ∨ t.code=deleteExistingTft then
    .ok (1,{ octet with data := t.flags::data.drop 1 })
  else
    match (t.pf.toList.take t.numOfPacketFilter).foldlM (putPf t.code data.length) [t.flags] with
    | .ok out => .ok (out.length,⟨out.length,out++data.drop out.length⟩)
    | .error .assertion => .error .assertion
    | .error (.unknown out) => .ok (-1,{ octet with data := out++data.drop out.length })

def readPf (code : Nat) (l : List Byte) : Except PfStop (TftPf × List Byte) :=
  checkedOne l >>= fun flags =>
    if code=deletePacketFiltersFromExisting then .ok (⟨flags.1,0,.zero⟩,flags.2)
    else
      checkedOne flags.2 >>= fun precedence => readContent precedence.2 >>= fun content =>
        .ok (⟨flags.1,precedence.1,content.1⟩,content.2)

def pfArray (pfs : List TftPf) : Vector TftPf maxNumOfFlowInGtp :=
  Vector.ofFn fun i => pfs.getD i.val .zero

/-- `ogs_gtp2_parse_tft`: the size and the TFT, or `none` where it returns −1. -/
def parseTft (octets : List Byte) : Except Fault (Option (Nat × Tft)) :=
  match octets with
  | [] => .error .assertion
  | flags::rest =>
    let t : Tft := ⟨flags,pfArray []⟩
    if t.code=ignoreThisIe then .ok (some (1,t))
    else if t.code=noTftOperation ∨ t.code=deleteExistingTft then .ok (some (1,t))
    else
      match readMany (readPf t.code) t.numOfPacketFilter rest with
      | .ok (pfs,left) => .ok (some (1+rest.length-left.length,{ t with pf := pfArray pfs }))
      | .error .short => .error .assertion
      | .error .unknown => .ok none
      | .error .full => .error .write
      | .error .beyond => .error .read

namespace TftPf

def bytes (code : Nat) (p : TftPf) : List Byte :=
  if code=deletePacketFiltersFromExisting then [p.flags]
  else p.flags::p.precedence::p.content.bytes

def carried (code : Nat) (p : TftPf) : TftPf :=
  if code=deletePacketFiltersFromExisting then ⟨p.flags,0,.zero⟩ else p

/-- The content is of known components, and its length is theirs. -/
structure Sound (code : Nat) (p : TftPf) : Prop where
  sized : code≠deletePacketFiltersFromExisting → p.content.Sized
  known : code≠deletePacketFiltersFromExisting → .matchAll∉p.content.component.1

end TftPf

namespace Tft

def filters (t : Tft) : List TftPf :=
  if t.code=noTftOperation ∨ t.code=deleteExistingTft then []
  else t.pf.toList.take t.numOfPacketFilter

def carried (t : Tft) : Tft := { t with pf := pfArray (t.filters.map (TftPf.carried t.code)) }

def bytes (t : Tft) : List Byte := t.flags::t.filters.flatMap (TftPf.bytes t.code)

end Tft

variable {t : Tft} {p : TftPf} {code dataLen n : Nat} {out bytes l rest : List Byte} {e : PfStop}

theorem putOctets_fits (h : out.length+bytes.length≤dataLen) :
    putOctets dataLen out bytes = .ok (out++bytes) := if_pos h

theorem putComponent_fits {c : PfComponent} (hc : c ≠ .matchAll)
    (h : out.length+c.bytes.length≤dataLen) :
    putComponent dataLen out c = .ok (out++c.bytes) := by
  rw [putComponent,if_neg hc,putOctets_fits h]

theorem putPf_fits (hp : p.Sound code) (h : out.length+(p.bytes code).length≤dataLen) :
    putPf code dataLen out p = .ok (out++p.bytes code) := by
  unfold TftPf.bytes at h ⊢
  unfold putPf
  by_cases hcode : code=deletePacketFiltersFromExisting
  · rw [if_pos hcode] at h ⊢
    rw [putOctets_fits h]
    exact if_pos hcode
  · have hknown:=hp.known hcode
    simp only [if_neg hcode,PfContent.bytes,List.length_cons,componentBytes] at h ⊢
    rw [putOctets_fits (by rw [List.length_singleton]; omega)]
    show (putOctets dataLen _ _ >>= _)=_
    rw [putOctets_fits (by simp only [List.length_append,List.length_singleton]; omega)]
    show (putOctets dataLen _ _ >>= _)=_
    rw [putOctets_fits (by simp only [List.length_append,List.length_singleton]; omega)]
    refine (foldlM_put (putComponent dataLen) PfComponent.bytes dataLen _ (fun out c hc hfits =>
      putComponent_fits (fun hall => hknown (hall ▸ hc)) hfits) _ ?_).trans ?_
    · simp only [List.length_append,List.length_singleton]
      omega
    · simp only [List.append_assoc,List.singleton_append]
      rfl

def PfRead (code : Nat) (p : TftPf) : Prop :=
  p=p.carried code ∧ (code≠deletePacketFiltersFromExisting → p.content.Read)

theorem reads_readPf (code : Nat) : Reads (readPf code) (TftPf.bytes code) (PfRead code) := by
  intro l p rest
  unfold readPf TftPf.bytes PfRead TftPf.carried
  rw [reads_checkedOne.bind_ok]
  by_cases hcode : code=deletePacketFiltersFromExisting
  · simp only [if_pos hcode]
    constructor
    · rintro ⟨flags,rest',-,rfl,hok⟩
      obtain ⟨rfl,rfl⟩ := Prod.mk.inj (Except.ok.inj hok)
      exact ⟨⟨rfl,fun hne => absurd hcode hne⟩,rfl⟩
    · rintro ⟨⟨hp,-⟩,rfl⟩
      exact ⟨p.flags,rest,trivial,rfl,by rw [← hp]⟩
  · simp only [if_neg hcode]
    constructor
    · rintro ⟨flags,rest',-,rfl,hok⟩
      obtain ⟨precedence,rest'',-,hrest,hok⟩ := reads_checkedOne.bind_ok.mp hok
      obtain ⟨content,rest₃,hread,hrest',hok⟩ := reads_readContent.bind_ok.mp hok
      obtain ⟨rfl,rfl⟩ := Prod.mk.inj (Except.ok.inj hok)
      simp only at hrest hrest'
      exact ⟨⟨trivial,fun _ => hread⟩,by rw [hrest,hrest']; rfl⟩
    · rintro ⟨⟨-,hread⟩,rfl⟩
      refine ⟨p.flags,p.precedence::p.content.bytes++rest,trivial,rfl,?_⟩
      refine reads_checkedOne.bind_ok.mpr ⟨p.precedence,p.content.bytes++rest,trivial,rfl,?_⟩
      exact reads_readContent.bind_ok.mpr ⟨p.content,rest,hread hcode,rfl,rfl⟩

theorem pfRead_carried (hp : p.Sound code) : PfRead code (p.carried code) := by
  unfold PfRead TftPf.carried
  by_cases hcode : code=deletePacketFiltersFromExisting
  · simp only [if_pos hcode]
    exact ⟨trivial,fun hne => absurd hcode hne⟩
  · simp only [if_neg hcode]
    exact ⟨trivial,fun hne => (hp.sized hne).read (hp.known hne)⟩

theorem bytes_carried (code : Nat) (p : TftPf) : (p.carried code).bytes code=p.bytes code := by
  unfold TftPf.bytes TftPf.carried
  by_cases hcode : code=deletePacketFiltersFromExisting
  · simp only [if_pos hcode]
  · simp only [if_neg hcode]

theorem length_filters (hcode : ¬ (t.code=noTftOperation ∨ t.code=deleteExistingTft)) :
    t.filters.length=t.numOfPacketFilter := by
  have hlt : t.numOfPacketFilter<16 := Nat.mod_lt _ (by decide)
  have hmax : maxNumOfFlowInGtp=15 := rfl
  rw [Tft.filters,if_neg hcode,List.length_take,Vector.length_toList]
  omega

theorem parseTft_bytes (hcode : t.code≠ignoreThisIe) (hs : ∀ p∈t.filters,p.Sound t.code)
    (rest : List Byte) :
    parseTft (t.bytes++rest) = .ok (some (t.bytes.length,t.carried)) := by
  have hsame : ∀ pf,(⟨t.flags,pf⟩ : Tft).code=t.code := fun _ => rfl
  have hnum : ∀ pf,(⟨t.flags,pf⟩ : Tft).numOfPacketFilter=t.numOfPacketFilter := fun _ => rfl
  unfold parseTft Tft.bytes
  simp only [List.cons_append,hsame,hnum]
  rw [if_neg hcode]
  by_cases hnone : t.code=noTftOperation ∨ t.code=deleteExistingTft
  · have hfilters : t.filters=[] := if_pos hnone
    rw [if_pos hnone,Tft.carried,hfilters]
    rfl
  · have hflat : (t.filters.map (TftPf.carried t.code)).flatMap (TftPf.bytes t.code) =
        t.filters.flatMap (TftPf.bytes t.code) := by
      rw [List.flatMap_map]
      exact List.flatMap_congr fun p _ => bytes_carried t.code p
    have hread : readMany (readPf t.code) t.numOfPacketFilter
        (t.filters.flatMap (TftPf.bytes t.code)++rest) =
        .ok (t.filters.map (TftPf.carried t.code),rest) := by
      rw [← hflat]
      refine (reads_readMany (reads_readPf t.code) _).append ⟨?_,?_⟩ rest
      · rw [List.length_map,length_filters hnone]
      · intro p hp
        obtain ⟨q,hq,rfl⟩ := List.mem_map.mp hp
        exact pfRead_carried (hs q hq)
    rw [if_neg hnone,hread]
    simp only [List.length_append,List.length_cons]
    congr 3
    omega

theorem buildTft_fits {octet : TlvOctet} {data : List Byte}
    (hdata : maxTrafficFlowTemplate≤data.length) (hcode : t.code≠ignoreThisIe)
    (hs : ∀ p∈t.filters,p.Sound t.code) (htotal : t.bytes.length ≤ maxTrafficFlowTemplate)
    (hmore : ¬ (t.code=noTftOperation ∨ t.code=deleteExistingTft)) :
    buildTft octet t data =
      .ok (t.bytes.length,⟨t.bytes.length,t.bytes++data.drop t.bytes.length⟩) := by
  have hfilters : t.pf.toList.take t.numOfPacketFilter=t.filters := (if_neg hmore).symm
  have hfits : 1+(t.filters.flatMap (TftPf.bytes t.code)).length≤data.length := by
    have hlen : t.bytes.length=(t.filters.flatMap (TftPf.bytes t.code)).length+1 := rfl
    omega
  have hput:=foldlM_put (putPf t.code data.length) (TftPf.bytes t.code) data.length
    t.filters (fun out p hp => putPf_fits (hs p hp)) [t.flags] hfits
  unfold buildTft
  rw [if_neg (Nat.not_lt.mpr hdata),if_neg hcode,if_neg hmore,hfilters,hput]
  rfl

/-- A TFT comes back, but if it has no packet filters the builder must find a length already: it
sets none for such a TFT. -/
theorem tft_comes_back (octet : TlvOctet) (t : Tft) (data : List Byte)
    (hdata : maxTrafficFlowTemplate≤data.length) (hcode : t.code≠ignoreThisIe)
    (hs : ∀ p∈t.filters,p.Sound t.code) (htotal : t.bytes.length ≤ maxTrafficFlowTemplate) :
    (∃ r o,buildTft octet t data = .ok (r,o) ∧
        ∃ size,parseTft o.octets = .ok (some (size,t.carried))) ↔
      (t.code=noTftOperation ∨ t.code=deleteExistingTft → 1≤octet.len) := by
  by_cases hnone : t.code=noTftOperation ∨ t.code=deleteExistingTft
  · have hbytes : t.bytes=[t.flags] := by rw [Tft.bytes,Tft.filters,if_pos hnone]; rfl
    have hbuild : buildTft octet t data = .ok (1,{ octet with data := t.flags::data.drop 1 }) :=
      by rw [buildTft,if_neg (Nat.not_lt.mpr hdata),if_neg hcode,if_pos hnone]
    constructor
    · rintro ⟨r,o,hr,size,hparse⟩ -
      rw [hbuild] at hr
      obtain ⟨-,rfl⟩ := Prod.mk.inj (Except.ok.inj hr)
      rcases Nat.eq_zero_or_pos octet.len with hzero | hpos
      · simp only [TlvOctet.octets,hzero,List.take_zero] at hparse
        cases hparse
      · exact hpos
    · intro hlen
      refine ⟨_,_,hbuild,t.bytes.length,?_⟩
      obtain ⟨len,hlen⟩ : ∃ len,octet.len=len+1 :=
        ⟨octet.len-1,by have hpos:=hlen hnone; omega⟩
      have hoctets : TlvOctet.octets { octet with data := t.flags::data.drop 1 } =
          t.bytes++(data.drop 1).take len := by
        simp only [TlvOctet.octets,hlen,List.take_succ_cons,hbytes]
        rfl
      rw [hoctets]
      exact parseTft_bytes hcode hs _
  · refine iff_of_true ⟨_,_,buildTft_fits hdata hcode hs htotal hnone,t.bytes.length,?_⟩
      fun h => absurd h hnone
    have hoctets : TlvOctet.octets ⟨t.bytes.length,t.bytes++data.drop t.bytes.length⟩ =
        t.bytes++[] := by
      rw [TlvOctet.octets,List.take_left' rfl,List.append_nil]
    rw [hoctets]
    exact parseTft_bytes hcode hs []

def tftPort : Tft :=
  ⟨33,pfArray [⟨49,7,⟨3,⟨[.port .remote 53],by decide⟩⟩⟩]⟩

def tftDelete : Tft := ⟨64,pfArray []⟩

def tftBuffer : List Byte := List.replicate 255 0

set_option maxRecDepth 4000 in
theorem tft_comes_back_port :
    (∃ r o,buildTft ⟨0,[]⟩ tftPort tftBuffer = .ok (r,o) ∧
        ∃ size,parseTft o.octets = .ok (some (size,tftPort.carried))) ↔
      (tftPort.code=noTftOperation ∨ tftPort.code=deleteExistingTft →
        1≤(⟨0,[]⟩ : TlvOctet).len) := by
  have hfilters : tftPort.filters=[⟨49,7,⟨3,⟨[.port .remote 53],by decide⟩⟩⟩] := by
    decide
  refine tft_comes_back _ _ _ (by decide) (by decide) ?_ (by decide)
  rw [hfilters]
  intro p hp
  obtain rfl := List.mem_singleton.mp hp
  exact ⟨fun _ => rfl,fun _ => by decide⟩

set_option maxRecDepth 4000 in
/-- The length of the octet string stays zero, and the parser stops the process. -/
theorem tft_delete_aborts :
    buildTft ⟨0,[]⟩ tftDelete tftBuffer = .ok (1,⟨0,64::tftBuffer.drop 1⟩) ∧
      parseTft (TlvOctet.octets ⟨0,64::tftBuffer.drop 1⟩) = .error .assertion ∧
      ¬ ∃ r o,buildTft ⟨0,[]⟩ tftDelete tftBuffer = .ok (r,o) ∧
        ∃ size,parseTft o.octets = .ok (some (size,tftDelete.carried)) := by
  have hbuild : buildTft ⟨0,[]⟩ tftDelete tftBuffer = .ok (1,⟨0,64::tftBuffer.drop 1⟩) := by
    decide
  refine ⟨hbuild,rfl,?_⟩
  rintro ⟨r,o,hr,size,hparse⟩
  rw [hbuild] at hr
  obtain ⟨-,rfl⟩ := Prod.mk.inj (Except.ok.inj hr)
  cases hparse

end OgsDp.Gtp
