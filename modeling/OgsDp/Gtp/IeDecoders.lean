import OgsDp.Gtp.Tft

/-!
# Decoders of information elements (lib/gtp/v2/types.c)

Bearer QoS and Flow QoS of another length than theirs stop the process, and so does a TFT that
ends too early; the flags of a ULI are read before its length is looked at.
-/

namespace OgsDp.Gtp
open OgsDp.Core Lib Ipfw List

def bearerQosLen : Nat := 22
def flowQosLen : Nat := 21

structure QosRates where
  ulMbr : BitVec 64
  dlMbr : BitVec 64
  ulGbr : BitVec 64
  dlGbr : BitVec 64
  deriving DecidableEq

def rateBytes (rate : BitVec 64) : List Byte := netBytes 5 (rate.toNat / 1000)

def QosRates.bytes (r : QosRates) : List Byte :=
  rateBytes r.ulMbr++(rateBytes r.dlMbr++(rateBytes r.ulGbr++rateBytes r.dlGbr))

def parseRate (octets : List Byte) (size : Nat) : Except Fault (BitVec 64) :=
  octetsAt octets size 5 >>= fun bytes => .ok (BitVec.ofNat 64 (netValue bytes*1000))

def parseRates (octets : List Byte) (size : Nat) : Except Fault QosRates := do
  let ulMbr ← parseRate octets size
  let dlMbr ← parseRate octets (size+5)
  let ulGbr ← parseRate octets (size+10)
  let dlGbr ← parseRate octets (size+15)
  .ok ⟨ulMbr,dlMbr,ulGbr,dlGbr⟩

structure BearerQos where
  spare1 : Fin 2
  preEmptionCapability : Fin 2
  priorityLevel : Fin 16
  spare2 : Fin 2
  preEmptionVulnerability : Fin 2
  qci : Byte
  rates : QosRates
  deriving DecidableEq

structure FlowQos where
  qci : Byte
  rates : QosRates
  deriving DecidableEq

def BearerQos.bytes (q : BearerQos) : List Byte :=
  Fin.ofNat 256 (q.spare1.val*128+q.preEmptionCapability.val*64+q.priorityLevel.val*4 +
    q.spare2.val*2+q.preEmptionVulnerability.val)::q.qci::q.rates.bytes

def FlowQos.bytes (q : FlowQos) : List Byte := q.qci::q.rates.bytes

def builtQos (bytes data : List Byte) : TlvOctet := ⟨bytes.length,bytes++data.drop bytes.length⟩

def buildBearerQos (q : BearerQos) (data : List Byte) : Except Fault (Nat × TlvOctet) :=
  if data.length<bearerQosLen then .error .assertion
  else .ok (bearerQosLen,builtQos q.bytes data)

def buildFlowQos (q : FlowQos) (data : List Byte) : Except Fault (Nat × TlvOctet) :=
  if data.length<flowQosLen then .error .assertion
  else .ok (flowQosLen,builtQos q.bytes data)

def parseBearerQos (octets : List Byte) : Except Fault (Nat × BearerQos) :=
  if octets.length≠bearerQosLen then .error .assertion
  else do
    let first ← octetAt octets 0
    let qci ← octetAt octets 1
    let rates ← parseRates octets 2
    .ok (22,{
      spare1 := 0
      preEmptionCapability := Fin.ofNat 2 (first.val / 64)
      priorityLevel := Fin.ofNat 16 (first.val / 4)
      spare2 := 0
      preEmptionVulnerability := Fin.ofNat 2 first.val
      qci := qci
      rates := rates })

def parseFlowQos (octets : List Byte) : Except Fault (Nat × FlowQos) :=
  if octets.length≠flowQosLen then .error .assertion
  else do
    let qci ← octetAt octets 0
    let rates ← parseRates octets 1
    .ok (21,⟨qci,rates⟩)

structure UliArea where
  nasPlmnId : List Byte
  lac : Nat
  code : Nat
  deriving DecidableEq

structure UliId where
  nasPlmnId : List Byte
  id : Nat
  deriving DecidableEq

/-- `ogs_gtp2_uli_t`; what has no flag was cleared. -/
structure Uli where
  flags : Byte
  cgi : Option UliArea
  sai : Option UliArea
  rai : Option UliArea
  tai : Option UliId
  eCgi : Option UliId
  lai : Option UliId
  enodebId : Option UliId
  deriving DecidableEq

/-- A part of a ULI: its flag, its size and where it goes. -/
structure UliPart where
  bit : Nat
  size : Nat
  put : List Byte → Uli → Uli

def uliArea (bytes : List Byte) : UliArea :=
  ⟨bytes.take 3,netValue ((bytes.drop 3).take 2),netValue (bytes.drop 5)⟩

def uliId (bytes : List Byte) : UliId := ⟨bytes.take 3,netValue (bytes.drop 3)⟩

def uliParts : List UliPart :=
  [⟨0,7,fun bytes u => { u with cgi := some (uliArea bytes) }⟩,
    ⟨1,7,fun bytes u => { u with sai := some (uliArea bytes) }⟩,
    ⟨2,7,fun bytes u => { u with rai := some (uliArea bytes) }⟩,
    ⟨3,5,fun bytes u => { u with tai := some (uliId bytes) }⟩,
    ⟨4,7,fun bytes u => { u with eCgi := some (uliId bytes) }⟩,
    ⟨5,5,fun bytes u => { u with lai := some (uliId bytes) }⟩,
    ⟨6,5,fun bytes u => { u with enodebId := some (uliId bytes) }⟩]

def parseUliParts (octets : List Byte) : List UliPart → Nat → Uli → Except Fault (Nat × Uli)
  | [], size, u => .ok (size,u)
  | part::parts, size, u =>
    if u.flags.val.testBit part.bit then
      if octets.length<size+part.size then .ok (0,u)
      else
        octetsAt octets size part.size >>= fun bytes =>
          parseUliParts octets parts (size+part.size) (part.put bytes u)
    else parseUliParts octets parts size u

def parseUli (octets : List Byte) : Except Fault (Nat × Uli) :=
  octetAt octets 0 >>= fun flags =>
    parseUliParts octets uliParts 1 ⟨flags,none,none,none,none,none,none,none⟩

/-- `ogs_gtp2_node_identifier_t`; the texts are where `name` and `realm` point to. -/
structure NodeIdentifier where
  nameLen : Byte
  name : Option (List Byte)
  realmLen : Byte
  realm : Option (List Byte)
  deriving DecidableEq

def parseNodeIdentifier (octets : List Byte) : Except Fault (Nat × NodeIdentifier) :=
  if octets.length<1 then .ok (0,⟨0,none,0,none⟩)
  else
    octetAt octets 0 >>= fun nameLen =>
      if octets.length<1+nameLen.val then .ok (1,⟨nameLen,none,0,none⟩)
      else
        let name:=(octets.drop 1).take nameLen.val
        let size:=1+nameLen.val
        if octets.length<size+1 then .ok (size,⟨nameLen,some name,0,none⟩)
        else
          octetAt octets size >>= fun realmLen =>
            if octets.length<size+1+realmLen.val then
              .ok (size+1,⟨nameLen,some name,realmLen,none⟩)
            else
              .ok (size+1+realmLen.val,⟨nameLen,some name,realmLen,
                some ((octets.drop (size+1)).take realmLen.val)⟩)

variable {octets pre post : List Byte} {size n : Nat} {rate : BitVec 64} {r : QosRates}

/-- A rate that five octets hold: a multiple of 1000 bit/s below 2⁴⁰ kbit/s. -/
def Whole (rate : BitVec 64) : Prop := rate.toNat % 1000=0 ∧ rate.toNat<2^40*1000

structure QosRates.Whole (r : QosRates) : Prop where
  ulMbr : Gtp.Whole r.ulMbr
  dlMbr : Gtp.Whole r.dlMbr
  ulGbr : Gtp.Whole r.ulGbr
  dlGbr : Gtp.Whole r.dlGbr

theorem parseRate_ok (octets : List Byte) (size : Nat) (h : size+5≤octets.length) :
    ∃ x,parseRate octets size = .ok x := by
  rw [parseRate,octetsAt_of_le h]
  exact ⟨_,rfl⟩

theorem parseRates_ok (octets : List Byte) (size : Nat) (h : size+20≤octets.length) :
    ∃ r,parseRates octets size = .ok r := by
  obtain ⟨ulMbr,hulMbr⟩ := parseRate_ok octets size (by omega)
  obtain ⟨dlMbr,hdlMbr⟩ := parseRate_ok octets (size+5) (by omega)
  obtain ⟨ulGbr,hulGbr⟩ := parseRate_ok octets (size+10) (by omega)
  obtain ⟨dlGbr,hdlGbr⟩ := parseRate_ok octets (size+15) (by omega)
  rw [parseRates,hulMbr,hdlMbr,hulGbr,hdlGbr]
  exact ⟨_,rfl⟩

theorem parseRate_bytes (post : List Byte) (hw : Whole rate) (hpre : pre.length=size) :
    parseRate (pre++(rateBytes rate++post)) size = .ok rate := by
  obtain ⟨hmod,hlt⟩ := hw
  have hlen : (rateBytes rate).length=5 := length_netBytes 5 _
  have hdrop : (pre++(rateBytes rate++post)).drop size=rateBytes rate++post :=
    drop_left' hpre
  have htake : (rateBytes rate++post).take 5=rateBytes rate := take_left' hlen
  have hval : netValue (rateBytes rate)=rate.toNat / 1000 := by
    rw [rateBytes,netValue_netBytes]
    exact Nat.mod_eq_of_lt (by omega)
  have hback : BitVec.ofNat 64 (rate.toNat / 1000*1000)=rate := by
    rw [Nat.div_mul_cancel (Nat.dvd_of_mod_eq_zero hmod),BitVec.ofNat_toNat,BitVec.setWidth_eq]
  rw [parseRate,octetsAt_of_le (by
    simp only [length_append,hlen]; omega),hdrop,htake]
  show Except.ok (BitVec.ofNat 64 (netValue (rateBytes rate)*1000))=_
  rw [hval,hback]

theorem parseRates_bytes (pre : List Byte) (hw : r.Whole) (hpre : pre.length=size) :
    parseRates (pre++r.bytes) size = .ok r := by
  have hlen : ∀ x,(rateBytes x).length=5 := fun x => length_netBytes 5 _
  have hulMbr : parseRate (pre++r.bytes) size = .ok r.ulMbr := parseRate_bytes _ hw.ulMbr hpre
  have hdlMbr : parseRate (pre++r.bytes) (size+5) = .ok r.dlMbr := by
    rw [QosRates.bytes,← append_assoc]
    exact parseRate_bytes _ hw.dlMbr (by rw [length_append,hlen,hpre])
  have hulGbr : parseRate (pre++r.bytes) (size+10) = .ok r.ulGbr := by
    rw [QosRates.bytes,← append_assoc,← append_assoc]
    exact parseRate_bytes _ hw.ulGbr (by simp only [length_append,hlen,hpre])
  have hdlGbr : parseRate (pre++r.bytes) (size+15) = .ok r.dlGbr := by
    rw [QosRates.bytes,← append_assoc,← append_assoc,← append_assoc]
    have hlast:=parseRate_bytes [] hw.dlGbr
      (show (pre++rateBytes r.ulMbr++rateBytes r.dlMbr++rateBytes r.ulGbr).length=size+15
        by simp only [length_append,hlen,hpre])
    rwa [append_nil] at hlast
  rw [parseRates,hulMbr,hdlMbr,hulGbr,hdlGbr]
  rfl

theorem length_ratesBytes (r : QosRates) : r.bytes.length=20 := by
  simp [QosRates.bytes,rateBytes]

theorem builtQos_octets (bytes data : List Byte) : (builtQos bytes data).octets=bytes :=
  take_left' rfl

theorem parseBearerQos_ok :
    (∃ r,parseBearerQos octets = .ok r) ↔ octets.length=bearerQosLen := by
  have hbearer : bearerQosLen=22 := rfl
  unfold parseBearerQos
  by_cases hlen : octets.length=bearerQosLen
  · obtain ⟨rates,hrates⟩ := parseRates_ok octets 2 (by omega)
    rw [if_neg (not_not.mpr hlen),octetAt_of_lt (by omega),octetAt_of_lt (by omega),hrates]
    exact iff_of_true ⟨_,rfl⟩ hlen
  · rw [if_pos hlen]
    exact iff_of_false nofun hlen

theorem parseFlowQos_ok : (∃ r,parseFlowQos octets = .ok r) ↔ octets.length=flowQosLen := by
  have hflow : flowQosLen=21 := rfl
  unfold parseFlowQos
  by_cases hlen : octets.length=flowQosLen
  · obtain ⟨rates,hrates⟩ := parseRates_ok octets 1 (by omega)
    rw [if_neg (not_not.mpr hlen),octetAt_of_lt (by omega),hrates]
    exact iff_of_true ⟨_,rfl⟩ hlen
  · rw [if_pos hlen]
    exact iff_of_false nofun hlen

theorem parseUliParts_ok (parts : List UliPart) (size : Nat) (u : Uli) :
    ∃ r,parseUliParts octets parts size u = .ok r := by
  induction parts generalizing size u with
  | nil => exact ⟨_,rfl⟩
  | cons part parts ih =>
    unfold parseUliParts
    split
    · split
      · exact ⟨_,rfl⟩
      · rw [octetsAt_of_le (by omega)]
        exact ih _ _
    · exact ih _ _

theorem parseUli_ok : (∃ r,parseUli octets = .ok r) ↔ octets≠[] := by
  unfold parseUli
  by_cases hpos : 0<octets.length
  · rw [octetAt_of_lt hpos]
    exact iff_of_true (parseUliParts_ok uliParts 1 _) (ne_nil_of_length_pos hpos)
  · have hnil : octets=[] := eq_nil_of_length_eq_zero (by omega)
    subst hnil
    exact iff_of_false nofun fun hne => hne rfl

theorem parseNodeIdentifier_ok : ∃ r,parseNodeIdentifier octets = .ok r := by
  unfold parseNodeIdentifier
  split
  · exact ⟨_,rfl⟩
  · rw [octetAt_of_lt (by omega)]
    simp only [ok_bind]
    split
    · exact ⟨_,rfl⟩
    · split
      · exact ⟨_,rfl⟩
      · rw [octetAt_of_lt (by omega)]
        simp only [ok_bind]
        split
        · exact ⟨_,rfl⟩
        · exact ⟨_,rfl⟩

def HoldsPfs (code n : Nat) (octets : List Byte) : Prop :=
  ∃ (pfs : List TftPf) (rest : List Byte),pfs.length=n ∧ (∀ p∈pfs,PfRead code p) ∧
    octets=pfs.flatMap (TftPf.bytes code)++rest

/-- Before so many packet filters are read, a component begins whose type is none that is known, and
its filter has not more than sixteen components up to there. -/
def StopsAtType (code n : Nat) (octets : List Byte) : Prop :=
  ∃ (pfs : List TftPf) (flags precedence len : Byte) (content : List Byte) (k : Nat)
    (cs : List PfComponent) (t : Byte) (rest : List Byte),
    pfs.length<n ∧ (∀ p∈pfs,PfRead code p) ∧ code≠deletePacketFiltersFromExisting ∧
      octets=pfs.flatMap (TftPf.bytes code)++flags::precedence::len::content ∧
      k < maxNumOfPacketFilterComponent ∧ Unfinished k len.val content cs (t::rest) ∧
      t∉knownTypes

/-- A TFT with what its code and its number of packet filters announce. -/
def TftTolerated : List Byte → Prop
  | [] => False
  | flags::rest =>
    let t : Tft := ⟨flags,pfArray []⟩
    (t.code=ignoreThisIe ∨ t.code=noTftOperation ∨ t.code=deleteExistingTft) ∨
      HoldsPfs t.code t.numOfPacketFilter rest ∨ StopsAtType t.code t.numOfPacketFilter rest

theorem readPf_error {code : Nat} {l : List Byte} {e : PfStop} (he : e ≠ .short) :
    readPf code l = .error e ↔ code≠deletePacketFiltersFromExisting ∧
      ∃ flags precedence len rest,l=flags::precedence::len::rest ∧
        readComponents maxNumOfPacketFilterComponent len.val rest = .error e := by
  unfold readPf
  rw [reads_checkedOne.bind_error]
  by_cases hcode : code=deletePacketFiltersFromExisting
  · simp only [if_pos hcode]
    refine iff_of_false ?_ fun h => h.1 hcode
    rintro (hone | ⟨_,_,_,_,hok⟩)
    · exact he (checkedOne_error.mp hone).2
    · cases hok
  · simp only [if_neg hcode]
    constructor
    · rintro (hone | ⟨flags,rest,-,rfl,herr⟩)
      · exact absurd (checkedOne_error.mp hone).2 he
      · rcases reads_checkedOne.bind_error.mp herr with hone | ⟨precedence,rest',-,hrest,herr⟩
        · exact absurd (checkedOne_error.mp hone).2 he
        · rcases reads_readContent.bind_error.mp herr with hcontent | ⟨_,_,_,_,hok⟩
          · obtain ⟨len,rest'',hrest',hcs⟩ := (readContent_error he).mp hcontent
            simp only at hrest hrest'
            exact ⟨hcode,flags,precedence,len,rest'',by rw [hrest,hrest']; rfl,hcs⟩
          · cases hok
    · rintro ⟨-,flags,precedence,len,rest,rfl,hcs⟩
      refine .inr ⟨flags,precedence::len::rest,trivial,rfl,?_⟩
      refine reads_checkedOne.bind_error.mpr (.inr ⟨precedence,len::rest,trivial,rfl,?_⟩)
      exact reads_readContent.bind_error.mpr
        (.inl ((readContent_error he).mpr ⟨len,rest,rfl,hcs⟩))

theorem holdsPfs_iff {code : Nat} {l : List Byte} :
    HoldsPfs code n l ↔ ∃ r,readMany (readPf code) n l = .ok r := by
  constructor
  · rintro ⟨pfs,rest,hlen,hread,hl⟩
    exact ⟨(pfs,rest),(reads_readMany (reads_readPf code) n _ _ _).mpr ⟨⟨hlen,hread⟩,hl⟩⟩
  · rintro ⟨⟨pfs,rest⟩,hok⟩
    obtain ⟨⟨hlen,hread⟩,hl⟩ := (reads_readMany (reads_readPf code) n _ _ _).mp hok
    exact ⟨pfs,rest,hlen,hread,hl⟩

theorem stopsAtType_iff {code : Nat} {l : List Byte} :
    StopsAtType code n l ↔ readMany (readPf code) n l = .error .unknown := by
  rw [readMany_error (reads_readPf code)]
  constructor
  · rintro ⟨pfs,flags,precedence,len,content,k,cs,t,rest,hlen,hread,hcode,hl,hk,hun,
      ht⟩
    refine ⟨pfs,_,hlen,hread,hl,(readPf_error (e := .unknown) nofun).mpr
      ⟨hcode,flags,precedence,len,content,rfl,?_⟩⟩
    exact readComponents_unknown.mpr ⟨k,cs,t,rest,hk,hun,ht⟩
  · rintro ⟨pfs,rest,hlen,hread,hl,herr⟩
    obtain ⟨hcode,flags,precedence,len,content,rfl,hcs⟩ :=
      (readPf_error (e := .unknown) nofun).mp herr
    obtain ⟨k,cs,t,rest',hk,hun,ht⟩ := readComponents_unknown.mp hcs
    exact ⟨pfs,flags,precedence,len,content,k,cs,t,rest',hlen,hread,hcode,hl,hk,hun,
      ht⟩

theorem parseTft_ok : (∃ r,parseTft octets = .ok r) ↔ TftTolerated octets := by
  cases octets with
  | nil => exact iff_of_false nofun fun h => h
  | cons flags rest =>
    unfold parseTft TftTolerated
    simp only
    by_cases hignore : (⟨flags,pfArray []⟩ : Tft).code=ignoreThisIe
    · rw [if_pos hignore]
      exact iff_of_true ⟨_,rfl⟩ (.inl (.inl hignore))
    rw [if_neg hignore]
    by_cases hnone : (⟨flags,pfArray []⟩ : Tft).code=noTftOperation ∨
        (⟨flags,pfArray []⟩ : Tft).code=deleteExistingTft
    · rw [if_pos hnone]
      exact iff_of_true ⟨_,rfl⟩ (.inl (.inr hnone))
    rw [if_neg hnone,holdsPfs_iff,stopsAtType_iff,or_iff_right (not_or.mpr ⟨hignore,hnone⟩)]
    cases readMany (readPf (⟨flags,pfArray []⟩ : Tft).code)
        (⟨flags,pfArray []⟩ : Tft).numOfPacketFilter rest with
    | ok r => exact iff_of_true ⟨_,rfl⟩ (.inl ⟨r,rfl⟩)
    | error e =>
      cases e with
      | short => exact iff_of_false nofun fun h => h.elim nofun nofun
      | full => exact iff_of_false nofun fun h => h.elim nofun nofun
      | beyond => exact iff_of_false nofun fun h => h.elim nofun nofun
      | unknown => exact iff_of_true ⟨_,rfl⟩ (.inr rfl)

theorem bearerQos_flags (q : BearerQos) :
    let first : Byte := Fin.ofNat 256 (q.spare1.val*128+q.preEmptionCapability.val*64 +
      q.priorityLevel.val*4+q.spare2.val*2+q.preEmptionVulnerability.val)
    Fin.ofNat 2 (first.val / 64)=q.preEmptionCapability ∧
      Fin.ofNat 16 (first.val / 4)=q.priorityLevel ∧
      Fin.ofNat 2 first.val=q.preEmptionVulnerability := by
  have hs1:=q.spare1.isLt
  have hpec:=q.preEmptionCapability.isLt
  have hpl:=q.priorityLevel.isLt
  have hs2:=q.spare2.isLt
  have hpev:=q.preEmptionVulnerability.isLt
  refine ⟨Fin.ext ?_,Fin.ext ?_,Fin.ext ?_⟩
  · simp only [Fin.val_ofNat]
    omega
  · simp only [Fin.val_ofNat]
    omega
  · simp only [Fin.val_ofNat]
    omega

theorem parseBearerQos_built {q : BearerQos} (hw : q.rates.Whole) (data : List Byte) :
    parseBearerQos (builtQos q.bytes data).octets =
      .ok (bearerQosLen,{ q with spare1 := 0,spare2 := 0 }) := by
  obtain ⟨hpec,hpl,hpev⟩ := bearerQos_flags q
  have hrates : parseRates q.bytes 2 = .ok q.rates := parseRates_bytes [_,q.qci] hw rfl
  have hlen : q.bytes.length=bearerQosLen := by
    show q.rates.bytes.length+2=22
    rw [length_ratesBytes]
  have hqci : octetAt q.bytes 1 = .ok q.qci := rfl
  rw [builtQos_octets]
  unfold parseBearerQos
  rw [if_neg (not_not.mpr hlen),hrates,hqci]
  show Except.ok _=Except.ok _
  rw [hpec,hpl,hpev]
  rfl

theorem parseFlowQos_built {q : FlowQos} (hw : q.rates.Whole) (data : List Byte) :
    parseFlowQos (builtQos q.bytes data).octets = .ok (flowQosLen,q) := by
  have hrates : parseRates q.bytes 1 = .ok q.rates := parseRates_bytes [q.qci] hw rfl
  have hlen : q.bytes.length=flowQosLen := by
    show q.rates.bytes.length+1=21
    rw [length_ratesBytes]
  have hqci : octetAt q.bytes 0 = .ok q.qci := rfl
  rw [builtQos_octets]
  unfold parseFlowQos
  rw [if_neg (not_not.mpr hlen),hrates,hqci]
  rfl

/-- Each decoder returns exactly on the octets named here, and QoS values with whole rates come back
without their spare bits. -/
theorem decoders_return (octets data : List Byte) (b : BearerQos) (f : FlowQos) :
    (((∃ r,parseBearerQos octets = .ok r) ↔ octets.length=bearerQosLen) ∧
      ((∃ r,parseFlowQos octets = .ok r) ↔ octets.length=flowQosLen) ∧
      ((∃ r,parseTft octets = .ok r) ↔ TftTolerated octets) ∧
      ((∃ r,parseUli octets = .ok r) ↔ octets≠[]) ∧
      ∃ r,parseNodeIdentifier octets = .ok r) ∧
    (b.rates.Whole → bearerQosLen≤data.length →
      ∃ o,buildBearerQos b data = .ok (bearerQosLen,o) ∧
        parseBearerQos o.octets = .ok (bearerQosLen,{ b with spare1 := 0,spare2 := 0 })) ∧
    (f.rates.Whole → flowQosLen≤data.length →
      ∃ o,buildFlowQos f data = .ok (flowQosLen,o) ∧
        parseFlowQos o.octets = .ok (flowQosLen,f)) := by
  refine ⟨⟨parseBearerQos_ok,parseFlowQos_ok,parseTft_ok,parseUli_ok,
    parseNodeIdentifier_ok⟩,fun hw hdata => ?_,fun hw hdata => ?_⟩
  · exact ⟨_,if_neg (Nat.not_lt.mpr hdata),parseBearerQos_built hw data⟩
  · exact ⟨_,if_neg (Nat.not_lt.mpr hdata),parseFlowQos_built hw data⟩

def rates1 : QosRates := ⟨1000,2000,0,64000⟩

theorem rates1_whole : rates1.Whole :=
  ⟨⟨rfl,by decide⟩,⟨rfl,by decide⟩,⟨rfl,by decide⟩,⟨rfl,by decide⟩⟩

set_option maxRecDepth 4000 in
theorem decoders_return_rates1 :
    (∃ o,buildBearerQos ⟨0,1,9,0,1,5,rates1⟩ tftBuffer = .ok (bearerQosLen,o) ∧
        parseBearerQos o.octets = .ok (bearerQosLen,⟨0,1,9,0,1,5,rates1⟩)) ∧
      ∃ o,buildFlowQos ⟨5,rates1⟩ tftBuffer = .ok (flowQosLen,o) ∧
        parseFlowQos o.octets = .ok (flowQosLen,⟨5,rates1⟩) := by
  have hreturn:=decoders_return [] tftBuffer ⟨0,1,9,0,1,5,rates1⟩ ⟨5,rates1⟩
  exact ⟨hreturn.2.1 rates1_whole (by decide),
    hreturn.2.2 rates1_whole (by decide)⟩

/-- A Bearer QoS and a Flow QoS of one octet, and an empty TFT and ULI. -/
theorem decoders_abort :
    parseBearerQos [0] = .error .assertion ∧ parseFlowQos [0] = .error .assertion ∧
      parseTft [] = .error .assertion ∧ parseUli [] = .error .read ∧
      parseTft ([33,49,7,34]++(List.replicate 17 [48,6]).flatten) = .error .write := by
  decide

end OgsDp.Gtp
