import OgsDp.Core.Octets
import OgsDp.Nas.Uplink

/-!
# Who gets a NAS message (src/amf/ngap-path.c)

`ngap_send_to_nas` copies a NAS PDU to a packet buffer, which it frees or hands on. A header field
that is read behind the end of the PDU is a fault.
-/

namespace OgsDp.Amf
open Lib OgsDp.Core Nas Option

def nasHeadroom : Nat := 16
def initialUeMessage : Nat := 15
def epd5gmm : Byte := 0x7e
def epd5gsm : Byte := 0x2e

/-- What `ngap_send_to_nas` needs of `amf_ue_t`. The algorithms and the access type are among those
that the library knows. -/
structure NasUe where
  ue : Nas.Ue
  accessType : Byte
  int_le : ue.selectedIntAlgorithm.val≤3
  enc_le : ue.selectedEncAlgorithm.val≤3
  accessType_le : accessType.val≤0x1f

inductive Fate where
  | freed
  | gmmQueue
  | gsmQueue
  deriving DecidableEq

/-- What a call leaves: all that became of the buffer, whether the `ran_ue` was removed, and the
result. -/
structure Delivery where
  fates : List Fate
  ranUeRemoved : Bool
  status : Status
  deriving DecidableEq

/-- The flags for the security header type of a message, where it is supported. -/
def headerFlags (type : Byte) : Option SecurityHeaderType :=
  match type.val with
  | 0 => some ⟨false,false,false,false⟩
  | 1 => some ⟨true,false,false,false⟩
  | 2 => some ⟨true,true,false,false⟩
  | 3 => some ⟨true,false,true,false⟩
  | 4 => some ⟨true,true,true,false⟩
  | _ => none

-- `ogs_pkbuf_pull`, whose result is not looked at: a buffer that is too short stays as it is.
def pullUnchecked (b : Pkbuf) (len : Nat) : Pkbuf := (b.pull len).getD b

def initialMessageTypes : List Byte := [65,76,69]

/-- `ngap_send_to_5gsm`; `pushed`: the queue takes the event. -/
def ngapSendTo5gsm (pushed : Bool) : Delivery :=
  if pushed then ⟨[.gsmQueue],false,.ok⟩ else ⟨[.freed],false,.error⟩

def handNas (hasUe pushed : Bool) (epd : Byte) : Delivery :=
  if epd=epd5gmm then
    if pushed then ⟨[.gmmQueue],false,.ok⟩ else ⟨[.freed],false,.error⟩
  else if epd=epd5gsm then
    if hasUe then ngapSendTo5gsm pushed else ⟨[.freed],false,.error⟩
  else ⟨[.freed],true,.error⟩

def dispatchNas (hasUe pushed : Bool) (procedureCode : Nat) (data : List Byte) :
    Except Fault Delivery := do
  let epd ← octetAt data 0
  if procedureCode=initialUeMessage then
    if epd≠epd5gmm then return ⟨[.freed],true,.error⟩
    let messageType ← octetAt data 2
    if messageType∉initialMessageTypes then return ⟨[.freed],true,.error⟩
  return handNas hasUe pushed epd

/-- `ngap_send_to_nas`; `stale` is what the headroom of the new buffer holds. -/
def ngapSendToNas (x : Crypto) (stale : Vector Byte nasHeadroom) (pushed : Bool)
    (amfUe : Option NasUe) (procedureCode : Nat) (nasPdu : List Byte) : Except Fault Delivery :=
  if nasPdu=[] then .ok ⟨[],true,.error⟩
  else do
    let nasbuf : Pkbuf := ⟨stale.toList,nasPdu,[]⟩
    let type ← octetAt nasbuf.data 1
    match headerFlags type with
    | none => return ⟨[],true,.error⟩
    | some flags =>
      let nasbuf := if type=0 then nasbuf else pullUnchecked nasbuf 7
      match amfUe with
      | none => dispatchNas false pushed procedureCode nasbuf.data
      | some u =>
        match nas5gsSecurityDecode x u.accessType u.ue flags nasbuf with
        | .abort _ => .error .assertion
        | .ok _ (.error,_) => return ⟨[],true,.error⟩
        | .ok _ (.ok,nasbuf) => dispatchNas true pushed procedureCode nasbuf.data

/-- `ogs_nas_encrypt` with a known algorithm. -/
def cipherOctets (x : Crypto) (algorithm : Byte) (knasEnc : Vector Byte 16) (count : BitVec 32)
    (bearer : Byte) (data : List Byte) : List Byte :=
  match algorithm.val with
  | 1 => x.snow knasEnc count bearer .uplink data
  | 2 => x.aesCtr128 knasEnc (ivec count bearer .uplink 16) data
  | 3 => x.zucEea3 knasEnc count bearer .uplink data
  | _ => data

/-- The octets behind the security header; a PDU that is shorter has none. -/
def payload (nasPdu : List Byte) : List Byte :=
  if nasPdu.getD 1 0=0 ∨ nasPdu.length<7 then nasPdu else nasPdu.drop 7

def pduOf (stale : Vector Byte nasHeadroom) (flags : SecurityHeaderType) (nasPdu : List Byte) :
    Pdu :=
  ⟨flags,
    if nasPdu.getD 1 0=0 then ⟨stale.toList,nasPdu,[]⟩
    else pullUnchecked ⟨stale.toList,nasPdu,[]⟩ 7⟩

def NasUe.plain (x : Crypto) (u : NasUe) (p : Pdu) : List Byte :=
  if u.ue.deciphers p then
    cipherOctets x u.ue.selectedEncAlgorithm u.ue.knasEnc
      (u.ue.ulCount.read (u.ue.headerReading p)).i32 u.accessType p.pkbuf.data
  else p.pkbuf.data

section Decode

variable {b : Pkbuf} {n : Nat}

theorem push_le (h : n≤b.headroom.length) :
    ∃ b',b.push n=some b' ∧ b'.headroom.length=b.headroom.length-n ∧
      b'.data.length=n+b.data.length ∧ b'.data.drop n=b.data := by
  have hsize : (b.headroom.drop (b.headroom.length-n)).length=n := by
    rw [List.length_drop]
    omega
  refine ⟨_,if_pos h,?_,?_,List.drop_left' hsize⟩
  · rw [List.length_take]
    omega
  · rw [List.length_append,hsize]

theorem pull_le (h : n≤b.data.length) :
    ∃ b',b.pull n=some b' ∧ b'.headroom.length=b.headroom.length+n ∧
      b'.data=b.data.drop n := by
  refine ⟨_,if_pos h,?_,rfl⟩
  rw [List.length_append,List.length_take]
  omega

theorem macCalculate_known (x : Crypto) {algorithm : Byte} (halg : algorithm.val≤3)
    (knasInt : Vector Byte 16) (count : BitVec 32) {bearer : Byte} (hbearer : bearer.val≤0x1f)
    (hdata : b.data≠[]) (hroom : 8≤b.headroom.length) (mac : Vector Byte 4) :
    ∃ mac' b',macCalculate x algorithm knasInt count bearer .uplink b mac=some (mac',b') ∧
      b'.data=b.data := by
  unfold macCalculate
  rw [if_pos ⟨hbearer,hdata⟩]
  obtain ⟨pushed,hpush,-⟩ := push_le hroom
  match hval : algorithm.val with
  | 0 => exact ⟨_,_,rfl,rfl⟩
  | 1 => exact ⟨_,_,rfl,rfl⟩
  | 2 =>
    simp only [hpush,map_some]
    exact ⟨_,_,rfl,rfl⟩
  | 3 => exact ⟨_,_,rfl,rfl⟩
  | n+4 => omega

theorem encrypt_known (x : Crypto) {algorithm : Byte} (halg : algorithm.val≤3)
    (knasEnc : Vector Byte 16) (count : BitVec 32) {bearer : Byte} (hbearer : bearer.val≤0x1f)
    (hdata : b.data≠[]) :
    ∃ b',encrypt x algorithm knasEnc count bearer .uplink b=some b' ∧
      b'.data=cipherOctets x algorithm knasEnc count bearer b.data := by
  unfold encrypt cipherOctets
  rw [if_pos ⟨hbearer,hdata⟩]
  match hval : algorithm.val with
  | 0 => exact ⟨_,rfl,rfl⟩
  | 1 => exact ⟨_,rfl,rfl⟩
  | 2 => exact ⟨_,rfl,rfl⟩
  | 3 => exact ⟨_,rfl,rfl⟩
  | n+4 => omega

theorem verifyMac_known (x : Crypto) {bearer : Byte} (hbearer : bearer.val≤0x1f) {w : Nas.Ue}
    (halg : w.selectedIntAlgorithm.val≤3) (mac : List Byte) (hdata : b.data≠[])
    (hroom : 8≤b.headroom.length) :
    ∃ failed b',verifyMac x bearer w mac b = .ok { w with macFailed := failed } b' ∧
      b'.data=b.data := by
  obtain ⟨mac',b',hmac,hb'⟩ := macCalculate_known x halg w.knasInt w.ulCount.i32 hbearer hdata
    hroom (Vector.replicate 4 0)
  unfold verifyMac
  rw [hmac]
  exact ⟨_,_,rfl,hb'⟩

theorem decipher_result (x : Crypto) (u : NasUe) (w : Nas.Ue) (ciphered : Bool)
    (henc : w.selectedEncAlgorithm=u.ue.selectedEncAlgorithm) :
    ∃ ue' b',(if ciphered=true then
        if b.data=[] then Outcome.ok w (Status.error,b)
        else (asserting w (encrypt x w.selectedEncAlgorithm w.knasEnc w.ulCount.i32 u.accessType
          .uplink b)).bind fun ue pkbuf => .ok ue (.ok,pkbuf)
      else .ok w (.ok,b)) =
        .ok ue' (if ciphered=true ∧ b.data=[] then .error else .ok,b') ∧
      (¬ (ciphered=true ∧ b.data=[]) → b'.data = if ciphered=true then
        cipherOctets x w.selectedEncAlgorithm w.knasEnc w.ulCount.i32 u.accessType b.data
        else b.data) := by
  cases ciphered with
  | false => exact ⟨_,_,rfl,fun _ => rfl⟩
  | true =>
    by_cases hdata : b.data=[]
    · rw [if_pos rfl,if_pos hdata,if_pos ⟨rfl,hdata⟩]
      exact ⟨_,_,rfl,fun h => absurd ⟨rfl,hdata⟩ h⟩
    · obtain ⟨b',hb',hplain⟩ := encrypt_known x (henc ▸ u.enc_le) w.knasEnc w.ulCount.i32
        u.accessType_le hdata
      rw [if_pos rfl,if_neg hdata,if_neg fun h => hdata h.2,hb']
      exact ⟨_,_,rfl,fun _ => hplain⟩

theorem securityDecode_result (x : Crypto) (u : NasUe) (p : Pdu)
    (hroom : 9≤p.pkbuf.headroom.length) :
    ∃ ue' b',nas5gsSecurityDecode x u.accessType u.ue p.type p.pkbuf =
        .ok ue' (if u.ue.deciphers p ∧ p.pkbuf.data=[] then .error else .ok,b') ∧
      (¬ (u.ue.deciphers p ∧ p.pkbuf.data=[]) → b'.data=u.plain x p) := by
  unfold nas5gsSecurityDecode securityDecode
  simp only
  generalize hstart : (if (u.ue.securityContextAvailable && p.type.newSecurityContext)=true then
    { u.ue with ulCount := .zero } else u.ue)=w
  have hw : w = { u.ue with ulCount := if u.ue.restarted p then .zero else u.ue.ulCount } := by
    rw [← hstart]
    unfold Ue.restarted
    split <;> rfl
  have henc : w.selectedEncAlgorithm=u.ue.selectedEncAlgorithm := by rw [hw]
  have hint : w.selectedIntAlgorithm=u.ue.selectedIntAlgorithm := by rw [hw]
  have hknas : w.knasEnc=u.ue.knasEnc := by rw [hw]
  rw [henc,hint]
  change ∃ ue' b',(if (u.ue.deciphers p || u.ue.checksHeader p)=true then _ else _)=_ ∧ _
  by_cases hprotected : (u.ue.deciphers p || u.ue.checksHeader p)=true
  · rw [if_pos hprotected]
    obtain ⟨h,hpush,hhead,hlen,hdrop⟩ := push_le (b := p.pkbuf) (n := 7) (by omega)
    obtain ⟨b₁,hpull,hhead₁,hdata₁⟩ := pull_le (b := h) (n := 6) (by omega)
    have hlen₁ : b₁.data.length=1+p.pkbuf.data.length := by
      rw [hdata₁,List.length_drop]
      omega
    have hcount : w.ulCount.estimate (BitVec.ofNat 8 (h.byteAt 6).val) =
        u.ue.ulCount.read (u.ue.headerReading p) := by
      have hreading : u.ue.headerReading p = .full (u.ue.restarted p)
          (BitVec.ofNat 8 (p.pkbuf.headroom.getLastD 0).val) := if_pos hprotected
      rw [hreading,← push_byteAt (by decide) hpush,hw]
      cases u.ue.restarted p <;> rfl
    have hnext {σ α : Type} (s : σ) (a : α) : asserting s (some a) = .ok s a := rfl
    simp only [hpush,hnext,Outcome.bind_ok,Nat.reduceSub,hpull,hcount]
    generalize hv : ({ w with ulCount := u.ue.ulCount.read (u.ue.headerReading p) } : Nas.Ue)=v
    have hencv : v.selectedEncAlgorithm=u.ue.selectedEncAlgorithm := by rw [← hv]; exact henc
    have hintv : v.selectedIntAlgorithm=u.ue.selectedIntAlgorithm := by rw [← hv]; exact hint
    have hverified : ∃ failed b₂,(if u.ue.checksHeader p=true then
        verifyMac x u.accessType v ((h.data.drop 2).take 4) b₁ else .ok v b₁) =
          .ok { v with macFailed := failed } b₂ ∧ b₂.data=b₁.data := by
      by_cases hchecks : u.ue.checksHeader p=true
      · rw [if_pos hchecks]
        have hne : b₁.data≠[] := List.ne_nil_of_length_pos (by omega)
        exact verifyMac_known x u.accessType_le (hintv ▸ u.int_le) _ hne (by omega)
      · rw [if_neg hchecks]
        exact ⟨v.macFailed,b₁,rfl,rfl⟩
    obtain ⟨failed,b₂,hmac,hdata₂⟩ := hverified
    change (if (u.ue.securityContextAvailable && p.type.integrityProtected &&
      u.ue.selectedIntAlgorithm != 0)=true then _ else _)=_ at hmac
    obtain ⟨b₃,hpull₃,-,hdata₃⟩ := pull_le (b := b₂) (n := 1) (by rw [hdata₂]; omega)
    have hplain : b₃.data=p.pkbuf.data := by
      rw [hdata₃,hdata₂,hdata₁,List.drop_drop]
      exact hdrop
    have hread : v.ulCount=u.ue.ulCount.read (u.ue.headerReading p) := by rw [← hv]
    have hkeyv : v.knasEnc=u.ue.knasEnc := by rw [← hv]; exact hknas
    obtain ⟨ue',b',hend,hleft⟩ := decipher_result (b := b₃) x u { v with macFailed := failed }
      (u.ue.deciphers p) hencv
    rw [hplain] at hend hleft
    refine ⟨ue',b',?_,fun hne => ?_⟩
    · simp only [hmac,Outcome.bind_ok,hpull₃,hnext]
      rw [← hend,hplain]
      rfl
    · rw [hleft hne]
      unfold NasUe.plain
      simp only [hencv,hkeyv,hread]
  · rw [if_neg hprotected]
    have hno : ¬ u.ue.deciphers p=true := fun h => hprotected (by rw [h]; rfl)
    refine ⟨w,p.pkbuf,?_,fun _ => ?_⟩
    · rw [if_neg fun h => hno h.1]
    · exact (if_neg hno).symm

end Decode

def message (x : Crypto) (stale : Vector Byte nasHeadroom) (amfUe : Option NasUe)
    (flags : SecurityHeaderType) (nasPdu : List Byte) : List Byte :=
  match amfUe with
  | none => payload nasPdu
  | some u => u.plain x (pduOf stale flags nasPdu)

/-- A PDU of a supported type whose octets suffice. A UE that deciphers needs an octet behind the
header, and an initial message of mobility management its message type. -/
structure Handled (x : Crypto) (stale : Vector Byte nasHeadroom) (amfUe : Option NasUe)
    (procedureCode : Nat) (flags : SecurityHeaderType) (nasPdu : List Byte) : Prop where
  decipherable : ∀ u,amfUe=some u → u.ue.deciphers (pduOf stale flags nasPdu) →
    payload nasPdu≠[]
  message_ne_nil : message x stale amfUe flags nasPdu≠[]
  initial : procedureCode=initialUeMessage →
    (message x stale amfUe flags nasPdu).head?=some epd5gmm →
    3≤(message x stale amfUe flags nasPdu).length

/-- The call returns, and one thing became of the buffer, if there is one. -/
def OwnedOnce (nasPdu : List Byte) (call : Except Fault Delivery) : Prop :=
  Gives call fun d => d.fates.length = if nasPdu=[] then 0 else 1

section Owned

variable (x : Crypto) (stale : Vector Byte nasHeadroom) (pushed : Bool) (procedureCode : Nat)

theorem handNas_fate (hasUe : Bool) (epd : Byte) :
    (handNas hasUe pushed epd).fates.length=1 := by
  have h5gsm : (ngapSendTo5gsm pushed).fates.length=1 := by cases pushed <;> rfl
  unfold handNas
  split
  · split <;> rfl
  · split
    · split
      · exact h5gsm
      · rfl
    · rfl

theorem dispatchNas_fate (hasUe : Bool) (data : List Byte) :
    Gives (dispatchNas hasUe pushed procedureCode data) (fun d => d.fates.length=1) ↔
      data≠[] ∧ (procedureCode=initialUeMessage → data.head?=some epd5gmm →
        3≤data.length) := by
  cases data with
  | nil => exact iff_of_false not_gives_error fun h => h.1 rfl
  | cons epd rest =>
    have hepd : octetAt (epd::rest) 0 = .ok epd := rfl
    have hlast:=handNas_fate pushed hasUe epd
    rw [and_iff_right (List.cons_ne_nil epd rest),List.head?_cons,some_inj]
    simp only [dispatchNas,hepd,ok_bind]
    by_cases hcode : procedureCode=initialUeMessage
    · rw [if_pos hcode]
      by_cases hgmm : epd=epd5gmm
      · rw [if_neg (not_not.mpr hgmm)]
        by_cases hlen : 3≤(epd::rest).length
        · rw [octetAt_of_lt hlen]
          refine iff_of_true ?_ fun _ _ => hlen
          simp only [ok_bind]
          split
          · exact gives_ok.mpr rfl
          · exact gives_ok.mpr hlast
        · rw [octetAt_of_le (by omega)]
          exact iff_of_false not_gives_error fun h => hlen (h hcode hgmm)
      · rw [if_pos hgmm]
        exact iff_of_true (gives_ok.mpr rfl) fun _ h => absurd h hgmm
    · rw [if_neg hcode]
      exact iff_of_true (gives_ok.mpr hlast) fun h => absurd h hcode

theorem pduOf_pkbuf (flags : SecurityHeaderType) (nasPdu : List Byte) :
    9≤(pduOf stale flags nasPdu).pkbuf.headroom.length ∧
      (pduOf stale flags nasPdu).pkbuf.data=payload nasPdu := by
  have hroom : stale.toList.length=16 := Vector.length_toList
  unfold pduOf payload
  by_cases htype : nasPdu.getD 1 0=0
  · simp only [htype,true_or,if_true]
    exact ⟨by omega,trivial⟩
  · simp only [htype,false_or,if_false]
    unfold pullUnchecked
    by_cases hlen : 7≤nasPdu.length
    · obtain ⟨b,hpull,hhead,hdata⟩ := pull_le (b := ⟨stale.toList,nasPdu,[]⟩) (n := 7) hlen
      have hhead' : b.headroom.length=stale.toList.length+7 := hhead
      rw [hpull,if_neg (Nat.not_lt.mpr hlen),getD_some]
      exact ⟨by omega,hdata⟩
    · have hpull : Pkbuf.pull ⟨stale.toList,nasPdu,[]⟩ 7=none := if_neg hlen
      rw [hpull,if_pos (Nat.lt_of_not_le hlen),getD_none]
      exact ⟨show 9 ≤ stale.toList.length by omega,rfl⟩

theorem ngapSendToNas_supported (amfUe : Option NasUe) {flags : SecurityHeaderType}
    {nasPdu : List Byte} (hlen : 2≤nasPdu.length)
    (htype : headerFlags (nasPdu.getD 1 0)=some flags) :
    OwnedOnce nasPdu (ngapSendToNas x stale pushed amfUe procedureCode nasPdu) ↔
      Handled x stale amfUe procedureCode flags nasPdu := by
  have hne : nasPdu≠[] := List.ne_nil_of_length_pos (by omega)
  obtain ⟨hroom,hdata⟩ := pduOf_pkbuf stale flags nasPdu
  have htype' : octetAt nasPdu 1 = .ok (nasPdu.getD 1 0) := octetAt_of_lt (by omega)
  unfold OwnedOnce ngapSendToNas
  rw [if_neg hne,if_neg hne]
  simp only [htype',ok_bind,htype]
  have hbuf : (if nasPdu.getD 1 0=0 then (⟨stale.toList,nasPdu,[]⟩ : Pkbuf)
      else pullUnchecked ⟨stale.toList,nasPdu,[]⟩ 7)=(pduOf stale flags nasPdu).pkbuf := rfl
  rw [hbuf]
  cases amfUe with
  | none =>
    simp only [hdata]
    rw [dispatchNas_fate]
    constructor
    · exact fun ⟨hmessage,hinitial⟩ => ⟨nofun,hmessage,hinitial⟩
    · exact fun h => ⟨h.message_ne_nil,h.initial⟩
  | some u =>
    obtain ⟨ue',b',hdecode,hplain⟩ := securityDecode_result x u (pduOf stale flags nasPdu) hroom
    have hflags : (pduOf stale flags nasPdu).type=flags := rfl
    rw [hflags] at hdecode
    simp only [hdecode]
    by_cases hshort : u.ue.deciphers (pduOf stale flags nasPdu) ∧
        (pduOf stale flags nasPdu).pkbuf.data=[]
    · rw [if_pos hshort]
      rw [hdata] at hshort
      refine iff_of_false (fun h => ?_) fun h => h.decipherable u rfl hshort.1 hshort.2
      exact absurd (gives_ok.mp h) (by decide)
    · rw [if_neg hshort]
      simp only [hplain hshort]
      rw [dispatchNas_fate]
      rw [hdata] at hshort
      constructor
      · intro ⟨hmessage,hinitial⟩
        refine ⟨fun v hv hciphered hempty => ?_,hmessage,hinitial⟩
        cases hv
        exact hshort ⟨hciphered,hempty⟩
      · exact fun h => ⟨h.message_ne_nil,h.initial⟩

/-- The buffer of a PDU is handed to one consumer or freed once, with no read behind the PDU, where
the PDU has a supported type and the octets that are looked at. -/
theorem nas_pdu_ownership (amfUe : Option NasUe) (nasPdu : List Byte) :
    OwnedOnce nasPdu (ngapSendToNas x stale pushed amfUe procedureCode nasPdu) ↔
      nasPdu=[] ∨ 2≤nasPdu.length ∧ ∃ flags,headerFlags (nasPdu.getD 1 0)=some flags ∧
        Handled x stale amfUe procedureCode flags nasPdu := by
  by_cases hempty : nasPdu=[]
  · refine iff_of_true ?_ (.inl hempty)
    unfold OwnedOnce ngapSendToNas
    rw [if_pos hempty,if_pos hempty]
    exact gives_ok.mpr rfl
  · rw [or_iff_right hempty]
    by_cases hlen : 2≤nasPdu.length
    · rw [and_iff_right hlen]
      cases htype : headerFlags (nasPdu.getD 1 0) with
      | some flags =>
        rw [ngapSendToNas_supported x stale pushed procedureCode amfUe hlen htype]
        constructor
        · exact fun h => ⟨flags,rfl,h⟩
        · intro ⟨flags',hflags,h⟩
          cases hflags
          exact h
      | none =>
        -- The exit for a type that is not supported drops the buffer.
        refine iff_of_false (fun h => ?_) nofun
        have htype' : octetAt nasPdu 1 = .ok (nasPdu.getD 1 0) := octetAt_of_lt (by omega)
        unfold OwnedOnce ngapSendToNas at h
        rw [if_neg hempty,if_neg hempty] at h
        simp only [htype',ok_bind,htype] at h
        exact absurd (gives_ok.mp h) (by decide)
    · refine iff_of_false (fun h => ?_) fun h => hlen h.1
      unfold OwnedOnce ngapSendToNas at h
      rw [if_neg hempty] at h
      simp only [octetAt_of_le (Nat.le_of_lt_succ (Nat.lt_of_not_le hlen))] at h
      exact not_gives_error h

end Owned

/-- A message of a type that is not supported is not freed, and a PDU of one octet is read behind
its end, as is an initial message of two. -/
theorem nas_pdu_ownership_dropped :
    ngapSendToNas crypto1 (Vector.replicate 16 0) true none initialUeMessage [0x7e,5] =
        .ok ⟨[],true,.error⟩ ∧
      ngapSendToNas crypto1 (Vector.replicate 16 0) true none initialUeMessage [0x7e] =
        .error .read ∧
      ngapSendToNas crypto1 (Vector.replicate 16 0) true none initialUeMessage [0x7e,0] =
        .error .read ∧
      ¬ ∀ (x : Crypto) (stale : Vector Byte nasHeadroom) (pushed : Bool) (procedureCode : Nat)
        (amfUe : Option NasUe) (nasPdu : List Byte),
        OwnedOnce nasPdu (ngapSendToNas x stale pushed amfUe procedureCode nasPdu) := by
  refine ⟨rfl,rfl,rfl,fun h => ?_⟩
  exact absurd (gives_ok.mp (h crypto1 (Vector.replicate 16 0) true initialUeMessage none
    [0x7e,5])) (by decide)

end OgsDp.Amf
