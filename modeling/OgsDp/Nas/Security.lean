import OgsDp.Core.Pkbuf
import OgsDp.Lib.Run
import OgsDp.Pfcp.Types

/-!
# NAS security (lib/nas/common/security.c)

The algorithms are parameters. The counts and keys of a UE are the part of `amf_ue_t` and
`mme_ue_t` that the NAS security functions read and write.
-/

namespace OgsDp.Nas
open Lib OgsDp.Core

structure SecurityHeaderType where
  integrityProtected : Bool
  ciphered : Bool
  newSecurityContext : Bool
  serviceRequest : Bool
  deriving DecidableEq

structure UlCount where
  spare : BitVec 8
  overflow : BitVec 16
  sqn : BitVec 8
  deriving DecidableEq

namespace UlCount

def zero : UlCount := ⟨0,0,0⟩

def i32 (c : UlCount) : BitVec 32 := c.spare++c.overflow++c.sqn

def estimate (c : UlCount) (sqn : BitVec 8) : UlCount :=
  if sqn<c.sqn then { c with overflow := c.overflow+1,sqn := sqn } else { c with sqn := sqn }

def estimatedSequenceNumber (c : UlCount) (sequenceNumber : BitVec 5) : BitVec 8 :=
  let high:=c.sqn &&& 0xe0
  let high := if sequenceNumber.setWidth 8<c.sqn &&& 0x1f then high+0x20 else high
  sequenceNumber.setWidth 8+high

end UlCount

structure Ue where
  securityContextAvailable : Bool
  macFailed : Bool
  knasInt : Vector Byte 16
  knasEnc : Vector Byte 16
  dlCount : BitVec 32
  ulCount : UlCount
  selectedEncAlgorithm : Byte
  selectedIntAlgorithm : Byte
  deriving DecidableEq

inductive Direction where
  | uplink
  | downlink
  deriving DecidableEq

def Direction.value : Direction → Byte
  | .uplink => 0
  | .downlink => 1

/-- The algorithms for integrity and ciphering: the key, the count, the bearer and the direction
for some data. -/
structure Crypto where
  snow3gF9 : Vector Byte 16 → BitVec 32 → BitVec 32 → Direction → List Byte → Vector Byte 4
  aesCmac : Vector Byte 16 → List Byte → Vector Byte 16
  zucEia3 : Vector Byte 16 → BitVec 32 → Byte → Direction → List Byte → Vector Byte 4
  snow : Vector Byte 16 → BitVec 32 → Byte → Direction → List Byte → List Byte
  aesCtr128 : Vector Byte 16 → List Byte → List Byte → List Byte
  zucEea3 : Vector Byte 16 → BitVec 32 → Byte → Direction → List Byte → List Byte

def ivec (count : BitVec 32) (bearer : Byte) (direction : Direction) (size : Nat) : List Byte :=
  netBytes 4 count.toNat ++
    Fin.ofNat 256 (bearer.val*8+direction.value.val*4)::List.replicate (size-5) 0

/-- `ogs_nas_mac_calculate`; `mac` is what the array of the caller holds. -/
def macCalculate (x : Crypto) (algorithmIdentity : Byte) (knasInt : Vector Byte 16)
    (count : BitVec 32) (bearer : Byte) (direction : Direction) (pkbuf : Pkbuf)
    (mac : Vector Byte 4) : Option (Vector Byte 4 × Pkbuf) :=
  if bearer.val≤0x1f ∧ pkbuf.data≠[] then
    match algorithmIdentity.val with
    | 0 => some (mac,pkbuf)
    | 1 =>
      some (x.snow3gF9 knasInt count (BitVec.ofNat 32 (bearer.val*2^27)) direction pkbuf.data,
        pkbuf)
    | 2 =>
      -- The octets in front of the data are overwritten.
      (pkbuf.push 8).map fun b =>
        let iv:=ivec count bearer direction 8
        (Pfcp.memcpy mac ((x.aesCmac knasInt (iv++pkbuf.data)).toList.take 4),
          { b with headroom := b.headroom++iv,data := pkbuf.data })
    | 3 => some (x.zucEia3 knasInt count bearer direction pkbuf.data,pkbuf)
    | _ => none
  else none

def encrypt (x : Crypto) (algorithmIdentity : Byte) (knasEnc : Vector Byte 16)
    (count : BitVec 32) (bearer : Byte) (direction : Direction) (pkbuf : Pkbuf) : Option Pkbuf :=
  if bearer.val≤0x1f ∧ pkbuf.data≠[] then
    match algorithmIdentity.val with
    | 0 => some pkbuf
    | 1 => some { pkbuf with data := x.snow knasEnc count bearer direction pkbuf.data }
    | 2 =>
      some { pkbuf with
        data := x.aesCtr128 knasEnc (ivec count bearer direction 16) pkbuf.data }
    | 3 => some { pkbuf with data := x.zucEea3 knasEnc count bearer direction pkbuf.data }
    | _ => none
  else none

def asserting {σ α : Type} (s : σ) : Option α → Outcome σ α
  | some a => .ok s a
  | none => .abort s

inductive Status where
  | ok
  | error
  deriving DecidableEq

def restoreMac (b : Pkbuf) (originalMac : List Byte) : Pkbuf :=
  { b with headroom := b.headroom.take (b.headroom.length-4)++originalMac }

def verifyMac (x : Crypto) (bearer : Byte) (ue : Ue) (originalMac : List Byte) (pkbuf : Pkbuf) :
    Outcome Ue Pkbuf :=
  (asserting ue (macCalculate x ue.selectedIntAlgorithm ue.knasInt ue.ulCount.i32 bearer .uplink
    pkbuf (Vector.replicate 4 0))).bind fun ue r =>
      .ok { ue with macFailed := ue.macFailed || originalMac != r.1.toList }
        (restoreMac r.2 originalMac)

def securityDecode (x : Crypto) (headerLen : Nat) (bearer : Byte) (ue : Ue)
    (type : SecurityHeaderType) (pkbuf : Pkbuf) : Outcome Ue (Status × Pkbuf) :=
  let available:=ue.securityContextAvailable
  let ue := if available && type.newSecurityContext then { ue with ulCount := .zero } else ue
  let ciphered:=available && type.ciphered && ue.selectedEncAlgorithm != 0
  let integrityProtected:=available && type.integrityProtected && ue.selectedIntAlgorithm != 0
  if ciphered || integrityProtected then
    (asserting ue (pkbuf.push headerLen)).bind fun ue h =>
      (asserting ue (h.pull (headerLen-1))).bind fun ue pkbuf =>
        let ue:={ ue with
          ulCount := ue.ulCount.estimate (BitVec.ofNat 8 (h.byteAt (headerLen-1)).val) }
        (if integrityProtected then
          verifyMac x bearer ue ((h.data.drop (headerLen-5)).take 4) pkbuf
        else .ok ue pkbuf).bind fun ue pkbuf =>
          (asserting ue (pkbuf.pull 1)).bind fun ue pkbuf =>
            if ciphered then
              if pkbuf.data=[] then .ok ue (.error,pkbuf)
              else (asserting ue (encrypt x ue.selectedEncAlgorithm ue.knasEnc ue.ulCount.i32 bearer
                .uplink pkbuf)).bind fun ue pkbuf => .ok ue (.ok,pkbuf)
            else .ok ue (.ok,pkbuf)
  else .ok ue (.ok,pkbuf)

structure Message (μ : Type) where
  securityHeaderType : Byte
  protocolDiscriminator : Byte
  body : μ

namespace Message

variable {μ : Type}

def integrityProtected (m : Message μ) : Bool :=
  1 ≤ m.securityHeaderType.val && m.securityHeaderType.val≤4

def ciphered (m : Message μ) : Bool :=
  m.securityHeaderType.val == 2 || m.securityHeaderType.val == 4

def newSecurityContext (m : Message μ) : Bool :=
  m.securityHeaderType.val == 3 || m.securityHeaderType.val == 4

end Message

-- `header` is what is in front of the MAC.
def protect (x : Crypto) (header : List Byte) (bearer : Byte) (ue : Ue)
    (integrityProtected ciphered : Bool) (plain : Pkbuf) : Outcome Ue (Option Pkbuf) :=
  let sequenceNumber : Byte := Fin.ofNat 256 ue.dlCount.toNat
  (if ciphered then
    asserting ue (encrypt x ue.selectedEncAlgorithm ue.knasEnc ue.dlCount bearer .downlink plain)
  else .ok ue plain).bind fun ue new =>
    (asserting ue (new.push 1)).bind fun ue new =>
      let new:={ new with data := sequenceNumber::new.data.drop 1 }
      (if integrityProtected then
        asserting ue (macCalculate x ue.selectedIntAlgorithm ue.knasInt ue.dlCount bearer .downlink
          new (Vector.replicate 4 0))
      else .ok ue (Vector.replicate 4 0,new)).bind fun ue r =>
        let ue:={ ue with dlCount := (ue.dlCount+1) &&& 0xffffff }
        let h:=header++r.1.toList++[sequenceNumber]
        (asserting ue (r.2.push (h.length-1))).bind fun ue new =>
          .ok { ue with securityContextAvailable := true }
            (some { new with data := h++new.data.drop h.length })

def securityEncode {μ : Type} (x : Crypto) (plainEncode : Message μ → Option Pkbuf)
    (header : List Byte) (bearer : Byte) (ue : Ue) (message : Message μ) :
    Outcome Ue (Option Pkbuf) :=
  if message.securityHeaderType=0 then .ok ue (plainEncode message)
  else if message.integrityProtected then
    let ue := if message.newSecurityContext then { ue with dlCount := 0,ulCount := .zero } else ue
    match plainEncode message with
    | none => .ok ue none
    | some plain =>
      protect x header bearer ue (ue.selectedIntAlgorithm != 0)
        (message.ciphered && ue.selectedEncAlgorithm != 0) plain
  else .ok ue none

end OgsDp.Nas

/-! ### NAS security of the AMF (src/amf/nas-security.c) -/

namespace OgsDp.Amf
open Lib OgsDp.Core Nas

/-- `nas_5gs_security_encode`; `accessType` is `amf_ue->nas.access_type`. -/
def nas5gsSecurityEncode {μ : Type} (x : Crypto) (plainEncode : Message μ → Option Pkbuf)
    (accessType : Byte) (amfUe : Ue) (message : Message μ) : Outcome Ue (Option Pkbuf) :=
  securityEncode x plainEncode [message.protocolDiscriminator,message.securityHeaderType]
    accessType amfUe message

def nas5gsSecurityDecode (x : Crypto) (accessType : Byte) (amfUe : Ue)
    (securityHeaderType : SecurityHeaderType) (pkbuf : Pkbuf) : Outcome Ue (Status × Pkbuf) :=
  securityDecode x 7 accessType amfUe securityHeaderType pkbuf

end OgsDp.Amf

/-! ### NAS security of the MME (src/mme/nas-security.c) -/

namespace OgsDp.Mme
open Lib OgsDp.Core Nas

def nasSecurityBearer : Byte := 0

def nasEpsSecurityEncode {μ : Type} (x : Crypto) (plainEncode : Message μ → Option Pkbuf)
    (mmeUe : Ue) (message : Message μ) : Outcome Ue (Option Pkbuf) :=
  securityEncode x plainEncode
    [Fin.ofNat 256 (message.securityHeaderType.val*16+message.protocolDiscriminator.val % 16)]
    nasSecurityBearer mmeUe message

def sequenceNumber (pkbuf : Pkbuf) : BitVec 5 := BitVec.ofNat 5 (pkbuf.byteAt 1).val

def serviceRequestDecode (x : Crypto) (mmeUe : Ue) (pkbuf : Pkbuf) : Outcome Ue (Status × Pkbuf) :=
  if mmeUe.selectedIntAlgorithm=0 then .ok mmeUe (.error,pkbuf)
  else
    let ulCount:=mmeUe.ulCount
    let mmeUe:={ mmeUe with
      ulCount := ulCount.estimate (ulCount.estimatedSequenceNumber (sequenceNumber pkbuf)) }
    let originalMac:=[pkbuf.byteAt 2,pkbuf.byteAt 3]
    (asserting mmeUe (macCalculate x mmeUe.selectedIntAlgorithm mmeUe.knasInt mmeUe.ulCount.i32
      nasSecurityBearer .uplink (pkbuf.trim 2) (Vector.replicate 4 0))).bind fun mmeUe r =>
        (asserting mmeUe (r.2.putData originalMac)).bind fun mmeUe pkbuf =>
          .ok { mmeUe with
            macFailed := mmeUe.macFailed ||
              r.1.toList.drop 2 != [pkbuf.byteAt 2,pkbuf.byteAt 3] } (.ok,pkbuf)

def nasEpsSecurityDecode (x : Crypto) (mmeUe : Ue) (securityHeaderType : SecurityHeaderType)
    (pkbuf : Pkbuf) : Outcome Ue (Status × Pkbuf) :=
  if securityHeaderType.serviceRequest then serviceRequestDecode x mmeUe pkbuf
  else securityDecode x 6 nasSecurityBearer mmeUe securityHeaderType pkbuf

end OgsDp.Mme
