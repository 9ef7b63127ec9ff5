import OgsDp.Core.Hash

/-!
# Information elements of PFCP rules (lib/pfcp/types.h, types.c, conv.c)

An IE is `none` when it is absent and an octet string is the list of its bytes.
-/

namespace OgsDp.Pfcp
open OgsDp.Core

section Packed

variable {n : Nat}

def memcpy (v : Vector Byte n) (data : List Byte) : Vector Byte n :=
  Vector.ofFn fun i => (data[i.val]?).getD v[i]

def be32toh (v : Vector Byte n) (k : Nat) : Vector Byte n :=
  Vector.ofFn fun i =>
    if k ≤ i.val ∧ i.val<k+4 then (v[2*k+3-i.val]?).getD 0 else v[i]

def u32 (v : Vector Byte n) (k : Nat) : BitVec 32 :=
  (List.range 4).foldr (fun i x => x*256+BitVec.ofNat 32 ((v[k+i]?).getD 0).val) 0

end Packed

def be64 (octets : List Byte) : BitVec 64 :=
  octets.foldl (fun x b => x*256+BitVec.ofNat 64 b.val) 0

abbrev Addr := Vector Byte 4
abbrev Addr6 := Vector Byte 16

structure FTeid where
  octets : Vector Byte 25
  deriving DecidableEq

namespace FTeid

def zero : FTeid := ⟨Vector.replicate 25 0⟩

def copy (f : FTeid) (data : List Byte) : FTeid := ⟨memcpy f.octets data⟩

def ntoh (f : FTeid) : FTeid := ⟨be32toh f.octets 1⟩

def ipv4 (f : FTeid) : Bool := f.octets[0].val.testBit 0
def ipv6 (f : FTeid) : Bool := f.octets[0].val.testBit 1
def ch (f : FTeid) : Bool := f.octets[0].val.testBit 2
def chid (f : FTeid) : Bool := f.octets[0].val.testBit 3

def teid (f : FTeid) : BitVec 32 := u32 f.octets 1

-- `choose_id` shares its byte with the most significant one of the TEID
def chooseId (f : FTeid) : Byte := f.octets[4]

def addr (f : FTeid) : Addr := Vector.ofFn fun i => (f.octets[5+i.val]?).getD 0
def addr6 (f : FTeid) : Addr6 := Vector.ofFn fun i => (f.octets[5+i.val]?).getD 0

def setTeid (f : FTeid) (t : BitVec 32) : FTeid :=
  ⟨memcpy f.octets (f.octets[0]::hostBytes 4 t.toNat)⟩

end FTeid

-- The flags of the addresses at hand, then the addresses; `none` stands for `OGS_ERROR`.
def fTeidOfAddrs : Option Addr → Option Addr6 → Option (FTeid × Nat)
  | none, none => none
  | some a, none => some (FTeid.zero.copy ([1,0,0,0,0]++a.toList),9)
  | none, some b => some (FTeid.zero.copy ([2,0,0,0,0]++b.toList),21)
  | some a, some b => some (FTeid.zero.copy ([3,0,0,0,0]++a.toList++b.toList),25)

def sockaddrToFTeid (addr : Option Addr) (addr6 : Option Addr6) : Option (FTeid × Nat) :=
  fTeidOfAddrs addr addr6

/-- What `ogs_user_plane_ip_resource_info_t` says about TEIDs and addresses. -/
structure IpResourceInfo where
  v4 : Bool
  v6 : Bool
  teidri : BitVec 3
  teidRange : Byte
  addr : Addr
  addr6 : Addr6

def userPlaneIpResourceInfoToFTeid (info : IpResourceInfo) (f : FTeid) : Option (FTeid × Nat) :=
  fTeidOfAddrs (if info.v4 && f.ipv4 then some info.addr else none)
    (if info.v6 && f.ipv6 then some info.addr6 else none)

def gtpuIndexToTeid (index : BitVec 32) (ind : BitVec 3) (range : Byte) : BitVec 32 :=
  index ||| (BitVec.ofNat 32 range.val <<< (32-ind.toNat))

structure Volume where
  flags : Byte
  totalVolume : BitVec 64
  uplinkVolume : BitVec 64
  downlinkVolume : BitVec 64
  deriving DecidableEq

-- One optional volume: `none` is the early `return 0`.
def parseVolumeField (octets : List Byte) (bit : Nat) (put : BitVec 64 → Volume → Volume)
    (r : Volume × Option Nat) : Volume × Option Nat :=
  match r with
  | (v,none) => (v,none)
  | (v,some size) =>
    if v.flags.val.testBit bit then
      if octets.length<size+8 then (v,none)
      else (put (be64 ((octets.drop size).take 8)) v,some (size+8))
    else (v,some size)

/-- `ogs_pfcp_parse_volume`; `beyond` is the byte behind an empty IE. -/
def parseVolume (beyond : Byte) (octets : List Byte) : Volume × Nat :=
  let r : Volume × Option Nat := (⟨octets.head?.getD beyond,0,0,0⟩,some 1)
  let r:=parseVolumeField octets 0 (fun x v => { v with totalVolume := x }) r
  let r:=parseVolumeField octets 1 (fun x v => { v with uplinkVolume := x }) r
  let r:=parseVolumeField octets 2 (fun x v => { v with downlinkVolume := x }) r
  (r.1,r.2.getD 0)

structure Bitrate where
  uplink : BitVec 64
  downlink : BitVec 64
  deriving DecidableEq

def Bitrate.zero : Bitrate := ⟨0,0⟩

/-- `ogs_pfcp_parse_bitrate`; `none` is a failed assertion. -/
def parseBitrate (octets : List Byte) : Option Bitrate :=
  if octets.length=10 then
    some ⟨be64 (octets.take 5)*1000,be64 ((octets.drop 5).take 5)*1000⟩
  else none

structure DroppedDlTrafficThreshold where
  flags : Byte
  downlinkPackets : BitVec 64
  numberOfBytesOfDownlinkData : BitVec 64
  deriving DecidableEq

/-- `ogs_pfcp_parse_dropped_dl_traffic_threshold`; `none` is a failed assertion. -/
def parseDroppedDlTrafficThreshold (beyond : Byte) (octets : List Byte) :
    Option DroppedDlTrafficThreshold :=
  let flags:=octets.head?.getD beyond
  let dlpa:=flags.val.testBit 0
  let dlby:=flags.val.testBit 1
  let size:=1+(if dlpa then 8 else 0)
  if size+(if dlby then 8 else 0)=octets.length then
    some ⟨flags,if dlpa then be64 ((octets.drop 1).take 8) else 0,
      if dlby then be64 ((octets.drop size).take 8) else 0⟩
  else none

inductive Cause where
  | requestAccepted
  | sessionContextNotFound
  | mandatoryIeMissing
  | mandatoryIeIncorrect
  | invalidFTeidAllocationOption
  | noResourcesAvailable
  | serviceNotSupported
  deriving DecidableEq

inductive IeType where
  | pdrId
  | pdi
  | sourceInterface
  | fTeid
  | farId
  | applyAction
  | urrId
  | measurementMethod
  | reportingTriggers
  | volumeThreshold
  | volumeQuota
  | qerId
  | barId
  deriving DecidableEq

/-- What a handler returns: `NULL` or `false` without a cause, the same with a cause and perhaps
an offending IE, or the rule. -/
inductive Reply where
  | absent
  | rejected (cause : Cause) (offendingIe : Option IeType)
  | rule (r : Nat)
  deriving DecidableEq

end OgsDp.Pfcp
