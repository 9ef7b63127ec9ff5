import OgsDp.Core.Hash
import OgsDp.Lib.Checked

/-!
# Protocol Configuration Options (src/smf/context.c and lib/proto/types.c)

The answer lists, for each container the UE sent, what the SMF has to say, as pointers to local
variables; the text is built when all containers are done.
-/

namespace OgsDp.Smf
open Lib OgsDp.Core

def maxNumOfId : Nat := 32
def maxNumOfIpcp : Nat := 4
def maxNumOfIpcpOptions : Nat := 4
def maxPcoLen : Nat := 251

/-- A container: its id and its octets, of which one octet gives the number. -/
structure PcoId where
  id : BitVec 16
  data : List Byte
  len_lt : data.length<256

def PcoId.encode (c : PcoId) : List Byte :=
  netBytes 2 c.id.toNat++Fin.ofNat 256 c.data.length::c.data

def takeOctets (len : Byte) (rest : List Byte) : Option { data : List Byte // data.length<256 } :=
  if len.val ≤ rest.length then
    some ⟨rest.take len.val,Nat.lt_of_le_of_lt (List.length_take_le _ _) len.isLt⟩
  else none

def pcoParseIds : Nat → List Byte → Except Fault (List PcoId)
  | _, [] => .ok []
  | n+1, high::low::len::rest =>
    match takeOctets len rest with
    | none => .error .assertion
    | some data => do
      let ids ← pcoParseIds n (rest.drop len.val)
      .ok (⟨BitVec.ofNat 16 (high.val*256+low.val),data.1,data.2⟩::ids)
  | _, _ => .error .assertion

def pcoParse : List Byte → Except Fault (Byte × List PcoId)
  | [] => .error .assertion
  | header::rest => do
    let ids ← pcoParseIds maxNumOfId rest
    .ok (header,ids)

/-- The addresses that `ogs_ipsubnet` makes of the texts that the configuration accepted. -/
structure PcoConfig where
  dns : Option (Vector Byte 4) × Option (Vector Byte 4)
  dns6 : Option (Vector Byte 16) × Option (Vector Byte 16)
  pCscf : List (Vector Byte 4)
  pCscf6 : List (Vector Byte 16)
  mtu : BitVec 16
  papWelcome : List Byte

/-- An index into a list that is not empty. -/
structure Cursor {α : Type} (l : List α) where
  index : Nat
  valid : l≠[] → index<l.length

namespace Cursor

variable {α : Type} {l : List α}

def get (i : Cursor l) (hl : l≠[]) : α := l.get ⟨i.index,i.valid hl⟩

def first (l : List α) : Cursor l := ⟨0,List.length_pos_iff.mpr⟩

def next (i : Cursor l) : Cursor l where
  index := (i.index+1) % l.length
  valid := fun hl => Nat.mod_lt _ (List.length_pos_iff.mpr hl)

end Cursor

/-- What `data` of an `ogs_pco_id_t` of the answer points to. -/
inductive AnswerData where
  | null
  | pap
  | chap
  | ipcp (n : Nat)
  | octets (bytes : List Byte)
  | pCscf
  | pCscf6

structure AnswerId where
  id : BitVec 16
  len : Byte
  data : AnswerData

/-- The local variables of `smf_pco_build`, and the indices of `smf_self()`. -/
structure SmfPco (cfg : PcoConfig) where
  ids : List AnswerId
  pap : List Byte
  chap : List Byte
  ipcp : List (List Byte)
  pCscf : List Byte
  pCscf6 : List Byte
  pCscfIndex : Cursor cfg.pCscf
  pCscf6Index : Cursor cfg.pCscf6

def readOctet (data : List Byte) (i : Nat) : Except Fault Byte :=
  match data[i]? with
  | none => .error .read
  | some b => .ok b

def addId {cfg : PcoConfig} (s : SmfPco cfg) (id : BitVec 16) (len : Nat) (data : AnswerData) :
    Except Fault (SmfPco cfg) :=
  if s.ids.length < maxNumOfId then
    .ok { s with ids := s.ids++[⟨id,Fin.ofNat 256 len,data⟩] }
  else .error .write

/-- `ipcp_contains_option`, from the option at `rest` with `room` octets claimed to be left; an
option is read in six octets. -/
def ipcpContainsOption (opt : Byte) (rest : List Byte) (room : Nat) : Except Fault Bool :=
  if room<6 then .ok false
  else
    match rest with
    | type::len::_ =>
      if len.val<2 then .ok false
      else if type=opt ∧ 6≤len.val then .ok true
      else ipcpContainsOption opt (rest.drop len.val) (room-len.val)
    | _ => .error .read
termination_by room
decreasing_by omega

def primaryDns : Byte := 129
def secondaryDns : Byte := 131

def dnsOption (opt : Byte) (dns : Option (Vector Byte 4)) (data : List Byte) (len : Nat)
    (options : List (List Byte)) : Except Fault (List (List Byte)) :=
  match dns with
  | none => .ok options
  | some addr => do
    let found ← ipcpContainsOption opt (data.drop 4) (len-4)
    if found then
      if options.length ≤ maxNumOfIpcpOptions then
        if options.length < maxNumOfIpcpOptions then
          .ok (options++[opt::6::addr.toList])
        else .error .write
      else .error .assertion
    else .ok options

inductive PcoKind where
  | pap
  | chap
  | ipcp
  | dns
  | dns6
  | pCscf
  | pCscf6
  | mtu
  | localAddrTft
  | other
  deriving DecidableEq

def pcoKind (id : BitVec 16) : PcoKind :=
  if id=0xc023 then .pap
  else if id=0xc223 then .chap
  else if id=0x8021 then .ipcp
  else if id=0x000d then .dns
  else if id=0x0003 then .dns6
  else if id=0x000c then .pCscf
  else if id=0x0001 then .pCscf6
  else if id=0x0010 then .mtu
  else if id=0x0011 then .localAddrTft
  else .other

section Containers

variable {cfg : PcoConfig}

def papSize (cfg : PcoConfig) : Nat := 4+1+cfg.papWelcome.length % 256

def papAck (cfg : PcoConfig) (identifier : Byte) : List Byte :=
  2::identifier::(netBytes 2 (papSize cfg) ++
    Fin.ofNat 256 cfg.papWelcome.length::cfg.papWelcome.take (cfg.papWelcome.length % 256))

-- A request with the code `code` and an identifier, which is put into the answer.
def pcoRequest (s : SmfPco cfg) (c : PcoId) (code : Byte) (len : Nat) (data : AnswerData)
    (put : SmfPco cfg → Byte → SmfPco cfg) : Except Fault (SmfPco cfg) := do
  let first ← readOctet c.data 0
  if first=code then
    let identifier ← readOctet c.data 1
    addId (put s identifier) c.id len data
  else .ok s

def pcoPap (s : SmfPco cfg) (c : PcoId) : Except Fault (SmfPco cfg) :=
  pcoRequest s c 1 (papSize cfg) .pap fun s identifier => { s with pap := papAck cfg identifier }

def pcoChap (s : SmfPco cfg) (c : PcoId) : Except Fault (SmfPco cfg) :=
  pcoRequest s c 2 4 .chap fun s identifier => { s with chap := 3::identifier::netBytes 2 4 }

def pcoIpcp (s : SmfPco cfg) (c : PcoId) : Except Fault (SmfPco cfg) := do
  let code ← readOctet c.data 0
  if code=1 then
    if cfg.dns.1.isSome ∨ cfg.dns.2.isSome then
      let high ← readOctet c.data 2
      let low ← readOctet c.data 3
      let len:=high.val*256+low.val
      if s.ipcp.length ≤ maxNumOfIpcp then
        if s.ipcp.length < maxNumOfIpcp then
          let identifier ← readOctet c.data 1
          let options ← dnsOption primaryDns cfg.dns.1 c.data len []
          let options ← dnsOption secondaryDns cfg.dns.2 c.data len options
          let outLen:=4+6*options.length
          addId { s with
            ipcp := s.ipcp++[2::identifier::(netBytes 2 outLen++options.flatten)] }
            c.id outLen (.ipcp s.ipcp.length)
        else .error .write
      else .error .assertion
    else .error .assertion
  else .ok s

def addAddr {n : Nat} (s : SmfPco cfg) (id : BitVec 16) (addr : Option (Vector Byte n)) :
    Except Fault (SmfPco cfg) :=
  match addr with
  | none => .ok s
  | some addr => addId s id n (.octets addr.toList)

def pcoServers {n : Nat} (s : SmfPco cfg) (c : PcoId)
    (servers : Option (Vector Byte n) × Option (Vector Byte n)) : Except Fault (SmfPco cfg) := do
  let s ← addAddr s c.id servers.1
  addAddr s c.id servers.2

def pcoDns (s : SmfPco cfg) (c : PcoId) : Except Fault (SmfPco cfg) := pcoServers s c cfg.dns
def pcoDns6 (s : SmfPco cfg) (c : PcoId) : Except Fault (SmfPco cfg) := pcoServers s c cfg.dns6

def pcoPCscf (s : SmfPco cfg) (c : PcoId) : Except Fault (SmfPco cfg) :=
  if hcscf : cfg.pCscf≠[] then do
    let s ← addId { s with pCscf := (s.pCscfIndex.get hcscf).toList } c.id 4 .pCscf
    .ok { s with pCscfIndex := s.pCscfIndex.next }
  else .ok s

def pcoPCscf6 (s : SmfPco cfg) (c : PcoId) : Except Fault (SmfPco cfg) :=
  if hcscf : cfg.pCscf6≠[] then do
    let s ← addId { s with pCscf6 := (s.pCscf6Index.get hcscf).toList } c.id 16 .pCscf6
    .ok { s with pCscf6Index := s.pCscf6Index.next }
  else .ok s

def pcoMtu (s : SmfPco cfg) (c : PcoId) : Except Fault (SmfPco cfg) :=
  if cfg.mtu≠0 then addId s c.id 2 (.octets (netBytes 2 cfg.mtu.toNat)) else .ok s

def pcoContainer (s : SmfPco cfg) (c : PcoId) : Except Fault (SmfPco cfg) :=
  match pcoKind c.id with
  | .pap => pcoPap s c
  | .chap => pcoChap s c
  | .ipcp => pcoIpcp s c
  | .dns => pcoDns s c
  | .dns6 => pcoDns6 s c
  | .pCscf => pcoPCscf s c
  | .pCscf6 => pcoPCscf6 s c
  | .mtu => pcoMtu s c
  | .localAddrTft => addId s c.id 0 .null
  | .other => .ok s

def SmfPco.content (s : SmfPco cfg) : AnswerData → List Byte
  | .null => []
  | .pap => s.pap
  | .chap => s.chap
  | .ipcp n => s.ipcp.getD n []
  | .octets bytes => bytes
  | .pCscf => s.pCscf
  | .pCscf6 => s.pCscf6

def pcoBuildIds (s : SmfPco cfg) : List AnswerId → List Byte → Except Fault (List Byte)
  | [], out => .ok out
  | a::ids, out =>
    if out.length+2 ≤ maxPcoLen then
      if out.length+2+1 ≤ maxPcoLen then
        if out.length+2+1+a.len.val ≤ maxPcoLen then
          pcoBuildIds s ids
            (out++netBytes 2 a.id.toNat++a.len::(s.content a.data).takeD a.len.val 0)
        else .error .assertion
      else .error .assertion
    else .error .assertion

def pcoBuild (header : Byte) (s : SmfPco cfg) : Except Fault (List Byte) :=
  if s.ids.length ≤ maxNumOfId then pcoBuildIds s s.ids [header] else .error .assertion

def SmfPco.start (i : Cursor cfg.pCscf) (i6 : Cursor cfg.pCscf6) : SmfPco cfg :=
  ⟨[],[],[],[],[],[],i,i6⟩

/-- `smf_pco_build`: what is written to the buffer, and the indices it leaves. -/
def smfPcoBuild (i : Cursor cfg.pCscf) (i6 : Cursor cfg.pCscf6) (buffer : List Byte) :
    Except Fault (List Byte × Cursor cfg.pCscf × Cursor cfg.pCscf6) := do
  let ue ← pcoParse buffer
  let s ← ue.2.foldlM pcoContainer (SmfPco.start i i6)
  let out ← pcoBuild (Fin.ofNat 256 (ue.1.val &&& 0x87)) s
  .ok (out,s.pCscfIndex,s.pCscf6Index)

end Containers

end OgsDp.Smf
