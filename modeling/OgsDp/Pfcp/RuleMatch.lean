import OgsDp.Pfcp.SdfFilter

/-!
# The flow rule a packet matches (lib/pfcp/rule-match.c)

A packet is read in place, behind its end too where its headers say so.
-/

namespace OgsDp.Pfcp
open Lib OgsDp.Core

structure IpPacket where
  data : List Byte
  behind : List Byte

def IpPacket.mem (pkt : IpPacket) : List Byte := pkt.data++pkt.behind

def readAt (mem : List Byte) (i len : Nat) : Option (List Byte) :=
  if i+len ≤ mem.length then some ((mem.drop i).take len) else none

def jumboLength (mem : List Byte) : Nat → Nat → Option Nat
  | 0, _ => none
  | turns+1, jp =>
    (readAt mem jp 6).bind fun option =>
      let len:=(be32 (option.drop 2)).toNat
      let type:=option.headD 0
      -- a length of zero leaves the loop where it was
      if type=0xc2 then if len=0 then none else some len
      else jumboLength mem turns (if type=0 then jp+1 else jp+2+len)

def extensions : List Byte := [0,43,60,135,139,140,253,254]

def ipprotoFragment : Byte := 44
def ipprotoAh : Byte := 51

def isExtension (nxt : Byte) : Bool :=
  extensions.contains nxt || nxt == ipprotoFragment || nxt == ipprotoAh

def extensionLength (nxt len : Byte) : Nat :=
  if extensions.contains nxt then len.val*8+8
  else if nxt=ipprotoFragment then 8
  else (len.val+2)*4

def upperLayer (mem : List Byte) (endp : Nat) : Nat → Nat → Byte → Option (Byte × Nat)
  | 0, _, _ => none
  | turns+1, p, nxt =>
    if p<endp ∧ isExtension nxt=true then
      (readAt mem p 2).bind fun ext =>
        upperLayer mem endp turns (p+extensionLength nxt (ext.getD 1 0)) (ext.headD 0)
    else some (nxt,p)

def decodeIpv6Header (mem : List Byte) : Option (Byte × Nat) :=
  (readAt mem 4 3).bind fun head =>
    let plen:=(be32 (head.take 2)).toNat
    let nxt:=head.getD 2 0
    let len :=
      if plen=0 then if nxt=0 then jumboLength mem mem.length 42 else none
      else some plen
    len.bind fun len =>
      (upperLayer mem (40+len) (mem.length+1) 40 nxt).map fun r => (r.1,r.2 % 2^16)

/-- What is read of a packet before its ports; of the addresses, the words that are compared. -/
structure IpHeader where
  proto : Byte
  hlen : Nat
  src : List (BitVec 32)
  dst : List (BitVec 32)

def wordsAt (mem : List Byte) (i n : Nat) : Option (List (BitVec 32)) :=
  (List.range n).mapM fun k => (readAt mem (i+4*k) 4).map be32

def readHeader (mem : List Byte) : Option (Option IpHeader) :=
  mem.head?.bind fun b =>
    if b.val / 16=4 then
      mem[9]?.bind fun proto =>
        (wordsAt mem 12 1).bind fun src =>
          (wordsAt mem 16 1).map fun dst => some ⟨proto,b.val % 16*4,src,dst⟩
    else if b.val / 16=6 then
      (decodeIpv6Header mem).bind fun r =>
        (wordsAt mem 8 4).bind fun src =>
          (wordsAt mem 24 4).map fun dst => some ⟨r.1,r.2,src,dst⟩
    else some none

def ipprotoTcp : Byte := 6
def ipprotoUdp : Byte := 17

def addrMatches (side : IpfwSide) (addr : List (BitVec 32)) : Bool :=
  List.zipWith (· &&& ·) addr side.mask.toList == side.addr.toList.take addr.length

def inPortRange (side : IpfwSide) (port : Nat) : Bool :=
  !(side.low != 0 && port<side.low.toNat) && !(side.high != 0 && side.high.toNat<port)

def portMatches (mem : List Byte) (i : Nat) (side : IpfwSide) : Option Bool :=
  if side.low=0 ∧ side.high=0 then some true
  else (readAt mem i 2).map fun port => inPortRange side (be32 port).toNat

def ruleMatches (mem : List Byte) (h : IpHeader) (ipfw : IpfwRule) : Option Bool :=
  if addrMatches ipfw.src h.src && addrMatches ipfw.dst h.dst then
    if ipfw.proto=0 then some true
    else if ipfw.proto=h.proto then
      if ipfw.proto=ipprotoTcp ∨ ipfw.proto=ipprotoUdp then
        (portMatches mem h.hlen ipfw.src).bind fun ok =>
          if ok then portMatches mem (h.hlen+2) ipfw.dst else some false
      else some true
    else some false
  else some false

def packetMatches (mem : List Byte) (rule : FlowRule) : Option Bool :=
  (readHeader mem).bind fun h => h.elim (some false) fun h => ruleMatches mem h rule.ipfw

def findMatching (mem : List Byte) : List FlowRule → Option (Option FlowRule)
  | [] => some none
  | rule::rules =>
    (packetMatches mem rule).bind fun ok => if ok then some (some rule) else findMatching mem rules

def pdrRuleFindByPacket (rules : List FlowRule) (pkt : IpPacket) : Option (Option FlowRule) :=
  if pkt.data=[] then none else findMatching pkt.mem rules

end OgsDp.Pfcp
