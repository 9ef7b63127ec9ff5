import OgsDp.Pfcp.SdfFilter

/-!
# Flow descriptions of packet filters (lib/ipfw/ogs-ipfw.c, lib/ipfw/ipfw2.c)

An address and a mask are four words in network byte order, of which IPv4 uses the first.
-/

namespace OgsDp.Pfcp
open Lib OgsDp.Core

deriving instance DecidableEq for IpfwSide
deriving instance DecidableEq for IpfwRule

def maskBit (mask : Vector (BitVec 32) 4) (n : Nat) : Bool :=
  ((mask[n / 32]?).getD 0).getMsbD (n % 32)

/-- `contigmask`: the number of bits before the first that is not set, if none is set behind it. -/
def contigmask (mask : Vector (BitVec 32) 4) (len : Nat) : Option Nat :=
  let bits:=(List.range len).map (maskBit mask)
  let set:=bits.takeWhile id
  if (bits.drop (set.length+1)).any id then none else some set.length

/-- `n2mask`; with more than 128 bits it would write past the mask. -/
def n2mask (n : Nat) : Option (Vector (BitVec 32) 4) :=
  if n≤128 then
    some (Vector.ofFn fun k => BitVec.allOnes 32 <<< (32-(n-32*k.val)))
  else none

def addrByte (addr : Vector (BitVec 32) 4) (n : Nat) : Nat :=
  (((addr[n / 4]?).getD 0) >>> (24-8*(n % 4))).toNat % 256

def inetNtop4 (addr : Vector (BitVec 32) 4) (first : Nat) : List Byte :=
  List.intercalate (ascii ".") ((List.range 4).map fun n => decimal (addrByte addr (first+n)))

def hex (n : Nat) : List Byte := (Nat.toDigits 16 n).map fun c => Fin.ofNat 256 c.toNat

def addrWords (addr : Vector (BitVec 32) 4) : List Nat :=
  (List.range 8).map fun n => 256*addrByte addr (2*n)+addrByte addr (2*n+1)

def zeroRun (words : List Nat) (n : Nat) : Nat := ((words.drop n).takeWhile (· = 0)).length

def bestRun (words : List Nat) : Option (Nat × Nat) :=
  (List.range words.length).foldl (fun best n =>
    let len:=zeroRun words n
    if 2≤len ∧ best.elim 0 Prod.snd<len then some (n,len) else best) none

/-- `inet_ntop` for IPv6, which writes the last two words of some addresses like IPv4. -/
def inetNtop6 (addr : Vector (BitVec 32) 4) : List Byte :=
  let words:=addrWords addr
  let text := fun ws : List Nat => List.intercalate (ascii ":") (ws.map hex)
  match bestRun words with
  | none => text words
  | some (n,len) =>
    if n=0 ∧ (len=6 ∨ len=5 ∧ words[5]?=some 0xffff) then
      ascii "::" ++ (if len=5 then ascii "ffff:" else [])++inetNtop4 addr 12
    else text (words.take n)++ascii "::" ++ text (words.drop (n+len))

def addressText (absent : List Byte) (text : List Byte) (bitlen : Nat) :
    Option Nat → Option (List Byte)
  | none => none
  | some 0 => some absent
  | some n =>
    if n<bitlen then some (ascii " " ++ text++ascii "/" ++ decimal n)
    else some (ascii " " ++ text)

def sideText (absent : List Byte) (side : IpfwSide) : Option (List Byte) :=
  if side.ipv4≠0 then
    addressText absent (inetNtop4 side.addr 0) 32 (contigmask side.mask 32)
  else if side.ipv6≠0 then
    addressText absent (inetNtop6 side.addr) 128 (contigmask side.mask 128)
  else some absent

def portText (side : IpfwSide) : List Byte :=
  if side.low=side.high then
    if side.low=0 then [] else ascii " " ++ decimal side.low.toNat
  else ascii " " ++ decimal side.low.toNat++ascii "-" ++ decimal side.high.toNat

def encodeFlowDescription (rule : IpfwRule) : Option (List Byte) := do
  let proto := if rule.proto≠0 then ascii " " ++ decimal rule.proto.val else ascii " ip"
  let src ← sideText (ascii " any") rule.src
  let dst ← sideText (ascii " assigned") rule.dst
  return ascii "permit out" ++ proto++ascii " from" ++ src++portText rule.src ++
    ascii " to" ++ dst++portText rule.dst

end OgsDp.Pfcp
