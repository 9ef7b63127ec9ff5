import OgsDp.Lib.Trie
import OgsDp.Pfcp.UeIp
import OgsDp.Pfcp.UserPlane

/-!
# Sessions of the UPF (src/upf/context.c)

The sessions are the nodes of `upf_sess_pool`.
-/

namespace OgsDp.Upf
open Lib RefTable OgsDp.Core Pfcp Function

def maxNumOfFramedRoutes : Nat := 8

structure IpSubnet where
  family : Family
  sub : Vector Byte 16
  mask : Vector Byte 16
  deriving DecidableEq

/-- A timer of an accounting entry: the URR it was made for, and whether it runs. -/
structure AccTimer where
  urr : Nat
  running : Bool
  deriving DecidableEq

structure UrrAcc where
  validityTime : Option AccTimer
  timeQuota : Option AccTimer
  timeThreshold : Option AccTimer
  deriving DecidableEq

def UrrAcc.zero : UrrAcc := ⟨none,none,none⟩

/-- An array of routes; an entry without a family is `none`. -/
abbrev Routes := Vector (Option IpSubnet) maxNumOfFramedRoutes

/-- The part of `upf_sess_t` next to its rules; `smfN4FSeid` is the structure as its bytes. -/
structure Sess where
  id : Nat
  upfN4SeidNode : Nat
  upfN4Seid : BitVec 64
  smfN4FSeid : Vector Byte 40
  ipv4 : Option UeIpRef
  ipv6 : Option UeIpRef
  ipv4FramedRoutes : Option Routes
  ipv6FramedRoutes : Option Routes
  pfcpNode : Option Nat
  urrAcc : Nat → UrrAcc
  apnDnn : Option (List Byte)

def Sess.zero : Sess where
  id := 0
  upfN4SeidNode := 0
  upfN4Seid := 0
  smfN4FSeid := Vector.replicate 40 0
  ipv4 := none
  ipv6 := none
  ipv4FramedRoutes := none
  ipv6FramedRoutes := none
  pfcpNode := none
  urrAcc := fun _ => .zero
  apnDnn := none

def Sess.smfSeid (x : Sess) : BitVec 64 :=
  be64 (x.smfN4FSeid.toList.take 8).reverse

structure Seeds where
  upfN4Seid : BitVec 32
  smfN4Seid : BitVec 32
  smfN4FSeid : BitVec 32
  ipv4 : BitVec 32
  ipv6 : BitVec 32

/-- `upf_self()` and what it rests on; `upfN4SeidOf` is what the nodes of `upf_n4_seid_pool`
hold. -/
structure Context where
  sessPool : Pool
  upfN4SeidPool : Pool
  upfN4SeidOf : Nat → BitVec 64
  sess : Nat → Sess
  sessList : List Nat
  up : Up
  ueIps : UeIps
  seeds : Seeds
  upfN4SeidHash : List (Entry Nat Nat)
  smfN4SeidHash : List (Entry Nat Nat)
  smfN4FSeidHash : List (Entry Nat Nat)
  ipv4Hash : List (Entry UeIpRef Nat)
  ipv6Hash : List (Entry UeIpRef Nat)
  ipv4FramedRoutes : Trie Nat
  ipv6FramedRoutes : Trie Nat

def contextInit (poolSess : Nat) (upfN4SeidOf : Nat → BitVec 64) (up : Up)
    (subnets : List Subnet) (seeds : Seeds) : Context where
  sessPool := Pool.init poolSess
  upfN4SeidPool := Pool.init poolSess
  upfN4SeidOf := upfN4SeidOf
  sess := fun _ => .zero
  sessList := []
  up := up
  ueIps := .init subnets
  seeds := seeds
  upfN4SeidHash := []
  smfN4SeidHash := []
  smfN4FSeidHash := []
  ipv4Hash := []
  ipv6Hash := []
  ipv4FramedRoutes := .null
  ipv6FramedRoutes := .null

namespace Context

def modify (c : Context) (n : Nat) (f : Sess → Sess) : Context :=
  { c with sess := update c.sess n (f (c.sess n)) }

def withUp (c : Context) (u : Up) : Context := { c with up := u }

def withUeIps (c : Context) (t : UeIps) : Context := { c with ueIps := t }

def upfN4SeidKeys (c : Context) : Keys Nat (BitVec 64) :=
  fieldKeys 8 c.seeds.upfN4Seid fun n => (c.sess n).upfN4Seid

def smfN4SeidKeys (c : Context) : Keys Nat (BitVec 64) :=
  fieldKeys 8 c.seeds.smfN4Seid fun n => (c.sess n).smfSeid

def smfN4FSeidKeys (c : Context) : Keys Nat (List Byte) :=
  bytesKeys c.seeds.smfN4FSeid fun n => (c.sess n).smfN4FSeid.toList

def ipv4Keys (c : Context) : Keys UeIpRef (List Byte) :=
  bytesKeys c.seeds.ipv4 fun r => (c.ueIps.addr r).toList

def ipv6Keys (c : Context) : Keys UeIpRef (List Byte) :=
  bytesKeys c.seeds.ipv6 fun r => (c.ueIps.addr r).toList

-- The first `OGS_IPV4_LEN` octets of an address, and `OGS_IPV6_DEFAULT_PREFIX_LEN` bits.
def ipv4Key (c : Context) (r : UeIpRef) : List Byte := (c.ueIps.addr r).toList.take 4
def ipv6Key (c : Context) (r : UeIpRef) : List Byte := (c.ueIps.addr r).toList.take 8

def sessFindByUpfN4Seid (c : Context) (seid : BitVec 64) : Option Nat :=
  get c.upfN4SeidKeys c.upfN4SeidHash seid

def sessFindBySmfN4Seid (c : Context) (seid : BitVec 64) : Option Nat :=
  get c.smfN4SeidKeys c.smfN4SeidHash seid

-- `ogs_pfcp_f_seid_to_ip` and the SEID in front of it; `pad` is what memory holds behind it.
def smfFSeid (fSeid : Vector Byte 29) (pad : Vector Byte 4) : Vector Byte 40 :=
  let octets:=fSeid.toList
  let v4:=(octets.headD 0).val.testBit 1
  let v6:=(octets.headD 0).val.testBit 0
  let addr := if v4 then (octets.drop 9).take 4 else List.replicate 4 0
  let addr6 :=
    if v6 then (octets.drop (if v4 then 13 else 9)).take 16 else List.replicate 16 0
  let len := if v4 && v6 then 20 else if v4 then 4 else 16
  memcpy (Vector.replicate 40 0) (((octets.drop 1).take 8).reverse++addr++addr6 ++
    hostBytes 4 len++[(if v4 then 128 else 0)+(if v6 then 64 else 0),0,0,0]++pad.toList)

/-- `upf_sess_find_by_smf_n4_f_seid`; `stack` is what is behind the key on the stack. -/
def sessFindBySmfN4FSeid (c : Context) (fSeid : Vector Byte 29) (stack : Vector Byte 4) :
    Option Nat :=
  get c.smfN4FSeidKeys c.smfN4FSeidHash (smfFSeid fSeid stack).toList

-- `(1 << bit) & be32toh(addr[part])` at the place `i` of `nbits`
def bitAt (nbits : Nat) (addr : List Byte) (i : Nat) : Bool :=
  (BitVec.ofNat 32 (netValue ((addr.drop (4*(i / 32))).take 4))).getLsbD
    ((nbits-i-1) % 32)

end Context

namespace IpSubnet

def nbits (r : IpSubnet) : Nat := if r.family = .inet then 32 else 128

def maskBit (r : IpSubnet) (i : Nat) : Bool := Context.bitAt r.nbits r.mask.toList i
def subBit (r : IpSubnet) (i : Nat) : Bool := Context.bitAt r.nbits r.sub.toList i

def turns (r : IpSubnet) : List Bool :=
  ((List.range r.nbits).takeWhile r.maskBit).map r.subBit

end IpSubnet

def turnsOf (nbits : Nat) (addr : List Byte) : List Bool :=
  (List.range nbits).map (Context.bitAt nbits addr)

namespace Context

def sessFindByIpv4 (c : Context) (addr : Addr) : Option Nat :=
  match get c.ipv4Keys c.ipv4Hash addr.toList with
  | some n => some n
  | none => c.ipv4FramedRoutes.longest none (turnsOf 32 addr.toList)

def sessFindByIpv6 (c : Context) (addr6 : Addr6) : Option Nat :=
  match get c.ipv6Keys c.ipv6Hash (addr6.toList.take 8) with
  | some n => some n
  | none => c.ipv6FramedRoutes.longest none (turnsOf 128 addr6.toList)

def updateTrie (c : Context) (route : IpSubnet) (f : Trie Nat → Trie Nat) : Context :=
  if route.family = .inet then { c with ipv4FramedRoutes := f c.ipv4FramedRoutes }
  else { c with ipv6FramedRoutes := f c.ipv6FramedRoutes }

def freeFramedRouteFromTrie (c : Context) (route : IpSubnet) : Context :=
  c.updateTrie route fun t => t.free route.turns

def addFramedRouteToTrie (c : Context) (route : IpSubnet) (n : Nat) : Context :=
  c.updateTrie route fun t => t.add n route.turns

end Context

/-- `ogs_ipsubnet`: the subnet of an address and a mask or number of bits. -/
abbrev Ipsubnet := List Byte → Option (List Byte) → Option IpSubnet

/-- `parse_framed_route`: what is before the first `/` and what is behind it. -/
def parseFramedRoute (ipsubnet : Ipsubnet) (framedRoute : List Byte) : Option IpSubnet :=
  let addr:=framedRoute.takeWhile fun b => b≠47
  if addr.length<framedRoute.length then
    ipsubnet addr (some (framedRoute.drop (addr.length+1)))
  else ipsubnet addr none

def Routes.used (a : Routes) : List IpSubnet := (a.toList.takeWhile Option.isSome).filterMap id

def Routes.empty : Routes := Vector.replicate maxNumOfFramedRoutes none

def Routes.clearUsed (a : Routes) : Routes :=
  Vector.ofFn fun i => if i.val<a.used.length then none else a[i]

namespace Context

def addRoutes (ipsubnet : Ipsubnet) (n : Nat) :
    List (List Byte) → Context → Option Routes → Nat → Context × Option Routes × Nat
  | [], c, a, j => (c,a,j)
  | r::rs, c, a, j =>
    let routes:=a.getD .empty
    match parseFramedRoute ipsubnet r with
    | none => addRoutes ipsubnet n rs c (some (routes.setIfInBounds j none)) j
    | some route =>
      addRoutes ipsubnet n rs (c.addFramedRouteToTrie route n)
        (some (routes.setIfInBounds j (some route))) (j+1)

-- What the two functions do with the array they find, and the one they leave; `clear` is the
-- `memset` that only one of them has.
def setFramedRoutes (ipsubnet : Ipsubnet) (clear : Bool) (c : Context) (n : Nat)
    (a : Option Routes) (framedRoutes : List (List Byte)) : Context × Option Routes :=
  let c:=(a.elim [] Routes.used).foldl freeFramedRouteFromTrie c
  let a:=a.map fun x => if clear then x.clearUsed else x
  let s:=addRoutes ipsubnet n (framedRoutes.take maxNumOfFramedRoutes) c a 0
  (s.1,if s.2.2=0 then none else s.2.1)

def sessSetUeIpv4FramedRoutes (ipsubnet : Ipsubnet) (c : Context) (n : Nat)
    (framedRoutes : List (List Byte)) : Context :=
  let s:=c.setFramedRoutes ipsubnet true n (c.sess n).ipv4FramedRoutes framedRoutes
  s.1.modify n fun x => { x with ipv4FramedRoutes := s.2 }

def sessSetUeIpv6FramedRoutes (ipsubnet : Ipsubnet) (c : Context) (n : Nat)
    (framedRoutes : List (List Byte)) : Context :=
  let s:=c.setFramedRoutes ipsubnet false n (c.sess n).ipv6FramedRoutes framedRoutes
  s.1.modify n fun x => { x with ipv6FramedRoutes := s.2 }

/-- `upf_sess_add`, with the SEID still in network order. -/
def sessAdd (c : Context) (fSeid : Vector Byte 29) : Outcome Context Nat :=
  match c.sessPool.idCalloc with
  | (_,none) => .abort c
  | (pool,some (n,id)) =>
    let c:={ c with sessPool := pool,up := c.up.poolInit n }
    match c.upfN4SeidPool.alloc with
    | (_,none) => .abort c
    | (seidPool,some node) =>
      let x:={ Sess.zero with
        id := id
        upfN4SeidNode := node
        upfN4Seid := c.upfN4SeidOf node
        smfN4FSeid := smfFSeid fSeid (Vector.replicate 4 0) }
      let c:={ c with
        upfN4SeidPool := seidPool
        sess := update c.sess n x }
      .ok { c with
        upfN4SeidHash := set c.upfN4SeidKeys c.upfN4SeidHash n x.upfN4Seid n
        smfN4FSeidHash := set c.smfN4FSeidKeys c.smfN4FSeidHash n x.smfN4FSeid.toList n
        smfN4SeidHash := set c.smfN4SeidKeys c.smfN4SeidHash n x.smfSeid n
        sessList := c.sessList++[n] } n

def hasAddress (fSeid : Vector Byte 29) : Bool :=
  (fSeid.toList.headD 0).val.testBit 0 || (fSeid.toList.headD 0).val.testBit 1

def sessAddByMessage (stack : Vector Byte 4) (c : Context) (cpFSeid : Option (Vector Byte 29)) :
    Outcome Context (Option Nat) :=
  match cpFSeid with
  | none => .ok c none
  | some fSeid =>
    if hasAddress fSeid then
      match c.sessFindBySmfN4FSeid fSeid stack with
      | some n => .ok c (some n)
      | none => (c.sessAdd fSeid).bind fun c n => .ok c (some n)
    else .ok c none

def unsetIpv4 (c : Context) (r : UeIpRef) : Context :=
  { c with ipv4Hash := unset c.ipv4Keys c.ipv4Hash (c.ipv4Key r) }

def unsetIpv6 (c : Context) (r : UeIpRef) : Context :=
  { c with ipv6Hash := unset c.ipv6Keys c.ipv6Hash (c.ipv6Key r) }

def dropIpv4 (c : Context) (n : Nat) : Outcome Context Unit :=
  match (c.sess n).ipv4 with
  | none => .ok c ()
  | some r => ((c.unsetIpv4 r).ueIps.free r).mapState (c.unsetIpv4 r).withUeIps

def dropIpv6 (c : Context) (n : Nat) : Outcome Context Unit :=
  match (c.sess n).ipv6 with
  | none => .ok c ()
  | some r => ((c.unsetIpv6 r).ueIps.free r).mapState (c.unsetIpv6 r).withUeIps

def unsetSeids (c : Context) (n : Nat) : Context :=
  let x:=c.sess n
  { c with
    upfN4SeidHash := unset c.upfN4SeidKeys c.upfN4SeidHash x.upfN4Seid
    smfN4SeidHash := unset c.smfN4SeidKeys c.smfN4SeidHash x.smfSeid
    smfN4FSeidHash := unset c.smfN4FSeidKeys c.smfN4FSeidHash x.smfN4FSeid.toList }

def sessUrrAccRemoveAll (c : Context) (n : Nat) : Context :=
  c.modify n fun x => { x with urrAcc := fun _ => .zero }

def sessRemove (ipsubnet : Ipsubnet) (c : Context) (n : Nat) : Outcome Context Unit :=
  let c:=c.sessUrrAccRemoveAll n
  let c:={ c with sessList := c.sessList.erase n,up := c.up.sessClear n }.unsetSeids n
  (c.dropIpv4 n).bind fun c _ =>
    (c.dropIpv6 n).bind fun c _ =>
      let c:=c.sessSetUeIpv4FramedRoutes ipsubnet n []
      let c:=c.sessSetUeIpv6FramedRoutes ipsubnet n []
      .ok { c with
        upfN4SeidPool := c.upfN4SeidPool.release (c.sess n).upfN4SeidNode
        sessPool := c.sessPool.idFree n (c.sess n).id } ()

def takeIpv4 (c : Context) (n : Nat) (wanted : Bool) (dnn : Option (List Byte))
    (addr : List Byte) : Context × Except Refusal Unit :=
  if wanted then
    match c.ueIps.alloc .inet dnn addr with
    | (t,.error cause) =>
      ((c.withUeIps t).modify n fun x => { x with ipv4 := none },.error ⟨cause,none⟩)
    | (t,.ok r) =>
      let c:=(c.withUeIps t).modify n fun x => { x with ipv4 := some r }
      ({ c with ipv4Hash := set c.ipv4Keys c.ipv4Hash r (c.ipv4Key r) n },.ok ())
  else (c,.ok ())

def takeIpv6 (c : Context) (n : Nat) (wanted : Bool) (dnn : Option (List Byte))
    (addr : List Byte) : Context × Except Refusal Unit :=
  if wanted then
    match c.ueIps.alloc .inet6 dnn addr with
    | (t,.error cause) =>
      ((c.withUeIps t).modify n fun x => { x with ipv6 := none },.error ⟨cause,none⟩)
    | (t,.ok r) =>
      let c:=(c.withUeIps t).modify n fun x => { x with ipv6 := some r }
      ({ c with ipv6Hash := set c.ipv6Keys c.ipv6Hash r (c.ipv6Key r) n },.ok ())
  else (c,.ok ())

def undoIpv4 (c : Context) (n : Nat) : Outcome Context Unit :=
  (c.dropIpv4 n).bind fun c _ => .ok (c.modify n fun x => { x with ipv4 := none }) ()

def sessSetUeIp (c : Context) (n : Nat) (sessionType : Byte) (x : PdrUp) :
    Outcome Context (Except Refusal Unit) :=
  let wanted4:=x.ipv4 || x.dnn.isSome
  let wanted6:=x.ipv6 || x.dnn.isSome
  (c.dropIpv4 n).bind fun c _ =>
    (c.dropIpv6 n).bind fun c _ =>
      match sessionType.val with
      | 1 =>
        let r:=c.takeIpv4 n wanted4 x.dnn x.addr
        .ok r.1 r.2
      | 2 =>
        let r:=c.takeIpv6 n wanted6 x.dnn x.addr
        .ok r.1 r.2
      | 3 =>
        match c.takeIpv4 n wanted4 x.dnn x.bothAddr with
        | (c,.error e) => .ok c (.error e)
        | (c,.ok ()) =>
          match c.takeIpv6 n wanted6 x.dnn x.bothAddr6 with
          | (c,.error e) => (c.undoIpv4 n).bind fun c _ => .ok c (.error e)
          | (c,.ok ()) => .ok c (.ok ())
      | _ => .ok c (.error ⟨.serviceNotSupported,none⟩)

end Context

end OgsDp.Upf
