import OgsDp.Pfcp.UeIp
import OgsDp.Pfcp.UserPlane

/-!
# Sessions of the DF (src/df/context.c)

The sessions are the nodes of `df_sess_pool`.
-/

namespace OgsDp.Df
open Lib RefTable OgsDp.Core Pfcp Function

/-- The part of `df_sess_t` next to its rules; `dsmfN4FSeid` is the structure as its bytes. -/
structure Sess where
  dfN4Seid : BitVec 64
  dsmfN4FSeid : Vector Byte 40
  ipv4 : Option UeIpRef
  ipv6 : Option UeIpRef
  pfcpNode : Option Nat
  apnDnn : Option (List Byte)
  ranAddr : Option PeerAddr
  ranTeid : BitVec 32
  forwardToDnf : Bool
  dn4Teid : BitVec 32

def Sess.zero : Sess where
  dfN4Seid := 0
  dsmfN4FSeid := Vector.replicate 40 0
  ipv4 := none
  ipv6 := none
  pfcpNode := none
  apnDnn := none
  ranAddr := none
  ranTeid := 0
  forwardToDnf := false
  dn4Teid := 0

def Sess.dsmfSeid (x : Sess) : BitVec 64 :=
  be64 (x.dsmfN4FSeid.toList.take 8).reverse

structure Seeds where
  dfN4Seid : BitVec 32
  dsmfN4FSeid : BitVec 32
  ipv4 : BitVec 32
  ipv6 : BitVec 32
  teid : BitVec 32

structure Context where
  sessPool : Pool
  sess : Nat → Sess
  sessList : List Nat
  up : Up
  ueIps : UeIps
  seeds : Seeds
  dfN4SeidHash : List (Entry Nat Nat)
  dsmfN4FSeidHash : List (Entry Nat Nat)
  ipv4Hash : List (Entry UeIpRef Nat)
  ipv6Hash : List (Entry UeIpRef Nat)
  teidHash : List (Entry Nat Nat)

def contextInit (poolSess : Nat) (up : Up) (subnets : List Subnet) (seeds : Seeds) : Context where
  sessPool := Pool.init poolSess
  sess := fun _ => .zero
  sessList := []
  up := up
  ueIps := .init subnets
  seeds := seeds
  dfN4SeidHash := []
  dsmfN4FSeidHash := []
  ipv4Hash := []
  ipv6Hash := []
  teidHash := []

namespace Context

def modify (c : Context) (n : Nat) (f : Sess → Sess) : Context :=
  { c with sess := update c.sess n (f (c.sess n)) }

def withUp (c : Context) (u : Up) : Context := { c with up := u }

def withUeIps (c : Context) (t : UeIps) : Context := { c with ueIps := t }

def dfN4SeidKeys (c : Context) : Keys Nat (BitVec 64) :=
  fieldKeys 8 c.seeds.dfN4Seid fun n => (c.sess n).dfN4Seid

def dsmfN4FSeidKeys (c : Context) : Keys Nat (List Byte) :=
  bytesKeys c.seeds.dsmfN4FSeid fun n => (c.sess n).dsmfN4FSeid.toList

def ipv4Keys (c : Context) : Keys UeIpRef (List Byte) :=
  bytesKeys c.seeds.ipv4 fun r => (c.ueIps.addr r).toList

def ipv6Keys (c : Context) : Keys UeIpRef (List Byte) :=
  bytesKeys c.seeds.ipv6 fun r => (c.ueIps.addr r).toList

def teidKeys (c : Context) : Keys Nat (BitVec 32) :=
  fieldKeys 4 c.seeds.teid fun p => (c.up.ctx.pdr p).fTeid.teid

def sessFindByDsmfN4FSeid (c : Context) (fSeid : Vector Byte 29) : Option Nat :=
  get c.dsmfN4FSeidKeys c.dsmfN4FSeidHash fSeid.toList

def sessFindByDfN4Seid (c : Context) (seid : BitVec 64) : Option Nat :=
  get c.dfN4SeidKeys c.dfN4SeidHash seid

def sessFindByIpv4 (c : Context) (addr : Addr) : Option Nat :=
  get c.ipv4Keys c.ipv4Hash addr.toList

/-- `df_sess_find_by_ipv6`; the length of the key is that of a pointer. -/
def sessFindByIpv6 (c : Context) (addr6 : Addr6) : Option Nat :=
  get c.ipv6Keys c.ipv6Hash (addr6.toList.take 8)

def sessFindByTeid (c : Context) (teid : BitVec 32) : Option Nat :=
  get c.teidKeys c.teidHash teid

def dsmfFSeid (fSeid : Vector Byte 29) : Vector Byte 40 :=
  let flags:=fSeid[0].val
  memcpy (Vector.replicate 40 0) (((fSeid.toList.drop 1).take 8).reverse ++
    hostBytes 4 (if flags.testBit 1 then 1 else 0)++List.replicate 20 0++[128])

def setSeids (c : Context) (n : Nat) : Context :=
  { c with
    dfN4SeidHash := set c.dfN4SeidKeys c.dfN4SeidHash n (c.sess n).dfN4Seid n
    dsmfN4FSeidHash :=
      set c.dsmfN4FSeidKeys c.dsmfN4FSeidHash n (c.sess n).dsmfN4FSeid.toList n }

def unsetSeids (c : Context) (n : Nat) : Context :=
  { c with
    dfN4SeidHash := unset c.dfN4SeidKeys c.dfN4SeidHash (c.sess n).dfN4Seid
    dsmfN4FSeidHash :=
      unset c.dsmfN4FSeidKeys c.dsmfN4FSeidHash (c.sess n).dsmfN4FSeid.toList }

/-- `df_sess_add`, with the SEID still in network order. -/
def sessAdd (c : Context) (fSeid : Vector Byte 29) : Outcome Context Nat :=
  match c.sessPool.alloc with
  | (_,none) => .abort c
  | (pool,some n) =>
    let seid:=be64 ((fSeid.toList.drop 1).take 8)
    let x:={ Sess.zero with
      dfN4Seid := seid
      dsmfN4FSeid := dsmfFSeid fSeid
      forwardToDnf := true
      dn4Teid := seid.setWidth 32 }
    let c:={ c with
      sessPool := pool
      sess := update c.sess n x
      up := c.up.poolInit n
      sessList := c.sessList++[n] }
    .ok (c.setSeids n) n

def hasAddress (fSeid : Vector Byte 29) : Bool :=
  fSeid[0].val.testBit 0 || fSeid[0].val.testBit 1

def sessAddByMessage (c : Context) (cpFSeid : Option (Vector Byte 29)) :
    Outcome Context (Option Nat) :=
  match cpFSeid with
  | none => .ok c none
  | some fSeid =>
    if hasAddress fSeid then
      (c.sessAdd fSeid).bind fun c n => .ok c (some n)
    else .ok c none

def unsetIpv4 (c : Context) (r : UeIpRef) : Context :=
  { c with ipv4Hash := unset c.ipv4Keys c.ipv4Hash (c.ueIps.addr r).toList }

def unsetIpv6 (c : Context) (r : UeIpRef) : Context :=
  { c with ipv6Hash := unset c.ipv6Keys c.ipv6Hash (c.ueIps.addr r).toList }

def unsetIps (c : Context) (r4 r6 : Option UeIpRef) : Context :=
  let c:=r4.elim c c.unsetIpv4
  r6.elim c c.unsetIpv6

def unsetTeid (c : Context) (teid : BitVec 32) : Context :=
  if teid≠0 then { c with teidHash := unset c.teidKeys c.teidHash teid } else c

def sessRemove (c : Context) (n : Nat) : Context :=
  let x:=c.sess n
  let c:={ c with sessList := c.sessList.erase n }.unsetSeids n
  let c:=(c.unsetIps x.ipv4 x.ipv6).unsetTeid x.ranTeid
  { c with
    up := c.up.sessClear n
    sessPool := c.sessPool.release n }

def dropIpv4 (c : Context) (n : Nat) : Outcome Context Unit :=
  match (c.sess n).ipv4 with
  | none => .ok c ()
  | some r => ((c.unsetIpv4 r).ueIps.free r).mapState (c.unsetIpv4 r).withUeIps

def dropIpv6 (c : Context) (n : Nat) : Outcome Context Unit :=
  match (c.sess n).ipv6 with
  | none => .ok c ()
  | some r => ((c.unsetIpv6 r).ueIps.free r).mapState (c.unsetIpv6 r).withUeIps

def takeIpv4 (c : Context) (n : Nat) (wanted : Bool) (dnn : Option (List Byte))
    (addr : List Byte) : Context × Except Refusal Unit :=
  if wanted then
    match c.ueIps.alloc .inet dnn addr with
    | (t,.error cause) =>
      ((c.withUeIps t).modify n fun x => { x with ipv4 := none },.error ⟨cause,none⟩)
    | (t,.ok r) =>
      let c:=(c.withUeIps t).modify n fun x => { x with ipv4 := some r }
      ({ c with ipv4Hash := set c.ipv4Keys c.ipv4Hash r (c.ueIps.addr r).toList n },.ok ())
  else (c,.ok ())

def takeIpv6 (c : Context) (n : Nat) (wanted : Bool) (dnn : Option (List Byte))
    (addr : List Byte) : Context × Except Refusal Unit :=
  if wanted then
    match c.ueIps.alloc .inet6 dnn addr with
    | (t,.error cause) =>
      ((c.withUeIps t).modify n fun x => { x with ipv6 := none },.error ⟨cause,none⟩)
    | (t,.ok r) =>
      let c:=(c.withUeIps t).modify n fun x => { x with ipv6 := some r }
      ({ c with ipv6Hash := set c.ipv6Keys c.ipv6Hash r (c.ueIps.addr r).toList n },.ok ())
  else (c,.ok ())

def undoIpv4 (c : Context) (n : Nat) : Outcome Context Unit :=
  (c.dropIpv4 n).bind fun c _ => .ok (c.modify n fun x => { x with ipv4 := none }) ()

def sessSetUeIp (c : Context) (n : Nat) (sessionType : Byte) (x : PdrUp) :
    Outcome Context (Except Refusal Unit) :=
  let wanted4:=x.ipv4 || x.dnn.isSome
  let wanted6:=x.ipv6 || x.dnn.isSome
  (c.dropIpv4 n).bind fun c _ =>
    (c.dropIpv6 n).bind fun c _ =>
      match sessionType.val with
      | 1 =>
        let r:=c.takeIpv4 n wanted4 x.dnn x.addr
        .ok r.1 r.2
      | 2 =>
        let r:=c.takeIpv6 n wanted6 x.dnn x.addr
        .ok r.1 r.2
      | 3 =>
        match c.takeIpv4 n wanted4 x.dnn x.bothAddr with
        | (c,.error e) => .ok c (.error e)
        | (c,.ok ()) =>
          -- the IPv6 address is read from where the IPv4 address is
          match c.takeIpv6 n wanted6 x.dnn x.bothAddr with
          | (c,.error e) => (c.undoIpv4 n).bind fun c _ => .ok c (.error e)
          | (c,.ok ()) => .ok c (.ok ())
      | _ => .ok c (.error ⟨.serviceNotSupported,none⟩)

end Context

end OgsDp.Df
