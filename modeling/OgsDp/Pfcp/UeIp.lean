import OgsDp.Core.Pool
import OgsDp.Lib.Run
import OgsDp.Pfcp.Types

/-!
# UE IP addresses (lib/pfcp/context.c)

The addresses of a subnet are the nodes of its pool, filled when the configuration is read.
-/

namespace OgsDp.Pfcp
open Lib RefTable OgsDp.Core Function

inductive Family where
  | unspec
  | inet
  | inet6
  deriving DecidableEq

inductive UeIpRef where
  | dynamic (subnet node : Nat)
  | static (block : Nat)
  deriving DecidableEq

/-- A configured subnet and the addresses its pool was filled with. -/
structure Subnet where
  family : Family
  dnn : List Byte
  size : Nat
  addr : Nat → Vector Byte 16

structure StaticIp where
  addr : Vector Byte 16
  subnet : Nat
  live : Bool

/-- The pools of the subnets and the blocks of static addresses. -/
structure UeIps where
  subnets : List Subnet
  pool : Nat → Pool
  block : Nat → StaticIp
  blocks : Nat

namespace UeIps

def init (subnets : List Subnet) : UeIps where
  subnets := subnets
  pool := fun i => Pool.init ((subnets[i]?).elim 0 Subnet.size)
  block := fun _ => ⟨Vector.replicate 16 0,0,false⟩
  blocks := 0

def sameName (a b : List Byte) : Bool :=
  let lower (c : Byte) : Byte := if 65 ≤ c.val ∧ c.val≤90 then c+32 else c
  a.map lower == b.map lower

/-- `ogs_pfcp_find_subnet_by_dnn`, without a name `ogs_pfcp_find_subnet`. -/
def findSubnet (t : UeIps) (family : Family) (dnn : Option (List Byte)) : Option Nat :=
  (List.range t.subnets.length).find? fun i =>
    (t.subnets[i]?).any fun x =>
      (x.family = .unspec || x.family=family) &&
        (x.dnn=[] || dnn.any (sameName x.dnn)) && 0<(t.pool i).avail

def addr (t : UeIps) : UeIpRef → Vector Byte 16
  | .dynamic i n => (t.subnets[i]?).elim (Vector.replicate 16 0) fun x => x.addr n
  | .static b => (t.block b).addr

def maxbytes : Family → Nat
  | .inet6 => 16
  | _ => 4

def alloc (t : UeIps) (family : Family) (dnn : Option (List Byte)) (addr : List Byte) :
    UeIps × Except Cause UeIpRef :=
  match t.findSubnet family dnn with
  | none => (t,.error .noResourcesAvailable)
  | some i =>
    if (addr.take (maxbytes family)).any fun b => b≠0 then
      ({ t with
          block := update t.block t.blocks
            ⟨memcpy (Vector.replicate 16 0) (addr.take (maxbytes family)),i,true⟩
          blocks := t.blocks+1 },.ok (.static t.blocks))
    else
      match (t.pool i).alloc with
      | (_,none) => (t,.error .noResourcesAvailable)
      | (pool,some n) => ({ t with pool := update t.pool i pool },.ok (.dynamic i n))

/-- `ogs_pfcp_ue_ip_free`; to free a block twice stops the process. -/
def free (t : UeIps) : UeIpRef → Outcome UeIps Unit
  | .dynamic i n => .ok { t with pool := update t.pool i ((t.pool i).release n) } ()
  | .static b =>
    if (t.block b).live then
      .ok { t with block := update t.block b { t.block b with live := false } } ()
    else .abort t

end UeIps

end OgsDp.Pfcp
