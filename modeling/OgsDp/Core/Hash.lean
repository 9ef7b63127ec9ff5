import Mathlib.Algebra.GroupWithZero.Nat
import OgsDp.Lib.RefTable

/-!
# Bytes, strings and the hash function (lib/core/ogs-hash.c)

`ogs_hash_t` is an `OgsDp.Lib.RefTable` table whose hash function is `hashfunc_default` over the
bytes of the key, started from the seed of the table.
-/

namespace OgsDp.Core
open Lib RefTable List

abbrev Byte := Fin 256

instance byteNeZero : NeZero 256 := Nat.instNeZeroSucc

structure CStr where
  bytes : List Byte
  noNul : 0∉bytes
  deriving DecidableEq

def hostBytes (n v : Nat) : List Byte :=
  (List.range n).map fun i => Fin.ofNat 256 (v / 256^i)

def netBytes (n v : Nat) : List Byte := (hostBytes n v).reverse

def netValue (bytes : List Byte) : Nat := bytes.foldl (fun v b => v*256+b.val) 0

@[simp] theorem length_netBytes (n v : Nat) : (netBytes n v).length=n := by
  simp [netBytes,hostBytes]

theorem hostBytes_succ (n v : Nat) :
    hostBytes (n+1) v=Fin.ofNat 256 v::hostBytes n (v / 256) := by
  unfold hostBytes
  rw [range_succ_eq_map,map_cons,List.map_map]
  congr 1
  · simp
  · apply map_congr_left
    intro i _
    show Fin.ofNat 256 (v / 256^(i+1))=Fin.ofNat 256 (v / 256 / 256^i)
    rw [Nat.div_div_eq_div_mul,Nat.pow_succ,Nat.mul_comm]

theorem netValue_append (bytes : List Byte) (b : Byte) :
    netValue (bytes++[b])=netValue bytes*256+b.val := by
  simp [netValue,foldl_append]

theorem netValue_netBytes (n v : Nat) : netValue (netBytes n v)=v % 256^n := by
  unfold netBytes
  induction n generalizing v with
  | zero => simp [hostBytes,netValue,Nat.mod_one]
  | succ n ih =>
    rw [hostBytes_succ,reverse_cons,netValue_append,ih]
    have hbyte : (Fin.ofNat 256 v).val=v % 256 := rfl
    rw [hbyte,Nat.pow_succ,Nat.mul_comm (256^n) 256,Nat.mod_mul]
    omega

def hashfuncDefault (seed : BitVec 32) (key : List Byte) : BitVec 32 :=
  key.foldl (fun hash p => hash*33+BitVec.ofNat 32 p.val) seed

def memRead (mem : Nat → Byte) (a n : Nat) : List Byte :=
  (List.range n).map fun i => mem (a+i)

def memWrite (mem : Nat → Byte) (a : Nat) (bytes : List Byte) : Nat → Byte := fun x =>
  if a≤x then (bytes[x-a]?).getD (mem x) else mem x

def strKeys (seed : BitVec 32) (mem : Nat → Byte) : Keys Nat (List Byte) where
  hash := fun k => (hashfuncDefault seed k).toNat
  klen := List.length
  reads := fun a k => memRead mem a k.length == k
  det := by
    intro a k k' hlen h h'
    rw [beq_iff_eq] at h h'
    rw [← h,hlen,h']

/-- Integer keys of `n` bytes, each a field of the object at its reference. -/
def fieldKeys {w : Nat} (n : Nat) (seed : BitVec 32) (field : Nat → BitVec w) :
    Keys Nat (BitVec w) where
  hash := fun k => (hashfuncDefault seed (hostBytes n k.toNat)).toNat
  klen := fun _ => n
  reads := fun o k => field o == k
  det := by
    intro o k k' _ h h'
    rw [beq_iff_eq] at h h'
    rw [← h,h']

/-- Keys of any length, each the first bytes of what memory holds at its reference. -/
def bytesKeys {ρ : Type} (seed : BitVec 32) (bytes : ρ → List Byte) : Keys ρ (List Byte) where
  hash := fun k => (hashfuncDefault seed k).toNat
  klen := List.length
  reads := fun o k => (bytes o).take k.length == k
  det := by
    intro o k k' hlen h h'
    rw [beq_iff_eq] at h h'
    rw [← h,hlen,h']

end OgsDp.Core
