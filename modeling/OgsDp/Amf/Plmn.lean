import OgsDp.Amf.Ue

/-!
# PLMN ids (lib/proto/types.c)

The two layouts of a PLMN id have the digits of the MNC in different places. A PLMN id with an MNC
of two digits has a filler for the first one.
-/

namespace OgsDp.Amf
open OgsDp.Core

def lowOf (b : Byte) : BitVec 4 := BitVec.ofNat 4 b.val
def highOf (b : Byte) : BitVec 4 := BitVec.ofNat 4 (b.val / 16)

@[simp] theorem lowOf_byteOf (high low : BitVec 4) : lowOf (byteOf high low)=low := by
  apply BitVec.eq_of_toNat_eq
  have hlow:=low.isLt
  show (high.toNat*16+low.toNat) % 256 % 2^4=low.toNat
  omega

@[simp] theorem highOf_byteOf (high low : BitVec 4) : highOf (byteOf high low)=high := by
  apply BitVec.eq_of_toNat_eq
  have hhigh:=high.isLt
  have hlow:=low.isLt
  show (high.toNat*16+low.toNat) % 256 / 16 % 2^4=high.toNat
  omega

def PlmnId.bytes (p : PlmnId) : Vector Byte 3 :=
  #v[byteOf p.mcc2 p.mcc1,byteOf p.mnc1 p.mcc3,byteOf p.mnc3 p.mnc2]

def plmnIdOf (v : Vector Byte 3) : PlmnId :=
  let octet := fun i => v.toList.getD i 0
  ⟨lowOf (octet 0),highOf (octet 0),lowOf (octet 1),highOf (octet 1),lowOf (octet 2),
    highOf (octet 2)⟩

def NasPlmnId.bytes (p : NasPlmnId) : Vector Byte 3 :=
  #v[byteOf p.mcc2 p.mcc1,byteOf p.mnc3 p.mcc3,byteOf p.mnc2 p.mnc1]

def nasPlmnIdOf (v : Vector Byte 3) : NasPlmnId :=
  let octet := fun i => v.toList.getD i 0
  ⟨lowOf (octet 0),highOf (octet 0),lowOf (octet 1),lowOf (octet 2),highOf (octet 2),
    highOf (octet 1)⟩

@[simp] theorem plmnIdOf_bytes (p : PlmnId) : plmnIdOf p.bytes=p := by
  show (⟨lowOf (byteOf p.mcc2 p.mcc1),highOf (byteOf p.mcc2 p.mcc1),
    lowOf (byteOf p.mnc1 p.mcc3),highOf (byteOf p.mnc1 p.mcc3),
    lowOf (byteOf p.mnc3 p.mnc2),highOf (byteOf p.mnc3 p.mnc2)⟩ : PlmnId)=p
  simp only [lowOf_byteOf,highOf_byteOf]

@[simp] theorem nasPlmnIdOf_bytes (p : NasPlmnId) : nasPlmnIdOf p.bytes=p := by
  show (⟨lowOf (byteOf p.mcc2 p.mcc1),highOf (byteOf p.mcc2 p.mcc1),
    lowOf (byteOf p.mnc3 p.mcc3),lowOf (byteOf p.mnc2 p.mnc1),
    highOf (byteOf p.mnc2 p.mnc1),highOf (byteOf p.mnc3 p.mcc3)⟩ : NasPlmnId)=p
  simp only [lowOf_byteOf,highOf_byteOf]

def nasToPlmnId (nas : NasPlmnId) : PlmnId :=
  let plmnId : PlmnId := ⟨nas.mcc1,nas.mcc2,nas.mcc3,nas.mnc3,nas.mnc1,nas.mnc2⟩
  if plmnId.mnc1≠0xf then
    { plmnId with mnc1 := nas.mnc1,mnc2 := nas.mnc2,mnc3 := nas.mnc3 }
  else plmnId

def plmnIdBuild (mcc mnc mncLen : BitVec 16) : PlmnId where
  mcc1 := BitVec.ofNat 4 (mcc.toNat / 100 % 10)
  mcc2 := BitVec.ofNat 4 (mcc.toNat / 10 % 10)
  mcc3 := BitVec.ofNat 4 (mcc.toNat % 10)
  mnc1 := if mncLen=2 then 0xf else BitVec.ofNat 4 (mnc.toNat / 100 % 10)
  mnc2 := BitVec.ofNat 4 (mnc.toNat / 10 % 10)
  mnc3 := BitVec.ofNat 4 (mnc.toNat % 10)

theorem plmnIdBuild_mnc3 (mcc mnc mncLen : BitVec 16) :
    (plmnIdBuild mcc mnc mncLen).mnc3≠0xf := by
  intro h
  have hval : mnc.toNat % 10 % 2^4=15 := congrArg BitVec.toNat h
  omega

theorem nasToPlmnId_nasFromPlmnId {p : PlmnId} (h : p.mnc3≠0xf) :
    nasToPlmnId (nasFromPlmnId p)=p := by
  unfold nasFromPlmnId nasToPlmnId
  by_cases hmnc1 : p.mnc1≠0xf
  · simp only [if_pos hmnc1,if_pos h]
  · simp only [if_neg hmnc1]

def PlmnId.mcc (p : PlmnId) : Nat := p.mcc1.toNat*100+p.mcc2.toNat*10+p.mcc3.toNat

def PlmnId.mnc (p : PlmnId) : Nat :=
  if p.mnc1=0xf then p.mnc2.toNat*10+p.mnc3.toNat
  else p.mnc1.toNat*100+p.mnc2.toNat*10+p.mnc3.toNat

def PlmnId.mncLen (p : PlmnId) : Nat := if p.mnc1=0xf then 2 else 3

end OgsDp.Amf
