import OgsDp.Nas.Security
import Mathlib.Data.List.Nodup

/-!
# Downlink messages (src/amf/nas-security.c, src/mme/nas-security.c)

A message that announces a new security context starts the COUNT over before it is encoded; the
others take the next COUNT, and none where they fail.
-/

namespace OgsDp.Nas
open Lib OgsDp.Core

inductive Encoder where
  | nas5gs (accessType : Byte)
  | eps

section

variable {μ : Type} {x : Crypto} {plainEncode : Message μ → Option Pkbuf} {d : Encoder} {ue : Ue}
  {message : Message μ}

namespace Encoder

def encode (x : Crypto) (plainEncode : Message μ → Option Pkbuf) (d : Encoder) (ue : Ue)
    (message : Message μ) : Outcome Ue (Option Pkbuf) :=
  match d with
  | .nas5gs accessType => Amf.nas5gsSecurityEncode x plainEncode accessType ue message
  | .eps => Mme.nasEpsSecurityEncode x plainEncode ue message

end Encoder

def usedCount (ue : Ue) (message : Message μ) : BitVec 32 :=
  if message.newSecurityContext then 0 else ue.dlCount

def isProtected (ue : Ue) (message : Message μ) : Bool :=
  message.integrityProtected &&
    (ue.selectedIntAlgorithm != 0 || message.ciphered && ue.selectedEncAlgorithm != 0)

def nextCount (c : BitVec 32) : BitVec 32 := (c+1) &&& 0xffffff

structure Encoded (ue : Ue) (message : Message μ) (ue' : Ue) (new : Option Pkbuf) : Prop where
  algorithms : ue'.selectedIntAlgorithm=ue.selectedIntAlgorithm ∧
    ue'.selectedEncAlgorithm=ue.selectedEncAlgorithm
  counted : message.integrityProtected=true → new≠none →
    ue'.dlCount=nextCount (usedCount ue message)
  failed : new=none → ue'.dlCount=usedCount ue message ∧
    (message.newSecurityContext=false → ue'.ulCount=ue.ulCount)
  plain : message.integrityProtected=false → ue'.dlCount=ue.dlCount

theorem newSecurityContext_protected (h : message.newSecurityContext=true) :
    message.integrityProtected=true := by
  unfold Message.newSecurityContext at h
  unfold Message.integrityProtected
  simp only [Bool.or_eq_true,beq_iff_eq] at h
  rcases h with h | h <;> simp [h]

theorem asserting_keeps {α : Type} {o : Option α} : (asserting ue o).Keeps id ue := by
  cases o <;> trivial

theorem protect_returns (x : Crypto) (header : List Byte) (bearer : Byte) (ue : Ue)
    (integrityProtected ciphered : Bool) (plain : Pkbuf) :
    (protect x header bearer ue integrityProtected ciphered plain).Returns fun ue' new =>
      ue' = { ue with dlCount := nextCount ue.dlCount,securityContextAvailable := true } ∧
        new≠none := by
  unfold protect
  simp only
  apply Outcome.Returns.bind (R := fun t _ => t=ue)
  · split
    · exact asserting_keeps
    · rfl
  rintro t new rfl
  apply Outcome.Returns.bind asserting_keeps
  rintro t new rfl
  apply Outcome.Returns.bind (R := fun t' _ => t'=id t)
  · split
    · exact asserting_keeps
    · rfl
  rintro t' r rfl
  apply Outcome.Returns.bind asserting_keeps
  rintro t' new rfl
  exact ⟨rfl,Option.some_ne_none _⟩

theorem securityEncode_returns (x : Crypto) (plainEncode : Message μ → Option Pkbuf)
    (header : List Byte) (bearer : Byte) (ue : Ue) (message : Message μ) :
    (securityEncode x plainEncode header bearer ue message).Returns (Encoded ue message) := by
  unfold securityEncode
  split
  · rename_i htype
    have hplain : message.integrityProtected=false := by
      simp [Message.integrityProtected,htype]
    have hold : message.newSecurityContext=false := by
      simp [Message.newSecurityContext,htype]
    refine ⟨⟨rfl,rfl⟩,fun h => absurd (h.symm.trans hplain) (by simp),fun _ => ⟨?_,fun _ => rfl⟩,
      fun _ => rfl⟩
    simp [usedCount,hold]
  · split
    · rename_i hprotected
      simp only
      generalize hstart : (if message.newSecurityContext=true then
        { ue with dlCount := 0,ulCount := .zero } else ue)=u
      have hcount : u.dlCount=usedCount ue message := by
        rw [← hstart]
        unfold usedCount
        split <;> rfl
      have halg : u.selectedIntAlgorithm=ue.selectedIntAlgorithm ∧
          u.selectedEncAlgorithm=ue.selectedEncAlgorithm := by
        rw [← hstart]
        split <;> exact ⟨rfl,rfl⟩
      have hplain : ¬ message.integrityProtected=false := by simp [hprotected]
      split
      · refine ⟨halg,fun _ h => absurd rfl h,fun _ => ⟨hcount,fun hold => ?_⟩,
          fun h => absurd h hplain⟩
        rw [← hstart,hold]
        rfl
      · apply (protect_returns ..).mono
        rintro ue' new ⟨rfl,hnew⟩
        exact ⟨halg,fun _ _ => by rw [← hcount],fun h => absurd h hnew,
          fun h => absurd h hplain⟩
    · rename_i hno
      have hplain : message.integrityProtected=false := by simpa using hno
      have hold : message.newSecurityContext=false := by
        by_contra hnew
        exact hno (newSecurityContext_protected (by simpa using hnew))
      refine ⟨⟨rfl,rfl⟩,fun h => absurd h hno,fun _ => ⟨?_,fun _ => rfl⟩,fun _ => rfl⟩
      simp [usedCount,hold]

theorem Encoder.encode_returns (x : Crypto) (plainEncode : Message μ → Option Pkbuf) (d : Encoder)
    (ue : Ue) (message : Message μ) :
    (d.encode x plainEncode ue message).Returns (Encoded ue message) := by
  cases d with
  | nas5gs accessType => exact securityEncode_returns ..
  | eps => exact securityEncode_returns ..

def protectedWith (ue : Ue) (message : Message μ) : Outcome Ue (Option Pkbuf) → List (BitVec 32)
  | .ok _ (some _) => if isProtected ue message then [usedCount ue message] else []
  | _ => []

def Encoder.step (x : Crypto) (plainEncode : Message μ → Option Pkbuf) (d : Encoder) (ue : Ue)
    (message : Message μ) : Option (Outcome Ue (Option Pkbuf)) :=
  some (d.encode x plainEncode ue message)

/-- A failed call leaves the counts, unless it announced a new context. -/
def FailsAside (ue : Ue) (message : Message μ) : Outcome Ue (Option Pkbuf) → Prop
  | .ok ue' none => message.newSecurityContext=false →
      ue'.dlCount=ue.dlCount ∧ ue'.ulCount=ue.ulCount
  | _ => True

def laterCount (c : BitVec 32) : Nat → BitVec 32
  | 0 => c
  | k+1 => laterCount (nextCount c) k

theorem nextCount_toNat (c : BitVec 32) : (nextCount c).toNat=(c.toNat+1) % 2^24 := by
  have hone : (1 : BitVec 32).toNat=1 := rfl
  have hmask : (0xffffff : BitVec 32).toNat=2^24-1 := rfl
  unfold nextCount
  rw [BitVec.toNat_and,hmask,Nat.and_two_pow_sub_one_eq_mod,BitVec.toNat_add,hone]
  omega

theorem laterCount_toNat (c : BitVec 32) (k : Nat) :
    (laterCount c (k+1)).toNat=(c.toNat+k+1) % 2^24 := by
  induction k generalizing c with
  | zero => exact nextCount_toNat c
  | succ k ih =>
    show (laterCount (nextCount c) (k+1)).toNat=_
    rw [ih,nextCount_toNat]
    omega

theorem laterCount_ne (c : BitVec 32) {i j : Nat} (hij : i<j) (hj : j<2^24) :
    laterCount c i≠laterCount c j := by
  intro heq
  have hval:=congrArg BitVec.toNat heq
  obtain ⟨j,rfl⟩ : ∃ k,j=k+1 := ⟨j-1,by omega⟩
  rw [laterCount_toNat] at hval
  cases i with
  | zero =>
    simp only [laterCount] at hval
    omega
  | succ i =>
    rw [laterCount_toNat] at hval
    omega

theorem laterCount_nodup (c : BitVec 32) {n : Nat} (hn : n≤2^24) :
    ((List.range n).map (laterCount c)).Nodup := by
  refine List.Nodup.map_on ?_ List.nodup_range
  intro i hi j hj heq
  rw [List.mem_range] at hi hj
  rcases Nat.lt_trichotomy i j with hlt | heq' | hlt
  · exact absurd heq (laterCount_ne c hlt (by omega))
  · exact heq'
  · exact absurd heq.symm (laterCount_ne c hlt (by omega))

theorem encode_counts {ue' : Ue} {new : Option Pkbuf}
    (hcall : d.encode x plainEncode ue message = .ok ue' new) :
    ue'.dlCount=nextCount (usedCount ue message) ∨
      ue'.dlCount=usedCount ue message ∧ protectedWith ue message (.ok ue' new)=[] := by
  have hreturns:=Encoder.encode_returns x plainEncode d ue message
  rw [hcall] at hreturns
  cases hnew : new with
  | none => exact .inr ⟨(hreturns.failed hnew).1,rfl⟩
  | some pkbuf =>
    cases hprotected : message.integrityProtected with
    | true => exact .inl (hreturns.counted hprotected (by simp [hnew]))
    | false =>
      have hold : message.newSecurityContext=false := by
        by_contra hno
        rw [newSecurityContext_protected (by simpa using hno)] at hprotected
        cases hprotected
      refine .inr ⟨?_,?_⟩
      · rw [hreturns.plain hprotected]
        simp [usedCount,hold]
      · simp [protectedWith,isProtected,hprotected]

theorem protectedWith_sublist (ue : Ue) (message : Message μ) (o : Outcome Ue (Option Pkbuf)) :
    (protectedWith ue message o).Sublist [usedCount ue message] := by
  unfold protectedWith
  split
  · split
    · exact List.Sublist.refl _
    · exact List.nil_sublist _
  · exact List.nil_sublist _

theorem range_laterCount (c : BitVec 32) (n : Nat) :
    (List.range (n+1)).map (laterCount c) =
      c::(List.range n).map (laterCount (nextCount c)) := by
  rw [List.range_succ_eq_map,List.map_cons,List.map_map]
  rfl

variable (x plainEncode d ue message) in
theorem emitted_cons {messages : List (Message μ)}
    (hrest : ∀ ue' : Ue, (emitted (d.step x plainEncode) protectedWith ue' messages).Sublist
      ((List.range messages.length).map (laterCount ue'.dlCount))) :
    (emitted (d.step x plainEncode) protectedWith ue (message::messages)).Sublist
      ((List.range (messages.length+1)).map (laterCount (usedCount ue message))) := by
  unfold emitted Encoder.step
  cases hcall : d.encode x plainEncode ue message with
  | abort ue' => exact List.nil_sublist _
  | ok ue' new =>
    simp only
    rcases encode_counts hcall with hcount | ⟨hcount,hnone⟩
    · rw [range_laterCount,← hcount,← List.singleton_append]
      exact (protectedWith_sublist ..).append (hrest ue')
    · rw [hnone,List.nil_append,← hcount]
      exact (hrest ue').trans (((List.range_sublist).mpr (Nat.le_succ _)).map _)

theorem emitted_sublist {messages : List (Message μ)}
    (hold : ∀ m∈messages,m.newSecurityContext=false) :
    (emitted (d.step x plainEncode) protectedWith ue messages).Sublist
      ((List.range messages.length).map (laterCount ue.dlCount)) := by
  induction messages generalizing ue with
  | nil => exact List.Sublist.slnil
  | cons m ms ih =>
    have hused : usedCount ue m=ue.dlCount := by
      simp [usedCount,hold m (List.mem_cons_self ..)]
    rw [← hused]
    apply emitted_cons
    intro ue'
    apply ih
    intro m' hm'
    exact hold m' (List.mem_cons_of_mem m hm')

end

def amfUe : Ue where
  securityContextAvailable := true
  macFailed := false
  knasInt := Vector.replicate 16 0
  knasEnc := Vector.replicate 16 0
  dlCount := 7
  ulCount := ⟨0,0,3⟩
  selectedEncAlgorithm := 0
  selectedIntAlgorithm := 1

def plain1 (message : Message Bool) : Option Pkbuf :=
  if message.body then some ⟨List.replicate 16 0,[1],[]⟩ else none

def zeroMac : Crypto where
  snow3gF9 := fun _ _ _ _ _ => Vector.replicate 4 0
  aesCmac := fun _ _ => Vector.replicate 16 0
  zucEia3 := fun _ _ _ _ _ => Vector.replicate 4 0
  snow := fun _ _ _ _ data => data
  aesCtr128 := fun _ _ data => data
  zucEea3 := fun _ _ _ _ data => data

end OgsDp.Nas
