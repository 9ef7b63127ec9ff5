import OgsDp.Core.Bcd

/-!
# The SUPI of a SUCI (lib/sbi/conv.c)

`ogs_supi_from_suci` splits a copy of the SUCI into tokens and finds the SUPI in them, with a key
of the home network if they are protected.
-/

namespace OgsDp.Sbi
open Lib OgsDp.Core

def maxSuciToken : Nat := 16
def eccKeyLen : Nat := 32
def mactagLen : Nat := 8
def msinLen : Nat := 5

def strsep (p : List Byte) : List Byte × Option (List Byte) :=
  (p.takeWhile (· ≠ minus),
    match p.dropWhile (· ≠ minus) with
    | [] => none
    | _::rest => some rest)

-- The elements of `array` in front of the first `NULL`, with `room` left from `array[i]` on.
def suciTokens : Nat → Option (List Byte) → List (List Byte)
  | 0, _ => []
  | _, none => []
  | room+1, some p => (strsep p).1::suciTokens room (strsep p).2

inductive Block where
  | tokens
  | schemeOutput
  | pubkey
  | cipherText
  | plainText
  | plainBcd
  deriving DecidableEq

def ogsFree (b : Block) (live : List Block) : Except Fault (List Block) :=
  if b∈live then .ok (live.erase b) else .error .assertion

def vecAt (d : List Byte) (i n : Nat) : Except Fault (Vector Byte n) :=
  if h : i+n≤d.length then
    .ok ⟨((d.drop i).take n).toArray,by
      rw [List.size_toArray,List.length_take,List.length_drop]; omega⟩
  else .error .read

structure Hnet where
  avail : Bool
  scheme : Byte
  key : Vector Byte 32

structure SuciKeys where
  derived ::
  ek : Vector Byte 16
  icb : Vector Byte 16
  mk : Vector Byte 32

structure SuciCrypto where
  curve25519 : Vector Byte 32 → List Byte → Vector Byte 32
  ecdh : List Byte → Vector Byte 32 → Option (Vector Byte 32)
  kdfAnsiX963 : Vector Byte 32 → List Byte → SuciKeys
  hmacSha256 : Vector Byte 32 → List Byte → Vector Byte 8
  aesCtr128 : Vector Byte 16 → Vector Byte 16 → Vector Byte 5 → Vector Byte 5

-- What an `uint8_t` keeps of `atoi`.
def atoi8 (token : List Byte) : Byte := Fin.ofNat 256 (atoi token).toNat

structure SuciParts where
  ecckey : List Byte
  cipherText : Vector Byte 5
  mactag : Vector Byte 8

def eccKeySize (protectionSchemeId : Byte) : Option Nat :=
  match protectionSchemeId.val with
  | 1 => some eccKeyLen
  | 2 => some (eccKeyLen+1)
  | _ => none

def schemeOutputSize (output : List Byte) : Nat := output.length / 2 % 256

/-- `parse_scheme_output`, `none` for `OGS_ERROR`. -/
def parseSchemeOutput (scheme output : List Byte) (live : List Block) :
    Except Fault (List Block × Option SuciParts) :=
  if schemeOutputSize output≤eccKeyLen+1+mactagLen then .ok (live,none)
  else do
    let live:=.schemeOutput::live
    let (_,d) ← asciiToHex output (List.replicate (schemeOutputSize output) 0) 0 false
    match eccKeySize (atoi8 scheme) with
    | none => .error .assertion
    | some size =>
      let ecckey ← octetsAt d 0 size
      let live:=.pubkey::live
      let cipherText ← vecAt d size msinLen
      let live:=.cipherText::live
      let mactag ← vecAt d (size+msinLen) mactagLen
      let live ← ogsFree .schemeOutput live
      return (live,some ⟨ecckey,cipherText,mactag⟩)

def imsiText (mcc mnc msin : List Byte) : List Byte := ascii "imsi-" ++ mcc++mnc++msin

def cleanup (supi : Option (List Byte)) (live : List Block) :
    Except Fault (List Block × Option (List Byte)) := do
  let live ← ogsFree .pubkey live
  let live ← ogsFree .cipherText live
  return (live,supi)

def sharedSecret (x : SuciCrypto) (protectionSchemeId : Byte) (key : Vector Byte 32)
    (pubkey : List Byte) : Option (Vector Byte 32) :=
  if protectionSchemeId=1 then some (x.curve25519 key pubkey) else x.ecdh pubkey key

def deconceal (x : SuciCrypto) (protectionSchemeId : Byte) (key : Vector Byte 32)
    (mcc mnc : List Byte) (parts : SuciParts) (live : List Block) :
    Except Fault (List Block × Option (List Byte)) :=
  match sharedSecret x protectionSchemeId key parts.ecckey with
  | none => cleanup none live
  | some z =>
    let keys:=x.kdfAnsiX963 z parts.ecckey
    if parts.mactag≠x.hmacSha256 keys.mk parts.cipherText.toList then cleanup none live
    else do
      let plainText:=x.aesCtr128 keys.ek keys.icb parts.cipherText
      let live:=.plainBcd :: .plainText::live
      let plainBcd ← bufferToBcd plainText.toList (List.replicate (msinLen*2+1) 0)
      let live ← ogsFree .plainText live
      let live ← ogsFree .plainBcd live
      cleanup (some (imsiText mcc mnc (beforeZero plainBcd))) live

def hasKey (hnet : Byte → Hnet) (scheme pki : List Byte) : Bool :=
  1≤(atoi8 pki).val && (atoi8 pki).val≤254 && (hnet (atoi8 pki)).avail &&
    (hnet (atoi8 pki)).scheme == atoi8 scheme

def supiOfImsi (x : SuciCrypto) (hnet : Byte → Hnet) (mcc mnc scheme pki output : List Byte)
    (live : List Block) : Except Fault (List Block × Option (List Byte)) :=
  if atoi8 scheme=0 then .ok (live,some (imsiText mcc mnc output))
  else if atoi8 scheme=1 ∨ atoi8 scheme=2 then
    if hasKey hnet scheme pki then do
      match ← parseSchemeOutput scheme output live with
      | (live,none) => return (live,none)
      | (live,some parts) =>
        deconceal x (atoi8 scheme) (hnet (atoi8 pki)).key mcc mnc parts live
    else .ok (live,none)
  else .ok (live,none)

def supiOfTokens (x : SuciCrypto) (hnet : Byte → Hnet) (array : List (List Byte))
    (live : List Block) : Except Fault (List Block × Option (List Byte)) :=
  if array[0]?=some (ascii "suci") ∧ array[1]?=some (ascii "0") then
    match array[2]?, array[3]?, array[5]?, array[6]?, array[7]? with
    | some mcc, some mnc, some scheme, some pki, some output =>
      supiOfImsi x hnet mcc mnc scheme pki output live
    | _, _, _, _, _ => .ok (live,none)
  else .ok (live,none)

/-- `ogs_supi_from_suci`: the blocks that are live at its end, and the SUPI. -/
def supiFromSuci (x : SuciCrypto) (hnet : Byte → Hnet) (suci : CStr) :
    Except Fault (List Block × Option (List Byte)) := do
  let live:=[.tokens]
  let (live,supi) ← supiOfTokens x hnet (suciTokens maxSuciToken (some suci.bytes)) live
  let live ← ogsFree .tokens live
  return (live,supi)

def schemeOctets (output : List Byte) : List Byte :=
  match asciiToHex output (List.replicate (schemeOutputSize output) 0) 0 false with
  | .ok r => r.2
  | .error _ => []

/-- The MAC part of the scheme output is the MAC over its ciphertext part. -/
def MacMatches (x : SuciCrypto) (hnet : Byte → Hnet) (scheme pki output : List Byte) : Prop :=
  ∀ size,eccKeySize (atoi8 scheme)=some size →
    let d:=schemeOctets output
    ∃ z,sharedSecret x (atoi8 scheme) (hnet (atoi8 pki)).key (d.take size)=some z ∧
      (x.hmacSha256 (x.kdfAnsiX963 z (d.take size)).mk ((d.drop size).take msinLen)).toList =
        (d.drop (size+msinLen)).take mactagLen

section Slices

variable {d : List Byte} {i n : Nat}

theorem vecAt_of_le (h : i+n≤d.length) :
    ∃ v,vecAt d i n = .ok v ∧ v.toList=(d.drop i).take n := by
  refine ⟨_,dif_pos h,?_⟩
  simp

theorem vecAt_of_lt (h : d.length < i+n) : vecAt d i n = .error .read :=
  dif_neg (Nat.not_le.mpr h)

theorem schemeOctets_ok (output : List Byte) :
    ∃ j,asciiToHex output (List.replicate (schemeOutputSize output) 0) 0 false =
        .ok (j,schemeOctets output) ∧
      (schemeOctets output).length=schemeOutputSize output := by
  obtain ⟨j,d,hd,hlen⟩ :=
    asciiToHex_ok output (List.replicate (schemeOutputSize output) 0) 0 false
  have hoctets : schemeOctets output=d := by
    unfold schemeOctets
    rw [hd]
  refine ⟨j,by rw [hoctets]; exact hd,?_⟩
  rw [hoctets,hlen,List.length_replicate]

theorem parseSchemeOutput_eq (scheme output : List Byte) (live : List Block) {size : Nat}
    (hsize : eccKeySize (atoi8 scheme)=some size) (hbound : size≤eccKeyLen+1) :
    if schemeOutputSize output≤eccKeyLen+1+mactagLen then
      parseSchemeOutput scheme output live = .ok (live,none)
    else if schemeOutputSize output<size+msinLen+mactagLen then
      parseSchemeOutput scheme output live = .error .read
    else ∃ parts,parseSchemeOutput scheme output live =
        .ok (.cipherText :: .pubkey::live,some parts) ∧
      parts.ecckey=(schemeOctets output).take size ∧
      parts.cipherText.toList=((schemeOctets output).drop size).take msinLen ∧
      parts.mactag.toList=((schemeOctets output).drop (size+msinLen)).take mactagLen := by
  have hbound' : size≤33 := hbound
  split
  · rename_i hshort
    exact if_pos hshort
  · rename_i hlong
    have hlong' : 41<schemeOutputSize output := Nat.lt_of_not_le hlong
    obtain ⟨j,hd,hlen⟩ := schemeOctets_ok output
    generalize schemeOctets output=d at hd hlen
    have hecckey:=octetsAt_of_le (d := d) (i := 0) (n := size) (by omega)
    obtain ⟨cipherText,hcipher,hcipherText⟩ :=
      vecAt_of_le (d := d) (i := size) (n := msinLen) (by show size+5≤_; omega)
    unfold parseSchemeOutput
    rw [if_neg hlong,hd]
    simp only [ok_bind,hsize,hecckey,hcipher]
    split
    · rename_i hover
      rw [vecAt_of_lt (by rw [hlen]; exact hover)]
      rfl
    · rename_i hfits
      obtain ⟨mactag,hmac,hmactag⟩ := vecAt_of_le (d := d) (i := size+msinLen) (n := mactagLen)
        (by rw [hlen]; exact Nat.le_of_not_lt hfits)
      have hfree : ogsFree .schemeOutput (.cipherText :: .pubkey :: .schemeOutput::live) =
          .ok (.cipherText :: .pubkey::live) := if_pos (by simp)
      simp only [hmac,ok_bind,hfree]
      exact ⟨_,rfl,rfl,hcipherText,hmactag⟩

end Slices

theorem eccKeySize_profile {protectionSchemeId : Byte}
    (h : protectionSchemeId=1 ∨ protectionSchemeId=2) :
    ∃ size,eccKeySize protectionSchemeId=some size ∧ size≤eccKeyLen+1 := by
  rcases h with rfl | rfl
  · exact ⟨eccKeyLen,rfl,by decide⟩
  · exact ⟨eccKeyLen+1,rfl,by decide⟩

theorem eccKeySize_other {protectionSchemeId : Byte}
    (h : ¬ (protectionSchemeId=1 ∨ protectionSchemeId=2)) :
    eccKeySize protectionSchemeId=none := by
  unfold eccKeySize
  split
  · rename_i hval
    exact absurd (.inl (Fin.ext hval)) h
  · rename_i hval
    exact absurd (.inr (Fin.ext hval)) h
  · rfl

/-- The scheme output is longer than the check asks for, but does not have all its parts. -/
def Overruns (hnet : Byte → Hnet) (scheme pki output : List Byte) : Prop :=
  hasKey hnet scheme pki=true ∧ ∃ size,eccKeySize (atoi8 scheme)=some size ∧
    eccKeyLen+1+mactagLen<schemeOutputSize output ∧
    schemeOutputSize output<size+msinLen+mactagLen

section Exits

variable (x : SuciCrypto) (hnet : Byte → Hnet) (live : List Block)

theorem cleanup_eq (supi : Option (List Byte)) :
    cleanup supi (.cipherText :: .pubkey::live) = .ok (live,supi) := by
  have hpubkey : ogsFree .pubkey (.cipherText :: .pubkey::live) = .ok (.cipherText::live) :=
    if_pos (by simp)
  have hcipher : ogsFree .cipherText (.cipherText::live) = .ok live := if_pos (by simp)
  unfold cleanup
  simp only [hpubkey,ok_bind,hcipher]
  rfl

theorem deconceal_gives (protectionSchemeId : Byte) (key : Vector Byte 32) (mcc mnc : List Byte)
    (parts : SuciParts) :
    Gives (deconceal x protectionSchemeId key mcc mnc parts (.cipherText :: .pubkey::live))
      fun r => r.1=live ∧ (r.2≠none →
        ∃ z,sharedSecret x protectionSchemeId key parts.ecckey=some z ∧
          x.hmacSha256 (x.kdfAnsiX963 z parts.ecckey).mk parts.cipherText.toList =
            parts.mactag) := by
  unfold deconceal
  cases hz : sharedSecret x protectionSchemeId key parts.ecckey with
  | none =>
    simp only [cleanup_eq]
    exact gives_ok.mpr ⟨rfl,fun h => absurd rfl h⟩
  | some z =>
    simp only
    split
    · rw [cleanup_eq]
      exact gives_ok.mpr ⟨rfl,fun h => absurd rfl h⟩
    · rename_i hmac
      generalize x.aesCtr128 _ _ parts.cipherText=plainText
      have hne : plainText.toList≠[] :=
        List.ne_nil_of_length_pos (by rw [Vector.length_toList]; decide)
      have hroom : plainText.toList.length*2+1 ≤
          (List.replicate (msinLen*2+1) (0 : Byte)).length := by
        rw [Vector.length_toList,List.length_replicate]
        decide
      obtain ⟨rest,hbcd⟩ := bufferToBcd_ok hne hroom
      have hplain : ogsFree .plainText (.plainBcd :: .plainText :: .cipherText :: .pubkey::live) =
          .ok (.plainBcd :: .cipherText :: .pubkey::live) := if_pos (by simp)
      have hplainBcd : ogsFree .plainBcd (.plainBcd :: .cipherText :: .pubkey::live) =
          .ok (.cipherText :: .pubkey::live) := if_pos (by simp)
      simp only [hbcd,ok_bind,hplain,hplainBcd,cleanup_eq]
      exact gives_ok.mpr ⟨rfl,fun _ => ⟨z,rfl,(not_not.mp hmac).symm⟩⟩

theorem supiOfImsi_gives (mcc mnc scheme pki output : List Byte) :
    Gives (supiOfImsi x hnet mcc mnc scheme pki output live)
      (fun r => r.1=live ∧ (r.2≠none → MacMatches x hnet scheme pki output)) ↔
        ¬ Overruns hnet scheme pki output := by
  unfold supiOfImsi
  by_cases hprofile : atoi8 scheme=1 ∨ atoi8 scheme=2
  · have hnull : atoi8 scheme≠0 := by
      rcases hprofile with h | h <;> rw [h] <;> decide
    obtain ⟨size,hsize,hbound⟩ := eccKeySize_profile hprofile
    rw [if_neg hnull,if_pos hprofile]
    by_cases hkey : hasKey hnet scheme pki=true
    · rw [if_pos hkey]
      have hover : Overruns hnet scheme pki output ↔
          eccKeyLen+1+mactagLen<schemeOutputSize output ∧
            schemeOutputSize output<size+msinLen+mactagLen := by
        unfold Overruns
        rw [and_iff_right hkey,hsize]
        simp only [Option.some_inj,exists_eq_left']
      have hparse:=parseSchemeOutput_eq scheme output live hsize hbound
      rw [hover]
      split at hparse
      · rename_i hshort
        rw [hparse]
        refine iff_of_true (gives_ok.mpr ⟨rfl,fun h => absurd rfl h⟩) fun h => ?_
        exact absurd h.1 (Nat.not_lt.mpr hshort)
      · rename_i hlong
        split at hparse
        · rename_i hoverrun
          rw [hparse]
          refine iff_of_false not_gives_error fun h => h ⟨Nat.lt_of_not_le hlong,hoverrun⟩
        · rename_i hfits
          obtain ⟨parts,hparts,hecckey,hcipher,hmactag⟩ := hparse
          rw [hparts]
          refine iff_of_true ?_ fun h => hfits h.2
          have hgives:=deconceal_gives x live (atoi8 scheme) (hnet (atoi8 pki)).key mcc mnc parts
          refine hgives.mono fun r ⟨hlive,hmac⟩ => ?_
          refine ⟨hlive,fun hfound size' hsize' => ?_⟩
          obtain rfl := Option.some.inj (hsize.symm.trans hsize')
          obtain ⟨z,hz,hz'⟩ := hmac hfound
          simp only
          rw [← hecckey,← hcipher,← hmactag]
          exact ⟨z,hz,congrArg Vector.toList hz'⟩
    · rw [if_neg hkey]
      exact iff_of_true (gives_ok.mpr ⟨rfl,fun h => absurd rfl h⟩) fun h => hkey h.1
  · -- No other scheme has a key.
    have hnone:=eccKeySize_other hprofile
    have hmac : MacMatches x hnet scheme pki output := by
      intro size hsize
      rw [hnone] at hsize
      cases hsize
    refine iff_of_true ?_ fun h => ?_
    · split
      · exact gives_ok.mpr ⟨rfl,fun _ => hmac⟩
      · exact gives_ok.mpr ⟨rfl,fun h => absurd rfl h⟩
    · obtain ⟨-,size,hsize,-⟩ := h
      rw [hnone] at hsize
      cases hsize

end Exits

/-- The SUCI has tokens that are de-concealed, whose scheme output is read behind its end. -/
def SuciOverruns (hnet : Byte → Hnet) (array : List (List Byte)) : Prop :=
  array[0]?=some (ascii "suci") ∧ array[1]?=some (ascii "0") ∧
    (∃ mcc,array[2]?=some mcc) ∧ (∃ mnc,array[3]?=some mnc) ∧
    ∃ scheme pki output,array[5]?=some scheme ∧ array[6]?=some pki ∧
      array[7]?=some output ∧ Overruns hnet scheme pki output

/-- The call comes back with no block left, and with a SUPI only if the MAC is right. -/
def SuciHandled (x : SuciCrypto) (hnet : Byte → Hnet) (suci : CStr) : Prop :=
  Gives (supiFromSuci x hnet suci) fun r => r.1=[] ∧ (r.2≠none →
    ∀ scheme pki output,(suciTokens maxSuciToken (some suci.bytes))[5]?=some scheme →
      (suciTokens maxSuciToken (some suci.bytes))[6]?=some pki →
      (suciTokens maxSuciToken (some suci.bytes))[7]?=some output →
      MacMatches x hnet scheme pki output)

section Suci

variable (x : SuciCrypto) (hnet : Byte → Hnet)

theorem supiOfTokens_gives (array : List (List Byte)) (live : List Block) :
    Gives (supiOfTokens x hnet array live) (fun r => r.1=live ∧ (r.2≠none →
      ∀ scheme pki output,array[5]?=some scheme → array[6]?=some pki →
        array[7]?=some output → MacMatches x hnet scheme pki output)) ↔
      ¬ SuciOverruns hnet array := by
  unfold supiOfTokens SuciOverruns
  by_cases hname : array[0]?=some (ascii "suci") ∧ array[1]?=some (ascii "0")
  · rw [if_pos hname]
    split
    · rename_i mcc mnc scheme pki output hmcc hmnc hscheme hpki houtput
      have hover : (array[0]?=some (ascii "suci") ∧ array[1]?=some (ascii "0") ∧
          (∃ mcc,array[2]?=some mcc) ∧ (∃ mnc,array[3]?=some mnc) ∧
          ∃ scheme pki output,array[5]?=some scheme ∧ array[6]?=some pki ∧
            array[7]?=some output ∧ Overruns hnet scheme pki output) ↔
          Overruns hnet scheme pki output := by
        constructor
        · rintro ⟨-,-,-,-,scheme',pki',output',hscheme',hpki',houtput',h⟩
          cases hscheme.symm.trans hscheme'
          cases hpki.symm.trans hpki'
          cases houtput.symm.trans houtput'
          exact h
        · intro h
          exact ⟨hname.1,hname.2,⟨mcc,hmcc⟩,⟨mnc,hmnc⟩,scheme,pki,output,hscheme,hpki,
            houtput,h⟩
      rw [hover,← supiOfImsi_gives x hnet live mcc mnc scheme pki output]
      refine exists_congr fun r => and_congr_right fun _ => and_congr_right fun _ =>
        imp_congr_right fun _ => ?_
      constructor
      · exact fun h => h scheme pki output hscheme hpki houtput
      · intro h scheme' pki' output' hscheme' hpki' houtput'
        cases hscheme.symm.trans hscheme'
        cases hpki.symm.trans hpki'
        cases houtput.symm.trans houtput'
        exact h
    · rename_i hmissing
      refine iff_of_true (gives_ok.mpr ⟨rfl,fun h => absurd rfl h⟩) ?_
      rintro ⟨-,-,⟨mcc,hmcc⟩,⟨mnc,hmnc⟩,scheme,pki,output,hscheme,hpki,houtput,-⟩
      exact hmissing mcc mnc scheme pki output hmcc hmnc hscheme hpki houtput
  · rw [if_neg hname]
    refine iff_of_true (gives_ok.mpr ⟨rfl,fun h => absurd rfl h⟩) fun h => ?_
    exact hname ⟨h.1,h.2.1⟩

theorem live_of_free {b : Block} {live live' : List Block} (hfree : ogsFree b live = .ok live')
    (hnil : live'=[]) : live=[b] := by
  unfold ogsFree at hfree
  split at hfree
  · rename_i hmem
    have herase : live.erase b=[] := (Except.ok.inj hfree).trans hnil
    have hlen:=List.length_erase_of_mem hmem
    have hpos:=List.length_pos_of_mem hmem
    rw [herase,List.length_nil] at hlen
    obtain ⟨c,rfl⟩ := List.length_eq_one_iff.mp (show live.length=1 by omega)
    rw [List.mem_singleton.mp hmem]
  · cases hfree

/-- A SUCI is handled without a fault or a leak, and with the right MAC, exactly if its scheme
output is not read behind its end. -/
theorem supi_from_suci_robust (suci : CStr) :
    SuciHandled x hnet suci ↔
      ¬ SuciOverruns hnet (suciTokens maxSuciToken (some suci.bytes)) := by
  rw [← supiOfTokens_gives x hnet _ [.tokens]]
  unfold SuciHandled supiFromSuci
  simp only
  rw [gives_bind]
  constructor
  · intro h
    refine h.mono fun r hr => ?_
    obtain ⟨live',hfree,hrest⟩ := gives_bind.mp hr
    obtain ⟨hnil,hmac⟩ := gives_ok.mp hrest
    exact ⟨live_of_free hfree hnil,hmac⟩
  · intro h
    refine h.mono fun r ⟨hlive,hmac⟩ => ?_
    have hfree : ogsFree .tokens [.tokens] = .ok [] := rfl
    obtain ⟨live,supi⟩ := r
    cases hlive
    simp only [hfree,ok_bind]
    exact gives_ok.mpr ⟨rfl,hmac⟩

end Suci

def suciCrypto0 : SuciCrypto where
  curve25519 := fun _ _ => Vector.replicate 32 0
  ecdh := fun _ _ => none
  kdfAnsiX963 := fun _ _ => ⟨Vector.replicate 16 0,Vector.replicate 16 0,Vector.replicate 32 0⟩
  hmacSha256 := fun _ _ => Vector.replicate 8 0
  aesCtr128 := fun _ _ data => data

def hnetA : Byte → Hnet := fun _ => ⟨true,1,Vector.replicate 32 0⟩

def shortOutput : CStr where
  bytes := ascii "suci-0-001-01-0-1-1-" ++ List.replicate 84 48
  noNul := by decide

set_option maxRecDepth 4000 in
/-- 42 octets pass the check of the length, but profile A slices 45 off. -/
theorem supi_from_suci_robust_short :
    supiFromSuci suciCrypto0 hnetA shortOutput = .error .read ∧
      ¬ ∀ (x : SuciCrypto) (hnet : Byte → Hnet) (suci : CStr),SuciHandled x hnet suci := by
  have hread : supiFromSuci suciCrypto0 hnetA shortOutput = .error .read := by
    rfl
  refine ⟨hread,fun h => ?_⟩
  have hcall:=h suciCrypto0 hnetA shortOutput
  unfold SuciHandled at hcall
  rw [hread] at hcall
  exact not_gives_error hcall

end OgsDp.Sbi
