import OgsDp.Nas.BitRates

/-!
# Bit rates in up to three octets (lib/nas/common/types.c, lib/gtp/v2/types.c)

APN-AMBR and EPS QoS have the same first two octets; the third one has ranges of its own in each.
A rate between two that can be written is written as the lower one.
-/

namespace OgsDp.Nas
open Lib OgsDp.Core Smf BitVec

/-- The multiples of `unit` from `start` on, of which `steps` follow the first one. -/
structure Piece where
  start : Nat
  unit : Nat
  steps : Nat

def Piece.floor (p : Piece) (x : Nat) : Nat :=
  p.start+min ((x-p.start) / p.unit) p.steps*p.unit

def floorOf : List Piece → Nat → Nat
  | [], _ => 0
  | p::pieces, x => if p.start≤x then p.floor x else floorOf pieces x

section Floor

variable {p : Piece} {pieces : List Piece} {x y : Nat}

theorem Piece.floor_le (h : p.start≤x) : p.floor x≤x := by
  have hmin : min ((x-p.start) / p.unit) p.steps*p.unit≤(x-p.start) / p.unit*p.unit :=
    Nat.mul_le_mul_right _ (Nat.min_le_left _ _)
  have hdiv:=Nat.div_mul_le_self (x-p.start) p.unit
  unfold Piece.floor
  omega

theorem Piece.floor_mono (h : x≤y) : p.floor x≤p.floor y := by
  have hdiv : (x-p.start) / p.unit≤(y-p.start) / p.unit :=
    Nat.div_le_div_right (by omega)
  have hmin : min ((x-p.start) / p.unit) p.steps ≤ min ((y-p.start) / p.unit) p.steps := by
    omega
  exact Nat.add_le_add_left (Nat.mul_le_mul_right _ hmin) _

theorem floorOf_le (pieces : List Piece) (x : Nat) : floorOf pieces x≤x := by
  induction pieces with
  | nil => exact Nat.zero_le x
  | cons p pieces ih =>
    rw [floorOf]
    split
    · next h => exact p.floor_le h
    · exact ih

theorem floorOf_mono (h : x≤y) : floorOf pieces x≤floorOf pieces y := by
  induction pieces with
  | nil => exact Nat.le_refl 0
  | cons p pieces ih =>
    rw [floorOf,floorOf]
    by_cases hx : p.start≤x
    · rw [if_pos hx,if_pos (by omega)]
      exact p.floor_mono h
    · rw [if_neg hx]
      by_cases hy : p.start≤y
      · have hbelow:=floorOf_le pieces x
        have hstart : p.start≤p.floor y := Nat.le_add_right _ _
        rw [if_pos hy]
        omega
      · rw [if_neg hy]
        exact ih

end Floor

structure RateOctets where
  br : Byte
  extended : Byte
  extended2 : Byte
  deriving DecidableEq

def RateOctets.zero : RateOctets := ⟨0,0,0⟩

def octet (n : Nat) : Byte := Fin.ofNat 256 n

def brOctet (input : Nat) : Byte :=
  if input<1 then 0xff
  else if input≤63 then octet input
  else if input≤568 then octet ((input-64) / 8+0b01000000)
  else if input<576 then 0b01111111
  else if input≤8640 then octet ((input-576) / 64+0b10000000)
  else 0b11111110

def extendedOctet (input : Nat) : Byte :=
  if input≤16000 then octet ((input-8600) / 100)
  else if input<17*1000 then 0b01001010
  else if input≤128*1000 then octet ((input-16*1000) / (1*1000)+0b01001010)
  else if input<130*1000 then 0b10111010
  else if input≤256*1000 then octet ((input-128*1000) / (2*1000)+0b10111010)
  else 0b11111010

-- The number of octets, and what is written; `third` is the first rate with a third octet.
def fromKbps (third : Nat) (extended2 : Nat → Byte) (input : Nat) : Nat × RateOctets :=
  if input<8700 then (1,⟨brOctet input,0,0⟩)
  else if input<third then (2,⟨0b11111110,extendedOctet input,0⟩)
  else (3,⟨0b11111110,0b11111010,extended2 input⟩)

def ambrExtended2 (input : Nat) : Byte :=
  if input≤255*256*1000 then octet ((input-1*256*1000) / (256*1000))
  else 0b11111110

def nasAmbrFromKbps : Nat → Nat × RateOctets := fromKbps (2*256*1000) ambrExtended2

def qosExtended2 (input : Nat) : Byte :=
  if input≤500*1000 then octet ((input-256*1000) / (4*1000))
  else if input<510*1000 then 0b00111101
  else if input≤1500*1000 then octet ((input-500*1000) / (10*1000)+0b00111101)
  else if input<1600*1000 then 0b10100001
  else if input≤10*1000*1000 then octet ((input-1500*1000) / (100*1000)+0b10100001)
  else 0b11110110

def nasQosFromKbps : Nat → Nat × RateOctets := fromKbps (260*1000) qosExtended2

def brKbps (br : Byte) : Option Nat :=
  if br.val=0xff then some 0
  else if 0b00000001≤br.val ∧ br.val≤0b00111111 then some br.val
  else if 0b01000000≤br.val ∧ br.val≤0b01111111 then some (64+(br.val-0b01000000)*8)
  else if 0b10000000≤br.val then some (576+(br.val-0b10000000)*64)
  else none

def extendedKbps (extended : Byte) : Nat :=
  if extended.val≤0b01001010 then 8600+extended.val*100
  else if extended.val≤0b10111010 then 16*1000+(extended.val-0b01001010)*1*1000
  else if extended.val≤0b11111010 then 128*1000+(extended.val-0b10111010)*2*1000
  else 256*1000

def ogsGtp2QosToKbps (o : RateOctets) : Except Fault Nat :=
  let e:=o.extended2.val
  if 0b00000001≤e ∧ e≤0b00111101 then .ok (256*1000+e*4*1000)
  else if 0b00111110≤e ∧ e≤0b10100001 then
    .ok (500*1000+(e-0b00111101)*10*1000)
  else if 0b10100010≤e ∧ e≤0b11110110 then
    .ok (1500*1000+(e-0b10100001)*100*1000)
  else if 0b11110110<e then .ok (10*1000*1000)
  else if o.extended≠0 then .ok (extendedKbps o.extended)
  else (brKbps o.br).elim (.error .assertion) .ok

def ambrKbps (o : RateOctets) : Option Nat :=
  let indicated := if o.extended=0 then brKbps o.br else some (extendedKbps o.extended)
  if o.extended2=0 then indicated
  else if o.extended2.val≤0b11111110 then indicated.map (o.extended2.val*(256*1000) + ·)
  else none

def lowPieces : List Piece :=
  [⟨130000,2000,63⟩,⟨17000,1000,111⟩,⟨8700,100,73⟩,⟨576,64,126⟩,⟨64,8,63⟩,⟨1,1,62⟩]

def ambrPieces : List Piece := ⟨512000,256000,253⟩::lowPieces

def qosPieces : List Piece :=
  ⟨1600000,100000,84⟩::⟨510000,10000,99⟩::⟨260000,4000,60⟩::lowPieces

section Denotes

variable {input : Nat}

theorem octet_val {n : Nat} (h : n<256) : (octet n).val=n := Nat.mod_eq_of_lt h

theorem octet_ne_zero {n : Nat} (hpos : 0<n) (hlt : n<256) : octet n≠0 := by
  intro h0
  have hval:=octet_val hlt
  rw [h0] at hval
  have hzero : (0 : Byte).val=0 := rfl
  omega

theorem brKbps_brOctet (h : input<8700) :
    brKbps (brOctet input)=some (floorOf lowPieces input) := by
  unfold brOctet
  simp only [lowPieces,floorOf,Piece.floor]
  by_cases h0 : input<1
  · rw [if_pos h0]
    simp (disch := omega) only [if_neg]
    rfl
  by_cases h63 : input≤63
  · have hval:=octet_val (n := input) (by omega)
    rw [if_neg h0,if_pos h63,brKbps]
    simp (disch := omega) only [hval,if_neg,if_pos]
    exact congrArg some (by omega)
  by_cases h568 : input≤568
  · have hval:=octet_val (n := (input-64) / 8+0b01000000) (by omega)
    rw [if_neg h0,if_neg h63,if_pos h568,brKbps]
    simp (disch := omega) only [hval,if_neg,if_pos]
    exact congrArg some (by omega)
  by_cases h576 : input<576
  · rw [if_neg h0,if_neg h63,if_neg h568,if_pos h576]
    simp (disch := omega) only [if_neg,if_pos]
    show some 568=_
    exact congrArg some (by omega)
  by_cases h8640 : input≤8640
  · have hval:=octet_val (n := (input-576) / 64+0b10000000) (by omega)
    rw [if_neg h0,if_neg h63,if_neg h568,if_neg h576,if_pos h8640,brKbps]
    simp (disch := omega) only [hval,if_neg,if_pos]
    exact congrArg some (by omega)
  · rw [if_neg h0,if_neg h63,if_neg h568,if_neg h576,if_neg h8640]
    simp (disch := omega) only [if_neg,if_pos]
    show some 8640=_
    exact congrArg some (by omega)

theorem extendedKbps_extendedOctet (h : 8700 ≤ input) : extendedOctet input≠0 ∧
    extendedKbps (extendedOctet input)=floorOf lowPieces input := by
  unfold extendedOctet
  simp only [lowPieces,floorOf,Piece.floor]
  by_cases h16 : input≤16000
  · have hval:=octet_val (n := (input-8600) / 100) (by omega)
    rw [if_pos h16,extendedKbps]
    simp (disch := omega) only [hval,if_neg,if_pos]
    exact ⟨octet_ne_zero (by omega) (by omega),by omega⟩
  by_cases h17 : input<17*1000
  · rw [if_neg h16,if_pos h17]
    simp (disch := omega) only [if_neg,if_pos]
    refine ⟨by decide,?_⟩
    show 16000=_
    omega
  by_cases h128 : input≤128*1000
  · have hval:=octet_val (n := (input-16*1000) / (1*1000)+0b01001010) (by omega)
    rw [if_neg h16,if_neg h17,if_pos h128,extendedKbps]
    simp (disch := omega) only [hval,if_neg,if_pos]
    exact ⟨octet_ne_zero (by omega) (by omega),by omega⟩
  by_cases h130 : input<130*1000
  · rw [if_neg h16,if_neg h17,if_neg h128,if_pos h130]
    simp (disch := omega) only [if_neg,if_pos]
    refine ⟨by decide,?_⟩
    show 128000=_
    omega
  by_cases h256 : input≤256*1000
  · have hval:=octet_val (n := (input-128*1000) / (2*1000)+0b10111010) (by omega)
    rw [if_neg h16,if_neg h17,if_neg h128,if_neg h130,if_pos h256,extendedKbps]
    simp (disch := omega) only [hval,if_neg,if_pos]
    exact ⟨octet_ne_zero (by omega) (by omega),by omega⟩
  · rw [if_neg h16,if_neg h17,if_neg h128,if_neg h130,if_neg h256]
    simp (disch := omega) only [if_neg,if_pos]
    refine ⟨by decide,?_⟩
    show 256000=_
    omega

theorem ambrKbps_nasAmbrFromKbps (input : Nat) :
    ambrKbps (nasAmbrFromKbps input).2=some (floorOf ambrPieces input) := by
  by_cases h8700 : input<8700
  · have hfloor : floorOf ambrPieces input=floorOf lowPieces input :=
      if_neg (by show ¬ 512000 ≤ input; omega)
    have hoctets : nasAmbrFromKbps input=(1,⟨brOctet input,0,0⟩) := if_pos h8700
    rw [hoctets,hfloor]
    exact brKbps_brOctet h8700
  by_cases hthird : input<2*256*1000
  · have hfloor : floorOf ambrPieces input=floorOf lowPieces input :=
      if_neg (by show ¬ 512000 ≤ input; omega)
    have hoctets : nasAmbrFromKbps input=(2,⟨0b11111110,extendedOctet input,0⟩) :=
      (if_neg h8700).trans (if_pos hthird)
    obtain ⟨hne,hval⟩ := @extendedKbps_extendedOctet input (by omega)
    rw [hoctets,hfloor,← hval]
    exact if_neg hne
  have hfloor : floorOf ambrPieces input=Piece.floor ⟨512000,256000,253⟩ input :=
    if_pos (by show 512000 ≤ input; omega)
  rw [hfloor]
  simp only [Piece.floor]
  by_cases hmax : input≤255*256*1000
  · have hoctets : nasAmbrFromKbps input =
        (3,⟨0b11111110,0b11111010,octet ((input-1*256*1000) / (256*1000))⟩) :=
      ((if_neg h8700).trans (if_neg hthird)).trans (by simp only [ambrExtended2,hmax,if_true])
    have hrange : 0<(input-1*256*1000) / (256*1000) ∧
        (input-1*256*1000) / (256*1000)≤254 := by omega
    have hval:=octet_val (n := (input-1*256*1000) / (256*1000)) (by omega)
    have hne:=octet_ne_zero hrange.1 (by omega)
    rw [hoctets,ambrKbps]
    simp only [hne,if_false,hval,if_pos hrange.2]
    show some (_*(256*1000)+256000)=_
    exact congrArg some (by omega)
  · have hoctets : nasAmbrFromKbps input=(3,⟨0b11111110,0b11111010,0b11111110⟩) :=
      ((if_neg h8700).trans (if_neg hthird)).trans (by simp only [ambrExtended2,hmax,if_false])
    rw [hoctets]
    show some (254*(256*1000)+256000)=_
    exact congrArg some (by omega)

theorem ogsGtp2QosToKbps_nasQosFromKbps (input : Nat) :
    ogsGtp2QosToKbps (nasQosFromKbps input).2 = .ok (floorOf qosPieces input) := by
  unfold nasQosFromKbps fromKbps qosExtended2 ogsGtp2QosToKbps qosPieces
  simp only [floorOf]
  by_cases h8700 : input<8700
  · have hbr:=brKbps_brOctet h8700
    simp (disch := omega) only [h8700,if_true,if_neg]
    show (brKbps (brOctet input)).elim _ _=_
    rw [hbr]
    rfl
  by_cases hthird : input<260*1000
  · obtain ⟨hne,hval⟩ := @extendedKbps_extendedOctet input (by omega)
    simp (disch := omega) only [h8700,hthird,if_false,if_true,if_neg]
    show (if extendedOctet input≠0 then _ else _)=_
    rw [if_pos hne,hval]
  by_cases h500 : input≤500*1000
  · have hval:=octet_val (n := (input-256*1000) / (4*1000)) (by omega)
    simp (disch := omega) only [h8700,hthird,h500,if_false,if_true,hval,if_pos,if_neg,
      Piece.floor]
    exact congrArg Except.ok (by omega)
  by_cases h510 : input<510*1000
  · simp (disch := omega) only [h8700,hthird,h500,h510,if_false,if_true,if_pos,if_neg,
      Piece.floor]
    show Except.ok 500000=_
    exact congrArg Except.ok (by omega)
  by_cases h1500 : input≤1500*1000
  · have hval:=octet_val (n := (input-500*1000) / (10*1000)+0b00111101) (by omega)
    simp (disch := omega) only [h8700,hthird,h500,h510,h1500,if_false,if_true,hval,if_pos,
      if_neg,Piece.floor]
    exact congrArg Except.ok (by omega)
  by_cases h1600 : input<1600*1000
  · simp (disch := omega) only [h8700,hthird,h500,h510,h1500,h1600,if_false,if_true,if_pos,
      if_neg,Piece.floor]
    show Except.ok 1500000=_
    exact congrArg Except.ok (by omega)
  by_cases hmax : input≤10*1000*1000
  · have hval:=octet_val (n := (input-1500*1000) / (100*1000)+0b10100001) (by omega)
    simp (disch := omega) only [h8700,hthird,h500,h510,h1500,h1600,hmax,if_false,if_true,
      hval,if_pos,if_neg,Piece.floor]
    exact congrArg Except.ok (by omega)
  · simp (disch := omega) only [h8700,hthird,h500,h510,h1500,h1600,hmax,if_false,if_pos,
      Piece.floor]
    show Except.ok 10000000=_
    exact congrArg Except.ok (by omega)

end Denotes

def RateOctets.sent (n : Nat) (o : RateOctets) : RateOctets :=
  ⟨if 1≤n then o.br else 0,if 2≤n then o.extended else 0,if 3≤n then o.extended2 else 0⟩

structure ApnAmbr where
  length : Byte
  dl : RateOctets
  ul : RateOctets

def apnAmbrBuild (dlApnAmbr ulApnAmbr : BitVec 32) : ApnAmbr :=
  let dl:=nasAmbrFromKbps (dlApnAmbr / 1000).toNat
  let ul:=nasAmbrFromKbps (ulApnAmbr / 1000).toNat
  ⟨octet (max dl.1 ul.1*2),dl.2,ul.2⟩

inductive EpsRate where
  | dlMbr
  | ulMbr
  | dlGbr
  | ulGbr
  deriving DecidableEq

structure EpsQos where
  length : Byte
  qci : Byte
  rate : EpsRate → RateOctets

def epsOctets (rate : BitVec 64) : Nat × RateOctets :=
  if rate / 1000≠0 then nasQosFromKbps (rate / 1000).toNat else (0,RateOctets.zero)

def epsQosBuild (qci : Byte) (rate : EpsRate → BitVec 64) : EpsQos :=
  let length:=[.dlMbr,.ulMbr,.dlGbr,.ulGbr].foldl (fun l x => max l (epsOctets (rate x)).1) 0
  ⟨octet (length*4+1),qci,fun x => (epsOctets (rate x)).2⟩

def ApnAmbr.dlKbps (m : ApnAmbr) : Option Nat := ambrKbps (m.dl.sent (m.length.val / 2))
def ApnAmbr.ulKbps (m : ApnAmbr) : Option Nat := ambrKbps (m.ul.sent (m.length.val / 2))

def EpsQos.kbps (m : EpsQos) (x : EpsRate) : Except Fault Nat :=
  ogsGtp2QosToKbps ((m.rate x).sent ((m.length.val-1) / 4))

section Messages

variable {third input n : Nat} {extended2 : Nat → Byte}

theorem fromKbps_length : (fromKbps third extended2 input).1≤3 := by
  unfold fromKbps
  split
  · show 1≤3
    omega
  · split
    · show 2≤3
      omega
    · exact Nat.le_refl 3

theorem sent_fromKbps (h : (fromKbps third extended2 input).1≤n) :
    (fromKbps third extended2 input).2.sent n=(fromKbps third extended2 input).2 := by
  unfold fromKbps at *
  by_cases h8700 : input<8700
  · rw [if_pos h8700] at h ⊢
    simp [RateOctets.sent,show 1≤n from h]
  by_cases hthird : input<third
  · rw [if_neg h8700,if_pos hthird] at h ⊢
    have h2 : 2≤n := h
    simp [RateOctets.sent,h2,show 1≤n by omega]
  · rw [if_neg h8700,if_neg hthird] at h ⊢
    have h3 : 3≤n := h
    simp [RateOctets.sent,h3,show 1≤n by omega,show 2≤n by omega]

theorem apnAmbr_length (dl ul : BitVec 32) : (apnAmbrBuild dl ul).length.val / 2 =
    max (nasAmbrFromKbps (dl / 1000).toNat).1 (nasAmbrFromKbps (ul / 1000).toNat).1 := by
  have hdl : (nasAmbrFromKbps (dl / 1000).toNat).1≤3 := fromKbps_length
  have hul : (nasAmbrFromKbps (ul / 1000).toNat).1≤3 := fromKbps_length
  show (octet _).val / 2=_
  rw [octet_val (by omega)]
  omega

theorem dlKbps_apnAmbrBuild (dl ul : BitVec 32) :
    (apnAmbrBuild dl ul).dlKbps=some (floorOf ambrPieces (dl.toNat / 1000)) := by
  have hsent : (apnAmbrBuild dl ul).dl.sent ((apnAmbrBuild dl ul).length.val / 2) =
      (nasAmbrFromKbps (dl / 1000).toNat).2 :=
    sent_fromKbps (by rw [apnAmbr_length]; exact Nat.le_max_left _ _)
  rw [ApnAmbr.dlKbps,hsent,ambrKbps_nasAmbrFromKbps]
  rfl

theorem ulKbps_apnAmbrBuild (dl ul : BitVec 32) :
    (apnAmbrBuild dl ul).ulKbps=some (floorOf ambrPieces (ul.toNat / 1000)) := by
  have hsent : (apnAmbrBuild dl ul).ul.sent ((apnAmbrBuild dl ul).length.val / 2) =
      (nasAmbrFromKbps (ul / 1000).toNat).2 :=
    sent_fromKbps (by rw [apnAmbr_length]; exact Nat.le_max_right _ _)
  rw [ApnAmbr.ulKbps,hsent,ambrKbps_nasAmbrFromKbps]
  rfl

theorem epsOctets_length (rate : BitVec 64) : (epsOctets rate).1≤3 := by
  unfold epsOctets
  split
  · exact fromKbps_length
  · exact Nat.zero_le 3

theorem epsQos_length (qci : Byte) (rate : EpsRate → BitVec 64) (x : EpsRate) :
    (epsOctets (rate x)).1≤((epsQosBuild qci rate).length.val-1) / 4 := by
  have hlen (x : EpsRate) := epsOctets_length (rate x)
  have hdlMbr:=hlen .dlMbr
  have hulMbr:=hlen .ulMbr
  have hdlGbr:=hlen .dlGbr
  have hulGbr:=hlen .ulGbr
  simp only [epsQosBuild,List.foldl_cons,List.foldl_nil]
  rw [octet_val (by omega)]
  cases x
  all_goals omega

theorem kbps_epsQosBuild (qci : Byte) (rate : EpsRate → BitVec 64) (x : EpsRate) :
    (epsQosBuild qci rate).kbps x =
      if (rate x).toNat<1000 then .error .assertion
      else .ok (floorOf qosPieces ((rate x).toNat / 1000)) := by
  have hlen:=epsQos_length qci rate x
  have hkbps : (rate x / 1000).toNat=(rate x).toNat / 1000 := toNat_udiv
  have hnone : rate x / 1000=0 ↔ (rate x).toNat<1000 := by
    rw [← toNat_inj,hkbps]
    show _=0 ↔ _
    omega
  have hoctets : (epsQosBuild qci rate).rate x=(epsOctets (rate x)).2 := rfl
  rw [EpsQos.kbps,hoctets]
  unfold epsOctets at hlen ⊢
  by_cases hzero : rate x / 1000=0
  · rw [if_neg (not_not.mpr hzero),if_pos (hnone.mp hzero)]
    have hsent (n : Nat) : RateOctets.zero.sent n=RateOctets.zero := by
      simp [RateOctets.sent,RateOctets.zero]
    rw [hsent]
    rfl
  · rw [if_pos hzero] at hlen ⊢
    rw [if_neg (fun h => hzero (hnone.mpr h))]
    unfold nasQosFromKbps at hlen ⊢
    rw [sent_fromKbps hlen,← hkbps]
    exact ogsGtp2QosToKbps_nasQosFromKbps _

end Messages

def dlDenoted (dl ul : BitVec 64) : Option Nat :=
  (apnAmbrBuild (dl.setWidth 32) (ul.setWidth 32)).dlKbps
def ulDenoted (ul dl : BitVec 64) : Option Nat :=
  (apnAmbrBuild (dl.setWidth 32) (ul.setWidth 32)).ulKbps

/-- What is written of a lower rate denotes no higher one, whatever the other direction has. -/
def MonotoneAt (denoted : BitVec 64 → BitVec 64 → Option Nat) (b : BitVec 64) : Prop :=
  ∀ a other other' r r',a.toNat≤b.toNat → denoted a other=some r →
    denoted b other'=some r' → r ≤ r'

/-- Nothing is cut off, or what is left is in the last step that 32 bits have. -/
def KeepsOrder (b : BitVec 64) : Prop :=
  b.toNat<2^32 ∨ 4096000000≤b.toNat % 2^32

section Order

variable {denoted : BitVec 64 → BitVec 64 → Option Nat}

def DenotesLow (denoted : BitVec 64 → BitVec 64 → Option Nat) : Prop :=
  ∀ b other,denoted b other=some (floorOf ambrPieces (b.toNat % 2^32 / 1000))

theorem dlDenoted_low : DenotesLow dlDenoted := by
  intro b other
  rw [dlDenoted,dlKbps_apnAmbrBuild,toNat_setWidth]

theorem ulDenoted_low : DenotesLow ulDenoted := by
  intro b other
  rw [ulDenoted,ulKbps_apnAmbrBuild,toNat_setWidth]

theorem denoted_le (h : DenotesLow denoted) (b other : BitVec 64) :
    ∃ r,denoted b other=some r ∧ r*1000≤b.toNat := by
  refine ⟨_,h b other,?_⟩
  have hle:=floorOf_le ambrPieces (b.toNat % 2^32 / 1000)
  have hmod:=Nat.mod_le b.toNat (2^32)
  omega

theorem floor_last {m : Nat} (h : m<2^32) :
    floorOf ambrPieces (m / 1000)≤4096000 ∧
      (4096000≤floorOf ambrPieces (m / 1000) ↔ 4096000000 ≤ m) := by
  have hle:=floorOf_le ambrPieces (m / 1000)
  by_cases hthird : 512000 ≤ m / 1000
  · have hfloor : floorOf ambrPieces (m / 1000) =
        512000+min ((m / 1000-512000) / 256000) 253*256000 := if_pos hthird
    rw [hfloor]
    omega
  · omega

theorem monotoneAt_iff (h : DenotesLow denoted) (b : BitVec 64) :
    MonotoneAt denoted b ↔ KeepsOrder b := by
  have hb:=floor_last (Nat.mod_lt b.toNat (by decide : 0<2^32))
  unfold KeepsOrder
  constructor
  · intro hmono
    by_contra hno
    have hlarge : 2^32≤b.toNat := by omega
    obtain ⟨top,htop⟩ : ∃ top : BitVec 64, top.toNat=2^32-1 := ⟨0xffffffff,rfl⟩
    have hle:=hmono top b b _ _ (by omega) (h top b) (h b b)
    have hmax:=(floor_last (Nat.mod_lt top.toNat (by decide : 0<2^32))).2.mpr (by omega)
    have hbelow:=hb.2.mp (by omega)
    omega
  · intro hkeeps a other other' r r' hle hr hr'
    rw [h] at hr hr'
    cases hr
    cases hr'
    have ha:=floor_last (Nat.mod_lt a.toNat (by decide : 0<2^32))
    by_cases hsmall : b.toNat<2^32
    · rw [Nat.mod_eq_of_lt hsmall,Nat.mod_eq_of_lt (by omega : a.toNat<2^32)]
      exact floorOf_mono (Nat.div_le_div_right hle)
    · have hlast:=hb.2.mpr (hkeeps.resolve_left hsmall)
      omega

end Order

/-- Which rates are encoded from below, which numbers of a unit are converted exactly, and what
the octets of EPS QoS and APN-AMBR denote. -/
theorem bit_rates (b other : BitVec 64) (br : NasBitrate) (qci qci' : Byte)
    (rate rate' : EpsRate → BitVec 64) (x : EpsRate) :
    (FloorOf b ↔ b≠0 ∧ (b.toNat<2147520000 ∨ 0xffffffff94ba8000≤b.toNat)) ∧
      (br.IsExact ↔ (1≤br.unit ∧ br.unit≤25) ∧ br.value.toNat*br.unitRate<2^31) ∧
      ((∃ r,(epsQosBuild qci rate).kbps x = .ok r) ↔ 1000≤(rate x).toNat) ∧
      (∀ r,(epsQosBuild qci rate).kbps x = .ok r → r*1000≤(rate x).toNat ∧
        ∀ r',(epsQosBuild qci' rate').kbps x = .ok r' → (rate x).toNat≤(rate' x).toNat →
          r ≤ r') ∧
      (∃ r,dlDenoted b other=some r ∧ r*1000≤b.toNat) ∧
      (∃ r,ulDenoted b other=some r ∧ r*1000≤b.toNat) ∧
      (MonotoneAt dlDenoted b ↔ KeepsOrder b) ∧ (MonotoneAt ulDenoted b ↔ KeepsOrder b) := by
  have hdefined : (∃ r,(epsQosBuild qci rate).kbps x = .ok r) ↔ 1000≤(rate x).toNat := by
    rw [kbps_epsQosBuild]
    split
    · next hlow => exact iff_of_false (fun h => nomatch h) (by omega)
    · next hset => exact iff_of_true ⟨_,rfl⟩ (by omega)
  have hfloor (qci : Byte) (rate : EpsRate → BitVec 64) (r : Nat)
      (h : (epsQosBuild qci rate).kbps x = .ok r) :
      r=floorOf qosPieces ((rate x).toNat / 1000) := by
    rw [kbps_epsQosBuild] at h
    split at h
    · cases h
    · exact (Except.ok.inj h).symm
  refine ⟨floorOf_iff b,isExact_iff br,hdefined,?_,denoted_le dlDenoted_low b other,
    denoted_le ulDenoted_low b other,monotoneAt_iff dlDenoted_low b,
    monotoneAt_iff ulDenoted_low b⟩
  intro r hr
  have hval:=hfloor qci rate r hr
  have hle:=floorOf_le qosPieces ((rate x).toNat / 1000)
  refine ⟨by omega,?_⟩
  intro r' hr' hrate
  rw [hval,hfloor qci' rate' r' hr']
  exact floorOf_mono (Nat.div_le_div_right hrate)

def fourGigabit : NasBitrate := ⟨4,62500⟩

/-- 4 Gbit/s come back as nearly 2 ^ 64, a unit that is not used has no rate, and of 2 ^ 32 bit/s
nothing is left. -/
theorem four_gigabit_comes_back_negative :
    ¬ FloorOf 4000000000 ∧ fourGigabit.toUint64=some 0xffffffffee6b2800 ∧
      NasBitrate.toUint64 ⟨0,1⟩=none ∧
      dlDenoted 0xffffffff 0=some 4096000 ∧ dlDenoted 0x100000000 0=some 0 := by
  refine ⟨?_,rfl,rfl,?_,?_⟩
  · intro h
    exact absurd ((floorOf_iff _).mp h).2 (by decide)
  · decide
  · decide

end OgsDp.Nas
