import OgsDp.Amf.MobileIdentity
import OgsDp.Sbi.Suci

/-!
# An IMSI through the SUCI (lib/nas/5gs/conv.c, lib/sbi/conv.c)

A mobile identity with the null scheme is made into a SUCI by the AMF, and the SUCI into a SUPI by
the home network.
-/

namespace OgsDp.Sbi
open Lib OgsDp.Core Amf

theorem suciTokens_append {w : List Byte} (hw : minus∉w) (room : Nat) (rest : List Byte) :
    suciTokens (room+1) (some (w++minus::rest))=w::suciTokens room (some rest) := by
  have hpos : ∀ b∈w,decide (b≠minus)=true := fun b hb =>
    decide_eq_true fun he => hw (he ▸ hb)
  have htake : (w++minus::rest).takeWhile (· ≠ minus)=w := by
    rw [List.takeWhile_append_of_pos hpos]
    exact List.append_nil w
  have hdrop : (w++minus::rest).dropWhile (· ≠ minus)=minus::rest := by
    rw [List.dropWhile_append_of_pos hpos]
    rfl
  rw [suciTokens,strsep,htake,hdrop]

theorem suciTokens_word {w : List Byte} (hw : minus∉w) (room : Nat) :
    suciTokens (room+1) (some w)=[w] := by
  have hpos : ∀ b∈w,decide (b≠minus)=true := fun b hb =>
    decide_eq_true fun he => hw (he ▸ hb)
  have htake : w.takeWhile (· ≠ minus)=w := List.takeWhile_eq_self_iff.mpr hpos
  have hdrop : w.dropWhile (· ≠ minus)=[] := List.dropWhile_eq_nil_iff.mpr hpos
  rw [suciTokens,strsep,htake,hdrop]
  cases room <;> rfl

theorem suciTokens_intercalate {words : List (List Byte)} (hne : words≠[])
    (hwords : ∀ w∈words,minus∉w) {room : Nat} (hroom : words.length ≤ room) :
    suciTokens room (some ([minus].intercalate words))=words := by
  induction words generalizing room with
  | nil => exact absurd rfl hne
  | cons w words ih =>
    obtain ⟨hw,hwords⟩ := List.forall_mem_cons.mp hwords
    obtain ⟨room,rfl⟩ := Nat.exists_eq_add_of_le' (Nat.le_trans (Nat.succ_pos _) hroom)
    cases words with
    | nil =>
      rw [List.intercalate_singleton]
      exact suciTokens_word hw room
    | cons w' words =>
      have hjoin : [minus].intercalate (w::w'::words) =
          w++minus::[minus].intercalate (w'::words) := by
        rw [List.intercalate_cons_cons]
        exact List.append_assoc ..
      rw [hjoin,suciTokens_append hw,ih (List.cons_ne_nil _ _) hwords
        (Nat.le_of_succ_le_succ hroom)]

theorem mem_intercalate {b : Byte} {words : List (List Byte)}
    (h : b∈[minus].intercalate words) : b=minus ∨ ∃ w∈words,b∈w := by
  induction words with
  | nil => cases h
  | cons w words ih =>
    cases words with
    | nil =>
      rw [List.intercalate_singleton] at h
      exact .inr ⟨w,List.mem_cons_self,h⟩
    | cons w' words =>
      rw [List.intercalate_cons_cons] at h
      rcases List.mem_append.mp h with h | h
      · rcases List.mem_append.mp h with h | h
        · exact .inr ⟨w,List.mem_cons_self,h⟩
        · exact .inl (List.mem_singleton.mp h)
      · rcases ih h with h | ⟨v,hv,hb⟩
        · exact .inl h
        · exact .inr ⟨v,List.mem_cons_of_mem w hv,hb⟩

def digitsText (l : List (Fin 10)) : List Byte := l.map fun d => digitOf d.val

theorem isDigit_digitOf : ∀ d : Fin 10, isDigit (digitOf d.val)=true := by
  decide

theorem isDigit_digitsText {l : List (Fin 10)} {b : Byte} (h : b∈digitsText l) :
    isDigit b=true := by
  obtain ⟨d,-,rfl⟩ := List.mem_map.mp h
  exact isDigit_digitOf d

theorem digit_decimal : ∀ {d : Nat},d<10 → decimal d=[digitOf d] := by
  decide

theorem decimal_snoc {n d : Nat} (hn : 0<n) (hd : d<10) :
    decimal (n*10+d)=decimal n++[digitOf d] := by
  rw [← digit_decimal hd]
  unfold decimal
  rw [Nat.mul_comm,← Nat.toDigits_append_toDigits (by decide) hn hd,List.map_append]

theorem zeroPadded_snoc {w d : Nat} (hw : 0<w) (n : Nat) (hd : d<10) :
    zeroPadded (w+1) (n*10+d)=zeroPadded w n++[digitOf d] := by
  unfold zeroPadded
  by_cases hn : 0<n
  · rw [decimal_snoc hn hd,List.length_append,List.length_singleton,Nat.add_sub_add_right,
      List.append_assoc]
  · obtain rfl : n=0 := by omega
    have hzero : decimal 0=[48] := by decide
    rw [Nat.zero_mul,Nat.zero_add,digit_decimal hd,hzero]
    show List.replicate w 48++[digitOf d]=List.replicate (w-1) 48++[48]++[digitOf d]
    rw [← List.replicate_succ',Nat.sub_add_cancel hw]

theorem zeroPadded_two (a b : Fin 10) :
    zeroPadded 2 (a.val*10+b.val)=digitsText [a,b] := by
  rw [zeroPadded_snoc (by decide) a.val b.isLt]
  unfold zeroPadded
  rw [digit_decimal a.isLt]
  rfl

theorem zeroPadded_three (a b c : Fin 10) :
    zeroPadded 3 (a.val*100+b.val*10+c.val)=digitsText [a,b,c] := by
  have hsplit : a.val*100+b.val*10+c.val=(a.val*10+b.val)*10+c.val := by omega
  rw [hsplit,zeroPadded_snoc (by decide) _ c.isLt,zeroPadded_two]
  rfl

def octetOf (high low : Nat) : Byte := Fin.ofNat 256 (high*16+low)

def digitAt (l : List (Fin 10)) (i : Nat) : Nat := (l[i]?.map Fin.val).getD 15

def msinOctets : List (Fin 10) → List Byte
  | [] => []
  | [d] => [octetOf 15 d.val]
  | d::e::l => octetOf e.val d.val::msinOctets l

structure NullSuci where
  oddEven : Fin 2
  mcc1 : Fin 10
  mcc2 : Fin 10
  mcc3 : Fin 10
  mnc : List (Fin 10)
  mnc_length : mnc.length=2 ∨ mnc.length=3
  routing : List (Fin 10)
  routing_length : 1 ≤ routing.length ∧ routing.length≤4
  spare : Fin 16
  pkiValue : Byte
  msin : List (Fin 10)
  msin_ne_nil : msin≠[]

namespace NullSuci

variable (n : NullSuci)

def plmn : Vector Byte 3 :=
  #v[octetOf n.mcc2.val n.mcc1.val,octetOf (digitAt n.mnc 2) n.mcc3.val,
    octetOf (digitAt n.mnc 1) (digitAt n.mnc 0)]

def octets : List Byte :=
  octetOf 0 (n.oddEven.val*8+identitySuci)::n.plmn.toList ++
    [octetOf (digitAt n.routing 1) (digitAt n.routing 0),
      octetOf (digitAt n.routing 3) (digitAt n.routing 2),
      octetOf n.spare.val 0,n.pkiValue]++msinOctets n.msin

end NullSuci

section Octets

variable {high low : Nat}

theorem octetOf_val (hhigh : high<16) (hlow : low<16) :
    (octetOf high low).val / 16=high ∧ (octetOf high low).val % 16=low := by
  have hval : (octetOf high low).val=high*16+low := Nat.mod_eq_of_lt (by omega)
  rw [hval]
  omega

theorem lowOf_octetOf (hhigh : high<16) (hlow : low<16) :
    (lowOf (octetOf high low)).toNat=low := by
  have hval:=(octetOf_val hhigh hlow).2
  show (octetOf high low).val % 2^4=low
  omega

theorem highOf_octetOf (hhigh : high<16) (hlow : low<16) :
    (highOf (octetOf high low)).toNat=high := by
  have hval:=(octetOf_val hhigh hlow).1
  show (octetOf high low).val / 16 % 2^4=high
  omega

theorem digitAt_lt (l : List (Fin 10)) (i : Nat) : digitAt l i<16 := by
  unfold digitAt
  cases l[i]? with
  | none => decide
  | some d =>
    have hd:=d.isLt
    show d.val<16
    omega

theorem bcdText_msinOctets (l : List (Fin 10)) : bcdText (msinOctets l)=digitsText l := by
  induction l using msinOctets.induct with
  | case1 => rfl
  | case2 d =>
    obtain ⟨hhigh,hlow⟩ := octetOf_val (by decide : 15<16) (by omega : d.val<16)
    rw [msinOctets,bcdText,if_pos hhigh,hlow]
    rfl
  | case3 d e l ih =>
    obtain ⟨hhigh,hlow⟩ := octetOf_val (by omega : e.val<16) (by omega : d.val<16)
    have hdigits : bcdDigits (octetOf e.val d.val)=digitsText [d,e] := by
      unfold bcdDigits
      rw [hhigh,hlow]
      rfl
    rw [msinOctets]
    cases hrest : msinOctets l with
    | nil =>
      have hfiller : ¬ (octetOf e.val d.val).val / 16=15 := by omega
      rw [hrest] at ih
      have hl : digitsText l=[] := ih.symm
      rw [bcdText,if_neg hfiller,hdigits]
      show digitsText [d,e]=digitsText [d,e]++digitsText l
      rw [hl,List.append_nil]
    | cons c rest =>
      rw [bcdText,← hrest,ih,hdigits]
      · rfl
      · exact List.cons_ne_nil c rest

theorem routingIndicator_octets {l : List (Fin 10)} (h : 1≤l.length ∧ l.length≤4) :
    routingIndicator (octetOf (digitAt l 1) (digitAt l 0)) (octetOf (digitAt l 3) (digitAt l 2)) =
      digitsText l := by
  obtain ⟨hhigh,hlow⟩ := octetOf_val (digitAt_lt l 1) (digitAt_lt l 0)
  obtain ⟨hhigh',hlow'⟩ := octetOf_val (digitAt_lt l 3) (digitAt_lt l 2)
  have hdigits : [digitAt l 0,digitAt l 1,digitAt l 2,digitAt l 3] =
      l.map Fin.val++List.replicate (4-l.length) 15 := by
    match l, h with
    | [a], _ => rfl
    | [a,b], _ => rfl
    | [a,b,c], _ => rfl
    | [a,b,c,d], _ => rfl
    | _::_::_::_::_::_, h => exact absurd h.2 (by simp)
  have htake : (l.map Fin.val++List.replicate (4-l.length) 15).takeWhile (· ≠ 15) =
      l.map Fin.val := by
    rw [List.takeWhile_append_of_pos]
    · cases 4-l.length <;> simp [List.replicate_succ]
    · intro v hv
      obtain ⟨d,-,rfl⟩ := List.mem_map.mp hv
      have hd:=d.isLt
      exact decide_eq_true (by omega)
  have hne : l.map Fin.val≠[] := List.ne_nil_of_length_pos (by rw [List.length_map]; exact h.1)
  unfold routingIndicator
  simp only [hhigh,hlow,hhigh',hlow',hdigits,htake,if_neg hne,List.map_map]
  rfl

end Octets

theorem nasToPlmnId_mcc (nas : NasPlmnId) :
    (nasToPlmnId nas).mcc=nas.mcc1.toNat*100+nas.mcc2.toNat*10+nas.mcc3.toNat := by
  unfold nasToPlmnId
  simp only
  split <;> rfl

theorem nasToPlmnId_two {nas : NasPlmnId} (h : nas.mnc3=0xf) :
    (nasToPlmnId nas).mncLen=2 ∧
      (nasToPlmnId nas).mnc=nas.mnc1.toNat*10+nas.mnc2.toNat := by
  unfold nasToPlmnId PlmnId.mncLen PlmnId.mnc
  simp only [h,ne_eq,not_true_eq_false,if_false,if_true]
  trivial

theorem nasToPlmnId_three {nas : NasPlmnId} (h : nas.mnc3≠0xf) (h1 : nas.mnc1≠0xf) :
    (nasToPlmnId nas).mncLen=3 ∧
      (nasToPlmnId nas).mnc =
        nas.mnc1.toNat*100+nas.mnc2.toNat*10+nas.mnc3.toNat := by
  unfold nasToPlmnId PlmnId.mncLen PlmnId.mnc
  simp only [if_pos h,if_neg h1]
  trivial

namespace NullSuci

variable (n : NullSuci)

theorem mcc_text :
    zeroPadded 3 (nasToPlmnId (nasPlmnIdOf n.plmn)).mcc=digitsText [n.mcc1,n.mcc2,n.mcc3] := by
  have hmcc1 : (nasPlmnIdOf n.plmn).mcc1.toNat=n.mcc1.val :=
    lowOf_octetOf (by omega) (by omega)
  have hmcc2 : (nasPlmnIdOf n.plmn).mcc2.toNat=n.mcc2.val :=
    highOf_octetOf (by omega) (by omega)
  have hmcc3 : (nasPlmnIdOf n.plmn).mcc3.toNat=n.mcc3.val :=
    lowOf_octetOf (digitAt_lt n.mnc 2) (by omega)
  rw [nasToPlmnId_mcc,hmcc1,hmcc2,hmcc3]
  exact zeroPadded_three n.mcc1 n.mcc2 n.mcc3

theorem mnc_text :
    zeroPadded (if (nasToPlmnId (nasPlmnIdOf n.plmn)).mncLen=2 then 2 else 3)
      (nasToPlmnId (nasPlmnIdOf n.plmn)).mnc=digitsText n.mnc := by
  have hmnc1 : (nasPlmnIdOf n.plmn).mnc1.toNat=digitAt n.mnc 0 :=
    lowOf_octetOf (digitAt_lt n.mnc 1) (digitAt_lt n.mnc 0)
  have hmnc2 : (nasPlmnIdOf n.plmn).mnc2.toNat=digitAt n.mnc 1 :=
    highOf_octetOf (digitAt_lt n.mnc 1) (digitAt_lt n.mnc 0)
  have hmnc3 : (nasPlmnIdOf n.plmn).mnc3.toNat=digitAt n.mnc 2 :=
    highOf_octetOf (digitAt_lt n.mnc 2) (by omega)
  match hmnc : n.mnc, n.mnc_length with
  | [a,b], _ =>
    rw [hmnc] at hmnc1 hmnc2 hmnc3
    obtain ⟨hlen,hval⟩ := nasToPlmnId_two (BitVec.eq_of_toNat_eq hmnc3)
    rw [hlen,hval,hmnc1,hmnc2]
    exact zeroPadded_two a b
  | [a,b,c], _ =>
    rw [hmnc] at hmnc1 hmnc2 hmnc3
    have hdigit {v : BitVec 4} {d : Fin 10} (h : v.toNat=d.val) : v≠0xf := by
      intro hv
      have hfifteen : (15 : Nat)=d.val := (congrArg BitVec.toNat hv).symm.trans h
      omega
    have hmnc1' : (nasPlmnIdOf n.plmn).mnc1.toNat=a.val := hmnc1
    have hmnc3' : (nasPlmnIdOf n.plmn).mnc3.toNat=c.val := hmnc3
    obtain ⟨hlen,hval⟩ := nasToPlmnId_three (hdigit hmnc3') (hdigit hmnc1')
    rw [hlen,hval,hmnc1,hmnc2,hmnc3]
    exact zeroPadded_three a b c
  | [], h => exact absurd h (by simp)
  | [_], h => exact absurd h (by simp)
  | _::_::_::_::_, h => exact absurd h (by simp)

def words : List (List Byte) :=
  [ascii "suci",ascii "0",digitsText [n.mcc1,n.mcc2,n.mcc3],digitsText n.mnc,
    digitsText n.routing,ascii "0",decimal n.pkiValue.val,digitsText n.msin]

theorem plain_of_isDigit : ∀ b : Byte, isDigit b=true → b≠minus ∧ b≠0 := by
  set_option maxRecDepth 20000 in decide

theorem words_plain : ∀ w∈n.words,∀ b∈w,b≠minus ∧ b≠0 := by
  have hdigits (l : List (Fin 10)) : ∀ b∈digitsText l,b≠minus ∧ b≠0 := fun b hb =>
    plain_of_isDigit b (isDigit_digitsText hb)
  have hsuci : ∀ b∈ascii "suci",b≠minus ∧ b≠0 := by
    set_option maxRecDepth 20000 in decide
  have hzero : ∀ b∈ascii "0",b≠minus ∧ b≠0 := by
    set_option maxRecDepth 20000 in decide
  have hpki : ∀ b∈decimal n.pkiValue.val,b≠minus ∧ b≠0 := fun b hb =>
    plain_of_isDigit b (isDigit_decimal hb)
  unfold words
  simp only [List.forall_mem_cons]
  exact ⟨hsuci,hzero,hdigits _,hdigits _,hdigits _,hzero,hpki,hdigits _,nofun⟩

theorem zero_not_mem_text : (0 : Byte)∉[minus].intercalate n.words := by
  intro h
  rcases mem_intercalate h with h | ⟨w,hw,hb⟩
  · exact absurd h (by decide)
  · exact (n.words_plain w hw 0 hb).2 rfl

theorem suciText_words :
    suciText (nasToPlmnId (nasPlmnIdOf n.plmn)) (digitsText n.routing) 0 n.pkiValue.val
      (digitsText n.msin)=[minus].intercalate n.words := by
  have hname : ascii "suci-" = ascii "suci" ++ [minus] := rfl
  have hnull : decimal 0=ascii "0" := by decide
  unfold suciText words
  rw [n.mcc_text,n.mnc_text,hname,hnull]
  simp only [List.intercalate_cons_cons,List.intercalate_singleton,List.append_assoc]

theorem msinOctets_ne_nil : msinOctets n.msin≠[] := by
  have hne:=n.msin_ne_nil
  match n.msin, hne with
  | [_], _ => exact List.cons_ne_nil _ _
  | _::_::_, _ => exact List.cons_ne_nil _ _

theorem suciFromMobileIdentity_octets :
    ∃ suci,suciFromMobileIdentity n.octets = .ok (some suci) ∧
      suci.1.bytes=[minus].intercalate n.words := by
  have hformat : supiFormat (octetOf 0 (n.oddEven.val*8+identitySuci))=0 :=
    (octetOf_val (by decide) (by show n.oddEven.val*8+1<16; omega)).1
  have hscheme : (octetOf n.spare.val 0).val % 16=0 := (octetOf_val n.spare.isLt (by decide)).2
  have hlength : ¬ n.octets.length<suciMinSize := by
    show ¬ (msinOctets n.msin).length+8<8
    omega
  have hroom : (msinOctets n.msin).length*2+1 ≤
      (List.replicate ((msinOctets n.msin).length*2+1) (0 : Byte)).length :=
    Nat.le_of_eq List.length_replicate.symm
  obtain ⟨rest,hbcd⟩ := bufferToBcd_ok n.msinOctets_ne_nil hroom
  have hdrop : n.octets.drop suciMinSize=msinOctets n.msin := rfl
  have h0 : octetAt n.octets 0 = .ok (octetOf 0 (n.oddEven.val*8+identitySuci)) := rfl
  have h1 : octetAt n.octets 1 = .ok (n.plmn.get 0) := rfl
  have h2 : octetAt n.octets 2 = .ok (n.plmn.get 1) := rfl
  have h3 : octetAt n.octets 3 = .ok (n.plmn.get 2) := rfl
  have h4 : octetAt n.octets 4 = .ok (octetOf (digitAt n.routing 1) (digitAt n.routing 0)) := rfl
  have h5 : octetAt n.octets 5 = .ok (octetOf (digitAt n.routing 3) (digitAt n.routing 2)) := rfl
  have h6 : octetAt n.octets 6 = .ok (octetOf n.spare.val 0) := rfl
  have h7 : octetAt n.octets 7 = .ok n.pkiValue := rfl
  have hzero : (0 : Byte)∉digitsText n.msin := fun h =>
    (plain_of_isDigit 0 (isDigit_digitsText h)).2 rfl
  have hbefore : beforeZero (bcdText (msinOctets n.msin)++0::rest)=digitsText n.msin := by
    rw [bcdText_msinOctets,beforeZero_append hzero]
    exact List.append_nil _
  unfold suciFromMobileIdentity
  rw [hdrop]
  simp only [h0,h1,h2,h3,h4,h5,h6,h7,ok_bind]
  rw [if_neg (not_not.mpr hformat),hscheme,if_neg (by decide),if_neg hlength,if_neg (by decide),
    hbcd]
  refine ⟨_,rfl,?_⟩
  show beforeZero (suciText _ _ _ _ _)=_
  rw [hbefore,routingIndicator_octets n.routing_length]
  show beforeZero (suciText (nasToPlmnId (nasPlmnIdOf n.plmn)) _ 0 _ _)=_
  have hend:=beforeZero_append n.zero_not_mem_text []
  rw [n.suciText_words]
  rwa [List.append_nil,show beforeZero []=[] from rfl,List.append_nil] at hend

end NullSuci

/-- The SUPI of the SUCI of a mobile identity with the null scheme has the digits of the IMSI. -/
theorem null_suci_round_trip (x : SuciCrypto) (hnet : Byte → Hnet) (n : NullSuci) :
    ∃ suci,suciFromMobileIdentity n.octets = .ok (some suci) ∧
      supiFromSuci x hnet suci.1 = .ok ([],some (ascii "imsi-" ++
        digitsText ([n.mcc1,n.mcc2,n.mcc3]++n.mnc++n.msin))) := by
  obtain ⟨suci,hsuci,hbytes⟩ := n.suciFromMobileIdentity_octets
  refine ⟨suci,hsuci,?_⟩
  have htokens : suciTokens maxSuciToken (some suci.1.bytes)=n.words := by
    rw [hbytes]
    refine suciTokens_intercalate (List.cons_ne_nil _ _) (fun w hw hminus => ?_)
      (show 8≤16 by decide)
    exact (n.words_plain w hw minus hminus).1 rfl
  unfold supiFromSuci
  rw [htokens]
  have htokens' : supiOfTokens x hnet n.words [.tokens] =
      supiOfImsi x hnet (digitsText [n.mcc1,n.mcc2,n.mcc3]) (digitsText n.mnc) (ascii "0")
        (decimal n.pkiValue.val) (digitsText n.msin) [.tokens] := rfl
  have himsi : supiOfImsi x hnet (digitsText [n.mcc1,n.mcc2,n.mcc3]) (digitsText n.mnc)
      (ascii "0") (decimal n.pkiValue.val) (digitsText n.msin) [.tokens] =
        .ok ([.tokens],some (imsiText (digitsText [n.mcc1,n.mcc2,n.mcc3]) (digitsText n.mnc)
          (digitsText n.msin))) := if_pos (by decide)
  have hfree : ogsFree .tokens [.tokens] = .ok [] := rfl
  simp only [htokens',himsi,ok_bind,hfree]
  unfold imsiText digitsText
  rw [List.map_append,List.map_append]
  simp only [List.append_assoc]
  rfl

end OgsDp.Sbi
