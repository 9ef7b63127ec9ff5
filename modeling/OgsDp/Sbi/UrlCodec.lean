import OgsDp.Core.CString
import OgsDp.Core.Octets
import OgsDp.Lib.Turns
import OgsDp.Lib.Writes

/-!
# The URL codec (lib/sbi/conv.c)

The encoder escapes the characters of one list, the decoder interprets those of another.
-/

namespace OgsDp.Sbi
open Lib OgsDp.Core List

def percent : Byte := 37
def space : Byte := 32
def slash : Byte := 47
def question : Byte := 63

def escapedChars : List Byte := ascii "\"(),/:;<=>?@[\\]\x7b\x7d"

def encodeChar (c : Byte) : List Byte :=
  if escapedChars.contains c then
    [percent,ogsToHex (Fin.ofNat 256 (c.val >>> 4)),ogsToHex (Fin.ofNat 256 (c.val &&& 15))]
  else [c]

-- `pstr` is an index; `limit` is the size of what `ogs_malloc` gave.
def urlEncodeTurn (str : List Byte) (limit : Nat) (s : Nat × List Byte) :
    Except Fault ((Nat × List Byte) ⊕ List Byte) := do
  let c ← octetAt str s.1
  if c=0 then
    let buf ← putWithin .write limit [0] s.2
    return .inr buf
  else
    let buf ← putWithin .write limit (encodeChar c) s.2
    return .inl (s.1+1,buf)

def urlEncode (str : CStr) : Turns (List Byte) :=
  Turns.loop (urlEncodeTurn str.mem (str.bytes.length*3+1)) (0,[])

def urlDecodeTurn (str : List Byte) (limit : Nat) (s : Nat × List Byte) :
    Except Fault ((Nat × List Byte) ⊕ List Byte) := do
  let c ← octetAt str s.1
  if c=0 then
    let buf ← putWithin .write limit [0] s.2
    return .inr buf
  else if c=percent then
    let high ← octetAt str (s.1+1)
    -- An escape without its second digit is left out, what is there of it is not.
    if high=0 then return .inl (s.1+1,s.2)
    let low ← octetAt str (s.1+2)
    if low=0 then return .inl (s.1+1,s.2)
    let buf ← putWithin .write limit [hexPair high low] s.2
    return .inl (s.1+3,buf)
  else if c=plus then
    let buf ← putWithin .write limit [space] s.2
    return .inl (s.1+1,buf)
  else
    let buf ← putWithin .write limit [c] s.2
    return .inl (s.1+1,buf)

def urlDecode (str : CStr) : Turns (List Byte) :=
  Turns.loop (urlDecodeTurn str.mem (str.bytes.length+1)) (0,[])

def encoded (s : List Byte) : List Byte := s.flatMap encodeChar

def decodeChar (c : Byte) : Byte := if c=plus then space else c

def decoded : List Byte → List Byte
  | [] => []
  | [c] => if c=percent then [] else [decodeChar c]
  | [c,d] => if c=percent then decoded [d] else decodeChar c::decoded [d]
  | c::high::low::s =>
    if c=percent then hexPair high low::decoded s
    else decodeChar c::decoded (high::low::s)

variable {s t : List Byte} {c : Byte}

theorem decoded_cons (h : c≠percent) : decoded (c::s)=decodeChar c::decoded s := by
  cases s with
  | nil => exact if_neg h
  | cons d s =>
    cases s with
    | nil => exact if_neg h
    | cons e s => exact if_neg h

theorem decoded_escape (high low : Byte) :
    decoded (percent::high::low::s)=hexPair high low::decoded s := by
  rw [decoded,if_pos rfl]

theorem length_decoded (s : List Byte) : (decoded s).length ≤ s.length := by
  induction s using decoded.induct with
  | case1 => exact Nat.le_refl 0
  | case2 => rw [decoded,if_pos rfl]; exact Nat.zero_le _
  | case3 c h => rw [decoded,if_neg h]; exact Nat.le_refl 1
  | case4 d ih => rw [decoded,if_pos rfl]; exact Nat.le_succ_of_le ih
  | case5 c d h ih => rw [decoded,if_neg h]; exact Nat.succ_le_succ ih
  | case6 high low s ih =>
    simp only [decoded_escape,length_cons]
    omega
  | case7 c high low s h ih =>
    rw [decoded_cons h]
    exact Nat.succ_le_succ ih

section Turn

variable {str buf : List Byte} {i limit : Nat}

theorem drop_succ_of_drop (h : str.drop i=c::s) : str.drop (i+1)=s := by
  rw [← drop_drop,h]
  rfl

theorem put_byte (h : buf.length+1≤limit) :
    putWithin Fault.write limit [c] buf = .ok (buf++[c]) :=
  if_pos h

theorem urlDecodeTurn_end (hstr : str.drop i=[0]) (hfits : buf.length+1≤limit) :
    urlDecodeTurn str limit (i,buf) = .ok (.inr (buf++[0])) := by
  unfold urlDecodeTurn
  rw [octetAt_drop hstr,ok_bind,if_pos rfl,put_byte hfits]
  rfl

theorem urlDecodeTurn_char (hstr : str.drop i=c::s) (h0 : c≠0) (hc : c≠percent)
    (hfits : buf.length+1≤limit) :
    urlDecodeTurn str limit (i,buf) = .ok (.inl (i+1,buf++[decodeChar c])) := by
  unfold urlDecodeTurn
  rw [octetAt_drop hstr,ok_bind,if_neg h0,if_neg hc]
  by_cases hp : c=plus
  · rw [if_pos hp,decodeChar,if_pos hp,put_byte hfits]
    rfl
  · rw [if_neg hp,decodeChar,if_neg hp,put_byte hfits]
    rfl

theorem urlDecodeTurn_escape {high low : Byte} (hstr : str.drop i=percent::high::low::s)
    (hhigh : high≠0) (hlow : low≠0) (hfits : buf.length+1≤limit) :
    urlDecodeTurn str limit (i,buf) = .ok (.inl (i+3,buf++[hexPair high low])) := by
  have hstr1:=drop_succ_of_drop hstr
  have hstr2 : str.drop (i+2)=low::s := drop_succ_of_drop hstr1
  unfold urlDecodeTurn
  rw [octetAt_drop hstr,ok_bind,if_neg (by decide),if_pos rfl,octetAt_drop hstr1,ok_bind,
    if_neg hhigh,octetAt_drop hstr2]
  show (if low=0 then _ else _)=_
  rw [if_neg hlow,put_byte hfits]
  rfl

theorem urlDecodeTurn_cut (hstr : str.drop i=percent::(s++[0])) (hs : s.length≤1) :
    urlDecodeTurn str limit (i,buf) = .ok (.inl (i+1,buf)) := by
  have hstr1:=drop_succ_of_drop hstr
  unfold urlDecodeTurn
  rw [octetAt_drop hstr,ok_bind,if_neg (by decide),if_pos rfl]
  cases s with
  | nil =>
    rw [octetAt_drop hstr1]
    rfl
  | cons d s =>
    have hnil : s=[] := length_eq_zero_iff.mp (by simpa using hs)
    subst hnil
    have hstr2 : str.drop (i+2)=[0] := drop_succ_of_drop hstr1
    rw [octetAt_drop hstr1,ok_bind]
    split
    · rfl
    · rw [octetAt_drop hstr2]
      rfl

theorem leads_char (h0 : (0 : Byte)∉c::s) (hc : c≠percent) (hstr : str.drop i=c::s++[0])
    (hfits : buf.length+(c::s).length+1≤limit)
    (hrest : Turns.Leads (urlDecodeTurn str limit) (i+1,buf++[decodeChar c])
      (buf++[decodeChar c]++decoded s++[0])) :
    Turns.Leads (urlDecodeTurn str limit) (i,buf) (buf++decoded (c::s)++[0]) := by
  have hc0 : (0 : Byte)≠c := fun he => h0 (he ▸ mem_cons_self ..)
  have hone : buf.length+1≤limit := by
    rw [length_cons] at hfits
    omega
  rw [decoded_cons hc]
  rw [append_assoc buf] at hrest
  exact .next (urlDecodeTurn_char hstr hc0.symm hc hone) hrest

theorem urlDecodeTurn_leads (h0 : (0 : Byte)∉s) (hstr : str.drop i=s++[0])
    (hfits : buf.length+s.length+1≤limit) :
    Turns.Leads (urlDecodeTurn str limit) (i,buf) (buf++decoded s++[0]) := by
  have hroom {out : List Byte} (b : Byte) {n : Nat} (h : out.length+(n+1)+1≤limit) :
      (out++[b]).length+n+1≤limit := by
    rw [length_append,length_singleton]
    omega
  have hrest {b : Byte} {l : List Byte} (h : (0 : Byte)∉b::l) : (0 : Byte)∉l :=
    fun hm => h (mem_cons_of_mem _ hm)
  induction s using decoded.induct generalizing i buf with
  | case1 =>
    rw [decoded,append_nil]
    exact .done (urlDecodeTurn_end hstr hfits)
  | case2 =>
    have hnext:=drop_succ_of_drop hstr
    rw [decoded,if_pos rfl,append_nil]
    refine .next (urlDecodeTurn_cut hstr (Nat.zero_le _)) (.done (urlDecodeTurn_end hnext ?_))
    exact Nat.le_of_succ_le hfits
  | case3 c h =>
    have hnext:=drop_succ_of_drop hstr
    refine leads_char h0 h hstr hfits ?_
    rw [decoded,append_nil]
    exact .done (urlDecodeTurn_end hnext (hroom (decodeChar c) hfits))
  | case4 d ih =>
    have hnext:=drop_succ_of_drop hstr
    rw [decoded,if_pos rfl]
    refine .next (urlDecodeTurn_cut hstr (Nat.le_refl 1)) ?_
    exact ih (hrest h0) hnext (Nat.le_of_succ_le hfits)
  | case5 c d h ih =>
    have hnext:=drop_succ_of_drop hstr
    refine leads_char h0 h hstr hfits ?_
    exact ih (hrest h0) hnext (hroom (decodeChar c) hfits)
  | case6 high low s ih =>
    have hnext : str.drop (i+3)=s++[0] :=
      drop_succ_of_drop (drop_succ_of_drop (drop_succ_of_drop hstr))
    have hhigh : high≠0 := fun he => h0 (by simp [he])
    have hlow : low≠0 := fun he => h0 (by simp [he])
    simp only [length_cons] at hfits
    have hmore : Turns.Leads (urlDecodeTurn str limit) (i+3,buf++[hexPair high low])
        (buf++[hexPair high low]++decoded s++[0]) :=
      ih (hrest (hrest (hrest h0))) hnext (hroom _ (by omega))
    rw [append_assoc buf] at hmore
    rw [decoded_escape]
    exact .next (urlDecodeTurn_escape hstr hhigh hlow (by omega)) hmore
  | case7 c high low s h ih =>
    have hnext:=drop_succ_of_drop hstr
    refine leads_char h0 h hstr hfits ?_
    exact ih (hrest h0) hnext (hroom (decodeChar c) hfits)

theorem length_encodeChar (c : Byte) : (encodeChar c).length≤3 := by
  unfold encodeChar
  split
  · exact Nat.le_refl 3
  · exact Nat.le_of_ble_eq_true rfl

theorem urlEncodeTurn_leads (h0 : (0 : Byte)∉s) (hstr : str.drop i=s++[0])
    (hfits : buf.length+s.length*3+1≤limit) :
    Turns.Leads (urlEncodeTurn str limit) (i,buf) (buf++encoded s++[0]) := by
  induction s generalizing i buf with
  | nil =>
    refine .done ?_
    unfold urlEncodeTurn
    rw [octetAt_drop hstr,ok_bind,if_pos rfl,put_byte (by simpa using hfits)]
    show Except.ok (Sum.inr (buf++[0]))=_
    rw [encoded,flatMap_nil,append_nil]
  | cons c s ih =>
    have hc : c≠0 := fun he => h0 (by simp [he])
    have hlen:=length_encodeChar c
    rw [length_cons] at hfits
    have hroom : buf.length+(encodeChar c).length≤limit := by omega
    have hturn : urlEncodeTurn str limit (i,buf) = .ok (.inl (i+1,buf++encodeChar c)) := by
      unfold urlEncodeTurn
      rw [octetAt_drop hstr,ok_bind,if_neg hc,putWithin,if_pos hroom]
      rfl
    have hmore : Turns.Leads (urlEncodeTurn str limit) (i+1,buf++encodeChar c)
        (buf++encodeChar c++encoded s++[0]) := by
      apply ih
      · exact fun hm => h0 (mem_cons_of_mem _ hm)
      · exact drop_succ_of_drop hstr
      · rw [length_append]
        omega
    rw [append_assoc buf] at hmore
    exact .next hturn hmore

end Turn

theorem urlEncode_returns (str : CStr) : (urlEncode str).Returns (encoded str.bytes++[0]) :=
  Turns.returns_loop.mpr (urlEncodeTurn_leads str.noNul rfl (by simp))

theorem urlDecode_returns (str : CStr) : (urlDecode str).Returns (decoded str.bytes++[0]) :=
  Turns.returns_loop.mpr (urlDecodeTurn_leads str.noNul rfl (by simp))

theorem encodeChar_cases (c : Byte) :
    encodeChar c=[c] ∧ c∉escapedChars ∨
      ∃ high low,encodeChar c=[percent,high,low] ∧ high≠percent ∧ low≠percent ∧
        hexPair high low=c := by
  by_cases hc : c∈escapedChars
  · right
    have hdigit : ∀ d : Byte, ogsToHex d≠percent := by
      set_option maxRecDepth 20000 in decide
    exact ⟨_,_,if_pos (contains_iff_mem.mpr hc),hdigit _,hdigit _,hexPair_toHex c⟩
  · exact .inl ⟨if_neg (mt contains_iff_mem.mp hc),hc⟩

theorem decoded_encodeChar (hpercent : c≠percent) (hplus : c≠plus) (t : List Byte) :
    decoded (encodeChar c++t)=c::decoded t := by
  rcases encodeChar_cases c with ⟨hchar,-⟩ | ⟨high,low,hchar,-,-,hpair⟩
  · have hsame : decodeChar c=c := if_neg hplus
    rw [hchar]
    show decoded (c::t)=_
    rw [decoded_cons hpercent,hsame]
  · rw [hchar]
    show decoded (percent::high::low::t)=_
    rw [decoded_escape,hpair]

theorem decoded_encoded_append (hpercent : percent∉s) (hplus : plus∉s) (t : List Byte) :
    decoded (encoded s++t)=s++decoded t := by
  induction s with
  | nil => rfl
  | cons c s ih =>
    have hc : c≠percent := fun he => hpercent (by simp [he])
    have hc' : c≠plus := fun he => hplus (by simp [he])
    have hrest:=ih (fun hm => hpercent (mem_cons_of_mem _ hm))
      fun hm => hplus (mem_cons_of_mem _ hm)
    rw [encoded,flatMap_cons,append_assoc,decoded_encodeChar hc hc']
    exact congrArg (c :: ·) hrest

theorem length_decoded_encoded (s : List Byte) :
    (decoded (encoded s)).length ≤ s.length ∧
      (decoded (percent::encoded s)).length ≤ s.length+1 ∧
      ∀ x,(decoded (percent::x::encoded s)).length ≤ s.length+2 := by
  induction s with
  | nil =>
    refine ⟨Nat.le_refl 0,Nat.zero_le 1,fun x => ?_⟩
    exact length_decoded [percent,x]
  | cons c s ih =>
    obtain ⟨hs,hsign,hpair⟩ := ih
    have hcons (c : Byte) : (decoded (c::encoded s)).length ≤ s.length+1 := by
      by_cases hc : c=percent
      · rw [hc]
        exact hsign
      · rw [decoded_cons hc]
        exact Nat.succ_le_succ hs
    have henc : encoded (c::s)=encodeChar c++encoded s := rfl
    rcases encodeChar_cases c with ⟨hchar,-⟩ | ⟨high,low,hchar,hhigh,hlow,-⟩
    · rw [henc,hchar]
      refine ⟨hcons c,hpair c,fun x => ?_⟩
      show (decoded (percent::x::c::encoded s)).length≤_
      rw [decoded_escape,length_cons,length_cons]
      omega
    · have hlast : (decoded (low::encoded s)).length ≤ s.length+1 := hcons low
      rw [henc,hchar]
      refine ⟨?_,?_,fun x => ?_⟩
      · show (decoded (percent::high::low::encoded s)).length≤_
        rw [decoded_escape]
        exact Nat.succ_le_succ hs
      · show (decoded (percent::percent::high::low::encoded s)).length≤_
        rw [decoded_escape,length_cons,length_cons]
        omega
      · show (decoded (percent::x::percent::high::low::encoded s)).length≤_
        rw [decoded_escape,decoded_cons hhigh,decoded_cons hlow]
        simp only [length_cons]
        omega

theorem percent_no_digit :
    ∀ b : Byte, hexPair percent b≠percent ∧ hexPair b percent≠percent := by
  set_option maxRecDepth 20000 in decide

theorem encoded_literal {l : List Byte} (h : encoded t=c::l) (hc : c≠percent) :
    ∃ u,t=c::u ∧ l=encoded u := by
  cases t with
  | nil => cases h
  | cons d u =>
    have henc : encoded (d::u)=encodeChar d++encoded u := rfl
    rw [henc] at h
    rcases encodeChar_cases d with ⟨hchar,-⟩ | ⟨high,low,hchar,-,-,-⟩
    · rw [hchar] at h
      obtain ⟨rfl,hl⟩ := cons.inj h
      exact ⟨u,rfl,hl.symm⟩
    · rw [hchar] at h
      exact absurd (cons.inj h).1.symm hc

theorem beforeZero_percent (t : List Byte) :
    beforeZero (decoded (percent::encoded t))≠percent::t := by
  intro h
  match henc : encoded t with
  | [] =>
    rw [henc] at h
    cases h
  | [d] =>
    have hle:=length_beforeZero (decoded (percent::[d]))
    have hdec : (decoded (percent::[d])).length≤1 := length_decoded [d]
    rw [henc] at h
    rw [h,length_cons] at hle
    have ht : t=[] := length_eq_zero_iff.mp (by omega)
    rw [ht] at henc
    cases henc
  | high::low::rest =>
    rw [henc,decoded_escape] at h
    have hpair : hexPair high low=percent := by
      unfold beforeZero at h
      rw [takeWhile_cons] at h
      split at h
      · exact (cons.inj h).1
      · cases h
    have hrest : beforeZero (decoded rest)=t := by
      unfold beforeZero at h
      rw [hpair] at h
      exact (cons.inj h).2
    -- Neither digit is a percent sign, so that both are characters of the string.
    obtain ⟨u,rfl,hu⟩ := encoded_literal henc fun he => (percent_no_digit low).1 (he ▸ hpair)
    obtain ⟨v,rfl,rfl⟩ := encoded_literal hu.symm fun he => (percent_no_digit high).2 (he ▸ hpair)
    have hshort:=(length_decoded_encoded v).1
    have hcut:=length_beforeZero (decoded (encoded v))
    rw [hrest,length_cons,length_cons] at hcut
    omega

theorem first_interpreted (h : ¬ (percent∉s ∧ plus∉s)) :
    ∃ front b t,s=front++b::t ∧ (percent∉front ∧ plus∉front) ∧
      (b=percent ∨ b=plus) := by
  induction s with
  | nil => exact absurd ⟨not_mem_nil,not_mem_nil⟩ h
  | cons c s ih =>
    by_cases hc : c=percent ∨ c=plus
    · exact ⟨[],c,s,rfl,⟨not_mem_nil,not_mem_nil⟩,hc⟩
    · have hcopy {d : Byte} (hd : c≠d) {l : List Byte} : d∉c::l ↔ d∉l := by
        simp [Ne.symm hd]
      have hp : c≠percent := fun he => hc (.inl he)
      have hq : c≠plus := fun he => hc (.inr he)
      rw [hcopy hp,hcopy hq] at h
      obtain ⟨front,b,t,rfl,hfront,hb⟩ := ih h
      refine ⟨c::front,b,t,rfl,?_,hb⟩
      rw [hcopy hp,hcopy hq]
      exact hfront

theorem beforeZero_decoded_iff (h0 : (0 : Byte)∉s) :
    beforeZero (decoded (encoded s))=s ↔ percent∉s ∧ plus∉s := by
  constructor
  · intro h
    by_contra hbad
    obtain ⟨front,b,t,rfl,hfront,hb⟩ := first_interpreted hbad
    have hz : (0 : Byte)∉front := fun hm => h0 (mem_append_left _ hm)
    have hdec : decoded (encoded (front++b::t))=front++decoded (b::encoded t) := by
      have hchar : encodeChar b=[b] := by
        rcases hb with rfl | rfl <;> rfl
      rw [encoded,flatMap_append,flatMap_cons,hchar]
      exact decoded_encoded_append hfront.1 hfront.2 _
    rw [hdec,beforeZero_append hz] at h
    have hrest:=append_cancel_left h
    rcases hb with rfl | rfl
    · exact beforeZero_percent t hrest
    · rw [decoded_cons (by decide)] at hrest
      cases hrest
  · rintro ⟨hpercent,hplus⟩
    have hdec:=decoded_encoded_append hpercent hplus []
    rw [append_nil] at hdec
    rw [hdec,beforeZero_append h0]
    exact append_nil s

theorem not_mem_encoded {d : Byte} (hd : d∉ascii "%0123456789ABCDEF")
    (hesc : d∈escapedChars ∨ d∉s) : d∉encoded s := by
  intro hm
  obtain ⟨c,hc,hdc⟩ := mem_flatMap.mp hm
  have hdigit : ∀ b : Byte, ogsToHex b∈ascii "%0123456789ABCDEF" := by
    set_option maxRecDepth 20000 in decide
  unfold encodeChar at hdc
  split at hdc
  · simp only [mem_cons,not_mem_nil,or_false] at hdc
    rcases hdc with rfl | rfl | rfl
    · exact hd (by decide)
    · exact hd (hdigit _)
    · exact hd (hdigit _)
  · rename_i hplain
    obtain rfl := mem_singleton.mp hdc
    rcases hesc with hesc | hesc
    · exact hplain (contains_iff_mem.mpr hesc)
    · exact hesc hc

def RoundTrips (s : CStr) : Prop :=
  ∃ enc dec,(urlEncode s).Returns enc ∧ (urlDecode (CStr.ofMem enc)).Returns dec ∧
    CStr.ofMem dec=s

theorem roundTrips_iff (s : CStr) :
    RoundTrips s ↔ beforeZero (decoded (encoded s.bytes))=s.bytes := by
  have henc0 : (0 : Byte)∉encoded s.bytes :=
    not_mem_encoded (by decide) (.inr s.noNul)
  have hstr : (CStr.ofMem (encoded s.bytes++[0])).bytes=encoded s.bytes := ofMem_append henc0
  have hdec:=urlDecode_returns (CStr.ofMem (encoded s.bytes++[0]))
  rw [hstr] at hdec
  rw [← beforeZero_append_zero (decoded (encoded s.bytes))]
  constructor
  · rintro ⟨enc,dec,henc,hdec',hsame⟩
    obtain rfl := henc.unique (urlEncode_returns s)
    obtain rfl := hdec'.unique hdec
    exact congrArg CStr.bytes hsame
  · intro hsame
    exact ⟨_,_,urlEncode_returns s,hdec,CStr.eq_of_bytes hsame⟩

/-- The characters at which `ogs_sbi_parse_uri` is asked to split. -/
def uriDelimiters : List Byte := [slash,question]

/-- The decoder of any string comes to an end with reads up to the terminator and writes to the
octets that it allocated. The codec returns the string if and only if it has no percent sign and no
plus sign. No delimiter is in what was encoded. -/
theorem url_codec (s : CStr) :
    (RoundTrips s ↔ percent∉s.bytes ∧ plus∉s.bytes) ∧
      (∃ enc,(urlEncode s).Returns enc ∧ ∀ d∈uriDelimiters,d∉enc) ∧
      ∃ dec,(urlDecode s).Returns dec ∧ dec.length ≤ s.bytes.length+1 := by
  refine ⟨?_,⟨_,urlEncode_returns s,?_⟩,_,urlDecode_returns s,?_⟩
  · rw [roundTrips_iff]
    exact beforeZero_decoded_iff s.noNul
  · intro d hd hm
    have hdelim : ∀ d ∈ uriDelimiters,
        d∉ascii "%0123456789ABCDEF" ∧ d∈escapedChars ∧ d≠0 := by
          set_option maxRecDepth 20000 in decide
    obtain ⟨hplain,hesc,hne⟩ := hdelim d hd
    rcases mem_append.mp hm with hm | hm
    · exact not_mem_encoded hplain (.inl hesc) hm
    · exact hne (mem_singleton.mp hm)
  · rw [length_append,length_singleton]
    exact Nat.succ_le_succ (length_decoded s.bytes)

def plusText : CStr := ⟨[plus],by decide⟩

/-- A plus sign comes back as a space. -/
theorem url_codec_plus : ¬ RoundTrips plusText := by
  rw [roundTrips_iff]
  decide

end OgsDp.Sbi
