import Mathlib.Data.List.TakeWhile
import OgsDp.Core.Hash
import OgsDp.Lib.Text

/-!
# Numbers in text and the fields of a JSON body

The gNB synchronisation messages are written with `ogs_msprintf` and read with `strstr`, `strchr`
and `atoi`; no JSON is decoded.
-/

namespace OgsDp.Core
open Lib Text List Option

def ascii (s : String) : List Byte := s.toList.map fun c => Fin.ofNat 256 c.toNat

def quote : Byte := 34
def colon : Byte := 58
def comma : Byte := 44

def isSpace (b : Byte) : Bool := b == 32 || (9≤b && b≤13)
def isDigit (b : Byte) : Bool := 48≤b && b≤57

def digitsValue (text : List Byte) : Nat :=
  (text.takeWhile isDigit).foldl (fun v b => 10*v+(b.val-48)) 0

def clampLong (v : Int) : Int :=
  if v < -9223372036854775808 then -9223372036854775808
  else if 9223372036854775807<v then 9223372036854775807 else v

/-- `strtol(text, NULL, 10)` with a `long` of 64 bits. -/
def strtol (text : List Byte) : Int :=
  match text.dropWhile isSpace with
  | [] => 0
  | b::rest =>
    clampLong <|
      if b=45 then -(digitsValue rest : Int)
      else if b=43 then digitsValue rest
      else digitsValue (b::rest)

/-- `atoi`, the value of `strtol` as an `int`. -/
def atoi (text : List Byte) : BitVec 32 := BitVec.ofInt 32 (strtol text)

def decimal (n : Nat) : List Byte := (Nat.toDigits 10 n).map fun c => Fin.ofNat 256 c.toNat

theorem digit_byte {c : Char} (h : c.isDigit=true) :
    isDigit (Fin.ofNat 256 c.toNat)=true ∧
      (Fin.ofNat 256 c.toNat).val-48=c.toNat - '0'.toNat := by
  have hc : 48 ≤ c.toNat ∧ c.toNat≤57 := by
    simpa [Char.isDigit,UInt32.le_iff_toNat_le] using h
  have hval : (Fin.ofNat 256 c.toNat).val=c.toNat := Nat.mod_eq_of_lt (by omega)
  constructor
  · simp only [isDigit,Bool.and_eq_true,decide_eq_true_eq,Fin.le_def,hval]
    exact hc
  · rw [hval]
    rfl

theorem isSpace_of_isDigit {b : Byte} (h : isDigit b=true) : isSpace b=false := by
  simp only [isDigit,Bool.and_eq_true,decide_eq_true_eq,Fin.le_def] at h
  have hlow : 48≤b.val := h.1
  simp only [isSpace,Bool.or_eq_false_iff,beq_eq_false_iff_ne,ne_eq,Bool.and_eq_false_iff,
    decide_eq_false_iff_not,Fin.le_def,Fin.ext_iff]
  constructor
  · show ¬ b.val=32
    omega
  · right
    show ¬ b.val≤13
    omega

theorem isDigit_decimal {n : Nat} {b : Byte} (h : b∈decimal n) : isDigit b=true := by
  obtain ⟨c,hc,rfl⟩ := List.mem_map.mp h
  exact (digit_byte (Nat.isDigit_of_mem_toDigits (by decide) (by decide) hc)).1

theorem zero_not_mem_decimal (n : Nat) : 0∉decimal n :=
  fun h => absurd (isDigit_decimal h) (by decide)

theorem quote_not_mem_decimal (n : Nat) : quote∉decimal n :=
  fun h => absurd (isDigit_decimal h) (by decide)

theorem foldl_digits {cs : List Char} (h : ∀ c∈cs,c.isDigit=true) (v : Nat) :
    (cs.map fun c => Fin.ofNat 256 c.toNat).foldl
      (fun v (b : Byte) => 10*v+(b.val-48)) v=Nat.ofDigitChars 10 cs v := by
  induction cs generalizing v with
  | nil => rfl
  | cons c cs ih =>
    have hc:=(digit_byte (h c (mem_cons_self ..))).2
    have hcs:=ih fun c' hc' => h c' (mem_cons_of_mem _ hc')
    rw [map_cons,foldl_cons,hcs,hc]
    rfl

theorem digitsValue_decimal (n : Nat) {rest : List Byte} (hrest : rest.takeWhile isDigit=[]) :
    digitsValue (decimal n++rest)=n := by
  have htake : (decimal n++rest).takeWhile isDigit=decimal n := by
    rw [takeWhile_append_of_pos fun _ => isDigit_decimal,hrest,append_nil]
  unfold digitsValue
  rw [htake]
  unfold decimal
  rw [foldl_digits fun c hc => Nat.isDigit_of_mem_toDigits (by decide) (by decide) hc]
  exact Nat.ofDigitChars_ten_toDigits

theorem strtol_decimal {n : Nat} (hn : n<2^63) {rest : List Byte}
    (hrest : rest.takeWhile isDigit=[]) : strtol (decimal n++rest)=n := by
  have hvalue : digitsValue (decimal n++rest)=n := digitsValue_decimal n hrest
  cases hd : decimal n with
  | nil => exact absurd (List.map_eq_nil_iff.mp hd) (by simp)
  | cons d ds =>
    have hmem : d∈decimal n := hd ▸ mem_cons_self ..
    have hdigit : isDigit d=true := isDigit_decimal hmem
    have hspace:=isSpace_of_isDigit hdigit
    have hsign : d≠45 ∧ d≠43 := by
      constructor
      · rintro rfl
        cases hdigit
      · rintro rfl
        cases hdigit
    rw [hd,cons_append] at hvalue
    unfold strtol
    rw [cons_append,dropWhile_cons_of_neg (by rw [hspace]; decide)]
    simp only
    rw [if_neg hsign.1,if_neg hsign.2,hvalue,clampLong,if_neg (by omega),if_neg (by omega)]

theorem atoi_decimal {n : Nat} (hn : n<2^32) {b : Byte} {rest : List Byte}
    (hb : isDigit b=false) : atoi (decimal n++b::rest)=BitVec.ofNat 32 n := by
  have hrest : (b::rest).takeWhile isDigit=[] :=
    takeWhile_cons_of_neg (by rw [hb]; decide)
  unfold atoi
  rw [strtol_decimal (by omega) hrest,BitVec.ofInt_natCast]

def fieldKey (name follow : List Byte) : List Byte := quote::(name++quote::colon::follow)

def stringFieldBytes (name content : List Byte) : Option (List Byte) :=
  (strstr (fieldKey name [quote]) content).bind fun start =>
    upTo quote (start.drop (fieldKey name [quote]).length)

theorem mem_of_stringFieldBytes {name content part : List Byte}
    (h : stringFieldBytes name content=some part) : quote∉part ∧ ∀ b∈part,b∈content := by
  obtain ⟨start,hstart,hpart⟩ := bind_eq_some_iff.mp h
  obtain ⟨rest,hrest,hquote⟩ := upTo_some hpart
  constructor
  · exact hquote
  · intro b hb
    have hmem : b∈start.drop (fieldKey name [quote]).length := by
      rw [hrest]
      exact mem_append_left _ hb
    exact (strstr_some hstart).2.subset (drop_subset _ _ hmem)

def stringField (name : List Byte) (content : CStr) : Option CStr :=
  (stringFieldBytes name content.bytes).pmap CStr.mk fun _ h h0 =>
    content.noNul ((mem_of_stringFieldBytes h).2 0 h0)

def numberField (name : List Byte) (content : CStr) : BitVec 32 :=
  match strstr (fieldKey name []) content.bytes with
  | none => 0
  | some start => atoi (((strchr colon start).getD []).drop 1)

theorem quote_not_mem_stringField {name : List Byte} {content s : CStr}
    (h : stringField name content=some s) : quote∉s.bytes := by
  obtain ⟨part,hpart,heq⟩ := Option.pmap_eq_some_iff.mp h
  obtain ⟨hbytes,rfl⟩ := heq
  exact (mem_of_stringFieldBytes hbytes).1

theorem stringField_eq {name : List Byte} {content s : CStr}
    (h : stringFieldBytes name content.bytes=some s.bytes) : stringField name content=some s := by
  apply Option.pmap_eq_some_iff.mpr
  exact ⟨s.bytes,s.noNul,h,rfl⟩

theorem stringField_none {name : List Byte} {content : CStr}
    (h : strstr (fieldKey name [quote]) content.bytes=none) : stringField name content=none := by
  apply Option.pmap_eq_none_iff.mpr
  unfold stringFieldBytes
  rw [h]
  rfl

def stringEntry (name value : List Byte) : List Byte :=
  quote::(name++quote::colon::quote::(value++[quote]))

/-- A name that no separator of a body is part of. -/
structure PlainName (name : List Byte) : Prop where
  quote : quote∉name
  colon : colon∉name
  comma : comma∉name

section ReadBack

variable {name n follow pre value rest : List Byte}

theorem PlainName.not_prefix (h : PlainName name) {b : Byte} (hb : b=Core.colon ∨ b=Core.comma) :
    ¬ (name++Core.quote::follow <+: b::rest) := by
  intro hp
  cases name with
  | nil =>
    rw [nil_append,cons_prefix_cons] at hp
    rcases hb with rfl | rfl
    · exact absurd hp.1 (by decide)
    · exact absurd hp.1 (by decide)
  | cons a name =>
    rw [cons_append,cons_prefix_cons] at hp
    have ha : a=b := hp.1
    rcases hb with rfl | rfl
    · exact h.colon (ha ▸ mem_cons_self ..)
    · exact h.comma (ha ▸ mem_cons_self ..)

theorem strstr_stringEntry_of_ne (h : PlainName name) (hpre : quote∉pre) (hn : quote∉n)
    (hvalue : quote∉value) (hne : name≠n) :
    strstr (fieldKey name follow) (pre++(stringEntry n value++([comma]++rest))) =
      strstr (fieldKey name follow) ([comma]++rest) := by
  have hcolon : quote∉[colon] := by decide
  have hopen : ¬ (name++quote::colon::follow <+:
      n++quote::([colon]++quote::(value++quote::comma::rest))) := by
    rw [prefix_of_separator h.quote hn]
    exact fun hp => hne hp.1
  have hclose : ¬ (name++quote::colon::follow <+:
      [colon]++quote::(value++quote::comma::rest)) := h.not_prefix (.inl rfl)
  have hopen' : ¬ (name++quote::colon::follow <+: value++quote::comma::rest) := by
    rw [prefix_of_separator h.quote hvalue,cons_prefix_cons]
    exact fun hp => absurd hp.2.1 (by decide)
  have hclose' : ¬ (name++quote::colon::follow <+: comma::rest) :=
    h.not_prefix (.inr rfl)
  have htext : pre++(stringEntry n value++([comma]++rest)) =
      pre++quote::(n++quote::([colon]++quote::(value++quote::comma::rest))) := by
    simp [stringEntry]
  unfold fieldKey
  rw [htext,strstr_separator hpre,if_neg hopen,strstr_separator hn,if_neg hclose,
    strstr_separator hcolon,if_neg hopen',strstr_separator hvalue,if_neg hclose']
  rfl

theorem strstr_numberEntry_of_ne (h : PlainName name) (hpre : quote∉pre) (hn : quote∉n)
    (hne : name≠n) (value : List Byte) :
    strstr (fieldKey name follow) (pre++(fieldKey n value++rest)) =
      strstr (fieldKey name follow) (colon::value++rest) := by
  have hopen : ¬ (name++quote::colon::follow <+: n++quote::colon::(value++rest)) := by
    rw [prefix_of_separator h.quote hn]
    exact fun hp => hne hp.1
  have hclose : ¬ (name++quote::colon::follow <+: colon::(value++rest)) :=
    h.not_prefix (.inl rfl)
  have htext : pre++(fieldKey n value++rest) =
      pre++quote::(n++quote::colon::(value++rest)) := by
    simp [fieldKey]
  rw [htext]
  unfold fieldKey
  rw [strstr_separator hpre,if_neg hopen,strstr_separator hn,if_neg hclose,cons_append]

theorem strstr_fieldKey (hpre : quote∉pre) (name follow rest : List Byte) :
    strstr (fieldKey name follow) (pre++(fieldKey name follow++rest)) =
      some (fieldKey name follow++rest) := by
  have hp : name++quote::colon::follow <+: (name++quote::colon::follow)++rest :=
    prefix_append ..
  unfold fieldKey
  rw [cons_append,strstr_separator hpre,if_pos hp]

theorem stringFieldBytes_of_strstr {content : List Byte} (hvalue : quote∉value)
    (hpre : quote∉pre) (h : strstr (fieldKey name [quote]) content =
      strstr (fieldKey name [quote]) (pre++(stringEntry name value++rest))) :
    stringFieldBytes name content=some value := by
  have htext : pre++(stringEntry name value++rest) =
      pre++(fieldKey name [quote]++(value++quote::rest)) := by
    simp [stringEntry,fieldKey]
  unfold stringFieldBytes
  rw [h,htext,strstr_fieldKey hpre,bind_some,drop_left,upTo_append hvalue]

theorem numberField_of_strstr {content : CStr} (hname : colon∉name) (hpre : quote∉pre)
    (h : strstr (fieldKey name []) content.bytes =
      strstr (fieldKey name []) (pre++(fieldKey name value++rest))) :
    numberField name content=atoi (value++rest) := by
  have htext : fieldKey name value++rest=fieldKey name []++(value++rest) := by
    simp [fieldKey]
  have hsplit : fieldKey name []++(value++rest) =
      (quote::(name++[quote]))++colon::(value++rest) := by
    simp [fieldKey]
  have hcolon : colon∉quote::(name++[quote]) := by
    simp only [mem_cons,mem_append,not_mem_nil,or_false,not_or]
    exact ⟨by decide,hname,by decide⟩
  unfold numberField
  rw [h,htext,strstr_fieldKey hpre,hsplit]
  simp only [strchr_append hcolon,getD_some]
  rfl

end ReadBack

end OgsDp.Core
