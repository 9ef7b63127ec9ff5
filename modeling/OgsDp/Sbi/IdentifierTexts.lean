import OgsDp.Core.HexText
import OgsDp.Sbi.Suci
import OgsDp.Amf.MobileIdentity

/-!
# Texts of identifiers (lib/sbi/conv.c)

An S-NSSAI is a number, with the SD behind a hyphen if there is one.
-/

namespace OgsDp.Sbi
open Lib OgsDp.Core Amf BitVec

def noSdValue : BitVec 24 := 0xffffff

def sNssaiToString (sNssai : SNssai) : List Byte :=
  if sNssai.sd≠noSdValue then
    decimal sNssai.sst.val++minus::hexPadded 6 sNssai.sd.toNat
  else decimal sNssai.sst.val

def sNssaiFromString (str : List Byte) : Except Fault SNssai :=
  let sst:=atoi8 (strsep str).1
  match (strsep str).2 with
  | none => .ok ⟨sst,noSdValue⟩
  | some sd => do return ⟨sst,← uint24FromString sd⟩

/-- `OpenAPI_plmn_id_t`, of which both members are required. -/
structure PlmnIdText where
  mcc : List Byte
  mnc : List Byte

structure TaiText where
  plmnId : Option PlmnIdText
  tac : Option (List Byte)

structure NcgiText where
  plmnId : Option PlmnIdText
  nrCellId : Option (List Byte)

structure NrLocation where
  tai : Option TaiText
  ncgi : Option NcgiText

def buildPlmnId (p : PlmnId) : PlmnIdText where
  mcc := zeroPadded 3 p.mcc
  mnc := if p.mncLen=2 then zeroPadded 2 p.mnc else zeroPadded 3 p.mnc

def parsePlmnId (text : PlmnIdText) : PlmnId :=
  plmnIdBuild ((atoi text.mcc).setWidth 16) ((atoi text.mnc).setWidth 16)
    (BitVec.ofNat 16 text.mnc.length)

def buildNrLocation (tai : Tai) (nrCgi : NrCgi) : NrLocation where
  tai := some ⟨some (buildPlmnId (plmnIdOf tai.plmnId)),some (uint24To0String tai.tac)⟩
  ncgi := some ⟨some (buildPlmnId (plmnIdOf nrCgi.plmnId)),
    some (uint36To0String (nrCgi.cellId.setWidth 64))⟩

def plmnIdOr (old : Vector Byte 3) : Option PlmnIdText → Vector Byte 3
  | none => old
  | some text => (parsePlmnId text).bytes

def parseTai (tai : Tai) (text : TaiText) : Except Fault Tai :=
  match text.tac with
  | none => .ok ⟨plmnIdOr tai.plmnId text.plmnId,tai.tac⟩
  | some tac => do return ⟨plmnIdOr tai.plmnId text.plmnId,← uint24FromString tac⟩

def parseNcgi (nrCgi : NrCgi) (text : NcgiText) : Except Fault NrCgi :=
  match text.nrCellId with
  | none => .ok ⟨plmnIdOr nrCgi.plmnId text.plmnId,nrCgi.cellId⟩
  | some cell => do
    return ⟨plmnIdOr nrCgi.plmnId text.plmnId,(← uint64FromString cell).setWidth 36⟩

def parseNrLocation (tai : Tai) (nrCgi : NrCgi) (loc : NrLocation) :
    Except Fault (Tai × NrCgi) := do
  let tai ← loc.tai.elim (.ok tai) (parseTai tai)
  let nrCgi ← loc.ncgi.elim (.ok nrCgi) (parseNcgi nrCgi)
  return (tai,nrCgi)

theorem uint64FromString_returns (str : List Byte) :
    Returns (uint64FromString str) ↔ HexInRange str := by
  constructor
  · intro hread
    by_contra hrange
    rw [uint64FromString_error str hrange] at hread
    exact not_gives_error hread
  · intro hrange
    rw [uint64FromString_eq str hrange]
    exact returns_ok _

theorem uint24FromString_returns (str : List Byte) :
    Returns (uint24FromString str) ↔ HexInRange str :=
  (returns_bind fun _ => returns_ok _).trans (uint64FromString_returns str)

/-- Behind the first hyphen of the text stands no number out of range. -/
def SdInRange (str : List Byte) : Prop := ∀ sd,(strsep str).2=some sd → HexInRange sd

theorem sNssaiFromString_returns (str : List Byte) :
    Returns (sNssaiFromString str) ↔ SdInRange str := by
  unfold sNssaiFromString SdInRange
  cases (strsep str).2 with
  | none => exact iff_of_true (returns_ok _) fun sd h => nomatch h
  | some sd =>
    have hread:=(returns_bind fun x => returns_ok (SNssai.mk (atoi8 (strsep str).1) x)).trans
      (uint24FromString_returns sd)
    constructor
    · intro h sd' hsd
      cases hsd
      exact hread.mp h
    · exact fun h => hread.mpr (h sd rfl)

/-- The TAC and the cell of the location are numbers in range, where they are there. -/
def NrLocation.InRange (loc : NrLocation) : Prop :=
  (∀ text,loc.tai=some text → ∀ tac,text.tac=some tac → HexInRange tac) ∧
    ∀ text,loc.ncgi=some text → ∀ cell,text.nrCellId=some cell → HexInRange cell

theorem parseTai_returns (tai : Tai) (text : TaiText) :
    Returns (parseTai tai text) ↔ ∀ tac,text.tac=some tac → HexInRange tac := by
  unfold parseTai
  cases text.tac with
  | none => exact iff_of_true (returns_ok _) fun tac h => nomatch h
  | some tac =>
    have hread:=(returns_bind fun x =>
      returns_ok (Tai.mk (plmnIdOr tai.plmnId text.plmnId) x)).trans (uint24FromString_returns tac)
    constructor
    · intro h tac' htac
      cases htac
      exact hread.mp h
    · exact fun h => hread.mpr (h tac rfl)

theorem parseNcgi_returns (nrCgi : NrCgi) (text : NcgiText) :
    Returns (parseNcgi nrCgi text) ↔ ∀ cell,text.nrCellId=some cell → HexInRange cell := by
  unfold parseNcgi
  cases text.nrCellId with
  | none => exact iff_of_true (returns_ok _) fun cell h => nomatch h
  | some cell =>
    have hread:=(returns_bind fun x => returns_ok
      (NrCgi.mk (plmnIdOr nrCgi.plmnId text.plmnId) (x.setWidth 36))).trans
        (uint64FromString_returns cell)
    constructor
    · intro h cell' hcell
      cases hcell
      exact hread.mp h
    · exact fun h => hread.mpr (h cell rfl)

theorem parseNrLocation_returns (tai : Tai) (nrCgi : NrCgi) (loc : NrLocation) :
    Returns (parseNrLocation tai nrCgi loc) ↔ loc.InRange := by
  have htai : Returns (loc.tai.elim (.ok tai) (parseTai tai)) ↔
      ∀ text,loc.tai=some text → ∀ tac,text.tac=some tac → HexInRange tac := by
    cases loc.tai with
    | none => exact iff_of_true (returns_ok _) fun text h => nomatch h
    | some text =>
      constructor
      · intro h text' htext
        cases htext
        exact (parseTai_returns tai text).mp h
      · exact fun h => (parseTai_returns tai text).mpr (h text rfl)
  have hncgi : Returns (loc.ncgi.elim (.ok nrCgi) (parseNcgi nrCgi)) ↔
      ∀ text,loc.ncgi=some text → ∀ cell,text.nrCellId=some cell → HexInRange cell := by
    cases loc.ncgi with
    | none => exact iff_of_true (returns_ok _) fun text h => nomatch h
    | some text =>
      constructor
      · intro h text' htext
        cases htext
        exact (parseNcgi_returns nrCgi text).mp h
      · exact fun h => (parseNcgi_returns nrCgi text).mpr (h text rfl)
  unfold parseNrLocation NrLocation.InRange
  rw [← htai,← hncgi]
  unfold Returns
  rw [gives_bind]
  constructor
  · intro h
    obtain ⟨t,ht,hrest⟩ := h
    exact ⟨⟨t,ht,trivial⟩,(returns_bind fun _ => returns_ok _).mp hrest⟩
  · intro h
    obtain ⟨t,ht,-⟩ := h.1
    exact ⟨t,ht,(returns_bind fun _ => returns_ok _).mpr h.2⟩

theorem strtol_digits {l : List Byte} (h : ∀ b∈l,isDigit b=true)
    (hlt : digitsFrom 0 l<2^63) : strtol l=digitsFrom 0 l := by
  have hvalue : digitsValue l=digitsFrom 0 l := by
    unfold digitsValue
    rw [List.takeWhile_eq_self_iff.mpr h]
    rfl
  cases l with
  | nil => rfl
  | cons b rest =>
    have hb:=h b (List.mem_cons_self ..)
    have hminus : b≠45 := by
      intro he
      rw [he] at hb
      cases hb
    have hplus : b≠43 := by
      intro he
      rw [he] at hb
      cases hb
    unfold strtol
    rw [List.dropWhile_cons_of_neg (by rw [isSpace_of_isDigit hb]; decide)]
    simp only
    rw [if_neg hminus,if_neg hplus,hvalue,clampLong,if_neg (by omega),if_neg (by omega)]

theorem atoi_zeroPadded (w : Nat) {n : Nat} (h : n<2^32) :
    atoi (zeroPadded w n)=BitVec.ofNat 32 n := by
  have hvalue:=digitsFrom_zeroPadded w n
  rw [atoi,strtol_digits (fun _ => isDigit_zeroPadded) (by omega),hvalue,ofInt_natCast]

theorem minus_not_mem_decimal (n : Nat) : minus∉decimal n :=
  fun h => absurd (isDigit_decimal h) (by decide)

theorem atoi8_decimal (b : Byte) : atoi8 (decimal b.val)=b := by
  have hb:=b.isLt
  have hval : strtol (decimal b.val++[])=b.val := strtol_decimal (by omega) rfl
  rw [List.append_nil] at hval
  rw [atoi8,atoi,hval,ofInt_natCast,toNat_ofNat]
  apply Fin.ext
  show b.val % 2^32 % 256=b.val
  omega

theorem strsep_append {w : List Byte} (hw : minus∉w) (rest : List Byte) :
    strsep (w++minus::rest)=(w,some rest) := by
  have hkeep : ∀ c∈w,decide (c≠minus)=true := by
    intro c hc
    exact decide_eq_true fun he => hw (he ▸ hc)
  unfold strsep
  rw [List.takeWhile_append_of_pos hkeep,List.dropWhile_append_of_pos hkeep]
  simp

theorem strsep_word {w : List Byte} (hw : minus∉w) : strsep w=(w,none) := by
  have hkeep : ∀ c∈w,decide (c≠minus)=true := by
    intro c hc
    exact decide_eq_true fun he => hw (he ▸ hc)
  unfold strsep
  rw [List.takeWhile_eq_self_iff.mpr hkeep,List.dropWhile_eq_nil_iff.mpr hkeep]

theorem sNssaiFromString_toString (sNssai : SNssai) :
    sNssaiFromString (sNssaiToString sNssai) = .ok sNssai := by
  unfold sNssaiToString
  by_cases hsd : sNssai.sd≠noSdValue
  · rw [if_pos hsd,sNssaiFromString,strsep_append (minus_not_mem_decimal _)]
    simp only
    rw [uint24FromString_hexPadded,ok_bind,atoi8_decimal]
    rfl
  · rw [if_neg hsd,sNssaiFromString,strsep_word (minus_not_mem_decimal _)]
    simp only
    rw [atoi8_decimal,← not_not.mp hsd]

/-- The digits are decimal, but for the filler of an MNC of two digits. -/
structure IsDecimal (p : PlmnId) : Prop where
  mcc1 : p.mcc1.toNat<10
  mcc2 : p.mcc2.toNat<10
  mcc3 : p.mcc3.toNat<10
  mnc1 : p.mnc1≠0xf → p.mnc1.toNat<10
  mnc2 : p.mnc2.toNat<10
  mnc3 : p.mnc3.toNat<10

theorem toNat_atoi16 (w : Nat) {n : Nat} (h : n<2^16) :
    ((atoi (zeroPadded w n)).setWidth 16).toNat=n := by
  rw [atoi_zeroPadded w (by omega),toNat_setWidth,toNat_ofNat]
  omega

theorem digit_of_number {d : BitVec 4} {n : Nat} (h : n=d.toNat) : BitVec.ofNat 4 n=d := by
  rw [h,ofNat_toNat,setWidth_eq]

theorem plmnIdBuild_of_numbers {p : PlmnId} (h : IsDecimal p) {mcc mnc mncLen : BitVec 16}
    (hmcc : mcc.toNat=p.mcc) (hmnc : mnc.toNat=p.mnc) (hlen : mncLen.toNat=p.mncLen) :
    plmnIdBuild mcc mnc mncLen=p := by
  have hmcc1:=h.mcc1
  have hmcc2:=h.mcc2
  have hmcc3:=h.mcc3
  have hmnc2:=h.mnc2
  have hmnc3:=h.mnc3
  have hmccVal : p.mcc=p.mcc1.toNat*100+p.mcc2.toNat*10+p.mcc3.toNat := rfl
  have hfirst : (if mncLen=2 then 0xf else BitVec.ofNat 4 (mnc.toNat / 100 % 10))=p.mnc1 ∧
      mnc.toNat % 100=p.mnc2.toNat*10+p.mnc3.toNat := by
    by_cases hmnc1 : p.mnc1=0xf
    · have hmncVal : p.mnc=p.mnc2.toNat*10+p.mnc3.toNat := if_pos hmnc1
      have htwo : mncLen=2 := eq_of_toNat_eq (hlen.trans (if_pos hmnc1))
      rw [if_pos htwo,hmnc1]
      exact ⟨rfl,by omega⟩
    · have hmnc1Lt:=h.mnc1 hmnc1
      have hmncVal : p.mnc=p.mnc1.toNat*100+p.mnc2.toNat*10+p.mnc3.toNat := if_neg hmnc1
      have hthree : mncLen.toNat=3 := hlen.trans (if_neg hmnc1)
      have hne : mncLen≠2 := by
        intro htwo
        rw [htwo] at hthree
        cases hthree
      rw [if_neg hne]
      exact ⟨digit_of_number (by omega),by omega⟩
  have hlast:=hfirst.2
  unfold plmnIdBuild
  rw [hfirst.1,digit_of_number (d := p.mcc1) (by omega),digit_of_number (d := p.mcc2) (by omega),
    digit_of_number (d := p.mcc3) (by omega),digit_of_number (d := p.mnc2) (by omega),
    digit_of_number (d := p.mnc3) (by omega)]

theorem IsDecimal.mcc_lt {p : PlmnId} (h : IsDecimal p) : p.mcc<10^3 := by
  have hmcc1:=h.mcc1
  have hmcc2:=h.mcc2
  have hmcc3:=h.mcc3
  unfold PlmnId.mcc
  omega

theorem IsDecimal.mnc_lt {p : PlmnId} (h : IsDecimal p) : p.mnc<10^p.mncLen := by
  have hmnc2:=h.mnc2
  have hmnc3:=h.mnc3
  unfold PlmnId.mnc PlmnId.mncLen
  by_cases hmnc1 : p.mnc1=0xf
  · rw [if_pos hmnc1,if_pos hmnc1]
    omega
  · have hmnc1Lt:=h.mnc1 hmnc1
    rw [if_neg hmnc1,if_neg hmnc1]
    omega

theorem buildPlmnId_mnc (p : PlmnId) : (buildPlmnId p).mnc=zeroPadded p.mncLen p.mnc := by
  by_cases hmnc1 : p.mnc1=0xf
  · have htwo : p.mncLen=2 := if_pos hmnc1
    rw [htwo]
    exact if_pos htwo
  · have hthree : p.mncLen=3 := if_neg hmnc1
    have hne : p.mncLen≠2 := by omega
    rw [hthree]
    exact if_neg hne

theorem parsePlmnId_build {p : PlmnId} (h : IsDecimal p) : parsePlmnId (buildPlmnId p)=p := by
  have hmccLt:=h.mcc_lt
  have hmncLt:=h.mnc_lt
  have hrange : 0<p.mncLen ∧ p.mncLen≤3 := by
    unfold PlmnId.mncLen
    by_cases hmnc1 : p.mnc1=0xf
    · rw [if_pos hmnc1]
      omega
    · rw [if_neg hmnc1]
      omega
  have hpow : 10^p.mncLen≤10^3 := Nat.pow_le_pow_right (by decide) hrange.2
  unfold parsePlmnId
  rw [buildPlmnId_mnc,length_zeroPadded hrange.1 hmncLt]
  refine plmnIdBuild_of_numbers h (toNat_atoi16 3 (by omega)) (toNat_atoi16 _ (by omega)) ?_
  rw [toNat_ofNat]
  omega

theorem uint64FromString_to36 (cell : BitVec 36) :
    uint64FromString (uint36To0String (cell.setWidth 64)) = .ok (cell.setWidth 64) := by
  have hcell:=cell.isLt
  have hval : (cell.setWidth 64).toNat=cell.toNat := by
    rw [toNat_setWidth]
    omega
  rw [uint36To0String,uint64FromString_hexPadded 9 (by omega),ofNat_toNat,
    setWidth_eq]

theorem parseNrLocation_build (old tai : Tai) (oldCgi nrCgi : NrCgi) :
    parseNrLocation old oldCgi (buildNrLocation tai nrCgi) =
      .ok (⟨(parsePlmnId (buildPlmnId (plmnIdOf tai.plmnId))).bytes,tai.tac⟩,
        ⟨(parsePlmnId (buildPlmnId (plmnIdOf nrCgi.plmnId))).bytes,nrCgi.cellId⟩) := by
  have hcell : (nrCgi.cellId.setWidth 64).setWidth 36=nrCgi.cellId := by
    rw [setWidth_setWidth_of_le _ (by decide),setWidth_eq]
  have htac : parseTai old ⟨some (buildPlmnId (plmnIdOf tai.plmnId)),
      some (uint24To0String tai.tac)⟩ =
        .ok ⟨(parsePlmnId (buildPlmnId (plmnIdOf tai.plmnId))).bytes,tai.tac⟩ := by
    rw [parseTai,uint24To0String]
    simp only
    rw [uint24FromString_hexPadded,ok_bind]
    rfl
  have hncgi : parseNcgi oldCgi ⟨some (buildPlmnId (plmnIdOf nrCgi.plmnId)),
      some (uint36To0String (nrCgi.cellId.setWidth 64))⟩ =
        .ok ⟨(parsePlmnId (buildPlmnId (plmnIdOf nrCgi.plmnId))).bytes,nrCgi.cellId⟩ := by
    rw [parseNcgi]
    simp only
    rw [uint64FromString_to36,ok_bind,hcell]
    rfl
  unfold parseNrLocation buildNrLocation
  simp only [Option.elim]
  rw [htac,ok_bind,hncgi,ok_bind]
  rfl

end OgsDp.Sbi
