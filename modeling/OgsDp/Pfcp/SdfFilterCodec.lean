import OgsDp.Core.Octets
import OgsDp.Pfcp.RuleBuild
import OgsDp.Pfcp.SdfFilter

/-!
# Building and parsing SDF filters (lib/pfcp/types.c)

The parser once more with the reads it makes, and the builder with its buffer. What is built so
far is counted in an `int16_t`.
-/

namespace OgsDp.Pfcp
open Lib OgsDp.Core

/-- What is parsed so far: the filter and its spare octet, where in the IE the flow description
begins, and what is decoded, `none` behind an early `return 0`. -/
structure SdfParse where
  filter : SdfFilter
  spare2 : Byte
  descriptionAt : Option Nat
  size : Option Nat

def sdfRead (octets : List Byte) (present : SdfFilter → Bool) (len : Nat)
    (put : List Byte → SdfParse → SdfParse) (s : SdfParse) : Except Fault SdfParse :=
  match s.size with
  | none => .ok s
  | some size =>
    if present s.filter then
      if octets.length<size+len then .ok { s with size := none }
      else do
        let b ← octetsAt octets size len
        .ok { put b s with size := some (size+len) }
    else .ok s

def sdfPoint (octets : List Byte) (s : SdfParse) : SdfParse :=
  match s.size with
  | none => s
  | some size =>
    if s.filter.fd then {
      filter := { s.filter with
        flowDescription := (octets.drop size).take s.filter.flowDescriptionLen }
      spare2 := s.spare2
      descriptionAt := some size
      size := some (size+s.filter.flowDescriptionLen) }
    else s

def putFlags (b : List Byte) (s : SdfParse) : SdfParse :=
  { s with filter := { s.filter with flags := b.headD 0 } }

def putSpare (b : List Byte) (s : SdfParse) : SdfParse := { s with spare2 := b.headD 0 }

def putDescriptionLen (b : List Byte) (s : SdfParse) : SdfParse :=
  { s with filter := { s.filter with flowDescriptionLen := (be32 b).toNat } }

def putTosTrafficClass (b : List Byte) (s : SdfParse) : SdfParse :=
  { s with filter := { s.filter with tosTrafficClass := (be32 (b++[0,0])).setWidth 16 } }

def putSecurityParameterIndex (b : List Byte) (s : SdfParse) : SdfParse :=
  { s with filter := { s.filter with securityParameterIndex := be32 b } }

def putFlowLabel (b : List Byte) (s : SdfParse) : SdfParse :=
  { s with filter := { s.filter with flowLabel := be32 (b++[0]) } }

def putSdfFilterId (b : List Byte) (s : SdfParse) : SdfParse :=
  { s with filter := { s.filter with sdfFilterId := be32 b } }

def sdfHead (octets : List Byte) : Except Fault SdfParse := do
  let s ← sdfRead octets (fun _ => true) 1 putFlags ⟨.zero,0,none,some 0⟩
  let s ← sdfRead octets (fun _ => true) 1 putSpare s
  sdfRead octets SdfFilter.fd 2 putDescriptionLen s

def sdfTail (octets : List Byte) (s : SdfParse) : Except Fault SdfParse := do
  let s ← sdfRead octets SdfFilter.ttc 2 putTosTrafficClass s
  let s ← sdfRead octets SdfFilter.spi 4 putSecurityParameterIndex s
  let s ← sdfRead octets SdfFilter.fl 3 putFlowLabel s
  sdfRead octets SdfFilter.bid 4 putSdfFilterId s

def parseSdfWithin (octets : List Byte) : Except Fault SdfParse := do
  let s ← sdfHead octets
  sdfTail octets (sdfPoint octets s)

/-- A filter to be built; the text of its description is as long as it says. -/
structure SdfValue where
  filter : SdfFilter
  spare2 : Byte
  described : filter.fd=true → filter.flowDescription.length=filter.flowDescriptionLen
  short : filter.flowDescriptionLen<2^16

structure Buffer where
  data : List Byte
  short : data.length<2^31

-- One `memcpy` behind its assertion. The sum in the assertion is a `size_t` if `wide`, an `int`
-- otherwise.
def sdfPut (s : List Byte × BitVec 16) (piece : Bool × List Byte) :
    Except Fault (List Byte × BitVec 16) :=
  let sum:=s.2.toInt+piece.2.length
  if (if piece.1 then ((BitVec.ofInt 64 sum).toNat : Int) else sum) ≤ s.1.length then
    if s.2.toInt<0 then .error .write
    else do
      let d ← storeAt s.1 s.2.toInt.toNat piece.2
      .ok (d,s.2+BitVec.ofNat 16 piece.2.length)
  else .error .assertion

def piecesIf (present : Bool) (pieces : List (Bool × List Byte)) : List (Bool × List Byte) :=
  if present then pieces else []

def sdfHeadPieces (f : SdfFilter) (spare2 : Byte) : List (Bool × List Byte) :=
  [(true,[f.flags]),(true,[spare2])] ++
    piecesIf f.fd [(true,netBytes 2 f.flowDescriptionLen)]

def sdfTailPieces (f : SdfFilter) : List (Bool × List Byte) :=
  piecesIf f.ttc [(true,netBytes 2 f.tosTrafficClass.toNat)] ++
    (piecesIf f.spi [(true,netBytes 4 f.securityParameterIndex.toNat)] ++
      (piecesIf f.fl [(false,(netBytes 4 f.flowLabel.toNat).take 3)] ++
        piecesIf f.bid [(true,netBytes 4 f.sdfFilterId.toNat)]))

def sdfPieces (f : SdfFilter) (spare2 : Byte) : List (Bool × List Byte) :=
  sdfHeadPieces f spare2++(piecesIf f.fd [(false,f.flowDescription)]++sdfTailPieces f)

/-- `ogs_pfcp_build_sdf_filter`: the buffer and the length of the IE in it. -/
def buildSdfFilter (v : SdfValue) (buf : Buffer) : Except Fault (List Byte × BitVec 32) :=
  if buf.data=[] then .error .assertion
  else do
    let s ← (sdfPieces v.filter v.spare2).foldlM sdfPut (buf.data,0)
    .ok (s.1,s.2.signExtend 32)

def octetsOf (pieces : List (Bool × List Byte)) : List Byte := pieces.flatMap Prod.snd

def SdfValue.ie (v : SdfValue) : List Byte := octetsOf (sdfPieces v.filter v.spare2)

def SdfFilter.sent (f : SdfFilter) : SdfFilter where
  flags := f.flags
  flowDescriptionLen := if f.fd then f.flowDescriptionLen else 0
  flowDescription := if f.fd then f.flowDescription else []
  tosTrafficClass := if f.ttc then f.tosTrafficClass else 0
  securityParameterIndex := if f.spi then f.securityParameterIndex else 0
  flowLabel := if f.fl then f.flowLabel else 0
  sdfFilterId := if f.bid then f.sdfFilterId else 0

/-- What is built is an IE in the buffer, and parsed to what was sent. -/
def SdfComesBack (v : SdfValue) (buf : Buffer) : Prop :=
  ∃ d len,buildSdfFilter v buf = .ok (d,len) ∧ len.toNat≤d.length ∧
    ∃ s,parseSdfWithin (d.take len.toNat) = .ok s ∧ s.filter=v.filter.sent ∧
      s.spare2=v.spare2

/-- A length that the `int16_t` holds, no ToS or traffic class but zero, and no flow label with
something in its last octet. -/
structure SdfKept (v : SdfValue) : Prop where
  long : v.ie.length<2^15
  tosTrafficClass : v.filter.ttc=true → v.filter.tosTrafficClass=0
  flowLabel : v.filter.fl=true → v.filter.flowLabel.toNat % 256=0

def DescriptionInside (octets : List Byte) (s : SdfParse) : Prop :=
  ∀ i,s.descriptionAt=some i → i+s.filter.flowDescriptionLen≤octets.length

/-- An IE that goes as far as its flow description has all of it. -/
def DescriptionWhole (octets : List Byte) : Prop :=
  (octets.headD 0).val.testBit 0=true → 4≤octets.length →
    4+(be32 ((octets.drop 2).take 2)).toNat≤octets.length

variable {octets rest bytes : List Byte} {present : SdfFilter → Bool} {len n : Nat}
  {s s' : SdfParse} {put : List Byte → SdfParse → SdfParse}

theorem sdfRead_field (octets : List Byte) (present : SdfFilter → Bool) (len : Nat)
    (put : List Byte → SdfParse → SdfParse) (put' : List Byte → SdfFilter → SdfFilter)
    (hput : ∀ b s,(put b s).filter=put' b s.filter) (s : SdfParse) :
    ∃ s',sdfRead octets present len put s = .ok s' ∧
      (s'.filter,s'.size)=sdfField octets present len put' (s.filter,s.size) := by
  obtain ⟨f,spare,at',size⟩ := s
  unfold sdfRead sdfField
  cases size with
  | none => exact ⟨_,rfl,rfl⟩
  | some size =>
    simp only
    split
    · split
      · exact ⟨_,rfl,rfl⟩
      · rename_i hlong
        rw [octetsAt_of_le (Nat.not_lt.mp hlong),ok_bind]
        exact ⟨_,rfl,congrArg (·,some (size+len)) (hput _ _)⟩
    · exact ⟨_,rfl,rfl⟩

theorem sdfPoint_description (octets : List Byte) (s : SdfParse) :
    ((sdfPoint octets s).filter,(sdfPoint octets s).size) =
      sdfDescription octets (s.filter,s.size) := by
  obtain ⟨f,spare,at',size⟩ := s
  unfold sdfPoint sdfDescription
  cases size with
  | none => rfl
  | some size =>
    simp only
    split <;> rfl

theorem parseSdfWithin_ok (octets : List Byte) :
    ∃ s,parseSdfWithin octets = .ok s ∧
      parseSdfFilter octets=(s.filter,BitVec.ofNat 16 (s.size.getD 0)) := by
  obtain ⟨s₁,h₁,e₁⟩ := sdfRead_field octets (fun _ => true) 1 putFlags
    (fun b f => { f with flags := b.headD 0 }) (fun _ _ => rfl) ⟨.zero,0,none,some 0⟩
  obtain ⟨s₂,h₂,e₂⟩ := sdfRead_field octets (fun _ => true) 1 putSpare (fun _ f => f)
    (fun _ _ => rfl) s₁
  obtain ⟨s₃,h₃,e₃⟩ := sdfRead_field octets SdfFilter.fd 2 putDescriptionLen
    (fun b f => { f with flowDescriptionLen := (be32 b).toNat }) (fun _ _ => rfl) s₂
  have e₄:=sdfPoint_description octets s₃
  obtain ⟨s₅,h₅,e₅⟩ := sdfRead_field octets SdfFilter.ttc 2 putTosTrafficClass
    (fun b f => { f with tosTrafficClass := (be32 (b++[0,0])).setWidth 16 })
    (fun _ _ => rfl) (sdfPoint octets s₃)
  obtain ⟨s₆,h₆,e₆⟩ := sdfRead_field octets SdfFilter.spi 4 putSecurityParameterIndex
    (fun b f => { f with securityParameterIndex := be32 b }) (fun _ _ => rfl) s₅
  obtain ⟨s₇,h₇,e₇⟩ := sdfRead_field octets SdfFilter.fl 3 putFlowLabel
    (fun b f => { f with flowLabel := be32 (b++[0]) }) (fun _ _ => rfl) s₆
  obtain ⟨s₈,h₈,e₈⟩ := sdfRead_field octets SdfFilter.bid 4 putSdfFilterId
    (fun b f => { f with sdfFilterId := be32 b }) (fun _ _ => rfl) s₇
  refine ⟨s₈,?_,?_⟩
  · unfold parseSdfWithin sdfHead sdfTail
    rw [h₁,ok_bind,h₂,ok_bind,h₃,ok_bind,h₅,ok_bind,h₆,ok_bind,h₇,ok_bind,h₈]
  · unfold parseSdfFilter
    dsimp only at e₁ ⊢
    rw [← e₁,← e₂,← e₃,← e₄,← e₅,← e₆,← e₇,← e₈]

theorem sdfRead_keeps {α : Type} (view : SdfParse → α)
    (hsize : ∀ s size,view { s with size := size }=view s)
    (hput : ∀ b s,view (put b s)=view s)
    (h : sdfRead octets present len put s = .ok s') : view s'=view s := by
  unfold sdfRead at h
  split at h
  · obtain rfl := Except.ok.inj h
    rfl
  · split at h
    · split at h
      · obtain rfl := Except.ok.inj h
        exact hsize s none
      · obtain ⟨b,-,h⟩ := bind_eq_ok.mp h
        obtain rfl := Except.ok.inj h
        exact (hsize _ _).trans (hput b s)
    · obtain rfl := Except.ok.inj h
      rfl

theorem sdfTail_description (h : sdfTail octets s = .ok s') :
    s'.descriptionAt=s.descriptionAt ∧
      s'.filter.flowDescriptionLen=s.filter.flowDescriptionLen ∧
      s'.filter.flowDescription=s.filter.flowDescription := by
  obtain ⟨s₁,h₁,h⟩ := bind_eq_ok.mp h
  obtain ⟨s₂,h₂,h⟩ := bind_eq_ok.mp h
  obtain ⟨s₃,h₃,h₄⟩ := bind_eq_ok.mp h
  have hkeeps : ∀ {s s' : SdfParse} {present : SdfFilter → Bool} {len : Nat}
      {put : List Byte → SdfParse → SdfParse}, sdfRead octets present len put s = .ok s' →
      (∀ b s,(put b s).descriptionAt=s.descriptionAt ∧
        (put b s).filter.flowDescriptionLen=s.filter.flowDescriptionLen ∧
        (put b s).filter.flowDescription=s.filter.flowDescription) →
      (s'.descriptionAt,s'.filter.flowDescriptionLen,s'.filter.flowDescription) =
        (s.descriptionAt,s.filter.flowDescriptionLen,s.filter.flowDescription) :=
    fun h hput => sdfRead_keeps (fun s =>
      (s.descriptionAt,s.filter.flowDescriptionLen,s.filter.flowDescription)) (fun _ _ => rfl)
      (fun b s => by obtain ⟨h₁,h₂,h₃⟩ := hput b s; rw [h₁,h₂,h₃]) h
  have hall:=(hkeeps h₄ fun _ _ => ⟨rfl,rfl,rfl⟩).trans
    ((hkeeps h₃ fun _ _ => ⟨rfl,rfl,rfl⟩).trans
      ((hkeeps h₂ fun _ _ => ⟨rfl,rfl,rfl⟩).trans (hkeeps h₁ fun _ _ => ⟨rfl,rfl,rfl⟩)))
  simpa only [Prod.mk.injEq] using hall

theorem sdfRead_there (hs : s.size=some n) (hpresent : present s.filter=true)
    (hlong : n+len≤octets.length) : sdfRead octets present len put s =
      .ok { put ((octets.drop n).take len) s with size := some (n+len) } := by
  unfold sdfRead
  rw [hs]
  simp only
  rw [if_pos hpresent,if_neg (Nat.not_lt.mpr hlong),octetsAt_of_le hlong]
  rfl

theorem sdfRead_short (hs : s.size=some n) (hpresent : present s.filter=true)
    (hshort : octets.length<n+len) :
    sdfRead octets present len put s = .ok { s with size := none } := by
  unfold sdfRead
  rw [hs]
  simp only
  rw [if_pos hpresent,if_pos hshort]

theorem sdfRead_absent (hpresent : present s.filter=false) :
    sdfRead octets present len put s = .ok s := by
  unfold sdfRead
  split
  · rfl
  · rw [if_neg (by rw [hpresent]; exact Bool.false_ne_true)]

theorem sdfRead_none (hs : s.size=none) : sdfRead octets present len put s = .ok s := by
  unfold sdfRead
  rw [hs]

theorem sdfPoint_there (hs : s.size=some n) (hfd : s.filter.fd=true) :
    sdfPoint octets s = {
      filter := { s.filter with
        flowDescription := (octets.drop n).take s.filter.flowDescriptionLen }
      spare2 := s.spare2
      descriptionAt := some n
      size := some (n+s.filter.flowDescriptionLen) } := by
  unfold sdfPoint
  rw [hs]
  exact if_pos hfd

theorem sdfPoint_absent (hfd : s.filter.fd=false) : sdfPoint octets s=s := by
  unfold sdfPoint
  split
  · rfl
  · exact if_neg (by rw [hfd]; exact Bool.false_ne_true)

theorem take_one_headD {l : List Byte} (h : 0<l.length) : (l.take 1).headD 0=l.headD 0 := by
  cases l with
  | nil => cases h
  | cons b l => rfl

theorem sdfHead_point (h : sdfHead octets = .ok s) :
    (sdfPoint octets s).descriptionAt =
        (if (octets.headD 0).val.testBit 0=true ∧ 4≤octets.length then some 4 else none) ∧
      ((octets.headD 0).val.testBit 0=true ∧ 4≤octets.length →
        (sdfPoint octets s).filter.flowDescriptionLen =
          (be32 ((octets.drop 2).take 2)).toNat) := by
  unfold sdfHead at h
  by_cases h1 : octets.length<1
  · rw [sdfRead_short rfl rfl (by omega),ok_bind,sdfRead_none rfl,ok_bind,
      sdfRead_none rfl] at h
    obtain rfl := Except.ok.inj h
    rw [if_neg (fun hlong => by omega)]
    exact ⟨rfl,fun hlong => by omega⟩
  rw [sdfRead_there rfl rfl (by omega),ok_bind] at h
  by_cases h2 : octets.length<2
  · rw [sdfRead_short rfl rfl (by omega),ok_bind,sdfRead_none rfl] at h
    obtain rfl := Except.ok.inj h
    rw [if_neg (fun hlong => by omega)]
    exact ⟨rfl,fun hlong => by omega⟩
  rw [sdfRead_there rfl rfl (by omega),ok_bind] at h
  have hflags : ((octets.drop 0).take 1).headD 0=octets.headD 0 :=
    take_one_headD (by rw [List.drop_zero]; omega)
  cases hfd : (octets.headD 0).val.testBit 0 with
  | false =>
    have habsent : (((octets.drop 0).take 1).headD 0).val.testBit 0=false := hflags ▸ hfd
    rw [sdfRead_absent habsent] at h
    have hs:=Except.ok.inj h
    have hfd' : s.filter.fd=false := by rw [← hs]; exact habsent
    rw [if_neg (fun hlong => Bool.false_ne_true hlong.1),sdfPoint_absent hfd',← hs]
    exact ⟨rfl,fun hlong => absurd hlong.1 Bool.false_ne_true⟩
  | true =>
    have hpresent : (((octets.drop 0).take 1).headD 0).val.testBit 0=true := hflags ▸ hfd
    by_cases h4 : octets.length<4
    · rw [sdfRead_short rfl hpresent (by omega)] at h
      obtain rfl := Except.ok.inj h
      rw [if_neg (fun hlong => by omega)]
      exact ⟨rfl,fun hlong => by omega⟩
    · rw [sdfRead_there rfl hpresent (by omega)] at h
      have hs:=Except.ok.inj h
      have hfd' : s.filter.fd=true := by rw [← hs]; exact hpresent
      have hsize : s.size=some 4 := by rw [← hs]
      rw [if_pos ⟨rfl,by omega⟩,sdfPoint_there hsize hfd',← hs]
      exact ⟨rfl,fun _ => rfl⟩

theorem descriptionInside_iff (h : parseSdfWithin octets = .ok s) :
    DescriptionInside octets s ↔ DescriptionWhole octets := by
  obtain ⟨s₀,hhead,htail⟩ := bind_eq_ok.mp h
  obtain ⟨hat,hlen⟩ := sdfHead_point hhead
  obtain ⟨hat',hlen',-⟩ := sdfTail_description htail
  unfold DescriptionInside DescriptionWhole
  rw [hat',hat]
  constructor
  · intro hinside hfd h4
    rw [if_pos ⟨hfd,h4⟩,hlen'] at hinside
    rw [← hlen ⟨hfd,h4⟩]
    exact hinside 4 rfl
  · intro hwhole i hi
    split at hi
    · rename_i hlong
      obtain rfl := Option.some.inj hi
      rw [hlen',hlen hlong]
      exact hwhole hlong.1 hlong.2
    · cases hi

section Stores

variable {d d' : List Byte} {size : BitVec 16} {pieces : List (Bool × List Byte)}
  {piece : Bool × List Byte} {m : Nat}

theorem toInt_ofNat_small (h : n<2^15) : (BitVec.ofNat 16 n).toInt=n := by
  rw [BitVec.toInt_ofNat']
  simp only [Int.bmod]
  omega

theorem toInt_ofNat_large (h : 2^15≤n) (h' : n<2^16) :
    (BitVec.ofNat 16 n).toInt=(n : Int)-2^16 := by
  rw [BitVec.toInt_ofNat']
  simp only [Int.bmod]
  omega

theorem sum_small (wide : Bool) (h : n<2^63) :
    (if wide then ((BitVec.ofInt 64 (n : Int)).toNat : Int) else n)=n := by
  cases wide with
  | false => rfl
  | true =>
    rw [if_pos rfl,BitVec.toNat_ofInt]
    omega

theorem sdfPut_ok (piece : Bool × List Byte) (hn : n<2^15)
    (hlong : n+piece.2.length≤d.length)
    (hshort : d.length<2^31) :
    ∃ d',sdfPut (d,BitVec.ofNat 16 n) piece =
        .ok (d',BitVec.ofNat 16 (n+piece.2.length)) ∧ d'.length=d.length ∧
      d'.take (n+piece.2.length)=d.take n++piece.2 := by
  obtain ⟨d',hstore,hlen,htake⟩ := storeAt_of_le hlong
  refine ⟨d',?_,hlen,htake⟩
  unfold sdfPut
  simp only
  rw [toInt_ofNat_small hn,← Int.natCast_add,sum_small _ (by omega),if_pos (by omega),
    if_neg (by omega),Int.toNat_natCast,hstore,ok_bind,← BitVec.ofNat_add]

theorem sdfPut_negative (hsize : size.toInt<0) {r : List Byte × BitVec 16} :
    sdfPut (d,size) piece ≠ .ok r := by
  unfold sdfPut
  simp only
  rw [if_pos hsize]
  split <;> split <;> exact nofun

theorem pieces_negative (hsize : size.toInt<0) {r : List Byte × BitVec 16}
    (h : pieces.foldlM sdfPut (d,size) = .ok r) : r=(d,size) := by
  cases pieces with
  | nil => exact (Except.ok.inj h).symm
  | cons piece pieces =>
    obtain ⟨s,hs,-⟩ := bind_eq_ok.mp h
    exact absurd hs (sdfPut_negative hsize)

theorem length_octetsOf_cons : (octetsOf (piece::pieces)).length =
    piece.2.length+(octetsOf pieces).length := by
  unfold octetsOf
  rw [List.flatMap_cons,List.length_append]

theorem pieces_ok (pieces : List (Bool × List Byte))
    (hn : n+(octetsOf pieces).length<2^15) (hlong : n+(octetsOf pieces).length≤d.length)
    (hshort : d.length<2^31) :
    ∃ d',pieces.foldlM sdfPut (d,BitVec.ofNat 16 n) =
        .ok (d',BitVec.ofNat 16 (n+(octetsOf pieces).length)) ∧ d'.length=d.length ∧
      d'.take (n+(octetsOf pieces).length)=d.take n++octetsOf pieces := by
  induction pieces generalizing d n with
  | nil => exact ⟨d,rfl,rfl,(List.append_nil _).symm⟩
  | cons piece pieces ih =>
    rw [length_octetsOf_cons] at hn hlong ⊢
    obtain ⟨d₁,h₁,hlen₁,htake₁⟩ := sdfPut_ok piece (by omega)
      (show n+piece.2.length≤d.length by omega) hshort
    obtain ⟨d₂,h₂,hlen₂,htake₂⟩ := ih (d := d₁) (n := n+piece.2.length) (by omega)
      (by omega) (by omega)
    rw [Nat.add_assoc] at h₂ htake₂
    refine ⟨d₂,bind_eq_ok.mpr ⟨_,h₁,h₂⟩,hlen₂.trans hlen₁,?_⟩
    rw [htake₂,htake₁,List.append_assoc]
    rfl

theorem pieces_far (hn : n<2^15) (hfar : 2^15≤n+(octetsOf pieces).length)
    (hsmall : ∀ p∈pieces,p.2.length≤4) (hlong : n+(octetsOf pieces).length≤d.length)
    (hshort : d.length<2^31) {r : List Byte × BitVec 16}
    (h : pieces.foldlM sdfPut (d,BitVec.ofNat 16 n) = .ok r) :
    r.2.toInt<0 ∧ r.1.length=d.length := by
  induction pieces generalizing d n with
  | nil =>
    have hzero : (octetsOf []).length=0 := rfl
    omega
  | cons piece pieces ih =>
    rw [length_octetsOf_cons] at hfar hlong
    obtain ⟨hpiece,hsmall⟩ := List.forall_mem_cons.mp hsmall
    obtain ⟨d₁,h₁,hlen₁,-⟩ := sdfPut_ok piece hn
      (show n+piece.2.length≤d.length by omega) hshort
    obtain ⟨s,hs,h⟩ := bind_eq_ok.mp h
    obtain rfl := Except.ok.inj (h₁.symm.trans hs)
    by_cases hover : n+piece.2.length<2^15
    · rw [← hlen₁]
      exact ih hover (by omega) hsmall (by omega) (by omega) h
    · have hneg : (BitVec.ofNat 16 (n+piece.2.length)).toInt<0 := by
        rw [toInt_ofNat_large (by omega) (by omega)]
        omega
      rw [pieces_negative hneg h]
      exact ⟨hneg,hlen₁⟩

end Stores

section Parsed

variable {b wide : Bool}

theorem octetsOf_piece (b wide : Bool) (bytes : List Byte) :
    octetsOf (piecesIf b [(wide,bytes)]) = if b then bytes else [] := by
  cases b with
  | false => rfl
  | true =>
    unfold octetsOf piecesIf
    rw [if_pos rfl,if_pos rfl,List.flatMap_singleton]

theorem sdfRead_piece (present : SdfFilter → Bool) (len : Nat)
    (put : List Byte → SdfParse → SdfParse) (hs : s.size=some n) (hb : present s.filter=b)
    (hdrop : octets.drop n=octetsOf (piecesIf b [(wide,bytes)])++rest)
    (hlen : bytes.length=len) (hpos : 0<len) :
    ∃ s' m,sdfRead octets present len put s = .ok s' ∧ s'.size=some m ∧ octets.drop m=rest ∧
      s'.filter=(if b then put bytes s else s).filter ∧
      s'.spare2=(if b then put bytes s else s).spare2 := by
  rw [octetsOf_piece] at hdrop
  cases b with
  | false => exact ⟨s,n,sdfRead_absent hb,hs,hdrop,rfl,rfl⟩
  | true =>
    rw [if_pos rfl] at hdrop
    have hcount:=congrArg List.length hdrop
    rw [List.length_drop,List.length_append,hlen] at hcount
    refine ⟨_,n+len,sdfRead_there hs hb (by omega),rfl,?_,?_,?_⟩
    · rw [← List.drop_drop,hdrop,List.drop_left' hlen]
    · rw [hdrop,List.take_left' hlen]
      rfl
    · rw [hdrop,List.take_left' hlen]
      rfl

theorem sdfPoint_piece (hs : s.size=some n) (hb : s.filter.fd=b)
    (hdrop : octets.drop n=octetsOf (piecesIf b [(wide,bytes)])++rest)
    (hlen : b=true → bytes.length=s.filter.flowDescriptionLen) :
    ∃ m,(sdfPoint octets s).size=some m ∧ octets.drop m=rest ∧
      (sdfPoint octets s).filter =
        { s.filter with flowDescription := if b then bytes else s.filter.flowDescription } ∧
      (sdfPoint octets s).spare2=s.spare2 := by
  rw [octetsOf_piece] at hdrop
  cases b with
  | false =>
    rw [sdfPoint_absent hb]
    exact ⟨n,hs,hdrop,rfl,rfl⟩
  | true =>
    rw [if_pos rfl] at hdrop
    have hcount:=congrArg List.length hdrop
    rw [sdfPoint_there hs hb,hdrop,List.take_left' (hlen rfl)]
    refine ⟨_,rfl,?_,rfl,rfl⟩
    rw [← List.drop_drop,hdrop,List.drop_left' (hlen rfl)]

theorem be32_eq (l : List Byte) : be32 l=BitVec.ofNat 32 (netValue l) := by
  induction l using List.reverseRecOn with
  | nil => rfl
  | append_singleton l b ih =>
    have hfold : be32 (l++[b])=be32 l*256+BitVec.ofNat 32 b.val := by
      simp only [be32,List.foldl_append,List.foldl_cons,List.foldl_nil]
    rw [hfold,ih,netValue_append]
    apply BitVec.eq_of_toNat_eq
    simp

theorem be32_netBytes (x : BitVec 32) : be32 (netBytes 4 x.toNat)=x := by
  have hlt : x.toNat<256^4 := x.isLt
  rw [be32_eq,netValue_netBytes,Nat.mod_eq_of_lt hlt,BitVec.ofNat_toNat,BitVec.setWidth_eq]

theorem be32_netBytes_two {x : Nat} (h : x<2^16) : (be32 (netBytes 2 x)).toNat=x := by
  rw [be32_eq,netValue_netBytes,BitVec.toNat_ofNat]
  omega

theorem tosTrafficClass_lost (x : Nat) :
    (be32 (netBytes 2 x++[0,0])).setWidth 16=(0 : BitVec 16) := by
  have hsplit : netBytes 2 x++[0,0]=(netBytes 2 x++[0])++[0] := by
    rw [List.append_assoc]
    rfl
  apply BitVec.eq_of_toNat_eq
  rw [hsplit,be32_eq,netValue_append,netValue_append,BitVec.toNat_setWidth,
    BitVec.toNat_ofNat]
  show ((netValue (netBytes 2 x)*256+0)*256+0) % 2^32 % 2^16=0
  omega

theorem flowLabel_cut (x : BitVec 32) :
    (be32 ((netBytes 4 x.toNat).take 3++[0])).toNat=x.toNat / 256*256 := by
  have htake : (netBytes 4 x.toNat).take 3=netBytes 3 (x.toNat / 256) := by
    rw [netBytes_succ,List.take_left' (length_netBytes 3 _)]
  have hlt:=x.isLt
  rw [htake,be32_eq,netValue_append,netValue_netBytes,BitVec.toNat_ofNat]
  show (x.toNat / 256 % 256^3*256+0) % 2^32=_
  omega

theorem SdfValue.ie_eq (v : SdfValue) : v.ie =
    octetsOf (piecesIf true [(true,[v.filter.flags])]) ++
      (octetsOf (piecesIf true [(true,[v.spare2])]) ++
        (octetsOf (piecesIf v.filter.fd [(true,netBytes 2 v.filter.flowDescriptionLen)]) ++
          (octetsOf (piecesIf v.filter.fd [(false,v.filter.flowDescription)]) ++
            (octetsOf (piecesIf v.filter.ttc [(true,netBytes 2 v.filter.tosTrafficClass.toNat)]) ++
              (octetsOf (piecesIf v.filter.spi
                [(true,netBytes 4 v.filter.securityParameterIndex.toNat)]) ++
                (octetsOf (piecesIf v.filter.fl
                  [(false,(netBytes 4 v.filter.flowLabel.toNat).take 3)]) ++
                  (octetsOf (piecesIf v.filter.bid
                    [(true,netBytes 4 v.filter.sdfFilterId.toNat)])++[]))))))) := by
  unfold SdfValue.ie sdfPieces sdfHeadPieces sdfTailPieces octetsOf
  simp only [List.flatMap_append,List.append_assoc,List.append_nil]
  rfl

def SdfFilter.parsed (f : SdfFilter) : SdfFilter :=
  { f.sent with
    tosTrafficClass := 0
    flowLabel := if f.fl then be32 ((netBytes 4 f.flowLabel.toNat).take 3++[0]) else 0 }

theorem sdfHead_ie (v : SdfValue) (rest : List Byte) (octets : List Byte)
    (h : octets=octetsOf (piecesIf true [(true,[v.filter.flags])]) ++
      (octetsOf (piecesIf true [(true,[v.spare2])]) ++
        (octetsOf (piecesIf v.filter.fd [(true,netBytes 2 v.filter.flowDescriptionLen)]) ++
          rest))) :
    ∃ s n,sdfHead octets = .ok s ∧ s.size=some n ∧ octets.drop n=rest ∧
      s.filter = { SdfFilter.zero with
        flags := v.filter.flags
        flowDescriptionLen := if v.filter.fd then v.filter.flowDescriptionLen else 0 } ∧
      s.spare2=v.spare2 := by
  obtain ⟨s₁,n₁,h₁,hs₁,hd₁,hf₁,hp₁⟩ := sdfRead_piece (fun _ => true) 1 putFlags
    (s := ⟨.zero,0,none,some 0⟩) rfl rfl (List.drop_zero.trans h) rfl Nat.one_pos
  obtain ⟨s₂,n₂,h₂,hs₂,hd₂,hf₂,hp₂⟩ := sdfRead_piece (fun _ => true) 1 putSpare hs₁ rfl hd₁
    rfl Nat.one_pos
  have hflags : s₂.filter = { SdfFilter.zero with flags := v.filter.flags } := hf₂.trans hf₁
  have hfd : s₂.filter.fd=v.filter.fd := by
    rw [hflags]
    rfl
  obtain ⟨s₃,n₃,h₃,hs₃,hd₃,hf₃,hp₃⟩ := sdfRead_piece SdfFilter.fd 2 putDescriptionLen hs₂ hfd
    hd₂ (length_netBytes 2 _) (Nat.succ_pos 1)
  refine ⟨s₃,n₃,?_,hs₃,hd₃,?_,?_⟩
  · unfold sdfHead
    rw [h₁,ok_bind,h₂,ok_bind,h₃]
  · rw [hf₃]
    cases v.filter.fd with
    | false => exact hflags
    | true =>
      rw [if_pos rfl,if_pos rfl]
      unfold putDescriptionLen
      rw [hflags,be32_netBytes_two v.short]
  · rw [hp₃]
    have hspare : s₂.spare2=v.spare2 := hp₂
    cases v.filter.fd with
    | false => exact hspare
    | true => exact hspare

theorem sdfTail_ie (f : SdfFilter) (octets : List Byte) (hs : s.size=some n)
    (hflags : s.filter.flags=f.flags) (htos : s.filter.tosTrafficClass=0)
    (hspi : s.filter.securityParameterIndex=0) (hlabel : s.filter.flowLabel=0)
    (hid : s.filter.sdfFilterId=0)
    (hdrop : octets.drop n =
      octetsOf (piecesIf f.ttc [(true,netBytes 2 f.tosTrafficClass.toNat)]) ++
        (octetsOf (piecesIf f.spi [(true,netBytes 4 f.securityParameterIndex.toNat)]) ++
          (octetsOf (piecesIf f.fl [(false,(netBytes 4 f.flowLabel.toNat).take 3)]) ++
            (octetsOf (piecesIf f.bid [(true,netBytes 4 f.sdfFilterId.toNat)])++[])))) :
    ∃ s',sdfTail octets s = .ok s' ∧ s'.spare2=s.spare2 ∧
      s'.filter = { f.parsed with
        flowDescriptionLen := s.filter.flowDescriptionLen
        flowDescription := s.filter.flowDescription } := by
  have hthree : ((netBytes 4 f.flowLabel.toNat).take 3).length=3 := by
    rw [List.length_take,length_netBytes]
    rfl
  have hsame : ∀ {s : SdfParse}, s.filter.flags=f.flags →
      s.filter.ttc=f.ttc ∧ s.filter.spi=f.spi ∧ s.filter.fl=f.fl ∧ s.filter.bid=f.bid := by
    intro s h
    unfold SdfFilter.ttc SdfFilter.spi SdfFilter.fl SdfFilter.bid
    rw [h]
    exact ⟨rfl,rfl,rfl,rfl⟩
  obtain ⟨s₁,n₁,h₁,hs₁,hd₁,hf₁,hp₁⟩ := sdfRead_piece SdfFilter.ttc 2 putTosTrafficClass hs
    (hsame hflags).1 hdrop (length_netBytes 2 _) (Nat.succ_pos 1)
  have hf₁ : s₁.filter=s.filter := by
    rw [hf₁]
    cases f.ttc with
    | false => rfl
    | true =>
      rw [if_pos rfl]
      unfold putTosTrafficClass
      rw [tosTrafficClass_lost,← htos]
  obtain ⟨s₂,n₂,h₂,hs₂,hd₂,hf₂,hp₂⟩ := sdfRead_piece SdfFilter.spi 4
    putSecurityParameterIndex hs₁ (hsame (hf₁ ▸ hflags)).2.1 hd₁ (length_netBytes 4 _)
    (Nat.succ_pos 3)
  have hf₂ : s₂.filter = { s.filter with
      securityParameterIndex := if f.spi then f.securityParameterIndex else 0 } := by
    rw [hf₂]
    cases f.spi with
    | false => rw [if_neg Bool.false_ne_true,if_neg Bool.false_ne_true,hf₁,← hspi]
    | true =>
      rw [if_pos rfl,if_pos rfl]
      unfold putSecurityParameterIndex
      rw [be32_netBytes,hf₁]
  obtain ⟨s₃,n₃,h₃,hs₃,hd₃,hf₃,hp₃⟩ := sdfRead_piece SdfFilter.fl 3 putFlowLabel hs₂
    (hsame (by rw [hf₂]; exact hflags)).2.2.1 hd₂ hthree (Nat.succ_pos 2)
  have hf₃ : s₃.filter = { s.filter with
      securityParameterIndex := if f.spi then f.securityParameterIndex else 0
      flowLabel := if f.fl then be32 ((netBytes 4 f.flowLabel.toNat).take 3++[0]) else 0 } := by
    rw [hf₃]
    cases f.fl with
    | false => rw [if_neg Bool.false_ne_true,if_neg Bool.false_ne_true,hf₂,← hlabel]
    | true =>
      rw [if_pos rfl,if_pos rfl]
      unfold putFlowLabel
      rw [hf₂]
  obtain ⟨s₄,n₄,h₄,-,-,hf₄,hp₄⟩ := sdfRead_piece SdfFilter.bid 4 putSdfFilterId hs₃
    (hsame (by rw [hf₃]; exact hflags)).2.2.2 hd₃ (length_netBytes 4 _) (Nat.succ_pos 3)
  have hspare : ∀ {b : Bool} {x y : SdfParse}, x.spare2=y.spare2 →
      (if b then x else y).spare2=y.spare2 := by
    intro b x y h
    cases b with
    | false => rfl
    | true => exact h
  refine ⟨s₄,?_,?_,?_⟩
  · unfold sdfTail
    rw [h₁,ok_bind,h₂,ok_bind,h₃,ok_bind,h₄]
  · exact (hp₄.trans (hspare rfl)).trans ((hp₃.trans (hspare rfl)).trans
      ((hp₂.trans (hspare rfl)).trans (hp₁.trans (hspare rfl))))
  · rw [hf₄]
    unfold SdfFilter.parsed SdfFilter.sent
    cases f.bid with
    | false => simp only [Bool.false_eq_true,if_false,hf₃,hflags,htos,hid]
    | true => simp only [if_true,putSdfFilterId,be32_netBytes,hf₃,hflags,htos]

/-- What is parsed of the IE of a filter: all but the ToS or traffic class, and of a flow label
its upper octets. -/
theorem parseSdfWithin_ie (v : SdfValue) :
    ∃ s,parseSdfWithin v.ie = .ok s ∧ s.filter=v.filter.parsed ∧ s.spare2=v.spare2 := by
  obtain ⟨s₀,n₀,h₀,hs₀,hd₀,hf₀,hp₀⟩ := sdfHead_ie v _ v.ie v.ie_eq
  have hfd : s₀.filter.fd=v.filter.fd := by
    rw [hf₀]
    rfl
  obtain ⟨n₁,hs₁,hd₁,hf₁,hp₁⟩ := sdfPoint_piece hs₀ hfd hd₀ (by
    intro hb
    rw [hf₀,hb,if_pos rfl]
    exact v.described hb)
  obtain ⟨s,h,hp,hf⟩ := sdfTail_ie v.filter v.ie hs₁ (by rw [hf₁,hf₀]) (by rw [hf₁,hf₀]; rfl)
    (by rw [hf₁,hf₀]; rfl) (by rw [hf₁,hf₀]; rfl) (by rw [hf₁,hf₀]; rfl) hd₁
  refine ⟨s,?_,?_,?_⟩
  · unfold parseSdfWithin
    rw [h₀,ok_bind,h]
  · rw [hf,hf₁,hf₀]
    rfl
  · rw [hp,hp₁,hp₀]

end Parsed

section Built

variable {v : SdfValue} {buf : Buffer} {d : List Byte} {size : BitVec 16} {length : BitVec 32}

theorem signExtend_small (h : n<2^15) :
    ((BitVec.ofNat 16 n).signExtend 32).toNat=n := by
  have hint : ((BitVec.ofNat 16 n).signExtend 32).toInt=n := by
    rw [BitVec.toInt_signExtend_of_le (by decide),toInt_ofNat_small h]
  rw [BitVec.toInt_eq_toNat_cond] at hint
  split at hint <;> omega

theorem signExtend_negative (h : size.toInt<0) : 2^31≤(size.signExtend 32).toNat := by
  have hint : (size.signExtend 32).toInt=size.toInt :=
    BitVec.toInt_signExtend_of_le (by decide)
  rw [BitVec.toInt_eq_toNat_cond] at hint
  split at hint <;> omega

theorem length_sdfHeadPieces (f : SdfFilter) (spare2 : Byte) :
    (octetsOf (sdfHeadPieces f spare2)).length = if f.fd then 4 else 2 := by
  unfold sdfHeadPieces octetsOf piecesIf
  cases f.fd with
  | false => rfl
  | true => simp [length_netBytes]

theorem sdfTailPieces_small (f : SdfFilter) : ∀ p∈sdfTailPieces f,p.2.length≤4 := by
  have hif : ∀ {b wide : Bool} {bytes : List Byte}, bytes.length≤4 →
      ∀ p∈piecesIf b [(wide,bytes)],p.2.length≤4 := by
    intro b wide bytes hbytes p hp
    cases b with
    | false => cases hp
    | true =>
      obtain rfl := List.mem_singleton.mp hp
      exact hbytes
  unfold sdfTailPieces
  intro p hp
  rw [List.mem_append,List.mem_append,List.mem_append] at hp
  rcases hp with hp | hp | hp | hp
  · exact hif (by rw [length_netBytes]; omega) p hp
  · exact hif (by rw [length_netBytes]) p hp
  · exact hif (by rw [List.length_take,length_netBytes]; omega) p hp
  · exact hif (by rw [length_netBytes]) p hp

theorem length_sdfTailPieces (f : SdfFilter) : (octetsOf (sdfTailPieces f)).length≤13 := by
  have hif : ∀ (b wide : Bool) (bytes : List Byte),
      (octetsOf (piecesIf b [(wide,bytes)])).length≤bytes.length := by
    intro b wide bytes
    rw [octetsOf_piece]
    cases b with
    | false => exact Nat.zero_le _
    | true => exact Nat.le_refl _
  have h₁:=hif f.ttc true (netBytes 2 f.tosTrafficClass.toNat)
  have h₂:=hif f.spi true (netBytes 4 f.securityParameterIndex.toNat)
  have h₃:=hif f.fl false ((netBytes 4 f.flowLabel.toNat).take 3)
  have h₄:=hif f.bid true (netBytes 4 f.sdfFilterId.toNat)
  rw [length_netBytes] at h₁ h₂ h₄
  rw [List.length_take,length_netBytes] at h₃
  unfold sdfTailPieces octetsOf at *
  simp only [List.flatMap_append,List.length_append]
  omega

theorem SdfValue.length_ie (v : SdfValue) : v.ie.length =
    (octetsOf (sdfHeadPieces v.filter v.spare2)).length +
      (if v.filter.fd then v.filter.flowDescription.length else 0) +
        (octetsOf (sdfTailPieces v.filter)).length := by
  unfold SdfValue.ie sdfPieces
  have happend : ∀ a b,octetsOf (a++b)=octetsOf a++octetsOf b := fun a b =>
    List.flatMap_append
  rw [happend,happend,List.length_append,List.length_append,octetsOf_piece,← Nat.add_assoc]
  cases v.filter.fd <;> rfl

theorem buildSdfFilter_short (hroom : v.ie.length≤buf.data.length)
    (hlong : v.ie.length<2^15) :
    ∃ d length,buildSdfFilter v buf = .ok (d,length) ∧ length.toNat=v.ie.length ∧
      length.toNat≤d.length ∧ d.take length.toNat=v.ie := by
  have hpos : 2≤v.ie.length := by
    rw [v.length_ie,length_sdfHeadPieces]
    split <;> omega
  have hne : buf.data≠[] := fun hnil => by
    rw [hnil,List.length_nil] at hroom
    omega
  obtain ⟨d,hd,hlen,htake⟩ := pieces_ok (sdfPieces v.filter v.spare2) (n := 0)
    (d := buf.data) (by rw [Nat.zero_add]; exact hlong)
    (by rw [Nat.zero_add]; exact hroom) buf.short
  rw [Nat.zero_add] at hd htake
  have hsize : ((BitVec.ofNat 16 v.ie.length).signExtend 32).toNat=v.ie.length :=
    signExtend_small hlong
  refine ⟨d,(BitVec.ofNat 16 v.ie.length).signExtend 32,?_,hsize,?_,?_⟩
  · unfold buildSdfFilter
    rw [if_neg hne]
    exact bind_eq_ok.mpr ⟨_,hd,rfl⟩
  · rw [hsize,hlen]
    exact hroom
  · rw [hsize]
    exact htake

theorem buildSdfFilter_long (hroom : v.ie.length≤buf.data.length)
    (hlong : 2^15≤v.ie.length) (h : buildSdfFilter v buf = .ok (d,length))
    (hin : length.toNat≤d.length) :
    v.filter.fd=true ∧ length.toNat<v.filter.flowDescription.length := by
  have htail:=length_sdfTailPieces v.filter
  have hie:=v.length_ie
  rw [length_sdfHeadPieces] at hie
  cases hfd : v.filter.fd with
  | false =>
    rw [hfd,if_neg Bool.false_ne_true,if_neg Bool.false_ne_true] at hie
    omega
  | true =>
    refine ⟨rfl,?_⟩
    rw [hfd,if_pos rfl,if_pos rfl] at hie
    have hfour : (octetsOf (sdfHeadPieces v.filter v.spare2)).length=4 := by
      rw [length_sdfHeadPieces,hfd,if_pos rfl]
    have hdesc:=v.described hfd
    have hshort:=v.short
    have hbuf:=buf.short
    unfold buildSdfFilter at h
    split at h
    · cases h
    obtain ⟨r,hr,h⟩ := bind_eq_ok.mp h
    obtain ⟨rfl,rfl⟩ := Prod.mk.inj (Except.ok.inj h)
    unfold sdfPieces at hr
    rw [hfd,List.foldlM_append] at hr
    obtain ⟨d₁,h₁,hlen₁,-⟩ := pieces_ok (sdfHeadPieces v.filter v.spare2) (n := 0)
      (d := buf.data) (by omega) (by omega) hbuf
    rw [hfour,Nat.zero_add] at h₁
    obtain ⟨r₁,hr₁,hr⟩ := bind_eq_ok.mp hr
    obtain rfl := Except.ok.inj (h₁.symm.trans hr₁)
    have hroom : 4+v.filter.flowDescription.length≤d₁.length := by omega
    obtain ⟨d₂,h₂,hlen₂,-⟩ := sdfPut_ok (false,v.filter.flowDescription) (by omega) hroom
      (by omega)
    obtain ⟨r₂,hr₂,hr⟩ := bind_eq_ok.mp hr
    obtain rfl := Except.ok.inj (h₂.symm.trans hr₂)
    -- no size that came out negative is a length in the buffer
    have hnot : ∀ (r : List Byte × BitVec 16),r.2.toInt<0 → r.1.length=buf.data.length →
        ¬ (r.2.signExtend 32).toNat ≤ r.1.length := by
      intro r hneg hlen
      have hbig:=signExtend_negative hneg
      omega
    by_cases hsmall : 4+v.filter.flowDescription.length<2^15
    · obtain ⟨hneg,hlen⟩ := pieces_far hsmall (by omega) (sdfTailPieces_small v.filter)
        (show _≤d₂.length by omega) (by omega) hr
      exact absurd hin (hnot r hneg (by omega))
    · by_cases hover : 4+v.filter.flowDescription.length<2^16
      · have hneg : (BitVec.ofNat 16 (4+v.filter.flowDescription.length)).toInt<0 := by
          rw [toInt_ofNat_large (by omega) hover]
          omega
        rw [pieces_negative hneg hr] at hin
        exact absurd hin (hnot _ hneg (show d₂.length=buf.data.length by omega))
      · -- the size begins anew, and what follows is stored over the header
        have hwrap : BitVec.ofNat 16 (4+v.filter.flowDescription.length) =
            BitVec.ofNat 16 (4+v.filter.flowDescription.length-2^16) := by
          apply BitVec.eq_of_toNat_eq
          rw [BitVec.toNat_ofNat,BitVec.toNat_ofNat]
          omega
        rw [hwrap] at hr
        obtain ⟨d₃,h₃,-,-⟩ := pieces_ok (sdfTailPieces v.filter) (d := d₂)
          (n := 4+v.filter.flowDescription.length-2^16) (by omega) (by omega) (by omega)
        obtain rfl := Except.ok.inj (h₃.symm.trans hr)
        rw [signExtend_small (by omega)]
        omega

end Built

theorem parseSdfWithin_description (h : parseSdfWithin octets = .ok s) :
    s.filter.flowDescription.length≤octets.length := by
  obtain ⟨s₀,hhead,htail⟩ := bind_eq_ok.mp h
  rw [(sdfTail_description htail).2.2]
  obtain ⟨s₁,h₁,hhead⟩ := bind_eq_ok.mp hhead
  obtain ⟨s₂,h₂,h₃⟩ := bind_eq_ok.mp hhead
  have hkeeps : ∀ {s s' : SdfParse} {present : SdfFilter → Bool} {len : Nat}
      {put : List Byte → SdfParse → SdfParse}, sdfRead octets present len put s = .ok s' →
      (∀ b s,(put b s).filter.flowDescription=s.filter.flowDescription) →
      s'.filter.flowDescription=s.filter.flowDescription := fun h hput =>
    sdfRead_keeps (fun s => s.filter.flowDescription) (fun _ _ => rfl) hput h
  have hnone : s₀.filter.flowDescription=[] := by
    rw [hkeeps h₃ fun _ _ => rfl,hkeeps h₂ fun _ _ => rfl,hkeeps h₁ fun _ _ => rfl]
    rfl
  cases hfd : s₀.filter.fd with
  | false =>
    rw [sdfPoint_absent hfd,hnone]
    exact Nat.zero_le _
  | true =>
    cases hsize : s₀.size with
    | none =>
      unfold sdfPoint
      rw [hsize,hnone]
      exact Nat.zero_le _
    | some n =>
      rw [sdfPoint_there hsize hfd]
      show ((octets.drop n).take _).length≤_
      rw [List.length_take,List.length_drop]
      omega

theorem parsed_eq_sent (f : SdfFilter) : f.parsed=f.sent ↔
    (f.ttc=true → f.tosTrafficClass=0) ∧ (f.fl=true → f.flowLabel.toNat % 256=0) := by
  have hlabel : be32 ((netBytes 4 f.flowLabel.toNat).take 3++[0])=f.flowLabel ↔
      f.flowLabel.toNat % 256=0 := by
    have hcut:=flowLabel_cut f.flowLabel
    constructor
    · intro h
      rw [h] at hcut
      omega
    · intro h
      apply BitVec.eq_of_toNat_eq
      omega
  constructor
  · intro h
    have htos:=congrArg SdfFilter.tosTrafficClass h
    have hfl:=congrArg SdfFilter.flowLabel h
    simp only [SdfFilter.parsed,SdfFilter.sent] at htos hfl
    refine ⟨fun ht => ?_,fun hl => ?_⟩
    · rw [if_pos ht] at htos
      exact htos.symm
    · rw [if_pos hl,if_pos hl] at hfl
      exact hlabel.mp hfl
  · rintro ⟨htos,hfl⟩
    have htos' : (0 : BitVec 16) = if f.ttc then f.tosTrafficClass else 0 := by
      split
      · rename_i ht
        exact (htos ht).symm
      · rfl
    have hfl' : (if f.fl then be32 ((netBytes 4 f.flowLabel.toNat).take 3++[0]) else 0) =
        if f.fl then f.flowLabel else 0 := by
      split
      · rename_i hl
        exact hlabel.mpr (hfl hl)
      · rfl
    unfold SdfFilter.parsed
    rw [hfl']
    unfold SdfFilter.sent
    simp only [← htos']

theorem sdfComesBack_iff {v : SdfValue} {buf : Buffer} (hroom : v.ie.length≤buf.data.length) :
    SdfComesBack v buf ↔ SdfKept v := by
  constructor
  · rintro ⟨d,length,hbuild,hin,s,hparse,hfilter,-⟩
    have hlong : v.ie.length<2^15 := by
      refine Nat.not_le.mp fun hlong => ?_
      obtain ⟨hfd,hshort⟩ := buildSdfFilter_long hroom hlong hbuild hin
      have hdesc:=parseSdfWithin_description hparse
      have hsame : s.filter.flowDescription=v.filter.flowDescription := by
        rw [hfilter]
        exact if_pos hfd
      rw [hsame,List.length_take] at hdesc
      omega
    obtain ⟨d',length',hbuild',-,-,htake⟩ := buildSdfFilter_short hroom hlong
    obtain ⟨rfl,rfl⟩ := Prod.mk.inj (Except.ok.inj (hbuild'.symm.trans hbuild))
    obtain ⟨s',hparse',hfilter',-⟩ := parseSdfWithin_ie v
    rw [htake] at hparse
    obtain rfl := Except.ok.inj (hparse'.symm.trans hparse)
    obtain ⟨htos,hlabel⟩ := (parsed_eq_sent v.filter).mp (hfilter'.symm.trans hfilter)
    exact ⟨hlong,htos,hlabel⟩
  · intro h
    obtain ⟨d,length,hbuild,-,hin,htake⟩ := buildSdfFilter_short hroom h.long
    obtain ⟨s,hparse,hfilter,hspare⟩ := parseSdfWithin_ie v
    refine ⟨d,length,hbuild,hin,s,?_,?_,hspare⟩
    · rw [htake]
      exact hparse
    · rw [hfilter]
      exact (parsed_eq_sent v.filter).mpr ⟨h.tosTrafficClass,h.flowLabel⟩

/-- A filter comes back from a buffer it fits in exactly if its length is one of the `int16_t`, its
ToS or traffic class is zero and so is the last octet of its flow label. Of any octets only those
of the IE are read, and the description lies in the IE exactly if the IE has all of it. -/
theorem sdf_filter_codec (v : SdfValue) (buf : Buffer) (octets : List Byte) :
    (v.ie.length≤buf.data.length → (SdfComesBack v buf ↔ SdfKept v)) ∧
    ∃ s,parseSdfWithin octets = .ok s ∧
      (DescriptionInside octets s ↔ DescriptionWhole octets) := by
  refine ⟨fun hroom => sdfComesBack_iff hroom,?_⟩
  obtain ⟨s,hs,-⟩ := parseSdfWithin_ok octets
  exact ⟨s,hs,descriptionInside_iff hs⟩

def anyFlow : SdfValue where
  filter := ⟨17,29,ascii "permit out ip from any to any",0,0,0,5⟩
  spare2 := 0
  described := by decide
  short := by decide

def zeroBuffer : Buffer := ⟨List.replicate 64 0,by decide⟩

theorem sdf_filter_codec_any_flow :
    anyFlow.ie.length≤zeroBuffer.data.length ∧ SdfComesBack anyFlow zeroBuffer := by
  have hroom : anyFlow.ie.length≤zeroBuffer.data.length := by decide
  exact ⟨hroom,((sdf_filter_codec anyFlow zeroBuffer []).1 hroom).mpr ⟨by decide,nofun,nofun⟩⟩

def markedFlow : SdfValue := ⟨⟨2,0,[],0xb8fc,0,0,0⟩,0,nofun,by decide⟩
def labelledFlow : SdfValue := ⟨⟨8,0,[],0,0,1,0⟩,0,nofun,by decide⟩

/-- A traffic class and a flow label that are lost, and a description of five octets behind the end
of its IE. -/
theorem sdf_filter_codec_lost :
    ¬ SdfComesBack markedFlow zeroBuffer ∧ ¬ SdfComesBack labelledFlow zeroBuffer ∧
      ∃ s,parseSdfWithin [1,0,0,5] = .ok s ∧ ¬ DescriptionInside [1,0,0,5] s := by
  refine ⟨fun h => ?_,fun h => ?_,?_⟩
  · have hkept:=(sdfComesBack_iff (by decide)).mp h
    exact absurd (hkept.tosTrafficClass rfl) (by decide)
  · have hkept:=(sdfComesBack_iff (by decide)).mp h
    exact absurd (hkept.flowLabel rfl) (by decide)
  · obtain ⟨s,hs,-⟩ := parseSdfWithin_ok [1,0,0,5]
    refine ⟨s,hs,fun hinside => ?_⟩
    exact absurd ((descriptionInside_iff hs).mp hinside (by decide) (by decide)) (by decide)

end OgsDp.Pfcp
