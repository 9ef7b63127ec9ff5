import OgsDp.Core.Octets

/-!
# NSSAI (lib/nas/5gs/types.c)

An S-NSSAI is its length and parts that only this length tells apart. Where the length is none of
the five, the parser stays where it is and counts the element all the same.
-/

namespace OgsDp.Nas
open OgsDp.Core Lib Option

def maxNssaiLen : Nat := 142
def maxNumOfSlice : Nat := 8
def noSdValue : BitVec 24 := 0xffffff

structure SNssaiIe where
  sst : Byte
  sd : BitVec 24
  mappedHplmnSst : Option Byte
  mappedHplmnSd : BitVec 24
  deriving DecidableEq

structure Nssai where
  length : Nat
  buffer : Vector Byte maxNssaiLen
  deriving DecidableEq

def sdBytes (sd : BitVec 24) : List Byte := netBytes 3 sd.toNat

def sNssaiBytes (ie : SNssaiIe) : List Byte :=
  [ie.sst] ++
    ((if ie.sd≠noSdValue ∨ ie.sd=noSdValue ∧ ie.mappedHplmnSst.isSome ∧
        ie.mappedHplmnSd≠noSdValue then sdBytes ie.sd else []) ++
      (ie.mappedHplmnSst.toList ++
        if ie.mappedHplmnSd≠noSdValue then sdBytes ie.mappedHplmnSd else []))

def elementBytes (ie : SNssaiIe) : List Byte :=
  Fin.ofNat 256 (sNssaiBytes ie).length::sNssaiBytes ie

/-- `memcpy` into the buffer. -/
def overwrite {n : Nat} (buffer : Vector Byte n) (pos : Nat) (bytes : List Byte)
    (h : pos+bytes.length≤n) : Vector Byte n :=
  ⟨(buffer.toList.take pos++(bytes++buffer.toList.drop (pos+bytes.length))).toArray,by
    simp only [List.size_toArray,List.length_append,List.length_take,List.length_drop,
      Vector.length_toList]
    omega⟩

def putSNssai (n : Nssai) (ie : SNssaiIe) : Except Fault Nssai :=
  if n.length < maxNssaiLen then
    if h : n.length+(elementBytes ie).length ≤ maxNssaiLen then
      .ok ⟨n.length+(elementBytes ie).length,
        overwrite n.buffer n.length (elementBytes ie) h⟩
    else .error .write
  else .ok n

def buildNssai (n : Nssai) (ies : List SNssaiIe) : Except Fault Nssai :=
  if ies=[] then .error .assertion else ies.foldlM putSNssai n

/-- `n` octets from `pos` on of what is in memory from `buffer` on. -/
def slice (mem : Nat → Byte) : Nat → Nat → List Byte
  | _, 0 => []
  | pos, n+1 => mem pos::slice mem (pos+1) n

def sdAt (mem : Nat → Byte) (pos : Nat) : BitVec 24 := BitVec.ofNat 24 (netValue (slice mem pos 3))

structure SNssaiParts where
  sd : Bool
  mappedHplmnSst : Bool
  mappedHplmnSd : Bool

def sNssaiParts : Nat → Option SNssaiParts
  | 1 => some ⟨false,false,false⟩
  | 2 => some ⟨false,true,false⟩
  | 4 => some ⟨true,false,false⟩
  | 5 => some ⟨true,true,false⟩
  | 8 => some ⟨true,true,true⟩
  | _ => none

/-- `ogs_nas_parse_s_nssai`: what it returns, and the element. -/
def parseSNssai (mem : Nat → Byte) (pos : Nat) : Nat × SNssaiIe :=
  match sNssaiParts (mem pos).val with
  | none => (0,⟨0,noSdValue,none,noSdValue⟩)
  | some parts =>
    let mapped := if parts.sd then pos+5 else pos+2
    ((mem pos).val+1,{
      sst := mem (pos+1)
      sd := if parts.sd then sdAt mem (pos+2) else noSdValue
      mappedHplmnSst := if parts.mappedHplmnSst then some (mem mapped) else none
      mappedHplmnSd := if parts.mappedHplmnSd then sdAt mem (mapped+1) else noSdValue })

/-- The loop of `ogs_nas_parse_nssai`: the elements, each with where it was parsed. -/
def parseElements (mem : Nat → Byte) (length : Nat) : Nat → Nat → List (Nat × SNssaiIe)
  | 0, _ => []
  | room+1, pos =>
    if pos<length then
      (pos,(parseSNssai mem pos).2) ::
        parseElements mem length room (pos+(parseSNssai mem pos).1)
    else []

/-- `ogs_nas_parse_nssai` of `length` octets; in memory there is more behind them. -/
def parseNssai (length : Nat) (mem : Nat → Byte) : List (Nat × SNssaiIe) :=
  if length=0 then [] else parseElements mem length maxNumOfSlice 0

variable {mem : Nat → Byte} {pos length room m n : Nat} {b : Byte} {l l' : List Byte}
  {ie : SNssaiIe} {ies : List SNssaiIe}

def Lies (mem : Nat → Byte) (pos : Nat) (l : List Byte) : Prop := slice mem pos l.length=l

@[simp] theorem length_slice (mem : Nat → Byte) (pos n : Nat) : (slice mem pos n).length=n := by
  induction n generalizing pos with
  | zero => rfl
  | succ n ih => rw [slice,List.length_cons,ih]

theorem slice_add (mem : Nat → Byte) (pos m n : Nat) :
    slice mem pos (m+n)=slice mem pos m++slice mem (pos+m) n := by
  induction m generalizing pos with
  | zero =>
    rw [Nat.zero_add]
    rfl
  | succ m ih =>
    have hadd : m+1+n=m+n+1 := by omega
    have hpos : pos+(m+1)=pos+1+m := by omega
    rw [hadd,slice,ih,hpos]
    rfl

theorem lies_cons : Lies mem pos (b::l) ↔ mem pos=b ∧ Lies mem (pos+1) l := List.cons_eq_cons

theorem lies_append : Lies mem pos (l++l') ↔ Lies mem pos l ∧ Lies mem (pos+l.length) l' := by
  unfold Lies
  rw [List.length_append,slice_add]
  constructor
  · intro h
    exact List.append_inj h (length_slice mem pos l.length)
  · rintro ⟨h,h'⟩
    rw [h,h']

theorem lies_slice (mem : Nat → Byte) (pos n : Nat) : Lies mem pos (slice mem pos n) := by
  rw [Lies,length_slice]

theorem sdAt_of_lies {sd : BitVec 24} (h : Lies mem pos (sdBytes sd)) : sdAt mem pos=sd := by
  unfold Lies sdBytes at h
  rw [length_netBytes] at h
  have hlt:=sd.isLt
  have hmod : sd.toNat % 256^3=sd.toNat := Nat.mod_eq_of_lt hlt
  rw [sdAt,h,netValue_netBytes,hmod,BitVec.ofNat_toNat,BitVec.setWidth_eq]

def SNssaiIe.Sound (ie : SNssaiIe) : Prop :=
  ie.mappedHplmnSst=none → ie.mappedHplmnSd=noSdValue

instance (ie : SNssaiIe) : Decidable ie.Sound := inferInstanceAs (Decidable (_ → _))

theorem length_sdBytes (sd : BitVec 24) : (sdBytes sd).length=3 := length_netBytes 3 _

theorem length_elementBytes (ie : SNssaiIe) :
    2≤(elementBytes ie).length ∧ (elementBytes ie).length≤9 := by
  have hsst : ie.mappedHplmnSst.toList.length≤1 := by
    cases ie.mappedHplmnSst with
    | none => exact Nat.zero_le 1
    | some sst => exact Nat.le_refl 1
  unfold elementBytes sNssaiBytes
  simp only [List.length_cons,List.length_append,List.length_nil]
  split <;> split <;> simp only [length_sdBytes,List.length_nil] <;> omega

theorem parseSNssai_parts {k : Byte} {parts : SNssaiParts} (hlen : mem pos=k)
    (hparts : sNssaiParts k.val=some parts) :
    parseSNssai mem pos=(k.val+1,{
      sst := mem (pos+1)
      sd := if parts.sd then sdAt mem (pos+2) else noSdValue
      mappedHplmnSst :=
        if parts.mappedHplmnSst then some (mem (if parts.sd then pos+5 else pos+2)) else none
      mappedHplmnSd :=
        if parts.mappedHplmnSd then sdAt mem ((if parts.sd then pos+5 else pos+2)+1)
        else noSdValue }) := by
  unfold parseSNssai
  rw [hlen,hparts]

theorem elementBytes_of {bytes : List Byte} {k : Nat} (h : sNssaiBytes ie=bytes)
    (hk : bytes.length=k) :
    elementBytes ie=Fin.ofNat 256 k::bytes ∧ (elementBytes ie).length=k+1 := by
  rw [elementBytes,h,hk]
  exact ⟨rfl,congrArg Nat.succ hk⟩

theorem parseSNssai_element (hs : ie.Sound) (h : Lies mem pos (elementBytes ie)) :
    parseSNssai mem pos=((elementBytes ie).length,ie) := by
  obtain ⟨sst,sd,mappedSst,mappedSd⟩ := ie
  cases mappedSst with
  | none =>
    obtain rfl : mappedSd=noSdValue := hs rfl
    by_cases hsd : sd=noSdValue
    · subst hsd
      obtain ⟨hlen,h⟩ := lies_cons.mp (show Lies mem pos [1,sst] from h)
      obtain ⟨hsst,-⟩ := lies_cons.mp h
      rw [parseSNssai_parts hlen rfl,hsst]
      rfl
    · have hbytes : sNssaiBytes ⟨sst,sd,none,noSdValue⟩=sst::sdBytes sd := by
        unfold sNssaiBytes
        rw [if_pos (.inl hsd),if_neg (not_not.mpr rfl)]
        simp only [toList_none,List.append_nil,List.singleton_append]
      obtain ⟨helement,hlength⟩ := elementBytes_of (k := 4) hbytes (by
        rw [List.length_cons,length_sdBytes])
      rw [helement] at h
      rw [hlength]
      obtain ⟨hlen,h⟩ := lies_cons.mp h
      obtain ⟨hsst,h⟩ := lies_cons.mp h
      rw [parseSNssai_parts (k := 4) hlen rfl,hsst]
      simp only [if_true,Bool.false_eq_true,if_false]
      rw [sdAt_of_lies h]
      rfl
  | some m =>
    by_cases hmapped : mappedSd=noSdValue
    · subst hmapped
      by_cases hsd : sd=noSdValue
      · subst hsd
        obtain ⟨hlen,h⟩ := lies_cons.mp (show Lies mem pos [2,sst,m] from h)
        obtain ⟨hsst,h⟩ := lies_cons.mp h
        obtain ⟨hm,-⟩ := lies_cons.mp h
        rw [parseSNssai_parts hlen rfl,hsst]
        simp only [if_true,Bool.false_eq_true,if_false]
        rw [hm]
        rfl
      · have hbytes : sNssaiBytes ⟨sst,sd,some m,noSdValue⟩=sst::(sdBytes sd++[m]) := by
          unfold sNssaiBytes
          rw [if_pos (.inl hsd),if_neg (not_not.mpr rfl)]
          simp only [toList_some,List.append_nil,List.singleton_append]
        obtain ⟨helement,hlength⟩ := elementBytes_of (k := 5) hbytes (by
          rw [List.length_cons,List.length_append,length_sdBytes,List.length_singleton])
        rw [helement] at h
        rw [hlength]
        obtain ⟨hlen,h⟩ := lies_cons.mp h
        obtain ⟨hsst,h⟩ := lies_cons.mp h
        obtain ⟨hsd',h⟩ := lies_append.mp h
        rw [length_sdBytes] at h
        obtain ⟨hm,-⟩ := lies_cons.mp h
        rw [parseSNssai_parts (k := 5) hlen rfl,hsst]
        simp only [if_true,Bool.false_eq_true,if_false]
        rw [sdAt_of_lies hsd',hm]
        rfl
    · have hcond : sd≠noSdValue ∨ sd=noSdValue ∧ (some m).isSome ∧ mappedSd≠noSdValue := by
        by_cases hsd : sd=noSdValue
        · exact .inr ⟨hsd,rfl,hmapped⟩
        · exact .inl hsd
      have hbytes : sNssaiBytes ⟨sst,sd,some m,mappedSd⟩ =
          sst::(sdBytes sd++m::sdBytes mappedSd) := by
        unfold sNssaiBytes
        rw [if_pos hcond,if_pos hmapped]
        simp only [toList_some,List.singleton_append]
      obtain ⟨helement,hlength⟩ := elementBytes_of (k := 8) hbytes (by
        rw [List.length_cons,List.length_append,List.length_cons,length_sdBytes,
          length_sdBytes])
      rw [helement] at h
      rw [hlength]
      obtain ⟨hlen,h⟩ := lies_cons.mp h
      obtain ⟨hsst,h⟩ := lies_cons.mp h
      obtain ⟨hsd,h⟩ := lies_append.mp h
      rw [length_sdBytes] at h
      obtain ⟨hm,h⟩ := lies_cons.mp h
      rw [parseSNssai_parts (k := 8) hlen rfl,hsst]
      simp only [if_true]
      rw [sdAt_of_lies hsd,hm,sdAt_of_lies h]
      rfl

theorem parseElements_bytes (hs : ∀ ie∈ies,ie.Sound) (hroom : ies.length ≤ room)
    (h : Lies mem pos (ies.flatMap elementBytes))
    (hlength : length=pos+(ies.flatMap elementBytes).length) :
    (parseElements mem length room pos).map Prod.snd=ies := by
  induction ies generalizing pos room with
  | nil =>
    cases room with
    | zero => rfl
    | succ room =>
      rw [parseElements,if_neg (by rw [hlength]; exact Nat.lt_irrefl _)]
      rfl
  | cons ie ies ih =>
    obtain ⟨hie,hies⟩ := List.forall_mem_cons.mp hs
    obtain ⟨room,rfl⟩ : ∃ r,room=r+1 :=
      ⟨room-1,by rw [List.length_cons] at hroom; omega⟩
    have hlen:=(length_elementBytes ie).1
    rw [List.flatMap_cons] at h hlength
    rw [List.length_append] at hlength
    obtain ⟨hhead,htail⟩ := lies_append.mp h
    rw [parseElements,if_pos (by omega),parseSNssai_element hie hhead,List.map_cons,
      ih hies (Nat.le_of_succ_le_succ hroom) htail (by omega)]

structure Nssai.Built (n : Nssai) (bytes : List Byte) : Prop where
  length : n.length=bytes.length
  buffer : n.buffer.toList.take n.length=bytes

theorem take_overwrite {k : Nat} (buffer : Vector Byte k) (bytes : List Byte)
    (h : pos+bytes.length≤k) :
    (overwrite buffer pos bytes h).toList.take (pos+bytes.length) =
      buffer.toList.take pos++bytes := by
  have hlen : (buffer.toList.take pos++bytes).length=pos+bytes.length := by
    rw [List.length_append,List.length_take,Vector.length_toList]
    omega
  show (buffer.toList.take pos++(bytes++_)).take _=_
  rw [← List.append_assoc,List.take_left' hlen]

theorem foldlM_putSNssai {n : Nssai} {bytes : List Byte} (hn : n.Built bytes)
    (hfits : bytes.length+(ies.flatMap elementBytes).length ≤ maxNssaiLen) :
    ∃ n',ies.foldlM putSNssai n = .ok n' ∧ n'.Built (bytes++ies.flatMap elementBytes) := by
  induction ies generalizing n bytes with
  | nil => exact ⟨n,rfl,by rw [List.flatMap_nil,List.append_nil]; exact hn⟩
  | cons ie ies ih =>
    have hlen:=(length_elementBytes ie).1
    have hlength:=hn.length
    rw [List.flatMap_cons,List.length_append] at hfits
    have hroom : n.length+(elementBytes ie).length ≤ maxNssaiLen := by omega
    have hput : putSNssai n ie = .ok ⟨n.length+(elementBytes ie).length,
        overwrite n.buffer n.length (elementBytes ie) hroom⟩ := by
      rw [putSNssai,if_pos (by omega),dif_pos hroom]
    have hnext : Nssai.Built ⟨n.length+(elementBytes ie).length,
        overwrite n.buffer n.length (elementBytes ie) hroom⟩ (bytes++elementBytes ie) := by
      refine ⟨(congrArg (· + (elementBytes ie).length) hlength).trans List.length_append.symm,?_⟩
      exact (take_overwrite n.buffer (elementBytes ie) hroom).trans (by rw [hn.buffer])
    obtain ⟨n',hn',hbuilt⟩ := ih hnext (by rw [List.length_append]; omega)
    refine ⟨n',?_,?_⟩
    · rw [List.foldlM_cons,hput]
      exact hn'
    · rw [List.flatMap_cons,← List.append_assoc]
      exact hbuilt

def Nssai.memory (n : Nssai) (behind : Nat → Byte) (i : Nat) : Byte :=
  n.buffer.toList[i]?.getD (behind i)

theorem lies_memory (n : Nssai) (behind : Nat → Byte)
    (h : (n.buffer.toList.drop pos).take l.length=l) : Lies (n.memory behind) pos l := by
  induction l generalizing pos with
  | nil => rfl
  | cons b l ih =>
    cases hdrop : n.buffer.toList.drop pos with
    | nil =>
      rw [hdrop] at h
      cases h
    | cons b' l' =>
      rw [hdrop] at h
      obtain ⟨rfl,hl⟩ := List.cons.inj h
      have hget : n.buffer.toList[pos]?=some b' := by
        rw [← List.head?_drop,hdrop]
        rfl
      have hnext : n.buffer.toList.drop (pos+1)=l' := by
        rw [← List.drop_drop,hdrop]
        rfl
      refine lies_cons.mpr ⟨?_,ih (by rw [hnext]; exact hl)⟩
      rw [Nssai.memory,hget]
      rfl

/-- The length of the element is one of the five, and the element ends within the NSSAI. -/
def WellFormedAt (length : Nat) (mem : Nat → Byte) (pos : Nat) : Prop :=
  (sNssaiParts (mem pos).val).isSome ∧ pos+1+(mem pos).val≤length

instance (length : Nat) (mem : Nat → Byte) (pos : Nat) : Decidable (WellFormedAt length mem pos) :=
  inferInstanceAs (Decidable (_ ∧ _))

/-- The octets are those of elements of the five lengths, as far as the parser has room for them. -/
def Sliced (room : Nat) (octets : List Byte) : Prop :=
  ∃ (es : List (List Byte)) (rest : List Byte),
    octets=es.flatMap (fun e => Fin.ofNat 256 e.length::e)++rest ∧
      (∀ e∈es,(sNssaiParts e.length).isSome) ∧
      (es.length ≤ room ∧ rest=[] ∨ es.length=room)

theorem parts_lt {k : Nat} (h : (sNssaiParts k).isSome) : k<256 := by
  unfold sNssaiParts at h
  split at h <;> first | exact absurd h (by decide) | decide

theorem parseSNssai_fst (h : (sNssaiParts (mem pos).val).isSome) :
    (parseSNssai mem pos).1=(mem pos).val+1 := by
  obtain ⟨parts,hparts⟩ := isSome_iff_exists.mp h
  rw [parseSNssai_parts rfl hparts]

theorem sliced_cons (hpos : pos<length) : Sliced (room+1) (slice mem pos (length-pos)) ↔
    WellFormedAt length mem pos ∧
      Sliced room (slice mem (pos+1+(mem pos).val) (length-(pos+1+(mem pos).val))) := by
  obtain ⟨n,hn⟩ : ∃ n,length-pos=n+1 := ⟨length-pos-1,by omega⟩
  constructor
  · rintro ⟨es,rest,hoctets,hes,hend⟩
    cases es with
    | nil =>
      rw [hn] at hoctets
      rcases hend with ⟨-,rfl⟩ | hzero
      · cases hoctets
      · cases hzero
    | cons e es =>
      obtain ⟨he,hes'⟩ := List.forall_mem_cons.mp hes
      rw [List.flatMap_cons,List.append_assoc] at hoctets
      have hlies:=hoctets ▸ lies_slice mem pos (length-pos)
      obtain ⟨hhead,htail⟩ := lies_append.mp hlies
      obtain ⟨hlen,-⟩ := lies_cons.mp hhead
      have hval : (mem pos).val=e.length := by
        rw [hlen]
        exact Nat.mod_eq_of_lt (parts_lt he)
      have htotal:=congrArg List.length hoctets
      rw [length_slice,List.length_append,List.length_cons] at htotal
      have hpos' : pos+(Fin.ofNat 256 e.length::e).length=pos+1+(mem pos).val := by
        rw [List.length_cons,hval]
        omega
      refine ⟨⟨by rw [hval]; exact he,by omega⟩,es,rest,?_,hes',?_⟩
      · rw [hpos'] at htail
        have hrest : length-(pos+1+(mem pos).val) =
            (es.flatMap (fun e => Fin.ofNat 256 e.length::e)++rest).length := by omega
        rw [hrest]
        exact htail
      · exact hend.imp (fun h => ⟨Nat.le_of_succ_le_succ h.1,h.2⟩) Nat.succ.inj
  · rintro ⟨⟨hparts,hinside⟩,es,rest,hoctets,hes,hend⟩
    have hsplit : length-pos=1+(mem pos).val+(length-(pos+1+(mem pos).val)) := by
      omega
    have hfirst : pos+(1+(mem pos).val)=pos+1+(mem pos).val := by omega
    have hself : Fin.ofNat 256 (mem pos).val=mem pos := Fin.ext (Nat.mod_eq_of_lt (mem pos).isLt)
    refine ⟨slice mem (pos+1) (mem pos).val::es,rest,?_,?_,?_⟩
    · rw [hsplit,slice_add,hfirst,hoctets,List.flatMap_cons,length_slice,hself,
        Nat.add_comm 1,slice,List.append_assoc]
    · exact List.forall_mem_cons.mpr ⟨by rw [length_slice]; exact hparts,hes⟩
    · exact hend.imp (fun h => ⟨Nat.succ_le_succ h.1,h.2⟩) (congrArg Nat.succ)

theorem sliced_nil (room : Nat) : Sliced room [] :=
  ⟨[],[],rfl,fun _ he => absurd he List.not_mem_nil,.inl ⟨Nat.zero_le room,rfl⟩⟩

theorem parseElements_inside :
    (∀ x∈parseElements mem length room pos,WellFormedAt length mem x.1) ↔
      Sliced room (slice mem pos (length-pos)) := by
  induction room generalizing pos with
  | zero =>
    refine iff_of_true (fun x hx => absurd hx List.not_mem_nil) ?_
    exact ⟨[],_,rfl,fun e he => absurd he List.not_mem_nil,.inr rfl⟩
  | succ room ih =>
    by_cases hpos : pos<length
    · rw [sliced_cons hpos,parseElements,if_pos hpos,List.forall_mem_cons]
      refine and_congr_right fun hwell => ?_
      rw [parseSNssai_fst hwell.1,ih]
      have hnext : pos+((mem pos).val+1)=pos+1+(mem pos).val := by omega
      rw [hnext]
    · have hzero : length-pos=0 := by omega
      rw [parseElements,if_neg hpos,hzero]
      exact iff_of_true (fun x hx => absurd hx List.not_mem_nil) (sliced_nil (room+1))

/-- NSSAIs come back, and the parser returns well-formed elements only exactly if it meets no others
in what it reads. -/
theorem nssai_comes_back (ies : List SNssaiIe) (buffer : Vector Byte maxNssaiLen)
    (behind mem : Nat → Byte) (length : Nat) :
    (ies≠[] → ies.length ≤ maxNumOfSlice → (∀ ie∈ies,ie.Sound) →
      ∃ n,buildNssai ⟨0,buffer⟩ ies = .ok n ∧
        (parseNssai n.length (n.memory behind)).map Prod.snd=ies) ∧
    ((∀ x∈parseNssai length mem,WellFormedAt length mem x.1) ↔
      Sliced maxNumOfSlice (slice mem 0 length)) := by
  constructor
  · intro hne hroom hs
    have hbytes:=length_flatMap_le elementBytes ies fun ie _ => (length_elementBytes ie).2
    have hslices : maxNumOfSlice=8 := rfl
    have hmax : maxNssaiLen=142 := rfl
    have hstart : Nssai.Built ⟨0,buffer⟩ [] := ⟨rfl,rfl⟩
    have hfits : ([] : List Byte).length+(ies.flatMap elementBytes).length ≤ maxNssaiLen := by
      rw [List.length_nil]
      omega
    obtain ⟨n,hn,hbuilt⟩ := foldlM_putSNssai hstart hfits
    rw [List.nil_append] at hbuilt
    refine ⟨n,by rw [buildNssai,if_neg hne,hn],?_⟩
    have hlies : Lies (n.memory behind) 0 (ies.flatMap elementBytes) :=
      lies_memory n behind (by rw [List.drop_zero,← hbuilt.length]; exact hbuilt.buffer)
    have hpos : n.length≠0 := by
      obtain ⟨ie,ies',rfl⟩ := List.exists_cons_of_ne_nil hne
      have hlen:=(length_elementBytes ie).1
      rw [hbuilt.length,List.flatMap_cons,List.length_append]
      omega
    rw [parseNssai,if_neg hpos]
    exact parseElements_bytes hs hroom hlies (by rw [hbuilt.length,Nat.zero_add])
  · by_cases hzero : length=0
    · subst hzero
      exact iff_of_true (fun x hx => absurd hx List.not_mem_nil) (sliced_nil maxNumOfSlice)
    · rw [parseNssai,if_neg hzero,parseElements_inside,Nat.sub_zero]

theorem nssai_comes_back_mapped :
    ∃ n,buildNssai ⟨0,Vector.replicate maxNssaiLen 0⟩
        [⟨1,noSdValue,none,noSdValue⟩,⟨2,noSdValue,some 1,16⟩] = .ok n ∧
      (parseNssai n.length (n.memory fun _ => 0)).map Prod.snd =
        [⟨1,noSdValue,none,noSdValue⟩,⟨2,noSdValue,some 1,16⟩] :=
  (nssai_comes_back [⟨1,noSdValue,none,noSdValue⟩,⟨2,noSdValue,some 1,16⟩]
    (Vector.replicate maxNssaiLen 0) (fun _ => 0) (fun _ => 0) 0).1 (List.cons_ne_nil _ _)
    (by decide) (by decide)

/-- An element of length zero counts eight times, and one may end behind the NSSAI. -/
theorem nssai_malformed :
    parseNssai 1 (fun _ => 0)=List.replicate 8 (0,⟨0,noSdValue,none,noSdValue⟩) ∧
      parseNssai 1 (fun _ => 1)=[(0,⟨1,noSdValue,none,noSdValue⟩)] ∧
      (¬ ∀ x∈parseNssai 1 (fun _ => 0),WellFormedAt 1 (fun _ => 0) x.1) ∧
      ¬ ∀ x∈parseNssai 1 (fun _ => 1),WellFormedAt 1 (fun _ => 1) x.1 := by
  decide

end OgsDp.Nas
