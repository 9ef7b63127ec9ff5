import OgsDp.Nas.QosFlowDescription
import OgsDp.Nas.QosRules

/-!
# Where the parsers of QoS IEs read and write (lib/nas/5gs/types.c)

Every read is checked, and so are the indices of packet filters and of parameters.
-/

namespace OgsDp.Nas
open OgsDp.Core Lib Ipfw

variable {code : Nat} {l octets : List Byte} {e : PfStop} {f : Fault}

def RuleTooMany (octets : List Byte) : Prop :=
  ∃ (rs : List QosRule) (rest : List Byte),rs.length=maxNumOfQosRule ∧ (∀ r∈rs,r.Read) ∧
    octets=rs.flatMap QosRule.bytes++rest ∧ rest≠[]

/-- A rule begins with a packet filter of sixteen components, and more were announced and begin. -/
def FilterOverfull (l : List Byte) : Prop :=
  ∃ (identifier : Byte) (length : BitVec 16) (flags : Byte) (pfs : List QosRulePf)
    (pfFlags len : Byte) (content : List Byte) (cs : List PfComponent) (rest : List Byte),
    l=identifier::(netBytes 2 length.toNat++flags ::
      (pfs.flatMap (QosRulePf.bytes (flags.val / 32))++pfFlags::len::content)) ∧
    flags.val / 32≠0 ∧ flags.val / 32≠7 ∧ HasFlow (flags.val / 32) ∧
    pfs.length<flags.val % 16 ∧ (∀ p∈pfs,p.Read (flags.val / 32)) ∧
    Unfinished maxNumOfPacketFilterComponent len.val content cs rest ∧ rest≠[]

def ComponentTooMany (octets : List Byte) : Prop :=
  ∃ (rs : List QosRule) (l : List Byte),rs.length < maxNumOfQosRule ∧ (∀ r∈rs,r.Read) ∧
    octets=rs.flatMap QosRule.bytes++l ∧ FilterOverfull l

theorem readRulePf_error (he : e ≠ .short) : readRulePf code l = .error e ↔
    code≠modifyAndDeletePacketFilters ∧ ∃ flags len content,l=flags::len::content ∧
      readComponents maxNumOfPacketFilterComponent len.val content = .error e := by
  unfold readRulePf
  rw [reads_checkedOne.bind_error]
  by_cases hcode : code=modifyAndDeletePacketFilters
  · simp only [if_pos hcode]
    refine iff_of_false ?_ fun h => h.1 hcode
    rintro (hone | ⟨_,_,_,_,hok⟩)
    · exact he (checkedOne_error.mp hone).2
    · cases hok
  · simp only [if_neg hcode]
    constructor
    · rintro (hone | ⟨flags,rest,-,rfl,herr⟩)
      · exact absurd (checkedOne_error.mp hone).2 he
      · rcases reads_readContent.bind_error.mp herr with hcontent | ⟨_,_,_,_,hok⟩
        · obtain ⟨len,content,rfl,hcs⟩ := (readContent_error he).mp hcontent
          exact ⟨hcode,flags,len,content,rfl,hcs⟩
        · cases hok
    · rintro ⟨-,flags,len,content,rfl,hcs⟩
      refine .inr ⟨flags,len::content,trivial,rfl,?_⟩
      exact reads_readContent.bind_error.mpr
        (.inl ((readContent_error he).mpr ⟨len,content,rfl,hcs⟩))

theorem readFlow_error (h : readFlow code l = .error e) : e = .short := by
  unfold readFlow at h
  split at h
  · rcases reads_checkedOne.bind_error.mp h with hone | ⟨precedence,rest,-,-,h⟩
    · exact (checkedOne_error.mp hone).2
    · rcases reads_checkedOne.bind_error.mp h with hone | ⟨_,_,_,_,hok⟩
      · exact (checkedOne_error.mp hone).2
      · cases hok
  · cases h

theorem readBody_error (he : e ≠ .short) (he' : e ≠ .unknown) (identifier : Byte)
    (length : BitVec 16) (flags : Byte) : readBody identifier length flags l = .error e ↔
      (flags.val / 32≠0 ∧ flags.val / 32≠7 ∧ ¬ HasNoFilters (flags.val / 32)) ∧
      ∃ (pfs : List QosRulePf) (rest : List Byte),pfs.length<flags.val % 16 ∧
        (∀ p∈pfs,p.Read (flags.val / 32)) ∧
        l=pfs.flatMap (QosRulePf.bytes (flags.val / 32))++rest ∧
        readRulePf (flags.val / 32) rest = .error e := by
  have hnum : flags.val % 16<16 := Nat.mod_lt _ (by decide)
  have hmin : min (flags.val % 16) maxNumOfFlowInNas=flags.val % 16 :=
    Nat.min_eq_left (Nat.le_of_lt_succ hnum)
  unfold readBody
  by_cases hres : flags.val / 32=0 ∨ flags.val / 32=7
  · rw [if_pos hres]
    refine iff_of_false (fun h => he' (Except.error.inj h).symm) ?_
    rintro ⟨⟨hzero,hseven,-⟩,-⟩
    exact hres.elim hzero hseven
  obtain ⟨hzero,hseven⟩ := not_or.mp hres
  rw [if_neg hres]
  by_cases hnone : HasNoFilters (flags.val / 32) ∧ flags.val % 16≠0
  · rw [if_pos hnone]
    refine iff_of_false (fun h => he' (Except.error.inj h).symm) ?_
    rintro ⟨⟨-,-,hno⟩,-⟩
    exact hno hnone.1
  rw [if_neg hnone,(reads_readMany (reads_readRulePf _) _).bind_error,
    readMany_error (reads_readRulePf _),hmin]
  constructor
  · rintro (⟨pfs,rest,hlen,hread,hl,hstop⟩ | ⟨_,_,_,_,herr⟩)
    · refine ⟨⟨hzero,hseven,fun hcode => hnone ⟨hcode,by omega⟩⟩,pfs,rest,hlen,hread,hl,
        hstop⟩
    · rcases (reads_readFlow _).bind_error.mp herr with hflow | ⟨_,_,_,_,hok⟩
      · exact absurd (readFlow_error hflow) he
      · cases hok
  · rintro ⟨-,pfs,rest,hlen,hread,hl,hstop⟩
    exact .inl ⟨pfs,rest,hlen,hread,hl,hstop⟩

theorem readRule_error (he : e ≠ .short) : readRule l = .error e ↔
    ∃ (identifier : Byte) (length : BitVec 16) (flags : Byte) (rest : List Byte),
      l=identifier::(netBytes 2 length.toNat++flags::rest) ∧
        readBody identifier length flags rest = .error e := by
  have hnet : StopsWith checkedNet16 PfStop.short :=
    checkedNet16_eq ▸ stopsWith_readNet16 PfStop.short
  rw [readRule,reads_checkedOne.bind_error]
  constructor
  · rintro (hone | ⟨identifier,rest,-,rfl,herr⟩)
    · exact absurd (checkedOne_error.mp hone).2 he
    rcases reads_checkedNet16.bind_error.mp herr with htwo | ⟨length,rest',-,hrest,herr⟩
    · exact absurd (hnet _ _ htwo) he
    rcases reads_checkedOne.bind_error.mp herr with hone | ⟨flags,rest'',-,hrest',herr⟩
    · exact absurd (checkedOne_error.mp hone).2 he
    simp only at hrest hrest'
    exact ⟨identifier,length,flags,rest'',by rw [hrest,hrest']; rfl,herr⟩
  · rintro ⟨identifier,length,flags,rest,rfl,herr⟩
    refine .inr ⟨identifier,netBytes 2 length.toNat++flags::rest,trivial,rfl,?_⟩
    refine reads_checkedNet16.bind_error.mpr
      (.inr ⟨length,flags::rest,trivial,rfl,?_⟩)
    exact reads_checkedOne.bind_error.mpr (.inr ⟨flags,rest,trivial,rfl,herr⟩)

theorem readRule_full : readRule l = .error .full ↔ FilterOverfull l := by
  rw [readRule_error (e := .full) nofun]
  constructor
  · rintro ⟨identifier,length,flags,rest,rfl,herr⟩
    obtain ⟨⟨hzero,hseven,hno⟩,pfs,rest',hlen,hread,rfl,hstop⟩ :=
      (readBody_error (e := .full) nofun nofun identifier length flags).mp herr
    obtain ⟨hfive,pfFlags,len,content,rfl,hcs⟩ :=
      (readRulePf_error (e := .full) nofun).mp hstop
    obtain ⟨cs,rest'',hun,hmore⟩ := readComponents_full.mp hcs
    exact ⟨identifier,length,flags,pfs,pfFlags,len,content,cs,rest'',rfl,hzero,hseven,
      ⟨fun h => hno (.inl h),hfive,fun h => hno (.inr h)⟩,hlen,hread,hun,hmore⟩
  · rintro ⟨identifier,length,flags,pfs,pfFlags,len,content,cs,rest,rfl,hzero,hseven,
      ⟨htwo,hfive,hsix⟩,hlen,hread,hun,hmore⟩
    refine ⟨identifier,length,flags,_,rfl,?_⟩
    refine (readBody_error (e := .full) nofun nofun identifier length flags).mpr
      ⟨⟨hzero,hseven,fun h => h.elim htwo hsix⟩,pfs,_,hlen,hread,rfl,?_⟩
    exact (readRulePf_error (e := .full) nofun).mpr ⟨hfive,pfFlags,len,content,rfl,
      readComponents_full.mpr ⟨cs,rest,hun,hmore⟩⟩

theorem readRule_inside : readRule l ≠ .error .beyond := by
  rw [ne_eq,readRule_error (e := .beyond) nofun]
  rintro ⟨identifier,length,flags,rest,-,herr⟩
  obtain ⟨-,pfs,rest',-,-,-,hstop⟩ :=
    (readBody_error (e := .beyond) nofun nofun identifier length flags).mp herr
  obtain ⟨-,pfFlags,len,content,-,hcs⟩ := (readRulePf_error (e := .beyond) nofun).mp hstop
  exact readComponents_inside hcs

theorem parseQosRules_error : parseQosRules maxNumOfQosRule octets = .error f ↔
    f = .write ∧ (RuleTooMany octets ∨ ComponentTooMany octets) := by
  rw [parseQosRules,readAll_error reads_readRule]
  constructor
  · rintro ⟨rs,rest,hread,hl,hrest,⟨hlen,rfl⟩ | ⟨hlen,e,hstop,hf⟩⟩
    · exact ⟨rfl,.inl ⟨rs,rest,hlen,hread,hl,hrest⟩⟩
    · cases e with
      | short => cases hf
      | unknown => cases hf
      | full =>
        obtain rfl := Option.some.inj hf
        exact ⟨rfl,.inr ⟨rs,rest,hlen,hread,hl,readRule_full.mp hstop⟩⟩
      | beyond => exact absurd hstop readRule_inside
  · rintro ⟨rfl,⟨rs,rest,hlen,hread,hl,hrest⟩ | ⟨rs,l,hlen,hread,hl,hover⟩⟩
    · exact ⟨rs,rest,hread,hl,hrest,.inl ⟨hlen,rfl⟩⟩
    · have hstop:=readRule_full.mpr hover
      refine ⟨rs,l,hread,hl,?_,.inr ⟨hlen,.full,hstop,rfl⟩⟩
      rintro rfl
      cases hstop

def DescriptionTooMany (octets : List Byte) : Prop :=
  ∃ (ds : List QosFlowDescription) (rest : List Byte),ds.length=maxNumOfQosFlowDescription ∧
    (∀ d∈ds,d.Read) ∧ octets=ds.flatMap QosFlowDescription.bytes++rest ∧ rest≠[]

theorem stopsWith_octet :
    StopsWith (guarded 1 QosFlowStop.short (readOne (α := Byte) .beyond)) .short :=
  StopsWith.guarded (fun _ _ h => (readOne_error.mp h).1 ▸ Nat.one_pos) _

theorem stopsWith_head :
    StopsWith (guarded 3 QosFlowStop.short (readVec (α := Byte) .beyond 3)) .short :=
  StopsWith.guarded (fun _ _ h => (readVec_error.mp h).1) _

theorem readBr_error {e : QosFlowStop} (h : readBr l = .error e) : l.length<3 := by
  rcases (reads_readOne _).bind_error.mp h with hone | ⟨unit,rest,-,rfl,h⟩
  · rw [(readOne_error.mp hone).1]
    exact Nat.zero_lt_succ 2
  · rcases (reads_readNet16 _).bind_error.mp h with hnet | ⟨_,_,_,_,hok⟩
    · rcases (reads_readVec _ 2).bind_error.mp hnet with hvec | ⟨_,_,_,_,hok⟩
      · exact Nat.succ_lt_succ (readVec_error.mp hvec).1
      · cases hok
    · cases hok

theorem readValue_inside (identifier len : Byte) (l : List Byte) :
    readValue identifier len l ≠ .error .beyond := by
  intro h
  unfold readValue at h
  split at h
  · split at h
    · cases h
    · have hstop:=stopsWith_octet.map fun index => QosFlowParameter.mk identifier len index 0
      cases hstop l _ h
  · split at h
    · split at h
      · cases h
      · have hbr : StopsWith (guarded 3 QosFlowStop.short readBr) .short :=
          StopsWith.guarded (fun _ _ => readBr_error) _
        have hstop:=hbr.map fun br => QosFlowParameter.mk identifier len br.1 br.2
        cases hstop l _ h
    · cases h

theorem readParameter_inside (l : List Byte) : readParameter l ≠ .error .beyond := by
  intro h
  rcases reads_octet.bind_error.mp h with hone | ⟨identifier,rest,-,-,h⟩
  · cases stopsWith_octet _ _ hone
  · rcases reads_octet.bind_error.mp h with hone | ⟨len,rest',-,-,h⟩
    · cases stopsWith_octet _ _ hone
    · exact readValue_inside identifier len rest' h

theorem readDescription_inside (l : List Byte) : readDescription l ≠ .error .beyond := by
  intro h
  rcases reads_head.bind_error.mp h with hhead | ⟨head,rest,-,-,h⟩
  · cases stopsWith_head _ _ hhead
  · rcases (reads_readMany reads_readParameter _).bind_error.mp h with h | ⟨_,_,_,_,hok⟩
    · obtain ⟨ps,rest',-,-,-,hstop⟩ := (readMany_error reads_readParameter).mp h
      exact readParameter_inside rest' hstop
    · cases hok

theorem parseQosFlowDescriptions_error :
    parseQosFlowDescriptions maxNumOfQosFlowDescription octets = .error f ↔
      f = .write ∧ DescriptionTooMany octets := by
  rw [parseQosFlowDescriptions,readAll_error reads_readDescription]
  constructor
  · rintro ⟨ds,rest,hread,hl,hrest,⟨hlen,rfl⟩ | ⟨hlen,e,hstop,hf⟩⟩
    · exact ⟨rfl,ds,rest,hlen,hread,hl,hrest⟩
    · cases e with
      | short => cases hf
      | len => cases hf
      | unknown => cases hf
      | beyond => exact absurd hstop (readDescription_inside rest)
  · rintro ⟨rfl,ds,rest,hlen,hread,hl,hrest⟩
    exact ⟨ds,rest,hread,hl,hrest,.inl ⟨hlen,rfl⟩⟩

theorem ok_iff_no_error {α : Type} {x : Except Fault α} {c : Prop}
    (h : ∀ f,x = .error f ↔ f = .write ∧ c) : (∃ a,x = .ok a) ↔ ¬ c := by
  cases x with
  | ok a => exact iff_of_true ⟨a,rfl⟩ fun hc => nomatch (h .write).mpr ⟨rfl,hc⟩
  | error f => exact iff_of_false nofun (not_not.mpr ((h f).mp rfl).2)

/-- The parsers read only what is there, and they return unless one of their arrays is too small. -/
theorem qosParsers_return (octets : List Byte) :
    ((∃ rs,parseQosRules maxNumOfQosRule octets = .ok rs) ↔
      ¬ (RuleTooMany octets ∨ ComponentTooMany octets)) ∧
    ((∃ ds,parseQosFlowDescriptions maxNumOfQosFlowDescription octets = .ok ds) ↔
      ¬ DescriptionTooMany octets) ∧
    parseQosRules maxNumOfQosRule octets ≠ .error .read ∧
    parseQosFlowDescriptions maxNumOfQosFlowDescription octets ≠ .error .read := by
  refine ⟨ok_iff_no_error fun f => parseQosRules_error,
    ok_iff_no_error fun f => parseQosFlowDescriptions_error,fun h => ?_,fun h => ?_⟩
  · cases (parseQosRules_error.mp h).1
  · cases (parseQosFlowDescriptions_error.mp h).1

/-- Nine rules that delete one, seventeen components in a filter, and nine descriptions. -/
theorem qosParsers_overrun :
    parseQosRules maxNumOfQosRule (List.replicate 9 [1,0,1,64]).flatten = .error .write ∧
      parseQosRules maxNumOfQosRule
        ([1,0,0,33,49,34]++(List.replicate 17 [48,6]).flatten) = .error .write ∧
      parseQosFlowDescriptions maxNumOfQosFlowDescription
        (List.replicate 9 [5,32,0]).flatten = .error .write := by
  decide

end OgsDp.Nas
