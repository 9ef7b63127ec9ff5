import OgsDp.Nas.QosRules

/-!
# QoS rules that come back (lib/nas/5gs/types.c)

The builder lays every rule out by the code of the first one.
-/

namespace OgsDp.Nas
open OgsDp.Core Lib Ipfw List

variable {code first room : Nat} {r r' : QosRule} {rs rs' : List QosRule} {p : QosRulePf}
  {octets : List Byte}

/-- A packet filter under a code without contents has its flags only. -/
def QosRulePf.carried (code : Nat) (p : QosRulePf) : QosRulePf :=
  if code=modifyAndDeletePacketFilters then ⟨p.flags,.zero⟩ else p

/-- What a rule says: its filters, its precedence and its flow as far as its code has them. -/
structure Told where
  identifier : Byte
  code : Nat
  filters : List QosRulePf
  precedence : Byte
  flow : Nat
  deriving DecidableEq

namespace QosRule

def told (r : QosRule) : Told where
  identifier := r.identifier
  code := r.code
  filters := r.filters.map (QosRulePf.carried r.code)
  precedence := if HasFlow r.code then r.precedence else 0
  flow := if HasFlow r.code then r.flowIdentifier else 0

/-- The code is none that is reserved, and the lengths are those of the components. -/
structure Sound (r : QosRule) : Prop where
  code : r.code≠0 ∧ r.code≠7
  sized : ∀ p∈r.filters,p.content.Sized

def parsed (first : Nat) (r : QosRule) : QosRule where
  identifier := r.identifier
  length := BitVec.ofNat 16 ((r.body first).length+1)
  flags := r.flags
  pf := padded .zero maxNumOfFlowInNas (r.filters.map (QosRulePf.carried r.code))
  precedence := if HasFlow r.code then r.precedence else 0
  flow := if HasFlow r.code then r.flow else 0

structure Fits (first : Nat) (r : QosRule) : Prop where
  flow : HasFlow r.code ↔ HasFlow first
  none : HasNoFilters r.code ∨ HasNoFilters first → r.filters=[]
  known : HasFlow r.code → ∀ p∈r.filters,.matchAll∉p.content.component.1

/-- Two octets too many are behind the rule. -/
structure Trails (first : Nat) (r : QosRule) : Prop where
  flow : HasFlow first ∧ ¬ HasFlow r.code
  none : r.filters=[]

end QosRule

theorem not_hasFlow_cases (h : ¬ HasFlow code) :
    HasNoFilters code ∨ code=modifyAndDeletePacketFilters := by
  unfold HasFlow HasNoFilters at *
  omega

theorem filters_eq_nil : r.filters=[] ↔ r.numOfPacketFilter=0 := by
  have hnum : r.numOfPacketFilter<16 := Nat.mod_lt _ (by decide)
  have hmax : maxNumOfFlowInNas=15 := rfl
  have hlen:=length_filters r
  rw [eq_nil_iff_length_eq_zero]
  omega

theorem filters_parsed (first : Nat) (r : QosRule) :
    (r.parsed first).filters=r.filters.map (QosRulePf.carried r.code) :=
  take_padded (by rw [length_map]; exact length_filters r)

theorem length_pfBytes_pos (code : Nat) (p : QosRulePf) : 1≤(p.bytes code).length := by
  unfold QosRulePf.bytes
  split <;> exact Nat.succ_pos _

theorem length_pfBytes_le (hp : p.content.Sized) : (p.bytes code).length≤257 := by
  have hlen:=p.content.length.isLt
  unfold QosRulePf.bytes
  split
  · exact (by decide : 1≤257)
  · have hsize : p.content.length.val=(componentBytes p.content.component.1).length := hp
    simp only [PfContent.bytes,length_cons]
    omega

theorem length_body_lt (hs : r.Sound) (code : Nat) : (r.body code).length<8191 := by
  have hfilters:=length_flatMap_le (QosRulePf.bytes code) r.filters
    fun p hp => length_pfBytes_le (hs.sized p hp)
  have hlen:=length_filters r
  have hmax : maxNumOfFlowInNas=15 := rfl
  rw [QosRule.body,length_append]
  split
  · simp only [length_cons,length_nil]
    omega
  · rw [length_nil]
    omega

theorem bytes_carried (code : Nat) (p : QosRulePf) :
    (p.carried code).bytes code=p.bytes code := by
  unfold QosRulePf.bytes QosRulePf.carried
  split <;> rfl

theorem body_parsed (first : Nat) (r : QosRule) : (r.parsed first).body r.code=r.body r.code := by
  have hfilters:=filters_parsed first r
  unfold QosRule.body
  rw [hfilters,flatMap_map]
  simp only [QosRule.parsed]
  congr 1
  · exact flatMap_congr fun p _ => bytes_carried r.code p
  · split <;> rfl

theorem length_parsed (hs : r.Sound) (first : Nat) :
    (r.parsed first).length.toNat=(r.body first).length+1 := by
  have hlt:=length_body_lt hs first
  exact Nat.mod_eq_of_lt (by omega)

theorem bytes_parsed (hs : r.Sound) (first : Nat) : (r.parsed first).bytes =
    r.identifier::(netBytes 2 ((r.body first).length+1)++r.flags::r.body r.code) := by
  have hbody : (r.parsed first).body (r.parsed first).code=r.body r.code := body_parsed first r
  rw [QosRule.bytes,length_parsed hs,hbody]
  rfl

theorem read_parsed (hs : r.Sound) (hnone : HasNoFilters r.code → r.filters=[])
    (hknown : HasFlow r.code → ∀ p∈r.filters,.matchAll∉p.content.component.1) :
    (r.parsed first).Read where
  code := hs.code
  none h := by
    have hnum : r.numOfPacketFilter=0 := filters_eq_nil.mp (hnone h)
    exact hnum
  filters := by
    rw [filters_parsed]
    intro p hp
    obtain ⟨q,hq,rfl⟩ := List.mem_map.mp hp
    show (q.carried r.code).Read r.code
    unfold QosRulePf.Read QosRulePf.carried
    by_cases hcode : r.code=modifyAndDeletePacketFilters
    · simp only [if_pos hcode]
    · simp only [if_neg hcode]
      have hflow : HasFlow r.code := by
        by_contra hno
        rcases not_hasFlow_cases hno with h | h
        · rw [hnone h] at hq
          exact not_mem_nil hq
        · exact hcode h
      exact (hs.sized q hq).read (hknown hflow q hq)
  pf := by
    rw [filters_parsed]
    rfl
  flow hno := ⟨if_neg hno,if_neg hno⟩

theorem told_parsed (first : Nat) (r : QosRule) : (r.parsed first).told=r.told := by
  have hfilters:=filters_parsed first r
  unfold QosRule.told
  rw [hfilters,List.map_map]
  have hcode : (r.parsed first).code=r.code := rfl
  have htwice : QosRulePf.carried r.code ∘ QosRulePf.carried r.code=QosRulePf.carried r.code := by
    funext p
    simp only [Function.comp,QosRulePf.carried]
    split <;> rfl
  rw [hcode,htwice]
  by_cases hflow : HasFlow r.code
  · simp only [if_pos hflow,QosRule.parsed,QosRule.flowIdentifier]
  · simp only [if_neg hflow,QosRule.parsed]

theorem body_fits (h : r.Fits first) : r.body first=r.body r.code := by
  unfold QosRule.body
  congr 1
  · by_cases hflow : HasFlow r.code
    · have hfirst:=h.flow.mp hflow
      have hbytes : QosRulePf.bytes first=QosRulePf.bytes r.code := by
        funext p
        rw [QosRulePf.bytes,if_neg hfirst.2.1,QosRulePf.bytes,if_neg hflow.2.1]
      rw [hbytes]
    · have hfirst : ¬ HasFlow first := fun h' => hflow (h.flow.mpr h')
      rcases not_hasFlow_cases hflow with hr | hr
      · rw [h.none (.inl hr)]
        rfl
      · rcases not_hasFlow_cases hfirst with hf | hf
        · rw [h.none (.inr hf)]
          rfl
        · rw [hr,hf]
  · by_cases hflow : HasFlow r.code
    · rw [if_pos hflow,if_pos (h.flow.mp hflow)]
    · rw [if_neg hflow,if_neg fun h' => hflow (h.flow.mpr h')]

theorem builtBytes_fits (hs : r.Sound) (h : r.Fits first) :
    r.builtBytes first=(r.parsed first).bytes := by
  rw [bytes_parsed hs,← body_fits h]
  rfl

theorem builtBytes_trails (hs : r.Sound) (h : r.Trails first) :
    r.builtBytes first=(r.parsed first).bytes++[r.precedence,r.flow] := by
  have hbody : r.body first=[r.precedence,r.flow] := by
    rw [QosRule.body,h.none,if_pos h.flow.1]
    rfl
  have hown : r.body r.code=[] := by
    rw [QosRule.body,h.none,if_neg h.flow.2]
    rfl
  rw [bytes_parsed hs,hown,QosRule.builtBytes,hbody,cons_append,append_assoc]
  rfl

theorem QosRule.Fits.read (hs : r.Sound) (h : r.Fits first) : (r.parsed first).Read :=
  read_parsed hs (fun hno => h.none (.inl hno)) h.known

theorem QosRule.Trails.read (hs : r.Sound) (h : r.Trails first) : (r.parsed first).Read :=
  read_parsed hs (fun _ => h.none) fun hflow => absurd hflow h.flow.2

/-- The parser returns as many rules as were built, and they say the same. -/
def ComesBack (room : Nat) (rs : List QosRule) : Prop :=
  ∃ octets rs',buildQosRules rs = .ok octets ∧ parseQosRules room octets = .ok rs' ∧
    rs'.map QosRule.told=rs.map QosRule.told

/-- There is room for the octets, and all rules have the layout of the first one; the last one may
have two octets too many behind it if there is room for one rule more. -/
def Aligned (room : Nat) (first : QosRule) (rs : List QosRule) : Prop :=
  ((first::rs).flatMap (QosRule.builtBytes first.code)).length ≤ maxQosRulesLen ∧
    ((∀ r∈first::rs,r.Fits first.code) ∨
      ∃ init last,first::rs=init++[last] ∧ (∀ r∈init,r.Fits first.code) ∧
        last.Trails first.code ∧ (first::rs).length < room)

theorem flatMap_fits (hs : ∀ r∈rs,r.Sound) (hfits : ∀ r∈rs,r.Fits first) :
    rs.flatMap (QosRule.builtBytes first) =
      (rs.map (QosRule.parsed first)).flatMap QosRule.bytes := by
  rw [flatMap_map]
  exact flatMap_congr fun r hr => builtBytes_fits (hs r hr) (hfits r hr)

theorem read_fits (hs : ∀ r∈rs,r.Sound) (hfits : ∀ r∈rs,r.Fits first) :
    ∀ r∈rs.map (QosRule.parsed first),r.Read := by
  intro r hr
  obtain ⟨q,hq,rfl⟩ := List.mem_map.mp hr
  exact (hfits q hq).read (hs q hq)

theorem map_told_parsed (first : Nat) (rs : List QosRule) :
    (rs.map (QosRule.parsed first)).map QosRule.told=rs.map QosRule.told := by
  rw [List.map_map]
  exact map_congr_left fun r _ => told_parsed first r

theorem aligned_comesBack {first : QosRule} (hs : ∀ r∈first::rs,r.Sound)
    (hroom : (first::rs).length ≤ room) (h : Aligned room first rs) :
    ComesBack room (first::rs) := by
  obtain ⟨htotal,hlayout⟩ := h
  have hnone : HasNoFilters first.code → ∀ r∈first::rs,r.numOfPacketFilter=0 := by
    intro hcode r hr
    rcases hlayout with hfits | ⟨init,last,hrs,hfits,htrails,-⟩
    · exact filters_eq_nil.mp ((hfits r hr).none (.inr hcode))
    · rw [hrs] at hr
      rcases mem_append.mp hr with hr | hr
      · exact filters_eq_nil.mp ((hfits r hr).none (.inr hcode))
      · obtain rfl := mem_singleton.mp hr
        exact filters_eq_nil.mp htrails.none
  have hne : ∀ r : QosRule, r.bytes≠[] := fun r => cons_ne_nil _ _
  have hbuild:=buildQosRules_ok.mpr ⟨hnone,htotal,rfl⟩
  refine ⟨_,(first::rs).map (QosRule.parsed first.code),hbuild,?_,
    map_told_parsed first.code (first::rs)⟩
  rcases hlayout with hfits | ⟨init,last,hrs,hfits,htrails,hmore⟩
  · rw [flatMap_fits hs hfits]
    refine readAll_flatMap reads_readRule hne (read_fits hs hfits) ?_
    rw [length_map]
    exact hroom
  · rw [hrs] at hs hmore ⊢
    have hinit : ∀ r∈init,r.Sound := fun r hr => hs r (mem_append_left _ hr)
    have hlast : last.Sound := hs last (mem_append_right _ (mem_singleton_self last))
    have hoctets : (init++[last]).flatMap (QosRule.builtBytes first.code) =
        ((init++[last]).map (QosRule.parsed first.code)).flatMap QosRule.bytes ++
          [last.precedence,last.flow] := by
      rw [flatMap_append,flatMap_fits hinit hfits,map_append,flatMap_append,
        append_assoc]
      simp only [map_cons,map_nil,flatMap_cons,flatMap_nil,append_nil]
      rw [builtBytes_trails hlast htrails]
    have hread : ∀ r∈(init++[last]).map (QosRule.parsed first.code),r.Read := by
      intro r hr
      rw [map_append] at hr
      rcases mem_append.mp hr with hr | hr
      · exact read_fits hinit hfits r hr
      · obtain rfl := mem_singleton.mp hr
        exact htrails.read hlast
    obtain ⟨more,rfl⟩ := Nat.exists_eq_add_of_le hmore
    rw [hoctets,parseQosRules]
    have happend : readAll readRule stopFault
        (((init++[last]).map (QosRule.parsed first.code)).length+(more+1))
        (((init++[last]).map (QosRule.parsed first.code)).flatMap QosRule.bytes ++
          [last.precedence,last.flow])=_ :=
      readAll_append reads_readRule hne hread [last.precedence,last.flow]
    rw [length_map] at happend
    have hcount : (init++[last]).length.succ+more=(init++[last]).length+(more+1) := by
      omega
    rw [hcount,happend]
    show Except.ok (_++[])=_
    rw [append_nil]

theorem code_of_told (h : r'.told=r.told) : r'.code=r.code := congrArg Told.code h

theorem filters_of_told (h : r'.told=r.told) :
    r'.filters.map (QosRulePf.carried r.code)=r.filters.map (QosRulePf.carried r.code) := by
  have hfilters : r'.filters.map (QosRulePf.carried r'.code) =
      r.filters.map (QosRulePf.carried r.code) := congrArg Told.filters h
  rwa [code_of_told h] at hfilters

theorem length_of_told (h : r'.told=r.told) : r'.filters.length=r.filters.length := by
  have hlen:=congrArg List.length (filters_of_told h)
  rwa [length_map,length_map] at hlen

theorem none_of_told (h : r'.told=r.told) (hread : r'.Read) (hcode : HasNoFilters r.code) :
    r.filters=[] := by
  have hlen:=length_of_told h
  rw [filters_eq_nil.mpr (hread.none (code_of_told h ▸ hcode))] at hlen
  exact eq_nil_of_length_eq_zero hlen.symm

theorem known_of_told (h : r'.told=r.told) (hread : r'.Read) (hflow : HasFlow r.code) :
    ∀ p∈r.filters,.matchAll∉p.content.component.1 := by
  have hcarried : QosRulePf.carried r.code=id := funext fun p => if_neg hflow.2.1
  have hsame : r'.filters=r.filters := by
    have hfilters:=filters_of_told h
    rwa [hcarried,List.map_id,List.map_id] at hfilters
  intro p hp
  have hp':=hread.filters p (hsame ▸ hp)
  unfold QosRulePf.Read at hp'
  rw [code_of_told h,if_neg hflow.2.1] at hp'
  exact hp'.known

theorem length_of_told_lt (hfirst : ¬ HasFlow first) (hno : HasNoFilters first → r.filters=[])
    (h : r'.told=r.told) :
    (r.builtBytes first).length+(if HasFlow r.code then 1 else 0) ≤ r'.bytes.length := by
  have hbuilt : (r.body first).length=r.filters.length := by
    rw [QosRule.body,if_neg hfirst,append_nil]
    rcases not_hasFlow_cases hfirst with hcode | hcode
    · rw [hno hcode]
      rfl
    · have hflags : ∀ p : QosRulePf, (p.bytes first).length=1 := fun p => by
        rw [QosRulePf.bytes,if_pos hcode]
        rfl
      have hle:=length_flatMap_le (QosRulePf.bytes first) r.filters
        fun p _ => Nat.le_of_eq (hflags p)
      have hge:=le_length_flatMap (QosRulePf.bytes first) r.filters
        fun p _ => Nat.le_of_eq (hflags p).symm
      omega
  have hread:=le_length_flatMap (QosRulePf.bytes r'.code) r'.filters
    fun p _ => length_pfBytes_pos r'.code p
  have hlen:=length_of_told h
  rw [length_builtBytes,length_ruleBytes,hbuilt,QosRule.body,length_append,
    code_of_told h] at *
  split
  · simp only [length_cons,length_nil]
    omega
  · rw [length_nil]
    omega

theorem noFlow_of_told (hfirst : ¬ HasFlow first)
    (hno : ∀ r∈rs,HasNoFilters first → r.filters=[])
    (h : rs'.map QosRule.told=rs.map QosRule.told) :
    (rs.flatMap (QosRule.builtBytes first)).length+rs.countP (fun r => HasFlow r.code) ≤
      (rs'.flatMap QosRule.bytes).length := by
  induction rs generalizing rs' with
  | nil => exact Nat.zero_le _
  | cons r rs ih =>
    obtain ⟨r',rs'',rfl⟩ := exists_cons_of_ne_nil (l := rs') fun hnil => by
      rw [hnil] at h
      cases h
    obtain ⟨hr,hrs⟩ := cons.inj h
    obtain ⟨hnor,hnors⟩ := forall_mem_cons.mp hno
    have hhead:=length_of_told_lt hfirst hnor hr
    have htail:=ih hnors hrs
    rw [flatMap_cons,flatMap_cons,length_append,length_append,
      countP_cons]
    by_cases hflow : HasFlow r.code
    · simp only [hflow,decide_true,if_true] at hhead ⊢
      omega
    · simp only [hflow,decide_false,if_false,Bool.false_eq_true] at hhead ⊢
      omega

theorem netBytes_two (n : Nat) :
    netBytes 2 n=[Fin.ofNat 256 (n / 256),Fin.ofNat 256 n] := by
  rw [netBytes_succ,netBytes_succ]
  rfl

theorem readRule_displaced (a b c hi : Byte) (l : List Byte) (h : hi.val / 32=0) :
    readRule (a::b::c::hi::l) = .error .unknown := by
  have hbody : ∀ identifier length,readBody identifier length hi l = .error .unknown :=
    fun _ _ => if_pos (.inl h)
  exact hbody a _

theorem readRule_builtBytes (first : Nat) (hs : r.Sound) (a b : Byte) (l : List Byte) :
    readRule (a::b::(r.builtBytes first++l)) = .error .unknown := by
  have hlt:=length_body_lt hs first
  rw [QosRule.builtBytes,netBytes_two]
  refine readRule_displaced a b r.identifier _ _ ?_
  show ((r.body first).length+1) / 256 % 256 / 32=0
  omega

theorem flow_of_told (hfirst : HasFlow first) (hs : ∀ r∈rs,r.Sound)
    (hfive : ∀ r∈rs,r.code=modifyAndDeletePacketFilters → r.filters=[])
    (hparse : readAll readRule stopFault room (rs.flatMap (QosRule.builtBytes first)) = .ok rs')
    (h : rs'.map QosRule.told=rs.map QosRule.told) :
    (∀ r∈rs,r.Fits first) ∨
      ∃ init last,rs=init++[last] ∧ (∀ r∈init,r.Fits first) ∧ last.Trails first ∧
        rs.length < room := by
  induction rs generalizing rs' room with
  | nil => exact .inl fun r hr => absurd hr not_mem_nil
  | cons r rs ih =>
    obtain ⟨r',rs'',rfl⟩ := exists_cons_of_ne_nil (l := rs') fun hnil => by
      rw [hnil] at h
      cases h
    obtain ⟨hr,hrs⟩ := cons.inj h
    obtain ⟨hsr,hsrs⟩ := forall_mem_cons.mp hs
    obtain ⟨hfiver,hfivers⟩ := forall_mem_cons.mp hfive
    obtain ⟨room,left,rfl,hd,hleft⟩ := readAll_cons hparse
    obtain ⟨hread,-⟩ := (reads_readRule _ _ _).mp hd
    rw [flatMap_cons] at hd
    by_cases hflow : HasFlow r.code
    · have hfits : r.Fits first :=
        ⟨iff_of_true hflow hfirst,fun hno => absurd hno (not_or.mpr
          ⟨fun hno => hno.elim hflow.1 hflow.2.2,fun hno => hno.elim hfirst.1 hfirst.2.2⟩),
          known_of_told hr hread⟩
      rw [builtBytes_fits hsr hfits,reads_readRule.append (hfits.read hsr)] at hd
      obtain ⟨-,rfl⟩ := Prod.mk.inj (Except.ok.inj hd)
      rcases ih hsrs hfivers hleft hrs with hall | ⟨init,last,rfl,hinit,htrails,hmore⟩
      · exact .inl (forall_mem_cons.mpr ⟨hfits,hall⟩)
      · exact .inr ⟨r::init,last,rfl,forall_mem_cons.mpr ⟨hfits,hinit⟩,htrails,
          Nat.succ_lt_succ hmore⟩
    · have hnone : r.filters=[] :=
        (not_hasFlow_cases hflow).elim (none_of_told hr hread) hfiver
      have htrails : r.Trails first := ⟨⟨hfirst,hflow⟩,hnone⟩
      rw [builtBytes_trails hsr htrails,append_assoc,
        reads_readRule.append (htrails.read hsr)] at hd
      obtain ⟨-,rfl⟩ := Prod.mk.inj (Except.ok.inj hd)
      cases room with
      | zero => cases hleft
      | succ room =>
        cases rs with
        | nil =>
          exact .inr ⟨[],r,rfl,fun r hr => absurd hr not_mem_nil,htrails,
            Nat.succ_lt_succ (Nat.succ_pos room)⟩
        | cons r₂ rs =>
          -- the next rule is not found
          obtain ⟨r₂',rs₃,rfl⟩ := exists_cons_of_ne_nil (l := rs'') fun hnil => by
            rw [hnil] at hrs
            cases hrs
          obtain ⟨-,left',-,hd',-⟩ := readAll_cons hleft
          have hstop:=readRule_builtBytes first (hsrs r₂ (mem_cons_self ..))
            r.precedence r.flow (rs.flatMap (QosRule.builtBytes first))
          rw [flatMap_cons] at hd'
          exact nomatch hstop.symm.trans hd'

/-- Behind a first rule with a flow stands one that deletes packet filters: the contents built for
them are taken for what comes after them. -/
def Shifted (first : QosRule) (rs : List QosRule) : Prop :=
  HasFlow first.code ∧ ∃ r∈rs,r.code=modifyAndDeletePacketFilters ∧ r.filters≠[]

/-- The rules come back if all have the layout of the first one, and otherwise only by accident: if
contents that no packet filter has are read as the rules that were built. -/
theorem qosRules_come_back (first : QosRule) (rs : List QosRule) (room : Nat)
    (hs : ∀ r∈first::rs,r.Sound) (hroom : (first::rs).length ≤ room) :
    (Aligned room first rs → ComesBack room (first::rs)) ∧
      (ComesBack room (first::rs) → Aligned room first rs ∨ Shifted first rs) := by
  refine ⟨aligned_comesBack hs hroom,?_⟩
  rintro ⟨octets,rs',hbuild,hparse,htold⟩
  obtain ⟨hnone,htotal,rfl⟩ := buildQosRules_ok.mp hbuild
  have hno : ∀ r∈first::rs,HasNoFilters first.code → r.filters=[] := fun r hr hcode =>
    filters_eq_nil.mpr (hnone hcode r hr)
  by_cases hflow : HasFlow first.code
  · by_cases hshift : ∃ r∈rs,r.code=modifyAndDeletePacketFilters ∧ r.filters≠[]
    · exact .inr ⟨hflow,hshift⟩
    · refine .inl ⟨htotal,flow_of_told hflow hs ?_ hparse htold⟩
      intro r hr hcode
      rcases mem_cons.mp hr with rfl | hr
      · exact absurd hcode hflow.2.1
      · by_contra hne
        exact hshift ⟨r,hr,hcode,hne⟩
  · obtain ⟨hread,rest,hoctets⟩ := readAll_ok reads_readRule hparse
    have hlen:=congrArg List.length hoctets
    have hcount:=noFlow_of_told hflow hno htold
    rw [length_append] at hlen
    have hzero : (first::rs).countP (fun r => HasFlow r.code)=0 := by omega
    refine .inl ⟨htotal,.inl fun r hr => ?_⟩
    have hrflow : ¬ HasFlow r.code := fun h =>
      countP_eq_zero.mp hzero r hr (decide_eq_true h)
    refine ⟨iff_of_false hrflow hflow,?_,fun h => absurd h hrflow⟩
    rintro (hcode | hcode)
    · obtain ⟨r',hr',hsame⟩ := List.mem_map.mp (htold ▸ List.mem_map_of_mem hr :
        r.told∈rs'.map QosRule.told)
      exact none_of_told hsame (hread r' hr') hcode
    · exact hno r hr hcode

theorem not_comesBack (hbuild : buildQosRules rs = .ok octets)
    (hparse : parseQosRules room octets = .ok rs') (hlen : rs'.length≠rs.length) :
    ¬ ComesBack room rs := by
  rintro ⟨o,l,ho,hl,htold⟩
  rw [hbuild] at ho
  obtain rfl := Except.ok.inj ho
  rw [hparse] at hl
  obtain rfl := Except.ok.inj hl
  have hcount:=congrArg List.length htold
  rw [length_map,length_map] at hcount
  exact hlen hcount

def portRule : QosRule :=
  ⟨1,0,33,padded .zero maxNumOfFlowInNas [⟨49,3,⟨[.port .remote 443],by decide⟩⟩],10,5⟩

def matchAllRule : QosRule :=
  ⟨1,0,33,padded .zero maxNumOfFlowInNas [⟨49,1,⟨[.matchAll],by decide⟩⟩],255,1⟩

def deletedRule : QosRule := ⟨2,0,64,padded .zero maxNumOfFlowInNas [],0,0⟩

theorem portRule_sound : portRule.Sound :=
  ⟨by decide,by decide⟩

theorem qosRules_come_back_port : ComesBack 8 [portRule,portRule] := by
  have hfits : ∀ r∈[portRule,portRule],r.Fits portRule.code := by
    intro r hr
    obtain rfl : r=portRule := by simpa using hr
    exact ⟨Iff.rfl,by decide,by decide⟩
  have hs : ∀ r∈[portRule,portRule],r.Sound := by
    intro r hr
    obtain rfl : r=portRule := by simpa using hr
    exact portRule_sound
  exact (qosRules_come_back portRule [portRule] 8 hs (by decide)).1 ⟨by decide,.inl hfits⟩

/-- A filter for all packets is not parsed, and neither is a rule behind one that is deleted. -/
theorem qosRules_lost :
    ¬ ComesBack 8 [matchAllRule] ∧ ¬ ComesBack 8 [portRule,deletedRule,portRule] := by
  have hall : buildQosRules [matchAllRule] = .ok [1,0,6,33,49,1,1,255,1] := by
    decide
  have hthree : buildQosRules [portRule,deletedRule,portRule] =
      .ok [1,0,8,33,49,3,80,1,187,10,5,2,0,3,64,0,0,
        1,0,8,33,49,3,80,1,187,10,5] := by
    decide
  have hnone : parseQosRules 8 [1,0,6,33,49,1,1,255,1] = .ok [] := by decide
  have htwo : parseQosRules 8 [1,0,8,33,49,3,80,1,187,10,5,2,0,3,64,0,0,
      1,0,8,33,49,3,80,1,187,10,5] =
        .ok [portRule.parsed 1,deletedRule.parsed 1] := by
    decide
  exact ⟨not_comesBack hall hnone (by decide),not_comesBack hthree htwo (by decide)⟩

end OgsDp.Nas
