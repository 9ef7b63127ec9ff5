import OgsDp.Ipfw.PacketFilter
import OgsDp.Lib.Writes

/-!
# QoS rules (lib/nas/5gs/types.c)

The code of a rule says whether its packet filters have contents and whether a precedence and a
flow follow them.
-/

namespace OgsDp.Nas
open OgsDp.Core Lib Ipfw

def maxNumOfQosRule : Nat := 8
def maxNumOfFlowInNas : Nat := 15
def maxQosRulesLen : Nat := 65535

structure QosRulePf where
  flags : Byte
  content : PfContent
  deriving DecidableEq

def QosRulePf.zero : QosRulePf := ⟨0,.zero⟩

/-- `ogs_nas_qos_rule_t`; `flow` are the flags of the flow. -/
structure QosRule where
  identifier : Byte
  length : BitVec 16
  flags : Byte
  pf : Vector QosRulePf maxNumOfFlowInNas
  precedence : Byte
  flow : Byte
  deriving DecidableEq

namespace QosRule

def code (r : QosRule) : Nat := r.flags.val / 32

def numOfPacketFilter (r : QosRule) : Nat := r.flags.val % 16

def flowIdentifier (r : QosRule) : Nat := r.flow.val % 64

def filters (r : QosRule) : List QosRulePf := r.pf.toList.take r.numOfPacketFilter

end QosRule

def deleteExistingQosRule : Nat := 2
def modifyAndDeletePacketFilters : Nat := 5
def modifyWithoutPacketFilters : Nat := 6

def HasNoFilters (code : Nat) : Prop :=
  code=deleteExistingQosRule ∨ code=modifyWithoutPacketFilters

def HasFlow (code : Nat) : Prop :=
  code≠deleteExistingQosRule ∧ code≠modifyAndDeletePacketFilters ∧
    code≠modifyWithoutPacketFilters

instance (code : Nat) : Decidable (HasNoFilters code) := inferInstanceAs (Decidable (_ ∨ _))

instance (code : Nat) : Decidable (HasFlow code) := inferInstanceAs (Decidable (_ ∧ _))

def putRules (bytes out : List Byte) : Except Fault (List Byte) :=
  putWithin .assertion maxQosRulesLen bytes out

def putRulePf (code : Nat) (p : QosRulePf) (out : List Byte) : Except Fault (List Byte) :=
  putRules [p.flags] out >>= fun out =>
    if code=modifyAndDeletePacketFilters then .ok out
    else
      putRules [p.content.length] out >>= fun out =>
        p.content.component.1.foldlM (fun out c => putRules c.bytes out) out

def putFilters (code : Nat) (r : QosRule) (out : List Byte) : Except Fault (List Byte) :=
  if HasNoFilters code ∧ r.numOfPacketFilter≠0 then .error .assertion
  else r.filters.foldlM (fun out p => putRulePf code p out) out

def putFlow (code : Nat) (r : QosRule) (out : List Byte) : Except Fault (List Byte) :=
  if HasFlow code then putRules [r.precedence] out >>= putRules [r.flow] else .ok out

-- The length goes where `rule_length` points to, when the rule is written.
def patchLength (pos : Nat) (out : List Byte) : List Byte :=
  out.take pos++netBytes 2 (out.length-pos-2)++out.drop (pos+2)

def putRule (code : Nat) (r : QosRule) (out : List Byte) : Except Fault (List Byte) :=
  putRules [r.identifier] out >>= fun start =>
    putRules [0,0] start >>= putRules [r.flags] >>= putFilters code r >>= putFlow code r >>=
      fun out => .ok (patchLength start.length out)

def buildQosRules : List QosRule → Except Fault (List Byte)
  | [] => .error .assertion
  | first::rs => (first::rs).foldlM (fun out r => putRule first.code r out) []

def readRulePf (code : Nat) (l : List Byte) : Except PfStop (QosRulePf × List Byte) :=
  checkedOne l >>= fun flags =>
    if code=modifyAndDeletePacketFilters then .ok (⟨flags.1,.zero⟩,flags.2)
    else readContent flags.2 >>= fun content => .ok (⟨flags.1,content.1⟩,content.2)

def readFlow (code : Nat) (l : List Byte) : Except PfStop ((Byte × Byte) × List Byte) :=
  if HasFlow code then
    checkedOne l >>= fun precedence => checkedOne precedence.2 >>= fun flow =>
      .ok ((precedence.1,flow.1),flow.2)
  else .ok ((0,0),l)

def readBody (identifier : Byte) (length : BitVec 16) (flags : Byte) (l : List Byte) :
    Except PfStop (QosRule × List Byte) :=
  let code:=flags.val / 32
  let num:=flags.val % 16
  if code=0 ∨ code=7 then .error .unknown
  else if HasNoFilters code ∧ num≠0 then .error .unknown
  else
    readMany (readRulePf code) (min num maxNumOfFlowInNas) l >>= fun pfs =>
      readFlow code pfs.2 >>= fun flow =>
        .ok (⟨identifier,length,flags,padded .zero maxNumOfFlowInNas pfs.1,flow.1.1,
          flow.1.2⟩,flow.2)

def readRule (l : List Byte) : Except PfStop (QosRule × List Byte) :=
  checkedOne l >>= fun identifier => checkedNet16 identifier.2 >>= fun length =>
    checkedOne length.2 >>= fun flags => readBody identifier.1 length.1 flags.1 flags.2

/-- Where the loop over the components ends outside its array or its octets. -/
def stopFault : PfStop → Option Fault
  | .full => some .write
  | .beyond => some .read
  | _ => none

/-- `ogs_nas_parse_qos_rules` into an array with `room` for them: the rules that it counts. -/
def parseQosRules (room : Nat) (octets : List Byte) : Except Fault (List QosRule) :=
  readAll readRule stopFault room octets

def QosRulePf.bytes (code : Nat) (p : QosRulePf) : List Byte :=
  if code=modifyAndDeletePacketFilters then [p.flags] else p.flags::p.content.bytes

namespace QosRule

def body (code : Nat) (r : QosRule) : List Byte :=
  r.filters.flatMap (QosRulePf.bytes code) ++
    if HasFlow code then [r.precedence,r.flow] else []

def builtBytes (code : Nat) (r : QosRule) : List Byte :=
  r.identifier::(netBytes 2 ((r.body code).length+1)++r.flags::r.body code)

def bytes (r : QosRule) : List Byte :=
  r.identifier::(netBytes 2 r.length.toNat++r.flags::r.body r.code)

end QosRule

variable {code : Nat} {r : QosRule} {rs : List QosRule} {p : QosRulePf} {l rest out : List Byte}
  {e : PfStop}

theorem length_builtBytes (code : Nat) (r : QosRule) :
    (r.builtBytes code).length=(r.body code).length+4 := by
  simp only [QosRule.builtBytes,List.length_cons,List.length_append,length_netBytes]
  omega

theorem length_ruleBytes (r : QosRule) : r.bytes.length=(r.body r.code).length+4 := by
  simp only [QosRule.bytes,List.length_cons,List.length_append,length_netBytes]
  omega

theorem writes_putRules (bytes : List Byte) : Writes (putRules bytes) maxQosRulesLen bytes :=
  writes_putWithin _ _ bytes

theorem writes_putRulePf (code : Nat) (p : QosRulePf) :
    Writes (putRulePf code p) maxQosRulesLen (p.bytes code) := by
  unfold putRulePf QosRulePf.bytes
  by_cases hcode : code=modifyAndDeletePacketFilters
  · simp only [if_pos hcode]
    exact (writes_putRules [p.flags]).bind Writes.nil
  · simp only [if_neg hcode]
    have hcontent : Writes
        (fun out => p.content.component.1.foldlM (fun out c => putRules c.bytes out) out)
        maxQosRulesLen (componentBytes p.content.component.1) :=
      Writes.foldlM fun c _ => writes_putRules c.bytes
    exact (writes_putRules [p.flags]).bind ((writes_putRules [p.content.length]).bind hcontent)

theorem writes_putFilters (h : HasNoFilters code → r.numOfPacketFilter=0) :
    Writes (putFilters code r) maxQosRulesLen (r.filters.flatMap (QosRulePf.bytes code)) := by
  have hcond : ¬ (HasNoFilters code ∧ r.numOfPacketFilter≠0) := fun hc => hc.2 (h hc.1)
  unfold putFilters
  simp only [if_neg hcond]
  exact Writes.foldlM fun p _ => writes_putRulePf code p

theorem writes_putFlow (code : Nat) (r : QosRule) : Writes (putFlow code r) maxQosRulesLen
    (if HasFlow code then [r.precedence,r.flow] else []) := by
  unfold putFlow
  split
  · exact (writes_putRules [r.precedence]).bind (writes_putRules [r.flow])
  · exact Writes.nil

theorem patchLength_append (start body : List Byte) :
    patchLength start.length (start++0::0::body) =
      start++(netBytes 2 body.length++body) := by
  have hdrop : (start++0::0::body).drop (start.length+2)=body := by
    rw [← List.drop_drop,List.drop_left]
    rfl
  have hlen : (start++0::0::body).length-start.length-2=body.length := by
    simp only [List.length_append,List.length_cons]
    omega
  rw [patchLength,hdrop,hlen,List.take_left,List.append_assoc]

theorem writes_putRule (h : HasNoFilters code → r.numOfPacketFilter=0) :
    Writes (putRule code r) maxQosRulesLen (r.builtBytes code) := by
  have hbody : Writes (fun start => putRules [0,0] start >>= putRules [r.flags] >>=
      putFilters code r >>= putFlow code r) maxQosRulesLen (0::0::r.flags::r.body code) := by
    have hall:=((((writes_putRules [0,0]).bind (writes_putRules [r.flags])).bind
      (writes_putFilters h)).bind (writes_putFlow code r))
    rw [List.append_assoc,List.append_assoc] at hall
    exact hall
  intro out o hout
  have hid:=writes_putRules [r.identifier]
  rw [length_builtBytes]
  unfold putRule
  constructor
  · intro hok
    obtain ⟨start,hstart,hok⟩ := bind_eq_ok.mp hok
    obtain ⟨written,hwritten,hok⟩ := bind_eq_ok.mp hok
    obtain ⟨hfits,rfl⟩ := (hid out start hout).mp hstart
    rw [List.length_append.symm] at hfits
    obtain ⟨hfits',rfl⟩ := (hbody _ written hfits).mp hwritten
    rw [patchLength_append] at hok
    obtain rfl := Except.ok.inj hok
    simp only [List.length_append,List.length_cons,List.length_nil] at hfits'
    refine ⟨by omega,?_⟩
    rw [QosRule.builtBytes,List.append_assoc]
    rfl
  · rintro ⟨hfits,rfl⟩
    have hstart : putRules [r.identifier] out = .ok (out++[r.identifier]) :=
      hid.append (by rw [List.length_singleton]; omega)
    have hfits' : (out++[r.identifier]).length+(0::0::r.flags::r.body code).length ≤
        maxQosRulesLen := by
      simp only [List.length_append,List.length_cons,List.length_nil]
      omega
    have hwritten:=hbody.append hfits'
    rw [hstart]
    show ((putRules [0,0] (out++[r.identifier]) >>= putRules [r.flags] >>=
      putFilters code r >>= putFlow code r) >>= _)=_
    rw [hwritten]
    show Except.ok (patchLength _ _)=_
    rw [patchLength_append,QosRule.builtBytes,List.append_assoc]
    rfl

theorem putRule_ok_none {o : List Byte} (h : putRule code r out = .ok o) :
    HasNoFilters code → r.numOfPacketFilter=0 := by
  intro hcode
  by_contra hnum
  have hstop : ∀ out,putFilters code r out = .error .assertion := fun out => if_pos ⟨hcode,hnum⟩
  obtain ⟨start,-,h⟩ := bind_eq_ok.mp h
  obtain ⟨written,h,-⟩ := bind_eq_ok.mp h
  obtain ⟨filtered,h,-⟩ := bind_eq_ok.mp h
  obtain ⟨o',-,h⟩ := bind_eq_ok.mp h
  rw [hstop] at h
  cases h

theorem buildQosRules_ok {first : QosRule} {octets : List Byte} :
    buildQosRules (first::rs) = .ok octets ↔
      (HasNoFilters first.code → ∀ r∈first::rs,r.numOfPacketFilter=0) ∧
        ((first::rs).flatMap (QosRule.builtBytes first.code)).length ≤ maxQosRulesLen ∧
          octets=(first::rs).flatMap (QosRule.builtBytes first.code) := by
  have hwrites : (HasNoFilters first.code → ∀ r∈first::rs,r.numOfPacketFilter=0) →
      (buildQosRules (first::rs) = .ok octets ↔
        ((first::rs).flatMap (QosRule.builtBytes first.code)).length ≤ maxQosRulesLen ∧
          octets=(first::rs).flatMap (QosRule.builtBytes first.code)) := by
    intro hnone
    have hall : Writes (fun out => (first::rs).foldlM (fun out r => putRule first.code r out) out)
        maxQosRulesLen ((first::rs).flatMap (QosRule.builtBytes first.code)) :=
      Writes.foldlM fun r hr => writes_putRule fun hcode => hnone hcode r hr
    have hout:=hall [] octets (Nat.zero_le _)
    rw [List.length_nil,Nat.zero_add,List.nil_append] at hout
    exact hout
  constructor
  · intro hok
    have hnone : HasNoFilters first.code → ∀ r∈first::rs,r.numOfPacketFilter=0 := by
      intro hcode r hr
      obtain ⟨o,o',hput⟩ := Writes.foldlM_ok_mem hok hr
      exact putRule_ok_none hput hcode
    exact ⟨hnone,(hwrites hnone).mp hok⟩
  · rintro ⟨hnone,hok⟩
    exact (hwrites hnone).mpr hok

/-- What the parser reads as a packet filter of a rule with this code. -/
def QosRulePf.Read (code : Nat) (p : QosRulePf) : Prop :=
  if code=modifyAndDeletePacketFilters then p.content = .zero else p.content.Read

structure QosRule.Read (r : QosRule) : Prop where
  code : r.code≠0 ∧ r.code≠7
  none : HasNoFilters r.code → r.numOfPacketFilter=0
  filters : ∀ p∈r.filters,p.Read r.code
  pf : r.pf=padded .zero maxNumOfFlowInNas r.filters
  flow : ¬ HasFlow r.code → r.precedence=0 ∧ r.flow=0

theorem length_filters (r : QosRule) :
    r.filters.length=min r.numOfPacketFilter maxNumOfFlowInNas := by
  rw [QosRule.filters,List.length_take,Vector.length_toList]

theorem reads_readRulePf (code : Nat) :
    Reads (readRulePf code) (QosRulePf.bytes code) (QosRulePf.Read code) := by
  intro l p rest
  unfold readRulePf QosRulePf.bytes QosRulePf.Read
  rw [reads_checkedOne.bind_ok]
  by_cases hcode : code=modifyAndDeletePacketFilters
  · simp only [if_pos hcode]
    constructor
    · rintro ⟨flags,rest',-,rfl,hok⟩
      obtain ⟨rfl,rfl⟩ := Prod.mk.inj (Except.ok.inj hok)
      exact ⟨rfl,rfl⟩
    · rintro ⟨hp,rfl⟩
      exact ⟨p.flags,rest,trivial,rfl,by rw [← hp]⟩
  · simp only [if_neg hcode]
    constructor
    · rintro ⟨flags,rest',-,rfl,hok⟩
      obtain ⟨content,rest'',hread,hrest,hok⟩ := reads_readContent.bind_ok.mp hok
      obtain ⟨rfl,rfl⟩ := Prod.mk.inj (Except.ok.inj hok)
      exact ⟨hread,by rw [hrest]; rfl⟩
    · rintro ⟨hread,rfl⟩
      refine ⟨p.flags,p.content.bytes++rest,trivial,rfl,?_⟩
      exact reads_readContent.bind_ok.mpr ⟨p.content,rest,hread,rfl,rfl⟩

theorem reads_readFlow (code : Nat) : Reads (readFlow code)
    (fun flow => if HasFlow code then [flow.1,flow.2] else [])
    fun flow => ¬ HasFlow code → flow=(0,0) := by
  intro l flow rest
  unfold readFlow
  by_cases hflow : HasFlow code
  · simp only [if_pos hflow]
    have hpair : Reads (fun l => checkedOne l >>= fun precedence =>
        checkedOne precedence.2 >>= fun flow => .ok ((precedence.1,flow.1),flow.2))
        (fun flow : Byte × Byte => [flow.1,flow.2]) _ :=
      reads_checkedOne.pair reads_checkedOne Prod.mk fun _ _ => rfl
    constructor
    · intro hok
      exact ⟨fun hno => absurd hflow hno,((hpair l flow rest).mp hok).2⟩
    · rintro ⟨-,rfl⟩
      exact hpair.append ⟨flow.1,flow.2,trivial,trivial,rfl⟩ rest
  · simp only [if_neg hflow]
    constructor
    · intro hok
      obtain ⟨rfl,rfl⟩ := Prod.mk.inj (Except.ok.inj hok)
      exact ⟨fun _ => rfl,rfl⟩
    · rintro ⟨hzero,rfl⟩
      rw [hzero hflow]

theorem reads_readBody (identifier : Byte) (length : BitVec 16) (flags : Byte) :
    Reads (readBody identifier length flags) (fun r => r.body r.code)
      fun r => r.identifier=identifier ∧ r.length=length ∧ r.flags=flags ∧ r.Read := by
  intro l r rest
  unfold readBody
  by_cases hres : flags.val / 32=0 ∨ flags.val / 32=7
  · rw [if_pos hres]
    refine iff_of_false nofun ?_
    rintro ⟨⟨-,-,rfl,hread⟩,-⟩
    exact hres.elim hread.code.1 hread.code.2
  rw [if_neg hres]
  by_cases hnone : HasNoFilters (flags.val / 32) ∧ flags.val % 16≠0
  · rw [if_pos hnone]
    refine iff_of_false nofun ?_
    rintro ⟨⟨-,-,rfl,hread⟩,-⟩
    exact hnone.2 (hread.none hnone.1)
  rw [if_neg hnone,(reads_readMany (reads_readRulePf _) _).bind_ok]
  constructor
  · rintro ⟨pfs,rest',⟨hlen,hpfs⟩,rfl,hok⟩
    obtain ⟨flow,rest'',hflow,hrest,hok⟩ := (reads_readFlow _).bind_ok.mp hok
    obtain ⟨rfl,rfl⟩ := Prod.mk.inj (Except.ok.inj hok)
    simp only at hrest
    have hfilters : QosRule.filters ⟨identifier,length,flags,padded .zero maxNumOfFlowInNas pfs,
        flow.1,flow.2⟩=pfs := take_padded hlen
    refine ⟨⟨rfl,rfl,rfl,not_or.mp hres,fun hcode => ?_,?_,?_,fun hno => ?_⟩,?_⟩
    · by_contra hnum
      exact hnone ⟨hcode,hnum⟩
    · rw [hfilters]
      exact hpfs
    · rw [hfilters]
    · rw [hflow hno]
      exact ⟨rfl,rfl⟩
    · simp only [QosRule.body,hfilters]
      rw [hrest,List.append_assoc]
      rfl
  · rintro ⟨⟨rfl,rfl,rfl,hread⟩,rfl⟩
    refine ⟨r.filters,(if HasFlow r.code then [r.precedence,r.flow] else [])++rest,
      ⟨length_filters r,hread.filters⟩,List.append_assoc ..,?_⟩
    refine (reads_readFlow _).bind_ok.mpr ⟨(r.precedence,r.flow),rest,fun hno => ?_,rfl,?_⟩
    · obtain ⟨hprecedence,hflow⟩ := hread.flow hno
      rw [hprecedence,hflow]
    · rw [← hread.pf]

theorem reads_readRule : Reads readRule QosRule.bytes QosRule.Read := by
  intro l r rest
  rw [readRule,reads_checkedOne.bind_ok]
  constructor
  · rintro ⟨identifier,rest',-,rfl,hok⟩
    obtain ⟨length,rest'',-,hrest,hok⟩ := reads_checkedNet16.bind_ok.mp hok
    obtain ⟨flags,rest₃,-,hrest',hok⟩ := reads_checkedOne.bind_ok.mp hok
    obtain ⟨⟨rfl,rfl,rfl,hread⟩,hbody⟩ := (reads_readBody _ _ _ _ _ _).mp hok
    simp only at hrest hrest' hbody
    refine ⟨hread,?_⟩
    rw [QosRule.bytes,hrest,hrest',hbody]
    simp only [List.cons_append,List.nil_append,List.append_assoc]
  · rintro ⟨hread,rfl⟩
    refine ⟨r.identifier,netBytes 2 r.length.toNat++r.flags::r.body r.code++rest,trivial,
      rfl,?_⟩
    refine reads_checkedNet16.bind_ok.mpr
      ⟨r.length,r.flags::r.body r.code++rest,trivial,List.append_assoc ..,?_⟩
    refine reads_checkedOne.bind_ok.mpr ⟨r.flags,r.body r.code++rest,trivial,rfl,?_⟩
    exact (reads_readBody _ _ _).append ⟨rfl,rfl,rfl,hread⟩ rest

end OgsDp.Nas
