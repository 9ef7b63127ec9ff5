import Mathlib.Algebra.BigOperators.Group.Finset.Basic
import Mathlib.Algebra.Order.BigOperators.Group.Finset
import OgsDp.Core.Conv
import OgsDp.Pfcp.Handler

/-!
# SDF filters (lib/pfcp/types.c, context.c and handler.c, lib/ipfw/ogs-ipfw.c)

An SDF filter of a PDI becomes a rule in the list of its PDR. Of the rule pool only the number of
its free nodes is kept.
-/

namespace OgsDp.Pfcp
open Lib OgsDp.Core Function

structure SdfFilter where
  flags : Byte
  flowDescriptionLen : Nat
  flowDescription : List Byte
  tosTrafficClass : BitVec 16
  securityParameterIndex : BitVec 32
  flowLabel : BitVec 32
  sdfFilterId : BitVec 32

namespace SdfFilter

def zero : SdfFilter := ⟨0,0,[],0,0,0,0⟩

def fd (f : SdfFilter) : Bool := f.flags.val.testBit 0
def ttc (f : SdfFilter) : Bool := f.flags.val.testBit 1
def spi (f : SdfFilter) : Bool := f.flags.val.testBit 2
def fl (f : SdfFilter) : Bool := f.flags.val.testBit 3
def bid (f : SdfFilter) : Bool := f.flags.val.testBit 4

end SdfFilter

def be32 (octets : List Byte) : BitVec 32 :=
  octets.foldl (fun x b => x*256+BitVec.ofNat 32 b.val) 0

def sdfField (octets : List Byte) (present : SdfFilter → Bool) (len : Nat)
    (put : List Byte → SdfFilter → SdfFilter) (r : SdfFilter × Option Nat) :
    SdfFilter × Option Nat :=
  match r with
  | (f,none) => (f,none)
  | (f,some size) =>
    if present f then
      if octets.length<size+len then (f,none)
      else (put ((octets.drop size).take len) f,some (size+len))
    else (f,some size)

def sdfDescription (octets : List Byte) (r : SdfFilter × Option Nat) : SdfFilter × Option Nat :=
  match r with
  | (f,none) => (f,none)
  | (f,some size) =>
    if f.fd then
      ({ f with flowDescription := (octets.drop size).take f.flowDescriptionLen },
        some (size+f.flowDescriptionLen))
    else (f,some size)

/-- `ogs_pfcp_parse_sdf_filter`. A field of 16 or 24 bits is swapped as one of 32. -/
def parseSdfFilter (octets : List Byte) : SdfFilter × BitVec 16 :=
  let r:=sdfField octets (fun _ => true) 1 (fun b f => { f with flags := b.headD 0 })
    (SdfFilter.zero,some 0)
  let r:=sdfField octets (fun _ => true) 1 (fun _ f => f) r
  let r:=sdfField octets SdfFilter.fd 2
    (fun b f => { f with flowDescriptionLen := (be32 b).toNat }) r
  let r:=sdfDescription octets r
  let r:=sdfField octets SdfFilter.ttc 2
    (fun b f => { f with tosTrafficClass := (be32 (b++[0,0])).setWidth 16 }) r
  let r:=sdfField octets SdfFilter.spi 4
    (fun b f => { f with securityParameterIndex := be32 b }) r
  let r:=sdfField octets SdfFilter.fl 3 (fun b f => { f with flowLabel := be32 (b++[0]) }) r
  let r:=sdfField octets SdfFilter.bid 4 (fun b f => { f with sdfFilterId := be32 b }) r
  (r.1,BitVec.ofNat 16 (r.2.getD 0))

-- What was decoded is an `int16_t` and the length an `uint32_t`.
def sdfFilterValid (octets : List Byte) : Bool :=
  ((parseSdfFilter octets).2.signExtend 32).toNat == octets.length

structure IpfwSide where
  ipv4 : Byte
  ipv6 : Byte
  addr : Vector (BitVec 32) 4
  mask : Vector (BitVec 32) 4
  low : BitVec 16
  high : BitVec 16

structure IpfwRule where
  proto : Byte
  src : IpfwSide
  dst : IpfwSide

def IpfwSide.zero : IpfwSide := ⟨0,0,Vector.replicate 4 0,Vector.replicate 4 0,0,0⟩

def IpfwRule.zero : IpfwRule := ⟨0,.zero,.zero⟩

def IpfwRule.swap (rule : IpfwRule) : IpfwRule := { rule with src := rule.dst,dst := rule.src }

-- `ogs_strtok_r` with a space, behind the part `word` of a word.
def wordsFrom (word : List Byte) : List Byte → List (List Byte)
  | [] => if word=[] then [] else [word]
  | b::text =>
    if b=32 then
      if word=[] then wordsFrom [] text else word::wordsFrom [] text
    else wordsFrom (word++[b]) text

def toAny : List (List Byte) → List (List Byte)
  | a::b::av =>
    if a=ascii "to" ∧ b=ascii "assigned" then a::ascii "any" :: av else a::toAny (b::av)
  | av => av

/-- `ogs_ipfw_compile_rule`; none where it returns `OGS_ERROR`, which fails the assertion on it,
or compares a word that is not there. -/
def ipfwCompileRule (assemble : List (List Byte) → Option IpfwRule) (flowDescription : List Byte) :
    Option IpfwRule :=
  match wordsFrom [] flowDescription with
  | action::dir::av =>
    if action=ascii "permit" ∧ dir=ascii "out" then
      assemble (toAny (action::(av.take 28++[dir])))
    else none
  | _ => none

structure FlowRule where
  flags : Byte
  sdfFilterId : BitVec 32
  ipfw : IpfwRule

/-- The free nodes of `ogs_pfcp_rule_pool` and the rule lists of the PDRs. -/
structure FlowRules where
  free : Nat
  list : Nat → List FlowRule

def maxNumOfFlowInPdr : Nat := 15

def interfaceAccess : Byte := 0

namespace FlowRules

variable (t : FlowRules)

def init (poolSess : Nat) : FlowRules where
  free := poolSess*maxNumOfPdr*maxNumOfFlowInPdr
  list := fun _ => []

def removeAll (p : Nat) : FlowRules where
  free := t.free+(t.list p).length
  list := update t.list p []

/-- `ogs_pfcp_rule_find_by_sdf_filter_id`, in the PDRs of a session. -/
def findBySdfFilterId (pdrs : List Nat) (sdfFilterId : BitVec 32) : Option FlowRule :=
  (pdrs.flatMap t.list).find? fun rule =>
    rule.flags.val.testBit 4 && rule.sdfFilterId == sdfFilterId

def put (p : Nat) (rule : FlowRule) : FlowRules where
  free := t.free-1
  list := update t.list p (t.list p++[rule])

-- One valid filter of the PDR `p`. It is skipped, or it takes a node and is compiled.
def addFilter (assemble : List (List Byte) → Option IpfwRule) (pdrs : List Nat) (p : Nat)
    (srcIf : Byte) (f : SdfFilter) : Outcome FlowRules Unit :=
  let opposite := if f.bid then t.findBySdfFilterId pdrs f.sdfFilterId else none
  if opposite.isNone && !f.fd then .ok t ()
  else if t.free=0 then .abort t
  else
    let rule : FlowRule := {
      flags := f.flags
      sdfFilterId := if f.bid then f.sdfFilterId else 0
      ipfw := opposite.elim .zero fun rule => rule.ipfw.swap }
    if f.fd then
      match ipfwCompileRule assemble (f.flowDescription.takeWhile fun b => b != 0) with
      | none => .abort (t.put p rule)
      | some ipfw =>
        .ok (t.put p { rule with
          ipfw := if srcIf=interfaceAccess then ipfw.swap else ipfw }) ()
    else .ok (t.put p rule) ()

def addFilters (assemble : List (List Byte) → Option IpfwRule) (pdrs : List Nat) (p : Nat)
    (srcIf : Byte) : FlowRules → List (List Byte) → Outcome FlowRules Unit
  | t, [] => .ok t ()
  | t, octets::filters =>
    if sdfFilterValid octets then
      (t.addFilter assemble pdrs p srcIf (parseSdfFilter octets).1).bind fun t _ =>
        addFilters assemble pdrs p srcIf t filters
    else .ok t ()

/-- The rules of the PDR `p` are made anew. `filters` are the SDF filters that are present from
the first on; behind the eighth the loop reads the IEs that follow them in the message. -/
def setFilters (assemble : List (List Byte) → Option IpfwRule) (pdrs : List Nat) (p : Nat)
    (srcIf : Byte) (filters : List (List Byte)) : Outcome FlowRules Unit :=
  addFilters assemble pdrs p srcIf (t.removeAll p) (filters.take maxNumOfFlowInPdr)

end FlowRules

open scoped BigOperators

/-- Of `n` PDRs each has at most fifteen rules, and the nodes are all accounted for. -/
structure FlowRules.Stocked (n : Nat) (t : FlowRules) : Prop where
  each : ∀ p,(t.list p).length ≤ maxNumOfFlowInPdr
  total : t.free + ∑ p∈Finset.range n, (t.list p).length=n*maxNumOfFlowInPdr

namespace FlowRules.Stocked

variable {n p : Nat} {t : FlowRules} {assemble : List (List Byte) → Option IpfwRule}
  {pdrs : List Nat} {srcIf : Byte}

theorem init (poolSess : Nat) : (FlowRules.init poolSess).Stocked (poolSess*maxNumOfPdr) where
  each := fun _ => Nat.zero_le _
  total := by simp [FlowRules.init]

theorem sum_update {f : Nat → List FlowRule} (hp : p<n) (l : List FlowRule) :
    ∑ q∈Finset.range n, (update f p l q).length+(f p).length =
      ∑ q∈Finset.range n, (f q).length+l.length := by
  have hmem : p∈Finset.range n := Finset.mem_range.mpr hp
  have hrest : ∑ q∈(Finset.range n).erase p, (update f p l q).length =
      ∑ q∈(Finset.range n).erase p, (f q).length := by
    apply Finset.sum_congr rfl
    intro q hq
    rw [update_of_ne (Finset.ne_of_mem_erase hq)]
  have hupdated:=Finset.sum_erase_add (Finset.range n)
    (fun q => (update f p l q).length) hmem
  have hold:=Finset.sum_erase_add (Finset.range n) (fun q => (f q).length) hmem
  simp only [update_self] at hupdated
  omega

theorem removeAll (h : t.Stocked n) (hp : p<n) : (t.removeAll p).Stocked n := by
  constructor
  · intro q
    simp only [FlowRules.removeAll,update_apply]
    split
    · exact Nat.zero_le _
    · exact h.each q
  · have htotal:=h.total
    have hsum:=sum_update (f := t.list) hp []
    simp only [List.length_nil] at hsum
    simp only [FlowRules.removeAll]
    omega

theorem free_pos (h : t.Stocked n) (hp : p<n) (hlen : (t.list p).length < maxNumOfFlowInPdr) :
    0<t.free := by
  have hmem : p∈Finset.range n := Finset.mem_range.mpr hp
  have hlt : ∑ q∈Finset.range n, (t.list q).length <
      ∑ _q∈Finset.range n, maxNumOfFlowInPdr :=
    Finset.sum_lt_sum (fun q _ => h.each q) ⟨p,hmem,hlen⟩
  rw [Finset.sum_const,Finset.card_range,Nat.nsmul_eq_mul] at hlt
  have htotal:=h.total
  omega

theorem put (h : t.Stocked n) (hp : p<n) (hlen : (t.list p).length < maxNumOfFlowInPdr)
    (rule : FlowRule) : (t.put p rule).Stocked n := by
  have hfree:=h.free_pos hp hlen
  constructor
  · intro q
    simp only [FlowRules.put,update_apply]
    split
    · rw [List.length_append,List.length_singleton]
      exact hlen
    · exact h.each q
  · have htotal:=h.total
    have hsum:=sum_update (f := t.list) hp (t.list p++[rule])
    simp only [List.length_append,List.length_singleton] at hsum
    simp only [FlowRules.put]
    omega

end FlowRules.Stocked

def SdfFilter.Compiles (assemble : List (List Byte) → Option IpfwRule) (f : SdfFilter) : Prop :=
  f.fd=true →
    (ipfwCompileRule assemble (f.flowDescription.takeWhile fun b => b != 0)).isSome

def FiltersCompile (assemble : List (List Byte) → Option IpfwRule) (filters : List (List Byte)) :
    Prop :=
  ∀ octets ∈ (filters.take maxNumOfFlowInPdr).takeWhile sdfFilterValid,
    (parseSdfFilter octets).1.Compiles assemble

namespace FlowRules

variable {n p : Nat} {t t' : FlowRules} (assemble : List (List Byte) → Option IpfwRule)
  (pdrs : List Nat) (srcIf : Byte)

theorem addFilter_iff (h : t.Stocked n) (hp : p<n)
    (hlen : (t.list p).length < maxNumOfFlowInPdr) (f : SdfFilter) :
    (f.Compiles assemble ∧ ∃ t',t.addFilter assemble pdrs p srcIf f = .ok t' () ∧
      t'.Stocked n ∧ (t'.list p).length≤(t.list p).length+1) ∨
    ¬ f.Compiles assemble ∧ ∃ t',t.addFilter assemble pdrs p srcIf f = .abort t' := by
  have hfree:=h.free_pos hp hlen
  have hput : ∀ rule,((t.put p rule).list p).length≤(t.list p).length+1 := by
    intro rule
    simp [FlowRules.put]
  unfold addFilter SdfFilter.Compiles
  generalize (if f.bid=true then t.findBySdfFilterId pdrs f.sdfFilterId else none)=opposite
  cases hfd : f.fd with
  | false =>
    refine .inl ⟨fun hno => (by cases hno),?_⟩
    dsimp only
    split
    · exact ⟨t,rfl,h,Nat.le_succ _⟩
    · rw [if_neg (by omega)]
      exact ⟨_,rfl,h.put hp hlen _,hput _⟩
  | true =>
    simp only [Bool.not_true,Bool.and_false,Bool.false_eq_true,if_false,if_true]
    rw [if_neg (by omega)]
    cases hcompile : ipfwCompileRule assemble (f.flowDescription.takeWhile fun b => b != 0) with
    | none => exact .inr ⟨fun hall => (by cases hall trivial),_,rfl⟩
    | some ipfw => exact .inl ⟨fun _ => rfl,_,rfl,h.put hp hlen _,hput _⟩

theorem addFilters_iff (h : t.Stocked n) (hp : p<n) (filters : List (List Byte))
    (hlen : (t.list p).length+filters.length ≤ maxNumOfFlowInPdr) :
    ((∀ octets∈filters.takeWhile sdfFilterValid,(parseSdfFilter octets).1.Compiles assemble) ∧
      ∃ t',addFilters assemble pdrs p srcIf t filters = .ok t' () ∧ t'.Stocked n) ∨
    ¬ (∀ octets ∈ filters.takeWhile sdfFilterValid,
        (parseSdfFilter octets).1.Compiles assemble) ∧
      ∃ t',addFilters assemble pdrs p srcIf t filters = .abort t' := by
  induction filters generalizing t with
  | nil => exact .inl ⟨by simp,t,rfl,h⟩
  | cons octets filters ih =>
    rw [List.length_cons] at hlen
    unfold addFilters
    cases hvalid : sdfFilterValid octets with
    | false => exact .inl ⟨by simp [hvalid],t,by simp,h⟩
    | true =>
      simp only [List.takeWhile_cons,hvalid,if_true,List.forall_mem_cons]
      rcases addFilter_iff assemble pdrs srcIf h hp (by omega)
        (parseSdfFilter octets).1 with ⟨hok,t₁,ht₁,h₁,hlen₁⟩ | ⟨hno,t₁,ht₁⟩
      · rw [ht₁,Outcome.bind_ok]
        rcases ih h₁ (by omega) with ⟨hrest,hdone⟩ | ⟨hrest,hdone⟩
        · exact .inl ⟨⟨hok,hrest⟩,hdone⟩
        · exact .inr ⟨fun hall => hrest hall.2,hdone⟩
      · rw [ht₁,Outcome.bind_abort]
        exact .inr ⟨fun hall => hno hall.1,t₁,rfl⟩

theorem addFilter_others (p : Nat) (t : FlowRules) (f : SdfFilter) :
    (t.addFilter assemble pdrs p srcIf f).Returns fun t' _ => ∀ q,q≠p → t'.list q=t.list q := by
  have hput : ∀ rule q,q≠p → (t.put p rule).list q=t.list q := by
    intro rule q hq
    exact update_of_ne hq _ _
  unfold addFilter
  generalize (if f.bid=true then t.findBySdfFilterId pdrs f.sdfFilterId else none)=opposite
  dsimp only
  split
  · exact fun _ _ => rfl
  · split
    · trivial
    · split
      · split
        · trivial
        · exact hput _
      · exact hput _

theorem setFilters_others (p : Nat) (t : FlowRules) (filters : List (List Byte)) :
    (t.setFilters assemble pdrs p srcIf filters).Returns fun t' _ =>
      ∀ q,q≠p → t'.list q=t.list q := by
  have hadd : ∀ (filters : List (List Byte)) (t : FlowRules),
      (addFilters assemble pdrs p srcIf t filters).Returns fun t' _ =>
        ∀ q,q≠p → t'.list q=t.list q := by
    intro filters
    induction filters with
    | nil => exact fun _ _ _ => rfl
    | cons octets filters ih =>
      intro t
      unfold addFilters
      split
      · apply (addFilter_others assemble pdrs srcIf p t _).bind
        intro t' _ ht'
        exact (ih t').mono fun t'' _ ht'' q hq => (ht'' q hq).trans (ht' q hq)
      · exact fun _ _ => rfl
  apply (hadd _ (t.removeAll p)).mono
  intro t' _ ht' q hq
  exact (ht' q hq).trans (update_of_ne hq _ _)

theorem setFilters_iff (h : t.Stocked n) (hp : p<n) (filters : List (List Byte)) :
    (FiltersCompile assemble filters ∧
      ∃ t',t.setFilters assemble pdrs p srcIf filters = .ok t' () ∧ t'.Stocked n) ∨
    ¬ FiltersCompile assemble filters ∧
      ∃ t',t.setFilters assemble pdrs p srcIf filters = .abort t' := by
  have hnil : (t.removeAll p).list p=[] := update_self ..
  refine addFilters_iff assemble pdrs srcIf (h.removeAll hp) hp _ ?_
  rw [hnil,List.length_nil,Nat.zero_add]
  exact List.length_take_le ..

end FlowRules

end OgsDp.Pfcp
