import OgsDp.Pfcp.PdrOrder
import OgsDp.Pfcp.RuleMatch

/-!
# The PDR of a packet (src/upf/gtp-path.c)

Both directions walk the PDRs of a session from the front. A result of `none` is an assertion that
failed; inside it, no PDR.
-/

namespace OgsDp.Upf
open Lib OgsDp.Core Pfcp List Option

def interfaceCore : Byte := 1
def interfaceCpFunction : Byte := 3

variable (x : PfcpContext) (pkt : IpPacket)

def rulesAccept (p : Nat) : Option Bool :=
  if x.flow.list p=[] then some true
  else (pdrRuleFindByPacket (x.flow.list p) pkt).map Option.isSome

def farOf (r : Nat) : Far := (x.rules.far.slot r).body

def createsOuterHeader (far : Far) : Bool := (far.outerHeaderCreation.get 0).val % 64 != 0

def tunRecvLoop : List Nat → Option Nat → Option (Option Nat)
  | [], fallback => some fallback
  | p::l, fallback =>
    (x.rules.pdr p).far.bind fun r =>
      if (x.rules.pdr p).srcIf≠interfaceCore then tunRecvLoop l fallback
      else if (farOf x r).dstIf≠interfaceAccess then tunRecvLoop l (some p)
      else if createsOuterHeader (farOf x r)=false then tunRecvLoop l (some p)
      else (rulesAccept x pkt p).bind fun ok => if ok then some (some p) else tunRecvLoop l (some p)

def tunRecvPdr (s : Nat) : Option (Option Nat) := tunRecvLoop x pkt (x.rules.pdrList s) none

def CoreSide (p : Nat) : Prop := (x.rules.pdr p).srcIf=interfaceCore

/-- The PDR, its FAR and its rules take the packet in the downlink. -/
structure DownlinkAccepts (p : Nat) : Prop where
  core : CoreSide x p
  far : ∃ r,(x.rules.pdr p).far=some r ∧ (farOf x r).dstIf=interfaceAccess ∧
    createsOuterHeader (farOf x r)=true
  rules : rulesAccept x pkt p=some true

def uRecvLoop (teid : BitVec 32) (qfi : Byte) : List Nat → Option (Option Nat)
  | [] => some none
  | p::l =>
    let pdr:=x.rules.pdr p
    if pdr.srcIf≠interfaceAccess ∧ pdr.srcIf≠interfaceCpFunction then uRecvLoop teid qfi l
    else if teid≠pdr.fTeid.teid then uRecvLoop teid qfi l
    else if pdr.qfi≠0 ∧ pdr.qfi≠qfi then uRecvLoop teid qfi l
    else (rulesAccept x pkt p).bind fun ok => if ok then some (some p) else uRecvLoop teid qfi l

/-- The PDR that `_gtpv1_u_recv_cb` finds for a G-PDU with this TEID and QFI. -/
def uRecvPdr (teid : BitVec 32) (qfi : Byte) : Option (Option Nat) :=
  match objectFindByTeid x.rules teid with
  | none => some none
  | some (.pdr _) => none
  | some (.sess s) => uRecvLoop x pkt teid qfi (x.rules.pdrList s)

structure UplinkAccepts (teid : BitVec 32) (qfi : Byte) (p : Nat) : Prop where
  source : (x.rules.pdr p).srcIf=interfaceAccess ∨ (x.rules.pdr p).srcIf=interfaceCpFunction
  teid : (x.rules.pdr p).fTeid.teid=teid
  qfi : (x.rules.pdr p).qfi=0 ∨ (x.rules.pdr p).qfi=qfi
  rules : rulesAccept x pkt p=some true

/-- `p` takes the packet, and no PDR of the list with a smaller precedence does. -/
structure FirstOf (accepts : Nat → Prop) (l : List Nat) (p : Nat) : Prop where
  mem : p∈l
  takes : accepts p
  least : ∀ q∈l,accepts q → x.rules.precedenceOf p≤x.rules.precedenceOf q

/-- The core-side PDR with the largest precedence, or none where there is no such PDR. -/
def Fallback (l : List Nat) : Option Nat → Prop
  | none => ∀ q∈l,¬ CoreSide x q
  | some p => p∈l ∧ CoreSide x p ∧
      ∀ q∈l,CoreSide x q → x.rules.precedenceOf q≤x.rules.precedenceOf p

/-- What the downlink finds: the first PDR that takes the packet, or else the fallback. -/
def DownlinkRight (s : Nat) : Prop :=
  ∀ r,tunRecvPdr x pkt s=some r →
    (∃ p,r=some p ∧ FirstOf x (DownlinkAccepts x pkt) (x.rules.pdrList s) p) ∨
      (∀ q∈x.rules.pdrList s,¬ DownlinkAccepts x pkt q) ∧ Fallback x (x.rules.pdrList s) r

def UplinkRight (teid : BitVec 32) (qfi : Byte) (s : Nat) : Prop :=
  objectFindByTeid x.rules teid=some (.sess s) → ∀ r,uRecvPdr x pkt teid qfi=some r →
    (∃ p,r=some p ∧ FirstOf x (UplinkAccepts x pkt teid qfi) (x.rules.pdrList s) p) ∨
      r=none ∧ ∀ q∈x.rules.pdrList s,¬ UplinkAccepts x pkt teid qfi q

section Choice

variable {x pkt} {since : Nat → Nat} {l : List Nat} {p : Nat} {accepts : Nat → Prop}

theorem FirstOf.cons (hp : ¬ accepts p) {q : Nat} (h : FirstOf x accepts l q) :
    FirstOf x accepts (p::l) q where
  mem := mem_cons_of_mem p h.mem
  takes := h.takes
  least := forall_mem_cons.mpr ⟨fun hno => absurd hno hp,h.least⟩

theorem firstOf_head (h : (p::l).Pairwise (Before x.rules.precedenceOf since))
    (hp : accepts p) : FirstOf x accepts (p::l) p where
  mem := mem_cons_self
  takes := hp
  least := forall_mem_cons.mpr
    ⟨fun _ => Nat.le_refl _,fun q hq _ => ((pairwise_cons.mp h).1 q hq).le⟩

def Found (x : PfcpContext) (pkt : IpPacket) (l : List Nat) (fallback r : Option Nat) : Prop :=
  (∃ p,r=some p ∧ FirstOf x (DownlinkAccepts x pkt) l p) ∨
    (∀ q∈l,¬ DownlinkAccepts x pkt q) ∧
      ((∀ q∈l,¬ CoreSide x q) ∧ r=fallback ∨ ∃ p,r=some p ∧ Fallback x l (some p))

theorem Found.skip {fallback r : Option Nat} (hp : ¬ CoreSide x p)
    (h : Found x pkt l fallback r) : Found x pkt (p::l) fallback r := by
  have hno : ¬ DownlinkAccepts x pkt p := fun h => hp h.core
  rcases h with ⟨q,hr,hq⟩ | ⟨hnone,h⟩
  · exact .inl ⟨q,hr,hq.cons hno⟩
  · refine .inr ⟨forall_mem_cons.mpr ⟨hno,hnone⟩,?_⟩
    rcases h with ⟨hcore,hr⟩ | ⟨q,hr,hmem,hq,hlast⟩
    · exact .inl ⟨forall_mem_cons.mpr ⟨hp,hcore⟩,hr⟩
    · exact .inr ⟨q,hr,mem_cons_of_mem p hmem,hq,
        forall_mem_cons.mpr ⟨fun hcore => absurd hcore hp,hlast⟩⟩

theorem Found.keep {fallback r : Option Nat}
    (hsort : (p::l).Pairwise (Before x.rules.precedenceOf since)) (hp : CoreSide x p)
    (hno : ¬ DownlinkAccepts x pkt p) (h : Found x pkt l (some p) r) :
    Found x pkt (p::l) fallback r := by
  rcases h with ⟨q,hr,hq⟩ | ⟨hnone,h⟩
  · exact .inl ⟨q,hr,hq.cons hno⟩
  · refine .inr ⟨forall_mem_cons.mpr ⟨hno,hnone⟩,.inr ?_⟩
    rcases h with ⟨hcore,hr⟩ | ⟨q,hr,hmem,hq,hlast⟩
    · exact ⟨p,hr,mem_cons_self,hp,forall_mem_cons.mpr
        ⟨fun _ => Nat.le_refl _,fun q hq hc => absurd hc (hcore q hq)⟩⟩
    · exact ⟨q,hr,mem_cons_of_mem p hmem,hq,forall_mem_cons.mpr
        ⟨fun _ => ((pairwise_cons.mp hsort).1 q hmem).le,hlast⟩⟩

theorem tunRecvLoop_found (h : l.Pairwise (Before x.rules.precedenceOf since))
    {fallback r : Option Nat} (hr : tunRecvLoop x pkt l fallback=some r) :
    Found x pkt l fallback r := by
  induction l generalizing fallback with
  | nil =>
    obtain rfl := some.inj hr
    exact .inr ⟨fun _ hq => (by cases hq),.inl ⟨fun _ hq => (by cases hq),rfl⟩⟩
  | cons p l ih =>
    have ih : ∀ {f : Option Nat}, tunRecvLoop x pkt l f=some r → Found x pkt l f r :=
      ih (pairwise_cons.mp h).2
    simp only [tunRecvLoop] at hr
    obtain ⟨f,hf,hr⟩ := bind_eq_some_iff.mp hr
    have hfar : ∀ {P : Far → Prop}, (∃ r,(x.rules.pdr p).far=some r ∧ P (farOf x r)) →
        P (farOf x f) := by
      rintro P ⟨r,hr,hP⟩
      rw [hf] at hr
      exact some.inj hr ▸ hP
    split at hr
    · rename_i hcore
      exact Found.skip hcore (ih hr)
    · rename_i hcore
      have hcore : CoreSide x p := not_not.mp hcore
      split at hr
      · rename_i hdst
        refine Found.keep h hcore (fun hacc => hdst ?_) (ih hr)
        exact hfar (P := fun far => far.dstIf=interfaceAccess)
          (hacc.far.imp fun _ h => ⟨h.1,h.2.1⟩)
      · rename_i hdst
        split at hr
        · rename_i houter
          refine Found.keep h hcore (fun hacc => ?_) (ih hr)
          have hyes:=hfar (P := fun far => createsOuterHeader far=true)
            (hacc.far.imp fun _ h => ⟨h.1,h.2.2⟩)
          rw [houter] at hyes
          cases hyes
        · rename_i houter
          obtain ⟨ok,hok,hr⟩ := bind_eq_some_iff.mp hr
          cases ok with
          | true =>
            obtain rfl := some.inj hr
            exact .inl ⟨p,rfl,firstOf_head h
              ⟨hcore,⟨f,hf,not_not.mp hdst,Bool.eq_true_of_not_eq_false houter⟩,hok⟩⟩
          | false =>
            refine Found.keep h hcore (fun hacc => ?_) (ih hr)
            have hyes:=hacc.rules
            rw [hok] at hyes
            cases hyes

theorem tunRecvPdr_right {s : Nat}
    (h : (x.rules.pdrList s).Pairwise (Before x.rules.precedenceOf since)) :
    DownlinkRight x pkt s := by
  intro r hr
  rcases tunRecvLoop_found h hr with hfirst | ⟨hnone,⟨hcore,rfl⟩ | ⟨p,rfl,hp⟩⟩
  · exact .inl hfirst
  · exact .inr ⟨hnone,hcore⟩
  · exact .inr ⟨hnone,hp⟩

theorem uRecvLoop_right {teid : BitVec 32} {qfi : Byte} {r : Option Nat}
    (h : l.Pairwise (Before x.rules.precedenceOf since))
    (hr : uRecvLoop x pkt teid qfi l=some r) :
    (∃ p,r=some p ∧ FirstOf x (UplinkAccepts x pkt teid qfi) l p) ∨
      r=none ∧ ∀ q∈l,¬ UplinkAccepts x pkt teid qfi q := by
  induction l with
  | nil =>
    obtain rfl := some.inj hr
    exact .inr ⟨rfl,fun _ hq => by cases hq⟩
  | cons p l ih =>
    have hskip : ¬ UplinkAccepts x pkt teid qfi p → uRecvLoop x pkt teid qfi l=some r →
        (∃ q,r=some q ∧ FirstOf x (UplinkAccepts x pkt teid qfi) (p::l) q) ∨
          r=none ∧ ∀ q∈p::l,¬ UplinkAccepts x pkt teid qfi q := by
      intro hno hr
      rcases ih (pairwise_cons.mp h).2 hr with ⟨q,hq,hfirst⟩ | ⟨hq,hnone⟩
      · exact .inl ⟨q,hq,hfirst.cons hno⟩
      · exact .inr ⟨hq,forall_mem_cons.mpr ⟨hno,hnone⟩⟩
    simp only [uRecvLoop] at hr
    split at hr
    · rename_i hsrc
      exact hskip (fun hacc => hacc.source.elim hsrc.1 hsrc.2) hr
    · rename_i hsrc
      split at hr
      · rename_i hteid
        exact hskip (fun hacc => hteid hacc.teid.symm) hr
      · rename_i hteid
        split at hr
        · rename_i hqfi
          exact hskip (fun hacc => hacc.qfi.elim hqfi.1 hqfi.2) hr
        · rename_i hqfi
          obtain ⟨ok,hok,hr⟩ := bind_eq_some_iff.mp hr
          cases ok with
          | true =>
            obtain rfl := some.inj hr
            refine .inl ⟨p,rfl,firstOf_head h ⟨?_,(not_not.mp hteid).symm,?_,hok⟩⟩
            · exact (not_and_or.mp hsrc).imp not_not.mp not_not.mp
            · exact (not_and_or.mp hqfi).imp not_not.mp not_not.mp
          | false =>
            refine hskip (fun hacc => ?_) hr
            have hyes:=hacc.rules
            rw [hok] at hyes
            cases hyes

theorem uRecvPdr_right {teid : BitVec 32} {qfi : Byte} {s : Nat}
    (h : (x.rules.pdrList s).Pairwise (Before x.rules.precedenceOf since)) :
    UplinkRight x pkt teid qfi s := by
  intro hobj r hr
  simp only [uRecvPdr,hobj] at hr
  exact uRecvLoop_right h hr

end Choice

def createCorePdr (id : BitVec 16) (precedence : BitVec 32) (sdfFilter : List (List Byte)) :
    PfcpOp :=
  .handle 0 (.createPdr env0 false (some
    ⟨⟨some id,some precedence,some ⟨some interfaceCore,none,none,none⟩,some 1,[],none⟩,
      noUrrIds,sdfFilter⟩))

def createAccessFar : PfcpOp :=
  .handle 0 (.createFar (some ⟨some 1,some 2,
    some ⟨some interfaceAccess,none,some [1,0,0,0,0,7,10,0,0,1],none⟩⟩))

def tcpOnly : List (List Byte) → Option IpfwRule :=
  fun _ => some { IpfwRule.zero with proto := ipprotoTcp }

def threeCorePdrs : List PfcpOp :=
  [createCorePdr 1 10 [],createAccessFar,createCorePdr 2 30 [],
    createCorePdr 3 20 [[1,0,0,10]++ascii "permit out"],createCorePdr 1 30 []]

def packetOf (proto : Byte) : IpPacket :=
  ⟨[0x45,0,0,24,0,0,0,0,64,proto,0,0,8,8,8,8,10,45,0,2,0,53,16,1],[]⟩

end OgsDp.Upf
