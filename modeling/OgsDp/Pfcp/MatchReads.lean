import OgsDp.Core.Octets
import OgsDp.Lib.Turns
import OgsDp.Pfcp.RuleMatch

/-!
# The reads of the rule matcher (lib/pfcp/rule-match.c)

The search for a rule once more, with the octets of the packet and nothing behind them. Of both
addresses four words are read in either version.
-/

namespace OgsDp.Pfcp
open Lib OgsDp.Core List

def ip6optJumbo : Byte := 0xc2

def jumboStep (d : List Byte) (jp : Nat) : Except Fault (Nat ⊕ Nat) := do
  let len ← octetsAt d (jp+2) 4
  let type ← octetAt d jp
  if type=ip6optJumbo then
    .ok (if (be32 len).toNat=0 then .inl jp else .inr (be32 len).toNat)
  else .ok (.inl (if type=0 then jp+1 else jp+2+(be32 len).toNat))

def extensionStep (d : List Byte) (endp : Nat) (s : Nat × Byte) :
    Except Fault ((Nat × Byte) ⊕ (Byte × Nat)) :=
  if s.1<endp ∧ isExtension s.2=true then do
    let len ← if s.2=ipprotoFragment then .ok 0 else octetAt d (s.1+1)
    let nxt ← octetAt d s.1
    .ok (.inl (s.1+extensionLength s.2 len,nxt))
  else .ok (.inr (s.2,s.1))

def payloadWithin (d : List Byte) (nxt : Byte) (plen : Nat) : Turns Nat :=
  if plen=0 then
    if nxt=0 then Turns.loop (jumboStep d) 42 else .of (.error .assertion)
  else pure plen

def decodeWithin (d : List Byte) : Turns (Byte × Nat) := do
  let nxt ← .of (octetAt d 6)
  let plen ← .of (octetsAt d 4 2)
  let len ← payloadWithin d nxt (be32 plen).toNat
  let r ← Turns.loop (extensionStep d (40+len)) (40,nxt)
  pure (r.1,r.2 % 2^16)

def wordsOf (octets : List Byte) (n : Nat) : List (BitVec 32) :=
  (List.range n).map fun k => be32 ((octets.drop (4*k)).take 4)

-- Both addresses lie behind one another, `n` words each, and four words are read of each.
def addrsWithin (d : List Byte) (i n : Nat) (proto : Byte) (hlen : Nat) :
    Except Fault (Option IpHeader) := do
  let src ← octetsAt d i 16
  let dst ← octetsAt d (i+4*n) 16
  .ok (some ⟨proto,hlen,wordsOf src n,wordsOf dst n⟩)

def headerWithin (d : List Byte) : Turns (Option IpHeader) := do
  let b ← .of (octetAt d 0)
  if b.val / 16=4 then do
    let proto ← .of (octetAt d 9)
    .of (addrsWithin d 12 1 proto (b.val % 16*4))
  else if b.val / 16=6 then do
    let r ← decodeWithin d
    .of (addrsWithin d 8 4 r.1 r.2)
  else pure none

def portWithin (d : List Byte) (i : Nat) (side : IpfwSide) : Except Fault Bool :=
  if side.low=0 ∧ side.high=0 then .ok true
  else (octetsAt d i 2).map fun port => inPortRange side (be32 port).toNat

def ruleWithin (d : List Byte) (h : IpHeader) (ipfw : IpfwRule) : Except Fault Bool :=
  if addrMatches ipfw.src h.src && addrMatches ipfw.dst h.dst then
    if ipfw.proto=0 then .ok true
    else if ipfw.proto=h.proto then
      if ipfw.proto=ipprotoTcp ∨ ipfw.proto=ipprotoUdp then do
        if ← portWithin d h.hlen ipfw.src then portWithin d (h.hlen+2) ipfw.dst else .ok false
      else .ok true
    else .ok false
  else .ok false

def packetWithin (d : List Byte) (rule : FlowRule) : Turns Bool := do
  match ← headerWithin d with
  | none => pure false
  | some h => .of (ruleWithin d h rule.ipfw)

def findWithin (d : List Byte) : List FlowRule → Turns (Option FlowRule)
  | [] => pure none
  | rule::rules => do
    if ← packetWithin d rule then pure (some rule) else findWithin d rules

def ruleFindWithin (rules : List FlowRule) (d : List Byte) : Turns (Option FlowRule) :=
  if d=[] then .of (.error .assertion) else findWithin d rules

def octetOf (d : List Byte) (i : Nat) : Byte := (d[i]?).getD 0

def valueOf (d : List Byte) (i n : Nat) : Nat := (be32 ((d.drop i).take n)).toNat

/-- Options that lie in the packet lead to the one with the length of a jumbo frame. -/
inductive JumboOption (d : List Byte) : Nat → Nat → Prop
  | found {jp : Nat} (inside : jp+6≤d.length) (type : octetOf d jp=ip6optJumbo)
      (long : valueOf d (jp+2) 4≠0) : JumboOption d jp (valueOf d (jp+2) 4)
  | pad {jp len : Nat} (inside : jp+6≤d.length) (type : octetOf d jp=0)
      (rest : JumboOption d (jp+1) len) : JumboOption d jp len
  | skip {jp len : Nat} (inside : jp+6≤d.length) (other : octetOf d jp≠ip6optJumbo)
      (some : octetOf d jp≠0) (rest : JumboOption d (jp+2+valueOf d (jp+2) 4) len) :
      JumboOption d jp len

def extensionRead (nxt : Byte) : Nat := if nxt=ipprotoFragment then 1 else 2

/-- Extension headers that lie in the packet lead to the upper layer, or to the end that the length
of the payload tells. -/
inductive UpperLayer (d : List Byte) (endp : Nat) : Nat → Byte → Byte → Nat → Prop
  | ends {p : Nat} {nxt : Byte} (stop : ¬ (p<endp ∧ isExtension nxt=true)) :
      UpperLayer d endp p nxt nxt p
  | extension {p q : Nat} {nxt proto : Byte} (more : p<endp ∧ isExtension nxt=true)
      (inside : p+extensionRead nxt≤d.length)
      (rest : UpperLayer d endp (p+extensionLength nxt (octetOf d (p+1))) (octetOf d p)
        proto q) : UpperLayer d endp p nxt proto q

/-- The length of the payload: as it is given, or for a jumbo frame in an option. -/
def PayloadLength (d : List Byte) (len : Nat) : Prop :=
  valueOf d 4 2=len ∧ len≠0 ∨
    valueOf d 4 2=0 ∧ octetOf d 6=0 ∧ JumboOption d 42 len

/-- The header is read from octets of the packet only. -/
inductive HeaderInside (d : List Byte) : Option IpHeader → Prop
  | ipv4 (version : (octetOf d 0).val / 16=4) (inside : 32≤d.length) :
      HeaderInside d (some ⟨octetOf d 9,(octetOf d 0).val % 16*4,
        wordsOf ((d.drop 12).take 16) 1,wordsOf ((d.drop 16).take 16) 1⟩)
  | ipv6 {len hlen : Nat} {proto : Byte} (version : (octetOf d 0).val / 16=6)
      (inside : 40≤d.length) (length : PayloadLength d len)
      (upper : UpperLayer d (40+len) 40 (octetOf d 6) proto hlen) :
      HeaderInside d (some ⟨proto,hlen % 2^16,
        wordsOf ((d.drop 8).take 16) 4,wordsOf ((d.drop 24).take 16) 4⟩)
  | other (not4 : (octetOf d 0).val / 16≠4) (not6 : (octetOf d 0).val / 16≠6) :
      HeaderInside d none

def AsksPorts (h : IpHeader) (ipfw : IpfwRule) : Prop :=
  (addrMatches ipfw.src h.src && addrMatches ipfw.dst h.dst)=true ∧ ipfw.proto=h.proto ∧
    (ipfw.proto=ipprotoTcp ∨ ipfw.proto=ipprotoUdp)

def Bounded (side : IpfwSide) : Prop := ¬ (side.low=0 ∧ side.high=0)

def portAccepted (d : List Byte) (i : Nat) (side : IpfwSide) : Bool :=
  inPortRange side (valueOf d i 2)

def ruleAccepts (d : List Byte) (h : IpHeader) (ipfw : IpfwRule) : Bool :=
  if addrMatches ipfw.src h.src && addrMatches ipfw.dst h.dst then
    if ipfw.proto=0 then true
    else if ipfw.proto=h.proto then
      if ipfw.proto=ipprotoTcp ∨ ipfw.proto=ipprotoUdp then
        portAccepted d h.hlen ipfw.src && portAccepted d (h.hlen+2) ipfw.dst
      else true
    else false
  else false

/-- The ports that the rule has bounds for are in the packet; the second one is not looked at where
the first one is out of its bounds. -/
def PortsInside (d : List Byte) (h : IpHeader) (ipfw : IpfwRule) : Prop :=
  AsksPorts h ipfw → (Bounded ipfw.src → h.hlen+2≤d.length) ∧
    (Bounded ipfw.dst → portAccepted d h.hlen ipfw.src=true → h.hlen+4≤d.length)

def TriedInside (d : List Byte) (h : IpHeader) (rules : List FlowRule) : Prop :=
  ∀ l rule l',rules=l++rule::l' → (∀ r∈l,ruleAccepts d h r.ipfw=false) →
    PortsInside d h rule.ipfw

/-- All that is read of the packet is there, and the walk over its headers comes to an end. -/
def Searchable (d : List Byte) (rules : List FlowRule) : Prop :=
  d≠[] ∧ (rules=[] ∨ ∃ h,HeaderInside d h ∧ ∀ h',h=some h' → TriedInside d h' rules)

variable {d : List Byte} {i n jp p q len endp : Nat} {nxt proto : Byte} {h : IpHeader}
  {rules : List FlowRule}

theorem octetAt_ok {b : Byte} : octetAt d i = .ok b ↔ i<d.length ∧ b=octetOf d i := by
  by_cases hi : i<d.length
  · rw [octetAt_of_lt hi]
    exact ⟨fun h => ⟨hi,(Except.ok.inj h).symm⟩,fun h => congrArg _ h.2.symm⟩
  · rw [octetAt_of_le (Nat.not_lt.mp hi)]
    exact iff_of_false nofun fun h => hi h.1

theorem octetsAt_ok {l : List Byte} :
    octetsAt d i n = .ok l ↔ i+n≤d.length ∧ l=(d.drop i).take n := by
  by_cases hi : i+n≤d.length
  · rw [octetsAt_of_le hi]
    exact ⟨fun h => ⟨hi,(Except.ok.inj h).symm⟩,fun h => congrArg _ h.2.symm⟩
  · rw [octetsAt_of_lt (Nat.not_le.mp hi)]
    exact iff_of_false nofun fun h => hi h.1

theorem jumboStep_ok {r : Nat ⊕ Nat} :
    jumboStep d jp = .ok r ↔ jp+6≤d.length ∧
      r = if octetOf d jp=ip6optJumbo then
          if valueOf d (jp+2) 4=0 then .inl jp else .inr (valueOf d (jp+2) 4)
        else .inl (if octetOf d jp=0 then jp+1 else jp+2+valueOf d (jp+2) 4) := by
  unfold jumboStep valueOf
  rw [bind_eq_ok]
  constructor
  · rintro ⟨l,hl,hr⟩
    obtain ⟨hin,rfl⟩ := octetsAt_ok.mp hl
    obtain ⟨b,hb,hr⟩ := bind_eq_ok.mp hr
    obtain ⟨-,rfl⟩ := octetAt_ok.mp hb
    refine ⟨by omega,?_⟩
    split at hr
    · rename_i htype
      rw [if_pos htype]
      exact (Except.ok.inj hr).symm
    · rename_i htype
      rw [if_neg htype]
      exact (Except.ok.inj hr).symm
  · rintro ⟨hin,rfl⟩
    refine ⟨_,octetsAt_ok.mpr ⟨by omega,rfl⟩,?_⟩
    refine bind_eq_ok.mpr ⟨_,octetAt_ok.mpr ⟨by omega,rfl⟩,?_⟩
    split <;> rfl

theorem leads_jumbo : Turns.Leads (jumboStep d) jp len ↔ JumboOption d jp len := by
  constructor
  · intro h
    induction h with
    | done hstep =>
      obtain ⟨hin,hr⟩ := jumboStep_ok.mp hstep
      split at hr
      · rename_i htype
        split at hr
        · cases hr
        · rename_i hlong
          cases hr
          exact .found hin htype hlong
      · cases hr
    | @next jp jp' len hstep hleads ih =>
      obtain ⟨hin,hr⟩ := jumboStep_ok.mp hstep
      split at hr
      · split at hr
        · -- the turn that leads back does not make the option lie any nearer
          obtain rfl := Sum.inl.inj hr
          exact ih
        · cases hr
      · rename_i hother
        have hjp:=Sum.inl.inj hr
        split at hjp
        · rename_i hpad
          subst hjp
          exact .pad hin hpad ih
        · rename_i hsome
          subst hjp
          exact .skip hin hother hsome ih
  · intro h
    induction h with
    | found hin htype hlong =>
      exact .done (jumboStep_ok.mpr ⟨hin,by rw [if_pos htype,if_neg hlong]⟩)
    | @pad jp len hin htype hrest ih =>
      have hother : octetOf d jp≠ip6optJumbo := by rw [htype]; decide
      exact .next (jumboStep_ok.mpr ⟨hin,by rw [if_neg hother,if_pos htype]⟩) ih
    | skip hin hother hsome hrest ih =>
      exact .next (jumboStep_ok.mpr ⟨hin,by rw [if_neg hother,if_neg hsome]⟩) ih

theorem extensionStep_more {r : (Nat × Byte) ⊕ (Byte × Nat)}
    (hmore : p<endp ∧ isExtension nxt=true) :
    extensionStep d endp (p,nxt) = .ok r ↔ p+extensionRead nxt≤d.length ∧
      r = .inl (p+extensionLength nxt (octetOf d (p+1)),octetOf d p) := by
  unfold extensionStep extensionRead
  rw [if_pos hmore]
  by_cases hfrag : nxt=ipprotoFragment
  · subst hfrag
    rw [if_pos rfl,if_pos rfl,ok_bind,bind_eq_ok]
    constructor
    · rintro ⟨b,hb,hr⟩
      obtain ⟨hin,rfl⟩ := octetAt_ok.mp hb
      exact ⟨hin,(Except.ok.inj hr).symm⟩
    · rintro ⟨hin,rfl⟩
      exact ⟨_,octetAt_ok.mpr ⟨hin,rfl⟩,rfl⟩
  · rw [if_neg hfrag,if_neg hfrag,bind_eq_ok]
    constructor
    · rintro ⟨len,hlen,hr⟩
      obtain ⟨hin,rfl⟩ := octetAt_ok.mp hlen
      obtain ⟨b,hb,hr⟩ := bind_eq_ok.mp hr
      obtain ⟨-,rfl⟩ := octetAt_ok.mp hb
      exact ⟨hin,(Except.ok.inj hr).symm⟩
    · rintro ⟨hin,rfl⟩
      refine ⟨_,octetAt_ok.mpr ⟨by omega,rfl⟩,?_⟩
      exact bind_eq_ok.mpr ⟨_,octetAt_ok.mpr ⟨by omega,rfl⟩,rfl⟩

theorem leads_extension :
    Turns.Leads (extensionStep d endp) (p,nxt) (proto,q) ↔ UpperLayer d endp p nxt proto q := by
  constructor
  · intro h
    generalize hs : (p,nxt)=s at h
    generalize ha : (proto,q)=a at h
    induction h generalizing p nxt with
    | done hstep =>
      subst hs ha
      by_cases hmore : p<endp ∧ isExtension nxt=true
      · cases ((extensionStep_more hmore).mp hstep).2
      · rw [extensionStep,if_neg hmore] at hstep
        cases hstep
        exact .ends hmore
    | next hstep hleads ih =>
      subst hs
      by_cases hmore : p<endp ∧ isExtension nxt=true
      · obtain ⟨hin,hr⟩ := (extensionStep_more hmore).mp hstep
        obtain rfl := Sum.inl.inj hr
        exact .extension hmore hin (ih rfl ha)
      · rw [extensionStep,if_neg hmore] at hstep
        cases hstep
  · intro h
    induction h with
    | ends hstop => exact .done (if_neg hstop)
    | extension hmore hin hrest ih => exact .next ((extensionStep_more hmore).mpr ⟨hin,rfl⟩) ih

theorem payloadWithin_returns :
    (payloadWithin d (octetOf d 6) (valueOf d 4 2)).Returns len ↔ PayloadLength d len := by
  unfold payloadWithin PayloadLength
  by_cases hplen : valueOf d 4 2=0
  · rw [if_pos hplen,hplen]
    by_cases hnxt : octetOf d 6=0
    · rw [if_pos hnxt,Turns.returns_loop,leads_jumbo]
      constructor
      · exact fun h => .inr ⟨rfl,hnxt,h⟩
      · rintro (⟨rfl,hne⟩ | ⟨-,-,h⟩)
        · exact absurd rfl hne
        · exact h
    · rw [if_neg hnxt,Turns.returns_of]
      refine iff_of_false nofun ?_
      rintro (⟨rfl,hne⟩ | ⟨-,h,-⟩)
      · exact hne rfl
      · exact hnxt h
  · rw [if_neg hplen,Turns.returns_pure]
    constructor
    · rintro rfl
      exact .inl ⟨rfl,hplen⟩
    · rintro (⟨h,-⟩ | ⟨h,-⟩)
      · exact h
      · exact absurd h hplen

theorem decodeWithin_returns {r : Byte × Nat} :
    (decodeWithin d).Returns r ↔ 7≤d.length ∧ ∃ len q,PayloadLength d len ∧
      UpperLayer d (40+len) 40 (octetOf d 6) r.1 q ∧ r.2=q % 2^16 := by
  unfold decodeWithin
  simp only [Turns.returns_bind,Turns.returns_of,Turns.returns_pure,Turns.returns_loop,
    octetAt_ok,octetsAt_ok]
  constructor
  · rintro ⟨_,⟨hin,rfl⟩,_,⟨-,rfl⟩,len,hlen,⟨proto,q⟩,hleads,rfl⟩
    exact ⟨hin,len,q,payloadWithin_returns.mp hlen,leads_extension.mp hleads,rfl⟩
  · rintro ⟨hin,len,q,hlen,hupper,hq⟩
    refine ⟨_,⟨hin,rfl⟩,_,⟨by omega,rfl⟩,len,payloadWithin_returns.mpr hlen,(r.1,q),
      leads_extension.mpr hupper,?_⟩
    rw [← hq]

theorem addrsWithin_ok {r : Option IpHeader} :
    addrsWithin d i n proto len = .ok r ↔ i+16≤d.length ∧ i+4*n+16≤d.length ∧
      r=some ⟨proto,len,wordsOf ((d.drop i).take 16) n,
        wordsOf ((d.drop (i+4*n)).take 16) n⟩ := by
  unfold addrsWithin
  rw [bind_eq_ok]
  constructor
  · rintro ⟨src,hsrc,hr⟩
    obtain ⟨hin,rfl⟩ := octetsAt_ok.mp hsrc
    obtain ⟨dst,hdst,hr⟩ := bind_eq_ok.mp hr
    obtain ⟨hin',rfl⟩ := octetsAt_ok.mp hdst
    exact ⟨hin,hin',(Except.ok.inj hr).symm⟩
  · rintro ⟨hin,hin',rfl⟩
    refine ⟨_,octetsAt_ok.mpr ⟨hin,rfl⟩,?_⟩
    exact bind_eq_ok.mpr ⟨_,octetsAt_ok.mpr ⟨hin',rfl⟩,rfl⟩

theorem headerWithin_returns {r : Option IpHeader} (hd : d≠[]) :
    (headerWithin d).Returns r ↔ HeaderInside d r := by
  have hpos : 0<d.length := length_pos_iff.mpr hd
  unfold headerWithin
  rw [Turns.returns_bind]
  have hfirst : ∀ b,(Turns.of (octetAt d 0)).Returns b ↔ b=octetOf d 0 := fun b =>
    Turns.returns_of.trans (octetAt_ok.trans (and_iff_right hpos))
  simp only [hfirst,exists_eq_left]
  by_cases h4 : (octetOf d 0).val / 16=4
  · simp only [if_pos h4,Turns.returns_bind,Turns.returns_of,octetAt_ok,addrsWithin_ok]
    constructor
    · rintro ⟨proto,⟨-,rfl⟩,-,hin,rfl⟩
      exact .ipv4 h4 (by omega)
    · intro h
      cases h with
      | ipv4 _ hin => exact ⟨_,⟨by omega,rfl⟩,by omega,by omega,rfl⟩
      | ipv6 h6 => rw [h4] at h6; cases h6
      | other hno => exact absurd h4 hno
  · simp only [if_neg h4]
    by_cases h6 : (octetOf d 0).val / 16=6
    · simp only [if_pos h6,Turns.returns_bind,Turns.returns_of,addrsWithin_ok,
        decodeWithin_returns]
      constructor
      · rintro ⟨⟨proto,hlen⟩,⟨-,len,q,hlength,hupper,rfl⟩,-,hin,rfl⟩
        exact .ipv6 h6 (by omega) hlength hupper
      · intro h
        cases h with
        | ipv4 hno => exact absurd hno h4
        | @ipv6 len hlen proto _ hin hlength hupper =>
          exact ⟨(proto,hlen % 2^16),⟨by omega,len,hlen,hlength,hupper,rfl⟩,by omega,
            by omega,rfl⟩
        | other _ hno => exact absurd h6 hno
    · simp only [if_neg h6,Turns.returns_pure]
      constructor
      · rintro rfl
        exact .other h4 h6
      · intro h
        cases h with
        | ipv4 hno => exact absurd hno h4
        | ipv6 hno => exact absurd hno h6
        | other => rfl

theorem portWithin_ok {side : IpfwSide} {ok : Bool} :
    portWithin d i side = .ok ok ↔
      (Bounded side → i+2≤d.length) ∧ ok=portAccepted d i side := by
  unfold portWithin Bounded portAccepted valueOf
  by_cases hside : side.low=0 ∧ side.high=0
  · have hany : inPortRange side (be32 ((d.drop i).take 2)).toNat=true := by
      simp [inPortRange,hside.1,hside.2]
    rw [if_pos hside,hany]
    exact ⟨fun h => ⟨fun hno => absurd hside hno,(Except.ok.inj h).symm⟩,
      fun h => congrArg _ h.2.symm⟩
  · rw [if_neg hside]
    by_cases hin : i+2≤d.length
    · rw [octetsAt_of_le hin]
      exact ⟨fun h => ⟨fun _ => hin,(Except.ok.inj h).symm⟩,fun h => congrArg _ h.2.symm⟩
    · rw [octetsAt_of_lt (Nat.not_le.mp hin)]
      exact iff_of_false nofun fun h => hin (h.1 hside)

theorem ruleWithin_ok {ipfw : IpfwRule} {ok : Bool} :
    ruleWithin d h ipfw = .ok ok ↔ PortsInside d h ipfw ∧ ok=ruleAccepts d h ipfw := by
  unfold ruleWithin ruleAccepts PortsInside AsksPorts
  by_cases haddr : (addrMatches ipfw.src h.src && addrMatches ipfw.dst h.dst)=true
  swap
  · rw [if_neg haddr,if_neg haddr]
    exact ⟨fun h => ⟨fun hasks => absurd hasks.1 haddr,(Except.ok.inj h).symm⟩,
      fun h => congrArg _ h.2.symm⟩
  rw [if_pos haddr,if_pos haddr]
  by_cases hip : ipfw.proto=0
  · have hno : ¬ (ipfw.proto=ipprotoTcp ∨ ipfw.proto=ipprotoUdp) := by rw [hip]; decide
    rw [if_pos hip,if_pos hip]
    exact ⟨fun h => ⟨fun hasks => absurd hasks.2.2 hno,(Except.ok.inj h).symm⟩,
      fun h => congrArg _ h.2.symm⟩
  rw [if_neg hip,if_neg hip]
  by_cases hproto : ipfw.proto=h.proto
  swap
  · rw [if_neg hproto,if_neg hproto]
    exact ⟨fun h => ⟨fun hasks => absurd hasks.2.1 hproto,(Except.ok.inj h).symm⟩,
      fun h => congrArg _ h.2.symm⟩
  rw [if_pos hproto,if_pos hproto]
  by_cases hports : ipfw.proto=ipprotoTcp ∨ ipfw.proto=ipprotoUdp
  swap
  · rw [if_neg hports,if_neg hports]
    exact ⟨fun h => ⟨fun hasks => absurd hasks.2.2 hports,(Except.ok.inj h).symm⟩,
      fun h => congrArg _ h.2.symm⟩
  rw [if_pos hports,if_pos hports,bind_eq_ok]
  constructor
  · rintro ⟨src,hsrc,hrest⟩
    obtain ⟨hin,rfl⟩ := portWithin_ok.mp hsrc
    by_cases hacc : portAccepted d h.hlen ipfw.src=true
    · rw [if_pos hacc] at hrest
      obtain ⟨hin',rfl⟩ := portWithin_ok.mp hrest
      exact ⟨fun _ => ⟨hin,fun hb _ => hin' hb⟩,by rw [hacc,Bool.true_and]⟩
    · rw [if_neg hacc] at hrest
      refine ⟨fun _ => ⟨hin,fun _ hacc' => absurd hacc' hacc⟩,?_⟩
      rw [Bool.not_eq_true] at hacc
      rw [hacc,Bool.false_and]
      exact (Except.ok.inj hrest).symm
  · rintro ⟨hin,rfl⟩
    obtain ⟨hin,hin'⟩ := hin ⟨haddr,hproto,hports⟩
    refine ⟨_,portWithin_ok.mpr ⟨hin,rfl⟩,?_⟩
    by_cases hacc : portAccepted d h.hlen ipfw.src=true
    · rw [if_pos hacc]
      exact portWithin_ok.mpr ⟨fun hb => hin' hb hacc,by rw [hacc,Bool.true_and]⟩
    · rw [if_neg hacc]
      rw [Bool.not_eq_true] at hacc
      rw [hacc,Bool.false_and]

theorem packetWithin_returns {r : Option IpHeader} (hd : d≠[]) (hr : HeaderInside d r)
    {rule : FlowRule} {ok : Bool} : (packetWithin d rule).Returns ok ↔
      r.elim (ok=false) fun h => PortsInside d h rule.ipfw ∧ ok=ruleAccepts d h rule.ipfw := by
  have hheader:=(headerWithin_returns hd).mpr hr
  have hone : ∀ f : Option IpHeader → Turns Bool, (headerWithin d >>= f).Returns ok ↔
      (f r).Returns ok := by
    intro f
    rw [Turns.returns_bind]
    constructor
    · rintro ⟨r',hr',hf⟩
      rw [hheader.unique hr']
      exact hf
    · exact fun hf => ⟨r,hheader,hf⟩
  unfold packetWithin
  rw [hone]
  cases r with
  | none => exact Turns.returns_pure.trans eq_comm
  | some h => exact Turns.returns_of.trans ruleWithin_ok

theorem triedInside_cons {rule : FlowRule} : TriedInside d h (rule::rules) ↔
    PortsInside d h rule.ipfw ∧ (ruleAccepts d h rule.ipfw=false → TriedInside d h rules) := by
  constructor
  · intro htried
    refine ⟨htried [] rule rules rfl fun _ hr => absurd hr not_mem_nil,?_⟩
    intro hfalse l rule' l' hl hfirst
    exact htried (rule::l) rule' l' (congrArg _ hl) (forall_mem_cons.mpr ⟨hfalse,hfirst⟩)
  · rintro ⟨hin,hrest⟩ l rule' l' hl hfirst
    cases l with
    | nil =>
      obtain ⟨rfl,-⟩ := cons.inj hl
      exact hin
    | cons r l =>
      obtain ⟨rfl,htail⟩ := cons.inj hl
      obtain ⟨hr,hfirst⟩ := forall_mem_cons.mp hfirst
      exact hrest hr l rule' l' htail hfirst

theorem findWithin_cons (d : List Byte) (rule : FlowRule) (rules : List FlowRule) :
    findWithin d (rule::rules) = packetWithin d rule >>= fun ok =>
      if ok then pure (some rule) else findWithin d rules := rfl

theorem findWithin_returns (hd : d≠[]) (hh : HeaderInside d (some h)) {r : Option FlowRule} :
    (findWithin d rules).Returns r ↔
      TriedInside d h rules ∧ r=rules.find? fun rule => ruleAccepts d h rule.ipfw := by
  induction rules with
  | nil =>
    rw [findWithin,Turns.returns_pure]
    refine ⟨fun h => ⟨?_,h.symm⟩,fun h => h.2.symm⟩
    intro l rule l' hl
    exact absurd hl.symm (append_ne_nil_of_right_ne_nil l (cons_ne_nil _ _))
  | cons rule rules ih =>
    rw [findWithin_cons,Turns.returns_bind,triedInside_cons]
    simp only [packetWithin_returns hd hh,Option.elim_some]
    cases hacc : ruleAccepts d h rule.ipfw with
    | true =>
      have hfind : (rule::rules).find? (fun rule => ruleAccepts d h rule.ipfw)=some rule :=
        List.find?_cons_of_pos hacc
      rw [hfind]
      constructor
      · rintro ⟨_,⟨hin,rfl⟩,hr⟩
        exact ⟨⟨hin,nofun⟩,(Turns.returns_pure.mp hr).symm⟩
      · rintro ⟨⟨hin,-⟩,rfl⟩
        exact ⟨true,⟨hin,rfl⟩,Turns.returns_pure.mpr rfl⟩
    | false =>
      have hfind : (rule::rules).find? (fun rule => ruleAccepts d h rule.ipfw) =
          rules.find? fun rule => ruleAccepts d h rule.ipfw :=
        List.find?_cons_of_neg (by rw [hacc]; exact Bool.false_ne_true)
      rw [hfind]
      constructor
      · rintro ⟨_,⟨hin,rfl⟩,hr⟩
        obtain ⟨htried,rfl⟩ := ih.mp hr
        exact ⟨⟨hin,fun _ => htried⟩,rfl⟩
      · rintro ⟨⟨hin,htried⟩,rfl⟩
        exact ⟨false,⟨hin,rfl⟩,ih.mpr ⟨htried rfl,rfl⟩⟩

theorem findWithin_other (hd : d≠[]) (hh : HeaderInside d none) :
    (findWithin d rules).Returns none := by
  induction rules with
  | nil => exact Turns.returns_pure.mpr rfl
  | cons rule rules ih =>
    rw [findWithin_cons,Turns.returns_bind]
    exact ⟨false,(packetWithin_returns hd hh).mpr rfl,ih⟩

theorem headerInside_of_returns (hd : d≠[]) {rule : FlowRule} {r : Option FlowRule}
    (hret : (findWithin d (rule::rules)).Returns r) : ∃ h,HeaderInside d h := by
  rw [findWithin_cons,Turns.returns_bind] at hret
  obtain ⟨ok,hok,-⟩ := hret
  unfold packetWithin at hok
  rw [Turns.returns_bind] at hok
  obtain ⟨h,hh,-⟩ := hok
  exact ⟨h,(headerWithin_returns hd).mp hh⟩

/-- The search comes to an end, fails no assertion and reads nothing outside the packet exactly if
the packet can be searched. -/
theorem rule_find_inside (d : List Byte) (rules : List FlowRule) :
    (∃ r,(ruleFindWithin rules d).Returns r) ↔ Searchable d rules := by
  unfold ruleFindWithin Searchable
  by_cases hd : d=[]
  · rw [if_pos hd]
    exact iff_of_false (fun ⟨_,h⟩ => nomatch Turns.returns_of.mp h) fun h => h.1 hd
  rw [if_neg hd,and_iff_right hd]
  cases rules with
  | nil => exact iff_of_true ⟨none,Turns.returns_pure.mpr rfl⟩ (.inl rfl)
  | cons rule rules =>
    constructor
    · rintro ⟨r,hret⟩
      obtain ⟨h,hh⟩ := headerInside_of_returns hd hret
      refine .inr ⟨h,hh,?_⟩
      rintro h' rfl
      exact ((findWithin_returns hd hh).mp hret).1
    · rintro (hnil | ⟨h,hh,htried⟩)
      · cases hnil
      · cases h with
        | none => exact ⟨none,findWithin_other hd hh⟩
        | some h => exact ⟨_,(findWithin_returns hd hh).mpr ⟨htried h rfl,rfl⟩⟩

section Behind

variable {behind : List Byte}

end Behind

def zeroPayload (nxt : Byte) (rest : List Byte) : List Byte :=
  [0x60,0,0,0,0,0,nxt,64]++List.replicate 32 0++rest

def jumboZero : List Byte := zeroPayload 0 [0,0,0xc2,4,0,0,0,0]

theorem headerWithin_jumboZero (turns : Nat) : (headerWithin jumboZero).run turns=none := by
  have hstuck : (payloadWithin jumboZero 0 0).run turns=none :=
    Turns.loopRun_stuck (show jumboStep jumboZero 42 = .ok (.inl 42) from rfl) turns
  have hdecode : (decodeWithin jumboZero).run turns=(payloadWithin jumboZero 0 0 >>= fun len =>
      Turns.loop (extensionStep jumboZero (40+len)) (40,0) >>= fun r =>
        pure (r.1,r.2 % 2^16)).run turns := rfl
  have hheader : (headerWithin jumboZero).run turns=(decodeWithin jumboZero >>= fun r =>
      .of (addrsWithin jumboZero 8 4 r.1 r.2)).run turns := rfl
  rw [hheader]
  exact Turns.run_bind_none (hdecode.trans (Turns.run_bind_none hstuck))

def anyRule : FlowRule := ⟨0,0,.zero⟩

/-- A jumbo frame of the length zero holds the search up for ever, no length and no option header
fails the assertion, and a packet of IPv4 with its header alone is read behind its end. -/
theorem rule_find_outside :
    (∀ turns,(ruleFindWithin [anyRule] jumboZero).run turns=none) ∧
      (∀ turns,(ruleFindWithin [anyRule] (zeroPayload 6 [])).run turns =
        some (.error .assertion)) ∧
      ∀ turns,(ruleFindWithin [anyRule] (0x45::List.replicate 19 0)).run turns =
        some (.error .read) := by
  refine ⟨fun turns => ?_,fun turns => rfl,fun turns => rfl⟩
  have hfind : (ruleFindWithin [anyRule] jumboZero).run turns =
      (packetWithin jumboZero anyRule >>= fun ok =>
        if ok then pure (some anyRule) else findWithin jumboZero []).run turns := rfl
  rw [hfind]
  exact Turns.run_bind_none (Turns.run_bind_none (headerWithin_jumboZero turns))

end OgsDp.Pfcp
