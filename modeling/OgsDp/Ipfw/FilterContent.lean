import OgsDp.Ipfw.PacketFilter
import OgsDp.Pfcp.FlowDescription

/-!
# Packet filters of compiled rules (lib/ipfw/ogs-ipfw.c)

A rule is filled from the instructions that `compile_rule` assembles, and a packet filter from the
rule.
-/

namespace OgsDp.Ipfw
open OgsDp.Core Lib Pfcp Option

def PfEnd.other : PfEnd → PfEnd
  | .remote => .here
  | .here => .remote

-- `src` is at the remote end.
def side (rule : IpfwRule) : PfEnd → IpfwSide
  | .remote => rule.src
  | .here => rule.dst

def setSide (rule : IpfwRule) (e : PfEnd) (s : IpfwSide) : IpfwRule :=
  match e with
  | .remote => { rule with src := s }
  | .here => { rule with dst := s }

/-- An instruction with the operands that were written; of a list of addresses or ports, the
first. -/
inductive Insn where
  | proto (proto : Byte)
  -- a single address has a mask of ones
  | ip (e : PfEnd) (addr mask : BitVec 32)
  | ip6 (e : PfEnd) (addr : Vector (BitVec 32) 4) (masklen : Nat)
  | ports (e : PfEnd) (low high : BitVec 16)
  | other

def fillIp (s : IpfwSide) (addr mask : BitVec 32) : IpfwSide :=
  { s with
    ipv4 := 1
    addr := s.addr.setIfInBounds 0 (addr &&& mask)
    mask := s.mask.setIfInBounds 0 mask }

-- `fill_ip6`; it does not return with more than 128 bits.
def fillIp6 (s : IpfwSide) (addr : Vector (BitVec 32) 4) (masklen : Nat) : Option IpfwSide :=
  (n2mask masklen).map fun mask =>
    { s with ipv6 := 1,addr := Vector.zipWith (· &&& ·) addr mask,mask := mask }

/-- One turn of the loop of `ogs_ipfw_compile_rule` over the instructions. -/
def execInsn (rule : IpfwRule) : Insn → Option IpfwRule
  | .proto proto => some { rule with proto := proto }
  | .ip e addr mask => some (setSide rule e (fillIp (side rule e) addr mask))
  | .ip6 e addr masklen => (fillIp6 (side rule e) addr masklen).map (setSide rule e)
  | .ports e low high => some (setSide rule e { side rule e with low := low,high := high })
  | .other => some rule

def assembled (insns : List Insn) : Option IpfwRule := insns.foldlM execInsn .zero

/-- What the instructions leave of an end: the address is masked, without an address the mask is
zero, only IPv6 has more than one word, and an IPv6 mask is that of a prefix. -/
structure CompiledSide (s : IpfwSide) : Prop where
  masked : ∀ k (hk : k<4),s.addr[k] &&& s.mask[k]=s.addr[k]
  absent : s.ipv4=0 → s.ipv6=0 → ∀ k (hk : k<4),s.mask[k]=0
  short : s.ipv6=0 → ∀ k (hk : k<4),0<k → s.mask[k]=0
  contiguous : s.ipv6≠0 → s.ipv4=0 → ∃ n,n2mask n=some s.mask

def Compiled (rule : IpfwRule) : Prop := ∀ e,CompiledSide (side rule e)

theorem side_setSide (rule : IpfwRule) (e e' : PfEnd) (s : IpfwSide) :
    side (setSide rule e s) e' = if e'=e then s else side rule e' := by
  cases e <;> cases e' <;> rfl

theorem compiledSide_zero : CompiledSide .zero where
  masked := by
    intro k hk
    simp [IpfwSide.zero]
  absent := by
    intro _ _ k hk
    simp [IpfwSide.zero]
  short := by
    intro _ k hk _
    simp [IpfwSide.zero]
  contiguous := fun hno => absurd rfl hno

theorem CompiledSide.fillIp {s : IpfwSide} (h : CompiledSide s) (addr mask : BitVec 32) :
    CompiledSide (fillIp s addr mask) where
  masked := by
    intro k hk
    simp only [Ipfw.fillIp,Vector.getElem_setIfInBounds]
    by_cases hzero : 0=k
    · rw [if_pos hzero,if_pos hzero,BitVec.and_assoc,BitVec.and_self]
    · rw [if_neg hzero,if_neg hzero]
      exact h.masked k hk
  absent := by
    intro hno
    cases hno
  short := by
    intro h6 k hk hpos
    simp only [Ipfw.fillIp,Vector.getElem_setIfInBounds]
    rw [if_neg (by omega)]
    exact h.short h6 k hk hpos
  contiguous := by
    intro _ hno
    cases hno

theorem compiledSide_fillIp6 {s s' : IpfwSide} {addr : Vector (BitVec 32) 4} {masklen : Nat}
    (hfill : fillIp6 s addr masklen=some s') : CompiledSide s' := by
  obtain ⟨mask,hmask,rfl⟩ := map_eq_some_iff.mp hfill
  refine ⟨?_,?_,?_,?_⟩
  · intro k hk
    simp only [Vector.getElem_zipWith]
    rw [BitVec.and_assoc,BitVec.and_self]
  · intro _ hno
    cases hno
  · intro hno
    cases hno
  · intro _ _
    exact ⟨masklen,hmask⟩

theorem Compiled.setSide {rule : IpfwRule} (h : Compiled rule) (e : PfEnd) {s : IpfwSide}
    (hs : CompiledSide s) : Compiled (setSide rule e s) := by
  intro e'
  rw [side_setSide]
  split
  · exact hs
  · exact h e'

theorem Compiled.execInsn {rule rule' : IpfwRule} (h : Compiled rule) {insn : Insn}
    (hexec : execInsn rule insn=some rule') : Compiled rule' := by
  cases insn with
  | proto proto =>
    obtain rfl := some.inj hexec
    intro e
    cases e with
    | remote => exact h .remote
    | here => exact h .here
  | ip e addr mask =>
    obtain rfl := some.inj hexec
    exact h.setSide e ((h e).fillIp addr mask)
  | ip6 e addr masklen =>
    obtain ⟨s,hfill,rfl⟩ := map_eq_some_iff.mp hexec
    exact h.setSide e (compiledSide_fillIp6 hfill)
  | ports e low high =>
    obtain rfl := some.inj hexec
    exact h.setSide e ⟨(h e).masked,(h e).absent,(h e).short,(h e).contiguous⟩
  | other =>
    obtain rfl := some.inj hexec
    exact h

theorem compiled_assembled {insns : List Insn} {rule : IpfwRule}
    (h : assembled insns=some rule) : Compiled rule := by
  have hrun : ∀ (insns : List Insn) (start : IpfwRule),Compiled start →
      insns.foldlM execInsn start=some rule → Compiled rule := by
    intro insns
    induction insns with
    | nil =>
      intro start hstart hfold
      obtain rfl := some.inj hfold
      exact hstart
    | cons insn insns ih =>
      intro start hstart hfold
      rw [List.foldlM_cons] at hfold
      obtain ⟨next,hnext,hfold⟩ := bind_eq_some_iff.mp hfold
      exact ih next (hstart.execInsn hnext) hfold
  refine hrun insns .zero ?_ h
  intro e
  cases e with
  | remote => exact compiledSide_zero
  | here => exact compiledSide_zero

def flowDownlinkOnly : Byte := 1
def flowUplinkOnly : Byte := 2
def flowBidirectional : Byte := 3

/-- A component and what it adds to the length. -/
abbrev Part := PfComponent × Nat

def endOf (direction : Byte) (e : PfEnd) : Option PfEnd :=
  if direction=flowDownlinkOnly ∨ direction=flowBidirectional then some e
  else if direction=flowUplinkOnly then some e.other
  else none

def addrOctets (n : Nat) (addr : Vector (BitVec 32) 4) : Vector Byte n :=
  Vector.ofFn fun i => Fin.ofNat 256 (addrByte addr i.val)

def prefixlenOf (mask : Vector (BitVec 32) 4) : Byte :=
  (contigmask mask 128).elim 255 (Fin.ofNat 256)

section Parts

variable (noLocal : Bool) (s : IpfwSide)

def ipv4Part (e : PfEnd) : List Part :=
  if e = .here ∧ noLocal=true then []
  else [(.ipv4 e (addrOctets 4 s.addr) (addrOctets 4 s.mask),9)]

def ipv6Part (e : PfEnd) : List Part :=
  match e with
  | .remote =>
    if noLocal then [(.ipv6Mask e (addrOctets 16 s.addr) (addrOctets 16 s.mask),33)]
    else [(.ipv6 e (addrOctets 16 s.addr) (prefixlenOf s.mask),18)]
  | .here =>
    if noLocal then [] else [(.ipv6 e (addrOctets 16 s.addr) (prefixlenOf s.mask),18)]

def portPart (e : PfEnd) : List Part :=
  if s.low=s.high then [(.port e s.low,3)] else [(.portRange e s.low s.high,5)]

end Parts

def protoPart (rule : IpfwRule) : List Part :=
  if rule.proto=0 then [] else [(.proto rule.proto,2)]

def bothParts (direction : Byte) (rule : IpfwRule) (present : IpfwSide → Bool)
    (make : IpfwSide → PfEnd → List Part) : Option (List Part) :=
  let part (e : PfEnd) :=
    if present (side rule e) then (endOf direction e).map (make (side rule e)) else some []
  (part .remote).bind fun src => (part .here).map fun dst => src++dst

def contentParts (direction : Byte) (rule : IpfwRule) (noLocal : Bool) : Option (List Part) :=
  (bothParts direction rule (fun s => s.ipv4 != 0) (ipv4Part noLocal)).bind fun ipv4 =>
  (bothParts direction rule (fun s => s.ipv6 != 0) (ipv6Part noLocal)).bind fun ipv6 =>
  (bothParts direction rule (fun s => s.low != 0) portPart).map fun port =>
    protoPart rule++ipv4++ipv6++port

/-- `ogs_pf_content_from_ipfw_rule`; a seventeenth component would be written behind the array. -/
def pfContentFromIpfwRule (direction : Byte) (rule : IpfwRule) (noLocal : Bool) :
    Option PfContent :=
  (contentParts direction rule noLocal).bind fun parts =>
    if h : (parts.map Prod.fst).length ≤ maxNumOfPacketFilterComponent then
      some ⟨Fin.ofNat 256 (parts.map Prod.snd).sum,⟨parts.map Prod.fst,h⟩⟩
    else none

/-- At most `n` components, each of which adds its own size. -/
structure Measured (n : Nat) (parts : List Part) : Prop where
  count : parts.length≤n
  size : ∀ x∈parts,x.2=x.1.bytes.length ∧ x.2≤33

theorem Measured.nil (n : Nat) : Measured n [] := ⟨Nat.zero_le n,fun _ hx => by cases hx⟩

theorem Measured.append {m n : Nat} {p q : List Part} (hp : Measured m p) (hq : Measured n q) :
    Measured (m+n) (p++q) where
  count := by
    have hpn:=hp.count
    have hqn:=hq.count
    rw [List.length_append]
    omega
  size := by
    intro x hx
    rcases List.mem_append.mp hx with hx | hx
    · exact hp.size x hx
    · exact hq.size x hx

theorem measured_one {c : PfComponent} {n : Nat} (h : n=c.bytes.length) (hn : n≤33) :
    Measured 1 [(c,n)] where
  count := Nat.le_refl 1
  size := by
    intro x hx
    obtain rfl := List.mem_singleton.mp hx
    exact ⟨h,hn⟩

theorem measured_ipv4Part (noLocal : Bool) (s : IpfwSide) (e : PfEnd) :
    Measured 1 (ipv4Part noLocal s e) := by
  unfold ipv4Part
  split
  · exact .nil 1
  · exact measured_one (by simp [PfComponent.bytes,PfComponent.fields]) (by omega)

theorem measured_ipv6Part (noLocal : Bool) (s : IpfwSide) (e : PfEnd) :
    Measured 1 (ipv6Part noLocal s e) := by
  have hbegins : Measured 1 [(.ipv6 e (addrOctets 16 s.addr) (prefixlenOf s.mask),18)] :=
    measured_one (by simp [PfComponent.bytes,PfComponent.fields]) (by omega)
  unfold ipv6Part
  cases e with
  | remote =>
    cases noLocal with
    | true => exact measured_one (by simp [PfComponent.bytes,PfComponent.fields]) (by omega)
    | false => exact hbegins
  | here =>
    cases noLocal with
    | true => exact .nil 1
    | false => exact hbegins

theorem measured_portPart (s : IpfwSide) (e : PfEnd) : Measured 1 (portPart s e) := by
  unfold portPart
  split
  · exact measured_one (by simp [PfComponent.bytes,PfComponent.fields]) (by omega)
  · exact measured_one (by simp [PfComponent.bytes,PfComponent.fields]) (by omega)

theorem measured_protoPart (rule : IpfwRule) : Measured 1 (protoPart rule) := by
  unfold protoPart
  split
  · exact .nil 1
  · exact measured_one (by simp [PfComponent.bytes,PfComponent.fields]) (by omega)

theorem measured_bothParts {direction : Byte} {rule : IpfwRule} {present : IpfwSide → Bool}
    {make : IpfwSide → PfEnd → List Part} {parts : List Part}
    (hmake : ∀ s e,Measured 1 (make s e))
    (h : bothParts direction rule present make=some parts) : Measured 2 parts := by
  have hpart : ∀ e l,(if present (side rule e) then (endOf direction e).map (make (side rule e))
      else some [])=some l → Measured 1 l := by
    intro e l hl
    split at hl
    · obtain ⟨e',-,rfl⟩ := map_eq_some_iff.mp hl
      exact hmake (side rule e) e'
    · obtain rfl := some.inj hl
      exact .nil 1
  obtain ⟨src,hsrc,h⟩ := bind_eq_some_iff.mp h
  obtain ⟨dst,hdst,rfl⟩ := map_eq_some_iff.mp h
  exact (hpart .remote src hsrc).append (hpart .here dst hdst)

theorem measured_contentParts {direction : Byte} {rule : IpfwRule} {noLocal : Bool}
    {parts : List Part} (h : contentParts direction rule noLocal=some parts) :
    Measured 7 parts := by
  obtain ⟨ipv4,hipv4,h⟩ := bind_eq_some_iff.mp h
  obtain ⟨ipv6,hipv6,h⟩ := bind_eq_some_iff.mp h
  obtain ⟨port,hport,rfl⟩ := map_eq_some_iff.mp h
  have h4:=measured_bothParts (measured_ipv4Part noLocal) hipv4
  have h6:=measured_bothParts (measured_ipv6Part noLocal) hipv6
  have hp:=measured_bothParts measured_portPart hport
  exact (((measured_protoPart rule).append h4).append h6).append hp

theorem Measured.sum {n : Nat} {parts : List Part} (h : Measured n parts) :
    (parts.map Prod.snd).sum=(componentBytes (parts.map Prod.fst)).length ∧
      (parts.map Prod.snd).sum≤33*parts.length := by
  obtain ⟨-,hsize⟩ := h
  induction parts with
  | nil => exact ⟨rfl,Nat.le_refl 0⟩
  | cons x parts ih =>
    obtain ⟨hlen,hle⟩ := ih fun y hy => hsize y (List.mem_cons_of_mem x hy)
    obtain ⟨hx,hx33⟩ := hsize x List.mem_cons_self
    simp only [List.map_cons,List.sum_cons,length_componentBytes_cons,List.length_cons]
    constructor
    · omega
    · omega

theorem pfContentFromIpfwRule_eq {direction : Byte} {rule : IpfwRule} {noLocal : Bool}
    {parts : List Part} (h : contentParts direction rule noLocal=some parts) :
    ∃ p,pfContentFromIpfwRule direction rule noLocal=some p ∧
      p.component.1=parts.map Prod.fst ∧ p.Sized := by
  have hmeasured:=measured_contentParts h
  have hcount:=hmeasured.count
  obtain ⟨hsum,hbound⟩ := hmeasured.sum
  have hroom : (parts.map Prod.fst).length ≤ maxNumOfPacketFilterComponent := by
    rw [List.length_map]
    exact hcount.trans (by decide)
  refine ⟨⟨Fin.ofNat 256 (parts.map Prod.snd).sum,⟨parts.map Prod.fst,hroom⟩⟩,?_,rfl,?_⟩
  · unfold pfContentFromIpfwRule
    rw [h,bind_some,dif_pos hroom]
  · show (parts.map Prod.snd).sum % 256=_
    rw [Nat.mod_eq_of_lt (by omega),hsum]

theorem pfContent_sized {direction : Byte} {rule : IpfwRule} {noLocal : Bool} {p : PfContent}
    (h : pfContentFromIpfwRule direction rule noLocal=some p) : p.Sized := by
  obtain ⟨parts,hparts,-⟩ := bind_eq_some_iff.mp h
  obtain ⟨q,hq,-,hsized⟩ := pfContentFromIpfwRule_eq hparts
  obtain rfl := some.inj (hq.symm.trans h)
  exact hsized

variable {rule : IpfwRule} {present : IpfwSide → Bool} {make : IpfwSide → PfEnd → List Part}

def endParts (rule : IpfwRule) (present : IpfwSide → Bool) (make : IpfwSide → PfEnd → List Part)
    (e : PfEnd) : List Part :=
  if present (side rule e) then make (side rule e) e else []

theorem bothParts_downlink : bothParts flowDownlinkOnly rule present make =
    some (endParts rule present make .remote++endParts rule present make .here) := by
  have hpart : ∀ e,(if present (side rule e) then
      (endOf flowDownlinkOnly e).map (make (side rule e)) else some []) =
        some (endParts rule present make e) := by
    intro e
    unfold endParts
    split <;> rfl
  unfold bothParts
  simp only [hpart,bind_some,map_some]

theorem side_swap (rule : IpfwRule) (e : PfEnd) : side rule.swap e=side rule e.other := by
  cases e <;> rfl

theorem bothParts_uplink : bothParts flowUplinkOnly rule.swap present make =
    some (endParts rule present make .here++endParts rule present make .remote) := by
  have hpart : ∀ e,(if present (side rule.swap e) then
      (endOf flowUplinkOnly e).map (make (side rule.swap e)) else some []) =
        some (endParts rule present make e.other) := by
    intro e
    unfold endParts
    rw [side_swap]
    split <;> rfl
  unfold bothParts
  simp only [hpart,bind_some,map_some,PfEnd.other]

def filterParts (rule : IpfwRule) (noLocal : Bool) (first second : PfEnd) : List Part :=
  let ipv4:=endParts rule (fun s => s.ipv4 != 0) (ipv4Part noLocal)
  let ipv6:=endParts rule (fun s => s.ipv6 != 0) (ipv6Part noLocal)
  let port:=endParts rule (fun s => s.low != 0) portPart
  protoPart rule++(ipv4 first++ipv4 second)++(ipv6 first++ipv6 second) ++
    (port first++port second)

theorem contentParts_downlink (rule : IpfwRule) (noLocal : Bool) :
    contentParts flowDownlinkOnly rule noLocal =
      some (filterParts rule noLocal .remote .here) := by
  unfold contentParts
  rw [bothParts_downlink,bothParts_downlink,bothParts_downlink]
  rfl

theorem contentParts_uplink (rule : IpfwRule) (noLocal : Bool) :
    contentParts flowUplinkOnly rule.swap noLocal =
      some (filterParts rule noLocal .here .remote) := by
  unfold contentParts
  rw [bothParts_uplink,bothParts_uplink,bothParts_uplink]
  rfl

theorem pfContent_swap_perm (rule : IpfwRule) (noLocal : Bool) :
    ∃ p q,pfContentFromIpfwRule flowDownlinkOnly rule noLocal=some p ∧
      pfContentFromIpfwRule flowUplinkOnly rule.swap noLocal=some q ∧
        p.component.1.Perm q.component.1 := by
  obtain ⟨p,hp,hpc,-⟩ := pfContentFromIpfwRule_eq (contentParts_downlink rule noLocal)
  obtain ⟨q,hq,hqc,-⟩ := pfContentFromIpfwRule_eq (contentParts_uplink rule noLocal)
  refine ⟨p,q,hp,hq,?_⟩
  rw [hpc,hqc]
  apply List.Perm.map
  unfold filterParts
  exact ((List.perm_append_comm.append_left _).append List.perm_append_comm).append
    List.perm_append_comm

end OgsDp.Ipfw
