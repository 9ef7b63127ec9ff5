import OgsDp.Ipfw.FilterContent
import OgsDp.Pfcp.RuleMatch

/-!
# Two readings of a rule (lib/ipfw/ogs-ipfw.c, lib/pfcp/rule-match.c)

A packet filter means what TS 24.008 says of its components; the same rule is compared with the
packet word by word in the loop over the rules of a PDR.
-/

namespace OgsDp.Ipfw
open OgsDp.Core Lib Pfcp

def hasPorts (proto : Byte) : Prop := proto=ipprotoTcp ∨ proto=ipprotoUdp

instance (proto : Byte) : Decidable (hasPorts proto) := inferInstanceAs (Decidable (_ ∨ _))

/-- An IP packet as it is classified, by its two ends; in the downlink the source is the remote
end. -/
structure Datagram where
  v6 : Bool
  proto : Byte
  addr : PfEnd → List (BitVec 32)
  port : PfEnd → Option Nat

def portPlace : PfEnd → Nat
  | .remote => 0
  | .here => 2

def portAt (mem : List Byte) (h : IpHeader) (e : PfEnd) : Option Nat :=
  if hasPorts h.proto then (readAt mem (h.hlen+portPlace e) 2).map fun port => (be32 port).toNat
  else none

def datagramOf (mem : List Byte) (h : IpHeader) : Datagram where
  v6 := (mem.headD 0).val / 16 == 6
  proto := h.proto
  addr := fun e => match e with
    | .remote => h.src
    | .here => h.dst
  port := portAt mem h

def datagram (pkt : IpPacket) : Option Datagram :=
  if pkt.data=[] then none
  else (readHeader pkt.mem).bind fun header => header.map (datagramOf pkt.mem)

def addrBit (words : List (BitVec 32)) (i : Nat) : Bool :=
  ((words[i / 32]?).getD 0).getMsbD (i % 32)

def octetBit (octets : List Byte) (i : Nat) : Bool :=
  ((octets[i / 8]?).getD 0).val.testBit (7-i % 8)

def Means (d : Datagram) : PfComponent → Prop
  | .matchAll => True
  | .proto proto => d.proto=proto
  | .ipv4 e addr mask => d.v6=false ∧ ∀ i<32,octetBit mask.toList i=true →
      addrBit (d.addr e) i=octetBit addr.toList i
  | .ipv6 e addr prefixlen => d.v6=true ∧ ∀ i<prefixlen.val,
      addrBit (d.addr e) i=octetBit addr.toList i
  | .ipv6Mask e addr mask => d.v6=true ∧ ∀ i<128,octetBit mask.toList i=true →
      addrBit (d.addr e) i=octetBit addr.toList i
  | .port e low => d.port e=some low.toNat
  | .portRange e low high => ∃ x,d.port e=some x ∧ low.toNat≤x ∧ x≤high.toNat

def PfContent.Matches (p : PfContent) (d : Datagram) : Prop := ∀ c∈p.component.1,Means d c

variable {mask addr : Vector (BitVec 32) 4} {words : List (BitVec 32)} {n : Nat}

theorem addrBit_toList (v : Vector (BitVec 32) 4) (i : Nat) : addrBit v.toList i=maskBit v i := by
  unfold addrBit maskBit
  rw [Vector.getElem?_toList]

theorem maskBit_n2mask (h : n2mask n=some mask) {i : Nat} (hi : i<128) :
    maskBit mask i=decide (i<n) := by
  unfold n2mask at h
  split at h
  · obtain rfl := Option.some.inj h
    have hword : i / 32<4 := by omega
    have hbit : i % 32<32 := Nat.mod_lt i (by omega)
    unfold maskBit
    rw [Vector.getElem?_eq_getElem hword,Option.getD_some,Vector.getElem_ofFn,
      BitVec.getMsbD_shiftLeft,BitVec.getMsbD_allOnes]
    by_cases hlt : i<n
    · simp only [hlt,decide_true,decide_eq_true_eq]
      omega
    · simp only [hlt,decide_false,decide_eq_false_iff_not]
      omega
  · cases h

theorem n2mask_le (h : n2mask n=some mask) : n≤128 := by
  unfold n2mask at h
  split at h
  · assumption
  · cases h

theorem contigmask_n2mask (h : n2mask n=some mask) : contigmask mask 128=some n := by
  have hn:=n2mask_le h
  have hbits : (List.range 128).map (maskBit mask) =
      List.replicate n true++List.replicate (128-n) false := by
    apply List.ext_getElem
    · simp
      omega
    · intro i h1 h2
      have hi : i<128 := by simpa using h1
      rw [List.getElem_map,List.getElem_range,maskBit_n2mask h hi,List.getElem_append]
      simp only [List.length_replicate,List.getElem_replicate]
      by_cases hlt : i<n
      · simp [hlt]
      · simp [hlt]
  have hset : ((List.range 128).map (maskBit mask)).takeWhile id=List.replicate n true := by
    rw [hbits,List.takeWhile_append_of_pos (by simp)]
    cases 128-n <;> simp [List.replicate_succ]
  have hrest : (((List.range 128).map (maskBit mask)).drop (n+1)).any id=false := by
    rw [hbits,List.drop_append]
    simp
  unfold contigmask
  simp only [hset,List.length_replicate,hrest]
  rfl

theorem octetBit_addrOctets (m : Nat) (addr : Vector (BitVec 32) 4) {i : Nat} (hi : i<8*m)
    (hi' : i<128) : octetBit (addrOctets m addr).toList i=addrBit addr.toList i := by
  have hoctet : i / 8 < m := by omega
  have hword : i / 32<4 := by omega
  unfold octetBit addrBit
  rw [Vector.getElem?_toList,Vector.getElem?_toList,Vector.getElem?_eq_getElem hoctet,
    Vector.getElem?_eq_getElem hword]
  have hbit : i % 32<32 := Nat.mod_lt i (by omega)
  have hplace : 24-8*(i / 8 % 4)+(7-i % 8)=31-i % 32 := by omega
  have hvalue : (Fin.ofNat 256 (addrByte addr (i / 8))).val=addrByte addr (i / 8) % 2^8 := rfl
  simp only [addrOctets,Vector.getElem_ofFn,Option.getD_some]
  rw [hvalue,addrByte,Nat.div_div_eq_div_mul,Vector.getElem?_eq_getElem hword,
    Option.getD_some,show (256 : Nat)=2^8 from rfl,Nat.mod_mod,Nat.testBit_mod_two_pow,
    BitVec.testBit_toNat,BitVec.getLsbD_ushiftRight,hplace,BitVec.getMsbD_eq_getLsbD]
  simp only [hbit,decide_true,Bool.true_and]
  rw [decide_eq_true (by omega),Bool.true_and]

theorem prefixlenOf_n2mask (h : n2mask n=some mask) : (prefixlenOf mask).val=n := by
  have hn:=n2mask_le h
  unfold prefixlenOf
  rw [contigmask_n2mask h]
  exact Nat.mod_eq_of_lt (by omega)

theorem masked_iff {w m a : BitVec 32} (h : a &&& m=a) :
    w &&& m=a ↔ ∀ i<32,m.getMsbD i=true → w.getMsbD i=a.getMsbD i := by
  constructor
  · intro hw i _ hm
    rw [← hw,BitVec.getMsbD_and,hm,Bool.and_true]
  · intro hbits
    apply BitVec.eq_of_getMsbD_eq
    intro i hi
    rw [← h,BitVec.getMsbD_and,BitVec.getMsbD_and]
    cases hm : m.getMsbD i with
    | false => rw [Bool.and_false,Bool.and_false]
    | true => rw [hbits i hi hm]

theorem addrMatches_iff (s : IpfwSide) (hlen : words.length≤4) :
    addrMatches s words=true ↔
      ∀ k (hk : k<words.length),words[k] &&& s.mask[k]=s.addr[k] := by
  unfold addrMatches
  rw [beq_iff_eq]
  constructor
  · intro heq k hk
    have hat:=congrArg (fun l => l[k]?) heq
    have hk4 : k<4 := by omega
    simpa [List.getElem?_zipWith,hk,hk4] using hat
  · intro hwords
    apply List.ext_getElem
    · simp
    · intro k hk hk'
      rw [List.length_zipWith] at hk
      rw [List.getElem_zipWith,List.getElem_take]
      exact hwords k (by omega)

theorem addrMatches_bits {s : IpfwSide} (hs : CompiledSide s) (hlen : words.length≤4) :
    addrMatches s words=true ↔ ∀ i<32*words.length,addrBit s.mask.toList i=true →
      addrBit words i=addrBit s.addr.toList i := by
  have hbit : ∀ (v : Vector (BitVec 32) 4) k j (hk : k<4),j<32 →
      addrBit v.toList (32*k+j)=v[k].getMsbD j := by
    intro v k j hk hj
    unfold addrBit
    rw [show (32*k+j) / 32=k by omega,show (32*k+j) % 32=j by omega,
      Vector.getElem?_toList,Vector.getElem?_eq_getElem hk,Option.getD_some]
  have hword : ∀ k j (hk : k<words.length),j<32 →
      addrBit words (32*k+j)=words[k].getMsbD j := by
    intro k j hk hj
    unfold addrBit
    rw [show (32*k+j) / 32=k by omega,show (32*k+j) % 32=j by omega,
      List.getElem?_eq_getElem hk,Option.getD_some]
  rw [addrMatches_iff s hlen]
  constructor
  · intro hwords i hi
    have hk : i / 32<words.length := by omega
    have hall:=(masked_iff (hs.masked (i / 32) (by omega))).mp (hwords (i / 32) hk)
    have hat:=hall (i % 32) (Nat.mod_lt i (by omega))
    rw [show i=32*(i / 32)+i % 32 by omega,hbit _ _ _ (by omega) (Nat.mod_lt i (by omega)),
      hbit _ _ _ (by omega) (Nat.mod_lt i (by omega)),hword _ _ hk (Nat.mod_lt i (by omega))]
    exact hat
  · intro hbits k hk
    refine (masked_iff (hs.masked k (by omega))).mpr ?_
    intro j hj hm
    have hat:=hbits (32*k+j) (by omega)
    rw [hbit _ _ _ (by omega) hj,hbit _ _ _ (by omega) hj,hword _ _ hk hj] at hat
    exact hat hm

def FitsVersion (s : IpfwSide) (v6 : Bool) : Prop :=
  (s.ipv4≠0 → v6=false) ∧ (s.ipv6≠0 → v6=true)

/-- The port is between the bounds of an end that has a lower one. -/
def NamesPort (s : IpfwSide) (port : Option Nat) : Prop :=
  s.low≠0 → ∃ x,port=some x ∧ s.low.toNat≤x ∧ x ≤ s.high.toNat

def Wide (d : Datagram) : Prop := ∀ e,(d.addr e).length = if d.v6 then 4 else 1

variable {d : Datagram} {s : IpfwSide} {e : PfEnd}

theorem means_ipv4Part : (∀ x∈ipv4Part false s e,Means d x.1) ↔
    d.v6=false ∧ ∀ i<32,addrBit s.mask.toList i=true →
      addrBit (d.addr e) i=addrBit s.addr.toList i := by
  have hpart : ipv4Part false s e=[(.ipv4 e (addrOctets 4 s.addr) (addrOctets 4 s.mask),9)] := by
    unfold ipv4Part
    rw [if_neg (by simp)]
  rw [hpart,List.forall_mem_singleton]
  constructor
  · intro ⟨hv,hbits⟩
    refine ⟨hv,?_⟩
    intro i hi hm
    have hat:=hbits i hi
    rw [octetBit_addrOctets 4 s.mask hi (by omega),
      octetBit_addrOctets 4 s.addr hi (by omega)] at hat
    exact hat hm
  · intro ⟨hv,hbits⟩
    refine ⟨hv,?_⟩
    intro i hi
    rw [octetBit_addrOctets 4 s.mask hi (by omega),octetBit_addrOctets 4 s.addr hi (by omega)]
    exact hbits i hi

theorem ipv6Part_eq : ipv6Part false s e =
    [(.ipv6 e (addrOctets 16 s.addr) (prefixlenOf s.mask),18)] := by
  cases e <;> rfl

theorem means_ipv6Part (hmask : n2mask n=some s.mask) :
    (∀ x∈ipv6Part false s e,Means d x.1) ↔
      d.v6=true ∧ ∀ i<128,addrBit s.mask.toList i=true →
        addrBit (d.addr e) i=addrBit s.addr.toList i := by
  have hn:=n2mask_le hmask
  rw [ipv6Part_eq,List.forall_mem_singleton]
  constructor
  · intro ⟨hv,hbits⟩
    refine ⟨hv,?_⟩
    intro i hi hm
    rw [addrBit_toList,maskBit_n2mask hmask hi,decide_eq_true_eq] at hm
    rw [hbits i (by rw [prefixlenOf_n2mask hmask]; exact hm),octetBit_addrOctets 16 s.addr hi hi]
  · intro ⟨hv,hbits⟩
    refine ⟨hv,?_⟩
    intro i hi
    rw [prefixlenOf_n2mask hmask] at hi
    have hi' : i<128 := by omega
    rw [octetBit_addrOctets 16 s.addr hi' hi']
    apply hbits i hi'
    rw [addrBit_toList,maskBit_n2mask hmask hi',decide_eq_true_eq]
    exact hi

theorem means_portPart :
    (∀ x∈portPart s e,Means d x.1) ↔
      ∃ x,d.port e=some x ∧ s.low.toNat≤x ∧ x ≤ s.high.toNat := by
  unfold portPart
  split
  · next heq =>
    rw [List.forall_mem_singleton,← heq]
    constructor
    · intro hport
      exact ⟨s.low.toNat,hport,Nat.le_refl _,Nat.le_refl _⟩
    · intro ⟨x,hport,hlow,hhigh⟩
      obtain rfl := Nat.le_antisymm hlow hhigh
      exact hport
  · exact List.forall_mem_singleton

theorem addrMatches_absent (hs : CompiledSide s) (h4 : s.ipv4=0) (h6 : s.ipv6=0)
    (hlen : words.length≤4) : addrMatches s words=true := by
  refine (addrMatches_bits hs hlen).mpr ?_
  intro i hi hm
  have hword : i / 32<4 := by omega
  rw [addrBit_toList,maskBit,Vector.getElem?_eq_getElem hword,Option.getD_some,
    hs.absent h4 h6 (i / 32) hword] at hm
  simp at hm

section Ends

variable {rule : IpfwRule}

theorem forall_endParts {present : IpfwSide → Bool} {make : IpfwSide → PfEnd → List Part}
    {P : Part → Prop} : (∀ x∈endParts rule present make e,P x) ↔
      (present (side rule e)=true → ∀ x∈make (side rule e) e,P x) := by
  unfold endParts
  split
  · next h => exact ⟨fun hall _ => hall,fun hall => hall h⟩
  · next h => exact ⟨fun _ hpresent => absurd hpresent h,fun _ _ hx => by cases hx⟩

/-- The addresses of an end in the filter say that the version is right and that the comparison of
the loop succeeds. -/
theorem means_addresses (hrule : Compiled rule) (hd : Wide d) (e : PfEnd) :
    (∀ x∈endParts rule (fun s => s.ipv4 != 0) (ipv4Part false) e,Means d x.1) ∧
      (∀ x∈endParts rule (fun s => s.ipv6 != 0) (ipv6Part false) e,Means d x.1) ↔
    FitsVersion (side rule e) d.v6 ∧ addrMatches (side rule e) (d.addr e)=true := by
  have hs:=hrule e
  have hlen : (d.addr e).length≤4 := by
    rw [hd e]
    split <;> omega
  rw [forall_endParts,forall_endParts,means_ipv4Part]
  unfold FitsVersion
  simp only [bne_iff_ne]
  by_cases h4 : (side rule e).ipv4=0
  · by_cases h6 : (side rule e).ipv6=0
    · simp [h4,h6,addrMatches_absent hs h4 h6 hlen]
    · obtain ⟨n,hmask⟩ := hs.contiguous h6 h4
      rw [means_ipv6Part hmask,addrMatches_bits hs hlen,hd e]
      cases hv : d.v6 with
      | true => simp [h4,h6]
      | false => simp [h6]
  · by_cases h6 : (side rule e).ipv6=0
    · rw [addrMatches_bits hs hlen,hd e]
      cases hv : d.v6 with
      | true => simp [h4]
      | false => simp [h4,h6]
    · -- with both, no packet has the version of each
      cases hv : d.v6 with
      | true => simp [h4]
      | false =>
        constructor
        · intro ⟨_,hmeans⟩
          rw [ipv6Part_eq,List.forall_mem_singleton] at hmeans
          obtain ⟨hno,-⟩ := hmeans h6
          rw [hv] at hno
          cases hno
        · intro ⟨⟨_,hno⟩,_⟩
          cases hno h6

theorem means_protoPart :
    (∀ x∈protoPart rule,Means d x.1) ↔ rule.proto=0 ∨ rule.proto=d.proto := by
  unfold protoPart
  split
  · next h => exact ⟨fun _ => .inl h,fun _ _ hx => by cases hx⟩
  · next h =>
    rw [List.forall_mem_singleton]
    constructor
    · intro hproto
      exact .inr hproto.symm
    · intro hproto
      exact (hproto.resolve_left h).symm

theorem means_ports (e : PfEnd) :
    (∀ x∈endParts rule (fun s => s.low != 0) portPart e,Means d x.1) ↔
      NamesPort (side rule e) (d.port e) := by
  rw [forall_endParts,means_portPart]
  unfold NamesPort
  simp only [bne_iff_ne]

def Reaches (rule : IpfwRule) (d : Datagram) : Prop :=
  (∀ e,addrMatches (side rule e) (d.addr e)=true) ∧ (rule.proto=0 ∨ rule.proto=d.proto)

theorem forall_end {P : PfEnd → Prop} : (∀ e,P e) ↔ P .remote ∧ P .here := by
  constructor
  · intro h
    exact ⟨h .remote,h .here⟩
  · intro ⟨hremote,hhere⟩ e
    cases e with
    | remote => exact hremote
    | here => exact hhere

theorem means_filterParts (hrule : Compiled rule) (hd : Wide d) :
    (∀ x∈filterParts rule false .remote .here,Means d x.1) ↔
      Reaches rule d ∧ (∀ e,FitsVersion (side rule e) d.v6) ∧
        ∀ e,NamesPort (side rule e) (d.port e) := by
  have hremote:=means_addresses hrule hd .remote
  have hhere:=means_addresses hrule hd .here
  unfold filterParts Reaches
  simp only [List.forall_mem_append,means_protoPart,means_ports,forall_end]
  constructor
  · intro ⟨⟨⟨hproto,h4r,h4h⟩,h6r,h6h⟩,hports⟩
    obtain ⟨hvr,har⟩ := hremote.mp ⟨h4r,h6r⟩
    obtain ⟨hvh,hah⟩ := hhere.mp ⟨h4h,h6h⟩
    exact ⟨⟨⟨har,hah⟩,hproto⟩,⟨hvr,hvh⟩,hports⟩
  · intro ⟨⟨⟨har,hah⟩,hproto⟩,⟨hvr,hvh⟩,hports⟩
    obtain ⟨h4r,h6r⟩ := hremote.mpr ⟨hvr,har⟩
    obtain ⟨h4h,h6h⟩ := hhere.mpr ⟨hvh,hah⟩
    exact ⟨⟨⟨hproto,h4r,h4h⟩,h6r,h6h⟩,hports⟩

end Ends

def WithinBounds (s : IpfwSide) (port : Option Nat) : Prop :=
  (s.low=0 ∧ s.high=0) ∨
    ∃ x,port=some x ∧ (s.low≠0 → s.low.toNat≤x) ∧ (s.high≠0 → x ≤ s.high.toNat)

def Within (rule : IpfwRule) (d : Datagram) : Prop :=
  hasPorts rule.proto → ∀ e,WithinBounds (side rule e) (d.port e)

section Loop

variable {mem : List Byte} {h : IpHeader} {rule : IpfwRule}

theorem inPortRange_iff {x : Nat} : inPortRange s x=true ↔
    (s.low≠0 → s.low.toNat≤x) ∧ (s.high≠0 → x ≤ s.high.toNat) := by
  unfold inPortRange
  simp only [Bool.and_eq_true,Bool.not_eq_true',Bool.and_eq_false_imp,bne_iff_ne,
    decide_eq_false_iff_not,Nat.not_lt]

theorem portMatches_iff (hproto : hasPorts h.proto) (e : PfEnd) :
    portMatches mem (h.hlen+portPlace e) s=some true ↔ WithinBounds s (portAt mem h e) := by
  unfold portMatches WithinBounds portAt
  rw [if_pos hproto]
  split
  · next hzero => exact ⟨fun _ => .inl hzero,fun _ => rfl⟩
  · next hzero =>
    rw [Option.map_eq_some_iff]
    constructor
    · intro ⟨port,hport,hrange⟩
      refine .inr ⟨(be32 port).toNat,?_,inPortRange_iff.mp hrange⟩
      rw [hport,Option.map_some]
    · intro hwithin
      obtain ⟨x,hx,hrange⟩ := hwithin.resolve_left hzero
      obtain ⟨port,hport,rfl⟩ := Option.map_eq_some_iff.mp hx
      exact ⟨port,hport,inPortRange_iff.mpr hrange⟩

theorem bothPorts_iff (hproto : hasPorts h.proto) :
    ((portMatches mem h.hlen rule.src).bind fun ok =>
      if ok then portMatches mem (h.hlen+2) rule.dst else some false)=some true ↔
        ∀ e,WithinBounds (side rule e) (portAt mem h e) := by
  have hfrom : portMatches mem h.hlen rule.src=some true ↔
      WithinBounds (side rule .remote) (portAt mem h .remote) := portMatches_iff hproto .remote
  have hto : portMatches mem (h.hlen+2) rule.dst=some true ↔
      WithinBounds (side rule .here) (portAt mem h .here) := portMatches_iff hproto .here
  rw [forall_end,← hfrom,← hto,Option.bind_eq_some_iff]
  constructor
  · intro ⟨ok,hok,hrest⟩
    cases ok with
    | true => exact ⟨hok,hrest⟩
    | false => cases hrest
  · intro ⟨hok,hrest⟩
    exact ⟨true,hok,hrest⟩

theorem ruleMatches_iff : ruleMatches mem h rule=some true ↔
    Reaches rule (datagramOf mem h) ∧ Within rule (datagramOf mem h) := by
  have haddr : (addrMatches rule.src h.src && addrMatches rule.dst h.dst)=true ↔
      ∀ e,addrMatches (side rule e) ((datagramOf mem h).addr e)=true := by
    rw [Bool.and_eq_true,forall_end]
    rfl
  unfold ruleMatches Reaches
  split
  · next hmatch =>
    have hall:=haddr.mp hmatch
    split
    · next hzero =>
      refine ⟨fun _ => ⟨⟨hall,.inl hzero⟩,?_⟩,fun _ => rfl⟩
      intro hports
      rw [hzero] at hports
      exact absurd hports (by decide)
    · next hzero =>
      split
      · next hproto =>
        split
        · next hports =>
          rw [bothPorts_iff (hproto ▸ hports)]
          exact ⟨fun hin => ⟨⟨hall,.inr hproto⟩,fun _ => hin⟩,fun hin => hin.2 hports⟩
        · next hports =>
          exact ⟨fun _ => ⟨⟨hall,.inr hproto⟩,fun hyes => absurd hyes hports⟩,fun _ => rfl⟩
      · next hproto =>
        constructor
        · intro hno
          cases hno
        · intro ⟨⟨_,heq⟩,_⟩
          exact absurd (heq.resolve_left hzero) hproto
  · next hmatch =>
    constructor
    · intro hno
      cases hno
    · intro ⟨⟨hall,_⟩,_⟩
      exact absurd (haddr.mpr hall) hmatch

end Loop

theorem length_wordsAt {mem : List Byte} {i n : Nat} {words : List (BitVec 32)}
    (h : wordsAt mem i n=some words) : words.length=n := by
  have hrun : ∀ (ks : List Nat) (words : List (BitVec 32)),
      ks.mapM (fun k => (readAt mem (i+4*k) 4).map be32)=some words →
        words.length=ks.length := by
    intro ks
    induction ks with
    | nil =>
      intro words hwords
      obtain rfl := Option.some.inj hwords
      rfl
    | cons k ks ih =>
      intro words hwords
      rw [List.mapM_cons] at hwords
      obtain ⟨word,-,hwords⟩ := Option.bind_eq_some_iff.mp hwords
      obtain ⟨rest,hrest,hwords⟩ := Option.bind_eq_some_iff.mp hwords
      obtain rfl := Option.some.inj hwords
      rw [List.length_cons,List.length_cons,ih rest hrest]
  have hlen:=hrun (List.range n) words h
  rwa [List.length_range] at hlen

theorem wide_datagramOf {mem : List Byte} {h : IpHeader} (hread : readHeader mem=some (some h)) :
    Wide (datagramOf mem h) := by
  obtain ⟨b,hb,hread⟩ := Option.bind_eq_some_iff.mp hread
  have hhead : mem.headD 0=b := by
    rw [List.headD_eq_head?_getD,hb,Option.getD_some]
  split at hread
  · next hv =>
    obtain ⟨proto,-,hread⟩ := Option.bind_eq_some_iff.mp hread
    obtain ⟨src,hsrc,hread⟩ := Option.bind_eq_some_iff.mp hread
    obtain ⟨dst,hdst,hread⟩ := Option.map_eq_some_iff.mp hread
    obtain rfl := Option.some.inj hread
    unfold Wide datagramOf
    rw [hhead,hv]
    exact forall_end.mpr ⟨length_wordsAt hsrc,length_wordsAt hdst⟩
  · split at hread
    · next hv =>
      obtain ⟨r,-,hread⟩ := Option.bind_eq_some_iff.mp hread
      obtain ⟨src,hsrc,hread⟩ := Option.bind_eq_some_iff.mp hread
      obtain ⟨dst,hdst,hread⟩ := Option.map_eq_some_iff.mp hread
      obtain rfl := Option.some.inj hread
      unfold Wide datagramOf
      rw [hhead,hv]
      exact forall_end.mpr ⟨length_wordsAt hsrc,length_wordsAt hdst⟩
    · cases Option.some.inj hread

theorem datagram_some {pkt : IpPacket} (h : datagram pkt=some d) :
    pkt.data≠[] ∧ ∃ header,readHeader pkt.mem=some (some header) ∧
      datagramOf pkt.mem header=d := by
  unfold datagram at h
  split at h
  · cases h
  · next hdata =>
    obtain ⟨header,hread,h⟩ := Option.bind_eq_some_iff.mp h
    obtain ⟨header',rfl,hd⟩ := Option.map_eq_some_iff.mp h
    exact ⟨hdata,header',hread,hd⟩

theorem wide_datagram {pkt : IpPacket} (h : datagram pkt=some d) : Wide d := by
  obtain ⟨-,header,hread,rfl⟩ := datagram_some h
  exact wide_datagramOf hread

theorem pdrRuleFindByPacket_iff {pkt : IpPacket} {rule : FlowRule} (h : datagram pkt=some d) :
    pdrRuleFindByPacket [rule] pkt=some (some rule) ↔
      Reaches rule.ipfw d ∧ Within rule.ipfw d := by
  obtain ⟨hdata,header,hread,rfl⟩ := datagram_some h
  have hturn : packetMatches pkt.mem rule=ruleMatches pkt.mem header rule.ipfw := by
    unfold packetMatches
    rw [hread]
    rfl
  unfold pdrRuleFindByPacket findMatching
  rw [if_neg hdata,hturn,← ruleMatches_iff,Option.bind_eq_some_iff]
  constructor
  · intro h
    obtain ⟨ok,hok,hrest⟩ := h
    cases ok with
    | true => exact hok
    | false => cases hrest
  · intro hok
    exact ⟨true,hok,rfl⟩

inductive Apart (rule : IpfwRule) (d : Datagram) : Prop where
  -- the words of an address of the other version are as the rule has them
  | otherVersion (reaches : Reaches rule d) (ports : Within rule d) (e : PfEnd)
      (version : ¬ FitsVersion (side rule e) d.v6)
  -- without an upper bound the filter has a range that ends at zero
  | lowAlone (reaches : Reaches rule d) (version : ∀ e,FitsVersion (side rule e) d.v6)
      (proto : hasPorts rule.proto) (ports : Within rule d) (e : PfEnd)
      (low : (side rule e).low≠0) (high : (side rule e).high=0)
  -- without a lower bound the filter has no ports
  | highAlone (reaches : Reaches rule d) (version : ∀ e,FitsVersion (side rule e) d.v6)
      (proto : hasPorts rule.proto) (ports : ∀ e,NamesPort (side rule e) (d.port e)) (e : PfEnd)
      (low : (side rule e).low=0) (high : (side rule e).high≠0)
      (above : ∀ x,d.port e=some x → (side rule e).high.toNat<x)
  -- the loop asks for no ports, the filter does
  | noPorts (reaches : Reaches rule d) (version : ∀ e,FitsVersion (side rule e) d.v6)
      (proto : ¬ hasPorts rule.proto) (e : PfEnd) (low : (side rule e).low≠0)
      (outside : ∀ x,d.port e=some x →
        x<(side rule e).low.toNat ∨ (side rule e).high.toNat<x)

section Bounds

variable {port : Option Nat}

theorem NamesPort.within (h : NamesPort s port) : WithinBounds s port ∨
    (s.low=0 ∧ s.high≠0 ∧ ∀ x,port=some x → s.high.toNat<x) := by
  by_cases hlow : s.low=0
  · by_cases hhigh : s.high=0
    · exact .inl (.inl ⟨hlow,hhigh⟩)
    · by_cases hle : ∃ x,port=some x ∧ x ≤ s.high.toNat
      · obtain ⟨x,hx,hle⟩ := hle
        exact .inl (.inr ⟨x,hx,fun hno => absurd hlow hno,fun _ => hle⟩)
      · refine .inr ⟨hlow,hhigh,?_⟩
        intro x hx
        exact Nat.lt_of_not_le fun hno => hle ⟨x,hx,hno⟩
  · obtain ⟨x,hx,hge,hle⟩ := h hlow
    exact .inl (.inr ⟨x,hx,fun _ => hge,fun _ => hle⟩)

theorem WithinBounds.names (h : WithinBounds s port) : NamesPort s port ∨
    (s.low≠0 ∧ s.high=0) := by
  rcases h with ⟨hlow,-⟩ | ⟨x,hx,hge,hle⟩
  · exact .inl fun hno => absurd hlow hno
  · by_cases hhigh : s.high=0
    · by_cases hlow : s.low=0
      · exact .inl fun hno => absurd hlow hno
      · exact .inr ⟨hlow,hhigh⟩
    · exact .inl fun hlow => ⟨x,hx,hge hlow,hle hhigh⟩

theorem not_names_of_low (hlow : s.low≠0) (hhigh : s.high=0) : ¬ NamesPort s port := by
  intro h
  obtain ⟨x,-,hge,hle⟩ := h hlow
  have hpos : s.low.toNat≠0 := fun hno => hlow (BitVec.eq_of_toNat_eq hno)
  rw [hhigh] at hle
  have hzero : x≤0 := hle
  omega

theorem not_within_of_high (hhigh : s.high≠0)
    (habove : ∀ x,port=some x → s.high.toNat<x) : ¬ WithinBounds s port := by
  intro h
  rcases h with ⟨-,hno⟩ | ⟨x,hx,-,hle⟩
  · exact hhigh hno
  · have hgt:=habove x hx
    have hle:=hle hhigh
    omega

end Bounds

theorem readings_agree_iff {rule : IpfwRule} :
    ((Reaches rule d ∧ (∀ e,FitsVersion (side rule e) d.v6) ∧
        ∀ e,NamesPort (side rule e) (d.port e)) ↔ (Reaches rule d ∧ Within rule d)) ↔
      ¬ Apart rule d := by
  constructor
  · intro hagree hapart
    cases hapart with
    | otherVersion reaches ports e version =>
      obtain ⟨-,hversion,-⟩ := hagree.mpr ⟨reaches,ports⟩
      exact version (hversion e)
    | lowAlone reaches version proto ports e low high =>
      obtain ⟨-,-,hnames⟩ := hagree.mpr ⟨reaches,ports⟩
      exact not_names_of_low low high (hnames e)
    | highAlone reaches version proto ports e low high above =>
      obtain ⟨-,hwithin⟩ := hagree.mp ⟨reaches,version,ports⟩
      exact not_within_of_high high above (hwithin proto e)
    | noPorts reaches version proto e low outside =>
      obtain ⟨-,-,hnames⟩ := hagree.mpr ⟨reaches,fun hports => absurd hports proto⟩
      obtain ⟨x,hx,hge,hle⟩ := hnames e low
      have hout:=outside x hx
      omega
  · intro hapart
    constructor
    · intro ⟨hreach,hversion,hnames⟩
      refine ⟨hreach,?_⟩
      intro hproto e
      rcases (hnames e).within with hin | ⟨hlow,hhigh,habove⟩
      · exact hin
      · exact absurd (.highAlone hreach hversion hproto hnames e hlow hhigh habove) hapart
    · intro ⟨hreach,hwithin⟩
      have hversion : ∀ e,FitsVersion (side rule e) d.v6 := by
        intro e
        by_contra hno
        exact hapart (.otherVersion hreach hwithin e hno)
      refine ⟨hreach,hversion,?_⟩
      intro e
      by_cases hproto : hasPorts rule.proto
      · rcases (hwithin hproto e).names with hin | ⟨hlow,hhigh⟩
        · exact hin
        · exact absurd (.lowAlone hreach hversion hproto hwithin e hlow hhigh) hapart
      · intro hlow
        by_contra hno
        refine hapart (.noPorts hreach hversion hproto e hlow ?_)
        intro x hx
        by_contra hin
        exact hno ⟨x,hx,by omega,by omega⟩

/-- The filter of a compiled rule for the downlink matches what the loop matches, but for the
packets of `Apart`; that of the swapped rule for the uplink has the same components, and the length
is that of the components. -/
theorem packet_filter_agreement {insns : List Insn} {rule : FlowRule}
    (hrule : assembled insns=some rule.ipfw) :
    (∀ pkt d,datagram pkt=some d →
      ∃ p,pfContentFromIpfwRule flowDownlinkOnly rule.ipfw false=some p ∧
        ((p.Matches d ↔ pdrRuleFindByPacket [rule] pkt=some (some rule)) ↔
          ¬ Apart rule.ipfw d)) ∧
    (∀ noLocal,∃ p q,pfContentFromIpfwRule flowDownlinkOnly rule.ipfw noLocal=some p ∧
      pfContentFromIpfwRule flowUplinkOnly rule.ipfw.swap noLocal=some q ∧
        p.component.1.Perm q.component.1) ∧
    ∀ (swapped : IpfwRule) direction noLocal p,
      pfContentFromIpfwRule direction swapped noLocal=some p → p.Sized := by
  refine ⟨?_,fun noLocal => pfContent_swap_perm rule.ipfw noLocal,?_⟩
  · intro pkt d hd
    obtain ⟨p,hp,hcomponents,-⟩ :=
      pfContentFromIpfwRule_eq (contentParts_downlink rule.ipfw false)
    have hmatches : p.Matches d ↔ Reaches rule.ipfw d ∧
        (∀ e,FitsVersion (side rule.ipfw e) d.v6) ∧
          ∀ e,NamesPort (side rule.ipfw e) (d.port e) := by
      rw [← means_filterParts (compiled_assembled hrule) (wide_datagram hd)]
      unfold PfContent.Matches
      rw [hcomponents,List.forall_mem_map]
    refine ⟨p,hp,?_⟩
    rw [hmatches,pdrRuleFindByPacket_iff hd]
    exact readings_agree_iff
  · intro swapped direction noLocal p hp
    exact pfContent_sized hp

def udpFrom (port : List Byte) : IpPacket where
  data := [0x45,0,0,28,0,0,0,0,64,17,0,0,8,8,8,8,10,45,0,2]++port ++
    [0,9,0,8,0,0]
  behind := []

def udpHeader : IpHeader := ⟨17,20,[0x08080808],[0x0a2d0002]⟩

def dnsRule : IpfwRule where
  proto := 17
  src := ⟨1,0, #v[0x08080808,0,0,0], #v[0xffffffff,0,0,0],53,53⟩
  dst := .zero

theorem packet_filter_agreement_dns :
    ∃ p,pfContentFromIpfwRule flowDownlinkOnly dnsRule false=some p ∧
      p.Matches (datagramOf (udpFrom [0,53]).mem udpHeader) := by
  have hd : datagram (udpFrom [0,53]) =
      some (datagramOf (udpFrom [0,53]).mem udpHeader) := rfl
  have hrule : assembled [.proto 17,.ip .remote 0x08080808 0xffffffff,.ports .remote 53 53] =
      some (FlowRule.mk 0 0 dnsRule).ipfw := rfl
  have hloop : pdrRuleFindByPacket [⟨0,0,dnsRule⟩] (udpFrom [0,53]) =
      some (some ⟨0,0,dnsRule⟩) := rfl
  have hversion : ∀ e,FitsVersion (side dnsRule e) false :=
    forall_end.mpr ⟨⟨fun _ => rfl,fun hno => absurd rfl hno⟩,
      fun _ => rfl,fun hno => absurd rfl hno⟩
  obtain ⟨p,hp,hagree⟩ := (packet_filter_agreement hrule).1 _ _ hd
  refine ⟨p,hp,(hagree.mpr ?_).mpr hloop⟩
  intro hapart
  cases hapart with
  | otherVersion reaches ports e version => exact version (hversion e)
  | lowAlone reaches version proto ports e low high =>
    cases e with
    | remote => exact absurd high (by decide)
    | here => exact absurd rfl low
  | highAlone reaches version proto ports e low high above =>
    cases e with
    | remote => exact absurd low (by decide)
    | here => exact absurd rfl high
  | noPorts reaches version proto e low outside => exact proto (by decide)

theorem zero_low_port_differs : ¬ ∀ (insns : List Insn) (rule : FlowRule) (pkt : IpPacket)
    (d : Datagram) (p : PfContent), assembled insns=some rule.ipfw → datagram pkt=some d →
      pfContentFromIpfwRule flowDownlinkOnly rule.ipfw false=some p →
        (p.Matches d ↔ pdrRuleFindByPacket [rule] pkt=some (some rule)) := by
  intro hall
  let ipfw : IpfwRule := ⟨17,{ IpfwSide.zero with low := 0,high := 1023 },.zero⟩
  have hd : datagram (udpFrom [0x13,0x88]) =
      some (datagramOf (udpFrom [0x13,0x88]).mem udpHeader) := rfl
  have hagree:=hall [.proto 17,.ports .remote 0 1023] ⟨0,0,ipfw⟩ (udpFrom [0x13,0x88]) _
    ⟨2,⟨[.proto 17],by decide⟩⟩ rfl hd rfl
  have hloop : pdrRuleFindByPacket [⟨0,0,ipfw⟩] (udpFrom [0x13,0x88])=some none := rfl
  rw [hloop] at hagree
  have hmatches:=hagree.mp (by
    intro c hc
    obtain rfl := List.mem_singleton.mp hc
    rfl)
  cases Option.some.inj hmatches

end OgsDp.Ipfw
