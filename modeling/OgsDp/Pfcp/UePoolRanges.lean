import OgsDp.Pfcp.UePool

/-!
# The ranges of a pool (lib/pfcp/context.c)

The words of an address lie in network order, and what is counted up is added to them as to
integers of a little-endian host: octet by octet, and what is carried goes the wrong way.
-/

namespace OgsDp.Pfcp
open OgsDp.Core Lib

/-- `be32toh` -/
def hostOrder (w : BitVec 32) : Nat := (htobe32 w.toNat).toNat

/-- One of the last four octets of the sum carries into the next one. -/
def OctetCarries (a b : Nat) : Prop := ∃ k≤4,256^k≤a % 256^k+b % 256^k

instance (a b : Nat) : Decidable (OctetCarries a b) :=
  inferInstanceAs (Decidable (∃ k≤4,256^k≤a % 256^k+b % 256^k))

theorem toNat_htobe32 (n : Nat) : (htobe32 n).toNat=n % 256*2^24+n / 256 % 256*2^16 +
    n / 65536 % 256*256+n / 16777216 % 256 := by
  rw [htobe32,BitVec.toNat_ofNat,Nat.mod_eq_of_lt]
  omega

theorem hostOrder_lt (w : BitVec 32) : hostOrder w<2^32 := (htobe32 w.toNat).isLt

theorem octets_word {a b c d n : Nat} (ha : a<256) (hb : b<256) (hc : c<256) (hd : d<256)
    (hn : n=a*2^24+b*2^16+c*256+d) :
    n % 256=d ∧ n / 256 % 256=c ∧ n / 65536 % 256=b ∧ n / 16777216 % 256=a := by
  subst hn
  omega

theorem htobe32_htobe32 {n : Nat} (h : n<2^32) : (htobe32 (htobe32 n).toNat).toNat=n := by
  have hmod : ∀ x,x % 256<256 := fun x => Nat.mod_lt x (by decide)
  obtain ⟨h₀,h₁,h₂,h₃⟩ := octets_word (hmod n) (hmod (n / 256)) (hmod (n / 65536))
    (hmod (n / 16777216)) (toNat_htobe32 n)
  rw [toNat_htobe32,h₀,h₁,h₂,h₃]
  omega

theorem hostOrder_htobe32 {n : Nat} (h : n<2^32) : hostOrder (htobe32 n)=n :=
  htobe32_htobe32 h

theorem htobe32_hostOrder (w : BitVec 32) : htobe32 (hostOrder w)=w :=
  BitVec.eq_of_toNat_eq (htobe32_htobe32 w.isLt)

theorem hostOrder_inj {v w : BitVec 32} (h : hostOrder v=hostOrder w) : v=w := by
  rw [← htobe32_hostOrder v,h,htobe32_hostOrder]

theorem htobe32_add {a b : Nat} (ha : a<2^32) (hb : b<2^32) (h : ¬ OctetCarries a b) :
    htobe32 a+htobe32 b=htobe32 (a+b) := by
  have hk : ∀ k≤4,a % 256^k+b % 256^k<256^k := by
    intro k hk
    exact Nat.not_le.mp fun hle => h ⟨k,hk,hle⟩
  have h1 : a % 256+b % 256<256 := hk 1 (by decide)
  have h2 : a % 65536+b % 65536<65536 := hk 2 (by decide)
  have h3 : a % 16777216+b % 16777216<16777216 := hk 3 (by decide)
  have h4 : a % 4294967296+b % 4294967296<4294967296 := hk 4 (by decide)
  have hd₀ : (a+b) % 256=a % 256+b % 256 := by omega
  have hd₁ : (a+b) / 256 % 256=a / 256 % 256+b / 256 % 256 := by
    clear h3 h4
    omega
  have hd₂ : (a+b) / 65536 % 256=a / 65536 % 256+b / 65536 % 256 := by
    clear h1 h4 hd₀ hd₁
    omega
  have hd₃ : (a+b) / 16777216 % 256=a / 16777216 % 256+b / 16777216 % 256 := by
    clear h1 h2 hd₀ hd₁ hd₂
    omega
  apply BitVec.eq_of_toNat_eq
  rw [BitVec.toNat_add,toNat_htobe32,toNat_htobe32,toNat_htobe32,hd₀,hd₁,hd₂,hd₃]
  clear h1 h2 h3 h4
  have hsum:=hd₃ ▸ Nat.mod_lt ((a+b) / 16777216) (show 0<256 by decide)
  have hsum₂:=hd₂ ▸ Nat.mod_lt ((a+b) / 65536) (show 0<256 by decide)
  have hsum₁:=hd₁ ▸ Nat.mod_lt ((a+b) / 256) (show 0<256 by decide)
  have hsum₀:=hd₀ ▸ Nat.mod_lt (a+b) (show 0<256 by decide)
  clear hd₀ hd₁ hd₂ hd₃
  rw [Nat.mod_eq_of_lt (by omega)]
  omega

theorem htobe32_wrap {a b : Nat} (hb : b<256) (h : a % 256+b=256) :
    htobe32 a+htobe32 b=htobe32 (a+b-256) := by
  have hd₀ : (a+b-256) % 256=0 := by omega
  have hd₁ : (a+b-256) / 256=a / 256 := by omega
  have hd₂ : (a+b-256) / 65536=a / 65536 := by omega
  have hd₃ : (a+b-256) / 16777216=a / 16777216 := by omega
  apply BitVec.eq_of_toNat_eq
  rw [BitVec.toNat_add,toNat_htobe32,toNat_htobe32,toNat_htobe32,hd₀,hd₁,hd₂,hd₃]
  omega

theorem not_htobe32 {n : Nat} (h : n<2^32) : ~~~ htobe32 n=htobe32 (2^32-1-n) := by
  have hd₀ : (2^32-1-n) % 256=255-n % 256 := by omega
  have hd₁ : (2^32-1-n) / 256 % 256=255-n / 256 % 256 := by omega
  have hd₂ : (2^32-1-n) / 65536 % 256=255-n / 65536 % 256 := by omega
  have hd₃ : (2^32-1-n) / 16777216 % 256=255-n / 16777216 % 256 := by omega
  apply BitVec.eq_of_toNat_eq
  rw [BitVec.toNat_not,toNat_htobe32,toNat_htobe32,hd₀,hd₁,hd₂,hd₃]
  omega

theorem mod_low (a b : Nat) {k : Nat} (hk : k≤4) : (a*2^32+b) % 256^k=b % 256^k := by
  have hdvd : 256^k ∣ 2^32 := by
    have hpow : (2 : Nat)^32=256^4 := by decide
    rw [hpow]
    exact Nat.pow_dvd_pow 256 hk
  obtain ⟨q,hq⟩ := hdvd
  rw [hq,Nat.mul_left_comm,Nat.mul_add_mod]

theorem hostOrder_add {w : BitVec 32} {n : Nat} (hn : n<2^32)
    (h : ¬ OctetCarries (hostOrder w) n) : hostOrder (w+htobe32 n)=hostOrder w+n := by
  have hlt : hostOrder w+n<2^32 := by
    have h4:=Nat.not_le.mp fun hle => h ⟨4,Nat.le_refl 4,hle⟩
    have hw : hostOrder w % 256^4=hostOrder w := Nat.mod_eq_of_lt (hostOrder_lt w)
    have hmod : n % 256^4=n := Nat.mod_eq_of_lt hn
    rw [hw,hmod] at h4
    exact h4
  rw [← hostOrder_htobe32 hlt,← htobe32_add (hostOrder_lt w) hn h,htobe32_hostOrder]

theorem hostOrder_wrap {w : BitVec 32} {n : Nat} (hn : n<256) (h : hostOrder w % 256+n=256) :
    hostOrder (w+htobe32 n)=hostOrder w+n-256 := by
  have hw:=hostOrder_lt w
  rw [← hostOrder_htobe32 (show hostOrder w+n-256<2^32 by omega),← htobe32_wrap hn h,
    htobe32_hostOrder]

namespace SubnetConf

/-- The number that the compared octets make. Of an IPv6 address they are the first eight. -/
def value (conf : SubnetConf) (a : Words) : Nat :=
  if conf.ipv6 then hostOrder a[0]*2^32+hostOrder a[1] else hostOrder a[0]

def bits (conf : SubnetConf) : Nat := if conf.ipv6 then 64 else 32

def ranges (conf : SubnetConf) : List (Option Words × Option Words) :=
  if conf.range=[] then [(none,none)] else conf.range

end SubnetConf

/-- A subnet with the length of its prefix. The bits of the gateway behind it are turned off. -/
structure UeSubnet where
  conf : SubnetConf
  prefixLen : Nat
  fits : prefixLen ≤ conf.bits
  mask : conf.value conf.mask=2^conf.bits-2^(conf.bits-prefixLen)
  sub : conf.value conf.sub =
    conf.value conf.gw / 2^(conf.bits-prefixLen)*2^(conf.bits-prefixLen)

namespace UeSubnet

variable (u : UeSubnet)

def network : Nat := u.conf.value u.conf.sub
def gateway : Nat := u.conf.value u.conf.gw

/-- The last address of the subnet, for IPv4 that of the broadcast. -/
def last : Nat := u.network+(2^(u.conf.bits-u.prefixLen)-1)

variable (r : Option Words × Option Words)

def low : Nat := r.1.elim u.network u.conf.value
def high : Nat := r.2.elim u.last u.conf.value

/-- Neither the network, the gateway nor the IPv4 broadcast address. -/
def Allowed (v : Nat) : Prop :=
  v≠u.network ∧ v≠u.gateway ∧ (u.conf.ipv6=false → v≠u.last)

/-- The turns of a range: up to its last address, or to the one before the last of the subnet. -/
def turnsOf : Nat := if r.2.isSome then u.high r+1-u.low r else u.last-u.low r

def puts (i : Nat) : Bool := u.low r+i != u.network && u.low r+i != u.gateway

def putBefore (n : Nat) : List Nat := ((List.range n).filter (u.puts r)).map (u.low r + ·)

def Made (room i : Nat) : Prop := (u.putBefore r i).length < room

instance (room i : Nat) : Decidable (u.Made r room i) := inferInstanceAs (Decidable (_<_))

/-- As far as there is room, counting up carries from no octet into the next one, an end that wraps
around is not met too early, and the broadcast address is not put. -/
structure RangeSafe (room : Nat) : Prop where
  octets : ∀ i<u.turnsOf r,u.Made r room i → ¬ OctetCarries (u.low r) i
  wrap : r.2.isSome=true → u.high r % 256=255 → u.low r+255≤u.high r →
    ¬ u.Made r room (u.high r-255-u.low r)
  broadcast : r.2.isSome=true → u.conf.ipv6=false → u.high r=u.last →
    u.last=u.network ∨ u.last=u.gateway ∨ ¬ u.Made r room (u.turnsOf r-1)

/-- Every range finds the room that the ranges before it have left. -/
def SafeFrom : Nat → List (Option Words × Option Words) → Prop
  | _, [] => True
  | room, r::rs =>
    u.RangeSafe r room ∧ SafeFrom (room-(u.putBefore r (u.turnsOf r)).length) rs

end UeSubnet

/-- A subnet with disjoint ranges in it, and the number of addresses that its pool holds, which is
an `int`. -/
structure UePoolInput extends UeSubnet where
  sess : Nat
  short : sess<2^31
  inside : ∀ r∈conf.ranges,toUeSubnet.network≤toUeSubnet.low r ∧
    toUeSubnet.low r≤toUeSubnet.high r ∧ toUeSubnet.high r≤toUeSubnet.last
  disjoint : conf.ranges.Pairwise fun r r' =>
    toUeSubnet.high r<toUeSubnet.low r' ∨ toUeSubnet.high r'<toUeSubnet.low r

/-- The ranges are safe, and if there are fewer prefixes than room, the last IPv6 prefix of the
subnet is not one of a range without an upper bound. -/
structure UePoolInput.Safe (g : UePoolInput) : Prop where
  ranges : g.SafeFrom g.sess g.conf.ranges
  lastPrefix : g.conf.ipv6=true → (∃ r∈g.conf.ranges,r.2=none) →
    g.last=g.network ∨ g.last=g.gateway ∨
      g.sess≤(g.conf.ranges.flatMap fun r => g.putBefore r (g.turnsOf r)).length

/-- The addresses of a pool are distinct, lie in the subnet and in one of the ranges, are none of
those to be left out, and if the pool is not full they are all of these. -/
structure PoolRight (g : UePoolInput) (pool : List Words) : Prop where
  distinct : (pool.map g.conf.value).Nodup
  inside : ∀ a∈pool,(g.network≤g.conf.value a ∧ g.conf.value a≤g.last) ∧
    ∃ r∈g.conf.ranges,g.low r≤g.conf.value a ∧ g.conf.value a≤g.high r
  allowed : ∀ a∈pool,g.Allowed (g.conf.value a)
  all : pool.length<g.sess → ∀ v,(∃ r∈g.conf.ranges,g.low r≤v ∧ v≤g.high r) →
    g.Allowed v → ∃ a∈pool,g.conf.value a=v

namespace SubnetConf

variable {conf : SubnetConf} {a b start : Words} {i : Nat}

theorem sameWords_words :
    conf.sameWords a b=true ↔ ∀ i : Fin 4, i.val<conf.words → a.get i=b.get i := by
  unfold sameWords
  rw [List.all_eq_true]
  constructor
  · intro h i hi
    have hword:=h i (List.mem_finRange i)
    simp only [Bool.or_eq_true,decide_eq_true_eq,beq_iff_eq] at hword
    exact hword.resolve_left (Nat.not_le.mpr hi)
  · intro h i _
    simp only [Bool.or_eq_true,decide_eq_true_eq,beq_iff_eq]
    by_cases hi : i.val<conf.words
    · exact .inr (h i hi)
    · exact .inl (Nat.not_lt.mp hi)

theorem sameWords_iff : conf.sameWords a b=true ↔ conf.value a=conf.value b := by
  rw [sameWords_words]
  by_cases hv6 : conf.ipv6=true
  · have h₁:=hostOrder_lt a[1]
    have h₁':=hostOrder_lt b[1]
    have hwords : conf.words=2 := if_pos hv6
    rw [value,value,if_pos hv6,if_pos hv6,hwords]
    constructor
    · intro h
      have h0 : a[0]=b[0] := h 0 (by decide)
      have h1 : a[1]=b[1] := h 1 (by decide)
      rw [h0,h1]
    · intro h i hi
      have h0 : a[0]=b[0] := hostOrder_inj (by omega)
      have h1 : a[1]=b[1] := hostOrder_inj (by omega)
      obtain ⟨i,hlt⟩ := i
      match i with
      | 0 => exact h0
      | 1 => exact h1
  · have hwords : conf.words=1 := if_neg hv6
    rw [value,value,if_neg hv6,if_neg hv6,hwords]
    constructor
    · intro h
      have h0 : a[0]=b[0] := h 0 (by decide)
      rw [h0]
    · intro h i hi
      have h0 : a[0]=b[0] := hostOrder_inj h
      obtain ⟨i,hlt⟩ := i
      match i with
      | 0 => exact h0

theorem value_candidate (conf : SubnetConf) (start : Words) (i : Nat) :
    ∃ (rest : Nat) (w : BitVec 32),conf.value start=rest*2^32+hostOrder w ∧
      conf.value (conf.candidate start i)=rest*2^32+hostOrder (w+htobe32 i) := by
  by_cases hv6 : conf.ipv6=true
  · have h₀ : (conf.candidate start i)[0]=start[0] := by
      simp [candidate,setWords,words,lastIndex,hv6]
    have h₁ : (conf.candidate start i)[1]=start[1]+htobe32 i := by
      simp [candidate,setWords,words,lastIndex,hv6]
    refine ⟨hostOrder start[0],start[1],?_,?_⟩
    · rw [value,if_pos hv6]
    · rw [value,if_pos hv6,h₀,h₁]
  · have h₀ : (conf.candidate start i)[0]=start[0]+htobe32 i := by
      simp [candidate,setWords,words,lastIndex,hv6]
    refine ⟨0,start[0],?_,?_⟩
    · rw [value,if_neg hv6,Nat.zero_mul,Nat.zero_add]
    · rw [value,if_neg hv6,h₀,Nat.zero_mul,Nat.zero_add]

theorem value_candidate_add (hi : i<2^32) (h : ¬ OctetCarries (conf.value start) i) :
    conf.value (conf.candidate start i)=conf.value start+i := by
  obtain ⟨rest,w,hstart,hcandidate⟩ := value_candidate conf start i
  rw [hcandidate,hstart]
  have hcarry : ¬ OctetCarries (hostOrder w) i := by
    rintro ⟨k,hk,hle⟩
    refine h ⟨k,hk,?_⟩
    rw [hstart,mod_low _ _ hk]
    exact hle
  rw [hostOrder_add hi hcarry,Nat.add_assoc]

theorem value_candidate_wrap (hi : i<256) (h : conf.value start % 256+i=256) :
    conf.value (conf.candidate start i)=conf.value start+i-256 := by
  obtain ⟨rest,w,hstart,hcandidate⟩ := value_candidate conf start i
  rw [hstart] at h
  rw [hcandidate,hstart,hostOrder_wrap hi (by omega)]
  omega

theorem value_address (conf : SubnetConf) (start : Words) (i : Nat) :
    conf.value (conf.address start i)=conf.value (conf.candidate start i) := by
  have h₀ : (conf.address start i)[0]=(conf.candidate start i)[0] := by
    simp [address,setWords]
  have h₁ : (conf.address start i)[1]=(conf.candidate start i)[1] := by
    simp [address,setWords]
  unfold value
  rw [h₀,h₁]

end SubnetConf

theorem mod_add_mod_lt {s d m : Nat} (hm : 0 < m) (h : s % m≤(s+d) % m) :
    s % m+d % m < m := by
  by_contra hle
  have hs:=Nat.mod_lt s hm
  have hd:=Nat.mod_lt d hm
  have hsum : (s+d) % m=s % m+d % m-m := by
    rw [Nat.add_mod,Nat.mod_eq_sub_mod (Nat.not_lt.mp hle),Nat.mod_eq_of_lt (by omega)]
  omega

theorem mod_le_mod_last {n h s k : Nat} (hn : 2^h ∣ n) (hlow : n ≤ s)
    (hhigh : s≤n+(2^h-1)) :
    s % 256^k≤(n+(2^h-1)) % 256^k := by
  have hpow : (256 : Nat)^k=2^(8*k) := by
    rw [Nat.pow_mul]
  have hm : 0<256^k := Nat.pow_pos (by decide)
  have hpos : 0<2^h := Nat.pow_pos (by decide)
  by_cases hk : 8*k≤h
  · have hdvd : 256^k ∣ 2^h := hpow ▸ Nat.pow_dvd_pow 2 hk
    obtain ⟨q,hq⟩ := Nat.dvd_add (Nat.dvd_trans hdvd hn) hdvd
    have hlast : n+(2^h-1)=256^k*(q-1)+(256^k-1) := by
      cases q with
      | zero => omega
      | succ q =>
        rw [Nat.mul_succ] at hq
        rw [Nat.add_sub_cancel]
        omega
    rw [hlast,Nat.mul_add_mod,Nat.mod_eq_of_lt (show 256^k-1<256^k by omega)]
    exact Nat.le_sub_one_of_lt (Nat.mod_lt s hm)
  · have hdvd : 2^h ∣ 256^k := hpow ▸ Nat.pow_dvd_pow 2 (by omega)
    have hblock : n % 256^k+2^h≤256^k := by
      have hmod : 2^h ∣ n % 256^k := (Nat.dvd_mod_iff hdvd).mpr hn
      obtain ⟨q,hq⟩ := hmod
      obtain ⟨q',hq'⟩ := hdvd
      have hlt:=Nat.mod_lt n hm
      rw [hq,hq'] at hlt ⊢
      have hqq:=Nat.lt_of_mul_lt_mul_left hlt
      rw [← Nat.mul_succ]
      exact Nat.mul_le_mul_left _ hqq
    have hsplit : ∀ d,d<2^h → (n+d) % 256^k=n % 256^k+d := by
      intro d hd
      rw [Nat.add_mod,Nat.mod_eq_of_lt (show d<256^k by omega),Nat.mod_eq_of_lt (by omega)]
    obtain ⟨d,rfl⟩ := Nat.exists_eq_add_of_le hlow
    rw [hsplit d (by omega),hsplit (2^h-1) (by omega)]
    omega

theorem not_octetCarries_last {n h s : Nat} (hn : 2^h ∣ n) (hlow : n ≤ s)
    (hhigh : s≤n+(2^h-1)) : ¬ OctetCarries s (n+(2^h-1)-s) := by
  rintro ⟨k,-,hle⟩
  have hlt:=mod_add_mod_lt (s := s) (d := n+(2^h-1)-s) (m := 256^k)
    (Nat.pow_pos (by decide))
    (by rw [Nat.add_sub_cancel' hhigh]; exact mod_le_mod_last hn hlow hhigh)
  omega

theorem hostOrder_not (w : BitVec 32) : hostOrder (~~~ w)=2^32-1-hostOrder w := by
  have hw:=hostOrder_lt w
  rw [← hostOrder_htobe32 (show 2^32-1-hostOrder w<2^32 by omega),← not_htobe32 hw,
    htobe32_hostOrder]

namespace UeSubnet

variable (u : UeSubnet)

theorem dvd_network : 2^(u.conf.bits-u.prefixLen) ∣ u.network := by
  rw [network,u.sub]
  exact Nat.dvd_mul_left _ _

theorem not_octetCarries_hosts :
    ¬ OctetCarries u.network (2^(u.conf.bits-u.prefixLen)-1) := by
  have h:=not_octetCarries_last u.dvd_network (Nat.le_refl _) (Nat.le_add_right _ _)
  rwa [Nat.add_sub_cancel_left] at h

theorem not_octetCarries_upper : ¬ OctetCarries (u.network / 2^32)
    ((2^(u.conf.bits-u.prefixLen)-1) / 2^32) := by
  have hdvd:=u.dvd_network
  generalize u.conf.bits-u.prefixLen=h at hdvd ⊢
  by_cases hh : 32≤h
  · obtain ⟨j,rfl⟩ := Nat.exists_eq_add_of_le hh
    have hpos : 0<2^j := Nat.pow_pos (by decide)
    rw [Nat.pow_add] at hdvd ⊢
    have hupper : (2^32*2^j-1) / 2^32=2^j-1 := by omega
    have hdvd' : 2^j ∣ u.network / 2^32 := by
      obtain ⟨q,hq⟩ := hdvd
      rw [hq,Nat.mul_assoc,Nat.mul_div_cancel_left _ (by decide)]
      exact Nat.dvd_mul_right _ _
    rw [hupper]
    have h:=not_octetCarries_last hdvd' (Nat.le_refl _) (Nat.le_add_right _ _)
    rwa [Nat.add_sub_cancel_left] at h
  · have hlt : 2^h≤2^32 := Nat.pow_le_pow_right (by decide) (by omega)
    have hpos : 0<2^h := Nat.pow_pos (by decide)
    rw [Nat.div_eq_of_lt (show 2^h-1<2^32 by omega)]
    rintro ⟨k,-,hle⟩
    rw [Nat.zero_mod,Nat.add_zero] at hle
    exact absurd (Nat.mod_lt _ (Nat.pow_pos (by decide))) (Nat.not_lt.mpr hle)

theorem value_broadcast : u.conf.value u.conf.broadcast=u.last := by
  have hmask:=u.mask
  have hcarry:=u.not_octetCarries_hosts
  have hupper:=u.not_octetCarries_upper
  have hget : ∀ i : Fin 4, u.conf.broadcast[i]=u.conf.sub[i] + ~~~ u.conf.mask[i] := by
    intro i
    simp [SubnetConf.broadcast,SubnetConf.setWords]
  have h₀ : u.conf.broadcast[0]=u.conf.sub[0] + ~~~ u.conf.mask[0] := hget 0
  have h₁ : u.conf.broadcast[1]=u.conf.sub[1] + ~~~ u.conf.mask[1] := hget 1
  have hnot : ∀ w : BitVec 32, ~~~ w=htobe32 (2^32-1-hostOrder w) := by
    intro w
    rw [← hostOrder_not,htobe32_hostOrder]
  have hpow : 2^(u.conf.bits-u.prefixLen)≤2^u.conf.bits :=
    Nat.pow_le_pow_right (by decide) (Nat.sub_le _ _)
  have hpos : 0<2^(u.conf.bits-u.prefixLen) := Nat.pow_pos (by decide)
  unfold last
  unfold network at *
  by_cases hv6 : u.conf.ipv6=true
  · have hbits : u.conf.bits=64 := if_pos hv6
    rw [hbits] at hmask hpow hcarry hupper hpos ⊢
    generalize 2^(64-u.prefixLen)=size at *
    simp only [SubnetConf.value,if_pos hv6] at hmask hcarry hupper ⊢
    rw [h₀,h₁,hnot,hnot]
    have hm₀:=hostOrder_lt u.conf.mask[0]
    have hm₁:=hostOrder_lt u.conf.mask[1]
    have hs₁:=hostOrder_lt u.conf.sub[1]
    generalize hostOrder u.conf.mask[0]=m₀ at *
    generalize hostOrder u.conf.mask[1]=m₁ at *
    have hsize : size-1=(2^32-1-m₀)*2^32+(2^32-1-m₁) := by omega
    have hhosts : (size-1) / 2^32=2^32-1-m₀ := by omega
    have hnetwork : (hostOrder u.conf.sub[0]*2^32+hostOrder u.conf.sub[1]) / 2^32 =
        hostOrder u.conf.sub[0] := by omega
    have hlower : ¬ OctetCarries (hostOrder u.conf.sub[1]) (2^32-1-m₁) := by
      rintro ⟨k,hk,hle⟩
      refine hcarry ⟨k,hk,?_⟩
      rw [hsize,mod_low _ _ hk,mod_low _ _ hk]
      exact hle
    rw [hhosts,hnetwork] at hupper
    rw [hostOrder_add (by omega) hupper,hostOrder_add (by omega) hlower,hsize,Nat.add_mul]
    ac_rfl
  · have hbits : u.conf.bits=32 := if_neg hv6
    rw [hbits] at hmask hpow hcarry hpos ⊢
    generalize 2^(32-u.prefixLen)=size at *
    simp only [SubnetConf.value,if_neg hv6] at hmask hcarry ⊢
    have hhosts : 2^32-1-hostOrder u.conf.mask[0]=size-1 := by omega
    rw [h₀,hnot,hhosts,hostOrder_add (by omega) hcarry]

variable (r : Option Words × Option Words)

theorem value_rangeStart : u.conf.value (u.conf.rangeStart r)=u.low r := by
  obtain ⟨_ | w,high⟩ := r
  · rfl
  · rfl

theorem value_rangeStop_none (h : r.2=none) :
    u.conf.value (u.conf.rangeStop r)=u.last := by
  obtain ⟨low,high⟩ := r
  subst h
  exact u.value_broadcast

variable {u r}

theorem value_rangeStop_some (h : r.2.isSome=true) :
    ∃ w,u.high r=u.conf.value w ∧
      u.conf.value (u.conf.rangeStop r)=u.conf.value (u.conf.candidate w 1) := by
  obtain ⟨low,high⟩ := r
  obtain ⟨w,rfl⟩ := Option.isSome_iff_exists.mp h
  refine ⟨w,rfl,?_⟩
  unfold SubnetConf.value SubnetConf.rangeStop SubnetConf.candidate SubnetConf.words
    SubnetConf.lastIndex
  by_cases hv6 : u.conf.ipv6=true <;> simp [SubnetConf.setWords,hv6]

theorem not_octetCarries_one {v : Nat} (h : v % 256≠255) : ¬ OctetCarries v 1 := by
  rintro ⟨k,hk,hle⟩
  cases k with
  | zero => simp [Nat.mod_one] at hle
  | succ k =>
    have hpos : 0<256^k := Nat.pow_pos (by decide)
    have hmod : v % 256^(k+1) % 256=v % 256 := Nat.mod_mod_of_dvd v ⟨256^k,Nat.pow_succ'⟩
    have hlt:=Nat.mod_lt v (show 0<256^(k+1) from Nat.pow_pos (by decide))
    rw [Nat.mod_eq_of_lt (show 1<256^(k+1) by rw [Nat.pow_succ]; omega)] at hle
    rw [Nat.pow_succ] at *
    omega

theorem value_rangeStop_succ (h : r.2.isSome=true) (hoctet : u.high r % 256≠255) :
    u.conf.value (u.conf.rangeStop r)=u.high r+1 := by
  obtain ⟨w,hhigh,hstop⟩ := value_rangeStop_some h
  rw [hhigh] at hoctet ⊢
  rw [hstop,SubnetConf.value_candidate_add (by decide) (not_octetCarries_one hoctet)]

theorem value_rangeStop_wrap (h : r.2.isSome=true) (hoctet : u.high r % 256=255) :
    u.conf.value (u.conf.rangeStop r)=u.high r-255 := by
  obtain ⟨w,hhigh,hstop⟩ := value_rangeStop_some h
  rw [hhigh] at hoctet ⊢
  rw [hstop,SubnetConf.value_candidate_wrap (by decide) (by omega)]
  omega

/-- A loop that leaves some turns out and ends where its stop is met gives the turns before that, as
far as there is room for them: by induction on their number. -/
theorem take_turns {keep keep' stop : Nat → Bool} {f f' : Nat → Nat} (more : Nat) {k i room : Nat}
    (hgood : ∀ j<k,((List.range' i j).filter keep).length < room →
      stop (i+j)=false ∧ keep' (i+j)=keep (i+j) ∧ f' (i+j)=f (i+j))
    (hend : ((List.range' i k).filter keep).length < room → stop (i+k)=true) :
    ((((List.range' i (k+1+more)).takeWhile fun j => !stop j).filter keep').take room).map f' =
      (((List.range' i k).filter keep).take room).map f := by
  induction k generalizing i room with
  | zero =>
    cases room with
    | zero => simp
    | succ room =>
      have hstop:=hend (Nat.succ_pos _)
      rw [Nat.add_zero] at hstop
      rw [Nat.zero_add,Nat.add_comm 1 more,List.range'_succ,List.takeWhile_cons,hstop]
      simp
  | succ k ih =>
    cases room with
    | zero => simp
    | succ room =>
      obtain ⟨hstop,hkeep,hf⟩ := hgood 0 (Nat.succ_pos k) (Nat.succ_pos _)
      rw [Nat.add_zero] at hstop hkeep hf
      have hlen : k+1+1+more=(k+1+more)+1 := by omega
      rw [hlen,List.range'_succ,List.range'_succ,List.takeWhile_cons,hstop,Bool.not_false,
        if_pos rfl,List.filter_cons,List.filter_cons,hkeep]
      have hshift : ∀ j,i+(j+1)=i+1+j := fun j => by omega
      have hcount : ∀ j,((List.range' i (j+1)).filter keep).length =
          (if keep i then 1 else 0)+((List.range' (i+1) j).filter keep).length := by
        intro j
        rw [List.range'_succ,List.filter_cons]
        split <;> simp [Nat.add_comm]
      by_cases hi : keep i=true
      · rw [if_pos hi,if_pos hi,List.take_succ_cons,List.take_succ_cons,List.map_cons,
          List.map_cons,hf]
        congr 1
        apply ih
        · intro j hj hroom
          have := hgood (j+1) (by omega) (by rw [hcount,if_pos hi]; omega)
          rwa [hshift] at this
        · intro hroom
          have := hend (by rw [hcount,if_pos hi]; omega)
          rwa [hshift] at this
      · rw [if_neg hi,if_neg hi]
        apply ih
        · intro j hj hroom
          have := hgood (j+1) (by omega) (by rw [hcount,if_neg hi]; omega)
          rwa [hshift] at this
        · intro hroom
          have := hend (by rw [hcount,if_neg hi]; omega)
          rwa [hshift] at this

theorem putBefore_succ (u : UeSubnet) (r : Option Words × Option Words) (n : Nat) :
    u.putBefore r (n+1)=u.putBefore r n ++ if u.puts r n then [u.low r+n] else [] := by
  unfold putBefore
  rw [List.range_succ,List.filter_append,List.map_append]
  cases h : u.puts r n <;> simp [h]

theorem le_length_putBefore (u : UeSubnet) (r : Option Words × Option Words) (n : Nat) :
    n≤(u.putBefore r n).length+2 := by
  have hcount : n≤(u.putBefore r n).length +
      (if u.low r≤u.network ∧ u.network<u.low r+n then 1 else 0) +
        if u.low r≤u.gateway ∧ u.gateway<u.low r+n then 1 else 0 := by
    induction n with
    | zero => exact Nat.zero_le _
    | succ n ih =>
      rw [putBefore_succ,List.length_append]
      cases h : u.puts r n with
      | true =>
        rw [if_pos rfl,List.length_singleton]
        split at ih <;> split at ih <;> split <;> split <;> omega
      | false =>
        rw [if_neg Bool.false_ne_true,List.length_nil]
        unfold puts at h
        rw [Bool.and_eq_false_iff,bne_eq_false_iff_eq,bne_eq_false_iff_eq] at h
        rcases h with h | h
        · split at ih <;> split at ih <;> split <;> split <;> omega
        · split at ih <;> split at ih <;> split <;> split <;> omega
  split at hcount <;> split at hcount <;> omega

theorem length_putBefore_mono {i j : Nat} (hij : i≤j) :
    (u.putBefore r i).length≤(u.putBefore r j).length := by
  induction hij with
  | refl => exact Nat.le_refl _
  | step _ ih =>
    rw [putBefore_succ,List.length_append]
    omega

theorem Made.mono {room i j : Nat} (h : u.Made r room j) (hij : i≤j) : u.Made r room i :=
  Nat.lt_of_le_of_lt (length_putBefore_mono hij) h

theorem Made.lt {room i : Nat} (h : u.Made r room i) (hroom : room<2^31) : i<2^32 := by
  have hle:=le_length_putBefore u r i
  unfold Made at h
  omega

structure InSubnet (u : UeSubnet) (r : Option Words × Option Words) : Prop where
  low : u.network≤u.low r
  ordered : u.low r≤u.high r
  high : u.high r≤u.last

variable {room i : Nat}

theorem low_add_turns (h : u.InSubnet r) :
    u.low r+u.turnsOf r = if r.2.isSome then u.high r+1 else u.last := by
  have hlow:=h.ordered
  have hhigh:=h.high
  unfold turnsOf
  split <;> omega

theorem RangeSafe.good (h : u.RangeSafe r room) (hin : u.InSubnet r) (hroom : room<2^31)
    (hi : i<u.turnsOf r) (hmade : u.Made r room i) :
    u.conf.value (u.conf.candidate (u.conf.rangeStart r) i)=u.low r+i ∧
      u.low r+i≠u.conf.value (u.conf.rangeStop r) := by
  have hturns:=low_add_turns hin
  have hoctets:=h.octets i hi hmade
  rw [← u.value_rangeStart r] at hoctets
  refine ⟨?_,?_⟩
  · rw [SubnetConf.value_candidate_add (hmade.lt hroom) hoctets,u.value_rangeStart]
  · cases hr : r.2 with
    | none =>
      rw [u.value_rangeStop_none r hr]
      rw [hr] at hturns
      simp only [Option.isSome_none,Bool.false_eq_true,if_false] at hturns
      omega
    | some w =>
      have hsome : r.2.isSome=true := by rw [hr]; rfl
      rw [if_pos hsome] at hturns
      by_cases hoctet : u.high r % 256=255
      · rw [value_rangeStop_wrap hsome hoctet]
        intro he
        by_cases hle : u.low r+255≤u.high r
        · refine h.wrap hsome hoctet hle ?_
          rwa [← he,Nat.add_sub_cancel_left]
        · omega
      · rw [value_rangeStop_succ hsome hoctet]
        omega

theorem not_octetCarries_succ {v n : Nat} (h : ¬ OctetCarries v n) (hoctet : (v+n) % 256≠255) :
    ¬ OctetCarries v (n+1) := by
  rintro ⟨k,hk,hle⟩
  have hbefore:=Nat.not_le.mp fun hle => h ⟨k,hk,hle⟩
  cases k with
  | zero => simp [Nat.mod_one] at hle
  | succ k =>
    have hm : 0<256^(k+1) := Nat.pow_pos (by decide)
    have hone : 1<256^(k+1) := by
      rw [Nat.pow_succ]
      have hpos : 0<256^k := Nat.pow_pos (by decide)
      omega
    have hsum : (v+n) % 256^(k+1)=v % 256^(k+1)+n % 256^(k+1) := by
      rw [Nat.add_mod,Nat.mod_eq_of_lt hbefore]
    have hlast : (v+n) % 256^(k+1) % 256=(v+n) % 256 :=
      Nat.mod_mod_of_dvd _ ⟨256^k,Nat.pow_succ'⟩
    have hv:=Nat.mod_lt v hm
    have hnext : (n+1) % 256^(k+1)=(n % 256^(k+1)+1) % 256^(k+1) := by
      rw [Nat.add_mod,Nat.mod_eq_of_lt hone]
    by_cases hwrap : n % 256^(k+1)+1<256^(k+1)
    · rw [hnext,Nat.mod_eq_of_lt hwrap] at hle
      have hdvd : 256^(k+1)=256*256^k := Nat.pow_succ'
      rw [hdvd] at *
      omega
    · have hn:=Nat.mod_lt n hm
      have hfull : n % 256^(k+1)+1=256^(k+1) := by omega
      rw [hnext,hfull,Nat.mod_self] at hle
      omega

theorem RangeSafe.ends (h : u.RangeSafe r room) (hin : u.InSubnet r) (hroom : room<2^31)
    (hmade : u.Made r room (u.turnsOf r)) :
    u.conf.value (u.conf.candidate (u.conf.rangeStart r) (u.turnsOf r)) =
      u.conf.value (u.conf.rangeStop r) := by
  have hturns:=low_add_turns hin
  have hlow:=hin.low
  have hordered:=hin.ordered
  have hhigh:=hin.high
  have hstart:=u.value_rangeStart r
  cases hr : r.2 with
  | none =>
    have hend : u.turnsOf r=u.last-u.low r := by
      unfold turnsOf
      rw [hr]
      rfl
    rw [u.value_rangeStop_none r hr]
    have hcarry : ¬ OctetCarries (u.conf.value (u.conf.rangeStart r)) (u.turnsOf r) := by
      rw [hstart,hend]
      exact not_octetCarries_last u.dvd_network hlow (Nat.le_trans hordered hhigh)
    rw [SubnetConf.value_candidate_add (hmade.lt hroom) hcarry,hstart,hend]
    omega
  | some w =>
    have hsome : r.2.isSome=true := by rw [hr]; rfl
    rw [if_pos hsome] at hturns
    by_cases hoctet : u.high r % 256=255
    · rw [value_rangeStop_wrap hsome hoctet]
      by_cases hle : u.low r+255≤u.high r
      · exact absurd (hmade.mono (by omega)) (h.wrap hsome hoctet hle)
      · rw [SubnetConf.value_candidate_wrap (by omega) (by rw [hstart]; omega),hstart]
        omega
    · have hprev:=h.octets (u.turnsOf r-1) (by omega) (hmade.mono (Nat.sub_le _ _))
      have hcarry:=not_octetCarries_succ hprev (by
        have hlast : u.low r+(u.turnsOf r-1)=u.high r := by omega
        rwa [hlast])
      have hsucc : u.turnsOf r-1+1=u.turnsOf r := by omega
      rw [hsucc,← hstart] at hcarry
      rw [value_rangeStop_succ hsome hoctet,
        SubnetConf.value_candidate_add (hmade.lt hroom) hcarry,hstart,hturns]

theorem generateRange_values {sess : Nat} {pool : List Words} (hsess : sess<2^31)
    (hin : u.InSubnet r) (h : u.RangeSafe r (sess-pool.length)) :
    (u.conf.generateRange sess (u.conf.rangeStart r) (u.conf.rangeStop r) pool
        (List.range (SubnetConf.turns sess))).map u.conf.value =
      pool.map u.conf.value++(u.putBefore r (u.turnsOf r)).take (sess-pool.length) := by
  have henough : u.conf.generateRange sess (u.conf.rangeStart r) (u.conf.rangeStop r) pool
      (List.range (u.turnsOf r+1+SubnetConf.turns sess)) =
        u.conf.generateRange sess (u.conf.rangeStart r) (u.conf.rangeStop r) pool
          (List.range (SubnetConf.turns sess)) :=
    SubnetConf.turns_enough (Nat.le_add_left _ _) (by unfold SubnetConf.turns; omega) pool
  have hcount : ∀ j,((List.range' 0 j).filter (u.puts r)).length=(u.putBefore r j).length := by
    intro j
    rw [putBefore,List.length_map,List.range_eq_range']
  rw [← henough,SubnetConf.generateRange_eq,List.map_append,List.map_map]
  congr 1
  generalize hroom : sess-pool.length=room at h
  have hlt : room<2^31 := by omega
  rw [putBefore,← List.map_take,List.range_eq_range',List.range_eq_range']
  apply take_turns
  · intro i hi hmade
    rw [hcount] at hmade
    obtain ⟨hvalue,hstop⟩ := h.good hin hlt hi hmade
    rw [Nat.zero_add]
    refine ⟨?_,?_,?_⟩
    · rw [Bool.eq_false_iff]
      intro hsame
      exact hstop (hvalue ▸ SubnetConf.sameWords_iff.mp hsame)
    · rw [Bool.eq_iff_iff,Bool.not_eq_true',← Bool.not_eq_true,Bool.or_eq_true,not_or,
        SubnetConf.sameWords_iff,SubnetConf.sameWords_iff,hvalue]
      unfold puts network gateway
      simp only [Bool.and_eq_true,bne_iff_ne,ne_eq]
    · rw [Function.comp_apply,SubnetConf.value_address,hvalue]
  · intro hmade
    rw [hcount] at hmade
    rw [Nat.zero_add]
    exact SubnetConf.sameWords_iff.mpr (h.ends hin hlt hmade)

def putInto (u : UeSubnet) : Nat → List (Option Words × Option Words) → List Nat
  | _, [] => []
  | room, r::rs =>
    (u.putBefore r (u.turnsOf r)).take room ++
      u.putInto (room-(u.putBefore r (u.turnsOf r)).length) rs

theorem putInto_eq (room : Nat) (rs : List (Option Words × Option Words)) :
    u.putInto room rs=(rs.flatMap fun r => u.putBefore r (u.turnsOf r)).take room := by
  induction rs generalizing room with
  | nil => rw [putInto,List.flatMap_nil,List.take_nil]
  | cons r rs ih => rw [putInto,ih,List.flatMap_cons,List.take_append]

theorem foldl_values {sess : Nat} (hsess : sess<2^31) {rs : List (Option Words × Option Words)}
    {pool : List Words} (hin : ∀ r∈rs,u.InSubnet r) (h : u.SafeFrom (sess-pool.length) rs) :
    (rs.foldl (fun pool r => u.conf.generateRange sess (u.conf.rangeStart r) (u.conf.rangeStop r)
        pool (List.range (SubnetConf.turns sess))) pool).map u.conf.value =
      pool.map u.conf.value++u.putInto (sess-pool.length) rs := by
  induction rs generalizing pool with
  | nil => simp [putInto]
  | cons r rs ih =>
    obtain ⟨hr,hrs⟩ := h
    have hvalues:=generateRange_values hsess (hin r (List.mem_cons_self ..)) hr
    have hlen:=congrArg List.length hvalues
    rw [List.length_map,List.length_append,List.length_map,List.length_take] at hlen
    have hleft : sess-(u.conf.generateRange sess (u.conf.rangeStart r) (u.conf.rangeStop r) pool
        (List.range (SubnetConf.turns sess))).length =
          sess-pool.length-(u.putBefore r (u.turnsOf r)).length := by
      rw [hlen]
      omega
    rw [List.foldl_cons,ih (fun r' hr' => hin r' (List.mem_cons_of_mem _ hr')) (hleft ▸ hrs),
      hvalues,hleft,putInto,List.append_assoc]

theorem mem_putBefore {n v : Nat} : v∈u.putBefore r n ↔
    ∃ i<n,v=u.low r+i ∧ v≠u.network ∧ v≠u.gateway := by
  unfold putBefore puts
  simp only [List.mem_map,List.mem_filter,List.mem_range,Bool.and_eq_true,bne_iff_ne]
  constructor
  · rintro ⟨i,⟨hi,hputs⟩,rfl⟩
    exact ⟨i,hi,rfl,hputs⟩
  · rintro ⟨i,hi,rfl,hputs⟩
    exact ⟨i,⟨hi,hputs⟩,rfl⟩

theorem mem_putInto {rs : List (Option Words × Option Words)} {v : Nat} (h : u.SafeFrom room rs)
    (hv : v∈u.putInto room rs) :
    ∃ r∈rs,∃ room,u.RangeSafe r room ∧ v∈(u.putBefore r (u.turnsOf r)).take room := by
  induction rs generalizing room with
  | nil => cases hv
  | cons r rs ih =>
    rcases List.mem_append.mp hv with hv | hv
    · exact ⟨r,List.mem_cons_self ..,room,h.1,hv⟩
    · obtain ⟨r',hr',hsafe⟩ := ih h.2 hv
      exact ⟨r',List.mem_cons_of_mem _ hr',hsafe⟩

theorem putBefore_between (hin : u.InSubnet r) {v : Nat} (hv : v∈u.putBefore r (u.turnsOf r)) :
    u.low r≤v ∧ v≤u.high r ∧ (r.2=none → v<u.last) := by
  obtain ⟨i,hi,rfl,-⟩ := mem_putBefore.mp hv
  have hturns:=low_add_turns hin
  refine ⟨Nat.le_add_right _ _,?_,?_⟩
  · cases hr : r.2 with
    | none =>
      have hhigh : u.high r=u.last := by
        unfold high
        rw [hr]
        rfl
      rw [hr] at hturns
      simp only [Option.isSome_none,Bool.false_eq_true,if_false] at hturns
      omega
    | some w =>
      rw [hr,Option.isSome_some,if_pos rfl] at hturns
      omega
  · intro hr
    rw [hr] at hturns
    simp only [Option.isSome_none,Bool.false_eq_true,if_false] at hturns
    omega

theorem RangeSafe.allowed (h : u.RangeSafe r room) (hin : u.InSubnet r) {v : Nat}
    (hv : v∈(u.putBefore r (u.turnsOf r)).take room) : u.Allowed v := by
  have hmem:=List.mem_of_mem_take hv
  obtain ⟨i,hi,hvi,hnetwork,hgateway⟩ := mem_putBefore.mp hmem
  obtain ⟨hlow,hhigh,hopen⟩ := putBefore_between hin hmem
  refine ⟨hnetwork,hgateway,?_⟩
  rintro hv4 rfl
  cases hr : r.2 with
  | none => exact Nat.lt_irrefl _ (hopen hr)
  | some w =>
    have hsome : r.2.isSome=true := by rw [hr]; rfl
    have hlast : u.high r=u.last := Nat.le_antisymm hin.high hhigh
    rcases h.broadcast hsome hv4 hlast with he | he | hfull
    · exact hnetwork he
    · exact hgateway he
    · -- the room is used up in front of the last turn
      have hturns:=low_add_turns hin
      rw [if_pos hsome] at hturns
      have hsucc : u.turnsOf r=u.turnsOf r-1+1 := by omega
      have hlen : room≤(u.putBefore r (u.turnsOf r-1)).length := Nat.not_lt.mp hfull
      rw [hsucc,putBefore_succ,List.take_append_of_le_length hlen] at hv
      obtain ⟨j,hj,hvj,-⟩ := mem_putBefore.mp (List.mem_of_mem_take hv)
      omega

end UeSubnet

namespace UePoolInput

variable (g : UePoolInput)

theorem inSubnet {r : Option Words × Option Words} (hr : r∈g.conf.ranges) : g.InSubnet r :=
  ⟨(g.inside r hr).1,(g.inside r hr).2.1,(g.inside r hr).2.2⟩

theorem generate_values (h : g.Safe) :
    (g.conf.generate g.sess).map g.conf.value=g.putInto g.sess g.conf.ranges :=
  UeSubnet.foldl_values g.short (fun _ hr => g.inSubnet hr) h.ranges

end UePoolInput

theorem UePoolInput.nodup_values (g : UePoolInput) :
    (g.conf.ranges.flatMap fun r => g.putBefore r (g.turnsOf r)).Nodup := by
  rw [List.nodup_flatMap]
  constructor
  · intro r _
    exact (List.nodup_range.filter _).map fun i j hij => by omega
  · refine g.disjoint.imp_of_mem ?_
    intro r r' hr hr' hdisjoint v hv hv'
    have hv:=UeSubnet.putBefore_between (g.inSubnet hr) hv
    have hv':=UeSubnet.putBefore_between (g.inSubnet hr') hv'
    omega

/-- Where no addition that is made goes wrong, the pool has distinct addresses of the ranges, none
of those to be left out, and all others if it is not full. -/
theorem ue_pool_generate (g : UePoolInput) (h : g.Safe) :
    PoolRight g (g.conf.generate g.sess) := by
  have hvalues:=g.generate_values h
  have hmem : ∀ a∈g.conf.generate g.sess,g.conf.value a∈g.putInto g.sess g.conf.ranges := by
    intro a ha
    rw [← hvalues]
    exact List.mem_map_of_mem ha
  refine ⟨?_,?_,?_,?_⟩
  · rw [hvalues,UeSubnet.putInto_eq]
    exact g.nodup_values.sublist (List.take_sublist _ _)
  · intro a ha
    obtain ⟨r,hr,room,-,hv⟩ := UeSubnet.mem_putInto h.ranges (hmem a ha)
    have hin:=g.inSubnet hr
    obtain ⟨hlow,hhigh,-⟩ := UeSubnet.putBefore_between hin (List.mem_of_mem_take hv)
    exact ⟨⟨Nat.le_trans hin.low hlow,Nat.le_trans hhigh hin.high⟩,r,hr,hlow,hhigh⟩
  · intro a ha
    obtain ⟨r,hr,room,hsafe,hv⟩ := UeSubnet.mem_putInto h.ranges (hmem a ha)
    exact hsafe.allowed (g.inSubnet hr) hv
  · rintro hroom v ⟨r,hr,hlow,hhigh⟩ hallowed
    have hlen:=congrArg List.length hvalues
    rw [UeSubnet.putInto_eq,List.length_map,List.length_take] at hlen
    have hall : (g.conf.ranges.flatMap fun r => g.putBefore r (g.turnsOf r)).length<g.sess := by
      omega
    have hturns:=UeSubnet.low_add_turns (g.inSubnet hr)
    have hlt : v-g.low r<g.turnsOf r := by
      cases hopen : r.2 with
      | some w =>
        rw [hopen,Option.isSome_some,if_pos rfl] at hturns
        omega
      | none =>
        have hend : v≠g.last := by
          cases hv6 : g.conf.ipv6 with
          | false => exact hallowed.2.2 hv6
          | true =>
            rintro rfl
            rcases h.lastPrefix hv6 ⟨r,hr,hopen⟩ with he | he | hfull
            · exact hallowed.1 he
            · exact hallowed.2.1 he
            · omega
        have hlast:=(g.inSubnet hr).high
        rw [hopen] at hturns
        simp only [Option.isSome_none,Bool.false_eq_true,if_false] at hturns
        omega
    have hv : v∈(g.conf.generate g.sess).map g.conf.value := by
      rw [hvalues,UeSubnet.putInto_eq,List.take_of_length_le (Nat.le_of_lt hall)]
      refine List.mem_flatMap.mpr ⟨r,hr,UeSubnet.mem_putBefore.mpr
        ⟨v-g.low r,hlt,by omega,hallowed.1,hallowed.2.1⟩⟩
    exact List.mem_map.mp hv

def subnet16 (range : List (Option Words × Option Words)) : SubnetConf where
  ipv6 := false
  dnn := []
  sub := #v[htobe32 170721280,0,0,0]
  mask := #v[htobe32 4294901760,0,0,0]
  gw := #v[htobe32 170721281,0,0,0]
  range := range

def twoRanges : UePoolInput where
  conf := subnet16 [(some #v[htobe32 170721296,0,0,0],some #v[htobe32 170721298,0,0,0]),
    (some #v[htobe32 170786810,0,0,0],none)]
  prefixLen := 16
  fits := by decide
  mask := by decide
  sub := by decide
  sess := 16
  short := by decide
  inside := by decide
  disjoint := by decide

theorem ue_pool_generate_two_ranges :
    twoRanges.Safe ∧ PoolRight twoRanges (twoRanges.conf.generate 16) := by
  have hsafe : twoRanges.Safe :=
    ⟨⟨⟨by decide,by decide,by decide⟩,
      ⟨by decide,by decide,by decide⟩,trivial⟩,nofun⟩
  exact ⟨hsafe,ue_pool_generate twoRanges hsafe⟩

def acrossOctet : UePoolInput where
  conf := subnet16 [(some #v[htobe32 170721534,0,0,0],some #v[htobe32 170721537,0,0,0])]
  prefixLen := 16
  fits := by decide
  mask := by decide
  sub := by decide
  sess := 8
  short := by decide
  inside := by decide
  disjoint := by decide

/-- Counting up from 10.45.0.254 goes on with 10.45.0.0, and 10.45.0.2 is put. -/
theorem ue_pool_generate_stray :
    (acrossOctet.conf.generate 8).map acrossOctet.conf.value =
        [170721534,170721535]++(List.range 6).map (170721282 + ·) ∧
      ¬ PoolRight acrossOctet (acrossOctet.conf.generate 8) := by
  have hvalues : (acrossOctet.conf.generate 8).map acrossOctet.conf.value =
      [170721534,170721535]++(List.range 6).map (170721282 + ·) := by
    decide
  refine ⟨hvalues,fun h => ?_⟩
  have hstray : 170721282∈(acrossOctet.conf.generate 8).map acrossOctet.conf.value := by
    rw [hvalues]
    decide
  obtain ⟨a,ha,hvalue⟩ := List.mem_map.mp hstray
  obtain ⟨-,r,hr,hlow,-⟩ := h.inside a ha
  rw [hvalue] at hlow
  revert r
  decide

end OgsDp.Pfcp
