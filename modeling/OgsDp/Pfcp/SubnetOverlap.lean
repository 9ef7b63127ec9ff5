import OgsDp.Pfcp.UePool
import OgsDp.Pfcp.UserPlane

/-!
# Overlapping subnets (lib/pfcp/context.c)

When the configuration has been read, each two of the configured subnets are compared.
-/

namespace OgsDp.Pfcp
open OgsDp.Core Lib

/-- What `ogs_ipsubnet` reads from the texts of an address and a mask. A dotted IPv4 mask leaves the
other words of the mask as ones. -/
inductive IpText where
  | inet (addr mask : BitVec 32) (dotted : Bool)
  | inet6 (addr mask : Words)

namespace IpText

def family : IpText → Family
  | inet .. => .inet
  | inet6 .. => .inet6

def mask : IpText → Words
  | inet _ mask dotted =>
    let rest : BitVec 32 := if dotted then .allOnes 32 else 0
    #v[mask,rest,rest,rest]
  | inet6 _ mask => mask

def sub : IpText → Words
  | inet addr mask _ => #v[addr &&& mask,0,0,0]
  | inet6 addr mask => Vector.zipWith (· &&& ·) addr mask

end IpText

structure SubnetText where
  subnet : Option IpText
  gateway : Option IpText
  dnn : Option (List Byte)

/-- `ogs_pfcp_subnet_t`, as it is compared and looked up. The address is masked, there is one word
of an IPv4 address, and without a subnet there is neither an address nor a mask. -/
structure PfcpSubnet where
  family : Family
  sub : Words
  mask : Words
  gwFamily : Family
  dnn : List Byte
  masked : ∀ i (hi : i<4),sub[i] &&& mask[i]=sub[i]
  short : family = .inet → ∀ i (hi : i<4),0 < i → sub[i]=0
  absent : family = .unspec → ∀ i (hi : i<4),sub[i]=0 ∧ mask[i]=0
  gateway : gwFamily = .unspec → family = .unspec

def zeroWords : Words := Vector.replicate 4 0

/-- `ogs_pfcp_subnet_add`, where `ogs_ipsubnet` reads the texts. -/
def subnetAdd (t : SubnetText) : PfcpSubnet where
  family := t.subnet.elim .unspec IpText.family
  sub := t.subnet.elim zeroWords IpText.sub
  mask := t.subnet.elim zeroWords IpText.mask
  gwFamily := (t.gateway.or t.subnet).elim .unspec IpText.family
  dnn := (t.dnn.getD []).take (maxDnnLen-1)
  masked := by
    intro i hi
    cases t.subnet with
    | none => simp [zeroWords]
    | some text =>
      cases text with
      | inet addr mask dotted =>
        have hcases : i=0 ∨ i=1 ∨ i=2 ∨ i=3 := by omega
        rcases hcases with rfl | rfl | rfl | rfl
        · simp [IpText.sub,IpText.mask,BitVec.and_assoc]
        · simp [IpText.sub]
        · simp [IpText.sub]
        · simp [IpText.sub]
      | inet6 addr mask => simp [IpText.sub,IpText.mask,BitVec.and_assoc]
  short := by
    intro hfamily i hi hpos
    cases h : t.subnet with
    | none => simp [zeroWords]
    | some text =>
      cases text with
      | inet addr mask dotted =>
        have hcases : i=1 ∨ i=2 ∨ i=3 := by omega
        rcases hcases with rfl | rfl | rfl
        · simp [IpText.sub]
        · simp [IpText.sub]
        · simp [IpText.sub]
      | inet6 addr mask =>
        rw [h] at hfamily
        cases hfamily
  absent := by
    intro hfamily i hi
    cases h : t.subnet with
    | none => simp [zeroWords]
    | some text =>
      rw [h] at hfamily
      cases text <;> cases hfamily
  gateway := by
    intro hgw
    cases h : t.subnet with
    | none => rfl
    | some text =>
      rw [h] at hgw
      cases hgateway : t.gateway with
      | none =>
        rw [hgateway] at hgw
        cases text <;> cases hgw
      | some gateway =>
        rw [hgateway] at hgw
        cases gateway <;> cases hgw

def sameDnn (x y : PfcpSubnet) : Prop := x.dnn=[] ∨ y.dnn=[] ∨ x.dnn=y.dnn

instance (x y : PfcpSubnet) : Decidable (sameDnn x y) := inferInstanceAs (Decidable (_ ∨ _ ∨ _))

def wordAt (w : Words) (i : Nat) : BitVec 32 := (w[i]?).getD 0

def sameMasked (x y : PfcpSubnet) (i : Nat) : Bool :=
  wordAt x.sub i &&& (wordAt x.mask i &&& wordAt y.mask i) ==
    wordAt y.sub i &&& (wordAt x.mask i &&& wordAt y.mask i)

def overlapping (x y : PfcpSubnet) : Option Bool :=
  match x.gwFamily with
  | .inet => some (sameMasked x y 0)
  | .inet6 => some (sameMasked x y 0 && sameMasked x y 1 && sameMasked x y 2 && sameMasked x y 3)
  | .unspec => none

def checkNext (subnet : PfcpSubnet) : Bool → List PfcpSubnet → Option Bool
  | rv, [] => some rv
  | rv, next::subnets =>
    if sameDnn subnet next ∧ subnet.gwFamily=next.gwFamily then
      (overlapping subnet next).bind fun found =>
        checkNext subnet (if found then false else rv) subnets
    else checkNext subnet rv subnets

def checkFrom : Bool → List PfcpSubnet → Option Bool
  | rv, [] => some rv
  | rv, subnet::subnets => (checkNext subnet rv subnets).bind fun rv => checkFrom rv subnets

/-- `ogs_pfcp_check_subnet_overlapping`; `none` where its assertion fails. -/
def checkSubnetOverlapping (subnets : List PfcpSubnet) : Option Bool := checkFrom true subnets

def Found (x y : PfcpSubnet) : Prop :=
  sameDnn x y ∧ x.gwFamily=y.gwFamily ∧ overlapping x y≠some false

theorem checkNext_iff (x : PfcpSubnet) (rv : Bool) (l : List PfcpSubnet) :
    checkNext x rv l=some true ↔ rv=true ∧ ∀ y∈l,¬ Found x y := by
  induction l generalizing rv with
  | nil => simp [checkNext]
  | cons y l ih =>
    rw [checkNext,List.forall_mem_cons]
    split
    · next hsame =>
      obtain ⟨hdnn,hgw⟩ := hsame
      cases hover : overlapping x y with
      | none =>
        have hfound : Found x y := ⟨hdnn,hgw,by rw [hover]; exact nofun⟩
        simp [hfound]
      | some found =>
        rw [Option.bind_some,ih]
        cases found with
        | true =>
          have hfound : Found x y := ⟨hdnn,hgw,by rw [hover]; exact nofun⟩
          simp [hfound]
        | false =>
          have hnot : ¬ Found x y := fun h => h.2.2 hover
          simp [hnot]
    · next hsame =>
      have hnot : ¬ Found x y := fun h => hsame ⟨h.1,h.2.1⟩
      rw [ih]
      simp [hnot]

theorem checkFrom_iff (rv : Bool) (l : List PfcpSubnet) :
    checkFrom rv l=some true ↔ rv=true ∧ l.Pairwise fun x y => ¬ Found x y := by
  induction l generalizing rv with
  | nil => simp [checkFrom]
  | cons x l ih =>
    rw [checkFrom,List.pairwise_cons,Option.bind_eq_some_iff]
    constructor
    · intro ⟨rv',hnext,hrest⟩
      obtain ⟨rfl,hpairs⟩ := (ih rv').mp hrest
      obtain ⟨hrv,hfirst⟩ := (checkNext_iff x rv l).mp hnext
      exact ⟨hrv,hfirst,hpairs⟩
    · intro ⟨hrv,hfirst,hpairs⟩
      exact ⟨true,(checkNext_iff x rv l).mpr ⟨hrv,hfirst⟩,(ih true).mpr ⟨rfl,hpairs⟩⟩

def SomePair (R : PfcpSubnet → PfcpSubnet → Prop) (l : List PfcpSubnet) : Prop :=
  ∃ (i j : Nat) (x y : PfcpSubnet),i<j ∧ l[i]?=some x ∧ l[j]?=some y ∧ R x y

theorem pairwise_not_iff {R : PfcpSubnet → PfcpSubnet → Prop} {l : List PfcpSubnet} :
    (l.Pairwise fun x y => ¬ R x y) ↔ ¬ SomePair R l := by
  rw [List.pairwise_iff_getElem]
  constructor
  · intro hall ⟨i,j,x,y,hij,hx,hy,hR⟩
    obtain ⟨hi,rfl⟩ := List.getElem?_eq_some_iff.mp hx
    obtain ⟨hj,rfl⟩ := List.getElem?_eq_some_iff.mp hy
    exact hall i j hi hj hij hR
  · intro hno i j hi hj hij hR
    exact hno ⟨i,j,l[i],l[j],hij,List.getElem?_eq_getElem hi,List.getElem?_eq_getElem hj,hR⟩

theorem SomePair.mono {R S : PfcpSubnet → PfcpSubnet → Prop} {l : List PfcpSubnet}
    (h : SomePair R l) (hRS : ∀ x y,R x y → S x y) : SomePair S l := by
  obtain ⟨i,j,x,y,hij,hx,hy,hR⟩ := h
  exact ⟨i,j,x,y,hij,hx,hy,hRS x y hR⟩

def Family.words : Family → Nat
  | .inet6 => 4
  | _ => 1

/-- The address is one of the subnet; without a subnet there are none. -/
def PfcpSubnet.Covers (x : PfcpSubnet) (a : Words) : Prop :=
  x.family ≠ .unspec ∧
    ∀ i (hi : i<4),i<x.family.words → a[i] &&& x.mask[i]=x.sub[i]

def Intersect (x y : PfcpSubnet) : Prop := ∃ a,x.Covers a ∧ y.Covers a

theorem bits_meet : ∀ a b c d : Bool, (a && c)=a → (b && d)=b →
    (a && (c && d))=(b && (c && d)) → ((a || b) && c)=a ∧ ((a || b) && d)=b := by
  decide

theorem masked_meet {s t m n : BitVec 32} (hs : s &&& m=s) (ht : t &&& n=t) :
    (∃ w,w &&& m=s ∧ w &&& n=t) ↔ s &&& (m &&& n)=t &&& (m &&& n) := by
  constructor
  · intro ⟨w,hm,hn⟩
    rw [← hm,← hn]
    ext i
    simp only [BitVec.getElem_and]
    cases w[i] <;> cases m[i] <;> cases n[i] <;> rfl
  · intro hagree
    have hbit : ∀ i (hi : i<32),((s[i] || t[i]) && m[i])=s[i] ∧
        ((s[i] || t[i]) && n[i])=t[i] := by
      intro i hi
      apply bits_meet
      · rw [← BitVec.getElem_and,hs]
      · rw [← BitVec.getElem_and,ht]
      · rw [← BitVec.getElem_and,← BitVec.getElem_and,← BitVec.getElem_and,hagree]
    refine ⟨s ||| t,?_,?_⟩
    · ext i hi
      rw [BitVec.getElem_and,BitVec.getElem_or]
      exact (hbit i hi).1
    · ext i hi
      rw [BitVec.getElem_and,BitVec.getElem_or]
      exact (hbit i hi).2

variable {x y : PfcpSubnet}

theorem wordAt_of_lt {w : Words} {i : Nat} (hi : i<4) : wordAt w i=w[i] := by
  rw [wordAt,Vector.getElem?_eq_getElem hi,Option.getD_some]

theorem sameMasked_iff {i : Nat} (hi : i<4) : sameMasked x y i=true ↔
    ∃ w,w &&& x.mask[i]=x.sub[i] ∧ w &&& y.mask[i]=y.sub[i] := by
  unfold sameMasked
  rw [masked_meet (x.masked i hi) (y.masked i hi),beq_iff_eq,wordAt_of_lt hi,wordAt_of_lt hi,
    wordAt_of_lt hi,wordAt_of_lt hi]

theorem intersect_iff (hfamily : x.family=y.family) (hsome : x.family ≠ .unspec) :
    Intersect x y ↔ ∀ i<4,i<x.family.words → sameMasked x y i=true := by
  constructor
  · intro ⟨a,⟨_,hx⟩,⟨_,hy⟩⟩ i hi hwords
    exact (sameMasked_iff hi).mpr ⟨a[i],hx i hi hwords,hy i hi (hfamily ▸ hwords)⟩
  · intro hall
    have hword : ∀ i : Fin 4, ∃ w : BitVec 32, i.val<x.family.words →
        w &&& x.mask[i]=x.sub[i] ∧ w &&& y.mask[i]=y.sub[i] := by
      intro i
      by_cases hwords : i.val<x.family.words
      · obtain ⟨w,hw⟩ := (sameMasked_iff i.isLt).mp (hall i.val i.isLt hwords)
        exact ⟨w,fun _ => hw⟩
      · exact ⟨0,fun h => absurd h hwords⟩
    choose w hw using hword
    refine ⟨Vector.ofFn w,⟨hsome,?_⟩,⟨hfamily ▸ hsome,?_⟩⟩
    · intro i hi hwords
      rw [Vector.getElem_ofFn]
      exact (hw ⟨i,hi⟩ hwords).1
    · intro i hi hwords
      rw [Vector.getElem_ofFn]
      exact (hw ⟨i,hi⟩ (hfamily ▸ hwords)).2

/-- The lookup gives the subnet, for some numbers of addresses that are left. -/
def Selectable (l : List PfcpSubnet) (i : Nat) (family : Family) (dnn : List Byte) : Prop :=
  ∃ t : UeIps, t.subnets.map (fun s => (s.family,s.dnn))=l.map (fun x => (x.family,x.dnn)) ∧
    t.findSubnet family (some dnn)=some i

def PfcpSubnet.entry (x : PfcpSubnet) : Subnet :=
  ⟨x.family,x.dnn,0,fun _ => Vector.replicate 16 0⟩

def oneLeft (l : List PfcpSubnet) (i : Nat) : UeIps where
  subnets := l.map PfcpSubnet.entry
  pool := fun j => Pool.init (if j=i then 1 else 0)
  block := fun _ => ⟨Vector.replicate 16 0,0,false⟩
  blocks := 0

theorem selectable_iff {l : List PfcpSubnet} {i : Nat} {family : Family} {dnn : List Byte} :
    Selectable l i family dnn ↔ ∃ x,l[i]?=some x ∧
      (x.family = .unspec ∨ x.family=family) ∧
        (x.dnn=[] ∨ UeIps.sameName x.dnn dnn=true) := by
  constructor
  · intro ⟨t,hsame,hfind⟩
    have hany:=List.find?_some hfind
    obtain ⟨s,hs,hok⟩ := (Option.any_eq_true _ _).mp hany
    have hat : (t.subnets.map fun s => (s.family,s.dnn))[i]?=some (s.family,s.dnn) := by
      rw [List.getElem?_map,hs,Option.map_some]
    rw [hsame,List.getElem?_map,Option.map_eq_some_iff] at hat
    obtain ⟨x,hx,heq⟩ := hat
    obtain ⟨hfamily,hdnn⟩ := Prod.mk.inj heq
    simp only [Bool.and_eq_true,decide_eq_true_eq,Bool.or_eq_true] at hok
    refine ⟨x,hx,?_,?_⟩
    · rw [hfamily]
      exact hok.1.1
    · rw [hdnn]
      simpa using hok.1.2
  · intro ⟨x,hx,hfamily,hdnn⟩
    refine ⟨oneLeft l i,by simp [oneLeft,PfcpSubnet.entry],?_⟩
    obtain ⟨hi,-⟩ := List.getElem?_eq_some_iff.mp hx
    have hat : ∀ j : Nat, (oneLeft l i).subnets[j]?=l[j]?.map PfcpSubnet.entry := by
      intro j
      rw [oneLeft,List.getElem?_map]
    have havail : ∀ j : Nat, ((oneLeft l i).pool j).avail = if j=i then 1 else 0 := by
      intro j
      by_cases h : j=i
      · simp [oneLeft,h,Pool.init]
      · simp [oneLeft,h,Pool.init]
    unfold UeIps.findSubnet
    rw [List.find?_range_eq_some]
    refine ⟨?_,?_,?_⟩
    · rw [hat,hx,havail]
      have hboth : (x.family = .unspec ∨ x.family=family) ∧
          (x.dnn=[] ∨ UeIps.sameName x.dnn dnn=true) := ⟨hfamily,hdnn⟩
      simpa [PfcpSubnet.entry] using hboth
    · simp [oneLeft,hi]
    · intro j hj
      rw [hat,havail,if_neg (by omega)]
      cases l[j]? <;> simp

/-- The names are equal but for the case of letters, or one of the subnets is for every DNN. -/
def CommonDnn (x y : PfcpSubnet) : Prop :=
  x.dnn=[] ∨ y.dnn=[] ∨ UeIps.sameName x.dnn y.dnn=true

theorem commonDnn_iff : CommonDnn x y ↔ ∃ dnn,(x.dnn=[] ∨ UeIps.sameName x.dnn dnn=true) ∧
    (y.dnn=[] ∨ UeIps.sameName y.dnn dnn=true) := by
  constructor
  · intro h
    rcases h with hx | hy | hsame
    · exact ⟨y.dnn,.inl hx,.inr (by simp [UeIps.sameName])⟩
    · exact ⟨x.dnn,.inr (by simp [UeIps.sameName]),.inl hy⟩
    · exact ⟨y.dnn,.inr hsame,.inr (by simp [UeIps.sameName])⟩
  · intro ⟨dnn,hx,hy⟩
    rcases hx with hx | hx
    · exact .inl hx
    · rcases hy with hy | hy
      · exact .inr (.inl hy)
      · refine .inr (.inr ?_)
        simp only [UeIps.sameName,beq_iff_eq] at hx hy ⊢
        rw [hx,hy]

/-- Subnets of a family with an address in common that are selected for a DNN in common. -/
def Clash (l : List PfcpSubnet) (i j : Nat) : Prop :=
  ∃ x y,l[i]?=some x ∧ l[j]?=some y ∧ x.family=y.family ∧ Intersect x y ∧
    ∃ dnn,Selectable l i x.family dnn ∧ Selectable l j x.family dnn

def Clashing (x y : PfcpSubnet) : Prop := x.family=y.family ∧ Intersect x y ∧ CommonDnn x y

theorem clash_iff {l : List PfcpSubnet} :
    (∃ i j,i<j ∧ Clash l i j) ↔ SomePair Clashing l := by
  constructor
  · intro ⟨i,j,hij,x,y,hx,hy,hfamily,hmeet,dnn,hi,hj⟩
    obtain ⟨x',hx',-,hxd⟩ := selectable_iff.mp hi
    obtain ⟨y',hy',-,hyd⟩ := selectable_iff.mp hj
    obtain rfl := Option.some.inj (hx'.symm.trans hx)
    obtain rfl := Option.some.inj (hy'.symm.trans hy)
    exact ⟨i,j,x',y',hij,hx,hy,hfamily,hmeet,commonDnn_iff.mpr ⟨dnn,hxd,hyd⟩⟩
  · intro ⟨i,j,x,y,hij,hx,hy,hfamily,hmeet,hcommon⟩
    obtain ⟨dnn,hxd,hyd⟩ := commonDnn_iff.mp hcommon
    exact ⟨i,j,hij,x,y,hx,hy,hfamily,hmeet,dnn,
      selectable_iff.mpr ⟨x,hx,.inr rfl,hxd⟩,
      selectable_iff.mpr ⟨y,hy,.inr hfamily.symm,hyd⟩⟩

/-- Clashing subnets that the check does not compare: their gateways are of two families, or their
names differ in the case of letters. -/
structure Missed (x y : PfcpSubnet) : Prop where
  clashing : Clashing x y
  apart : x.gwFamily≠y.gwFamily ∨ ¬ sameDnn x y

structure Met (x y : PfcpSubnet) : Prop where
  clashing : Clashing x y
  gateway : x.gwFamily=y.gwFamily
  dnn : sameDnn x y

/-- Subnets that it takes for overlapping, with no address in common. -/
inductive Stray (x y : PfcpSubnet) : Prop where
  -- neither a subnet nor a gateway: the assertion
  | unspec (dnn : sameDnn x y) (first : x.gwFamily = .unspec) (second : y.gwFamily = .unspec)
  -- a gateway only, and so a mask of zero
  | gatewayOnly (dnn : sameDnn x y) (gateway : x.gwFamily=y.gwFamily)
      (some : x.gwFamily ≠ .unspec) (absent : x.family = .unspec ∨ y.family = .unspec)
  -- subnets of two families with gateways of one
  | otherFamily (dnn : sameDnn x y) (gateway : x.gwFamily=y.gwFamily)
      (first : x.family ≠ .unspec) (second : y.family ≠ .unspec) (family : x.family≠y.family)
      (words : ∀ i<4,i<x.gwFamily.words → sameMasked x y i=true)
  -- IPv6 subnets with IPv4 gateways, compared in their first word
  | firstWord (dnn : sameDnn x y) (gateway : x.gwFamily = .inet) (gateway' : y.gwFamily = .inet)
      (first : x.family = .inet6) (second : y.family = .inet6)
      (word : sameMasked x y 0=true) (apart : ¬ Intersect x y)

theorem overlapping_iff (hgw : x.gwFamily ≠ .unspec) : overlapping x y≠some false ↔
    ∀ i<4,i<x.gwFamily.words → sameMasked x y i=true := by
  cases h : x.gwFamily with
  | unspec => exact absurd h hgw
  | inet =>
    rw [overlapping,h]
    constructor
    · intro hne i _ hwords
      have hzero : i=0 := Nat.lt_one_iff.mp hwords
      subst hzero
      simpa using hne
    · intro hall
      simpa using hall 0 (by decide) (by decide)
  | inet6 =>
    rw [overlapping,h]
    constructor
    · intro hne i hi _
      have hall : ((sameMasked x y 0=true ∧ sameMasked x y 1=true) ∧
          sameMasked x y 2=true) ∧ sameMasked x y 3=true := by
        simpa [and_assoc] using hne
      have hcases : i=0 ∨ i=1 ∨ i=2 ∨ i=3 := by omega
      rcases hcases with rfl | rfl | rfl | rfl
      · exact hall.1.1.1
      · exact hall.1.1.2
      · exact hall.1.2
      · exact hall.2
    · intro hall
      simp [hall 0 (by decide) (by decide),hall 1 (by decide) (by decide),
        hall 2 (by decide) (by decide),hall 3 (by decide) (by decide)]

theorem Intersect.left (h : Intersect x y) : x.family ≠ .unspec := by
  obtain ⟨a,⟨hx,_⟩,_⟩ := h
  exact hx

theorem Intersect.right (h : Intersect x y) : y.family ≠ .unspec := by
  obtain ⟨a,_,hy,_⟩ := h
  exact hy

theorem CommonDnn.of_sameDnn (h : sameDnn x y) : CommonDnn x y := by
  rcases h with hx | hy | hsame
  · exact .inl hx
  · exact .inr (.inl hy)
  · exact .inr (.inr (by simp [UeIps.sameName,hsame]))

theorem Clashing.found_iff (h : Clashing x y) :
    Found x y ↔ x.gwFamily=y.gwFamily ∧ sameDnn x y := by
  obtain ⟨hfamily,hmeet,-⟩ := h
  constructor
  · intro ⟨hdnn,hgw,_⟩
    exact ⟨hgw,hdnn⟩
  · intro ⟨hgw,hdnn⟩
    refine ⟨hdnn,hgw,(overlapping_iff fun h => hmeet.left (x.gateway h)).mpr ?_⟩
    intro i hi _
    by_cases hwords : i<x.family.words
    · exact (intersect_iff hfamily hmeet.left).mp hmeet i hi hwords
    · -- behind the first word of two IPv4 subnets
      cases hx : x.family with
      | unspec => exact absurd hx hmeet.left
      | inet6 =>
        rw [hx] at hwords
        exact absurd hi hwords
      | inet =>
        rw [hx] at hwords
        have hpos : 0 < i := Nat.pos_of_ne_zero fun hzero => hwords (hzero ▸ Nat.one_pos)
        rw [sameMasked,wordAt_of_lt (w := x.sub) hi,wordAt_of_lt (w := y.sub) hi,
          x.short hx i hi hpos,y.short (hfamily ▸ hx) i hi hpos]
        simp

theorem stray_of_found (h : Found x y) (hclash : ¬ Clashing x y) : Stray x y := by
  obtain ⟨hdnn,hgw,hfound⟩ := h
  by_cases hsome : x.gwFamily = .unspec
  · exact .unspec hdnn hsome (hgw ▸ hsome)
  by_cases habsent : x.family = .unspec ∨ y.family = .unspec
  · exact .gatewayOnly hdnn hgw hsome habsent
  obtain ⟨hx,hy⟩ := not_or.mp habsent
  have hwords:=(overlapping_iff hsome).mp hfound
  by_cases hfamily : x.family=y.family
  · have hapart : ¬ Intersect x y :=
      fun hmeet => hclash ⟨hfamily,hmeet,.of_sameDnn hdnn⟩
    have hfirst : sameMasked x y 0=true := by
      apply hwords 0 (by decide)
      cases x.gwFamily <;> decide
    cases hfx : x.family with
    | unspec => exact absurd hfx hx
    | inet =>
      refine absurd ((intersect_iff hfamily hx).mpr ?_) hapart
      intro i _ hlt
      rw [hfx] at hlt
      have hzero : i=0 := Nat.lt_one_iff.mp hlt
      subst hzero
      exact hfirst
    | inet6 =>
      cases hgx : x.gwFamily with
      | unspec => exact absurd hgx hsome
      | inet => exact .firstWord hdnn hgx (hgw ▸ hgx) hfx (hfamily ▸ hfx) hfirst hapart
      | inet6 =>
        refine absurd ((intersect_iff hfamily hx).mpr ?_) hapart
        intro i hi _
        exact hwords i hi (by rw [hgx]; exact hi)
  · exact .otherFamily hdnn hgw hx hy hfamily hwords

theorem Stray.found (h : Stray x y) : Found x y := by
  cases h with
  | unspec dnn first second =>
    refine ⟨dnn,first.trans second.symm,?_⟩
    rw [overlapping,first]
    intro hsome
    cases hsome
  | gatewayOnly dnn gateway some absent =>
    refine ⟨dnn,gateway,(overlapping_iff some).mpr ?_⟩
    intro i hi _
    rcases absent with hx | hy
    · simp [sameMasked,wordAt_of_lt hi,(x.absent hx i hi).2]
    · simp [sameMasked,wordAt_of_lt hi,(y.absent hy i hi).2]
  | otherFamily dnn gateway first second family words =>
    exact ⟨dnn,gateway,(overlapping_iff fun h => first (x.gateway h)).mpr words⟩
  | firstWord dnn gateway gateway' first second word apart =>
    have hsome : x.gwFamily ≠ .unspec := by
      rw [gateway]
      decide
    refine ⟨dnn,gateway.trans gateway'.symm,(overlapping_iff hsome).mpr ?_⟩
    intro i _ hlt
    rw [gateway] at hlt
    have hzero : i=0 := Nat.lt_one_iff.mp hlt
    subst hzero
    exact word

theorem Stray.not_clashing (h : Stray x y) : ¬ Clashing x y := by
  rintro ⟨hfamily,hmeet,-⟩
  cases h with
  | unspec dnn first second => exact hmeet.left (x.gateway first)
  | gatewayOnly dnn gateway some absent =>
    rcases absent with hx | hy
    · exact hmeet.left hx
    · exact hmeet.right hy
  | otherFamily dnn gateway first second family words => exact family hfamily
  | firstWord dnn gateway gateway' first second word apart => exact apart hmeet

theorem stray_iff : (Found x y ∧ ¬ Clashing x y) ↔ Stray x y :=
  ⟨fun h => stray_of_found h.1 h.2,fun h => ⟨h.found,h.not_clashing⟩⟩

/-- The check accepts a configuration if and only if no two of its subnets clash, where none is
missed and none found wrongly, or one is found rightly or instead of one that is missed. -/
theorem subnet_overlap_check (texts : List SubnetText) :
    let l:=texts.map subnetAdd
    (checkSubnetOverlapping l=some true ↔ ¬ ∃ i j,i<j ∧ Clash l i j) ↔
      (SomePair Met l ∨ (SomePair Missed l ∧ SomePair Stray l) ∨
        (¬ SomePair Missed l ∧ ¬ SomePair Stray l)) := by
  intro l
  have haccept : checkSubnetOverlapping l=some true ↔ ¬ SomePair Found l := by
    rw [checkSubnetOverlapping,checkFrom_iff,pairwise_not_iff]
    exact and_iff_right rfl
  have hfound : SomePair Found l ↔ SomePair Met l ∨ SomePair Stray l := by
    constructor
    · intro ⟨i,j,x,y,hij,hx,hy,hf⟩
      by_cases hclash : Clashing x y
      · obtain ⟨hgw,hdnn⟩ := hclash.found_iff.mp hf
        exact .inl ⟨i,j,x,y,hij,hx,hy,hclash,hgw,hdnn⟩
      · exact .inr ⟨i,j,x,y,hij,hx,hy,stray_iff.mp ⟨hf,hclash⟩⟩
    · intro h
      rcases h with h | h
      · exact h.mono fun x y h => h.clashing.found_iff.mpr ⟨h.gateway,h.dnn⟩
      · exact h.mono fun x y h => (stray_iff.mpr h).1
  have hclashing : SomePair Clashing l ↔ SomePair Met l ∨ SomePair Missed l := by
    constructor
    · intro ⟨i,j,x,y,hij,hx,hy,hclash⟩
      by_cases hmet : x.gwFamily=y.gwFamily ∧ sameDnn x y
      · exact .inl ⟨i,j,x,y,hij,hx,hy,hclash,hmet.1,hmet.2⟩
      · exact .inr ⟨i,j,x,y,hij,hx,hy,hclash,not_and_or.mp hmet⟩
    · intro h
      rcases h with h | h
      · exact h.mono fun x y h => h.clashing
      · exact h.mono fun x y h => h.clashing
  rw [haccept,clash_iff,hfound,hclashing]
  tauto

def subnet45 (dnn : List Byte) : SubnetText :=
  ⟨some (.inet 0x0a2d0000 0xffff0000 false),none,some dnn⟩

def imsTwice : List PfcpSubnet :=
  [subnet45 [105,109,115],subnet45 [73,77,83]].map subnetAdd

theorem subnet_overlap_case : ¬ (checkSubnetOverlapping imsTwice=some true ↔
    ¬ ∃ i j,i<j ∧ Clash imsTwice i j) := by
  intro h
  refine h.mp rfl (clash_iff.mpr ⟨0,1,_,_,Nat.one_pos,rfl,rfl,rfl,?_,?_⟩)
  · have hcovers : ∀ dnn,(subnetAdd (subnet45 dnn)).Covers #v[0x0a2d0000,0,0,0] := by
      intro dnn
      refine ⟨nofun,?_⟩
      intro i hi hlt
      have hzero : i=0 := Nat.lt_one_iff.mp hlt
      subst hzero
      rfl
    exact ⟨_,hcovers _,hcovers _⟩
  · exact .inr (.inr (by decide))

end OgsDp.Pfcp
