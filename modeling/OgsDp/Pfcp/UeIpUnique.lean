import OgsDp.Pfcp.UePool

/-!
# UE IP addresses are given once (lib/pfcp/context.c)

Runs of `ogs_pfcp_ue_ip_alloc` and `ogs_pfcp_ue_ip_free` over generated pools. A caller keeps what
it was given under a number. Static addresses are taken as they are asked for.
-/

namespace OgsDp.Pfcp
open OgsDp.Core Lib Function Option

structure UeNodes where
  ips : UeIps
  count : Nat
  node : Nat → Option UeIpRef

inductive UeIpOp where
  | alloc (ipv6 : Bool) (dnn : Option (List Byte)) (addr : Vector Byte 16)
  | free (h : Nat)

def familyOf (ipv6 : Bool) : Family := if ipv6 then .inet6 else .inet

def UeIps.subnetOf (t : UeIps) : UeIpRef → Nat
  | .dynamic i _ => i
  | .static b => (t.block b).subnet

def staticAddr (family : Family) (addr : List Byte) : Vector Byte 16 :=
  memcpy (Vector.replicate 16 0) (addr.take (UeIps.maxbytes family))

def asksStatic (family : Family) (addr : List Byte) : Bool :=
  (addr.take (UeIps.maxbytes family)).any fun b => b≠0

namespace UeNodes

def init (sess : Nat) (confs : List SubnetConf) : UeNodes where
  ips := .init (confs.map (uePoolGenerate sess))
  count := 0
  node := fun _ => none

def step (x : UeNodes) : UeIpOp → Option (Outcome UeNodes (Option UeIpRef))
  | .alloc ipv6 dnn addr =>
    match x.ips.alloc (familyOf ipv6) dnn addr.toList with
    | (t,.error _) => some (.ok { x with ips := t } none)
    | (t,.ok r) =>
      some (.ok ⟨t,x.count+1,update x.node x.count (some r)⟩ (some r))
  | .free h =>
    (x.node h).map fun r =>
      ((x.ips.free r).mapState fun t =>
        { x with ips := t,node := update x.node h none }).bind fun x _ => .ok x none

def DynamicsApart (x : UeNodes) : Prop :=
  ∀ h h' i n n',x.node h=some (.dynamic i n) → x.node h'=some (.dynamic i n') →
    h≠h' → x.ips.addr (.dynamic i n)≠x.ips.addr (.dynamic i n')

/-- A dynamic address that is handed out is that of no live node of the pool. -/
def HandsOutFree (x : UeNodes) : Prop :=
  ∀ ipv6 dnn (addr : Vector Byte 16) t i n,
    x.ips.alloc (familyOf ipv6) dnn addr.toList=(t,.ok (.dynamic i n)) →
      ∀ h n',x.node h=some (.dynamic i n') →
        t.addr (.dynamic i n')≠t.addr (.dynamic i n)

def Restored (x : UeNodes) : Prop :=
  (∀ h,x.node h=none) → ∀ i,∃ q,Pool.Queue (x.ips.pool i) q ∧
    q.Perm (List.range ((x.ips.subnets[i]?).elim 0 Subnet.size))

def AllApart (x : UeNodes) : Prop :=
  ∀ h h' r r',x.node h=some r → x.node h'=some r' → h≠h' →
    x.ips.subnetOf r=x.ips.subnetOf r' → x.ips.addr r≠x.ips.addr r'

/-- A static address that is asked for is none of the pool of its subnet and none of a live node
of it. -/
def AsksApart (x : UeNodes) : UeIpOp → Prop
  | .alloc ipv6 dnn addr =>
    asksStatic (familyOf ipv6) addr.toList=true →
      ∀ i ∈ x.ips.findSubnet (familyOf ipv6) dnn,
        (∀ s∈x.ips.subnets[i]?,∀ n ∈ List.range s.size,
          s.addr n≠staticAddr (familyOf ipv6) addr.toList) ∧
          ∀ h∈List.range x.count,∀ r∈x.node h,x.ips.subnetOf r=i →
            x.ips.addr r≠staticAddr (familyOf ipv6) addr.toList
  | .free _ => True

instance (x : UeNodes) : ∀ op,Decidable (x.AsksApart op)
  | .alloc _ _ _ => inferInstanceAs (Decidable (_ → _))
  | .free _ => isTrue trivial

variable {subnets : List Subnet} {x y : UeNodes}

def Injective (s : Subnet) : Prop :=
  ∀ n m,n<s.size → m<s.size → s.addr n=s.addr m → n=m

structure Ok (subnets : List Subnet) (x : UeNodes) : Prop where
  held : x.ips.HeldBy x.node
  bound : ∀ h,x.count≤h → x.node h=none
  conf : x.ips.subnets=subnets
  size : ∀ i,(x.ips.pool i).size=(subnets[i]?).elim 0 Subnet.size

theorem Ok.init (sess : Nat) (confs : List SubnetConf) :
    Ok (confs.map (uePoolGenerate sess)) (UeNodes.init sess confs) where
  held := .init _
  bound := fun _ _ => rfl
  conf := rfl
  size := fun _ => rfl

theorem Ok.node_lt (hx : Ok subnets x) {h i n : Nat} (hn : x.node h=some (.dynamic i n)) :
    ∃ s,subnets[i]?=some s ∧ n<s.size := by
  obtain ⟨q,live,hsplit,hlive⟩ := hx.held.pool i
  have hlt:=hsplit.lt_size ((hlive n).mpr ⟨h,hn⟩)
  rw [hx.size i] at hlt
  cases hs : subnets[i]? with
  | none => simp [hs] at hlt
  | some s =>
    rw [hs] at hlt
    exact ⟨s,rfl,hlt⟩

theorem Ok.addr_dynamic (hx : Ok subnets x) {i n : Nat} {s : Subnet} (hs : subnets[i]?=some s) :
    x.ips.addr (.dynamic i n)=s.addr n := by
  simp [UeIps.addr,hx.conf,hs]

theorem Ok.dynamicsApart (hx : Ok subnets x) (hinj : ∀ s∈subnets,Injective s) :
    x.DynamicsApart := by
  intro h h' i n n' hn hn' hne he
  obtain ⟨s,hs,hlt⟩ := hx.node_lt hn
  obtain ⟨s',hs',hlt'⟩ := hx.node_lt hn'
  obtain rfl := some.inj (hs.symm.trans hs')
  rw [hx.addr_dynamic hs,hx.addr_dynamic hs] at he
  have heq:=hinj s (List.mem_of_getElem? hs) n n' hlt hlt' he
  subst heq
  exact hne (hx.held.inj h h' _ hn hn')

theorem Ok.restored (hx : Ok subnets x) : x.Restored := by
  intro hnone i
  obtain ⟨q,live,hsplit,hlive⟩ := hx.held.pool i
  have hnil : live=[] := by
    refine List.eq_nil_iff_forall_not_mem.mpr fun n hn => ?_
    obtain ⟨h,hh⟩ := (hlive n).mp hn
    rw [hnone h] at hh
    cases hh
  have hperm:=hsplit.perm
  rw [hnil,List.append_nil,hx.size i,← hx.conf] at hperm
  exact ⟨q,hsplit.queue,hperm⟩

theorem alloc_cases {t t' : UeIps} {family : Family} {dnn : Option (List Byte)} {addr : List Byte}
    {r : UeIpRef} (ha : t.alloc family dnn addr=(t',.ok r)) :
    ∃ i,t.findSubnet family dnn=some i ∧ t'.subnets=t.subnets ∧
      ((asksStatic family addr=true ∧ r = .static t.blocks ∧ t'.pool=t.pool ∧
        t'.block=update t.block t.blocks ⟨staticAddr family addr,i,true⟩) ∨
        asksStatic family addr=false ∧ t'.block=t.block ∧ ∃ n pool,
          (t.pool i).alloc=(pool,some n) ∧ r = .dynamic i n ∧
            t'.pool=update t.pool i pool) := by
  unfold UeIps.alloc at ha
  cases hfind : t.findSubnet family dnn with
  | none => simp [hfind] at ha
  | some i =>
    simp only [hfind] at ha
    split at ha
    · rename_i hstatic
      obtain ⟨rfl,hr⟩ := Prod.mk.inj ha
      exact ⟨i,rfl,rfl,.inl ⟨hstatic,(Except.ok.inj hr).symm,rfl,rfl⟩⟩
    · rename_i hdynamic
      rcases halloc : (t.pool i).alloc with ⟨pool,n⟩
      cases n with
      | none => simp [halloc] at ha
      | some n =>
        simp only [halloc] at ha
        obtain ⟨rfl,hr⟩ := Prod.mk.inj ha
        have hno:=Bool.eq_false_iff.mpr hdynamic
        exact ⟨i,rfl,rfl,.inr ⟨hno,rfl,n,pool,halloc,(Except.ok.inj hr).symm,rfl⟩⟩

theorem alloc_size {p q : Pool} {n : Nat} (h : p.alloc=(q,some n)) : q.size=p.size := by
  unfold Pool.alloc at h
  split at h
  · split at h
    · cases h
      rfl
    · cases h
  · cases h

def took (x : UeNodes) (t : UeIps) (r : UeIpRef) : UeNodes :=
  ⟨t,x.count+1,update x.node x.count (some r)⟩

theorem Ok.took (hx : Ok subnets x) {t : UeIps} {family : Family} {dnn : Option (List Byte)}
    {addr : List Byte} {r : UeIpRef} (ha : x.ips.alloc family dnn addr=(t,.ok r)) :
    Ok subnets (x.took t r) ∧ ∀ h r',x.node h=some r' →
      t.addr r'=x.ips.addr r' ∧ t.subnetOf r'=x.ips.subnetOf r' := by
  have hfree:=hx.bound x.count (Nat.le_refl _)
  obtain ⟨hheld,-,haddr⟩ := hx.held.alloc_ok hfree ha
  obtain ⟨i,-,hsubnets,hcases⟩ := alloc_cases ha
  have hsize : ∀ j,(t.pool j).size=(x.ips.pool j).size := by
    intro j
    rcases hcases with ⟨-,-,hpool,-⟩ | ⟨-,-,n,pool,halloc,-,hpool⟩
    · rw [hpool]
    · rw [hpool]
      by_cases hj : j=i
      · rw [hj,update_self]
        exact alloc_size halloc
      · rw [update_of_ne hj]
  refine ⟨⟨hheld,?_,hsubnets.trans hx.conf,fun j => (hsize j).trans (hx.size j)⟩,?_⟩
  · intro h hh
    have hlt : x.count+1≤h := hh
    have hne : h≠x.count := by omega
    exact (update_of_ne hne _ _).trans (hx.bound h (by omega))
  · intro h r' hr'
    refine ⟨haddr r' ⟨h,hr'⟩,?_⟩
    cases r' with
    | dynamic j n => rfl
    | static b =>
      rcases hcases with ⟨-,-,-,hblock⟩ | ⟨-,hblock,-⟩
      · have hlive:=(hx.held.block b).mpr ⟨h,hr'⟩
        have hne : b≠x.ips.blocks := by
          rintro rfl
          rw [hx.held.fresh _ (Nat.le_refl _)] at hlive
          cases hlive
        simp only [UeIps.subnetOf,hblock,update_of_ne hne]
      · simp only [UeIps.subnetOf,hblock]

theorem Ok.handsOutFree (hx : Ok subnets x) (hinj : ∀ s∈subnets,Injective s) :
    x.HandsOutFree := by
  intro ipv6 dnn addr t i n ha h n' hn'
  obtain ⟨hy,-⟩ := hx.took ha
  have hlt : h≠x.count := by
    rintro rfl
    rw [hx.bound _ (Nat.le_refl _)] at hn'
    cases hn'
  have hold : (x.took t (.dynamic i n)).node h=some (.dynamic i n') :=
    (update_of_ne hlt _ _).trans hn'
  have hnew : (x.took t (.dynamic i n)).node x.count=some (.dynamic i n) :=
    update_self ..
  exact hy.dynamicsApart hinj h x.count i n' n hold hnew hlt

theorem Ok.step (hx : Ok subnets x) {op : UeIpOp} {r : Option UeIpRef}
    (ho : x.step op=some (.ok y r)) : Ok subnets y := by
  cases op with
  | alloc ipv6 dnn addr =>
    simp only [UeNodes.step] at ho
    rcases ha : x.ips.alloc (familyOf ipv6) dnn addr.toList with ⟨t,res⟩
    rw [ha] at ho
    cases res with
    | error cause =>
      cases ho
      obtain ⟨rfl,-⟩ := hx.held.alloc_error ha
      exact hx
    | ok r =>
      cases ho
      exact (hx.took ha).1
  | free h =>
    simp only [UeNodes.step,map_eq_some_iff] at ho
    obtain ⟨r,hr,ho⟩ := ho
    obtain ⟨t,hfree,hheld,-,-⟩ := hx.held.free hr
    have hkept : t.subnets=x.ips.subnets ∧ ∀ i,(t.pool i).size=(x.ips.pool i).size := by
      cases r with
      | dynamic i n =>
        cases hfree
        refine ⟨rfl,fun j => ?_⟩
        by_cases hj : j=i
        · simp [hj]
        · simp [update_of_ne hj]
      | static b =>
        simp only [UeIps.free] at hfree
        split at hfree
        · cases hfree
          exact ⟨rfl,fun _ => rfl⟩
        · cases hfree
    rw [hfree] at ho
    cases ho
    refine ⟨hheld,?_,hkept.1.trans hx.conf,fun i => (hkept.2 i).trans (hx.size i)⟩
    intro h' hh'
    by_cases he : h'=h
    · rw [he]
      exact update_self ..
    · exact (update_of_ne he _ _).trans (hx.bound h' hh')

/-- Static addresses are none of the pool of their subnet, and all live ones are different. -/
structure Apart (subnets : List Subnet) (x : UeNodes) : Prop where
  ok : Ok subnets x
  all : x.AllApart
  outside : ∀ h b,x.node h=some (.static b) →
    ∀ s∈subnets[(x.ips.block b).subnet]?,∀ n,n<s.size →
      s.addr n≠x.ips.addr (.static b)

theorem Apart.took (hx : Apart subnets x) (hinj : ∀ s∈subnets,Injective s) {ipv6 : Bool}
    {dnn : Option (List Byte)} {addr : Vector Byte 16} (hask : x.AsksApart (.alloc ipv6 dnn addr))
    {t : UeIps} {r : UeIpRef}
    (ha : x.ips.alloc (familyOf ipv6) dnn addr.toList=(t,.ok r)) :
    Apart subnets (x.took t r) := by
  obtain ⟨hy,hkept⟩ := hx.ok.took ha
  obtain ⟨i,hfind,-,hcases⟩ := alloc_cases ha
  have hold : ∀ h,h≠x.count → (x.took t r).node h=x.node h :=
    fun h hh => update_of_ne hh _ _
  have hnew : (x.took t r).node x.count=some r := update_self ..
  -- the new address is different from those in use
  have hapart : ∀ h r',x.node h=some r' → t.subnetOf r'=t.subnetOf r →
      t.addr r'≠t.addr r := by
    intro h r' hr' hsub he
    have hlt : h<x.count := by
      by_contra hno
      rw [hx.ok.bound h (by omega)] at hr'
      cases hr'
    rw [(hkept h r' hr').1] at he
    rw [(hkept h r' hr').2] at hsub
    rcases hcases with ⟨hstatic,rfl,-,hblock⟩ | ⟨-,-,n,pool,-,rfl,-⟩
    · have hsubnet : t.subnetOf (.static x.ips.blocks)=i := by
        simp [UeIps.subnetOf,hblock]
      have haddr : t.addr (.static x.ips.blocks)=staticAddr (familyOf ipv6) addr.toList := by
        simp [UeIps.addr,hblock]
      rw [haddr] at he
      exact (hask hstatic i hfind).2 h (List.mem_range.mpr hlt) r' hr' (hsub.trans hsubnet) he
    · have hne : h≠x.count := by omega
      have hnode : (x.took t (.dynamic i n)).node h=some r' := (hold h hne).trans hr'
      cases r' with
      | dynamic j m =>
        have hj : j=i := hsub
        subst hj
        rw [← (hkept h _ hr').1] at he
        exact hy.dynamicsApart hinj h x.count j m n hnode hnew hne he
      | static b =>
        obtain ⟨s,hs,hlt'⟩ := hy.node_lt hnew
        have hsub' : (x.ips.block b).subnet=i := hsub
        have haddr : t.addr (.dynamic i n)=s.addr n := hy.addr_dynamic hs
        rw [haddr] at he
        exact hx.outside h b hr' s (by rw [hsub']; exact hs) n hlt' he.symm
  refine ⟨hy,?_,?_⟩
  · intro h h' r₁ r₂ h₁ h₂ hne hsub
    by_cases hc : h=x.count
    · subst hc
      have hc' : h'≠x.count := Ne.symm hne
      obtain rfl := some.inj (hnew.symm.trans h₁)
      rw [hold h' hc'] at h₂
      exact (hapart h' r₂ h₂ hsub.symm).symm
    · rw [hold h hc] at h₁
      by_cases hc' : h'=x.count
      · subst hc'
        obtain rfl := some.inj (hnew.symm.trans h₂)
        exact hapart h r₁ h₁ hsub
      · rw [hold h' hc'] at h₂
        have he:=hx.all h h' r₁ r₂ h₁ h₂ hne
        rw [← (hkept h r₁ h₁).1,← (hkept h' r₂ h₂).1,← (hkept h r₁ h₁).2,
          ← (hkept h' r₂ h₂).2] at he
        exact he hsub
  · intro h b hb s hs n hn
    by_cases hc : h=x.count
    · subst hc
      obtain rfl := some.inj (hnew.symm.trans hb)
      rcases hcases with ⟨hstatic,hr,-,hblock⟩ | ⟨-,-,n',pool,-,hr,-⟩
      · cases hr
        have hsubnet : (t.block x.ips.blocks).subnet=i := by simp [hblock]
        have haddr : t.addr (.static x.ips.blocks)=staticAddr (familyOf ipv6) addr.toList := by
          simp [UeIps.addr,hblock]
        have hs' : x.ips.subnets[i]?=some s := by
          rw [hx.ok.conf,← hsubnet]
          exact hs
        show s.addr n≠t.addr (.static x.ips.blocks)
        rw [haddr]
        exact (hask hstatic i hfind).1 s hs' n (List.mem_range.mpr hn)
      · cases hr
    · rw [hold h hc] at hb
      have hsub : (t.block b).subnet=(x.ips.block b).subnet := (hkept h _ hb).2
      have hs' : s∈subnets[(x.ips.block b).subnet]? := by
        rw [← hsub]
        exact hs
      show s.addr n≠t.addr (.static b)
      rw [(hkept h _ hb).1]
      exact hx.outside h b hb s hs' n hn

theorem Apart.step (hx : Apart subnets x) (hinj : ∀ s∈subnets,Injective s) {op : UeIpOp}
    (hask : x.AsksApart op) {r : Option UeIpRef} (ho : x.step op=some (.ok y r)) :
    Apart subnets y := by
  have hy:=hx.ok.step ho
  cases op with
  | alloc ipv6 dnn addr =>
    simp only [UeNodes.step] at ho
    rcases ha : x.ips.alloc (familyOf ipv6) dnn addr.toList with ⟨t,res⟩
    rw [ha] at ho
    cases res with
    | error cause =>
      cases ho
      obtain ⟨rfl,-⟩ := hx.ok.held.alloc_error ha
      exact hx
    | ok r =>
      cases ho
      exact hx.took hinj hask ha
  | free h =>
    simp only [UeNodes.step,map_eq_some_iff] at ho
    obtain ⟨r,hr,ho⟩ := ho
    obtain ⟨t,hfree,-,haddr,-⟩ := hx.ok.held.free hr
    have hsub : t.subnetOf=x.ips.subnetOf := by
      funext r'
      cases r with
      | dynamic i n =>
        cases hfree
        rfl
      | static b =>
        simp only [UeIps.free] at hfree
        split at hfree
        · cases hfree
          cases r' with
          | dynamic j m => rfl
          | static b' =>
            by_cases hb : b'=b
            · simp [UeIps.subnetOf,hb]
            · simp [UeIps.subnetOf,update_of_ne hb]
        · cases hfree
    rw [hfree] at ho
    cases ho
    have hlive : ∀ h' r',update x.node h none h'=some r' → x.node h'=some r' := by
      intro h' r' hr'
      by_cases he : h'=h
      · rw [he,update_self] at hr'
        cases hr'
      · rwa [update_of_ne he] at hr'
    refine ⟨hy,?_,?_⟩
    · intro h₁ h₂ r₁ r₂ hr₁ hr₂ hne hsame
      have happart:=hx.all h₁ h₂ r₁ r₂ (hlive h₁ r₁ hr₁) (hlive h₂ r₂ hr₂) hne
      rw [← hsub,← haddr] at happart
      exact happart hsame
    · intro h' b hb s hs n hn
      have hb' : (t.block b).subnet=(x.ips.block b).subnet := congrFun hsub (.static b)
      have hs' : s∈subnets[(x.ips.block b).subnet]? := by
        rw [← hb']
        exact hs
      show s.addr n≠t.addr (.static b)
      rw [haddr]
      exact hx.outside h' b (hlive h' _ hb) s hs' n hn

theorem generated_injective {sess : Nat} {confs : List SubnetConf}
    (hconfs : ∀ conf∈confs,(conf.generate sess).Nodup) :
    ∀ s∈confs.map (uePoolGenerate sess),Injective s := by
  intro s hs
  obtain ⟨conf,hconf,rfl⟩ := List.mem_map.mp hs
  intro n m hn hm he
  exact uePoolGenerate_injOn (hconfs conf hconf) hn hm he

/-- Over pools in which no address was generated twice: dynamic addresses are apart and come back
to their pools, and where static ones are asked for that are apart, all are. -/
theorem ue_ips_apart_run (sess : Nat) (confs : List SubnetConf)
    (hsess : SubnetConf.turns sess≤2^32)
    (hconfs : ∀ conf∈confs,conf.range.length≤1 ∨ (conf.generate sess).Nodup)
    (ops : List UeIpOp) :
    (∀ x ∈ completed UeNodes.step (UeNodes.init sess confs) ops,
      x.DynamicsApart ∧ x.HandsOutFree ∧ x.Restored) ∧
      (EachStep UeNodes.step UeNodes.AsksApart (UeNodes.init sess confs) ops →
        ∀ x∈completed UeNodes.step (UeNodes.init sess confs) ops,x.AllApart) := by
  have hnodup : ∀ conf∈confs,(conf.generate sess).Nodup := by
    intro conf hconf
    rcases hconfs conf hconf with hrange | hnodup
    · exact SubnetConf.generate_nodup hsess hrange
    · exact hnodup
  have hinj:=generated_injective hnodup
  constructor
  · have hstep : ∀ (x : UeNodes) op y r,Ok (confs.map (uePoolGenerate sess)) x → True →
        x.step op=some (.ok y r) → Ok (confs.map (uePoolGenerate sess)) y :=
      fun x op y r hx _ ho => hx.step ho
    intro x hx
    have hall : EachStep UeNodes.step (fun _ _ => True) (UeNodes.init sess confs) ops :=
      eachStep_of_forall fun _ _ => trivial
    have hok:=completed_inv hstep (Ok.init sess confs) hall x hx
    exact ⟨hok.dynamicsApart hinj,hok.handsOutFree hinj,hok.restored⟩
  · intro hask x hx
    have hinit : Apart (confs.map (uePoolGenerate sess)) (UeNodes.init sess confs) := by
      refine ⟨.init sess confs,?_,?_⟩
      · intro h h' r r' hr
        cases hr
      · intro h b hb
        cases hb
    exact (completed_inv (fun x op y r hx hc ho => hx.step hinj hc ho) hinit hask x hx).all

def words45 (n : Nat) : Words := ⟨#[BitVec.ofNat 32 (n*16777216+11530),0,0,0],rfl⟩

def mask24 : Words := ⟨#[0xffffff,0xffffffff,0xffffffff,0xffffffff],rfl⟩

def conf45 (range : List (Option Words × Option Words)) : SubnetConf where
  ipv6 := false
  dnn := []
  sub := words45 0
  mask := mask24
  gw := words45 1
  range := range

def askStatic (n : Nat) : UeIpOp := .alloc false none (Words.octets (words45 n))

def askDynamic : UeIpOp := .alloc false none (Vector.replicate 16 0)

theorem ue_ips_apart_run_three :
    (completed UeNodes.step (UeNodes.init 4 [conf45 []])
        [askDynamic,askStatic 200,askDynamic,.free 0,askDynamic]).length=6 ∧
      ∀ x ∈ completed UeNodes.step (UeNodes.init 4 [conf45 []])
        [askDynamic,askStatic 200,askDynamic,.free 0,askDynamic], x.AllApart := by
  refine ⟨by decide,?_⟩
  exact (ue_ips_apart_run 4 [conf45 []] (by decide) (by simp [conf45]) _).2 (by decide)

/-- A static address that the pool hands out as well, and a range that is configured twice. -/
theorem ue_ips_not_apart :
    (¬ ∀ x ∈ completed UeNodes.step (UeNodes.init 4 [conf45 []]) [askStatic 2,askDynamic],
      x.AllApart) ∧
      ¬ ∀ x ∈ completed UeNodes.step (UeNodes.init 4
          [conf45 [(some (words45 2),some (words45 2)),(some (words45 2),some (words45 2))]])
        [askDynamic,askDynamic], x.DynamicsApart := by
  have hstatic : ∃ x ∈ completed UeNodes.step (UeNodes.init 4 [conf45 []])
      [askStatic 2,askDynamic], x.node 0=some (.static 0) ∧ x.node 1=some (.dynamic 0 0) ∧
        (x.ips.block 0).subnet=0 ∧
          x.ips.addr (.static 0)=x.ips.addr (.dynamic 0 0) := by
    decide
  have htwice : ∃ x ∈ completed UeNodes.step (UeNodes.init 4
      [conf45 [(some (words45 2),some (words45 2)),(some (words45 2),some (words45 2))]])
        [askDynamic,askDynamic], x.node 0=some (.dynamic 0 0) ∧
          x.node 1=some (.dynamic 0 1) ∧
            x.ips.addr (.dynamic 0 0)=x.ips.addr (.dynamic 0 1) := by
    decide
  constructor
  · intro hall
    obtain ⟨x,hx,h0,h1,hsub,haddr⟩ := hstatic
    exact hall x hx 0 1 _ _ h0 h1 (by decide) hsub haddr
  · intro hall
    obtain ⟨x,hx,h0,h1,haddr⟩ := htwice
    exact hall x hx 0 1 0 0 1 h0 h1 (by decide) haddr

end UeNodes

end OgsDp.Pfcp
