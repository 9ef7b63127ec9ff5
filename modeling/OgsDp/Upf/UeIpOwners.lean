import OgsDp.Lib.Leads
import OgsDp.Pfcp.UeIpHolders
import OgsDp.Upf.RouteOwners

/-!
# Who owns the UE addresses (src/upf/context.c)

A session holds an address from the allocation to the moment it is given back.
-/

namespace OgsDp.Upf
open Lib RefTable OgsDp.Core Pfcp Function Option

inductive Version where
  | v4
  | v6
  deriving DecidableEq

def Version.family : Version → Family
  | .v4 => .inet
  | .v6 => .inet6

def Version.keyLen : Version → Nat
  | .v4 => 4
  | .v6 => 8

def Sess.ip (x : Sess) : Version → Option UeIpRef
  | .v4 => x.ipv4
  | .v6 => x.ipv6

def Sess.setIp (x : Sess) (v : Version) (r : Option UeIpRef) : Sess :=
  match v with
  | .v4 => { x with ipv4 := r }
  | .v6 => { x with ipv6 := r }

namespace Context

variable {c c' : Context} {n : Nat} {v : Version} {r : UeIpRef} {t : UeIps} {wanted : Bool}
  {dnn : Option (List Byte)} {addr : List Byte}

def ipKeys (c : Context) : Version → Keys UeIpRef (List Byte)
  | .v4 => c.ipv4Keys
  | .v6 => c.ipv6Keys

def ipKey (c : Context) (v : Version) (r : UeIpRef) : List Byte :=
  (c.ueIps.addr r).toList.take v.keyLen

def ipHash (c : Context) : Version → List (Entry UeIpRef Nat)
  | .v4 => c.ipv4Hash
  | .v6 => c.ipv6Hash

def withIpHash (c : Context) (v : Version) (t : List (Entry UeIpRef Nat)) : Context :=
  match v with
  | .v4 => { c with ipv4Hash := t }
  | .v6 => { c with ipv6Hash := t }

def dropIp (c : Context) (n : Nat) : Version → Outcome Context Unit
  | .v4 => c.dropIpv4 n
  | .v6 => c.dropIpv6 n

def takeIp (c : Context) (n : Nat) (v : Version) (wanted : Bool) (dnn : Option (List Byte))
    (addr : List Byte) : Context × Except Refusal Unit :=
  match v with
  | .v4 => c.takeIpv4 n wanted dnn addr
  | .v6 => c.takeIpv6 n wanted dnn addr

theorem dropIp_none (h : (c.sess n).ip v=none) : c.dropIp n v = .ok c () := by
  cases v with
  | v4 => simp only [dropIp,dropIpv4,show (c.sess n).ipv4=none from h]
  | v6 => simp only [dropIp,dropIpv6,show (c.sess n).ipv6=none from h]

theorem dropIp_some (h : (c.sess n).ip v=some r) (hfree : c.ueIps.free r = .ok t ()) :
    c.dropIp n v = .ok ((c.withIpHash v
      (unset (c.ipKeys v) (c.ipHash v) (c.ipKey v r))).withUeIps t) () := by
  cases v with
  | v4 =>
    simp only [dropIp,dropIpv4,show (c.sess n).ipv4=some r from h]
    rw [show (c.unsetIpv4 r).ueIps.free r = .ok t () from hfree]
    rfl
  | v6 =>
    simp only [dropIp,dropIpv6,show (c.sess n).ipv6=some r from h]
    rw [show (c.unsetIpv6 r).ueIps.free r = .ok t () from hfree]
    rfl

theorem takeIp_unwanted (c : Context) (n : Nat) (v : Version) (dnn : Option (List Byte))
    (addr : List Byte) : c.takeIp n v false dnn addr=(c,.ok ()) := by
  cases v <;> rfl

def pointed (c : Context) (n : Nat) (v : Version) (t : UeIps) (r : Option UeIpRef) : Context :=
  (c.withUeIps t).modify n fun x => x.setIp v r

theorem takeIp_error {cause : Cause}
    (h : c.ueIps.alloc v.family dnn addr=(t,.error cause)) :
    c.takeIp n v true dnn addr=(c.pointed n v t none,.error ⟨cause,none⟩) := by
  cases v with
  | v4 =>
    rw [Version.family] at h
    simp only [takeIp,takeIpv4,h,if_true]
    rfl
  | v6 =>
    rw [Version.family] at h
    simp only [takeIp,takeIpv6,h,if_true]
    rfl

theorem takeIp_ok (h : c.ueIps.alloc v.family dnn addr=(t,.ok r)) :
    c.takeIp n v true dnn addr =
      ((c.pointed n v t (some r)).withIpHash v (set ((c.withUeIps t).ipKeys v) (c.ipHash v) r
        ((c.withUeIps t).ipKey v r) n),.ok ()) := by
  cases v with
  | v4 =>
    rw [Version.family] at h
    simp only [takeIp,takeIpv4,h,if_true]
    rfl
  | v6 =>
    rw [Version.family] at h
    simp only [takeIp,takeIpv6,h,if_true]
    rfl

theorem ipKeys_reads (c : Context) (v : Version) (r : UeIpRef) :
    (c.ipKeys v).reads r (c.ipKey v r)=true := by
  cases v with
  | v4 => simp [ipKeys,ipv4Keys,bytesKeys,ipKey,Version.keyLen]
  | v6 => simp [ipKeys,ipv6Keys,bytesKeys,ipKey,Version.keyLen]

theorem ipKeys_hash (h : c'.seeds=c.seeds) (v : Version) :
    (c'.ipKeys v).hash=(c.ipKeys v).hash ∧ (c'.ipKeys v).klen=(c.ipKeys v).klen := by
  cases v with
  | v4 => simp [ipKeys,ipv4Keys,bytesKeys,h]
  | v6 => simp [ipKeys,ipv6Keys,bytesKeys,h]

@[simp] theorem withIpHash_ueIps (c : Context) (v : Version) (t : List (Entry UeIpRef Nat)) :
    (c.withIpHash v t).ueIps=c.ueIps := by
  cases v <;> rfl

@[simp] theorem withIpHash_seeds (c : Context) (v : Version) (t : List (Entry UeIpRef Nat)) :
    (c.withIpHash v t).seeds=c.seeds := by
  cases v <;> rfl

@[simp] theorem withIpHash_sess (c : Context) (v : Version) (t : List (Entry UeIpRef Nat)) :
    (c.withIpHash v t).sess=c.sess := by
  cases v <;> rfl

@[simp] theorem withIpHash_sessList (c : Context) (v : Version) (t : List (Entry UeIpRef Nat)) :
    (c.withIpHash v t).sessList=c.sessList := by
  cases v <;> rfl

@[simp] theorem withIpHash_sessPool (c : Context) (v : Version) (t : List (Entry UeIpRef Nat)) :
    (c.withIpHash v t).sessPool=c.sessPool := by
  cases v <;> rfl

theorem withIpHash_ipHash (c : Context) (v w : Version) (t : List (Entry UeIpRef Nat)) :
    (c.withIpHash v t).ipHash w = if w=v then t else c.ipHash w := by
  cases v <;> cases w <;> rfl

@[simp] theorem withUeIps_ipHash (c : Context) (v : Version) (t : UeIps) :
    (c.withUeIps t).ipHash v=c.ipHash v := by
  cases v <;> rfl

@[simp] theorem pointed_ipHash (c : Context) (n : Nat) (v w : Version) (t : UeIps)
    (r : Option UeIpRef) : (c.pointed n v t r).ipHash w=c.ipHash w := by
  cases w <;> rfl

theorem pointed_ip (c : Context) (n : Nat) (v : Version) (t : UeIps) (r : Option UeIpRef)
    (m : Nat) (w : Version) :
    ((c.pointed n v t r).sess m).ip w = if m=n ∧ w=v then r else (c.sess m).ip w := by
  unfold pointed modify
  by_cases hm : m=n
  · subst hm
    cases v <;> cases w <;> simp [withUeIps,Sess.setIp,Sess.ip]
  · simp [withUeIps,hm]

def Leads (c : Context) (v : Version) (p : Version × Nat → Option UeIpRef)
    (t : List (Entry UeIpRef Nat)) : Prop :=
  ∃ l,t=RefTable.held (c.ipKeys v) (c.ipKey v) l ∧ (l.map fun b => c.ipKey v b.1).Nodup ∧
    ∀ r n,(r,n)∈l ↔ p (v,n)=some r

/-- `p` says which addresses the sessions hold, and the tables lead from these to the sessions. -/
structure Holds (c : Context) (p : Version × Nat → Option UeIpRef) : Prop where
  held : c.ueIps.HeldBy p
  table : ∀ v,c.Leads v p (c.ipHash v)

def pointers (c : Context) : Version × Nat → Option UeIpRef := fun i =>
  if i.2∈c.sessList then (c.sess i.2).ip i.1 else none

variable {p : Version × Nat → Option UeIpRef} {h : List (Entry UeIpRef Nat)}

namespace Leads

theorem congr (hl : c.Leads v p h) (hseeds : c'.seeds=c.seeds)
    (hkey : ∀ m r,p (v,m)=some r → c'.ipKey v r=c.ipKey v r) : c'.Leads v p h := by
  obtain ⟨hhash,hklen⟩ := ipKeys_hash hseeds v
  exact RefTable.Leads.congr hl hhash hklen (fun _ => rfl) hkey

theorem other {w : Version} {o : Option UeIpRef} (hl : c.Leads w p h) (hw : w≠v) :
    c.Leads w (update p (v,n) o) h := by
  obtain ⟨l,hl,hnodup,hmem⟩ := hl
  refine ⟨l,hl,hnodup,?_⟩
  intro r m
  rw [hmem,update_of_ne (by simp [hw])]

theorem unset (hl : c.Leads v p h) (hp : p (v,n)=some r) :
    c.Leads v (update p (v,n) none)
      (RefTable.unset (c.ipKeys v) h (c.ipKey v r)) := by
  have hgone:=RefTable.Leads.unset (c.ipKeys_reads v) hl hp
  rw [← update_comp_eq_of_injective' p (Prod.mk_right_injective v)] at hgone
  exact hgone

theorem set (hl : c.Leads v p h) (hp : p (v,n)=none)
    (hnew : ∀ m r',p (v,m)=some r' → c.ipKey v r'≠c.ipKey v r) :
    c.Leads v (update p (v,n) (some r))
      (RefTable.set (c.ipKeys v) h r (c.ipKey v r) n) := by
  have hmore:=RefTable.Leads.set (c.ipKeys_reads v) hl hp hnew
  rw [← update_comp_eq_of_injective' p (Prod.mk_right_injective v)] at hmore
  exact hmore

theorem get (hl : c.Leads v p h) (k : List Byte) :
    RefTable.get (c.ipKeys v) h k=some n ↔ ∃ r,p (v,n)=some r ∧ c.ipKey v r=k :=
  RefTable.Leads.get (c.ipKeys_reads v) hl k

end Leads

structure Took (c : Context) (p : Version × Nat → Option UeIpRef) (n : Nat) (v : Version)
    (wanted : Bool) (a : Option (Vector Byte 16)) (t : UeIps)
    (s : Context × Except Refusal Unit) : Prop where
  holds : s.1.Holds (update p (v,n) ((s.1.sess n).ip v))
  others : ∀ m w,¬ (m=n ∧ w=v) → (s.1.sess m).ip w=(c.sess m).ip w
  addr : ∀ r,(∃ i,p i=some r) → s.1.ueIps.addr r=c.ueIps.addr r
  sessList : s.1.sessList=c.sessList
  sessPool : s.1.sessPool=c.sessPool
  ueIps : s.1.ueIps = if wanted then t else c.ueIps
  refused : ∀ e,s.2 = .error e → wanted=true ∧ a=none ∧ (s.1.sess n).ip v=none
  taken : s.2 = .ok () → wanted=true → a≠none

namespace Holds

theorem congr (h : c.Holds p) (heq : c'.addressing=c.addressing) : c'.Holds p := by
  have hueIps : c'.ueIps=c.ueIps := congrArg (fun x => x.1) heq
  have hseeds : c'.seeds=c.seeds := congrArg (fun x => x.2.1) heq
  have h4 : c'.ipv4Hash=c.ipv4Hash := congrArg (fun x => x.2.2.1) heq
  have h6 : c'.ipv6Hash=c.ipv6Hash := congrArg (fun x => x.2.2.2) heq
  refine ⟨hueIps ▸ h.held,?_⟩
  intro v
  have hhash : c'.ipHash v=c.ipHash v := by
    cases v with
    | v4 => exact h4
    | v6 => exact h6
  rw [hhash]
  refine (h.table v).congr hseeds ?_
  intro m r _
  unfold ipKey
  rw [hueIps]

theorem drop (h : c.Holds p) (hp : p (v,n)=(c.sess n).ip v) :
    ∃ c',c.dropIp n v = .ok c' () ∧ c'.Holds (update p (v,n) none) ∧
      c'.ueIps=c.ueIps.giveBack ((c.sess n).ip v) ∧ c'.ueIps.addr=c.ueIps.addr ∧
      c'.sess=c.sess ∧ c'.sessList=c.sessList ∧ c'.sessPool=c.sessPool := by
  cases hip : (c.sess n).ip v with
  | none =>
    rw [hip] at hp
    refine ⟨c,dropIp_none hip,?_,rfl,rfl,rfl,rfl,rfl⟩
    rw [← hp,update_eq_self]
    exact h
  | some r =>
    rw [hip] at hp
    obtain ⟨t,hfree,hheld,haddr,-⟩ := h.held.free hp
    refine ⟨_,dropIp_some hip hfree,⟨hheld,?_⟩,?_,haddr,withIpHash_sess ..,
      withIpHash_sessList ..,withIpHash_sessPool ..⟩
    · intro w
      have hkey : ∀ x,((c.withIpHash v (RefTable.unset (c.ipKeys v) (c.ipHash v)
          (c.ipKey v r))).withUeIps t).ipKey w x=c.ipKey w x := by
        intro x
        unfold ipKey withUeIps
        rw [haddr]
      rw [withUeIps_ipHash,withIpHash_ipHash]
      refine Leads.congr (c := c) ?_ (withIpHash_seeds ..) fun _ x _ => hkey x
      by_cases hw : w=v
      · subst hw
        rw [if_pos rfl]
        exact (h.table w).unset hp
      · rw [if_neg hw]
        exact (h.table w).other hw
    · simp [UeIps.giveBack,hfree,Outcome.state,withUeIps]

theorem take_refused {cause : Cause} (h : c.Holds p) (hp : p (v,n)=none)
    (ha : c.ueIps.alloc v.family dnn addr=(t,.error cause)) :
    c.Took p n v true (c.ueIps.next v.family dnn addr) t (c.takeIp n v true dnn addr) := by
  obtain ⟨rfl,hnext⟩ := h.held.alloc_error ha
  rw [takeIp_error ha]
  have hip:=c.pointed_ip n v c.ueIps none
  refine ⟨?_,?_,fun _ _ => rfl,rfl,rfl,rfl,?_,?_⟩
  · rw [hip,if_pos ⟨rfl,rfl⟩,← hp,update_eq_self]
    refine ⟨h.held,fun w => ?_⟩
    rw [pointed_ipHash]
    exact (h.table w).congr rfl fun _ _ _ => rfl
  · intro m w hmw
    rw [hip,if_neg hmw]
  · intro e _
    refine ⟨rfl,hnext,?_⟩
    rw [hip,if_pos ⟨rfl,rfl⟩]
  · intro hno
    cases hno

theorem take_granted (h : c.Holds p) (hp : p (v,n)=none)
    (ha : c.ueIps.alloc v.family dnn addr=(t,.ok r))
    (hnew : ∀ x,c.ueIps.next v.family dnn addr=some x → ∀ m r,p (v,m)=some r →
      c.ipKey v r≠x.toList.take v.keyLen) :
    c.Took p n v true (c.ueIps.next v.family dnn addr) t (c.takeIp n v true dnn addr) := by
  obtain ⟨hheld,hnext,haddr⟩ := h.held.alloc_ok hp ha
  rw [takeIp_ok ha]
  have hip:=c.pointed_ip n v t (some r)
  have hkey : ∀ w m r',p (w,m)=some r' → (c.withUeIps t).ipKey w r'=c.ipKey w r' := by
    intro w m r' hr'
    unfold ipKey withUeIps
    rw [haddr r' ⟨(w,m),hr'⟩]
  refine ⟨⟨?_,fun w => ?_⟩,?_,?_,?_,?_,?_,?_,?_⟩
  · rw [withIpHash_ueIps,withIpHash_sess,hip,if_pos ⟨rfl,rfl⟩]
    exact hheld
  · rw [withIpHash_sess,hip,if_pos ⟨rfl,rfl⟩,withIpHash_ipHash]
    have hbase : (c.withUeIps t).Leads w p (c.ipHash w) :=
      (h.table w).congr rfl fun m r' hr' => hkey w m r' hr'
    refine Leads.congr (c := c.withUeIps t) ?_ (withIpHash_seeds ..) ?_
    · by_cases hw : w=v
      · subst hw
        rw [if_pos rfl]
        apply hbase.set hp
        intro m r' hr'
        rw [hkey w m r' hr']
        exact hnew _ hnext m r' hr'
      · rw [if_neg hw,pointed_ipHash]
        exact hbase.other hw
    · intro m r' _
      unfold ipKey
      rw [withIpHash_ueIps]
      rfl
  · intro m w hmw
    rw [withIpHash_sess,hip,if_neg hmw]
  · intro r' hr'
    rw [withIpHash_ueIps]
    exact haddr r' hr'
  · exact withIpHash_sessList ..
  · exact withIpHash_sessPool ..
  · rw [withIpHash_ueIps]
    rfl
  · intro e hno
    cases hno
  · intro _ _ hno
    rw [hnext] at hno
    cases hno

variable (v wanted dnn addr) in
theorem take (h : c.Holds p) (hp : p (v,n)=none)
    (hptr : wanted=false → (c.sess n).ip v=none)
    (hnew : wanted=true → ∀ x,c.ueIps.next v.family dnn addr=some x → ∀ m r,
      p (v,m)=some r → c.ipKey v r≠x.toList.take v.keyLen) :
    c.Took p n v wanted (c.ueIps.next v.family dnn addr) (c.ueIps.alloc v.family dnn addr).1
      (c.takeIp n v wanted dnn addr) := by
  cases wanted with
  | false =>
    rw [takeIp_unwanted]
    refine ⟨?_,fun _ _ _ => rfl,fun _ _ => rfl,rfl,rfl,rfl,?_,?_⟩
    · rw [hptr rfl,← hp,update_eq_self]
      exact h
    · intro e he
      cases he
    · intro _ hno
      cases hno
  | true =>
    cases hres : (c.ueIps.alloc v.family dnn addr).2 with
    | error cause => exact h.take_refused hp (Prod.ext rfl hres)
    | ok r => exact h.take_granted hp (Prod.ext rfl hres) (hnew rfl)

theorem settle (h : c'.Holds p) (hlist : c'.sessList=c.sessList) (hn : n∈c.sessList)
    (hself : ∀ w,p (w,n)=(c'.sess n).ip w)
    (hothers : ∀ m w,m≠n → p (w,m)=c.pointers (w,m) ∧ (c'.sess m).ip w=(c.sess m).ip w) :
    c'.Holds c'.pointers := by
  have heq : c'.pointers=p := by
    funext i
    obtain ⟨w,m⟩ := i
    unfold pointers
    rw [hlist]
    by_cases hm : m=n
    · subst hm
      rw [if_pos hn,hself]
    · obtain ⟨hp,hip⟩ := hothers m w hm
      rw [hp,hip]
      rfl
  rw [heq]
  exact h

end Holds

def released (c : Context) (n : Nat) : UeIps :=
  (c.ueIps.giveBack (c.sess n).ipv4).giveBack (c.sess n).ipv6

def Unused (c : Context) (n : Nat) (v : Version) (a : Option (Vector Byte 16)) : Prop :=
  ∀ x,a=some x → ∀ m∈c.sessList,m≠n → ∀ r,(c.sess m).ip v=some r →
    c.ipKey v r≠x.toList.take v.keyLen

/-- Every address that the session has is replaced or its pointer is cleared, and no address is
handed out twice. -/
def Renewed (c : Context) (n : Nat) (sessionType : Byte) (x : PdrUp) : Prop :=
  let t:=c.released n
  let wanted4:=x.ipv4 || x.dnn.isSome
  let wanted6:=x.ipv6 || x.dnn.isSome
  match sessionType.val with
  | 1 =>
    (c.sess n).ipv6=none ∧ (wanted4=false → (c.sess n).ipv4=none) ∧
      (wanted4=true → c.Unused n .v4 (t.next .inet x.dnn x.addr))
  | 2 =>
    (c.sess n).ipv4=none ∧ (wanted6=false → (c.sess n).ipv6=none) ∧
      (wanted6=true → c.Unused n .v6 (t.next .inet6 x.dnn x.addr))
  | 3 =>
    let reached:=wanted4=true → t.next .inet x.dnn x.bothAddr≠none
    let t' := if wanted4 then (t.alloc .inet x.dnn x.bothAddr).1 else t
    (wanted4=false → (c.sess n).ipv4=none) ∧
      (wanted4=true → c.Unused n .v4 (t.next .inet x.dnn x.bothAddr)) ∧
      ((c.sess n).ipv6≠none → wanted6=true ∧ reached) ∧
      (wanted6=true → reached → c.Unused n .v6 (t'.next .inet6 x.dnn x.bothAddr6))
  | _ => (c.sess n).ipv4=none ∧ (c.sess n).ipv6=none

namespace Holds

theorem drops (h : c.Holds p) (hp : ∀ v,p (v,n)=(c.sess n).ip v) :
    ∃ c₁ c',c.dropIpv4 n = .ok c₁ () ∧ c₁.dropIpv6 n = .ok c' () ∧
      c'.Holds (fun i => if i.2=n then none else p i) ∧ c'.ueIps=c.released n ∧
      c'.ueIps.addr=c.ueIps.addr ∧ c'.sess=c.sess ∧ c'.sessList=c.sessList ∧
      c'.sessPool=c.sessPool := by
  obtain ⟨c₁,hdrop₁,h₁,hueIps₁,haddr₁,hsess₁,hlist₁,hpool₁⟩ := h.drop (hp .v4)
  have hp₁ : update p (.v4,n) none (.v6,n)=(c₁.sess n).ip .v6 := by
    rw [update_of_ne (by simp),hsess₁]
    exact hp .v6
  obtain ⟨c',hdrop,h',hueIps,haddr,hsess,hlist,hpool⟩ := h₁.drop hp₁
  refine ⟨c₁,c',hdrop₁,hdrop,?_,?_,haddr.trans haddr₁,hsess.trans hsess₁,
    hlist.trans hlist₁,hpool.trans hpool₁⟩
  · have heq : (fun i : Version × Nat => if i.2=n then none else p i) =
        update (update p (.v4,n) none) (.v6,n) none := by
      funext i
      obtain ⟨w,m⟩ := i
      by_cases hm : m=n
      · subst hm
        cases w <;> simp
      · simp [hm]
    rw [heq]
    exact h'
  · rw [hueIps,hsess₁,hueIps₁]
    rfl

structure Bare (c : Context) (n : Nat) (c₂ : Context) : Prop where
  holds : c₂.Holds fun i => if i.2=n then none else c.pointers i
  ueIps : c₂.ueIps=c.released n
  addr : c₂.ueIps.addr=c.ueIps.addr
  sess : c₂.sess=c.sess
  sessList : c₂.sessList=c.sessList

theorem Bare.new {c₂ : Context} {a : Option (Vector Byte 16)} (hb : Bare c n c₂)
    (hunused : c.Unused n v a) : ∀ x,a=some x → ∀ m r,
      (if m=n then none else c.pointers (v,m))=some r →
        c₂.ipKey v r≠x.toList.take v.keyLen := by
  intro x hx m r hr
  split at hr
  · cases hr
  · rename_i hm
    unfold pointers at hr
    split at hr
    · rename_i hlive
      have hne:=hunused x hx m hlive hm r hr
      unfold ipKey at hne ⊢
      rw [hb.addr]
      exact hne
    · cases hr

theorem Bare.one {c₂ : Context} (hb : Bare c n c₂) (hn : n∈c.sessList)
    (hother : ∀ w,w≠v → (c.sess n).ip w=none)
    (hptr : wanted=false → (c.sess n).ip v=none)
    (hunused : wanted=true → c.Unused n v ((c.released n).next v.family dnn addr)) :
    (c₂.takeIp n v wanted dnn addr).1.Holds (c₂.takeIp n v wanted dnn addr).1.pointers := by
  rw [← hb.sess] at hptr
  rw [← hb.ueIps] at hunused
  have htook:=hb.holds.take v wanted dnn addr
    (if_pos rfl) hptr fun hw => hb.new (hunused hw)
  refine htook.holds.settle (htook.sessList.trans hb.sessList) hn ?_ ?_
  · intro w
    by_cases hw : w=v
    · subst hw
      rw [update_self]
    · rw [update_of_ne (by simp [hw]),htook.others n w (by simp [hw]),hb.sess,
        hother w hw]
      exact if_pos rfl
  · intro m w hm
    rw [update_of_ne (by simp [hm]),htook.others m w (by simp [hm]),hb.sess]
    exact ⟨if_neg hm,rfl⟩

theorem undo (h : c.Holds p) (hp : p (.v4,n)=(c.sess n).ip .v4) :
    ∃ c',c.undoIpv4 n = .ok c' () ∧ c'.Holds (update p (.v4,n) none) ∧
      c'.sessList=c.sessList ∧ (c'.sess n).ip .v4=none ∧
      ∀ m w,¬ (m=n ∧ w = .v4) → (c'.sess m).ip w=(c.sess m).ip w := by
  obtain ⟨c',hdrop,h',-,-,hsess,hlist,-⟩ := h.drop hp
  have hip:=c'.pointed_ip n .v4 c'.ueIps none
  refine ⟨c'.pointed n .v4 c'.ueIps none,?_,?_,hlist,?_,?_⟩
  · unfold undoIpv4
    rw [show c.dropIpv4 n = .ok c' () from hdrop]
    rfl
  · exact h'.congr rfl
  · rw [hip,if_pos ⟨rfl,rfl⟩]
  · intro m w hmw
    rw [hip,if_neg hmw,hsess]

theorem Bare.refused {c₂ c₃ c₄ : Context} (hb : Bare c n c₂) (hn : n∈c.sessList)
    {wanted₄ wanted₆ : Bool} {addr₄ addr₆ : Option (Vector Byte 16)} {t₄ t₆ : UeIps}
    {u : Except Refusal Unit} {e : Refusal}
    (h₃ : c₂.Took (fun i => if i.2=n then none else c.pointers i) n .v4 wanted₄ addr₄ t₄ (c₃,u))
    (h₄ : c₃.Took (update (fun i => if i.2=n then none else c.pointers i) (.v4,n)
      ((c₃.sess n).ip .v4)) n .v6 wanted₆ addr₆ t₆ (c₄,.error e)) :
    ∃ c',c₄.undoIpv4 n = .ok c' () ∧ c'.Holds c'.pointers := by
  have hp : update (update (fun i => if i.2=n then none else c.pointers i)
      (Version.v4,n) ((c₃.sess n).ip .v4)) (.v6,n) ((c₄.sess n).ip .v6) (.v4,n) =
      (c₄.sess n).ip .v4 := by
    rw [update_of_ne (by simp),update_self]
    exact (h₄.others n .v4 (by simp)).symm
  obtain ⟨c',hundo,h',hlist,hip,hothers⟩ := h₄.holds.undo hp
  refine ⟨c',hundo,h'.settle (hlist.trans (h₄.sessList.trans
    (h₃.sessList.trans hb.sessList))) hn ?_ ?_⟩
  · intro w
    cases w with
    | v4 =>
      rw [update_self]
      exact hip.symm
    | v6 =>
      rw [update_of_ne (by simp),update_self]
      exact (hothers n .v6 (by simp)).symm
  · intro m w hm
    have hother : ∀ w',¬ (m=n ∧ w=w') := fun w' hno => hm hno.1
    rw [update_of_ne (by simp [hm]),update_of_ne (by simp [hm]),
      update_of_ne (by simp [hm]),hothers m w (hother _),h₄.others m w (hother _),
      h₃.others m w (hother _),hb.sess]
    exact ⟨if_neg hm,rfl⟩

theorem Bare.granted {c₂ c₃ c₄ : Context} (hb : Bare c n c₂) (hn : n∈c.sessList)
    {wanted₄ wanted₆ : Bool} {addr₄ addr₆ : Option (Vector Byte 16)} {t₄ t₆ : UeIps}
    {u u' : Except Refusal Unit}
    (h₃ : c₂.Took (fun i => if i.2=n then none else c.pointers i) n .v4 wanted₄ addr₄ t₄ (c₃,u))
    (h₄ : c₃.Took (update (fun i => if i.2=n then none else c.pointers i) (.v4,n)
      ((c₃.sess n).ip .v4)) n .v6 wanted₆ addr₆ t₆ (c₄,u')) : c₄.Holds c₄.pointers := by
  refine h₄.holds.settle (h₄.sessList.trans (h₃.sessList.trans hb.sessList)) hn ?_ ?_
  · intro w
    cases w with
    | v4 =>
      rw [update_of_ne (by simp),update_self]
      exact (h₄.others n .v4 (by simp)).symm
    | v6 => rw [update_self]
  · intro m w hm
    have hother : ∀ w',¬ (m=n ∧ w=w') := fun w' hno => hm hno.1
    rw [update_of_ne (by simp [hm]),update_of_ne (by simp [hm]),
      h₄.others m w (hother _),h₃.others m w (hother _),hb.sess]
    exact ⟨if_neg hm,rfl⟩

theorem Bare.alone {c₂ c₃ : Context} (hb : Bare c n c₂) (hn : n∈c.sessList) {wanted₄ : Bool}
    {addr₄ : Option (Vector Byte 16)} {t₄ : UeIps} {u : Except Refusal Unit}
    (hip : (c.sess n).ip .v6=none)
    (h₃ : c₂.Took (fun i => if i.2=n then none else c.pointers i) n .v4 wanted₄ addr₄ t₄ (c₃,u)) :
    c₃.Holds c₃.pointers := by
  refine h₃.holds.settle (h₃.sessList.trans hb.sessList) hn ?_ ?_
  · intro w
    cases w with
    | v4 => rw [update_self]
    | v6 =>
      rw [update_of_ne (by simp),if_pos rfl]
      exact ((h₃.others n .v6 (by simp)).trans (by rw [hb.sess,hip])).symm
  · intro m w hm
    rw [update_of_ne (by simp [hm]),h₃.others m w (fun hno => hm hno.1),hb.sess]
    exact ⟨if_neg hm,rfl⟩

variable (dnn) in
theorem Bare.second {c₂ c₃ : Context} (hb : Bare c n c₂) {wanted₄ : Bool} (wanted₆ : Bool)
    {addr₄ : Option (Vector Byte 16)} (addr₆ : List Byte) {t₄ : UeIps} {u : Except Refusal Unit}
    (h₃ : c₂.Took (fun i => if i.2=n then none else c.pointers i) n .v4 wanted₄ addr₄ t₄ (c₃,u))
    (h6 : wanted₆=false → (c.sess n).ip .v6=none)
    (hunused : wanted₆=true → c.Unused n .v6
      ((if wanted₄ then t₄ else c₂.ueIps).next .inet6 dnn addr₆)) :
    c₃.Took (update (fun i => if i.2=n then none else c.pointers i) (.v4,n)
      ((c₃.sess n).ip .v4)) n .v6 wanted₆ (c₃.ueIps.next .inet6 dnn addr₆)
      (c₃.ueIps.alloc .inet6 dnn addr₆).1 (c₃.takeIpv6 n wanted₆ dnn addr₆) := by
  apply h₃.holds.take .v6
  · rw [update_of_ne (by simp)]
    exact if_pos rfl
  · intro hw
    rw [h₃.others n .v6 (by simp),hb.sess]
    exact h6 hw
  · intro hw x hx m r hr
    rw [h₃.ueIps] at hx
    rw [update_of_ne (by simp)] at hr
    have hkey:=hb.new (hunused hw) x hx m r hr
    unfold ipKey at hkey ⊢
    rw [h₃.addr r ⟨(.v6,m),hr⟩]
    exact hkey

theorem sessSetUeIp (h : c.Holds c.pointers) (hn : n∈c.sessList) {sessionType : Byte}
    {x : PdrUp} (hk : c.Renewed n sessionType x) :
    ∃ c' res,c.sessSetUeIp n sessionType x = .ok c' res ∧ c'.Holds c'.pointers := by
  have hlive : ∀ w,c.pointers (w,n)=(c.sess n).ip w := fun w => if_pos hn
  obtain ⟨c₁,c₂,hdrop₁,hdrop₂,h₂,hueIps,haddr,hsess,hlist,-⟩ := h.drops hlive
  have hb : Bare c n c₂ := ⟨h₂,hueIps,haddr,hsess,hlist⟩
  unfold Context.sessSetUeIp
  rw [hdrop₁,Outcome.bind_ok,hdrop₂,Outcome.bind_ok]
  have hother (hk : (c.sess n).ipv4=none ∧ (c.sess n).ipv6=none) :
      c₂.Holds c₂.pointers := by
    apply h₂.settle hlist hn
    · intro w
      rw [hsess]
      cases w with
      | v4 => exact (if_pos rfl).trans hk.1.symm
      | v6 => exact (if_pos rfl).trans hk.2.symm
    · intro m w hm
      rw [hsess]
      exact ⟨if_neg hm,rfl⟩
  unfold Renewed at hk
  generalize sessionType.val=k at hk ⊢
  rcases k with _ | _ | _ | _ | k
  · exact ⟨c₂,_,rfl,hother hk⟩
  · obtain ⟨h6,h4,hunused⟩ := hk
    refine ⟨_,_,rfl,hb.one (v := .v4) hn ?_ h4 hunused⟩
    intro w hw
    cases w with
    | v4 => exact absurd rfl hw
    | v6 => exact h6
  · obtain ⟨h4,h6,hunused⟩ := hk
    refine ⟨_,_,rfl,hb.one (v := .v6) hn ?_ h6 hunused⟩
    intro w hw
    cases w with
    | v4 => exact h4
    | v6 => exact absurd rfl hw
  · obtain ⟨h4,hunused4,h6,hunused6⟩ := hk
    rw [← hueIps] at hunused4 h6 hunused6
    have h₃:=hb.holds.take .v4 (x.ipv4 || x.dnn.isSome) x.dnn x.bothAddr (if_pos rfl)
      (by rw [hsess]; exact h4)
      fun hw => hb.new (hunused4 hw)
    change c₂.Took _ n .v4 _ _ _ (c₂.takeIpv4 n (x.ipv4 || x.dnn.isSome) x.dnn x.bothAddr) at h₃
    cases htake4 : c₂.takeIpv4 n (x.ipv4 || x.dnn.isSome) x.dnn x.bothAddr with
    | mk c₃ u =>
      rw [htake4] at h₃
      cases u with
      | error e =>
        obtain ⟨hwanted,hnone,-⟩ := h₃.refused e rfl
        refine ⟨c₃,.error e,rfl,hb.alone hn ?_ h₃⟩
        by_contra hno
        exact (h6 hno).2 hwanted hnone
      | ok u =>
        have hreached:=h₃.taken rfl
        have h₄:=hb.second x.dnn (x.ipv6 || x.dnn.isSome) x.bothAddr6 h₃ ?_
          fun hw => hunused6 hw hreached
        · cases htake6 : c₃.takeIpv6 n (x.ipv6 || x.dnn.isSome) x.dnn x.bothAddr6 with
          | mk c₄ u' =>
            rw [htake6] at h₄
            cases u' with
            | error e =>
              obtain ⟨c',hundo,hholds⟩ := hb.refused hn h₃ h₄
              refine ⟨c',.error e,?_,hholds⟩
              simp only [htake6,hundo,Outcome.bind_ok]
            | ok u' =>
              refine ⟨c₄,.ok (),?_,hb.granted hn h₃ h₄⟩
              simp only [htake6]
        · intro hw
          by_contra hno
          exact absurd (h6 hno).1 (by simp [hw])
  · exact ⟨c₂,_,rfl,hother hk⟩

theorem setRouteList (h : c.Holds c.pointers) (ipsubnet : Ipsubnet) (n : Nat) (list : RouteList)
    (framedRoutes : List (List Byte)) :
    (c.setRouteList ipsubnet n list framedRoutes).Holds
      (c.setRouteList ipsubnet n list framedRoutes).pointers := by
  have hset:=setRouteList_set ipsubnet c n list framedRoutes
  have heq : (c.setRouteList ipsubnet n list framedRoutes).pointers=c.pointers := by
    funext i
    obtain ⟨w,m⟩ := i
    unfold pointers
    rw [hset.sessList]
    cases w with
    | v4 => simp only [Sess.ip,(hset.ips m).1]
    | v6 => simp only [Sess.ip,(hset.ips m).2]
  rw [heq]
  exact h.congr hset.addressing

theorem sessAdd (h : c.Holds c.pointers) {m : Nat} (hjoined : Joined c m c') :
    c'.Holds c'.pointers := by
  have heq : c'.pointers=c.pointers := by
    funext i
    obtain ⟨w,k⟩ := i
    unfold pointers
    rw [hjoined.sessList]
    by_cases hk : k=m
    · subst hk
      have hnone : (c'.sess k).ip w=none := by
        cases w with
        | v4 => exact hjoined.ips.1
        | v6 => exact hjoined.ips.2
      simp [hnone,hjoined.new]
    · simp [hk,hjoined.others k hk]
  rw [heq]
  exact h.congr hjoined.addressing

theorem sessRemove (h : c.Holds c.pointers) {q : List Nat}
    (hs : Pool.Split c.sessPool q c.sessList) (hn : n∈c.sessList) (ipsubnet : Ipsubnet) :
    ∃ c',c.sessRemove ipsubnet n = .ok c' () ∧ c'.Holds c'.pointers := by
  unfold Context.sessRemove
  simp only
  generalize hu : unsetSeids _ n=u
  have hlist : u.sessList=c.sessList.erase n := by rw [← hu]; rfl
  have hip : ∀ m w,(u.sess m).ip w=(c.sess m).ip w := by
    have hacc:=modify_ips (c := c) (n := n) (f := fun x => { x with urrAcc := fun _ => .zero })
      (fun _ => rfl) fun _ => rfl
    intro m w
    rw [← hu]
    cases w with
    | v4 => exact (hacc m).1
    | v6 => exact (hacc m).2
  have hholds : u.Holds c.pointers := h.congr (by rw [← hu]; rfl)
  obtain ⟨c₁,c₂,hdrop₁,hdrop₂,h₂,-,-,hsess₂,hlist₂,-⟩ :=
    hholds.drops (n := n) fun w => by rw [hip]; exact if_pos hn
  rw [hdrop₁,Outcome.bind_ok,hdrop₂,Outcome.bind_ok]
  have h4:=setRouteList_set ipsubnet c₂ n .ipv4 []
  have h6:=setRouteList_set ipsubnet (c₂.setRouteList ipsubnet n .ipv4 []) n .ipv6 []
  simp only [Context.setRouteList] at h4 h6
  generalize c₂.sessSetUeIpv4FramedRoutes ipsubnet n []=c₃ at h4 h6 ⊢
  generalize c₃.sessSetUeIpv6FramedRoutes ipsubnet n []=c₄ at h6 ⊢
  refine ⟨_,rfl,?_⟩
  generalize hc' : ({ c₄ with
    upfN4SeidPool := c₄.upfN4SeidPool.release (c₄.sess n).upfN4SeidNode
    sessPool := c₄.sessPool.idFree n (c₄.sess n).id } : Context)=c'
  have heq : c'.pointers = fun i => if i.2=n then none else c.pointers i := by
    funext i
    obtain ⟨w,m⟩ := i
    have hptr : (c'.sess m).ip w=(c.sess m).ip w := by
      rw [← hip,← hsess₂,← hc']
      cases w with
      | v4 => exact ((h6.ips m).1).trans (h4.ips m).1
      | v6 => exact ((h6.ips m).2).trans (h4.ips m).2
    have hlist' : c'.sessList=c.sessList.erase n := by
      rw [← hlist,← hlist₂,← hc']
      exact h6.sessList.trans h4.sessList
    unfold pointers
    rw [hlist',hptr]
    by_cases hm : m=n
    · simp [hm,hs.live_nodup.not_mem_erase]
    · simp [hm,List.mem_erase_of_ne hm]
  rw [heq]
  refine h₂.congr ?_
  rw [← hc']
  exact h6.addressing.trans h4.addressing

end Holds

/-- Each address is allocated to the one session that points to it, the tables lead from the
addresses to their owners, and each node of a pool is free or owned. -/
structure UeIpsOwned (c : Context) : Prop where
  allocated : ∀ v,∀ n∈c.sessList,∀ r,(c.sess n).ip v=some r → c.ueIps.Allocated r
  own : ∀ v w,∀ m∈c.sessList,∀ n∈c.sessList,∀ r,
    (c.sess m).ip v=some r → (c.sess n).ip w=some r → m=n ∧ v=w
  hash : ∀ v k n,RefTable.get (c.ipKeys v) (c.ipHash v) k=some n ↔
    n∈c.sessList ∧ ∃ r,(c.sess n).ip v=some r ∧ c.ipKey v r=k
  balanced : ∀ s,∃ free owned,Pool.Split (c.ueIps.pool s) free owned ∧
    free.length+owned.length=(c.ueIps.pool s).size ∧
    ∀ k,k∈owned ↔ ∃ v,∃ n∈c.sessList,(c.sess n).ip v=some (.dynamic s k)
  blocks : ∀ b,(c.ueIps.block b).live=true ↔
    ∃ v,∃ n∈c.sessList,(c.sess n).ip v=some (.static b)

theorem pointers_eq_some {i : Version × Nat} :
    c.pointers i=some r ↔ i.2∈c.sessList ∧ (c.sess i.2).ip i.1=some r := by
  unfold pointers
  split
  · rename_i hlive
    simp [hlive]
  · rename_i hdead
    simp [hdead]

theorem Holds.ueIpsOwned (h : c.Holds c.pointers) : c.UeIpsOwned where
  allocated := by
    intro v n hn r hr
    exact h.held.allocated (i := (v,n)) (pointers_eq_some.mpr ⟨hn,hr⟩)
  own := by
    intro v w m hm n hn r hv hw
    have heq:=h.held.inj (v,m) (w,n) r (pointers_eq_some.mpr ⟨hm,hv⟩)
      (pointers_eq_some.mpr ⟨hn,hw⟩)
    exact ⟨(Prod.mk.inj heq).2,(Prod.mk.inj heq).1⟩
  hash := by
    intro v k n
    rw [(h.table v).get]
    simp only [pointers_eq_some]
    constructor
    · rintro ⟨r,⟨hn,hr⟩,hk⟩
      exact ⟨hn,r,hr,hk⟩
    · rintro ⟨hn,r,hr,hk⟩
      exact ⟨r,⟨hn,hr⟩,hk⟩
  balanced := by
    intro s
    obtain ⟨free,owned,hsplit,hmem⟩ := h.held.pool s
    refine ⟨free,owned,hsplit,hsplit.length_add,?_⟩
    intro k
    rw [hmem,Prod.exists]
    simp only [pointers_eq_some]
  blocks := by
    intro b
    rw [h.held.block,Prod.exists]
    simp only [pointers_eq_some]

end Context

namespace Routed

def Renews (t : Routed) : Op → Prop
  | .setUeIp n sessionType x => t.ctx.Renewed n sessionType x
  | _ => True

def GivesBackOnce (_ : Routed) : Op → Outcome Routed Unit → Prop
  | .add .., _ => True
  | _, .ok .. => True
  | _, .abort .. => False

structure Settled (t : Routed) : Prop where
  pool : ∃ q,Pool.Split t.ctx.sessPool q t.ctx.sessList
  holds : t.ctx.Holds t.ctx.pointers

namespace Settled

variable {ipsubnet : Ipsubnet} {t : Routed} {n : Nat}

theorem init (poolSess : Nat) (upfN4SeidOf : Nat → BitVec 64) (up : Up) (subnets : List Subnet)
    (seeds : Seeds) :
    (Routed.init (contextInit poolSess upfN4SeidOf up subnets seeds)).Settled where
  pool := ⟨_,Pool.split_init poolSess⟩
  holds := by
    refine ⟨UeIps.HeldBy.init subnets,?_⟩
    intro v
    refine ⟨[],?_,List.nodup_nil,?_⟩
    · cases v <;> rfl
    · intro r n
      constructor
      · intro hr
        cases hr
      · intro hr
        cases hr

theorem add (h : t.Settled) (stack : Vector Byte 4) (cpFSeid : Option (Vector Byte 29)) :
    (t.ctx.sessAddByMessage stack cpFSeid).Returns fun c _ => (t.withCtx c).Settled := by
  unfold Context.sessAddByMessage
  cases cpFSeid with
  | none => exact h
  | some fSeid =>
    simp only
    split
    · cases t.ctx.sessFindBySmfN4FSeid fSeid stack with
      | some n => exact h
      | none =>
        obtain ⟨q,hs⟩ := h.pool
        apply (Context.sessAdd_joined hs fSeid).bind
        intro c n hjoined
        exact ⟨hjoined.pool,h.holds.sessAdd hjoined⟩
    · exact h

theorem setUeIp {sessionType : Byte} {x : PdrUp} (h : t.Settled) (hn : n∈t.ctx.sessList)
    (hk : t.ctx.Renewed n sessionType x) :
    ∃ c res,t.ctx.sessSetUeIp n sessionType x = .ok c res ∧ (t.withCtx c).Settled := by
  obtain ⟨c,res,hcall,hholds⟩ := h.holds.sessSetUeIp hn hk
  have hrouting:=Context.sessSetUeIp_routing t.ctx n sessionType x
  rw [hcall] at hrouting
  have hpool : c.sessPool=t.ctx.sessPool := congrArg (fun x => x.1) hrouting
  have hlist : c.sessList=t.ctx.sessList := congrArg (fun x => x.2.1) hrouting
  refine ⟨c,res,hcall,?_,hholds⟩
  show ∃ q,Pool.Split c.sessPool q c.sessList
  rw [hpool,hlist]
  exact h.pool

variable (ipsubnet) in
theorem remove (h : t.Settled) (hn : n∈t.ctx.sessList) :
    ∃ c,t.ctx.sessRemove ipsubnet n = .ok c () ∧ (t.withCtx c).Settled := by
  obtain ⟨q,hs⟩ := h.pool
  obtain ⟨c,hcall,hholds⟩ := h.holds.sessRemove hs hn ipsubnet
  have hremoved:=Context.sessRemove_returns ipsubnet t.ctx n
  rw [hcall] at hremoved
  obtain ⟨⟨id,hpool⟩,hlist,-⟩ := hremoved
  refine ⟨c,hcall,?_,hholds⟩
  show ∃ q,Pool.Split c.sessPool q c.sessList
  rw [hpool,hlist]
  exact ⟨_,hs.idFree hn id⟩

theorem step {op : Op} {o : Outcome Routed Unit} (h : t.Settled) (hcond : t.Renews op)
    (ho : t.step ipsubnet op=some o) :
    t.GivesBackOnce op o ∧ o.Leaves Settled fun _ => True := by
  cases op with
  | add stack cpFSeid =>
    obtain rfl := some.inj ho
    refine ⟨trivial,?_⟩
    have hadd:=h.add stack cpFSeid
    cases hcall : t.ctx.sessAddByMessage stack cpFSeid with
    | ok c r =>
      rw [hcall] at hadd
      exact hadd
    | abort c => trivial
  | setUeIp n sessionType x =>
    simp only [Routed.step] at ho
    split at ho
    · rename_i hn
      obtain rfl := some.inj ho
      obtain ⟨c,res,hcall,hsettled⟩ := h.setUeIp hn hcond
      rw [hcall]
      exact ⟨trivial,hsettled⟩
    · cases ho
  | setFramedRoutes n list framedRoutes =>
    simp only [Routed.step] at ho
    split at ho
    · obtain rfl := some.inj ho
      have hset:=Context.setRouteList_set ipsubnet t.ctx n list framedRoutes
      refine ⟨trivial,?_,h.holds.setRouteList ipsubnet n list framedRoutes⟩
      show ∃ q,Pool.Split (t.ctx.setRouteList ipsubnet n list framedRoutes).sessPool q
        (t.ctx.setRouteList ipsubnet n list framedRoutes).sessList
      rw [hset.sessPool,hset.sessList]
      exact h.pool
    · cases ho
  | remove n =>
    simp only [Routed.step] at ho
    split at ho
    · rename_i hn
      obtain rfl := some.inj ho
      obtain ⟨c,hcall,hsettled⟩ := h.remove ipsubnet hn
      rw [hcall]
      exact ⟨trivial,hsettled.pool,hsettled.holds⟩
    · cases ho

end Settled

end Routed

/-- In a run whose calls replace or clear what they give back, and hand out no address twice, each
session owns its addresses, and no address is given back twice. -/
theorem ueIpsOwned_run {poolSess : Nat} {upfN4SeidOf : Nat → BitVec 64} {up : Up}
    {subnets : List Subnet} {seeds : Seeds} {ipsubnet : Ipsubnet} {ops : List Op}
    (h : EachStep (Routed.step ipsubnet) Routed.Renews
      (Routed.init (contextInit poolSess upfN4SeidOf up subnets seeds)) ops) :
    (∀ t ∈ completed (Routed.step ipsubnet)
      (Routed.init (contextInit poolSess upfN4SeidOf up subnets seeds)) ops, t.ctx.UeIpsOwned) ∧
      EachOutcome (Routed.step ipsubnet) Routed.GivesBackOnce
        (Routed.init (contextInit poolSess upfN4SeidOf up subnets seeds)) ops := by
  have hinit:=Routed.Settled.init poolSess upfN4SeidOf up subnets seeds
  constructor
  · intro t ht
    apply Context.Holds.ueIpsOwned
    have hsettled : t.Settled := by
      refine completed_inv ?_ hinit h t ht
      intro t op t' r hsettled hcond ho
      exact (hsettled.step hcond ho).2
    exact hsettled.holds
  · exact eachOutcome_inv (fun t op o hsettled hcond ho => hsettled.step hcond ho) hinit h

def subnets2 : List Subnet :=
  [⟨.inet,[],2,fun n => Vector.ofFn fun i => if i.val=3 then Fin.ofNat 256 (n+2) else 10⟩,
    ⟨.inet6,[],2,fun n => Vector.ofFn fun i => if i.val=7 then Fin.ofNat 256 (n+2) else 32⟩]

def context2 : Context :=
  contextInit 2 (fun n => BitVec.ofNat 64 (n+1)) (upInit 2 id 0 0) subnets2 ⟨0,0,0,0,0⟩

def pdrUeIp (flags : Byte) : PdrUp :=
  { PdrUp.zero with ueIpAddr := Vector.ofFn fun i => if i.val=0 then flags else 0 }

def twoPdrs : List Op :=
  [.add (Vector.replicate 4 0) (some (fSeid1 1)),.setUeIp 0 3 (pdrUeIp 3),
    .setUeIp 0 3 (pdrUeIp 2)]

def runTwoPdrs : List Routed :=
  completed (Routed.step ipsubnet1) (Routed.init context2) twoPdrs

def leftBehind : Routed := (runTwoPdrs[3]?).getD (Routed.init context2)

set_option maxRecDepth 4000 in
theorem address_left_behind : ¬ ∀ t∈runTwoPdrs,t.ctx.UeIpsOwned := by
  intro h
  have hmem : leftBehind∈runTwoPdrs := List.mem_of_getElem? (i := 3) rfl
  have hlist : leftBehind.ctx.sessList=[0] := rfl
  have hip : (leftBehind.ctx.sess 0).ip .v6=some (.dynamic 1 0) := rfl
  have hallocated:=(h leftBehind hmem).allocated .v6 0 (by simp [hlist]) _ hip
  have hfree : (leftBehind.ctx.ueIps.pool 1).index 0=none := rfl
  rw [UeIps.Allocated,hfree] at hallocated
  cases hallocated

set_option maxRecDepth 4000 in
theorem ueIpsOwned_run_two :
    EachStep (Routed.step ipsubnet1) Routed.Renews (Routed.init context2)
        (twoPdrs.take 2++[.remove 0]) ∧
      (∀ t ∈ completed (Routed.step ipsubnet1) (Routed.init context2)
        (twoPdrs.take 2++[.remove 0]), t.ctx.UeIpsOwned) ∧
      EachOutcome (Routed.step ipsubnet1) Routed.GivesBackOnce (Routed.init context2)
        (twoPdrs.take 2++[.remove 0]) := by
  have heach : EachStep (Routed.step ipsubnet1) Routed.Renews (Routed.init context2)
      (twoPdrs.take 2++([.remove 0] : List Op)) := by
    refine ⟨trivial,⟨fun _ => rfl,?_,?_,?_⟩,trivial,trivial⟩
    · intro _ a _ m hm hne
      exact absurd (List.mem_singleton.mp hm) hne
    · intro hno
      exact absurd rfl hno
    · intro _ _ a _ m hm hne
      exact absurd (List.mem_singleton.mp hm) hne
  exact ⟨heach,ueIpsOwned_run heach⟩

end OgsDp.Upf
