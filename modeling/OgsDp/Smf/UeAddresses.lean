import OgsDp.Lib.Leads
import OgsDp.Pfcp.UeIpHolders
import OgsDp.Smf.Context

/-!
# UE addresses of the sessions (src/smf/context.c)

A session holds an address from the allocation to the moment it is given back.
-/

namespace OgsDp.Smf
open Lib RefTable OgsDp.Core Pfcp Function

namespace Context

variable {c c' : Context} {n : Nat} {v : IpVersion} {r : UeIpRef}

theorem bytesKeys_reads {ρ : Type} (seed : BitVec 32) (bytes : ρ → List Byte) (r : ρ) (k : Nat) :
    (bytesKeys seed bytes).reads r ((bytes r).take k)=true := by
  simp [bytesKeys]

theorem ipKeys_reads (c : Context) (v : IpVersion) (r : UeIpRef) :
    (c.ipKeys v).reads r (c.ipKey v r)=true :=
  bytesKeys_reads ..

/-- `p` says which addresses the sessions hold, and the tables lead from those of `q`. -/
structure Holds (c : Context) (p q : IpVersion × Nat → Option UeIpRef) : Prop where
  held : c.ueIps.HeldBy p
  table : ∀ v,Leads (c.ipKeys v) (c.ipKey v) (fun n => q (v,n)) (c.ipHash v)

variable {p q : IpVersion × Nat → Option UeIpRef}

theorem update_version (v w : IpVersion) (n : Nat) (o : Option UeIpRef) :
    (fun m => update q (v,n) o (w,m)) =
      if w=v then update (fun m => q (w,m)) n o else fun m => q (w,m) := by
  funext m
  by_cases hw : w=v
  · subst hw
    by_cases hm : m=n
    · simp [hm]
    · simp [hm]
  · simp [hw]

/-- The address that the session would be given, and the pools after that. -/
def nextIp (c : Context) (n : Nat) (v : IpVersion) : Option (Vector Byte 16) :=
  c.ueIps.next v.family (c.sess n).session.name ((c.sess n).session.ueIp v)

def afterIp (c : Context) (n : Nat) (v : IpVersion) : UeIps :=
  (c.ueIps.alloc v.family (c.sess n).session.name ((c.sess n).session.ueIp v)).1

namespace Holds

theorem unhash (h : c.Holds p q) (hq : q (v,n)=some r) :
    (c.unhashIp v r).Holds p (update q (v,n) none) where
  held := h.held
  table := by
    intro w
    rw [update_version]
    by_cases hw : w=v
    · subst hw
      rw [if_pos rfl]
      simp only [unhashIp,withIpHash,update_self]
      exact (h.table w).unset (c.ipKeys_reads w) hq
    · rw [if_neg hw]
      simp only [unhashIp,withIpHash,update_of_ne hw]
      exact h.table w

theorem hash (h : c.Holds p q) (hip : (c.sess n).ip v=some r) (hq : q (v,n)=none)
    (hnew : ∀ m r',q (v,m)=some r' → c.ipKey v r'≠c.ipKey v r) :
    (c.hashIp n v).Holds p (update q (v,n) (some r)) := by
  have heq : c.hashIp n v=c.withIpHash v (set (c.ipKeys v) (c.ipHash v) r (c.ipKey v r) n) := by
    simp only [hashIp,hip]
  rw [heq]
  refine ⟨h.held,?_⟩
  intro w
  rw [update_version]
  by_cases hw : w=v
  · subst hw
    rw [if_pos rfl]
    simp only [withIpHash,update_self]
    exact (h.table w).set (c.ipKeys_reads w) hq hnew
  · rw [if_neg hw]
    simp only [withIpHash,update_of_ne hw]
    exact h.table w

theorem table_congr (h : c.Holds p q) (hseeds : c'.seeds=c.seeds) (hhash : c'.ipHash=c.ipHash)
    (haddr : ∀ i r,q i=some r → c'.ueIps.addr r=c.ueIps.addr r) (v : IpVersion) :
    Leads (c'.ipKeys v) (c'.ipKey v) (fun n => q (v,n)) (c'.ipHash v) := by
  rw [hhash]
  refine (h.table v).congr (by simp only [ipKeys,bytesKeys,hseeds])
    (by simp only [ipKeys,bytesKeys]) (fun _ => rfl) ?_
  intro m r hr
  unfold ipKey
  rw [haddr _ r hr]

theorem drop (h : c.Holds p p) (hp : p (v,n)=(c.sess n).ip v) :
    ∃ c',c.dropIp n v = .ok c' () ∧
      c'.Holds (update p (v,n) none) (update p (v,n) none) ∧
      c'.ueIps=c.ueIps.giveBack ((c.sess n).ip v) ∧ c'.ueIps.addr=c.ueIps.addr ∧
      c'.sansIps=c.sansIps := by
  unfold dropIp
  cases hip : (c.sess n).ip v with
  | none =>
    rw [hip] at hp
    refine ⟨c,rfl,?_,rfl,rfl,rfl⟩
    rw [← hp,update_eq_self]
    exact h
  | some r =>
    rw [hip] at hp
    have h':=h.unhash hp
    obtain ⟨t,hfree,hheld,haddr,-⟩ := h.held.free hp
    have hfree' : (c.unhashIp v r).ueIps.free r = .ok t () := hfree
    simp only [hfree',Outcome.mapState]
    refine ⟨_,rfl,⟨hheld,?_⟩,?_,haddr,rfl⟩
    · exact h'.table_congr rfl rfl fun _ x _ => congrFun haddr x
    · simp only [UeIps.giveBack,Option.elim,hfree,Outcome.state,withUeIps]

theorem giveUp (h : c.Holds p q) (hip : (c.sess n).ip v=some r) (hp : p (v,n)=some r)
    (hno : ∀ m r',q (v,m)=some r' → c.ipKey v r'≠c.ipKey v r) :
    ∃ c',c.dropIp n v = .ok c' () ∧ c'.Holds (update p (v,n) none) q ∧
      c'.sansIps=c.sansIps := by
  obtain ⟨t,hfree,hheld,haddr,-⟩ := h.held.free hp
  have hfree' : (c.unhashIp v r).ueIps.free r = .ok t () := hfree
  have h' : (c.unhashIp v r).Holds p q := by
    refine ⟨h.held,?_⟩
    intro w
    by_cases hw : w=v
    · subst hw
      simp only [unhashIp,withIpHash,update_self]
      exact (h.table w).unset_absent (c.ipKeys_reads w) hno
    · simp only [unhashIp,withIpHash,update_of_ne hw]
      exact h.table w
  unfold dropIp
  simp only [hip,hfree',Outcome.mapState]
  refine ⟨_,rfl,⟨hheld,?_⟩,rfl⟩
  exact h'.table_congr rfl rfl fun _ x _ => congrFun haddr x

theorem setIp (h : c.Holds p q) (n : Nat) (v : IpVersion) (o : Option UeIpRef) :
    (c.setIp n v o).Holds p q :=
  ⟨h.held,h.table⟩

theorem alloc (h : c.Holds p q) (hp : p (v,n)=none) (hq : ∀ i r,q i=some r → p i=some r) :
    (∃ cause,c.allocIp n v=(c.setIp n v none,.error cause) ∧
      c.nextIp n v=none) ∨
    ∃ t r,c.allocIp n v=((c.withUeIps t).setIp n v (some r),.ok ()) ∧
      ((c.withUeIps t).setIp n v (some r)).Holds (update p (v,n) (some r)) q ∧
      c.nextIp n v=some (t.addr r) ∧ (∀ i x,p i=some x → t.addr x=c.ueIps.addr x) ∧
      t=c.afterIp n v := by
  unfold nextIp afterIp
  cases halloc : c.ueIps.alloc v.family (c.sess n).session.name ((c.sess n).session.ueIp v) with
  | mk t res =>
    cases res with
    | error cause =>
      obtain ⟨rfl,hnext⟩ := h.held.alloc_error halloc
      refine .inl ⟨cause,?_,hnext⟩
      simp only [allocIp,halloc]
      rfl
    | ok r =>
      obtain ⟨hheld,hnext,haddr⟩ := h.held.alloc_ok hp halloc
      have hkeep : ∀ i x,p i=some x → t.addr x=c.ueIps.addr x := fun i x hx =>
        haddr x ⟨i,hx⟩
      refine .inr ⟨t,r,?_,⟨hheld,?_⟩,hnext,hkeep,rfl⟩
      · simp only [allocIp,halloc]
      · exact h.table_congr rfl rfl fun i x hx => hkeep i x (hq i x hx)

end Holds

theorem setIp_ip (c : Context) (n : Nat) (v : IpVersion) (o : Option UeIpRef) (m : Nat)
    (w : IpVersion) :
    ((c.setIp n v o).sess m).ip w = if m=n ∧ w=v then o else (c.sess m).ip w := by
  unfold setIp modify
  by_cases hm : m=n
  · subst hm
    by_cases hw : w=v
    · simp [hw]
    · simp [hw]
  · simp [hm]

/-- The session holds what its pointers lead to afterwards, and nothing else changed. -/
structure Renews (c : Context) (p : IpVersion × Nat → Option UeIpRef) (n : Nat) (c' : Context) :
    Prop where
  holds : c'.Holds (fun i => if i.2=n then (c'.sess n).ip i.1 else p i)
    fun i => if i.2=n then (c'.sess n).ip i.1 else p i
  others : ∀ m,m≠n → (c'.sess m).ip=(c.sess m).ip
  bare : c'.bare=c.bare

def Free (c : Context) (p : IpVersion × Nat → Option UeIpRef) (v : IpVersion)
    (a : Option (Vector Byte 16)) : Prop :=
  ∀ x,a=some x → ∀ m r,p (v,m)=some r → c.ipKey v r≠x.toList.take v.keyLen

theorem update_pointer {o : Option UeIpRef} (hp : ∀ w,p (w,n)=none)
    (hself : (c.sess n).ip v=o) (hother : ∀ w,w≠v → (c.sess n).ip w=none) :
    update p (v,n) o = fun i => if i.2=n then (c.sess n).ip i.1 else p i := by
  funext i
  obtain ⟨w,m⟩ := i
  by_cases hm : m=n
  · subst hm
    by_cases hw : w=v
    · subst hw
      simp [hself]
    · simp [hw,hp,hother w hw]
  · simp [hm]

namespace Holds

theorem refused (h : c.Holds p p) (hp : ∀ w,p (w,n)=none)
    (hother : ∀ w,w≠v → (c.sess n).ip w=none) : c.Renews p n (c.setIp n v none) where
  holds := by
    have hself : ((c.setIp n v none).sess n).ip v=none := by rw [setIp_ip,if_pos ⟨rfl,rfl⟩]
    have hrest : ∀ w,w≠v → ((c.setIp n v none).sess n).ip w=none := by
      intro w hw
      rw [setIp_ip,if_neg (by simp [hw]),hother w hw]
    rw [← update_pointer hp hself hrest,← hp v,update_eq_self]
    exact h.setIp n v _
  others := by
    intro m hm
    funext w
    rw [setIp_ip,if_neg (by simp [hm])]
  bare := bare_setIp ..

theorem setOneIp (h : c.Holds p p) (hp : ∀ w,p (w,n)=none)
    (hother : ∀ w,w≠v → (c.sess n).ip w=none) (hfree : c.Free p v (c.nextIp n v)) :
    ∃ c' res,c.setOneIp n v = .ok c' res ∧ c.Renews p n c' := by
  unfold Context.setOneIp
  rcases h.alloc (hp v) fun _ _ hi => hi with
    ⟨cause,halloc,-⟩ | ⟨t,r,halloc,h',hnext,haddr,-⟩
  · rw [halloc]
    exact ⟨_,_,rfl,h.refused hp hother⟩
  · rw [halloc]
    generalize hc₁ : (c.withUeIps t).setIp n v (some r)=c₁ at h'
    have hip : ∀ m w,(c₁.sess m).ip w = if m=n ∧ w=v then some r else (c.sess m).ip w := by
      intro m w
      rw [← hc₁,setIp_ip]
      rfl
    have hkept:=c₁.hashIp_sansIps n v
    have hsess : (c₁.hashIp n v).sess=c₁.sess := congrArg (fun x => x.sess) hkept
    have hself : (c₁.sess n).ip v=some r := by rw [hip,if_pos ⟨rfl,rfl⟩]
    have hhash:=h'.hash hself (hp v) ?_
    · refine ⟨_,_,rfl,?_,?_,?_⟩
      · rw [← update_pointer hp (o := some r) (v := v)]
        · exact hhash
        · rw [hsess]
          exact hself
        · intro w hw
          rw [hsess,hip,if_neg (by simp [hw]),hother w hw]
      · intro m hm
        funext w
        rw [hsess,hip,if_neg (by simp [hm])]
      · rw [bare_of_sansIps hkept,← hc₁]
        exact bare_setIp ..
    · intro m r' hr'
      have hkey : ∀ x,c₁.ipKey v x=(t.addr x).toList.take v.keyLen := by
        intro x
        rw [← hc₁]
        rfl
      rw [hkey,hkey,haddr _ r' hr']
      exact hfree _ hnext m r' hr'

theorem undone (h : c.Holds (update p (v,n) (some r)) p) (hp : ∀ w,p (w,n)=none)
    (hip : (c.sess n).ip v=some r) (hother : ∀ w,w≠v → (c.sess n).ip w=none)
    (hno : ∀ m r',p (v,m)=some r' → c.ipKey v r'≠c.ipKey v r) :
    ∃ c',c.dropIp n v = .ok c' () ∧ c.Renews p n (c'.setIp n v none) := by
  obtain ⟨c',hdrop,h',hkept⟩ := h.giveUp hip (update_self ..) hno
  rw [update_idem,← hp v,update_eq_self] at h'
  have hsess : c'.sess=c.sess := congrArg (fun x => x.sess) hkept
  have hrenews:=h'.refused (v := v) hp fun w hw => by rw [hsess,hother w hw]
  refine ⟨c',hdrop,hrenews.holds,?_,hrenews.bare.trans (bare_of_sansIps hkept)⟩
  intro m hm
  rw [hrenews.others m hm,hsess]

theorem hashBoth {r' : UeIpRef} (h : c.Holds (update (update p (.v4,n) (some r))
      (.v6,n) (some r')) p) (hp : ∀ w,p (w,n)=none)
    (hip : ∀ w,(c.sess n).ip w=some (if w = .v4 then r else r'))
    (hnew4 : ∀ m x,p (.v4,m)=some x → c.ipKey .v4 x≠c.ipKey .v4 r)
    (hnew6 : ∀ m x,p (.v6,m)=some x → c.ipKey .v6 x≠c.ipKey .v6 r') :
    c.Renews p n ((c.hashIp n .v4).hashIp n .v6) := by
  have h₄:=h.hash (v := .v4) (hip .v4) (hp .v4) hnew4
  have hkept:=c.hashIp_sansIps n .v4
  have hkept':=((c.hashIp n .v4).hashIp_sansIps n .v6).trans hkept
  generalize hc₄ : c.hashIp n .v4=c₄ at h₄ hkept hkept' ⊢
  have hsess : c₄.sess=c.sess := congrArg (fun x => x.sess) hkept
  have hsess' : (c₄.hashIp n .v6).sess=c.sess := congrArg (fun x => x.sess) hkept'
  have hkey : ∀ y,c₄.ipKey .v6 y=c.ipKey .v6 y := by
    intro y
    rw [← hc₄]
    unfold hashIp
    split <;> rfl
  have h₆:=h₄.hash (n := n) (v := .v6) (r := r') (by rw [hsess]; exact hip .v6)
    (by rw [update_of_ne (by simp),hp]) ?_
  · have heq : update (update p (.v4,n) (some r)) (.v6,n) (some r') =
        fun i => if i.2=n then ((c₄.hashIp n .v6).sess n).ip i.1 else p i := by
      funext i
      obtain ⟨w,m⟩ := i
      rw [hsess']
      by_cases hm : m=n
      · subst hm
        cases w <;> simp [hip]
      · simp [hm]
    refine ⟨heq ▸ h₆,?_,bare_of_sansIps hkept'⟩
    intro m _
    rw [hsess']
  · intro m x hx
    rw [update_of_ne (by simp)] at hx
    rw [hkey,hkey]
    exact hnew6 m x hx

theorem setBothIps (h : c.Holds p p) (hp : ∀ w,p (w,n)=none)
    (h6 : (c.sess n).ip .v6≠none → c.nextIp n .v4≠none)
    (hfree4 : c.Free p .v4 (c.nextIp n .v4))
    (hfree6 : c.nextIp n .v4≠none →
      c.Free p .v6 ((c.withUeIps (c.afterIp n .v4)).nextIp n .v6)) :
    ∃ c' res,c.setBothIps n = .ok c' res ∧ c.Renews p n c' := by
  unfold Context.setBothIps
  rcases h.alloc (hp .v4) fun _ _ hi => hi with
    ⟨cause,halloc,hnone⟩ | ⟨t,r,halloc,h₁,hnext,haddr,rfl⟩
  · rw [halloc]
    refine ⟨_,_,rfl,h.refused hp ?_⟩
    intro w hw
    cases w with
    | v4 => exact absurd rfl hw
    | v6 =>
      by_contra hno
      exact h6 hno hnone
  · rw [halloc]
    simp only
    generalize hc₁ : (c.withUeIps (c.afterIp n .v4)).setIp n .v4 (some r)=c₁ at h₁
    have hip₁ : ∀ m w,(c₁.sess m).ip w =
        if m=n ∧ w = .v4 then some r else (c.sess m).ip w := by
      intro m w
      rw [← hc₁,setIp_ip]
      rfl
    have hueIps₁ : c₁.ueIps=c.afterIp n .v4 := by rw [← hc₁]; rfl
    have hbare₁ : c₁.bare=c.bare := by rw [← hc₁]; exact bare_setIp ..
    have hnext₁ : c₁.nextIp n .v6=(c.withUeIps (c.afterIp n .v4)).nextIp n .v6 := by
      rw [← hc₁]
      simp only [nextIp,Context.setIp,modify,update_self]
    have hq : ∀ i x,p i=some x → update p (.v4,n) (some r) i=some x := by
      intro i x hi
      rw [update_of_ne,hi]
      rintro rfl
      rw [hp] at hi
      cases hi
    have hsix : update p (IpVersion.v4,n) (some r) (.v6,n)=none := by
      rw [update_of_ne (by simp),hp]
    rcases h₁.alloc hsix hq with ⟨cause,halloc₁,-⟩ | ⟨t',r',halloc₁,h₂,hnext',haddr',-⟩
    · rw [halloc₁]
      have hkey : ∀ x,(c₁.setIp n .v6 none).ipKey .v4 x =
          ((c.afterIp n .v4).addr x).toList.take 4 := by
        intro x
        rw [← hueIps₁]
        rfl
      have hself : ((c₁.setIp n .v6 none).sess n).ip .v4=some r := by
        rw [setIp_ip,if_neg (by simp),hip₁,if_pos ⟨rfl,rfl⟩]
      have hother : ∀ w,w ≠ .v4 → ((c₁.setIp n .v6 none).sess n).ip w=none := by
        intro w hw
        cases w with
        | v4 => exact absurd rfl hw
        | v6 => rw [setIp_ip,if_pos ⟨rfl,rfl⟩]
      have hno : ∀ m x,p (.v4,m)=some x →
          (c₁.setIp n .v6 none).ipKey .v4 x≠(c₁.setIp n .v6 none).ipKey .v4 r := by
        intro m x hx
        rw [hkey,hkey,haddr _ x hx]
        exact hfree4 _ hnext m x hx
      obtain ⟨c₃,hdrop,hrenews⟩ := (h₁.setIp n .v6 none).undone hp hself hother hno
      refine ⟨_,.error cause,?_,hrenews.holds,?_,?_⟩
      · simp only [hdrop,Outcome.bind_ok]
      · intro m hm
        rw [hrenews.others m hm]
        funext w
        rw [setIp_ip,if_neg (by simp [hm]),hip₁,if_neg (by simp [hm])]
      · rw [hrenews.bare,bare_setIp,hbare₁]
    · rw [halloc₁]
      simp only
      generalize hc₂ : (c₁.withUeIps t').setIp n .v6 (some r')=c₂ at h₂
      have hip₂ : ∀ m w,(c₂.sess m).ip w =
          if m=n then some (if w = .v4 then r else r') else (c.sess m).ip w := by
        intro m w
        rw [← hc₂,setIp_ip]
        have hold : ((c₁.withUeIps t').sess m).ip w=(c₁.sess m).ip w := rfl
        rw [hold,hip₁]
        by_cases hm : m=n
        · cases w <;> simp [hm]
        · simp [hm]
      have hkey : ∀ w x,c₂.ipKey w x=(t'.addr x).toList.take w.keyLen := by
        intro w x
        rw [← hc₂]
        rfl
      have hkept : ∀ w m x,p (w,m)=some x → t'.addr x=c.ueIps.addr x := by
        intro w m x hx
        rw [haddr' _ x (hq _ x hx),hueIps₁,haddr _ x hx]
      have hr : t'.addr r=(c.afterIp n .v4).addr r := by
        rw [haddr' (.v4,n) r (update_self ..),hueIps₁]
      have hrenews:=h₂.hashBoth hp (fun w => by rw [hip₂,if_pos rfl]) ?_ ?_
      · refine ⟨_,.ok (),rfl,hrenews.holds,?_,?_⟩
        · intro m hm
          rw [hrenews.others m hm]
          funext w
          rw [hip₂,if_neg hm]
        · rw [hrenews.bare,← hc₂,bare_setIp]
          exact hbare₁
      · intro m x hx
        rw [hkey,hkey,hkept .v4 m x hx,hr]
        exact hfree4 _ hnext m x hx
      · intro m x hx
        rw [hkey,hkey,hkept .v6 m x hx]
        rw [hnext₁] at hnext'
        exact hfree6 (by simp [hnext]) _ hnext' m x hx

end Holds

def Listed (c : Context) (n : Nat) : Prop := ∃ u∈c.ueList,n∈c.sessList u

instance (c : Context) (n : Nat) : Decidable (c.Listed n) :=
  inferInstanceAs (Decidable (∃ u∈c.ueList,n∈c.sessList u))

def pointers (c : Context) : IpVersion × Nat → Option UeIpRef := fun i =>
  if c.Listed i.2 then (c.sess i.2).ip i.1 else none

def released (c : Context) (n : Nat) : UeIps :=
  (c.ueIps.giveBack ((c.sess n).ip .v4)).giveBack ((c.sess n).ip .v6)

def settled (c : Context) (n : Nat) : Context :=
  c.modify n fun x => { x with session := c.settleType (c.sess n).session }

def Unused (c : Context) (n : Nat) (v : IpVersion) (a : Option (Vector Byte 16)) : Prop :=
  ∀ x∈a,∀ u∈c.ueList,∀ m∈c.sessList u,m≠n → ∀ r ∈ (c.sess m).ip v,
    c.ipKey v r≠x.toList.take v.keyLen

instance (c : Context) (n : Nat) (v : IpVersion) (a : Option (Vector Byte 16)) :
    Decidable (c.Unused n v a) :=
  Option.decidableForallMem a

/-- Each address that the session has is replaced, and no address is handed out that another
session has. -/
def Renewed (c : Context) (n : Nat) : Prop :=
  let d:=(c.settled n).withUeIps (c.released n)
  ((d.sess n).session.sessionType=1 →
    (c.sess n).ip .v6=none ∧ c.Unused n .v4 (d.nextIp n .v4)) ∧
  ((d.sess n).session.sessionType=2 →
    (c.sess n).ip .v4=none ∧ c.Unused n .v6 (d.nextIp n .v6)) ∧
  ((d.sess n).session.sessionType=3 →
    ((c.sess n).ip .v6≠none → d.nextIp n .v4≠none) ∧ c.Unused n .v4 (d.nextIp n .v4) ∧
      (d.nextIp n .v4≠none → c.Unused n .v6 ((d.withUeIps (d.afterIp n .v4)).nextIp n .v6)))

instance (c : Context) (n : Nat) : Decidable (c.Renewed n) :=
  inferInstanceAs (Decidable (_ ∧ _ ∧ _))

theorem listed_of_bare (h : c'.bare=c.bare) (m : Nat) : c'.Listed m ↔ c.Listed m := by
  have hues : c'.ueList=c.ueList := congrArg (fun x => x.ueList) h
  have hlists : c'.sessList=c.sessList := congrArg (fun x => x.sessList) h
  unfold Listed
  rw [hues,hlists]

theorem Unused.free {c₂ : Context} {a : Option (Vector Byte 16)} (h : c.Unused n v a)
    (haddr : c₂.ueIps.addr=c.ueIps.addr) :
    c₂.Free (fun i => if i.2=n then none else c.pointers i) v a := by
  intro x hx m r hr
  simp only at hr
  split at hr
  · cases hr
  · rename_i hm
    unfold pointers at hr
    split at hr
    · rename_i hlisted
      obtain ⟨u,hu,hmem⟩ := hlisted
      have hne:=h x hx u hu m hmem hm r hr
      unfold ipKey at hne ⊢
      rw [haddr]
      exact hne
    · cases hr

theorem Renews.settle {c₂ : Context} (hn : c.Listed n) (hbare : c₂.bare=c.bare)
    (hip : ∀ m,m≠n → (c₂.sess m).ip=(c.sess m).ip)
    (h : c₂.Renews (fun i => if i.2=n then none else c.pointers i) n c') :
    c'.Holds c'.pointers c'.pointers ∧ c'.bare=c.bare := by
  have hb:=h.bare.trans hbare
  have heq : c'.pointers = fun i => if i.2=n then (c'.sess n).ip i.1 else
      if i.2=n then none else c.pointers i := by
    funext i
    obtain ⟨w,m⟩ := i
    unfold pointers
    simp only [listed_of_bare hb]
    by_cases hm : m=n
    · subst hm
      rw [if_pos hn,if_pos rfl]
    · rw [if_neg hm,if_neg hm,h.others m hm,hip m hm]
  rw [heq]
  exact ⟨h.holds,hb⟩

theorem Holds.sessSetUeIp (h : c.Holds c.pointers c.pointers) (hn : c.Listed n)
    (hk : c.Renewed n) : (c.smfSessSetUeIp n).Returns fun c' _ =>
      c'.Holds c'.pointers c'.pointers ∧ c'.bare=c.bare := by
  unfold smfSessSetUeIp
  simp only
  split
  · trivial
  · have h₀ : (c.settled n).Holds c.pointers c.pointers := ⟨h.held,h.table⟩
    have hip₀ : ∀ m,((c.settled n).sess m).ip=(c.sess m).ip := by
      intro m
      unfold settled modify
      by_cases hm : m=n
      · simp [hm]
      · simp [hm]
    have hbare₀ : (c.settled n).bare=c.bare := c.bare_modify n fun _ => rfl
    have hlive : ∀ w,c.pointers (w,n)=(c.sess n).ip w := fun w => if_pos hn
    obtain ⟨c₁,hdrop₁,h₁,hueIps₁,haddr₁,hkept₁⟩ := h₀.drop (n := n) (v := .v4)
      (by rw [hlive,hip₀])
    have hsess₁ : c₁.sess=(c.settled n).sess := congrArg (fun x => x.sess) hkept₁
    obtain ⟨c₂,hdrop₂,h₂,hueIps₂,haddr₂,hkept₂⟩ := h₁.drop (n := n) (v := .v6)
      (by rw [update_of_ne (by simp),hlive,hsess₁,hip₀])
    have hsess₂ : c₂.sess=(c.settled n).sess :=
      (congrArg (fun x => x.sess) hkept₂).trans hsess₁
    have hueIps : c₂.ueIps=c.released n := by
      rw [hueIps₂,hueIps₁,hsess₁,hip₀]
      rfl
    have haddr : c₂.ueIps.addr=c.ueIps.addr := haddr₂.trans haddr₁
    have hbare : c₂.bare=c.bare :=
      (bare_of_sansIps hkept₂).trans ((bare_of_sansIps hkept₁).trans hbare₀)
    have hip : ∀ m,(c₂.sess m).ip=(c.sess m).ip := by
      intro m
      rw [hsess₂,hip₀]
    have hbase : c₂.Holds (fun i => if i.2=n then none else c.pointers i)
        (fun i => if i.2=n then none else c.pointers i) := by
      have heq : (fun i : IpVersion × Nat => if i.2=n then none else c.pointers i) =
          update (update c.pointers (.v4,n) none) (.v6,n) none := by
        funext i
        obtain ⟨w,m⟩ := i
        by_cases hm : m=n
        · subst hm
          cases w <;> simp
        · simp [hm]
      rw [heq]
      exact h₂
    have hnext : ∀ v,c₂.nextIp n v=((c.settled n).withUeIps (c.released n)).nextIp n v := by
      intro v
      unfold nextIp
      rw [hsess₂,hueIps]
      rfl
    have hafter : ((c₂.withUeIps (c₂.afterIp n .v4)).nextIp n .v6) =
        (((c.settled n).withUeIps (c.released n)).withUeIps
          (((c.settled n).withUeIps (c.released n)).afterIp n .v4)).nextIp n .v6 := by
      unfold nextIp afterIp
      simp only [withUeIps,hsess₂,hueIps]
    show ((c.settled n).dropIp n .v4 |>.bind _).Returns _
    rw [hdrop₁,Outcome.bind_ok,hdrop₂,Outcome.bind_ok]
    unfold Renewed at hk
    have htype : (c₂.sess n).session.sessionType =
        (((c.settled n).withUeIps (c.released n)).sess n).session.sessionType := by
      rw [hsess₂]
      rfl
    simp only [← htype,← hnext,← hafter] at hk
    obtain ⟨hk₁,hk₂,hk₃⟩ := hk
    have hnone : ∀ w,(fun i : IpVersion × Nat => if i.2=n then none else c.pointers i)
        (w,n)=none := fun w => if_pos rfl
    split
    · rename_i hone
      replace hk₁ := hk₁ (Fin.ext hone)
      have hother : ∀ w,w ≠ .v4 → (c₂.sess n).ip w=none := by
        intro w hw
        cases w with
        | v4 => exact absurd rfl hw
        | v6 => rw [hip,hk₁.1]
      obtain ⟨c',res,hcall,hrenews⟩ := hbase.setOneIp hnone hother (hk₁.2.free haddr)
      rw [hcall]
      exact hrenews.settle hn hbare fun m _ => hip m
    · rename_i htwo
      replace hk₂ := hk₂ (Fin.ext htwo)
      have hother : ∀ w,w ≠ .v6 → (c₂.sess n).ip w=none := by
        intro w hw
        cases w with
        | v4 => rw [hip,hk₂.1]
        | v6 => exact absurd rfl hw
      obtain ⟨c',res,hcall,hrenews⟩ := hbase.setOneIp hnone hother (hk₂.2.free haddr)
      rw [hcall]
      exact hrenews.settle hn hbare fun m _ => hip m
    · rename_i hthree
      obtain ⟨h6,hunused4,hunused6⟩ := hk₃ (Fin.ext hthree)
      obtain ⟨c',res,hcall,hrenews⟩ := hbase.setBothIps hnone (by rw [hip]; exact h6)
        (hunused4.free haddr) fun hsome => (hunused6 hsome).free haddr
      rw [hcall]
      exact hrenews.settle hn hbare fun m _ => hip m
    · trivial

end Context

end OgsDp.Smf
