import OgsDp.Df.SessionTable
import OgsDp.Pfcp.UeIpHolders

/-!
# What the DF takes and gives back (src/df/context.c)

`df_sess_set_ue_ip` gives the addresses of a session back before it takes others, and its pointers
stay until they are replaced.
-/

namespace OgsDp.Df
open Lib RefTable OgsDp.Core Function Option
open Pfcp hiding Context contextInit

def Sess.ip (x : Sess) : Family → Option UeIpRef
  | .inet => x.ipv4
  | .inet6 => x.ipv6
  | .unspec => none

namespace Context

variable {c c' : Context} {n m k : Nat} {v w : Family} {r : UeIpRef} {t : UeIps} {wanted : Bool}
  {dnn : Option (List Byte)} {addr : List Byte}

def dropIp (c : Context) (n : Nat) : Family → Outcome Context Unit
  | .inet => c.dropIpv4 n
  | .inet6 => c.dropIpv6 n
  | .unspec => .ok c ()

def takeIp (c : Context) (n : Nat) (v : Family) (wanted : Bool) (dnn : Option (List Byte))
    (addr : List Byte) : Context × Except Refusal Unit :=
  match v with
  | .inet => c.takeIpv4 n wanted dnn addr
  | .inet6 => c.takeIpv6 n wanted dnn addr
  | .unspec => (c,.ok ())

structure Beside (c : Context) (n : Nat) (v : Family) (c' : Context) : Prop where
  others : ∀ m w,¬ (m=n ∧ w=v) → (c'.sess m).ip w=(c.sess m).ip w
  sessList : c'.sessList=c.sessList
  sessPool : c'.sessPool=c.sessPool

theorem beside_of_sess (hsess : c'.sess=c.sess) (hlist : c'.sessList=c.sessList)
    (hpool : c'.sessPool=c.sessPool) : Beside c n v c' where
  others := by
    intro m w _
    rw [hsess]
  sessList := hlist
  sessPool := hpool

theorem dropIp_some (h : (c.sess n).ip v=some r) (hfree : c.ueIps.free r = .ok t ()) :
    ∃ c',c.dropIp n v = .ok c' () ∧ c'.ueIps=t ∧ c'.sess=c.sess ∧
      c'.sessList=c.sessList ∧ c'.sessPool=c.sessPool := by
  cases v with
  | inet =>
    refine ⟨(c.unsetIpv4 r).withUeIps t,?_,rfl,rfl,rfl,rfl⟩
    simp only [dropIp,dropIpv4,show (c.sess n).ipv4=some r from h]
    rw [show (c.unsetIpv4 r).ueIps.free r = .ok t () from hfree]
    rfl
  | inet6 =>
    refine ⟨(c.unsetIpv6 r).withUeIps t,?_,rfl,rfl,rfl,rfl⟩
    simp only [dropIp,dropIpv6,show (c.sess n).ipv6=some r from h]
    rw [show (c.unsetIpv6 r).ueIps.free r = .ok t () from hfree]
    rfl
  | unspec => cases h

theorem dropIp_none (h : (c.sess n).ip v=none) : c.dropIp n v = .ok c () := by
  cases v with
  | inet => simp only [dropIp,dropIpv4,show (c.sess n).ipv4=none from h]
  | inet6 => simp only [dropIp,dropIpv6,show (c.sess n).ipv6=none from h]
  | unspec => rfl

theorem takeIp_wanted (c : Context) (n : Nat) (hv : v ≠ .unspec) (dnn : Option (List Byte))
    (addr : List Byte) :
    let a:=c.ueIps.alloc v dnn addr
    let s:=c.takeIp n v true dnn addr
    s.1.ueIps=a.1 ∧ Beside c n v s.1 ∧
      match a.2 with
      | .ok r => s.2 = .ok () ∧ (s.1.sess n).ip v=some r
      | .error cause => s.2 = .error ⟨cause,none⟩ ∧ (s.1.sess n).ip v=none := by
  have hothers (f : Sess → Sess) (hf : ∀ x w,w≠v → (f x).ip w=x.ip w) (m : Nat) (w : Family)
      (hmw : ¬ (m=n ∧ w=v)) :
      (update c.sess n (f (c.sess n)) m).ip w=(c.sess m).ip w := by
    by_cases hm : m=n
    · subst hm
      rw [update_self]
      exact hf _ w fun hw => hmw ⟨rfl,hw⟩
    · rw [update_of_ne hm]
  cases v with
  | unspec => exact absurd rfl hv
  | inet =>
    simp only [takeIp,takeIpv4,if_true]
    cases ha : c.ueIps.alloc .inet dnn addr with
    | mk t res =>
      have hf : ∀ (o : Option UeIpRef) (x : Sess) (w : Family),w ≠ .inet →
          Sess.ip { x with ipv4 := o } w=x.ip w := by
        intro o x w hw
        cases w <;> first | rfl | exact absurd rfl hw
      cases res with
      | ok r =>
        refine ⟨rfl,⟨hothers (fun x => { x with ipv4 := some r }) (hf _),rfl,rfl⟩,rfl,?_⟩
        simp [modify,Sess.ip]
      | error cause =>
        refine ⟨rfl,⟨hothers (fun x => { x with ipv4 := none }) (hf _),rfl,rfl⟩,rfl,?_⟩
        simp [modify,Sess.ip]
  | inet6 =>
    simp only [takeIp,takeIpv6,if_true]
    cases ha : c.ueIps.alloc .inet6 dnn addr with
    | mk t res =>
      have hf : ∀ (o : Option UeIpRef) (x : Sess) (w : Family),w ≠ .inet6 →
          Sess.ip { x with ipv6 := o } w=x.ip w := by
        intro o x w hw
        cases w <;> first | rfl | exact absurd rfl hw
      cases res with
      | ok r =>
        refine ⟨rfl,⟨hothers (fun x => { x with ipv6 := some r }) (hf _),rfl,rfl⟩,rfl,?_⟩
        simp [modify,Sess.ip]
      | error cause =>
        refine ⟨rfl,⟨hothers (fun x => { x with ipv6 := none }) (hf _),rfl,rfl⟩,rfl,?_⟩
        simp [modify,Sess.ip]

variable {p : Family × Nat → Option UeIpRef}

theorem drop_held (h : c.ueIps.HeldBy p) (hp : p (v,k)=(c.sess n).ip v) :
    ∃ c',c.dropIp n v = .ok c' () ∧ c'.ueIps.HeldBy (update p (v,k) none) ∧
      c'.ueIps=c.ueIps.giveBack ((c.sess n).ip v) ∧ c'.sess=c.sess ∧
      c'.sessList=c.sessList ∧ c'.sessPool=c.sessPool := by
  cases hip : (c.sess n).ip v with
  | none =>
    rw [hip] at hp
    refine ⟨c,dropIp_none hip,?_,rfl,rfl,rfl,rfl⟩
    rw [← hp,update_eq_self]
    exact h
  | some r =>
    rw [hip] at hp
    obtain ⟨t,hfree,hheld,-,-⟩ := h.free hp
    obtain ⟨c',hdrop,hueIps,hsess,hlist,hpool⟩ := dropIp_some hip hfree
    refine ⟨c',hdrop,hueIps ▸ hheld,?_,hsess,hlist,hpool⟩
    rw [hueIps,UeIps.giveBack,elim_some,hfree]
    rfl

structure Took (c : Context) (p : Family × Nat → Option UeIpRef) (n k : Nat) (v : Family)
    (wanted : Bool) (next : Option (Vector Byte 16)) (s : Context × Except Refusal Unit) :
    Prop where
  held : s.1.ueIps.HeldBy (update p (v,k) ((s.1.sess n).ip v))
  beside : Beside c n v s.1
  refused : ∀ e,s.2 = .error e → wanted=true ∧ next=none
  taken : s.2 = .ok () → wanted=true → next≠none

theorem take_held (h : c.ueIps.HeldBy p) (hv : v ≠ .unspec) (hp : p (v,k)=none)
    (hptr : wanted=false → (c.sess n).ip v=none) (dnn : Option (List Byte))
    (addr : List Byte) :
    Took c p n k v wanted (c.ueIps.next v dnn addr) (c.takeIp n v wanted dnn addr) := by
  cases wanted with
  | false =>
    have hsame : c.takeIp n v false dnn addr=(c,.ok ()) := by cases v <;> rfl
    rw [hsame]
    refine ⟨?_,beside_of_sess rfl rfl rfl,?_,?_⟩
    · rw [hptr rfl,← hp,update_eq_self]
      exact h
    · intro e he
      cases he
    · intro _ hno
      cases hno
  | true =>
    obtain ⟨hueIps,hbeside,hres⟩ := takeIp_wanted c n hv dnn addr
    cases ha : (c.ueIps.alloc v dnn addr).2 with
    | ok r =>
      simp only [ha] at hres
      obtain ⟨hheld,hnext,-⟩ := h.alloc_ok hp (Prod.ext rfl ha)
      refine ⟨?_,hbeside,?_,?_⟩
      · rw [hres.2,hueIps]
        exact hheld
      · intro e he
        rw [hres.1] at he
        cases he
      · intro _ _ hno
        rw [hnext] at hno
        cases hno
    | error cause =>
      simp only [ha] at hres
      obtain ⟨hsame,hnext⟩ := h.alloc_error (Prod.ext rfl ha)
      refine ⟨?_,hbeside,?_,?_⟩
      · rw [hres.2,show _=c.ueIps from hueIps.trans hsame,← hp,update_eq_self]
        exact h
      · intro e _
        exact ⟨rfl,hnext⟩
      · intro hno
        rw [hres.1] at hno
        cases hno

def released (c : Context) (n : Nat) : UeIps :=
  (c.ueIps.giveBack (c.sess n).ipv4).giveBack (c.sess n).ipv6

/-- Every address that the session has is replaced, or its pointer is cleared. -/
def Replaced (c : Context) (n : Nat) (sessionType : Byte) (x : PdrUp) : Prop :=
  let wanted4:=x.ipv4 || x.dnn.isSome
  let wanted6:=x.ipv6 || x.dnn.isSome
  match sessionType.val with
  | 1 => (c.sess n).ipv6=none ∧ (wanted4=false → (c.sess n).ipv4=none)
  | 2 => (c.sess n).ipv4=none ∧ (wanted6=false → (c.sess n).ipv6=none)
  | 3 =>
    (wanted4=false → (c.sess n).ipv4=none) ∧
      ((c.sess n).ipv6≠none → wanted6=true ∧
        (wanted4=true → (c.released n).next .inet x.dnn x.bothAddr≠none))
  | _ => (c.sess n).ipv4=none ∧ (c.sess n).ipv6=none

/-- In the end the session holds what its pointers say, and the others what they held. -/
structure Renews (c : Context) (p : Family × Nat → Option UeIpRef) (n k : Nat) (c' : Context) :
    Prop where
  held : ∃ p',c'.ueIps.HeldBy p' ∧ (∀ v,p' (v,k)=(c'.sess n).ip v) ∧
    ∀ i,i.2≠k → p' i=p i
  others : ∀ m w,m≠n → (c'.sess m).ip w=(c.sess m).ip w
  sessList : c'.sessList=c.sessList
  sessPool : c'.sessPool=c.sessPool

def without (p : Family × Nat → Option UeIpRef) (k : Nat) : Family × Nat → Option UeIpRef :=
  fun i => if i.2=k then none else p i

theorem without_self (p : Family × Nat → Option UeIpRef) (v : Family) (k : Nat) :
    without p k (v,k)=none := if_pos rfl

theorem without_of_ne {i : Family × Nat} (hi : i.2≠k) : without p k i=p i := if_neg hi

theorem drops_held (h : c.ueIps.HeldBy p) (hp : ∀ v,p (v,k)=(c.sess n).ip v) :
    ∃ c₁ c₂,c.dropIpv4 n = .ok c₁ () ∧ c₁.dropIpv6 n = .ok c₂ () ∧
      c₂.ueIps.HeldBy (without p k) ∧ c₂.ueIps=c.released n ∧ c₂.sess=c.sess ∧
      c₂.sessList=c.sessList ∧ c₂.sessPool=c.sessPool := by
  obtain ⟨c₁,hdrop₁,h₁,hueIps₁,hsess₁,hlist₁,hpool₁⟩ := drop_held h (hp .inet)
  have hp₁ : update p (.inet,k) none (.inet6,k)=(c₁.sess n).ip .inet6 := by
    rw [update_of_ne (by simp),hsess₁]
    exact hp .inet6
  obtain ⟨c₂,hdrop₂,h₂,hueIps₂,hsess₂,hlist₂,hpool₂⟩ := drop_held h₁ hp₁
  refine ⟨c₁,c₂,hdrop₁,hdrop₂,?_,?_,hsess₂.trans hsess₁,hlist₂.trans hlist₁,
    hpool₂.trans hpool₁⟩
  · have heq : without p k =
        update (update p (.inet,k) none) (.inet6,k) none := by
      funext i
      obtain ⟨w,m⟩ := i
      by_cases hm : m=k
      · subst hm
        cases w with
        | inet => simp [without]
        | inet6 => simp [without]
        | unspec => simpa [without,Sess.ip] using (hp .unspec).symm
      · simp [without,hm]
    rw [heq]
    exact h₂
  · rw [hueIps₂,hsess₁,hueIps₁]
    rfl

structure Bare (c : Context) (p : Family × Nat → Option UeIpRef) (n k : Nat) (c₂ : Context) :
    Prop where
  held : c₂.ueIps.HeldBy (without p k)
  ueIps : c₂.ueIps=c.released n
  sess : c₂.sess=c.sess
  sessList : c₂.sessList=c.sessList
  sessPool : c₂.sessPool=c.sessPool

variable {c₂ c₃ c₄ : Context} {next next₆ : Option (Vector Byte 16)} {wanted₆ : Bool}
  {e e₆ : Except Refusal Unit}

theorem Bare.none (hb : Bare c p n k c₂) (h4 : (c.sess n).ipv4=none)
    (h6 : (c.sess n).ipv6=none) : Renews c p n k c₂ where
  held := by
    refine ⟨without p k,hb.held,?_,fun i hi => without_of_ne hi⟩
    intro v
    rw [without_self,hb.sess]
    cases v with
    | inet => exact h4.symm
    | inet6 => exact h6.symm
    | unspec => rfl
  others := by
    intro m w _
    rw [hb.sess]
  sessList := hb.sessList
  sessPool := hb.sessPool

theorem Bare.one (hb : Bare c p n k c₂) (hother : ∀ w,w≠v → (c.sess n).ip w = .none)
    (htook : Took c₂ (without p k) n k v wanted next (c₃,e)) : Renews c p n k c₃ where
  held := by
    refine ⟨_,htook.held,?_,?_⟩
    · intro w
      by_cases hw : w=v
      · subst hw
        rw [update_self]
      · rw [update_of_ne (by simp [hw]),without_self,
          htook.beside.others n w (by simp [hw]),hb.sess,hother w hw]
    · intro i hi
      rw [update_of_ne (by rintro rfl; exact hi rfl),without_of_ne hi]
  others := by
    intro m w hm
    rw [htook.beside.others m w (fun h => hm h.1),hb.sess]
  sessList := htook.beside.sessList.trans hb.sessList
  sessPool := htook.beside.sessPool.trans hb.sessPool

theorem Bare.both (hb : Bare c p n k c₂)
    (htook : Took c₂ (without p k) n k .inet wanted next (c₃,e))
    (htook₆ : Took c₃ (update (without p k) (.inet,k) ((c₃.sess n).ip .inet)) n k .inet6
      wanted₆ next₆ (c₄,e₆)) : Renews c p n k c₄ where
  held := by
    refine ⟨_,htook₆.held,?_,?_⟩
    · intro w
      cases w with
      | inet =>
        rw [update_of_ne (by simp),update_self]
        exact (htook₆.beside.others n .inet (by simp)).symm
      | inet6 => rw [update_self]
      | unspec =>
        rw [update_of_ne (by simp),update_of_ne (by simp),without_self]
        rfl
    · intro i hi
      rw [update_of_ne (by rintro rfl; exact hi rfl),
        update_of_ne (by rintro rfl; exact hi rfl),without_of_ne hi]
  others := by
    intro m w hm
    rw [htook₆.beside.others m w (fun h => hm h.1),htook.beside.others m w (fun h => hm h.1),
      hb.sess]
  sessList := htook₆.beside.sessList.trans (htook.beside.sessList.trans hb.sessList)
  sessPool := htook₆.beside.sessPool.trans (htook.beside.sessPool.trans hb.sessPool)

theorem Renews.undo (h : Renews c p n k c₄) :
    ∃ c',c₄.undoIpv4 n = .ok c' () ∧ Renews c p n k c' := by
  obtain ⟨p',hheld,hp',hothers⟩ := h.held
  obtain ⟨c₅,hdrop,h₅,-,hsess,hlist,hpool⟩ := drop_held hheld (hp' .inet)
  refine ⟨c₅.modify n fun x => { x with ipv4 := .none },?_,⟨⟨_,h₅,?_,?_⟩,?_,
    hlist.trans h.sessList,hpool.trans h.sessPool⟩⟩
  · rw [undoIpv4,show c₄.dropIpv4 n = .ok c₅ () from hdrop]
    rfl
  · intro w
    simp only [modify,update_self,hsess]
    cases w with
    | inet => rw [update_self]; rfl
    | inet6 => rw [update_of_ne (by simp),hp']; rfl
    | unspec => rw [update_of_ne (by simp),hp']; rfl
  · intro i hi
    rw [update_of_ne (by rintro rfl; exact hi rfl),hothers i hi]
  · intro m w hm
    simp only [modify,update_of_ne hm,hsess]
    exact h.others m w hm

theorem sessSetUeIp_renews {sessionType : Byte} {x : PdrUp} (h : c.ueIps.HeldBy p)
    (hp : ∀ v,p (v,k)=(c.sess n).ip v) (hk : c.Replaced n sessionType x) :
    ∃ c' res,c.sessSetUeIp n sessionType x = .ok c' res ∧ Renews c p n k c' := by
  obtain ⟨c₁,c₂,hdrop₁,hdrop₂,h₂,hueIps,hsess,hlist,hpool⟩ := drops_held h hp
  have hb : Bare c p n k c₂ := ⟨h₂,hueIps,hsess,hlist,hpool⟩
  unfold sessSetUeIp
  rw [hdrop₁,Outcome.bind_ok,hdrop₂,Outcome.bind_ok]
  unfold Replaced at hk
  generalize sessionType.val=type at hk ⊢
  rcases type with _ | _ | _ | _ | type
  · exact ⟨c₂,_,rfl,hb.none hk.1 hk.2⟩
  · obtain ⟨h6,h4⟩ := hk
    have htook:=take_held (n := n) (v := .inet) h₂ (by simp) (without_self p .inet k)
      (fun hw => by rw [hsess]; exact h4 hw) x.dnn x.addr
    refine ⟨_,_,rfl,hb.one ?_ htook⟩
    intro w hw
    cases w with
    | inet => exact absurd rfl hw
    | inet6 => exact h6
    | unspec => rfl
  · obtain ⟨h4,h6⟩ := hk
    have htook:=take_held (n := n) (v := .inet6) h₂ (by simp) (without_self p .inet6 k)
      (fun hw => by rw [hsess]; exact h6 hw) x.dnn x.addr
    refine ⟨_,_,rfl,hb.one ?_ htook⟩
    intro w hw
    cases w with
    | inet => exact h4
    | inet6 => exact absurd rfl hw
    | unspec => rfl
  · obtain ⟨h4,h6⟩ := hk
    have htook:=take_held (n := n) (v := .inet) h₂ (by simp) (without_self p .inet k)
      (fun hw => by rw [hsess]; exact h4 hw) x.dnn x.bothAddr
    rw [hueIps] at htook
    cases htake : c₂.takeIpv4 n (x.ipv4 || x.dnn.isSome) x.dnn x.bothAddr with
    | mk c₃ u =>
      rw [takeIp,htake] at htook
      cases u with
      | error e =>
        obtain ⟨hwanted,hnone⟩ := htook.refused e rfl
        refine ⟨c₃,.error e,rfl,hb.one ?_ htook⟩
        intro w hw
        cases w with
        | inet => exact absurd rfl hw
        | inet6 =>
          by_contra hno
          exact (h6 hno).2 hwanted hnone
        | unspec => rfl
      | ok u =>
        have hp₃ : update (without p k) (.inet,k) ((c₃.sess n).ip .inet) (.inet6,k) =
            .none := by
          rw [update_of_ne (by simp),without_self]
        have hptr₃ (hw : (x.ipv6 || x.dnn.isSome)=false) : (c₃.sess n).ip .inet6 = .none := by
          rw [htook.beside.others n .inet6 (by simp),hsess]
          by_contra hno
          exact absurd (h6 hno).1 (by simp [hw])
        have htook₆:=take_held (n := n) (v := .inet6) htook.held (by simp) hp₃ hptr₃ x.dnn
          x.bothAddr
        cases htake₆ : c₃.takeIpv6 n (x.ipv6 || x.dnn.isSome) x.dnn x.bothAddr with
        | mk c₄ u' =>
          rw [takeIp,htake₆] at htook₆
          have hrenews:=hb.both htook htook₆
          cases u' with
          | error e =>
            obtain ⟨c',hundo,hrenews'⟩ := hrenews.undo
            refine ⟨c',.error e,?_,hrenews'⟩
            simp only [htake₆,hundo,Outcome.bind_ok]
          | ok u' =>
            refine ⟨c₄,.ok (),?_,hrenews⟩
            simp only [htake₆]
  · exact ⟨c₂,_,rfl,hb.none hk.1 hk.2⟩

theorem unsetIps_frame (c : Context) (r4 r6 : Option UeIpRef) :
    (c.unsetIps r4 r6).sessList=c.sessList ∧ (c.unsetIps r4 r6).sess=c.sess ∧
      (c.unsetIps r4 r6).ueIps=c.ueIps ∧ (c.unsetIps r4 r6).sessPool=c.sessPool := by
  cases r4 <;> cases r6 <;> exact ⟨rfl,rfl,rfl,rfl⟩

theorem unsetTeid_frame (c : Context) (teid : BitVec 32) :
    (c.unsetTeid teid).sessList=c.sessList ∧ (c.unsetTeid teid).sess=c.sess ∧
      (c.unsetTeid teid).ueIps=c.ueIps ∧ (c.unsetTeid teid).sessPool=c.sessPool := by
  unfold unsetTeid
  split_ifs <;> exact ⟨rfl,rfl,rfl,rfl⟩

theorem sessRemove_frame (c : Context) (n : Nat) :
    (c.sessRemove n).sessList=c.sessList.erase n ∧ (c.sessRemove n).sess=c.sess ∧
      (c.sessRemove n).ueIps=c.ueIps ∧ (c.sessRemove n).sessPool=c.sessPool.release n := by
  unfold Context.sessRemove
  generalize hu : unsetSeids _ n=u
  obtain ⟨hlist,hsess,hueIps,hpool⟩ := unsetIps_frame u (c.sess n).ipv4 (c.sess n).ipv6
  obtain ⟨hlist',hsess',hueIps',hpool'⟩ := unsetTeid_frame
    (u.unsetIps (c.sess n).ipv4 (c.sess n).ipv6) (c.sess n).ranTeid
  subst hu
  simp only [hlist',hlist,hsess',hsess,hueIps',hueIps,hpool',hpool]
  exact ⟨rfl,rfl,rfl,rfl⟩

/-- `p` says what each establishment holds, and `born` which one a session comes from; there were
`count` of them. -/
structure Holding (c : Context) (p : Family × Nat → Option UeIpRef) (born : Nat → Nat)
    (count : Nat) : Prop where
  held : c.ueIps.HeldBy p
  points : ∀ n∈c.sessList,∀ v,p (v,born n)=(c.sess n).ip v
  apart : ∀ m∈c.sessList,∀ n∈c.sessList,born m=born n → m=n
  past : ∀ n∈c.sessList,born n<count
  unborn : ∀ v k,count≤k → p (v,k)=none
  pool : ∃ q,Pool.Split c.sessPool q c.sessList

variable {born : Nat → Nat} {count : Nat}

namespace Holding

theorem sessSetUeIp {sessionType : Byte} {x : PdrUp} (h : Holding c p born count)
    (hn : n∈c.sessList) (hk : c.Replaced n sessionType x) :
    ∃ c' res p',c.sessSetUeIp n sessionType x = .ok c' res ∧ Holding c' p' born count ∧
      c'.sessList=c.sessList := by
  obtain ⟨c',res,hcall,hrenews⟩ := sessSetUeIp_renews h.held (h.points n hn) hk
  obtain ⟨p',hheld,hself,hothers⟩ := hrenews.held
  refine ⟨c',res,p',hcall,⟨hheld,?_,?_,?_,?_,?_⟩,hrenews.sessList⟩
  · intro m hm v
    rw [hrenews.sessList] at hm
    by_cases hmn : m=n
    · subst hmn
      exact hself v
    · have hborn : born m≠born n := fun heq => hmn (h.apart m hm n hn heq)
      rw [hothers (v,born m) hborn,hrenews.others m v hmn]
      exact h.points m hm v
  · rw [hrenews.sessList]
    exact h.apart
  · rw [hrenews.sessList]
    exact h.past
  · intro v k hk'
    have hlt:=h.past n hn
    have hne : k≠born n := by omega
    rw [hothers (v,k) hne]
    exact h.unborn v k hk'
  · rw [hrenews.sessList,hrenews.sessPool]
    exact h.pool

theorem sessAdd (h : Holding c p born count) (fSeid : Vector Byte 29) :
    (c.sessAdd fSeid).Returns fun c' n => c'.sessList=c.sessList++[n] ∧
      Holding c' p (update born n count) (count+1) := by
  obtain ⟨q,hs⟩ := h.pool
  unfold Context.sessAdd
  cases q with
  | nil => simp [Pool.alloc_of_nil hs.queue]
  | cons n q =>
    obtain ⟨pool,hpool,hs',-⟩ := hs.alloc
    have hnew:=hs.not_live_of_free (List.mem_cons_self ..)
    have hborn : ∀ m∈c.sessList,update born n count m=born m := by
      intro m hm
      apply update_of_ne
      rintro rfl
      exact hnew hm
    simp only [hpool]
    refine ⟨rfl,⟨h.held,?_,?_,?_,?_,q,hs'⟩⟩
    · intro m hm v
      rcases List.mem_append.mp hm with hold | hone
      · have hne : m≠n := fun heq => hnew (heq ▸ hold)
        rw [hborn m hold,h.points m hold v]
        simp [setSeids,update_of_ne hne]
      · obtain rfl := List.mem_singleton.mp hone
        rw [update_self,h.unborn v count (Nat.le_refl _)]
        cases v <;> simp [setSeids,Sess.ip,Sess.zero]
    · intro m hm m' hm' heq
      have hlt:=h.past
      rcases List.mem_append.mp hm with hm | hm
      · rw [hborn m hm] at heq
        rcases List.mem_append.mp hm' with hm' | hm'
        · rw [hborn m' hm'] at heq
          exact h.apart m hm m' hm' heq
        · rw [List.mem_singleton.mp hm',update_self] at heq
          have hm'':=h.past m hm
          omega
      · rw [List.mem_singleton.mp hm,update_self] at heq
        rcases List.mem_append.mp hm' with hm' | hm'
        · rw [hborn m' hm'] at heq
          have hm'':=h.past m' hm'
          omega
        · exact (List.mem_singleton.mp hm).trans (List.mem_singleton.mp hm').symm
    · intro m hm
      rcases List.mem_append.mp hm with hm | hm
      · rw [hborn m hm]
        have hlt:=h.past m hm
        omega
      · rw [List.mem_singleton.mp hm,update_self]
        omega
    · intro v k hk
      exact h.unborn v k (by omega)

theorem sessRemove (h : Holding c p born count) (hn : n∈c.sessList) :
    (c.sessRemove n).sessList=c.sessList.erase n ∧
      Holding (c.sessRemove n) p born count := by
  obtain ⟨q,hs⟩ := h.pool
  have hsub : ∀ m,m∈c.sessList.erase n → m∈c.sessList := fun m => List.mem_of_mem_erase
  obtain ⟨hlist,hsess,hueIps,hpool⟩ := sessRemove_frame c n
  refine ⟨hlist,⟨?_,?_,?_,?_,h.unborn,?_⟩⟩
  · rw [hueIps]
    exact h.held
  · intro m hm v
    rw [hlist] at hm
    rw [hsess]
    exact h.points m (hsub m hm) v
  · intro m hm m' hm' heq
    rw [hlist] at hm hm'
    exact h.apart m (hsub m hm) m' (hsub m' hm') heq
  · intro m hm
    rw [hlist] at hm
    exact h.past m (hsub m hm)
  · rw [hlist,hpool]
    exact ⟨_,hs.release hn⟩

end Holding

end Context

/-- The DF, and how many id pools `ogs_pfcp_pool_init` has made that nothing has destroyed. -/
structure Stock where
  ctx : Context
  idPools : Nat

namespace Stock

def idPoolsOfSess : Nat := 5

inductive Op where
  | add (cpFSeid : Option (Vector Byte 29))
  | setUeIp (n : Nat) (sessionType : Byte) (x : PdrUp)
  | remove (n : Nat)

def step (t : Stock) : Op → Option (Outcome Stock Unit)
  | .add cpFSeid =>
    some <|
      match t.ctx.sessAddByMessage cpFSeid with
      | .ok c none => .ok ⟨c,t.idPools⟩ ()
      | .ok c (some _) => .ok ⟨c,t.idPools+idPoolsOfSess⟩ ()
      | .abort c => .abort ⟨c,t.idPools⟩
  | .setUeIp n sessionType x =>
    if n∈t.ctx.sessList then
      some <|
        match t.ctx.sessSetUeIp n sessionType x with
        | .ok c _ => .ok ⟨c,t.idPools⟩ ()
        | .abort c => .abort ⟨c,t.idPools⟩
    else none
  | .remove n =>
    if n∈t.ctx.sessList then some (.ok ⟨t.ctx.sessRemove n,t.idPools⟩ ()) else none

def init (poolSess : Nat) (up : Up) (subnets : List Subnet) (seeds : Seeds) : Stock :=
  ⟨contextInit poolSess up subnets seeds,0⟩

/-- The pointers lead to addresses in use, each to its own; no node of a pool is free twice; and
where there is no session, nothing is in use. -/
structure Conserved (t : Stock) : Prop where
  allocated : ∀ n∈t.ctx.sessList,∀ v r,(t.ctx.sess n).ip v=some r → t.ctx.ueIps.Allocated r
  own : ∀ m∈t.ctx.sessList,∀ n∈t.ctx.sessList,∀ v w r,
    (t.ctx.sess m).ip v=some r → (t.ctx.sess n).ip w=some r → m=n ∧ v=w
  balanced : ∀ s,∃ free used,Pool.Split (t.ctx.ueIps.pool s) free used
  returned : t.ctx.sessList=[] →
    (∀ r,¬ t.ctx.ueIps.Allocated r) ∧ t.ctx.sessPool.avail=t.ctx.sessPool.size ∧ t.idPools=0

def Keeps (t : Stock) : Op → Prop
  | .add _ => True
  | .setUeIp n sessionType x => t.ctx.Replaced n sessionType x
  | .remove n => t.ctx.sessList≠[n]

def GivesBackOnce (_ : Stock) : Op → Outcome Stock Unit → Prop
  | .add _, _ => True
  | _, .ok .. => True
  | _, .abort .. => False

structure Settled (t : Stock) : Prop where
  holding : ∃ p born count,Context.Holding t.ctx p born count ∧
    t.idPools=idPoolsOfSess*count ∧ (t.ctx.sessList=[] → count=0)

variable {t t' : Stock} {n : Nat}

theorem settled_init (poolSess : Nat) (up : Up) (subnets : List Subnet) (seeds : Seeds) :
    (init poolSess up subnets seeds).Settled where
  holding := by
    refine ⟨fun _ => none,id,0,⟨UeIps.HeldBy.init subnets,?_,?_,?_,fun _ _ _ => rfl,
      _,Pool.split_init poolSess⟩,rfl,fun _ => rfl⟩
    · intro n hn
      cases hn
    · intro n hn
      cases hn
    · intro n hn
      cases hn

theorem Settled.conserved (h : t.Settled) : t.Conserved := by
  obtain ⟨p,born,count,hholding,hidPools,hnone⟩ := h.holding
  refine ⟨?_,?_,?_,?_⟩
  · intro n hn v r hr
    exact hholding.held.allocated ((hholding.points n hn v).trans hr)
  · intro m hm n hn v w r hv hw
    have heq:=hholding.held.inj _ _ r ((hholding.points m hm v).trans hv)
      ((hholding.points n hn w).trans hw)
    exact ⟨hholding.apart m hm n hn (Prod.mk.inj heq).2,(Prod.mk.inj heq).1⟩
  · intro s
    obtain ⟨q,nodes,hsplit,-⟩ := hholding.held.pool s
    exact ⟨q,nodes,hsplit⟩
  · intro hempty
    have hcount:=hnone hempty
    have hnobody : ∀ i,p i=none := fun i => hholding.unborn i.1 i.2 (by omega)
    refine ⟨?_,?_,?_⟩
    · intro r hr
      cases r with
      | dynamic s k =>
        obtain ⟨q,nodes,hsplit,hmem⟩ := hholding.held.pool s
        have hno : k∉nodes := by
          rw [hmem]
          rintro ⟨i,hi⟩
          rw [hnobody i] at hi
          cases hi
        rw [UeIps.Allocated,hsplit.index_free k hno] at hr
        cases hr
      | static b =>
        obtain ⟨i,hi⟩ := (hholding.held.block b).mp hr
        rw [hnobody i] at hi
        cases hi
    · obtain ⟨q,hs⟩ := hholding.pool
      have hlen:=hs.length_add
      rw [hempty,List.length_nil,Nat.add_zero] at hlen
      exact hs.queue.length_eq.symm.trans hlen
    · rw [hidPools,hcount,Nat.mul_zero]

theorem Settled.add (h : t.Settled) (cpFSeid : Option (Vector Byte 29)) {o : Outcome Stock Unit}
    (ho : t.step (.add cpFSeid)=some o) : o.Leaves Settled fun _ => True := by
  obtain ⟨p,born,count,hholding,hidPools,hnone⟩ := h.holding
  obtain rfl := some.inj ho
  unfold Context.sessAddByMessage
  cases cpFSeid with
  | none => exact h
  | some fSeid =>
    simp only
    by_cases haddr : Context.hasAddress fSeid=true
    · rw [if_pos haddr]
      have hadd:=hholding.sessAdd fSeid
      cases hcall : t.ctx.sessAdd fSeid with
      | ok c n =>
        rw [hcall] at hadd
        obtain ⟨hlist,hholding'⟩ := hadd
        refine ⟨⟨p,_,count+1,hholding',?_,?_⟩⟩
        · rw [Nat.mul_succ,← hidPools]
        · intro hempty
          rw [show _=t.ctx.sessList++[n] from hlist] at hempty
          simp at hempty
      | abort c => trivial
    · rw [if_neg haddr]
      exact h

theorem Settled.step {op : Op} {o : Outcome Stock Unit} (h : t.Settled) (hcond : t.Keeps op)
    (ho : t.step op=some o) : t.GivesBackOnce op o ∧ o.Leaves Settled fun _ => True := by
  cases op with
  | add cpFSeid => exact ⟨trivial,h.add cpFSeid ho⟩
  | setUeIp n sessionType x =>
    obtain ⟨p,born,count,hholding,hidPools,hnone⟩ := h.holding
    simp only [Stock.step] at ho
    split at ho
    · rename_i hn
      obtain rfl := some.inj ho
      obtain ⟨c,res,p',hcall,hholding',hlist⟩ := hholding.sessSetUeIp hn hcond
      rw [hcall]
      refine ⟨trivial,⟨p',born,count,hholding',hidPools,?_⟩⟩
      intro hempty
      exact hnone (hlist.symm.trans hempty)
    · cases ho
  | remove n =>
    obtain ⟨p,born,count,hholding,hidPools,hnone⟩ := h.holding
    simp only [Stock.step] at ho
    split at ho
    · rename_i hn
      obtain rfl := some.inj ho
      obtain ⟨hlist,hholding'⟩ := hholding.sessRemove hn
      refine ⟨trivial,⟨p,born,count,hholding',hidPools,?_⟩⟩
      intro hempty
      obtain ⟨q,hs⟩ := hholding.pool
      rw [show _=t.ctx.sessList.erase n from hlist] at hempty
      exfalso
      have hperm:=List.perm_cons_erase hn
      rw [hempty] at hperm
      exact hcond (List.perm_singleton.mp hperm)
    · cases ho

/-- In a run whose calls replace what a session has and leave the last session, what the DF takes
is conserved, and no address is given back twice. -/
theorem poolsConserved_run {poolSess : Nat} {up : Up} {subnets : List Subnet} {seeds : Seeds}
    {ops : List Op} (h : EachStep step Keeps (init poolSess up subnets seeds) ops) :
    (∀ t∈completed step (init poolSess up subnets seeds) ops,t.Conserved) ∧
      EachOutcome step GivesBackOnce (init poolSess up subnets seeds) ops := by
  have hinit:=settled_init poolSess up subnets seeds
  constructor
  · intro t ht
    apply Settled.conserved
    refine completed_inv ?_ hinit h t ht
    intro t op t' r hsettled hcond ho
    exact (hsettled.step hcond ho).2
  · exact eachOutcome_inv (fun t op o hsettled hcond ho => hsettled.step hcond ho) hinit h

def subnets1 : List Subnet :=
  [⟨.inet,[],2,fun n => Vector.ofFn fun i => if i.val=3 then Fin.ofNat 256 (n+2) else 10⟩]

def stock1 : Stock := init 1 (upInit 1 id 0 0) subnets1 ⟨0,0,0,0,0⟩

def pdrUeIp (flags : Byte) : PdrUp :=
  { PdrUp.zero with ueIpAddr := Vector.ofFn fun i => if i.val=0 then flags else 0 }

def addThen (last : Op) : List Op :=
  [.add establishment1.cpFSeid,.setUeIp 0 1 (pdrUeIp 2),last]

def after (last : Op) : Stock := ((completed step stock1 (addThen last))[3]?).getD stock1

set_option maxRecDepth 4000 in
/-- A removed session leaves its address and id pools, a second PDR a pointer to what was freed. -/
theorem taken_not_returned :
    (¬ ∀ t∈completed step stock1 (addThen (.remove 0)),t.Conserved) ∧
      ¬ ∀ t∈completed step stock1 (addThen (.setUeIp 0 1 (pdrUeIp 0))),t.Conserved := by
  constructor
  · intro h
    have hmem : after (.remove 0)∈completed step stock1 (addThen (.remove 0)) :=
      List.mem_of_getElem? (i := 3) rfl
    have hlist : (after (.remove 0)).ctx.sessList=[] := rfl
    have hused : ((after (.remove 0)).ctx.ueIps.pool 0).index 0=some 0 := rfl
    exact ((h _ hmem).returned hlist).1 (.dynamic 0 0) hused
  · intro h
    have hmem : after (.setUeIp 0 1 (pdrUeIp 0)) ∈
        completed step stock1 (addThen (.setUeIp 0 1 (pdrUeIp 0))) :=
      List.mem_of_getElem? (i := 3) rfl
    have hlist : (after (.setUeIp 0 1 (pdrUeIp 0))).ctx.sessList=[0] := rfl
    have hip : ((after (.setUeIp 0 1 (pdrUeIp 0))).ctx.sess 0).ip .inet=some (.dynamic 0 0) := rfl
    have hfree : ((after (.setUeIp 0 1 (pdrUeIp 0))).ctx.ueIps.pool 0).index 0=none := rfl
    have hallocated:=(h _ hmem).allocated 0 (by simp [hlist]) .inet _ hip
    rw [UeIps.Allocated,hfree] at hallocated
    cases hallocated

set_option maxRecDepth 4000 in
theorem poolsConserved_run_two :
    EachStep step Keeps stock1 (addThen (.setUeIp 0 1 (pdrUeIp 2))) ∧
      (∀ t∈completed step stock1 (addThen (.setUeIp 0 1 (pdrUeIp 2))),t.Conserved) ∧
      EachOutcome step GivesBackOnce stock1 (addThen (.setUeIp 0 1 (pdrUeIp 2))) := by
  have heach : EachStep step Keeps stock1 (addThen (.setUeIp 0 1 (pdrUeIp 2))) := by
    refine ⟨trivial,⟨rfl,fun _ => rfl⟩,⟨rfl,?_⟩,trivial⟩
    intro hunwanted
    cases hunwanted
  exact ⟨heach,poolsConserved_run heach⟩

end Stock

end OgsDp.Df
