import OgsDp.Upf.UplinkGpdu

/-!
# Who may send through the UPF (src/upf/gtp-path.c, context.c)

Next to the sessions is kept what each was last configured with: the UE addresses that a call
assigned, and the routes. The comparisons of a G-PDU read the session alone.
-/

namespace OgsDp.Upf
open Lib OgsDp.Core Pfcp Function Option

def RouteList.family : RouteList → Family
  | .ipv4 => .inet
  | .ipv6 => .inet6

def behind (a : Option Routes) (m : Nat) : List (Option IpSubnet) := (a.getD .empty).toList.drop m

/-- The routes that the scan of the array still meets behind the first `m`. -/
def stale (a : Option Routes) (m : Nat) : List IpSubnet :=
  ((behind a m).takeWhile Option.isSome).filterMap id

def lastInvalid (ipsubnet : Ipsubnet) (framedRoutes : List (List Byte)) : Bool :=
  framedRoutes.getLast?.any fun r => (parseFramedRoute ipsubnet r).isNone

def Tidy (a : Option Routes) : Prop := ∀ x∈behind a (a.elim [] Routes.used).length,x=none

namespace Context

variable {ipsubnet : Ipsubnet} {a : Option Routes} {rs : List IpSubnet}

theorem behind_set (a : Option Routes) (x : Option IpSubnet) (k m : Nat) :
    behind (some ((a.getD .empty).setIfInBounds k x)) m =
      if k < m then behind a m else (behind a m).set (k-m) x := by
  unfold behind
  rw [getD_some,Vector.toList_setIfInBounds,List.drop_set]

theorem behind_set_lt (a : Option Routes) (x : Option IpSubnet) {k m : Nat} (hk : k < m) :
    behind (some ((a.getD .empty).setIfInBounds k x)) m=behind a m := by
  rw [behind_set,if_pos hk]

theorem behind_set_self (a : Option Routes) (x : Option IpSubnet) (k : Nat) :
    behind (some ((a.getD .empty).setIfInBounds k x)) k=(behind a k).set 0 x := by
  rw [behind_set,if_neg (Nat.lt_irrefl k),Nat.sub_self]

theorem parsed_ne_nil {rs : List (List Byte)} (hrs : rs≠[])
    (h : lastInvalid ipsubnet rs=false) : parsed ipsubnet rs≠[] := by
  obtain ⟨l,r,rfl⟩ := List.eq_nil_or_concat rs |>.resolve_left hrs
  intro hnil
  simp only [lastInvalid,List.concat_eq_append,List.getLast?_concat,any_some] at h
  simp only [parsed,List.concat_eq_append,List.filterMap_append,List.append_eq_nil_iff] at hnil
  cases hr : parseFramedRoute ipsubnet r with
  | none => simp [hr] at h
  | some route => simp [hr] at hnil

theorem addRoutes_behind (ipsubnet : Ipsubnet) (n : Nat) (framedRoutes : List (List Byte))
    (c : Context) (a : Option Routes) (k : Nat) :
    behind (addRoutes ipsubnet n framedRoutes c a k).2.1
        (k+(parsed ipsubnet framedRoutes).length) =
      if lastInvalid ipsubnet framedRoutes then
        (behind a (k+(parsed ipsubnet framedRoutes).length)).set 0 none
      else behind a (k+(parsed ipsubnet framedRoutes).length) := by
  induction framedRoutes generalizing c a k with
  | nil => simp [addRoutes,lastInvalid]
  | cons r rs ih =>
    simp only [addRoutes]
    have hlast (hrs : rs≠[]) : lastInvalid ipsubnet (r::rs)=lastInvalid ipsubnet rs := by
      unfold lastInvalid
      rw [List.getLast?_cons,List.getLast?_eq_some_getLast hrs]
      rfl
    cases hr : parseFramedRoute ipsubnet r with
    | none =>
      have hparsed : parsed ipsubnet (r::rs)=parsed ipsubnet rs := by simp [parsed,hr]
      simp only [hparsed]
      rw [ih]
      by_cases hrs : rs=[]
      · subst hrs
        simp [lastInvalid,hr,parsed,behind_set_self]
      · rw [hlast hrs]
        by_cases hk : k<k+(parsed ipsubnet rs).length
        · rw [behind_set_lt a none hk]
        · have hzero : (parsed ipsubnet rs).length=0 := by omega
          have hinvalid : lastInvalid ipsubnet rs=true := by
            by_contra hno
            exact parsed_ne_nil hrs (Bool.eq_false_of_not_eq_true hno)
              (List.length_eq_zero_iff.mp hzero)
          rw [if_pos hinvalid,if_pos hinvalid,hzero,Nat.add_zero,behind_set_self,List.set_set]
    | some route =>
      have hparsed : parsed ipsubnet (r::rs)=route::parsed ipsubnet rs := by
        simp [parsed,hr]
      have hsame : lastInvalid ipsubnet (r::rs)=lastInvalid ipsubnet rs := by
        by_cases hrs : rs=[]
        · subst hrs
          simp [lastInvalid,hr]
        · exact hlast hrs
      have hnext : k+(parsed ipsubnet (r::rs)).length =
          k+1+(parsed ipsubnet rs).length := by
        rw [hparsed,List.length_cons]
        omega
      have hbehind : behind (some ((a.getD .empty).setIfInBounds k (some route)))
          (k+1+(parsed ipsubnet rs).length)=behind a (k+1+(parsed ipsubnet rs).length) :=
        behind_set_lt a (some route) (by omega)
      rw [hsame,hnext,ih,hbehind]

theorem mem_behind {a : Option Routes} {m k : Nat} (hk : m≤k) {x : Option IpSubnet}
    (hx : x∈behind a k) : x∈behind a m :=
  List.drop_subset_drop_left _ hk hx

theorem mem_stale {a : Option Routes} {m : Nat} {r : IpSubnet} (hr : r∈stale a m) :
    some r∈behind a m := by
  obtain ⟨x,hx,rfl⟩ := List.mem_filterMap.mp hr
  exact (List.takeWhile_sublist _).subset hx

theorem begins_used_eq {a : Routes} {rs : List IpSubnet} (h : Begins (some a) rs) :
    a.used=rs++stale (some a) rs.length := by
  have hsplit : a.toList=rs.map some++behind (some a) rs.length := by
    rw [← show a.toList.take rs.length=rs.map some from h]
    exact (List.take_append_drop ..).symm
  unfold Routes.used stale
  rw [hsplit,List.takeWhile_append_of_pos (by simp),List.filterMap_append]
  simp

theorem setFramedRoutes_listed (ipsubnet : Ipsubnet) (clear : Bool) (c : Context) (n : Nat)
    (a : Option Routes) (framedRoutes : List (List Byte)) {r : IpSubnet}
    (hr : r∈(c.setFramedRoutes ipsubnet clear n a framedRoutes).2.elim [] Routes.used) :
    r∈parsed ipsubnet (framedRoutes.take maxNumOfFramedRoutes) ∨
      parsed ipsubnet (framedRoutes.take maxNumOfFramedRoutes)≠[] ∧
        lastInvalid ipsubnet (framedRoutes.take maxNumOfFramedRoutes)=false ∧
          r∈stale (a.map fun x => if clear then x.clearUsed else x)
            (parsed ipsubnet (framedRoutes.take maxNumOfFramedRoutes)).length := by
  unfold setFramedRoutes at hr
  simp only at hr
  have hle:=List.length_take_le maxNumOfFramedRoutes framedRoutes
  generalize framedRoutes.take maxNumOfFramedRoutes=rs at hr hle ⊢
  generalize (a.elim [] Routes.used).foldl freeFramedRouteFromTrie c=c' at hr
  generalize (a.map fun x => if clear then x.clearUsed else x)=a' at hr ⊢
  have hadded:=addRoutes_added ipsubnet n rs c' a' [] rfl (by simpa using hle)
  have hbehind:=addRoutes_behind ipsubnet n rs c' a' 0
  rw [Nat.zero_add] at hbehind
  simp only [List.length_nil] at hadded
  generalize addRoutes ipsubnet n rs c' a' 0=s at hr hadded hbehind
  split at hr
  · cases hr
  · rename_i hcount
    have hne : parsed ipsubnet rs≠[] := by
      intro hnil
      rw [hadded.length,hnil] at hcount
      exact hcount rfl
    have harray:=hadded.array
    rw [List.nil_append] at harray
    cases hs : s.2.1 with
    | none =>
      rw [hs] at hr
      cases hr
    | some b =>
      rw [hs] at hr harray hbehind
      rw [elim_some,begins_used_eq harray,List.mem_append] at hr
      refine hr.imp_right fun hr => ?_
      unfold stale at hr
      rw [hbehind] at hr
      split at hr
      · cases hrest : behind a' (parsed ipsubnet rs).length with
        | nil => simp [hrest] at hr
        | cons x l => simp [hrest] at hr
      · rename_i hlast
        exact ⟨hne,Bool.eq_false_of_not_eq_true hlast,hr⟩

theorem behind_clearUsed (h : Tidy a) :
    ∀ x∈behind (a.map fun x => x.clearUsed) 0,x=none := by
  intro x hx
  cases a with
  | none =>
    simp only [behind,map_none,getD_none,Routes.empty,List.drop_zero,
      Vector.toList_replicate] at hx
    exact List.eq_of_mem_replicate hx
  | some b =>
    simp only [behind,map_some,getD_some,List.drop_zero,
      Routes.clearUsed,Vector.toList_ofFn,List.mem_ofFn] at hx
    obtain ⟨i,hi⟩ := hx
    split at hi
    · exact hi.symm
    · rename_i hbehind
      refine h x ?_
      rw [← hi]
      simp only [behind,elim_some,getD_some]
      apply List.mem_of_getElem? (i := i.val-b.used.length)
      rw [List.getElem?_drop,show b.used.length+(i.val-b.used.length)=i.val by omega,
        Vector.getElem?_toList]
      exact Vector.getElem?_eq_getElem i.isLt

theorem setFramedRoutes_tidy (ipsubnet : Ipsubnet) (c : Context) (n : Nat) (h : Tidy a)
    (framedRoutes : List (List Byte)) :
    Tidy (c.setFramedRoutes ipsubnet true n a framedRoutes).2 := by
  have hclear:=behind_clearUsed h
  unfold setFramedRoutes
  simp only [if_true]
  have hle:=List.length_take_le maxNumOfFramedRoutes framedRoutes
  generalize framedRoutes.take maxNumOfFramedRoutes=rs at hle ⊢
  generalize (a.elim [] Routes.used).foldl freeFramedRouteFromTrie c=c'
  generalize (a.map fun x => x.clearUsed)=a' at hclear ⊢
  have hadded:=addRoutes_added ipsubnet n rs c' a' [] rfl (by simpa using hle)
  have hbehind:=addRoutes_behind ipsubnet n rs c' a' 0
  rw [Nat.zero_add] at hbehind
  simp only [List.length_nil] at hadded
  generalize addRoutes ipsubnet n rs c' a' 0=s at hadded hbehind
  intro x hx
  by_cases hzero : s.2.2=0
  · rw [if_pos hzero] at hx
    simp only [behind,getD_none,Routes.empty,Vector.toList_replicate] at hx
    exact List.eq_of_mem_replicate (List.mem_of_mem_drop hx)
  · rw [if_neg hzero] at hx
    have hlen:=(begins_used hadded.array).length_le
    rw [List.nil_append] at hlen
    have hx':=mem_behind hlen hx
    rw [hbehind] at hx'
    split at hx'
    · rcases List.mem_or_eq_of_mem_set hx' with hx' | hx'
      · exact hclear x (mem_behind (Nat.zero_le _) hx')
      · exact hx'
    · exact hclear x (mem_behind (Nat.zero_le _) hx')

end Context

def takes (sessionType : Byte) (x : PdrUp) : Version → Bool
  | .v4 => (sessionType.val == 1 || sessionType.val == 3) && (x.ipv4 || x.dnn.isSome)
  | .v6 => (sessionType.val == 2 || sessionType.val == 3) && (x.ipv6 || x.dnn.isSome)

namespace Context

def accepts (c : Context) (n : Nat) (sessionType : Byte) (x : PdrUp) : Bool :=
  match c.sessSetUeIp n sessionType x with
  | .ok _ (.ok ()) => true
  | _ => false

/-- Every version that the session has an address of is assigned again: the branch asks for it,
and no failure for IPv4 stands before IPv6. -/
def Reassigned (c : Context) (n : Nat) (sessionType : Byte) (x : PdrUp) : Prop :=
  (∀ v,(c.sess n).ip v≠none → takes sessionType x v=true) ∧
    ((c.sess n).ip .v6≠none → sessionType.val=3 → x.ipv4 || x.dnn.isSome →
      ∀ cause,((c.released n).alloc .inet x.dnn x.bothAddr).2 ≠ .error cause)

theorem dropIp_leaves (c : Context) (n : Nat) (v : Version) :
    (c.dropIp n v).Returns fun c' _ =>
      c'.sess=c.sess ∧ c'.ueIps=c.ueIps.giveBack ((c.sess n).ip v) := by
  cases v with
  | v4 =>
    unfold dropIp dropIpv4
    simp only [Sess.ip]
    cases (c.sess n).ipv4 with
    | none => exact ⟨rfl,rfl⟩
    | some r =>
      simp only
      rw [show (c.unsetIpv4 r).ueIps=c.ueIps from rfl]
      cases hfree : c.ueIps.free r with
      | abort t => trivial
      | ok t u => exact ⟨rfl,by simp [UeIps.giveBack,hfree,Outcome.state,withUeIps]⟩
  | v6 =>
    unfold dropIp dropIpv6
    simp only [Sess.ip]
    cases (c.sess n).ipv6 with
    | none => exact ⟨rfl,rfl⟩
    | some r =>
      simp only
      rw [show (c.unsetIpv6 r).ueIps=c.ueIps from rfl]
      cases hfree : c.ueIps.free r with
      | abort t => trivial
      | ok t u => exact ⟨rfl,by simp [UeIps.giveBack,hfree,Outcome.state,withUeIps]⟩

structure Tried (c : Context) (n : Nat) (v : Version) (wanted : Bool) (dnn : Option (List Byte))
    (addr : List Byte) (s : Context × Except Refusal Unit) : Prop where
  others : ∀ m w,¬ (m=n ∧ w=v) → (s.1.sess m).ip w=(c.sess m).ip w
  unwanted : wanted=false → s=(c,.ok ())
  refused : ∀ e,s.2 = .error e → (s.1.sess n).ip v=none ∧
    ∃ cause,(c.ueIps.alloc v.family dnn addr).2 = .error cause

theorem takeIp_tried (c : Context) (n : Nat) (v : Version) (wanted : Bool)
    (dnn : Option (List Byte)) (addr : List Byte) :
    Tried c n v wanted dnn addr (c.takeIp n v wanted dnn addr) := by
  cases wanted with
  | false =>
    rw [takeIp_unwanted]
    refine ⟨fun _ _ _ => rfl,fun _ => rfl,?_⟩
    intro e he
    cases he
  | true =>
    cases hres : c.ueIps.alloc v.family dnn addr with
    | mk t res =>
      cases res with
      | error cause =>
        rw [takeIp_error hres]
        have hip:=c.pointed_ip n v t none
        refine ⟨?_,?_,?_⟩
        · intro m w hmw
          rw [hip,if_neg hmw]
        · intro hno
          cases hno
        · intro e _
          rw [hip,if_pos ⟨rfl,rfl⟩]
          exact ⟨rfl,cause,by rw [hres]⟩
      | ok r =>
        rw [takeIp_ok hres]
        have hip:=c.pointed_ip n v t (some r)
        refine ⟨?_,?_,?_⟩
        · intro m w hmw
          rw [withIpHash_sess,hip,if_neg hmw]
        · intro hno
          cases hno
        · intro e he
          cases he

theorem undoIpv4_leaves (c : Context) (n : Nat) :
    (c.undoIpv4 n).Returns fun c' _ =>
      ∀ m w,(c'.sess m).ip w = if m=n ∧ w = .v4 then none else (c.sess m).ip w := by
  unfold undoIpv4
  apply Outcome.Returns.bind (dropIp_leaves c n .v4)
  intro c' _ ⟨hsess,_⟩ m w
  have hip:=c'.pointed_ip n .v4 c'.ueIps none m w
  rw [hsess] at hip
  exact hip

theorem Tried.alone {c : Context} {n : Nat} {v : Version} {wanted : Bool}
    {dnn : Option (List Byte)} {addr : List Byte} {s : Context × Except Refusal Unit}
    (h : Tried c n v wanted dnn addr s) (hother : ∀ w,w≠v → (c.sess n).ip w=none)
    (hnone : wanted=false → (c.sess n).ip v=none) (w : Version)
    (hw : ¬ (s.2 = .ok () ∧ w=v ∧ wanted=true)) : (s.1.sess n).ip w=none := by
  by_cases hv : w=v
  · subst hv
    cases hres : s.2 with
    | error e => exact (h.refused e hres).1
    | ok u =>
      have hwanted : wanted=false := by
        apply Bool.eq_false_of_not_eq_true
        exact fun hyes => hw ⟨hres,rfl,hyes⟩
      rw [h.unwanted hwanted]
      exact hnone hwanted
  · rw [h.others n w fun hno => hv hno.2]
    exact hother w hv

theorem sessSetUeIp_ips {c : Context} {n : Nat} {sessionType : Byte} {x : PdrUp}
    (h : c.Reassigned n sessionType x) :
    (c.sessSetUeIp n sessionType x).Returns fun c' res =>
      (∀ m,m≠n → ∀ w,(c'.sess m).ip w=(c.sess m).ip w) ∧
        ∀ v,¬ (res = .ok () ∧ takes sessionType x v=true) → (c'.sess n).ip v=none := by
  obtain ⟨htakes,hfirst⟩ := h
  have hkept : ∀ v,takes sessionType x v=false → (c.sess n).ip v=none := by
    intro v hv
    by_contra hno
    rw [htakes v hno] at hv
    cases hv
  unfold sessSetUeIp
  simp only
  apply Outcome.Returns.bind (dropIp_leaves c n .v4)
  intro c₁ _ ⟨hsess₁,hueIps₁⟩
  apply Outcome.Returns.bind (dropIp_leaves c₁ n .v6)
  intro c₂ _ ⟨hsess₂,hueIps₂⟩
  have hsess : c₂.sess=c.sess := hsess₂.trans hsess₁
  have hueIps : c₂.ueIps=c.released n := by
    rw [hueIps₂,hsess₁,hueIps₁]
    rfl
  rw [← hsess] at hkept hfirst ⊢
  split
  · rename_i htype
    have h₃ : Tried c₂ n .v4 _ _ _ (c₂.takeIpv4 n (x.ipv4 || x.dnn.isSome) x.dnn x.addr) :=
      c₂.takeIp_tried n .v4 ..
    refine ⟨fun m hm w => h₃.others m w fun hno => hm hno.1,?_⟩
    intro v hv
    refine h₃.alone ?_ ?_ v ?_
    · intro w hw
      cases w with
      | v4 => exact absurd rfl hw
      | v6 => exact hkept .v6 (by simp [takes,htype])
    · intro hwanted
      exact hkept .v4 (by simp [takes,hwanted])
    · rintro ⟨hres,rfl,hwanted⟩
      exact hv ⟨hres,by simp [takes,htype,hwanted]⟩
  · rename_i htype
    have h₃ : Tried c₂ n .v6 _ _ _ (c₂.takeIpv6 n (x.ipv6 || x.dnn.isSome) x.dnn x.addr) :=
      c₂.takeIp_tried n .v6 ..
    refine ⟨fun m hm w => h₃.others m w fun hno => hm hno.1,?_⟩
    intro v hv
    refine h₃.alone ?_ ?_ v ?_
    · intro w hw
      cases w with
      | v4 => exact hkept .v4 (by simp [takes,htype])
      | v6 => exact absurd rfl hw
    · intro hwanted
      exact hkept .v6 (by simp [takes,hwanted])
    · rintro ⟨hres,rfl,hwanted⟩
      exact hv ⟨hres,by simp [takes,htype,hwanted]⟩
  · rename_i htype
    have h₃ : Tried c₂ n .v4 _ _ _ (c₂.takeIpv4 n (x.ipv4 || x.dnn.isSome) x.dnn x.bothAddr) :=
      c₂.takeIp_tried n .v4 ..
    cases htake4 : c₂.takeIpv4 n (x.ipv4 || x.dnn.isSome) x.dnn x.bothAddr with
    | mk c₃ u =>
      rw [htake4] at h₃
      cases u with
      | error e =>
        obtain ⟨hnone,cause,hcause⟩ := h₃.refused e rfl
        refine ⟨fun m hm w => h₃.others m w fun hno => hm hno.1,?_⟩
        intro v _
        cases v with
        | v4 => exact hnone
        | v6 =>
          rw [h₃.others n .v6 (by simp)]
          by_contra hno
          have hwanted : (x.ipv4 || x.dnn.isSome)=true := by
            by_contra hunwanted
            cases h₃.unwanted (Bool.eq_false_of_not_eq_true hunwanted)
          rw [hueIps] at hcause
          exact hfirst hno htype hwanted cause hcause
      | ok u =>
        have h₄ : Tried c₃ n .v6 _ _ _ (c₃.takeIpv6 n (x.ipv6 || x.dnn.isSome) x.dnn x.bothAddr6) :=
          c₃.takeIp_tried n .v6 ..
        simp only
        cases htake6 : c₃.takeIpv6 n (x.ipv6 || x.dnn.isSome) x.dnn x.bothAddr6 with
        | mk c₄ u' =>
          rw [htake6] at h₄
          have hothers : ∀ m,m≠n → ∀ w,(c₄.sess m).ip w=(c₂.sess m).ip w := by
            intro m hm w
            exact (h₄.others m w fun hno => hm hno.1).trans (h₃.others m w fun hno => hm hno.1)
          cases u' with
          | error e =>
            apply Outcome.Returns.bind (undoIpv4_leaves c₄ n)
            intro c₅ _ hundo
            refine ⟨?_,?_⟩
            · intro m hm w
              rw [hundo,if_neg fun hno => hm hno.1]
              exact hothers m hm w
            · intro v _
              rw [hundo]
              cases v with
              | v4 => exact if_pos ⟨rfl,rfl⟩
              | v6 =>
                rw [if_neg (by simp)]
                exact (h₄.refused e rfl).1
          | ok u' =>
            refine ⟨hothers,?_⟩
            intro v hv
            have hunwanted : takes sessionType x v=false := by
              apply Bool.eq_false_of_not_eq_true
              exact fun hyes => hv ⟨rfl,hyes⟩
            have hnone:=hkept v hunwanted
            simp only [takes,htype] at hunwanted
            cases v with
            | v4 =>
              have heq:=h₃.unwanted (by simpa using hunwanted)
              rw [h₄.others n .v4 (by simp),show c₃=c₂ from congrArg Prod.fst heq]
              exact hnone
            | v6 =>
              have heq:=h₄.unwanted (by simpa using hunwanted)
              rw [show c₄=c₃ from congrArg Prod.fst heq,h₃.others n .v6 (by simp)]
              exact hnone
  · rename_i h1 h2 h3
    refine ⟨fun m _ w => rfl,?_⟩
    intro v _
    apply hkept
    cases v with
    | v4 => simp [takes,show sessionType.val≠1 from h1,show sessionType.val≠3 from h3]
    | v6 => simp [takes,show sessionType.val≠2 from h2,show sessionType.val≠3 from h3]

theorem setRouteList_framedRoutes (ipsubnet : Ipsubnet) (c : Context) (n : Nat) (list : RouteList)
    (framedRoutes : List (List Byte)) (m : Nat) (l : RouteList) :
    ((c.setRouteList ipsubnet n list framedRoutes).sess m).framedRoutes l =
      if m=n ∧ l=list then
        (c.setFramedRoutes ipsubnet (decide (list = .ipv4)) n ((c.sess n).framedRoutes list)
          framedRoutes).2
      else (c.sess m).framedRoutes l := by
  have hsame := fun clear => (setFramedRoutes_added ipsubnet clear c n
    ((c.sess n).framedRoutes list) framedRoutes).1.sess
  cases list with
  | ipv4 =>
    have hsess:=hsame true
    simp only [Sess.framedRoutes] at hsess
    simp only [setRouteList,sessSetUeIpv4FramedRoutes,modify,hsess]
    by_cases hm : m=n
    · subst hm
      cases l <;> simp [Sess.framedRoutes]
    · simp [hm]
  | ipv6 =>
    have hsess:=hsame false
    simp only [Sess.framedRoutes] at hsess
    simp only [setRouteList,sessSetUeIpv6FramedRoutes,modify,hsess]
    by_cases hm : m=n
    · subst hm
      cases l <;> simp [Sess.framedRoutes]
    · simp [hm]

theorem routing_framedRoutes {c c' : Context} (h : c'.routing=c.routing) (m : Nat)
    (l : RouteList) : (c'.sess m).framedRoutes l=(c.sess m).framedRoutes l := by
  have hsess:=congrFun (congrArg (fun x => x.2.2.2.2) h) m
  have hboth : (c'.sess m).ipv4FramedRoutes=(c.sess m).ipv4FramedRoutes ∧
      (c'.sess m).ipv6FramedRoutes=(c.sess m).ipv6FramedRoutes := Prod.mk.inj hsess
  cases l with
  | ipv4 => exact hboth.1
  | ipv6 => exact hboth.2

theorem sessAdd_framedRoutes (c : Context) (fSeid : Vector Byte 29) :
    (c.sessAdd fSeid).Returns fun c' n => ∀ l,(c'.sess n).framedRoutes l=none := by
  unfold sessAdd
  split
  · trivial
  · simp only
    split
    · trivial
    · intro l
      cases l <;> simp [Sess.framedRoutes,Sess.zero]

theorem sessRemove_others (ipsubnet : Ipsubnet) (c : Context) (n : Nat) :
    (c.sessRemove ipsubnet n).Returns fun c' _ => ∀ m,m≠n → c'.sess m=c.sess m := by
  have hmodify : ∀ (c : Context) (f : Sess → Sess) m,m≠n → (c.modify n f).sess m=c.sess m := by
    intro c f m hm
    exact update_of_ne hm ..
  unfold sessRemove
  simp only
  generalize hu : unsetSeids _ n=u
  have hsess : ∀ m,m≠n → u.sess m=c.sess m := by
    rw [← hu]
    exact hmodify c fun x => { x with urrAcc := fun _ => .zero }
  apply Outcome.Returns.bind (dropIp_leaves u n .v4)
  intro c₁ _ ⟨h₁,_⟩
  apply Outcome.Returns.bind (dropIp_leaves c₁ n .v6)
  intro c₂ _ ⟨h₂,_⟩ m hm
  have hset : ∀ (c : Context) clear a,(c.setFramedRoutes ipsubnet clear n a []).1.sess=c.sess :=
    fun c clear a => (setFramedRoutes_added ipsubnet clear c n a []).1.sess
  rw [← hsess m hm,← h₁,← h₂]
  unfold sessSetUeIpv6FramedRoutes sessSetUeIpv4FramedRoutes
  simp only
  rw [hmodify _ _ m hm,hset,hmodify _ _ m hm,hset]

end Context

/-- The UPF, and the addresses that the last call of `upf_sess_set_ue_ip` gave each session. -/
structure Configured where
  routed : Routed
  ips : Nat → Version → Option UeIpRef

namespace Configured

def init (c : Context) : Configured := ⟨Routed.init c,fun _ _ => none⟩

def assign (t : Configured) (r : Routed) : Op → Nat → Version → Option UeIpRef
  | .setUeIp n sessionType x =>
    update t.ips n fun v =>
      if t.routed.ctx.accepts n sessionType x && takes sessionType x v then (r.ctx.sess n).ip v
      else none
  | .remove n => update t.ips n fun _ => none
  | _ => t.ips

def step (ipsubnet : Ipsubnet) (t : Configured) (op : Op) : Option (Outcome Configured Unit) :=
  (t.routed.step ipsubnet op).map fun o => o.mapState fun r => ⟨r,t.assign r op⟩

/-- The condition on a call: no address that the session had is left behind, the routes are of the
family of the list, and no others stay behind the new ones in the array. -/
def Rewrites (ipsubnet : Ipsubnet) (t : Configured) : Op → Prop
  | .setUeIp n sessionType x => t.routed.ctx.Reassigned n sessionType x
  | .setFramedRoutes n list framedRoutes =>
    let strings:=framedRoutes.take maxNumOfFramedRoutes
    let routes:=Context.parsed ipsubnet strings
    (∀ r∈routes,r.family=list.family) ∧
      (list = .ipv6 → routes≠[] → lastInvalid ipsubnet strings=false →
        ∀ r∈stale (t.routed.ctx.sess n).ipv6FramedRoutes routes.length,r∈routes)
  | _ => True

/-- The address is the UE address that the session has now, or lies in a route that it was last
given. -/
def MaySend (t : Configured) (n : Nat) (v : Version) (src : List Byte) : Prop :=
  (∃ ueIp,t.ips n v=some ueIp ∧ OfUe (t.routed.ctx.ueIps.addr ueIp).toList src v) ∨
    ∃ r∈t.routed.given n v.list,r.family=v.family ∧ r.Covers src

/-- Whatever the rules of a live session are, a G-PDU that is written to a device has a source
that the session may send from. -/
def ChecksSource (t : Configured) : Prop :=
  ∀ up flow pkt teid qfi p s,
    uRecvGpdu flow (t.routed.ctx.withUp up) pkt teid qfi=some (.tunWritten p s) →
      (up.ctx.pdr p).sess∈t.routed.ctx.sessList →
        ∃ v src,source pkt=some (v,src) ∧ t.MaySend (up.ctx.pdr p).sess v src

structure Guards (t : Configured) (n : Nat) : Prop where
  ips : ∀ v,(t.routed.ctx.sess n).ip v=t.ips n v
  listed : ∀ l,∀ r∈t.routed.ctx.listed n l,r∈t.routed.given n l ∧ r.family=l.family
  tidy : Tidy (t.routed.ctx.sess n).ipv4FramedRoutes

structure Current (t : Configured) : Prop where
  pool : ∃ q,Pool.Split t.routed.ctx.sessPool q t.routed.ctx.sessList
  live : ∀ n∈t.routed.ctx.sessList,t.Guards n
  dead : ∀ n ∉ t.routed.ctx.sessList,
    (∀ v,t.ips n v=none) ∧ ∀ l,t.routed.given n l=[]

theorem Current.checksSource {t : Configured} (h : t.Current) : t.ChecksSource := by
  intro up flow pkt teid qfi p s hwritten hlive
  obtain ⟨v,src,ueIp,hsource,hip,hmatch⟩ := uRecvGpdu_written hwritten
  have hguards:=h.live _ hlive
  refine ⟨v,src,hsource,?_⟩
  rcases hmatch with hue | hroute
  · refine .inl ⟨ueIp,?_,hue⟩
    rw [← hguards.ips]
    exact hip
  · unfold checkFramedRoutes at hroute
    obtain ⟨r,hr,hadmits⟩ := List.any_eq_true.mp hroute
    obtain ⟨hgiven,hfamily⟩ := hguards.listed v.list r hr
    have hsame : r.family=v.family := by
      rw [hfamily]
      cases v <;> rfl
    exact .inr ⟨r,hgiven,hsame,IpSubnet.admits_covers hsame hadmits⟩

variable {ipsubnet : Ipsubnet} {t : Configured} {n : Nat}

theorem Current.init (poolSess : Nat) (upfN4SeidOf : Nat → BitVec 64) (up : Up)
    (subnets : List Subnet) (seeds : Seeds) :
    (Configured.init (contextInit poolSess upfN4SeidOf up subnets seeds)).Current where
  pool := ⟨_,Pool.split_init poolSess⟩
  live := by
    intro n hn
    cases hn
  dead := fun _ _ => ⟨fun _ => rfl,fun _ => rfl⟩

theorem Guards.congr {t' : Configured} (h : t.Guards n)
    (hip : ∀ v,(t'.routed.ctx.sess n).ip v=(t.routed.ctx.sess n).ip v)
    (hroutes : ∀ l,(t'.routed.ctx.sess n).framedRoutes l=(t.routed.ctx.sess n).framedRoutes l)
    (hips : t'.ips n=t.ips n) (hgiven : t'.routed.given n=t.routed.given n) : t'.Guards n where
  ips := by
    intro v
    rw [hip,hips]
    exact h.ips v
  listed := by
    intro l r hr
    unfold Context.listed at hr
    rw [hroutes] at hr
    rw [hgiven]
    exact h.listed l r hr
  tidy := by
    rw [show (t'.routed.ctx.sess n).ipv4FramedRoutes=(t.routed.ctx.sess n).ipv4FramedRoutes from
      hroutes .ipv4]
    exact h.tidy

theorem Current.add (h : t.Current) (stack : Vector Byte 4) (cpFSeid : Option (Vector Byte 29)) :
    (t.routed.ctx.sessAddByMessage stack cpFSeid).Returns fun c _ =>
      Current ⟨t.routed.withCtx c,t.ips⟩ := by
  unfold Context.sessAddByMessage
  cases cpFSeid with
  | none => exact h
  | some fSeid =>
    simp only
    split
    · cases t.routed.ctx.sessFindBySmfN4FSeid fSeid stack with
      | some n => exact h
      | none =>
        obtain ⟨q,hs⟩ := h.pool
        apply ((Context.sessAdd_joined hs fSeid).and
          (Context.sessAdd_framedRoutes t.routed.ctx fSeid)).bind
        intro c n ⟨hjoined,hroutes⟩
        obtain ⟨hips,hgiven⟩ := h.dead n hjoined.new
        refine ⟨hjoined.pool,?_,?_⟩
        · intro m hm
          by_cases hmn : m=n
          · subst hmn
            refine ⟨?_,?_,?_⟩
            · intro v
              rw [hips]
              cases v with
              | v4 => exact hjoined.ips.1
              | v6 => exact hjoined.ips.2
            · intro l r hr
              simp only [Context.listed,Routed.withCtx,hroutes,elim_none] at hr
              cases hr
            · rw [show ((t.routed.withCtx c).ctx.sess m).ipv4FramedRoutes=none from hroutes .ipv4]
              intro x hx
              simp only [behind,getD_none,Routes.empty,Vector.toList_replicate] at hx
              exact List.eq_of_mem_replicate (List.mem_of_mem_drop hx)
          · have hold : m∈t.routed.ctx.sessList := by
              have hmem : m∈c.sessList := hm
              rw [hjoined.sessList,List.mem_append,List.mem_singleton] at hmem
              exact hmem.resolve_right hmn
            have hsess : (t.routed.withCtx c).ctx.sess m=t.routed.ctx.sess m :=
              hjoined.others m hmn
            exact (h.live m hold).congr (fun v => by rw [hsess]) (fun l => by rw [hsess]) rfl rfl
        · intro m hm
          refine h.dead m fun hmem => hm ?_
          show m∈c.sessList
          rw [hjoined.sessList]
          exact List.mem_append_left _ hmem
    · exact h

theorem Current.setUeIp {sessionType : Byte} {x : PdrUp} (h : t.Current)
    (hn : n∈t.routed.ctx.sessList) (hcond : t.routed.ctx.Reassigned n sessionType x) :
    (t.routed.ctx.sessSetUeIp n sessionType x).Returns fun c _ =>
      Current ⟨t.routed.withCtx c,t.assign (t.routed.withCtx c) (.setUeIp n sessionType x)⟩ := by
  have hips:=Context.sessSetUeIp_ips hcond
  have hrouting:=Context.sessSetUeIp_routing t.routed.ctx n sessionType x
  have haccepts : t.routed.ctx.accepts n sessionType x =
    match t.routed.ctx.sessSetUeIp n sessionType x with
    | .ok _ (.ok ()) => true
    | _ => false := rfl
  cases hcall : t.routed.ctx.sessSetUeIp n sessionType x with
  | abort c => trivial
  | ok c res =>
    rw [hcall] at hips hrouting haccepts
    obtain ⟨hothers,hself⟩ := hips
    have hpool : c.sessPool=t.routed.ctx.sessPool := congrArg (fun x => x.1) hrouting
    have hlist : c.sessList=t.routed.ctx.sessList := congrArg (fun x => x.2.1) hrouting
    have hroutes:=Context.routing_framedRoutes hrouting
    refine ⟨?_,?_,?_⟩
    · show ∃ q,Pool.Split c.sessPool q c.sessList
      rw [hpool,hlist]
      exact h.pool
    · intro m hm
      have hold : m∈t.routed.ctx.sessList := hlist ▸ hm
      by_cases hmn : m=n
      · subst hmn
        have hguards:=h.live m hold
        refine ⟨?_,?_,?_⟩
        · intro v
          show (c.sess m).ip v=update t.ips m _ m v
          rw [update_self]
          split
          · rfl
          · rename_i hno
            apply hself
            rintro ⟨rfl,htakes⟩
            exact hno (by simp [haccepts,htakes])
        · intro l r hr
          exact hguards.listed l r (by
            rw [← Context.routing_listed hrouting]
            exact hr)
        · rw [show ((t.routed.withCtx c).ctx.sess m).ipv4FramedRoutes =
            (t.routed.ctx.sess m).ipv4FramedRoutes from hroutes m .ipv4]
          exact hguards.tidy
      · exact (h.live m hold).congr (hothers m hmn) (hroutes m) (update_of_ne hmn ..) rfl
    · intro m hm
      have hdead : m∉t.routed.ctx.sessList := fun hmem => hm (hlist.symm ▸ hmem)
      have hmn : m≠n := by
        rintro rfl
        exact hdead hn
      refine ⟨?_,(h.dead m hdead).2⟩
      intro v
      show update t.ips n _ m v=none
      rw [update_of_ne hmn]
      exact (h.dead m hdead).1 v

theorem Current.setRouteList {list : RouteList} {framedRoutes : List (List Byte)} (h : t.Current)
    (hn : n∈t.routed.ctx.sessList)
    (hcond : t.Rewrites ipsubnet (.setFramedRoutes n list framedRoutes)) :
    Current ⟨(t.routed.withCtx (t.routed.ctx.setRouteList ipsubnet n list framedRoutes)).give n list
      (Context.parsed ipsubnet (framedRoutes.take maxNumOfFramedRoutes)),t.ips⟩ := by
  have hset:=Context.setRouteList_set ipsubnet t.routed.ctx n list framedRoutes
  have hroutes:=Context.setRouteList_framedRoutes ipsubnet t.routed.ctx n list framedRoutes
  obtain ⟨hfamily,hstale⟩ := hcond
  have hgiven:=Routed.give_given
    (t.routed.withCtx (t.routed.ctx.setRouteList ipsubnet n list framedRoutes)) n list
    (Context.parsed ipsubnet (framedRoutes.take maxNumOfFramedRoutes))
  have hip : ∀ m v,((t.routed.ctx.setRouteList ipsubnet n list framedRoutes).sess m).ip v =
      (t.routed.ctx.sess m).ip v := by
    intro m v
    cases v with
    | v4 => exact (hset.ips m).1
    | v6 => exact (hset.ips m).2
  refine ⟨?_,?_,?_⟩
  · show ∃ q,Pool.Split (t.routed.ctx.setRouteList ipsubnet n list framedRoutes).sessPool q
      (t.routed.ctx.setRouteList ipsubnet n list framedRoutes).sessList
    rw [hset.sessPool,hset.sessList]
    exact h.pool
  · intro m hm
    have hold : m∈t.routed.ctx.sessList := hset.sessList ▸ hm
    have hguards:=h.live m hold
    refine ⟨?_,?_,?_⟩
    · intro v
      exact (hip m v).trans (hguards.ips v)
    · intro l r hr
      rw [hgiven]
      change r∈((((t.routed.ctx.setRouteList ipsubnet n list framedRoutes).sess m).framedRoutes
        l).elim [] Routes.used) at hr
      rw [hroutes] at hr
      by_cases hml : m=n ∧ l=list
      · obtain ⟨rfl,rfl⟩ := hml
        rw [if_pos ⟨rfl,rfl⟩] at hr ⊢
        have hnew:=Context.setFramedRoutes_listed ipsubnet _ t.routed.ctx m _ framedRoutes hr
        have hmem : r∈Context.parsed ipsubnet (framedRoutes.take maxNumOfFramedRoutes) := by
          rcases hnew with hnew | ⟨hne,hlast,hleft⟩
          · exact hnew
          · cases l with
            | ipv4 =>
              have hbehind:=Context.mem_behind (Nat.zero_le _) (Context.mem_stale hleft)
              cases Context.behind_clearUsed hguards.tidy _ hbehind
            | ipv6 =>
              refine hstale rfl hne hlast r ?_
              have hsame : ((t.routed.ctx.sess m).framedRoutes .ipv6).map (fun x => x) =
                  (t.routed.ctx.sess m).ipv6FramedRoutes := map_id_apply
              rw [← hsame]
              exact hleft
        exact ⟨hmem,hfamily r hmem⟩
      · rw [if_neg hml] at hr ⊢
        exact hguards.listed l r hr
    · show Tidy (((t.routed.ctx.setRouteList ipsubnet n list framedRoutes).sess m).framedRoutes
        .ipv4)
      rw [hroutes]
      split
      · rename_i hml
        obtain ⟨rfl,rfl⟩ := hml
        exact Context.setFramedRoutes_tidy ipsubnet t.routed.ctx m hguards.tidy framedRoutes
      · exact hguards.tidy
  · intro m hm
    have hdead : m∉t.routed.ctx.sessList := fun hmem => hm (hset.sessList.symm ▸ hmem)
    refine ⟨(h.dead m hdead).1,?_⟩
    intro l
    rw [hgiven,if_neg]
    · exact (h.dead m hdead).2 l
    · rintro ⟨rfl,-⟩
      exact hdead hn

theorem Current.remove (h : t.Current) (hn : n∈t.routed.ctx.sessList) :
    (t.routed.ctx.sessRemove ipsubnet n).Returns fun c _ =>
      Current ⟨((t.routed.withCtx c).give n .ipv4 []).give n .ipv6 [],
        update t.ips n fun _ => none⟩ := by
  obtain ⟨q,hs⟩ := h.pool
  apply ((Context.sessRemove_returns ipsubnet t.routed.ctx n).and
    (Context.sessRemove_others ipsubnet t.routed.ctx n)).mono
  intro c _ ⟨⟨⟨id,hpool⟩,hlist,_⟩,hothers⟩
  have hlive : ∀ m,m∈c.sessList ↔ m≠n ∧ m∈t.routed.ctx.sessList := by
    intro m
    rw [hlist]
    exact hs.live_nodup.mem_erase_iff
  have hgiven : ∀ m,(((t.routed.withCtx c).give n .ipv4 []).give n .ipv6 []).given m =
      if m=n then fun _ => [] else t.routed.given m := by
    intro m
    funext l
    rw [Routed.give_given,Routed.give_given]
    by_cases hm : m=n
    · cases l <;> simp [hm]
    · simp [hm,Routed.withCtx]
  refine ⟨?_,?_,?_⟩
  · show ∃ q,Pool.Split c.sessPool q c.sessList
    rw [hpool,hlist]
    exact ⟨_,hs.idFree hn id⟩
  · intro m hm
    obtain ⟨hmn,hold⟩ := (hlive m).mp hm
    have hsess:=hothers m hmn
    refine (h.live m hold).congr (fun v => ?_) (fun l => ?_) (update_of_ne hmn ..) ?_
    · exact congrArg (fun x => x.ip v) hsess
    · exact congrArg (fun x => x.framedRoutes l) hsess
    · rw [hgiven,if_neg hmn]
  · intro m hm
    show (∀ v,update t.ips n _ m v=none) ∧ _
    by_cases hmn : m=n
    · subst hmn
      rw [update_self,hgiven,if_pos rfl]
      exact ⟨fun _ => rfl,fun _ => rfl⟩
    · rw [update_of_ne hmn,hgiven,if_neg hmn]
      exact h.dead m fun hold => hm ((hlive m).mpr ⟨hmn,hold⟩)

theorem Current.step {op : Op} {o : Outcome Configured Unit} (h : t.Current)
    (hcond : t.Rewrites ipsubnet op) (ho : t.step ipsubnet op=some o) :
    o.Returns fun t' _ => t'.Current := by
  obtain ⟨o,hstep,rfl⟩ := map_eq_some_iff.mp ho
  apply Outcome.Returns.mapState
  cases op with
  | add stack cpFSeid =>
    obtain rfl := some.inj hstep
    exact (Outcome.Returns.mapState (h.add stack cpFSeid)).bind fun _ _ ht => ht
  | setUeIp n sessionType x =>
    simp only [Routed.step] at hstep
    split at hstep
    · rename_i hn
      obtain rfl := some.inj hstep
      exact (Outcome.Returns.mapState (h.setUeIp hn hcond)).bind fun _ _ ht => ht
    · cases hstep
  | setFramedRoutes n list framedRoutes =>
    simp only [Routed.step] at hstep
    split at hstep
    · rename_i hn
      obtain rfl := some.inj hstep
      exact h.setRouteList hn hcond
    · cases hstep
  | remove n =>
    simp only [Routed.step] at hstep
    split at hstep
    · rename_i hn
      obtain rfl := some.inj hstep
      have hremove : (t.routed.ctx.sessRemove ipsubnet n).Returns _ := h.remove hn
      cases hc : t.routed.ctx.sessRemove ipsubnet n with
      | abort c => trivial
      | ok c u =>
        rw [hc] at hremove
        exact hremove
    · cases hstep

end Configured

/-- In a run whose calls leave no address and no route of a session behind, every uplink packet
that is written to a device comes from an address that its session has now. -/
theorem source_check_run {poolSess : Nat} {upfN4SeidOf : Nat → BitVec 64} {up : Up}
    {subnets : List Subnet} {seeds : Seeds} {ipsubnet : Ipsubnet} {ops : List Op}
    (h : EachStep (Configured.step ipsubnet) (Configured.Rewrites ipsubnet)
      (Configured.init (contextInit poolSess upfN4SeidOf up subnets seeds)) ops) :
    ∀ t ∈ completed (Configured.step ipsubnet)
      (Configured.init (contextInit poolSess upfN4SeidOf up subnets seeds)) ops,
      t.ChecksSource := by
  intro t ht
  apply Configured.Current.checksSource
  refine completed_inv ?_ (Configured.Current.init poolSess upfN4SeidOf up subnets seeds) h t ht
  intro t op t' r hcurrent hcond ho
  exact hcurrent.step hcond ho

def route6 (k : Byte) : IpSubnet :=
  ⟨.inet6, #v[32,1,13,184,0,k,0,0,0,0,0,0,0,0,0,0],
    #v[255,255,255,255,255,255,0,0,0,0,0,0,0,0,0,0]⟩

def framedRoute6 (k : Byte) : List Byte := ascii "2001:db8:" ++ [48+k]++ascii "::/48"

def ipsubnet6 : Ipsubnet := fun addr mask =>
  if addr.length=12 ∧ mask=some (ascii "48") then some (route6 (addr.getD 9 48-48)) else none

def fewerRoutes : List Op :=
  [.add (Vector.replicate 4 0) (some (fSeid1 1)),.setUeIp 0 2 (pdrUeIp 1),
    .setFramedRoutes 0 .ipv6 [framedRoute6 1,framedRoute6 2],
    .setFramedRoutes 0 .ipv6 [framedRoute6 3]]

def runFewer : List Configured :=
  completed (Configured.step ipsubnet6) (Configured.init context2) fewerRoutes

def staleRoute : Configured := (runFewer[4]?).getD (Configured.init context2)

def uplinkRules : Up :=
  let u:=upInit 1 id 0 0
  let far : Rule Far := ⟨0,1,0,{ Far.zero with applyAction := 512,dstIf := interfaceCore }⟩
  let pdr:={ Pdr.zero with fTeid := FTeid.zero.setTeid 1,far := some 0 }
  u.withCtx (pdrSetTeid .sess { u.ctx with
    pdr := fun _ => pdr
    pdrList := fun s => if s=0 then [0] else []
    far := { u.ctx.far with slot := fun _ => far } } 0)

def packetFrom (k : Byte) : IpPacket :=
  ⟨[0x60,0,0,0,0,0,59,64,32,1,13,184,0,k,0,0,0,0,0,0,0,0,0,1,
    32,1,13,184,0,0,0,0,0,0,0,0,0,0,0,2],[]⟩

def source2 : List Byte := [32,1,13,184,0,2,0,0,0,0,0,0,0,0,0,1]

set_option maxRecDepth 4000 in
theorem stale_route_admits : ¬ ∀ t∈runFewer,t.ChecksSource := by
  intro h
  have hmem : staleRoute∈runFewer := List.mem_of_getElem? (i := 4) rfl
  have hwritten : uRecvGpdu (.init 1) (staleRoute.routed.ctx.withUp uplinkRules) (packetFrom 2)
      1 0=some (.tunWritten 0 1) := by
    decide
  have hlist : staleRoute.routed.ctx.sessList=[0] := rfl
  obtain ⟨v,src,hsource,hsend⟩ := h staleRoute hmem uplinkRules (.init 1) (packetFrom 2) 1 0 0 1
    hwritten (by rw [hlist]; decide)
  have hsrc : source (packetFrom 2)=some (.v6,source2) := rfl
  obtain ⟨rfl,rfl⟩ := Prod.mk.inj (some.inj (hsrc.symm.trans hsource))
  rcases hsend with ⟨ueIp,hip,hue⟩ | ⟨r,hr,-,hcovers⟩
  · have hfirst : staleRoute.ips 0 .v6=some (.dynamic 1 0) := rfl
    obtain rfl := some.inj (hfirst.symm.trans hip)
    have haddr : (staleRoute.routed.ctx.ueIps.addr (.dynamic 1 0)).toList.take 8 =
        [32,32,32,32,32,32,32,2] := rfl
    rcases hue with ⟨⟨hlocal,-⟩,-⟩ | hbegins
    · cases hlocal
    · rw [haddr] at hbegins
      cases hbegins
  · have hgiven : staleRoute.routed.given 0 .ipv6=[route6 3] := rfl
    obtain rfl := List.mem_singleton.mp (hgiven ▸ hr)
    have hbit:=hcovers 47 (by decide) (by decide)
    revert hbit
    decide

set_option maxRecDepth 4000 in
theorem source_check_run_two :
    EachStep (Configured.step ipsubnet6) (Configured.Rewrites ipsubnet6) (Configured.init context2)
        (fewerRoutes.take 3++[.setFramedRoutes 0 .ipv6 [framedRoute6 3,framedRoute6 1]]) ∧
      ∀ t ∈ completed (Configured.step ipsubnet6) (Configured.init context2)
          (fewerRoutes.take 3++[.setFramedRoutes 0 .ipv6 [framedRoute6 3,framedRoute6 1]]),
        t.ChecksSource := by
  have hold : Context.parsed ipsubnet6
      ([framedRoute6 1,framedRoute6 2].take maxNumOfFramedRoutes)=[route6 1,route6 2] := rfl
  have hnew : Context.parsed ipsubnet6
      ([framedRoute6 3,framedRoute6 1].take maxNumOfFramedRoutes)=[route6 3,route6 1] := rfl
  have heach : EachStep (Configured.step ipsubnet6) (Configured.Rewrites ipsubnet6)
      (Configured.init context2)
      (fewerRoutes.take 3 ++
        ([.setFramedRoutes 0 .ipv6 [framedRoute6 3,framedRoute6 1]] : List Op)) := by
    refine ⟨trivial,⟨?_,?_⟩,⟨?_,?_⟩,⟨?_,?_⟩,trivial⟩
    · intro v hno
      cases v <;> exact absurd rfl hno
    · intro hno
      exact absurd rfl hno
    · rw [hold]
      decide
    · intro _ _ _ r hr
      change r∈([] : List IpSubnet) at hr
      cases hr
    · rw [hnew]
      decide
    · intro _ _ _ r hr
      change r∈([] : List IpSubnet) at hr
      cases hr
  exact ⟨heach,source_check_run heach⟩

end OgsDp.Upf
