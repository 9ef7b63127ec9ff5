import OgsDp.Upf.FramedRoutes

/-!
# Who owns the framed routes (src/upf/context.c)

Which routes the sessions were given is kept next to the tries. A trie answers for all of them as
long as no prefix is taken out of it that another list still has.
-/

namespace OgsDp.Upf
open Lib RefTable OgsDp.Core Pfcp Function Option

/-- The UPF, and the routes that each list of a session was last given. -/
structure Routed where
  ctx : Context
  given : Nat → RouteList → List IpSubnet

inductive Op where
  | add (stack : Vector Byte 4) (cpFSeid : Option (Vector Byte 29))
  | setUeIp (n : Nat) (sessionType : Byte) (pdr : PdrUp)
  | setFramedRoutes (n : Nat) (list : RouteList) (framedRoutes : List (List Byte))
  | remove (n : Nat)

namespace Routed

def init (c : Context) : Routed := ⟨c,fun _ _ => []⟩

def withCtx (t : Routed) (c : Context) : Routed := { t with ctx := c }

def give (t : Routed) (n : Nat) (list : RouteList) (rs : List IpSubnet) : Routed :=
  { t with given := update t.given n (update (t.given n) list rs) }

def step (ipsubnet : Ipsubnet) (t : Routed) : Op → Option (Outcome Routed Unit)
  | .add stack cpFSeid =>
    some (((t.ctx.sessAddByMessage stack cpFSeid).mapState t.withCtx).bind fun t _ => .ok t ())
  | .setUeIp n sessionType pdr =>
    if n∈t.ctx.sessList then
      some (((t.ctx.sessSetUeIp n sessionType pdr).mapState t.withCtx).bind fun t _ => .ok t ())
    else none
  | .setFramedRoutes n list framedRoutes =>
    if n∈t.ctx.sessList then
      some (.ok ((t.withCtx (t.ctx.setRouteList ipsubnet n list framedRoutes)).give n list
        (Context.parsed ipsubnet (framedRoutes.take maxNumOfFramedRoutes))) ())
    else none
  | .remove n =>
    if n∈t.ctx.sessList then
      some (((t.ctx.sessRemove ipsubnet n).mapState t.withCtx).bind fun t _ =>
        .ok ((t.give n .ipv4 []).give n .ipv6 []) ())
    else none

def Owns (t : Routed) (n : Nat) (r : IpSubnet) : Prop :=
  n∈t.ctx.sessList ∧ ∃ list,r∈t.given n list

/-- The answer for an address is the owner of the longest route that covers it. -/
def LongestOwner (t : Routed) (ipv4 : Bool) (addr : List Byte) : Option Nat → Prop
  | some n => ∃ r,t.Owns n r ∧ r.isIpv4=ipv4 ∧ r.Covers addr ∧
      ∀ m r',t.Owns m r' → r'.isIpv4=ipv4 → r'.Covers addr → r'.prefixLength ≤ r.prefixLength
  | none => ∀ m r,t.Owns m r → r.isIpv4=ipv4 → ¬ r.Covers addr

structure Matches (t : Routed) : Prop where
  ipv4 : ∀ addr : Addr, get t.ctx.ipv4Keys t.ctx.ipv4Hash addr.toList=none →
    t.LongestOwner true addr.toList (t.ctx.sessFindByIpv4 addr)
  ipv6 : ∀ addr6 : Addr6, get t.ctx.ipv6Keys t.ctx.ipv6Hash (addr6.toList.take 8)=none →
    t.LongestOwner false addr6.toList (t.ctx.sessFindByIpv6 addr6)

structure Tracks (t : Routed) : Prop where
  pool : ∃ q,Pool.Split t.ctx.sessPool q t.ctx.sessList
  given : ∀ n ∉ t.ctx.sessList,∀ list,t.given n list=[]
  listed : ∀ n list,t.given n list <+: t.ctx.listed n list
  contiguous : ∀ n list,∀ r∈t.given n list,r.Contiguous
  owned : ∀ k n,t.ctx.routeAt k=some n → ∃ r,t.Owns n r ∧ r.place=k
  found : ∀ n r,t.Owns n r → t.ctx.routeAt r.place≠none

variable {ipsubnet : Ipsubnet} {t : Routed} {c : Context} {n : Nat}

namespace Tracks

theorem congr {t' : Routed} (h : t.Tracks)
    (hpool : ∃ q,Pool.Split t'.ctx.sessPool q t'.ctx.sessList)
    (hlist : ∀ n,n∈t.ctx.sessList → n∈t'.ctx.sessList)
    (hgiven : t'.given=t.given)
    (hlisted : ∀ n∈t.ctx.sessList,∀ l,t'.ctx.listed n l=t.ctx.listed n l)
    (hroute : ∀ k,t'.ctx.routeAt k=t.ctx.routeAt k) : t'.Tracks := by
  have howns : ∀ n r,t'.Owns n r ↔ t.Owns n r := by
    intro n r
    unfold Owns
    rw [hgiven]
    constructor
    · rintro ⟨-,l,hr⟩
      refine ⟨?_,l,hr⟩
      by_contra hno
      rw [h.given n hno l] at hr
      cases hr
    · rintro ⟨hn,hr⟩
      exact ⟨hlist n hn,hr⟩
  refine ⟨hpool,?_,?_,?_,?_,?_⟩
  · intro n hn l
    rw [hgiven]
    exact h.given n (fun hmem => hn (hlist n hmem)) l
  · intro n l
    rw [hgiven]
    by_cases hn : n∈t.ctx.sessList
    · rw [hlisted n hn]
      exact h.listed n l
    · rw [h.given n hn]
      exact List.nil_prefix
  · rw [hgiven]
    exact h.contiguous
  · intro k n hk
    rw [hroute] at hk
    obtain ⟨r,ho,hr⟩ := h.owned k n hk
    exact ⟨r,(howns n r).mpr ho,hr⟩
  · intro n r ho
    rw [hroute]
    exact h.found n r ((howns n r).mp ho)

theorem add (h : t.Tracks) (stack : Vector Byte 4) (cpFSeid : Option (Vector Byte 29)) :
    (t.ctx.sessAddByMessage stack cpFSeid).Returns fun c _ => (t.withCtx c).Tracks := by
  unfold Context.sessAddByMessage
  cases cpFSeid with
  | none => exact h
  | some fSeid =>
    simp only
    split
    · cases t.ctx.sessFindBySmfN4FSeid fSeid stack with
      | some n => exact h
      | none =>
        obtain ⟨q,hs⟩ := h.pool
        apply (Context.sessAdd_joined hs fSeid).bind
        intro c n hjoined
        refine h.congr hjoined.pool ?_ rfl ?_ hjoined.routeAt
        · intro m hm
          show m∈c.sessList
          rw [hjoined.sessList]
          exact List.mem_append_left _ hm
        · intro m hm l
          refine hjoined.listed ?_ l
          rintro rfl
          exact hjoined.new hm
    · exact h

theorem setUeIp (h : t.Tracks) (n : Nat) (sessionType : Byte) (x : PdrUp) :
    (t.ctx.sessSetUeIp n sessionType x).Returns fun c _ => (t.withCtx c).Tracks := by
  apply (Context.sessSetUeIp_routing t.ctx n sessionType x).mono
  intro c _ hc
  have hlist : c.sessList=t.ctx.sessList := congrArg (fun x => x.2.1) hc
  have hpool : c.sessPool=t.ctx.sessPool := congrArg (fun x => x.1) hc
  refine h.congr ?_ ?_ rfl (fun m _ l => Context.routing_listed hc m l)
    (Context.routing_routeAt hc)
  · show ∃ q,Pool.Split c.sessPool q c.sessList
    rw [hlist,hpool]
    exact h.pool
  · intro m hm
    show m∈c.sessList
    rw [hlist]
    exact hm

end Tracks

/-- The condition under which a call takes no prefix out of the tries that a list still has. -/
def Undisturbed (ipsubnet : Ipsubnet) (t : Routed) : Op → Prop
  | .setFramedRoutes n list framedRoutes =>
    (∀ r∈Context.parsed ipsubnet (framedRoutes.take maxNumOfFramedRoutes),r.Contiguous) ∧
      ∀ p∈t.ctx.listed n list,∀ m l,(m≠n ∨ l≠list) → ∀ r ∈ t.given m l,
        r.place=p.place →
          ∃ r' ∈ Context.parsed ipsubnet (framedRoutes.take maxNumOfFramedRoutes),
            r'.place=p.place
  | .remove n => ∀ list,∀ p∈t.ctx.listed n list,∀ m l,m≠n → ∀ r ∈ t.given m l,
      r.place≠p.place
  | _ => True

theorem give_given (t : Routed) (n : Nat) (list : RouteList) (rs : List IpSubnet) (m : Nat)
    (l : RouteList) :
    (t.give n list rs).given m l = if m=n ∧ l=list then rs else t.given m l := by
  unfold give
  by_cases hm : m=n
  · subst hm
    by_cases hl : l=list
    · simp [hl]
    · simp [hl]
  · simp [hm]

theorem Tracks.setRouteList {list : RouteList} {framedRoutes : List (List Byte)} (h : t.Tracks)
    (hn : n∈t.ctx.sessList)
    (hcond : t.Undisturbed ipsubnet (.setFramedRoutes n list framedRoutes)) :
    ((t.withCtx (t.ctx.setRouteList ipsubnet n list framedRoutes)).give n list
      (Context.parsed ipsubnet (framedRoutes.take maxNumOfFramedRoutes))).Tracks := by
  have hset:=Context.setRouteList_set ipsubnet t.ctx n list framedRoutes
  obtain ⟨hcontiguous,hkept⟩ := hcond
  generalize t.ctx.setRouteList ipsubnet n list framedRoutes=c at hset
  have hroute:=hset.routeAt
  have hlisted:=hset.listed
  generalize Context.parsed ipsubnet (framedRoutes.take maxNumOfFramedRoutes)=rs
    at hcontiguous hkept hroute hlisted
  have hgiven : ∀ m l,((t.withCtx c).give n list rs).given m l =
      if m=n ∧ l=list then rs else t.given m l := give_given _ n list rs
  have hother : ∀ m l,¬ (m=n ∧ l=list) → m≠n ∨ l≠list := by
    intro m l hno
    by_cases hm : m=n
    · exact .inr fun hl => hno ⟨hm,hl⟩
    · exact .inl hm
  have hlive : ∀ m,m∈c.sessList ↔ m∈t.ctx.sessList := by
    intro m
    rw [hset.sessList]
  refine ⟨?_,?_,?_,?_,?_,?_⟩
  · show ∃ q,Pool.Split c.sessPool q c.sessList
    rw [hset.sessPool,hset.sessList]
    exact h.pool
  · intro m hm l
    have hdead : m∉t.ctx.sessList := fun hmem => hm ((hlive m).mpr hmem)
    rw [hgiven,if_neg]
    · exact h.given m hdead l
    · rintro ⟨rfl,-⟩
      exact hdead hn
  · intro m l
    rw [hgiven]
    split
    · rename_i hml
      rw [hml.1,hml.2]
      exact hlisted
    · rename_i hml
      show t.given m l <+: c.listed m l
      rw [hset.others m l (hother m l hml)]
      exact h.listed m l
  · intro m l r hr
    rw [hgiven] at hr
    split at hr
    · exact hcontiguous r hr
    · exact h.contiguous m l r hr
  · intro k m hk
    have hk' : c.routeAt k=some m := hk
    rw [hroute] at hk'
    split at hk'
    · rename_i hmem
      obtain rfl := some.inj hk'
      obtain ⟨r,hr,rfl⟩ := List.mem_map.mp hmem
      refine ⟨r,⟨(hlive n).mpr hn,list,?_⟩,rfl⟩
      rw [hgiven,if_pos ⟨rfl,rfl⟩]
      exact hr
    · split at hk'
      · cases hk'
      · rename_i hfreed
        obtain ⟨r,⟨hm,l,hr⟩,rfl⟩ := h.owned k m hk'
        refine ⟨r,⟨(hlive m).mpr hm,l,?_⟩,rfl⟩
        rw [hgiven,if_neg]
        · exact hr
        · rintro ⟨rfl,rfl⟩
          exact hfreed (List.mem_map_of_mem ((h.listed m l).subset hr))
  · intro m r ⟨hm,l,hr⟩
    show c.routeAt r.place≠none
    rw [hroute]
    rw [hgiven] at hr
    split at hr
    · rw [if_pos (List.mem_map_of_mem hr)]
      exact some_ne_none n
    · rename_i hml
      split
      · exact some_ne_none n
      · rename_i hnew
        rw [if_neg]
        · exact h.found m r ⟨(hlive m).mp hm,l,hr⟩
        · intro hfreed
          obtain ⟨p,hp,hplace⟩ := List.mem_map.mp hfreed
          obtain ⟨r',hr',hplace'⟩ := hkept p hp m l (hother m l hml) r hr hplace.symm
          exact hnew (List.mem_map.mpr ⟨r',hr',hplace'.trans hplace⟩)

theorem Tracks.remove (h : t.Tracks) (hn : n∈t.ctx.sessList)
    (hcond : t.Undisturbed ipsubnet (.remove n)) :
    (t.ctx.sessRemove ipsubnet n).Returns fun c _ =>
      (((t.withCtx c).give n .ipv4 []).give n .ipv6 []).Tracks := by
  apply (Context.sessRemove_returns ipsubnet t.ctx n).mono
  intro c _ ⟨⟨id,hpool⟩,hlist,hroute,hlisted⟩
  have hgiven : ∀ m l,(((t.withCtx c).give n .ipv4 []).give n .ipv6 []).given m l =
      if m=n then [] else t.given m l := by
    intro m l
    rw [give_given,give_given]
    by_cases hm : m=n
    · cases l <;> simp [hm]
    · simp [hm,withCtx]
  obtain ⟨q,hs⟩ := h.pool
  have hlive : ∀ m,m∈c.sessList ↔ m≠n ∧ m∈t.ctx.sessList := by
    intro m
    rw [hlist]
    exact hs.live_nodup.mem_erase_iff
  refine ⟨?_,?_,?_,?_,?_,?_⟩
  · show ∃ q,Pool.Split c.sessPool q c.sessList
    rw [hpool,hlist]
    exact ⟨_,hs.idFree hn id⟩
  · intro m hm l
    rw [hgiven]
    split
    · rfl
    · rename_i hne
      exact h.given m (fun hmem => hm ((hlive m).mpr ⟨hne,hmem⟩)) l
  · intro m l
    rw [hgiven]
    split
    · exact List.nil_prefix
    · rename_i hne
      show t.given m l <+: c.listed m l
      rw [hlisted m hne]
      exact h.listed m l
  · intro m l r hr
    rw [hgiven] at hr
    split at hr
    · cases hr
    · exact h.contiguous m l r hr
  · intro k m hk
    have hk' : c.routeAt k=some m := hk
    rw [hroute] at hk'
    split at hk'
    · cases hk'
    · rename_i hfreed
      obtain ⟨r,⟨hm,l,hr⟩,rfl⟩ := h.owned k m hk'
      have hne : m≠n := by
        rintro rfl
        refine hfreed (List.mem_map_of_mem ?_)
        have hmem:=(h.listed m l).subset hr
        cases l with
        | ipv4 => exact List.mem_append_left _ hmem
        | ipv6 => exact List.mem_append_right _ hmem
      refine ⟨r,⟨(hlive m).mpr ⟨hne,hm⟩,l,?_⟩,rfl⟩
      rw [hgiven,if_neg hne]
      exact hr
  · intro m r ⟨hm,l,hr⟩
    show c.routeAt r.place≠none
    obtain ⟨hne,hm⟩ := (hlive m).mp hm
    rw [hgiven,if_neg hne] at hr
    rw [hroute,if_neg]
    · exact h.found m r ⟨hm,l,hr⟩
    · intro hfreed
      obtain ⟨p,hp,hplace⟩ := List.mem_map.mp hfreed
      rcases List.mem_append.mp hp with hp | hp
      · exact hcond .ipv4 p hp m l hne r hr hplace.symm
      · exact hcond .ipv6 p hp m l hne r hr hplace.symm

theorem Tracks.step {op : Op} {o : Outcome Routed Unit} (h : t.Tracks)
    (hcond : t.Undisturbed ipsubnet op) (ho : t.step ipsubnet op=some o) :
    o.Returns fun t' _ => t'.Tracks := by
  cases op with
  | add stack cpFSeid =>
    obtain rfl := some.inj ho
    exact (Outcome.Returns.mapState (h.add stack cpFSeid)).bind fun _ _ ht => ht
  | setUeIp n sessionType x =>
    simp only [Routed.step] at ho
    split at ho
    · obtain rfl := some.inj ho
      exact (Outcome.Returns.mapState (h.setUeIp n sessionType x)).bind fun _ _ ht => ht
    · cases ho
  | setFramedRoutes n list framedRoutes =>
    simp only [Routed.step] at ho
    split at ho
    · rename_i hn
      obtain rfl := some.inj ho
      exact h.setRouteList hn hcond
    · cases ho
  | remove n =>
    simp only [Routed.step] at ho
    split at ho
    · rename_i hn
      obtain rfl := some.inj ho
      have hremove:=h.remove hn hcond
      cases hc : t.ctx.sessRemove ipsubnet n with
      | abort c => trivial
      | ok c u =>
        rw [hc] at hremove
        exact hremove
    · cases ho

theorem Tracks.longest {nbits : Nat} {addr : List Byte} (h : t.Tracks) (ipv4 : Bool)
    (hbits : ∀ r : IpSubnet, r.isIpv4=ipv4 → r.nbits=nbits) :
    t.LongestOwner ipv4 addr ((t.ctx.trie ipv4).longest none (turnsOf nbits addr)) := by
  cases hfind : (t.ctx.trie ipv4).longest none (turnsOf nbits addr) with
  | none =>
    obtain ⟨-,hnone⟩ := Trie.longest_none hfind
    intro m r ho hr hcovers
    apply h.found m r ho
    have hbegins:=((h.contiguous m _ r ho.2.choose_spec).prefix_iff addr).mpr hcovers
    rw [hbits r hr] at hbegins
    unfold Context.routeAt IpSubnet.place
    rw [hr]
    exact hnone r.turns hbegins
  | some n =>
    rcases Trie.longest_some hfind with ⟨w,hw,hget,hmax⟩ | ⟨hno,-⟩
    · obtain ⟨r,ho,hplace⟩ := h.owned (ipv4,w) n hget
      obtain ⟨hr,rfl⟩ := Prod.mk.inj hplace
      have hc:=h.contiguous n _ r ho.2.choose_spec
      refine ⟨r,ho,hr,?_,?_⟩
      · rw [← hbits r hr] at hw
        exact (hc.prefix_iff addr).mp hw
      · intro m r' ho' hr' hcovers
        have hc':=h.contiguous m _ r' ho'.2.choose_spec
        rw [← hc.length_turns,← hc'.length_turns]
        have hbegins:=(hc'.prefix_iff addr).mpr hcovers
        rw [hbits r' hr'] at hbegins
        refine hmax r'.turns hbegins ?_
        have hfound:=h.found m r' ho'
        unfold Context.routeAt IpSubnet.place at hfound
        rw [hr'] at hfound
        exact hfound
    · cases hno

theorem Tracks.matches (h : t.Tracks) : t.Matches where
  ipv4 := by
    intro addr hno
    unfold Context.sessFindByIpv4
    rw [hno]
    refine h.longest true ?_
    intro r hr
    have hfamily : r.family = .inet := by simpa [IpSubnet.isIpv4] using hr
    simp [IpSubnet.nbits,hfamily]
  ipv6 := by
    intro addr6 hno
    unfold Context.sessFindByIpv6
    rw [hno]
    refine h.longest false ?_
    intro r hr
    have hfamily : r.family ≠ .inet := by simpa [IpSubnet.isIpv4] using hr
    simp [IpSubnet.nbits,hfamily]

theorem Tracks.init (poolSess : Nat) (upfN4SeidOf : Nat → BitVec 64) (up : Up)
    (subnets : List Subnet) (seeds : Seeds) :
    (Routed.init (contextInit poolSess upfN4SeidOf up subnets seeds)).Tracks where
  pool := ⟨_,Pool.split_init poolSess⟩
  given := fun _ _ _ => rfl
  listed := fun _ _ => List.nil_prefix
  contiguous := by
    intro n list r hr
    cases hr
  owned := by
    intro k n hk
    have hnone : (Trie.null : Trie Nat).get k.2=none := Trie.get_null k.2
    unfold Context.routeAt Context.trie at hk
    split at hk
    · rw [show (Routed.init _).ctx.ipv4FramedRoutes=Trie.null from rfl,hnone] at hk
      cases hk
    · rw [show (Routed.init _).ctx.ipv6FramedRoutes=Trie.null from rfl,hnone] at hk
      cases hk
  found := by
    intro n r ho
    cases ho.1

end Routed

/-- In a run that takes no prefix out of the tries that a list still has, the lookups answer with
the owner of the longest route. -/
theorem matches_run {poolSess : Nat} {upfN4SeidOf : Nat → BitVec 64} {up : Up}
    {subnets : List Subnet} {seeds : Seeds} {ipsubnet : Ipsubnet} {ops : List Op}
    (h : EachStep (Routed.step ipsubnet) (Routed.Undisturbed ipsubnet)
      (Routed.init (contextInit poolSess upfN4SeidOf up subnets seeds)) ops) :
    ∀ t ∈ completed (Routed.step ipsubnet)
      (Routed.init (contextInit poolSess upfN4SeidOf up subnets seeds)) ops, t.Matches := by
  intro t ht
  apply Routed.Tracks.matches
  refine completed_inv ?_ (Routed.Tracks.init poolSess upfN4SeidOf up subnets seeds) h t ht
  intro t op t' r htracks hcond ho
  exact htracks.step hcond ho

def context1 : Context := contextInit 2 (fun n => BitVec.ofNat 64 (n+1)) (upInit 2 id 0 0) []
  ⟨0,0,0,0,0⟩

def fSeid1 (seid : Byte) : Vector Byte 29 :=
  Vector.ofFn fun i => if i.val=0 then 2 else if i.val=8 then seid else 0

def framedRoute1 : List Byte := [49,48,46,48,46,48,46,48,47,56]

def subnet1 : IpSubnet :=
  ⟨.inet,Vector.ofFn fun i => if i.val=0 then 10 else 0,
    Vector.ofFn fun i => if i.val=0 then 255 else 0⟩

def ipsubnet1 : Ipsubnet := fun addr mask =>
  if addr=framedRoute1.take 8 ∧ mask=some [56] then some subnet1 else none

def sharedRoute : List Op :=
  [.add (Vector.replicate 4 0) (some (fSeid1 1)),.add (Vector.replicate 4 0) (some (fSeid1 2)),
    .setFramedRoutes 0 .ipv4 [framedRoute1],.setFramedRoutes 1 .ipv4 [framedRoute1],.remove 1]

def runShared : List Routed := completed (Routed.step ipsubnet1) (Routed.init context1) sharedRoute

def lost1 : Routed := (runShared[5]?).getD (Routed.init context1)

set_option maxRecDepth 4000 in
theorem route_lost : ¬ ∀ t∈runShared,t.Matches := by
  intro h
  have hmem : lost1∈runShared := List.mem_of_getElem? (i := 5) rfl
  have howner:=(h lost1 hmem).ipv4 (Vector.ofFn fun i => if i=0 then 10 else 1) rfl
  have hfind : lost1.ctx.sessFindByIpv4 (Vector.ofFn fun i => if i=0 then 10 else 1)=none := rfl
  have hlist : lost1.ctx.sessList=[0] := rfl
  have hgiven : lost1.given 0 .ipv4=[subnet1] := rfl
  rw [hfind] at howner
  refine howner 0 subnet1 ⟨?_,.ipv4,?_⟩ rfl ?_
  · rw [hlist]
    exact List.mem_singleton_self 0
  · rw [hgiven]
    exact List.mem_singleton_self subnet1
  · unfold IpSubnet.Covers
    decide

set_option maxRecDepth 4000 in
theorem matches_run_one :
    EachStep (Routed.step ipsubnet1) (Routed.Undisturbed ipsubnet1) (Routed.init context1)
        (sharedRoute.take 3) ∧
      ∀ t ∈ completed (Routed.step ipsubnet1) (Routed.init context1) (sharedRoute.take 3),
        t.Matches := by
  have hcontiguous : subnet1.Contiguous := ⟨8,by decide,by decide⟩
  have hparsed : Context.parsed ipsubnet1 ([framedRoute1].take maxNumOfFramedRoutes) =
      [subnet1] := rfl
  have heach : EachStep (Routed.step ipsubnet1) (Routed.Undisturbed ipsubnet1)
      (Routed.init context1) (sharedRoute.take 3) := by
    refine ⟨trivial,trivial,⟨?_,?_⟩,trivial⟩
    · intro r hr
      rw [hparsed,List.mem_singleton] at hr
      rw [hr]
      exact hcontiguous
    · intro p hp
      cases hp
  exact ⟨heach,matches_run heach⟩

end OgsDp.Upf
