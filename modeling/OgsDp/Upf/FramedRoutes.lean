import OgsDp.Upf.Context

/-!
# Framed routes of the UPF (src/upf/context.c)

A route covers an address just if the turns it takes in its trie are the first of the address.
-/

namespace OgsDp.Upf
open Lib RefTable OgsDp.Core Pfcp Function

namespace IpSubnet

variable {r : IpSubnet}

def isIpv4 (r : IpSubnet) : Bool := r.family == .inet

def place (r : IpSubnet) : Bool × List Bool := (r.isIpv4,r.turns)

def Contiguous (r : IpSubnet) : Prop :=
  ∃ k ≤ r.nbits,∀ i < r.nbits,r.maskBit i=decide (i<k)

def prefixLength (r : IpSubnet) : Nat := (List.range r.nbits).countP r.maskBit

/-- The address has the bits of the route wherever the mask is set. -/
def Covers (r : IpSubnet) (addr : List Byte) : Prop :=
  ∀ i < r.nbits,r.maskBit i=true → Context.bitAt r.nbits addr i=r.subBit i

theorem Contiguous.takeWhile {k : Nat} (hk : k ≤ r.nbits)
    (h : ∀ i < r.nbits,r.maskBit i=decide (i<k)) :
    (List.range r.nbits).takeWhile r.maskBit=List.range k := by
  obtain ⟨d,hd⟩ := Nat.exists_eq_add_of_le hk
  rw [hd] at h ⊢
  rw [List.range_add,List.takeWhile_append_of_pos]
  · cases d with
    | zero => simp
    | succ d =>
      have hstop : r.maskBit k=false := by
        rw [h k (by omega)]
        simp
      rw [List.range_succ_eq_map]
      simp [hstop]
  · intro i hi
    have hlt : i<k := by simpa using hi
    rw [h i (by omega)]
    simpa using hlt

theorem Contiguous.length_turns (h : r.Contiguous) : r.turns.length=r.prefixLength := by
  obtain ⟨k,hk,h⟩ := h
  have hcount : (List.range r.nbits).countP r.maskBit=k := by
    have hsame : (List.range r.nbits).countP r.maskBit =
        (List.range r.nbits).countP fun i => decide (i<k) := by
      apply List.countP_congr
      intro i hi
      rw [h i (by simpa using hi)]
    rw [hsame,List.countP_eq_length_filter]
    have hlt : (List.range r.nbits).filter (fun i => decide (i<k))=List.range k := by
      obtain ⟨d,hd⟩ := Nat.exists_eq_add_of_le hk
      rw [hd,List.range_add,List.filter_append,List.filter_eq_self.mpr,List.filter_eq_nil_iff.mpr]
      · simp
      · intro i hi
        simp only [List.mem_map] at hi
        obtain ⟨j,-,rfl⟩ := hi
        simp
      · intro i hi
        simpa using hi
    rw [hlt,List.length_range]
  unfold turns prefixLength
  rw [Contiguous.takeWhile hk h,hcount,List.length_map,List.length_range]

theorem Contiguous.prefix_iff (h : r.Contiguous) (addr : List Byte) :
    r.turns <+: turnsOf r.nbits addr ↔ r.Covers addr := by
  obtain ⟨k,hk,h⟩ := h
  unfold turns turnsOf
  rw [Contiguous.takeWhile hk h,List.prefix_iff_eq_take,List.length_map,List.length_range,
    ← List.map_take,List.take_range,Nat.min_eq_left hk]
  constructor
  · intro heq i hi hmask
    rw [h i hi,decide_eq_true_eq] at hmask
    have hat:=congrArg (fun l => l[i]?) heq
    simpa [hmask] using hat.symm
  · intro hcovers
    apply List.map_congr_left
    intro i hi
    have hlt : i<k := by simpa using hi
    refine (hcovers i (by omega) ?_).symm
    rw [h i (by omega)]
    simpa using hlt

end IpSubnet

namespace Context

variable {c : Context} {ipsubnet : Ipsubnet} {n : Nat} {k : Bool × List Bool}

def trie (c : Context) (ipv4 : Bool) : Trie Nat :=
  if ipv4 then c.ipv4FramedRoutes else c.ipv6FramedRoutes

def routeAt (c : Context) (k : Bool × List Bool) : Option Nat := (c.trie k.1).get k.2

def addressing (c : Context) :
    UeIps × Seeds × List (Entry UeIpRef Nat) × List (Entry UeIpRef Nat) :=
  (c.ueIps,c.seeds,c.ipv4Hash,c.ipv6Hash)

structure SameButTries (c c' : Context) : Prop where
  sessPool : c'.sessPool=c.sessPool
  sess : c'.sess=c.sess
  sessList : c'.sessList=c.sessList
  addressing : c'.addressing=c.addressing

theorem SameButTries.refl (c : Context) : SameButTries c c := ⟨rfl,rfl,rfl,rfl⟩

theorem SameButTries.trans {c c' c'' : Context} (h : SameButTries c c')
    (h' : SameButTries c' c'') : SameButTries c c'' :=
  ⟨h'.sessPool.trans h.sessPool,h'.sess.trans h.sess,h'.sessList.trans h.sessList,
    h'.addressing.trans h.addressing⟩

theorem updateTrie_same (c : Context) (r : IpSubnet) (f : Trie Nat → Trie Nat) :
    SameButTries c (c.updateTrie r f) := by
  unfold updateTrie
  split <;> exact ⟨rfl,rfl,rfl,rfl⟩

theorem updateTrie_routeAt (c : Context) (r : IpSubnet) (f : Trie Nat → Trie Nat) :
    (c.updateTrie r f).routeAt k =
      if k.1=r.isIpv4 then (f (c.trie k.1)).get k.2 else c.routeAt k := by
  obtain ⟨b,w⟩ := k
  unfold updateTrie routeAt trie IpSubnet.isIpv4
  by_cases hr : r.family = .inet
  · cases b <;> simp [hr]
  · cases b <;> simp [hr]

theorem freeFramedRouteFromTrie_routeAt (c : Context) (r : IpSubnet) :
    (c.freeFramedRouteFromTrie r).routeAt k = if k=r.place then none else c.routeAt k := by
  unfold freeFramedRouteFromTrie
  rw [updateTrie_routeAt,Trie.get_free]
  obtain ⟨b,w⟩ := k
  by_cases hb : b=r.isIpv4
  · simp [hb,IpSubnet.place,routeAt]
  · simp [hb,IpSubnet.place]

theorem addFramedRouteToTrie_routeAt (c : Context) (r : IpSubnet) (n : Nat) :
    (c.addFramedRouteToTrie r n).routeAt k = if k=r.place then some n else c.routeAt k := by
  unfold addFramedRouteToTrie
  rw [updateTrie_routeAt,Trie.get_add]
  obtain ⟨b,w⟩ := k
  by_cases hb : b=r.isIpv4
  · simp [hb,IpSubnet.place,routeAt]
  · simp [hb,IpSubnet.place]

theorem freeRoutes_same (c : Context) (rs : List IpSubnet) :
    SameButTries c (rs.foldl freeFramedRouteFromTrie c) := by
  induction rs generalizing c with
  | nil => exact .refl c
  | cons r rs ih => exact (updateTrie_same c r _).trans (ih _)

theorem freeRoutes_routeAt (c : Context) (rs : List IpSubnet) :
    (rs.foldl freeFramedRouteFromTrie c).routeAt k =
      if k∈rs.map IpSubnet.place then none else c.routeAt k := by
  induction rs generalizing c with
  | nil => rfl
  | cons r rs ih =>
    rw [List.foldl_cons,ih,freeFramedRouteFromTrie_routeAt]
    by_cases hk : k=r.place
    · simp [hk]
    · simp [hk]

def parsed (ipsubnet : Ipsubnet) (framedRoutes : List (List Byte)) : List IpSubnet :=
  framedRoutes.filterMap (parseFramedRoute ipsubnet)

def Begins (a : Option Routes) (rs : List IpSubnet) : Prop :=
  (a.getD .empty).toList.take rs.length=rs.map some

structure Added (ipsubnet : Ipsubnet) (n : Nat) (framedRoutes : List (List Byte)) (c : Context)
    (before : List IpSubnet) (s : Context × Option Routes × Nat) : Prop where
  same : SameButTries c s.1
  routeAt : ∀ k,s.1.routeAt k =
    if k∈(parsed ipsubnet framedRoutes).map IpSubnet.place then some n else c.routeAt k
  length : s.2.2=before.length+(parsed ipsubnet framedRoutes).length
  array : Begins s.2.1 (before++parsed ipsubnet framedRoutes)

theorem begins_set {a : Routes} {rs : List IpSubnet} (x : Option IpSubnet)
    (h : Begins (some a) rs) : Begins (some (a.setIfInBounds rs.length x)) rs := by
  unfold Begins at h ⊢
  simp only [Option.getD_some] at h ⊢
  rw [Vector.toList_setIfInBounds,List.take_set_of_le (Nat.le_refl _),h]

theorem begins_push {a : Routes} {rs : List IpSubnet} (r : IpSubnet)
    (hlen : rs.length < maxNumOfFramedRoutes) (h : Begins (some a) rs) :
    Begins (some (a.setIfInBounds rs.length (some r))) (rs++[r]) := by
  unfold Begins at h ⊢
  simp only [Option.getD_some] at h ⊢
  rw [Vector.toList_setIfInBounds,List.length_append,List.length_singleton,List.map_append,
    List.take_add_one,List.take_set_of_le (Nat.le_refl _),h]
  congr 1
  rw [List.getElem?_set_self]
  · rfl
  · simpa using hlen

theorem addRoutes_added (ipsubnet : Ipsubnet) (n : Nat) (framedRoutes : List (List Byte))
    (c : Context) (a : Option Routes) (before : List IpSubnet) (ha : Begins a before)
    (hlen : before.length+framedRoutes.length ≤ maxNumOfFramedRoutes) :
    Added ipsubnet n framedRoutes c before
      (addRoutes ipsubnet n framedRoutes c a before.length) := by
  induction framedRoutes generalizing c a before with
  | nil =>
    refine ⟨.refl c,?_,?_,?_⟩
    · simp [addRoutes,parsed]
    · simp [addRoutes,parsed]
    · simpa [addRoutes,parsed] using ha
  | cons r rs ih =>
    simp only [List.length_cons] at hlen
    have ha' : Begins (some (a.getD .empty)) before := ha
    unfold addRoutes
    simp only
    cases hr : parseFramedRoute ipsubnet r with
    | none =>
      have hrest:=ih c _ before (begins_set none ha') (by omega)
      have hparsed : parsed ipsubnet (r::rs)=parsed ipsubnet rs := by
        simp [parsed,hr]
      exact ⟨hrest.same,hparsed ▸ hrest.routeAt,hparsed ▸ hrest.length,hparsed ▸ hrest.array⟩
    | some route =>
      have hrest:=ih (c.addFramedRouteToTrie route n) _ (before++[route])
        (begins_push route (by omega) ha') (by simp; omega)
      rw [List.length_append,List.length_singleton] at hrest
      have hparsed : parsed ipsubnet (r::rs)=route::parsed ipsubnet rs := by
        simp [parsed,hr]
      refine ⟨(updateTrie_same c route _).trans hrest.same,?_,?_,?_⟩
      · intro k
        rw [hrest.routeAt,addFramedRouteToTrie_routeAt,hparsed]
        by_cases hk : k=route.place
        · simp [hk]
        · simp [hk]
      · rw [hrest.length,hparsed,List.length_cons]
        simp
        omega
      · rw [hparsed]
        simpa using hrest.array

theorem prefix_used {l : List (Option IpSubnet)} {rs : List IpSubnet}
    (h : l.take rs.length=rs.map some) : rs <+: (l.takeWhile Option.isSome).filterMap id := by
  rw [← List.take_append_drop rs.length l,h,List.takeWhile_append_of_pos (by simp),
    List.filterMap_append]
  simp

theorem begins_used {a : Option Routes} {rs : List IpSubnet} (h : Begins a rs) :
    rs <+: a.elim [] Routes.used := by
  have hused : rs <+: (a.getD .empty).used := prefix_used h
  cases a with
  | some a => exact hused
  | none => exact hused

theorem setFramedRoutes_added (ipsubnet : Ipsubnet) (clear : Bool) (c : Context) (n : Nat)
    (a : Option Routes) (framedRoutes : List (List Byte)) :
    SameButTries c (c.setFramedRoutes ipsubnet clear n a framedRoutes).1 ∧
      (∀ k,(c.setFramedRoutes ipsubnet clear n a framedRoutes).1.routeAt k =
        if k∈(parsed ipsubnet (framedRoutes.take maxNumOfFramedRoutes)).map IpSubnet.place then
          some n
        else if k∈(a.elim [] Routes.used).map IpSubnet.place then none else c.routeAt k) ∧
      parsed ipsubnet (framedRoutes.take maxNumOfFramedRoutes) <+:
        (c.setFramedRoutes ipsubnet clear n a framedRoutes).2.elim [] Routes.used := by
  have hadded:=addRoutes_added ipsubnet n (framedRoutes.take maxNumOfFramedRoutes)
    ((a.elim [] Routes.used).foldl freeFramedRouteFromTrie c)
    (a.map fun x => if clear then x.clearUsed else x) [] rfl (by simp)
  unfold setFramedRoutes
  simp only [List.length_nil] at hadded ⊢
  generalize addRoutes ipsubnet n (framedRoutes.take maxNumOfFramedRoutes) _ _ 0=s at hadded ⊢
  refine ⟨(freeRoutes_same c _).trans hadded.same,?_,?_⟩
  · intro k
    rw [hadded.routeAt,freeRoutes_routeAt]
  · split
    · rename_i hzero
      rw [hadded.length,List.length_nil,Nat.zero_add] at hzero
      rw [List.length_eq_zero_iff.mp hzero]
      exact List.nil_prefix
    · exact begins_used hadded.array

end Context

inductive RouteList where
  | ipv4
  | ipv6
  deriving DecidableEq

def Sess.framedRoutes (x : Sess) : RouteList → Option Routes
  | .ipv4 => x.ipv4FramedRoutes
  | .ipv6 => x.ipv6FramedRoutes

namespace Context

variable {c : Context} {n : Nat}

def setRouteList (ipsubnet : Ipsubnet) (c : Context) (n : Nat) (list : RouteList)
    (framedRoutes : List (List Byte)) : Context :=
  match list with
  | .ipv4 => c.sessSetUeIpv4FramedRoutes ipsubnet n framedRoutes
  | .ipv6 => c.sessSetUeIpv6FramedRoutes ipsubnet n framedRoutes

def listed (c : Context) (n : Nat) (list : RouteList) : List IpSubnet :=
  ((c.sess n).framedRoutes list).elim [] Routes.used

structure ListSet (ipsubnet : Ipsubnet) (n : Nat) (list : RouteList)
    (framedRoutes : List (List Byte)) (c c' : Context) : Prop where
  sessPool : c'.sessPool=c.sessPool
  sessList : c'.sessList=c.sessList
  routeAt : ∀ k,c'.routeAt k =
    if k∈(parsed ipsubnet (framedRoutes.take maxNumOfFramedRoutes)).map IpSubnet.place then some n
    else if k∈(c.listed n list).map IpSubnet.place then none else c.routeAt k
  listed : parsed ipsubnet (framedRoutes.take maxNumOfFramedRoutes) <+: c'.listed n list
  others : ∀ m l,m≠n ∨ l≠list → c'.listed m l=c.listed m l
  addressing : c'.addressing=c.addressing
  ips : ∀ m,(c'.sess m).ipv4=(c.sess m).ipv4 ∧ (c'.sess m).ipv6=(c.sess m).ipv6

theorem modify_ips {f : Sess → Sess} (h4 : ∀ x,(f x).ipv4=x.ipv4)
    (h6 : ∀ x,(f x).ipv6=x.ipv6) (m : Nat) :
    ((c.modify n f).sess m).ipv4=(c.sess m).ipv4 ∧
      ((c.modify n f).sess m).ipv6=(c.sess m).ipv6 := by
  unfold modify
  by_cases hm : m=n
  · subst hm
    simp [h4,h6]
  · simp [hm]

theorem setRouteList_set (ipsubnet : Ipsubnet) (c : Context) (n : Nat) (list : RouteList)
    (framedRoutes : List (List Byte)) :
    ListSet ipsubnet n list framedRoutes c (c.setRouteList ipsubnet n list framedRoutes) := by
  cases list with
  | ipv4 =>
    obtain ⟨hsame,hroute,hlisted⟩ := setFramedRoutes_added ipsubnet true c n
      (c.sess n).ipv4FramedRoutes framedRoutes
    refine ⟨hsame.sessPool,hsame.sessList,hroute,?_,?_,hsame.addressing,?_⟩
    · simpa [Context.listed,setRouteList,sessSetUeIpv4FramedRoutes,modify,Sess.framedRoutes]
        using hlisted
    · intro m l hml
      simp only [Context.listed,setRouteList,sessSetUeIpv4FramedRoutes,modify,hsame.sess]
      by_cases hm : m=n
      · cases l with
        | ipv4 => simp [hm] at hml
        | ipv6 => simp [hm,Sess.framedRoutes]
      · rw [update_of_ne hm]
    · intro m
      rw [← hsame.sess]
      unfold setRouteList sessSetUeIpv4FramedRoutes
      apply modify_ips
      · exact fun _ => rfl
      · exact fun _ => rfl
  | ipv6 =>
    obtain ⟨hsame,hroute,hlisted⟩ := setFramedRoutes_added ipsubnet false c n
      (c.sess n).ipv6FramedRoutes framedRoutes
    refine ⟨hsame.sessPool,hsame.sessList,hroute,?_,?_,hsame.addressing,?_⟩
    · simpa [Context.listed,setRouteList,sessSetUeIpv6FramedRoutes,modify,Sess.framedRoutes]
        using hlisted
    · intro m l hml
      simp only [Context.listed,setRouteList,sessSetUeIpv6FramedRoutes,modify,hsame.sess]
      by_cases hm : m=n
      · cases l with
        | ipv4 => simp [hm,Sess.framedRoutes]
        | ipv6 => simp [hm] at hml
      · rw [update_of_ne hm]
    · intro m
      rw [← hsame.sess]
      unfold setRouteList sessSetUeIpv6FramedRoutes
      apply modify_ips
      · exact fun _ => rfl
      · exact fun _ => rfl

end Context

namespace Context

variable {c : Context} {n : Nat}

def routing (c : Context) :
    Pool × List Nat × Trie Nat × Trie Nat × (Nat → Option Routes × Option Routes) :=
  (c.sessPool,c.sessList,c.ipv4FramedRoutes,c.ipv6FramedRoutes,
    fun m => ((c.sess m).ipv4FramedRoutes,(c.sess m).ipv6FramedRoutes))

theorem modify_routing {f : Sess → Sess}
    (h4 : ∀ x,(f x).ipv4FramedRoutes=x.ipv4FramedRoutes)
    (h6 : ∀ x,(f x).ipv6FramedRoutes=x.ipv6FramedRoutes) :
    (c.modify n f).routing=c.routing := by
  unfold routing modify
  simp only [Prod.mk.injEq,true_and]
  funext m
  by_cases hm : m=n
  · subst hm
    simp [h4,h6]
  · simp [hm]

theorem dropIpv4_routing (c : Context) (n : Nat) : (c.dropIpv4 n).Keeps routing c := by
  unfold dropIpv4
  split
  · rfl
  · rename_i r _
    cases (c.unsetIpv4 r).ueIps.free r with
    | ok t u => rfl
    | abort t => trivial

theorem dropIpv6_routing (c : Context) (n : Nat) : (c.dropIpv6 n).Keeps routing c := by
  unfold dropIpv6
  split
  · rfl
  · rename_i r _
    cases (c.unsetIpv6 r).ueIps.free r with
    | ok t u => rfl
    | abort t => trivial

theorem takeIpv4_routing (c : Context) (n : Nat) (wanted : Bool) (dnn : Option (List Byte))
    (addr : List Byte) : (c.takeIpv4 n wanted dnn addr).1.routing=c.routing := by
  unfold takeIpv4
  split
  · split
    · exact modify_routing (fun _ => rfl) fun _ => rfl
    · rename_i t r _
      have hmodify : ((c.withUeIps t).modify n fun x => { x with ipv4 := some r }).routing =
          c.routing := modify_routing (fun _ => rfl) fun _ => rfl
      exact hmodify
  · rfl

theorem takeIpv6_routing (c : Context) (n : Nat) (wanted : Bool) (dnn : Option (List Byte))
    (addr : List Byte) : (c.takeIpv6 n wanted dnn addr).1.routing=c.routing := by
  unfold takeIpv6
  split
  · split
    · exact modify_routing (fun _ => rfl) fun _ => rfl
    · rename_i t r _
      have hmodify : ((c.withUeIps t).modify n fun x => { x with ipv6 := some r }).routing =
          c.routing := modify_routing (fun _ => rfl) fun _ => rfl
      exact hmodify
  · rfl

theorem undoIpv4_routing (c : Context) (n : Nat) : (c.undoIpv4 n).Keeps routing c := by
  apply (dropIpv4_routing c n).bind
  intro c _
  exact modify_routing (fun _ => rfl) fun _ => rfl

theorem sessSetUeIp_routing (c : Context) (n : Nat) (sessionType : Byte) (x : PdrUp) :
    (c.sessSetUeIp n sessionType x).Keeps routing c := by
  unfold sessSetUeIp
  apply (dropIpv4_routing c n).bind
  intro c _
  apply (dropIpv6_routing c n).bind
  intro c _
  split
  · exact takeIpv4_routing ..
  · exact takeIpv6_routing ..
  · have h4:=takeIpv4_routing c n (x.ipv4 || x.dnn.isSome) x.dnn x.bothAddr
    split
    · rename_i heq
      rw [heq] at h4
      exact h4
    · rename_i c' heq
      rw [heq] at h4
      have h6:=takeIpv6_routing c' n (x.ipv6 || x.dnn.isSome) x.dnn x.bothAddr6
      split
      · rename_i c'' e heq'
        rw [heq'] at h6
        have hall:=(undoIpv4_routing c'' n).bind
          (f := fun c _ => Outcome.ok c (Except.error e : Except Refusal Unit)) fun _ _ => rfl
        exact hall.mono fun t _ ht => ht.trans (h6.trans h4)
      · rename_i c'' heq'
        rw [heq'] at h6
        exact h6.trans h4
  · rfl

theorem routing_listed {c' : Context} (h : c'.routing=c.routing) (m : Nat) (l : RouteList) :
    c'.listed m l=c.listed m l := by
  have hsess:=congrFun (congrArg (fun x => x.2.2.2.2) h) m
  have hboth : (c'.sess m).ipv4FramedRoutes=(c.sess m).ipv4FramedRoutes ∧
      (c'.sess m).ipv6FramedRoutes=(c.sess m).ipv6FramedRoutes := Prod.mk.inj hsess
  unfold listed
  cases l with
  | ipv4 => exact congrArg (fun a => Option.elim a [] Routes.used) hboth.1
  | ipv6 => exact congrArg (fun a => Option.elim a [] Routes.used) hboth.2

theorem routing_routeAt {c' : Context} (h : c'.routing=c.routing) (k : Bool × List Bool) :
    c'.routeAt k=c.routeAt k := by
  have h4 : c'.ipv4FramedRoutes=c.ipv4FramedRoutes := congrArg (fun x => x.2.2.1) h
  have h6 : c'.ipv6FramedRoutes=c.ipv6FramedRoutes := congrArg (fun x => x.2.2.2.1) h
  unfold routeAt trie
  rw [h4,h6]

structure Joined (c : Context) (n : Nat) (c' : Context) : Prop where
  pool : ∃ q,Pool.Split c'.sessPool q c'.sessList
  new : n∉c.sessList
  sessList : c'.sessList=c.sessList++[n]
  others : ∀ m,m≠n → c'.sess m=c.sess m
  ips : (c'.sess n).ipv4=none ∧ (c'.sess n).ipv6=none
  routeAt : ∀ k,c'.routeAt k=c.routeAt k
  addressing : c'.addressing=c.addressing

theorem sessAdd_joined {q : List Nat} (hs : Pool.Split c.sessPool q c.sessList)
    (fSeid : Vector Byte 29) : (c.sessAdd fSeid).Returns fun c' n => Joined c n c' := by
  unfold sessAdd
  cases q with
  | nil =>
    rw [hs.idCalloc_nil]
    exact Outcome.returns_abort
  | cons n q =>
    obtain ⟨p,hp,hsplit,-,-⟩ := hs.idCalloc
    rw [hp]
    simp only
    split
    · exact Outcome.returns_abort
    · rename_i seidPool node _
      refine ⟨⟨q,hsplit⟩,hs.not_live_of_free (List.mem_cons_self ..),rfl,?_,?_,
        fun _ => rfl,rfl⟩
      · intro m hm
        exact update_of_ne hm ..
      · simp [Sess.zero]

theorem Joined.listed {c' : Context} (h : Joined c n c') {m : Nat} (hm : m≠n) (l : RouteList) :
    c'.listed m l=c.listed m l := by
  unfold Context.listed
  rw [h.others m hm]

theorem sessRemove_returns (ipsubnet : Ipsubnet) (c : Context) (n : Nat) :
    (c.sessRemove ipsubnet n).Returns fun c' _ =>
      (∃ id,c'.sessPool=c.sessPool.idFree n id) ∧ c'.sessList=c.sessList.erase n ∧
        (∀ k,c'.routeAt k =
          if k∈(c.listed n .ipv4++c.listed n .ipv6).map IpSubnet.place then none
          else c.routeAt k) ∧ ∀ m,m≠n → ∀ l,c'.listed m l=c.listed m l := by
  unfold sessRemove
  simp only
  generalize hu : unsetSeids _ n=u
  have hpool : u.sessPool=c.sessPool := by rw [← hu]; rfl
  have hlist : u.sessList=c.sessList.erase n := by rw [← hu]; rfl
  have hroute : ∀ k,u.routeAt k=c.routeAt k := by rw [← hu]; exact fun _ => rfl
  have hlisted : ∀ m l,u.listed m l=c.listed m l := by
    have hacc : (c.sessUrrAccRemoveAll n).routing=c.routing :=
      modify_routing (fun _ => rfl) fun _ => rfl
    intro m l
    rw [← hu]
    exact routing_listed hacc m l
  apply Outcome.Returns.bind (dropIpv4_routing u n)
  intro c₁ _ h₁
  apply Outcome.Returns.bind (dropIpv6_routing c₁ n)
  intro c₂ _ h₂
  have hrouting:=h₂.trans h₁
  have h4:=setRouteList_set ipsubnet c₂ n .ipv4 []
  have h6:=setRouteList_set ipsubnet (c₂.setRouteList ipsubnet n .ipv4 []) n .ipv6 []
  simp only [setRouteList] at h4 h6
  have hpool₂ : c₂.sessPool=u.sessPool := congrArg (fun x => x.1) hrouting
  have hlist₂ : c₂.sessList=u.sessList := congrArg (fun x => x.2.1) hrouting
  generalize c₂.sessSetUeIpv4FramedRoutes ipsubnet n []=c₃ at h4 h6 ⊢
  generalize c₃.sessSetUeIpv6FramedRoutes ipsubnet n []=c₄ at h6 ⊢
  refine ⟨⟨(c₄.sess n).id,?_⟩,?_,?_,?_⟩
  · rw [h6.sessPool,h4.sessPool,hpool₂,hpool]
  · exact h6.sessList.trans (h4.sessList.trans (hlist₂.trans hlist))
  · intro k
    show c₄.routeAt k=_
    rw [h6.routeAt,h4.routeAt,h4.others n .ipv6 (.inr (by decide)),
      routing_listed hrouting,routing_listed hrouting,hlisted,hlisted,
      routing_routeAt hrouting,hroute]
    by_cases hk4 : k∈(c.listed n .ipv4).map IpSubnet.place
    · simp [parsed,hk4]
    · simp [parsed,hk4]
  · intro m hm l
    refine (h6.others m l (.inl hm)).trans ((h4.others m l (.inl hm)).trans ?_)
    exact (routing_listed hrouting m l).trans (hlisted m l)

end Context

end OgsDp.Upf
