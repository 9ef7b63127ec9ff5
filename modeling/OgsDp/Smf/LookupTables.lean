import OgsDp.Core.PoolHolders
import OgsDp.Pfcp.TeidPool
import OgsDp.Smf.UeAddresses

/-!
# The lookup tables of the SMF (src/smf/context.c)

The tables of UEs and of SEIDs are right as long as the keys under which an object is entered are
those it is looked up with, and the id that a UE gets from its pool is no longer in use.
-/

namespace OgsDp.Smf
open Lib RefTable OgsDp.Core Pfcp Function List Option

inductive NameKind where
  | supi
  | imsi
  deriving DecidableEq

def SmfUe.name (x : SmfUe) : NameKind → Option (List Byte)
  | .supi => x.supi.map CStr.bytes
  | .imsi => if x.imsi=[] then none else some x.imsi

namespace Context

variable {c c' : Context} {n u : Nat} {v : IpVersion}

def nameKey (c : Context) : NameKind → Nat → List Byte
  | .supi => c.supiKey
  | .imsi => fun u => (c.ue u).imsi

def nameKeys (c : Context) : NameKind → Keys Nat (List Byte)
  | .supi => c.supiKeys
  | .imsi => c.imsiKeys

def nameHash (c : Context) : NameKind → List (Entry Nat Nat)
  | .supi => c.supiHash
  | .imsi => c.imsiHash

def withNameHash (c : Context) (k : NameKind) (t : List (Entry Nat Nat)) : Context :=
  match k with
  | .supi => { c with supiHash := t }
  | .imsi => { c with imsiHash := t }

theorem nameKeys_reads (c : Context) (k : NameKind) (u : Nat) :
    (c.nameKeys k).reads u (c.nameKey k u)=true := by
  cases k with
  | supi => simp [nameKeys,nameKey,supiKeys,bytesKeys]
  | imsi => simp [nameKeys,nameKey,imsiKeys,bytesKeys]

theorem nameKeys_congr (h : c'.seeds=c.seeds) (k : NameKind) :
    (c'.nameKeys k).hash=(c.nameKeys k).hash ∧ (c'.nameKeys k).klen=(c.nameKeys k).klen := by
  cases k with
  | supi => simp only [nameKeys,supiKeys,bytesKeys,h,and_self]
  | imsi => simp only [nameKeys,imsiKeys,bytesKeys,h,and_self]

theorem nameKey_congr {m : Nat} (h : c'.ue m=c.ue m) (k : NameKind) :
    c'.nameKey k m=c.nameKey k m := by
  cases k with
  | supi => simp only [nameKey,supiKey,h]
  | imsi => simp only [nameKey,h]

theorem nameKey_of_name {k : NameKind} {w : List Byte} (h : (c.ue u).name k=some w) :
    c.nameKey k u=w := by
  cases k with
  | supi =>
    change (c.ue u).supi.map CStr.bytes=some w at h
    obtain ⟨s,hs,rfl⟩ := map_eq_some_iff.mp h
    simp only [nameKey,supiKey,hs,Option.elim]
  | imsi =>
    change (if (c.ue u).imsi=[] then none else some (c.ue u).imsi)=some w at h
    split at h
    · cases h
    · show (c.ue u).imsi=w
      exact some.inj h

theorem withNameHash_nameHash (c : Context) (k j : NameKind) (t : List (Entry Nat Nat)) :
    (c.withNameHash k t).nameHash j = if j=k then t else c.nameHash j := by
  cases k <;> cases j <;> rfl

def named (c : Context) (k : NameKind) (u : Nat) : Option Nat :=
  if u∈c.ueList ∧ (c.ue u).name k≠none then some u else none

def seidOf (c : Context) (n : Nat) : Option Nat := if c.Listed n then some n else none

structure UesIndexed (c : Context) : Prop where
  pool : c.uePool.Holds (· ∈ c.ueList)
  nodup : c.ueList.Nodup
  ids : ∀ u∈c.ueList,c.uePool.findById (c.ue u).id=some u
  byId : ∀ id u,c.uePool.findById id=some u → u∈c.ueList ∧ (c.ue u).id=id
  names : ∀ k,Leads (c.nameKeys k) (c.nameKey k) (c.named k) (c.nameHash k)

structure SessIndexed (c : Context) : Prop where
  pool : c.sessPool.Holds c.Listed
  byId : ∀ id n,c.sessPool.findById id=some n → c.Listed n ∧ (c.sess n).id=id
  lists : ∀ u ∈ c.ueList,
    (c.sessList u).Nodup ∧ ∀ n∈c.sessList u,(c.sess n).smfUeId=(c.ue u).id
  nodes : c.smfN4SeidPool.Holds fun k => ∃ n,c.Listed n ∧ (c.sess n).smfN4SeidNode=k
  apart : ∀ m n,c.Listed m → c.Listed n →
    (c.sess m).smfN4SeidNode=(c.sess n).smfN4SeidNode → m=n
  seid : ∀ n,c.Listed n → (c.sess n).smfN4Seid=c.smfN4SeidOf (c.sess n).smfN4SeidNode
  inj : Set.InjOn c.smfN4SeidOf (Set.Iio c.smfN4SeidPool.size)
  seids : Leads c.smfN4SeidKeys (fun n => (c.sess n).smfN4Seid) c.seidOf c.smfN4SeidHash

structure Indexed (c : Context) : Prop where
  ues : c.UesIndexed
  sessions : c.SessIndexed
  addresses : c.Holds c.pointers c.pointers

theorem smfN4SeidKeys_reads (c : Context) (n : Nat) :
    c.smfN4SeidKeys.reads n (c.sess n).smfN4Seid=true := by
  simp [smfN4SeidKeys,fieldKeys]

def uesPart (c : Context) :
    Pool × (Nat → SmfUe) × List Nat × List (Entry Nat Nat) × List (Entry Nat Nat) × Seeds :=
  (c.uePool,c.ue,c.ueList,c.supiHash,c.imsiHash,c.seeds)

def sessPart (c : Context) : Pool × (Nat → SmfSess) × Pool × (Nat → BitVec 64) × UeIps × Seeds ×
    List (Entry Nat Nat) × (IpVersion → List (Entry UeIpRef Nat)) :=
  (c.sessPool,c.sess,c.smfN4SeidPool,c.smfN4SeidOf,c.ueIps,c.seeds,c.smfN4SeidHash,c.ipHash)

theorem named_eq_some {k : NameKind} {m r : Nat} :
    c.named k m=some r ↔ m=r ∧ m∈c.ueList ∧ ∃ w,(c.ue m).name k=some w := by
  unfold named
  rw [ite_none_right_eq_some,some.injEq,ne_none_iff_exists']
  exact and_comm

theorem names_congr {k : NameKind}
    (h : Leads (c.nameKeys k) (c.nameKey k) (c.named k) (c.nameHash k))
    (hseeds : c'.seeds=c.seeds) (hhash : c'.nameHash k=c.nameHash k)
    (hnamed : ∀ m,c'.named k m=c.named k m)
    (hue : ∀ m∈c.ueList,(c.ue m).name k≠none → c'.ue m=c.ue m) :
    Leads (c'.nameKeys k) (c'.nameKey k) (c'.named k) (c'.nameHash k) := by
  obtain ⟨hh,hklen⟩ := nameKeys_congr hseeds k
  rw [hhash]
  refine h.congr hh hklen hnamed ?_
  intro m r hr
  obtain ⟨rfl,hm,w,hw⟩ := named_eq_some.mp hr
  exact nameKey_congr (hue m hm (by rw [hw]; exact some_ne_none w)) k

theorem UesIndexed.congr (h : c.UesIndexed) (heq : c'.uesPart=c.uesPart) : c'.UesIndexed := by
  have hpool : c'.uePool=c.uePool := congrArg (fun x => x.1) heq
  have hue : c'.ue=c.ue := congrArg (fun x => x.2.1) heq
  have hlist : c'.ueList=c.ueList := congrArg (fun x => x.2.2.1) heq
  have hsupis : c'.supiHash=c.supiHash := congrArg (fun x => x.2.2.2.1) heq
  have himsis : c'.imsiHash=c.imsiHash := congrArg (fun x => x.2.2.2.2.1) heq
  have hseeds : c'.seeds=c.seeds := congrArg (fun x => x.2.2.2.2.2) heq
  refine ⟨?_,hlist ▸ h.nodup,?_,?_,?_⟩
  · rw [hpool,hlist]
    exact h.pool
  · rw [hpool,hlist,hue]
    exact h.ids
  · rw [hpool,hlist,hue]
    exact h.byId
  · intro k
    refine names_congr (h.names k) hseeds ?_ ?_ fun m _ _ => by rw [hue]
    · cases k with
      | supi => exact hsupis
      | imsi => exact himsis
    · intro m
      simp only [named,hlist,hue]

theorem SessIndexed.of_bare (h : c.SessIndexed) (hbare : c'.bare=c.bare) : c'.SessIndexed := by
  have h₀ : c.bare.SessIndexed :=
    ⟨h.pool,h.byId,h.lists,h.nodes,h.apart,h.seid,h.inj,h.seids⟩
  rw [← hbare] at h₀
  exact ⟨h₀.pool,h₀.byId,h₀.lists,h₀.nodes,h₀.apart,h₀.seid,h₀.inj,h₀.seids⟩

theorem SessIndexed.of_part (h : c.SessIndexed) (hpart : c'.sessPart=c.sessPart)
    (hlisted : ∀ n,c'.Listed n ↔ c.Listed n)
    (hlists : ∀ u ∈ c'.ueList,
      (c'.sessList u).Nodup ∧ ∀ n∈c'.sessList u,(c.sess n).smfUeId=(c'.ue u).id) :
    c'.SessIndexed := by
  have hpool : c'.sessPool=c.sessPool := congrArg (fun x => x.1) hpart
  have hsess : c'.sess=c.sess := congrArg (fun x => x.2.1) hpart
  have hnodes : c'.smfN4SeidPool=c.smfN4SeidPool := congrArg (fun x => x.2.2.1) hpart
  have hof : c'.smfN4SeidOf=c.smfN4SeidOf := congrArg (fun x => x.2.2.2.1) hpart
  have hseeds : c'.seeds=c.seeds := congrArg (fun x => x.2.2.2.2.2.1) hpart
  have hhash : c'.smfN4SeidHash=c.smfN4SeidHash := congrArg (fun x => x.2.2.2.2.2.2.1) hpart
  refine ⟨?_,?_,?_,?_,?_,?_,?_,?_⟩
  · rw [hpool]
    exact h.pool.congr hlisted
  · intro id n
    rw [hpool,hsess,hlisted]
    exact h.byId id n
  · rw [hsess]
    exact hlists
  · rw [hnodes,hsess]
    exact h.nodes.congr fun k => by simp only [hlisted]
  · intro m k
    rw [hlisted,hlisted,hsess]
    exact h.apart m k
  · intro k
    rw [hlisted,hsess,hof]
    exact h.seid k
  · rw [hof,hnodes]
    exact h.inj
  · rw [hhash]
    refine h.seids.congr ?_ rfl ?_ ?_
    · simp only [smfN4SeidKeys,fieldKeys,hseeds]
    · intro k
      simp only [seidOf,hlisted]
    · intro k r _
      simp only [hsess]

theorem Holds.of_part (h : c.Holds c.pointers c.pointers) (hpart : c'.sessPart=c.sessPart)
    (hlisted : ∀ n,c'.Listed n ↔ c.Listed n) : c'.Holds c'.pointers c'.pointers := by
  have hsess : c'.sess=c.sess := congrArg (fun x => x.2.1) hpart
  have hueIps : c'.ueIps=c.ueIps := congrArg (fun x => x.2.2.2.2.1) hpart
  have hseeds : c'.seeds=c.seeds := congrArg (fun x => x.2.2.2.2.2.1) hpart
  have hhash : c'.ipHash=c.ipHash := congrArg (fun x => x.2.2.2.2.2.2.2) hpart
  have heq : c'.pointers=c.pointers := by
    funext i
    simp only [pointers,hlisted,hsess]
  rw [heq]
  exact ⟨hueIps ▸ h.held,h.table_congr hseeds hhash fun i r _ => by rw [hueIps]⟩

theorem Indexed.sessSetUeIp (h : c.Indexed) (hn : c.Listed n) (hk : c.Renewed n) :
    (c.smfSessSetUeIp n).Returns fun c' _ => c'.Indexed ∧ c'.uesPart=c.uesPart := by
  refine (h.addresses.sessSetUeIp hn hk).mono ?_
  rintro c'-⟨hholds,hbare⟩
  have hues : c'.bare.uesPart=c.bare.uesPart := by rw [hbare]
  exact ⟨⟨h.ues.congr hues,h.sessions.of_bare hbare,hholds⟩,hues⟩

structure Grown (c : Context) (u : Nat) (x : SmfUe) (c' : Context) : Prop where
  new : u∉c.ueList
  ueList : c'.ueList=c.ueList++[u]
  ue : c'.ue=update c.ue u x
  sessList : c'.sessList=update c.sessList u []
  sessPart : c'.sessPart=c.sessPart

namespace Grown

variable {x : SmfUe}

theorem mem (h : Grown c u x c') : u∈c'.ueList := by
  rw [h.ueList]
  exact mem_append_right _ (mem_singleton_self u)

theorem self (h : Grown c u x c') : c'.ue u=x := by
  rw [h.ue,update_self]

theorem old (h : Grown c u x c') {m : Nat} (hm : m∈c.ueList) : c'.ue m=c.ue m := by
  rw [h.ue,update_of_ne]
  rintro rfl
  exact h.new hm

theorem listed (h : Grown c u x c') (n : Nat) : c'.Listed n ↔ c.Listed n := by
  unfold Listed
  rw [h.ueList,h.sessList]
  constructor
  · rintro ⟨m,hm,hn⟩
    by_cases hmu : m=u
    · subst hmu
      rw [update_self] at hn
      cases hn
    · rw [update_of_ne hmu] at hn
      rw [mem_append,mem_singleton] at hm
      exact ⟨m,hm.resolve_right hmu,hn⟩
  · rintro ⟨m,hm,hn⟩
    refine ⟨m,mem_append_left _ hm,?_⟩
    rw [update_of_ne]
    · exact hn
    · rintro rfl
      exact h.new hm

theorem sessions (h : Grown c u x c') (hs : c.SessIndexed) : c'.SessIndexed := by
  refine hs.of_part h.sessPart h.listed ?_
  intro m hm
  rw [h.sessList]
  by_cases hmu : m=u
  · subst hmu
    rw [update_self]
    exact ⟨nodup_nil,nofun⟩
  · rw [h.ueList,mem_append,mem_singleton] at hm
    have hold:=hm.resolve_right hmu
    rw [update_of_ne hmu,h.old hold]
    exact hs.lists m hold

end Grown

def FreshId (c : Context) : Prop :=
  ∀ u∈c.ueList,(c.ue u).id≠nextId c.uePool.id 1 maxPoolId

instance (c : Context) : Decidable c.FreshId :=
  inferInstanceAs (Decidable (∀ u∈c.ueList,(c.ue u).id≠nextId c.uePool.id 1 maxPoolId))

def Adds (c : Context) (found : Option Nat) : Prop := found=none ∧ 0<c.uePool.avail

instance (c : Context) (found : Option Nat) : Decidable (c.Adds found) :=
  inferInstanceAs (Decidable (found=none ∧ 0<c.uePool.avail))

theorem avail_pos (hadd : c.smfUeAdd=(c',some u)) : 0<c.uePool.avail := by
  by_contra hno
  have halloc : c.uePool.alloc=(c.uePool,none) := if_neg hno
  simp only [smfUeAdd,Pool.idCalloc,halloc] at hadd
  cases hadd

theorem smfUeAdd_none (h : c.UesIndexed) (hadd : c.smfUeAdd=(c',none)) : c'=c := by
  unfold smfUeAdd at hadd
  split at hadd
  · rename_i pool hcalloc
    obtain rfl := h.pool.idCalloc_none hcalloc
    exact (Prod.mk.inj hadd).1.symm
  · cases hadd

theorem smfUeAdd_grown (h : c.UesIndexed) (hfresh : c.FreshId) (hadd : c.smfUeAdd=(c',some u)) :
    ∃ id,Grown c u { SmfUe.zero with id := id } c' ∧ c'.UesIndexed := by
  unfold smfUeAdd at hadd
  split at hadd
  · cases hadd
  · rename_i pool k id hcalloc
    cases hadd
    obtain ⟨hnew,hpool,-,hhash,rfl⟩ := h.pool.idCalloc hcalloc
    refine ⟨_,⟨hnew,rfl,rfl,rfl,rfl⟩,?_⟩
    have hold : ∀ m∈c.ueList,m≠u := by
      rintro m hm rfl
      exact hnew hm
    have hmem : ∀ m,m∈c.ueList++[u] ↔ m∈c.ueList ∨ m=u := fun m => by
      rw [mem_append,mem_singleton]
    refine ⟨hpool.congr hmem,?_,?_,?_,?_⟩
    · rw [nodup_append]
      refine ⟨h.nodup,nodup_singleton u,?_⟩
      intro a ha b hb
      rw [mem_singleton.mp hb]
      exact hold a ha
    · intro m hm
      simp only [hmem] at hm
      simp only [Pool.findById,hhash]
      rcases hm with hm | rfl
      · rw [update_of_ne (hold m hm),update_of_ne (hfresh m hm)]
        exact h.ids m hm
      · rw [update_self,update_self]
    · intro id m hm
      simp only [hmem]
      simp only [Pool.findById,hhash] at hm
      by_cases hid : id=nextId c.uePool.id 1 maxPoolId
      · subst hid
        rw [update_self] at hm
        obtain rfl := some.inj hm
        exact ⟨.inr rfl,by rw [update_self]⟩
      · rw [update_of_ne hid] at hm
        obtain ⟨hm,heq⟩ := h.byId id m hm
        exact ⟨.inl hm,by rw [update_of_ne (hold m hm),heq]⟩
    · intro k
      refine names_congr (h.names k) rfl (by cases k <;> rfl) ?_ ?_
      · intro m
        simp only [named,hmem]
        by_cases hm : m=u
        · subst hm
          cases k <;> simp [hnew,SmfUe.zero,SmfUe.name]
        · simp [hm]
      · intro m hm _
        exact update_of_ne (hold m hm) ..

namespace UesIndexed

theorem find (h : c.UesIndexed) (k : NameKind) (w : List Byte) :
    get (c.nameKeys k) (c.nameHash k) w=some u ↔ u∈c.ueList ∧ (c.ue u).name k=some w := by
  rw [(h.names k).get (c.nameKeys_reads k)]
  constructor
  · rintro ⟨r,hr,hkey⟩
    obtain ⟨rfl,hu,w',hw'⟩ := named_eq_some.mp hr
    rw [nameKey_of_name hw'] at hkey
    exact ⟨hu,hkey ▸ hw'⟩
  · rintro ⟨hu,hw⟩
    exact ⟨u,named_eq_some.mpr ⟨rfl,hu,w,hw⟩,nameKey_of_name hw⟩

theorem name (h : c.UesIndexed) (hu : u∈c.ueList) {k : NameKind} {w : List Byte}
    {f : SmfUe → SmfUe} (hid : (f (c.ue u)).id=(c.ue u).id)
    (hname : ∀ j,(f (c.ue u)).name j = if j=k then some w else none)
    (hzero : ∀ j,(c.ue u).name j=none) (hno : ∀ m∈c.ueList,(c.ue m).name k≠some w) :
    ((c.modifyUe u f).withNameHash k (set ((c.modifyUe u f).nameKeys k)
      ((c.modifyUe u f).nameHash k) u w u)).UesIndexed := by
  generalize hc' : c.modifyUe u f=c'
  have hue : c'.ue=update c.ue u (f (c.ue u)) := by rw [← hc']; rfl
  have hlist : c'.ueList=c.ueList := by rw [← hc']; rfl
  have hpool : c'.uePool=c.uePool := by rw [← hc']; rfl
  have hold : ∀ m,m≠u → c'.ue m=c.ue m := by
    intro m hm
    rw [hue,update_of_ne hm]
  have hself : (c'.ue u).name k=some w := by
    rw [hue,update_self,hname,if_pos rfl]
  have hother : ∀ j m,c.named j m=some u → False := by
    intro j m hr
    obtain ⟨rfl,-,w',hw'⟩ := named_eq_some.mp hr
    rw [hzero] at hw'
    cases hw'
  have hhash : ∀ j,c'.nameHash j=c.nameHash j := by
    intro j
    rw [← hc']
    cases j <;> rfl
  have hseeds : c'.seeds=c.seeds := by rw [← hc']; rfl
  generalize hc'' : c'.withNameHash k (set (c'.nameKeys k) (c'.nameHash k) u w u)=c''
  have hue'' : c''.ue=c'.ue := by rw [← hc'']; cases k <;> rfl
  have hlist'' : c''.ueList=c.ueList := by rw [← hc'',← hlist]; cases k <;> rfl
  have hpool'' : c''.uePool=c.uePool := by rw [← hc'',← hpool]; cases k <;> rfl
  have hseeds'' : c''.seeds=c'.seeds := by rw [← hc'']; cases k <;> rfl
  have hids : ∀ m,(c'.ue m).id=(c.ue m).id := by
    intro m
    by_cases hmu : m=u
    · rw [hmu,hue,update_self,hid]
    · rw [hold m hmu]
  refine ⟨?_,hlist'' ▸ h.nodup,?_,?_,?_⟩
  · rw [hpool'',hlist'']
    exact h.pool
  · intro m hm
    rw [hlist''] at hm
    rw [hpool'',hue'',hids]
    exact h.ids m hm
  · intro id m
    rw [hpool'',hlist'',hue'',hids]
    exact h.byId id m
  · intro j
    by_cases hj : j=k
    · subst hj
      have hbase : Leads (c'.nameKeys j) (c'.nameKey j) (c.named j) (c'.nameHash j) := by
        obtain ⟨hh,hklen⟩ := nameKeys_congr hseeds j
        rw [hhash]
        refine (h.names j).congr hh hklen (fun _ => rfl) ?_
        intro m r hr
        refine nameKey_congr (hold r ?_) j
        rintro rfl
        exact hother j m hr
      have hset:=hbase.set (c'.nameKeys_reads j) (n := u) (r := u) ?_ ?_
      · rw [nameKey_of_name hself] at hset
        obtain ⟨hh,hklen⟩ := nameKeys_congr hseeds'' j
        have hhash'' : c''.nameHash j=set (c'.nameKeys j) (c'.nameHash j) u w u := by
          rw [← hc'',withNameHash_nameHash,if_pos rfl]
        rw [hhash'']
        refine hset.congr hh hklen ?_ fun m r _ => nameKey_congr (by rw [hue'']) j
        intro m
        by_cases hmu : m=u
        · subst hmu
          rw [update_self,named_eq_some,hlist'',hue'']
          exact ⟨rfl,hu,w,hself⟩
        · rw [update_of_ne hmu]
          simp only [named,hlist'',hue'',hold m hmu]
      · rw [eq_none_iff_forall_ne_some]
        intro r hr
        obtain ⟨rfl,-⟩ := named_eq_some.mp hr
        exact hother j u hr
      · intro m r hr hkey
        obtain ⟨rfl,hm,w',hw'⟩ := named_eq_some.mp hr
        have hmu : m≠u := by
          rintro rfl
          exact hother j m hr
        rw [nameKey_congr (hold m hmu),nameKey_of_name hw',nameKey_of_name hself] at hkey
        exact hno m hm (hkey ▸ hw')
    · refine names_congr (h.names j) (hseeds''.trans hseeds) ?_ ?_ ?_
      · rw [← hc'',withNameHash_nameHash,if_neg hj,hhash]
      · intro m
        by_cases hmu : m=u
        · subst hmu
          simp only [named,hlist'',hue'',hue,update_self,hname,hzero,if_neg hj]
        · simp only [named,hlist'',hue'',hold m hmu]
      · intro m _ hne
        rw [hue'',hold]
        rintro rfl
        exact hne (hzero j)

end UesIndexed

/-- What looking for a UE by name leaves: it is there, or a UE with the fields `P` was added. -/
structure Got (P : SmfUe → Prop) (c : Context) (s : Context × Option Nat) : Prop where
  indexed : s.1.Indexed
  kept : s.1=c ∨ ∃ u x,P x ∧ Grown c u x s.1
  mem : ∀ u,s.2=some u → u∈s.1.ueList

theorem Got.added {P : SmfUe → Prop} {c₀ : Context} (h : c.Indexed) {x : SmfUe} {k : NameKind}
    {w : List Byte} {f : SmfUe → SmfUe} (hg : Grown c u x c₀) (hi : c₀.UesIndexed)
    (hx : ∀ j,x.name j=none) (hid : (f x).id=x.id)
    (hname : ∀ j,(f x).name j = if j=k then some w else none) (hP : P (f x))
    (hno : ∀ m∈c.ueList,(c.ue m).name k≠some w) :
    Got P c ((c₀.modifyUe u f).withNameHash k (set ((c₀.modifyUe u f).nameKeys k)
      ((c₀.modifyUe u f).nameHash k) u w u),some u) := by
  have hnamed:=hi.name hg.mem (k := k) (w := w) (f := f) (by rw [hg.self,hid])
    (fun j => by rw [hg.self,hname]) (fun j => by rw [hg.self,hx]) ?_
  · have hgrown : Grown c u (f x) ((c₀.modifyUe u f).withNameHash k
        (set ((c₀.modifyUe u f).nameKeys k) ((c₀.modifyUe u f).nameHash k) u w u)) := by
      have hue : update c₀.ue u (f (c₀.ue u))=update c.ue u (f x) := by
        rw [hg.self,hg.ue,update_idem]
      cases k with
      | supi => exact ⟨hg.new,hg.ueList,hue,hg.sessList,hg.sessPart⟩
      | imsi => exact ⟨hg.new,hg.ueList,hue,hg.sessList,hg.sessPart⟩
    refine ⟨⟨hnamed,hgrown.sessions h.sessions,h.addresses.of_part hgrown.sessPart hgrown.listed⟩,
      .inr ⟨u,f x,hP,hgrown⟩,?_⟩
    rintro m hm
    obtain rfl := some.inj hm
    exact hgrown.mem
  · intro m hm
    rw [hg.ueList,mem_append,mem_singleton] at hm
    rcases hm with hm | rfl
    · rw [hg.old hm]
      exact hno m hm
    · rw [hg.self,hx]
      exact nofun

theorem Indexed.ueOfSupi (h : c.Indexed) {supi : CStr}
    (hfresh : c.Adds (c.smfUeFindBySupi supi) → c.FreshId) :
    Got (fun x => x.supi=some supi) c (c.ueOfSupi supi) := by
  have hfind := fun u => h.ues.find (u := u) .supi supi.bytes
  unfold Context.ueOfSupi
  cases hf : c.smfUeFindBySupi supi with
  | some u =>
    refine ⟨h,.inl rfl,?_⟩
    rintro m hm
    obtain rfl := some.inj hm
    exact ((hfind u).mp hf).1
  | none =>
    have hno : ∀ m∈c.ueList,(c.ue m).name .supi≠some supi.bytes := by
      intro m hm hname
      have hsome:=(hfind m).mpr ⟨hm,hname⟩
      rw [show get (c.nameKeys .supi) (c.nameHash .supi) supi.bytes=none from hf] at hsome
      cases hsome
    simp only
    unfold smfUeAddBySupi
    cases hadd : c.smfUeAdd with
    | mk c₀ r =>
      cases r with
      | none =>
        obtain rfl := smfUeAdd_none h.ues hadd
        exact ⟨h,.inl rfl,nofun⟩
      | some u =>
        obtain ⟨id,hg,hi⟩ := smfUeAdd_grown h.ues (hfresh ⟨hf,avail_pos hadd⟩) hadd
        refine Got.added (P := fun x => x.supi=some supi) h
          (f := fun x => { x with supi := some supi }) hg hi ?_ rfl ?_ rfl hno
        · intro j
          cases j <;> rfl
        · intro j
          cases j <;> rfl

theorem Indexed.ueOfImsi (h : c.Indexed) {imsi : List Byte} (hne : imsi≠[])
    (hadds : c.Adds (c.smfUeFindByImsi imsi) → imsi.length ≤ maxImsiLen ∧ c.FreshId) :
    Got (fun x => x.imsi=imsi) c (c.ueOfImsi imsi) := by
  have hfind := fun u => h.ues.find (u := u) .imsi imsi
  unfold Context.ueOfImsi
  cases hf : c.smfUeFindByImsi imsi with
  | some u =>
    refine ⟨h,.inl rfl,?_⟩
    rintro m hm
    obtain rfl := some.inj hm
    exact ((hfind u).mp hf).1
  | none =>
    have hno : ∀ m∈c.ueList,(c.ue m).name .imsi≠some imsi := by
      intro m hm hname
      have hsome:=(hfind m).mpr ⟨hm,hname⟩
      rw [show get (c.nameKeys .imsi) (c.nameHash .imsi) imsi=none from hf] at hsome
      cases hsome
    simp only
    unfold smfUeAddByImsi
    cases hadd : c.smfUeAdd with
    | mk c₀ r =>
      cases r with
      | none =>
        obtain rfl := smfUeAdd_none h.ues hadd
        exact ⟨h,.inl rfl,nofun⟩
      | some u =>
        obtain ⟨hlen,hfresh⟩ := hadds ⟨hf,avail_pos hadd⟩
        obtain ⟨id,hg,hi⟩ := smfUeAdd_grown h.ues hfresh hadd
        have htake : imsi.take maxImsiLen=imsi := take_of_length_le hlen
        simp only [htake]
        have hself : ((c₀.modifyUe u fun x => { x with imsi := imsi }).ue u).imsi=imsi := by
          simp only [modifyUe,update_self]
        rw [hself]
        refine Got.added (P := fun x => x.imsi=imsi) h (f := fun x => { x with imsi := imsi })
          hg hi ?_ rfl ?_ rfl hno
        · intro j
          cases j <;> rfl
        · intro j
          cases j with
          | supi => rfl
          | imsi => exact if_neg hne

end Context

end OgsDp.Smf
