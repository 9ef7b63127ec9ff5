import OgsDp.Dsmf.SessionTable

/-!
# SEID accounting (src/dsmf/context.c)

A session owns one node of `dsmf_dn4_seid_pool`, its SEID is what the node holds, and the SEID
table refers to the field in the session.
-/

namespace OgsDp.Dsmf
open Lib RefTable OgsDp.Core List Option

def Context.seid (c : Context) (n : Nat) : BitVec 64 := (c.sess n).dsmfDn4Seid

/-- One SEID node for each live session, the SEIDs distinct, and each found by its SEID. -/
structure SeidAccounts (c : Context) : Prop where
  nodes : c.dn4SeidPool.size-c.dn4SeidPool.avail=c.sessList.length
  distinct : (c.sessList.map c.seid).Nodup
  found : ∀ n∈c.sessList,sessFindByDsmfDn4Seid c (c.seid n)=some n

/-- A synchronisation makes no session, and the SEID node an addition would draw holds a value
that no live session has. -/
def DrawsOwnSeid (t : Table) : Op → Prop
  | .sessAdd _ _ =>
    ∀ k ∈ t.ctx.dn4SeidPool.alloc.2,
      (t.ctx.dn4Seid k).signExtend 64∉t.ctx.sessList.map t.ctx.seid
  | .sessAddByRanSync env r => creates t.ctx (.sessAddByRanSync env r)=false
  | .sessRemove _ _ => True

instance (c : Context) : Decidable (SeidAccounts c) :=
  decidable_of_iff
    (c.dn4SeidPool.size-c.dn4SeidPool.avail=c.sessList.length ∧
      (c.sessList.map c.seid).Nodup ∧
        ∀ n∈c.sessList,sessFindByDsmfDn4Seid c (c.seid n)=some n)
    ⟨fun h => ⟨h.1,h.2.1,h.2.2⟩,fun h => ⟨h.nodes,h.distinct,h.found⟩⟩

instance (t : Table) : ∀ op,Decidable (DrawsOwnSeid t op)
  | .sessAdd _ _ =>
    inferInstanceAs (Decidable (∀ k ∈ t.ctx.dn4SeidPool.alloc.2,
      (t.ctx.dn4Seid k).signExtend 64∉t.ctx.sessList.map t.ctx.seid))
  | .sessAddByRanSync env r =>
    inferInstanceAs (Decidable (creates t.ctx (.sessAddByRanSync env r)=false))
  | .sessRemove _ _ => isTrue trivial

structure Accounted (c : Context) : Prop where
  sessions : ∃ q,Pool.Split c.sessPool q c.sessList
  seidNodes : ∃ q nodes,Pool.Split c.dn4SeidPool q nodes ∧
    (c.sessList.map fun n => (c.sess n).dsmfDn4SeidNode).Perm (nodes.map some)
  distinct : (c.sessList.map c.seid).Nodup
  hash : c.dsmfDn4SeidHash=owned c.seidKeys c.seid c.sessList

namespace Accounted

variable {c : Context}

theorem init (poolSess : Nat) (sess : Nat → Sess) (dn4Seid : Nat → BitVec 32)
    (seed : BitVec 32) : Accounted (contextInit poolSess sess dn4Seid seed) where
  sessions := ⟨_,Pool.split_init poolSess⟩
  seidNodes := ⟨_,[],Pool.split_init poolSess,Perm.refl _⟩
  distinct := by simp [contextInit]
  hash := rfl

theorem reads (c : Context) (n : Nat) : c.seidKeys.reads n (c.seid n)=true := by
  simp [Context.seidKeys,fieldKeys,Context.seid]

theorem seidAccounts (h : Accounted c) : SeidAccounts c where
  nodes := by
    obtain ⟨q,nodes,hs,hperm⟩ := h.seidNodes
    have hlen:=hperm.length_eq
    simp only [length_map] at hlen
    rw [hs.in_use,hlen]
  distinct := h.distinct
  found := by
    intro n hn
    rw [sessFindByDsmfDn4Seid,h.hash]
    exact get_owned h.distinct (fun o _ => reads c o) hn

theorem sessAdd (h : Accounted c) {env : Env} {f : FSeid} {c' : Context} {n : Nat}
    (hdraw : ∀ k ∈ c.dn4SeidPool.alloc.2,
      (c.dn4Seid k).signExtend 64∉c.sessList.map c.seid)
    (hadd : Dsmf.sessAdd env c f = .ok c' n) : Accounted c' := by
  obtain ⟨q,hsess⟩ := h.sessions
  obtain ⟨sq,nodes,hseid,hperm⟩ := h.seidNodes
  obtain ⟨q',pool,seidPool,k,rfl,hpool,-,halloc,rfl⟩ := sessAdd_inv env c n hsess hadd
  have hn : n∉c.sessList := hsess.not_live_of_free (mem_cons_self ..)
  have hne : ∀ m∈c.sessList,m≠n := fun m hm he => hn (he ▸ hm)
  have hself:=sessAdded_sess_self c n pool seidPool pool.id k f
  have hsame : ∀ m∈c.sessList,(sessAdded c n pool seidPool pool.id k f).sess m=c.sess m :=
    fun m hm => sessAdded_sess_of_ne c n pool seidPool pool.id k f m (hne m hm)
  have hfresh : (c.dn4Seid k).signExtend 64∉c.sessList.map c.seid := hdraw k (by rw [halloc]; rfl)
  have hseids : c.sessList.map (sessAdded c n pool seidPool pool.id k f).seid =
      c.sessList.map c.seid :=
    map_congr_left fun m hm => by rw [Context.seid,hsame m hm,Context.seid]
  have hnew : (sessAdded c n pool seidPool pool.id k f).seid n=(c.dn4Seid k).signExtend 64 := by
    rw [Context.seid,hself]
  refine ⟨⟨q',hpool⟩,?_,?_,?_⟩
  · cases sq with
    | nil =>
      rw [Pool.alloc_of_nil hseid.queue] at halloc
      cases halloc
    | cons k' sq =>
      obtain ⟨r,hr,hsplit,-,-,-⟩ := hseid.alloc
      rw [hr] at halloc
      simp only [Prod.mk.injEq,some.injEq] at halloc
      obtain ⟨rfl,rfl⟩ := halloc
      refine ⟨sq,nodes++[k'],hsplit,?_⟩
      have hnodes : c.sessList.map (fun m =>
          ((sessAdded c n pool r pool.id k' f).sess m).dsmfDn4SeidNode) =
          c.sessList.map fun m => (c.sess m).dsmfDn4SeidNode :=
        map_congr_left fun m hm => by rw [hsame m hm]
      simp only [sessAdded_sessList,map_append,hnodes,map_singleton,hself]
      exact hperm.append_right _
  · simp only [sessAdded_sessList,map_append,hseids,map_singleton,hnew]
    rw [nodup_append]
    refine ⟨h.distinct,nodup_singleton _,?_⟩
    intro a ha b hb he
    rw [mem_singleton.mp hb] at he
    exact hfresh (he ▸ ha)
  · have hlist : owned c.seidKeys c.seid c.sessList =
        owned (sessAdded c n pool seidPool pool.id k f).seidKeys
          (sessAdded c n pool seidPool pool.id k f).seid c.sessList :=
      owned_congr rfl rfl fun m hm => by rw [Context.seid,Context.seid,hsame m hm]
    rw [sessAdded_dsmfDn4SeidHash,h.hash,hlist]
    refine set_owned ?_ (fun o _ => reads _ o) ?_
    · rw [hseids]
      exact h.distinct
    · rw [hseids]
      rw [hnew]
      exact hfresh

theorem sessRemoved (h : Accounted c) (fr : Frame) {n : Nat} (hn : n∈c.sessList) :
    Accounted (Dsmf.sessRemoved c fr n) := by
  obtain ⟨q,hsess⟩ := h.sessions
  obtain ⟨sq,nodes,hseid,hperm⟩ := h.seidNodes
  have hseids : (Dsmf.sessRemoved c fr n).seid=c.seid :=
    funext fun m => sessUnlink_dsmfDn4Seid c n m
  have hmem : (c.sess n).dsmfDn4SeidNode∈nodes.map some :=
    hperm.mem_iff.mp (List.mem_map.mpr ⟨n,hn,rfl⟩)
  obtain ⟨k,hk,hnode⟩ := List.mem_map.mp hmem
  refine ⟨⟨q++[n],?_⟩,?_,?_,?_⟩
  · simp only [sessRemoved_sessPool,sessRemoved_sessList]
    exact hsess.idFree hn _
  · refine ⟨sq++[k],nodes.erase k,?_,?_⟩
    · rw [sessRemoved_dn4SeidPool c fr n hnode.symm]
      exact hseid.release hk
    · have hnodes : ((Dsmf.sessRemoved c fr n).sessList.map fun m =>
          ((Dsmf.sessRemoved c fr n).sess m).dsmfDn4SeidNode) =
          (c.sessList.erase n).map fun m => (c.sess m).dsmfDn4SeidNode :=
        map_congr_left fun m _ => sessUnlink_dsmfDn4SeidNode c n m
      have hleft:=(perm_cons_erase hn).map fun m => (c.sess m).dsmfDn4SeidNode
      have hright:=(perm_cons_erase hk).map some
      rw [map_cons] at hleft hright
      rw [hnodes]
      rw [← hnode] at hleft
      exact Perm.cons_inv (hleft.symm.trans (hperm.trans hright))
  · rw [hseids,sessRemoved_sessList]
    exact h.distinct.sublist ((erase_sublist).map _)
  · rw [hseids,sessRemoved_dsmfDn4SeidHash,h.hash,sessRemoved_seidKeys,sessRemoved_sessList]
    exact unset_owned h.distinct (fun o _ => reads c o) hn

end Accounted

theorem accounted_step (t : Table) (op : Op) (u : Table) (r : Nat) (h : Accounted t.ctx)
    (hc : DrawsOwnSeid t op) (hstep : t.step op=some (.ok u r)) : Accounted u.ctx := by
  cases op with
  | sessAdd env f =>
    simp only [Table.step,some.injEq] at hstep
    cases hadd : sessAdd env t.ctx f with
    | abort c => simp [hadd,Outcome.mapState] at hstep
    | ok c n =>
      simp only [hadd,Outcome.mapState,Outcome.ok.injEq] at hstep
      rw [← hstep.1]
      exact h.sessAdd hc hadd
  | sessAddByRanSync env r' =>
    simp only [DrawsOwnSeid,creates,isNone_eq_false_iff,isSome_iff_exists] at hc
    obtain ⟨n,hn⟩ := hc
    simp only [Table.step,sessAddByRanSync,hn,Outcome.mapState,some.injEq,
      Outcome.ok.injEq] at hstep
    rw [← hstep.1]
    exact h
  | sessRemove fr n =>
    simp only [Table.step] at hstep
    split at hstep
    · rename_i hn
      cases hrem : sessRemove t.ctx fr n with
      | abort c => simp [hrem,Outcome.mapState] at hstep
      | ok c v =>
        simp only [hrem,Outcome.bind_ok,Outcome.mapState,some.injEq,
          Outcome.ok.injEq] at hstep
        rw [← hstep.1,sessRemove_inv t.ctx fr n hrem]
        exact h.sessRemoved fr hn
    · cases hstep

/-- In a run without a synchronisation that makes a session, each addition drawing a SEID no
live session has, the SEID accounts are right after every call. -/
theorem seid_accounts_run (poolSess : Nat) (sess : Nat → Sess) (dn4Seid : Nat → BitVec 32)
    (seed : BitVec 32) (ops : List Op)
    (hops : EachStep Table.step DrawsOwnSeid (Table.init poolSess sess dn4Seid seed) ops) :
    ∀ t ∈ completed Table.step (Table.init poolSess sess dn4Seid seed) ops,
      SeidAccounts t.ctx := by
  have hinit : Accounted (Table.init poolSess sess dn4Seid seed).ctx :=
    Accounted.init poolSess sess dn4Seid seed
  intro t ht
  exact (completed_inv accounted_step hinit hops t ht).seidAccounts

def table2 : Table := Table.init 2 (fun _ => Sess.zero) (fun k => BitVec.ofNat 32 (k+1)) 0

theorem seid_accounts_run_two :
    (completed Table.step table2
        [.sessAdd env0 ⟨1,0⟩,.sessAdd env0 ⟨2,0⟩,.sessRemove env0.frame 0]).length=4 ∧
      ∀ t ∈ completed Table.step table2
        [.sessAdd env0 ⟨1,0⟩,.sessAdd env0 ⟨2,0⟩,.sessRemove env0.frame 0], SeidAccounts t.ctx := by
  exact ⟨by decide,seid_accounts_run 2 _ _ _ _ (by decide)⟩

def ranSync0 : RanSync := ⟨strA,strB,0⟩

/-- One synchronisation: one session, two SEID nodes. -/
theorem seid_leak :
    ∃ t ∈ completed Table.step table2 [.sessAddByRanSync env0 ranSync0],
      t.ctx.sessList=[0] ∧ t.ctx.dn4SeidPool.size-t.ctx.dn4SeidPool.avail=2 ∧
        ¬ SeidAccounts t.ctx := by
  decide

end OgsDp.Dsmf
