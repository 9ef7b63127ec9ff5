import OgsDp.Core.RbTreeRun
import OgsDp.Core.Timer
import OgsDp.Lib.Alarms
import OgsDp.Lib.StableOrder

/-!
# The tree of running timers (lib/core/ogs-timer.c)

The tree has the running timers in the order of their timeouts, those with the same timeout in the
order in which they were started.
-/

namespace OgsDp.Core
open Lib Lib.RedBlack ColorTree Spine RbNode Function

namespace TimerMgr

def stamp : List Nat → Nat → Nat
  | [], _ => 0
  | y::log, x => if x=y then log.length+1 else stamp log x

theorem stamp_le (log : List Nat) (x : Nat) : stamp log x≤log.length := by
  induction log with
  | nil => exact Nat.le_refl 0
  | cons y log ih =>
    rw [stamp,List.length_cons]
    split <;> omega

theorem stamp_self (log : List Nat) (x : Nat) : stamp (x::log) x=log.length+1 := if_pos rfl

theorem stamp_ne {x y : Nat} (log : List Nat) (h : x≠y) : stamp (y::log) x=stamp log x :=
  if_neg h

def timeouts (m : TimerMgr) (x : Nat) : Int := (m.timer x).timeout

/-- The timer that times out first, or was started first, comes first. -/
def Sooner (m : TimerMgr) (log : List Nat) (x y : Nat) : Prop :=
  Before m.timeouts (stamp log) x y

def alarms (m : TimerMgr) (x : Nat) : Option Int :=
  if (m.timer x).running then some (m.timer x).timeout else none

def Shaped (s : RbTree) (l : List Nat) : Prop :=
  ∃ t,s.At [] t ∧ t.inorder=l ∧ ∃ k,RB t .black k

variable {m m' : TimerMgr} {p : Spine Nat} {t : ColorTree Nat} {d : Side} {capacity rounds x y : Nat}
  {log l : List Nat} {now duration timeout : Int} {known : Nat → Prop}

theorem findLink_spec (h : m.tree.At p t) (hd : ∀ f∈p.head?,f.side=d)
    (hl : t.inorder.Pairwise fun a b => m.timeouts a ≤ m.timeouts b)
    (hbefore : ∀ a∈before p,m.timeouts a≤timeout)
    (hafter : ∀ a∈after p,timeout < m.timeouts a) (hr : t.inorder.length < rounds) :
    ∃ q e,m.findLink timeout rounds (above p) d t.top=some (above q,e) ∧
      m.tree.At q .leaf ∧ (∀ f∈q.head?,f.side=e) ∧ plug q .leaf=plug p t ∧
      (∀ a∈before q,m.timeouts a≤timeout) ∧ ∀ a∈after q,timeout < m.timeouts a := by
  induction t generalizing p d rounds with
  | leaf =>
    obtain ⟨r,rfl⟩ : ∃ r,rounds=r+1 := ⟨rounds-1,by omega⟩
    exact ⟨p,d,rfl,h,hd,rfl,hbefore,hafter⟩
  | node c a y b iha ihb =>
    obtain ⟨r,rfl⟩ : ∃ r,rounds=r+1 := ⟨rounds-1,by omega⟩
    rw [inorder,List.length_append,List.length_cons] at hr
    rw [inorder] at hl
    obtain ⟨hla,hlyb,hab⟩ := List.pairwise_append.mp hl
    obtain ⟨hyb,hlb⟩ := List.pairwise_cons.mp hlyb
    have hnode:=h.owns.1
    rw [top,findLink,hnode]
    by_cases hlt : timeout<(m.timer y).timeout
    · have hat : m.tree.At p (fork .left c a y b) := h
      have hleft : m.tree.At (⟨.left,c,y,b⟩::p) a := RbTree.at_near.mp hat
      have hside : ∀ f∈(⟨.left,c,y,b⟩::p : Spine Nat).head?,f.side = .left := by simp
      have hra : a.inorder.length < r := by omega
      have hnext : ∀ z∈after (⟨.left,c,y,b⟩::p),timeout < m.timeouts z := by
        intro z hz
        rcases List.mem_cons.mp hz with rfl | hz
        · exact hlt
        rcases List.mem_append.mp hz with hz | hz
        · exact hlt.trans_le (hyb z hz)
        · exact hafter z hz
      obtain ⟨q,e,hq,hrest⟩ := iha hleft hside hla hbefore hnext hra
      refine ⟨q,e,?_,hrest⟩
      simp only [if_pos hlt]
      exact hq
    · have hat : m.tree.At p (fork .right c b y a) := h
      have hright : m.tree.At (⟨.right,c,y,a⟩::p) b := RbTree.at_near.mp hat
      have hside : ∀ f∈(⟨.right,c,y,a⟩::p : Spine Nat).head?,f.side = .right := by simp
      have hrb : b.inorder.length < r := by omega
      have hprev : ∀ z∈before (⟨.right,c,y,a⟩::p),m.timeouts z≤timeout := by
        intro z hz
        rw [before,List.mem_append,List.mem_append,List.mem_singleton] at hz
        rcases hz with (hz | hz) | rfl
        · exact hbefore z hz
        · exact (hab z hz y List.mem_cons_self).trans (not_lt.mp hlt)
        · exact not_lt.mp hlt
      obtain ⟨q,e,hq,hrest⟩ := ihb hright hside hlb hprev hafter hrb
      refine ⟨q,e,?_,hrest⟩
      simp only [if_neg hlt]
      exact hq

theorem addTimerNode_spec (now duration : Int) (hs : Shaped m.tree l)
    (hl : l.Pairwise (m.Sooner log)) (hx : x∉l) (hr : l.length < rounds) :
    ∃ tree,m.addTimerNode rounds x now duration =
        some { m.setTimer x { m.timer x with timeout := now+duration } with tree := tree } ∧
      Shaped tree (insertStable
        (m.setTimer x { m.timer x with timeout := now+duration }).timeouts x l) := by
  obtain ⟨t,ht,rfl,k,hk⟩ := hs
  let u:=m.setTimer x { m.timer x with timeout := now+duration }
  have hkeep : ∀ y∈t.inorder,u.timeouts y=m.timeouts y := by
    intro y hy
    have hyx : y≠x := fun he => hx (he ▸ hy)
    simp only [u,timeouts,setTimer,update_of_ne hyx]
  have hself : u.timeouts x=now+duration := by
    simp only [u,timeouts,setTimer,update_self]
  have hsorted : t.inorder.Pairwise fun a b => u.timeouts a≤u.timeouts b := by
    refine hl.imp_of_mem fun ha hb hab => ?_
    rw [hkeep _ ha,hkeep _ hb]
    exact hab.le
  have hut : u.tree.At [] t := ht
  obtain ⟨q,d,hfind,hat,hd,hplug,hbefore,hafter⟩ :=
    @findLink_spec u [] t .left rounds (now+duration) hut (by simp) hsorted (by simp [before])
      (by simp [after]) hr
  have hin : before q++after q=t.inorder := by
    have h:=congrArg ColorTree.inorder hplug
    rw [inorder_plug] at h
    simpa [plug] using h
  have hxq : x∉ids q := by
    intro hmem
    have h:=(RbTree.mem_inorder_plug q .leaf).mpr (.inr hmem)
    rw [hplug] at h
    exact hx h
  obtain ⟨c,n,hleaf,hadm⟩ := admits_of_plug (hplug ▸ hk : RB (plug q .leaf) .black k)
  cases hleaf
  have hlong : q.length < rounds := by
    have hq:=congrArg (List.length ∘ ColorTree.inorder) hplug
    have hle:=RbTree.length_le_ids q
    simp only [Function.comp,RbTree.length_plug,inorder_leaf,List.length_nil,ids] at hq
    omega
  obtain ⟨tree,t',hcolor,ht',hin',hk'⟩ :=
    RbTree.insertColor_spec (RbTree.linkNode_at hat hxq hd) hadm hlong
  refine ⟨tree,?_,t',ht',?_,hk'⟩
  · have hroot : u.tree.root=t.top := ht.root
    have hgo : u.findLink (now+duration) rounds none .left u.tree.root=some (above q,d) := by
      rw [hroot]
      exact hfind
    unfold addTimerNode
    simp only [u] at hgo hcolor
    simp only [hgo,hcolor,Option.map_some]
  · rw [hin',← hin,insertStable_append]
    · intro b hb
      rw [hself]
      exact hbefore b hb
    · intro b hb
      rw [hself]
      exact hafter b hb

/-- The running timers are in the tree, in their order, and each of them is in use. The timers of
`known` were added at some time, and may have been deleted since. -/
structure Holds (m : TimerMgr) (capacity : Nat) (known : Nat → Prop) (log l : List Nat) :
    Prop where
  shaped : Shaped m.tree l
  sorted : l.Pairwise (m.Sooner log)
  running : ∀ x,known x → ((m.timer x).running=true ↔ x∈l)
  pool : ∃ q live,Pool.Split m.pool q live ∧ l ⊆ live ∧ ∀ x∈live,known x
  size : m.pool.size=capacity

theorem Holds.nodup (h : m.Holds capacity known log l) : l.Nodup := by
  obtain ⟨t,ht,rfl,-⟩ := h.shaped
  exact (List.nodup_append'.mp ht.nodup).1

theorem Holds.length_le (h : m.Holds capacity known log l) : l.length ≤ capacity := by
  obtain ⟨q,live,hsplit,hsub,-⟩ := h.pool
  have hle:=(List.subperm_of_subset h.nodup hsub).length_le
  have hlen:=hsplit.length_add
  rw [h.size] at hlen
  omega

structure Kept (m m' : TimerMgr) : Prop where
  lnode : m'.lnode=m.lnode
  cb : ∀ x,(m'.timer x).cb=(m.timer x).cb
  data : ∀ x,(m'.timer x).data=(m.timer x).data

theorem Kept.refl (m : TimerMgr) : Kept m m := ⟨rfl,fun _ => rfl,fun _ => rfl⟩

theorem Kept.trans {m'' : TimerMgr} (h : Kept m m') (h' : Kept m' m'') : Kept m m'' where
  lnode := h'.lnode.trans h.lnode
  cb := fun x => (h'.cb x).trans (h.cb x)
  data := fun x => (h'.data x).trans (h.data x)

theorem kept_update {u : Timer} (hl : m'.lnode=m.lnode)
    (ht : m'.timer=update m.timer x u) (hcb : u.cb=(m.timer x).cb)
    (hdata : u.data=(m.timer x).data) : Kept m m' where
  lnode := hl
  cb := by
    intro y
    rw [ht]
    by_cases hyx : y=x
    · rw [hyx,update_self,hcb]
    · rw [update_of_ne hyx]
  data := by
    intro y
    rw [ht]
    by_cases hyx : y=x
    · rw [hyx,update_self,hdata]
    · rw [update_of_ne hyx]

theorem alarms_update {u : Timer} (ht : m'.timer=update m.timer x u) :
    m'.alarms=update m.alarms x (if u.running then some u.timeout else none) := by
  funext y
  rw [alarms,ht]
  by_cases hyx : y=x
  · rw [hyx,update_self,update_self]
  · rw [update_of_ne hyx,update_of_ne hyx]
    rfl

def Call.alarm : Call → Alarms.Call Nat Int
  | .start x now duration => .start x (now+duration)
  | .stop x => .stop x
  | .delete x => .stop x

theorem stop_spec (h : m.Holds capacity known log l) (hr : capacity < rounds) (hx : known x) :
    ∃ m',m.stop rounds x = .ok m' ∧ m'.Holds capacity known log (l.erase x) ∧ Kept m m' ∧
      m'.pool=m.pool ∧ m'.alarms=Alarms.call m.alarms (.stop x) := by
  have hlen:=h.length_le
  by_cases hxl : x∈l
  · have hrun:=(h.running x hx).mpr hxl
    obtain ⟨t,ht,hin,k,hk⟩ := h.shaped
    have hxt : x∈t.inorder := hin ▸ hxl
    have hshort : t.inorder.length < rounds := by
      rw [hin]
      omega
    obtain ⟨tree,t',hdel,ht',hin',hk'⟩ := RbTree.rbDelete_spec ht hk hxt hshort
    let u : Timer := { m.timer x with running := false }
    let m' : TimerMgr := ⟨m.pool,tree,m.lnode,update m.timer x u⟩
    have hstop : m.stop rounds x = .ok m' := by
      rw [stop,if_neg (by rw [hrun]; exact nofun)]
      simp only [setTimer,hdel,orStuck]
      rfl
    have hsub:=List.erase_subset (a := x) (l := l)
    have hkeep : ∀ y∈l.erase x,m'.timeouts y=m.timeouts y := by
      intro y hy
      have hyx:=(h.nodup.mem_erase_iff.mp hy).1
      simp only [m',timeouts,update_of_ne hyx]
    refine ⟨m',hstop,⟨⟨t',ht',hin'.trans (hin ▸ rfl),hk'⟩,?_,?_,?_,h.size⟩,
      kept_update rfl rfl rfl rfl,rfl,@alarms_update m m' x u rfl⟩
    · exact pairwise_before_congr (h.sorted.sublist List.erase_sublist) hkeep fun _ _ => rfl
    · intro y hy
      rw [h.nodup.mem_erase_iff]
      by_cases hyx : y=x
      · simp [m',u,hyx]
      · simp only [m',update_of_ne hyx,h.running y hy]
        exact ⟨fun hyl => ⟨hyx,hyl⟩,And.right⟩
    · obtain ⟨q,live,hsplit,hlive,hknown⟩ := h.pool
      exact ⟨q,live,hsplit,fun y hy => hlive (hsub hy),hknown⟩
  · have hrun : (m.timer x).running=false := by
      rw [← Bool.not_eq_true,h.running x hx]
      exact hxl
    have hstop : m.stop rounds x = .ok m := if_pos hrun
    have hnone : m.alarms x=none := by
      rw [alarms,hrun]
      rfl
    rw [List.erase_of_not_mem hxl]
    refine ⟨m,hstop,h,Kept.refl m,rfl,?_⟩
    exact (update_eq_self_iff.mpr hnone.symm).symm

theorem start_spec (now : Int) (h : m.Holds capacity known log l) (hr : capacity < rounds)
    {q live : List Nat} (hpool : Pool.Split m.pool q live) (hlive : l ⊆ live)
    (hknown : ∀ y∈live,known y) (hx : x∈live) (hd : duration≠0) :
    ∃ m' l',m.start rounds x now duration = .ok m' ∧ m'.Holds capacity known (x::log) l' ∧
      Kept m m' ∧ m'.pool=m.pool ∧
      m'.alarms=Alarms.call m.alarms (.start x (now+duration)) := by
  have hlen:=h.length_le
  obtain ⟨tree,htree,hshaped⟩ : ∃ tree,m.unlinkRunning rounds x = .ok tree ∧
      Shaped tree (l.erase x) := by
    obtain ⟨t,ht,hin,k,hk⟩ := h.shaped
    by_cases hxl : x∈l
    · have hshort : t.inorder.length < rounds := by
        rw [hin]
        omega
      obtain ⟨tree,t',hdel,ht',hin',hk'⟩ := RbTree.rbDelete_spec ht hk (hin ▸ hxl) hshort
      refine ⟨tree,?_,t',ht',hin'.trans (hin ▸ rfl),hk'⟩
      rw [unlinkRunning,if_pos ((h.running x (hknown x hx)).mpr hxl),hdel]
      rfl
    · refine ⟨m.tree,if_neg (mt (h.running x (hknown x hx)).mp hxl),t,ht,?_,k,hk⟩
      rw [hin,List.erase_of_not_mem hxl]
  let w : TimerMgr :=
    ⟨m.pool,tree,m.lnode,update m.timer x { m.timer x with running := true }⟩
  have hxl : x∉l.erase x := fun hmem => (h.nodup.mem_erase_iff.mp hmem).1 rfl
  have hkeep : ∀ y∈l.erase x,w.timeouts y=m.timeouts y := by
    intro y hy
    have hyx:=(h.nodup.mem_erase_iff.mp hy).1
    simp only [w,timeouts,update_of_ne hyx]
  have hsorted : (l.erase x).Pairwise (w.Sooner log) :=
    pairwise_before_congr (h.sorted.sublist List.erase_sublist) hkeep fun _ _ => rfl
  have hshort : (l.erase x).length < rounds := by
    have hle:=(List.erase_sublist (a := x) (l := l)).length_le
    omega
  obtain ⟨tree',hadd,hshaped'⟩ :=
    addTimerNode_spec now duration hshaped hsorted hxl hshort
  let m' : TimerMgr :=
    { w.setTimer x { w.timer x with timeout := now+duration } with tree := tree' }
  have hm' : m'.timer=update m.timer x
      { m.timer x with running := true,timeout := now+duration } := by
    simp only [m',w,setTimer,update_self,update_idem]
  have hstart : m.start rounds x now duration = .ok m' := by
    simp only [start,if_neg hd,htree,setTimer,bind,Except.bind]
    exact congrArg orStuck hadd
  have hu : ∀ y∈l.erase x,m'.timeouts y=m.timeouts y := by
    intro y hy
    have hyx:=(h.nodup.mem_erase_iff.mp hy).1
    rw [timeouts,hm',update_of_ne hyx]
    rfl
  have hstamp : ∀ y∈l.erase x,stamp (x::log) y=stamp log y :=
    fun y hy => stamp_ne log (h.nodup.mem_erase_iff.mp hy).1
  have hnew : ∀ y∈l.erase x,stamp (x::log) y<stamp (x::log) x := by
    intro y hy
    have hle:=stamp_le log y
    rw [hstamp y hy,stamp_self]
    omega
  refine ⟨m',insertStable m'.timeouts x (l.erase x),hstart,⟨hshaped',?_,?_,?_,h.size⟩,
    kept_update rfl hm' rfl rfl,rfl,alarms_update hm'⟩
  · refine pairwise_insertStable ?_ hnew
    exact pairwise_before_congr (h.sorted.sublist List.erase_sublist) hu hstamp
  · intro y hy
    rw [mem_insertStable,h.nodup.mem_erase_iff,hm']
    by_cases hyx : y=x
    · simp [hyx]
    · rw [update_of_ne hyx,h.running y hy]
      simp [hyx]
  · refine ⟨q,live,hpool,fun y hy => ?_,hknown⟩
    rcases mem_insertStable.mp hy with rfl | hy
    · exact hx
    · exact hlive (List.mem_of_mem_erase hy)

theorem delete_spec (h : m.Holds capacity known log l) (hr : capacity < rounds) {q live : List Nat}
    (hpool : Pool.Split m.pool q live) (hlive : l ⊆ live) (hknown : ∀ y∈live,known y)
    (hx : x∈live) :
    ∃ m',m.delete rounds x = .ok m' ∧ m'.Holds capacity known log (l.erase x) ∧ Kept m m' ∧
      m'.alarms=Alarms.call m.alarms (.stop x) := by
  obtain ⟨w,hstop,hw,hkept,hwp,halarms⟩ := stop_spec h hr (hknown x hx)
  have hsplit : Pool.Split w.pool q live := hwp ▸ hpool
  refine ⟨{ w with pool := w.pool.release x },?_,⟨hw.shaped,hw.sorted,hw.running,?_,?_⟩,
    ⟨hkept.lnode,hkept.cb,hkept.data⟩,halarms⟩
  · rw [delete,hstop]
    rfl
  · refine ⟨q++[x],live.erase x,hsplit.release hx,fun y hy => ?_,
      fun y hy => hknown y (List.mem_of_mem_erase hy)⟩
    obtain ⟨hyx,hyl⟩ := h.nodup.mem_erase_iff.mp hy
    exact (List.mem_erase_of_ne hyx).mpr (hlive hyl)
  · exact (Pool.release_size ..).trans hw.size

/-- There is a result that does as `alarms` says, or a reason of the caller that there is none. -/
def Serves (m : TimerMgr) (capacity : Nat) (known : Nat → Prop) (log : List Nat)
    (alarms : Nat → Option Int) (r : Except Fault TimerMgr) : Prop :=
  (∃ fault,r = .error fault ∧ fault ≠ .stuck) ∨
    ∃ m' l,r = .ok m' ∧ m'.Holds capacity known log l ∧ Kept m m' ∧ m'.alarms=alarms

theorem call_spec (h : m.Holds capacity known log l) (hr : capacity < rounds) (c : Call) :
    Serves m capacity known (started log [c]) (Alarms.call m.alarms c.alarm) (m.call rounds c) := by
  obtain ⟨q,live,hpool,hlive,hknown⟩ := h.pool
  by_cases hindex : m.pool.index c.timer=some c.timer
  · have hx : c.timer∈live := by
      by_contra hx
      rw [hpool.index_free _ hx] at hindex
      cases hindex
    rw [call.eq_def,if_pos hindex]
    cases c with
    | start x now duration =>
      by_cases hd : duration=0
      · refine .inl ⟨.assert,?_,nofun⟩
        simp only [start,if_pos hd]
        rfl
      · obtain ⟨m',l',hm',hh,hk,-,ha⟩ := start_spec now h hr hpool hlive hknown hx hd
        exact .inr ⟨m',l',hm',hh,hk,ha⟩
    | stop x =>
      obtain ⟨m',hm',hh,hk,-,ha⟩ := stop_spec h hr (hknown x hx)
      exact .inr ⟨m',l.erase x,hm',hh,hk,ha⟩
    | delete x =>
      obtain ⟨m',hm',hh,hk,ha⟩ := delete_spec h hr hpool hlive hknown hx
      exact .inr ⟨m',l.erase x,hm',hh,hk,ha⟩
  · rw [call.eq_def,if_neg hindex]
    exact .inl ⟨.freed,rfl,nofun⟩

theorem calls_spec (h : m.Holds capacity known log l) (hr : capacity < rounds) (cs : List Call) :
    Serves m capacity known (started log cs) (Alarms.calls m.alarms (cs.map Call.alarm))
      (m.calls rounds cs) := by
  induction cs generalizing m log l with
  | nil => exact .inr ⟨m,l,rfl,h,Kept.refl m,rfl⟩
  | cons c cs ih =>
    rcases call_spec h hr c with ⟨fault,hcall,hf⟩ | ⟨w,l',hcall,hw,hk,ha⟩
    · refine .inl ⟨fault,?_,hf⟩
      rw [calls,hcall]
      rfl
    · have hlog : started log (c::cs)=started (started log [c]) cs := by cases c <;> rfl
      have hcalls : m.calls rounds (c::cs)=w.calls rounds cs := by
        rw [calls,hcall]
        rfl
      rw [hlog,hcalls,List.map_cons,Alarms.calls_cons,← ha]
      rcases ih hw with hfail | ⟨m',l'',hm',hh,hk',ha'⟩
      · exact .inl hfail
      · exact .inr ⟨m',l'',hm',hh,hk.trans hk',ha'⟩

end TimerMgr
end OgsDp.Core
