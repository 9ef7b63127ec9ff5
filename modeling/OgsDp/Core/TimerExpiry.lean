import OgsDp.Core.TimerTree

/-!
# Expiry of timers (lib/core/ogs-timer.c)

`ogs_timer_mgr_expire` first puts the due timers in a list and then calls the callbacks. It does
not look at a timer of the list again, whatever the callbacks in front did to it.
-/

namespace OgsDp.Core
open Lib Lib.RedBlack ColorTree Spine RbNode Function List

namespace TimerMgr

variable {m m' : TimerMgr} {capacity rounds x : Nat} {log l : List Nat} {current : Int}
  {known : Nat → Prop} {made : Nat → List Call}

theorem rbNext_spec (hs : Shaped m.tree l) (hr : l.length < rounds) {a b : List Nat}
    (hl : l=a++x::b) : m.tree.rbNext rounds x=some b.head? := by
  obtain ⟨t,ht,rfl,-⟩ := hs
  have hx : (RbTree.order .right t.inorder)[a.length]?=some x := by
    rw [RbTree.order,hl,List.getElem?_append_right (Nat.le_refl _),Nat.sub_self]
    rfl
  rw [RbTree.rbNext,RbTree.walk_order ht hr .right hx,RbTree.order,hl,
    List.getElem?_append_right (Nat.le_add_right _ 1),Nat.add_sub_cancel_left]
  cases b <;> rfl

theorem rbFirst_spec (hs : Shaped m.tree l) (hr : l.length < rounds) :
    m.tree.rbFirst rounds=some l.head? := by
  obtain ⟨t,ht,rfl,-⟩ := hs
  exact RbTree.edge_order ht hr .right

theorem collect_spec (current : Int) (hs : Shaped m.tree l) (hr : l.length < rounds)
    {a b : List Nat} {lnode : LinkedList.Links Nat} {list : LinkedList.Head Nat} {n : Nat}
    (hl : l=a++b) (hnd : l.Nodup) (hc : LinkedList.Chained lnode list a) (hn : b.length<n) :
    ∃ lnode' list',m.collect rounds current n b.head? lnode list=some (lnode',list') ∧
      LinkedList.Chained lnode' list' (a++b.takeWhile fun x => m.timeouts x ≤ current) := by
  induction b generalizing a lnode list n with
  | nil =>
    obtain ⟨n,rfl⟩ : ∃ r,n=r+1 := ⟨n-1,by omega⟩
    refine ⟨lnode,list,rfl,?_⟩
    rw [takeWhile_nil,append_nil]
    exact hc
  | cons x b ih =>
    obtain ⟨n,rfl⟩ : ∃ r,n=r+1 := ⟨n-1,by omega⟩
    rw [length_cons] at hn
    rw [List.head?_cons,collect,takeWhile_cons]
    by_cases hlate : current<(m.timer x).timeout
    · have hnot : ¬ m.timeouts x ≤ current := not_le.mpr hlate
      refine ⟨lnode,list,if_pos hlate,?_⟩
      rw [if_neg (mt of_decide_eq_true hnot),append_nil]
      exact hc
    · have hdue : m.timeouts x ≤ current := not_lt.mp hlate
      have hx : x∉a := by
        rw [hl] at hnd
        exact fun ha => (nodup_append'.mp hnd).2.2 ha mem_cons_self
      have hl' : l=(a++[x])++b := by simp [hl]
      have hshort : b.length<n := by omega
      obtain ⟨lnode',list',hgo,hchain⟩ := ih hl' (hc.add hx) hshort
      refine ⟨lnode',list',?_,?_⟩
      · rw [if_neg hlate,rbNext_spec hs hr hl]
        exact hgo
      · rw [if_pos (decide_eq_true hdue),append_cons]
        exact hchain

theorem mem_takeWhile_due (hl : l.Pairwise (m.Sooner log)) :
    x∈l.takeWhile (fun x => m.timeouts x ≤ current) ↔ x∈l ∧ m.timeouts x ≤ current := by
  induction l with
  | nil => simp
  | cons y l ih =>
    obtain ⟨hy,hl⟩ := pairwise_cons.mp hl
    rw [takeWhile_cons]
    split
    · rename_i hdue
      rw [mem_cons,mem_cons,ih hl]
      constructor
      · rintro (rfl | ⟨hx,hle⟩)
        · exact ⟨.inl rfl,of_decide_eq_true hdue⟩
        · exact ⟨.inr hx,hle⟩
      · rintro ⟨rfl | hx,hle⟩
        · exact .inl rfl
        · exact .inr ⟨hx,hle⟩
    · rename_i hlate
      have hyl : ¬ m.timeouts y ≤ current := fun h => hlate (decide_eq_true h)
      refine iff_of_false not_mem_nil fun ⟨hx,hle⟩ => ?_
      rcases mem_cons.mp hx with rfl | hx
      · exact hyl hle
      · exact hyl ((hy x hx).le.trans hle)

def callback (m : TimerMgr) (x : Nat) : Option Fired :=
  (m.timer x).cb.map fun cb => ⟨x,cb,(m.timer x).data⟩

theorem Kept.callback (h : Kept m m') : m'.callback=m.callback := by
  funext x
  rw [TimerMgr.callback,h.cb,h.data]
  rfl

theorem started_append (log : List Nat) (cs cs' : List Call) :
    started log (cs++cs')=started (started log cs) cs' := by
  induction cs generalizing log with
  | nil => rfl
  | cons c cs ih => cases c <;> exact ih _

theorem fire_spec (hr : capacity < rounds) {b : List Nat} {n : Nat}
    (h : m.Holds capacity known log l) (hb : ∀ x∈b,known x)
    (hlink : ∀ a x c,b=a++x::c → m.lnode.next x=c.head?) (hn : b.length<n) :
    (∃ fault,fire rounds made n m b.head? = .error fault ∧ fault ≠ .stuck) ∨
      ∃ m' l',fire rounds made n m b.head? = .ok (m',b.filterMap m.callback) ∧
        m'.Holds capacity known
          (started log ((b.filterMap m.callback).flatMap fun f => made f.timer)) l' := by
  induction b generalizing m log l n with
  | nil =>
    obtain ⟨n,rfl⟩ : ∃ r,n=r+1 := ⟨n-1,by omega⟩
    exact .inr ⟨m,l,rfl,h⟩
  | cons x b ih =>
    obtain ⟨n,rfl⟩ : ∃ r,n=r+1 := ⟨n-1,by omega⟩
    have hshort : b.length<n := by simpa using hn
    obtain ⟨w,hstop,hw,hkept,-⟩ := stop_spec h hr (hb x mem_cons_self)
    have hknown : ∀ y∈b,known y := fun y hy => hb y (mem_cons_of_mem x hy)
    have hnext : ∀ u : TimerMgr, Kept m u → u.lnode.next x=b.head? ∧
        ∀ a y c,b=a++y::c → u.lnode.next y=c.head? := by
      intro u hu
      rw [hu.lnode]
      refine ⟨hlink [] x b rfl,fun a y c he => hlink (x::a) y c ?_⟩
      rw [he]
      rfl
    cases hcb : (w.timer x).cb with
    | none =>
      have hquiet : m.callback x=none := by
        rw [callback,← hkept.cb,hcb]
        rfl
      have hgo : fire rounds made (n+1) m (some x)=fire rounds made n w b.head? := by
        simp only [fire,hstop,bind,Except.bind,hcb,(hnext w hkept).1]
      rw [List.head?_cons,hgo,filterMap_cons_none hquiet,← hkept.callback]
      exact ih hw hknown (hnext w hkept).2 hshort
    | some cb =>
      have hloud : m.callback x=some ⟨x,cb,(w.timer x).data⟩ := by
        rw [callback,← hkept.cb,hcb,hkept.data]
        rfl
      rw [List.head?_cons,filterMap_cons_some hloud,flatMap_cons,started_append]
      rcases calls_spec hw hr (made x) with ⟨fault,hcalls,hf⟩ | ⟨u,l',hcalls,hu,hk,-⟩
      · refine .inl ⟨fault,?_,hf⟩
        simp only [fire,hstop,bind,Except.bind,hcb,hcalls]
      · have hku:=hkept.trans hk
        have hgo : fire rounds made (n+1) m (some x) =
            (fire rounds made n u b.head?).map fun r =>
              (r.1,⟨x,cb,(w.timer x).data⟩::r.2) := by
          simp only [fire,hstop,bind,Except.bind,hcb,hcalls,(hnext u hku).1]
          cases fire rounds made n u b.head? <;> rfl
        rw [hgo]
        rcases ih hu hknown (hnext u hku).2 hshort with ⟨fault,hfail,hf⟩ | ⟨m',l'',hm',hh⟩
        · refine .inl ⟨fault,?_,hf⟩
          rw [hfail]
          rfl
        · rw [hku.callback] at hm' hh
          refine .inr ⟨m',l'',?_,hh⟩
          rw [hm']
          rfl

theorem expire_spec (hr : capacity < rounds) (h : m.Holds capacity known log l) (current : Int)
    (made : Nat → List Call) :
    ∃ batch : List Nat, batch.Pairwise (m.Sooner log) ∧
      (∀ x,x∈batch ↔ x∈l ∧ m.timeouts x ≤ current) ∧
      ((∃ fault,m.expire rounds current made = .error fault ∧ fault ≠ .stuck) ∨
        ∃ m' l',m.expire rounds current made = .ok (m',batch.filterMap m.callback) ∧
          m'.Holds capacity known
            (started log ((batch.filterMap m.callback).flatMap fun f => made f.timer)) l') := by
  have hlen:=h.length_le
  have hshort : l.length < rounds := by omega
  let batch:=l.takeWhile fun x => m.timeouts x ≤ current
  have hsub : batch.Sublist l := takeWhile_sublist _
  obtain ⟨lnode,list,hgo,hchain⟩ := collect_spec current h.shaped hshort (a := []) rfl
    h.nodup (LinkedList.chained_empty m.lnode) hshort
  refine ⟨batch,h.sorted.sublist hsub,fun x => mem_takeWhile_due h.sorted,?_⟩
  rw [nil_append] at hchain
  let w : TimerMgr := { m with lnode := lnode }
  have hw : w.Holds capacity known log l := ⟨h.shaped,h.sorted,h.running,h.pool,h.size⟩
  obtain ⟨q,live,-,hlive,hknown⟩ := h.pool
  have hbatch : ∀ x∈batch,known x := fun x hx => hknown x (hlive (hsub.subset hx))
  have hle:=hsub.length_le
  have hb : batch.length < rounds := by omega
  have hexpire : m.expire rounds current made=fire rounds made rounds w batch.head? := by
    rw [expire,rbFirst_spec h.shaped hshort]
    simp only [orStuck,bind,Except.bind,hgo]
    exact congrArg _ hchain.first
  rw [hexpire]
  exact fire_spec hr hw hbatch (fun a x c he => (hchain.linked a x c he).2) hb

theorem create_holds (capacity : Nat) (node : Nat → RbNode) (lnode : LinkedList.Links Nat)
    (timer : Nat → Timer) :
    (create capacity node lnode timer).Holds capacity (fun _ => False) [] [] where
  shaped := ⟨.leaf,⟨trivial,trivial,rfl,nodup_nil⟩,rfl,0,.leaf⟩
  sorted := List.Pairwise.nil
  running := nofun
  pool := ⟨_,[],Pool.split_init capacity,nil_subset _,nofun⟩
  size := rfl

theorem add_holds (h : m.Holds capacity known log l) (cb : Option Nat) (data : Nat) :
    ∃ known,(m.add cb data).1.Holds capacity known log l := by
  obtain ⟨q,live,hsplit,hlive,hknown⟩ := h.pool
  cases q with
  | nil =>
    refine ⟨known,?_⟩
    rw [add,Pool.alloc_of_nil hsplit.queue]
    exact h
  | cons x q =>
    obtain ⟨pool,halloc,hsplit',hsize,-⟩ := hsplit.alloc
    have hx : x∉l := fun hx => hsplit.not_live_of_free mem_cons_self (hlive hx)
    have hne : ∀ y∈l,y≠x := fun y hy he => hx (he ▸ hy)
    refine ⟨fun y => known y ∨ y=x,?_⟩
    rw [add,halloc]
    refine ⟨?_,?_,?_,⟨q,live++[x],hsplit',?_,?_⟩,hsize.trans h.size⟩
    · obtain ⟨t,ht,rfl,k,hk⟩ := h.shaped
      refine ⟨t,⟨?_,trivial,ht.root,ht.nodup⟩,rfl,k,hk⟩
      exact ht.owns.congr fun y hy => update_of_ne (hne y hy) _ _
    · refine pairwise_before_congr h.sorted (fun y hy => ?_) fun _ _ => rfl
      simp only [timeouts,update_of_ne (hne y hy)]
    · intro y hy
      by_cases hyx : y=x
      · simp [hyx,hx]
      · simp only [update_of_ne hyx]
        exact h.running y (hy.resolve_right hyx)
    · exact fun y hy => mem_append_left [x] (hlive hy)
    · intro y hy
      rcases mem_append.mp hy with hy | hy
      · exact .inl (hknown y hy)
      · exact .inr (mem_singleton.mp hy)

theorem Reaches.holds (hr : capacity < rounds) (h : Reaches capacity rounds m log) :
    ∃ known l,m.Holds capacity known log l := by
  induction h with
  | create node lnode timer => exact ⟨_,[],create_holds ..⟩
  | add cb data _ ih =>
    obtain ⟨known,l,h⟩ := ih
    obtain ⟨known',h'⟩ := add_holds h cb data
    exact ⟨known',l,h'⟩
  | @call m m' log c _ hcall ih =>
    obtain ⟨known,l,h⟩ := ih
    rcases call_spec h hr c with ⟨fault,hfail,-⟩ | ⟨w,l',hw,hh,-⟩
    · exact nomatch hfail.symm.trans hcall
    · cases hw.symm.trans hcall
      exact ⟨known,l',hh⟩
  | @expire m m' log current made fired _ hexpire ih =>
    obtain ⟨known,l,h⟩ := ih
    obtain ⟨batch,-,-,hgo⟩ := expire_spec hr h current made
    rcases hgo with ⟨fault,hfail,-⟩ | ⟨w,l',hw,hh⟩
    · exact nomatch hfail.symm.trans hexpire
    · cases hw.symm.trans hexpire
      exact ⟨known,l',hh⟩

structure Batch (m : TimerMgr) (log : List Nat) (current : Int) (batch : List Nat) : Prop where
  sorted : batch.Pairwise (m.Sooner log)
  mem : ∀ x,x∈batch ↔ m.pool.index x=some x ∧ Alarms.Due m.alarms current x

theorem Batch.nodup {batch : List Nat} (h : m.Batch log current batch) : batch.Nodup := by
  refine h.sorted.imp fun hxy he => ?_
  rw [he] at hxy
  exact hxy.asymm hxy

theorem Batch.unique {batch batch' : List Nat} (h : m.Batch log current batch)
    (h' : m.Batch log current batch') : batch=batch' := by
  have hperm : batch.Perm batch' :=
    (perm_ext_iff_of_nodup h.nodup h'.nodup).mpr fun x => (h.mem x).trans (h'.mem x).symm
  exact hperm.eq_of_pairwise (fun x y _ _ hxy hyx => absurd hyx hxy.asymm) h.sorted h'.sorted

def madeBy (m : TimerMgr) (made : Nat → List Call) (x : Nat) : List Call :=
  if (m.timer x).cb.isSome then made x else []

/-- The callbacks that are called if each timer of the batch is asked, when its turn comes, whether
it is running and due. -/
def rightful (m : TimerMgr) (current : Int) (made : Nat → List Call) (batch : List Nat) :
    List Fired :=
  (Alarms.ring current (fun x => (m.madeBy made x).map Call.alarm) m.alarms batch).filterMap
    m.callback

/-- The last call that the callbacks of the timers in front make for a timer, if there is one,
starts it with a time that has come. -/
def Undisturbed (m : TimerMgr) (current : Int) (made : Nat → List Call) (batch : List Nat) : Prop :=
  ∀ a x b,batch=a++x::b → (m.timer x).cb.isSome →
    ∀ c,((a.flatMap (m.madeBy made)).filter fun c => c.timer=x).getLast?=some c →
      ∃ now duration,c = .start x now duration ∧ now+duration ≤ current

theorem mgrNext_spec (hr : capacity < rounds) (h : Reaches capacity rounds m log) (current : Int) :
    (m.mgrNext rounds current=some infiniteTime ∧
        ∀ x,m.pool.index x=some x → (m.timer x).running=false) ∨
      ∃ x,(m.timer x).running=true ∧
        m.mgrNext rounds current=some (max (m.timeouts x-current) noWaitTime) ∧
          ∀ y,m.pool.index y=some y → (m.timer y).running=true →
            m.timeouts x ≤ m.timeouts y := by
  obtain ⟨known,l,hh⟩ := h.holds hr
  obtain ⟨q,live,hsplit,hlive,hknown⟩ := hh.pool
  have hlen:=hh.length_le
  have hfirst:=rbFirst_spec hh.shaped (by omega : l.length < rounds)
  have hrunning : ∀ y,m.pool.index y=some y → ((m.timer y).running=true ↔ y∈l) := by
    intro y hy
    refine hh.running y (hknown y ?_)
    by_contra hyl
    rw [hsplit.index_free y hyl] at hy
    cases hy
  cases l with
  | nil =>
    refine .inl ⟨?_,fun x hx => ?_⟩
    · rw [mgrNext,hfirst]
      rfl
    · rw [← Bool.not_eq_true,hrunning x hx]
      exact not_mem_nil
  | cons x l =>
    have hx : x∈x::l := mem_cons_self
    refine .inr ⟨x,(hh.running x (hknown x (hlive hx))).mpr hx,?_,fun y hy hrun => ?_⟩
    · have htime : m.timeouts x=(m.timer x).timeout := rfl
      rw [mgrNext,hfirst,List.head?_cons,Option.map_some,htime,noWaitTime]
      simp only
      split <;> congr 1 <;> omega
    · rcases mem_cons.mp ((hrunning y hy).mp hrun) with rfl | hyl
      · exact le_refl _
      · exact ((pairwise_cons.mp hh.sorted).1 y hyl).le

theorem Call.alarm_alarm (c : Call) : c.alarm.alarm=c.timer := by cases c <;> rfl

theorem due_calls_iff {cs : List Call} (hx : Alarms.Due m.alarms current x) :
    Alarms.Due (Alarms.calls m.alarms (cs.map Call.alarm)) current x ↔
      ∀ c,(cs.filter fun c => c.timer=x).getLast?=some c →
        ∃ now duration,c = .start x now duration ∧ now+duration ≤ current := by
  have hfilter : ((cs.map Call.alarm).filter fun c => c.alarm=x).getLast? =
      (cs.filter fun c => c.timer=x).getLast?.map Call.alarm := by
    rw [List.filter_map,List.getLast?_map]
    simp only [Function.comp_def,Call.alarm_alarm]
  rw [Alarms.Due,Alarms.calls_apply,hfilter]
  cases hlast : (cs.filter fun c => c.timer=x).getLast? with
  | none =>
    refine iff_of_true hx fun c hc => ?_
    cases hc
  | some c =>
    have hmem:=List.mem_of_getLast? hlast
    have hc : c.timer=x := of_decide_eq_true (mem_filter.mp hmem).2
    cases c with
    | start y now duration =>
      cases hc
      constructor
      · rintro ⟨t,ht,hle⟩ c hc
        cases ht
        cases hc
        exact ⟨now,duration,rfl,hle⟩
      · intro h
        obtain ⟨now',duration',he,hle⟩ := h _ rfl
        cases he
        exact ⟨now+duration,rfl,hle⟩
    | stop y =>
      refine iff_of_false (fun ⟨t,ht,_⟩ => nomatch ht) fun h => ?_
      obtain ⟨now,duration,he,-⟩ := h _ rfl
      cases he
    | delete y =>
      refine iff_of_false (fun ⟨t,ht,_⟩ => nomatch ht) fun h => ?_
      obtain ⟨now,duration,he,-⟩ := h _ rfl
      cases he

theorem filterMap_callback_eq {b b' : List Nat} :
    b.filterMap m.callback=b'.filterMap m.callback ↔
      (b.filter fun x => (m.timer x).cb.isSome)=b'.filter fun x => (m.timer x).cb.isSome := by
  constructor
  · have htimer : ∀ b : List Nat, (b.filterMap m.callback).map Fired.timer =
        b.filter fun x => (m.timer x).cb.isSome := by
      intro b
      rw [map_filterMap,← filterMap_eq_filter]
      congr 1
      funext x
      cases hcb : (m.timer x).cb <;> simp [callback,hcb,Option.guard]
    intro h
    rw [← htimer b,← htimer b',h]
  · have hheard : ∀ b : List Nat, (b.filter fun x => (m.timer x).cb.isSome).filterMap m.callback =
        b.filterMap m.callback := by
      intro b
      rw [filterMap_filter]
      congr 1
      funext x
      cases hcb : (m.timer x).cb <;> simp [callback,hcb]
    intro h
    rw [← hheard b,← hheard b',h]

theorem rightful_iff {batch : List Nat} (h : m.Batch log current batch) :
    batch.filterMap m.callback=m.rightful current made batch ↔
      m.Undisturbed current made batch := by
  have hquiet : ∀ x,¬ (m.timer x).cb.isSome →
      (m.madeBy made x).map Call.alarm=[] := by
    intro x hx
    rw [madeBy,if_neg hx]
    rfl
  rw [rightful,filterMap_callback_eq,eq_comm,Alarms.ring_all_iff hquiet h.nodup]
  refine forall₄_congr fun a x b he => forall_congr' fun _ => ?_
  have hx : Alarms.Due m.alarms current x :=
    ((h.mem x).mp (he ▸ mem_append_right a mem_cons_self)).2
  rw [← due_calls_iff hx,map_flatMap]

/-- An expiry calls the callbacks of the timers that are running and due when it is called, each
once and in their order, if the calls that the callbacks make are possible. -/
theorem expire_batch (hr : capacity < rounds) (h : Reaches capacity rounds m log) (current : Int)
    (made : Nat → List Call) :
    ∃ batch,m.Batch log current batch ∧
      ((∃ fault,m.expire rounds current made = .error fault ∧ fault ≠ .stuck) ∨
        ∃ m',m.expire rounds current made = .ok (m',batch.filterMap m.callback)) := by
  obtain ⟨known,l,hh⟩ := h.holds hr
  obtain ⟨batch,hsorted,hmem,hgo⟩ := expire_spec hr hh current made
  refine ⟨batch,⟨hsorted,fun x => (hmem x).trans ?_⟩,?_⟩
  · obtain ⟨q,live,hsplit,hlive,hknown⟩ := hh.pool
    constructor
    · rintro ⟨hx,hle⟩
      have hrun:=(hh.running x (hknown x (hlive hx))).mpr hx
      exact ⟨hsplit.index_live x (hlive hx),m.timeouts x,if_pos hrun,hle⟩
    · rintro ⟨hindex,t,ht,hle⟩
      have hlx : x∈live := by
        by_contra hx
        rw [hsplit.index_free x hx] at hindex
        cases hindex
      rw [alarms] at ht
      split at ht
      · rename_i hrun
        cases ht
        exact ⟨(hh.running x (hknown x hlx)).mp hrun,hle⟩
      · cases ht
  · rcases hgo with hfail | ⟨m',l',hgo,-⟩
    · exact .inl hfail
    · exact .inr ⟨m',hgo⟩

theorem two_started : ∃ m,Reaches 2 3 m [1,0] ∧ m.Batch [1,0] 10 [0,1] ∧
    (m.timer 1).cb=some 2 ∧ m.madeBy (fun x => if x=0 then [.stop 1] else []) 0=[.stop 1] ∧
      (∃ r,m.expire 3 10 (fun _ => []) = .ok r) ∧
        ∃ r,m.expire 3 10 (fun x => if x=0 then [.stop 1] else []) = .ok r := by
  have h₁:=Reaches.add (some 1) 0 (@Reaches.create 2 3 (fun _ => ⟨none,none,none,.black⟩)
    ⟨fun _ => none,fun _ => none⟩ fun _ => ⟨none,0,false,0⟩)
  have h₂:=Reaches.add (some 2) 0 h₁
  have h₃:=@Reaches.call _ _ _ _ _ (.start 0 0 5) h₂ rfl
  have h₄:=@Reaches.call _ _ _ _ _ (.start 1 0 5) h₃ rfl
  refine ⟨_,h₄,⟨List.pairwise_pair.mpr (.inr ⟨rfl,by decide⟩),?_⟩,rfl,rfl,⟨_,rfl⟩,
    _,rfl⟩
  intro x
  rcases x with - | - | x
  · exact iff_of_true (by decide) ⟨rfl,5,rfl,by decide⟩
  · exact iff_of_true (by decide) ⟨rfl,5,rfl,by decide⟩
  · exact iff_of_false (by simp) fun h => nomatch h.1

end TimerMgr
end OgsDp.Core
