import OgsDp.Sbi.Xact

/-!
# Whom the transactions belong to (lib/sbi/context.c)

While no context is removed with transactions in its list, the transactions in use and the lists
of the contexts in use stay two views of one thing.
-/

namespace OgsDp.Sbi.State
open List Option

open OgsDp.Core Lib LinkedList Function

def Pooled (s : State) : Prop := ∀ k,(s.pool k).Holds fun i => s.Live (k,i)

section Contexts

variable {s : State} {k : ContextKind} {o : Owner} {os : List Owner}

theorem pooled_init (xacts : Nat) (contexts : ContextKind → Nat) :
    (init xacts contexts).Pooled := by
  intro k
  apply Pool.Holds.init
  intro i hi
  cases hi

theorem Pooled.of_holds {U : ContextKind → Nat → Prop} (h : ∀ k,(s.pool k).Holds (U k)) :
    s.Pooled ∧ ∀ o,s.Live o ↔ U o.1 o.2 := by
  constructor
  · intro k
    exact (h k).congr fun i => (h k).index_iff
  · intro o
    exact (h o.1).index_iff

theorem Pooled.contextCalloc (h : s.Pooled) (k : ContextKind) :
    s.contextCalloc k=(s,none) ∨
      ∃ i id p,s.contextCalloc k=({ s with
          pool := update s.pool k p
          object := update s.object (k,i) ⟨id,Head.empty⟩ },some i) ∧
        ¬ s.Live (k,i) ∧ (s.contextCalloc k).1.Pooled ∧
        ∀ o,(s.contextCalloc k).1.Live o ↔ s.Live o ∨ o=(k,i) := by
  unfold State.contextCalloc
  obtain ⟨p,r,hp⟩ : ∃ p r,(s.pool k).idCalloc=(p,r) := ⟨_,_,rfl⟩
  simp only [hp]
  cases r with
  | none =>
    rw [(h k).idCalloc_none hp]
    exact .inl (by simp only [update_eq_self])
  | some r =>
    obtain ⟨i,id⟩ := r
    obtain ⟨hfree,hholds,-⟩ := (h k).idCalloc hp
    have hall : ∀ k',(update s.pool k p k').Holds
        fun j => s.Live (k',j) ∨ (k',j)=(k,i) := by
      intro k'
      by_cases hk : k'=k
      · subst hk
        rw [update_self]
        exact hholds.congr fun j => by simp
      · rw [update_of_ne hk]
        exact (h k').congr fun j => by simp [hk]
    obtain ⟨hpooled,hlive⟩ := Pooled.of_holds (s := { s with
      pool := update s.pool k p
      object := update s.object (k,i) ⟨id,Head.empty⟩ }) hall
    exact .inr ⟨i,id,p,rfl,hfree,hpooled,hlive⟩

theorem Pooled.contextFree (h : s.Pooled) (ho : s.Live o) :
    (s.contextFree o).Pooled ∧ ∀ o',(s.contextFree o).Live o' ↔ s.Live o' ∧ o'≠o := by
  apply Pooled.of_holds (U := fun k i => s.Live (k,i) ∧ (k,i)≠o)
  intro k
  show (update s.pool o.1 _ k).Holds _
  by_cases hk : k=o.1
  · subst hk
    rw [update_self]
    refine ((h o.1).idFree ho _).congr ?_
    intro i
    exact and_congr_right fun _ => not_congr ⟨fun he => congrArg Prod.snd he,fun he => he ▸ rfl⟩
  · rw [update_of_ne hk]
    refine (h k).congr ?_
    intro i
    exact and_iff_left fun he => hk (congrArg Prod.fst he)

theorem Pooled.foldl_contextFree (h : s.Pooled) (hos : os.Nodup) (hlive : ∀ o∈os,s.Live o) :
    (os.foldl State.contextFree s).Pooled ∧
      ∀ o,(os.foldl State.contextFree s).Live o ↔ s.Live o ∧ o∉os := by
  induction os generalizing s with
  | nil => exact ⟨h,fun o => by simp⟩
  | cons o os ih =>
    obtain ⟨hfresh,hos⟩ := nodup_cons.mp hos
    obtain ⟨ho,hlive⟩ := forall_mem_cons.mp hlive
    obtain ⟨hpooled,hfree⟩ := h.contextFree ho
    have hlive' : ∀ o'∈os,(s.contextFree o).Live o' := by
      intro o' ho'
      exact (hfree o').mpr ⟨hlive o' ho',fun he => hfresh (he ▸ ho')⟩
    obtain ⟨hpooled',hfree'⟩ := ih hpooled hos hlive'
    refine ⟨hpooled',fun o' => ?_⟩
    rw [foldl_cons,hfree',hfree,mem_cons,not_or,and_assoc]

theorem foldl_contextFree (s : State) (os : List Owner) :
    os.foldl contextFree s = { s with pool := (os.foldl contextFree s).pool } := by
  induction os generalizing s with
  | nil => rfl
  | cons o os ih =>
    rw [foldl_cons,ih]
    rfl

end Contexts

def xacts (s : State) (list : Owner → List Nat) : Store Xact Owner := ⟨s.xactPool,s.xact,list⟩

/-- The lists hold the transactions in use, each in the list of its owner, which is in use, has
the id that the transaction keeps, and links the list. -/
structure Inv (s : State) (list : Owner → List Nat) : Prop where
  pooled : s.Pooled
  stored : (s.xacts list).Lists
  chained : ∀ o,s.Live o → Chained s.links (s.object o).xactList (list o)
  owner : ∀ o,∀ r∈list o,s.Live o ∧ (s.xact r).sbiObjectId=(s.object o).id

theorem inv_init (xacts : Nat) (contexts : ContextKind → Nat) :
    (init xacts contexts).Inv fun _ => [] where
  pooled := pooled_init xacts contexts
  stored := Store.lists_init xacts _
  chained := fun _ _ => chained_empty _
  owner := fun _ _ hr => by cases hr

namespace Inv

variable {s t : State} {list list' : Owner → List Nat} {o o' : Owner} {r : Nat}

theorem home_eq (h : s.Inv list) (hr : r∈list o) : (s.xact r).sbiObject=o :=
  h.stored.listed o r hr

theorem live_of_mem (h : s.Inv list) (hr : r∈list o) : s.LiveXact r :=
  h.stored.live_of_mem hr

theorem mem_of_live (h : s.Inv list) (hr : s.LiveXact r) : r∈list (s.xact r).sbiObject :=
  h.stored.mem_of_live hr

theorem apart (h : s.Inv list) (hr : r∈list o) (hr' : r∈list o') : o=o' :=
  (h.home_eq hr).symm.trans (h.home_eq hr')

theorem list_eq_nil (h : s.Inv list) (ho : ¬ s.Live o) : list o=[] := by
  apply List.eq_nil_iff_forall_not_mem.mpr
  intro r hr
  exact ho (h.owner o r hr).1

theorem list_eq_nil_iff (h : s.Inv list) (ho : s.Live o) :
    list o=[] ↔ (s.object o).xactList.next=none := by
  rw [(h.chained o ho).first,List.head?_eq_none_iff]

theorem contextCalloc (h : s.Inv list) (k : ContextKind) : (s.contextCalloc k).1.Inv list := by
  rcases h.pooled.contextCalloc k with heq | ⟨i,id,p,heq,hfree,hpooled,hlive⟩
  · rw [heq]
    exact h
  · rw [heq] at hpooled hlive ⊢
    refine ⟨hpooled,h.stored,?_,?_⟩
    · intro o ho
      dsimp only
      by_cases hk : o=(k,i)
      · rw [hk,h.list_eq_nil hfree,update_self]
        exact chained_empty _
      · rw [update_of_ne hk]
        exact h.chained o (((hlive o).mp ho).resolve_right hk)
    · intro o r hr
      obtain ⟨ho,hid⟩ := h.owner o r hr
      have hk : o≠(k,i) := by
        rintro rfl
        exact hfree ho
      dsimp only
      rw [update_of_ne hk]
      exact ⟨(hlive o).mpr (.inl ho),hid⟩

theorem contextFree (h : s.Inv list) (ho : s.Live o) (hempty : list o=[]) :
    (s.contextFree o).Inv list := by
  obtain ⟨hpooled,hlive⟩ := h.pooled.contextFree ho
  refine ⟨hpooled,h.stored,fun o' ho' => h.chained o' ((hlive o').mp ho').1,?_⟩
  intro o' r hr
  obtain ⟨ho',hid⟩ := h.owner o' r hr
  refine ⟨(hlive o').mpr ⟨ho',?_⟩,hid⟩
  rintro rfl
  rw [hempty] at hr
  cases hr

theorem foldl_contextFree {os : List Owner} (h : s.Inv list) (hos : os.Nodup)
    (hlive : ∀ o∈os,s.Live o) (hempty : ∀ o∈os,list o=[]) :
    (os.foldl State.contextFree s).Inv list := by
  induction os generalizing s with
  | nil => exact h
  | cons o os ih =>
    obtain ⟨hfresh,hos⟩ := nodup_cons.mp hos
    obtain ⟨ho,hlive⟩ := forall_mem_cons.mp hlive
    obtain ⟨he,hempty⟩ := forall_mem_cons.mp hempty
    obtain ⟨-,hfree⟩ := h.pooled.contextFree ho
    apply ih (h.contextFree ho he) hos _ hempty
    intro o' ho'
    exact (hfree o').mpr ⟨hlive o' ho',fun heq => hfresh (heq ▸ ho')⟩

theorem amfUeAdd (h : s.Inv list) (timers : Bool) : (s.amfUeAdd timers).1.Inv list := by
  have hcalloc:=h.contextCalloc .amfUe
  unfold State.amfUeAdd
  rcases h.pooled.contextCalloc .amfUe with heq | ⟨i,id,p,heq,hfree,-,hlive⟩
  · rw [heq]
    exact h
  · rw [heq] at hcalloc hlive ⊢
    cases timers with
    | true => exact hcalloc
    | false => exact hcalloc.contextFree ((hlive _).mpr (.inr rfl)) (h.list_eq_nil hfree)

theorem setXactList_chained {l : Links Nat × Head Nat} {nodes : List Nat}
    (h : ∀ k,s.Live k → Chained s.links (s.object k).xactList (list k))
    (ho : Chained l.1 l.2 nodes)
    (hothers : ∀ k ≠ o,∀ n∈list k,l.1.prev n=s.links.prev n ∧ l.1.next n=s.links.next n)
    (k : Owner) (hk : s.Live k) :
    Chained (s.setXactList o l).links ((s.setXactList o l).object k).xactList
      (update list o nodes k) := by
  show Chained l.1 (update s.object o _ k).xactList _
  by_cases hko : k=o
  · rw [hko,update_self,update_self]
    exact ho
  · rw [update_of_ne hko,update_of_ne hko]
    exact (h k hk).congr (fun n hn => (hothers k hko n hn).1)
      fun n hn => (hothers k hko n hn).2

theorem setXactList_id (s : State) (o : Owner) (l : Links Nat × Head Nat) (k : Owner) :
    ((s.setXactList o l).object k).id=(s.object k).id := by
  show (update s.object o _ k).id=_
  by_cases hk : k=o
  · rw [hk,update_self]
  · rw [update_of_ne hk]

theorem xactRemove_links (h : s.Inv list) (hr : r∈list o) {k : Owner} (hk : k≠o) {n : Nat}
    (hn : n∈list k) :
    (LinkedList.remove s.links (s.object o).xactList r).1.prev n=s.links.prev n ∧
      (LinkedList.remove s.links (s.object o).xactList r).1.next n=s.links.next n := by
  have hchained:=h.chained o (h.owner o r hr).1
  exact hchained.remove_others hr fun hn' => hk (h.apart hn hn')

theorem xactRemove (h : s.Inv list) (hr : r∈list o) :
    (s.xactRemove r).Inv (update list o ((list o).erase r)) := by
  have hhome:=h.home_eq hr
  have hstored:=h.stored.remove hr
  obtain ⟨ho,-⟩ := h.owner o r hr
  have hmem : ∀ k n,n∈update list o ((list o).erase r) k → n∈list k := by
    intro k n hn
    by_cases hk : k=o
    · rw [hk,update_self] at hn
      exact hk ▸ mem_of_mem_erase hn
    · rwa [update_of_ne hk] at hn
  refine ⟨h.pooled,?_,?_,?_⟩
  · rw [Store.remove,show home ((s.xacts list).obj r)=o from hhome] at hstored
    exact hstored
  · have hchained:=setXactList_chained h.chained ((h.chained o ho).remove hr)
      fun k hk n hn => h.xactRemove_links hr hk hn
    rw [← hhome] at hchained ⊢
    exact hchained
  · intro k n hn
    obtain ⟨hk,hid⟩ := h.owner k n (hmem k n hn)
    exact ⟨hk,hid.trans (setXactList_id _ _ _ k).symm⟩

theorem length_le (h : s.Inv list) (o : Owner) : (list o).length ≤ s.xactPool.size := by
  obtain ⟨q,live,hs,hl⟩ := h.stored.split
  have hsub : list o ⊆ live := fun r hr => (hl r).mpr ⟨o,hr⟩
  have hlen : (list o).length≤live.length :=
    (subperm_of_subset (h.stored.nodup o) hsub).length_le
  have hsize : q.length+live.length=s.xactPool.size := hs.length_add
  omega

theorem xactRemoveFrom (h : s.Inv list) (ho : s.Live o) {fuel : Nat}
    (hfuel : (list o).length≤fuel) :
    ∃ t,State.xactRemoveFrom fuel s (s.object o).xactList.next=some t ∧
      t.Inv (update list o []) := by
  obtain ⟨nodes,hnodes⟩ : ∃ nodes,list o=nodes := ⟨_,rfl⟩
  have hchained:=h.chained o ho
  rw [hnodes] at hchained
  induction nodes generalizing s list fuel with
  | nil =>
    rw [hchained.first]
    refine ⟨s,by cases fuel <;> rfl,?_⟩
    rwa [← hnodes,update_eq_self]
  | cons r nodes ih =>
    cases fuel with
    | zero =>
      rw [hnodes] at hfuel
      cases hfuel
    | succ fuel =>
      have hr : r∈list o := hnodes ▸ mem_cons_self ..
      have hgone:=h.xactRemove hr
      have hhome:=h.home_eq hr
      have hrest : update list o ((list o).erase r) o=nodes := by
        rw [update_self,hnodes,erase_cons_head]
      have hlen : (update list o ((list o).erase r) o).length≤fuel := by
        rw [hnodes] at hfuel
        rw [hrest]
        simpa using hfuel
      have hchained':=hgone.chained o ho
      rw [hrest] at hchained'
      have hnext : s.links.next r=((s.xactRemove r).object o).xactList.next := by
        rw [hchained.next_first,State.xactRemove,hhome]
        show _=(update s.object o _ o).xactList.next
        rw [update_self]
      obtain ⟨t,ht,hinv⟩ := ih hgone ho hlen hrest hchained'
      rw [update_idem] at hinv
      refine ⟨t,?_,hinv⟩
      rw [hchained.first,← ht,← hnext]
      rfl

theorem xactRemoveAll (h : s.Inv list) (ho : s.Live o) :
    ∃ t,s.xactRemoveAll o=some t ∧ t.Inv (update list o []) :=
  h.xactRemoveFrom ho (h.length_le o)

section New

variable {p : Pool} {x : Xact} {n : Nat}

theorem xactCalloc_old (hnew : ∀ k,r∉list k) (hn : n∈list o) :
    (s.xactCalloc p r x).links.prev n=s.links.prev n ∧
      (s.xactCalloc p r x).links.next n=s.links.next n ∧
      (s.xactCalloc p r x).xact n=s.xact n := by
  have hne : n≠r := fun he => hnew o (he ▸ hn)
  exact ⟨update_of_ne hne ..,update_of_ne hne ..,update_of_ne hne ..⟩

theorem xactCalloc_chained (h : s.Inv list) (hnew : ∀ k,r∉list k) (ho : s.Live o) :
    Chained (s.xactCalloc p r x).links (s.object o).xactList (list o) :=
  (h.chained o ho).congr (fun _ hn => (xactCalloc_old hnew hn).1)
    fun _ hn => (xactCalloc_old hnew hn).2.1

theorem xactCalloc_owner (h : s.Inv list) (hnew : ∀ k,r∉list k) (hn : n∈list o) :
    s.Live o ∧ ((s.xactCalloc p r x).xact n).sbiObjectId=(s.object o).id := by
  rw [(xactCalloc_old hnew hn).2.2]
  exact h.owner o n hn

theorem giveBack (h : s.Inv list) {id : Nat} (hp : s.xactPool.idCalloc=(p,some (r,id)))
    (hid : x.id=id) : ((s.xactCalloc p r x).xactFree r).Inv list := by
  obtain ⟨hnew,-⟩ := h.stored.idCalloc hp
  refine ⟨h.pooled,?_,fun o ho => h.xactCalloc_chained hnew ho,
    fun o n hn => h.xactCalloc_owner hnew hn⟩
  have hback:=h.stored.giveBack hp hid
  rw [← hid] at hback
  simpa only [xacts,xactFree,xactCalloc,update_self] using hback

theorem linkNew (h : s.Inv list) {id : Nat} (hp : s.xactPool.idCalloc=(p,some (r,id)))
    (ho : s.Live o) (hid : x.id=id) (howner : x.sbiObject=o)
    (hobject : x.sbiObjectId=(s.object o).id) :
    ((s.xactCalloc p r x).setXactList o
      (LinkedList.add (s.xactCalloc p r x).links (s.object o).xactList r)).Inv
        (update list o (list o++[r])) := by
  obtain ⟨hnew,-,-,hadd⟩ := h.stored.idCalloc hp
  have hchained : Chained (s.xactCalloc p r x).links (s.object o).xactList (list o) :=
    h.xactCalloc_chained hnew ho
  refine ⟨h.pooled,?_,?_,?_⟩
  · have hstored:=hadd x hid
    rw [Store.add,show home x=o from howner] at hstored
    exact hstored
  · refine setXactList_chained (s := s.xactCalloc p r x)
      (fun k hk => h.xactCalloc_chained hnew hk) (hchained.add (hnew o)) ?_
    intro k hk n hn
    apply hchained.add_others
    · exact fun hn' => hk (h.apart hn hn')
    · exact fun he => hnew k (he ▸ hn)
  · intro k n hn
    rw [setXactList_id]
    by_cases hko : k=o
    · subst hko
      rw [update_self,mem_append,mem_singleton] at hn
      rcases hn with hn | rfl
      · exact h.xactCalloc_owner (p := p) hnew hn
      · refine ⟨ho,Eq.trans ?_ hobject⟩
        exact congrArg Xact.sbiObjectId (update_self ..)
    · rw [update_of_ne hko] at hn
      exact h.xactCalloc_owner (p := p) hnew hn

end New

theorem xactAdd (h : s.Inv list) (ho : s.Live o) {timer : Bool} {built : Built}
    {x : Option Nat} (hok : s.xactAdd o timer built = .ok t x) : ∃ list',t.Inv list' := by
  unfold State.xactAdd at hok
  obtain ⟨p,n,hp⟩ : ∃ p n,s.xactPool.idCalloc=(p,n) := ⟨_,_,rfl⟩
  simp only [hp] at hok
  cases n with
  | none =>
    cases hok
    obtain ⟨q,live,hs,-⟩ := h.stored.split
    have hsame : p=s.xactPool := Pool.Holds.idCalloc_none ⟨q,live,hs,fun _ => Iff.rfl⟩ hp
    rw [hsame]
    exact ⟨list,h⟩
  | some n =>
    obtain ⟨r,id⟩ := n
    cases timer with
    | false =>
      cases hok
      exact ⟨list,h.giveBack hp rfl⟩
    | true =>
      cases built with
      | request =>
        cases hok
        exact ⟨_,h.linkNew hp ho rfl rfl rfl⟩
      | nothing =>
        cases hok
        exact ⟨list,h.giveBack hp rfl⟩
      | otherService => cases hok

theorem xactFinish (h : s.Inv list) (id : Nat) : ∃ list',(s.xactFinish id).Inv list' := by
  unfold State.xactFinish
  cases hfind : s.xactPool.findById id with
  | none => exact ⟨list,h⟩
  | some r =>
    have hlive : s.LiveXact r := h.stored.live_of_found hfind
    exact ⟨_,h.xactRemove (h.mem_of_live hlive)⟩

end Inv

section Calls

variable {s t : State} {e : Event} {x : Option Nat} {list : Owner → List Nat}

theorem removed_live (h : s.Callable e) :
    e.removed.Nodup ∧ ∀ o∈e.removed,s.Live o := by
  cases e with
  | smfSessRemove i | amfSessRemove i =>
    simp only [Event.removed,forall_mem_singleton]
    exact ⟨nodup_singleton _,h⟩
  | amfUeRemove i sessions =>
    obtain ⟨hi,hnodup,hsessions⟩ := h
    have hmapped : (sessions.map ((.amfSess : ContextKind),·)).Nodup :=
      hnodup.map fun _ _ he => congrArg Prod.snd he
    simp only [Event.removed,mem_append,List.mem_map,mem_singleton]
    constructor
    · refine nodup_append.mpr ⟨hmapped,nodup_singleton _,?_⟩
      rintro o ho o' ho' rfl
      rw [mem_singleton.mp ho'] at ho
      simp at ho
    · rintro o (⟨j,hj,rfl⟩ | rfl)
      · exact hsessions j hj
      · exact hi
  | _ => exact ⟨nodup_nil,fun o ho => by cases ho⟩

theorem perform_removed (s : State) (h : e.removed≠[]) :
    s.perform e=some (.ok (e.removed.foldl contextFree s) none) := by
  cases e with
  | smfSessRemove i | amfSessRemove i => rfl
  | amfUeRemove i sessions =>
    simp only [perform,amfUeRemove,Event.removed,foldl_append,foldl_map,
      foldl_cons,foldl_nil]
    rfl
  | _ => exact absurd rfl h

theorem step_eq (hs : step s e=some (.ok t x)) :
    s.Callable e ∧ s.perform e=some (.ok t x) := by
  rwa [step,ite_none_right_eq_some] at hs

theorem Inv.perform (h : s.Inv list) (hc : s.Callable e) (hnone : e.removed=[])
    (hs : s.perform e=some (.ok t x)) : ∃ list',t.Inv list' := by
  cases e with
  | smfSessAdd =>
    cases hs
    exact ⟨list,h.contextCalloc .smfSess⟩
  | amfUeAdd timers =>
    cases hs
    exact ⟨list,h.amfUeAdd timers⟩
  | amfSessAdd =>
    have hcalloc:=h.contextCalloc .amfSess
    simp only [State.perform,amfSessAdd,some.injEq] at hs
    split at hs
    · cases hs
      rename_i heq
      rw [heq] at hcalloc
      exact ⟨list,hcalloc⟩
    · cases hs
  | xactAdd o timer built => exact h.xactAdd hc (some.inj hs)
  | xactRemove r =>
    cases hs
    exact ⟨_,h.xactRemove (h.mem_of_live hc)⟩
  | xactRemoveAll o =>
    obtain ⟨u,hu,hinv⟩ := h.xactRemoveAll hc
    simp only [State.perform,hu,map_some,some.injEq] at hs
    cases hs
    exact ⟨_,hinv⟩
  | clientWaitExpire id | response id =>
    cases hs
    exact h.xactFinish id
  | smfSessRemove i | amfSessRemove i => cases hnone
  | amfUeRemove i sessions => simp [Event.removed] at hnone

theorem Inv.step (h : s.Inv list) (hclean : s.Clean e) (hs : step s e=some (.ok t x)) :
    ∃ list',t.Inv list' := by
  obtain ⟨hc,hs⟩ := step_eq hs
  by_cases hnone : e.removed=[]
  · exact h.perform hc hnone hs
  · rw [perform_removed s hnone] at hs
    cases hs
    obtain ⟨hnodup,hlive⟩ := removed_live hc
    refine ⟨list,h.foldl_contextFree hnodup hlive ?_⟩
    intro o ho
    exact (h.list_eq_nil_iff (hlive o ho)).mpr (hclean hc o ho)

theorem Inv.not_kept_of_unclean (h : s.Inv list) (hunclean : ¬ s.Clean e)
    (hs : State.step s e=some (.ok t x)) : ¬ t.Kept := by
  obtain ⟨hc,hs⟩ := step_eq hs
  simp only [Clean,hc,forall_const,not_forall] at hunclean
  obtain ⟨o,ho,hfirst⟩ := hunclean
  rw [perform_removed s (ne_nil_of_mem ho)] at hs
  cases hs
  obtain ⟨hnodup,hlive⟩ := removed_live hc
  rw [← h.list_eq_nil_iff (hlive o ho)] at hfirst
  obtain ⟨r,hr⟩ := exists_mem_of_ne_nil _ hfirst
  obtain ⟨-,hgone⟩ := h.pooled.foldl_contextFree hnodup hlive
  intro hkept
  obtain ⟨list',hlisted⟩ := hkept.listed
  have hxact : (e.removed.foldl State.contextFree s).LiveXact r := by
    rw [State.foldl_contextFree]
    exact h.live_of_mem hr
  obtain ⟨o',ho',hadded,-⟩ := hlisted.owned r hxact
  rw [State.foldl_contextFree] at hadded
  obtain rfl : o=o' := (h.home_eq hr).symm.trans hadded
  exact ((hgone o).mp ho').2 ho

theorem Inv.addedFor_iff (h : s.Inv list) {r : Nat} {o : Owner} :
    r∈list o ↔ s.LiveXact r ∧ s.AddedFor r o := by
  constructor
  · intro hr
    exact ⟨h.live_of_mem hr,h.home_eq hr,(h.owner o r hr).2⟩
  · intro hr
    obtain ⟨hlive,rfl,-⟩ := hr
    exact h.mem_of_live hlive

theorem Inv.listed (h : s.Inv list) : s.Listed list where
  chained := h.chained
  members := fun _ _ _ => h.addedFor_iff
  owned := by
    intro r hr
    have hmem:=h.mem_of_live hr
    exact ⟨_,(h.owner _ r hmem).1,(h.addedFor_iff.mp hmem).2⟩

theorem Inv.leavesOthers (h : s.Inv list) : s.LeavesOthers := by
  intro r hr o ho hother
  have hmem:=h.mem_of_live hr
  have hne : o≠(s.xact r).sbiObject := by
    rintro rfl
    exact hother ⟨rfl,(h.owner _ r hmem).2⟩
  have hobject : (s.xactRemove r).object o=s.object o := update_of_ne hne ..
  refine ⟨hobject,?_⟩
  intro l hl
  rw [hobject]
  obtain rfl := (h.chained o ho).unique hl
  exact hl.congr (fun n hn => (h.xactRemove_links hmem hne hn).1)
    fun n hn => (h.xactRemove_links hmem hne hn).2

theorem Inv.kept (h : s.Inv list) : s.Kept := ⟨⟨list,h.listed⟩,h.leavesOthers⟩

/-- Every state of a run has the transactions in use in the lists of the contexts that they were
added for, and no removal of one touches the list of another context, if and only if the run
removes no context that has transactions in its list. -/
theorem xacts_kept_iff (xacts : Nat) (contexts : ContextKind → Nat) (es : List Event) :
    (∀ t∈completed State.step (init xacts contexts) es,t.Kept) ↔
      EachStep State.step Clean (init xacts contexts) es := by
  have hinit:=inv_init xacts contexts
  have hstep : ∀ s e t x,(s.Kept → ∃ list,s.Inv list) → s.Kept →
      State.step s e=some (.ok t x) →
      (t.Kept → ∃ list,t.Inv list) ∧ (t.Kept ↔ s.Clean e) := by
    intro s e t x hs hkept ho
    obtain ⟨list,hinv⟩ := hs hkept
    by_cases hclean : s.Clean e
    · obtain ⟨list',hinv'⟩ := hinv.step hclean ho
      exact ⟨fun _ => ⟨list',hinv'⟩,iff_of_true hinv'.kept hclean⟩
    · have hno:=hinv.not_kept_of_unclean hclean ho
      exact ⟨fun hkept' => absurd hkept' hno,iff_of_false hno hclean⟩
  refine completed_iff hstep ?_ (fun _ => ⟨_,hinit⟩) hinit.kept
  intro s e hno hc o ho
  have hdone : s.step e=some (.ok (e.removed.foldl contextFree s) none) := by
    rw [State.step,if_pos hc]
    exact perform_removed s (ne_nil_of_mem ho)
  exact absurd hdone (hno _ _)

instance (s : State) (r : Nat) (o : Owner) : Decidable (s.AddedFor r o) :=
  inferInstanceAs (Decidable (_ ∧ _))

theorem not_kept_of_empty {o : Owner} {r : Nat} (ho : s.Live o) (hr : s.LiveXact r)
    (hadded : s.AddedFor r o) (hempty : (s.object o).xactList=Head.empty) : ¬ s.Kept := by
  intro hkept
  obtain ⟨list,hlisted⟩ := hkept.listed
  have hchained:=hlisted.chained o ho
  rw [hempty] at hchained
  have hmem:=(hlisted.members o ho r).mpr ⟨hr,hadded⟩
  rw [hchained.unique (chained_empty s.links)] at hmem
  cases hmem

/-- A session is removed while it waits for a response, another gets its slot and makes a request
of its own, and then the timer of the first request expires. -/
def lateExpiry : List Event :=
  [.smfSessAdd,.xactAdd (.smfSess,0) true .request,.smfSessRemove 0,
    .smfSessAdd,.xactAdd (.smfSess,0) true .request,.clientWaitExpire 1]

/-- The expiry takes the request of the new session out of its list. -/
theorem xact_lost_from_list :
    (∃ s ∈ completed State.step (init 2 fun _ => 1) lateExpiry,
      s.LiveXact 0 ∧ ¬ s.AddedFor 0 (.smfSess,0) ∧
        (s.object (.smfSess,0)).xactList=⟨some 1,some 1⟩ ∧
        ((s.xactRemove 0).object (.smfSess,0)).xactList=Head.empty) ∧
    ∃ t ∈ completed State.step (init 2 fun _ => 1) lateExpiry,
      t.Live (.smfSess,0) ∧ t.LiveXact 1 ∧ t.AddedFor 1 (.smfSess,0) ∧
        (t.object (.smfSess,0)).xactList=Head.empty ∧ ¬ t.Kept := by
  refine ⟨by decide,?_⟩
  have hlost : ∃ t ∈ completed State.step (init 2 fun _ => 1) lateExpiry,
      t.Live (.smfSess,0) ∧ t.LiveXact 1 ∧ t.AddedFor 1 (.smfSess,0) ∧
        (t.object (.smfSess,0)).xactList=Head.empty := by
    decide
  obtain ⟨t,ht,hlive,hxact,hadded,hempty⟩ := hlost
  exact ⟨t,ht,hlive,hxact,hadded,hempty,not_kept_of_empty hlive hxact hadded hempty⟩

end Calls

end OgsDp.Sbi.State
