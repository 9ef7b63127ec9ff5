import Mathlib.Data.Set.Function
import Mathlib.Logic.Equiv.Basic
import Mathlib.Order.Interval.Set.Defs
import OgsDp.Pfcp.Rules

/-!
# The pool of TEIDs (lib/pfcp/context.c)

A PDR owns a node of `ogs_pfcp_pdr_teid_pool`, and the TEID it was given is what the node held.
-/

namespace OgsDp.Pfcp
open Lib OgsDp.Core Function List Option

/-- The F-TEID of a PDR that has one, and otherwise the TEID it was allocated with. -/
def Context.teidOf (c : Context) (p : Nat) : BitVec 32 :=
  if 0<(c.pdr p).fTeidLen then (c.pdr p).fTeid.teid else (c.pdr p).teid

def TeidsDistinct (c : Context) : Prop :=
  ∀ s s' p p',p∈c.pdrList s → p'∈c.pdrList s' → c.teidOf p=c.teidOf p' → p=p'

inductive TeidOp where
  | add (s : Nat)
  -- the F-TEID of an IE is stored in the PDR and its TEID restored
  | restore (s p : Nat) (fTeid : FTeid) (len : Nat)
  | remove (s p : Nat)

def Pdr.putFTeid (fTeid : FTeid) (len : Nat) (x : Pdr) : Pdr :=
  { x with fTeid := fTeid,fTeidLen := len }

def Context.restore (c : Context) (p : Nat) (fTeid : FTeid) (len : Nat) : Outcome Context Cause :=
  pdrSwapTeid (c.modify p (.putFTeid fTeid len)) p

/-- One call; functions that take a PDR are called while its session lists it. -/
def Context.teidStep (c : Context) : TeidOp → Option (Outcome Context Unit)
  | .add s => some ((pdrAdd c s).bind fun c _ => .ok c ())
  | .restore s p fTeid len =>
    if p∈c.pdrList s then some ((c.restore p fTeid len).bind fun c _ => .ok c ()) else none
  | .remove s p => if p∈c.pdrList s then some (.ok (pdrRemove c p) ()) else none

/-- A restored TEID is in the range of the pool, no other live PDR has it, and the inverse table
leads to the entry that holds it now, unless the PDR's own node does. -/
def RestoresHeld (c : Context) : TeidOp → Prop
  | .restore _ p fTeid _ =>
    (0<fTeid.teid.toNat ∧ fTeid.teid.toNat ≤ c.teidPool.size) ∧
      (∀ q∈List.range c.pdrPool.size,q∈c.pdrList (c.pdr q).sess → c.teidOf q=fTeid.teid →
        q=p) ∧
        (c.teidArray (c.randomToIndex fTeid.teid.toNat)=fTeid.teid ∨
          c.teidArray (c.pdr p).teidNode=fTeid.teid)
  | _ => True

instance (c : Context) : ∀ op,Decidable (RestoresHeld c op)
  | .restore _ _ _ _ => inferInstanceAs (Decidable (_ ∧ _ ∧ _))
  | .add _ => isTrue trivial
  | .remove _ _ => isTrue trivial

section Exchange

variable {β : Type} {n : Nat} {a : Nat → β}

theorem injOn_exchange (h : Set.InjOn a (Set.Iio n)) {i j : Nat} (hi : i<n) (hj : j<n) :
    Set.InjOn (update (update a i (a j)) j (a i)) (Set.Iio n) := by
  have hcomp : update (update a i (a j)) j (a i)=a ∘ Equiv.swap j i :=
    (Equiv.comp_swap_eq_update j i a).symm
  have hmaps : Set.MapsTo (Equiv.swap j i) (Set.Iio n) (Set.Iio n) := by
    intro k hk
    rcases Equiv.swap_apply_def j i k with hswap
    rw [hswap]
    split
    · exact hi
    · split
      · exact hj
      · exact hk
  rw [hcomp]
  exact h.comp (Equiv.injective _).injOn hmaps

end Exchange

theorem randomIdGenerate_injOn (size : Nat) (hsize : size<2^31) (random : Nat → Nat) :
    Set.InjOn (randomIdGenerate size random) (Set.Iio size) := by
  have hfold : ∀ (l : List Nat) (a : Nat → BitVec 32),(∀ i∈l,i<size-1) →
      Set.InjOn a (Set.Iio size) → Set.InjOn (l.foldl (fun array i' =>
        let i:=size-1-i'
        let j:=random i % (i+1)
        update (update array i (array j)) j (array i)) a) (Set.Iio size) := by
    intro l
    induction l with
    | nil => exact fun a _ h => h
    | cons k l ih =>
      intro a hl h
      have hk:=hl k (mem_cons_self ..)
      have hj : random (size-1-k) % (size-1-k+1)<size-1-k+1 :=
        Nat.mod_lt _ (by omega)
      refine ih _ (fun i hi => hl i (mem_cons_of_mem _ hi)) ?_
      exact injOn_exchange h (i := size-1-k) (by omega) (by omega)
  refine hfold _ _ (fun i hi => by simpa using hi) ?_
  intro i hi j hj hij
  have hlt : ∀ k,k<size → (BitVec.ofNat 32 (k+1)).toNat=k+1 := by
    intro k hk
    rw [BitVec.toNat_ofNat]
    exact Nat.mod_eq_of_lt (by omega)
  have hnat : (BitVec.ofNat 32 (i+1)).toNat=(BitVec.ofNat 32 (j+1)).toNat :=
    congrArg BitVec.toNat hij
  rw [hlt i hi,hlt j hj] at hnat
  omega

structure NodesHold (c : Context) : Prop where
  pdrs : c.PdrsOk
  split : ∃ q live,Pool.Split c.teidPool q live ∧
    ∀ s,∀ p∈c.pdrList s,(c.pdr p).teidNode∈live
  nodes : ∀ s s' p p',p∈c.pdrList s → p'∈c.pdrList s' →
    (c.pdr p).teidNode=(c.pdr p').teidNode → p=p'
  array : Set.InjOn c.teidArray (Set.Iio c.teidPool.size)
  holds : ∀ s,∀ p∈c.pdrList s,c.teidArray (c.pdr p).teidNode=c.teidOf p

namespace NodesHold

variable {c c' : Context} {s p : Nat}

theorem init (poolSess : Nat) (hsize : poolSess*maxNumOfPdr<2^31) (random : Nat → Nat)
    (seed : BitVec 32) : NodesHold (contextInit poolSess random seed) where
  pdrs := .init poolSess random seed
  split := ⟨_,[],Pool.split_init _,fun _ _ h => by cases h⟩
  nodes := fun _ _ _ _ h => by cases h
  array := randomIdGenerate_injOn _ hsize random
  holds := fun _ _ h => by cases h

theorem node_lt (h : NodesHold c) (hp : p∈c.pdrList s) :
    (c.pdr p).teidNode<c.teidPool.size := by
  obtain ⟨q,live,hs,hlive⟩ := h.split
  exact hs.lt_size (hlive s p hp)

theorem teidsDistinct (h : NodesHold c) : TeidsDistinct c := by
  intro s s' p p' hp hp' he
  refine h.nodes s s' p p' hp hp' (h.array (h.node_lt hp) (h.node_lt hp') ?_)
  rw [h.holds s p hp,h.holds s' p' hp',he]

theorem add (h : NodesHold c) (s : Nat) :
    (pdrAdd c s).Returns fun c' _ => NodesHold c' := by
  refine (pdrAdd_returns h.pdrs s).mono ?_
  intro c' r hadd
  obtain ⟨hok,hadd⟩ := hadd
  obtain ⟨q,live,hs,hlive⟩ := h.split
  have hdraw : ∀ {teidPool k},c.teidPool.alloc=(teidPool,some k) →
      k∉live ∧ teidPool.size=c.teidPool.size ∧
        ∃ q',Pool.Split teidPool q' (live++[k]) := by
    intro teidPool k hk
    cases q with
    | nil =>
      rw [Pool.alloc_of_nil hs.queue] at hk
      cases hk
    | cons n q =>
      obtain ⟨pool,halloc,hs',hsize,-,-⟩ := hs.alloc
      rw [halloc] at hk
      simp only [Prod.mk.injEq,some.injEq] at hk
      obtain ⟨rfl,rfl⟩ := hk
      exact ⟨hs.not_live_of_free (mem_cons_self ..),hsize,q,hs'⟩
  cases hadd with
  | full => exact h
  | @noId p k pool teidPool hp hk =>
    obtain ⟨hfresh,hsize,q',hs'⟩ := hdraw hk
    have hne : ∀ s,∀ p'∈c.pdrList s,p'≠p := fun s p' hp' he => hp ⟨s,he ▸ hp'⟩
    have hpdr : ∀ s,∀ p' ∈ c.pdrList s,
        update c.pdr p (blankPdr c k) p'=c.pdr p' :=
      fun s p' hp' => update_of_ne (hne s p' hp') _ _
    refine ⟨hok,⟨q',live++[k],hs',?_⟩,?_,hsize ▸ h.array,?_⟩
    · intro s' p' hp'
      simp only [hpdr s' p' hp']
      exact mem_append_left _ (hlive s' p' hp')
    · intro s1 s2 p1 p2 h1 h2 he
      simp only [hpdr s1 p1 h1,hpdr s2 p2 h2] at he
      exact h.nodes s1 s2 p1 p2 h1 h2 he
    · intro s' p' hp'
      simp only [Context.teidOf,hpdr s' p' hp']
      exact h.holds s' p' hp'
  | @added p k i pool teidPool idPool hp hk =>
    obtain ⟨hfresh,hsize,q',hs'⟩ := hdraw hk
    have hne : ∀ s,∀ p'∈c.pdrList s,p'≠p := fun s p' hp' he => hp ⟨s,he ▸ hp'⟩
    refine ⟨hok,⟨q',live++[k],hs',?_⟩,?_,hsize ▸ h.array,?_⟩
    · intro s' p' hp'
      rcases mem_update_append.mp hp' with hp' | ⟨-,rfl⟩
      · simp only [update_of_ne (hne s' p' hp')]
        exact mem_append_left _ (hlive s' p' hp')
      · simp [blankPdr]
    · intro s1 s2 p1 p2 h1 h2 he
      rcases mem_update_append.mp h1 with hp1 | ⟨-,rfl⟩
      · rcases mem_update_append.mp h2 with hp2 | ⟨-,rfl⟩
        · simp only [update_of_ne (hne s1 p1 hp1),
            update_of_ne (hne s2 p2 hp2)] at he
          exact h.nodes s1 s2 p1 p2 hp1 hp2 he
        · simp only [update_of_ne (hne s1 p1 hp1),update_self,blankPdr] at he
          exact absurd (he ▸ hlive s1 p1 hp1) hfresh
      · rcases mem_update_append.mp h2 with hp2 | ⟨-,rfl⟩
        · simp only [update_of_ne (hne s2 p2 hp2),update_self,blankPdr] at he
          exact absurd (he ▸ hlive s2 p2 hp2) hfresh
        · rfl
    · intro s' p' hp'
      rcases mem_update_append.mp hp' with hp' | ⟨-,rfl⟩
      · simp only [Context.teidOf,update_of_ne (hne s' p' hp')]
        exact h.holds s' p' hp'
      · simp [Context.teidOf,blankPdr,Pdr.zero]

theorem remove (h : NodesHold c) (hp : p∈c.pdrList s) : NodesHold (pdrRemove c p) := by
  obtain ⟨hok,hpdr,hmem⟩ := pdrRemove_pdrsOk h.pdrs hp
  obtain ⟨q,live,hs,hlive⟩ := h.split
  have hpool : (pdrRemove c p).teidPool=c.teidPool.release (c.pdr p).teidNode ∧
      (pdrRemove c p).teidArray=c.teidArray := by
    simp only [pdrRemove]
    split <;> exact ⟨rfl,rfl⟩
  obtain ⟨hpool,harray⟩ := hpool
  refine ⟨hok,⟨_,_,hpool ▸ hs.release (hlive s p hp),?_⟩,?_,?_,?_⟩
  · intro s' p' hp'
    obtain ⟨hp',hne⟩ := (hmem s' p').mp hp'
    rw [hpdr]
    refine (mem_erase_of_ne ?_).mpr (hlive s' p' hp')
    exact fun he => hne (h.nodes s' s p' p hp' hp he)
  · intro s1 s2 p1 p2 h1 h2 he
    rw [hpdr] at he
    exact h.nodes s1 s2 p1 p2 ((hmem s1 p1).mp h1).1 ((hmem s2 p2).mp h2).1 he
  · rw [hpool,harray,Pool.release_size]
    exact h.array
  · intro s' p' hp'
    rw [harray,Context.teidOf,hpdr]
    exact h.holds s' p' ((hmem s' p').mp hp').1

theorem restore (h : NodesHold c) (hp : p∈c.pdrList s) {fTeid : FTeid} {len : Nat}
    (hheld : RestoresHeld c (.restore s p fTeid len)) :
    (c.restore p fTeid len).Returns fun c' _ => NodesHold c' := by
  obtain ⟨hrange,hother,hwhere⟩ := hheld
  obtain ⟨free,live,hs,hlive⟩ := h.split
  obtain ⟨pfree,plive,hps,hplive⟩ := h.pdrs.split
  have hok : (c.modify p (.putFTeid fTeid len)).PdrsOk :=
    h.pdrs.congr (Context.samePdrs_modify c p fun _ => rfl)
  have hnode : ∀ q,((c.modify p (.putFTeid fTeid len)).pdr q).teidNode=(c.pdr q).teidNode :=
    Context.modify_pdr_frame c p (.putFTeid fTeid len) Pdr.teidNode fun _ => rfl
  have hself : (c.modify p (.putFTeid fTeid len)).pdr p=(c.pdr p).putFTeid fTeid len :=
    update_self ..
  have hrest : ∀ q,q≠p →
      (c.modify p (.putFTeid fTeid len)).teidOf q=c.teidOf q := by
    intro q hq
    simp only [Context.teidOf,Context.modify,update_of_ne hq]
  have hfree : ∀ s' q,q∈c.pdrList s' → q≠p → c.teidOf q≠fTeid.teid := by
    intro s' q hq hne he
    refine hne (hother q (mem_range.mpr (hps.lt_size (hplive s' q hq))) ?_ he)
    rw [h.pdrs.sess s' q hq]
    exact hq
  -- the array `a` may have changed where no other PDR has its node
  have hdone : ∀ a : Nat → BitVec 32, 0<len → Set.InjOn a (Set.Iio c.teidPool.size) →
      a (c.pdr p).teidNode=fTeid.teid →
      (∀ s',∀ q∈c.pdrList s',q≠p → a (c.pdr q).teidNode=c.teidArray (c.pdr q).teidNode) →
      NodesHold { c.modify p (.putFTeid fTeid len) with teidArray := a } := by
    intro a hlen ha hp' hkeep
    refine ⟨⟨hok.split,hok.nodup,hok.sess⟩,⟨free,live,hs,?_⟩,?_,ha,?_⟩
    · intro s' q hq
      simp only [hnode]
      exact hlive s' q hq
    · intro s1 s2 p1 p2 h1 h2 he
      simp only [hnode] at he
      exact h.nodes s1 s2 p1 p2 h1 h2 he
    · intro s' q hq
      simp only [hnode]
      by_cases he : q=p
      · subst he
        simp only [Context.teidOf,hself,Pdr.putFTeid,hlen,if_true]
        exact hp'
      · rw [hkeep s' q hq he,h.holds s' q hq,← hrest q he]
        rfl
  simp only [Context.restore,pdrSwapTeid,hself,Pdr.putFTeid,Context.modify_teidPool,
    Context.modify_teidArray,Context.modify_randomToIndex]
  split
  · rename_i hlen
    split
    · rename_i hi
      split
      · rename_i hat
        refine hdone _ hlen.1 ?_ (by simp) ?_
        · have hex:=injOn_exchange h.array hi (h.node_lt hp)
          rwa [← hat] at hex
        · intro s' q hq hne
          have hqp : (c.pdr q).teidNode≠(c.pdr p).teidNode :=
            fun he => hne (h.nodes s' s q p hq hp he)
          have hqi : (c.pdr q).teidNode≠c.randomToIndex fTeid.teid.toNat := by
            intro he
            refine hfree s' q hq hne ?_
            rw [← h.holds s' q hq,he]
            exact hat.symm
          exact (update_of_ne hqp _ _).trans (update_of_ne hqi _ _)
      · rename_i hat
        rcases hwhere with hwhere | hwhere
        · exact absurd hwhere.symm hat
        · exact hdone _ hlen.1 h.array hwhere fun _ _ _ _ => rfl
    · trivial
  · trivial

theorem step (h : NodesHold c) {op : TeidOp} (hc : RestoresHeld c op) {o : Outcome Context Unit}
    (ho : c.teidStep op=some o) : o.Returns fun c' _ => NodesHold c' := by
  cases op with
  | add s =>
    simp only [Context.teidStep,some.injEq] at ho
    exact ho ▸ (h.add s).bind fun c' _ h' => h'
  | restore s p fTeid len =>
    simp only [Context.teidStep,ite_none_right_eq_some,some.injEq] at ho
    exact ho.2 ▸ (h.restore ho.1 hc).bind fun c' _ h' => h'
  | remove s p =>
    simp only [Context.teidStep,ite_none_right_eq_some,some.injEq] at ho
    exact ho.2 ▸ h.remove ho.1

end NodesHold

/-- While every restored TEID is found where the inverse table says, the TEIDs of the live PDRs
are distinct after every call. -/
theorem teids_distinct_run (poolSess : Nat) (hsize : poolSess*maxNumOfPdr<2^31)
    (random : Nat → Nat) (seed : BitVec 32) (ops : List TeidOp)
    (hops : EachStep Context.teidStep RestoresHeld (contextInit poolSess random seed) ops) :
    ∀ c∈completed Context.teidStep (contextInit poolSess random seed) ops,TeidsDistinct c := by
  have hstep : ∀ c op c' r,NodesHold c → RestoresHeld c op →
      c.teidStep op=some (.ok c' r) → NodesHold c' := by
    intro c op c' r h hc ho
    exact h.step hc ho
  intro c hc
  exact (completed_inv hstep (NodesHold.init poolSess hsize random seed) hops c hc).teidsDistinct

def restoreTeid (s p : Nat) (t : BitVec 32) : TeidOp :=
  .restore s p ((FTeid.zero.copy [1]).setTeid t) 9

theorem teid_runs :
    ((completed Context.teidStep (contextInit 1 id 0)
        [.add 0,restoreTeid 0 0 3,.add 0,.remove 0 0,.add 0]).length=6 ∧
      EachStep Context.teidStep RestoresHeld (contextInit 1 id 0)
        [.add 0,restoreTeid 0 0 3,.add 0,.remove 0 0,.add 0]) ∧
    ∃ c ∈ completed Context.teidStep (contextInit 1 id 0)
        [.add 0,.add 0,restoreTeid 0 0 3,restoreTeid 0 1 1,.add 0],
      c.pdrList 0=[0,1,2] ∧ c.teidOf 1=1 ∧ c.teidOf 2=1 := by
  decide +kernel

theorem teids_distinct_run_three :
    (completed Context.teidStep (contextInit 1 id 0)
        [.add 0,restoreTeid 0 0 3,.add 0,.remove 0 0,.add 0]).length=6 ∧
      ∀ c ∈ completed Context.teidStep (contextInit 1 id 0)
        [.add 0,restoreTeid 0 0 3,.add 0,.remove 0 0,.add 0], TeidsDistinct c := by
  exact ⟨teid_runs.1.1,teids_distinct_run 1 (by decide) _ _ _ teid_runs.1.2⟩

/-- Two PDRs with TEIDs 1 and 2 are restored with 3 and 1: the entry that still holds 1 is
drawn for a third one. -/
theorem restored_teid_drawn :
    ∃ c ∈ completed Context.teidStep (contextInit 1 id 0)
        [.add 0,.add 0,restoreTeid 0 0 3,restoreTeid 0 1 1,.add 0],
      c.pdrList 0=[0,1,2] ∧ c.teidOf 1=1 ∧ c.teidOf 2=1 ∧ ¬ TeidsDistinct c := by
  obtain ⟨c,hc,hlist,h1,h2⟩ := teid_runs.2
  refine ⟨c,hc,hlist,h1,h2,?_⟩
  intro hdistinct
  have hsame : (1 : Nat)=2 :=
    hdistinct 0 0 1 2 (by simp [hlist]) (by simp [hlist]) (h1.trans h2.symm)
  cases hsame

end OgsDp.Pfcp
