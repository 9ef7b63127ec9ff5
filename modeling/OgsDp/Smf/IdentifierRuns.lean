import OgsDp.Smf.Identifiers

/-!
# Identifiers in runs (src/smf/context.c)

Bearers, QoS flows and packet filters come and go in any order, in any set of sessions.
-/

namespace OgsDp.Smf
open Lib OgsDp.Core Function List Option

inductive BearerOp where
  | bearerAdd (s : Nat)
  | qosFlowAdd (s : Nat)
  | bearerRemove (b : Nat)
  | pfAdd (b : Nat) (direction : PfDirection) (description : List Byte)
  | pfRemove (b f : Nat)
  | tftUpdate (b : Nat)

namespace Bearers

variable {c : Bearers} {op : BearerOp} {o : Outcome Bearers Unit} {s b : Nat}

def Listed (c : Bearers) (b : Nat) : Prop := b∈c.bearerList (c.bearer b).sess

instance (c : Bearers) (b : Nat) : Decidable (c.Listed b) :=
  inferInstanceAs (Decidable (b∈c.bearerList (c.bearer b).sess))

/-- Filters are added to bearers in use, and only what is in use is removed. -/
def step (c : Bearers) : BearerOp → Option (Outcome Bearers Unit)
  | .bearerAdd s => some ((c.smfBearerAdd s).bind fun c _ => .ok c ())
  | .qosFlowAdd s => some ((c.smfQosFlowAdd s).bind fun c _ => .ok c ())
  | .bearerRemove b => if c.Listed b then some (c.smfBearerRemove b) else none
  | .pfAdd b direction description =>
    if c.Listed b then
      some ((c.pfAddFlow b direction description).bind fun c _ => .ok c ())
    else none
  | .pfRemove b f => if c.Listed b ∧ f∈c.pfList b then some (c.smfPfRemove f) else none
  | .tftUpdate b => if c.Listed b then some (c.smfBearerTftUpdate b) else none

/-- The ids of the bearers have not come round to one that is still in use. -/
def Apt (c : Bearers) : BearerOp → Prop
  | .bearerAdd _ => c.FreshId
  | .qosFlowAdd _ => c.FreshId
  | _ => True

instance (c : Bearers) : (op : BearerOp) → Decidable (c.Apt op)
  | .bearerAdd _ => inferInstanceAs (Decidable c.FreshId)
  | .qosFlowAdd _ => inferInstanceAs (Decidable c.FreshId)
  | .bearerRemove _ => inferInstanceAs (Decidable True)
  | .pfAdd .. => inferInstanceAs (Decidable True)
  | .pfRemove .. => inferInstanceAs (Decidable True)
  | .tftUpdate _ => inferInstanceAs (Decidable True)

namespace Bound

theorem init (poolBearer : Nat) :
    (bearersInit poolBearer).Bound (bearersInit poolBearer).bearerList := by
  have hnone : ∀ s b,b∉(bearersInit poolBearer).bearerList s := fun _ _ => nofun
  have hno : ∀ s f,¬ (bearersInit poolBearer).HasPf (bearersInit poolBearer).bearerList s f := by
    rintro s f ⟨b,hb,-⟩
    exact hnone s b hb
  refine ⟨⟨fun _ => nodup_nil,nofun,.init _ ?_,nofun,fun _ => .init _ nofun,
    fun _ => rfl,nofun⟩,⟨nofun,nofun,.init _ ?_,nofun,nofun,fun s => .init _ (hno s),
      fun _ => rfl,?_⟩⟩
  · rintro b ⟨s,hb⟩
    exact hnone s b hb
  · rintro f ⟨s,hf⟩
    exact hno s f hf
  · intro s f hf
    exact absurd hf (hno s f)

theorem step (h : c.Bound c.bearerList) (hapt : c.Apt op) (ho : c.step op=some o) :
    o.Returns fun c' _ => c'.Bound c'.bearerList := by
  cases op with
  | bearerAdd s =>
    obtain rfl := some.inj ho
    exact (h.bearerAdd hapt s).bind fun _ _ h' => h'
  | qosFlowAdd s =>
    obtain rfl := some.inj ho
    exact (h.qosFlowAdd hapt s).bind fun _ _ h' => h'
  | bearerRemove b =>
    simp only [Bearers.step] at ho
    split at ho
    · rename_i hb
      obtain rfl := some.inj ho
      exact (h.bearerRemove hb).mono fun _ _ h' => h'.1
    · cases ho
  | pfAdd b direction description =>
    simp only [Bearers.step] at ho
    split at ho
    · rename_i hb
      obtain rfl := some.inj ho
      refine (h.pfAddFlow hb direction description).bind ?_
      rintro c'-⟨h',hlist,-⟩
      rw [← hlist] at h'
      exact h'
    · cases ho
  | pfRemove b f =>
    simp only [Bearers.step] at ho
    split at ho
    · rename_i hf
      obtain rfl := some.inj ho
      refine (h.pfRemove hf.1 hf.2).mono ?_
      rintro c'-⟨h',texts,-,rfl⟩
      exact h'
    · cases ho
  | tftUpdate b =>
    simp only [Bearers.step] at ho
    split at ho
    · obtain rfl := some.inj ho
      refine (h.tftUpdate b).mono ?_
      rintro c'-⟨h',hlist⟩
      rw [← hlist] at h'
      exact h'
    · cases ho

end Bound

def InUse (c : Bearers) : Prop := c.Bound c.bearerList

/-- The identifiers of the bearers and filters in use, and the pools that serve none. -/
structure Distinct (c : Bearers) : Prop where
  identifiers : ∀ s,∀ b∈c.bearerList s,((c.pfList b).map fun f => (c.pf f).identifier).Nodup
  range : ∀ s,∀ b∈c.bearerList s,∀ f ∈ c.pfList b,
    1≤(c.pf f).identifier ∧ (c.pf f).identifier ≤ maxNumOfFlowInBearer
  precedences : ∀ s,
    (((c.bearerList s).flatMap c.pfList).map fun f => (c.pf f).precedence).Nodup
  sdfFilterIds : ∀ s,
    (((c.bearerList s).flatMap c.pfList).map fun f => (c.pf f).sdfFilterId).Nodup
  qfis : ∀ s,(((c.bearerList s).filter fun b => (c.bearer b).qfiNode.isSome).map fun b =>
    (c.bearer b).qfi).Nodup
  identifiersBack : ∀ s,∀ b∈c.bearerList s,c.pfList b=[] →
    (c.identifierPool b).avail=maxNumOfFlowInBearer
  precedencesBack : ∀ s,(∀ b∈c.bearerList s,c.pfList b=[]) →
    (c.precedencePool s).avail=maxNumOfBearer*maxNumOfFlowInBearer
  qfisBack : ∀ s,c.bearerList s=[] → (c.qfiPool s).avail=maxQosFlowId
  bearersBack : (∀ s,c.bearerList s=[]) → c.bearerPool.avail=c.bearerPool.size
  pfsBack : (∀ s,∀ b∈c.bearerList s,c.pfList b=[]) → c.pfPool.avail=c.pfPool.size

namespace Bound

theorem pfs_nodup (h : c.Bound c.bearerList) (s : Nat) :
    ((c.bearerList s).flatMap c.pfList).Nodup := by
  rw [nodup_flatMap]
  refine ⟨h.pfs.nodup s,?_⟩
  refine (h.bearers.nodup s).pairwise_of_forall_ne ?_
  intro b hb b' hb' hne f hf hf'
  exact hne (h.bearer_unique hb' hb hf' hf)

theorem nodup_numbers (number : SmfPf → Nat) (node : SmfPf → Option Nat) {l : List Nat}
    (hl : l.Nodup)
    (hnumber : ∀ f∈l,∃ k,node (c.pf f)=some k ∧ number (c.pf f)=sequenceId k)
    (hinj : ∀ f∈l,∀ f'∈l,∀ k,node (c.pf f)=some k → node (c.pf f')=some k → f=f') :
    (l.map fun f => number (c.pf f)).Nodup := by
  refine Nodup.map_on ?_ hl
  intro f hf f' hf' heq
  obtain ⟨k,hk,hn⟩ := hnumber f hf
  obtain ⟨k',hk',hn'⟩ := hnumber f' hf'
  have hkk : k=k' := by
    rw [hn,hn'] at heq
    exact Nat.succ.inj heq
  exact hinj f hf f' hf' k hk (hkk ▸ hk')

theorem hasPf_iff (c : Bearers) (s f : Nat) :
    f∈(c.bearerList s).flatMap c.pfList ↔ c.HasPf c.bearerList s f := by
  rw [mem_flatMap]
  rfl

theorem distinct (h : c.Bound c.bearerList) : c.Distinct where
  identifiers := by
    intro s b hb
    refine nodup_numbers SmfPf.identifier SmfPf.identifierNode (h.pfs.nodup s b hb) ?_ ?_
    · intro f hf
      obtain ⟨k,j,hk,hn,-⟩ := h.pfs.numbered s f ⟨b,hb,hf⟩
      exact ⟨k,hk,hn⟩
    · intro f hf f' hf' k hk hk'
      exact (h.pfs.identifiers s b hb).inj f f' k hf hf' hk hk'
  range := by
    intro s b hb f hf
    obtain ⟨k,j,hk,hn,-⟩ := h.pfs.numbered s f ⟨b,hb,hf⟩
    have hlt:=(h.pfs.identifiers s b hb).lt_size hf hk
    rw [h.pfs.identifierSize s b hb] at hlt
    rw [hn]
    unfold sequenceId
    omega
  precedences := by
    intro s
    refine nodup_numbers SmfPf.precedence SmfPf.precedenceNode (h.pfs_nodup s) ?_ ?_
    · intro f hf
      obtain ⟨k,j,-,-,hj,hn,-⟩ := h.pfs.numbered s f ((hasPf_iff c s f).mp hf)
      exact ⟨j,hj,hn⟩
    · intro f hf f' hf' k hk hk'
      rw [hasPf_iff] at hf hf'
      exact (h.pfs.precedences s).inj f f' k hf hf' hk hk'
  sdfFilterIds := by
    intro s
    refine nodup_numbers SmfPf.sdfFilterId SmfPf.precedenceNode (h.pfs_nodup s) ?_ ?_
    · intro f hf
      obtain ⟨k,j,-,-,hj,-,hn⟩ := h.pfs.numbered s f ((hasPf_iff c s f).mp hf)
      exact ⟨j,hj,hn⟩
    · intro f hf f' hf' k hk hk'
      rw [hasPf_iff] at hf hf'
      exact (h.pfs.precedences s).inj f f' k hf hf' hk hk'
  qfis := by
    intro s
    refine Nodup.map_on ?_ ((h.bearers.nodup s).filter _)
    intro b hb b' hb' heq
    obtain ⟨hb,hsome⟩ := mem_filter.mp hb
    obtain ⟨hb',hsome'⟩ := mem_filter.mp hb'
    obtain ⟨k,hk⟩ := isSome_iff_exists.mp hsome
    obtain ⟨k',hk'⟩ := isSome_iff_exists.mp hsome'
    have hkk : k=k' := by
      rw [h.bearers.qfi s b hb k hk,h.bearers.qfi s b' hb' k' hk'] at heq
      exact Nat.succ.inj heq
    exact (h.bearers.qfis s).inj b b' k hb hb' hk (hkk ▸ hk')
  identifiersBack := by
    intro s b hb hnil
    rw [← h.pfs.identifierSize s b hb]
    refine (h.pfs.identifiers s b hb).full ?_
    rw [hnil]
    exact nofun
  precedencesBack := by
    intro s hnil
    rw [← h.pfs.precedenceSize s]
    refine (h.pfs.precedences s).full ?_
    rintro f ⟨b,hb,hf⟩
    rw [hnil b hb] at hf
    cases hf
  qfisBack := by
    intro s hnil
    rw [← h.bearers.qfiSize s]
    refine (h.bearers.qfis s).full ?_
    rw [hnil]
    exact nofun
  bearersBack := by
    intro hnil
    refine h.bearers.holds.full ?_
    rintro b ⟨s,hb⟩
    rw [hnil] at hb
    cases hb
  pfsBack := by
    intro hnil
    refine h.pfs.holds.full ?_
    rintro f ⟨s,b,hb,hf⟩
    rw [hnil s b hb] at hf
    cases hf

end Bound

/-- The identifiers are distinct and come back in every run in which no id of a bearer comes round
to one that is in use. -/
theorem identifiers_run {poolBearer : Nat} {ops : List BearerOp}
    (hapt : EachStep Bearers.step Apt (bearersInit poolBearer) ops) :
    ∀ c∈completed Bearers.step (bearersInit poolBearer) ops,c.Distinct := by
  intro c hc
  have hinit : (bearersInit poolBearer).InUse := Bound.init poolBearer
  have hbound : c.InUse := by
    refine completed_inv ?_ hinit hapt c hc
    intro t op t' r h hop ho
    exact Bound.step h hop ho
  exact Bound.distinct hbound

def mixedOps : List BearerOp :=
  [.qosFlowAdd 0,.qosFlowAdd 0,.bearerAdd 1,.pfAdd 0 .downlinkOnly [],.pfAdd 1 .uplinkOnly [],
    .pfRemove 0 0,.bearerRemove 1,.qosFlowAdd 0,.pfAdd 0 .bidirectional [],
    .pfAdd 2 .uplinkOnly []]

def mixed : Bearers :=
  (final Bearers.step (bearersInit 4) mixedOps).getD (bearersInit 4)

theorem identifiers_run_mixed : mixed.Distinct := by
  have hapt : EachStep Bearers.step Apt (bearersInit 4) mixedOps := by decide
  exact identifiers_run hapt mixed (mem_completed_of_final rfl)

def startOps : List BearerOp := [.bearerAdd 0,.pfAdd 0 .downlinkOnly []]

def start : Bearers := (final Bearers.step (bearersInit 2) startOps).getD (bearersInit 2)

/-- The pool after the second bearer was added and removed, `id` being the last id handed out; the
queue of the free bearers turns each time. -/
def turnedPool (even : Bool) (id : Nat) : Pool where
  head := if even then 1 else 0
  tail := if even then 0 else 1
  size := 2
  avail := 1
  free := fun i => if i=(if even then 1 else 0) then some 1 else none
  index := fun i => if i=0 then some 0 else none
  idHash := fun i => if i=1 then some 0 else none
  id := id

def turned (even : Bool) (id : Nat) (x : SmfBearer) : Bearers :=
  { start with
    bearerPool := turnedPool even id
    bearer := update start.bearer 1 x }

theorem start_pool : start.bearerPool=turnedPool true 1 := by
  have hfree : start.bearerPool.free=(turnedPool true 1).free := by
    funext i
    match i with
    | 0 => rfl
    | 1 => rfl
    | i+2 => rfl
  have hindex : start.bearerPool.index=(turnedPool true 1).index := by
    funext i
    match i with
    | 0 => rfl
    | i+1 => rfl
  have hhash : start.bearerPool.idHash=(turnedPool true 1).idHash := by
    funext i
    match i with
    | 0 => rfl
    | 1 => rfl
    | i+2 => rfl
  show (⟨1,0,2,1,start.bearerPool.free,start.bearerPool.index,start.bearerPool.idHash,1⟩ :
    Pool)=_
  rw [hfree,hindex,hhash]
  rfl

theorem final_start : final Bearers.step (bearersInit 2) startOps =
    some (turned true 1 (start.bearer 1)) := by
  unfold turned
  rw [update_eq_self,← start_pool]
  rfl

def midPool (even : Bool) (id : Nat) : Pool where
  head := if even then 0 else 1
  tail := if even then 0 else 1
  size := 2
  avail := 0
  free := fun _ => none
  index := fun i => if i=0 then some 0 else if i=1 then some 1 else none
  idHash := update (fun i => if i=1 then some 0 else none) id (some 1)
  id := id

theorem turnedPool_alloc (even : Bool) (id : Nat) : (turnedPool even id).alloc =
    ({ midPool even id with idHash := (turnedPool even id).idHash },some 1) := by
  have hfree : update (turnedPool even id).free (turnedPool even id).head none =
      fun _ => none := by
    funext i
    by_cases hi : i=(turnedPool even id).head
    · rw [hi,update_self]
    · rw [update_of_ne hi]
      exact if_neg hi
  have hindex : update (turnedPool even id).index 1 (some 1) =
      (midPool even id).index := by
    funext i
    match i with
    | 0 => rfl
    | 1 => rfl
    | i+2 => rfl
  have halloc : (turnedPool even id).alloc=({ turnedPool even id with
      avail := 0
      free := update (turnedPool even id).free (turnedPool even id).head none
      head := (midPool even id).head
      index := update (turnedPool even id).index 1 (some 1) },some 1) := by
    unfold Pool.alloc turnedPool midPool
    cases even <;> simp
  rw [halloc,hfree,hindex]
  rfl

theorem turnedPool_idCalloc (even : Bool) (id : Nat) : (turnedPool even id).idCalloc =
    (midPool even (nextId id 1 maxPoolId),some (1,nextId id 1 maxPoolId)) := by
  unfold Pool.idCalloc
  rw [turnedPool_alloc]
  rfl

theorem midPool_idFree {even : Bool} {id : Nat} (hid : 1 < id) :
    (midPool even id).idFree 1 id=turnedPool (!even) id := by
  have hhash : update (midPool even id).idHash id none =
      (turnedPool (!even) id).idHash := by
    unfold midPool
    rw [update_idem]
    exact update_eq_self_iff.mpr (if_neg (by omega)).symm
  have hfree : update (midPool even id).free (midPool even id).tail (some 1) =
      (turnedPool (!even) id).free := by
    funext i
    by_cases hi : i=(midPool even id).tail
    · rw [hi,update_self]
      cases even <;> rfl
    · rw [update_of_ne hi]
      refine (if_neg ?_).symm
      cases even
      · exact hi
      · exact hi
  have hindex : update (midPool even id).index 1 none=(turnedPool (!even) id).index := by
    funext i
    match i with
    | 0 => rfl
    | 1 => rfl
    | i+2 => rfl
  have hrelease : (midPool even id).idFree 1 id = { turnedPool (!even) id with
      idHash := update (midPool even id).idHash id none
      free := update (midPool even id).free (midPool even id).tail (some 1)
      index := update (midPool even id).index 1 none } := by
    unfold Pool.idFree Pool.release turnedPool midPool
    cases even <;> simp
  rw [hrelease,hhash,hfree,hindex]

def second (id : Nat) : SmfBearer := { SmfBearer.zero with id := id }

def mid (even : Bool) (id : Nat) : Bearers :=
  { start with
    bearerPool := midPool even id
    bearer := update start.bearer 1 (second id)
    bearerList := update start.bearerList 0 [0,1] }

theorem turned_add (even : Bool) (id : Nat) (x : SmfBearer) : (turned even id x).step
    (.bearerAdd 0)=some (.ok (mid even (nextId id 1 maxPoolId)) ()) := by
  have hids : update start.identifierPool 1 (Pool.init maxNumOfFlowInBearer) =
      start.identifierPool := update_eq_self_iff.mpr rfl
  have hfilters : update start.pfList 1 []=start.pfList :=
    update_eq_self_iff.mpr rfl
  have hpool : (turned even id x).bearerPool=turnedPool even id := rfl
  have hadd : (turned even id x).smfBearerAdd 0 =
      .ok (mid even (nextId id 1 maxPoolId)) 1 := by
    unfold smfBearerAdd bearerCalloc
    simp only [hpool,turnedPool_idCalloc]
    unfold turned listBearer
    simp only [hids,hfilters,update_idem]
    rfl
  simp only [Bearers.step,hadd,Outcome.bind_ok]

theorem mid_remove (even : Bool) {id : Nat} (hid : 1 < id) : (mid even id).step (.bearerRemove 1) =
    some (.ok (turned (!even) id (second id)) ()) := by
  have hlist : update start.bearerList 0 [0]=start.bearerList :=
    update_eq_self_iff.mpr rfl
  have hrecord : (mid even id).bearer 1=second id := by
    show update start.bearer 1 (second id) 1=second id
    exact update_self 1 (second id) start.bearer
  have hlisted : (mid even id).Listed 1 := by
    unfold Listed
    rw [hrecord]
    exact mem_cons_of_mem 0 (mem_singleton_self 1)
  have hqfis : update start.qfiPool 0 (start.qfiPool 0)=start.qfiPool :=
    update_eq_self ..
  have hremove : (mid even id).smfBearerRemove 1 = .ok (turned (!even) id (second id)) () := by
    have hfilters : (mid even id).pfList 1=[] := rfl
    have hlists : update (mid even id).bearerList 0
        (((mid even id).bearerList 0).erase 1)=start.bearerList := by
      show update (update start.bearerList 0 [0,1]) 0 [0]=_
      rw [update_idem,hlist]
    have hsess : (second id).sess=0 := rfl
    have hnode : (second id).qfiNode=none := rfl
    unfold smfBearerRemove
    simp only [hrecord,hfilters,smfPfRemoveAll,Outcome.bind_ok,hsess,hnode,hlists]
    unfold mid
    simp only [giveBack,Option.elim,hqfis]
    have hfree : (midPool even id).idFree 1 (second id).id=turnedPool (!even) id :=
      midPool_idFree hid
    rw [hfree]
    rfl
  simp only [Bearers.step,if_pos hlisted,hremove]

theorem turn (even : Bool) {id : Nat} (x : SmfBearer) (hid : 0 < id) (hlt : id < maxPoolId) :
    final Bearers.step (turned even id x) [.bearerAdd 0,.bearerRemove 1] =
      some (turned (!even) (id+1) (second (id+1))) := by
  have hnext : nextId id 1 maxPoolId=id+1 := if_neg (Nat.ne_of_lt hlt)
  simp only [final,turned_add even id x,hnext,mid_remove even (Nat.succ_lt_succ hid)]

def turnOps : Nat → List BearerOp
  | 0 => startOps
  | n+1 => turnOps n++[.bearerAdd 0,.bearerRemove 1]

theorem turns {n : Nat} (hn : n < maxPoolId) : ∃ even x,
    final Bearers.step (bearersInit 2) (turnOps n)=some (turned even (n+1) x) := by
  induction n with
  | zero => exact ⟨true,_,final_start⟩
  | succ n ih =>
    obtain ⟨even,x,hfinal⟩ := ih (Nat.lt_of_succ_lt hn)
    refine ⟨!even,second (n+2),?_⟩
    rw [turnOps,final_append hfinal]
    exact turn even x (Nat.succ_pos n) hn

def roundOps : List BearerOp :=
  .pfRemove 0 0::(List.range 29).flatMap (fun f =>
    [.pfAdd 1 .downlinkOnly [],.pfRemove 1 (f+1)])++[.pfAdd 1 .downlinkOnly []]

def round (even : Bool) : Bearers :=
  (final Bearers.step (mid even 1) roundOps).getD start

theorem final_round (even : Bool) :
    final Bearers.step (mid even 1) roundOps=some (round even) := by
  have hsome : (final Bearers.step (mid even 1) roundOps).isSome := by
    cases even <;> decide
  obtain ⟨c,hc⟩ := isSome_iff_exists.mp hsome
  rw [round,hc]
  rfl

theorem round_shared (even : Bool) : ¬ (round even).Distinct := by
  intro h
  have hnodup:=h.precedences 0
  cases even
  · exact absurd hnodup (by decide)
  · exact absurd hnodup (by decide)

/-- A run of more than 2 ^ 32 calls in which two filters of a session have one precedence. -/
theorem id_comes_round : ¬ ∀ c ∈ completed Bearers.step (bearersInit 2)
    (turnOps (maxPoolId-1) ++ .bearerAdd 0::roundOps), c.Distinct := by
  intro h
  obtain ⟨even,x,hfinal⟩ := turns (n := maxPoolId-1) (by decide)
  have hlast : nextId (maxPoolId-1+1) 1 maxPoolId=1 := rfl
  refine round_shared even (h _ (mem_completed_of_final ?_))
  rw [final_append hfinal]
  simp only [final,turned_add,hlast]
  exact final_round even

end Bearers

end OgsDp.Smf
