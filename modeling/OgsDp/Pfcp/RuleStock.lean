import Mathlib.Data.Finset.Card
import Mathlib.Data.List.Find
import OgsDp.Core.PoolHolders
import OgsDp.Pfcp.References

/-!
# The nodes that rules hold (lib/pfcp/context.c)

A rule is a node of the pool of its kind and holds one of the id pool of its session, a PDR one of
`ogs_pfcp_pdr_teid_pool` besides.
-/

namespace OgsDp.Pfcp
open Lib RefTable OgsDp.Core Function List Option

namespace RuleTable

variable {α : Type} {kind : RuleKind α} {t t' : RuleTable α} {s r : Nat}

def shelf (t : RuleTable α) : Shelf where
  pool := t.pool
  list := t.list
  idPool := t.idPool
  idNode := fun r => (t.slot r).idNode
  owner := fun r => (t.slot r).sess

abbrev Stocked (kind : RuleKind α) (t : RuleTable α) : Prop := t.shelf.Stocked kind.max

theorem Stocked.init (kind : RuleKind α) (poolSess : Nat) :
    (RuleTable.init kind poolSess).Stocked kind :=
  Shelf.Stocked.init _ _ _ _

theorem shelf_modify (t : RuleTable α) (r : Nat) {f : Rule α → Rule α}
    (hid : ∀ x,(f x).idNode=x.idNode) (hsess : ∀ x,(f x).sess=x.sess) :
    (t.modify r f).shelf=t.shelf := by
  have hslot : ∀ {β : Type} (g : Rule α → β),(∀ x,g (f x)=g x) →
      (fun r' => g ((t.modify r f).slot r')) = fun r' => g (t.slot r') := by
    intro β g hg
    funext r'
    by_cases he : r'=r
    · simp only [he,RuleTable.modify,update_self,hg]
    · simp only [RuleTable.modify,update_of_ne he]
  simp only [shelf,hslot Rule.idNode hid,hslot Rule.sess hsess]
  rfl

def Room (t : RuleTable α) (s : Nat) : Prop := 0<t.pool.avail ∧ 0<(t.idPool s).avail

structure Added (t : RuleTable α) (s r : Nat) (t' : RuleTable α) : Prop where
  fresh : ∀ s,r∉t.list s
  list : t'.list=update t.list s (t.list s++[r])
  slot : ∀ r',r'≠r → t'.slot r'=t.slot r'
  avail : t'.pool.avail+1=t.pool.avail
  idAvail : (t'.idPool s).avail+1=(t.idPool s).avail

theorem Stocked.add (h : t.Stocked kind) (s : Nat) :
    (¬ t.Room s ∧ ∃ t',t.add kind s = .ok t' none ∧ t'.Stocked kind) ∨
      t.Room s ∧ ∃ t' r,t.add kind s = .ok t' (some r) ∧ t'.Stocked kind ∧ t.Added s r t' := by
  unfold RuleTable.add
  rcases Pool.Holds.alloc h.nodes with ⟨hnone,halloc⟩ | ⟨pool,r,halloc,hpos,-,-,-,-,havail⟩
  · have halloc' : t.pool.alloc=(t.pool,none) := halloc
    have hnone' : t.pool.avail=0 := hnone
    refine .inl ⟨fun hroom => absurd hroom.1 (by omega),t,?_,h⟩
    rw [halloc']
  · have halloc' : t.pool.alloc=(pool,some r) := halloc
    have hfresh:=h.fresh halloc
    rw [halloc']
    dsimp only
    rcases Pool.Holds.alloc (h.ids s) with
      ⟨hnone,hk⟩ | ⟨idPool,k,hk,hkpos,hklt,-,-,-,hkavail⟩
    · have hk' : (t.idPool s).alloc=(t.idPool s,none) := hk
      have hnone' : (t.idPool s).avail=0 := hnone
      rw [hk']
      refine .inl ⟨fun hroom => absurd hroom.2 (by omega),_,rfl,?_⟩
      refine h.giveBack halloc ?_ ?_ <;>
      · intro r' hr'
        simp only [update_of_ne hr',shelf]
    · have hk' : (t.idPool s).alloc=(idPool,some k) := hk
      have hle : k+1≤kind.max := by
        rw [← h.idSize s]
        exact hklt
      rw [hk']
      dsimp only
      rw [if_pos hle]
      refine .inr ⟨⟨hpos,hkpos⟩,_,r,rfl,?_,?_⟩
      · refine Shelf.Stocked.add h (s := s) halloc hk ?_ ?_ ?_ ?_
        · intro r' hr'
          simp only [RuleTable.modify,update_of_ne hr',shelf]
        · intro r' hr'
          simp only [RuleTable.modify,update_of_ne hr',shelf]
        · simp only [RuleTable.modify,update_self]
        · simp only [RuleTable.modify,update_self]
      · refine ⟨hfresh,rfl,?_,havail,?_⟩
        · intro r' hr'
          simp only [RuleTable.modify,update_of_ne hr']
        · simp only [RuleTable.modify,update_self]
          exact hkavail

theorem Stocked.remove (h : t.Stocked kind) (hr : r∈t.list s) : (t.remove r).Stocked kind := by
  have hs : (t.slot r).sess=s := h.owner s r hr
  have hremove:=Shelf.Stocked.remove h hr
  rw [← hs] at hremove
  exact hremove

theorem Added.find {id : BitVec 32} (h : t.Added s r t') (hnone : t.find s id=none)
    (id' : BitVec 32) :
    (t'.modify r fun x => { x with id := id }).find s id' =
      if id'=id then some r else t.find s id' := by
  have hslot : ∀ r'∈t.list s,update t'.slot r { t'.slot r with id := id } r' =
      t.slot r' := by
    intro r' hr'
    have hne : r'≠r := fun he => h.fresh s (he ▸ hr')
    rw [update_of_ne hne,h.slot r' hne]
  have hold : (t.list s).find? (fun r' =>
      (update t'.slot r { t'.slot r with id := id } r').id == id')=t.find s id' := by
    unfold RuleTable.find
    apply List.find?_congr
    intro r' hr'
    rw [hslot r' hr']
  have hfind : (t'.modify r fun x => { x with id := id }).find s id' =
      (t.find s id').or (if id'=id then some r else none) := by
    rw [← hold]
    unfold RuleTable.find RuleTable.modify
    simp only [h.list,update_self,List.find?_append,List.find?_singleton,beq_iff_eq]
    simp only [eq_comm (a := id)]
  rw [hfind]
  by_cases he : id'=id
  · rw [he,if_pos rfl,if_pos rfl,hnone,none_or]
  · rw [if_neg he,if_neg he,or_none]

theorem Stocked.findOrAdd (h : t.Stocked kind) (s : Nat) (id : BitVec 32) :
    (∃ r,t.find s id=some r ∧ t.findOrAdd kind s id = .ok t r) ∨
      t.find s id=none ∧ t.Room s ∧ (∃ t' r,t.findOrAdd kind s id = .ok t' r ∧
        t'.Stocked kind ∧ t'.pool.avail+1=t.pool.avail ∧
          (t'.idPool s).avail+1=(t.idPool s).avail ∧
            ∀ id',t'.find s id' = if id'=id then some r else t.find s id') ∨
      t.find s id=none ∧ ¬ t.Room s ∧ ∃ t',t.findOrAdd kind s id = .abort t' := by
  unfold RuleTable.findOrAdd
  cases hfind : t.find s id with
  | some r => exact .inl ⟨r,rfl,rfl⟩
  | none =>
    dsimp only
    rcases h.add s with ⟨hroom,t',hadd,-⟩ | ⟨hroom,t',r,hadd,hstock,hadded⟩
    · rw [hadd]
      exact .inr (.inr ⟨rfl,hroom,t',rfl⟩)
    · rw [hadd]
      refine .inr (.inl ⟨rfl,hroom,_,r,rfl,?_,hadded.avail,hadded.idAvail,?_⟩)
      · unfold Stocked
        rw [shelf_modify t' r (f := fun x => { x with id := id }) (fun _ => rfl) fun _ => rfl]
        exact hstock
      · exact hadded.find hfind

def newIds (t : RuleTable α) (s : Nat) (ids : List (BitVec 32)) : Finset (BitVec 32) :=
  ids.toFinset.filter fun id => t.find s id=none

def RoomFor (t : RuleTable α) (s : Nat) (ids : List (BitVec 32)) : Prop :=
  (t.newIds s ids).card≤t.pool.avail ∧ (t.newIds s ids).card≤(t.idPool s).avail

instance (t : RuleTable α) (s : Nat) (ids : List (BitVec 32)) : Decidable (t.RoomFor s ids) :=
  inferInstanceAs (Decidable (_ ∧ _))

theorem roomFor_nil (t : RuleTable α) (s : Nat) : t.RoomFor s [] := by
  simp [RoomFor,newIds]

theorem newIds_cons_found {id : BitVec 32} (h : t.find s id=some r) (ids : List (BitVec 32)) :
    t.newIds s (id::ids)=t.newIds s ids := by
  have hno : ¬ t.find s id=none := by simp [h]
  rw [newIds,toFinset_cons,Finset.filter_insert,if_neg hno,newIds]

theorem card_newIds_cons {id : BitVec 32} (h : t.find s id=none)
    (hfind : ∀ id',t'.find s id' = if id'=id then some r else t.find s id')
    (ids : List (BitVec 32)) :
    (t.newIds s (id::ids)).card=(t'.newIds s ids).card+1 := by
  have hnew : t'.newIds s ids=(t.newIds s ids).erase id := by
    ext id'
    simp only [newIds,Finset.mem_filter,Finset.mem_erase,hfind]
    by_cases he : id'=id
    · simp [he]
    · simp [he]
  have hcons : t.newIds s (id::ids)=insert id ((t.newIds s ids).erase id) := by
    ext id'
    simp only [newIds,toFinset_cons,Finset.filter_insert,if_pos h,Finset.mem_insert,
      Finset.mem_erase]
    by_cases he : id'=id
    · simp [he]
    · simp [he]
  rw [hcons,hnew,Finset.card_insert_of_notMem (Finset.notMem_erase id _)]

theorem Stocked.findOrAdd_first (h : t.Stocked kind) (s : Nat) (id : BitVec 32)
    (ids : List (BitVec 32)) :
    (∃ t' r,t.findOrAdd kind s id = .ok t' r ∧ t'.Stocked kind ∧
      (t.RoomFor s (id::ids) ↔ t'.RoomFor s ids)) ∨
      ¬ t.RoomFor s (id::ids) ∧ ∃ t',t.findOrAdd kind s id = .abort t' := by
  rcases h.findOrAdd s id with
    ⟨r,hfind,hadd⟩ | ⟨hfind,-,t',r,hadd,ht,havail,hidAvail,hfind'⟩ |
      ⟨hfind,hroom,habort⟩
  · refine .inl ⟨t,r,hadd,h,?_⟩
    rw [RoomFor,newIds_cons_found hfind,RoomFor]
  · refine .inl ⟨t',r,hadd,ht,?_⟩
    rw [RoomFor,card_newIds_cons hfind hfind' ids,RoomFor]
    omega
  · refine .inr ⟨fun hfor => hroom ?_,habort⟩
    have hmem : id∈t.newIds s (id::ids) := by simp [newIds,hfind]
    have hpos : 0<(t.newIds s (id::ids)).card := Finset.card_pos.mpr ⟨id,hmem⟩
    exact ⟨lt_of_lt_of_le hpos hfor.1,lt_of_lt_of_le hpos hfor.2⟩

theorem handleRule_shelf {μ : Type} (t : RuleTable α) (type : IeType)
    (id : μ → Option (BitVec 32)) (say : μ → α → Outcome α (Option (Cause × IeType))) (s : Nat)
    (m : Option μ) :
    (Pfcp.handleRule type id say t s m).Returns fun t' _ => t'.shelf=t.shelf := by
  cases m with
  | none => rfl
  | some m =>
    simp only [Pfcp.handleRule]
    cases knownRule type t s (id m) with
    | error reply => rfl
    | ok r =>
      simp only
      cases say m (t.slot r).body with
      | abort x => trivial
      | ok x refused =>
        have hsay : (t.say r x).shelf=t.shelf := shelf_modify t r (fun _ => rfl) fun _ => rfl
        cases refused with
        | none => exact hsay
        | some refused => exact hsay

end RuleTable

theorem RuleOp.step_stocked {α μ : Type} {kind : RuleKind α} {t : RuleTable α} {type : IeType}
    {create update : RuleHandler α μ}
    (hcreate : ∀ s m,(create t s m).Returns fun t' _ => t'.shelf=t.shelf)
    (hupdate : ∀ s m,(update t s m).Returns fun t' _ => t'.shelf=t.shelf)
    (h : t.Stocked kind) (op : RuleOp μ) {o : Outcome (RuleTable α) Reply}
    (ho : op.step kind type create update t=some o) : o.Returns fun t' _ => t'.Stocked kind := by
  have hsame : ∀ {t' : RuleTable α}, t'.shelf=t.shelf → t'.Stocked kind := by
    intro t' ht
    unfold RuleTable.Stocked
    rw [ht]
    exact h
  cases op with
  | add s =>
    simp only [step,some.injEq] at ho
    rw [← ho]
    rcases h.add s with ⟨-,t',hadd,ht⟩ | ⟨-,t',r,hadd,ht,-⟩
    · rw [hadd]
      exact ht
    · rw [hadd]
      exact ht
  | findOrAdd s id =>
    simp only [step,some.injEq] at ho
    rw [← ho]
    rcases h.findOrAdd s id with
      ⟨r,-,hadd⟩ | ⟨-,-,t',r,hadd,ht,-⟩ | ⟨-,-,t',hadd⟩
    · rw [hadd]
      exact h
    · rw [hadd]
      exact ht
    · rw [hadd]
      trivial
  | remove s r =>
    simp only [step,ite_none_right_eq_some,some.injEq] at ho
    rw [← ho.2]
    exact h.remove ho.1
  | handleCreate s m =>
    rw [← some.inj ho]
    exact (hcreate s m).mono fun t' _ ht => hsame ht
  | handleUpdate s m =>
    rw [← some.inj ho]
    exact (hupdate s m).mono fun t' _ ht => hsame ht
  | handleRemove s m =>
    simp only [step,some.injEq] at ho
    rw [← ho]
    cases m with
    | none => exact h
    | some id =>
      cases id with
      | none => exact h
      | some id =>
        simp only [handleRemoveRule]
        cases hfind : t.find s id with
        | none => exact h
        | some r => exact h.remove (RuleTable.find_mem hfind)

theorem farStep_stocked {t : RuleTable Far} (h : t.Stocked farKind) {op : RuleOp FarIe}
    {o : Outcome (RuleTable Far) Reply} (ho : farStep t op=some o) :
    o.Returns fun t' _ => t'.Stocked farKind :=
  RuleOp.step_stocked (fun s m => t.handleRule_shelf _ _ _ s m)
    (fun s m => t.handleRule_shelf _ _ _ s m) h op ho

theorem urrStep_stocked {env : Env} {t : RuleTable Urr} (h : t.Stocked urrKind)
    {op : RuleOp UrrIe} {o : Outcome (RuleTable Urr) Reply} (ho : urrStep env t op=some o) :
    o.Returns fun t' _ => t'.Stocked urrKind :=
  RuleOp.step_stocked (fun s m => t.handleRule_shelf _ _ _ s m)
    (fun s m => t.handleRule_shelf _ _ _ s m) h op ho

theorem qerStep_stocked {t : RuleTable Qer} (h : t.Stocked qerKind) {op : RuleOp QerIe}
    {o : Outcome (RuleTable Qer) Reply} (ho : qerStep t op=some o) :
    o.Returns fun t' _ => t'.Stocked qerKind :=
  RuleOp.step_stocked (fun s m => t.handleRule_shelf _ _ _ s m)
    (fun s m => t.handleRule_shelf _ _ _ s m) h op ho

namespace Context

variable {c c' : Context} {L : Nat → Prop} {s p : Nat}

def shelf (c : Context) : Shelf where
  pool := c.pdrPool
  list := c.pdrList
  idPool := c.pdrIdPool
  idNode := fun p => (c.pdr p).idNode
  owner := fun p => (c.pdr p).sess

/-- The nodes in use are those of the listed rules, and in the pool of TEIDs the lost ones `L`. -/
structure Stocked (L : Nat → Prop) (c : Context) : Prop where
  pdrs : c.shelf.Stocked maxNumOfPdr
  far : c.far.Stocked farKind
  urr : c.urr.Stocked urrKind
  qer : c.qer.Stocked qerKind
  teids : c.teidPool.Holds fun k => L k ∨ ∃ s,∃ p∈c.pdrList s,(c.pdr p).teidNode=k
  lost : ∀ s,∀ p∈c.pdrList s,¬ L (c.pdr p).teidNode
  inj : ∀ s s' p p',p∈c.pdrList s → p'∈c.pdrList s' →
    (c.pdr p).teidNode=(c.pdr p').teidNode → p=p'

theorem Stocked.init (poolSess : Nat) (random : Nat → Nat) (seed : BitVec 32) :
    (contextInit poolSess random seed).Stocked fun _ => False where
  pdrs := Shelf.Stocked.init _ _ _ _
  far := .init farKind poolSess
  urr := .init urrKind poolSess
  qer := .init qerKind poolSess
  teids := .init _ (by simp [contextInit])
  lost := fun _ _ h => by cases h
  inj := fun _ _ _ _ h => by cases h

structure SameNodes (c c' : Context) : Prop where
  shelf : c.shelf.Same c'.shelf
  teidPool : c'.teidPool=c.teidPool
  teidNode : ∀ s,∀ p∈c.pdrList s,(c'.pdr p).teidNode=(c.pdr p).teidNode
  far : c'.far.shelf=c.far.shelf
  urr : c'.urr.shelf=c.urr.shelf
  qer : c'.qer.shelf=c.qer.shelf

theorem SameNodes.refl (c : Context) : c.SameNodes c :=
  ⟨.refl _,rfl,fun _ _ _ => rfl,rfl,rfl,rfl⟩

theorem SameNodes.trans {c'' : Context} (h : c.SameNodes c') (h' : c'.SameNodes c'') :
    c.SameNodes c'' where
  shelf := h.shelf.trans h'.shelf
  teidPool := h'.teidPool.trans h.teidPool
  teidNode := by
    intro s p hp
    exact (h'.teidNode s p ((h.shelf.list s).mem_iff.mpr hp)).trans (h.teidNode s p hp)
  far := h'.far.trans h.far
  urr := h'.urr.trans h.urr
  qer := h'.qer.trans h.qer

theorem Stocked.congr (h : c.Stocked L) (hc : c.SameNodes c') : c'.Stocked L := by
  have hmem : ∀ s p,p∈c'.pdrList s ↔ p∈c.pdrList s := fun s p => (hc.shelf.list s).mem_iff
  constructor
  · exact h.pdrs.congr hc.shelf
  · unfold RuleTable.Stocked
    rw [hc.far]
    exact h.far
  · unfold RuleTable.Stocked
    rw [hc.urr]
    exact h.urr
  · unfold RuleTable.Stocked
    rw [hc.qer]
    exact h.qer
  · rw [hc.teidPool]
    refine h.teids.congr ?_
    intro k
    refine or_congr_right (exists_congr fun s => exists_congr fun p => ?_)
    rw [hmem]
    exact and_congr_right fun hp => by rw [hc.teidNode s p hp]
  · intro s p hp
    rw [hmem] at hp
    rw [hc.teidNode s p hp]
    exact h.lost s p hp
  · intro s s' p p' hp hp' he
    rw [hmem] at hp hp'
    rw [hc.teidNode s p hp,hc.teidNode s' p' hp'] at he
    exact h.inj s s' p p' hp hp' he

theorem sameNodes_modify (c : Context) (p : Nat) {f : Pdr → Pdr}
    (hf : ∀ x,(f x).idNode=x.idNode ∧ (f x).sess=x.sess ∧ (f x).teidNode=x.teidNode) :
    c.SameNodes (c.modify p f) where
  shelf := ⟨rfl,fun _ => Perm.refl _,rfl,
    fun _ p' _ => modify_pdr_frame c p f Pdr.idNode (fun x => (hf x).1) p',
    fun _ p' _ => modify_pdr_frame c p f Pdr.sess (fun x => (hf x).2.1) p'⟩
  teidPool := rfl
  teidNode := fun _ p' _ => modify_pdr_frame c p f Pdr.teidNode (fun x => (hf x).2.2) p'
  far := rfl
  urr := rfl
  qer := rfl

def PdrRoom (c : Context) (s : Nat) : Prop :=
  0<c.pdrPool.avail ∧ 0<c.teidPool.avail ∧ 0<(c.pdrIdPool s).avail

structure PdrAdded (c : Context) (s p : Nat) (c' : Context) : Prop where
  drawn : c.pdrPool.alloc.2=some p
  list : c'.pdrList=update c.pdrList s (c.pdrList s++[p])
  size : c'.pdrPool.size=c.pdrPool.size
  key : ∀ q,(c'.pdr q).hashKey=((c.modify p fun _ => .zero).pdr q).hashKey
  hash : c'.objectTeidHash=c.objectTeidHash
  seed : c'.seed=c.seed
  far : c'.far=c.far
  urr : c'.urr=c.urr
  qer : c'.qer=c.qer

theorem Stocked.pdrAdd (h : c.Stocked L) (s : Nat) :
    (c.pdrPool.avail=0 ∧ pdrAdd c s = .ok c none) ∨
      (¬ c.PdrRoom s ∧ ∃ c',pdrAdd c s = .abort c') ∨
      (¬ c.PdrRoom s ∧ c.pdrPool.avail≠0 ∧ (c.pdrIdPool s).avail=0 ∧
        ∃ c' k,pdrAdd c s = .ok c' none ∧ c'.Stocked (fun m => L m ∨ m=k) ∧
          c'.pdrList=c.pdrList ∧ c'.pdrPool.size=c.pdrPool.size) ∨
      c.PdrRoom s ∧ ∃ c' p,pdrAdd c s = .ok c' (some p) ∧ c'.Stocked L ∧ c.PdrAdded s p c' := by
  unfold Pfcp.pdrAdd
  rcases Pool.Holds.alloc h.pdrs.nodes with
    ⟨hnone,halloc⟩ | ⟨pool,p,halloc,hpos,-,-,-,hsize,-⟩
  · have halloc' : c.pdrPool.alloc=(c.pdrPool,none) := halloc
    exact .inl ⟨hnone,by rw [halloc']⟩
  have halloc' : c.pdrPool.alloc=(pool,some p) := halloc
  have hpos' : 0<c.pdrPool.avail := hpos
  have hfresh:=h.pdrs.fresh halloc
  have hne : ∀ s,∀ p'∈c.pdrList s,p'≠p := fun s p' hp' he => hfresh s (he ▸ hp')
  rw [halloc']
  dsimp only
  rcases Pool.Holds.alloc h.teids with
    ⟨hteid,hk⟩ | ⟨teidPool,k,hk,hteid,-,hnew,hteids,-,-⟩
  · rw [hk]
    exact .inr (.inl ⟨fun hroom => absurd hroom.2.1 (by omega),_,rfl⟩)
  rw [hk]
  simp only [Context.modify,update_self,update_idem]
  rcases Pool.Holds.alloc (h.pdrs.ids s) with
    ⟨hid,hi⟩ | ⟨idPool,i,hi,hid,hlt,-,-,-,-⟩
  · have hi' : (c.pdrIdPool s).alloc=(c.pdrIdPool s,none) := hi
    have hid' : (c.pdrIdPool s).avail=0 := hid
    rw [hi']
    refine .inr (.inr (.inl ⟨fun hroom => absurd hroom.2.2 (by omega),by omega,hid,_,k,
      rfl,?_,rfl,(Pool.release_size ..).trans hsize⟩))
    refine ⟨h.pdrs.giveBack halloc ?_ ?_,h.far,h.urr,h.qer,?_,?_,?_⟩
    · intro p' hp'
      simp only [update_of_ne hp',shelf]
    · intro p' hp'
      simp only [update_of_ne hp',shelf]
    · refine hteids.congr ?_
      intro m
      rw [or_right_comm]
      refine or_congr_left (or_congr_right (exists_congr fun s => exists_congr fun p' => ?_))
      refine and_congr_right fun hp' => ?_
      simp only [update_of_ne (hne s p' hp')]
    · intro s' p' hp' hlost
      simp only [update_of_ne (hne s' p' hp')] at hlost
      rcases hlost with hlost | hlost
      · exact h.lost s' p' hp' hlost
      · exact hnew (.inr ⟨s',p',hp',hlost⟩)
    · intro s1 s2 p1 p2 h1 h2 he
      simp only [update_of_ne (hne s1 p1 h1),update_of_ne (hne s2 p2 h2)] at he
      exact h.inj s1 s2 p1 p2 h1 h2 he
  · have hi' : (c.pdrIdPool s).alloc=(idPool,some i) := hi
    have hle : i+1 ≤ maxNumOfPdr := by
      rw [← h.pdrs.idSize s]
      exact hlt
    rw [hi']
    dsimp only
    rw [if_pos hle]
    refine .inr (.inr (.inr ⟨⟨hpos,hteid,hid⟩,_,p,rfl,?_,?_⟩))
    · refine ⟨?_,h.far,h.urr,h.qer,?_,?_,?_⟩
      · refine Shelf.Stocked.add h.pdrs (s := s) halloc hi ?_ ?_ ?_ ?_
        · intro p' hp'
          simp only [update_of_ne hp',shelf]
        · intro p' hp'
          simp only [update_of_ne hp',shelf]
        · simp only [update_self]
        · simp only [update_self]
      · refine hteids.congr ?_
        intro m
        constructor
        · rintro (hm | ⟨s',p',hp',hm⟩)
          · exact .inl (.inl hm)
          · rcases mem_update_append.mp hp' with hp' | ⟨-,rfl⟩
            · simp only [update_of_ne (hne s' p' hp')] at hm
              exact .inl (.inr ⟨s',p',hp',hm⟩)
            · simp only [update_self] at hm
              exact .inr hm.symm
        · rintro ((hm | ⟨s',p',hp',hm⟩) | rfl)
          · exact .inl hm
          · refine .inr ⟨s',p',mem_update_append.mpr (.inl hp'),?_⟩
            simp only [update_of_ne (hne s' p' hp')]
            exact hm
          · refine .inr ⟨s,p,mem_update_append.mpr (.inr ⟨rfl,rfl⟩),?_⟩
            simp only [update_self]
      · intro s' p' hp' hlost
        rcases mem_update_append.mp hp' with hp' | ⟨-,rfl⟩
        · simp only [update_of_ne (hne s' p' hp')] at hlost
          exact h.lost s' p' hp' hlost
        · simp only [update_self] at hlost
          exact hnew (.inl hlost)
      · intro s1 s2 p1 p2 h1 h2 he
        rcases mem_update_append.mp h1 with h1' | ⟨-,h1'⟩ <;>
          rcases mem_update_append.mp h2 with h2' | ⟨-,h2'⟩
        · simp only [update_of_ne (hne s1 p1 h1'),
            update_of_ne (hne s2 p2 h2')] at he
          exact h.inj s1 s2 p1 p2 h1' h2' he
        · subst h2'
          simp only [update_of_ne (hne s1 p1 h1'),update_self] at he
          exact absurd (.inr ⟨s1,p1,h1',he⟩) hnew
        · subst h1'
          simp only [update_of_ne (hne s2 p2 h2'),update_self] at he
          exact absurd (.inr ⟨s2,p2,h2',he.symm⟩) hnew
        · rw [h1',h2']
    · refine ⟨by rw [halloc'],rfl,hsize,?_,rfl,rfl,rfl,rfl,rfl⟩
      intro q
      by_cases he : q=p
      · simp [he,Context.modify]
      · simp only [Context.modify,update_of_ne he]

theorem Stocked.pdrRemove (h : c.Stocked L) (hp : p∈c.pdrList s) :
    (pdrRemove c p).Stocked L ∧ (pdrRemove c p).pdrPool.size=c.pdrPool.size ∧
      ∀ s' p',p'∈(pdrRemove c p).pdrList s' ↔ p'∈c.pdrList s' ∧ p'≠p := by
  have hs : (c.pdr p).sess=s := h.pdrs.owner s p hp
  have hshelf:=h.pdrs.remove hp
  have hmem:=h.pdrs.mem_remove hp
  have hpdr : (Pfcp.pdrRemove c p).pdr=c.pdr := by
    simp only [Pfcp.pdrRemove]
    split <;> rfl
  have hlist : (Pfcp.pdrRemove c p).pdrList =
      update c.pdrList s ((c.pdrList s).erase p) := by
    simp only [Pfcp.pdrRemove,hs]
    split <;> rfl
  have hteidPool : (Pfcp.pdrRemove c p).teidPool=c.teidPool.release (c.pdr p).teidNode := by
    simp only [Pfcp.pdrRemove]
    split <;> rfl
  have hrest : (Pfcp.pdrRemove c p).pdrPool=c.pdrPool.release p ∧
      (Pfcp.pdrRemove c p).pdrIdPool =
        update c.pdrIdPool s ((c.pdrIdPool s).release (c.pdr p).idNode) ∧
      (Pfcp.pdrRemove c p).far=c.far ∧ (Pfcp.pdrRemove c p).urr=c.urr ∧
      (Pfcp.pdrRemove c p).qer=c.qer := by
    simp only [Pfcp.pdrRemove,hs]
    split <;> exact ⟨rfl,rfl,rfl,rfl,rfl⟩
  obtain ⟨hpool,hidPool,hfar,hurr,hqer⟩ := hrest
  have hmem' : ∀ s' p',p'∈(Pfcp.pdrRemove c p).pdrList s' ↔ p'∈c.pdrList s' ∧ p'≠p := by
    intro s' p'
    rw [hlist]
    exact hmem s' p'
  refine ⟨⟨?_,hfar ▸ h.far,hurr ▸ h.urr,hqer ▸ h.qer,?_,?_,?_⟩,?_,hmem'⟩
  · simp only [shelf,hpool,hlist,hidPool,hpdr]
    exact hshelf
  · rw [hteidPool]
    refine (h.teids.release (.inr ⟨s,p,hp,rfl⟩)).congr ?_
    intro k
    simp only [hmem',hpdr]
    constructor
    · rintro (hk | ⟨s',p',⟨hp',hne⟩,rfl⟩)
      · exact ⟨.inl hk,fun he => h.lost s p hp (he ▸ hk)⟩
      · exact ⟨.inr ⟨s',p',hp',rfl⟩,fun he => hne (h.inj s' s p' p hp' hp he)⟩
    · rintro ⟨hk | ⟨s',p',hp',rfl⟩,hne⟩
      · exact .inl hk
      · exact .inr ⟨s',p',⟨hp',fun he => hne (by rw [he])⟩,rfl⟩
  · intro s' p' hp'
    rw [hpdr]
    exact h.lost s' p' ((hmem' s' p').mp hp').1
  · intro s1 s2 p1 p2 h1 h2 he
    rw [hpdr] at he
    exact h.inj s1 s2 p1 p2 ((hmem' s1 p1).mp h1).1 ((hmem' s2 p2).mp h2).1 he
  · rw [hpool,Pool.release_size]

theorem Stocked.setFar (h : c.Stocked L) {t : RuleTable Far} (ht : t.Stocked farKind) :
    Stocked L { c with far := t } :=
  ⟨h.pdrs,ht,h.urr,h.qer,h.teids,h.lost,h.inj⟩

theorem Stocked.setUrr (h : c.Stocked L) {t : RuleTable Urr} (ht : t.Stocked urrKind) :
    Stocked L { c with urr := t } :=
  ⟨h.pdrs,h.far,ht,h.qer,h.teids,h.lost,h.inj⟩

theorem Stocked.setQer (h : c.Stocked L) {t : RuleTable Qer} (ht : t.Stocked qerKind) :
    Stocked L { c with qer := t } :=
  ⟨h.pdrs,h.far,h.urr,ht,h.teids,h.lost,h.inj⟩

structure SameListed (c c' : Context) : Prop where
  list : ∀ s p,p∈c'.pdrList s ↔ p∈c.pdrList s
  size : c'.pdrPool.size=c.pdrPool.size

theorem SameListed.refl (c : Context) : c.SameListed c := ⟨fun _ _ => Iff.rfl,rfl⟩

theorem SameListed.trans {c'' : Context} (h : c.SameListed c') (h' : c'.SameListed c'') :
    c.SameListed c'' :=
  ⟨fun s p => (h'.list s p).trans (h.list s p),h'.size.trans h.size⟩

theorem SameNodes.listed (h : c.SameNodes c') : c.SameListed c' where
  list := fun s _ => (h.shelf.list s).mem_iff
  size := congrArg Pool.size h.shelf.pool

theorem sameNodes_reorder (h : c.Stocked L) (hp : p∈c.pdrList s) (v : BitVec 32) :
    c.SameNodes (pdrReorderByPrecedence c p v) := by
  have hs : (c.pdr p).sess=s := h.pdrs.owner s p hp
  have hsame:=sameNodes_modify c p (f := fun x => { x with precedence := v })
    fun _ => ⟨rfl,rfl,rfl⟩
  have hperm : ∀ s',((pdrReorderByPrecedence c p v).pdrList s').Perm (c.pdrList s') := by
    intro s'
    simp only [pdrReorderByPrecedence,hs,Context.modify]
    by_cases he : s'=s
    · rw [he,update_self]
      exact (insertSorted_perm _ p _).trans (perm_cons_erase hp).symm
    · rw [update_of_ne he]
  exact ⟨⟨rfl,hperm,rfl,hsame.shelf.idNode,hsame.shelf.owner⟩,rfl,hsame.teidNode,rfl,rfl,
    rfl⟩

/-- An F-TEID, if there is one, has an address when it is copied over zeros. -/
def FTeidTaken (pdi : Pdi) : Prop :=
  ∀ data∈pdi.localFTeid,((FTeid.zero.copy data).ipv4 || (FTeid.zero.copy data).ipv6)=true

theorem createPdrPdi_iff (c : Context) (p : Nat) (pdi : Pdi) :
    (FTeidTaken pdi ∧ ∃ c',createPdrPdi c p pdi = .ok c' () ∧ c.SameNodes c' ∧ c'.far=c.far ∧
      c'.urr=c.urr ∧ c'.qer=c.qer) ∨
      ¬ FTeidTaken pdi ∧ ∃ c',createPdrPdi c p pdi = .abort c' := by
  have hreset:=sameNodes_modify c p (f := resetByPdi pdi) fun _ => ⟨rfl,rfl,rfl⟩
  unfold createPdrPdi FTeidTaken
  cases pdi.localFTeid with
  | none => exact .inl ⟨by simp,_,rfl,hreset,rfl,rfl,rfl⟩
  | some data =>
    dsimp only
    by_cases haddr : ((FTeid.zero.copy data).ipv4 || (FTeid.zero.copy data).ipv6)=true
    · rw [if_pos haddr]
      refine .inl ⟨by simpa using haddr,_,rfl,hreset.trans ?_,rfl,rfl,rfl⟩
      exact sameNodes_modify _ p fun _ => ⟨rfl,rfl,rfl⟩
    · rw [if_neg haddr]
      exact .inr ⟨fun hall => haddr (hall data rfl),_,rfl⟩

theorem createPdrFar_iff (h : c.Stocked L) (s p : Nat) (farId : Option (BitVec 32)) :
    (c.far.RoomFor s farId.toList ∧ ∃ c',createPdrFar c s p farId = .ok c' () ∧ c'.Stocked L ∧
      c.SameListed c' ∧ c'.urr=c.urr ∧ c'.qer=c.qer) ∨
      ¬ c.far.RoomFor s farId.toList ∧ ∃ c',createPdrFar c s p farId = .abort c' := by
  have hclear:=sameNodes_modify c p (f := fun x => { x with far := none })
    fun _ => ⟨rfl,rfl,rfl⟩
  have h':=h.congr hclear
  unfold createPdrFar
  cases farId with
  | none => exact .inl ⟨RuleTable.roomFor_nil _ s,_,rfl,h',hclear.listed,rfl,rfl⟩
  | some id =>
    dsimp only [toList_some]
    rcases h.far.findOrAdd_first s id [] with ⟨t,r,hadd,ht,hiff⟩ | ⟨hno,t,hadd⟩
    · have hadd' : farFindOrAdd c.far s id = .ok t r := hadd
      rw [show (c.modify p fun x => { x with far := none }).far=c.far from rfl,hadd']
      have hset:=sameNodes_modify { c.modify p fun x => { x with far := none } with far := t } p
        (f := fun x => { x with far := some r }) fun _ => ⟨rfl,rfl,rfl⟩
      refine .inl ⟨hiff.mpr (RuleTable.roomFor_nil t s),_,rfl,(h'.setFar ht).congr hset,?_,rfl,rfl⟩
      exact ⟨hset.listed.list,hset.listed.size⟩
    · have hadd' : farFindOrAdd c.far s id = .abort t := hadd
      rw [show (c.modify p fun x => { x with far := none }).far=c.far from rfl,hadd']
      exact .inr ⟨hno,_,rfl⟩

theorem createPdrQer_iff (h : c.Stocked L) (s p : Nat) (qerId : Option (BitVec 32)) :
    (c.qer.RoomFor s qerId.toList ∧ ∃ c',createPdrQer c s p qerId = .ok c' () ∧ c'.Stocked L ∧
      c.SameListed c') ∨
      ¬ c.qer.RoomFor s qerId.toList ∧ ∃ c',createPdrQer c s p qerId = .abort c' := by
  have hclear:=sameNodes_modify c p (f := fun x => { x with qer := none })
    fun _ => ⟨rfl,rfl,rfl⟩
  have h':=h.congr hclear
  unfold createPdrQer
  cases qerId with
  | none => exact .inl ⟨RuleTable.roomFor_nil _ s,_,rfl,h',hclear.listed⟩
  | some id =>
    dsimp only [toList_some]
    rcases h.qer.findOrAdd_first s id [] with ⟨t,r,hadd,ht,hiff⟩ | ⟨hno,t,hadd⟩
    · have hadd' : qerFindOrAdd c.qer s id = .ok t r := hadd
      rw [show (c.modify p fun x => { x with qer := none }).qer=c.qer from rfl,hadd']
      have hset:=sameNodes_modify { c.modify p fun x => { x with qer := none } with qer := t } p
        (f := fun x => { x with qer := some r }) fun _ => ⟨rfl,rfl,rfl⟩
      refine .inl ⟨hiff.mpr (RuleTable.roomFor_nil t s),_,rfl,(h'.setQer ht).congr hset,?_⟩
      exact ⟨hset.listed.list,hset.listed.size⟩
    · have hadd' : qerFindOrAdd c.qer s id = .abort t := hadd
      rw [show (c.modify p fun x => { x with qer := none }).qer=c.qer from rfl,hadd']
      exact .inr ⟨hno,_,rfl⟩

theorem pdrAssociateUrr_ok (c : Context) (p u : Nat) (hlen : (c.pdr p).urr.length < maxNumOfUrr) :
    ∃ c',pdrAssociateUrr c p u = .ok c' () ∧ c.SameNodes c' ∧ c'.urr=c.urr ∧ c'.qer=c.qer ∧
      (c'.pdr p).urr.length≤(c.pdr p).urr.length+1 := by
  unfold pdrAssociateUrr
  rw [if_pos hlen]
  split
  · exact ⟨c,rfl,.refl c,rfl,rfl,Nat.le_succ _⟩
  · refine ⟨_,rfl,sameNodes_modify c p fun _ => ⟨rfl,rfl,rfl⟩,rfl,rfl,?_⟩
    simp [Context.modify]

theorem createPdrUrr_iff (s p : Nat) (ids : List (BitVec 32)) :
    ∀ {c : Context}, c.Stocked L → (c.pdr p).urr.length+ids.length ≤ maxNumOfUrr →
    ((c.urr.RoomFor s ids ∧ ∃ c',createPdrUrr s p c ids = .ok c' () ∧ c'.Stocked L ∧
      c.SameListed c' ∧ c'.qer=c.qer) ∨
      ¬ c.urr.RoomFor s ids ∧ ∃ c',createPdrUrr s p c ids = .abort c') := by
  induction ids with
  | nil => exact fun h _ => .inl ⟨RuleTable.roomFor_nil _ s,_,rfl,h,.refl _,rfl⟩
  | cons id ids ih =>
    intro c h hlen
    rw [length_cons] at hlen
    unfold createPdrUrr
    rcases h.urr.findOrAdd_first s id ids with ⟨t,r,hadd,ht,hiff⟩ | ⟨hno,t,hadd⟩
    · have hadd' : urrFindOrAdd c.urr s id = .ok t r := hadd
      obtain ⟨c',hassoc,hsame,hurr,hqer,hlen'⟩ :=
        pdrAssociateUrr_ok { c with urr := t } p r (show (c.pdr p).urr.length<_ by omega)
      have hlen'' : (c'.pdr p).urr.length≤(c.pdr p).urr.length+1 := hlen'
      have h' : c'.Stocked L := (h.setUrr ht).congr hsame
      rw [hadd',Outcome.mapState,Outcome.bind_ok,hassoc,Outcome.bind_ok,hiff,
        show t=c'.urr from hurr.symm]
      rcases ih h' (by omega) with ⟨hroom,c'',hdone,hstock,hlisted,hqer'⟩ | hstop
      · refine .inl ⟨hroom,c'',hdone,hstock,?_,hqer'.trans hqer⟩
        exact ⟨fun s p => (hlisted.list s p).trans (hsame.listed.list s p),
          hlisted.size.trans hsame.listed.size⟩
      · exact .inr hstop
    · have hadd' : urrFindOrAdd c.urr s id = .abort t := hadd
      rw [hadd']
      exact .inr ⟨hno,_,rfl⟩

/-- The context in which the PDI of a Create PDR is checked: the node of a new PDR is cleared. -/
def cleared (c : Context) (s : Nat) (id : BitVec 16) : Context :=
  match pdrFind c s id, c.pdrPool.alloc.2 with
  | none, some p => c.modify p fun _ => .zero
  | _, _ => c

structure Ready (L : Nat → Prop) (c : Context) (s : Nat) (id : BitVec 16) (c' : Context) (p : Nat) :
    Prop where
  stocked : c'.Stocked L
  mem : p∈c'.pdrList s
  listed : ∀ s p,p∈c.pdrList s → p∈c'.pdrList s
  size : c'.pdrPool.size=c.pdrPool.size
  find : objectFindByTeid c'=objectFindByTeid (c.cleared s id)
  far : c'.far=c.far
  urr : c'.urr=c.urr
  qer : c'.qer=c.qer

theorem objectFindByTeid_congr (hkey : ∀ q,(c'.pdr q).hashKey=(c.pdr q).hashKey)
    (hhash : c'.objectTeidHash=c.objectTeidHash) (hseed : c'.seed=c.seed) :
    objectFindByTeid c'=objectFindByTeid c := by
  funext teid
  have hkeys : (fun q => (c'.pdr q).hashKey) = fun q => (c.pdr q).hashKey := funext hkey
  simp only [objectFindByTeid,Context.teidKeys,hkeys,hhash,hseed]

theorem Stocked.pdrFindOrAdd (h : c.Stocked L) (s : Nat) (id : BitVec 16) :
    (((pdrFind c s id).isSome ∨ c.PdrRoom s) ∧
      ∃ c' p,pdrFindOrAdd c s id = .ok c' p ∧ Ready L c s id c' p) ∨
      ¬ ((pdrFind c s id).isSome ∨ c.PdrRoom s) ∧ ∃ c',pdrFindOrAdd c s id = .abort c' := by
  unfold Pfcp.pdrFindOrAdd
  cases hfind : pdrFind c s id with
  | some p =>
    refine .inl ⟨.inl rfl,c,p,rfl,h,pdrFind_mem hfind,fun _ _ hp => hp,rfl,?_,rfl,rfl,
      rfl⟩
    simp only [cleared,hfind]
  | none =>
    dsimp only
    rcases h.pdrAdd s with ⟨hno,hadd⟩ | ⟨hno,c',hadd⟩ | ⟨hno,-,-,c',k,hadd,-⟩ |
      ⟨hroom,c',p,hadd,h',hadded⟩
    · rw [hadd]
      refine .inr ⟨?_,_,rfl⟩
      rintro (hsome | hroom)
      · cases hsome
      · exact absurd hroom.1 (by omega)
    · rw [hadd]
      exact .inr ⟨fun hor => hor.elim (fun hsome => by cases hsome) hno,_,rfl⟩
    · rw [hadd]
      exact .inr ⟨fun hor => hor.elim (fun hsome => by cases hsome) hno,_,rfl⟩
    · rw [hadd]
      have hset:=sameNodes_modify c' p (f := fun x => { x with id := id })
        fun _ => ⟨rfl,rfl,rfl⟩
      refine .inl ⟨.inr hroom,_,p,rfl,h'.congr hset,?_,?_,hadded.size,?_,hadded.far,
        hadded.urr,hadded.qer⟩
      · show p∈c'.pdrList s
        rw [hadded.list]
        exact mem_update_append.mpr (.inr ⟨rfl,rfl⟩)
      · intro s' p' hp'
        show p'∈c'.pdrList s'
        rw [hadded.list]
        exact mem_update_append.mpr (.inl hp')
      · have hclear : c.cleared s id=c.modify p fun _ => .zero := by
          simp only [cleared,hfind,hadded.drawn]
        have hkey : ∀ q,((c'.modify p fun x => { x with id := id }).pdr q).hashKey =
            ((c.modify p fun _ => .zero).pdr q).hashKey := by
          intro q
          rw [← hadded.key q]
          exact modify_pdr_frame c' p (fun x => { x with id := id }) Pdr.hashKey (fun _ => rfl) q
        have hhash : (c'.modify p fun x => { x with id := id }).objectTeidHash =
            (c.modify p fun _ => .zero).objectTeidHash := hadded.hash
        have hseed : (c'.modify p fun x => { x with id := id }).seed =
            (c.modify p fun _ => .zero).seed := hadded.seed
        rw [hclear]
        exact objectFindByTeid_congr hkey hhash hseed

theorem Ready.reorder {id : BitVec 16} (h : Ready L c s id c' p) (v : Option (BitVec 32)) :
    Ready L c s id (v.elim c' (pdrReorderByPrecedence c' p)) p := by
  cases v with
  | none => exact h
  | some v =>
    have hsame:=sameNodes_reorder h.stocked h.mem v
    refine ⟨h.stocked.congr hsame,(hsame.shelf.list s).mem_iff.mpr h.mem,?_,
      hsame.listed.size.trans h.size,?_,h.far,h.urr,h.qer⟩
    · exact fun s' p' hp' => (hsame.shelf.list s').mem_iff.mpr (h.listed s' p' hp')
    · rw [← h.find]
      exact objectFindByTeid_congr (modify_pdr_frame c' p (fun x => { x with precedence := v })
        Pdr.hashKey fun _ => rfl) rfl rfl

theorem handleCreatedPdr_sameNodes (env : Env) (c : Context) (s : Nat) (m : Option CreatedPdr) :
    (handleCreatedPdr env c s m).Returns fun c' _ => c.SameNodes c' := by
  cases m with
  | none => exact .refl c
  | some m =>
    simp only [handleCreatedPdr]
    cases knownPdr c s m.pdrId with
    | error reply => exact .refl c
    | ok p =>
      cases m.localFTeid with
      | none => exact .refl c
      | some data =>
        simp only
        split
        · exact .refl c
        · split
          · exact sameNodes_modify c p (by simp [overlayFTeid])
          · trivial

theorem chooseFTeid_sameNodes (env : Env) (c : Context) (p : Nat) :
    (pdrChooseFTeid env c p).Returns fun c' _ => c.SameNodes c' := by
  simp only [pdrChooseFTeid]
  split
  · split
    · split
      · exact sameNodes_modify c p (by simp)
      · trivial
    · cases chooseFTeid env (c.pdr p) with
      | none => trivial
      | some r =>
        simp only
        split
        · exact (sameNodes_modify c p (f := fun x =>
            { x with chid := true,chooseId := x.fTeid.chooseId }) fun _ => ⟨rfl,rfl,rfl⟩).trans
            (sameNodes_modify _ p fun _ => ⟨rfl,rfl,rfl⟩)
        · exact sameNodes_modify c p fun _ => ⟨rfl,rfl,rfl⟩
  · exact .refl c

theorem SameNodes.setHash (h : c.SameNodes c') (hash : List (Entry Nat Obj)) :
    c.SameNodes { c' with objectTeidHash := hash } :=
  ⟨⟨h.shelf.pool,h.shelf.list,h.shelf.idPool,h.shelf.idNode,h.shelf.owner⟩,h.teidPool,
    h.teidNode,h.far,h.urr,h.qer⟩

theorem setTeid_sameNodes (type : ObjType) (c : Context) (p : Nat) :
    c.SameNodes (pdrSetTeid type (pdrUnsetTeid c p) p) := by
  have hunset : c.SameNodes (pdrUnsetTeid c p) := by
    unfold pdrUnsetTeid
    split
    · exact (SameNodes.refl c).setHash _
    · exact .refl c
  exact (hunset.trans (sameNodes_modify _ p (f := fun x =>
    { x with hashKey := x.fTeid.teid,hashLen := 4 }) fun _ => ⟨rfl,rfl,rfl⟩)).setHash _

theorem swapTeid_sameNodes (c : Context) (p : Nat) :
    (pdrSwapTeid c p).Returns fun c' _ => c.SameNodes c' := by
  have hself : ∀ a,c.SameNodes { c with teidArray := a } :=
    fun a => ⟨.refl _,rfl,fun _ _ _ => rfl,rfl,rfl,rfl⟩
  simp only [pdrSwapTeid]
  split
  · split
    · split
      · split
        · exact hself _
        · exact .refl c
      · trivial
    · exact .refl c
  · trivial

end Context

end OgsDp.Pfcp
