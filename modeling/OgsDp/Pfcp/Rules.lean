import OgsDp.Pfcp.Handler

/-!
# Runs of rule operations

The operations of a user plane function on the rules of its sessions, and what holds of the lists
and pools whatever is done: a listed rule is a node in use and belongs to the session that lists
it.
-/

namespace OgsDp.Pfcp
open Lib RefTable OgsDp.Core Function Option

/-- The calls on one kind of rule; `μ` is the type of its create and update messages. -/
inductive RuleOp (μ : Type) where
  | add (s : Nat)
  | findOrAdd (s : Nat) (id : BitVec 32)
  | remove (s r : Nat)
  | handleCreate (s : Nat) (message : Option μ)
  | handleUpdate (s : Nat) (message : Option μ)
  | handleRemove (s : Nat) (message : Option (Option (BitVec 32)))

inductive Op where
  | pdrAdd (s : Nat)
  | pdrFindOrAdd (s : Nat) (id : BitVec 16)
  | pdrRemove (s p : Nat)
  | pdrSwapTeid (s p : Nat)
  | objectTeidHashSet (env : Env) (type : ObjType) (s p : Nat)
  | handleCreatePdr (env : Env) (s : Nat) (restoration : Bool) (message : Option CreatePdr)
  | handleCreatedPdr (env : Env) (s : Nat) (message : Option CreatedPdr)
  | handleUpdatePdr (env : Env) (s : Nat) (message : Option UpdatePdr)
  | handleRemovePdr (s : Nat) (message : Option (Option (BitVec 16)))
  | far (op : RuleOp FarIe)
  | handleUpdateFarFlags (s : Nat) (message : Option FarIe)
  | urr (env : Env) (op : RuleOp UrrIe)
  | qer (op : RuleOp QerIe)

def Reply.ofNode (r : Option Nat) : Reply := r.elim .absent .rule

def RuleOp.step {α μ : Type} (kind : RuleKind α) (type : IeType) (create update : RuleHandler α μ)
    (t : RuleTable α) : RuleOp μ → Option (Outcome (RuleTable α) Reply)
  | .add s => some ((t.add kind s).bind fun t r => .ok t (.ofNode r))
  | .findOrAdd s id => some ((t.findOrAdd kind s id).bind fun t r => .ok t (.rule r))
  | .remove s r => if r∈t.list s then some (.ok (t.remove r) .absent) else none
  | .handleCreate s m => some (create t s m)
  | .handleUpdate s m => some (update t s m)
  | .handleRemove s m =>
    let r:=handleRemoveRule type t s m
    some (.ok r.1 r.2)

def farStep (t : RuleTable Far) : RuleOp FarIe → Option (Outcome (RuleTable Far) Reply) :=
  RuleOp.step farKind .farId handleCreateFar handleUpdateFar t

def urrStep (env : Env) (t : RuleTable Urr) :
    RuleOp UrrIe → Option (Outcome (RuleTable Urr) Reply) :=
  RuleOp.step urrKind .urrId (handleCreateUrr env) (handleUpdateUrr env) t

def qerStep (t : RuleTable Qer) : RuleOp QerIe → Option (Outcome (RuleTable Qer) Reply) :=
  RuleOp.step qerKind .qerId handleCreateQer handleUpdateQer t

/-- One call; functions that take a PDR are called while its session lists it. -/
def Context.step (c : Context) : Op → Option (Outcome Context Reply)
  | .pdrAdd s => some ((Pfcp.pdrAdd c s).bind fun c r => .ok c (.ofNode r))
  | .pdrFindOrAdd s id => some ((Pfcp.pdrFindOrAdd c s id).bind fun c r => .ok c (.rule r))
  | .pdrRemove s p => if p∈c.pdrList s then some (.ok (Pfcp.pdrRemove c p) .absent) else none
  | .pdrSwapTeid s p =>
    if p∈c.pdrList s then
      some ((Pfcp.pdrSwapTeid c p).bind fun c cause => .ok c (.rejected cause none))
    else none
  | .objectTeidHashSet env type s p =>
    if p∈c.pdrList s then
      some ((Pfcp.objectTeidHashSet env type c p).bind fun c _ => .ok c .absent)
    else none
  | .handleCreatePdr env s restoration m => some (Pfcp.handleCreatePdr env c s restoration m)
  | .handleCreatedPdr env s m => some (Pfcp.handleCreatedPdr env c s m)
  | .handleUpdatePdr env s m => some (Pfcp.handleUpdatePdr env c s m)
  | .handleRemovePdr s m =>
    let r:=Pfcp.handleRemovePdr c s m
    some (.ok r.1 r.2)
  | .far op => (farStep c.far op).map fun o => o.mapState fun t => { c with far := t }
  | .handleUpdateFarFlags s m =>
    some ((Pfcp.handleUpdateFarFlags c.far s m).mapState fun t => { c with far := t })
  | .urr env op => (urrStep env c.urr op).map fun o => o.mapState fun t => { c with urr := t }
  | .qer op => (qerStep c.qer op).map fun o => o.mapState fun t => { c with qer := t }

def env0 : Env := ⟨true,none,some (Vector.replicate 4 127),none,true,0,.zero⟩

namespace RuleTable

variable {α : Type} {t t' t'' : RuleTable α} {s r : Nat}

structure Ok (t : RuleTable α) : Prop where
  split : ∃ q live,Pool.Split t.pool q live ∧ ∀ s,∀ r∈t.list s,r∈live
  nodup : ∀ s,(t.list s).Nodup
  sess : ∀ s,∀ r∈t.list s,(t.slot r).sess=s

structure Grows (t t' : RuleTable α) : Prop where
  ok : t'.Ok
  list : ∀ s,t.list s ⊆ t'.list s

theorem Ok.init (kind : RuleKind α) (poolSess : Nat) : (RuleTable.init kind poolSess).Ok where
  split := ⟨_,[],Pool.split_init _,fun _ _ h => h⟩
  nodup := fun _ => List.nodup_nil
  sess := fun _ _ h => by cases h

theorem Ok.grows (h : t.Ok) : t.Grows t := ⟨h,fun _ => List.Subset.refl _⟩

theorem Grows.trans (h : t.Grows t') (h' : t'.Grows t'') : t.Grows t'' :=
  ⟨h'.ok,fun s => List.Subset.trans (h.list s) (h'.list s)⟩

theorem Ok.modify (h : t.Ok) (r : Nat) {f : Rule α → Rule α} (hf : ∀ x,(f x).sess=x.sess) :
    t.Grows (t.modify r f) where
  ok := by
    refine ⟨h.split,h.nodup,?_⟩
    intro s r' hr'
    rw [← h.sess s r' hr']
    by_cases he : r'=r
    · simp only [he,RuleTable.modify,update_self,hf]
    · simp only [RuleTable.modify,update_of_ne he]
  list := fun _ => List.Subset.refl _

theorem find_mem {id : BitVec 32} (h : t.find s id=some r) : r∈t.list s :=
  List.mem_of_find?_eq_some h

theorem Ok.add (h : t.Ok) (kind : RuleKind α) (s : Nat) :
    (t.add kind s).Returns fun t' r => t.Grows t' ∧ ∀ x∈r,x∈t'.list s := by
  obtain ⟨q,live,hs,hlive⟩ := h.split
  cases q with
  | nil =>
    simp only [RuleTable.add,Pool.alloc_of_nil hs.queue,Outcome.returns_ok]
    exact ⟨h.grows,by simp⟩
  | cons n q =>
    obtain ⟨pool,halloc,hs',-,-,-⟩ := hs.alloc
    have hn : ∀ s,∀ r∈t.list s,r≠n := by
      rintro s r hr rfl
      exact hs.not_live_of_free (List.mem_cons_self ..) (hlive s r hr)
    simp only [RuleTable.add,halloc]
    rcases (t.idPool s).alloc with ⟨idPool,k⟩
    cases k with
    | none =>
      refine ⟨⟨⟨⟨_,_,hs'.release (n := n) (by simp),?_⟩,h.nodup,?_⟩,
        fun _ => List.Subset.refl _⟩,by simp⟩
      · intro s r hr
        exact (List.mem_erase_of_ne (hn s r hr)).mpr (List.mem_append_left _ (hlive s r hr))
      · intro s r hr
        simp only [update_of_ne (hn s r hr)]
        exact h.sess s r hr
    | some k =>
      simp only
      split
      · refine ⟨⟨⟨⟨q,live++[n],hs',?_⟩,?_,?_⟩,?_⟩,?_⟩
        · intro s' r hr
          simp only [RuleTable.modify] at hr
          by_cases he : s'=s
          · rw [he,update_self,List.mem_append,List.mem_singleton] at hr
            rcases hr with hr | rfl
            · exact List.mem_append_left _ (hlive s r hr)
            · simp
          · rw [update_of_ne he] at hr
            exact List.mem_append_left _ (hlive s' r hr)
        · intro s'
          simp only [RuleTable.modify]
          by_cases he : s'=s
          · rw [he,update_self]
            refine List.nodup_append.mpr ⟨h.nodup s,List.nodup_singleton n,?_⟩
            intro a ha b hb
            rw [List.mem_singleton.mp hb]
            exact hn s a ha
          · rw [update_of_ne he]
            exact h.nodup s'
        · intro s' r hr
          simp only [RuleTable.modify] at hr ⊢
          by_cases he : r=n
          · rw [he] at hr ⊢
            simp only [update_self]
            by_contra hne
            rw [update_of_ne (Ne.symm hne)] at hr
            exact hn s' n hr rfl
          · simp only [update_of_ne he]
            refine h.sess s' r ?_
            by_cases hs : s'=s
            · rw [hs,update_self,List.mem_append,List.mem_singleton] at hr
              exact hs ▸ hr.resolve_right he
            · rwa [update_of_ne hs] at hr
        · intro s' r hr
          simp only [RuleTable.modify]
          by_cases he : s'=s
          · rw [he,update_self]
            exact List.mem_append_left _ (he ▸ hr)
          · rwa [update_of_ne he]
        · simp [RuleTable.modify]
      · trivial

theorem Ok.findOrAdd (h : t.Ok) (kind : RuleKind α) (s : Nat) (id : BitVec 32) :
    (t.findOrAdd kind s id).Returns fun t' r => t.Grows t' ∧ r∈t'.list s := by
  simp only [RuleTable.findOrAdd]
  cases hfind : t.find s id with
  | some r => exact ⟨h.grows,find_mem hfind⟩
  | none =>
    refine (h.add kind s).bind ?_
    rintro t' r ⟨hg,hr⟩
    cases r with
    | none => trivial
    | some r =>
      have hm:=hg.ok.modify r (f := fun x => { x with id := id }) fun _ => rfl
      exact ⟨hg.trans hm,hm.list s (hr r rfl)⟩

theorem Ok.remove (h : t.Ok) (hr : r∈t.list s) :
    (t.remove r).Ok ∧ ∀ s' r',r'∈t.list s' → r'≠r → r'∈(t.remove r).list s' := by
  obtain ⟨q,live,hs,hlive⟩ := h.split
  have hlist : ∀ s' r',r'∈(t.remove r).list s' ↔ r'∈t.list s' ∧ r'≠r := by
    intro s' r'
    simp only [RuleTable.remove,h.sess s r hr]
    by_cases he : s'=s
    · rw [he,update_self,(h.nodup s).mem_erase_iff,and_comm]
    · rw [update_of_ne he]
      refine ⟨fun hm => ⟨hm,?_⟩,fun hm => hm.1⟩
      rintro rfl
      exact he ((h.sess s' r' hm).symm.trans (h.sess s r' hr))
  refine ⟨⟨⟨_,_,hs.release (hlive s r hr),?_⟩,?_,?_⟩,?_⟩
  · intro s' r' hr'
    obtain ⟨hm,hne⟩ := (hlist s' r').mp hr'
    exact (List.mem_erase_of_ne hne).mpr (hlive s' r' hm)
  · intro s'
    simp only [RuleTable.remove]
    by_cases he : s'=(t.slot r).sess
    · rw [he,update_self]
      exact (h.nodup _).erase r
    · rw [update_of_ne he]
      exact h.nodup s'
  · intro s' r' hr'
    exact h.sess s' r' ((hlist s' r').mp hr').1
  · intro s' r' hr' hne
    exact (hlist s' r').mpr ⟨hr',hne⟩

theorem Ok.handleRule {μ : Type} (h : t.Ok) (type : IeType) (id : μ → Option (BitVec 32))
    (say : μ → α → Outcome α (Option (Cause × IeType))) (s : Nat) (m : Option μ) :
    (Pfcp.handleRule type id say t s m).Returns fun t' _ => t.Grows t' := by
  cases m with
  | none => exact h.grows
  | some m =>
    simp only [Pfcp.handleRule]
    cases knownRule type t s (id m) with
    | error reply => exact h.grows
    | ok r =>
      simp only
      cases say m (t.slot r).body with
      | abort x => trivial
      | ok x refused =>
        have hm:=h.modify r (f := fun y => { y with body := x }) fun _ => rfl
        cases refused with
        | none => exact hm
        | some refused => exact hm

/-! What operations that remove nothing leave of the search by id. -/

def Extends (t t' : RuleTable α) : Prop :=
  ∀ s,(∃ l,t'.list s=t.list s++l) ∧ ∀ r∈t.list s,(t'.slot r).id=(t.slot r).id

theorem Extends.refl (t : RuleTable α) : t.Extends t :=
  fun _ => ⟨⟨[],(List.append_nil _).symm⟩,fun _ _ => rfl⟩

theorem Extends.find {id : BitVec 32} (h : t.Extends t') (hr : t.find s id=some r) :
    t'.find s id=some r := by
  obtain ⟨⟨l,hl⟩,hid⟩ := h s
  have hmem:=find_mem hr
  obtain ⟨hp,l₁,l₂,hlist,hfirst⟩ := List.find?_eq_some_iff_append.mp hr
  refine List.find?_eq_some_iff_append.mpr ⟨?_,l₁,l₂++l,?_,?_⟩
  · rw [hid r hmem]
    exact hp
  · rw [hl,hlist,List.append_assoc,List.cons_append]
  · intro a ha
    rw [hid a (hlist ▸ List.mem_append_left _ ha)]
    exact hfirst a ha

theorem find_id {id : BitVec 32} (h : t.find s id=some r) : (t.slot r).id=id := by
  have hbeq:=List.find?_some (show (t.list s).find? (fun r => (t.slot r).id == id)=some r from h)
  exact eq_of_beq hbeq

theorem extends_modify (t : RuleTable α) (r : Nat) {f : Rule α → Rule α}
    (hf : ∀ x,(f x).id=x.id) : t.Extends (t.modify r f) := by
  refine fun _ => ⟨⟨[],(List.append_nil _).symm⟩,?_⟩
  intro r' hr'
  by_cases he : r'=r
  · simp only [he,RuleTable.modify,update_self,hf]
  · simp only [RuleTable.modify,update_of_ne he]

theorem Extends.modify_unlisted (h : t.Extends t') (hr : ∀ s,r∉t.list s)
    (f : Rule α → Rule α) : t.Extends (t'.modify r f) := by
  intro s
  obtain ⟨hlist,hid⟩ := h s
  refine ⟨hlist,?_⟩
  intro r' hr'
  have hne : r'≠r := fun he => hr s (he ▸ hr')
  simp only [RuleTable.modify,update_of_ne hne]
  exact hid r' hr'

theorem Ok.add_extends (h : t.Ok) (kind : RuleKind α) (s : Nat) :
    (t.add kind s).Returns fun t' r => t.Extends t' ∧ ∀ x∈r,∀ s,x∉t.list s := by
  obtain ⟨q,live,hs,hlive⟩ := h.split
  cases q with
  | nil =>
    simp only [RuleTable.add,Pool.alloc_of_nil hs.queue,Outcome.returns_ok]
    exact ⟨.refl t,by simp⟩
  | cons n q =>
    obtain ⟨pool,halloc,-,-,-,-⟩ := hs.alloc
    have hn : ∀ s,n∉t.list s :=
      fun s hm => hs.not_live_of_free (List.mem_cons_self ..) (hlive s n hm)
    have hid : ∀ (x : Rule α) s,∀ r ∈ t.list s,
        (update t.slot n x r).id=(t.slot r).id := by
      intro x s r hr
      have hne : r≠n := fun he => hn s (he ▸ hr)
      rw [update_of_ne hne]
    simp only [RuleTable.add,halloc]
    rcases (t.idPool s).alloc with ⟨idPool,k⟩
    cases k with
    | none => exact ⟨fun s => ⟨⟨[],(List.append_nil _).symm⟩,hid _ s⟩,by simp⟩
    | some k =>
      simp only
      split
      · refine ⟨?_,?_⟩
        · intro s'
          simp only [RuleTable.modify,update_self,update_idem]
          refine ⟨?_,hid _ s'⟩
          by_cases he : s'=s
          · rw [he,update_self]
            exact ⟨[n],rfl⟩
          · rw [update_of_ne he]
            exact ⟨[],(List.append_nil _).symm⟩
        · intro x hx
          cases hx
          exact hn
      · trivial

theorem Ok.findOrAdd_extends (h : t.Ok) (kind : RuleKind α) (s : Nat) (id : BitVec 32) :
    (t.findOrAdd kind s id).Returns fun t' _ => t.Extends t' := by
  simp only [RuleTable.findOrAdd]
  cases t.find s id with
  | some r => exact .refl t
  | none =>
    apply (h.add_extends kind s).bind
    intro t' r hr
    cases r with
    | none => trivial
    | some r => exact hr.1.modify_unlisted (hr.2 r rfl) _

theorem knownRule_ok {type : IeType} {id : Option (BitVec 32)}
    (h : knownRule type t s id = .ok r) : ∃ i,t.find s i=some r := by
  cases id with
  | none => cases h
  | some i =>
    cases hfind : t.find s i with
    | none => simp [knownRule,hfind] at h
    | some r' =>
      simp only [knownRule,hfind,Except.ok.injEq] at h
      exact ⟨i,h ▸ hfind⟩

theorem knownRule_error {type : IeType} {id : Option (BitVec 32)} {reply : Reply}
    (h : knownRule type t s id = .error reply) : reply ≠ .rule r := by
  cases id with
  | none =>
    cases h
    simp
  | some i =>
    cases hfind : t.find s i with
    | none =>
      simp only [knownRule,hfind,Except.error.injEq] at h
      simp [← h]
    | some r' => simp [knownRule,hfind] at h

theorem handleRule_extends {μ : Type} (t : RuleTable α) (type : IeType)
    (id : μ → Option (BitVec 32)) (say : μ → α → Outcome α (Option (Cause × IeType))) (s : Nat)
    (m : Option μ) : (Pfcp.handleRule type id say t s m).Returns fun t' reply =>
      t.Extends t' ∧ ∀ r,reply = .rule r → t'.find s (t'.slot r).id=some r := by
  cases m with
  | none => exact ⟨.refl t,fun _ he => by cases he⟩
  | some m =>
    simp only [Pfcp.handleRule]
    cases hknown : knownRule type t s (id m) with
    | error reply => exact ⟨.refl t,fun r he => absurd he (knownRule_error hknown)⟩
    | ok r =>
      simp only
      obtain ⟨id,hfind⟩ := knownRule_ok hknown
      cases say m (t.slot r).body with
      | abort x => trivial
      | ok x refused =>
        have hm:=t.extends_modify r (f := fun y => { y with body := x }) fun _ => rfl
        cases refused with
        | none =>
          refine ⟨hm,?_⟩
          rintro r' he
          cases he
          have hr:=hm.find hfind
          rwa [← find_id hr] at hr
        | some refused => exact ⟨hm,fun _ he => by cases he⟩

theorem find_erase {p : Nat → Bool} {a b : Nat} (hne : a≠b) (l : List Nat)
    (h : l.find? p=some b) : (l.erase a).find? p=some b := by
  induction l with
  | nil => cases h
  | cons x l ih =>
    by_cases hx : x=a
    · subst hx
      rw [List.erase_cons_head]
      cases hp : p x with
      | true =>
        rw [List.find?_cons_of_pos hp] at h
        cases h
        exact absurd rfl hne
      | false =>
        rwa [List.find?_cons_of_neg (by simp [hp])] at h
    · rw [List.erase_cons_tail (by simpa using hx)]
      cases hp : p x with
      | true =>
        rw [List.find?_cons_of_pos hp] at h ⊢
        exact h
      | false =>
        rw [List.find?_cons_of_neg (by simp [hp])] at h ⊢
        exact ih h

theorem find_remove {r' : Nat} {id : BitVec 32} (hne : r≠r') (h : t.find s id=some r') :
    (t.remove r).find s id=some r' := by
  unfold RuleTable.find RuleTable.remove
  simp only
  by_cases he : s=(t.slot r).sess
  · rw [← he,update_self]
    exact find_erase hne _ h
  · rw [update_of_ne he]
    exact h

theorem Ok.removeAll (h : t.Ok) {l : List Nat} (hnodup : l.Nodup) (hl : ∀ r∈l,r∈t.list s) :
    (l.foldl RuleTable.remove t).Ok ∧ ∀ s' id r',r'∉l → t.find s' id=some r' →
      (l.foldl RuleTable.remove t).find s' id=some r' := by
  induction l generalizing t with
  | nil => exact ⟨h,fun _ _ _ _ hfind => hfind⟩
  | cons r l ih =>
    obtain ⟨hok,hkeep⟩ := h.remove (hl r (List.mem_cons_self ..))
    obtain ⟨hr,hnodup⟩ := List.nodup_cons.mp hnodup
    have hrest : ∀ r'∈l,r'∈(t.remove r).list s := by
      intro r' hr'
      exact hkeep s r' (hl r' (List.mem_cons_of_mem r hr')) fun he => hr (he ▸ hr')
    obtain ⟨hok',hfind'⟩ := ih hok hnodup hrest
    refine ⟨hok',?_⟩
    intro s' id r' hr' hfind
    have hne : r≠r' := fun he => hr' (he ▸ List.mem_cons_self ..)
    have hmem : r'∉l := fun hm => hr' (List.mem_cons_of_mem r hm)
    exact hfind' s' id r' hmem (find_remove hne hfind)

end RuleTable

namespace RuleOp

variable {α μ : Type} {t : RuleTable α}

def removed (t : RuleTable α) : RuleOp μ → Option Nat
  | .remove _ r => some r
  | .handleRemove s (some (some id)) => t.find s id
  | _ => none

theorem step_returns {kind : RuleKind α} {type : IeType} {create update : RuleHandler α μ}
    (hcreate : ∀ s m,(create t s m).Returns fun t' _ => t.Grows t')
    (hupdate : ∀ s m,(update t s m).Returns fun t' _ => t.Grows t') (h : t.Ok) (op : RuleOp μ)
    {o : Outcome (RuleTable α) Reply} (ho : op.step kind type create update t=some o) :
    o.Returns fun t' _ =>
      t'.Ok ∧ ∀ s,∀ r∈t.list s,op.removed t≠some r → r∈t'.list s := by
  have hgrows : ∀ {t' : RuleTable α}, t.Grows t' →
      t'.Ok ∧ ∀ s,∀ r∈t.list s,op.removed t≠some r → r∈t'.list s :=
    fun hg => ⟨hg.ok,fun s r hr _ => hg.list s hr⟩
  cases op with
  | add s =>
    simp only [step,some.injEq] at ho
    rw [← ho]
    exact (h.add kind s).bind fun t' r hg => hgrows hg.1
  | findOrAdd s id =>
    simp only [step,some.injEq] at ho
    rw [← ho]
    exact (h.findOrAdd kind s id).bind fun t' r hg => hgrows hg.1
  | remove s r =>
    simp only [step] at ho
    split at ho
    · rename_i hr
      rw [← some.inj ho]
      obtain ⟨hok,hkeep⟩ := h.remove hr
      refine ⟨hok,fun s' r' hr' hne => hkeep s' r' hr' ?_⟩
      rintro rfl
      exact hne rfl
    · cases ho
  | handleCreate s m =>
    rw [← some.inj ho]
    exact (hcreate s m).mono fun t' r hg => hgrows hg
  | handleUpdate s m =>
    rw [← some.inj ho]
    exact (hupdate s m).mono fun t' r hg => hgrows hg
  | handleRemove s m =>
    simp only [step,some.injEq] at ho
    rw [← ho]
    cases m with
    | none => exact hgrows h.grows
    | some id =>
      cases id with
      | none => exact hgrows h.grows
      | some id =>
        simp only [handleRemoveRule]
        cases hfind : t.find s id with
        | none => exact hgrows h.grows
        | some r =>
          obtain ⟨hok,hkeep⟩ := h.remove (RuleTable.find_mem hfind)
          refine ⟨hok,fun s' r' hr' hne => hkeep s' r' hr' ?_⟩
          rintro rfl
          exact hne hfind

end RuleOp

theorem farStep_returns {t : RuleTable Far} (h : t.Ok) {op : RuleOp FarIe}
    {o : Outcome (RuleTable Far) Reply} (ho : farStep t op=some o) :
    o.Returns fun t' _ =>
      t'.Ok ∧ ∀ s,∀ r∈t.list s,op.removed t≠some r → r∈t'.list s :=
  RuleOp.step_returns (fun s m => h.handleRule _ _ _ s m) (fun s m => h.handleRule _ _ _ s m) h op ho

theorem urrStep_returns {env : Env} {t : RuleTable Urr} (h : t.Ok) {op : RuleOp UrrIe}
    {o : Outcome (RuleTable Urr) Reply} (ho : urrStep env t op=some o) :
    o.Returns fun t' _ =>
      t'.Ok ∧ ∀ s,∀ r∈t.list s,op.removed t≠some r → r∈t'.list s :=
  RuleOp.step_returns (fun s m => h.handleRule _ _ _ s m) (fun s m => h.handleRule _ _ _ s m) h op ho

theorem qerStep_returns {t : RuleTable Qer} (h : t.Ok) {op : RuleOp QerIe}
    {o : Outcome (RuleTable Qer) Reply} (ho : qerStep t op=some o) :
    o.Returns fun t' _ =>
      t'.Ok ∧ ∀ s,∀ r∈t.list s,op.removed t≠some r → r∈t'.list s :=
  RuleOp.step_returns (fun s m => h.handleRule _ _ _ s m) (fun s m => h.handleRule _ _ _ s m) h op ho

namespace Context

variable {c c' : Context} {s p : Nat}

def Listed (c : Context) (p : Nat) : Prop := ∃ s,p∈c.pdrList s

structure PdrsOk (c : Context) : Prop where
  split : ∃ q live,Pool.Split c.pdrPool q live ∧ ∀ s,∀ p∈c.pdrList s,p∈live
  nodup : ∀ s,(c.pdrList s).Nodup
  sess : ∀ s,∀ p∈c.pdrList s,(c.pdr p).sess=s

theorem PdrsOk.init (poolSess : Nat) (random : Nat → Nat) (seed : BitVec 32) :
    (contextInit poolSess random seed).PdrsOk where
  split := ⟨_,[],Pool.split_init _,fun _ _ h => h⟩
  nodup := fun _ => List.nodup_nil
  sess := fun _ _ h => by cases h

structure SamePdrs (c c' : Context) : Prop where
  pool : c'.pdrPool=c.pdrPool
  list : ∀ s,(c'.pdrList s).Perm (c.pdrList s)
  sess : ∀ p,(c'.pdr p).sess=(c.pdr p).sess

theorem PdrsOk.congr (h : c.PdrsOk) (hc : c.SamePdrs c') : c'.PdrsOk where
  split := by
    obtain ⟨q,live,hs,hlive⟩ := h.split
    rw [hc.pool]
    exact ⟨q,live,hs,fun s p hp => hlive s p ((hc.list s).mem_iff.mp hp)⟩
  nodup := fun s => (hc.list s).nodup_iff.mpr (h.nodup s)
  sess := fun s p hp => (hc.sess p).trans (h.sess s p ((hc.list s).mem_iff.mp hp))

theorem SamePdrs.refl (c : Context) : c.SamePdrs c := ⟨rfl,fun _ => List.Perm.refl _,fun _ => rfl⟩

theorem SamePdrs.trans {c'' : Context} (h : c.SamePdrs c') (h' : c'.SamePdrs c'') :
    c.SamePdrs c'' where
  pool := h'.pool.trans h.pool
  list := fun s => (h'.list s).trans (h.list s)
  sess := fun p => (h'.sess p).trans (h.sess p)

theorem modify_pdr_frame {β : Type} (c : Context) (p : Nat) (f : Pdr → Pdr) (g : Pdr → β)
    (hg : ∀ x,g (f x)=g x) (p' : Nat) : g ((c.modify p f).pdr p')=g (c.pdr p') := by
  by_cases he : p'=p
  · simp only [he,Context.modify,update_self,hg]
  · simp only [Context.modify,update_of_ne he]

theorem samePdrs_modify (c : Context) (p : Nat) {f : Pdr → Pdr} (hf : ∀ x,(f x).sess=x.sess) :
    c.SamePdrs (c.modify p f) :=
  ⟨rfl,fun _ => List.Perm.refl _,modify_pdr_frame c p f Pdr.sess hf⟩

end Context

theorem insertSorted_perm (c : Context) (p : Nat) (l : List Nat) :
    (insertSorted c p l).Perm (p::l) := by
  induction l with
  | nil => exact List.Perm.refl _
  | cons q l ih =>
    simp only [insertSorted]
    split
    · exact List.Perm.refl _
    · exact (ih.cons q).trans (List.Perm.swap p q l)

theorem reorder_samePdrs {c : Context} {s p : Nat} (h : c.PdrsOk) (hp : p∈c.pdrList s)
    (v : BitVec 32) : c.SamePdrs (pdrReorderByPrecedence c p v) where
  pool := rfl
  list := by
    intro s'
    have hs:=h.sess s p hp
    simp only [pdrReorderByPrecedence,hs,Context.modify]
    by_cases he : s'=s
    · rw [he,update_self]
      exact (insertSorted_perm _ p _).trans (List.perm_cons_erase hp).symm
    · rw [update_of_ne he]
  sess := Context.modify_pdr_frame c p (fun x => { x with precedence := v }) Pdr.sess fun _ => rfl

theorem pdrFind_mem {c : Context} {s p : Nat} {id : BitVec 16} (h : pdrFind c s id=some p) :
    p∈c.pdrList s :=
  List.mem_of_find?_eq_some h

def blankPdr (c : Context) (k : Nat) : Pdr :=
  { Pdr.zero with srcIf := interfaceUnknown,teidNode := k,teid := c.teidArray k }

/-- What `ogs_pfcp_pdr_add` leaves where it returns: nothing was free, there was no id for the
node it had drawn, or the node `p` is the last PDR of the session. -/
inductive PdrAdd (c : Context) (s : Nat) : Context → Option Nat → Prop where
  | full : PdrAdd c s c none
  | noId {p k : Nat} {pool teidPool : Pool} (hp : ¬ c.Listed p)
      (hk : c.teidPool.alloc=(teidPool,some k)) :
    PdrAdd c s { c with
      pdrPool := pool
      teidPool := teidPool
      pdr := update c.pdr p (blankPdr c k) } none
  | added {p k i : Nat} {pool teidPool idPool : Pool} (hp : ¬ c.Listed p)
      (hk : c.teidPool.alloc=(teidPool,some k)) :
    PdrAdd c s { c with
      pdrPool := pool
      teidPool := teidPool
      pdr := update c.pdr p { blankPdr c k with
        idNode := i
        id := BitVec.ofNat 16 (i+1)
        sess := s }
      pdrIdPool := update c.pdrIdPool s idPool
      pdrList := update c.pdrList s (c.pdrList s++[p]) } (some p)

theorem mem_update_append {f : Nat → List Nat} {s s' p p' : Nat} :
    p'∈update f s (f s++[p]) s' ↔ p'∈f s' ∨ s'=s ∧ p'=p := by
  by_cases he : s'=s
  · simp [he]
  · simp [he]

theorem pdrAdd_returns {c : Context} (h : c.PdrsOk) (s : Nat) :
    (pdrAdd c s).Returns fun c' r => c'.PdrsOk ∧ PdrAdd c s c' r := by
  obtain ⟨q,live,hs,hlive⟩ := h.split
  cases q with
  | nil =>
    simp only [pdrAdd,Pool.alloc_of_nil hs.queue]
    exact ⟨h,.full⟩
  | cons p q =>
    obtain ⟨pool,halloc,hs',-,-,-⟩ := hs.alloc
    have hp : ∀ s,∀ p'∈c.pdrList s,p'≠p := by
      rintro s p' hp' rfl
      exact hs.not_live_of_free (List.mem_cons_self ..) (hlive s p' hp')
    have hfresh : ¬ c.Listed p := fun ⟨s,hm⟩ => hp s p hm rfl
    simp only [pdrAdd,halloc]
    rcases hk : c.teidPool.alloc with ⟨teidPool,k⟩
    cases k with
    | none => trivial
    | some k =>
      simp only [Context.modify,update_self,update_idem]
      rcases (c.pdrIdPool s).alloc with ⟨idPool,i⟩
      cases i with
      | none =>
        refine ⟨⟨⟨_,_,hs'.release (n := p) (by simp),?_⟩,h.nodup,?_⟩,.noId hfresh hk⟩
        · intro s p' hp'
          exact (List.mem_erase_of_ne (hp s p' hp')).mpr (List.mem_append_left _ (hlive s p' hp'))
        · intro s p' hp'
          simp only [update_of_ne (hp s p' hp')]
          exact h.sess s p' hp'
      | some i =>
        simp only
        split
        · refine ⟨⟨⟨q,live++[p],hs',?_⟩,?_,?_⟩,.added hfresh hk⟩
          · intro s' p' hp'
            rcases mem_update_append.mp hp' with hp' | ⟨-,rfl⟩
            · exact List.mem_append_left _ (hlive s' p' hp')
            · simp
          · intro s'
            by_cases he : s'=s
            · simp only [he,update_self]
              refine List.nodup_append.mpr ⟨h.nodup s,List.nodup_singleton p,?_⟩
              intro a ha b hb
              rw [List.mem_singleton.mp hb]
              exact hp s a ha
            · simp only [update_of_ne he]
              exact h.nodup s'
          · intro s' p' hp'
            rcases mem_update_append.mp hp' with hp' | ⟨rfl,rfl⟩
            · simp only [update_of_ne (hp s' p' hp')]
              exact h.sess s' p' hp'
            · simp only [update_self]
        · trivial

theorem pdrRemove_pdrsOk {c : Context} {s p : Nat} (h : c.PdrsOk) (hp : p∈c.pdrList s) :
    (pdrRemove c p).PdrsOk ∧ (pdrRemove c p).pdr=c.pdr ∧
      ∀ s' p',p'∈(pdrRemove c p).pdrList s' ↔ p'∈c.pdrList s' ∧ p'≠p := by
  obtain ⟨q,live,hs,hlive⟩ := h.split
  have hsess:=h.sess s p hp
  have hpdr : (pdrRemove c p).pdr=c.pdr := by
    simp only [pdrRemove]
    split <;> rfl
  have hpool : (pdrRemove c p).pdrPool=c.pdrPool.release p := by
    simp only [pdrRemove]
    split <;> rfl
  have hlists : (pdrRemove c p).pdrList=update c.pdrList s ((c.pdrList s).erase p) := by
    simp only [pdrRemove,hsess]
    split <;> rfl
  have hmem : ∀ s' p',p'∈(pdrRemove c p).pdrList s' ↔ p'∈c.pdrList s' ∧ p'≠p := by
    intro s' p'
    rw [hlists]
    by_cases he : s'=s
    · rw [he,update_self,(h.nodup s).mem_erase_iff,and_comm]
    · rw [update_of_ne he]
      refine ⟨fun hm => ⟨hm,?_⟩,fun hm => hm.1⟩
      rintro rfl
      exact he ((h.sess s' p' hm).symm.trans hsess)
  refine ⟨⟨?_,?_,?_⟩,hpdr,hmem⟩
  · rw [hpool]
    refine ⟨_,_,hs.release (hlive s p hp),?_⟩
    intro s' p' hp'
    obtain ⟨hm,hne⟩ := (hmem s' p').mp hp'
    exact (List.mem_erase_of_ne hne).mpr (hlive s' p' hm)
  · intro s'
    rw [hlists]
    by_cases he : s'=s
    · rw [he,update_self]
      exact (h.nodup s).erase p
    · rw [update_of_ne he]
      exact h.nodup s'
  · intro s' p' hp'
    rw [hpdr]
    exact h.sess s' p' ((hmem s' p').mp hp').1

end OgsDp.Pfcp
