import OgsDp.Core.PoolHolders
import OgsDp.Core.Store
import OgsDp.Lib.LinkedList
import OgsDp.Lib.Run

/-!
# SBI transactions (lib/sbi/context.c, src/amf/context.c, src/smf/context.c)

A transaction is a node of `xact_pool` in the `xact_list` of a context, and keeps a pointer to
that context and its id.
-/

namespace OgsDp.Sbi

open OgsDp.Core Lib LinkedList Function

inductive ContextKind where
  | smfSess
  | amfUe
  | amfSess
  deriving DecidableEq

/-- A pointer to a context: its pool and its subscript there. -/
abbrev Owner := ContextKind × Nat

/-- `ogs_sbi_object_t` and the id of the context that it is part of. -/
structure Object where
  id : Nat
  xactList : Head Nat

structure Xact where
  id : Nat
  sbiObjectId : Nat
  sbiObject : Owner

instance : Housed Xact Owner where
  home := Xact.sbiObject
  ident := Xact.id

structure State where
  xactPool : Pool
  xact : Nat → Xact
  /-- `lnode` of the transactions. -/
  links : Links Nat
  pool : ContextKind → Pool
  object : Owner → Object

namespace State

/-- `ogs_sbi_context_init`, `amf_context_init`, `smf_context_init`. -/
def init (xacts : Nat) (contexts : ContextKind → Nat) : State where
  xactPool := Pool.init xacts
  xact := fun _ => ⟨0,0,(.smfSess,0)⟩
  links := ⟨fun _ => none,fun _ => none⟩
  pool := fun k => Pool.init (contexts k)
  object := fun _ => ⟨0,Head.empty⟩

def Live (s : State) (o : Owner) : Prop := (s.pool o.1).index o.2=some o.2

def LiveXact (s : State) (r : Nat) : Prop := s.xactPool.index r=some r

instance (s : State) (o : Owner) : Decidable (s.Live o) := inferInstanceAs (Decidable (_=_))

instance (s : State) (r : Nat) : Decidable (s.LiveXact r) := inferInstanceAs (Decidable (_=_))

/-- `ogs_pool_id_calloc` of a context, whose `xact_list` is cleared with it. -/
def contextCalloc (s : State) (k : ContextKind) : State × Option Nat :=
  match (s.pool k).idCalloc with
  | (p,none) => ({ s with pool := update s.pool k p },none)
  | (p,some (i,id)) =>
    ({ s with
        pool := update s.pool k p
        object := update s.object (k,i) ⟨id,Head.empty⟩ },some i)

def contextFree (s : State) (o : Owner) : State :=
  { s with pool := update s.pool o.1 ((s.pool o.1).idFree o.2 (s.object o).id) }

def smfSessAdd (s : State) : State × Option Nat := s.contextCalloc .smfSess

/-- `timers` tells whether every `ogs_timer_add` succeeds. -/
def amfUeAdd (s : State) (timers : Bool) : State × Option Nat :=
  match s.contextCalloc .amfUe with
  | (s,none) => (s,none)
  | (s,some i) => if timers then (s,some i) else (s.contextFree (.amfUe,i),none)

def amfSessAdd (s : State) : Outcome State (Option Nat) :=
  match s.contextCalloc .amfSess with
  | (s,some i) => .ok s (some i)
  | (s,none) => .abort s

-- `ogs_sbi_object_free` logs the transactions that are left in the list and leaves them there.
def smfSessRemove (s : State) (i : Nat) : State := s.contextFree (.smfSess,i)

def amfSessRemove (s : State) (i : Nat) : State := s.contextFree (.amfSess,i)

/-- `sessions` is what the `sess_list` of the UE holds. -/
def amfUeRemove (s : State) (i : Nat) (sessions : List Nat) : State :=
  (sessions.foldl amfSessRemove s).contextFree (.amfUe,i)

/-- What the build function makes: a request for the service, which includes that there is no
build function, nothing, or a request with the name of another service. -/
inductive Built where
  | request
  | nothing
  | otherService
  deriving DecidableEq

def setXactList (s : State) (o : Owner) (l : Links Nat × Head Nat) : State :=
  { s with
    links := l.1
    object := update s.object o { s.object o with xactList := l.2 } }

def xactCalloc (s : State) (p : Pool) (r : Nat) (x : Xact) : State :=
  { s with
    xactPool := p
    xact := update s.xact r x
    links := (s.links.setPrev r none).setNext r none }

def xactFree (s : State) (r : Nat) : State :=
  { s with xactPool := s.xactPool.idFree r (s.xact r).id }

/-- `ogs_sbi_xact_add` with the id of the context, as the AMF and the SMF call it; `timer` tells
whether `ogs_timer_add` succeeds. -/
def xactAdd (s : State) (o : Owner) (timer : Bool) (built : Built) :
    Outcome State (Option Nat) :=
  match s.xactPool.idCalloc with
  | (p,none) => .ok { s with xactPool := p } none
  | (p,some (r,id)) =>
    let s:=s.xactCalloc p r ⟨id,(s.object o).id,o⟩
    if timer then
      match built with
      | .request => .ok (s.setXactList o (LinkedList.add s.links (s.object o).xactList r)) (some r)
      | .nothing => .ok (s.xactFree r) none
      | .otherService => .abort s
    else .ok (s.xactFree r) none

def xactRemove (s : State) (r : Nat) : State :=
  let o:=(s.xact r).sbiObject
  (s.setXactList o (LinkedList.remove s.links (s.object o).xactList r)).xactFree r

def xactRemoveFrom : Nat → State → Option Nat → Option State
  | _, s, none => some s
  | 0, _, some _ => none
  | fuel+1, s, some r => xactRemoveFrom fuel (s.xactRemove r) (s.links.next r)

def xactRemoveAll (s : State) (o : Owner) : Option State :=
  xactRemoveFrom s.xactPool.size s (s.object o).xactList.next

/-- A timer that has expired or a response that has come in finds its transaction by id, if it
is still there. -/
def xactFinish (s : State) (id : Nat) : State :=
  match s.xactPool.findById id with
  | none => s
  | some r => s.xactRemove r

end State

inductive Event where
  | smfSessAdd
  | amfUeAdd (timers : Bool)
  | amfSessAdd
  | smfSessRemove (i : Nat)
  | amfSessRemove (i : Nat)
  | amfUeRemove (i : Nat) (sessions : List Nat)
  | xactAdd (o : Owner) (timer : Bool) (built : State.Built)
  | xactRemove (r : Nat)
  | xactRemoveAll (o : Owner)
  | clientWaitExpire (id : Nat)
  | response (id : Nat)

def Event.removed : Event → List Owner
  | .smfSessRemove i => [(.smfSess,i)]
  | .amfSessRemove i => [(.amfSess,i)]
  | .amfUeRemove i sessions => sessions.map (.amfSess,·)++[(.amfUe,i)]
  | _ => []

namespace State

def Callable (s : State) : Event → Prop
  | .smfSessRemove i => s.Live (.smfSess,i)
  | .amfSessRemove i => s.Live (.amfSess,i)
  | .amfUeRemove i sessions =>
    s.Live (.amfUe,i) ∧ sessions.Nodup ∧ ∀ j∈sessions,s.Live (.amfSess,j)
  | .xactAdd o _ _ => s.Live o
  | .xactRemove r => s.LiveXact r
  | .xactRemoveAll o => s.Live o
  | _ => True

instance (s : State) : (e : Event) → Decidable (s.Callable e)
  | .smfSessAdd => isTrue trivial
  | .amfUeAdd _ => isTrue trivial
  | .amfSessAdd => isTrue trivial
  | .smfSessRemove i => inferInstanceAs (Decidable (s.Live (.smfSess,i)))
  | .amfSessRemove i => inferInstanceAs (Decidable (s.Live (.amfSess,i)))
  | .amfUeRemove i sessions => inferInstanceAs (Decidable (s.Live (.amfUe,i) ∧
      sessions.Nodup ∧ ∀ j∈sessions,s.Live (.amfSess,j)))
  | .xactAdd o _ _ => inferInstanceAs (Decidable (s.Live o))
  | .xactRemove r => inferInstanceAs (Decidable (s.LiveXact r))
  | .xactRemoveAll o => inferInstanceAs (Decidable (s.Live o))
  | .clientWaitExpire _ => isTrue trivial
  | .response _ => isTrue trivial

def perform (s : State) : Event → Option (Outcome State (Option Nat))
  | .smfSessAdd => some (.ok s.smfSessAdd.1 s.smfSessAdd.2)
  | .amfUeAdd timers => some (.ok (s.amfUeAdd timers).1 (s.amfUeAdd timers).2)
  | .amfSessAdd => some s.amfSessAdd
  | .smfSessRemove i => some (.ok (s.smfSessRemove i) none)
  | .amfSessRemove i => some (.ok (s.amfSessRemove i) none)
  | .amfUeRemove i sessions => some (.ok (s.amfUeRemove i sessions) none)
  | .xactAdd o timer built => some (s.xactAdd o timer built)
  | .xactRemove r => some (.ok (s.xactRemove r) none)
  | .xactRemoveAll o => (s.xactRemoveAll o).map fun t => .ok t none
  | .clientWaitExpire id => some (.ok (s.xactFinish id) none)
  | .response id => some (.ok (s.xactFinish id) none)

def step (s : State) (e : Event) : Option (Outcome State (Option Nat)) :=
  if s.Callable e then s.perform e else none

/-- No context is removed while its list has a transaction: `ogs_sbi_object_free` finds nothing
to log. -/
def Clean (s : State) (e : Event) : Prop :=
  s.Callable e → ∀ o∈e.removed,(s.object o).xactList.next=none

/-- The transaction was added for this context, by its pointer and its id. -/
def AddedFor (s : State) (r : Nat) (o : Owner) : Prop :=
  (s.xact r).sbiObject=o ∧ (s.xact r).sbiObjectId=(s.object o).id

/-- The lists of the contexts in use are well formed, and each transaction in use is in the list
of the one context it was added for, which is in use. -/
structure Listed (s : State) (list : Owner → List Nat) : Prop where
  chained : ∀ o,s.Live o → Chained s.links (s.object o).xactList (list o)
  members : ∀ o,s.Live o → ∀ r,r∈list o ↔ s.LiveXact r ∧ s.AddedFor r o
  owned : ∀ r,s.LiveXact r → ∃ o,s.Live o ∧ s.AddedFor r o

/-- Removing a transaction leaves the lists of the contexts that it was not added for. -/
def LeavesOthers (s : State) : Prop :=
  ∀ r,s.LiveXact r → ∀ o,s.Live o → ¬ s.AddedFor r o →
    (s.xactRemove r).object o=s.object o ∧
      ∀ l,Chained s.links (s.object o).xactList l →
        Chained (s.xactRemove r).links ((s.xactRemove r).object o).xactList l

structure Kept (s : State) : Prop where
  listed : ∃ list,s.Listed list
  leavesOthers : s.LeavesOthers

end State

end OgsDp.Sbi
