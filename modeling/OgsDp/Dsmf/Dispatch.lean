import OgsDp.Dsmf.SessionTable

/-!
# Delivery of events to the session machines (src/dsmf/dsmf-sm.c, src/dsmf/context.c)

Every handler starts by looking the session of the event up and asserting that it is there, the
EXIT and ENTRY signals included.
-/

namespace OgsDp.Dsmf
open Lib RefTable OgsDp.Core List Option

def stateOperational (env : Env) (c : Context) (e : Event) : Outcome Context (List Call) :=
  match e.id with
  | .dn4Message | .dn4Timer | .sbiMessage | .sbiTimer =>
    match sessFindById c e.sessId with
    | some n => fsmDispatch env c n e
    | none => .ok c []
  | .ranSyncRequest =>
    match e.ranSync with
    | none => .abort c
    | some r =>
      (sessAddByRanSync env c r).bind fun c n =>
        let c:=c.modify n fun s => { s with pfcpNode := s.pfcpNode.or env.peerNode }
        fsmDispatch env c n { e with sessId := (c.sess n).id }
  | _ => .ok c []

def eventNew (id : EventId) (sessId : Nat) (ranSync : Option RanSync) : Event where
  id := id
  sessId := sessId
  timerId := none
  pfcpMessage := none
  pfcpXactId := 0
  ranSync := ranSync

def contextAddGnbWithRanInfo (env : Env) (c : Context) (r : RanSync) :
    Outcome Context (List Call) :=
  (sessAddByRanSync env c r).bind fun c n =>
    let c:=c.modify n fun s => { s with ranSyncCompleted := true }
    fsmDispatch env c n (eventNew .ranSyncRequest (c.sess n).id (some r))

def sessRequest (env : Env) (c : Context) (n : Nat) (id : EventId) : Outcome Context (List Call) :=
  fsmDispatch env c n (eventNew id (c.sess n).id none)

def sessEstablish (env : Env) (c : Context) (n : Nat) : Outcome Context (List Call) :=
  sessRequest env c n .sessionEstablishmentRequest

def sessModify (env : Env) (c : Context) (n : Nat) : Outcome Context (List Call) :=
  sessRequest env c n .sessionModificationRequest

def sessDelete (env : Env) (c : Context) (n : Nat) : Outcome Context (List Call) :=
  sessRequest env c n .sessionDeletionRequest

def removes (st : SmState) (e : Event) : Bool :=
  match st, e.id with
  | .waitRanSync, .sessionDeletionRequest => true
  | .waitPfcpEstablishment, .sessionDeletionRequest => true
  | .exception, .sessionDeletionRequest => true
  | .waitPfcpDeletion, .dn4Message => e.pfcpMessage == some sessionDeletionResponse
  | .waitPfcpDeletion, .sbiTimer => e.timerId == some .sessionDeletion
  | _, _ => false

def target (st : SmState) (e : Event) : SmState :=
  match st, e.id with
  | .waitRanSync, .ranSyncRequest => .waitPfcpEstablishment
  | .waitPfcpEstablishment, .dn4Message =>
    if e.pfcpMessage=some sessionEstablishmentResponse then .operational
    else .waitPfcpEstablishment
  | .waitPfcpEstablishment, .sbiTimer =>
    if e.timerId=some .sessionEstablishment then .exception else .waitPfcpEstablishment
  | .operational, .sessionDeletionRequest => .waitPfcpDeletion
  | st, _ => st

def EstablishmentSupplied (env : Env) : Prop :=
  env.timerAdd=true ∧ (env.dfNode=none ∨ env.xact=true)

/-- What the handler and the signals after it ask for: a timer, a PFCP node, a transaction. -/
structure Supplied (env : Env) (s : Sess) (e : Event) : Prop where
  sync : s.sm = .waitRanSync → e.id = .ranSyncRequest → EstablishmentSupplied env
  message : s.sm = .operational → e.id = .dn4Message → e.pfcpXactId=0 ∨ env.xact=true
  modification : s.sm = .operational → e.id = .sessionModificationRequest →
    s.pfcpNode.isSome=true ∧ env.xact=true
  deletion : s.sm = .operational → e.id = .sessionDeletionRequest →
    env.timerAdd=true ∧ s.pfcpNode.isSome=true ∧ env.xact=true

structure Touched (c t : Context) (n : Nat) : Prop where
  sessPool : t.sessPool=c.sessPool
  sessList : t.sessList=c.sessList
  dn4SeidPool : t.dn4SeidPool=c.dn4SeidPool
  gnbSessionHash : t.gnbSessionHash=c.gnbSessionHash
  id : ∀ m,(t.sess m).id=(c.sess m).id
  sm : ∀ m,m≠n → (t.sess m).sm=(c.sess m).sm

namespace Touched

variable {c t u : Context} {n : Nat}

theorem refl (c : Context) (n : Nat) : Touched c c n :=
  ⟨rfl,rfl,rfl,rfl,fun _ => rfl,fun _ _ => rfl⟩

theorem modify (c : Context) (n : Nat) {f : Sess → Sess} (hf : ∀ s,(f s).id=s.id) :
    Touched c (c.modify n f) n where
  sessPool := rfl
  sessList := rfl
  dn4SeidPool := rfl
  gnbSessionHash := rfl
  id := fun m => Context.modify_frame c n f m Sess.id hf
  sm := fun m hm => by rw [Context.modify_sess_of_ne c n f hm]

theorem tran (c : Context) (n : Nat) (st : SmState) : Touched c (tran c n st) n :=
  modify c n fun _ => rfl

theorem trans (h : Touched c t n) (h' : Touched t u n) : Touched c u n where
  sessPool := h'.sessPool.trans h.sessPool
  sessList := h'.sessList.trans h.sessList
  dn4SeidPool := h'.dn4SeidPool.trans h.dn4SeidPool
  gnbSessionHash := h'.gnbSessionHash.trans h.gnbSessionHash
  id := fun m => (h'.id m).trans (h.id m)
  sm := fun m hm => (h'.sm m hm).trans (h.sm m hm)

end Touched

def Handles (c : Context) (n : Nat) (st : SmState) (o : Outcome Context Unit) : Prop :=
  ∃ t,o = .ok t () ∧ Touched c t n ∧ (t.sess n).sm=st ∧
    (t.sess n).pfcpNode=(c.sess n).pfcpNode

section Handlers

variable {env : Env} {c : Context} {n : Nat} {e : Event} {st : SmState}

theorem handles_stay (hsm : (c.sess n).sm=st) : Handles c n st (.ok c ()) :=
  ⟨c,rfl,Touched.refl c n,hsm,rfl⟩

theorem handles_tran (c : Context) (n : Nat) (st : SmState) :
    Handles c n st (.ok (tran c n st) ()) :=
  ⟨_,rfl,Touched.tran c n st,by simp [tran],by simp [tran]⟩

theorem handles_event (hfind : sessFindById c e.sessId=some n)
    (hst : (c.sess n).sm ≠ .initial ∧ (c.sess n).sm ≠ .final)
    (hid : e.id ≠ .entrySig ∧ e.id ≠ .exitSig) (hrem : removes (c.sess n).sm e=false)
    (hsup : Supplied env (c.sess n) e) :
    Handles c n (target (c.sess n).sm e) (sessionState env (c.sess n).sm c n e) := by
  have hstay : ∀ st,(c.sess n).sm=st → Handles c n st (.ok c ()) := fun _ => handles_stay
  cases hsm : (c.sess n).sm with
  | initial => exact absurd hsm hst.1
  | final => exact absurd hsm hst.2
  | waitRanSync =>
    simp only [sessionState,sessionStateWaitRanSync,hfind]
    simp only [removes,hsm] at hrem
    cases he : e.id <;> simp only [he,target] at hrem ⊢
    all_goals first
      | exact handles_tran c n _
      | exact hstay _ hsm
      | cases hrem
  | waitPfcpEstablishment =>
    simp only [sessionState,sessionStateWaitPfcpEstablishment,hfind]
    simp only [removes,hsm] at hrem
    cases he : e.id with
    | dn4Message =>
      by_cases hmsg : e.pfcpMessage=some sessionEstablishmentResponse
      · simp only [target,he,if_pos hmsg]
        have hset : Touched c (c.modify n fun s => { s with pfcpEstablished := true }) n :=
          Touched.modify c n fun _ => rfl
        refine ⟨_,rfl,hset.trans (Touched.tran _ n _),?_,?_⟩
        · simp [tran]
        · simp [tran]
      · simp only [target,he,if_neg hmsg]
        exact hstay _ hsm
    | sbiTimer =>
      by_cases htimer : e.timerId=some .sessionEstablishment
      · simp only [target,he,if_pos htimer]
        exact handles_tran c n _
      · simp only [target,he,if_neg htimer]
        exact hstay _ hsm
    | sessionDeletionRequest => simp [he] at hrem
    | entrySig => exact absurd he hid.1
    | exitSig => exact absurd he hid.2
    | _ =>
      simp only [target,he]
      exact hstay _ hsm
  | operational =>
    simp only [sessionState,sessionStateOperational,hfind]
    cases he : e.id with
    | dn4Message =>
      simp only [target,he,dn4HandleMessage,if_pos (hsup.message hsm he)]
      exact hstay _ hsm
    | sessionModificationRequest =>
      simp only [target,he,dn4HandleSessionModification,if_pos (hsup.modification hsm he)]
      exact hstay _ hsm
    | sessionDeletionRequest =>
      simp only [target,he]
      exact handles_tran c n _
    | _ =>
      simp only [target,he]
      exact hstay _ hsm
  | waitPfcpDeletion =>
    simp only [sessionState,sessionStateWaitPfcpDeletion,hfind]
    simp only [removes,hsm] at hrem
    cases he : e.id with
    | dn4Message | sbiTimer =>
      simp only [he,beq_eq_false_iff_ne] at hrem
      simp only [target,if_neg hrem]
      exact hstay _ hsm
    | entrySig => exact absurd he hid.1
    | exitSig => exact absurd he hid.2
    | _ =>
      simp only [target]
      exact hstay _ hsm
  | exception =>
    simp only [sessionState,sessionStateException,hfind]
    simp only [removes,hsm] at hrem
    cases he : e.id with
    | sessionDeletionRequest => simp [he] at hrem
    | _ =>
      simp only [target]
      exact hstay _ hsm

theorem handles_exit (env : Env) (hfind : sessFindById c e.sessId=some n) (old : SmState)
    (hold : old ≠ .initial ∧ old ≠ .final) :
    Handles c n (c.sess n).sm (sessionState env old c n { e with id := .exitSig }) := by
  have hwrite : ∀ f : Sess → Sess, (∀ s,(f s).id=s.id) → (∀ s,(f s).sm=s.sm) →
      (∀ s,(f s).pfcpNode=s.pfcpNode) →
      Handles c n (c.sess n).sm (.ok (c.modify n f) ()) := by
    intro f hid hsm hnode
    refine ⟨_,rfl,Touched.modify c n hid,?_,?_⟩
    · rw [Context.modify_sess_self,hsm]
    · rw [Context.modify_sess_self,hnode]
  cases old with
  | initial => exact absurd rfl hold.1
  | final => exact absurd rfl hold.2
  | waitRanSync =>
    simp only [sessionState,sessionStateWaitRanSync,hfind]
    exact handles_stay rfl
  | waitPfcpEstablishment =>
    simp only [sessionState,sessionStateWaitPfcpEstablishment,hfind]
    exact hwrite _ (fun _ => rfl) (fun _ => rfl) fun _ => rfl
  | operational =>
    simp only [sessionState,sessionStateOperational,hfind]
    exact handles_stay rfl
  | waitPfcpDeletion =>
    simp only [sessionState,sessionStateWaitPfcpDeletion,hfind]
    exact hwrite _ (fun _ => rfl) (fun _ => rfl) fun _ => rfl
  | exception =>
    simp only [sessionState,sessionStateException,hfind]
    exact handles_stay rfl

def EntrySupplied (env : Env) (s : Sess) (st : SmState) : Prop :=
  (st = .waitPfcpEstablishment → EstablishmentSupplied env) ∧
  (st = .waitPfcpDeletion →
    env.timerAdd=true ∧ s.pfcpNode.isSome=true ∧ env.xact=true)

theorem handles_entry (hfind : sessFindById c e.sessId=some n)
    (hst : (c.sess n).sm ≠ .initial ∧ (c.sess n).sm ≠ .final)
    (hsup : EntrySupplied env (c.sess n) (c.sess n).sm) :
    ∃ t,sessionState env (c.sess n).sm c n { e with id := .entrySig } = .ok t () ∧
      Touched c t n ∧ (t.sess n).sm=(c.sess n).sm := by
  cases hsm : (c.sess n).sm with
  | initial => exact absurd hsm hst.1
  | final => exact absurd hsm hst.2
  | waitRanSync =>
    simp only [sessionState,sessionStateWaitRanSync,hfind]
    exact ⟨c,rfl,Touched.refl c n,hsm⟩
  | waitPfcpEstablishment =>
    obtain ⟨htimer,hnode⟩ := hsup.1 hsm
    have hset : Touched c (c.modify n fun s => { s with tEstablishment := true }) n :=
      Touched.modify c n fun _ => rfl
    simp only [sessionState,sessionStateWaitPfcpEstablishment,hfind,htimer,if_true,
      dn4HandleSessionEstablishment]
    cases hdf : env.dfNode with
    | none => exact ⟨_,rfl,hset,by rw [Context.modify_sess_self,hsm]⟩
    | some node =>
      have hxact : env.xact=true := by
        rcases hnode with hnode | hnode
        · rw [hdf] at hnode
          cases hnode
        · exact hnode
      have hbind : Touched (c.modify n fun s => { s with tEstablishment := true })
          ((c.modify n fun s => { s with tEstablishment := true }).modify n fun s =>
            { s with pfcpNode := some node }) n := Touched.modify _ n fun _ => rfl
      simp only [hxact,if_true]
      refine ⟨_,rfl,hset.trans hbind,?_⟩
      rw [Context.modify_sess_self,Context.modify_sess_self,hsm]
  | operational =>
    simp only [sessionState,sessionStateOperational,hfind]
    exact ⟨c,rfl,Touched.refl c n,hsm⟩
  | waitPfcpDeletion =>
    obtain ⟨htimer,hnode,hxact⟩ := hsup.2 hsm
    have hset : Touched c (c.modify n fun s => { s with tDeletion := true }) n :=
      Touched.modify c n fun _ => rfl
    simp only [sessionState,sessionStateWaitPfcpDeletion,hfind,htimer,if_true,
      dn4HandleSessionDeletion,Context.modify_sess_self,hnode,hxact,and_self]
    exact ⟨_,rfl,hset,by rw [Context.modify_sess_self,hsm]⟩
  | exception =>
    simp only [sessionState,sessionStateException,hfind]
    exact ⟨c,rfl,Touched.refl c n,hsm⟩

theorem target_cases (st : SmState) (e : Event) : target st e=st ∨
    st = .waitRanSync ∧ e.id = .ranSyncRequest ∧ target st e = .waitPfcpEstablishment ∨
    st = .operational ∧ e.id = .sessionDeletionRequest ∧ target st e = .waitPfcpDeletion ∨
    target st e = .operational ∨ target st e = .exception := by
  unfold target
  split
  · rename_i he
    exact .inr (.inl ⟨rfl,he,rfl⟩)
  · split
    · exact .inr (.inr (.inr (.inl rfl)))
    · exact .inl rfl
  · split
    · exact .inr (.inr (.inr (.inr rfl)))
    · exact .inl rfl
  · rename_i he
    exact .inr (.inr (.inl ⟨rfl,he,rfl⟩))
  · exact .inl rfl

theorem target_eq_waitPfcpEstablishment (h : target st e = .waitPfcpEstablishment)
    (hne : st ≠ .waitPfcpEstablishment) : st = .waitRanSync ∧ e.id = .ranSyncRequest := by
  rcases target_cases st e with ht | ⟨hst,he,-⟩ | ⟨-,-,ht⟩ | ht | ht
  · exact absurd (ht.symm.trans h) hne
  · exact ⟨hst,he⟩
  all_goals cases ht.symm.trans h

theorem target_eq_waitPfcpDeletion (h : target st e = .waitPfcpDeletion)
    (hne : st ≠ .waitPfcpDeletion) : st = .operational ∧ e.id = .sessionDeletionRequest := by
  rcases target_cases st e with ht | ⟨-,-,ht⟩ | ⟨hst,he,-⟩ | ht | ht
  · exact absurd (ht.symm.trans h) hne
  · cases ht.symm.trans h
  · exact ⟨hst,he⟩
  all_goals cases ht.symm.trans h

theorem target_listed (hst : st ≠ .initial ∧ st ≠ .final) :
    target st e ≠ .initial ∧ target st e ≠ .final := by
  rcases target_cases st e with ht | ⟨-,-,ht⟩ | ⟨-,-,ht⟩ | ht | ht <;> rw [ht]
  · exact hst
  all_goals exact ⟨by decide,by decide⟩

theorem entrySupplied_target (hsup : Supplied env (c.sess n) e) {s : Sess}
    (hnode : s.pfcpNode=(c.sess n).pfcpNode) (hne : target (c.sess n).sm e≠(c.sess n).sm) :
    EntrySupplied env s (target (c.sess n).sm e) := by
  constructor
  · intro h
    obtain ⟨hsm,he⟩ := target_eq_waitPfcpEstablishment h fun hh => hne (h.trans hh.symm)
    exact hsup.sync hsm he
  · intro h
    obtain ⟨hsm,he⟩ := target_eq_waitPfcpDeletion h fun hh => hne (h.trans hh.symm)
    rw [hnode]
    exact hsup.deletion hsm he

theorem dispatch_completes (hn : n∈c.sessList) (hfind : sessFindById c e.sessId=some n)
    (hst : (c.sess n).sm ≠ .initial ∧ (c.sess n).sm ≠ .final)
    (hid : e.id ≠ .entrySig ∧ e.id ≠ .exitSig) (hrem : removes (c.sess n).sm e=false)
    (hsup : Supplied env (c.sess n) e) :
    ∃ t l,fsmDispatch env c n e = .ok t l ∧ (∀ call∈l,call.live=true) ∧ Touched c t n ∧
      (t.sess n).sm=target (c.sess n).sm e := by
  obtain ⟨c₁,hrun₁,ht₁,hsm₁,hnode₁⟩ := handles_event hfind hst hid hrem hsup
  by_cases hsame : target (c.sess n).sm e=(c.sess n).sm
  · refine ⟨c₁,[⟨n,(c.sess n).sm,e.id,decide (n∈c.sessList)⟩],?_,?_,ht₁,hsm₁⟩
    · simp only [fsmDispatch,signal,hrun₁,Outcome.bind_ok,hsm₁,hsame,ne_eq,not_true,
        if_false]
    · intro call hcall
      rw [mem_singleton.mp hcall]
      exact decide_eq_true hn
  · -- EXIT of the old state, then ENTRY of the new one
    have hfind₁ : sessFindById c₁ e.sessId=some n := by
      rw [sessFindById,ht₁.sessPool]
      exact hfind
    obtain ⟨c₂,hrun₂,ht₂,hsm₂,hnode₂⟩ := handles_exit env hfind₁ _ hst
    have hfind₂ : sessFindById c₂ e.sessId=some n := by
      rw [sessFindById,ht₂.sessPool]
      exact hfind₁
    have hsm : (c₂.sess n).sm=target (c.sess n).sm e := hsm₂.trans hsm₁
    have hst₂ : (c₂.sess n).sm ≠ .initial ∧ (c₂.sess n).sm ≠ .final := by
      rw [hsm]
      exact target_listed hst
    have hsup₂ : EntrySupplied env (c₂.sess n) (c₂.sess n).sm := by
      rw [hsm]
      exact entrySupplied_target hsup (hnode₂.trans hnode₁) hsame
    obtain ⟨c₃,hrun₃,ht₃,hsm₃⟩ := handles_entry hfind₂ hst₂ hsup₂
    rw [hsm₂] at hrun₃
    refine ⟨c₃,[⟨n,(c.sess n).sm,e.id,decide (n∈c.sessList)⟩] ++
      ([⟨n,(c.sess n).sm,.exitSig,decide (n∈c₁.sessList)⟩] ++
        [⟨n,(c₁.sess n).sm,.entrySig,decide (n∈c₂.sessList)⟩]),?_,?_,?_,?_⟩
    · have hchange : (c₁.sess n).sm≠(c.sess n).sm := by
        rw [hsm₁]
        exact hsame
      simp only [fsmDispatch,signal,hrun₁,Outcome.bind_ok,if_pos hchange,fsmChange,fsmExit,
        hrun₂,fsmEntry,hrun₃]
    · intro call hcall
      simp only [mem_append,mem_singleton] at hcall
      rcases hcall with rfl | rfl | rfl
      · exact decide_eq_true hn
      · exact decide_eq_true (ht₁.sessList ▸ hn)
      · exact decide_eq_true (ht₂.sessList ▸ ht₁.sessList ▸ hn)
    · exact (ht₁.trans ht₂).trans ht₃
    · exact hsm₃.trans hsm

end Handlers

inductive Input where
  | event (env : Env) (e : Event)
  | addGnbWithRanInfo (env : Env) (r : RanSync)
  | sessEstablish (env : Env) (n : Nat)
  | sessModify (env : Env) (n : Nat)
  | sessDelete (env : Env) (n : Nat)

def deliver (c : Context) : Input → Option (Outcome Context (List Call))
  | .event env e => some (stateOperational env c e)
  | .addGnbWithRanInfo env r => some (contextAddGnbWithRanInfo env c r)
  | .sessEstablish env n => if n∈c.sessList then some (sessEstablish env c n) else none
  | .sessModify env n => if n∈c.sessList then some (sessModify env c n) else none
  | .sessDelete env n => if n∈c.sessList then some (sessDelete env c n) else none

def Survives (env : Env) (s : Sess) (e : Event) : Prop :=
  removes s.sm e=false ∧ Supplied env s e

/-- A synchronisation finds its session, or the ids handed out are fewer than the nodes and two
SEID nodes are free; the state it leads to gets what it asks for. -/
structure SyncReady (env : Env) (c : Context) (r : RanSync) : Prop where
  found : ∀ n ∈ sessFindByGnbSession c env.frame r.gnbId r.sessionId,
    (c.sess n).sm = .waitRanSync → EstablishmentSupplied env
  made : sessFindByGnbSession c env.frame r.gnbId r.sessionId=none →
    c.sessPool.id<c.sessPool.size ∧ 2 ≤ c.dn4SeidPool.avail ∧ EstablishmentSupplied env

def forSession : EventId → Bool
  | .dn4Message | .dn4Timer | .sbiMessage | .sbiTimer => true
  | _ => false

def Deliverable (c : Context) : Input → Prop
  | .event env e =>
    (forSession e.id=true → ∀ n∈sessFindById c e.sessId,Survives env (c.sess n) e) ∧
      (e.id = .ranSyncRequest → ∃ r∈e.ranSync,SyncReady env c r)
  | .addGnbWithRanInfo env r => SyncReady env c r
  | .sessEstablish env n =>
    Survives env (c.sess n) (eventNew .sessionEstablishmentRequest (c.sess n).id none)
  | .sessModify env n =>
    Survives env (c.sess n) (eventNew .sessionModificationRequest (c.sess n).id none)
  | .sessDelete env n =>
    Survives env (c.sess n) (eventNew .sessionDeletionRequest (c.sess n).id none)

/-- The delivery returns, and every handler it calls is called for a session that is there. -/
def Delivered : Outcome Context (List Call) → Prop
  | .ok _ l => ∀ call∈l,call.live=true
  | .abort _ => False

instance (env : Env) : Decidable (EstablishmentSupplied env) :=
  inferInstanceAs (Decidable (_ ∧ _))

instance (env : Env) (s : Sess) (e : Event) : Decidable (Supplied env s e) :=
  decidable_of_iff
    ((s.sm = .waitRanSync → e.id = .ranSyncRequest → EstablishmentSupplied env) ∧
      (s.sm = .operational → e.id = .dn4Message → e.pfcpXactId=0 ∨ env.xact=true) ∧
      (s.sm = .operational → e.id = .sessionModificationRequest →
        s.pfcpNode.isSome=true ∧ env.xact=true) ∧
      (s.sm = .operational → e.id = .sessionDeletionRequest →
        env.timerAdd=true ∧ s.pfcpNode.isSome=true ∧ env.xact=true))
    ⟨fun h => ⟨h.1,h.2.1,h.2.2.1,h.2.2.2⟩,fun h => ⟨h.1,h.2,h.3,h.4⟩⟩

instance (env : Env) (s : Sess) (e : Event) : Decidable (Survives env s e) :=
  inferInstanceAs (Decidable (_ ∧ _))

instance (env : Env) (c : Context) (r : RanSync) : Decidable (SyncReady env c r) :=
  decidable_of_iff
    ((∀ n ∈ sessFindByGnbSession c env.frame r.gnbId r.sessionId,
        (c.sess n).sm = .waitRanSync → EstablishmentSupplied env) ∧
      (sessFindByGnbSession c env.frame r.gnbId r.sessionId=none →
        c.sessPool.id<c.sessPool.size ∧ 2 ≤ c.dn4SeidPool.avail ∧ EstablishmentSupplied env))
    ⟨fun h => ⟨h.1,h.2⟩,fun h => ⟨h.1,h.2⟩⟩

instance (c : Context) : ∀ i,Decidable (Deliverable c i)
  | .event env e => inferInstanceAs (Decidable
      ((forSession e.id=true → ∀ n∈sessFindById c e.sessId,Survives env (c.sess n) e) ∧
        (e.id = .ranSyncRequest → ∃ r∈e.ranSync,SyncReady env c r)))
  | .addGnbWithRanInfo env r => inferInstanceAs (Decidable (SyncReady env c r))
  | .sessEstablish env n => inferInstanceAs (Decidable (Survives env (c.sess n) _))
  | .sessModify env n => inferInstanceAs (Decidable (Survives env (c.sess n) _))
  | .sessDelete env n => inferInstanceAs (Decidable (Survives env (c.sess n) _))

instance : ∀ o,Decidable (Delivered o)
  | .ok _ l => inferInstanceAs (Decidable (∀ call∈l,call.live=true))
  | .abort _ => isFalse id

structure Running (c : Context) : Prop where
  aligned : Aligned ⟨c,[]⟩
  seidNodes : ∃ q nodes,Pool.Split c.dn4SeidPool q nodes
  started : ∀ n∈c.sessList,(c.sess n).sm ≠ .initial ∧ (c.sess n).sm ≠ .final
  table : ∀ e∈c.gnbSessionHash,e.val∈c.sessList

namespace Running

variable {c t : Context} {n : Nat}

theorem init {poolSess : Nat} (h : poolSess ≤ maxPoolId) (sess : Nat → Sess)
    (dn4Seid : Nat → BitVec 32) (seed : BitVec 32) :
    Running (contextInit poolSess sess dn4Seid seed) where
  aligned := Aligned.init h sess dn4Seid seed
  seidNodes := ⟨_,_,Pool.split_init poolSess⟩
  started := by simp [contextInit]
  table := by simp [contextInit]

theorem touched (h : Running c) (ht : Touched c t n)
    (hsm : (t.sess n).sm ≠ .initial ∧ (t.sess n).sm ≠ .final) : Running t where
  aligned := h.aligned.congr ht.sessPool ht.sessList ht.id rfl
  seidNodes := by rw [ht.dn4SeidPool]; exact h.seidNodes
  started := by
    intro m hm
    by_cases he : m=n
    · rw [he]
      exact hsm
    · rw [ht.sm m he]
      exact h.started m (ht.sessList ▸ hm)
  table := by rw [ht.gnbSessionHash,ht.sessList]; exact h.table

theorem find (h : Running c) (hn : n∈c.sessList) :
    sessFindById c (c.sess n).id=some n :=
  h.aligned.findsById.1 n hn

theorem mem_of_find (h : Running c) {id : Nat} (hf : sessFindById c id=some n) :
    n∈c.sessList := by
  obtain ⟨freed,hs⟩ := h.aligned.split
  rw [sessFindById,hs.find_eq] at hf
  split at hf
  · rename_i hin
    rw [← some.inj hf]
    exact hin.2
  · cases hf

theorem dispatch (h : Running c) {env : Env} {e : Event} (hn : n∈c.sessList)
    (hfind : sessFindById c e.sessId=some n) (hid : e.id ≠ .entrySig ∧ e.id ≠ .exitSig)
    (hs : Survives env (c.sess n) e) :
    Delivered (fsmDispatch env c n e) ∧ (fsmDispatch env c n e).Leaves Running fun _ => True := by
  obtain ⟨t,l,hrun,hlive,ht,hsm⟩ :=
    dispatch_completes hn hfind (h.started n hn) hid hs.1 hs.2
  rw [hrun]
  refine ⟨hlive,h.touched ht ?_⟩
  rw [hsm]
  exact target_listed (h.started n hn)

theorem sync (h : Running c) {env : Env} {r : RanSync} (hready : SyncReady env c r) :
    ∃ t n,sessAddByRanSync env c r = .ok t n ∧ Running t ∧ n∈t.sessList ∧
      ((t.sess n).sm = .waitRanSync → EstablishmentSupplied env) := by
  unfold sessAddByRanSync
  cases hfind : sessFindByGnbSession c env.frame r.gnbId r.sessionId with
  | some n =>
    obtain ⟨e,he,hval⟩ := get_mem hfind
    exact ⟨c,n,rfl,h,hval ▸ h.table e he,hready.found n hfind⟩
  | none =>
    obtain ⟨hlt,havail,hsup⟩ := hready.made hfind
    obtain ⟨q,nodes,hseid⟩ := h.seidNodes
    have hlen:=hseid.queue.length_eq
    -- one node for the CP F-SEID and one for the session
    obtain ⟨k₁,k₂,q,rfl⟩ : ∃ k₁ k₂ q',q=k₁::k₂::q' := by
      match q, hlen with
      | [], hlen => simp at hlen; omega
      | [_], hlen => simp at hlen; omega
      | k₁::k₂::q', _ => exact ⟨k₁,k₂,q',rfl⟩
    obtain ⟨p₁,halloc₁,hsplit₁,-,-,-⟩ := hseid.alloc
    obtain ⟨p₂,halloc₂,hsplit₂,-,-,-⟩ := hsplit₁.alloc
    have hal : Aligned ⟨{ c with dn4SeidPool := p₁ },[]⟩ :=
      h.aligned.congr rfl rfl (fun _ => rfl) rfl
    simp only [halloc₁]
    rcases hal.sessAdd_next env ⟨(c.dn4Seid k₁).signExtend 64,cpAddr env⟩ hlt with
      ⟨hno,-⟩ | ⟨k,pool,-,hadd,hnext⟩
    · rw [halloc₂] at hno
      cases hno
    · rw [hadd]
      refine ⟨_,_,rfl,⟨?_,?_,?_,?_⟩,?_,fun _ => hsup⟩
      · exact hnext.congr rfl rfl (sessBindRan_id env _ _ r) rfl
      · rw [halloc₂]
        exact ⟨_,_,hsplit₂⟩
      · intro m hm
        rw [sessBindRan_frame env _ _ r Sess.sm (fun _ _ => rfl) m]
        by_cases he : m=c.sessPool.id
        · rw [he,sessAdded_sm_self]
          exact ⟨by decide,by decide⟩
        · rw [sessAdded_sess_of_ne _ _ _ _ _ _ _ m he]
          rcases mem_append.mp hm with hm | hm
          · exact h.started m hm
          · exact absurd (mem_singleton.mp hm) he
      · intro e he
        rcases mem_set he with hval | he
        · rw [hval]
          exact mem_append_right _ (mem_singleton_self _)
        · exact mem_append_left _ (h.table e he)
      · exact mem_append_right _ (mem_singleton_self _)

theorem dispatch_ranSync (h : Running c) {env : Env} {e : Event} (hn : n∈c.sessList)
    (hid : e.id = .ranSyncRequest) (hsess : e.sessId=(c.sess n).id)
    (hsup : (c.sess n).sm = .waitRanSync → EstablishmentSupplied env) :
    Delivered (fsmDispatch env c n e) ∧ (fsmDispatch env c n e).Leaves Running fun _ => True := by
  have hrem : removes (c.sess n).sm e=false := by
    cases (c.sess n).sm <;> simp [removes,hid]
  have hsupplied : Supplied env (c.sess n) e :=
    ⟨fun hsm _ => hsup hsm,by simp [hid],by simp [hid],by simp [hid]⟩
  refine h.dispatch hn ?_ ?_ ⟨hrem,hsupplied⟩
  · rw [hsess]
    exact h.find hn
  · rw [hid]
    exact ⟨by decide,by decide⟩

theorem sync_dispatch (h : Running c) {env : Env} {r : RanSync} (hready : SyncReady env c r)
    {f : Sess → Sess} (hid : ∀ s,(f s).id=s.id) (hsm : ∀ s,(f s).sm=s.sm) {e : Nat → Event}
    (he : ∀ i,(e i).id = .ranSyncRequest ∧ (e i).sessId=i) {o : Outcome Context (List Call)}
    (ho : o=(sessAddByRanSync env c r).bind fun c n =>
      fsmDispatch env (c.modify n f) n (e ((c.modify n f).sess n).id)) :
    Delivered o ∧ o.Leaves Running fun _ => True := by
  obtain ⟨t,n,hsync,hrun,hn,hsup⟩ := h.sync hready
  have hsame : ((t.modify n f).sess n).sm=(t.sess n).sm := by
    rw [Context.modify_sess_self,hsm]
  rw [ho,hsync,Outcome.bind_ok]
  refine (hrun.touched (Touched.modify t n hid) ?_).dispatch_ranSync hn (he _).1 (he _).2 ?_
  · rw [hsame]
    exact hrun.started n hn
  · rw [hsame]
    exact hsup

theorem delivered_nil (h : Running c) :
    Delivered (.ok c []) ∧ Outcome.Leaves Running (fun _ => True)
      (.ok c [] : Outcome Context (List Call)) := by
  refine ⟨?_,h⟩
  intro call hcall
  cases hcall

theorem event (h : Running c) {env : Env} {e : Event} (hc : Deliverable c (.event env e)) :
    Delivered (stateOperational env c e) ∧
      (stateOperational env c e).Leaves Running fun _ => True := by
  have hsession : (∀ n∈sessFindById c e.sessId,Survives env (c.sess n) e) →
      e.id ≠ .entrySig ∧ e.id ≠ .exitSig → ∀ o : Outcome Context (List Call),
      (o = match sessFindById c e.sessId with
        | some n => fsmDispatch env c n e
        | none => .ok c []) → Delivered o ∧ o.Leaves Running fun _ => True := by
    intro hs hid o ho
    rw [ho]
    cases hfind : sessFindById c e.sessId with
    | none => exact h.delivered_nil
    | some n => exact h.dispatch (h.mem_of_find hfind) hfind hid (hs n hfind)
  obtain ⟨hs,hr⟩ := hc
  unfold stateOperational
  cases he : e.id with
  | dn4Message | dn4Timer | sbiMessage | sbiTimer =>
    exact hsession (hs (by rw [he]; rfl)) ⟨by simp [he],by simp [he]⟩ _ rfl
  | ranSyncRequest =>
    obtain ⟨r,hr,hready⟩ := hr he
    have hr' : e.ranSync=some r := hr
    simp only [hr']
    exact h.sync_dispatch hready (f := fun s => { s with pfcpNode := s.pfcpNode.or env.peerNode })
      (e := fun i => { e with id := .ranSyncRequest,sessId := i,ranSync := some r })
      (fun _ => rfl) (fun _ => rfl) (fun _ => ⟨rfl,rfl⟩) rfl
  | _ => exact h.delivered_nil

end Running

theorem running_step (c : Context) (i : Input) (o : Outcome Context (List Call)) (h : Running c)
    (hc : Deliverable c i) (hstep : deliver c i=some o) :
    Delivered o ∧ o.Leaves Running fun _ => True := by
  have hrequest : ∀ {env n id},id ≠ .entrySig ∧ id ≠ .exitSig →
      Survives env (c.sess n) (eventNew id (c.sess n).id none) →
      (if n∈c.sessList then some (sessRequest env c n id) else none)=some o →
      Delivered o ∧ o.Leaves Running fun _ => True := by
    intro env n id hid hs hreq
    split at hreq
    · rename_i hn
      rw [← some.inj hreq]
      exact h.dispatch hn (h.find hn) hid hs
    · cases hreq
  cases i with
  | event env e =>
    rw [← some.inj hstep]
    exact h.event hc
  | addGnbWithRanInfo env r =>
    rw [← some.inj hstep]
    exact h.sync_dispatch hc (f := fun s => { s with ranSyncCompleted := true })
      (e := fun i => eventNew .ranSyncRequest i (some r))
      (fun _ => rfl) (fun _ => rfl) (fun _ => ⟨rfl,rfl⟩) rfl
  | sessEstablish env n => exact hrequest ⟨by decide,by decide⟩ hc hstep
  | sessModify env n => exact hrequest ⟨by decide,by decide⟩ hc hstep
  | sessDelete env n => exact hrequest ⟨by decide,by decide⟩ hc hstep

/-- In a run of events that no session is removed by, with what the handlers ask for supplied,
every delivery returns and calls handlers for listed sessions only. -/
theorem delivered_run {poolSess : Nat} (hsize : poolSess ≤ maxPoolId) (sess : Nat → Sess)
    (dn4Seid : Nat → BitVec 32) (seed : BitVec 32) (inputs : List Input)
    (hinputs : EachStep deliver Deliverable (contextInit poolSess sess dn4Seid seed) inputs) :
    EachOutcome deliver (fun _ _ o => Delivered o) (contextInit poolSess sess dn4Seid seed)
      inputs :=
  eachOutcome_inv running_step (Running.init hsize sess dn4Seid seed) hinputs

def envUp : Env := { env0 with dfNode := some 0,peerNode := some 0 }

def context2 : Context := contextInit 2 (fun _ => Sess.zero) (fun k => BitVec.ofNat 32 (k+1)) 0

def ranSyncAB : RanSync := ⟨strA,strB,1⟩

def establishmentResponse : Event :=
  { eventNew .dn4Message 1 none with pfcpMessage := some sessionEstablishmentResponse }

def deletionResponse : Event :=
  { eventNew .dn4Message 1 none with pfcpMessage := some sessionDeletionResponse }

theorem delivered_run_establishment :
    EachOutcome deliver (fun _ _ o => Delivered o) context2
      [.addGnbWithRanInfo envUp ranSyncAB,.event envUp establishmentResponse] := by
  exact delivered_run (by decide) _ _ _ _ (by decide)

/-- A gNB synchronisation, the establishment response, a deletion request and its response: the
last of them removes the session, and the EXIT signal to it hits an assertion. -/
theorem delivered_run_deletion :
    ¬ EachOutcome deliver (fun _ _ o => Delivered o) context2
      [.addGnbWithRanInfo envUp ranSyncAB,.event envUp establishmentResponse,
        .sessDelete envUp 0,.event envUp deletionResponse] := by
  decide

end OgsDp.Dsmf
