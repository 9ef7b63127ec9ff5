import OgsDp.Dmf.GnbSync
import OgsDp.Dsmf.Dispatch

/-!
# gNB synchronisation from the DMF to the DSMF (src/dsmf/sbi-path.c, src/dsmf/context.c)

The DSMF reads the body that the DMF has written and hands the values to
`dsmf_context_add_gnb_with_ran_info`. A session it finds for the two ids is returned as it is.
-/

namespace OgsDp.Dsmf
open Lib OgsDp.Core Option
open Dmf (Forward forwardBody forwards)

structure GnbSync where
  gnbId : Option CStr
  sessionId : Option CStr
  ranAddr : Option CStr
  ranPort : BitVec 16
  teid : BitVec 32
  deriving DecidableEq

def parseGnbSync (content : CStr) : GnbSync where
  gnbId := stringField (ascii "gnb_id") content
  sessionId := stringField (ascii "session_id") content
  ranAddr := stringField (ascii "ran_addr") content
  ranPort := (numberField (ascii "ran_port") content).setWidth 16
  teid := numberField (ascii "teid") content

abbrev Resolve := CStr → BitVec 16 → Option Nat

/-- `dsmf_sbi_handle_gnb_sync_request`; without a result the answer is 400. -/
def handleGnbSyncRequest (resolve : Resolve) (env : Env) (c : Context) (content : CStr) :
    Outcome Context (Option (List Call)) :=
  let r:=parseGnbSync content
  match r.gnbId, r.sessionId, r.ranAddr with
  | some gnbId, some sessionId, some ranAddr =>
    if r.ranPort=0 ∨ r.teid=0 then .ok c none
    else
      (contextAddGnbWithRanInfo { env with ranAddr := resolve ranAddr r.ranPort } c
        ⟨gnbId,sessionId,r.teid⟩).bind fun c calls => .ok c (some calls)
  | _, _, _ => .ok c none

def sbiServerHandler (cJSONParse : CStr → Bool) (resolve : Resolve) (env : Env) (c : Context)
    (content : CStr) : Outcome Context (Option (List Call)) :=
  if cJSONParse content=true then handleGnbSyncRequest resolve env c content else .ok c none

def Sess.ran (s : Sess) : Option CStr × Option CStr × Option Nat × BitVec 32 :=
  (s.gnbId,s.sessionId,s.ranAddr,s.ranTeid)

structure Recorded (resolve : Resolve) (f : Forward) (c : Context) (n : Nat) : Prop where
  listed : n∈c.sessList
  gnbId : (c.sess n).gnbId=some f.gnbId
  sessionId : (c.sess n).sessionId=some f.sessionId
  ranTeid : (c.sess n).ranTeid=f.teid
  ranAddr : (c.sess n).ranAddr=resolve f.ranAddr f.ranPort
  resolved : (resolve f.ranAddr f.ranPort).isSome=true

/-- The arguments of `dsmf_sess_add_by_ran_sync`, and what it finds outside. -/
def syncEnv (resolve : Resolve) (env : Env) (f : Forward) : Env :=
  { env with ranAddr := resolve f.ranAddr f.ranPort }

def syncRequest (f : Forward) : RanSync := ⟨f.gnbId,f.sessionId,f.teid⟩

/-- The DSMF reads the values that the DMF forwarded, takes the request, and the session that it
returns holds them, whatever becomes of the event that is dispatched afterwards. -/
structure Transferred (cJSONParse : CStr → Bool) (resolve : Resolve) (env : Env) (c : Context)
    (f : Forward) : Prop where
  parsed : parseGnbSync (forwardBody f) =
    ⟨some f.gnbId,some f.sessionId,some f.ranAddr,f.ranPort,f.teid⟩
  taken : ∀ t,sbiServerHandler cJSONParse resolve env c (forwardBody f) ≠ .ok t none
  recorded : ∃ t n,sessAddByRanSync (syncEnv resolve env f) c (syncRequest f) = .ok t n ∧
    Recorded resolve f (sbiServerHandler cJSONParse resolve env c (forwardBody f)).state n

/-- A session node and two SEID nodes are free, and the new session is found under its id. -/
def CanAdd (c : Context) : Prop :=
  ∃ pool n id,c.sessPool.idCalloc=(pool,some (n,id)) ∧ n+1≤pool.size ∧
    (pool.find id).isSome=true ∧ c.dn4SeidPool.alloc.2.isSome=true ∧
    c.dn4SeidPool.alloc.1.alloc.2.isSome=true

/-- `cJSON_Parse` reads the body, port and TEID are not 0, and a session of the two ids holds the
values already or, where there is none, the address resolves and a session can be made. -/
def Transferable (cJSONParse : CStr → Bool) (resolve : Resolve) (env : Env) (c : Context)
    (f : Forward) : Prop :=
  cJSONParse (forwardBody f)=true ∧ f.ranPort≠0 ∧ f.teid≠0 ∧
    match sessFindByGnbSession c env.frame f.gnbId f.sessionId with
    | some n => Recorded resolve f c n
    | none => (resolve f.ranAddr f.ranPort).isSome=true ∧ CanAdd c

section Dispatch

variable {env : Env} {c : Context} {n : Nat} {e : Event}

def Keeps {ρ : Type} (c : Context) (o : Outcome Context ρ) : Prop :=
  o.state.sessList=c.sessList ∧ ∀ m,(o.state.sess m).ran=(c.sess m).ran

theorem keeps_self {ρ : Type} (c : Context) (r : ρ) : Keeps c (.ok c r) := ⟨rfl,fun _ => rfl⟩

theorem keeps_abort (ρ : Type) (c : Context) : Keeps c (.abort c : Outcome Context ρ) :=
  ⟨rfl,fun _ => rfl⟩

theorem keeps_modify {ρ : Type} (c : Context) (n : Nat) (f : Sess → Sess) (r : ρ)
    (hf : ∀ s,(f s).ran=s.ran) : Keeps c (.ok (c.modify n f) r) :=
  ⟨rfl,fun m => Context.modify_frame c n f m Sess.ran hf⟩

theorem Keeps.trans {ρ τ : Type} {t : Context} {r : ρ} {o : Outcome Context τ}
    (ht : Keeps c (.ok t r)) (h : Keeps t o) : Keeps c o :=
  ⟨h.1.trans ht.1,fun m => (h.2 m).trans (ht.2 m)⟩

theorem keeps_tran (c : Context) (n : Nat) (st : SmState) : Keeps c (.ok (tran c n st) ()) :=
  keeps_modify c n (fun s => { s with sm := st }) () fun _ => rfl

theorem Keeps.bind {ρ τ : Type} {o : Outcome Context ρ} {f : Context → ρ → Outcome Context τ}
    (h : Keeps c o) (hf : ∀ t r,Keeps t (f t r)) : Keeps c (o.bind f) := by
  cases o with
  | ok t r => exact h.trans (hf t r)
  | abort t => exact h

theorem keeps_establishment (c : Context) (n : Nat) :
    Keeps c (dn4HandleSessionEstablishment env c n) := by
  unfold dn4HandleSessionEstablishment
  cases env.dfNode with
  | none => exact keeps_self c ()
  | some node =>
    have hnode:=keeps_modify c n (fun s => { s with pfcpNode := some node }) () fun _ => rfl
    simp only
    split_ifs
    · exact hnode
    · exact hnode

theorem keeps_sessionState (st : SmState)
    (hid : e.id = .ranSyncRequest ∨ e.id = .entrySig ∨ e.id = .exitSig) :
    Keeps c (sessionState env st c n e) := by
  cases st with
  | initial =>
    simp only [sessionState,sessionStateInitial]
    cases sessFindById c e.sessId with
    | none => exact keeps_abort _ c
    | some sess => exact keeps_tran c n _
  | final =>
    simp only [sessionState,sessionStateFinal]
    cases sessFindById c e.sessId with
    | none => exact keeps_abort _ c
    | some sess => exact keeps_self c ()
  | waitRanSync =>
    simp only [sessionState,sessionStateWaitRanSync]
    cases sessFindById c e.sessId with
    | none => exact keeps_abort _ c
    | some sess =>
      rcases hid with hid | hid | hid
      · simp only [hid]
        exact keeps_tran c n _
      · simp only [hid]
        exact keeps_self c ()
      · simp only [hid]
        exact keeps_self c ()
  | waitPfcpEstablishment =>
    simp only [sessionState,sessionStateWaitPfcpEstablishment]
    cases sessFindById c e.sessId with
    | none => exact keeps_abort _ c
    | some sess =>
      rcases hid with hid | hid | hid
      · simp only [hid]
        exact keeps_self c ()
      · simp only [hid]
        split_ifs
        · apply Keeps.trans (keeps_modify c sess (fun s => { s with tEstablishment := true }) ()
            fun _ => rfl)
          exact keeps_establishment _ sess
        · exact keeps_abort _ c
      · simp only [hid]
        exact keeps_modify c sess (fun s => { s with tEstablishment := false }) () fun _ => rfl
  | operational =>
    simp only [sessionState,sessionStateOperational]
    cases sessFindById c e.sessId with
    | none => exact keeps_abort _ c
    | some sess =>
      rcases hid with hid | hid | hid
      · simp only [hid]
        exact keeps_self c ()
      · simp only [hid]
        exact keeps_self c ()
      · simp only [hid]
        exact keeps_self c ()
  | waitPfcpDeletion =>
    simp only [sessionState,sessionStateWaitPfcpDeletion]
    cases sessFindById c e.sessId with
    | none => exact keeps_abort _ c
    | some sess =>
      rcases hid with hid | hid | hid
      · simp only [hid]
        exact keeps_self c ()
      · simp only [hid]
        split_ifs
        · apply Keeps.trans (keeps_modify c sess (fun s => { s with tDeletion := true }) ()
            fun _ => rfl)
          unfold dn4HandleSessionDeletion
          split_ifs
          · exact keeps_self _ ()
          · exact keeps_abort _ _
        · exact keeps_abort _ c
      · simp only [hid]
        exact keeps_modify c sess (fun s => { s with tDeletion := false }) () fun _ => rfl
  | exception =>
    simp only [sessionState,sessionStateException]
    cases sessFindById c e.sessId with
    | none => exact keeps_abort _ c
    | some sess =>
      rcases hid with hid | hid | hid
      · simp only [hid]
        exact keeps_self c ()
      · simp only [hid]
        exact keeps_self c ()
      · simp only [hid]
        exact keeps_self c ()

theorem keeps_signal (st : SmState)
    (hid : e.id = .ranSyncRequest ∨ e.id = .entrySig ∨ e.id = .exitSig) :
    Keeps c (signal env st c n e) := by
  unfold signal
  apply Keeps.bind (keeps_sessionState st hid)
  intro t _
  exact keeps_self t _

theorem keeps_fsmDispatch (hid : e.id = .ranSyncRequest) : Keeps c (fsmDispatch env c n e) := by
  unfold fsmDispatch
  apply Keeps.bind (keeps_signal _ (.inl hid))
  intro t l
  split_ifs
  · apply Keeps.bind
    · unfold fsmChange fsmExit fsmEntry
      apply Keeps.bind (keeps_signal _ (.inr (.inr rfl)))
      intro u l'
      apply Keeps.bind (keeps_signal _ (.inr (.inl rfl)))
      intro v l''
      exact keeps_self v _
    · intro u l'
      exact keeps_self u _
  · exact keeps_self t l

end Dispatch

section Session

variable {env : Env} {c t : Context} {n : Nat}

theorem sessAdd_eq_ok {cpFSeid : FSeid} :
    sessAdd env c cpFSeid = .ok t n ↔
      ∃ pool id seidPool k,c.sessPool.idCalloc=(pool,some (n,id)) ∧ n+1≤pool.size ∧
        c.dn4SeidPool.alloc=(seidPool,some k) ∧ (pool.find id).isSome=true ∧
        t=sessAdded c n pool seidPool id k cpFSeid := by
  constructor
  · intro h
    unfold sessAdd at h
    split at h
    · cases h
    · rename_i pool m id hcalloc
      simp only at h
      split at h
      · rename_i hindex
        split at h
        · cases h
        · rename_i seidPool k halloc
          have hseid : c.dn4SeidPool.alloc=(seidPool,some k) := halloc
          cases hfind : pool.find id with
          | none =>
            have hget : sessFindById (sessAttach (sessCalloc c pool m id) seidPool m k cpFSeid)
                id=none := hfind
            rw [fsmInit_of_missing env _ m hget] at h
            cases h
          | some i =>
            have hget : sessFindById (sessAttach (sessCalloc c pool m id) seidPool m k cpFSeid)
                id=some i := hfind
            rw [fsmInit_of_found env _ m hget] at h
            cases h
            have hsize : n+1≤pool.size := by
              have hle:=hindex.2
              simpa [sessCalloc,Pool.poolIndex] using hle
            exact ⟨pool,id,seidPool,k,hcalloc,hsize,hseid,by rw [hfind]; rfl,rfl⟩
      · cases h
  · rintro ⟨pool,id,seidPool,k,hcalloc,hsize,halloc,hfind,rfl⟩
    obtain ⟨i,hi⟩ := isSome_iff_exists.mp hfind
    have hindex : 0<((sessCalloc c pool n id).sess n).index ∧
        ((sessCalloc c pool n id).sess n).index≤(sessCalloc c pool n id).sessPool.size := by
      simp only [sessCalloc,Function.update_self,Pool.poolIndex]
      omega
    have hseid : (sessCalloc c pool n id).dn4SeidPool.alloc=(seidPool,some k) := halloc
    have hget : sessFindById (sessAttach (sessCalloc c pool n id) seidPool n k cpFSeid) id =
        some i := hi
    unfold sessAdd
    rw [hcalloc]
    simp only
    rw [if_pos hindex,hseid]
    simp only [fsmInit_of_found env _ n hget,Outcome.bind_ok]
    rfl

theorem sessAddByRanSync_new {r : RanSync}
    (hfind : sessFindByGnbSession c env.frame r.gnbId r.sessionId=none)
    (h : sessAddByRanSync env c r = .ok t n) :
    CanAdd c ∧ n∈t.sessList ∧ (t.sess n).ran =
      (some r.gnbId,some r.sessionId,env.ranAddr,r.teid) := by
  unfold sessAddByRanSync at h
  simp only [hfind] at h
  split at h
  · cases h
  · rename_i seidPool k halloc
    cases hadd : sessAdd env { c with dn4SeidPool := seidPool }
        ⟨(c.dn4Seid k).signExtend 64,cpAddr env⟩ with
    | abort u =>
      rw [hadd] at h
      cases h
    | ok u m =>
      rw [hadd] at h
      cases h
      obtain ⟨pool,id,seidPool',k',hcalloc,hsize,halloc',hget,rfl⟩ := (sessAdd_eq_ok).mp hadd
      have halloc'' : seidPool.alloc=(seidPool',some k') := halloc'
      have hfree : CanAdd c := by
        apply Exists.intro pool
        apply Exists.intro n
        apply Exists.intro id
        rw [halloc,halloc'']
        exact ⟨hcalloc,hsize,hget,rfl,rfl⟩
      have hlist : n∈(sessAdded { c with dn4SeidPool := seidPool } n pool seidPool' id k'
          ⟨(c.dn4Seid k).signExtend 64,cpAddr env⟩).sessList := by simp
      refine ⟨hfree,hlist,?_⟩
      simp [sessBindRan,Context.modify,Sess.ran]

theorem sessAddByRanSync_returns {r : RanSync}
    (hfind : sessFindByGnbSession c env.frame r.gnbId r.sessionId=none) (h : CanAdd c) :
    ∃ t n,sessAddByRanSync env c r = .ok t n := by
  obtain ⟨pool,n,id,hcalloc,hsize,hget,halloc,halloc'⟩ := h
  rcases hk : c.dn4SeidPool.alloc with ⟨seidPool,k⟩
  rw [hk] at halloc halloc'
  obtain ⟨k,rfl⟩ := isSome_iff_exists.mp halloc
  rcases hk' : seidPool.alloc with ⟨seidPool',k'⟩
  simp only [hk'] at halloc'
  obtain ⟨k',rfl⟩ := isSome_iff_exists.mp halloc'
  have hadd : sessAdd env { c with dn4SeidPool := seidPool }
      ⟨(c.dn4Seid k).signExtend 64,cpAddr env⟩ = .ok _ n :=
    (sessAdd_eq_ok).mpr ⟨pool,id,seidPool',k',hcalloc,hsize,hk',hget,rfl⟩
  unfold sessAddByRanSync
  simp only [hfind,hk]
  rw [hadd]
  exact ⟨_,_,rfl⟩

end Session

section Transfer

variable {cJSONParse : CStr → Bool} {resolve : Resolve} {env : Env} {c t : Context} {n : Nat}
  {f : Forward}

theorem parseGnbSync_forwardBody (h : f.Plain) :
    parseGnbSync (forwardBody f) =
      ⟨some f.gnbId,some f.sessionId,some f.ranAddr,f.ranPort,f.teid⟩ := by
  unfold parseGnbSync
  rw [Dmf.gnbId_of_forwardBody h,Dmf.sessionId_of_forwardBody h,Dmf.ranAddr_of_forwardBody h,
    Dmf.ranPort_of_forwardBody h,Dmf.teid_of_forwardBody h]

theorem Recorded.iff_ran :
    Recorded resolve f c n ↔ n∈c.sessList ∧ (resolve f.ranAddr f.ranPort).isSome=true ∧
      (c.sess n).ran=(some f.gnbId,some f.sessionId,resolve f.ranAddr f.ranPort,f.teid) := by
  constructor
  · intro h
    refine ⟨h.listed,h.resolved,?_⟩
    rw [Sess.ran,h.gnbId,h.sessionId,h.ranAddr,h.ranTeid]
  · rintro ⟨hlisted,hresolved,hran⟩
    simp only [Sess.ran,Prod.mk.injEq] at hran
    exact ⟨hlisted,hran.1,hran.2.1,hran.2.2.2,hran.2.2.1,hresolved⟩

theorem Keeps.recorded {ρ : Type} {o : Outcome Context ρ} (h : Keeps c o) :
    Recorded resolve f o.state n ↔ Recorded resolve f c n := by
  rw [Recorded.iff_ran,Recorded.iff_ran,h.1,h.2 n]

theorem sbiServerHandler_taken (h : f.Plain) (hjson : cJSONParse (forwardBody f)=true)
    (hport : f.ranPort≠0) (hteid : f.teid≠0) :
    sbiServerHandler cJSONParse resolve env c (forwardBody f) =
      (contextAddGnbWithRanInfo (syncEnv resolve env f) c (syncRequest f)).bind fun c calls =>
        .ok c (some calls) := by
  unfold sbiServerHandler handleGnbSyncRequest
  rw [if_pos hjson]
  simp only [parseGnbSync_forwardBody h]
  rw [if_neg (not_or.mpr ⟨hport,hteid⟩)]
  rfl

theorem sbiServerHandler_refused (h : f.Plain)
    (hno : cJSONParse (forwardBody f)=false ∨ f.ranPort=0 ∨ f.teid=0) :
    sbiServerHandler cJSONParse resolve env c (forwardBody f) = .ok c none := by
  unfold sbiServerHandler handleGnbSyncRequest
  split_ifs with hjson
  · have hzero : f.ranPort=0 ∨ f.teid=0 := by
      rcases hno with hno | hno
      · rw [hno] at hjson
        cases hjson
      · exact hno
    simp only [parseGnbSync_forwardBody h]
    rw [if_pos hzero]
  · rfl

theorem recorded_sbiServerHandler (h : f.Plain) (hjson : cJSONParse (forwardBody f)=true)
    (hport : f.ranPort≠0) (hteid : f.teid≠0)
    (hadd : sessAddByRanSync (syncEnv resolve env f) c (syncRequest f) = .ok t n) (m : Nat) :
    Recorded resolve f (sbiServerHandler cJSONParse resolve env c (forwardBody f)).state m ↔
      Recorded resolve f t m := by
  have hmark:=keeps_modify t n (fun s => { s with ranSyncCompleted := true }) () fun _ => rfl
  have hkeeps : Keeps t (sbiServerHandler cJSONParse resolve env c (forwardBody f)) := by
    rw [sbiServerHandler_taken h hjson hport hteid,contextAddGnbWithRanInfo,hadd,
      Outcome.bind_ok]
    apply Keeps.bind
    · exact hmark.trans (keeps_fsmDispatch rfl)
    · intro u calls
      exact keeps_self u _
  exact hkeeps.recorded

theorem transferable_of_recorded
    (hadd : sessAddByRanSync (syncEnv resolve env f) c (syncRequest f) = .ok t n)
    (hrec : Recorded resolve f t n) :
    match sessFindByGnbSession c env.frame f.gnbId f.sessionId with
    | some n => Recorded resolve f c n
    | none => (resolve f.ranAddr f.ranPort).isSome=true ∧ CanAdd c := by
  cases hfind : sessFindByGnbSession c env.frame f.gnbId f.sessionId with
  | some m =>
    have hsame : sessAddByRanSync (syncEnv resolve env f) c (syncRequest f) = .ok c m := by
      unfold sessAddByRanSync
      simp only [syncEnv,syncRequest,hfind]
    rw [hsame] at hadd
    cases hadd
    exact hrec
  | none =>
    have hnone : sessFindByGnbSession c (syncEnv resolve env f).frame (syncRequest f).gnbId
        (syncRequest f).sessionId=none := hfind
    have hnew:=sessAddByRanSync_new hnone hadd
    exact ⟨hrec.resolved,hnew.1⟩

theorem recorded_of_transferable
    (h : match sessFindByGnbSession c env.frame f.gnbId f.sessionId with
      | some n => Recorded resolve f c n
      | none => (resolve f.ranAddr f.ranPort).isSome=true ∧ CanAdd c) :
    ∃ t n,sessAddByRanSync (syncEnv resolve env f) c (syncRequest f) = .ok t n ∧
      Recorded resolve f t n := by
  cases hfind : sessFindByGnbSession c env.frame f.gnbId f.sessionId with
  | some m =>
    have hsame : sessAddByRanSync (syncEnv resolve env f) c (syncRequest f) = .ok c m := by
      unfold sessAddByRanSync
      simp only [syncEnv,syncRequest,hfind]
    rw [hfind] at h
    exact ⟨c,m,hsame,h⟩
  | none =>
    rw [hfind] at h
    have hnone : sessFindByGnbSession c (syncEnv resolve env f).frame (syncRequest f).gnbId
        (syncRequest f).sessionId=none := hfind
    obtain ⟨t,n,hadd⟩ := sessAddByRanSync_returns hnone h.2
    have hnew:=sessAddByRanSync_new hnone hadd
    exact ⟨t,n,hadd,Recorded.iff_ran.mpr ⟨hnew.2.1,h.1,hnew.2.2⟩⟩

theorem Transferred.transferable (h : f.Plain) (ht : Transferred cJSONParse resolve env c f) :
    Transferable cJSONParse resolve env c f := by
  have htaken : ¬ (cJSONParse (forwardBody f)=false ∨ f.ranPort=0 ∨ f.teid=0) :=
    fun hno => ht.taken c (sbiServerHandler_refused h hno)
  rw [not_or,not_or,Bool.not_eq_false] at htaken
  obtain ⟨hjson,hport,hteid⟩ := htaken
  obtain ⟨t,n,hadd,hrec⟩ := ht.recorded
  rw [recorded_sbiServerHandler h hjson hport hteid hadd] at hrec
  exact ⟨hjson,hport,hteid,transferable_of_recorded hadd hrec⟩

theorem Transferable.transferred (h : f.Plain) (ht : Transferable cJSONParse resolve env c f) :
    Transferred cJSONParse resolve env c f := by
  obtain ⟨hjson,hport,hteid,hsession⟩ := ht
  obtain ⟨t,n,hadd,hrec⟩ := recorded_of_transferable hsession
  constructor
  · exact parseGnbSync_forwardBody h
  · intro u hu
    rw [sbiServerHandler_taken h hjson hport hteid] at hu
    cases ho : contextAddGnbWithRanInfo (syncEnv resolve env f) c (syncRequest f) with
    | ok v calls =>
      rw [ho] at hu
      cases hu
    | abort v =>
      rw [ho] at hu
      cases hu
  · exact ⟨t,n,hadd,(recorded_sbiServerHandler h hjson hport hteid hadd n).mpr hrec⟩

/-- The values of a forwarded request reach the session just when they can be transferred. -/
theorem transferred_iff {content : CStr} (hf : forwards cJSONParse content=some f) :
    Transferred cJSONParse resolve env c f ↔ Transferable cJSONParse resolve env c f := by
  have h:=Dmf.plain_of_forwards hf
  constructor
  · exact Transferred.transferable h
  · exact Transferable.transferred h

end Transfer

def syncForward (teid : BitVec 32) : Forward := ⟨strA,strB,strC,2152,teid⟩

def resolveAll : Resolve := fun _ _ => some 0

theorem transferred_iff_first :
    Transferred (fun _ => true) resolveAll envUp context2 (syncForward 1) ↔
      Transferable (fun _ => true) resolveAll envUp context2 (syncForward 1) :=
  have hf : forwards (fun _ => true) (forwardBody (syncForward 1))=some (syncForward 1) := by
    decide
  transferred_iff hf

def context2Synced : Context :=
  (sbiServerHandler (fun _ => true) resolveAll envUp context2 (forwardBody (syncForward 1))).state

/-- A second request for the same gNB and session id finds the session and leaves its TEID. -/
theorem not_transferred_again :
    forwards (fun _ => true) (forwardBody (syncForward 2))=some (syncForward 2) ∧
      ¬ Transferred (fun _ => true) resolveAll envUp context2Synced (syncForward 2) := by
  have hf : forwards (fun _ => true) (forwardBody (syncForward 2))=some (syncForward 2) := by
    decide
  have hfind : sessFindByGnbSession context2Synced envUp.frame strA strB=some 0 := by
    decide
  have hteid : (context2Synced.sess 0).ranTeid=1 := by decide
  constructor
  · exact hf
  · intro ht
    have hsession:=(ht.transferable (Dmf.plain_of_forwards hf)).2.2.2
    have hfind' : sessFindByGnbSession context2Synced envUp.frame (syncForward 2).gnbId
        (syncForward 2).sessionId=some 0 := hfind
    rw [hfind'] at hsession
    have hnew:=hsession.ranTeid
    rw [hteid] at hnew
    exact absurd hnew (by decide)

end OgsDp.Dsmf
