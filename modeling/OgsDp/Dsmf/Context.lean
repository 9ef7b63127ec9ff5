import OgsDp.Core.Pool
import OgsDp.Core.Hash
import OgsDp.Lib.Run

/-!
# DSMF sessions: tables, lookups and removal (src/dsmf/context.c)

The sessions are the nodes of `dsmf_sess_pool`; a `dsmf_sess_t *` is the subscript of its node.
-/

namespace OgsDp.Dsmf
open Lib RefTable OgsDp.Core Function

inductive SmState where
  | initial
  | final
  | waitRanSync
  | waitPfcpEstablishment
  | operational
  | waitPfcpDeletion
  | exception
  deriving DecidableEq

-- `df_dn4_f_seid`; `ip.len` is 4 and the rest of the address is zero.
structure FSeid where
  seid : BitVec 64
  addr : BitVec 32
  deriving DecidableEq

structure Sess where
  id : Nat
  index : Nat
  dsmfDn4SeidNode : Option Nat
  sm : SmState
  dsmfDn4Seid : BitVec 64
  dfDn4FSeid : FSeid
  pfcpNode : Option Nat
  gnbId : Option CStr
  sessionId : Option CStr
  ranAddr : Option Nat
  ranTeid : BitVec 32
  ranSyncCompleted : Bool
  pfcpEstablished : Bool
  sessionRef : Option (List Byte)
  tEstablishment : Bool
  tDeletion : Bool
  deriving DecidableEq

def Sess.zero : Sess where
  id := 0
  index := 0
  dsmfDn4SeidNode := none
  sm := .initial
  dsmfDn4Seid := 0
  dfDn4FSeid := ⟨0,0⟩
  pfcpNode := none
  gnbId := none
  sessionId := none
  ranAddr := none
  ranTeid := 0
  ranSyncCompleted := false
  pfcpEstablished := false
  sessionRef := none
  tEstablishment := false
  tDeletion := false

def Sess.pair (s : Sess) : Option (CStr × CStr) :=
  match s.gnbId, s.sessionId with
  | some g, some i => some (g,i)
  | _, _ => none

/-- `_dsmf_self` and the two pools. `dn4Seid` is the array of `dsmf_dn4_seid_pool`. -/
structure Context where
  sessPool : Pool
  sess : Nat → Sess
  dn4SeidPool : Pool
  dn4Seid : Nat → BitVec 32
  sessList : List Nat
  dsmfDn4SeidHash : List (Entry Nat Nat)
  dfDn4FSeidHash : List (Entry Nat Nat)
  sessionRefHash : List (Entry (List Byte) Nat)
  gnbSessionHash : List (Entry Nat Nat)
  seed : BitVec 32

-- `dsmf_context_init`; no id generator fills the SEID array, it keeps what `malloc` returned.
def contextInit (poolSess : Nat) (sess : Nat → Sess) (dn4Seid : Nat → BitVec 32)
    (seed : BitVec 32) : Context where
  sessPool := Pool.init poolSess
  sess := sess
  dn4SeidPool := Pool.init poolSess
  dn4Seid := dn4Seid
  sessList := []
  dsmfDn4SeidHash := []
  dfDn4FSeidHash := []
  sessionRefHash := []
  gnbSessionHash := []
  seed := seed

structure Frame where
  key : Nat
  stack : Nat → Byte

-- `snprintf(key, sizeof(key), "%s-%s", gnb_id, session_id)` as `strlen` then measures it.
def formatKey (gnbId sessionId : CStr) : List Byte :=
  (gnbId.bytes++45::sessionId.bytes).take 255

def formatRef (gnbId sessionId : CStr) : List Byte :=
  [100,115,109,102,45]++gnbId.bytes++45::sessionId.bytes

def Frame.format (fr : Frame) (gnbId sessionId : CStr) : Nat → Byte :=
  memWrite fr.stack fr.key (formatKey gnbId sessionId++[0])

namespace Context

def modify (c : Context) (n : Nat) (f : Sess → Sess) : Context :=
  { c with sess := update c.sess n (f (c.sess n)) }

def seidKeys (c : Context) : Keys Nat (BitVec 64) :=
  fieldKeys 8 c.seed fun n => (c.sess n).dsmfDn4Seid

def fSeidKeys (c : Context) : Keys Nat FSeid where
  hash := fun k => (hashfuncDefault c.seed
    (hostBytes 8 k.seid.toNat++hostBytes 4 k.addr.toNat)).toNat
  klen := fun _ => 40
  reads := fun n k => (c.sess n).dfDn4FSeid == k
  det := by
    intro n k k' _ h h'
    rw [beq_iff_eq] at h h'
    rw [← h,h']

def refKeys (c : Context) : Keys (List Byte) (List Byte) where
  hash := fun k => (hashfuncDefault c.seed k).toNat
  klen := List.length
  reads := fun r k => r.take k.length == k
  det := by
    intro r k k' hlen h h'
    rw [beq_iff_eq] at h h'
    rw [← h,hlen,h']

def gnbKeys (c : Context) (mem : Nat → Byte) : Keys Nat (List Byte) := strKeys c.seed mem

variable (c : Context) (n : Nat) (f : Sess → Sess)

@[simp] theorem modify_dsmfDn4SeidHash :
    (c.modify n f).dsmfDn4SeidHash=c.dsmfDn4SeidHash := rfl

@[simp] theorem modify_sess_self : (c.modify n f).sess n=f (c.sess n) :=
  update_self ..

theorem modify_sess_of_ne {m : Nat} (h : m≠n) : (c.modify n f).sess m=c.sess m :=
  update_of_ne h ..

theorem modify_frame {α : Type} (m : Nat) (g : Sess → α) (hg : ∀ s,g (f s)=g s) :
    g ((c.modify n f).sess m)=g (c.sess m) := by
  by_cases h : m=n
  · rw [h,modify_sess_self,hg]
  · rw [modify_sess_of_ne c n f h]

theorem modify_seidKeys (hf : ∀ s,(f s).dsmfDn4Seid=s.dsmfDn4Seid) :
    (c.modify n f).seidKeys=c.seidKeys := by
  have h : (fun m => ((c.modify n f).sess m).dsmfDn4Seid) = fun m => (c.sess m).dsmfDn4Seid :=
    funext fun m => modify_frame c n f m Sess.dsmfDn4Seid hf
  unfold seidKeys
  rw [h]
  rfl

end Context

def sessFindById (c : Context) (id : Nat) : Option Nat := c.sessPool.find id

def sessFindByDsmfDn4Seid (c : Context) (seid : BitVec 64) : Option Nat :=
  get c.seidKeys c.dsmfDn4SeidHash seid

def sessFindBySessionRef (c : Context) (sessionRef : List Byte) : Option Nat :=
  get c.refKeys c.sessionRefHash sessionRef

def sessFindByGnbSession (c : Context) (fr : Frame) (gnbId sessionId : CStr) : Option Nat :=
  get (c.gnbKeys (fr.format gnbId sessionId)) c.gnbSessionHash (formatKey gnbId sessionId)

def sessUnhash (c : Context) (fr : Frame) (n : Nat) : Context :=
  let s:=c.sess n
  { c with
    dsmfDn4SeidHash := unset c.seidKeys c.dsmfDn4SeidHash s.dsmfDn4Seid
    dfDn4FSeidHash := unset c.fSeidKeys c.dfDn4FSeidHash s.dfDn4FSeid
    sessionRefHash :=
      match s.sessionRef with
      | some r => unset c.refKeys c.sessionRefHash r
      | none => c.sessionRefHash
    gnbSessionHash :=
      match s.gnbId,s.sessionId with
      | some g,some i => unset (c.gnbKeys (fr.format g i)) c.gnbSessionHash (formatKey g i)
      | _,_ => c.gnbSessionHash }

def sessFree (c : Context) (n : Nat) : Context :=
  { c with
    dn4SeidPool :=
      match (c.sess n).dsmfDn4SeidNode with
      | some m => c.dn4SeidPool.release m
      | none => c.dn4SeidPool
    sessPool := c.sessPool.idFree n (c.sess n).id }

def sessUnlink (c : Context) (n : Nat) : Context :=
  { c.modify n fun s => { s with tEstablishment := false,tDeletion := false } with
    sessList := c.sessList.erase n }

/-- `dsmf_sess_remove`. The freed strings and address stay in the node as dangling pointers. -/
def sessRemove (c : Context) (fr : Frame) (n : Nat) : Outcome Context Unit :=
  let c:=sessUnhash (sessUnlink c n) fr n
  -- the assertion of `ogs_pool_id_free`
  if 1≤(c.sess n).id ∧ (c.sess n).id ≤ maxPoolId then .ok (sessFree c n) () else .abort c

section Removal

variable (c : Context) (fr : Frame) (n m : Nat)

theorem sessUnlink_frame {α : Type} (g : Sess → α)
    (hg : ∀ s,g { s with tEstablishment := false,tDeletion := false }=g s) :
    g ((sessUnlink c n).sess m)=g (c.sess m) :=
  Context.modify_frame c n _ m g hg

@[simp] theorem sessUnlink_id : ((sessUnlink c n).sess m).id=(c.sess m).id :=
  sessUnlink_frame c n m Sess.id fun _ => rfl

@[simp] theorem sessUnlink_dsmfDn4SeidNode :
    ((sessUnlink c n).sess m).dsmfDn4SeidNode=(c.sess m).dsmfDn4SeidNode :=
  sessUnlink_frame c n m Sess.dsmfDn4SeidNode fun _ => rfl

@[simp] theorem sessUnlink_dsmfDn4Seid :
    ((sessUnlink c n).sess m).dsmfDn4Seid=(c.sess m).dsmfDn4Seid :=
  sessUnlink_frame c n m Sess.dsmfDn4Seid fun _ => rfl

@[simp] theorem sessUnlink_seidKeys : (sessUnlink c n).seidKeys=c.seidKeys :=
  Context.modify_seidKeys c n (fun s => { s with tEstablishment := false,tDeletion := false })
    fun _ => rfl

def sessRemoved : Context := sessFree (sessUnhash (sessUnlink c n) fr n) n

theorem sessRemove_ok (h1 : 1≤(c.sess n).id) (h2 : (c.sess n).id ≤ maxPoolId) :
    sessRemove c fr n = .ok (sessRemoved c fr n) () := by
  have hid : ((sessUnhash (sessUnlink c n) fr n).sess n).id=(c.sess n).id := sessUnlink_id c n n
  simp only [sessRemove]
  rw [if_pos (by rw [hid]; exact ⟨h1,h2⟩)]
  rfl

theorem sessRemove_inv {t : Context} (h : sessRemove c fr n = .ok t ()) :
    t=sessRemoved c fr n := by
  simp only [sessRemove] at h
  split at h
  · exact (Outcome.ok.inj h).1.symm
  · cases h

@[simp] theorem sessRemoved_sess : (sessRemoved c fr n).sess=(sessUnlink c n).sess := rfl

@[simp] theorem sessRemoved_sessList : (sessRemoved c fr n).sessList=c.sessList.erase n := rfl

@[simp] theorem sessRemoved_seidKeys : (sessRemoved c fr n).seidKeys=c.seidKeys :=
  sessUnlink_seidKeys c n

@[simp] theorem sessRemoved_sessPool :
    (sessRemoved c fr n).sessPool=c.sessPool.idFree n (c.sess n).id := by
  rw [← sessUnlink_id c n n]
  rfl

theorem sessRemoved_dn4SeidPool {k : Nat} (h : (c.sess n).dsmfDn4SeidNode=some k) :
    (sessRemoved c fr n).dn4SeidPool=c.dn4SeidPool.release k := by
  have hnode : ((sessUnhash (sessUnlink c n) fr n).sess n).dsmfDn4SeidNode=some k :=
    (sessUnlink_dsmfDn4SeidNode c n n).trans h
  simp only [sessRemoved,sessFree,hnode]
  rfl

theorem sessRemoved_dsmfDn4SeidHash :
    (sessRemoved c fr n).dsmfDn4SeidHash =
      unset c.seidKeys c.dsmfDn4SeidHash (c.sess n).dsmfDn4Seid := by
  rw [← sessUnlink_dsmfDn4Seid c n n,← sessUnlink_seidKeys c n]
  rfl

theorem sessRemoved_pair : ((sessRemoved c fr n).sess m).pair=(c.sess m).pair :=
  sessUnlink_frame c n m Sess.pair fun _ => rfl

theorem sessRemoved_gnbSessionHash {g i : CStr} (h : (c.sess n).pair=some (g,i)) :
    (sessRemoved c fr n).gnbSessionHash =
      unset (c.gnbKeys (fr.format g i)) c.gnbSessionHash (formatKey g i) := by
  have h':=(sessUnlink_frame c n n Sess.pair fun _ => rfl).trans h
  unfold Sess.pair at h'
  cases hg : ((sessUnlink c n).sess n).gnbId with
  | none => simp [hg] at h'
  | some g' =>
    cases hi : ((sessUnlink c n).sess n).sessionId with
    | none => simp [hg,hi] at h'
    | some i' =>
      simp only [hg,hi,Option.some.injEq,Prod.mk.injEq] at h'
      obtain ⟨rfl,rfl⟩ := h'
      simp only [sessRemoved,sessFree,sessUnhash,hg,hi]
      rfl

theorem sessRemoved_gnbSessionHash_of_none (h : (c.sess n).pair=none) :
    (sessRemoved c fr n).gnbSessionHash=c.gnbSessionHash := by
  have h':=(sessUnlink_frame c n n Sess.pair fun _ => rfl).trans h
  unfold Sess.pair at h'
  cases hg : ((sessUnlink c n).sess n).gnbId with
  | none =>
    simp only [sessRemoved,sessFree,sessUnhash,hg]
    rfl
  | some g' =>
    cases hi : ((sessUnlink c n).sess n).sessionId with
    | none =>
      simp only [sessRemoved,sessFree,sessUnhash,hg,hi]
      rfl
    | some i' => simp [hg,hi] at h'

end Removal

end OgsDp.Dsmf
