import OgsDp.Amf.Context
import OgsDp.Lib.LinkedList
import OgsDp.Lib.Run

/-!
# UE contexts of the AMF (src/amf/context.c, src/amf/context.h)

`amf_ue_t`, `ran_ue_t` and `amf_sess_t` are nodes of pools and name each other by their running
ids.
-/

namespace OgsDp.Amf
open Lib RefTable LinkedList OgsDp.Core Function Option

structure PlmnId where
  mcc1 : BitVec 4
  mcc2 : BitVec 4
  mcc3 : BitVec 4
  mnc1 : BitVec 4
  mnc2 : BitVec 4
  mnc3 : BitVec 4
  deriving DecidableEq

structure NasPlmnId where
  mcc1 : BitVec 4
  mcc2 : BitVec 4
  mcc3 : BitVec 4
  mnc1 : BitVec 4
  mnc2 : BitVec 4
  mnc3 : BitVec 4
  deriving DecidableEq

structure AmfId where
  region : BitVec 8
  set1 : BitVec 8
  set2 : BitVec 2
  pointer : BitVec 6
  deriving DecidableEq

structure Guami where
  plmnId : PlmnId
  amfId : AmfId
  deriving DecidableEq

/-- `ogs_nas_5gs_guti_t`, ten packed bytes. -/
structure Guti where
  nasPlmnId : NasPlmnId
  amfId : AmfId
  mTmsi : BitVec 32
  deriving DecidableEq

def nasFromPlmnId (plmnId : PlmnId) : NasPlmnId :=
  let nas : NasPlmnId := ⟨plmnId.mcc1,plmnId.mcc2,plmnId.mcc3,plmnId.mnc2,plmnId.mnc3,
    plmnId.mnc1⟩
  if plmnId.mnc1≠0xf then
    { nas with mnc1 := plmnId.mnc1,mnc2 := plmnId.mnc2,mnc3 := plmnId.mnc3 }
  else nas

def byteOf (high low : BitVec 4) : Byte := Fin.ofNat 256 (high.toNat*16+low.toNat)

def Guti.bytes (guti : Guti) : List Byte :=
  [byteOf guti.nasPlmnId.mcc2 guti.nasPlmnId.mcc1,byteOf guti.nasPlmnId.mnc3 guti.nasPlmnId.mcc3,
    byteOf guti.nasPlmnId.mnc2 guti.nasPlmnId.mnc1,Fin.ofNat 256 guti.amfId.region.toNat,
    Fin.ofNat 256 guti.amfId.set1.toNat,
    Fin.ofNat 256 (guti.amfId.set2.toNat*64+guti.amfId.pointer.toNat)] ++
  hostBytes 4 guti.mTmsi.toNat

def zeroGuti : Guti := ⟨⟨0,0,0,0,0,0⟩,⟨0,0,0,0⟩,0⟩

/-- `amf_ue->current` and `amf_ue->next`: the node of the M-TMSI pool, and the GUTI. -/
structure GutiSlot where
  mTmsi : Option Nat
  guti : Guti
  deriving DecidableEq

structure NrCgi where
  plmnId : Vector Byte 3
  cellId : BitVec 36
  deriving DecidableEq

structure AmfUe where
  id : Nat
  ranUeId : Nat
  suci : Option Nat
  supi : Option Nat
  guami : Guami
  current : GutiSlot
  next : GutiSlot
  nrTai : Tai
  nrCgi : NrCgi
  deriving DecidableEq

inductive UeCtxRelAction where
  | invalidAction
  | ngContextRemove
  | ngRemoveAndUnlink
  | ueContextRemove
  | ngHandoverComplete
  | ngHandoverCancel
  | ngHandoverFailure
  deriving DecidableEq

inductive CauseGroup where
  | nothing
  | radioNetwork
  | transport
  | nas
  | protocol
  | misc
  | choiceExtensions
  deriving DecidableEq

structure Cause where
  group : CauseGroup
  cause : Int
  deriving DecidableEq

structure RanUe where
  id : Nat
  index : Nat
  ranUeNgapId : BitVec 64
  amfUeNgapId : BitVec 64
  sourceUeId : Nat
  targetUeId : Nat
  savedNrTai : Tai
  savedNrCgi : NrCgi
  ueCtxRelAction : UeCtxRelAction
  psimaskActivated : BitVec 16
  deactivation : Cause
  gnbId : Nat
  amfUeId : Nat
  deriving DecidableEq

structure Sess where
  id : Nat
  amfUeId : Nat
  psi : BitVec 8
  deriving DecidableEq

/-- A string of an id. `ogs_hash_set` and `ogs_hash_get` stop the process where it is empty. -/
abbrev IdStr := { s : CStr // s.bytes≠[] }

structure UeConfig where
  maxUe : Nat
  poolSess : Nat
  servedGuami : Guami

structure Ues where
  servedGuami : Guami
  amfUePool : Pool
  amfUe : Nat → AmfUe
  amfUeList : List Nat
  ranUePool : Pool
  ranUe : Nat → RanUe
  sessPool : Pool
  sess : Nat → Sess
  sessLinks : Links Nat
  sessList : Nat → Head Nat
  mTmsiPool : Pool
  mTmsi : Nat → BitVec 32
  gutiUeHash : List (Entry Nat Nat)
  suciHash : List (Entry Nat Nat)
  supiHash : List (Entry Nat Nat)
  gutiSeed : BitVec 32
  suciSeed : BitVec 32
  supiSeed : BitVec 32
  str : Nat → Option IdStr

theorem index_eq_some {p : Pool} {q live : List Nat} (h : Pool.Split p q live) {n : Nat} :
    p.index n=some n ↔ n∈live := by
  refine ⟨fun hn => ?_,h.index_live n⟩
  by_contra hnot
  rw [h.index_free n hnot] at hn
  cases hn

namespace Ues

def validId (id : Nat) : Bool := 1 ≤ id ∧ id ≤ maxPoolId

variable (s : Ues)

def gutiKeys : Keys Nat Guti where
  hash := fun k => (hashfuncDefault s.gutiSeed k.bytes).toNat
  klen := fun _ => 10
  reads := fun u k => (s.amfUe u).current.guti == k
  det := by
    intro u k k' _ h h'
    rw [beq_iff_eq] at h h'
    rw [← h,h']

/-- What memory holds at an address; a freed string has no bytes to speak of. -/
def strBytes (a : Nat) : List Byte := (s.str a).elim [] fun str => str.1.bytes

def suciKeys : Keys Nat (List Byte) := bytesKeys s.suciSeed s.strBytes

def supiKeys : Keys Nat (List Byte) := bytesKeys s.supiSeed s.strBytes

def modifyUe (u : Nat) (f : AmfUe → AmfUe) : Ues :=
  { s with amfUe := update s.amfUe u (f (s.amfUe u)) }

variable {s} in
theorem modifyUe_field {β : Type} {u : Nat} {f : AmfUe → AmfUe} (g : AmfUe → β)
    (hg : ∀ ue,g (f ue)=g ue) (w : Nat) : g ((s.modifyUe u f).amfUe w)=g (s.amfUe w) := by
  by_cases hw : w=u
  · subst hw
    simp [modifyUe,hg]
  · simp [modifyUe,hw]

def modifyRanUe (r : Nat) (f : RanUe → RanUe) : Ues :=
  { s with ranUe := update s.ranUe r (f (s.ranUe r)) }

def amfUeFindByGuti (guti : Guti) : Option Nat := RefTable.get s.gutiKeys s.gutiUeHash guti

def amfUeFindBySuci (suci : IdStr) : Option Nat :=
  RefTable.get s.suciKeys s.suciHash suci.1.bytes

def amfUeFindBySupi (supi : IdStr) : Option Nat :=
  RefTable.get s.supiKeys s.supiHash supi.1.bytes

def amfUeFindById (id : Nat) : Option Nat := s.amfUePool.findById id

def ranUeFindById (id : Nat) : Option Nat := s.ranUePool.findById id

/-- `CM_CONNECTED`: the context of the NG connection. -/
def cmConnected (u : Nat) : Option Nat :=
  if validId (s.amfUe u).ranUeId then s.ranUeFindById (s.amfUe u).ranUeId else none

def zeroPlmn : Vector Byte 3 := Vector.replicate 3 ⟨0,Nat.zero_lt_succ 255⟩

def zeroTai : Tai := ⟨zeroPlmn,0⟩

def zeroNrCgi : NrCgi := ⟨zeroPlmn,0⟩

def newRanUe (r id gnbId : Nat) (ranUeNgapId : BitVec 64) : RanUe where
  id := id
  index := Pool.poolIndex r
  ranUeNgapId := ranUeNgapId
  amfUeNgapId := BitVec.ofNat 64 (Pool.poolIndex r)
  sourceUeId := 0
  targetUeId := 0
  savedNrTai := zeroTai
  savedNrCgi := zeroNrCgi
  ueCtxRelAction := .invalidAction
  psimaskActivated := 0
  deactivation := ⟨.nothing,0⟩
  gnbId := gnbId
  amfUeId := 0

/-- `timer`: `ogs_timer_add` found a timer. -/
def ranUeAdd (gnbId maxNumOfOstreams : Nat) (ranUeNgapId : BitVec 64) (timer : Bool) :
    Outcome Ues (Option Nat) :=
  match s.ranUePool.idCalloc with
  | (pool,none) => .ok { s with ranUePool := pool } none
  | (pool,some (r,id)) =>
    if timer then
      if 2 ≤ maxNumOfOstreams then
        .ok { s with
          ranUePool := pool
          ranUe := update s.ranUe r (newRanUe r id gnbId ranUeNgapId) } (some r)
      else .abort { s with ranUePool := pool }
    else .ok { s with ranUePool := pool.idFree r id } none

def ranUeRemove (r : Nat) : Ues :=
  { s with ranUePool := s.ranUePool.idFree r (s.ranUe r).id }

def mTmsiAlloc : Outcome Ues Nat :=
  match s.mTmsiPool.alloc with
  | (pool,none) => .abort { s with mTmsiPool := pool }
  | (pool,some m) =>
    if s.mTmsi m≤0x003fffff#32 then
      let v:=(s.mTmsi m &&& 0xffff#32) ||| ((s.mTmsi m &&& 0x003f0000#32) <<< 8)
      .ok { s with
        mTmsiPool := pool
        mTmsi := update s.mTmsi m (v ||| 0xc0000000#32) } m
    else .abort { s with mTmsiPool := pool }

def mTmsiFree (m : Nat) : Ues :=
  let v:=s.mTmsi m &&& 0x3fffffff#32
  { s with
    mTmsi := update s.mTmsi m ((v &&& 0xffff#32) ||| ((v &&& 0x3f000000#32) >>> 8))
    mTmsiPool := s.mTmsiPool.release m }

def amfUeNewGuti (u : Nat) : Outcome Ues Unit :=
  if (s.amfUe u).next.mTmsi.isSome then .ok s ()
  else
    s.mTmsiAlloc.bind fun s m =>
      .ok (s.modifyUe u fun ue => { ue with
        next := ⟨some m,⟨nasFromPlmnId ue.guami.plmnId,ue.guami.amfId,s.mTmsi m⟩⟩ }) ()

/-- Give up the current GUTI: in `amf_ue_confirm_guti` and in `amf_ue_remove`. -/
def dropCurrentGuti (u : Nat) : Ues :=
  match (s.amfUe u).current.mTmsi with
  | some m =>
    mTmsiFree { s with
      gutiUeHash := RefTable.unset s.gutiKeys s.gutiUeHash (s.amfUe u).current.guti } m
  | none => s

def takeNext (u : Nat) : Ues :=
  let s:=s.modifyUe u fun ue => { ue with current := ue.next }
  { (s.modifyUe u fun ue => { ue with next := { ue.next with mTmsi := none } }) with
    gutiUeHash := RefTable.set s.gutiKeys s.gutiUeHash u (s.amfUe u).current.guti u }

def amfUeConfirmGuti (u : Nat) : Outcome Ues Unit :=
  match (s.amfUe u).next.mTmsi with
  | none => .abort s
  | some _ => .ok ((s.dropCurrentGuti u).takeNext u) ()

def amfSessAdd (u : Nat) (psi : BitVec 8) : Outcome Ues Unit :=
  if psi=0 then .abort s
  else
    match s.sessPool.idCalloc with
    | (pool,none) => .abort { s with sessPool := pool }
    | (pool,some (n,id)) =>
      .ok { s with
        sessPool := pool
        sess := update s.sess n ⟨id,(s.amfUe u).id,psi⟩
        sessLinks := (LinkedList.add s.sessLinks (s.sessList u) n).1
        sessList := update s.sessList u (LinkedList.add s.sessLinks (s.sessList u) n).2 }
        ()

def amfSessRemove (n : Nat) : Ues :=
  match s.amfUeFindById (s.sess n).amfUeId with
  | some u => { s with
      sessLinks := (LinkedList.remove s.sessLinks (s.sessList u) n).1
      sessList := update s.sessList u (LinkedList.remove s.sessLinks (s.sessList u) n).2
      sessPool := s.sessPool.idFree n (s.sess n).id }
  | none => { s with sessPool := s.sessPool.idFree n (s.sess n).id }

/-- The loop of `amf_sess_remove_all`: the next session is read before one is removed. -/
def sessRemoveFrom (s : Ues) : Nat → Option Nat → Option Ues
  | _, none => some s
  | 0, some _ => none
  | fuel+1, some n => sessRemoveFrom (s.amfSessRemove n) fuel (s.sessLinks.next n)

def amfSessRemoveAll (u : Nat) : Option Ues :=
  s.sessRemoveFrom s.sessPool.size (s.sessList u).next

def newAmfUe (id : Nat) : AmfUe where
  id := id
  ranUeId := 0
  suci := none
  supi := none
  guami := s.servedGuami
  current := ⟨none,zeroGuti⟩
  next := ⟨none,zeroGuti⟩
  nrTai := zeroTai
  nrCgi := zeroNrCgi

/-- `gnb`: the gNB of the NG connection is found; `timers`: `ogs_timer_add` found all timers. -/
def amfUeAdd (gnb timers : Bool) : Ues × Option Nat :=
  if gnb then
    match s.amfUePool.idCalloc with
    | (pool,none) => ({ s with amfUePool := pool },none)
    | (pool,some (u,id)) =>
      if timers then
        ({ s with
          amfUePool := pool
          amfUe := update s.amfUe u (s.newAmfUe id)
          sessList := update s.sessList u Head.empty
          amfUeList := s.amfUeList++[u] },some u)
      else ({ s with amfUePool := pool.idFree u id },none)
  else (s,none)

def free (a : Nat) : Ues := { s with str := update s.str a none }

def dropSuci (u : Nat) : Ues :=
  match (s.amfUe u).suci with
  | some a =>
    free { s with suciHash := RefTable.unset s.suciKeys s.suciHash (s.strBytes a) } a
  | none => s

def dropSupi (u : Nat) : Ues :=
  match (s.amfUe u).supi with
  | some a =>
    free { s with supiHash := RefTable.unset s.supiKeys s.supiHash (s.strBytes a) } a
  | none => s

def dropNextGuti (u : Nat) : Ues :=
  match (s.amfUe u).next.mTmsi with
  | some m => s.mTmsiFree m
  | none => s

def amfUeDeassociate (u : Nat) : Ues := s.modifyUe u fun ue => { ue with ranUeId := 0 }

def amfUeFree (u : Nat) : Ues :=
  { s with amfUePool := s.amfUePool.idFree u (s.amfUe u).id }

def amfUeRemove (u : Nat) : Option Ues :=
  (amfSessRemoveAll { s with amfUeList := s.amfUeList.erase u } u).map fun s =>
    let s:=((((s.dropCurrentGuti u).dropNextGuti u).dropSuci u).dropSupi u)
    (s.amfUeDeassociate u).amfUeFree u

/-- Move the sessions of `old` to `u`: each names its new UE, then the head is copied over. -/
def takeSessions (u old : Nat) : Option Ues :=
  (walk s.sessLinks s.sessPool.size (s.sessList old).next).map fun ns => { s with
    sess := fun n => if n∈ns then { s.sess n with amfUeId := (s.amfUe u).id } else s.sess n
    sessList := update (update s.sessList u (s.sessList old)) old Head.empty }

def implicitRelease (old : Nat) : Ues :=
  match s.cmConnected old with
  | some r => s.ranUeRemove r
  | none => s

/-- The part of `amf_ue_set_suci` that releases another UE with the SUCI. -/
def takeOver (u old : Nat) : Option Ues :=
  ((s.implicitRelease old).takeSessions u old).bind fun s => s.amfUeRemove old

def store (a : Nat) (str : IdStr) : Ues :=
  { s with str := update s.str a (some str) }

def takeSuci (u a : Nat) : Ues :=
  let s:=s.modifyUe u fun ue => { ue with suci := some a }
  { s with suciHash := RefTable.set s.suciKeys s.suciHash a (s.strBytes a) u }

def takeSupi (u a : Nat) : Ues :=
  let s:=s.modifyUe u fun ue => { ue with supi := some a }
  { s with supiHash := RefTable.set s.supiKeys s.supiHash a (s.strBytes a) u }

/-- `a` is the address of the string, `suci` what the mobile identity is printed as. -/
def amfUeSetSuci (u a : Nat) (suci : Option IdStr) : Option (Outcome Ues Unit) :=
  match suci with
  | none => some (.abort s)
  | some suci =>
    if (s.str a).isNone then
      let s:=s.store a suci
      let taken := match s.amfUeFindBySuci suci with
        | some old => if u≠old then s.takeOver u old else some s
        | none => some s
      taken.map fun s => .ok ((s.dropSuci u).takeSuci u a) ()
    else none

/-- `a` is the address of the copy of `supi`. -/
def amfUeSetSupi (u a : Nat) (supi : Option IdStr) : Option (Outcome Ues Unit) :=
  match supi with
  | none => some (.abort s)
  | some supi =>
    let s:=s.dropSupi u
    if (s.str a).isNone then some (.ok ((s.store a supi).takeSupi u a) ()) else none

def amfUeAssociateRanUe (u r : Nat) : Ues :=
  (s.modifyUe u fun ue => { ue with ranUeId := (s.ranUe r).id }).modifyRanUe r
    fun ranUe => { ranUe with amfUeId := (s.amfUe u).id }

def ranUeDeassociate (r : Nat) : Ues := s.modifyRanUe r fun ranUe => { ranUe with amfUeId := 0 }

def sourceUeAssociateTargetUe (source target : Nat) : Ues :=
  (s.modifyRanUe target fun ranUe => { ranUe with
    amfUeId := (s.ranUe source).amfUeId
    sourceUeId := (s.ranUe source).id }).modifyRanUe source
      fun ranUe => { ranUe with targetUeId := (s.ranUe target).id }

/-- The assertions on the two ids, and what follows them; a partner that is not found is read
through a null pointer. -/
def unlink (source target : Option Nat) : Outcome Ues Unit :=
  match source, target with
  | some source, some target =>
    if validId (s.ranUe source).targetUeId ∧ validId (s.ranUe target).sourceUeId then
      .ok ((s.modifyRanUe source fun ranUe => { ranUe with targetUeId := 0 }).modifyRanUe target
        fun ranUe => { ranUe with sourceUeId := 0 }) ()
    else .abort s
  | _, _ => .abort s

def sourceUeDeassociateTargetUe (r : Nat) : Outcome Ues Unit :=
  if validId (s.ranUe r).targetUeId then
    s.unlink (some r) (s.ranUeFindById (s.ranUe r).targetUeId)
  else if validId (s.ranUe r).sourceUeId then
    s.unlink (s.ranUeFindById (s.ranUe r).sourceUeId) (some r)
  else .ok s ()

def ueContextReleaseAction (r : Nat) : Option (Outcome Ues Unit) :=
  let amfUe:=s.amfUeFindById (s.ranUe r).amfUeId
  match (s.ranUe r).ueCtxRelAction with
  | .ngContextRemove => some (.ok (s.ranUeRemove r) ())
  | .ngRemoveAndUnlink =>
    match amfUe with
    | some u => some (.ok ((s.ranUeRemove r).amfUeDeassociate u) ())
    | none => some (.ok (s.ranUeRemove r) ())
  | .ueContextRemove =>
    match amfUe with
    | some u => ((s.ranUeRemove r).amfUeRemove u).map fun s => .ok s ()
    | none => some (.ok (s.ranUeRemove r) ())
  | .ngHandoverComplete | .ngHandoverCancel | .ngHandoverFailure =>
    some ((s.sourceUeDeassociateTargetUe r).bind fun s _ => .ok (s.ranUeRemove r) ())
  | .invalidAction => some (.ok s ())

end Ues

/-- What is called on the contexts. `setGuami` is a registration with another served GUAMI and
`releaseCommand` a UE Context Release Command. -/
inductive UeOp where
  | ranUeAdd (gnbId maxNumOfOstreams : Nat) (ranUeNgapId : BitVec 64) (timer : Bool)
  | ranUeRemove (r : Nat)
  | amfUeAdd (gnb timers : Bool)
  | amfUeRemove (u : Nat)
  | setSuci (u a : Nat) (suci : Option IdStr)
  | setSupi (u a : Nat) (supi : Option IdStr)
  | setGuami (u : Nat) (guami : Guami)
  | newGuti (u : Nat)
  | confirmGuti (u : Nat)
  | sessAdd (u : Nat) (psi : BitVec 8)
  | sessRemove (n : Nat)
  | associateRanUe (u r : Nat)
  | ranUeDeassociate (r : Nat)
  | amfUeDeassociate (u : Nat)
  | associateTargetUe (source target : Nat)
  | deassociateTargetUe (r : Nat)
  | releaseCommand (r : Nat) (action : UeCtxRelAction)
  | releaseAction (r : Nat)

namespace Ues

variable (s : Ues)

/-- `amf_context_init`; what the pools hold is what `malloc` returned, but for the M-TMSIs. -/
def init (config : UeConfig) (s : Ues) : Ues := { s with
  servedGuami := config.servedGuami
  amfUePool := Pool.init config.maxUe
  amfUeList := []
  ranUePool := Pool.init config.maxUe
  sessPool := Pool.init config.poolSess
  mTmsiPool := Pool.init (config.maxUe*2)
  gutiUeHash := []
  suciHash := []
  supiHash := [] }

/-- The calls that can be made: each is about contexts that are there. -/
def onLive : UeOp → Bool
  | .ranUeRemove r | .ranUeDeassociate r | .deassociateTargetUe r | .releaseCommand r _
  | .releaseAction r => s.ranUePool.index r=some r
  | .amfUeRemove u | .setSuci u _ _ | .setSupi u _ _ | .setGuami u _ | .newGuti u
  | .confirmGuti u | .sessAdd u _ | .amfUeDeassociate u => u∈s.amfUeList
  | .sessRemove n => s.sessPool.index n=some n
  | .associateRanUe u r => u∈s.amfUeList ∧ s.ranUePool.index r=some r
  | .associateTargetUe source target =>
    s.ranUePool.index source=some source ∧ s.ranUePool.index target=some target
  | .ranUeAdd _ _ _ _ | .amfUeAdd _ _ => true

def call : UeOp → Option (Outcome Ues Unit)
  | .ranUeAdd gnbId maxNumOfOstreams ranUeNgapId timer =>
    some ((s.ranUeAdd gnbId maxNumOfOstreams ranUeNgapId timer).bind fun s _ => .ok s ())
  | .ranUeRemove r => some (.ok (s.ranUeRemove r) ())
  | .amfUeAdd gnb timers => some (.ok (s.amfUeAdd gnb timers).1 ())
  | .amfUeRemove u => (s.amfUeRemove u).map fun s => .ok s ()
  | .setSuci u a suci => s.amfUeSetSuci u a suci
  | .setSupi u a supi => s.amfUeSetSupi u a supi
  | .setGuami u guami => some (.ok (s.modifyUe u fun ue => { ue with guami := guami }) ())
  | .newGuti u => some (s.amfUeNewGuti u)
  | .confirmGuti u => some (s.amfUeConfirmGuti u)
  | .sessAdd u psi => some (s.amfSessAdd u psi)
  | .sessRemove n => some (.ok (s.amfSessRemove n) ())
  | .associateRanUe u r => some (.ok (s.amfUeAssociateRanUe u r) ())
  | .ranUeDeassociate r => some (.ok (s.ranUeDeassociate r) ())
  | .amfUeDeassociate u => some (.ok (s.amfUeDeassociate u) ())
  | .associateTargetUe source target => some (.ok (s.sourceUeAssociateTargetUe source target) ())
  | .deassociateTargetUe r => some (s.sourceUeDeassociateTargetUe r)
  | .releaseCommand r action =>
    some (.ok (s.modifyRanUe r fun ranUe => { ranUe with ueCtxRelAction := action }) ())
  | .releaseAction r => s.ueContextReleaseAction r

def step (op : UeOp) : Option (Outcome Ues Unit) :=
  if s.onLive op then s.call op else none

def SessionsOnly (s t : Ues) : Prop :=
  ∃ pool sess links list,
    t = { s with sessPool := pool,sess := sess,sessLinks := links,sessList := list }

def RanUesOnly (s t : Ues) : Prop :=
  ∃ pool ranUe,t = { s with ranUePool := pool,ranUe := ranUe }

def GutisOnly (s t : Ues) : Prop :=
  ∃ pool mTmsi hash,t = { s with mTmsiPool := pool,mTmsi := mTmsi,gutiUeHash := hash }

def NamesOnly (s t : Ues) : Prop :=
  ∃ str suciHash supiHash,t = { s with str := str,suciHash := suciHash,supiHash := supiHash }

variable {s} {t t' : Ues}

theorem SessionsOnly.trans (h : s.SessionsOnly t) (h' : t.SessionsOnly t') :
    s.SessionsOnly t' := by
  obtain ⟨pool,sess,links,list,rfl⟩ := h
  obtain ⟨pool',sess',links',list',rfl⟩ := h'
  exact ⟨pool',sess',links',list',rfl⟩

theorem RanUesOnly.trans (h : s.RanUesOnly t) (h' : t.RanUesOnly t') : s.RanUesOnly t' := by
  obtain ⟨pool,ranUe,rfl⟩ := h
  obtain ⟨pool',ranUe',rfl⟩ := h'
  exact ⟨pool',ranUe',rfl⟩

variable (s) in
theorem amfSessRemove_sessionsOnly (n : Nat) : s.SessionsOnly (s.amfSessRemove n) := by
  unfold amfSessRemove
  cases s.amfUeFindById (s.sess n).amfUeId with
  | none => exact ⟨_,_,_,_,rfl⟩
  | some u => exact ⟨_,_,_,_,rfl⟩

theorem sessRemoveFrom_sessionsOnly {fuel : Nat} {n : Option Nat}
    (h : s.sessRemoveFrom fuel n=some t) : s.SessionsOnly t := by
  induction fuel generalizing s n with
  | zero =>
    cases n with
    | none =>
      obtain rfl : s=t := some.inj h
      exact ⟨_,_,_,_,rfl⟩
    | some n => cases h
  | succ fuel ih =>
    cases n with
    | none =>
      obtain rfl : s=t := some.inj h
      exact ⟨_,_,_,_,rfl⟩
    | some n => exact (s.amfSessRemove_sessionsOnly n).trans (ih h)

theorem amfSessRemoveAll_sessionsOnly {u : Nat} (h : s.amfSessRemoveAll u=some t) :
    s.SessionsOnly t :=
  sessRemoveFrom_sessionsOnly h

theorem GutisOnly.trans (h : s.GutisOnly t) (h' : t.GutisOnly t') : s.GutisOnly t' := by
  obtain ⟨pool,mTmsi,hash,rfl⟩ := h
  obtain ⟨pool',mTmsi',hash',rfl⟩ := h'
  exact ⟨pool',mTmsi',hash',rfl⟩

theorem NamesOnly.trans (h : s.NamesOnly t) (h' : t.NamesOnly t') : s.NamesOnly t' := by
  obtain ⟨str,suciHash,supiHash,rfl⟩ := h
  obtain ⟨str',suciHash',supiHash',rfl⟩ := h'
  exact ⟨str',suciHash',supiHash',rfl⟩

variable (s) in
theorem dropCurrentGuti_gutisOnly (u : Nat) : s.GutisOnly (s.dropCurrentGuti u) := by
  unfold dropCurrentGuti
  split
  · exact ⟨_,_,_,rfl⟩
  · exact ⟨_,_,_,rfl⟩

variable (s) in
theorem dropNextGuti_gutisOnly (u : Nat) : s.GutisOnly (s.dropNextGuti u) := by
  unfold dropNextGuti
  split
  · exact ⟨_,_,_,rfl⟩
  · exact ⟨_,_,_,rfl⟩

variable (s) in
theorem dropSuci_namesOnly (u : Nat) : s.NamesOnly (s.dropSuci u) := by
  unfold dropSuci
  split
  · exact ⟨_,_,_,rfl⟩
  · exact ⟨_,_,_,rfl⟩

variable (s) in
theorem dropSupi_namesOnly (u : Nat) : s.NamesOnly (s.dropSupi u) := by
  unfold dropSupi
  split
  · exact ⟨_,_,_,rfl⟩
  · exact ⟨_,_,_,rfl⟩

theorem amfUeNewGuti_ok {u : Nat} (h : s.amfUeNewGuti u = .ok t ()) :
    t=s ∨ ∃ s₁ next,s.GutisOnly s₁ ∧ t=s₁.modifyUe u fun ue => { ue with next := next } := by
  unfold amfUeNewGuti at h
  split at h
  · cases h
    exact .inl rfl
  · refine .inr ?_
    cases halloc : s.mTmsiAlloc with
    | abort s₁ =>
      rw [halloc] at h
      cases h
    | ok s₁ m =>
      rw [halloc] at h
      obtain rfl := (Outcome.ok.inj h).1
      refine ⟨s₁,⟨some m,⟨nasFromPlmnId (s₁.amfUe u).guami.plmnId,(s₁.amfUe u).guami.amfId,
        s₁.mTmsi m⟩⟩,?_,rfl⟩
      unfold mTmsiAlloc at halloc
      split at halloc
      · cases halloc
      · split at halloc
        · cases halloc
          exact ⟨_,_,_,rfl⟩
        · cases halloc

theorem amfUeConfirmGuti_ok {u : Nat} (h : s.amfUeConfirmGuti u = .ok t ()) :
    (s.amfUe u).next.mTmsi.isSome ∧ t=(s.dropCurrentGuti u).takeNext u := by
  unfold amfUeConfirmGuti at h
  split at h
  · cases h
  · rename_i m hm
    rw [hm]
    exact ⟨rfl,((Outcome.ok.inj h).1).symm⟩

theorem amfUeRemove_ok {u : Nat} (h : s.amfUeRemove u=some t) :
    ∃ s₁,amfSessRemoveAll { s with amfUeList := s.amfUeList.erase u } u=some s₁ ∧
      t=((((((s₁.dropCurrentGuti u).dropNextGuti u).dropSuci u).dropSupi u).amfUeDeassociate
        u).amfUeFree u) := by
  obtain ⟨s₁,hs₁,rfl⟩ := map_eq_some_iff.mp h
  exact ⟨s₁,hs₁,rfl⟩

theorem takeSessions_sessionsOnly {u old : Nat} (h : s.takeSessions u old=some t) :
    s.SessionsOnly t := by
  obtain ⟨ns,-,rfl⟩ := map_eq_some_iff.mp h
  exact ⟨_,_,_,_,rfl⟩

theorem amfUeAdd_cases {q : List Nat} (hs : Pool.Split s.amfUePool q s.amfUeList)
    (gnb timers : Bool) :
    (∃ pool q',Pool.Split pool q' s.amfUeList ∧ pool.size=s.amfUePool.size ∧
      (∀ id w,pool.findById id=some w → s.amfUePool.findById id=some w) ∧
      (∀ id,id≠nextId s.amfUePool.id 1 maxPoolId ∨ q=[] →
        pool.findById id=s.amfUePool.findById id) ∧
      (s.amfUeAdd gnb timers).1 = { s with amfUePool := pool }) ∨
    ∃ u pool q',u∉s.amfUeList ∧ Pool.Split pool q' (s.amfUeList++[u]) ∧
      pool.size=s.amfUePool.size ∧
      pool.idHash =
        update s.amfUePool.idHash (nextId s.amfUePool.id 1 maxPoolId) (some u) ∧
      (s.amfUeAdd gnb timers).1 = { s with
        amfUePool := pool
        amfUe := update s.amfUe u (s.newAmfUe (nextId s.amfUePool.id 1 maxPoolId))
        sessList := update s.sessList u Head.empty
        amfUeList := s.amfUeList++[u] } := by
  unfold amfUeAdd
  cases gnb with
  | false => exact .inl ⟨s.amfUePool,q,hs,rfl,fun _ _ h => h,fun _ _ => rfl,rfl⟩
  | true =>
    cases q with
    | nil =>
      rw [hs.idCalloc_nil]
      exact .inl ⟨s.amfUePool,[],hs,rfl,fun _ _ h => h,fun _ _ => rfl,rfl⟩
    | cons u q =>
      obtain ⟨pool,hcalloc,hsplit,hsize,-⟩ := hs.idCalloc
      have hhash:=Pool.idCalloc_idHash hcalloc
      have hu:=hs.not_live_of_free (List.mem_cons_self ..)
      rw [hcalloc]
      cases timers with
      | false =>
        have hfree:=hsplit.idFree (List.mem_append_right _ (List.mem_singleton_self u))
          (nextId s.amfUePool.id 1 maxPoolId)
        rw [List.erase_append_right _ hu,List.erase_cons_head,List.append_nil] at hfree
        have hfind : ∀ id,(pool.idFree u (nextId s.amfUePool.id 1 maxPoolId)).findById id =
            if id=nextId s.amfUePool.id 1 maxPoolId then none else s.amfUePool.findById id := by
          intro id
          rw [Pool.findById,Pool.idFree_idHash,hhash,update_idem,
            update_apply]
          rfl
        refine .inl ⟨_,_,hfree,(Pool.idFree_size ..).trans hsize,?_,?_,rfl⟩
        · intro id w hw
          rw [hfind] at hw
          split at hw
          · cases hw
          · exact hw
        · intro id hid
          rw [hfind,if_neg (hid.resolve_right (List.cons_ne_nil u q))]
      | true => exact .inr ⟨u,pool,q,hu,hsplit,hsize,hhash,rfl⟩

variable (s) in
theorem ranUeRemove_ranUesOnly (r : Nat) : s.RanUesOnly (s.ranUeRemove r) :=
  ⟨_,_,rfl⟩

variable (s) in
theorem implicitRelease_ranUesOnly (old : Nat) : s.RanUesOnly (s.implicitRelease old) := by
  unfold implicitRelease
  split
  · exact s.ranUeRemove_ranUesOnly _
  · exact ⟨_,_,rfl⟩

theorem takeOver_ok {u old : Nat} (h : s.takeOver u old=some t) :
    ∃ s₁,(s.implicitRelease old).takeSessions u old=some s₁ ∧ s₁.amfUeRemove old=some t :=
  bind_eq_some_iff.mp h

theorem amfUeSetSuci_ok {u a : Nat} {suci : Option IdStr}
    (h : s.amfUeSetSuci u a suci=some (.ok t ())) :
    ∃ x s₁,suci=some x ∧ s.str a=none ∧ t=(s₁.dropSuci u).takeSuci u a ∧
      ((∃ old,(s.store a x).amfUeFindBySuci x=some old ∧ old≠u ∧
          (s.store a x).takeOver u old=some s₁) ∨
        (∀ old,(s.store a x).amfUeFindBySuci x=some old → old=u) ∧ s₁=s.store a x) := by
  unfold amfUeSetSuci at h
  cases suci with
  | none => cases h
  | some x =>
    simp only at h
    split at h
    · rename_i hfree
      obtain ⟨s₁,hs₁,ht⟩ := map_eq_some_iff.mp h
      refine ⟨x,s₁,rfl,isNone_iff_eq_none.mp hfree,(Outcome.ok.inj ht).1.symm,?_⟩
      cases hfind : (s.store a x).amfUeFindBySuci x with
      | none =>
        rw [hfind] at hs₁
        refine .inr ⟨?_,(some.inj hs₁).symm⟩
        intro old hold
        cases hold
      | some old =>
        rw [hfind] at hs₁
        simp only at hs₁
        split at hs₁
        · rename_i hne
          exact .inl ⟨old,rfl,Ne.symm hne,hs₁⟩
        · rename_i heq
          rw [not_not] at heq
          refine .inr ⟨?_,(some.inj hs₁).symm⟩
          intro w hw
          rw [← some.inj hw,heq]
    · cases h

theorem amfUeSetSupi_ok {u a : Nat} {supi : Option IdStr}
    (h : s.amfUeSetSupi u a supi=some (.ok t ())) :
    ∃ x,supi=some x ∧ (s.dropSupi u).str a=none ∧
      t=((s.dropSupi u).store a x).takeSupi u a := by
  unfold amfUeSetSupi at h
  cases supi with
  | none => cases h
  | some x =>
    simp only at h
    split at h
    · rename_i hfree
      cases h
      exact ⟨x,rfl,isNone_iff_eq_none.mp hfree,rfl⟩
    · cases h

theorem unlink_ranUesOnly {source target : Option Nat} (h : s.unlink source target = .ok t ()) :
    s.RanUesOnly t := by
  unfold unlink at h
  split at h
  · split at h
    · cases h
      exact ⟨_,_,rfl⟩
    · cases h
  · cases h

theorem sourceUeDeassociateTargetUe_ranUesOnly {r : Nat}
    (h : s.sourceUeDeassociateTargetUe r = .ok t ()) : s.RanUesOnly t := by
  unfold sourceUeDeassociateTargetUe at h
  split at h
  · exact unlink_ranUesOnly h
  · split at h
    · exact unlink_ranUesOnly h
    · cases h
      exact ⟨_,_,rfl⟩

theorem ueContextReleaseAction_ok {r : Nat} (h : s.ueContextReleaseAction r=some (.ok t ())) :
    ((s.ranUe r).ueCtxRelAction ≠ .ueContextRemove ∨
        s.amfUeFindById (s.ranUe r).amfUeId=none) ∧ s.RanUesOnly t ∨
    (s.ranUe r).ueCtxRelAction = .ngRemoveAndUnlink ∧
      (∃ u,s.amfUeFindById (s.ranUe r).amfUeId=some u ∧
        t=(s.ranUeRemove r).amfUeDeassociate u) ∨
    (s.ranUe r).ueCtxRelAction = .ueContextRemove ∧
      ∃ u,s.amfUeFindById (s.ranUe r).amfUeId=some u ∧
        (s.ranUeRemove r).amfUeRemove u=some t := by
  have hhandover : ((s.sourceUeDeassociateTargetUe r).bind fun s _ =>
      .ok (s.ranUeRemove r) ()) = .ok t () → s.RanUesOnly t := by
    intro ho
    cases hd : s.sourceUeDeassociateTargetUe r with
    | ok s₁ _ =>
      rw [hd] at ho
      obtain rfl := (Outcome.ok.inj ho).1
      exact (sourceUeDeassociateTargetUe_ranUesOnly hd).trans (s₁.ranUeRemove_ranUesOnly r)
    | abort s₁ =>
      rw [hd] at ho
      cases ho
  unfold ueContextReleaseAction at h
  cases haction : (s.ranUe r).ueCtxRelAction with
  | invalidAction =>
    simp only [haction,some.injEq,Outcome.ok.injEq,and_true] at h
    subst h
    exact .inl ⟨.inl (by simp),_,_,rfl⟩
  | ngContextRemove =>
    simp only [haction,some.injEq,Outcome.ok.injEq,and_true] at h
    subst h
    exact .inl ⟨.inl (by simp),s.ranUeRemove_ranUesOnly r⟩
  | ngRemoveAndUnlink =>
    simp only [haction] at h
    cases hfind : s.amfUeFindById (s.ranUe r).amfUeId with
    | none =>
      simp only [hfind,some.injEq,Outcome.ok.injEq,and_true] at h
      subst h
      exact .inl ⟨.inl (by simp),s.ranUeRemove_ranUesOnly r⟩
    | some u =>
      simp only [hfind,some.injEq,Outcome.ok.injEq,and_true] at h
      exact .inr (.inl ⟨rfl,u,rfl,h.symm⟩)
  | ueContextRemove =>
    simp only [haction] at h
    cases hfind : s.amfUeFindById (s.ranUe r).amfUeId with
    | none =>
      simp only [hfind,some.injEq,Outcome.ok.injEq,and_true] at h
      subst h
      exact .inl ⟨.inr rfl,s.ranUeRemove_ranUesOnly r⟩
    | some u =>
      simp only [hfind] at h
      obtain ⟨s₁,hs₁,ho⟩ := map_eq_some_iff.mp h
      obtain rfl := (Outcome.ok.inj ho).1
      exact .inr (.inr ⟨rfl,u,rfl,hs₁⟩)
  | ngHandoverComplete | ngHandoverCancel | ngHandoverFailure =>
    simp only [haction,some.injEq] at h
    exact .inl ⟨.inl (by simp),hhandover h⟩

end Ues

def suci1 : IdStr := ⟨⟨ascii "suci-1",by decide⟩,by decide⟩

def imsi1 : IdStr := ⟨⟨ascii "imsi-1",by decide⟩,by decide⟩

def guami1 : Guami := ⟨⟨9,9,9,15,7,0⟩,⟨2,1,0,0⟩⟩

def ueConfig2 : UeConfig := ⟨2,8,guami1⟩

def ues2 : Ues := Ues.init ueConfig2 {
  servedGuami := guami1
  amfUePool := Pool.init 0
  amfUe := fun _ => ⟨0,0,none,none,guami1,⟨none,zeroGuti⟩,⟨none,zeroGuti⟩,Ues.zeroTai,
    Ues.zeroNrCgi⟩
  amfUeList := []
  ranUePool := Pool.init 0
  ranUe := fun r => Ues.newRanUe r 0 0 0
  sessPool := Pool.init 0
  sess := fun _ => ⟨0,0,0⟩
  sessLinks := ⟨fun _ => none,fun _ => none⟩
  sessList := fun _ => Head.empty
  mTmsiPool := Pool.init 0
  mTmsi := fun m => [3#32,1#32,4#32,2#32].getD m 0
  gutiUeHash := []
  suciHash := []
  supiHash := []
  gutiSeed := 0
  suciSeed := 0
  supiSeed := 0
  str := fun _ => none }

end OgsDp.Amf
