import OgsDp.Core.Conv
import OgsDp.Pfcp.UeIp

/-!
# UEs and sessions of the SMF (src/smf/context.c)

The UEs and the sessions are the nodes of two pools, and each UE lists its sessions.
-/

namespace OgsDp.Smf
open Lib RefTable OgsDp.Core Pfcp Function

def maxImsiLen : Nat := 8

inductive IpVersion where
  | v4
  | v6
  deriving DecidableEq

namespace IpVersion

def family : IpVersion → Family
  | .v4 => .inet
  | .v6 => .inet6

/-- `OGS_IPV4_LEN` and `OGS_IPV6_DEFAULT_PREFIX_LEN >> 3`, the octets that are hashed. -/
def keyLen : IpVersion → Nat
  | .v4 => 4
  | .v6 => 8

end IpVersion

structure SmfUe where
  id : Nat
  supi : Option CStr
  imsi : List Byte

def SmfUe.zero : SmfUe := ⟨0,none,[]⟩

/-- `ogs_session_t`, with the two addresses of `ue_ip`. -/
structure Session where
  name : Option (List Byte)
  sessionType : Byte
  addr : Vector Byte 4
  addr6 : Vector Byte 16

def Session.zero : Session := ⟨none,0,Vector.replicate 4 0,Vector.replicate 16 0⟩

def Session.ueIp (s : Session) : IpVersion → List Byte
  | .v4 => s.addr.toList
  | .v6 => s.addr6.toList

structure SmfSess where
  id : Nat
  index : Nat
  smfUeId : Nat
  smfN4SeidNode : Nat
  smfN4Seid : BitVec 64
  smContextRef : Option (List Byte)
  epc : Bool
  psi : Byte
  gtpRatType : Byte
  session : Session
  ip : IpVersion → Option UeIpRef

def SmfSess.zero : SmfSess where
  id := 0
  index := 0
  smfUeId := 0
  smfN4SeidNode := 0
  smfN4Seid := 0
  smContextRef := none
  epc := false
  psi := 0
  gtpRatType := 0
  session := .zero
  ip := fun _ => none

structure Seeds where
  supi : BitVec 32
  imsi : BitVec 32
  smfN4Seid : BitVec 32
  ip : IpVersion → BitVec 32

/-- `smf_self()` and what it rests on. `sessList` is `sess_list` of each UE, `smfN4SeidOf` what
the nodes of `smf_n4_seid_pool` hold, and `ipHash` is `ipv4_hash` and `ipv6_hash`. -/
structure Context where
  uePool : Pool
  ue : Nat → SmfUe
  ueList : List Nat
  sessList : Nat → List Nat
  sessPool : Pool
  sess : Nat → SmfSess
  smfN4SeidPool : Pool
  smfN4SeidOf : Nat → BitVec 64
  ueIps : UeIps
  seeds : Seeds
  supiHash : List (Entry Nat Nat)
  imsiHash : List (Entry Nat Nat)
  smfN4SeidHash : List (Entry Nat Nat)
  ipHash : IpVersion → List (Entry UeIpRef Nat)

def contextInit (maxUe poolSess : Nat) (smfN4SeidOf : Nat → BitVec 64) (subnets : List Subnet)
    (seeds : Seeds) : Context where
  uePool := Pool.init maxUe
  ue := fun _ => .zero
  ueList := []
  sessList := fun _ => []
  sessPool := Pool.init poolSess
  sess := fun _ => .zero
  smfN4SeidPool := Pool.init poolSess
  smfN4SeidOf := smfN4SeidOf
  ueIps := .init subnets
  seeds := seeds
  supiHash := []
  imsiHash := []
  smfN4SeidHash := []
  ipHash := fun _ => []

namespace Context

def modify (c : Context) (n : Nat) (f : SmfSess → SmfSess) : Context :=
  { c with sess := update c.sess n (f (c.sess n)) }

def withUeIps (c : Context) (t : UeIps) : Context := { c with ueIps := t }

def withIpHash (c : Context) (v : IpVersion) (t : List (Entry UeIpRef Nat)) : Context :=
  { c with ipHash := update c.ipHash v t }

def supiKey (c : Context) (u : Nat) : List Byte := (c.ue u).supi.elim [] CStr.bytes

def supiKeys (c : Context) : Keys Nat (List Byte) := bytesKeys c.seeds.supi c.supiKey

def imsiKeys (c : Context) : Keys Nat (List Byte) := bytesKeys c.seeds.imsi fun u => (c.ue u).imsi

def smfN4SeidKeys (c : Context) : Keys Nat (BitVec 64) :=
  fieldKeys 8 c.seeds.smfN4Seid fun n => (c.sess n).smfN4Seid

def ipKeys (c : Context) (v : IpVersion) : Keys UeIpRef (List Byte) :=
  bytesKeys (c.seeds.ip v) fun r => (c.ueIps.addr r).toList

def ipKey (c : Context) (v : IpVersion) (r : UeIpRef) : List Byte :=
  (c.ueIps.addr r).toList.take v.keyLen

def smfUeFindBySupi (c : Context) (supi : CStr) : Option Nat :=
  get c.supiKeys c.supiHash supi.bytes

def smfUeFindByImsi (c : Context) (imsi : List Byte) : Option Nat :=
  get c.imsiKeys c.imsiHash imsi

def smfSessFindBySeid (c : Context) (seid : BitVec 64) : Option Nat :=
  get c.smfN4SeidKeys c.smfN4SeidHash seid

/-- `smf_sess_find_by_ipv4` and `smf_sess_find_by_ipv6`, which hash the front of the address. -/
def smfSessFindByIp (c : Context) (v : IpVersion) (addr : List Byte) : Option Nat :=
  get (c.ipKeys v) (c.ipHash v) (addr.take v.keyLen)

def smfSessFind (c : Context) (index : BitVec 32) : Option Nat := c.sessPool.find index.toNat

/-- `smf_sess_find_by_sm_context_ref`: the value of `atoll` is passed as a `uint32_t`. -/
def smfSessFindBySmContextRef (c : Context) (smContextRef : CStr) : Option Nat :=
  c.smfSessFind (BitVec.ofInt 32 (strtol smContextRef.bytes))

/-- `smf_sess_find_by_apn`: the last session of the UE that matches. -/
def smfSessFindByApn (c : Context) (u : Nat) (apn : List Byte) (ratType : Byte) : Option Nat :=
  (c.sessList u).reverse.find? fun n =>
    (c.sess n).session.name.any (UeIps.sameName apn) && (c.sess n).gtpRatType == ratType

def smfSessFindByPsi (c : Context) (u : Nat) (psi : Byte) : Option Nat :=
  (c.sessList u).reverse.find? fun n => (c.sess n).psi == psi

def smfUeAdd (c : Context) : Context × Option Nat :=
  match c.uePool.idCalloc with
  | (pool,none) => ({ c with uePool := pool },none)
  | (pool,some (u,id)) =>
    ({ c with
        uePool := pool
        ue := update c.ue u { SmfUe.zero with id := id }
        ueList := c.ueList++[u]
        sessList := update c.sessList u [] },some u)

def modifyUe (c : Context) (u : Nat) (f : SmfUe → SmfUe) : Context :=
  { c with ue := update c.ue u (f (c.ue u)) }

def smfUeAddBySupi (c : Context) (supi : CStr) : Context × Option Nat :=
  match c.smfUeAdd with
  | (c,none) => (c,none)
  | (c,some u) =>
    let c:=c.modifyUe u fun x => { x with supi := some supi }
    ({ c with supiHash := set c.supiKeys c.supiHash u supi.bytes u },some u)

/-- `smf_ue_add_by_imsi`, for an IMSI that is not empty. -/
def smfUeAddByImsi (c : Context) (imsi : List Byte) : Context × Option Nat :=
  match c.smfUeAdd with
  | (c,none) => (c,none)
  | (c,some u) =>
    let c:=c.modifyUe u fun x => { x with imsi := imsi.take maxImsiLen }
    ({ c with imsiHash := set c.imsiKeys c.imsiHash u (c.ue u).imsi u },some u)

def sessAdd (c : Context) (u : Nat) (fill : SmfSess → SmfSess) : Outcome Context (Option Nat) :=
  match c.sessPool.idCalloc with
  | (_,none) => .ok c none
  | (pool,some (n,id)) =>
    if Pool.poolIndex n≤pool.size then
      match c.smfN4SeidPool.alloc with
      | (_,none) => .abort { c with sessPool := pool }
      | (seidPool,some node) =>
        let x:=fill { SmfSess.zero with
          id := id
          index := Pool.poolIndex n
          smfUeId := (c.ue u).id
          smfN4SeidNode := node
          smfN4Seid := c.smfN4SeidOf node }
        let c:={ c with
          sessPool := pool
          smfN4SeidPool := seidPool
          sess := update c.sess n x }
        .ok { c with
          smfN4SeidHash := set c.smfN4SeidKeys c.smfN4SeidHash n x.smfN4Seid n
          sessList := update c.sessList u (c.sessList u++[n]) } (some n)
    else .abort { c with sessPool := pool }

def smfSessAddByApn (c : Context) (u : Nat) (apn : List Byte) (ratType : Byte) :
    Outcome Context (Option Nat) :=
  (c.sessAdd u fun x =>
    { x with epc := true,gtpRatType := ratType,session := { x.session with name := apn } }).bind
      fun c n => if n.isSome ∧ ratType=0 then .abort c else .ok c n

def smfSessAddByPsi (c : Context) (u : Nat) (psi : Byte) : Outcome Context (Option Nat) :=
  if psi=0 then .abort c
  else c.sessAdd u fun x => { x with psi := psi,smContextRef := some (decimal x.index) }

def unhashIp (c : Context) (v : IpVersion) (r : UeIpRef) : Context :=
  c.withIpHash v (unset (c.ipKeys v) (c.ipHash v) (c.ipKey v r))

def dropIp (c : Context) (n : Nat) (v : IpVersion) : Outcome Context Unit :=
  match (c.sess n).ip v with
  | none => .ok c ()
  | some r => ((c.unhashIp v r).ueIps.free r).mapState (c.unhashIp v r).withUeIps

def smfSessRemove (c : Context) (n : Nat) : Outcome Context Unit :=
  let x:=c.sess n
  match c.uePool.findById x.smfUeId with
  | none => .abort c
  | some u =>
    let c:={ c with
      sessList := update c.sessList u ((c.sessList u).erase n)
      smfN4SeidHash := unset c.smfN4SeidKeys c.smfN4SeidHash x.smfN4Seid }
    (c.dropIp n .v4).bind fun c _ =>
      (c.dropIp n .v6).bind fun c _ =>
        .ok { c with
          smfN4SeidPool := c.smfN4SeidPool.release x.smfN4SeidNode
          sessPool := c.sessPool.idFree n x.id } ()

/-- `smf_sess_remove_all`, of the sessions that are listed when it begins. -/
def smfSessRemoveAll (c : Context) : List Nat → Outcome Context Unit
  | [] => .ok c ()
  | n::ns => (c.smfSessRemove n).bind fun c _ => c.smfSessRemoveAll ns

def smfUeRemove (c : Context) (u : Nat) : Outcome Context Unit :=
  let c:={ c with ueList := c.ueList.erase u }
  (c.smfSessRemoveAll (c.sessList u)).bind fun c _ =>
    let x:=c.ue u
    let c :=
      if x.supi.isSome then { c with supiHash := unset c.supiKeys c.supiHash (c.supiKey u) } else c
    let c :=
      if x.imsi≠[] then { c with imsiHash := unset c.imsiKeys c.imsiHash x.imsi } else c
    .ok { c with uePool := c.uePool.idFree u x.id } ()

def sessRemoveOld (c : Context) : Option Nat → Outcome Context Unit
  | some n => c.smfSessRemove n
  | none => .ok c ()

def ueOfImsi (c : Context) (imsi : List Byte) : Context × Option Nat :=
  match c.smfUeFindByImsi imsi with
  | some u => (c,some u)
  | none => c.smfUeAddByImsi imsi

def ueOfSupi (c : Context) (supi : CStr) : Context × Option Nat :=
  match c.smfUeFindBySupi supi with
  | some u => (c,some u)
  | none => c.smfUeAddBySupi supi

/-- `smf_sess_add_by_gtp1_message` and `smf_sess_add_by_gtp2_message` with what they read of the
message; they go on with the session even if there is none. -/
def smfSessAddByGtpMessage (c : Context) (imsi apn : List Byte) (ratType : Byte) :
    Outcome Context (Option Nat) :=
  if imsi=[] then .abort c
  else
    match c.ueOfImsi imsi with
    | (c,none) => .ok c none
    | (c,some u) =>
      (c.sessRemoveOld (c.smfSessFindByApn u apn ratType)).bind fun c _ =>
        (c.smfSessAddByApn u apn ratType).bind fun c n => if n=none then .abort c else .ok c n

def smfSessAddBySbiMessage (c : Context) (supi : CStr) (psi : Byte) :
    Outcome Context (Option Nat) :=
  match c.ueOfSupi supi with
  | (c,none) => .ok c none
  | (c,some u) =>
    if psi=0 then .abort c
    else (c.sessRemoveOld (c.smfSessFindByPsi u psi)).bind fun c _ => c.smfSessAddByPsi u psi

def setIp (c : Context) (n : Nat) (v : IpVersion) (r : Option UeIpRef) : Context :=
  c.modify n fun x => { x with ip := update x.ip v r }

def allocIp (c : Context) (n : Nat) (v : IpVersion) : Context × Except Cause Unit :=
  let s:=(c.sess n).session
  match c.ueIps.alloc v.family s.name (s.ueIp v) with
  | (t,.error cause) => ((c.withUeIps t).setIp n v none,.error cause)
  | (t,.ok r) => ((c.withUeIps t).setIp n v (some r),.ok ())

def hashIp (c : Context) (n : Nat) (v : IpVersion) : Context :=
  match (c.sess n).ip v with
  | none => c
  | some r => c.withIpHash v (set (c.ipKeys v) (c.ipHash v) r (c.ipKey v r) n)

def settleType (c : Context) (s : Session) : Session :=
  if s.sessionType=3 then
    match c.ueIps.findSubnet .inet s.name, c.ueIps.findSubnet .inet6 s.name with
    | some _, none => { s with sessionType := 1 }
    | none, some _ => { s with sessionType := 2 }
    | _, _ => s
  else s

def setOneIp (c : Context) (n : Nat) (v : IpVersion) : Outcome Context (Except Cause Unit) :=
  match c.allocIp n v with
  | (c,.error cause) => .ok c (.error cause)
  | (c,.ok ()) => .ok (c.hashIp n v) (.ok ())

def setBothIps (c : Context) (n : Nat) : Outcome Context (Except Cause Unit) :=
  match c.allocIp n .v4 with
  | (c,.error cause) => .ok c (.error cause)
  | (c,.ok ()) =>
    match c.allocIp n .v6 with
    | (c,.error cause) =>
      (c.dropIp n .v4).bind fun c _ => .ok (c.setIp n .v4 none) (.error cause)
    | (c,.ok ()) => .ok ((c.hashIp n .v4).hashIp n .v6) (.ok ())

def smfSessSetUeIp (c : Context) (n : Nat) : Outcome Context (Except Cause Unit) :=
  let s:=(c.sess n).session
  if c.uePool.findById (c.sess n).smfUeId=none ∨ s.sessionType=3 ∧ s.name=none ∨
      s.sessionType=0 then
    .abort c
  else
    let c:=c.modify n fun x => { x with session := c.settleType s }
    (c.dropIp n .v4).bind fun c _ =>
      (c.dropIp n .v6).bind fun c _ =>
        match (c.sess n).session.sessionType.val with
        | 1 => c.setOneIp n .v4
        | 2 => c.setOneIp n .v6
        | 3 => c.setBothIps n
        | _ => .abort c

def sansIps (c : Context) : Context := { c with ueIps := .init [],ipHash := fun _ => [] }

theorem dropIp_kept (c : Context) (n : Nat) (v : IpVersion) :
    (c.dropIp n v).Keeps sansIps c := by
  unfold dropIp
  split
  · rfl
  · exact Outcome.Returns.mapState (Outcome.returns_of_forall _ fun _ _ => rfl)

def bare (c : Context) : Context :=
  { c.sansIps with sess := fun n => { c.sess n with session := .zero,ip := fun _ => none } }

theorem bare_modify (c : Context) (n : Nat) {f : SmfSess → SmfSess}
    (hf : ∀ x,({ f x with session := .zero,ip := fun _ => none } : SmfSess) =
      { x with session := .zero,ip := fun _ => none }) : (c.modify n f).bare=c.bare := by
  have hsess : (fun m => ({ (c.modify n f).sess m with session := .zero,ip := fun _ => none } :
      SmfSess)) = fun m => { c.sess m with session := .zero,ip := fun _ => none } := by
    funext m
    unfold modify
    by_cases hm : m=n
    · subst hm
      simp only [update_self]
      exact hf _
    · simp only [update_of_ne hm]
  unfold bare sansIps
  simp only [hsess]
  rfl

theorem bare_setIp (c : Context) (n : Nat) (v : IpVersion) (r : Option UeIpRef) :
    (c.setIp n v r).bare=c.bare :=
  c.bare_modify n fun _ => rfl

theorem hashIp_sansIps (c : Context) (n : Nat) (v : IpVersion) :
    (c.hashIp n v).sansIps=c.sansIps := by
  unfold hashIp
  split <;> rfl

theorem bare_of_sansIps {c c' : Context} (h : c'.sansIps=c.sansIps) : c'.bare=c.bare := by
  show c'.sansIps.bare=c.sansIps.bare
  rw [h]

end Context

end OgsDp.Smf
