import OgsDp.Pfcp.Handler

/-!
# What a user plane function adds to PFCP rules (lib/pfcp/context.c, handler.c)

A user plane function keeps more of a session than its PDRs, FARs, URRs and QERs: the BAR, the
peer each FAR sends to, the table of the F-TEIDs that FARs send to, and what a PDR says about the
addresses of the UE.
-/

namespace OgsDp.Pfcp
open Lib RefTable OgsDp.Core Function

def maxDnnLen : Nat := 100

def fqdnLabels (src : Nat → Byte) (length : Nat) : Nat → Nat → List Byte → Option (List Byte)
  | 0, _, dst => some dst
  | fuel+1, i, dst =>
    if i+1≤length then
      let len:=(src i).val
      if dst.length+len+1 > length then none
      else
        let dst:=dst++(List.range len).map fun k => src (i+1+k)
        let i:=i+1+len
        fqdnLabels src length fuel i (if i+1<length then dst++[46] else dst)
    else some dst

/-- `ogs_fqdn_parse` where it returns a positive number: the name up to its first zero. -/
def fqdnParse (beyond : Byte) (data : List Byte) : Option (List Byte) :=
  let length:=min data.length maxDnnLen
  match fqdnLabels (fun i => data[i]?.getD beyond) length length 0 [] with
  | some (b::dst) => some ((b::dst).takeWhile fun c => c≠0)
  | _ => none

def maxNumOfBar : Nat := 1

structure Bar where
  idNode : Nat
  id : Byte
  sess : Nat

/-- The BARs and their pool, and the BAR and the id pool of each session. -/
structure BarTable where
  pool : Pool
  slot : Nat → Bar
  bar : Nat → Option Nat
  idPool : Nat → Pool

namespace BarTable

def init (poolSess : Nat) : BarTable where
  pool := Pool.init (poolSess*maxNumOfBar)
  slot := fun _ => ⟨0,0,0⟩
  bar := fun _ => none
  idPool := fun _ => Pool.init maxNumOfBar

def barNew (t : BarTable) (s : Nat) : Outcome BarTable Nat :=
  if (t.bar s).isSome then .abort t
  else
    match t.pool.alloc with
    | (_,none) => .abort t
    | (pool,some b) =>
      match (t.idPool s).alloc with
      | (_,none) => .abort { t with pool := pool }
      | (idPool,some k) =>
        let t:={ t with
          pool := pool
          slot := update t.slot b ⟨k,Fin.ofNat 256 (k+1),s⟩
          bar := update t.bar s (some b)
          idPool := update t.idPool s idPool }
        if k+1 ≤ maxNumOfBar then .ok t b else .abort t

def barDelete (t : BarTable) (b : Nat) : BarTable :=
  let s:=(t.slot b).sess
  { t with
    idPool := update t.idPool s ((t.idPool s).release (t.slot b).idNode)
    bar := update t.bar s none
    pool := t.pool.release b }

def deleteOf (t : BarTable) (s : Nat) : BarTable := (t.bar s).elim t t.barDelete

/-- `ogs_pfcp_handle_create_bar`; the IE is its BAR ID. -/
def handleCreateBar (t : BarTable) (s : Nat) (message : Option (Option Byte)) :
    Outcome BarTable Reply :=
  match message with
  | none => .ok t .absent
  | some none => .ok t (.rejected .mandatoryIeMissing (some .barId))
  | some (some id) =>
    ((t.deleteOf s).barNew s).bind fun t b =>
      .ok { t with slot := update t.slot b { t.slot b with id := id } } (.rule b)

def handleRemoveBar (t : BarTable) (s : Nat) (message : Option (Option Byte)) :
    Outcome BarTable Reply :=
  match message with
  | none => .ok t .absent
  | some none => .ok t (.rejected .mandatoryIeMissing (some .barId))
  | some (some id) =>
    match t.bar s with
    | some b =>
      if (t.slot b).id=id then .ok (t.barDelete b) (.rule b)
      else .ok t (.rejected .sessionContextNotFound none)
    | none => .ok t (.rejected .sessionContextNotFound none)

def poolInit (t : BarTable) (s : Nat) : BarTable :=
  { t with
    bar := update t.bar s none
    idPool := update t.idPool s (Pool.init maxNumOfBar) }

end BarTable

def RuleTable.poolInit {α : Type} (kind : RuleKind α) (t : RuleTable α) (s : Nat) : RuleTable α :=
  { t with
    list := update t.list s []
    idPool := update t.idPool s (Pool.init kind.max) }

/-- The address of a GTP-U peer; `unspec` before it is connected. -/
inductive PeerAddr where
  | inet (addr : Addr)
  | inet6 (addr : Addr6)
  | unspec
  deriving DecidableEq

/-- `gnode` and `hash.f_teid` of a FAR. -/
structure FarUp where
  gnode : Option PeerAddr
  hashLen : Nat
  hashKey : Vector Byte 20
  deriving DecidableEq

def FarUp.zero : FarUp := ⟨none,0,Vector.replicate 20 0⟩

/-- What a PDR says about the UE; a list of framed routes is `none` before it is allocated. -/
structure PdrUp where
  dnn : Option (List Byte)
  ueIpAddr : Vector Byte 21
  ueIpAddrLen : Nat
  ipv4FramedRoutes : Option (List (List Byte))
  ipv6FramedRoutes : Option (List (List Byte))
  deriving DecidableEq

def PdrUp.zero : PdrUp := ⟨none,Vector.replicate 21 0,0,none,none⟩

namespace PdrUp

def ipv6 (x : PdrUp) : Bool := x.ueIpAddr[0].val.testBit 0
def ipv4 (x : PdrUp) : Bool := x.ueIpAddr[0].val.testBit 1

def addr (x : PdrUp) : List Byte := x.ueIpAddr.toList.drop 1
def bothAddr (x : PdrUp) : List Byte := x.ueIpAddr.toList.drop 1
def bothAddr6 (x : PdrUp) : List Byte := x.ueIpAddr.toList.drop 5

end PdrUp

structure Up where
  ctx : Context
  pdrUp : Nat → PdrUp
  farUp : Nat → FarUp
  bar : BarTable
  farFTeidSeed : BitVec 32
  farFTeidHash : List (Entry Nat Nat)

def upInit (poolSess : Nat) (random : Nat → Nat) (seed farSeed : BitVec 32) : Up where
  ctx := contextInit poolSess random seed
  pdrUp := fun _ => .zero
  farUp := fun _ => .zero
  bar := .init poolSess
  farFTeidSeed := farSeed
  farFTeidHash := []

namespace Up

def withCtx (u : Up) (c : Context) : Up := { u with ctx := c }

def withFar (u : Up) (t : RuleTable Far) : Up := u.withCtx { u.ctx with far := t }
def withUrr (u : Up) (t : RuleTable Urr) : Up := u.withCtx { u.ctx with urr := t }
def withQer (u : Up) (t : RuleTable Qer) : Up := u.withCtx { u.ctx with qer := t }
def withBar (u : Up) (t : BarTable) : Up := { u with bar := t }

/-- `ogs_pfcp_pool_init` for a session that was filled with zeros. -/
def poolInit (u : Up) (s : Nat) : Up :=
  { u with
    ctx := { u.ctx with
      pdrList := update u.ctx.pdrList s []
      pdrIdPool := update u.ctx.pdrIdPool s (Pool.init maxNumOfPdr)
      far := u.ctx.far.poolInit farKind s
      urr := u.ctx.urr.poolInit urrKind s
      qer := u.ctx.qer.poolInit qerKind s }
    bar := u.bar.poolInit s }

def setPdrUp (u : Up) (p : Nat) (x : PdrUp) : Up :=
  { u with pdrUp := update u.pdrUp p x }

def setFarUp (u : Up) (r : Nat) (x : FarUp) : Up :=
  { u with farUp := update u.farUp r x }

def farKeys (u : Up) : Keys Nat (List Byte) :=
  bytesKeys u.farFTeidSeed fun r => (u.farUp r).hashKey.toList

def farKey (x : FarUp) : List Byte := x.hashKey.toList.take x.hashLen

def farUnsetFTeid (u : Up) (r : Nat) : Up :=
  if (u.farUp r).hashLen≠0 then
    { u with farFTeidHash := unset u.farKeys u.farFTeidHash (farKey (u.farUp r)) }
  else u

def farFTeidHashSet (u : Up) (r : Nat) : Outcome Up Unit :=
  match (u.farUp r).gnode with
  | none => .abort u
  | some peer =>
    let u:=u.farUnsetFTeid r
    let teid:=((u.ctx.far.slot r).body.outerHeaderCreation.toList.drop 2).take 4
    let store (addr : List Byte) : Outcome Up Unit :=
      let x:={ u.farUp r with
        hashLen := 4+addr.length
        hashKey := memcpy (u.farUp r).hashKey (teid++addr) }
      let u:=u.setFarUp r x
      .ok { u with farFTeidHash := set u.farKeys u.farFTeidHash r (farKey x) r } ()
    match peer with
    | .inet addr => store addr.toList
    | .inet6 addr => store addr.toList
    | .unspec => .abort u

def farRemove (u : Up) (r : Nat) : Up :=
  let u:=u.farUnsetFTeid r
  u.withFar (u.ctx.far.remove r)

def sessClear (u : Up) (s : Nat) : Up :=
  let u:=u.withCtx ((u.ctx.pdrList s).foldl pdrRemove u.ctx)
  let u:=(u.ctx.far.list s).foldl farRemove u
  let u:=u.withUrr ((u.ctx.urr.list s).foldl RuleTable.remove u.ctx.urr)
  let u:=u.withQer ((u.ctx.qer.list s).foldl RuleTable.remove u.ctx.qer)
  u.withBar (u.bar.deleteOf s)

end Up

structure CreatePdrUp where
  base : CreatePdr
  networkInstance : Option (List Byte)
  ueIpAddress : Option (List Byte)
  -- those present among the eight
  framedRoute : List (List Byte)
  framedIpv6Route : List (List Byte)

structure UpdatePdrUp where
  base : UpdatePdr
  networkInstance : Option (List Byte)

/-- `ogs_pfcp_session_establishment_request_t`; `cpFSeid` is what memory holds from the data of
the IE on. -/
structure EstablishmentRequest where
  cpFSeid : Option (Vector Byte 29)
  pfcpsereqFlags : Option Byte
  createPdr : List (Option CreatePdrUp)
  createFar : List (Option FarIe)
  createUrr : List (Option UrrIe)
  createQer : List (Option QerIe)
  createBar : Option (Option Byte)
  apnDnn : Option (List Byte)
  pdnType : Option Byte

structure ModificationRequest where
  createPdr : List (Option CreatePdrUp)
  updatePdr : List (Option UpdatePdrUp)
  removePdr : List (Option (Option (BitVec 16)))
  createFar : List (Option FarIe)
  updateFar : List (Option FarIe)
  removeFar : List (Option (Option (BitVec 32)))
  createUrr : List (Option UrrIe)
  updateUrr : List (Option UrrIe)
  removeUrr : List (Option (Option (BitVec 32)))
  createQer : List (Option QerIe)
  updateQer : List (Option QerIe)
  removeQer : List (Option (Option (BitVec 32)))
  createBar : Option (Option Byte)
  removeBar : Option (Option Byte)

/-- The cause and the offending IE of an answer that refuses. -/
structure Refusal where
  cause : Cause
  offendingIe : Option IeType
  deriving DecidableEq

def returned {σ : Type} (r : σ × Reply) : Outcome σ Reply := .ok r.1 r.2

/-- The loop over the IEs of one kind, which ends at one that is absent or refused. -/
def each {σ μ : Type} (handle : σ → μ → Outcome σ Reply) :
    σ → List μ → Outcome σ (Except Refusal (List Nat))
  | u, [] => .ok u (.ok [])
  | u, m::ms =>
    (handle u m).bind fun u reply =>
      match reply with
      | .absent => .ok u (.ok [])
      | .rejected cause ie => .ok u (.error ⟨cause,ie⟩)
      | .rule r => (each handle u ms).next fun u rs => .ok u (.ok (r::rs))

theorem each_keeps {σ μ α : Type} {g : σ → α} {handle : σ → μ → Outcome σ Reply}
    (h : ∀ u m,(handle u m).Keeps g u) (u : σ) (ms : List μ) :
    (each handle u ms).Keeps g u := by
  induction ms generalizing u with
  | nil => rfl
  | cons m ms ih =>
    apply (h u m).bind
    intro v reply
    cases reply with
    | absent => rfl
    | rejected cause ie => rfl
    | rule r => exact (ih v).next fun _ _ => rfl

theorem each_returns {σ μ : Type} {P : σ → Prop} {handle : σ → μ → Outcome σ Reply}
    (h : ∀ u m,P u → (handle u m).Returns fun v _ => P v) {u : σ} (hu : P u) (ms : List μ) :
    (each handle u ms).Returns fun v _ => P v := by
  induction ms generalizing u with
  | nil => exact hu
  | cons m ms ih =>
    apply (h u m hu).bind
    intro v reply hv
    cases reply with
    | absent => exact hv
    | rejected cause ie => exact hv
    | rule r => exact (ih hv).next (fun _ _ hw => hw) fun _ _ hw => hw

def once {σ : Type} (o : Outcome σ Reply) : Outcome σ (Except Refusal Unit) :=
  o.bind fun u reply =>
    match reply with
    | .rejected cause ie => .ok u (.error ⟨cause,ie⟩)
    | _ => .ok u (.ok ())

theorem once_keeps {σ α : Type} {g : σ → α} {u : σ} {o : Outcome σ Reply} (h : o.Keeps g u) :
    (once o).Keeps g u := by
  apply h.bind
  intro v reply
  cases reply <;> rfl

def takeRoutes (old : Option (List (List Byte))) (routes : List (List Byte)) :
    Option (List (List Byte)) :=
  if routes=[] then old.map fun _ => [] else some routes

def createPdrUe (env : Env) (m : CreatePdrUp) (x : PdrUp) : PdrUp where
  dnn := m.networkInstance.bind (fqdnParse env.beyond)
  ueIpAddr := memcpy (Vector.replicate 21 0) (m.ueIpAddress.getD [])
  ueIpAddrLen := min (m.ueIpAddress.getD []).length 21
  ipv4FramedRoutes := takeRoutes x.ipv4FramedRoutes m.framedRoute
  ipv6FramedRoutes := takeRoutes x.ipv6FramedRoutes m.framedIpv6Route

namespace Up

-- The nodes that a handler has allocated start from `memset`.
def freshPdr (u v : Up) (s : Nat) (pdrId : Option (BitVec 16)) : Up :=
  match pdrId.bind (pdrFind u.ctx s), pdrId.bind (pdrFind v.ctx s) with
  | none, some p => v.setPdrUp p .zero
  | _, _ => v

def freshFar (u v : Up) (s : Nat) (farId : Option (BitVec 32)) : Up :=
  match farId.bind (u.ctx.far.find s), farId.bind (v.ctx.far.find s) with
  | none, some r => v.setFarUp r .zero
  | _, _ => v

def handleCreatePdr (env : Env) (restoration : Bool) (s : Nat) (u : Up)
    (message : Option CreatePdrUp) : Outcome Up Reply :=
  ((Pfcp.handleCreatePdr env u.ctx s restoration (message.map CreatePdrUp.base)).mapState
      u.withCtx).bind fun v reply =>
    match message with
    | none => .ok v reply
    | some m =>
      let v:=u.freshFar (u.freshPdr v s m.base.pdrId) s m.base.farId
      match reply with
      | .rule p => .ok (v.setPdrUp p (createPdrUe env m (v.pdrUp p))) reply
      | _ => .ok v reply

def handleUpdatePdr (env : Env) (s : Nat) (u : Up) (message : Option UpdatePdrUp) :
    Outcome Up Reply :=
  ((Pfcp.handleUpdatePdr env u.ctx s (message.map UpdatePdrUp.base)).mapState u.withCtx).bind
    fun u reply =>
      match reply with
      | .rule p =>
        .ok (u.setPdrUp p { u.pdrUp p with
          dnn := ((message.bind fun m =>
            if m.base.pdi.isSome then m.networkInstance.bind (fqdnParse env.beyond) else none).or
              (u.pdrUp p).dnn) }) reply
      | _ => .ok u reply

def handleRemovePdr (s : Nat) (u : Up) (message : Option (Option (BitVec 16))) :
    Outcome Up Reply :=
  (returned (Pfcp.handleRemovePdr u.ctx s message)).mapState u.withCtx

/-- `ogs_pfcp_handle_create_far`, `ogs_pfcp_handle_update_far_flags`,
`ogs_pfcp_handle_update_far`. -/
def handleFar (handle : RuleHandler Far FarIe) (s : Nat) (u : Up) (message : Option FarIe) :
    Outcome Up Reply :=
  (handle u.ctx.far s message).mapState u.withFar

def handleRemoveFar (s : Nat) (u : Up) (message : Option (Option (BitVec 32))) :
    Outcome Up Reply :=
  let r:=Pfcp.handleRemoveFar u.ctx.far s message
  match r.2 with
  | .rule n => .ok (u.farRemove n) r.2
  | _ => .ok u r.2

def handleUrr (handle : RuleHandler Urr UrrIe) (s : Nat) (u : Up) (message : Option UrrIe) :
    Outcome Up Reply :=
  (handle u.ctx.urr s message).mapState u.withUrr

def handleRemoveUrr (s : Nat) (u : Up) (message : Option (Option (BitVec 32))) :
    Outcome Up Reply :=
  (returned (Pfcp.handleRemoveUrr u.ctx.urr s message)).mapState u.withUrr

def handleQer (handle : RuleHandler Qer QerIe) (s : Nat) (u : Up) (message : Option QerIe) :
    Outcome Up Reply :=
  (handle u.ctx.qer s message).mapState u.withQer

def handleRemoveQer (s : Nat) (u : Up) (message : Option (Option (BitVec 32))) :
    Outcome Up Reply :=
  (returned (Pfcp.handleRemoveQer u.ctx.qer s message)).mapState u.withQer

def handleBar (handle : BarTable → Nat → Option (Option Byte) → Outcome BarTable Reply) (s : Nat)
    (u : Up) (message : Option (Option Byte)) : Outcome Up Reply :=
  (handle u.bar s message).mapState u.withBar

end Up

/-- `ogs_pfcp_outer_header_creation_to_ip`; `none` where the length is zero. -/
def outerHeaderCreationToIp (o : Vector Byte 26) : Option (Option Addr × Option Addr6) :=
  let bit (i : Nat) : Bool := o[0].val.testBit i
  let v4:=bit 0 || bit 4 || bit 2
  let v6:=bit 1 || bit 5 || bit 3
  let addr : Addr := Vector.ofFn fun i => (o[6+i.val]?).getD 0
  let addr6 : Addr6 := Vector.ofFn fun i => (o[(if v4 then 10 else 6)+i.val]?).getD 0
  if v4 || v6 then some (if v4 then some addr else none,if v6 then some addr6 else none)
  else none

/-- What finding a GTP-U peer by its addresses, or adding and connecting it, leads to: the
address of the node, or `OGS_ERROR`. -/
abbrev GtpPeers := Option Addr × Option Addr6 → Option PeerAddr

namespace Up

/-- `ogs_pfcp_setup_far_gtpu_node`; the result is false where it is `OGS_ERROR`. -/
def setupFarGtpuNode (peers : GtpPeers) (u : Up) (r : Nat) : Up × Bool :=
  match outerHeaderCreationToIp (u.ctx.far.slot r).body.outerHeaderCreation with
  | none => (u,true)
  | some ip =>
    match peers ip with
    | none => (u,false)
    | some peer => (u.setFarUp r { u.farUp r with gnode := some peer },true)

/-- The loop "Setup GTP Node"; the result is false where it went to the cleanup. -/
def setupGtpNodes (peers : GtpPeers) : Up → List Nat → Outcome Up Bool
  | u, [] => .ok u true
  | u, r::rs =>
    match u.setupFarGtpuNode peers r with
    | (u,false) => .ok u false
    | (u,true) =>
      if (u.farUp r).gnode.isSome then
        (u.farFTeidHashSet r).bind fun u _ => setupGtpNodes peers u rs
      else setupGtpNodes peers u rs

def swapTeids : Up → List Nat → Outcome Up (Except Refusal Unit)
  | u, [] => .ok u (.ok ())
  | u, p::ps =>
    if 0<(u.ctx.pdr p).fTeidLen ∧ (u.ctx.pdr p).fTeid.ch=false then
      ((pdrSwapTeid u.ctx p).mapState u.withCtx).bind fun u cause =>
        if cause = .requestAccepted then swapTeids u ps else .ok u (.error ⟨cause,none⟩)
    else swapTeids u ps

def teidHashSet (env : Env) (u : Up) (p : Nat) : Outcome Up Unit :=
  if (u.ctx.pdr p).fTeidLen≠0 then
    (objectTeidHashSet env .sess u.ctx p).mapState u.withCtx
  else .ok u ()

def clearSmreqFlags (u : Up) (s : Nat) : Up :=
  u.withFar ((u.ctx.far.list s).foldl
    (fun t r => t.modify r fun x => { x with body := { x.body with smreqFlags := 0 } }) u.ctx.far)

end Up

/-- What a response carries; the F-TEIDs are those of the created PDRs that have one. `error` is
set where `ogs_pfcp_send_error_message` makes the response. -/
structure Response where
  type : Byte
  seid : BitVec 64
  cause : Cause
  offendingIe : Option IeType
  upSeid : Option (BitVec 64)
  createdPdr : List (BitVec 16 × FTeid × Nat)
  error : Bool

def createdPdrs (c : Context) (ps : List Nat) : List (BitVec 16 × FTeid × Nat) :=
  (ps.filter fun p => (c.pdr p).fTeidLen≠0).map fun p =>
    ((c.pdr p).id,(c.pdr p).fTeid,(c.pdr p).fTeidLen)

end OgsDp.Pfcp
