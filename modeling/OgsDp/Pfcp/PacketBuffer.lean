import OgsDp.Pfcp.FarTable

/-!
# Packets on their way through a user plane (lib/pfcp/handler.c, path.c and context.c)

A packet that matched a PDR is sent, dropped or kept in the buffer of the FAR, and what a FAR has
kept is sent when an update lets it forward.
-/

namespace OgsDp.Pfcp
open Lib RefTable OgsDp.Core

def maxNumOfPacketBuffer : Nat := 64

namespace Far

def forwards (x : Far) : Bool := x.applyAction.getLsbD 9
def buffers (x : Far) : Bool := x.applyAction.getLsbD 10

end Far

structure HeaderDesc where
  type : Byte
  teid : BitVec 32
  qosFlowIdentifier : Byte
  pduType : Byte
  udpPort : Option (BitVec 16)
  pdcpNumber : Option (BitVec 16)
  deriving DecidableEq

def HeaderDesc.zero : HeaderDesc := ⟨0,0,0,0,none,none⟩

def msgtypeGpdu : Byte := 255
def dlPduSessionInformation : Byte := 0

/-- A packet that was given to the socket of a peer, and the FAR that sent it there. -/
structure GPdu where
  packet : Nat
  far : Nat
  peer : PeerAddr
  header : HeaderDesc
  deriving DecidableEq

/-- The user plane and its packets: `buffered_packet` of each node of the FAR pool, and what became
of the others. -/
structure Packets where
  up : Up
  buffer : Nat → List Nat
  arrived : Nat
  sent : List GPdu
  freed : List Nat

namespace Packets

def init (u : Up) : Packets := ⟨u,fun _ => [],0,[],[]⟩

def withUp (x : Packets) (u : Up) : Packets := { x with up := u }

def setBuffer (x : Packets) (r : Nat) (l : List Nat) : Packets :=
  { x with buffer := Function.update x.buffer r l }

def free (x : Packets) (l : List Nat) : Packets := { x with freed := x.freed++l }

def farOf (x : Packets) (p : Nat) : Option Nat := (x.up.ctx.pdr p).far

def body (x : Packets) (r : Nat) : Far := (x.up.ctx.far.slot r).body

def qfiOf (x : Packets) (p : Nat) : Byte :=
  (x.up.ctx.pdr p).qer.elim 0 fun q => (x.up.ctx.qer.slot q).body.qfi

def headerOf (x : Packets) (p r : Nat) (sendhdr : HeaderDesc) : HeaderDesc :=
  { sendhdr with
    teid := u32 (x.body r).outerHeaderCreation 2
    qosFlowIdentifier := x.qfiOf p
    pduType := dlPduSessionInformation }

/-- `ogs_pfcp_send_g_pdu`; a peer that is not connected has no socket. -/
def sendGPdu (x : Packets) (p : Nat) (sendhdr : HeaderDesc) (k : Nat) : Outcome Packets Unit :=
  match x.farOf p with
  | none => .ok (x.free [k]) ()
  | some r =>
    if (x.body r).dstIf=interfaceUnknown then .ok (x.free [k]) ()
    else
      match (x.up.farUp r).gnode with
      | none => .abort x
      | some peer =>
        if peer = .unspec then .abort x
        else .ok { x with sent := x.sent++[⟨k,r,peer,x.headerOf p r sendhdr⟩] } ()

def bufferPacket (x : Packets) (r k : Nat) : Packets :=
  if (x.buffer r).length < maxNumOfPacketBuffer then x.setBuffer r (x.buffer r++[k])
  else x.free [k]

/-- `ogs_pfcp_up_handle_pdr` for the next packet; the result is `downlink_data_report`. -/
def upHandlePdr (x : Packets) (p : Nat) (type : Byte) (recvhdr : Option HeaderDesc) :
    Outcome Packets Bool :=
  let k:=x.arrived
  let x:={ x with arrived := k+1 }
  if type=0 then .abort x
  else
    match x.farOf p with
    | none => .abort x
    | some r =>
      match (x.up.farUp r).gnode with
      | none => .ok (x.bufferPacket r k) (x.buffer r).isEmpty
      | some _ =>
        if (x.body r).forwards then
          (x.sendGPdu p { HeaderDesc.zero with
            type := type
            pdcpNumber := recvhdr.bind HeaderDesc.pdcpNumber } k).bind fun x _ => .ok x false
        else if (x.body r).buffers then .ok (x.bufferPacket r k) (x.buffer r).isEmpty
        else .ok (x.free [k]) false

def sendAll (p : Nat) : Packets → List Nat → Outcome Packets Unit
  | x, [] => .ok x ()
  | x, k::ks =>
    (x.sendGPdu p { HeaderDesc.zero with type := msgtypeGpdu } k).bind fun x _ => sendAll p x ks

def sendBufferedPacket (x : Packets) (p : Nat) : Outcome Packets Unit :=
  match x.farOf p with
  | none => .ok x ()
  | some r =>
    if (x.up.farUp r).gnode.isSome ∧ (x.body r).forwards then
      (sendAll p x (x.buffer r)).bind fun x _ => .ok (x.setBuffer r []) ()
    else .ok x ()

def sendBufferedPackets : Packets → List Nat → Outcome Packets Unit
  | x, [] => .ok x ()
  | x, p::ps => (x.sendBufferedPacket p).bind fun x _ => sendBufferedPackets x ps

/-- `ogs_pfcp_far_remove`; the node keeps the addresses of what it had. -/
def farRemove (x : Packets) (r : Nat) : Packets := (x.withUp (x.up.farRemove r)).free (x.buffer r)

/-- `ogs_pfcp_far_find_or_add`; a node that is drawn starts from `memset`. -/
def farFindOrAdd (x : Packets) (s : Nat) (id : BitVec 32) : Outcome Packets Unit :=
  ((x.up.farFindOrAdd s id).mapState x.withUp).bind fun y _ =>
    match x.up.ctx.far.find s id, y.up.ctx.far.find s id with
    | none, some r => .ok (y.setBuffer r []) ()
    | _, _ => .ok y ()

def pdrsOf (x : Packets) (s r : Nat) : List Nat :=
  (x.up.ctx.pdrList s).filter fun p => x.farOf p=some r

/-- A FAR is created or updated, its peer is set up, and the packets of its PDRs are sent. -/
def updateFar (peers : GtpPeers) (handle : RuleHandler Far FarIe) (x : Packets) (s : Nat)
    (message : Option FarIe) : Outcome Packets Unit :=
  ((Up.handleFar handle s x.up message).mapState x.withUp).bind fun x reply =>
    match reply with
    | .rule r =>
      ((Up.setupGtpNodes peers x.up [r]).mapState x.withUp).bind fun x _ =>
        x.sendBufferedPackets (x.pdrsOf s r)
    | _ => .ok x ()

end Packets

inductive PacketOp where
  -- the packet matched the PDR `p` of the session `s`
  | handlePdr (s p : Nat) (type : Byte) (recvhdr : Option HeaderDesc)
  | findOrAdd (s : Nat) (id : BitVec 32)
  | createFar (s : Nat) (message : Option FarIe)
  | updateFar (s : Nat) (message : Option FarIe)
  | removeFar (s r : Nat)

namespace Packets

def step (peers : GtpPeers) (x : Packets) : PacketOp → Option (Outcome Packets Bool)
  | .handlePdr s p type recvhdr =>
    if p∈x.up.ctx.pdrList s then some (x.upHandlePdr p type recvhdr) else none
  | .findOrAdd s id => some ((x.farFindOrAdd s id).bind fun x _ => .ok x false)
  | .createFar s m => some ((x.updateFar peers handleCreateFar s m).bind fun x _ => .ok x false)
  | .updateFar s m => some ((x.updateFar peers handleUpdateFar s m).bind fun x _ => .ok x false)
  | .removeFar s r => if r∈x.up.ctx.far.list s then some (.ok (x.farRemove r) false) else none

def HasFar (x : Packets) : PacketOp → Prop
  | .handlePdr s p _ _ => ∀ r∈x.farOf p,r∈x.up.ctx.far.list s
  | _ => True

instance (x : Packets) : ∀ op,Decidable (x.HasFar op)
  | .handlePdr _ _ _ _ => inferInstanceAs (Decidable (∀ r∈_,_))
  | .findOrAdd _ _ => isTrue trivial
  | .createFar _ _ => isTrue trivial
  | .updateFar _ _ => isTrue trivial
  | .removeFar _ _ => isTrue trivial

def held (x : Packets) : List Nat := x.up.ctx.far.live.flatMap x.buffer

def sentBy (x : Packets) (r : Nat) : List Nat :=
  (x.sent.filter fun g => g.far=r).map GPdu.packet

/-- Every packet was sent, freed or is in the buffer of one FAR, once; buffers are not too long;
and each FAR sent its packets as they came. -/
structure Accounted (x : Packets) : Prop where
  once : (List.range x.arrived).Perm (x.sent.map GPdu.packet++x.freed++x.held)
  bound : ∀ r,(x.buffer r).length ≤ maxNumOfPacketBuffer
  order : ∀ r,(x.sentBy r).Pairwise (· < ·)

/-- A report is raised exactly for a packet that is the first in the buffer of its FAR. -/
def ReportsFirst (x : Packets) (op : PacketOp) (o : Outcome Packets Bool) : Prop :=
  ∀ s p type recvhdr,op = .handlePdr s p type recvhdr → ∀ r ∈ x.farOf p,
    o.Returns fun y report => report=true ↔ x.buffer r=[] ∧ y.buffer r=[x.arrived]

end Packets

end OgsDp.Pfcp
