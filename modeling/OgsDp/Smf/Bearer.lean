import Mathlib.Logic.Function.Basic
import OgsDp.Core.Pool
import OgsDp.Lib.Run
import OgsDp.Pfcp.Types

/-!
# Bearers, QoS flows and packet filters of the SMF (src/smf/context.c)

A bearer and a QoS flow are the same record; a QoS flow has a QFI of its session besides.
-/

namespace OgsDp.Smf
open Lib OgsDp.Core Function

def maxNumOfBearer : Nat := 4

def maxNumOfFlowInBearer : Nat := 15

def maxQosFlowId : Nat := 63

/-- What a node of a pool holds after `ogs_pool_sequence_id_generate`. -/
def sequenceId (node : Nat) : Nat := node+1

structure Texts where
  text : Nat → List Byte
  live : Nat → Bool
  blocks : Nat

namespace Texts

def init : Texts := ⟨fun _ => [],fun _ => false,0⟩

def strdup (t : Texts) (s : List Byte) : Texts × Nat :=
  (⟨update t.text t.blocks s,update t.live t.blocks true,t.blocks+1⟩,
    t.blocks)

-- `ogs_free` if there is a text; what is free already stops the process.
def free (t : Texts) : Option Nat → Outcome Texts Unit
  | none => .ok t ()
  | some k =>
    if t.live k then .ok { t with live := update t.live k false } () else .abort t

end Texts

inductive PfDirection where
  | unspecified
  | downlinkOnly
  | uplinkOnly
  | bidirectional
  deriving DecidableEq

structure PdrFlow where
  fd : Bool
  bid : Bool
  description : Option Nat
  sdfFilterId : Nat
  deriving DecidableEq

def PdrFlow.zero : PdrFlow := ⟨false,false,none,0⟩

structure PdrFlows where
  numOfFlow : Nat
  flow : Nat → PdrFlow

def PdrFlows.zero : PdrFlows := ⟨0,fun _ => .zero⟩

def PdrFlows.put (p : PdrFlows) (w : PdrFlow → PdrFlow) : PdrFlows where
  numOfFlow := p.numOfFlow+1
  flow := update p.flow p.numOfFlow (w (p.flow p.numOfFlow))

structure SmfPf where
  id : Nat
  direction : PfDirection
  identifier : Nat
  precedence : Nat
  sdfFilterId : Nat
  identifierNode : Option Nat
  precedenceNode : Option Nat
  flowDescription : Option Nat
  bearerId : Nat

def SmfPf.zero : SmfPf := ⟨0,.unspecified,0,0,0,none,none,none,0⟩

structure SmfBearer where
  id : Nat
  dlPdr : PdrFlows
  ulPdr : PdrFlows
  qfiNode : Option Nat
  qfi : Nat
  sess : Nat

def SmfBearer.zero : SmfBearer := ⟨0,.zero,.zero,none,0,0⟩

/-- The bearers and packet filters of all sessions. `bearerList`, `qfiPool` and `precedencePool`
belong to a session, `identifierPool` and `pfList` to a bearer. -/
structure Bearers where
  bearerPool : Pool
  bearer : Nat → SmfBearer
  bearerList : Nat → List Nat
  qfiPool : Nat → Pool
  precedencePool : Nat → Pool
  identifierPool : Nat → Pool
  pfList : Nat → List Nat
  pfPool : Pool
  pf : Nat → SmfPf
  texts : Texts

/-- The pools of `smf_context_init`, and those that a session gets when it is added. -/
def bearersInit (poolBearer : Nat) : Bearers where
  bearerPool := Pool.init poolBearer
  bearer := fun _ => .zero
  bearerList := fun _ => []
  qfiPool := fun _ => Pool.init maxQosFlowId
  precedencePool := fun _ => Pool.init (maxNumOfBearer*maxNumOfFlowInBearer)
  identifierPool := fun _ => Pool.init maxNumOfFlowInBearer
  pfList := fun _ => []
  pfPool := Pool.init (poolBearer*maxNumOfFlowInBearer)
  pf := fun _ => .zero
  texts := .init

namespace Bearers

def modifyBearer (c : Bearers) (b : Nat) (f : SmfBearer → SmfBearer) : Bearers :=
  { c with bearer := update c.bearer b (f (c.bearer b)) }

def modifyPf (c : Bearers) (f : Nat) (g : SmfPf → SmfPf) : Bearers :=
  { c with pf := update c.pf f (g (c.pf f)) }

def smfPfAdd (c : Bearers) (b : Nat) : Outcome Bearers (Option Nat) :=
  let s:=(c.bearer b).sess
  match c.pfPool.idCalloc with
  | (_,none) => .abort c
  | (pool,some (f,id)) =>
    let c:={ c with pfPool := pool,pf := update c.pf f { SmfPf.zero with id := id } }
    match (c.identifierPool b).alloc with
    | (_,none) => .ok { c with pfPool := c.pfPool.idFree f id } none
    | (ids,some k) =>
      let c:={ c with identifierPool := update c.identifierPool b ids }
      -- the field has four bits
      let identifier:=sequenceId k % 16
      if 0 < identifier ∧ identifier ≤ maxNumOfFlowInBearer then
        match (c.precedencePool s).alloc with
        | (_,none) =>
          .ok { c with
            identifierPool := update c.identifierPool b (ids.release k)
            pfPool := c.pfPool.idFree f id } none
        | (precedences,some j) =>
          let c:={ c with precedencePool := update c.precedencePool s precedences }
          let precedence:=sequenceId j % 256
          if 0<precedence ∧ precedence ≤ maxNumOfBearer*maxNumOfFlowInBearer then
            let c:=c.modifyPf f fun x => { x with
              identifierNode := some k
              identifier := identifier
              precedenceNode := some j
              precedence := precedence
              sdfFilterId := sequenceId j % 256
              bearerId := (c.bearer b).id }
            .ok { c with pfList := update c.pfList b (c.pfList b++[f]) } (some f)
          else .abort c
      else .abort c

def giveBack (p : Pool) (node : Option Nat) : Pool := node.elim p p.release

/-- `smf_pf_remove`; the bearer is looked up by the id that the filter remembers. -/
def smfPfRemove (c : Bearers) (f : Nat) : Outcome Bearers Unit :=
  let x:=c.pf f
  match c.bearerPool.findById x.bearerId with
  | none => .abort c
  | some b =>
    let s:=(c.bearer b).sess
    let c:={ c with pfList := update c.pfList b ((c.pfList b).erase f) }
    ((c.texts.free x.flowDescription).mapState fun t => { c with texts := t }).bind fun c _ =>
      .ok { c with
        identifierPool :=
          update c.identifierPool b (giveBack (c.identifierPool b) x.identifierNode)
        precedencePool :=
          update c.precedencePool s (giveBack (c.precedencePool s) x.precedenceNode)
        pfPool := c.pfPool.idFree f x.id } ()

/-- `smf_pf_remove_all`, of the filters that are listed when it begins. -/
def smfPfRemoveAll (c : Bearers) : List Nat → Outcome Bearers Unit
  | [] => .ok c ()
  | f::fs => (c.smfPfRemove f).bind fun c _ => c.smfPfRemoveAll fs

def pfAddFlow (c : Bearers) (b : Nat) (direction : PfDirection) (description : List Byte) :
    Outcome Bearers (Option Nat) :=
  (c.smfPfAdd b).bind fun c f =>
    match f with
    | none => .ok c none
    | some f =>
      let (texts,k) := c.texts.strdup description
      .ok ({ c with texts := texts }.modifyPf f fun x =>
        { x with direction := direction,flowDescription := some k }) (some f)

def bearerCalloc (c : Bearers) (s : Nat) : Option (Bearers × Nat) :=
  match c.bearerPool.idCalloc with
  | (_,none) => none
  | (pool,some (b,id)) =>
    some ({ c with
      bearerPool := pool
      bearer := update c.bearer b { SmfBearer.zero with id := id,sess := s }
      identifierPool := update c.identifierPool b (Pool.init maxNumOfFlowInBearer)
      pfList := update c.pfList b [] },b)

def listBearer (c : Bearers) (s b : Nat) : Bearers :=
  { c with bearerList := update c.bearerList s (c.bearerList s++[b]) }

def smfBearerAdd (c : Bearers) (s : Nat) : Outcome Bearers Nat :=
  match c.bearerCalloc s with
  | none => .abort c
  | some (c,b) => .ok (c.listBearer s b) b

def smfQosFlowAdd (c : Bearers) (s : Nat) : Outcome Bearers Nat :=
  match c.bearerCalloc s with
  | none => .abort c
  | some (c,b) =>
    match (c.qfiPool s).alloc with
    | (_,none) => .abort c
    | (qfis,some k) =>
      let c:={ c with qfiPool := update c.qfiPool s qfis }
      let c:=c.modifyBearer b fun x => { x with qfiNode := some k,qfi := sequenceId k }
      .ok (c.listBearer s b) b

def smfBearerRemove (c : Bearers) (b : Nat) : Outcome Bearers Unit :=
  let x:=c.bearer b
  let c:={ c with
    bearerList := update c.bearerList x.sess ((c.bearerList x.sess).erase b) }
  (c.smfPfRemoveAll (c.pfList b)).bind fun c _ =>
    .ok { c with
      qfiPool := update c.qfiPool x.sess (giveBack (c.qfiPool x.sess) x.qfiNode)
      bearerPool := c.bearerPool.idFree b x.id } ()

def tftPut (x : SmfPf) (dl ul : PdrFlows) : Option (PdrFlows × PdrFlows) :=
  match x.direction with
  | .downlinkOnly =>
    some (dl.put fun e => { e with fd := true,description := x.flowDescription },ul)
  | .uplinkOnly =>
    some (dl,ul.put fun e => { e with fd := true,description := x.flowDescription })
  | .bidirectional =>
    some (dl.put fun _ => ⟨true,true,x.flowDescription,x.sdfFilterId⟩,
      ul.put fun e => { e with bid := true,sdfFilterId := x.sdfFilterId })
  | .unspecified => none

def smfBearerTftUpdate (c : Bearers) (b : Nat) : Outcome Bearers Unit :=
  let x:=c.bearer b
  let dl:={ x.dlPdr with numOfFlow := 0 }
  let ul:={ x.ulPdr with numOfFlow := 0 }
  match (c.pfList b).foldlM (fun p f => tftPut (c.pf f) p.1 p.2) (dl,ul) with
  | none => .abort c
  | some (dl,ul) => .ok (c.modifyBearer b fun x => { x with dlPdr := dl,ulPdr := ul }) ()

end Bearers

end OgsDp.Smf
