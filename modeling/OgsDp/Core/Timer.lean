import OgsDp.Core.Pool
import OgsDp.Core.RbTree
import OgsDp.Lib.LinkedList

/-!
# Timers (lib/core/ogs-timer.c)

A timer is named by its place in the pool of its manager; the place also names its tree node and
its list node.
-/

namespace OgsDp.Core
open Lib Lib.RedBlack Function

structure Timer where
  cb : Option Nat
  data : Nat
  running : Bool
  timeout : Int

structure TimerMgr where
  pool : Pool
  tree : RbTree
  lnode : LinkedList.Links Nat
  timer : Nat → Timer

namespace TimerMgr

inductive Fault where
  /-- A null pointer was followed, or a loop has used up its rounds. -/
  | stuck
  /-- An assertion of the source failed. -/
  | assert
  /-- The timer of the call is not in use. -/
  | freed
  deriving DecidableEq

def orStuck {α : Type} : Option α → Except Fault α
  | some a => .ok a
  | none => .error .stuck

def setTimer (m : TimerMgr) (x : Nat) (t : Timer) : TimerMgr :=
  { m with timer := update m.timer x t }

/-- `ogs_timer_mgr_create`; the memory of a new pool holds anything. -/
def create (capacity : Nat) (node : Nat → RbNode) (lnode : LinkedList.Links Nat)
    (timer : Nat → Timer) : TimerMgr :=
  ⟨Pool.init capacity,⟨none,node⟩,lnode,timer⟩

def add (m : TimerMgr) (cb : Option Nat) (data : Nat) : TimerMgr × Option Nat :=
  match m.pool.alloc with
  | (pool,none) => ({ m with pool := pool },none)
  | (pool,some x) =>
    ({ pool := pool
       tree := m.tree.write x ⟨none,none,none,.black⟩
       lnode := (m.lnode.setPrev x none).setNext x none
       timer := update m.timer x ⟨cb,data,false,0⟩ },some x)

def findLink (m : TimerMgr) (timeout : Int) :
    Nat → Option Nat → Side → Option Nat → Option (Option Nat × Side)
  | 0, _, _, _ => none
  | _+1, parent, d, none => some (parent,d)
  | rounds+1, _, _, some this =>
    let d := if timeout<(m.timer this).timeout then Side.left else .right
    m.findLink timeout rounds (some this) d ((m.tree.node this).child d)

def addTimerNode (m : TimerMgr) (rounds x : Nat) (now duration : Int) : Option TimerMgr :=
  let timeout:=now+duration
  let m:=m.setTimer x { m.timer x with timeout := timeout }
  match m.findLink timeout rounds none .left m.tree.root with
  | none => none
  | some (parent,d) =>
    ((m.tree.rbLinkNode x parent d).insertColor rounds x).map fun tree => { m with tree := tree }

def unlinkRunning (m : TimerMgr) (rounds x : Nat) : Except Fault RbTree :=
  if (m.timer x).running then orStuck (m.tree.rbDelete rounds x) else pure m.tree

/-- `ogs_timer_start`; `now` is what `ogs_get_monotonic_time` returns. -/
def start (m : TimerMgr) (rounds x : Nat) (now duration : Int) : Except Fault TimerMgr := do
  if duration=0 then throw .assert
  let tree ← m.unlinkRunning rounds x
  let m:={ m with tree := tree }
  let m:=m.setTimer x { m.timer x with running := true }
  orStuck (m.addTimerNode rounds x now duration)

def stop (m : TimerMgr) (rounds x : Nat) : Except Fault TimerMgr :=
  if (m.timer x).running=false then pure m
  else do
    let m:=m.setTimer x { m.timer x with running := false }
    let tree ← orStuck (m.tree.rbDelete rounds x)
    pure { m with tree := tree }

def delete (m : TimerMgr) (rounds x : Nat) : Except Fault TimerMgr := do
  let m ← m.stop rounds x
  pure { m with pool := m.pool.release x }

inductive Call where
  | start (timer : Nat) (now duration : Int)
  | stop (timer : Nat)
  | delete (timer : Nat)
  deriving DecidableEq

def Call.timer : Call → Nat
  | .start x _ _ => x
  | .stop x => x
  | .delete x => x

/-- A call made for a timer that was added and not deleted since. -/
def call (m : TimerMgr) (rounds : Nat) (c : Call) : Except Fault TimerMgr :=
  if m.pool.index c.timer=some c.timer then
    match c with
    | .start x now duration => m.start rounds x now duration
    | .stop x => m.stop rounds x
    | .delete x => m.delete rounds x
  else throw .freed

def calls (m : TimerMgr) (rounds : Nat) : List Call → Except Fault TimerMgr
  | [] => pure m
  | c::cs => do
    let m ← m.call rounds c
    m.calls rounds cs

structure Fired where
  timer : Nat
  cb : Nat
  data : Nat
  deriving DecidableEq

def collect (m : TimerMgr) (rounds : Nat) (current : Int) :
    Nat → Option Nat → LinkedList.Links Nat → LinkedList.Head Nat →
      Option (LinkedList.Links Nat × LinkedList.Head Nat)
  | 0, _, _, _ => none
  | _+1, none, lnode, list => some (lnode,list)
  | n+1, some this, lnode, list =>
    if current<(m.timer this).timeout then some (lnode,list)
    else
      match m.tree.rbNext rounds this with
      | none => none
      | some next =>
        let (lnode,list) := LinkedList.add lnode list this
        m.collect rounds current n next lnode list

def fire (rounds : Nat) (made : Nat → List Call) :
    Nat → TimerMgr → Option Nat → Except Fault (TimerMgr × List Fired)
  | 0, _, _ => throw .stuck
  | _+1, m, none => pure (m,[])
  | n+1, m, some this => do
    let m ← m.stop rounds this
    match (m.timer this).cb with
    | none => fire rounds made n m (m.lnode.next this)
    | some cb =>
      let data:=(m.timer this).data
      let m ← m.calls rounds (made this)
      let (m,fired) ← fire rounds made n m (m.lnode.next this)
      pure (m,⟨this,cb,data⟩::fired)

def expire (m : TimerMgr) (rounds : Nat) (current : Int) (made : Nat → List Call) :
    Except Fault (TimerMgr × List Fired) := do
  let first ← orStuck (m.tree.rbFirst rounds)
  let (lnode,list) ← orStuck
    (m.collect rounds current rounds first m.lnode LinkedList.Head.empty)
  fire rounds made rounds { m with lnode := lnode } list.next

def infiniteTime : Int := -1

def noWaitTime : Int := 0

def mgrNext (m : TimerMgr) (rounds : Nat) (current : Int) : Option Int :=
  (m.tree.rbFirst rounds).map fun first =>
    match first with
    | some this =>
      if current<(m.timer this).timeout then (m.timer this).timeout-current else noWaitTime
    | none => infiniteTime

/-- The timers that the calls start, the last one first, in front of those started before. -/
def started (log : List Nat) : List Call → List Nat
  | [] => log
  | .start x _ _::cs => started (x::log) cs
  | _::cs => started log cs

/-- What a manager becomes by its calls, and the timers that were started until then. -/
inductive Reaches (capacity rounds : Nat) : TimerMgr → List Nat → Prop where
  | create (node : Nat → RbNode) (lnode : LinkedList.Links Nat) (timer : Nat → Timer) :
      Reaches capacity rounds (create capacity node lnode timer) []
  | add {m : TimerMgr} {log : List Nat} (cb : Option Nat) (data : Nat) :
      Reaches capacity rounds m log → Reaches capacity rounds (m.add cb data).1 log
  | call {m m' : TimerMgr} {log : List Nat} {c : Call} :
      Reaches capacity rounds m log → m.call rounds c = .ok m' →
      Reaches capacity rounds m' (started log [c])
  | expire {m m' : TimerMgr} {log : List Nat} {current : Int} {made : Nat → List Call}
      {fired : List Fired} :
      Reaches capacity rounds m log → m.expire rounds current made = .ok (m',fired) →
      Reaches capacity rounds m' (started log (fired.flatMap fun f => made f.timer))

end TimerMgr
end OgsDp.Core
