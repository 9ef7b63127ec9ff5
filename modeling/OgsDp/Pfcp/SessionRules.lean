import OgsDp.Pfcp.RuleStock
import OgsDp.Pfcp.SdfFilter
import OgsDp.Pfcp.TeidTable
import OgsDp.Pfcp.UserPlane

/-!
# All rules of the sessions (lib/pfcp/context.c and handler.c)

The rules of `Context` with the flow rules of the PDRs and the BAR that a session may have.
-/

namespace OgsDp.Pfcp
open Lib RefTable OgsDp.Core Function Option

structure PfcpContext where
  rules : Context
  flow : FlowRules
  bar : BarTable

structure CreatePdrIe where
  rule : CreatePdr
  urrIds : rule.urrId.length≤8
  sdfFilter : List (List Byte)

theorem noUrrIds : ([] : List (BitVec 32)).length≤8 := Nat.zero_le 8

structure UpdatePdrIe where
  rule : UpdatePdr
  sdfFilter : List (List Byte)

inductive RuleIe where
  | createPdr (env : Env) (restoration : Bool) (message : Option CreatePdrIe)
  | updatePdr (env : Env) (message : Option UpdatePdrIe)
  | createFar (message : Option FarIe)
  | updateFar (message : Option FarIe)
  | createUrr (env : Env) (message : Option UrrIe)
  | updateUrr (env : Env) (message : Option UrrIe)
  | createQer (message : Option QerIe)
  | updateQer (message : Option QerIe)
  | createBar (message : Option (Option Byte))

namespace PfcpContext

variable (assemble : List (List Byte) → Option IpfwRule) (x : PfcpContext)

def init (poolSess : Nat) (random : Nat → Nat) (seed : BitVec 32) : PfcpContext where
  rules := contextInit poolSess random seed
  flow := .init poolSess
  bar := .init poolSess

def setRules (c : Context) : PfcpContext := { x with rules := c }

def setFlow (t : FlowRules) : PfcpContext := { x with flow := t }

def setBar (t : BarTable) : PfcpContext := { x with bar := t }

def setFilters (s p : Nat) (srcIf : Byte) (sdfFilter : List (List Byte)) :
    Outcome PfcpContext Unit :=
  (x.flow.setFilters assemble (x.rules.pdrList s) p srcIf sdfFilter).mapState x.setFlow

def handleCreatePdr (env : Env) (s : Nat) (restoration : Bool) (message : Option CreatePdrIe) :
    Outcome PfcpContext Reply :=
  match message with
  | none => .ok x .absent
  | some m =>
    match m.rule.pdrId with
    | none => .ok x (.rejected .mandatoryIeMissing (some .pdrId))
    | some id =>
      ((pdrFindOrAdd x.rules s id).mapState x.setRules).bind fun x p =>
        let x:=x.setRules (m.rule.precedence.elim x.rules (pdrReorderByPrecedence x.rules p))
        match createPdrCheck env x.rules restoration m.rule.pdi with
        | .error reply => .ok x reply
        | .ok pdi =>
          (x.setFilters assemble s p (pdi.sourceInterface.getD 0) m.sdfFilter).bind fun x _ =>
            ((createPdrPdi x.rules p pdi).mapState x.setRules).bind fun x _ =>
              ((createPdrFar x.rules s p m.rule.farId).mapState x.setRules).bind fun x _ =>
                ((createPdrUrr s p (x.rules.modify p fun y => { y with urr := [] })
                  m.rule.urrId).mapState x.setRules).bind fun x _ =>
                    ((createPdrQer x.rules s p m.rule.qerId).mapState x.setRules).bind fun x _ =>
                      .ok x (.rule p)

def handleUpdatePdr (env : Env) (s : Nat) (message : Option UpdatePdrIe) :
    Outcome PfcpContext Reply :=
  match message with
  | none => .ok x .absent
  | some m =>
    match knownPdr x.rules s m.rule.pdrId with
    | .error reply => .ok x reply
    | .ok p =>
      match m.rule.pdi with
      | none => .ok x (.rule p)
      | some pdi =>
        if pdi.sourceInterface.isNone then
          .ok x (.rejected .mandatoryIeMissing (some .sourceInterface))
        else if pdi.localFTeid.any fun data => !fTeidHasAddr env data then
          .ok x (.rejected .mandatoryIeIncorrect (some .fTeid))
        else
          let x:=x.setRules (x.rules.modify p fun y => { y with
            srcIf := pdi.sourceInterface.getD 0
            srcIfType := pdi.sourceInterfaceType.or y.srcIfType })
          (x.setFilters assemble s p (pdi.sourceInterface.getD 0) m.sdfFilter).bind fun x _ =>
            .ok (x.setRules (x.rules.modify p fun y => { (pdi.localFTeid.elim id overlayFTeid) y with
              qfi := pdi.qfi.getD y.qfi })) (.rule p)

def handle (s : Nat) : RuleIe → Outcome PfcpContext Reply
  | .createPdr env restoration m => x.handleCreatePdr assemble env s restoration m
  | .updatePdr env m => x.handleUpdatePdr assemble env s m
  | .createFar m =>
    (handleCreateFar x.rules.far s m).mapState fun t => x.setRules { x.rules with far := t }
  | .updateFar m =>
    (handleUpdateFar x.rules.far s m).mapState fun t => x.setRules { x.rules with far := t }
  | .createUrr env m =>
    (handleCreateUrr env x.rules.urr s m).mapState fun t => x.setRules { x.rules with urr := t }
  | .updateUrr env m =>
    (handleUpdateUrr env x.rules.urr s m).mapState fun t => x.setRules { x.rules with urr := t }
  | .createQer m =>
    (handleCreateQer x.rules.qer s m).mapState fun t => x.setRules { x.rules with qer := t }
  | .updateQer m =>
    (handleUpdateQer x.rules.qer s m).mapState fun t => x.setRules { x.rules with qer := t }
  | .createBar m => (x.bar.handleCreateBar s m).mapState x.setBar

end PfcpContext

inductive PfcpOp where
  | rules (op : Op)
  | handle (s : Nat) (ie : RuleIe)
  | barNew (s : Nat)
  | barDelete (s : Nat)
  | handleRemoveBar (s : Nat) (message : Option (Option Byte))

def Op.handlesPdi : Op → Bool
  | .handleCreatePdr .. => true
  | .handleUpdatePdr .. => true
  | _ => false

/-- One call. `ogs_pfcp_pdr_remove` removes the flow rules of the PDR. -/
def PfcpContext.step (assemble : List (List Byte) → Option IpfwRule) (x : PfcpContext) :
    PfcpOp → Option (Outcome PfcpContext Reply)
  | .rules op =>
    if op.handlesPdi then none
    else (x.rules.step op).map fun o => o.mapState fun c =>
      { x with rules := c,flow := (op.removedPdr x.rules).elim x.flow x.flow.removeAll }
  | .handle s ie => some (x.handle assemble s ie)
  | .barNew s => some (((x.bar.barNew s).mapState x.setBar).bind fun x b => .ok x (.rule b))
  | .barDelete s => (x.bar.bar s).map fun b => .ok (x.setBar (x.bar.barDelete b)) .absent
  | .handleRemoveBar s m => some ((x.bar.handleRemoveBar s m).mapState x.setBar)

namespace BarTable

variable {t : BarTable} {s b : Nat}

def shelf (t : BarTable) : Shelf where
  pool := t.pool
  list := fun s => (t.bar s).toList
  idPool := t.idPool
  idNode := fun b => (t.slot b).idNode
  owner := fun b => (t.slot b).sess

abbrev Stocked (t : BarTable) : Prop := t.shelf.Stocked maxNumOfBar

theorem Stocked.barNew (h : t.Stocked) (s : Nat) :
    ((t.bar s=none ∧ 0<t.pool.avail) ∧
      ∃ t' b,t.barNew s = .ok t' b ∧ t'.Stocked ∧ t'.bar s=some b) ∨
      ¬ (t.bar s=none ∧ 0<t.pool.avail) ∧ ∃ t',t.barNew s = .abort t' := by
  unfold BarTable.barNew
  cases hbar : t.bar s with
  | some b => exact .inr ⟨fun hno => absurd hno.1 (by simp),_,rfl⟩
  | none =>
    rw [if_neg (by simp)]
    rcases Pool.Holds.alloc h.nodes with ⟨hnone,halloc⟩ | ⟨pool,b,halloc,hpos,-⟩
    · have halloc' : t.pool.alloc=(t.pool,none) := halloc
      have hnone' : t.pool.avail=0 := hnone
      rw [halloc']
      exact .inr ⟨fun hno => absurd hno.2 (by omega),_,rfl⟩
    · have halloc' : t.pool.alloc=(pool,some b) := halloc
      have hnil : t.shelf.list s=[] := by simp [shelf,hbar]
      have hfull:=h.ids_full hnil
      rw [halloc']
      dsimp only
      rcases Pool.Holds.alloc (h.ids s) with ⟨hno,-⟩ | ⟨idPool,k,hk,-,hlt,-⟩
      · rw [hfull] at hno
        cases hno
      · have hk' : (t.idPool s).alloc=(idPool,some k) := hk
        have hle : k+1 ≤ maxNumOfBar := by
          rw [← h.idSize s]
          exact hlt
        rw [hk']
        dsimp only
        rw [if_pos hle]
        refine .inl ⟨⟨rfl,hpos⟩,_,b,rfl,?_,update_self ..⟩
        have hid : ∀ b',b'≠b → update t.shelf.idNode b k b'=t.shelf.idNode b' :=
          fun b' hb' => update_of_ne hb' _ _
        have howner : ∀ b',b'≠b → update t.shelf.owner b s b'=t.shelf.owner b' :=
          fun b' hb' => update_of_ne hb' _ _
        have hadd:=Shelf.Stocked.add h (s := s) halloc hk hid howner
          (update_self ..) (update_self ..)
        refine hadd.congr ⟨rfl,?_,rfl,?_,?_⟩
        · intro s'
          by_cases he : s'=s
          · simp [shelf,he,hbar]
          · simp [shelf,update_of_ne he]
        · intro s' b' _
          by_cases he : b'=b
          · simp [shelf,he]
          · simp [shelf,he]
        · intro s' b' _
          by_cases he : b'=b
          · simp [shelf,he]
          · simp [shelf,he]

theorem Stocked.barDelete (h : t.Stocked) (hb : t.bar s=some b) :
    (t.barDelete b).Stocked ∧ (t.barDelete b).bar s=none ∧ 0<(t.barDelete b).pool.avail := by
  have hmem : b∈t.shelf.list s := by simp [shelf,hb]
  have hs : (t.slot b).sess=s := h.owner s b hmem
  have hremove:=h.remove hmem
  have havail : (t.pool.release b).avail=t.pool.avail+1 := h.nodes.release_avail ⟨s,hmem⟩
  have hlist : update t.shelf.list s ((t.shelf.list s).erase b) =
      fun s' => (update t.bar s none s').toList := by
    funext s'
    by_cases he : s'=s
    · simp [shelf,he,hb]
    · simp [shelf,update_of_ne he]
  rw [hlist] at hremove
  refine ⟨?_,?_,?_⟩
  · simp only [Stocked,shelf,BarTable.barDelete,hs]
    exact hremove
  · simp only [BarTable.barDelete,hs,update_self]
  · show 0<(t.pool.release b).avail
    omega

theorem Stocked.setId (h : t.Stocked) (b : Nat) (id : Byte) :
    Stocked { t with slot := update t.slot b { t.slot b with id := id } } := by
  refine h.congr ⟨rfl,fun _ => List.Perm.refl _,rfl,?_,?_⟩ <;>
  · intro s' b' _
    by_cases he : b'=b
    · simp [shelf,he]
    · simp [shelf,he]

theorem Stocked.handleCreateBar (h : t.Stocked) (s : Nat) (m : Option (Option Byte)) :
    ((m.join.isSome → (t.bar s).isSome ∨ 0<t.pool.avail) ∧
      ∃ t' r,t.handleCreateBar s m = .ok t' r ∧ t'.Stocked) ∨
      ¬ (m.join.isSome → (t.bar s).isSome ∨ 0<t.pool.avail) ∧
        ∃ t',t.handleCreateBar s m = .abort t' := by
  cases m with
  | none => exact .inl ⟨by simp,t,_,rfl,h⟩
  | some id =>
    cases id with
    | none => exact .inl ⟨by simp,t,_,rfl,h⟩
    | some id =>
      simp only [BarTable.handleCreateBar,deleteOf]
      cases hbar : t.bar s with
      | some b =>
        obtain ⟨h',hnone,hpos⟩ := h.barDelete hbar
        rcases h'.barNew s with ⟨-,t',b',hnew,ht,-⟩ | ⟨hno,-⟩
        · rw [elim_some,hnew]
          exact .inl ⟨by simp,_,_,rfl,ht.setId b' id⟩
        · exact absurd ⟨hnone,hpos⟩ hno
      | none =>
        rcases h.barNew s with ⟨hroom,t',b',hnew,ht,-⟩ | ⟨hno,t',hnew⟩
        · rw [elim_none,hnew]
          exact .inl ⟨fun _ => .inr hroom.2,_,_,rfl,ht.setId b' id⟩
        · rw [elim_none,hnew]
          refine .inr ⟨fun hall => hno ⟨hbar,?_⟩,t',rfl⟩
          exact (hall rfl).resolve_left (by simp)

theorem Stocked.handleRemoveBar (h : t.Stocked) (s : Nat) (m : Option (Option Byte)) :
    (t.handleRemoveBar s m).Returns fun t' _ => t'.Stocked := by
  cases m with
  | none => exact h
  | some id =>
    cases id with
    | none => exact h
    | some id =>
      simp only [BarTable.handleRemoveBar]
      cases hbar : t.bar s with
      | none => exact h
      | some b =>
        dsimp only
        split
        · exact (h.barDelete hbar).1
        · exact h

end BarTable

namespace PfcpContext

variable {assemble : List (List Byte) → Option IpfwRule} {x y : PfcpContext} {L : Nat → Prop}
  {s p : Nat} {c : Context}

structure Stocked (L : Nat → Prop) (x : PfcpContext) : Prop where
  rules : x.rules.Stocked L
  flow : x.flow.Stocked x.rules.pdrPool.size
  flowOf : ∀ p,¬ x.rules.Listed p → x.flow.list p=[]
  bars : x.bar.Stocked

theorem Stocked.init (poolSess : Nat) (random : Nat → Nat) (seed : BitVec 32) :
    (PfcpContext.init poolSess random seed).Stocked fun _ => False where
  rules := .init poolSess random seed
  flow := .init poolSess
  flowOf := fun _ _ => rfl
  bars := Shelf.Stocked.init _ _ _ _

theorem Stocked.setRules {M : Nat → Prop} (h : x.Stocked L) (hc : c.Stocked M)
    (hlisted : ∀ s p,p∈x.rules.pdrList s → p∈c.pdrList s)
    (hsize : c.pdrPool.size=x.rules.pdrPool.size) : (x.setRules c).Stocked M where
  rules := hc
  flow := by
    show x.flow.Stocked c.pdrPool.size
    rw [hsize]
    exact h.flow
  flowOf := by
    intro p hp
    refine h.flowOf p fun hno => hp ?_
    obtain ⟨s,hs⟩ := hno
    exact ⟨s,hlisted s p hs⟩
  bars := h.bars

theorem Stocked.setListed (h : x.Stocked L) (hc : c.Stocked L) (hsame : x.rules.SameListed c) :
    (x.setRules c).Stocked L :=
  h.setRules hc (fun s p hp => (hsame.list s p).mpr hp) hsame.size

theorem Stocked.congr (h : x.Stocked L) (hc : x.rules.SameNodes c) : (x.setRules c).Stocked L :=
  h.setListed (h.rules.congr hc) hc.listed

end PfcpContext

end OgsDp.Pfcp
