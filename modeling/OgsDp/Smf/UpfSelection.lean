import OgsDp.Core.CString
import OgsDp.Lib.RoundRobin

/-!
# The UPF of a session (src/smf/context.c)

The peers are searched from the one behind the last that was selected.
-/

namespace OgsDp.Smf
open OgsDp.Core Lib RoundRobin

structure UpfNode where
  dnn : List (List Byte)
  eCellId : List (BitVec 32)
  nrCellId : List (BitVec 64)
  tac : List (BitVec 16)

def ratTypeEutran : Byte := 6

/-- The radio access of a session: the RAT type, TAC and cell of an EPS session, the TAC and the
cell of a 5G session. -/
inductive Access where
  | eps (ratType : Byte) (tac : BitVec 16) (cellId : BitVec 32)
  | nr (tac : BitVec 24) (cellId : BitVec 64)

namespace Access

-- The fields of `smf_sess_t`; `ogs_pool_id_calloc` leaves zero in those of the other access.
def gtpRatType : Access → Byte
  | eps ratType _ _ => ratType
  | nr _ _ => 0

def eTac : Access → BitVec 16
  | eps _ tac _ => tac
  | nr _ _ => 0

def eCellId : Access → BitVec 32
  | eps _ _ cellId => cellId
  | nr _ _ => 0

def nrTac : Access → BitVec 24
  | eps _ _ _ => 0
  | nr tac _ => tac

def nrCellId : Access → BitVec 64
  | eps _ _ _ => 0
  | nr _ cellId => cellId

end Access

structure SelectingSess where
  name : List Byte
  access : Access

def compareUeInfo (node : UpfNode) (sess : SelectingSess) : Bool :=
  (node.dnn.any fun dnn => sameNoCase dnn sess.name) ||
  (node.eCellId.any fun cell =>
    decide (sess.access.gtpRatType=ratTypeEutran) && decide (cell=sess.access.eCellId)) ||
  (node.nrCellId.any fun cell => decide (cell=sess.access.nrCellId)) ||
  node.tac.any fun tac =>
    decide (sess.access.gtpRatType=ratTypeEutran) && decide (tac=sess.access.eTac) ||
      decide (tac.toNat=sess.access.nrTac.toNat)

/-- The list of peers, whether `no_pfcp_rr_select` is 0, and the last peer that was selected. -/
structure Upfs where
  peers : List UpfNode
  rrSelect : Bool
  last : Option Nat
  nonempty : 0<peers.length
  last_lt : ∀ i∈last,i<peers.length

namespace Upfs

variable (u : Upfs)

def search (c : Nat → Bool) (current : Nat) : Option Nat :=
  ((List.range' (current+1) (u.peers.length-(current+1))).find? c).or
    ((List.range (current+1)).find? c)

def compare (sess : SelectingSess) (i : Nat) : Bool :=
  match u.peers[i]? with
  | some node => compareUeInfo node sess
  | none => false

def selectedUpfNode (associated : Nat → Bool) (sess : SelectingSess) (current : Nat) : Nat :=
  match u.search (fun i => associated i && u.compare sess i) current with
  | some i => i
  | none =>
    match if u.rrSelect then u.search associated current else none with
    | some i => i
    | none => 0

def start : Nat := u.last.getD (u.peers.length-1)

def smfSessSelectUpf (associated : Nat → Bool) (sess : SelectingSess) : Nat :=
  u.selectedUpfNode associated sess u.start

def selectionsFrom (sess : SelectingSess) : List (Nat → Bool) → Nat → List Nat
  | [], _ => []
  | associated::more, current =>
    let i:=u.selectedUpfNode associated sess current
    i::selectionsFrom sess more i

def selections (sess : SelectingSess) (times : List (Nat → Bool)) : List Nat :=
  u.selectionsFrom sess times u.start

end Upfs

/-- The cell or the TAC of the session's own access is in the list. -/
def Access.Covered (node : UpfNode) : Access → Prop
  | .eps ratType tac cellId => ratType=ratTypeEutran ∧ (cellId∈node.eCellId ∨ tac∈node.tac)
  | .nr tac cellId => cellId∈node.nrCellId ∨ ∃ t∈node.tac,t.toNat=tac.toNat

def UpfNode.Serves (node : UpfNode) (sess : SelectingSess) : Prop :=
  (∃ dnn∈node.dnn,dnn.map toLower=sess.name.map toLower) ∨ sess.access.Covered node

/-- A peer taken for one that serves an EPS session: it has the number zero as a TAC or as a cell
of 5G. -/
def UpfNode.Stray (node : UpfNode) (sess : SelectingSess) : Prop :=
  ¬ node.Serves sess ∧ (∃ ratType tac cellId,sess.access = .eps ratType tac cellId) ∧
    (0∈node.nrCellId ∨ 0∈node.tac)

namespace Upfs

variable (u : Upfs)

def ServesAt (sess : SelectingSess) (i : Nat) : Prop :=
  ∃ node,u.peers[i]?=some node ∧ node.Serves sess

def StrayAt (sess : SelectingSess) (i : Nat) : Prop :=
  ∃ node,u.peers[i]?=some node ∧ node.Stray sess

def Served (associated : Nat → Bool) (sess : SelectingSess) (i : Nat) : Prop :=
  associated i=true ∧ u.ServesAt sess i

/-- A peer that may be selected: one that serves, or any where none serves and there is a
fallback. -/
def Eligible (associated : Nat → Bool) (sess : SelectingSess) (i : Nat) : Prop :=
  u.Served associated sess i ∨
    u.rrSelect=true ∧ (¬ ∃ j,u.Served associated sess j) ∧ i<u.peers.length ∧
      associated i=true

structure SelectsRightly (associated : Nat → Bool) (sess : SelectingSess) : Prop where
  serves : (∃ i,u.Served associated sess i) →
    u.Served associated sess (u.smfSessSelectUpf associated sess)
  fallback : (¬ ∃ i,u.Served associated sess i) → u.rrSelect=true →
    (∃ i<u.peers.length,associated i=true) →
    u.smfSessSelectUpf associated sess<u.peers.length ∧
      associated (u.smfSessSelectUpf associated sess)=true

/-- Going round, no stray peer comes before the first one that serves. -/
def NoStrayFirst (associated : Nat → Bool) (sess : SelectingSess) (current : Nat) : Prop :=
  ∀ front i behind,around u.peers.length current=front++i::behind →
    associated i=true → u.StrayAt sess i → ∃ j∈front,u.Served associated sess j

/-- No stray peer is in the way; where none serves, all associated peers are stray or none is. -/
structure InTurn (associated : Nat → Bool) (sess : SelectingSess) (current : Nat) : Prop where
  serves : (∃ i,u.Served associated sess i) → u.NoStrayFirst associated sess current
  fallback : (¬ ∃ i,u.Served associated sess i) →
    (∀ i<u.peers.length,associated i=true → u.StrayAt sess i) ∨
      ∀ i<u.peers.length,associated i=true → ¬ u.StrayAt sess i

def EachInTurnFrom (sess : SelectingSess) : List (Nat → Bool) → Nat → Prop
  | [], _ => True
  | associated::more, current =>
    u.InTurn associated sess current ∧
      EachInTurnFrom sess more (u.selectedUpfNode associated sess current)

def EachInTurn (sess : SelectingSess) (times : List (Nat → Bool)) : Prop :=
  u.EachInTurnFrom sess times u.start

end Upfs

theorem compareUeInfo_iff {node : UpfNode} {sess : SelectingSess} :
    compareUeInfo node sess=true ↔ node.Serves sess ∨ node.Stray sess := by
  have hor : node.Serves sess ∨ node.Stray sess ↔ node.Serves sess ∨
      (∃ ratType tac cellId,sess.access = .eps ratType tac cellId) ∧
        (0∈node.nrCellId ∨ 0∈node.tac) := by
    unfold UpfNode.Stray
    tauto
  have hzero : (∃ t∈node.tac,t.toNat=0) ↔ 0∈node.tac := by
    constructor
    · intro h
      obtain ⟨t,ht,h0⟩ := h
      rw [show (0 : BitVec 16)=t from BitVec.eq_of_toNat_eq h0.symm]
      exact ht
    · exact fun h => ⟨0,h,rfl⟩
  rw [hor]
  unfold compareUeInfo UpfNode.Serves sameNoCase
  simp only [Bool.or_eq_true,List.any_eq_true,Bool.and_eq_true,decide_eq_true_eq]
  cases hacc : sess.access with
  | eps ratType tac cellId =>
    simp only [Access.Covered,Access.gtpRatType,Access.eTac,Access.eCellId,Access.nrTac,
      Access.nrCellId]
    have hcell : (∃ x∈node.eCellId,ratType=ratTypeEutran ∧ x=cellId) ↔
        ratType=ratTypeEutran ∧ cellId∈node.eCellId := by
      constructor
      · intro h
        obtain ⟨x,hx,hrat,rfl⟩ := h
        exact ⟨hrat,hx⟩
      · exact fun h => ⟨cellId,h.2,h.1,rfl⟩
    have htac : (∃ x∈node.tac,ratType=ratTypeEutran ∧ x=tac ∨
          x.toNat=(0 : BitVec 24).toNat) ↔
        ratType=ratTypeEutran ∧ tac∈node.tac ∨ 0∈node.tac := by
      rw [← hzero]
      constructor
      · intro h
        obtain ⟨x,hx,⟨hrat,rfl⟩ | h0⟩ := h
        · exact .inl ⟨hrat,hx⟩
        · exact .inr ⟨x,hx,h0⟩
      · intro h
        rcases h with h | h
        · exact ⟨tac,h.2,.inl ⟨h.1,rfl⟩⟩
        · obtain ⟨x,hx,h0⟩ := h
          exact ⟨x,hx,.inr h0⟩
    have hnr : (∃ x∈node.nrCellId,x=0) ↔ 0∈node.nrCellId := by simp
    have heps : ∃ r t c,Access.eps ratType tac cellId = .eps r t c := ⟨_,_,_,rfl⟩
    rw [hcell,htac,hnr,and_iff_right heps,and_or_left]
    simp only [or_assoc,or_comm,or_left_comm]
  | nr tac cellId =>
    have heutran : ¬ (0 : Byte)=ratTypeEutran := by decide
    have hno : ¬ ∃ r t c,Access.nr tac cellId = .eps r t c := by simp
    simp only [Access.Covered,Access.gtpRatType,Access.nrTac,Access.nrCellId,heutran,hno,
      false_and,and_false,exists_false,or_false,false_or,or_assoc]
    have hnr : (∃ x∈node.nrCellId,x=cellId) ↔ cellId∈node.nrCellId := by simp
    rw [hnr]

namespace Upfs

variable {u : Upfs} {associated : Nat → Bool} {sess : SelectingSess} {current i : Nat}
  {times : List (Nat → Bool)} {eligible : List Nat}

theorem compare_iff : u.compare sess i=true ↔ u.ServesAt sess i ∨ u.StrayAt sess i := by
  unfold compare ServesAt StrayAt
  cases u.peers[i]? with
  | none => simp
  | some node => simp [compareUeInfo_iff]

theorem ServesAt.lt (h : u.ServesAt sess i) : i<u.peers.length := by
  obtain ⟨node,hnode,-⟩ := h
  exact (List.getElem?_eq_some_iff.mp hnode).1

theorem not_serves_of_stray (h : u.StrayAt sess i) : ¬ u.ServesAt sess i := by
  intro hs
  obtain ⟨node,hnode,hstray⟩ := h
  obtain ⟨node',hnode',hserves⟩ := hs
  rw [hnode] at hnode'
  exact hstray.1 (Option.some.inj hnode' ▸ hserves)

theorem start_lt (u : Upfs) : u.start<u.peers.length := by
  unfold start
  cases hlast : u.last with
  | none =>
    have hpos:=u.nonempty
    rw [Option.getD_none]
    omega
  | some i => exact u.last_lt i hlast

theorem search_eq (c : Nat → Bool) (current : Nat) :
    u.search c current=next c u.peers.length current := by
  unfold search next around
  rw [List.find?_append]

def candidate (u : Upfs) (associated : Nat → Bool) (sess : SelectingSess) (i : Nat) : Bool :=
  associated i && u.compare sess i

theorem candidate_iff : u.candidate associated sess i=true ↔
    u.Served associated sess i ∨ associated i=true ∧ u.StrayAt sess i := by
  unfold candidate Served
  rw [Bool.and_eq_true,compare_iff,and_or_left]

theorem selectedUpfNode_eq (u : Upfs) (associated : Nat → Bool) (sess : SelectingSess)
    (current : Nat) : u.selectedUpfNode associated sess current =
      ((next (u.candidate associated sess) u.peers.length current).or
        (if u.rrSelect then next associated u.peers.length current else none)).getD 0 := by
  have hcand : (fun i => associated i && u.compare sess i)=u.candidate associated sess := rfl
  unfold selectedUpfNode
  rw [hcand,search_eq,search_eq]
  cases next (u.candidate associated sess) u.peers.length current with
  | some i => rfl
  | none =>
    rw [Option.none_or]
    cases if u.rrSelect then next associated u.peers.length current else none with
    | some i => rfl
    | none => rfl

theorem selected_cases (u : Upfs) (associated : Nat → Bool) (sess : SelectingSess)
    (h : current<u.peers.length) :
    (∃ i,u.selectedUpfNode associated sess current=i ∧
      next (u.candidate associated sess) u.peers.length current=some i) ∨
    (∀ j<u.peers.length,u.candidate associated sess j=false) ∧
      ((∃ i,u.rrSelect=true ∧ u.selectedUpfNode associated sess current=i ∧
          next associated u.peers.length current=some i) ∨
        (u.rrSelect=true → ∀ j<u.peers.length,associated j=false) ∧
          u.selectedUpfNode associated sess current=0) := by
  rw [selectedUpfNode_eq]
  cases hfirst : next (u.candidate associated sess) u.peers.length current with
  | some i => exact .inl ⟨i,rfl,rfl⟩
  | none =>
    refine .inr ⟨(next_eq_none h).mp hfirst,?_⟩
    rw [Option.none_or]
    by_cases hrr : u.rrSelect=true
    · rw [if_pos hrr]
      cases hsecond : next associated u.peers.length current with
      | some i => exact .inl ⟨i,hrr,rfl,rfl⟩
      | none => exact .inr ⟨fun _ => (next_eq_none h).mp hsecond,rfl⟩
    · rw [if_neg hrr]
      exact .inr ⟨fun hyes => absurd hyes hrr,rfl⟩

theorem selected_lt (h : current<u.peers.length) :
    u.selectedUpfNode associated sess current<u.peers.length := by
  obtain ⟨i,hi,hnext⟩ | ⟨-,⟨i,-,hi,hnext⟩ | ⟨-,hi⟩⟩ := u.selected_cases associated sess h
  · rw [hi]
    exact (next_lt h hnext).1
  · rw [hi]
    exact (next_lt h hnext).1
  · rw [hi]
    exact u.nonempty

theorem served_iff (h : current<u.peers.length) (hsome : ∃ i,u.Served associated sess i) :
    u.Served associated sess (u.selectedUpfNode associated sess current) ↔
      u.NoStrayFirst associated sess current := by
  obtain ⟨k,hk⟩ := hsome
  have hcand : u.candidate associated sess k=true := candidate_iff.mpr (.inl hk)
  obtain ⟨i,hi,hnext⟩ | ⟨hno,-⟩ := u.selected_cases associated sess h
  · rw [hi]
    obtain ⟨front,behind,hsplit,hcandi,hfront⟩ := next_eq_some.mp hnext
    constructor
    · intro hserved front' j behind' hsplit' hassoc hstray
      -- The selected peer is in front of each stray one.
      have hj : u.candidate associated sess j=true := candidate_iff.mpr (.inr ⟨hassoc,hstray⟩)
      rcases List.append_eq_append_iff.mp (hsplit.symm.trans hsplit') with
        ⟨mid,hmid,hrest⟩ | ⟨mid,hmid,hrest⟩
      · cases mid with
        | nil =>
          obtain rfl : i=j := (List.cons.inj hrest).1
          exact absurd hserved.2 (not_serves_of_stray hstray)
        | cons x mid =>
          obtain rfl : i=x := (List.cons.inj hrest).1
          exact ⟨i,by simp [hmid],hserved⟩
      · cases mid with
        | nil =>
          obtain rfl : j=i := (List.cons.inj hrest).1
          exact absurd hserved.2 (not_serves_of_stray hstray)
        | cons x mid =>
          obtain rfl : j=x := (List.cons.inj hrest).1
          rw [hfront j (by simp [hmid])] at hj
          cases hj
    · intro hfirst
      rcases candidate_iff.mp hcandi with hserved | ⟨hassoc,hstray⟩
      · exact hserved
      · obtain ⟨j,hj,hserved⟩ := hfirst front i behind hsplit hassoc hstray
        have hcandj:=candidate_iff.mpr (.inl hserved)
        rw [hfront j hj] at hcandj
        cases hcandj
  · rw [hno k hk.2.lt] at hcand
    cases hcand

theorem fallback_selected (h : current<u.peers.length) (hrr : u.rrSelect=true)
    (hassoc : ∃ i<u.peers.length,associated i=true) :
    u.selectedUpfNode associated sess current<u.peers.length ∧
      associated (u.selectedUpfNode associated sess current)=true := by
  obtain ⟨i,hi,hnext⟩ | ⟨-,⟨i,-,hi,hnext⟩ | ⟨hno,-⟩⟩ := u.selected_cases associated sess h
  · rw [hi]
    obtain ⟨hlt,hcand⟩ := next_lt h hnext
    rcases candidate_iff.mp hcand with hserved | ⟨ha,-⟩
    · exact ⟨hlt,hserved.1⟩
    · exact ⟨hlt,ha⟩
  · rw [hi]
    exact next_lt h hnext
  · obtain ⟨i,hlt,ha⟩ := hassoc
    rw [hno hrr i hlt] at ha
    cases ha

theorem selectsRightly_iff : u.SelectsRightly associated sess ↔
    ((∃ i,u.Served associated sess i) → u.NoStrayFirst associated sess u.start) := by
  constructor
  · exact fun h hsome => (served_iff u.start_lt hsome).mp (h.serves hsome)
  · intro h
    exact ⟨fun hsome => (served_iff u.start_lt hsome).mpr (h hsome),
      fun _ hrr hassoc => fallback_selected u.start_lt hrr hassoc⟩

theorem Eligible.lt (h : u.Eligible associated sess i) : i<u.peers.length := by
  rcases h with hserved | hfallback
  · exact hserved.2.lt
  · exact hfallback.2.2.1

theorem Eligible.is_up (h : u.Eligible associated sess i) : associated i=true := by
  rcases h with hserved | hfallback
  · exact hserved.1
  · exact hfallback.2.2.2

theorem Eligible.served (h : u.Eligible associated sess i)
    (hsome : ∃ j,u.Served associated sess j) : u.Served associated sess i :=
  h.resolve_right fun hfallback => hfallback.2.1 hsome

theorem InTurn.next_eligible (hturn : u.InTurn associated sess current)
    (h : current<u.peers.length) (hall : ∀ i,u.Eligible associated sess i ↔ i∈eligible)
    (hsome : ∃ i,u.Eligible associated sess i) :
    next (fun i => eligible.contains i) u.peers.length current =
      some (u.selectedUpfNode associated sess current) := by
  have hmem : ∀ j,eligible.contains j=true ↔ u.Eligible associated sess j := by
    intro j
    rw [hall,List.contains_iff_mem]
  by_cases hserved : ∃ i,u.Served associated sess i
  · have hsel:=(served_iff h hserved).mpr (hturn.serves hserved)
    obtain ⟨i,hi,hnext⟩ | ⟨hno,-⟩ := u.selected_cases associated sess h
    · rw [hi] at hsel ⊢
      refine next_of_imp h ?_ hnext ((hmem i).mpr (.inl hsel))
      intro j _ hj
      exact candidate_iff.mpr (.inl (((hmem j).mp hj).served hserved))
    · obtain ⟨k,hk⟩ := hserved
      have hcand:=candidate_iff.mpr (.inl hk)
      rw [hno k hk.2.lt] at hcand
      cases hcand
  · obtain ⟨k,hk⟩ := hsome
    have hrr : u.rrSelect=true := (hk.resolve_left fun hs => hserved ⟨k,hs⟩).1
    have heligible : ∀ j<u.peers.length,associated j=true → eligible.contains j=true :=
      fun j hj ha => (hmem j).mpr (.inr ⟨hrr,hserved,hj,ha⟩)
    have hassoc : ∀ j,u.candidate associated sess j=true →
        associated j=true ∧ u.StrayAt sess j := by
      intro j hj
      exact (candidate_iff.mp hj).resolve_left fun hs => hserved ⟨j,hs⟩
    rcases hturn.fallback hserved with hevery | hnone
    · obtain ⟨i,hi,hnext⟩ | ⟨hno,-⟩ := u.selected_cases associated sess h
      · rw [hi]
        obtain ⟨hlt,hcand⟩ := next_lt h hnext
        refine next_of_imp h ?_ hnext (heligible i hlt (hassoc i hcand).1)
        intro j hj hc
        have ha:=((hmem j).mp hc).is_up
        exact candidate_iff.mpr (.inr ⟨ha,hevery j hj ha⟩)
      · have hcand:=candidate_iff.mpr
          (.inr ⟨hk.is_up,hevery k hk.lt hk.is_up⟩)
        rw [hno k hk.lt] at hcand
        cases hcand
    · obtain ⟨i,hi,hnext⟩ | ⟨-,⟨i,-,hi,hnext⟩ | ⟨hno,-⟩⟩ :=
        u.selected_cases associated sess h
      · obtain ⟨hlt,hcand⟩ := next_lt h hnext
        have hstray:=hassoc i hcand
        exact absurd hstray.2 (hnone i hlt hstray.1)
      · rw [hi]
        obtain ⟨hlt,ha⟩ := next_lt h hnext
        refine next_of_imp h ?_ hnext (heligible i hlt ha)
        exact fun j _ hj => ((hmem j).mp hj).is_up
      · have ha:=hk.is_up
        rw [hno hrr k hk.lt] at ha
        cases ha

theorem follows_of_eachInTurn (h : current<u.peers.length)
    (hall : ∀ a∈times,∀ i,u.Eligible a sess i ↔ i∈eligible) (hne : eligible≠[])
    (hturns : u.EachInTurnFrom sess times current) :
    Follows (fun i => eligible.contains i) u.peers.length current
      (u.selectionsFrom sess times current) := by
  induction times generalizing current with
  | nil => trivial
  | cons a times ih =>
    obtain ⟨hturn,hrest⟩ := hturns
    obtain ⟨ha,hmore⟩ := List.forall_mem_cons.mp hall
    obtain ⟨k,hk⟩ := List.exists_mem_of_ne_nil eligible hne
    exact ⟨hturn.next_eligible h ha ⟨k,(ha k).mpr hk⟩,ih (selected_lt h) hmore hrest⟩

theorem mem_selectionsFrom (h : current<u.peers.length)
    (hi : i∈u.selectionsFrom sess times current) :
    ∃ a∈times,∃ cur<u.peers.length,u.selectedUpfNode a sess cur=i := by
  induction times generalizing current with
  | nil => cases hi
  | cons a times ih =>
    rcases List.mem_cons.mp hi with rfl | hi
    · exact ⟨a,List.mem_cons_self ..,current,h,rfl⟩
    · obtain ⟨b,hb,hsel⟩ := ih (selected_lt h) hi
      exact ⟨b,List.mem_cons_of_mem _ hb,hsel⟩

theorem eachInTurn_of_selections (h : current<u.peers.length)
    (hstep : ∀ a∈times,∀ cur<u.peers.length,
      u.selectedUpfNode a sess cur∈eligible → u.InTurn a sess cur)
    (hmem : ∀ i∈u.selectionsFrom sess times current,i∈eligible) :
    u.EachInTurnFrom sess times current := by
  induction times generalizing current with
  | nil => trivial
  | cons a times ih =>
    obtain ⟨hsel,hrest⟩ := List.forall_mem_cons.mp hmem
    obtain ⟨ha,hmore⟩ := List.forall_mem_cons.mp hstep
    exact ⟨ha current h hsel,ih (selected_lt h) hmore hrest⟩

theorem inTurn_of_selected (hall : ∀ a∈times,∀ i,u.Eligible a sess i ↔ i∈eligible)
    (hperm : (u.selections sess times).Perm eligible) (ha : associated∈times)
    (h : current<u.peers.length)
    (hsel : u.selectedUpfNode associated sess current∈eligible) :
    u.InTurn associated sess current := by
  have heligible:=(hall associated ha _).mpr hsel
  constructor
  · exact fun hserved => (served_iff h hserved).mp (heligible.served hserved)
  · intro hserved
    have hrr : u.rrSelect=true := (heligible.resolve_left fun hs => hserved ⟨_,hs⟩).1
    by_contra hmixed
    simp only [not_or,not_forall] at hmixed
    obtain ⟨⟨i,hi,hai,hclean⟩,⟨j,hj,haj,hstray⟩⟩ := hmixed
    have hmem : ∀ k<u.peers.length,associated k=true → k∈eligible :=
      fun k hk hak => (hall associated ha k).mp (.inr ⟨hrr,hserved,hk,hak⟩)
    -- The peer that is not stray is selected at some time, with the stray one among the candidates.
    obtain ⟨b,hb,cur,hcur,hb'⟩ := mem_selectionsFrom u.start_lt (hperm.mem_iff.mpr (hmem i hi hai))
    have hbj:=((hall b hb j).mpr (hmem j hj haj)).is_up
    have hcand : u.candidate b sess j=true :=
      candidate_iff.mpr (.inr ⟨hbj,not_not.mp hstray⟩)
    obtain ⟨k,hk,hnext⟩ | ⟨hno,-⟩ := u.selected_cases b sess hcur
    · rw [hb'] at hk
      subst hk
      rcases candidate_iff.mp (next_lt hcur hnext).2 with hs | hs
      · exact hserved ⟨i,hai,hs.2⟩
      · exact hclean hs.2
    · rw [hno j hj] at hcand
      cases hcand

theorem length_selectionsFrom :
    (u.selectionsFrom sess times current).length=times.length := by
  induction times generalizing current with
  | nil => rfl
  | cons a times ih => rw [selectionsFrom,List.length_cons,List.length_cons,ih]

theorem filter_perm (hnodup : eligible.Nodup) (hlt : ∀ i∈eligible,i<u.peers.length) :
    ((List.range u.peers.length).filter fun i => eligible.contains i).Perm eligible := by
  refine (List.perm_ext_iff_of_nodup (List.nodup_range.filter _) hnodup).mpr fun i => ?_
  rw [List.mem_filter,List.mem_range,List.contains_iff_mem]
  exact ⟨fun hi => hi.2,fun hi => ⟨hlt i hi,hi⟩⟩

theorem selections_perm_iff (hnodup : eligible.Nodup) (hk : times.length=eligible.length)
    (hall : ∀ a∈times,∀ i,u.Eligible a sess i ↔ i∈eligible) :
    (u.selections sess times).Perm eligible ↔ u.EachInTurn sess times := by
  constructor
  · intro hperm
    exact eachInTurn_of_selections u.start_lt
      (fun a ha cur hcur hsel => inTurn_of_selected hall hperm ha hcur hsel)
      fun i hi => hperm.mem_iff.mp hi
  · intro hturns
    cases times with
    | nil =>
      rw [List.length_eq_zero_iff.mp hk.symm]
      exact List.Perm.refl _
    | cons a times =>
      have hne : eligible≠[] := by
        rintro rfl
        cases hk
      have hlt : ∀ i∈eligible,i<u.peers.length :=
        fun i hi => ((hall a (List.mem_cons_self ..) i).mpr hi).lt
      have hfilter:=filter_perm hnodup hlt
      have hfollows:=follows_of_eachInTurn u.start_lt hall hne hturns
      refine (follows_perm u.start_lt hfollows ?_).trans hfilter
      rw [length_selectionsFrom,hk,hfilter.length_eq]

/-- One selection is right exactly if no stray peer comes before one that serves, and the
selections take turns exactly if this is so at each of them. -/
theorem upf_selection (u : Upfs) (associated : Nat → Bool) (sess : SelectingSess)
    (times : List (Nat → Bool)) (eligible : List Nat) (hnodup : eligible.Nodup)
    (hk : times.length=eligible.length)
    (hall : ∀ a∈times,∀ i,u.Eligible a sess i ↔ i∈eligible) :
    (u.SelectsRightly associated sess ↔
      ((∃ i,u.Served associated sess i) → u.NoStrayFirst associated sess u.start)) ∧
    ((u.selections sess times).Perm eligible ↔ u.EachInTurn sess times) :=
  ⟨selectsRightly_iff,selections_perm_iff hnodup hk hall⟩

end Upfs

def internetName : List Byte := [105,110,116,101,114,110,101,116]

def dnnPeer : UpfNode := ⟨[internetName],[],[],[]⟩

def zeroPeer : UpfNode := ⟨[],[],[],[0]⟩

def epsSess : SelectingSess := ⟨internetName,.eps ratTypeEutran 7 1⟩

def twoPeers (first : UpfNode) : Upfs where
  peers := [first,dnnPeer]
  rrSelect := true
  last := none
  nonempty := Nat.succ_pos _
  last_lt := by simp

theorem dnnPeer_serves (sess : SelectingSess) (h : sess.name=internetName) :
    dnnPeer.Serves sess :=
  .inl ⟨internetName,List.mem_singleton_self _,by rw [h]⟩

theorem upf_selection_dnn :
    (∀ a∈[fun _ => true,fun _ => true],∀ i,
      (twoPeers dnnPeer).Eligible a epsSess i ↔ i∈[0,1]) ∧
    ((twoPeers dnnPeer).selections epsSess [fun _ => true,fun _ => true]=[0,1]) ∧
    (twoPeers dnnPeer).EachInTurn epsSess [fun _ => true,fun _ => true] := by
  have hserves : ∀ i,(twoPeers dnnPeer).ServesAt epsSess i ↔ i<2 := by
    intro i
    constructor
    · exact fun h => h.lt
    · intro hi
      refine ⟨dnnPeer,?_,dnnPeer_serves _ rfl⟩
      match i with
      | 0 => rfl
      | 1 => rfl
  have hall : ∀ a∈[fun _ => true,fun _ => true],∀ i,
      (twoPeers dnnPeer).Eligible a epsSess i ↔ i∈[0,1] := by
    intro a ha i
    obtain rfl : a = fun _ => true := by simpa using ha
    have hmem : i∈[0,1] ↔ i<2 := by simp; omega
    have hserved : ∀ j,(twoPeers dnnPeer).Served (fun _ => true) epsSess j ↔ j<2 :=
      fun j => (and_iff_right rfl).trans (hserves j)
    rw [hmem,Upfs.Eligible,hserved]
    exact or_iff_left fun h => h.2.1 ⟨0,(hserved 0).mpr (by decide)⟩
  have hsel : (twoPeers dnnPeer).selections epsSess [fun _ => true,fun _ => true]=[0,1] := by
    decide
  refine ⟨hall,hsel,((twoPeers dnnPeer).upf_selection (fun _ => true) epsSess
    [fun _ => true,fun _ => true] [0,1] (by decide) rfl hall).2.mp ?_⟩
  rw [hsel]

/-- For an EPS session the peer with the TAC 0 is selected, and the one that serves is not. -/
theorem zero_tac_selected :
    (twoPeers zeroPeer).smfSessSelectUpf (fun _ => true) epsSess=0 ∧
      (twoPeers zeroPeer).Served (fun _ => true) epsSess 1 ∧
      ¬ (twoPeers zeroPeer).SelectsRightly (fun _ => true) epsSess := by
  have hsel : (twoPeers zeroPeer).smfSessSelectUpf (fun _ => true) epsSess=0 := by decide
  have hserved : (twoPeers zeroPeer).Served (fun _ => true) epsSess 1 :=
    ⟨rfl,dnnPeer,rfl,dnnPeer_serves _ rfl⟩
  refine ⟨hsel,hserved,fun h => ?_⟩
  have hright:=h.serves ⟨1,hserved⟩
  rw [hsel] at hright
  obtain ⟨node,hnode,hserves⟩ := hright.2
  obtain rfl : zeroPeer=node := Option.some.inj hnode
  rcases hserves with hdnn | hcovered
  · obtain ⟨dnn,hdnn,-⟩ := hdnn
    cases hdnn
  · rcases hcovered.2 with hcell | htac
    · cases hcell
    · exact absurd htac (by decide)

end OgsDp.Smf
