import OgsDp.Core.TlvNodes
import OgsDp.Core.TlvRoundTrip

/-!
# What becomes of the nodes that a message takes (lib/core/ogs-tlv-msg.c)

The parser frees the tree it has built on every way out.
-/

namespace OgsDp.Core
open List

mutual

def TlvNode.ids {E : Type} : TlvNode E → List Nat
  | .mk node _ embedded => allIds embedded++[node]

def allIds {E : Type} : List (TlvNode E) → List Nat
  | [] => []
  | t::ts => t.ids++allIds ts

end

section Trees

variable {E : Type}

theorem allIds_append (ts us : List (TlvNode E)) : allIds (ts++us)=allIds ts++allIds us := by
  induction ts with
  | nil => rfl
  | cons t ts ih => rw [cons_append,allIds,allIds,ih,append_assoc]

mutual

theorem TlvNode.free_inUse : ∀ (t : TlvNode E) (p : Pool) (l : List Nat),InUse p (t.ids++l) →
    InUse (t.free p) l
  | .mk node e embedded, p, l, h => by
    rw [TlvNode.ids,append_assoc] at h
    rw [TlvNode.free]
    exact (freeAll_inUse embedded p (node::l) h).release

theorem freeAll_inUse : ∀ (ts : List (TlvNode E)) (p : Pool) (l : List Nat),
    InUse p (allIds ts++l) → InUse (ogsTlvFreeAll ts p) l
  | [], p, l, h => h
  | t::ts, p, l, h => by
    rw [allIds,append_assoc] at h
    rw [ogsTlvFreeAll]
    exact freeAll_inUse ts _ l (t.free_inUse p _ h)

end

end Trees

/-- Of the nodes `pre` none is freed, and the result holds all that were taken with them. -/
def Keeps {α : Type} (pre : List Nat) (N : α → List Nat) (x : TlvCall α) : Prop :=
  ∀ p l p' r,InUse p (pre++l) → x p = .ok (p',r) →
    ∃ held,InUse p' (held++l) ∧ pre.length≤held.length ∧ ∀ a,r=some a → held.Perm (N a)

namespace Keeps

variable {α β : Type} {pre : List Nat} {N : α → List Nat} {N' : β → List Nat} {x : TlvCall α}
  {f : α → TlvCall β}

theorem pure {a : α} (h : pre.Perm (N a)) : Keeps pre N (Pure.pure a) := by
  intro p l p' r hp hcall
  cases hcall
  refine ⟨pre,hp,Nat.le_refl _,?_⟩
  intro b hb
  cases hb
  exact h

theorem null : Keeps pre N TlvCall.null := by
  intro p l p' r hp hcall
  cases hcall
  exact ⟨pre,hp,Nat.le_refl _,fun a ha => nomatch ha⟩

theorem of (z : Except Stop α) : Keeps pre (fun _ => pre) (TlvCall.of z) := by
  intro p l p' r hp hcall
  have hsame : p'=p := by
    cases z with
    | ok a =>
      cases hcall
      rfl
    | error s =>
      cases s with
      | error =>
        cases hcall
        rfl
      | abort => cases hcall
      | exhausted => cases hcall
      | wild => cases hcall
  rw [hsame]
  exact ⟨pre,hp,Nat.le_refl _,fun a _ => Perm.refl pre⟩

theorem get : Keeps pre (fun n => n::pre) TlvCall.get := by
  intro p l p' r hp hcall
  unfold TlvCall.get at hcall
  rcases hp.getNode with ⟨-,hget⟩ | ⟨q,n,hget,-,hq⟩
  · rw [hget] at hcall
    cases hcall
  · rw [hget] at hcall
    cases hcall
    refine ⟨n::pre,hq,Nat.le_succ _,?_⟩
    intro a ha
    cases ha
    exact Perm.refl _

theorem frame (h : Keeps [] N x) (pre : List Nat) : Keeps pre (fun a => N a++pre) x := by
  intro p l p' r hp hcall
  obtain ⟨held,hheld,-,hres⟩ := h p (pre++l) p' r hp hcall
  refine ⟨held++pre,?_,?_,fun a ha => (hres a ha).append_right pre⟩
  · rw [append_assoc]
    exact hheld
  · rw [length_append]
    omega

theorem bind (hx : Keeps pre N x) (hf : ∀ a,Keeps (N a) N' (f a)) : Keeps pre N' (x >>= f) := by
  intro p l p' r hp hcall
  rw [TlvCall.bind_apply] at hcall
  cases hx' : x p with
  | error s =>
    rw [hx'] at hcall
    cases hcall
  | ok q =>
    obtain ⟨q,a⟩ := q
    obtain ⟨held,hheld,hlen,hres⟩ := hx p l q a hp hx'
    rw [hx'] at hcall
    cases a with
    | none =>
      cases hcall
      exact ⟨held,hheld,hlen,fun a ha => nomatch ha⟩
    | some a =>
      have hperm:=hres a rfl
      have hnext:=hheld.perm (hperm.append_right l)
      obtain ⟨held',hheld',hlen',hres'⟩ := hf a q l p' r hnext hcall
      have hsame:=hperm.length_eq
      exact ⟨held',hheld',by omega,hres'⟩

end Keeps

section Build

variable {S : Type} {mode : TlvMode}

theorem addFieldNodes_keeps {sub : List TlvDesc → S → TlvCall (List (TlvNode TlvHead))}
    (hsub : ∀ ds s,Keeps [] allIds (sub ds s)) (desc : TlvDesc) (v : Slot S) :
    Keeps [] TlvNode.ids (addFieldNodes sub mode desc v) := by
  unfold addFieldNodes
  by_cases hcomp : desc.ctype = .compound
  · rw [if_pos hcomp]
    refine Keeps.get.bind fun n => ((hsub _ _).frame [n]).bind fun ts => ?_
    split
    · exact Keeps.null
    · exact Keeps.pure (Perm.refl _)
  · rw [if_neg hcomp]
    exact (Keeps.of _).bind fun value => Keeps.get.bind fun n => Keeps.pure (Perm.refl _)

theorem addRepeatsNodes_keeps {add : Slot S → TlvCall (TlvNode TlvHead)}
    (hadd : ∀ v,Keeps [] TlvNode.ids (add v)) (slots : Nat → Slot S) (n j : Nat) :
    Keeps [] allIds (addRepeatsNodes add slots n j) := by
  induction n generalizing j with
  | zero => exact Keeps.pure (Perm.refl _)
  | succ n ih =>
    rw [addRepeatsNodes]
    split
    · exact (hadd _).bind fun t => ((ih (j+1)).frame t.ids).bind fun ts =>
        Keeps.pure perm_append_comm
    · exact Keeps.pure (Perm.refl _)

theorem addChildrenNodes_keeps {add : TlvDesc → Slot S → TlvCall (TlvNode TlvHead)}
    (hadd : ∀ desc v,Keeps [] TlvNode.ids (add desc v)) (m : Nat → Nat → Slot S) (i : Nat)
    (descs : List TlvDesc) : Keeps [] allIds (addChildrenNodes add m i descs) := by
  have happend (ts ts' : List (TlvNode TlvHead)) :
      Keeps (allIds ts'++allIds ts) allIds (pure (ts++ts')) := by
    refine Keeps.pure ?_
    rw [allIds_append]
    exact perm_append_comm
  induction i, descs using addChildrenNodes.induct with
  | case1 i => exact Keeps.pure (Perm.refl _)
  | case2 i desc => exact addRepeatsNodes_keeps (hadd desc) _ _ _
  | case3 i desc next rest hmore ih =>
    rw [addChildrenNodes,if_pos hmore]
    exact (addRepeatsNodes_keeps (hadd desc) _ _ _).bind fun ts =>
      (ih.frame (allIds ts)).bind fun ts' => happend ts ts'
  | case4 i desc next rest hmore ih =>
    rw [addChildrenNodes,if_neg hmore]
    exact (addRepeatsNodes_keeps (hadd desc) _ _ _).bind fun ts =>
      (ih.frame (allIds ts)).bind fun ts' => happend ts ts'

theorem tlvAddCompoundNodes_keeps (n : Nat) (descs : List TlvDesc) (m : Msg n) :
    Keeps [] allIds (tlvAddCompoundNodes mode n descs m) := by
  induction n generalizing descs with
  | zero =>
    intro p l p' r hp hcall
    cases hcall
  | succ n ih =>
    exact addChildrenNodes_keeps (fun desc v => addFieldNodes_keeps (fun ds s => ih ds s) desc v)
      _ _ _

end Build

section Visited

variable {S : Type}

def visitedRow (slots : Nat → Slot S) (desc : TlvDesc) : Nat → Nat → List (TlvDesc × Slot S)
  | 0, _ => []
  | n+1, j =>
    if (slots j).presence then (desc,slots j)::visitedRow slots desc n (j+1) else []

/-- The fields of the children `i`, .. that the builder comes to. -/
def visited (m : Nat → Nat → Slot S) : Nat → List TlvDesc → List (TlvDesc × Slot S)
  | _, [] => []
  | i, [desc] => visitedRow (m i) desc 1 0
  | i, desc::next::rest =>
    if next.ctype = .more then
      visitedRow (m i) desc next.length.val 0++visited m (i+2) rest
    else visitedRow (m i) desc 1 0++visited m (i+1) (next::rest)

/-- A leaf of which no element can be made: a text without octets, or a type that is none. -/
def Refused (f : TlvDesc × Slot S) : Prop :=
  f.1.ctype ≠ .compound ∧ leafValue f.1 f.2 = .error .error

-- A field of which an element can be made, if `sub` says so of compounds.
def FieldBuildable (sub : List TlvDesc → S → Prop) (f : TlvDesc × Slot S) : Prop :=
  if f.1.ctype = .compound then sub f.1.children f.2.sub else leafValue f.1 f.2 ≠ .error .error

def leafLength (desc : TlvDesc) (v : Slot S) : Nat :=
  match leafValue desc v with
  | .ok value => value.length
  | .error _ => 0

def fieldLength (sub : List TlvDesc → S → Nat) (mode : TlvMode) (f : TlvDesc × Slot S) : Nat :=
  (tlvCtype2mode f.1.ctype mode).headerLen +
    if f.1.ctype = .compound then sub f.1.children f.2.sub else leafLength f.1 f.2

end Visited

/-- The builder comes to a field, and an element can be made of each that it comes to. -/
def Buildable : (n : Nat) → List TlvDesc → Msg n → Prop
  | 0, _, _ => False
  | n+1, descs, m => visited m 0 descs≠[] ∧
      ∀ f∈visited m 0 descs,FieldBuildable (Buildable n) f

def msgLength (mode : TlvMode) : (n : Nat) → List TlvDesc → Msg n → Nat
  | 0, _, _ => 0
  | n+1, descs, m => ((visited m 0 descs).map (fieldLength (msgLength mode n) mode)).sum

section Decide

/-- A result comes exactly under the condition `C`, and then `Q` holds of it. -/
def Decides {α : Type} (C : Prop) (Q : α → Prop) (x : TlvCall α) : Prop :=
  ∀ p p' r,x p = .ok (p',r) → (r=none → ¬ C) ∧ ∀ a,r=some a → C ∧ Q a

namespace Decides

variable {α β : Type} {C D : Prop} {Q : α → Prop} {Q' : β → Prop} {x : TlvCall α}
  {f : α → TlvCall β}

theorem pure {a : α} (hC : C) (hQ : Q a) : Decides C Q (Pure.pure a) := by
  intro p p' r hcall
  cases hcall
  refine ⟨(fun h => nomatch h),?_⟩
  intro b hb
  cases hb
  exact ⟨hC,hQ⟩

theorem null (hC : ¬ C) : Decides C Q TlvCall.null := by
  intro p p' r hcall
  cases hcall
  exact ⟨fun _ => hC,fun a ha => nomatch ha⟩

theorem get : Decides True (fun _ => True) TlvCall.get := by
  intro p p' r hcall
  unfold TlvCall.get at hcall
  split at hcall
  · cases hcall
  · cases hcall
    exact ⟨(fun h => nomatch h),fun a _ => ⟨trivial,trivial⟩⟩

theorem of (z : Except Stop α) : Decides (z ≠ .error .error) (fun a => z = .ok a) (TlvCall.of z) := by
  intro p p' r hcall
  cases z with
  | ok a =>
    cases hcall
    refine ⟨(fun h => nomatch h),?_⟩
    intro b hb
    cases hb
    exact ⟨fun h => (nomatch h),rfl⟩
  | error s =>
    cases s with
    | error =>
      cases hcall
      exact ⟨fun _ hne => hne rfl,fun b hb => nomatch hb⟩
    | abort => cases hcall
    | exhausted => cases hcall
    | wild => cases hcall

theorem bind (hx : Decides C Q x) (hf : ∀ a,Q a → Decides D Q' (f a)) :
    Decides (C ∧ D) Q' (x >>= f) := by
  intro p p' r hcall
  rw [TlvCall.bind_apply] at hcall
  cases hx' : x p with
  | error s =>
    rw [hx'] at hcall
    cases hcall
  | ok q =>
    obtain ⟨q,a⟩ := q
    have hfirst:=hx p q a hx'
    rw [hx'] at hcall
    cases a with
    | none =>
      cases hcall
      exact ⟨fun _ h => hfirst.1 rfl h.1,fun b hb => nomatch hb⟩
    | some a =>
      obtain ⟨hC,hQ⟩ := hfirst.2 a rfl
      have hrest:=hf a hQ q p' r hcall
      exact ⟨fun hr h => hrest.1 hr h.2,fun b hb => ⟨⟨hC,(hrest.2 b hb).1⟩,(hrest.2 b hb).2⟩⟩

theorem congr (h : Decides C Q x) (hC : C ↔ D) : Decides D Q x := by
  intro p p' r hcall
  obtain ⟨hnone,hsome⟩ := h p p' r hcall
  exact ⟨fun hr hD => hnone hr (hC.mpr hD),fun a ha => ⟨hC.mp (hsome a ha).1,(hsome a ha).2⟩⟩

end Decides

variable {S : Type} {mode : TlvMode}

theorem calcLength_append (ts us : List Tlv) :
    calcLength (ts++us)=calcLength ts+calcLength us := by
  induction ts with
  | nil => simp [calcLength]
  | cons t ts ih =>
    rw [cons_append,calcLength,calcLength,ih]
    omega

def MadeOf (len : TlvDesc × Slot S → Nat) (fs : List (TlvDesc × Slot S))
    (ts : List (TlvNode TlvHead)) : Prop :=
  ts.length=fs.length ∧ calcLength (tlvs ts)=(fs.map len).sum

theorem addFieldNodes_decides {sub : List TlvDesc → S → TlvCall (List (TlvNode TlvHead))}
    {B : List TlvDesc → S → Prop} {len : List TlvDesc → S → Nat}
    (hsub : ∀ ds s,∃ C : Prop, ∃ k : Nat, (B ds s ↔ k≠0 ∧ C) ∧
      Decides C (fun ts => ts.length=k ∧ calcLength (tlvs ts)=len ds s) (sub ds s))
    (desc : TlvDesc) (v : Slot S) :
    Decides (FieldBuildable B (desc,v))
      (fun t => t.tlv.calcLength=fieldLength len mode (desc,v))
      (addFieldNodes sub mode desc v) := by
  unfold addFieldNodes FieldBuildable fieldLength
  by_cases hcomp : desc.ctype = .compound
  · obtain ⟨C,k,hB,hdecides⟩ := hsub desc.children v.sub
    rw [if_pos hcomp]
    simp only [if_pos hcomp]
    refine (Decides.get.bind fun n _ => hdecides.bind (D := k≠0) fun ts hts => ?_).congr ?_
    · cases ts with
      | nil => exact Decides.null fun hk => hk hts.1.symm
      | cons t ts =>
        refine Decides.pure (fun hk => ?_) ?_
        · have hlen : (t::ts).length=k := hts.1
          rw [hk] at hlen
          cases hlen
        · rw [← hts.2]
          rfl
    · rw [hB]
      exact ⟨fun h => ⟨h.2.2,h.2.1⟩,fun h => ⟨trivial,h.2,h.1⟩⟩
  · rw [if_neg hcomp]
    simp only [if_neg hcomp]
    refine ((Decides.of (leafValue desc v)).bind (D := True) fun value hvalue =>
      (Decides.get.bind (D := True) fun n _ => Decides.pure trivial ?_).congr
        ⟨fun _ => trivial,fun _ => ⟨trivial,trivial⟩⟩).congr (and_iff_left trivial)
    rw [leafLength,hvalue]
    rfl

theorem addRepeatsNodes_decides {add : Slot S → TlvCall (TlvNode TlvHead)} {desc : TlvDesc}
    {B : TlvDesc × Slot S → Prop} {len : TlvDesc × Slot S → Nat}
    (hadd : ∀ v,Decides (B (desc,v)) (fun t => t.tlv.calcLength=len (desc,v)) (add v))
    (slots : Nat → Slot S) (n j : Nat) :
    Decides (∀ f∈visitedRow slots desc n j,B f) (MadeOf len (visitedRow slots desc n j))
      (addRepeatsNodes add slots n j) := by
  have hnone : Decides (∀ f∈([] : List (TlvDesc × Slot S)),B f) (MadeOf len [])
      (pure [] : TlvCall (List (TlvNode TlvHead))) :=
    Decides.pure (fun f hf => nomatch hf) ⟨rfl,rfl⟩
  induction n generalizing j with
  | zero => exact hnone
  | succ n ih =>
    rw [addRepeatsNodes,visitedRow]
    by_cases hpresent : (slots j).presence
    · rw [if_pos hpresent,if_pos hpresent]
      refine ((hadd _).bind fun t ht => ((ih (j+1)).bind (D := True) fun ts hts =>
        Decides.pure trivial ?_).congr (and_iff_left trivial)).congr ?_
      · refine ⟨by rw [length_cons,length_cons,hts.1],?_⟩
        rw [tlvs,calcLength,ht,hts.2,map_cons,sum_cons]
      · rw [forall_mem_cons]
    · rw [if_neg hpresent,if_neg hpresent]
      exact hnone

theorem addChildrenNodes_decides {add : TlvDesc → Slot S → TlvCall (TlvNode TlvHead)}
    {B : TlvDesc × Slot S → Prop} {len : TlvDesc × Slot S → Nat}
    (hadd : ∀ desc v,Decides (B (desc,v)) (fun t => t.tlv.calcLength=len (desc,v))
      (add desc v)) (m : Nat → Nat → Slot S) (i : Nat) (descs : List TlvDesc) :
    Decides (∀ f∈visited m i descs,B f) (MadeOf len (visited m i descs))
      (addChildrenNodes add m i descs) := by
  have happend {fs gs : List (TlvDesc × Slot S)} {x y : TlvCall (List (TlvNode TlvHead))}
      (hx : Decides (∀ f∈fs,B f) (MadeOf len fs) x)
      (hy : Decides (∀ f∈gs,B f) (MadeOf len gs) y) :
      Decides (∀ f∈fs++gs,B f) (MadeOf len (fs++gs)) (do
        let ts ← x
        let ts' ← y
        return ts++ts') := by
    refine (hx.bind fun ts hts => (hy.bind (D := True) fun ts' hts' =>
      Decides.pure trivial ?_).congr (and_iff_left trivial)).congr forall_mem_append.symm
    refine ⟨by rw [length_append,length_append,hts.1,hts'.1],?_⟩
    rw [tlvs_eq_map,map_append,← tlvs_eq_map,← tlvs_eq_map,calcLength_append,hts.2,hts'.2,
      map_append,sum_append]
  induction i, descs using addChildrenNodes.induct with
  | case1 i => exact Decides.pure (fun f hf => nomatch hf) ⟨rfl,rfl⟩
  | case2 i desc => exact addRepeatsNodes_decides (hadd desc) _ _ _
  | case3 i desc next rest hmore ih =>
    rw [addChildrenNodes,visited,if_pos hmore,if_pos hmore]
    exact happend (addRepeatsNodes_decides (hadd desc) _ _ _) ih
  | case4 i desc next rest hmore ih =>
    rw [addChildrenNodes,visited,if_neg hmore,if_neg hmore]
    exact happend (addRepeatsNodes_decides (hadd desc) _ _ _) ih

theorem tlvAddCompoundNodes_decides (n : Nat) (descs : List TlvDesc) (m : Msg n) :
    ∃ C : Prop, ∃ k : Nat, (Buildable n descs m ↔ k≠0 ∧ C) ∧
      Decides C (fun ts => ts.length=k ∧ calcLength (tlvs ts)=msgLength mode n descs m)
        (tlvAddCompoundNodes mode n descs m) := by
  induction n generalizing descs with
  | zero =>
    refine ⟨False,0,⟨fun h => h.elim,fun h => h.2.elim⟩,?_⟩
    intro p p' r hcall
    cases hcall
  | succ n ih =>
    refine ⟨∀ f∈visited m 0 descs,FieldBuildable (Buildable n) f,(visited m 0 descs).length,
      ?_,?_⟩
    · exact and_congr_left' (not_congr length_eq_zero_iff.symm)
    · exact addChildrenNodes_decides (fun desc v => addFieldNodes_decides (fun ds s => ih ds s)
        desc v) m 0 descs

end Decide

def Starts {α : Type} (N : α → List Nat) (x : TlvCall α) : Prop :=
  ∀ p l p' r,InUse p l → x p = .ok (p',r) →
    ∃ held,InUse p' (held++l) ∧ held≠[] ∧ ∀ a,r=some a → held.Perm (N a)

section Lost

variable {S : Type} {mode : TlvMode}

theorem Starts.bind {α β : Type} {N : α → List Nat} {N' : β → List Nat} {x : TlvCall α}
    {f : α → TlvCall β} (hx : Starts N x) (hf : ∀ a,Keeps (N a) N' (f a)) :
    Starts N' (x >>= f) := by
  intro p l p' r hp hcall
  rw [TlvCall.bind_apply] at hcall
  cases hx' : x p with
  | error s =>
    rw [hx'] at hcall
    cases hcall
  | ok q =>
    obtain ⟨q,a⟩ := q
    obtain ⟨held,hheld,hne,hres⟩ := hx p l q a hp hx'
    rw [hx'] at hcall
    cases a with
    | none =>
      cases hcall
      exact ⟨held,hheld,hne,fun a ha => nomatch ha⟩
    | some a =>
      have hperm:=hres a rfl
      obtain ⟨held',hheld',hlen,hres'⟩ :=
        hf a q l p' r (hheld.perm (hperm.append_right l)) hcall
      have hpos:=length_pos_of_ne_nil hne
      have hsame:=hperm.length_eq
      exact ⟨held',hheld',ne_nil_of_length_pos (by omega),hres'⟩

theorem Starts.get : Starts (fun n => [n]) TlvCall.get := by
  intro p l p' r hp hcall
  obtain ⟨held,hheld,-,hres⟩ := @Keeps.get [] p l p' r hp hcall
  unfold TlvCall.get at hcall
  split at hcall
  · cases hcall
  · cases hcall
    refine ⟨held,hheld,?_,hres⟩
    intro hnil
    have hlen:=(hres _ rfl).length_eq
    rw [hnil] at hlen
    cases hlen

theorem addFieldNodes_starts {sub : List TlvDesc → S → TlvCall (List (TlvNode TlvHead))}
    (hsub : ∀ ds s,Keeps [] allIds (sub ds s)) {desc : TlvDesc} {v : Slot S}
    (h : ¬ Refused (desc,v)) : Starts TlvNode.ids (addFieldNodes sub mode desc v) := by
  unfold addFieldNodes
  by_cases hcomp : desc.ctype = .compound
  · rw [if_pos hcomp]
    refine Starts.get.bind fun n => ((hsub _ _).frame [n]).bind fun ts => ?_
    split
    · exact Keeps.null
    · exact Keeps.pure (Perm.refl _)
  · rw [if_neg hcomp]
    cases hvalue : leafValue desc v with
    | ok value => exact Starts.get.bind fun n => Keeps.pure (Perm.refl _)
    | error s =>
      intro p l p' r hp hcall
      cases s with
      | error => exact absurd ⟨hcomp,hvalue⟩ h
      | abort => cases hcall
      | exhausted => cases hcall
      | wild => cases hcall

theorem addFieldNodes_refused {sub : List TlvDesc → S → TlvCall (List (TlvNode TlvHead))}
    {desc : TlvDesc} {v : Slot S} (h : Refused (desc,v)) (p : Pool) :
    addFieldNodes sub mode desc v p = .ok (p,none) := by
  obtain ⟨hcomp,hvalue⟩ := h
  unfold addFieldNodes
  rw [if_neg hcomp,TlvCall.bind_apply]
  simp only at hvalue
  rw [hvalue]
  rfl

def FirstSays {α : Type} (N : α → List Nat) (empty : α) (fs : List (TlvDesc × Slot S))
    (x : TlvCall α) : Prop :=
  match fs with
  | [] => ∀ p,x p = .ok (p,some empty)
  | f::_ => (Refused f → ∀ p,x p = .ok (p,none)) ∧ (¬ Refused f → Starts N x)

theorem addRepeatsNodes_first {add : Slot S → TlvCall (TlvNode TlvHead)} {desc : TlvDesc}
    (hkeeps : ∀ v,Keeps [] TlvNode.ids (add v))
    (hrefused : ∀ v,Refused (desc,v) → ∀ p,add v p = .ok (p,none))
    (hstarts : ∀ v,¬ Refused (desc,v) → Starts TlvNode.ids (add v)) (slots : Nat → Slot S)
    (n j : Nat) :
    FirstSays allIds [] (visitedRow slots desc n j) (addRepeatsNodes add slots n j) := by
  cases n with
  | zero => exact fun p => rfl
  | succ n =>
    rw [addRepeatsNodes,visitedRow]
    by_cases hpresent : (slots j).presence
    · rw [if_pos hpresent,if_pos hpresent]
      constructor
      · intro h p
        rw [TlvCall.bind_apply,hrefused _ h]
      · intro h
        exact (hstarts _ h).bind fun t =>
          ((addRepeatsNodes_keeps hkeeps slots n (j+1)).frame t.ids).bind fun ts =>
            Keeps.pure perm_append_comm
    · rw [if_neg hpresent,if_neg hpresent]
      exact fun p => rfl

theorem FirstSays.append {fs gs : List (TlvDesc × Slot S)}
    {x y : TlvCall (List (TlvNode TlvHead))} (hy' : Keeps [] allIds y)
    (hx : FirstSays allIds [] fs x) (hy : FirstSays allIds [] gs y) :
    FirstSays allIds [] (fs++gs) (do
      let ts ← x
      let ts' ← y
      return ts++ts') := by
  have hrest (ts : List (TlvNode TlvHead)) : Keeps (allIds ts) allIds (do
      let ts' ← y
      return ts++ts') := by
    refine (hy'.frame (allIds ts)).bind fun ts' => Keeps.pure ?_
    rw [allIds_append]
    exact perm_append_comm
  cases fs with
  | nil =>
    have hskip : (do
        let ts ← x
        let ts' ← y
        return ts++ts')=y := by
      funext p
      rw [TlvCall.bind_apply,hx p]
      show (y >>= fun ts' => pure ([]++ts')) p=y p
      rw [TlvCall.bind_apply]
      cases y p with
      | error s => rfl
      | ok r =>
        obtain ⟨q,a⟩ := r
        cases a with
        | none => rfl
        | some ts' => rfl
    rw [hskip]
    exact hy
  | cons f fs =>
    constructor
    · intro h p
      rw [TlvCall.bind_apply,hx.1 h]
    · exact fun h => (hx.2 h).bind hrest

theorem addChildrenNodes_first {add : TlvDesc → Slot S → TlvCall (TlvNode TlvHead)}
    (hkeeps : ∀ desc v,Keeps [] TlvNode.ids (add desc v))
    (hrefused : ∀ desc v,Refused (desc,v) → ∀ p,add desc v p = .ok (p,none))
    (hstarts : ∀ desc v,¬ Refused (desc,v) → Starts TlvNode.ids (add desc v))
    (m : Nat → Nat → Slot S) (i : Nat) (descs : List TlvDesc) :
    FirstSays allIds [] (visited m i descs) (addChildrenNodes add m i descs) := by
  have hrow (desc : TlvDesc) (slots : Nat → Slot S) (n j : Nat) :=
    addRepeatsNodes_first (hkeeps desc) (hrefused desc) (hstarts desc) slots n j
  induction i, descs using addChildrenNodes.induct with
  | case1 i => exact fun p => rfl
  | case2 i desc => exact hrow desc _ _ _
  | case3 i desc next rest hmore ih =>
    rw [addChildrenNodes,visited,if_pos hmore,if_pos hmore]
    exact (hrow desc _ _ _).append (addChildrenNodes_keeps hkeeps _ _ _) ih
  | case4 i desc next rest hmore ih =>
    rw [addChildrenNodes,visited,if_neg hmore,if_neg hmore]
    exact (hrow desc _ _ _).append (addChildrenNodes_keeps hkeeps _ _ _) ih

end Lost

/-- Nothing is taken, or the message is built: the first field that the builder comes to is a leaf
that it cannot make, or all of them can be made and a buffer is large enough. -/
def NothingLost (mode : TlvMode) (room : Nat) (desc : TlvDesc) (m : Msg 9) : Prop :=
  match visited (S := Msg 8) m 0 desc.children with
  | [] => True
  | f::_ => Refused f ∨
    (Buildable 9 desc.children m ∧ 16+msgLength mode 9 desc.children m ≤ room)

section BuildMsg

variable {desc : TlvDesc} {m : Msg 9} {mode : TlvMode} {room : Nat} {s s' : TlvMemory}
  {l : List Nat} {r : Option (List Byte)}

theorem not_inUse_of_more {p : Pool} {held : List Nat} (h : InUse p (held++l)) (hne : held≠[]) :
    ¬ InUse p l := by
  intro hl
  have hlen:=(h.unique hl).length_eq
  have hpos:=length_pos_of_ne_nil hne
  rw [length_append] at hlen
  omega

theorem ogsTlvBuildMsg_nodes (hs : InUse s.pool l)
    (hcall : ogsTlvBuildMsgNodes desc m mode room s = .ok (s',r)) :
    (InUse s'.pool l ↔ NothingLost mode room desc m) ∧
      s'.pkbufs=s.pkbufs+(if r.isSome then 1 else 0) := by
  unfold ogsTlvBuildMsgNodes at hcall
  split at hcall
  · cases hcall
  split at hcall
  · next hnil =>
    have hvisited : visited (S := Msg 8) m 0 desc.children=[] := by
      rw [List.isEmpty_iff.mp hnil]
      rfl
    have hnothing : NothingLost mode room desc m := by
      unfold NothingLost
      rw [hvisited]
      trivial
    split at hcall
    · cases hcall
      exact ⟨iff_of_true hs hnothing,rfl⟩
    · cases hcall
      exact ⟨iff_of_true hs hnothing,rfl⟩
  have hkeeps (n : Nat) (desc : TlvDesc) (v : Slot (Msg n)) :
      Keeps [] TlvNode.ids (addFieldNodes (tlvAddCompoundNodes mode n) mode desc v) :=
    addFieldNodes_keeps (fun ds s => tlvAddCompoundNodes_keeps n ds s) desc v
  have hfirst : FirstSays allIds [] (visited (S := Msg 8) m 0 desc.children)
      (tlvAddCompoundNodes mode 9 desc.children m) :=
    addChildrenNodes_first (hkeeps 8) (fun desc v h p => addFieldNodes_refused h p)
      (fun desc v h => addFieldNodes_starts (fun ds s => tlvAddCompoundNodes_keeps 8 ds s) h) m 0 _
  obtain ⟨C,k,hbuildable,hdecides⟩ := @tlvAddCompoundNodes_decides mode 9 desc.children m
  have hkeep:=@tlvAddCompoundNodes_keeps mode 9 desc.children m
  unfold NothingLost
  cases hadd : tlvAddCompoundNodes mode 9 desc.children m s.pool with
  | error e =>
    rw [hadd] at hcall
    cases hcall
  | ok q =>
    obtain ⟨p,root⟩ := q
    obtain ⟨hnone,hsome⟩ := hdecides s.pool p root hadd
    cases hvisited : visited (S := Msg 8) m 0 desc.children with
    | nil =>
      rw [hvisited] at hfirst
      have hsame:=hfirst s.pool
      rw [hadd] at hsame
      cases hsame
      rw [hadd] at hcall
      cases hcall
      exact ⟨iff_of_true hs trivial,rfl⟩
    | cons f fs =>
      rw [hvisited] at hfirst
      simp only
      by_cases hrefused : Refused f
      · have hsame:=hfirst.1 hrefused s.pool
        rw [hadd] at hsame
        cases hsame
        rw [hadd] at hcall
        cases hcall
        exact ⟨iff_of_true hs (.inl hrefused),rfl⟩
      · obtain ⟨held,hheld,hne,hres⟩ := hfirst.2 hrefused s.pool l p root hs hadd
        have hlost:=not_inUse_of_more hheld hne
        rw [hadd] at hcall
        simp only [hrefused,false_or]
        cases root with
        | none =>
          cases hcall
          refine ⟨iff_of_false hlost fun h => ?_,rfl⟩
          exact hnone rfl (hbuildable.mp h.1).2
        | some root =>
          obtain ⟨hC,hlen,hlength⟩ := hsome root rfl
          have hroot : root≠[] := by
            intro hnil
            have hperm:=hres root rfl
            rw [hnil] at hperm
            exact hne hperm.eq_nil
          have hmade : Buildable 9 desc.children m :=
            hbuildable.mpr ⟨fun hk => hroot (length_eq_zero_iff.mp (hlen.trans hk)),hC⟩
          have hempty : ¬ root.isEmpty=true := fun h => hroot (List.isEmpty_iff.mp h)
          simp only [if_neg hempty,hlength] at hcall
          by_cases hroom : room<16+msgLength mode 9 desc.children m
          · rw [if_pos hroom] at hcall
            cases hcall
            exact ⟨iff_of_false hlost fun h => by omega,rfl⟩
          · have hrender:=render_eq (tlvs root) (msgLength mode 9 desc.children m)
              (Nat.le_of_eq hlength)
            have hbytes : (allBytes (tlvs root)).length=msgLength mode 9 desc.children m :=
              (length_allBytes _).trans hlength
            rw [if_neg hroom,hrender] at hcall
            simp only [hbytes,ne_eq,not_true,if_false] at hcall
            cases hcall
            have hfreed:=freeAll_inUse root p l (hheld.perm ((hres root rfl).append_right l))
            exact ⟨iff_of_true hfreed ⟨hmade,by omega⟩,rfl⟩

end BuildMsg

section ParseMsg

variable {S : Type} {data : List Byte} {mode : TlvMode} {get : Nat → Except Stop Elem}
  {blk length : Nat} {p : Pool} {l : List Nat}

def Fresh (ts : List (TlvNode Elem)) : Prop := ∀ t∈ts,∃ node e,t = .mk node e []

theorem getNodes_inUse (fuel pos : Nat) (h : InUse p l) {p' : Pool} {ts : List (TlvNode Elem)}
    {last : Nat} (hcall : getNodes get blk length fuel pos p = .ok (p',ts,last)) :
    InUse p' (allIds ts++l) ∧ Fresh ts := by
  induction fuel generalizing pos p l p' ts last with
  | zero => cases hcall
  | succ fuel ih =>
    rw [getNodes] at hcall
    rcases h.getNode with ⟨-,hget⟩ | ⟨q,n,hget,-,hq⟩
    · rw [hget] at hcall
      cases hcall
    rw [hget] at hcall
    simp only [Lib.ok_bind] at hcall
    obtain ⟨e,-,hcall⟩ := Lib.bind_eq_ok.mp hcall
    by_cases hmore : e.next-blk<length
    · rw [if_pos hmore] at hcall
      obtain ⟨⟨q',ts',last'⟩,hrest,hcall⟩ := Lib.bind_eq_ok.mp hcall
      cases hcall
      obtain ⟨hused,hfresh⟩ := ih e.next hq hrest
      refine ⟨hused.perm perm_middle,?_⟩
      intro t ht
      rcases mem_cons.mp ht with rfl | ht
      · exact ⟨n,e,rfl⟩
      · exact hfresh t ht
    · rw [if_neg hmore] at hcall
      cases hcall
      refine ⟨hq,?_⟩
      intro t ht
      exact ⟨n,e,mem_singleton.mp ht⟩

theorem parseNodes_inUse (h : InUse p l) {p' : Pool} {r : Option (List (TlvNode Elem))}
    (hcall : parseNodes get blk length p = .ok (p',r)) :
    (r=none → InUse p' l) ∧ ∀ ts,r=some ts → InUse p' (allIds ts++l) ∧ Fresh ts := by
  unfold parseNodes at hcall
  obtain ⟨⟨q,ts,last⟩,hnodes,hcall⟩ := Lib.bind_eq_ok.mp hcall
  obtain ⟨hused,hfresh⟩ := getNodes_inUse _ _ h hnodes
  by_cases hlen : length≠last-blk
  · simp only [if_pos hlen] at hcall
    cases hcall
    exact ⟨fun _ => freeAll_inUse ts q l hused,fun ts hts => nomatch hts⟩
  · simp only [if_neg hlen] at hcall
    cases hcall
    refine ⟨(fun hr => nomatch hr),?_⟩
    intro ts' hts
    cases hts
    exact ⟨hused,hfresh⟩

theorem parseFieldNodes_inUse
    {sub : List TlvDesc → List (TlvNode Elem) → S → Pool →
      Except Stop (Parsed (List (TlvNode Elem)) S)}
    (hsub : ∀ ds ts s p l r,InUse p (allIds ts++l) → Fresh ts → sub ds ts s p = .ok r →
      InUse r.pool (allIds r.nodes++l))
    {desc : TlvDesc} {t : TlvNode Elem} {v : Slot S} {r : Parsed (TlvNode Elem) (Slot S)}
    (h : InUse p (t.ids++l)) (hfresh : ∃ node e,t = .mk node e [])
    (hcall : parseFieldNodes sub data mode desc t v p = .ok r) :
    InUse r.pool (r.nodes.ids++l) := by
  obtain ⟨node,e,rfl⟩ := hfresh
  unfold parseFieldNodes at hcall
  by_cases hcomp : desc.ctype = .compound
  · simp only [if_pos hcomp] at hcall
    cases hblock : parseNodes (tlvGetElement data mode) e.value e.length p with
    | error s =>
      rw [hblock] at hcall
      cases hcall
    | ok q =>
      obtain ⟨q,ts⟩ := q
      obtain ⟨hnone,hsome⟩ := parseNodes_inUse h hblock
      rw [hblock] at hcall
      cases ts with
      | none =>
        cases hcall
        exact hnone rfl
      | some ts =>
        obtain ⟨hused,hnew⟩ := hsome ts rfl
        obtain ⟨r',hsub',hcall⟩ := Lib.bind_eq_ok.mp hcall
        cases hcall
        show InUse r'.pool (allIds r'.nodes++[node]++l)
        rw [append_assoc]
        exact hsub _ _ _ _ _ _ hused hnew hsub'
  · simp only [if_neg hcomp] at hcall
    cases hleaf : tlvParseLeaf data desc e v with
    | ok v' =>
      rw [hleaf] at hcall
      cases hcall
      exact h
    | error s =>
      rw [hleaf] at hcall
      cases s with
      | error =>
        cases hcall
        exact h
      | abort => cases hcall
      | exhausted => cases hcall
      | wild => cases hcall

theorem parseElemsNodes_inUse
    {field : TlvDesc → TlvNode Elem → Slot S → Pool →
      Except Stop (Parsed (TlvNode Elem) (Slot S))}
    (hfield : ∀ desc t v p l r,InUse p (t.ids++l) → (∃ node e,t = .mk node e []) →
      field desc t v p = .ok r → InUse r.pool (r.nodes.ids++l))
    {descs : List TlvDesc} {ts : List (TlvNode Elem)} {c : Counts} {m : Nat → Nat → Slot S}
    {r : Parsed (List (TlvNode Elem)) (Nat → Nat → Slot S)}
    (h : InUse p (allIds ts++l)) (hfresh : Fresh ts)
    (hcall : parseElemsNodes field descs ts c m p = .ok r) :
    InUse r.pool (allIds r.nodes++l) := by
  induction ts generalizing c m p l r with
  | nil =>
    cases hcall
    exact h
  | cons t ts ih =>
    have hrest : Fresh ts := fun t ht => hfresh t (mem_cons_of_mem _ ht)
    rw [allIds,append_assoc] at h
    rw [parseElemsNodes] at hcall
    cases hplace : place descs m t.elem c with
    | error s =>
      rw [hplace] at hcall
      cases s with
      | error =>
        cases hcall
        rw [allIds,append_assoc]
        exact h
      | abort => cases hcall
      | exhausted => cases hcall
      | wild => cases hcall
    | ok pl =>
      rw [hplace] at hcall
      cases pl with
      | skip c =>
        obtain ⟨r',htail,hcall⟩ := Lib.bind_eq_ok.mp hcall
        cases hcall
        have hmoved:=h.perm (perm_append_comm_assoc t.ids (allIds ts) l)
        have hdone:=ih hmoved hrest htail
        show InUse r'.pool (t.ids++allIds r'.nodes++l)
        rw [append_assoc]
        exact hdone.perm (perm_append_comm_assoc _ _ _)
      | slot c i j desc =>
        obtain ⟨f,hone,hcall⟩ := Lib.bind_eq_ok.mp hcall
        have hheld:=hfield _ _ _ _ _ _ h (hfresh t (mem_cons_self ..)) hone
        by_cases hok : f.ok=true
        · simp only [hok,if_true] at hcall
          obtain ⟨r',htail,hcall⟩ := Lib.bind_eq_ok.mp hcall
          cases hcall
          have hmoved:=hheld.perm (perm_append_comm_assoc f.nodes.ids (allIds ts) l)
          have hdone:=ih hmoved hrest htail
          show InUse r'.pool (f.nodes.ids++allIds r'.nodes++l)
          rw [append_assoc]
          exact hdone.perm (perm_append_comm_assoc _ _ _)
        · simp only [Bool.eq_false_iff.mpr hok,Bool.false_eq_true,if_false] at hcall
          cases hcall
          show InUse f.pool (f.nodes.ids++allIds ts++l)
          rw [append_assoc]
          exact hheld

theorem tlvParseCompoundNodes_inUse (n : Nat) (descs : List TlvDesc) (ts : List (TlvNode Elem))
    (m : Msg n) (p : Pool) (l : List Nat) (r : Parsed (List (TlvNode Elem)) (Msg n))
    (h : InUse p (allIds ts++l)) (hfresh : Fresh ts)
    (hcall : tlvParseCompoundNodes data mode n descs ts m p = .ok r) :
    InUse r.pool (allIds r.nodes++l) := by
  induction n generalizing descs ts p l with
  | zero => cases hcall
  | succ n ih =>
    exact parseElemsNodes_inUse (fun desc t v p l r h hfresh hcall => parseFieldNodes_inUse
      (fun ds ts s p l r h hfresh hcall => ih ds ts s p l r h hfresh hcall) h hfresh hcall) h hfresh
      hcall

theorem parseMsgNodes_inUse {m : Msg 9} {desc : TlvDesc} {r : Parsed Unit (Msg 9)}
    (h : InUse p l) (hcall : parseMsgNodes get m desc data mode p = .ok r) : InUse r.pool l := by
  unfold parseMsgNodes at hcall
  split at hcall
  · cases hcall
  cases hblock : parseNodes get 0 data.length p with
  | error s =>
    rw [hblock] at hcall
    cases hcall
  | ok q =>
    obtain ⟨q,ts⟩ := q
    obtain ⟨hnone,hsome⟩ := parseNodes_inUse h hblock
    rw [hblock] at hcall
    cases ts with
    | none =>
      cases hcall
      exact hnone rfl
    | some ts =>
      obtain ⟨hused,hfresh⟩ := hsome ts rfl
      obtain ⟨r',hparse,hcall⟩ := Lib.bind_eq_ok.mp hcall
      cases hcall
      exact freeAll_inUse _ _ _ (tlvParseCompoundNodes_inUse 9 _ _ _ _ _ _ hused hfresh hparse)

end ParseMsg

/-- The parsers give back every node on every way out; the builder does where nothing is lost. -/
theorem tlv_nodes_conserved {s : TlvMemory} {l : List Nat} (hs : InUse s.pool l) (desc : TlvDesc)
    (m w : Msg 9) (mode : TlvMode) (room : Nat) (data : List Byte) :
    (∀ s' r,ogsTlvBuildMsgNodes desc m mode room s = .ok (s',r) →
        (InUse s'.pool l ↔ NothingLost mode room desc m) ∧
          s'.pkbufs=s.pkbufs+(if r.isSome then 1 else 0)) ∧
      (∀ r,ogsTlvParseMsgNodes w desc data mode s.pool = .ok r → InUse r.pool l) ∧
      ∀ r,ogsTlvParseMsgDescNodes w desc data mode s.pool = .ok r → InUse r.pool l :=
  ⟨fun _ _ hcall => ogsTlvBuildMsg_nodes hs hcall,fun _ hcall => parseMsgNodes_inUse hs hcall,
    fun _ hcall => parseMsgNodes_inUse hs hcall⟩

theorem inUse_init (size : Nat) : InUse (Pool.init size) [] :=
  ⟨_,[],Pool.split_init size,Perm.refl _⟩

def numberAndText : TlvDesc := message [leaf .uint8 1 0 0,leaf .varStr 2 0 0]

def seven (text : List Byte) : Msg 9 := msgOf [((0,0),intSlot 7),((1,0),strSlot text)]

theorem tlv_nodes_conserved_seven :
    ∃ r,ogsTlvParseMsgNodes (blankMsg 9) numberAndText [1,0,1,7] .t1L2 (Pool.init 4) = .ok r ∧
      InUse r.pool [] :=
  ⟨_,rfl,(tlv_nodes_conserved (s := ⟨Pool.init 4,0⟩) (inUse_init 4) numberAndText (seven [])
    (blankMsg 9) .t1L2 0 [1,0,1,7]).2.1 _ rfl⟩

/-- A text without octets behind a number: the node of the number is gone. -/
theorem node_lost_behind_number :
    (ogsTlvBuildMsgNodes numberAndText (seven []) .t1L2 1000 ⟨Pool.init 4,0⟩).toOption.map
      (fun r => (r.1.pool.avail,r.2))=some (3,none) := by
  rfl

end OgsDp.Core
