import OgsDp.Smf.Identifiers

/-!
# Flows of the PDRs of a bearer (src/smf/context.c)

The entries of the two PDRs are rewritten in place; what an entry held before shows through where
the new one does not cover it.
-/

namespace OgsDp.Smf
open Lib OgsDp.Core Function List Option

namespace PdrFlow

def Tidy (e : PdrFlow) : Prop :=
  (e.fd=false → e.description=none) ∧ (e.bid=false → e.sdfFilterId=0)

def overlay (old e : PdrFlow) : PdrFlow where
  fd := old.fd || e.fd
  bid := old.bid || e.bid
  description := if e.fd then e.description else old.description
  sdfFilterId := if e.bid then e.sdfFilterId else old.sdfFilterId

def Under (old e : PdrFlow) : Prop :=
  (old.fd=true → e.fd=true) ∧ (old.bid=true → e.bid=true)

instance (old e : PdrFlow) : Decidable (old.Under e) :=
  inferInstanceAs (Decidable ((old.fd=true → e.fd=true) ∧ (old.bid=true → e.bid=true)))

theorem overlay_tidy {old e : PdrFlow} (hold : old.Tidy) (he : e.Tidy) : (old.overlay e).Tidy := by
  obtain ⟨ofd,obid,od,oid⟩ := old
  obtain ⟨fd,bid,d,id⟩ := e
  unfold Tidy overlay at *
  cases ofd <;> cases obid <;> cases fd <;> cases bid <;> simp_all

theorem overlay_eq_iff {old e : PdrFlow} (hold : old.Tidy) (he : e.Tidy) :
    old.overlay e=e ↔ old.Under e := by
  obtain ⟨ofd,obid,od,oid⟩ := old
  obtain ⟨fd,bid,d,id⟩ := e
  unfold Tidy overlay Under at *
  cases ofd <;> cases obid <;> cases fd <;> cases bid <;> simp_all

end PdrFlow

namespace PdrFlows

def toList (p : PdrFlows) : List PdrFlow := (List.range p.numOfFlow).map p.flow

def puts (p : PdrFlows) (es : List PdrFlow) : PdrFlows :=
  es.foldl (fun p e => p.put fun old => old.overlay e) p

theorem puts_numOfFlow (p : PdrFlows) (es : List PdrFlow) :
    (p.puts es).numOfFlow=p.numOfFlow+es.length := by
  induction es generalizing p with
  | nil => rfl
  | cons e es ih =>
    show ((p.put fun old => old.overlay e).puts es).numOfFlow=_
    rw [ih,length_cons]
    show p.numOfFlow+1+es.length=_
    omega

theorem puts_flow (p : PdrFlows) (es : List PdrFlow) (i : Nat) :
    (p.puts es).flow i =
      if i<p.numOfFlow then p.flow i
      else (es[i-p.numOfFlow]?).elim (p.flow i) (p.flow i).overlay := by
  induction es generalizing p with
  | nil => simp [puts]
  | cons e es ih =>
    show ((p.put fun old => old.overlay e).puts es).flow i=_
    rw [ih]
    show (if i<p.numOfFlow+1 then update p.flow p.numOfFlow _ i
      else (es[i-(p.numOfFlow+1)]?).elim (update p.flow p.numOfFlow _ i)
        (update p.flow p.numOfFlow _ i).overlay)=_
    rcases Nat.lt_trichotomy i p.numOfFlow with hlt | rfl | hgt
    · rw [if_pos (by omega),if_pos hlt,update_of_ne (by omega)]
    · rw [if_pos (by omega),if_neg (by omega),update_self,Nat.sub_self]
      rfl
    · have hsub : i-p.numOfFlow=i-(p.numOfFlow+1)+1 := by omega
      rw [if_neg (by omega),if_neg (by omega),update_of_ne (by omega),hsub,
        List.getElem?_cons_succ]

/-- The entries to be rewritten have no flag that the new ones lack. -/
def Fits (p : PdrFlows) (es : List PdrFlow) : Prop :=
  ∀ i,i<es.length → ∀ e∈es[i]?,(p.flow i).Under e

theorem toList_puts_iff {p : PdrFlows} {es : List PdrFlow} (hp : p.numOfFlow=0)
    (hold : ∀ i,(p.flow i).Tidy) (hes : ∀ e∈es,e.Tidy) :
    (p.puts es).toList=es ↔ p.Fits es := by
  have hflow : ∀ i (hi : i<es.length),(p.puts es).flow i=(p.flow i).overlay es[i] := by
    intro i hi
    rw [puts_flow,hp,if_neg (Nat.not_lt_zero i),Nat.sub_zero,List.getElem?_eq_getElem hi]
    rfl
  have hlen : (p.puts es).toList.length=es.length := by
    unfold toList
    rw [length_map,length_range,puts_numOfFlow,hp,Nat.zero_add]
  have hget : ∀ i (hi : i<es.length),
      (p.puts es).toList[i]?=some ((p.flow i).overlay es[i]) := by
    intro i hi
    have hn : i<(p.puts es).numOfFlow := by rw [puts_numOfFlow,hp,Nat.zero_add]; exact hi
    unfold toList
    rw [List.getElem?_map,List.getElem?_range hn,map_some,hflow i hi]
  have htidy : ∀ i (hi : i<es.length),es[i].Tidy := fun i hi => hes _ (getElem_mem hi)
  constructor
  · intro heq i hi e he
    rw [List.getElem?_eq_getElem hi] at he
    obtain rfl := some.inj he
    have hi':=hget i hi
    rw [heq,List.getElem?_eq_getElem hi] at hi'
    exact (PdrFlow.overlay_eq_iff (hold i) (htidy i hi)).mp (some.inj hi').symm
  · intro hfits
    refine List.ext_getElem? fun i => ?_
    by_cases hi : i<es.length
    · have hunder:=hfits i hi es[i] (List.getElem?_eq_getElem hi)
      rw [hget i hi,(PdrFlow.overlay_eq_iff (hold i) (htidy i hi)).mpr hunder,
        List.getElem?_eq_getElem hi]
    · rw [List.getElem?_eq_none (by omega),List.getElem?_eq_none (by omega)]

theorem puts_tidy {p : PdrFlows} {es : List PdrFlow} (hold : ∀ i,(p.flow i).Tidy)
    (hes : ∀ e∈es,e.Tidy) (i : Nat) : ((p.puts es).flow i).Tidy := by
  rw [puts_flow]
  split
  · exact hold i
  · cases he : es[i-p.numOfFlow]? with
    | none => exact hold i
    | some e => exact PdrFlow.overlay_tidy (hold i) (hes e (List.mem_of_getElem? he))

end PdrFlows

def SmfPf.dlFlow (x : SmfPf) : Option PdrFlow :=
  match x.direction with
  | .downlinkOnly => some ⟨true,false,x.flowDescription,0⟩
  | .bidirectional => some ⟨true,true,x.flowDescription,x.sdfFilterId⟩
  | _ => none

def SmfPf.ulFlow (x : SmfPf) : Option PdrFlow :=
  match x.direction with
  | .uplinkOnly => some ⟨true,false,x.flowDescription,0⟩
  | .bidirectional => some ⟨false,true,none,x.sdfFilterId⟩
  | _ => none

namespace Bearers

variable {c c' : Bearers} {L : Nat → List Nat} {s b f : Nat}

def dlFlows (c : Bearers) (b : Nat) : List PdrFlow :=
  (c.pfList b).filterMap fun f => (c.pf f).dlFlow

def ulFlows (c : Bearers) (b : Nat) : List PdrFlow :=
  (c.pfList b).filterMap fun f => (c.pf f).ulFlow

theorem tftPut_eq {x : SmfPf} {dl ul dl' ul' : PdrFlows} (h : tftPut x dl ul=some (dl',ul')) :
    dl'=dl.puts x.dlFlow.toList ∧ ul'=ul.puts x.ulFlow.toList := by
  unfold tftPut at h
  unfold SmfPf.dlFlow SmfPf.ulFlow
  cases hd : x.direction with
  | unspecified => simp [hd] at h
  | downlinkOnly | uplinkOnly | bidirectional =>
    simp only [hd,some.injEq,Prod.mk.injEq] at h
    obtain ⟨rfl,rfl⟩ := h
    simp [PdrFlows.puts,PdrFlow.overlay]

theorem tftPuts_eq (c : Bearers) {fs : List Nat} {dl ul dl' ul' : PdrFlows}
    (h : fs.foldlM (fun p f => tftPut (c.pf f) p.1 p.2) (dl,ul)=some (dl',ul')) :
    dl'=dl.puts (fs.filterMap fun f => (c.pf f).dlFlow) ∧
      ul'=ul.puts (fs.filterMap fun f => (c.pf f).ulFlow) := by
  induction fs generalizing dl ul with
  | nil =>
    obtain ⟨rfl,rfl⟩ := Prod.mk.inj (some.inj h)
    exact ⟨rfl,rfl⟩
  | cons f fs ih =>
    rw [foldlM_cons] at h
    cases hput : tftPut (c.pf f) dl ul with
    | none => simp [hput] at h
    | some p =>
      obtain ⟨dl₁,ul₁⟩ := p
      obtain ⟨rfl,rfl⟩ := tftPut_eq hput
      simp only [hput] at h
      obtain ⟨rfl,rfl⟩ := ih h
      have hcons : ∀ g : Nat → Option PdrFlow,
          (f::fs).filterMap g=(g f).toList++fs.filterMap g := by
        intro g
        cases hg : g f with
        | none => simp [hg]
        | some e => simp [hg]
      rw [hcons,hcons]
      exact ⟨(foldl_append ..).symm,(foldl_append ..).symm⟩

theorem dlFlow_tidy (x : SmfPf) : ∀ e∈x.dlFlow,e.Tidy := by
  intro e he
  unfold SmfPf.dlFlow at he
  cases hd : x.direction <;> simp only [hd] at he <;> cases he <;> simp [PdrFlow.Tidy]

theorem ulFlow_tidy (x : SmfPf) : ∀ e∈x.ulFlow,e.Tidy := by
  intro e he
  unfold SmfPf.ulFlow at he
  cases hd : x.direction <;> simp only [hd] at he <;> cases he <;> simp [PdrFlow.Tidy]

theorem dlFlows_tidy (c : Bearers) (b : Nat) : ∀ e∈c.dlFlows b,e.Tidy := by
  intro e he
  obtain ⟨f,-,hf⟩ := mem_filterMap.mp he
  exact dlFlow_tidy _ e hf

theorem ulFlows_tidy (c : Bearers) (b : Nat) : ∀ e∈c.ulFlows b,e.Tidy := by
  intro e he
  obtain ⟨f,-,hf⟩ := mem_filterMap.mp he
  exact ulFlow_tidy _ e hf

def FlowsRight (c : Bearers) (b : Nat) : Prop :=
  (c.bearer b).dlPdr.toList=c.dlFlows b ∧ (c.bearer b).ulPdr.toList=c.ulFlows b

/-- The entries that the flows of the filters are written over have no flags but theirs. -/
def FlowsFit (c : Bearers) (b : Nat) : Prop :=
  (c.bearer b).dlPdr.Fits (c.dlFlows b) ∧ (c.bearer b).ulPdr.Fits (c.ulFlows b)

def FlowsTidy (x : SmfBearer) : Prop := ∀ i,(x.dlPdr.flow i).Tidy ∧ (x.ulPdr.flow i).Tidy

theorem tftUpdate_spec (htidy : FlowsTidy (c.bearer b)) :
    (c.smfBearerTftUpdate b).Returns fun c' _ =>
      (c'.FlowsRight b ↔ c.FlowsFit b) ∧ FlowsTidy (c'.bearer b) ∧
        ∃ dl ul,c'=c.modifyBearer b fun x => { x with dlPdr := dl,ulPdr := ul } := by
  unfold smfBearerTftUpdate
  simp only
  split
  · trivial
  · rename_i dl ul hput
    obtain ⟨rfl,rfl⟩ := c.tftPuts_eq hput
    refine ⟨?_,?_,_,_,rfl⟩
    · unfold FlowsRight
      simp only [modifyBearer,update_self]
      exact and_congr
        (PdrFlows.toList_puts_iff rfl (fun i => (htidy i).1) (c.dlFlows_tidy b))
        (PdrFlows.toList_puts_iff rfl (fun i => (htidy i).2) (c.ulFlows_tidy b))
    · simp only [modifyBearer,update_self]
      intro i
      refine ⟨PdrFlows.puts_tidy ?_ (c.dlFlows_tidy b) i,
        PdrFlows.puts_tidy ?_ (c.ulFlows_tidy b) i⟩
      · exact fun i => (htidy i).1
      · exact fun i => (htidy i).2

end Bearers

end OgsDp.Smf
