import OgsDp.Core.TlvRoundTrip

/-!
# Messages given row by row (lib/core/ogs-tlv-msg.c)

The row of a child holds its slots that are present.
-/

namespace OgsDp.Core
open List Option

def absent {n : Nat} : Slot (Msg n) := ⟨false,0,[],blankMsg n⟩

def ofRows {n : Nat} (rows : List (List (Slot (Msg n)))) : Msg (n+1) :=
  fun i j => ((rows[i]?.getD [])[j]?).getD absent

def rowsSlot {n : Nat} (rows : List (List (Slot (Msg n)))) : Slot (Msg (n+1)) :=
  ⟨true,0,[],ofRows rows⟩

structure Regular (descs : List TlvDesc) : Prop where
  tree : DescsOk descs
  keys : (descs.map TlvDesc.key).Nodup
  inst : ∀ d∈descs,d.inst=0

instance (descs : List TlvDesc) : Decidable (Regular descs) :=
  decidable_of_iff (DescsOk descs ∧ (descs.map TlvDesc.key).Nodup ∧ ∀ d∈descs,d.inst=0)
    ⟨fun ⟨h₁,h₂,h₃⟩ => ⟨h₁,h₂,h₃⟩,fun h => ⟨h.tree,h.keys,h.inst⟩⟩

theorem getElem?_of_slotsFrom (i : Nat) (rest : List TlvDesc) :
    ∀ f∈slotsFrom i rest,∃ k,f.child=i+k ∧ rest[k]?=some f.desc := by
  induction i, rest using slotsFrom.induct with
  | case1 i =>
    intro f hf
    cases hf
  | case2 i desc =>
    intro f hf
    obtain ⟨j,_,rfl⟩ := mem_childSlots.mp hf
    exact ⟨0,rfl,rfl⟩
  | case3 i desc next rest hmore ih =>
    intro f hf
    rw [slotsFrom,if_pos hmore,mem_append] at hf
    rcases hf with hf | hf
    · obtain ⟨j,_,rfl⟩ := mem_childSlots.mp hf
      exact ⟨0,rfl,rfl⟩
    · obtain ⟨k,hchild,hdesc⟩ := ih f hf
      exact ⟨k+2,by omega,hdesc⟩
  | case4 i desc next rest hmore ih =>
    intro f hf
    rw [slotsFrom,if_neg hmore,mem_append] at hf
    rcases hf with hf | hf
    · obtain ⟨j,_,rfl⟩ := mem_childSlots.mp hf
      exact ⟨0,rfl,rfl⟩
    · obtain ⟨k,hchild,hdesc⟩ := ih f hf
      exact ⟨k+1,by omega,hdesc⟩

theorem getElem?_of_slots {descs : List TlvDesc} {f : Loc} (hf : f∈slots descs) :
    descs[f.child]?=some f.desc := by
  obtain ⟨k,hchild,hdesc⟩ := getElem?_of_slotsFrom 0 descs f hf
  rw [hchild,Nat.zero_add]
  exact hdesc

theorem Regular.earlier {S : Type} {descs : List TlvDesc} (h : Regular descs)
    (m : Nat → Nat → Slot S) {f : Loc} (hf : f∈slots descs) :
    Earlier descs m f.child f.desc.key := by
  intro i hi d hd hkey
  have hsecond:=getElem?_of_slots hf
  rw [mem_def] at hd
  have hlt : i<(descs.map TlvDesc.key).length := by
    rw [length_map]
    exact (List.getElem?_eq_some_iff.mp hd).1
  have hsame : (descs.map TlvDesc.key)[i]?=(descs.map TlvDesc.key)[f.child]? := by
    rw [List.getElem?_map,List.getElem?_map,hd,hsecond,map_some,map_some,hkey]
  have hchild:=(List.getElem?_inj hlt h.keys).mp hsame
  omega

section Fitting

variable {n : Nat} {b k : Nat} {desc : TlvDesc} {v : Slot (Msg n)}

/-- A slot whose element has at most `b` bytes behind its header and takes at most `k` nodes. -/
structure Fitting (n b k : Nat) (desc : TlvDesc) (v : Slot (Msg n)) : Prop where
  presence : v.presence
  length : (slotTlv (msgTlvs .t2L2 n) .t2L2 desc v).content.length≤b
  nodes : (slotTlv (msgTlvs .t2L2 n) .t2L2 desc v).nodes≤k
  content : if desc.ctype = .compound then
      msgTlvs .t2L2 n desc.children v.sub≠[] ∧ Ok .t2L2 n desc.children v.sub
    else LeafFits desc v

theorem Fitting.leaf (hp : v.presence) (hleaf : desc.ctype ≠ .compound) (hfits : LeafFits desc v)
    (hlen : (leafBytes desc v).length≤b) : Fitting n b 1 desc v := by
  have htlv : slotTlv (msgTlvs .t2L2 n) .t2L2 desc v =
      .mk .t2L2 desc.type.val desc.inst (leafBytes desc v) [] := if_neg hleaf
  refine ⟨hp,?_,?_,?_⟩
  · rw [htlv]
    exact hlen
  · rw [htlv]
    exact Nat.le_refl 1
  · rw [if_neg hleaf]
    exact hfits

theorem Fitting.compound (hp : v.presence) (hcomp : desc.ctype = .compound)
    (hne : msgTlvs .t2L2 n desc.children v.sub≠[]) (hok : Ok .t2L2 n desc.children v.sub)
    (hlen : calcLength (msgTlvs .t2L2 n desc.children v.sub)≤b)
    (hnodes : Core.nodes (msgTlvs .t2L2 n desc.children v.sub)≤k) :
    Fitting n b (k+1) desc v := by
  have htlv : slotTlv (msgTlvs .t2L2 n) .t2L2 desc v =
      .mk .t2L2 desc.type.val desc.inst [] (msgTlvs .t2L2 n desc.children v.sub) := if_pos hcomp
  refine ⟨hp,?_,?_,?_⟩
  · rw [htlv,content_eq hne,length_allBytes]
    exact hlen
  · rw [htlv]
    exact Nat.succ_le_succ hnodes
  · rw [if_pos hcomp]
    exact ⟨hne,hok⟩

theorem Fitting.mono {b₁ k₁ : Nat} (h : Fitting n b k desc v) (hb : b≤b₁) (hk : k≤k₁) :
    Fitting n b₁ k₁ desc v :=
  ⟨h.presence,Nat.le_trans h.length hb,Nat.le_trans h.nodes hk,h.content⟩

end Fitting

theorem calcLength_eq_sum (ts : List Tlv) : calcLength ts=(ts.map Tlv.calcLength).sum := by
  induction ts with
  | nil => rfl
  | cons t ts ih => rw [calcLength,ih,map_cons,sum_cons]

theorem nodes_eq_sum (ts : List Tlv) : nodes ts=(ts.map Tlv.nodes).sum := by
  induction ts with
  | nil => rfl
  | cons t ts ih => rw [nodes,ih,map_cons,sum_cons]

theorem sum_le_length_mul {l : List Nat} {B : Nat} (h : ∀ x∈l,x≤B) :
    l.sum≤l.length*B := by
  induction l with
  | nil => simp
  | cons x l ih =>
    have hx:=h x (mem_cons_self ..)
    have hrest:=ih fun y hy => h y (mem_cons_of_mem _ hy)
    rw [sum_cons,length_cons,Nat.succ_mul]
    omega

theorem sum_msgTlvs_le {mode : TlvMode} {n B : Nat} {descs : List TlvDesc} {m : Msg (n+1)}
    (size : Tlv → Nat)
    (h : ∀ f∈slots descs,(at' m f).presence →
      size (slotTlv (msgTlvs mode n) mode f.desc (at' m f))≤B) :
    ((msgTlvs mode (n+1) descs m).map size).sum≤(slots descs).length*B := by
  have hall : ∀ x∈(msgTlvs mode (n+1) descs m).map size,x≤B := by
    intro x hx
    obtain ⟨t,ht,rfl⟩ := List.mem_map.mp hx
    obtain ⟨f,hf,rfl⟩ := List.mem_map.mp ht
    obtain ⟨hmem,hp⟩ := mem_filter.mp hf
    exact h f hmem hp
  have hlen : ((msgTlvs mode (n+1) descs m).map size).length≤(slots descs).length := by
    rw [length_map,msgTlvs,length_map]
    exact length_filter_le _ _
  calc ((msgTlvs mode (n+1) descs m).map size).sum
      ≤ ((msgTlvs mode (n+1) descs m).map size).length*B := sum_le_length_mul hall
    _≤(slots descs).length*B := Nat.mul_le_mul_right B hlen

section Rows

variable {n b k : Nat} {descs : List TlvDesc} {rows : List (List (Slot (Msg n)))}

def RowsFit (n b k : Nat) (descs : List TlvDesc) (rows : List (List (Slot (Msg n)))) : Prop :=
  List.Forall₂ (fun desc row => ∀ v∈row,Fitting n b k desc v) descs rows

theorem ofRows_mem {i j : Nat} (hp : (ofRows rows i j).presence) :
    ∃ row,rows[i]?=some row ∧ row[j]?=some (ofRows rows i j) := by
  unfold ofRows at hp ⊢
  cases hrow : rows[i]? with
  | none =>
    rw [hrow] at hp
    cases hp
  | some row =>
    rw [hrow] at hp
    cases hv : row[j]? with
    | none =>
      rw [getD_some,hv] at hp
      cases hp
    | some v => exact ⟨row,rfl,by rw [getD_some,hv]; rfl⟩

theorem RowsFit.fitting (h : RowsFit n b k descs rows) {f : Loc} (hf : f∈slots descs)
    (hp : (at' (ofRows rows) f).presence) : Fitting n b k f.desc (at' (ofRows rows) f) := by
  obtain ⟨row,hrow,hv⟩ := ofRows_mem hp
  have hdesc:=getElem?_of_slots hf
  obtain ⟨hdlt,hd⟩ := List.getElem?_eq_some_iff.mp hdesc
  obtain ⟨hrlt,hr⟩ := List.getElem?_eq_some_iff.mp hrow
  have hfit:=h.get hdlt hrlt
  rw [get_eq_getElem,get_eq_getElem,hd,hr] at hfit
  exact hfit _ (List.mem_of_getElem? hv)

theorem RowsFit.filled (h : RowsFit n b k descs rows) {f : Loc} (hf : f∈slots descs)
    (hp : (at' (ofRows rows) f).presence) {j : Nat} (hj : j<f.rep) :
    (ofRows rows f.child j).presence := by
  obtain ⟨row,hrow,hv⟩ := ofRows_mem hp
  have hdesc:=getElem?_of_slots hf
  obtain ⟨hlt,-⟩ := List.getElem?_eq_some_iff.mp hv
  obtain ⟨hdlt,hd⟩ := List.getElem?_eq_some_iff.mp hdesc
  obtain ⟨hrlt,hr⟩ := List.getElem?_eq_some_iff.mp hrow
  have hfit:=h.get hdlt hrlt
  rw [get_eq_getElem,get_eq_getElem,hd,hr] at hfit
  have hjlt : j < row.length := Nat.lt_trans hj hlt
  have hslot : ofRows rows f.child j=row[j] := by
    unfold ofRows
    rw [hrow,getD_some,List.getElem?_eq_getElem hjlt,getD_some]
  rw [hslot]
  exact (hfit _ (getElem_mem _)).presence

theorem RowsFit.ok (h : RowsFit n b k descs rows) (hdescs : Regular descs) (hb : b<65536) :
    Ok .t2L2 (n+1) descs (ofRows rows) := by
  refine ⟨hdescs.tree,?_,?_,?_,?_⟩
  · intro f hf hp j hj
    exact h.filled hf hp hj
  · intro f hf hp
    have hfit:=h.fitting hf hp
    have hinst:=hdescs.inst f.desc (List.mem_of_getElem? (getElem?_of_slots hf))
    have hlen:=hfit.length
    refine ⟨?_,?_,?_,?_⟩
    · unfold slotTlv
      split <;> rfl
    · unfold slotTlv
      split <;> exact f.desc.type.isLt
    · exact Nat.lt_of_le_of_lt hlen hb
    · unfold slotTlv
      split <;> exact hinst ▸ Nat.one_pos
  · intro f hf _
    exact hdescs.earlier (ofRows rows) hf
  · intro f hf hp
    exact (h.fitting hf hp).content

theorem RowsFit.calcLength_le (h : RowsFit n b k descs rows) :
    calcLength (msgTlvs .t2L2 (n+1) descs (ofRows rows))≤(slots descs).length*(4+b) := by
  rw [calcLength_eq_sum]
  refine sum_msgTlvs_le Tlv.calcLength fun f hf hp => ?_
  have hlen:=(h.fitting hf hp).length
  have hmode : (slotTlv (msgTlvs .t2L2 n) .t2L2 f.desc (at' (ofRows rows) f)).mode = .t2L2 := by
    unfold slotTlv
    split <;> rfl
  rw [← Tlv.length_bytes,Tlv.bytes_eq,length_append,length_putHeader,hmode]
  exact Nat.add_le_add_left hlen 4

theorem RowsFit.nodes_le (h : RowsFit n b k descs rows) :
    nodes (msgTlvs .t2L2 (n+1) descs (ofRows rows))≤(slots descs).length*k := by
  rw [nodes_eq_sum]
  exact sum_msgTlvs_le Tlv.nodes fun f hf hp => (h.fitting hf hp).nodes

theorem msgTlvs_ne_nil {m : Msg (n+1)} {f : Loc} (hf : f∈slots descs)
    (hp : (at' m f).presence) : msgTlvs .t2L2 (n+1) descs m≠[] := by
  have hmem : f∈present m (slots descs) := mem_filter.mpr ⟨hf,hp⟩
  intro hnil
  have hnone:=List.map_eq_nil_iff.mp hnil
  rw [hnone] at hmem
  cases hmem

end Rows

def Slot.number {S : Type} (v : Slot S) : BitVec 32 := if v.presence then v.num else 0

def Slot.octets {S : Type} (v : Slot S) : Option (List Byte) :=
  if v.presence then some v.data else none

section Read

variable {n : Nat} {descs : List TlvDesc} {m w : Msg (n+1)}

theorem Agrees.number (h : Agrees (n+1) descs m w) {f : Loc} (hf : f∈slots descs)
    (hint : f.desc.ctype = .uint32 ∨ f.desc.ctype = .uint24) :
    (w f.child f.rep).number=(m f.child f.rep).number := by
  obtain ⟨hp,hagree⟩ := h f hf
  unfold Slot.number
  change (w f.child f.rep).presence=(m f.child f.rep).presence at hp
  rw [hp]
  split
  · have hnum:=hagree ‹_›
    unfold SlotAgrees at hnum
    rcases hint with hint | hint <;> rw [hint] at hnum <;> exact hnum
  · rfl

theorem Agrees.octets (h : Agrees (n+1) descs m w) {f : Loc} (hf : f∈slots descs)
    (hstr : f.desc.ctype = .varStr) : (w f.child f.rep).octets=(m f.child f.rep).octets := by
  obtain ⟨hp,hagree⟩ := h f hf
  unfold Slot.octets
  change (w f.child f.rep).presence=(m f.child f.rep).presence at hp
  rw [hp]
  split
  · have hdata:=hagree ‹_›
    unfold SlotAgrees at hdata
    rw [hstr] at hdata
    exact congrArg some hdata
  · rfl

theorem Agrees.sub (h : Agrees (n+1) descs m w) {f : Loc} (hf : f∈slots descs)
    (hcomp : f.desc.ctype = .compound) (hp : (m f.child f.rep).presence) :
    Agrees n f.desc.children (m f.child f.rep).sub (w f.child f.rep).sub := by
  have hagree:=(h f hf).2 hp
  unfold SlotAgrees at hagree
  rw [hcomp] at hagree
  exact hagree

end Read

end OgsDp.Core
