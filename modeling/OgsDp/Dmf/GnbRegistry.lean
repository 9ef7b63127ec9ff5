import OgsDp.Dmf.Context
import OgsDp.Lib.Run

/-!
# The gNB list of the DMF as a set of records (src/dmf/context.c)

A gNB is registered from the call that adds its id to the call that removes it.
-/

namespace OgsDp.Dmf
open Lib OgsDp.Core List Option

inductive Op where
  | add (gnbId : CStr)
  | remove (gnbId : CStr)
  | update (f : Forward)

namespace Context

variable (inetPton : CStr → Option (BitVec 32))

def call (c : Context) : Op → Context
  | .add gnbId => c.addGnb gnbId
  | .remove gnbId => c.removeGnb gnbId
  | .update f => c.updateGnbRanInfo inetPton f

def ids (c : Context) : List (List Byte) := c.gnbList.map Gnb.id

def Short (c : Context) : Prop := ∀ i∈c.ids,i.length≤63

/-- The record of the gNB is the one of the call or the one before it. -/
def Whole (c c' : Context) (f : Forward) : Prop :=
  match c.findGnb f.gnbId with
  | none => c'=c
  | some gnb =>
    c'.findGnb f.gnbId=some gnb ∨ ∃ a,inetPton f.ranAddr=some a ∧
      c'.findGnb f.gnbId=some ⟨gnb.id,some ⟨f.ranPort,a⟩,f.teid,f.sessionId.bytes⟩

def Updates (c : Context) (f : Forward) : Prop :=
  ∀ gnb,c.findGnb f.gnbId=some gnb →
    match inetPton f.ranAddr with
    | none => gnb.ranAddr=none
    | some a =>
      f.sessionId.bytes.length≤63 ∨
        gnb=⟨gnb.id,some ⟨f.ranPort,a⟩,f.teid,f.sessionId.bytes.take 63⟩

variable {inetPton} {c : Context} {gnbId i : CStr} {f : Forward} {F : Gnb → Gnb}

theorem findGnb_isSome : (c.findGnb i).isSome=true ↔ i.bytes∈c.ids := by
  unfold findGnb ids
  rw [List.find?_isSome,List.mem_map]
  simp only [beq_iff_eq]

theorem findGnb_none (h : c.findGnb i=none) : i.bytes∉c.ids := by
  intro hmem
  rw [← findGnb_isSome,h] at hmem
  cases hmem

theorem map_modifyFound (hF : ∀ gnb,(F gnb).id=gnb.id) (l : List Gnb) :
    (modifyFound gnbId F l).map Gnb.id=l.map Gnb.id := by
  induction l with
  | nil => rfl
  | cons gnb l ih =>
    unfold modifyFound
    split
    · rw [map_cons,map_cons,hF]
    · rw [map_cons,map_cons,ih]

theorem find_modifyFound (hF : ∀ gnb,(F gnb).id=gnb.id) (l : List Gnb) :
    (modifyFound gnbId F l).find? (fun gnb => gnb.id == gnbId.bytes) =
      (l.find? fun gnb => gnb.id == gnbId.bytes).map F := by
  induction l with
  | nil => rfl
  | cons gnb l ih =>
    unfold modifyFound
    cases hid : gnb.id == gnbId.bytes with
    | true => simp only [if_true,List.find?_cons,hF,hid,map_some]
    | false => simp only [Bool.false_eq_true,if_false,List.find?_cons,hid,ih]

theorem modifyFound_absent {l : List Gnb} (h : gnbId.bytes∉l.map Gnb.id) :
    modifyFound gnbId F l=l := by
  induction l with
  | nil => rfl
  | cons gnb l ih =>
    rw [map_cons,mem_cons,not_or] at h
    unfold modifyFound
    rw [if_neg (by simpa using fun heq => h.1 heq.symm),ih h.2]

theorem map_eraseP (l : List Gnb) :
    (l.eraseP fun gnb => gnb.id == gnbId.bytes).map Gnb.id=(l.map Gnb.id).erase gnbId.bytes := by
  induction l with
  | nil => rfl
  | cons gnb l ih =>
    rw [map_cons,eraseP_cons,erase_cons]
    cases hid : gnb.id == gnbId.bytes with
    | true => rfl
    | false => exact congrArg (gnb.id :: ·) ih

theorem addGnb_ids (c : Context) (gnbId : CStr) :
    gnbId.bytes∈c.ids ∧ (c.addGnb gnbId).ids=c.ids ∨
      gnbId.bytes∉c.ids ∧ (c.addGnb gnbId).ids=c.ids++[gnbId.bytes.take 63] := by
  unfold addGnb
  have hany : (c.gnbList.any fun gnb => gnb.id == gnbId.bytes)=true ↔ gnbId.bytes∈c.ids := by
    rw [List.any_eq_true,ids,List.mem_map]
    simp only [beq_iff_eq]
  by_cases hmem : gnbId.bytes∈c.ids
  · rw [if_pos (hany.mpr hmem)]
    exact .inl ⟨hmem,rfl⟩
  · rw [if_neg fun h => hmem (hany.mp h)]
    exact .inr ⟨hmem,by simp [ids]⟩

theorem removeGnb_ids (c : Context) (gnbId : CStr) :
    (c.removeGnb gnbId).ids=c.ids.erase gnbId.bytes :=
  map_eraseP c.gnbList

variable (inetPton) in
theorem updateGnbRanInfo_found (c : Context) (f : Forward) :
    ∃ F : Gnb → Gnb, (∀ gnb,(F gnb).id=gnb.id) ∧
      c.updateGnbRanInfo inetPton f=⟨modifyFound f.gnbId F c.gnbList⟩ ∧
      ∀ gnb,F gnb =
        match inetPton f.ranAddr with
        | none => { gnb with ranAddr := none }
        | some a => ⟨gnb.id,some ⟨f.ranPort,a⟩,f.teid,f.sessionId.bytes.take 63⟩ := by
  unfold updateGnbRanInfo
  cases inetPton f.ranAddr with
  | none =>
    exact ⟨fun gnb => { gnb with ranAddr := none },fun _ => rfl,rfl,fun _ => rfl⟩
  | some a =>
    exact ⟨fun gnb => ⟨gnb.id,some ⟨f.ranPort,a⟩,f.teid,f.sessionId.bytes.take 63⟩,
      fun _ => rfl,rfl,fun _ => rfl⟩

theorem updateGnbRanInfo_ids (c : Context) (f : Forward) :
    (c.updateGnbRanInfo inetPton f).ids=c.ids := by
  obtain ⟨F,hF,hupdate,-⟩ := updateGnbRanInfo_found inetPton c f
  rw [hupdate]
  exact map_modifyFound hF c.gnbList

theorem whole_iff (c : Context) (f : Forward) :
    Whole inetPton c (c.updateGnbRanInfo inetPton f) f ↔ Updates inetPton c f := by
  obtain ⟨F,hF,hupdate,hrecord⟩ := updateGnbRanInfo_found inetPton c f
  unfold Whole Updates
  rw [hupdate]
  cases hfind : c.findGnb f.gnbId with
  | none =>
    have hsame:=modifyFound_absent (F := F) (findGnb_none hfind)
    simp [hsame]
  | some gnb =>
    have hafter : Context.findGnb ⟨modifyFound f.gnbId F c.gnbList⟩ f.gnbId=some (F gnb) := by
      show (modifyFound f.gnbId F c.gnbList).find? _=_
      rw [find_modifyFound hF,show c.gnbList.find? _=some gnb from hfind]
      rfl
    simp only [hafter,some.injEq,forall_eq',hrecord]
    obtain ⟨id,ranAddr,teid,sessionId⟩ := gnb
    cases inetPton f.ranAddr with
    | none => simp [eq_comm]
    | some a =>
      have htake : f.sessionId.bytes.take 63=f.sessionId.bytes ↔
          f.sessionId.bytes.length≤63 := by
        refine ⟨fun heq => ?_,take_of_length_le⟩
        rw [← heq]
        exact length_take_le ..
      simp only [Gnb.mk.injEq,some.injEq,exists_eq_left',true_and,htake]
      rw [or_comm]
      simp only [eq_comm]

variable (inetPton) in
theorem Short.call (h : c.Short) (op : Op) : (c.call inetPton op).Short := by
  cases op with
  | add gnbId =>
    intro i hi
    rw [Context.call] at hi
    rcases c.addGnb_ids gnbId with ⟨-,hids⟩ | ⟨-,hids⟩
    · exact h i (hids ▸ hi)
    · rcases mem_append.mp (hids ▸ hi) with hi | hi
      · exact h i hi
      · rw [mem_singleton.mp hi,length_take]
        omega
  | remove gnbId =>
    intro i hi
    rw [Context.call,removeGnb_ids] at hi
    exact h i (mem_of_mem_erase hi)
  | update f =>
    intro i hi
    rw [Context.call,updateGnbRanInfo_ids] at hi
    exact h i hi

end Context

/-- The list with the calls so far, the latest one first, and the list before that one. -/
structure Registry where
  ctx : Context
  before : Context
  history : List Op

def Added : List Op → CStr → Prop
  | [], _ => False
  | .add gnbId::ops, i => gnbId=i ∨ Added ops i
  | .remove gnbId::ops, i => gnbId≠i ∧ Added ops i
  | .update _::ops, i => Added ops i

namespace Registry

variable (inetPton : CStr → Option (BitVec 32))

def init : Registry := ⟨⟨[]⟩,⟨[]⟩,[]⟩

def step (t : Registry) (op : Op) : Option (Outcome Registry Unit) :=
  some (.ok ⟨t.ctx.call inetPton op,t.ctx,op::t.history⟩ ())

/-- The list is the set of the gNBs that were added, and the latest update left a whole record. -/
structure Keyed (t : Registry) : Prop where
  found : ∀ i,(t.ctx.findGnb i).isSome=true ↔ Added t.history i
  once : t.ctx.ids.Nodup
  whole : ∀ f ops,t.history = .update f::ops → Context.Whole inetPton t.before t.ctx f

def Fits (t : Registry) : Op → Prop
  | .add gnbId => gnbId.bytes.length≤63
  | .remove _ => True
  | .update f => Context.Updates inetPton t.ctx f

variable {inetPton} {t : Registry}

theorem bytes_eq_iff {a b : CStr} : a=b ↔ a.bytes=b.bytes := by
  cases a
  cases b
  simp

theorem keyed_init : Keyed inetPton init where
  found := by
    intro i
    simp [init,Context.findGnb,Added]
  once := nodup_nil
  whole := by
    intro f ops h
    cases h

theorem keyed_add (hshort : t.ctx.Short) (h : Keyed inetPton t) (gnbId : CStr) :
    Keyed inetPton ⟨t.ctx.addGnb gnbId,t.ctx,.add gnbId::t.history⟩ ↔
      gnbId.bytes.length≤63 := by
  constructor
  · intro hkeyed
    by_contra hlong
    have hfound:=(hkeyed.found gnbId).mpr (.inl rfl)
    rw [Context.findGnb_isSome] at hfound
    exact hlong (hshort.call inetPton (.add gnbId) _ hfound)
  · intro hfits
    have hids : ∀ i,i∈(t.ctx.addGnb gnbId).ids ↔ gnbId.bytes=i ∨ i∈t.ctx.ids := by
      intro i
      rcases t.ctx.addGnb_ids gnbId with ⟨hmem,hids⟩ | ⟨-,hids⟩
      · rw [hids]
        constructor
        · exact .inr
        · intro hi
          rcases hi with rfl | hi
          · exact hmem
          · exact hi
      · rw [hids,take_of_length_le hfits,mem_append,mem_singleton,or_comm,
          eq_comm]
    refine ⟨?_,?_,?_⟩
    · intro i
      rw [Context.findGnb_isSome,hids,← Context.findGnb_isSome,h.found]
      exact or_congr bytes_eq_iff.symm Iff.rfl
    · show (t.ctx.addGnb gnbId).ids.Nodup
      rcases t.ctx.addGnb_ids gnbId with ⟨-,hids⟩ | ⟨hmem,hids⟩
      · rw [hids]
        exact h.once
      · rw [hids,take_of_length_le hfits]
        refine nodup_append.mpr ⟨h.once,nodup_singleton _,?_⟩
        intro i hi j hj heq
        rw [mem_singleton.mp hj] at heq
        exact hmem (heq ▸ hi)
    · intro f ops hno
      cases hno

theorem keyed_remove (h : Keyed inetPton t) (gnbId : CStr) :
    Keyed inetPton ⟨t.ctx.removeGnb gnbId,t.ctx,.remove gnbId::t.history⟩ := by
  refine ⟨?_,?_,?_⟩
  · intro i
    rw [Context.findGnb_isSome,Context.removeGnb_ids,h.once.mem_erase_iff,
      ← Context.findGnb_isSome,h.found]
    refine and_congr (not_congr ?_) Iff.rfl
    rw [bytes_eq_iff,eq_comm]
  · show (t.ctx.removeGnb gnbId).ids.Nodup
    rw [Context.removeGnb_ids]
    exact h.once.erase _
  · intro f ops hno
    cases hno

theorem keyed_update (h : Keyed inetPton t) (f : Forward) :
    Keyed inetPton ⟨t.ctx.updateGnbRanInfo inetPton f,t.ctx,.update f::t.history⟩ ↔
      Context.Updates inetPton t.ctx f := by
  rw [← Context.whole_iff]
  constructor
  · intro hkeyed
    exact hkeyed.whole f t.history rfl
  · intro hwhole
    refine ⟨?_,?_,?_⟩
    · intro i
      rw [Context.findGnb_isSome,Context.updateGnbRanInfo_ids,← Context.findGnb_isSome,h.found]
      rfl
    · show (t.ctx.updateGnbRanInfo inetPton f).ids.Nodup
      rw [Context.updateGnbRanInfo_ids]
      exact h.once
    · intro f' ops heq
      obtain ⟨hop,-⟩ := cons.inj heq
      obtain rfl := Op.update.inj hop
      exact hwhole

theorem keyed_step (hshort : t.ctx.Short) (h : Keyed inetPton t) (op : Op) :
    Keyed inetPton ⟨t.ctx.call inetPton op,t.ctx,op::t.history⟩ ↔ Fits inetPton t op := by
  cases op with
  | add gnbId => exact keyed_add hshort h gnbId
  | remove gnbId => exact iff_of_true (keyed_remove h gnbId) trivial
  | update f => exact keyed_update h f

/-- The list is a set of whole records, keyed by the id, exactly in the runs whose added ids have
at most 63 bytes and whose updates read their address and have a session id that fits. -/
theorem keyed_run_iff (inetPton : CStr → Option (BitVec 32)) (ops : List Op) :
    (∀ t∈completed (step inetPton) init ops,Keyed inetPton t) ↔
      EachStep (step inetPton) (Fits inetPton) init ops := by
  have hok : ∀ t op t' r,t.ctx.Short → Keyed inetPton t → step inetPton t op=some (.ok t' r) →
      t'.ctx.Short ∧ (Keyed inetPton t' ↔ Fits inetPton t op) := by
    intro t op t' r hshort hkeyed ho
    obtain ⟨rfl,-⟩ := Outcome.ok.inj (some.inj ho)
    exact ⟨hshort.call inetPton op,keyed_step hshort hkeyed op⟩
  refine completed_iff hok ?_ ?_ keyed_init
  · intro t op hno
    exact absurd rfl (hno _ ())
  · intro i hi
    cases hi

def gnb1 : CStr := ⟨ascii "1",by decide⟩

def inetPton1 (s : CStr) : Option (BitVec 32) :=
  if s.bytes=ascii "127.0.0.1" then some 0x7f000001 else none

def updateTo (ranAddr : CStr) : Op := .update ⟨gnb1,⟨ascii "s",by decide⟩,ranAddr,2152,5⟩

def lostAddress : List Op :=
  [.add gnb1,updateTo ⟨ascii "127.0.0.1",by decide⟩,updateTo ⟨ascii "localhost",by decide⟩]

theorem address_lost :
    ¬ ∀ t∈completed (step inetPton1) init lostAddress,Keyed inetPton1 t := by
  intro h
  have hlast : (completed (step inetPton1) init lostAddress)[3]?=some
      ⟨⟨[⟨ascii "1",none,5,ascii "s"⟩]⟩,
        ⟨[⟨ascii "1",some ⟨2152,0x7f000001⟩,5,ascii "s"⟩]⟩,lostAddress.reverse⟩ := rfl
  have hwhole:=(h _ (List.mem_of_getElem? hlast)).whole _ _ rfl
  rcases hwhole with hsame | ⟨a,hread,-⟩
  · revert hsame
    decide
  · cases hread

end Registry

end OgsDp.Dmf
