import OgsDp.Amf.GnbIndex
import OgsDp.Dmf.Context

/-!
# The gNBs of the AMF at the DMF (src/amf/sbi-path.c, src/dmf/context.c)

A gNB is registered with the DMF when its association is added.
-/

namespace OgsDp.Amf
open Lib Text OgsDp.Core List

theorem length_gnbIdStr (gnbId : BitVec 32) : (gnbIdStr gnbId).bytes.length≤10 := by
  have hlt:=gnbId.isLt
  simp only [gnbIdStr,decimal,length_map]
  rw [Nat.length_toDigits_le_iff (by decide) (by decide)]
  omega

theorem gnbSyncBody_bytes (gnbId : BitVec 32) (isRegister : Bool) :
    (gnbSyncBody (gnbIdStr gnbId) isRegister).bytes =
      gnbSyncText (gnbIdStr gnbId).bytes isRegister := by
  apply take_of_length_le
  have hlen:=length_gnbIdStr gnbId
  have hopen : (ascii "\x7b\"gnb_id\":\"").length=11 := by decide
  have hname : (ascii "\",\"action\":\"").length=12 := by decide
  have hclose : (ascii "\"\x7d").length=2 := by decide
  have haction : (if isRegister then ascii "register" else ascii "deregister").length≤10 := by
    cases isRegister <;> decide
  simp only [gnbSyncText,length_append]
  omega

def actionStr (isRegister : Bool) : CStr where
  bytes := if isRegister then ascii "register" else ascii "deregister"
  noNul := by cases isRegister <;> decide

def actionText (isRegister : Bool) : List Byte :=
  stringEntry (ascii "action") (actionStr isRegister).bytes++ascii "\x7d"

theorem gnbSyncText_entries (gnbId : List Byte) (isRegister : Bool) :
    gnbSyncText gnbId isRegister =
      ascii "\x7b" ++ (stringEntry (ascii "gnb_id") gnbId++([comma]++actionText isRegister)) := by
  simp only [gnbSyncText,actionText,actionStr,stringEntry,append_assoc,nil_append,
    cons_append]
  rfl

theorem gnbSyncAction_body (gnbId : BitVec 32) (isRegister : Bool) :
    Dmf.gnbSyncAction (gnbSyncBody (gnbIdStr gnbId) isRegister) =
      if isRegister then .addGnb (gnbIdStr gnbId) else .removeGnb (gnbIdStr gnbId) := by
  have hplain : quote∉(gnbIdStr gnbId).bytes := quote_not_mem_decimal _
  have htext:=(gnbSyncBody_bytes gnbId isRegister).trans (gnbSyncText_entries _ isRegister)
  have hgnb : stringField (ascii "gnb_id") (gnbSyncBody (gnbIdStr gnbId) isRegister) =
      some (gnbIdStr gnbId) := by
    apply stringField_eq
    apply stringFieldBytes_of_strstr hplain (show quote∉ascii "\x7b" by decide)
    rw [htext]
  have hpass : ∀ name,PlainName name → name≠ascii "gnb_id" →
      strstr (fieldKey name [quote]) (gnbSyncBody (gnbIdStr gnbId) isRegister).bytes =
        strstr (fieldKey name [quote]) ([comma]++actionText isRegister) := by
    intro name hname hne
    rw [htext]
    exact strstr_stringEntry_of_ne hname (by decide) (by decide) hplain hne
  have haction : stringField (ascii "action") (gnbSyncBody (gnbIdStr gnbId) isRegister) =
      some (actionStr isRegister) := by
    apply stringField_eq
    have hvalue : quote∉(actionStr isRegister).bytes := by cases isRegister <;> decide
    apply stringFieldBytes_of_strstr hvalue (show quote∉[comma] by decide)
    rw [hpass _ ⟨by decide,by decide,by decide⟩ (by decide)]
    rfl
  have hsession : stringField (ascii "session_id") (gnbSyncBody (gnbIdStr gnbId) isRegister) =
      none := by
    apply stringField_none
    rw [hpass _ Dmf.plainName_sessionId (by decide)]
    cases isRegister <;> decide
  unfold Dmf.gnbSyncAction Dmf.parseGnbSync
  simp only [hgnb,haction,hsession]
  cases isRegister <;> rfl

def GnbEvent.syncs (c : Context) : GnbEvent → List (BitVec 32 × Bool)
  | .gnbAdd =>
    if c.gnbPool.idCalloc.2.isSome && (c.dmfInstance && c.dmfClient) then [(0,true)] else []
  | .gnbRemove n => if c.dmfInstance && c.dmfClient then [((c.gnb n).gnbId,false)] else []
  | _ => []

namespace Context

variable {c : Context}

theorem sbiSendGnbSyncToDmf_sent (c : Context) (gnbId : BitVec 32) (isRegister : Bool) :
    (c.sbiSendGnbSyncToDmf (gnbIdStr gnbId) isRegister).sent=c.sent ++
      (if c.dmfInstance && c.dmfClient then [(gnbId,isRegister)] else []).map fun x =>
        gnbSyncBody (gnbIdStr x.1) x.2 := by
  unfold sbiSendGnbSyncToDmf
  split <;> simp

theorem ngSetupCheck_sent (c : Context) (n : Nat) (message : NgSetupRequest) :
    (c.ngSetupCheck n message).1.sent=c.sent := by
  unfold ngSetupCheck
  split
  · simp only
    split
    · split <;> rfl
    · rfl
  · rfl

theorem step_sent {e : GnbEvent} {c' : Context} {r : Unit} (h : c.step e=some (.ok c' r)) :
    c'.sent=c.sent++(e.syncs c).map fun x => gnbSyncBody (gnbIdStr x.1) x.2 := by
  unfold step at h
  cases e with
  | gnbAdd =>
    cases h
    unfold gnbAdd GnbEvent.syncs
    cases hcalloc : c.gnbPool.idCalloc with
    | mk pool u =>
      cases u with
      | none => simp
      | some x =>
        simp only [Option.isSome_some,Bool.true_and]
        rw [sbiSendGnbSyncToDmf_sent,gnbCalloc_self]
        rfl
  | setGnbId n gnbId =>
    simp only at h
    split at h
    · cases h
      simp [GnbEvent.syncs,gnbSetGnbId,modify]
    · cases h
  | ngSetup n message =>
    simp only at h
    split at h
    · cases h
      have hsent:=c.ngSetupCheck_sent n message
      unfold ngapHandleNgSetupRequest
      cases hcheck : c.ngSetupCheck n message with
      | mk c₁ u =>
        rw [hcheck] at hsent
        cases u with
        | error cause => simpa [GnbEvent.syncs] using hsent
        | ok gnbId => simpa [GnbEvent.syncs,gnbSetGnbId,modify] using hsent
    · cases h
  | gnbRemove n =>
    simp only at h
    split at h
    · cases h
      exact c.sbiSendGnbSyncToDmf_sent _ _
    · cases h
  | discovery dmfInstance dmfClient =>
    cases h
    simp [GnbEvent.syncs]

end Context

section Mirror

variable (cJSONParse : CStr → Bool) (inetPton : CStr → Option (BitVec 32))

/-- The DMF once it has the requests in the order in which they were sent. -/
def dmfAfter (sent : List CStr) : Dmf.Context :=
  sent.foldl (Dmf.Context.gnbSync cJSONParse inetPton) ⟨[]⟩

/-- The DMF lists the ids of the connected gNBs that completed NG Setup. -/
def Context.Mirrored (c : Context) : Prop :=
  ∀ id : List Byte, (∃ gnb∈(dmfAfter cJSONParse inetPton c.sent).gnbList,gnb.id=id) ↔
    ∃ n∈c.gnbList,(c.gnb n).ngSetupSuccess=true ∧ decimal (c.gnb n).gnbId.toNat=id

def GnbEvent.Silent (c : Context) : GnbEvent → Prop
  | .gnbAdd => c.gnbPool.avail=0 ∨ (c.dmfInstance && c.dmfClient)=false
  | .ngSetup n message => n∈c.gnbList → ∀ gnbId,(c.ngSetupCheck n message).2 ≠ .ok gnbId
  | _ => True

-- `cJSON_Parse` reads the bodies that the AMF writes.
variable (hjson : ∀ gnbId isRegister,cJSONParse (gnbSyncBody (gnbIdStr gnbId) isRegister)=true)
include hjson

theorem gnbSync_body (d : Dmf.Context) (gnbId : BitVec 32) (isRegister : Bool) :
    d.gnbSync cJSONParse inetPton (gnbSyncBody (gnbIdStr gnbId) isRegister) =
      if isRegister then d.addGnb (gnbIdStr gnbId) else d.removeGnb (gnbIdStr gnbId) := by
  unfold Dmf.Context.gnbSync
  rw [if_pos (hjson gnbId isRegister),gnbSyncAction_body]
  cases isRegister <;> rfl

theorem dmfAfter_step {c c' : Context} {e : GnbEvent} {r : Unit}
    (h : c.step e=some (.ok c' r)) :
    dmfAfter cJSONParse inetPton c'.sent=(e.syncs c).foldl (fun d x =>
      if x.2 then d.addGnb (gnbIdStr x.1) else d.removeGnb (gnbIdStr x.1))
        (dmfAfter cJSONParse inetPton c.sent) := by
  unfold dmfAfter
  rw [Context.step_sent h,foldl_append]
  generalize c.sent.foldl (Dmf.Context.gnbSync cJSONParse inetPton) ⟨[]⟩=d
  induction e.syncs c generalizing d with
  | nil => rfl
  | cons x l ih =>
    rw [map_cons,foldl_cons,foldl_cons,gnbSync_body _ _ hjson]
    exact ih _

omit hjson in
theorem addGnb_zero (d : Dmf.Context) :
    0<(d.addGnb (gnbIdStr 0)).gnbList.length ∧
      ((∀ gnb∈d.gnbList,gnb.id=decimal 0) →
        ∀ gnb∈(d.addGnb (gnbIdStr 0)).gnbList,gnb.id=decimal 0) := by
  unfold Dmf.Context.addGnb
  split
  · rename_i hany
    obtain ⟨gnb,hmem,-⟩ := List.any_eq_true.mp hany
    exact ⟨length_pos_of_mem hmem,id⟩
  · refine ⟨by simp,?_⟩
    intro hzero gnb hmem
    rcases mem_append.mp hmem with hmem | hmem
    · exact hzero gnb hmem
    · rw [mem_singleton.mp hmem]
      rfl

theorem zero_of_step {c c' : Context} {e : GnbEvent} {r : Unit} (h : c.step e=some (.ok c' r))
    (hzero : ∀ gnb∈(dmfAfter cJSONParse inetPton c.sent).gnbList,gnb.id=decimal 0) :
    ∀ gnb∈(dmfAfter cJSONParse inetPton c'.sent).gnbList,gnb.id=decimal 0 := by
  rw [dmfAfter_step _ _ hjson h]
  cases e with
  | gnbAdd =>
    simp only [GnbEvent.syncs]
    split
    · exact (addGnb_zero _).2 hzero
    · exact hzero
  | gnbRemove n =>
    simp only [GnbEvent.syncs]
    split
    · intro gnb hmem
      exact hzero gnb (mem_of_mem_eraseP hmem)
    · exact hzero
  | setGnbId n gnbId => exact hzero
  | ngSetup n message => exact hzero
  | discovery dmfInstance dmfClient => exact hzero

omit hjson in
theorem gnbAdd_ngSetupSuccess {c : Context} {q : List Nat}
    (hs : Pool.Split c.gnbPool q c.gnbList)
    (h : ∀ n∈c.gnbList,(c.gnb n).ngSetupSuccess=false) :
    ∀ n∈c.gnbAdd.1.gnbList,(c.gnbAdd.1.gnb n).ngSetupSuccess=false := by
  unfold Context.gnbAdd
  cases q with
  | nil =>
    rw [hs.idCalloc_nil]
    exact h
  | cons k q =>
    obtain ⟨pool,hcalloc,-⟩ := hs.idCalloc
    rw [hcalloc]
    simp only
    generalize nextId c.gnbPool.id 1 maxPoolId=id
    have hsent:=Context.sbiSendGnbSyncToDmf_kept (c.gnbCalloc pool k id)
      (gnbIdStr ((c.gnbCalloc pool k id).gnb k).gnbId) true
    intro n hn
    rw [hsent.gnbList] at hn
    rw [hsent.ngSetupSuccess]
    by_cases hk : n=k
    · subst hk
      rw [Context.gnbCalloc_self]
      rfl
    · rw [Context.gnbCalloc_of_ne _ _ _ hk]
      rcases mem_append.mp hn with hn | hn
      · exact h n hn
      · exact absurd (mem_singleton.mp hn) hk

structure Quiet (c : Context) : Prop where
  ngSetupSuccess : ∀ n∈c.gnbList,(c.gnb n).ngSetupSuccess=false
  gnbList : (dmfAfter cJSONParse inetPton c.sent).gnbList=[]

omit hjson in
theorem Quiet.mirrored {c : Context} (h : Quiet cJSONParse inetPton c) :
    c.Mirrored cJSONParse inetPton := by
  intro id
  rw [h.gnbList]
  constructor
  · rintro ⟨gnb,hmem,-⟩
    cases hmem
  · rintro ⟨n,hn,hsetup,-⟩
    rw [h.ngSetupSuccess n hn] at hsetup
    cases hsetup

theorem Quiet.step {c c' : Context} {e : GnbEvent} {r : Unit} (h : Quiet cJSONParse inetPton c)
    (hindexed : c.Indexed) (hstep : c.step e=some (.ok c' r)) :
    (GnbEvent.Silent c e → Quiet cJSONParse inetPton c') ∧
      (c'.Mirrored cJSONParse inetPton → GnbEvent.Silent c e) := by
  have hdmf:=dmfAfter_step cJSONParse inetPton hjson hstep
  obtain ⟨q,hs⟩ := hindexed.pool
  unfold Context.step at hstep
  cases e with
  | gnbAdd =>
    cases hstep
    have hgnb:=gnbAdd_ngSetupSuccess hs h.ngSetupSuccess
    simp only [GnbEvent.syncs] at hdmf
    by_cases hsilent : GnbEvent.Silent c .gnbAdd
    · refine ⟨fun _ => ⟨hgnb,?_⟩,fun _ => hsilent⟩
      rw [hdmf,if_neg]
      · exact h.gnbList
      · intro hsync
        rw [Bool.and_eq_true] at hsync
        rcases hsilent with hfull | hunknown
        · rw [hs.idCalloc_isSome] at hsync
          simp [hfull] at hsync
        · rw [hunknown] at hsync
          exact absurd hsync.2 Bool.false_ne_true
    · refine ⟨fun hno => absurd hno hsilent,fun hmirror => ?_⟩
      have hno:=not_or.mp hsilent
      rw [if_pos (by simp [hs.idCalloc_isSome,Nat.pos_of_ne_zero hno.1,hno.2])] at hdmf
      have hpos:=(addGnb_zero (dmfAfter cJSONParse inetPton c.sent)).1
      obtain ⟨gnb,hmem⟩ := exists_mem_of_length_pos hpos
      have hlisted : gnb∈(dmfAfter cJSONParse inetPton c.gnbAdd.1.sent).gnbList := by
        rw [hdmf]
        exact hmem
      obtain ⟨n,hn,hsetup,-⟩ := (hmirror gnb.id).mp ⟨gnb,hlisted,rfl⟩
      rw [hgnb n hn] at hsetup
      cases hsetup
  | setGnbId n gnbId =>
    simp only at hstep
    split at hstep
    · cases hstep
      refine ⟨fun _ => ⟨?_,h.gnbList⟩,fun _ => trivial⟩
      intro m hm
      rw [Context.gnbSetGnbId_ngSetupSuccess]
      exact h.ngSetupSuccess m hm
    · cases hstep
  | ngSetup n message =>
    simp only at hstep
    split at hstep
    · rename_i hn
      cases hstep
      have hkept:=c.ngSetupCheck_kept n message
      have hlist : (dmfAfter cJSONParse inetPton
          (c.ngapHandleNgSetupRequest n message).1.sent).gnbList=[] := by
        rw [hdmf]
        exact h.gnbList
      simp only [GnbEvent.Silent]
      unfold Context.ngapHandleNgSetupRequest at hlist ⊢
      cases hcheck : c.ngSetupCheck n message with
      | mk c₁ u =>
        rw [hcheck] at hkept hlist
        change c.Kept c₁ at hkept
        cases u with
        | error cause =>
          refine ⟨fun _ => ⟨?_,hlist⟩,fun _ _ gnbId hok => by cases hok⟩
          intro m hm
          rw [hkept.ngSetupSuccess]
          exact h.ngSetupSuccess m (hkept.gnbList ▸ hm)
        | ok gnbId =>
          refine ⟨fun hno => absurd rfl (hno hn gnbId),fun hmirror => ?_⟩
          have hn₁ : n∈c₁.gnbList := hkept.gnbList ▸ hn
          obtain ⟨gnb,hmem,-⟩ := (hmirror _).mpr ⟨n,hn₁,by simp [Context.modify],rfl⟩
          rw [hlist] at hmem
          cases hmem
    · cases hstep
  | gnbRemove n =>
    simp only at hstep
    split at hstep
    · cases hstep
      obtain ⟨hlist,hgnb,-⟩ := c.gnbRemove_frame n
      refine ⟨fun _ => ⟨?_,?_⟩,fun _ => trivial⟩
      · rw [hlist,hgnb]
        exact fun m hm => h.ngSetupSuccess m (mem_of_mem_erase hm)
      · rw [hdmf]
        simp only [GnbEvent.syncs]
        split
        · simp [Dmf.Context.removeGnb,h.gnbList]
        · exact h.gnbList
    · cases hstep
  | discovery dmfInstance dmfClient =>
    cases hstep
    exact ⟨fun _ => ⟨h.ngSetupSuccess,h.gnbList⟩,fun _ => trivial⟩

end Mirror

def firstSetup : List Context :=
  completed Context.step (contextInit config1 (fun _ => Gnb.zero) 0)
    [.discovery true true,.gnbAdd,.ngSetup 0 (ngSetup1 5)]

def setUp : Context := (firstSetup[3]?).getD (contextInit config1 (fun _ => Gnb.zero) 0)

end OgsDp.Amf
