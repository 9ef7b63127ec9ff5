import OgsDp.Amf.Handover

/-!
# Messages of a gNB about one UE (src/amf/ngap-handler.c, src/amf/ngap-path.c)

The handlers find the context by the AMF-UE-NGAP-ID, whose low 32 bits are the place of the
context in the pool of all gNBs.
-/

namespace OgsDp.Amf
open Lib LinkedList OgsDp.Core Function Option

inductive UserLocation where
  | nr (nrCgi : NrCgi) (tai : Tai)
  | other

/-- An item of a list of PDU sessions with the transfer that goes to the SMF. -/
structure SessionItem where
  psi : BitVec 8
  transfer : List Byte

/-- The messages, with what the handlers read of them. A missing IE is `none`, and so is an item
that is a null pointer. -/
inductive UplinkBody where
  | uplinkNasTransport (location : Option UserLocation) (nasPdu : Option (List Byte))
  | initialContextSetupFailure (cause : Option Cause)
  | ueContextReleaseRequest (cause : Option Cause) (sessions : Option (List (Option (BitVec 8))))
  | ueContextReleaseComplete
  | pduSessionResourceSetupResponse (setup failed : Option (List (Option SessionItem)))

/-- A message on the association of the gNB `gnbId`. The AMF-UE-NGAP-ID is missing, or it does not
fit into 64 bits, or it is read. -/
structure UplinkMessage where
  gnbId : Nat
  amfUeNgapId : Option (Option (BitVec 64))
  body : UplinkBody

/-- What the handlers meet outside the contexts. `nasSecurityDecode` is given the UE, the security
header type and what follows the header; `stale` is read behind the end of a PDU.
`discoverAndSend` is `amf_sess_sbi_discover_and_send`: whether it left a transaction, or none if
it failed. `sent`: what is sent to a gNB goes out. -/
structure Around where
  self : Context
  nasSecurityDecode : Nat → Nat → List Byte → Option (List Byte)
  stale : Byte
  sessionContextInSmf : Nat → Bool
  discoverAndSend : Nat → Option Bool
  sent : Bool

namespace Ues

variable (s : Ues)

def ranUeFind (index : BitVec 32) : Option Nat := s.ranUePool.find index.toNat

-- The argument of `ran_ue_find` is an `uint32_t`.
def ranUeFindByAmfUeNgapId (amfUeNgapId : BitVec 64) : Option Nat :=
  s.ranUeFind (amfUeNgapId.setWidth 32)

def sessions (u : Nat) : Option (List Nat) :=
  walk s.sessLinks s.sessPool.size (s.sessList u).next

def sessFindFrom (psi : BitVec 8) : Nat → Option Nat → Option (Option Nat)
  | _, none => some none
  | 0, some _ => none
  | fuel+1, some n =>
    if (s.sess n).psi=psi then some (some n) else sessFindFrom psi fuel (s.sessLinks.next n)

def amfSessFindByPsi (u : Nat) (psi : BitVec 8) : Option (Option Nat) :=
  s.sessFindFrom psi s.sessPool.size (s.sessList u).next

end Ues

def normalRelease : Cause := ⟨.nas,0⟩

def maxSduLen : Nat := 32768

def securityHeaderLen : Byte → Option Nat
  | 0 => some 0
  | 1 | 2 | 3 | 4 => some 7
  | _ => none

namespace Around

variable (n : Around) (s : Ues)

/-- `ngap_send_error_indication`; the handlers assert that it does not fail. -/
def errorIndication : Outcome Ues Unit := if n.sent then .ok s () else .abort s

def sendRanUeContextReleaseCommand (r : Nat) (action : UeCtxRelAction) : Outcome Ues Unit :=
  let s:=s.modifyRanUe r fun ranUe => { ranUe with ueCtxRelAction := action }
  if n.sent then .ok s () else .abort s

def sendToNas (r : Nat) (nasPdu : List Byte) : Ues :=
  if nasPdu=[] then s.ranUeRemove r
  else
    let type:=nasPdu.getD 1 n.stale
    match securityHeaderLen type with
    | none => s.ranUeRemove r
    | some len =>
      let nas := if len≤nasPdu.length then nasPdu.drop len else nasPdu
      let plain := match s.amfUeFindById (s.ranUe r).amfUeId with
        | some u => n.nasSecurityDecode u type.val nas
        | none => some nas
      match plain with
      | none => s.ranUeRemove r
      | some plain =>
        let discriminator:=plain.getD 0 n.stale
        if discriminator=0x7e ∨ discriminator=0x2e then s else s.ranUeRemove r

def handleUplinkNasTransport (r : Nat) (location : Option UserLocation)
    (nasPdu : Option (List Byte)) : Outcome Ues Unit :=
  match s.amfUeFindById (s.ranUe r).amfUeId with
  | none => n.errorIndication s
  | some u =>
    match location with
    | none | some .other => n.errorIndication s
    | some (.nr nrCgi tai) =>
      match nasPdu with
      | none => n.errorIndication s
      | some nasPdu =>
        if (n.self.findServedTai tai).isNone then n.errorIndication s
        else
          let s:=s.modifyRanUe r fun ranUe =>
            { ranUe with savedNrTai := tai,savedNrCgi := nrCgi }
          let s:=s.modifyUe u fun ue => { ue with nrTai := tai,nrCgi := nrCgi }
          .ok (n.sendToNas s r nasPdu) ()

/-- `amf_sbi_send_deactivate_all_sessions`: whether a transaction is left, or none where it stops
the process. -/
def deactivateAllSessions : List Nat → Option Bool
  | [] => some false
  | m::ms =>
    if n.sessionContextInSmf m then
      (n.discoverAndSend m).bind fun left =>
        (deactivateAllSessions ms).map fun left' => left || left'
    else deactivateAllSessions ms

def handleInitialContextSetupFailure (r : Nat) (cause : Option Cause) :
    Option (Outcome Ues Unit) :=
  match cause with
  | none => some (n.errorIndication s)
  | some _ =>
    match s.amfUeFindById (s.ranUe r).amfUeId with
    | none => some (n.sendRanUeContextReleaseCommand s r .ngContextRemove)
    | some u =>
      (s.sessions u).map fun ms =>
        let s:=s.modifyRanUe r fun ranUe => { ranUe with deactivation := normalRelease }
        match n.deactivateAllSessions ms with
        | none => .abort s
        | some true => .ok s ()
        | some false => n.sendRanUeContextReleaseCommand s r .ngContextRemove

/-- The loop over the PDU sessions of a UE Context Release Request; no result where an item ends
the handler. -/
def deactivateItems (u : Nat) :
    Bool → List (Option (BitVec 8)) → Option (Outcome Ues (Option Bool))
  | left, [] => some (.ok s (some left))
  | _, none::_ => some ((n.errorIndication s).bind fun s _ => .ok s none)
  | left, some psi::items =>
    if psi=0 then some ((n.errorIndication s).bind fun s _ => .ok s none)
    else
      (s.amfSessFindByPsi u psi).bind fun sess =>
        match sess with
        | none => deactivateItems u left items
        | some m =>
          if n.sessionContextInSmf m then
            match n.discoverAndSend m with
            | none => some (.abort s)
            | some left' => deactivateItems u (left || left') items
          else deactivateItems u left items

def handleUeContextReleaseRequest (r : Nat) (cause : Option Cause)
    (sessions : Option (List (Option (BitVec 8)))) : Option (Outcome Ues Unit) :=
  match cause with
  | none => some (n.errorIndication s)
  | some cause =>
    if cause.group = .nothing ∨ cause.group = .choiceExtensions then some (n.errorIndication s)
    else
      match s.amfUeFindById (s.ranUe r).amfUeId with
      | none => some (n.sendRanUeContextReleaseCommand s r .ngContextRemove)
      | some u =>
        (s.sessions u).bind fun ms =>
          let s:=s.modifyRanUe r fun ranUe => { ranUe with deactivation := cause }
          let left : Option (Outcome Ues (Option Bool)) := match sessions with
            | none =>
              match n.deactivateAllSessions ms with
              | none => some (.abort s)
              | some left => some (.ok s (some left))
            | some items => n.deactivateItems s u false items
          left.map fun o => o.bind fun s left =>
            if left=some false then n.sendRanUeContextReleaseCommand s r .ngRemoveAndUnlink
            else .ok s ()

/-- The loops of a PDU Session Resource Setup Response. `before` and `after` are what is done to
the context before and after the transfer is copied. -/
def sessionItems (before after : BitVec 8 → RanUe → RanUe) (r u : Nat) :
    Ues → List (Option SessionItem) → Option (Outcome Ues Unit)
  | s, [] => some (.ok s ())
  | s, none::_ => some (n.errorIndication s)
  | s, some item::items =>
    if item.psi=0 then some (n.errorIndication s)
    else
      (s.amfSessFindByPsi u item.psi).bind fun sess =>
        match sess with
        | none => some (n.errorIndication s)
        | some m =>
          if n.sessionContextInSmf m then
            let s:=s.modifyRanUe r (before item.psi)
            if item.transfer.length ≤ maxSduLen then
              let s:=s.modifyRanUe r (after item.psi)
              match n.discoverAndSend m with
              | none => some (.abort s)
              | some _ => sessionItems before after r u s items
            else some (.abort s)
          else some (n.errorIndication s)

def activatePsi (psi : BitVec 8) (ranUe : RanUe) : RanUe :=
  { ranUe with psimaskActivated := ranUe.psimaskActivated ||| 1#16 <<< psi.toNat }

def deactivatePsi (_ : BitVec 8) (ranUe : RanUe) : RanUe :=
  { ranUe with deactivation := normalRelease }

def handlePduSessionResourceSetupResponse (r : Nat) (setup failed : Option (List (Option SessionItem))) :
    Option (Outcome Ues Unit) :=
  match s.amfUeFindById (s.ranUe r).amfUeId with
  | none => some (n.errorIndication s)
  | some u =>
    match setup, failed with
    | some items, _ => n.sessionItems activatePsi (fun _ ranUe => ranUe) r u s items
    | none, some items => n.sessionItems (fun _ ranUe => ranUe) deactivatePsi r u s items
    | none, none => some (n.errorIndication s)

/-- The handlers up to the lookup of the context, and from there the one of the message. -/
def handleUplink (m : UplinkMessage) : Option (Outcome Ues Unit) :=
  match m.amfUeNgapId with
  | none | some none => some (n.errorIndication s)
  | some (some amfUeNgapId) =>
    match s.ranUeFindByAmfUeNgapId amfUeNgapId with
    | none => some (n.errorIndication s)
    | some r =>
      match m.body with
      | .uplinkNasTransport location nasPdu =>
        some (n.handleUplinkNasTransport s r location nasPdu)
      | .initialContextSetupFailure cause => n.handleInitialContextSetupFailure s r cause
      | .ueContextReleaseRequest cause sessions =>
        n.handleUeContextReleaseRequest s r cause sessions
      | .ueContextReleaseComplete => s.ueContextReleaseAction r
      | .pduSessionResourceSetupResponse setup failed =>
        n.handlePduSessionResourceSetupResponse s r setup failed

end Around

namespace Ues

def Marked (s : Ues) (r : Nat) (t : Ues) : Prop :=
  ∃ f : RanUe → RanUe, (∀ ue,(f ue).id=ue.id) ∧ t=s.modifyRanUe r f

def Located (s : Ues) (r : Nat) (t : Ues) : Prop :=
  t=s ∨ ∃ u nrCgi tai,s.amfUeFindById (s.ranUe r).amfUeId=some u ∧
    t=s.modifyUe u fun ue => { ue with nrTai := tai,nrCgi := nrCgi }

def Handled (s : Ues) (r : Nat) (t : Ues) : Prop :=
  ∃ s₁ s₂,s.Located r s₁ ∧ s₁.Marked r s₂ ∧ (t=s₂ ∨ t=s₂.ranUeRemove r)

variable {s t : Ues} {r : Nat} {n : Around}

theorem modifyRanUe_twice (s : Ues) (r : Nat) (f g : RanUe → RanUe) :
    (s.modifyRanUe r f).modifyRanUe r g=s.modifyRanUe r fun ue => g (f ue) := by
  simp [modifyRanUe]

theorem marked_self (s : Ues) (r : Nat) : s.Marked r s := by
  refine ⟨fun ue => ue,fun _ => rfl,?_⟩
  simp [modifyRanUe]

theorem Marked.modify (h : s.Marked r t) {f : RanUe → RanUe} (hf : ∀ ue,(f ue).id=ue.id) :
    s.Marked r (t.modifyRanUe r f) := by
  obtain ⟨g,hg,rfl⟩ := h
  refine ⟨fun ue => f (g ue),fun ue => (hf (g ue)).trans (hg ue),?_⟩
  rw [modifyRanUe_twice]

theorem Marked.handled (h : s.Marked r t) : s.Handled r t :=
  ⟨s,t,.inl rfl,h,.inl rfl⟩

theorem errorIndication_state : (n.errorIndication s).state=s := by
  unfold Around.errorIndication
  split <;> rfl

theorem errorIndication_handled : s.Handled r (n.errorIndication s).state := by
  rw [errorIndication_state]
  exact (s.marked_self r).handled

theorem Marked.deactivation (h : s.Marked r t) (cause : Cause) :
    s.Marked r (t.modifyRanUe r fun ranUe => { ranUe with deactivation := cause }) :=
  h.modify fun _ => rfl

theorem Marked.releaseCommand (h : s.Marked r t) (action : UeCtxRelAction) :
    s.Marked r (n.sendRanUeContextReleaseCommand t r action).state := by
  have hmarked : s.Marked r
      (t.modifyRanUe r fun ranUe => { ranUe with ueCtxRelAction := action }) :=
    h.modify fun _ => rfl
  unfold Around.sendRanUeContextReleaseCommand
  split <;> exact hmarked

theorem sendToNas_cases (nasPdu : List Byte) :
    n.sendToNas s r nasPdu=s ∨ n.sendToNas s r nasPdu=s.ranUeRemove r := by
  unfold Around.sendToNas
  split
  · exact .inr rfl
  · dsimp only
    split
    · exact .inr rfl
    · split
      · exact .inr rfl
      · split
        · exact .inl rfl
        · exact .inr rfl

theorem uplinkNasTransport_handled {location : Option UserLocation}
    {nasPdu : Option (List Byte)} :
    s.Handled r (n.handleUplinkNasTransport s r location nasPdu).state := by
  unfold Around.handleUplinkNasTransport
  split
  · exact errorIndication_handled
  · rename_i u hu
    split
    · exact errorIndication_handled
    · exact errorIndication_handled
    · rename_i nrCgi tai
      split
      · exact errorIndication_handled
      · rename_i nasPdu
        split
        · exact errorIndication_handled
        · refine ⟨_,_,.inr ⟨u,nrCgi,tai,hu,rfl⟩,
            ⟨fun ranUe => { ranUe with savedNrTai := tai,savedNrCgi := nrCgi },fun _ => rfl,
              rfl⟩,?_⟩
          exact sendToNas_cases nasPdu

theorem initialContextSetupFailure_handled {cause : Option Cause} {o : Outcome Ues Unit}
    (h : n.handleInitialContextSetupFailure s r cause=some o) : s.Handled r o.state := by
  have hself:=s.marked_self r
  unfold Around.handleInitialContextSetupFailure at h
  split at h
  · obtain rfl := some.inj h
    exact errorIndication_handled
  · split at h
    · obtain rfl := some.inj h
      exact (hself.releaseCommand .ngContextRemove).handled
    · obtain ⟨ms,-,rfl⟩ := map_eq_some_iff.mp h
      have hmarked:=hself.deactivation normalRelease
      dsimp only
      split
      · exact hmarked.handled
      · exact hmarked.handled
      · exact (hmarked.releaseCommand .ngContextRemove).handled

theorem deactivateItems_state {u : Nat} {left : Bool} {items : List (Option (BitVec 8))}
    {o : Outcome Ues (Option Bool)} (h : n.deactivateItems s u left items=some o) :
    o.state=s := by
  have herror : ((n.errorIndication s).bind fun s (_ : Unit) =>
      Outcome.ok s (none : Option Bool)).state=s := by
    unfold Around.errorIndication
    split <;> rfl
  induction items generalizing left with
  | nil =>
    obtain rfl := some.inj h
    rfl
  | cons item items ih =>
    cases item with
    | none =>
      obtain rfl := some.inj h
      exact herror
    | some psi =>
      unfold Around.deactivateItems at h
      split at h
      · obtain rfl := some.inj h
        exact herror
      · obtain ⟨sess,-,h⟩ := bind_eq_some_iff.mp h
        split at h
        · exact ih h
        · split at h
          · split at h
            · obtain rfl := some.inj h
              rfl
            · exact ih h
          · exact ih h

theorem ueContextReleaseRequest_handled {cause : Option Cause}
    {sessions : Option (List (Option (BitVec 8)))} {o : Outcome Ues Unit}
    (h : n.handleUeContextReleaseRequest s r cause sessions=some o) : s.Handled r o.state := by
  have hself:=s.marked_self r
  unfold Around.handleUeContextReleaseRequest at h
  split at h
  · obtain rfl := some.inj h
    exact errorIndication_handled
  · rename_i cause
    split at h
    · obtain rfl := some.inj h
      exact errorIndication_handled
    · split at h
      · obtain rfl := some.inj h
        exact (hself.releaseCommand .ngContextRemove).handled
      · obtain ⟨ms,-,h⟩ := bind_eq_some_iff.mp h
        obtain ⟨o',ho',rfl⟩ := map_eq_some_iff.mp h
        have hmarked:=hself.deactivation cause
        have hstate : o'.state =
            s.modifyRanUe r fun ranUe => { ranUe with deactivation := cause } := by
          split at ho'
          · split at ho'
            · obtain rfl := some.inj ho'
              rfl
            · obtain rfl := some.inj ho'
              rfl
          · exact deactivateItems_state ho'
        rw [← hstate] at hmarked
        cases o' with
        | abort s₁ => exact hmarked.handled
        | ok s₁ left =>
          rw [Outcome.bind_ok]
          split
          · exact (Marked.releaseCommand hmarked .ngRemoveAndUnlink).handled
          · exact Marked.handled hmarked

theorem sessionItems_marked {before after : BitVec 8 → RanUe → RanUe} {u : Nat}
    {items : List (Option SessionItem)} {o : Outcome Ues Unit} (ht : s.Marked r t)
    (h : n.sessionItems before after r u t items=some o)
    (hbefore : ∀ psi ue,(before psi ue).id=ue.id) (hafter : ∀ psi ue,(after psi ue).id=ue.id) :
    s.Marked r o.state := by
  induction items generalizing t with
  | nil =>
    obtain rfl := some.inj h
    exact ht
  | cons item items ih =>
    have herror : s.Marked r (n.errorIndication t).state := by
      rw [errorIndication_state]
      exact ht
    cases item with
    | none =>
      obtain rfl := some.inj h
      exact herror
    | some item =>
      have hmarked:=ht.modify (hbefore item.psi)
      unfold Around.sessionItems at h
      split at h
      · obtain rfl := some.inj h
        exact herror
      · obtain ⟨sess,-,h⟩ := bind_eq_some_iff.mp h
        split at h
        · obtain rfl := some.inj h
          exact herror
        · split at h
          · dsimp only at h
            split at h
            · have hdone:=hmarked.modify (hafter item.psi)
              split at h
              · obtain rfl := some.inj h
                exact hdone
              · exact ih hdone h
            · obtain rfl := some.inj h
              exact hmarked
          · obtain rfl := some.inj h
            exact herror

theorem setupResponse_handled {setup failed : Option (List (Option SessionItem))}
    {o : Outcome Ues Unit}
    (h : n.handlePduSessionResourceSetupResponse s r setup failed=some o) :
    s.Handled r o.state := by
  have hself:=s.marked_self r
  unfold Around.handlePduSessionResourceSetupResponse at h
  split at h
  · obtain rfl := some.inj h
    exact errorIndication_handled
  · split at h
    · exact (sessionItems_marked hself h (fun _ _ => rfl) fun _ _ => rfl).handled
    · exact (sessionItems_marked hself h (fun _ _ => rfl) fun _ _ => rfl).handled
    · obtain rfl := some.inj h
      exact errorIndication_handled

theorem handleUplink_cases {m : UplinkMessage} {o : Outcome Ues Unit}
    (h : n.handleUplink s m=some o) :
    o.state=s ∨ ∃ amfUeNgapId r,m.amfUeNgapId=some (some amfUeNgapId) ∧
      s.ranUeFindByAmfUeNgapId amfUeNgapId=some r ∧
      (s.Handled r o.state ∨ s.ueContextReleaseAction r=some o) := by
  unfold Around.handleUplink at h
  split at h
  · obtain rfl := some.inj h
    exact .inl errorIndication_state
  · obtain rfl := some.inj h
    exact .inl errorIndication_state
  · rename_i amfUeNgapId hid
    split at h
    · obtain rfl := some.inj h
      exact .inl errorIndication_state
    · rename_i r hr
      refine .inr ⟨amfUeNgapId,r,hid,hr,?_⟩
      split at h
      · obtain rfl := some.inj h
        exact .inl uplinkNasTransport_handled
      · exact .inl (initialContextSetupFailure_handled h)
      · exact .inl (ueContextReleaseRequest_handled h)
      · exact .inr h
      · exact .inl (setupResponse_handled h)

/-- The other context that `source_ue_deassociate_target_ue` changes. -/
def partner (s : Ues) (r : Nat) : Option Nat :=
  if validId (s.ranUe r).targetUeId then
    (s.ranUeFindById (s.ranUe r).targetUeId).filter fun p => validId (s.ranUe p).sourceUeId
  else if validId (s.ranUe r).sourceUeId then
    (s.ranUeFindById (s.ranUe r).sourceUeId).filter fun p => validId (s.ranUe p).targetUeId
  else none

def releasePartner (s : Ues) (r : Nat) : Option Nat :=
  match (s.ranUe r).ueCtxRelAction with
  | .ngHandoverComplete | .ngHandoverCancel | .ngHandoverFailure => s.partner r
  | .ngContextRemove | .ngRemoveAndUnlink | .ueContextRemove | .invalidAction => none

structure Confined (s : Ues) (r : Nat) (t : Ues) : Prop where
  ranUe : ∀ c,s.RanLive c → c≠r → s.releasePartner r≠some c →
    t.RanLive c ∧ t.ranUe c=s.ranUe c
  amfUe : ∀ w∈s.amfUeList,s.amfUeFindById (s.ranUe r).amfUeId≠some w →
    w∈t.amfUeList ∧ t.amfUe w=s.amfUe w

theorem ranUeFind_live {amfUeNgapId : BitVec 64} (h : s.RanPooled)
    (hr : s.ranUeFindByAmfUeNgapId amfUeNgapId=some r) : s.RanLive r := by
  obtain ⟨q,live,hs⟩ := h.pool
  have hfind:=(hs.find_eq _).symm.trans hr
  split at hfind
  · rename_i hlive
    obtain rfl := some.inj hfind
    exact (index_eq_some hs).mpr hlive.2
  · cases hfind

theorem confined_self (s : Ues) (r : Nat) : s.Confined r s :=
  ⟨fun _ hc _ _ => ⟨hc,rfl⟩,fun _ hw _ => ⟨hw,rfl⟩⟩

theorem Confined.ranUeRemove (h : s.Confined r t) (ht : t.RanPooled) (hr : t.RanLive r) :
    s.Confined r (t.ranUeRemove r) := by
  obtain ⟨-,hlive,-⟩ := ranUeRemove_pool ht.pool hr
  refine ⟨fun c hc hne hpartner => ?_,h.amfUe⟩
  obtain ⟨hct,heq⟩ := h.ranUe c hc hne hpartner
  exact ⟨(hlive c).mpr ⟨hct,hne⟩,heq⟩

theorem Confined.modifyUe {u : Nat} {f : AmfUe → AmfUe} (h : s.Confined r t)
    (hu : s.amfUeFindById (s.ranUe r).amfUeId=some u) : s.Confined r (t.modifyUe u f) := by
  refine ⟨h.ranUe,fun w hw hne => ?_⟩
  obtain ⟨hwt,heq⟩ := h.amfUe w hw hne
  have hwu : w≠u := by
    rintro rfl
    exact hne hu
  exact ⟨hwt,(update_of_ne hwu _ _).trans heq⟩

theorem Confined.amfUeRemove {s₁ : Ues} {u : Nat} (h : s.Confined r s₁) (hs₁ : s₁.Indexed)
    (hlist : s₁.amfUeList=s.amfUeList) (hs : s.Indexed)
    (hu : s.amfUeFindById (s.ranUe r).amfUeId=some u) (ht : s₁.amfUeRemove u=some t) :
    s.Confined r t := by
  have hlive : u∈s₁.amfUeList := hlist ▸ (hs.ids _ u hu).1
  obtain ⟨-,hremoved⟩ := hs₁.remove hlive ht
  have hsame:=amfUeRemove_ranSame ht
  constructor
  · intro c hc hne hpartner
    obtain ⟨hct,heq⟩ := h.ranUe c hc hne hpartner
    rw [RanLive,hsame.pool,hsame.ranUe]
    exact ⟨hct,heq⟩
  · intro w hw hne
    obtain ⟨hwt,heq⟩ := h.amfUe w hw hne
    have hwu : w≠u := by
      rintro rfl
      exact hne hu
    rw [hremoved.list,hremoved.ue w hwu]
    exact ⟨hs₁.mem_erase.mpr ⟨hwt,hwu⟩,heq⟩

theorem Located.confined (h : s.Located r t) :
    s.Confined r t ∧ t.ranUePool=s.ranUePool ∧ t.ranUe=s.ranUe := by
  rcases h with rfl | ⟨u,nrCgi,tai,hu,rfl⟩
  · exact ⟨t.confined_self r,rfl,rfl⟩
  · exact ⟨(s.confined_self r).modifyUe hu,rfl,rfl⟩

theorem Handled.confined (hp : s.RanPooled) (hr : s.RanLive r) (h : s.Handled r t) :
    s.Confined r t := by
  obtain ⟨s₁,s₂,hlocated,⟨f,hf,rfl⟩,ht⟩ := h
  obtain ⟨hconfined,hpool,hue⟩ := hlocated.confined
  have hp₁ : s₁.RanPooled := hp.kept hpool (funext fun c => by rw [ranId,ranId,hue])
  have hr₁ : s₁.RanLive r := by
    rw [RanLive,hpool]
    exact hr
  have hmarked : s.Confined r (s₁.modifyRanUe r f) := by
    refine ⟨fun c hc hne hpartner => ?_,hconfined.amfUe⟩
    obtain ⟨hct,heq⟩ := hconfined.ranUe c hc hne hpartner
    exact ⟨hct,(update_of_ne hne _ _).trans heq⟩
  rcases ht with rfl | rfl
  · exact hmarked
  · exact hmarked.ranUeRemove (hp₁.modifyRanUe hf) hr₁

theorem unlink_stays (s : Ues) (source target : Option Nat) :
    s.unlink source target = .abort s ∨ ∃ t,s.unlink source target = .ok t () := by
  unfold unlink
  split
  · split
    · exact .inr ⟨_,rfl⟩
    · exact .inl rfl
  · exact .inl rfl

theorem deassociate_cases (s : Ues) (r : Nat) :
    s.sourceUeDeassociateTargetUe r = .abort s ∨
    ∃ t,s.sourceUeDeassociateTargetUe r = .ok t () ∧
      (t=s ∨ ∃ a b,(s.partner r=some b ∧ a=r ∨ s.partner r=some a ∧ b=r) ∧
        validId (s.ranUe a).targetUeId=true ∧ validId (s.ranUe b).sourceUeId=true ∧
        t=(s.modifyRanUe a fun ranUe => { ranUe with targetUeId := 0 }).modifyRanUe b
          fun ranUe => { ranUe with sourceUeId := 0 }) := by
  unfold sourceUeDeassociateTargetUe
  split
  · rename_i hvalid
    refine (s.unlink_stays _ _).imp_right ?_
    rintro ⟨t,ht⟩
    obtain ⟨a,b,hra,hb,ha',hb',heq⟩ := unlink_ok ht
    obtain rfl := some.inj hra
    refine ⟨t,ht,.inr ⟨r,b,.inl ⟨?_,rfl⟩,ha',hb',heq⟩⟩
    simp [partner,hvalid,hb,hb']
  · rename_i hno
    split
    · rename_i hvalid
      refine (s.unlink_stays _ _).imp_right ?_
      rintro ⟨t,ht⟩
      obtain ⟨a,b,ha,hrb,ha',hb',heq⟩ := unlink_ok ht
      obtain rfl := some.inj hrb
      refine ⟨t,ht,.inr ⟨a,r,.inr ⟨?_,rfl⟩,ha',hb',heq⟩⟩
      simp [partner,hno,hvalid,ha,ha']
    · exact .inr ⟨s,rfl,.inl rfl⟩

theorem releaseHandover_confined (hp : s.RanPooled) (hr : s.RanLive r)
    (hpartner : s.releasePartner r=s.partner r) :
    s.Confined r ((s.sourceUeDeassociateTargetUe r).bind fun s _ =>
      Outcome.ok (s.ranUeRemove r) ()).state := by
  rcases deassociate_cases s r with ho | ⟨t,ho,ht⟩
  · rw [ho]
    exact s.confined_self r
  · have hpooled:=hp.deassociate ho
    rw [ho,Outcome.bind_ok]
    have hconfined : s.Confined r t := by
      rcases ht with rfl | ⟨a,b,hab,-,-,rfl⟩
      · exact t.confined_self r
      · refine ⟨fun c hc hne hno => ⟨hc,?_⟩,fun w hw _ => ⟨hw,rfl⟩⟩
        rw [hpartner] at hno
        have hca : c≠a := by
          rintro rfl
          rcases hab with ⟨-,rfl⟩ | ⟨hc,-⟩
          · exact hne rfl
          · exact hno hc
        have hcb : c≠b := by
          rintro rfl
          rcases hab with ⟨hc,-⟩ | ⟨-,rfl⟩
          · exact hno hc
          · exact hne rfl
        exact (update_of_ne hcb _ _).trans (update_of_ne hca _ _)
    exact hconfined.ranUeRemove hpooled.1 (hpooled.2 ▸ hr)

theorem releaseAction_confined {o : Outcome Ues Unit} (hs : s.Indexed) (hp : s.RanPooled)
    (hr : s.RanLive r) (h : s.ueContextReleaseAction r=some o) : s.Confined r o.state := by
  have hremoved:=(s.confined_self r).ranUeRemove hp hr
  unfold ueContextReleaseAction at h
  cases haction : (s.ranUe r).ueCtxRelAction with
  | invalidAction =>
    simp only [haction,some.injEq] at h
    exact h ▸ s.confined_self r
  | ngContextRemove =>
    simp only [haction,some.injEq] at h
    exact h ▸ hremoved
  | ngRemoveAndUnlink =>
    simp only [haction] at h
    cases hfind : s.amfUeFindById (s.ranUe r).amfUeId with
    | none =>
      simp only [hfind,some.injEq] at h
      exact h ▸ hremoved
    | some u =>
      simp only [hfind,some.injEq] at h
      exact h ▸ hremoved.modifyUe (f := fun ue => { ue with ranUeId := 0 }) hfind
  | ueContextRemove =>
    simp only [haction] at h
    cases hfind : s.amfUeFindById (s.ranUe r).amfUeId with
    | none =>
      simp only [hfind,some.injEq] at h
      exact h ▸ hremoved
    | some u =>
      simp only [hfind] at h
      obtain ⟨s₁,hs₁,rfl⟩ := map_eq_some_iff.mp h
      have honly:=s.ranUeRemove_ranUesOnly r
      exact hremoved.amfUeRemove (hs.kept honly.poolKept honly.namesKept).1 rfl hs hfind hs₁
  | ngHandoverComplete | ngHandoverCancel | ngHandoverFailure =>
    simp only [haction,some.injEq] at h
    exact h ▸ releaseHandover_confined hp hr (by simp only [releasePartner,haction])

theorem Handled.pooled (hs : s.Indexed) (hp : s.RanPooled) (hr : s.RanLive r)
    (h : s.Handled r t) : t.Indexed ∧ t.RanPooled := by
  obtain ⟨s₁,s₂,hlocated,⟨f,hf,rfl⟩,ht⟩ := h
  have hs₁ : s₁.Indexed := by
    rcases hlocated with rfl | ⟨u,nrCgi,tai,-,rfl⟩
    · exact hs
    · obtain ⟨hpool,hnames⟩ := s.setFields_kept u
        (fun ue => { ue with nrTai := tai,nrCgi := nrCgi }) fun _ => ⟨rfl,rfl,rfl⟩
      exact (hs.kept hpool hnames).1
  obtain ⟨-,hpool,hue⟩ := hlocated.confined
  have hp₂ : (s₁.modifyRanUe r f).RanPooled :=
    RanPooled.modifyRanUe (hp.kept hpool (funext fun c => by rw [ranId,ranId,hue])) hf
  have honly : s₁.RanUesOnly (s₁.modifyRanUe r f) := ⟨_,_,rfl⟩
  rcases ht with rfl | rfl
  · exact ⟨(hs₁.kept honly.poolKept honly.namesKept).1,hp₂⟩
  · have honly:=honly.trans (ranUeRemove_ranUesOnly _ r)
    refine ⟨(hs₁.kept honly.poolKept honly.namesKept).1,hp₂.ranUeRemove ?_⟩
    show s₁.ranUePool.index r=some r
    rw [hpool]
    exact hr

theorem handleUplink_pooled {m : UplinkMessage} (hs : s.Indexed) (hp : s.RanPooled)
    (h : n.handleUplink s m=some (.ok t ())) : t.Indexed ∧ t.RanPooled := by
  rcases handleUplink_cases h with rfl | ⟨amfUeNgapId,r,-,hr,hhandled | hreleased⟩
  · exact ⟨hs,hp⟩
  · exact hhandled.pooled hs hp (ranUeFind_live hp hr)
  · exact ⟨(hs.releaseAction hreleased).1,
      hp.step (releaseAction_ranUes (ranUeFind_live hp hr) hreleased)⟩

theorem handleUplink_confined {m : UplinkMessage} {o : Outcome Ues Unit} (hs : s.Indexed)
    (hp : s.RanPooled) (h : n.handleUplink s m=some o) :
    o.state=s ∨ ∃ amfUeNgapId r,m.amfUeNgapId=some (some amfUeNgapId) ∧
      s.ranUeFindByAmfUeNgapId amfUeNgapId=some r ∧ s.Confined r o.state := by
  refine (handleUplink_cases h).imp_right ?_
  rintro ⟨amfUeNgapId,r,hid,hr,hdone⟩
  have hlive:=ranUeFind_live hp hr
  rcases hdone with hdone | hdone
  · exact ⟨amfUeNgapId,r,hid,hr,hdone.confined hp hlive⟩
  · exact ⟨amfUeNgapId,r,hid,hr,releaseAction_confined hs hp hlive hdone⟩

end Ues

end OgsDp.Amf
