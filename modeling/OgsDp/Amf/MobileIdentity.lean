import OgsDp.Amf.Plmn
import OgsDp.Core.Bcd
import OgsDp.Core.Calendar

/-!
# 5GS mobile identities (lib/nas/5gs/conv.c, src/amf/context.c)

A mobile identity is the octets of the information element. The structures of the identity types
are laid over them, so a field behind the last octet is read outside the identity.
-/

namespace OgsDp.Amf
open Lib OgsDp.Core List

def suciMinSize : Nat := 8

def supiFormat (h : Byte) : Nat := h.val / 16
def identityType (h : Byte) : Nat := h.val % 8

def identitySuci : Nat := 1
def identityGuti : Nat := 2
def identityStmsi : Nat := 4

def routingIndicator (low high : Byte) : List Byte :=
  let digits:=[low.val % 16,low.val / 16,high.val % 16,high.val / 16].takeWhile (· ≠ 15)
  if digits=[] then [digitOf 0] else digits.map digitOf

def suciText (plmnId : PlmnId) (routing : List Byte) (protectionSchemeId pkiValue : Nat)
    (output : List Byte) : List Byte :=
  ascii "suci-" ++ decimal 0++[minus] ++
    zeroPadded 3 plmnId.mcc++[minus] ++
    zeroPadded (if plmnId.mncLen=2 then 2 else 3) plmnId.mnc++[minus] ++
    routing++[minus]++decimal protectionSchemeId++[minus]++decimal pkiValue++[minus] ++
    output

def suciString (plmnId : PlmnId) (routing : List Byte) (protectionSchemeId pkiValue : Nat)
    (output : List Byte) : IdStr :=
  ⟨CStr.ofMem (suciText plmnId routing protectionSchemeId pkiValue output),nofun⟩

def protectionSchemes : List Nat := [0,1,2]

def suciFromMobileIdentity (d : List Byte) : Except Fault (Option IdStr) := do
  let h ← octetAt d 0
  if supiFormat h≠0 then return none
  let scheme ← octetAt d 6
  let protectionSchemeId:=scheme.val % 16
  if protectionSchemeId∉protectionSchemes then return none
  let plmn0 ← octetAt d 1
  let plmn1 ← octetAt d 2
  let plmn2 ← octetAt d 3
  let routing0 ← octetAt d 4
  let routing1 ← octetAt d 5
  if d.length<suciMinSize then return none
  let schemeOutput:=d.drop suciMinSize
  let zeros:=List.replicate (schemeOutput.length*2+1) 0
  let out ← if protectionSchemeId≠0 then hexToAscii schemeOutput zeros
    else bufferToBcd schemeOutput zeros
  let pki ← octetAt d 7
  return some (suciString (nasToPlmnId (nasPlmnIdOf #v[plmn0,plmn1,plmn2]))
    (routingIndicator routing0 routing1) protectionSchemeId pki.val (beforeZero out))

def gutiFromMobileIdentity (d : List Byte) : Except Fault Guti := do
  let plmn0 ← octetAt d 1
  let plmn1 ← octetAt d 2
  let plmn2 ← octetAt d 3
  let region ← octetAt d 4
  let set1 ← octetAt d 5
  let set2 ← octetAt d 6
  let mTmsi ← octetsAt d 7 4
  return ⟨nasPlmnIdOf #v[plmn0,plmn1,plmn2],
    ⟨BitVec.ofNat 8 region.val,BitVec.ofNat 8 set1.val,BitVec.ofNat 2 (set2.val / 64),
      BitVec.ofNat 6 set2.val⟩,BitVec.ofNat 32 (netValue mTmsi)⟩

def gutiFromStmsi (servedGuami : Guami) (d : List Byte) : Except Fault Guti := do
  let set1 ← octetAt d 1
  let set2 ← octetAt d 2
  let mTmsi ← octetsAt d 3 4
  return ⟨nasFromPlmnId servedGuami.plmnId,
    ⟨servedGuami.amfId.region,BitVec.ofNat 8 set1.val,BitVec.ofNat 2 (set2.val / 64),
      BitVec.ofNat 6 set2.val⟩,BitVec.ofNat 32 (netValue mTmsi)⟩

def registrationRequest : Nat := 65
def deregistrationRequestFromUe : Nat := 69
def serviceRequest : Nat := 76

namespace Ues

variable (s : Ues)

def findBySuciIdentity (d : List Byte) : Except Fault (Option Nat) := do
  let h ← octetAt d 0
  if supiFormat h≠0 then return none
  let scheme ← octetAt d 6
  if scheme.val % 16∉protectionSchemes then return none
  match ← suciFromMobileIdentity d with
  | none => return none
  | some suci => return s.amfUeFindBySuci suci

/-- `amf_ue_find_by_message`; `d` is the identity in the message, where the type has one. -/
def amfUeFindByMessage (messageType : Nat) (d : List Byte) : Except Fault (Option Nat) :=
  if messageType∉[registrationRequest,serviceRequest,deregistrationRequestFromUe] then .ok none
  else if d=[] then .ok none
  else do
    let h ← octetAt d 0
    if messageType=registrationRequest ∧ identityType h=identitySuci then
      s.findBySuciIdentity d
    else if messageType≠serviceRequest ∧ identityType h=identityGuti then
      return s.amfUeFindByGuti (← gutiFromMobileIdentity d)
    else if messageType=serviceRequest ∧ identityType h=identityStmsi then
      return s.amfUeFindByGuti (← gutiFromStmsi s.servedGuami d)
    else return none

end Ues

/-- A SUCI with an IMSI has the octets of its structure up to the protection scheme, and with the
null scheme an octet behind the structure, if it is that long. -/
def SuciFits (d : List Byte) : Prop :=
  d≠[] ∧ (supiFormat (d.getD 0 0)=0 →
    7≤d.length ∧ (d.length=suciMinSize → (d.getD 6 0).val % 16≠0))

/-- The fields that are read for a message of this type are in the identity. -/
def IdentityFits (messageType : Nat) (d : List Byte) : Prop :=
  let type:=identityType (d.getD 0 0)
  (messageType=registrationRequest → type=identitySuci → SuciFits d) ∧
    (messageType∈[registrationRequest,deregistrationRequestFromUe] → type=identityGuti →
      11≤d.length) ∧
    (messageType=serviceRequest → type=identityStmsi → 7≤d.length)

def Returns {α : Type} (call : Except Fault α) : Prop := Gives call fun _ => True

section Fits

variable {d : List Byte}

theorem returns_ok {α : Type} (a : α) : Returns (.ok a : Except Fault α) := gives_ok.mpr trivial

theorem schemeText_returns (protectionSchemeId : Nat) (output : List Byte) :
    Returns (if protectionSchemeId≠0
      then hexToAscii output (List.replicate (output.length*2+1) 0)
      else bufferToBcd output (List.replicate (output.length*2+1) 0)) ↔
        (output=[] → protectionSchemeId≠0) := by
  have hroom : output.length*2+1≤(List.replicate (output.length*2+1) (0 : Byte)).length :=
    Nat.le_of_eq length_replicate.symm
  by_cases hscheme : protectionSchemeId≠0
  · obtain ⟨rest,hhex⟩ := hexToAscii_ok hroom
    rw [if_pos hscheme,hhex]
    exact iff_of_true (returns_ok _) fun _ => hscheme
  · rw [if_neg hscheme]
    by_cases hempty : output=[]
    · rw [hempty]
      exact iff_of_false not_gives_error fun h => hscheme (h rfl)
    · obtain ⟨rest,hbcd⟩ := bufferToBcd_ok hempty hroom
      rw [hbcd]
      exact iff_of_true (returns_ok _) fun h => absurd h hempty

theorem suciFromMobileIdentity_returns : Returns (suciFromMobileIdentity d) ↔ SuciFits d := by
  unfold Returns suciFromMobileIdentity SuciFits
  rw [gives_octetAt,length_pos_iff]
  refine and_congr_right fun hne => ?_
  by_cases hformat : supiFormat (d.getD 0 0)=0
  · rw [if_neg (not_not.mpr hformat),gives_octetAt]
    simp only [hformat,true_imp_iff]
    refine and_congr_right fun hlen => ?_
    by_cases hscheme : (d.getD 6 0).val % 16∈protectionSchemes
    · rw [if_neg (not_not.mpr hscheme)]
      simp only [gives_octetAt,show 1<d.length by omega,show 2<d.length by omega,
        show 3<d.length by omega,show 4<d.length by omega,show 5<d.length by omega,
        true_and]
      by_cases hshort : d.length<suciMinSize
      · rw [if_pos hshort]
        exact iff_of_true (returns_ok none) fun h => by omega
      · rw [if_neg hshort]
        have hlong : 7<d.length := Nat.not_lt.mp hshort
        have hnil : d.drop suciMinSize=[] ↔ d.length=suciMinSize := by
          rw [drop_eq_nil_iff]
          omega
        have htext:=schemeText_returns ((d.getD 6 0).val % 16) (d.drop suciMinSize)
        rw [← hnil,← htext]
        by_cases hnull : (d.getD 6 0).val % 16≠0
        · rw [if_pos hnull,if_pos hnull,gives_bind]
          refine exists_congr fun out => and_congr_right fun _ => iff_of_true ?_ trivial
          exact gives_octetAt.mpr ⟨hlong,returns_ok _⟩
        · rw [if_neg hnull,if_neg hnull,gives_bind]
          refine exists_congr fun out => and_congr_right fun _ => iff_of_true ?_ trivial
          exact gives_octetAt.mpr ⟨hlong,returns_ok _⟩
    · rw [if_pos hscheme]
      refine iff_of_true (returns_ok none) fun _ h0 => hscheme ?_
      rw [h0]
      exact mem_cons_self
  · rw [if_pos hformat]
    exact iff_of_true (returns_ok none) fun h => absurd h hformat

theorem returns_bind {α β : Type} {x : Except Fault α} {f : α → Except Fault β}
    (h : ∀ a,Returns (f a)) : Returns (x >>= f) ↔ Returns x :=
  gives_bind.trans (exists_congr fun a => and_congr_right fun _ => iff_of_true (h a) trivial)

theorem findBySuciIdentity_returns (s : Ues) : Returns (s.findBySuciIdentity d) ↔ SuciFits d := by
  have hsuci : Returns (suciFromMobileIdentity d >>= fun suci => match suci with
      | none => .ok none
      | some suci => .ok (s.amfUeFindBySuci suci)) ↔ SuciFits d := by
    refine (returns_bind fun suci => ?_).trans suciFromMobileIdentity_returns
    cases suci <;> exact returns_ok _
  unfold Returns Ues.findBySuciIdentity
  rw [gives_octetAt,length_pos_iff]
  by_cases hformat : supiFormat (d.getD 0 0)=0
  · rw [if_neg (not_not.mpr hformat),gives_octetAt]
    by_cases hscheme : (d.getD 6 0).val % 16∈protectionSchemes
    · rw [if_neg (not_not.mpr hscheme)]
      constructor
      · exact fun h => hsuci.mp h.2.2
      · exact fun h => ⟨h.1,(h.2 hformat).1,hsuci.mpr h⟩
    · rw [if_pos hscheme]
      constructor
      · intro h
        refine ⟨h.1,fun _ => ⟨h.2.1,fun _ h0 => hscheme ?_⟩⟩
        rw [h0]
        exact mem_cons_self
      · exact fun h => ⟨h.1,(h.2 hformat).1,returns_ok none⟩
  · rw [if_pos hformat]
    constructor
    · exact fun h => ⟨h.1,fun h0 => absurd h0 hformat⟩
    · exact fun h => ⟨h.1,returns_ok none⟩

theorem gutiFromMobileIdentity_returns : Returns (gutiFromMobileIdentity d) ↔ 11≤d.length := by
  unfold Returns gutiFromMobileIdentity
  simp only [gives_octetAt,gives_octetsAt]
  constructor
  · exact fun h => h.2.2.2.2.2.2.1
  · intro h
    exact ⟨by omega,by omega,by omega,by omega,by omega,by omega,h,returns_ok _⟩

theorem gutiFromStmsi_returns (servedGuami : Guami) :
    Returns (gutiFromStmsi servedGuami d) ↔ 7≤d.length := by
  unfold Returns gutiFromStmsi
  simp only [gives_octetAt,gives_octetsAt]
  constructor
  · exact fun h => h.2.2.1
  · intro h
    exact ⟨by omega,by omega,h,returns_ok _⟩

theorem amfUeFindByMessage_returns (s : Ues) (messageType : Nat) :
    Returns (s.amfUeFindByMessage messageType d) ↔ d=[] ∨ IdentityFits messageType d := by
  unfold Ues.amfUeFindByMessage
  by_cases htype : messageType∈[registrationRequest,serviceRequest,deregistrationRequestFromUe]
  · rw [if_neg (not_not.mpr htype)]
    by_cases hempty : d=[]
    · rw [if_pos hempty]
      exact iff_of_true (returns_ok none) (.inl hempty)
    · rw [if_neg hempty,or_iff_right hempty]
      unfold Returns
      rw [gives_octetAt,and_iff_right (length_pos_iff.mpr hempty)]
      unfold IdentityFits
      generalize identityType (d.getD 0 0)=type
      by_cases hsuci : messageType=registrationRequest ∧ type=identitySuci
      · rw [if_pos hsuci]
        refine (findBySuciIdentity_returns s).trans ⟨fun h => ⟨fun _ _ => h,?_,?_⟩,?_⟩
        · exact fun _ hguti => absurd (hsuci.2.symm.trans hguti) (by decide)
        · exact fun hservice => absurd (hsuci.1.symm.trans hservice) (by decide)
        · exact fun h => h.1 hsuci.1 hsuci.2
      rw [if_neg hsuci]
      by_cases hguti : messageType≠serviceRequest ∧ type=identityGuti
      · rw [if_pos hguti]
        have hmem : messageType∈[registrationRequest,deregistrationRequestFromUe] := by
          simpa [hguti.1] using htype
        refine (returns_bind fun guti => returns_ok _).trans ?_
        refine gutiFromMobileIdentity_returns.trans ⟨fun h => ⟨?_,fun _ _ => h,?_⟩,?_⟩
        · exact fun _ hs => absurd (hguti.2.symm.trans hs) (by decide)
        · exact fun hservice => absurd hservice hguti.1
        · exact fun h => h.2.1 hmem hguti.2
      rw [if_neg hguti]
      by_cases hstmsi : messageType=serviceRequest ∧ type=identityStmsi
      · rw [if_pos hstmsi]
        refine (returns_bind fun guti => returns_ok _).trans ?_
        refine (gutiFromStmsi_returns _).trans ⟨fun h => ⟨?_,?_,fun _ _ => h⟩,?_⟩
        · exact fun _ hs => absurd (hstmsi.2.symm.trans hs) (by decide)
        · exact fun _ hg => absurd (hstmsi.2.symm.trans hg) (by decide)
        · exact fun h => h.2.2 hstmsi.1 hstmsi.2
      -- Another type of identity is not looked at.
      rw [if_neg hstmsi]
      refine iff_of_true (returns_ok none) ⟨?_,?_,?_⟩
      · exact fun hr hs => absurd ⟨hr,hs⟩ hsuci
      · intro hmem hg
        refine absurd ⟨fun hservice => ?_,hg⟩ hguti
        rw [hservice] at hmem
        exact absurd hmem (by decide)
      · exact fun hs ht => absurd ⟨hs,ht⟩ hstmsi
  · rw [if_pos htype]
    refine iff_of_true (returns_ok none) (.inr ⟨fun h => ?_,fun h => ?_,fun h => ?_⟩)
    · exact absurd (h ▸ mem_cons_self) htype
    · rcases mem_cons.mp h with rfl | h
      · exact absurd mem_cons_self htype
      · rw [mem_singleton.mp h] at htype
        exact absurd (by decide) htype
    · rw [h] at htype
      exact absurd (by decide) htype

/-- Both functions stay inside the identity and come back exactly where the identity has the octets
of the fields that they read. -/
theorem mobile_identity_safety (s : Ues) (messageType : Nat) (d : List Byte) :
    (Returns (suciFromMobileIdentity d) ↔ SuciFits d) ∧
      (Returns (s.amfUeFindByMessage messageType d) ↔ d=[] ∨ IdentityFits messageType d) :=
  ⟨suciFromMobileIdentity_returns,amfUeFindByMessage_returns s messageType⟩

end Fits

def emptySuci : List Byte := [1,0x99,0xf9,0x07,0xf0,0xff,0,0]

/-- A GUTI and a SUCI of one octet are read behind their end, and so is an empty scheme output. -/
theorem mobile_identity_safety_short :
    (ues2.amfUeFindByMessage registrationRequest [2] = .error .read ∧
      ues2.amfUeFindByMessage registrationRequest [1] = .error .read ∧
      ues2.amfUeFindByMessage registrationRequest emptySuci = .error .read ∧
      suciFromMobileIdentity emptySuci = .error .read) ∧
    ¬ ∀ (s : Ues) (messageType : Nat) (d : List Byte),
      Returns (suciFromMobileIdentity d) ∧ Returns (s.amfUeFindByMessage messageType d) := by
  refine ⟨⟨rfl,rfl,rfl,rfl⟩,fun h => ?_⟩
  have hshort:=suciFromMobileIdentity_returns.mp (h ues2 0 emptySuci).1
  exact absurd rfl ((hshort.2 rfl).2 rfl)

end OgsDp.Amf
