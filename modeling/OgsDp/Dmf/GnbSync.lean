import OgsDp.Core.Conv

/-!
# gNB synchronisation requests at the DMF (src/dmf/dmf-sm.c, src/dmf/context.c)

The request is a body that `ogs_sbi_parse_request` accepted, so one that `cJSON_Parse` reads; the
fields are then cut out of the text again.
-/

namespace OgsDp.Dmf
open Lib Text OgsDp.Core

structure GnbSync where
  gnbId : Option CStr
  action : Option CStr
  sessionId : Option CStr
  ranAddr : Option CStr
  ranPort : BitVec 16
  teid : BitVec 32
  deriving DecidableEq

def parseGnbSync (content : CStr) : GnbSync where
  gnbId := stringField (ascii "gnb_id") content
  action := stringField (ascii "action") content
  sessionId := stringField (ascii "session_id") content
  ranAddr := stringField (ascii "ran_addr") content
  ranPort := (numberField (ascii "ran_port") content).setWidth 16
  teid := numberField (ascii "teid") content

structure Forward where
  gnbId : CStr
  sessionId : CStr
  ranAddr : CStr
  ranPort : BitVec 16
  teid : BitVec 32
  deriving DecidableEq

inductive Action where
  | forwardToDsmf (f : Forward)
  | addGnb (gnbId : CStr)
  | removeGnb (gnbId : CStr)
  | none
  deriving DecidableEq

def gnbSyncAction (content : CStr) : Action :=
  let r:=parseGnbSync content
  match r.gnbId, r.action with
  | some gnbId, some action =>
    if action.bytes=ascii "register" then
      match r.sessionId, r.ranAddr with
      | some sessionId, some ranAddr =>
        .forwardToDsmf ⟨gnbId,sessionId,ranAddr,r.ranPort,r.teid⟩
      | _, _ => .addGnb gnbId
    else if action.bytes=ascii "deregister" then .removeGnb gnbId
    else .none
  | _, _ => .none

/-- The request that `ogs_sbi_parse_request` lets through is forwarded with these arguments. -/
def forwards (cJSONParse : CStr → Bool) (content : CStr) : Option Forward :=
  if cJSONParse content=true then
    match gnbSyncAction content with
    | .forwardToDsmf f => some f
    | _ => none
  else none

def forwardText (f : Forward) : List Byte :=
  ascii "\x7b\"gnb_id\":\"" ++ f.gnbId.bytes ++
    ascii "\",\"action\":\"register\",\"session_id\":\"" ++ f.sessionId.bytes ++
    ascii "\",\"ran_addr\":\"" ++ f.ranAddr.bytes ++
    ascii "\",\"ran_port\":" ++ decimal f.ranPort.toNat ++
    ascii ",\"teid\":" ++ decimal f.teid.toNat++ascii "\x7d"

theorem zero_not_mem_forwardText (f : Forward) : 0∉forwardText f := by
  unfold forwardText
  simp only [List.mem_append,not_or]
  have hg:=f.gnbId.noNul
  have hs:=f.sessionId.noNul
  have ha:=f.ranAddr.noNul
  have hp:=zero_not_mem_decimal f.ranPort.toNat
  have ht:=zero_not_mem_decimal f.teid.toNat
  have h1 : (0 : Byte)∉ascii "\x7b\"gnb_id\":\"" := by decide
  have h2 : (0 : Byte)∉ascii "\",\"action\":\"register\",\"session_id\":\"" := by decide
  have h3 : (0 : Byte)∉ascii "\",\"ran_addr\":\"" := by decide
  have h4 : (0 : Byte)∉ascii "\",\"ran_port\":" := by decide
  have h5 : (0 : Byte)∉ascii ",\"teid\":" := by decide
  have h6 : (0 : Byte)∉ascii "\x7d" := by decide
  exact ⟨⟨⟨⟨⟨⟨⟨⟨⟨⟨h1,hg⟩,h2⟩,hs⟩,h3⟩,ha⟩,h4⟩,hp⟩,h5⟩,ht⟩,h6⟩

def forwardBody (f : Forward) : CStr := ⟨forwardText f,zero_not_mem_forwardText f⟩

theorem forwardText_entries (f : Forward) :
    forwardText f =
      ascii "\x7b" ++ (stringEntry (ascii "gnb_id") f.gnbId.bytes++([comma] ++
        (stringEntry (ascii "action") (ascii "register")++([comma] ++
        (stringEntry (ascii "session_id") f.sessionId.bytes++([comma] ++
        (stringEntry (ascii "ran_addr") f.ranAddr.bytes++([comma] ++
        (fieldKey (ascii "ran_port") (decimal f.ranPort.toNat++[comma]) ++
        (fieldKey (ascii "teid") (decimal f.teid.toNat)++ascii "\x7d")))))))))) := by
  simp only [forwardText,stringEntry,fieldKey,List.append_assoc,List.nil_append,
    List.cons_append]
  rfl

structure Forward.Plain (f : Forward) : Prop where
  gnbId : quote∉f.gnbId.bytes
  sessionId : quote∉f.sessionId.bytes
  ranAddr : quote∉f.ranAddr.bytes

theorem gnbSyncAction_inv {content : CStr} {f : Forward}
    (h : gnbSyncAction content = .forwardToDsmf f) :
    stringField (ascii "gnb_id") content=some f.gnbId ∧
      stringField (ascii "session_id") content=some f.sessionId ∧
      stringField (ascii "ran_addr") content=some f.ranAddr := by
  unfold gnbSyncAction at h
  simp only at h
  split at h
  · rename_i gnbId action hgnb haction
    split_ifs at h with hregister hderegister
    · split at h
      · rename_i sessionId ranAddr hsession hran
        cases h
        exact ⟨hgnb,hsession,hran⟩
      · cases h
  · cases h

theorem plain_of_forwards {cJSONParse : CStr → Bool} {content : CStr} {f : Forward}
    (h : forwards cJSONParse content=some f) : f.Plain := by
  unfold forwards at h
  split_ifs at h with hjson
  cases ha : gnbSyncAction content with
  | forwardToDsmf g =>
    rw [ha] at h
    cases h
    obtain ⟨hgnb,hsession,hran⟩ := gnbSyncAction_inv ha
    exact ⟨quote_not_mem_stringField hgnb,quote_not_mem_stringField hsession,
      quote_not_mem_stringField hran⟩
  | addGnb g => simp [ha] at h
  | removeGnb g => simp [ha] at h
  | none => simp [ha] at h

theorem plainName_sessionId : PlainName (ascii "session_id") := ⟨by decide,by decide,by decide⟩
theorem plainName_ranAddr : PlainName (ascii "ran_addr") := ⟨by decide,by decide,by decide⟩
theorem plainName_ranPort : PlainName (ascii "ran_port") := ⟨by decide,by decide,by decide⟩
theorem plainName_teid : PlainName (ascii "teid") := ⟨by decide,by decide,by decide⟩

section Fields

variable {f : Forward} (h : f.Plain)
include h

theorem gnbId_of_forwardBody : stringField (ascii "gnb_id") (forwardBody f)=some f.gnbId := by
  apply stringField_eq
  apply stringFieldBytes_of_strstr h.gnbId (show quote∉ascii "\x7b" by decide)
  show strstr _ (forwardText f)=_
  rw [forwardText_entries]

theorem sessionId_of_forwardBody :
    stringField (ascii "session_id") (forwardBody f)=some f.sessionId := by
  have hname:=plainName_sessionId
  apply stringField_eq
  apply stringFieldBytes_of_strstr h.sessionId (show quote∉[comma] by decide)
  show strstr _ (forwardText f)=_
  rw [forwardText_entries,
    strstr_stringEntry_of_ne hname (by decide) (by decide) h.gnbId (by decide),
    strstr_stringEntry_of_ne hname (by decide) (by decide) (by decide) (by decide)]

theorem ranAddr_of_forwardBody :
    stringField (ascii "ran_addr") (forwardBody f)=some f.ranAddr := by
  have hname:=plainName_ranAddr
  apply stringField_eq
  apply stringFieldBytes_of_strstr h.ranAddr (show quote∉[comma] by decide)
  show strstr _ (forwardText f)=_
  rw [forwardText_entries,
    strstr_stringEntry_of_ne hname (by decide) (by decide) h.gnbId (by decide),
    strstr_stringEntry_of_ne hname (by decide) (by decide) (by decide) (by decide),
    strstr_stringEntry_of_ne hname (by decide) (by decide) h.sessionId (by decide)]

theorem ranPort_of_forwardBody :
    (numberField (ascii "ran_port") (forwardBody f)).setWidth 16=f.ranPort := by
  have hname:=plainName_ranPort
  have hfield : numberField (ascii "ran_port") (forwardBody f) =
      atoi ((decimal f.ranPort.toNat++[comma]) ++
        (fieldKey (ascii "teid") (decimal f.teid.toNat)++ascii "\x7d")) := by
    apply numberField_of_strstr hname.colon (show quote∉[comma] by decide)
    show strstr _ (forwardText f)=_
    rw [forwardText_entries,
      strstr_stringEntry_of_ne hname (by decide) (by decide) h.gnbId (by decide),
      strstr_stringEntry_of_ne hname (by decide) (by decide) (by decide) (by decide),
      strstr_stringEntry_of_ne hname (by decide) (by decide) h.sessionId (by decide),
      strstr_stringEntry_of_ne hname (by decide) (by decide) h.ranAddr (by decide)]
  have hport : f.ranPort.toNat<2^32 := by
    have hlt:=f.ranPort.isLt
    omega
  rw [hfield,List.append_assoc,List.singleton_append,atoi_decimal hport (by decide)]
  apply BitVec.eq_of_toNat_eq
  have hlt:=f.ranPort.isLt
  simp only [BitVec.toNat_setWidth,BitVec.toNat_ofNat]
  omega

theorem teid_of_forwardBody : numberField (ascii "teid") (forwardBody f)=f.teid := by
  have hname:=plainName_teid
  have hport : quote∉colon::(decimal f.ranPort.toNat++[comma]) := by
    simp only [List.mem_cons,List.mem_append,List.not_mem_nil,or_false,not_or]
    exact ⟨by decide,quote_not_mem_decimal _,by decide⟩
  have hfield : numberField (ascii "teid") (forwardBody f) =
      atoi (decimal f.teid.toNat++ascii "\x7d") := by
    apply numberField_of_strstr hname.colon hport
    show strstr _ (forwardText f)=_
    rw [forwardText_entries,
      strstr_stringEntry_of_ne hname (by decide) (by decide) h.gnbId (by decide),
      strstr_stringEntry_of_ne hname (by decide) (by decide) (by decide) (by decide),
      strstr_stringEntry_of_ne hname (by decide) (by decide) h.sessionId (by decide),
      strstr_stringEntry_of_ne hname (by decide) (by decide) h.ranAddr (by decide),
      strstr_numberEntry_of_ne hname (by decide) (by decide) (by decide)]
  rw [hfield]
  show atoi (decimal f.teid.toNat++125::[])=f.teid
  rw [atoi_decimal f.teid.isLt (by decide),BitVec.ofNat_toNat,BitVec.setWidth_eq]

end Fields

end OgsDp.Dmf
