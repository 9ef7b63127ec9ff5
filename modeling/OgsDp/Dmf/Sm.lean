import OgsDp.Dmf.Context
import OgsDp.Lib.Run

/-!
# The operational state of the DMF (src/dmf/dmf-sm.c)

An HTTP request comes with what `ogs_sbi_parse_request` made of it. What the state does is listed
in order: the strings cut out of the body, the response, the message to the DSMF.
-/

namespace OgsDp.Dmf
open Lib Text OgsDp.Core List Option

/-- `sbi_message.h`, for a request that was parsed: the service has a name then. -/
structure SbiHeader where
  serviceName : CStr
  component : List CStr

/-- An event of an HTTP request on a stream; no header where the request could not be parsed. -/
structure HttpRequest where
  header : Option SbiHeader
  content : Option CStr

inductive Field where
  | gnbId
  | action
  | sessionId
  | ranAddr
  deriving DecidableEq

inductive Response where
  | json (status : Nat) (content : List Byte)
  | problem (status : Nat) (title : List Byte) (detail : Option CStr)
  deriving DecidableEq

inductive Effect where
  | malloc (field : Field)
  | free (field : Field)
  | respond (response : Response)
  | forwardToDsmf (f : Forward)
  deriving DecidableEq

def httpStatusOk : Nat := 200
def httpStatusBadRequest : Nat := 400

def ndmfGnbSync : List Byte := ascii "ndmf-gnb-sync"

def GnbSync.strings (r : GnbSync) : List Field :=
  (if r.gnbId.isSome then [.gnbId] else [])++(if r.action.isSome then [.action] else []) ++
    (if r.sessionId.isSome then [.sessionId] else []) ++
    if r.ranAddr.isSome then [.ranAddr] else []

def respondOk : Effect := .respond (.json httpStatusOk (ascii "\x7b\x7d"))

namespace Context

variable (inetPton : CStr → Option (BitVec 32))

def processGnbSync (c : Context) : Action → Context × List Effect
  | .forwardToDsmf f => (c.updateGnbRanInfo inetPton f,[respondOk,.forwardToDsmf f])
  | .addGnb gnbId => (c.addGnb gnbId,[respondOk])
  | .removeGnb gnbId => (c.removeGnb gnbId,[respondOk])
  | .none => (c,[])

def gnbSyncRequest (c : Context) (content : Option CStr) : Context × List Effect :=
  match content with
  | none => (c,[])
  | some content =>
    let strings:=(parseGnbSync content).strings
    let r:=c.processGnbSync inetPton (gnbSyncAction content)
    (r.1,strings.map .malloc++r.2++strings.map .free)

/-- `dmf_state_operational` for `OGS_EVENT_SBI_SERVER`; to compare a component that is not there
stops the process. -/
def stateOperational (c : Context) (e : HttpRequest) : Outcome Context (List Effect) :=
  match e.header with
  | none =>
    .ok c [.respond (.problem httpStatusBadRequest (ascii "Cannot parse HTTP request") none)]
  | some h =>
    if h.serviceName.bytes=ndmfGnbSync then
      match h.component.head? with
      | none => .abort c
      | some component =>
        if component.bytes=ascii "gnb-sync" then
          let r:=c.gnbSyncRequest inetPton e.content
          .ok r.1 r.2
        else
          .ok c [.respond (.problem httpStatusBadRequest (ascii "Unknown resource")
            (some component))]
    else
      .ok c [.respond (.problem httpStatusBadRequest (ascii "Invalid API name")
        (some h.serviceName))]

end Context

def Effect.response? : Effect → Option Response
  | .respond r => some r
  | _ => none

def Effect.malloc? : Effect → Option Field
  | .malloc f => some f
  | _ => none

def Effect.free? : Effect → Option Field
  | .free f => some f
  | _ => none

/-- One response is sent, the process goes on, and every string is freed. -/
def RespondsOnce (o : Outcome Context (List Effect)) : Prop :=
  match o with
  | .ok _ es => (es.filterMap Effect.response?).length=1 ∧
      (es.filterMap Effect.free?).Perm (es.filterMap Effect.malloc?)
  | .abort _ => False

def Actionable (content : CStr) : Prop :=
  (stringField (ascii "gnb_id") content).isSome=true ∧
    ∃ action,stringField (ascii "action") content=some action ∧
      (action.bytes=ascii "register" ∨ action.bytes=ascii "deregister")

/-- A request that is parsed and names the service names a resource too, and one for "gnb-sync"
has a body that says what to do. -/
def Answerable (e : HttpRequest) : Prop :=
  ∀ h,e.header=some h → h.serviceName.bytes=ndmfGnbSync →
    ∃ component,h.component.head?=some component ∧
      (component.bytes=ascii "gnb-sync" →
        ∃ content,e.content=some content ∧ Actionable content)

variable {inetPton : CStr → Option (BitVec 32)}

theorem actionable_iff (content : CStr) :
    Actionable content ↔ gnbSyncAction content ≠ .none := by
  unfold Actionable gnbSyncAction parseGnbSync
  simp only
  cases stringField (ascii "gnb_id") content with
  | none => simp
  | some gnbId =>
    cases stringField (ascii "action") content with
    | none => simp
    | some action =>
      simp only [isSome_some,some.injEq,exists_eq_left',true_and]
      by_cases hregister : action.bytes=ascii "register"
      · simp only [hregister,true_or,if_true,true_iff]
        split <;> simp
      · by_cases hderegister : action.bytes=ascii "deregister"
        · rw [if_neg hregister,if_pos hderegister]
          exact iff_of_true (.inr hderegister) (by simp)
        · simp [hregister,hderegister]

variable (inetPton) in
theorem processGnbSync_effects (c : Context) (a : Action) :
    (((c.processGnbSync inetPton a).2.filterMap Effect.response?).length =
        if a = .none then 0 else 1) ∧
      (c.processGnbSync inetPton a).2.filterMap Effect.malloc?=[] ∧
      (c.processGnbSync inetPton a).2.filterMap Effect.free?=[] := by
  cases a with
  | forwardToDsmf f => simp [Context.processGnbSync,respondOk,Effect.response?,Effect.malloc?,
      Effect.free?]
  | addGnb gnbId => simp [Context.processGnbSync,respondOk,Effect.response?,Effect.malloc?,
      Effect.free?]
  | removeGnb gnbId => simp [Context.processGnbSync,respondOk,Effect.response?,Effect.malloc?,
      Effect.free?]
  | none => simp [Context.processGnbSync]

theorem filterMap_strings (strings : List Field) :
    (strings.map Effect.malloc).filterMap Effect.response?=[] ∧
      (strings.map Effect.free).filterMap Effect.response?=[] ∧
      (strings.map Effect.malloc).filterMap Effect.malloc?=strings ∧
      (strings.map Effect.free).filterMap Effect.malloc?=[] ∧
      (strings.map Effect.malloc).filterMap Effect.free?=[] ∧
      (strings.map Effect.free).filterMap Effect.free?=strings := by
  induction strings with
  | nil => simp
  | cons s strings ih =>
    obtain ⟨h1,h2,h3,h4,h5,h6⟩ := ih
    simp only [map_cons,filterMap_cons,Effect.response?,Effect.malloc?,Effect.free?]
    exact ⟨h1,h2,congrArg (s :: ·) h3,h4,h5,congrArg (s :: ·) h6⟩

variable (inetPton) in
theorem gnbSyncRequest_effects (c : Context) (content : CStr) :
    let es:=(c.gnbSyncRequest inetPton (some content)).2
    (es.filterMap Effect.response?).length=(if gnbSyncAction content = .none then 0 else 1) ∧
      es.filterMap Effect.free?=es.filterMap Effect.malloc? := by
  obtain ⟨hresponse,hmalloc,hfree⟩ :=
    processGnbSync_effects inetPton c (gnbSyncAction content)
  obtain ⟨h1,h2,h3,h4,h5,h6⟩ := filterMap_strings (parseGnbSync content).strings
  simp only [Context.gnbSyncRequest,filterMap_append,h1,h2,h3,h4,h5,h6,hmalloc,hfree,
    nil_append,append_nil,hresponse,and_self]

theorem respondsOnce_problem (c : Context) (r : Response) :
    RespondsOnce (.ok c [.respond r]) := by
  exact ⟨rfl,Perm.refl _⟩

/-- A request gets its one response exactly when it is answerable. -/
theorem respondsOnce_iff (inetPton : CStr → Option (BitVec 32)) (c : Context) (e : HttpRequest) :
    RespondsOnce (c.stateOperational inetPton e) ↔ Answerable e := by
  obtain ⟨header,content⟩ := e
  unfold Context.stateOperational Answerable
  cases header with
  | none => exact iff_of_true (respondsOnce_problem c _) (by simp)
  | some h =>
    simp only [some.injEq,forall_eq']
    by_cases hservice : h.serviceName.bytes=ndmfGnbSync
    · rw [if_pos hservice]
      simp only [hservice,true_implies]
      cases h.component.head? with
      | none => simp [RespondsOnce]
      | some component =>
        simp only [some.injEq,exists_eq_left']
        by_cases hresource : component.bytes=ascii "gnb-sync"
        · rw [if_pos hresource]
          simp only [hresource,true_implies]
          cases content with
          | none => simp [RespondsOnce,Context.gnbSyncRequest]
          | some content =>
            obtain ⟨hresponse,hfree⟩ :=
              gnbSyncRequest_effects inetPton c content
            simp only [RespondsOnce,some.injEq,exists_eq_left',actionable_iff]
            rw [hresponse,hfree]
            split
            · rename_i hnone
              simp [hnone]
            · rename_i hknown
              simp [hknown]
        · rw [if_neg hresource]
          exact iff_of_true (respondsOnce_problem c _) fun hno => absurd hno hresource
    · rw [if_neg hservice]
      exact iff_of_true (respondsOnce_problem c _) fun hno => absurd hno hservice

def requestOf (content : Option CStr) : HttpRequest :=
  ⟨some ⟨⟨ndmfGnbSync,by decide⟩,[⟨ascii "gnb-sync",by decide⟩]⟩,content⟩

def updateRequest : CStr :=
  ⟨ascii "\x7b\"gnb_id\":\"1\",\"action\":\"update\"\x7d",by decide⟩

def noResource : HttpRequest :=
  ⟨some ⟨⟨ndmfGnbSync,by decide⟩,[]⟩,none⟩

/-- An unknown action and an absent body get no response; an absent resource stops the process. -/
theorem not_respondsOnce :
    ¬ RespondsOnce ((⟨[]⟩ : Context).stateOperational (fun _ => none)
        (requestOf (some updateRequest))) ∧
      ¬ RespondsOnce ((⟨[]⟩ : Context).stateOperational (fun _ => none) (requestOf none)) ∧
      ¬ RespondsOnce ((⟨[]⟩ : Context).stateOperational (fun _ => none) noResource) := by
  refine ⟨?_,?_,?_⟩
  · intro h
    have hnone : ((⟨[]⟩ : Context).stateOperational (fun _ => none)
        (requestOf (some updateRequest))) = .ok ⟨[]⟩
          [.malloc .gnbId,.malloc .action,.free .gnbId,.free .action] := by
      decide
    rw [hnone] at h
    exact absurd h.1 (by decide)
  · intro h
    exact absurd h.1 (by decide)
  · intro h
    exact h

end OgsDp.Dmf
