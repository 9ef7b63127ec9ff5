import OgsDp.Pfcp.Rules
import OgsDp.Upf.UsageAccounting

/-!
# Accounting timers of a session (src/upf/context.c, src/upf/n4-handler.c)

The URRs are nodes of a pool that all sessions share, and `urr_acc` is an array inside the
session.
-/

namespace OgsDp.Upf
open Lib OgsDp.Core Pfcp Function

inductive TimerKind where
  | validityTime
  | timeQuota
  | timeThreshold
  deriving DecidableEq

namespace UrrAcc

def timer (x : UrrAcc) : TimerKind → Option AccTimer
  | .validityTime => x.validityTime
  | .timeQuota => x.timeQuota
  | .timeThreshold => x.timeThreshold

def stop (x : UrrAcc) : TimerKind → UrrAcc
  | .validityTime =>
    { x with validityTime := x.validityTime.map fun y => { y with running := false } }
  | .timeQuota => { x with timeQuota := x.timeQuota.map fun y => { y with running := false } }
  | .timeThreshold =>
    { x with timeThreshold := x.timeThreshold.map fun y => { y with running := false } }

end UrrAcc

/-- The URRs, the sessions in use, and the entries of `urr_acc` by session and subscript. -/
structure UrrContext where
  urr : RuleTable Urr
  sessions : List Nat
  acc : Nat → Nat → Accounting

inductive UrrOp where
  | sessAdd (s : Nat)
  | sessRemove (s : Nat)
  | urrFindOrAdd (s : Nat) (id : BitVec 32)
  | createUrr (env : Env) (s : Nat) (ms : List (Option UrrIe × Int))
  | updateUrr (env : Env) (s : Nat) (m : Option UrrIe)
  | removeUrr (s : Nat) (m : Option (Option (BitVec 32)))
  | sessClear (s : Nat)
  | expire (s i : Nat) (k : TimerKind) (now : Nat → Int) (sent : Bool)
  | packet (s r : Nat) (p : Packet) (now : Nat → Int) (sent : Bool)

namespace UrrContext

def init (poolSess : Nat) : UrrContext := ⟨.init urrKind poolSess,[],fun _ _ => .zero⟩

def setUrr (u : UrrContext) (t : RuleTable Urr) : UrrContext := { u with urr := t }

def setAcc (u : UrrContext) (s i : Nat) (x : Accounting) : UrrContext :=
  { u with acc := update u.acc s (update (u.acc s) i x) }

def onAcc (u : UrrContext) (s r : Nat) (f : Accounting → Accounting) : Outcome UrrContext Unit :=
  let id:=(u.urr.slot r).id.toNat
  if 0 < id ∧ id ≤ maxNumOfUrr then .ok (u.setAcc s (id-1) (f (u.acc s (id-1)))) ()
  else .abort u

def timersSetup (u : UrrContext) (s r : Nat) (now : Int) : Outcome UrrContext Unit :=
  u.onAcc s r (Accounting.timersSetup (u.urr.slot r).body r now)

def report (u : UrrContext) (s r : Nat) (fillNow snapshotNow : Int) (sent : Bool) :
    Outcome UrrContext Unit :=
  let x:=u.urr.slot r
  (u.onAcc s r fun acc => (acc.fillUsageReport x.body x.id fillNow).1.snapshot snapshotNow).bind
    fun u _ => if sent then .ok u () else .abort u

def timersCb (u : UrrContext) (r : Nat) (now : Nat → Int) (sent : Bool) :
    Outcome UrrContext Unit :=
  let x:=u.urr.slot r
  let t : ReportingTriggers := x.body.repTriggers
  if t.quotaValidityTime || t.timeQuota || t.timeThreshold then
    (u.report x.sess r (now 0) (now 1) sent).bind fun u _ => u.timersSetup x.sess r (now 2)
  else u.timersSetup x.sess r (now 2)

def expire (u : UrrContext) (s i : Nat) (k : TimerKind) (now : Nat → Int) (sent : Bool) :
    Option (Outcome UrrContext Unit) :=
  match (u.acc s i).timers.timer k with
  | some ⟨r,true⟩ =>
    let x:=u.acc s i
    some ((u.setAcc s i { x with timers := x.timers.stop k }).timersCb r now sent)
  | _ => none

def accAdd (u : UrrContext) (s r : Nat) (p : Packet) (now : Nat → Int) (sent : Bool) :
    Outcome UrrContext Unit :=
  (u.onAcc s r (Accounting.count p (now 0))).bind fun u _ =>
    let x:=u.urr.slot r
    let a:=u.acc s (x.id.toNat-1)
    if Accounting.volumeReached x.body (a.counters .totalOctets-a.lastReport .totalOctets) then
      (u.report s r (now 1) (now 2) sent).bind fun u _ => u.timersSetup s r (now 3)
    else .ok u ()

def istm (x : Urr) : Bool := x.measInfo.val.testBit 3

def createUrr (env : Env) (s : Nat) (u : UrrContext) (m : Option UrrIe × Int) :
    Outcome UrrContext Reply :=
  ((handleCreateUrr env u.urr s m.1).mapState u.setUrr).bind fun u reply =>
    match reply with
    | .rule r =>
      if istm (u.urr.slot r).body then (u.timersSetup s r m.2).bind fun u _ => .ok u reply
      else .ok u reply
    | _ => .ok u reply

def n4HandleCreateUrr (env : Env) (s : Nat) (u : UrrContext) (ms : List (Option UrrIe × Int)) :
    Outcome UrrContext (Except Refusal (List Nat)) :=
  each (createUrr env s) u ms

def urrRemoveAll (u : UrrContext) (s : Nat) : UrrContext :=
  u.setUrr ((u.urr.list s).foldl RuleTable.remove u.urr)

def accRemoveAll (u : UrrContext) (s : Nat) : UrrContext :=
  { u with acc := update u.acc s fun i => { u.acc s i with timers := .zero } }

-- A session that `upf_sess_add` has from its pool is all zero, with new id pools.
def sessAdd (u : UrrContext) (s : Nat) : UrrContext where
  urr := { u.urr with
    list := update u.urr.list s []
    idPool := update u.urr.idPool s (Pool.init maxNumOfUrr) }
  sessions := u.sessions++[s]
  acc := update u.acc s fun _ => .zero

def sessRemove (u : UrrContext) (s : Nat) : UrrContext :=
  let u:=(u.accRemoveAll s).urrRemoveAll s
  { u with sessions := u.sessions.erase s }

def unit {ρ : Type} (o : Outcome UrrContext ρ) : Outcome UrrContext Unit :=
  o.bind fun u _ => .ok u ()

def within (u : UrrContext) (s : Nat) (o : Outcome UrrContext Unit) :
    Option (Outcome UrrContext Unit) :=
  if s∈u.sessions then some o else none

def step (u : UrrContext) : UrrOp → Option (Outcome UrrContext Unit)
  | .sessAdd s => if s∈u.sessions then none else some (.ok (u.sessAdd s) ())
  | .sessRemove s => u.within s (.ok (u.sessRemove s) ())
  | .urrFindOrAdd s id => u.within s (unit ((Pfcp.urrFindOrAdd u.urr s id).mapState u.setUrr))
  | .createUrr env s ms => u.within s (unit (u.n4HandleCreateUrr env s ms))
  | .updateUrr env s m => u.within s (unit ((handleUpdateUrr env u.urr s m).mapState u.setUrr))
  | .removeUrr s m => u.within s (.ok (u.setUrr (handleRemoveUrr u.urr s m).1) ())
  | .sessClear s => u.within s (.ok (u.urrRemoveAll s) ())
  | .expire s i k now sent => u.expire s i k now sent
  | .packet s r p now sent => u.within s (u.accAdd s r p now sent)

def urrId (i : Nat) : BitVec 32 := BitVec.ofNat 32 (i+1)

/-- A timer that runs is for the URR that its session has under the id of the entry. -/
def Tracked (u : UrrContext) : Prop :=
  ∀ s i k x,(u.acc s i).timers.timer k=some x → x.running=true →
    u.urr.find s (urrId i)=some x.urr

def HasTimers (u : UrrContext) (s : Nat) (id : BitVec 32) : Prop :=
  0 < id.toNat ∧ (u.acc s (id.toNat-1)).timers ≠ .zero

instance (u : UrrContext) (s : Nat) (id : BitVec 32) : Decidable (u.HasTimers s id) :=
  inferInstanceAs (Decidable (_ ∧ _))

/-- The call takes no URR away that has timers, and counts no packet for a URR that was taken
away. -/
def KeepsTimed (u : UrrContext) : UrrOp → Prop
  | .removeUrr s (some (some id)) => (u.urr.find s id).isSome → ¬ u.HasTimers s id
  | .sessClear s => ∀ r∈u.urr.list s,¬ u.HasTimers s (u.urr.slot r).id
  | .packet s r _ _ _ => u.urr.find s (u.urr.slot r).id=some r
  | _ => True

instance (u : UrrContext) : ∀ op : UrrOp, Decidable (u.KeepsTimed op)
  | .removeUrr s (some (some id)) =>
    inferInstanceAs (Decidable ((u.urr.find s id).isSome → ¬ u.HasTimers s id))
  | .sessClear s =>
    inferInstanceAs (Decidable (∀ r∈u.urr.list s,¬ u.HasTimers s (u.urr.slot r).id))
  | .packet s r _ _ _ =>
    inferInstanceAs (Decidable (u.urr.find s (u.urr.slot r).id=some r))
  | .removeUrr _ none | .removeUrr _ (some none) | .sessAdd _ | .sessRemove _
  | .urrFindOrAdd _ _ | .createUrr _ _ _ | .updateUrr _ _ _ | .expire _ _ _ _ _ => isTrue trivial

structure Timed (u : UrrContext) : Prop where
  ok : u.urr.Ok
  urr : ∀ s i k x,(u.acc s i).timers.timer k=some x →
    i < maxNumOfUrr ∧ u.urr.find s (urrId i)=some x.urr

variable {u : UrrContext} {s i r : Nat} {k : TimerKind} {x : AccTimer}

def MadeFor (r : Nat) (a a' : Accounting) : Prop :=
  ∀ k x,a'.timers.timer k=some x →
    (∃ y,a.timers.timer k=some y ∧ y.urr=x.urr) ∨ x.urr=r

theorem madeFor_of_eq {a a' : Accounting} (h : a'.timers=a.timers) : MadeFor r a a' := by
  intro k x hx
  rw [h] at hx
  exact .inl ⟨x,hx,rfl⟩

theorem MadeFor.trans {a a' a'' : Accounting} (h : MadeFor r a a') (h' : MadeFor r a' a'') :
    MadeFor r a a'' := by
  intro k x hx
  rcases h' k x hx with ⟨y,hy,hxy⟩ | hx
  · rcases h k y hy with ⟨z,hz,hyz⟩ | hy
    · exact .inl ⟨z,hz,hyz.trans hxy⟩
    · exact .inr (hxy ▸ hy)
  · exact .inr hx

theorem startTimer_urr {timer : Option AccTimer} (h : Accounting.startTimer r timer=some x) :
    (∃ y,timer=some y ∧ y.urr=x.urr) ∨ x.urr=r := by
  cases timer with
  | none =>
    cases h
    exact .inr rfl
  | some y =>
    cases h
    exact .inl ⟨y,rfl,rfl⟩

theorem validityTimeSetup_madeFor (a : Accounting) : MadeFor r a (a.validityTimeSetup r) := by
  intro k x hx
  cases k with
  | validityTime => exact startTimer_urr hx
  | timeQuota => exact .inl ⟨x,hx,rfl⟩
  | timeThreshold => exact .inl ⟨x,hx,rfl⟩

theorem timeQuotaSetup_madeFor (a : Accounting) : MadeFor r a (a.timeQuotaSetup r) := by
  intro k x hx
  cases k with
  | validityTime => exact .inl ⟨x,hx,rfl⟩
  | timeQuota => exact startTimer_urr hx
  | timeThreshold => exact .inl ⟨x,hx,rfl⟩

theorem timeThresholdSetup_madeFor (a : Accounting) : MadeFor r a (a.timeThresholdSetup r) := by
  intro k x hx
  cases k with
  | validityTime => exact .inl ⟨x,hx,rfl⟩
  | timeQuota => exact .inl ⟨x,hx,rfl⟩
  | timeThreshold => exact startTimer_urr hx

theorem ite_madeFor {a a' : Accounting} {p : Prop} [Decidable p] (h : MadeFor r a a') :
    MadeFor r a (if p then a' else a) := by
  split
  · exact h
  · exact madeFor_of_eq rfl

theorem timersSetup_madeFor (urr : Urr) (now : Int) (a : Accounting) :
    MadeFor r a (a.timersSetup urr r now) := by
  have hstart : MadeFor r a { a with timeStart := timeToNtp32 now } := madeFor_of_eq rfl
  unfold Accounting.timersSetup
  refine MadeFor.trans ?_ (ite_madeFor (timeThresholdSetup_madeFor _))
  refine MadeFor.trans ?_ (ite_madeFor (timeQuotaSetup_madeFor _))
  exact hstart.trans (ite_madeFor (validityTimeSetup_madeFor _))

theorem stop_urr {t : UrrAcc} {k' : TimerKind} (h : (t.stop k').timer k=some x) :
    ∃ y,t.timer k=some y ∧ y.urr=x.urr := by
  have hmap : ∀ {timer : Option AccTimer},
      timer.map (fun y => { y with running := false })=some x →
        ∃ y,timer=some y ∧ y.urr=x.urr := by
    intro timer hx
    obtain ⟨y,hy,rfl⟩ := Option.map_eq_some_iff.mp hx
    exact ⟨y,hy,rfl⟩
  cases k' <;> cases k <;> first | exact hmap h | exact ⟨x,h,rfl⟩

theorem urrId_pred {id : BitVec 32} (h : 0 < id.toNat) : urrId (id.toNat-1)=id := by
  unfold urrId
  rw [Nat.sub_add_cancel h,BitVec.ofNat_toNat,BitVec.setWidth_eq]

theorem Timed.tracked (h : u.Timed) : u.Tracked := by
  intro s i k x hx _
  exact (h.urr s i k x hx).2

theorem Timed.setAcc (h : u.Timed) {a : Accounting}
    (ha : ∀ k x,a.timers.timer k=some x →
      i < maxNumOfUrr ∧ u.urr.find s (urrId i)=some x.urr) : (u.setAcc s i a).Timed where
  ok := h.ok
  urr := by
    intro s' i' k x hx
    by_cases hs : s'=s
    · subst hs
      by_cases hi : i'=i
      · subst hi
        simp only [UrrContext.setAcc,update_self] at hx
        exact ha k x hx
      · simp only [UrrContext.setAcc,update_self,update_of_ne hi] at hx
        exact h.urr s' i' k x hx
    · simp only [UrrContext.setAcc,update_of_ne hs] at hx
      exact h.urr s' i' k x hx

theorem Timed.onAcc (h : u.Timed) {f : Accounting → Accounting} (hf : ∀ a,MadeFor r a (f a))
    (hr : u.urr.find s (u.urr.slot r).id=some r) :
    (u.onAcc s r f).Returns fun v _ => v.Timed ∧ v.urr=u.urr := by
  unfold UrrContext.onAcc
  simp only
  split
  · rename_i hid
    refine ⟨h.setAcc ?_,rfl⟩
    intro k x hx
    refine ⟨by omega,?_⟩
    rcases hf _ k x hx with ⟨y,hy,hyx⟩ | hx
    · exact hyx ▸ (h.urr _ _ _ _ hy).2
    · rw [urrId_pred hid.1,hx]
      exact hr
  · trivial

theorem Timed.timersSetup (h : u.Timed) (hr : u.urr.find s (u.urr.slot r).id=some r)
    (now : Int) : (u.timersSetup s r now).Returns fun v _ => v.Timed ∧ v.urr=u.urr :=
  h.onAcc (timersSetup_madeFor _ now) hr

theorem Timed.report (h : u.Timed) (hr : u.urr.find s (u.urr.slot r).id=some r)
    (fillNow snapshotNow : Int) (sent : Bool) :
    (u.report s r fillNow snapshotNow sent).Returns fun v _ => v.Timed ∧ v.urr=u.urr := by
  have hacc:=h.onAcc (r := r) (s := s) (f := fun acc => (acc.fillUsageReport (u.urr.slot r).body
    (u.urr.slot r).id fillNow).1.snapshot snapshotNow) (fun _ => madeFor_of_eq rfl) hr
  apply hacc.bind
  intro v _ hv
  cases sent with
  | true => exact hv
  | false => trivial

theorem Timed.reportSetup (h : u.Timed) (hr : u.urr.find s (u.urr.slot r).id=some r)
    (fillNow snapshotNow now : Int) (sent : Bool) :
    ((u.report s r fillNow snapshotNow sent).bind fun v _ => v.timersSetup s r now).Returns
      fun v _ => v.Timed ∧ v.urr=u.urr := by
  apply (h.report hr fillNow snapshotNow sent).bind
  intro v _ hv
  have hset:=hv.1.timersSetup (s := s) (r := r) (hv.2 ▸ hr) now
  exact hset.mono fun w _ hw => ⟨hw.1,hw.2.trans hv.2⟩

theorem Timed.expire (h : u.Timed) {now : Nat → Int} {sent : Bool} {o : Outcome UrrContext Unit}
    (ho : u.expire s i k now sent=some o) : o.Returns fun v _ => v.Timed := by
  unfold UrrContext.expire at ho
  split at ho
  · rename_i r hx
    cases ho
    obtain ⟨hi,hfind⟩ := h.urr s i k ⟨r,true⟩ hx
    have hid:=RuleTable.find_id hfind
    have hsess:=h.ok.sess s r (RuleTable.find_mem hfind)
    have hstop:=h.setAcc (s := s) (i := i)
      (a := { u.acc s i with timers := (u.acc s i).timers.stop k }) (by
        intro k' x hx'
        obtain ⟨y,hy,hyx⟩ := stop_urr hx'
        exact ⟨hi,hyx ▸ (h.urr s i k' y hy).2⟩)
    have hr : u.urr.find (u.urr.slot r).sess (u.urr.slot r).id=some r := by
      rw [hsess,hid]
      exact hfind
    unfold UrrContext.timersCb
    simp only
    split
    · exact (hstop.reportSetup hr (now 0) (now 1) (now 2) sent).mono fun v _ hv => hv.1
    · exact (hstop.timersSetup hr (now 2)).mono fun v _ hv => hv.1
  · cases ho

theorem Timed.accAdd (h : u.Timed) (hr : u.urr.find s (u.urr.slot r).id=some r) (p : Packet)
    (now : Nat → Int) (sent : Bool) : (u.accAdd s r p now sent).Returns fun v _ => v.Timed := by
  have hcount:=h.onAcc (s := s) (r := r) (f := Accounting.count p (now 0))
    (fun _ => madeFor_of_eq rfl) hr
  apply hcount.bind
  intro v _ hv
  simp only
  split
  · exact (hv.1.reportSetup (hv.2 ▸ hr) _ _ _ sent).mono fun w _ hw => hw.1
  · exact hv.1

theorem Timed.setUrr (h : u.Timed) {t : RuleTable Urr} (ht : t.Ok)
    (hfind : ∀ s i k x,(u.acc s i).timers.timer k=some x →
      u.urr.find s (urrId i)=some x.urr → t.find s (urrId i)=some x.urr) :
    (u.setUrr t).Timed where
  ok := ht
  urr := by
    intro s i k x hx
    obtain ⟨hi,hr⟩ := h.urr s i k x hx
    exact ⟨hi,hfind s i k x hx hr⟩

theorem Timed.extend (h : u.Timed) {t : RuleTable Urr} (ht : t.Ok) (hext : u.urr.Extends t) :
    (u.setUrr t).Timed :=
  h.setUrr ht fun _ _ _ _ _ hr => hext.find hr

theorem handle_timed (h : u.Timed) (id : UrrIe → Option (BitVec 32))
    (say : UrrIe → Urr → Outcome Urr (Option (Cause × IeType))) (m : Option UrrIe) :
    (handleRule .urrId id say u.urr s m).Returns fun t reply => (u.setUrr t).Timed ∧
      ∀ r,reply = .rule r → t.find s (t.slot r).id=some r := by
  have hok:=h.ok.handleRule .urrId id say s m
  have hext:=RuleTable.handleRule_extends u.urr .urrId id say s m
  cases ho : handleRule .urrId id say u.urr s m with
  | abort t => trivial
  | ok t reply =>
    rw [ho] at hok hext
    exact ⟨h.extend hok.ok hext.1,hext.2⟩

theorem Timed.createUrr (env : Env) (u : UrrContext) (m : Option UrrIe × Int) (h : u.Timed) :
    (u.createUrr env s m).Returns fun v _ => v.Timed := by
  unfold UrrContext.createUrr
  have hhandle : ((handleCreateUrr env u.urr s m.1).mapState u.setUrr).Returns fun v reply =>
      v.Timed ∧ ∀ r,reply = .rule r → v.urr.find s (v.urr.slot r).id=some r :=
    (handle_timed h _ _ m.1).mapState
  apply hhandle.bind
  intro v reply hv
  cases reply with
  | absent => exact hv.1
  | rejected cause ie => exact hv.1
  | rule r =>
    simp only
    split
    · apply (hv.1.timersSetup (hv.2 r rfl) m.2).bind
      intro w _ hw
      exact hw.1
    · exact hv.1

theorem Timed.ne_of_untimed (h : u.Timed) (hr : r∈u.urr.list s)
    (hno : ¬ u.HasTimers s (u.urr.slot r).id) {s' : Nat}
    (hx : (u.acc s' i).timers.timer k=some x) : x.urr≠r := by
  intro he
  obtain ⟨hi,hfind⟩ := h.urr s' i k x hx
  rw [he] at hfind
  have hs : s'=s :=
    (h.ok.sess s' r (RuleTable.find_mem hfind)).symm.trans (h.ok.sess s r hr)
  have hid : (u.urr.slot r).id.toNat=i+1 := by
    rw [RuleTable.find_id hfind]
    unfold urrId maxNumOfUrr at *
    rw [BitVec.toNat_ofNat]
    omega
  apply hno
  refine ⟨by omega,?_⟩
  rw [hid,Nat.add_sub_cancel,← hs]
  intro hzero
  rw [hzero] at hx
  cases k <;> cases hx

theorem Timed.urrRemoveAll (h : u.Timed)
    (hno : ∀ r∈u.urr.list s,¬ u.HasTimers s (u.urr.slot r).id) : (u.urrRemoveAll s).Timed := by
  obtain ⟨hok,hkeep⟩ := h.ok.removeAll (h.ok.nodup s) fun r hr => hr
  apply h.setUrr hok
  intro s' i k x hx hfind
  apply hkeep s' _ _ _ hfind
  intro hmem
  exact h.ne_of_untimed hmem (hno _ hmem) hx rfl

theorem Timed.removeUrr (h : u.Timed) (m : Option (Option (BitVec 32)))
    (hc : u.KeepsTimed (.removeUrr s m)) : (u.setUrr (handleRemoveUrr u.urr s m).1).Timed := by
  have hsame : (u.setUrr u.urr).Timed := h
  rcases m with - | - | id
  · exact hsame
  · exact hsame
  · unfold handleRemoveUrr handleRemoveRule
    simp only
    cases hfind : u.urr.find s id with
    | none => exact hsame
    | some r =>
      have hr:=RuleTable.find_mem hfind
      have hno : ¬ u.HasTimers s (u.urr.slot r).id := by
        rw [RuleTable.find_id hfind]
        exact hc (by rw [hfind]; rfl)
      apply h.setUrr (h.ok.remove hr).1
      intro s' i k x hx hfind'
      exact RuleTable.find_remove (Ne.symm (h.ne_of_untimed hr hno hx)) hfind'

theorem Timed.accRemoveAll (h : u.Timed) (s : Nat) : (u.accRemoveAll s).Timed where
  ok := h.ok
  urr := by
    intro s' i k x hx
    by_cases hs : s'=s
    · simp only [UrrContext.accRemoveAll,hs,update_self] at hx
      cases k <;> cases hx
    · simp only [UrrContext.accRemoveAll,update_of_ne hs] at hx
      exact h.urr s' i k x hx

theorem Timed.sessRemove (h : u.Timed) (s : Nat) : (u.sessRemove s).Timed := by
  have hno : ∀ r ∈ (u.accRemoveAll s).urr.list s,
      ¬ (u.accRemoveAll s).HasTimers s ((u.accRemoveAll s).urr.slot r).id := by
    intro r _ hhas
    apply hhas.2
    simp only [UrrContext.accRemoveAll,update_self]
  have hremove:=(h.accRemoveAll s).urrRemoveAll hno
  exact ⟨hremove.ok,hremove.urr⟩

theorem Timed.sessAdd (h : u.Timed) (s : Nat) : (u.sessAdd s).Timed where
  ok := by
    obtain ⟨q,live,hsplit,hlive⟩ := h.ok.split
    have hsub : ∀ s',∀ r∈(u.sessAdd s).urr.list s',r∈u.urr.list s' := by
      intro s' r hr
      by_cases hs : s'=s
      · simp only [UrrContext.sessAdd,hs,update_self] at hr
        cases hr
      · simpa only [UrrContext.sessAdd,update_of_ne hs] using hr
    refine ⟨⟨q,live,hsplit,fun s' r hr => hlive s' r (hsub s' r hr)⟩,?_,?_⟩
    · intro s'
      by_cases hs : s'=s
      · simp only [UrrContext.sessAdd,hs,update_self]
        exact List.nodup_nil
      · simp only [UrrContext.sessAdd,update_of_ne hs]
        exact h.ok.nodup s'
    · intro s' r hr
      exact h.ok.sess s' r (hsub s' r hr)
  urr := by
    intro s' i k x hx
    by_cases hs : s'=s
    · simp only [UrrContext.sessAdd,hs,update_self] at hx
      cases k <;> cases hx
    · simp only [UrrContext.sessAdd,update_of_ne hs] at hx
      unfold RuleTable.find
      simp only [UrrContext.sessAdd,update_of_ne hs]
      exact h.urr s' i k x hx

theorem unit_returns {ρ : Type} {o : Outcome UrrContext ρ} {P : UrrContext → Prop}
    (h : o.Returns fun v _ => P v) : (unit o).Returns fun v _ => P v :=
  h.bind fun _ _ hv => hv

theorem within_some {o o' : Outcome UrrContext Unit} (h : u.within s o=some o') : o=o' := by
  unfold within at h
  split at h
  · exact Option.some.inj h
  · cases h

theorem Timed.step (h : u.Timed) {op : UrrOp} (hc : u.KeepsTimed op)
    {o : Outcome UrrContext Unit} (ho : u.step op=some o) : o.Returns fun v _ => v.Timed := by
  cases op with
  | sessAdd s =>
    simp only [UrrContext.step] at ho
    split at ho
    · cases ho
    · cases ho
      exact h.sessAdd s
  | sessRemove s =>
    rw [← within_some ho]
    exact h.sessRemove s
  | urrFindOrAdd s id =>
    rw [← within_some ho]
    apply unit_returns
    apply Outcome.Returns.mapState
    have hok:=h.ok.findOrAdd urrKind s id
    have hext:=h.ok.findOrAdd_extends urrKind s id
    unfold Pfcp.urrFindOrAdd
    cases hadd : RuleTable.findOrAdd urrKind u.urr s id with
    | abort t => trivial
    | ok t r =>
      rw [hadd] at hok hext
      exact h.extend hok.1.ok hext
  | createUrr env s ms =>
    rw [← within_some ho]
    exact unit_returns (each_returns (fun v m hv => Timed.createUrr env v m hv) h ms)
  | updateUrr env s m =>
    rw [← within_some ho]
    exact unit_returns ((handle_timed h _ _ m).mono fun _ _ hv => hv.1).mapState
  | removeUrr s m =>
    rw [← within_some ho]
    exact h.removeUrr m hc
  | sessClear s =>
    rw [← within_some ho]
    exact h.urrRemoveAll hc
  | expire s i k now sent => exact h.expire ho
  | packet s r p now sent =>
    rw [← within_some ho]
    exact h.accAdd hc p now sent

theorem timed_init (poolSess : Nat) : (init poolSess).Timed where
  ok := RuleTable.Ok.init urrKind poolSess
  urr := by
    intro s i k x hx
    cases k <;> cases hx

/-- In a run that removes no URR with timers, the timers that run are for the URRs there are. -/
theorem timers_tracked (poolSess : Nat) (ops : List UrrOp)
    (hops : EachStep step KeepsTimed (init poolSess) ops) :
    ∀ u∈completed step (init poolSess) ops,u.Tracked := by
  have hstep : ∀ (u : UrrContext) op v r,u.Timed → u.KeepsTimed op → u.step op=some (.ok v r) → v.Timed := by
    intro u op v r h hc ho
    exact h.step hc ho
  intro u hu
  exact (completed_inv hstep (timed_init poolSess) hops u hu).tracked

def createUrr1 : UrrIe where
  urrId := some 1
  measurementMethod := some 1
  reportingTriggers := some 0x040000
  measurementPeriod := none
  volumeThreshold := none
  volumeQuota := none
  eventThreshold := none
  eventQuota := none
  timeThreshold := some 60
  timeQuota := none
  quotaHoldingTime := none
  droppedDlTrafficThreshold := none
  quotaValidityTime := none
  measurementInformation := some [8]

def timedRun : List UrrOp :=
  [.sessAdd 0,.urrFindOrAdd 0 1,.urrFindOrAdd 0 2,.createUrr env0 0 [(some createUrr1,0)],
    .expire 0 0 .timeThreshold (fun _ => 0) true,.removeUrr 0 (some (some 2)),.sessRemove 0]

theorem timers_tracked_timed :
    (completed step (init 1) timedRun).length=8 ∧
      ∀ u∈completed step (init 1) timedRun,u.Tracked :=
  ⟨by decide,timers_tracked 1 timedRun (by decide)⟩

def recreatedRun : List UrrOp :=
  [.sessAdd 0,.urrFindOrAdd 0 1,.createUrr env0 0 [(some createUrr1,0)],
    .removeUrr 0 (some (some 1)),.urrFindOrAdd 0 1,.createUrr env0 0 [(some createUrr1,0)]]

/-- The timer runs on without its URR, and then for a URR of that id which is another one. -/
theorem timer_outlives_urr :
    (∃ u ∈ completed step (init 1) recreatedRun,
      (u.acc 0 0).timers.timer .timeThreshold=some ⟨0,true⟩ ∧ u.urr.find 0 1=none) ∧
      (∃ u ∈ completed step (init 1) recreatedRun,
        (u.acc 0 0).timers.timer .timeThreshold=some ⟨0,true⟩ ∧ u.urr.find 0 1=some 1) ∧
      ¬ ∀ u∈completed step (init 1) recreatedRun,u.Tracked := by
  have hremoved : ∃ u ∈ completed step (init 1) recreatedRun,
      (u.acc 0 0).timers.timer .timeThreshold=some ⟨0,true⟩ ∧ u.urr.find 0 1=none := by
    decide
  refine ⟨hremoved,by decide,?_⟩
  intro htracked
  obtain ⟨u,hu,htimer,hfind⟩ := hremoved
  have hlive:=htracked u hu 0 0 .timeThreshold ⟨0,true⟩ htimer rfl
  have hid : urrId 0=1 := rfl
  rw [hid,hfind] at hlive
  cases hlive

end UrrContext

end OgsDp.Upf
