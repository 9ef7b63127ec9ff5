import OgsDp.Pfcp.RuleBuild

/-!
# Updates of URRs and QERs (lib/pfcp/build.c and handler.c)

The control plane changes a rule and says so; the user plane, which had the rule as it was, makes
the change.
-/

namespace OgsDp.Pfcp
open Lib OgsDp.Core Function

namespace Urr

/-- The URRs agree in what an Update URR changes; volumes, in what their flags say. -/
structure Agree (x y : Urr) : Prop where
  measMethod : x.measMethod=y.measMethod
  repTriggers : x.repTriggers=y.repTriggers
  volThreshold : x.volThreshold.sent=y.volThreshold.sent
  volQuota : x.volQuota.sent=y.volQuota.sent
  timeThreshold : x.timeThreshold=y.timeThreshold
  timeQuota : x.timeQuota=y.timeQuota
  quotaValidityTime : x.quotaValidityTime=y.quotaValidityTime

structure Marked (f : UrrFlags) (x y : Urr) : Prop where
  measMethod : f.measMethod=false → x.measMethod=y.measMethod
  repTriggers : f.reportTrigger=false → x.repTriggers=y.repTriggers
  volThreshold : f.volumeThresh=false → x.volThreshold.sent=y.volThreshold.sent
  volQuota : f.volumeQuota=false → x.volQuota.sent=y.volQuota.sent
  timeThreshold : f.timeThresh=false → x.timeThreshold=y.timeThreshold
  timeQuota : f.timeQuota=false → x.timeQuota=y.timeQuota
  quotaValidityTime : f.quotaValidityTime=false → x.quotaValidityTime=y.quotaValidityTime

/-- The change from `x` to `y` can be told: the triggers are the same in both orders, and what is
marked is not zero and is measured, or did not change. -/
structure Told (f : UrrFlags) (x y : Urr) : Prop where
  repTriggers : f.reportTrigger → y.repTriggers.1=y.repTriggers.2.2
  volThreshold : f.volumeThresh → y.volThreshold.flags≠0 ∧ measuresVolume y ∨
    x.volThreshold.sent=y.volThreshold.sent
  volQuota : f.volumeQuota → y.volQuota.flags≠0 ∧ measuresVolume y ∨
    x.volQuota.sent=y.volQuota.sent
  timeThreshold : f.timeThresh → y.timeThreshold≠0 ∧ measuresDuration y ∨
    x.timeThreshold=y.timeThreshold
  timeQuota : f.timeQuota → y.timeQuota≠0 ∧ measuresDuration y ∨ x.timeQuota=y.timeQuota
  quotaValidityTime : f.quotaValidityTime → y.quotaValidityTime≠0 ∨
    x.quotaValidityTime=y.quotaValidityTime

def updated (f : UrrFlags) (y u : Urr) : Urr :=
  let method := if f.measMethod then y.measMethod else u.measMethod
  let volume:=method.val.testBit 1
  let duration:=method.val.testBit 0
  { u with
    measMethod := method
    repTriggers := if f.reportTrigger then (y.repTriggers.2.2,y.repTriggers.2.1,y.repTriggers.1)
      else u.repTriggers
    volThreshold := if f.volumeThresh ∧ y.volThreshold.flags≠0 ∧ volume then y.volThreshold.sent
      else u.volThreshold
    volQuota := if f.volumeQuota ∧ y.volQuota.flags≠0 ∧ volume then y.volQuota.sent
      else u.volQuota
    timeThreshold := if duration ∧ f.timeThresh ∧ y.timeThreshold≠0 then y.timeThreshold
      else u.timeThreshold
    timeQuota := if duration ∧ f.timeQuota ∧ y.timeQuota≠0 then y.timeQuota else u.timeQuota
    quotaValidityTime := if f.quotaValidityTime ∧ y.quotaValidityTime≠0 then y.quotaValidityTime
      else u.quotaValidityTime }

end Urr

section UpdateUrr

variable {x y u : Urr} {f : UrrFlags}

theorem handleUpdateUrr_built {t : RuleTable Urr} {s r : Nat} {id : BitVec 32} (env : Env)
    (hfind : t.find s id=some r) (flags : BitVec 64) (hbody : (t.slot r).body=u) :
    ∃ t' reply,handleUpdateUrr env t s (buildUpdateUrr id y flags) = .ok t' reply ∧
      (t'.slot r).body=Urr.updated (urrFlags flags) y u := by
  unfold buildUpdateUrr
  dsimp only
  cases hany : (urrFlags flags).any with
  | false =>
    have hnone : (urrFlags flags).measMethod=false ∧ (urrFlags flags).reportTrigger=false ∧
        (urrFlags flags).volumeThresh=false ∧ (urrFlags flags).volumeQuota=false ∧
          (urrFlags flags).timeThresh=false ∧ (urrFlags flags).timeQuota=false ∧
            (urrFlags flags).quotaValidityTime=false := by
      simpa [UrrFlags.any,and_assoc] using hany
    obtain ⟨h1,h2,h3,h4,h5,h6,h7⟩ := hnone
    refine ⟨t,.absent,rfl,?_⟩
    rw [hbody]
    simp only [Urr.updated,h1,h2,h3,h4,h5,h6,h7,Bool.false_eq_true,if_false,false_and,
      and_false]
  | true =>
    rw [if_pos rfl]
    have hdropped : (none : Option (List Byte)) =
        if false then droppedDlTrafficThresholdIe ⟨0,0,0⟩ else none := rfl
    simp only [handleUpdateUrr,handleRule,knownRule,hfind,hbody]
    rw [sayUrr_built _ _ _ rfl rfl hdropped]
    refine ⟨_,_,rfl,?_⟩
    simp only [RuleTable.say,RuleTable.modify,update_self,Urr.updated,getD_ite,
      triggers_elim,nonzero_getD,measuresVolume,measuresDuration,Option.getD_none,ite_self,
      ← ite_and]
    rfl

theorem arrives_iff {α : Type} {flag : Bool} {p c : Prop} [Decidable c] {v w w' : α}
    (heq : w=w') (hmarked : flag=false → w=v) (hcond : c ↔ flag ∧ p) :
    (if c then v else w')=v ↔ (flag → p ∨ w=v) := by
  subst heq
  by_cases hc : c
  · rw [if_pos hc]
    exact ⟨fun _ _ => .inl (hcond.1 hc).2,fun _ => rfl⟩
  · rw [if_neg hc]
    constructor
    · exact fun hw _ => .inr hw
    · intro htold
      cases flag with
      | false => exact hmarked rfl
      | true => exact (htold rfl).resolve_left fun hp => hc (hcond.2 ⟨rfl,hp⟩)

theorem triggers_swap_eq {t : Byte × Byte × Byte} :
    (t.2.2,t.2.1,t.1)=t ↔ t.1=t.2.2 := by
  obtain ⟨a,b,c⟩ := t
  simp only [Prod.mk.injEq,true_and]
  exact ⟨fun h => h.2,fun h => ⟨h.symm,h⟩⟩

theorem Urr.updated_measMethod (hagree : x.Agree u) (hmarked : Marked f x y) :
    (Urr.updated f y u).measMethod=y.measMethod := by
  change (if f.measMethod then y.measMethod else u.measMethod)=y.measMethod
  cases hflag : f.measMethod with
  | true => rfl
  | false => exact hagree.measMethod.symm.trans (hmarked.measMethod hflag)

theorem Urr.updated_agree_iff (hagree : x.Agree u) (hmarked : Marked f x y) :
    (Urr.updated f y u).Agree y ↔ Told f x y := by
  have hmethod:=Urr.updated_measMethod hagree hmarked
  have htriggers : (Urr.updated f y u).repTriggers=y.repTriggers ↔
      (f.reportTrigger → y.repTriggers.1=y.repTriggers.2.2) := by
    change (if f.reportTrigger then _ else u.repTriggers)=y.repTriggers ↔ _
    cases hflag : f.reportTrigger with
    | true => simpa using triggers_swap_eq
    | false => simpa using hagree.repTriggers.symm.trans (hmarked.repTriggers hflag)
  have hvolume : ∀ {flag : Bool} {v w w' : Volume}, w.sent=w'.sent →
      (flag=false → w.sent=v.sent) →
        ((if flag ∧ v.flags≠0 ∧ (Urr.updated f y u).measMethod.val.testBit 1 then v.sent
          else w').sent=v.sent ↔ (flag → v.flags≠0 ∧ measuresVolume y ∨ w.sent=v.sent)) := by
    intro flag v w w' heq hunmarked
    rw [hmethod,apply_ite Volume.sent,Volume.sent_sent]
    exact arrives_iff heq hunmarked Iff.rfl
  have hduration : ∀ {flag : Bool} {v w w' : BitVec 32}, w=w' → (flag=false → w=v) →
      ((if (Urr.updated f y u).measMethod.val.testBit 0 ∧ flag ∧ v≠0 then v else w')=v ↔
        (flag → v≠0 ∧ measuresDuration y ∨ w=v)) := by
    intro flag v w w' heq hunmarked
    rw [hmethod]
    exact arrives_iff heq hunmarked
      ⟨fun h => ⟨h.2.1,h.2.2,h.1⟩,fun h => ⟨h.2.2,h.1,h.2.1⟩⟩
  have hvolThreshold:=hvolume hagree.volThreshold hmarked.volThreshold
  have hvolQuota:=hvolume hagree.volQuota hmarked.volQuota
  have htimeThreshold:=hduration hagree.timeThreshold hmarked.timeThreshold
  have htimeQuota:=hduration hagree.timeQuota hmarked.timeQuota
  have hvalidity:=arrives_iff (p := y.quotaValidityTime≠0) hagree.quotaValidityTime
    hmarked.quotaValidityTime Iff.rfl
  constructor
  · intro h
    exact ⟨htriggers.1 h.repTriggers,hvolThreshold.1 h.volThreshold,hvolQuota.1 h.volQuota,
      htimeThreshold.1 h.timeThreshold,htimeQuota.1 h.timeQuota,hvalidity.1 h.quotaValidityTime⟩
  · intro h
    exact ⟨hmethod,htriggers.2 h.repTriggers,hvolThreshold.2 h.volThreshold,
      hvolQuota.2 h.volQuota,htimeThreshold.2 h.timeThreshold,htimeQuota.2 h.timeQuota,
      hvalidity.2 h.quotaValidityTime⟩

end UpdateUrr

namespace Bitrate

def Whole (b : Bitrate) : Prop :=
  (b.uplink.toNat % 1000=0 ∧ b.uplink.toNat / 1000<2^40) ∧
    b.downlink.toNat % 1000=0 ∧ b.downlink.toNat / 1000<2^40

/-- The change from `a` to `b` can be told. -/
structure Told (a b : Bitrate) : Prop where
  whole : b.Whole
  zero : b=zero → a=zero

def carried (b : Bitrate) : Bitrate :=
  ⟨BitVec.ofNat 64 (kbps b.uplink % 2^40)*1000,
    BitVec.ofNat 64 (kbps b.downlink % 2^40)*1000⟩

end Bitrate

theorem kbps_carried_iff {r : BitVec 64} :
    BitVec.ofNat 64 (kbps r % 2^40)*1000=r ↔ r.toNat % 1000=0 ∧ r.toNat / 1000<2^40 := by
  have hlt : kbps r % 2^40<2^40 := Nat.mod_lt _ (by decide)
  have hvalue : (BitVec.ofNat 64 (kbps r % 2^40)*1000).toNat=kbps r % 2^40*1000 := by
    have hthousand : (1000 : BitVec 64).toNat=1000 := rfl
    rw [BitVec.toNat_mul,BitVec.toNat_ofNat,hthousand]
    omega
  rw [← BitVec.toNat_inj,hvalue]
  unfold kbps
  split <;> omega

theorem Bitrate.carried_eq_iff {b : Bitrate} : b.carried=b ↔ b.Whole := by
  obtain ⟨up,down⟩ := b
  simp only [carried,mk.injEq]
  exact and_congr kbps_carried_iff kbps_carried_iff

theorem bitrateIe_cases (b : Bitrate) :
    bitrateIe b=none ∧ b = .zero ∨ bitrateIe b=some (buildBitrate b) ∧ b ≠ .zero := by
  obtain ⟨up,down⟩ := b
  by_cases hb : up≠0 ∨ down≠0
  · refine .inr ⟨if_pos hb,fun hzero => ?_⟩
    cases hzero
    exact hb.elim (fun h => h rfl) fun h => h rfl
  · refine .inl ⟨if_neg hb,?_⟩
    simp only [ne_eq,not_or,not_not] at hb
    rw [hb.1,hb.2]
    rfl

theorem Bitrate.arrives_iff {a b : Bitrate} :
    (if b=zero then a else b.carried)=b ↔ Told a b := by
  by_cases hb : b=zero
  · rw [if_pos hb]
    constructor
    · rintro rfl
      exact ⟨by rw [hb]; exact ⟨by decide,by decide⟩,fun _ => hb⟩
    · exact fun htold => (htold.zero hb).trans hb.symm
  · rw [if_neg hb,carried_eq_iff]
    exact ⟨fun hwhole => ⟨hwhole,fun hzero => absurd hzero hb⟩,fun htold => htold.whole⟩

theorem handleUpdateQer_built {t : RuleTable Qer} {s r : Nat} {id : BitVec 32} {y u : Qer}
    (hfind : t.find s id=some r) (hbody : (t.slot r).body=u) :
    ∃ t' reply,handleUpdateQer t s (some (buildUpdateQer id y)) = .ok t' reply ∧
      (t'.slot r).body = { u with
        mbr := if y.mbr = .zero then u.mbr else y.mbr.carried
        gbr := if y.gbr = .zero then u.gbr else y.gbr.carried } := by
  simp only [handleUpdateQer,handleRule,knownRule,buildUpdateQer,hfind,hbody]
  unfold sayBitrates
  rcases bitrateIe_cases y.mbr with ⟨hmbr,hmzero⟩ | ⟨hmbr,hmzero⟩
  all_goals
    rcases bitrateIe_cases y.gbr with ⟨hgbr,hgzero⟩ | ⟨hgbr,hgzero⟩
    all_goals
      simp only [hmbr,hgbr,parseBitrate_build]
      refine ⟨_,_,rfl,?_⟩
      simp [RuleTable.say,RuleTable.modify,update_self,hmzero,hgzero,Bitrate.carried]

/-- The QERs agree in what an Update QER changes. -/
structure Qer.Agree (x y : Qer) : Prop where
  mbr : x.mbr=y.mbr
  gbr : x.gbr=y.gbr

/-- After an Update URR the user plane has the URR of the control plane exactly if the change could
be told, and so for QERs. -/
theorem updates_transfer (env : Env) (id : BitVec 32) (s r : Nat) :
    (∀ (t : RuleTable Urr) (x y : Urr) (modifyFlags : BitVec 64),t.find s id=some r →
      x.Agree (t.slot r).body → Urr.Marked (urrFlags modifyFlags) x y →
        ∃ t' reply,handleUpdateUrr env t s (buildUpdateUrr id y modifyFlags) = .ok t' reply ∧
          ((t'.slot r).body.Agree y ↔ Urr.Told (urrFlags modifyFlags) x y)) ∧
      ∀ (t : RuleTable Qer) (x y : Qer),t.find s id=some r → x.Agree (t.slot r).body →
        ∃ t' reply,handleUpdateQer t s (some (buildUpdateQer id y)) = .ok t' reply ∧
          ((t'.slot r).body.Agree y ↔ x.mbr.Told y.mbr ∧ x.gbr.Told y.gbr) := by
  constructor
  · intro t x y modifyFlags hfind hagree hmarked
    obtain ⟨t',reply,hrun,hbody⟩ := handleUpdateUrr_built (y := y) env hfind modifyFlags rfl
    refine ⟨t',reply,hrun,?_⟩
    rw [hbody]
    exact Urr.updated_agree_iff hagree hmarked
  · intro t x y hfind hagree
    obtain ⟨t',reply,hrun,hbody⟩ := handleUpdateQer_built (y := y) hfind rfl
    refine ⟨t',reply,hrun,?_⟩
    rw [hbody,← hagree.mbr,← hagree.gbr]
    constructor
    · exact fun h => ⟨Bitrate.arrives_iff.1 h.mbr,Bitrate.arrives_iff.1 h.gbr⟩
    · exact fun h => ⟨Bitrate.arrives_iff.2 h.1,Bitrate.arrives_iff.2 h.2⟩

def oneRule {α : Type} (kind : RuleKind α) (body : α) : RuleTable α :=
  ((RuleTable.init kind 1).findOrAdd kind 0 1).state.say 0 body

def compiledEnv : Env := ⟨false,none,none,none,true,0,.zero⟩

def timedUrr : Urr := { Urr.zero with measMethod := 1,timeThreshold := 10 }

theorem updates_transfer_time :
    ∃ t' reply,handleUpdateUrr compiledEnv (oneRule urrKind timedUrr) 0
        (buildUpdateUrr 1 { timedUrr with timeThreshold := 20 } (2^33)) = .ok t' reply ∧
      ((t'.slot 0).body.Agree { timedUrr with timeThreshold := 20 } ↔
        Urr.Told (urrFlags (2^33)) timedUrr { timedUrr with timeThreshold := 20 }) := by
  have hflags : urrFlags (2^33)=⟨false,false,false,false,false,false,true⟩ := rfl
  have hmarked : Urr.Marked (urrFlags (2^33)) timedUrr { timedUrr with timeThreshold := 20 } := by
    rw [hflags]
    exact ⟨fun _ => rfl,fun _ => rfl,fun _ => rfl,fun _ => rfl,nofun,fun _ => rfl,
      fun _ => rfl⟩
  exact (updates_transfer compiledEnv 1 0 0).1 (oneRule urrKind timedUrr) timedUrr _ (2^33) rfl
    ⟨rfl,rfl,rfl,rfl,rfl,rfl,rfl⟩ hmarked

/-- A threshold and a bit rate that are taken away stay, and triggers arrive in the other order. -/
theorem updates_lost :
    (∃ t' reply,handleUpdateUrr compiledEnv (oneRule urrKind timedUrr) 0
        (buildUpdateUrr 1 { timedUrr with timeThreshold := 0 } (2^33)) = .ok t' reply ∧
      (t'.slot 0).body.timeThreshold=10) ∧
    (∃ t' reply,handleUpdateUrr compiledEnv (oneRule urrKind timedUrr) 0
        (buildUpdateUrr 1 { timedUrr with repTriggers := (2,0,1) } (2^28)) = .ok t' reply ∧
      (t'.slot 0).body.repTriggers=(1,0,2)) ∧
    ∃ t' reply,handleUpdateQer (oneRule qerKind { Qer.zero with mbr := ⟨1000,1000⟩ }) 0
        (some (buildUpdateQer 1 Qer.zero)) = .ok t' reply ∧
      (t'.slot 0).body.mbr=⟨1000,1000⟩ :=
  ⟨⟨_,_,rfl,rfl⟩,⟨_,_,rfl,rfl⟩,⟨_,_,rfl,rfl⟩⟩

end OgsDp.Pfcp
