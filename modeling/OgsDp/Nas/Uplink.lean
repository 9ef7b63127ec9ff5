import OgsDp.Nas.UlCount

/-!
# Uplink messages (src/amf/nas-security.c, src/mme/nas-security.c)

A decoder moves the COUNT on by what the message carries and looks at the MAC afterwards; what it
finds there does not take the COUNT back.
-/

namespace OgsDp.Nas
open Lib OgsDp.Core

structure Pdu where
  type : SecurityHeaderType
  pkbuf : Pkbuf
  deriving DecidableEq

inductive Decoder where
  | nas5gs (accessType : Byte)
  | eps

namespace Decoder

def decode (x : Crypto) (d : Decoder) (ue : Ue) (p : Pdu) : Outcome Ue (Status × Pkbuf) :=
  match d with
  | .nas5gs accessType => Amf.nas5gsSecurityDecode x accessType ue p.type p.pkbuf
  | .eps => Mme.nasEpsSecurityDecode x ue p.type p.pkbuf

end Decoder

namespace Ue

def deciphers (ue : Ue) (p : Pdu) : Bool :=
  ue.securityContextAvailable && p.type.ciphered && ue.selectedEncAlgorithm != 0

def checksHeader (ue : Ue) (p : Pdu) : Bool :=
  ue.securityContextAvailable && p.type.integrityProtected && ue.selectedIntAlgorithm != 0

def restarted (ue : Ue) (p : Pdu) : Bool :=
  ue.securityContextAvailable && p.type.newSecurityContext

def headerReading (ue : Ue) (p : Pdu) : Reading :=
  if ue.deciphers p || ue.checksHeader p then
    .full (ue.restarted p) (BitVec.ofNat 8 (p.pkbuf.headroom.getLastD 0).val)
  else if ue.restarted p then .restart else .idle

end Ue

namespace Decoder

def reading (d : Decoder) (ue : Ue) (p : Pdu) : Reading :=
  match d with
  | .nas5gs _ => ue.headerReading p
  | .eps =>
    if p.type.serviceRequest then
      if ue.selectedIntAlgorithm=0 then .idle else .short (Mme.sequenceNumber p.pkbuf)
    else ue.headerReading p

end Decoder

def Counts (ue : Ue) (r : Reading) (ue' : Ue) : Prop :=
  ue' = { ue with macFailed := ue'.macFailed,ulCount := ue.ulCount.read r }

theorem asserting_returns {σ α : Type} {s : σ} {o : Option α} :
    (asserting s o).Returns fun t a => t=s ∧ o=some a := by
  cases o with
  | none => trivial
  | some a => exact ⟨rfl,rfl⟩

theorem verifyMac_returns (x : Crypto) (bearer : Byte) (ue : Ue) (originalMac : List Byte)
    (pkbuf : Pkbuf) : (verifyMac x bearer ue originalMac pkbuf).Returns fun ue' _ =>
      ue' = { ue with macFailed := ue'.macFailed } ∧ (ue'.macFailed=false →
        (macCalculate x ue.selectedIntAlgorithm ue.knasInt ue.ulCount.i32 bearer .uplink pkbuf
          (Vector.replicate 4 0)).map (fun r => r.1.toList)=some originalMac) := by
  unfold verifyMac
  apply asserting_returns.bind
  intro t r ⟨ht,hr⟩
  rw [ht]
  refine ⟨rfl,?_⟩
  intro hok
  have hmac : originalMac=r.1.toList := by
    simp only [Bool.or_eq_false_iff,bne_eq_false_iff_eq] at hok
    exact hok.2
  rw [hr,hmac]
  rfl

theorem push_byteAt {b h : Pkbuf} {len : Nat} (hlen : 0<len) (hpush : b.push len=some h) :
    h.byteAt (len-1)=b.headroom.getLastD 0 := by
  unfold Pkbuf.push at hpush
  simp only at hpush
  split at hpush
  · rename_i hle
    obtain rfl := Option.some.inj hpush
    unfold Pkbuf.byteAt
    have hsize : (b.headroom.drop (b.headroom.length-len)).length=len := by
      rw [List.length_drop]
      omega
    simp only [List.append_assoc]
    rw [List.getElem?_append_left (by omega),List.getElem?_drop,List.getLastD_eq_getLast?,
      List.getLast?_eq_getElem?]
    congr 2
    omega
  · cases hpush

def headerMac (x : Crypto) (headerLen : Nat) (bearer : Byte) (ue : Ue) (p : Pdu)
    (count : BitVec 32) : Option (List Byte) :=
  (p.pkbuf.push headerLen).bind fun h =>
    (h.pull (headerLen-1)).bind fun b =>
      (macCalculate x ue.selectedIntAlgorithm ue.knasInt count bearer .uplink b
        (Vector.replicate 4 0)).map fun r => r.1.toList

def carriedMac (headerLen : Nat) (p : Pdu) : Option (List Byte) :=
  (p.pkbuf.push headerLen).map fun h => (h.data.drop (headerLen-5)).take 4

theorem securityDecode_returns (x : Crypto) {headerLen : Nat} (hlen : 0<headerLen) (bearer : Byte)
    (ue : Ue) (p : Pdu) : (securityDecode x headerLen bearer ue p.type p.pkbuf).Returns
      fun ue' _ => Counts ue (ue.headerReading p) ue' ∧
        (ue.checksHeader p=true → ue'.macFailed=false →
          headerMac x headerLen bearer ue p ue'.ulCount.i32=carriedMac headerLen p) := by
  unfold securityDecode
  simp only
  generalize hstart : (if (ue.securityContextAvailable && p.type.newSecurityContext)=true then
    { ue with ulCount := .zero } else ue)=u
  have hu : u = { ue with ulCount := if ue.restarted p then .zero else ue.ulCount } := by
    rw [← hstart]
    unfold Ue.restarted
    split <;> rfl
  have henc : u.selectedEncAlgorithm=ue.selectedEncAlgorithm := by rw [hu]
  have hint : u.selectedIntAlgorithm=ue.selectedIntAlgorithm := by rw [hu]
  have hknas : u.knasInt=ue.knasInt := by rw [hu]
  rw [henc,hint]
  split
  · rename_i hprotected
    have hreading : ue.headerReading p = .full (ue.restarted p)
        (BitVec.ofNat 8 (p.pkbuf.headroom.getLastD 0).val) := if_pos hprotected
    apply asserting_returns.bind
    intro t h ⟨ht,hpush⟩
    apply asserting_returns.bind
    intro t' b ⟨ht',hpull⟩
    rw [ht',ht,push_byteAt hlen hpush]
    generalize BitVec.ofNat 8 (p.pkbuf.headroom.getLastD 0).val=sqn at hreading ⊢
    generalize hw : ({ u with ulCount := u.ulCount.estimate sqn } : Ue)=w
    have hcounts : ∀ t : Ue, t = { w with macFailed := t.macFailed } →
        Counts ue (ue.headerReading p) t := by
      intro t ht
      unfold Counts
      rw [hreading]
      rw [ht,← hw,hu]
      cases ue.restarted p <;> rfl
    have hverified : Outcome.Returns (fun t _ => t = { w with macFailed := t.macFailed } ∧
        (ue.checksHeader p=true → t.macFailed=false →
          headerMac x headerLen bearer ue p w.ulCount.i32=carriedMac headerLen p))
        (if (ue.securityContextAvailable && p.type.integrityProtected &&
          ue.selectedIntAlgorithm != 0)=true then
            verifyMac x bearer w ((h.data.drop (headerLen-5)).take 4) b else .ok w b) := by
      split
      · apply (verifyMac_returns ..).mono
        intro t _ ⟨ht,hmac⟩
        refine ⟨ht,fun _ hok => ?_⟩
        unfold headerMac carriedMac
        rw [hpush,Option.bind_some,hpull,Option.bind_some,Option.map_some,← hint,← hknas]
        rw [← hw] at hmac ⊢
        exact hmac hok
      · rename_i hunchecked
        exact ⟨rfl,fun hchecks => absurd hchecks hunchecked⟩
    apply hverified.bind
    intro t b' ⟨hkept,hmac⟩
    have hend : Counts ue (ue.headerReading p) t ∧ (ue.checksHeader p=true →
        t.macFailed=false →
          headerMac x headerLen bearer ue p t.ulCount.i32=carriedMac headerLen p) := by
      refine ⟨hcounts t hkept,?_⟩
      have hcount : t.ulCount=w.ulCount := by rw [hkept]
      rw [hcount]
      exact hmac
    apply asserting_returns.bind
    intro t₁ b₁ ⟨ht₁,_⟩
    rw [ht₁]
    split
    · split
      · exact hend
      · apply asserting_returns.bind
        intro t₂ b₂ ⟨ht₂,_⟩
        rw [ht₂]
        exact hend
    · exact hend
  · rename_i hplain
    have hreading : ue.headerReading p = if ue.restarted p then .restart else .idle :=
      if_neg hplain
    refine ⟨?_,?_⟩
    · unfold Counts
      rw [hreading,hu]
      split <;> rfl
    · intro hchecks
      refine absurd ?_ hplain
      show (_ || ue.checksHeader p)=true
      rw [hchecks,Bool.or_true]

theorem macCalculate_data {x : Crypto} {alg : Byte} {knas : Vector Byte 16} {count : BitVec 32}
    {bearer : Byte} {direction : Direction} {b : Pkbuf} {mac : Vector Byte 4}
    {r : Vector Byte 4 × Pkbuf} (h : macCalculate x alg knas count bearer direction b mac=some r) :
    r.2.data=b.data ∧ r.2.tailroom=b.tailroom := by
  unfold macCalculate at h
  split at h
  · split at h
    · rw [← Option.some.inj h]
      exact ⟨rfl,rfl⟩
    · rw [← Option.some.inj h]
      exact ⟨rfl,rfl⟩
    · obtain ⟨b',hpush,rfl⟩ := Option.map_eq_some_iff.mp h
      unfold Pkbuf.push at hpush
      simp only at hpush
      split at hpush
      · rw [← Option.some.inj hpush]
        exact ⟨rfl,rfl⟩
      · cases hpush
    · rw [← Option.some.inj h]
      exact ⟨rfl,rfl⟩
    · cases h
  · cases h

def shortMac (x : Crypto) (ue : Ue) (p : Pdu) (count : BitVec 32) : Option (List Byte) :=
  (macCalculate x ue.selectedIntAlgorithm ue.knasInt count Mme.nasSecurityBearer .uplink
    (p.pkbuf.trim 2) (Vector.replicate 4 0)).map fun r => r.1.toList.drop 2

def carriedShortMac (p : Pdu) : Option (List Byte) :=
  ((p.pkbuf.trim 2).putData [p.pkbuf.byteAt 2,p.pkbuf.byteAt 3]).map fun b =>
    [b.byteAt 2,b.byteAt 3]

theorem serviceRequestDecode_returns (x : Crypto) (ue : Ue) (p : Pdu)
    (hint : ue.selectedIntAlgorithm≠0) : (Mme.serviceRequestDecode x ue p.pkbuf).Returns
      fun ue' _ => Counts ue (.short (Mme.sequenceNumber p.pkbuf)) ue' ∧
        (ue'.macFailed=false → shortMac x ue p ue'.ulCount.i32=carriedShortMac p) := by
  unfold Mme.serviceRequestDecode
  rw [if_neg hint]
  apply asserting_returns.bind
  rintro t r ⟨rfl,hmac⟩
  apply asserting_returns.bind
  rintro t b ⟨rfl,hput⟩
  refine ⟨rfl,fun hok => ?_⟩
  obtain ⟨hdata,htail⟩ := macCalculate_data hmac
  simp only [Bool.or_eq_false_iff,bne_eq_false_iff_eq] at hok
  unfold shortMac carriedShortMac
  simp only
  rw [hmac,Option.map_some,hok.2]
  unfold Pkbuf.putData at hput ⊢
  rw [htail] at hput
  split at hput
  · rename_i hroom
    rw [if_pos hroom,← Option.some.inj hput,hdata]
    rfl
  · cases hput

namespace Decoder

variable {x : Crypto} {d : Decoder}

def checks (d : Decoder) (ue : Ue) (p : Pdu) : Bool :=
  match d with
  | .nas5gs _ => ue.checksHeader p
  | .eps => if p.type.serviceRequest then ue.selectedIntAlgorithm != 0 else ue.checksHeader p

/-- The MAC of a message for a COUNT, as far as the decoder compares it. -/
def mac (x : Crypto) (d : Decoder) (ue : Ue) (p : Pdu) (count : BitVec 32) : Option (List Byte) :=
  match d with
  | .nas5gs accessType => headerMac x 7 accessType ue p count
  | .eps =>
    if p.type.serviceRequest then shortMac x ue p count
    else headerMac x 6 Mme.nasSecurityBearer ue p count

def carried (d : Decoder) (p : Pdu) : Option (List Byte) :=
  match d with
  | .nas5gs _ => carriedMac 7 p
  | .eps => if p.type.serviceRequest then carriedShortMac p else carriedMac 6 p

theorem decode_returns (x : Crypto) (d : Decoder) (ue : Ue) (p : Pdu) :
    (d.decode x ue p).Returns fun ue' _ => Counts ue (d.reading ue p) ue' ∧
      (d.checks ue p=true → ue'.macFailed=false →
        d.mac x ue p ue'.ulCount.i32=d.carried p) := by
  cases d with
  | nas5gs accessType => exact securityDecode_returns x (by decide) accessType ue p
  | eps =>
    simp only [decode,reading,checks,mac,carried,Mme.nasEpsSecurityDecode]
    by_cases hservice : p.type.serviceRequest=true
    · simp only [hservice,if_true]
      by_cases hint : ue.selectedIntAlgorithm=0
      · rw [if_pos hint]
        unfold Mme.serviceRequestDecode
        rw [if_pos hint]
        refine ⟨rfl,fun hno => ?_⟩
        simp [hint] at hno
      · rw [if_neg hint]
        apply (serviceRequestDecode_returns x ue p hint).mono
        rintro ue' _ ⟨hcounts,hmac⟩
        exact ⟨hcounts,fun _ => hmac⟩
    · simp only [hservice]
      exact securityDecode_returns x (by decide) Mme.nasSecurityBearer ue p

theorem reading_congr {ue ue' : Ue} {r : Reading} (h : Counts ue r ue') (d : Decoder) (p : Pdu) :
    d.reading ue' p=d.reading ue p := by
  unfold Counts at h
  rw [h]
  rfl

end Decoder

def Unmoved (c : UlCount) : Reading → Prop
  | .idle => True
  | .restart => c = .zero
  | .full true sqn => c=⟨0,0,sqn⟩
  | .full false sqn => c.sqn=sqn
  | .short sqn => c.sqn.setWidth 5=sqn

theorem read_eq_self_iff (c : UlCount) (r : Reading) : c.read r=c ↔ Unmoved c r := by
  have hstay : ∀ r : Reading, r.restarts=false → (c.read r=c ↔ r.steps c=0) := by
    intro r hr
    rw [UlCount.read_eq,hr]
    constructor
    · intro h
      refine UlCount.advance_inj (UlCount.steps_lt c r) (Nat.two_pow_pos 24) (h.trans ?_)
      exact c.advance_zero.symm
    · intro h
      simp only [Bool.false_eq_true,if_false]
      rw [h,UlCount.advance_zero]
  cases r with
  | idle => exact ⟨fun _ => trivial,fun _ => rfl⟩
  | restart => exact eq_comm
  | full restart sqn =>
    cases restart with
    | true =>
      have hread : c.read (.full true sqn)=⟨0,0,sqn⟩ := by
        show UlCount.zero.estimate sqn=_
        unfold UlCount.estimate
        rw [if_neg]
        · rfl
        · exact Nat.not_lt_zero _
      rw [hread]
      exact eq_comm
    | false =>
      rw [hstay _ rfl]
      exact sub_toNat_eq_zero sqn c.sqn
  | short sqn =>
    rw [hstay _ rfl]
    exact sub_toNat_eq_zero sqn (c.sqn.setWidth 5)

theorem steps_advance (c : UlCount) {k : Nat} {r : Reading} (hcounted : r.counted=true)
    (hle : k ≤ r.steps c) : r.steps (c.advance k)=r.steps c-k := by
  have hs:=c.sqn.isLt
  cases r with
  | idle => cases hcounted
  | restart => cases hcounted
  | full restart sqn =>
    have hsqn:=sqn.isLt
    simp only [Reading.steps,UlCount.advance,UlCount.low,BitVec.toNat_sub,
      BitVec.toNat_ofNat] at hle ⊢
    omega
  | short sqn =>
    have hsqn:=sqn.isLt
    simp only [Reading.steps,UlCount.advance,UlCount.low,BitVec.toNat_sub,
      BitVec.toNat_setWidth,BitVec.toNat_ofNat] at hle ⊢
    omega

theorem read_read_eq_iff (c : UlCount) {r r₂ : Reading} (hr : r.restarts=false)
    (hr₂ : r₂.restarts=false) (hcounted : r₂.counted=true) :
    (c.read r).read r₂=c.read r₂ ↔ r.steps c ≤ r₂.steps c := by
  have hread : c.read r=c.advance (r.steps c) := by
    rw [UlCount.read_eq,hr]
    rfl
  have hread₂ : ∀ e : UlCount, e.read r₂=e.advance (r₂.steps e) := by
    intro e
    rw [UlCount.read_eq,hr₂]
    rfl
  rw [hread,hread₂,hread₂,UlCount.advance_advance]
  constructor
  · intro h
    have hsum : r.steps c+r₂.steps (c.advance (r.steps c))=r₂.steps c := by
      refine UlCount.advance_inj ?_ (UlCount.steps_lt c r₂) h
      have h1:=UlCount.steps_le c r
      have h2:=UlCount.steps_le (c.advance (r.steps c)) r₂
      omega
    omega
  · intro hle
    rw [steps_advance c hcounted hle,Nat.add_sub_cancel' hle]

/-- Whatever the MAC turns out to be, a decoder leaves the COUNT that it read. It is the one from
before just if the message stayed where the receiver was, and a message after it is read as if it
had not come just if it was not ahead of that. -/
theorem ulCount_decode (x : Crypto) (d : Decoder) (ue : Ue) (p : Pdu) :
    (d.decode x ue p).Returns fun ue' _ =>
      ue' = { ue with macFailed := ue'.macFailed,ulCount := ue.ulCount.read (d.reading ue p) } ∧
      (ue'.ulCount=ue.ulCount ↔ Unmoved ue.ulCount (d.reading ue p)) ∧
      ∀ q,(d.reading ue p).restarts=false → (d.reading ue q).restarts=false →
        (d.reading ue q).counted=true →
          (ue'.ulCount.read (d.reading ue' q)=ue.ulCount.read (d.reading ue q) ↔
            (d.reading ue p).steps ue.ulCount≤(d.reading ue q).steps ue.ulCount) := by
  apply (Decoder.decode_returns x d ue p).mono
  rintro ue' _ ⟨hcounts,-⟩
  have hcount : ue'.ulCount=ue.ulCount.read (d.reading ue p) := congrArg Ue.ulCount hcounts
  refine ⟨hcounts,?_,?_⟩
  · rw [hcount]
    exact read_eq_self_iff ue.ulCount (d.reading ue p)
  · intro q hp hq hcounted
    rw [Decoder.reading_congr hcounts d q,hcount]
    exact read_read_eq_iff ue.ulCount hp hq hcounted

structure Call where
  before : Ue
  pdu : Pdu
  after : Ue

-- `ul_count.i32` when the MAC was calculated and the message deciphered.
def Call.count (a : Call) : BitVec 32 := a.after.ulCount.i32

namespace Decoder

variable {x : Crypto} {d : Decoder}

def calls (x : Crypto) (d : Decoder) : Ue → List Pdu → List Call
  | _, [] => []
  | ue, p::ps =>
    match d.decode x ue p with
    | .ok ue' _ => ⟨ue,p,ue'⟩::calls x d ue' ps
    | .abort _ => []

def Steady (d : Decoder) (a : Call) : Prop :=
  (d.reading a.before a.pdu).restarts=false ∧
    a.before.ulCount.low+(d.reading a.before a.pdu).steps a.before.ulCount<2^24

/-- The message had a COUNT, and `mac_failed` is unset after the call. -/
def Accepted (d : Decoder) (a : Call) : Prop :=
  (d.reading a.before a.pdu).counted=true ∧ d.checks a.before a.pdu=true ∧
    a.after.macFailed=false

def Replayed (d : Decoder) (a b : Call) : Prop :=
  a.pdu=b.pdu ∧ d.Accepted a ∧ d.Accepted b

structure Onward (ue : Ue) (a : Call) : Prop where
  spare : a.after.ulCount.spare=ue.ulCount.spare
  low : ue.ulCount.low≤a.after.ulCount.low

theorem decode_onward {ue ue' : Ue} {p : Pdu} {r : Status × Pkbuf}
    (hcall : d.decode x ue p = .ok ue' r) (hsteady : d.Steady ⟨ue,p,ue'⟩) :
    ue'.ulCount=ue.ulCount.advance ((d.reading ue p).steps ue.ulCount) ∧
      ue.ulCount.low≤ue'.ulCount.low := by
  have hcounts:=(decode_returns x d ue p)
  rw [hcall] at hcounts
  have hcount : ue'.ulCount=ue.ulCount.read (d.reading ue p) := congrArg Ue.ulCount hcounts.1
  have hadvance : ue'.ulCount=ue.ulCount.advance ((d.reading ue p).steps ue.ulCount) := by
    rw [hcount,UlCount.read_eq,hsteady.1]
    rfl
  refine ⟨hadvance,?_⟩
  rw [hadvance,UlCount.low_advance,Nat.mod_eq_of_lt hsteady.2]
  exact Nat.le_add_right ..

theorem calls_onward {ue : Ue} {ps : List Pdu} (hsteady : ∀ a∈calls x d ue ps,d.Steady a) :
    (∀ a∈calls x d ue ps,Onward ue a) ∧
      (calls x d ue ps).Pairwise fun a b => a.after.ulCount.low≤b.after.ulCount.low := by
  induction ps generalizing ue with
  | nil => exact ⟨fun _ h => absurd h List.not_mem_nil,List.Pairwise.nil⟩
  | cons p ps ih =>
    unfold calls at hsteady ⊢
    cases hcall : d.decode x ue p with
    | abort ue' => exact ⟨fun _ h => absurd h List.not_mem_nil,List.Pairwise.nil⟩
    | ok ue' r =>
      simp only [hcall] at hsteady ⊢
      obtain ⟨hadvance,hlow⟩ := decode_onward hcall (hsteady _ (List.mem_cons_self ..))
      have hspare : ue'.ulCount.spare=ue.ulCount.spare := by rw [hadvance]; rfl
      obtain ⟨honward,hpairs⟩ := ih fun a ha => hsteady a (List.mem_cons_of_mem _ ha)
      refine ⟨?_,?_⟩
      · intro a ha
        rcases List.mem_cons.mp ha with rfl | ha
        · exact ⟨hspare,hlow⟩
        · obtain ⟨hspare',hlow'⟩ := honward a ha
          exact ⟨hspare'.trans hspare,Nat.le_trans hlow hlow'⟩
      · exact List.pairwise_cons.mpr ⟨fun b hb => (honward b hb).low,hpairs⟩

theorem accepted_mac {ue : Ue} {ps : List Pdu} {a : Call} (ha : a∈calls x d ue ps)
    (haccepted : d.Accepted a) : d.mac x a.before a.pdu a.count=d.carried a.pdu := by
  induction ps generalizing ue with
  | nil => cases ha
  | cons p ps ih =>
    unfold calls at ha
    cases hcall : d.decode x ue p with
    | abort ue' => simp [hcall] at ha
    | ok ue' r =>
      simp only [hcall] at ha
      rcases List.mem_cons.mp ha with rfl | ha
      · have hreturns:=decode_returns x d ue p
        rw [hcall] at hreturns
        exact hreturns.2 haccepted.2.1 haccepted.2.2
      · exact ih ha

end Decoder

/-- In a run under one context two messages have one COUNT, and a message is accepted again, only
where the COUNT did not move in between. -/
theorem same_count_only_in_place {x : Crypto} {d : Decoder} {ue : Ue} {ps : List Pdu}
    (hsteady : ∀ a∈d.calls x ue ps,d.Steady a)
    (hmac : ∀ a∈d.calls x ue ps,∀ b∈d.calls x ue ps,a.pdu=b.pdu →
      d.mac x a.before a.pdu a.count=d.mac x b.before b.pdu b.count → a.count=b.count)
    {pre mid post : List Call} {a b : Call}
    (hcalls : d.calls x ue ps=pre++a::(mid++b::post))
    (hsame : a.count=b.count ∨ d.Replayed a b) :
    a.count=b.count ∧ ∀ k∈mid,k.count=a.count := by
  have ha : a∈d.calls x ue ps := by
    rw [hcalls]
    exact List.mem_append_right _ (List.mem_cons_self ..)
  have hb : b∈d.calls x ue ps := by
    rw [hcalls]
    simp
  have hcount : a.count=b.count := by
    rcases hsame with hcount | ⟨hpdu,haccepted,hagain⟩
    · exact hcount
    · apply hmac a ha b hb hpdu
      rw [Decoder.accepted_mac ha haccepted,Decoder.accepted_mac hb hagain,hpdu]
  refine ⟨hcount,?_⟩
  obtain ⟨honward,hpairs⟩ := Decoder.calls_onward hsteady
  rw [hcalls] at hpairs
  obtain ⟨-,hpairs,-⟩ := List.pairwise_append.mp hpairs
  obtain ⟨hfirst,hpairs⟩ := List.pairwise_cons.mp hpairs
  obtain ⟨-,-,hlast⟩ := List.pairwise_append.mp hpairs
  intro k hk
  have hkmem : k∈d.calls x ue ps := by
    rw [hcalls]
    simp [hk]
  have h1:=hfirst k (List.mem_append_left _ hk)
  have h2:=hlast k hk b (List.mem_cons_self ..)
  have hends:=UlCount.i32_inj hcount
  apply congrArg UlCount.i32
  apply UlCount.ext_low
  · rw [(honward k hkmem).spare,(honward a ha).spare]
  · rw [← hends] at h2
    omega

abbrev Link := Ue × Nat

def Decoder.receive (x : Crypto) (d : Decoder) (s : Link) (m : Nat × Pdu) :
    Option (Outcome Link (Status × Pkbuf)) :=
  some ((d.decode x s.1 m.2).mapState fun ue => (ue,m.1))

/-- The message carries the sender's COUNT, which moved on by less than the numbers that the
message can tell apart. -/
structure Sent (d : Decoder) (s : Link) (m : Nat × Pdu) : Prop where
  counted : (d.reading s.1 m.2).counted=true
  carries : (d.reading s.1 m.2).Carries m.1
  later : s.2 < m.1
  near : m.1<s.2+(d.reading s.1 m.2).range
  fits : m.1<2^24

/-- A new context is announced only with a COUNT that starts over. -/
def SentUnder (d : Decoder) (s : Link) (m : Nat × Pdu) : Prop :=
  Sent d s m ∧ ((d.reading s.1 m.2).restarts=true → m.1<(d.reading s.1 m.2).range)

theorem read_sent {d : Decoder} {s : Link} {m : Nat × Pdu} (hsent : SentUnder d s m)
    (hcount : s.1.ulCount.i32.toNat=s.2) (hlow : s.2<2^24) :
    (s.1.ulCount.read (d.reading s.1 m.2)).i32.toNat=m.1 := by
  obtain ⟨⟨hcounted,hcarries,hlater,hnear,hfits⟩,hrestart⟩ := hsent
  rw [UlCount.i32_toNat] at hcount
  generalize d.reading s.1 m.2=r at hcounted hcarries hnear hrestart ⊢
  have hmoved : ∀ c : UlCount, c.spare.toNat=0 → c.low ≤ m.1 → m.1<c.low+r.range →
      (c.advance (r.steps c)).i32.toNat=m.1 := by
    intro c hspare hle hlt
    rw [UlCount.i32_toNat,UlCount.advance_spare,hspare,UlCount.low_advance,
      UlCount.steps_of_carries hcounted hcarries hle hlt,Nat.add_sub_cancel' hle,
      Nat.mod_eq_of_lt hfits,Nat.zero_mul,Nat.zero_add]
  rw [UlCount.read_eq]
  cases hr : r.restarts with
  | true =>
    have hzero : UlCount.zero.low=0 := rfl
    exact hmoved UlCount.zero rfl (by rw [hzero]; omega) (by rw [hzero]; have := hrestart hr; omega)
  | false =>
    have hspare : s.1.ulCount.spare.toNat=0 := by omega
    exact hmoved s.1.ulCount hspare (by omega) (by omega)

/-- The receiver's COUNT is the sender's after every message. -/
theorem counts_agree {x : Crypto} {d : Decoder} {ue : Ue} {n : Nat} {ms : List (Nat × Pdu)}
    (hcount : ue.ulCount.i32.toNat=n) (hfits : n<2^24)
    (hsent : EachStep (d.receive x) (SentUnder d) (ue,n) ms) :
    ∀ s∈completed (d.receive x) (ue,n) ms,s.1.ulCount.i32.toNat=s.2 := by
  have hinv : ∀ s ∈ completed (d.receive x) (ue,n) ms,
      s.1.ulCount.i32.toNat=s.2 ∧ s.2<2^24 := by
    refine completed_inv ?_ ⟨hcount,hfits⟩ hsent
    rintro s m t r ⟨hs,hlow⟩ hcond hcall
    have hreturns:=Decoder.decode_returns x d s.1 m.2
    unfold Decoder.receive at hcall
    cases hdecode : d.decode x s.1 m.2 with
    | abort ue' =>
      rw [hdecode] at hcall
      cases hcall
    | ok ue' r' =>
      rw [hdecode] at hcall hreturns
      cases hcall
      have hread : ue'.ulCount=s.1.ulCount.read (d.reading s.1 m.2) :=
        congrArg Ue.ulCount hreturns.1
      refine ⟨?_,hcond.1.fits⟩
      rw [hread]
      exact read_sent hcond hs hlow
  exact fun s hs => (hinv s hs).1

def crypto1 : Crypto where
  snow3gF9 := fun _ count _ _ _ => Pfcp.memcpy (Vector.replicate 4 0) (netBytes 4 count.toNat)
  aesCmac := fun _ data => Pfcp.memcpy (Vector.replicate 16 0) data
  zucEia3 := fun _ count _ _ _ => Pfcp.memcpy (Vector.replicate 4 0) (netBytes 4 count.toNat)
  snow := fun _ _ _ _ data => data
  aesCtr128 := fun _ _ data => data
  zucEea3 := fun _ _ _ _ data => data

def ue1 : Ue where
  securityContextAvailable := true
  macFailed := false
  knasInt := Vector.replicate 16 0
  knasEnc := Vector.replicate 16 0
  dlCount := 0
  ulCount := .zero
  selectedEncAlgorithm := 0
  selectedIntAlgorithm := 1

def pdu1 (newSecurityContext : Bool) (mac sequenceNumber : Byte) : Pdu where
  type := ⟨true,false,newSecurityContext,false⟩
  pkbuf := ⟨List.replicate 9 0++[126,1,0,0,0,mac,sequenceNumber],[1],[]⟩

def amf1 : Decoder := .nas5gs 1

def again : List Call := amf1.calls crypto1 ue1 [pdu1 false 5 5,pdu1 false 5 5,pdu1 false 5 5]

def ue5 : Ue := { ue1 with ulCount := ⟨0,0,5⟩ }

set_option maxRecDepth 4000 in
theorem again_eq : again=[⟨ue1,pdu1 false 5 5,ue5⟩,⟨ue5,pdu1 false 5 5,ue5⟩,
    ⟨ue5,pdu1 false 5 5,ue5⟩] := rfl

theorem replay_accepted :
    ¬ again.Pairwise fun a b => amf1.Accepted a → amf1.Accepted b → a.count≠b.count := by
  rw [again_eq]
  intro h
  exact (List.pairwise_cons.mp h).1 _ (List.mem_cons_self ..) ⟨rfl,rfl,rfl⟩ ⟨rfl,rfl,rfl⟩ rfl

theorem same_count_three :
    (∀ a∈again,amf1.Steady a) ∧
      (∀ a∈again,∀ b∈again,a.pdu=b.pdu →
        amf1.mac crypto1 a.before a.pdu a.count=amf1.mac crypto1 b.before b.pdu b.count →
          a.count=b.count) ∧
      ∀ k ∈ [(⟨ue5,pdu1 false 5 5,ue5⟩ : Call)],
        k.count=(⟨ue1,pdu1 false 5 5,ue5⟩ : Call).count := by
  have hsteady : ∀ a∈again,amf1.Steady a := by
    rw [again_eq]
    intro a ha
    simp only [List.mem_cons,List.not_mem_nil,or_false] at ha
    rcases ha with rfl | rfl | rfl <;> exact ⟨rfl,by decide⟩
  have hmac : ∀ a∈again,∀ b∈again,a.pdu=b.pdu →
      amf1.mac crypto1 a.before a.pdu a.count=amf1.mac crypto1 b.before b.pdu b.count →
        a.count=b.count := by
    rw [again_eq]
    intro a ha b hb _ _
    simp only [List.mem_cons,List.not_mem_nil,or_false] at ha hb
    rcases ha with rfl | rfl | rfl <;> rcases hb with rfl | rfl | rfl <;> rfl
  have hcalls : again=[]++⟨ue1,pdu1 false 5 5,ue5⟩ ::
      ([⟨ue5,pdu1 false 5 5,ue5⟩]++⟨ue5,pdu1 false 5 5,ue5⟩::[]) := again_eq
  exact ⟨hsteady,hmac,(same_count_only_in_place hsteady hmac hcalls (.inl rfl)).2⟩

set_option maxRecDepth 4000 in
theorem failed_message_counts : ¬ (amf1.decode crypto1 ue1 (pdu1 false 0 9)).Returns
    fun ue' _ => ue'.macFailed=true → ue'.ulCount=ue1.ulCount := by
  intro h
  have hcall : amf1.decode crypto1 ue1 (pdu1 false 0 9) =
      .ok { ue1 with macFailed := true,ulCount := ⟨0,0,9⟩ }
        (.ok,⟨List.replicate 9 0++[126,1,0,0,0,0,9],[1],[]⟩) := rfl
  rw [hcall] at h
  have hcount:=h rfl
  revert hcount
  decide

def ueAt (overflow : BitVec 16) (sqn : BitVec 8) : Ue := { ue1 with ulCount := ⟨0,overflow,sqn⟩ }

set_option maxRecDepth 4000 in
theorem counts_part : EachStep (amf1.receive crypto1) (Sent amf1) (ueAt 1 44,300)
      [(301,pdu1 true 0 45)] ∧
    ¬ ∀ s ∈ completed (amf1.receive crypto1) (ueAt 1 44,300) [(301,pdu1 true 0 45)],
      s.1.ulCount.i32.toNat=s.2 := by
  refine ⟨⟨⟨rfl,rfl,by decide,by decide,by decide⟩,trivial⟩,?_⟩
  intro h
  have hmem : (({ ueAt 0 45 with macFailed := true },301) : Link)∈completed
      (amf1.receive crypto1) (ueAt 1 44,300) [(301,pdu1 true 0 45)] :=
    List.mem_of_getElem? (i := 1) rfl
  have hcount:=h _ hmem
  revert hcount
  decide

set_option maxRecDepth 4000 in
theorem counts_agree_wrap : (ueAt 0 250).ulCount.i32.toNat=250 ∧ 250<2^24 ∧
    EachStep (amf1.receive crypto1) (SentUnder amf1) (ueAt 0 250,250) [(257,pdu1 false 1 1)] ∧
    ∀ s ∈ completed (amf1.receive crypto1) (ueAt 0 250,250) [(257,pdu1 false 1 1)],
      s.1.ulCount.i32.toNat=s.2 := by
  have hsent : EachStep (amf1.receive crypto1) (SentUnder amf1) (ueAt 0 250,250)
      [(257,pdu1 false 1 1)] := by
    refine ⟨⟨⟨rfl,rfl,by decide,by decide,by decide⟩,?_⟩,trivial⟩
    intro hno
    cases hno
  exact ⟨rfl,by decide,hsent,counts_agree rfl (by decide) hsent⟩

end OgsDp.Nas
