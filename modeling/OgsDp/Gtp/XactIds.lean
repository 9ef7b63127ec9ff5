import OgsDp.Core.Octets
import OgsDp.Gtp.XactSteps

/-!
# The numbers of the local transactions (lib/gtp/xact.c)

One counter goes through two ranges.
-/

namespace OgsDp.Gtp
open Lib OgsDp.Core

def gtp1SequenceNumber (packet : List Byte) : List Byte := (packet.drop 8).take 2

def gtp2SequenceNumber (packet : List Byte) : List Byte :=
  if (packet.headD 0).val.testBit 3 then (packet.drop 8).take 3 else (packet.drop 4).take 3

def Header1.Echoes (h : Header1) (packet : List Byte) : Prop :=
  h.s=true ∧ netBytes 2 h.sqn.toNat=gtp1SequenceNumber packet

def Header2.number (h : Header2) : BitVec 32 := if h.teidPresence then h.sqn else h.sqnOnly

def Header2.Echoes (h : Header2) (packet : List Byte) : Prop :=
  (netBytes 4 h.number.toNat).take 3=gtp2SequenceNumber packet

instance (h : Header1) (packet : List Byte) : Decidable (h.Echoes packet) :=
  inferInstanceAs (Decidable (_ ∧ _))

instance (h : Header2) (packet : List Byte) : Decidable (h.Echoes packet) :=
  inferInstanceAs (Decidable (_=_))

theorem netBytes_inj {n v w : Nat} (hv : v<256^n) (hw : w<256^n)
    (h : netBytes n v=netBytes n w) : v=w := by
  have hval:=congrArg netValue h
  rw [netValue_netBytes,netValue_netBytes,Nat.mod_eq_of_lt hv,Nat.mod_eq_of_lt hw] at hval
  exact hval

theorem take_netBytes (v : Nat) : (netBytes 4 v).take 3=netBytes 3 (v / 256) := by
  rw [netBytes_succ]
  exact List.take_left' (length_netBytes ..)

theorem gtp1SequenceNumber_push (type : Byte) (teid xid : BitVec 32) (body : List Byte) :
    gtp1SequenceNumber (gtp1Push type teid xid body)=netBytes 2 (gtp1XidToSqn xid).toNat := by
  unfold gtp1SequenceNumber gtp1Push
  rw [List.append_assoc,List.append_assoc]
  rw [List.drop_left' (by simp)]
  exact List.take_left' (length_netBytes ..)

theorem gtp2SequenceNumber_push (type : Byte) (teid xid : BitVec 32) (body : List Byte) :
    gtp2SequenceNumber (gtp2Push type teid xid body) =
      netBytes 3 ((gtp2XidToSqn xid).toNat / 256) := by
  have htake : ∀ rest,(netBytes 4 (gtp2XidToSqn xid).toNat++rest).take 3 =
      netBytes 3 ((gtp2XidToSqn xid).toNat / 256) := by
    intro rest
    rw [List.take_append_of_le_length (by simp),take_netBytes]
  unfold gtp2SequenceNumber gtp2Push
  by_cases htype : 3<type.val
  · rw [if_pos htype]
    have hflag : Nat.testBit (List.headD (([0x48,type] : List Byte) ++
        netBytes 2 (12+body.length-4)++netBytes 4 teid.toNat ++
        netBytes 4 (gtp2XidToSqn xid).toNat++body) 0).val 3=true := by
      simp only [List.append_assoc,List.cons_append,List.headD_cons]
      decide
    rw [if_pos hflag,List.append_assoc (_++_),List.drop_left' (by simp)]
    exact htake body
  · rw [if_neg htype]
    have hflag : ¬ Nat.testBit (List.headD (([0x40,type] : List Byte) ++
        netBytes 2 (8+body.length-4) ++
        netBytes 4 (gtp2XidToSqn xid).toNat++body) 0).val 3=true := by
      simp only [List.append_assoc,List.cons_append,List.headD_cons]
      decide
    rw [if_neg hflag,List.append_assoc (_++_),List.drop_left' (by simp)]
    exact htake body

theorem Header1.Echoes.xid {h : Header1} {type : Byte} {teid xid : BitVec 32} {body : List Byte}
    (he : h.Echoes (gtp1Push type teid xid body)) (hx : xid.toNat<65536) :
    gtp1SqnToXid h.sqn=xid := by
  have heq:=he.2
  rw [gtp1SequenceNumber_push] at heq
  have hsqn:=netBytes_inj h.sqn.isLt (gtp1XidToSqn xid).isLt heq
  apply BitVec.eq_of_toNat_eq
  rw [gtp1SqnToXid,BitVec.toNat_setWidth,hsqn,gtp1XidToSqn,BitVec.toNat_setWidth]
  omega

theorem Header2.Echoes.xid {h : Header2} {type : Byte} {teid xid : BitVec 32} {body : List Byte}
    (he : h.Echoes (gtp2Push type teid xid body)) (hx : xid.toNat<0x1000000) :
    gtp2SqnToXid h.number=xid := by
  have heq : (netBytes 4 h.number.toNat).take 3=_ := he
  have hnumber:=h.number.isLt
  have hsqn:=(gtp2XidToSqn xid).isLt
  rw [gtp2SequenceNumber_push,take_netBytes] at heq
  have hdiv:=netBytes_inj (by omega) (by omega) heq
  apply BitVec.eq_of_toNat_eq
  rw [gtp2SqnToXid,BitVec.toNat_ushiftRight,Nat.shiftRight_eq_div_pow]
  rw [gtp2XidToSqn,BitVec.toNat_shiftLeft,Nat.shiftLeft_eq] at hdiv
  omega

/-- A counter that stood at `c` stands at `g` after `a` steps; whole turns of it were left out. -/
def Apart (turn c a g : Nat) : Prop := g=c+a ∨ g+turn ≤ c+a

section Counter

variable {turn c a g g' lost : Nat}

theorem apart_succ (h : Apart turn c a g) : Apart turn c (a+1) (g+1) := by
  unfold Apart at h ⊢
  omega

theorem apart_back (h : Apart turn c a g) (hback : g+1=g'+lost) (hlost : turn≤lost) :
    Apart turn c (a+1) g' := by
  unfold Apart at h ⊢
  omega

theorem apart_ne (h : Apart turn c a g) (hpos : 0<a) (hturn : a<turn) : c≠g := by
  unfold Apart at h
  omega

theorem gtp1Next_toNat {id : BitVec 32} (h : id.toNat≤65535) :
    (nextXactId id 0 65535).toNat = if id.toNat=65535 then 0 else id.toNat+1 := by
  unfold nextXactId
  by_cases hmax : id=65535
  · rw [if_pos hmax,hmax]
    rfl
  · have hne : id.toNat≠65535 := fun he => hmax (BitVec.eq_of_toNat_eq he)
    rw [if_neg hmax,if_neg hne,BitVec.toNat_add]
    exact Nat.mod_eq_of_lt (by simp; omega)

theorem gtp2Next_toNat {id : BitVec 32} (h : id.toNat≤0x800000) :
    (nextXactId id 1 0x800000).toNat = if id.toNat=0x800000 then 1 else id.toNat+1 := by
  unfold nextXactId
  by_cases hmax : id=0x800000
  · rw [if_pos hmax,hmax]
    rfl
  · have hne : id.toNat≠0x800000 := fun he => hmax (BitVec.eq_of_toNat_eq he)
    rw [if_neg hmax,if_neg hne,BitVec.toNat_add]
    exact Nat.mod_eq_of_lt (by simp; omega)

theorem isCmdXid_small {xid : BitVec 32} (h : xid.toNat<0x800000) : isCmdXid xid=false :=
  Nat.testBit_lt_two_pow h

theorem isCmdXid_or (c : BitVec 32) : isCmdXid (c ||| 0x800000)=true := by
  unfold isCmdXid
  rw [BitVec.getLsbD_or]
  exact Bool.or_true _

theorem cmdXid_toNat {c : BitVec 32} (h : c.toNat≤0x800000) :
    (c ||| 0x800000).toNat=0x800000+c.toNat % 0x800000 := by
  have hbit : (0x800000 : BitVec 32).toNat=2^23 := rfl
  rw [BitVec.toNat_or,hbit]
  by_cases hmax : c.toNat=0x800000
  · rw [hmax]
    rfl
  · have hlt : c.toNat<2^23 := by omega
    have hor:=Nat.two_pow_add_eq_or_of_lt hlt 1
    rw [Nat.mul_one] at hor
    rw [Nat.or_comm,← hor]
    omega

theorem cmdXid_inj {c d : BitVec 32} (hc : 1 ≤ c.toNat ∧ c.toNat≤0x800000)
    (hd : 1≤d.toNat ∧ d.toNat≤0x800000) (h : c ||| 0x800000=d ||| 0x800000) : c=d := by
  have hnat:=congrArg BitVec.toNat h
  rw [cmdXid_toNat hc.2,cmdXid_toNat hd.2] at hnat
  apply BitVec.eq_of_toNat_eq
  omega

end Counter

namespace Layer

def Local (s : Layer) (r : Nat) : Prop := s.Live r ∧ (s.obj r).org = .localOriginator

/-- The message is a response to the request of a local transaction. -/
def Answers (x : Xact) (type : Byte) : Prop :=
  match x.gtpVersion with
  | .gtp1 => gtp1XactGetStage type = .intermediate ∨ gtp1XactGetStage type = .final ∧ type.val≠52
  | .gtp2 =>
    if isCommand x.firstSeq.type then isFailureIndication type ∨ type.val∈[95,97,99]
    else gtp2XactGetStage type x.xid = .final

/-- Each number is in the range of its message, no two transactions of one version to one peer
have the same, and a response with the sequence number that was sent goes to its transaction. -/
structure Ids (rc : Rcounts) (s : Layer) : Prop where
  gtp1 : ∀ r,s.Local r → (s.obj r).gtpVersion = .gtp1 → (s.obj r).xid.toNat<65536
  gtp2 : ∀ r,s.Local r → (s.obj r).gtpVersion = .gtp2 → (s.obj r).xid.toNat<0x1000000
  command : ∀ r,s.Local r → (s.obj r).gtpVersion = .gtp2 →
    (isCmdXid (s.obj r).xid=true ↔ isCommand (s.obj r).firstSeq.type)
  distinct : ∀ i j,s.Local i → s.Local j → (s.obj i).node=(s.obj j).node →
    (s.obj i).gtpVersion=(s.obj j).gtpVersion → (s.obj i).xid=(s.obj j).xid → i=j
  sent : ∀ r,s.Local r → ∃ packet,(s.obj r).firstSeq.pkbuf=some packet
  gtp1Matched : ∀ r packet h timers,s.Local r → (s.obj r).gtpVersion = .gtp1 →
    (s.obj r).firstSeq.pkbuf=some packet → Answers (s.obj r) h.type → Header1.Echoes h packet →
      s.gtp1Receive rc (s.obj r).node h timers=s.deliver r h.type
  gtp2Matched : ∀ r packet h timers,s.Local r → (s.obj r).gtpVersion = .gtp2 →
    (s.obj r).firstSeq.pkbuf=some packet → Answers (s.obj r) h.type → Header2.Echoes h packet →
      s.gtpReceive rc (s.obj r).node h timers=s.deliver r h.type

end Layer

/-- The number of a local transaction and the packet of its first message; the counter was `c`
after the number was drawn. -/
inductive Issued (x : Xact) (c : BitVec 32) : Prop
  | gtp1 (version : x.gtpVersion = .gtp1) (xid : x.xid=c) (small : c.toNat≤65535)
      (packet : ∃ teid body,x.firstSeq.pkbuf=some (gtp1Push x.firstSeq.type teid x.xid body))
  | ordinary (version : x.gtpVersion = .gtp2) (plain : ¬ isCommand x.firstSeq.type)
      (xid : x.xid=c) (small : c.toNat<0x800000)
      (packet : ∃ teid body,x.firstSeq.pkbuf=some (gtp2Push x.firstSeq.type teid x.xid body))
  | command (version : x.gtpVersion = .gtp2) (command : isCommand x.firstSeq.type)
      (xid : x.xid=c ||| 0x800000) (range : 1 ≤ c.toNat ∧ c.toNat≤0x800000)
      (packet : ∃ teid body,x.firstSeq.pkbuf=some (gtp2Push x.firstSeq.type teid x.xid body))

namespace Issued

variable {x y : Xact} {c d : BitVec 32} {type : Byte}

theorem kept (h : Issued x c) (hk : x.Kept y) (hstep : x.step≠0) : Issued y c := by
  have hfirst:=hk.first hstep
  cases h with
  | gtp1 version xid small packet =>
    refine .gtp1 (hk.gtpVersion.trans version) (hk.xid.trans xid) small ?_
    rw [hfirst,hk.xid]
    exact packet
  | ordinary version plain xid small packet =>
    refine .ordinary (hk.gtpVersion.trans version) ?_ (hk.xid.trans xid) small ?_
    · rw [hfirst]
      exact plain
    · rw [hfirst,hk.xid]
      exact packet
  | command version command xid range packet =>
    refine .command (hk.gtpVersion.trans version) ?_ (hk.xid.trans xid) range ?_
    · rw [hfirst]
      exact command
    · rw [hfirst,hk.xid]
      exact packet

theorem xid_ne (hx : Issued x c) (hy : Issued y d) (hv : x.gtpVersion=y.gtpVersion)
    (hne : c≠d) : x.xid≠y.xid := by
  have hbit : ∀ e f : BitVec 32, e.toNat<0x800000 → e≠f ||| 0x800000 := by
    intro e f he hef
    have hsmall:=isCmdXid_small he
    rw [hef,isCmdXid_or] at hsmall
    cases hsmall
  cases hx with
  | gtp1 hvx hxx hc =>
    cases hy with
    | gtp1 hvy hxy hd => rw [hxx,hxy]; exact hne
    | ordinary hvy => rw [hvx,hvy] at hv; cases hv
    | command hvy => rw [hvx,hvy] at hv; cases hv
  | ordinary hvx hpx hxx hc =>
    cases hy with
    | gtp1 hvy => rw [hvx,hvy] at hv; cases hv
    | ordinary hvy hpy hxy hd => rw [hxx,hxy]; exact hne
    | command hvy hpy hxy hd => rw [hxx,hxy]; exact hbit c d hc
  | command hvx hpx hxx hc =>
    cases hy with
    | gtp1 hvy => rw [hvx,hvy] at hv; cases hv
    | ordinary hvy hpy hxy hd => rw [hxx,hxy]; exact (hbit d c hd).symm
    | command hvy hpy hxy hd =>
      rw [hxx,hxy]
      exact fun he => hne (cmdXid_inj hc hd he)

theorem gtp1_lt (h : Issued x c) (hv : x.gtpVersion = .gtp1) : x.xid.toNat<65536 := by
  cases h with
  | gtp1 version xid small => rw [xid]; omega
  | ordinary version => rw [hv] at version; cases version
  | command version => rw [hv] at version; cases version

theorem gtp2_lt (h : Issued x c) (hv : x.gtpVersion = .gtp2) : x.xid.toNat<0x1000000 := by
  cases h with
  | gtp1 version => rw [hv] at version; cases version
  | ordinary version plain xid small => rw [xid]; omega
  | command version command xid range =>
    rw [xid,cmdXid_toNat range.2]
    omega

theorem cmd_iff (h : Issued x c) (hv : x.gtpVersion = .gtp2) :
    isCmdXid x.xid=true ↔ isCommand x.firstSeq.type := by
  cases h with
  | gtp1 version => rw [hv] at version; cases version
  | ordinary version plain xid small => simp [xid,isCmdXid_small small,plain]
  | command version command xid range =>
    rw [xid]
    exact iff_of_true (isCmdXid_or c) command

theorem sent (h : Issued x c) : ∃ packet,x.firstSeq.pkbuf=some packet := by
  cases h with
  | gtp1 version xid small packet | ordinary version plain xid small packet
  | command version command xid range packet =>
    obtain ⟨teid,body,hp⟩ := packet
    exact ⟨_,hp⟩

theorem gtp1_echo {h : Header1} {packet : List Byte} (hi : Issued x c) (hv : x.gtpVersion = .gtp1)
    (hp : x.firstSeq.pkbuf=some packet) (he : h.Echoes packet) : gtp1SqnToXid h.sqn=x.xid := by
  have hlt:=hi.gtp1_lt hv
  cases hi with
  | gtp1 version xid small sent =>
    obtain ⟨teid,body,hs⟩ := sent
    rw [hp] at hs
    rw [Option.some.inj hs] at he
    exact he.xid hlt
  | ordinary version => rw [hv] at version; cases version
  | command version => rw [hv] at version; cases version

theorem gtp2_echo {h : Header2} {packet : List Byte} (hi : Issued x c) (hv : x.gtpVersion = .gtp2)
    (hp : x.firstSeq.pkbuf=some packet) (he : h.Echoes packet) :
    gtp2SqnToXid h.number=x.xid := by
  have hlt:=hi.gtp2_lt hv
  cases hi with
  | gtp1 version => rw [hv] at version; cases version
  | ordinary version plain xid small sent | command version command xid range sent =>
    obtain ⟨teid,body,hs⟩ := sent
    rw [hp] at hs
    rw [Option.some.inj hs] at he
    exact he.xid hlt

end Issued

theorem gtp1ListOf_answer {x : Xact} {type : Byte} (hv : x.gtpVersion = .gtp1)
    (h : Layer.Answers x type) : gtp1ListOf type=some .localOriginator := by
  unfold Layer.Answers at h
  rw [hv] at h
  unfold gtp1ListOf
  rcases h with h | ⟨h,hne⟩
  · rw [h]
  · rw [h]
    exact if_neg hne

theorem gtp2XactGetStage_final {type : Byte} {xid : BitVec 32} (h : isFailureIndication type) :
    gtp2XactGetStage type xid = .final := by
  unfold gtp2XactGetStage
  rw [isFailureIndication,List.mem_cons,List.mem_cons,List.mem_singleton] at h
  rcases h with h | h | h <;> rw [h] <;> rfl

theorem gtp2XactGetStage_triggered {type : Byte} {xid : BitVec 32} (h : type.val∈[95,97,99]) :
    gtp2XactGetStage type xid = if isCmdXid xid then .intermediate else .initial := by
  unfold gtp2XactGetStage
  rw [List.mem_cons,List.mem_cons,List.mem_singleton] at h
  rcases h with h | h | h <;> rw [h] <;> rfl

theorem gtp2ListOf_answer {x : Xact} {type : Byte} (hv : x.gtpVersion = .gtp2)
    (hcmd : isCmdXid x.xid=true ↔ isCommand x.firstSeq.type) (h : Layer.Answers x type) :
    gtp2ListOf type x.xid=some .localOriginator := by
  unfold Layer.Answers at h
  rw [hv] at h
  simp only at h
  unfold gtp2ListOf
  by_cases hc : isCommand x.firstSeq.type
  · rw [if_pos hc] at h
    have hbit:=hcmd.mpr hc
    rcases h with h | h
    · rw [gtp2XactGetStage_final h]
      simp only [hbit,h,if_true]
    · rw [gtp2XactGetStage_triggered h,hbit]
      rfl
  · rw [if_neg hc] at h
    have hbit : isCmdXid x.xid=false := by
      rw [Bool.eq_false_iff]
      exact fun hb => hc (hcmd.mp hb)
    rw [h]
    simp [hbit]

theorem findXact_unique {s : Layer} {l : List Nat} {v : Version} {xid : BitVec 32} {r : Nat}
    (hr : r∈l) (hv : (s.obj r).gtpVersion=v) (hx : (s.obj r).xid=xid)
    (huniq : ∀ i∈l,(s.obj i).gtpVersion=v → (s.obj i).xid=xid → i=r) :
    s.findXact l v xid=some r := by
  cases hf : s.findXact l v xid with
  | some i =>
    obtain ⟨hi,hvi,hxi⟩ := Layer.findXact_some hf
    rw [huniq i hi hvi hxi]
  | none =>
    have hnone:=List.find?_eq_none.mp hf r hr
    rw [Bool.and_eq_true,beq_iff_eq,beq_iff_eq] at hnone
    exact absurd ⟨hv,hx⟩ hnone

structure Begun (x : Xact) (v : Version) (xid : BitVec 32) (q : Seq) : Prop where
  gtpVersion : x.gtpVersion=v
  xid : x.xid=xid
  begun : x.step≠0
  first : x.firstSeq=q

/-- What a function that creates a local transaction leaves; `drawn` is the transaction unless its
message was refused. -/
structure Drawn (s t : Layer) (drawn : Option Nat) (v : Version) (xid : BitVec 32) (node : Nat)
    (q : Seq) : Prop where
  lists : t.Lists
  xactId : t.xactId=s.xactId
  locals : ∀ m,∀ i ∈ t.list (.localOriginator,m),
    (i∈s.list (.localOriginator,m) ∧ drawn≠some i ∧ t.obj i=s.obj i) ∨
      (m=node ∧ drawn=some i ∧ Begun (t.obj i) v xid q)

theorem begun_save {rc : Rcounts} {x : Xact} {v : Version} {xid : BitVec 32} {node id : Nat}
    {response peer : Bool} (hx : x = .create rc id v .localOriginator xid node response peer)
    (q : Seq) : Begun (x.save q) v xid q := by
  subst hx
  exact ⟨rfl,rfl,Nat.succ_ne_zero _,rfl⟩

theorem Layer.firstTx_drawn {rc : Rcounts} {s t u : Layer} {v : Version} {xid : BitVec 32}
    {node r : Nat} {stage : Stage} {finals : List Nat} {q : Seq} {a : Result}
    (hn : New rc s t v .localOriginator xid node r)
    (h : t.firstTx r ((t.obj r).updateTx stage finals q)=some (.ok u a)) :
    Drawn s u a.xact v xid node q := by
  obtain ⟨id,response,peer,hx⟩ := hn.new
  have hmem:=(hn.mem (.localOriginator,node) r).mpr (.inr ⟨rfl,rfl⟩)
  have hold : ∀ m,∀ i∈t.list (.localOriginator,m),i≠r →
      i∈s.list (.localOriginator,m) ∧ t.obj i=s.obj i := by
    intro m i hi hne
    rcases (hn.mem _ i).mp hi with hi | ⟨he,-⟩
    · exact ⟨hi,hn.old i hne⟩
    · exact absurd he hne
  rcases (t.obj r).updateTx_cases stage finals q with hu | hu | hu | ⟨-,hu⟩ <;> rw [hu] at h
  · cases h
  · cases h
  · cases h
    have hset:=later_setXact (r := r) hn.lists (Xact.Kept.refl (t.obj r))
    refine ⟨(later_delete hset.lists hmem).lists,hn.xactId,?_⟩
    intro m i hi
    obtain ⟨hne,hi⟩ := (hset.lists.mem_remove hmem).mp hi
    obtain ⟨his,ho⟩ := hold m i hi hne
    refine .inl ⟨his,by simp,?_⟩
    exact (Store.setObj_of_ne hne).trans ho
  · cases h
    have hset:=later_setXact hn.lists (Xact.save_kept (t.obj r) q)
    refine ⟨hset.lists,hn.xactId,?_⟩
    intro m i hi
    by_cases hne : i=r
    · subst hne
      have hhome:=hn.lists.listed _ i hi
      rw [hn.lists.listed _ i hmem] at hhome
      cases hhome
      refine .inr ⟨rfl,rfl,?_⟩
      have hself : (t.setXact i ((t.obj i).save q)).obj i=_ := Store.setObj_self
      rw [hself]
      exact begun_save hx q
    · obtain ⟨his,ho⟩ := hold m i hi hne
      refine .inl ⟨his,?_,(Store.setObj_of_ne hne).trans ho⟩
      exact fun he => hne (Option.some.inj he).symm

section Draw

variable {rc : Rcounts} {s t : Layer} {node timers : Nat} {body : List Byte} {a : Result}

theorem gtp1LocalCreate_drawn {h : Header1} (hs : s.Lists)
    (hc : s.gtp1LocalCreate rc node h body timers=some (.ok t a)) :
    Drawn { s with xactId := nextXactId s.xactId 0 65535 } t a.xact .gtp1
      (nextXactId s.xactId 0 65535) node
      ⟨h.type,some (gtp1Push h.type h.teid (nextXactId s.xactId 0 65535) body)⟩ := by
  unfold Layer.gtp1LocalCreate at hc
  simp only at hc
  split at hc
  · rename_i u r hu
    have hn:=Layer.create_new (s := { s with xactId := nextXactId s.xactId 0 65535 }) hs hu
    obtain ⟨id,response,peer,hx⟩ := hn.new
    have hxid : (u.obj r).xid=nextXactId s.xactId 0 65535 := by rw [hx]; rfl
    unfold Xact.gtp1UpdateTx at hc
    rw [hxid] at hc
    exact Layer.firstTx_drawn hn hc
  · cases hc

theorem gtpLocalCreate_drawn {h : Header2} (hs : s.Lists) {xid : BitVec 32}
    (hxid : xid = if isCommand h.type then nextXactId s.xactId 1 0x800000 ||| 0x800000
      else nextXactId s.xactId 1 0x800000)
    (hc : s.gtpLocalCreate rc node h body timers=some (.ok t a)) :
    Drawn { s with xactId := nextXactId s.xactId 1 0x800000 } t a.xact .gtp2 xid node
      ⟨h.type,some (gtp2Push h.type h.teid xid body)⟩ := by
  unfold Layer.gtpLocalCreate at hc
  simp only [← hxid] at hc
  split at hc
  · rename_i u r hu
    have hn:=Layer.create_new (s := { s with xactId := nextXactId s.xactId 1 0x800000 }) hs hu
    obtain ⟨id,response,peer,hx⟩ := hn.new
    have hxid' : (u.obj r).xid=xid := by rw [hx]; rfl
    unfold Xact.gtpUpdateTx at hc
    rw [hxid'] at hc
    exact Layer.firstTx_drawn hn hc
  · cases hc

end Draw

end OgsDp.Gtp
