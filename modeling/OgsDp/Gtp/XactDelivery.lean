import OgsDp.Gtp.XactRequest
import OgsDp.Lib.Holders

/-!
# Every GTP message is delivered once (lib/gtp/xact.c)

A message that begins a transaction of the peer is known by its version, its peer and its
transaction id.
-/

namespace OgsDp.Gtp
open Lib OgsDp.Core Delivery Function List Option

abbrev Request := Version × Nat × BitVec 32
abbrev Packet := Nat × List Byte

def Xact.requestOf (x : Xact) : Request := (x.gtpVersion,x.node,x.xid)

def receiveLabels (k : Request) (type : Byte) (o : Outcome Layer Result) :
    List (Label Request Packet) :=
  if getStage k.1 type k.2.2 = .initial then
    match o with
    | .ok _ a =>
      match a.rv with
      | .ok => [.delivered k]
      | .retry => [.dropped k a.sent]
      | .error => [.refused k]
    | .abort _ => []
  else []

def expiryLabels (x : Xact) (last : Bool) : Outcome Layer Result → List (Label Request Packet)
  | .ok _ _ => if x.org = .remoteOriginator ∧ last=true then [.expired x.requestOf] else []
  | .abort _ => []

section Events

variable (s : Layer)

def timeoutLabels (r : Nat) (last : Xact → Bool) (o : Outcome Layer Result) :
    List (Label Request Packet) :=
  match s.pool.findById (s.obj r).id with
  | some i => expiryLabels (s.obj i) (last (s.obj i)) o
  | none => []

/-- Whether a message was handed to the application, what was sent for a copy of it, which second
message was committed, and for which transaction a holding timer ran out for the last time. -/
def label : Layer.Op → Outcome Layer Result → List (Label Request Packet)
  | .gtp1Receive node h _, o =>
    if h.s then receiveLabels (.gtp1,node,gtp1SqnToXid h.sqn) h.type o else []
  | .gtpReceive node h _, o =>
    receiveLabels (.gtp2,node,gtp2SqnToXid (if h.teidPresence then h.sqn else h.sqnOnly)) h.type o
  | .commit r, .ok _ ⟨_,_,some p⟩ =>
    if (s.obj r).org = .remoteOriginator then [.committed (s.obj r).requestOf p] else []
  | .holdingTimeout r, o => timeoutLabels s r (fun x => x.holdingRcount == 1) o
  | _, _ => []

/-- The transactions of the peer that end before their holding timer does. -/
def earlyEnds : Layer.Op → Outcome Layer Result → List (Label Request Packet)
  | .commit r, .ok _ _ =>
    if (s.obj r).org = .remoteOriginator ∧ (s.obj r).step=3 then
      [.expired (s.obj r).requestOf]
    else []
  | .responseTimeout r, o => timeoutLabels s r (fun x => x.responseRcount == 1) o
  | .deleteAll node, .ok _ _ =>
    (s.list (.remoteOriginator,node)).map fun r => .expired (s.obj r).requestOf
  | _, _ => []

def events (e : Layer.Op) (o : Outcome Layer Result) : List (Label Request Packet) :=
  label s e o++earlyEnds s e o

def Finds (node : Nat) (v : Version) (org : Option Org) (xid : BitVec 32) (P : Xact → Prop) : Prop :=
  org=some .remoteOriginator →
    ∀ r∈s.findXact (s.list (.remoteOriginator,node)) v xid,P (s.obj r)

instance decidableFinds (node : Nat) (v : Version) (org : Option Org) (xid : BitVec 32)
    (P : Xact → Prop) [∀ x,Decidable (P x)] : Decidable (Finds s node v org xid P) :=
  inferInstanceAs (Decidable (_ → ∀ r∈_,_))

/-- A condition on the transaction of the peer that a message finds. -/
def OnReceive (P : Byte → Xact → Prop) : Layer.Op → Prop
  | .gtp1Receive node h _ =>
    Finds s node .gtp1 (gtp1ListOf h.type) (gtp1SqnToXid h.sqn) (P h.type)
  | .gtpReceive node h _ =>
    let xid:=gtp2SqnToXid (if h.teidPresence then h.sqn else h.sqnOnly)
    Finds s node .gtp2 (gtp2ListOf h.type xid) xid (P h.type)
  | _ => True

instance decidableOnReceive (P : Byte → Xact → Prop) [∀ type x,Decidable (P type x)] :
    ∀ e,Decidable (OnReceive s P e)
  | .gtp1Receive _ _ _ | .gtpReceive _ _ _ => inferInstanceAs (Decidable (Finds ..))
  | .gtp1LocalCreate _ _ _ _ | .gtpLocalCreate _ _ _ _ | .gtp1UpdateTx _ _ _ | .gtpUpdateTx _ _ _
  | .commit _ | .deleteAll _ | .startPeer _ | .responseTimeout _ | .holdingTimeout _
  | .peerTimeout _ => isTrue trivial

/-- The message is the one that the transaction began with, or a response to a triggered one. -/
def SameMessage (type : Byte) (x : Xact) : Prop :=
  (x.stage type = .initial → x.firstSeq.type=type) ∧
    (x.stage type = .final → x.stage x.secondSeq.type = .intermediate)

instance (type : Byte) (x : Xact) : Decidable (SameMessage type x) :=
  inferInstanceAs (Decidable ((_ → _) ∧ (_ → _)))

/-- No peer uses the number of a transaction that is alive for another message, and none comes
between the response to a triggered message and its commit. The application takes the functions
of the version of a transaction, and commits it after its second message was handed over. -/
def InTurn (e : Layer.Op) : Prop :=
  OnReceive s (fun type x => SameMessage type x ∧ x.step≠3) e ∧
    match e with
    | .gtp1UpdateTx r _ _ => (s.obj r).gtpVersion = .gtp1
    | .gtpUpdateTx r _ _ => (s.obj r).gtpVersion = .gtp2
    | .commit r => (s.obj r).org = .remoteOriginator → (s.obj r).step≠1
    | _ => True

instance decidableInTurn (e : Layer.Op) : Decidable (InTurn s e) :=
  have : Decidable (match e with
    | .gtp1UpdateTx r _ _ => (s.obj r).gtpVersion = .gtp1
    | .gtpUpdateTx r _ _ => (s.obj r).gtpVersion = .gtp2
    | .commit r => (s.obj r).org = .remoteOriginator → (s.obj r).step≠1
    | _ => True) := by
    cases e <;> infer_instance
  inferInstanceAs (Decidable (_ ∧ _))

end Events

/-- The transactions of the peers, each with its message and what it answers to a copy. -/
def holders (s : Layer) : Holders Request Packet where
  alive r := r∈s.list (.remoteOriginator,(s.obj r).node)
  key r := (s.obj r).requestOf
  reply r := (s.obj r).secondSeq.pkbuf.map fun p => ((s.obj r).node,p)

structure Sim (s : Layer) (t : Table Request Packet) : Prop where
  lists : s.Lists
  held : ∀ r,(holders s).alive r → (s.obj r).Held
  table : Matches (holders s) t

theorem sim_init (size : Nat) (obj : Nat → Xact) : Sim (Layer.init size obj) fun _ => none where
  lists := Store.lists_init size obj
  held := by
    intro r hr
    cases hr
  table := Matches.empty (by
    intro r hr
    cases hr)

theorem alive_of_mem {s : Layer} {node r : Nat} (h : s.Lists)
    (hr : r∈s.list (.remoteOriginator,node)) :
    (holders s).alive r ∧ (s.obj r).org = .remoteOriginator ∧ (s.obj r).node=node := by
  have hhome : ((s.obj r).org,(s.obj r).node)=_ := h.listed _ r hr
  obtain ⟨ho,hn⟩ := Prod.mk.inj hhome
  refine ⟨?_,ho,hn⟩
  show r∈s.list (.remoteOriginator,(s.obj r).node)
  rw [hn]
  exact hr

namespace Sim

variable {rc : Rcounts} {s s' : Layer} {t : Table Request Packet} {node r : Nat} {x : Xact}
  {v : Version} {xid : BitVec 32}

theorem congr (h : Sim s t) (hl : s'.Lists)
    (hmem : ∀ n i,i∈s'.list (.remoteOriginator,n) ↔ i∈s.list (.remoteOriginator,n))
    (hobj : ∀ i,(holders s).alive i → (s.obj i).Serves (s'.obj i)) : Sim s' t := by
  have halive : ∀ i,(holders s').alive i ↔ (holders s).alive i := by
    intro i
    constructor
    · intro hi
      exact (alive_of_mem h.lists ((hmem _ i).mp hi)).1
    · intro hi
      show i∈s'.list (.remoteOriginator,(s'.obj i).node)
      rw [hmem,(hobj i hi).node]
      exact hi
  have horg : ∀ i,(holders s).alive i → (s.obj i).org = .remoteOriginator :=
    fun i hi => (alive_of_mem h.lists hi).2.1
  refine ⟨hl,?_,h.table.congr halive ?_ ?_⟩
  · intro i hi
    rw [halive] at hi
    exact (hobj i hi).held (horg i hi) (h.held i hi)
  · intro i hi
    show (s'.obj i).requestOf=(s.obj i).requestOf
    unfold Xact.requestOf
    rw [(hobj i hi).gtpVersion,(hobj i hi).node,(hobj i hi).xid]
  · intro i hi p hp
    obtain ⟨b,hb,rfl⟩ := map_eq_some_iff.mp hp
    refine map_eq_some_iff.mpr ⟨b,?_,?_⟩
    · exact (hobj i hi).reply (horg i hi) (h.held i hi) b hb
    · rw [(hobj i hi).node]

theorem setXact (h : Sim s t) (hx : (s.obj r).Serves x) : Sim (s.setXact r x) t := by
  refine h.congr (Layer.later_setXact h.lists hx.toKept).lists (fun _ _ => Iff.rfl) ?_
  intro i _
  show (s.obj i).Serves ((s.setObj r x).obj i)
  by_cases hi : i=r
  · rw [hi,Store.setObj_self]
    exact hx
  · rw [Store.setObj_of_ne hi]
    exact Xact.Serves.refl _

theorem deleteLocal (h : Sim s t) (hr : r∈s.list (.localOriginator,node)) :
    Sim (s.delete r) t := by
  refine h.congr (h.lists.remove hr) ?_ fun i _ => Xact.Serves.refl _
  intro n i
  refine (h.lists.mem_remove hr).trans ⟨fun hi => hi.2,fun hi => ⟨?_,hi⟩⟩
  intro he
  rw [he] at hi
  have hhome:=(h.lists.listed _ r hi).symm.trans (h.lists.listed _ r hr)
  cases hhome

theorem newLocal (h : Sim s t) (hn : Layer.New rc s s' v .localOriginator xid node r) :
    Sim s' t := by
  refine h.congr hn.lists ?_ ?_
  · intro n i
    rw [hn.mem]
    simp
  · intro i hi
    have hne : i≠r := fun he => hn.absent _ (he ▸ hi)
    rw [hn.old i hne]
    exact Xact.Serves.refl _

theorem stray (h : Sim s t) (hn : Layer.New rc s s' v .remoteOriginator xid node r) :
    Sim ((s'.setXact r (s'.obj r)).delete r) t := by
  have hset:=Layer.later_setXact (r := r) hn.lists (Xact.Kept.refl (s'.obj r))
  have hmem : r∈(s'.setXact r (s'.obj r)).list (.remoteOriginator,node) :=
    (hn.mem _ r).mpr (.inr ⟨rfl,rfl⟩)
  refine h.congr (Layer.later_delete hset.lists hmem).lists ?_ ?_
  · intro n i
    refine (hset.lists.mem_remove hmem).trans ?_
    constructor
    · intro hi
      obtain ⟨hne,hi⟩ := hi
      rcases (hn.mem _ i).mp hi with hi | ⟨he,-⟩
      · exact hi
      · exact absurd he hne
    · intro hi
      exact ⟨fun he => hn.absent _ (he ▸ hi),(hn.mem _ i).mpr (.inl hi)⟩
  · intro i hi
    have hne : i≠r := fun he => hn.absent _ (he ▸ hi)
    show (s.obj i).Serves ((s'.setObj r _).obj i)
    rw [Store.setObj_of_ne hne,hn.old i hne]
    exact Xact.Serves.refl _

theorem expire (h : Sim s t) (hr : (holders s).alive r) :
    ∃ u,next t (.expired (s.obj r).requestOf)=some u ∧ Sim (s.delete r) u := by
  have hmem : ∀ i,(holders (s.delete r)).alive i ↔ i≠r ∧ (holders s).alive i :=
    fun i => h.lists.mem_remove hr
  obtain ⟨u,hu,htable⟩ := h.table.expire (J := holders (s.delete r)) hr hmem rfl rfl
  exact ⟨u,hu,h.lists.remove hr,fun i hi => h.held i ((hmem i).mp hi).2,htable⟩

theorem deliver (h : Sim s t) (hn : Layer.New rc s s' v .remoteOriginator xid node r)
    (hk : ∀ i,(holders s).alive i → (s.obj i).requestOf≠(v,node,xid))
    (hx : (s'.obj r).Kept x) (hheld : x.Held) :
    ∃ u,next t (.delivered (v,node,xid))=some u ∧ Sim (s'.setXact r x) u := by
  obtain ⟨id,response,peer,hcreate⟩ := hn.new
  have hset:=Layer.later_setXact hn.lists hx
  have hself : (s'.setXact r x).obj r=x := Store.setObj_self
  have hold : ∀ i,i≠r → (s'.setXact r x).obj i=s.obj i :=
    fun i hi => (Store.setObj_of_ne hi).trans (hn.old i hi)
  have hnode : x.node=node := by rw [hx.node,hcreate]; rfl
  have hmem : ∀ i,(holders (s'.setXact r x)).alive i ↔ (holders s).alive i ∨ i=r := by
    intro i
    show i∈s'.list (.remoteOriginator,((s'.setXact r x).obj i).node) ↔ _
    rw [hn.mem]
    by_cases hi : i=r
    · rw [hi,hself,hnode]
      exact iff_of_true (.inr ⟨rfl,rfl⟩) (.inr rfl)
    · rw [hold i hi]
      simp only [hi,false_and,or_false]
      exact Iff.rfl
  have hne : ∀ i,(holders s).alive i → i≠r := fun i hi he => hn.absent _ (he ▸ hi)
  have hnew : (holders (s'.setXact r x)).key r=(v,node,xid) := by
    show Xact.requestOf ((s'.setXact r x).obj r)=_
    rw [hself,Xact.requestOf,hnode,hx.gtpVersion,hx.xid,hcreate]
    rfl
  obtain ⟨u,hu,htable⟩ := h.table.deliver (J := holders (s'.setXact r x)) (i := r) hk hnew hmem
    (fun i hi => congrArg Xact.requestOf (hold i (hne i hi)))
    (fun i hi => congrArg (fun y : Xact => y.secondSeq.pkbuf.map fun p => (y.node,p))
      (hold i (hne i hi)))
  refine ⟨u,hu,hset.lists,?_,htable⟩
  intro i hi
  rcases (hmem i).mp hi with hi | hi
  · rw [hold i (hne i hi)]
    exact h.held i hi
  · rw [hi,hself]
    exact hheld

theorem requestOf_ne (hf : s.findXact (s.list (.remoteOriginator,node)) v xid=none) :
    ∀ i,(holders s).alive i → (s.obj i).requestOf≠(v,node,xid) := by
  intro i hi he
  have hmem : i∈s.list (.remoteOriginator,(s.obj i).node) := hi
  unfold Xact.requestOf at he
  rw [Prod.mk.injEq,Prod.mk.injEq] at he
  obtain ⟨hv,hn,hx⟩ := he
  rw [hn] at hmem
  have hnone:=List.find?_eq_none.mp hf i hmem
  rw [hv,hx] at hnone
  simp at hnone

end Sim

/-- The call made the events `L`, and the transactions still follow the table after it. -/
def Made (t : Table Request Packet) (L : List (Label Request Packet)) (o : Outcome Layer Result) :
    Prop :=
  ∃ u,run t L=some u ∧ o.Leaves (fun s => Sim s u) fun _ => True

section Calls

variable {rc : Rcounts} {s s' : Layer} {t : Table Request Packet} {node r timers : Nat}
  {a : Result} {l : Label Request Packet} {v : Version} {type : Byte} {xid : BitVec 32}
  {o : Outcome Layer Result}

theorem made_nil (hs : Sim s t) : Made t [] (.ok s a) := ⟨t,rfl,hs⟩

theorem made_abort : Made t [] (.abort s') := ⟨t,rfl,trivial⟩

theorem made_one (hs : ∃ u,next t l=some u ∧ Sim s u) : Made t [l] (.ok s a) := by
  obtain ⟨u,hu,hs⟩ := hs
  exact ⟨u,by simp [run,hu],hs⟩

theorem made_deliver_local (hs : Sim s t) (hr : r∈s.list (.localOriginator,node)) :
    Made t [] (s.deliver r type) := by
  have ho : (s.obj r).org = .localOriginator := congrArg Prod.fst (hs.lists.listed _ r hr)
  have hx:=Xact.updateRx_kept (s.obj r) type
  unfold Layer.deliver
  cases hu : (s.obj r).updateRx type with
  | abort x => exact made_abort
  | ok x a =>
    rw [hu] at hx
    have hset:=hs.setXact (Xact.Serves.of_local hx ho)
    obtain ⟨rv,sent⟩ := a
    cases rv with
    | ok => exact made_nil hset
    | error => exact made_nil (hset.deleteLocal hr)
    | retry => exact made_nil hset

theorem made_deliver_held (hs : Sim s t) (hr : r∈s.list (.remoteOriginator,node))
    (hv : (s.obj r).gtpVersion=v) (hxid : (s.obj r).xid=xid)
    (hsame : SameMessage type (s.obj r)) (h3 : (s.obj r).step≠3)
    (hstage : getStage v type xid = .initial ∨ getStage v type xid = .final) :
    Made t (receiveLabels (v,node,xid) type (s.deliver r type)) (s.deliver r type) := by
  obtain ⟨halive,ho,hn⟩ := alive_of_mem hs.lists hr
  have hreq : (s.obj r).requestOf=(v,node,xid) := by
    unfold Xact.requestOf
    rw [hv,hn,hxid]
  have hstageOf : (s.obj r).stage type=getStage v type xid := by
    unfold Xact.stage
    rw [hv,hxid]
  have hheld:=hs.held r halive
  rcases hstage with hstage | hstage
  · have htype:=hsame.1 (hstageOf.trans hstage)
    have hx:=Xact.updateRx_copy ho hheld h3
    rw [htype] at hx
    unfold Layer.deliver
    cases hu : (s.obj r).updateRx type with
    | abort x =>
      simp only [receiveLabels,if_pos hstage]
      exact made_abort
    | ok x a =>
      rw [hu] at hx
      obtain ⟨hserves,rfl⟩ := hx
      simp only [receiveLabels,if_pos hstage]
      have hdrop:=hs.table.drop halive
      have hkey : (holders s).key r=(v,node,xid) := hreq
      rw [hkey] at hdrop
      have hreply : ((s.obj r).secondSeq.pkbuf.map fun p => (x.node,p))=(holders s).reply r := by
        rw [hserves.node]
        rfl
      rw [hreply]
      exact made_one ⟨t,hdrop,hs.setXact hserves⟩
  · have htype : (s.obj r).stage type = .final := hstageOf.trans hstage
    have hsecond:=hsame.2 htype
    have h2 : (s.obj r).step=2 := by
      cases hheld.phase with
      | received step silent => exact absurd hsecond (Xact.not_triggered silent)
      | replied step | triggered step => exact step
      | answered step => exact absurd step h3
    have hx:=Xact.updateRx_answer ho h2 hsecond htype
    have hne : ¬ getStage v type xid = .initial := by
      rw [hstage]
      exact fun he => nomatch he
    have hlabels : receiveLabels (v,node,xid) type (s.deliver r type)=[] := if_neg hne
    rw [hlabels]
    unfold Layer.deliver
    cases hu : (s.obj r).updateRx type with
    | abort x => exact made_abort
    | ok x a =>
      rw [hu] at hx
      obtain ⟨hserves,rfl⟩ := hx
      exact made_nil (hs.setXact hserves)

theorem made_deliver_new (hs : Sim s t)
    (hf : getStage v type xid = .initial →
      s.findXact (s.list (.remoteOriginator,node)) v xid=none) :
    Made t (receiveLabels (v,node,xid) type
        ((s.remoteCreate rc node v xid timers).bind fun s' r => s'.deliver r type))
      ((s.remoteCreate rc node v xid timers).bind fun s' r => s'.deliver r type) := by
  cases hc : s.remoteCreate rc node v xid timers with
  | abort s' =>
    have hlabels : receiveLabels (v,node,xid) type
        ((Outcome.abort s').bind fun s' r => s'.deliver r type)=[] := by
      unfold receiveLabels
      split <;> rfl
    rw [hlabels]
    exact made_abort
  | ok s' r =>
    have hn:=Layer.create_new hs.lists hc
    obtain ⟨id,response,peer,hx⟩ := hn.new
    rw [Outcome.bind_ok]
    unfold Layer.deliver
    by_cases hstage : getStage v type xid = .initial
    · have hrx:=Xact.updateRx_new hx hstage
      cases hu : (s'.obj r).updateRx type with
      | abort x =>
        simp only [receiveLabels,if_pos hstage]
        exact made_abort
      | ok x a =>
        rw [hu] at hrx
        obtain ⟨hkept,hheld,rfl⟩ := hrx
        simp only [receiveLabels,if_pos hstage]
        exact made_one (hs.deliver hn (Sim.requestOf_ne (hf hstage)) hkept hheld)
    · rw [Xact.updateRx_stray hx hstage]
      simp only [receiveLabels,if_neg hstage]
      exact made_nil (hs.stray hn)

theorem gtp1ListOf_remote (htype : gtp1XactGetStage type = .initial) :
    gtp1ListOf type=some .remoteOriginator := by
  unfold gtp1ListOf
  rw [htype]

theorem gtp1ListOf_stage (h : gtp1ListOf type=some .remoteOriginator) :
    gtp1XactGetStage type = .initial ∨ gtp1XactGetStage type = .final := by
  unfold gtp1ListOf at h
  cases hs : gtp1XactGetStage type with
  | initial => exact .inl rfl
  | final => exact .inr rfl
  | intermediate | unknown =>
    rw [hs] at h
    cases h

theorem gtp2ListOf_remote (htype : gtp2XactGetStage type xid = .initial) :
    gtp2ListOf type xid=some .remoteOriginator := by
  unfold gtp2ListOf
  rw [htype]

theorem gtp2ListOf_stage (h : gtp2ListOf type xid=some .remoteOriginator) :
    gtp2XactGetStage type xid = .initial ∨ gtp2XactGetStage type xid = .final := by
  unfold gtp2ListOf at h
  cases hs : gtp2XactGetStage type xid with
  | initial => exact .inl rfl
  | final => exact .inr rfl
  | intermediate | unknown =>
    rw [hs] at h
    cases h

theorem made_receive {org : Option Org} (hs : Sim s t)
    (hsame : Finds s node v org xid fun x => SameMessage type x ∧ x.step≠3)
    (hinitial : getStage v type xid = .initial → org=some .remoteOriginator)
    (hremote : org=some .remoteOriginator →
      getStage v type xid = .initial ∨ getStage v type xid = .final) :
    Made t (receiveLabels (v,node,xid) type (s.receive rc node v org type xid timers))
      (s.receive rc node v org type xid timers) := by
  have hother : ∀ o,org≠some .remoteOriginator → receiveLabels (v,node,xid) type o=[] :=
    fun o ho => if_neg fun hi => ho (hinitial hi)
  cases org with
  | none =>
    rw [hother _ (fun he => nomatch he)]
    exact made_nil hs
  | some org =>
    unfold Layer.receive
    simp only
    cases hf : s.findXact (s.list (org,node)) v xid with
    | none =>
      refine made_deliver_new hs ?_
      intro hi
      rw [← some.inj (hinitial hi)]
      exact hf
    | some r =>
      obtain ⟨hr,hv,hx⟩ := Layer.findXact_some hf
      cases org with
      | localOriginator =>
        simp only [hother _ (fun he => nomatch he)]
        exact made_deliver_local hs hr
      | remoteOriginator =>
        obtain ⟨hm,h3⟩ := hsame rfl r hf
        exact made_deliver_held hs hr hv hx hm h3 (hremote rfl)

theorem local_labels (h : (s.obj r).org = .localOriginator) : events s (.commit r) o=[] := by
  have hne : ¬ (s.obj r).org = .remoteOriginator := by
    rw [h]
    exact fun he => nomatch he
  cases o with
  | abort s' => rfl
  | ok s' a =>
    obtain ⟨rv,xact,sent⟩ := a
    cases sent <;> simp [events,label,earlyEnds,hne]

theorem made_commit (hs : Sim s t) (hr : s.Live r)
    (hturn : (s.obj r).org = .remoteOriginator → (s.obj r).step≠1)
    (hc : s.commit r=some o) : Made t (events s (.commit r) o) o := by
  have hmem:=hs.lists.mem_of_live hr
  have hhome : home (s.obj r)=((s.obj r).org,(s.obj r).node) := rfl
  rw [hhome] at hmem
  unfold Layer.commit at hc
  simp only at hc
  cases ho : (s.obj r).org with
  | localOriginator =>
    rw [ho] at hmem
    rw [local_labels ho]
    cases hl : (s.obj r).lastSeq with
    | none =>
      rw [hl] at hc
      cases hc
    | some last =>
      rw [hl] at hc
      simp only at hc
      cases hx : (s.obj r).commit last.type with
      | delete rv =>
        rw [hx] at hc
        cases hc
        exact made_nil (hs.deleteLocal hmem)
      | keep =>
        rw [hx] at hc
        cases hc
        exact made_nil hs
      | send start =>
        rw [hx] at hc
        simp only at hc
        cases hp : last.pkbuf with
        | none =>
          rw [hp] at hc
          cases hc
          exact made_abort
        | some b =>
          rw [hp] at hc
          cases hc
          refine made_nil (hs.setXact (.of_local ?_ ho))
          split
          · exact Xact.startResponse_kept _
          · exact Xact.Kept.refl _
  | remoteOriginator =>
    rw [ho] at hmem
    obtain ⟨halive,-,-⟩ := alive_of_mem hs.lists hmem
    -- the second message goes out, for the first time or again
    have hsecond : (s.obj r).step=2 → (s.obj r).secondSeq.pkbuf.isSome →
        (s.obj r).stage (s.obj r).secondSeq.type = .intermediate ∨
          (s.obj r).stage (s.obj r).secondSeq.type = .final →
        Made t (events s (.commit r) o) o := by
      intro hstep hsent hstage
      obtain ⟨hl,start,hx⟩ := Xact.commit_second ho hstep hstage
      obtain ⟨b,hb⟩ := isSome_iff_exists.mp hsent
      rw [hl] at hc
      simp only [hx,hb] at hc
      cases hc
      have hreply : (holders s).reply r=some ((s.obj r).node,b) := by
        show (s.obj r).secondSeq.pkbuf.map _=_
        rw [hb]
        rfl
      obtain ⟨u,hu,htable⟩ := hs.table.commit halive hreply
      have hu' : Sim s u := ⟨hs.lists,hs.held,htable⟩
      have hlabels : events s (.commit r)
          (.ok (s.setXact r (if start then (s.obj r).startResponse else s.obj r))
            ⟨.ok,none,some ((s.obj r).node,b)⟩) =
          [.committed (s.obj r).requestOf ((s.obj r).node,b)] := by
        simp [events,label,earlyEnds,ho,hstep]
      rw [hlabels]
      refine made_one ⟨u,hu,hu'.setXact ?_⟩
      split
      · exact .of_seq (Xact.startResponse_kept _) rfl rfl
      · exact Xact.Serves.refl _
    cases (hs.held r halive).phase with
    | received step => exact absurd step (hturn ho)
    | replied step final sent => exact hsecond step sent (.inr final)
    | triggered step intermediate sent => exact hsecond step sent (.inl intermediate)
    | answered step intermediate sent final =>
      obtain ⟨hl,hx⟩ := Xact.commit_answered ho step final
      rw [hl] at hc
      simp only [hx] at hc
      cases hc
      have hlabels : events s (.commit r) (.ok (s.delete r) ⟨.ok,none,none⟩) =
          [.expired (s.obj r).requestOf] := by
        simp [events,label,earlyEnds,ho,step]
      rw [hlabels]
      exact made_one (hs.expire halive)

theorem made_drop {x : Xact} (hs : Sim s t) (hr : s.Live r) (hx : (s.obj r).Serves x) :
    Made t (if (s.obj r).org = .remoteOriginator then [.expired (s.obj r).requestOf] else [])
      (.ok ((s.setXact r x).delete r) a) := by
  have hset:=hs.setXact hx
  have hmem:=hs.lists.mem_of_live hr
  have hhome : home (s.obj r)=((s.obj r).org,(s.obj r).node) := rfl
  rw [hhome] at hmem
  cases ho : (s.obj r).org with
  | localOriginator =>
    rw [ho] at hmem
    exact made_nil (hset.deleteLocal hmem)
  | remoteOriginator =>
    rw [ho] at hmem
    have hself : (s.setXact r x).obj r=x := Store.setObj_self
    have halive : (holders (s.setXact r x)).alive r := by
      show r∈s.list (.remoteOriginator,((s.setXact r x).obj r).node)
      rw [hself,hx.node]
      exact hmem
    have hreq : ((s.setXact r x).obj r).requestOf=(s.obj r).requestOf := by
      rw [hself]
      unfold Xact.requestOf
      rw [hx.gtpVersion,hx.node,hx.xid]
    rw [if_pos rfl,← hreq]
    exact made_one (hset.expire halive)

theorem rcount_last (b : BitVec 8) : 0<b-1 ↔ ¬ (b == 1)=true := by
  rw [beq_iff_eq,BitVec.lt_def]
  constructor
  · intro h hb
    rw [hb] at h
    exact absurd h (by decide)
  · intro h
    have hne : b-1≠0 := fun he => h (by simpa using BitVec.sub_eq_iff_eq_add.mp he)
    have hpos:=Nat.pos_of_ne_zero fun h0 => hne (BitVec.eq_of_toNat_eq h0)
    exact hpos

theorem made_responseExpired (hs : Sim s t) (hr : s.Live r) (he : s.responseExpired r=some o) :
    Made t (expiryLabels (s.obj r) ((s.obj r).responseRcount == 1) o) o := by
  have hkept : (s.obj r).Serves { s.obj r with responseRcount := (s.obj r).responseRcount-1 } :=
    .of_seq (.of_seq rfl rfl rfl rfl rfl rfl rfl) rfl rfl
  have hstart : (s.obj r).Serves
      { s.obj r with responseRcount := (s.obj r).responseRcount-1 }.startResponse :=
    .of_seq (.of_seq rfl rfl rfl rfl rfl rfl rfl) rfl rfl
  unfold Layer.responseExpired at he
  simp only [rcount_last] at he
  by_cases hl : ((s.obj r).responseRcount == 1)=true
  · rw [if_neg (not_not.mpr hl)] at he
    cases he
    simp only [expiryLabels,hl,and_true]
    exact made_drop hs hr hkept
  · rw [if_pos hl] at he
    split at he
    · cases he
    · split at he
      · cases he
        simp only [expiryLabels,hl,Bool.false_eq_true,and_false,if_false]
        exact made_nil (hs.setXact hstart)
      · cases he
        exact made_abort

theorem made_holdingExpired (hs : Sim s t) (hr : s.Live r) (he : s.holdingExpired r=some o) :
    Made t (expiryLabels (s.obj r) ((s.obj r).holdingRcount == 1) o) o := by
  have hkept : ∀ b,(s.obj r).Serves
      { s.obj r with holdingRcount := (s.obj r).holdingRcount-1,tmHolding := b } :=
    fun b => .of_seq (.of_seq rfl rfl rfl rfl rfl rfl rfl) rfl rfl
  unfold Layer.holdingExpired at he
  simp only [rcount_last] at he
  by_cases hl : ((s.obj r).holdingRcount == 1)=true
  · rw [if_neg (not_not.mpr hl)] at he
    cases he
    simp only [expiryLabels,hl,and_true]
    exact made_drop hs hr (hkept (s.obj r).tmHolding)
  · rw [if_pos hl] at he
    cases he
    simp only [expiryLabels,hl,Bool.false_eq_true,and_false,if_false]
    exact made_nil (hs.setXact (hkept true))

theorem made_timeout {x : Xact} (last : Xact → Bool)
    {expired : Layer → Nat → Option (Outcome Layer Result)} (hs : Sim s t)
    (hx : (s.obj r).Serves x) (hlast : last x=last (s.obj r))
    (hexp : ∀ s' i,Sim s' t → s'.Live i → ∀ o,expired s' i=some o →
      Made t (expiryLabels (s'.obj i) (last (s'.obj i)) o) o)
    (ht : (s.setXact r x).timeout (s.obj r).id expired=some o) :
    Made t (timeoutLabels s r last o) o := by
  have hset:=hs.setXact hx
  have hpool : (s.setXact r x).pool.findById (s.obj r).id=s.pool.findById (s.obj r).id := rfl
  unfold Layer.timeout at ht
  rw [hpool] at ht
  unfold timeoutLabels
  cases hf : s.pool.findById (s.obj r).id with
  | none =>
    rw [hf] at ht
    cases ht
    exact made_nil hset
  | some i =>
    rw [hf] at ht
    have hmade:=hexp _ i hset (hs.lists.live_of_found hf) o ht
    have hsame : ∀ o,expiryLabels ((s.setXact r x).obj i) (last ((s.setXact r x).obj i)) o =
        expiryLabels (s.obj i) (last (s.obj i)) o := by
      intro o
      by_cases hi : i=r
      · have hself : (s.setXact r x).obj i=x := by
          rw [hi]
          exact Store.setObj_self
        rw [hself,hi,hlast]
        cases o with
        | abort s' => rfl
        | ok s' a =>
          unfold expiryLabels Xact.requestOf
          rw [hx.org,hx.gtpVersion,hx.node,hx.xid]
      · have hother : (s.setXact r x).obj i=s.obj i := Store.setObj_of_ne hi
        rw [hother]
    rw [hsame] at hmade
    exact hmade

theorem made_deleteLocals {l : List Nat} (hs : Sim s t) (hnodup : l.Nodup)
    (hl : ∀ r∈l,r∈s.list (.localOriginator,node)) :
    Sim (s.deleteList l) t ∧ (s.deleteList l).obj=s.obj ∧
      (s.deleteList l).list (.remoteOriginator,node)=s.list (.remoteOriginator,node) := by
  induction l generalizing s with
  | nil => exact ⟨hs,rfl,rfl⟩
  | cons r l ih =>
    have hr:=hl r (mem_cons_self ..)
    obtain ⟨hnot,hnodup⟩ := nodup_cons.mp hnodup
    obtain ⟨hsim,hobj,hlist⟩ := ih (hs.deleteLocal hr) hnodup (by
      intro i hi
      refine (hs.lists.mem_remove hr).mpr ⟨?_,hl i (mem_cons_of_mem r hi)⟩
      exact fun he => hnot (he ▸ hi))
    refine ⟨hsim,hobj,hlist.trans ?_⟩
    show update s.list (home (s.obj r)) _ _=_
    rw [hs.lists.listed _ r hr]
    exact update_of_ne (by simp) ..

theorem made_deleteRemotes {l : List Nat} (hs : Sim s t) (hnodup : l.Nodup)
    (hl : ∀ r∈l,r∈s.list (.remoteOriginator,node)) :
    Made t (l.map fun r => .expired (s.obj r).requestOf) (.ok (s.deleteList l) a) := by
  induction l generalizing s t with
  | nil => exact made_nil hs
  | cons r l ih =>
    have hr:=hl r (mem_cons_self ..)
    obtain ⟨hnot,hnodup⟩ := nodup_cons.mp hnodup
    obtain ⟨u,hu,hsim⟩ := hs.expire (alive_of_mem hs.lists hr).1
    obtain ⟨w,hw,hleaves⟩ := ih hsim hnodup (by
      intro i hi
      refine (hs.lists.mem_remove hr).mpr ⟨?_,hl i (mem_cons_of_mem r hi)⟩
      exact fun he => hnot (he ▸ hi))
    refine ⟨w,?_,hleaves⟩
    simp only [map_cons,run,hu]
    exact hw

theorem made_deleteAll (hs : Sim s t) :
    Made t (events s (.deleteAll node) (.ok (s.deleteAll node) a)) (.ok (s.deleteAll node) a) := by
  obtain ⟨hsim,hobj,hlist⟩ := made_deleteLocals hs
    (hs.lists.nodup (.localOriginator,node)) fun _ => id
  have hmade:=made_deleteRemotes (a := a) hsim (hsim.lists.nodup (.remoteOriginator,node))
    fun _ => id
  rw [hobj,hlist] at hmade
  show Made t _ (.ok (Layer.deleteList _ (Store.list _ _)) a)
  rw [hlist]
  exact hmade

theorem made_firstTx {stage : Stage} {finals : List Nat} {q : Seq} (hs : Sim s t)
    (hr : r∈s.list (.localOriginator,node))
    (ho : s.firstTx r ((s.obj r).updateTx stage finals q)=some o) : Made t [] o := by
  have horg : (s.obj r).org = .localOriginator := congrArg Prod.fst (hs.lists.listed _ r hr)
  rcases (s.obj r).updateTx_cases stage finals q with hu | hu | hu | ⟨-,hu⟩ <;> rw [hu] at ho <;>
    cases ho
  · exact made_abort
  · exact made_nil ((hs.setXact (Xact.Serves.refl _)).deleteLocal hr)
  · exact made_nil (hs.setXact (.of_local (Xact.save_kept _ q) horg))

theorem made_tx {finals : List Nat} {packet : List Byte} (hs : Sim s t)
    (ht : s.tx r ((s.obj r).updateTx ((s.obj r).stage type) finals ⟨type,some packet⟩)=some o) :
    Made t [] o := by
  cases hu : (s.obj r).updateTx ((s.obj r).stage type) finals ⟨type,some packet⟩ with
  | none =>
    rw [hu] at ht
    cases ht
  | some w =>
    rw [hu] at ht
    cases w with
    | abort x =>
      cases ht
      exact made_abort
    | ok x rv =>
      cases ht
      exact made_nil (hs.setXact (Xact.updateTx_serves hu))

theorem made_gtp1LocalCreate {h : Header1} {body : List Byte} (hs : Sim s t)
    (ho : s.gtp1LocalCreate rc node h body timers=some o) : Made t [] o := by
  have hs' : Sim { s with xactId := nextXactId s.xactId 0 65535 } t := ⟨hs.lists,hs.held,hs.table⟩
  unfold Layer.gtp1LocalCreate at ho
  simp only at ho
  split at ho
  · rename_i u r hu
    have hn:=Layer.create_new hs'.lists hu
    exact made_firstTx (hs'.newLocal hn) ((hn.mem _ r).mpr (.inr ⟨rfl,rfl⟩)) ho
  · cases ho
    exact made_abort

theorem made_gtpLocalCreate {h : Header2} {body : List Byte} (hs : Sim s t)
    (ho : s.gtpLocalCreate rc node h body timers=some o) : Made t [] o := by
  have hs' : Sim { s with xactId := nextXactId s.xactId 1 0x800000 } t :=
    ⟨hs.lists,hs.held,hs.table⟩
  unfold Layer.gtpLocalCreate at ho
  simp only at ho
  split at ho
  · rename_i u r hu
    have hn:=Layer.create_new hs'.lists hu
    exact made_firstTx (hs'.newLocal hn) ((hn.mem _ r).mpr (.inr ⟨rfl,rfl⟩)) ho
  · cases ho
    exact made_abort

theorem made_step {e : Layer.Op} (hs : Sim s t) (hturn : InTurn s e)
    (ho : s.step rc e=some o) : Made t (events s e o) o := by
  cases e with
  | gtp1LocalCreate node h body timers => exact made_gtp1LocalCreate hs ho
  | gtpLocalCreate node h body timers => exact made_gtpLocalCreate hs ho
  | gtp1Receive node h timers =>
    simp only [Layer.step,some.injEq] at ho
    subst ho
    cases hsf : h.s with
    | false =>
      simp only [Layer.gtp1Receive,events,label,earlyEnds,hsf]
      exact made_nil hs
    | true =>
      simp only [Layer.gtp1Receive,events,label,earlyEnds,hsf,append_nil]
      exact made_receive hs hturn.1 gtp1ListOf_remote gtp1ListOf_stage
  | gtpReceive node h timers =>
    simp only [Layer.step,some.injEq] at ho
    subst ho
    simp only [Layer.gtpReceive,events,label,earlyEnds,append_nil]
    exact made_receive hs hturn.1 gtp2ListOf_remote gtp2ListOf_stage
  | gtp1UpdateTx r h body =>
    simp only [Layer.step] at ho
    split at ho
    · have hv : (s.obj r).gtpVersion = .gtp1 := hturn.2
      have hstage : (s.obj r).stage h.type=gtp1XactGetStage h.type := by
        unfold Xact.stage
        rw [hv]
        rfl
      unfold Xact.gtp1UpdateTx at ho
      rw [← hstage] at ho
      exact made_tx hs ho
    · cases ho
  | gtpUpdateTx r h body =>
    simp only [Layer.step] at ho
    split at ho
    · have hv : (s.obj r).gtpVersion = .gtp2 := hturn.2
      have hstage : (s.obj r).stage h.type=gtp2XactGetStage h.type (s.obj r).xid := by
        unfold Xact.stage
        rw [hv]
        rfl
      unfold Xact.gtpUpdateTx at ho
      rw [← hstage] at ho
      exact made_tx hs ho
    · cases ho
  | commit r =>
    simp only [Layer.step] at ho
    split at ho
    · exact made_commit hs ‹_› hturn.2 ho
    · cases ho
  | deleteAll node =>
    cases ho
    exact made_deleteAll hs
  | startPeer r | peerTimeout r =>
    simp only [Layer.step] at ho
    split at ho
    · cases ho
      exact made_nil (hs.setXact (.of_seq (.of_seq rfl rfl rfl rfl rfl rfl rfl) rfl rfl))
    · cases ho
  | responseTimeout r =>
    simp only [Layer.step] at ho
    split at ho
    · exact made_timeout (fun x => x.responseRcount == 1) hs
        (.of_seq (Xact.stopResponse_kept _) rfl rfl) rfl
        (fun s' i hs' hi o ho => made_responseExpired hs' hi ho) ho
    · cases ho
  | holdingTimeout r =>
    simp only [Layer.step] at ho
    split at ho
    · have hnone : earlyEnds s (.holdingTimeout r) o=[] := by cases o <;> rfl
      rw [events,hnone,append_nil]
      exact made_timeout (fun x => x.holdingRcount == 1) hs
        (.of_seq (Xact.hold_kept _ false) rfl rfl) rfl
        (fun s' i hs' hi o ho => made_holdingExpired hs' hi ho) ho
    · cases ho

end Calls

/-- In every run of a layer whose peers and application keep their turns. -/
theorem gtp_delivered_once (rc : Rcounts) (size : Nat) (obj : Nat → Xact) (es : List Layer.Op)
    (h : EachStep (Layer.step rc) InTurn (Layer.init size obj) es) :
    AtMostOnce (emitted (Layer.step rc) events (Layer.init size obj) es) := by
  have hstep : ∀ s t e o,Sim s t → InTurn s e → Layer.step rc s e=some o →
      Made t (events s e o) o := fun s t e o => made_step
  exact atMostOnce_of_sim hstep (sim_init size obj) h

def rc2 : Rcounts := ⟨1,1⟩

def freeNode : Nat → Xact := fun _ => Xact.create rc2 0 .gtp2 .localOriginator 0 0 false false

def createSession : Layer.Op := .gtpReceive 0 ⟨32,true,0,0x100⟩ 3
def modifyBearer : Layer.Op := .gtpReceive 0 ⟨64,true,0,0x80000200⟩ 3
def updatedBearer : Layer.Op := .gtpReceive 0 ⟨98,true,0,0x80000200⟩ 3

def twoAndThree : List Layer.Op :=
  [createSession,createSession,.gtpUpdateTx 0 ⟨33,true,7,0⟩ [1],.commit 0,createSession,
    modifyBearer,.gtpUpdateTx 1 ⟨97,true,7,0⟩ [],.commit 1,modifyBearer,updatedBearer,
    .commit 1,.holdingTimeout 0,createSession]

theorem gtp_delivered_once_both :
    AtMostOnce (emitted (Layer.step rc2) events (Layer.init 4 freeNode) twoAndThree) ∧
      emitted (Layer.step rc2) events (Layer.init 4 freeNode) twoAndThree =
        [.delivered (.gtp2,0,1),.dropped (.gtp2,0,1) none,
          .committed (.gtp2,0,1) (0,[0x48,33,0,9,0,0,0,7,0,0,1,0,1]),
          .dropped (.gtp2,0,1) (some (0,[0x48,33,0,9,0,0,0,7,0,0,1,0,1])),
          .delivered (.gtp2,0,0x800002),
          .committed (.gtp2,0,0x800002) (0,[0x48,97,0,8,0,0,0,7,0x80,0,2,0]),
          .dropped (.gtp2,0,0x800002) (some (0,[0x48,97,0,8,0,0,0,7,0x80,0,2,0])),
          .expired (.gtp2,0,0x800002),.expired (.gtp2,0,1),.delivered (.gtp2,0,1)] :=
  ⟨gtp_delivered_once rc2 4 freeNode twoAndThree (by decide +kernel),by decide +kernel⟩

/-- The peers keep their numbers, and a message is delivered again before its holding timer ran
out for the last time. -/
def DeliversAgain (es : List Layer.Op) : Prop :=
  EachStep (Layer.step rc2) (OnReceive · SameMessage) (Layer.init 4 freeNode) es ∧
    ¬ AtMostOnce (emitted (Layer.step rc2) label (Layer.init 4 freeNode) es)

theorem deliversAgain_of {es : List Layer.Op} (k : Request) (sent : List (Label Request Packet))
    (hpeer : EachStep (Layer.step rc2) (OnReceive · SameMessage) (Layer.init 4 freeNode) es)
    (hlabels : emitted (Layer.step rc2) label (Layer.init 4 freeNode) es =
      .delivered k::(sent++[.delivered k]))
    (hsent : .expired k∉sent) : DeliversAgain es :=
  ⟨hpeer,fun h => hsent (h.once k [] sent [] hlabels)⟩

def updateBearer : Layer.Op := .gtpUpdateTx 0 ⟨97,true,7,0⟩ []

def command : Request := (.gtp2,0,0x800002)

def triggered : Label Request Packet :=
  .committed command (0,[0x48,97,0,8,0,0,0,7,0x80,0,2,0])

/-- After the commit of the third message, after a triggered message without a response, after a
copy that came before the commit of the third message, after a commit without a second message,
and after a second message of the other version. -/
theorem command_delivered_again :
    DeliversAgain [modifyBearer,updateBearer,.commit 0,updatedBearer,.commit 0,
      modifyBearer] ∧
    DeliversAgain [modifyBearer,updateBearer,.commit 0,.responseTimeout 0,modifyBearer] ∧
    DeliversAgain [modifyBearer,updateBearer,.commit 0,updatedBearer,modifyBearer,
      modifyBearer] ∧
    DeliversAgain [modifyBearer,.commit 0,modifyBearer] ∧
    DeliversAgain [modifyBearer,.gtp1UpdateTx 0 ⟨5,true,7,0⟩ [],.commit 0,modifyBearer] := by
  refine ⟨?_,?_,?_,?_,?_⟩
  · exact deliversAgain_of command [triggered] (by decide) (by decide) (by decide)
  · exact deliversAgain_of command [triggered] (by decide) (by decide) (by decide)
  · exact deliversAgain_of command [triggered,.refused command] (by decide)
      (by decide) (by decide)
  · exact deliversAgain_of command [] (by decide) (by decide) (by decide)
  · exact deliversAgain_of command [] (by decide) (by decide) (by decide)

end OgsDp.Gtp
