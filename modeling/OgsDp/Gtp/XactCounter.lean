import OgsDp.Gtp.XactIds

/-!
# Runs of the counter (lib/gtp/xact.c)

The layer keeps no record of when a number was drawn; `Dated` adds it.
-/

namespace OgsDp.Gtp
open Lib OgsDp.Core Function List

/-- The layer with the number of local transactions that were begun, what it was when the
transaction of each node began, and what it was when the last one of GTPv1 did. -/
structure Dated where
  layer : Layer
  now : Nat
  born : Nat → Nat
  lastV1 : Nat

namespace Dated

def init (size : Nat) (obj : Nat → Xact) : Dated := ⟨Layer.init size obj,0,fun _ => 0,0⟩

def draw (s : Dated) (t : Layer) (drawn : Option Nat) (lastV1 : Nat) : Dated where
  layer := t
  now := s.now+1
  born := match drawn with
    | some r => update s.born r (s.now+1)
    | none => s.born
  lastV1 := lastV1

def after (s : Dated) (t : Layer) (drawn : Option Nat) : Layer.Op → Dated
  | .gtp1LocalCreate .. => s.draw t drawn (s.now+1)
  | .gtpLocalCreate .. => s.draw t drawn s.lastV1
  | _ => { s with layer := t }

def step (rc : Rcounts) (s : Dated) (e : Layer.Op) : Option (Outcome Dated Result) :=
  (s.layer.step rc e).map fun o =>
    match o with
    | .ok t a => .ok (s.after t a.xact e) a
    | .abort t => .abort { s with layer := t }

/-- A local transaction is begun while the counter is in the range for it, and no transaction of
its version to its peer is older than a turn of the counter: 0x800000 for GTPv2 while GTPv1 does
not use the counter, else 65536. -/
def Timely (s : Dated) : Layer.Op → Prop
  | .gtp1LocalCreate node _ _ _ =>
    s.layer.xactId.toNat≤65535 ∧ ∀ r ∈ s.layer.list (.localOriginator,node),
      (s.layer.obj r).gtpVersion = .gtp1 → s.now+1-s.born r<65536
  | .gtpLocalCreate node h _ _ =>
    (¬ isCommand h.type → s.layer.xactId≠0x7fffff) ∧
      ∀ r∈s.layer.list (.localOriginator,node),(s.layer.obj r).gtpVersion = .gtp2 →
        s.now+1-s.born r < if s.born r<s.lastV1 then 65536 else 0x800000
  | _ => True

instance decidableTimely (s : Dated) : ∀ e,Decidable (Timely s e)
  | .gtp1LocalCreate _ _ _ _ | .gtpLocalCreate _ _ _ _ => inferInstanceAs (Decidable (_ ∧ _))
  | .gtp1Receive _ _ _ | .gtpReceive _ _ _ | .gtp1UpdateTx _ _ _ | .gtpUpdateTx _ _ _ | .commit _
  | .deleteAll _ | .startPeer _ | .responseTimeout _ | .holdingTimeout _ | .peerTimeout _ =>
    isTrue trivial

variable {rc : Rcounts} {s t : Dated} {u : Layer} {a : Result} {r : Nat}

theorem after_layer (s : Dated) (u : Layer) (drawn : Option Nat) (e : Layer.Op) :
    (s.after u drawn e).layer=u := by
  cases e <;> rfl

theorem step_layer (s : Dated) (e : Layer.Op) :
    (s.step rc e).map (Outcome.mapState layer)=s.layer.step rc e := by
  unfold step
  cases s.layer.step rc e with
  | none => rfl
  | some o =>
    cases o with
    | ok u a => exact congrArg (fun t => some (Outcome.ok t a)) (after_layer s u a.xact e)
    | abort u => rfl

theorem step_ok {e : Layer.Op} (h : s.step rc e=some (.ok t a)) :
    s.layer.step rc e=some (.ok t.layer a) ∧ t=s.after t.layer a.xact e := by
  unfold step at h
  cases ho : s.layer.step rc e with
  | none =>
    rw [ho] at h
    cases h
  | some o =>
    rw [ho] at h
    cases o with
    | abort u => cases h
    | ok u a =>
      cases h
      rw [after_layer]
      exact ⟨rfl,rfl⟩

/-- Where the counter stands from the number of a local transaction. -/
structure Placed (s : Dated) (r : Nat) : Prop where
  begun : (s.layer.obj r).step≠0
  born : s.born r ≤ s.now
  issued : ∃ c,Issued (s.layer.obj r) c ∧
    Apart 65536 c.toNat (s.now-s.born r) s.layer.xactId.toNat ∧
    (s.lastV1 ≤ s.born r → Apart 0x800000 c.toNat (s.now-s.born r) s.layer.xactId.toNat)

structure Numbered (s : Dated) : Prop where
  lists : s.layer.Lists
  bound : s.layer.xactId.toNat≤0x800000
  last : s.lastV1 ≤ s.now
  placed : ∀ node,∀ r∈s.layer.list (.localOriginator,node),s.Placed r
  distinct : ∀ node,∀ i ∈ s.layer.list (.localOriginator,node),
    ∀ j ∈ s.layer.list (.localOriginator,node),
      (s.layer.obj i).gtpVersion=(s.layer.obj j).gtpVersion →
        (s.layer.obj i).xid=(s.layer.obj j).xid → i=j

theorem numbered_init (size : Nat) (obj : Nat → Xact) : Numbered (init size obj) where
  lists := Store.lists_init size obj
  bound := by simp [init,Layer.init]
  last := Nat.le_refl 0
  placed := by simp [init,Layer.init,Store.init]
  distinct := by simp [init,Layer.init,Store.init]

theorem Numbered.later (h : Numbered s) (hl : s.layer.Later u) : Numbered { s with layer := u } where
  lists := hl.lists
  bound := by
    show u.xactId.toNat≤_
    rw [hl.xactId]
    exact h.bound
  last := h.last
  placed := by
    intro node r hr
    obtain ⟨hr,hk⟩ := hl.locals node r hr
    obtain ⟨hbegun,hborn,c,hc,hplace⟩ := h.placed node r hr
    refine ⟨hk.begun hbegun,hborn,c,hc.kept hk hbegun,?_⟩
    show Apart _ _ _ u.xactId.toNat ∧ (_ → Apart _ _ _ u.xactId.toNat)
    rw [hl.xactId]
    exact hplace
  distinct := by
    intro node i hi j hj hv hx
    obtain ⟨hi,hki⟩ := hl.locals node i hi
    obtain ⟨hj,hkj⟩ := hl.locals node j hj
    rw [hki.gtpVersion,hkj.gtpVersion] at hv
    rw [hki.xid,hkj.xid] at hx
    exact h.distinct node i hi j hj hv hx

structure Advance (s : Dated) (next : BitVec 32) (last : Nat) : Prop where
  bound : next.toNat≤0x800000
  last_le : last ≤ s.now+1
  last_ge : s.lastV1≤last
  apart : ∀ c n,Apart 65536 c n s.layer.xactId.toNat → Apart 65536 c (n+1) next.toNat
  apart2 : last ≤ s.now → ∀ c n,Apart 0x800000 c n s.layer.xactId.toNat →
    Apart 0x800000 c (n+1) next.toNat

theorem draw_born_of_ne {drawn : Option Nat} {last i : Nat} (h : drawn≠some i) :
    (s.draw u drawn last).born i=s.born i := by
  unfold draw
  cases drawn with
  | none => rfl
  | some r => exact update_of_ne (fun he => h (congrArg some he.symm)) ..

theorem draw_born {last : Nat} : (s.draw u (some r) last).born r=s.now+1 :=
  update_self ..

theorem Placed.advance {next : BitVec 32} {last : Nat} {drawn : Option Nat} (h : s.Placed r)
    (hadv : s.Advance next last) (hu : u.xactId=next) (hx : u.obj r=s.layer.obj r)
    (hr : drawn≠some r) : (s.draw u drawn last).Placed r := by
  obtain ⟨hbegun,hborn,c,hc,hplace,hplace2⟩ := h
  have hage : s.now+1-s.born r=s.now-s.born r+1 := by omega
  refine ⟨?_,?_,c,?_,?_⟩
  · show (u.obj r).step≠0
    rw [hx]
    exact hbegun
  · rw [draw_born_of_ne hr]
    show s.born r ≤ s.now+1
    omega
  · show Issued (u.obj r) c
    rw [hx]
    exact hc
  · rw [draw_born_of_ne hr]
    show Apart _ _ (s.now+1-_) u.xactId.toNat ∧
      (last≤_ → Apart _ _ (s.now+1-_) u.xactId.toNat)
    rw [hu,hage]
    refine ⟨hadv.apart _ _ hplace,?_⟩
    intro hl
    have hl2:=hadv.last_ge
    exact hadv.apart2 (by omega) _ _ (hplace2 (by omega))

theorem Numbered.draw {next xid : BitVec 32} {last node : Nat} {drawn : Option Nat} {v : Version}
    {q : Seq} (h : Numbered s) (hadv : s.Advance next last)
    (hd : Drawn { s.layer with xactId := next } u drawn v xid node q)
    (hnew : ∀ x,Begun x v xid q → Issued x next)
    (hturn : ∀ r∈s.layer.list (.localOriginator,node),(s.layer.obj r).gtpVersion=v →
      s.now+1-s.born r<65536 ∨
        last ≤ s.born r ∧ s.now+1-s.born r<0x800000) :
    Numbered (s.draw u drawn last) := by
  have hu : u.xactId=next := hd.xactId
  -- the number of an older transaction was drawn at another value of the counter
  have hother : ∀ i∈s.layer.list (.localOriginator,node),drawn≠some i →
      u.obj i=s.layer.obj i → ∀ j,Begun (u.obj j) v xid q →
        (u.obj i).gtpVersion=(u.obj j).gtpVersion → (u.obj i).xid≠(u.obj j).xid := by
    intro i hi hdi hoi j hj hv
    rw [hoi] at hv ⊢
    obtain ⟨hbegun,hborn,c,hc,hplace,hplace2⟩ := h.placed node i hi
    have hage : s.now+1-s.born i=s.now-s.born i+1 := by omega
    refine hc.xid_ne (hnew _ hj) hv ?_
    intro hcn
    rcases hturn i hi (hv.trans hj.gtpVersion) with hlt | ⟨hl,hlt⟩
    · exact apart_ne (hadv.apart _ _ hplace) (Nat.succ_pos _) (by omega) (congrArg _ hcn)
    · have hl2:=hadv.last_ge
      exact apart_ne (hadv.apart2 (by omega) _ _ (hplace2 (by omega))) (Nat.succ_pos _) (by omega)
        (congrArg _ hcn)
  refine ⟨hd.lists,?_,hadv.last_le,?_,?_⟩
  · show u.xactId.toNat≤_
    rw [hu]
    exact hadv.bound
  · intro m i hi
    rcases hd.locals m i hi with ⟨hi,hdi,hoi⟩ | ⟨rfl,rfl,hbegun⟩
    · exact (h.placed m i hi).advance hadv hu hoi hdi
    · refine ⟨hbegun.begun,?_,next,hnew _ hbegun,?_⟩
      · rw [draw_born]
        exact Nat.le_refl _
      · rw [draw_born]
        show Apart _ _ (s.now+1-_) u.xactId.toNat ∧
          (_ → Apart _ _ (s.now+1-_) u.xactId.toNat)
        rw [hu,Nat.sub_self]
        exact ⟨.inl rfl,fun _ => .inl rfl⟩
  · intro m i hi j hj hv hx
    rcases hd.locals m i hi with ⟨hi,hdi,hoi⟩ | ⟨rfl,hdi,hbi⟩
    · rcases hd.locals m j hj with ⟨hj,hdj,hoj⟩ | ⟨rfl,hdj,hbj⟩
      · refine h.distinct m i hi j hj ?_ ?_
        · rw [← hoi,← hoj]
          exact hv
        · rw [← hoi,← hoj]
          exact hx
      · exact absurd hx (hother i hi hdi hoi j hbj hv)
    · rcases hd.locals m j hj with ⟨hj,hdj,hoj⟩ | ⟨-,hdj,hbj⟩
      · exact absurd hx.symm (hother j hj hdj hoj i hbi hv.symm)
      · rw [hdi] at hdj
        exact Option.some.inj hdj

theorem gtp1_advance (hlast : s.lastV1 ≤ s.now) (h : s.layer.xactId.toNat≤65535) :
    s.Advance (nextXactId s.layer.xactId 0 65535) (s.now+1) := by
  have hnext:=gtp1Next_toNat h
  refine ⟨?_,Nat.le_refl _,by omega,?_,fun hl => absurd hl (by omega)⟩
  · rw [hnext]
    split <;> omega
  · intro c n hc
    rw [hnext]
    split
    · exact apart_back hc (by omega) (Nat.le_refl 65536)
    · exact apart_succ hc

theorem gtp2_advance (hlast : s.lastV1 ≤ s.now) (h : s.layer.xactId.toNat≤0x800000) :
    s.Advance (nextXactId s.layer.xactId 1 0x800000) s.lastV1 := by
  have hnext:=gtp2Next_toNat h
  -- one turn of GTPv2 is a whole number of turns of GTPv1
  have happart : ∀ turn c n,turn≤0x800000 → Apart turn c n s.layer.xactId.toNat →
      Apart turn c (n+1) (nextXactId s.layer.xactId 1 0x800000).toNat := by
    intro turn c n hturn hc
    rw [hnext]
    split
    · exact apart_back hc (by omega) hturn
    · exact apart_succ hc
  refine ⟨?_,by omega,Nat.le_refl _,fun c n => happart _ c n (by omega),
    fun _ c n => happart _ c n (Nat.le_refl _)⟩
  rw [hnext]
  split <;> omega

theorem gtp1_issued {type : Byte} {teid xid : BitVec 32} {body : List Byte} {x : Xact}
    (hsmall : xid.toNat≤65535)
    (h : Begun x .gtp1 xid ⟨type,some (gtp1Push type teid xid body)⟩) : Issued x xid := by
  refine .gtp1 h.gtpVersion h.xid hsmall ⟨teid,body,?_⟩
  rw [h.first,h.xid]

theorem gtp2_issued {type : Byte} {teid next xid : BitVec 32} {body : List Byte} {x : Xact}
    (hxid : xid = if isCommand type then next ||| 0x800000 else next)
    (hrange : 1≤next.toNat ∧ next.toNat≤0x800000)
    (hplain : ¬ isCommand type → next.toNat<0x800000)
    (h : Begun x .gtp2 xid ⟨type,some (gtp2Push type teid xid body)⟩) : Issued x next := by
  have hpacket : ∃ teid body,x.firstSeq.pkbuf=some (gtp2Push x.firstSeq.type teid x.xid body) := by
    refine ⟨teid,body,?_⟩
    rw [h.first,h.xid]
  by_cases hc : isCommand type
  · rw [if_pos hc] at hxid
    refine .command h.gtpVersion ?_ (h.xid.trans hxid) hrange hpacket
    rw [h.first]
    exact hc
  · rw [if_neg hc] at hxid
    refine .ordinary h.gtpVersion ?_ (h.xid.trans hxid) (hplain hc) hpacket
    rw [h.first]
    exact hc

theorem gtp2Next_range (h : s.layer.xactId.toNat≤0x800000) :
    1≤(nextXactId s.layer.xactId 1 0x800000).toNat ∧
      (nextXactId s.layer.xactId 1 0x800000).toNat≤0x800000 := by
  rw [gtp2Next_toNat h]
  split <;> omega

theorem Numbered.step {e : Layer.Op} (h : Numbered s) (he : s.Timely e)
    (hstep : s.step rc e=some (.ok t a)) : Numbered t := by
  obtain ⟨hlayer,ht⟩ := step_ok hstep
  rw [ht]
  cases e with
  | gtp1LocalCreate node hd body timers =>
    obtain ⟨hcounter,hturn⟩ := he
    have hsmall : (nextXactId s.layer.xactId 0 65535).toNat≤65535 := by
      rw [gtp1Next_toNat hcounter]
      split <;> omega
    refine h.draw (gtp1_advance h.last hcounter) (gtp1LocalCreate_drawn h.lists hlayer) ?_ ?_
    · intro x hx
      exact gtp1_issued hsmall hx
    · intro r hr hv
      exact .inl (hturn r hr hv)
  | gtpLocalCreate node hd body timers =>
    obtain ⟨hplain,hturn⟩ := he
    refine h.draw (gtp2_advance h.last h.bound) (gtpLocalCreate_drawn h.lists rfl hlayer) ?_ ?_
    · intro x hx
      refine gtp2_issued rfl (gtp2Next_range h.bound) ?_ hx
      intro hc
      have hne : s.layer.xactId.toNat≠0x7fffff :=
        fun he => hplain hc (BitVec.eq_of_toNat_eq he)
      have hbound:=h.bound
      rw [gtp2Next_toNat h.bound]
      split <;> omega
    · intro r hr hv
      have hlt:=hturn r hr hv
      split at hlt
      · exact .inl hlt
      · exact .inr ⟨by omega,hlt⟩
  | gtp1Receive _ _ _ | gtpReceive _ _ _ | gtp1UpdateTx _ _ _ | gtpUpdateTx _ _ _ | commit _
  | deleteAll _ | startPeer _ | responseTimeout _ | holdingTimeout _ | peerTimeout _ =>
    exact h.later (Layer.step_later h.lists id hlayer)

theorem Numbered.ids (h : Numbered s) (rc : Rcounts) : s.layer.Ids rc := by
  have hmem : ∀ r,s.layer.Local r → r∈s.layer.list (.localOriginator,(s.layer.obj r).node) := by
    intro r hr
    have hr':=h.lists.mem_of_live hr.1
    have hhome : home (s.layer.obj r)=((s.layer.obj r).org,(s.layer.obj r).node) := rfl
    rw [hhome,hr.2] at hr'
    exact hr'
  have hplaced : ∀ r,s.layer.Local r → ∃ c,Issued (s.layer.obj r) c := by
    intro r hr
    obtain ⟨-,-,c,hc,-⟩ := h.placed _ r (hmem r hr)
    exact ⟨c,hc⟩
  have hfind : ∀ r,s.layer.Local r → s.layer.findXact
      (s.layer.list (.localOriginator,(s.layer.obj r).node)) (s.layer.obj r).gtpVersion
      (s.layer.obj r).xid=some r := by
    intro r hr
    exact findXact_unique (hmem r hr) rfl rfl fun i hi => h.distinct _ i hi r (hmem r hr)
  refine ⟨?_,?_,?_,?_,?_,?_,?_⟩
  · intro r hr hv
    obtain ⟨c,hc⟩ := hplaced r hr
    exact hc.gtp1_lt hv
  · intro r hr hv
    obtain ⟨c,hc⟩ := hplaced r hr
    exact hc.gtp2_lt hv
  · intro r hr hv
    obtain ⟨c,hc⟩ := hplaced r hr
    exact hc.cmd_iff hv
  · intro i j hi hj hn hv hx
    have hi':=hmem i hi
    rw [hn] at hi'
    exact h.distinct _ i hi' j (hmem j hj) hv hx
  · intro r hr
    obtain ⟨c,hc⟩ := hplaced r hr
    exact hc.sent
  · intro r packet hd timers hr hv hp hans hecho
    obtain ⟨c,hc⟩ := hplaced r hr
    have hf:=hfind r hr
    rw [hv] at hf
    unfold Layer.gtp1Receive Layer.receive
    rw [hecho.1,gtp1ListOf_answer hv hans,hc.gtp1_echo hv hp hecho]
    simp only [hf,Bool.not_true,Bool.false_eq_true,if_false]
  · intro r packet hd timers hr hv hp hans hecho
    obtain ⟨c,hc⟩ := hplaced r hr
    have hf:=hfind r hr
    rw [hv] at hf
    have hx : gtp2SqnToXid (if hd.teidPresence then hd.sqn else hd.sqnOnly)=_ :=
      hc.gtp2_echo hv hp hecho
    unfold Layer.gtpReceive Layer.receive
    simp only [hx,gtp2ListOf_answer hv (hc.cmd_iff hv) hans,hf]

end Dated

/-- In every run whose local transactions are begun in the range of the counter, and do not last
for a whole turn of it. -/
theorem ids_run (rc : Rcounts) (size : Nat) (obj : Nat → Xact) (es : List Layer.Op)
    (h : EachStep (Dated.step rc) Dated.Timely (Dated.init size obj) es) :
    ∀ t∈completed (Layer.step rc) (Layer.init size obj) es,t.Ids rc := by
  intro t ht
  have hlayer : ∀ s e,(Dated.step rc s e).map (Outcome.mapState Dated.layer) =
      s.layer.step rc e := fun s e => s.step_layer e
  have hmap:=completed_map hlayer (Dated.init size obj) es
  have hinit : (Dated.init size obj).layer=Layer.init size obj := rfl
  rw [hinit] at hmap
  rw [← hmap,List.mem_map] at ht
  obtain ⟨s,hs,rfl⟩ := ht
  exact (completed_inv (fun _ _ _ _ hi => hi.step) (Dated.numbered_init size obj) h s hs).ids rc

def rc1 : Rcounts := ⟨3,1⟩

def noXact : Nat → Xact := fun _ => Xact.create rc1 0 .gtp2 .localOriginator 0 0 false false

def echoRequest : Layer.Op := .gtpLocalCreate 0 ⟨1,false,0,0⟩ [] 3

def mixed : List Layer.Op :=
  [.gtpLocalCreate 0 ⟨66,true,7,0⟩ [] 3,.gtp1LocalCreate 0 ⟨1,true,0,0⟩ [] 3,echoRequest,
    .gtpReceive 0 ⟨67,true,0,0x80000100⟩ 3,.gtp1Receive 0 ⟨2,true,0,2⟩ 3,
    .gtpReceive 0 ⟨2,false,0x300,0⟩ 3]

set_option maxRecDepth 4000 in
theorem ids_run_mixed :
    (completed (Layer.step rc1) (Layer.init 4 noXact) mixed).length=7 ∧
      ∀ t∈completed (Layer.step rc1) (Layer.init 4 noXact) mixed,t.Ids rc1 :=
  ⟨by decide,ids_run rc1 4 noXact mixed (by decide)⟩

structure Idle (k : Nat) (s : Layer) : Prop where
  split : Pool.Split s.pool [0] []
  locals : s.list (.localOriginator,0)=[]
  remotes : s.list (.remoteOriginator,0)=[]
  counter : s.xactId.toNat=k

structure Busy (k : Nat) (s : Layer) : Prop where
  split : Pool.Split s.pool [] [0]
  locals : s.list (.localOriginator,0)=[0]
  remotes : s.list (.remoteOriginator,0)=[]
  counter : s.xactId.toNat=k
  org : (s.obj 0).org = .localOriginator
  node : (s.obj 0).node=0
  gtpVersion : (s.obj 0).gtpVersion = .gtp2
  xid : (s.obj 0).xid.toNat=k
  type : (s.obj 0).firstSeq.type=1

theorem idle_init : Idle 0 (Layer.init 1 noXact) where
  split := Pool.split_init 1
  locals := rfl
  remotes := rfl
  counter := rfl

def echoXact (id : Nat) (xid : BitVec 32) : Xact := .create rc1 id .gtp2 .localOriginator xid 0 true true

def withEcho (s : Layer) (p : Pool) (id : Nat) (next : BitVec 32) : Layer :=
  { toStore := (s.add p 0 (echoXact id next)).setObj 0
      ((echoXact id next).save ⟨1,some (gtp2Push 1 0 next [])⟩),xactId := next }

theorem idle_request {k : Nat} {s : Layer} (h : Idle k s) (hk : k<0x800000) :
    ∃ t,s.step rc1 echoRequest=some (.ok t ⟨.ok,some 0,none⟩) ∧ Busy (k+1) t := by
  obtain ⟨p,hp,hsplit,-,-⟩ := h.split.idCalloc
  have hnext : (nextXactId s.xactId 1 0x800000).toNat=k+1 := by
    rw [gtp2Next_toNat (by rw [h.counter]; omega),h.counter,if_neg (by omega)]
  refine ⟨withEcho s p (nextId s.pool.id 1 maxPoolId) (nextXactId s.xactId 1 0x800000),?_,?_⟩
  · simp only [Layer.step,echoRequest,Layer.gtpLocalCreate,Layer.create,hp]
    rfl
  · refine ⟨hsplit,?_,?_,hnext,rfl,rfl,rfl,hnext,rfl⟩
    · show update s.list (.localOriginator,0) (s.list (.localOriginator,0)++[0])
        (.localOriginator,0)=[0]
      rw [h.locals]
      exact update_self ..
    · show update s.list (.localOriginator,0) (s.list (.localOriginator,0)++[0])
        (.remoteOriginator,0)=[]
      rw [update_of_ne (by decide)]
      exact h.remotes

theorem busy_deleteAll {k : Nat} {s : Layer} (h : Busy k s) :
    ∃ t,s.step rc1 (.deleteAll 0)=some (.ok t ⟨.ok,none,none⟩) ∧ Idle k t := by
  refine ⟨_,rfl,?_⟩
  have hhome : home (s.obj 0)=(.localOriginator,0) := by
    show ((s.obj 0).org,(s.obj 0).node)=_
    rw [h.org,h.node]
  have hremotes : (s.delete 0).list (.remoteOriginator,0)=[] := by
    show update s.list _ _ _=_
    rw [hhome,update_of_ne (by decide)]
    exact h.remotes
  have hdel : s.deleteAll 0=s.delete 0 := by
    unfold Layer.deleteAll
    simp only [h.locals]
    show (s.delete 0).deleteList ((s.delete 0).list (.remoteOriginator,0))=_
    rw [hremotes]
    rfl
  rw [hdel]
  refine ⟨h.split.idFree (mem_singleton_self 0) _,?_,hremotes,h.counter⟩
  show update s.list (home (s.obj 0)) ((s.list (home (s.obj 0))).erase 0) _=[]
  rw [hhome,h.locals]
  exact update_self ..

def echoes (n : Nat) : List Layer.Op := (List.replicate n [echoRequest,.deleteAll 0]).flatten

theorem idle_run {k : Nat} {s : Layer} (n : Nat) (h : Idle k s) (hk : k+n≤0x800000) :
    ∃ t,Idle (k+n) t ∧ ∀ es,∀ u ∈ completed (Layer.step rc1) t es,
      u∈completed (Layer.step rc1) s (echoes n++es) := by
  induction n generalizing k s with
  | zero => exact ⟨s,h,fun _ _ => id⟩
  | succ n ih =>
    obtain ⟨b,hb,hbusy⟩ := idle_request h (by omega)
    obtain ⟨i,hi,hidle⟩ := busy_deleteAll hbusy
    obtain ⟨t,ht,hrun⟩ := ih hidle (by omega)
    refine ⟨t,by rw [show k+(n+1)=k+1+n by omega]; exact ht,?_⟩
    intro es u hu
    have hcons : echoes (n+1)++es=echoRequest :: .deleteAll 0::(echoes n++es) := by
      simp [echoes,replicate_succ]
    rw [hcons]
    simp only [completed,hb,hi,mem_cons]
    exact .inr (.inr (hrun es u hu))

/-- An ordinary request gets the number of the command bit. -/
theorem echo_with_command_bit :
    ¬ ∀ es,∀ t∈completed (Layer.step rc1) (Layer.init 1 noXact) es,t.Ids rc1 := by
  intro hall
  obtain ⟨s,hs,hrun⟩ := idle_run 0x7fffff idle_init (by decide)
  obtain ⟨t,ht,hbusy⟩ := idle_request hs (by decide)
  have hmem : t∈completed (Layer.step rc1) s [echoRequest] := by
    simp only [completed,ht,mem_cons,true_or,or_true]
  have hids:=hall _ t (hrun _ t hmem)
  have hlocal : t.Local 0 := ⟨hbusy.split.index_live 0 (mem_singleton_self 0),hbusy.org⟩
  have hbit : isCmdXid (t.obj 0).xid=true := by
    rw [isCmdXid,BitVec.getLsbD,hbusy.xid]
    decide
  have hcmd:=(hids.command 0 hlocal hbusy.gtpVersion).mp hbit
  rw [hbusy.type] at hcmd
  exact absurd hcmd (by decide)

end OgsDp.Gtp
