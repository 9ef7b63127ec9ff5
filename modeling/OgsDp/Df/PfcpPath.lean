import OgsDp.Df.SessionTable
import OgsDp.Pfcp.XactServer

/-!
# Session requests and their responses (src/df/pfcp-path.c)

A request gets a transaction before it is handled and its response is sent from there. Where
`df_pfcp_handle_message` finds no session, and for every deletion, there is no response.
-/

namespace OgsDp.Df
open Lib RefTable OgsDp.Core Option
open Pfcp hiding Context contextInit

structure State where
  ctx : Context
  xacts : Layer

/-- `build` is `df_n4_build_session_*_response` and `ogs_pfcp_build_msg`. -/
structure Config where
  rcounts : Rcounts
  build : Response → List Byte

/-- A session request from the peer of the node, as it is taken from the event queue; `timers` is
the number of timers that are left. -/
structure Message where
  env : HandlerEnv
  node : Nat
  sqn : BitVec 32
  timers : Nat
  req : Request

def Request.seid : Request → Option (BitVec 64)
  | .establishment _ => none
  | .modification seid _ => seid
  | .deletion seid => seid

def Message.header (m : Message) : Header := ⟨m.req.type,m.req.seid.getD 0,m.sqn⟩

namespace State

def withXacts (d : State) (l : Layer) : State := { d with xacts := l }

def unsent (d : State) (rsp : Response) : Outcome State (List (Nat × List Byte)) :=
  if rsp.error then .ok d [] else .abort d

/-- The response through `ogs_pfcp_xact_update_tx` and `ogs_pfcp_xact_commit`; the result is what
was sent. -/
def send (cfg : Config) (d : State) (r : Nat) (rsp : Response) :
    Outcome State (List (Nat × List Byte)) :=
  match (d.xacts.xact r).updateTx ⟨rsp.type,rsp.seid,0⟩ (cfg.build rsp) with
  | .abort x => .abort (d.withXacts (d.xacts.setXact r x))
  | .ok x .ok =>
    match (d.xacts.setXact r x).commit r with
    | some (.ok t ⟨.ok,_,sent⟩) => .ok (d.withXacts t) sent.toList
    | some (.ok t _) => (d.withXacts t).unsent rsp
    | some (.abort t) => .abort (d.withXacts t)
    -- there is a last step after `ogs_pfcp_xact_update_tx`
    | none => .abort d
  | .ok x _ => (d.withXacts (d.xacts.setXact r x)).unsent rsp

def handleMessage (cfg : Config) (d : State) (m : Message) : Outcome State (List (Nat × List Byte)) :=
  match d.xacts.receive cfg.rcounts m.node m.header m.timers with
  | .ok l ⟨.ok,some r,_⟩ =>
    ((d.ctx.handleRequest m.env m.node m.req).mapState fun c => State.mk c l).bind fun d rsp =>
      match rsp with
      | some rsp => d.send cfg r rsp
      | none => .ok d []
  | .ok l a => .ok (d.withXacts l) a.sent.toList
  | .abort l => .abort (d.withXacts l)

inductive Op where
  | message (m : Message)
  | holdingTimeout (r : Nat)

def step (cfg : Config) (d : State) : Op → Option (Outcome State (List (Nat × List Byte)))
  | .message m => some (d.handleMessage cfg m)
  | .holdingTimeout r =>
    (d.xacts.step cfg.rcounts (.holdingTimeout r)).map fun o =>
      (o.mapState d.withXacts).bind fun d a => .ok d a.sent.toList

def init (ctx : Context) (size : Nat) (xact : Nat → Xact) : State := ⟨ctx,.init size xact⟩

end State

def Context.Served (c : Context) : Request → Prop
  | .establishment req => ∃ fSeid,req.cpFSeid=some fSeid ∧ hasAddress fSeid=true
  | .modification seid _ => ∃ n,c.sessOfHeader seid=some n
  | .deletion _ => False

namespace Context

variable {c : Context} {env : HandlerEnv} {n : Nat}

theorem answer_type {type : Byte} {restoration : Bool} {upSeid : Option (BitVec 64)}
    (o : Outcome Context (Except Refusal (List Nat))) :
    (answer env type restoration upSeid n o).Returns fun _ rsp => rsp.type=type := by
  unfold answer
  apply Outcome.Returns.bind (R := fun _ _ => True)
  · exact Outcome.returns_of_forall _ fun _ _ => trivial
  · intro t r _
    cases r <;> rfl

variable (env) in
theorem handleRequest_answered (node : Nat) {req : Request} (hserved : c.Served req) :
    (c.handleRequest env node req).Returns fun _ rsp =>
      ∃ x,rsp=some x ∧ x.type=req.type+1 := by
  cases req with
  | establishment req =>
    obtain ⟨fSeid,hf,hip⟩ := hserved
    simp only [handleRequest,sessAddByMessage,hf,if_pos hip]
    apply Outcome.Returns.bind (R := fun _ r => ∃ n,r=some n)
    · apply Outcome.Returns.bind (R := fun _ _ => True)
      · exact Outcome.returns_of_forall _ fun _ _ => trivial
      · exact fun _ n _ => ⟨n,rfl⟩
    · rintro t r ⟨n,rfl⟩
      apply Outcome.Returns.bind (answer_type _)
      intro u rsp htype
      exact ⟨rsp,rfl,htype⟩
  | modification seid req =>
    obtain ⟨n,hn⟩ := hserved
    simp only [handleRequest,hn]
    apply Outcome.Returns.bind (answer_type _)
    intro u rsp htype
    exact ⟨rsp,rfl,htype⟩
  | deletion seid => exact hserved.elim

variable (env) in
theorem handleRequest_unanswered (node : Nat) {req : Request} (hserved : ¬ c.Served req) :
    (c.handleRequest env node req).Returns fun _ rsp => rsp=none := by
  cases req with
  | establishment req =>
    simp only [handleRequest,sessAddByMessage]
    cases hf : req.cpFSeid with
    | none => rfl
    | some fSeid =>
      simp only
      rw [if_neg fun hip => hserved ⟨fSeid,hf,hip⟩]
      rfl
  | modification seid req =>
    simp only [handleRequest]
    cases hn : c.sessOfHeader seid with
    | none => rfl
    | some n => exact absurd ⟨n,hn⟩ hserved
  | deletion seid =>
    simp only [handleRequest]
    cases c.sessOfHeader seid <;> rfl

end Context

theorem Request.initial (req : Request) : getStage req.type = .initial := by
  cases req <;> rfl

theorem Request.final (req : Request) : getStage (req.type+1) = .final := by
  cases req <;> rfl

namespace State

/-- The request comes to a handler with a response, or it is a copy of one that was answered. -/
def Answerable (d : State) : Op → Prop
  | .message m =>
    match d.xacts.findByXid (d.xacts.list .remoteOriginator m.node) (sqnToXid m.sqn) with
    | none => d.ctx.Served m.req
    | some r => (d.xacts.xact r).firstSeq.type=m.req.type ∧ (d.xacts.xact r).step=2
  | .holdingTimeout _ => True

/-- One response was sent, to the request and with its number, and nothing but the holding timer
is left to its transaction. -/
def Answered : Op → Outcome State (List (Nat × List Byte)) → Prop
  | .message m, .ok d sent =>
    (∃ seid body,
        sent=[(m.node,pushHeader (m.req.type+1) seid (sqnToXid m.sqn) body)]) ∧
      ∃ r∈d.xacts.list .remoteOriginator m.node,(d.xacts.xact r).xid=sqnToXid m.sqn ∧
        (d.xacts.xact r).step=2 ∧ (d.xacts.xact r).tmResponse=false
  | .holdingTimeout _, .ok _ _ => True
  | _, .abort _ => False

variable {cfg : Config} {d : State} {m : Message} {node r : Nat} {rsp : Response}

theorem answered_nil {t : State} : ¬ Answered (.message m) (.ok t []) := by
  rintro ⟨⟨seid,body,hsent⟩,-⟩
  cases hsent

variable (cfg) in
theorem send_response (hs : d.xacts.Serves) (hr : r∈d.xacts.list .remoteOriginator m.node)
    (hstep : (d.xacts.xact r).step=1) (hxid : (d.xacts.xact r).xid=sqnToXid m.sqn)
    (htype : (d.xacts.xact r).firstSeq.type=m.req.type) (hrsp : rsp.type=m.req.type+1) :
    (d.send cfg r rsp).Returns fun t sent =>
      t.xacts.Serves ∧ Answered (.message m) (.ok t sent) := by
  have hfinal : getStage rsp.type = .final := by
    rw [hrsp]
    exact m.req.final
  have hpaired:=hs.paired hr
  have hsaved:=Xact.save_paired (h := ⟨rsp.type,rsp.seid,0⟩) (cfg.build rsp) hpaired hstep
    (hrsp.trans (congrArg (· + 1) htype.symm)) hfinal
  unfold send
  rw [Xact.updateTx_response (hs.org hr) hstep hfinal]
  simp only
  generalize hx : (d.xacts.xact r).save ⟨rsp.type,some (pushHeader rsp.type rsp.seid
    (d.xacts.xact r).xid (cfg.build rsp))⟩=x at hsaved
  have hsame : (d.xacts.xact r).Same x := hx ▸ ⟨rfl,rfl,rfl,rfl⟩
  have hstep₂ : x.step=2 := by
    rw [← hx]
    show (d.xacts.xact r).step+1=2
    omega
  have hseq : x.secondSeq=⟨rsp.type,some (pushHeader rsp.type rsp.seid
      (d.xacts.xact r).xid (cfg.build rsp))⟩ := by
    rw [← hx]
    exact Xact.save_secondSeq hstep
  have hserves : (d.xacts.setXact r x).Serves := hs.setXact hsame fun _ _ _ => hsaved
  have hself : (d.xacts.setXact r x).xact r=x := Layer.setXact_self
  rw [Layer.Serves.commit_response (by rw [hself,hsame.org]; exact hs.org hr) (by rw [hself]; exact hstep₂)
    (by rw [hself]; exact hseq) hfinal]
  have hnode : x.node=m.node := hsame.node.trans (hs.node_eq hr)
  simp only [hself]
  refine ⟨hserves,⟨rsp.seid,cfg.build rsp,?_⟩,r,hr,?_⟩
  · simp only [toList_some]
    rw [hnode,hrsp,hxid]
  · show ((d.xacts.setXact r x).xact r).xid=_ ∧ ((d.xacts.setXact r x).xact r).step=2 ∧
      ((d.xacts.setXact r x).xact r).tmResponse=false
    rw [hself]
    exact ⟨hsame.xid.trans hxid,hstep₂,hsaved.idle⟩

theorem handleMessage_new (hs : d.xacts.Serves)
    (hf : d.xacts.findByXid (d.xacts.list .remoteOriginator m.node) (sqnToXid m.sqn)=none) :
    (d.handleMessage cfg m).Returns fun t sent =>
      t.xacts.Serves ∧ (Answered (.message m) (.ok t sent) ↔ d.ctx.Served m.req) := by
  have hreceive:=hs.receive_new cfg.rcounts m.timers (h := m.header) m.req.initial hf
  unfold handleMessage
  cases hl : d.xacts.receive cfg.rcounts m.node m.header m.timers with
  | abort l => trivial
  | ok l a =>
    rw [hl] at hreceive
    obtain ⟨hserves,r,hr,rfl,hxid,htype,hstep⟩ := hreceive
    simp only
    by_cases hserved : d.ctx.Served m.req
    · have hanswer:=Context.handleRequest_answered m.env m.node hserved
      cases hc : d.ctx.handleRequest m.env m.node m.req with
      | abort c => trivial
      | ok c rsp =>
        rw [hc] at hanswer
        obtain ⟨x,rfl,hx⟩ := hanswer
        have hsend:=send_response cfg (d := ⟨c,l⟩) hserves hr hstep hxid htype hx
        apply hsend.mono
        intro t sent ⟨ht,hanswered⟩
        exact ⟨ht,iff_of_true hanswered hserved⟩
    · have hanswer:=Context.handleRequest_unanswered m.env m.node hserved
      cases hc : d.ctx.handleRequest m.env m.node m.req with
      | abort c => trivial
      | ok c rsp =>
        rw [hc] at hanswer
        obtain rfl := hanswer
        exact ⟨hserves,iff_of_false answered_nil hserved⟩

theorem handleMessage_known (hs : d.xacts.Serves)
    (hf : d.xacts.findByXid (d.xacts.list .remoteOriginator m.node) (sqnToXid m.sqn)=some r) :
    (d.handleMessage cfg m).Returns fun t sent => t.xacts.Serves ∧
      (Answered (.message m) (.ok t sent) ↔
        (d.xacts.xact r).firstSeq.type=m.req.type ∧ (d.xacts.xact r).step=2) := by
  obtain ⟨hr,hxid⟩ := Layer.findByXid_mem hf
  have hpaired:=hs.paired hr
  unfold handleMessage
  by_cases htype : (d.xacts.xact r).firstSeq.type=m.req.type
  · have hreceive:=hs.receive_copy cfg.rcounts m.timers (h := m.header) m.req.initial hf htype
    cases hl : d.xacts.receive cfg.rcounts m.node m.header m.timers with
    | abort l => trivial
    | ok l a =>
      rw [hl] at hreceive
      obtain ⟨hserves,hlist,hsame,hseq,hstep,rfl⟩ := hreceive
      simp only
      refine ⟨hserves,?_⟩
      rcases hpaired.response with ⟨hone,hnone⟩ | ⟨htwo,-,hsome⟩
      · rw [hnone]
        refine iff_of_false answered_nil ?_
        rintro ⟨-,htwo⟩
        omega
      · obtain ⟨p,hp⟩ := isSome_iff_exists.mp hsome
        obtain ⟨seid,body,rfl⟩ := hpaired.reply p hp
        rw [hp]
        refine iff_of_true ⟨⟨seid,body,?_⟩,r,?_,?_⟩ ⟨htype,htwo⟩
        · simp only [map_some,toList_some]
          rw [htype,hxid]
        · show r∈l.list .remoteOriginator m.node
          rw [hlist]
          exact hr
        · have hr' : r∈l.list .remoteOriginator m.node := hlist ▸ hr
          exact ⟨hsame.xid.trans hxid,hstep.trans htwo,(hserves.paired hr').idle⟩
  · have hreceive:=hs.receive_other cfg.rcounts m.timers (h := m.header) m.req.initial hf
      htype
    cases hl : d.xacts.receive cfg.rcounts m.node m.header m.timers with
    | abort l => trivial
    | ok l a =>
      rw [hl] at hreceive
      obtain ⟨hserves,rfl⟩ := hreceive
      exact ⟨hserves,iff_of_false answered_nil fun h => htype h.1⟩

theorem step_answered (hs : d.xacts.Serves) {op : Op}
    {o : Outcome State (List (Nat × List Byte))} (ho : d.step cfg op=some o) :
    o.Returns fun t sent =>
      t.xacts.Serves ∧ (Answered op (.ok t sent) ↔ d.Answerable op) := by
  cases op with
  | message m =>
    obtain rfl := some.inj ho
    simp only [Answerable]
    cases hf : d.xacts.findByXid (d.xacts.list .remoteOriginator m.node) (sqnToXid m.sqn) with
    | none => exact handleMessage_new hs hf
    | some r => exact handleMessage_known hs hf
  | holdingTimeout r =>
    simp only [step,map_eq_some_iff] at ho
    obtain ⟨o',ho',rfl⟩ := ho
    have hserves:=hs.holdingTimeout ho'
    cases o' with
    | abort l => trivial
    | ok l a => exact ⟨hserves,iff_of_true trivial trivial⟩

end State

def config1 : Config := ⟨⟨3,1⟩,fun _ => []⟩

def noXact : Nat → Xact := fun _ => Xact.create config1.rcounts 0 0 .localOriginator 0 0

def establishAndDelete : List State.Op :=
  [.message ⟨handlerEnv0,0,0x100,9,.establishment establishment1⟩,
    .message ⟨handlerEnv0,0,0x200,9,.deletion (some 1)⟩]

end OgsDp.Df
