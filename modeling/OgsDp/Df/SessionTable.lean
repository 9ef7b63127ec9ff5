import OgsDp.Df.Handler

/-!
# The session table of the DF (src/df/context.c, src/df/ndf-handler.c)

What the lookups owe to the sessions, and what a refused establishment owes to the tables.
-/

namespace OgsDp.Df
open Lib RefTable OgsDp.Core
open Pfcp hiding Context contextInit

def Context.Leads (c : Context) (n : Nat) : Prop :=
  (∃ teid,c.sessFindByTeid teid=some n) ∨ (∃ seid,c.sessFindByDfN4Seid seid=some n) ∨
    (∃ f,c.sessFindByDsmfN4FSeid f=some n) ∨ (∃ a,c.sessFindByIpv4 a=some n) ∨
      ∃ a,c.sessFindByIpv6 a=some n

/-- A session is found under what it was stored with: its SEID, the F-SEID it was made from, the
TEIDs of the PDRs whose entries it has and its UE addresses. -/
structure Context.Found (c : Context) (n : Nat) : Prop where
  seid : c.sessFindByDfN4Seid (c.sess n).dfN4Seid=some n
  fSeid : ∃ f,dsmfFSeid f=(c.sess n).dsmfN4FSeid ∧ c.sessFindByDsmfN4FSeid f=some n
  teid : ∀ e∈c.teidHash,e.val=n →
    c.sessFindByTeid (c.up.ctx.pdr e.key).fTeid.teid=some n
  ipv4 : ∀ r∈(c.sess n).ipv4,∃ a : Addr, a.toList=(c.ueIps.addr r).toList.take 4 ∧
    c.sessFindByIpv4 a=some n
  ipv6 : ∀ r∈(c.sess n).ipv6,∃ a : Addr6, a=c.ueIps.addr r ∧ c.sessFindByIpv6 a=some n

structure Context.Tabled (c : Context) : Prop where
  live : ∀ n,c.Leads n → n∈c.sessList
  found : ∀ n∈c.sessList,c.Found n

/-- What a refused request owes: the sessions, the tables and the pools are as they were. -/
structure Unchanged (c c' : Context) : Prop where
  sessList : c'.sessList=c.sessList
  teid : c'.sessFindByTeid=c.sessFindByTeid
  objectTeid : objectFindByTeid c'.up.ctx=objectFindByTeid c.up.ctx
  dfN4Seid : c'.sessFindByDfN4Seid=c.sessFindByDfN4Seid
  dsmfN4FSeid : c'.sessFindByDsmfN4FSeid=c.sessFindByDsmfN4FSeid
  ipv4 : c'.sessFindByIpv4=c.sessFindByIpv4
  ipv6 : c'.sessFindByIpv6=c.sessFindByIpv6
  pdrPool : c'.up.ctx.pdrPool.avail=c.up.ctx.pdrPool.avail
  farPool : c'.up.ctx.far.pool.avail=c.up.ctx.far.pool.avail
  qerPool : c'.up.ctx.qer.pool.avail=c.up.ctx.qer.pool.avail
  urrPool : c'.up.ctx.urr.pool.avail=c.up.ctx.urr.pool.avail

namespace Context

def tables (c : Context) : List Nat × List (Entry Nat Nat) := (c.sessList,c.dsmfN4FSeidHash)

variable {c : Context} {n : Nat} {env : HandlerEnv}

theorem onUp_keeps {ρ : Type} (f : Up → Outcome Up ρ) : (c.onUp f).Keeps tables c := by
  unfold onUp
  cases f c.up with
  | ok u r => rfl
  | abort u => trivial

theorem createPdr_keeps (restoration : Bool) (c : Context) (m : Option CreatePdrUp) :
    (createPdr env restoration n c m).Keeps tables c := by
  unfold createPdr
  apply (onUp_keeps _).bind
  intro t reply
  cases reply with
  | rule p =>
    show (t.registerTeid n p).tables=t.tables
    unfold registerTeid
    simp only
    split_ifs <;> rfl
  | _ => rfl

theorem takeApnDnn_keeps (apnDnn : Option (List Byte)) :
    (c.takeApnDnn env n apnDnn).Keeps tables c := by
  unfold takeApnDnn
  split
  · rfl
  · split <;> rfl

theorem setupNodes_keeps : (c.setupNodes env n).Keeps tables c := by
  unfold setupNodes
  apply (onUp_keeps _).bind
  intro t done
  cases done <;> rfl

theorem dropIpv4_keeps : (c.dropIpv4 n).Keeps tables c := by
  unfold dropIpv4
  split
  · rfl
  · rename_i r _
    cases (c.unsetIpv4 r).ueIps.free r with
    | ok t u => rfl
    | abort t => trivial

theorem dropIpv6_keeps : (c.dropIpv6 n).Keeps tables c := by
  unfold dropIpv6
  split
  · rfl
  · rename_i r _
    cases (c.unsetIpv6 r).ueIps.free r with
    | ok t u => rfl
    | abort t => trivial

variable (c n) in
theorem takeIpv4_tables (wanted : Bool) (dnn : Option (List Byte)) (addr : List Byte) :
    (c.takeIpv4 n wanted dnn addr).1.tables=c.tables := by
  unfold takeIpv4
  split
  · split <;> rfl
  · rfl

variable (c n) in
theorem takeIpv6_tables (wanted : Bool) (dnn : Option (List Byte)) (addr : List Byte) :
    (c.takeIpv6 n wanted dnn addr).1.tables=c.tables := by
  unfold takeIpv6
  split
  · split <;> rfl
  · rfl

theorem sessSetUeIp_keeps (type : Byte) (x : PdrUp) :
    (c.sessSetUeIp n type x).Keeps tables c := by
  unfold sessSetUeIp
  apply dropIpv4_keeps.bind
  intro c _
  apply dropIpv6_keeps.bind
  intro c _
  split
  · exact takeIpv4_tables ..
  · exact takeIpv6_tables ..
  · have h4:=takeIpv4_tables c n (x.ipv4 || x.dnn.isSome) x.dnn x.bothAddr
    split
    · rename_i heq
      rw [heq] at h4
      exact h4
    · rename_i c' heq
      rw [heq] at h4
      have h6:=takeIpv6_tables c' n (x.ipv6 || x.dnn.isSome) x.dnn x.bothAddr
      split
      · rename_i c'' e heq'
        rw [heq'] at h6
        have hundo : (c''.undoIpv4 n).Keeps tables c'' := by
          apply dropIpv4_keeps.bind
          exact fun _ _ => rfl
        have hall:=hundo.bind (f := fun c _ => Outcome.ok c (Except.error e : Except Refusal Unit))
          fun _ _ => rfl
        exact hall.mono fun t _ ht => ht.trans (h6.trans h4)
      · rename_i c'' heq'
        rw [heq'] at h6
        exact h6.trans h4
  · rfl

theorem setupPdrs_keeps (pdnType : Option Byte) (c : Context) (ps : List Nat) :
    (setupPdrs env n pdnType c ps).Keeps tables c := by
  induction ps generalizing c with
  | nil => rfl
  | cons p ps ih =>
    apply Outcome.Keeps.next
    · split
      · split
        · exact sessSetUeIp_keeps ..
        · rfl
      · rfl
    · intro c _
      apply (onUp_keeps _).bind
      exact fun c _ => ih c

theorem establish_keeps (req : EstablishmentRequest) :
    (c.establish env n req).Keeps tables c := by
  unfold establish
  apply (each_keeps (createPdr_keeps _) c _).next
  intro c ps
  apply (onUp_keeps _).next
  intro c _
  apply (takeApnDnn_keeps _).next
  intro c _
  apply (onUp_keeps _).next
  intro c _
  apply (once_keeps (onUp_keeps _)).next
  intro c _
  apply setupNodes_keeps.next
  intro c _
  apply Outcome.Keeps.next
  · split
    · exact onUp_keeps _
    · rfl
  · intro c _
    apply (setupPdrs_keeps _ c ps).next
    exact fun _ _ => rfl

theorem change_keeps (req : ModificationRequest) : (c.change env n req).Keeps tables c := by
  unfold change
  apply (onUp_keeps _).next
  intro c ps
  iterate 11
    apply (onUp_keeps _).next
    intro c _
  iterate 2
    apply (once_keeps (onUp_keeps _)).next
    intro c _
  apply setupNodes_keeps.next
  intro c _
  apply (setupPdrs_keeps none c ps).next
  exact fun _ _ => rfl

theorem answer_keeps {type : Byte} {restoration : Bool} {upSeid : Option (BitVec 64)}
    {o : Outcome Context (Except Refusal (List Nat))} (h : o.Keeps tables c) :
    (answer env type restoration upSeid n o).Keeps tables c := by
  unfold answer
  apply h.bind
  intro t r
  cases r <;> rfl

theorem handleSessionEstablishmentRequest_keeps (req : EstablishmentRequest) :
    (c.handleSessionEstablishmentRequest env n req).Keeps tables c :=
  answer_keeps (establish_keeps req)

theorem handleSessionModificationRequest_keeps (req : ModificationRequest) :
    (c.handleSessionModificationRequest env n req).Keeps tables c :=
  answer_keeps (change_keeps req)

def FSeidKeys (c : Context) : Prop := ∀ e∈c.dsmfN4FSeidHash,e.klen=40

theorem FSeidKeys.of_hash {c' : Context} (h : c.FSeidKeys)
    (hhash : c'.dsmfN4FSeidHash=c.dsmfN4FSeidHash) : c'.FSeidKeys := by
  unfold FSeidKeys
  rw [hhash]
  exact h

theorem FSeidKeys.congr {c' : Context} (h : c.FSeidKeys) (ht : c'.tables=c.tables) :
    c'.FSeidKeys :=
  h.of_hash (congrArg Prod.snd ht)

def Handled (c c' : Context) : Request → Option Response → Prop
  | .establishment _, none => c'=c
  | .establishment _, some _ => ∃ n,c'.sessList=c.sessList++[n]
  | .modification seid _, rsp =>
    c'.sessList=c.sessList ∧ (c.sessOfHeader seid=none → c'=c ∧ rsp=none)
  | .deletion seid, rsp => rsp=none ∧ (c.sessOfHeader seid=none → c'=c)

theorem setSeids_fSeidKeys (h : c.FSeidKeys) (n : Nat) : (c.setSeids n).FSeidKeys := by
  intro e he
  unfold setSeids at he
  rcases klen_set he with hlen | ⟨e',he',hlen⟩
  · rw [hlen]
    exact Vector.length_toList
  · rw [← hlen]
    exact h e' he'

theorem sessAdd_returns (c : Context) (fSeid : Vector Byte 29) :
    (c.sessAdd fSeid).Returns fun t n =>
      t.sessList=c.sessList++[n] ∧ (c.FSeidKeys → t.FSeidKeys) := by
  unfold sessAdd
  split
  · exact Outcome.returns_abort
  · constructor
    · rfl
    · intro h
      apply setSeids_fSeidKeys
      exact h.of_hash rfl

theorem unsetSeids_fSeidKeys (h : c.FSeidKeys) (n : Nat) : (c.unsetSeids n).FSeidKeys := by
  intro e he
  exact h e (List.mem_of_mem_eraseP he)

theorem unsetTeid_fSeidKeys (h : c.FSeidKeys) (teid : BitVec 32) :
    (c.unsetTeid teid).FSeidKeys := by
  unfold unsetTeid
  split_ifs <;> exact h

theorem unsetIps_fSeidKeys (h : c.FSeidKeys) (r4 r6 : Option UeIpRef) :
    (c.unsetIps r4 r6).FSeidKeys := by
  cases r4 <;> cases r6 <;> exact h.of_hash rfl

theorem sessRemove_fSeidKeys (h : c.FSeidKeys) (n : Nat) : (c.sessRemove n).FSeidKeys := by
  unfold sessRemove
  apply FSeidKeys.of_hash _ rfl
  apply unsetTeid_fSeidKeys
  apply unsetIps_fSeidKeys
  apply unsetSeids_fSeidKeys
  exact h.of_hash rfl

theorem handleSessionDeletionRequest_fSeidKeys (h : c.FSeidKeys) (n : Nat) :
    (c.handleSessionDeletionRequest n).FSeidKeys :=
  sessRemove_fSeidKeys (unsetTeid_fSeidKeys h _) n

theorem handleRequest_returns (env : HandlerEnv) (c : Context) (node : Nat) (req : Request) :
    (c.handleRequest env node req).Returns fun c' rsp =>
      Handled c c' req rsp ∧ (c.FSeidKeys → c'.FSeidKeys) := by
  cases req with
  | establishment req =>
    simp only [handleRequest,sessAddByMessage]
    cases req.cpFSeid with
    | none => exact ⟨rfl,id⟩
    | some fSeid =>
      simp only
      split
      · apply Outcome.Returns.bind (R := fun t r => ∃ n,r=some n ∧
          t.sessList=c.sessList++[n] ∧ (c.FSeidKeys → t.FSeidKeys))
        · apply (sessAdd_returns c fSeid).bind
          exact fun t n ht => ⟨n,rfl,ht⟩
        · rintro t r ⟨n,rfl,hlist,hkeys⟩
          simp only
          apply Outcome.Returns.bind (handleSessionEstablishmentRequest_keeps req)
          intro u rsp hu
          exact ⟨⟨n,(congrArg Prod.fst hu).trans hlist⟩,fun h => (hkeys h).congr hu⟩
      · exact ⟨rfl,id⟩
  | modification seid req =>
    simp only [handleRequest]
    cases hs : c.sessOfHeader seid with
    | none => exact ⟨⟨rfl,fun _ => ⟨rfl,rfl⟩⟩,id⟩
    | some n =>
      apply Outcome.Returns.bind (handleSessionModificationRequest_keeps req)
      intro u rsp hu
      refine ⟨⟨congrArg Prod.fst hu,?_⟩,fun h => h.congr hu⟩
      rw [hs]
      exact fun hno => nomatch hno
  | deletion seid =>
    simp only [handleRequest]
    cases hs : c.sessOfHeader seid with
    | none => exact ⟨⟨rfl,fun _ => rfl⟩,id⟩
    | some n =>
      refine ⟨⟨rfl,?_⟩,?_⟩
      · rw [hs]
        exact fun hno => nomatch hno
      · exact fun h => handleSessionDeletionRequest_fSeidKeys h n

theorem sessFindByDsmfN4FSeid_none (h : c.FSeidKeys) (f : Vector Byte 29) :
    c.sessFindByDsmfN4FSeid f=none := by
  apply get_of_klen
  intro e he hlen
  have hkey : f.toList.length=29 := Vector.length_toList
  have hklen : c.dsmfN4FSeidKeys.klen f.toList=f.toList.length := rfl
  have hforty:=h e he
  omega

theorem Tabled.no_session (h : c.FSeidKeys) (ht : c.Tabled) : c.sessList=[] := by
  cases hl : c.sessList with
  | nil => rfl
  | cons n l =>
    obtain ⟨f,-,hfind⟩ := (ht.found n (hl ▸ List.mem_cons_self ..)).fSeid
    rw [sessFindByDsmfN4FSeid_none h f] at hfind
    cases hfind

structure Empty (c : Context) : Prop where
  sessList : c.sessList=[]
  dfN4Seid : c.dfN4SeidHash=[]
  dsmfN4FSeid : c.dsmfN4FSeidHash=[]
  ipv4 : c.ipv4Hash=[]
  ipv6 : c.ipv6Hash=[]
  teid : c.teidHash=[]

theorem Empty.init (poolSess : Nat) (up : Up) (subnets : List Subnet) (seeds : Seeds) :
    (contextInit poolSess up subnets seeds).Empty :=
  ⟨rfl,rfl,rfl,rfl,rfl,rfl⟩

theorem Empty.fSeidKeys (h : c.Empty) : c.FSeidKeys := by
  intro e he
  rw [h.dsmfN4FSeid] at he
  cases he

theorem Empty.tabled (h : c.Empty) : c.Tabled where
  live := by
    rintro n (⟨k,hk⟩ | ⟨k,hk⟩ | ⟨k,hk⟩ | ⟨k,hk⟩ | ⟨k,hk⟩)
    · simp [sessFindByTeid,h.teid,RefTable.get] at hk
    · simp [sessFindByDfN4Seid,h.dfN4Seid,RefTable.get] at hk
    · simp [sessFindByDsmfN4FSeid,h.dsmfN4FSeid,RefTable.get] at hk
    · simp [sessFindByIpv4,h.ipv4,RefTable.get] at hk
    · simp [sessFindByIpv6,h.ipv6,RefTable.get] at hk
  found := by
    intro n hn
    rw [h.sessList] at hn
    cases hn

theorem Empty.sessOfHeader (h : c.Empty) (seid : Option (BitVec 64)) :
    c.sessOfHeader seid=none := by
  cases seid with
  | none => rfl
  | some k =>
    simp [Context.sessOfHeader,sessFindByDfN4Seid,h.dfN4Seid,RefTable.get]

theorem Empty.handled {c' : Context} {req : Request} {rsp : Option Response} (h : c.Empty)
    (hr : Handled c c' req rsp) (hlist : c'.sessList=[]) : c'.Empty := by
  cases req with
  | establishment req =>
    cases rsp with
    | none =>
      rw [show c'=c from hr]
      exact h
    | some rsp =>
      obtain ⟨n,hn⟩ := hr
      rw [hn] at hlist
      simp at hlist
  | modification seid req =>
    rw [(hr.2 (h.sessOfHeader seid)).1]
    exact h
  | deletion seid =>
    rw [hr.2 (h.sessOfHeader seid)]
    exact h

structure Op where
  env : HandlerEnv
  node : Nat
  req : Request

def step (c : Context) (op : Op) : Option (Outcome Context (Option Response)) :=
  some (c.handleRequest op.env op.node op.req)

theorem step_handled {op : Op} {t : Context} {rsp : Option Response}
    (ho : c.step op=some (.ok t rsp)) :
    Handled c t op.req rsp ∧ (c.FSeidKeys → t.FSeidKeys) := by
  have hreturns:=handleRequest_returns op.env c op.node op.req
  rw [Option.some.inj ho] at hreturns
  exact hreturns

theorem fSeidKeys_run (h : c.FSeidKeys) (ops : List Op) :
    ∀ t∈completed step c ops,t.FSeidKeys :=
  completed_inv (C := fun _ _ => True) (fun _ _ _ _ hs _ ho => (step_handled ho).2 hs) h
    (eachStep_of_forall fun _ _ => trivial)

theorem tabled_run (h : c.Empty) (ops : List Op)
    (hlist : ∀ t∈completed step c ops,t.sessList=[]) :
    ∀ t∈completed step c ops,t.Tabled := by
  induction ops generalizing c with
  | nil =>
    intro t ht
    rw [List.mem_singleton.mp ht]
    exact h.tabled
  | cons op ops ih =>
    intro t ht
    simp only [completed,List.mem_cons] at ht hlist
    rcases ht with rfl | ht
    · exact h.tabled
    · cases ho : c.step op with
      | none => simp [ho] at ht
      | some o =>
        cases o with
        | abort u => simp [ho] at ht
        | ok u rsp =>
          simp only [ho] at ht hlist
          have hhead : u∈completed step u ops := mem_completed_self ..
          have hempty : u.Empty :=
            h.handled (step_handled ho).1 (hlist u (.inr hhead))
          exact ih hempty (fun v hv => hlist v (.inr hv)) t ht

end Context

/-- In every run of the DF the lookups keep their promise just as long as there is no session. -/
theorem tabled_iff_no_session (poolSess : Nat) (up : Up) (subnets : List Subnet) (seeds : Seeds)
    (ops : List Context.Op) :
    (∀ c∈completed Context.step (contextInit poolSess up subnets seeds) ops,c.Tabled) ↔
      ∀ c ∈ completed Context.step (contextInit poolSess up subnets seeds) ops,
        c.sessList=[] := by
  have hempty:=Context.Empty.init poolSess up subnets seeds
  constructor
  · intro htabled c hc
    exact Context.Tabled.no_session (Context.fSeidKeys_run hempty.fSeidKeys ops c hc) (htabled c hc)
  · exact Context.tabled_run hempty ops

def handlerEnv0 : HandlerEnv :=
  ⟨⟨true,none,some (Vector.replicate 4 127),none,true,0,.zero⟩,fun _ => none⟩

def context1 : Context := contextInit 1 (upInit 1 id 0 0) [] ⟨0,0,0,0,0⟩

def establishment1 : EstablishmentRequest where
  cpFSeid := some (Vector.ofFn fun i => if i=0 then 2 else if i=8 then 1 else 0)
  pfcpsereqFlags := none
  createPdr := []
  createFar := []
  createUrr := []
  createQer := []
  createBar := none
  apnDnn := none
  pdnType := none

def op1 : Context.Op := ⟨handlerEnv0,0,.establishment establishment1⟩

theorem session_not_found :
    ¬ ∀ c∈completed Context.step context1 [op1],c.Tabled := by
  intro h
  have hmem : (context1.handleRequest handlerEnv0 0 op1.req).state ∈
      completed Context.step context1 [op1] :=
    List.mem_cons_of_mem _ (List.mem_cons_self ..)
  have hkeys:=Context.fSeidKeys_run (Context.Empty.init 1 _ _ _).fSeidKeys [op1] _ hmem
  have hnone:=Context.Tabled.no_session hkeys (h _ hmem)
  have hone : (context1.handleRequest handlerEnv0 0 op1.req).state.sessList=[0] := rfl
  rw [hone] at hnone
  cases hnone

/-- A refused establishment leaves its session behind. -/
theorem refused_establishment_remains {env : HandlerEnv} {node : Nat} {c c' : Context}
    {req : EstablishmentRequest} {rsp : Response}
    (h : c.handleRequest env node (.establishment req) = .ok c' (some rsp))
    (_hcause : rsp.cause ≠ .requestAccepted) : ¬ Unchanged c c' := by
  intro hsame
  have hreturns:=Context.handleRequest_returns env c node (.establishment req)
  rw [h] at hreturns
  obtain ⟨n,hlist⟩ := hreturns.1
  have hlen:=congrArg List.length (hlist.symm.trans hsame.sessList)
  simp at hlen

def refused1 : EstablishmentRequest :=
  { establishment1 with
    createPdr := [some ⟨⟨none,none,none,none,[],none⟩,none,none,[],[]⟩] }

def refused1Context : Context :=
  (context1.handleRequest handlerEnv0 0 (.establishment refused1)).state

theorem refused1_answered :
    context1.handleRequest handlerEnv0 0 (.establishment refused1) =
      .ok refused1Context (some ⟨51,1,.mandatoryIeMissing,some .pdrId,none,[],true⟩) :=
  rfl

theorem refused_establishment_remains_pdrId : ¬ Unchanged context1 refused1Context :=
  refused_establishment_remains refused1_answered (by decide)

theorem refused_session_listed :
    (context1.handleRequest handlerEnv0 0 (.establishment refused1) =
        .ok refused1Context (some ⟨51,1,.mandatoryIeMissing,some .pdrId,none,[],true⟩)) ∧
      ¬ Unchanged context1 refused1Context := by
  refine ⟨refused1_answered,?_⟩
  intro hsame
  have hone : refused1Context.sessList=[0] := rfl
  have hnone : refused1Context.sessList=[] := hsame.sessList
  rw [hone] at hnone
  cases hnone

end OgsDp.Df
