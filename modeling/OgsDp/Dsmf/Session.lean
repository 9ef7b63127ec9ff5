import OgsDp.Dsmf.Sm

/-!
# Session creation (src/dsmf/context.c)
-/

namespace OgsDp.Dsmf
open Lib RefTable OgsDp.Core Function

def sessCalloc (c : Context) (pool : Pool) (n id : Nat) : Context :=
  { c with
    sessPool := pool
    sess := update c.sess n
      { Sess.zero with id := id,index := Pool.poolIndex n } }

def sessAttach (c : Context) (pool : Pool) (n k : Nat) (cpFSeid : FSeid) : Context :=
  let c:={ c.modify n fun s => { s with
      dsmfDn4SeidNode := some k
      dsmfDn4Seid := (c.dn4Seid k).signExtend 64
      dfDn4FSeid := cpFSeid } with
    dn4SeidPool := pool }
  { c with
    dsmfDn4SeidHash := set c.seidKeys c.dsmfDn4SeidHash n (c.sess n).dsmfDn4Seid n
    dfDn4FSeidHash := set c.fSeidKeys c.dfDn4FSeidHash n cpFSeid n
    sessList := c.sessList++[n] }

def entryEvent (sessId : Nat) : Event where
  id := .entrySig
  sessId := sessId
  timerId := none
  pfcpMessage := none
  pfcpXactId := 0
  ranSync := none

def sessAdd (env : Env) (c : Context) (cpFSeid : FSeid) : Outcome Context Nat :=
  match c.sessPool.idCalloc with
  | (_,none) => .abort c
  | (pool,some (n,id)) =>
    let c:=sessCalloc c pool n id
    if 0<(c.sess n).index ∧ (c.sess n).index ≤ c.sessPool.size then
      match c.dn4SeidPool.alloc with
      | (_,none) => .abort c
      | (seidPool,some k) =>
        (fsmInit env (sessAttach c seidPool n k cpFSeid) n (entryEvent id)).bind fun c _ => .ok c n
    else .abort c

def sessBindRan (env : Env) (c : Context) (n : Nat) (r : RanSync) : Context :=
  let c:=c.modify n fun s => { s with
    pfcpNode := s.pfcpNode.or env.peerNode
    gnbId := some r.gnbId
    sessionId := some r.sessionId
    ranTeid := r.teid
    ranAddr := env.ranAddr
    sessionRef := some (formatRef r.gnbId r.sessionId) }
  let mem:={ env.frame with stack := env.later }.format r.gnbId r.sessionId
  { c with
    gnbSessionHash := set (c.gnbKeys mem) c.gnbSessionHash env.frame.key
      (formatKey r.gnbId r.sessionId) n
    sessionRefHash := set c.refKeys c.sessionRefHash (formatRef r.gnbId r.sessionId)
      (formatRef r.gnbId r.sessionId) n }

def cpAddr (env : Env) : BitVec 32 := env.pfcpAddr.getD 0x1700007f

def sessAddByRanSync (env : Env) (c : Context) (r : RanSync) : Outcome Context Nat :=
  match sessFindByGnbSession c env.frame r.gnbId r.sessionId with
  | some n => .ok c n
  | none =>
    match c.dn4SeidPool.alloc with
    | (_,none) => .abort c
    | (pool,some k) =>
      (sessAdd env { c with dn4SeidPool := pool } ⟨(c.dn4Seid k).signExtend 64,cpAddr env⟩).bind
        fun c n => .ok (sessBindRan env c n r) n

section Creation

variable (env : Env) (c : Context) (n : Nat)

theorem fsmInit_of_found {id m : Nat} (h : sessFindById c id=some m) :
    fsmInit env c n (entryEvent id) = .ok (tran (tran c n .initial) n .waitRanSync)
      [⟨n,.initial,.entrySig,decide (n∈c.sessList)⟩,
        ⟨n,.waitRanSync,.entrySig,decide (n∈c.sessList)⟩] := by
  have h1 : sessFindById (tran c n .initial) (entryEvent id).sessId=some m := h
  have h2 : sessFindById (tran (tran c n .initial) n .waitRanSync) (entryEvent id).sessId =
      some m := h
  have hsm : ((tran (tran c n .initial) n .waitRanSync).sess n).sm = .waitRanSync := by
    simp [tran]
  have hinit : sessionStateInitial (tran c n .initial) n (entryEvent id) =
      .ok (tran (tran c n .initial) n .waitRanSync) () := by
    simp only [sessionStateInitial,h1]
  have hentry : sessionStateWaitRanSync env (tran (tran c n .initial) n .waitRanSync) n
      { entryEvent id with id := .entrySig } =
        .ok (tran (tran c n .initial) n .waitRanSync) () := by
    simp only [sessionStateWaitRanSync,h2]
  simp only [fsmInit,signal,sessionState,hinit,Outcome.bind_ok,fsmEntry]
  rw [if_pos (by rw [hsm]; decide),hsm]
  simp only [hentry,Outcome.bind_ok]
  rfl

theorem fsmInit_of_missing {id : Nat} (h : sessFindById c id=none) :
    fsmInit env c n (entryEvent id) = .abort (tran c n .initial) := by
  have h1 : sessFindById (tran c n .initial) (entryEvent id).sessId=none := h
  simp only [fsmInit,signal,sessionState,sessionStateInitial,h1,Outcome.bind_abort]

def sessAdded (pool seidPool : Pool) (id k : Nat) (cpFSeid : FSeid) : Context :=
  tran (tran (sessAttach (sessCalloc c pool n id) seidPool n k cpFSeid) n .initial) n .waitRanSync

theorem sessAdd_empty {live : List Nat} (h : Pool.Split c.sessPool [] live) (cpFSeid : FSeid) :
    sessAdd env c cpFSeid = .abort c := by
  simp only [sessAdd,h.idCalloc_nil]

theorem sessAdd_drawn {q live : List Nat} (h : Pool.Split c.sessPool (n::q) live)
    (cpFSeid : FSeid) :
    ∃ pool,Pool.Split pool q (live++[n]) ∧ pool.size=c.sessPool.size ∧
      pool.id=nextId c.sessPool.id 1 maxPoolId ∧
      sessAdd env c cpFSeid =
        match c.dn4SeidPool.alloc with
        | (_,none) => .abort (sessCalloc c pool n pool.id)
        | (seidPool,some k) =>
          match pool.find pool.id with
          | none =>
            .abort (tran (sessAttach (sessCalloc c pool n pool.id) seidPool n k cpFSeid) n .initial)
          | some _ => .ok (sessAdded c n pool seidPool pool.id k cpFSeid) n := by
  obtain ⟨pool,hp,hs,hsize,hid⟩ := h.idCalloc
  refine ⟨pool,hs,hsize,hid,?_⟩
  have hlt : n<c.sessPool.size := h.free_lt_size (List.mem_cons_self ..)
  have hindex : 0<((sessCalloc c pool n pool.id).sess n).index ∧
      ((sessCalloc c pool n pool.id).sess n).index≤(sessCalloc c pool n pool.id).sessPool.size := by
    simp only [sessCalloc,update_self,Pool.poolIndex,hsize]
    omega
  simp only [sessAdd,hp]
  rw [← hid,if_pos hindex]
  have hseid : (sessCalloc c pool n pool.id).dn4SeidPool=c.dn4SeidPool := rfl
  rw [hseid]
  rcases c.dn4SeidPool.alloc with ⟨seidPool,k⟩
  cases k with
  | none => rfl
  | some k =>
    have hfind : sessFindById (sessAttach (sessCalloc c pool n pool.id) seidPool n k cpFSeid)
        pool.id=pool.find pool.id := rfl
    cases hf : pool.find pool.id with
    | none =>
      simp only [fsmInit_of_missing env _ n (hfind.trans hf),Outcome.bind_abort]
    | some m =>
      simp only [fsmInit_of_found env _ n (hfind.trans hf),Outcome.bind_ok]
      rfl

theorem sessAdd_inv {q live : List Nat} (h : Pool.Split c.sessPool q live) {cpFSeid : FSeid}
    {t : Context} (hadd : sessAdd env c cpFSeid = .ok t n) :
    ∃ q' pool seidPool k,q=n::q' ∧ Pool.Split pool q' (live++[n]) ∧
      pool.size=c.sessPool.size ∧ c.dn4SeidPool.alloc=(seidPool,some k) ∧
        t=sessAdded c n pool seidPool pool.id k cpFSeid := by
  cases q with
  | nil =>
    rw [sessAdd_empty env c h cpFSeid] at hadd
    cases hadd
  | cons m q =>
    obtain ⟨pool,hpool,hsize,-,heq⟩ := sessAdd_drawn env c m h cpFSeid
    rw [heq] at hadd
    rcases halloc : c.dn4SeidPool.alloc with ⟨seidPool,k⟩
    rw [halloc] at hadd
    cases k with
    | none => cases hadd
    | some k =>
      cases hfind : pool.find pool.id with
      | none =>
        simp only [hfind] at hadd
        cases hadd
      | some i =>
        simp only [hfind,Outcome.ok.injEq] at hadd
        obtain ⟨rfl,rfl⟩ := hadd
        exact ⟨q,pool,seidPool,k,rfl,hpool,hsize,rfl,rfl⟩

section Fields

variable (pool seidPool : Pool) (id k : Nat) (cpFSeid : FSeid) (m : Nat)

@[simp] theorem sessAdded_sessList :
    (sessAdded c n pool seidPool id k cpFSeid).sessList=c.sessList++[n] := rfl

theorem sessAdded_sess_self :
    (sessAdded c n pool seidPool id k cpFSeid).sess n =
      { Sess.zero with
        id := id
        index := Pool.poolIndex n
        dsmfDn4SeidNode := some k
        dsmfDn4Seid := (c.dn4Seid k).signExtend 64
        dfDn4FSeid := cpFSeid
        sm := .waitRanSync } := by
  simp [sessAdded,tran,sessAttach,sessCalloc,Context.modify]

theorem sessAdded_sm_self :
    ((sessAdded c n pool seidPool id k cpFSeid).sess n).sm = .waitRanSync := by
  rw [sessAdded_sess_self]

theorem sessAdded_sess_of_ne (h : m≠n) :
    (sessAdded c n pool seidPool id k cpFSeid).sess m=c.sess m := by
  simp [sessAdded,tran,sessAttach,sessCalloc,Context.modify,update_of_ne h]

theorem sessAdded_seidKeys :
    (sessAdded c n pool seidPool id k cpFSeid).seidKeys =
      (sessAttach (sessCalloc c pool n id) seidPool n k cpFSeid).seidKeys := by
  rw [sessAdded,tran_seidKeys,tran_seidKeys]

theorem sessAdded_dsmfDn4SeidHash :
    (sessAdded c n pool seidPool id k cpFSeid).dsmfDn4SeidHash =
      set (sessAdded c n pool seidPool id k cpFSeid).seidKeys c.dsmfDn4SeidHash n
        ((sessAdded c n pool seidPool id k cpFSeid).sess n).dsmfDn4Seid n := by
  rw [sessAdded_seidKeys,sessAdded_sess_self]
  simp only [sessAdded,tran,sessAttach,Context.modify_dsmfDn4SeidHash,Context.modify_sess_self]
  rfl

end Fields

theorem sessBindRan_frame {α : Type} (r : RanSync) (g : Sess → α)
    (hg : ∀ (s : Sess) p,g { s with
      pfcpNode := p
      gnbId := some r.gnbId
      sessionId := some r.sessionId
      ranTeid := r.teid
      ranAddr := env.ranAddr
      sessionRef := some (formatRef r.gnbId r.sessionId) }=g s) (m : Nat) :
    g ((sessBindRan env c n r).sess m)=g (c.sess m) :=
  Context.modify_frame c n _ m g fun s => hg s _

theorem sessBindRan_id (r : RanSync) (m : Nat) :
    ((sessBindRan env c n r).sess m).id=(c.sess m).id :=
  sessBindRan_frame env c n r Sess.id (fun _ _ => rfl) m

theorem sessBindRan_pair_self (r : RanSync) :
    ((sessBindRan env c n r).sess n).pair=some (r.gnbId,r.sessionId) := by
  simp [sessBindRan,Context.modify,Sess.pair]

theorem sessBindRan_sess_of_ne (r : RanSync) {m : Nat} (h : m≠n) :
    (sessBindRan env c n r).sess m=c.sess m :=
  update_of_ne h _ _

end Creation

end OgsDp.Dsmf
