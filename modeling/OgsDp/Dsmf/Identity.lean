import OgsDp.Dsmf.SessionTable

/-!
# Sessions by gNB and session id (src/dsmf/context.c)

`gnb_session_hash` is meant to be a map from pairs of strings to sessions.
-/

namespace OgsDp.Dsmf
open Lib RefTable OgsDp.Core Function List Option

structure Registry where
  ctx : Context
  last : CStr × CStr → Option Nat

inductive RegistryOp where
  | sessAddByRanSync (env : Env) (r : RanSync)
  | sessRemove (fr : Frame) (n : Nat)
  | sessFindByGnbSession (fr : Frame) (gnbId sessionId : CStr)

def Registry.init (poolSess : Nat) (sess : Nat → Sess) (dn4Seid : Nat → BitVec 32)
    (seed : BitVec 32) : Registry :=
  ⟨contextInit poolSess sess dn4Seid seed,fun _ => none⟩

def Registry.step (s : Registry) : RegistryOp → Option (Outcome Registry (Option Nat))
  | .sessAddByRanSync env r =>
    match sessAddByRanSync env s.ctx r with
    | .ok c n => some (.ok ⟨c,update s.last (r.gnbId,r.sessionId) (some n)⟩ (some n))
    | .abort c => some (.abort ⟨c,s.last⟩)
  | .sessRemove fr n =>
    if n∈s.ctx.sessList then
      match sessRemove s.ctx fr n with
      | .ok c _ => some (.ok ⟨c,fun p => if s.last p=some n then none else s.last p⟩ none)
      | .abort c => some (.abort ⟨c,s.last⟩)
    else none
  | .sessFindByGnbSession fr g i => some (.ok s (sessFindByGnbSession s.ctx fr g i))

/-- A call answers as the map does, and the map tells the pairs apart. -/
def AnswersAsMap (s : Registry) (op : RegistryOp) : Outcome Registry (Option Nat) → Prop
  | .abort _ => True
  | .ok t res =>
    (match op with
      | .sessAddByRanSync _ r =>
        (∀ n,s.last (r.gnbId,r.sessionId)=some n → res=some n) ∧
          (s.last (r.gnbId,r.sessionId)=none → ∀ n∈s.ctx.sessList,res≠some n)
      | .sessRemove _ _ => True
      | .sessFindByGnbSession _ g i => res=s.last (g,i)) ∧
    ∀ p q n,t.last p=some n → t.last q=some n → p=q

def Context.pair (c : Context) (n : Nat) : Option (CStr × CStr) := (c.sess n).pair

/-- The buffers the entries refer to still hold the keys of their sessions. -/
def KeysIntact (c : Context) (mem : Nat → Byte) : Prop :=
  ∀ e∈c.gnbSessionHash,∀ p ∈ c.pair e.val,
    memRead mem e.key (formatKey p.1 p.2).length=formatKey p.1 p.2

def KeyApart (c : Context) (g i : CStr) : Prop :=
  ∀ n∈c.sessList,∀ p∈c.pair n,formatKey p.1 p.2=formatKey g i → p=(g,i)

def Reliable (s : Registry) : RegistryOp → Prop
  | .sessAddByRanSync env r =>
    KeyApart s.ctx r.gnbId r.sessionId ∧
      KeysIntact s.ctx (env.frame.format r.gnbId r.sessionId) ∧
      KeysIntact s.ctx ({ env.frame with stack := env.later }.format r.gnbId r.sessionId)
  | .sessRemove fr n =>
    ∀ p∈s.ctx.pair n,KeysIntact s.ctx (fr.format p.1 p.2)
  | .sessFindByGnbSession fr g i => KeyApart s.ctx g i ∧ KeysIntact s.ctx (fr.format g i)

instance (c : Context) (mem : Nat → Byte) : Decidable (KeysIntact c mem) :=
  inferInstanceAs (Decidable (∀ e∈c.gnbSessionHash,∀ p∈c.pair e.val,_=_))

instance (c : Context) (g i : CStr) : Decidable (KeyApart c g i) :=
  inferInstanceAs (Decidable (∀ n∈c.sessList,∀ p∈c.pair n,_=_ → _=_))

instance (s : Registry) : ∀ op,Decidable (Reliable s op)
  | .sessAddByRanSync env r =>
    inferInstanceAs (Decidable (KeyApart s.ctx r.gnbId r.sessionId ∧
      KeysIntact s.ctx (env.frame.format r.gnbId r.sessionId) ∧
      KeysIntact s.ctx ({ env.frame with stack := env.later }.format r.gnbId r.sessionId)))
  | .sessRemove fr n =>
    inferInstanceAs (Decidable (∀ p∈s.ctx.pair n,KeysIntact s.ctx (fr.format p.1 p.2)))
  | .sessFindByGnbSession fr g i =>
    inferInstanceAs (Decidable (KeyApart s.ctx g i ∧ KeysIntact s.ctx (fr.format g i)))

structure Named (s : Registry) : Prop where
  sessions : ∃ q,Pool.Split s.ctx.sessPool q s.ctx.sessList
  table : ∃ l,Records (s.ctx.gnbKeys fun _ => 0) s.ctx.gnbSessionHash l ∧
    ∀ b,b∈l ↔ b.2∈s.ctx.sessList ∧ ∃ p∈s.ctx.pair b.2,b.1=formatKey p.1 p.2
  last : ∀ p n,s.last p=some n ↔ n∈s.ctx.sessList ∧ p∈s.ctx.pair n

namespace Named

variable {s : Registry}

theorem init (poolSess : Nat) (sess : Nat → Sess) (dn4Seid : Nat → BitVec 32)
    (seed : BitVec 32) : Named (Registry.init poolSess sess dn4Seid seed) where
  sessions := ⟨_,Pool.split_init poolSess⟩
  table := ⟨[],records_nil,by simp [Registry.init,contextInit]⟩
  last := by simp [Registry.init,contextInit]

theorem intact {mem : Nat → Byte} {l : List (List Byte × Nat)}
    (h : Records (s.ctx.gnbKeys fun _ => 0) s.ctx.gnbSessionHash l)
    (hl : ∀ b∈l,∃ p∈s.ctx.pair b.2,b.1=formatKey p.1 p.2)
    (hi : KeysIntact s.ctx mem) : Intact (s.ctx.gnbKeys mem) s.ctx.gnbSessionHash l := by
  refine List.forall₂_iff_zip.mpr ⟨h.stored.length_eq,?_⟩
  intro e b hm
  have hstored:=(List.forall₂_iff_zip.mp h.stored).2 hm
  have he : e∈s.ctx.gnbSessionHash := (of_mem_zip hm).1
  obtain ⟨p,hp,hb⟩ := hl b (of_mem_zip hm).2
  have hread:=hi e he p (hstored.val ▸ hp)
  simp only [Context.gnbKeys,strKeys,beq_iff_eq]
  rw [hb]
  exact hread

theorem lookup (h : Named s) {fr : Frame} {g i : CStr} (hk : KeyApart s.ctx g i)
    (hi : KeysIntact s.ctx (fr.format g i)) :
    sessFindByGnbSession s.ctx fr g i=s.last (g,i) := by
  obtain ⟨l,hr,hl⟩ := h.table
  have hr' : Records (s.ctx.gnbKeys (fr.format g i)) s.ctx.gnbSessionHash l := hr.congr rfl rfl
  have hint:=intact hr (fun b hb => ((hl b).mp hb).2) hi
  rw [sessFindByGnbSession,get_eq hr' hint]
  refine Option.ext fun n => ?_
  rw [binding_eq_some hr.nodup,hl,h.last]
  constructor
  · intro hb
    obtain ⟨hn,p,hp,hkey⟩ := hb
    have heq : p=(g,i) := hk n hn p hp hkey.symm
    exact ⟨hn,heq ▸ hp⟩
  · intro hb
    exact ⟨hb.1,(g,i),hb.2,rfl⟩

theorem apart (h : Named s) {p q : CStr × CStr} {n : Nat} (hp : s.last p=some n)
    (hq : s.last q=some n) : p=q := by
  have hp' : s.ctx.pair n=some p := ((h.last p n).mp hp).2
  have hq' : s.ctx.pair n=some q := ((h.last q n).mp hq).2
  exact some.inj (hp'.symm.trans hq')

theorem found (h : Named s) {r : RanSync} {n : Nat}
    (hn : s.last (r.gnbId,r.sessionId)=some n) :
    Named ⟨s.ctx,update s.last (r.gnbId,r.sessionId) (some n)⟩ := by
  have heq : update s.last (r.gnbId,r.sessionId) (some n)=s.last := by
    rw [← hn]
    exact update_eq_self ..
  rw [heq]
  exact h

theorem extend (h : Named s) {u : Registry} {g i : CStr} {n : Nat} (a : Nat)
    (hsess : ∃ q,Pool.Split u.ctx.sessPool q u.ctx.sessList)
    (hlist : u.ctx.sessList=s.ctx.sessList++[n])
    (hseed : u.ctx.seed=s.ctx.seed)
    (hself : u.ctx.pair n=some (g,i))
    (hother : ∀ m∈s.ctx.sessList,u.ctx.pair m=s.ctx.pair m)
    (hnew : ∀ m∈s.ctx.sessList,∀ p∈s.ctx.pair m,formatKey p.1 p.2≠formatKey g i)
    (htable : u.ctx.gnbSessionHash=s.ctx.gnbSessionHash ++
      [⟨(u.ctx.gnbKeys fun _ => 0).hash (formatKey g i),(formatKey g i).length,a,n⟩])
    (hlast : u.last=update s.last (g,i) (some n)) : Named u := by
  obtain ⟨l,hr,hl⟩ := h.table
  have hkeys : u.ctx.gnbKeys (fun _ => 0)=s.ctx.gnbKeys fun _ => 0 := by
    rw [Context.gnbKeys,hseed,Context.gnbKeys]
  have hfresh : formatKey g i∉l.map Prod.fst := by
    intro hmem
    obtain ⟨b,hb,hkey⟩ := List.mem_map.mp hmem
    obtain ⟨hlive,p,hp,hbp⟩ := (hl b).mp hb
    exact hnew b.2 hlive p hp (hbp.symm.trans hkey)
  refine ⟨hsess,⟨l++[(formatKey g i,n)],?_,?_⟩,?_⟩
  · rw [htable,hkeys]
    exact records_append hr hfresh a n
  · intro b
    rw [mem_append,mem_singleton,hl,hlist,mem_append,mem_singleton]
    constructor
    · intro hb
      rcases hb with ⟨hlive,p,hp,hbp⟩ | rfl
      · exact ⟨.inl hlive,p,by rw [hother _ hlive]; exact hp,hbp⟩
      · exact ⟨.inr rfl,(g,i),hself,rfl⟩
    · intro hb
      obtain ⟨hlive | heq,p,hp,hbp⟩ := hb
      · exact .inl ⟨hlive,p,by rw [← hother _ hlive]; exact hp,hbp⟩
      · right
        rw [heq,hself] at hp
        obtain rfl := some.inj hp
        exact Prod.ext hbp heq
  · intro p m
    rw [hlast,hlist,mem_append,mem_singleton]
    by_cases hp : p=(g,i)
    · subst hp
      rw [update_self]
      constructor
      · intro hm
        obtain rfl := some.inj hm
        exact ⟨.inr rfl,hself⟩
      · intro hm
        obtain ⟨hlive | heq,hpair⟩ := hm
        · exact absurd rfl (hnew m hlive (g,i) (hother m hlive ▸ hpair))
        · rw [heq]
    · rw [update_of_ne hp,h.last]
      constructor
      · intro hm
        exact ⟨.inl hm.1,by rw [hother m hm.1]; exact hm.2⟩
      · intro hm
        obtain ⟨hlive | heq,hpair⟩ := hm
        · exact ⟨hlive,by rw [← hother m hlive]; exact hpair⟩
        · rw [heq,hself] at hpair
          exact absurd (some.inj hpair).symm hp

theorem added (h : Named s) {env : Env} {r : RanSync} {c : Context} {n : Nat} {pool : Pool}
    {f : FSeid} (hrel : Reliable s (.sessAddByRanSync env r))
    (hnone : s.last (r.gnbId,r.sessionId)=none)
    (hadd : sessAdd env { s.ctx with dn4SeidPool := pool } f = .ok c n) :
    n∉s.ctx.sessList ∧ Named ⟨sessBindRan env c n r,
      update s.last (r.gnbId,r.sessionId) (some n)⟩ := by
  obtain ⟨hapart,-,hintact⟩ := hrel
  obtain ⟨q,hsess⟩ := h.sessions
  obtain ⟨q',pool',seidPool,k,rfl,hpool,-,-,rfl⟩ :=
    sessAdd_inv env { s.ctx with dn4SeidPool := pool } n hsess hadd
  have hn : n∉s.ctx.sessList := hsess.not_live_of_free (mem_cons_self ..)
  have hnew : ∀ m∈s.ctx.sessList,∀ p ∈ s.ctx.pair m,
      formatKey p.1 p.2≠formatKey r.gnbId r.sessionId := by
    intro m hm p hp hkey
    have heq:=hapart m hm p hp hkey
    have hlast:=(h.last p m).mpr ⟨hm,hp⟩
    rw [heq,hnone] at hlast
    cases hlast
  refine ⟨hn,h.extend env.frame.key ⟨q',hpool⟩ rfl rfl (sessBindRan_pair_self env _ n r) ?_ hnew ?_ rfl⟩
  · intro m hm
    have hne : m≠n := fun he => hn (he ▸ hm)
    rw [Context.pair,sessBindRan_sess_of_ne env _ n r hne,sessAdded_sess_of_ne _ n _ _ _ k f m hne]
    rfl
  · obtain ⟨l,hr,hl⟩ := h.table
    have hr' : Records (s.ctx.gnbKeys ({ env.frame with stack := env.later }.format r.gnbId
        r.sessionId)) s.ctx.gnbSessionHash l := hr.congr rfl rfl
    have hint:=intact hr (fun b hb => ((hl b).mp hb).2) hintact
    refine set_new hr' hint ?_ env.frame.key n
    intro hmem
    obtain ⟨b,hb,hkey⟩ := List.mem_map.mp hmem
    obtain ⟨hlive,p,hp,hbp⟩ := (hl b).mp hb
    exact hnew b.2 hlive p hp (hbp.symm.trans hkey)

theorem unbound (h : Named s) {fr : Frame} {n : Nat} (hrel : Reliable s (.sessRemove fr n))
    (hn : n∈s.ctx.sessList) :
    ∃ l,Records (s.ctx.gnbKeys fun _ => 0) (sessRemoved s.ctx fr n).gnbSessionHash l ∧
      ∀ b,b∈l ↔ (b.2∈s.ctx.sessList ∧ b.2≠n) ∧
        ∃ p∈s.ctx.pair b.2,b.1=formatKey p.1 p.2 := by
  obtain ⟨l,hr,hl⟩ := h.table
  cases hpair : s.ctx.pair n with
  | none =>
    rw [sessRemoved_gnbSessionHash_of_none s.ctx fr n hpair]
    refine ⟨l,hr,?_⟩
    intro b
    rw [hl]
    constructor
    · intro hb
      obtain ⟨hlive,p,hp,hbp⟩ := hb
      refine ⟨⟨hlive,?_⟩,p,hp,hbp⟩
      intro he
      rw [he,hpair] at hp
      cases hp
    · intro hb
      exact ⟨hb.1.1,hb.2⟩
  | some p =>
    obtain ⟨g,i⟩ := p
    have hr' : Records (s.ctx.gnbKeys (fr.format g i)) s.ctx.gnbSessionHash l := hr.congr rfl rfl
    have hint:=intact hr (fun b hb => ((hl b).mp hb).2) (hrel (g,i) hpair)
    have hbound : (formatKey g i,n)∈l := (hl _).mpr ⟨hn,(g,i),hpair,rfl⟩
    rw [sessRemoved_gnbSessionHash s.ctx fr n hpair]
    refine ⟨_,(records_unset hr' hint (formatKey g i)).congr rfl rfl,?_⟩
    intro b
    -- keys are bound once, so the key and the session are dropped together
    have hdrop : b∈l → (b.1≠formatKey g i ↔ b.2≠n) := by
      intro hb
      rw [not_iff_not]
      constructor
      · intro he
        have heq : b=(formatKey g i,n) := inj_on_of_nodup_map hr.nodup hb hbound he
        rw [heq]
      · intro he
        obtain ⟨-,p,hp,hbp⟩ := (hl b).mp hb
        rw [he,hpair] at hp
        obtain rfl := some.inj hp
        exact hbp
    rw [mem_filter,decide_eq_true_eq]
    constructor
    · intro hb
      obtain ⟨hlive,hp⟩ := (hl b).mp hb.1
      exact ⟨⟨hlive,(hdrop hb.1).mp hb.2⟩,hp⟩
    · intro hb
      have hmem:=(hl b).mpr ⟨hb.1.1,hb.2⟩
      exact ⟨hmem,(hdrop hmem).mpr hb.1.2⟩

theorem removed (h : Named s) {fr : Frame} {n : Nat} (hrel : Reliable s (.sessRemove fr n))
    (hn : n∈s.ctx.sessList) :
    Named ⟨sessRemoved s.ctx fr n,fun p => if s.last p=some n then none else s.last p⟩ := by
  obtain ⟨q,hsess⟩ := h.sessions
  obtain ⟨l,hr,hl⟩ := h.unbound hrel hn
  have herase : ∀ m,m∈s.ctx.sessList.erase n ↔ m∈s.ctx.sessList ∧ m≠n := by
    intro m
    rw [hsess.live_nodup.mem_erase_iff,and_comm]
  have hpair : ∀ m,(sessRemoved s.ctx fr n).pair m=s.ctx.pair m := sessRemoved_pair s.ctx fr n
  refine ⟨⟨q++[n],?_⟩,⟨l,hr,?_⟩,?_⟩
  · simp only [sessRemoved_sessPool,sessRemoved_sessList]
    exact hsess.idFree hn _
  · intro b
    simp only [sessRemoved_sessList,herase,hpair]
    exact hl b
  · intro p m
    simp only [sessRemoved_sessList,herase,hpair]
    by_cases hp : s.last p=some n
    · rw [if_pos hp]
      have hpn:=((h.last p n).mp hp).2
      constructor
      · intro hm
        cases hm
      · intro hm
        have hlast:=(h.last p m).mpr ⟨hm.1.1,hm.2⟩
        rw [hp] at hlast
        exact absurd (some.inj hlast).symm hm.1.2
    · rw [if_neg hp,h.last]
      constructor
      · intro hm
        refine ⟨⟨hm.1,?_⟩,hm.2⟩
        intro he
        exact hp ((h.last p n).mpr (he ▸ hm))
      · intro hm
        exact ⟨hm.1.1,hm.2⟩

end Named

theorem named_step (s : Registry) (op : RegistryOp) (o : Outcome Registry (Option Nat))
    (h : Named s) (hc : Reliable s op) (hstep : s.step op=some o) :
    AnswersAsMap s op o ∧ o.Leaves Named fun _ => True := by
  cases op with
  | sessAddByRanSync env r =>
    have hlook:=h.lookup hc.1 hc.2.1
    simp only [Registry.step,sessAddByRanSync] at hstep
    cases hfind : sessFindByGnbSession s.ctx env.frame r.gnbId r.sessionId with
    | some n =>
      have hlast : s.last (r.gnbId,r.sessionId)=some n := hlook ▸ hfind
      have hnamed:=h.found hlast
      simp only [hfind,some.injEq] at hstep
      subst hstep
      refine ⟨⟨⟨?_,?_⟩,fun p q m => hnamed.apart⟩,hnamed⟩
      · intro m hm
        exact hlast.symm.trans hm
      · intro hnone
        rw [hnone] at hlast
        cases hlast
    | none =>
      have hlast : s.last (r.gnbId,r.sessionId)=none := hlook ▸ hfind
      simp only [hfind] at hstep
      rcases halloc : s.ctx.dn4SeidPool.alloc with ⟨pool,k⟩
      cases k with
      | none =>
        simp only [halloc,some.injEq] at hstep
        subst hstep
        exact ⟨trivial,trivial⟩
      | some k =>
        simp only [halloc] at hstep
        cases hadd : sessAdd env { s.ctx with dn4SeidPool := pool }
            ⟨(s.ctx.dn4Seid k).signExtend 64,cpAddr env⟩ with
        | abort c =>

          simp only [hadd,Outcome.bind_abort,some.injEq] at hstep
          subst hstep
          exact ⟨trivial,trivial⟩
        | ok c n =>
          obtain ⟨hnew,hnamed⟩ := h.added hc hlast hadd
          simp only [hadd,Outcome.bind_ok,some.injEq] at hstep
          subst hstep
          refine ⟨⟨⟨?_,?_⟩,fun p q m => hnamed.apart⟩,hnamed⟩
          · intro m hm
            rw [hlast] at hm
            cases hm
          · intro _ m hm he
            exact hnew (some.inj he ▸ hm)
  | sessRemove fr n =>
    simp only [Registry.step] at hstep
    split at hstep
    · rename_i hn
      have hnamed:=h.removed hc hn
      cases hrem : sessRemove s.ctx fr n with
      | abort c =>
        simp only [hrem,some.injEq] at hstep
        subst hstep
        exact ⟨trivial,trivial⟩
      | ok c v =>
        simp only [hrem,some.injEq] at hstep
        subst hstep
        rw [sessRemove_inv s.ctx fr n hrem]
        exact ⟨⟨trivial,fun p q m => hnamed.apart⟩,hnamed⟩
    · cases hstep
  | sessFindByGnbSession fr g i =>
    simp only [Registry.step,some.injEq] at hstep
    subst hstep
    exact ⟨⟨h.lookup hc.1 hc.2,fun p q m => h.apart⟩,h⟩

/-- In a run whose calls find the keys of the table still on the stack and look pairs up whose
key no live session of another pair has, every call answers as the map from pairs to sessions. -/
theorem registry_run (poolSess : Nat) (sess : Nat → Sess) (dn4Seid : Nat → BitVec 32)
    (seed : BitVec 32) (ops : List RegistryOp)
    (hops : EachStep Registry.step Reliable (Registry.init poolSess sess dn4Seid seed) ops) :
    EachOutcome Registry.step AnswersAsMap (Registry.init poolSess sess dn4Seid seed) ops :=
  eachOutcome_inv named_step (Named.init poolSess sess dn4Seid seed) hops

def registry2 : Registry := Registry.init 2 (fun _ => Sess.zero) (fun _ => 0) 0

def stackAB : Nat → Byte := memWrite (fun _ => 0) 0 [97,45,98]

theorem registry_run_two :
    EachOutcome Registry.step AnswersAsMap registry2
      [.sessAddByRanSync env0 ⟨strA,strB,1⟩,
        .sessAddByRanSync { env0 with frame := ⟨300,stackAB⟩,later := stackAB } ⟨strA,strC,2⟩,
        .sessRemove ⟨600,memWrite stackAB 300 [97,45,99]⟩ 0,
        .sessFindByGnbSession ⟨600,memWrite stackAB 300 [97,45,99]⟩ strA strC] := by
  exact registry_run 2 _ _ _ _ (by decide)

/-- Two pairs, one key: ("a-b", "c") and ("a", "b-c") get one session. -/
theorem registry_key_collision :
    (trace Registry.step registry2
      [.sessAddByRanSync env0 ⟨strAB,strC,1⟩,
        .sessAddByRanSync env0 ⟨strA,strBC,2⟩]).map Prod.snd =
      [some 0,some 0] := by
  decide

end OgsDp.Dsmf
