import OgsDp.Smf.LookupTables

/-!
# Lookups in runs of the SMF (src/smf/context.c)

Sessions come and go one at a time, a UE with all its sessions, and each call keeps the tables
right unless it enters an object under a key that is not its own or that another object has.
-/

namespace OgsDp.Smf
open Lib RefTable OgsDp.Core Pfcp Function List Option

namespace Context

variable {c c' : Context} {n u : Nat} {v : IpVersion}

namespace Indexed

theorem owner (h : c.Indexed) {m : Nat} (hu : u∈c.ueList) (hm : m∈c.ueList)
    (hn : n∈c.sessList u) (hn' : n∈c.sessList m) : m=u := by
  have hid : (c.ue m).id=(c.ue u).id :=
    ((h.sessions.lists m hm).2 n hn').symm.trans ((h.sessions.lists u hu).2 n hn)
  have hids:=h.ues.ids m hm
  rw [hid,h.ues.ids u hu] at hids
  exact (some.inj hids).symm

def delisted (c : Context) (u n : Nat) : Context :=
  { c with
    sessList := update c.sessList u ((c.sessList u).erase n)
    smfN4SeidHash := unset c.smfN4SeidKeys c.smfN4SeidHash (c.sess n).smfN4Seid }

def handedBack (c : Context) (x : SmfSess) (n : Nat) : Context :=
  { c with
    smfN4SeidPool := c.smfN4SeidPool.release x.smfN4SeidNode
    sessPool := c.sessPool.idFree n x.id }

theorem listed_delisted (h : c.Indexed) (hu : u∈c.ueList) (hn : n∈c.sessList u) (m : Nat) :
    (delisted c u n).Listed m ↔ c.Listed m ∧ m≠n := by
  unfold Listed delisted
  simp only
  constructor
  · rintro ⟨w,hw,hm⟩
    by_cases hwu : w=u
    · subst hwu
      rw [update_self] at hm
      obtain ⟨hne,hmem⟩ := (h.sessions.lists w hw).1.mem_erase_iff.mp hm
      exact ⟨⟨w,hw,hmem⟩,hne⟩
    · rw [update_of_ne hwu] at hm
      refine ⟨⟨w,hw,hm⟩,?_⟩
      rintro rfl
      exact hwu (h.owner hu hw hn hm)
  · rintro ⟨⟨w,hw,hm⟩,hne⟩
    refine ⟨w,hw,?_⟩
    by_cases hwu : w=u
    · subst hwu
      rw [update_self]
      exact (h.sessions.lists w hw).1.mem_erase_iff.mpr ⟨hne,hm⟩
    · rw [update_of_ne hwu]
      exact hm

theorem sessions_removed (h : c.Indexed) (hu : u∈c.ueList) (hn : n∈c.sessList u) :
    (handedBack (delisted c u n) (c.sess n) n).SessIndexed := by
  have hs:=h.sessions
  have hlisted : c.Listed n := ⟨u,hu,hn⟩
  have hmem : ∀ m,(handedBack (delisted c u n) (c.sess n) n).Listed m ↔ c.Listed m ∧ m≠n :=
    h.listed_delisted hu hn
  refine ⟨?_,?_,?_,?_,?_,?_,?_,?_⟩
  · exact (hs.pool.idFree hlisted _).congr hmem
  · intro id m hm
    have hfind : update c.sessPool.idHash (c.sess n).id none id=some m := by
      rw [← Pool.idFree_idHash c.sessPool n]
      exact hm
    by_cases hid : id=(c.sess n).id
    · rw [hid,update_self] at hfind
      cases hfind
    · rw [update_of_ne hid] at hfind
      obtain ⟨hm,heq⟩ := hs.byId id m hfind
      refine ⟨(hmem m).mpr ⟨hm,?_⟩,heq⟩
      rintro rfl
      exact hid heq.symm
  · intro m hm
    show (update c.sessList u ((c.sessList u).erase n) m).Nodup ∧
      ∀ k ∈ update c.sessList u ((c.sessList u).erase n) m,
        (c.sess k).smfUeId=(c.ue m).id
    by_cases hmu : m=u
    · subst hmu
      rw [update_self]
      exact ⟨(hs.lists m hm).1.erase n,fun k hk =>
        (hs.lists m hm).2 k (mem_of_mem_erase hk)⟩
    · rw [update_of_ne hmu]
      exact hs.lists m hm
  · refine (hs.nodes.release ⟨n,hlisted,rfl⟩).congr ?_
    intro k
    simp only [hmem]
    constructor
    · rintro ⟨m,⟨hm,hne⟩,hk⟩
      refine ⟨⟨m,hm,hk⟩,?_⟩
      rintro rfl
      exact hne (hs.apart m n hm hlisted hk)
    · rintro ⟨⟨m,hm,hk⟩,hne⟩
      refine ⟨m,⟨hm,?_⟩,hk⟩
      rintro rfl
      exact hne hk.symm
  · intro m k hm hk
    exact hs.apart m k ((hmem m).mp hm).1 ((hmem k).mp hk).1
  · intro m hm
    exact hs.seid m ((hmem m).mp hm).1
  · have hsize : (handedBack (delisted c u n) (c.sess n) n).smfN4SeidPool.size =
        c.smfN4SeidPool.size := Pool.release_size ..
    rw [hsize]
    exact hs.inj
  · have hof : c.seidOf n=some n := if_pos hlisted
    refine (hs.seids.unset c.smfN4SeidKeys_reads hof).congr rfl rfl ?_ fun _ _ _ => rfl
    intro m
    simp only [seidOf,hmem]
    by_cases hmn : m=n
    · simp [hmn]
    · simp [hmn,seidOf]

theorem sessRemove (h : c.Indexed) (hu : u∈c.ueList) (hn : n∈c.sessList u) :
    ∃ c',c.smfSessRemove n = .ok c' () ∧ c'.Indexed ∧ c'.uesPart=c.uesPart ∧
      c'.sessList=update c.sessList u ((c.sessList u).erase n) := by
  have hfind : c.uePool.findById (c.sess n).smfUeId=some u := by
    rw [(h.sessions.lists u hu).2 n hn]
    exact h.ues.ids u hu
  have hlive : ∀ w,c.pointers (w,n)=(c.sess n).ip w := fun w => if_pos ⟨u,hu,hn⟩
  have h₁ : (delisted c u n).Holds c.pointers c.pointers := ⟨h.addresses.held,h.addresses.table⟩
  obtain ⟨c₂,hdrop₂,h₂,-,-,hkept₂⟩ := h₁.drop (n := n) (v := .v4) (hlive .v4)
  have hsess₂ : c₂.sess=c.sess := congrArg (fun x => x.sess) hkept₂
  obtain ⟨c₃,hdrop₃,h₃,-,-,hkept₃⟩ := h₂.drop (n := n) (v := .v6)
    (by rw [update_of_ne (by simp),hlive,hsess₂])
  have hkept : (handedBack c₃ (c.sess n) n).sansIps =
      (handedBack (delisted c u n) (c.sess n) n).sansIps :=
    congrArg (fun x => handedBack x (c.sess n) n) (hkept₃.trans hkept₂)
  have hbare:=bare_of_sansIps hkept
  have hues : (handedBack c₃ (c.sess n) n).sansIps.uesPart=c.uesPart := by
    rw [hkept]
    rfl
  refine ⟨handedBack c₃ (c.sess n) n,?_,⟨?_,?_,?_⟩,?_,?_⟩
  · simp only [smfSessRemove,hfind]
    show ((delisted c u n).dropIp n .v4 |>.bind _)=_
    rw [hdrop₂,Outcome.bind_ok,hdrop₃,Outcome.bind_ok]
    rfl
  · exact h.ues.congr hues
  · exact (h.sessions_removed hu hn).of_bare hbare
  · have heq : (handedBack c₃ (c.sess n) n).pointers =
        update (update c.pointers (.v4,n) none) (.v6,n) none := by
      funext i
      obtain ⟨w,m⟩ := i
      have hsess : (handedBack c₃ (c.sess n) n).sess=c.sess :=
        congrArg (fun x => x.sess) hkept
      have hlisted:=(listed_of_bare hbare m).trans (h.listed_delisted hu hn m)
      unfold pointers
      simp only [hlisted,hsess]
      by_cases hm : m=n
      · subst hm
        cases w <;> simp
      · simp [hm]
    rw [heq]
    exact ⟨h₃.held,h₃.table⟩
  · exact hues
  · exact congrArg (fun x => x.sessList) hkept

theorem sessRemoveAll (h : c.Indexed) (hu : u∈c.ueList) {ns : List Nat}
    (hns : c.sessList u=ns) :
    ∃ c',c.smfSessRemoveAll ns = .ok c' () ∧ c'.Indexed ∧ c'.uesPart=c.uesPart ∧
      c'.sessList u=[] := by
  induction ns generalizing c with
  | nil => exact ⟨c,rfl,h,rfl,hns⟩
  | cons n ns ih =>
    have hn : n∈c.sessList u := hns ▸ mem_cons_self ..
    obtain ⟨c₁,hremove,h₁,hues₁,hlist₁⟩ := h.sessRemove hu hn
    have hulist : c₁.ueList=c.ueList := congrArg (fun x => x.2.2.1) hues₁
    have hrest : c₁.sessList u=ns := by
      rw [hlist₁,update_self,hns,erase_cons_head]
    obtain ⟨c',hall,h',hues',hnil⟩ := ih h₁ (hulist ▸ hu) hrest
    refine ⟨c',?_,h',hues'.trans hues₁,hnil⟩
    simp only [smfSessRemoveAll,hremove,Outcome.bind_ok]
    exact hall

def Fills (fill : SmfSess → SmfSess) : Prop :=
  ∀ x,(fill x).id=x.id ∧ (fill x).smfUeId=x.smfUeId ∧
    (fill x).smfN4SeidNode=x.smfN4SeidNode ∧ (fill x).smfN4Seid=x.smfN4Seid ∧
      (fill x).ip=x.ip

def joined (c : Context) (u n : Nat) (x : SmfSess) (pool seidPool : Pool) : Context :=
  let c:={ c with
    sessPool := pool
    smfN4SeidPool := seidPool
    sess := update c.sess n x }
  { c with
    smfN4SeidHash := set c.smfN4SeidKeys c.smfN4SeidHash n x.smfN4Seid n
    sessList := update c.sessList u (c.sessList u++[n]) }

variable {x : SmfSess} {pool seidPool : Pool}

theorem listed_joined (hu : u∈c.ueList) (m : Nat) :
    (joined c u n x pool seidPool).Listed m ↔ c.Listed m ∨ m=n := by
  show (∃ w∈c.ueList,m∈update c.sessList u (c.sessList u++[n]) w) ↔ _
  constructor
  · rintro ⟨w,hw,hm⟩
    by_cases hwu : w=u
    · subst hwu
      rw [update_self,mem_append,mem_singleton] at hm
      exact hm.imp_left fun hm => ⟨w,hw,hm⟩
    · rw [update_of_ne hwu] at hm
      exact .inl ⟨w,hw,hm⟩
  · rintro (⟨w,hw,hm⟩ | rfl)
    · refine ⟨w,hw,?_⟩
      by_cases hwu : w=u
      · subst hwu
        rw [update_self]
        exact mem_append_left _ hm
      · rw [update_of_ne hwu]
        exact hm
    · refine ⟨u,hu,?_⟩
      rw [update_self]
      exact mem_append_right _ (mem_singleton_self m)

theorem sessions_joined (h : c.Indexed) (hu : u∈c.ueList) (hnew : ¬ c.Listed n)
    (hpool : pool.Holds fun m => c.Listed m ∨ m=n)
    (hhash : pool.idHash=update c.sessPool.idHash x.id (some n))
    (hnodes : seidPool.Holds fun k =>
      (∃ m,c.Listed m ∧ (c.sess m).smfN4SeidNode=k) ∨ k=x.smfN4SeidNode)
    (hsize : seidPool.size=c.smfN4SeidPool.size)
    (hlt : x.smfN4SeidNode<c.smfN4SeidPool.size)
    (hfresh : ¬ ∃ m,c.Listed m ∧ (c.sess m).smfN4SeidNode=x.smfN4SeidNode)
    (hueId : x.smfUeId=(c.ue u).id) (hseid : x.smfN4Seid=c.smfN4SeidOf x.smfN4SeidNode) :
    (joined c u n x pool seidPool).SessIndexed := by
  have hs:=h.sessions
  have hmem : ∀ m,(joined c u n x pool seidPool).Listed m ↔ c.Listed m ∨ m=n :=
    listed_joined hu
  have hself : (joined c u n x pool seidPool).sess n=x := update_self ..
  have hold : ∀ m,c.Listed m → (joined c u n x pool seidPool).sess m=c.sess m := by
    intro m hm
    refine update_of_ne ?_ ..
    rintro rfl
    exact hnew hm
  refine ⟨hpool.congr hmem,?_,?_,?_,?_,?_,?_,?_⟩
  · intro id m hm
    have hfind : update c.sessPool.idHash x.id (some n) id=some m := by
      rw [← hhash]
      exact hm
    rw [hmem]
    by_cases hid : id=x.id
    · subst hid
      rw [update_self] at hfind
      obtain rfl := some.inj hfind
      exact ⟨.inr rfl,by rw [hself]⟩
    · rw [update_of_ne hid] at hfind
      obtain ⟨hm,heq⟩ := hs.byId id m hfind
      exact ⟨.inl hm,by rw [hold m hm,heq]⟩
  · intro m hm
    show (update c.sessList u (c.sessList u++[n]) m).Nodup ∧
      ∀ k ∈ update c.sessList u (c.sessList u++[n]) m,
        ((joined c u n x pool seidPool).sess k).smfUeId=(c.ue m).id
    by_cases hmu : m=u
    · subst hmu
      rw [update_self]
      constructor
      · rw [nodup_append]
        refine ⟨(hs.lists m hm).1,nodup_singleton n,?_⟩
        intro a ha b hb
        rw [mem_singleton.mp hb]
        rintro rfl
        exact hnew ⟨m,hm,ha⟩
      · intro k hk
        rw [mem_append,mem_singleton] at hk
        rcases hk with hk | rfl
        · rw [hold k ⟨m,hm,hk⟩]
          exact (hs.lists m hm).2 k hk
        · rw [hself]
          exact hueId
    · rw [update_of_ne hmu]
      refine ⟨(hs.lists m hm).1,?_⟩
      intro k hk
      rw [hold k ⟨m,hm,hk⟩]
      exact (hs.lists m hm).2 k hk
  · refine hnodes.congr ?_
    intro k
    simp only [hmem]
    constructor
    · rintro ⟨m,hm | rfl,hk⟩
      · rw [hold m hm] at hk
        exact .inl ⟨m,hm,hk⟩
      · rw [hself] at hk
        exact .inr hk.symm
    · rintro (⟨m,hm,hk⟩ | rfl)
      · exact ⟨m,.inl hm,by rw [hold m hm,hk]⟩
      · exact ⟨n,.inr rfl,by rw [hself]⟩
  · intro m k hm hk heq
    rcases (hmem m).mp hm with hm' | rfl
    · rcases (hmem k).mp hk with hk' | rfl
      · rw [hold m hm',hold k hk'] at heq
        exact hs.apart m k hm' hk' heq
      · rw [hold m hm',hself] at heq
        exact absurd ⟨m,hm',heq⟩ hfresh
    · rcases (hmem k).mp hk with hk' | rfl
      · rw [hold k hk',hself] at heq
        exact absurd ⟨k,hk',heq.symm⟩ hfresh
      · rfl
  · intro m hm
    rcases (hmem m).mp hm with hm | rfl
    · rw [hold m hm]
      exact hs.seid m hm
    · rw [hself]
      exact hseid
  · show Set.InjOn c.smfN4SeidOf (Set.Iio seidPool.size)
    rw [hsize]
    exact hs.inj
  · have hbase : Leads (joined c u n x pool seidPool).smfN4SeidKeys
        (fun m => ((joined c u n x pool seidPool).sess m).smfN4Seid) c.seidOf c.smfN4SeidHash := by
      refine hs.seids.congr rfl rfl (fun _ => rfl) ?_
      intro m r hr
      unfold seidOf at hr
      split at hr
      · rename_i hm
        obtain rfl := some.inj hr
        simp only [hold m hm]
      · cases hr
    have hset:=hbase.set (joined c u n x pool seidPool).smfN4SeidKeys_reads (n := n) (r := n)
      (if_neg hnew) ?_
    · rw [hself] at hset
      refine hset.congr rfl rfl ?_ fun _ _ _ => rfl
      intro m
      by_cases hmn : m=n
      · subst hmn
        simp [seidOf,hmem]
      · simp [seidOf,hmem,hmn]
    · intro m r hr hkey
      unfold seidOf at hr
      split at hr
      · rename_i hm
        obtain rfl := some.inj hr
        rw [hself,hold m hm,hs.seid m hm,hseid] at hkey
        have hnode:=hs.nodes.lt_size ⟨m,hm,rfl⟩
        exact hfresh ⟨m,hm,hs.inj hnode hlt hkey⟩
      · cases hr

theorem sessAdd (h : c.Indexed) (hu : u∈c.ueList) {fill : SmfSess → SmfSess}
    (hfill : Fills fill) :
    (c.sessAdd u fill).Returns fun c' _ => c'.Indexed ∧ c'.uesPart=c.uesPart := by
  have hs:=h.sessions
  unfold Context.sessAdd
  split
  · exact ⟨h,rfl⟩
  · rename_i pool n id hcalloc
    split
    · split
      · trivial
      · rename_i seidPool node halloc
        obtain ⟨hnew,hpool,-,hhash,-⟩ := hs.pool.idCalloc hcalloc
        obtain ⟨hlt,hfresh,hnodes,hsize⟩ := hs.nodes.alloc_some halloc
        obtain ⟨hid,hueId,hnode,hseid,hip⟩ := hfill { SmfSess.zero with
          id := id
          index := Pool.poolIndex n
          smfUeId := (c.ue u).id
          smfN4SeidNode := node
          smfN4Seid := c.smfN4SeidOf node }
        generalize fill { SmfSess.zero with
          id := id
          index := Pool.poolIndex n
          smfUeId := (c.ue u).id
          smfN4SeidNode := node
          smfN4Seid := c.smfN4SeidOf node }=x at hid hueId hnode hseid hip
        subst hnode
        simp only at hid
        rw [← hid] at hhash
        refine ⟨⟨h.ues.congr rfl,h.sessions_joined hu hnew hpool hhash hnodes hsize hlt hfresh
          hueId hseid,?_⟩,rfl⟩
        have hptr : (joined c u n x pool seidPool).pointers=c.pointers := by
          funext i
          obtain ⟨w,m⟩ := i
          unfold pointers
          simp only [listed_joined hu]
          by_cases hm : m=n
          · subst hm
            rw [if_pos (.inr rfl),if_neg hnew]
            have hself : (joined c u m x pool seidPool).sess m=x := update_self ..
            rw [hself,hip]
            rfl
          · have hold : (joined c u n x pool seidPool).sess m=c.sess m :=
              update_of_ne hm ..
            simp only [hm,or_false,hold]
        show (joined c u n x pool seidPool).Holds (joined c u n x pool seidPool).pointers
          (joined c u n x pool seidPool).pointers
        rw [hptr]
        exact ⟨h.addresses.held,h.addresses.table⟩
    · trivial

theorem sessAddByApn (h : c.Indexed) (hu : u∈c.ueList) (apn : List Byte) (ratType : Byte) :
    (c.smfSessAddByApn u apn ratType).Returns fun c' _ =>
      c'.Indexed ∧ c'.uesPart=c.uesPart := by
  have hfill : Fills fun x : SmfSess => { x with
      epc := true,gtpRatType := ratType,session := { x.session with name := some apn } } :=
    fun _ => ⟨rfl,rfl,rfl,rfl,rfl⟩
  unfold smfSessAddByApn
  refine (h.sessAdd hu hfill).bind ?_
  intro c' r h'
  split
  · trivial
  · exact h'

theorem sessAddByPsi (h : c.Indexed) (hu : u∈c.ueList) (psi : Byte) :
    (c.smfSessAddByPsi u psi).Returns fun c' _ => c'.Indexed ∧ c'.uesPart=c.uesPart := by
  have hfill : Fills fun x : SmfSess =>
      { x with psi := psi,smContextRef := some (decimal x.index) } :=
    fun _ => ⟨rfl,rfl,rfl,rfl,rfl⟩
  unfold smfSessAddByPsi
  split
  · trivial
  · exact h.sessAdd hu hfill

theorem sessRemoveOld (h : c.Indexed) (hu : u∈c.ueList) {old : Option Nat}
    (hold : ∀ n,old=some n → n∈c.sessList u) :
    (c.sessRemoveOld old).Returns fun c' _ => c'.Indexed ∧ c'.uesPart=c.uesPart := by
  cases old with
  | none => exact ⟨h,rfl⟩
  | some n =>
    obtain ⟨c',hremove,h',hues,-⟩ := h.sessRemove hu (hold n rfl)
    show (c.smfSessRemove n).Returns _
    rw [hremove]
    exact ⟨h',hues⟩

def Answered (P : SmfUe → Prop) (c c' : Context) : Prop :=
  c'.Indexed ∧ ∃ c₀,(c₀=c ∨ ∃ u x,P x ∧ Grown c u x c₀) ∧ c'.uesPart=c₀.uesPart

theorem addByGtpMessage (h : c.Indexed) {imsi : List Byte}
    (hadds : c.Adds (c.smfUeFindByImsi imsi) → imsi.length ≤ maxImsiLen ∧ c.FreshId)
    (apn : List Byte) (ratType : Byte) :
    (c.smfSessAddByGtpMessage imsi apn ratType).Returns fun c' _ =>
      Answered (fun x => x.imsi=imsi) c c' := by
  unfold smfSessAddByGtpMessage
  split
  · trivial
  · rename_i hne
    have hgot:=h.ueOfImsi hne hadds
    split
    · rename_i c₀ hc₀
      rw [hc₀] at hgot
      exact ⟨hgot.indexed,c₀,hgot.kept,rfl⟩
    · rename_i c₀ u hc₀
      rw [hc₀] at hgot
      have hu : u∈c₀.ueList := hgot.mem u rfl
      have hold : ∀ n,c₀.smfSessFindByApn u apn ratType=some n → n∈c₀.sessList u :=
        fun n hn => mem_reverse.mp (List.mem_of_find?_eq_some hn)
      refine (hgot.indexed.sessRemoveOld hu hold).bind ?_
      rintro c₁-⟨h₁,hues₁⟩
      have hu₁ : u∈c₁.ueList := by
        have hlist : c₁.ueList=c₀.ueList := congrArg (fun x => x.2.2.1) hues₁
        exact hlist ▸ hu
      refine (h₁.sessAddByApn hu₁ apn ratType).bind ?_
      rintro c₂ r ⟨h₂,hues₂⟩
      split
      · trivial
      · exact ⟨h₂,c₀,hgot.kept,hues₂.trans hues₁⟩

theorem addBySbiMessage (h : c.Indexed) {supi : CStr}
    (hadds : c.Adds (c.smfUeFindBySupi supi) → c.FreshId) (psi : Byte) :
    (c.smfSessAddBySbiMessage supi psi).Returns fun c' _ =>
      Answered (fun x => x.supi=some supi) c c' := by
  unfold smfSessAddBySbiMessage
  have hgot:=h.ueOfSupi hadds
  split
  · rename_i c₀ hc₀
    rw [hc₀] at hgot
    exact ⟨hgot.indexed,c₀,hgot.kept,rfl⟩
  · rename_i c₀ u hc₀
    rw [hc₀] at hgot
    have hu : u∈c₀.ueList := hgot.mem u rfl
    split
    · trivial
    · have hold : ∀ n,c₀.smfSessFindByPsi u psi=some n → n∈c₀.sessList u :=
        fun n hn => mem_reverse.mp (List.mem_of_find?_eq_some hn)
      refine (hgot.indexed.sessRemoveOld hu hold).bind ?_
      rintro c₁-⟨h₁,hues₁⟩
      have hu₁ : u∈c₁.ueList := by
        have hlist : c₁.ueList=c₀.ueList := congrArg (fun x => x.2.2.1) hues₁
        exact hlist ▸ hu
      refine (h₁.sessAddByPsi hu₁ psi).mono ?_
      rintro c₂ r ⟨h₂,hues₂⟩
      exact ⟨h₂,c₀,hgot.kept,hues₂.trans hues₁⟩

end Indexed

def withUeList (c : Context) (l : List Nat) : Context := { c with ueList := l }

theorem dropIp_withUeList (c : Context) (l : List Nat) (n : Nat) (v : IpVersion) :
    (c.withUeList l).dropIp n v=(c.dropIp n v).mapState fun c => c.withUeList l := by
  unfold dropIp
  cases hip : (c.sess n).ip v with
  | none =>
    simp only [withUeList,hip]
    rfl
  | some r =>
    simp only [withUeList,hip]
    show ((c.unhashIp v r).ueIps.free r).mapState _=_
    cases (c.unhashIp v r).ueIps.free r <;> rfl

theorem smfSessRemove_withUeList (c : Context) (l : List Nat) (n : Nat) :
    (c.withUeList l).smfSessRemove n=(c.smfSessRemove n).mapState fun c => c.withUeList l := by
  unfold smfSessRemove
  cases hfind : c.uePool.findById (c.sess n).smfUeId with
  | none =>
    simp only [withUeList,hfind]
    rfl
  | some u =>
    simp only [withUeList,hfind]
    show ((withUeList (Indexed.delisted c u n) l).dropIp n .v4 |>.bind _) =
      ((Indexed.delisted c u n).dropIp n .v4 |>.bind _).mapState _
    rw [dropIp_withUeList]
    cases (Indexed.delisted c u n).dropIp n .v4 with
    | abort c₁ => rfl
    | ok c₁ r =>
      simp only [Outcome.mapState,Outcome.bind_ok]
      rw [dropIp_withUeList]
      cases c₁.dropIp n .v6 with
      | abort c₂ => rfl
      | ok c₂ r => rfl

theorem smfSessRemoveAll_withUeList (c : Context) (l ns : List Nat) :
    (c.withUeList l).smfSessRemoveAll ns =
      (c.smfSessRemoveAll ns).mapState fun c => c.withUeList l := by
  induction ns generalizing c with
  | nil => rfl
  | cons n ns ih =>
    unfold smfSessRemoveAll
    rw [smfSessRemove_withUeList]
    cases c.smfSessRemove n with
    | abort c₁ => rfl
    | ok c₁ r => exact ih c₁

def unnamed (c : Context) (k : NameKind) (u : Nat) : Context :=
  c.withNameHash k (((c.ue u).name k).elim (c.nameHash k) (unset (c.nameKeys k) (c.nameHash k)))

def freed (c : Context) (u : Nat) : Context :=
  let c:=(c.unnamed .supi u).unnamed .imsi u
  { c with uePool := c.uePool.idFree u (c.ue u).id }

theorem smfUeRemove_eq (c : Context) (u : Nat) :
    c.smfUeRemove u=((c.withUeList (c.ueList.erase u)).smfSessRemoveAll (c.sessList u)).bind
      fun c _ => .ok (c.freed u) () := by
  have htail : ∀ d : Context, d.freed u =
      let d₁ := if (d.ue u).supi.isSome then
          { d with supiHash := unset d.supiKeys d.supiHash (d.supiKey u) } else d
      let d₂ := if (d.ue u).imsi≠[] then
          { d₁ with imsiHash := unset d₁.imsiKeys d₁.imsiHash (d.ue u).imsi } else d₁
      { d₂ with uePool := d₂.uePool.idFree u (d.ue u).id } := by
    intro d
    unfold freed unnamed
    by_cases hi : (d.ue u).imsi=[]
    · cases hs : (d.ue u).supi with
      | none => simp [SmfUe.name,hs,hi,withNameHash,nameHash]
      | some s => simp [SmfUe.name,hs,hi,withNameHash,nameKeys,nameHash,supiKey]
    · cases hs : (d.ue u).supi with
      | none => simp [SmfUe.name,hs,hi,withNameHash,nameKeys,nameHash]
      | some s => simp [SmfUe.name,hs,hi,withNameHash,nameKeys,nameHash,supiKey]
  unfold smfUeRemove
  simp only [htail]
  rfl

theorem freed_nameHash (c : Context) (u : Nat) (k : NameKind) :
    (c.freed u).nameHash k=((c.ue u).name k).elim (c.nameHash k)
      (unset (c.nameKeys k) (c.nameHash k)) := by
  cases k <;> rfl

theorem UesIndexed.leave (h : c.UesIndexed) (hu : u∈c.ueList) (hd : c'.ue=c.ue)
    (hlist : c'.ueList=c.ueList.erase u) (hpool : c'.uePool=c.uePool.idFree u (c.ue u).id)
    (hseeds : c'.seeds=c.seeds)
    (hhash : ∀ k,c'.nameHash k=((c.ue u).name k).elim (c.nameHash k)
      (unset (c.nameKeys k) (c.nameHash k))) : c'.UesIndexed := by
  have hmem : ∀ m,m∈c'.ueList ↔ m∈c.ueList ∧ m≠u := by
    intro m
    rw [hlist,h.nodup.mem_erase_iff,and_comm]
  refine ⟨?_,?_,?_,?_,?_⟩
  · rw [hpool]
    exact (h.pool.idFree hu _).congr hmem
  · rw [hlist]
    exact h.nodup.erase u
  · intro m hm
    obtain ⟨hm,hne⟩ := (hmem m).mp hm
    have hid : (c.ue m).id≠(c.ue u).id := by
      intro heq
      have hids:=h.ids m hm
      rw [heq,h.ids u hu] at hids
      exact hne (some.inj hids).symm
    rw [hpool,hd]
    simp only [Pool.findById,Pool.idFree_idHash]
    rw [update_of_ne hid]
    exact h.ids m hm
  · intro id m hm
    rw [hpool] at hm
    simp only [Pool.findById,Pool.idFree_idHash] at hm
    by_cases hid : id=(c.ue u).id
    · rw [hid,update_self] at hm
      cases hm
    · rw [update_of_ne hid] at hm
      obtain ⟨hm,heq⟩ := h.byId id m hm
      rw [hd]
      refine ⟨(hmem m).mpr ⟨hm,?_⟩,heq⟩
      rintro rfl
      exact hid heq.symm
  · intro k
    have hnamed : ∀ m,m≠u → c'.named k m=c.named k m := by
      intro m hm
      simp only [named,hmem,hd,ne_eq,hm,not_false_eq_true,and_true]
    have hgone : c'.named k u=none := by
      simp [named,hmem]
    obtain ⟨hh,hklen⟩ := nameKeys_congr hseeds k
    cases hname : (c.ue u).name k with
    | none =>
      refine names_congr (h.names k) hseeds (by rw [hhash,hname]; rfl) ?_ fun m _ _ => by rw [hd]
      intro m
      by_cases hm : m=u
      · rw [hm,hgone]
        simp [named,hname]
      · exact hnamed m hm
    | some w =>
      have hself : c.named k u=some u := named_eq_some.mpr ⟨rfl,hu,w,hname⟩
      have hunset:=(h.names k).unset (c.nameKeys_reads k) hself
      rw [nameKey_of_name hname] at hunset
      rw [hhash,hname]
      refine hunset.congr hh hklen ?_ fun m r _ => nameKey_congr (by rw [hd]) k
      intro m
      by_cases hm : m=u
      · rw [hm,update_self,hgone]
      · rw [update_of_ne hm,hnamed m hm]

theorem Indexed.leave (h : c.Indexed) (hu : u∈c.ueList) (hnil : c.sessList u=[]) :
    ((c.withUeList (c.ueList.erase u)).freed u).Indexed := by
  have hmem : ∀ m,m∈c.ueList.erase u ↔ m∈c.ueList ∧ m≠u := by
    intro m
    rw [h.ues.nodup.mem_erase_iff,and_comm]
  have hues : ((c.withUeList (c.ueList.erase u)).freed u).UesIndexed :=
    h.ues.leave hu rfl rfl rfl rfl (freed_nameHash _ u)
  generalize hd : (c.withUeList (c.ueList.erase u)).freed u=d at hues
  have hue : d.ue=c.ue := by rw [← hd]; rfl
  have hlist : d.ueList=c.ueList.erase u := by rw [← hd]; rfl
  have hlists : d.sessList=c.sessList := by rw [← hd]; rfl
  have hpart : d.sessPart=c.sessPart := by rw [← hd]; rfl
  have hlisted : ∀ n,d.Listed n ↔ c.Listed n := by
    intro n
    unfold Listed
    rw [hlist,hlists]
    constructor
    · rintro ⟨m,hm,hn⟩
      exact ⟨m,((hmem m).mp hm).1,hn⟩
    · rintro ⟨m,hm,hn⟩
      refine ⟨m,(hmem m).mpr ⟨hm,?_⟩,hn⟩
      rintro rfl
      rw [hnil] at hn
      cases hn
  refine ⟨hues,h.sessions.of_part hpart hlisted ?_,?_⟩
  · intro m hm
    rw [hlist] at hm
    rw [hlists,hue]
    exact h.sessions.lists m ((hmem m).mp hm).1
  · exact h.addresses.of_part hpart hlisted

theorem Indexed.ueRemove (h : c.Indexed) (hu : u∈c.ueList) :
    ∃ c',c.smfUeRemove u = .ok c' () ∧ c'.Indexed ∧ c'.ue=c.ue ∧
      c'.ueList=c.ueList.erase u := by
  obtain ⟨c₁,hall,h₁,hues₁,hnil⟩ := h.sessRemoveAll hu rfl
  have hue : c₁.ue=c.ue := congrArg (fun x => x.2.1) hues₁
  have hlist : c₁.ueList=c.ueList := congrArg (fun x => x.2.2.1) hues₁
  rw [smfUeRemove_eq,smfSessRemoveAll_withUeList,hall,← hlist]
  exact ⟨_,rfl,h₁.leave (hlist ▸ hu) hnil,hue,rfl⟩

end Context

end OgsDp.Smf
