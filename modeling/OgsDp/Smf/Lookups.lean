import OgsDp.Smf.LookupRuns

/-!
# What lookups find in the SMF (src/smf/context.c)

Messages add UEs and sessions, sessions get addresses, and both are removed in any order. Beside
the context, each UE is remembered with the name that the message had.
-/

namespace OgsDp.Smf
open Lib RefTable OgsDp.Core Pfcp Option

inductive UeName where
  | supi (supi : CStr)
  | imsi (imsi : List Byte)
  deriving DecidableEq

def UeName.Of : UeName → SmfUe → Prop
  | .supi name, x => x.supi=some name
  | .imsi name, x => name≠[] ∧ x.imsi=name

inductive LookupOp where
  | gtpMessage (imsi apn : List Byte) (ratType : Byte)
  | sbiMessage (supi : CStr) (psi : Byte)
  | setUeIp (n : Nat) (session : Session)
  | removeSess (n : Nat)
  | removeUe (u : Nat)

structure Tracked where
  ctx : Context
  addedAs : Nat → UeName

namespace Context

def smfUeFind (c : Context) : UeName → Option Nat
  | .supi supi => c.smfUeFindBySupi supi
  | .imsi imsi => c.smfUeFindByImsi imsi

/-- The session record that the subscription and the policy leave before the addresses are set. -/
def withSession (c : Context) (n : Nat) (session : Session) : Context :=
  c.modify n fun x => { x with session := session }

theorem Indexed.withSession {c : Context} (h : c.Indexed) (n : Nat) (session : Session) :
    (c.withSession n session).Indexed := by
  have hbare : (c.withSession n session).bare=c.bare := c.bare_modify n fun _ => rfl
  have hptr : (c.withSession n session).pointers=c.pointers := by
    funext i
    unfold pointers
    simp only [listed_of_bare hbare]
    by_cases hi : i.2=n
    · simp [Context.withSession,modify,hi]
    · simp [Context.withSession,modify,hi]
  refine ⟨h.ues.congr rfl,h.sessions.of_bare hbare,?_⟩
  rw [hptr]
  exact ⟨h.addresses.held,h.addresses.table⟩

structure LookupsRight (c : Context) (addedAs : Nat → UeName) : Prop where
  ues : ∀ u∈c.ueList,c.smfUeFind (addedAs u)=some u
  ueLive : ∀ name u,c.smfUeFind name=some u → u∈c.ueList
  ueById : ∀ id u,c.uePool.findById id=some u → u∈c.ueList
  seids : ∀ n,c.Listed n → c.smfSessFindBySeid (c.sess n).smfN4Seid=some n
  seidLive : ∀ seid n,c.smfSessFindBySeid seid=some n → c.Listed n
  ips : ∀ v n r,c.Listed n → (c.sess n).ip v=some r →
    c.smfSessFindByIp v (c.ueIps.addr r).toList=some n
  ipLive : ∀ v addr n,c.smfSessFindByIp v addr=some n → c.Listed n
  indexLive : ∀ index n,c.smfSessFind index=some n → c.Listed n
  sessById : ∀ id n,c.sessPool.findById id=some n → c.Listed n
  apnLive : ∀ u∈c.ueList,∀ apn ratType n,
    c.smfSessFindByApn u apn ratType=some n → c.Listed n
  psiLive : ∀ u∈c.ueList,∀ psi n,c.smfSessFindByPsi u psi=some n → c.Listed n

end Context

namespace Tracked

def tracking (t : Tracked) (name : UeName) (c : Context) : Tracked :=
  ⟨c,fun u => if u∈t.ctx.ueList then t.addedAs u else name⟩

/-- UEs and sessions come with messages, and only those in use are removed. -/
def step (t : Tracked) : LookupOp → Option (Outcome Tracked Unit)
  | .gtpMessage imsi apn ratType =>
    some (((t.ctx.smfSessAddByGtpMessage imsi apn ratType).mapState
      (t.tracking (.imsi imsi))).bind fun t _ => .ok t ())
  | .sbiMessage supi psi =>
    some (((t.ctx.smfSessAddBySbiMessage supi psi).mapState
      (t.tracking (.supi supi))).bind fun t _ => .ok t ())
  | .setUeIp n session =>
    if t.ctx.Listed n then
      some ((((t.ctx.withSession n session).smfSessSetUeIp n).mapState fun c =>
        ⟨c,t.addedAs⟩).bind fun t _ => .ok t ())
    else none
  | .removeSess n =>
    if t.ctx.Listed n then some ((t.ctx.smfSessRemove n).mapState fun c => ⟨c,t.addedAs⟩)
    else none
  | .removeUe u =>
    if u∈t.ctx.ueList then some ((t.ctx.smfUeRemove u).mapState fun c => ⟨c,t.addedAs⟩)
    else none

/-- A UE is entered under all of the IMSI it is looked up with and under an id of its own, and the
addresses of a session are replaced by ones that no other session has. -/
def Apt (t : Tracked) : LookupOp → Prop
  | .gtpMessage imsi _ _ =>
    t.ctx.Adds (t.ctx.smfUeFindByImsi imsi) → imsi.length ≤ maxImsiLen ∧ t.ctx.FreshId
  | .sbiMessage supi _ => t.ctx.Adds (t.ctx.smfUeFindBySupi supi) → t.ctx.FreshId
  | .setUeIp n session => (t.ctx.withSession n session).Renewed n
  | .removeSess _ => True
  | .removeUe _ => True

instance (t : Tracked) : (op : LookupOp) → Decidable (t.Apt op)
  | .gtpMessage imsi _ _ =>
    inferInstanceAs (Decidable (t.ctx.Adds (t.ctx.smfUeFindByImsi imsi) →
      imsi.length ≤ maxImsiLen ∧ t.ctx.FreshId))
  | .sbiMessage supi _ =>
    inferInstanceAs (Decidable (t.ctx.Adds (t.ctx.smfUeFindBySupi supi) → t.ctx.FreshId))
  | .setUeIp n session => inferInstanceAs (Decidable ((t.ctx.withSession n session).Renewed n))
  | .removeSess _ => inferInstanceAs (Decidable True)
  | .removeUe _ => inferInstanceAs (Decidable True)

structure Named (t : Tracked) : Prop where
  indexed : t.ctx.Indexed
  names : ∀ u∈t.ctx.ueList,(t.addedAs u).Of (t.ctx.ue u)

namespace Named

variable {t t' : Tracked} {name : UeName} {c : Context} {op : LookupOp}
  {o : Outcome Tracked Unit}

theorem congr (h : t.Named) (hc : c.Indexed) (hue : c.ue=t.ctx.ue)
    (hlist : ∀ u∈c.ueList,u∈t.ctx.ueList) : (⟨c,t.addedAs⟩ : Tracked).Named := by
  refine ⟨hc,?_⟩
  intro u hu
  simp only [hue]
  exact h.names u (hlist u hu)

theorem answered (h : t.Named) (hc : Context.Indexed.Answered name.Of t.ctx c) :
    (t.tracking name c).Named := by
  obtain ⟨hindexed,c₀,hkept,hues⟩ := hc
  have hue : c.ue=c₀.ue := congrArg (fun x => x.2.1) hues
  have hlist : c.ueList=c₀.ueList := congrArg (fun x => x.2.2.1) hues
  refine ⟨hindexed,?_⟩
  intro u hu
  show (if u∈t.ctx.ueList then t.addedAs u else name).Of (c.ue u)
  rw [hue]
  change u∈c.ueList at hu
  rw [hlist] at hu
  rcases hkept with rfl | ⟨m,x,hx,hgrown⟩
  · rw [if_pos hu]
    exact h.names u hu
  · by_cases hold : u∈t.ctx.ueList
    · rw [if_pos hold,hgrown.old hold]
      exact h.names u hold
    · rw [hgrown.ueList,List.mem_append,List.mem_singleton] at hu
      obtain rfl := hu.resolve_left hold
      rw [if_neg hold,hgrown.self]
      exact hx

theorem gtpMessage (h : t.Named) {imsi apn : List Byte} {ratType : Byte}
    (hapt : t.Apt (.gtpMessage imsi apn ratType)) :
    (t.ctx.smfSessAddByGtpMessage imsi apn ratType).Returns fun c _ =>
      (t.tracking (.imsi imsi) c).Named := by
  by_cases hne : imsi=[]
  · unfold Context.smfSessAddByGtpMessage
    rw [if_pos hne]
    trivial
  · refine (h.indexed.addByGtpMessage hapt apn ratType).mono ?_
    rintro c-⟨hindexed,c₀,hkept,hues⟩
    exact h.answered ⟨hindexed,c₀,hkept.imp_right fun ⟨m,x,hx,hgrown⟩ =>
      ⟨m,x,⟨hne,hx⟩,hgrown⟩,hues⟩

theorem step (h : t.Named) (hapt : t.Apt op) (ho : t.step op=some o) :
    o.Returns fun t' _ => t'.Named := by
  cases op with
  | gtpMessage imsi apn ratType =>
    obtain rfl := some.inj ho
    exact ((h.gtpMessage hapt).mapState (f := t.tracking _)).bind fun _ _ h' => h'
  | sbiMessage supi psi =>
    obtain rfl := some.inj ho
    have hanswered:=(h.indexed.addBySbiMessage hapt psi).mono fun c _ hc =>
      h.answered (show Context.Indexed.Answered (UeName.supi supi).Of t.ctx c from hc)
    exact (hanswered.mapState (f := t.tracking _)).bind fun _ _ h' => h'
  | setUeIp n session =>
    simp only [Tracked.step] at ho
    split at ho
    · rename_i hn
      obtain rfl := some.inj ho
      have hset:=(h.indexed.withSession n session).sessSetUeIp hn hapt
      refine Outcome.Returns.bind (R := fun t' _ => t'.Named) (hset.mono ?_).mapState
        fun _ _ h' => h'
      rintro c-⟨hindexed,hues⟩
      have hue : c.ue=t.ctx.ue := congrArg (fun x => x.2.1) hues
      have hlist : c.ueList=t.ctx.ueList := congrArg (fun x => x.2.2.1) hues
      exact h.congr hindexed hue fun u hu => hlist ▸ hu
    · cases ho
  | removeSess n =>
    simp only [Tracked.step] at ho
    split at ho
    · rename_i hn
      obtain rfl := some.inj ho
      obtain ⟨u,hu,hn⟩ := hn
      obtain ⟨c,hremove,hindexed,hues,-⟩ := h.indexed.sessRemove hu hn
      rw [hremove]
      have hue : c.ue=t.ctx.ue := congrArg (fun x => x.2.1) hues
      have hlist : c.ueList=t.ctx.ueList := congrArg (fun x => x.2.2.1) hues
      exact h.congr hindexed hue fun m hm => hlist ▸ hm
    · cases ho
  | removeUe u =>
    simp only [Tracked.step] at ho
    split at ho
    · rename_i hu
      obtain rfl := some.inj ho
      obtain ⟨c,hremove,hindexed,hue,hlist⟩ := h.indexed.ueRemove hu
      rw [hremove]
      exact h.congr hindexed hue fun m hm => List.mem_of_mem_erase (hlist ▸ hm)
    · cases ho

theorem lookups (h : t.Named) : t.ctx.LookupsRight t.addedAs where
  ues := by
    intro u hu
    have hname:=h.names u hu
    generalize t.addedAs u=name at hname
    cases name with
    | supi supi =>
      refine (h.indexed.ues.find .supi supi.bytes).mpr ⟨hu,?_⟩
      show (t.ctx.ue u).supi.map CStr.bytes=some supi.bytes
      rw [show (t.ctx.ue u).supi=some supi from hname]
      rfl
    | imsi imsi =>
      refine (h.indexed.ues.find .imsi imsi).mpr ⟨hu,?_⟩
      obtain ⟨hne,himsi⟩ := hname
      show (if (t.ctx.ue u).imsi=[] then none else some (t.ctx.ue u).imsi)=some imsi
      rw [himsi,if_neg hne]
  ueLive := by
    intro name u hfind
    cases name with
    | supi supi => exact ((h.indexed.ues.find .supi supi.bytes).mp hfind).1
    | imsi imsi => exact ((h.indexed.ues.find .imsi imsi).mp hfind).1
  ueById := fun id u hfind => (h.indexed.ues.byId id u hfind).1
  seids := by
    intro n hn
    exact (h.indexed.sessions.seids.get t.ctx.smfN4SeidKeys_reads _).mpr ⟨n,if_pos hn,rfl⟩
  seidLive := by
    intro seid n hfind
    obtain ⟨m,hm,-⟩ := (h.indexed.sessions.seids.get t.ctx.smfN4SeidKeys_reads _).mp hfind
    unfold Context.seidOf at hm
    split at hm
    · assumption
    · cases hm
  ips := by
    intro v n r hn hip
    refine ((h.indexed.addresses.table v).get (t.ctx.ipKeys_reads v) _).mpr ⟨r,?_,rfl⟩
    exact (if_pos hn).trans hip
  ipLive := by
    intro v addr n hfind
    obtain ⟨r,hr,-⟩ := ((h.indexed.addresses.table v).get (t.ctx.ipKeys_reads v) _).mp hfind
    unfold Context.pointers at hr
    split at hr
    · assumption
    · cases hr
  indexLive := fun index n hfind => h.indexed.sessions.pool.of_find hfind
  sessById := fun id n hfind => (h.indexed.sessions.byId id n hfind).1
  apnLive := fun u hu apn ratType n hfind =>
    ⟨u,hu,List.mem_reverse.mp (List.mem_of_find?_eq_some hfind)⟩
  psiLive := fun u hu psi n hfind =>
    ⟨u,hu,List.mem_reverse.mp (List.mem_of_find?_eq_some hfind)⟩

end Named

end Tracked

/-- What `ogs_pool_random_id_generate` leaves in the nodes of `smf_n4_seid_pool`. -/
def randomSeids (poolSess : Nat) (random : Nat → Nat) (k : Nat) : BitVec 64 :=
  (randomIdGenerate poolSess random k).signExtend 64

theorem randomSeids_injOn {poolSess : Nat} (hsize : poolSess<2^31) (random : Nat → Nat) :
    Set.InjOn (randomSeids poolSess random) (Set.Iio poolSess) := by
  intro i hi j hj heq
  refine randomIdGenerate_injOn poolSess hsize random hi hj ?_
  have hint:=congrArg BitVec.toInt heq
  unfold randomSeids at hint
  rw [BitVec.toInt_signExtend_of_le (by decide),BitVec.toInt_signExtend_of_le (by decide)] at hint
  exact BitVec.eq_of_toInt_eq hint

theorem Context.Indexed.init {maxUe poolSess : Nat} {smfN4SeidOf : Nat → BitVec 64}
    (hinj : Set.InjOn smfN4SeidOf (Set.Iio poolSess)) (subnets : List Subnet) (seeds : Seeds) :
    (contextInit maxUe poolSess smfN4SeidOf subnets seeds).Indexed := by
  have hnone : ∀ n,¬ (contextInit maxUe poolSess smfN4SeidOf subnets seeds).Listed n := by
    rintro n ⟨u,hu,-⟩
    cases hu
  have hseid : ∀ n,(contextInit maxUe poolSess smfN4SeidOf subnets seeds).seidOf n=none :=
    fun n => if_neg (hnone n)
  have hptr : (contextInit maxUe poolSess smfN4SeidOf subnets seeds).pointers = fun _ => none :=
    funext fun i => if_neg (hnone i.2)
  refine ⟨⟨.init maxUe nofun,List.nodup_nil,nofun,nofun,?_⟩,
    ⟨.init poolSess hnone,nofun,nofun,.init poolSess ?_,?_,?_,hinj,?_⟩,?_⟩
  · intro k
    cases k with
    | supi => exact Leads.nil fun _ => rfl
    | imsi => exact Leads.nil fun _ => rfl
  · rintro k ⟨n,hn,-⟩
    exact hnone n hn
  · intro m n hm
    exact absurd hm (hnone m)
  · intro n hn
    exact absurd hn (hnone n)
  · exact Leads.nil hseid
  · rw [hptr]
    exact ⟨.init subnets,fun _ => Leads.nil fun _ => rfl⟩

namespace Tracked

def initial (maxUe poolSess : Nat) (random : Nat → Nat) (subnets : List Subnet) (seeds : Seeds) :
    Tracked :=
  ⟨contextInit maxUe poolSess (randomSeids poolSess random) subnets seeds,fun _ => .imsi []⟩

/-- The lookups are right in every run whose steps enter a UE under the IMSI it is looked up with
and replace the addresses of a session by ones that no other session has. -/
theorem lookups_right_run {maxUe poolSess : Nat} {random : Nat → Nat} {subnets : List Subnet}
    {seeds : Seeds} {ops : List LookupOp} (hsize : poolSess<2^31)
    (hapt : EachStep step Apt (initial maxUe poolSess random subnets seeds) ops) :
    ∀ t ∈ completed step (initial maxUe poolSess random subnets seeds) ops,
      t.ctx.LookupsRight t.addedAs := by
  intro t ht
  have hinit : (initial maxUe poolSess random subnets seeds).Named :=
    ⟨.init (randomSeids_injOn hsize random) subnets seeds,nofun⟩
  refine Named.lookups (completed_inv ?_ hinit hapt t ht)
  intro s op t r h hop ho
  exact h.step hop ho

def net (a b c : Byte) : Vector Byte 16 := memcpy (Vector.replicate 16 0) [a,b,c]

def small : Tracked :=
  initial 4 4 (fun _ => 0)
    [⟨.inet,[],4,fun k => net 10 45 (Fin.ofNat 256 (k+2))⟩,
      ⟨.inet6,[],4,fun k => net 32 1 (Fin.ofNat 256 (k+2))⟩]
    ⟨1,2,3,fun _ => 4⟩

def supi7 : CStr := ⟨ascii "imsi-77",by decide⟩

def supi8 : CStr := ⟨ascii "imsi-88",by decide⟩

def dnn : List Byte := ascii "internet"

def both : Session := ⟨some dnn,3,Vector.replicate 4 0,Vector.replicate 16 0⟩

def ipv4Only : Session := ⟨some dnn,1,Vector.replicate 4 0,Vector.replicate 16 0⟩

def fixed : Session := ⟨some dnn,1, #v[10,0,0,9],Vector.replicate 16 0⟩

def aptOps : List LookupOp :=
  [.sbiMessage supi7 5,.setUeIp 0 both,.gtpMessage [1,2,3] dnn 6,.setUeIp 1 fixed,
    .setUeIp 0 both,.removeSess 0,.removeUe 1]

def longOps : List LookupOp := [.gtpMessage [1,2,3,4,5,6,7,8,9] dnn 6]

def sharedOps : List LookupOp :=
  [.sbiMessage supi7 5,.sbiMessage supi8 5,.setUeIp 0 fixed,.setUeIp 1 fixed,.removeSess 1]

def oneLessOps : List LookupOp := [.sbiMessage supi7 5,.setUeIp 0 both,.setUeIp 0 ipv4Only]

def runEnd (ops : List LookupOp) : Tracked := ((completed step small ops)[ops.length]?).getD small

theorem lookups_right_run_small : (runEnd aptOps).ctx.LookupsRight (runEnd aptOps).addedAs := by
  have hapt : EachStep step Apt small aptOps := by decide
  have hmem : runEnd aptOps∈completed step small aptOps := List.mem_of_getElem? (i := 7) rfl
  exact lookups_right_run (by decide) hapt (runEnd aptOps) hmem

/-- The UE is not found by its IMSI; the first session is not found by the address that was also
the second one's, nor a session by the IPv6 address that was given back but is still its own. -/
theorem entries_left :
    (¬ ∀ t∈completed step small longOps,t.ctx.LookupsRight t.addedAs) ∧
      (¬ ∀ t∈completed step small sharedOps,t.ctx.LookupsRight t.addedAs) ∧
        ¬ ∀ t∈completed step small oneLessOps,t.ctx.LookupsRight t.addedAs := by
  refine ⟨?_,?_,?_⟩
  · intro h
    have hmem : runEnd longOps∈completed step small longOps := List.mem_of_getElem? (i := 1) rfl
    have hfound:=(h _ hmem).ues 0 (by decide)
    exact absurd hfound (by decide)
  · intro h
    have hmem : runEnd sharedOps∈completed step small sharedOps :=
      List.mem_of_getElem? (i := 5) rfl
    have hfound:=(h _ hmem).ips .v4 0 (.static 0) (by decide) (by decide)
    exact absurd hfound (by decide)
  · intro h
    have hmem : runEnd oneLessOps∈completed step small oneLessOps :=
      List.mem_of_getElem? (i := 3) rfl
    have hfound:=(h _ hmem).ips .v6 0 (.dynamic 1 0) (by decide) (by decide)
    exact absurd hfound (by decide)

end Tracked

end OgsDp.Smf
