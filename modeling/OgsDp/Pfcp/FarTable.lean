import OgsDp.Lib.SharedIndex
import OgsDp.Pfcp.RuleStock
import OgsDp.Pfcp.UserPlane

/-!
# The table of F-TEIDs that FARs send to (lib/pfcp/context.c)

`far_f_teid_hash` finds a FAR by the TEID and the address of its peer.
-/

namespace OgsDp.Pfcp
open Lib RefTable SharedIndex OgsDp.Core Function Option

namespace RuleTable

variable {α : Type} {kind : RuleKind α} {t t' : RuleTable α} {s r : Nat}

def live (t : RuleTable α) : List Nat :=
  (List.range t.pool.size).filter fun r => t.list (t.slot r).sess |>.contains r

theorem mem_live (h : t.Stocked kind) : r∈t.live ↔ ∃ s,r∈t.list s := by
  simp only [live,List.mem_filter,List.mem_range,List.contains_iff_mem]
  constructor
  · exact fun hr => ⟨_,hr.2⟩
  · rintro ⟨s,hr⟩
    have hs : (t.slot r).sess=s := h.owner s r hr
    exact ⟨h.nodes.lt_size ⟨s,hr⟩,hs ▸ hr⟩

theorem live_nodup (t : RuleTable α) : t.live.Nodup := List.nodup_range.filter _

theorem live_congr (h : t'.shelf=t.shelf) : t'.live=t.live := by
  have hlive : ∀ t : RuleTable α, t.live=(List.range t.shelf.pool.size).filter fun r =>
      t.shelf.list (t.shelf.owner r) |>.contains r := fun _ => rfl
  rw [hlive,hlive,h]

theorem mem_live_added (h : t.Stocked kind) (h' : t'.Stocked kind) (hadd : t.Added s r t')
    {r' : Nat} : r'∈t'.live ↔ r'∈t.live ∨ r'=r := by
  rw [mem_live h',mem_live h,hadd.list]
  constructor
  · rintro ⟨s',hr'⟩
    rcases mem_update_append.mp hr' with hr' | ⟨-,rfl⟩
    · exact .inl ⟨s',hr'⟩
    · exact .inr rfl
  · rintro (⟨s',hr'⟩ | rfl)
    · exact ⟨s',mem_update_append.mpr (.inl hr')⟩
    · exact ⟨s,mem_update_append.mpr (.inr ⟨rfl,rfl⟩)⟩

theorem mem_live_remove (h : t.Stocked kind) (hr : r∈t.list s) {r' : Nat} :
    r'∈(t.remove r).live ↔ r'∈t.live ∧ r'≠r := by
  have hs : (t.slot r).sess=s := h.owner s r hr
  have hnodup : (t.list s).Nodup := h.nodup s
  rw [mem_live (h.remove hr),mem_live h]
  simp only [RuleTable.remove,hs]
  constructor
  · rintro ⟨s',hr'⟩
    by_cases he : s'=s
    · rw [he,update_self,hnodup.mem_erase_iff] at hr'
      exact ⟨⟨s,hr'.2⟩,hr'.1⟩
    · rw [update_of_ne he] at hr'
      refine ⟨⟨s',hr'⟩,?_⟩
      rintro rfl
      exact he ((h.owner s' r' hr').symm.trans hs)
  · rintro ⟨⟨s',hr'⟩,hne⟩
    refine ⟨s',?_⟩
    by_cases he : s'=s
    · rw [he,update_self,hnodup.mem_erase_iff]
      exact ⟨hne,he ▸ hr'⟩
    · rwa [update_of_ne he]

end RuleTable

inductive FarOp where
  | findOrAdd (s : Nat) (id : BitVec 32)
  | handleCreateFar (s : Nat) (message : Option FarIe)
  | handleUpdateFar (s : Nat) (message : Option FarIe)
  -- one turn of the loop "Setup GTP Node"
  | setup (s r : Nat)
  | remove (s r : Nat)

def PeerAddr.bytes : PeerAddr → List Byte
  | .inet addr => addr.toList
  | .inet6 addr => addr.toList
  | .unspec => []

def teidOctets (o : Vector Byte 26) : List Byte := (o.toList.drop 2).take 4

namespace Up

/-- `ogs_pfcp_far_find_or_add`; a node that is drawn starts from `memset`. -/
def farFindOrAdd (u : Up) (s : Nat) (id : BitVec 32) : Outcome Up Unit :=
  ((Pfcp.farFindOrAdd u.ctx.far s id).mapState u.withFar).bind fun v _ =>
    .ok (u.freshFar v s (some id)) ()

/-- One call; a FAR is set up or removed while its session lists it. -/
def farStep (peers : GtpPeers) (u : Up) : FarOp → Option (Outcome Up Unit)
  | .findOrAdd s id => some (u.farFindOrAdd s id)
  | .handleCreateFar s m => some ((handleFar Pfcp.handleCreateFar s u m).bind fun u _ => .ok u ())
  | .handleUpdateFar s m => some ((handleFar Pfcp.handleUpdateFar s u m).bind fun u _ => .ok u ())
  | .setup s r =>
    if r∈u.ctx.far.list s then some ((setupGtpNodes peers u [r]).bind fun u _ => .ok u ())
    else none
  | .remove s r => if r∈u.ctx.far.list s then some (.ok (u.farRemove r) ()) else none

def keyOf (u : Up) (r : Nat) : List Byte := farKey (u.farUp r)

/-- A live FAR that is in the table, or should be, under the key `k`. -/
def Registered (u : Up) (r : Nat) (k : List Byte) : Prop :=
  r∈u.ctx.far.live ∧ (u.farUp r).hashLen≠0 ∧ u.keyOf r=k

instance (u : Up) (r : Nat) (k : List Byte) : Decidable (u.Registered r k) :=
  inferInstanceAs (Decidable (_ ∧ _ ∧ _))

def HoldsKeyAlone (u : Up) (r : Nat) : Prop :=
  ∀ r'∈u.ctx.far.live,u.Registered r' (u.keyOf r) → r'=r

instance (u : Up) (r : Nat) : Decidable (u.HoldsKeyAlone r) :=
  inferInstanceAs (Decidable (∀ r'∈u.ctx.far.live,_))

/-- The key that setting a FAR up registers it under, unless it has no peer then. -/
def setupKey (peers : GtpPeers) (u : Up) (r : Nat) : Option (List Byte) :=
  let o:=(u.ctx.far.slot r).body.outerHeaderCreation
  ((outerHeaderCreationToIp o).elim (u.farUp r).gnode peers).map fun peer =>
    teidOctets o++peer.bytes

/-- A FAR that gives its key up, removed or registered under another, has it alone. -/
def KeepsKeys (peers : GtpPeers) (u : Up) : FarOp → Prop
  | .setup _ r => (u.farUp r).hashLen≠0 →
      ∀ k∈u.setupKey peers r,k=u.keyOf r ∨ u.HoldsKeyAlone r
  | .remove _ r => (u.farUp r).hashLen≠0 → u.HoldsKeyAlone r
  | _ => True

instance (peers : GtpPeers) (u : Up) : ∀ op,Decidable (KeepsKeys peers u op)
  | .setup _ _ => inferInstanceAs (Decidable (_ → _))
  | .remove _ _ => inferInstanceAs (Decidable (_ → _))
  | .findOrAdd _ _ => isTrue trivial
  | .handleCreateFar _ _ => isTrue trivial
  | .handleUpdateFar _ _ => isTrue trivial

def farName (u : Up) (r : Nat) : Option Nat := if (u.farUp r).hashLen≠0 then some r else none

structure FarTabled (u : Up) : Prop where
  stocked : u.ctx.far.Stocked farKind
  len : ∀ r,(u.farUp r).hashLen≤20
  index : ∃ l,Index u.farKeys u.farFTeidHash u.farName u.keyOf u.ctx.far.live l ∧
    Complete u.farName u.keyOf u.ctx.far.live l

variable {u v : Up} {s r : Nat} {k : List Byte} {peers : GtpPeers}

theorem farKeys_reads (u : Up) (r : Nat) : u.farKeys.reads r (u.keyOf r)=true := by
  simp [farKeys,bytesKeys,keyOf,farKey]

theorem farName_some {r' : Nat} : u.farName r=some r' ↔ (u.farUp r).hashLen≠0 ∧ r=r' := by
  simp [farName]

theorem FarTabled.init (poolSess : Nat) (random : Nat → Nat) (seed farSeed : BitVec 32) :
    (upInit poolSess random seed farSeed).FarTabled where
  stocked := .init farKind poolSess
  len := fun _ => Nat.zero_le 20
  index := ⟨[],index_nil fun _ => farKeys_reads _ _,
    fun r hr => by simp [upInit,farName,FarUp.zero]⟩

theorem FarTabled.find (h : u.FarTabled) (k : List Byte) :
    (∀ r,RefTable.get u.farKeys u.farFTeidHash k=some r → u.Registered r k) ∧
      ((∃ r,u.Registered r k) → (RefTable.get u.farKeys u.farFTeidHash k).isSome) := by
  obtain ⟨l,hindex,hall⟩ := h.index
  constructor
  · intro r hr
    obtain ⟨hlive,r',hname,hkey⟩ := hindex.find_some hr
    obtain ⟨hlen,rfl⟩ := farName_some.mp hname
    exact ⟨hlive,hlen,hkey⟩
  · rintro ⟨r,hlive,hlen,rfl⟩
    exact (hindex.isSome_iff _).mpr (hall r hlive r (farName_some.mpr ⟨hlen,rfl⟩))

theorem FarTabled.congr (h : u.FarTabled) (hfar : v.ctx.far.shelf=u.ctx.far.shelf)
    (hkey : ∀ r,(v.farUp r).hashLen=(u.farUp r).hashLen ∧
      (v.farUp r).hashKey=(u.farUp r).hashKey)
    (hseed : v.farFTeidSeed=u.farFTeidSeed) (htable : v.farFTeidHash=u.farFTeidHash) :
    v.FarTabled where
  stocked := by
    unfold RuleTable.Stocked
    rw [hfar]
    exact h.stocked
  len := fun r => (hkey r).1 ▸ h.len r
  index := by
    obtain ⟨l,hindex,hall⟩ := h.index
    have hname : v.farName=u.farName := funext fun r => by simp only [farName,(hkey r).1]
    have hkeyOf : v.keyOf=u.keyOf :=
      funext fun r => by simp only [keyOf,farKey,(hkey r).1,(hkey r).2]
    refine ⟨l,?_,?_⟩
    · rw [htable,hname,hkeyOf,RuleTable.live_congr hfar]
      exact hindex.congr (fun r => hkeyOf ▸ farKeys_reads v r)
        (by simp [farKeys,bytesKeys,hseed]) rfl fun o ho r hr _ => ⟨ho,hr,rfl⟩
    · rw [hname,hkeyOf,RuleTable.live_congr hfar]
      exact hall

structure Cleared (u : Up) (r : Nat) (t : List (Entry Nat Nat)) (l : List (List Byte × Nat)) : Prop
    where
  index : Index u.farKeys t u.farName u.keyOf u.ctx.far.live l
  others : ∀ o,(u.farUp o).hashLen≠0 → u.keyOf o∈l.map Prod.fst → o≠r
  kept : ∀ o∈u.ctx.far.live,(u.farUp o).hashLen≠0 →
    u.keyOf o∈l.map Prod.fst ∨ (u.farUp r).hashLen≠0 ∧ u.keyOf o=u.keyOf r

theorem FarTabled.cleared (h : u.FarTabled) (r : Nat) :
    ∃ l,u.Cleared r (u.farUnsetFTeid r).farFTeidHash l := by
  obtain ⟨l,hindex,hall⟩ := h.index
  have hmem : ∀ o∈u.ctx.far.live,(u.farUp o).hashLen≠0 → u.keyOf o∈l.map Prod.fst :=
    fun o ho hlen => hall o ho o (farName_some.mpr ⟨hlen,rfl⟩)
  unfold farUnsetFTeid
  split
  · rename_i hlen
    refine ⟨_,hindex.unset (u.keyOf r),?_,?_⟩
    · rintro o-hkey rfl
      exact (mem_keys_filter.mp hkey).1 rfl
    · intro o ho holen
      by_cases hkey : u.keyOf o=u.keyOf r
      · exact .inr ⟨hlen,hkey⟩
      · exact .inl (mem_keys_filter.mpr ⟨hkey,hmem o ho holen⟩)
  · rename_i hlen
    refine ⟨l,hindex,?_,fun o ho holen => .inl (hmem o ho holen)⟩
    rintro o holen-rfl
    exact hlen holen

theorem FarTabled.farRemove (h : u.FarTabled) (hr : r∈u.ctx.far.list s)
    (halone : (u.farUp r).hashLen≠0 → u.HoldsKeyAlone r) : (u.farRemove r).FarTabled := by
  obtain ⟨l,hclear⟩ := h.cleared r
  have hfar : (u.farUnsetFTeid r).ctx.far=u.ctx.far := by
    unfold farUnsetFTeid
    split <;> rfl
  have hup : (u.farUnsetFTeid r).farUp=u.farUp := by
    unfold farUnsetFTeid
    split <;> rfl
  have hseed : (u.farUnsetFTeid r).farFTeidSeed=u.farFTeidSeed := by
    unfold farUnsetFTeid
    split <;> rfl
  have hlive : (u.farRemove r).ctx.far=u.ctx.far.remove r := congrArg (RuleTable.remove · r) hfar
  have hname : (u.farRemove r).farName=u.farName := by
    funext o
    simp only [farName,Up.farRemove,withFar,withCtx,hup]
  have hkey : (u.farRemove r).keyOf=u.keyOf := by
    funext o
    simp only [keyOf,Up.farRemove,withFar,withCtx,hup]
  refine ⟨?_,?_,l,?_,?_⟩
  · rw [hlive]
    exact h.stocked.remove hr
  · show ∀ o,((u.farUnsetFTeid r).farUp o).hashLen≤20
    rw [hup]
    exact h.len
  · rw [hlive,hname,hkey]
    refine hclear.index.congr (fun o => hkey ▸ farKeys_reads _ o) ?_ rfl ?_
    · simp only [farKeys,bytesKeys,Up.farRemove,withFar,withCtx,hseed]
    · intro o ho o' ho' hmem
      obtain ⟨hlen,rfl⟩ := farName_some.mp ho'
      exact ⟨(RuleTable.mem_live_remove h.stocked hr).mpr ⟨ho,hclear.others o hlen hmem⟩,ho',rfl⟩
  · rw [hlive,hname,hkey]
    intro o ho o' ho'
    obtain ⟨hlen,rfl⟩ := farName_some.mp ho'
    obtain ⟨ho,hne⟩ := (RuleTable.mem_live_remove h.stocked hr).mp ho
    rcases hclear.kept o ho hlen with hmem | ⟨hrlen,hsame⟩
    · exact hmem
    · exact absurd (halone hrlen o ho ⟨ho,hlen,hsame⟩) hne

theorem take_memcpy {n : Nat} (v : Vector Byte n) {data : List Byte} (h : data.length≤n) :
    (memcpy v data).toList.take data.length=data := by
  apply List.ext_getElem?
  intro i
  by_cases hi : i<data.length
  · have hin : i<n := by omega
    simp [memcpy,hi,hin]
  · simp [hi]

/-- The FAR `r` is registered under `key`, and what it held before is dropped. -/
def register (u : Up) (r : Nat) (key : List Byte) : Up :=
  let w:=(u.farUnsetFTeid r).setFarUp r { u.farUp r with
    hashLen := key.length
    hashKey := memcpy (u.farUp r).hashKey key }
  { w with farFTeidHash := RefTable.set w.farKeys w.farFTeidHash r (w.keyOf r) r }

theorem FarTabled.register (h : u.FarTabled) (hr : r∈u.ctx.far.live) {key : List Byte}
    (hlen : key.length≤20) (hpos : key≠[])
    (halone : (u.farUp r).hashLen≠0 → key=u.keyOf r ∨ u.HoldsKeyAlone r) :
    (u.register r key).FarTabled := by
  obtain ⟨l,hclear⟩ := h.cleared r
  have hfar : (u.register r key).ctx.far=u.ctx.far := by
    simp only [Up.register,setFarUp,farUnsetFTeid]
    split <;> rfl
  have hseed : (u.register r key).farFTeidSeed=u.farFTeidSeed := by
    simp only [Up.register,setFarUp,farUnsetFTeid]
    split <;> rfl
  have hup : (u.register r key).farUp=update u.farUp r { u.farUp r with
      hashLen := key.length
      hashKey := memcpy (u.farUp r).hashKey key } := by
    simp only [Up.register,setFarUp,farUnsetFTeid]
    split <;> rfl
  have hself : (u.register r key).keyOf r=key := by
    simp only [keyOf,farKey,hup,update_self]
    exact take_memcpy _ hlen
  have hother : ∀ o,o≠r → (u.register r key).keyOf o=u.keyOf o := by
    intro o ho
    simp only [keyOf,hup,update_of_ne ho]
  have hname : (u.register r key).farName r=some r := by
    simp only [farName,hup,update_self,ne_eq,List.length_eq_zero_iff,hpos,
      not_false_eq_true,if_true]
  have hnames : ∀ o,o≠r → (u.register r key).farName o=u.farName o := by
    intro o ho
    simp only [farName,hup,update_of_ne ho]
  have htable : (u.register r key).farFTeidHash=RefTable.set (u.register r key).farKeys
      (u.farUnsetFTeid r).farFTeidHash r ((u.register r key).keyOf r) r := rfl
  have hindex : Index (u.register r key).farKeys (u.farUnsetFTeid r).farFTeidHash
      (u.register r key).farName (u.register r key).keyOf u.ctx.far.live l := by
    refine hclear.index.congr (farKeys_reads _) ?_ rfl ?_
    · simp only [farKeys,bytesKeys,hseed]
    · intro o ho o' ho' hmem
      obtain ⟨holen,rfl⟩ := farName_some.mp ho'
      have hne:=hclear.others o holen hmem
      exact ⟨ho,(hnames o hne).trans ho',hother o hne⟩
  have hset:=hindex.set hr hname
  refine ⟨hfar ▸ h.stocked,?_,rebind l ((u.register r key).keyOf r) r,?_,?_⟩
  · intro o
    rw [hup]
    by_cases he : o=r
    · rw [he,update_self]
      exact hlen
    · rw [update_of_ne he]
      exact h.len o
  · rw [htable,hfar]
    exact hset
  · rw [hfar]
    intro o ho o' ho'
    rw [mem_keys_rebind,hself]
    by_cases he : o=r
    · subst he
      rw [hname] at ho'
      cases ho'
      exact .inl hself
    · rw [hnames o he] at ho'
      obtain ⟨holen,rfl⟩ := farName_some.mp ho'
      rw [hother o he]
      rcases hclear.kept o ho holen with hmem | ⟨hrlen,hsame⟩
      · exact .inr hmem
      · rcases halone hrlen with hkey | hsole
        · exact .inl (hsame.trans hkey.symm)
        · exact absurd (hsole o ho ⟨ho,holen,hsame⟩) he

theorem farFTeidHashSet_returns (u : Up) (r : Nat) :
    (u.farFTeidHashSet r).Returns fun v _ => ∃ peer,(u.farUp r).gnode=some peer ∧
      peer ≠ .unspec ∧
        v=u.register r
          (teidOctets (u.ctx.far.slot r).body.outerHeaderCreation++peer.bytes) := by
  have hctx : (u.farUnsetFTeid r).ctx=u.ctx := by
    unfold farUnsetFTeid
    split <;> rfl
  have hup : (u.farUnsetFTeid r).farUp=u.farUp := by
    unfold farUnsetFTeid
    split <;> rfl
  have hlen : ∀ bytes : List Byte, 4+bytes.length =
      (teidOctets (u.ctx.far.slot r).body.outerHeaderCreation++bytes).length := by
    intro bytes
    simp [teidOctets]
  unfold farFTeidHashSet
  cases hpeer : (u.farUp r).gnode with
  | none => trivial
  | some peer =>
    cases peer with
    | unspec => trivial
    | inet addr =>
      refine ⟨.inet addr,rfl,by simp,?_⟩
      simp only [hctx,hup,hlen,Up.register,PeerAddr.bytes,keyOf,setFarUp,
        update_self]
      rfl
    | inet6 addr =>
      refine ⟨.inet6 addr,rfl,by simp,?_⟩
      simp only [hctx,hup,hlen,Up.register,PeerAddr.bytes,keyOf,setFarUp,
        update_self]
      rfl

theorem length_teidOctets (o : Vector Byte 26) : (teidOctets o).length=4 := by
  simp [teidOctets]

theorem FarTabled.farFTeidHashSet (h : u.FarTabled) (hr : r∈u.ctx.far.live)
    (halone : (u.farUp r).hashLen≠0 → ∀ peer,(u.farUp r).gnode=some peer →
      teidOctets (u.ctx.far.slot r).body.outerHeaderCreation++peer.bytes=u.keyOf r ∨
        u.HoldsKeyAlone r) :
    (u.farFTeidHashSet r).Returns fun v _ => v.FarTabled := by
  refine (farFTeidHashSet_returns u r).mono ?_
  rintro v-⟨peer,hpeer,-,rfl⟩
  have hbytes : peer.bytes.length≤16 := by
    cases peer <;> simp [PeerAddr.bytes]
  refine h.register hr ?_ ?_ fun hlen => halone hlen peer hpeer
  · rw [List.length_append,length_teidOctets]
    omega
  · intro hnil
    have hzero:=congrArg List.length hnil
    rw [List.length_append,length_teidOctets,List.length_nil] at hzero
    omega

theorem FarTabled.setup (h : u.FarTabled) (hr : r∈u.ctx.far.live)
    (halone : (u.farUp r).hashLen≠0 →
      ∀ k∈u.setupKey peers r,k=u.keyOf r ∨ u.HoldsKeyAlone r) :
    (setupGtpNodes peers u [r]).Returns fun v _ => v.FarTabled := by
  have hnode : ∀ w : Up, w.FarTabled → r∈w.ctx.far.live →
      ((w.farUp r).hashLen≠0 → ∀ peer,(w.farUp r).gnode=some peer →
        teidOctets (w.ctx.far.slot r).body.outerHeaderCreation++peer.bytes=w.keyOf r ∨
          w.HoldsKeyAlone r) →
      (if (w.farUp r).gnode.isSome then
        (w.farFTeidHashSet r).bind fun u _ => setupGtpNodes peers u []
        else setupGtpNodes peers w []).Returns fun v _ => v.FarTabled := by
    intro w hw hrw hwalone
    split
    · exact (hw.farFTeidHashSet hrw hwalone).bind fun v _ hv => hv
    · exact hw
  simp only [setupGtpNodes,setupFarGtpuNode]
  simp only [setupKey] at halone
  cases hip : outerHeaderCreationToIp (u.ctx.far.slot r).body.outerHeaderCreation with
  | none =>
    rw [hip] at halone
    refine hnode u h hr fun hlen peer hpeer => halone hlen _ ?_
    rw [elim_none,hpeer]
    rfl
  | some ip =>
    rw [hip] at halone
    dsimp only
    cases hpeer : peers ip with
    | none => exact h
    | some peer =>
      let w:=u.setFarUp r { u.farUp r with gnode := some peer }
      have hup : ∀ o,(w.farUp o).hashLen=(u.farUp o).hashLen ∧
          (w.farUp o).hashKey=(u.farUp o).hashKey := by
        intro o
        by_cases he : o=r
        · subst he
          simp only [w,setFarUp,update_self,and_self]
        · simp only [w,setFarUp,update_of_ne he,and_self]
      have hkey : w.keyOf=u.keyOf :=
        funext fun o => by simp only [keyOf,farKey,(hup o).1,(hup o).2]
      refine hnode w (h.congr rfl hup rfl rfl) hr ?_
      intro hlen peer' hpeer'
      rw [(hup r).1] at hlen
      have hsame : peer'=peer := by
        simp only [w,setFarUp,update_self,some.injEq] at hpeer'
        exact hpeer'.symm
      have hold:=halone hlen
        (teidOctets (u.ctx.far.slot r).body.outerHeaderCreation++peer.bytes)
        (by rw [elim_some,hpeer]; rfl)
      rw [hsame,hkey]
      refine hold.imp id fun hsole o ho hreg => hsole o ho ⟨ho,?_,?_⟩
      · rw [← (hup o).1]
        exact hreg.2.1
      · rw [← hkey]
        exact hreg.2.2

theorem FarTabled.added (h : u.FarTabled) {t : RuleTable Far} (ht : t.Stocked farKind)
    (hlive : ∀ o,o∈t.live ↔ o∈u.ctx.far.live ∨ o=r) (hr : r∉u.ctx.far.live) :
    ((u.withFar t).setFarUp r .zero).FarTabled := by
  obtain ⟨l,hindex,hall⟩ := h.index
  have hself : ((u.withFar t).setFarUp r .zero).farName r=none := by
    simp [farName,setFarUp,FarUp.zero]
  have hname : ∀ o,o≠r → ((u.withFar t).setFarUp r .zero).farName o=u.farName o := by
    intro o ho
    simp only [farName,setFarUp,withFar,withCtx,update_of_ne ho]
  have hkey : ∀ o,o≠r → ((u.withFar t).setFarUp r .zero).keyOf o=u.keyOf o := by
    intro o ho
    simp only [keyOf,setFarUp,withFar,withCtx,update_of_ne ho]
  refine ⟨ht,?_,l,?_,?_⟩
  · intro o
    simp only [setFarUp,withFar,withCtx]
    by_cases he : o=r
    · rw [he,update_self]
      exact Nat.zero_le 20
    · rw [update_of_ne he]
      exact h.len o
  · refine hindex.congr (farKeys_reads _) rfl rfl ?_
    intro o ho o' ho' hmem
    have hne : o≠r := fun he => hr (he ▸ ho)
    obtain ⟨hlen,rfl⟩ := farName_some.mp ho'
    exact ⟨(hlive o).mpr (.inl ho),(hname o hne).trans ho',hkey o hne⟩
  · intro o ho o' ho'
    by_cases he : o=r
    · rw [he,hself] at ho'
      cases ho'
    · rw [hname o he] at ho'
      obtain ⟨hlen,rfl⟩ := farName_some.mp ho'
      rw [hkey o he]
      exact hall o (((hlive o).mp ho).resolve_right he) o ho'

structure FarDrawn (u : Up) (s : Nat) (id : BitVec 32) (r : Nat) (t : RuleTable Far) : Prop where
  absent : u.ctx.far.find s id=none
  found : t.find s id=some r
  stocked : t.Stocked farKind
  fresh : ∀ s',r∉u.ctx.far.list s'
  list : t.list=update u.ctx.far.list s (u.ctx.far.list s++[r])
  slot : ∀ r',r'≠r → t.slot r'=u.ctx.far.slot r'
  live : ∀ o,o∈t.live ↔ o∈u.ctx.far.live ∨ o=r

theorem farFindOrAdd_returns (h : u.ctx.far.Stocked farKind) (s : Nat) (id : BitVec 32) :
    (u.farFindOrAdd s id).Returns fun v _ => (v=u ∧ (u.ctx.far.find s id).isSome) ∨
      ∃ t r,v=(u.withFar t).setFarUp r .zero ∧ u.FarDrawn s id r t := by
  simp only [Up.farFindOrAdd,Pfcp.farFindOrAdd,RuleTable.findOrAdd]
  cases hfind : u.ctx.far.find s id with
  | some r =>
    have hfresh : u.freshFar (u.withFar u.ctx.far) s (some id)=u := by
      simp only [freshFar,bind_some,hfind]
      rfl
    simp only [Outcome.mapState,Outcome.bind_ok,hfresh]
    exact .inl ⟨rfl,rfl⟩
  | none =>
    rcases h.add s with ⟨-,t,hadd,-⟩ | ⟨-,t,r,hadd,hstock,hadded⟩
    · simp only [hadd,Outcome.bind_ok]
      trivial
    · have hfound:=hadded.find hfind id
      rw [if_pos rfl] at hfound
      have hshelf:=RuleTable.shelf_modify t r (f := fun x => { x with id := id }) (fun _ => rfl)
        fun _ => rfl
      have hstock' : (t.modify r fun x => { x with id := id }).Stocked farKind := by
        unfold RuleTable.Stocked
        rw [hshelf]
        exact hstock
      have hfresh : u.freshFar (u.withFar (t.modify r fun x => { x with id := id })) s (some id) =
          (u.withFar (t.modify r fun x => { x with id := id })).setFarUp r .zero := by
        simp only [freshFar,bind_some,hfind,withFar,withCtx,hfound]
      simp only [hadd,Outcome.bind_ok,Outcome.mapState,hfresh]
      refine .inr ⟨_,r,rfl,hfind,hfound,hstock',hadded.fresh,hadded.list,?_,?_⟩
      · intro r' hr'
        exact (update_of_ne hr' _ _).trans (hadded.slot r' hr')
      · intro o
        rw [RuleTable.live_congr hshelf]
        exact RuleTable.mem_live_added h hstock hadded

theorem FarTabled.farFindOrAdd (h : u.FarTabled) (s : Nat) (id : BitVec 32) :
    (u.farFindOrAdd s id).Returns fun v _ => v.FarTabled := by
  refine (farFindOrAdd_returns h.stocked s id).mono ?_
  rintro v-(⟨rfl,-⟩ | ⟨t,r,rfl,hdrawn⟩)
  · exact h
  · refine h.added hdrawn.stocked hdrawn.live fun hr => ?_
    obtain ⟨s',hs'⟩ := (RuleTable.mem_live h.stocked).mp hr
    exact hdrawn.fresh s' hs'

theorem FarTabled.step (h : u.FarTabled) {op : FarOp} (hop : KeepsKeys peers u op)
    {o : Outcome Up Unit} (ho : farStep peers u op=some o) :
    o.Returns fun v _ => v.FarTabled := by
  have hhandle : ∀ (handle : RuleHandler Far FarIe) s m,
      (handle u.ctx.far s m).Returns (fun t _ => t.shelf=u.ctx.far.shelf) →
      ((handleFar handle s u m).bind fun u _ => (.ok u () : Outcome Up Unit)).Returns
        fun v _ => v.FarTabled := by
    intro handle s m hshelf
    refine Outcome.Returns.bind (R := fun v _ => v.FarTabled) ?_ fun _ _ hv => hv
    exact Outcome.Returns.mapState (hshelf.mono fun t _ ht =>
      h.congr ht (fun _ => ⟨rfl,rfl⟩) rfl rfl)
  cases op with
  | findOrAdd s id => exact some.inj ho ▸ h.farFindOrAdd s id
  | handleCreateFar s m =>
    exact some.inj ho ▸ hhandle _ s m (u.ctx.far.handleRule_shelf _ _ _ s m)
  | handleUpdateFar s m =>
    exact some.inj ho ▸ hhandle _ s m (u.ctx.far.handleRule_shelf _ _ _ s m)
  | setup s r =>
    simp only [farStep,ite_none_right_eq_some,some.injEq] at ho
    rw [← ho.2]
    have hr:=(RuleTable.mem_live h.stocked).mpr ⟨s,ho.1⟩
    exact (h.setup hr hop).bind fun _ _ hv => hv
  | remove s r =>
    simp only [farStep,ite_none_right_eq_some,some.injEq] at ho
    exact ho.2 ▸ h.farRemove ho.1 hop

end Up

def anyPeer : GtpPeers := fun ip => ip.1.map .inet

end OgsDp.Pfcp
