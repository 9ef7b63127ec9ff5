import OgsDp.Pfcp.PacketBuffer
import OgsDp.Pfcp.RuleSurvival

/-!
# No packet is lost in the user plane

Every packet is sent, freed or in one buffer as long as the FARs of the PDRs that get packets are
there.
-/

namespace OgsDp.Pfcp.Packets
open Lib RefTable OgsDp.Core Function List Option

variable {x y z : Packets} {s p r : Nat} {l l' : List Nat} {peers : GtpPeers}

theorem count_flatMap_update (h : l.Nodup) (hr : r∈l) (f : Nat → List Nat) (b : List Nat)
    (k : Nat) : (l.flatMap (update f r b)).count k+(f r).count k =
      (l.flatMap f).count k+b.count k := by
  have hperm:=perm_cons_erase hr
  have hrest : (l.erase r).flatMap (update f r b)=(l.erase r).flatMap f := by
    apply flatMap_congr
    intro r' hr'
    have hne : r'≠r := (h.mem_erase_iff.mp hr').1
    rw [update_of_ne hne]
  rw [(hperm.flatMap_right _).count_eq,(hperm.flatMap_right f).count_eq,flatMap_cons,
    flatMap_cons,hrest,update_self,count_append,count_append]
  omega

def Flushed (x : Packets) (r : Nat) : Prop :=
  (x.up.farUp r).gnode.isSome → (x.body r).forwards → x.buffer r=[]

structure Inv (x : Packets) : Prop where
  stocked : x.up.ctx.far.Stocked farKind
  once : ∀ k,(List.range x.arrived).count k =
    (x.sent.map GPdu.packet).count k+x.freed.count k+x.held.count k
  bound : ∀ r,(x.buffer r).length ≤ maxNumOfPacketBuffer
  order : ∀ r,(x.sentBy r++x.buffer r).Pairwise (· < ·)
  numbered : ∀ r,∀ k∈x.sentBy r++x.buffer r,k<x.arrived
  user : ∀ s,∀ r∈x.up.ctx.far.list s,x.buffer r≠[] → (x.pdrsOf s r)≠[]

theorem Inv.accounted (h : x.Inv) : x.Accounted where
  once := by
    rw [perm_iff_count]
    intro k
    rw [h.once,count_append,count_append]
  bound := h.bound
  order := fun r => (pairwise_append.mp (h.order r)).1

theorem Inv.init {u : Up} (h : u.ctx.far.Stocked farKind) : (init u).Inv where
  stocked := h
  once := by
    have hnone : (u.ctx.far.live.flatMap fun _ => ([] : List Nat))=[] := by
      simp [flatMap_eq_nil_iff]
    simp [Packets.init,held,hnone]
  bound := by simp [Packets.init]
  order := by simp [Packets.init,sentBy]
  numbered := by simp [Packets.init,sentBy]
  user := by simp [Packets.init]

structure Disposed (x : Packets) (r : Nat) (l : List Nat) (y : Packets) : Prop where
  up : y.up=x.up
  buffer : y.buffer=x.buffer
  arrived : y.arrived=x.arrived
  gone : ∀ k,(y.sent.map GPdu.packet).count k+y.freed.count k =
    (x.sent.map GPdu.packet).count k+x.freed.count k+l.count k
  sends : ∃ l',l'.Sublist l ∧ y.sentBy r=x.sentBy r++l'
  others : ∀ r',r'≠r → y.sentBy r'=x.sentBy r'

theorem disposed_free (x : Packets) (r : Nat) (l : List Nat) : x.Disposed r l (x.free l) where
  up := rfl
  buffer := rfl
  arrived := rfl
  gone := by
    intro k
    simp only [free,count_append]
    omega
  sends := ⟨[],nil_sublist l,(append_nil _).symm⟩
  others := fun _ _ => rfl

theorem disposed_nil (x : Packets) (r : Nat) : x.Disposed r [] x where
  up := rfl
  buffer := rfl
  arrived := rfl
  gone := fun _ => rfl
  sends := ⟨[],nil_sublist [],(append_nil _).symm⟩
  others := fun _ _ => rfl

theorem Disposed.trans (h : x.Disposed r l y) (h' : y.Disposed r l' z) :
    x.Disposed r (l++l') z where
  up := h'.up.trans h.up
  buffer := h'.buffer.trans h.buffer
  arrived := h'.arrived.trans h.arrived
  gone := by
    intro k
    rw [h'.gone,h.gone,count_append]
    omega
  sends := by
    obtain ⟨m,hm,hsent⟩ := h.sends
    obtain ⟨m',hm',hsent'⟩ := h'.sends
    exact ⟨m++m',hm.append hm',by rw [hsent',hsent,append_assoc]⟩
  others := fun r' hr' => (h'.others r' hr').trans (h.others r' hr')

theorem sendGPdu_disposed (hfar : x.farOf p=some r) (hdr : HeaderDesc) (k : Nat) :
    (x.sendGPdu p hdr k).Returns fun y _ => x.Disposed r [k] y := by
  unfold sendGPdu
  rw [hfar]
  dsimp only
  split
  · exact disposed_free x r [k]
  · split
    · trivial
    · split
      · trivial
      · refine ⟨rfl,rfl,rfl,?_,⟨[k],Sublist.refl _,?_⟩,?_⟩
        · intro j
          simp only [map_append,map_cons,map_nil,count_append]
          omega
        · simp [sentBy]
        · intro r' hr'
          simp [sentBy,Ne.symm hr']

theorem sendAll_disposed (ks : List Nat) :
    ∀ x : Packets, x.farOf p=some r → (sendAll p x ks).Returns fun y _ => x.Disposed r ks y := by
  induction ks with
  | nil => exact fun x _ => disposed_nil x r
  | cons k ks ih =>
    intro x hfar
    refine (sendGPdu_disposed hfar _ k).bind fun y _ hy => ?_
    have hfar' : y.farOf p=some r := by
      rw [farOf,hy.up]
      exact hfar
    exact (ih y hfar').mono fun z _ hz => hy.trans hz

theorem Inv.live (h : x.Inv) (hr : r∈x.up.ctx.far.list s) : r∈x.up.ctx.far.live :=
  (RuleTable.mem_live h.stocked).mpr ⟨s,hr⟩

theorem count_held_setBuffer (hr : r∈x.up.ctx.far.live) (l : List Nat) (k : Nat) :
    (x.setBuffer r l).held.count k+(x.buffer r).count k=x.held.count k+l.count k :=
  count_flatMap_update x.up.ctx.far.live_nodup hr x.buffer l k

theorem pdrsOf_congr (h : y.up=x.up) (s r : Nat) : y.pdrsOf s r=x.pdrsOf s r := by
  unfold pdrsOf farOf
  rw [h]

theorem Inv.passed (h : x.Inv)
    (hd : Disposed { x with arrived := x.arrived+1 } r [x.arrived] y)
    (hempty : x.buffer r=[] ∨ y.sentBy r=x.sentBy r) : y.Inv := by
  have hheld : y.held=x.held := by
    rw [held,held,hd.up,hd.buffer]
  have hsent : ∀ r',y.sentBy r'++y.buffer r'=x.sentBy r'++x.buffer r' ∨
      y.sentBy r'++y.buffer r'=x.sentBy r'++x.buffer r'++[x.arrived] := by
    intro r'
    rw [hd.buffer]
    by_cases he : r'=r
    · subst he
      rcases hempty with hnil | hsame
      · obtain ⟨l',hl',hsend⟩ := hd.sends
        rw [hsend]
        change x.sentBy r'++l'++x.buffer r'=_ ∨ _
        rw [hnil,append_nil,append_nil]
        rcases List.sublist_singleton.mp hl' with rfl | rfl
        · exact .inl (append_nil _)
        · exact .inr (append_nil _)
      · exact .inl (by rw [hsame])
    · exact .inl (by rw [hd.others r' he]; rfl)
  refine ⟨?_,?_,?_,?_,?_,?_⟩
  · rw [hd.up]
    exact h.stocked
  · intro k
    rw [hd.arrived,hheld,hd.gone,range_succ,count_append,h.once]
    dsimp only
    omega
  · rw [hd.buffer]
    exact h.bound
  · intro r'
    rcases hsent r' with he | he
    · exact he ▸ h.order r'
    · rw [he,pairwise_append]
      exact ⟨h.order r',pairwise_singleton _ _,
        fun k hk k' hk' => mem_singleton.mp hk' ▸ h.numbered r' k hk⟩
  · intro r' k hk
    rw [hd.arrived]
    rcases hsent r' with he | he
    · exact Nat.lt_succ_of_lt (h.numbered r' k (he ▸ hk))
    · rw [he,mem_append,mem_singleton] at hk
      rcases hk with hk | rfl
      · exact Nat.lt_succ_of_lt (h.numbered r' k hk)
      · exact Nat.lt_succ_self _
  · intro s r' hr' hne
    rw [hd.up] at hr'
    rw [hd.buffer] at hne
    exact pdrsOf_congr hd.up s r' ▸ h.user s r' hr' hne

theorem Inv.buffered (h : x.Inv) (hr : r∈x.up.ctx.far.list s) (hp : p∈x.pdrsOf s r)
    (hlen : (x.buffer r).length < maxNumOfPacketBuffer) :
    (Packets.setBuffer { x with arrived := x.arrived+1 } r (x.buffer r++[x.arrived])).Inv where
  stocked := h.stocked
  once := by
    intro k
    have hcount:=count_held_setBuffer (x := { x with arrived := x.arrived+1 }) (h.live hr)
      (x.buffer r++[x.arrived]) k
    have honce:=h.once k
    rw [count_append] at hcount
    simp only [setBuffer,held] at hcount honce ⊢
    rw [range_succ,count_append]
    omega
  bound := by
    intro r'
    simp only [setBuffer]
    by_cases he : r'=r
    · rw [he,update_self,length_append,length_singleton]
      exact hlen
    · rw [update_of_ne he]
      exact h.bound r'
  order := by
    intro r'
    change (x.sentBy r'++update x.buffer r _ r').Pairwise (· < ·)
    by_cases he : r'=r
    · subst he
      rw [update_self,← append_assoc,pairwise_append]
      exact ⟨h.order r',pairwise_singleton _ _,
        fun k hk k' hk' => mem_singleton.mp hk' ▸ h.numbered r' k hk⟩
    · rw [update_of_ne he]
      exact h.order r'
  numbered := by
    intro r' k hk
    change k∈x.sentBy r'++update x.buffer r _ r' at hk
    change k<x.arrived+1
    by_cases he : r'=r
    · subst he
      rw [update_self,← append_assoc,mem_append,mem_singleton] at hk
      rcases hk with hk | rfl
      · exact Nat.lt_succ_of_lt (h.numbered r' k hk)
      · exact Nat.lt_succ_self _
    · rw [update_of_ne he] at hk
      exact Nat.lt_succ_of_lt (h.numbered r' k hk)
  user := by
    intro s' r' hr' hne
    by_cases he : r'=r
    · subst he
      have hs : s'=s := (h.stocked.owner s' r' hr').symm.trans (h.stocked.owner s r' hr)
      exact hs ▸ ne_nil_of_mem hp
    · simp only [setBuffer,update_of_ne he] at hne
      exact h.user s' r' hr' hne

theorem Inv.emptied (h : x.Inv) (hr : r∈x.up.ctx.far.list s)
    (hd : x.Disposed r (x.buffer r) y) : (y.setBuffer r []).Inv := by
  have hsub : ∀ r',((y.setBuffer r []).sentBy r'++(y.setBuffer r []).buffer r').Sublist
      (x.sentBy r'++x.buffer r') := by
    intro r'
    change (y.sentBy r'++update y.buffer r [] r').Sublist _
    by_cases he : r'=r
    · subst he
      obtain ⟨l',hl',hsend⟩ := hd.sends
      rw [update_self,append_nil,hsend]
      exact (Sublist.refl _).append hl'
    · rw [update_of_ne he,hd.others r' he,hd.buffer]
  refine ⟨?_,?_,?_,?_,?_,?_⟩
  · change y.up.ctx.far.Stocked farKind
    rw [hd.up]
    exact h.stocked
  · intro k
    have hlive : r∈y.up.ctx.far.live := by
      rw [hd.up]
      exact h.live hr
    have hcount:=count_held_setBuffer hlive [] k
    have hgone:=hd.gone k
    have honce:=h.once k
    have hheld : y.held=x.held := by
      rw [held,held,hd.up,hd.buffer]
    rw [hheld,hd.buffer,count_nil] at hcount
    change (List.range y.arrived).count k=(y.sent.map GPdu.packet).count k+y.freed.count k+_
    rw [hd.arrived]
    omega
  · intro r'
    simp only [setBuffer]
    by_cases he : r'=r
    · rw [he,update_self]
      exact Nat.zero_le _
    · rw [update_of_ne he,hd.buffer]
      exact h.bound r'
  · exact fun r' => (h.order r').sublist (hsub r')
  · intro r' k hk
    change k<y.arrived
    rw [hd.arrived]
    exact h.numbered r' k ((hsub r').subset hk)
  · intro s' r' hr' hne
    by_cases he : r'=r
    · simp [setBuffer,he] at hne
    · change r'∈y.up.ctx.far.list s' at hr'
      simp only [setBuffer,update_of_ne he,hd.buffer] at hne
      rw [hd.up] at hr'
      have hpdrs : (y.setBuffer r []).pdrsOf s' r'=x.pdrsOf s' r' := pdrsOf_congr hd.up s' r'
      exact hpdrs ▸ h.user s' r' hr' hne

structure Sent (x : Packets) (r : Nat) (y : Packets) : Prop where
  inv : y.Inv
  up : y.up=x.up
  flushed : y.Flushed r
  others : ∀ r',r'≠r → y.buffer r'=x.buffer r'

theorem Inv.sendBufferedPacket (h : x.Inv) (hr : r∈x.up.ctx.far.list s)
    (hfar : x.farOf p=some r) : (x.sendBufferedPacket p).Returns fun y _ => x.Sent r y := by
  unfold Packets.sendBufferedPacket
  rw [hfar]
  dsimp only
  split
  · refine (sendAll_disposed _ x hfar).bind fun y _ hd => ⟨h.emptied hr hd,hd.up,?_,?_⟩
    · intro _ _
      simp [setBuffer]
    · intro r' hr'
      simp only [setBuffer,update_of_ne hr',hd.buffer]
  · rename_i hno
    exact ⟨h,rfl,fun hnode hforw => absurd ⟨hnode,hforw⟩ hno,fun _ _ => rfl⟩

theorem sendBufferedPackets_sent (ps : List Nat) : ∀ x : Packets, x.Inv →
    r∈x.up.ctx.far.list s → (∀ p∈ps,x.farOf p=some r) → (ps=[] → x.Flushed r) →
      (x.sendBufferedPackets ps).Returns fun y _ => x.Sent r y := by
  induction ps with
  | nil => exact fun x h _ _ hflush => ⟨h,rfl,hflush rfl,fun _ _ => rfl⟩
  | cons p ps ih =>
    intro x h hr hps _
    refine (h.sendBufferedPacket hr (hps p (mem_cons_self ..))).bind fun y _ hy => ?_
    have hr' : r∈y.up.ctx.far.list s := hy.up ▸ hr
    have hps' : ∀ q∈ps,y.farOf q=some r := by
      intro q hq
      rw [farOf,hy.up]
      exact hps q (mem_cons_of_mem _ hq)
    refine (ih y hy.inv hr' hps' fun _ => hy.flushed).mono fun z _ hz => ?_
    exact ⟨hz.inv,hz.up.trans hy.up,hz.flushed,
      fun r' hne => (hz.others r' hne).trans (hy.others r' hne)⟩

structure Kept (x : Packets) : Prop where
  inv : x.Inv
  flushed : ∀ s,∀ r∈x.up.ctx.far.list s,x.Flushed r

theorem Flushed.congr (h : x.Flushed r) (hnode : (y.up.farUp r).gnode=(x.up.farUp r).gnode)
    (hbody : y.body r=x.body r) (hbuffer : y.buffer r=x.buffer r) : y.Flushed r := by
  unfold Flushed
  rw [hnode,hbody,hbuffer]
  exact h

theorem Inv.bufferPacket (h : x.Inv) (hr : r∈x.up.ctx.far.list s) (hp : p∈x.pdrsOf s r) :
    (Packets.bufferPacket { x with arrived := x.arrived+1 } r x.arrived).Inv := by
  unfold Packets.bufferPacket
  split
  · rename_i hlen
    exact h.buffered hr hp hlen
  · exact h.passed (disposed_free _ r _) (.inr rfl)

theorem bufferPacket_up (x : Packets) (r k : Nat) : (x.bufferPacket r k).up=x.up := by
  unfold bufferPacket
  split <;> rfl

theorem bufferPacket_others (x : Packets) (k : Nat) {r' : Nat} (h : r'≠r) :
    (x.bufferPacket r k).buffer r'=x.buffer r' := by
  unfold bufferPacket
  split
  · exact update_of_ne h _ _
  · rfl

theorem Kept.upHandlePdr (h : x.Kept) (hp : p∈x.up.ctx.pdrList s)
    (hfar : ∀ r∈x.farOf p,r∈x.up.ctx.far.list s) (type : Byte)
    (recvhdr : Option HeaderDesc) :
    (x.upHandlePdr p type recvhdr).Returns fun y _ => y.Kept := by
  -- `y` is `x` with a packet more, in the buffer of a FAR that does not send it
  have hbuffer : ∀ r ∈ x.farOf p,
      (¬ ((x.up.farUp r).gnode.isSome ∧ (x.body r).forwards)) →
        (Packets.bufferPacket { x with arrived := x.arrived+1 } r x.arrived).Kept := by
    intro r hr hno
    have huser : p∈x.pdrsOf s r := mem_filter.mpr ⟨hp,decide_eq_true hr⟩
    have hup:=bufferPacket_up { x with arrived := x.arrived+1 } r x.arrived
    refine ⟨h.inv.bufferPacket (hfar r hr) huser,fun s' r' hr' => ?_⟩
    by_cases he : r'=r
    · subst he
      intro hnode hforw
      rw [hup] at hnode
      rw [body,hup] at hforw
      exact absurd ⟨hnode,hforw⟩ hno
    · rw [hup] at hr'
      refine (h.flushed s' r' hr').congr (by rw [hup]) (by rw [body,hup]; rfl) ?_
      exact bufferPacket_others _ _ he
  have hpassed : ∀ r∈x.farOf p,∀ y,
      Disposed { x with arrived := x.arrived+1 } r [x.arrived] y →
        (x.buffer r=[] ∨ y.sentBy r=x.sentBy r) → y.Kept := by
    intro r hr y hd hempty
    refine ⟨h.inv.passed hd hempty,fun s' r' hr' => ?_⟩
    rw [hd.up] at hr'
    exact (h.flushed s' r' hr').congr (by rw [hd.up]) (by rw [body,hd.up]; rfl) (by rw [hd.buffer])
  unfold Packets.upHandlePdr
  dsimp only
  split
  · trivial
  · have hsame : ({ x with arrived := x.arrived+1 } : Packets).farOf p=x.farOf p := rfl
    rw [hsame]
    cases hr : x.farOf p with
    | none => trivial
    | some r =>
      dsimp only
      cases hnode : (x.up.farUp r).gnode with
      | none => exact hbuffer r hr (by simp [hnode])
      | some peer =>
        dsimp only
        split
        · rename_i hforw
          have hempty : x.buffer r=[] :=
            h.flushed s r (hfar r hr) (by rw [hnode]; rfl) hforw
          exact (sendGPdu_disposed (x := { x with arrived := x.arrived+1 }) hr _ _).bind
            fun y _ hd => hpassed r hr y hd (.inl hempty)
        · rename_i hforw
          split
          · exact hbuffer r hr fun hboth => hforw hboth.2
          · exact hpassed r hr _ (disposed_free _ r _) (.inr rfl)

theorem handleRule_body {α μ : Type} (type : IeType) (id : μ → Option (BitVec 32))
    {say : μ → α → Outcome α (Option (Cause × IeType))}
    (hsay : ∀ m a,(say m a).Returns fun a' refused => refused.isSome → a'=a)
    (t : RuleTable α) (s : Nat) (m : Option μ) :
    (handleRule type id say t s m).Returns fun t' reply =>
      (∀ r,reply = .rule r → r∈t.list s) ∧
        ∀ r,reply ≠ .rule r → (t'.slot r).body=(t.slot r).body := by
  cases m with
  | none => exact ⟨fun _ hr => (by cases hr),fun _ _ => rfl⟩
  | some m =>
    simp only [handleRule,knownRule]
    cases id m with
    | none => exact ⟨fun _ hr => (by cases hr),fun _ _ => rfl⟩
    | some id =>
      dsimp only
      cases hfind : t.find s id with
      | none => exact ⟨fun _ hr => (by cases hr),fun _ _ => rfl⟩
      | some r =>
        dsimp only
        have hkeeps:=hsay m (t.slot r).body
        have hother : ∀ body r',r'≠r → ((t.say r body).slot r').body=(t.slot r').body := by
          intro body r' hr'
          simp only [RuleTable.say,RuleTable.modify,update_of_ne hr']
        cases hret : say m (t.slot r).body with
        | abort a => trivial
        | ok a refused =>
          rw [hret] at hkeeps
          cases refused with
          | none =>
            refine ⟨fun r' hr' => ?_,fun r' hr' => hother a r' fun he => hr' (he ▸ rfl)⟩
            cases hr'
            exact RuleTable.find_mem hfind
          | some e =>
            refine ⟨fun _ hr' => (by cases hr'),fun r' _ => ?_⟩
            by_cases he : r'=r
            · have hbody : a=(t.slot r).body := hkeeps rfl
              simp only [he,RuleTable.say,RuleTable.modify,update_self,hbody]
            · exact hother a r' he

theorem forward_accepts (f : ForwardingParameters) (a : Far) :
    ((forward f a).bind fun a _ => (.ok a none : Outcome Far (Option (Cause × IeType)))).Returns
      fun _ refused => refused=none :=
  Outcome.Returns.bind (R := fun _ _ => True) (Outcome.returns_of_forall _ fun _ _ => trivial)
    fun _ _ _ => rfl

theorem handleCreateFar_body (t : RuleTable Far) (s : Nat) (m : Option FarIe) :
    (handleCreateFar t s m).Returns fun t' reply =>
      (∀ r,reply = .rule r → r∈t.list s) ∧
        ∀ r,reply ≠ .rule r → (t'.slot r).body=(t.slot r).body := by
  refine handleRule_body _ _ (fun m a => ?_) t s m
  cases m.applyAction with
  | none => exact fun _ => rfl
  | some action =>
    cases m.forwardingParameters with
    | none => exact fun hsome => by cases hsome
    | some f =>
      exact (forward_accepts f _).mono fun _ _ hnone hsome => by simp [hnone] at hsome

theorem handleUpdateFar_body (t : RuleTable Far) (s : Nat) (m : Option FarIe) :
    (handleUpdateFar t s m).Returns fun t' reply =>
      (∀ r,reply = .rule r → r∈t.list s) ∧
        ∀ r,reply ≠ .rule r → (t'.slot r).body=(t.slot r).body := by
  refine handleRule_body _ _ (fun m a => ?_) t s m
  dsimp only
  cases m.forwardingParameters with
  | none => exact fun hsome => by cases hsome
  | some f =>
    exact (forward_accepts f _).mono fun _ _ hnone hsome => by simp [hnone] at hsome

theorem setupGtpNodes_frame (peers : GtpPeers) (u : Up) (r : Nat) :
    (Up.setupGtpNodes peers u [r]).Returns fun v _ =>
      v.ctx=u.ctx ∧ ∀ r',r'≠r → v.farUp r'=u.farUp r' := by
  have hset : ∀ w : Up, w.ctx=u.ctx → (∀ r',r'≠r → w.farUp r'=u.farUp r') →
      (if (w.farUp r).gnode.isSome then
        (w.farFTeidHashSet r).bind fun u _ => Up.setupGtpNodes peers u []
        else Up.setupGtpNodes peers w []).Returns fun v _ =>
          v.ctx=u.ctx ∧ ∀ r',r'≠r → v.farUp r'=u.farUp r' := by
    intro w hctx hfar
    split
    · refine (Up.farFTeidHashSet_returns w r).bind ?_
      rintro v-⟨peer,-,-,rfl⟩
      simp only [Up.setupGtpNodes,Up.register,Up.setFarUp,Up.farUnsetFTeid]
      split
      · exact ⟨hctx,fun r' hr' => (update_of_ne hr' _ _).trans (hfar r' hr')⟩
      · exact ⟨hctx,fun r' hr' => (update_of_ne hr' _ _).trans (hfar r' hr')⟩
    · exact ⟨hctx,hfar⟩
  simp only [Up.setupGtpNodes,Up.setupFarGtpuNode]
  cases outerHeaderCreationToIp (u.ctx.far.slot r).body.outerHeaderCreation with
  | none => exact hset u rfl fun _ _ => rfl
  | some ip =>
    dsimp only
    cases peers ip with
    | none => exact ⟨rfl,fun _ _ => rfl⟩
    | some peer => exact hset (u.setFarUp r _) rfl fun r' hr' => update_of_ne hr' _ _

theorem Inv.withUp (h : x.Inv) {u : Up} (hfar : u.ctx.far.shelf=x.up.ctx.far.shelf)
    (hpdr : u.ctx.pdr=x.up.ctx.pdr) (hlist : u.ctx.pdrList=x.up.ctx.pdrList) :
    (x.withUp u).Inv where
  stocked := by
    change u.ctx.far.Stocked farKind
    unfold RuleTable.Stocked
    rw [hfar]
    exact h.stocked
  once := by
    intro k
    have hheld : (x.withUp u).held=x.held :=
      congrArg (List.flatMap x.buffer) (RuleTable.live_congr hfar)
    rw [hheld]
    exact h.once k
  bound := h.bound
  order := h.order
  numbered := h.numbered
  user := by
    intro s r hr hne
    have hlists : u.ctx.far.list=x.up.ctx.far.list := congrArg Shelf.list hfar
    have hpdrs : (x.withUp u).pdrsOf s r=x.pdrsOf s r := by
      unfold pdrsOf farOf Packets.withUp
      rw [hpdr,hlist]
    rw [hpdrs]
    exact h.user s r (hlists ▸ hr) hne

theorem Kept.updateFar (h : x.Kept) {handle : RuleHandler Far FarIe} {m : Option FarIe}
    (hshelf : (handle x.up.ctx.far s m).Returns fun t _ => t.shelf=x.up.ctx.far.shelf)
    (hbody : (handle x.up.ctx.far s m).Returns fun t reply =>
      (∀ r,reply = .rule r → r∈x.up.ctx.far.list s) ∧
        ∀ r,reply ≠ .rule r → (t.slot r).body=(x.up.ctx.far.slot r).body) :
    (x.updateFar peers handle s m).Returns fun y _ => y.Kept := by
  simp only [Packets.updateFar,Up.handleFar]
  cases hret : handle x.up.ctx.far s m with
  | abort t => trivial
  | ok t reply =>
    rw [hret] at hshelf hbody
    obtain ⟨hmem,hbodies⟩ := hbody
    have hlists : t.list=x.up.ctx.far.list := congrArg Shelf.list hshelf
    have hinv : (x.withUp (x.up.withFar t)).Inv := h.inv.withUp hshelf rfl rfl
    have hflushed : ∀ s r,reply ≠ .rule r → r∈t.list s →
        (x.withUp (x.up.withFar t)).Flushed r :=
      fun s r hne hr => (h.flushed s r (hlists ▸ hr)).congr rfl (hbodies r hne) rfl
    simp only [Outcome.mapState,Outcome.bind_ok]
    cases reply with
    | absent => exact ⟨hinv,fun s r hr => hflushed s r (by simp) hr⟩
    | rejected cause ie => exact ⟨hinv,fun s r hr => hflushed s r (by simp) hr⟩
    | rule r =>
      have hr : r∈t.list s := hlists ▸ hmem r rfl
      have hsetup : ((Up.setupGtpNodes peers (x.up.withFar t) [r]).mapState
          (x.withUp (x.up.withFar t)).withUp).Returns fun z _ => ∃ v : Up, z=x.withUp v ∧
            v.ctx=(x.up.withFar t).ctx ∧ ∀ r',r'≠r → v.farUp r'=x.up.farUp r' :=
        Outcome.Returns.mapState ((setupGtpNodes_frame peers _ r).mono
          fun v _ hv => ⟨v,rfl,hv.1,hv.2⟩)
      refine hsetup.bind ?_
      rintro z-⟨v,rfl,hctx,hfar⟩
      have hinv' : (x.withUp v).Inv :=
        h.inv.withUp (by rw [hctx]; exact hshelf) (by rw [hctx]; rfl) (by rw [hctx]; rfl)
      have hr' : r∈(x.withUp v).up.ctx.far.list s := by
        change r∈v.ctx.far.list s
        rw [hctx]
        exact hr
      refine (sendBufferedPackets_sent _ _ hinv' hr' (fun p hp => ?_)
        fun hnil hnode hforw => ?_).mono fun y _ hy => ⟨hy.inv,fun s' r' hmem' => ?_⟩
      · simpa using (mem_filter.mp hp).2
      · exact Classical.not_not.mp fun hne => hinv'.user s r hr' hne hnil
      · by_cases he : r'=r
        · exact he ▸ hy.flushed
        · have hsame : r'∈t.list s' := by
            rw [hy.up] at hmem'
            change r'∈v.ctx.far.list s' at hmem'
            rwa [hctx] at hmem'
          refine (hflushed s' r' (fun hr'' => he (by cases hr''; rfl)) hsame).congr ?_ ?_
            (hy.others r' he)
          · rw [hy.up]
            exact congrArg FarUp.gnode (hfar r' he)
          · rw [body,hy.up]
            change (v.ctx.far.slot r').body=_
            rw [hctx]
            rfl

theorem Kept.farRemove (h : x.Kept) (hr : r∈x.up.ctx.far.list s) : (x.farRemove r).Kept := by
  have hfar : (x.up.farRemove r).ctx.far=x.up.ctx.far.remove r := by
    unfold Up.farRemove Up.farUnsetFTeid
    split <;> rfl
  have hpdr : (x.up.farRemove r).ctx.pdr=x.up.ctx.pdr := by
    unfold Up.farRemove Up.farUnsetFTeid
    split <;> rfl
  have hlist : (x.up.farRemove r).ctx.pdrList=x.up.ctx.pdrList := by
    unfold Up.farRemove Up.farUnsetFTeid
    split <;> rfl
  have hup : (x.up.farRemove r).farUp=x.up.farUp := by
    unfold Up.farRemove Up.farUnsetFTeid
    split <;> rfl
  have hlive : (x.up.ctx.far.live).Perm (r::(x.up.farRemove r).ctx.far.live) := by
    have hnodup : (r::(x.up.farRemove r).ctx.far.live).Nodup := by
      rw [nodup_cons,hfar,RuleTable.mem_live_remove h.inv.stocked hr]
      exact ⟨fun hno => hno.2 rfl,RuleTable.live_nodup _⟩
    refine (perm_ext_iff_of_nodup (RuleTable.live_nodup _) hnodup).mpr fun r' => ?_
    rw [mem_cons,hfar,RuleTable.mem_live_remove h.inv.stocked hr]
    by_cases he : r'=r
    · simp only [he,true_or,iff_true]
      exact h.inv.live hr
    · simp [he]
  have hsub : ∀ s' r',r'∈(x.up.farRemove r).ctx.far.list s' → r'∈x.up.ctx.far.list s' := by
    intro s' r' hr'
    rw [hfar] at hr'
    simp only [RuleTable.remove] at hr'
    by_cases he : s'=(x.up.ctx.far.slot r).sess
    · rw [he,update_self] at hr'
      exact he ▸ mem_of_mem_erase hr'
    · rwa [update_of_ne he] at hr'
  refine ⟨⟨?_,?_,h.inv.bound,h.inv.order,h.inv.numbered,?_⟩,?_⟩
  · change (x.up.farRemove r).ctx.far.Stocked farKind
    rw [hfar]
    exact h.inv.stocked.remove hr
  · intro k
    have honce:=h.inv.once k
    have hcount : x.held.count k=(x.buffer r).count k+(x.farRemove r).held.count k := by
      rw [held,(hlive.flatMap_right x.buffer).count_eq,flatMap_cons,count_append]
      rfl
    simp only [Packets.farRemove,free,Packets.withUp,count_append] at hcount ⊢
    omega
  · intro s' r' hr' hne
    have hpdrs : (x.farRemove r).pdrsOf s' r'=x.pdrsOf s' r' := by
      unfold pdrsOf farOf Packets.farRemove free Packets.withUp
      rw [hpdr,hlist]
    rw [hpdrs]
    exact h.inv.user s' r' (hsub s' r' hr') hne
  · intro s' r' hr'
    refine (h.flushed s' r' (hsub s' r' hr')).congr (congrArg FarUp.gnode (congrFun hup r')) ?_ rfl
    exact (congrArg (fun t : RuleTable Far => (t.slot r').body) hfar).trans rfl

theorem Kept.added (h : x.Kept) {id : BitVec 32} {t : RuleTable Far}
    (hdrawn : x.up.FarDrawn s id r t) :
    ((x.withUp ((x.up.withFar t).setFarUp r .zero)).setBuffer r []).Kept := by
  have hmem : ∀ s' r',r'≠r → r'∈t.list s' → r'∈x.up.ctx.far.list s' := by
    intro s' r' hne hr'
    rw [hdrawn.list] at hr'
    exact (mem_update_append.mp hr').resolve_right fun hno => hne hno.2
  have hfresh : r∉x.up.ctx.far.live := by
    intro hr
    obtain ⟨s',hs'⟩ := (RuleTable.mem_live h.inv.stocked).mp hr
    exact hdrawn.fresh s' hs'
  have hlive : (t.live).Perm (r::x.up.ctx.far.live) := by
    have hnodup : (r::x.up.ctx.far.live).Nodup :=
      nodup_cons.mpr ⟨hfresh,RuleTable.live_nodup _⟩
    refine (perm_ext_iff_of_nodup t.live_nodup hnodup).mpr fun r' => ?_
    rw [mem_cons,hdrawn.live,or_comm]
  have hothers : ∀ r',r'≠r → update x.buffer r [] r'=x.buffer r' :=
    fun r' hne => update_of_ne hne _ _
  have hsub : ∀ r',(x.sentBy r'++update x.buffer r [] r').Sublist
      (x.sentBy r'++x.buffer r') := by
    intro r'
    by_cases he : r'=r
    · rw [he,update_self]
      exact (Sublist.refl _).append (nil_sublist _)
    · rw [hothers r' he]
  refine ⟨⟨hdrawn.stocked,?_,?_,?_,?_,?_⟩,?_⟩
  · intro k
    have hrest : x.up.ctx.far.live.flatMap (update x.buffer r [])=x.held :=
      flatMap_congr fun r' hr' => hothers r' fun he => hfresh (he ▸ hr')
    have hheld : (t.live.flatMap (update x.buffer r [])).count k=x.held.count k := by
      rw [(hlive.flatMap_right _).count_eq,flatMap_cons,update_self,hrest]
      rfl
    have honce:=h.inv.once k
    rw [← hheld] at honce
    exact honce
  · intro r'
    change (update x.buffer r [] r').length≤_
    by_cases he : r'=r
    · rw [he,update_self]
      exact Nat.zero_le _
    · rw [hothers r' he]
      exact h.inv.bound r'
  · exact fun r' => (h.inv.order r').sublist (hsub r')
  · exact fun r' k hk => h.inv.numbered r' k ((hsub r').subset hk)
  · intro s' r' hr' hne
    change update x.buffer r [] r'≠[] at hne
    by_cases he : r'=r
    · rw [he,update_self] at hne
      exact absurd rfl hne
    · rw [hothers r' he] at hne
      exact h.inv.user s' r' (hmem s' r' he hr') hne
  · intro s' r' hr'
    by_cases he : r'=r
    · intro _ _
      exact he ▸ update_self ..
    · refine (h.flushed s' r' (hmem s' r' he hr')).congr ?_ ?_ (hothers r' he)
      · exact congrArg FarUp.gnode (update_of_ne he _ _)
      · exact congrArg Rule.body (hdrawn.slot r' he)

theorem Kept.farFindOrAdd (h : x.Kept) (s : Nat) (id : BitVec 32) :
    (x.farFindOrAdd s id).Returns fun y _ => y.Kept := by
  have hfind:=Up.farFindOrAdd_returns h.inv.stocked s id
  unfold Packets.farFindOrAdd
  cases hret : x.up.farFindOrAdd s id with
  | abort v => trivial
  | ok v u =>
    rw [hret] at hfind
    simp only [Outcome.mapState,Outcome.bind_ok]
    rcases hfind with ⟨rfl,hsome⟩ | ⟨t,r,rfl,hdrawn⟩
    · obtain ⟨r,hr⟩ := isSome_iff_exists.mp hsome
      rw [hr]
      exact h
    · have hfound : (x.withUp ((x.up.withFar t).setFarUp r .zero)).up.ctx.far.find s id=some r :=
        hdrawn.found
      rw [hdrawn.absent,hfound]
      exact h.added hdrawn

theorem Kept.step (h : x.Kept) {op : PacketOp} (hop : x.HasFar op) {o : Outcome Packets Bool}
    (ho : x.step peers op=some o) : o.Returns fun y _ => y.Kept := by
  have hupdate : ∀ (handle : RuleHandler Far FarIe) s m,
      (x.updateFar peers handle s m).Returns (fun y _ => y.Kept) →
        ((x.updateFar peers handle s m).bind fun y _ =>
          (.ok y false : Outcome Packets Bool)).Returns fun y _ => y.Kept :=
    fun _ _ _ hreturns => hreturns.bind fun _ _ hy => hy
  cases op with
  | handlePdr s p type recvhdr =>
    simp only [Packets.step,ite_none_right_eq_some,some.injEq] at ho
    exact ho.2 ▸ h.upHandlePdr ho.1 hop type recvhdr
  | findOrAdd s id => exact some.inj ho ▸ (h.farFindOrAdd s id).bind fun _ _ hy => hy
  | createFar s m =>
    exact some.inj ho ▸ hupdate _ s m
      (h.updateFar (x.up.ctx.far.handleRule_shelf _ _ _ s m) (handleCreateFar_body _ s m))
  | updateFar s m =>
    exact some.inj ho ▸ hupdate _ s m
      (h.updateFar (x.up.ctx.far.handleRule_shelf _ _ _ s m) (handleUpdateFar_body _ s m))
  | removeFar s r =>
    simp only [Packets.step,ite_none_right_eq_some,some.injEq] at ho
    exact ho.2 ▸ h.farRemove ho.1

theorem bufferPacket_first (x : Packets) (r : Nat) :
    (x.buffer r).isEmpty=true ↔
      x.buffer r=[] ∧ (Packets.bufferPacket { x with arrived := x.arrived+1 } r
        x.arrived).buffer r=[x.arrived] := by
  rw [List.isEmpty_iff]
  refine ⟨fun hnil => ⟨hnil,?_⟩,And.left⟩
  have hlen : (x.buffer r).length < maxNumOfPacketBuffer := by
    rw [hnil]
    decide
  unfold bufferPacket
  rw [if_pos hlen]
  simp only [setBuffer,update_self,hnil,nil_append]

theorem step_reportsFirst {op : PacketOp} {o : Outcome Packets Bool}
    (ho : x.step peers op=some o) : x.ReportsFirst op o := by
  rintro s p type recvhdr rfl r hr
  simp only [Packets.step,ite_none_right_eq_some,some.injEq] at ho
  rw [← ho.2]
  have hkept : ∀ y : Packets, y.buffer=x.buffer →
      (false=true ↔ x.buffer r=[] ∧ y.buffer r=[x.arrived]) := by
    intro y hy
    rw [hy]
    refine ⟨fun hno => (by cases hno),fun hboth => ?_⟩
    rw [hboth.1] at hboth
    cases hboth.2
  have hsame : ({ x with arrived := x.arrived+1 } : Packets).farOf p=some r := hr
  unfold upHandlePdr
  dsimp only
  split
  · trivial
  · rw [hsame]
    dsimp only
    split
    · exact bufferPacket_first x r
    · split
      · exact (sendGPdu_disposed hsame _ _).bind fun y _ hd => hkept y hd.buffer
      · split
        · exact bufferPacket_first x r
        · exact hkept _ rfl

/-- Over any rules: where the PDRs that get packets have their FARs, every packet is accounted for
after every call, and the reports are those of the first packets in a buffer. -/
theorem packets_accounted_run (assemble : List (List Byte) → Option IpfwRule) (poolSess : Nat)
    (random : Nat → Nat) (seed farSeed : BitVec 32) (rules : List PfcpOp) (peers : GtpPeers)
    (ops : List PacketOp) :
    ∀ c ∈ completed (PfcpContext.step assemble) (PfcpContext.init poolSess random seed) rules,
      let x:=init ((upInit poolSess random seed farSeed).withCtx c.rules)
      EachStep (step peers) HasFar x ops →
        (∀ y∈completed (step peers) x ops,y.Accounted) ∧
          EachOutcome (step peers) ReportsFirst x ops := by
  intro c hc x hops
  obtain ⟨L,hstock⟩ := PfcpContext.stocked_run assemble poolSess random seed rules c hc
  have hinit : x.Kept := by
    refine ⟨.init hstock.rules.far,fun s r _ _ _ => rfl⟩
  have hreports : ∀ y op o,step peers y op=some o → y.ReportsFirst op o :=
    fun _ _ _ ho => step_reportsFirst ho
  refine ⟨fun y hy => ?_,eachOutcome_of_forall hreports⟩
  have hkept:=completed_inv (fun x op y r h hop ho => h.step hop ho) hinit hops y hy
  exact hkept.inv.accounted

def twoPdrs : List PfcpOp :=
  [.handle 0 (.createPdr env0 false
      (some ⟨⟨some 1,none,some ⟨some 1,none,none,none⟩,some 1,[],none⟩,noUrrIds,[]⟩)),
    .handle 0 (.createPdr env0 false
      (some ⟨⟨some 2,none,some ⟨some 1,none,none,none⟩,some 1,[],none⟩,noUrrIds,[]⟩))]

def bufferThenForward : List PacketOp :=
  [.createFar 0 (some ⟨some 1,some 1024,none⟩),.handlePdr 0 0 255 none,
    .handlePdr 0 1 255 none,
    .updateFar 0 (some ⟨some 1,some 512,
      some ⟨some 0,none,some [1,0,0,0,0,7,10,0,0,1],none⟩⟩),
    .handlePdr 0 1 255 none]

theorem packets_accounted_run_three :
    ∃ c ∈ completed (PfcpContext.step fun _ => none) (PfcpContext.init 1 id 0) twoPdrs,
      ∃ y ∈ completed (step anyPeer) (init ((upInit 1 id 0 0).withCtx c.rules)) bufferThenForward,
        y.sent.map GPdu.packet=[0,1,2] ∧ y.Accounted ∧
          EachOutcome (step anyPeer) ReportsFirst (init ((upInit 1 id 0 0).withCtx c.rules))
            bufferThenForward := by
  have hrun : ∃ c ∈ completed (PfcpContext.step fun _ => none) (PfcpContext.init 1 id 0) twoPdrs,
      EachStep (step anyPeer) HasFar (init ((upInit 1 id 0 0).withCtx c.rules)) bufferThenForward ∧
        ∃ y ∈ completed (step anyPeer) (init ((upInit 1 id 0 0).withCtx c.rules)) bufferThenForward,
          y.sent.map GPdu.packet=[0,1,2] := by
    decide
  obtain ⟨c,hc,hops,y,hy,hsent⟩ := hrun
  have hall:=packets_accounted_run (fun _ => none) 1 id 0 0 twoPdrs anyPeer bufferThenForward c hc
    hops
  exact ⟨c,hc,y,hy,hsent,hall.1 y hy,hall.2⟩

def removeThenBuffer : List PacketOp :=
  [.createFar 0 (some ⟨some 1,some 1024,none⟩),.handlePdr 0 0 255 none,.removeFar 0 0,
    .handlePdr 0 0 255 none]

/-- The PDR still refers to the FAR, and its packet is put where no FAR is. -/
theorem packet_lost :
    ∃ c ∈ completed (PfcpContext.step fun _ => none) (PfcpContext.init 1 id 0) twoPdrs,
      ∃ y ∈ completed (step anyPeer) (init ((upInit 1 id 0 0).withCtx c.rules)) removeThenBuffer,
        y.arrived=2 ∧ y.sent=[] ∧ y.freed=[0] ∧ y.held=[] ∧ ¬ y.Accounted := by
  have hrun : ∃ c ∈ completed (PfcpContext.step fun _ => none) (PfcpContext.init 1 id 0) twoPdrs,
      ∃ y ∈ completed (step anyPeer) (init ((upInit 1 id 0 0).withCtx c.rules)) removeThenBuffer,
        y.arrived=2 ∧ y.sent=[] ∧ y.freed=[0] ∧ y.held=[] := by
    decide
  obtain ⟨c,hc,y,hy,harrived,hsent,hfreed,hheld⟩ := hrun
  refine ⟨c,hc,y,hy,harrived,hsent,hfreed,hheld,fun h => ?_⟩
  have hlength:=h.once.length_eq
  rw [harrived,hsent,hfreed,hheld] at hlength
  cases hlength

end OgsDp.Pfcp.Packets
