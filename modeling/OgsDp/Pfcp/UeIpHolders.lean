import OgsDp.Pfcp.UeIp

/-!
# Who holds the UE IP addresses (lib/pfcp/context.c)

`p` says which address each holder has. The nodes of a pool that are in use are those that some
holder has, and so are the blocks of static addresses.
-/

namespace OgsDp.Pfcp
open OgsDp.Core Lib Function Option

namespace UeIps

universe u

variable {ι : Type u} {t t' : UeIps} {p : ι → Option UeIpRef} {i : ι} {r : UeIpRef}
  {family : Family} {dnn : Option (List Byte)} {addr : List Byte}

def Allocated (t : UeIps) : UeIpRef → Prop
  | .dynamic s k => (t.pool s).index k=some k
  | .static b => (t.block b).live=true

structure HeldBy (t : UeIps) (p : ι → Option UeIpRef) : Prop where
  inj : ∀ i j r,p i=some r → p j=some r → i=j
  pool : ∀ s,∃ q nodes,Pool.Split (t.pool s) q nodes ∧
    ∀ k,k∈nodes ↔ ∃ i,p i=some (.dynamic s k)
  block : ∀ b,(t.block b).live=true ↔ ∃ i,p i=some (.static b)
  fresh : ∀ b,t.blocks≤b → (t.block b).live=false

def next (t : UeIps) (family : Family) (dnn : Option (List Byte)) (addr : List Byte) :
    Option (Vector Byte 16) :=
  (t.findSubnet family dnn).bind fun s =>
    if (addr.take (maxbytes family)).any fun b => b≠0 then
      some (memcpy (Vector.replicate 16 0) (addr.take (maxbytes family)))
    else ((t.pool s).free (t.pool s).head).map fun k => t.addr (.dynamic s k)

def giveBack (t : UeIps) (r : Option UeIpRef) : UeIps := r.elim t fun x => (t.free x).state

namespace HeldBy

theorem init (subnets : List Subnet) : (UeIps.init subnets).HeldBy fun _ : ι => none where
  inj := by
    intro i j r hi
    cases hi
  pool := by
    intro s
    refine ⟨_,[],Pool.split_init _,?_⟩
    simp
  block := by simp [UeIps.init]
  fresh := fun _ _ => rfl

theorem allocated (h : t.HeldBy p) (hi : p i=some r) : t.Allocated r := by
  cases r with
  | dynamic s k =>
    obtain ⟨q,nodes,hsplit,hmem⟩ := h.pool s
    exact hsplit.index_live k ((hmem k).mpr ⟨i,hi⟩)
  | static b => exact (h.block b).mpr ⟨i,hi⟩

theorem head_of_find {s : Nat} (h : t.HeldBy p) (hfind : t.findSubnet family dnn=some s) :
    ∃ k q nodes,Pool.Split (t.pool s) (k::q) nodes ∧
      (∀ k,k∈nodes ↔ ∃ i,p i=some (.dynamic s k)) ∧
      (t.pool s).free (t.pool s).head=some k := by
  obtain ⟨q,nodes,hsplit,hmem⟩ := h.pool s
  have havail : 0<(t.pool s).avail := by
    have hany:=List.find?_some hfind
    obtain ⟨x,-,hx⟩ := Option.any_eq_true _ _ |>.mp hany
    simp only [Bool.and_eq_true,decide_eq_true_eq] at hx
    exact hx.2
  have hlen:=hsplit.queue.length_eq
  cases q with
  | nil =>
    simp only [List.length_nil] at hlen
    omega
  | cons k q =>
    have hle:=hsplit.queue.avail_le
    refine ⟨k,q,nodes,hsplit,hmem,?_⟩
    have hfirst:=hsplit.queue.ring 0 (by simp)
    rw [Nat.add_zero,Nat.mod_eq_of_lt (hsplit.queue.head_lt (by omega))] at hfirst
    exact hfirst

theorem alloc_error {cause : Cause} (h : t.HeldBy p)
    (ha : t.alloc family dnn addr=(t',.error cause)) :
    t'=t ∧ t.next family dnn addr=none := by
  unfold alloc at ha
  unfold next
  cases hfind : t.findSubnet family dnn with
  | none =>
    simp only [hfind] at ha
    exact ⟨(Prod.mk.inj ha).1.symm,rfl⟩
  | some s =>
    simp only [hfind,bind_some] at ha ⊢
    split at ha
    · cases ha
    · rename_i hdynamic
      obtain ⟨k,q,nodes,hsplit,-⟩ := h.head_of_find hfind
      obtain ⟨pool,hpool,-⟩ := hsplit.alloc
      simp only [hpool] at ha
      cases ha

end HeldBy

variable [DecidableEq ι]

theorem exists_update_none {x : UeIpRef} (hinj : ∀ i j r,p i=some r → p j=some r → i=j)
    (hi : p i=some r) :
    (∃ j,update p i none j=some x) ↔ x≠r ∧ ∃ j,p j=some x := by
  constructor
  · rintro ⟨j,hj⟩
    by_cases hji : j=i
    · rw [hji,update_self] at hj
      cases hj
    · rw [update_of_ne hji] at hj
      refine ⟨?_,j,hj⟩
      rintro rfl
      exact hji (hinj j i x hj hi)
  · rintro ⟨hne,j,hj⟩
    refine ⟨j,?_⟩
    rw [update_of_ne]
    · exact hj
    · rintro rfl
      rw [hi] at hj
      exact hne (some.inj hj).symm

theorem exists_update_some {x : UeIpRef} (hi : p i=none) :
    (∃ j,update p i (some r) j=some x) ↔ x=r ∨ ∃ j,p j=some x := by
  constructor
  · rintro ⟨j,hj⟩
    by_cases hji : j=i
    · rw [hji,update_self] at hj
      exact .inl (some.inj hj).symm
    · rw [update_of_ne hji] at hj
      exact .inr ⟨j,hj⟩
  · rintro (rfl | ⟨j,hj⟩)
    · exact ⟨i,update_self ..⟩
    · refine ⟨j,?_⟩
      rw [update_of_ne]
      · exact hj
      · rintro rfl
        rw [hi] at hj
        cases hj

namespace HeldBy

theorem inj_erase (h : t.HeldBy p) (i : ι) (j k : ι) (x : UeIpRef)
    (hj : update p i none j=some x) (hk : update p i none k=some x) :
    j=k := by
  by_cases hji : j=i
  · rw [hji,update_self] at hj
    cases hj
  · by_cases hki : k=i
    · rw [hki,update_self] at hk
      cases hk
    · rw [update_of_ne hji] at hj
      rw [update_of_ne hki] at hk
      exact h.inj j k x hj hk

theorem inj_insert (h : t.HeldBy p) (hnew : ∀ j,p j≠some r) (j k : ι) (x : UeIpRef)
    (hj : update p i (some r) j=some x)
    (hk : update p i (some r) k=some x) : j=k := by
  by_cases hji : j=i
  · by_cases hki : k=i
    · rw [hji,hki]
    · rw [hji,update_self] at hj
      rw [update_of_ne hki] at hk
      exact absurd (hk.trans hj.symm) (hnew k)
  · rw [update_of_ne hji] at hj
    by_cases hki : k=i
    · rw [hki,update_self] at hk
      exact absurd (hj.trans hk.symm) (hnew j)
    · rw [update_of_ne hki] at hk
      exact h.inj j k x hj hk

theorem free (h : t.HeldBy p) (hi : p i=some r) :
    ∃ t',t.free r = .ok t' () ∧ t'.HeldBy (update p i none) ∧ t'.addr=t.addr ∧
      t'.blocks=t.blocks := by
  have hgone : ∀ x,(∃ j,update p i none j=some x) ↔ x≠r ∧ ∃ j,p j=some x :=
    fun _ => exists_update_none h.inj hi
  cases r with
  | dynamic s k =>
    refine ⟨_,rfl,⟨h.inj_erase i,?_,?_,h.fresh⟩,rfl,rfl⟩
    · intro s'
      obtain ⟨q,nodes,hsplit,hmem⟩ := h.pool s'
      by_cases hs : s'=s
      · subst hs
        have hk : k∈nodes := (hmem k).mpr ⟨i,hi⟩
        refine ⟨q++[k],nodes.erase k,?_,?_⟩
        · simp only [update_self]
          exact hsplit.release hk
        · intro k'
          rw [hsplit.live_nodup.mem_erase_iff,hgone,hmem]
          simp
      · refine ⟨q,nodes,?_,?_⟩
        · simp only [update_of_ne hs]
          exact hsplit
        · intro k'
          rw [hgone,hmem]
          simp [hs]
    · intro b
      rw [hgone,h.block]
      simp
  | static b =>
    have hlive : (t.block b).live=true := (h.block b).mpr ⟨i,hi⟩
    refine ⟨{ t with block := update t.block b { t.block b with live := false } },?_,
      ⟨h.inj_erase i,?_,?_,?_⟩,?_,rfl⟩
    · simp only [UeIps.free,hlive,if_true]
    · intro s
      obtain ⟨q,nodes,hsplit,hmem⟩ := h.pool s
      refine ⟨q,nodes,hsplit,?_⟩
      intro k
      rw [hgone,hmem]
      simp
    · intro b'
      rw [hgone,← h.block]
      by_cases hb : b'=b
      · simp [hb]
      · simp [hb]
    · intro b' hb'
      by_cases hb : b'=b
      · simp [hb]
      · simp only [update_of_ne hb]
        exact h.fresh b' hb'
    · funext x
      cases x with
      | dynamic s k => rfl
      | static b' =>
        show (update t.block b _ b').addr=(t.block b').addr
        by_cases hb : b'=b
        · simp [hb]
        · simp [hb]

theorem alloc_ok (h : t.HeldBy p) (hi : p i=none)
    (ha : t.alloc family dnn addr=(t',.ok r)) :
    t'.HeldBy (update p i (some r)) ∧ t.next family dnn addr=some (t'.addr r) ∧
      ∀ x,(∃ j,p j=some x) → t'.addr x=t.addr x := by
  have hmore : ∀ x,(∃ j,update p i (some r) j=some x) ↔
      x=r ∨ ∃ j,p j=some x := fun _ => exists_update_some hi
  unfold alloc at ha
  unfold next
  cases hfind : t.findSubnet family dnn with
  | none => simp [hfind] at ha
  | some s =>
    simp only [hfind,bind_some] at ha ⊢
    split at ha
    · rename_i hstatic
      obtain ⟨rfl,hr⟩ := Prod.mk.inj ha
      obtain rfl := Except.ok.inj hr
      have hfresh:=h.fresh t.blocks (Nat.le_refl _)
      have hnew : ∀ j,p j≠some (.static t.blocks) := by
        intro j hj
        rw [(h.block _).mpr ⟨j,hj⟩] at hfresh
        cases hfresh
      refine ⟨⟨h.inj_insert hnew,?_,?_,?_⟩,?_,?_⟩
      · intro s'
        obtain ⟨q,nodes,hsplit,hmem⟩ := h.pool s'
        refine ⟨q,nodes,hsplit,?_⟩
        intro k
        rw [hmore,hmem]
        simp
      · intro b
        rw [hmore,← h.block]
        by_cases hb : b=t.blocks
        · simp [hb]
        · simp [hb]
      · intro b hb
        have hne : b≠t.blocks := by
          simp only at hb
          omega
        simp only [update_of_ne hne]
        exact h.fresh b (by simp only at hb; omega)
      · simp only [if_pos hstatic,UeIps.addr,update_self]
      · rintro x ⟨j,hj⟩
        cases x with
        | dynamic s' k => rfl
        | static b =>
          have hne : b≠t.blocks := by
            rintro rfl
            exact hnew j hj
          simp only [UeIps.addr,update_of_ne hne]
    · rename_i hdynamic
      obtain ⟨k,q,nodes,hsplit,hmem,hhead⟩ := h.head_of_find hfind
      obtain ⟨pool,hpool,hsplit',-⟩ := hsplit.alloc
      have hnew : ∀ j,p j≠some (.dynamic s k) := fun j hj =>
        hsplit.not_live_of_free (List.mem_cons_self ..) ((hmem k).mpr ⟨j,hj⟩)
      simp only [hpool] at ha
      obtain ⟨rfl,hr⟩ := Prod.mk.inj ha
      obtain rfl := Except.ok.inj hr
      refine ⟨⟨h.inj_insert hnew,?_,?_,h.fresh⟩,?_,?_⟩
      · intro s'
        by_cases hs : s'=s
        · subst hs
          refine ⟨q,nodes++[k],?_,?_⟩
          · simp only [update_self]
            exact hsplit'
          · intro k'
            rw [hmore,← hmem,List.mem_append,List.mem_singleton]
            simp [or_comm]
        · obtain ⟨q',nodes',hother,hmem'⟩ := h.pool s'
          refine ⟨q',nodes',?_,?_⟩
          · simp only [update_of_ne hs]
            exact hother
          · intro k'
            rw [hmore,hmem']
            simp [hs]
      · intro b
        rw [hmore,h.block]
        simp
      · rw [if_neg hdynamic,hhead]
        rfl
      · intro x _
        cases x <;> rfl

end HeldBy

end UeIps

end OgsDp.Pfcp
