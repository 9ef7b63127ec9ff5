import OgsDp.Amf.Ue

/-!
# 5G-GUTIs (src/amf/context.c)

A node of the M-TMSI pool is rewritten when it is taken and rewritten back when it is given up.
-/

namespace OgsDp.Amf
open Lib RefTable OgsDp.Core Function

def scatter (v : BitVec 32) : BitVec 32 :=
  ((v &&& 0xffff#32) ||| ((v &&& 0x003f0000#32) <<< 8)) ||| 0xc0000000#32

def gather (w : BitVec 32) : BitVec 32 :=
  ((w &&& 0x3fffffff#32) &&& 0xffff#32) ||| (((w &&& 0x3fffffff#32) &&& 0x3f000000#32) >>> 8)

theorem masks (i : Nat) (hi : i<32) :
    (0xffff#32).getLsbD i=decide (i<16) ∧
    (0x003f0000#32).getLsbD i=decide (16 ≤ i ∧ i<22) ∧
    (0xc0000000#32).getLsbD i=decide (30 ≤ i) ∧
    (0x3fffffff#32).getLsbD i=decide (i<30) ∧
    (0x3f000000#32).getLsbD i=decide (24 ≤ i ∧ i<30) := by
  revert i
  decide

theorem getLsbD_scatter {v : BitVec 32} {i : Nat} (hi : i<32) : (scatter v).getLsbD i =
    if i<16 then v.getLsbD i
    else if 24 ≤ i ∧ i<30 then v.getLsbD (i-8) else decide (30 ≤ i) := by
  obtain ⟨h1,-,h2,-⟩ := masks i hi
  simp only [scatter,BitVec.getLsbD_or,BitVec.getLsbD_and,BitVec.getLsbD_shiftLeft,h1,h2]
  obtain ⟨-,h3,-⟩ := masks (i-8) (by omega)
  rw [h3]
  by_cases h16 : i<16
  · simp [h16,show ¬ 16 ≤ i-8 by omega,show ¬ 30 ≤ i by omega]
  · by_cases h24 : 24 ≤ i ∧ i<30
    · simp [h16,h24,show 16 ≤ i-8 by omega,show i-8<22 by omega,
        show ¬ i<8 by omega,hi,show ¬ 30 ≤ i by omega]
    · have hmid : ¬ (16 ≤ i-8 ∧ i-8<22) := by omega
      simp [h16,h24,hmid]

theorem gather_scatter {v : BitVec 32} (hv : v≤0x003fffff#32) : gather (scatter v)=v := by
  have hlt : v.toNat<2^22 := by
    have hle:=BitVec.le_def.mp hv
    have hbound : (0x003fffff#32).toNat=2^22-1 := by decide
    omega
  have hhigh : ∀ i,22 ≤ i → v.getLsbD i=false := by
    intro i hi
    exact Nat.testBit_lt_two_pow (Nat.lt_of_lt_of_le hlt (Nat.pow_le_pow_right (by decide) hi))
  apply BitVec.eq_of_getLsbD_eq
  intro i hi
  obtain ⟨h1,-,-,h2,-⟩ := masks i hi
  simp only [gather,BitVec.getLsbD_or,BitVec.getLsbD_and,BitVec.getLsbD_ushiftRight,h1,h2,
    getLsbD_scatter hi]
  rcases (by omega : i<16 ∨ 16 ≤ i ∧ i<22 ∨ 22 ≤ i) with hlow | hmid | htop
  · obtain ⟨-,-,-,-,h4⟩ := masks (8+i) (by omega)
    rw [h4]
    simp [hlow,show i<30 by omega,show ¬ 24≤8+i by omega]
  · obtain ⟨-,-,-,h3,h4⟩ := masks (8+i) (by omega)
    have h8 : 24≤8+i ∧ 8+i<30 := by omega
    rw [h3,h4,getLsbD_scatter (by omega),if_neg (by omega),Nat.add_sub_cancel_left]
    simp [h8,show ¬ i<16 by omega,show ¬ 8+i<16 by omega]
  · rw [hhigh i htop]
    simp only [show ¬ i<16 by omega,decide_false,Bool.and_false,Bool.false_or]
    by_cases h24 : 8+i<32
    · obtain ⟨-,-,-,h3,h4⟩ := masks (8+i) h24
      simp [h4,show ¬ 8+i<30 by omega]
    · rw [BitVec.getLsbD_of_ge _ _ (by omega)]
      rfl

theorem scatter_inj {v w : BitVec 32} (hv : v≤0x003fffff#32) (hw : w≤0x003fffff#32)
    (h : scatter v=scatter w) : v=w := by
  rw [← gather_scatter hv,← gather_scatter hw,h]

theorem scatter_top (v : BitVec 32) : scatter v &&& 0xc0000000#32=0xc0000000#32 := by
  apply BitVec.eq_of_getLsbD_eq
  intro i hi
  obtain ⟨-,-,h,-⟩ := masks i hi
  simp only [scatter,BitVec.getLsbD_and,BitVec.getLsbD_or,h]
  cases decide (30 ≤ i) <;> simp

/-- What the nodes are filled with at the start: as `ogs_pool_random_id_generate` leaves them, no
value twice and none beyond 22 bits. -/
structure Values (val : Nat → BitVec 32) (size : Nat) : Prop where
  le : ∀ m<size,val m≤0x003fffff#32
  inj : ∀ m<size,∀ m'<size,val m=val m' → m=m'

namespace Ues

/-- Just the nodes of `nodes` are in use, and the others are as they were at the start. -/
structure Nodes (val : Nat → BitVec 32) (nodes : List Nat) (s : Ues) : Prop where
  pool : ∃ q live,Pool.Split s.mTmsiPool q live ∧ live.Perm nodes
  idle : ∀ m ∉ nodes,s.mTmsi m=val m
  taken : ∀ m∈nodes,s.mTmsi m=scatter (val m)

variable {val : Nat → BitVec 32} {nodes nodes' : List Nat} {s t : Ues} {m : Nat}

theorem mTmsiFree_eq (s : Ues) (m : Nat) : s.mTmsiFree m = { s with
    mTmsi := update s.mTmsi m (gather (s.mTmsi m))
    mTmsiPool := s.mTmsiPool.release m } :=
  rfl

namespace Nodes

theorem nodup (h : Nodes val nodes s) : nodes.Nodup := by
  obtain ⟨q,live,hs,hperm⟩ := h.pool
  exact hperm.nodup_iff.mp hs.live_nodup

theorem lt_size (h : Nodes val nodes s) (hm : m∈nodes) : m<s.mTmsiPool.size := by
  obtain ⟨q,live,hs,hperm⟩ := h.pool
  exact hs.lt_size (hperm.mem_iff.mpr hm)

theorem perm (h : Nodes val nodes s) (hperm : nodes.Perm nodes') : Nodes val nodes' s where
  pool := by
    obtain ⟨q,live,hs,hlive⟩ := h.pool
    exact ⟨q,live,hs,hlive.trans hperm⟩
  idle := fun m hm => h.idle m fun hmem => hm (hperm.mem_iff.mp hmem)
  taken := fun m hm => h.taken m (hperm.mem_iff.mpr hm)

theorem congr (h : Nodes val nodes s) (hpool : t.mTmsiPool=s.mTmsiPool)
    (hval : t.mTmsi=s.mTmsi) : Nodes val nodes t where
  pool := hpool ▸ h.pool
  idle := hval ▸ h.idle
  taken := hval ▸ h.taken

theorem free (hv : Values val s.mTmsiPool.size) (h : Nodes val (m::nodes) s) :
    Nodes val nodes (s.mTmsiFree m) := by
  obtain ⟨hm,hnodup⟩ := List.nodup_cons.mp h.nodup
  have hvalue : gather (s.mTmsi m)=val m := by
    rw [h.taken m (List.mem_cons_self ..)]
    exact gather_scatter (hv.le m (h.lt_size (List.mem_cons_self ..)))
  rw [mTmsiFree_eq,hvalue]
  refine ⟨?_,?_,?_⟩
  · obtain ⟨q,live,hs,hperm⟩ := h.pool
    have hlive : m∈live := hperm.mem_iff.mpr (List.mem_cons_self ..)
    refine ⟨_,_,hs.release hlive,?_⟩
    have herase:=hperm.erase m
    rwa [List.erase_cons_head] at herase
  · intro m' hm'
    by_cases he : m'=m
    · simp [he]
    · simp only [update_of_ne he]
      exact h.idle m' fun hmem => (List.mem_cons.mp hmem).elim he hm'
  · intro m' hm'
    have he : m'≠m := by
      rintro rfl
      exact hm hm'
    simp only [update_of_ne he]
    exact h.taken m' (List.mem_cons_of_mem m hm')

theorem alloc (hv : Values val s.mTmsiPool.size) (h : Nodes val nodes s)
    (hlen : nodes.length<s.mTmsiPool.size) :
    ∃ m pool,m∉nodes ∧ pool.size=s.mTmsiPool.size ∧
      s.mTmsiAlloc = .ok { s with
        mTmsiPool := pool
        mTmsi := update s.mTmsi m (scatter (val m)) } m ∧
      Nodes val (m::nodes) { s with
        mTmsiPool := pool
        mTmsi := update s.mTmsi m (scatter (val m)) } := by
  obtain ⟨q,live,hs,hperm⟩ := h.pool
  cases q with
  | nil =>
    have hadd:=hs.length_add
    rw [List.length_nil,hperm.length_eq] at hadd
    omega
  | cons m q =>
    obtain ⟨pool,hpool,hsplit,hsize,-⟩ := hs.alloc
    have hm : m∉nodes := fun hmem =>
      hs.not_live_of_free (List.mem_cons_self ..) (hperm.mem_iff.mpr hmem)
    have hle:=hv.le m (hs.free_lt_size (List.mem_cons_self ..))
    refine ⟨m,pool,hm,hsize,?_,?_⟩
    · rw [mTmsiAlloc,hpool]
      simp only [h.idle m hm,if_pos hle]
      rfl
    · refine ⟨⟨q,_,hsplit,?_⟩,?_,?_⟩
      · exact (List.perm_append_singleton m live).trans (hperm.cons m)
      · intro m' hm'
        rw [List.mem_cons,not_or] at hm'
        simp only [update_of_ne hm'.1]
        exact h.idle m' hm'.2
      · intro m' hm'
        rcases List.mem_cons.mp hm' with rfl | hrest
        · simp
        · have he : m'≠m := by
            rintro rfl
            exact hm hrest
          simp only [update_of_ne he]
          exact h.taken m' hrest

end Nodes

/-- The current GUTIs are those of `cur` and the next ones those of `nxt`, each a UE with its
node, and the table has the current ones. -/
structure Gutis (val : Nat → BitVec 32) (cur nxt : List (Nat × Nat)) (s : Ues) : Prop where
  nodes : s.Nodes val ((cur++nxt).map Prod.snd)
  current : ∀ b∈cur,(s.amfUe b.1).current.mTmsi=some b.2 ∧
    (s.amfUe b.1).current.guti.mTmsi=s.mTmsi b.2
  next : ∀ b∈nxt,(s.amfUe b.1).next.mTmsi=some b.2 ∧
    (s.amfUe b.1).next.guti.mTmsi=s.mTmsi b.2
  hash : ∃ l,l.Perm (cur.map Prod.fst) ∧
    s.gutiUeHash=owned s.gutiKeys (fun u => (s.amfUe u).current.guti) l

variable {cur nxt cur' nxt' : List (Nat × Nat)} {u : Nat}

namespace Gutis

theorem perm (h : Gutis val cur nxt s) (hcur : cur.Perm cur') (hnxt : nxt.Perm nxt') :
    Gutis val cur' nxt' s where
  nodes := h.nodes.perm ((hcur.append hnxt).map Prod.snd)
  current := fun b hb => h.current b (hcur.mem_iff.mpr hb)
  next := fun b hb => h.next b (hnxt.mem_iff.mpr hb)
  hash := by
    obtain ⟨l,hl,hhash⟩ := h.hash
    exact ⟨l,hl.trans (hcur.map Prod.fst),hhash⟩

theorem congr (h : Gutis val cur nxt s) (hpool : t.mTmsiPool=s.mTmsiPool)
    (hval : t.mTmsi=s.mTmsi) (hhash : t.gutiUeHash=s.gutiUeHash)
    (hseed : t.gutiSeed=s.gutiSeed)
    (hcur : ∀ b∈cur,(t.amfUe b.1).current=(s.amfUe b.1).current)
    (hnxt : ∀ b∈nxt,(t.amfUe b.1).next=(s.amfUe b.1).next) : Gutis val cur nxt t where
  nodes := h.nodes.congr hpool hval
  current := by
    intro b hb
    rw [hcur b hb,hval]
    exact h.current b hb
  next := by
    intro b hb
    rw [hnxt b hb,hval]
    exact h.next b hb
  hash := by
    obtain ⟨l,hl,htable⟩ := h.hash
    refine ⟨l,hl,?_⟩
    rw [hhash,htable]
    symm
    refine owned_congr ?_ rfl ?_
    · unfold gutiKeys
      rw [hseed]
    · intro u hu
      obtain ⟨b,hb,rfl⟩ := List.mem_map.mp (hl.mem_iff.mp hu)
      exact congrArg GutiSlot.guti (hcur b hb)

theorem values_nodup (hv : Values val s.mTmsiPool.size) (h : Gutis val cur nxt s) :
    ((cur++nxt).map fun b => s.mTmsi b.2).Nodup := by
  have hmap : (cur++nxt).map (fun b => s.mTmsi b.2) =
      ((cur++nxt).map Prod.snd).map s.mTmsi := by
    rw [List.map_map]
    rfl
  rw [hmap]
  refine List.Nodup.map_on ?_ h.nodes.nodup
  intro m hm m' hm' heq
  rw [h.nodes.taken m hm,h.nodes.taken m' hm'] at heq
  have hlt:=h.nodes.lt_size hm
  have hlt':=h.nodes.lt_size hm'
  exact hv.inj m hlt m' hlt' (scatter_inj (hv.le m hlt) (hv.le m' hlt') heq)

theorem keys_nodup (hv : Values val s.mTmsiPool.size) (h : Gutis val cur nxt s) {l : List Nat}
    (hl : l.Perm (cur.map Prod.fst)) :
    (l.map fun u => (s.amfUe u).current.guti).Nodup := by
  rw [(hl.map _).nodup_iff,List.map_map]
  apply List.Nodup.of_map Guti.mTmsi
  rw [List.map_map]
  have hvalues:=h.values_nodup hv
  rw [List.map_append] at hvalues
  have hcur:=(List.nodup_append.mp hvalues).1
  have heq : cur.map (Guti.mTmsi ∘ (fun u => (s.amfUe u).current.guti) ∘ Prod.fst) =
      cur.map fun b => s.mTmsi b.2 :=
    List.map_congr_left fun b hb => (h.current b hb).2
  rw [heq]
  exact hcur

theorem reads (s : Ues) (l : List Nat) :
    ∀ u∈l,s.gutiKeys.reads u (s.amfUe u).current.guti=true :=
  fun u _ => beq_self_eq_true (s.amfUe u).current.guti

theorem find (hv : Values val s.mTmsiPool.size) (h : Gutis val cur nxt s) (guti : Guti) (u : Nat) :
    s.amfUeFindByGuti guti=some u ↔ u∈cur.map Prod.fst ∧ (s.amfUe u).current.guti=guti := by
  obtain ⟨l,hl,htable⟩ := h.hash
  have hkeys:=h.keys_nodup hv hl
  rw [amfUeFindByGuti,htable,owned_eq_held,
    get_held (keys_dup hkeys) (reads_dup (reads s l))]
  constructor
  · rintro ⟨r,hmem,hkey⟩
    obtain ⟨o,ho,heq⟩ := List.mem_map.mp hmem
    obtain ⟨rfl,rfl⟩ := Prod.mk.inj heq
    exact ⟨hl.mem_iff.mp ho,hkey⟩
  · rintro ⟨hu,hkey⟩
    exact ⟨u,List.mem_map.mpr ⟨u,hl.mem_iff.mpr hu,rfl⟩,hkey⟩

theorem dropCurrentGuti (hv : Values val s.mTmsiPool.size) (h : Gutis val ((u,m)::cur) nxt s) :
    Gutis val cur nxt (s.dropCurrentGuti u) := by
  have hu:=(h.current (u,m) (List.mem_cons_self ..)).1
  have hnodes : s.Nodes val (m::(cur++nxt).map Prod.snd) := h.nodes
  have hm:=(List.nodup_cons.mp hnodes.nodup).1
  have hother : ∀ b∈cur++nxt,(s.dropCurrentGuti u).mTmsi b.2=s.mTmsi b.2 := by
    intro b hb
    have hne : b.2≠m := fun he => hm (List.mem_map.mpr ⟨b,hb,he⟩)
    simp [Ues.dropCurrentGuti,hu,mTmsiFree_eq,hne]
  obtain ⟨l,hl,htable⟩ := h.hash
  have hkeys:=h.keys_nodup hv hl
  have hunset:=unset_owned hkeys (reads s l) (hl.mem_iff.mpr (List.mem_cons_self ..))
  rw [← htable] at hunset
  refine ⟨?_,?_,?_,l.erase u,?_,?_⟩
  · simp only [Ues.dropCurrentGuti,hu]
    refine Nodes.free hv ?_
    exact hnodes.congr rfl rfl
  · intro b hb
    have hcur:=h.current b (List.mem_cons_of_mem _ hb)
    rw [hother b (List.mem_append_left _ hb)]
    simpa [Ues.dropCurrentGuti,hu,mTmsiFree_eq] using hcur
  · intro b hb
    have hnxt:=h.next b hb
    rw [hother b (List.mem_append_right _ hb)]
    simpa [Ues.dropCurrentGuti,hu,mTmsiFree_eq] using hnxt
  · have herase:=hl.erase u
    rwa [List.map_cons,List.erase_cons_head] at herase
  · simp only [Ues.dropCurrentGuti,hu,mTmsiFree_eq]
    exact hunset

theorem dropNextGuti (hv : Values val s.mTmsiPool.size) (h : Gutis val cur ((u,m)::nxt) s) :
    Gutis val cur nxt (s.dropNextGuti u) := by
  have hu:=(h.next (u,m) (List.mem_cons_self ..)).1
  have hnodes : s.Nodes val (m::(cur++nxt).map Prod.snd) :=
    h.nodes.perm (List.perm_middle.map Prod.snd)
  have hm:=(List.nodup_cons.mp hnodes.nodup).1
  have hother : ∀ b∈cur++nxt,(s.dropNextGuti u).mTmsi b.2=s.mTmsi b.2 := by
    intro b hb
    have hne : b.2≠m := fun he => hm (List.mem_map.mpr ⟨b,hb,he⟩)
    simp [Ues.dropNextGuti,hu,mTmsiFree_eq,hne]
  obtain ⟨l,hl,htable⟩ := h.hash
  refine ⟨?_,?_,?_,l,hl,?_⟩
  · simp only [Ues.dropNextGuti,hu]
    exact hnodes.free hv
  · intro b hb
    have hcur:=h.current b hb
    rw [hother b (List.mem_append_left _ hb)]
    simpa [Ues.dropNextGuti,hu,mTmsiFree_eq] using hcur
  · intro b hb
    have hnxt:=h.next b (List.mem_cons_of_mem _ hb)
    rw [hother b (List.mem_append_right _ hb)]
    simpa [Ues.dropNextGuti,hu,mTmsiFree_eq] using hnxt
  · simp only [Ues.dropNextGuti,hu,mTmsiFree_eq]
    exact htable

theorem newGuti (hv : Values val s.mTmsiPool.size) (h : Gutis val cur nxt s)
    (hlen : (cur++nxt).length<s.mTmsiPool.size) (hu : (s.amfUe u).next.mTmsi=none) :
    ∃ m pool mTmsi guti,pool.size=s.mTmsiPool.size ∧
      s.amfUeNewGuti u = .ok (modifyUe { s with mTmsiPool := pool,mTmsi := mTmsi } u
        fun ue => { ue with next := ⟨some m,guti⟩ }) () ∧
      Gutis val cur ((u,m)::nxt) (modifyUe { s with mTmsiPool := pool,mTmsi := mTmsi } u
        fun ue => { ue with next := ⟨some m,guti⟩ }) := by
  obtain ⟨m,pool,hm,hsize,halloc,hnodes⟩ := h.nodes.alloc hv (by simpa using hlen)
  have hother : ∀ b∈cur++nxt,b.2≠m := fun b hb he => hm (List.mem_map.mpr ⟨b,hb,he⟩)
  have hnext : ∀ b∈nxt,b.1≠u := by
    rintro b hb rfl
    rw [(h.next b hb).1] at hu
    cases hu
  refine ⟨m,pool,update s.mTmsi m (scatter (val m)),
    ⟨nasFromPlmnId (s.amfUe u).guami.plmnId,(s.amfUe u).guami.amfId,scatter (val m)⟩,
    hsize,?_,?_⟩
  · rw [amfUeNewGuti,hu,halloc]
    simp [Outcome.bind,modifyUe]
  · refine ⟨?_,?_,?_,?_⟩
    · refine Nodes.perm ?_ (List.perm_middle.map Prod.snd).symm
      exact hnodes.congr rfl rfl
    · intro b hb
      have hm:=hother b (List.mem_append_left _ hb)
      by_cases hw : b.1=u
      · simpa [modifyUe,hw,hm] using h.current b hb
      · simpa [modifyUe,hw,hm] using h.current b hb
    · intro b hb
      rcases List.mem_cons.mp hb with rfl | hb
      · simp [modifyUe]
      · simpa [modifyUe,hnext b hb,hother b (List.mem_append_right _ hb)] using h.next b hb
    · obtain ⟨l,hl,htable⟩ := h.hash
      refine ⟨l,hl,htable.trans (owned_congr rfl rfl fun w _ => ?_).symm⟩
      apply modifyUe_field fun ue => ue.current.guti
      intro ue
      rfl

end Gutis

theorem takeNext_self (s : Ues) (u : Nat) : ((s.takeNext u).amfUe u).current=(s.amfUe u).next ∧
    ((s.takeNext u).amfUe u).next.mTmsi=none := by
  simp [takeNext,modifyUe]

theorem takeNext_of_ne (s : Ues) {u w : Nat} (h : w≠u) :
    (s.takeNext u).amfUe w=s.amfUe w := by
  simp [takeNext,modifyUe,h]

theorem Gutis.takeNext (hv : Values val s.mTmsiPool.size) (h : Gutis val cur ((u,m)::nxt) s)
    (hcur : ∀ b∈cur,b.1≠u) (hnxt : ∀ b∈nxt,b.1≠u) :
    Gutis val ((u,m)::cur) nxt (s.takeNext u) := by
  obtain ⟨hself,-⟩ := s.takeNext_self u
  have hnext:=h.next (u,m) (List.mem_cons_self ..)
  refine ⟨?_,?_,?_,?_⟩
  · refine Nodes.perm ?_ (List.perm_middle.map Prod.snd)
    exact h.nodes.congr rfl rfl
  · intro b hb
    rcases List.mem_cons.mp hb with rfl | hb
    · rw [hself]
      exact hnext
    · rw [s.takeNext_of_ne (hcur b hb)]
      exact h.current b hb
  · intro b hb
    rw [s.takeNext_of_ne (hnxt b hb)]
    exact h.next b (List.mem_cons_of_mem _ hb)
  · obtain ⟨l,hl,htable⟩ := h.hash
    have hne : ∀ w∈l,w≠u := by
      intro w hw
      obtain ⟨b,hb,rfl⟩ := List.mem_map.mp (hl.mem_iff.mp hw)
      exact hcur b hb
    have hkeys:=h.keys_nodup hv hl
    generalize hs₁ : (s.modifyUe u fun ue => { ue with current := ue.next })=s₁
    have hother : ∀ w∈l,(s₁.amfUe w).current.guti=(s.amfUe w).current.guti := by
      intro w hw
      simp [← hs₁,modifyUe,hne w hw]
    have hu : (s₁.amfUe u).current.guti=(s.amfUe u).next.guti := by
      simp [← hs₁,modifyUe]
    have htable₁ : s₁.gutiUeHash=owned s₁.gutiKeys (fun w => (s₁.amfUe w).current.guti) l := by
      rw [← hs₁] at hother ⊢
      rw [owned_congr rfl rfl hother]
      exact htable
    have hfresh : (s₁.amfUe u).current.guti∉l.map fun w => (s₁.amfUe w).current.guti := by
      intro hmem
      obtain ⟨w,hw,heq⟩ := List.mem_map.mp hmem
      obtain ⟨b,hb,rfl⟩ := List.mem_map.mp (hl.mem_iff.mp hw)
      have hvalue : s.mTmsi b.2=s.mTmsi m := by
        rw [← (h.current b hb).2,← hnext.2,← hother b.1 hw,← hu,heq]
      have hnodup:=h.values_nodup hv
      rw [List.map_append] at hnodup
      exact (List.nodup_append.mp hnodup).2.2 _ (List.mem_map_of_mem hb) _
        (List.mem_map_of_mem (List.mem_cons_self ..)) hvalue
    have hkeys₁ : (l.map fun w => (s₁.amfUe w).current.guti).Nodup := by
      rw [List.map_congr_left hother]
      exact hkeys
    refine ⟨l++[u],?_,?_⟩
    · exact (List.perm_append_singleton u l).trans (hl.cons u)
    · simp only [Ues.takeNext,hs₁]
      rw [htable₁,set_owned hkeys₁ (reads s₁ l) hfresh]
      symm
      refine owned_congr rfl rfl fun w _ => ?_
      apply modifyUe_field fun ue => ue.current.guti
      intro ue
      rfl

end Ues

end OgsDp.Amf
