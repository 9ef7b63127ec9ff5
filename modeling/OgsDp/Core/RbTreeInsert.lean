import OgsDp.Core.RbTree

/-!
# Insertion into a red-black tree (lib/core/ogs-rbtree.c)

The loop goes up two nodes in a round. What it has still to mend is at the end of the path: a red
node, which has no place there if its parent is red.
-/

namespace OgsDp.Core
open Lib.RedBlack ColorTree Spine RbNode List

namespace RbTree

variable {s : RbTree} {p : Spine Nat} {f g : Frame Nat} {t a b e : ColorTree Nat} {d : Side}
  {c : Color} {x y z : Nat} {n rounds : Nat}

theorem linkNode_at (h : s.At p .leaf) (hx : x∉ids p) (hd : ∀ f∈p.head?,f.side=d) :
    (s.rbLinkNode x (above p) d).At p (fork d .red .leaf x .leaf) := by
  have hnew : (fork d .red .leaf x .leaf : ColorTree Nat).inorder=[x] := by
    rw [inorder_fork]
    cases d <;> rfl
  have hnodup : ((fork d .red .leaf x .leaf : ColorTree Nat).inorder++ids p).Nodup := by
    rw [hnew]
    exact nodup_cons.mpr ⟨hx,h.ids_nodup⟩
  have hof : (⟨above p,none,none,.red⟩ : RbNode)=of d (above p) none none .red := by
    cases d <;> rfl
  cases p with
  | nil =>
    refine ⟨owns_fork.mpr ⟨?_,trivial,trivial⟩,trivial,?_,hnodup⟩
    · exact (write_self s x _).trans hof
    · rw [top_fork]
      rfl
  | cons f p =>
    obtain ⟨hf,hs,hp⟩ := h.path
    have hne : x≠f.val ∧ x∉f.sibling.inorder ∧ x∉ids p := by
      simpa [ids,not_or] using hx
    obtain ⟨hxf,hxs,hxp⟩ := hne
    have hin:=h.ids_nodup
    rw [ids,nodup_cons,mem_append,not_or] at hin
    obtain ⟨⟨hfs,hfp⟩,-⟩ := hin
    have hside : f.side=d := hd f rfl
    have hother : ∀ y,y≠x → y≠f.val →
        (s.rbLinkNode x (above (f::p)) d).node y=s.node y := by
      intro y hyx hyf
      show ((s.write x _).write f.val _).node y=_
      rw [write_ne _ _ hyf,write_ne _ _ hyx]
    refine ⟨owns_fork.mpr ⟨?_,trivial,trivial⟩,?_,?_,hnodup⟩
    · show ((s.write x _).write f.val _).node x=_
      rw [write_ne _ _ hxf,write_self,hof]
      rfl
    · rw [top_fork]
      refine ⟨?_,hs.congr fun y hy => ?_,hp.congr fun y hy => ?_⟩
      · show ((s.write x _).write f.val _).node f.val=_
        rw [write_self,write_ne _ _ (Ne.symm hxf),hf,← hside,of_setChild]
      · exact hother y (fun he => hxs (he ▸ hy)) fun he => hfs (he ▸ hy)
      · exact hother y (fun he => hxp (he ▸ hy)) fun he => hfp (he ▸ hy)
    · rw [top_fork]
      exact h.root

theorem flip_at {df du : Side} {a' b' : ColorTree Nat} {cu cf : Color} {u : Nat}
    (h : s.At p (fork d c (fork df cf a y b) x (fork du cu a' u b'))) :
    (s.flip u y x).At p (fork d .red (fork df .black a y b) x (fork du .black a' u b')) := by
  have hu:=at_far.mpr ((at_far.mp h).setColor .black)
  have hy:=at_near.mpr ((at_near.mp hu).setColor .black)
  exact hy.setColor .red

theorem turn_outer (h : s.At p (fork d c (fork d .red t y b) x e)) (ht : t.top=some z) :
    ∃ s',s.turn d z y x=some (s',z) ∧
      s'.At p (fork d .black t y (fork d .red b x e)) := by
  have hy:=at_near.mp h
  have hz:=at_near.mp hy
  have hnot : (some z=(s.node y).child d.other)=False := by
    rw [hy.node_top,of_child_other,eq_iff_iff,iff_false]
    intro he
    exact (hy.apart.2.2.2.2.2.1 z (top_mem ht)).1 (top_mem he.symm)
  obtain ⟨s',hrot,hs'⟩ := rotate_other_at ((at_near.mpr (hy.setColor .black)).setColor .red)
  refine ⟨s',?_,hs'⟩
  unfold turn
  simp only [hnot,if_false,hz.parent_top ht]
  show Option.map _ (((s.setColor y .black).setColor x .red).rbRotate d.other x)=_
  rw [hrot]
  rfl

theorem turn_inner {ct : Color} {e' : ColorTree Nat}
    (h : s.At p (fork d c (fork d .red b y (fork d ct a z e')) x e)) :
    ∃ s',s.turn d z y x=some (s',y) ∧
      s'.At p (fork d .black (fork d .red b y a) z (fork d .red e' x e)) := by
  have hy:=at_near.mp h
  obtain ⟨s₁,hrot₁,hs₁⟩ := rotate_at hy
  have hz : (s₁.node y).parent=some z := (at_near.mp hs₁).parent_top (top_fork ..)
  obtain ⟨s',hrot,hs'⟩ := rotate_other_at ((at_near.mpr (hs₁.setColor .black)).setColor .red)
  refine ⟨s',?_,hs'⟩
  have hinner : some z=(s.node y).child d.other := by
    rw [hy.node_top,of_child_other,top_fork]
  unfold turn
  rw [if_pos hinner,hrot₁]
  simp only [Option.map_some,hz]
  rw [hrot]
  rfl

theorem insertLoop_done (h : s.At p t) (ht : t.top=some x) (hp : ∀ f∈p.head?,f.color = .black) :
    insertLoop (rounds+1) s x=some s := by
  have hred : s.redAt (s.node x).parent=none := by
    rw [h.parent_top ht]
    cases p with
    | nil => rfl
    | cons f p =>
      have hf:=at_cons.mp h
      have hredAt:=hf.redAt
      rw [Frame.fill,top_fork,color_fork,hp f rfl] at hredAt
      exact hredAt
  rw [insertLoop,hred]

theorem insertLoop_round (h : s.At (f::g::p) t) (ht : t.top=some x) (hf : f.color = .red) :
    insertLoop (rounds+1) s x =
      match s.insertRound g.side x f.val g.val with
      | none => none
      | some (s,node) => insertLoop rounds s node := by
  have hpar:=at_cons.mp h
  have hgpar:=at_cons.mp hpar
  have hred : s.redAt (s.node x).parent=some f.val := by
    rw [h.parent_top ht]
    have hredAt:=hpar.redAt
    rw [Frame.fill,top_fork,color_fork,hf] at hredAt
    exact hredAt
  have hup : (s.node f.val).parent=some g.val := hpar.parent_top (top_fork ..)
  have hside : (if some f.val=(s.node g.val).left then Side.left else .right)=g.side := by
    have hg:=hpar.node_frame
    rw [Frame.fill,top_fork] at hg
    rw [hg]
    cases hd : g.side with
    | left => exact if_pos rfl
    | right =>
      refine if_neg fun he => ?_
      have hmem:=top_mem (x := f.val) (t := g.sibling) he.symm
      have hapart:=hgpar.apart
      exact (hapart.2.2.2.2.2.1 f.val (top_mem (top_fork ..))).1 hmem
  rw [insertLoop,hred]
  simp only [hup,hside] <;> rfl

theorem insertRound_flip (h : s.At (f::g::p) t) (hf : f.color = .red) (hrb : RB t .red n)
    (hfs : RB f.sibling .black n) (hs : RB g.sibling .red n) (x : Nat) :
    ∃ s' T,s.insertRound g.side x f.val g.val=some (s',g.val) ∧ s'.At p T ∧
      T.inorder=(g.fill (f.fill t)).inorder ∧ T.top=some g.val ∧ RB T .red (n+1) := by
  have hg:=at_cons.mp (at_cons.mp h)
  rw [Frame.fill,Frame.fill,hf] at hg
  rcases eq_fork .left g.sibling with hleaf | ⟨c,a,u,b,hfork⟩
  · rw [hleaf] at hs
    cases hs
  · have hc : c = .red := by
      have hcolor:=hs.color_eq
      rwa [hfork,color_fork] at hcolor
    rw [hfork] at hg
    have huncle : s.redAt ((s.node g.val).child g.side.other)=some u := by
      have hred:=(at_far.mp hg).redAt
      rw [color_fork,top_fork,if_pos hc] at hred
      rw [hg.node_top,of_child_other,top_fork,hred]
    have hflip:=flip_at hg
    refine ⟨_,_,?_,hflip,?_,top_fork ..,?_⟩
    · rw [insertRound,huncle]
    · simp only [Frame.fill,inorder_fork,hfork]
    · have hblack:=hs.paint_red
      rw [hfork,paint_fork] at hblack
      exact (hrb.fork_black f.side f.val hfs).fork_red g.side g.val hblack

theorem insertRound_turn (h : s.At (f::g::p) t) (ht : t.top=some x)
    (hf : f.color = .red) (hrb : RB t .red n) (hfs : RB f.sibling .black n)
    (hs : RB g.sibling .black n) :
    ∃ s' node T,s.insertRound g.side x f.val g.val=some (s',node) ∧ s'.At p T ∧
      T.inorder=(g.fill (f.fill t)).inorder ∧ RB T .black (n+1) ∧
      ∀ rounds,insertLoop (rounds+1) s' node=some s' := by
  have hg:=at_cons.mp (at_cons.mp h)
  rw [Frame.fill,Frame.fill,hf] at hg
  have huncle : s.redAt ((s.node g.val).child g.side.other)=none := by
    have hred:=(at_far.mp hg).redAt
    rw [hg.node_top,of_child_other,hred,hs.color_eq]
    rfl
  unfold insertRound
  rw [huncle]
  by_cases hside : f.side=g.side
  · rw [hside] at hg
    obtain ⟨s',hturn,hs'⟩ := turn_outer hg ht
    refine ⟨s',x,_,hturn,hs',?_,?_,?_⟩
    · simp only [Frame.fill,inorder_fork,hside]
      cases g.side <;> simp [Side.join]
    · exact hrb.fork_black g.side f.val (hfs.fork_red g.side g.val hs)
    · intro rounds
      exact insertLoop_done (at_near.mp hs') ht (by simp)
  · have hother:=Side.eq_other_of_ne hside
    rw [hother,fork_other] at hg
    rcases eq_fork g.side t with rfl | ⟨c,a,y,b,rfl⟩
    · cases ht
    · rw [top_fork] at ht
      cases ht
      have hc:=hrb.color_eq
      rw [color_fork] at hc
      subst hc
      obtain ⟨-,ha,hb⟩ := rb_red_iff.mp hrb
      obtain ⟨s',hturn,hs'⟩ := turn_inner hg
      refine ⟨s',f.val,_,hturn,hs',?_,?_,?_⟩
      · simp only [Frame.fill,inorder_fork,hother,Side.join_other]
        cases g.side <;> simp [Side.join]
      · exact (hfs.fork_red g.side f.val ha).fork_black g.side x (hb.fork_red g.side g.val hs)
      · intro rounds
        exact insertLoop_done (at_near.mp hs') (top_fork ..) (by simp)

/-- Whatever stands at the end of the path, the loop ends in a red-black tree with the same nodes
in the same order, but for the color of its root. -/
theorem insertLoop_spec (p : Spine Nat) {s : RbTree} {t : ColorTree Nat} {x n rounds : Nat}
    (h : s.At p t) (ht : t.top=some x) (hrb : RB t .red n) (hp : Admits p .black n)
    (hr : p.length < rounds) :
    ∃ s' t',insertLoop rounds s x=some s' ∧ s'.At [] t' ∧
      t'.inorder=(plug p t).inorder ∧ ∃ c k,RB t' c k := by
  obtain ⟨r,rfl⟩ : ∃ r,rounds=r+1 := ⟨rounds-1,by omega⟩
  match p with
  | [] => exact ⟨s,t,insertLoop_done h ht (by simp),h,rfl,.red,n,hrb⟩
  | f::p =>
    cases hf : f.color with
    | black =>
      have hred : Admits (f::p) .red n := (admits_black hf).mpr ((admits_black hf).mp hp)
      obtain ⟨k,hk⟩ := hred.plug hrb
      exact ⟨s,_,insertLoop_done h ht (by simp [hf]),at_plug.mp h,rfl,.black,k,hk⟩
    | red =>
      obtain ⟨-,hfs,hup⟩ := (admits_red hf).mp hp
      match p with
      | [] => exact nomatch hup
      | g::p =>
        have hg : g.color = .black := by
          cases hc : g.color with
          | black => rfl
          | red => exact nomatch ((admits_red hc).mp hup).1
        obtain ⟨⟨cu,hs⟩,hadm⟩ := (admits_black hg).mp hup
        rw [insertLoop_round h ht hf]
        cases cu with
        | red =>
          obtain ⟨s₁,T,hround,hs₁,hin,htop,hT⟩ :=
            insertRound_flip h hf hrb hfs hs x
          rw [hround]
          have hlt : p.length < r := by
            simp only [length_cons] at hr
            omega
          obtain ⟨s',t',hloop,hs',hin',hrb'⟩ := insertLoop_spec p hs₁ htop hT hadm hlt
          refine ⟨s',t',hloop,hs',?_,hrb'⟩
          rw [hin',plug,plug,inorder_plug,inorder_plug,hin]
        | black =>
          obtain ⟨s₁,node,T,hround,hs₁,hin,hT,hdone⟩ :=
            insertRound_turn h ht hf hrb hfs hs
          obtain ⟨r',rfl⟩ : ∃ r',r=r'+1 := by
            simp only [length_cons] at hr
            exact ⟨r-1,by omega⟩
          rw [hround]
          obtain ⟨k,hk⟩ := hadm.plug hT
          refine ⟨s₁,_,hdone r',at_plug.mp hs₁,?_,.black,k,hk⟩
          rw [plug,plug,inorder_plug,inorder_plug,hin]

theorem insertColor_spec (h : s.At p (fork d .red .leaf x .leaf)) (hp : Admits p .black 0)
    (hr : p.length < rounds) :
    ∃ s' t',s.insertColor rounds x=some s' ∧ s'.At [] t' ∧
      t'.inorder=before p++x::after p ∧ ∃ k,RB t' .black k := by
  have hrb : RB (fork d .red .leaf x .leaf : ColorTree Nat) .red 0 := RB.leaf.fork_red d x .leaf
  obtain ⟨s',t',hloop,hs',hin,c,k,hk⟩ := insertLoop_spec p h (top_fork ..) hrb hp hr
  have hin : t'.inorder=before p++x::after p := by
    rw [hin,inorder_plug,inorder_fork]
    cases d <;> simp [Side.join]
  rcases eq_fork .left t' with rfl | ⟨c',a,y,b,rfl⟩
  · simp at hin
  · have hroot : s'.root=some y := hs'.root.trans (top_fork ..)
    obtain ⟨k',hk'⟩ := hk.paint_black
    rw [paint_fork] at hk'
    refine ⟨_,_,?_,hs'.setColor .black,?_,k',hk'⟩
    · rw [insertColor,hloop]
      simp only [hroot]
    · rw [inorder_fork] at hin ⊢
      exact hin

end RbTree
end OgsDp.Core
