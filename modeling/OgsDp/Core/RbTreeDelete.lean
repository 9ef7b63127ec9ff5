import OgsDp.Core.RbTree

/-!
# Deletion from a red-black tree (lib/core/ogs-rbtree.c)

After a black node was taken out, the subtree at the end of the path has a black node too few on
each of its paths.
-/

namespace OgsDp.Core
open Lib.RedBlack ColorTree Spine RbNode List Option

namespace RbTree

variable {s : RbTree} {p : Spine Nat} {f : Frame Nat} {t a b : ColorTree Nat} {d : Side}
  {c ct : Color} {x y z : Nat} {q : Option Nat} {n rounds : Nat}

theorem deleteColor_succ (s : RbTree) (node parent : Option Nat) :
    rbDeleteColor (rounds+1) s node parent =
      if node≠s.root ∧ s.rbIsBlack node then
        match parent with
        | none => none
        | some p =>
          match s.deleteRound (if node=(s.node p).left then .left else .right) p with
          | none => none
          | some (s,node,parent) => rbDeleteColor rounds s node parent
      else
        match node with
        | some n => some (s.setColor n .black)
        | none => some s := rfl

theorem deleteColor_red (h : s.At p (fork d .red a x b)) (q : Option Nat) (rounds : Nat) :
    ∃ s',rbDeleteColor (rounds+1) s (some x) q=some s' ∧ s'.At p (fork d .black a x b) := by
  refine ⟨_,?_,h.setColor .black⟩
  have hblack:=h.rbIsBlack
  rw [top_fork,color_fork] at hblack
  rw [deleteColor_succ,if_neg]
  intro hand
  exact nomatch hblack.mp hand.2

theorem deleteColor_root (h : s.At [] t) (q : Option Nat) (rounds : Nat) :
    ∃ s',rbDeleteColor (rounds+1) s s.root q=some s' ∧ s'.At [] (t.paint .black) := by
  rw [deleteColor_succ,if_neg fun hand => hand.1 rfl,h.root]
  rcases eq_fork .left t with rfl | ⟨c,a,x,b,rfl⟩
  · exact ⟨s,rfl,h⟩
  · rw [paint_fork,rootOf,top_fork]
    exact ⟨_,rfl,h.setColor .black⟩

theorem rootOf_mem (f : Frame Nat) (p : Spine Nat) (hole : Option Nat) :
    ∃ r∈ids (f::p),rootOf (f::p) hole=some r := by
  induction p generalizing f hole with
  | nil => exact ⟨f.val,mem_cons_self ..,rfl⟩
  | cons g p ih =>
    obtain ⟨r,hr,he⟩ := ih g (some f.val)
    exact ⟨r,by simp only [ids,mem_cons,mem_append] at hr ⊢; tauto,he⟩

theorem deleteColor_round (h : s.At (f::p) t) (ht : t.color = .black)
    (hne : t.top≠f.sibling.top) (rounds : Nat) :
    rbDeleteColor (rounds+1) s t.top (some f.val) =
      match s.deleteRound f.side f.val with
      | none => none
      | some (s,node,parent) => rbDeleteColor rounds s node parent := by
  have hroot : t.top≠s.root := by
    obtain ⟨r,hr,he⟩ := rootOf_mem f p t.top
    rw [h.root,he]
    intro htop
    exact (nodup_append'.mp h.nodup).2.2 (top_mem htop) hr
  have hside : (if t.top=(s.node f.val).left then Side.left else .right)=f.side := by
    rw [h.node_frame]
    cases hd : f.side with
    | left => exact if_pos rfl
    | right => exact if_neg hne
  rw [deleteColor_succ,if_pos ⟨hroot,h.rbIsBlack.mpr ht⟩]
  simp only [hside]

theorem redSibling_black (h : s.At p (fork d c t x (fork d .black a y b))) :
    s.redSibling d x y=some (s,y) := by
  have hy:=(at_far.mp h).node_top
  rw [redSibling,hy,of_color,if_neg (by decide)]

theorem redSibling_red (h : s.At p (fork d c t x (fork d .red a y b))) (ha : a.top=some z) :
    ∃ s',s.redSibling d x y=some (s',z) ∧
      s'.At p (fork d .black (fork d .red t x a) y b) := by
  have hy:=(at_far.mp h).node_top
  obtain ⟨s',hrot,hs'⟩ :=
    rotate_at ((at_far.mpr ((at_far.mp h).setColor .black)).setColor .red)
  refine ⟨s',?_,hs'⟩
  have hx:=(at_near.mp hs').node_top
  rw [redSibling,hy,of_color,if_pos rfl,hrot]
  simp only [hx,of_child_other,ha,map_some]

theorem both_black (h : s.At p (fork d c a y b)) :
    (s.rbIsBlack (s.node y).left ∧ s.rbIsBlack (s.node y).right) ↔
      a.color = .black ∧ b.color = .black := by
  have ha:=(at_near.mp h).rbIsBlack
  have hb:=(at_far.mp h).rbIsBlack
  rw [h.node_top,← ha,← hb]
  cases d with
  | left => exact Iff.rfl
  | right => exact and_comm

theorem blackSibling_flip (h : s.At p (fork d c t x (fork d .black a y b)))
    (ha : a.color = .black) (hb : b.color = .black) :
    ∃ s',s.blackSibling d x y=some (s',some x,above p) ∧
      s'.At p (fork d c t x (fork d .red a y b)) := by
  have hs':=at_far.mpr ((at_far.mp h).setColor .red)
  refine ⟨_,?_,hs'⟩
  rw [blackSibling,if_pos ((both_black (at_far.mp h)).mpr ⟨ha,hb⟩)]
  simp only [hs'.parent_top (top_fork ..)]

theorem redOuter_at {cy cb : Color} {e : Side} {b' : ColorTree Nat} {o : Nat}
    (h : s.At p (fork d c t x (fork d cy a y (fork e cb b o b')))) :
    ∃ s',s.redOuter d x y=some s' ∧
      s'.At p (fork d c (fork d .black t x a) y (fork e .black b o b')) := by
  have hx:=h.node_top
  have hy:=(at_far.mp h).node_top
  have hcol:=(at_far.mpr ((at_far.mp h).setColor c)).setColor .black
  have hpaint:=at_far.mpr (at_far.mpr ((at_far.mp (at_far.mp hcol)).setColor .black))
  obtain ⟨s',hrot,hs'⟩ := rotate_at hpaint
  refine ⟨s',?_,hs'⟩
  rw [redOuter,hy,of_child_other,top_fork]
  simp only [hx,of_color]
  exact hrot

theorem blackOuter_red (h : s.At p (fork d c t x (fork d .black a y b))) (hb : b.color = .red) :
    s.blackOuter d x y=some (s,y) := by
  have hy:=at_far.mp h
  have hblack:=(at_far.mp hy).rbIsBlack
  rw [blackOuter,hy.node_top,of_child_other,if_neg]
  intro hout
  rw [hblack,hb] at hout
  cases hout

theorem blackOuter_black {a' : ColorTree Nat} {e : Color}
    (h : s.At p (fork d c t x (fork d .black (fork d e a z a') y b))) (hb : b.color = .black) :
    ∃ s',s.blackOuter d x y=some (s',z) ∧
      s'.At p (fork d c t x (fork d .black a z (fork d .red a' y b))) := by
  have hy:=at_far.mp h
  have hblack:=(at_far.mp hy).rbIsBlack
  have hpaint:=(at_near.mpr ((at_near.mp hy).setColor .black)).setColor .red
  obtain ⟨s',hrot,hs'⟩ := rotate_other_at hpaint
  have hs':=at_far.mpr hs'
  refine ⟨s',?_,hs'⟩
  rw [blackOuter,hy.node_top,of_child_other,if_pos (hblack.mpr hb),of_child,top_fork]
  simp only [hrot,hs'.node_top,of_child_other,top_fork,map_some]

theorem blackSibling_turn (h : s.At p (fork d c t x (fork d .black a y b))) {ca cb : Color}
    (ht : RB t ct n) (ha : RB a ca n) (hb : RB b cb n)
    (hred : ¬ (a.color = .black ∧ b.color = .black)) :
    ∃ s' a' y' b',s.blackSibling d x y=some (s',s'.root,some x) ∧
      s'.At p (fork d c (fork d .black t x a') y' b') ∧
      (fork d c (fork d .black t x a') y' b').inorder =
        (fork d c t x (fork d .black a y b)).inorder ∧
      RB (fork d .black t x a') .black (n+1) ∧ RB b' .black (n+1) := by
  rw [blackSibling,if_neg fun hboth => hred ((both_black (at_far.mp h)).mp hboth)]
  cases cb with
  | red =>
    rcases eq_fork d b with rfl | ⟨cb,b₁,o,b₂,rfl⟩
    · cases hb
    · obtain ⟨s',hout,hs'⟩ := redOuter_at h
      have hpaint:=hb.paint_red
      rw [paint_fork] at hpaint
      refine ⟨s',a,y,_,?_,hs',?_,ht.fork_black d x ha,hpaint⟩
      · rw [blackOuter_red h hb.color_eq]
        simp only [hout,map_some]
      · simp only [inorder_fork]
        cases d <;> simp [Side.join]
  | black =>
    have hca : ca = .red := by
      cases ca with
      | red => rfl
      | black => exact absurd ⟨ha.color_eq,hb.color_eq⟩ hred
    subst hca
    rcases eq_fork d a with rfl | ⟨e,a₁,z,a₂,rfl⟩
    · cases ha
    · have he:=ha.color_eq
      rw [color_fork] at he
      subst he
      obtain ⟨-,ha₁,ha₂⟩ := rb_red_iff.mp ha
      obtain ⟨s₁,hblack,hs₁⟩ := blackOuter_black h hb.color_eq
      obtain ⟨s',hout,hs'⟩ := redOuter_at hs₁
      refine ⟨s',a₁,z,_,?_,hs',?_,ht.fork_black d x ha₁,ha₂.fork_black d y hb⟩
      · rw [hblack]
        simp only [hout,map_some]
      · simp only [inorder_fork]
        cases d <;> simp [Side.join]

theorem blackSibling_spec (h : s.At p (fork d c t x (fork d .black a y b)))
    (ht : RB t ct n) (hs : RB (fork d .black a y b) .black (n+1))
    (hp : Admits (⟨d,c,x,fork d .black a y b⟩::p) .black (n+1)) :
    ∃ s' node q,s.blackSibling d x y=some (s',node,q) ∧
      ((c = .black ∧ node=some x ∧ q=above p ∧
          s'.At p (fork d .black t x (fork d .red a y b)) ∧ RB (fork d .red a y b) .red n) ∨
        ∀ rounds,∃ s'' t'',rbDeleteColor (rounds+1) s' node q=some s'' ∧ s''.At [] t'' ∧
          t''.inorder=(plug p (fork d c t x (fork d .black a y b))).inorder ∧
          ∃ k,RB t'' .black k) := by
  obtain ⟨-,k,hk,⟨ca,ha⟩,cb,hb⟩ := rb_black_iff.mp hs
  obtain rfl : k=n := by omega
  by_cases hcolors : a.color = .black ∧ b.color = .black
  · obtain ⟨hca,hcb⟩ := hcolors
    rw [ha.color_eq] at hca
    rw [hb.color_eq] at hcb
    subst hca hcb
    obtain ⟨s',hflip,hs'⟩ := blackSibling_flip h ha.color_eq hb.color_eq
    have hred:=ha.fork_red d y hb
    refine ⟨s',_,_,hflip,?_⟩
    cases c with
    | black => exact .inl ⟨rfl,rfl,rfl,hs',hred⟩
    | red =>
      refine .inr fun rounds => ?_
      obtain ⟨s'',hdone,hs''⟩ := deleteColor_red hs' (above p) rounds
      obtain ⟨-,-,hup⟩ := (admits_red rfl).mp hp
      obtain ⟨k,hk⟩ := hup.black.plug (ht.fork_black d x hred)
      refine ⟨s'',_,hdone,at_plug.mp hs'',?_,k,hk⟩
      rw [inorder_plug,inorder_plug]
      simp only [inorder_fork]
  · obtain ⟨s',a',y',b',hturn,hs',hin,hnear,hb'⟩ := blackSibling_turn h ht ha hb hcolors
    refine ⟨s',_,_,hturn,.inr fun rounds => ?_⟩
    obtain ⟨s'',hdone,hs''⟩ := deleteColor_root (at_plug.mp hs') (some x) rounds
    have hrb : ∃ k,RB (plug p (fork d c (fork d .black t x a') y' b')) .black k := by
      cases c with
      | red => exact ((admits_red rfl).mp hp).2.2.plug (hnear.fork_red d y' hb')
      | black => exact ((admits_black rfl).mp hp).2.plug (hnear.fork_black d y' hb')
    obtain ⟨k,hk⟩ := hrb
    obtain ⟨k',hk'⟩ := hk.paint_black
    refine ⟨s'',_,hdone,hs'',?_,k',hk'⟩
    rw [inorder_paint,inorder_plug,inorder_plug,hin]

/-- A subtree with a black node too few: the loop ends in a red-black tree with the same nodes in
the same order. -/
theorem deleteColor_spec (p : Spine Nat) {s : RbTree} {t : ColorTree Nat} {c : Color} {n rounds : Nat}
    (h : s.At p t) (ht : RB t c n) (hp : Admits p .black (n+1)) (hr : p.length+1 < rounds) :
    ∃ s' t',rbDeleteColor rounds s t.top (above p)=some s' ∧ s'.At [] t' ∧
      t'.inorder=(plug p t).inorder ∧ ∃ k,RB t' .black k := by
  obtain ⟨r,rfl⟩ : ∃ r,rounds=r+1 := ⟨rounds-1,by omega⟩
  match p with
  | [] =>
    obtain ⟨s',hdone,hs'⟩ := deleteColor_root h (above []) r
    have hroot : s.root=t.top := h.root
    rw [hroot] at hdone
    obtain ⟨k,hk⟩ := ht.paint_black
    exact ⟨s',_,hdone,hs',inorder_paint ..,k,hk⟩
  | f::p =>
    cases c with
    | red =>
      rcases eq_fork .left t with rfl | ⟨c,a,x,b,rfl⟩
      · cases ht
      · have hc:=ht.color_eq
        rw [color_fork] at hc
        subst hc
        obtain ⟨s',hdone,hs'⟩ := deleteColor_red h (above (f::p)) r
        have hpaint:=ht.paint_red
        rw [paint_fork] at hpaint
        obtain ⟨k,hk⟩ := hp.plug hpaint
        rw [top_fork]
        refine ⟨s',_,hdone,at_plug.mp hs',?_,k,hk⟩
        rw [inorder_plug,inorder_plug]
        simp only [inorder_fork]
    | black =>
      obtain ⟨d,cf,x,sib⟩ := f
      have hsib : ∃ cs,RB sib cs (n+1) := by
        cases cf with
        | red => exact ⟨.black,((admits_red rfl).mp hp).2.1⟩
        | black => exact ((admits_black rfl).mp hp).1
      obtain ⟨cs,hs⟩ := hsib
      rcases eq_fork d sib with rfl | ⟨cs',a,y,b,rfl⟩
      · cases hs
      obtain rfl : cs'=cs := by
        have hc:=hs.color_eq
        rwa [color_fork] at hc
      have hfork:=at_near.mpr h
      have hne : t.top≠(fork d cs' a y b).top := by
        intro htop
        rw [top_fork] at htop
        exact (hfork.apart.2.2.2.2.2.1 y (top_mem htop)).1 (top_mem (top_fork ..))
      have hlt : p.length+1 < r := by
        simp only [length_cons] at hr
        omega
      have hround:=deleteColor_round h ht.color_eq hne r
      have hchild : (s.node x).child d.other=some y := by
        rw [hfork.node_top,of_child_other,top_fork]
      simp only [deleteRound,hchild] at hround
      cases cs' with
      | black =>
        obtain ⟨s₁,node,q,hblack,hend⟩ := blackSibling_spec hfork ht hs hp
        simp only [redSibling_black hfork,hblack] at hround
        show ∃ s' t',rbDeleteColor (r+1) s t.top (some x)=some s' ∧ _
        rw [hround]
        rcases hend with ⟨rfl,rfl,rfl,hs₁,hred⟩ | hend
        · have hup:=((admits_black rfl).mp hp).2
          obtain ⟨s',t',hloop,hs',hin,hrb⟩ :=
            deleteColor_spec p hs₁ (ht.fork_black d x hred) hup hlt
          rw [top_fork] at hloop
          refine ⟨s',t',hloop,hs',?_,hrb⟩
          rw [hin,plug,inorder_plug,inorder_plug,Frame.fill]
          simp only [inorder_fork]
        · obtain ⟨r',rfl⟩ : ∃ r',r=r'+1 := ⟨r-1,by omega⟩
          exact hend r'
      | red =>
        obtain rfl : cf = .black := by
          cases cf with
          | black => rfl
          | red =>
            have hc:=((admits_red rfl).mp hp).2.1.color_eq
            rw [color_fork] at hc
            cases hc
        obtain ⟨-,ha,hb⟩ := rb_red_iff.mp hs
        have hup:=((admits_black rfl).mp hp).2
        rcases eq_fork d a with rfl | ⟨ca,a₁,z,a₂,rfl⟩
        · cases ha
        obtain rfl : ca = .black := by
          have hc:=ha.color_eq
          rwa [color_fork] at hc
        obtain ⟨s₁,hrot,hs₁⟩ := redSibling_red hfork (top_fork ..)
        have hadm : Admits (⟨d,.red,x,fork d .black a₁ z a₂⟩::⟨d,.black,y,b⟩::p) .black
            (n+1) :=
          (admits_red rfl).mpr ⟨rfl,ha,(admits_black rfl).mpr ⟨⟨_,hb⟩,hup⟩⟩
        obtain ⟨s₂,node,q,hblack,hend⟩ := blackSibling_spec (at_near.mp hs₁) ht ha hadm
        simp only [hrot,hblack] at hround
        show ∃ s' t',rbDeleteColor (r+1) s t.top (some x)=some s' ∧ _
        rw [hround]
        rcases hend with ⟨hc,-⟩ | hend
        · cases hc
        · obtain ⟨r',rfl⟩ : ∃ r',r=r'+1 := ⟨r-1,by omega⟩
          obtain ⟨s',t',hdone,hs',hin,hrb⟩ := hend r'
          refine ⟨s',t',hdone,hs',?_,hrb⟩
          rw [hin,plug,plug,inorder_plug,inorder_plug,Frame.fill,Frame.fill]
          simp only [inorder_fork]
          cases d <;> simp [Side.join]

theorem afterUnlink_spec (h : s.At p t) (hold : RB (fork d c .leaf x t) ct n) (hp : Admits p ct n)
    (hr : p.length+1 < rounds) :
    ∃ s' t',(if c = .black then rbDeleteColor rounds s t.top (above p) else some s)=some s' ∧
      s'.At [] t' ∧ t'.inorder=(plug p t).inorder ∧ ∃ k,RB t' .black k := by
  cases c with
  | red =>
    obtain ⟨rfl,-,ht⟩ := rb_red_iff.mp hold
    obtain ⟨k,hk⟩ := hp.black.plug ht
    exact ⟨s,_,rfl,at_plug.mp h,rfl,k,hk⟩
  | black =>
    obtain ⟨rfl,k,rfl,-,cb,ht⟩ := rb_black_iff.mp hold
    exact deleteColor_spec p h ht hp hr

theorem write_comm {m m' : RbNode} (s : RbTree) (h : x≠y) :
    (s.write x m).write y m'=(s.write y m').write x m := by
  simp only [write,Function.update_comm h]

theorem setParentOf_setChild (s : RbTree) (q r hole : Option Nat) (h : q≠some y) :
    (s.setParentOf q r).setChild y d hole=(s.setChild y d hole).setParentOf q r := by
  cases q with
  | none => rfl
  | some x =>
    have hne : x≠y := fun he => h (congrArg some he)
    simp only [setParentOf,setParent,setChild]
    rw [write_ne _ _ hne,write_ne _ _ (Ne.symm hne),write_comm _ hne]

theorem setParentOf_setParent (s : RbTree) (q r r' : Option Nat) (h : q≠some x) :
    (s.setParent x r).setParentOf q r'=(s.setParentOf q r').setParent x r := by
  cases q with
  | none => rfl
  | some y =>
    have hne : y≠x := fun he => h (congrArg some he)
    simp only [setParentOf,setParent]
    rw [write_ne _ _ hne,write_ne _ _ (Ne.symm hne),write_comm _ hne]

theorem setParent_setChild (s : RbTree) (q hole : Option Nat) (h : x≠y) :
    (s.setParent x q).setChild y d hole=(s.setChild y d hole).setParent x q := by
  simp only [setParent,setChild]
  rw [write_ne _ _ h,write_ne _ _ (Ne.symm h),write_comm _ h]

theorem setChild_comm {e : Side} (s : RbTree) (q r : Option Nat) (h : x≠y) :
    (s.setChild x d q).setChild y e r=(s.setChild y e r).setChild x d q := by
  simp only [setChild]
  rw [write_ne _ _ h,write_ne _ _ (Ne.symm h),write_comm _ h]

theorem takePlace_at {l r : ColorTree Nat} {c' : Color} {new : Nat}
    (hpath : OwnsPath s.node p (some x)) (hroot : s.root=rootOf p (some x))
    (hx : x∉ids p) (hxc : (s.node x).color=c) (hxp : (s.node x).parent=above p)
    (hnew : s.node new=⟨q,l.top,r.top,c'⟩) (hl : Owns s.node l (some new))
    (hr : Owns s.node r (some new)) (hne : x≠new)
    (hn : ((ColorTree.node c l new r).inorder++ids p).Nodup) :
    ((s.setColor new (s.node x).color).rbReplaceNode (some x) (some new)
      ((s.setColor new (s.node x).color).node x).parent).At p (.node c l new r) := by
  obtain ⟨htn,-,hdisj⟩ := nodup_append'.mp hn
  have htn':=nodup_cons.mp (List.nodup_middle.mp htn)
  have hnot : new∉l.inorder ∧ new∉r.inorder := by
    rw [← not_or,← mem_append]
    exact htn'.1
  have hother : ∀ y,y≠new → (s.setColor new (s.node x).color).node y=s.node y :=
    fun y hy => s.write_ne _ hy
  rw [hother x hne,hxp]
  apply replaceNode_at (t := .node c l new r) (q := q)
  · refine hpath.congr fun y hy => hother y fun he => ?_
    exact hdisj (by simp [inorder]) (he ▸ hy)
  · exact hroot
  · exact hx
  · refine ⟨?_,hl.congr fun y hy => hother y fun he => hnot.1 (he ▸ hy),
      hr.congr fun y hy => hother y fun he => hnot.2 (he ▸ hy)⟩
    show (s.write new _).node new=_
    rw [write_self,hnew,hxc]
  · exact hn

theorem adoptLeft {l r : ColorTree Nat} {new lt : Nat} {m : RbNode} (h : s.At p (.node c l x r))
    (hl : l.top=some lt) (hm : s.node new=m) (hnew : new∉l.inorder) (hp : new∉ids p) :
    let t:=(s.setChild new .left (some lt)).setParent lt (some new)
    Owns t.node l (some new) ∧ OwnsPath t.node p (some x) ∧ t.root=s.root ∧
      t.node new = { m with left := l.top } ∧
      ∀ y,y≠new → y∉l.inorder → t.node y=s.node y := by
  have hlt:=top_mem hl
  have hln : lt≠new := fun he => hnew (he ▸ hlt)
  have hfork : s.At p (fork .left c l x r) := h
  obtain ⟨-,-,-,hln',-,hlp,-⟩ := hfork.apart
  obtain ⟨-,hown,-⟩ := h.owns
  intro t
  have ht : ∀ y,y≠new → y≠lt → t.node y=s.node y := by
    intro y hy hyl
    show (((s.setChild new .left (some lt)).write lt _)).node y=_
    rw [write_ne _ _ hyl,setChild,write_ne _ _ hy]
  refine ⟨hown.reparent hln' ?_ ?_,?_,rfl,?_,?_⟩
  · intro y hy
    rw [hl] at hy
    cases hy
    show (((s.setChild new .left (some lt)).write lt _)).node lt=_
    rw [write_self,setChild,write_ne _ _ hln]
  · intro y hy hne
    exact ht y (fun he => hnew (he ▸ hy)) fun he => hne (he ▸ hl)
  · refine h.path.congr fun y hy => ht y (fun he => hp (he ▸ hy)) fun he => ?_
    exact (hlp lt hlt).2 (he ▸ hy)
  · show (((s.setChild new .left (some lt)).write lt _)).node new=_
    rw [write_ne _ _ (Ne.symm hln),setChild,write_self,hm,hl]
    rfl
  · intro y hy hyl
    exact ht y hy fun he => hyl (he ▸ hlt)

theorem supplant_near {l rc : ColorTree Nat} {cn : Color} {new lt : Nat} (rt : Nat)
    (h : s.At p (.node c l x (.node cn .leaf new rc))) (hl : l.top=some lt) :
    ∃ s',s.supplant x lt rt new=some (s',some new) ∧ s'.At p (.node c l new rc) := by
  have hfork : s.At p (fork .left c l x (.node cn .leaf new rc)) := h
  obtain ⟨hxl,hxr,hxp,-,hrn,hlp,hrp⟩ := hfork.apart
  obtain ⟨hx,-,hnew,-,hrc⟩ := h.owns
  have hmem : new∈(ColorTree.node cn .leaf new rc).inorder := by simp [inorder]
  have hsub : ∀ y∈rc.inorder,y∈(ColorTree.node cn .leaf new rc).inorder := by
    intro y hy
    simp [inorder,hy]
  have hnl : new∉l.inorder := fun hy => (hlp new hy).1 hmem
  have hne : new≠x := fun he => hxr (he ▸ hmem)
  have hnrc : new∉rc.inorder := (nodup_cons.mp hrn).1
  obtain ⟨hown,hpath,hroot,hn',ht⟩ := adoptLeft h hl hnew hnl (hrp new hmem)
  have hxt:=ht x (Ne.symm hne) hxl
  have hplace:=takePlace_at (p := p) (x := x) (c := c) (l := l) (r := rc) hpath
    (hroot.trans h.root) hxp (by rw [hxt,hx]) (by rw [hxt,hx]) hn' hown
    (hrc.congr fun y hy => ht y (fun he => hnrc (he ▸ hy)) fun hyl => (hlp y hyl).1 (hsub y hy))
    (Ne.symm hne) ?_
  · refine ⟨_,?_,hplace⟩
    rw [supplant,hnew]
    simp only [liftSuccessor,if_pos,map_some]
  · have hnd:=h.nodup
    simp only [inorder,nil_append] at hnd ⊢
    rw [append_assoc] at hnd ⊢
    exact (nodup_cons.mp (List.nodup_middle.mp hnd)).2

theorem ids_append (w p : Spine Nat) : ids (w++p)=ids w++ids p := by
  induction w with
  | nil => rfl
  | cons f w ih => simp [ids,ih]

theorem mem_inorder_plug (w : Spine Nat) (t : ColorTree Nat) :
    x∈(plug w t).inorder ↔ x∈t.inorder ∨ x∈ids w := by
  induction w generalizing t with
  | nil => simp [plug,ids]
  | cons f w ih =>
    rw [plug,ih,Frame.fill,inorder_fork,Side.mem_join,ids,mem_cons,mem_append]
    tauto

theorem at_append (w : Spine Nat) : s.At (w++p) t ↔ s.At p (plug w t) := by
  rw [at_plug,plug_append,← at_plug]

theorem top_plug_cons (f : Frame Nat) (p : Spine Nat) (t u : ColorTree Nat) :
    (plug (f::p) t).top=(plug (f::p) u).top := by
  induction p generalizing f t u with
  | nil => simp [plug,Frame.fill]
  | cons g p ih => exact ih g (f.fill t) (f.fill u)

theorem adoptBoth {l r : ColorTree Nat} {new lt rt : Nat} (h : s.At p (.node c l x r))
    (hl : l.top=some lt) (hr : r.top=some rt) (hnl : new∉l.inorder) (hnr : new∉r.inorder)
    (hnx : new≠x) (hnp : new∉ids p) :
    let t:=(((s.setChild new .left (some lt)).setParent lt (some new)).setChild new .right
      (some rt)).setParent rt (some new)
    ((t.setColor new (t.node x).color).rbReplaceNode (some x) (some new)
      ((t.setColor new (t.node x).color).node x).parent).At p (.node c l new r) := by
  have hfork : s.At p (fork .left c l x r) := h
  obtain ⟨hxl,hxr,hxp,-,hrn,hlp,hrp⟩ := hfork.apart
  obtain ⟨hx,-,hrown⟩ := h.owns
  obtain ⟨hlown,hpath,hroot,hnew,ht₁⟩ := adoptLeft h hl rfl hnl hnp
  have hrt:=top_mem hr
  have hrtn : rt≠new := fun he => hnr (he ▸ hrt)
  intro t
  let t₁:=(s.setChild new .left (some lt)).setParent lt (some new)
  have ht : ∀ y,y≠new → y≠rt → t.node y=t₁.node y := by
    intro y hy hyr
    show ((t₁.setChild new .right (some rt)).write rt _).node y=_
    rw [write_ne _ _ hyr,setChild,write_ne _ _ hy]
  have hr₁ : ∀ y∈r.inorder,t₁.node y=s.node y := fun y hy =>
    ht₁ y (fun he => hnr (he ▸ hy)) fun hyl => (hlp y hyl).1 hy
  have hxt : t.node x=s.node x := by
    rw [ht x (Ne.symm hnx) fun he => hxr (he ▸ hrt),ht₁ x (Ne.symm hnx) hxl]
  apply takePlace_at
  · exact hpath.congr fun y hy => ht y (fun he => hnp (he ▸ hy)) fun he => hrp rt hrt (he ▸ hy)
  · exact hroot.trans h.root
  · exact hxp
  · rw [hxt,hx]
  · rw [hxt,hx]
  · show ((t₁.setChild new .right (some rt)).write rt _).node new=_
    rw [write_ne _ _ (Ne.symm hrtn),setChild,write_self,hnew,hr]
    rfl
  · refine hlown.congr fun y hy => ht y (fun he => hnl (he ▸ hy)) fun he => ?_
    exact (hlp y hy).1 (he ▸ hrt)
  · refine (hrown.congr hr₁).reparent hrn ?_ ?_
    · intro y hy
      rw [hr] at hy
      cases hy
      show ((t₁.setChild new .right (some rt)).write rt _).node rt=_
      rw [write_self,setChild,write_ne _ _ hrtn]
    · intro y hy hne
      exact ht y (fun he => hnr (he ▸ hy)) fun he => hne (he ▸ hr)
  · exact Ne.symm hnx
  · have hnd:=h.nodup
    simp only [inorder,append_assoc,cons_append] at hnd ⊢
    have hrest:=(nodup_cons.mp (List.nodup_middle.mp hnd)).2
    apply List.nodup_middle.mpr
    refine nodup_cons.mpr ⟨?_,hrest⟩
    simp only [mem_append,not_or]
    exact ⟨hnl,hnr,hnp⟩

theorem supplant_far {l rc : ColorTree Nat} {cn : Color} {new lt : Nat} (rt : Nat) {w : Spine Nat}
    (h : s.At (f::w++⟨.right,c,x,l⟩::p) (.node cn .leaf new rc)) (hf : f.side = .left)
    (hl : l.top=some lt) (hr : (plug (f::w) (.node cn .leaf new rc)).top=some rt) :
    ∃ s',s.supplant x lt rt new=some (s',some f.val) ∧
      s'.At (f::w++⟨.right,c,new,l⟩::p) rc := by
  have hfork : s.At (f::w++⟨.right,c,x,l⟩::p) (fork .left cn .leaf new rc) := h
  obtain ⟨-,hnrc,hnp,-,hrcn,-,hrcp⟩ := hfork.apart
  have hnew : s.node new=⟨some f.val,none,rc.top,cn⟩ := hfork.node_top
  -- the child takes the place of `new`
  have hchild:=replaceNode_at (t := rc) h.path h.root hnp h.owns.2.2
    (by
      have hnd:=h.nodup
      simp only [inorder,nil_append] at hnd
      exact (nodup_cons.mp hnd).2)
  have hB : At _ p (.node c l x (plug (f::w) rc)) :=
    at_cons.mp ((at_append (f::w)).mp hchild)
  have hlt:=top_mem hl
  have hin : lt∈ids (f::w++⟨.right,c,x,l⟩::p) := by
    rw [ids_append]
    simp [ids,hlt]
  have hpn:=h.ids_nodup
  rw [ids_append] at hpn hnp
  obtain ⟨-,-,hdisj⟩ := nodup_append'.mp hpn
  have hfv : f.val∈ids (f::w) := mem_cons_self ..
  have hfx : f.val≠x := fun he => hdisj hfv (by simp [ids,he])
  have hfl : lt≠f.val := fun he => hdisj hfv (by simp [ids,← he,hlt])
  have hnf : new≠f.val := fun he => hnp (by simp [ids,he])
  have hcn : rc.top≠some new := fun he => hnrc (top_mem he)
  have hcl : rc.top≠some lt := fun he => hrcp lt (top_mem he) hin
  have hcf : rc.top≠some f.val := fun he =>
    hrcp f.val (top_mem he) (by rw [ids_append]; exact mem_append_left _ hfv)
  have hreplace : s.rbReplaceNode (some new) rc.top (some f.val) =
      (s.setChild f.val .left rc.top).setParentOf rc.top (some f.val) := by
    have hnode:=h.node_frame
    rw [hf] at hnode
    rw [rbReplaceNode,rbChangeChild,hnode]
    exact congrArg (fun t => setParentOf t rc.top (some f.val)) (if_pos rfl)
  simp only [mem_append,ids,mem_cons,not_or] at hnp
  obtain ⟨⟨hnf',hns,hnw⟩,hnx,hnl,hnp'⟩ := hnp
  have hadopt:=adoptBoth hB hl ((top_plug_cons f w rc _).trans hr) hnl ?_ hnx hnp'
  · have hmem : (((s.setChild new .left (some lt)).setParent lt (some new)).setParentOf rc.top
        (some f.val)).setChild f.val .left rc.top =
        ((s.rbReplaceNode (some new) rc.top (some f.val)).setChild new .left (some lt)).setParent lt
          (some new) := by
      rw [setParentOf_setParent _ _ _ _ hcl,setParent_setChild _ _ _ hfl,
        ← setParentOf_setChild _ _ _ _ hcn,setChild_comm _ _ _ hnf,
        setParentOf_setChild _ _ _ _ hcf,hreplace]
    refine ⟨_,?_,(at_append (f::w)).mpr (at_cons.mpr hadopt)⟩
    rw [supplant,hnew]
    simp only [liftSuccessor,if_neg (fun he => hfx (some.inj he)),map_some,hmem]
    rfl
  · rw [mem_inorder_plug,ids,mem_cons,mem_append]
    tauto

theorem extreme_spec (h : s.At p t) (ht : t.top=some x) (hr : t.inorder.length < rounds) :
    ∃ w c y far,t=plug w (fork d c .leaf y far) ∧ (∀ f∈w,f.side=d) ∧
      s.extreme d rounds x=some y := by
  induction rounds generalizing p t x with
  | zero => omega
  | succ r ih =>
    rcases eq_fork d t with rfl | ⟨c,a,y,b,rfl⟩
    · cases ht
    · rw [top_fork] at ht
      cases ht
      have hlen:=((Side.join_perm d a.inorder b.inorder x)).length_eq
      rw [inorder_fork] at hr
      simp only [length_cons,length_append] at hlen
      cases ha : a.top with
      | none =>
        rw [top_eq_none ha] at h ⊢
        refine ⟨[],c,x,b,rfl,by simp,?_⟩
        rw [extreme,h.node_top,of_child]
        rfl
      | some z =>
        obtain ⟨w,c',y,far,rfl,hw,hext⟩ := ih (at_near.mp h) ha (by omega)
        refine ⟨w++[⟨d,c,x,b⟩],c',y,far,?_,?_,?_⟩
        · rw [plug_append]
          rfl
        · intro f hf
          rcases mem_append.mp hf with hf | hf
          · exact hw f hf
          · rw [mem_singleton.mp hf]
        · rw [extreme,h.node_top,of_child,ha]
          exact hext

theorem admits_val (w : Spine Nat) {l : ColorTree Nat} {e : Color} (y : Nat) :
    Admits (w++⟨d,e,x,l⟩::p) c n → Admits (w++⟨d,e,y,l⟩::p) c n := by
  induction w generalizing c n with
  | nil => exact id
  | cons f w ih =>
    intro h
    cases hf : f.color with
    | red =>
      obtain ⟨hc,hs,hup⟩ := (admits_red hf).mp h
      exact (admits_red hf).mpr ⟨hc,hs,ih hup⟩
    | black =>
      obtain ⟨hs,hup⟩ := (admits_black hf).mp h
      exact (admits_black hf).mpr ⟨hs,ih hup⟩

theorem length_le_ids (p : Spine Nat) : p.length≤(ids p).length := by
  induction p with
  | nil => exact Nat.le_refl 0
  | cons f p ih =>
    simp only [ids,length_cons,length_append]
    omega

theorem unlink_two {l r : ColorTree Nat} {lt rt : Nat} (h : s.At p (.node c l x r))
    (hl : l.top=some lt) (hr : r.top=some rt) (hrounds : r.inorder.length < rounds) :
    ∃ s' w cn new rc,s.unlinkNode rounds x =
        some (s',cn,rc.top,above (w++⟨.right,c,new,l⟩::p)) ∧
      s'.At (w++⟨.right,c,new,l⟩::p) rc ∧ r=plug w (fork .left cn .leaf new rc) ∧
      r.inorder=new::(plug w rc).inorder := by
  have hfork : s.At p (fork .left c l x r) := h
  obtain ⟨w,cn,new,rc,rfl,hw,hext⟩ :=
    extreme_spec (d := .left) (at_far.mp hfork) hr hrounds
  have hx:=h.owns.1
  have hfirst : (plug w (fork .left cn .leaf new rc)).inorder=new::(plug w rc).inorder := by
    have hbefore : before w=[] := by
      clear h hr hrounds hfork hext hx
      induction w with
      | nil => rfl
      | cons f w ih =>
        rw [before,hw f (mem_cons_self ..)]
        exact ih fun g hg => hw g (mem_cons_of_mem f hg)
    rw [inorder_plug,inorder_plug,hbefore]
    rfl
  cases w with
  | nil =>
    obtain rfl : new=rt := by
      rw [plug,top_fork] at hr
      exact some.inj hr
    obtain ⟨s',hsup,hs'⟩ := supplant_near new h hl
    have hnew:=(at_far.mp hfork).node_top
    have hat : s'.At p (fork .left c l new rc) := hs'
    refine ⟨s',[],cn,new,rc,?_,at_far.mp hat,rfl,hfirst⟩
    rw [unlinkNode,hx]
    simp only [hl,plug,top_fork,rbMin,hext,hsup,map_some]
    rw [hnew]
    rfl
  | cons f w =>
    have hat:=(at_append (f::w)).mpr (at_far.mp hfork)
    obtain ⟨s',hsup,hs'⟩ :=
      supplant_far rt hat (hw f (mem_cons_self ..)) hl hr
    have hnew : s.node new=_ := (at_append (f::w)).mpr (at_far.mp hfork) |>.node_top
    refine ⟨s',f::w,cn,new,rc,?_,hs',rfl,hfirst⟩
    rw [unlinkNode,hx]
    simp only [hl,hr,rbMin,hext,hsup,map_some]
    rw [hnew]
    rfl

theorem unlink_one (h : s.At p (fork d c .leaf x b)) (rounds : Nat) :
    ∃ s',s.unlinkNode rounds x=some (s',c,b.top,above p) ∧ s'.At p b := by
  obtain ⟨-,hxb,hxp,-⟩ := h.apart
  obtain ⟨hx,-,hb⟩ := owns_fork.mp h.owns
  have hpath:=h.path
  have hroot:=h.root
  have hnd:=((Side.join_perm d _ _ x).append_right (ids p)).nodup_iff.mp (inorder_fork ▸ h.nodup)
  rw [top_fork] at hpath hroot
  refine ⟨_,?_,replaceNode_at hpath hroot hxp hb (nodup_cons.mp hnd).2⟩
  rw [unlinkNode,hx]
  cases d with
  | left => rfl
  | right =>
    simp only [of,top_leaf]
    cases b.top with
    | none => rfl
    | some z => rfl

theorem length_plug (p : Spine Nat) (t : ColorTree Nat) :
    (plug p t).inorder.length=t.inorder.length+(ids p).length := by
  induction p generalizing t with
  | nil => rfl
  | cons f p ih =>
    have hlen:=(Side.join_perm f.side t.inorder f.sibling.inorder f.val).length_eq
    rw [plug,ih,Frame.fill,inorder_fork,ids]
    simp only [length_cons,length_append] at hlen ⊢
    omega

theorem rbDelete_spec {k : Nat} (h : s.At [] t) (hrb : RB t .black k) (hx : x∈t.inorder)
    (hr : t.inorder.length < rounds) :
    ∃ s' t',s.rbDelete rounds x=some s' ∧ s'.At [] t' ∧ t'.inorder=t.inorder.erase x ∧
      ∃ k,RB t' .black k := by
  obtain ⟨p,c,l,r,rfl⟩ := exists_plug hx
  have hat:=at_plug.mpr h
  obtain ⟨ct,n,hnode,hp⟩ := admits_of_plug hrb
  have hnd:=h.nodup
  simp only [inorder_plug,inorder,ids,append_nil,append_assoc,cons_append] at hnd
  have hxb : x∉before p := fun hb =>
    (nodup_append'.mp hnd).2.2 hb (by simp)
  have hxl : x∉l.inorder := fun hl =>
    (nodup_append'.mp (nodup_append'.mp hnd).2.1).2.2 hl (by simp)
  have herase : (plug p (.node c l x r)).inorder.erase x =
      before p++(l.inorder++(r.inorder++after p)) := by
    simp only [inorder_plug,inorder,append_assoc,cons_append]
    rw [erase_append_right _ hxb,erase_append_right _ hxl,erase_cons_head]
  rw [length_plug] at hr
  simp only [inorder,length_append,length_cons] at hr
  have hple:=length_le_ids p
  have hpr : p.length+1 < rounds := by omega
  have hrr : r.inorder.length < rounds := by omega
  rw [herase]
  cases hl : l.top with
  | none =>
    obtain rfl := top_eq_none hl
    have hfork : s.At p (fork .left c .leaf x r) := hat
    have hrb' : RB (fork .left c .leaf x r) ct n := hnode
    obtain ⟨s₁,hun,hs₁⟩ := unlink_one hfork rounds
    obtain ⟨s',t',hdone,hs',hin,hk⟩ := afterUnlink_spec hs₁ hrb' hp hpr
    refine ⟨s',t',?_,hs',?_,hk⟩
    · rw [rbDelete,hun]
      exact hdone
    · rw [hin,inorder_plug]
      simp
  | some lt =>
    cases hrt : r.top with
    | none =>
      obtain rfl := top_eq_none hrt
      have hfork : s.At p (fork .right c .leaf x l) := hat
      have hrb' : RB (fork .right c .leaf x l) ct n := hnode
      obtain ⟨s₁,hun,hs₁⟩ := unlink_one hfork rounds
      obtain ⟨s',t',hdone,hs',hin,hk⟩ := afterUnlink_spec hs₁ hrb' hp hpr
      refine ⟨s',t',?_,hs',?_,hk⟩
      · rw [rbDelete,hun]
        exact hdone
      · rw [hin,inorder_plug]
        simp
    | some rt =>
      obtain ⟨s₁,w,cn,new,rc,hun,hs₁,rfl,hfirst⟩ := unlink_two hat hl hrt hrr
      have hwhole : RB (plug (w++⟨.right,c,x,l⟩::p) (fork .left cn .leaf new rc)) .black k := by
        rw [plug_append]
        exact hrb
      obtain ⟨cn',n',hnew,hadm⟩ := admits_of_plug hwhole
      have hlen:=length_plug w (fork .left cn .leaf new rc)
      have hwle:=length_le_ids w
      have hlong : (w++⟨.right,c,new,l⟩::p : Spine Nat).length+1 < rounds := by
        simp only [length_append,length_cons]
        have hone : 0<(fork .left cn .leaf new rc : ColorTree Nat).inorder.length := by simp [Side.join]
        omega
      obtain ⟨s',t',hdone,hs',hin,hk⟩ :=
        afterUnlink_spec hs₁ hnew (admits_val w new hadm) hlong
      refine ⟨s',t',?_,hs',?_,hk⟩
      · rw [rbDelete,hun]
        exact hdone
      · rw [hin,plug_append,hfirst,plug,inorder_plug,Frame.fill,inorder_fork]
        simp [Side.join]

end RbTree
end OgsDp.Core
