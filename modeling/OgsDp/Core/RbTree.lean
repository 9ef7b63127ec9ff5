import OgsDp.Lib.RedBlack
import Mathlib.Data.List.Nodup
import Mathlib.Logic.Function.Basic

/-!
# Red-black trees of linked nodes (lib/core/ogs-rbtree.c, ogs-rbtree.h)

A node is named by its address.
-/

namespace OgsDp.Core
open Lib.RedBlack

structure RbNode where
  parent : Option Nat
  left : Option Nat
  right : Option Nat
  color : Color
  deriving DecidableEq

namespace RbNode

def child (n : RbNode) : Side → Option Nat
  | .left => n.left
  | .right => n.right

def setChild (n : RbNode) (d : Side) (c : Option Nat) : RbNode :=
  match d with
  | .left => { n with left := c }
  | .right => { n with right := c }

end RbNode

structure RbTree where
  root : Option Nat
  node : Nat → RbNode

namespace RbTree

variable (s : RbTree)

def write (x : Nat) (n : RbNode) : RbTree := { s with node := Function.update s.node x n }

def setParent (x : Nat) (p : Option Nat) : RbTree := s.write x { s.node x with parent := p }

def setChild (x : Nat) (d : Side) (c : Option Nat) : RbTree :=
  s.write x ((s.node x).setChild d c)

def setColor (x : Nat) (c : Color) : RbTree := s.write x { s.node x with color := c }

def setParentOf (x p : Option Nat) : RbTree :=
  match x with
  | some x => s.setParent x p
  | none => s

def rbChangeChild (old new parent : Option Nat) : RbTree :=
  match parent with
  | some p => if old=(s.node p).left then s.setChild p .left new else s.setChild p .right new
  | none => { s with root := new }

def rbReplaceNode (old new parent : Option Nat) : RbTree :=
  (s.rbChangeChild old new parent).setParentOf new parent

-- `rb_rotate_left` and `rb_rotate_right`; side `d` is where `node` goes down.
def rbRotate (d : Side) (node : Nat) : Option RbTree :=
  match (s.node node).child d.other with
  | none => none
  | some up =>
    let inner:=(s.node up).child d
    let s:=(s.setChild node d.other inner).setParentOf inner (some node)
    let s:=s.rbReplaceNode (some node) (some up) (s.node node).parent
    some ((s.setChild up d (some node)).setParent node (some up))

def rbRotateLeft (node : Nat) : Option RbTree := s.rbRotate .left node
def rbRotateRight (node : Nat) : Option RbTree := s.rbRotate .right node

def redAt (x : Option Nat) : Option Nat := x.filter fun x => (s.node x).color = .red

def rbIsBlack (x : Option Nat) : Prop := s.redAt x=none

instance (x : Option Nat) : Decidable (s.rbIsBlack x) := inferInstanceAs (Decidable (_=_))

/-- `ogs_rbtree_link_node`; `link` is the link of `parent`, or the root, that is written. -/
def rbLinkNode (x : Nat) (parent : Option Nat) (d : Side) : RbTree :=
  let s:=s.write x ⟨parent,none,none,.red⟩
  match parent with
  | some p => s.setChild p d (some x)
  | none => { s with root := some x }

def flip (uncle parent gparent : Nat) : RbTree :=
  ((s.setColor uncle .black).setColor parent .black).setColor gparent .red

def turn (d : Side) (node parent gparent : Nat) : Option (RbTree × Nat) :=
  let inner : Option (RbTree × Nat) :=
    if some node=(s.node parent).child d.other then (s.rbRotate d parent).map fun s => (s,parent)
    else some (s,node)
  match inner with
  | none => none
  | some (s,node) =>
    match (s.node node).parent with
    | none => none
    | some parent =>
      (((s.setColor parent .black).setColor gparent .red).rbRotate d.other gparent).map
        fun s => (s,node)

def insertRound (d : Side) (node parent gparent : Nat) : Option (RbTree × Nat) :=
  match s.redAt ((s.node gparent).child d.other) with
  | some uncle => some (s.flip uncle parent gparent,gparent)
  | none => s.turn d node parent gparent

def insertLoop : Nat → RbTree → Nat → Option RbTree
  | 0, _, _ => none
  | rounds+1, s, node =>
    match s.redAt (s.node node).parent with
    | none => some s
    | some parent =>
      match (s.node parent).parent with
      | none => none
      | some gparent =>
        let d := if some parent=(s.node gparent).left then Side.left else .right
        match s.insertRound d node parent gparent with
        | none => none
        | some (s,node) => insertLoop rounds s node

def insertColor (rounds : Nat) (node : Nat) : Option RbTree :=
  match insertLoop rounds s node with
  | none => none
  | some s =>
    match s.root with
    | none => none
    | some root => some (s.setColor root .black)

def redSibling (d : Side) (parent sibling : Nat) : Option (RbTree × Nat) :=
  if (s.node sibling).color = .red then
    match ((s.setColor sibling .black).setColor parent .red).rbRotate d parent with
    | none => none
    | some s => ((s.node parent).child d.other).map fun sibling => (s,sibling)
  else some (s,sibling)

def blackOuter (d : Side) (parent sibling : Nat) : Option (RbTree × Nat) :=
  if s.rbIsBlack ((s.node sibling).child d.other) then
    match (s.node sibling).child d with
    | none => none
    | some inner =>
      match ((s.setColor inner .black).setColor sibling .red).rbRotate d.other sibling with
      | none => none
      | some s => ((s.node parent).child d.other).map fun sibling => (s,sibling)
  else some (s,sibling)

def redOuter (d : Side) (parent sibling : Nat) : Option RbTree :=
  match (s.node sibling).child d.other with
  | none => none
  | some outer =>
    let s:=(s.setColor sibling (s.node parent).color).setColor parent .black
    (s.setColor outer .black).rbRotate d parent

def blackSibling (d : Side) (parent sibling : Nat) :
    Option (RbTree × Option Nat × Option Nat) :=
  if s.rbIsBlack (s.node sibling).left ∧ s.rbIsBlack (s.node sibling).right then
    let s:=s.setColor sibling .red
    some (s,some parent,(s.node parent).parent)
  else
    match s.blackOuter d parent sibling with
    | none => none
    | some (s,sibling) => (s.redOuter d parent sibling).map fun s => (s,s.root,some parent)

def deleteRound (d : Side) (parent : Nat) : Option (RbTree × Option Nat × Option Nat) :=
  match (s.node parent).child d.other with
  | none => none
  | some sibling =>
    match s.redSibling d parent sibling with
    | none => none
    | some (s,sibling) => s.blackSibling d parent sibling

def rbDeleteColor : Nat → RbTree → Option Nat → Option Nat → Option RbTree
  | 0, _, _, _ => none
  | rounds+1, s, node, parent =>
    if node≠s.root ∧ s.rbIsBlack node then
      match parent with
      | none => none
      | some p =>
        let d := if node=(s.node p).left then Side.left else .right
        match s.deleteRound d p with
        | none => none
        | some (s,node,parent) => rbDeleteColor rounds s node parent
    else
      match node with
      | some n => some (s.setColor n .black)
      | none => some s

def extreme (d : Side) : Nat → Nat → Option Nat
  | 0, _ => none
  | rounds+1, node =>
    match (s.node node).child d with
    | some next => extreme d rounds next
    | none => some node

def rbMin (rounds node : Nat) : Option Nat := s.extreme .left rounds node
def rbMax (rounds node : Nat) : Option Nat := s.extreme .right rounds node

-- `child` goes where `new` was, if that is not right below `node`.
def liftSuccessor (node right new : Nat) (child parent : Option Nat) :
    Option (RbTree × Option Nat) :=
  if parent=some node then some (s,some new)
  else
    match parent with
    | none => none
    | some p =>
      let s:=(s.setParentOf child parent).setChild p .left child
      some ((s.setChild new .right (some right)).setParent right (some new),parent)

-- `new` takes the place of `node`, which has the children `left` and `right`.
def supplant (node left right new : Nat) : Option (RbTree × Option Nat) :=
  let child:=(s.node new).right
  let parent:=(s.node new).parent
  let s:=(s.setChild new .left (some left)).setParent left (some new)
  (s.liftSuccessor node right new child parent).map fun (s,parent) =>
    let s:=s.setColor new (s.node node).color
    (s.rbReplaceNode (some node) (some new) (s.node node).parent,parent)

-- The node is taken out: what is left, and the color, the child and the parent that
-- `rb_delete_color` is about.
def unlinkNode (rounds node : Nat) : Option (RbTree × Color × Option Nat × Option Nat) :=
  let n:=s.node node
  match n.left, n.right with
  | none, child => some (s.rbReplaceNode (some node) child n.parent,n.color,child,n.parent)
  | some left, none =>
    some (s.rbReplaceNode (some node) (some left) n.parent,n.color,some left,n.parent)
  | some left, some right =>
    match s.rbMin rounds right with
    | none => none
    | some new =>
      (s.supplant node left right new).map fun (t,parent) =>
        (t,(s.node new).color,(s.node new).right,parent)

def rbDelete (rounds node : Nat) : Option RbTree :=
  match s.unlinkNode rounds node with
  | none => none
  | some (t,color,child,parent) =>
    if color = .black then rbDeleteColor rounds t child parent else some t

def climb (d : Side) : Nat → Nat → Option (Option Nat)
  | 0, _ => none
  | rounds+1, node =>
    match (s.node node).parent with
    | none => some none
    | some p => if some node=(s.node p).child d then climb d rounds p else some (some p)

def walk (d : Side) (rounds node : Nat) : Option (Option Nat) :=
  if (s.node node).parent=some node then some none
  else
    match (s.node node).child d with
    | some c => (s.extreme d.other rounds c).map some
    | none => s.climb d rounds node

def rbNext (rounds node : Nat) : Option (Option Nat) := s.walk .right rounds node
def rbPrev (rounds node : Nat) : Option (Option Nat) := s.walk .left rounds node

def edge (d : Side) (rounds : Nat) : Option (Option Nat) :=
  match s.root with
  | none => some none
  | some root => (s.extreme d rounds root).map some

def rbFirst (rounds : Nat) : Option (Option Nat) := s.edge .left rounds
def rbLast (rounds : Nat) : Option (Option Nat) := s.edge .right rounds

end RbTree

end OgsDp.Core

/-! ### The links of a red-black tree (lib/core/ogs-rbtree.c) -/

namespace OgsDp.Core
open Lib.RedBlack ColorTree Spine Function List Option

namespace RbNode

def of (d : Side) (parent near far : Option Nat) (c : Color) : RbNode :=
  match d with
  | .left => ⟨parent,near,far,c⟩
  | .right => ⟨parent,far,near,c⟩

variable {d : Side} {parent near far q : Option Nat} {c c' : Color}

@[simp] theorem of_child : (of d parent near far c).child d=near := by cases d <;> rfl

@[simp] theorem of_child_other : (of d parent near far c).child d.other=far := by
  cases d <;> rfl

@[simp] theorem of_parent : (of d parent near far c).parent=parent := by cases d <;> rfl

@[simp] theorem of_color : (of d parent near far c).color=c := by cases d <;> rfl

@[simp] theorem of_setChild : (of d parent near far c).setChild d q=of d parent q far c := by
  cases d <;> rfl

@[simp] theorem of_setChild_other :
    (of d parent near far c).setChild d.other q=of d parent near q c := by
  cases d <;> rfl

@[simp] theorem of_withParent :
    { of d parent near far c with parent := q }=of d q near far c := by
  cases d <;> rfl

@[simp] theorem of_withColor :
    { of d parent near far c with color := c' }=of d parent near far c' := by
  cases d <;> rfl

end RbNode

open RbNode

def Owns (m : Nat → RbNode) : ColorTree Nat → Option Nat → Prop
  | .leaf, _ => True
  | .node c l x r, p => m x=⟨p,l.top,r.top,c⟩ ∧ Owns m l (some x) ∧ Owns m r (some x)

def above (p : Spine Nat) : Option Nat := p.head?.map Frame.val

def OwnsPath (m : Nat → RbNode) : Spine Nat → Option Nat → Prop
  | [], _ => True
  | f::p, hole =>
    m f.val=of f.side (above p) hole f.sibling.top f.color ∧ Owns m f.sibling (some f.val) ∧
      OwnsPath m p (some f.val)

def rootOf : Spine Nat → Option Nat → Option Nat
  | [], hole => hole
  | f::p, _ => rootOf p (some f.val)

def ids : Spine Nat → List Nat
  | [] => []
  | f::p => f.val::(f.sibling.inorder++ids p)

section Memory

variable {m m' : Nat → RbNode} {t a b : ColorTree Nat} {p q : Option Nat} {path : Spine Nat}
  {f : Frame Nat} {d : Side} {c : Color} {x : Nat}

theorem owns_fork : Owns m (fork d c a x b) p ↔
    m x=of d p a.top b.top c ∧ Owns m a (some x) ∧ Owns m b (some x) := by
  cases d with
  | left => exact Iff.rfl
  | right => exact and_congr_right fun _ => and_comm

theorem Owns.congr (h : Owns m t p) (hm : ∀ x∈t.inorder,m' x=m x) : Owns m' t p := by
  induction t generalizing p with
  | leaf => trivial
  | node c l x r ihl ihr =>
    obtain ⟨hx,hl,hr⟩ := h
    refine ⟨(hm x (by simp [inorder])).trans hx,ihl hl ?_,ihr hr ?_⟩
    · intro y hy
      exact hm y (by simp [inorder,hy])
    · intro y hy
      exact hm y (by simp [inorder,hy])

theorem Owns.reparent (h : Owns m t p) (hn : t.inorder.Nodup)
    (htop : ∀ x,t.top=some x → m' x = { m x with parent := q })
    (hm : ∀ x∈t.inorder,t.top≠some x → m' x=m x) : Owns m' t q := by
  cases t with
  | leaf => trivial
  | node c l x r =>
    obtain ⟨hx,hl,hr⟩ := h
    have hne : x∉l.inorder++r.inorder := (nodup_cons.mp (List.nodup_middle.mp hn)).1
    rw [mem_append,not_or] at hne
    refine ⟨?_,hl.congr ?_,hr.congr ?_⟩
    · rw [htop x rfl,hx]
    · intro y hy
      exact hm y (by simp [inorder,hy]) fun he => hne.1 (some.inj he ▸ hy)
    · intro y hy
      exact hm y (by simp [inorder,hy]) fun he => hne.2 (some.inj he ▸ hy)

theorem OwnsPath.congr {hole : Option Nat} (h : OwnsPath m path hole)
    (hm : ∀ x∈ids path,m' x=m x) : OwnsPath m' path hole := by
  induction path generalizing hole with
  | nil => trivial
  | cons f path ih =>
    obtain ⟨hf,hs,hp⟩ := h
    refine ⟨(hm f.val (by simp [ids])).trans hf,hs.congr ?_,ih hp ?_⟩
    · intro y hy
      exact hm y (by simp [ids,hy])
    · intro y hy
      exact hm y (by simp [ids,hy])

end Memory

namespace RbTree

variable {s s' : RbTree} {p : Spine Nat} {f g : Frame Nat} {t a b : ColorTree Nat} {d : Side}
  {c c' : Color} {x y : Nat} {q : Option Nat}

structure At (s : RbTree) (p : Spine Nat) (t : ColorTree Nat) : Prop where
  owns : Owns s.node t (above p)
  path : OwnsPath s.node p t.top
  root : s.root=rootOf p t.top
  nodup : (t.inorder++ids p).Nodup

theorem at_cons : s.At (f::p) t ↔ s.At p (f.fill t) := by
  have hperm : (t.inorder++ids (f::p)).Perm ((f.fill t).inorder++ids p) := by
    rw [ids,Frame.fill,inorder_fork]
    refine perm_middle.trans ?_
    rw [← append_assoc]
    exact ((Side.join_perm f.side _ _ _).append_right _).symm
  constructor
  · intro h
    obtain ⟨hf,hs,hp⟩ := h.path
    refine ⟨owns_fork.mpr ⟨hf,h.owns,hs⟩,?_,?_,hperm.nodup_iff.mp h.nodup⟩
    · rw [Frame.fill,top_fork]
      exact hp
    · rw [Frame.fill,top_fork]
      exact h.root
  · intro h
    obtain ⟨hf,ht,hs⟩ := owns_fork.mp h.owns
    have hp:=h.path
    have hr:=h.root
    rw [Frame.fill,top_fork] at hp hr
    exact ⟨ht,⟨hf,hs,hp⟩,hr,hperm.nodup_iff.mpr h.nodup⟩

theorem at_plug : s.At p t ↔ s.At [] (plug p t) := by
  induction p generalizing t with
  | nil => exact Iff.rfl
  | cons f p ih => exact at_cons.trans ih

theorem at_near : s.At p (fork d c a x b) ↔ s.At (⟨d,c,x,b⟩::p) a := by
  rw [at_cons,Frame.fill]

theorem at_far : s.At p (fork d c a x b) ↔ s.At (⟨d.other,c,x,a⟩::p) b := by
  rw [at_cons,Frame.fill,fork_other]

theorem At.node_top (h : s.At p (fork d c a x b)) :
    s.node x=of d (above p) a.top b.top c := (owns_fork.mp h.owns).1

theorem At.node_frame (h : s.At (f::p) t) :
    s.node f.val=of f.side (above p) t.top f.sibling.top f.color := h.path.1

theorem At.parent_top (h : s.At p t) (ht : t.top=some x) : (s.node x).parent=above p := by
  rcases eq_fork .left t with rfl | ⟨c,a,y,b,rfl⟩
  · cases ht
  · rw [top_fork] at ht
    cases ht
    rw [h.node_top,of_parent]

theorem At.redAt (h : s.At p t) : s.redAt t.top = if t.color = .red then t.top else none := by
  rcases eq_fork .left t with rfl | ⟨c,a,y,b,rfl⟩
  · rfl
  · rw [RbTree.redAt,top_fork,color_fork,filter_some,h.node_top,of_color]
    by_cases hc : c = .red <;> simp [hc]

theorem At.rbIsBlack (h : s.At p t) : s.rbIsBlack t.top ↔ t.color = .black := by
  rw [RbTree.rbIsBlack,h.redAt]
  rcases eq_fork .left t with rfl | ⟨c,a,y,b,rfl⟩
  · simp [ColorTree.color]
  · cases c <;> simp

theorem At.apart (h : s.At p (fork d c a x b)) :
    x∉a.inorder ∧ x∉b.inorder ∧ x∉ids p ∧ a.inorder.Nodup ∧ b.inorder.Nodup ∧
      (∀ y∈a.inorder,y∉b.inorder ∧ y∉ids p) ∧ ∀ y∈b.inorder,y∉ids p := by
  have hn:=h.nodup
  rw [inorder_fork] at hn
  have hn:=((Side.join_perm d a.inorder b.inorder x).append_right (ids p)).nodup_iff.mp hn
  rw [cons_append,nodup_cons,append_assoc,nodup_append',
    nodup_append'] at hn
  obtain ⟨hx,ha,⟨hb,hp,hbp⟩,hab⟩ := hn
  simp only [mem_append,not_or] at hx
  refine ⟨hx.1,hx.2.1,hx.2.2,ha,hb,?_,?_⟩
  · intro y hy
    exact ⟨fun hb => hab hy (mem_append_left _ hb),fun hp => hab hy (mem_append_right _ hp)⟩
  · intro y hy
    exact hbp hy

theorem At.ids_nodup (h : s.At p t) : (ids p).Nodup := (nodup_append'.mp h.nodup).2.1

theorem write_self (s : RbTree) (x : Nat) (n : RbNode) : (s.write x n).node x=n :=
  update_self ..

theorem write_ne (s : RbTree) (n : RbNode) (h : y≠x) : (s.write x n).node y=s.node y :=
  update_of_ne h ..

theorem At.setColor (h : s.At p (fork d c a x b)) (c' : Color) :
    (s.setColor x c').At p (fork d c' a x b) := by
  obtain ⟨hxa,hxb,hxp,-⟩ := h.apart
  obtain ⟨hx,ha,hb⟩ := owns_fork.mp h.owns
  have hne : ∀ (y : Nat) (l : List Nat),x∉l → y∈l → (s.setColor x c').node y=s.node y := by
    intro y l hl hy
    exact s.write_ne _ fun he => hl (he ▸ hy)
  refine ⟨owns_fork.mpr ⟨?_,ha.congr (fun y => hne y _ hxa),hb.congr (fun y => hne y _ hxb)⟩,?_,?_,?_⟩
  · show (s.write x _).node x=_
    rw [write_self,hx,of_withColor]
  · rw [top_fork]
    have hpath:=h.path
    rw [top_fork] at hpath
    exact hpath.congr (fun y => hne y _ hxp)
  · rw [top_fork]
    have hroot:=h.root
    rw [top_fork] at hroot
    exact hroot
  · have hn:=h.nodup
    rw [inorder_fork] at hn ⊢
    exact hn

theorem changeChild_spec (hole : Option Nat) (hpath : OwnsPath s.node p (some x))
    (hroot : s.root=rootOf p (some x)) (hn : (ids p).Nodup) (hx : x∉ids p) :
    OwnsPath (s.rbChangeChild (some x) hole (above p)).node p hole ∧
      (s.rbChangeChild (some x) hole (above p)).root=rootOf p hole ∧
      ∀ y ∉ ids p,(s.rbChangeChild (some x) hole (above p)).node y=s.node y := by
  cases p with
  | nil => exact ⟨trivial,rfl,fun _ _ => rfl⟩
  | cons f p =>
    obtain ⟨hf,hs,hp⟩ := hpath
    rw [ids,nodup_cons,mem_append,not_or] at hn
    obtain ⟨⟨hfs,hfp⟩,-⟩ := hn
    have hwrite : s.rbChangeChild (some x) hole (above (f::p)) =
        s.write f.val (of f.side (above p) hole f.sibling.top f.color) := by
      show (if some x=(s.node f.val).left then s.setChild f.val .left hole
        else s.setChild f.val .right hole)=_
      unfold setChild
      rw [hf]
      cases hd : f.side with
      | left => exact if_pos rfl
      | right =>
        refine if_neg fun he => hx ?_
        rw [ids,mem_cons,mem_append]
        exact .inr (.inl (top_mem he.symm))
    rw [hwrite]
    refine ⟨⟨write_self ..,hs.congr ?_,hp.congr ?_⟩,hroot,?_⟩
    · intro y hy
      exact s.write_ne _ fun he => hfs (he ▸ hy)
    · intro y hy
      exact s.write_ne _ fun he => hfp (he ▸ hy)
    · intro y hy
      exact s.write_ne _ fun he => hy (he ▸ mem_cons_self ..)

theorem setParentOf_node (s : RbTree) (x q : Option Nat) (y : Nat) :
    (s.setParentOf x q).node y = if x=some y then { s.node y with parent := q } else s.node y := by
  cases x with
  | none => simp [setParentOf]
  | some x =>
    by_cases he : x=y
    · subst he
      simp [setParentOf,setParent,write_self]
    · simp [setParentOf,setParent,write_ne,he,Ne.symm he]

@[simp] theorem setParentOf_root (s : RbTree) (x q : Option Nat) :
    (s.setParentOf x q).root=s.root := by
  cases x <;> rfl

theorem replaceNode_at (hpath : OwnsPath s.node p (some x)) (hroot : s.root=rootOf p (some x))
    (hx : x∉ids p) (ht : Owns s.node t q) (hn : (t.inorder++ids p).Nodup) :
    (s.rbReplaceNode (some x) t.top (above p)).At p t := by
  obtain ⟨htn,hpn,hdisj⟩ := nodup_append'.mp hn
  obtain ⟨hpath,hroot,hrest⟩ := changeChild_spec t.top hpath hroot hpn hx
  unfold rbReplaceNode
  refine ⟨ht.reparent htn ?_ ?_,hpath.congr ?_,by simpa using hroot,hn⟩
  · intro y hy
    rw [setParentOf_node,if_pos hy,hrest y (hdisj (top_mem hy))]
  · intro y hy hne
    rw [setParentOf_node,if_neg hne,hrest y (hdisj hy)]
  · intro y hy
    rw [setParentOf_node,if_neg fun he => hdisj (top_mem he) hy]

theorem rotate_at {cx cy : Color} {e : ColorTree Nat}
    (h : s.At p (fork d cx a x (fork d cy b y e))) :
    ∃ s',s.rbRotate d x=some s' ∧ s'.At p (fork d cy (fork d cx a x b) y e) := by
  obtain ⟨hxa,hxup,hxp,han,hupn,hap,hupp⟩ := h.apart
  obtain ⟨hx,ha,hup⟩ := owns_fork.mp h.owns
  obtain ⟨hy,hb,he⟩ := owns_fork.mp hup
  rw [top_fork] at hx
  simp only [inorder_fork,Side.mem_join,not_or] at hxup hupp hap
  obtain ⟨hxy,hxb,hxe⟩ := hxup
  have hyp : y∉ids p := hupp y (.inl rfl)
  rw [inorder_fork] at hupn
  obtain ⟨hyn,hben⟩ := nodup_cons.mp ((Side.join_perm d _ _ y).nodup_iff.mp hupn)
  rw [mem_append,not_or] at hyn
  obtain ⟨hbn,hen,hbe⟩ := nodup_append'.mp hben
  -- the inner subtree goes below `x`
  let s₁:=(s.setChild x d.other b.top).setParentOf b.top (some x)
  have hs₁ : ∀ z,z≠x → s₁.node z =
      if b.top=some z then { s.node z with parent := some x } else s.node z := by
    intro z hz
    show ((s.setChild x d.other b.top).setParentOf b.top (some x)).node z=_
    rw [setParentOf_node,setChild,write_ne _ _ hz]
  have hs₁x : s₁.node x=of d (above p) a.top b.top cx := by
    show ((s.setChild x d.other b.top).setParentOf b.top (some x)).node x=_
    rw [setParentOf_node,if_neg fun he => hxb (top_mem he),setChild,write_self,hx,
      of_setChild_other]
  have hs₁y : s₁.node y=of d (some x) b.top e.top cy := by
    rw [hs₁ y (Ne.symm hxy),if_neg fun he => hyn.1 (top_mem he),hy]
  have hpath₁ : OwnsPath s₁.node p (some x) := by
    have hpath:=h.path
    rw [top_fork] at hpath
    refine hpath.congr fun z hz => ?_
    rw [hs₁ z fun he => hxp (he ▸ hz)]
    exact if_neg fun he => hupp z (.inr (.inl (top_mem he))) hz
  have hroot₁ : s₁.root=rootOf p (some x) := by
    have hroot:=h.root
    rw [top_fork] at hroot
    rw [← hroot]
    exact setParentOf_root ..
  -- `y` comes to the place of `x`
  obtain ⟨hpath₂,hroot₂,hs₂⟩ := changeChild_spec (some y) hpath₁ hroot₁ h.ids_nodup hxp
  let s₂:=s₁.rbChangeChild (some x) (some y) (above p)
  have hs₂x : s₂.node x=of d (above p) a.top b.top cx := (hs₂ x hxp).trans hs₁x
  have hs₂y : s₂.node y=of d (some x) b.top e.top cy := (hs₂ y hyp).trans hs₁y
  let s₃:=((s₂.setParent y (above p)).setChild y d (some x)).setParent x (some y)
  have hs₃ : ∀ z,z≠x → z≠y → s₃.node z=s₂.node z := by
    intro z hzx hzy
    show (((s₂.setParent y (above p)).setChild y d (some x)).write x _).node z=_
    rw [write_ne _ _ hzx,setChild,write_ne _ _ hzy,setParent,write_ne _ _ hzy]
  have hs₃y : s₃.node y=of d (above p) (some x) e.top cy := by
    show (((s₂.setParent y (above p)).setChild y d (some x)).write x _).node y=_
    rw [write_ne _ _ (Ne.symm hxy),setChild,write_self,setParent,write_self,hs₂y,
      of_withParent,of_setChild]
  have hs₃x : s₃.node x=of d (some y) a.top b.top cx := by
    show (((s₂.setParent y (above p)).setChild y d (some x)).write x _).node x=_
    rw [write_self,setChild,write_ne _ _ hxy,setParent,write_ne _ _ hxy,hs₂x,of_withParent]
  have hout : ∀ z,z≠x → z≠y → z∉ids p → b.top≠some z → s₃.node z=s.node z := by
    intro z hzx hzy hzp hzb
    rw [hs₃ z hzx hzy,hs₂ z hzp,hs₁ z hzx,if_neg hzb]
  have hrot : s.rbRotate d x=some s₃ := by
    unfold rbRotate
    rw [hx,of_child_other]
    simp only
    rw [hy,of_child]
    show some ((((s₁.rbChangeChild (some x) (some y) (s₁.node x).parent).setParent y
      (s₁.node x).parent).setChild y d (some x)).setParent x (some y))=some s₃
    rw [hs₁x,of_parent]
  refine ⟨s₃,hrot,owns_fork.mpr ⟨?_,owns_fork.mpr ⟨hs₃x,?_,?_⟩,?_⟩,?_,?_,?_⟩
  · rw [top_fork]
    exact hs₃y
  · refine ha.congr fun z hz => hout z ?_ ?_ (hap z hz).2 fun he => ?_
    · exact fun he => hxa (he ▸ hz)
    · exact fun he => (hap z hz).1.1 he
    · exact (hap z hz).1.2.1 (top_mem he)
  · refine hb.reparent hbn (fun z hz => ?_) fun z hz hne => ?_
    · have hzb:=top_mem hz
      have hzx : z≠x := fun he => hxb (he ▸ hzb)
      have hzy : z≠y := fun he => hyn.1 (he ▸ hzb)
      rw [hs₃ z hzx hzy,hs₂ z (hupp z (.inr (.inl hzb))),hs₁ z hzx,if_pos hz]
    · exact hout z (fun he => hxb (he ▸ hz)) (fun he => hyn.1 (he ▸ hz))
        (hupp z (.inr (.inl hz))) hne
  · refine he.congr fun z hz => hout z ?_ ?_ (hupp z (.inr (.inr hz))) fun hb => ?_
    · exact fun he => hxe (he ▸ hz)
    · exact fun he => hyn.2 (he ▸ hz)
    · exact hbe (top_mem hb) hz
  · rw [top_fork]
    exact hpath₂.congr fun z hz =>
      hs₃ z (fun he => hxp (he ▸ hz)) fun he => hyp (he ▸ hz)
  · rw [top_fork]
    exact hroot₂
  · have hn:=h.nodup
    have hperm : (fork d cx a x (fork d cy b y e)).inorder =
        (fork d cy (fork d cx a x b) y e).inorder := by
      cases d <;> simp [Side.join]
    rw [← hperm]
    exact hn

theorem rotate_other_at {cx cy : Color} {e : ColorTree Nat}
    (h : s.At p (fork d cx (fork d cy a y b) x e)) :
    ∃ s',s.rbRotate d.other x=some s' ∧ s'.At p (fork d cy a y (fork d cx b x e)) := by
  rw [← fork_other d cx,← fork_other d cy] at h
  obtain ⟨s',hrot,hs'⟩ := rotate_at h
  rw [fork_other,fork_other] at hs'
  exact ⟨s',hrot,hs'⟩

end RbTree
end OgsDp.Core
