import OgsDp.Core.RbTreeDelete
import OgsDp.Core.RbTreeInsert

/-!
# Runs of a red-black tree (lib/core/ogs-rbtree.c)

The in-order sequence of the tree is kept beside it: an insertion puts the node next to its
parent, a deletion takes it out.
-/

namespace OgsDp.Core
open Lib.RedBlack ColorTree Spine RbNode

def along (d : Side) (t : ColorTree Nat) : List Nat :=
  match d with
  | .right => t.inorder
  | .left => t.inorder.reverse

/-- The nodes farther to side `d` than those at the end of the path, the nearest first. -/
def outside (d : Side) : Spine Nat → List Nat
  | [] => []
  | f::p => if f.side=d then outside d p else f.val::(along d f.sibling++outside d p)

theorem along_fork (d : Side) (c : Color) (a b : ColorTree Nat) (x : Nat) :
    along d (fork d c a x b)=along d b++x::along d a := by
  cases d <;> simp [along,Side.join]

theorem along_fill (d : Side) (f : Frame Nat) (t : ColorTree Nat) :
    along d (f.fill t) =
      if f.side=d then along d f.sibling++f.val::along d t
      else along d t++f.val::along d f.sibling := by
  rw [Frame.fill]
  split
  · rename_i hd
    rw [hd,along_fork]
  · rename_i hd
    rw [Side.eq_other_of_ne hd,fork_other,along_fork]

theorem along_plug (d : Side) (p : Spine Nat) (t : ColorTree Nat) :
    ∃ l,along d (plug p t)=l++along d t++outside d p := by
  induction p generalizing t with
  | nil => exact ⟨[],by simp [plug,outside]⟩
  | cons f p ih =>
    obtain ⟨l,hl⟩ := ih (f.fill t)
    rw [plug,hl,along_fill,outside]
    split
    · exact ⟨l++(along d f.sibling++[f.val]),by simp⟩
    · exact ⟨l,by simp⟩

namespace RbTree

variable {s s' : RbTree} {p : Spine Nat} {t a b : ColorTree Nat} {d : Side} {c : Color} {x y : Nat}
  {rounds : Nat} {l : List Nat}

theorem extreme_head (h : s.At p t) (ht : t.top=some x) (hr : t.inorder.length < rounds) :
    ∃ y,s.extreme d.other rounds x=some y ∧ (along d t).head?=some y := by
  obtain ⟨w,c,y,far,rfl,hw,hext⟩ := extreme_spec (d := d.other) h ht hr
  refine ⟨y,hext,?_⟩
  clear h ht hr hext
  have hhead : ∀ u : ColorTree Nat, (along d u).head?=some y → (along d (plug w u)).head?=some y := by
    intro u hu
    induction w generalizing u with
    | nil => exact hu
    | cons f w ih =>
      have hf : f.side≠d := fun he => Side.other_ne d ((hw f (List.mem_cons_self ..)).symm.trans he)
      refine ih (fun g hg => hw g (List.mem_cons_of_mem f hg)) _ ?_
      rw [along_fill,if_neg hf,List.head?_append,hu]
      rfl
  apply hhead
  rw [fork_other,along_fork]
  cases d <;> rfl

theorem climb_spec (h : s.At p t) (ht : t.top=some x) (hr : p.length < rounds) :
    s.climb d rounds x=some (outside d p).head? := by
  induction p generalizing t x rounds with
  | nil =>
    obtain ⟨r,rfl⟩ : ∃ r,rounds=r+1 := ⟨rounds-1,by omega⟩
    rw [climb,h.parent_top ht]
    rfl
  | cons f p ih =>
    obtain ⟨r,rfl⟩ : ∃ r,rounds=r+1 := ⟨rounds-1,by omega⟩
    simp only [List.length_cons] at hr
    have hup:=at_cons.mp h
    have hparent : (s.node x).parent=some f.val := h.parent_top ht
    have hside : some x=(s.node f.val).child d ↔ f.side=d := by
      rw [h.node_frame,ht]
      by_cases hd : f.side=d
      · rw [hd,of_child]
        simp
      · rw [Side.eq_other_of_ne (Ne.symm hd),of_child_other]
        refine iff_of_false (fun he => ?_) (Ne.symm (Side.other_ne _))
        exact (hup.apart.2.2.2.2.2.1 x (top_mem ht)).1 (top_mem he.symm)
    rw [climb,hparent,outside]
    by_cases hd : f.side=d
    · simp only [if_pos hd,if_pos (hside.mpr hd)]
      exact ih hup (top_fork ..) (by omega)
    · simp only [if_neg hd,if_neg (mt hside.mp hd)]
      rfl

theorem walk_spec (h : s.At p (fork d c a x b))
    (hr : (fork d c a x b).inorder.length+(ids p).length < rounds) :
    s.walk d rounds x=some (along d a++outside d p).head? := by
  have hple:=length_le_ids p
  have hlen:=(Side.join_perm d a.inorder b.inorder x).length_eq
  rw [inorder_fork] at hr
  simp only [List.length_cons,List.length_append] at hlen
  have har : a.inorder.length < rounds := by omega
  have hne : (s.node x).parent≠some x := by
    rw [h.node_top,of_parent]
    intro he
    cases p with
    | nil => cases he
    | cons f p => exact h.apart.2.2.1 (by simp [ids,← Option.some.inj he])
  rw [walk,if_neg hne,h.node_top,of_child]
  cases ha : a.top with
  | none =>
    obtain rfl := top_eq_none ha
    have hal : along d (leaf : ColorTree Nat)=[] := by cases d <;> rfl
    rw [hal,List.nil_append]
    exact climb_spec h (top_fork ..) (by omega)
  | some z =>
    obtain ⟨y,hext,hhead⟩ := extreme_head (d := d) (at_near.mp h) ha har
    simp only [hext,Option.map_some,List.head?_append,hhead]
    rfl

def order (d : Side) (l : List Nat) : List Nat :=
  match d with
  | .right => l
  | .left => l.reverse

theorem order_inorder (d : Side) (t : ColorTree Nat) : order d t.inorder=along d t := by
  cases d <;> rfl

theorem walk_order (h : s.At [] t) (hr : t.inorder.length < rounds) (d : Side) {i : Nat}
    (hx : (order d t.inorder)[i]?=some x) :
    s.walk d rounds x=some (order d t.inorder)[i+1]? := by
  have hn : (order d t.inorder).Nodup := by
    have hn:=(List.nodup_append'.mp h.nodup).1
    cases d with
    | right => exact hn
    | left => exact List.nodup_reverse.mpr hn
  have hmem : x∈t.inorder := by
    have hmem:=List.mem_of_getElem? hx
    cases d with
    | right => exact hmem
    | left => exact List.mem_reverse.mp hmem
  obtain ⟨p,c,l,r,rfl⟩ := exists_plug hmem
  obtain ⟨a,b,hfork⟩ : ∃ a b,ColorTree.node c l x r=fork d c a x b := by
    cases d with
    | left => exact ⟨l,r,rfl⟩
    | right => exact ⟨r,l,rfl⟩
  rw [hfork] at h hr hx hn ⊢
  rw [length_plug] at hr
  rw [walk_spec (at_plug.mpr h) hr]
  obtain ⟨pre,hpre⟩ := along_plug d p (fork d c a x b)
  rw [along_fork] at hpre
  have hsplit : order d (plug p (fork d c a x b)).inorder =
      (pre++along d b)++x::(along d a++outside d p) := by
    rw [order_inorder,hpre]
    simp
  have hat : (order d (plug p (fork d c a x b)).inorder)[(pre++along d b).length]?=some x := by
    rw [hsplit,List.getElem?_append_right (Nat.le_refl _),Nat.sub_self]
    rfl
  have hi : i=(pre++along d b).length := by
    obtain ⟨hlt,hxi⟩ := List.getElem?_eq_some_iff.mp hx
    obtain ⟨hlt',hxp⟩ := List.getElem?_eq_some_iff.mp hat
    exact hn.getElem_inj_iff.mp (hxi.trans hxp.symm)
  rw [hi,hsplit,List.getElem?_append_right (Nat.le_add_right _ 1),Nat.add_sub_cancel_left]
  cases along d a++outside d p <;> rfl

theorem edge_order (h : s.At [] t) (hr : t.inorder.length < rounds) (d : Side) :
    s.edge d.other rounds=some (order d t.inorder).head? := by
  have hroot : s.root=t.top := h.root
  rw [edge,hroot,order_inorder]
  cases ht : t.top with
  | none =>
    rw [top_eq_none ht]
    cases d <;> rfl
  | some x =>
    obtain ⟨y,hext,hhead⟩ := extreme_head (d := d) h ht hr
    simp only [hext,hhead,Option.map_some]

inductive InOrder (s : RbTree) : Option Nat → List Nat → Prop where
  | null : InOrder s none []
  | node {x : Nat} {l r : List Nat} : InOrder s (s.node x).left l → InOrder s (s.node x).right r →
      InOrder s (some x) (l++x::r)

/-- A path from a pointer down to a null pointer has `n` black nodes. -/
inductive Descends (s : RbTree) : Option Nat → Nat → Prop where
  | null : Descends s none 0
  | red {x n : Nat} (d : Side) : (s.node x).color = .red → Descends s ((s.node x).child d) n →
      Descends s (some x) n
  | black {x n : Nat} (d : Side) : (s.node x).color = .black →
      Descends s ((s.node x).child d) n → Descends s (some x) (n+1)

/-- The tree of the nodes `l`, in this order. -/
structure Sound (s : RbTree) (l : List Nat) : Prop where
  nodup : l.Nodup
  inorder : InOrder s s.root l
  root : ∀ x,s.root=some x → (s.node x).parent=none ∧ (s.node x).color = .black
  child : ∀ x∈l,∀ d y,(s.node x).child d=some y → y∈l ∧ (s.node y).parent=some x
  parent : ∀ x∈l,∀ y,(s.node x).parent=some y → y∈l ∧ ∃ d,(s.node y).child d=some x
  orphan : ∀ x∈l,(s.node x).parent=none → s.root=some x
  red : ∀ x∈l,(s.node x).color = .red → ∀ d,s.rbIsBlack ((s.node x).child d)
  height : ∃ n,∀ k,Descends s s.root k → k=n
  first : ∀ rounds,l.length < rounds → s.rbFirst rounds=some l.head?
  next : ∀ rounds,l.length < rounds → ∀ i x,l[i]?=some x → s.rbNext rounds x=some l[i+1]?
  last : ∀ rounds,l.length < rounds → s.rbLast rounds=some l.reverse.head?
  prev : ∀ rounds,l.length < rounds → ∀ i x,l.reverse[i]?=some x →
    s.rbPrev rounds x=some l.reverse[i+1]?

theorem inOrder_of_owns {q : Option Nat} (h : Owns s.node t q) : InOrder s t.top t.inorder := by
  induction t generalizing q with
  | leaf => exact .null
  | node c l x r ihl ihr =>
    obtain ⟨hx,hl,hr⟩ := h
    have hleft:=ihl hl
    have hright:=ihr hr
    refine .node ?_ ?_
    · rw [hx]
      exact hleft
    · rw [hx]
      exact hright

theorem descends_of_owns {q : Option Nat} {n k : Nat} (h : Owns s.node t q) (hrb : RB t c n)
    (hk : Descends s t.top k) : k=n := by
  induction t generalizing q c n k with
  | leaf =>
    cases hrb
    cases hk
    rfl
  | node c' l x r ihl ihr =>
    obtain ⟨hx,hl,hr⟩ := h
    have hkids : ∀ d j,Descends s ((s.node x).child d) j →
        Descends s l.top j ∨ Descends s r.top j := by
      intro d j hj
      rw [hx] at hj
      cases d with
      | left => exact .inl hj
      | right => exact .inr hj
    cases hrb with
    | red hrl hrr =>
      cases hk with
      | red d hc hj =>
        rcases hkids d _ hj with hj | hj
        · exact ihl hl hrl hj
        · exact ihr hr hrr hj
      | black d hc hj => exact nomatch (congrArg RbNode.color hx).symm.trans hc
    | black hrl hrr =>
      cases hk with
      | red d hc hj => exact nomatch (congrArg RbNode.color hx).symm.trans hc
      | black d hc hj =>
        rcases hkids d _ hj with hj | hj
        · exact congrArg (· + 1) (ihl hl hrl hj)
        · exact congrArg (· + 1) (ihr hr hrr hj)

theorem At.sound {k : Nat} (h : s.At [] t) (hrb : RB t .black k) : s.Sound t.inorder where
  nodup := (List.nodup_append'.mp h.nodup).1
  inorder := by
    have hroot : s.root=t.top := h.root
    rw [hroot]
    exact inOrder_of_owns h.owns
  root := by
    intro x hx
    have ht : t.top=some x := h.root.symm.trans hx
    refine ⟨h.parent_top ht,?_⟩
    rcases eq_fork .left t with rfl | ⟨c,a,y,b,rfl⟩
    · cases ht
    · have hc:=hrb.color_eq
      rw [top_fork] at ht
      cases ht
      rw [h.node_top,of_color]
      rwa [color_fork] at hc
  child := by
    intro x hx d y hy
    obtain ⟨p,c,l,r,rfl⟩ := exists_plug hx
    have hat:=at_plug.mpr h
    have hl : s.At p (fork .left c l x r) := hat
    rw [hat.owns.1] at hy
    rw [mem_inorder_plug]
    cases d with
    | left => exact ⟨.inl (by simp [inorder,top_mem hy]),(at_near.mp hl).parent_top hy⟩
    | right => exact ⟨.inl (by simp [inorder,top_mem hy]),(at_far.mp hl).parent_top hy⟩
  parent := by
    intro x hx y hy
    obtain ⟨p,c,l,r,rfl⟩ := exists_plug hx
    have hat:=at_plug.mpr h
    rw [hat.owns.1] at hy
    cases p with
    | nil => cases hy
    | cons f p =>
      cases hy
      refine ⟨(mem_inorder_plug _ _).mpr (.inr (List.mem_cons_self ..)),f.side,?_⟩
      rw [hat.node_frame,of_child]
      rfl
  orphan := by
    intro x hx hnone
    obtain ⟨p,c,l,r,rfl⟩ := exists_plug hx
    have hat:=at_plug.mpr h
    rw [hat.owns.1] at hnone
    cases p with
    | nil => exact hat.root
    | cons f p => cases hnone
  red := by
    intro x hx hcol d
    obtain ⟨p,c,l,r,rfl⟩ := exists_plug hx
    obtain ⟨c',n,hnode,-⟩ := admits_of_plug hrb
    have hat:=at_plug.mpr h
    have hl : s.At p (fork .left c l x r) := hat
    rw [hat.owns.1] at hcol
    cases hcol
    cases hnode with
    | red hrl hrr =>
      rw [hat.owns.1]
      cases d with
      | left => exact (at_near.mp hl).rbIsBlack.mpr hrl.color_eq
      | right => exact (at_far.mp hl).rbIsBlack.mpr hrr.color_eq
  height := by
    have hroot : s.root=t.top := h.root
    rw [hroot]
    exact ⟨k,fun j hj => descends_of_owns h.owns hrb hj⟩
  first := fun rounds hr => edge_order h hr .right
  next := fun rounds hr i x hx => walk_order h hr .right hx
  last := fun rounds hr => edge_order h hr .left
  prev := fun rounds hr i x hx => walk_order h hr .left hx

/-- The link on side `d` of a node of the tree, or the root, is a null pointer. -/
def EmptyLink (s : RbTree) (l : List Nat) (d : Side) : Option Nat → Prop
  | none => s.root=none
  | some y => y∈l ∧ (s.node y).child d=none

/-- `x` comes next to `y`, on side `d`. -/
def beside (d : Side) (x y : Nat) : List Nat → List Nat
  | [] => []
  | z::l => if z=y then d.join [x] y []++l else z::beside d x y l

def place (d : Side) (x : Nat) (l : List Nat) : Option Nat → List Nat
  | none => [x]
  | some y => beside d x y l

theorem beside_append {l l' : List Nat} (h : y∉l) :
    beside d x y (l++y::l')=l++(d.join [x] y []++l') := by
  induction l with
  | nil => exact if_pos rfl
  | cons z l ih =>
    rw [List.mem_cons,not_or] at h
    rw [List.cons_append,beside,if_neg (Ne.symm h.1),ih h.2]
    rfl

theorem insert_spec {parent : Option Nat} {k : Nat} (h : s.At [] t) (hrb : RB t .black k)
    (hx : x∉t.inorder) (hlink : s.EmptyLink t.inorder d parent)
    (hr : t.inorder.length < rounds) :
    ∃ s' t',(s.rbLinkNode x parent d).insertColor rounds x=some s' ∧ s'.At [] t' ∧
      t'.inorder=place d x t.inorder parent ∧ ∃ k,RB t' .black k := by
  cases parent with
  | none =>
    obtain rfl := top_eq_none (h.root.symm.trans hlink)
    have hnew:=linkNode_at (d := d) h hx (by simp)
    obtain ⟨s',t',hcolor,hs',hin,hk⟩ := insertColor_spec hnew rfl hr
    exact ⟨s',t',hcolor,hs',hin,hk⟩
  | some y =>
    obtain ⟨hy,hchild⟩ := hlink
    obtain ⟨p,c,l,r,rfl⟩ := exists_plug hy
    obtain ⟨a,b,hfork⟩ : ∃ a b,ColorTree.node c l y r=fork d c a y b := by
      cases d with
      | left => exact ⟨l,r,rfl⟩
      | right => exact ⟨r,l,rfl⟩
    rw [hfork] at h hrb hx hr ⊢
    have hat:=at_plug.mpr h
    obtain rfl : a = .leaf := by
      rw [hat.node_top,of_child] at hchild
      exact top_eq_none hchild
    rw [mem_inorder_plug,inorder_fork,Side.mem_join,not_or,not_or,not_or] at hx
    have hids : x∉ids (⟨d,c,y,b⟩::p) := by
      simp only [ids,List.mem_cons,List.mem_append,not_or]
      exact ⟨hx.1.1,hx.1.2.2,hx.2⟩
    have hplug : plug p (fork d c .leaf y b)=plug (⟨d,c,y,b⟩::p) .leaf := rfl
    rw [hplug] at hrb
    obtain ⟨c',n,hleaf,hadm⟩ := admits_of_plug hrb
    cases hleaf
    have hnew:=linkNode_at (d := d) (at_near.mp hat) hids (by simp)
    have hlong : (⟨d,c,y,b⟩::p : Spine Nat).length < rounds := by
      have hple:=length_le_ids p
      rw [hplug,length_plug] at hr
      simp only [ids,List.length_cons,List.length_append] at hr ⊢
      omega
    obtain ⟨s',t',hcolor,hs',hin,hk⟩ := insertColor_spec hnew hadm hlong
    refine ⟨s',t',hcolor,hs',?_,hk⟩
    have hnd:=(List.nodup_append'.mp h.nodup).1
    rw [hin,place,inorder_plug,inorder_fork]
    rw [inorder_plug,inorder_fork] at hnd
    cases d with
    | left =>
      simp only [Side.join,inorder_leaf,List.nil_append,List.append_assoc,
        List.cons_append] at hnd ⊢
      rw [beside_append fun hb => (List.nodup_append'.mp hnd).2.2 hb (List.mem_cons_self ..)]
      simp [before,after,Side.join]
    | right =>
      simp only [Side.join,inorder_leaf,List.append_assoc,List.cons_append,
        List.nil_append] at hnd ⊢
      rw [← List.append_assoc] at hnd ⊢
      rw [beside_append fun hb => (List.nodup_append'.mp hnd).2.2 hb (List.mem_cons_self ..)]
      simp [before,after,Side.join]

/-- A tree that insertions at empty links and deletions of its nodes made from the empty one, with
its in-order sequence. The loops may take a round more than there are nodes. -/
inductive Reaches : RbTree → List Nat → Prop where
  | empty (node : Nat → RbNode) : Reaches ⟨none,node⟩ []
  | insert {s s' : RbTree} {l : List Nat} {rounds x : Nat} {parent : Option Nat} {d : Side} :
      Reaches s l → l.length < rounds → x∉l → s.EmptyLink l d parent →
      (s.rbLinkNode x parent d).insertColor rounds x=some s' → Reaches s' (place d x l parent)
  | delete {s s' : RbTree} {l : List Nat} {rounds x : Nat} :
      Reaches s l → l.length < rounds → x∈l → s.rbDelete rounds x=some s' → Reaches s' (l.erase x)

theorem Reaches.tree (h : Reaches s l) : ∃ t,s.At [] t ∧ t.inorder=l ∧ ∃ k,RB t .black k := by
  induction h with
  | empty node => exact ⟨.leaf,⟨trivial,trivial,rfl,List.nodup_nil⟩,rfl,0,.leaf⟩
  | @insert s s' l rounds x parent d _ hr hx hlink hs' ih =>
    obtain ⟨t,ht,rfl,k,hk⟩ := ih
    obtain ⟨u,t',hu,hat,hin,hrb⟩ := insert_spec ht hk hx hlink hr
    cases hs'.symm.trans hu
    exact ⟨t',hat,hin,hrb⟩
  | @delete s s' l rounds x _ hr hx hs' ih =>
    obtain ⟨t,ht,rfl,k,hk⟩ := ih
    obtain ⟨u,t',hu,hat,hin,hrb⟩ := rbDelete_spec ht hk hx hr
    cases hs'.symm.trans hu
    exact ⟨t',hat,hin,hrb⟩

/-- Every tree that insertions and deletions make is a red-black tree of its nodes, linked both
ways and in order, which the iteration goes through; and both calls always end. -/
theorem rbtree_runs (h : Reaches s l) :
    s.Sound l ∧
      (∀ x d parent rounds,x∉l → s.EmptyLink l d parent → l.length < rounds →
        ∃ s',(s.rbLinkNode x parent d).insertColor rounds x=some s') ∧
      ∀ x∈l,∀ rounds,l.length < rounds → ∃ s',s.rbDelete rounds x=some s' := by
  obtain ⟨t,ht,rfl,k,hk⟩ := h.tree
  refine ⟨ht.sound hk,?_,?_⟩
  · intro x d parent rounds hx hlink hr
    obtain ⟨s',-,hs',-⟩ := insert_spec ht hk hx hlink hr
    exact ⟨s',hs'⟩
  · intro x hx rounds hr
    obtain ⟨s',-,hs',-⟩ := rbDelete_spec ht hk hx hr
    exact ⟨s',hs'⟩

theorem rbtree_runs_two : ∃ s,Reaches s [7,9] ∧ s.Sound [7,9] := by
  have h₁:=@Reaches.insert _ _ _ 3 8 none .left (.empty fun _ => ⟨none,none,none,.black⟩)
    (by decide) (by decide) rfl rfl
  have h₂:=@Reaches.insert _ _ _ 3 7 (some 8) .left h₁ (by decide) (by decide) ⟨by decide,rfl⟩ rfl
  have h₃:=@Reaches.insert _ _ _ 3 9 (some 8) .right h₂ (by decide) (by decide) ⟨by decide,rfl⟩
    rfl
  have h₄:=@Reaches.delete _ _ _ 4 8 h₃ (by decide) (by decide) rfl
  exact ⟨_,h₄,(rbtree_runs h₄).1⟩

end RbTree
end OgsDp.Core
