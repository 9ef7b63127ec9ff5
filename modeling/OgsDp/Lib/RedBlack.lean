import Mathlib.Data.List.Basic
import Mathlib.Tactic.Common

/-!
# Red-black trees and the paths in them

A tree is looked at from one of its nodes: the subtree there, and the path from it up to the root.
Left and right are one argument, so that a fact about a tree holds of its mirror image, too.

`RB t c n` says that `t` is a red-black tree with a root of color `c` and black height `n`, and
`Admits p c n` that such a tree makes one with a black root when it is put at the end of `p`.
-/

namespace OgsDp.Lib.RedBlack
open List

universe u

inductive Color where
  | black
  | red
  deriving DecidableEq

inductive Side where
  | left
  | right
  deriving DecidableEq

namespace Side

variable {α : Type u}

def other : Side → Side
  | left => right
  | right => left

theorem other_ne (d : Side) : d.other≠d := by
  cases d <;> decide

theorem eq_other_of_ne {d e : Side} (h : e≠d) : e=d.other := by
  cases d <;> cases e <;> first | rfl | exact absurd rfl h

/-- `x` with what is on side `d` of it and what is on the other. -/
def join (d : Side) (near : List α) (x : α) (far : List α) : List α :=
  match d with
  | left => near++x::far
  | right => far++x::near

theorem join_other (d : Side) (near far : List α) (x : α) :
    d.other.join near x far=d.join far x near := by
  cases d <;> rfl

@[simp] theorem mem_join {d : Side} {near far : List α} {x y : α} :
    y∈d.join near x far ↔ y=x ∨ y∈near ∨ y∈far := by
  cases d <;> simp only [join,mem_append,mem_cons] <;> tauto

theorem join_perm (d : Side) (near far : List α) (x : α) :
    (d.join near x far).Perm (x::(near++far)) := by
  cases d with
  | left => exact perm_middle
  | right => exact perm_middle.trans (perm_append_comm.cons x)

end Side

inductive ColorTree (α : Type u) where
  | leaf
  | node (c : Color) (l : ColorTree α) (x : α) (r : ColorTree α)

namespace ColorTree

variable {α : Type u} {d : Side} {c c' : Color} {a b t : ColorTree α} {x : α} {n : Nat}

/-- A node with `near` on its side `d`. -/
def fork (d : Side) (c : Color) (near : ColorTree α) (x : α) (far : ColorTree α) : ColorTree α :=
  match d with
  | .left => node c near x far
  | .right => node c far x near

theorem fork_other (d : Side) (c : Color) (a b : ColorTree α) (x : α) :
    fork d.other c a x b=fork d c b x a := by
  cases d <;> rfl

theorem eq_fork (d : Side) (t : ColorTree α) : t=leaf ∨ ∃ c a x b,t=fork d c a x b := by
  cases t with
  | leaf => exact .inl rfl
  | node c l x r =>
    cases d with
    | left => exact .inr ⟨c,l,x,r,rfl⟩
    | right => exact .inr ⟨c,r,x,l,rfl⟩

def inorder : ColorTree α → List α
  | leaf => []
  | node _ l x r => l.inorder++x::r.inorder

@[simp] theorem inorder_leaf : (leaf : ColorTree α).inorder=[] := rfl

@[simp] theorem inorder_fork :
    (fork d c a x b).inorder=d.join a.inorder x b.inorder := by
  cases d <;> rfl

def top : ColorTree α → Option α
  | leaf => none
  | node _ _ x _ => some x

@[simp] theorem top_leaf : (leaf : ColorTree α).top=none := rfl

@[simp] theorem top_fork : (fork d c a x b).top=some x := by
  cases d <;> rfl

theorem top_mem (h : t.top=some x) : x∈t.inorder := by
  cases t with
  | leaf => cases h
  | node c l y r =>
    cases h
    simp [inorder]

theorem top_eq_none (h : t.top=none) : t=leaf := by
  cases t with
  | leaf => rfl
  | node c l y r => cases h

def color : ColorTree α → Color
  | leaf => .black
  | node c _ _ _ => c

@[simp] theorem color_fork : (fork d c a x b).color=c := by
  cases d <;> rfl

def paint (c : Color) : ColorTree α → ColorTree α
  | leaf => leaf
  | node _ l x r => node c l x r

@[simp] theorem paint_fork : (fork d c' a x b).paint c=fork d c a x b := by
  cases d <;> rfl

@[simp] theorem inorder_paint (c : Color) (t : ColorTree α) : (t.paint c).inorder=t.inorder := by
  cases t <;> rfl

/-- No red node has a red child, and all paths down have `n` black nodes. -/
inductive RB : ColorTree α → Color → Nat → Prop where
  | leaf : RB leaf .black 0
  | red {l r : ColorTree α} {x : α} {n : Nat} : RB l .black n → RB r .black n →
      RB (node .red l x r) .red n
  | black {l r : ColorTree α} {x : α} {n : Nat} {cl cr : Color} : RB l cl n → RB r cr n →
      RB (node .black l x r) .black (n+1)

theorem RB.color_eq (h : RB t c n) : t.color=c := by
  cases h <;> rfl

theorem rb_red_iff : RB (fork d .red a x b) c n ↔ c = .red ∧ RB a .black n ∧ RB b .black n := by
  constructor
  · intro h
    cases d with
    | left => cases h with | red hl hr => exact ⟨rfl,hl,hr⟩
    | right => cases h with | red hl hr => exact ⟨rfl,hr,hl⟩
  · intro ⟨hc,ha,hb⟩
    subst hc
    cases d with
    | left => exact .red ha hb
    | right => exact .red hb ha

theorem rb_black_iff : RB (fork d .black a x b) c n ↔
    c = .black ∧ ∃ k,n=k+1 ∧ (∃ ca,RB a ca k) ∧ ∃ cb,RB b cb k := by
  constructor
  · intro h
    cases d with
    | left => cases h with | black hl hr => exact ⟨rfl,_,rfl,⟨_,hl⟩,_,hr⟩
    | right => cases h with | black hl hr => exact ⟨rfl,_,rfl,⟨_,hr⟩,_,hl⟩
  · intro ⟨hc,k,hn,⟨ca,ha⟩,cb,hb⟩
    subst hc hn
    cases d with
    | left => exact .black ha hb
    | right => exact .black hb ha

theorem RB.fork_red (d : Side) (x : α) (ha : RB a .black n) (hb : RB b .black n) :
    RB (fork d .red a x b) .red n := (rb_red_iff).mpr ⟨rfl,ha,hb⟩

theorem RB.fork_black (d : Side) (x : α) (ha : RB a c n) (hb : RB b c' n) :
    RB (fork d .black a x b) .black (n+1) := (rb_black_iff).mpr ⟨rfl,n,rfl,⟨c,ha⟩,c',hb⟩

theorem RB.paint_red (h : RB t .red n) : RB (t.paint .black) .black (n+1) := by
  cases h with | red hl hr => exact .black hl hr

theorem RB.paint_black (h : RB t c n) : ∃ k,RB (t.paint .black) .black k := by
  cases h with
  | leaf => exact ⟨0,.leaf⟩
  | red hl hr => exact ⟨_,.black hl hr⟩
  | black hl hr => exact ⟨_,.black hl hr⟩

end ColorTree

open ColorTree

/-- A node above the subtree that is looked at, which is on its side `side`. -/
structure Frame (α : Type u) where
  side : Side
  color : Color
  val : α
  sibling : ColorTree α

namespace Frame

variable {α : Type u} (f : Frame α) (t : ColorTree α)

def fill : ColorTree α := fork f.side f.color t f.val f.sibling

end Frame

/-- The frames from a subtree up to the root. -/
abbrev Spine (α : Type u) := List (Frame α)

namespace Spine

variable {α : Type u} {p : Spine α} {f : Frame α} {t : ColorTree α} {c : Color} {n : Nat}

def plug : Spine α → ColorTree α → ColorTree α
  | [], t => t
  | f::p, t => plug p (f.fill t)

def before : Spine α → List α
  | [] => []
  | f::p =>
    match f.side with
    | .left => before p
    | .right => before p++f.sibling.inorder++[f.val]

def after : Spine α → List α
  | [] => []
  | f::p =>
    match f.side with
    | .left => f.val::(f.sibling.inorder++after p)
    | .right => after p

theorem inorder_plug (p : Spine α) (t : ColorTree α) :
    (plug p t).inorder=before p++t.inorder++after p := by
  induction p generalizing t with
  | nil => simp [plug,before,after]
  | cons f p ih =>
    rw [plug,ih,Frame.fill,inorder_fork,before,after]
    cases f.side <;> simp [Side.join]

theorem plug_append (p q : Spine α) (t : ColorTree α) : plug (p++q) t=plug q (plug p t) := by
  induction p generalizing t with
  | nil => rfl
  | cons f p ih => exact ih (f.fill t)

def Admits : Spine α → Color → Nat → Prop
  | [], c, _ => c = .black
  | f::p, c, n =>
    match f.color with
    | .red => c = .black ∧ RB f.sibling .black n ∧ Admits p .red n
    | .black => (∃ c',RB f.sibling c' n) ∧ Admits p .black (n+1)

theorem admits_red (hf : f.color = .red) :
    Admits (f::p) c n ↔ c = .black ∧ RB f.sibling .black n ∧ Admits p .red n := by
  rw [Admits,hf]

theorem admits_black (hf : f.color = .black) :
    Admits (f::p) c n ↔ (∃ c',RB f.sibling c' n) ∧ Admits p .black (n+1) := by
  rw [Admits,hf]

theorem Admits.black (h : Admits p c n) : Admits p .black n := by
  cases p with
  | nil => rfl
  | cons f p =>
    cases hf : f.color with
    | red =>
      obtain ⟨-,hrest⟩ := (admits_red hf).mp h
      exact (admits_red hf).mpr ⟨rfl,hrest⟩
    | black => exact (admits_black hf).mpr ((admits_black hf).mp h)

theorem Admits.plug (hp : Admits p c n) (ht : RB t c n) : ∃ k,RB (plug p t) .black k := by
  induction p generalizing t c n with
  | nil =>
    have hc : c = .black := hp
    rw [← hc]
    exact ⟨n,ht⟩
  | cons f p ih =>
    cases hf : f.color with
    | red =>
      obtain ⟨hc,hs,hup⟩ := (admits_red hf).mp hp
      subst hc
      apply ih hup
      rw [Frame.fill,hf]
      exact ht.fork_red f.side f.val hs
    | black =>
      obtain ⟨⟨c',hs⟩,hup⟩ := (admits_black hf).mp hp
      apply ih hup
      rw [Frame.fill,hf]
      exact ht.fork_black f.side f.val hs

/-- Of a red-black tree every subtree is one that its path admits. -/
theorem admits_of_plug {k : Nat} (h : RB (Spine.plug p t) .black k) :
    ∃ c n,RB t c n ∧ Admits p c n := by
  induction p generalizing t with
  | nil => exact ⟨.black,k,h,rfl⟩
  | cons f p ih =>
    obtain ⟨c,n,hfill,hp⟩ := ih h
    cases hf : f.color with
    | red =>
      rw [Frame.fill,hf] at hfill
      obtain ⟨hc,ht,hs⟩ := rb_red_iff.mp hfill
      subst hc
      exact ⟨.black,n,ht,(admits_red hf).mpr ⟨rfl,hs,hp⟩⟩
    | black =>
      rw [Frame.fill,hf] at hfill
      obtain ⟨hc,j,hn,⟨ct,ht⟩,hs⟩ := rb_black_iff.mp hfill
      subst hc hn
      exact ⟨ct,j,ht,(admits_black hf).mpr ⟨hs,hp⟩⟩

end Spine

namespace ColorTree

variable {α : Type u} {t : ColorTree α} {x : α}

theorem exists_plug (h : x∈t.inorder) : ∃ p c l r,t=Spine.plug p (node c l x r) := by
  induction t with
  | leaf => cases h
  | node c l y r ihl ihr =>
    rcases mem_append.mp h with hl | hr
    · obtain ⟨p,c',l',r',he⟩ := ihl hl
      refine ⟨p++[⟨.left,c,y,r⟩],c',l',r',?_⟩
      rw [Spine.plug_append,← he]
      rfl
    · rcases mem_cons.mp hr with hy | hr
      · rw [hy]
        exact ⟨[],c,l,r,rfl⟩
      · obtain ⟨p,c',l',r',he⟩ := ihr hr
        refine ⟨p++[⟨.right,c,y,l⟩],c',l',r',?_⟩
        rw [Spine.plug_append,← he]
        rfl

end ColorTree

end OgsDp.Lib.RedBlack
