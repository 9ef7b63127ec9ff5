import OgsDp.Core.Conv
import OgsDp.Core.Octets
import OgsDp.Lib.Turns

/-!
# The FQDN codec (lib/proto/types.c)

On the wire a name is a sequence of labels, each behind an octet with its length.
-/

namespace OgsDp.Proto
open Lib OgsDp.Core Function List

def dot : Byte := 46

-- The loop of `ogs_fqdn_build` from `src[i]` on; `j` characters of the label are copied. The source
-- sets `j` to -1 at a dot and counts it up with `i`.
def fqdnBuildLoop : List Byte → Nat → Nat → (Nat → Byte) → Nat → Byte
  | [], i, j, dst => update dst (i-j) (Fin.ofNat 256 j)
  | b::src, i, j, dst =>
    if b=dot then
      fqdnBuildLoop src (i+1) 0 (update dst (i-j) (Fin.ofNat 256 j))
    else fqdnBuildLoop src (i+1) (j+1) (update dst (i+1) b)

/-- `ogs_fqdn_build`: the memory at `dst` behind it, and what it returns. -/
def ogsFqdnBuild (dst : Nat → Byte) (src : List Byte) : (Nat → Byte) × Nat :=
  (fqdnBuildLoop src 0 0 dst,src.length+1)

def invalid : Int := -22

/-- The loop of `ogs_fqdn_parse`: what it returns, if the given turns are enough, and `dst`. -/
def fqdnParseLoop (src : List Byte) :
    Nat → Nat → Nat → List Byte → Option (Except Fault (Int × List Byte))
  | 0, _, _, _ => none
  | turns+1, i, j, dst =>
    if i+1 ≤ src.length then
      match octetAt src i with
      | .error f => some (.error f)
      | .ok len =>
        if src.length<j+len.val+1 then some (.ok (invalid,dst))
        else
          match octetsAt src (i+1) len.val >>= storeAt dst j with
          | .error f => some (.error f)
          | .ok dst =>
            let i:=i+1+len.val
            let j:=j+len.val
            if i+1<src.length then
              match storeAt dst j [dot] with
              | .error f => some (.error f)
              | .ok dst => fqdnParseLoop src turns i (j+1) dst
            else
              match storeAt dst j [0] with
              | .error f => some (.error f)
              | .ok dst => fqdnParseLoop src turns i j dst
    else some (.ok (j,dst))

def ogsFqdnParse (turns : Nat) (src dst : List Byte) : Option (Except Fault (Int × List Byte)) :=
  fqdnParseLoop src turns 0 0 dst

def labelBytes (l : List Byte) : List Byte := Fin.ofNat 256 l.length::l

def wire (ls : List (List Byte)) : List Byte := ls.flatMap labelBytes

def Octet (ls : List (List Byte)) : Prop := ∀ l∈ls,l.length<256

def dotted : List (List Byte) → List Byte
  | [] => []
  | [l] => l
  | l::l'::ls => l++dot::dotted (l'::ls)

def parsedName : List (List Byte) → List Byte
  | [] => []
  | [l] => l
  | [l,[]] => l
  | l::l'::ls => l++dot::parsedName (l'::ls)

theorem parsedName_cons {l l' : List Byte} {ls : List (List Byte)} (h : ¬ (l'=[] ∧ ls=[])) :
    parsedName (l::l'::ls)=l++dot::parsedName (l'::ls) := by
  cases l' with
  | cons b l' => rfl
  | nil =>
    cases ls with
    | cons l'' ls => rfl
    | nil => exact absurd ⟨rfl,rfl⟩ h

theorem parsedName_dotted {ls : List (List Byte)} (h : ∀ l∈ls,l≠[]) :
    parsedName ls=dotted ls := by
  induction ls with
  | nil => rfl
  | cons l ls ih =>
    cases ls with
    | nil => rfl
    | cons l' ls =>
      have hl' : l'≠[] := h l' (by simp)
      rw [parsedName_cons fun hno => hl' hno.1,dotted,
        ih fun x hx => h x (mem_cons_of_mem _ hx)]

theorem zero_mem_parsedName {ls : List (List Byte)} :
    0∈parsedName ls ↔ ∃ l∈ls,(0 : Byte)∈l := by
  induction ls with
  | nil => simp [parsedName]
  | cons l ls ih =>
    cases ls with
    | nil => simp [parsedName]
    | cons l' ls =>
      by_cases hlast : l'=[] ∧ ls=[]
      · obtain ⟨rfl,rfl⟩ := hlast
        simp [parsedName]
      · have hdot : (0 : Byte)≠dot := by decide
        rw [parsedName_cons hlast,mem_append,mem_cons,ih,or_iff_right hdot]
        simp only [mem_cons,exists_eq_or_imp]

theorem length_wire_pos {ls : List (List Byte)} (h : ls≠[]) : 0<(wire ls).length := by
  obtain ⟨l,ls,rfl⟩ := exists_cons_of_ne_nil h
  exact Nat.succ_pos _

theorem memWrite_cons (dst : Nat → Byte) (a : Nat) (b : Byte) (l : List Byte) :
    memWrite (update dst a b) (a+1) l=memWrite dst a (b::l) := by
  funext x
  unfold memWrite
  rcases Nat.lt_trichotomy x a with hlt | rfl | hgt
  · rw [if_neg (by omega),if_neg (by omega),update_of_ne (by omega)]
  · rw [if_neg (by omega),if_pos (Nat.le_refl x),update_self,Nat.sub_self]
    rfl
  · obtain ⟨k,rfl⟩ : ∃ k,x=a+1+k := ⟨x-(a+1),by omega⟩
    have hk : a+1+k-a=k+1 := by omega
    rw [if_pos (by omega),if_pos (by omega),update_of_ne (by omega),hk,
      Nat.add_sub_cancel_left,List.getElem?_cons_succ]

theorem memWrite_nil (dst : Nat → Byte) (a : Nat) : memWrite dst a []=dst := by
  funext x
  unfold memWrite
  split <;> rfl

theorem fqdnBuildLoop_cons (b : Byte) (src : List Byte) (i j : Nat) (dst : Nat → Byte) :
    fqdnBuildLoop (b::src) i j dst =
      if b=dot then fqdnBuildLoop src (i+1) 0 (update dst (i-j) (Fin.ofNat 256 j))
      else fqdnBuildLoop src (i+1) (j+1) (update dst (i+1) b) := rfl

theorem fqdnBuildLoop_label {l : List Byte} (hl : dot∉l) (rest : List Byte) (i j : Nat)
    (dst : Nat → Byte) :
    fqdnBuildLoop (l++rest) i j dst =
      fqdnBuildLoop rest (i+l.length) (j+l.length) (memWrite dst (i+1) l) := by
  induction l generalizing i j dst with
  | nil => rw [memWrite_nil]; rfl
  | cons b l ih =>
    have hb : b≠dot := fun h => hl (h ▸ mem_cons_self ..)
    have hrest : dot∉l := fun h => hl (mem_cons_of_mem b h)
    rw [cons_append,fqdnBuildLoop_cons,if_neg hb,ih hrest,memWrite_cons,length_cons]
    congr 1
    · omega
    · omega

theorem fqdnBuildLoop_frame {src : List Byte} {i j x : Nat} (hj : j ≤ i) (hx : x < i-j)
    (dst : Nat → Byte) : fqdnBuildLoop src i j dst x=dst x := by
  induction src generalizing i j dst with
  | nil => rw [fqdnBuildLoop,update_of_ne (by omega)]
  | cons b src ih =>
    rw [fqdnBuildLoop_cons]
    split
    · rw [ih (by omega) (by omega),update_of_ne (by omega)]
    · rw [ih (by omega) (by omega),update_of_ne (by omega)]

theorem memRead_add (mem : Nat → Byte) (a n m : Nat) :
    memRead mem a (n+m)=memRead mem a n++memRead mem (a+n) m := by
  unfold memRead
  rw [range_add,map_append,List.map_map]
  congr 1
  apply map_congr_left
  intro i _
  show mem (a+(n+i))=mem (a+n+i)
  rw [Nat.add_assoc]

theorem memRead_label (dst : Nat → Byte) (i : Nat) (l : List Byte) :
    memRead (update (memWrite dst (i+1) l) i (Fin.ofNat 256 l.length)) i
      (1+l.length)=labelBytes l := by
  apply ext_getElem
  · simp [memRead,labelBytes,Nat.add_comm]
  · intro n hn hn'
    simp only [memRead,getElem_map,getElem_range]
    cases n with
    | zero => simp [labelBytes]
    | succ n =>
      have hlt : n<l.length := by simpa [labelBytes] using hn'
      have hsub : i+(n+1)-(i+1)=n := by omega
      rw [update_of_ne (by omega)]
      unfold memWrite
      rw [if_pos (by omega),hsub,List.getElem?_eq_getElem hlt]
      rfl

theorem fqdnBuildLoop_wire {l : List Byte} {ls : List (List Byte)}
    (hdot : ∀ x∈l::ls,dot∉x) (i : Nat) (dst : Nat → Byte) :
    memRead (fqdnBuildLoop (dotted (l::ls)) i 0 dst) i (wire (l::ls)).length =
      wire (l::ls) := by
  induction ls generalizing l i dst with
  | nil =>
    have hl:=hdot l (mem_cons_self ..)
    have hloop:=fqdnBuildLoop_label hl [] i 0 dst
    have hlen : (wire [l]).length=1+l.length := by simp [wire,labelBytes,Nat.add_comm]
    have hback : i+l.length-(0+l.length)=i := by omega
    rw [append_nil,fqdnBuildLoop,hback,Nat.zero_add] at hloop
    rw [hlen,dotted,hloop,memRead_label]
    exact (append_nil _).symm
  | cons l' ls ih =>
    have hl:=hdot l (mem_cons_self ..)
    have hrest : ∀ x∈l'::ls,dot∉x := fun x hx => hdot x (mem_cons_of_mem l hx)
    have hlen : (wire (l::l'::ls)).length=1+l.length+(wire (l'::ls)).length := by
      simp [wire,labelBytes]
      omega
    have hback : i+l.length-(0+l.length)=i := by omega
    have hloop:=fqdnBuildLoop_label hl (dot::dotted (l'::ls)) i 0 dst
    rw [fqdnBuildLoop_cons,if_pos rfl,hback,Nat.zero_add] at hloop
    rw [dotted,hloop,hlen,memRead_add]
    have hpos : i+(1+l.length)=i+l.length+1 := by omega
    rw [hpos,ih hrest]
    have hfront : memRead (fqdnBuildLoop (dotted (l'::ls)) (i+l.length+1) 0
        (update (memWrite dst (i+1) l) i (Fin.ofNat 256 l.length))) i (1+l.length) =
        labelBytes l := by
      rw [← memRead_label dst i l]
      apply map_congr_left
      intro k hk
      have hlt:=mem_range.mp hk
      exact fqdnBuildLoop_frame (Nat.zero_le _) (by omega) _
    rw [hfront]
    rfl

theorem ogsFqdnBuild_wire {ls : List (List Byte)} (hne : ls≠[]) (hdot : ∀ l∈ls,dot∉l)
    (mem : Nat → Byte) :
    (wire ls).length=(ogsFqdnBuild mem (dotted ls)).2 ∧
      memRead (ogsFqdnBuild mem (dotted ls)).1 0 (ogsFqdnBuild mem (dotted ls)).2=wire ls := by
  have hlen : (wire ls).length=(dotted ls).length+1 := by
    clear hdot
    induction ls with
    | nil => exact absurd rfl hne
    | cons l ls ih =>
      cases ls with
      | nil => simp [wire,labelBytes,dotted]
      | cons l' ls =>
        have hrest:=ih (cons_ne_nil _ _)
        simp only [wire,flatMap_cons,length_append,dotted,length_cons] at hrest ⊢
        simp only [labelBytes,length_cons] at hrest ⊢
        omega
  refine ⟨hlen,?_⟩
  obtain ⟨l,ls,rfl⟩ := exists_cons_of_ne_nil hne
  have hloop:=fqdnBuildLoop_wire hdot 0 mem
  rw [hlen] at hloop
  exact hloop

section Turns

variable {src dst l rest : List Byte} {len : Byte} {turns i : Nat}

theorem fqdnParse_some {j : Nat} (hi : i+1 ≤ src.length) (hget : octetAt src i = .ok len) :
    fqdnParseLoop src (turns+1) i j dst =
      if src.length<j+len.val+1 then some (.ok (invalid,dst))
      else
        match octetsAt src (i+1) len.val >>= storeAt dst j with
        | .error f => some (.error f)
        | .ok dst =>
          if i+1+len.val+1<src.length then
            match storeAt dst (j+len.val) [dot] with
            | .error f => some (.error f)
            | .ok dst => fqdnParseLoop src turns (i+1+len.val) (j+len.val+1) dst
          else
            match storeAt dst (j+len.val) [0] with
            | .error f => some (.error f)
            | .ok dst => fqdnParseLoop src turns (i+1+len.val) (j+len.val) dst := by
  refine (if_pos hi).trans ?_
  rw [hget]

theorem fqdnParse_short (hi : src.drop i=len::rest) (hlong : rest.length<len.val) :
    fqdnParseLoop src (turns+1) i i dst=some (.ok (invalid,dst)) := by
  have hlen:=congrArg List.length hi
  rw [length_drop,length_cons] at hlen
  have hget : octetAt src i = .ok len := octetAt_drop hi
  rw [fqdnParse_some (by omega) hget,if_pos (by omega)]

theorem fqdnParse_label (hi : src.drop i=labelBytes l++rest) (hl : l.length<256)
    (hdst : src.length≤dst.length) :
    ∃ dst',src.length≤dst'.length ∧
      dst'.take (i+l.length+1) =
        dst.take i++(l++[if 2 ≤ rest.length then dot else 0]) ∧
      src.drop (i+1+l.length)=rest ∧
      ∀ turns,fqdnParseLoop src (turns+1) i i dst =
        fqdnParseLoop src turns (i+1+l.length)
          (if 2 ≤ rest.length then i+1+l.length else i+l.length) dst' := by
  have hval : (Fin.ofNat 256 l.length : Byte).val=l.length := Nat.mod_eq_of_lt hl
  have hi' : src.drop i=Fin.ofNat 256 l.length::(l++rest) := hi
  have hlen:=congrArg List.length hi'
  rw [length_drop,length_cons,length_append] at hlen
  have hget : octetAt src i = .ok (Fin.ofNat 256 l.length) := octetAt_drop hi'
  have hnext : src.drop (i+1)=l++rest := by
    rw [← drop_drop,hi']
    rfl
  have hread : octetsAt src (i+1) l.length = .ok l := by
    rw [octetsAt_of_le (by omega),hnext,take_left' rfl]
  obtain ⟨dst₁,hstore₁,hlen₁,htake₁⟩ :=
    storeAt_of_le (d := dst) (i := i) (show i+l.length≤dst.length by omega)
  obtain ⟨dst₂,hstore₂,hlen₂,htake₂⟩ := storeAt_of_le (d := dst₁) (i := i+l.length)
    (show i+l.length+[if 2 ≤ rest.length then dot else 0].length≤dst₁.length by
      rw [length_singleton]; omega)
  refine ⟨dst₂,by omega,?_,?_,?_⟩
  · rw [length_singleton] at htake₂
    rw [htake₂,htake₁,append_assoc]
  · rw [← drop_drop,hnext,drop_left' rfl]
  · intro turns
    rw [fqdnParse_some (by omega) hget]
    simp only [hval]
    rw [if_neg (by omega),hread,ok_bind,hstore₁]
    simp only
    by_cases hmore : 2 ≤ rest.length
    · rw [if_pos hmore] at hstore₂
      have hj : i+l.length+1=i+1+l.length := by omega
      rw [if_pos (by omega),hstore₂,if_pos hmore,hj]
    · rw [if_neg hmore] at hstore₂
      rw [if_neg (by omega),hstore₂,if_neg hmore]

theorem fqdnParse_end (turns : Nat) {j : Nat} (hi : src.drop i=[]) :
    fqdnParseLoop src (turns+1) i j dst=some (.ok (j,dst)) := by
  have hlen:=congrArg List.length hi
  rw [length_drop,length_nil] at hlen
  exact if_neg (by omega)

theorem fqdnParse_trailing (turns : Nat) {j : Nat} (hi : src.drop (j+1)=[len])
    (hdst : src.length≤dst.length) :
    (1<len.val → fqdnParseLoop src (turns+1) (j+1) j dst=some (.ok (invalid,dst))) ∧
    (len=1 → fqdnParseLoop src (turns+1) (j+1) j dst=some (.error .read)) ∧
    (len=0 → ∃ dst',dst'.take (j+1)=dst.take j++[0] ∧
      fqdnParseLoop src (turns+2) (j+1) j dst=some (.ok (j,dst'))) := by
  have hlen:=congrArg List.length hi
  rw [length_drop,length_singleton] at hlen
  have hget : octetAt src (j+1) = .ok len := octetAt_drop hi
  refine ⟨fun hlong => ?_,fun hone => ?_,fun hzero => ?_⟩
  · rw [fqdnParse_some (by omega) hget,if_pos (by omega)]
  · subst hone
    have hread : octetsAt src (j+1+1) (1 : Byte).val = .error .read :=
      octetsAt_of_lt (by show src.length<j+1+1+1; omega)
    have hcheck : ¬ src.length<j+(1 : Byte).val+1 := by
      show ¬ src.length<j+1+1
      omega
    rw [fqdnParse_some (by omega) hget,if_neg hcheck,hread]
    rfl
  · have hval : len.val=0 := by rw [hzero]; rfl
    have hread : octetsAt src (j+1+1) 0 = .ok [] := by
      rw [octetsAt_of_le (by omega)]
      rfl
    obtain ⟨dst₁,hstore₁,hlen₁,htake₁⟩ :=
      storeAt_of_le (d := dst) (i := j)
        (show j+([] : List Byte).length≤dst.length by rw [length_nil]; omega)
    obtain ⟨dst₂,hstore₂,hlen₂,htake₂⟩ :=
      storeAt_of_le (d := dst₁) (i := j)
        (show j+[(0 : Byte)].length≤dst₁.length by rw [length_singleton]; omega)
    rw [length_nil,Nat.add_zero,append_nil] at htake₁
    refine ⟨dst₂,by rw [length_singleton] at htake₂; rw [htake₂,htake₁],?_⟩
    have hend : src.drop (j+1+1)=[] := drop_eq_nil_of_le (by omega)
    rw [fqdnParse_some (by omega) hget]
    simp only [hval,Nat.add_zero]
    rw [if_neg (by omega),hread,ok_bind,hstore₁]
    simp only
    rw [if_neg (by omega),hstore₂]
    exact fqdnParse_end turns hend

theorem fqdnParse_succ {r : Except Fault (Int × List Byte)} {j : Nat}
    (h : fqdnParseLoop src turns i j dst=some r) :
    fqdnParseLoop src (turns+1) i j dst=some r := by
  induction turns generalizing i j dst with
  | zero => cases h
  | succ turns ih =>
    rw [fqdnParseLoop] at h ⊢
    split at h
    · rename_i hmore
      rw [if_pos hmore]
      cases hlen : octetAt src i with
      | error f => rw [hlen] at h; exact h
      | ok len =>
        rw [hlen] at h
        simp only at h ⊢
        split at h
        · rename_i hlong
          rw [if_pos hlong]
          exact h
        · rename_i hfits
          rw [if_neg hfits]
          cases hcopy : octetsAt src (i+1) len.val >>= storeAt dst j with
          | error f => rw [hcopy] at h; exact h
          | ok dst₁ =>
            rw [hcopy] at h
            simp only at h ⊢
            split at h
            · rename_i hnext
              rw [if_pos hnext]
              cases hput : storeAt dst₁ (j+len.val) [dot] with
              | error f => rw [hput] at h; exact h
              | ok dst₂ => rw [hput] at h; exact ih h
            · rename_i hnext
              rw [if_neg hnext]
              cases hput : storeAt dst₁ (j+len.val) [0] with
              | error f => rw [hput] at h; exact h
              | ok dst₂ => rw [hput] at h; exact ih h
    · rename_i hmore
      rw [if_neg hmore]
      exact h

theorem fqdnParse_mono {r : Except Fault (Int × List Byte)} {j : Nat}
    (h : fqdnParseLoop src turns i j dst=some r) (more : Nat) :
    fqdnParseLoop src (turns+more) i j dst=some r := by
  induction more with
  | zero => exact h
  | succ more ih => exact fqdnParse_succ ih

theorem fqdnParse_unique {r r' : Except Fault (Int × List Byte)} {j turns' : Nat}
    (h : fqdnParseLoop src turns i j dst=some r)
    (h' : fqdnParseLoop src turns' i j dst=some r') : r=r' := by
  have hmore:=fqdnParse_mono h turns'
  have hmore':=fqdnParse_mono h' turns
  rw [Nat.add_comm turns' turns,hmore] at hmore'
  exact Option.some.inj hmore'

end Turns

section Whole

variable {src dst : List Byte} {ls : List (List Byte)} {i : Nat}

theorem two_le_length_wire {l : List Byte} (h : ¬ (l=[] ∧ ls=[])) :
    2≤(wire (l::ls)).length := by
  rw [wire,flatMap_cons,length_append,labelBytes,length_cons]
  by_cases hl : l=[]
  · have hpos:=length_wire_pos fun hls : ls=[] => h ⟨hl,hls⟩
    unfold wire at hpos
    omega
  · have hpos:=length_pos_iff.mpr hl
    omega

theorem fqdnParse_wire (hne : ls≠[]) (hoct : Octet ls) (hi : src.drop i=wire ls)
    (hdst : src.length≤dst.length) :
    ∃ dst',dst'.take (i+(parsedName ls).length+1) =
        dst.take i++(parsedName ls++[0]) ∧
      fqdnParseLoop src (ls.length+1) i i dst =
        some (.ok (((i+(parsedName ls).length : Nat) : Int),dst')) := by
  induction ls generalizing i dst with
  | nil => exact absurd rfl hne
  | cons l ls ih =>
    obtain ⟨hl,hoct'⟩ := forall_mem_cons.mp hoct
    cases ls with
    | nil =>
      obtain ⟨dst₁,hlen₁,htake₁,hrest,hturn⟩ :=
        fqdnParse_label (show src.drop i=labelBytes l++[] from hi) hl hdst
      refine ⟨dst₁,htake₁,(hturn 1).trans ?_⟩
      exact fqdnParse_end 0 hrest
    | cons l' ls =>
      obtain ⟨dst₁,hlen₁,htake₁,hrest,hturn⟩ :=
        fqdnParse_label (show src.drop i=labelBytes l++wire (l'::ls) from hi) hl hdst
      by_cases hlast : l'=[] ∧ ls=[]
      · obtain ⟨rfl,rfl⟩ := hlast
        have hone : ¬ 2≤(wire [([] : List Byte)]).length := by decide
        rw [if_neg hone] at htake₁ hturn
        have hj : i+1+l.length=i+l.length+1 := by omega
        rw [hj] at hrest hturn
        obtain ⟨dst₂,htake₂,hend⟩ := (fqdnParse_trailing 0 hrest hlen₁).2.2 rfl
        refine ⟨dst₂,?_,(hturn 2).trans hend⟩
        have hfront : dst₁.take (i+l.length)=dst.take i++l := by
          have hcut:=congrArg (List.take (i+l.length)) htake₁
          have hmin : min (i+l.length) (i+l.length+1)=i+l.length := by omega
          rw [take_take,hmin,← append_assoc,take_left'] at hcut
          · exact hcut
          · have hsize:=congrArg List.length hi
            rw [length_drop,wire,flatMap_cons,length_append] at hsize
            simp only [labelBytes,length_cons] at hsize
            rw [length_append,length_take]
            omega
        show dst₂.take (i+l.length+1)=dst.take i++(l++[0])
        rw [htake₂,hfront,append_assoc]
      · have hmore:=two_le_length_wire hlast
        rw [if_pos hmore] at htake₁ hturn
        obtain ⟨dst₂,htake₂,hloop⟩ := ih (cons_ne_nil _ _) hoct' hrest hlen₁
        have hj : i+1+l.length=i+l.length+1 := by omega
        have hlen : i+(parsedName (l::l'::ls)).length =
            i+1+l.length+(parsedName (l'::ls)).length := by
          rw [parsedName_cons hlast,length_append,length_cons]
          omega
        refine ⟨dst₂,?_,?_⟩
        · rw [hlen,htake₂,hj,htake₁,parsedName_cons hlast]
          simp only [append_assoc,cons_append,nil_append]
        · rw [hlen]
          exact (hturn _).trans hloop

theorem fqdnParse_wire_one (hne : ls≠[]) (hoct : Octet ls) (hi : src.drop i=wire ls++[1])
    (hdst : src.length≤dst.length) :
    fqdnParseLoop src (ls.length+1) i i dst=some (.error .read) := by
  induction ls generalizing i dst with
  | nil => exact absurd rfl hne
  | cons l ls ih =>
    obtain ⟨hl,hoct'⟩ := forall_mem_cons.mp hoct
    have hi' : src.drop i=labelBytes l++(wire ls++[1]) := by
      rw [hi,wire,flatMap_cons,append_assoc]
      rfl
    obtain ⟨dst₁,hlen₁,-,hrest,hturn⟩ :=
      fqdnParse_label hi' hl hdst
    rw [length_cons,hturn (ls.length+1)]
    cases ls with
    | nil =>
      have hone : ¬ 2≤(wire []++[(1 : Byte)]).length := by decide
      have hj : i+1+l.length=i+l.length+1 := by omega
      rw [if_neg hone,hj]
      rw [hj] at hrest
      exact (fqdnParse_trailing 0 hrest hlen₁).2.1 rfl
    | cons l' ls =>
      have hmore : 2≤(wire (l'::ls)++[(1 : Byte)]).length := by
        have hpos:=length_wire_pos (cons_ne_nil l' ls)
        rw [length_append,length_singleton]
        omega
      rw [if_pos hmore]
      exact ih (cons_ne_nil _ _) hoct' hrest hlen₁

theorem fqdnParse_other {n : Nat} (hn : (src.drop i).length≤n) (hsome : src.drop i≠[])
    (hwhole : ∀ ls,ls≠[] → Octet ls → src.drop i≠wire ls)
    (hone : ∀ ls,ls≠[] → Octet ls → src.drop i≠wire ls++[1])
    (hdst : src.length≤dst.length) :
    ∃ turns dst',fqdnParseLoop src turns i i dst=some (.ok (invalid,dst')) := by
  induction n generalizing i dst with
  | zero => exact absurd (length_eq_zero_iff.mp (Nat.le_zero.mp hn)) hsome
  | succ n ih =>
    obtain ⟨len,rest,hi⟩ := exists_cons_of_ne_nil hsome
    by_cases hlong : rest.length<len.val
    · exact ⟨1,dst,fqdnParse_short hi hlong⟩
    obtain ⟨l,rest',hrest,hl⟩ : ∃ l rest',rest=l++rest' ∧ l.length=len.val :=
      ⟨rest.take len.val,rest.drop len.val,(take_append_drop _ _).symm,by
        rw [length_take]; omega⟩
    have hoctet : l.length<256 := hl ▸ len.isLt
    have hfirst : (Fin.ofNat 256 l.length : Byte)=len := by
      rw [hl]
      exact Fin.ofNat_val_eq_self len
    have hi' : src.drop i=labelBytes l++rest' := by
      rw [hi,hrest,labelBytes,hfirst]
      rfl
    have hcons : ∀ ls,Octet ls → Octet (l::ls) := fun ls hls =>
      forall_mem_cons.mpr ⟨hoctet,hls⟩
    have hnil : rest'≠[] := fun h => by
      refine hwhole [l] (cons_ne_nil _ _) (hcons [] nofun) ?_
      rw [hi',h]
      rfl
    obtain ⟨dst₁,hlen₁,-,hdrop,hturn⟩ := fqdnParse_label hi' hoctet hdst
    rw [hi',labelBytes,length_append,length_cons] at hn
    by_cases hmore : 2 ≤ rest'.length
    · rw [if_pos hmore] at hturn
      obtain ⟨turns,dst₂,hloop⟩ := ih (by rw [hdrop]; omega) (by rw [hdrop]; exact hnil)
        (fun ls hls hoct h => hwhole (l::ls) (cons_ne_nil _ _) (hcons ls hoct) (by
          rw [hi',← hdrop,h]; rfl))
        (fun ls hls hoct h => hone (l::ls) (cons_ne_nil _ _) (hcons ls hoct) (by
          rw [hi',← hdrop,h,← append_assoc]; rfl)) hlen₁
      exact ⟨turns+1,dst₂,(hturn turns).trans hloop⟩
    · have hpos:=length_pos_iff.mpr hnil
      obtain ⟨b,rfl⟩ : ∃ b,rest'=[b] := List.length_eq_one_iff.mp (by omega)
      have hj : i+1+l.length=i+l.length+1 := by omega
      have hzero : b≠0 := fun h => by
        refine hwhole [l,[]] (cons_ne_nil _ _) (hcons [[]] ?_) ?_
        · exact fun x hx => by rw [mem_singleton.mp hx]; decide
        · rw [hi',h]
          rfl
      have hnotone : b≠1 := fun h => by
        refine hone [l] (cons_ne_nil _ _) (hcons [] nofun) ?_
        rw [hi',h]
        simp [wire]
      have hval0 : b.val≠0 := fun hv => hzero (Fin.ext hv)
      have hval1 : b.val≠1 := fun hv => hnotone (Fin.ext hv)
      rw [if_neg hmore,hj] at hturn
      rw [hj] at hdrop
      exact ⟨2,dst₁,(hturn 1).trans ((fqdnParse_trailing 0 hdrop hlen₁).1 (by omega))⟩

end Whole

/-- The call returns an error, or the length of the name that it leaves in `dst` with a zero behind
it; it neither reads nor writes elsewhere. -/
def FqdnSound (src dst : List Byte) : Prop :=
  ∃ turns r dst',ogsFqdnParse turns src dst=some (.ok (r,dst')) ∧
    (r<0 ∨ ∃ name : List Byte, r=name.length ∧ 0∉name ∧ name++[0] <+: dst')

/-- There are octets, they are not whole labels followed by a single octet 1, and if they are whole
labels, no label has a zero octet. -/
structure FqdnReadable (src : List Byte) : Prop where
  some : src≠[]
  inside : ∀ ls,ls≠[] → Octet ls → src≠wire ls++[1]
  text : ∀ ls,Octet ls → src=wire ls → ∀ l∈ls,0∉l

theorem fqdnSound_iff {src dst : List Byte} (hdst : dst.length=src.length) :
    FqdnSound src dst ↔ FqdnReadable src := by
  have hdrop : src.drop 0=src := rfl
  have hdst' : src.length≤dst.length := Nat.le_of_eq hdst.symm
  unfold FqdnSound ogsFqdnParse
  constructor
  · rintro ⟨turns,r,dst',hparse,hr⟩
    refine ⟨fun hnil => ?_,fun ls hne hoct hsrc => ?_,fun ls hoct hsrc l hl hzero => ?_⟩
    · subst hnil
      have hend:=fqdnParse_unique hparse (fqdnParse_end 0 (i := 0) (j := 0) rfl)
      obtain ⟨rfl,rfl⟩ := Prod.mk.inj (Except.ok.inj hend)
      rcases hr with hneg | ⟨name,-,-,hname⟩
      · exact absurd hneg (by decide)
      · rw [eq_nil_of_length_eq_zero hdst] at hname
        exact absurd (List.prefix_nil.mp hname) (by simp)
    · cases fqdnParse_unique hparse (fqdnParse_wire_one hne hoct (hdrop.trans hsrc) hdst')
    · have hne : ls≠[] := ne_nil_of_mem hl
      obtain ⟨dst₁,htake,hloop⟩ := fqdnParse_wire hne hoct (hdrop.trans hsrc) hdst'
      obtain ⟨rfl,rfl⟩ := Prod.mk.inj (Except.ok.inj (fqdnParse_unique hparse hloop))
      rw [Nat.zero_add] at htake hr
      rcases hr with hneg | ⟨name,hlen,hno,hname⟩
      · omega
      · have hlen' : (parsedName ls).length=name.length := by exact_mod_cast hlen
        have hsame:=prefix_iff_eq_take.mp hname
        rw [length_append,length_singleton,← hlen',htake] at hsame
        have heq : name=parsedName ls := append_cancel_right hsame
        exact hno (heq ▸ zero_mem_parsedName.mpr ⟨l,hl,hzero⟩)
  · intro h
    by_cases hwhole : ∃ ls,ls≠[] ∧ Octet ls ∧ src=wire ls
    · obtain ⟨ls,hne,hoct,hsrc⟩ := hwhole
      obtain ⟨dst',htake,hloop⟩ := fqdnParse_wire hne hoct (hdrop.trans hsrc) hdst'
      rw [Nat.zero_add] at htake hloop
      refine ⟨_,_,dst',hloop,.inr ⟨parsedName ls,rfl,fun hzero => ?_,?_⟩⟩
      · obtain ⟨l,hl,hmem⟩ := zero_mem_parsedName.mp hzero
        exact h.text ls hoct hsrc l hl hmem
      · have hfront : parsedName ls++[0]=dst'.take ((parsedName ls).length+1) :=
          htake.symm
        rw [hfront]
        exact take_prefix _ _
    · obtain ⟨turns,dst',hloop⟩ := fqdnParse_other (i := 0) (Nat.le_refl _) h.some
        (fun ls hne hoct hsrc => hwhole ⟨ls,hne,hoct,hsrc⟩) h.inside hdst'
      exact ⟨turns,invalid,dst',hloop,.inl (by decide)⟩

theorem ogsFqdnParse_built {ls : List (List Byte)} {dst : List Byte} (hne : ls≠[])
    (hls : ∀ l∈ls,l.length<256 ∧ dot∉l) (hname : parsedName ls=dotted ls)
    (mem : Nat → Byte) (hdst : dst.length=(dotted ls).length+1) :
    ∃ turns dst',ogsFqdnParse turns
        (memRead (ogsFqdnBuild mem (dotted ls)).1 0 (ogsFqdnBuild mem (dotted ls)).2) dst =
          some (.ok ((dotted ls).length,dst')) ∧
      dotted ls++[0] <+: dst' := by
  obtain ⟨hlen,hbuilt⟩ := ogsFqdnBuild_wire hne (fun l hl => (hls l hl).2) mem
  obtain ⟨dst',htake,hloop⟩ := fqdnParse_wire hne (fun l hl => (hls l hl).1)
    (show (wire ls).drop 0=wire ls from rfl) (Nat.le_of_eq (hlen.trans hdst.symm))
  rw [hname,Nat.zero_add] at htake hloop
  refine ⟨_,dst',by rw [hbuilt]; exact hloop,?_⟩
  have hfront : dotted ls++[0]=dst'.take ((dotted ls).length+1) := htake.symm
  rw [hfront]
  exact take_prefix _ _

/-- The name of non-empty labels comes back from the wire with its length, and of all octet strings
the parser is sound on those named here. -/
theorem fqdn_codec (ls : List (List Byte)) (mem : Nat → Byte) (src dst : List Byte) :
    ((∀ l∈ls,l≠[] ∧ l.length≤63 ∧ dot∉l) → dst.length=(dotted ls).length+1 →
      ∃ turns dst',ogsFqdnParse turns
          (memRead (ogsFqdnBuild mem (dotted ls)).1 0 (ogsFqdnBuild mem (dotted ls)).2) dst =
            some (.ok ((dotted ls).length,dst')) ∧
        dotted ls++[0] <+: dst') ∧
    (dst.length=src.length → (FqdnSound src dst ↔ FqdnReadable src)) := by
  refine ⟨fun hls hdst => ?_,fqdnSound_iff⟩
  cases ls with
  | nil =>
    refine ogsFqdnParse_built (cons_ne_nil ([] : List Byte) []) (fun l hl => ?_) rfl mem hdst
    rw [mem_singleton.mp hl]
    exact ⟨by decide,not_mem_nil⟩
  | cons l ls =>
    refine ogsFqdnParse_built (cons_ne_nil _ _) (fun x hx => ?_)
      (parsedName_dotted fun x hx => (hls x hx).1) mem hdst
    exact ⟨Nat.lt_of_le_of_lt (hls x hx).2.1 (by decide),(hls x hx).2.2⟩

theorem fqdn_codec_internet :
    (∃ turns dst',ogsFqdnParse turns
        (memRead (ogsFqdnBuild (fun _ => 7) (dotted [ascii "ims",ascii "net"])).1 0
          (ogsFqdnBuild (fun _ => 7) (dotted [ascii "ims",ascii "net"])).2)
        (List.replicate 8 7)=some (.ok (7,dst')) ∧
      ascii "ims.net" ++ [0] <+: dst') ∧
    (FqdnSound [3,110,101,116] [0,0,0,0] ↔ FqdnReadable [3,110,101,116]) := by
  have hcodec:=fqdn_codec [ascii "ims",ascii "net"] (fun _ => 7) [3,110,101,116]
  refine ⟨(hcodec (List.replicate 8 7)).1 (by decide) (by decide),?_⟩
  exact (hcodec [0,0,0,0]).2 rfl

/-- The label `net` and one octet 1 behind it: what is behind the octets is read. -/
theorem fqdn_read_behind :
    ogsFqdnParse 3 [3,110,101,116,1] [0,0,0,0,0]=some (.error .read) ∧
      ¬ FqdnSound [3,110,101,116,1] [0,0,0,0,0] := by
  have hread : ogsFqdnParse 3 [3,110,101,116,1] [0,0,0,0,0]=some (.error .read) := by
    decide
  refine ⟨hread,?_⟩
  rintro ⟨turns,r,dst',hparse,-⟩
  cases fqdnParse_unique hparse hread

def fqdnStep (mem : List Byte) (length : Nat) (s : Nat × Nat × List Byte) :
    Except Fault ((Nat × Nat × List Byte) ⊕ (Int × List Byte)) :=
  if s.1+1≤length then do
    let len ← octetAt mem s.1
    if length<s.2.1+len.val+1 then .ok (.inr (invalid,s.2.2))
    else do
      let label ← octetsAt mem (s.1+1) len.val
      let dst ← storeAt s.2.2 s.2.1 label
      let i:=s.1+1+len.val
      let j:=s.2.1+len.val
      if i+1<length then do
        let dst ← storeAt dst j [dot]
        .ok (.inl (i,j+1,dst))
      else do
        let dst ← storeAt dst j [0]
        .ok (.inl (i,j,dst))
  else .ok (.inr (s.2.1,s.2.2))

def fqdnParseOf (mem : List Byte) (length : Nat) (dst : List Byte) : Turns (Int × List Byte) :=
  Turns.loop (fqdnStep mem length) (0,0,dst)

section Behind

variable {src behind dst : List Byte} {turns i j : Nat}

theorem loopRun_fqdnStep :
    Turns.loopRun (fqdnStep src src.length) turns (i,j,dst) =
      fqdnParseLoop src turns i j dst := by
  induction turns generalizing i j dst with
  | zero => rfl
  | succ turns ih =>
    rw [Turns.loopRun,fqdnParseLoop]
    unfold fqdnStep
    dsimp only
    by_cases hmore : i+1 ≤ src.length
    · rw [if_pos hmore,if_pos hmore]
      cases octetAt src i with
      | error f => rfl
      | ok len =>
        rw [ok_bind]
        dsimp only
        by_cases hlong : src.length<j+len.val+1
        · rw [if_pos hlong,if_pos hlong]
        · rw [if_neg hlong,if_neg hlong]
          cases octetsAt src (i+1) len.val with
          | error f => rfl
          | ok label =>
            rw [ok_bind,ok_bind]
            cases storeAt dst j label with
            | error f => rfl
            | ok dst₁ =>
              rw [ok_bind]
              dsimp only
              by_cases hnext : i+1+len.val+1<src.length
              · rw [if_pos hnext,if_pos hnext]
                cases storeAt dst₁ (j+len.val) [dot] with
                | error f => rfl
                | ok dst₂ => exact ih
              · rw [if_neg hnext,if_neg hnext]
                cases storeAt dst₁ (j+len.val) [0] with
                | error f => rfl
                | ok dst₂ => exact ih
    · rw [if_neg hmore,if_neg hmore]

theorem fqdnStep_behind {s : Nat × Nat × List Byte}
    {r : (Nat × Nat × List Byte) ⊕ (Int × List Byte)} (h : fqdnStep src src.length s = .ok r) :
    fqdnStep (src++behind) src.length s = .ok r := by
  have hone : ∀ {n : Nat} {b : Byte},
      octetAt src n = .ok b → octetAt (src++behind) n = .ok b := by
    intro n b hb
    by_cases hn : n<src.length
    · rw [octetAt_of_lt hn] at hb
      rw [octetAt_of_lt (by rw [length_append]; omega),List.getElem?_append_left hn]
      exact hb
    · rw [octetAt_of_le (Nat.not_lt.mp hn)] at hb
      cases hb
  have hmany : ∀ {n m : Nat} {l : List Byte}, octetsAt src n m = .ok l →
      octetsAt (src++behind) n m = .ok l := by
    intro n m l hl
    by_cases hn : n+m ≤ src.length
    · have htake : m≤(src.drop n).length := by
        rw [length_drop]
        omega
      rw [octetsAt_of_le hn] at hl
      rw [octetsAt_of_le (by rw [length_append]; omega),
        drop_append_of_le_length (by omega),take_append_of_le_length htake]
      exact hl
    · rw [octetsAt_of_lt (Nat.not_le.mp hn)] at hl
      cases hl
  unfold fqdnStep at h ⊢
  split at h
  · rename_i hmore
    rw [if_pos hmore]
    obtain ⟨len,hlen,h⟩ := bind_eq_ok.mp h
    refine bind_eq_ok.mpr ⟨len,hone hlen,?_⟩
    split at h
    · rename_i hlong
      rw [if_pos hlong]
      exact h
    · rename_i hfits
      rw [if_neg hfits]
      obtain ⟨label,hlabel,h⟩ := bind_eq_ok.mp h
      exact bind_eq_ok.mpr ⟨label,hmany hlabel,h⟩
  · rename_i hmore
    rw [if_neg hmore]
    exact h

/-- What the indices are at the beginning of a turn: the write index is the read index, or one
behind it at the last octet. -/
structure FqdnAt (length : Nat) (s : Nat × Nat × List Byte) : Prop where
  behind : s.2.1 ≤ s.1
  close : s.1+1≤length → s.1=s.2.1 ∨ s.1=s.2.1+1 ∧ s.1+1=length
  room : length ≤ s.2.2.length

theorem fqdnStep_succeeds (hbehind : behind≠[]) (s : Nat × Nat × List Byte)
    (hs : FqdnAt src.length s) :
    (∃ a,fqdnStep (src++behind) src.length s = .ok (.inr a)) ∨
      ∃ s',fqdnStep (src++behind) src.length s = .ok (.inl s') ∧ FqdnAt src.length s' ∧
        src.length+1-s'.1<src.length+1-s.1 := by
  obtain ⟨i,j,dst⟩ := s
  have hij : j ≤ i := hs.behind
  have hclose : i+1 ≤ src.length → i=j ∨ i=j+1 ∧ i+1=src.length := hs.close
  have hroom : src.length≤dst.length := hs.room
  have hpos:=length_pos_iff.mpr hbehind
  have hmem : (src++behind).length=src.length+behind.length := length_append
  unfold fqdnStep
  dsimp only
  by_cases hmore : i+1 ≤ src.length
  swap
  · rw [if_neg hmore]
    exact .inl ⟨_,rfl⟩
  rw [if_pos hmore,octetAt_of_lt (by omega),ok_bind]
  generalize ((src++behind)[i]?).getD 0=len
  by_cases hlong : src.length<j+len.val+1
  · rw [if_pos hlong]
    exact .inl ⟨_,rfl⟩
  have hcase:=hclose hmore
  have hlabel : (((src++behind).drop (i+1)).take len.val).length=len.val := by
    rw [length_take,length_drop]
    omega
  rw [if_neg hlong,octetsAt_of_le (by omega),ok_bind]
  obtain ⟨dst₁,hstore₁,hlen₁,-⟩ := storeAt_of_le
    (show j+(((src++behind).drop (i+1)).take len.val).length≤dst.length by omega)
  have hend : j+len.val+1≤dst₁.length := by omega
  have hput : ∀ b : Byte, ∃ dst₂,storeAt dst₁ (j+len.val) [b] = .ok dst₂ ∧
      dst₂.length=dst₁.length := fun b => by
    obtain ⟨dst₂,hstore₂,hlen₂,-⟩ := storeAt_of_le
      (show j+len.val+[b].length≤dst₁.length from hend)
    exact ⟨dst₂,hstore₂,hlen₂⟩
  rw [hstore₁,ok_bind]
  by_cases hnext : i+1+len.val+1<src.length
  · obtain ⟨dst₂,hstore₂,hlen₂⟩ := hput dot
    rw [if_pos hnext,hstore₂,ok_bind]
    exact .inr ⟨_,rfl,⟨by dsimp only; omega,fun _ => by dsimp only; omega,
      by dsimp only; omega⟩,by dsimp only; omega⟩
  · obtain ⟨dst₂,hstore₂,hlen₂⟩ := hput 0
    rw [if_neg hnext,hstore₂,ok_bind]
    exact .inr ⟨_,rfl,⟨by dsimp only; omega,fun _ => by dsimp only at *; omega,
      by dsimp only; omega⟩,by dsimp only; omega⟩

theorem fqdnParseOf_returns (hdst : src.length≤dst.length) :
    (∃ r,(fqdnParseOf (src++behind) src.length dst).Returns r) ↔
      (behind=[] → ∀ ls,ls≠[] → Octet ls → src≠wire ls++[1]) := by
  unfold fqdnParseOf
  by_cases hbehind : behind=[]
  swap
  · have hstart : FqdnAt src.length (0,0,dst) := ⟨Nat.le_refl 0,fun _ => .inl rfl,hdst⟩
    obtain ⟨a,ha⟩ := Turns.leads_of_measure (fun s => src.length+1-s.1)
      (fqdnStep_succeeds hbehind) hstart
    exact iff_of_true ⟨a,Turns.returns_loop.mpr ha⟩ fun hnil => absurd hnil hbehind
  subst hbehind
  rw [append_nil]
  have hrun : ∀ turns,(Turns.loop (fqdnStep src src.length) (0,0,dst)).run turns =
      fqdnParseLoop src turns 0 0 dst := fun _ => loopRun_fqdnStep
  constructor
  · rintro ⟨r,turns,hr⟩-ls hne hoct hsrc
    rw [hrun] at hr
    cases fqdnParse_unique hr (fqdnParse_wire_one hne hoct (drop_zero.trans hsrc) hdst)
  · intro hone
    have hreturns : ∀ {turns : Nat} {r : Int × List Byte},
        fqdnParseLoop src turns 0 0 dst=some (.ok r) →
        ∃ r,(Turns.loop (fqdnStep src src.length) (0,0,dst)).Returns r :=
      fun {turns r} h => ⟨r,turns,(hrun turns).trans h⟩
    by_cases hnil : src=[]
    · exact hreturns (fqdnParse_end 0 (by rw [hnil]; rfl))
    by_cases hwhole : ∃ ls,ls≠[] ∧ Octet ls ∧ src=wire ls
    · obtain ⟨ls,hne,hoct,hsrc⟩ := hwhole
      obtain ⟨dst',-,hloop⟩ := fqdnParse_wire hne hoct (drop_zero.trans hsrc) hdst
      exact hreturns hloop
    · obtain ⟨turns,dst',hloop⟩ := fqdnParse_other (i := 0) (Nat.le_refl _) hnil
        (fun ls hne hoct hsrc => hwhole ⟨ls,hne,hoct,hsrc⟩) (hone rfl) hdst
      exact hreturns hloop

theorem fqdnParseOf_wire {ls : List (List Byte)} (hne : ls≠[]) (hoct : Octet ls)
    (hdst : (wire ls).length≤dst.length) :
    ∃ dst',parsedName ls++[0] <+: dst' ∧
      (fqdnParseOf (wire ls++behind) (wire ls).length dst).Returns
        ((parsedName ls).length,dst') := by
  obtain ⟨dst',htake,hloop⟩ := fqdnParse_wire hne hoct
    (show (wire ls).drop 0=wire ls from rfl) hdst
  rw [Nat.zero_add] at htake hloop
  have hfront : parsedName ls++[0]=dst'.take ((parsedName ls).length+1) := htake.symm
  refine ⟨dst',by rw [hfront]; exact take_prefix _ _,ls.length+1,?_⟩
  exact Turns.loopRun_of_step (fun _ _ h => fqdnStep_behind h)
    (loopRun_fqdnStep.trans hloop)

theorem storeAt_behind {d d' bytes : List Byte} {k : Nat} (h : storeAt d i bytes = .ok d')
    (hk : i+bytes.length≤k) : d'[k]?=d[k]? := by
  unfold storeAt at h
  split at h
  · rename_i hfits
    obtain rfl := Except.ok.inj h
    have hpre : (d.take i++bytes).length=i+bytes.length := by
      rw [length_append,length_take]
      omega
    rw [List.getElem?_append_right (by omega),hpre,List.getElem?_drop]
    congr 1
    omega
  · cases h

def ZeroFrom (length : Nat) (dst : List Byte) : Prop :=
  ∀ k,length≤k+1 → (dst[k]?).getD 0=0

theorem ZeroFrom.store {length : Nat} {d d' bytes : List Byte} (h : ZeroFrom length d)
    (hstore : storeAt d i bytes = .ok d') (hlen : i+bytes.length+1≤length) :
    ZeroFrom length d' := by
  intro k hk
  rw [storeAt_behind hstore (by omega)]
  exact h k hk

theorem ZeroFrom.zero {length : Nat} {d d' : List Byte} (h : ZeroFrom length d)
    (hstore : storeAt d i [0] = .ok d') (hlen : i+1≤length) : ZeroFrom length d' := by
  intro k hk
  by_cases hi : i+1≤k
  · rw [storeAt_behind hstore hi]
    exact h k hk
  · obtain rfl : k=i := by omega
    unfold storeAt at hstore
    split at hstore
    · rename_i hfits
      obtain rfl := Except.ok.inj hstore
      have hpre : (d.take k).length=k := by
        rw [length_take]
        rw [length_singleton] at hfits
        omega
      rw [append_assoc,List.getElem?_append_right (by omega),hpre,Nat.sub_self]
      rfl
    · cases hstore

theorem fqdnParseOf_zero {mem : List Byte} {length : Nat} {r : Int × List Byte}
    (hdst : ZeroFrom length dst) (h : (fqdnParseOf mem length dst).Returns r) :
    ZeroFrom length r.2 := by
  have hkeep : ∀ s r,s.2.1 ≤ s.1 ∧ ZeroFrom length s.2.2 → fqdnStep mem length s = .ok r →
      (∀ s',r = .inl s' → s'.2.1 ≤ s'.1 ∧ ZeroFrom length s'.2.2) ∧
        ∀ a,r = .inr a → ZeroFrom length a.2 := by
    rintro ⟨i,j,dst⟩ r ⟨hij,hzero⟩ hstep
    dsimp only at hij hzero
    unfold fqdnStep at hstep
    dsimp only at hstep
    split at hstep
    · obtain ⟨len,-,hstep⟩ := bind_eq_ok.mp hstep
      split at hstep
      · obtain rfl := Except.ok.inj hstep
        exact ⟨nofun,fun a ha => Sum.inr.inj ha ▸ hzero⟩
      · rename_i hmore hlong
        obtain ⟨label,hlabel,hstep⟩ := bind_eq_ok.mp hstep
        obtain ⟨dst₁,hstore,hstep⟩ := bind_eq_ok.mp hstep
        have hlen : label.length≤len.val := by
          unfold octetsAt at hlabel
          split at hlabel
          · obtain rfl := Except.ok.inj hlabel
            exact length_take_le ..
          · cases hlabel
        have hzero₁:=hzero.store hstore (by omega)
        split at hstep
        · rename_i hnext
          obtain ⟨dst₂,hdot,hstep⟩ := bind_eq_ok.mp hstep
          obtain rfl := Except.ok.inj hstep
          refine ⟨fun s' hs' => ?_,nofun⟩
          obtain rfl := Sum.inl.inj hs'
          refine ⟨by dsimp only; omega,hzero₁.store hdot ?_⟩
          rw [length_singleton]
          omega
        · obtain ⟨dst₂,hend,hstep⟩ := bind_eq_ok.mp hstep
          obtain rfl := Except.ok.inj hstep
          refine ⟨fun s' hs' => ?_,nofun⟩
          obtain rfl := Sum.inl.inj hs'
          exact ⟨by dsimp only; omega,hzero₁.zero hend (by omega)⟩
    · obtain rfl := Except.ok.inj hstep
      exact ⟨nofun,fun a ha => Sum.inr.inj ha ▸ hzero⟩
  exact (Turns.returns_loop.mp h).keeps
    (fun s s' hs hstep => (hkeep s _ hs hstep).1 s' rfl)
    (fun s a hs hstep => (hkeep s _ hs hstep).2 a rfl) ⟨Nat.le_refl 0,hdst⟩

end Behind

end OgsDp.Proto
