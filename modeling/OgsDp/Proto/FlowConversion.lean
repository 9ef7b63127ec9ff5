import OgsDp.Core.Conv
import OgsDp.Lib.Writes

/-!
# Flow descriptions from Rx to Gx (lib/proto/types.c)

A `permit in` becomes a `permit out` with the two ends exchanged. It is put together in a buffer
from parts that `strstr` finds, with lengths that are differences of `size_t`.
-/

namespace OgsDp.Proto
open Lib Lib.Text OgsDp.Core

/-- A C string whose length is a `size_t`. -/
structure FlowText extends CStr where
  short : bytes.length<2^64

structure Flow where
  direction : Byte
  description : List Byte
  deriving DecidableEq

def downlinkOnly : Byte := 1
def uplinkOnly : Byte := 2

def permitOut : List Byte := ascii "permit out"
def permitIn : List Byte := ascii "permit in"
def fromWord : List Byte := ascii "from"
def toWord : List Byte := ascii "to"
def spaceTo : List Byte := ascii " to"

def strcat (size : Nat) (text out : List Byte) : Except Fault (List Byte) :=
  if out.length+text.length+1 ≤ size then .ok (out++text) else .error .write

@[irreducible] def sizeSub (a b : Nat) : Nat := (a+2^64-b % 2^64) % 2^64

def strncat (size n : Nat) (text out : List Byte) : Except Fault (List Byte) :=
  strcat size (text.take n) out

def gxText (size n m : Nat) (rest fromStr toStr out : List Byte) : Except Fault (List Byte) := do
  let out ← strncat size n rest out
  let out ← strcat size fromWord out
  let out ← strcat size (toStr.drop toWord.length) out
  let out ← strcat size spaceTo out
  strncat size m (fromStr.drop fromWord.length) out

/-- `flow_rx_to_gx`; `none` where it returns `OGS_ERROR`. The `int` that `ogs_calloc` is given may
be negative, and there is no such memory. -/
def flowRxToGx (rx : List Byte) : Except Fault (Option Flow) :=
  if permitOut <+: rx then .ok (some ⟨downlinkOnly,rx⟩)
  else if permitIn <+: rx then
    let len:=(BitVec.ofNat 32 (rx.length+2)).toInt
    let rest:=rx.drop permitIn.length
    if len<0 then .error .assertion
    else do
      let out ← strcat len.toNat permitOut []
      match strstr fromWord rest with
      | none => .error .assertion
      | some fromStr =>
        match strstr toWord rest with
        | none => .error .assertion
        | some toStr => do
          let out ← gxText len.toNat
            (sizeSub (sizeSub rx.length permitIn.length) fromStr.length)
            (sizeSub (sizeSub (sizeSub fromStr.length toStr.length) fromWord.length) 1)
            rest fromStr toStr out
          if len=out.length+1 then .ok (some ⟨uplinkOnly,out⟩) else .error .assertion
  else .ok none

def Plain (text : List Byte) : Prop := ¬ fromWord <:+: text ∧ ¬ toWord <:+: text

def permitInText (p s d : List Byte) : List Byte :=
  permitIn++ascii " " ++ p++ascii " from " ++ s++ascii " to " ++ d

def permitOutText (p s d : List Byte) : List Byte :=
  permitOut++ascii " " ++ p++ascii " from " ++ s++ascii " to " ++ d

structure Converted (rx : List Byte) : Prop where
  uplink : ∀ p s d,Plain s → Plain d → rx=permitInText p s d →
    flowRxToGx rx = .ok (some ⟨uplinkOnly,permitOutText p d s⟩)
  downlink : permitOut <+: rx → flowRxToGx rx = .ok (some ⟨downlinkOnly,rx⟩)
  invalid : ¬ permitOut <+: rx → (∀ p s d,Plain s → Plain d → rx≠permitInText p s d) →
    flowRxToGx rx = .ok none

/-- A `permit in` has its two keywords once each, and its length with two more is an `int`. -/
def Convertible (rx : List Byte) : Prop :=
  permitIn <+: rx → rx.length+2<2^31 ∧
    ∃ p s d,Plain p ∧ Plain s ∧ Plain d ∧ rx=permitInText p s d

theorem nodup_fromWord : fromWord.Nodup := by decide
theorem nodup_toWord : toWord.Nodup := by decide
theorem fromWord_ne_nil : fromWord≠[] := by decide
theorem toWord_ne_nil : toWord≠[] := by decide

theorem not_permitOut {rx : List Byte} (h : permitIn <+: rx) : ¬ permitOut <+: rx := by
  intro hout
  have hpre : permitIn <+: permitOut := List.prefix_of_prefix_length_le h hout (by decide)
  exact absurd hpre (by decide)

theorem plain_space {u v : List Byte} : Plain (u++32::v) ↔ Plain u ∧ Plain v := by
  have hfrom : (32 : Byte)∉fromWord := by decide
  have hto : (32 : Byte)∉toWord := by decide
  unfold Plain
  rw [infix_separator hfrom fromWord_ne_nil,infix_separator hto toWord_ne_nil]
  tauto

theorem plain_nil : Plain [] := ⟨by decide,by decide⟩

theorem plain_before_space {u : List Byte} (h : Plain u) : Plain (u++[32]) :=
  plain_space.mpr ⟨h,plain_nil⟩

theorem plain_behind_space {u : List Byte} (h : Plain u) : Plain (32::u) :=
  plain_space.mpr ⟨plain_nil,h⟩

theorem permitInText_eq (p s d : List Byte) : permitInText p s d =
    permitIn++(32::p++[32]++(fromWord++(32::s++[32]++(toWord++32::d)))) := by
  have hspace : ascii " " = [32] := rfl
  have hfrom : ascii " from " = 32::fromWord++[32] := rfl
  have hto : ascii " to " = 32::toWord++[32] := rfl
  unfold permitInText
  rw [hspace,hfrom,hto]
  simp only [List.append_assoc,List.cons_append,List.nil_append]

theorem permitOutText_eq (p s d : List Byte) : permitOutText p s d =
    permitOut++(32::p++[32])++fromWord++(32::s)++spaceTo++32::d := by
  have hspace : ascii " " = [32] := rfl
  have hfrom : ascii " from " = 32::fromWord++[32] := rfl
  have hto : ascii " to " = spaceTo++[32] := rfl
  unfold permitOutText
  rw [hspace,hfrom,hto]
  simp only [List.append_assoc,List.cons_append,List.nil_append]

theorem keywords_apart {a b r y : List Byte}
    (h : a++(fromWord++r)=b++(toWord++y)) :
    (∃ x,b=a++(fromWord++x) ∧ r=x++(toWord++y)) ∨
      (fromWord++r).length<(toWord++y).length := by
  rcases List.append_eq_append_iff.mp h with ⟨e,rfl,he⟩ | ⟨e,rfl,he⟩
  · rcases List.append_eq_append_iff.mp he with ⟨x,rfl,hr⟩ | ⟨x,hx,hr⟩
    · exact .inl ⟨x,rfl,hr⟩
    · cases x with
      | nil =>
        refine .inl ⟨[],?_,hr.symm⟩
        rw [hx,List.append_nil,List.append_nil]
      | cons c x =>
        have hc : (116 : Byte)=c := (List.cons.inj hr).1
        have hmem : (116 : Byte)∈fromWord := by
          rw [hx,hc]
          exact List.mem_append_right e (List.mem_cons_self ..)
        exact absurd hmem (by decide)
  · cases e with
    | nil =>
      have hc : (116 : Byte)=102 := (List.cons.inj he).1
      exact absurd hc (by decide)
    | cons c e =>
      have hlonger : (toWord++y).length=(e.length+(fromWord++r).length)+1 := by
        rw [he,List.cons_append,List.length_cons,List.length_append]
      exact .inr (by omega)

theorem writes_strcat {size : Nat} (h : 0<size) (text : List Byte) :
    Writes (strcat size text) (size-1) text := by
  intro out r _
  unfold strcat
  split
  · rename_i hfits
    constructor
    · intro hok
      exact ⟨by omega,(Except.ok.inj hok).symm⟩
    · rintro ⟨-,rfl⟩
      rfl
  · rename_i hfits
    exact iff_of_false nofun fun hok => by omega

def written (n m : Nat) (rest fromStr toStr : List Byte) : List Byte :=
  permitOut++(rest.take n++(fromWord++(toStr.drop toWord.length++(spaceTo ++
    (fromStr.drop fromWord.length).take m))))

theorem gxText_ok {size : Nat} (h : 0<size) (n m : Nat) (rest fromStr toStr out : List Byte) :
    (strcat size permitOut [] >>= gxText size n m rest fromStr toStr) = .ok out ↔
      (written n m rest fromStr toStr).length ≤ size-1 ∧
        out=written n m rest fromStr toStr := by
  have hwrites : Writes (fun out => strcat size permitOut out >>=
      gxText size n m rest fromStr toStr) (size-1) (written n m rest fromStr toStr) :=
    (writes_strcat h _).bind ((writes_strcat h _).bind ((writes_strcat h _).bind
      ((writes_strcat h _).bind ((writes_strcat h _).bind (writes_strcat h _)))))
  have hnil:=hwrites [] out (Nat.zero_le _)
  rw [List.length_nil,Nat.zero_add,List.nil_append] at hnil
  exact hnil

theorem flowRxToGx_permitIn {rest : List Byte} {g : Option Flow} :
    flowRxToGx (permitIn++rest) = .ok g ↔
      ∃ fromStr toStr,strstr fromWord rest=some fromStr ∧ strstr toWord rest=some toStr ∧
        ∃ out,out=written
            (sizeSub (sizeSub (permitIn++rest).length permitIn.length) fromStr.length)
            (sizeSub (sizeSub (sizeSub fromStr.length toStr.length) fromWord.length) 1)
            rest fromStr toStr ∧
          (BitVec.ofNat 32 ((permitIn++rest).length+2)).toInt=out.length+1 ∧
          g=some ⟨uplinkOnly,out⟩ := by
  have hin : permitIn <+: permitIn++rest := List.prefix_append _ _
  have hdrop : (permitIn++rest).drop permitIn.length=rest := List.drop_left' rfl
  unfold flowRxToGx
  rw [if_neg (not_permitOut hin),if_pos hin,hdrop]
  generalize (BitVec.ofNat 32 ((permitIn++rest).length+2)).toInt=len
  generalize sizeSub (permitIn++rest).length permitIn.length=total
  by_cases hneg : len<0
  · rw [if_pos hneg]
    refine iff_of_false nofun ?_
    rintro ⟨fromStr,toStr,-,-,out,-,hlen,-⟩
    omega
  rw [if_neg hneg]
  constructor
  · intro h
    obtain ⟨out₀,hout₀,h⟩ := bind_eq_ok.mp h
    cases hfrom : strstr fromWord rest with
    | none => rw [hfrom] at h; cases h
    | some fromStr =>
      cases hto : strstr toWord rest with
      | none => rw [hfrom,hto] at h; cases h
      | some toStr =>
        rw [hfrom,hto] at h
        obtain ⟨out,hout,h⟩ := bind_eq_ok.mp h
        split at h
        · rename_i hlen
          have hpos : 0<len.toNat := by omega
          have hall:=(gxText_ok hpos _ _ rest fromStr toStr out).mp
            (bind_eq_ok.mpr ⟨out₀,hout₀,hout⟩)
          exact ⟨fromStr,toStr,rfl,rfl,out,hall.2,hlen,(Except.ok.inj h).symm⟩
        · cases h
  · rintro ⟨fromStr,toStr,hfrom,hto,out,hout,hlen,rfl⟩
    have hpos : 0<len.toNat := by omega
    have hfits : out.length≤len.toNat-1 := by omega
    have hall:=(gxText_ok hpos _ _ rest fromStr toStr out).mpr ⟨hout ▸ hfits,hout⟩
    obtain ⟨out₀,hout₀,hrun⟩ := bind_eq_ok.mp hall
    rw [hout₀,ok_bind,hfrom,hto]
    simp only
    rw [hrun,ok_bind,if_pos hlen]

theorem sizeSub_of_le {a b : Nat} (hle : b≤a) (ha : a<2^64) : sizeSub a b=a-b := by
  unfold sizeSub
  omega

theorem sizeSub_of_lt {a b : Nat} (hlt : a<b) (hb : b<2^64) :
    sizeSub a b=a+2^64-b := by
  unfold sizeSub
  omega

theorem toInt_announced {n k : Nat} (h : (BitVec.ofNat 32 n).toInt=k) : k≤n ∧ k<2^31 := by
  rw [BitVec.toInt_eq_toNat_cond,BitVec.toNat_ofNat] at h
  split at h
  · omega
  · omega

theorem toInt_small {n : Nat} (h : n<2^31) : (BitVec.ofNat 32 n).toInt=n := by
  rw [BitVec.toInt_eq_toNat_cond,BitVec.toNat_ofNat]
  split
  · omega
  · omega

theorem length_written (n m : Nat) (rest fromStr toStr : List Byte) :
    (written n m rest fromStr toStr).length =
      17+min n rest.length+(toStr.length-2)+min m (fromStr.length-4) := by
  have hout : permitOut.length=10 := rfl
  have hfrom : fromWord.length=4 := rfl
  have hto : toWord.length=2 := rfl
  have hspace : spaceTo.length=3 := rfl
  unfold written
  simp only [List.length_append,List.length_take,List.length_drop,hout,hfrom,hto,hspace]
  omega

theorem length_front {n a f : Nat} (h : n=9+(a+f)) (hn : n<2^64) :
    sizeSub (sizeSub n 9) f=a := by
  have hrest : sizeSub n 9=a+f := by
    rw [sizeSub_of_le (by omega) hn]
    omega
  rw [hrest,sizeSub_of_le (by omega) (by omega)]
  omega

theorem length_between {x t : Nat} (h : 4+(x+t)<2^64) :
    sizeSub (sizeSub (4+(x+t)) t) 4=x := by
  have hdiff : sizeSub (4+(x+t)) t=4+x := by
    rw [sizeSub_of_le (by omega) h]
    omega
  rw [hdiff,sizeSub_of_le (by omega) (by omega)]
  omega

theorem sizes_of_lengths {n a f x t : Nat} (hn : n=9+(a+f)) (hf : f=4+(x+2+t))
    (h : n<2^64) :
    sizeSub (sizeSub n 9) f=a ∧ sizeSub (sizeSub (sizeSub f t) 4) 1=x+1 := by
  refine ⟨length_front hn h,?_⟩
  rw [hf,length_between (by omega),sizeSub_of_le (by omega) (by omega)]
  omega

theorem length_wrapped {f t : Nat} (hlt : f<t) (ht : t+9<2^64) :
    sizeSub (sizeSub (sizeSub f t) 4) 1=f+2^64-t-5 := by
  have hdiff : sizeSub (f+2^64-t) 4=f+2^64-t-4 :=
    sizeSub_of_le (by omega) (by omega)
  have hlast : sizeSub (f+2^64-t-4) 1=f+2^64-t-4-1 :=
    sizeSub_of_le (by omega) (by omega)
  rw [sizeSub_of_lt hlt (by omega),hdiff,hlast]
  omega

theorem overrun_between {n a y out : Nat} (hn : n=9+(a+(4+(0+(2+y)))))
    (hshort : n<2^64)
    (hout : out=17+min a (a+(4+(0+(2+y))))+(2+y-2) +
      min (sizeSub 0 1) (4+(0+(2+y))-4)) : n+2<out+1 := by
  rw [sizeSub_of_lt (by decide) (by decide)] at hout
  omega

theorem overrun_wrapped {n a b f t out : Nat} (hn : n=9+(a+f)) (hn' : n=9+(b+t))
    (hshort : n<2^64) (hlt : f<t) (hf : 4≤f)
    (hout : out=17+min a (a+f)+(t-2) +
      min (sizeSub (sizeSub (sizeSub f t) 4) 1) (f-4)) : n+2<out+1 := by
  rw [length_wrapped hlt (by omega)] at hout
  omega

theorem fits_between {n a x y out : Nat} (hn : n=9+(a+(4+(x+1+(2+y)))))
    (hout : out=17+min a (a+(4+(x+1+(2+y))))+(2+y-2) +
      min x (4+(x+1+(2+y))-4)) : n+2=out+1 := by
  omega

theorem flowRxToGx_shape {rest : List Byte} {g : Option Flow}
    (hshort : (permitIn++rest).length<2^64) (h : flowRxToGx (permitIn++rest) = .ok g) :
    ∃ a x c y,rest=a++(fromWord++(x++c::(toWord++y))) ∧ Plain a ∧
      ¬ toWord <:+: x ∧ (permitIn++rest).length+2<2^31 ∧
      g=some ⟨uplinkOnly,permitOut++(a++(fromWord++(y++(spaceTo++x))))⟩ := by
  obtain ⟨fromStr,toStr,hfrom,hto,out,hout,hlen,hg⟩ := flowRxToGx_permitIn.mp h
  obtain ⟨a,r,ha,rfl,hfirst⟩ := strstr_first hfrom
  obtain ⟨b,y,hb,rfl,hfirst'⟩ := strstr_first hto
  have hnofrom:=hfirst fromWord_ne_nil
  have hnoto:=hfirst' toWord_ne_nil
  obtain ⟨hle,hint⟩ := toInt_announced (k := out.length+1) (by exact_mod_cast hlen)
  have htotal : (permitIn++rest).length=9+(a.length+(fromWord++r).length) := by
    rw [List.length_append,ha,List.length_append]
    rfl
  have htotal' : (permitIn++rest).length=9+(b.length+(toWord++y).length) := by
    rw [List.length_append,hb,List.length_append]
    rfl
  have hrest : rest.length=a.length+(fromWord++r).length := by rw [ha,List.length_append]
  have hfrom : (fromWord++r).length=4+r.length := List.length_append
  have hto : (toWord++y).length=2+y.length := List.length_append
  have hin : permitIn.length=9 := rfl
  have hword : fromWord.length=4 := rfl
  rw [hin,hword,length_front htotal hshort] at hout
  rcases keywords_apart (ha.symm.trans hb) with ⟨x,rfl,rfl⟩ | hlt
  · have hr : (x++(toWord++y)).length=x.length+(2+y.length) := by
      rw [List.length_append,hto]
    rw [hr] at hfrom
    rw [hfrom] at htotal hrest
    have hm : sizeSub (sizeSub (fromWord++(x++(toWord++y))).length (toWord++y).length) 4 =
        x.length := by
      rw [hfrom,hto]
      exact length_between (by omega)
    rw [hm] at hout
    have hsize:=congrArg List.length hout
    rw [length_written,hfrom,hto,hrest] at hsize
    rcases List.eq_nil_or_concat x with hx | ⟨x,c,rfl⟩
    · -- Without a character between the keywords the length wraps, and all is copied.
      have hx0 : x.length=0 := by rw [hx]; rfl
      rw [hx0] at htotal hsize
      exact absurd hle (Nat.not_le.mpr (overrun_between htotal hshort hsize))
    · have hx : (x.concat c).length=x.length+1 := List.length_concat
      have hone : sizeSub (x.length+1) 1=x.length :=
        sizeSub_of_le (Nat.succ_pos _) (by omega)
      rw [hx] at htotal
      rw [hx,hone] at hout hsize
      have hfits:=fits_between htotal hsize
      rw [List.concat_eq_append] at ha hout hnoto
      refine ⟨a,x,c,y,by rw [ha]; simp,⟨hnofrom,fun hin => hnoto ?_⟩,fun hin => hnoto ?_,
        hfits ▸ hint,?_⟩
      · exact hin.trans (List.prefix_append _ _).isInfix
      · exact hin.trans ⟨a++fromWord,[c],by simp⟩
      · have htake : rest.take a.length=a := by rw [ha,List.take_left' rfl]
        have hbetween : ((fromWord++(x++[c]++(toWord++y))).drop fromWord.length).take
            x.length=x := by
          rw [List.drop_left' rfl,List.append_assoc,List.take_left' rfl]
        rw [hg,hout]
        unfold written
        rw [htake,hbetween,List.drop_left' rfl]
  · -- The difference of the two positions wraps, and all behind the "from" is copied.
    have hsize:=congrArg List.length hout
    rw [length_written,hrest] at hsize
    exact absurd hle (Nat.not_le.mpr
      (overrun_wrapped htotal htotal' hshort hlt (hfrom ▸ Nat.le_add_right 4 _) hsize))

theorem permitInText_inj {p s d p' s' d' : List Byte} (hs : Plain s) (hd : Plain d)
    (hs' : Plain s') (hd' : Plain d') (h : permitInText p s d=permitInText p' s' d') :
    p=p' ∧ s=s' ∧ d=d' := by
  have hto : ∀ p s d : List Byte, permitInText p s d =
      permitIn++(32::p++[32]++(fromWord++(32::s++[32])))++(toWord++32::d) := by
    intro p s d
    rw [permitInText_eq]
    simp only [List.append_assoc]
  rw [hto,hto] at h
  obtain ⟨hfront,hlast⟩ := last_hit_unique nodup_toWord (plain_behind_space hd).2
    (plain_behind_space hd').2 h
  obtain ⟨hp,hmid⟩ := last_hit_unique nodup_fromWord
    (plain_before_space (plain_behind_space hs)).1 (plain_before_space (plain_behind_space hs')).1
    (List.append_cancel_left hfront)
  exact ⟨(List.cons.inj (List.append_cancel_right hp)).2,
    (List.cons.inj (List.append_cancel_right hmid)).2,(List.cons.inj hlast).2⟩

section PermitIn

variable (p s d : List Byte)

def fromOn : List Byte := fromWord++(32::s++[32]++(toWord++32::d))

theorem length_fromOn : (fromOn s d).length=4+(s.length+2+(toWord++32::d).length) := by
  unfold fromOn
  simp only [List.length_append,List.length_cons,List.length_nil]
  rfl

theorem length_permitInText :
    (permitInText p s d).length=9+((32::p++[32]).length+(fromOn s d).length) := by
  rw [permitInText_eq,List.length_append,List.length_append]
  rfl

theorem length_permitOutText :
    (permitOutText p d s).length=(permitInText p s d).length+1 := by
  rw [permitOutText_eq,permitInText_eq]
  have hout : permitOut.length=10 := rfl
  have hin : permitIn.length=9 := rfl
  have hfrom : fromWord.length=4 := rfl
  have hto : toWord.length=2 := rfl
  have hspace : spaceTo.length=3 := rfl
  simp only [List.length_append,List.length_cons,List.length_nil,hout,hin,hfrom,hto,hspace]
  omega

variable {p s d}

theorem sizes_permitInText (h : (permitInText p s d).length<2^64) :
    sizeSub (sizeSub (permitInText p s d).length permitIn.length) (fromOn s d).length =
        (32::p++[32]).length ∧
      sizeSub (sizeSub (sizeSub (fromOn s d).length (toWord++32::d).length) fromWord.length) 1 =
        (32::s).length := by
  have hin : permitIn.length=9 := rfl
  have hword : fromWord.length=4 := rfl
  rw [hin,hword]
  exact sizes_of_lengths (length_permitInText p s d) (length_fromOn s d) h

theorem strstr_permitInText (hp : Plain p) (hs : Plain s) :
    strstr fromWord (32::p++[32]++fromOn s d)=some (fromOn s d) ∧
      strstr toWord (32::p++[32]++fromOn s d)=some (toWord++32::d) := by
  have hspace : (32 : Byte)∉toWord := by decide
  have hshape : 32::p++[32]++fromWord++(32::s++[32]) =
      (32::p)++32::(fromWord++32::(s++[32])) := by simp
  have hfront : ¬ toWord <:+: 32::p++[32]++fromWord++(32::s++[32]) := by
    rw [hshape,infix_separator hspace toWord_ne_nil,infix_separator hspace toWord_ne_nil]
    rintro (hin | hin | hin)
    · exact (plain_behind_space hp).2 hin
    · exact absurd hin (by decide)
    · exact (plain_before_space hs).2 hin
  refine ⟨strstr_here nodup_fromWord fromWord_ne_nil
    (plain_before_space (plain_behind_space hp)).1 _,?_⟩
  have hhere:=strstr_here nodup_toWord toWord_ne_nil hfront (32::d)
  simpa only [fromOn,List.append_assoc] using hhere

theorem flowRxToGx_permitInText (hp : Plain p) (hs : Plain s)
    (hlen : (permitInText p s d).length+2<2^31) :
    flowRxToGx (permitInText p s d) = .ok (some ⟨uplinkOnly,permitOutText p d s⟩) := by
  obtain ⟨hn,hm⟩ := sizes_permitInText (p := p) (s := s) (d := d) (by omega)
  obtain ⟨hfrom,hto⟩ := strstr_permitInText (d := d) hp hs
  have hint:=toInt_small hlen
  have hin : permitInText p s d=permitIn++(32::p++[32]++fromOn s d) :=
    permitInText_eq p s d
  rw [hin] at hint hn ⊢
  refine flowRxToGx_permitIn.mpr ⟨_,_,hfrom,hto,permitOutText p d s,?_,?_,rfl⟩
  · have hbetween : ((fromOn s d).drop fromWord.length).take (32::s).length=32::s := by
      rw [fromOn,List.drop_left' rfl,List.append_assoc,List.take_left' rfl]
    rw [hn,hm]
    unfold written
    rw [List.take_left' rfl,hbetween,List.drop_left' rfl,permitOutText_eq]
    simp only [List.append_assoc,List.cons_append,List.nil_append]
  · rw [hint,length_permitOutText,hin]
    rfl

end PermitIn

theorem length_lt_behind_space (s d : List Byte) :
    (32::d).length<(32::s++[32]++(toWord++32::d)).length := by
  simp only [List.length_append,List.length_cons]
  omega

theorem plain_of_converted {p s d : List Byte} (hs : Plain s) (hd : Plain d)
    (hshort : (permitInText p s d).length<2^64)
    (h : flowRxToGx (permitInText p s d) = .ok (some ⟨uplinkOnly,permitOutText p d s⟩)) :
    Plain p ∧ (permitInText p s d).length+2<2^31 := by
  have hin:=permitInText_eq p s d
  rw [hin] at h hshort ⊢
  obtain ⟨a,x,c,y,hrest,ha,hx,hlen,hg⟩ := flowRxToGx_shape hshort h
  refine ⟨?_,hlen⟩
  have hout : permitOutText p d s=permitOut++(a++(fromWord++(y++(spaceTo++x)))) :=
    congrArg Flow.description (Option.some.inj hg)
  -- The last "to" of what is written is the one in front of the new destination.
  have hto : permitOut++(32::p++[32])++fromWord++(32::d++[32]) ++
        (toWord++32::s) =
      permitOut++(a++(fromWord++(y++[32])))++(toWord++x) := by
    rw [permitOutText_eq] at hout
    have hspace : spaceTo=32::toWord := rfl
    rw [hspace] at hout
    simpa only [List.append_assoc,List.cons_append,List.nil_append] using hout
  obtain ⟨hfront,rfl⟩ := last_hit_unique nodup_toWord (plain_behind_space hs).2 hx hto
  have hends : 32::p++[32]++(fromWord++32::d)=a++(fromWord++y) := by
    have hcut : permitOut++(32::p++[32]++(fromWord++32::d))++[32] =
        permitOut++(a++(fromWord++y))++[32] := by
      simpa only [List.append_assoc,List.cons_append,List.nil_append] using hfront
    exact List.append_cancel_left (List.append_cancel_right hcut)
  have hp : Plain (32::p++[32]) → Plain p := fun hall =>
    ((plain_space (u := [])).mp (plain_space.mp hall).1).2
  by_cases hy : fromWord <:+: y
  · -- With a "from" behind the first one, the text would have ended with two "to".
    obtain ⟨y₁,y₂,rfl,hlast⟩ : ∃ y₁ y₂,y=y₁++(fromWord++y₂) ∧ ¬ fromWord <:+: y₂ :=
      exists_last_hit fromWord_ne_nil hy
    have hsplit:=last_hit_unique nodup_fromWord (plain_behind_space hd).1 hlast
      (hends.trans (by simp only [List.append_assoc]) :
        32::p++[32]++(fromWord++32::d)=(a++(fromWord++y₁))++(fromWord++y₂))
    obtain ⟨hfirst,rfl⟩ := hsplit
    have hboth : 32::s++c::(toWord++y₁)++(fromWord++32::d) =
        y₁++(fromWord++(32::s++[32]++(toWord++32::d))) := by
      have hcancel : (a++fromWord)++(32::s++c::(toWord++y₁)++(fromWord++32::d)) =
          (a++fromWord) ++
            (y₁++(fromWord++(32::s++[32]++(toWord++32::d)))) := by
        rw [hfirst] at hrest
        simpa only [List.append_assoc,List.cons_append,List.nil_append] using hrest.symm
      exact List.append_cancel_left hcancel
    have hnone : ¬ fromWord <:+: 32::s++[32]++(toWord++32::d) := by
      have hspace : (32 : Byte)∉fromWord := by decide
      have hshape : 32::s++[32]++(toWord++32::d) =
          (32::s)++32::(toWord++32::d) := by simp
      rw [hshape,infix_separator hspace fromWord_ne_nil,infix_separator hspace fromWord_ne_nil]
      rintro (hin | hin | hin)
      · exact (plain_behind_space hs).1 hin
      · exact absurd hin (by decide)
      · exact hd.1 hin
    have hshorter:=congrArg List.length
      (last_hit_unique nodup_fromWord (plain_behind_space hd).1 hnone hboth).2
    exact absurd hshorter (Nat.ne_of_lt (length_lt_behind_space s d))
  · obtain ⟨hfirst,-⟩ := last_hit_unique nodup_fromWord (plain_behind_space hd).1 hy hends
    exact hp (hfirst ▸ ha)

/-- A description is converted as it is wanted exactly if it is not a `permit in`, or has its
keywords once each. -/
theorem flow_conversion (rx : FlowText) : Converted rx.bytes ↔ Convertible rx.bytes := by
  have hbegins : ∀ p s d,permitIn <+: permitInText p s d := by
    intro p s d
    rw [permitInText_eq]
    exact List.prefix_append _ _
  constructor
  · intro h hin
    obtain ⟨rest,hrest⟩ := hin
    have hin : permitIn <+: rx.bytes := ⟨rest,hrest⟩
    by_cases hsome : ∃ p s d,Plain s ∧ Plain d ∧ rx.bytes=permitInText p s d
    · obtain ⟨p,s,d,hs,hd,hrx⟩ := hsome
      have hok:=h.uplink p s d hs hd hrx
      have hshort:=rx.short
      rw [hrx] at hok hshort ⊢
      obtain ⟨hp,hlen⟩ := plain_of_converted hs hd hshort hok
      exact ⟨hlen,p,s,d,hp,hs,hd,rfl⟩
    · have hnone:=h.invalid (not_permitOut hin) fun p s d hs hd hrx =>
        hsome ⟨p,s,d,hs,hd,hrx⟩
      rw [← hrest] at hnone
      obtain ⟨fromStr,toStr,-,-,out,-,-,hno⟩ := flowRxToGx_permitIn.mp hnone
      cases hno
  · intro h
    refine ⟨fun p s d hs hd hrx => ?_,fun hout => ?_,fun hout hno => ?_⟩
    · obtain ⟨hlen,p',s',d',hp',hs',hd',hrx'⟩ := h (hrx ▸ hbegins p s d)
      obtain ⟨rfl,rfl,rfl⟩ := permitInText_inj hs hd hs' hd' (hrx.symm.trans hrx')
      rw [hrx] at hlen ⊢
      exact flowRxToGx_permitInText hp' hs' hlen
    · exact if_pos hout
    · have hin : ¬ permitIn <+: rx.bytes := fun hin => by
        obtain ⟨-,p,s,d,-,hs,hd,hrx⟩ := h hin
        exact hno p s d hs hd hrx
      unfold flowRxToGx
      rw [if_neg hout,if_neg hin]

set_option maxRecDepth 4000 in
/-- Without a "from" an assertion fails, and with the keywords the other way round the buffer is too
short. -/
theorem flow_conversion_stops :
    flowRxToGx (ascii "permit in 17 to 10.45.0.2") = .error .assertion ∧
      flowRxToGx (ascii "permit in 17 to any from any") = .error .write ∧
      ¬ Converted (ascii "permit in 17 to 10.45.0.2") := by
  have hstop : flowRxToGx (ascii "permit in 17 to 10.45.0.2") = .error .assertion := by
    decide
  refine ⟨hstop,by decide +kernel,fun h => ?_⟩
  have hnone:=h.invalid (by decide) fun p s d _ _ hrx => by
    have hin : fromWord <:+: ascii "permit in 17 to 10.45.0.2" := by
      rw [hrx,permitInText_eq]
      exact ⟨permitIn++(32::p++[32]),32::s++[32]++(toWord++32::d),by
        simp only [List.append_assoc]⟩
    exact absurd (hin.subset (by decide : 102∈fromWord)) (by decide)
  rw [hstop] at hnone
  cases hnone

end OgsDp.Proto
