import Mathlib.Data.List.Nodup
import Mathlib.Data.List.TakeWhile
import OgsDp.Pfcp.UeIpHolders

/-!
# The addresses of a subnet (lib/pfcp/context.c)

`ogs_pfcp_ue_pool_generate` fills the pool of a subnet with the addresses of its ranges.
-/

namespace OgsDp.Pfcp
open OgsDp.Core Lib

abbrev Words := Vector (BitVec 32) 4

/-- A configured subnet of a known family, with the addresses that its texts stand for. -/
structure SubnetConf where
  ipv6 : Bool
  dnn : List Byte
  sub : Words
  mask : Words
  gw : Words
  range : List (Option Words × Option Words)

def htobe32 (inc : Nat) : BitVec 32 :=
  BitVec.ofNat 32 (inc % 256*2^24+inc / 256 % 256*2^16+inc / 65536 % 256*256 +
    inc / 16777216 % 256)

namespace SubnetConf

variable (conf : SubnetConf)

def words : Nat := if conf.ipv6 then 2 else 1

def lastIndex : Fin 4 := if conf.ipv6 then 1 else 0

def sameWords (a b : Words) : Bool :=
  (List.finRange 4).all fun i => conf.words ≤ i.val || a[i] == b[i]

def setWords (a : Words) (f : Nat → BitVec 32 → BitVec 32) : Words :=
  Vector.ofFn fun i => f i.val a[i]

def candidate (start : Words) (inc : Nat) : Words :=
  setWords start fun i w =>
    if i<conf.words then (if i=conf.lastIndex.val then w+htobe32 inc else w) else 0

def address (start : Words) (inc : Nat) : Words :=
  setWords (conf.candidate start inc) fun i w =>
    if conf.ipv6=true ∧ i=3 then w+htobe32 (inc+1) else w

def broadcast : Words := setWords conf.sub fun i w => w + ~~~(conf.mask[i]?.getD 0)

def generateRange (sess : Nat) (start stop : Words) : List Words → List Nat → List Words
  | pool, [] => pool
  | pool, inc::incs =>
    if pool.length<sess then
      let a:=conf.candidate start inc
      if conf.sameWords a stop then pool
      else if conf.sameWords a conf.sub || conf.sameWords a conf.gw then
        generateRange sess start stop pool incs
      else generateRange sess start stop (pool++[conf.address start inc]) incs
    else pool

def rangeStart (r : Option Words × Option Words) : Words := r.1.getD conf.sub

def rangeStop (r : Option Words × Option Words) : Words :=
  r.2.elim conf.broadcast fun high =>
    setWords high fun i w => if i=conf.lastIndex.val then w+htobe32 1 else w

/-- The turns that a range can need: one for each session and for the two addresses that are
left out. -/
def turns (sess : Nat) : Nat := sess+3

def generate (sess : Nat) : List Words :=
  (if conf.range=[] then [(none,none)] else conf.range).foldl
    (fun pool r => conf.generateRange sess (conf.rangeStart r) (conf.rangeStop r) pool
      (List.range (turns sess))) []

end SubnetConf

def Words.octets (a : Words) : Vector Byte 16 :=
  Vector.ofFn fun i => Fin.ofNat 256 ((a[i.val / 4]?.getD 0).toNat / 256^(i.val % 4))

/-- `ogs_pfcp_ue_pool_generate`, for one subnet and `sess` sessions. -/
def uePoolGenerate (sess : Nat) (conf : SubnetConf) : Subnet :=
  let pool:=conf.generate sess
  { family := if conf.ipv6 then .inet6 else .inet
    dnn := conf.dnn
    size := pool.length
    addr := fun n => Words.octets (pool[n]?.getD (Vector.replicate 4 0)) }

theorem htobe32_injOn {i j : Nat} (hi : i<2^32) (hj : j<2^32) (h : htobe32 i=htobe32 j) :
    i=j := by
  have hdigits : ∀ n,n<2^32 → n=n % 256+256*(n / 256 % 256) +
      65536*(n / 65536 % 256)+16777216*(n / 16777216 % 256) := by
    intro n hn
    omega
  have hlt : ∀ n,n % 256*2^24+n / 256 % 256*2^16+n / 65536 % 256*256 +
      n / 16777216 % 256<2^32 := by
    intro n
    omega
  have hnat:=congrArg BitVec.toNat h
  simp only [htobe32,BitVec.toNat_ofNat,Nat.mod_eq_of_lt (hlt _)] at hnat
  have h0 : i % 256=j % 256 := by omega
  have h1 : i / 256 % 256=j / 256 % 256 := by omega
  have h2 : i / 65536 % 256=j / 65536 % 256 := by omega
  rw [hdigits i hi,hdigits j hj]
  omega

theorem octets_injective : Function.Injective Words.octets := by
  intro a b h
  have hbyte : ∀ i : Fin 4, ∀ k : Fin 4,
      a[i].toNat / 256^k.val % 256=b[i].toNat / 256^k.val % 256 := by
    intro i k
    have hlt : 4*i.val+k.val<16 := by omega
    have hdiv : (4*i.val+k.val) / 4=i.val := by omega
    have hmod : (4*i.val+k.val) % 4=k.val := by omega
    have hget:=congrArg (fun v : Vector Byte 16 => v[4*i.val+k.val]) h
    simp only [Words.octets,Vector.getElem_ofFn,hdiv,hmod,Vector.getElem?_eq_getElem i.isLt,
      Option.getD_some] at hget
    exact congrArg Fin.val hget
  apply Vector.ext
  intro i hi
  have h0 : a[i].toNat / 1 % 256=b[i].toNat / 1 % 256 := hbyte ⟨i,hi⟩ 0
  have h1 : a[i].toNat / 256 % 256=b[i].toNat / 256 % 256 := hbyte ⟨i,hi⟩ 1
  have h2 : a[i].toNat / 65536 % 256=b[i].toNat / 65536 % 256 := hbyte ⟨i,hi⟩ 2
  have h3 : a[i].toNat / 16777216 % 256=b[i].toNat / 16777216 % 256 := hbyte ⟨i,hi⟩ 3
  apply BitVec.eq_of_toNat_eq
  have ha:=a[i].isLt
  have hb:=b[i].isLt
  omega

namespace SubnetConf

variable {conf : SubnetConf} {sess : Nat} {start stop : Words}

theorem lastIndex_lt (conf : SubnetConf) :
    conf.lastIndex.val<conf.words ∧ conf.lastIndex.val≠3 := by
  unfold lastIndex words
  split <;> exact ⟨by decide,by decide⟩

theorem setWords_get (a : Words) (f : Nat → BitVec 32 → BitVec 32) (i : Fin 4) :
    (setWords a f)[i]=f i.val a[i] := by
  simp [setWords]

theorem candidate_last (conf : SubnetConf) (start : Words) (inc : Nat) :
    (conf.candidate start inc)[conf.lastIndex]=start[conf.lastIndex]+htobe32 inc := by
  rw [candidate,setWords_get,if_pos conf.lastIndex_lt.1,if_pos rfl]

theorem address_last (conf : SubnetConf) (start : Words) (inc : Nat) :
    (conf.address start inc)[conf.lastIndex]=start[conf.lastIndex]+htobe32 inc := by
  rw [address,setWords_get,if_neg fun he => conf.lastIndex_lt.2 he.2,candidate_last]

theorem last_injOn {i j : Nat} (hi : i<2^32) (hj : j<2^32)
    (h : start[conf.lastIndex]+htobe32 i=start[conf.lastIndex]+htobe32 j) : i=j :=
  htobe32_injOn hi hj (by simpa using h)

theorem sameWords_last {a b : Words} (h : conf.sameWords a b=true) :
    a[conf.lastIndex]=b[conf.lastIndex] := by
  have hall:=List.all_eq_true.mp h conf.lastIndex (List.mem_finRange _)
  simp only [Bool.or_eq_true,decide_eq_true_eq,beq_iff_eq] at hall
  exact hall.resolve_left (by have := conf.lastIndex_lt.1; omega)

theorem candidate_once {i j : Nat} {b : Words} (hi : i<2^32) (hj : j<2^32)
    (h : conf.sameWords (conf.candidate start i) b=true)
    (h' : conf.sameWords (conf.candidate start j) b=true) : i=j := by
  have he:=sameWords_last h
  have he':=sameWords_last h'
  rw [candidate_last] at he he'
  exact last_injOn hi hj (he.trans he'.symm)

def kept (conf : SubnetConf) (start stop : Words) (incs : List Nat) : List Nat :=
  (incs.takeWhile fun inc => !conf.sameWords (conf.candidate start inc) stop).filter fun inc =>
    !(conf.sameWords (conf.candidate start inc) conf.sub ||
      conf.sameWords (conf.candidate start inc) conf.gw)

theorem generateRange_eq (incs : List Nat) (pool : List Words) :
    conf.generateRange sess start stop pool incs =
      pool++((conf.kept start stop incs).take (sess-pool.length)).map (conf.address start) := by
  induction incs generalizing pool with
  | nil => simp [generateRange,kept]
  | cons inc incs ih =>
    unfold generateRange
    by_cases hlen : pool.length<sess
    · rw [if_pos hlen]
      dsimp only
      cases hstop : conf.sameWords (conf.candidate start inc) stop with
      | true => simp [kept,hstop]
      | false =>
        rw [if_neg (by simp)]
        cases hout : (conf.sameWords (conf.candidate start inc) conf.sub ||
            conf.sameWords (conf.candidate start inc) conf.gw) with
        | true =>
          have hkept : conf.kept start stop (inc::incs)=conf.kept start stop incs := by
            simp only [kept,List.takeWhile_cons,hstop,Bool.not_false,if_true,List.filter_cons,
              hout,Bool.not_true,Bool.false_eq_true,if_false]
          rw [if_pos rfl,ih,hkept]
        | false =>
          have hkept : conf.kept start stop (inc::incs)=inc::conf.kept start stop incs := by
            simp only [kept,List.takeWhile_cons,hstop,Bool.not_false,if_true,List.filter_cons,
              hout]
          have hpos : sess-pool.length=(sess-(pool.length+1))+1 := by omega
          rw [if_neg (by simp),ih,hkept,List.length_append,List.length_singleton,hpos,
            List.take_succ_cons,List.map_cons,List.append_assoc,List.singleton_append]
    · have hzero : sess-pool.length=0 := by omega
      rw [if_neg hlen,hzero,List.take_zero,List.map_nil,List.append_nil]

theorem length_le_one {l : List Nat} (hnodup : l.Nodup) (h : ∀ a∈l,∀ b∈l,a=b) :
    l.length≤1 := by
  match l with
  | [] => exact Nat.zero_le 1
  | [_] => exact Nat.le_refl 1
  | a::b::l =>
    have hab:=h a (List.mem_cons_self ..) b (List.mem_cons_of_mem _ (List.mem_cons_self ..))
    rw [hab] at hnodup
    exact absurd (List.mem_cons_self ..) (List.nodup_cons.mp hnodup).1

theorem length_kept {n : Nat} (hn : n≤2^32)
    (hall : ∀ inc<n,conf.sameWords (conf.candidate start inc) stop=false) :
    n≤(conf.kept start stop (List.range n)).length+2 := by
  have htake : (List.range n).takeWhile (fun inc =>
      !conf.sameWords (conf.candidate start inc) stop)=List.range n := by
    rw [List.takeWhile_eq_self_iff]
    intro inc hinc
    simp [hall inc (List.mem_range.mp hinc)]
  have hone : ∀ b : Words, ((List.range n).filter fun inc =>
      conf.sameWords (conf.candidate start inc) b).length≤1 := by
    intro b
    refine length_le_one (List.nodup_range.filter _) ?_
    intro i hi j hj
    rw [List.mem_filter,List.mem_range] at hi hj
    exact candidate_once (by omega) (by omega) hi.2 hj.2
  have hsub:=hone conf.sub
  have hgw:=hone conf.gw
  have hsplit:=List.length_eq_countP_add_countP (fun inc =>
    conf.sameWords (conf.candidate start inc) conf.sub ||
      conf.sameWords (conf.candidate start inc) conf.gw) (l := List.range n)
  have hor : ∀ l : List Nat, l.countP (fun inc =>
      conf.sameWords (conf.candidate start inc) conf.sub ||
        conf.sameWords (conf.candidate start inc) conf.gw) ≤
      l.countP (fun inc => conf.sameWords (conf.candidate start inc) conf.sub) +
        l.countP fun inc => conf.sameWords (conf.candidate start inc) conf.gw := by
    intro l
    induction l with
    | nil => simp
    | cons inc l ih =>
      simp only [List.countP_cons]
      cases conf.sameWords (conf.candidate start inc) conf.sub <;>
        cases conf.sameWords (conf.candidate start inc) conf.gw <;>
          simp only [Bool.or_true,Bool.or_false,Bool.false_eq_true,if_true,if_false] <;> omega
  have hcount:=hor (List.range n)
  rw [List.countP_eq_length_filter,List.countP_eq_length_filter,
    List.countP_eq_length_filter] at hcount
  rw [List.length_range,List.countP_eq_length_filter,List.countP_eq_length_filter] at hsplit
  have hkept : (conf.kept start stop (List.range n)).length=((List.range n).filter fun inc =>
      !(conf.sameWords (conf.candidate start inc) conf.sub ||
        conf.sameWords (conf.candidate start inc) conf.gw)).length := by
    rw [kept,htake]
  have hneg : ((List.range n).filter fun inc =>
      decide ¬ (conf.sameWords (conf.candidate start inc) conf.sub ||
        conf.sameWords (conf.candidate start inc) conf.gw)=true) =
      (List.range n).filter fun inc =>
        !(conf.sameWords (conf.candidate start inc) conf.sub ||
          conf.sameWords (conf.candidate start inc) conf.gw) := by
    apply List.filter_congr
    intro inc _
    simp
  rw [hneg] at hsplit
  omega

theorem turns_enough {n : Nat} (hle : turns sess≤n) (hsess : turns sess≤2^32)
    (pool : List Words) : conf.generateRange sess start stop pool (List.range n) =
      conf.generateRange sess start stop pool (List.range (turns sess)) := by
  obtain ⟨k,rfl⟩ := Nat.exists_eq_add_of_le hle
  rw [generateRange_eq,generateRange_eq,List.range_add]
  congr 2
  by_cases hall : ∀ inc<turns sess,conf.sameWords (conf.candidate start inc) stop=false
  · have hlen : turns sess≤(conf.kept start stop (List.range (turns sess))).length+2 :=
      length_kept hsess hall
    have happend : conf.kept start stop
        (List.range (turns sess)++(List.range k).map (turns sess + ·)) =
        conf.kept start stop (List.range (turns sess)) ++
          conf.kept start stop ((List.range k).map (turns sess + ·)) := by
      have hpass : ∀ inc ∈ List.range (turns sess),
          (!conf.sameWords (conf.candidate start inc) stop)=true := by
        intro inc hinc
        simp [hall inc (List.mem_range.mp hinc)]
      simp only [kept]
      rw [List.takeWhile_append_of_pos hpass,List.filter_append,
        List.takeWhile_eq_self_iff.mpr hpass]
    rw [happend,List.take_append_of_le_length]
    unfold turns at hlen
    unfold turns
    omega
  · have hsame : (List.range (turns sess)++(List.range k).map (turns sess + ·)).takeWhile
        (fun inc => !conf.sameWords (conf.candidate start inc) stop) =
        (List.range (turns sess)).takeWhile
          (fun inc => !conf.sameWords (conf.candidate start inc) stop) := by
      rw [List.takeWhile_append,if_neg]
      intro hfull
      refine hall fun inc hinc => ?_
      have hself : (List.range (turns sess)).takeWhile
          (fun inc => !conf.sameWords (conf.candidate start inc) stop) =
          List.range (turns sess) :=
        ( List.takeWhile_prefix _).eq_of_length hfull
      have hmem:=List.takeWhile_eq_self_iff.mp hself inc (List.mem_range.mpr hinc)
      simpa using hmem
    simp only [kept,hsame]

theorem generateRange_nodup (hsess : turns sess≤2^32) :
    (conf.generateRange sess start stop [] (List.range (turns sess))).Nodup := by
  rw [generateRange_eq,List.nil_append]
  have hsub : ((conf.kept start stop (List.range (turns sess))).take
      (sess-([] : List Words).length)).Sublist (List.range (turns sess)) :=
    (List.take_sublist _ _).trans (List.filter_sublist.trans (List.takeWhile_sublist _))
  refine List.Nodup.map_on ?_ (hsub.nodup List.nodup_range)
  intro i hi j hj he
  have hlt : ∀ k,k∈List.range (turns sess) → k<2^32 := by
    intro k hk
    have hk':=List.mem_range.mp hk
    omega
  have hlast:=congrArg (fun a : Words => a[conf.lastIndex]) he
  simp only [address_last] at hlast
  exact last_injOn (hlt i (hsub.subset hi)) (hlt j (hsub.subset hj)) hlast

theorem generate_nodup (hsess : turns sess≤2^32) (hrange : conf.range.length≤1) :
    (conf.generate sess).Nodup := by
  unfold generate
  match h : conf.range with
  | [] => exact generateRange_nodup hsess
  | [r] => exact generateRange_nodup hsess
  | r::r'::l => simp [h] at hrange

end SubnetConf

theorem uePoolGenerate_injOn {sess : Nat} {conf : SubnetConf} (h : (conf.generate sess).Nodup)
    {n m : Nat} (hn : n<(uePoolGenerate sess conf).size)
    (hm : m<(uePoolGenerate sess conf).size)
    (he : (uePoolGenerate sess conf).addr n=(uePoolGenerate sess conf).addr m) : n=m := by
  have hget:=octets_injective he
  rw [List.getElem?_eq_getElem hn,List.getElem?_eq_getElem hm] at hget
  exact (List.Nodup.getElem_inj_iff h).mp hget

end OgsDp.Pfcp
