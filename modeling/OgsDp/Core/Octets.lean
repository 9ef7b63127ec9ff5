import OgsDp.Core.Hash
import OgsDp.Lib.Reads
import Mathlib.Data.List.Induction

/-!
# Reads inside a buffer

A read beyond the octets of a buffer is a fault.
-/

namespace OgsDp.Core
open Lib List

variable {d : List Byte} {i n : Nat}

def octetAt (d : List Byte) (i : Nat) : Except Fault Byte :=
  match d[i]? with
  | some b => .ok b
  | none => .error .read

def octetsAt (d : List Byte) (i n : Nat) : Except Fault (List Byte) :=
  if i+n≤d.length then .ok ((d.drop i).take n) else .error .read

theorem octetAt_of_lt (h : i<d.length) : octetAt d i = .ok (d[i]?.getD 0) := by
  rw [octetAt,List.getElem?_eq_getElem h]
  rfl

theorem octetAt_of_le (h : d.length ≤ i) : octetAt d i = .error .read := by
  rw [octetAt,List.getElem?_eq_none h]

theorem octetAt_drop {b : Byte} {l : List Byte} (h : d.drop i=b::l) : octetAt d i = .ok b := by
  have hget : d[i]?=some b := by
    rw [← List.head?_drop,h]
    rfl
  rw [octetAt,hget]

theorem octetAt_append (init tail : List Byte) (b : Byte) :
    octetAt (init++b::tail) init.length = .ok b :=
  octetAt_drop drop_left

theorem octetsAt_of_le (h : i+n≤d.length) : octetsAt d i n = .ok ((d.drop i).take n) :=
  if_pos h

theorem octetsAt_of_lt (h : d.length < i+n) : octetsAt d i n = .error .read :=
  if_neg (Nat.not_le.mpr h)

theorem gives_octetAt {β : Type} {f : Byte → Except Fault β} {P : β → Prop} :
    Gives (octetAt d i >>= f) P ↔ i<d.length ∧ Gives (f (d.getD i 0)) P := by
  by_cases h : i<d.length
  · rw [octetAt_of_lt h]
    exact (and_iff_right h).symm
  · rw [octetAt_of_le (Nat.le_of_not_lt h)]
    exact iff_of_false not_gives_error fun hg => h hg.1

theorem gives_octetsAt {β : Type} {f : List Byte → Except Fault β} {P : β → Prop} :
    Gives (octetsAt d i n >>= f) P ↔ i+n≤d.length ∧ Gives (f ((d.drop i).take n)) P := by
  by_cases h : i+n≤d.length
  · rw [octetsAt_of_le h]
    exact (and_iff_right h).symm
  · rw [octetsAt_of_lt (Nat.lt_of_not_le h)]
    exact iff_of_false not_gives_error fun hg => h hg.1

def storeAt (d : List Byte) (i : Nat) (bytes : List Byte) : Except Fault (List Byte) :=
  if i+bytes.length≤d.length then .ok (d.take i++bytes++d.drop (i+bytes.length))
  else .error .write

theorem storeAt_of_le {bytes : List Byte} (h : i+bytes.length≤d.length) :
    ∃ d',storeAt d i bytes = .ok d' ∧ d'.length=d.length ∧
      d'.take (i+bytes.length)=d.take i++bytes := by
  have hpre : (d.take i++bytes).length=i+bytes.length := by
    rw [length_append,length_take]
    omega
  refine ⟨_,if_pos h,?_,take_left' hpre⟩
  rw [length_append,hpre,length_drop]
  omega

theorem storeAt_append {pre mid post bytes : List Byte} (hpre : pre.length=n)
    (h : mid.length=bytes.length) :
    storeAt (pre++(mid++post)) n bytes = .ok (pre++(bytes++post)) := by
  subst hpre
  have hlen : pre.length+bytes.length≤(pre++(mid++post)).length := by
    rw [length_append,length_append]
    omega
  have hdrop : (pre++(mid++post)).drop (pre.length+bytes.length)=post := by
    rw [← h,← append_assoc,← length_append]
    exact drop_left
  rw [storeAt,if_pos hlen,hdrop,take_left,append_assoc]

theorem storeAt_drop {pre bytes : List Byte} (hpre : pre.length=n)
    (h : n+bytes.length≤d.length) :
    storeAt (pre++d.drop n) n bytes = .ok (pre++(bytes++d.drop (n+bytes.length))) := by
  have hmid : ((d.drop n).take bytes.length).length=bytes.length := by
    rw [length_take,length_drop]
    omega
  have hsplit : d.drop n=(d.drop n).take bytes.length++d.drop (n+bytes.length) := by
    rw [← drop_drop,take_append_drop]
  rw [hsplit]
  exact storeAt_append hpre hmid

theorem netBytes_succ (n v : Nat) :
    netBytes (n+1) v=netBytes n (v / 256)++[Fin.ofNat 256 v] := by
  rw [netBytes,hostBytes_succ,reverse_cons,netBytes]

theorem netBytes_netValue (l : List Byte) : netBytes l.length (netValue l)=l := by
  induction l using List.reverseRecOn with
  | nil => rfl
  | append_singleton l b ih =>
    have hb:=b.isLt
    rw [length_append,netValue_append]
    show netBytes (l.length+1) _=_
    have hdiv : (netValue l*256+b.val) / 256=netValue l := by omega
    have hmod : Fin.ofNat 256 (netValue l*256+b.val)=b :=
      Fin.ext (show (netValue l*256+b.val) % 256=b.val by omega)
    rw [netBytes_succ,hdiv,hmod,ih]

theorem netValue_lt (l : List Byte) : netValue l<256^l.length := by
  induction l using List.reverseRecOn with
  | nil => exact Nat.one_pos
  | append_singleton l b ih =>
    have hb:=b.isLt
    rw [length_append,netValue_append]
    show _<256^(l.length+1)
    rw [Nat.pow_succ]
    omega

/-- An integer of two octets; the reader stops with `e` if they are not there. -/
def readNet16 {ε : Type} (e : ε) (l : List Byte) : Except ε (BitVec 16 × List Byte) :=
  readVec e 2 l >>= fun r => .ok (BitVec.ofNat 16 (netValue r.1.toList),r.2)

theorem reads_net {ε : Type} (e : ε) (n : Nat) :
    Reads (fun l => readVec e n l >>= fun r =>
        .ok (BitVec.ofNat (8*n) (netValue r.1.toList),r.2))
      (fun x : BitVec (8*n) => netBytes n x.toNat) fun _ => True := by
  have hpow : 2^(8*n)=256^n := Nat.pow_mul 2 8 n
  intro l x rest
  rw [(reads_readVec e n).bind_ok]
  constructor
  · rintro ⟨v,rest',-,rfl,h⟩
    obtain ⟨rfl,rfl⟩ := Prod.mk.inj (Except.ok.inj h)
    have hlen : v.toList.length=n := v.length_toList
    have hlt:=netValue_lt v.toList
    rw [hlen] at hlt
    have hval : (BitVec.ofNat (8*n) (netValue v.toList)).toNat=netValue v.toList :=
      Nat.mod_eq_of_lt (hpow ▸ hlt)
    have hbytes:=netBytes_netValue v.toList
    rw [hlen] at hbytes
    refine ⟨trivial,?_⟩
    show v.toList++rest'=netBytes n (BitVec.ofNat (8*n) (netValue v.toList)).toNat++rest'
    rw [hval,hbytes]
  · rintro ⟨-,rfl⟩
    refine ⟨⟨(netBytes n x.toNat).toArray,length_netBytes n x.toNat⟩,rest,trivial,rfl,?_⟩
    have hval : BitVec.ofNat (8*n) (netValue (netBytes n x.toNat))=x := by
      apply BitVec.eq_of_toNat_eq
      rw [netValue_netBytes,BitVec.toNat_ofNat,hpow,Nat.mod_mod,← hpow]
      exact Nat.mod_eq_of_lt x.isLt
    exact congrArg (fun y => Except.ok (y,rest)) hval

theorem reads_readNet16 {ε : Type} (e : ε) :
    Reads (readNet16 e) (fun x => netBytes 2 x.toNat) fun _ => True := reads_net e 2

theorem stopsWith_readNet16 {ε : Type} (e : ε) : StopsWith (readNet16 e) e :=
  (stopsWith_readVec e 2).map fun v => BitVec.ofNat 16 (netValue v.toList)

@[simp] theorem guarded_readNet16 {ε : Type} (e e' : ε) :
    guarded 2 e (readNet16 e')=readNet16 e := by
  have hvec:=guarded_readVec (α := Byte) 2 e e'
  funext l
  unfold readNet16
  rw [← hvec]
  unfold guarded
  split <;> rfl

theorem foldlM_put {ε β : Type} (step : List Byte → β → Except ε (List Byte))
    (enc : β → List Byte) (limit : Nat) (bs : List β)
    (hstep : ∀ out,∀ b∈bs,out.length+(enc b).length≤limit → step out b = .ok (out++enc b))
    (out : List Byte) (hfits : out.length+(bs.flatMap enc).length≤limit) :
    bs.foldlM step out = .ok (out++bs.flatMap enc) := by
  induction bs generalizing out with
  | nil => rw [flatMap_nil,append_nil]; rfl
  | cons b bs ih =>
    rw [flatMap_cons,length_append] at hfits
    rw [foldlM_cons,hstep out b (mem_cons_self ..) (by omega)]
    show bs.foldlM step (out++enc b)=_
    rw [ih (fun out c hc => hstep out c (mem_cons_of_mem b hc)) (out++enc b) (by
      rw [length_append]; omega),flatMap_cons,append_assoc]

theorem length_flatMap_le {β : Type} (enc : β → List Byte) {n : Nat} (bs : List β)
    (h : ∀ b∈bs,(enc b).length≤n) : (bs.flatMap enc).length≤bs.length*n := by
  induction bs with
  | nil => exact Nat.zero_le _
  | cons b bs ih =>
    obtain ⟨hb,hbs⟩ := forall_mem_cons.mp h
    have hrest:=ih hbs
    rw [flatMap_cons,length_append,length_cons,Nat.succ_mul]
    omega

theorem le_length_flatMap {β : Type} (enc : β → List Byte) {n : Nat} (bs : List β)
    (h : ∀ b∈bs,n≤(enc b).length) : bs.length*n≤(bs.flatMap enc).length := by
  induction bs with
  | nil => exact Nat.le_of_eq (Nat.zero_mul n)
  | cons b bs ih =>
    obtain ⟨hb,hbs⟩ := forall_mem_cons.mp h
    have hrest:=ih hbs
    rw [flatMap_cons,length_append,length_cons,Nat.succ_mul]
    omega

theorem length_flatMap_eq {β : Type} (enc : β → List Byte) {n : Nat} (bs : List β)
    (h : ∀ b∈bs,(enc b).length=n) : (bs.flatMap enc).length=bs.length*n :=
  Nat.le_antisymm (length_flatMap_le enc bs fun b hb => Nat.le_of_eq (h b hb))
    (le_length_flatMap enc bs fun b hb => Nat.le_of_eq (h b hb).symm)

end OgsDp.Core
