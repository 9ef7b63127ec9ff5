import OgsDp.Core.CString
import OgsDp.Core.Octets

/-!
# Octets as text and back (lib/core/ogs-conv.c)

The functions work on the memory of the caller: an access behind it is a fault. A digit that is
none is not looked for.
-/

namespace OgsDp.Core
open Lib List

def digitOf (v : Nat) : Byte := Fin.ofNat 256 (48+v)

def bcdDigits (b : Byte) : List Byte := [digitOf (b.val % 16),digitOf (b.val / 16)]

def bcdTurn (inp out : List Byte) (i : Nat) : Except Fault (List Byte) :=
  octetAt inp i >>= fun b => storeAt out (i*2) (bcdDigits b)

/-- `ogs_buffer_to_bcd`; `in_len` is the length of `inp`. -/
def bufferToBcd (inp out : List Byte) : Except Fault (List Byte) := do
  let out ← (List.range (inp.length-1)).foldlM (bcdTurn inp) out
  let i:=inp.length-1
  let b ← octetAt inp i
  if b.val / 16=15 then storeAt out (i*2) [digitOf (b.val % 16),0]
  else storeAt out (i*2) (bcdDigits b++[0])

def bcdText : List Byte → List Byte
  | [] => []
  | [b] => if b.val / 16=15 then [digitOf (b.val % 16)] else bcdDigits b
  | b::l => bcdDigits b++bcdText l

def hexDigit (v : Nat) : Byte := Fin.ofNat 256 (if v<10 then 48+v else 87+v)

def hexDigits (b : Byte) : List Byte := [hexDigit (b.val / 16),hexDigit (b.val % 16)]

/-- `ogs_slprintf` of `text` at `p`, with `last` at the end of `out`. -/
def slprintf (out : List Byte) (p : Nat) (text : List Byte) : Except Fault (Nat × List Byte) :=
  if p<out.length then do
    let out ← storeAt out p (text.take (out.length-p-1)++[0])
    return (p+text.length,out)
  else return (p-1,out)

def hexTurn (inp : List Byte) (s : Nat × List Byte) (i : Nat) : Except Fault (Nat × List Byte) :=
  octetAt inp i >>= fun b => slprintf s.2 s.1 (hexDigits b)

/-- `ogs_hex_to_ascii`; `in_len` is the length of `inp`, `out_len` that of `out`. -/
def hexToAscii (inp out : List Byte) : Except Fault (List Byte) := do
  let out ← storeAt out 0 [0]
  let s ← (List.range (min inp.length out.length)).foldlM (hexTurn inp) (0,out)
  return s.2

-- The value of a digit, of which an `uint8_t` keeps eight bits.
def asciiDigit (c : Byte) : Byte :=
  if isDigit c then c-48 else if 97 ≤ c.val ∧ c.val≤122 then c-97+10 else c-65+10

/-- `ogs_ascii_to_hex` from `out[j]` on, `odd` for a digit that is there; `out_len` is the length
of `out`. -/
def asciiToHex : List Byte → List Byte → Nat → Bool → Except Fault (Nat × List Byte)
  | [], out, j, _ => .ok (j,out)
  | c::text, out, j, odd =>
    if j<out.length then
      if isSpace c then asciiToHex text out j odd
      else if odd then do
        let b ← octetAt out j
        let out ← storeAt out j [Fin.ofNat 256 (b.val ||| (asciiDigit c).val)]
        asciiToHex text out (j+1) false
      else do
        let out ← storeAt out j [Fin.ofNat 256 ((asciiDigit c).val <<< 4)]
        asciiToHex text out j true
    else .ok (j,out)

section Write

variable {inp out : List Byte}

theorem length_flatMap_bcdDigits (l : List Byte) : (l.flatMap bcdDigits).length=l.length*2 :=
  length_flatMap_eq bcdDigits l fun _ _ => rfl

theorem length_flatMap_hexDigits (l : List Byte) : (l.flatMap hexDigits).length=l.length*2 :=
  length_flatMap_eq hexDigits l fun _ _ => rfl

theorem foldlM_bcdTurn (init : List Byte) :
    ∀ tail,init.length*2≤out.length →
      (List.range init.length).foldlM (bcdTurn (init++tail)) out =
        .ok (init.flatMap bcdDigits++out.drop (init.length*2)) := by
  induction init using List.reverseRecOn with
  | nil => exact fun _ _ => rfl
  | append_singleton init c ih =>
    intro tail h
    rw [length_append,length_singleton] at h ⊢
    have hturn : bcdTurn (init++([c]++tail))
        (init.flatMap bcdDigits++out.drop (init.length*2)) init.length =
          .ok (init.flatMap bcdDigits++(bcdDigits c++out.drop (init.length*2+2))) := by
      rw [bcdTurn,singleton_append,octetAt_append,ok_bind]
      exact storeAt_drop (length_flatMap_bcdDigits init) (by show _+2≤_; omega)
    rw [append_assoc,range_succ,foldlM_append,ih _ (by omega),ok_bind,
      foldlM_cons,hturn,ok_bind,flatMap_append,flatMap_singleton,
      append_assoc,Nat.add_mul]
    rfl

theorem bcdText_append (init : List Byte) (b : Byte) :
    bcdText (init++[b])=init.flatMap bcdDigits++bcdText [b] := by
  induction init with
  | nil => rfl
  | cons c init ih =>
    have hcons : bcdText (c::(init++[b]))=bcdDigits c++bcdText (init++[b]) := by
      cases init <;> rfl
    rw [cons_append,hcons,ih,flatMap_cons,append_assoc]

theorem bufferToBcd_ok (hne : inp≠[]) (h : inp.length*2+1≤out.length) :
    ∃ rest,bufferToBcd inp out = .ok (bcdText inp++0::rest) := by
  obtain hnil | ⟨init,b,rfl⟩ := inp.eq_nil_or_concat'
  · exact absurd hnil hne
  rw [length_append,length_singleton] at h
  have hlast : (init++[b]).length-1=init.length := by
    rw [length_append,length_singleton]
    omega
  have hpre:=length_flatMap_bcdDigits init
  have hloop : (List.range init.length).foldlM (bcdTurn (init++[b])) out =
      .ok (init.flatMap bcdDigits++out.drop (init.length*2)) :=
    foldlM_bcdTurn init [b] (by omega)
  unfold bufferToBcd
  simp only [hlast,hloop,octetAt_append,ok_bind]
  rw [bcdText_append,bcdText]
  by_cases hfiller : b.val / 16=15
  · rw [if_pos hfiller,if_pos hfiller,storeAt_drop hpre (by show _+2≤_; omega)]
    exact ⟨_,by rw [append_assoc]; rfl⟩
  · rw [if_neg hfiller,if_neg hfiller,storeAt_drop hpre (by show _+3≤_; omega),
      append_assoc,← append_assoc (init.flatMap bcdDigits)]
    exact ⟨_,rfl⟩

theorem foldlM_hexTurn (init : List Byte) :
    ∀ tail,init.length*2+1≤out.length →
      (List.range init.length).foldlM (hexTurn (init++tail)) (0,0::out.drop 1) =
        .ok (init.length*2,init.flatMap hexDigits++0::out.drop (init.length*2+1)) := by
  induction init using List.reverseRecOn with
  | nil => exact fun _ _ => rfl
  | append_singleton init c ih =>
    intro tail h
    rw [length_append,length_singleton] at h ⊢
    have hturn : hexTurn (init++([c]++tail)) (init.length*2,
        init.flatMap hexDigits++0::out.drop (init.length*2+1)) init.length =
          .ok (init.length*2+2,init.flatMap hexDigits ++
            (hexDigits c++0::out.drop (init.length*2+3))) := by
      have hpre:=length_flatMap_hexDigits init
      have hrest : out.drop (init.length*2+1)=(out.drop (init.length*2+1)).take 2 ++
          out.drop (init.length*2+3) := by
        rw [← drop_drop (i := 2),take_append_drop]
      have htwo : ((out.drop (init.length*2+1)).take 2).length=2 := by
        rw [length_take,length_drop]
        omega
      have hlen : (init.flatMap hexDigits++0::out.drop (init.length*2+1)).length =
          out.length := by
        rw [length_append,hpre,length_cons,length_drop]
        omega
      have htext : (hexDigits c).take (out.length-init.length*2-1)=hexDigits c :=
        take_of_length_le (by show 2≤_; omega)
      have hstore : storeAt (init.flatMap hexDigits++(0::(out.drop (init.length*2+1)).take 2
          ++ out.drop (init.length*2+3))) (init.length*2) (hexDigits c++[0])=_ :=
        storeAt_append hpre (by rw [length_cons,htwo]; rfl)
      rw [cons_append,← hrest] at hstore
      rw [hexTurn,singleton_append,octetAt_append,ok_bind,slprintf]
      simp only
      rw [hlen,if_pos (by omega),htext,hstore]
      rfl
    rw [append_assoc,range_succ,foldlM_append,ih _ (by omega),ok_bind,
      foldlM_cons,hturn,ok_bind,flatMap_append,flatMap_singleton,
      append_assoc,Nat.add_mul]
    rfl

theorem hexToAscii_ok (h : inp.length*2+1≤out.length) :
    ∃ rest,hexToAscii inp out = .ok (inp.flatMap hexDigits++0::rest) := by
  have hmin : min inp.length out.length=inp.length := by omega
  have hfirst : storeAt out 0 [0] = .ok (0::out.drop 1) :=
    if_pos (show 0+1≤out.length by omega)
  have hlength : (0::out.drop 1).length=out.length := by
    rw [length_cons,length_drop]
    omega
  have hloop : (List.range inp.length).foldlM (hexTurn (inp++[])) (0,0::out.drop 1)=_ :=
    foldlM_hexTurn inp [] h
  rw [append_nil] at hloop
  unfold hexToAscii
  simp only [hfirst,ok_bind,hlength,hmin,hloop]
  exact ⟨_,rfl⟩

theorem asciiToHex_ok (text : List Byte) (out : List Byte) (j : Nat) (odd : Bool) :
    ∃ j' out',asciiToHex text out j odd = .ok (j',out') ∧ out'.length=out.length := by
  induction text generalizing out j odd with
  | nil => exact ⟨j,out,rfl,rfl⟩
  | cons c text ih =>
    rw [asciiToHex]
    by_cases hj : j<out.length
    · rw [if_pos hj]
      have hstore (b : Byte) : ∃ d',storeAt out j [b] = .ok d' ∧ d'.length=out.length := by
        have hroom : j+[b].length≤out.length := hj
        obtain ⟨d',hd',hlen,-⟩ := storeAt_of_le hroom
        exact ⟨d',hd',hlen⟩
      split
      · exact ih out j odd
      · split
        · rw [octetAt_of_lt hj]
          obtain ⟨d',hd',hlen⟩ := hstore (Fin.ofNat 256
            ((out[j]?.getD 0).val ||| (asciiDigit c).val))
          simp only [ok_bind,hd']
          rw [← hlen]
          exact ih d' (j+1) false
        · obtain ⟨d',hd',hlen⟩ := hstore (Fin.ofNat 256 ((asciiDigit c).val <<< 4))
          simp only [ok_bind,hd']
          rw [← hlen]
          exact ih d' j true
    · exact ⟨j,out,if_neg hj,rfl⟩

end Write

end OgsDp.Core
