import OgsDp.Core.CString
import OgsDp.Core.Calendar
import OgsDp.Core.Octets
import OgsDp.Lib.Turns
import OgsDp.Lib.Writes

/-!
# Times in messages (lib/sbi/conv.c)

The parser copies a string of any length to two buffers of `MAX_TIMESTR_LEN` octets, one for the
fraction of a second and one for all else. A write behind the end of one is a fault.
-/

namespace OgsDp.Sbi
open Lib OgsDp.Core List

def maxTimestrLen : Nat := 128

def dot : Byte := 46

/-- The variables of the loop: `j` and `k` are the lengths of what was written. -/
structure Scan where
  isSubsecs : Bool
  isTime : Bool
  timezoneFound : Bool
  seconds : List Byte
  subsecs : List Byte

def Scan.init : Scan := ⟨false,false,false,[],[]⟩

def Scan.flags (c : Byte) (s : Scan) : Scan :=
  let s :=
    if s.isSubsecs=false ∧ c=dot then { s with isSubsecs := true }
    else if s.isSubsecs=false ∧ c=84 then { s with isTime := true }
    else if s.isSubsecs=true ∧ isDigit c=false then { s with isSubsecs := false }
    else s
  if s.isTime=true ∧ (c=plus ∨ c=minus) then { s with timezoneFound := true } else s

def skipped (str : List Byte) (i : Nat) (c : Byte) : Except Fault Bool :=
  if c=colon ∧ 3 ≤ i then do
    let b ← octetAt str (i-3)
    return b=plus ∨ b=minus
  else .ok false

def timeTurn (str : List Byte) (t : Nat × Scan) : Except Fault ((Nat × Scan) ⊕ Scan) := do
  let c ← octetAt str t.1
  if c=0 then return .inr t.2
  else
    let s:=t.2.flags c
    if s.isSubsecs=false then
      if ← skipped str t.1 c then return .inl (t.1+1,s)
      else
        let seconds ← putWithin .write maxTimestrLen [c] s.seconds
        return .inl (t.1+1,{ s with seconds })
    else
      let subsecs ← putWithin .write maxTimestrLen [c] s.subsecs
      return .inl (t.1+1,{ s with subsecs })

def timeScan (str : CStr) : Turns Scan := Turns.loop (timeTurn str.mem) (0,Scan.init)

def buffer (written : List Byte) : List Byte :=
  written++List.replicate (maxTimestrLen-written.length) 0

def zeroTm : Tm := ⟨0,0,0,0,0,0,0⟩

/-- What `ogs_sbi_time_from_string` does behind its loop; `usecs` is the rounded value of `atof`. -/
def timeOfScan (usecs : List Byte → Int) (s : Scan) : Except Fault (Option Int) := do
  let format := if s.timezoneFound then dateTimeFormat++[.zone] else dateTimeFormat
  let r ← strptime format (buffer s.seconds) zeroTm
  return ogsTimeFromGmt r.1 (usecs (buffer s.subsecs))

/-- `ogs_sbi_time_from_string`; the result is nothing where it returns false. -/
def timeFromString (usecs : List Byte → Int) (str : CStr) : Turns (Option Int) :=
  timeScan str >>= fun s => Turns.of (timeOfScan usecs s)

def fractionChar (b : Byte) : Bool := isDigit b || b == dot

/-- Whether a fraction is open at the end of a text: of the points among the digits and points
there, every other one begins a fraction. -/
def fractionOpen (text : List Byte) : Bool :=
  (text.reverse.takeWhile fractionChar).count dot % 2 == 1

def inFraction (str : List Byte) (i : Nat) : Bool := fractionOpen (str.take (i+1))

def back (str : List Byte) (i : Nat) : Option Byte := if 3 ≤ i then str[i-3]? else none

def zoneColon (str : List Byte) (i : Nat) : Bool :=
  str[i]? == some colon && (back str i == some plus || back str i == some minus)

def inSeconds (str : List Byte) (i : Nat) : Bool := !inFraction str i && !zoneColon str i

/-- What is copied of a string has room: neither buffer gets more characters than it has octets. -/
def Fits (str : List Byte) : Prop :=
  (List.range str.length).countP (inSeconds str) ≤ maxTimestrLen ∧
    (List.range str.length).countP (inFraction str) ≤ maxTimestrLen

instance (str : List Byte) : Decidable (Fits str) := inferInstanceAs (Decidable (_ ∧ _))

def Scan.next (c : Byte) (back : Option Byte) (s : Scan) : Scan :=
  let s:=s.flags c
  if s.isSubsecs=false then
    if c=colon ∧ (back=some plus ∨ back=some minus) then s
    else { s with seconds := s.seconds++[c] }
  else { s with subsecs := s.subsecs++[c] }

def Scan.Room (s : Scan) : Prop :=
  s.seconds.length ≤ maxTimestrLen ∧ s.subsecs.length ≤ maxTimestrLen

instance (s : Scan) : Decidable s.Room := inferInstanceAs (Decidable (_ ∧ _))

def scanned (str : List Byte) : Nat → Scan
  | 0 => Scan.init
  | i+1 => (scanned str i).next (str[i]?.getD 0) (back str i)

section Turn

variable {str : CStr} {i : Nat} {c : Byte} {s : Scan}

@[simp] theorem Scan.flags_seconds (c : Byte) (s : Scan) : (s.flags c).seconds=s.seconds := by
  unfold Scan.flags
  simp only
  split_ifs <;> rfl

@[simp] theorem Scan.flags_subsecs (c : Byte) (s : Scan) : (s.flags c).subsecs=s.subsecs := by
  unfold Scan.flags
  simp only
  split_ifs <;> rfl

theorem octetAt_mem (h : str.bytes[i]?=some c) : octetAt str.mem i = .ok c := by
  have hlt : i<str.bytes.length := (List.getElem?_eq_some_iff.mp h).1
  unfold octetAt CStr.mem
  rw [List.getElem?_append_left hlt,h]

theorem octetAt_mem_end : octetAt str.mem str.bytes.length = .ok 0 := by
  unfold octetAt CStr.mem
  rw [List.getElem?_append_right (Nat.le_refl _),Nat.sub_self]
  rfl

theorem skipped_eq (hi : i<str.bytes.length) (c : Byte) :
    skipped str.mem i c = .ok (decide (c=colon ∧
      (back str.bytes i=some plus ∨ back str.bytes i=some minus))) := by
  unfold skipped back
  by_cases h3 : 3 ≤ i
  · have hlt : i-3<str.bytes.length := by omega
    have hget : str.bytes[i-3]?=some str.bytes[i-3] := List.getElem?_eq_getElem hlt
    rw [if_pos h3,octetAt_mem hget,hget]
    by_cases hc : c=colon
    · rw [if_pos ⟨hc,h3⟩,ok_bind]
      simp only [Option.some.injEq,hc,true_and,Bool.decide_or]
      rfl
    · rw [if_neg fun h => hc h.1]
      simp [hc]
  · rw [if_neg h3,if_neg fun h => h3 h.2]
    simp

theorem putWithin_char (l : List Byte) (c : Byte) :
    putWithin Fault.write maxTimestrLen [c] l =
      if (l++[c]).length ≤ maxTimestrLen then .ok (l++[c]) else .error .write := by
  unfold putWithin
  rw [length_append]

theorem timeTurn_end (s : Scan) : timeTurn str.mem (str.bytes.length,s) = .ok (.inr s) := by
  unfold timeTurn
  rw [octetAt_mem_end]
  rfl

theorem timeTurn_char (hc : str.bytes[i]?=some c) (hs : s.Room) :
    timeTurn str.mem (i,s) =
      if (s.next c (back str.bytes i)).Room then .ok (.inl (i+1,s.next c (back str.bytes i)))
      else .error .write := by
  have hi : i<str.bytes.length := (List.getElem?_eq_some_iff.mp hc).1
  have h0 : c≠0 := by
    rintro rfl
    exact str.noNul (List.mem_of_getElem? hc)
  obtain ⟨hsec,hsub⟩ := hs
  unfold timeTurn Scan.next Scan.Room
  simp only [octetAt_mem hc,ok_bind,if_neg h0,skipped_eq hi,putWithin_char,
    Scan.flags_seconds,Scan.flags_subsecs,decide_eq_true_eq]
  by_cases hopen : (s.flags c).isSubsecs=false
  · simp only [if_pos hopen]
    by_cases hskip : c=colon ∧ (back str.bytes i=some plus ∨ back str.bytes i=some minus)
    · simp only [if_pos hskip,Scan.flags_seconds,Scan.flags_subsecs]
      rw [if_pos ⟨hsec,hsub⟩]
      rfl
    · simp only [if_neg hskip,and_iff_left hsub]
      split <;> rfl
  · simp only [if_neg hopen,and_iff_right hsec]
    split <;> rfl

theorem length_next_seconds (c : Byte) (b : Option Byte) (s : Scan) :
    s.seconds.length≤(s.next c b).seconds.length := by
  unfold Scan.next
  simp only
  split_ifs
  · rw [Scan.flags_seconds]
  · simp
  · rw [Scan.flags_seconds]

theorem length_next_subsecs (c : Byte) (b : Option Byte) (s : Scan) :
    s.subsecs.length≤(s.next c b).subsecs.length := by
  unfold Scan.next
  simp only
  split_ifs
  · rw [Scan.flags_subsecs]
  · rw [Scan.flags_subsecs]
  · simp

theorem room_of_later {l : List Byte} {j : Nat} (h : (scanned l (i+j)).Room) :
    (scanned l i).Room := by
  induction j with
  | zero => exact h
  | succ j ih =>
    obtain ⟨hsec,hsub⟩ := h
    exact ih ⟨(length_next_seconds _ _ _).trans hsec,(length_next_subsecs _ _ _).trans hsub⟩

theorem loopRun_timeTurn {k : Nat} (hk : i+k=str.bytes.length)
    (hroom : (scanned str.bytes i).Room) :
    Turns.loopRun (timeTurn str.mem) (k+1) (i,scanned str.bytes i) =
      some (if (scanned str.bytes str.bytes.length).Room
        then .ok (scanned str.bytes str.bytes.length) else .error .write) := by
  induction k generalizing i with
  | zero =>
    obtain rfl : i=str.bytes.length := hk
    rw [Turns.loopRun,timeTurn_end,if_pos hroom]
  | succ k ih =>
    have hget : str.bytes[i]?=some (str.bytes[i]?.getD 0) := by
      rw [List.getElem?_eq_getElem (by omega)]
      rfl
    have hturn:=timeTurn_char hget hroom
    change timeTurn str.mem _ = if (scanned str.bytes (i+1)).Room
      then .ok (.inl (i+1,scanned str.bytes (i+1))) else .error .write at hturn
    rw [Turns.loopRun,hturn]
    by_cases hnext : (scanned str.bytes (i+1)).Room
    · rw [if_pos hnext]
      exact ih (by omega) hnext
    · have hlast : ¬ (scanned str.bytes str.bytes.length).Room := by
        intro h
        have hlen : str.bytes.length=i+1+k := by omega
        rw [hlen] at h
        exact hnext (room_of_later h)
      rw [if_neg hnext,if_neg hlast]

theorem timeScan_run (str : CStr) :
    (timeScan str).run (str.bytes.length+1) =
      some (if (scanned str.bytes str.bytes.length).Room
        then .ok (scanned str.bytes str.bytes.length) else .error .write) :=
  loopRun_timeTurn (Nat.zero_add _) ⟨Nat.zero_le _,Nat.zero_le _⟩

theorem fractionOpen_snoc (text : List Byte) (c : Byte) :
    fractionOpen (text++[c]) =
      if fractionChar c then (if c=dot then !fractionOpen text else fractionOpen text)
      else false := by
  unfold fractionOpen
  rw [reverse_append,reverse_singleton,singleton_append,takeWhile_cons]
  by_cases hc : fractionChar c=true
  · rw [if_pos hc,if_pos hc]
    by_cases hdot : c=dot
    · rw [if_pos hdot,hdot,count_cons_self]
      generalize List.count dot _=n
      rcases Nat.mod_two_eq_zero_or_one n with h | h
      · simp [Nat.add_mod,h]
      · simp [Nat.add_mod,h]
    · rw [if_neg hdot,count_cons_of_ne hdot]
  · rw [if_neg hc,if_neg hc]
    rfl

theorem flags_isSubsecs (c : Byte) (s : Scan) :
    (s.flags c).isSubsecs =
      if fractionChar c then (if c=dot then !s.isSubsecs else s.isSubsecs) else false := by
  have hzone (s : Scan) (p : Prop) [Decidable p] :
      (if p then { s with timezoneFound := true } else s).isSubsecs=s.isSubsecs := by
    split <;> rfl
  unfold Scan.flags
  simp only [hzone]
  by_cases hdot : c=dot
  · subst hdot
    cases hs : s.isSubsecs with
    | false => simp [fractionChar]
    | true => simp [fractionChar,isDigit,dot]
  · by_cases hdigit : isDigit c=true
    · have hT : c≠84 := by
        rintro rfl
        cases hdigit
      simp [fractionChar,hdot,hdigit,hT]
    · cases hs : s.isSubsecs with
      | false =>
        simp only [fractionChar,hdot,hdigit]
        split_ifs <;> simp_all
      | true => simp [fractionChar,hdot,hdigit]

variable {text : List Byte}

theorem take_succ_of_getElem? {i : Nat} (h : text[i]?=some c) :
    text.take (i+1)=text.take i++[c] := by
  rw [take_add_one,h]
  rfl

theorem scanned_isSubsecs {i : Nat} (h : i≤text.length) :
    (scanned text i).isSubsecs=fractionOpen (text.take i) := by
  induction i with
  | zero => rfl
  | succ i ih =>
    have hget : text[i]?=some (text[i]?.getD 0) := by
      rw [List.getElem?_eq_getElem h]
      rfl
    have hnext (c : Byte) (b : Option Byte) (s : Scan) :
        (s.next c b).isSubsecs=(s.flags c).isSubsecs := by
      unfold Scan.next
      simp only
      split_ifs <;> rfl
    rw [take_succ_of_getElem? hget,fractionOpen_snoc,scanned,hnext,flags_isSubsecs,
      ih (Nat.le_of_succ_le h)]

theorem scanned_lengths {i : Nat} (h : i≤text.length) :
    (scanned text i).seconds.length=(List.range i).countP (inSeconds text) ∧
      (scanned text i).subsecs.length=(List.range i).countP (inFraction text) := by
  induction i with
  | zero => exact ⟨rfl,rfl⟩
  | succ i ih =>
    obtain ⟨hsec,hsub⟩ := ih (Nat.le_of_succ_le h)
    have hget : text[i]?=some (text[i]?.getD 0) := by
      rw [List.getElem?_eq_getElem h]
      rfl
    have hopen : ((scanned text i).flags (text[i]?.getD 0)).isSubsecs=inFraction text i := by
      rw [inFraction,take_succ_of_getElem? hget,fractionOpen_snoc,flags_isSubsecs,
        scanned_isSubsecs (Nat.le_of_succ_le h)]
    have hzone : zoneColon text i=true ↔ text[i]?.getD 0=colon ∧
        (back text i=some plus ∨ back text i=some minus) := by
      unfold zoneColon
      rw [hget]
      simp
    rw [range_succ,countP_append,countP_append,countP_singleton,
      countP_singleton,← hsec,← hsub,scanned]
    unfold Scan.next inSeconds
    simp only [hopen,← hzone]
    cases inFraction text i with
    | true => simp
    | false => cases zoneColon text i <;> simp

theorem room_iff_fits (text : List Byte) : (scanned text text.length).Room ↔ Fits text := by
  obtain ⟨hsec,hsub⟩ := scanned_lengths (Nat.le_refl text.length)
  unfold Scan.Room Fits
  rw [hsec,hsub]

end Turn

structure Timestamp where
  usecs : Nat
  year_ge : 1970≤(gmtime (usecs / 1000000)).year+1900
  year_le : (gmtime (usecs / 1000000)).year+1900≤9999

def Timestamp.tm (t : Timestamp) : Tm := gmtime (t.usecs / 1000000)

def Timestamp.dateTime (t : Timestamp) : List Byte := strftime dateTimeFormat t.tm

def Timestamp.fraction (t : Timestamp) : List Byte := zeroPadded 6 (t.usecs % 1000000)

def timeBytes (tm : Tm) (fraction : List Byte) : List Byte :=
  strftime dateTimeFormat tm++dot::(fraction++[90])

theorem Timestamp.valid (t : Timestamp) : t.tm.Valid := gmtime_valid _

theorem Timestamp.fourDigits (t : Timestamp) : t.tm.FourDigits := by
  have hlow:=t.year_ge
  have hhigh:=t.year_le
  unfold Tm.FourDigits tm
  omega

def dateText (tm : Tm) : List Byte :=
  decimal (tm.year+1900).toNat ++
    minus::(zeroPadded 2 (tm.mon+1)++minus::zeroPadded 2 tm.mday)

def timeText (tm : Tm) : List Byte :=
  zeroPadded 2 tm.hour++colon::(zeroPadded 2 tm.min++colon::zeroPadded 2 tm.sec)

theorem strftime_dateTime (tm : Tm) :
    strftime dateTimeFormat tm=dateText tm++84::timeText tm := by
  simp [strftime,dateTimeFormat,Directive.write,dateText,timeText,minus]

theorem length_dateText {tm : Tm} (h : tm.Valid) (hyear : tm.FourDigits) :
    (dateText tm).length=10 := by
  obtain ⟨hlow,hhigh⟩ := hyear
  have hmon:=h.mon
  have hmday:=h.mday
  have hdec : decimal (tm.year+1900).toNat=zeroPadded 4 (tm.year+1900).toNat :=
    (zeroPadded_eq_decimal (by decide) (by omega)).symm
  have h1 : (zeroPadded 4 (tm.year+1900).toNat).length=4 :=
    length_zeroPadded (by decide) (by omega)
  have h2 : (zeroPadded 2 (tm.mon+1)).length=2 := length_zeroPadded (by decide) (by omega)
  have h3 : (zeroPadded 2 tm.mday).length=2 := length_zeroPadded (by decide) (by omega)
  unfold dateText
  rw [hdec]
  simp only [length_append,length_cons,h1,h2,h3]

theorem length_timeText {tm : Tm} (h : tm.Valid) : (timeText tm).length=8 := by
  have hhour:=h.hour
  have hmin:=h.min
  have hsec:=h.sec
  have h1 : (zeroPadded 2 tm.hour).length=2 := length_zeroPadded (by decide) (by omega)
  have h2 : (zeroPadded 2 tm.min).length=2 := length_zeroPadded (by decide) (by omega)
  have h3 : (zeroPadded 2 tm.sec).length=2 := length_zeroPadded (by decide) (by omega)
  unfold timeText
  simp only [length_append,length_cons,h1,h2,h3]

theorem mem_dateText {tm : Tm} {b : Byte} (h : b∈dateText tm) : isDigit b=true ∨ b=minus := by
  simp only [dateText,mem_append,mem_cons] at h
  rcases h with h | rfl | h | rfl | h
  · exact .inl (isDigit_decimal h)
  · exact .inr rfl
  · exact .inl (isDigit_zeroPadded h)
  · exact .inr rfl
  · exact .inl (isDigit_zeroPadded h)

theorem mem_timeText {tm : Tm} {b : Byte} (h : b∈timeText tm) : isDigit b=true ∨ b=colon := by
  simp only [timeText,mem_append,mem_cons] at h
  rcases h with h | rfl | h | rfl | h
  · exact .inl (isDigit_zeroPadded h)
  · exact .inr rfl
  · exact .inl (isDigit_zeroPadded h)
  · exact .inr rfl
  · exact .inl (isDigit_zeroPadded h)

section Written

variable {text rest l : List Byte} {i : Nat} {c : Byte} {s : Scan}

theorem getElem?_of_drop (h : text.drop i=c::rest) : text[i]?=some c := by
  rw [← List.head?_drop,h]
  rfl

theorem scanned_char (h : text.drop i=c::rest) :
    scanned text (i+1)=(scanned text i).next c (back text i) := by
  rw [scanned,getElem?_of_drop h]
  rfl

/-- A character outside fractions that says nothing of the time or the zone. -/
structure Plain (isTime : Bool) (c : Byte) : Prop where
  not_dot : c≠dot
  not_T : c≠84
  not_sign : isTime=true → c≠plus ∧ c≠minus

theorem next_plain {b : Option Byte} (hc : Plain s.isTime c) (hs : s.isSubsecs=false)
    (hback : ¬ (c=colon ∧ (b=some plus ∨ b=some minus))) :
    s.next c b = { s with seconds := s.seconds++[c] } := by
  have hsign : ¬ (s.isTime=true ∧ (c=plus ∨ c=minus)) := by
    rintro ⟨htime,rfl | rfl⟩
    · exact (hc.not_sign htime).1 rfl
    · exact (hc.not_sign htime).2 rfl
  have hflags : s.flags c=s := by
    unfold Scan.flags
    simp [hs,hc.not_dot,hc.not_T,hsign]
  unfold Scan.next
  simp only [hflags,hs,if_neg hback,if_true]

theorem scanned_plain (hl : ∀ b∈l,Plain (scanned text i).isTime b)
    (hs : (scanned text i).isSubsecs=false)
    (hback : ∀ j,back text (i+j)=some plus ∨ back text (i+j)=some minus →
      l[j]?≠some colon)
    (h : text.drop i=l++rest) :
    scanned text (i+l.length) =
      { scanned text i with seconds := (scanned text i).seconds++l } := by
  induction l generalizing i with
  | nil => rw [append_nil]; rfl
  | cons c l ih =>
    have hone : scanned text (i+1) =
        { scanned text i with seconds := (scanned text i).seconds++[c] } := by
      rw [scanned_char h]
      refine next_plain (hl c (mem_cons_self ..)) hs ?_
      rintro ⟨rfl,hsign⟩
      exact hback 0 hsign rfl
    have hmore:=ih (i := i+1) (by
        intro b hb
        rw [hone]
        exact hl b (mem_cons_of_mem _ hb)) (by rw [hone]; exact hs) (by
        intro j hj
        have hpos : i+1+j=i+(j+1) := by omega
        rw [hpos] at hj
        exact hback (j+1) hj) (by rw [← drop_drop,h]; rfl)
    have hlen : i+(c::l).length=i+1+l.length := by
      rw [length_cons]
      omega
    rw [hlen,hmore,hone]
    simp only [append_assoc,singleton_append]

theorem scanned_fraction (hl : ∀ b∈l,isDigit b=true)
    (hs : (scanned text i).isSubsecs=true) (h : text.drop i=l++rest) :
    scanned text (i+l.length) =
      { scanned text i with subsecs := (scanned text i).subsecs++l } := by
  induction l generalizing i with
  | nil => rw [append_nil]; rfl
  | cons c l ih =>
    have hc:=hl c (mem_cons_self ..)
    have hdot : c≠dot := by
      rintro rfl
      cases hc
    have hsign : ¬ (c=plus ∨ c=minus) := by
      rintro (rfl | rfl) <;> cases hc
    have hone : scanned text (i+1) =
        { scanned text i with subsecs := (scanned text i).subsecs++[c] } := by
      have hflags : (scanned text i).flags c=scanned text i := by
        unfold Scan.flags
        simp [hs,hc,hsign]
      rw [scanned_char h]
      unfold Scan.next
      simp [hflags,hs]
    have hmore:=ih (i := i+1) (fun b hb => hl b (mem_cons_of_mem _ hb))
      (by rw [hone]; exact hs) (by rw [← drop_drop,h]; rfl)
    have hlen : i+(c::l).length=i+1+l.length := by
      rw [length_cons]
      omega
    rw [hlen,hmore,hone]
    simp only [append_assoc,singleton_append]

theorem plain_of_digit (b : Bool) (h : isDigit c=true) : Plain b c := by
  refine ⟨?_,?_,fun _ => ⟨?_,?_⟩⟩
  all_goals
    rintro rfl
    cases h

end Written

section Gmtime

variable {tm : Tm} (h : tm.Valid) (hyear : tm.FourDigits) {fraction : List Byte}

theorem timeBytes_eq (tm : Tm) (fraction : List Byte) :
    timeBytes tm fraction =
      dateText tm++(84::(timeText tm++dot::(fraction++[90]))) := by
  unfold timeBytes
  rw [strftime_dateTime,append_assoc]
  rfl

include h hyear

theorem scanned_date :
    scanned (timeBytes tm fraction) 10=⟨false,false,false,dateText tm,[]⟩ := by
  have hplain:=scanned_plain (i := 0)
    (fun b hb => by
      rcases mem_dateText hb with h | rfl
      · exact plain_of_digit _ h
      · exact ⟨by decide,by decide,fun h => nomatch h⟩)
    rfl
    (fun j _ hget => by
      rcases mem_dateText (List.mem_of_getElem? hget) with h | h <;> cases h)
    (timeBytes_eq tm fraction)
  rw [length_dateText h hyear] at hplain
  exact hplain

theorem back_of_colon {j : Nat} (hj : (timeText tm)[j]?=some colon) :
    ¬ (back (timeBytes tm fraction) (11+j)=some plus ∨
      back (timeBytes tm fraction) (11+j)=some minus) := by
  have hhour : (zeroPadded 2 tm.hour).length=2 :=
    length_zeroPadded (by decide) (by have := h.hour; omega)
  have hj2 : 2≤j := by
    by_contra hlt
    have hget : (zeroPadded 2 tm.hour)[j]?=some colon := by
      rw [← hj,timeText,List.getElem?_append_left (by omega)]
    have hdigit:=isDigit_zeroPadded (List.mem_of_getElem? hget)
    cases hdigit
  have hjlt : j<(timeText tm).length := (List.getElem?_eq_some_iff.mp hj).1
  -- The character is the `T` or one of the time.
  have hfront : back (timeBytes tm fraction) (11+j)=(84::timeText tm)[j-2]? := by
    have hpos : 11+j-3=(dateText tm).length+(j-2) := by
      rw [length_dateText h hyear]
      omega
    unfold back
    rw [if_pos (by omega),timeBytes_eq,hpos,List.getElem?_append_right (Nat.le_add_right _ _),
      Nat.add_sub_cancel_left,← cons_append,List.getElem?_append_left (by
        rw [length_cons]
        omega)]
  rw [hfront]
  rintro (hsign | hsign)
  all_goals
    rcases mem_cons.mp (List.mem_of_getElem? hsign) with hT | htime
    · cases hT
    · rcases mem_timeText htime with hd | hc
      · cases hd
      · cases hc

theorem scanned_time :
    scanned (timeBytes tm fraction) 19 =
      ⟨false,true,false,strftime dateTimeFormat tm,[]⟩ := by
  have hlen:=length_dateText h hyear
  have hdrop : (timeBytes tm fraction).drop 10 =
      84::(timeText tm++dot::(fraction++[90])) := by
    rw [timeBytes_eq,drop_left' hlen]
  have hdrop' : (timeBytes tm fraction).drop 11=timeText tm++dot::(fraction++[90]) := by
    rw [← drop_drop (i := 1) (j := 10),hdrop]
    rfl
  have hT : scanned (timeBytes tm fraction) 11 =
      ⟨false,true,false,dateText tm++[84],[]⟩ := by
    rw [scanned_char hdrop,scanned_date h hyear]
    rfl
  have hplain:=scanned_plain
    (fun b hb => by
      rcases mem_timeText hb with h | rfl
      · exact plain_of_digit _ h
      · exact ⟨by decide,by decide,fun _ => ⟨by decide,by decide⟩⟩)
    (by rw [hT])
    (fun j hsign hget => back_of_colon h hyear hget hsign)
    hdrop'
  rw [length_timeText h,hT] at hplain
  rw [hplain,strftime_dateTime,append_assoc]
  rfl

theorem length_dateTime : (strftime dateTimeFormat tm).length=19 := by
  rw [strftime_dateTime,length_append,length_cons,length_dateText h hyear,
    length_timeText h]

theorem scanned_timeBytes (hfraction : ∀ b∈fraction,isDigit b=true) :
    scanned (timeBytes tm fraction) (timeBytes tm fraction).length =
      ⟨false,true,false,strftime dateTimeFormat tm++[90],dot::fraction⟩ := by
  have hlen:=length_dateTime h hyear
  have hdrop : (timeBytes tm fraction).drop 19=dot::(fraction++[90]) := by
    unfold timeBytes
    rw [drop_left' hlen]
  have hdrop' : (timeBytes tm fraction).drop 20=fraction++[90] := by
    rw [← drop_drop (i := 1) (j := 19),hdrop]
    rfl
  have hdrop'' : (timeBytes tm fraction).drop (20+fraction.length)=[90] := by
    rw [← drop_drop,hdrop',drop_left' rfl]
  have hdot : scanned (timeBytes tm fraction) 20 =
      ⟨true,true,false,strftime dateTimeFormat tm,[dot]⟩ := by
    rw [scanned_char hdrop,scanned_time h hyear]
    rfl
  have hdigits:=scanned_fraction hfraction (by rw [hdot]) hdrop'
  have hlast : (timeBytes tm fraction).length=20+fraction.length+1 := by
    unfold timeBytes
    rw [length_append,hlen,length_cons,length_append]
    show 19+(fraction.length+1+1)=_
    omega
  rw [hlast,scanned_char hdrop'',hdigits,hdot]
  rfl

theorem strptime_buffer (hoff : tm.gmtoff=0) :
    ∃ rest,strptime dateTimeFormat (buffer (strftime dateTimeFormat tm++[90])) zeroTm =
      .ok (tm,some (90::rest)) := by
  have hnozone : ∀ d∈dateTimeFormat,¬ d.IsZone := by
    intro d hd
    simp only [dateTimeFormat,mem_cons,not_mem_nil,or_false] at hd
    rcases hd with rfl | rfl | rfl | rfl | rfl | rfl | rfl | rfl | rfl | rfl | rfl
    all_goals exact id
  have hall : dateTimeFormat.foldl (fun t d => d.copy tm t) zeroTm=tm := by
    cases tm
    cases hoff
    rfl
  have hread:=strptime_strftime h hyear
    (90::List.replicate (maxTimestrLen-(strftime dateTimeFormat tm++[90]).length) 0)
    hnozone zeroTm
  rw [hall] at hread
  exact ⟨_,(congrArg (strptime dateTimeFormat · zeroTm) (append_assoc ..)).trans hread⟩

theorem timeOfScan_dateTime (hoff : tm.gmtoff=0) (usecs : List Byte → Int) {s : Scan}
    (hs : s.seconds=strftime dateTimeFormat tm++[90]) (hzone : s.timezoneFound=false) :
    timeOfScan usecs s = .ok (ogsTimeFromGmt tm (usecs (buffer s.subsecs))) := by
  obtain ⟨rest,hread⟩ := strptime_buffer h hyear hoff
  unfold timeOfScan
  rw [hzone,hs]
  show (strptime dateTimeFormat _ _ >>= _)=_
  rw [hread]
  rfl

end Gmtime

theorem zero_not_mem_timeBytes (tm : Tm) {fraction : List Byte}
    (hfraction : ∀ b∈fraction,isDigit b=true) : (0 : Byte)∉timeBytes tm fraction := by
  intro hm
  rw [timeBytes_eq] at hm
  simp only [mem_append,mem_cons,not_mem_nil,or_false] at hm
  rcases hm with hm | hm | hm | hm | hm | hm
  · rcases mem_dateText hm with h | h <;> cases h
  · cases hm
  · rcases mem_timeText hm with h | h <;> cases h
  · cases hm
  · cases hfraction 0 hm
  · cases hm

def gmtimeString (t : Timestamp) : CStr where
  bytes := timeBytes t.tm t.fraction
  noNul := zero_not_mem_timeBytes t.tm fun _ => isDigit_zeroPadded

theorem timeFromString_run (usecs : List Byte → Int) (str : CStr) :
    (timeFromString usecs str).run (str.bytes.length+1) =
      some (if Fits str.bytes then timeOfScan usecs (scanned str.bytes str.bytes.length)
        else .error .write) := by
  show Turns.bindRun _ _ _=_
  unfold Turns.bindRun
  rw [timeScan_run]
  by_cases hfits : Fits str.bytes
  · rw [if_pos ((room_iff_fits _).mpr hfits),if_pos hfits]
    rfl
  · rw [if_neg fun h => hfits ((room_iff_fits _).mp h),if_neg hfits]

theorem timeOfScan_ne_write (usecs : List Byte → Int) (s : Scan) :
    timeOfScan usecs s ≠ .error .write := by
  intro h
  have honly : OnlyReads (timeOfScan usecs s) :=
    (onlyReads_strptime _ _ _).bind fun _ => onlyReads_ok _
  cases honly _ h

/-- The parser comes to an end with any string, and writes inside its buffers if and only if the
string has at most 128 characters in fractions and 128 others that are no colons of a zone. The
string of a timestamp is split: the first buffer begins with the date and time, which is all that
the format without a zone reads, and the second one has the six digits. -/
theorem time_from_string (usecs : List Byte → Int) :
    (∀ str : CStr, ∃ n r,(timeFromString usecs str).run n=some r ∧
      (r ≠ .error .write ↔ Fits str.bytes)) ∧
    ∀ t : Timestamp, ∃ s : Scan, (timeScan (gmtimeString t)).Returns s ∧
      s.seconds=t.dateTime++[90] ∧ s.subsecs=dot::t.fraction ∧ s.timezoneFound=false ∧
      (∃ rest,strptime dateTimeFormat (buffer s.seconds) zeroTm = .ok (t.tm,some (90::rest))) ∧
      (timeFromString usecs (gmtimeString t)).Returns
        (some ((t.usecs / 1000000 : Nat)*1000000+usecs (buffer (dot::t.fraction)))) := by
  constructor
  · intro str
    refine ⟨_,_,timeFromString_run usecs str,?_⟩
    by_cases hfits : Fits str.bytes
    · rw [if_pos hfits]
      exact iff_of_true (timeOfScan_ne_write usecs _) hfits
    · rw [if_neg hfits]
      exact iff_of_false (fun h => h rfl) hfits
  · intro t
    have hdigits : ∀ b∈t.fraction,isDigit b=true := fun _ => isDigit_zeroPadded
    have hlen : (strftime dateTimeFormat t.tm).length=19 :=
      length_dateTime t.valid t.fourDigits
    have hfraction : t.fraction.length=6 :=
      length_zeroPadded (by decide) (Nat.mod_lt _ (by decide))
    have hscan : scanned (gmtimeString t).bytes (gmtimeString t).bytes.length =
        ⟨false,true,false,t.dateTime++[90],dot::t.fraction⟩ :=
      scanned_timeBytes t.valid t.fourDigits hdigits
    have hroom : (scanned (gmtimeString t).bytes (gmtimeString t).bytes.length).Room := by
      rw [hscan]
      constructor
      · show (t.dateTime++[90]).length≤128
        rw [length_append,Timestamp.dateTime,hlen]
        decide
      · show (dot::t.fraction).length≤128
        rw [length_cons,hfraction]
        decide
    have hreturns:=timeScan_run (gmtimeString t)
    have hresult:=timeFromString_run usecs (gmtimeString t)
    rw [if_pos hroom,hscan] at hreturns
    rw [if_pos ((room_iff_fits _).mp hroom),hscan] at hresult
    rw [timeOfScan_dateTime t.valid t.fourDigits rfl usecs rfl rfl] at hresult
    have htime:=ogsTimeFromGmt_gmtime (t.usecs / 1000000) (usecs (buffer (dot::t.fraction)))
    obtain ⟨rest,hread⟩ := strptime_buffer t.valid t.fourDigits rfl
    refine ⟨_,⟨_,hreturns⟩,rfl,rfl,rfl,⟨rest,hread⟩,(gmtimeString t).bytes.length+1,?_⟩
    rw [hresult]
    exact congrArg (some ∘ Except.ok) htime

def manyDigits : CStr := ⟨List.replicate 129 48,by decide⟩

theorem inSeconds_replicate {n i : Nat} (hi : i<n) :
    inSeconds (List.replicate n 48) i=true := by
  have hopen : inFraction (List.replicate n 48) i=false := by
    unfold inFraction fractionOpen
    rw [count_eq_zero_of_not_mem fun h => ?_]
    · rfl
    · have hmem:=mem_of_mem_take (mem_reverse.mp ((takeWhile_sublist _).subset h))
      exact absurd (eq_of_mem_replicate hmem) (by decide)
  have hzone : zoneColon (List.replicate n 48) i=false := by
    unfold zoneColon
    rw [getElem?_replicate_of_lt hi]
    rfl
  rw [inSeconds,hopen,hzone]
  rfl

theorem not_fits_manyDigits : ¬ Fits manyDigits.bytes := by
  rintro ⟨hsec,-⟩
  have hlen : manyDigits.bytes.length=129 := length_replicate
  have hall : ∀ i∈List.range 129,inSeconds manyDigits.bytes i=true :=
    fun i hi => inSeconds_replicate (mem_range.mp hi)
  rw [hlen,countP_eq_length.mpr hall,length_range] at hsec
  exact absurd hsec (by decide)

/-- Of 129 digits the last one is written behind the buffer. -/
theorem time_from_string_long :
    ¬ ∃ n r,(timeFromString (fun _ => 0) manyDigits).run n=some r ∧
      r ≠ .error .write := by
  rintro ⟨n,r,hrun,hr⟩
  have hlong:=timeFromString_run (fun _ => 0) manyDigits
  rw [if_neg (not_fits_manyDigits)] at hlong
  change (timeFromString _ _).run 130=_ at hlong
  have hmax:=Turns.run_le hrun (Nat.le_max_left n 130)
  rw [Turns.run_le hlong (Nat.le_max_right n 130)] at hmax
  exact hr (Option.some.inj hmax).symm

end OgsDp.Sbi
