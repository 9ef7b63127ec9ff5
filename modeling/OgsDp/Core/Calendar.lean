import OgsDp.Core.Conv
import OgsDp.Lib.Checked

/-!
# Broken-down time (lib/core/ogs-time.c)

`gmtime_r`, `strftime` and `strptime` are of the C library: only the directives of the format that
the SBI uses are here.
-/

namespace OgsDp.Core
open Lib List

/-- The fields of `struct tm` that are used; years since 1900, months from 0 on. -/
structure Tm where
  year : Int
  mon : Nat
  mday : Nat
  hour : Nat
  min : Nat
  sec : Nat
  gmtoff : Int
  deriving DecidableEq

def marchYear (days : Nat) : Nat × Nat :=
  let century:=min (days / 36524) 3
  let inCentury:=days-century*36524
  let four:=inCentury / 1461
  let inFour:=inCentury-four*1461
  let year:=min (inFour / 365) 3
  (century*100+four*4+year,inFour-year*365)

def monthDay (day : Nat) : Nat × Nat :=
  let month:=(5*day+2) / 153
  (if month<10 then month+2 else month-10,day-(153*month+2) / 5+1)

def tmOfDays (days secs : Nat) : Tm :=
  let year:=marchYear (days % 146097)
  let date:=monthDay year.2
  { year := (days / 146097*400+year.1 : Nat)+(if date.1<2 then 1 else 0)-1900
    mon := date.1
    mday := date.2
    hour := secs / 3600
    min := secs % 3600 / 60
    sec := secs % 60
    gmtoff := 0 }

def gmtime (s : Nat) : Tm := tmOfDays (s / 86400+719468) (s % 86400)

def dayoffset : List Nat := [306,337,0,31,61,92,122,153,184,214,245,275]

/-- `ogs_time_from_lt`; the result is nothing where it returns `OGS_ERROR`. -/
def ogsTimeFromLt (tm : Tm) (usec : Int) : Option Int :=
  if 12≤tm.mon then none
  else
    let year := if tm.mon<2 then tm.year-1 else tm.year
    let days:=year*365+year.tdiv 4-year.tdiv 100+(year.tdiv 100+3).tdiv 4
    let days:=days+(dayoffset[tm.mon]?.getD 0 : Nat)+tm.mday-1
    let days:=days-25508
    let secs:=((days*24+tm.hour)*60+tm.min)*60+tm.sec
    if secs<0 then none else some (secs*1000000+usec)

def ogsTimeFromGmt (tm : Tm) (usec : Int) : Option Int :=
  (ogsTimeFromLt tm usec).map fun t => t-tm.gmtoff*1000000

theorem marchYear_spec {days : Nat} (h : days<146097) :
    (marchYear days).2<366 ∧
      days+(marchYear days).1 / 100 =
        (marchYear days).1*365+(marchYear days).1 / 4+(marchYear days).2 ∧
      (marchYear days).1<400 := by
  obtain ⟨c,hc⟩ : ∃ c,c=min (days / 36524) 3 := ⟨_,rfl⟩
  obtain ⟨d,hd⟩ : ∃ d,d=days-c*36524 := ⟨_,rfl⟩
  obtain ⟨q,hq⟩ : ∃ q,q=d / 1461 := ⟨_,rfl⟩
  obtain ⟨e,he⟩ : ∃ e,e=d-q*1461 := ⟨_,rfl⟩
  obtain ⟨y,hy⟩ : ∃ y,y=min (e / 365) 3 := ⟨_,rfl⟩
  have hdate : marchYear days=(c*100+q*4+y,e-y*365) := by
    subst hy he hq hd hc
    rfl
  have hcentury : c≤3 ∧ days=c*36524+d ∧ d≤36524 := by omega
  have hfour : q≤24 ∧ d=q*1461+e ∧ e≤1460 := by omega
  have hyear : y≤3 ∧ y*365≤e ∧ e-y*365≤365 := by omega
  have hdiv4 : (c*100+q*4+y) / 4=c*25+q := by omega
  have hdiv100 : (c*100+q*4+y) / 100=c := by omega
  rw [hdate]
  refine ⟨?_,?_,?_⟩
  · show e-y*365<366
    omega
  · show days+(c*100+q*4+y) / 100 =
      (c*100+q*4+y)*365+(c*100+q*4+y) / 4+(e-y*365)
    omega
  · show c*100+q*4+y<400
    omega

structure Tm.Valid (tm : Tm) : Prop where
  mon : tm.mon<12
  mday : 1≤tm.mday ∧ tm.mday≤31
  hour : tm.hour<24
  min : tm.min<60
  sec : tm.sec<60

set_option maxRecDepth 4000 in
theorem monthDay_spec :
    ∀ day<366,(monthDay day).1<12 ∧ 1≤(monthDay day).2 ∧ (monthDay day).2≤31 ∧
      dayoffset[(monthDay day).1]?.getD 0+(monthDay day).2=day+1 := by
  decide

theorem tmOfDays_valid (days : Nat) {secs : Nat} (h : secs<86400) :
    (tmOfDays days secs).Valid := by
  have hyear:=marchYear_spec (Nat.mod_lt days (by decide : 0<146097))
  obtain ⟨hmon,hlow,hhigh,-⟩ := monthDay_spec _ hyear.1
  constructor
  · exact hmon
  · exact ⟨hlow,hhigh⟩
  · show secs / 3600<24
    omega
  · show secs % 3600 / 60<60
    omega
  · show secs % 60<60
    omega

theorem gmtime_valid (s : Nat) : (gmtime s).Valid :=
  tmOfDays_valid _ (Nat.mod_lt s (by decide))

theorem days_of_year {era m : Nat} (hm : m<400) (hera : 1969≤era*400+m) :
    let year : Int := (era*400+m : Nat)-1900
    year*365+year.tdiv 4-year.tdiv 100+(year.tdiv 100+3).tdiv 4 =
      era*146097+m*365+(m / 4 : Nat)-(m / 100 : Nat)-693960 := by
  intro year
  have hyear : year=(era*400+m : Nat)-1900 := rfl
  have h4 : year.tdiv 4=year / 4 := Int.tdiv_eq_ediv_of_nonneg (by omega)
  have h100 : year.tdiv 100=year / 100 := Int.tdiv_eq_ediv_of_nonneg (by omega)
  have h400 : (year / 100+3).tdiv 4=(year / 100+3) / 4 :=
    Int.tdiv_eq_ediv_of_nonneg (by omega)
  rw [h4,h100,h400]
  omega

theorem days_of_date {days m o mday day : Nat}
    (hm : days % 146097+m / 100=m*365+m / 4+day) (ho : o+mday=day+1) :
    ((days / 146097 : Nat) : Int)*146097+m*365+(m / 4 : Nat)-(m / 100 : Nat)-693960+o+mday-1 -
        25508=days-719468 := by
  omega

theorem secs_of_time {hour min sec secs : Nat} (days : Int)
    (h : (hour*60+min)*60+sec=secs) :
    ((days*24+hour)*60+min)*60+sec=days*86400+secs := by
  omega

theorem ogsTimeFromGmt_tmOfDays {days secs : Nat} (hdays : 719468≤days) (hsecs : secs<86400)
    (usec : Int) :
    ogsTimeFromGmt (tmOfDays days secs) usec =
      some (((days : Int)-719468)*86400*1000000+secs*1000000+usec) := by
  have hspec:=marchYear_spec (Nat.mod_lt days (by decide : 0<146097))
  obtain ⟨hmon,-,-,hoffset⟩ := monthDay_spec _ hspec.1
  have hmon' : ¬ 12≤(tmOfDays days secs).mon := Nat.not_le.mpr hmon
  have hoffset' : dayoffset[(tmOfDays days secs).mon]?.getD 0+(tmOfDays days secs).mday =
      (marchYear (days % 146097)).2+1 := hoffset
  have hyear : (if (tmOfDays days secs).mon<2 then (tmOfDays days secs).year-1
      else (tmOfDays days secs).year) =
      (days / 146097*400+(marchYear (days % 146097)).1 : Nat)-1900 := by
    unfold tmOfDays
    simp only
    split <;> omega
  have htime : ((tmOfDays days secs).hour*60+(tmOfDays days secs).min)*60 +
      (tmOfDays days secs).sec=secs := by
    unfold tmOfDays
    simp only
    omega
  have hfirst : 1969≤days / 146097*400+(marchYear (days % 146097)).1 := by omega
  have hcount:=days_of_year hspec.2.2 hfirst
  unfold ogsTimeFromGmt ogsTimeFromLt
  rw [if_neg hmon',hyear]
  simp only [hcount]
  rw [days_of_date hspec.2.1 hoffset',secs_of_time _ htime]
  have hoff : (tmOfDays days secs).gmtoff=0 := rfl
  have hsince : ¬ ((days : Int)-719468)*86400+secs<0 := by
    clear hspec hoffset hoffset' hyear htime hfirst hcount
    omega
  rw [if_neg hsince,Option.map_some,hoff,Int.zero_mul,Int.sub_zero,Int.add_mul]

theorem ogsTimeFromGmt_gmtime (s : Nat) (usec : Int) :
    ogsTimeFromGmt (gmtime s) usec=some (s*1000000+usec) := by
  unfold gmtime
  rw [ogsTimeFromGmt_tmOfDays (Nat.le_add_left _ _) (Nat.mod_lt s (by decide))]
  exact congrArg some (by omega)

def zeroPadded (width n : Nat) : List Byte :=
  List.replicate (width-(decimal n).length) 48++decimal n

/-- The directives of `strftime` and `strptime`, or a character that stands for itself. -/
inductive Directive where
  | year | mon | mday | hour | min | sec | zone
  | char (c : Byte)

def dateTimeFormat : List Directive :=
  [.year,.char 45,.mon,.char 45,.mday,.char 84,.hour,.char colon,.min,.char colon,.sec]

/-- What `strftime` writes for a directive; years are not negative. -/
def Directive.write (tm : Tm) : Directive → List Byte
  | .year => decimal (tm.year+1900).toNat
  | .mon => zeroPadded 2 (tm.mon+1)
  | .mday => zeroPadded 2 tm.mday
  | .hour => zeroPadded 2 tm.hour
  | .min => zeroPadded 2 tm.min
  | .sec => zeroPadded 2 tm.sec
  | .zone =>
    (if tm.gmtoff<0 then 45 else 43) ::
      (zeroPadded 2 (tm.gmtoff.natAbs / 3600)++zeroPadded 2 (tm.gmtoff.natAbs % 3600 / 60))
  | .char c => [c]

def strftime (format : List Directive) (tm : Tm) : List Byte := format.flatMap (Directive.write tm)

def moreDigits (high : Nat) : Nat → Nat → List Byte → Except Fault (Nat × List Byte)
  | 0, v, text => .ok (v,text)
  | n+1, v, text =>
    if 10*v≤high then
      match text with
      | [] => .error .read
      | b::rest =>
        if isDigit b then moreDigits high n (10*v+(b.val-48)) rest else .ok (v,b::rest)
    else .ok (v,text)

def getNumber (low high n : Nat) (text : List Byte) : Except Fault (Option (Nat × List Byte)) :=
  match text.dropWhile isSpace with
  | [] => .error .read
  | b::rest =>
    if isDigit b then do
      let r ← moreDigits high (n-1) (b.val-48) rest
      return if low ≤ r.1 ∧ r.1≤high then some r else none
    else .ok none

def zoneDigits : Nat → Nat → Nat → List Byte → Except Fault (Nat × Nat × List Byte)
  | 0, v, n, text => .ok (v,n,text)
  | _+1, _, _, [] => .error .read
  | k+1, v, n, b::rest =>
    if isDigit b then
      match rest with
      | [] => .error .read
      | c::rest =>
        if c=colon ∧ n=1 then
          match rest with
          | [] => .error .read
          | d::rest =>
            if isDigit d then zoneDigits k (10*v+(b.val-48)) (n+1) (d::rest)
            else zoneDigits k (10*v+(b.val-48)) (n+1) (c::d::rest)
        else zoneDigits k (10*v+(b.val-48)) (n+1) (c::rest)
    else .ok (v,n,b::rest)

def getZone (text : List Byte) : Except Fault (Option (Int × List Byte)) :=
  match text.dropWhile isSpace with
  | [] => .error .read
  | b::rest =>
    if b=90 then .ok (some (0,rest))
    else if b=43 ∨ b=45 then do
      let r ← zoneDigits 4 0 0 rest
      let v := if r.2.1=2 then r.1*100 else r.1
      let off : Int := (v / 100*3600+v % 100*60 : Nat)
      return if r.2.1=2 ∨ r.2.1=4 ∧ v % 100<60 then
          some (if b=45 then -off else off,r.2.2)
        else none
    else .ok none

/-- What `strptime` makes of a directive; nothing where the text has something else. -/
def Directive.read (text : List Byte) (tm : Tm) :
    Directive → Except Fault (Option (Tm × List Byte))
  | .year => do
    return (← getNumber 0 9999 4 text).map fun r => ({ tm with year := r.1-1900 },r.2)
  | .mon => do return (← getNumber 1 12 2 text).map fun r => ({ tm with mon := r.1-1 },r.2)
  | .mday => do return (← getNumber 1 31 2 text).map fun r => ({ tm with mday := r.1 },r.2)
  | .hour => do return (← getNumber 0 23 2 text).map fun r => ({ tm with hour := r.1 },r.2)
  | .min => do return (← getNumber 0 59 2 text).map fun r => ({ tm with min := r.1 },r.2)
  | .sec => do return (← getNumber 0 61 2 text).map fun r => ({ tm with sec := r.1 },r.2)
  | .zone => do return (← getZone text).map fun r => ({ tm with gmtoff := r.1 },r.2)
  | .char c =>
    match text with
    | [] => .error .read
    | b::rest => .ok (if b=c then some (tm,rest) else none)

/-- `strptime`: the fields that it has set, and the text behind what it has read if that is all. -/
def strptime : List Directive → List Byte → Tm → Except Fault (Tm × Option (List Byte))
  | [], text, tm => .ok (tm,some text)
  | d::ds, text, tm => do
    match ← d.read text tm with
    | some (tm,text) => strptime ds text tm
    | none => return (tm,none)

def OnlyReads {α : Type} (x : Except Fault α) : Prop := ∀ e,x = .error e → e = .read

section OnlyReads

variable {α β : Type} {x : Except Fault α} {f : α → Except Fault β}

theorem onlyReads_ok (a : α) : OnlyReads (.ok a : Except Fault α) := fun _ h => nomatch h

theorem onlyReads_read : OnlyReads (.error .read : Except Fault α) := by
  intro e h
  cases h
  rfl

theorem OnlyReads.bind (hx : OnlyReads x) (hf : ∀ a,OnlyReads (f a)) : OnlyReads (x >>= f) := by
  cases x with
  | ok a => exact hf a
  | error e => exact fun e' h => hx e' (by cases h; rfl)

theorem onlyReads_moreDigits (high n v : Nat) (text : List Byte) :
    OnlyReads (moreDigits high n v text) := by
  induction n generalizing v text with
  | zero => exact onlyReads_ok _
  | succ n ih =>
    unfold moreDigits
    split
    · cases text with
      | nil => exact onlyReads_read
      | cons b rest =>
        simp only
        split
        · exact ih _ _
        · exact onlyReads_ok _
    · exact onlyReads_ok _

theorem onlyReads_getNumber (low high n : Nat) (text : List Byte) :
    OnlyReads (getNumber low high n text) := by
  unfold getNumber
  split
  · exact onlyReads_read
  · split
    · exact (onlyReads_moreDigits _ _ _ _).bind fun _ => onlyReads_ok _
    · exact onlyReads_ok _

theorem onlyReads_zoneDigits (k v n : Nat) (text : List Byte) :
    OnlyReads (zoneDigits k v n text) := by
  induction k generalizing v n text with
  | zero => exact onlyReads_ok _
  | succ k ih =>
    match text with
    | [] => exact onlyReads_read
    | [b] =>
      rw [zoneDigits]
      split
      · exact onlyReads_read
      · exact onlyReads_ok _
    | [b,c] =>
      rw [zoneDigits]
      split
      · split
        · exact onlyReads_read
        · exact ih _ _ _
      · exact onlyReads_ok _
    | b::c::d::rest =>
      rw [zoneDigits]
      split
      · split
        · split
          · exact ih _ _ _
          · exact ih _ _ _
        · exact ih _ _ _
      · exact onlyReads_ok _

theorem onlyReads_getZone (text : List Byte) : OnlyReads (getZone text) := by
  unfold getZone
  split
  · exact onlyReads_read
  · split
    · exact onlyReads_ok _
    · split
      · exact (onlyReads_zoneDigits _ _ _ _).bind fun _ => onlyReads_ok _
      · exact onlyReads_ok _

theorem onlyReads_read_directive (d : Directive) (text : List Byte) (tm : Tm) :
    OnlyReads (d.read text tm) := by
  have hnumber (low high n : Nat) (g : Nat × List Byte → Tm × List Byte) :
      OnlyReads (getNumber low high n text >>= fun r => pure (r.map g)) :=
    (onlyReads_getNumber low high n text).bind fun _ => onlyReads_ok _
  cases d with
  | year => exact hnumber 0 9999 4 _
  | mon => exact hnumber 1 12 2 _
  | mday => exact hnumber 1 31 2 _
  | hour => exact hnumber 0 23 2 _
  | min => exact hnumber 0 59 2 _
  | sec => exact hnumber 0 61 2 _
  | zone => exact (onlyReads_getZone text).bind fun _ => onlyReads_ok _
  | char c =>
    cases text with
    | nil => exact onlyReads_read
    | cons b rest => exact onlyReads_ok _

theorem onlyReads_strptime (ds : List Directive) (text : List Byte) (tm : Tm) :
    OnlyReads (strptime ds text tm) := by
  induction ds generalizing text tm with
  | nil => exact onlyReads_ok _
  | cons d ds ih =>
    rw [strptime]
    refine (onlyReads_read_directive d text tm).bind fun r => ?_
    cases r with
    | none => exact onlyReads_ok _
    | some r => exact ih r.2 r.1

end OnlyReads

section Digits

variable {w n low high : Nat} {rest : List Byte}

theorem length_zeroPadded (hw : 0<w) (h : n<10^w) : (zeroPadded w n).length=w := by
  have hlen : (decimal n).length≤w := by
    unfold decimal
    rw [length_map,Nat.length_toDigits_le_iff (by decide) hw]
    exact h
  unfold zeroPadded
  rw [length_append,length_replicate]
  omega

theorem isDigit_zeroPadded {b : Byte} (h : b∈zeroPadded w n) : isDigit b=true := by
  rcases mem_append.mp h with h | h
  · rw [eq_of_mem_replicate h]
    rfl
  · exact isDigit_decimal h

def digitsFrom (v : Nat) (l : List Byte) : Nat := l.foldl (fun v b => 10*v+(b.val-48)) v

theorem le_digitsFrom (v : Nat) (l : List Byte) : v≤digitsFrom v l := by
  induction l generalizing v with
  | nil => exact Nat.le_refl v
  | cons b l ih =>
    have hstep : v≤10*v+(b.val-48) := by omega
    exact hstep.trans (ih _)

theorem digitsFrom_zeroPadded (w n : Nat) : digitsFrom 0 (zeroPadded w n)=n := by
  have hzeros (k : Nat) : digitsFrom 0 (List.replicate k (48 : Byte))=0 := by
    induction k with
    | zero => rfl
    | succ k ih => exact ih
  have hdecimal : digitsFrom 0 (decimal n)=n := by
    have hvalue : digitsValue (decimal n++[])=n := digitsValue_decimal n rfl
    unfold digitsValue at hvalue
    rw [append_nil,takeWhile_eq_self_iff.mpr fun _ => isDigit_decimal] at hvalue
    exact hvalue
  unfold zeroPadded digitsFrom
  rw [foldl_append]
  exact (congrArg (fun v => digitsFrom v (decimal n)) (hzeros _)).trans hdecimal

theorem moreDigits_digits {l : List Byte} (hl : ∀ b∈l,isDigit b=true) {v : Nat}
    (h : digitsFrom v l≤high) :
    moreDigits high l.length v (l++rest) = .ok (digitsFrom v l,rest) := by
  induction l generalizing v with
  | nil => rfl
  | cons b l ih =>
    have hle:=le_digitsFrom (10*v+(b.val-48)) l
    have hroom : 10*v≤high := by
      have hfrom : digitsFrom v (b::l)=digitsFrom (10*v+(b.val-48)) l := rfl
      omega
    rw [length_cons,cons_append,moreDigits,if_pos hroom]
    simp only [hl b (mem_cons_self ..),if_true]
    exact ih (fun c hc => hl c (mem_cons_of_mem b hc)) h

theorem getNumber_zeroPadded (hw : 0<w) (h : n<10^w) (hrange : low≤n ∧ n≤high) :
    getNumber low high w (zeroPadded w n++rest) = .ok (some (n,rest)) := by
  obtain ⟨b,l,hbl⟩ := exists_cons_of_length_pos (l := zeroPadded w n)
    (by rw [length_zeroPadded hw h]; exact hw)
  have hdigit : ∀ c∈b::l,isDigit c=true := fun c hc => isDigit_zeroPadded (hbl ▸ hc)
  have hb:=hdigit b (mem_cons_self ..)
  have hvalue : digitsFrom (b.val-48) l=n := by
    have hall:=digitsFrom_zeroPadded w n
    rw [hbl] at hall
    have hfirst : digitsFrom 0 (b::l)=digitsFrom (b.val-48) l := by
      show digitsFrom (10*0+(b.val-48)) l=_
      rw [Nat.mul_zero,Nat.zero_add]
    exact hfirst ▸ hall
  have hlen : w-1=l.length := by
    have hall:=length_zeroPadded hw h
    rw [hbl,length_cons] at hall
    omega
  have hroom : digitsFrom (b.val-48) l≤high := hvalue ▸ hrange.2
  have hmore : moreDigits high l.length (b.val-48) (l++rest) =
      .ok (digitsFrom (b.val-48) l,rest) :=
    moreDigits_digits (fun c hc => hdigit c (mem_cons_of_mem b hc)) hroom
  unfold getNumber
  rw [hbl,cons_append,dropWhile_cons_of_neg (by rw [isSpace_of_isDigit hb]; decide)]
  simp only [hb,if_true]
  rw [hlen,hmore,hvalue,ok_bind]
  show Except.ok (if low≤n ∧ n≤high then _ else _)=_
  rw [if_pos hrange]

theorem zeroPadded_eq_decimal (hw : 1<w) (h : 10^(w-1)≤n) : zeroPadded w n=decimal n := by
  have hlen : ¬ (decimal n).length≤w-1 := by
    unfold decimal
    rw [length_map,Nat.length_toDigits_le_iff (by decide) (by omega)]
    exact Nat.not_lt.mpr h
  have hzero : w-(decimal n).length=0 := by omega
  unfold zeroPadded
  rw [hzero,replicate_zero,nil_append]

end Digits

def Directive.copy (tm tm' : Tm) : Directive → Tm
  | .year => { tm' with year := tm.year }
  | .mon => { tm' with mon := tm.mon }
  | .mday => { tm' with mday := tm.mday }
  | .hour => { tm' with hour := tm.hour }
  | .min => { tm' with min := tm.min }
  | .sec => { tm' with sec := tm.sec }
  | .zone => { tm' with gmtoff := tm.gmtoff }
  | .char _ => tm'

def Directive.IsZone : Directive → Prop
  | .zone => True
  | _ => False

def Tm.FourDigits (tm : Tm) : Prop := 1000≤tm.year+1900 ∧ tm.year+1900≤9999

theorem read_write {tm : Tm} (h : tm.Valid) (hyear : tm.FourDigits) (tm' : Tm) (rest : List Byte)
    {d : Directive} (hd : ¬ d.IsZone) :
    d.read (d.write tm++rest) tm' = .ok (some (d.copy tm tm',rest)) := by
  cases d with
  | year =>
    obtain ⟨hlow,hhigh⟩ := hyear
    have hpad : decimal (tm.year+1900).toNat=zeroPadded 4 (tm.year+1900).toNat :=
      (zeroPadded_eq_decimal (by decide) (by omega)).symm
    have hback : ((tm.year+1900).toNat : Int)-1900=tm.year := by omega
    unfold Directive.read Directive.write
    simp only [hpad]
    rw [getNumber_zeroPadded (by decide) (by omega) (by omega)]
    show Except.ok (some ({ tm' with year := ((tm.year+1900).toNat : Int)-1900 },rest))=_
    rw [hback]
    rfl
  | mon =>
    have hmon:=h.mon
    unfold Directive.read Directive.write
    simp only
    rw [getNumber_zeroPadded (by decide) (by omega) (by omega)]
    rfl
  | mday =>
    obtain ⟨hlow,hhigh⟩ := h.mday
    unfold Directive.read Directive.write
    simp only
    rw [getNumber_zeroPadded (by decide) (by omega) (by omega)]
    rfl
  | hour =>
    have hhour:=h.hour
    unfold Directive.read Directive.write
    simp only
    rw [getNumber_zeroPadded (by decide) (by omega) (by omega)]
    rfl
  | min =>
    have hmin:=h.min
    unfold Directive.read Directive.write
    simp only
    rw [getNumber_zeroPadded (by decide) (by omega) (by omega)]
    rfl
  | sec =>
    have hsec:=h.sec
    unfold Directive.read Directive.write
    simp only
    rw [getNumber_zeroPadded (by decide) (by omega) (by omega)]
    rfl
  | zone => exact absurd trivial hd
  | char c => exact congrArg Except.ok (if_pos rfl)

theorem strptime_strftime {tm : Tm} (h : tm.Valid) (hyear : tm.FourDigits) (rest : List Byte)
    {ds : List Directive} (hds : ∀ d∈ds,¬ d.IsZone) (tm' : Tm) :
    strptime ds (strftime ds tm++rest) tm' =
      .ok (ds.foldl (fun t d => d.copy tm t) tm',some rest) := by
  induction ds generalizing tm' with
  | nil => rfl
  | cons d ds ih =>
    have hd:=read_write h hyear tm' (strftime ds tm++rest) (hds d (mem_cons_self ..))
    have htext : strftime (d::ds) tm++rest=d.write tm++(strftime ds tm++rest) :=
      append_assoc ..
    rw [strptime,htext,hd,ok_bind]
    exact ih (fun e he => hds e (mem_cons_of_mem d he)) (d.copy tm tm')

end OgsDp.Core
