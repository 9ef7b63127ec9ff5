import OgsDp.Core.Octets
import OgsDp.Gtp.Util

/-!
# The reads of the header parser (lib/gtp/util.c)

`ogs_gtpu_parse_header` once more, with the packet it may read.
-/

namespace OgsDp.Gtp
open OgsDp.Core Lib

def numOfExtensionHeader : Nat := 8

/-- `*(data + len - 1)`; before the packet there is nothing to read. -/
def octetBefore (d : List Byte) : Nat → Except Fault Byte
  | 0 => .error .read
  | len+1 => octetAt d len

/-- The loop over the extension headers: what it returns, if the given turns are enough. `i` of
them were copied. -/
def walkExtensions (desc : Bool) (d : List Byte) : Nat → Nat → Nat → HeaderDesc →
    Option (Except Fault (Option (Nat × HeaderDesc)))
  | 0, _, _, _ => none
  | turns+1, len, i, h =>
    match octetBefore d len with
    | .error f => some (.error f)
    | .ok type =>
      if type=0 ∨ numOfExtensionHeader ≤ i then
        some (.ok (if numOfExtensionHeader ≤ i ∨ d.length<len then none else some (len,h)))
      else
        match octetAt d len with
        | .error f => some (.error f)
        | .ok n =>
          let len':=(len+n.val*4) % 65536
          if n=0 ∨ 4<n.val*4 ∨ d.length<len' then some (.ok none)
          else if desc then
            match octetsAt d (len-1) (n.val*4) with
            | .error f => some (.error f)
            | .ok ext => walkExtensions desc d turns len' (i+1) (h.extend ext)
          else walkExtensions desc d turns len' i h

def startDesc (desc : Bool) (d : List Byte) : Except Fault HeaderDesc :=
  if desc then do
    let flags ← octetAt d 0
    let type ← octetAt d 1
    let teid ← octetsAt d 4 4
    .ok ⟨type,flags,BitVec.ofNat 32 (netValue teid),0,0,none,none⟩
  else .ok ⟨0,0,0,0,0,none,none⟩

def walkHeader (desc : Bool) (d : List Byte) (turns : Nat) :
    Option (Except Fault (Option (Nat × HeaderDesc))) :=
  match startDesc desc d with
  | .error f => some (.error f)
  | .ok h =>
    if d.length<8 then some (.ok none)
    else
      match octetAt d 0 with
      | .error f => some (.error f)
      | .ok flags =>
        if flags.val.testBit 2 then
          if d.length<12 then some (.ok none) else walkExtensions desc d turns 12 0 h
        else
          let len := if flags.val.testBit 1 || flags.val.testBit 0 then 12 else 8
          some (.ok (if d.length<len then none else some (len,h)))

def Ends (x : Nat → Option (Except Fault (Option (Nat × HeaderDesc)))) (d : List Byte) : Prop :=
  ∃ turns r,x turns=some (.ok r) ∧ ∀ len h,r=some (len,h) → len≤d.length

def chainPos (k : Nat) : Nat := 12+4*k

def Announced (d : List Byte) (k : Nat) : Prop := octet d (chainPos k-1)≠0

/-- Extension headers of one unit each lie in the packet, `k` of them. -/
structure Chain (d : List Byte) (k : Nat) : Prop where
  fits : chainPos k≤d.length
  announced : ∀ j<k,Announced d j
  unit : ∀ j<k,octet d (chainPos j)=1

/-- The packet ends where the chain announces one more header. -/
structure CutOff (d : List Byte) (k : Nat) : Prop where
  chain : Chain d k
  announced : Announced d k
  ends : d.length=chainPos k

def wrapTurns : Nat := 16381

/-- The chain goes on until the length of the header wraps. -/
structure Wraps (d : List Byte) : Prop where
  fits : 65532<d.length
  announced : ∀ j<wrapTurns,Announced d j
  unit : ∀ j<wrapTurns,octet d (chainPos j)=1

def turnLimit (desc : Bool) : Nat := if desc then numOfExtensionHeader else wrapTurns

variable {d : List Byte} {desc : Bool} {turns len i k n : Nat} {h : HeaderDesc}
  {x y : Nat → Option (Except Fault (Option (Nat × HeaderDesc)))}

theorem not_ends_of_error {f : Fault} (hzero : x 0=none)
    (hturn : ∀ turns,x (turns+1)=some (.error f)) : ¬ Ends x d := by
  rintro ⟨turns,r,hx,-⟩
  cases turns with
  | zero => rw [hzero] at hx; cases hx
  | succ turns => rw [hturn] at hx; cases hx

theorem ends_next (hzero : x 0=none) (hturn : ∀ turns,x (turns+1)=y turns) :
    Ends x d ↔ Ends y d := by
  constructor
  · rintro ⟨turns,r,hx,hr⟩
    cases turns with
    | zero => rw [hzero] at hx; cases hx
    | succ turns => exact ⟨turns,r,(hturn turns).symm.trans hx,hr⟩
  · rintro ⟨turns,r,hy,hr⟩
    exact ⟨turns+1,r,(hturn turns).trans hy,hr⟩

theorem octetBefore_of_le (hpos : 0<len) (hle : len≤d.length) :
    octetBefore d len = .ok (octet d (len-1)) := by
  obtain ⟨l,rfl⟩ : ∃ l,len=l+1 := ⟨len-1,by omega⟩
  exact octetAt_of_lt (by omega)

theorem walk_stop (hpos : 0<len) (hle : len≤d.length)
    (hstop : octet d (len-1)=0 ∨ numOfExtensionHeader ≤ i) :
    walkExtensions desc d (turns+1) len i h =
      some (.ok (if numOfExtensionHeader ≤ i then none else some (len,h))) := by
  unfold walkExtensions
  simp only [octetBefore_of_le hpos hle,if_pos hstop]
  by_cases hi : numOfExtensionHeader ≤ i
  · rw [if_pos (.inl hi),if_pos hi]
  · rw [if_neg hi,if_neg (not_or.mpr ⟨hi,by omega⟩)]

theorem walk_go (hpos : 0<len) (hle : len≤d.length)
    (hgo : ¬ (octet d (len-1)=0 ∨ numOfExtensionHeader ≤ i)) :
    walkExtensions desc d (turns+1) len i h =
      match octetAt d len with
      | .error f => some (.error f)
      | .ok n =>
        let len':=(len+n.val*4) % 65536
        if n=0 ∨ 4<n.val*4 ∨ d.length<len' then some (.ok none)
        else if desc then
          match octetsAt d (len-1) (n.val*4) with
          | .error f => some (.error f)
          | .ok ext => walkExtensions desc d turns len' (i+1) (h.extend ext)
        else walkExtensions desc d turns len' i h := by
  rw [walkExtensions]
  simp only [octetBefore_of_le hpos hle,if_neg hgo]

theorem walk_cut (hpos : 0<len) (hle : len=d.length)
    (hgo : ¬ (octet d (len-1)=0 ∨ numOfExtensionHeader ≤ i)) :
    walkExtensions desc d (turns+1) len i h=some (.error .read) := by
  rw [walk_go hpos (Nat.le_of_eq hle) hgo,octetAt_of_le (Nat.le_of_eq hle.symm)]

theorem walk_reject (hpos : 0<len) (hlt : len<d.length)
    (hgo : ¬ (octet d (len-1)=0 ∨ numOfExtensionHeader ≤ i))
    (hbad : octet d len=0 ∨ 4<(octet d len).val*4 ∨
      d.length<(len+(octet d len).val*4) % 65536) :
    walkExtensions desc d (turns+1) len i h=some (.ok none) := by
  have hn : octetAt d len = .ok (octet d len) := octetAt_of_lt hlt
  rw [walk_go hpos (Nat.le_of_lt hlt) hgo,hn]
  exact if_pos hbad

theorem walk_next (hpos : 0<len) (hlt : len<d.length)
    (hgo : ¬ (octet d (len-1)=0 ∨ numOfExtensionHeader ≤ i)) (hunit : octet d len=1)
    (hlong : (len+4) % 65536≤d.length) (hdesc : desc=true → len+3≤d.length) :
    walkExtensions desc d (turns+1) len i h =
      walkExtensions desc d turns ((len+4) % 65536) (if desc then i+1 else i)
        (if desc then h.extend ((d.drop (len-1)).take 4) else h) := by
  have hn : octetAt d len = .ok 1 := hunit ▸ octetAt_of_lt hlt
  have hgood : ¬ ((1 : Byte)=0 ∨ 4<(1 : Byte).val*4 ∨
      d.length<(len+(1 : Byte).val*4) % 65536) := by
    rintro (h0 | h4 | hshort)
    · exact absurd h0 (by decide)
    · exact absurd h4 (by decide)
    · exact absurd hlong (Nat.not_le.mpr hshort)
  rw [walk_go hpos (Nat.le_of_lt hlt) hgo,hn]
  simp only [if_neg hgood]
  cases desc with
  | false => rfl
  | true =>
    have hread : octetsAt d (len-1) ((1 : Byte).val*4) = .ok ((d.drop (len-1)).take 4) :=
      octetsAt_of_le (by have hthree:=hdesc rfl; show len-1+4≤d.length; omega)
    simp only [hread,if_true]
    rfl

/-- What the loop needs from its `k`th turn on. -/
structure Walkable (desc : Bool) (d : List Byte) (k : Nat) : Prop where
  whole : ∀ j,k≤j → j<turnLimit desc → ¬ CutOff d j
  bounded : desc=false → ¬ Wraps d

theorem Chain.succ (hc : Chain d k) (ha : Announced d k) (hunit : octet d (chainPos k)=1)
    (hlong : chainPos (k+1)≤d.length) : Chain d (k+1) where
  fits := hlong
  announced j hj := by
    rcases Nat.lt_succ_iff_lt_or_eq.mp hj with hj | rfl
    · exact hc.announced j hj
    · exact ha
  unit j hj := by
    rcases Nat.lt_succ_iff_lt_or_eq.mp hj with hj | rfl
    · exact hc.unit j hj
    · exact hunit

theorem walkable_of_stop (hk : k<turnLimit desc) (hcut : ¬ CutOff d k)
    (hstop : ¬ (Announced d k ∧ octet d (chainPos k)=1)) : Walkable desc d k where
  whole j hj hlim hcutoff := by
    rcases Nat.lt_or_eq_of_le hj with hj | rfl
    · exact hstop ⟨hcutoff.chain.announced k hj,hcutoff.chain.unit k hj⟩
    · exact hcut hcutoff
  bounded hdesc hwraps := by
    subst hdesc
    exact hstop ⟨hwraps.announced k hk,hwraps.unit k hk⟩

theorem walkable_of_short (hk : desc=false → k+1<turnLimit desc) (hcut : ¬ CutOff d k)
    (hshort : d.length<chainPos (k+1)) : Walkable desc d k where
  whole j hj hlim hcutoff := by
    rcases Nat.lt_or_eq_of_le hj with hj | rfl
    · have hfits:=hcutoff.chain.fits
      unfold chainPos at hshort hfits
      omega
    · exact hcut hcutoff
  bounded hdesc hwraps := by
    have hnext:=hk hdesc
    subst hdesc
    have hfits:=hwraps.fits
    have hlim : turnLimit false=16381 := rfl
    unfold chainPos at hshort
    omega

theorem walkable_succ (hcut : ¬ CutOff d k) :
    Walkable desc d k ↔ Walkable desc d (k+1) := by
  constructor
  · exact fun hw => ⟨fun j hj => hw.whole j (by omega),hw.bounded⟩
  · refine fun hw => ⟨fun j hj hlim => ?_,hw.bounded⟩
    rcases Nat.lt_or_eq_of_le hj with hj | rfl
    · exact hw.whole j hj hlim
    · exact hcut

theorem wraps_of_chain (hc : Chain d k) (ha : Announced d k) (hunit : octet d (chainPos k)=1)
    (hk : k+1=wrapTurns) (hlt : chainPos k<d.length) : Wraps d where
  fits := by
    have hlast : wrapTurns=16381 := rfl
    unfold chainPos at hlt
    omega
  announced j hj := by
    rcases Nat.lt_succ_iff_lt_or_eq.mp (hk ▸ hj) with hj | rfl
    · exact hc.announced j hj
    · exact ha
  unit j hj := by
    rcases Nat.lt_succ_iff_lt_or_eq.mp (hk ▸ hj) with hj | rfl
    · exact hc.unit j hj
    · exact hunit

theorem walkExtensions_ends (hc : Chain d k) (hk : k+n=turnLimit desc)
    (hlast : desc=false → 0<n) :
    Ends (fun turns => walkExtensions desc d turns (chainPos k) (if desc then k else 0) h) d ↔
      Walkable desc d k := by
  have hpos : 0<chainPos k := by unfold chainPos; omega
  induction n generalizing k h with
  | zero =>
    cases desc with
    | false => exact absurd (hlast rfl) (Nat.lt_irrefl 0)
    | true =>
      have height : numOfExtensionHeader≤k := Nat.le_of_eq hk.symm
      refine iff_of_true ⟨1,none,?_,fun _ _ hr => nomatch hr⟩ ⟨fun j hj hlim => ?_,nofun⟩
      · exact (walk_stop hpos hc.fits (.inr height)).trans (by rw [if_pos height])
      · exact absurd hlim (by rw [← hk]; omega)
  | succ n ih =>
    have hlim : k<turnLimit desc := by omega
    have hroom : ¬ numOfExtensionHeader ≤ if desc then k else 0 := by
      cases desc with
      | false => exact (by decide : ¬ 8≤0)
      | true => exact Nat.not_le.mpr hlim
    by_cases ha : Announced d k
    · have hgo : ¬ (octet d (chainPos k-1)=0 ∨
          numOfExtensionHeader ≤ if desc then k else 0) := not_or.mpr ⟨ha,hroom⟩
      rcases Nat.lt_or_eq_of_le hc.fits with hlt | heq
      · have hcut : ¬ CutOff d k := fun hcutoff => by
          have hends:=hcutoff.ends
          omega
        by_cases hunit : octet d (chainPos k)=1
        · by_cases hwrap : desc=false ∧ n=0
          · obtain ⟨rfl,rfl⟩ := hwrap
            have hlast' : k+1=wrapTurns := hk
            have hpos' : (chainPos k+4) % 65536=0 := by
              have hk' : k=16380 := Nat.succ.inj hlast'
              rw [hk']
              rfl
            refine iff_of_false ?_ fun hw => hw.bounded rfl (wraps_of_chain hc ha hunit hlast' hlt)
            rw [ends_next rfl fun turns => walk_next hpos hlt hgo hunit (hpos' ▸ Nat.zero_le _)
              fun hdesc => absurd hdesc Bool.false_ne_true,hpos']
            exact not_ends_of_error rfl fun turns => rfl
          · have hnext : desc=false → k+1<turnLimit desc := fun hdesc => by
              have hn : n≠0 := fun hn => hwrap ⟨hdesc,hn⟩
              omega
            have hsmall : chainPos k+4<65536 := by
              cases desc with
              | false =>
                have hk' : k+1<16381 := hnext rfl
                unfold chainPos
                omega
              | true =>
                have hk' : k<8 := hlim
                unfold chainPos
                omega
            have hmod : (chainPos k+4) % 65536=chainPos (k+1) := Nat.mod_eq_of_lt hsmall
            by_cases hlong : chainPos (k+1)≤d.length
            · rw [ends_next rfl fun turns => walk_next hpos hlt hgo hunit (hmod ▸ hlong)
                fun _ => by unfold chainPos at hlong ⊢; omega,hmod,walkable_succ hcut]
              have hih:=ih (h := if desc then
                  h.extend ((d.drop (chainPos k-1)).take 4) else h)
                (hc.succ ha hunit hlong) (by omega) (fun hdesc => by have := hnext hdesc; omega)
                (by unfold chainPos; omega)
              cases desc <;> exact hih
            · refine iff_of_true ⟨1,none,walk_reject hpos hlt hgo (.inr (.inr ?_)),
                fun _ _ hr => nomatch hr⟩ (walkable_of_short hnext hcut (Nat.not_le.mp hlong))
              have hone : (chainPos k+(octet d (chainPos k)).val*4) % 65536 =
                  chainPos (k+1) := by rw [hunit]; exact hmod
              rw [hone]
              exact Nat.not_le.mp hlong
        · refine iff_of_true ⟨1,none,walk_reject hpos hlt hgo ?_,fun _ _ hr => nomatch hr⟩
            (walkable_of_stop hlim hcut fun hstop => hunit hstop.2)
          by_cases hnone : octet d (chainPos k)=0
          · exact .inl hnone
          · refine .inr (.inl ?_)
            have hv0 : (octet d (chainPos k)).val≠0 := fun hv => hnone (Fin.ext hv)
            have hv1 : (octet d (chainPos k)).val≠1 := fun hv => hunit (Fin.ext hv)
            omega
      · refine iff_of_false (not_ends_of_error rfl fun turns => walk_cut hpos heq hgo) fun hw => ?_
        exact hw.whole k (Nat.le_refl k) hlim ⟨hc,ha,heq.symm⟩
    · have hzero : octet d (chainPos k-1)=0 := not_not.mp ha
      refine iff_of_true ⟨1,_,walk_stop hpos hc.fits (.inl hzero),?_⟩
        (walkable_of_stop hlim (fun hcutoff => ha hcutoff.announced) fun hstop => ha hstop.1)
      intro len h' hr
      rw [if_neg hroom] at hr
      obtain ⟨rfl,-⟩ := Prod.mk.inj (Option.some.inj hr)
      exact hc.fits

/-- With a descriptor the eight octets are read first of all. A packet with the E flag must not end
where its chain announces one more header, and without a descriptor the chain must not go on until
the length of the header wraps. -/
structure Readable (desc : Bool) (d : List Byte) : Prop where
  start : desc=true → 8≤d.length
  extensions : 12≤d.length → (octet d 0).val.testBit 2=true → Walkable desc d 0

theorem startDesc_eq (hlong : 8≤d.length) : startDesc true d =
    .ok ⟨octet d 1,octet d 0,BitVec.ofNat 32 (field d 4 4),0,0,none,none⟩ := by
  unfold startDesc
  rw [if_pos rfl,octetAt_of_lt (by omega),octetAt_of_lt (by omega),octetsAt_of_le (by omega)]
  rfl

theorem startDesc_of_le (desc : Bool) (hlong : 8≤d.length) : ∃ h,startDesc desc d = .ok h := by
  cases desc with
  | false => exact ⟨_,rfl⟩
  | true => exact ⟨_,startDesc_eq hlong⟩

theorem startDesc_of_lt (hshort : d.length<8) : startDesc true d = .error .read := by
  unfold startDesc
  rw [if_pos rfl,octetsAt_of_lt (show d.length<4+4 by omega)]
  by_cases h1 : 1<d.length
  · rw [octetAt_of_lt (by omega),octetAt_of_lt h1]
    rfl
  · rw [octetAt_of_le (i := 1) (by omega)]
    by_cases h0 : 0<d.length
    · rw [octetAt_of_lt h0]
      rfl
    · rw [octetAt_of_le (by omega)]
      rfl

theorem chain_zero (hlong : 12≤d.length) : Chain d 0 where
  fits := hlong
  announced _ hj := absurd hj (Nat.not_lt_zero _)
  unit _ hj := absurd hj (Nat.not_lt_zero _)

/-- The parser returns, reads inside the packet only and gives a length that the packet has, exactly
if the packet is readable. -/
theorem walkHeader_ends (desc : Bool) (d : List Byte) :
    Ends (walkHeader desc d) d ↔ Readable desc d := by
  by_cases hlong : 8≤d.length
  · obtain ⟨h,hstart⟩ := startDesc_of_le desc hlong
    have hflags : octetAt d 0 = .ok (octet d 0) := octetAt_of_lt (by omega)
    by_cases he : (octet d 0).val.testBit 2=true
    · by_cases hext : 12≤d.length
      · have hrun : walkHeader desc d =
            fun turns => walkExtensions desc d turns (chainPos 0) (if desc then 0 else 0) h := by
          funext turns
          unfold walkHeader
          simp only [hstart,if_neg (Nat.not_lt.mpr hlong),hflags,if_pos he,
            if_neg (Nat.not_lt.mpr hext),ite_self]
          rfl
        rw [hrun,walkExtensions_ends (n := turnLimit desc) (chain_zero hext) (Nat.zero_add _)
          fun hdesc => by rw [hdesc]; decide]
        exact ⟨fun hw => ⟨fun _ => hlong,fun _ _ => hw⟩,fun hr => hr.extensions hext he⟩
      · refine iff_of_true ⟨0,none,?_,fun _ _ hr => nomatch hr⟩
          ⟨fun _ => hlong,fun h12 => absurd h12 hext⟩
        unfold walkHeader
        simp only [hstart,if_neg (Nat.not_lt.mpr hlong),hflags,if_pos he,
          if_pos (Nat.not_le.mp hext)]
    · have hrun : ∃ len,walkHeader desc d 0 =
          some (.ok (if d.length<len then none else some (len,h))) := by
        unfold walkHeader
        simp only [hstart,if_neg (Nat.not_lt.mpr hlong),hflags,if_neg he]
        exact ⟨_,rfl⟩
      obtain ⟨l,hrun⟩ := hrun
      refine iff_of_true ⟨0,_,hrun,?_⟩ ⟨fun _ => hlong,fun _ h2 => absurd h2 he⟩
      intro len h' hr
      split at hr
      · cases hr
      · rename_i hle
        obtain ⟨rfl,-⟩ := Prod.mk.inj (Option.some.inj hr)
        exact Nat.not_lt.mp hle
  · have hshort : d.length<8 := Nat.not_le.mp hlong
    cases desc with
    | true =>
      refine iff_of_false ?_ fun hr => hlong (hr.start rfl)
      rintro ⟨turns,r,hx,-⟩
      unfold walkHeader at hx
      rw [startDesc_of_lt hshort] at hx
      cases hx
    | false =>
      refine iff_of_true ⟨0,none,?_,fun _ _ hr => nomatch hr⟩ ⟨nofun,fun h12 => by omega⟩
      unfold walkHeader startDesc
      simp only [Bool.false_eq_true,if_false,if_pos hshort]

theorem walkExtensions_of_some {r : Nat × HeaderDesc} (hi : i+k=numOfExtensionHeader)
    (hle : chainPos i≤d.length) (hr : extensions d k (chainPos i) h=some r) :
    ∃ turns,walkExtensions true d turns (chainPos i) i h=some (.ok (some r)) := by
  have height : numOfExtensionHeader=8 := rfl
  induction k generalizing i h with
  | zero => cases hr
  | succ k ih =>
    have hpos : 0<chainPos i := by unfold chainPos; omega
    have hroom : ¬ numOfExtensionHeader ≤ i := by omega
    unfold extensions at hr
    split at hr
    · rename_i hzero
      refine ⟨1,?_⟩
      rw [walk_stop hpos hle (.inl hzero),if_neg hroom,hr]
    · rename_i hzero
      have hgo : ¬ (octet d (chainPos i-1)=0 ∨ numOfExtensionHeader ≤ i) :=
        not_or.mpr ⟨hzero,hroom⟩
      simp only at hr
      split at hr
      · cases hr
      · rename_i hgood
        have hval : (octet d (chainPos i)).val=1 := by omega
        have hnext : (chainPos i+4) % 65536=chainPos (i+1) :=
          Nat.mod_eq_of_lt (by unfold chainPos; omega)
        rw [hval] at hr
        obtain ⟨turns,hrun⟩ := ih (i := i+1) (by omega)
          (by unfold chainPos at hgood ⊢; omega) hr
        refine ⟨turns+1,?_⟩
        rw [walk_next hpos (by omega) hgo (Fin.ext hval) (by omega) (by omega),hnext]
        exact hrun

theorem walkHeader_of_some {r : Nat × HeaderDesc} (hr : gtpuParseHeader d=some r) :
    ∃ turns,walkHeader true d turns=some (.ok (some r)) := by
  obtain ⟨len,h⟩ := r
  obtain ⟨hlong,-,-,-⟩ := gtpuParseHeader_start hr
  have hflags : octetAt d 0 = .ok (octet d 0) := octetAt_of_lt (by omega)
  unfold gtpuParseHeader at hr
  unfold walkHeader
  simp only [startDesc_eq hlong,if_neg (Nat.not_lt.mpr hlong),hflags] at hr ⊢
  by_cases he : (octet d 0).val.testBit 2=true
  · simp only [if_pos he] at hr ⊢
    by_cases hext : d.length<12
    · rw [if_pos hext] at hr
      cases hr
    · simp only [if_neg hext] at hr ⊢
      exact walkExtensions_of_some (i := 0) (k := 8) rfl (Nat.not_lt.mp hext) hr
  · simp only [if_neg he] at hr ⊢
    refine ⟨0,?_⟩
    split at hr
    · rename_i hopt
      split at hr
      · cases hr
      · rename_i hlen
        rw [if_pos hopt,if_neg hlen,hr]
    · rename_i hopt
      rw [if_neg hopt,if_neg (Nat.not_lt.mpr hlong),hr]

/-- A packet of one octet with a descriptor, and one of twelve that ends where the PDU session
container should begin. -/
theorem read_beyond :
    ¬ Ends (walkHeader true [48]) [48] ∧
      ¬ Ends (walkHeader false [52,255,0,4,0,0,0,1,0,0,0,133])
        [52,255,0,4,0,0,0,1,0,0,0,133] := by
  refine ⟨?_,not_ends_of_error rfl fun turns => rfl⟩
  rintro ⟨turns,r,hx,-⟩
  have hread : walkHeader true [48] turns=some (.error .read) := rfl
  rw [hread] at hx
  cases hx

end OgsDp.Gtp
