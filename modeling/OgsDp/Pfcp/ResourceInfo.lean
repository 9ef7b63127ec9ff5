import OgsDp.Pfcp.QuantityReads
import OgsDp.Pfcp.UserPlane
import OgsDp.Proto.Fqdn

/-!
# User Plane IP Resource Information (lib/pfcp/types.c)

Every field is compared with what is left. The network instance is whatever is there in front of
the source interface, and no more than 100 octets of it are parsed.
-/

namespace OgsDp.Pfcp
open Lib OgsDp.Core Proto

/-- `ogs_user_plane_ip_resource_info_t`; of the network instance its text. -/
structure ResourceInfo where
  flags : Byte
  teidRange : Byte
  addr : Addr
  addr6 : Addr6
  networkInstance : List Byte
  sourceInterface : Byte
  deriving DecidableEq

namespace ResourceInfo

variable (info : ResourceInfo)

def v4 : Bool := info.flags.val.testBit 0
def v6 : Bool := info.flags.val.testBit 1
def teidri : Nat := info.flags.val / 4 % 8
def assoni : Bool := info.flags.val.testBit 5
def assosi : Bool := info.flags.val.testBit 6

def ofFlags (flags : Byte) : ResourceInfo :=
  ⟨flags,0,Vector.replicate 4 0,Vector.replicate 16 0,[],0⟩

def putTeidRange (b : List Byte) : ResourceInfo := { info with teidRange := b.headD 0 }

def putAddr (b : List Byte) : ResourceInfo :=
  { info with addr := Vector.ofFn fun i => b.getD i.val 0 }

def putAddr6 (b : List Byte) : ResourceInfo :=
  { info with addr6 := Vector.ofFn fun i => b.getD i.val 0 }

end ResourceInfo

-- A field that is compared with what is left: `none` is the early `return 0`.
def infoField (octets : List Byte) (present : ResourceInfo → Bool) (len : Nat)
    (put : ResourceInfo → List Byte → ResourceInfo) (r : ResourceInfo × Option Nat) :
    Except Fault (ResourceInfo × Option Nat) :=
  match r with
  | (info,none) => .ok (info,none)
  | (info,some size) =>
    if present info then
      if octets.length<size+len then .ok (info,none)
      else do
        let b ← octetsAt octets size len
        .ok (put info b,some (size+len))
    else .ok (info,some size)

def infoHead (octets : List Byte) : Except Fault (ResourceInfo × Option Nat) := do
  let flags ← octetAt octets 0
  let r ← infoField octets (fun info => decide (info.teidri≠0)) 1 ResourceInfo.putTeidRange
    (ResourceInfo.ofFlags flags,some 1)
  let r ← infoField octets ResourceInfo.v4 4 ResourceInfo.putAddr r
  infoField octets ResourceInfo.v6 16 ResourceInfo.putAddr6 r

def instanceText (r : Int × List Byte) : List Byte :=
  if r.1≤0 then [] else r.2.takeWhile fun b => b != 0

-- The network instance. `size` is an `int16_t`.
def infoName (octets : List Byte) (r : ResourceInfo × Option Nat) :
    Turns (ResourceInfo × Option (BitVec 16)) :=
  match r with
  | (info,none) => pure (info,none)
  | (info,some size) =>
    if info.assoni then
      let len:=octets.length-size
      if len=0 then pure (info,none)
      else
        let len := if info.assosi then len-1 else len
        if len=0 then pure (info,none)
        else do
          let name ← fqdnParseOf (octets.drop size) (min len maxDnnLen)
            (List.replicate (maxDnnLen+1) 0)
          pure ({ info with networkInstance := instanceText name },
            some (BitVec.ofNat 16 (size+len)))
    else pure (info,some (BitVec.ofNat 16 size))

-- The source interface. Compared is a `size_t`.
def infoInterface (octets : List Byte) (r : ResourceInfo × Option (BitVec 16)) :
    Except Fault (ResourceInfo × BitVec 16) :=
  match r with
  | (info,none) => .ok (info,0)
  | (info,some size) =>
    if info.assosi then
      if octets.length<(size.signExtend 64+1).toNat then .ok (info,0)
      else if size.msb then .error .read
      else do
        let b ← octetAt octets size.toNat
        .ok ({ info with sourceInterface := b },size+1)
    else .ok (info,size)

/-- `ogs_pfcp_parse_user_plane_ip_resource_info`, and what it returns. -/
def parseResourceInfo (octets : List Byte) : Turns (ResourceInfo × BitVec 16) := do
  let r ← Turns.of (infoHead octets)
  let r ← infoName octets r
  Turns.of (infoInterface octets r)

def pieceIf (b : Bool) (piece : List Byte) : List Byte := if b then piece else []

def instanceOctets (mem : Nat → Byte) (name : List Byte) : List Byte :=
  memRead (ogsFqdnBuild mem name).1 0 (ogsFqdnBuild mem name).2

/-- The octets that `ogs_pfcp_build_user_plane_ip_resource_info` writes. -/
def buildResourceInfo (mem : Nat → Byte) (info : ResourceInfo) : List Byte :=
  info.flags::(pieceIf (info.teidri≠0) [info.teidRange]++pieceIf info.v4 info.addr.toList ++
    pieceIf info.v6 info.addr6.toList ++
      pieceIf info.assoni (instanceOctets mem info.networkInstance) ++
        pieceIf info.assosi [info.sourceInterface])

def instanceAt (flags : Byte) : Nat :=
  1+(if flags.val / 4 % 8≠0 then 1 else 0)+(if flags.val.testBit 0 then 4 else 0) +
    if flags.val.testBit 1 then 16 else 0

/-- There are flags, and a network instance up to the end of the IE does not end in an octet 1
behind whole labels, unless it is longer than what is parsed of it. -/
structure InfoReadable (octets : List Byte) : Prop where
  some : octets≠[]
  inside : (octets.headD 0).val.testBit 5=true → (octets.headD 0).val.testBit 6=false →
    (octets.drop (instanceAt (octets.headD 0))).length ≤ maxDnnLen →
      ∀ ls,ls≠[] → Octet ls → octets.drop (instanceAt (octets.headD 0))≠wire ls++[1]

/-- The value of an IE, whose length is two octets. -/
structure IeValue where
  octets : List Byte
  short : octets.length<2^16

namespace ResourceInfo

variable (info : ResourceInfo)

def sent : ResourceInfo where
  flags := info.flags
  teidRange := if info.teidri≠0 then info.teidRange else 0
  addr := if info.v4 then info.addr else (ofFlags 0).addr
  addr6 := if info.v6 then info.addr6 else (ofFlags 0).addr6
  networkInstance := if info.assoni then info.networkInstance else []
  sourceInterface := if info.assosi then info.sourceInterface else 0

/-- The network instance fits the array, and if it is there it is a name of labels. -/
structure WellFormed : Prop where
  labels : info.assoni=true → ∃ ls,ls≠[] ∧
    (∀ l∈ls,l≠[] ∧ l.length≤63 ∧ dot∉l ∧ 0∉l) ∧ info.networkInstance=dotted ls
  fits : info.networkInstance.length ≤ maxDnnLen

end ResourceInfo

section Head

variable {octets : List Byte} {flags : Byte} {size : Nat} {r : ResourceInfo × Option Nat}

structure InfoUpTo (octets : List Byte) (flags : Byte) (size : Nat)
    (r : ResourceInfo × Option Nat) : Prop where
  flags : r.1.flags=flags
  size : r.2 = if size≤octets.length then some size else none

theorem infoField_upTo (present : ResourceInfo → Bool) (len : Nat)
    (put : ResourceInfo → List Byte → ResourceInfo) {b : Bool} (h : InfoUpTo octets flags size r)
    (hpresent : ∀ info : ResourceInfo, info.flags=flags → present info=b)
    (hput : ∀ info b,(put info b).flags=info.flags) :
    ∃ r',infoField octets present len put r = .ok r' ∧
      InfoUpTo octets flags (size + if b then len else 0) r' := by
  obtain ⟨info,o⟩ := r
  obtain ⟨rfl,hsize⟩ := h
  dsimp only at hsize
  by_cases hle : size≤octets.length
  · rw [if_pos hle] at hsize
    subst hsize
    have hb:=hpresent info rfl
    subst hb
    unfold infoField
    dsimp only
    cases hp : present info with
    | false =>
      exact ⟨_,rfl,rfl,(if_pos hle).symm⟩
    | true =>
      rw [if_pos rfl,if_pos rfl]
      by_cases hin : octets.length<size+len
      · rw [if_pos hin]
        exact ⟨_,rfl,rfl,(if_neg (Nat.not_le.mpr hin)).symm⟩
      · rw [if_neg hin,octetsAt_of_le (Nat.not_lt.mp hin)]
        exact ⟨_,rfl,hput info _,(if_pos (Nat.not_lt.mp hin)).symm⟩
  · rw [if_neg hle] at hsize
    subst hsize
    exact ⟨_,rfl,rfl,(if_neg fun h => hle (Nat.le_trans (Nat.le_add_right _ _) h)).symm⟩

theorem infoHead_upTo (l : List Byte) :
    ∃ r,infoHead (flags::l) = .ok r ∧ InfoUpTo (flags::l) flags (instanceAt flags) r := by
  have hstart : InfoUpTo (flags::l) flags 1 (ResourceInfo.ofFlags flags,some 1) :=
    ⟨rfl,(if_pos (Nat.succ_pos _)).symm⟩
  obtain ⟨r₁,h₁,hr₁⟩ := infoField_upTo (fun info => decide (info.teidri≠0)) 1
    ResourceInfo.putTeidRange (b := decide (flags.val / 4 % 8≠0)) hstart
    (fun info hinfo => by rw [← hinfo]; rfl) (fun _ _ => rfl)
  obtain ⟨r₂,h₂,hr₂⟩ := infoField_upTo ResourceInfo.v4 4 ResourceInfo.putAddr
    (b := flags.val.testBit 0) hr₁ (fun info hinfo => by rw [← hinfo]; rfl) (fun _ _ => rfl)
  obtain ⟨r₃,h₃,hr₃⟩ := infoField_upTo ResourceInfo.v6 16 ResourceInfo.putAddr6
    (b := flags.val.testBit 1) hr₂ (fun info hinfo => by rw [← hinfo]; rfl) (fun _ _ => rfl)
  have hat : instanceAt flags=1+(if decide (flags.val / 4 % 8≠0) then 1 else 0) +
      (if flags.val.testBit 0 then 4 else 0) + if flags.val.testBit 1 then 16 else 0 := by
    simp only [instanceAt,decide_eq_true_eq]
  rw [hat]
  refine ⟨r₃,?_,hr₃⟩
  unfold infoHead
  rw [octetAt_zero.mpr ⟨List.cons_ne_nil flags l,rfl⟩,ok_bind]
  exact bind_eq_ok.mpr ⟨r₁,h₁,bind_eq_ok.mpr ⟨r₂,h₂,h₃⟩⟩

end Head

section Name

variable {octets mem dst : List Byte} {flags : Byte} {size n : Nat} {r : ResourceInfo × Option Nat}

theorem fqdnParseOf_take (hn : n ≤ mem.length) (hdst : n≤dst.length) :
    (∃ r,(fqdnParseOf mem n dst).Returns r) ↔
      (mem.length≤n → ∀ ls,ls≠[] → Octet ls → mem≠wire ls++[1]) := by
  have hlen : (mem.take n).length=n := List.length_take_of_le hn
  have hreturns :
      (∃ r,(fqdnParseOf (mem.take n++mem.drop n) (mem.take n).length dst).Returns r) ↔
      _ := fqdnParseOf_returns (by omega)
  rw [List.take_append_drop,hlen,List.drop_eq_nil_iff] at hreturns
  rw [hreturns]
  constructor
  · intro h hle
    have := h hle
    rwa [List.take_of_length_le hle] at this
  · intro h hle
    rw [List.take_of_length_le hle]
    exact h hle

theorem infoName_returns (h : InfoUpTo octets flags size r) :
    (∃ r',(infoName octets r).Returns r') ↔
      (flags.val.testBit 5=true → flags.val.testBit 6=false →
        (octets.drop size).length ≤ maxDnnLen →
          ∀ ls,ls≠[] → Octet ls → octets.drop size≠wire ls++[1]) := by
  have hdrop : octets.length ≤ size → ∀ ls,octets.drop size≠wire ls++[1] := by
    intro hle ls hls
    rw [List.drop_eq_nil_iff.mpr hle] at hls
    exact List.append_ne_nil_of_right_ne_nil _ (List.cons_ne_nil 1 []) hls.symm
  obtain ⟨info,o⟩ := r
  obtain ⟨rfl,hsize⟩ := h
  dsimp only at hsize
  by_cases hle : size≤octets.length
  swap
  · rw [if_neg hle] at hsize
    subst hsize
    exact iff_of_true ⟨_,Turns.returns_pure.mpr rfl⟩
      fun _ _ _ ls _ _ => hdrop (Nat.le_of_not_le hle) ls
  rw [if_pos hle] at hsize
  subst hsize
  unfold infoName
  dsimp only
  cases hni : info.assoni with
  | false =>
    exact iff_of_true ⟨_,Turns.returns_pure.mpr rfl⟩ fun h => absurd (hni.symm.trans h) nofun
  | true =>
    rw [if_pos rfl]
    by_cases hnone : octets.length-size=0
    · rw [if_pos hnone]
      exact iff_of_true ⟨_,Turns.returns_pure.mpr rfl⟩ fun _ _ _ ls _ _ => hdrop (by omega) ls
    rw [if_neg hnone]
    have hroom : ∀ len,min len maxDnnLen≤(List.replicate (maxDnnLen+1) (0 : Byte)).length := by
      intro len
      rw [List.length_replicate]
      omega
    have hlen : (octets.drop size).length=octets.length-size := List.length_drop
    cases hsi : info.assosi with
    | false =>
      rw [if_neg Bool.false_ne_true,if_neg hnone]
      rw [Turns.exists_returns_bind_pure,fqdnParseOf_take (by omega) (hroom _),hlen]
      exact ⟨fun h _ _ hmax => h (by omega),fun h hmin => h hni hsi (by omega)⟩
    | true =>
      rw [if_pos rfl]
      refine iff_of_true ?_ fun _ h => absurd (hsi.symm.trans h) nofun
      split
      · exact ⟨_,Turns.returns_pure.mpr rfl⟩
      · rw [Turns.exists_returns_bind_pure,fqdnParseOf_take (by omega) (hroom _)]
        exact fun h => absurd h (by omega)

def instanceLen (octets : List Byte) (info : ResourceInfo) (size : Nat) : Nat :=
  octets.length-size - if info.assosi then 1 else 0

theorem infoName_of_returns {info : ResourceInfo} {r' : ResourceInfo × Option (BitVec 16)}
    (hr : (infoName octets (info,some size)).Returns r') :
    r'=(info,none) ∨ info.assoni=false ∧ r'=(info,some (BitVec.ofNat 16 size)) ∨
      info.assoni=true ∧ 0 < instanceLen octets info size ∧
        ∃ name,(fqdnParseOf (octets.drop size) (min (instanceLen octets info size) maxDnnLen)
            (List.replicate (maxDnnLen+1) 0)).Returns name ∧
          r'=({ info with networkInstance := instanceText name },
            some (BitVec.ofNat 16 (size+instanceLen octets info size))) := by
  unfold infoName at hr
  dsimp only at hr
  have hlen : (if info.assosi then octets.length-size-1 else octets.length-size) =
      instanceLen octets info size := by
    unfold instanceLen
    split <;> rfl
  rw [hlen] at hr
  split at hr
  · rename_i hni
    split at hr
    · exact .inl (Turns.returns_pure.mp hr).symm
    split at hr
    · exact .inl (Turns.returns_pure.mp hr).symm
    · rename_i hnone
      obtain ⟨name,hname,hr⟩ := Turns.returns_bind.mp hr
      exact .inr (.inr ⟨hni,Nat.pos_of_ne_zero hnone,name,hname,
        (Turns.returns_pure.mp hr).symm⟩)
  · rename_i hni
    exact .inr (.inl ⟨Bool.eq_false_iff.mpr hni,(Turns.returns_pure.mp hr).symm⟩)

theorem instanceAt_le (flags : Byte) : instanceAt flags≤22 := by
  unfold instanceAt
  split <;> split <;> split <;> omega

theorem infoName_size (h : InfoUpTo octets flags (instanceAt flags) r)
    (hshort : octets.length<2^16) {r' : ResourceInfo × Option (BitVec 16)}
    (hr : (infoName octets r).Returns r') {at' : BitVec 16} (hat' : r'.2=some at')
    (hassosi : r'.1.assosi=true) : at'.toNat<65535 := by
  have hat:=instanceAt_le flags
  obtain ⟨info,o⟩ := r
  obtain ⟨rfl,ho⟩ := h
  dsimp only at ho hat
  by_cases hle : instanceAt info.flags≤octets.length
  swap
  · rw [if_neg hle] at ho
    subst ho
    obtain rfl := Turns.returns_pure.mp hr
    cases hat'
  rw [if_pos hle] at ho
  subst ho
  rcases infoName_of_returns hr with rfl | ⟨-,rfl⟩ | ⟨-,hpos,name,-,rfl⟩
  · cases hat'
  · obtain rfl := Option.some.inj hat'
    rw [BitVec.toNat_ofNat]
    omega
  · obtain rfl := Option.some.inj hat'
    rw [BitVec.toNat_ofNat]
    have hsi : info.assosi=true := hassosi
    unfold instanceLen at hpos ⊢
    rw [hsi,if_pos rfl] at hpos ⊢
    omega

end Name

section Interface

variable {octets : List Byte} {info : ResourceInfo} {size : BitVec 16}

theorem toNat_signExtend_succ (size : BitVec 16) : (size.signExtend 64+1).toNat =
    (if size.msb then 2^64-2^16+size.toNat+1 else size.toNat+1) % 2^64 := by
  have hsize:=size.isLt
  have hone : (1 : BitVec 64).toNat=1 := rfl
  rw [BitVec.toNat_add,BitVec.toNat_signExtend,BitVec.toNat_setWidth,hone]
  cases size.msb with
  | true =>
    simp only [if_true]
    show _ % 2^64=_
    omega
  | false =>
    simp only [Bool.false_eq_true,if_false]
    show _ % 2^64=_
    omega

theorem infoInterface_ok (hshort : octets.length<2^16)
    (hsize : info.assosi=true → size.toNat<65535) :
    ∃ r,infoInterface octets (info,some size) = .ok r := by
  unfold infoInterface
  dsimp only
  by_cases hsi : info.assosi=true
  · rw [if_pos hsi]
    have hlt:=hsize hsi
    have hext:=toNat_signExtend_succ size
    by_cases hin : octets.length<(size.signExtend 64+1).toNat
    · exact ⟨_,if_pos hin⟩
    · rw [if_neg hin]
      rw [hext] at hin
      cases hmsb : size.msb with
      | true =>
        rw [hmsb,if_pos rfl] at hin
        omega
      | false =>
        rw [hmsb,if_neg Bool.false_ne_true] at hin
        rw [if_neg Bool.false_ne_true,octetAt_of_lt (by omega)]
        exact ⟨_,rfl⟩
  · exact ⟨_,if_neg hsi⟩

end Interface

theorem parseResourceInfo_returns (ie : IeValue) :
    (∃ r,(parseResourceInfo ie.octets).Returns r) ↔ InfoReadable ie.octets := by
  obtain ⟨octets,hshort⟩ := ie
  cases octets with
  | nil =>
    refine iff_of_false ?_ fun h => h.some rfl
    rintro ⟨r,hr⟩
    obtain ⟨r',hr',-⟩ := Turns.returns_bind.mp hr
    cases Turns.returns_of.mp hr'
  | cons flags l =>
    obtain ⟨r,hr,hupTo⟩ : ∃ r,infoHead (flags::l) = .ok r ∧ _ := infoHead_upTo l
    have hname : (∃ r,(parseResourceInfo (flags::l)).Returns r) ↔
        ∃ r',(infoName (flags::l) r).Returns r' := by
      constructor
      · rintro ⟨x,hx⟩
        obtain ⟨r₁,hr₁,hx⟩ := Turns.returns_bind.mp hx
        obtain rfl := Except.ok.inj (hr.symm.trans (Turns.returns_of.mp hr₁))
        obtain ⟨r',hr',-⟩ := Turns.returns_bind.mp hx
        exact ⟨r',hr'⟩
      · rintro ⟨⟨info,o⟩,hr'⟩
        obtain ⟨x,hx⟩ : ∃ x,infoInterface (flags::l) (info,o) = .ok x := by
          cases o with
          | none => exact ⟨_,rfl⟩
          | some size => exact infoInterface_ok hshort fun h => infoName_size hupTo hshort hr' rfl h
        exact ⟨x,Turns.returns_bind.mpr ⟨r,Turns.returns_of.mpr hr,
          Turns.returns_bind.mpr ⟨_,hr',Turns.returns_of.mpr hx⟩⟩⟩
    rw [hname,infoName_returns hupTo]
    exact ⟨fun h => ⟨List.cons_ne_nil _ _,h⟩,fun h => h.inside⟩

section Built

variable {octets piece after : List Byte} {info : ResourceInfo} {size len : Nat}

theorem length_pieceIf (b : Bool) (piece : List Byte) :
    (pieceIf b piece).length = if b then piece.length else 0 := by
  unfold pieceIf
  split <;> rfl

theorem infoField_piece (present : ResourceInfo → Bool)
    (put : ResourceInfo → List Byte → ResourceInfo) {b : Bool} (hp : present info=b)
    (hlen : piece.length=len) (hsize : size≤octets.length)
    (hat : octets.drop size=pieceIf b piece++after) :
    ∃ info',info'=(if b then put info piece else info) ∧
      infoField octets present len put (info,some size) =
        .ok (info',some (size + if b then len else 0)) ∧
      size+(if b then len else 0)≤octets.length ∧
        octets.drop (size + if b then len else 0)=after := by
  subst hp hlen
  unfold infoField
  dsimp only
  unfold pieceIf at hat
  cases hp : present info with
  | false =>
    rw [hp] at hat
    exact ⟨_,rfl,rfl,hsize,hat⟩
  | true =>
    simp only [hp,if_true] at hat ⊢
    have hleft : octets.length-size=piece.length+after.length := by
      rw [← List.length_drop,hat,List.length_append]
    have hin : size+piece.length≤octets.length := by omega
    rw [if_neg (Nat.not_lt.mpr hin),octetsAt_of_le hin,← List.drop_drop,hat,
      List.take_left' rfl,List.drop_left' rfl]
    exact ⟨_,rfl,rfl,hin,rfl⟩

def ResourceInfo.head (info : ResourceInfo) : ResourceInfo :=
  { info.sent with networkInstance := [],sourceInterface := 0 }

def instanceAndInterface (mem : Nat → Byte) (info : ResourceInfo) : List Byte :=
  pieceIf info.assoni (instanceOctets mem info.networkInstance) ++
    pieceIf info.assosi [info.sourceInterface]

theorem infoHead_build (mem : Nat → Byte) (info : ResourceInfo) :
    infoHead (buildResourceInfo mem info) = .ok (info.head,some (instanceAt info.flags)) ∧
      instanceAt info.flags≤(buildResourceInfo mem info).length ∧
        (buildResourceInfo mem info).drop (instanceAt info.flags) =
          instanceAndInterface mem info := by
  have hstart : (buildResourceInfo mem info).drop 1 =
      pieceIf (decide (info.teidri≠0)) [info.teidRange]++(pieceIf info.v4 info.addr.toList ++
        (pieceIf info.v6 info.addr6.toList++instanceAndInterface mem info)) := by
    unfold buildResourceInfo instanceAndInterface
    simp only [List.drop_succ_cons,List.drop_zero,List.append_assoc]
  obtain ⟨info₁,hinfo₁,h₁,hle₁,hat₁⟩ := infoField_piece (fun info => decide (info.teidri≠0))
    ResourceInfo.putTeidRange (b := decide (info.teidri≠0))
    (show decide ((ResourceInfo.ofFlags info.flags).teidri≠0)=_ from rfl)
    (rfl : [info.teidRange].length=1) (Nat.succ_pos _) hstart
  have hflags₁ : info₁.flags=info.flags := by
    rw [hinfo₁]
    split <;> rfl
  obtain ⟨info₂,hinfo₂,h₂,hle₂,hat₂⟩ := infoField_piece ResourceInfo.v4 ResourceInfo.putAddr
    (show info₁.v4=info.v4 from congrArg (fun f => f.val.testBit 0) hflags₁)
    info.addr.length_toList hle₁ hat₁
  have hflags₂ : info₂.flags=info.flags := by
    rw [hinfo₂,← hflags₁]
    split <;> rfl
  obtain ⟨info₃,hinfo₃,h₃,hle₃,hat₃⟩ := infoField_piece ResourceInfo.v6 ResourceInfo.putAddr6
    (show info₂.v6=info.v6 from congrArg (fun f => f.val.testBit 1) hflags₂)
    info.addr6.length_toList hle₂ hat₂
  have hsum : instanceAt info.flags=1+(if decide (info.teidri≠0) then 1 else 0) +
      (if info.v4 then 4 else 0) + if info.v6 then 16 else 0 := by
    simp only [instanceAt,decide_eq_true_eq]
    rfl
  rw [hsum]
  refine ⟨?_,hle₃,hat₃⟩
  have haddr : info₁.putAddr info.addr.toList = { info₁ with addr := info.addr } := by
    unfold ResourceInfo.putAddr
    congr 1
    ext i hi
    simp
  have haddr6 : info₂.putAddr6 info.addr6.toList = { info₂ with addr6 := info.addr6 } := by
    unfold ResourceInfo.putAddr6
    congr 1
    ext i hi
    simp
  have hhead : info₃=info.head := by
    rw [hinfo₃,haddr6,hinfo₂,haddr,hinfo₁]
    unfold ResourceInfo.head ResourceInfo.sent ResourceInfo.putTeidRange ResourceInfo.ofFlags
    by_cases ht : info.teidri≠0 <;> cases hv4 : info.v4 <;> cases hv6 : info.v6 <;>
      simp [ht]
  rw [← hhead]
  exact bind_eq_ok.mpr ⟨info.flags,octetAt_zero.mpr ⟨List.cons_ne_nil _ _,rfl⟩,
    bind_eq_ok.mpr ⟨_,h₁,bind_eq_ok.mpr ⟨_,h₂,h₃⟩⟩⟩

theorem infoName_of_instance (hni : info.assoni=true) (hpos : 0 < instanceLen octets info size)
    {name : Int × List Byte}
    (hname : (fqdnParseOf (octets.drop size) (min (instanceLen octets info size) maxDnnLen)
      (List.replicate (maxDnnLen+1) 0)).Returns name) :
    (infoName octets (info,some size)).Returns ({ info with networkInstance := instanceText name },
      some (BitVec.ofNat 16 (size+instanceLen octets info size))) := by
  have hlen : (if info.assosi then octets.length-size-1 else octets.length-size) =
      instanceLen octets info size := by
    unfold instanceLen
    split <;> rfl
  have hsome : octets.length-size≠0 := by
    unfold instanceLen at hpos
    omega
  unfold infoName
  dsimp only
  rw [hlen,if_pos hni,if_neg hsome,if_neg (Nat.pos_iff_ne_zero.mp hpos)]
  exact Turns.returns_bind.mpr ⟨name,hname,Turns.returns_pure.mpr rfl⟩

theorem instanceText_short {mem : List Byte} {n : Nat} (hn : n ≤ maxDnnLen)
    {name : Int × List Byte}
    (h : (fqdnParseOf mem n (List.replicate (maxDnnLen+1) 0)).Returns name) :
    (instanceText name).length < maxDnnLen := by
  have hzero : ZeroFrom n (List.replicate (maxDnnLen+1) 0) := by
    intro k _
    rw [List.getElem?_replicate]
    split <;> rfl
  have hend:=fqdnParseOf_zero hzero h (maxDnnLen-1) (by unfold maxDnnLen at *; omega)
  unfold instanceText
  split
  · exact Nat.succ_pos _
  · by_contra hlong
    have hlt : maxDnnLen-1<(name.2.takeWhile fun b => b != 0).length := by
      unfold maxDnnLen at *
      omega
    obtain ⟨rest,hrest⟩ := List.takeWhile_prefix (fun b : Byte => b != 0) (l := name.2)
    rw [← hrest,List.getElem?_append_left hlt,List.getElem?_eq_getElem hlt,
      Option.getD_some] at hend
    have hchar:=List.mem_takeWhile_imp (List.getElem_mem hlt)
    rw [hend] at hchar
    cases hchar

theorem infoName_built {ls : List (List Byte)} (hni : info.assoni=true) (hne : ls≠[])
    (hls : ∀ l∈ls,l≠[] ∧ l.length≤63 ∧ dot∉l ∧ 0∉l)
    (hat : octets.drop size=wire ls++after)
    (hafter : after.length = if info.assosi then 1 else 0)
    (hshort : (wire ls).length ≤ maxDnnLen) :
    (infoName octets (info,some size)).Returns ({ info with networkInstance := dotted ls },
      some (BitVec.ofNat 16 (size+(wire ls).length))) := by
  have hname : parsedName ls=dotted ls := parsedName_dotted fun l hl => (hls l hl).1
  have hlen : instanceLen octets info size=(wire ls).length := by
    unfold instanceLen
    rw [← List.length_drop,hat,List.length_append,hafter,Nat.add_sub_cancel]
  obtain ⟨dst',hbegins,hparse⟩ : ∃ dst',parsedName ls++[0] <+: dst' ∧
      (fqdnParseOf (wire ls++after) (wire ls).length (List.replicate (maxDnnLen+1) 0)).Returns
        ((parsedName ls).length,dst') :=
    fqdnParseOf_wire hne (fun l hl => by have := (hls l hl).2.1; omega)
      (by rw [List.length_replicate]; omega)
  have hreturns:=infoName_of_instance hni (hlen ▸ length_wire_pos hne)
    (show (fqdnParseOf (octets.drop size) _ _).Returns ((parsedName ls).length,dst') by
      rw [hlen,hat,Nat.min_eq_left hshort]; exact hparse)
  have htext : instanceText ((parsedName ls).length,dst')=dotted ls := by
    obtain ⟨rest,rfl⟩ := hbegins
    have hzero : (0 : Byte)∉parsedName ls := by
      rw [zero_mem_parsedName]
      rintro ⟨l,hl,hmem⟩
      exact (hls l hl).2.2.2 hmem
    have hsome : 0<(dotted ls).length := by
      obtain ⟨l,ls,rfl⟩ := List.exists_cons_of_ne_nil hne
      have hl:=List.length_pos_iff.mpr (hls l (List.mem_cons_self ..)).1
      cases ls with
      | nil => exact hl
      | cons l' ls =>
        rw [dotted,List.length_append]
        omega
    unfold instanceText
    rw [hname] at hzero ⊢
    rw [if_neg (by dsimp only; omega)]
    dsimp only
    rw [List.append_assoc,List.takeWhile_append_of_pos]
    · exact List.append_nil _
    · intro b hb
      exact bne_iff_ne.mpr fun h => hzero (h ▸ hb)
  rw [htext,hlen] at hreturns
  exact hreturns

theorem infoInterface_built {at' : BitVec 16} (hshort : octets.length<2^15)
    (hlen : octets.length = at'.toNat + if info.assosi then 1 else 0) {b : Byte}
    (hat : info.assosi=true → octets.drop at'.toNat=[b]) :
    infoInterface octets (info,some at') =
      .ok (if info.assosi then { info with sourceInterface := b } else info,
        BitVec.ofNat 16 octets.length) := by
  unfold infoInterface
  dsimp only
  cases hsi : info.assosi with
  | false =>
    rw [hsi,if_neg Bool.false_ne_true,Nat.add_zero] at hlen
    rw [if_neg Bool.false_ne_true,if_neg Bool.false_ne_true,hlen,BitVec.ofNat_toNat,
      BitVec.setWidth_eq]
  | true =>
    rw [hsi,if_pos rfl] at hlen
    have hmsb : at'.msb=false := by
      rw [BitVec.msb_eq_decide]
      exact decide_eq_false (by omega)
    have hext:=toNat_signExtend_succ at'
    rw [hmsb,if_neg Bool.false_ne_true] at hext
    rw [if_pos rfl,if_pos rfl,hext,if_neg (by omega),hmsb,if_neg Bool.false_ne_true,
      octetAt_drop (hat hsi),ok_bind,hlen]
    have hsize : at'+1=BitVec.ofNat 16 (at'.toNat+1) := by
      apply BitVec.eq_of_toNat_eq
      rw [BitVec.toNat_add,BitVec.toNat_ofNat]
      rfl
    rw [hsize]

theorem infoInterface_instance {r : ResourceInfo × Option (BitVec 16)}
    {x : ResourceInfo × BitVec 16}
    (h : infoInterface octets r = .ok x) : x.1.networkInstance=r.1.networkInstance := by
  obtain ⟨info,_ | size⟩ := r
  · obtain rfl := Except.ok.inj h
    rfl
  · unfold infoInterface at h
    dsimp only at h
    split at h
    · split at h
      · obtain rfl := Except.ok.inj h
        rfl
      · split at h
        · cases h
        · obtain ⟨b,-,h⟩ := bind_eq_ok.mp h
          obtain rfl := Except.ok.inj h
          rfl
    · obtain rfl := Except.ok.inj h
      rfl

theorem infoName_build (mem : Nat → Byte) (hinfo : info.WellFormed)
    (hshort : info.assoni=true → info.networkInstance.length < maxDnnLen) :
    ∃ info' n,
      (infoName (buildResourceInfo mem info) (info.head,some (instanceAt info.flags))).Returns
        (info',some (BitVec.ofNat 16 n)) ∧
      (if info.assosi then { info' with sourceInterface := info.sourceInterface } else info') =
        info.sent ∧
      n≤22+maxDnnLen ∧ n≤(buildResourceInfo mem info).length ∧
      (buildResourceInfo mem info).drop n=pieceIf info.assosi [info.sourceInterface] := by
  obtain ⟨-,hle,hat⟩ := infoHead_build mem info
  have hat22:=instanceAt_le info.flags
  unfold instanceAndInterface at hat
  cases hni : info.assoni with
  | false =>
    rw [hni] at hat
    refine ⟨info.head,instanceAt info.flags,?_,?_,by omega,hle,hat⟩
    · have hhead : info.head.assoni=false := hni
      unfold infoName
      dsimp only
      rw [if_neg (by rw [hhead]; exact Bool.false_ne_true)]
      exact Turns.returns_pure.mpr rfl
    · unfold ResourceInfo.head ResourceInfo.sent
      cases hsi : info.assosi <;> simp [hni]
  | true =>
    obtain ⟨ls,hne,hls,htext⟩ := hinfo.labels hni
    have hbuilt:=ogsFqdnBuild_wire hne (fun l hl => (hls l hl).2.2.1) mem
    have hlen : (wire ls).length=(dotted ls).length+1 := hbuilt.1
    have hoctets : instanceOctets mem info.networkInstance=wire ls := by
      rw [htext]
      exact hbuilt.2
    have hdotted:=hshort hni
    rw [htext] at hdotted
    rw [hni,hoctets] at hat
    have hname : (infoName _ (info.head,some (instanceAt info.flags))).Returns _ :=
      infoName_built hni hne hls hat (length_pieceIf _ _) (by omega)
    refine ⟨_,_,hname,?_,by omega,?_,?_⟩
    · unfold ResourceInfo.head ResourceInfo.sent
      cases hsi : info.assosi <;> simp [hni,htext]
    · have hdrop:=congrArg List.length hat
      rw [List.length_drop,List.length_append,pieceIf,if_pos rfl] at hdrop
      omega
    · rw [← List.drop_drop,hat]
      exact List.drop_left' rfl

theorem parseResourceInfo_built (mem : Nat → Byte) (hinfo : info.WellFormed) :
    (parseResourceInfo (buildResourceInfo mem info)).Returns
        (info.sent,BitVec.ofNat 16 (buildResourceInfo mem info).length) ↔
      (info.assoni=true → info.networkInstance.length < maxDnnLen) := by
  obtain ⟨hhead,hle,hat⟩ := infoHead_build mem info
  have hat22 : instanceAt info.flags≤22 := instanceAt_le info.flags
  constructor
  · intro hr hni
    obtain ⟨r₁,hr₁,hr⟩ := Turns.returns_bind.mp hr
    obtain rfl := Except.ok.inj (hhead.symm.trans (Turns.returns_of.mp hr₁))
    obtain ⟨r',hname,hr⟩ := Turns.returns_bind.mp hr
    have hkept:=infoInterface_instance (Turns.returns_of.mp hr)
    have hsent : info.sent.networkInstance=info.networkInstance := if_pos hni
    rw [← hsent,hkept]
    rcases infoName_of_returns hname with rfl | ⟨-,rfl⟩ | ⟨-,-,name,hparse,rfl⟩
    · exact Nat.succ_pos _
    · exact Nat.succ_pos _
    · exact instanceText_short (Nat.min_le_right _ _) hparse
  · intro hshort
    obtain ⟨info',n,hname,hinfo,hn,hsize,hrest⟩ :=
      infoName_build mem hinfo hshort
    have hlast : (pieceIf info.assosi [info.sourceInterface]).length =
        if info.assosi then 1 else 0 :=
      length_pieceIf _ _
    have hlength : (buildResourceInfo mem info).length-n = if info.assosi then 1 else 0 := by
      rw [← List.length_drop,hrest,hlast]
    have hone : (if info.assosi then 1 else 0)≤1 := by split <;> omega
    have hton : (BitVec.ofNat 16 n).toNat=n := by
      rw [BitVec.toNat_ofNat]
      unfold maxDnnLen at hn
      omega
    have hassosi : info'.assosi=info.assosi := by
      have hflags:=congrArg ResourceInfo.flags hinfo
      have hsame : info'.flags=info.flags := by
        split at hflags
        · exact hflags
        · exact hflags
      exact congrArg (fun f => f.val.testBit 6) hsame
    have hinterface :
        infoInterface (buildResourceInfo mem info) (info',some (BitVec.ofNat 16 n))=_ :=
      infoInterface_built (b := info.sourceInterface) (by unfold maxDnnLen at hn; omega)
        (by rw [hton,hassosi]; omega) (fun h => by
          rw [hton,hrest,← hassosi,h]
          rfl)
    rw [hassosi,hinfo] at hinterface
    exact Turns.returns_bind.mpr ⟨_,Turns.returns_of.mpr hhead,
      Turns.returns_bind.mpr ⟨_,hname,Turns.returns_of.mpr hinterface⟩⟩

end Built

/-- When the decoders return: the bit rates for ten octets, volumes for an IE that is not empty, the
threshold and the measurement for as many octets as the flags announce, the resource information
unless `ogs_fqdn_parse` reads past its end. What was built comes back, but for a network instance of
100 characters. -/
theorem quantity_decoders (ie : IeValue) (mem : Nat → Byte) (rate : Bitrate) (volume : Volume)
    (threshold : DroppedDlTrafficThreshold) (measurement : VolumeMeasurement)
    (info : ResourceInfo) :
    ((∃ b,parseBitrateWithin ie.octets = .ok b) ↔ ie.octets.length=10) ∧
    ((∃ v,parseVolumeWithin ie.octets = .ok v) ↔ ie.octets≠[]) ∧
    ((∃ d,parseDroppedWithin ie.octets = .ok d) ↔
      ie.octets.length=1+announced 2 (ie.octets.headD 0)) ∧
    ((∃ m,parseVolumeMeasurement ie.octets = .ok m) ↔
      ie.octets.length=1+announced 6 (ie.octets.headD 0)) ∧
    ((∃ r,(parseResourceInfo ie.octets).Returns r) ↔ InfoReadable ie.octets) ∧
    (parseBitrateWithin (buildBitrate rate) = .ok rate ↔
      WholeRate rate.uplink ∧ WholeRate rate.downlink) ∧
    parseVolumeWithin (buildVolume volume) = .ok (volume.sent,(buildVolume volume).length) ∧
    parseDroppedWithin (buildDroppedDlTrafficThreshold threshold) = .ok threshold.sent ∧
    parseVolumeMeasurement (buildVolumeMeasurement measurement) = .ok measurement.sent ∧
    (info.WellFormed → ((parseResourceInfo (buildResourceInfo mem info)).Returns
        (info.sent,BitVec.ofNat 16 (buildResourceInfo mem info).length) ↔
      (info.assoni=true → info.networkInstance.length < maxDnnLen))) := by
  refine ⟨parseBitrateWithin_ok,?_,?_,parseVolumeMeasurement_ok,parseResourceInfo_returns ie,
    parseBitrateWithin_build rate,parseVolumeWithin_build volume,
    parseDroppedWithin_build threshold,
    parse_buildVolumeMeasurement measurement,parseResourceInfo_built mem⟩
  · simp only [parseVolumeWithin_ok 0,exists_and_left,exists_eq,and_true]
  · simp only [parseDroppedWithin_ok,exists_and_left,exists_eq,and_true]

def internetInfo : ResourceInfo :=
  ⟨97,0, #v[10,45,0,1],Vector.replicate 16 0,ascii "internet",1⟩

theorem quantity_decoders_internet :
    internetInfo.WellFormed ∧
      (parseResourceInfo (buildResourceInfo (fun _ => 7) internetInfo)).Returns
        (internetInfo,15) := by
  have hwf : internetInfo.WellFormed :=
    ⟨fun _ => ⟨[ascii "internet"],List.cons_ne_nil _ _,by decide,rfl⟩,by decide⟩
  refine ⟨hwf,?_⟩
  exact ((quantity_decoders ⟨[],by decide⟩ (fun _ => 7) ⟨0,0⟩ ⟨0,0,0,0⟩ ⟨0,0,0⟩
    VolumeMeasurement.zero internetInfo).2.2.2.2.2.2.2.2.2 hwf).mpr fun _ => by decide

/-- Too few octets, too many, and a network instance that ends in an octet 1. -/
theorem quantity_decoders_outside :
    parseBitrateWithin [] = .error .assertion ∧ parseVolumeWithin [] = .error .read ∧
    parseDroppedWithin [1] = .error .read ∧ parseDroppedWithin [0,0] = .error .assertion ∧
    parseVolumeMeasurement [1] = .error .wild ∧ parseVolumeMeasurement [0,0] = .error .abort ∧
    (parseResourceInfo [32,1,97,1]).run 2=some (.error .read) := by
  refine ⟨rfl,rfl,rfl,rfl,rfl,rfl,?_⟩
  decide

end OgsDp.Pfcp
