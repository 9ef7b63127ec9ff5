import OgsDp.Amf.Plmn
import OgsDp.Core.Octets

/-!
# Served tracking areas (src/amf/context.c, lib/nas/5gs/types.c)

The AMF looks a TAI up in its configuration, and sends the UE the entry it found as a list of
TAIs. What the UE reads in that list is compared with what the AMF found.
-/

namespace OgsDp.Amf
open Lib OgsDp.Core Option

def maxNumOfTai : Nat := 16
def maxTaiListLen : Nat := 114

/-- An entry of the configuration. Its arrays have 16 elements, and the first with no TAC ends the
list. -/
structure ServedArea extends ServedTai where
  list0_le : list0.length ≤ maxNumOfTai
  list0_num : ∀ tai∈list0,tai.2≠[] ∧ tai.2.length ≤ maxNumOfTai
  list0_plmn : ∀ tai∈list0,∃ mcc mnc mncLen,tai.1=(plmnIdBuild mcc mnc mncLen).bytes
  list1_le : list1.length ≤ maxNumOfTai
  list1_num : ∀ tai∈list1,tai.2≠0 ∧ tai.2 ≤ maxNumOfTai
  list1_plmn : ∀ tai∈list1,∃ mcc mnc mncLen,tai.1.plmnId=(plmnIdBuild mcc mnc mncLen).bytes
  list2_le : list2.length ≤ maxNumOfTai
  list2_plmn : ∀ tai∈list2,∃ mcc mnc mncLen,tai.plmnId=(plmnIdBuild mcc mnc mncLen).bytes

-- `for (j = 0; tai[j].num; j++)` with `room` elements from `tai[j]` on.
def findTai {α : Type} (hit : α → Bool) : Nat → List α → Except Fault Bool
  | 0, _ => .error .read
  | _+1, [] => .ok false
  | room+1, tai::list => if hit tai then .ok true else findTai hit room list

def hit0 (nrTai : Tai) (tai : Vector Byte 3 × List (BitVec 24)) : Bool :=
  tai.1 == nrTai.plmnId && tai.2.any (· == nrTai.tac)

def hit1 (nrTai : Tai) (tai : Tai × Nat) : Bool :=
  decide (tai.1.tac.toNat≤nrTai.tac.toNat ∧ nrTai.tac.toNat<tai.1.tac.toNat+tai.2)

def searchServed (nrTai : Tai) (served : ServedTai) : Except Fault Bool := do
  if ← findTai (hit0 nrTai) maxNumOfTai served.list0 then return true
  if ← findTai (hit1 nrTai) maxNumOfTai served.list1 then return true
  return served.list2.any (· == nrTai)

/-- `amf_find_served_tai`, counted from the entry that the loop is at; `none` for -1. -/
def amfFindServedTai (nrTai : Tai) : List ServedTai → Except Fault (Option Nat)
  | [] => .ok none
  | served::rest => do
    if ← searchServed nrTai served then return some 0
    return (← amfFindServedTai nrTai rest).map (· + 1)

def nasPlmn (plmnId : Vector Byte 3) : Vector Byte 3 := (nasFromPlmnId (plmnIdOf plmnId)).bytes

def taiHeader (type num : Nat) : Byte := Fin.ofNat 256 (type*32+num)

def tacOctets (tac : BitVec 24) : List Byte := netBytes 3 tac.toNat

def tai0Octets (tai : Vector Byte 3 × List (BitVec 24)) : List Byte :=
  taiHeader 0 (tai.2.length-1)::(nasPlmn tai.1).toList++tai.2.flatMap tacOctets

def tai1Octets (tai : Tai × Nat) : List Byte :=
  taiHeader 1 (tai.2-1)::(nasPlmn tai.1.plmnId).toList++tacOctets tai.1.tac

def tai2Octets (list : List Tai) : List Byte :=
  taiHeader 2 (list.length-1) ::
    list.flatMap fun tai => (nasPlmn tai.plmnId).toList++tacOctets tai.tac

def appendTai (target octets : List Byte) : Option (List Byte) :=
  if target.length+octets.length ≤ maxTaiListLen then some (target++octets) else none

def appendTais {α : Type} (octets : α → List Byte) :
    Nat → List Byte → List α → Except Fault (Option (List Byte))
  | 0, _, _ => .error .read
  | _+1, target, [] => .ok (some target)
  | room+1, target, tai::list =>
    match appendTai target (octets tai) with
    | none => .ok none
    | some target => appendTais octets room target list

def taiListBuild (source : ServedTai) : Except Fault (Option (List Byte)) := do
  match ← appendTais tai0Octets maxNumOfTai [] source.list0 with
  | none => return none
  | some target =>
    match ← appendTais tai1Octets maxNumOfTai target source.list1 with
    | none => return none
    | some target =>
      if source.list2=[] then return some target
      else return appendTai target (tai2Octets source.list2)

/-- A partial tracking area identity list: TACs of one PLMN, consecutive TACs of one PLMN, or TAIs
of different PLMNs. -/
inductive PartialTaiList where
  | tacs (plmn : Vector Byte 3) (tacs : List (BitVec 24))
  | consecutive (plmn : Vector Byte 3) (tac : BitVec 24) (num : Nat)
  | tais (tais : List (Vector Byte 3 × BitVec 24))

def plmnOf (plmn : Vector Byte 3) : Vector Byte 3 := (nasToPlmnId (nasPlmnIdOf plmn)).bytes

def PartialTaiList.Contains (t : Tai) : PartialTaiList → Prop
  | tacs plmn list => t.plmnId=plmnOf plmn ∧ t.tac∈list
  | consecutive plmn tac num =>
    t.plmnId=plmnOf plmn ∧ tac.toNat≤t.tac.toNat ∧ t.tac.toNat<tac.toNat+num
  | tais list => ∃ e∈list,t=⟨plmnOf e.1,e.2⟩

def readTac (l : List Byte) : Except Fault (BitVec 24 × List Byte) :=
  readVec .read 3 l >>= fun r => .ok (BitVec.ofNat 24 (netValue r.1.toList),r.2)

def readTai (l : List Byte) : Except Fault ((Vector Byte 3 × BitVec 24) × List Byte) :=
  readVec .read 3 l >>= fun r => readTac r.2 >>= fun s => .ok ((r.1,s.1),s.2)

def readPartial (l : List Byte) : Except Fault (PartialTaiList × List Byte) :=
  readOne .read l >>= fun h =>
    match h.1.val / 32 with
    | 0 => readVec .read 3 h.2 >>= fun r => readMany readTac (h.1.val % 32+1) r.2 >>= fun s =>
        .ok (.tacs r.1 s.1,s.2)
    | 1 => readTai h.2 >>= fun r => .ok (.consecutive r.1.1 r.1.2 (h.1.val % 32+1),r.2)
    | 2 => readMany readTai (h.1.val % 32+1) h.2 >>= fun r => .ok (.tais r.1,r.2)
    | _ => .error .read

/-- A TAI is in one of the partial lists that the octets are read as. -/
def Denoted (octets : List Byte) (t : Tai) : Prop :=
  Gives (readAll readPartial some octets.length octets) fun lists => ∃ p∈lists,p.Contains t

def taiOctets (e : Vector Byte 3 × BitVec 24) : List Byte := e.1.toList++tacOctets e.2

def PartialTaiList.octets : PartialTaiList → List Byte
  | tacs plmn list => taiHeader 0 (list.length-1)::plmn.toList++list.flatMap tacOctets
  | consecutive plmn tac num => taiHeader 1 (num-1)::taiOctets (plmn,tac)
  | tais list => taiHeader 2 (list.length-1)::list.flatMap taiOctets

def PartialTaiList.num : PartialTaiList → Nat
  | tacs _ list => list.length
  | consecutive _ _ num => num
  | tais list => list.length

def PartialTaiList.Fits (p : PartialTaiList) : Prop := p.num≠0 ∧ p.num≤32

theorem taiHeader_val {type num : Nat} (htype : type<8) (hnum : num≠0 ∧ num≤32) :
    (taiHeader type (num-1)).val / 32=type ∧
      (taiHeader type (num-1)).val % 32+1=num := by
  have hval : (taiHeader type (num-1)).val=type*32+(num-1) :=
    Nat.mod_eq_of_lt (by omega)
  rw [hval]
  omega

theorem taiHeader_of_val {b : Byte} {type : Nat} (h : b.val / 32=type) :
    b=taiHeader type (b.val % 32) := by
  apply Fin.ext
  have hb:=b.isLt
  show b.val=(type*32+b.val % 32) % 256
  omega

theorem reads_readTac : Reads readTac tacOctets fun _ => True := reads_net Fault.read 3

theorem reads_readTai : Reads readTai taiOctets fun _ => True := by
  have h : Reads readTai taiOctets fun e => ∃ plmn tac,True ∧ True ∧ e=(plmn,tac) :=
    (reads_readVec Fault.read 3).pair reads_readTac Prod.mk fun _ _ => rfl
  exact h.of_iff fun e => iff_of_true ⟨e.1,e.2,trivial,trivial,rfl⟩ trivial

theorem readPartial_append {p : PartialTaiList} (hp : p.Fits) (rest : List Byte) :
    readPartial (p.octets++rest) = .ok (p,rest) := by
  rw [readPartial,(reads_readOne _).bind_ok]
  cases p with
  | tacs plmn list =>
    obtain ⟨htype,hnum⟩ : _ ∧ _ % 32+1=list.length := taiHeader_val (by decide : 0<8) hp
    refine ⟨taiHeader 0 (list.length-1),plmn.toList++(list.flatMap tacOctets++rest),trivial,
      ?_,?_⟩
    · rw [PartialTaiList.octets,List.cons_append,List.cons_append,List.append_assoc]
      rfl
    simp only [htype,hnum]
    rw [(reads_readVec _ 3).bind_ok]
    refine ⟨plmn,_,trivial,rfl,(reads_readMany reads_readTac _).bind_ok.mpr ?_⟩
    exact ⟨list,rest,⟨rfl,fun _ _ => trivial⟩,rfl,rfl⟩
  | consecutive plmn tac num =>
    obtain ⟨htype,hnum⟩ : _ ∧ _ % 32+1=num := taiHeader_val (by decide : 1<8) hp
    refine ⟨taiHeader 1 (num-1),taiOctets (plmn,tac)++rest,trivial,rfl,?_⟩
    simp only [htype,hnum]
    exact reads_readTai.bind_ok.mpr ⟨_,rest,trivial,rfl,rfl⟩
  | tais list =>
    obtain ⟨htype,hnum⟩ : _ ∧ _ % 32+1=list.length := taiHeader_val (by decide : 2<8) hp
    refine ⟨taiHeader 2 (list.length-1),list.flatMap taiOctets++rest,trivial,rfl,?_⟩
    simp only [htype,hnum]
    exact (reads_readMany reads_readTai _).bind_ok.mpr
      ⟨list,rest,⟨rfl,fun _ _ => trivial⟩,rfl,rfl⟩

theorem reads_readPartial : Reads readPartial PartialTaiList.octets PartialTaiList.Fits := by
  intro l p rest
  constructor
  · intro hok
    obtain ⟨b,left,-,rfl,hlist⟩ := (reads_readOne _).bind_ok.mp hok
    clear hok
    have hb:=b.isLt
    have hnum : b.val % 32+1≠0 ∧ b.val % 32+1≤32 := by omega
    split at hlist
    · rename_i htype
      obtain ⟨plmn,left,-,rfl,htacs⟩ := (reads_readVec _ 3).bind_ok.mp hlist
      obtain ⟨list,left,⟨hlen,-⟩,rfl,hp⟩ := (reads_readMany reads_readTac _).bind_ok.mp htacs
      obtain ⟨rfl,rfl⟩ := Prod.mk.inj (Except.ok.inj hp)
      have hlen' : list.length=b.val % 32+1 := hlen
      refine ⟨show list.length≠0 ∧ list.length≤32 from hlen' ▸ hnum,?_⟩
      rw [PartialTaiList.octets,hlen',Nat.add_sub_cancel,← taiHeader_of_val htype]
      simp only [List.cons_append,List.nil_append,List.append_assoc]
    · rename_i htype
      obtain ⟨e,left,-,rfl,hp⟩ := reads_readTai.bind_ok.mp hlist
      obtain ⟨rfl,rfl⟩ := Prod.mk.inj (Except.ok.inj hp)
      refine ⟨hnum,?_⟩
      rw [PartialTaiList.octets,Nat.add_sub_cancel,← taiHeader_of_val htype]
      rfl
    · rename_i htype
      obtain ⟨list,left,⟨hlen,-⟩,rfl,hp⟩ := (reads_readMany reads_readTai _).bind_ok.mp hlist
      obtain ⟨rfl,rfl⟩ := Prod.mk.inj (Except.ok.inj hp)
      have hlen' : list.length=b.val % 32+1 := hlen
      refine ⟨show list.length≠0 ∧ list.length≤32 from hlen' ▸ hnum,?_⟩
      rw [PartialTaiList.octets,hlen',Nat.add_sub_cancel,← taiHeader_of_val htype]
      rfl
    · cases hlist
  · rintro ⟨hp,rfl⟩
    exact readPartial_append hp rest

theorem denoted_flatMap {lists : List PartialTaiList} (h : ∀ p∈lists,p.Fits) (t : Tai) :
    Denoted (lists.flatMap PartialTaiList.octets) t ↔ ∃ p∈lists,p.Contains t := by
  have hpos (p : PartialTaiList) : 1≤p.octets.length := by
    cases p with
    | tacs => exact Nat.succ_pos _
    | consecutive => exact Nat.succ_pos _
    | tais => exact Nat.succ_pos _
  have hroom:=le_length_flatMap PartialTaiList.octets lists fun p _ => hpos p
  unfold Denoted
  rw [readAll_flatMap reads_readPartial (fun p => List.ne_nil_of_length_pos (hpos p)) h (by omega)]
  exact gives_ok (P := fun lists : List PartialTaiList => ∃ p∈lists,p.Contains t)

def ServedTai.partials (s : ServedTai) : List PartialTaiList :=
  (s.list0.map fun tai => .tacs (nasPlmn tai.1) tai.2) ++
  ((s.list1.map fun tai => .consecutive (nasPlmn tai.1.plmnId) tai.1.tac tai.2) ++
  if s.list2=[] then [] else [.tais (s.list2.map fun tai => (nasPlmn tai.plmnId,tai.tac))])

def ServedTai.size (s : ServedTai) : Nat :=
  (s.list0.map fun tai => 4+3*tai.2.length).sum+7*s.list1.length +
    if s.list2=[] then 0 else 1+6*s.list2.length

theorem partials_octets (s : ServedTai) :
    s.partials.flatMap PartialTaiList.octets =
      s.list0.flatMap tai0Octets++(s.list1.flatMap tai1Octets ++
        if s.list2=[] then [] else tai2Octets s.list2) := by
  unfold ServedTai.partials
  rw [List.flatMap_append,List.flatMap_append,List.flatMap_map,List.flatMap_map]
  by_cases h : s.list2=[]
  · rw [if_pos h,if_pos h]
    rfl
  · rw [if_neg h,if_neg h,List.flatMap_singleton,PartialTaiList.octets,List.flatMap_map,
      List.length_map]
    rfl

theorem length_tacOctets (tac : BitVec 24) : (tacOctets tac).length=3 := length_netBytes 3 _

theorem length_tai0Octets (tai : Vector Byte 3 × List (BitVec 24)) :
    (tai0Octets tai).length=4+3*tai.2.length := by
  have htacs:=length_flatMap_eq tacOctets tai.2 fun tac _ => length_tacOctets tac
  rw [tai0Octets,List.length_append,List.length_cons,Vector.length_toList,htacs]
  omega

theorem length_tai1Octets (tai : Tai × Nat) : (tai1Octets tai).length=7 := by
  rw [tai1Octets,List.length_append,List.length_cons,Vector.length_toList,length_tacOctets]

theorem length_tai2Octets (list : List Tai) : (tai2Octets list).length=1+6*list.length := by
  have htais:=length_flatMap_eq
    (fun tai : Tai => (nasPlmn tai.plmnId).toList++tacOctets tai.tac) (n := 6) list
    fun tai _ => by rw [List.length_append,Vector.length_toList,length_tacOctets]
  rw [tai2Octets,List.length_cons,htais]
  omega

theorem length_partials (s : ServedTai) :
    (s.partials.flatMap PartialTaiList.octets).length=s.size := by
  have h0 : (s.list0.flatMap tai0Octets).length =
      (s.list0.map fun tai => 4+3*tai.2.length).sum := by
    rw [List.length_flatMap]
    exact congrArg List.sum (List.map_congr_left fun tai _ => length_tai0Octets tai)
  have h1:=length_flatMap_eq tai1Octets s.list1 fun tai _ => length_tai1Octets tai
  rw [partials_octets,List.length_append,List.length_append,h0,h1]
  unfold ServedTai.size
  split
  · rw [List.length_nil]
    omega
  · rw [length_tai2Octets]
    omega

theorem findTai_eq {α : Type} (hit : α → Bool) {room : Nat} {list : List α}
    (h : list.length ≤ room) :
    findTai hit room list =
      if list.any hit=true then .ok true
      else if list.length < room then .ok false else .error .read := by
  induction list generalizing room with
  | nil =>
    cases room with
    | zero => rfl
    | succ room => rfl
  | cons tai list ih =>
    cases room with
    | zero => exact absurd h (Nat.not_succ_le_zero _)
    | succ room =>
      rw [findTai,List.any_cons]
      cases hit tai with
      | true => rfl
      | false =>
        rw [if_neg Bool.false_ne_true,ih (Nat.le_of_succ_le_succ h),Bool.false_or,
          List.length_cons]
        simp only [Nat.add_lt_add_iff_right]

theorem appendTais_some {α : Type} {octets : α → List Byte} {room : Nat} {target out : List Byte}
    {list : List α} (htarget : target.length ≤ maxTaiListLen) :
    appendTais octets room target list = .ok (some out) ↔
      list.length < room ∧ (target++list.flatMap octets).length ≤ maxTaiListLen ∧
        out=target++list.flatMap octets := by
  induction list generalizing room target with
  | nil =>
    cases room with
    | zero => exact iff_of_false nofun fun h => absurd h.1 (Nat.not_lt_zero _)
    | succ room =>
      rw [appendTais,List.flatMap_nil,List.append_nil]
      constructor
      · intro h
        exact ⟨Nat.succ_pos room,htarget,(some.inj (Except.ok.inj h)).symm⟩
      · exact fun h => congrArg (fun o => Except.ok (some o)) h.2.2.symm
  | cons tai list ih =>
    cases room with
    | zero => exact iff_of_false nofun fun h => absurd h.1 (Nat.not_lt_zero _)
    | succ room =>
      rw [appendTais,List.flatMap_cons,← List.append_assoc,List.length_cons,
        Nat.add_lt_add_iff_right]
      unfold appendTai
      by_cases hfits : target.length+(octets tai).length ≤ maxTaiListLen
      · rw [if_pos hfits]
        exact ih (by rw [List.length_append]; exact hfits)
      · rw [if_neg hfits]
        refine iff_of_false nofun fun h => hfits ?_
        have hlen:=h.2.1
        rw [List.length_append,List.length_append] at hlen
        omega

theorem appendTai2_some {target out : List Byte} {list : List Tai}
    (htarget : target.length ≤ maxTaiListLen) :
    (if list=[] then some target else appendTai target (tai2Octets list))=some out ↔
      (target ++ if list=[] then [] else tai2Octets list).length ≤ maxTaiListLen ∧
        out=target ++ if list=[] then [] else tai2Octets list := by
  unfold appendTai
  by_cases hlist : list=[]
  · rw [if_pos hlist,if_pos hlist,List.append_nil,some_inj]
    exact ⟨fun h => ⟨htarget,h.symm⟩,fun h => h.2.symm⟩
  · rw [if_neg hlist,if_neg hlist,List.length_append]
    by_cases hfits : target.length+(tai2Octets list).length ≤ maxTaiListLen
    · rw [if_pos hfits,some_inj]
      exact ⟨fun h => ⟨hfits,h.symm⟩,fun h => h.2.symm⟩
    · rw [if_neg hfits]
      exact iff_of_false nofun fun h => hfits h.1

theorem taiListBuild_some {s : ServedTai} {out : List Byte} :
    taiListBuild s = .ok (some out) ↔
      s.list0.length < maxNumOfTai ∧ s.list1.length < maxNumOfTai ∧ s.size ≤ maxTaiListLen ∧
        out=s.partials.flatMap PartialTaiList.octets := by
  have hlast (target : List Byte) :
      (if s.list2=[] then pure (some target)
        else pure (appendTai target (tai2Octets s.list2)) : Except Fault (Option (List Byte))) =
          .ok (if s.list2=[] then some target else appendTai target (tai2Octets s.list2)) := by
    split <;> rfl
  rw [← length_partials,partials_octets,← List.append_assoc]
  unfold taiListBuild
  simp only [hlast]
  rw [bind_eq_ok]
  constructor
  · intro ⟨first,h0,h⟩
    cases first with
    | none => cases h
    | some target =>
      obtain ⟨hlist0,hlen0,rfl⟩ := (appendTais_some (Nat.zero_le _)).mp h0
      obtain ⟨second,h1,h⟩ := bind_eq_ok.mp h
      cases second with
      | none => cases h
      | some target =>
        obtain ⟨hlist1,hlen1,rfl⟩ := (appendTais_some hlen0).mp h1
        exact ⟨hlist0,hlist1,(appendTai2_some hlen1).mp (Except.ok.inj h)⟩
  · intro ⟨hlist0,hlist1,hlen,hout⟩
    have hlen1 : (s.list0.flatMap tai0Octets++s.list1.flatMap tai1Octets).length ≤
        maxTaiListLen := by
      rw [List.length_append] at hlen
      omega
    have hlen0 : (s.list0.flatMap tai0Octets).length ≤ maxTaiListLen := by
      rw [List.length_append] at hlen1
      omega
    refine ⟨_,(appendTais_some (Nat.zero_le _)).mpr ⟨hlist0,hlen0,rfl⟩,?_⟩
    refine bind_eq_ok.mpr ⟨_,(appendTais_some hlen0).mpr ⟨hlist1,hlen1,rfl⟩,?_⟩
    exact congrArg Except.ok ((appendTai2_some hlen1).mpr ⟨hlen,hout⟩)

/-- A group, a range of any PLMN or a TAI of the entry has the TAC: what the search looks for. -/
def ServedTai.hit (s : ServedTai) (nrTai : Tai) : Bool :=
  s.list0.any (hit0 nrTai) || s.list1.any (hit1 nrTai) || s.list2.any (· == nrTai)

def ServedTai.Has (s : ServedTai) (t : Tai) : Prop :=
  (∃ tai∈s.list0,hit0 t tai=true) ∨
    (∃ tai∈s.list1,tai.1.plmnId=t.plmnId ∧ hit1 t tai=true) ∨ t∈s.list2

theorem hit_of_has {s : ServedTai} {t : Tai} (h : s.Has t) : s.hit t=true := by
  unfold ServedTai.hit
  rw [Bool.or_eq_true,Bool.or_eq_true]
  rcases h with ⟨tai,hmem,hit⟩ | ⟨tai,hmem,-,hit⟩ | hmem
  · exact .inl (.inl (List.any_eq_true.mpr ⟨tai,hmem,hit⟩))
  · exact .inl (.inr (List.any_eq_true.mpr ⟨tai,hmem,hit⟩))
  · exact .inr (List.any_eq_true.mpr ⟨t,hmem,beq_self_eq_true t⟩)

theorem searchServed_eq {s : ServedTai} (h0 : s.list0.length < maxNumOfTai)
    (h1 : s.list1.length < maxNumOfTai) (nrTai : Tai) :
    searchServed nrTai s = .ok (s.hit nrTai) := by
  unfold searchServed ServedTai.hit
  rw [findTai_eq _ (Nat.le_of_lt h0),findTai_eq _ (Nat.le_of_lt h1),if_pos h0,if_pos h1]
  cases s.list0.any (hit0 nrTai) with
  | true => rfl
  | false =>
    cases s.list1.any (hit1 nrTai) with
    | true => rfl
    | false => rfl

theorem searchServed_full {s : ServedTai} (h0 : s.list0.length ≤ maxNumOfTai)
    (h1 : s.list1.length ≤ maxNumOfTai)
    (hfull : s.list0.length=maxNumOfTai ∨ s.list1.length=maxNumOfTai) (nrTai : Tai) :
    searchServed nrTai s = .ok true ∨ searchServed nrTai s = .error .read := by
  unfold searchServed
  rw [findTai_eq _ h0,findTai_eq _ h1]
  cases s.list0.any (hit0 nrTai) with
  | true => exact .inl rfl
  | false =>
    by_cases hlt : s.list0.length < maxNumOfTai
    · rw [if_pos hlt]
      cases s.list1.any (hit1 nrTai) with
      | true => exact .inl rfl
      | false =>
        have hge : ¬ s.list1.length < maxNumOfTai := by omega
        rw [if_neg hge]
        exact .inr rfl
    · rw [if_neg hlt]
      exact .inr rfl

theorem plmnOf_nasPlmn {v : Vector Byte 3}
    (h : ∃ mcc mnc mncLen,v=(plmnIdBuild mcc mnc mncLen).bytes) : plmnOf (nasPlmn v)=v := by
  obtain ⟨mcc,mnc,mncLen,rfl⟩ := h
  unfold plmnOf nasPlmn
  rw [nasPlmnIdOf_bytes,plmnIdOf_bytes,
    nasToPlmnId_nasFromPlmnId (plmnIdBuild_mnc3 mcc mnc mncLen)]

namespace ServedArea

variable (a : ServedArea) (t : Tai)

theorem partials_fits : ∀ p∈a.partials,p.Fits := by
  have h2 : a.list2.length≤16 := a.list2_le
  intro p hp
  unfold ServedTai.partials at hp
  rcases List.mem_append.mp hp with hp | hp
  · obtain ⟨tai,hmem,rfl⟩ := List.mem_map.mp hp
    obtain ⟨hne,hle⟩ := a.list0_num tai hmem
    have hpos:=List.length_pos_of_ne_nil hne
    have hle' : tai.2.length≤16 := hle
    exact ⟨show tai.2.length≠0 by omega,show tai.2.length≤32 by omega⟩
  rcases List.mem_append.mp hp with hp | hp
  · obtain ⟨tai,hmem,rfl⟩ := List.mem_map.mp hp
    obtain ⟨hne,hle⟩ := a.list1_num tai hmem
    have hle' : tai.2≤16 := hle
    exact ⟨hne,show tai.2≤32 by omega⟩
  · split at hp
    · cases hp
    · rename_i hne
      obtain rfl := List.mem_singleton.mp hp
      have hpos:=List.length_pos_of_ne_nil hne
      refine ⟨?_,?_⟩
      · rw [PartialTaiList.num,List.length_map]
        omega
      · rw [PartialTaiList.num,List.length_map]
        omega

theorem contains_iff : (∃ p∈a.partials,p.Contains t) ↔ a.Has t := by
  have h0 : (∃ p ∈ a.list0.map fun tai => PartialTaiList.tacs (nasPlmn tai.1) tai.2,
      p.Contains t) ↔ ∃ tai∈a.list0,hit0 t tai=true := by
    simp only [List.mem_map,exists_exists_and_eq_and]
    refine exists_congr fun tai => and_congr_right fun hmem => ?_
    rw [PartialTaiList.Contains,plmnOf_nasPlmn (a.list0_plmn tai hmem),hit0,Bool.and_eq_true,
      beq_iff_eq,List.any_beq',List.contains_iff_mem]
    exact and_congr_left fun _ => eq_comm
  have h1 : (∃ p ∈ a.list1.map fun tai =>
      PartialTaiList.consecutive (nasPlmn tai.1.plmnId) tai.1.tac tai.2, p.Contains t) ↔
      ∃ tai∈a.list1,tai.1.plmnId=t.plmnId ∧ hit1 t tai=true := by
    simp only [List.mem_map,exists_exists_and_eq_and]
    refine exists_congr fun tai => and_congr_right fun hmem => ?_
    rw [PartialTaiList.Contains,plmnOf_nasPlmn (a.list1_plmn tai hmem),hit1,decide_eq_true_eq]
    exact and_congr_left fun _ => eq_comm
  have h2 : (∃ p ∈ if a.list2=[] then [] else
      [PartialTaiList.tais (a.list2.map fun tai => (nasPlmn tai.plmnId,tai.tac))],
      p.Contains t) ↔ t∈a.list2 := by
    by_cases hlist : a.list2=[]
    · rw [if_pos hlist,hlist]
      exact iff_of_false nofun List.not_mem_nil
    · rw [if_neg hlist]
      simp only [List.mem_singleton,exists_eq_left,PartialTaiList.Contains,List.mem_map,
        exists_exists_and_eq_and]
      constructor
      · intro ⟨tai,hmem,ht⟩
        rw [plmnOf_nasPlmn (a.list2_plmn tai hmem)] at ht
        exact ht ▸ hmem
      · intro hmem
        refine ⟨t,hmem,?_⟩
        rw [plmnOf_nasPlmn (a.list2_plmn t hmem)]
  unfold ServedTai.partials ServedTai.Has
  rw [← h0,← h1,← h2]
  simp only [List.mem_append,or_and_right,exists_or]

def Encoded : Prop :=
  ∃ octets,taiListBuild a.toServedTai = .ok (some octets) ∧ Denoted octets t

theorem encoded_iff :
    a.Encoded t ↔ a.list0.length < maxNumOfTai ∧ a.list1.length < maxNumOfTai ∧
      a.size ≤ maxTaiListLen ∧ a.Has t := by
  unfold Encoded
  constructor
  · intro ⟨octets,hbuild,ht⟩
    obtain ⟨h0,h1,hsize,rfl⟩ := taiListBuild_some.mp hbuild
    exact ⟨h0,h1,hsize,(a.contains_iff t).mp ((denoted_flatMap a.partials_fits t).mp ht)⟩
  · intro ⟨h0,h1,hsize,ht⟩
    exact ⟨_,taiListBuild_some.mpr ⟨h0,h1,hsize,rfl⟩,
      (denoted_flatMap a.partials_fits t).mpr ((a.contains_iff t).mpr ht)⟩

/-- The entry has room in its arrays, and where the search finds the TAI in it, its list fits and
the TAI is in it. -/
structure Agrees : Prop where
  list0_lt : a.list0.length < maxNumOfTai
  list1_lt : a.list1.length < maxNumOfTai
  fits : a.hit t=true → a.size ≤ maxTaiListLen
  has : a.hit t=true → a.Has t

end ServedArea

def LeastServed (config : List ServedArea) (t : Tai) (i : Nat) : Prop :=
  (∃ a,config[i]?=some a ∧ a.Encoded t) ∧
    ∀ j < i,∀ a,config[j]?=some a → ¬ a.Encoded t

/-- The search stays inside the arrays and finds the first entry whose list denotes the TAI. -/
def TaiAgreement (config : List ServedArea) (t : Tai) : Prop :=
  Gives (amfFindServedTai t (config.map ServedArea.toServedTai)) fun found =>
    ∀ i,found=some i ↔ LeastServed config t i

section Agreement

variable {config : List ServedArea} {t : Tai} {a : ServedArea}

theorem leastServed_zero : LeastServed (a::config) t 0 ↔ a.Encoded t := by
  constructor
  · intro h
    obtain ⟨b,hb,hencoded⟩ := h.1
    cases hb
    exact hencoded
  · exact fun h => ⟨⟨a,rfl,h⟩,nofun⟩

theorem leastServed_succ {i : Nat} :
    LeastServed (a::config) t (i+1) ↔ ¬ a.Encoded t ∧ LeastServed config t i := by
  constructor
  · intro ⟨hat,hbefore⟩
    refine ⟨hbefore 0 (Nat.succ_pos i) a rfl,hat,fun j hj b hb => ?_⟩
    exact hbefore (j+1) (Nat.succ_lt_succ hj) b hb
  · intro ⟨ha,hat,hbefore⟩
    refine ⟨hat,fun j hj b hb => ?_⟩
    cases j with
    | zero =>
      cases hb
      exact ha
    | succ j => exact hbefore j (Nat.lt_of_succ_lt_succ hj) b hb

theorem taiAgreement_found (h : searchServed t a.toServedTai = .ok true) :
    TaiAgreement (a::config) t ↔ a.Encoded t := by
  unfold TaiAgreement
  rw [List.map_cons,amfFindServedTai,h]
  refine gives_ok.trans ?_
  constructor
  · exact fun hall => leastServed_zero.mp ((hall 0).mp rfl)
  · intro hencoded i
    cases i with
    | zero => exact iff_of_true rfl (leastServed_zero.mpr hencoded)
    | succ i => exact iff_of_false nofun fun hleast => (leastServed_succ.mp hleast).1 hencoded

theorem taiAgreement_next (h : searchServed t a.toServedTai = .ok false) (hno : ¬ a.Encoded t) :
    TaiAgreement (a::config) t ↔ TaiAgreement config t := by
  unfold TaiAgreement
  rw [List.map_cons,amfFindServedTai,h]
  show Gives (amfFindServedTai t (config.map ServedArea.toServedTai) >>= _) _ ↔ _
  rw [gives_bind]
  have hsucc (found : Option Nat) (i : Nat) :
      found.map (· + 1)=some (i+1) ↔ found=some i := by
    cases found with
    | none => exact iff_of_false nofun nofun
    | some k =>
      rw [map_some,some_inj,some_inj]
      exact Nat.succ_inj
  refine exists_congr fun found => and_congr_right fun _ => gives_ok.trans ?_
  constructor
  · intro hall i
    rw [← hsucc,hall,leastServed_succ,and_iff_right hno]
  · intro hall i
    cases i with
    | zero =>
      refine iff_of_false (fun h => ?_) fun h => hno (leastServed_zero.mp h)
      cases found <;> cases h
    | succ i =>
      rw [leastServed_succ,and_iff_right hno,← hall]
      exact hsucc found i

theorem taiAgreement_cons :
    TaiAgreement (a::config) t ↔ a.Agrees t ∧ (a.hit t=false → TaiAgreement config t) := by
  by_cases hfull : a.list0.length=maxNumOfTai ∨ a.list1.length=maxNumOfTai
  · -- With a full array, the list of the entry is not built.
    have hencoded : ¬ a.Encoded t := by
      rw [a.encoded_iff]
      omega
    refine iff_of_false (fun h => ?_) fun h => ?_
    · rcases searchServed_full a.list0_le a.list1_le hfull t with hfound | hfault
      · exact hencoded ((taiAgreement_found hfound).mp h)
      · unfold TaiAgreement at h
        rw [List.map_cons,amfFindServedTai,hfault] at h
        exact not_gives_error h
    · have h0:=h.1.list0_lt
      have h1:=h.1.list1_lt
      omega
  · have hle0:=a.list0_le
    have hle1:=a.list1_le
    have h0 : a.list0.length < maxNumOfTai := by omega
    have h1 : a.list1.length < maxNumOfTai := by omega
    have hsearch:=searchServed_eq h0 h1 t
    cases hhit : a.hit t with
    | true =>
      rw [hhit] at hsearch
      rw [taiAgreement_found hsearch,a.encoded_iff]
      constructor
      · exact fun ⟨_,_,hsize,hhas⟩ => ⟨⟨h0,h1,fun _ => hsize,fun _ => hhas⟩,nofun⟩
      · exact fun ⟨h,_⟩ => ⟨h0,h1,h.fits hhit,h.has hhit⟩
    | false =>
      rw [hhit] at hsearch
      have hmiss : a.hit t≠true := by
        rw [hhit]
        exact Bool.false_ne_true
      have hencoded : ¬ a.Encoded t := fun h => hmiss (hit_of_has ((a.encoded_iff t).mp h).2.2.2)
      rw [taiAgreement_next hsearch hencoded]
      constructor
      · exact fun h => ⟨⟨h0,h1,fun hh => absurd hh hmiss,fun hh => absurd hh hmiss⟩,fun _ => h⟩
      · exact fun h => h.2 rfl

/-- The search agrees with the lists for the UE where each entry it comes to agrees. -/
theorem served_tai_agreement (config : List ServedArea) (t : Tai) :
    TaiAgreement config t ↔
      ∀ before a after,config=before++a::after → (∀ b∈before,b.hit t=false) →
        a.Agrees t := by
  induction config with
  | nil =>
    refine iff_of_true ?_ fun before a after h => ?_
    · exact gives_ok.mpr fun i => iff_of_false nofun fun h => nomatch h.1
    · exact absurd h.symm (by simp)
  | cons a config ih =>
    rw [taiAgreement_cons,ih]
    constructor
    · intro ⟨ha,hrest⟩ before b after hconfig hmiss
      cases before with
      | nil =>
        cases hconfig
        exact ha
      | cons c before =>
        cases hconfig
        obtain ⟨hc,hmiss⟩ := List.forall_mem_cons.mp hmiss
        exact hrest hc before b after rfl hmiss
    · intro h
      refine ⟨h [] a config rfl nofun,fun ha before b after hconfig hmiss => ?_⟩
      exact h (a::before) b after (congrArg (a :: ·) hconfig)
        (List.forall_mem_cons.mpr ⟨ha,hmiss⟩)

end Agreement

def homePlmn : Vector Byte 3 := (plmnIdBuild 999 70 2).bytes

def rangeArea (n : Nat) (h : n ≤ maxNumOfTai) : ServedArea where
  list0 := []
  list1 := List.replicate n (⟨homePlmn,1⟩,10)
  list2 := []
  list0_le := Nat.zero_le _
  list0_num := nofun
  list0_plmn := nofun
  list1_le := by rw [List.length_replicate]; exact h
  list1_num := fun tai htai => by rw [List.eq_of_mem_replicate htai]; decide
  list1_plmn := fun tai htai => by rw [List.eq_of_mem_replicate htai]; exact ⟨999,70,2,rfl⟩
  list2_le := Nat.zero_le _
  list2_plmn := nofun

def foreignTai : Tai := ⟨(plmnIdBuild 1 1 2).bytes,5⟩

/-- A TAI of another PLMN is found by its TAC, though the list for the UE does not have it; and 16
ranges are searched beyond the last one. -/
theorem served_tai_agreement_foreign :
    (amfFindServedTai foreignTai [(rangeArea 1 (by decide)).toServedTai] = .ok (some 0) ∧
      ¬ (rangeArea 1 (by decide)).Encoded foreignTai) ∧
    amfFindServedTai ⟨homePlmn,20⟩ [(rangeArea 16 (by decide)).toServedTai] = .error .read ∧
    ¬ ∀ config t,TaiAgreement config t := by
  have hno : ¬ (rangeArea 1 (by decide)).Encoded foreignTai := by
    rw [ServedArea.encoded_iff]
    exact fun h => absurd h.2.2.2 (by unfold ServedTai.Has; decide)
  refine ⟨⟨rfl,hno⟩,rfl,fun h => ?_⟩
  exact hno ((taiAgreement_found rfl).mp (h [rangeArea 1 (by decide)] foreignTai))

end OgsDp.Amf
