import OgsDp.Core.Octets
import OgsDp.Lib.Writes

/-!
# QoS flow descriptions (lib/nas/5gs/types.c)

A description is three octets and the parameters that these count. The builder stops the process
at a bound that does not hold; the parser keeps what it has read before.
-/

namespace OgsDp.Nas
open OgsDp.Core Lib

def maxNumOfQosFlowDescription : Nat := 8
def maxNumOfQosFlowParameter : Nat := 8
def maxQosFlowDescriptionsLen : Nat := 65535

/-- `ogs_nas_qos_flow_parameter_t`; `qos_index` is the octet of `br.unit`. -/
structure QosFlowParameter where
  identifier : Byte
  len : Byte
  unit : Byte
  value : BitVec 16
  deriving DecidableEq

def QosFlowParameter.zero : QosFlowParameter := ⟨0,0,0,0⟩

/-- `ogs_nas_qos_flow_description_t`: the octets with its identifier, its code and the number of its
parameters, and the parameters. -/
structure QosFlowDescription where
  head : Vector Byte 3
  param : Vector QosFlowParameter maxNumOfQosFlowParameter
  deriving DecidableEq

namespace QosFlowDescription

def numOfParameter (d : QosFlowDescription) : Nat := (d.head.get 2).val % 64

def params (d : QosFlowDescription) : List QosFlowParameter := d.param.toList.take d.numOfParameter

end QosFlowDescription

def fiveQi : Byte := 1

def IsBitrate (identifier : Byte) : Prop := 2 ≤ identifier.val ∧ identifier.val≤5

instance (identifier : Byte) : Decidable (IsBitrate identifier) :=
  inferInstanceAs (Decidable (_ ∧ _))

def putDescriptions (bytes out : List Byte) : Except Fault (List Byte) :=
  putWithin .assertion maxQosFlowDescriptionsLen bytes out

def putValue (p : QosFlowParameter) (out : List Byte) : Except Fault (List Byte) :=
  if p.identifier=fiveQi then
    if p.len.val=1 then putDescriptions [p.unit] out else .error .assertion
  else if IsBitrate p.identifier then
    if p.len.val=3 then putDescriptions (p.unit::netBytes 2 p.value.toNat) out
    else .error .assertion
  else .error .assertion

def putParameter (p : QosFlowParameter) (out : List Byte) : Except Fault (List Byte) :=
  putDescriptions [p.identifier] out >>= fun out => putDescriptions [p.len] out >>= putValue p

-- A count above the size of `param` goes on behind it.
def putDescription (d : QosFlowDescription) (out : List Byte) : Except Fault (List Byte) :=
  putDescriptions d.head.toList out >>= fun out =>
    d.params.foldlM (fun out p => putParameter p out) out >>= fun out =>
      if d.numOfParameter ≤ maxNumOfQosFlowParameter then .ok out else .error .read

/-- `ogs_nas_build_qos_flow_descriptions`: the octets of the buffer. -/
def buildQosFlowDescriptions (ds : List QosFlowDescription) : Except Fault (List Byte) :=
  if ds=[] then .error .assertion
  else ds.foldlM (fun out d => putDescription d out) []

/-- What ends the parser: a check finds that the octets do not reach, a length is not that of the
parameter, the parameter is none that is known, or octets are read that are not there. -/
inductive QosFlowStop where
  | short
  | len
  | unknown
  | beyond
  deriving DecidableEq

def QosFlowStop.fault : QosFlowStop → Option Fault
  | beyond => some .read
  | _ => none

def readBr (l : List Byte) : Except QosFlowStop ((Byte × BitVec 16) × List Byte) :=
  readOne .beyond l >>= fun unit => readNet16 .beyond unit.2 >>= fun value =>
    .ok ((unit.1,value.1),value.2)

def readValue (identifier len : Byte) (l : List Byte) :
    Except QosFlowStop (QosFlowParameter × List Byte) :=
  if identifier=fiveQi then
    if len.val≠1 then .error .len
    else guarded 1 .short (readOne .beyond) l >>= fun index =>
      .ok (⟨identifier,len,index.1,0⟩,index.2)
  else if IsBitrate identifier then
    if len.val≠3 then .error .len
    else guarded 3 .short readBr l >>= fun br => .ok (⟨identifier,len,br.1.1,br.1.2⟩,br.2)
  else .error .unknown

def readParameter (l : List Byte) : Except QosFlowStop (QosFlowParameter × List Byte) :=
  guarded 1 .short (readOne .beyond) l >>= fun identifier =>
    guarded 1 .short (readOne .beyond) identifier.2 >>= fun len =>
      readValue identifier.1 len.1 len.2

def readDescription (l : List Byte) : Except QosFlowStop (QosFlowDescription × List Byte) :=
  guarded 3 .short (readVec .beyond 3) l >>= fun head =>
    let num:=(head.1.get 2).val % 64
    readMany readParameter (min num maxNumOfQosFlowParameter) head.2 >>= fun ps =>
      .ok (⟨head.1,padded .zero maxNumOfQosFlowParameter ps.1⟩,ps.2)

/-- `ogs_nas_parse_qos_flow_descriptions` into an array with `room` for them: the descriptions that
it counts. -/
def parseQosFlowDescriptions (room : Nat) (octets : List Byte) :
    Except Fault (List QosFlowDescription) :=
  readAll readDescription QosFlowStop.fault room octets

namespace QosFlowParameter

def Sound (p : QosFlowParameter) : Prop :=
  p.identifier=fiveQi ∧ p.len.val=1 ∨ IsBitrate p.identifier ∧ p.len.val=3

instance (p : QosFlowParameter) : Decidable p.Sound := inferInstanceAs (Decidable (_ ∨ _))

def carried (p : QosFlowParameter) : QosFlowParameter :=
  if p.identifier=fiveQi then { p with value := 0 } else p

def valueBytes (p : QosFlowParameter) : List Byte :=
  if p.identifier=fiveQi then [p.unit] else p.unit::netBytes 2 p.value.toNat

def bytes (p : QosFlowParameter) : List Byte := p.identifier::p.len::p.valueBytes

end QosFlowParameter

namespace QosFlowDescription

def bytes (d : QosFlowDescription) : List Byte :=
  d.head.toList++d.params.flatMap QosFlowParameter.bytes

/-- The description with the parameters that it counts, and nothing behind them. -/
def carried (d : QosFlowDescription) : QosFlowDescription :=
  { d with param := padded .zero maxNumOfQosFlowParameter (d.params.map QosFlowParameter.carried) }

structure Sound (d : QosFlowDescription) : Prop where
  num : d.numOfParameter ≤ maxNumOfQosFlowParameter
  params : ∀ p∈d.params,p.Sound

end QosFlowDescription

variable {p : QosFlowParameter} {d : QosFlowDescription} {ds : List QosFlowDescription}
  {l rest : List Byte}

theorem fiveQi_not_isBitrate : ¬ IsBitrate fiveQi := by decide

theorem writes_putDescriptions (bytes : List Byte) :
    Writes (putDescriptions bytes) maxQosFlowDescriptionsLen bytes :=
  writes_putWithin _ _ bytes

theorem writes_putParameter (hp : p.Sound) :
    Writes (putParameter p) maxQosFlowDescriptionsLen p.bytes := by
  have hvalue : putValue p=putDescriptions p.valueBytes := by
    funext out
    unfold putValue QosFlowParameter.valueBytes
    rcases hp with ⟨hid,hlen⟩ | ⟨hid,hlen⟩
    · rw [if_pos hid,if_pos hlen,if_pos hid]
    · have hne : p.identifier≠fiveQi := fun h => fiveQi_not_isBitrate (h ▸ hid)
      rw [if_neg hne,if_pos hid,if_pos hlen,if_neg hne]
  have hid:=writes_putDescriptions [p.identifier]
  have hlen:=writes_putDescriptions [p.len]
  unfold putParameter
  rw [hvalue]
  exact hid.bind (hlen.bind (writes_putDescriptions p.valueBytes))

theorem writes_putDescription (hd : d.Sound) :
    Writes (putDescription d) maxQosFlowDescriptionsLen d.bytes := by
  have hparams : Writes (fun out => d.params.foldlM (fun out p => putParameter p out) out)
      maxQosFlowDescriptionsLen (d.params.flatMap QosFlowParameter.bytes) :=
    Writes.foldlM fun p hp => writes_putParameter (hd.params p hp)
  have hall:=(writes_putDescriptions d.head.toList).bind (hparams.bind Writes.nil)
  unfold putDescription
  simp only [if_pos hd.num]
  rw [List.append_nil] at hall
  exact hall

theorem buildQosFlowDescriptions_ok (hne : ds≠[]) (hs : ∀ d∈ds,d.Sound) {out : List Byte} :
    buildQosFlowDescriptions ds = .ok out ↔
      (ds.flatMap QosFlowDescription.bytes).length ≤ maxQosFlowDescriptionsLen ∧
        out=ds.flatMap QosFlowDescription.bytes := by
  have hwrites:=Writes.foldlM fun d hd => writes_putDescription (hs d hd)
  have hout:=hwrites [] out (Nat.zero_le _)
  rw [List.length_nil,Nat.zero_add,List.nil_append] at hout
  rw [buildQosFlowDescriptions,if_neg hne]
  exact hout

theorem reads_octet :
    Reads (guarded 1 QosFlowStop.short (readOne .beyond)) (fun b : Byte => [b]) fun _ => True :=
  (reads_readOne _).guarded _ fun _ => Nat.le_refl 1

theorem reads_readBr :
    Reads (guarded 3 .short readBr) (fun br => br.1::netBytes 2 br.2.toNat)
      fun br => ∃ unit value,True ∧ True ∧ br=(unit,value) :=
  ((reads_readOne _).pair (reads_readNet16 _) Prod.mk fun _ _ => rfl).guarded _ fun br =>
    Nat.le_of_eq (congrArg Nat.succ (length_netBytes 2 br.2.toNat)).symm

def QosFlowParameter.Read (p : QosFlowParameter) : Prop := p.Sound ∧ p=p.carried

theorem reads_readValue (identifier len : Byte) :
    Reads (readValue identifier len) QosFlowParameter.valueBytes
      fun p => p.identifier=identifier ∧ p.len=len ∧ p.Read := by
  intro l p rest
  unfold readValue QosFlowParameter.Read QosFlowParameter.Sound QosFlowParameter.carried
    QosFlowParameter.valueBytes
  by_cases hfive : identifier=fiveQi
  · rw [if_pos hfive]
    by_cases hlen : len.val=1
    · rw [if_neg (not_not.mpr hlen),reads_octet.bind_ok]
      constructor
      · rintro ⟨index,rest',-,rfl,hok⟩
        obtain ⟨rfl,rfl⟩ := Prod.mk.inj (Except.ok.inj hok)
        simp only [if_pos hfive]
        exact ⟨⟨trivial,trivial,.inl ⟨hfive,hlen⟩,trivial⟩,trivial⟩
      · rintro ⟨⟨rfl,rfl,-,hcarried⟩,rfl⟩
        rw [if_pos hfive] at hcarried ⊢
        exact ⟨p.unit,rest,trivial,rfl,by rw [hcarried]⟩
    · rw [if_pos hlen]
      refine iff_of_false nofun ?_
      rintro ⟨⟨rfl,rfl,⟨-,h⟩ | ⟨h,-⟩,-⟩,-⟩
      · exact hlen h
      · exact fiveQi_not_isBitrate (hfive ▸ h)
  · rw [if_neg hfive]
    by_cases hbitrate : IsBitrate identifier
    · rw [if_pos hbitrate]
      by_cases hlen : len.val=3
      · rw [if_neg (not_not.mpr hlen),reads_readBr.bind_ok]
        constructor
        · rintro ⟨br,rest',-,rfl,hok⟩
          obtain ⟨rfl,rfl⟩ := Prod.mk.inj (Except.ok.inj hok)
          simp only [if_neg hfive]
          exact ⟨⟨trivial,trivial,.inr ⟨hbitrate,hlen⟩,trivial⟩,trivial⟩
        · rintro ⟨⟨rfl,rfl,-,-⟩,rfl⟩
          rw [if_neg hfive]
          exact ⟨(p.unit,p.value),rest,⟨p.unit,p.value,trivial,trivial,rfl⟩,rfl,rfl⟩
      · rw [if_pos hlen]
        refine iff_of_false nofun ?_
        rintro ⟨⟨rfl,rfl,⟨h,-⟩ | ⟨-,h⟩,-⟩,-⟩
        · exact hfive h
        · exact hlen h
    · rw [if_neg hbitrate]
      refine iff_of_false nofun ?_
      rintro ⟨⟨rfl,rfl,⟨h,-⟩ | ⟨h,-⟩,-⟩,-⟩
      · exact hfive h
      · exact hbitrate h

theorem reads_readParameter : Reads readParameter QosFlowParameter.bytes QosFlowParameter.Read := by
  intro l p rest
  rw [readParameter,reads_octet.bind_ok]
  constructor
  · rintro ⟨identifier,rest',-,rfl,hok⟩
    obtain ⟨len,rest'',-,hrest,hok⟩ := reads_octet.bind_ok.mp hok
    obtain ⟨⟨rfl,rfl,hread⟩,hrest'⟩ := (reads_readValue _ _ _ _ _).mp hok
    simp only at hrest hrest'
    exact ⟨hread,by rw [hrest,hrest']; rfl⟩
  · rintro ⟨hread,rfl⟩
    refine ⟨p.identifier,p.len::p.valueBytes++rest,trivial,rfl,?_⟩
    refine reads_octet.bind_ok.mpr ⟨p.len,p.valueBytes++rest,trivial,rfl,?_⟩
    exact (reads_readValue _ _).append ⟨rfl,rfl,hread⟩ rest

/-- What the parser reads as a description; of more than eight parameters it takes eight. -/
structure QosFlowDescription.Read (d : QosFlowDescription) : Prop where
  params : ∀ p∈d.params,p.Read
  param : d.param=padded .zero maxNumOfQosFlowParameter d.params

theorem length_params (d : QosFlowDescription) :
    d.params.length=min d.numOfParameter maxNumOfQosFlowParameter := by
  rw [QosFlowDescription.params,List.length_take,Vector.length_toList]

theorem reads_head : Reads (guarded 3 QosFlowStop.short (readVec (α := Byte) .beyond 3))
    Vector.toList fun _ => True :=
  (reads_readVec _ 3).guarded _ fun v => Nat.le_of_eq v.length_toList.symm

theorem reads_readDescription :
    Reads readDescription QosFlowDescription.bytes QosFlowDescription.Read := by
  intro l d rest
  rw [readDescription,reads_head.bind_ok]
  constructor
  · rintro ⟨head,rest',-,rfl,hok⟩
    obtain ⟨ps,rest'',⟨hlen,hread⟩,hrest,hok⟩ :=
      (reads_readMany reads_readParameter _).bind_ok.mp hok
    obtain ⟨rfl,rfl⟩ := Prod.mk.inj (Except.ok.inj hok)
    have hparams : QosFlowDescription.params ⟨head,padded .zero maxNumOfQosFlowParameter ps⟩ =
        ps := take_padded hlen
    simp only at hrest
    refine ⟨⟨by rw [hparams]; exact hread,by rw [hparams]⟩,?_⟩
    rw [QosFlowDescription.bytes,hparams,hrest,List.append_assoc]
  · rintro ⟨⟨hread,hparam⟩,rfl⟩
    refine ⟨d.head,d.params.flatMap QosFlowParameter.bytes++rest,trivial,?_,?_⟩
    · rw [QosFlowDescription.bytes,List.append_assoc]
    · refine (reads_readMany reads_readParameter _).bind_ok.mpr
        ⟨d.params,rest,⟨length_params d,hread⟩,rfl,?_⟩
      rw [← hparam]

theorem carried_bytes (p : QosFlowParameter) : p.carried.bytes=p.bytes := by
  unfold QosFlowParameter.bytes QosFlowParameter.valueBytes QosFlowParameter.carried
  split <;> rfl

theorem QosFlowParameter.Sound.read (hp : p.Sound) : p.carried.Read := by
  unfold QosFlowParameter.Read QosFlowParameter.Sound QosFlowParameter.carried at *
  by_cases hfive : p.identifier=fiveQi
  · simp only [if_pos hfive]
    exact ⟨hp,trivial⟩
  · simp only [if_neg hfive]
    exact ⟨hp,trivial⟩

theorem carried_params (d : QosFlowDescription) :
    d.carried.params=d.params.map QosFlowParameter.carried :=
  take_padded (by rw [List.length_map]; exact length_params d)

theorem QosFlowDescription.Sound.read (hd : d.Sound) : d.carried.Read where
  params := by
    rw [carried_params]
    intro p hp
    obtain ⟨q,hq,rfl⟩ := List.mem_map.mp hp
    exact (hd.params q hq).read
  param := by
    rw [carried_params]
    rfl

theorem carried_descriptionBytes (d : QosFlowDescription) : d.carried.bytes=d.bytes := by
  rw [QosFlowDescription.bytes,carried_params,List.flatMap_map,QosFlowDescription.bytes]
  exact congrArg _ (List.flatMap_congr fun p _ => carried_bytes p)

theorem length_parameterBytes (p : QosFlowParameter) : p.bytes.length≤5 := by
  unfold QosFlowParameter.bytes QosFlowParameter.valueBytes
  split
  · exact (by decide : 3≤5)
  · simp only [List.length_cons,length_netBytes]
    exact Nat.le_refl 5

theorem length_descriptionBytes (d : QosFlowDescription) : d.bytes.length≤43 := by
  have hparams:=length_flatMap_le QosFlowParameter.bytes d.params
    fun p _ => length_parameterBytes p
  have hlen:=length_params d
  have hmax : maxNumOfQosFlowParameter=8 := rfl
  rw [QosFlowDescription.bytes,List.length_append,Vector.length_toList]
  omega

/-- The descriptions come back, whenever the builder has room for them; it has for eight. -/
theorem qosFlowDescriptions_come_back (ds : List QosFlowDescription) (room : Nat) (hne : ds≠[])
    (hs : ∀ d∈ds,d.Sound) (hroom : ds.length ≤ room) :
    (∀ octets,buildQosFlowDescriptions ds = .ok octets →
      parseQosFlowDescriptions room octets = .ok (ds.map QosFlowDescription.carried)) ∧
    ((∃ octets,buildQosFlowDescriptions ds = .ok octets) ↔
      (ds.flatMap QosFlowDescription.bytes).length ≤ maxQosFlowDescriptionsLen) ∧
    (ds.length ≤ maxNumOfQosFlowDescription →
      ∃ octets,buildQosFlowDescriptions ds = .ok octets) := by
  have hbuild : (∃ octets,buildQosFlowDescriptions ds = .ok octets) ↔
      (ds.flatMap QosFlowDescription.bytes).length ≤ maxQosFlowDescriptionsLen := by
    constructor
    · rintro ⟨octets,hok⟩
      exact ((buildQosFlowDescriptions_ok hne hs).mp hok).1
    · intro hfits
      exact ⟨_,(buildQosFlowDescriptions_ok hne hs).mpr ⟨hfits,rfl⟩⟩
  refine ⟨fun octets hok => ?_,hbuild,fun hlen => hbuild.mpr ?_⟩
  · obtain ⟨-,rfl⟩ := (buildQosFlowDescriptions_ok hne hs).mp hok
    have hflat : (ds.map QosFlowDescription.carried).flatMap QosFlowDescription.bytes =
        ds.flatMap QosFlowDescription.bytes := by
      rw [List.flatMap_map]
      exact List.flatMap_congr fun d _ => carried_descriptionBytes d
    rw [parseQosFlowDescriptions,← hflat]
    refine readAll_flatMap reads_readDescription ?_ ?_ ?_
    · intro d hnil
      have hlen:=congrArg List.length hnil
      rw [QosFlowDescription.bytes,List.length_append,Vector.length_toList,
        List.length_nil] at hlen
      omega
    · intro d hd
      obtain ⟨d',hd',rfl⟩ := List.mem_map.mp hd
      exact (hs d' hd').read
    · rw [List.length_map]
      exact hroom
  · have hbytes:=length_flatMap_le QosFlowDescription.bytes ds
      fun d _ => length_descriptionBytes d
    have hnum : maxNumOfQosFlowDescription=8 := rfl
    have hmax : maxQosFlowDescriptionsLen=65535 := rfl
    omega

def gbrFlow : QosFlowDescription :=
  ⟨#v[5,32,67],padded .zero maxNumOfQosFlowParameter
    [⟨1,1,9,0⟩,⟨2,3,6,1000⟩,⟨3,3,6,2000⟩]⟩

theorem qosFlowDescriptions_come_back_gbrFlow :
    ∃ octets,buildQosFlowDescriptions [gbrFlow] = .ok octets ∧
      parseQosFlowDescriptions 8 octets = .ok [gbrFlow] := by
  have hsound : ∀ d∈[gbrFlow],d.Sound := by
    intro d hd
    obtain rfl := List.mem_singleton.mp hd
    exact ⟨by decide,by decide⟩
  have hback:=qosFlowDescriptions_come_back [gbrFlow] 8 (List.cons_ne_nil _ _) hsound (by decide)
  have hcarried : [gbrFlow].map QosFlowDescription.carried=[gbrFlow] := by decide
  obtain ⟨octets,hbuild⟩ := hback.2.2 (by decide)
  refine ⟨octets,hbuild,?_⟩
  rw [← hcarried]
  exact hback.1 octets hbuild

end OgsDp.Nas
