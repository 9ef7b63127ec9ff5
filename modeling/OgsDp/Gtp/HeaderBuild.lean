import OgsDp.Gtp.ParseSafety

/-!
# The header of a GTP-U packet is found again (lib/gtp/v2/build.c, lib/gtp/util.c)

Each extension header is written without its type, which goes to the last octet of what stands
before it. From the twelfth octet on that is the array itself.
-/

namespace OgsDp.Gtp
open OgsDp.Core Option

/-- An entry of `array` of `ogs_gtp2_extension_header_t`, with the two octets of its union. -/
structure ExtHeader where
  type : Byte
  len : Byte
  content0 : Byte
  content1 : Byte
  deriving DecidableEq

namespace ExtHeader

def zero : ExtHeader := ⟨0,0,0,0⟩

def bytes (e : ExtHeader) : List Byte := [e.type,e.len,e.content0,e.content1]

end ExtHeader

structure HeaderFields where
  flags : Byte
  type : Byte
  teid : BitVec 32
  deriving DecidableEq

def errInd : Byte := 26

/-- The octets of the extension headers; `none` if there is no entry without a length. -/
def extensionLen : List ExtHeader → Option Nat
  | [] => none
  | e::es => if e.len=0 then some 0 else (extensionLen es).map (e.len.val*4 + ·)

/-- What the loop of `ogs_gtp2_fill_header` writes into the `room` octets that are left; `none`
where it leaves the array or the header. -/
def fillExtensions : Nat → List ExtHeader → Option (List Byte)
  | 0, _ => some []
  | room+1, [] => some (List.replicate (room+1) 0)
  | room+1, e::es =>
    let len:=e.len.val*4
    let content:=((e::es).flatMap ExtHeader.bytes).drop 1
    if len=0 ∨ room+1<len ∨ content.length<len-1 then none
    else
      match es with
      | [] => none
      | next::_ =>
        (fillExtensions (room+1-len) es).map fun rest =>
          content.take (len-1)++(if next.len=0 then 0 else next.type)::rest

def filledFlags (g : HeaderFields) (array : Vector ExtHeader 8) : Byte :=
  Fin.ofNat 256 (g.flags.val ||| 48 |||
    if array[0].type≠0 ∧ array[0].len≠0 then 4 else 0)

/-- `gtp_hlen`, an `uint8_t`. -/
def headerLen (flags : Byte) (array : Vector ExtHeader 8) : Option Nat :=
  if flags.val.testBit 2 then (extensionLen array.toList).map fun n => (12+n) % 256
  else some (if flags.val.testBit 1 || flags.val.testBit 0 then 12 else 8)

def fillHeader (g : HeaderFields) (array : Vector ExtHeader 8) (pkbuf : Pkbuf) : Option Pkbuf :=
  let flags:=filledFlags g array
  (headerLen flags array).bind fun hlen =>
    (pkbuf.push hlen).bind fun pushed =>
      if (g.type=echoReq ∨ g.type=echoRsp ∨ g.type=errInd) ∧ g.teid≠0 then none
      else
        let start:=[flags,g.type]++netBytes 2 (pushed.data.length-8) ++
          netBytes 4 g.teid.toNat
        if flags.val.testBit 2 then
          if hlen<12 then none
          else
            (fillExtensions (hlen-12) array.toList).map fun exts =>
              { pushed with
                data := start++List.replicate 3 (0 : Byte)++array[0].type::exts ++
                  pushed.data.drop hlen }
        else
          some { pushed with
            data := start++List.replicate (hlen-8) (0 : Byte)++pushed.data.drop hlen }

def extArray (exts : List ExtHeader) : Vector ExtHeader 8 :=
  Vector.ofFn fun i => exts.getD i.val .zero

variable {exts : List ExtHeader} {e : ExtHeader} {g : HeaderFields} {b b' : Pkbuf}
  {room n : Nat} {h : HeaderDesc} {payload : List Byte}

def UnitLength (exts : List ExtHeader) : Prop := ∀ e∈exts,e.len=1 ∧ e.type≠0

theorem extArray_toList (hle : exts.length≤8) :
    (extArray exts).toList=exts++List.replicate (8-exts.length) ExtHeader.zero := by
  apply List.ext_getElem
  · simp only [Vector.length_toList,List.length_append,List.length_replicate]
    omega
  · intro i hi hi'
    simp only [Vector.length_toList] at hi
    simp only [extArray,Vector.getElem_toList,Vector.getElem_ofFn,List.getElem_append]
    split
    · rename_i hlt
      rw [List.getD_eq_getElem?_getD,List.getElem?_eq_getElem hlt]
      rfl
    · rename_i hge
      rw [List.getD_eq_getElem?_getD,List.getElem?_eq_none (Nat.not_lt.mp hge),
        List.getElem_replicate]
      rfl

theorem length_extBytes (exts : List ExtHeader) :
    (exts.flatMap ExtHeader.bytes).length=4*exts.length := by
  induction exts with
  | nil => rfl
  | cons e es ih =>
    rw [List.flatMap_cons,List.length_append,ih,List.length_cons]
    show 4+4*es.length=_
    omega

theorem extensionLen_unit (hu : UnitLength exts) (n : Nat) :
    extensionLen (exts++List.replicate (n+1) ExtHeader.zero)=some (4*exts.length) := by
  induction exts with
  | nil => rfl
  | cons e es ih =>
    have hlen : e.len=1 := (hu e (List.mem_cons_self ..)).1
    rw [List.cons_append,extensionLen,hlen,if_neg (by decide),
      ih fun e' he' => hu e' (List.mem_cons_of_mem e he')]
    show some (1*4+4*es.length)=some (4*(es.length+1))
    congr 1
    omega

theorem fillExtensions_unit (hu : UnitLength exts) (n : Nat) :
    ∃ body,
      fillExtensions (4*exts.length) (exts++List.replicate (n+1) ExtHeader.zero)=some body ∧
      ((exts.head?.map ExtHeader.type).getD 0)::body=exts.flatMap ExtHeader.bytes++[0] := by
  induction exts with
  | nil => exact ⟨[],rfl,rfl⟩
  | cons e es ih =>
    obtain ⟨rest,hrest,hbody⟩ := ih fun e' he' => hu e' (List.mem_cons_of_mem e he')
    have hlen : e.len=1 := (hu e (List.mem_cons_self ..)).1
    have hnext : ∃ next more,es++List.replicate (n+1) ExtHeader.zero=next::more ∧
        (if next.len=0 then 0 else next.type)=(es.head?.map ExtHeader.type).getD 0 := by
      cases es with
      | nil => exact ⟨_,_,rfl,rfl⟩
      | cons f fs =>
        have hf : f.len=1 := (hu f (List.mem_cons_of_mem e (List.mem_cons_self ..))).1
        exact ⟨f,_,rfl,by rw [hf]; rfl⟩
    obtain ⟨next,more,hsplit,htype⟩ := hnext
    refine ⟨[1,e.content0,e.content1]++(es.head?.map ExtHeader.type).getD 0::rest,?_,?_⟩
    · have hroom : 4*(e::es).length=4*es.length+3+1 := by
        rw [List.length_cons]
        omega
      rw [hroom,List.cons_append,hsplit,fillExtensions]
      simp only [hlen]
      rw [if_neg,← hsplit]
      · show (fillExtensions (4*es.length+3+1-4) _).map _=_
        have hback : 4*es.length+3+1-4=4*es.length := by omega
        rw [hback,hrest,htype]
        simp [ExtHeader.bytes,hlen]
      · simp [ExtHeader.bytes]
    · simp [ExtHeader.bytes,hlen,← hbody]

def HeaderDesc.extendAll (h : HeaderDesc) (exts : List ExtHeader) : HeaderDesc :=
  exts.foldl (fun h e => h.extend e.bytes) h

theorem extensions_unit (room : Nat) (hu : UnitLength exts) (hn : 0<n) (hroom : exts.length < room)
    {d : List Byte}
    (hd : d.drop (n-1)=exts.flatMap ExtHeader.bytes++0::payload) :
    extensions d room n h=some (n+4*exts.length,h.extendAll exts) := by
  induction exts generalizing n room h with
  | nil =>
    obtain ⟨room,rfl⟩ : ∃ r,room=r+1 := ⟨room-1,by omega⟩
    have hlast : octet d (n-1)=0 := by
      have hget:=congrArg (·[0]?) hd
      simp only [List.getElem?_drop,List.flatMap_nil,List.nil_append,Nat.add_zero] at hget
      rw [octet,hget]
      rfl
    rw [extensions,if_pos hlast]
    rfl
  | cons e es ih =>
    obtain ⟨room,rfl⟩ : ∃ r,room=r+1 := ⟨room-1,by omega⟩
    obtain ⟨hlen,htype⟩ := hu e (List.mem_cons_self ..)
    rw [List.flatMap_cons,List.append_assoc] at hd
    have hget : ∀ i,d[n-1+i]? =
        (e.bytes++(es.flatMap ExtHeader.bytes++0::payload))[i]? := fun i => by
      rw [← hd,List.getElem?_drop]
    have hfirst : octet d (n-1)=e.type := by
      have hzero:=hget 0
      rw [Nat.add_zero] at hzero
      rw [octet,hzero]
      rfl
    have hunit : octet d n=1 := by
      have hone:=hget 1
      rw [show n-1+1=n by omega] at hone
      rw [octet,hone,← hlen]
      rfl
    have hcontent : (d.drop (n-1)).take 4=e.bytes := by
      rw [hd]
      exact List.take_left' rfl
    have hnext : d.drop (n+4-1)=es.flatMap ExtHeader.bytes++0::payload := by
      rw [show n+4-1=n-1+4 by omega,← List.drop_drop,hd]
      exact List.drop_left' rfl
    have hlong : n+4≤d.length := by
      have hlen':=congrArg List.length hnext
      simp only [List.length_drop,List.length_append,List.length_cons] at hlen'
      omega
    rw [extensions,if_neg (hfirst ▸ htype),hunit,hcontent]
    simp only [List.length_cons] at hroom ⊢
    have hgood : ¬ ((1 : Byte).val=0 ∨ 4<(1 : Byte).val*4 ∨
        d.length<n+(1 : Byte).val*4) := by
      rintro (h0 | h4 | hshort)
      · exact absurd h0 (by decide)
      · exact absurd h4 (by decide)
      · exact absurd hlong (Nat.not_le.mpr hshort)
    rw [if_neg hgood]
    have hih:=ih room (h := h.extend e.bytes) (fun e' he' => hu e' (List.mem_cons_of_mem e he'))
      (show 0<n+4 by omega) (show es.length < room by omega) hnext
    refine hih.trans ?_
    rw [show n+4+4*es.length=n+4*(es.length+1) by omega]
    rfl

namespace ExtHeader

def udpPort (e : ExtHeader) : Option (BitVec 16) :=
  if e.type=0x40 then some (BitVec.ofNat 16 (netValue [e.content0,e.content1])) else none

def pdcpNumber (e : ExtHeader) : Option (BitVec 16) :=
  if e.type=0xc0 then some (BitVec.ofNat 16 (netValue [e.content0,e.content1])) else none

def ulQfi (e : ExtHeader) : Option Byte :=
  if e.type=0x85 ∧ e.content0.val / 16=1 then some (Fin.ofNat 256 (e.content1.val % 64))
  else none

end ExtHeader

theorem extend_fields (h : HeaderDesc) (e : ExtHeader) :
    (h.extend e.bytes).udp=e.udpPort.elim h.udp some ∧
      (h.extend e.bytes).pdcpNumber=e.pdcpNumber.elim h.pdcpNumber some ∧
      (h.extend e.bytes).qosFlowIdentifier=e.ulQfi.elim h.qosFlowIdentifier id := by
  have htype : octet e.bytes 0=e.type := rfl
  unfold HeaderDesc.extend
  rw [htype]
  split
  · rename_i hpdu
    have hval : e.type=0x85 := Fin.ext hpdu
    have hudp : e.udpPort=none := if_neg (by rw [hval]; decide)
    have hpdcp : e.pdcpNumber=none := if_neg (by rw [hval]; decide)
    have hnibble : (Fin.ofNat 256 ((octet e.bytes 2).val / 16) : Byte)=1 ↔
        e.content0.val / 16=1 := by
      have hlt:=e.content0.isLt
      have hval : (Fin.ofNat 256 (e.content0.val / 16) : Byte).val=e.content0.val / 16 :=
        Nat.mod_eq_of_lt (by omega)
      rw [Fin.ext_iff]
      exact iff_of_eq (congrArg (· = 1) hval)
    rw [hudp,hpdcp]
    by_cases hul : e.content0.val / 16=1
    · have hqfi : e.ulQfi=some (Fin.ofNat 256 (e.content1.val % 64)) := if_pos ⟨hval,hul⟩
      rw [hqfi,if_pos (hnibble.mpr hul)]
      exact ⟨rfl,rfl,rfl⟩
    · have hqfi : e.ulQfi=none := if_neg fun hboth => hul hboth.2
      rw [hqfi,if_neg fun hone => hul (hnibble.mp hone)]
      exact ⟨rfl,rfl,rfl⟩
  · rename_i hudp
    have hval : e.type=0x40 := Fin.ext hudp
    rw [ExtHeader.udpPort,if_pos hval,ExtHeader.pdcpNumber,if_neg (by rw [hval]; decide),
      ExtHeader.ulQfi,if_neg (by rw [hval]; exact fun hboth => absurd hboth.1 (by decide))]
    exact ⟨rfl,rfl,rfl⟩
  · rename_i hpdcp
    have hval : e.type=0xc0 := Fin.ext hpdcp
    rw [ExtHeader.pdcpNumber,if_pos hval,ExtHeader.udpPort,if_neg (by rw [hval]; decide),
      ExtHeader.ulQfi,if_neg (by rw [hval]; exact fun hboth => absurd hboth.1 (by decide))]
    exact ⟨rfl,rfl,rfl⟩
  · rename_i hpdu hudp hpdcp
    have hpdu' : ¬ (e.type=0x85 ∧ e.content0.val / 16=1) := fun hboth =>
      hpdu (congrArg Fin.val hboth.1)
    rw [ExtHeader.udpPort,if_neg fun hval => hudp (congrArg Fin.val hval),ExtHeader.pdcpNumber,
      if_neg fun hval => hpdcp (congrArg Fin.val hval),ExtHeader.ulQfi,if_neg hpdu']
    exact ⟨rfl,rfl,rfl⟩

theorem foldl_last {α β V W : Type} {step : β → α → β} {kind : α → Option V} (get : β → W)
    (put : V → W) (hstep : ∀ b a,get (step b a)=(kind a).elim (get b) put) (as : List α)
    (b : β) :
    get (as.foldl step b)=(as.filterMap kind).getLast?.elim (get b) put := by
  induction as generalizing b with
  | nil => rfl
  | cons a as ih =>
    rw [List.foldl_cons,ih,hstep,List.filterMap_cons]
    cases hkind : kind a with
    | none => rfl
    | some v =>
      simp only [List.getLast?_cons]
      cases (as.filterMap kind).getLast? with
      | none => rfl
      | some w => rfl

theorem extArray_first (exts : List ExtHeader) : (extArray exts)[0]=exts.getD 0 .zero := by
  simp only [extArray,Vector.getElem_ofFn]

theorem filledFlags_val (g : HeaderFields) (array : Vector ExtHeader 8) :
    (filledFlags g array).val=g.flags.val ||| 48 |||
      if array[0].type≠0 ∧ array[0].len≠0 then 4 else 0 := by
  have hsplit : (if array[0].type≠0 ∧ array[0].len≠0 then 4 else 0)<2^8 := by
    split <;> decide
  exact Nat.mod_eq_of_lt (Nat.or_lt_two_pow (Nat.or_lt_two_pow g.flags.isLt (by decide)) hsplit)

theorem filledFlags_e (hu : UnitLength exts) (hne : exts≠[]) :
    (filledFlags g (extArray exts)).val.testBit 2=true := by
  obtain ⟨e,es,rfl⟩ := List.exists_cons_of_ne_nil hne
  obtain ⟨hlen,htype⟩ := hu e (List.mem_cons_self ..)
  have hfirst : (extArray (e::es))[0]=e := extArray_first (e::es)
  rw [filledFlags_val,hfirst,if_pos ⟨htype,by rw [hlen]; decide⟩,Nat.testBit_or]
  exact Bool.or_true _

def filledLen (g : HeaderFields) (exts : List ExtHeader) : Nat :=
  let flags:=(filledFlags g (extArray exts)).val
  if flags.testBit 2 then 12+4*exts.length
  else if flags.testBit 1 || flags.testBit 0 then 12 else 8

theorem headerLen_unit (hu : UnitLength exts) (hle : exts.length≤7) :
    headerLen (filledFlags g (extArray exts)) (extArray exts)=some (filledLen g exts) := by
  by_cases he : (filledFlags g (extArray exts)).val.testBit 2=true
  · have hrest : 8-exts.length=7-exts.length+1 := by omega
    simp only [headerLen,filledLen,if_pos he]
    rw [extArray_toList (by omega),hrest,extensionLen_unit hu,map_some,
      Nat.mod_eq_of_lt (by omega)]
  · simp only [headerLen,filledLen,if_neg he]

theorem push_data {b pushed : Pkbuf} (hb : b.push n=some pushed) :
    pushed.data.length=n+b.data.length ∧ pushed.data.drop n=b.data ∧
      pushed.headroom.length+n=b.headroom.length := by
  unfold Pkbuf.push at hb
  split at hb
  · rename_i hroom
    obtain rfl := some.inj hb
    have hnew : (b.headroom.drop (b.headroom.length-n)).length=n := by
      rw [List.length_drop]
      omega
    refine ⟨?_,List.drop_left' hnew,?_⟩
    · rw [List.length_append,hnew]
    · simp only [List.length_take]
      omega
  · cases hb

theorem fillHeader_data (hu : UnitLength exts) (hle : exts.length≤7)
    (hfill : fillHeader g (extArray exts) b=some b') :
    ∃ start,start=[filledFlags g (extArray exts),g.type] ++
        netBytes 2 (b'.data.length-8)++netBytes 4 g.teid.toNat ∧
      b'.headroom.length+filledLen g exts=b.headroom.length ∧
      ((filledFlags g (extArray exts)).val.testBit 2=true ∧
          b'.data=start++(List.replicate 3 0++(exts.flatMap ExtHeader.bytes++0::b.data)) ∨
        (filledFlags g (extArray exts)).val.testBit 2=false ∧
          b'.data=start++(List.replicate (filledLen g exts-8) 0++b.data)) := by
  unfold fillHeader at hfill
  simp only [headerLen_unit hu hle,bind_some] at hfill
  obtain ⟨pushed,hpush,hfill⟩ := bind_eq_some_iff.mp hfill
  obtain ⟨hlen,hdrop,hroom⟩ := push_data hpush
  split at hfill
  · cases hfill
  · by_cases he : (filledFlags g (extArray exts)).val.testBit 2=true
    · have hn : filledLen g exts=12+4*exts.length := by
        simp only [filledLen,if_pos he]
      have hshort : ¬ filledLen g exts<12 := by omega
      obtain ⟨body,hbody,hbytes⟩ := fillExtensions_unit hu (7-exts.length)
      have hrest : (extArray exts).toList =
          exts++List.replicate (7-exts.length+1) ExtHeader.zero := by
        rw [extArray_toList (by omega)]
        congr 2
        omega
      have hback : filledLen g exts-12=4*exts.length := by omega
      rw [if_pos he,if_neg hshort,hback,hrest,hbody,map_some] at hfill
      obtain rfl := some.inj hfill
      have htype : (extArray exts)[0].type=(exts.head?.map ExtHeader.type).getD 0 := by
        rw [extArray_first]
        cases exts <;> rfl
      have hall : (extArray exts)[0].type::body++b.data =
          exts.flatMap ExtHeader.bytes++0::b.data := by
        rw [htype,hbytes,List.append_assoc]
        rfl
      refine ⟨_,rfl,hroom,.inl ⟨he,?_⟩⟩
      simp only [hdrop,List.append_assoc,hall,List.length_append,List.length_cons,
        List.length_nil,length_netBytes,List.length_replicate,length_extBytes,hlen]
      congr 4
      omega
    · have hn : filledLen g exts=12 ∨ filledLen g exts=8 := by
        simp only [filledLen,if_neg he]
        split
        · exact .inl rfl
        · exact .inr rfl
      rw [if_neg he] at hfill
      obtain rfl := some.inj hfill
      refine ⟨_,rfl,hroom,.inr ⟨Bool.eq_false_iff.mpr he,?_⟩⟩
      simp only [hdrop,List.append_assoc,List.length_append,List.length_cons,
        List.length_nil,length_netBytes,List.length_replicate,hlen]
      congr 3
      omega

/-- The descriptor says what the header was filled with. -/
structure Described (g : HeaderFields) (exts : List ExtHeader) (h : HeaderDesc) : Prop where
  type : h.type=g.type
  teid : h.teid=g.teid
  udp : h.udp=(exts.filterMap ExtHeader.udpPort).getLast?
  pdcpNumber : h.pdcpNumber=(exts.filterMap ExtHeader.pdcpNumber).getLast?
  qosFlowIdentifier :
    h.qosFlowIdentifier=((exts.filterMap ExtHeader.ulQfi).getLast?).getD 0

theorem described_extendAll {h : HeaderDesc} (htype : h.type=g.type) (hteid : h.teid=g.teid)
    (hudp : h.udp=none) (hpdcp : h.pdcpNumber=none) (hqfi : h.qosFlowIdentifier=0) :
    Described g exts (h.extendAll exts) := by
  have hstart : ∀ h : HeaderDesc, (h.extendAll exts).type=h.type ∧
      (h.extendAll exts).teid=h.teid := by
    induction exts with
    | nil => exact fun h => ⟨rfl,rfl⟩
    | cons e es ih =>
      intro h
      obtain ⟨htype,hteid⟩ := extend_start h e.bytes
      obtain ⟨htype',hteid'⟩ := ih (h.extend e.bytes)
      exact ⟨htype'.trans htype,hteid'.trans hteid⟩
  have hudp':=foldl_last HeaderDesc.udp some
    (fun h e => (extend_fields h e).1) exts h
  have hpdcp':=foldl_last HeaderDesc.pdcpNumber some
    (fun h e => (extend_fields h e).2.1) exts h
  have hqfi':=foldl_last HeaderDesc.qosFlowIdentifier id
    (fun h e => (extend_fields h e).2.2) exts h
  rw [hudp] at hudp'
  rw [hpdcp] at hpdcp'
  rw [hqfi] at hqfi'
  refine ⟨(hstart h).1.trans htype,(hstart h).2.trans hteid,hudp'.trans ?_,hpdcp'.trans ?_,
    hqfi'.trans ?_⟩
  · cases (exts.filterMap ExtHeader.udpPort).getLast? <;> rfl
  · cases (exts.filterMap ExtHeader.pdcpNumber).getLast? <;> rfl
  · cases (exts.filterMap ExtHeader.ulQfi).getLast? <;> rfl

def ulSession : ExtHeader := ⟨0x85,1,0x10,9⟩

def udpPort2152 : ExtHeader := ⟨0x40,1,0x08,0x68⟩

def tPdu : Pkbuf := ⟨List.replicate 40 0,[69,0,0,4],[]⟩

end OgsDp.Gtp
