import OgsDp.Df.Dn3Path

/-!
# The relay of the DNF (src/dnf/gtpu-path.c, src/dnf/context.c)

What arrives at the DNF loses its first twelve octets, whatever its header is, and leaves behind
twelve new ones. The first of these is zero, as in what the DF sends.
-/

namespace OgsDp.Dnf
open OgsDp.Core Gtp Option
open Pfcp (PeerAddr)
open Df (Datagram headerSize)

def maxPktLen : Nat := 2048

structure Sess where
  teid : BitVec 32
  domfAddr : PeerAddr
  rxPackets : BitVec 64
  txPackets : BitVec 64
  rxBytes : BitVec 64
  txBytes : BitVec 64
  deriving DecidableEq

structure Context where
  sessList : List Sess
  deriving DecidableEq

def Context.sessFindByTeid (c : Context) (teid : BitVec 32) : Option Nat :=
  c.sessList.findIdx? (·.teid=teid)

def Sess.countRx (x : Sess) (len : Nat) : Sess :=
  { x with rxPackets := x.rxPackets+1,rxBytes := x.rxBytes+BitVec.ofNat 64 len }

def Sess.countTx (x : Sess) (len : Nat) : Sess :=
  { x with txPackets := x.txPackets+1,txBytes := x.txBytes+BitVec.ofNat 64 len }

/-- `dnf_forward_data`; `sendto` says whether the socket takes the datagram. -/
def Sess.forwardData (sendto : Datagram → Bool) (x : Sess) (pkbuf : Pkbuf) :
    Option (Sess × Datagram) :=
  let len:=pkbuf.data.length
  let gtpuH:=header 0 gpdu len x.teid
  (pkbuf.push headerSize).map fun sendbuf =>
    let sent : Datagram := ⟨x.domfAddr,gtpuH++sendbuf.data.drop headerSize⟩
    (if sendto sent then (x.countRx len).countTx len else x.countRx len,sent)

def handleEchoReq (pkb : Pkbuf) : Option (List Byte) :=
  let flags:=(pkb.byteAt 0).val
  let s:=flags.testBit 1
  let pn:=flags.testBit 0
  if flags / 32≠1 then none
  else if pkb.byteAt 1≠echoReq then none
  else
    let sequence := if s then [pkb.byteAt 8,pkb.byteAt 9] else [0,0]
    let npdu := if pn then [pkb.byteAt 10] else [0]
    let optional := if s || pn then sequence++npdu++[0] else []
    let answered:=48+(if s then 2 else 0) + if pn then 1 else 0
    some ([Fin.ofNat 256 answered,echoRsp]++netBytes 2 (optional.length+2) ++
      List.replicate 4 0++optional++[14,0])

def received (d : List Byte) : Pkbuf where
  headroom := []
  data := d.take maxPktLen
  tailroom := List.replicate (maxPktLen-d.length) 0

def Context.gtpuRecvCb (c : Context) (sendto : Datagram → Bool) (source : PeerAddr)
    (d : List Byte) : Option (Context × List Datagram) :=
  let pkbuf:=received d
  if pkbuf.data.length<headerSize then some (c,[])
  else
    let gtpuH:=pkbuf.data.take headerSize
    (pkbuf.pull headerSize).bind fun pkbuf =>
      match c.sessFindByTeid (BitVec.ofNat 32 (field gtpuH 4 4)) with
      | none => some (c,[])
      | some n =>
        if octet gtpuH 1=gpdu then
          (c.sessList[n]?).bind fun x =>
            (x.forwardData sendto pkbuf).map fun r =>
              ({ c with sessList := c.sessList.set n r.1 },[r.2])
        else if octet gtpuH 1=echoReq then
          some (c,(handleEchoReq pkbuf).toList.map (⟨source,·⟩))
        else some (c,[])

variable {c c' : Context} {sendto : Datagram → Bool} {source : PeerAddr} {d : List Byte}
  {x : Sess} {l n : Nat} {h : HeaderDesc}

def relayed (x : Sess) (d : List Byte) : List Byte :=
  header 0 gpdu (d.length-headerSize) x.teid++d.drop headerSize

def Sess.counted (sendto : Datagram → Bool) (x : Sess) (sent : Datagram) (len : Nat) : Sess :=
  if sendto sent then (x.countRx len).countTx len else x.countRx len

theorem sessFindByTeid_get (hfind : c.sessFindByTeid x.teid=some n) :
    ∃ y,c.sessList[n]?=some y ∧ y.teid=x.teid := by
  obtain ⟨hlt,hteid,-⟩ := List.findIdx?_eq_some_iff_getElem.mp hfind
  exact ⟨c.sessList[n],List.getElem?_eq_getElem hlt,of_decide_eq_true hteid⟩

theorem forwardData_pulled {b pulled : Pkbuf} (hb : b.pull headerSize=some pulled) :
    x.forwardData sendto pulled =
      some (x.counted sendto ⟨x.domfAddr,relayed x b.data⟩ (b.data.length-headerSize),
        ⟨x.domfAddr,relayed x b.data⟩) := by
  obtain ⟨pushed,hpush,hdata,hlen⟩ := Pkbuf.push_pulled hb
  unfold Sess.forwardData
  simp only [hpush,map_some,hdata,hlen]
  rfl

theorem gtpuRecvCb_gpdu (sendto : Datagram → Bool) (source : PeerAddr)
    (hlong : headerSize≤(received d).data.length)
    (htype : octet (received d).data 1=gpdu)
    (hfind : c.sessFindByTeid (BitVec.ofNat 32 (field (received d).data 4 4))=some n)
    (hx : c.sessList[n]?=some x) :
    c.gtpuRecvCb sendto source d =
      some ({ c with sessList := c.sessList.set n (x.counted sendto
          ⟨x.domfAddr,relayed x (received d).data⟩ ((received d).data.length-headerSize)) },
        [⟨x.domfAddr,relayed x (received d).data⟩]) := by
  have hoctet : octet ((received d).data.take headerSize) 1=octet (received d).data 1 := by
    simp only [octet,List.getElem?_take]
    rfl
  have hteid : field ((received d).data.take headerSize) 4 4=field (received d).data 4 4 := by
    simp only [field,List.drop_take,List.take_take]
    rfl
  have hpull : (received d).pull headerSize=some ⟨(received d).data.take headerSize,
      (received d).data.drop headerSize,(received d).tailroom⟩ := by
    rw [Pkbuf.pull,if_pos hlong]
    rfl
  unfold Context.gtpuRecvCb
  simp only [if_neg (Nat.not_lt.mpr hlong),hpull,bind_some,hoctet,hteid,hfind,htype,
    hx,if_true,forwardData_pulled hpull,map_some]

theorem length_relayed (x : Sess) (hlong : headerSize≤d.length) :
    (relayed x d).length=d.length := by
  have hsize : headerSize=12 := rfl
  rw [relayed,List.length_append,length_header,List.length_drop]
  omega

theorem relayed_parsed (x : Sess) (d : List Byte) :
    gtpuParseHeader (relayed x d)=some (8,⟨gpdu,0,x.teid,0,0,none,none⟩) :=
  gtpuParseHeader_header gpdu _ x.teid _

theorem relayed_payload (x : Sess) (d : List Byte) :
    (relayed x d).drop 8=List.replicate 4 0++d.drop 12 :=
  drop_header 0 gpdu _ x.teid _

theorem relayed_flags (x : Sess) (d : List Byte) : octet (relayed x d) 0=0 := rfl

theorem received_data (d : List Byte) : (received d).data=d.take maxPktLen := rfl

theorem octet_received (hi : n < maxPktLen) : octet (received d).data n=octet d n := by
  simp only [octet,received_data,List.getElem?_take,if_pos hi]

theorem field_received (hi : l+n ≤ maxPktLen) : field (received d).data l n=field d l n := by
  simp only [field,received_data,List.drop_take,List.take_take]
  rw [Nat.min_eq_left (by omega)]

/-- A G-PDU with the TEID, behind whose first `l` octets the payload begins. Its header says that
it is GTP version 1, and how much follows its first eight octets. -/
structure IsGpdu (teid : BitVec 32) (l : Nat) (out : List Byte) : Prop where
  parsed : ∃ h,gtpuParseHeader out=some (l,h) ∧ h.type=gpdu ∧ h.teid=teid
  version : (octet out 0).val / 32=1
  protocol : (octet out 0).val.testBit 4=true
  length : field out 2 2=out.length-8

/-- The datagram `d` makes the DNF send the payload to the DOMF and count it. -/
def RelaysPayload (c : Context) (sendto : Datagram → Bool) (source : PeerAddr) (d : List Byte)
    (n : Nat) (teid : BitVec 32) (payload : List Byte) : Prop :=
  ∃ c' out l x y,c.gtpuRecvCb sendto source d=some (c',[out]) ∧
    IsGpdu teid l out.data ∧ out.data.drop l=payload ∧
    c.sessList[n]?=some x ∧ c'.sessList[n]?=some y ∧ out.addr=x.domfAddr ∧
    y.rxPackets=x.rxPackets+1 ∧ y.rxBytes=x.rxBytes+BitVec.ofNat 64 payload.length

/-- The DNF sends one datagram for `d`, with the octets of `d` behind the first `l` as payload. -/
def KeepsPayload (c : Context) (sendto : Datagram → Bool) (source : PeerAddr) (d : List Byte)
    (l : Nat) : Prop :=
  ∃ c' out l' h',c.gtpuRecvCb sendto source d=some (c',[out]) ∧
    gtpuParseHeader out.data=some (l',h') ∧ out.data.drop l'=d.drop l

/-- A header of eight octets with four zeros behind it, or a packet longer than the buffer that
goes on behind its own header as the relayed one does. -/
def ShiftedAway (d : List Byte) (l : Nat) : Prop :=
  d.length ≤ maxPktLen ∧ l=8 ∧ (d.drop 8).take 4=List.replicate 4 0 ∨
    maxPktLen<d.length ∧ d.drop l=List.replicate 4 0++(d.drop 12).take (maxPktLen-12)

theorem shiftedAway_iff (hp : gtpuParseHeader d=some (l,h)) (hlong : headerSize≤d.length) :
    List.replicate 4 0++(received d).data.drop 12=d.drop l ↔ ShiftedAway d l := by
  have hsize : headerSize=12 := rfl
  obtain ⟨-,hl,-⟩ := gtpuParseHeader_start hp
  by_cases hmax : d.length ≤ maxPktLen
  · have hsplit : d.drop 8=(d.drop 8).take 4++d.drop 12 := by
      conv_lhs => rw [← List.take_append_drop 4 (d.drop 8),List.drop_drop]
    rw [received_data,List.take_of_length_le hmax]
    constructor
    · intro heq
      rcases hl with rfl | hl
      · rw [hsplit] at heq
        exact .inl ⟨hmax,rfl,(List.append_cancel_right heq).symm⟩
      · have hlen:=congrArg List.length heq
        simp only [List.length_append,List.length_replicate,List.length_drop] at hlen
        omega
    · rintro (⟨-,rfl,hzero⟩ | ⟨hbig,-⟩)
      · rw [hsplit,hzero]
      · exact absurd hmax (Nat.not_le.mpr hbig)
  · rw [received_data,List.drop_take]
    constructor
    · exact fun heq => .inr ⟨Nat.not_le.mp hmax,heq.symm⟩
    · rintro (⟨hle,-⟩ | ⟨-,heq⟩)
      · exact absurd hle hmax
      · exact heq.symm

theorem ShiftedAway.long (hs : ShiftedAway d l) : headerSize≤d.length := by
  have hsize : headerSize=12 := rfl
  have hmax : maxPktLen=2048 := rfl
  rcases hs with ⟨-,-,hzero⟩ | ⟨hbig,-⟩
  · have hlen:=congrArg List.length hzero
    simp only [List.length_take,List.length_drop,List.length_replicate] at hlen
    omega
  · omega

theorem keepsPayload_iff (hp : gtpuParseHeader d=some (l,h)) (htype : h.type=gpdu)
    (hfind : c.sessFindByTeid h.teid=some n) :
    KeepsPayload c sendto source d l ↔ ShiftedAway d l := by
  have hsize : headerSize=12 := rfl
  have hmax : maxPktLen=2048 := rfl
  obtain ⟨-,-,htype',hteid⟩ := gtpuParseHeader_start hp
  by_cases hlong : headerSize≤d.length
  · have hlong' : headerSize≤(received d).data.length := by
      rw [received_data,List.length_take]
      omega
    rw [htype] at htype'
    rw [hteid] at hfind
    obtain ⟨x,hx,-⟩ := sessFindByTeid_get (x := ⟨_,source,0,0,0,0⟩) hfind
    have hrecv:=gtpuRecvCb_gpdu sendto source hlong'
      ((octet_received (by decide)).trans htype'.symm)
      (by rw [field_received (by decide)]; exact hfind) hx
    rw [← shiftedAway_iff hp hlong]
    constructor
    · rintro ⟨c',out,l',h',hout,hparsed,hkept⟩
      rw [hrecv] at hout
      obtain ⟨rfl,hsent⟩ := Prod.mk.inj (some.inj hout)
      obtain rfl := List.head_eq_of_cons_eq hsent
      rw [relayed_parsed] at hparsed
      obtain ⟨rfl,-⟩ := Prod.mk.inj (some.inj hparsed)
      exact (relayed_payload x _).symm.trans hkept
    · intro hkept
      exact ⟨_,_,8,_,hrecv,relayed_parsed x _,(relayed_payload x _).trans hkept⟩
  · refine iff_of_false ?_ fun hs => hlong hs.long
    rintro ⟨c',out,l',h',hout,-,-⟩
    have hshort : (received d).data.length<headerSize := by
      rw [received_data,List.length_take]
      omega
    unfold Context.gtpuRecvCb at hout
    simp only [if_pos hshort] at hout
    exact absurd (Prod.mk.inj (some.inj hout)).2 (List.cons_ne_nil _ _).symm

theorem dn4ForwardToDnf_sent {addr : PeerAddr} {s : Df.Sess} {b : Pkbuf} {sent : List Datagram}
    {out : Datagram} (hsent : Df.dn4ForwardToDnf (some addr) s b=some sent) (hout : out∈sent) :
    out.data=header 0 gpdu b.data.length s.dn4Teid++b.data := by
  unfold Df.dn4ForwardToDnf Pkbuf.push at hsent
  simp only [isNone_some,Bool.false_eq_true,if_false] at hsent
  split at hsent
  · split at hsent
    · rename_i hroom
      obtain rfl := some.inj hsent
      have hnew : (b.headroom.drop (b.headroom.length-headerSize)).length=headerSize := by
        rw [List.length_drop]
        omega
      simp only [List.drop_left' hnew] at hout
      unfold Df.dn3Send at hout
      split at hout
      · cases hout
      · rw [List.mem_singleton.mp hout]
    · cases hsent
  · obtain rfl := some.inj hsent
    cases hout

theorem gtpuRecvCb_user {teid : BitVec 32} (payload : List Byte)
    (hfind : c.sessFindByTeid teid=some n) :
    ∃ x out y,c.sessList[n]?=some x ∧
      y=x.counted sendto out (min payload.length (maxPktLen-headerSize)) ∧
      c.gtpuRecvCb sendto source (header 0 gpdu payload.length teid++payload) =
        some ({ c with sessList := c.sessList.set n y },[out]) ∧
      (octet out.data 0).val / 32=0 ∧
      field out.data 2 2+4=out.data.length-8 ∧
      out.data.drop 8=List.replicate 4 0++payload.take (maxPktLen-headerSize) := by
  have hsize : headerSize=12 := rfl
  have hmax : maxPktLen=2048 := rfl
  have hlen : (received (header 0 gpdu payload.length teid++payload)).data.length =
      min payload.length (maxPktLen-headerSize)+headerSize := by
    rw [received_data,List.length_take,List.length_append,length_header]
    omega
  have hlong : headerSize≤(received (header 0 gpdu payload.length teid++payload)).data.length :=
    by omega
  have hteid : field (received (header 0 gpdu payload.length teid++payload)).data 4 4 =
      field (header 0 gpdu payload.length teid++payload) 4 4 := field_received (by decide)
  obtain ⟨x,hx,-⟩ := sessFindByTeid_get (x := ⟨teid,source,0,0,0,0⟩) hfind
  have hrecv:=gtpuRecvCb_gpdu sendto source hlong
    (octet_received (by decide)) (by rw [hteid,field_teid]; exact hfind) hx
  have hcount : min payload.length (maxPktLen-headerSize) =
      (received (header 0 gpdu payload.length teid++payload)).data.length-headerSize := by
    omega
  refine ⟨x,_,_,hx,rfl,hcount ▸ hrecv,?_,?_,?_⟩
  · rw [relayed_flags]
    rfl
  · rw [length_relayed x hlong,relayed,field_length,Nat.mod_eq_of_lt (by omega)]
    omega
  · have hdrop : (header 0 gpdu payload.length teid++payload).drop 12=payload :=
      List.drop_left' (length_header 0 gpdu payload.length teid)
    rw [relayed_payload,received_data,List.drop_take,hdrop]
    rfl

/-- No user payload from the DF is relayed as one; that of any other packet is kept exactly if it
is shifted away. -/
theorem payload_relayed (c : Context) (sendto : Datagram → Bool) (source : PeerAddr) (n : Nat) :
    (∀ addr s b sent out,Df.dn4ForwardToDnf (some addr) s b=some sent → out∈sent →
      c.sessFindByTeid s.dn4Teid=some n →
      ¬ RelaysPayload c sendto source out.data n s.dn4Teid b.data) ∧
    ∀ d l h,gtpuParseHeader d=some (l,h) → h.type=gpdu →
      c.sessFindByTeid h.teid=some n →
      (KeepsPayload c sendto source d l ↔ ShiftedAway d l) := by
  refine ⟨?_,fun d l h => keepsPayload_iff⟩
  rintro addr s b sent out hsent hout hfind ⟨c',out',l,x,y,hrecv,hgpdu,-⟩
  rw [dn4ForwardToDnf_sent hsent hout] at hrecv
  obtain ⟨x',out'',y',-,-,huser,hversion,-⟩ := gtpuRecvCb_user b.data hfind
  rw [huser] at hrecv
  obtain rfl := List.head_eq_of_cons_eq (Prod.mk.inj (some.inj hrecv)).2
  have hone:=hgpdu.version
  omega

def domf : PeerAddr := .inet (Vector.replicate 4 25)

def context1 : Context := ⟨[⟨1,domf,0,0,0,0⟩]⟩

def userPacket : Pkbuf := ⟨List.replicate 12 0,[69,0,0,4],[]⟩

def sessDn4 : Df.Sess := { Df.Sess.zero with forwardToDnf := true,dn4Teid := 1 }

def gpduSequence : List Byte := [50,255,0,8,0,0,0,1,0,7,0,0,69,0,0,4]

theorem userPacket_sent : Df.dn4ForwardToDnf (some Df.localhost) sessDn4 userPacket=some
    [⟨Df.localhost,[0,255,0,4,0,0,0,1,0,0,0,0,69,0,0,4]⟩] := by
  decide

theorem gpduSequence_parsed :
    gtpuParseHeader gpduSequence=some (12,⟨gpdu,50,1,0,0,none,none⟩) := by
  decide

theorem context1_find : context1.sessFindByTeid 1=some 0 := by decide

theorem payload_relayed_userPacket :
    ¬ RelaysPayload context1 (fun _ => true) Df.localhost
        [0,255,0,4,0,0,0,1,0,0,0,0,69,0,0,4] 0 1 [69,0,0,4] ∧
      (KeepsPayload context1 (fun _ => true) Df.localhost gpduSequence 12 ↔
        ShiftedAway gpduSequence 12) :=
  ⟨(payload_relayed context1 (fun _ => true) Df.localhost 0).1 Df.localhost sessDn4 userPacket _ _
      userPacket_sent (List.mem_singleton.mpr rfl) context1_find,
    (payload_relayed context1 (fun _ => true) Df.localhost 0).2 gpduSequence 12 _
      gpduSequence_parsed rfl context1_find⟩

/-- The four octets leave with four zeros before them, under version 0; those of the other sender
do so as well. -/
theorem payload_mangled :
    Df.dn4ForwardToDnf (some Df.localhost) sessDn4 userPacket =
        some [⟨Df.localhost,[0,255,0,4,0,0,0,1,0,0,0,0,69,0,0,4]⟩] ∧
      context1.gtpuRecvCb (fun _ => true) Df.localhost
          [0,255,0,4,0,0,0,1,0,0,0,0,69,0,0,4] =
        some (⟨[⟨1,domf,1,1,4,4⟩]⟩,
          [⟨domf,[0,255,0,4,0,0,0,1,0,0,0,0,69,0,0,4]⟩]) ∧
      ¬ RelaysPayload context1 (fun _ => true) Df.localhost
          [0,255,0,4,0,0,0,1,0,0,0,0,69,0,0,4] 0 1 [69,0,0,4] ∧
      gtpuParseHeader gpduSequence=some (12,⟨gpdu,50,1,0,0,none,none⟩) ∧
      ¬ KeepsPayload context1 (fun _ => true) Df.localhost gpduSequence 12 := by
  have hrecv : context1.gtpuRecvCb (fun _ => true) Df.localhost
      [0,255,0,4,0,0,0,1,0,0,0,0,69,0,0,4]=some (⟨[⟨1,domf,1,1,4,4⟩]⟩,
        [⟨domf,[0,255,0,4,0,0,0,1,0,0,0,0,69,0,0,4]⟩]) := by
    decide
  have hother : context1.gtpuRecvCb (fun _ => true) Df.localhost gpduSequence =
      some (⟨[⟨1,domf,1,1,4,4⟩]⟩,
        [⟨domf,[0,255,0,4,0,0,0,1,0,0,0,0,69,0,0,4]⟩]) := by
    decide
  refine ⟨userPacket_sent,hrecv,?_,gpduSequence_parsed,?_⟩
  · rintro ⟨c',out,l,x,y,hout,hgpdu,-⟩
    rw [hrecv] at hout
    obtain rfl := List.head_eq_of_cons_eq (Prod.mk.inj (some.inj hout)).2
    exact absurd hgpdu.version (by decide)
  · rintro ⟨c',out,l,h,hout,hparsed,hkept⟩
    rw [hother] at hout
    obtain rfl := List.head_eq_of_cons_eq (Prod.mk.inj (some.inj hout)).2
    have hlen:=congrArg List.length hkept
    have height : gtpuParseHeader [0,255,0,4,0,0,0,1,0,0,0,0,69,0,0,4] =
        some (8,⟨gpdu,0,1,0,0,none,none⟩) := by
      decide
    rw [height] at hparsed
    obtain ⟨rfl,-⟩ := Prod.mk.inj (some.inj hparsed)
    revert hlen
    decide

end OgsDp.Dnf
