import OgsDp.Df.SessionTable
import OgsDp.Gtp.Util

/-!
# User packets from DN3 to DN4 (src/df/dn3-path.c, src/df/context.c)

What arrives on DN3 loses its first twelve octets, whatever its header is, and gets twelve new
ones.
-/

namespace OgsDp.Df
open OgsDp.Core Gtp Option
open Pfcp (PeerAddr EstablishmentRequest)

structure Datagram where
  addr : PeerAddr
  data : List Byte
  deriving DecidableEq

def maxSduLen : Nat := 32768

def headerSize : Nat := 12

def dn3Send (addr : Option PeerAddr) (data : List Byte) : List Datagram :=
  match addr with
  | none => []
  | some a => if data.length=0 then [] else [⟨a,data⟩]

/-- `df_dn4_forward_to_dnf`; `none` where an assertion fails. -/
def dn4ForwardToDnf (dn4Addr : Option PeerAddr) (x : Sess) (pkbuf : Pkbuf) :
    Option (List Datagram) :=
  if dn4Addr.isNone then none
  else if x.forwardToDnf then
    let gtpuH:=header 0 gpdu pkbuf.data.length x.dn4Teid
    (pkbuf.push headerSize).map fun sendbuf =>
      dn3Send dn4Addr (gtpuH++sendbuf.data.drop headerSize)
  else some []

def dn3SendEchoResponse (addr : PeerAddr) (teid : BitVec 32) : List Datagram :=
  dn3Send (some addr) (header 32 echoRsp 0 teid)

def received (d : List Byte) : Pkbuf where
  headroom := []
  data := d.take maxSduLen
  tailroom := List.replicate (maxSduLen-d.length) 0

def dn3RecvCb (c : Context) (dn4Addr : Option PeerAddr) (source : PeerAddr) (d : List Byte) :
    Option (List Datagram) :=
  let pkbuf:=received d
  if pkbuf.data.length<headerSize then some []
  else
    let gtpuH:=pkbuf.data.take headerSize
    let teid:=BitVec.ofNat 32 (field gtpuH 4 4)
    (pkbuf.pull headerSize).bind fun pkbuf =>
      if (octet gtpuH 0).val / 32≠1 then some []
      else
        match c.sessFindByTeid teid with
        | none => some []
        | some n =>
          if octet gtpuH 1=gpdu then dn4ForwardToDnf dn4Addr (c.sess n) pkbuf
          else if octet gtpuH 1=echoReq then some (dn3SendEchoResponse source teid)
          else some []

/-- The packet of `out` is that of `d`, with the TEID of the session. -/
def Carries (teid : BitVec 32) (d out : List Byte) : Prop :=
  ∃ l h l' h',gtpuParseHeader d=some (l,h) ∧ gtpuParseHeader out=some (l',h') ∧
    h'.type=gpdu ∧ h'.teid=teid ∧ out.drop l'=d.drop l ∧ field out 2 2=out.length-8

variable {c : Context} {dn4Addr : Option PeerAddr} {addr source : PeerAddr} {d : List Byte}
  {l n : Nat} {h : HeaderDesc}

def forwarded (x : Sess) (d : List Byte) : List Byte :=
  header 0 gpdu (d.length-headerSize) x.dn4Teid++d.drop headerSize

theorem dn4ForwardToDnf_pulled {x : Sess} {b pulled : Pkbuf} (hx : x.forwardToDnf=true)
    (hb : b.pull headerSize=some pulled) :
    dn4ForwardToDnf (some addr) x pulled=some [⟨addr,forwarded x b.data⟩] := by
  obtain ⟨pushed,hpush,hdata,hlen⟩ := Pkbuf.push_pulled hb
  unfold dn4ForwardToDnf
  simp only [isNone_some,Bool.false_eq_true,if_false,hx,if_true,hpush,
    map_some,hdata,hlen]
  rw [dn3Send,if_neg (by simp)]
  rfl

theorem dn3RecvCb_gpdu (hlong : headerSize≤(received d).data.length)
    (hversion : (octet (received d).data 0).val / 32=1)
    (htype : octet (received d).data 1=gpdu)
    (hsess : c.sessFindByTeid (BitVec.ofNat 32 (field (received d).data 4 4))=some n)
    (hforward : (c.sess n).forwardToDnf=true) :
    dn3RecvCb c (some addr) source d =
      some [⟨addr,forwarded (c.sess n) (received d).data⟩] := by
  have hoctet : ∀ i,i<headerSize →
      octet ((received d).data.take headerSize) i=octet (received d).data i := by
    intro i hi
    simp only [octet,List.getElem?_take,if_pos hi]
  have hteid : field ((received d).data.take headerSize) 4 4=field (received d).data 4 4 := by
    simp only [field,List.drop_take,List.take_take]
    rfl
  have hpull : (received d).pull headerSize=some ⟨(received d).data.take headerSize,
      (received d).data.drop headerSize,(received d).tailroom⟩ := by
    rw [Pkbuf.pull,if_pos hlong]
    rfl
  unfold dn3RecvCb
  simp only [if_neg (Nat.not_lt.mpr hlong),hpull,bind_some,hoctet 0 (by decide),
    hoctet 1 (by decide),hversion,hteid,hsess,htype,ne_eq,not_true,if_false,if_true]
  exact dn4ForwardToDnf_pulled hforward hpull

theorem length_forwarded (x : Sess) (hlong : headerSize≤d.length) :
    (forwarded x d).length=d.length := by
  have hsize : headerSize=12 := rfl
  rw [forwarded,List.length_append,length_header,List.length_drop]
  omega

theorem forwarded_length_field (x : Sess) (hlong : headerSize≤d.length)
    (hmax : d.length ≤ maxSduLen) :
    field (forwarded x d) 2 2+4=(forwarded x d).length-8 := by
  have hsize : headerSize=12 := rfl
  have hsdu : maxSduLen=32768 := rfl
  rw [length_forwarded x hlong,forwarded,field_length,Nat.mod_eq_of_lt (by omega)]
  omega

/-- No G-PDU for a session is carried on: the length field of what is sent does not match. -/
theorem gpdu_not_carried (hparse : gtpuParseHeader (received d).data=some (l,h))
    (htype : h.type=gpdu) (hsess : c.sessFindByTeid h.teid=some n)
    (hforward : (c.sess n).forwardToDnf=true) :
    ¬ ∃ sent out,dn3RecvCb c (some addr) source d=some sent ∧ out∈sent ∧
      Carries (c.sess n).dn4Teid (received d).data out.data := by
  rintro ⟨sent,out,hsent,hout,l',h₁,l'',h₂,-,-,-,-,-,hfield⟩
  obtain ⟨-,-,htype',hteid'⟩ := gtpuParseHeader_start hparse
  rw [htype] at htype'
  rw [hteid'] at hsess
  by_cases hlong : headerSize≤(received d).data.length
  · by_cases hversion : (octet (received d).data 0).val / 32=1
    · rw [dn3RecvCb_gpdu hlong hversion htype'.symm hsess hforward] at hsent
      obtain rfl := some.inj hsent
      obtain rfl := List.mem_singleton.mp hout
      have hmax : (received d).data.length ≤ maxSduLen := List.length_take_le ..
      have hwrong:=forwarded_length_field (c.sess n) hlong hmax
      simp only at hfield
      omega
    · have hnone : dn3RecvCb c (some addr) source d=some [] := by
        have hoctet : octet ((received d).data.take headerSize) 0=octet (received d).data 0 := by
          simp only [octet,List.getElem?_take]
          rfl
        unfold dn3RecvCb
        simp only [if_neg (Nat.not_lt.mpr hlong),Pkbuf.pull,if_pos hlong,bind_some,
          hoctet,ne_eq,if_pos hversion]
      rw [hnone] at hsent
      obtain rfl := some.inj hsent
      cases hout
  · have hnone : dn3RecvCb c (some addr) source d=some [] := by
      unfold dn3RecvCb
      exact if_pos (Nat.not_le.mp hlong)
    rw [hnone] at hsent
    obtain rfl := some.inj hsent
    cases hout

def establishmentTeid : EstablishmentRequest :=
  { establishment1 with
    createPdr := [some ⟨⟨some 1,none,some ⟨some 0,none,some [1,0,0,0,5,127,0,0,1],none⟩,
      none,[],none⟩,none,none,[],[]⟩] }

def contextTeid : Context :=
  (context1.handleRequest handlerEnv0 0 (.establishment establishmentTeid)).state

def gpduTeid : List Byte := [48,255,0,8,0,0,0,5,69,0,0,8,1,2,3,4]

def localhost : PeerAddr := .inet (Vector.replicate 4 127)

theorem gpduTeid_parsed :
    gtpuParseHeader (received gpduTeid).data=some (8,⟨gpdu,48,5,0,0,none,none⟩) := by
  decide

theorem gpduTeid_session :
    contextTeid.sessFindByTeid 5=some 0 ∧ (contextTeid.sess 0).forwardToDnf=true := by
  decide

theorem gpdu_not_carried_teid :
    ¬ ∃ sent out,dn3RecvCb contextTeid (some localhost) localhost gpduTeid=some sent ∧
      out∈sent ∧ Carries (contextTeid.sess 0).dn4Teid (received gpduTeid).data out.data :=
  gpdu_not_carried gpduTeid_parsed rfl gpduTeid_session.1 gpduTeid_session.2

/-- The packet is sent on, with four zeros in front and a length without them. -/
theorem gpdu_mangled :
    gtpuParseHeader (received gpduTeid).data=some (8,⟨gpdu,48,5,0,0,none,none⟩) ∧
      contextTeid.sessFindByTeid 5=some 0 ∧ (contextTeid.sess 0).forwardToDnf=true ∧
      dn3RecvCb contextTeid (some localhost) localhost gpduTeid=some
        [⟨localhost,[0,255,0,4,0,0,0,1,0,0,0,0,1,2,3,4]⟩] ∧
      ¬ Carries (contextTeid.sess 0).dn4Teid (received gpduTeid).data
        [0,255,0,4,0,0,0,1,0,0,0,0,1,2,3,4] := by
  refine ⟨gpduTeid_parsed,gpduTeid_session.1,gpduTeid_session.2,by decide,?_⟩
  rintro ⟨l,h₁,l',h₂,-,-,-,-,-,hfield⟩
  revert hfield
  decide

end OgsDp.Df
