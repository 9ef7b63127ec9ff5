import OgsDp.Core.Octets
import OgsDp.Pfcp.PacketBuffer
import OgsDp.Pfcp.UeIpUnique
import OgsDp.Upf.PdrSelection
import OgsDp.Upf.UeIpOwners

/-!
# The source address of an uplink packet (src/upf/gtp-path.c)

Before a G-PDU is written to the device of a subnet its source address is compared with those of
the session, word by word as the addresses lie in memory.
-/

namespace OgsDp.Upf
open Lib OgsDp.Core Pfcp List Option BitVec

def Version.words : Version → Nat
  | .v4 => 1
  | .v6 => 4

def Version.list : Version → RouteList
  | .v4 => .ipv4
  | .v6 => .ipv6

def addrWord (addr : List Byte) (i : Nat) : BitVec 32 :=
  BitVec.ofNat 32 (netValue ((addr.drop (4*i)).take 4))

def IpSubnet.admits (r : IpSubnet) (v : Version) (addr : List Byte) : Bool :=
  (List.range v.words).all fun i =>
    addrWord r.sub.toList i == addrWord addr i &&& addrWord r.mask.toList i

/-- `check_framed_routes`; the loop ends at an entry without a family. -/
def checkFramedRoutes (x : Sess) (v : Version) (addr : List Byte) : Bool :=
  ((x.framedRoutes v.list).elim [] Routes.used).any fun r => r.admits v addr

inductive GpduEnd where
  | dropped
  | tunWritten (pdr subnet : Nat)
  -- it is left to `ogs_pfcp_up_handle_pdr`
  | handled (pdr : Nat)
  deriving DecidableEq

def versionOf (b : Byte) : Option Version :=
  if b.val / 16=4 then some .v4 else if b.val / 16=6 then some .v6 else none

def Version.srcPlace : Version → Nat × Nat
  | .v4 => (12,4)
  | .v6 => (8,16)

def isLinkLocal (addr : List Byte) : Bool := addrWord addr 0 &&& 0xffc00000 == 0xfe800000

def sourceMatches (x : Sess) (ue src : List Byte) : Version → Bool
  | .v4 => addrWord src 0 == addrWord ue 0 || checkFramedRoutes x .v4 src
  | .v6 =>
    (isLinkLocal src && addrWord src 2 == addrWord ue 2 && addrWord src 3 == addrWord ue 3) ||
      (addrWord src 0 == addrWord ue 0 && addrWord src 1 == addrWord ue 1) ||
        checkFramedRoutes x .v6 src

def uRecvDeliver (c : Context) (p r subnet : Nat) : Option GpduEnd :=
  let far:=(c.up.ctx.far.slot r).body
  if far.dstIf=interfaceCore then some (.tunWritten p subnet)
  else if far.dstIf=interfaceAccess then some (.handled p)
  else if far.dstIf=interfaceCpFunction then
    if (c.up.farUp r).gnode=none then some .dropped
    else if far.forwards=false then some .dropped
    else some (.handled p)
  else none

def sourceChecked (c : Context) (pkt : IpPacket) (n r : Nat) (v : Version) (ueIp : UeIpRef) :
    Option Bool :=
  if (c.up.ctx.far.slot r).body.dstIf=interfaceAccess then some true
  else (readAt pkt.mem v.srcPlace.1 v.srcPlace.2).map fun src =>
    sourceMatches (c.sess n) (c.ueIps.addr ueIp).toList src v

-- `_gtpv1_u_recv_cb` from the PDR on; `none` is an assertion that failed.
def uRecvPacket (c : Context) (pkt : IpPacket) (p : Nat) : Option GpduEnd :=
  let n:=(c.up.ctx.pdr p).sess
  (c.up.ctx.pdr p).far.bind fun r =>
    pkt.mem.head?.bind fun b =>
      match (versionOf b).bind fun v => ((c.sess n).ip v).map fun ueIp => (v,ueIp) with
      | none => some .dropped
      | some (v,ueIp) =>
        (sourceChecked c pkt n r v ueIp).bind fun ok =>
          if ok then uRecvDeliver c p r (c.ueIps.subnetOf ueIp) else some .dropped

/-- `_gtpv1_u_recv_cb` for a G-PDU, with the flow rules of the PDRs. -/
def uRecvGpdu (flow : FlowRules) (c : Context) (pkt : IpPacket) (teid : BitVec 32) (qfi : Byte) :
    Option GpduEnd :=
  (uRecvPdr ⟨c.up.ctx,flow,c.up.bar⟩ pkt teid qfi).bind fun found =>
    found.elim (some .dropped) (uRecvPacket c pkt)

theorem bitAt_eq (nbits : Nat) (addr : List Byte) (i : Nat) :
    Context.bitAt nbits addr i=(addrWord addr (i / 32)).getLsbD ((nbits-i-1) % 32) := rfl

theorem addrWord_eq_iff {l m : List Byte} {i : Nat} (hl : 4*i+4≤l.length)
    (hm : 4*i+4 ≤ m.length) :
    addrWord l i=addrWord m i ↔ (l.drop (4*i)).take 4=(m.drop (4*i)).take 4 := by
  have hlen : ∀ {x : List Byte}, 4*i+4≤x.length → ((x.drop (4*i)).take 4).length=4 := by
    intro x hx
    rw [length_take,length_drop]
    omega
  have hback : ∀ {x : List Byte}, 4*i+4≤x.length →
      (x.drop (4*i)).take 4=netBytes 4 (addrWord x i).toNat := by
    intro x hx
    have hlt:=netValue_lt ((x.drop (4*i)).take 4)
    rw [hlen hx] at hlt
    have hvalue : (addrWord x i).toNat=netValue ((x.drop (4*i)).take 4) :=
      (toNat_ofNat ..).trans (Nat.mod_eq_of_lt hlt)
    have hoctets:=netBytes_netValue ((x.drop (4*i)).take 4)
    rw [hlen hx] at hoctets
    rw [hvalue,hoctets]
  constructor
  · intro hword
    rw [hback hl,hback hm,hword]
  · intro hoctets
    unfold addrWord
    rw [hoctets]

theorem IpSubnet.admits_covers {r : IpSubnet} {v : Version} {addr : List Byte}
    (hfamily : r.family=v.family) (h : r.admits v addr=true) : r.Covers addr := by
  have hnbits : r.nbits=32*v.words := by
    unfold IpSubnet.nbits
    rw [hfamily]
    cases v <;> rfl
  have hword : ∀ i<v.words,
      addrWord r.sub.toList i=addrWord addr i &&& addrWord r.mask.toList i := by
    intro i hi
    unfold IpSubnet.admits at h
    exact eq_of_beq (List.all_eq_true.mp h i (mem_range.mpr hi))
  intro i hi hmask
  have hplace : i / 32<v.words := by omega
  unfold IpSubnet.maskBit at hmask
  unfold IpSubnet.subBit
  rw [bitAt_eq] at hmask ⊢
  rw [bitAt_eq,hword _ hplace,getLsbD_and,hmask,Bool.and_true]

def source (pkt : IpPacket) : Option (Version × List Byte) :=
  (pkt.mem.head?.bind versionOf).bind fun v =>
    (readAt pkt.mem v.srcPlace.1 v.srcPlace.2).map fun src => (v,src)

def LinkLocal (addr : List Byte) : Prop :=
  addr[0]?=some 254 ∧ ∃ b,addr[1]?=some b ∧ b.val / 64=2

/-- The same IPv4 address; the same prefix of 64 bits, or a link-local address with the same
interface identifier. -/
def OfUe (ue src : List Byte) : Version → Prop
  | .v4 => src=ue.take 4
  | .v6 => LinkLocal src ∧ src.drop 8=ue.drop 8 ∨ src.take 8=ue.take 8

theorem readAt_length {mem l : List Byte} {i len : Nat} (h : readAt mem i len=some l) :
    l.length=len := by
  unfold readAt at h
  split at h
  · rename_i hlen
    obtain rfl := some.inj h
    rw [length_take,length_drop]
    omega
  · cases h

theorem isLinkLocal_sound {addr : List Byte} (hlen : 4≤addr.length)
    (h : isLinkLocal addr=true) : LinkLocal addr := by
  obtain ⟨a,b,x,y,l,rfl⟩ : ∃ a b x y l,addr=a::b::x::y::l := by
    match addr, hlen with
    | a::b::x::y::l, _ => exact ⟨a,b,x,y,l,rfl⟩
  have ha:=a.isLt
  have hb:=b.isLt
  have hx:=x.isLt
  have hy:=y.isLt
  have hword : (addrWord (a::b::x::y::l) 0).toNat =
      ((a.val*256+b.val)*256+x.val)*256+y.val := by
    have hvalue : netValue (((a::b::x::y::l).drop (4*0)).take 4) =
        ((a.val*256+b.val)*256+x.val)*256+y.val := by
      simp [netValue]
    unfold addrWord
    rw [hvalue,toNat_ofNat]
    exact Nat.mod_eq_of_lt (by omega)
  have hmask:=congrArg BitVec.toNat (eq_of_beq h)
  rw [toNat_and,hword] at hmask
  have hshift:=congrArg (· >>> 22) hmask
  have hten : (4290772992 : BitVec 32).toNat >>> 22=2^10-1 := rfl
  have hbegins : (4269801472 : BitVec 32).toNat >>> 22=1018 := rfl
  simp only [Nat.shiftRight_and_distrib] at hshift
  rw [hten,hbegins,Nat.and_two_pow_sub_one_eq_mod,Nat.shiftRight_eq_div_pow] at hshift
  have hfirst : a.val=254 := by omega
  refine ⟨?_,b,rfl,by omega⟩
  rw [show a=254 from Fin.ext hfirst]
  rfl

theorem sourceMatches_sound {x : Sess} {ue src : List Byte} {v : Version} (hue : ue.length=16)
    (hsrc : src.length=v.srcPlace.2) (h : sourceMatches x ue src v=true) :
    OfUe ue src v ∨ checkFramedRoutes x v src=true := by
  have hwords : ∀ i,4*i+4 ≤ src.length → (addrWord src i == addrWord ue i)=true →
      (src.drop (4*i)).take 4=(ue.drop (4*i)).take 4 := by
    intro i hi hword
    refine (addrWord_eq_iff hi ?_).mp (eq_of_beq hword)
    cases v with
    | v4 =>
      simp only [Version.srcPlace] at hsrc
      omega
    | v6 =>
      simp only [Version.srcPlace] at hsrc
      omega
  cases v with
  | v4 =>
    simp only [Version.srcPlace] at hsrc
    simp only [sourceMatches,Bool.or_eq_true] at h
    refine h.imp_left fun hword => ?_
    have hall:=hwords 0 (by omega) hword
    rw [Nat.mul_zero,drop_zero,drop_zero] at hall
    rw [OfUe,← hall,← hsrc,take_length]
  | v6 =>
    simp only [Version.srcPlace] at hsrc
    have htwo : ∀ l : List Byte, ∀ i,(l.drop (4*i)).take 8 =
        (l.drop (4*i)).take 4++(l.drop (4*(i+1))).take 4 := by
      intro l i
      rw [show 4*(i+1)=4*i+4 by omega,← drop_drop,
        ← take_add (l := l.drop (4*i)) (i := 4) (j := 4)]
    simp only [sourceMatches,Bool.or_eq_true,Bool.and_eq_true] at h
    refine h.imp_left fun hword => ?_
    rcases hword with ⟨⟨hlocal,htwoth⟩,hthird⟩ | ⟨hzeroth,hfirst⟩
    · refine .inl ⟨isLinkLocal_sound (by omega) hlocal,?_⟩
      have hall : (src.drop (4*2)).take 8=(ue.drop (4*2)).take 8 := by
        rw [htwo,htwo,hwords 2 (by omega) htwoth,hwords 3 (by omega) hthird]
      rwa [take_of_length_le (by simp; omega),take_of_length_le (by simp; omega)] at hall
    · refine .inr ?_
      have hall : (src.drop (4*0)).take 8=(ue.drop (4*0)).take 8 := by
        rw [htwo,htwo,hwords 0 (by omega) hzeroth,hwords 1 (by omega) hfirst]
      exact hall

theorem uRecvGpdu_written {flow : FlowRules} {c : Context} {pkt : IpPacket} {teid : BitVec 32}
    {qfi : Byte} {p s : Nat} (h : uRecvGpdu flow c pkt teid qfi=some (.tunWritten p s)) :
    ∃ v src ueIp,source pkt=some (v,src) ∧
      (c.sess (c.up.ctx.pdr p).sess).ip v=some ueIp ∧
        (OfUe (c.ueIps.addr ueIp).toList src v ∨
          checkFramedRoutes (c.sess (c.up.ctx.pdr p).sess) v src=true) := by
  have hdeliver : ∀ {q r subnet : Nat}, uRecvDeliver c q r subnet=some (.tunWritten p s) →
      q=p ∧ (c.up.ctx.far.slot r).body.dstIf=interfaceCore := by
    intro q r subnet hq
    unfold uRecvDeliver at hq
    simp only at hq
    split at hq
    · rename_i hcore
      exact ⟨(GpduEnd.tunWritten.inj (some.inj hq)).1,hcore⟩
    · split at hq
      · cases hq
      · split at hq
        · split at hq
          · cases hq
          · split at hq <;> cases hq
        · cases hq
  unfold uRecvGpdu at h
  obtain ⟨found,-,h⟩ := bind_eq_some_iff.mp h
  cases found with
  | none => cases h
  | some q =>
    change uRecvPacket c pkt q=some (.tunWritten p s) at h
    simp only [uRecvPacket] at h
    obtain ⟨r,-,h⟩ := bind_eq_some_iff.mp h
    obtain ⟨b,hb,h⟩ := bind_eq_some_iff.mp h
    split at h
    · cases h
    · rename_i v ueIp hip
      obtain ⟨ok,hok,h⟩ := bind_eq_some_iff.mp h
      split at h
      · rename_i hpass
        obtain ⟨rfl,hcore⟩ := hdeliver h
        obtain ⟨w,hw,hip⟩ := bind_eq_some_iff.mp hip
        obtain ⟨ref,href,heq⟩ := map_eq_some_iff.mp hip
        obtain ⟨rfl,rfl⟩ := Prod.mk.inj heq
        unfold sourceChecked at hok
        rw [if_neg (by rw [hcore]; decide)] at hok
        obtain ⟨src,hsrc,hmatch⟩ := map_eq_some_iff.mp hok
        rw [hpass] at hmatch
        refine ⟨w,src,ref,?_,href,?_⟩
        · simp [source,hb,hw,hsrc]
        · exact sourceMatches_sound (by simp) (readAt_length hsrc) hmatch
      · cases h

end OgsDp.Upf
