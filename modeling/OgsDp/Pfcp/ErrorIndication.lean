import OgsDp.Pfcp.FarTable

/-!
# Error Indications (lib/pfcp/context.c and handler.c)

A peer that does not know a TEID says so with the TEID and its own address.
-/

namespace OgsDp.Pfcp
open Lib RefTable OgsDp.Core

-- What can be read at `pkbuf->data`: the packet, and something behind it.
def memory (data : List Byte) (behind : Nat → Byte) (i : Nat) : Byte := (data[i]?).getD (behind i)

/-- The two IEs as `ogs_pfcp_far_find_by_gtpu_error_indication` reads them: the key they give, and
how many bytes were read. -/
def parseErrorIndication (mem : Nat → Byte) : Option (List Byte) × Nat :=
  if mem 0≠16 then (none,1)
  else if mem 5≠133 then (none,6)
  else
    let len:=(mem 6).val*256+(mem 7).val
    if len=4 ∨ len=16 then (some ((memRead mem 1 4).reverse++memRead mem 8 len),8+len)
    else (none,8)

def farFindByGtpuErrorIndication (u : Up) (mem : Nat → Byte) : Option Nat :=
  (parseErrorIndication mem).1.bind (RefTable.get u.farKeys u.farFTeidHash)

/-- `ogs_pfcp_up_handle_error_indication`: the remote F-TEID of the report and its length, or none
where an assertion fails, here or on the result. -/
def upHandleErrorIndication (x : FarUp) : Option (FTeid × Nat) :=
  let key:=x.hashKey.toList
  let len:=x.hashLen-4
  let teid:=(key.take 4).reverse
  if len=4 then some (FTeid.zero.copy (1::teid++(key.drop 4).take 4),5+len)
  else if len=16 then some (FTeid.zero.copy (2::teid++(key.drop 4).take 16),5+len)
  else none

def farTeid (far : Far) : BitVec 32 := u32 far.outerHeaderCreation 2

/-- `ogs_pfcp_far_find_by_pfcp_session_report`; the F-TEID is what memory holds at the IE. -/
def farFindByPfcpSessionReport (t : RuleTable Far) (s : Nat) (report : Option (Option FTeid)) :
    Option Nat :=
  match report with
  | none => none
  | some none => none
  | some (some f) =>
    if f.ipv4 && f.ipv6 then none
    else if f.ipv4 || f.ipv6 then
      -- the address is read and not compared
      (t.list s).find? fun r => f.ntoh.teid == farTeid (t.slot r).body
    else none

theorem toNat_u32 {n : Nat} (v : Vector Byte n) (k : Nat) :
    (u32 v k).toNat=((v[k]?).getD 0).val+256*(((v[k+1]?).getD 0).val +
      256*(((v[k+2]?).getD 0).val+256*((v[k+3]?).getD 0).val)) := by
  have h := fun i => ((v[k+i]?).getD 0).isLt
  have h0:=h 0
  have h1:=h 1
  have h2:=h 2
  have h3:=h 3
  have hzero : (0 : BitVec 32).toNat=0 := rfl
  have hbyte : (256 : BitVec 32).toNat=256 := rfl
  simp only [u32,List.range_succ,List.range_zero,List.nil_append,List.cons_append,
    List.foldr_cons,List.foldr_nil,BitVec.toNat_add,BitVec.toNat_mul,BitVec.toNat_ofNat,
    hzero,hbyte,Nat.add_zero] at *
  omega

theorem hostBytes_u32 {n : Nat} (v : Vector Byte n) {k : Nat} (h : k+4≤n) :
    hostBytes 4 (u32 v k).toNat=(v.toList.drop k).take 4 := by
  have hb := fun i => ((v[k+i]?).getD 0).isLt
  have h0:=hb 0
  have h1:=hb 1
  have h2:=hb 2
  have h3:=hb 3
  apply List.ext_getElem
  · simp only [hostBytes,List.length_map,List.length_range,List.length_take,List.length_drop,
      Vector.length_toList]
    omega
  · intro i hi hi'
    have hi4 : i<4 := by simpa [hostBytes] using hi
    have hin : k+i<n := by omega
    have hget : ((v.toList.drop k).take 4)[i]=(v[k+i]?).getD 0 := by
      simp [hin]
    rw [hget]
    apply Fin.ext
    have hcases : i=0 ∨ i=1 ∨ i=2 ∨ i=3 := by omega
    rcases hcases with rfl | rfl | rfl | rfl <;>
    · simp only [hostBytes,toNat_u32,List.getElem_map,List.getElem_range,Fin.ofNat,
        Nat.add_zero] at *
      omega

theorem hostBytes_inj {t t' : BitVec 32} (h : hostBytes 4 t.toNat=hostBytes 4 t'.toNat) :
    t=t' := by
  have hval:=congrArg (fun l => netValue l.reverse) h
  have hmod : ∀ t : BitVec 32, t.toNat % 256^4=t.toNat := fun t => Nat.mod_eq_of_lt t.isLt
  change netValue (netBytes 4 t.toNat)=netValue (netBytes 4 t'.toNat) at hval
  rw [netValue_netBytes,netValue_netBytes,hmod,hmod] at hval
  exact BitVec.eq_of_toNat_eq hval

theorem netBytes_four (v : Nat) : netBytes 4 v =
    [Fin.ofNat 256 (v / 256^3),Fin.ofNat 256 (v / 256^2),Fin.ofNat 256 (v / 256),
      Fin.ofNat 256 v] := by
  simp [netBytes,hostBytes,List.range_succ]

theorem teid_ntoh_copy (flags : Byte) (t : BitVec 32) (a : List Byte) :
    (FTeid.zero.copy (flags::netBytes 4 t.toNat++a)).ntoh.teid=t := by
  apply hostBytes_inj
  rw [FTeid.teid,hostBytes_u32 _ (by omega)]
  apply List.ext_getElem
  · simp [hostBytes]
  · intro i hi _
    have hi4 : i<4 := by simpa using hi
    have hcases : i=0 ∨ i=1 ∨ i=2 ∨ i=3 := by omega
    rcases hcases with rfl | rfl | rfl | rfl <;>
    · simp [FTeid.ntoh,FTeid.copy,be32toh,memcpy,netBytes_four,hostBytes]

def errorIndicationIes (t : BitVec 32) (a : List Byte) : List Byte :=
  16::netBytes 4 t.toNat++133::netBytes 2 a.length++a

theorem memRead_memory {data : List Byte} {behind : Nat → Byte} {i n : Nat}
    (h : i+n≤data.length) : memRead (memory data behind) i n=(data.drop i).take n := by
  apply List.ext_getElem
  · simp [memRead]
    omega
  · intro j hj _
    have hjn : j<n := by simpa [memRead] using hj
    have hlt : i+j<data.length := by omega
    simp [memRead,memory,hlt]

theorem parseErrorIndication_ies (t : BitVec 32) {a : List Byte} (ha : a.length=4 ∨ a.length=16)
    (more : List Byte) (behind : Nat → Byte) :
    parseErrorIndication (memory (errorIndicationIes t a++more) behind) =
      (some (hostBytes 4 t.toNat++a),8+a.length) := by
  have hies : errorIndicationIes t a++more =
      [16]++netBytes 4 t.toNat++[133]++netBytes 2 a.length++(a++more) := by
    simp [errorIndicationIes]
  have hlen : (errorIndicationIes t a++more).length=8+a.length+more.length := by
    simp [errorIndicationIes]
    omega
  have hteid : (memRead (memory (errorIndicationIes t a++more) behind) 1 4).reverse =
      hostBytes 4 t.toNat := by
    rw [memRead_memory (by omega),hies]
    have htake : ((([16]++netBytes 4 t.toNat++[133]++netBytes 2 a.length++(a++more)).drop
        1).take 4)=netBytes 4 t.toNat := by
      simp
    rw [htake,netBytes,List.reverse_reverse]
  have haddr : memRead (memory (errorIndicationIes t a++more) behind) 8 a.length=a := by
    rw [memRead_memory (by omega),hies]
    simp [List.drop_append,List.take_append]
  have hbyte : ∀ i b,
      ([16]++netBytes 4 t.toNat++[133]++netBytes 2 a.length++(a++more))[i]?=some b →
        memory (errorIndicationIes t a++more) behind i=b := by
    intro i b hi
    rw [memory,hies,hi]
    rfl
  have h0:=hbyte 0 16 (by simp)
  have h5:=hbyte 5 133 (by simp [netBytes_four])
  have h6 : memory (errorIndicationIes t a++more) behind 6=0 := by
    refine hbyte 6 0 ?_
    rcases ha with ha | ha <;> simp [netBytes,hostBytes,List.range_succ,ha]
  have h7 : (memory (errorIndicationIes t a++more) behind 7).val=a.length := by
    rw [hbyte 7 (Fin.ofNat 256 a.length)]
    · rcases ha with ha | ha <;> rw [ha] <;> rfl
    · simp [netBytes,hostBytes,List.range_succ]
  simp only [parseErrorIndication,h0,h5,h6,h7]
  rw [if_neg (by simp),if_neg (by simp)]
  simp [ha,hteid,haddr]

def Far.addrs (far : Far) : List (List Byte) :=
  (outerHeaderCreationToIp far.outerHeaderCreation).elim [] fun ip =>
    (ip.1.map (·.toList)).toList++(ip.2.map (·.toList)).toList

def Far.SendsTo (far : Far) (t : BitVec 32) (a : List Byte) : Prop :=
  farTeid far=t ∧ a∈far.addrs

instance (far : Far) (t : BitVec 32) (a : List Byte) : Decidable (far.SendsTo t a) :=
  inferInstanceAs (Decidable (_ ∧ _))

/-- The user plane finds the FAR that sends to `t` at `a`, reads no more than the packet for it, and
its report leads the control plane to the FAR of session `s` that sends there. -/
structure Resolves (u : Up) (cp : RuleTable Far) (s : Nat) (data : List Byte)
    (behind : Nat → Byte) (t : BitVec 32) (a : List Byte) : Prop where
  sound : ∀ r,farFindByGtpuErrorIndication u (memory data behind)=some r →
    r∈u.ctx.far.live ∧ (u.ctx.far.slot r).body.SendsTo t a
  complete : (∃ r∈u.ctx.far.live,(u.farUp r).hashLen≠0 ∧
    (u.ctx.far.slot r).body.SendsTo t a) →
      (farFindByGtpuErrorIndication u (memory data behind)).isSome
  inside : (parseErrorIndication (memory data behind)).2≤data.length
  report : ∀ r,farFindByGtpuErrorIndication u (memory data behind)=some r →
    ∃ f len,upHandleErrorIndication (u.farUp r)=some (f,len) ∧
      ∃ r'∈cp.list s,farFindByPfcpSessionReport cp s (some (some f))=some r' ∧
        (cp.slot r').body.SendsTo t a

/-- The FARs are registered under the Outer Header Creation they have, of one address. -/
def Up.Current (u : Up) : Prop :=
  ∀ r∈u.ctx.far.live,(u.farUp r).hashLen≠0 →
    (u.ctx.far.slot r).body.addrs.map
      (hostBytes 4 (farTeid (u.ctx.far.slot r).body).toNat ++ ·)=[u.keyOf r]

instance (u : Up) : Decidable u.Current :=
  inferInstanceAs (Decidable (∀ r∈u.ctx.far.live,_ → _))

/-- The session has a FAR to `t` at `a`, and none to `t` elsewhere. -/
def OnePeer (cp : RuleTable Far) (s : Nat) (t : BitVec 32) (a : List Byte) : Prop :=
  (∃ r∈cp.list s,(cp.slot r).body.SendsTo t a) ∧
    ∀ r∈cp.list s,farTeid (cp.slot r).body=t → (cp.slot r).body.SendsTo t a

instance (cp : RuleTable Far) (s : Nat) (t : BitVec 32) (a : List Byte) :
    Decidable (OnePeer cp s t a) :=
  inferInstanceAs (Decidable (_ ∧ _))

section Search

variable {u : Up} {cp : RuleTable Far} {s : Nat} {t : BitVec 32} {a : List Byte}

theorem length_hostBytes (n v : Nat) : (hostBytes n v).length=n := by
  simp [hostBytes]

theorem Up.Current.registered_iff (h : u.Current) {r : Nat} (hr : r∈u.ctx.far.live)
    (hlen : (u.farUp r).hashLen≠0) :
    u.keyOf r=hostBytes 4 t.toNat++a ↔ (u.ctx.far.slot r).body.SendsTo t a := by
  obtain ⟨b,haddrs,hkey⟩ := List.map_eq_singleton_iff.mp (h r hr hlen)
  simp only [Far.SendsTo,haddrs,List.mem_singleton,← hkey]
  constructor
  · intro hsame
    obtain ⟨hteid,haddr⟩ := List.append_inj hsame (by simp only [length_hostBytes])
    exact ⟨hostBytes_inj hteid,haddr.symm⟩
  · rintro ⟨rfl,rfl⟩
    rfl

theorem upHandleErrorIndication_key {x : FarUp} (hlen : x.hashLen≤20)
    (hkey : Up.farKey x=hostBytes 4 t.toNat++a) (ha : a.length=4 ∨ a.length=16) :
    ∃ flags : Byte, (flags=1 ∨ flags=2) ∧ upHandleErrorIndication x =
      some (FTeid.zero.copy (flags::netBytes 4 t.toNat++a),5+a.length) := by
  have hsize : x.hashLen=4+a.length := by
    have hcongr:=congrArg List.length hkey
    simp only [Up.farKey,List.length_take,Vector.length_toList,List.length_append,
      length_hostBytes] at hcongr
    omega
  have hteid : (x.hashKey.toList.take 4).reverse=netBytes 4 t.toNat := by
    have htake : x.hashKey.toList.take 4=(Up.farKey x).take 4 := by
      rw [Up.farKey,List.take_take,hsize]
      congr 1
      omega
    rw [htake,hkey,List.take_left' (length_hostBytes 4 _)]
    rfl
  have haddr : (x.hashKey.toList.drop 4).take a.length=a := by
    have htake : (x.hashKey.toList.drop 4).take a.length=(Up.farKey x).drop 4 := by
      rw [Up.farKey,List.drop_take,hsize]
      congr 1
      omega
    rw [htake,hkey,List.drop_left' (length_hostBytes 4 _)]
  simp only [upHandleErrorIndication,hsize,Nat.add_sub_cancel_left]
  rcases ha with ha | ha
  · rw [ha] at haddr
    rw [if_pos ha,hteid,haddr]
    exact ⟨1,.inl rfl,rfl⟩
  · rw [ha] at haddr
    rw [if_neg (by omega),if_pos ha,hteid,haddr]
    exact ⟨2,.inr rfl,rfl⟩

theorem farFindByPfcpSessionReport_teid {flags : Byte} (hflags : flags=1 ∨ flags=2) :
    farFindByPfcpSessionReport cp s
        (some (some (FTeid.zero.copy (flags::netBytes 4 t.toNat++a)))) =
      (cp.list s).find? fun r => t == farTeid (cp.slot r).body := by
  have hoctet : (FTeid.zero.copy (flags::netBytes 4 t.toNat++a)).octets[0]=flags := by
    simp [FTeid.copy,memcpy]
  simp only [farFindByPfcpSessionReport,FTeid.ipv4,FTeid.ipv6,hoctet,teid_ntoh_copy]
  rcases hflags with rfl | rfl <;> rfl

theorem OnePeer.found (h : OnePeer cp s t a) :
    ∃ r∈cp.list s,((cp.list s).find? fun r => t == farTeid (cp.slot r).body)=some r ∧
      (cp.slot r).body.SendsTo t a := by
  obtain ⟨⟨r,hr,hsends⟩,hsole⟩ := h
  have hsome : ((cp.list s).find? fun r => t == farTeid (cp.slot r).body).isSome := by
    rw [List.find?_isSome]
    exact ⟨r,hr,beq_iff_eq.mpr hsends.1.symm⟩
  obtain ⟨r',hfind⟩ := Option.isSome_iff_exists.mp hsome
  have hmem:=List.mem_of_find?_eq_some hfind
  have hteid:=List.find?_some hfind
  exact ⟨r',hmem,hfind,hsole r' hmem (beq_iff_eq.mp hteid).symm⟩

theorem Up.FarTabled.resolves (h : u.FarTabled) (hcurrent : u.Current)
    (ha : a.length=4 ∨ a.length=16) (honly : OnePeer cp s t a) (more : List Byte)
    (behind : Nat → Byte) : Resolves u cp s (errorIndicationIes t a++more) behind t a := by
  have hparse:=parseErrorIndication_ies t ha more behind
  obtain ⟨hsound,hcomplete⟩ := h.find (hostBytes 4 t.toNat++a)
  have hfind : farFindByGtpuErrorIndication u (memory (errorIndicationIes t a++more) behind) =
      RefTable.get u.farKeys u.farFTeidHash (hostBytes 4 t.toNat++a) := by
    rw [farFindByGtpuErrorIndication,hparse]
    rfl
  refine ⟨?_,?_,?_,?_⟩
  · rw [hfind]
    intro r hr
    obtain ⟨hlive,hlen,hkey⟩ := hsound r hr
    exact ⟨hlive,(hcurrent.registered_iff hlive hlen).mp hkey⟩
  · rw [hfind]
    rintro ⟨r,hlive,hlen,hsends⟩
    exact hcomplete ⟨r,hlive,hlen,(hcurrent.registered_iff hlive hlen).mpr hsends⟩
  · rw [hparse]
    simp [errorIndicationIes]
    omega
  · rw [hfind]
    intro r hr
    obtain ⟨hlive,hlen,hkey⟩ := hsound r hr
    obtain ⟨flags,hflags,hreport⟩ := upHandleErrorIndication_key (h.len r) hkey ha
    obtain ⟨r',hmem,hcp,hsends⟩ := honly.found
    exact ⟨_,_,hreport,r',hmem,(farFindByPfcpSessionReport_teid hflags).trans hcp,hsends⟩

end Search

/-- Where no FAR that leaves its key shares it, an Error Indication that holds both its IEs names
the FAR that sends to the peer, and the report does so for a session with one peer of the TEID. -/
theorem error_indication_run (peers : GtpPeers) (poolSess : Nat) (random : Nat → Nat)
    (seed farSeed : BitVec 32) (ops : List FarOp)
    (hops : EachStep (Up.farStep peers) (Up.KeepsKeys peers)
      (upInit poolSess random seed farSeed) ops) :
    ∀ u∈completed (Up.farStep peers) (upInit poolSess random seed farSeed) ops,u.Current →
      ∀ (cp : RuleTable Far) (s : Nat) (t : BitVec 32) (a more : List Byte) (behind : Nat → Byte),
        a.length=4 ∨ a.length=16 → OnePeer cp s t a →
          Resolves u cp s (errorIndicationIes t a++more) behind t a := by
  have hinv : ∀ u ∈ completed (Up.farStep peers) (upInit poolSess random seed farSeed) ops,
      u.FarTabled := by
    refine completed_inv ?_ (.init poolSess random seed farSeed) hops
    intro u op v _ hu hop ho
    exact hu.step hop ho
  intro u hu hcurrent cp s t a more behind ha honly
  exact (hinv u hu).resolves hcurrent ha honly more behind

def farTo (s : Nat) (id : BitVec 32) (a : List Byte) (r : Nat) : List FarOp :=
  [.findOrAdd s id,
    .handleCreateFar s (some ⟨some id,some 2,
      some ⟨some 0,none,some ([1,0,0,0,0,7]++a),none⟩⟩),
    .setup s r]

def zerosBehind : Nat → Byte := fun _ => 0

def threePeers : List FarOp :=
  farTo 0 1 [10,0,0,1] 0++farTo 0 2 [10,0,0,3] 1++farTo 1 1 [10,0,0,2] 2 ++
    [.remove 0 1]

theorem error_indication_run_three :
    ∃ u ∈ completed (Up.farStep anyPeer) (upInit 2 id 0 0) threePeers,
      farFindByGtpuErrorIndication u
        (memory (errorIndicationIes 7 [10,0,0,2]++[0]) zerosBehind)=some 2 ∧
      Resolves u u.ctx.far 1 (errorIndicationIes 7 [10,0,0,2]++[0]) zerosBehind 7
        [10,0,0,2] := by
  have hrun : ∃ u ∈ completed (Up.farStep anyPeer) (upInit 2 id 0 0) threePeers,
      farFindByGtpuErrorIndication u
        (memory (errorIndicationIes 7 [10,0,0,2]++[0]) zerosBehind)=some 2 ∧
      u.ctx.far.live=[0,2] ∧ u.Current ∧ OnePeer u.ctx.far 1 7 [10,0,0,2] := by
    decide
  obtain ⟨u,hu,hfind,-,hcurrent,honly⟩ := hrun
  have hops : EachStep (Up.farStep anyPeer) (Up.KeepsKeys anyPeer) (upInit 2 id 0 0)
      threePeers := by
    decide
  exact ⟨u,hu,hfind,error_indication_run anyPeer 2 id 0 0 threePeers hops u hu hcurrent _ 1 7
    [10,0,0,2] [0] zerosBehind (.inl rfl) honly⟩

def sharedHeader : List FarOp :=
  farTo 0 1 [10,0,0,1] 0++farTo 1 1 [10,0,0,1] 1++[.remove 1 1]

def sharedTeid : List FarOp := farTo 0 1 [10,0,0,1] 0++farTo 0 2 [10,0,0,2] 1

/-- The FAR that is left of two is not found; the control plane takes the first FAR with the TEID;
and a packet of one octet is read beyond its end. -/
theorem error_indication_astray :
    (∃ u∈completed (Up.farStep anyPeer) (upInit 2 id 0 0) sharedHeader,u.Current ∧
      ¬ Resolves u u.ctx.far 0 (errorIndicationIes 7 [10,0,0,1]) zerosBehind 7
        [10,0,0,1]) ∧
    (∃ u∈completed (Up.farStep anyPeer) (upInit 1 id 0 0) sharedTeid,u.Current ∧
      ¬ Resolves u u.ctx.far 0 (errorIndicationIes 7 [10,0,0,2]) zerosBehind 7
        [10,0,0,2]) ∧
    (parseErrorIndication (memory [16] zerosBehind)).2=6 := by
  have hshared : ∃ u∈completed (Up.farStep anyPeer) (upInit 2 id 0 0) sharedHeader,u.Current ∧
      (0∈u.ctx.far.live ∧ (u.farUp 0).hashLen≠0 ∧
        (u.ctx.far.slot 0).body.SendsTo 7 [10,0,0,1]) ∧
      farFindByGtpuErrorIndication u
        (memory (errorIndicationIes 7 [10,0,0,1]) zerosBehind)=none := by
    decide
  have hteid : ∃ u∈completed (Up.farStep anyPeer) (upInit 1 id 0 0) sharedTeid,u.Current ∧
      farFindByGtpuErrorIndication u
        (memory (errorIndicationIes 7 [10,0,0,2]) zerosBehind)=some 1 ∧
      ((upHandleErrorIndication (u.farUp 1)).bind fun f =>
        farFindByPfcpSessionReport u.ctx.far 0 (some (some f.1)))=some 0 ∧
      ¬ (u.ctx.far.slot 0).body.SendsTo 7 [10,0,0,2] := by
    decide
  obtain ⟨u,hu,hcurrent,hsends,hnone⟩ := hshared
  obtain ⟨u',hu',hcurrent',hfind,hcp,hother⟩ := hteid
  refine ⟨⟨u,hu,hcurrent,fun h => ?_⟩,⟨u',hu',hcurrent',fun h => ?_⟩,by decide⟩
  · have hsome:=h.complete ⟨0,hsends⟩
    rw [hnone] at hsome
    cases hsome
  · obtain ⟨f,len,hreport,r,-,hr,hsends'⟩ := h.report 1 hfind
    rw [hreport,Option.bind_some,hr,Option.some.injEq] at hcp
    exact hother (hcp ▸ hsends')

end OgsDp.Pfcp
