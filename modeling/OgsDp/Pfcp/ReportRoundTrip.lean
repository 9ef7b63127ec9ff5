import Mathlib.Tactic.IntervalCases
import OgsDp.Pfcp.ReportBuild

/-!
# What a receiver reads of the usage reports (lib/pfcp/build.c)

Everything but the volume measurement comes back as it was. Of the measurements the last one comes
back, in each report with the length of the report's own.
-/

namespace OgsDp.Pfcp
open OgsDp.Core List Option BitVec

theorem u24_toNat (t : UsageReportTrigger) :
    t.u24.toNat=t.reptri5.val*65536+t.reptri6.val*256+t.reptri7.val := by
  have h₅:=t.reptri5.isLt
  have h₆:=t.reptri6.isLt
  have h₇:=t.reptri7.isLt
  have hlow : t.reptri6.val <<< 8 ||| t.reptri7.val=t.reptri6.val*256+t.reptri7.val := by
    rw [← Nat.shiftLeft_add_eq_or_of_lt (show t.reptri7.val<2^8 from h₇),Nat.shiftLeft_eq]
  have hor : t.reptri5.val <<< 16 ||| t.reptri6.val <<< 8 ||| t.reptri7.val =
      t.reptri5.val*65536+(t.reptri6.val*256+t.reptri7.val) := by
    rw [Nat.or_assoc,hlow,← Nat.shiftLeft_add_eq_or_of_lt (i := 16) (by omega),Nat.shiftLeft_eq]
  unfold UsageReportTrigger.u24
  rw [hor,toNat_ofNat]
  omega

theorem parse_u24 (t : UsageReportTrigger) : parseUsageReportTrigger t.u24=t := by
  have hu:=u24_toNat t
  unfold parseUsageReportTrigger
  rw [hu]
  obtain ⟨a,b,c⟩ := t
  have ha:=a.isLt
  have hb:=b.isLt
  have hc:=c.isLt
  congr 1
  · apply Fin.ext
    rw [Fin.val_ofNat,Nat.shiftRight_eq_div_pow]
    dsimp only
    omega
  · apply Fin.ext
    rw [Fin.val_ofNat,Nat.shiftRight_eq_div_pow]
    dsimp only
    omega
  · apply Fin.ext
    rw [Fin.val_ofNat]
    dsimp only
    omega

theorem regular_reportRequest : Regular tlvDescUsageReportSessionReportRequest.children ∧
    Regular msgDescPfcpSessionReportRequest.children := by
  decide

theorem regular_deletionResponse : Regular tlvDescUsageReportSessionDeletionResponse.children ∧
    Regular msgDescPfcpSessionDeletionResponse.children := by
  decide

section Buffer

variable {rs : List UsageReport} {buf : List Byte} {r : UsageReport}

theorem usageReportBuf_append (rs : List UsageReport) (r : UsageReport) (buf : List Byte) :
    usageReportBuf (rs++[r]) buf =
      if r.volMeasurement.flags=0 then usageReportBuf rs buf
      else buildVolumeMeasurement r.volMeasurement ++
        (usageReportBuf rs buf).drop (buildVolumeMeasurement r.volMeasurement).length := by
  unfold usageReportBuf
  rw [foldl_append]
  rfl

theorem usageReportBuf_eq (buf : List Byte) (rs : List UsageReport) :
    (∀ r∈rs,r.volMeasurement.flags=0) ∨
      ∃ r∈rs,r.volMeasurement.flags≠0 ∧
        ∃ rest,usageReportBuf rs buf=buildVolumeMeasurement r.volMeasurement++rest := by
  induction rs using List.reverseRecOn with
  | nil => exact .inl fun r hr => nomatch hr
  | append_singleton rs r ih =>
    rw [usageReportBuf_append]
    by_cases hflags : r.volMeasurement.flags=0
    · rw [if_pos hflags]
      rcases ih with hnone | ⟨last,hlast,hmeasured,hrest⟩
      · refine .inl fun x hx => ?_
        rcases mem_append.mp hx with hx | hx
        · exact hnone x hx
        · rw [mem_singleton.mp hx]
          exact hflags
      · exact .inr ⟨last,mem_append_left _ hlast,hmeasured,hrest⟩
    · rw [if_neg hflags]
      exact .inr ⟨r,mem_append_right _ (mem_singleton_self r),hflags,_,rfl⟩

theorem volumeOctet_bounds (hr : r∈rs) :
    ∀ octet∈volumeOctet (usageReportBuf rs buf) r,octet≠[] ∧ octet.length≤49 := by
  intro octet hoctet
  unfold volumeOctet at hoctet
  have hle:=length_buildVolumeMeasurement_le r.volMeasurement
  have hpos : 0<(buildVolumeMeasurement r.volMeasurement).length := Nat.succ_pos _
  split at hoctet
  · cases hoctet
  · obtain rfl := some.inj hoctet
    rcases usageReportBuf_eq buf rs with hnone | ⟨last,-,-,rest,hbuf⟩
    · exact absurd (hnone r hr) ‹_›
    · have hlast : 0<(buildVolumeMeasurement last.volMeasurement).length := Nat.succ_pos _
      rw [hbuf]
      refine ⟨?_,?_⟩
      · apply ne_nil_of_length_pos
        rw [length_take,length_append]
        omega
      · rw [length_take]
        omega

end Buffer

section Fit

variable {n b k : Nat} {desc : TlvDesc} {x : BitVec 32}

theorem fitting_int (width : Nat) (hleaf : desc.ctype ≠ .compound)
    (hfits : LeafFits desc (intSlot x : Slot (Msg n)))
    (hbytes : leafBytes desc (intSlot x : Slot (Msg n))=netBytes width x.toNat)
    (hb : width≤b) : Fitting n b 1 desc (intSlot x) := by
  refine .leaf rfl hleaf hfits ?_
  rw [hbytes,length_netBytes]
  exact hb

theorem fitting_uint32 (hdesc : desc.ctype = .uint32) (hb : 4≤b) :
    Fitting n b 1 desc (intSlot x) := by
  refine fitting_int 4 ?_ ?_ ?_ hb
  · rw [hdesc]
    decide
  · unfold LeafFits
    rw [hdesc]
    trivial
  · unfold leafBytes
    rw [hdesc]
    rfl

theorem mem_singleton_fitting {v : Slot (Msg n)} (h : Fitting n b k desc v) :
    ∀ w∈[v],Fitting n b k desc w := by
  intro w hw
  rw [mem_singleton.mp hw]
  exact h

theorem mem_nonzeroRow (hdesc : desc.ctype = .uint32) (hb : 4≤b) :
    ∀ w∈(nonzeroRow x : List (Slot (Msg n))),Fitting n b 1 desc w := by
  intro w hw
  unfold nonzeroRow at hw
  split at hw
  · cases hw
  · rw [mem_singleton.mp hw]
    exact fitting_uint32 hdesc hb

theorem mem_octetsRow (hdesc : desc.ctype = .varStr) {octets : Option (List Byte)}
    (hoctets : ∀ octet∈octets,octet≠[] ∧ octet.length≤b) :
    ∀ w∈(octetsRow octets : List (Slot (Msg n))),Fitting n b 1 desc w := by
  intro w hw
  unfold octetsRow at hw
  obtain ⟨octet,hoctet,rfl⟩ := List.mem_map.mp hw
  obtain ⟨hne,hlen⟩ := hoctets octet (Option.mem_toList.mp hoctet)
  refine .leaf rfl ?_ ?_ ?_
  · rw [hdesc]
    decide
  · unfold LeafFits
    rw [hdesc]
    exact hne
  · unfold leafBytes
    rw [hdesc]
    exact hlen

theorem mem_nil_fitting : ∀ w∈([] : List (Slot (Msg n))),Fitting n b k desc w := by
  intro w hw
  cases hw

end Fit

theorem fitting_trigger (r : UsageReport) :
    Fitting 7 49 1 tlvDescUsageReportTrigger (intSlot r.repTrigger.u24) := by
  refine fitting_int 3 (by decide) ?_ rfl (by decide)
  show r.repTrigger.u24.toNat<256^3
  have hu:=u24_toNat r.repTrigger
  have h₅:=r.repTrigger.reptri5.isLt
  have h₆:=r.repTrigger.reptri6.isLt
  have h₇:=r.repTrigger.reptri7.isLt
  omega

theorem fitting_rowsSlot {desc : TlvDesc} (first : TlvDesc) {v : Slot (Msg 7)}
    {rows : List (List (Slot (Msg 7)))} (hcomp : desc.ctype = .compound)
    (hdescs : Regular desc.children) (hslots : (slots desc.children).length≤19)
    (hfirst : ⟨0,0,first⟩∈slots desc.children)
    (hfit : RowsFit 7 49 1 desc.children ([v]::rows)) :
    Fitting 8 1007 20 desc (rowsSlot ([v]::rows)) := by
  have hlen:=hfit.calcLength_le
  have hnodes:=hfit.nodes_le
  have hpresent : v.presence := by
    obtain ⟨d,ds,hrow,-,-⟩ := List.forall₂_cons_right_iff.mp hfit
    exact (hrow v (mem_singleton_self v)).presence
  exact .compound rfl hcomp (msgTlvs_ne_nil hfirst hpresent) (hfit.ok hdescs (by decide))
    (Nat.le_trans hlen (by omega)) (Nat.le_trans hnodes (by omega))

theorem fitting_reportRequestSlot {rs : List UsageReport} {buf : List Byte} {r : UsageReport}
    (hr : r∈rs) : Fitting 8 1007 20 tlvDescUsageReportSessionReportRequest
      (reportRequestSlot (usageReportBuf rs buf) r) := by
  refine fitting_rowsSlot tlvDescUrrId rfl regular_reportRequest.1 (by decide)
    (List.mem_of_getElem? (i := 0) rfl) ?_
  exact .cons (mem_singleton_fitting (fitting_uint32 rfl (by decide))) <|
    .cons (mem_singleton_fitting (fitting_uint32 rfl (by decide))) <|
    .cons (mem_singleton_fitting (fitting_trigger r)) <|
    .cons (mem_nonzeroRow rfl (by decide)) <| .cons (mem_nonzeroRow rfl (by decide)) <|
    .cons (mem_octetsRow rfl (volumeOctet_bounds hr)) <| .cons (mem_nonzeroRow rfl (by decide)) <|
    .cons mem_nil_fitting <| .cons mem_nil_fitting <| .cons mem_nil_fitting <|
    .cons (mem_nonzeroRow rfl (by decide)) <| .cons (mem_nonzeroRow rfl (by decide)) <|
    .cons mem_nil_fitting <| .cons mem_nil_fitting <| .cons mem_nil_fitting <|
    .cons mem_nil_fitting <| .cons mem_nil_fitting <| .cons mem_nil_fitting <|
    .cons mem_nil_fitting .nil

theorem fitting_deletionResponseSlot {rs : List UsageReport} {buf : List Byte} {r : UsageReport}
    (hr : r∈rs) : Fitting 8 1007 20 tlvDescUsageReportSessionDeletionResponse
      (deletionResponseSlot (usageReportBuf rs buf) r) := by
  refine fitting_rowsSlot tlvDescUrrId rfl regular_deletionResponse.1 (by decide)
    (List.mem_of_getElem? (i := 0) rfl) ?_
  exact .cons (mem_singleton_fitting (fitting_uint32 rfl (by decide))) <|
    .cons (mem_singleton_fitting (fitting_uint32 rfl (by decide))) <|
    .cons (mem_singleton_fitting (fitting_trigger r)) <|
    .cons (mem_nonzeroRow rfl (by decide)) <| .cons (mem_nonzeroRow rfl (by decide)) <|
    .cons (mem_octetsRow rfl (volumeOctet_bounds hr)) <|
    .cons (mem_singleton_fitting (fitting_uint32 rfl (by decide))) <|
    .cons (mem_nonzeroRow rfl (by decide)) <| .cons (mem_nonzeroRow rfl (by decide)) <|
    .cons mem_nil_fitting <| .cons mem_nil_fitting .nil

theorem readUsageReports_eq {read : Msg 8 → Except Stop UsageReport} {slots : Nat → Slot (Msg 8)}
    {f : UsageReport → Except Stop UsageReport} (rs : List UsageReport) {k j : Nat}
    (hlen : rs.length≤k)
    (hpresence : ∀ i<k,(slots (j+i)).presence=decide (i < rs.length))
    (hread : ∀ i (h : i < rs.length),read (slots (j+i)).sub=f rs[i]) :
    readUsageReports read slots k j=rs.mapM f := by
  induction rs generalizing k j with
  | nil =>
    cases k with
    | zero => rfl
    | succ k =>
      have hfirst:=hpresence 0 (Nat.succ_pos k)
      rw [Nat.add_zero] at hfirst
      rw [readUsageReports,hfirst]
      rfl
  | cons r rs ih =>
    cases k with
    | zero => exact absurd hlen (by simp)
    | succ k =>
      have hfirst:=hpresence 0 (Nat.succ_pos k)
      have hhead:=hread 0 (Nat.succ_pos _)
      rw [Nat.add_zero] at hfirst hhead
      have hrest:=@ih k (j+1) (by simpa using hlen)
        (fun i hi => by
          have hp:=hpresence (i+1) (by omega)
          rw [← Nat.add_assoc,Nat.add_right_comm] at hp
          rw [hp]
          simp)
        (fun i hi => by
          have hr:=hread (i+1) (by simpa using hi)
          rw [← Nat.add_assoc,Nat.add_right_comm] at hr
          exact hr)
      rw [readUsageReports,hfirst,if_pos (by simp),hhead,hrest,mapM_cons]
      rfl

theorem mapM_eq_ok {f : UsageReport → Except Stop UsageReport} {g : UsageReport → UsageReport}
    (rs : List UsageReport) : rs.mapM f = .ok (rs.map g) ↔ ∀ r∈rs,f r = .ok (g r) := by
  induction rs with
  | nil => exact ⟨fun _ r hr => (nomatch hr),fun _ => rfl⟩
  | cons r rs ih =>
    rw [mapM_cons,forall_mem_cons,← ih]
    cases hr : f r with
    | error e => exact ⟨fun h => (nomatch h),fun h => nomatch h.1⟩
    | ok x =>
      cases hrs : rs.mapM f with
      | error e => exact ⟨fun h => (nomatch h),fun h => nomatch h.2⟩
      | ok xs =>
        constructor
        · intro h
          have hcons:=cons_eq_cons.mp (Except.ok.inj h)
          exact ⟨congrArg _ hcons.1,congrArg _ hcons.2⟩
        · intro h
          show Except.ok (x::xs)=_
          rw [Except.ok.inj h.1,Except.ok.inj h.2,map_cons]

def received (buf : List Byte) (r : UsageReport) : Except Stop UsageReport := do
  let volume ← readVolume (volumeOctet buf r)
  return { r with volMeasurement := volume }

theorem number_nonzeroRow {n : Nat} (x : BitVec 32) :
    (((nonzeroRow x : List (Slot (Msg n)))[0]?).getD absent).number=x := by
  unfold nonzeroRow
  split
  · rename_i hx
    exact hx.symm
  · rfl

theorem number_nonzero {descs : List TlvDesc} {m w : Msg 8} {x : BitVec 32}
    (h : Agrees 8 descs m w) (i : Nat) (d : TlvDesc) (hd : (slots descs)[i]?=some ⟨i,0,d⟩)
    (hint : d.ctype = .uint32) (hrow : m i 0=((nonzeroRow x)[0]?).getD absent) :
    (w i 0).number=x := by
  have hnumber:=h.number (f := ⟨i,0,d⟩) (List.mem_of_getElem? hd) (.inl hint)
  rw [hnumber,hrow]
  exact number_nonzeroRow x

theorem octets_octetsRow {n : Nat} (octets : Option (List Byte)) :
    (((octetsRow octets : List (Slot (Msg n)))[0]?).getD absent).octets=octets := by
  cases octets <;> rfl

theorem readUsageReport_request {buf : List Byte} {r : UsageReport} {w : Msg 8}
    (h : Agrees 8 tlvDescUsageReportSessionReportRequest.children (reportRequestSlot buf r).sub w) :
    readUsageReport 10 11 w=received buf r := by
  have hid : (w 0 0).number=r.id :=
    h.number (f := ⟨0,0,tlvDescUrrId⟩) (List.mem_of_getElem? (i := 0) rfl) (.inl rfl)
  have hseqn : (w 1 0).number=r.seqn :=
    h.number (f := ⟨1,0,tlvDescUrSeqn⟩) (List.mem_of_getElem? (i := 1) rfl) (.inl rfl)
  have htrigger : (w 2 0).number=r.repTrigger.u24 :=
    h.number (f := ⟨2,0,tlvDescUsageReportTrigger⟩) (List.mem_of_getElem? (i := 2) rfl)
      (.inr rfl)
  have hstart : (w 3 0).number=r.startTime :=
    number_nonzero h 3 tlvDescStartTime rfl rfl rfl
  have hend : (w 4 0).number=r.endTime :=
    number_nonzero h 4 tlvDescEndTime rfl rfl rfl
  have hvolume : (w 5 0).octets=volumeOctet buf r :=
    (h.octets (f := ⟨5,0,tlvDescVolumeMeasurement⟩) (List.mem_of_getElem? (i := 5) rfl)
      rfl).trans (octets_octetsRow _)
  have hdur : (w 6 0).number=r.durMeasurement :=
    number_nonzero h 6 tlvDescDurationMeasurement rfl rfl rfl
  have hfirst : (w 10 0).number=r.timeOfFirstPacket :=
    number_nonzero h 10 tlvDescTimeOfFirstPacket rfl rfl rfl
  have hlast : (w 11 0).number=r.timeOfLastPacket :=
    number_nonzero h 11 tlvDescTimeOfLastPacket rfl rfl rfl
  unfold readUsageReport received
  rw [hid,hseqn,htrigger,hstart,hend,hvolume,hdur,hfirst,hlast,parse_u24]

theorem readUsageReport_deletion {buf : List Byte} {r : UsageReport} {w : Msg 8}
    (h : Agrees 8 tlvDescUsageReportSessionDeletionResponse.children
      (deletionResponseSlot buf r).sub w) : readUsageReport 7 8 w=received buf r := by
  have hid : (w 0 0).number=r.id :=
    h.number (f := ⟨0,0,tlvDescUrrId⟩) (List.mem_of_getElem? (i := 0) rfl) (.inl rfl)
  have hseqn : (w 1 0).number=r.seqn :=
    h.number (f := ⟨1,0,tlvDescUrSeqn⟩) (List.mem_of_getElem? (i := 1) rfl) (.inl rfl)
  have htrigger : (w 2 0).number=r.repTrigger.u24 :=
    h.number (f := ⟨2,0,tlvDescUsageReportTrigger⟩) (List.mem_of_getElem? (i := 2) rfl)
      (.inr rfl)
  have hstart : (w 3 0).number=r.startTime :=
    number_nonzero h 3 tlvDescStartTime rfl rfl rfl
  have hend : (w 4 0).number=r.endTime :=
    number_nonzero h 4 tlvDescEndTime rfl rfl rfl
  have hvolume : (w 5 0).octets=volumeOctet buf r :=
    (h.octets (f := ⟨5,0,tlvDescVolumeMeasurement⟩) (List.mem_of_getElem? (i := 5) rfl)
      rfl).trans (octets_octetsRow _)
  have hdur : (w 6 0).number=r.durMeasurement :=
    h.number (f := ⟨6,0,tlvDescDurationMeasurement⟩) (List.mem_of_getElem? (i := 6) rfl)
      (.inl rfl)
  have hfirst : (w 7 0).number=r.timeOfFirstPacket :=
    number_nonzero h 7 tlvDescTimeOfFirstPacket rfl rfl rfl
  have hlast : (w 8 0).number=r.timeOfLastPacket :=
    number_nonzero h 8 tlvDescTimeOfLastPacket rfl rfl rfl
  unfold readUsageReport received
  rw [hid,hseqn,htrigger,hstart,hend,hvolume,hdur,hfirst,hlast,parse_u24]

theorem yields_iff {desc d : TlvDesc} (child : Nat) {rows : List (List (Slot (Msg 8)))}
    {slot : UsageReport → Slot (Msg 8)} {read : Msg 8 → Except Stop UsageReport}
    {report : UserPlaneReport} {buf : List Byte} (henc : report.Encodable)
    (hround : RoundTrips desc (ofRows rows) (blankMsg 9) .t2L2 clusterBigSize tlvPool tlvPool)
    (hrow : rows[child]?=some (report.reported.map slot))
    (hslots : ∀ j<8,⟨child,j,d⟩∈slots desc.children) (hcomp : d.ctype = .compound)
    (hpresent : ∀ r,(slot r).presence)
    (hread : ∀ r w,Agrees 8 d.children (slot r).sub w → read w=received buf r) :
    Yields (buildReports desc rows report) (fun bytes => do
        let m ← ogsTlvParseMsg (blankMsg 9) desc bytes .t2L2 tlvPool
        readUsageReports read (m child) 8 0) report ↔
      ∀ r∈report.reported,received buf r = .ok r.sent := by
  obtain ⟨bytes,parsed,hbuild,hparse,hagrees⟩ := hround
  have hslot : ∀ i (h : i < report.reported.length),
      ofRows rows child i=slot report.reported[i] := by
    intro i hi
    unfold ofRows
    rw [hrow,getD_some,List.getElem?_map,List.getElem?_eq_getElem hi]
    rfl
  have hreports : readUsageReports read (parsed child) 8 0 =
      report.reported.mapM (received buf) := by
    refine readUsageReports_eq report.reported henc.le ?_ ?_
    · intro i hi
      have hp:=(hagrees _ (hslots i hi)).1
      rw [Nat.zero_add]
      refine hp.trans ?_
      by_cases hlt : i < report.reported.length
      · show (ofRows rows child i).presence=_
        rw [hslot i hlt,hpresent,decide_eq_true hlt]
      · show (ofRows rows child i).presence=_
        unfold ofRows
        rw [hrow,getD_some,List.getElem?_eq_none (by simpa using hlt),
          decide_eq_false hlt]
        rfl
    · intro i hi
      have hlt : i<8 := Nat.lt_of_lt_of_le hi henc.le
      have hsub:=hagrees.sub (hslots i hlt) hcomp (by
        show (ofRows rows child i).presence
        rw [hslot i hi]
        exact hpresent _)
      rw [Nat.zero_add]
      refine hread _ _ ?_
      rw [← hslot i hi]
      exact hsub
  have hbuilt : buildReports desc rows report = .ok bytes := by
    unfold buildReports
    rw [if_neg (fun h => henc.ne_nil h.1 h.2),if_neg (Nat.not_lt.mpr henc.le),hbuild]
  unfold Yields
  rw [hbuilt,← mapM_eq_ok,← hreports]
  show Except.bind (ogsTlvParseMsg _ _ _ _ _) _=_ ↔ _
  rw [hparse]
  rfl

theorem bind_ok {α β : Type} {x : Except Stop α} {f : α → Except Stop β} {b : β}
    (h : x.bind f = .ok b) : ∃ a,x = .ok a ∧ f a = .ok b := by
  cases x with
  | error e => cases h
  | ok a => exact ⟨a,rfl,h⟩

theorem parse_flags {x : Byte} {l : List Byte} {v : VolumeMeasurement}
    (h : parseVolumeMeasurement (x::l) = .ok v) : v.flags=x := by
  have hx : readNet (x::l) 0 1 = .ok x.val := by
    unfold readNet
    rw [if_pos (by simp)]
    simp [netValue]
  unfold parseVolumeMeasurement at h
  rw [hx] at h
  obtain ⟨octet0,hoctet0,h⟩ := bind_ok h
  obtain rfl := Except.ok.inj hoctet0
  obtain ⟨p₀,-,h⟩ := bind_ok h
  obtain ⟨p₁,-,h⟩ := bind_ok h
  obtain ⟨p₂,-,h⟩ := bind_ok h
  obtain ⟨p₃,-,h⟩ := bind_ok h
  obtain ⟨p₄,-,h⟩ := bind_ok h
  obtain ⟨p₅,-,h⟩ := bind_ok h
  dsimp only at h
  split at h
  · cases h
  · obtain rfl := Except.ok.inj h
    exact Fin.ofNat_val_eq_self x

theorem received_eq_ok {buf : List Byte} {r : UsageReport} :
    received buf r = .ok r.sent ↔ readVolume (volumeOctet buf r) = .ok r.volMeasurement.sent := by
  unfold received
  cases readVolume (volumeOctet buf r) with
  | error e => exact ⟨fun h => (nomatch h),fun h => nomatch h⟩
  | ok v =>
    constructor
    · intro h
      exact congrArg _ (congrArg UsageReport.volMeasurement (Except.ok.inj h))
    · intro h
      obtain rfl := Except.ok.inj h
      rfl

theorem readVolume_iff {buf rest : List Byte} {r last : UsageReport}
    (hr : r.volMeasurement.flags≠0)
    (hbuf : buf=buildVolumeMeasurement last.volMeasurement++rest) :
    readVolume (volumeOctet buf r) = .ok r.volMeasurement.sent ↔
      r.volMeasurement.sent=last.volMeasurement.sent := by
  have hoctet : volumeOctet buf r =
      some (buf.take (buildVolumeMeasurement r.volMeasurement).length) := if_neg hr
  rw [hoctet,hbuf]
  show parseVolumeMeasurement _=_ ↔ _
  constructor
  · intro h
    have hsent : r.volMeasurement.sent.flags=last.volMeasurement.flags := parse_flags h
    have hflags : r.volMeasurement.flags=last.volMeasurement.flags := hsent
    rw [length_buildVolumeMeasurement hflags,take_left',parse_buildVolumeMeasurement] at h
    · exact (Except.ok.inj h).symm
    · rfl
  · intro h
    rw [buildVolumeMeasurement_inj.mpr h,take_left',parse_buildVolumeMeasurement,h]
    rfl

theorem received_iff (rs : List UsageReport) (buf : List Byte) :
    (∀ r∈rs,received (usageReportBuf rs buf) r = .ok r.sent) ↔ OneVolume rs := by
  have hunmeasured : ∀ r : UsageReport, r.volMeasurement.flags=0 →
      received (usageReportBuf rs buf) r = .ok r.sent := by
    intro r hr
    rw [received_eq_ok]
    have hoctet : volumeOctet (usageReportBuf rs buf) r=none := if_pos hr
    rw [hoctet]
    show Except.ok VolumeMeasurement.zero=_
    congr 1
    unfold VolumeMeasurement.sent VolumeMeasurement.tovol VolumeMeasurement.ulvol
      VolumeMeasurement.dlvol VolumeMeasurement.tonop VolumeMeasurement.ulnop
      VolumeMeasurement.dlnop
    rw [hr]
    rfl
  rcases usageReportBuf_eq buf rs with hnone | ⟨last,hlast,hmeasured,rest,hbuf⟩
  · constructor
    · intro _ r hr r' _ hr'
      exact absurd (hnone r hr) hr'
    · intro _ r hr
      exact hunmeasured r (hnone r hr)
  · constructor
    · intro h
      have hall : ∀ r∈rs,r.volMeasurement.flags≠0 →
          r.volMeasurement.sent=last.volMeasurement.sent := by
        intro r hr hflags
        exact (readVolume_iff hflags hbuf).mp (received_eq_ok.mp (h r hr))
      intro r hr r' hr' hflags hflags'
      rw [hall r hr hflags,hall r' hr' hflags']
    · intro h r hr
      by_cases hflags : r.volMeasurement.flags=0
      · exact hunmeasured r hflags
      · exact received_eq_ok.mpr
          ((readVolume_iff hflags hbuf).mpr (h r hr last hlast hflags hmeasured))

theorem rowsFit_reportRequest (report : UserPlaneReport) (buf : List Byte) :
    RowsFit 8 1007 20 msgDescPfcpSessionReportRequest.children (reportRequestRows report buf) := by
  have htype : Fitting 8 49 1 tlvDescReportType (intSlot (BitVec.ofNat 32 report.type.val)) := by
    refine fitting_int 1 (by decide) ?_ rfl (by decide)
    show (BitVec.ofNat 32 report.type.val).toNat<256^1
    rw [toNat_ofNat]
    omega
  have hpdr : (BitVec.ofNat 32 report.pdrId.val).toNat<256^2 := by
    rw [toNat_ofNat]
    omega
  have hinfo : ∀ octet ∈ downlinkDataServiceInformation report,
      octet≠[] ∧ octet.length≤49 := by
    intro octet hoctet
    unfold downlinkDataServiceInformation at hoctet
    split_ifs at hoctet <;> cases hoctet <;> exact ⟨cons_ne_nil _ _,by simp⟩
  have hdownlink : ∀ v ∈ downlinkDataRow report,
      Fitting 8 1007 20 tlvDescDownlinkDataReport v := by
    intro v hv
    unfold downlinkDataRow at hv
    split at hv
    · rw [mem_singleton.mp hv]
      refine fitting_rowsSlot tlvDescPdrId rfl (by decide) (by decide)
        (List.mem_of_getElem? (i := 0) rfl) ?_
      exact .cons (mem_singleton_fitting
          (fitting_int 2 (by decide) hpdr rfl (by decide))) <|
        .cons (mem_octetsRow rfl hinfo) <| .cons mem_nil_fitting <| .cons mem_nil_fitting .nil
    · cases hv
  have hreports : ∀ v ∈ report.reported.map
      (reportRequestSlot (usageReportBuf report.reported buf)),
      Fitting 8 1007 20 tlvDescUsageReportSessionReportRequest v := by
    intro v hv
    obtain ⟨r,hr,rfl⟩ := List.mem_map.mp hv
    exact fitting_reportRequestSlot hr
  have herror : ∀ v ∈ errorIndicationRow report,
      Fitting 8 1007 20 tlvDescErrorIndicationReport v := by
    intro v hv
    unfold errorIndicationRow at hv
    split at hv
    · cases hv
    · rename_i hne
      rw [mem_singleton.mp hv]
      refine fitting_rowsSlot tlvDescFTeid rfl (by decide) (by decide)
        (List.mem_of_getElem? (i := 0) rfl) ?_
      refine .cons (mem_singleton_fitting (.leaf rfl (by decide) hne ?_)) .nil
      exact Nat.le_trans report.remoteFTeid.property (by decide)
  exact .cons (mem_singleton_fitting (htype.mono (by decide) (by decide))) <|
    .cons hdownlink <| .cons hreports <| .cons mem_nil_fitting <| .cons herror <|
    .cons mem_nil_fitting <| .cons mem_nil_fitting <| .cons mem_nil_fitting <|
    .cons mem_nil_fitting <| .cons mem_nil_fitting <| .cons mem_nil_fitting <|
    .cons mem_nil_fitting <| .cons mem_nil_fitting <| .cons mem_nil_fitting .nil

theorem rowsFit_deletionResponse (cause : Byte) (report : UserPlaneReport) (buf : List Byte) :
    RowsFit 8 1007 20 msgDescPfcpSessionDeletionResponse.children
      (deletionResponseRows cause report buf) := by
  have hcause : Fitting 8 49 1 tlvDescCause (intSlot (BitVec.ofNat 32 cause.val)) := by
    refine fitting_int 1 (by decide) ?_ rfl (by decide)
    show (BitVec.ofNat 32 cause.val).toNat<256^1
    rw [toNat_ofNat]
    omega
  have hreports : ∀ v ∈ report.reported.map
      (deletionResponseSlot (usageReportBuf report.reported buf)),
      Fitting 8 1007 20 tlvDescUsageReportSessionDeletionResponse v := by
    intro v hv
    obtain ⟨r,hr,rfl⟩ := List.mem_map.mp hv
    exact fitting_deletionResponseSlot hr
  exact .cons (mem_singleton_fitting (hcause.mono (by decide) (by decide))) <|
    .cons mem_nil_fitting <| .cons mem_nil_fitting <| .cons mem_nil_fitting <| .cons hreports <|
    .cons mem_nil_fitting <| .cons mem_nil_fitting <| .cons mem_nil_fitting <|
    .cons mem_nil_fitting <| .cons mem_nil_fitting <| .cons mem_nil_fitting .nil

theorem roundTrips_of_fit {desc : TlvDesc} (first : TlvDesc) {v : Slot (Msg 8)}
    {rows : List (List (Slot (Msg 8)))} (hctype : desc.ctype = .message)
    (hdescs : Regular desc.children) (hslots : (slots desc.children).length≤20)
    (hfirst : ⟨0,0,first⟩∈slots desc.children) (hclear : Clear 9 desc.children (blankMsg 9))
    (hfit : RowsFit 8 1007 20 desc.children ([v]::rows)) :
    RoundTrips desc (ofRows ([v]::rows)) (blankMsg 9) .t2L2 clusterBigSize tlvPool tlvPool := by
  have hlen : calcLength (msgTlvs .t2L2 9 desc.children (ofRows ([v]::rows)))≤20*1011 :=
    Nat.le_trans hfit.calcLength_le (Nat.mul_le_mul_right 1011 hslots)
  have hnodes : nodes (msgTlvs .t2L2 9 desc.children (ofRows ([v]::rows)))≤20*20 :=
    Nat.le_trans hfit.nodes_le (Nat.mul_le_mul_right 20 hslots)
  have hpresent : v.presence := by
    obtain ⟨d,ds,hrow,-,-⟩ := List.forall₂_cons_right_iff.mp hfit
    exact (hrow v (mem_singleton_self v)).presence
  unfold clusterBigSize tlvPool
  exact tlv_round_trip hctype (hfit.ok hdescs (by decide)) (msgTlvs_ne_nil hfirst hpresent) hclear
    (by omega) (by omega) (by omega)

theorem reportRequest_iff (report : UserPlaneReport) (buf : List Byte) (h : report.Encodable) :
    Yields (buildSessionReportRequest report buf) parseSessionReportRequest report ↔
      OneVolume report.reported := by
  have hround:=roundTrips_of_fit tlvDescReportType rfl regular_reportRequest.2
    (by decide) (List.mem_of_getElem? (i := 0) rfl) (by decide)
    (rowsFit_reportRequest report buf)
  refine (yields_iff (d := tlvDescUsageReportSessionReportRequest) 2 h hround rfl ?_ rfl
    (fun _ => rfl) fun r w hw => readUsageReport_request hw).trans (received_iff _ buf)
  intro j hj
  exact List.mem_of_getElem? (i := 2+j) (by interval_cases j <;> rfl)

theorem deletionResponse_iff (cause : Byte) (report : UserPlaneReport) (buf : List Byte)
    (h : report.Encodable) :
    Yields (buildSessionDeletionResponse cause report buf) parseSessionDeletionResponse report ↔
      OneVolume report.reported := by
  have hround:=roundTrips_of_fit tlvDescCause rfl regular_deletionResponse.2
    (by decide) (List.mem_of_getElem? (i := 0) rfl) (by decide)
    (rowsFit_deletionResponse cause report buf)
  refine (yields_iff (d := tlvDescUsageReportSessionDeletionResponse) 4 h hround rfl ?_
    rfl (fun _ => rfl) fun r w hw => readUsageReport_deletion hw).trans (received_iff _ buf)
  intro j hj
  exact List.mem_of_getElem? (i := 4+j) (by interval_cases j <;> rfl)

instance (build : Except Stop (List Byte)) (parse : List Byte → Except Stop (List UsageReport))
    (report : UserPlaneReport) : Decidable (Yields build parse report) :=
  inferInstanceAs (Decidable (_=_))

/-- Both messages give each usage report back if and only if all that measure a volume have the
same measurement. -/
theorem usage_reports_yielded (report : UserPlaneReport) (buf : List Byte) (cause : Byte)
    (h : report.Encodable) :
    (Yields (buildSessionReportRequest report buf) parseSessionReportRequest report ↔
        OneVolume report.reported) ∧
      (Yields (buildSessionDeletionResponse cause report buf) parseSessionDeletionResponse report ↔
        OneVolume report.reported) :=
  ⟨reportRequest_iff report buf h,deletionResponse_iff cause report buf h⟩

def twoReports : UserPlaneReport where
  type := 2
  pdrId := 0
  pagingPolicyIndicationValue := 0
  qfi := 0
  usageReport :=
    [⟨1,0,⟨2,0,0⟩,4,5,⟨1,100,0,0,0,0,0⟩,9,10,11⟩,
      ⟨2,0,⟨2,0,0⟩,4,5,⟨1,200,0,0,0,0,0⟩,9,10,11⟩]
  remoteFTeid := ⟨[],by decide⟩

theorem usage_reports_yielded_two :
    (Yields (buildSessionReportRequest twoReports []) parseSessionReportRequest twoReports ↔
        OneVolume twoReports.reported) ∧
      (Yields (buildSessionDeletionResponse 1 twoReports []) parseSessionDeletionResponse
        twoReports ↔ OneVolume twoReports.reported) :=
  usage_reports_yielded twoReports [] 1 ⟨fun _ => cons_ne_nil _ _,by decide⟩

set_option maxRecDepth 4000 in
theorem second_volume_in_both : twoReports.Encodable ∧
    ¬ Yields (buildSessionReportRequest twoReports []) parseSessionReportRequest twoReports ∧
    ¬ Yields (buildSessionDeletionResponse 1 twoReports []) parseSessionDeletionResponse
      twoReports := by
  refine ⟨⟨fun _ => cons_ne_nil _ _,by decide⟩,?_,?_⟩
  · decide
  · decide

end OgsDp.Pfcp
