import Mathlib.Data.List.TakeDrop
import OgsDp.Core.Conv
import OgsDp.Smf.Pco

/-!
# Answers to Protocol Configuration Options

Of the answer only the lengths matter for the bounds. A container is known by the lengths of what
it adds, and the function returns exactly if all of them fit.
-/

namespace OgsDp.Smf
open Lib OgsDp.Core Option

def ipcpLen (data : List Byte) : Nat := (data.getD 2 0).val*256+(data.getD 3 0).val

def OptionReadable (opt : Byte) (data : List Byte) : Prop :=
  Gives (ipcpContainsOption opt (data.drop 4) (ipcpLen data-4)) fun _ => True

def optionAnswer (opt : Byte) (dns : Option (Vector Byte 4)) (data : List Byte) :
    List (List Byte) :=
  match dns with
  | none => []
  | some addr =>
    if ipcpContainsOption opt (data.drop 4) (ipcpLen data-4) = .ok true then
      [opt::6::addr.toList]
    else []

def PcoId.Asks (c : PcoId) (code : Byte) : Prop := c.data.head?=some code

instance (c : PcoId) (code : Byte) : Decidable (c.Asks code) :=
  inferInstanceAs (Decidable (c.data.head?=some code))

def answerLens (cfg : PcoConfig) (c : PcoId) : List Nat :=
  match pcoKind c.id with
  | .pap => if c.Asks 1 then [papSize cfg % 256] else []
  | .chap => if c.Asks 2 then [4] else []
  | .ipcp =>
    if c.Asks 1 then
      [4+6*((optionAnswer primaryDns cfg.dns.1 c.data).length +
        (optionAnswer secondaryDns cfg.dns.2 c.data).length)]
    else []
  | .dns => (cfg.dns.1.toList++cfg.dns.2.toList).map fun _ => 4
  | .dns6 => (cfg.dns6.1.toList++cfg.dns6.2.toList).map fun _ => 16
  | .pCscf => if cfg.pCscf≠[] then [4] else []
  | .pCscf6 => if cfg.pCscf6≠[] then [16] else []
  | .mtu => if cfg.mtu≠0 then [2] else []
  | .localAddrTft => [0]
  | .other => []

def PcoId.IsIpcp (c : PcoId) : Prop := pcoKind c.id = .ipcp ∧ c.Asks 1

instance (c : PcoId) : Decidable c.IsIpcp :=
  inferInstanceAs (Decidable (pcoKind c.id = .ipcp ∧ c.Asks 1))

/-- What is read of the container is in it; a Configuration Request finds a DNS server. -/
def PcoId.Readable (cfg : PcoConfig) (c : PcoId) : Prop :=
  match pcoKind c.id with
  | .pap => c.data≠[] ∧ (c.Asks 1 → 2 ≤ c.data.length)
  | .chap => c.data≠[] ∧ (c.Asks 2 → 2 ≤ c.data.length)
  | .ipcp => c.data≠[] ∧ (c.Asks 1 → (cfg.dns.1.isSome ∨ cfg.dns.2.isSome) ∧
      4 ≤ c.data.length ∧ (cfg.dns.1.isSome → OptionReadable primaryDns c.data) ∧
        (cfg.dns.2.isSome → OptionReadable secondaryDns c.data))
  | _ => True

/-- The answer fits: at most four Configuration Requests, 32 answers and 251 octets. -/
structure Answerable (cfg : PcoConfig) (ids : List PcoId) : Prop where
  readable : ∀ c∈ids,c.Readable cfg
  ipcp : (ids.filter fun c => c.IsIpcp).length ≤ maxNumOfIpcp
  count : (ids.flatMap (answerLens cfg)).length ≤ maxNumOfId
  length : 1+((ids.flatMap (answerLens cfg)).map fun len => 3+len).sum ≤ maxPcoLen

structure PcoSizes where
  lens : List Nat
  ipcp : Nat

section Containers

variable {cfg : PcoConfig}

def SmfPco.sizes (s : SmfPco cfg) : PcoSizes := ⟨s.ids.map fun a => a.len.val,s.ipcp.length⟩

def PcoSizes.next (cfg : PcoConfig) (t : PcoSizes) (c : PcoId) : PcoSizes :=
  ⟨t.lens++answerLens cfg c,t.ipcp + if c.IsIpcp then 1 else 0⟩

structure PcoSizes.Needs (cfg : PcoConfig) (t : PcoSizes) (c : PcoId) : Prop where
  readable : c.Readable cfg
  ipcp : c.IsIpcp → t.ipcp < maxNumOfIpcp
  count : answerLens cfg c≠[] → t.lens.length+(answerLens cfg c).length ≤ maxNumOfId

theorem gives_readOctet {data : List Byte} {i : Nat} {P : Byte → Prop} :
    Gives (readOctet data i) P ↔ i<data.length ∧ P (data.getD i 0) := by
  unfold readOctet
  by_cases hi : i<data.length
  · have hget : data[i]?=some (data.getD i 0) := by
      rw [List.getD_eq_getElem?_getD,List.getElem?_eq_getElem hi,getD_some]
    rw [hget]
    exact gives_ok.trans (and_iff_right hi).symm
  · have hget : data[i]?=none := List.getElem?_eq_none (Nat.le_of_not_lt hi)
    rw [hget]
    exact iff_of_false not_gives_error fun h => hi h.1

theorem gives_addId {s : SmfPco cfg} {id : BitVec 16} {len : Nat} {data : AnswerData}
    {P : SmfPco cfg → Prop} :
    Gives (addId s id len data) P ↔ s.sizes.lens.length < maxNumOfId ∧
      P { s with ids := s.ids++[⟨id,Fin.ofNat 256 len,data⟩] } := by
  unfold addId SmfPco.sizes
  rw [gives_check,gives_ok,List.length_map]

def Exact (c : PcoId) (x : SmfPco cfg → Except Fault (SmfPco cfg)) : Prop :=
  ∀ (s : SmfPco cfg) (Q : PcoSizes → Prop),Gives (x s) (fun s' => Q s'.sizes) ↔
    s.sizes.Needs cfg c ∧ Q (s.sizes.next cfg c)

theorem PcoId.asks_iff {c : PcoId} {code : Byte} :
    c.Asks code ↔ c.data≠[] ∧ c.data.getD 0 0=code := by
  unfold Asks
  cases c.data with
  | nil => simp
  | cons b data => simp

theorem exact_answers {c : PcoId} {lens : List Nat} (hipcp : ¬ c.IsIpcp)
    (hlens : answerLens cfg c=lens) (t : PcoSizes) (Q : PcoSizes → Prop) :
    t.Needs cfg c ∧ Q (t.next cfg c) ↔
      c.Readable cfg ∧ (lens≠[] → t.lens.length+lens.length ≤ maxNumOfId) ∧
        Q ⟨t.lens++lens,t.ipcp⟩ := by
  subst hlens
  have hnext : t.next cfg c=⟨t.lens++answerLens cfg c,t.ipcp⟩ := by
    simp only [PcoSizes.next,if_neg hipcp,Nat.add_zero]
  rw [hnext]
  constructor
  · rintro ⟨hneeds,hQ⟩
    exact ⟨hneeds.readable,hneeds.count,hQ⟩
  · rintro ⟨hreadable,hcount,hQ⟩
    exact ⟨⟨hreadable,fun h => absurd h hipcp,hcount⟩,hQ⟩

theorem one_answer {n len : Nat} : ([len]≠[] → n+[len].length ≤ maxNumOfId) ↔ n < maxNumOfId :=
  ⟨fun h => h (List.cons_ne_nil _ _),fun h _ => h⟩

theorem exact_request {c : PcoId} {code : Byte} {len : Nat} {data : AnswerData}
    (put : SmfPco cfg → Byte → SmfPco cfg) (hput : ∀ s b,(put s b).sizes=s.sizes)
    (hipcp : ¬ c.IsIpcp)
    (hreadable : c.Readable cfg ↔ c.data≠[] ∧ (c.Asks code → 2 ≤ c.data.length))
    (hlens : answerLens cfg c = if c.Asks code then [len % 256] else []) :
    Exact c fun s : SmfPco cfg => pcoRequest s c code len data put := by
  intro s Q
  unfold pcoRequest
  rw [exact_answers hipcp hlens,hreadable,gives_bind,gives_readOctet,List.length_pos_iff]
  by_cases hdata : c.data=[]
  · exact iff_of_false (fun h => h.1 hdata) fun h => h.1.1 hdata
  by_cases hcode : c.data.getD 0 0=code
  · have hasks : c.Asks code := PcoId.asks_iff.mpr ⟨hdata,hcode⟩
    have hsizes : ∀ b,({ put s b with
        ids := (put s b).ids++[⟨c.id,Fin.ofNat 256 len,data⟩] } : SmfPco cfg).sizes =
          ⟨s.sizes.lens++[len % 256],s.sizes.ipcp⟩ := by
      intro b
      rw [← hput s b]
      simp [SmfPco.sizes]
    rw [if_pos hcode,gives_bind,gives_readOctet,gives_addId,hput,hsizes,if_pos hasks,
      one_answer]
    have hlen : 1<c.data.length ↔ (c.Asks code → 2 ≤ c.data.length) :=
      ⟨fun h _ => h,fun h => h hasks⟩
    rw [hlen,and_assoc]
  · have hasks : ¬ c.Asks code := fun h => hcode (PcoId.asks_iff.mp h).2
    rw [if_neg hcode,gives_ok,if_neg hasks,List.append_nil]
    simp [hdata,hasks]

theorem pcoPap_exact {c : PcoId} (hkind : pcoKind c.id = .pap) :
    Exact c fun s : SmfPco cfg => pcoPap s c := by
  refine exact_request (fun s b => { s with pap := papAck cfg b }) (fun _ _ => rfl) ?_ ?_ ?_
  · exact fun h => nomatch hkind.symm.trans h.1
  · unfold PcoId.Readable
    rw [hkind]
  · unfold answerLens
    rw [hkind]

theorem pcoChap_exact {c : PcoId} (hkind : pcoKind c.id = .chap) :
    Exact c fun s : SmfPco cfg => pcoChap s c := by
  refine exact_request (fun s b => { s with chap := 3::b::netBytes 2 4 })
    (fun _ _ => rfl) ?_ ?_ ?_
  · exact fun h => nomatch hkind.symm.trans h.1
  · unfold PcoId.Readable
    rw [hkind]
  · unfold answerLens
    rw [hkind]

theorem length_optionAnswer_le (opt : Byte) (dns : Option (Vector Byte 4)) (data : List Byte) :
    (optionAnswer opt dns data).length≤1 := by
  unfold optionAnswer
  cases dns with
  | none => exact Nat.zero_le 1
  | some addr =>
    dsimp only
    split
    · exact Nat.le_refl 1
    · exact Nat.zero_le 1

theorem gives_dnsOption {opt : Byte} {dns : Option (Vector Byte 4)} {data : List Byte}
    {options : List (List Byte)} (hroom : options.length < maxNumOfIpcpOptions)
    {P : List (List Byte) → Prop} :
    Gives (dnsOption opt dns data (ipcpLen data) options) P ↔
      (dns.isSome → OptionReadable opt data) ∧ P (options++optionAnswer opt dns data) := by
  unfold dnsOption optionAnswer OptionReadable
  cases dns with
  | none => simp [gives_ok]
  | some addr =>
    dsimp only
    rw [gives_bind]
    cases hwalk : ipcpContainsOption opt (data.drop 4) (ipcpLen data-4) with
    | error e =>
      exact iff_of_false not_gives_error fun h => not_gives_error (h.1 rfl)
    | ok found =>
      rw [gives_ok,gives_ok]
      cases found with
      | false => simp [gives_ok]
      | true => simp [gives_ok,hroom,Nat.le_of_lt hroom]

theorem pcoIpcp_exact {c : PcoId} (hkind : pcoKind c.id = .ipcp) :
    Exact c fun s : SmfPco cfg => pcoIpcp s c := by
  intro s Q
  have hreadable : c.Readable cfg ↔ c.data≠[] ∧ (c.Asks 1 →
      (cfg.dns.1.isSome ∨ cfg.dns.2.isSome) ∧ 4 ≤ c.data.length ∧
        (cfg.dns.1.isSome → OptionReadable primaryDns c.data) ∧
          (cfg.dns.2.isSome → OptionReadable secondaryDns c.data)) := by
    unfold PcoId.Readable
    rw [hkind]
  unfold pcoIpcp
  rw [gives_bind,gives_readOctet,List.length_pos_iff]
  by_cases hdata : c.data=[]
  · exact iff_of_false (fun h => h.1 hdata) fun h => (hreadable.1 h.1.readable).1 hdata
  by_cases hcode : c.data.getD 0 0=1
  · have hasks : c.Asks 1 := PcoId.asks_iff.mpr ⟨hdata,hcode⟩
    have hipcp : c.IsIpcp := ⟨hkind,hasks⟩
    have hlens : answerLens cfg c=[4+6*((optionAnswer primaryDns cfg.dns.1 c.data).length +
        (optionAnswer secondaryDns cfg.dns.2 c.data).length)] := by
      unfold answerLens
      rw [hkind]
      exact if_pos hasks
    have hone:=length_optionAnswer_le primaryDns cfg.dns.1 c.data
    have htwo:=length_optionAnswer_le secondaryDns cfg.dns.2 c.data
    rw [if_pos hcode,gives_check,gives_bind,gives_readOctet,gives_bind,gives_readOctet]
    dsimp only
    rw [gives_check,gives_check,gives_bind,gives_readOctet,gives_bind]
    have hlen : (c.data.getD 2 0).val*256+(c.data.getD 3 0).val=ipcpLen c.data := rfl
    rw [hlen,gives_dnsOption (by decide),gives_bind,List.nil_append,
      gives_dnsOption (Nat.lt_of_le_of_lt hone (by decide)),gives_addId,List.length_append]
    generalize (optionAnswer primaryDns cfg.dns.1 c.data).length=m at hone hlens ⊢
    generalize (optionAnswer secondaryDns cfg.dns.2 c.data).length=n at htwo hlens ⊢
    have hsmall : (4+6*(m+n)) % 256=4+6*(m+n) := by omega
    have hnext : s.sizes.next cfg c =
        ⟨s.sizes.lens++[4+6*(m+n)],s.sizes.ipcp+1⟩ := by
      simp only [PcoSizes.next,hlens,if_pos hipcp]
    have hneeds : s.sizes.Needs cfg c ↔ c.Readable cfg ∧ s.ipcp.length < maxNumOfIpcp ∧
        s.sizes.lens.length < maxNumOfId := by
      constructor
      · intro h
        have hcount:=h.count (by rw [hlens]; exact List.cons_ne_nil _ _)
        rw [hlens] at hcount
        exact ⟨h.readable,h.ipcp hipcp,hcount⟩
      · rintro ⟨hread,hroom,hcount⟩
        exact ⟨hread,fun _ => hroom,fun _ => by rw [hlens]; exact hcount⟩
    rw [hneeds,hnext,hreadable]
    simp only [SmfPco.sizes,List.map_append,List.map_cons,List.map_nil,Fin.ofNat,
      List.length_append,List.length_cons,List.length_nil,hsmall,Nat.zero_add]
    constructor
    · rintro ⟨-,hdns,-,hfour,-,hroom,-,hone,htwo,hcount,hQ⟩
      exact ⟨⟨⟨hdata,fun _ => ⟨hdns,hfour,hone,htwo⟩⟩,hroom,hcount⟩,hQ⟩
    · rintro ⟨⟨⟨-,hread⟩,hroom,hcount⟩,hQ⟩
      obtain ⟨hdns,hfour,hone,htwo⟩ := hread hasks
      exact ⟨hdata,hdns,by omega,hfour,Nat.le_of_lt hroom,hroom,by omega,hone,htwo,hcount,
        hQ⟩
  · have hasks : ¬ c.Asks 1 := fun h => hcode (PcoId.asks_iff.mp h).2
    have hlens : answerLens cfg c=[] := by
      unfold answerLens
      rw [hkind]
      exact if_neg hasks
    rw [if_neg hcode,gives_ok,exact_answers (fun h => hasks h.2) hlens,hreadable,
      List.append_nil]
    simp [hdata,hasks]

theorem gives_addAddr {n : Nat} (hn : n<256) {s : SmfPco cfg} {id : BitVec 16}
    {addr : Option (Vector Byte n)} {Q : PcoSizes → Prop} :
    Gives (addAddr s id addr) (fun s' => Q s'.sizes) ↔
      (addr.isSome → s.sizes.lens.length < maxNumOfId) ∧
        Q ⟨s.sizes.lens++addr.toList.map fun _ => n,s.sizes.ipcp⟩ := by
  unfold addAddr
  cases addr with
  | none => simp [gives_ok]
  | some addr =>
    dsimp only
    rw [gives_addId]
    simp [SmfPco.sizes,Nat.mod_eq_of_lt hn]

theorem exact_servers {c : PcoId} {n : Nat} (hn : n<256)
    {servers : Option (Vector Byte n) × Option (Vector Byte n)} (hipcp : ¬ c.IsIpcp)
    (hreadable : c.Readable cfg)
    (hlens : answerLens cfg c=(servers.1.toList++servers.2.toList).map fun _ => n) :
    Exact c fun s : SmfPco cfg => pcoServers s c servers := by
  intro s Q
  obtain ⟨one,two⟩ := servers
  unfold pcoServers
  rw [exact_answers hipcp hlens,gives_bind,gives_congr fun a => gives_addAddr hn,
    gives_addAddr hn (Q := fun t => (two.isSome → t.lens.length < maxNumOfId) ∧
      Q ⟨t.lens++two.toList.map fun _ => n,t.ipcp⟩)]
  have hboth : s.sizes.lens.length < maxNumOfId ∧ s.sizes.lens.length+1 < maxNumOfId ↔
      s.sizes.lens.length+2 ≤ maxNumOfId := by
    omega
  cases one with
  | none =>
    cases two <;>
      simp only [isSome_none,isSome_some,Bool.false_eq_true,false_imp_iff,
        toList_none,toList_some,List.map_nil,List.map_cons,List.length_nil,
        List.length_cons,List.nil_append,List.append_nil,Nat.add_zero,Nat.zero_add,
        forall_const,hreadable,ne_eq,reduceCtorEq,not_false_eq_true,
        not_true_eq_false,true_and,Nat.lt_iff_add_one_le]
  | some a =>
    cases two with
    | none =>
      simp only [isSome_none,isSome_some,Bool.false_eq_true,false_imp_iff,
        toList_none,toList_some,List.map_nil,List.map_cons,List.length_nil,
        List.length_cons,List.append_nil,Nat.zero_add,forall_const,hreadable,ne_eq,
        reduceCtorEq,not_false_eq_true,true_and,Nat.lt_iff_add_one_le]
    | some b => simp [hreadable,← hboth,and_assoc]

theorem PcoId.readable_of_kind (cfg : PcoConfig) {c : PcoId} {kind : PcoKind}
    (hkind : pcoKind c.id=kind) (hpap : kind ≠ .pap) (hchap : kind ≠ .chap)
    (hipcp : kind ≠ .ipcp) : c.Readable cfg ∧ ¬ c.IsIpcp := by
  subst hkind
  refine ⟨?_,fun h => hipcp h.1⟩
  unfold Readable
  cases hkind : pcoKind c.id with
  | pap => exact absurd hkind hpap
  | chap => exact absurd hkind hchap
  | ipcp => exact absurd hkind hipcp
  | _ => trivial

theorem pcoPCscf_exact {c : PcoId} (hkind : pcoKind c.id = .pCscf) :
    Exact c fun s : SmfPco cfg => pcoPCscf s c := by
  intro s Q
  obtain ⟨hreadable,hipcp⟩ := PcoId.readable_of_kind cfg hkind nofun nofun nofun
  have hlens : answerLens cfg c = if cfg.pCscf≠[] then [4] else [] := by
    unfold answerLens
    rw [hkind]
  rw [exact_answers hipcp hlens]
  unfold pcoPCscf
  beta_reduce
  by_cases hcscf : cfg.pCscf≠[]
  · rw [dif_pos hcscf,gives_bind,gives_addId,gives_ok,if_pos hcscf,one_answer]
    simp only [SmfPco.sizes,hreadable,true_and,List.map_append,List.map_cons,List.map_nil,
      List.length_map]
    exact Iff.rfl
  · rw [dif_neg hcscf,gives_ok,if_neg hcscf,List.append_nil]
    simp [hreadable]

theorem pcoPCscf6_exact {c : PcoId} (hkind : pcoKind c.id = .pCscf6) :
    Exact c fun s : SmfPco cfg => pcoPCscf6 s c := by
  intro s Q
  obtain ⟨hreadable,hipcp⟩ := PcoId.readable_of_kind cfg hkind nofun nofun nofun
  have hlens : answerLens cfg c = if cfg.pCscf6≠[] then [16] else [] := by
    unfold answerLens
    rw [hkind]
  rw [exact_answers hipcp hlens]
  unfold pcoPCscf6
  beta_reduce
  by_cases hcscf : cfg.pCscf6≠[]
  · rw [dif_pos hcscf,gives_bind,gives_addId,gives_ok,if_pos hcscf,one_answer]
    simp only [SmfPco.sizes,hreadable,true_and,List.map_append,List.map_cons,List.map_nil,
      List.length_map]
    exact Iff.rfl
  · rw [dif_neg hcscf,gives_ok,if_neg hcscf,List.append_nil]
    simp [hreadable]

theorem pcoMtu_exact {c : PcoId} (hkind : pcoKind c.id = .mtu) :
    Exact c fun s : SmfPco cfg => pcoMtu s c := by
  intro s Q
  obtain ⟨hreadable,hipcp⟩ := PcoId.readable_of_kind cfg hkind nofun nofun nofun
  have hlens : answerLens cfg c = if cfg.mtu≠0 then [2] else [] := by
    unfold answerLens
    rw [hkind]
  rw [exact_answers hipcp hlens]
  unfold pcoMtu
  beta_reduce
  by_cases hmtu : cfg.mtu≠0
  · rw [if_pos hmtu,gives_addId,if_pos hmtu,one_answer]
    simp [SmfPco.sizes,hreadable]
  · rw [if_neg hmtu,gives_ok,if_neg hmtu,List.append_nil]
    simp [hreadable]

theorem pcoContainer_exact (c : PcoId) : Exact c fun s : SmfPco cfg => pcoContainer s c := by
  intro s Q
  unfold pcoContainer
  cases hkind : pcoKind c.id with
  | pap => exact pcoPap_exact hkind s Q
  | chap => exact pcoChap_exact hkind s Q
  | ipcp => exact pcoIpcp_exact hkind s Q
  | pCscf => exact pcoPCscf_exact hkind s Q
  | pCscf6 => exact pcoPCscf6_exact hkind s Q
  | mtu => exact pcoMtu_exact hkind s Q
  | dns =>
    obtain ⟨hreadable,hipcp⟩ := PcoId.readable_of_kind cfg hkind nofun nofun nofun
    refine exact_servers (by decide) hipcp hreadable ?_ s Q
    unfold answerLens
    rw [hkind]
  | dns6 =>
    obtain ⟨hreadable,hipcp⟩ := PcoId.readable_of_kind cfg hkind nofun nofun nofun
    refine exact_servers (by decide) hipcp hreadable ?_ s Q
    unfold answerLens
    rw [hkind]
  | localAddrTft =>
    obtain ⟨hreadable,hipcp⟩ := PcoId.readable_of_kind cfg hkind nofun nofun nofun
    have hlens : answerLens cfg c=[0] := by
      unfold answerLens
      rw [hkind]
    rw [exact_answers hipcp hlens,one_answer,gives_addId]
    simp [SmfPco.sizes,hreadable]
  | other =>
    obtain ⟨hreadable,hipcp⟩ := PcoId.readable_of_kind cfg hkind nofun nofun nofun
    have hlens : answerLens cfg c=[] := by
      unfold answerLens
      rw [hkind]
    rw [exact_answers hipcp hlens,gives_ok,List.append_nil]
    simp [hreadable]

theorem needsMet_iff (ids : List PcoId) (t : PcoSizes) (hcount : t.lens.length ≤ maxNumOfId)
    (hipcp : t.ipcp ≤ maxNumOfIpcp) :
    NeedsMet (PcoSizes.Needs cfg) (PcoSizes.next cfg) t ids ↔
      (∀ c∈ids,c.Readable cfg) ∧
        t.ipcp+(ids.filter fun c => c.IsIpcp).length ≤ maxNumOfIpcp ∧
          t.lens.length+(ids.flatMap (answerLens cfg)).length ≤ maxNumOfId := by
  induction ids generalizing t with
  | nil => simp [NeedsMet,hcount,hipcp]
  | cons c ids ih =>
    have hlens : (t.next cfg c).lens.length=t.lens.length+(answerLens cfg c).length :=
      List.length_append
    have hnum : (t.next cfg c).ipcp=t.ipcp + if c.IsIpcp then 1 else 0 := rfl
    have hfilter : ((c::ids).filter fun c => c.IsIpcp).length =
        (if c.IsIpcp then 1 else 0)+(ids.filter fun c => c.IsIpcp).length := by
      by_cases h : c.IsIpcp
      · simp [h,Nat.add_comm]
      · simp [h]
    have hflat : ((c::ids).flatMap (answerLens cfg)).length =
        (answerLens cfg c).length+(ids.flatMap (answerLens cfg)).length := by
      rw [List.flatMap_cons,List.length_append]
    have hempty : answerLens cfg c=[] ↔ (answerLens cfg c).length=0 :=
      List.length_eq_zero_iff.symm
    rw [hfilter,hflat,List.forall_mem_cons]
    constructor
    · rintro ⟨hneeds,hrest⟩
      have hcount' : (t.next cfg c).lens.length ≤ maxNumOfId := by
        rw [hlens]
        by_cases h : answerLens cfg c=[]
        · rw [h]
          exact hcount
        · exact hneeds.count h
      have hipcp' : (t.next cfg c).ipcp ≤ maxNumOfIpcp := by
        rw [hnum]
        by_cases h : c.IsIpcp
        · rw [if_pos h]
          exact hneeds.ipcp h
        · rw [if_neg h]
          exact hipcp
      obtain ⟨hread,hsum,htotal⟩ := (ih _ hcount' hipcp').mp hrest
      rw [hnum] at hsum
      rw [hlens] at htotal
      exact ⟨⟨hneeds.readable,hread⟩,by omega,by omega⟩
    · rintro ⟨⟨hreadable,hread⟩,hsum,htotal⟩
      refine ⟨⟨hreadable,fun h => ?_,fun _ => by omega⟩,(ih _ ?_ ?_).mpr ⟨hread,?_,?_⟩⟩
      · rw [if_pos h] at hsum
        omega
      · rw [hlens]
        omega
      · rw [hnum]
        omega
      · rw [hnum]
        omega
      · rw [hlens]
        omega

theorem foldl_next (ids : List PcoId) (t : PcoSizes) :
    (ids.foldl (PcoSizes.next cfg) t).lens=t.lens++ids.flatMap (answerLens cfg) := by
  induction ids generalizing t with
  | nil => exact (List.append_nil _).symm
  | cons c ids ih =>
    rw [List.foldl_cons,ih,List.flatMap_cons,← List.append_assoc]
    rfl

theorem gives_pcoBuildIds (s : SmfPco cfg) (ids : List AnswerId) (out : List Byte)
    (hout : out.length ≤ maxPcoLen) :
    Gives (pcoBuildIds s ids out) (fun _ => True) ↔
      out.length+(ids.map fun a => 3+a.len.val).sum ≤ maxPcoLen := by
  induction ids generalizing out with
  | nil =>
    rw [pcoBuildIds,gives_ok]
    simpa using hout
  | cons a ids ih =>
    rw [pcoBuildIds,gives_check,gives_check,gives_check,List.map_cons,List.sum_cons]
    by_cases hfits : out.length+2+1+a.len.val ≤ maxPcoLen
    · have hlen : (out++netBytes 2 a.id.toNat++a.len ::
          (s.content a.data).takeD a.len.val 0).length=out.length+2+1+a.len.val := by
        simp only [List.length_append,length_netBytes,List.length_cons,List.takeD_length]
        omega
      rw [ih _ (by rw [hlen]; exact hfits),hlen]
      omega
    · exact iff_of_false (fun h => hfits h.2.2.1) (by omega)

theorem pcoBuild_gives (header : Byte) (s : SmfPco cfg) :
    Gives (pcoBuild header s) (fun _ => True) ↔ s.sizes.lens.length ≤ maxNumOfId ∧
      1+(s.sizes.lens.map fun len => 3+len).sum ≤ maxPcoLen := by
  have hheader : [header].length ≤ maxPcoLen := Nat.le_add_left 1 250
  unfold pcoBuild
  rw [gives_check,gives_pcoBuildIds s s.ids [header] hheader]
  simp only [SmfPco.sizes,List.length_map,List.map_map,List.length_singleton]
  exact Iff.rfl

end Containers

theorem takeOctets_iff {len : Byte} {rest : List Byte}
    {data : { data : List Byte // data.length<256 }} :
    takeOctets len rest=some data ↔ len=Fin.ofNat 256 data.1.length ∧
      rest=data.1++rest.drop len.val := by
  unfold takeOctets
  constructor
  · intro h
    split at h
    · rename_i hlen
      cases h
      have htake : (rest.take len.val).length=len.val := by
        rw [List.length_take]
        omega
      refine ⟨?_,(List.take_append_drop _ _).symm⟩
      apply Fin.ext
      simp only [htake,Fin.ofNat]
      exact (Nat.mod_eq_of_lt len.isLt).symm
    · cases h
  · rintro ⟨hlen,hrest⟩
    have hval : len.val=data.1.length := by
      rw [hlen]
      exact Nat.mod_eq_of_lt data.2
    have hle : len.val ≤ rest.length := by
      rw [hrest,List.length_append]
      omega
    rw [if_pos hle]
    congr 1
    apply Subtype.ext
    change rest.take len.val=data.1
    rw [hrest,hval,List.take_left' rfl]

theorem netBytes_two (v : BitVec 16) : netBytes 2 v.toNat =
    [Fin.ofNat 256 (v.toNat / 256),Fin.ofNat 256 v.toNat] := by
  simp only [netBytes,hostBytes_succ]
  rfl

theorem encode_eq (c : PcoId) : c.encode=Fin.ofNat 256 (c.id.toNat / 256) ::
    Fin.ofNat 256 c.id.toNat::Fin.ofNat 256 c.data.length::c.data := by
  rw [PcoId.encode,netBytes_two]
  rfl

theorem id_of_octets (v : BitVec 16) :
    BitVec.ofNat 16 ((Fin.ofNat 256 (v.toNat / 256)).val*256+(Fin.ofNat 256 v.toNat).val) =
      v := by
  have hlt:=v.isLt
  apply BitVec.eq_of_toNat_eq
  simp only [Fin.ofNat,BitVec.toNat_ofNat]
  omega

theorem octets_of_id (high low : Byte) :
    Fin.ofNat 256 ((BitVec.ofNat 16 (high.val*256+low.val)).toNat / 256)=high ∧
      Fin.ofNat 256 (BitVec.ofNat 16 (high.val*256+low.val)).toNat=low := by
  have hhigh:=high.isLt
  have hlow:=low.isLt
  constructor
  all_goals
    apply Fin.ext
    simp only [Fin.ofNat,BitVec.toNat_ofNat]
    omega

theorem pcoParseIds_iff (n : Nat) (bytes : List Byte) (ids : List PcoId) :
    pcoParseIds n bytes = .ok ids ↔ bytes=ids.flatMap PcoId.encode ∧ ids.length≤n := by
  fun_induction pcoParseIds n bytes generalizing ids with
  | case1 n =>
    cases ids with
    | nil => simp
    | cons c ids => simp [encode_eq]
  | case2 n high low len rest hdata =>
    refine iff_of_false nofun ?_
    rintro ⟨hbytes,-⟩
    cases ids with
    | nil => cases hbytes
    | cons c ids =>
      rw [List.flatMap_cons,encode_eq] at hbytes
      injection hbytes with hhigh hbytes
      injection hbytes with hlow hbytes
      injection hbytes with hlen hbytes
      change rest=c.data++ids.flatMap PcoId.encode at hbytes
      have hsome : takeOctets len rest=some ⟨c.data,c.len_lt⟩ := by
        refine takeOctets_iff.mpr ⟨hlen,?_⟩
        have hval : len.val=c.data.length := by
          rw [hlen]
          exact Nat.mod_eq_of_lt c.len_lt
        rw [hbytes,hval,List.drop_left' rfl]
      rw [hsome] at hdata
      cases hdata
  | case3 n high low len rest data hdata ih =>
    obtain ⟨hlen,hrest⟩ := takeOctets_iff.mp hdata
    constructor
    · intro h
      cases hparse : pcoParseIds n (rest.drop len.val) with
      | error e =>
        rw [hparse] at h
        cases h
      | ok ids' =>
        rw [hparse] at h
        cases h
        obtain ⟨hbytes,hle⟩ := (ih ids').mp hparse
        obtain ⟨hhigh,hlow⟩ := octets_of_id high low
        refine ⟨?_,Nat.succ_le_succ hle⟩
        rw [List.flatMap_cons,encode_eq,hhigh,hlow,← hlen,← hbytes]
        simp only [List.cons_append]
        rw [← hrest]
    · rintro ⟨hbytes,hle⟩
      cases ids with
      | nil => cases hbytes
      | cons c ids =>
        rw [List.flatMap_cons,encode_eq] at hbytes
        injection hbytes with hhigh hbytes
        injection hbytes with hlow hbytes
        injection hbytes with hlen' hbytes
        change rest=c.data++ids.flatMap PcoId.encode at hbytes
        have hval : len.val=c.data.length := by
          rw [hlen']
          exact Nat.mod_eq_of_lt c.len_lt
        have hdrop : rest.drop len.val=ids.flatMap PcoId.encode := by
          rw [hbytes,hval,List.drop_left' rfl]
        have hsame : data=⟨c.data,c.len_lt⟩ := by
          have hsome : takeOctets len rest=some ⟨c.data,c.len_lt⟩ :=
            takeOctets_iff.mpr ⟨hlen',by rw [hdrop]; exact hbytes⟩
          rw [hdata] at hsome
          exact some.inj hsome
        rw [(ih ids).mpr ⟨hdrop,Nat.le_of_succ_le_succ hle⟩,hsame,hhigh,hlow,id_of_octets]
        rfl
  | case4 n bytes hnil hcons =>
    refine iff_of_false nofun ?_
    rintro ⟨hbytes,hle⟩
    cases ids with
    | nil => exact hnil hbytes
    | cons c ids =>
      cases n with
      | zero => exact Nat.not_succ_le_zero _ hle
      | succ n =>
        rw [List.flatMap_cons,encode_eq] at hbytes
        exact hcons n _ _ _ _ rfl hbytes

theorem pcoParse_iff {buffer : List Byte} {header : Byte} {ids : List PcoId} :
    pcoParse buffer = .ok (header,ids) ↔
      buffer=header::ids.flatMap PcoId.encode ∧ ids.length ≤ maxNumOfId := by
  unfold pcoParse
  cases buffer with
  | nil => simp
  | cons b rest =>
    dsimp only
    cases hparse : pcoParseIds maxNumOfId rest with
    | error e =>
      refine iff_of_false nofun ?_
      rintro ⟨hbytes,hle⟩
      rw [(pcoParseIds_iff _ _ ids).mpr ⟨(List.cons.inj hbytes).2,hle⟩] at hparse
      cases hparse
    | ok ids' =>
      obtain ⟨hrest,hle⟩ := (pcoParseIds_iff _ _ _).mp hparse
      constructor
      · intro h
        cases h
        exact ⟨congrArg _ hrest,hle⟩
      · rintro ⟨hbytes,hle'⟩
        obtain ⟨rfl,htail⟩ := List.cons.inj hbytes
        have hids:=(pcoParseIds_iff _ _ ids).mpr ⟨htail,hle'⟩
        rw [hparse] at hids
        cases hids
        rfl

/-- `smf_pco_build` answers exactly what consists of at most 32 containers, each with the octets
that are read of it, if all answers fit. -/
theorem smf_pco_build_returns (cfg : PcoConfig) (i : Cursor cfg.pCscf) (i6 : Cursor cfg.pCscf6)
    (buffer : List Byte) :
    (∃ r,smfPcoBuild i i6 buffer = .ok r) ↔
      ∃ header ids,buffer=header::ids.flatMap PcoId.encode ∧ ids.length ≤ maxNumOfId ∧
        Answerable cfg ids := by
  have hgives : (∃ r,smfPcoBuild i i6 buffer = .ok r) ↔
      Gives (smfPcoBuild i i6 buffer) fun _ => True :=
    ⟨fun ⟨r,h⟩ => ⟨r,h,trivial⟩,fun ⟨r,h,_⟩ => ⟨r,h⟩⟩
  have hloop : ∀ ids,Gives (ids.foldlM pcoContainer (SmfPco.start i i6)) (fun s =>
      s.sizes.lens.length ≤ maxNumOfId ∧
        1+(s.sizes.lens.map fun len => 3+len).sum ≤ maxPcoLen) ↔ Answerable cfg ids := by
    intro ids
    rw [gives_foldlM (PcoSizes.Needs cfg) (PcoSizes.next cfg)
      (fun s c => pcoContainer_exact c s) ids (SmfPco.start i i6) fun t =>
        t.lens.length ≤ maxNumOfId ∧ 1+(t.lens.map fun len => 3+len).sum ≤ maxPcoLen]
    have hstart : (SmfPco.start i i6).sizes=⟨[],0⟩ := rfl
    rw [hstart,needsMet_iff ids _ (Nat.zero_le _) (Nat.zero_le _),foldl_next]
    simp only [List.nil_append,List.length_nil,Nat.zero_add]
    constructor
    · rintro ⟨⟨hread,hipcp,hcount⟩,-,hlen⟩
      exact ⟨hread,hipcp,hcount,hlen⟩
    · intro h
      exact ⟨⟨h.readable,h.ipcp,h.count⟩,h.count,h.length⟩
  have hrest : ∀ header ids,Gives (do
      let s ← ids.foldlM pcoContainer (SmfPco.start i i6)
      let out ← pcoBuild header s
      .ok (out,s.pCscfIndex,s.pCscf6Index)) (fun _ => True) ↔ Answerable cfg ids := by
    intro header ids
    rw [gives_bind,← hloop ids]
    refine gives_congr fun s => ?_
    rw [gives_bind,← pcoBuild_gives header s]
    exact gives_congr fun out => gives_ok
  rw [hgives]
  unfold smfPcoBuild
  rw [gives_bind]
  constructor
  · rintro ⟨⟨header,ids⟩,hparse,h⟩
    obtain ⟨hbuffer,hle⟩ := pcoParse_iff.mp hparse
    exact ⟨header,ids,hbuffer,hle,(hrest _ ids).mp h⟩
  · rintro ⟨header,ids,hbuffer,hle,h⟩
    exact ⟨(header,ids),pcoParse_iff.mpr ⟨hbuffer,hle⟩,(hrest _ ids).mpr h⟩

def twoServers : PcoConfig :=
  ⟨(some #v[8,8,8,8],some #v[8,8,4,4]),(none,none),[],[.replicate 16 1],1400,
    ascii "Welcome to open5gs-smfd"⟩

set_option maxRecDepth 4000 in
/-- The answers to 17 DNS requests are written past the array, an empty PAP container is read, and
14 requests for a P-CSCF do not fit the buffer. -/
theorem pco_answer_overrun :
    (@smfPcoBuild twoServers (.first _) (.first _)
      (0x80::(List.replicate 17 [0,0x0d,0]).flatten)).map (fun _ => ()) = .error .write ∧
    (@smfPcoBuild twoServers (.first _) (.first _)
      [0x80,0xc0,0x23,0]).map (fun _ => ()) = .error .read ∧
    (@smfPcoBuild twoServers (.first _) (.first _)
      (0x80::(List.replicate 14 [0,0x01,0]).flatten)).map (fun _ => ()) =
        .error .assertion := by
  decide

end OgsDp.Smf
