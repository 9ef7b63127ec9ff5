import OgsDp.Core.Octets

/-!
# The contents of packet filters (lib/ipfw/ogs-ipfw.h)

A packet filter of a TFT and one of a QoS rule have their components in common: a type and what
this type has behind it.
-/

namespace OgsDp.Ipfw
open OgsDp.Core Lib

def maxNumOfPacketFilterComponent : Nat := 16

inductive PfEnd where
  | remote
  | here
  deriving DecidableEq

inductive PfComponent where
  | matchAll
  | proto (proto : Byte)
  | ipv4 (side : PfEnd) (addr mask : Vector Byte 4)
  | ipv6 (side : PfEnd) (addr : Vector Byte 16) (prefixlen : Byte)
  | ipv6Mask (side : PfEnd) (addr mask : Vector Byte 16)
  | port (side : PfEnd) (low : BitVec 16)
  | portRange (side : PfEnd) (low high : BitVec 16)
  deriving DecidableEq

namespace PfComponent

/-- `OGS_PACKET_FILTER_MATCH_ALL`, …; the local end is `here`. -/
def type : PfComponent → Byte
  | matchAll => 1
  | proto _ => 48
  | ipv4 .remote _ _ => 16
  | ipv4 .here _ _ => 17
  | ipv6Mask .remote _ _ => 32
  | ipv6 .remote _ _ => 33
  | ipv6Mask .here _ _ => 34
  | ipv6 .here _ _ => 35
  | port .here _ => 64
  | portRange .here _ _ => 65
  | port .remote _ => 80
  | portRange .remote _ _ => 81

def fields : PfComponent → List Byte
  | matchAll => []
  | proto p => [p]
  | ipv4 _ addr mask => addr.toList++mask.toList
  | ipv6 _ addr prefixlen => addr.toList++[prefixlen]
  | ipv6Mask _ addr mask => addr.toList++mask.toList
  | port _ low => netBytes 2 low.toNat
  | portRange _ low high => netBytes 2 low.toNat++netBytes 2 high.toNat

def bytes (c : PfComponent) : List Byte := c.type::c.fields

end PfComponent

/-- What ends the loop over the components: a check finds that the octets do not reach, the type is
none that is known, there is one component more than the array has, or octets are read that are not
there. -/
inductive PfStop where
  | short
  | unknown
  | full
  | beyond
  deriving DecidableEq

def checkedVec (n : Nat) : List Byte → Except PfStop (Vector Byte n × List Byte) :=
  guarded n .short (readVec .beyond n)

def checkedOne : List Byte → Except PfStop (Byte × List Byte) :=
  guarded 1 .short (readOne .beyond)

def checkedNet16 : List Byte → Except PfStop (BitVec 16 × List Byte) :=
  guarded 2 .short (readNet16 .beyond)

def readIpv4 (side : PfEnd) (l : List Byte) : Except PfStop (PfComponent × List Byte) :=
  checkedVec 4 l >>= fun addr => checkedVec 4 addr.2 >>= fun mask =>
    .ok (.ipv4 side addr.1 mask.1,mask.2)

def readIpv6 (side : PfEnd) (l : List Byte) : Except PfStop (PfComponent × List Byte) :=
  checkedVec 16 l >>= fun addr => checkedOne addr.2 >>= fun prefixlen =>
    .ok (.ipv6 side addr.1 prefixlen.1,prefixlen.2)

def readIpv6Mask (side : PfEnd) (l : List Byte) : Except PfStop (PfComponent × List Byte) :=
  checkedVec 16 l >>= fun addr => checkedVec 16 addr.2 >>= fun mask =>
    .ok (.ipv6Mask side addr.1 mask.1,mask.2)

def readPort (side : PfEnd) (l : List Byte) : Except PfStop (PfComponent × List Byte) :=
  checkedNet16 l >>= fun low => .ok (.port side low.1,low.2)

def readPortRange (side : PfEnd) (l : List Byte) : Except PfStop (PfComponent × List Byte) :=
  checkedNet16 l >>= fun low => checkedNet16 low.2 >>= fun high =>
    .ok (.portRange side low.1 high.1,high.2)

def readFields (type : Byte) (l : List Byte) : Except PfStop (PfComponent × List Byte) :=
  match type.val with
  | 48 => checkedOne l >>= fun p => .ok (.proto p.1,p.2)
  | 16 => readIpv4 .remote l
  | 17 => readIpv4 .here l
  | 35 => readIpv6 .here l
  | 33 => readIpv6 .remote l
  | 34 => readIpv6Mask .here l
  | 32 => readIpv6Mask .remote l
  | 64 => readPort .here l
  | 80 => readPort .remote l
  | 65 => readPortRange .here l
  | 81 => readPortRange .remote l
  | _ => .error .unknown

def readComponent (l : List Byte) : Except PfStop (PfComponent × List Byte) :=
  checkedOne l >>= fun type => readFields type.1 type.2

/-- The entries of `component` that are in use, `room` at most. -/
abbrev Components (room : Nat) : Type := { cs : List PfComponent // cs.length ≤ room }

def componentBytes (cs : List PfComponent) : List Byte := cs.flatMap PfComponent.bytes

/-- The loop over the components while `len` is below the announced length; `todo` is the
difference, and `room` is how many components the array still takes. -/
def readComponents : (room todo : Nat) → List Byte → Except PfStop (Components room × List Byte)
  | _, 0, l => .ok (⟨[],Nat.zero_le _⟩,l)
  | 0, _+1, l => if l=[] then .error .short else .error .full
  | room+1, todo+1, l =>
    readComponent l >>= fun c =>
      readComponents room (todo+1-c.1.bytes.length) c.2 >>= fun cs =>
        .ok (⟨c.1::cs.1.1,Nat.succ_le_succ cs.1.2⟩,cs.2)

variable {t : Byte} {l rest : List Byte} {c : PfComponent} {cs : List PfComponent}
  {room todo : Nat} {e : PfStop}

def knownTypes : List Byte := [16,17,32,33,34,35,48,64,65,80,81]

theorem checkedVec_eq (n : Nat) : checkedVec n=readVec .short n := guarded_readVec n _ _

theorem checkedOne_eq : checkedOne=readOne .short := guarded_readOne _ _

theorem checkedNet16_eq : checkedNet16=readNet16 .short := guarded_readNet16 _ _

theorem reads_checkedVec (n : Nat) : Reads (checkedVec n) Vector.toList fun _ => True :=
  checkedVec_eq n ▸ reads_readVec _ n

theorem reads_checkedOne : Reads checkedOne (fun b => [b]) fun _ => True :=
  checkedOne_eq ▸ reads_readOne _

theorem reads_checkedNet16 : Reads checkedNet16 (fun x => netBytes 2 x.toNat) fun _ => True :=
  checkedNet16_eq ▸ reads_readNet16 _

theorem checkedOne_error : checkedOne l = .error e ↔ l=[] ∧ e = .short :=
  checkedOne_eq ▸ readOne_error

theorem reads_readIpv4 (side : PfEnd) : Reads (readIpv4 side) PfComponent.fields
    fun c => ∃ addr mask,True ∧ True ∧ c = .ipv4 side addr mask :=
  (reads_checkedVec 4).pair (reads_checkedVec 4) (PfComponent.ipv4 side) fun _ _ => rfl

theorem reads_readIpv6 (side : PfEnd) : Reads (readIpv6 side) PfComponent.fields
    fun c => ∃ addr prefixlen,True ∧ True ∧ c = .ipv6 side addr prefixlen :=
  (reads_checkedVec 16).pair reads_checkedOne (PfComponent.ipv6 side) fun _ _ => rfl

theorem reads_readIpv6Mask (side : PfEnd) : Reads (readIpv6Mask side) PfComponent.fields
    fun c => ∃ addr mask,True ∧ True ∧ c = .ipv6Mask side addr mask :=
  (reads_checkedVec 16).pair (reads_checkedVec 16) (PfComponent.ipv6Mask side) fun _ _ => rfl

theorem reads_readPort (side : PfEnd) : Reads (readPort side) PfComponent.fields
    fun c => ∃ low,True ∧ c = .port side low :=
  reads_checkedNet16.map (PfComponent.port side) fun _ => rfl

theorem reads_readPortRange (side : PfEnd) : Reads (readPortRange side) PfComponent.fields
    fun c => ∃ low high,True ∧ True ∧ c = .portRange side low high :=
  reads_checkedNet16.pair reads_checkedNet16 (PfComponent.portRange side) fun _ _ => rfl

theorem readFields_fields (hc : c ≠ .matchAll) (rest : List Byte) :
    readFields c.type (c.fields++rest) = .ok (c,rest) := by
  cases c with
  | matchAll => exact absurd rfl hc
  | proto p => rfl
  | ipv4 side addr mask =>
    cases side <;> exact (reads_readIpv4 _).append ⟨addr,mask,trivial,trivial,rfl⟩ rest
  | ipv6 side addr prefixlen =>
    cases side <;> exact (reads_readIpv6 _).append ⟨addr,prefixlen,trivial,trivial,rfl⟩ rest
  | ipv6Mask side addr mask =>
    cases side <;> exact (reads_readIpv6Mask _).append ⟨addr,mask,trivial,trivial,rfl⟩ rest
  | port side low => cases side <;> exact (reads_readPort _).append ⟨low,trivial,rfl⟩ rest
  | portRange side low high =>
    cases side <;> exact (reads_readPortRange _).append ⟨low,high,trivial,trivial,rfl⟩ rest

theorem readFields_sound (h : readFields t l = .ok (c,rest)) :
    c ≠ .matchAll ∧ c.type=t ∧ l=c.fields++rest := by
  unfold readFields at h
  split at h
  · rename_i ht
    obtain ⟨p,rest',-,rfl,hok⟩ := reads_checkedOne.bind_ok.mp h
    obtain ⟨rfl,rfl⟩ := Prod.mk.inj (Except.ok.inj hok)
    exact ⟨nofun,(Fin.ext ht).symm,rfl⟩
  · rename_i ht
    obtain ⟨⟨addr,mask,-,-,rfl⟩,rfl⟩ := (reads_readIpv4 _ _ _ _).mp h
    exact ⟨nofun,(Fin.ext ht).symm,rfl⟩
  · rename_i ht
    obtain ⟨⟨addr,mask,-,-,rfl⟩,rfl⟩ := (reads_readIpv4 _ _ _ _).mp h
    exact ⟨nofun,(Fin.ext ht).symm,rfl⟩
  · rename_i ht
    obtain ⟨⟨addr,prefixlen,-,-,rfl⟩,rfl⟩ := (reads_readIpv6 _ _ _ _).mp h
    exact ⟨nofun,(Fin.ext ht).symm,rfl⟩
  · rename_i ht
    obtain ⟨⟨addr,prefixlen,-,-,rfl⟩,rfl⟩ := (reads_readIpv6 _ _ _ _).mp h
    exact ⟨nofun,(Fin.ext ht).symm,rfl⟩
  · rename_i ht
    obtain ⟨⟨addr,mask,-,-,rfl⟩,rfl⟩ := (reads_readIpv6Mask _ _ _ _).mp h
    exact ⟨nofun,(Fin.ext ht).symm,rfl⟩
  · rename_i ht
    obtain ⟨⟨addr,mask,-,-,rfl⟩,rfl⟩ := (reads_readIpv6Mask _ _ _ _).mp h
    exact ⟨nofun,(Fin.ext ht).symm,rfl⟩
  · rename_i ht
    obtain ⟨⟨low,-,rfl⟩,rfl⟩ := (reads_readPort _ _ _ _).mp h
    exact ⟨nofun,(Fin.ext ht).symm,rfl⟩
  · rename_i ht
    obtain ⟨⟨low,-,rfl⟩,rfl⟩ := (reads_readPort _ _ _ _).mp h
    exact ⟨nofun,(Fin.ext ht).symm,rfl⟩
  · rename_i ht
    obtain ⟨⟨low,high,-,-,rfl⟩,rfl⟩ := (reads_readPortRange _ _ _ _).mp h
    exact ⟨nofun,(Fin.ext ht).symm,rfl⟩
  · rename_i ht
    obtain ⟨⟨low,high,-,-,rfl⟩,rfl⟩ := (reads_readPortRange _ _ _ _).mp h
    exact ⟨nofun,(Fin.ext ht).symm,rfl⟩
  · cases h

theorem readFields_error (h : readFields t l = .error e) :
    e = .short ∧ t∈knownTypes ∨ e = .unknown ∧ t∉knownTypes := by
  have hshort : ∀ t' : Byte, t.val=t'.val → t'∈knownTypes → e = .short →
      e = .short ∧ t∈knownTypes ∨ e = .unknown ∧ t∉knownTypes := fun t' ht hmem he =>
    .inl ⟨he,Fin.ext ht ▸ hmem⟩
  have hvec : ∀ n,StopsWith (checkedVec n) .short := fun n =>
    checkedVec_eq n ▸ stopsWith_readVec PfStop.short n
  have hnet : StopsWith checkedNet16 .short := checkedNet16_eq ▸ stopsWith_readNet16 PfStop.short
  have hone : StopsWith checkedOne .short := checkedOne_eq ▸ stopsWith_readOne PfStop.short
  have hipv4 : ∀ side,StopsWith (readIpv4 side) .short := fun side =>
    (hvec 4).pair (hvec 4) (PfComponent.ipv4 side)
  have hipv6 : ∀ side,StopsWith (readIpv6 side) .short := fun side =>
    (hvec 16).pair hone (PfComponent.ipv6 side)
  have hipv6Mask : ∀ side,StopsWith (readIpv6Mask side) .short := fun side =>
    (hvec 16).pair (hvec 16) (PfComponent.ipv6Mask side)
  have hport : ∀ side,StopsWith (readPort side) .short := fun side =>
    hnet.map (PfComponent.port side)
  have hrange : ∀ side,StopsWith (readPortRange side) .short := fun side =>
    hnet.pair hnet (PfComponent.portRange side)
  unfold readFields at h
  split at h
  · rename_i ht
    exact hshort 48 ht (by decide) (hone.map PfComponent.proto l e h)
  · rename_i ht
    exact hshort 16 ht (by decide) (hipv4 _ l e h)
  · rename_i ht
    exact hshort 17 ht (by decide) (hipv4 _ l e h)
  · rename_i ht
    exact hshort 35 ht (by decide) (hipv6 _ l e h)
  · rename_i ht
    exact hshort 33 ht (by decide) (hipv6 _ l e h)
  · rename_i ht
    exact hshort 34 ht (by decide) (hipv6Mask _ l e h)
  · rename_i ht
    exact hshort 32 ht (by decide) (hipv6Mask _ l e h)
  · rename_i ht
    exact hshort 64 ht (by decide) (hport _ l e h)
  · rename_i ht
    exact hshort 80 ht (by decide) (hport _ l e h)
  · rename_i ht
    exact hshort 65 ht (by decide) (hrange _ l e h)
  · rename_i ht
    exact hshort 81 ht (by decide) (hrange _ l e h)
  · rename_i h48 h16 h17 h35 h33 h34 h32 h64 h80 h65 h81
    refine .inr ⟨(Except.error.inj h).symm,fun hmem => ?_⟩
    simp only [knownTypes,List.mem_cons,List.not_mem_nil,or_false] at hmem
    rcases hmem with rfl | rfl | rfl | rfl | rfl | rfl | rfl | rfl | rfl | rfl | rfl
    · exact h16 rfl
    · exact h17 rfl
    · exact h32 rfl
    · exact h33 rfl
    · exact h34 rfl
    · exact h35 rfl
    · exact h48 rfl
    · exact h64 rfl
    · exact h65 rfl
    · exact h80 rfl
    · exact h81 rfl

theorem reads_readComponent : Reads readComponent PfComponent.bytes (· ≠ .matchAll) := by
  intro l c rest
  rw [readComponent,reads_checkedOne.bind_ok]
  constructor
  · rintro ⟨t,rest',-,rfl,hok⟩
    obtain ⟨hc,rfl,rfl⟩ := readFields_sound hok
    exact ⟨hc,rfl⟩
  · rintro ⟨hc,rfl⟩
    exact ⟨c.type,c.fields++rest,trivial,rfl,readFields_fields hc rest⟩

theorem readComponent_error (h : readComponent l = .error e) :
    e = .short ∨ e = .unknown ∧ ∃ t rest,l=t::rest ∧ t∉knownTypes := by
  rcases reads_checkedOne.bind_error.mp h with hone | ⟨t,rest,-,rfl,herr⟩
  · exact .inl (checkedOne_error.mp hone).2
  · rcases readFields_error herr with ⟨rfl,-⟩ | ⟨rfl,ht⟩
    · exact .inl rfl
    · exact .inr ⟨rfl,t,rest,rfl,ht⟩

theorem type_known (hc : c ≠ .matchAll) : c.type∈knownTypes := by
  cases c with
  | matchAll => exact absurd rfl hc
  | proto p => exact (by decide : (48 : Byte)∈knownTypes)
  | ipv4 side addr mask => cases side <;> simp only [PfComponent.type] <;> decide
  | ipv6 side addr prefixlen => cases side <;> simp only [PfComponent.type] <;> decide
  | ipv6Mask side addr mask => cases side <;> simp only [PfComponent.type] <;> decide
  | port side low => cases side <;> simp only [PfComponent.type] <;> decide
  | portRange side low high => cases side <;> simp only [PfComponent.type] <;> decide

theorem readComponent_unknown (ht : t∉knownTypes) (rest : List Byte) :
    readComponent (t::rest) = .error .unknown := by
  cases h : readComponent (t::rest) with
  | ok r =>
    obtain ⟨hc,hbytes⟩ := (reads_readComponent _ r.1 r.2).mp h
    obtain ⟨rfl,-⟩ := List.cons.inj hbytes
    exact absurd (type_known hc) ht
  | error e =>
    have h' : readFields t rest = .error e := h
    rcases readFields_error h' with ⟨-,hmem⟩ | ⟨rfl,-⟩
    · exact absurd hmem ht
    · rfl

@[simp] theorem length_bytes_pos (c : PfComponent) : 0<c.bytes.length := Nat.succ_pos _

def Fills : Nat → List PfComponent → Prop
  | todo, [] => todo=0
  | todo, c::cs => 0<todo ∧ Fills (todo-c.bytes.length) cs

theorem componentBytes_cons (c : PfComponent) (cs : List PfComponent) :
    componentBytes (c::cs)=c.bytes++componentBytes cs := List.flatMap_cons

theorem length_componentBytes_cons (c : PfComponent) (cs : List PfComponent) :
    (componentBytes (c::cs)).length=c.bytes.length+(componentBytes cs).length := by
  rw [componentBytes_cons,List.length_append]

theorem fills_length (cs : List PfComponent) : Fills (componentBytes cs).length cs := by
  induction cs with
  | nil => rfl
  | cons c cs ih =>
    rw [length_componentBytes_cons]
    refine ⟨Nat.add_pos_left (length_bytes_pos c) _,?_⟩
    rw [Nat.add_sub_cancel_left]
    exact ih

theorem reads_readComponents (room todo : Nat) :
    Reads (readComponents room todo) (fun cs => componentBytes cs.1)
      fun cs => Fills todo cs.1 ∧ .matchAll∉cs.1 := by
  induction room generalizing todo with
  | zero =>
    intro l cs rest
    obtain ⟨cs,hcs⟩ := cs
    obtain rfl := List.eq_nil_of_length_eq_zero (Nat.le_zero.mp hcs)
    cases todo with
    | zero =>
      constructor
      · intro h
        obtain ⟨-,rfl⟩ := Prod.mk.inj (Except.ok.inj h)
        exact ⟨⟨rfl,List.not_mem_nil⟩,rfl⟩
      · rintro ⟨-,rfl⟩
        rfl
    | succ todo =>
      refine iff_of_false (fun h => ?_) fun h => nomatch h.1.1
      unfold readComponents at h
      split at h <;> cases h
  | succ room ih =>
    intro l cs rest
    obtain ⟨cs,hcs⟩ := cs
    cases todo with
    | zero =>
      cases cs with
      | nil =>
        constructor
        · intro h
          obtain ⟨-,rfl⟩ := Prod.mk.inj (Except.ok.inj h)
          exact ⟨⟨rfl,List.not_mem_nil⟩,rfl⟩
        · rintro ⟨-,rfl⟩
          rfl
      | cons c cs =>
        refine iff_of_false (fun h => ?_) fun h => absurd h.1.1.1 (Nat.lt_irrefl 0)
        obtain ⟨hcs',-⟩ := Prod.mk.inj (Except.ok.inj h)
        cases congrArg Subtype.val hcs'
    | succ todo =>
      rw [readComponents,reads_readComponent.bind_ok]
      constructor
      · rintro ⟨c,rest',hc,rfl,hok⟩
        obtain ⟨cs',rest'',⟨hfills,hall⟩,hrest,hok⟩ := (ih _).bind_ok.mp hok
        obtain ⟨hcs',rfl⟩ := Prod.mk.inj (Except.ok.inj hok)
        obtain rfl := congrArg Subtype.val hcs'
        simp only at hrest
        refine ⟨⟨⟨Nat.succ_pos todo,hfills⟩,fun hmem => ?_⟩,?_⟩
        · rcases List.mem_cons.mp hmem with hmem | hmem
          · exact hc hmem.symm
          · exact hall hmem
        · rw [hrest]
          exact (List.append_assoc ..).symm
      · rintro ⟨⟨hfills,hall⟩,rfl⟩
        cases cs with
        | nil => cases hfills
        | cons c cs =>
          refine ⟨c,componentBytes cs++rest,fun hc => hall (hc ▸ List.mem_cons_self ..),
            List.append_assoc ..,?_⟩
          exact (ih _).bind_ok.mpr ⟨⟨cs,Nat.le_of_succ_le_succ hcs⟩,rest,
            ⟨hfills.2,fun hmem => hall (List.mem_cons_of_mem c hmem)⟩,rfl,rfl⟩

/-- Components that leave the loop unfinished: `n` of them, and more is announced. -/
structure Unfinished (n todo : Nat) (l : List Byte) (cs : List PfComponent) (rest : List Byte) :
    Prop where
  count : cs.length=n
  known : .matchAll∉cs
  more : (componentBytes cs).length<todo
  octets : l=componentBytes cs++rest

theorem unfinished_nil (todo : Nat) (l : List Byte) : Unfinished 0 (todo+1) l [] l :=
  ⟨rfl,List.not_mem_nil,Nat.succ_pos todo,rfl⟩

theorem Unfinished.cons {n : Nat} (hc : c ≠ .matchAll)
    (h : Unfinished n (todo-c.bytes.length) l cs rest) :
    Unfinished (n+1) todo (c.bytes++l) (c::cs) rest where
  count := congrArg Nat.succ h.count
  known hmem := by
    rcases List.mem_cons.mp hmem with hmem | hmem
    · exact hc hmem.symm
    · exact h.known hmem
  more := by
    have hmore:=h.more
    rw [length_componentBytes_cons]
    omega
  octets := by rw [h.octets,componentBytes_cons,List.append_assoc]

theorem Unfinished.tail {n : Nat} (h : Unfinished (n+1) todo l (c::cs) rest) :
    c ≠ .matchAll ∧ l=c.bytes++(componentBytes cs++rest) ∧
      Unfinished n (todo-c.bytes.length) (componentBytes cs++rest) cs rest := by
  refine ⟨fun hc => h.known (hc ▸ List.mem_cons_self ..),?_,Nat.succ.inj h.count,
    fun hmem => h.known (List.mem_cons_of_mem c hmem),?_,rfl⟩
  · rw [h.octets,componentBytes_cons,List.append_assoc]
  · have hmore:=h.more
    rw [length_componentBytes_cons] at hmore
    omega

theorem readComponents_error (he : e ≠ .short) :
    readComponents room todo l = .error e ↔
      ∃ cs rest,cs.length ≤ room ∧ Unfinished cs.length todo l cs rest ∧
        (cs.length=room ∧ rest≠[] ∧ e = .full ∨
          cs.length < room ∧ readComponent rest = .error e) := by
  induction room generalizing todo l with
  | zero =>
    cases todo with
    | zero =>
      refine iff_of_false nofun ?_
      rintro ⟨cs,rest,-,hun,-⟩
      exact absurd hun.more (Nat.not_lt_zero _)
    | succ todo =>
      constructor
      · intro h
        unfold readComponents at h
        split at h
        · exact absurd (Except.error.inj h).symm he
        · rename_i hne
          exact ⟨[],l,Nat.le_refl 0,unfinished_nil todo l,
            .inl ⟨rfl,hne,(Except.error.inj h).symm⟩⟩
      · rintro ⟨cs,rest,hle,hun,hend⟩
        obtain rfl := List.eq_nil_of_length_eq_zero (Nat.le_zero.mp hle)
        obtain rfl : l=rest := hun.octets
        rcases hend with ⟨-,hne,rfl⟩ | ⟨hlt,-⟩
        · exact if_neg hne
        · exact absurd hlt (Nat.lt_irrefl 0)
  | succ room ih =>
    cases todo with
    | zero =>
      refine iff_of_false nofun ?_
      rintro ⟨cs,rest,-,hun,-⟩
      exact absurd hun.more (Nat.not_lt_zero _)
    | succ todo =>
      rw [readComponents,reads_readComponent.bind_error]
      constructor
      · rintro (hstop | ⟨c,rest,hc,rfl,herr⟩)
        · exact ⟨[],l,Nat.zero_le _,unfinished_nil todo l,
            .inr ⟨Nat.succ_pos room,hstop⟩⟩
        · rcases (reads_readComponents room _).bind_error.mp herr with herr | ⟨_,_,_,_,hok⟩
          · obtain ⟨cs,rest',hle,hun,hend⟩ := ih.mp herr
            refine ⟨c::cs,rest',Nat.succ_le_succ hle,hun.cons hc,?_⟩
            exact hend.imp (fun h => ⟨congrArg Nat.succ h.1,h.2⟩)
              fun h => ⟨Nat.succ_lt_succ h.1,h.2⟩
          · cases hok
      · rintro ⟨cs,rest,hle,hun,hend⟩
        cases cs with
        | nil =>
          obtain rfl : l=rest := hun.octets
          rcases hend with ⟨hfull,-⟩ | ⟨-,hstop⟩
          · exact absurd hfull (Nat.succ_ne_zero room).symm
          · exact .inl hstop
        | cons c cs =>
          obtain ⟨hc,hl,hun'⟩ := hun.tail
          refine .inr ⟨c,componentBytes cs++rest,hc,hl,?_⟩
          refine (reads_readComponents room _).bind_error.mpr (.inl (ih.mpr ⟨cs,rest,
            Nat.le_of_succ_le_succ hle,hun',?_⟩))
          exact hend.imp (fun h => ⟨Nat.succ.inj h.1,h.2⟩)
            fun h => ⟨Nat.lt_of_succ_lt_succ h.1,h.2⟩

theorem readComponents_full : readComponents room todo l = .error .full ↔
    ∃ cs rest,Unfinished room todo l cs rest ∧ rest≠[] := by
  rw [readComponents_error (e := .full) nofun]
  constructor
  · rintro ⟨cs,rest,-,hun,⟨hlen,hne,-⟩ | ⟨-,hstop⟩⟩
    · exact ⟨cs,rest,hlen ▸ hun,hne⟩
    · rcases readComponent_error hstop with h | ⟨h,-⟩ <;> cases h
  · rintro ⟨cs,rest,hun,hne⟩
    have hlen:=hun.count
    exact ⟨cs,rest,Nat.le_of_eq hlen,by rw [hlen]; exact hun,.inl ⟨hlen,hne,rfl⟩⟩

theorem readComponents_unknown : readComponents room todo l = .error .unknown ↔
    ∃ n cs t rest,n < room ∧ Unfinished n todo l cs (t::rest) ∧ t∉knownTypes := by
  rw [readComponents_error (e := .unknown) nofun]
  constructor
  · rintro ⟨cs,rest,-,hun,⟨-,-,h⟩ | ⟨hlt,hstop⟩⟩
    · cases h
    · rcases readComponent_error hstop with h | ⟨-,t,rest',rfl,ht⟩
      · cases h
      · exact ⟨cs.length,cs,t,rest',hlt,hun,ht⟩
  · rintro ⟨n,cs,t,rest,hlt,hun,ht⟩
    have hlen:=hun.count
    subst hlen
    exact ⟨cs,t::rest,Nat.le_of_lt hlt,hun,.inr ⟨hlt,readComponent_unknown ht rest⟩⟩

theorem readComponents_inside : readComponents room todo l ≠ .error .beyond := by
  rw [ne_eq,readComponents_error (e := .beyond) nofun]
  rintro ⟨cs,rest,-,-,⟨-,-,h⟩ | ⟨-,hstop⟩⟩
  · cases h
  · rcases readComponent_error hstop with h | ⟨h,-⟩ <;> cases h

/-- `ogs_pf_content_t`; the number of components is that of the entries in use. -/
structure PfContent where
  length : Byte
  component : Components maxNumOfPacketFilterComponent
  deriving DecidableEq

namespace PfContent

def zero : PfContent := ⟨0,⟨[],Nat.zero_le _⟩⟩

def bytes (p : PfContent) : List Byte := p.length::componentBytes p.component.1

def Sized (p : PfContent) : Prop := p.length.val=(componentBytes p.component.1).length

instance (p : PfContent) : Decidable p.Sized := inferInstanceAs (Decidable (_=_))

structure Read (p : PfContent) : Prop where
  fills : Fills p.length.val p.component.1
  known : .matchAll∉p.component.1

end PfContent

def readContent (l : List Byte) : Except PfStop (PfContent × List Byte) :=
  checkedOne l >>= fun len =>
    readComponents maxNumOfPacketFilterComponent len.1.val len.2 >>= fun cs =>
      .ok (⟨len.1,cs.1⟩,cs.2)

theorem reads_readContent : Reads readContent PfContent.bytes PfContent.Read := by
  intro l p rest
  rw [readContent,reads_checkedOne.bind_ok]
  constructor
  · rintro ⟨len,rest',-,rfl,hok⟩
    obtain ⟨cs,rest'',⟨hfills,hknown⟩,hrest,hok⟩ := (reads_readComponents _ _).bind_ok.mp hok
    obtain ⟨rfl,rfl⟩ := Prod.mk.inj (Except.ok.inj hok)
    simp only at hrest
    exact ⟨⟨hfills,hknown⟩,by rw [hrest]; rfl⟩
  · rintro ⟨⟨hfills,hknown⟩,rfl⟩
    refine ⟨p.length,componentBytes p.component.1++rest,trivial,rfl,?_⟩
    exact (reads_readComponents _ _).bind_ok.mpr ⟨p.component,rest,⟨hfills,hknown⟩,rfl,rfl⟩

theorem readContent_error (he : e ≠ .short) : readContent l = .error e ↔
    ∃ len rest,l=len::rest ∧
      readComponents maxNumOfPacketFilterComponent len.val rest = .error e := by
  rw [readContent,reads_checkedOne.bind_error]
  constructor
  · rintro (hone | ⟨len,rest,-,rfl,herr⟩)
    · exact absurd (checkedOne_error.mp hone).2 he
    · rcases (reads_readComponents _ _).bind_error.mp herr with herr | ⟨_,_,_,_,hok⟩
      · exact ⟨len,rest,rfl,herr⟩
      · cases hok
  · rintro ⟨len,rest,rfl,herr⟩
    exact .inr ⟨len,rest,trivial,rfl,
      (reads_readComponents _ _).bind_error.mpr (.inl herr)⟩

theorem PfContent.Sized.read {p : PfContent} (hs : p.Sized) (hknown : .matchAll∉p.component.1) :
    p.Read :=
  ⟨hs ▸ fills_length p.component.1,hknown⟩

end OgsDp.Ipfw
