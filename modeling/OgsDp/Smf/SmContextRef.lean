import OgsDp.Smf.Context

/-!
# SM context references (src/smf/context.c)

A reference is the index of its session in decimal digits, and it is read back as a number.
-/

namespace OgsDp.Smf
open Lib RefTable OgsDp.Core Pfcp Function List Option

namespace Context

variable {c c' : Context} {n u : Nat} {v : IpVersion}

def SessLive (c : Context) (n : Nat) : Prop := c.sessPool.index n=some n

instance (c : Context) (n : Nat) : Decidable (c.SessLive n) :=
  inferInstanceAs (Decidable (_=_))

/-- `s` is the reference that was made for session `n`. -/
def Refers (c : Context) (s : CStr) (n : Nat) : Prop :=
  c.SessLive n ∧ (c.sess n).epc=false ∧ (c.sess n).smContextRef=some s.bytes

/-- If the number that is read from `s` is the index of a session, then this is a session of the
5GC and `s` consists of the decimal digits of its index. -/
def Canonical (c : Context) (s : CStr) : Prop :=
  ∀ n,c.SessLive n → (BitVec.ofInt 32 (strtol s.bytes)).toNat=n+1 →
    (c.sess n).epc=false ∧ s.bytes=decimal (n+1)

structure MadeAt (n : Nat) (x : SmfSess) : Prop where
  index : x.index=n+1
  ref : x.smContextRef = if x.epc then none else some (decimal (n+1))

/-- The sessions in use have the index of their node and the reference made of it. -/
def Numbered (size : Nat) (c : Context) : Prop :=
  c.sessPool.size=size ∧ ∃ q live,Pool.Split c.sessPool q live ∧
    ∀ n∈live,MadeAt n (c.sess n)

namespace Numbered

variable {size : Nat}

theorem live_iff (h : c.Numbered size) :
    ∃ q live,Pool.Split c.sessPool q live ∧ ∀ n,c.SessLive n ↔ n∈live := by
  obtain ⟨-,q,live,hs,-⟩ := h
  refine ⟨q,live,hs,?_⟩
  intro n
  constructor
  · intro hn
    by_contra hno
    rw [SessLive,hs.index_free n hno] at hn
    cases hn
  · exact hs.index_live n

theorem made (h : c.Numbered size) (hn : c.SessLive n) : n<size ∧ MadeAt n (c.sess n) := by
  obtain ⟨hsize,q,live,hs,hmade⟩ := h
  have hmem : n∈live := by
    by_contra hno
    rw [SessLive,hs.index_free n hno] at hn
    cases hn
  exact ⟨hsize ▸ hs.lt_size hmem,hmade n hmem⟩

theorem find_iff (h : c.Numbered size) (s : CStr) :
    c.smfSessFindBySmContextRef s=some n ↔
      c.SessLive n ∧ (BitVec.ofInt 32 (strtol s.bytes)).toNat=n+1 := by
  obtain ⟨q,live,hs,hlive⟩ := h.live_iff
  unfold smfSessFindBySmContextRef smfSessFind
  rw [hs.find_eq,hlive]
  generalize (BitVec.ofInt 32 (strtol s.bytes)).toNat=i
  constructor
  · intro hfind
    split at hfind
    · rename_i hi
      obtain rfl := some.inj hfind
      exact ⟨hi.2,by omega⟩
    · cases hfind
  · rintro ⟨hn,rfl⟩
    rw [if_pos ⟨Nat.succ_pos n,hn⟩]
    rfl

theorem found_iff (h : c.Numbered size) (hsize : size<2^31) (s : CStr) :
    (∀ n,c.smfSessFindBySmContextRef s=some n ↔ c.Refers s n) ↔ c.Canonical s := by
  constructor
  · intro hfound n hn hread
    obtain ⟨-,hepc,href⟩ := (hfound n).mp ((h.find_iff s).mpr ⟨hn,hread⟩)
    have hmade:=(h.made hn).2.ref
    rw [hepc,if_neg (by decide),href] at hmade
    exact ⟨hepc,some.inj hmade⟩
  · intro hcanonical n
    rw [h.find_iff]
    constructor
    · rintro ⟨hn,hread⟩
      obtain ⟨hepc,hs⟩ := hcanonical n hn hread
      have hmade:=(h.made hn).2.ref
      rw [hepc,if_neg (by decide),← hs] at hmade
      exact ⟨hn,hepc,hmade⟩
    · rintro ⟨hn,hepc,href⟩
      obtain ⟨hlt,hmade⟩ := h.made hn
      have hs:=hmade.ref
      rw [hepc,if_neg (by decide),href,some.injEq] at hs
      have hvalue : strtol (decimal (n+1)++[])=(n+1 : Nat) :=
        strtol_decimal (by omega) rfl
      rw [append_nil] at hvalue
      refine ⟨hn,?_⟩
      rw [hs,hvalue,BitVec.ofInt_natCast,BitVec.toNat_ofNat,Nat.mod_eq_of_lt (by omega)]

theorem init (maxUe : Nat) (smfN4SeidOf : Nat → BitVec 64) (subnets : List Subnet)
    (seeds : Seeds) : (contextInit maxUe size smfN4SeidOf subnets seeds).Numbered size :=
  ⟨rfl,_,[],Pool.split_init size,nofun⟩

theorem ueAdd (h : c.Numbered size) : c.smfUeAdd.1.Numbered size := by
  unfold smfUeAdd
  split <;> exact h

theorem ueAddBySupi (h : c.Numbered size) (supi : CStr) :
    (c.smfUeAddBySupi supi).1.Numbered size := by
  have hadd:=h.ueAdd
  unfold smfUeAddBySupi
  split
  · rename_i heq
    rwa [heq] at hadd
  · rename_i heq
    rwa [heq] at hadd

theorem ueAddByImsi (h : c.Numbered size) (imsi : List Byte) :
    (c.smfUeAddByImsi imsi).1.Numbered size := by
  have hadd:=h.ueAdd
  unfold smfUeAddByImsi
  split
  · rename_i heq
    rwa [heq] at hadd
  · rename_i heq
    rwa [heq] at hadd

theorem sessAdd (h : c.Numbered size) {fill : SmfSess → SmfSess}
    (hfill : ∀ x n,x.index=n+1 → x.epc=false → x.smContextRef=none →
      MadeAt n (fill x)) :
    (c.sessAdd u fill).Returns fun c' _ => c'.Numbered size := by
  obtain ⟨hsize,q,live,hs,hmade⟩ := h
  unfold Context.sessAdd
  cases q with
  | nil =>
    rw [hs.idCalloc_nil]
    exact ⟨hsize,_,live,hs,hmade⟩
  | cons n q =>
    obtain ⟨pool,hcalloc,hs',hsize',-⟩ := hs.idCalloc
    rw [hcalloc]
    simp only
    split
    · split
      · trivial
      · refine ⟨hsize'.trans hsize,q,_,hs',?_⟩
        intro m hm
        by_cases hmn : m=n
        · subst hmn
          simp only [update_self]
          exact hfill _ _ rfl rfl rfl
        · rw [mem_append,mem_singleton] at hm
          simp only [update_of_ne hmn]
          exact hmade m (hm.resolve_right hmn)
    · trivial

theorem sessAddByApn (h : c.Numbered size) (apn : List Byte) (ratType : Byte) :
    (c.smfSessAddByApn u apn ratType).Returns fun c' _ => c'.Numbered size := by
  unfold smfSessAddByApn
  refine (h.sessAdd ?_).bind ?_
  · intro x n hindex hepc href
    exact ⟨hindex,href⟩
  · intro c' r h'
    split
    · trivial
    · exact h'

theorem sessAddByPsi (h : c.Numbered size) (psi : Byte) :
    (c.smfSessAddByPsi u psi).Returns fun c' _ => c'.Numbered size := by
  unfold smfSessAddByPsi
  split
  · trivial
  · refine h.sessAdd ?_
    intro x n hindex hepc href
    refine ⟨hindex,?_⟩
    simp only [hepc,hindex,Bool.false_eq_true,if_false]

theorem remove (h : c.Numbered size) (hn : c.SessLive n) :
    (c.smfSessRemove n).Returns fun c' _ => c'.Numbered size := by
  unfold smfSessRemove
  simp only
  split
  · trivial
  · refine Outcome.Returns.bind (dropIp_kept _ n .v4) ?_
    intro c₁ _ h₁
    refine Outcome.Returns.bind (dropIp_kept c₁ n .v6) ?_
    intro c₂ _ h₂
    have hkept:=h₂.trans h₁
    have hpool : c₂.sessPool=c.sessPool := congrArg (fun x => x.sessPool) hkept
    have hsess : c₂.sess=c.sess := congrArg (fun x => x.sess) hkept
    obtain ⟨hsize,q,live,hs,hmade⟩ := h
    have hmem : n∈live := by
      by_contra hno
      rw [SessLive,hs.index_free n hno] at hn
      cases hn
    show Numbered size { c₂ with
      smfN4SeidPool := c₂.smfN4SeidPool.release (c.sess n).smfN4SeidNode
      sessPool := c₂.sessPool.idFree n (c.sess n).id }
    unfold Numbered
    simp only [hpool,hsess,Pool.idFree_size]
    exact ⟨hsize,_,_,hs.idFree hmem _,fun m hm => hmade m (mem_of_mem_erase hm)⟩

end Numbered

end Context

/-- Additions of UEs and of sessions of both kinds, and removals of sessions. -/
inductive SessOp where
  | addUeBySupi (supi : CStr)
  | addUeByImsi (imsi : List Byte)
  | addByApn (u : Nat) (apn : List Byte) (ratType : Byte)
  | addByPsi (u : Nat) (psi : Byte)
  | remove (n : Nat)

namespace Context

def sessStep (c : Context) : SessOp → Option (Outcome Context Unit)
  | .addUeBySupi supi => some (.ok (c.smfUeAddBySupi supi).1 ())
  | .addUeByImsi imsi => some (.ok (c.smfUeAddByImsi imsi).1 ())
  | .addByApn u apn ratType =>
    if u∈c.ueList then some ((c.smfSessAddByApn u apn ratType).bind fun c _ => .ok c ())
    else none
  | .addByPsi u psi =>
    if u∈c.ueList then some ((c.smfSessAddByPsi u psi).bind fun c _ => .ok c ()) else none
  | .remove n => if c.SessLive n then some (c.smfSessRemove n) else none

variable {c : Context}

theorem Numbered.step {size : Nat} {op : SessOp} {o : Outcome Context Unit}
    (h : c.Numbered size) (ho : c.sessStep op=some o) :
    o.Returns fun c' _ => c'.Numbered size := by
  cases op with
  | addUeBySupi supi =>
    obtain rfl := some.inj ho
    exact h.ueAddBySupi supi
  | addUeByImsi imsi =>
    obtain rfl := some.inj ho
    exact h.ueAddByImsi imsi
  | addByApn u apn ratType =>
    simp only [sessStep] at ho
    split at ho
    · obtain rfl := some.inj ho
      exact (h.sessAddByApn apn ratType).bind fun _ _ h' => h'
    · cases ho
  | addByPsi u psi =>
    simp only [sessStep] at ho
    split at ho
    · obtain rfl := some.inj ho
      exact (h.sessAddByPsi psi).bind fun _ _ h' => h'
    · cases ho
  | remove n =>
    simp only [sessStep] at ho
    split at ho
    · rename_i hn
      obtain rfl := some.inj ho
      exact h.remove hn
    · cases ho

/-- In every run a text leads to the session whose reference it is, and other texts to none, just
if it is canonical where it leads to a session. -/
theorem sm_context_ref_run {maxUe poolSess : Nat} {smfN4SeidOf : Nat → BitVec 64}
    {subnets : List Subnet} {seeds : Seeds} {ops : List SessOp} (hsize : poolSess<2^31) :
    ∀ c∈completed sessStep (contextInit maxUe poolSess smfN4SeidOf subnets seeds) ops,∀ s,
      (∀ n,c.smfSessFindBySmContextRef s=some n ↔ c.Refers s n) ↔ c.Canonical s := by
  intro c hc s
  have hinit : (contextInit maxUe poolSess smfN4SeidOf subnets seeds).Numbered poolSess :=
    Numbered.init maxUe smfN4SeidOf subnets seeds
  have hnumbered : c.Numbered poolSess := by
    refine completed_inv ?_ hinit (eachStep_of_forall fun (_ : Context) (_ : SessOp) => trivial)
      c hc
    intro s op t r h _ ho
    exact h.step ho
  exact hnumbered.found_iff hsize s

def context2 : Context :=
  contextInit 2 2 (fun n => BitVec.ofNat 64 (n+1)) [] ⟨0,0,0,fun _ => 0⟩

def bothKinds : List SessOp :=
  [.addUeBySupi ⟨ascii "imsi-42",by decide⟩,.addUeByImsi [1,2],.addByPsi 0 5,
    .addByApn 1 (ascii "internet") 6]

def runBothKinds : List Context := completed sessStep context2 bothKinds

def bothLive : Context := (runBothKinds[4]?).getD context2

/-- Leading zeros, signs, blanks, what follows the digits and 2 ^ 32 make no difference, and the
session of the EPC has no reference at all. -/
theorem other_texts_found :
    (¬ ∀ c∈runBothKinds,∀ s n,c.smfSessFindBySmContextRef s=some n ↔ c.Refers s n) ∧
      (∀ s ∈ [ascii "01",ascii "+1",ascii " 1",ascii "1/modify",ascii "4294967297"],
        bothLive.smfSessFind (BitVec.ofInt 32 (strtol s))=some 0 ∧
          (bothLive.sess 0).smContextRef≠some s) ∧
      bothLive.smfSessFind (BitVec.ofInt 32 (strtol (ascii "2")))=some 1 ∧
        (bothLive.sess 1).smContextRef=none := by
  have hmem : bothLive∈runBothKinds := List.mem_of_getElem? (i := 4) rfl
  refine ⟨?_,by decide,by decide,by decide⟩
  intro h
  have hfound : bothLive.smfSessFindBySmContextRef ⟨ascii "01",by decide⟩=some 0 := by
    decide
  have hepc:=((h bothLive hmem ⟨ascii "01",by decide⟩ 0).mp hfound).2.2
  exact absurd hepc (by decide)

def blank1 : CStr := ⟨ascii " 1",by decide⟩

theorem sm_context_ref_run_both :
    (∀ n,bothLive.smfSessFindBySmContextRef blank1=some n ↔ bothLive.Refers blank1 n) ↔
      bothLive.Canonical blank1 := by
  have hmem : bothLive∈completed sessStep context2 bothKinds :=
    List.mem_of_getElem? (i := 4) rfl
  exact sm_context_ref_run (by decide) bothLive hmem blank1

end Context

end OgsDp.Smf
