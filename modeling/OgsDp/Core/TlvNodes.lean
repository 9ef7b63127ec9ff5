import OgsDp.Core.Pool
import OgsDp.Core.TlvMsg
import OgsDp.Lib.Checked

/-!
# The nodes of the TLV pool (lib/core/ogs-tlv.c, lib/core/ogs-tlv-msg.c)

The functions on messages again, with the nodes they take. A list of nodes is linked by `next`,
and what is embedded in a node hangs below it.
-/

namespace OgsDp.Core
open Function List

/-- `ogs_tlv_t` in the pool; a null `embedded` is the empty list. -/
inductive TlvNode (E : Type) where
  | mk (node : Nat) (elem : E) (embedded : List (TlvNode E))

structure TlvHead where
  mode : TlvMode
  type : Nat
  inst : Byte
  value : List Byte

mutual

def TlvNode.free {E : Type} : TlvNode E → Pool → Pool
  | .mk node _ embedded, p => (ogsTlvFreeAll embedded p).release node

def ogsTlvFreeAll {E : Type} : List (TlvNode E) → Pool → Pool
  | [], p => p
  | t::ts, p => ogsTlvFreeAll ts (t.free p)

end

mutual

def TlvNode.tlv : TlvNode TlvHead → Tlv
  | .mk _ elem embedded => .mk elem.mode elem.type elem.inst elem.value (tlvs embedded)

def tlvs : List (TlvNode TlvHead) → List Tlv
  | [] => []
  | t::ts => t.tlv::tlvs ts

end

def TlvNode.elem {E : Type} : TlvNode E → E
  | .mk _ elem _ => elem

def ogsTlvGetNode (p : Pool) : Except Stop (Pool × Nat) :=
  match p.alloc with
  | (p,some node) => .ok (p,node)
  | (_,none) => .error .exhausted

/-- A call that may return a null pointer; the nodes it took until then stay taken. -/
def TlvCall (α : Type) : Type := Pool → Except Stop (Pool × Option α)

namespace TlvCall

variable {α β : Type}

instance : Monad TlvCall where
  pure a := fun p => .ok (p,some a)
  bind x f := fun p =>
    match x p with
    | .error e => .error e
    | .ok (p,none) => .ok (p,none)
    | .ok (p,some a) => f a p

def null : TlvCall α := fun p => .ok (p,none)

def get : TlvCall Nat := fun p =>
  match ogsTlvGetNode p with
  | .error e => .error e
  | .ok (p,node) => .ok (p,some node)

def of (x : Except Stop α) : TlvCall α := fun p =>
  match x with
  | .ok a => .ok (p,some a)
  | .error .error => .ok (p,none)
  | .error e => .error e

theorem bind_apply (x : TlvCall α) (f : α → TlvCall β) (p : Pool) :
    (x >>= f) p = match x p with
      | .error e => .error e
      | .ok (p,none) => .ok (p,none)
      | .ok (p,some a) => f a p := rfl

end TlvCall

section Build

variable {S : Type}

def addFieldNodes (sub : List TlvDesc → S → TlvCall (List (TlvNode TlvHead))) (mode : TlvMode)
    (desc : TlvDesc) (v : Slot S) : TlvCall (TlvNode TlvHead) :=
  if desc.ctype = .compound then do
    let node ← TlvCall.get
    let embedded ← sub desc.children v.sub
    if embedded.isEmpty then TlvCall.null
    else return .mk node ⟨tlvCtype2mode desc.ctype mode,desc.type.val,desc.inst,[]⟩ embedded
  else do
    let value ← TlvCall.of (leafValue desc v)
    let node ← TlvCall.get
    return .mk node ⟨tlvCtype2mode desc.ctype mode,desc.type.val,desc.inst,value⟩ []

def addRepeatsNodes (add : Slot S → TlvCall (TlvNode TlvHead)) (slots : Nat → Slot S) :
    Nat → Nat → TlvCall (List (TlvNode TlvHead))
  | 0, _ => return []
  | n+1, j =>
    if (slots j).presence then do
      let t ← add (slots j)
      let ts ← addRepeatsNodes add slots n (j+1)
      return t::ts
    else return []

def addChildrenNodes (add : TlvDesc → Slot S → TlvCall (TlvNode TlvHead))
    (m : Nat → Nat → Slot S) : Nat → List TlvDesc → TlvCall (List (TlvNode TlvHead))
  | _, [] => return []
  | i, [desc] => addRepeatsNodes (add desc) (m i) 1 0
  | i, desc::next::rest =>
    if next.ctype = .more then do
      let ts ← addRepeatsNodes (add desc) (m i) next.length.val 0
      let ts' ← addChildrenNodes add m (i+2) rest
      return ts++ts'
    else do
      let ts ← addRepeatsNodes (add desc) (m i) 1 0
      let ts' ← addChildrenNodes add m (i+1) (next::rest)
      return ts++ts'

end Build

def tlvAddCompoundNodes (mode : TlvMode) :
    (n : Nat) → List TlvDesc → Msg n → TlvCall (List (TlvNode TlvHead))
  | 0, _, _ => fun _ => .error .abort
  | n+1, descs, m => addChildrenNodes (addFieldNodes (tlvAddCompoundNodes mode n) mode) m 0 descs

/-- The TLV pool, and the number of packet buffers that are allocated. -/
structure TlvMemory where
  pool : Pool
  pkbufs : Nat

def ogsTlvBuildMsgNodes (desc : TlvDesc) (m : Msg 9) (mode : TlvMode) (room : Nat)
    (s : TlvMemory) : Except Stop (TlvMemory × Option (List Byte)) :=
  if desc.ctype ≠ .message then .error .abort
  else if desc.children.isEmpty then
    if room<16 then .ok (s,none) else .ok (⟨s.pool,s.pkbufs+1⟩,some [])
  else
    match tlvAddCompoundNodes mode 9 desc.children m s.pool with
    | .error e => .error e
    | .ok (p,none) => .ok (⟨p,s.pkbufs⟩,none)
    | .ok (p,some root) =>
      let length:=calcLength (tlvs root)
      if root.isEmpty then .ok (⟨p,s.pkbufs⟩,none)
      else if room<16+length then .ok (⟨p,s.pkbufs⟩,none)
      else
        match render length (tlvs root) with
        | .error e => .error e
        | .ok data =>
          if data.length≠length then .ok (⟨p,s.pkbufs+1⟩,none)
          else .ok (⟨ogsTlvFreeAll root p,s.pkbufs+1⟩,some data)

def getNodes (get : Nat → Except Stop Elem) (blk length : Nat) :
    Nat → Nat → Pool → Except Stop (Pool × List (TlvNode Elem) × Nat)
  | 0, _, _ => .error .abort
  | fuel+1, pos, p => do
    let (p,node) ← ogsTlvGetNode p
    let e ← get pos
    if e.next-blk<length then
      let (p,ts,last) ← getNodes get blk length fuel e.next p
      return (p,.mk node e []::ts,last)
    else return (p,[.mk node e []],e.next)

def parseNodes (get : Nat → Except Stop Elem) (blk length : Nat) : TlvCall (List (TlvNode Elem)) :=
  fun p => do
    let (p,ts,last) ← getNodes get blk length (length+1) blk p
    if length≠last-blk then return (ogsTlvFreeAll ts p,none) else return (p,some ts)

/-- What a call on nodes leaves: the pool, the nodes, the message, and whether it is `OGS_OK`. -/
structure Parsed (N M : Type) where
  pool : Pool
  nodes : N
  msg : M
  ok : Bool

section Parse

variable {S : Type}

def parseFieldNodes
    (sub : List TlvDesc → List (TlvNode Elem) → S → Pool →
      Except Stop (Parsed (List (TlvNode Elem)) S))
    (data : List Byte) (mode : TlvMode) (desc : TlvDesc) (t : TlvNode Elem) (v : Slot S)
    (p : Pool) : Except Stop (Parsed (TlvNode Elem) (Slot S)) :=
  match t with
  | .mk node e embedded =>
    if desc.ctype = .compound then
      match parseNodes (tlvGetElement data mode) e.value e.length p with
      | .error e => .error e
      | .ok (p,none) => .ok ⟨p,.mk node e [],v,false⟩
      | .ok (p,some ts) => do
        let r ← sub desc.children ts v.sub p
        return ⟨r.pool,.mk node e r.nodes,{ v with sub := r.msg,presence := r.ok || v.presence },
          r.ok⟩
    else
      match tlvParseLeaf data desc e v with
      | .ok v => .ok ⟨p,.mk node e embedded,{ v with presence := true },true⟩
      | .error .error => .ok ⟨p,.mk node e embedded,v,false⟩
      | .error e => .error e

def parseElemsNodes
    (field : TlvDesc → TlvNode Elem → Slot S → Pool →
      Except Stop (Parsed (TlvNode Elem) (Slot S)))
    (descs : List TlvDesc) : List (TlvNode Elem) → Counts → (Nat → Nat → Slot S) → Pool →
      Except Stop (Parsed (List (TlvNode Elem)) (Nat → Nat → Slot S))
  | [], _, m, p => .ok ⟨p,[],m,true⟩
  | t::ts, c, m, p =>
    match place descs m t.elem c with
    | .error .error => .ok ⟨p,t::ts,m,false⟩
    | .error e => .error e
    | .ok (.skip c) => do
      let r ← parseElemsNodes field descs ts c m p
      return ⟨r.pool,t::r.nodes,r.msg,r.ok⟩
    | .ok (.slot c i j desc) => do
      let f ← field desc t (m i j) p
      let m:=update m i (update (m i) j f.msg)
      if f.ok then
        let r ← parseElemsNodes field descs ts c m f.pool
        return ⟨r.pool,f.nodes::r.nodes,r.msg,r.ok⟩
      else return ⟨f.pool,f.nodes::ts,m,false⟩

end Parse

def tlvParseCompoundNodes (data : List Byte) (mode : TlvMode) :
    (n : Nat) → List TlvDesc → List (TlvNode Elem) → Msg n → Pool →
      Except Stop (Parsed (List (TlvNode Elem)) (Msg n))
  | 0, _, _, _, _ => .error .abort
  | n+1, descs, ts, m, p =>
    parseElemsNodes (parseFieldNodes (tlvParseCompoundNodes data mode n) data mode) descs ts .zero
      m p

def parseMsgNodes (get : Nat → Except Stop Elem) (m : Msg 9) (desc : TlvDesc) (data : List Byte)
    (mode : TlvMode) (p : Pool) : Except Stop (Parsed Unit (Msg 9)) :=
  if desc.ctype ≠ .message ∨ desc.children.isEmpty then .error .abort
  else
    match parseNodes get 0 data.length p with
    | .error e => .error e
    | .ok (p,none) => .ok ⟨p,(),m,false⟩
    | .ok (p,some root) => do
      let r ← tlvParseCompoundNodes data mode 9 desc.children root m p
      return ⟨ogsTlvFreeAll r.nodes r.pool,(),r.msg,r.ok⟩

def ogsTlvParseMsgNodes (m : Msg 9) (desc : TlvDesc) (data : List Byte) (mode : TlvMode) :
    Pool → Except Stop (Parsed Unit (Msg 9)) :=
  parseMsgNodes (tlvGetElement data mode) m desc data mode

def ogsTlvParseMsgDescNodes (m : Msg 9) (desc : TlvDesc) (data : List Byte) (mode : TlvMode) :
    Pool → Except Stop (Parsed Unit (Msg 9)) :=
  parseMsgNodes (tlvGetElementDesc data mode desc.children) m desc data mode

def InUse (p : Pool) (l : List Nat) : Prop := ∃ q live,Pool.Split p q live ∧ live.Perm l

namespace InUse

variable {p p' : Pool} {l l' : List Nat} {n : Nat}

theorem perm (h : InUse p l) (hl : l.Perm l') : InUse p l' := by
  obtain ⟨q,live,hs,hlive⟩ := h
  exact ⟨q,live,hs,hlive.trans hl⟩

theorem unique (h : InUse p l) (h' : InUse p l') : l.Perm l' := by
  obtain ⟨q,live,hs,hlive⟩ := h
  obtain ⟨q',live',hs',hlive'⟩ := h'
  have hmem (x : Nat) : x∈live ↔ x∈live' := by
    constructor
    · intro hx
      by_contra hx'
      have hindex:=hs'.index_free x hx'
      rw [hs.index_live x hx] at hindex
      cases hindex
    · intro hx
      by_contra hx'
      have hindex:=hs.index_free x hx'
      rw [hs'.index_live x hx] at hindex
      cases hindex
  have hperm:=(perm_ext_iff_of_nodup hs.live_nodup hs'.live_nodup).mpr hmem
  exact hlive.symm.trans (hperm.trans hlive')

theorem getNode (h : InUse p l) :
    (p.avail=0 ∧ ogsTlvGetNode p = .error .exhausted) ∨
      ∃ p' n,ogsTlvGetNode p = .ok (p',n) ∧ p'.avail+1=p.avail ∧ InUse p' (n::l) := by
  obtain ⟨q,live,hs,hlive⟩ := h
  have hlen:=hs.queue.length_eq
  cases q with
  | nil =>
    refine .inl ⟨hlen.symm,?_⟩
    rw [ogsTlvGetNode,Pool.alloc_of_nil hs.queue]
  | cons n q =>
    obtain ⟨p',halloc,hs',-⟩ := hs.alloc
    have hlen':=hs'.queue.length_eq
    rw [length_cons] at hlen
    refine .inr ⟨p',n,?_,by omega,q,live++[n],hs',?_⟩
    · rw [ogsTlvGetNode,halloc]
    · exact perm_append_singleton n live |>.trans (hlive.cons n)

theorem release (h : InUse p (n::l)) : InUse (p.release n) l := by
  obtain ⟨q,live,hs,hlive⟩ := h
  have hn : n∈live := hlive.mem_iff.mpr (mem_cons_self ..)
  refine ⟨_,_,hs.release hn,?_⟩
  have hmove:=(perm_cons_erase hn).symm.trans hlive
  exact hmove.cons_inv

end InUse

namespace CountsAs

variable {α β γ δ : Type} {e : α → β} {e' : γ → δ} {x : TlvCall α} {f : α → TlvCall γ}
  {y : Nat → Except Stop (β × Nat)}

end CountsAs

section Build

variable {S : Type} {mode : TlvMode}

theorem tlvs_eq_map (ts : List (TlvNode TlvHead)) : tlvs ts=ts.map TlvNode.tlv := by
  induction ts with
  | nil => rw [tlvs,map_nil]
  | cons t ts ih => rw [tlvs,map_cons,ih]

end Build

namespace Tracks

variable {R T R' T' : Type} {P : R → T → Prop} {Q : R' → T' → Prop} {x : Except Stop R}
  {y : Except Stop T} {f : R → Except Stop R'} {g : T → Except Stop T'}

end Tracks

section Parse

variable {S : Type} {data : List Byte} {mode : TlvMode} {get : Nat → Except Stop Elem}
  {blk length : Nat} {p : Pool} {l : List Nat}

end Parse

end OgsDp.Core
