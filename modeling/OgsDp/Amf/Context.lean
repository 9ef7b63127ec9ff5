import OgsDp.Core.Pool
import OgsDp.Core.Conv

/-!
# gNBs at the AMF (src/amf/context.c, src/amf/sbi-path.c)

The gNBs are the nodes of `amf_gnb_pool`; an `amf_gnb_t *` is the subscript of its node.
-/

namespace OgsDp.Amf
open Lib RefTable OgsDp.Core Function

structure SNssai where
  sst : Byte
  sd : BitVec 24
  deriving DecidableEq

structure Bplmn where
  plmnId : Vector Byte 3
  sNssai : List SNssai
  deriving DecidableEq

structure SupportedTa where
  tac : BitVec 24
  bplmnList : List Bplmn
  deriving DecidableEq

structure Gnb where
  id : Nat
  gnbId : BitVec 32
  plmnId : Vector Byte 3
  ngSetupSuccess : Bool
  supportedTaList : List SupportedTa
  deriving DecidableEq

def Gnb.zero : Gnb where
  id := 0
  gnbId := 0
  plmnId := #v[0,0,0]
  ngSetupSuccess := false
  supportedTaList := []

structure Tai where
  plmnId : Vector Byte 3
  tac : BitVec 24
  deriving DecidableEq

/-- An entry of `served_tai`: the items of `list0`, `list1` and `list2`. -/
structure ServedTai where
  list0 : List (Vector Byte 3 × List (BitVec 24))
  list1 : List (Tai × Nat)
  list2 : List Tai

structure PlmnSupport where
  plmnId : Vector Byte 3
  sNssai : List SNssai

/-- What the configuration file sets; `peer` is `ogs_global_conf()->max.peer`. -/
structure Config where
  peer : Nat
  servedTai : List ServedTai
  plmnSupport : List PlmnSupport

/-- `self`, the pool and the way to the DMF: whether an instance of it is known, whether its client
takes a request, and the bodies of the requests sent. -/
structure Context where
  config : Config
  gnbPool : Pool
  gnb : Nat → Gnb
  gnbList : List Nat
  gnbIdHash : List (Entry Nat Nat)
  seed : BitVec 32
  dmfInstance : Bool
  dmfClient : Bool
  sent : List CStr

def contextInit (config : Config) (gnb : Nat → Gnb) (seed : BitVec 32) : Context where
  config := config
  gnbPool := Pool.init (config.peer*2)
  gnb := gnb
  gnbList := []
  gnbIdHash := []
  seed := seed
  dmfInstance := false
  dmfClient := false
  sent := []

def gnbSyncText (gnbId : List Byte) (isRegister : Bool) : List Byte :=
  ascii "\x7b\"gnb_id\":\"" ++ gnbId++ascii "\",\"action\":\"" ++
    (if isRegister then ascii "register" else ascii "deregister")++ascii "\"\x7d"

theorem zero_not_mem_gnbSyncText {gnbId : List Byte} (h : 0∉gnbId) (isRegister : Bool) :
    0∉gnbSyncText gnbId isRegister := by
  unfold gnbSyncText
  simp only [List.mem_append,not_or]
  have hopen : (0 : Byte)∉ascii "\x7b\"gnb_id\":\"" := by decide
  have hname : (0 : Byte)∉ascii "\",\"action\":\"" := by decide
  have hclose : (0 : Byte)∉ascii "\"\x7d" := by decide
  have haction : (0 : Byte)∉(if isRegister then ascii "register" else ascii "deregister") := by
    cases isRegister <;> decide
  exact ⟨⟨⟨⟨hopen,h⟩,hname⟩,haction⟩,hclose⟩

def gnbSyncBody (gnbId : CStr) (isRegister : Bool) : CStr where
  bytes := (gnbSyncText gnbId.bytes isRegister).take 255
  noNul := fun h => zero_not_mem_gnbSyncText gnbId.noNul isRegister (List.mem_of_mem_take h)

def gnbIdStr (gnbId : BitVec 32) : CStr := ⟨decimal gnbId.toNat,zero_not_mem_decimal _⟩

namespace Context

def modify (c : Context) (n : Nat) (f : Gnb → Gnb) : Context :=
  { c with gnb := update c.gnb n (f (c.gnb n)) }

theorem modify_id (c : Context) (n : Nat) : c.modify n id=c := by
  simp [modify]

def gnbIdKeys (c : Context) : Keys Nat (BitVec 32) :=
  fieldKeys 4 c.seed fun n => (c.gnb n).gnbId

structure Kept (c c' : Context) : Prop where
  gnbPool : c'.gnbPool=c.gnbPool
  gnbList : c'.gnbList=c.gnbList
  gnbIdHash : c'.gnbIdHash=c.gnbIdHash
  seed : c'.seed=c.seed
  gnbId : ∀ m,(c'.gnb m).gnbId=(c.gnb m).gnbId
  ngSetupSuccess : ∀ m,(c'.gnb m).ngSetupSuccess=(c.gnb m).ngSetupSuccess

theorem Kept.gnbIdKeys {c c' : Context} (h : c.Kept c') : c'.gnbIdKeys=c.gnbIdKeys := by
  unfold Context.gnbIdKeys
  rw [h.seed,funext h.gnbId]

def sbiSendGnbSyncToDmf (c : Context) (gnbId : CStr) (isRegister : Bool) : Context :=
  if c.dmfInstance && c.dmfClient then
    { c with sent := c.sent++[gnbSyncBody gnbId isRegister] }
  else c

theorem sbiSendGnbSyncToDmf_kept (c : Context) (gnbId : CStr) (isRegister : Bool) :
    c.Kept (c.sbiSendGnbSyncToDmf gnbId isRegister) := by
  unfold sbiSendGnbSyncToDmf
  split <;> exact ⟨rfl,rfl,rfl,rfl,fun _ => rfl,fun _ => rfl⟩

def gnbCalloc (c : Context) (pool : Pool) (n id : Nat) : Context :=
  { c with
    gnbPool := pool
    gnb := update c.gnb n { Gnb.zero with id := id }
    gnbList := c.gnbList++[n] }

theorem gnbCalloc_self (c : Context) (pool : Pool) (n id : Nat) :
    (c.gnbCalloc pool n id).gnb n = { Gnb.zero with id := id } :=
  update_self ..

theorem gnbCalloc_of_ne (c : Context) (pool : Pool) (id : Nat) {n m : Nat} (h : m≠n) :
    (c.gnbCalloc pool n id).gnb m=c.gnb m :=
  update_of_ne h ..

def gnbAdd (c : Context) : Context × Option Nat :=
  match c.gnbPool.idCalloc with
  | (_,none) => (c,none)
  | (pool,some (n,id)) =>
    let c:=c.gnbCalloc pool n id
    (c.sbiSendGnbSyncToDmf (gnbIdStr (c.gnb n).gnbId) true,some n)

def gnbRemove (c : Context) (n : Nat) : Context :=
  let c:=c.sbiSendGnbSyncToDmf (gnbIdStr (c.gnb n).gnbId) false
  { c with
    gnbList := c.gnbList.erase n
    gnbIdHash := unset c.gnbIdKeys c.gnbIdHash (c.gnb n).gnbId
    gnbPool := c.gnbPool.idFree n (c.gnb n).id }

theorem gnbRemove_frame (c : Context) (n : Nat) :
    (c.gnbRemove n).gnbList=c.gnbList.erase n ∧ (c.gnbRemove n).gnb=c.gnb ∧
      (c.gnbRemove n).gnbPool=c.gnbPool.idFree n (c.gnb n).id := by
  unfold gnbRemove sbiSendGnbSyncToDmf
  split <;> exact ⟨rfl,rfl,rfl⟩

def gnbFindByGnbId (c : Context) (gnbId : BitVec 32) : Option Nat :=
  RefTable.get c.gnbIdKeys c.gnbIdHash gnbId

def gnbSetGnbId (c : Context) (n : Nat) (gnbId : BitVec 32) : Context :=
  let c:={ c with gnbIdHash := unset c.gnbIdKeys c.gnbIdHash (c.gnb n).gnbId }
  let c:=c.modify n fun gnb => { gnb with gnbId := gnbId }
  { c with gnbIdHash := set c.gnbIdKeys c.gnbIdHash n gnbId n }

theorem gnbSetGnbId_ngSetupSuccess (c : Context) (n : Nat) (gnbId : BitVec 32) (m : Nat) :
    ((c.gnbSetGnbId n gnbId).gnb m).ngSetupSuccess=(c.gnb m).ngSetupSuccess := by
  by_cases hm : m=n
  · subst hm
    simp [gnbSetGnbId,modify]
  · simp [gnbSetGnbId,modify,hm]

def findServedTai (c : Context) (nrTai : Tai) : Option Nat :=
  c.config.servedTai.findIdx? fun served =>
    (served.list0.any fun tai => tai.1 == nrTai.plmnId && tai.2.any (· == nrTai.tac)) ||
      (served.list1.any fun tai =>
        decide (tai.1.tac.toNat≤nrTai.tac.toNat ∧ nrTai.tac.toNat<tai.1.tac.toNat+tai.2)) ||
      served.list2.any (· == nrTai)

def findSNssai (c : Context) (servedPlmnId : Vector Byte 3) (sNssai : SNssai) : Option SNssai :=
  c.config.plmnSupport.findSome? fun support =>
    if support.plmnId=servedPlmnId then support.sNssai.find? (· == sNssai) else none

end Context

end OgsDp.Amf
