import OgsDp.Dmf.GnbSync

/-!
# gNBs at the DMF (src/dmf/context.c, src/dmf/dmf-sm.c)

The AMF registers and deregisters a gNB by its id alone; a complete request records where a
session of a registered gNB is served.
-/

namespace OgsDp.Dmf
open Lib OgsDp.Core

structure RanAddr where
  sinPort : BitVec 16
  sinAddr : BitVec 32
  deriving DecidableEq

structure Gnb where
  id : List Byte
  ranAddr : Option RanAddr
  teid : BitVec 32
  sessionId : List Byte
  deriving DecidableEq

structure Context where
  gnbList : List Gnb
  deriving DecidableEq

namespace Context

def addGnb (c : Context) (gnbId : CStr) : Context :=
  if c.gnbList.any fun gnb => gnb.id == gnbId.bytes then c
  else ⟨c.gnbList++[⟨gnbId.bytes.take 63,none,0,[]⟩]⟩

def removeGnb (c : Context) (gnbId : CStr) : Context :=
  ⟨c.gnbList.eraseP fun gnb => gnb.id == gnbId.bytes⟩

def findGnb (c : Context) (gnbId : CStr) : Option Gnb :=
  c.gnbList.find? fun gnb => gnb.id == gnbId.bytes

def modifyFound (gnbId : CStr) (f : Gnb → Gnb) : List Gnb → List Gnb
  | [] => []
  | gnb::l => if gnb.id == gnbId.bytes then f gnb::l else gnb::modifyFound gnbId f l

/-- `dmf_update_gnb_ran_info`; `inetPton` is `inet_pton(AF_INET, ..)`. -/
def updateGnbRanInfo (inetPton : CStr → Option (BitVec 32)) (c : Context) (f : Forward) :
    Context :=
  match inetPton f.ranAddr with
  | none => ⟨modifyFound f.gnbId (fun gnb => { gnb with ranAddr := none }) c.gnbList⟩
  | some sinAddr =>
    ⟨modifyFound f.gnbId (fun gnb => { gnb with
      ranAddr := some ⟨f.ranPort,sinAddr⟩
      teid := f.teid
      sessionId := f.sessionId.bytes.take 63 }) c.gnbList⟩

/-- What `dmf_state_operational` does about a "gnb-sync" request with this body. -/
def gnbSync (cJSONParse : CStr → Bool) (inetPton : CStr → Option (BitVec 32)) (c : Context)
    (content : CStr) : Context :=
  if cJSONParse content=true then
    match gnbSyncAction content with
    | .forwardToDsmf f => c.updateGnbRanInfo inetPton f
    | .addGnb gnbId => c.addGnb gnbId
    | .removeGnb gnbId => c.removeGnb gnbId
    | .none => c
  else c

end Context

end OgsDp.Dmf
