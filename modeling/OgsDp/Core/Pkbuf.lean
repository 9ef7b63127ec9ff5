import OgsDp.Core.Hash

/-!
# Packet buffers (lib/core/ogs-pkbuf.h)

A buffer is what memory holds before its data, the data, and what is left of the cluster behind
it.
-/

namespace OgsDp.Core
open List

structure Pkbuf where
  headroom : List Byte
  data : List Byte
  tailroom : List Byte
  deriving DecidableEq

namespace Pkbuf

def push (b : Pkbuf) (len : Nat) : Option Pkbuf :=
  let keep:=b.headroom.length-len
  if len≤b.headroom.length then
    some { b with headroom := b.headroom.take keep,data := b.headroom.drop keep++b.data }
  else none

def pull (b : Pkbuf) (len : Nat) : Option Pkbuf :=
  if len≤b.data.length then
    some { b with headroom := b.headroom++b.data.take len,data := b.data.drop len }
  else none

theorem push_pulled {b pulled : Pkbuf} {len : Nat} (h : b.pull len=some pulled) :
    ∃ pushed,pulled.push len=some pushed ∧ pushed.data.drop len=b.data.drop len ∧
      pulled.data.length=b.data.length-len := by
  unfold pull at h
  split at h
  · rename_i hlong
    obtain rfl := Option.some.inj h
    have hroom : len≤(b.headroom++b.data.take len).length := by
      rw [length_append,length_take]
      omega
    have hnew : ((b.headroom++b.data.take len).drop
        ((b.headroom++b.data.take len).length-len)).length=len := by
      rw [length_drop]
      omega
    exact ⟨_,if_pos hroom,drop_left' hnew,length_drop⟩
  · cases h

/-- `ogs_pkbuf_trim`; a buffer that is too short stays as it is. -/
def trim (b : Pkbuf) (len : Nat) : Pkbuf :=
  if len≤b.data.length then
    { b with data := b.data.take len,tailroom := b.data.drop len++b.tailroom }
  else b

def putData (b : Pkbuf) (bytes : List Byte) : Option Pkbuf :=
  if bytes.length≤b.tailroom.length then
    some { b with data := b.data++bytes,tailroom := b.tailroom.drop bytes.length }
  else none

def byteAt (b : Pkbuf) (i : Nat) : Byte := ((b.data++b.tailroom)[i]?).getD 0

end Pkbuf

end OgsDp.Core
