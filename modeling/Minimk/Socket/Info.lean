import Minimk.Errno
import Minimk.Integer
import Minimk.Socket.Handle
import Mathlib.Data.Fintype.Basic

namespace Minimk.Socket

open Abort Integer

abbrev MAX_SOCKETS : Nat := 256

def MINIMK_SOCKET_INVALID : UInt64 := 0

-- An entry of the table; a zero handle marks a free one.
structure SocketInfo where
  handle : UInt64
  readTimeout : UInt64
  writeTimeout : UInt64
  fd : Int32
  deriving DecidableEq, Repr

def SocketInfo.zero : SocketInfo := ⟨0, 0, 0, 0⟩

-- A pointer into the table.
abbrev InfoIdx := Fin MAX_SOCKETS

structure SocketTable where
  sockets : InfoIdx → SocketInfo
  generation : UInt64
  nextSlot : UInt64
  deriving DecidableEq

namespace SocketTable

def zero : SocketTable := ⟨fun _ => .zero, 0, 0⟩

def set (table : SocketTable) (idx : InfoIdx) (info : SocketInfo) : SocketTable :=
  { table with sockets := Function.update table.sockets idx info }

def infoGet (idx : UInt64) : Except Assertion InfoIdx :=
  if h : idx.toNat < MAX_SOCKETS then .ok ⟨idx.toNat, h⟩ else .error .infoGetIndex

def infoFind (table : SocketTable) (handle : UInt64) : Except Assertion (Error × Option InfoIdx) :=
  if handleType handle ≠ HANDLE_TYPE_SOCKET then .ok (.ebadf, none)
  else do
    let idx ← infoGet (handleIndex handle)
    if (table.sockets idx).handle ≠ handle then return (.ebadf, none)
    return (.success, some idx)

-- The end of an iteration of the search: the cursor moves and may start a new generation.
def advance (table : SocketTable) : SocketTable :=
  let nextSlot := table.nextSlot + 1
  { table with
    nextSlot := nextSlot
    generation :=
      if nextSlot ≥ 2 ∧ nextSlot % 256 = 0 then table.generation + 1 else table.generation }

def infoCreateLoop (fd : Int32) :
    Nat → SocketTable → Option InfoIdx → Except Assertion (SocketTable × Option InfoIdx)
  | 0, table, found => .ok (table, found)
  | _ + 1, table, some idx => .ok (table, some idx)
  | count + 1, table, none => do
      let slotIndex := table.nextSlot % 256
      let idx ← infoGet slotIndex
      if (table.sockets idx).handle = 0 then
        assert (slotIndex ≤ 255) .infoCreateSlotIndex
        let handle ← makeHandle HANDLE_TYPE_SOCKET table.generation slotIndex.toUInt8
        let info := ⟨handle, UINT64_MAX, UINT64_MAX, fd⟩
        infoCreateLoop fd count (table.set idx info).advance (some idx)
      else infoCreateLoop fd count table.advance none

def infoCreate (table : SocketTable) (fd : Int32) :
    Except Assertion (Error × Option InfoIdx × SocketTable) := do
  let (table, found) ← infoCreateLoop fd MAX_SOCKETS table none
  if found = none then return (.emfile, none, table)
  return (.success, found, table)

def infoForget (table : SocketTable) (idx : InfoIdx) : SocketTable :=
  table.set idx .zero

end SocketTable

end Minimk.Socket
