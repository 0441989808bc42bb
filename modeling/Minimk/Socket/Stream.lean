import Minimk.Fifo
import Minimk.Io
import Minimk.Socket.Operation
import Minimk.Syscall

namespace Minimk.Socket

open Abort Minimk.Runtime

-- The memory that a call of sendall or recvall is about.
structure Buffer where
  base : UInt64
  count : UInt64
  bytes : List UInt8
  length_eq : bytes.length = count.toNat

namespace Buffer

-- The bytes from an offset on are overwritten.
def store (buffer : Buffer) (offset : Nat) (items : List UInt8) : Buffer where
  base := buffer.base
  count := buffer.count
  bytes := buffer.bytes.mapIdx fun idx byte =>
    if offset ≤ idx then (items[idx - offset]?).getD byte else byte
  length_eq := by simp [buffer.length_eq]

end Buffer

-- Where a call of sendall or recvall stands, with its `total`, and with what the last system call
-- has stored if it is suspended.
inductive PartyPoint where
  | idle
  | find (total : UInt64)
  | call (total : UInt64)
  | suspended (total moved : UInt64)
  | stopped (total : UInt64) (rv : Error)
  deriving DecidableEq

-- A coroutine that calls sendall, or recvall, on one buffer after the other: those of the calls
-- that have returned 0 and the others, with that of the current call in front.
structure Party where
  finished : List Buffer
  pending : List Buffer
  point : PartyPoint

inductive PartyAction where
  | enter
  | find (rv : Error)
  | call (returned : Syscall.Returned)
  | resume (rv : Error)
  deriving DecidableEq

-- The receiver reads from the stream that the sender writes to.
def transferStart : Direction → UInt64 → UInt64 → Except Assertion PUnit
  | .read => Io.readallStart
  | .write => Io.writeallStart

def transferallTurn :
    Direction → UInt64 → UInt64 → Error → UInt64 → Except Assertion (Except Error UInt64)
  | .read => Io.readallTurn
  | .write => Io.writeallTurn

def transferCall : Direction → UInt64 → (UInt64 → Syscall.Returned) → Error × UInt64
  | .read => Syscall.recv
  | .write => Syscall.send

namespace Party

-- The head of the loop of `minimk_io_writeall` and `minimk_io_readall`.
def loop (party : Party) (buffer : Buffer) (rest : List Buffer) (total : UInt64) : Party :=
  if total < buffer.count then
    { party with pending := buffer :: rest, point := .find total }
  else { finished := party.finished ++ [buffer], pending := rest, point := .idle }

-- The loop from the return of `minimk_socket_send` or `minimk_socket_recv`.
def returned (party : Party) (direction : Direction) (buffer : Buffer) (rest : List Buffer)
    (total : UInt64) (rv : Error) (moved : UInt64) : Except Assertion Party := do
  match ← transferallTurn direction buffer.count total rv moved with
  | .ok total => return party.loop buffer rest total
  | .error rv => return { party with pending := buffer :: rest, point := .stopped total rv }

-- The bytes that a successful system call takes from the buffer to the stream or back.
def movedBytes (direction : Direction) (buffer : Buffer) (total : UInt64) (queue : List UInt8)
    (moved : Nat) : List UInt8 :=
  match direction with
  | .write => (buffer.bytes.drop total.toNat).take moved
  | .read => queue.take moved

def bufferAfter (direction : Direction) (buffer : Buffer) (total : UInt64)
    (bytes : List UInt8) : Buffer :=
  match direction with
  | .write => buffer
  | .read => buffer.store total.toNat bytes

-- What the kernel may return: a failure, or some of the bytes that it is offered or asked for.
def Allows (direction : Direction) (amount : UInt64) (queue : List UInt8)
    (returned : Syscall.Returned) : Prop :=
  returned.rv = -1 ∨ 0 < returned.rv ∧ returned.rv.toNat ≤ (Syscall.clampCount amount).toNat ∧
    (direction = .read → returned.rv.toNat ≤ queue.length)

instance (direction : Direction) (amount : UInt64) (queue : List UInt8)
    (returned : Syscall.Returned) : Decidable (Allows direction amount queue returned) :=
  inferInstanceAs (Decidable (_ ∨ _))

-- The party after the system call returns, with the bytes that the call has moved.
def called (party : Party) (direction : Direction) (buffer : Buffer) (rest : List Buffer)
    (total : UInt64) (queue : List UInt8) (returned : Syscall.Returned) :
    Except Assertion (Party × List UInt8) := do
  let (rv, moved) := transferCall direction (buffer.count - total) fun _ => returned
  let bytes := movedBytes direction buffer total queue returned.rv.toNat
  let buffer := bufferAfter direction buffer total bytes
  match transferTurn rv moved with
  | some (rv, moved) =>
      let party ← party.returned direction buffer rest total rv moved
      return (party, bytes)
  | none =>
      return ({ party with pending := buffer :: rest, point := .suspended total moved }, bytes)

def exec (party : Party) (direction : Direction) (queue : List UInt8) (action : PartyAction) :
    Option (Except Assertion (Party × List UInt8)) :=
  match party.pending, party.point, action with
  | buffer :: rest, .idle, .enter => some do
      transferStart direction buffer.base buffer.count
      return (party.loop buffer rest 0, [])
  | buffer :: rest, .find total, .find rv =>
      if rv ≠ .success then
        some do return (← party.returned direction buffer rest total rv 0, [])
      else some (.ok ({ party with point := .call total }, []))
  | buffer :: rest, .call total, .call returned =>
      if Allows direction (buffer.count - total) queue returned then
        some (party.called direction buffer rest total queue returned)
      else none
  | buffer :: rest, .suspended total moved, .resume rv =>
      match transferResumed rv moved with
      | some (rv, moved) =>
          some do return (← party.returned direction buffer rest total rv moved, [])
      | none => some (.ok ({ party with point := .call total }, []))
  | _, _, _ => none

end Party

-- The two coroutines and the bytes that are on their way.
structure Transfer where
  sender : Party
  receiver : Party
  queue : List UInt8

namespace Transfer

structure Event where
  direction : Direction
  action : PartyAction
  moved : List UInt8
  deriving DecidableEq

def exec (transfer : Transfer) (direction : Direction) (action : PartyAction) :
    Option (Except Assertion (Transfer × List UInt8)) :=
  match direction with
  | .write => do
      let result ← transfer.sender.exec .write transfer.queue action
      return do
        let (sender, moved) ← result
        return ({ transfer with sender := sender, queue := transfer.queue ++ moved }, moved)
  | .read => do
      let result ← transfer.receiver.exec .read transfer.queue action
      return do
        let (receiver, moved) ← result
        let queue := transfer.queue.drop moved.length
        return ({ transfer with receiver := receiver, queue := queue }, moved)

def Step (transfer : Transfer) (event : Event) (next : Transfer) : Prop :=
  transfer.exec event.direction event.action = some (.ok (next, event.moved))

-- The two coroutines before their first calls.
def start (messages buffers : List Buffer) : Transfer where
  sender := ⟨[], messages, .idle⟩
  receiver := ⟨[], buffers, .idle⟩
  queue := []

def perform (transfer : Transfer) (action : Direction × PartyAction) : Option (Event × Transfer) :=
  match transfer.exec action.1 action.2 with
  | some (.ok (next, moved)) => some (⟨action.1, action.2, moved⟩, next)
  | _ => none

abbrev Run (messages buffers : List Buffer) :=
  Transition.Run (fun transfer => transfer = start messages buffers) Step

-- What a step does to the stream.
def Event.label (event : Event) : Fifo.Label UInt8 :=
  match event.direction with
  | .write => .put event.moved
  | .read => .get event.moved

theorem perform_step {transfer next : Transfer} {action : Direction × PartyAction} {event : Event}
    (h : transfer.perform action = some (event, next)) : Step transfer event next := by
  unfold perform at h
  split at h
  · rename_i he
    obtain ⟨rfl, rfl⟩ : _ ∧ _ := by simpa using h
    exact he
  · cases h

theorem outcome_run {messages buffers : List Buffer} {actions : List (Direction × PartyAction)}
    (h : (Transition.replay perform actions (start messages buffers)).isSome) :
    Run messages buffers (Transition.outcome perform actions (start messages buffers)).1
      (Transition.outcome perform actions (start messages buffers)).2 := by
  refine ⟨start messages buffers, rfl, Transition.outcome_path ?_ h⟩
  exact fun _ _ _ _ => perform_step

end Transfer

namespace Party

-- How far the current call has got.
def total (party : Party) : UInt64 :=
  match party.point with
  | .idle => 0
  | .find total | .call total | .suspended total _ | .stopped total _ => total

-- The contents of the finished buffers, and of the current one up to `total`.
def progress (party : Party) : List UInt8 :=
  (party.finished.map Buffer.bytes).flatten ++
    ((party.pending.head?.map Buffer.bytes).getD []).take party.total.toNat

end Party

end Minimk.Socket
