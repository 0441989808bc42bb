import Minimk.Socket.Stream

namespace Minimk.Socket

open Abort Minimk.Runtime

-- The bytes of a buffer up to a count.
def Buffer.first (buffer : Buffer) (count : UInt64) : Buffer where
  base := buffer.base
  count := if count ≤ buffer.count then count else buffer.count
  bytes := buffer.bytes.take count.toNat
  length_eq := by
    rw [List.length_take, buffer.length_eq]
    split_ifs with h
    · exact Nat.min_eq_left (UInt64.le_iff_toNat_le.mp h)
    · exact Nat.min_eq_right (Nat.le_of_lt (UInt64.lt_iff_toNat_lt.mp (UInt64.not_le.mp h)))

-- A call of recvall on a connection that the other end may close.
def Party.recvall (party : Party) (queue : List UInt8) (action : PartyAction) :
    Option (Except Assertion (Party × List UInt8)) :=
  match party.pending, party.point, action with
  | buffer :: rest, .call total, .call returned =>
      if returned.rv = 0 then some (party.called .read buffer rest total queue returned)
      else party.exec .read queue action
  | _, _, _ => party.exec .read queue action

-- Where `echo_client` stands: in sendall, in recvall, or behind its loop.
inductive ClientPoint where
  | sending (party : Party)
  | receiving (party : Party)
  | failed (rv : Error)
  | mismatch
  | passed

-- The messages are those echoed so far and the others, with that of the present turn in front.
structure EchoClient where
  echoed : List Buffer
  messages : List Buffer
  buffer : Buffer
  point : ClientPoint

namespace EchoClient

-- The head of the loop over the messages.
def loop (client : EchoClient) (echoed : List Buffer) : List Buffer → EchoClient
  | [] => { client with echoed := echoed, messages := [], point := .passed }
  | message :: rest => { client with
      echoed := echoed
      messages := message :: rest
      point := .sending ⟨[], [message], .idle⟩ }

def sent (client : EchoClient) (message : Buffer) (party : Party) : EchoClient :=
  match party.point, party.finished with
  | .stopped _ rv, _ => { client with point := .failed rv }
  | _, [] => { client with point := .sending party }
  | _, _ :: _ =>
      { client with point := .receiving ⟨[], [client.buffer.first message.count], .idle⟩ }

-- The memcmp is over the length of the message.
def got (client : EchoClient) (message : Buffer) (rest : List Buffer) (party : Party) :
    EchoClient :=
  match party.point, party.finished with
  | .stopped _ rv, _ => { client with point := .failed rv }
  | _, [] => { client with point := .receiving party }
  | _, buffer :: _ =>
      if buffer.bytes ≠ message.bytes then { client with point := .mismatch }
      else client.loop (client.echoed ++ [message]) rest

def exec (client : EchoClient) (replies : List UInt8) (action : PartyAction) :
    Option (Except Assertion (EchoClient × Direction × List UInt8)) :=
  match client.messages, client.point with
  | message :: _, .sending party => do
      let result ← party.exec .write [] action
      return do
        let (party, moved) ← result
        return (client.sent message party, .write, moved)
  | message :: rest, .receiving party => do
      let result ← party.recvall replies action
      return do
        let (party, moved) ← result
        return (client.got message rest party, .read, moved)
  | _, _ => none

end EchoClient

-- Where the loop of `echo_server` stands: in recv, in sendall, or behind the loop. The aborted
-- one has failed the assertion that recv has read something.
inductive ServerPoint where
  | find
  | call
  | suspended (nread : UInt64)
  | sending (party : Party)
  | stopped (rv : Error)
  | aborted

structure EchoServer where
  buffer : Buffer
  point : ServerPoint

namespace EchoServer

def received (server : EchoServer) (rv : Error) (nread : UInt64) : EchoServer :=
  if rv ≠ .success then { server with point := .stopped rv }
  else if nread > 0 then
    { server with point := .sending ⟨[], [server.buffer.first nread], .idle⟩ }
  else { server with point := .aborted }

def sent (server : EchoServer) (party : Party) : EchoServer :=
  match party.point, party.finished with
  | .stopped _ rv, _ => { server with point := .stopped rv }
  | _, [] => { server with point := .sending party }
  | _, _ :: _ => { server with point := .find }

-- What recv(2) may return: the end of the stream, a failure, or some of the bytes.
def Answers (count : UInt64) (queue : List UInt8) (returned : Syscall.Returned) : Prop :=
  returned.rv = 0 ∨ returned.rv = -1 ∧ returned.errno ≠ .success ∨
    0 < returned.rv ∧ returned.rv.toNat ≤ (Syscall.clampCount count).toNat ∧
      returned.rv.toNat ≤ queue.length

instance (count : UInt64) (queue : List UInt8) (returned : Syscall.Returned) :
    Decidable (Answers count queue returned) :=
  inferInstanceAs (Decidable (_ ∨ _))

def called (server : EchoServer) (queue : List UInt8) (returned : Syscall.Returned) :
    EchoServer × List UInt8 :=
  let (rv, nread) := Syscall.recv server.buffer.count fun _ => returned
  let bytes := queue.take returned.rv.toNat
  let server := { server with buffer := server.buffer.store 0 bytes }
  match transferTurn rv nread with
  | some (rv, nread) => (server.received rv nread, bytes)
  | none => ({ server with point := .suspended nread }, bytes)

def exec (server : EchoServer) (requests : List UInt8) (action : PartyAction) :
    Option (Except Assertion (EchoServer × Direction × List UInt8)) :=
  match server.point, action with
  | .find, .find rv =>
      if rv ≠ .success then some (.ok (server.received rv 0, .read, []))
      else some (.ok ({ server with point := .call }, .read, []))
  | .call, .call returned =>
      if Answers server.buffer.count requests returned then
        let (next, moved) := server.called requests returned
        some (.ok (next, .read, moved))
      else none
  | .suspended nread, .resume rv =>
      match transferResumed rv nread with
      | some (rv, nread) => some (.ok (server.received rv nread, .read, []))
      | none => some (.ok ({ server with point := .call }, .read, []))
  | .sending party, action => do
      let result ← party.exec .write [] action
      return do
        let (party, moved) ← result
        return (server.sent party, .write, moved)
  | _, _ => none

end EchoServer

inductive Side where
  | client | server
  deriving DecidableEq, Repr

-- The two coroutines on one connection, with the bytes that are on their way.
structure Echo where
  client : EchoClient
  server : EchoServer
  requests : List UInt8
  replies : List UInt8

namespace Echo

structure Event where
  side : Side
  action : PartyAction
  direction : Direction
  moved : List UInt8
  deriving DecidableEq

def exec (echo : Echo) (side : Side) (action : PartyAction) :
    Option (Except Assertion (Echo × Direction × List UInt8)) :=
  match side with
  | .client => do
      let result ← echo.client.exec echo.replies action
      return do
        let (client, direction, moved) ← result
        match direction with
        | .write =>
            let requests := echo.requests ++ moved
            return ({ echo with client := client, requests := requests }, direction, moved)
        | .read =>
            let replies := echo.replies.drop moved.length
            return ({ echo with client := client, replies := replies }, direction, moved)
  | .server => do
      let result ← echo.server.exec echo.requests action
      return do
        let (server, direction, moved) ← result
        match direction with
        | .write =>
            let replies := echo.replies ++ moved
            return ({ echo with server := server, replies := replies }, direction, moved)
        | .read =>
            let requests := echo.requests.drop moved.length
            return ({ echo with server := server, requests := requests }, direction, moved)

def Step (echo : Echo) (event : Event) (next : Echo) : Prop :=
  echo.exec event.side event.action = some (.ok (next, event.direction, event.moved))

-- The connection is there and nothing has been sent over it.
def start (messages : List Buffer) (clientBuffer serverBuffer : Buffer) : Echo where
  client := EchoClient.loop ⟨[], messages, clientBuffer, .passed⟩ [] messages
  server := ⟨serverBuffer, .find⟩
  requests := []
  replies := []

abbrev Run (messages : List Buffer) (clientBuffer serverBuffer : Buffer) :=
  Transition.Run (fun echo => echo = start messages clientBuffer serverBuffer) Step

def perform (echo : Echo) (action : Side × PartyAction) : Option (Event × Echo) :=
  match echo.exec action.1 action.2 with
  | some (.ok (next, direction, moved)) => some (⟨action.1, action.2, direction, moved⟩, next)
  | _ => none

theorem perform_step {echo next : Echo} {action : Side × PartyAction} {event : Event}
    (h : echo.perform action = some (event, next)) : Step echo event next := by
  unfold perform at h
  split at h
  · rename_i he
    obtain ⟨rfl, rfl⟩ : _ ∧ _ := by simpa using h
    exact he
  · cases h

-- What the client sees of a step: bytes that it hands to the connection or takes from it.
def Event.label (event : Event) : Option (Fifo.Label UInt8) :=
  match event.side, event.direction with
  | .client, .write => some (.put event.moved)
  | .client, .read => some (.get event.moved)
  | .server, _ => none

end Echo

end Minimk.Socket
