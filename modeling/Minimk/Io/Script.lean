import Minimk.Io
import Minimk.Socket.Stream

namespace Minimk.Io

open Abort Socket

-- What the function that sends or receives is called with.
structure Call where
  buf : UInt64
  amount : UInt64
  deriving DecidableEq

-- What it comes back with, and the bytes that one that receives has stored.
structure Reply where
  rv : Error
  moved : UInt64
  bytes : List UInt8
  deriving DecidableEq

structure Exchange where
  call : Call
  reply : Reply
  deriving DecidableEq

-- How far the loop gets with a script of replies.
inductive Outcome where
  | pending
  | aborted (assertion : Assertion)
  | returned (rv : Error)
  deriving DecidableEq

def loop (turn : UInt64 → UInt64 → Error → UInt64 → Except Assertion (Except Error UInt64))
    (buf count : UInt64) : UInt64 → List Reply → List Exchange × Outcome
  | total, [] => if total < count then ([], .pending) else ([], .returned .success)
  | total, reply :: script =>
      if total < count then
        let exchange := ⟨⟨buf + total, count - total⟩, reply⟩
        match turn count total reply.rv reply.moved with
        | .error assertion => ([exchange], .aborted assertion)
        | .ok (.error rv) => ([exchange], .returned rv)
        | .ok (.ok total) =>
            let (exchanges, outcome) := loop turn buf count total script
            (exchange :: exchanges, outcome)
      else ([], .returned .success)

-- `minimk_socket_sendall` and `minimk_socket_recvall` are these loops over the socket's own
-- functions.
def writeall (buf count : UInt64) (script : List Reply) : List Exchange × Outcome :=
  match (writeallStart buf count : Except Assertion PUnit.{1}) with
  | .error assertion => ([], .aborted assertion)
  | .ok _ => loop writeallTurn buf count 0 script

def readall (buf count : UInt64) (script : List Reply) : List Exchange × Outcome :=
  match (readallStart buf count : Except Assertion PUnit.{1}) with
  | .error assertion => ([], .aborted assertion)
  | .ok _ => loop readallTurn buf count 0 script

-- The documented contract of the functions, for the amount that they are called with.
structure Reply.Conforms (reply : Reply) (amount : UInt64) : Prop where
  success : reply.rv = .success → 0 < reply.moved ∧ reply.moved ≤ amount
  failure : reply.rv ≠ .success → reply.moved = 0

instance (reply : Reply) (amount : UInt64) : Decidable (reply.Conforms amount) :=
  decidable_of_iff
    ((reply.rv = .success → 0 < reply.moved ∧ reply.moved ≤ amount) ∧
      (reply.rv ≠ .success → reply.moved = 0))
    ⟨fun h => ⟨h.1, h.2⟩, fun h => ⟨h.success, h.failure⟩⟩

-- The script is over before a call for so many bytes can return: no error other than EINTR,
-- and too few bytes in all.
def TooShort (count : UInt64) (script : List Reply) : Prop :=
  (∀ reply ∈ script, reply.rv = .success ∨ reply.rv = .eintr) ∧
    (script.map fun reply => reply.moved.toNat).sum < count.toNat

instance (count : UInt64) (script : List Reply) : Decidable (TooShort count script) :=
  inferInstanceAs (Decidable (_ ∧ _))

-- One that receives stores as many bytes as it reports.
def Reply.Stores (reply : Reply) : Prop := reply.bytes.length = reply.moved.toNat

instance (reply : Reply) : Decidable reply.Stores :=
  inferInstanceAs (Decidable (_ = _))

-- An object of C: the address behind its last byte is one too.
def Valid (buffer : Buffer) : Prop := buffer.base.toNat + buffer.count.toNat < 2 ^ 64

namespace Exchange

def place (buffer : Buffer) (exchange : Exchange) : Nat :=
  exchange.call.buf.toNat - buffer.base.toNat

-- The bytes that a function that sends has taken from where it was pointed to.
def accepted (buffer : Buffer) (exchange : Exchange) : List UInt8 :=
  (buffer.bytes.drop (exchange.place buffer)).take exchange.reply.moved.toNat

end Exchange

def delivered (exchanges : List Exchange) : List UInt8 :=
  exchanges.flatMap fun exchange => exchange.reply.bytes

-- The buffer after the functions that receive have stored their bytes.
def received (buffer : Buffer) (exchanges : List Exchange) : Buffer :=
  exchanges.foldl (fun stored exchange => stored.store (exchange.place buffer) exchange.reply.bytes)
    buffer

-- Each call is for all of the rest of the buffer, and one that was interrupted is made again.
structure Calls (buffer : Buffer) (exchanges : List Exchange) : Prop where
  rest : ∀ exchange ∈ exchanges, 0 < exchange.call.amount ∧
    buffer.base ≤ exchange.call.buf ∧
    exchange.place buffer + exchange.call.amount.toNat = buffer.count.toNat
  retry : ∀ before exchange next after, exchanges = before ++ exchange :: next :: after →
    exchange.reply.rv = .eintr → next.call = exchange.call

-- The last reply is the first one that is an error other than EINTR.
def FirstError (exchanges : List Exchange) (rv : Error) : Prop :=
  ∃ before last, exchanges = before ++ [last] ∧ last.reply.rv = rv ∧ rv ≠ .eintr ∧
    ∀ exchange ∈ before, exchange.reply.rv = .success ∨ exchange.reply.rv = .eintr

structure WritesAll (buffer : Buffer) (exchanges : List Exchange) (rv : Error) : Prop where
  calls : Calls buffer exchanges
  success_iff : rv = .success ↔ exchanges.flatMap (Exchange.accepted buffer) = buffer.bytes
  failure : rv ≠ .success → FirstError exchanges rv ∧
    exchanges.flatMap (Exchange.accepted buffer) <+: buffer.bytes ∧
    exchanges.flatMap (Exchange.accepted buffer) ≠ buffer.bytes

structure ReadsAll (buffer : Buffer) (exchanges : List Exchange) (rv : Error) : Prop where
  calls : Calls buffer exchanges
  success_iff : rv = .success ↔ (delivered exchanges).length = buffer.count.toNat
  failure : rv ≠ .success → FirstError exchanges rv ∧
    (delivered exchanges).length < buffer.count.toNat
  places : ∀ before exchange after, exchanges = before ++ exchange :: after →
    exchange.place buffer = (delivered before).length
  contents : (received buffer exchanges).bytes =
    delivered exchanges ++ buffer.bytes.drop (delivered exchanges).length

end Minimk.Io
