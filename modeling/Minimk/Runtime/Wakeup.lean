import Minimk.Runtime.Lifecycle

namespace Minimk.Runtime

namespace Event

-- A pass over the table that may wake coroutines: the clock it uses and the revents of each
-- slot's own entry. The one at the top of the loop looks at deadlines alone.
def scan (event : Event) : Option (UInt64 × (Slot → Int16)) :=
  match event.action, event.output with
  | .expire now, _ => some (now, fun _ => 0)
  | .poll _ reply, .polled _ =>
      if reply.rc = .success then some (reply.now, reply.revents) else none
  | _, _ => none

-- The scan is due to wake a coroutine that waits in a slot for events up to a deadline.
def Wakes (idx : Slot) (events : Int16) (deadline : Nat) (event : Event) : Prop :=
  ∃ now revents, event.scan = some (now, revents) ∧
    (revents idx &&& events ≠ 0 ∨ deadline ≤ now.toNat)

end Event

-- The clock reading at which a wait of some nanoseconds is over.
def waitEnd (now nanosec : UInt64) : Nat := min (now.toNat + nanosec.toNat) (2 ^ 64 - 1)

-- What the scans of a history make of the coroutine in a slot.
def scanned (idx : Slot) : List Event → Coroutine → Coroutine
  | [], coro => coro
  | event :: log, coro =>
      match event.scan with
      | some (now, revents) => (scanned idx log coro).maybeResume now (revents idx)
      | none => scanned idx log coro

-- The frames of a coroutine that has left the processor and may come back.
def Cont.Parked (cont : Cont) : Prop :=
  cont ≠ .idle ∧ cont ≠ .running ∧ cont ≠ .returned

end Minimk.Runtime
