import Minimk.Socket.System

namespace Minimk.Socket

open Minimk.Runtime

-- The descriptor that a call is about.
def Request.fd : Request → Option Int32
  | .socket _ _ _ => none
  | .setnonblock fd | .nosigpipe fd | .closesocket fd | .accept fd | .recv fd _ | .send fd _
  | .connect fd _ _ | .getsockoptError fd | .bind fd _ _ | .listen fd _ | .setsockoptReuseaddr fd
  | .suspend _ fd _ => some fd

namespace System

-- The entry still belongs to the handle that was issued with the serial.
def Live (s : System) (info : InfoIdx) (serial : Nat) : Prop :=
  (s.table.sockets info).handle ≠ 0 ∧ s.serials info = serial

instance (s : System) (info : InfoIdx) (serial : Nat) : Decidable (s.Live info serial) :=
  inferInstanceAs (Decidable (_ ∧ _))

-- What an operation on an entry may do in a step.
structure Conforms (s : System) (event : Event) (next : System) : Prop where
  -- Its calls are on the descriptor that its handle was issued with, while the handle is live.
  calls : ∀ ctx info point request, s.running = some ctx →
    (s.contexts ctx).frame = .on info point → event.output.request = some request →
      s.Live info (s.contexts ctx).serial ∧ request.fd = s.bound[(s.contexts ctx).serial]?
  -- It returns an error and makes no call when it comes back to a handle that is not live.
  dead : ∀ sp slot info point, event.action = .runtime (.switch sp) →
    s.machine.sched.current = some slot → (s.contexts (some slot)).frame = .on info point →
    ¬s.Live info (s.contexts (some slot)).serial →
      event.output.request = none ∧ (next.contexts (some slot)).frame = .idle ∧
      ∃ result, event.output.result = some result ∧ result.rv ≠ .success

-- An operation that is switched to after its handle was destroyed has not been woken by an event
-- that it waits for, nor by an error.
def Quiet (s : System) (action : Action) : Prop :=
  ∀ sp slot info point direction, action = .runtime (.switch sp) →
    s.machine.sched.current = some slot → (s.contexts (some slot)).frame = .on info point →
    point.awaits = some direction → ¬s.Live info (s.contexts (some slot)).serial →
      (s.machine.sched.coroutines slot).revents &&& direction.events = 0 ∧
      (s.machine.sched.coroutines slot).revents &&& POLLERR = 0

-- The runs in which every step conforms, and those in which every step is quiet.
abbrev ConformingRun :=
  Transition.Run Initial fun s event next => Step s event next ∧ Conforms s event next

abbrev QuietRun :=
  Transition.Run Initial fun s event next => Step s event next ∧ s.Quiet event.action

end System

end Minimk.Socket
