import Minimk.Socket.Operation
import Mathlib.Data.Finset.Insert

namespace Minimk.Socket

open Abort Minimk.Runtime

-- The operation of one context: main or the coroutine in a slot. The serial is that of the
-- handle the operation was called with.
structure Context where
  frame : Frame
  serial : Nat
  deriving DecidableEq

-- The runtime, the table and the descriptors the library has opened and not closed. The
-- serials number the handles in the order of their issue, and `bound` lists their descriptors.
structure System where
  machine : Machine
  table : SocketTable
  files : Finset Int32
  contexts : Option Slot → Context
  serials : InfoIdx → Nat
  bound : List Int32

structure Result where
  rv : Error
  handle : UInt64
  amount : Option UInt64
  deriving DecidableEq

namespace System

-- A step: of the runtime, the start of an operation, the return of the system call that the
-- running operation has made, or its call of a suspension.
inductive Action where
  | runtime (action : Runtime.Action)
  | start (operation : Operation)
  | reply (reply : Reply)
  | suspend (now sp : UInt64)
  deriving DecidableEq

structure Output where
  request : Option Request
  result : Option Result
  runtime : Option Runtime.Output
  deriving DecidableEq

structure Event where
  action : Action
  output : Output
  deriving DecidableEq

def initial : System where
  machine := Machine.initial
  table := .zero
  files := ∅
  contexts := fun _ => ⟨.idle, 0⟩
  serials := fun _ => 0
  bound := []

-- The context whose code runs, unless control is in the run loop.
def running (s : System) : Option (Option Slot) :=
  match s.machine.pc with
  | .main => some none
  | .coroutine => s.machine.sched.current.map some
  | _ => none

def byProgram : Runtime.Action → Bool
  | .go .. | .run | .yield _ | .nanosleep .. | .suspendIo .. | .ret _ => true
  | .loopTest | .clean | .expire _ | .pick | .poll .. | .switch _ => false

-- The descriptors after a system call has returned; none is a return the kernel cannot make,
-- since a new descriptor is not an open one. A failing close has closed all the same.
def kernel (files : Finset Int32) (reply : Reply) : Request → Option (Finset Int32)
  | .socket _ _ _ | .accept _ =>
      if reply.rv ≠ .success then some files
      else if 0 ≤ reply.fd ∧ reply.fd ∉ files then some (insert reply.fd files)
      else none
  | .closesocket fd => some (files.erase fd)
  | .suspend _ _ _ => none
  | _ => some files

def serialOf (s : System) : Next → Nat
  | .call (.on info _) => s.serials info
  | _ => 0

-- The context goes on with the next call or returns.
def settle (s : System) (ctx : Option Slot) (serial : Nat) (table : SocketTable) (next : Next) :
    System × Option Result :=
  let s := { s with table := table }
  match next with
  | .call frame =>
      ({ s with contexts := Function.update s.contexts ctx ⟨frame, serial⟩ }, none)
  | .done rv amount =>
      ({ s with contexts := Function.update s.contexts ctx ⟨.idle, serial⟩ },
        some ⟨rv, MINIMK_SOCKET_INVALID, amount⟩)
  | .issued info =>
      ({ s with
          contexts := Function.update s.contexts ctx ⟨.idle, serial⟩
          serials := Function.update s.serials info s.bound.length
          bound := s.bound ++ [(table.sockets info).fd] },
        some ⟨.success, (table.sockets info).handle, none⟩)

def start (s : System) (ctx : Option Slot) (operation : Operation) :
    Except Assertion (System × Output) := do
  let (table, next) ← operation.start s.table
  let (s, result) := s.settle ctx (s.serialOf next) table next
  return (s, ⟨none, result, none⟩)

def resume (s : System) (ctx : Option Slot) (reply : Reply) :
    Except Assertion (System × Option Result) := do
  let (table, next) ← (s.contexts ctx).frame.resume s.table reply
  return s.settle ctx (s.contexts ctx).serial table next

def reply (s : System) (ctx : Option Slot) (reply : Reply) :
    Option (Except Assertion (System × Output)) := do
  let request ← (s.contexts ctx).frame.request s.table
  let files ← kernel s.files reply request
  return do
    let (s, result) ← { s with files := files }.resume ctx reply
    return (s, ⟨some request, result, none⟩)

-- No coroutine is current while main runs, which a suspension does not allow.
def suspend (s : System) (ctx : Option Slot) (now sp : UInt64) :
    Option (Except Assertion (System × Output)) := do
  let request ← (s.contexts ctx).frame.request s.table
  match request, ctx with
  | .suspend _ _ _, none => some (.error .suspendIoCurrent)
  | .suspend direction fd nanosec, some _ =>
      let result ← s.machine.exec (.suspendIo direction fd nanosec now sp)
      return do
        let (machine, output) ← result
        return ({ s with machine := machine }, ⟨some request, none, some output⟩)
  | _, _ => none

-- The operation, if any, that the switch to a slot takes up where it called its suspension.
def switchBack (s : System) (output : Runtime.Output) : Option (Slot × Error) :=
  match output, s.machine.sched.current with
  | .resumed _ (.suspendIoReturns rv), some slot =>
      if (s.contexts (some slot)).frame = .idle then none else some (slot, rv)
  | _, _ => none

def runtime (s : System) (action : Runtime.Action) :
    Option (Except Assertion (System × Output)) := do
  let result ← s.machine.exec action
  return do
    let (machine, output) ← result
    match s.switchBack output with
    | some (slot, rv) =>
        let (s, result) ← { s with machine := machine }.resume (some slot) ⟨rv, -1, 0, .success⟩
        return (s, ⟨none, result, some output⟩)
    | none => return ({ s with machine := machine }, ⟨none, none, some output⟩)

def exec (s : System) (action : Action) : Option (Except Assertion (System × Output)) :=
  match action, s.running with
  | .runtime action, some ctx =>
      if byProgram action ∧ (s.contexts ctx).frame = .idle then s.runtime action else none
  | .runtime action, none => s.runtime action
  | .start operation, some ctx =>
      if (s.contexts ctx).frame = .idle then some (s.start ctx operation) else none
  | .reply reply, some ctx => s.reply ctx reply
  | .suspend now sp, some ctx => s.suspend ctx now sp
  | _, none => none

def Step (s : System) (event : Event) (next : System) : Prop :=
  s.exec event.action = some (.ok (next, event.output))

def perform (s : System) (action : Action) : Option (Event × System) :=
  match s.exec action with
  | some (.ok (next, output)) => some (⟨action, output⟩, next)
  | _ => none

def history (s : System) (actions : List Action) : List Event :=
  (Transition.outcome perform actions s).1

def after (s : System) (actions : List Action) : System :=
  (Transition.outcome perform actions s).2

def Initial (s : System) : Prop := s = initial

abbrev Run := Transition.Run Initial Step

abbrev Reachable := Transition.Reachable Initial Step

theorem perform_step {s next : System} {action : Action} {event : Event}
    (h : s.perform action = some (event, next)) : Step s event next := by
  unfold perform at h
  split at h
  · rename_i he
    obtain ⟨rfl, rfl⟩ : _ ∧ _ := by simpa using h
    exact he
  · cases h

theorem after_run {actions : List Action}
    (h : (Transition.replay perform actions initial).isSome) :
    Run (initial.history actions) (initial.after actions) := by
  refine ⟨initial, rfl, Transition.outcome_path ?_ h⟩
  exact fun _ _ _ _ => perform_step

end System

end Minimk.Socket
