import Minimk.Registry
import Minimk.Socket.Info

namespace Minimk.Socket

open Abort Integer

namespace SocketTable

def setReadTimeout (table : SocketTable) (handle nanosec : UInt64) :
    Except Assertion (Error × SocketTable) := do
  let (rv, found) ← table.infoFind handle
  match found with
  | none => return (rv, table)
  | some idx => return (.success, table.set idx { table.sockets idx with readTimeout := nanosec })

def setWriteTimeout (table : SocketTable) (handle nanosec : UInt64) :
    Except Assertion (Error × SocketTable) := do
  let (rv, found) ← table.infoFind handle
  match found with
  | none => return (rv, table)
  | some idx => return (.success, table.set idx { table.sockets idx with writeTimeout := nanosec })

end SocketTable

-- The calls of the rest of the library into the table.
inductive TableAction where
  | create (fd : Int32)
  | find (handle : UInt64)
  | setReadTimeout (handle nanosec : UInt64)
  | setWriteTimeout (handle nanosec : UInt64)
  | forget (handle : UInt64)
  deriving DecidableEq

-- What they return; an entry that was found is shown as it stands in the table.
inductive TableOutput where
  | created (handle : UInt64)
  | found (info : SocketInfo)
  | done
  | failed (rv : Error)
  deriving DecidableEq

structure TableEvent where
  action : TableAction
  output : TableOutput
  deriving DecidableEq

namespace SocketTable

def outcomeOf (result : Error × SocketTable) : SocketTable × TableOutput :=
  (result.2, if result.1 = .success then .done else .failed result.1)

def exec (table : SocketTable) : TableAction → Except Assertion (SocketTable × TableOutput)
  | .create fd => do
      let (rv, found, next) ← table.infoCreate fd
      match found with
      | none => return (next, .failed rv)
      | some idx => return (next, .created (next.sockets idx).handle)
  | .find handle => do
      let (rv, found) ← table.infoFind handle
      match found with
      | none => return (table, .failed rv)
      | some idx => return (table, .found (table.sockets idx))
  | .setReadTimeout handle nanosec => do
      return outcomeOf (← table.setReadTimeout handle nanosec)
  | .setWriteTimeout handle nanosec => do
      return outcomeOf (← table.setWriteTimeout handle nanosec)
  | .forget handle => do
      let (rv, found) ← table.infoFind handle
      match found with
      | none => return (table, .failed rv)
      | some idx => return (table.infoForget idx, .done)

def Step (table : SocketTable) (event : TableEvent) (next : SocketTable) : Prop :=
  table.exec event.action = .ok (next, event.output)

def Initial (table : SocketTable) : Prop := table = zero

abbrev Run := Transition.Run Initial Step

def perform (table : SocketTable) (action : TableAction) : Option (TableEvent × SocketTable) :=
  match table.exec action with
  | .ok (next, output) => some (⟨action, output⟩, next)
  | .error _ => none

theorem perform_step {table next : SocketTable} {action : TableAction} {event : TableEvent}
    (h : table.perform action = some (event, next)) : Step table event next := by
  unfold perform at h
  split at h
  · rename_i he
    obtain ⟨rfl, rfl⟩ : _ ∧ _ := by simpa using h
    exact he
  · cases h

theorem outcome_run {actions : List TableAction}
    (h : (Transition.replay perform actions zero).isSome) :
    Run (Transition.outcome perform actions zero).1
      (Transition.outcome perform actions zero).2 := by
  refine ⟨zero, rfl, Transition.outcome_path ?_ h⟩
  exact fun _ _ _ _ => perform_step

end SocketTable

-- What a handle stands for.
structure Entry where
  fd : Int32
  readTimeout : UInt64
  writeTimeout : UInt64
  deriving DecidableEq, Repr

def SocketInfo.entry (info : SocketInfo) : Entry := ⟨info.fd, info.readTimeout, info.writeTimeout⟩

namespace TableEvent

def creates (event : TableEvent) : Bool :=
  match event.action with
  | .create _ => true
  | _ => false

def issues (handle : UInt64) (event : TableEvent) : Bool :=
  match event.action, event.output with
  | .create _, .created other => other = handle
  | _, _ => false

-- A call as an operation on a store of handles that are never issued again.
def label (event : TableEvent) : Registry.Label UInt64 Entry :=
  match event.action, event.output with
  | .create fd, .created handle => .issue handle ⟨fd, UINT64_MAX, UINT64_MAX⟩
  | .create _, _ => .full
  | .find handle, .found info => .hit handle info.entry
  | .find handle, _ => .miss handle
  | .setReadTimeout handle nanosec, .done =>
      .modify handle fun entry => { entry with readTimeout := nanosec }
  | .setReadTimeout handle _, _ => .miss handle
  | .setWriteTimeout handle nanosec, .done =>
      .modify handle fun entry => { entry with writeTimeout := nanosec }
  | .setWriteTimeout handle _, _ => .miss handle
  | .forget handle, .done => .drop handle
  | .forget handle, _ => .miss handle

end TableEvent

end Minimk.Socket
