import Minimk.Socket.Store.Theorems
import Minimk.Socket.System

namespace Minimk.Socket

open Minimk.Runtime Transition

-- The handle that an operation is called with.
def Operation.handle : Operation → Option UInt64
  | .create _ _ _ => none
  | .accept sock | .recv sock _ | .send sock _ | .connect sock _ _ | .destroy sock | .bind sock _ _
  | .listen sock _ | .setsockoptReuseaddr sock | .setReadTimeout sock _
  | .setWriteTimeout sock _ => some sock

-- The calls an operation makes for its handle, by the entry that the handle stands for.
inductive Operation.Calls (entry : Entry) : Operation → Request → Prop
  | accept {sock : UInt64} : Calls entry (.accept sock) (.accept entry.fd)
  | acceptSuspend {sock : UInt64} :
      Calls entry (.accept sock) (.suspend .read entry.fd entry.readTimeout)
  | recv {sock count : UInt64} : Calls entry (.recv sock count) (.recv entry.fd count)
  | recvSuspend {sock count : UInt64} :
      Calls entry (.recv sock count) (.suspend .read entry.fd entry.readTimeout)
  | send {sock count : UInt64} : Calls entry (.send sock count) (.send entry.fd count)
  | sendSuspend {sock count : UInt64} :
      Calls entry (.send sock count) (.suspend .write entry.fd entry.writeTimeout)
  | connect {sock : UInt64} {address port : String} :
      Calls entry (.connect sock address port) (.connect entry.fd address port)
  | connectSuspend {sock : UInt64} {address port : String} :
      Calls entry (.connect sock address port) (.suspend .write entry.fd entry.writeTimeout)
  | connectGetsockopt {sock : UInt64} {address port : String} :
      Calls entry (.connect sock address port) (.getsockoptError entry.fd)
  | destroy {sock : UInt64} : Calls entry (.destroy sock) (.closesocket entry.fd)
  | bind {sock : UInt64} {address port : String} :
      Calls entry (.bind sock address port) (.bind entry.fd address port)
  | listen {sock : UInt64} {backlog : Int32} :
      Calls entry (.listen sock backlog) (.listen entry.fd backlog)
  | setsockoptReuseaddr {sock : UInt64} :
      Calls entry (.setsockoptReuseaddr sock) (.setsockoptReuseaddr entry.fd)

namespace System

-- The table's own account of a call: what its outcome is by the result of the operation.
def tableOutput (result : Option Result) : TableOutput :=
  match result with
  | some result => if result.rv = .success then .done else .failed result.rv
  | none => .done

def createOutput (result : Option Result) : TableOutput :=
  match result with
  | some result => .created result.handle
  | none => .failed .emfile

-- The call into the table that a step is for the handles: a new one, a timeout, or the end.
def tableCall (s : System) (event : Event) : Option TableEvent :=
  match event.action, s.running with
  | .start (.setReadTimeout sock nanosec), _ =>
      some ⟨.setReadTimeout sock nanosec, tableOutput event.output.result⟩
  | .start (.setWriteTimeout sock nanosec), _ =>
      some ⟨.setWriteTimeout sock nanosec, tableOutput event.output.result⟩
  | .reply _, some ctx =>
      match (s.contexts ctx).frame with
      | .opened fd .nosigpipe => some ⟨.create fd, createOutput event.output.result⟩
      | .on info .destroyClose => some ⟨.forget (s.table.sockets info).handle, .done⟩
      | _ => none
  | _, _ => none

abbrev Trace := Transition.Run Initial (Recorded Step)

def tableCalls (turns : List (Transition.Turn System Event)) : List TableEvent :=
  turns.filterMap fun turn => turn.before.tableCall turn.label

-- The history as one of a store of handles.
def handles (turns : List (Transition.Turn System Event)) : List (Registry.Label UInt64 Entry) :=
  (tableCalls turns).map TableEvent.label

def begins (ctx : Option Slot) (turn : Transition.Turn System Event) : Option Operation :=
  match turn.label.action with
  | .start operation => if turn.before.running = some ctx then some operation else none
  | _ => none

-- The latest operation that a context has begun.
def operationOf (ctx : Option Slot) (turns : List (Transition.Turn System Event)) :
    Option Operation :=
  turns.findSome? (begins ctx)

-- The system as a store of handles, after some history.
structure Registered (turns : List (Transition.Turn System Event)) (s : System) : Prop where
  store : ∃ store, Transition.Run Registry.Initial (Registry.Step 256) (handles turns) store ∧
    ∀ handle, store.entries handle = s.table.lookup handle
  -- While its handle is in the store, an operation makes its own calls only, with the
  -- descriptor and the timeouts that the store has at the time.
  calls : ∀ ctx info point event next request, Step s event next → s.running = some ctx →
    (s.contexts ctx).frame = .on info point → event.output.request = some request →
      ∃ operation sock, operationOf ctx turns = some operation ∧ operation.handle = some sock ∧
        ∀ entry, Registry.entryOf sock (handles turns) = some entry → operation.Calls entry request
  -- An operation on a handle that is not in the store returns and changes nothing.
  stale : ∀ operation sock event next, Step s event next → event.action = .start operation →
    operation.handle = some sock → Registry.entryOf sock (handles turns) = none →
      event.output.request = none ∧ next.files = s.files ∧ next.table = s.table ∧
      event.output.result = some ⟨if operation = .destroy MINIMK_SOCKET_INVALID then .success
        else .ebadf, MINIMK_SOCKET_INVALID, none⟩

end System

end Minimk.Socket
