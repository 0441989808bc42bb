import Minimk.Custody
import Minimk.Io
import Minimk.Socket.Liveness
import Minimk.Socket.Registered

namespace Minimk.Socket

open Abort Minimk.Runtime

-- The functions that the example passes to `minimk_runtime_go`.
structure Entries where
  acceptLoop : UInt64
  handleClient : UInt64
  distinct : acceptLoop ≠ handleClient

-- Where `main` stands: before the call that is named, with the handle of the listening socket.
inductive MainPoint where
  | create
  | setsockoptReuseaddr (serverSock : UInt64)
  | bind (serverSock : UInt64)
  | listen (serverSock : UInt64)
  | abandon (serverSock : UInt64)
  | go (serverSock : UInt64)
  | run (serverSock : UInt64)
  | destroy (serverSock : UInt64)
  | exited
  deriving DecidableEq

-- Where `accept_loop` or `handle_client` stands in a slot. The aborted one has failed the
-- assertion that recv has read something, or one of sendall.
inductive RoutinePoint where
  | absent
  | accept (ssock : UInt64)
  | go (ssock clientSock : UInt64)
  | recv (clientSock : UInt64)
  | sendall (clientSock nread total : UInt64)
  | destroy (clientSock : UInt64)
  | returning
  | aborted (clientSock : UInt64)
  deriving DecidableEq

-- What the code of a context may call.
inductive ProgramCall where
  | operation (operation : Operation)
  | go (entry argument : UInt64)
  | run
  | ret
  deriving DecidableEq

def AF_INET : Int32 := 2

def SOCK_STREAM : Int32 := 1

namespace MainPoint

def call (entries : Entries) : MainPoint → Option ProgramCall
  | .create => some (.operation (.create AF_INET SOCK_STREAM 0))
  | .setsockoptReuseaddr sock => some (.operation (.setsockoptReuseaddr sock))
  | .bind sock => some (.operation (.bind sock "127.0.0.1" "9774"))
  | .listen sock => some (.operation (.listen sock 128))
  | .abandon sock | .destroy sock => some (.operation (.destroy sock))
  | .go sock => some (.go entries.acceptLoop sock)
  | .run _ => some .run
  | .exited => none

-- What follows the return of an operation.
def returned (point : MainPoint) (result : Result) : MainPoint :=
  match point with
  | .create => if result.rv ≠ .success then .exited else .setsockoptReuseaddr result.handle
  | .setsockoptReuseaddr sock => if result.rv ≠ .success then .abandon sock else .bind sock
  | .bind sock => if result.rv ≠ .success then .abandon sock else .listen sock
  | .listen sock => if result.rv ≠ .success then .abandon sock else .go sock
  | .abandon _ | .destroy _ => .exited
  | .go sock => .go sock
  | .run sock => .run sock
  | .exited => .exited

-- What follows the other calls; what go returns is not looked at.
def went : MainPoint → MainPoint
  | .go sock => .run sock
  | .run sock => .destroy sock
  | point => point

def sock : MainPoint → Option UInt64
  | .create | .exited => none
  | .setsockoptReuseaddr sock | .bind sock | .listen sock | .abandon sock | .go sock | .run sock
  | .destroy sock => some sock

end MainPoint

namespace RoutinePoint

def call (entries : Entries) : RoutinePoint → Option ProgramCall
  | .accept ssock => some (.operation (.accept ssock))
  | .go _ clientSock => some (.go entries.handleClient clientSock)
  | .recv clientSock => some (.operation (.recv clientSock 4096))
  | .sendall clientSock nread total => some (.operation (.send clientSock (nread - total)))
  | .destroy clientSock => some (.operation (.destroy clientSock))
  | .returning => some .ret
  | .absent | .aborted _ => none

def start (entries : Entries) (entry argument : UInt64) : RoutinePoint :=
  if entry = entries.acceptLoop then .accept argument
  else if entry = entries.handleClient then .recv argument
  else .absent

-- The loop of sendall over the bytes that have been read.
def sendallLoop (clientSock nread total : UInt64) : RoutinePoint :=
  if total < nread then .sendall clientSock nread total else .recv clientSock

def returned (point : RoutinePoint) (result : Result) : RoutinePoint :=
  match point with
  | .accept ssock => if result.rv ≠ .success then .accept ssock else .go ssock result.handle
  | .recv clientSock =>
      if result.rv = .eof then .destroy clientSock
      else if result.rv ≠ .success then .destroy clientSock
      else if result.amount.getD 0 > 0 then sendallLoop clientSock (result.amount.getD 0) 0
      else .aborted clientSock
  | .sendall clientSock nread total =>
      match Io.writeallTurn nread total result.rv (result.amount.getD 0) with
      | .error _ => .aborted clientSock
      | .ok (.error _) => .destroy clientSock
      | .ok (.ok total) => sendallLoop clientSock nread total
  | .destroy _ => .returning
  | point => point

-- What follows the other calls; what go returns is not looked at.
def went : RoutinePoint → RoutinePoint
  | .go ssock _ => .accept ssock
  | .returning => .absent
  | point => point

-- The handle that the routine owns, and the one that it has borrowed.
def sock : RoutinePoint → Option UInt64
  | .absent | .accept _ | .returning => none
  | .go _ clientSock | .recv clientSock | .sendall clientSock _ _ | .destroy clientSock
  | .aborted clientSock => some clientSock

def borrowed : RoutinePoint → Option UInt64
  | .accept ssock | .go ssock _ => some ssock
  | _ => none

end RoutinePoint

-- The echo server: the system, and where the code of main and of the coroutines stands.
structure Server where
  system : System
  main : MainPoint
  routines : Slot → RoutinePoint

-- The call of the code that an action of the system is.
def System.Action.call : System.Action → Option ProgramCall
  | .start operation => some (.operation operation)
  | .runtime (.go entry argument _) => some (.go entry argument)
  | .runtime .run => some .run
  | .runtime (.ret _) => some .ret
  | _ => none

namespace Server

variable (entries : Entries)

def initial : Server := ⟨System.initial, .create, fun _ => .absent⟩

def call (server : Server) : Option Slot → Option ProgramCall
  | none => server.main.call entries
  | some slot => (server.routines slot).call entries

-- Within an operation and in the run loop the code has no say.
def permits (server : Server) (action : System.Action) : Bool :=
  match server.system.running, action with
  | none, _ | _, .reply _ | _, .suspend _ _ => true
  | some ctx, action => action.call.isSome && server.call entries ctx = action.call

def mainAfter (point : MainPoint) (event : System.Event) : MainPoint :=
  match event.output.result, event.action with
  | some result, _ => point.returned result
  | none, .runtime (.go _ _ _) | none, .runtime .run => point.went
  | none, _ => point

def routineAfter (point : RoutinePoint) (event : System.Event) : RoutinePoint :=
  match event.output.result, event.action, event.output.runtime with
  | some result, _, _ => point.returned result
  | none, .runtime (.go _ _ _), _ | none, .runtime (.ret _), _ => point.went
  | none, _, some (.resumed _ (.entryStarts entry argument)) => .start entries entry argument
  | none, _, _ => point

-- The context whose code the step is about: the one that runs, or that starts to run.
def acting (server : Server) (next : System) : Option (Option Slot) :=
  server.system.running.or next.running

def proceed (server : Server) (event : System.Event) (next : System) : Option Slot → Server
  | none => { server with system := next, main := mainAfter server.main event }
  | some slot =>
      let point := routineAfter entries (server.routines slot) event
      { server with system := next, routines := Function.update server.routines slot point }

def advance (server : Server) (event : System.Event) (next : System) : Server :=
  match server.acting next with
  | none => { server with system := next }
  | some ctx => server.proceed entries event next ctx

def exec (server : Server) (action : System.Action) :
    Option (Except Assertion (Server × System.Output)) :=
  if server.permits entries action then do
    let result ← server.system.exec action
    return do
      let (system, output) ← result
      return (server.advance entries ⟨action, output⟩ system, output)
  else none

def Step (server : Server) (event : System.Event) (next : Server) : Prop :=
  server.exec entries event.action = some (.ok (next, event.output))

def Initial (server : Server) : Prop := server = initial

abbrev Trace := Transition.Run Initial (Transition.Recorded (Step entries))

def perform (server : Server) (action : System.Action) : Option (System.Event × Server) :=
  match server.exec entries action with
  | some (.ok (next, output)) => some (⟨action, output⟩, next)
  | _ => none

variable {entries}

theorem perform_step {server next : Server} {action : System.Action} {event : System.Event}
    (h : server.perform entries action = some (event, next)) : Step entries server event next := by
  unfold perform at h
  split at h
  · rename_i he
    obtain ⟨rfl, rfl⟩ : _ ∧ _ := by simpa using h
    exact he
  · cases h

end Server

-- Who has to destroy a handle: the code of a context, or nobody, as it was passed to a coroutine
-- that could not be created.
inductive Owner where
  | context (ctx : Option Slot)
  | nobody (sock : UInt64)
  deriving DecidableEq

namespace Server

abbrev Turn := Transition.Turn Server System.Event

-- The handle that is lost in the step: go has refused to create the coroutine that takes it.
def loses (turn : Turn) : Option UInt64 :=
  match turn.before.system.running, turn.label.output.runtime with
  | some (some slot), some (.refused _ _) => (turn.before.routines slot).sock
  | _, _ => none

def lost (turns : List Turn) : List UInt64 := turns.filterMap loses

-- A coroutine that has not started owns what it will be called with.
def owned (entries : Entries) (server : Server) : Option Slot → Option UInt64
  | none => server.main.sock
  | some slot =>
      let coro := server.system.machine.sched.coroutines slot
      if server.system.machine.conts slot = .fresh then
        (RoutinePoint.start entries coro.entry coro.argument).sock
      else (server.routines slot).sock

def borrows (entries : Entries) (server : Server) (slot : Slot) : Option UInt64 :=
  let coro := server.system.machine.sched.coroutines slot
  if server.system.machine.conts slot = .fresh then
    (RoutinePoint.start entries coro.entry coro.argument).borrowed
  else (server.routines slot).borrowed

def held (entries : Entries) (lost : List UInt64) (server : Server) : Owner → Option UInt64
  | .context ctx => server.owned entries ctx
  | .nobody sock => if sock ∈ lost then some sock else none

end Server

-- What the return of an operation does to the handles.
def Operation.label (result : Option Result) : Operation → Custody.Label UInt64
  | .destroy sock => if result.isSome then .release sock else .keep
  | .create _ _ _ | .accept _ =>
      match result with
      | some result => if result.rv = .success then .acquire result.handle else .keep
      | none => .keep
  | _ => .keep

def Operation.transfers : Operation → Option UInt64
  | .recv _ count | .send _ count => some count
  | _ => none

-- A transfer that succeeds has moved something, and no more than it was asked for.
def System.Event.Moves (event : System.Event) : Prop :=
  match event.action, event.output.request with
  | .reply reply, some (.recv _ count) | .reply reply, some (.send _ count) =>
      reply.rv = .success → 0 < reply.amount ∧ reply.amount ≤ count
  | _, _ => True

-- The handles of the entries that are in use.
def SocketTable.handles (table : SocketTable) : Finset UInt64 :=
  (Finset.univ.image fun info => (table.sockets info).handle).erase 0

namespace Server

def custody (entries : Entries) (lost : List UInt64) (server : Server) : Custody Owner UInt64 :=
  ⟨server.system.table.handles, server.held entries lost⟩

-- What a step does to the handles of the server.
def label (entries : Entries) (turn : Turn) : Custody.Label UInt64 :=
  match turn.before.system.running with
  | none => .keep
  | some ctx =>
      match turn.before.call entries ctx with
      | some (.operation operation) => operation.label turn.label.output.result
      | _ => .keep

-- The sockets of the server, after some history.
structure Entrusted (entries : Entries) (turns : List Turn) (server : Server) : Prop where
  -- A handle in use has one owner; one that is lost stays in use.
  owner : ∀ sock ∈ server.system.table.handles,
    ∃! owner, server.held entries (lost turns) owner = some sock
  live : ∀ owner sock, server.held entries (lost turns) owner = some sock →
    sock ∈ server.system.table.handles
  -- Main keeps the listening socket for as long as a coroutine accepts from it.
  lent : ∀ slot sock, server.borrows entries slot = some sock →
    server.owned entries none = some sock
  -- The code calls no operation with a handle that has been destroyed.
  found : ∀ ctx operation sock, server.call entries ctx = some (.operation operation) →
    operation.handle = some sock →
      ∃ info, server.system.table.infoFind sock = .ok (.success, some info)
  -- A handle is destroyed once at most for each time that it has been issued.
  issued : ∀ sock, (turns.map (label entries)).countP (Custody.Label.acquires sock) =
    (turns.map (label entries)).countP (Custody.Label.releases sock) +
      if sock ∈ server.system.table.handles then 1 else 0
  -- No assertion of the coroutines fails unless a transfer has not moved what it can.
  asserts : (∀ turn ∈ turns, turn.label.Moves) → ∀ slot sock, server.routines slot ≠ .aborted sock
  -- No operation goes on with the entry of a handle that has been destroyed meanwhile.
  conforming : System.ConformingRun (turns.map fun turn => turn.label) server.system

end Server

end Minimk.Socket
