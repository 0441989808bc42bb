import Minimk.Custody
import Minimk.Socket.System

namespace Minimk.Socket

open Minimk.Runtime

-- What can hold a descriptor: an entry of the table, or the create or accept of a context.
inductive Holder where
  | entry (info : InfoIdx)
  | operation (ctx : Option Slot)
  deriving DecidableEq

-- The local descriptor of create and accept.
def Frame.held : Frame → Option Int32
  | .opened fd _ => some fd
  | _ => none

-- The calls of create and accept.
def Frame.opening : Frame → Bool
  | .createSocket _ _ _ | .opened _ _ | .on _ .acceptCall | .on _ .acceptSuspend => true
  | _ => false

def Operation.opening : Operation → Bool
  | .create _ _ _ | .accept _ => true
  | _ => false

namespace System

def held (s : System) : Holder → Option Int32
  | .entry info =>
      if (s.table.sockets info).handle ≠ 0 then some (s.table.sockets info).fd else none
  | .operation ctx => (s.contexts ctx).frame.held

def custody (s : System) : Custody Holder Int32 := ⟨s.files, s.held⟩

-- What a step does to the descriptors of the library.
def Event.label (event : Event) : Custody.Label Int32 :=
  match event.action, event.output.request with
  | .reply reply, some (.socket _ _ _) | .reply reply, some (.accept _) =>
      if reply.rv = .success then .acquire reply.fd else .keep
  | .reply _, some (.closesocket fd) => .release fd
  | _, _ => .keep

-- The system call of the step returns the descriptor to the library.
def Event.opens (fd : Int32) (event : Event) : Bool := event.label.acquires fd

def Event.closes (fd : Int32) (event : Event) : Bool := event.label.releases fd

-- The descriptors after some history, and who holds them.
structure Accounted (log : List Event) (s : System) : Prop where
  balance : ∀ fd, log.countP (Event.opens fd) =
    log.countP (Event.closes fd) + if fd ∈ s.files then 1 else 0
  holder : ∀ fd ∈ s.files, ∃! holder, s.held holder = some fd
  files : ∀ holder fd, s.held holder = some fd → fd ∈ s.files
  progress : ∀ ctx fd, s.held (.operation ctx) = some fd → s.running = some ctx
  live : ∀ info, (s.table.sockets info).handle ≠ 0 →
    s.table.infoFind (s.table.sockets info).handle = .ok (.success, some info)
  closes : ∀ newer older event fd, log = newer ++ event :: older → event.closes fd = true →
    older.countP (Event.opens fd) = older.countP (Event.closes fd) + 1

-- How a step of destroy, create and accept disposes of a descriptor.
structure Disposes (s : System) (event : Event) (next : System) : Prop where
  -- A handle that finds no entry makes no call.
  stale : ∀ sock, event.action = .start (.destroy sock) →
    (∀ info, s.table.infoFind sock ≠ .ok (.success, some info)) →
      event.output.request = none ∧ next.files = s.files ∧ next.table = s.table ∧
      event.output.result = some ⟨if sock = MINIMK_SOCKET_INVALID then .success else .ebadf,
        MINIMK_SOCKET_INVALID, none⟩
  destroy : ∀ sock info, event.action = .start (.destroy sock) →
    s.table.infoFind sock = .ok (.success, some info) →
      event.output.result = none ∧ next.files = s.files ∧ next.table = s.table ∧
      ∃ ctx, next.running = some ctx ∧ (next.contexts ctx).frame = .on info .destroyClose
  -- Nothing comes between the start of destroy and the close of the descriptor of the entry.
  destroyed : ∀ ctx info, (s.contexts ctx).frame = .on info .destroyClose →
    ∃ reply, event.action = .reply reply ∧
      event.output.request = some (.closesocket (s.table.sockets info).fd) ∧
      event.output.result = some ⟨reply.rv, MINIMK_SOCKET_INVALID, none⟩ ∧
      next.files = s.files.erase (s.table.sockets info).fd ∧
      next.table = s.table.infoForget info ∧ (next.contexts ctx).frame = .idle
  started : ∀ operation, event.action = .start operation → operation.opening = true →
    event.output.request = none ∧ next.files = s.files ∧ next.table = s.table
  failed : ∀ result, event.output.result = some result → result.rv ≠ .success →
    result.handle = MINIMK_SOCKET_INVALID
  runtime : ∀ action, event.action = .runtime action →
    next.files = s.files ∧ next.table = s.table
  -- Only the return of a new handle changes an entry in create and accept.
  opening : ∀ ctx, s.running = some ctx → (s.contexts ctx).frame.opening = true →
    next.table.sockets = s.table.sockets ∨
      ∃ info handle, (s.table.sockets info).handle = 0 ∧ handle ≠ MINIMK_SOCKET_INVALID ∧
        (next.table.sockets info).handle = handle ∧
        (∀ other, other ≠ info → next.table.sockets other = s.table.sockets other) ∧
        event.output.result = some ⟨.success, handle, none⟩
  -- A create or accept that fails with a descriptor closes it as its next step and returns.
  abandoned : ∀ ctx fd rv, (next.contexts ctx).frame = .opened fd (.closesocket rv) →
    rv ≠ .success ∧ next.table.sockets = s.table.sockets ∧
      ∀ event' last, Step next event' last →
        event'.output.request = some (.closesocket fd) ∧
        event'.output.result = some ⟨rv, MINIMK_SOCKET_INVALID, none⟩ ∧
        last.files = s.files.erase fd ∧ last.table.sockets = s.table.sockets ∧
        (last.contexts ctx).frame = .idle

end System

end Minimk.Socket
