import Minimk.Socket.System
import Minimk.Syscall.Posix

namespace Minimk.Socket

open Abort Minimk.Runtime Syscall

-- What the system would do for each call at some time.
structure Os where
  libc : Libc
  socket : Int32 → Int32 → Int32 → Outcome
  accept : Int32 → Outcome
  getfl : Int32 → Outcome
  setfl : Int32 → Int32 → Outcome
  close : Int32 → Outcome
  listen : Int32 → Int32 → Outcome
  setsockoptReuseaddr : Int32 → Outcome
  recv : Int32 → UInt64 → Returned
  send : Int32 → UInt64 → Returned
  poll : UInt64 → Int → Outcome

namespace Os

-- What an operation gets to see of it, through the functions of the library.
def answer (os : Os) : Request → Option Reply
  | .socket domain type protocol =>
      let (rv, fd) := Syscall.socket (os.socket domain type protocol)
      some ⟨rv, fd, 0, .success⟩
  | .setnonblock fd =>
      some ⟨Syscall.socketSetnonblock (os.getfl fd) (os.setfl fd), -1, 0, .success⟩
  | .nosigpipe _ => some ⟨Syscall.setsockoptNosigpipe, -1, 0, .success⟩
  | .closesocket fd =>
      let (rv, fd) := Syscall.closesocket (os.close fd)
      some ⟨rv, fd, 0, .success⟩
  | .accept fd =>
      let (rv, fd) := Syscall.accept (os.accept fd)
      some ⟨rv, fd, 0, .success⟩
  | .recv fd count =>
      let (rv, nread) := Syscall.recv count (os.recv fd)
      some ⟨rv, -1, nread, .success⟩
  | .send fd count =>
      let (rv, nwritten) := Syscall.send count (os.send fd)
      some ⟨rv, -1, nwritten, .success⟩
  | .connect fd address port => some ⟨Syscall.connect os.libc fd address port, -1, 0, .success⟩
  | .getsockoptError fd =>
      let (rv, error) := Syscall.getsockoptError os.libc fd
      some ⟨rv, -1, 0, error⟩
  | .bind fd address port => some ⟨Syscall.bind os.libc fd address port, -1, 0, .success⟩
  | .listen fd backlog => some ⟨Syscall.listen (os.listen fd backlog), -1, 0, .success⟩
  | .setsockoptReuseaddr fd =>
      some ⟨Syscall.setsockoptReuseaddr (os.setsockoptReuseaddr fd), -1, 0, .success⟩
  | .suspend _ _ _ => none

-- The descriptors that are open after a call.
def openAfter (os : Os) (opened : Finset Int32) : Request → Finset Int32
  | .socket domain type protocol =>
      if 0 ≤ (os.socket domain type protocol).rv then
        insert (os.socket domain type protocol).rv opened
      else opened
  | .accept fd => if 0 ≤ (os.accept fd).rv then insert (os.accept fd).rv opened else opened
  | .closesocket fd => opened.erase fd
  | _ => opened

-- A call for a descriptor gives one that is not open, or it fails and says why.
def Gives (opened : Finset Int32) (outcome : Outcome) : Prop :=
  0 ≤ outcome.rv ∧ outcome.rv ∉ opened ∨ outcome.rv = -1 ∧ outcome.errno ≠ 0

structure Conforms (os : Os) (opened : Finset Int32) : Prop where
  socket : ∀ domain type protocol, Gives opened (os.socket domain type protocol)
  accept : ∀ fd, Gives opened (os.accept fd)
  poll : ∀ size timeout, 0 ≤ (os.poll size timeout).rv ∨
    (os.poll size timeout).rv = -1 ∧ (os.poll size timeout).errno = Posix.EINTR

def pollRc (os : Os) (call : Scheduler.PollCall) : Error :=
  (Syscall.poll (UInt64.ofNat MAX_COROS) call.timeout os.poll).1

end Os

-- The library on top of a system that keeps its own account of what is open.
structure Host where
  system : System
  opened : Finset Int32

namespace Host

def initial : Host := ⟨System.initial, ∅⟩

inductive Step (host : Host) : System.Event → Host → Prop
  | call {os : Os} {request : Request} {reply : Reply} {output : System.Output} {next : System}
      (hos : os.Conforms host.opened) (hrequest : output.request = some request)
      (hanswer : os.answer request = some reply)
      (hstep : System.Step host.system ⟨.reply reply, output⟩ next) :
      Step host ⟨.reply reply, output⟩ ⟨next, os.openAfter host.opened request⟩
  | poll {os : Os} {now : UInt64} {reply : Scheduler.PollReply} {call : Scheduler.PollCall}
      {output : System.Output} {next : System} (hos : os.Conforms host.opened)
      (hpolled : output.runtime = some (.polled call)) (hanswer : reply.rc = os.pollRc call)
      (hstep : System.Step host.system ⟨.runtime (.poll now reply), output⟩ next) :
      Step host ⟨.runtime (.poll now reply), output⟩ ⟨next, host.opened⟩
  | inside {event : System.Event} {next : System} (hreply : ∀ reply, event.action ≠ .reply reply)
      (hpolled : ∀ call, event.output.runtime ≠ some (.polled call))
      (hstep : System.Step host.system event next) : Step host event ⟨next, host.opened⟩

def Initial (host : Host) : Prop := host = initial

abbrev Run := Transition.Run Initial Step

end Host

-- A step that looks for a free entry, for a descriptor that it has.
def System.Event.creates (event : System.Event) : Bool :=
  match event.output.request with
  | some (.nosigpipe _) => true
  | _ => false

end Minimk.Socket
