import Minimk.Integer
import Minimk.Runtime.Stack

namespace Minimk.Runtime

open Abort Integer

-- The values of <poll.h> on linux.
def POLLIN : Int16 := 1
def POLLOUT : Int16 := 4
def POLLERR : Int16 := 8

def invalidSocket : Int32 := -1

inductive CoroState where
  | null | runnable | exited | blockedOnTimer | blockedOnIo
  deriving DecidableEq, Repr

structure Coroutine where
  sp : UInt64
  stack : Stack
  entry : UInt64
  argument : UInt64
  state : CoroState
  deadline : UInt64
  sock : Int32
  events : Int16
  revents : Int16
  deriving DecidableEq, Repr

def Coroutine.zero : Coroutine := ⟨0, .zero, 0, 0, .null, 0, 0, 0, 0⟩

-- The eight words that `minimk_runtime_init_coro_stack` pushes below the top.
def initCoroStack (stackTop : UInt64) : UInt64 := stackTop - 64

namespace Coroutine

def init (entry argument : UInt64) (reply : StackReply) :
    Except Assertion (Error × Coroutine × List MemCall) := do
  let coro := { zero with sock := invalidSocket, entry := entry, argument := argument }
  let (rv, stack, calls) ← stackAlloc coro.stack reply
  let coro := { coro with stack := stack }
  if rv ≠ .success then return (rv, coro, calls)
  let coro := { coro with sp := initCoroStack coro.stack.top }
  return (.success, { coro with state := .runnable }, calls)

def finish (coro : Coroutine) : Coroutine × List MemCall :=
  (zero, (stackFree coro.stack).2)

def maybeResume (coro : Coroutine) (now : UInt64) (revents : Int16) : Coroutine :=
  if coro.state = .blockedOnTimer ∧ now ≥ coro.deadline then
    { coro with deadline := 0, state := .runnable }
  else if coro.state = .blockedOnIo ∧ (coro.events &&& revents ≠ 0 ∨ now ≥ coro.deadline) then
    { coro with
      deadline := 0, state := .runnable, sock := invalidSocket, events := 0, revents := revents }
  else coro

def validateStackPointer (coro : Coroutine) : Except Assertion Unit :=
  assert (coro.sp ≥ coro.stack.bottom ∧ coro.sp < coro.stack.top) .validateStackPointer

def suspendTimer (coro : Coroutine) (deadline : UInt64) : Coroutine :=
  { coro with state := .blockedOnTimer, deadline := deadline }

def resumeTimer (coro : Coroutine) : Coroutine :=
  { coro with deadline := 0 }

def suspendIo (coro : Coroutine) (now : UInt64) (sock : Int32) (events : Int16) (nanosec : UInt64) :
    Except Assertion Coroutine := do
  let deadline := u64Satadd now nanosec
  let coro := { coro with state := .blockedOnIo, deadline := deadline }
  assert (sock ≠ invalidSocket) .suspendIoSock
  return { coro with sock := sock, events := events, revents := 0 }

def resumeIo (coro : Coroutine) (_sock : Int32) (events : Int16) :
    Except Assertion (Error × Coroutine) := do
  let revents := coro.revents
  let coro := { coro with revents := 0 }
  assert (coro.deadline = 0) .resumeIoDeadline
  assert (coro.sock = invalidSocket) .resumeIoSock
  assert (coro.events = 0) .resumeIoEvents
  if revents &&& events ≠ 0 then return (.success, coro)
  if revents &&& POLLERR ≠ 0 then return (.success, coro)
  return (.etimedout, coro)

def markAsExited (coro : Coroutine) : Coroutine :=
  { coro with state := .exited }

end Coroutine

end Minimk.Runtime
