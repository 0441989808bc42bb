import Minimk.Runtime.Coroutine
import Mathlib.Data.Fintype.Basic
import Mathlib.Data.List.FinRange
import Mathlib.Algebra.GroupWithZero.Nat

namespace Minimk.Runtime

open Abort Integer

abbrev MAX_COROS : Nat := 16

instance : NeZero MAX_COROS := ⟨Nat.succ_ne_zero 15⟩

-- A pointer into the slot array; `minimk_runtime_scheduler_get_coroutine_slot` checks the bound.
abbrev Slot := Fin MAX_COROS

structure Scheduler where
  coroutines : Slot → Coroutine
  current : Option Slot
  sp : UInt64
  deriving DecidableEq

namespace Scheduler

def set (sched : Scheduler) (idx : Slot) (coro : Coroutine) : Scheduler :=
  { sched with coroutines := Function.update sched.coroutines idx coro }

def findFreeCoroutineSlot (sched : Scheduler) : Except Error Slot :=
  match (List.finRange MAX_COROS).find? fun idx => (sched.coroutines idx).state = .null with
  | some idx => .ok idx
  | none => .error .eagain

-- The iterations of the scans below touch one slot each, so a scan is a map over the slots.
def cleanExitedCoroutines (sched : Scheduler) : Scheduler × List MemCall :=
  ({ sched with
      coroutines := fun idx =>
        if (sched.coroutines idx).state = .exited then (sched.coroutines idx).finish.1
        else sched.coroutines idx },
    (List.finRange MAX_COROS).flatMap fun idx =>
      if (sched.coroutines idx).state = .exited then (sched.coroutines idx).finish.2 else [])

def resumeAll (sched : Scheduler) (now : UInt64) (revents : Slot → Int16) : Scheduler :=
  { sched with coroutines := fun idx => (sched.coroutines idx).maybeResume now (revents idx) }

def maybeExpireDeadlines (sched : Scheduler) (now : UInt64) : Scheduler :=
  sched.resumeAll now fun _ => 0

-- The cursor is reduced on use only and its increment may wrap.
def fairSlot (fair : UInt64) : Slot :=
  ⟨fair.toNat % MAX_COROS, Nat.mod_lt _ (by decide)⟩

def pickRunnableLoop (sched : Scheduler) : Nat → UInt64 → Option Slot × UInt64
  | 0, fair => (none, fair)
  | count + 1, fair =>
      if (sched.coroutines (fairSlot fair)).state = .runnable then (some (fairSlot fair), fair + 1)
      else pickRunnableLoop sched count (fair + 1)

def pickRunnable (sched : Scheduler) (fair : UInt64) : Option Slot × UInt64 :=
  sched.pickRunnableLoop MAX_COROS fair

def countNonnullCoroutines (sched : Scheduler) : Nat :=
  (List.finRange MAX_COROS).countP fun idx => (sched.coroutines idx).state ≠ .null

structure Pollfd where
  fd : Int32
  events : Int16
  deriving DecidableEq, Repr

def pollScanStep (sched : Scheduler) (acc : UInt64 × (Slot → Pollfd)) (idx : Slot) :
    Except Assertion (UInt64 × (Slot → Pollfd)) :=
  let coro := sched.coroutines idx
  let deadline := if coro.deadline < acc.1 then coro.deadline else acc.1
  match coro.state with
  | .blockedOnTimer => .ok (deadline, acc.2)
  | .blockedOnIo => do
      assert (coro.sock ≠ invalidSocket) .blockOnPollSock
      assert (coro.events ≠ 0) .blockOnPollEvents
      assert (coro.revents = 0) .blockOnPollRevents
      return (deadline, Function.update acc.2 idx ⟨coro.sock, coro.events⟩)
  | _ => .ok acc

-- The array starts zeroed and the default deadline is ten seconds away.
def pollScan (sched : Scheduler) (now : UInt64) : Except Assertion (UInt64 × (Slot → Pollfd)) :=
  (List.finRange MAX_COROS).foldlM sched.pollScanStep
    (u64Satadd now 10000000000, fun _ => ⟨0, 0⟩)

def INT_MAX : UInt64 := 0x7fffffff

def pollTimeout (now deadline : UInt64) : Int :=
  let pollTimeout64 := (if deadline > now then deadline - now else 0) / 1000000 + 1
  (if pollTimeout64 < INT_MAX then pollTimeout64 else INT_MAX).toNat

-- What poll returned, the revents it stored, and the clock reading after it.
structure PollReply where
  rc : Error
  revents : Slot → Int16
  now : UInt64
  deriving DecidableEq

structure PollCall where
  fds : Slot → Pollfd
  timeout : Int
  deriving DecidableEq

def blockOnPoll (sched : Scheduler) (now : UInt64) (reply : PollReply) :
    Except Assertion (Scheduler × PollCall) := do
  let (deadline, fds) ← sched.pollScan now
  let call := ⟨fds, pollTimeout now deadline⟩
  if reply.rc = .eintr then return (sched, call)
  assert (reply.rc = .success) .blockOnPollRc
  return (sched.resumeAll reply.now reply.revents, call)

-- The slot that a failed initialization leaves behind is still a free one.
def coroutineCreate (sched : Scheduler) (entry argument : UInt64) (reply : StackReply) :
    Except Assertion (Error × Scheduler × List MemCall) :=
  match sched.findFreeCoroutineSlot with
  | .error rv => .ok (rv, sched, [])
  | .ok idx => do
      let (rv, coro, calls) ← Coroutine.init entry argument reply
      return (rv, sched.set idx coro, calls)

end Scheduler

end Minimk.Runtime
