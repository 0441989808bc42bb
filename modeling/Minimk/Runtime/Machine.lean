import Minimk.Runtime.Scheduler
import Minimk.Transition

namespace Minimk.Runtime

open Abort Integer

inductive Direction where
  | read | write
  deriving DecidableEq, Repr

def Direction.events : Direction → Int16
  | .read => POLLIN
  | .write => POLLOUT

-- Where control is: in main, at a statement of the run loop, or in the entry of a coroutine.
inductive Pc where
  | main | loopTest | clean | expire | pick | poll | switch | coroutine
  deriving DecidableEq, Repr

-- What a coroutine continues with when it is switched to: the frames on its own stack.
inductive Cont where
  | idle
  | running
  | fresh
  | yielded
  | sleeping
  | waiting (sock : Int32) (events : Int16)
  | returned
  deriving DecidableEq, Repr

-- The serials number the coroutines in creation order, since the slots are recycled.
structure Machine where
  sched : Scheduler
  pc : Pc
  fair : UInt64
  conts : Slot → Cont
  memory : Memory
  serials : Slot → Nat
  spawned : Nat
  deriving DecidableEq

-- A step of the machine, with what the kernel, the clock and the coroutine's code choose.
inductive Action where
  | go (entry argument : UInt64) (reply : StackReply)
  | run
  | loopTest
  | clean
  | expire (now : UInt64)
  | pick
  | poll (now : UInt64) (reply : Scheduler.PollReply)
  | switch (sp : UInt64)
  | yield (sp : UInt64)
  | nanosleep (nanosec now sp : UInt64)
  | suspendIo (direction : Direction) (sock : Int32) (nanosec now sp : UInt64)
  | ret (sp : UInt64)
  deriving DecidableEq

inductive Resumed where
  | entryStarts (entry argument : UInt64)
  | yieldReturns
  | nanosleepReturns
  | suspendIoReturns (rv : Error)
  deriving DecidableEq, Repr

inductive Output where
  | silent
  | created (serial : Nat) (calls : List MemCall)
  | refused (rv : Error) (calls : List MemCall)
  | cleaned (calls : List MemCall)
  | polled (call : Scheduler.PollCall)
  | resumed (serial : Nat) (how : Resumed)
  | left (serial : Nat)
  deriving DecidableEq

structure Event where
  action : Action
  output : Output
  deriving DecidableEq

namespace Machine

def initial : Machine where
  sched := ⟨fun _ => .zero, none, 0⟩
  pc := .main
  fair := 0
  conts := fun _ => .idle
  memory := []
  serials := fun _ => 0
  spawned := 0

def spawn (m : Machine) (idx : Slot) : Machine :=
  { m with
    conts := Function.update m.conts idx .fresh
    serials := Function.update m.serials idx m.spawned
    spawned := m.spawned + 1 }

def go (m : Machine) (entry argument : UInt64) (reply : StackReply) :
    Except Assertion (Machine × Output) := do
  let (rv, sched, calls) ← m.sched.coroutineCreate entry argument reply
  let next := { m with sched := sched, memory := m.memory.calls calls }
  match rv, m.sched.findFreeCoroutineSlot with
  | .success, .ok idx => return (next.spawn idx, .created m.spawned calls)
  | _, _ => return (next, .refused rv calls)

-- The context switch back to the run loop, up to the reset of `current`.
def coroutineYield (m : Machine) (cont : Cont) (sp : UInt64) :
    Except Assertion (Machine × Output) :=
  match m.sched.current with
  | none => .error .yieldCurrent
  | some idx => do
      let coro := { m.sched.coroutines idx with sp := sp }
      coro.validateStackPointer
      return ({ m with
        sched := { m.sched.set idx coro with current := none }
        conts := Function.update m.conts idx cont
        pc := .loopTest }, .left (m.serials idx))

def coroutineSuspendTimer (m : Machine) (nanosec now sp : UInt64) :
    Except Assertion (Machine × Output) :=
  match m.sched.current with
  | none => .error .suspendTimerCurrent
  | some idx =>
      let deadline := u64Satadd now nanosec
      let coro := (m.sched.coroutines idx).suspendTimer deadline
      { m with sched := m.sched.set idx coro }.coroutineYield .sleeping sp

def coroutineSuspendIo (m : Machine) (sock : Int32) (events : Int16) (nanosec now sp : UInt64) :
    Except Assertion (Machine × Output) :=
  match m.sched.current with
  | none => .error .suspendIoCurrent
  | some idx => do
      let coro ← (m.sched.coroutines idx).suspendIo now sock events nanosec
      { m with sched := m.sched.set idx coro }.coroutineYield (.waiting sock events) sp

-- The part of `minimk_runtime_scheduler_coroutine_main` after the entry.
def coroutineMainExit (m : Machine) (sp : UInt64) : Except Assertion (Machine × Output) :=
  match m.sched.current with
  | none => .error .coroutineMainCurrent
  | some idx =>
      let coro := (m.sched.coroutines idx).markAsExited
      { m with sched := m.sched.set idx coro }.coroutineYield .returned sp

-- The coroutine's side of the switch, up to where the code of its entry runs.
def resume (m : Machine) (idx : Slot) : Option (Except Assertion (Coroutine × Resumed)) :=
  let coro := m.sched.coroutines idx
  match m.conts idx with
  | .fresh => some <| do
      assert (m.sched.current ≠ none) .coroutineMainCurrent
      return (coro, .entryStarts coro.entry coro.argument)
  | .yielded => some (.ok (coro, .yieldReturns))
  | .sleeping => some (.ok (coro.resumeTimer, .nanosleepReturns))
  | .waiting sock events => some <| do
      let (rv, coro) ← coro.resumeIo sock events
      return (coro, .suspendIoReturns rv)
  | .returned => some (.error .coroutineMainReturned)
  | .idle | .running => none

def switch (m : Machine) (sp : UInt64) : Option (Except Assertion (Machine × Output)) := do
  let idx ← m.sched.current
  let resumed ← m.resume idx
  return do
    (m.sched.coroutines idx).validateStackPointer
    let (coro, how) ← resumed
    return ({ m with
      sched := { m.sched.set idx coro with sp := sp }
      conts := Function.update m.conts idx .running
      pc := .coroutine }, .resumed (m.serials idx) how)

-- The slots the scan finishes are those it leaves without a coroutine.
def clean (m : Machine) : Machine × Output :=
  let (sched, calls) := m.sched.cleanExitedCoroutines
  let conts := fun idx => if (m.sched.coroutines idx).state = .exited then .idle else m.conts idx
  ({ m with sched := sched, memory := m.memory.calls calls, conts := conts, pc := .expire },
    .cleaned calls)

def run (m : Machine) : Except Assertion (Machine × Output) := do
  assert (m.sched.current = none) .runCurrent
  return ({ m with pc := .loopTest, fair := 0 }, .silent)

def pick (m : Machine) : Machine :=
  let (current, fair) := m.sched.pickRunnable m.fair
  { m with
    sched := { m.sched with current := current }
    fair := fair
    pc := if current = none then .poll else .switch }

-- The test before the call avoids sleeping when every coroutine is gone.
def poll (m : Machine) (now : UInt64) (reply : Scheduler.PollReply) :
    Except Assertion (Machine × Output) :=
  if m.sched.countNonnullCoroutines > 0 then do
    let (sched, call) ← m.sched.blockOnPoll now reply
    return ({ m with sched := sched, pc := .loopTest }, .polled call)
  else .ok ({ m with pc := .loopTest }, .silent)

-- `none` is an action that cannot happen at this point: the control is elsewhere, or the
-- kernel does not answer so.
def exec (m : Machine) : Action → Option (Except Assertion (Machine × Output))
  | .go entry argument reply =>
      if (m.pc = .main ∨ m.pc = .coroutine) ∧
          ∀ base ∈ reply.mmap, m.memory.Fresh ⟨base, stackSizeOf reply⟩ then
        some (m.go entry argument reply)
      else none
  | .run => if m.pc = .main then some m.run else none
  | .loopTest =>
      if m.pc = .loopTest then
        let pc := if m.sched.countNonnullCoroutines > 0 then Pc.clean else Pc.main
        some (.ok ({ m with pc := pc }, .silent))
      else none
  | .clean => if m.pc = .clean then some (.ok m.clean) else none
  | .expire now =>
      if m.pc = .expire then
        some (.ok ({ m with sched := m.sched.maybeExpireDeadlines now, pc := .pick }, .silent))
      else none
  | .pick => if m.pc = .pick then some (.ok (m.pick, .silent)) else none
  | .poll now reply => if m.pc = .poll then some (m.poll now reply) else none
  | .switch sp => if m.pc = .switch then m.switch sp else none
  | .yield sp => if m.pc = .coroutine then some (m.coroutineYield .yielded sp) else none
  | .nanosleep nanosec now sp =>
      if m.pc = .coroutine then some (m.coroutineSuspendTimer nanosec now sp) else none
  | .suspendIo direction sock nanosec now sp =>
      if m.pc = .coroutine then
        some (m.coroutineSuspendIo sock direction.events nanosec now sp)
      else none
  | .ret sp => if m.pc = .coroutine then some (m.coroutineMainExit sp) else none

def Step (m : Machine) (event : Event) (next : Machine) : Prop :=
  m.exec event.action = some (.ok (next, event.output))

def perform (m : Machine) (action : Action) : Option (Event × Machine) :=
  match m.exec action with
  | some (.ok (next, output)) => some (⟨action, output⟩, next)
  | _ => none

-- The history and the end of a scripted run.
def history (m : Machine) (actions : List Action) : List Event :=
  (Transition.outcome perform actions m).1

def after (m : Machine) (actions : List Action) : Machine :=
  (Transition.outcome perform actions m).2

def Initial (m : Machine) : Prop := m = initial

abbrev Run := Transition.Run Initial Step

abbrev Reachable := Transition.Reachable Initial Step

theorem perform_step {m next : Machine} {action : Action} {event : Event}
    (h : m.perform action = some (event, next)) : Step m event next := by
  unfold perform at h
  split at h
  · rename_i he
    obtain ⟨rfl, rfl⟩ : _ ∧ _ := by simpa using h
    exact he
  · cases h

theorem after_path {m : Machine} {actions : List Action}
    (h : (Transition.replay perform actions m).isSome) :
    Transition.Path Step m (m.history actions) (m.after actions) := by
  refine Transition.outcome_path ?_ h
  exact fun _ _ _ _ => perform_step

theorem after_run {actions : List Action}
    (h : (Transition.replay perform actions initial).isSome) :
    Run (initial.history actions) (initial.after actions) :=
  ⟨initial, rfl, after_path h⟩

-- A coroutine on its own, up to where its entry runs.
def aloneStarts : List Action :=
  [.go 1 7 ⟨4096, some 0x10000, true⟩, .run, .loopTest, .clean, .expire 0, .pick, .switch 0x9000]

end Machine

end Minimk.Runtime
