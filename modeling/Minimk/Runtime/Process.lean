import Minimk.Runtime.Lifecycle.Memory
import Minimk.Runtime.Safety
import Minimk.Runtime.Stack.Theorems
import Minimk.Runtime.Switch

namespace Minimk.Runtime

open Abort Amd64

-- What the code of a coroutine may use of its stack.
def Stack.region (sp : Stack) : Region := ⟨sp.bottom, sp.top⟩

namespace Action

def reply : Action → Option StackReply
  | .go _ _ reply => some reply
  | _ => none

-- The stack pointer that `minimk_runtime_switch` saves in an action.
def saves : Action → Option UInt64
  | .switch sp | .yield sp | .nanosleep _ _ sp | .suspendIo _ _ _ _ sp | .ret sp => some sp
  | _ => none

-- The frames that a coroutine leaves behind in a call.
def cont : Action → Option Cont
  | .yield _ => some .yielded
  | .nanosleep _ _ _ => some .sleeping
  | .suspendIo direction sock _ _ _ => some (.waiting sock direction.events)
  | .ret _ => some .returned
  | _ => none

end Action

namespace Machine

-- The context that has the processor: a coroutine, or `none` for the scheduler and main.
def context (m : Machine) : Option Slot := if m.pc = .coroutine then m.sched.current else none

-- The calls into the assembly file that an event makes and the stacks it gives up, latest first.
-- The call that makes a stack goes on at `back`, and so does the one that switches.
def routines (m next : Machine) (output : Output) (back : UInt64) : List SwitchEvent :=
  match output with
  | .created _ _ =>
      match m.sched.findFreeCoroutineSlot with
      | .ok idx => [.init idx (next.sched.coroutines idx).stack.region back]
      | .error _ => []
  | .cleaned _ => m.exitedSlots.map .finish
  | .resumed _ _ => (m.sched.current.map fun idx => .switch idx back).toList
  | .left _ => (m.sched.current.map fun idx => .yield idx back).toList
  | .silent | .refused _ _ | .polled _ => []

end Machine

def World.execAll (addresses : Addresses) (world : World) (events : List SwitchEvent) : World :=
  events.foldr (fun event world => world.exec addresses event) world

-- A context was on the processor before, and its stack from the stack pointer it had there up is
-- as it was.
structure World.KeepsStack (before : World) (ctx : Option Slot) (world : World) : Prop where
  current : before.current = ctx
  regions : world.regions ctx = before.regions ctx
  memory : ∀ stack, before.regions ctx = some stack → ∀ address, stack.Contains address →
    before.cpu.regs .rsp ≤ address → world.cpu.memory address = before.cpu.memory address

-- The context goes on behind its call with the registers and the stack it had at the call.
structure World.GoesOn (before : World) (back : UInt64) (world : World) : Prop where
  current : world.current = before.current
  registers : snapshot world.cpu = { snapshot before.cpu with rip := back }
  stack : before.KeepsStack before.current world

-- The runtime and, under it, the processor and the memory it runs on.
structure Process where
  machine : Machine
  world : World

inductive ProcessEvent where
  | compute (cpu : Cpu)
  | runtime (event : Event) (back : UInt64)

-- The coroutine an output is about.
def Output.serial : Output → Option Nat
  | .created serial _ | .resumed serial _ | .left serial => some serial
  | .silent | .refused _ _ | .cleaned _ | .polled _ => none

namespace ProcessEvent

def Concerns (serial : Nat) : ProcessEvent → Prop
  | .compute _ => False
  | .runtime event _ => event.output.serial = some serial

-- The processor goes from one context to another.
def Switches : ProcessEvent → Prop
  | .compute _ => False
  | .runtime event _ => (∃ serial how, event.output = .resumed serial how) ∨
      ∃ serial, event.output = .left serial

end ProcessEvent

-- The call in which a coroutine has left is the one that returns.
def Resumed.Answers : Resumed → Action → Prop
  | .yieldReturns, .yield _ => True
  | .nanosleepReturns, .nanosleep _ _ _ => True
  | .suspendIoReturns _, .suspendIo _ _ _ _ _ => True
  | _, _ => False

namespace Process

-- What the processor does in an event, latest first.
def calls (p next : Process) : ProcessEvent → List SwitchEvent
  | .compute cpu => [.compute cpu]
  | .runtime event back => p.machine.routines next.machine event.output back

variable (addresses : Addresses)

def exec (p : Process) (action : Action) (back : UInt64) :
    Option (Except Assertion (Process × Output)) := do
  let result ← p.machine.exec action
  return do
    let (machine, output) ← result
    let world := p.world.execAll addresses (p.machine.routines machine output back)
    return (⟨machine, world⟩, output)

-- What `minimk_runtime_switch` leaves in the cell of the context that calls it.
def saved (p : Process) (back : UInt64) : UInt64 :=
  match p.machine.context, p.machine.sched.current with
  | some idx, _ => (p.world.exec addresses (.yield idx back)).cpu.memory (addresses.cell (some idx))
  | none, some idx => (p.world.exec addresses (.switch idx back)).cpu.memory (addresses.cell none)
  | none, none => 0

-- A range for a stack is apart from the scheduler's own stack and from its struct.
structure Spare (p : Process) (region : Region) : Prop where
  struct : region.Disjoint addresses.struct
  scheduler : ∀ stack, p.world.regions none = some stack → region.Disjoint stack

-- What the kernel and the compiled code promise of an action: whole pages, ranges that were
-- not in use, and a stack pointer over enough free bytes at a call into the assembly file.
structure Promises (p : Process) (action : Action) (back : UInt64) : Prop where
  admissible : action.Admissible
  pages : ∀ reply ∈ action.reply, reply.Paged
  spare : ∀ reply ∈ action.reply, ∀ base ∈ reply.mmap,
    p.Spare addresses ⟨base, base + stackSizeOf reply⟩
  callRoom : ∀ reply ∈ action.reply, p.world.Room 8
  switchRoom : ∀ sp ∈ action.saves, p.world.Room 56
  saved : ∀ sp ∈ action.saves, sp = p.saved addresses back

-- Between its calls a context computes in registers of its choice and on its own stack.
def Step (p : Process) : ProcessEvent → Process → Prop
  | .compute cpu, next =>
      p.world.Keeps addresses cpu.memory ∧ next = { p with world := { p.world with cpu := cpu } }
  | .runtime event back, next =>
      p.Promises addresses event.action back ∧
        p.exec addresses event.action back = some (.ok (next, event.output))

def Initial (p : Process) : Prop := p.machine = .initial ∧ p.world.Initial addresses

abbrev Run := Transition.Run (Initial addresses) (Step addresses)

end Process

end Minimk.Runtime
