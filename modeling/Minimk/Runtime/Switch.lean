import Minimk.Amd64
import Minimk.Runtime.Scheduler
import Minimk.Transition

namespace Minimk.Runtime

open Amd64 Transition

namespace Asm

-- The file switch_linux_amd64.S, one list for each of its three routines.
def switch : List Instr :=
  [.push (.reg .rbx), .push (.reg .rbp), .push (.reg .r12), .push (.reg .r13), .push (.reg .r14),
    .push (.reg .r15),
    .store .rsp .rdi,
    .mov .rsi .rsp,
    .pop .r15, .pop .r14, .pop .r13, .pop .r12, .pop .rbp, .pop .rbx,
    .ret]

-- What it saves, in the order of the pushes, and how it goes on with the other stack.
def switchSaved : List Operand := [.reg .rbx, .reg .rbp, .reg .r12, .reg .r13, .reg .r14, .reg .r15]

def switchRestore : List Instr :=
  [.pop .r15, .pop .r14, .pop .r13, .pop .r12, .pop .rbp, .pop .rbx, .ret]

def initCoroStack : List Instr :=
  [.mov .rsp .rax,
    .mov .rsi .rsp,
    .push (.reg .rcx), .push (.reg .rdx),
    .push (.imm 0), .push (.imm 0), .push (.imm 0), .push (.imm 0), .push (.imm 0), .push (.imm 0),
    .store .rsp .rdi,
    .mov .rax .rsp,
    .ret]

-- The frame it makes: the words in the order of the pushes, and what comes after them.
def initPushed : List Operand :=
  [.reg .rcx, .reg .rdx, .imm 0, .imm 0, .imm 0, .imm 0, .imm 0, .imm 0]

def initReturn : List Instr := [.store .rsp .rdi, .mov .rax .rsp, .ret]

-- The trampoline up to its call instruction, and with it.
def trampolineEntry : List Instr := [.load .rsp .rdi, .push (.imm 0)]

def trampoline (coroutineMain back : UInt64) : List Instr :=
  trampolineEntry ++ [.call coroutineMain back]

end Asm

-- What a context finds again when control comes back to it: where it goes on, its stack pointer
-- and the registers that a called function has to preserve.
@[ext] structure Snapshot where
  rip : UInt64
  rsp : UInt64
  rbx : UInt64
  rbp : UInt64
  r12 : UInt64
  r13 : UInt64
  r14 : UInt64
  r15 : UInt64
  deriving DecidableEq, Repr

def snapshot (cpu : Cpu) : Snapshot :=
  ⟨cpu.rip, cpu.regs .rsp, cpu.regs .rbx, cpu.regs .rbp, cpu.regs .r12, cpu.regs .r13,
    cpu.regs .r14, cpu.regs .r15⟩

-- The words that the second half of `minimk_runtime_switch` takes from the stack.
def Snapshot.words (snap : Snapshot) : List UInt64 :=
  [snap.r15, snap.r14, snap.r13, snap.r12, snap.rbp, snap.rbx, snap.rip]

-- What a new coroutine is made to find: as if it had called from the trampoline.
def Snapshot.fresh (trampoline stackTop : UInt64) : Snapshot :=
  ⟨trampoline, stackTop - 8, 0, 0, 0, 0, 0, 0⟩

-- The first half of `minimk_runtime_switch` has put the words on the stack of its caller.
structure Saved (cpu saved : Cpu) (back : UInt64) : Prop where
  rsp : (saved.regs .rsp).toNat + 56 = (cpu.regs .rsp).toNat
  frame : Holds saved.memory (saved.regs .rsp) { snapshot cpu with rip := back }.words
  memory : ChangesOnly ⟨saved.regs .rsp, cpu.regs .rsp⟩ cpu.memory saved.memory

-- The cell has the address of a block of words, which is in the stack.
structure Framed (stack : Region) (cell : UInt64) (words : List UInt64)
    (memory : UInt64 → UInt64) : Prop where
  bottom : stack.bottom.toNat ≤ (memory cell).toNat
  top : (memory cell).toNat + 8 * words.length ≤ stack.top.toNat
  block : Holds memory (memory cell) words

-- The addresses of the symbols and of the scheduler, a `struct scheduler` of 1296 bytes.
structure Addresses where
  sched : UInt64
  runtimeSwitch : UInt64
  initCoroStack : UInt64
  asmTrampoline : UInt64
  coroutineMain : UInt64
  fits : sched.toNat + 1296 < 2 ^ 64

namespace Addresses

def struct (addresses : Addresses) : Region := ⟨addresses.sched, addresses.sched + 1296⟩

-- The address of `sched->coroutines[slot].sp`, and of `sched->sp` for the scheduler: a
-- `struct coroutine` has 80 bytes and its `sp` comes first.
def cell (addresses : Addresses) : Option Slot → UInt64
  | some slot => addresses.sched + 80 * UInt64.ofNat slot
  | none => addresses.sched + 1288

end Addresses

-- The calls, with the arguments in the registers of the calling convention and `back` as the
-- address after the call instruction.
def callSwitch (addresses : Addresses) (cpu : Cpu) (oldStackPtr newStackPtr back : UInt64) : Cpu :=
  (((cpu.set .rdi oldStackPtr).set .rsi newStackPtr).exec (.call addresses.runtimeSwitch back)).run
    Asm.switch

def callInitCoroStack (addresses : Addresses) (cpu : Cpu) (stackPtr stackTop back : UInt64) : Cpu :=
  (((((cpu.set .rdi stackPtr).set .rsi stackTop).set .rdx addresses.asmTrampoline).set .rcx
    addresses.sched).exec (.call addresses.initCoroStack back)).run Asm.initCoroStack

-- The switch in `minimk_runtime_scheduler_switch` and the one in
-- `minimk_runtime_scheduler_coroutine_yield`.
def schedulerSwitch (addresses : Addresses) (cpu : Cpu) (slot : Slot) (back : UInt64) : Cpu :=
  callSwitch addresses cpu (addresses.cell none) (cpu.memory (addresses.cell (some slot))) back

def coroutineYield (addresses : Addresses) (cpu : Cpu) (slot : Slot) (back : UInt64) : Cpu :=
  callSwitch addresses cpu (addresses.cell (some slot)) (cpu.memory (addresses.cell none)) back

-- The processor, the context it is with (a coroutine, or `none` for the scheduler) and the stacks
-- of the scheduler and of the coroutines there are.
structure World where
  cpu : Cpu
  current : Option Slot
  regions : Option Slot → Option Region

-- Between its calls a context computes; what comes out of that is any state of the processor.
inductive SwitchEvent where
  | compute (cpu : Cpu)
  | init (slot : Slot) (stack : Region) (back : UInt64)
  | switch (slot : Slot) (back : UInt64)
  | yield (slot : Slot) (back : UInt64)
  | finish (slot : Slot)

namespace SwitchEvent

-- The caller of `minimk_runtime_switch`, with the address after its call.
def call : SwitchEvent → Option (Option Slot × UInt64)
  | .switch _ back => some (none, back)
  | .yield slot back => some (some slot, back)
  | _ => none

-- The context that control goes to.
def resumed : SwitchEvent → Option (Option Slot)
  | .switch slot _ => some (some slot)
  | .yield _ _ => some none
  | _ => none

def Touches (ctx : Option Slot) : SwitchEvent → Prop
  | .compute _ => False
  | .init slot _ _ | .finish slot => ctx = some slot
  | .switch slot _ | .yield slot _ => ctx = some slot ∨ ctx = none

end SwitchEvent

namespace World

variable (addresses : Addresses) (world : World)

def exec : SwitchEvent → World
  | .compute cpu => { world with cpu := cpu }
  | .init slot stack back =>
      { world with
        cpu := callInitCoroStack addresses world.cpu (addresses.cell (some slot)) stack.top back
        regions := Function.update world.regions (some slot) (some stack) }
  | .switch slot back =>
      { world with cpu := schedulerSwitch addresses world.cpu slot back, current := some slot }
  | .yield slot back =>
      { world with cpu := coroutineYield addresses world.cpu slot back, current := none }
  | .finish slot => { world with regions := Function.update world.regions (some slot) none }

-- The stacks of the other contexts, and where their stack pointers are saved, are as they were.
def Keeps (memory : UInt64 → UInt64) : Prop :=
  ∀ ctx stack, ctx ≠ world.current → world.regions ctx = some stack →
    memory (addresses.cell ctx) = world.cpu.memory (addresses.cell ctx) ∧
      ∀ address, stack.Contains address → memory address = world.cpu.memory address

-- The stack pointer is in the stack of the context, over so many free bytes.
def Room (count : Nat) : Prop :=
  ∃ stack, world.regions world.current = some stack ∧
    stack.bottom.toNat + count ≤ (world.cpu.regs .rsp).toNat ∧
      (world.cpu.regs .rsp).toNat ≤ stack.top.toNat

-- A new stack is apart from what there is, and has a top that is aligned to 16 bytes.
structure Fresh (stack : Region) : Prop where
  apart : ∀ ctx other, world.regions ctx = some other → stack.Disjoint other
  outside : stack.Disjoint addresses.struct
  aligned : stack.top.toNat % 16 = 0
  size : stack.bottom.toNat + 64 ≤ stack.top.toNat

-- The contexts call in turn, and each writes to its own stack: the words that a call and the
-- called routine push, too.
def Admits : SwitchEvent → Prop
  | .compute cpu => world.Keeps addresses cpu.memory
  | .init slot stack _ =>
      world.regions (some slot) = none ∧ world.Fresh addresses stack ∧ world.Room 8
  | .switch slot _ =>
      world.current = none ∧ world.regions (some slot) ≠ none ∧ world.Room 56
  | .yield slot _ => world.current = some slot ∧ world.Room 56
  | .finish _ => world.current = none

def Step (event : SwitchEvent) (next : World) : Prop :=
  world.Admits addresses event ∧ next = world.exec addresses event

-- The scheduler runs on its own stack and there are no coroutines.
structure Initial : Prop where
  current : world.current = none
  scheduler : ∃ stack, world.regions none = some stack ∧ stack.Disjoint addresses.struct
  coroutines : ∀ slot, world.regions (some slot) = none

-- The stacks are apart from each other and from the scheduler.
structure Separate : Prop where
  scheduler : world.regions none ≠ none
  running : world.regions world.current ≠ none
  apart : ∀ ctx other stack region, ctx ≠ other → world.regions ctx = some stack →
    world.regions other = some region → stack.Disjoint region
  outside : ∀ ctx stack, world.regions ctx = some stack → stack.Disjoint addresses.struct

-- The context is not on the processor. A switch to it takes the words of the snapshot from its
-- stack and leaves the rest there.
structure Parked (ctx : Option Slot) (snap : Snapshot) (rest : List UInt64) : Prop where
  off : world.current ≠ ctx
  frame : ∃ stack, world.regions ctx = some stack ∧
    Framed stack (addresses.cell ctx) (snap.words ++ rest) world.cpu.memory
  rsp : snap.rsp.toNat = (world.cpu.memory (addresses.cell ctx)).toNat + 56

-- In the history that leads from one world to the other, this is the last event that concerns
-- the context, and `before` is the world it happens in.
def LastEvent (first : World) (log : List SwitchEvent) (ctx : Option Slot) (last : SwitchEvent)
    (before : World) : Prop :=
  ∃ newer older after, log = newer ++ last :: older ∧ Path (Step addresses) first older before ∧
    before.Step addresses last after ∧ Path (Step addresses) after newer world ∧
      last.Touches ctx ∧ ∀ event ∈ newer, ¬event.Touches ctx

end World

-- How the first switch to a coroutine ends: in the trampoline, which gets to its call with an
-- aligned stack and from there to the main function of the coroutine.
structure Arrives (addresses : Addresses) (cpu : Cpu) : Prop where
  trampoline : cpu.rip = addresses.asmTrampoline
  aligned : ((cpu.run Asm.trampolineEntry).regs .rsp).toNat % 16 = 0
  main : ∀ back,
    (cpu.run (Asm.trampoline addresses.coroutineMain back)).rip = addresses.coroutineMain
  sched : ∀ back,
    (cpu.run (Asm.trampoline addresses.coroutineMain back)).regs .rdi = addresses.sched
  preserved : ∀ back, ∀ reg ∈ [Reg.rbx, .rbp, .r12, .r13, .r14, .r15],
    (cpu.run (Asm.trampoline addresses.coroutineMain back)).regs reg = 0

end Minimk.Runtime
