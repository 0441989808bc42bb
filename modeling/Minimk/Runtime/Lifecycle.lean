import Minimk.Runtime.Machine

namespace Minimk.Runtime

namespace Event

def creates (serial : Nat) (event : Event) : Bool :=
  match event.output with
  | .created other _ => other = serial
  | _ => false

def starts (serial : Nat) (event : Event) : Bool :=
  match event.output with
  | .resumed other (.entryStarts _ _) => other = serial
  | _ => false

def resumes (serial : Nat) (event : Event) : Bool :=
  match event.output with
  | .resumed other _ => other = serial
  | _ => false

-- The entry of the coroutine has run to completion.
def returns (serial : Nat) (event : Event) : Bool :=
  match event.action, event.output with
  | .ret _, .left other => other = serial
  | _, _ => false

def calls (event : Event) : List MemCall :=
  match event.output with
  | .created _ calls | .refused _ calls | .cleaned calls => calls
  | _ => []

end Event

namespace Machine

-- The coroutine exists and its entry has not been entered yet.
def Pending (m : Machine) (serial : Nat) : Prop :=
  ∃ idx, m.serials idx = serial ∧ m.conts idx = .fresh

def Unfinished (m : Machine) (serial : Nat) : Prop :=
  ∃ idx, m.serials idx = serial ∧ m.conts idx ≠ .idle ∧ m.conts idx ≠ .returned

-- The mapping that carries the stack of the coroutine in a slot.
def stackOf (m : Machine) (idx : Slot) : Mapping := (m.sched.coroutines idx).stack.mapping

-- How often a history maps and unmaps one range.
def mapped (log : List Event) (mapping : Mapping) : Nat :=
  (log.flatMap Event.calls).count (.mmap mapping)

def unmapped (log : List Event) (mapping : Mapping) : Nat :=
  (log.flatMap Event.calls).count (.munmap mapping)

-- The kernel holds the stacks of the coroutines that are in a slot, each apart from the others.
structure Layout (m : Machine) : Prop where
  mem_iff : ∀ mapping, mapping ∈ m.memory ↔ ∃ idx, m.conts idx ≠ .idle ∧ m.stackOf idx = mapping
  nodup : m.memory.Nodup
  positive : ∀ mapping ∈ m.memory, 0 < mapping.size.toNat
  apart : ∀ i j, m.conts i ≠ .idle → m.conts j ≠ .idle → i ≠ j →
    (m.stackOf i).Disjoint (m.stackOf j)

-- Every coroutine in a slot goes back to a creation with its entry, its argument and its stack.
def Origins (log : List Event) (m : Machine) : Prop :=
  ∀ idx, m.conts idx ≠ .idle → ∃ reply,
    ⟨.go (m.sched.coroutines idx).entry (m.sched.coroutines idx).argument reply,
      .created (m.serials idx) [.mmap (m.stackOf idx)]⟩ ∈ log

end Machine

end Minimk.Runtime
