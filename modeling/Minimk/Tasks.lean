import Minimk.Transition
import Mathlib.Data.Set.Card

-- Cooperative tasks, named by the order in which they are spawned. A task runs until it gives
-- the processor up itself; `ω` is what it may wait for and `τ` is the time.
namespace Tasks

open Transition

inductive Status (ω τ : Type*)
  | unborn
  | ready
  | running
  | asleep (deadline : τ)
  | waiting (on : ω) (deadline : τ)
  | done

inductive Label (ω τ : Type*)
  | spawn (task : Nat)
  | refuse
  | dispatch (task : Nat)
  | yield (task : Nat)
  | sleep (task : Nat) (deadline : τ)
  | wait (task : Nat) (on : ω) (deadline : τ)
  | finish (task : Nat)
  | wake (now : τ) (ready : Set Nat)

variable {ω τ : Type*}

abbrev System (ω τ : Type*) := Nat → Status ω τ

def initial : System ω τ := fun _ => .unborn

def unfinished (s : System ω τ) : Set Nat := {task | s task ≠ .unborn ∧ s task ≠ .done}

section Semantics

variable [LE τ]

open Classical in
-- What a look at the clock and at what is waited for makes of a task.
noncomputable def Status.wake (now : τ) (ready : Prop) : Status ω τ → Status ω τ
  | .asleep deadline => if deadline ≤ now then .ready else .asleep deadline
  | .waiting on deadline => if ready ∨ deadline ≤ now then .ready else .waiting on deadline
  | status => status

noncomputable def Label.apply (task : Nat) (status : Status ω τ) : Label ω τ → Status ω τ
  | .spawn other | .yield other => if other = task then .ready else status
  | .refuse => status
  | .dispatch other => if other = task then .running else status
  | .sleep other deadline => if other = task then .asleep deadline else status
  | .wait other on deadline => if other = task then .waiting on deadline else status
  | .finish other => if other = task then .done else status
  | .wake now ready => status.wake now (task ∈ ready)

def Allows (capacity : Nat) (s : System ω τ) : Label ω τ → Prop
  | .spawn task => s task = .unborn ∧ (∀ other < task, s other ≠ .unborn) ∧
      (unfinished s).ncard < capacity
  | .refuse => (unfinished s).ncard = capacity
  | .dispatch task => s task = .ready ∧ ∀ other, s other ≠ .running
  | .yield task | .sleep task _ | .wait task _ _ | .finish task => s task = .running
  | .wake _ _ => ∀ other, s other ≠ .running

structure Step (capacity : Nat) (s : System ω τ) (label : Label ω τ) (next : System ω τ) :
    Prop where
  allowed : Allows capacity s label
  applied : ∀ task, next task = label.apply task (s task)

def Initial (s : System ω τ) : Prop := s = initial

-- What a history says of a task.
noncomputable def statusOf (task : Nat) : List (Label ω τ) → Status ω τ
  | [] => .unborn
  | label :: log => label.apply task (statusOf task log)

variable {capacity : Nat} {s next : System ω τ} {log newer older : List (Label ω τ)}
  {label : Label ω τ} {task : Nat}

theorem Run.statusOf (h : Run Initial (Step capacity) log s) (task : Nat) :
    s task = Tasks.statusOf task log := by
  refine Run.invariant_from (P := fun log s => s task = Tasks.statusOf task log) ?_ ?_ h
  · rfl
  · intro log s label next _ ih hs
    rw [hs.applied, ih]
    rfl

-- A task gets the processor when its own history makes it ready and nobody else has it.
theorem Run.dispatched (h : Run Initial (Step capacity) (newer ++ .dispatch task :: older) s) :
    Tasks.statusOf task older = .ready ∧ ∀ other, Tasks.statusOf other older ≠ .running := by
  obtain ⟨before, after, hrun, hs, -⟩ := h.split_at
  obtain ⟨hready, hfree⟩ := hs.allowed
  refine ⟨by rw [← Run.statusOf hrun, hready], fun other => ?_⟩
  rw [← Run.statusOf hrun]
  exact hfree other

end Semantics

end Tasks
