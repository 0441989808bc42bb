import Minimk.Transition

namespace Fifo

open Transition

variable {α : Type*}

inductive Label (α : Type*)
  | put (items : List α)
  | get (items : List α)

-- A queue that loses nothing and keeps the order.
inductive Step (queue : List α) : Label α → List α → Prop
  | put {items : List α} : Step queue (.put items) (queue ++ items)
  | get {items rest : List α} (hqueue : queue = items ++ rest) : Step queue (.get items) rest

def Initial (queue : List α) : Prop := queue = []

abbrev Run := Transition.Run (@Initial α) Step

-- What has gone into the queue in a history, and what has come out of it.
def accepted : List (Label α) → List α
  | [] => []
  | .put items :: log => accepted log ++ items
  | .get _ :: log => accepted log

def delivered : List (Label α) → List α
  | [] => []
  | .put _ :: log => delivered log
  | .get items :: log => delivered log ++ items

variable {queue : List α} {log : List (Label α)}

theorem Run.conservation (h : Run log queue) : delivered log ++ queue = accepted log := by
  refine Transition.Run.invariant_from
    (P := fun log queue => delivered log ++ queue = accepted log) ?_ ?_ h
  · rfl
  · intro log state label next _ ih hs
    cases hs with
    | put =>
        simp only [accepted, delivered]
        rw [← List.append_assoc, ih]
    | get hqueue =>
        simp only [accepted, delivered]
        rw [List.append_assoc, ← hqueue, ih]

end Fifo
