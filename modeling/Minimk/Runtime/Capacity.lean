import Minimk.Runtime.Lifecycle.Theorems
import Minimk.Runtime.Phases
import Mathlib.Data.Finset.Card
import Mathlib.Data.Fintype.Card

namespace Minimk.Runtime

open Abort

namespace Event

-- A coroutine comes into being.
def spawns (event : Event) : Bool :=
  match event.output with
  | .created _ _ => true
  | _ => false

-- The entry of a coroutine returns.
def exits (event : Event) : Bool :=
  match event.action, event.output with
  | .ret _, .left _ => true
  | _, _ => false

theorem spawns_iff (event : Event) :
    event.spawns = true ↔ ∃ serial, event.creates serial = true := by
  unfold spawns creates
  cases event.output <;> simp

theorem exits_iff (event : Event) :
    event.exits = true ↔ ∃ serial, event.returns serial = true := by
  unfold exits returns
  cases event.action <;> cases event.output <;> simp

theorem spawns_eq_false {event : Event} (h : ∀ serial, event.creates serial = false) :
    event.spawns = false := by
  rw [← Bool.not_eq_true, spawns_iff]
  rintro ⟨serial, hs⟩
  rw [h serial] at hs
  cases hs

theorem exits_eq_false {event : Event} (h : ∀ serial, event.returns serial = false) :
    event.exits = false := by
  rw [← Bool.not_eq_true, exits_iff]
  rintro ⟨serial, hs⟩
  rw [h serial] at hs
  cases hs

end Event

namespace Machine

variable {m next : Machine} {event : Event} {log : List Event} {idx : Slot}

-- How many coroutines of a history were created and have not returned.
def unfinished (log : List Event) : Nat :=
  log.countP Event.spawns - log.countP Event.exits

-- The slots with such a coroutine.
def live (m : Machine) : Finset Slot :=
  Finset.univ.filter fun idx => m.conts idx ≠ .idle ∧ m.conts idx ≠ .returned

@[simp] theorem mem_live : idx ∈ m.live ↔ m.conts idx ≠ .idle ∧ m.conts idx ≠ .returned := by
  simp [live]

theorem live_congr (h : ∀ idx, (next.conts idx ≠ .idle ∧ next.conts idx ≠ .returned) ↔
    (m.conts idx ≠ .idle ∧ m.conts idx ≠ .returned)) : next.live = m.live := by
  ext idx
  rw [mem_live, mem_live]
  exact h idx

-- Other frames of a coroutine that goes on.
theorem live_update {cont : Cont} (hconts : next.conts = Function.update m.conts idx cont)
    (hold : m.conts idx ≠ .idle ∧ m.conts idx ≠ .returned)
    (hnew : cont ≠ .idle ∧ cont ≠ .returned) : next.live = m.live := by
  refine live_congr fun i => ?_
  rw [hconts]
  exact update_iff (P := fun cont => cont ≠ .idle ∧ cont ≠ .returned)
    ⟨fun _ => hold, fun _ => hnew⟩ i

theorem card_live_created (hidle : m.conts idx = .idle)
    (hconts : next.conts = Function.update m.conts idx .fresh) :
    next.live.card = m.live.card + 1 := by
  have he : next.live = insert idx m.live := by
    ext i
    by_cases hi : i = idx
    · subst hi
      simp [hconts]
    · simp [hconts, hi]
  rw [he, Finset.card_insert_of_notMem (by simp [hidle])]

theorem card_live_returned (hrunning : m.conts idx = .running)
    (hconts : next.conts = Function.update m.conts idx .returned) :
    next.live.card + 1 = m.live.card := by
  have he : next.live = m.live.erase idx := by
    ext i
    by_cases hi : i = idx
    · subst hi
      simp [hconts]
    · simp [hconts, hi]
  rw [he, Finset.card_erase_add_one (by simp [hrunning])]

theorem Frames.balance (hf : Frames m event next)
    (h : log.countP Event.spawns = log.countP Event.exits + m.live.card) :
    (event :: log).countP Event.spawns = (event :: log).countP Event.exits + next.live.card := by
  rw [List.countP_cons, List.countP_cons, h]
  cases hf with
  | quiet hconts _ _ hcreates _ _ hreturns =>
      have hlive : next.live = m.live := live_congr fun i => by rw [hconts]
      simp [hlive, Event.spawns_eq_false hcreates, Event.exits_eq_false hreturns]
  | created idx hidle hconts _ _ hcreates _ _ hreturns =>
      have hspawns : event.spawns = true :=
        event.spawns_iff.mpr ⟨m.spawned, by simp [hcreates]⟩
      have hcard := card_live_created hidle hconts
      simp only [hspawns, Event.exits_eq_false hreturns, ↓reduceIte, Bool.false_eq_true]
      omega
  | cleaned hconts _ _ hcreates _ _ hreturns =>
      have hlive : next.live = m.live := by
        refine live_congr fun i => ?_
        rw [hconts]
        split_ifs with hr <;> simp [hr]
      simp [hlive, Event.spawns_eq_false hcreates, Event.exits_eq_false hreturns]
  | resumed idx hidle hreturned hconts _ _ hcreates _ _ hreturns =>
      have hlive := live_update hconts ⟨hidle, hreturned⟩ (by simp)
      simp [hlive, Event.spawns_eq_false hcreates, Event.exits_eq_false hreturns]
  | left idx cont hrunning hidle _ hconts _ _ hcreates _ _ hreturns =>
      by_cases hc : cont = .returned
      · subst hc
        have hexits : event.exits = true :=
          event.exits_iff.mpr ⟨m.serials idx, by simp [hreturns]⟩
        have hcard := card_live_returned hrunning hconts
        simp only [hexits, Event.spawns_eq_false hcreates, ↓reduceIte, Bool.false_eq_true]
        omega
      · have hlive := live_update hconts (by simp [hrunning]) ⟨hidle, hc⟩
        have hexits : event.exits = false :=
          Event.exits_eq_false fun serial => by simp [hreturns, hc]
        simp [hlive, Event.spawns_eq_false hcreates, hexits]

theorem Run.balance (h : Run log m) :
    log.countP Event.spawns = log.countP Event.exits + m.live.card := by
  refine Transition.Run.invariant_from
    (P := fun log m => log.countP Event.spawns = log.countP Event.exits + m.live.card) ?_ ?_ h
  · simp [live, initial]
  · intro log m event next hr ih hs
    exact (hs.move.frames (Reachable.holds hr.reachable)).balance ih

section Go

variable {reply : StackReply} {rv : Error} {stack : Stack} {calls : List MemCall}
  {output : Output}

end Go

theorem card_live_eq_iff : m.live.card = MAX_COROS ↔ ∀ idx, idx ∈ m.live := by
  have hcard : Fintype.card Slot = MAX_COROS := Fintype.card_fin MAX_COROS
  rw [← hcard, Finset.card_eq_iff_eq_univ, Finset.eq_univ_iff_forall]

-- Where no coroutine has exited, the slots in use are those of the unfinished coroutines.
theorem Invariant.live_iff (h : m.Invariant) (hexited : (m.sched.coroutines idx).state ≠ .exited) :
    idx ∈ m.live ↔ (m.sched.coroutines idx).state ≠ .null := by
  have hslot := h.slots idx
  rw [mem_live, ne_eq, ← hslot.null_iff, ne_eq, ← hslot.exited_iff]
  exact and_iff_left hexited

end Machine

end Minimk.Runtime
