import Minimk.RoundRobin.Rotation
import Minimk.Runtime.Fairness
import Minimk.Runtime.Phases

namespace Minimk.Runtime

open Transition

-- The steps of the loop and of coroutines that do nothing but yield.
def Action.yields : Action → Bool
  | .loopTest | .clean | .expire _ | .pick | .poll _ _ | .switch _ | .yield _ => true
  | .go _ _ _ | .run | .nanosleep _ _ _ | .suspendIo _ _ _ _ _ | .ret _ => false

namespace Machine

variable {m next first last : Machine} {event : Event} {turns : List Machine.Turn}
  {ready : Finset Slot}

-- The coroutines that can run, if there is nothing else in the table.
structure Steady (ready : Finset Slot) (m : Machine) : Prop where
  runnable : ∀ idx ∈ ready, (m.sched.coroutines idx).state = .runnable
  null : ∀ idx, idx ∉ ready → (m.sched.coroutines idx).state = .null

theorem Steady.runnable_iff (h : m.Steady ready) (idx : Slot) :
    (m.sched.coroutines idx).state = .runnable ↔ idx ∈ ready := by
  by_cases hm : idx ∈ ready
  · simp [h.runnable idx hm, hm]
  · simp [h.null idx hm, hm]

theorem Steady.congr (h : m.Steady ready)
    (hstates : ∀ idx, (next.sched.coroutines idx).state = (m.sched.coroutines idx).state) :
    next.Steady ready where
  runnable := fun idx hm => (hstates idx).trans (h.runnable idx hm)
  null := fun idx hm => (hstates idx).trans (h.null idx hm)

theorem Steady.not_blocked (h : m.Steady ready) (idx : Slot) :
    (m.sched.coroutines idx).state ≠ .blockedOnTimer ∧
      (m.sched.coroutines idx).state ≠ .blockedOnIo ∧ (m.sched.coroutines idx).state ≠ .exited := by
  by_cases hm : idx ∈ ready
  · simp [h.runnable idx hm]
  · simp [h.null idx hm]

theorem Steady.step (h : m.Steady ready) (hi : m.Invariant) (hs : Step m event next)
    (hyields : event.action.yields = true) : next.Steady ready := by
  have hm := hs.move
  have hscan : ∀ now revents idx,
      ((m.sched.coroutines idx).maybeResume now revents).state =
        (m.sched.coroutines idx).state := by
    intro now revents idx
    obtain ⟨ht, hio, -⟩ := h.not_blocked idx
    rw [Coroutine.maybeResume_of_not_blocked ht hio]
  cases hm with
  | loopNext | loopEnd | pickNone | pickSome | pollSkipped | pollInterrupted =>
      exact h.congr fun _ => rfl
  | expire | polled => exact h.congr fun idx => hscan _ _ idx
  | clean =>
      apply h.congr
      intro idx
      have hne := (h.not_blocked idx).2.2
      simp [Machine.clean, Scheduler.cleanExitedCoroutines, hne]
  | @resumed sp slot coro how hpc hcurrent hresume =>
      apply h.congr
      intro idx
      by_cases he : idx = slot
      · subst he
        simp [enter, hi.resume_eq_ok hcurrent hresume, hi.picked idx hcurrent]
      · simp [enter, he]
  | @yielded sp slot hpc hcurrent =>
      apply h.congr
      intro idx
      by_cases he : idx = slot
      · subst he
        simp [Machine.leave]
      · simp [Machine.leave, he]
  | goFull | goFailed | goCreated | run | slept | suspended | returned => cases hyields

theorem Path.rounds (h : Path (Recorded Step) first turns last) (hi : first.Invariant)
    (hsteady : first.Steady ready) (hne : ready.Nonempty)
    (hyields : ∀ turn ∈ turns, turn.label.action.yields = true) :
    last.Invariant ∧ last.Steady ready ∧ ∃ slots, picked turns = slots.map some ∧
      RoundRobin.Rounds ready first.fair.toNat slots last.fair.toNat := by
  obtain ⟨waiting, hwaiting⟩ := hne
  induction h with
  | nil => exact ⟨hi, hsteady, [], rfl, .nil⟩
  | @snoc turns middle next turn hp hs ih =>
      obtain ⟨hmiddle, hsame, slots, hslots, hrounds⟩ :=
        ih fun other ho => hyields other (List.mem_cons_of_mem _ ho)
      obtain ⟨before, event, after⟩ := turn
      obtain ⟨rfl, rfl, hstep⟩ := hs
      have hyield := hyields _ List.mem_cons_self
      refine ⟨hstep.move.invariant hmiddle, hsame.step hmiddle hstep hyield, ?_⟩
      by_cases hpick : event.action = .pick
      · obtain ⟨slot, hcurrent, hturn⟩ := hstep.picked hpick (hsame.runnable waiting hwaiting)
        simp only [hsame.runnable_iff] at hturn
        have hcons : Machine.picked (⟨before, event, after⟩ :: turns) =
            after.sched.current :: Machine.picked turns := by
          simp [Machine.picked, picks, hpick]
        exact ⟨slot :: slots, by rw [hcons, hslots, hcurrent, List.map_cons], hrounds.snoc hturn⟩
      · have hrun : event.action ≠ .run := by
          intro he
          rw [he] at hyield
          cases hyield
        refine ⟨slots, ?_, ?_⟩
        · simpa [Machine.picked, picks, hpick] using hslots
        · rw [hstep.fair_eq hpick hrun]
          exact hrounds

-- Coroutines that do nothing but yield take turns in a fixed order: in a round each of them has
-- one turn, and the next round goes through them in the same way.
theorem Path.rotates (hfirst : Reachable first) (hsteady : first.Steady ready)
    (hne : ready.Nonempty) (h : Path (Recorded Step) first turns last)
    (hyields : ∀ turn ∈ turns, turn.label.action.yields = true) :
    (∀ newer round older, picked turns = newer ++ (round ++ older) → round.length = ready.card →
      round.Nodup ∧ ∀ idx, some idx ∈ round ↔ idx ∈ ready) ∧
    ∀ i idx, (picked turns)[i + ready.card]? = some (some idx) →
      (picked turns)[i]? = some (some idx) := by
  obtain ⟨-, -, slots, hslots, hrounds⟩ :=
    Path.rounds h (Reachable.holds hfirst) hsteady hne hyields
  rw [hslots]
  constructor
  · intro newer round older hsplit hlen
    obtain ⟨newer, rest, rfl, -, hsplit⟩ := List.map_eq_append_iff.mp hsplit
    obtain ⟨round, older, rfl, rfl, -⟩ := List.map_eq_append_iff.mp hsplit
    obtain ⟨_, _, hround⟩ := RoundRobin.Rounds.window hrounds
    obtain ⟨hnodup, hall⟩ := hround.round (by simpa using hlen)
    refine ⟨hnodup.map (Option.some_injective Slot), fun idx => ?_⟩
    rw [← hall, List.mem_toFinset, List.mem_map_of_injective (Option.some_injective Slot)]
  · intro i idx hget
    rw [List.getElem?_map, Option.map_eq_some_iff] at hget ⊢
    obtain ⟨slot, hget, hslot⟩ := hget
    exact ⟨slot, hrounds.getElem_eq (Finset.card_pos.mpr hne) hget, hslot⟩

-- Two coroutines that play ping-pong.
def twoReady : List Action :=
  [.go 1 7 ⟨4096, some 0x10000, true⟩, .go 2 7 ⟨4096, some 0x40000, true⟩, .run]

def pingPong : List Action :=
  [.loopTest, .clean, .expire 0, .pick, .switch 0x9000, .yield 0x1f000,
    .loopTest, .clean, .expire 1, .pick, .switch 0x9000, .yield 0x4f000,
    .loopTest, .clean, .expire 2, .pick]

theorem Path.rotates_pingPong :
    (picked ((initial.after twoReady).stretch pingPong))[0]? =
      (picked ((initial.after twoReady).stretch pingPong))[2]? := by
  have hfirst := (@after_run twoReady rfl).reachable
  have hpath := @stretch_path (initial.after twoReady) pingPong rfl
  have hsteady : (initial.after twoReady).Steady {0, 1} :=
    ⟨by decide, by decide⟩
  have hlast : (picked ((initial.after twoReady).stretch pingPong))[0 + ({0, 1} :
      Finset Slot).card]? = some (some 0) := rfl
  obtain ⟨-, hperiod⟩ :=
    Path.rotates hfirst hsteady ⟨0, by decide⟩ hpath (by decide)
  rw [hperiod 0 0 hlast]
  exact hlast.symm

end Machine

end Minimk.Runtime
