import Minimk.Runtime.Fairness
import Minimk.Runtime.Phases
import Minimk.Runtime.Wakeup.Theorems
import Mathlib.Data.Fintype.Card

namespace Minimk.Runtime

open Transition

section Scanned

variable {idx : Slot} {coro : Coroutine}

-- Scans leave a blocked coroutine as it is, or make it runnable.
theorem scanned_cases (hblocked : coro.Blocked) (log : List Event) :
    scanned idx log coro = coro ∨ (scanned idx log coro).state = .runnable := by
  induction log with
  | nil => exact .inl rfl
  | cons event log ih =>
      simp only [scanned]
      cases event.scan with
      | none => exact ih
      | some scan =>
          rcases ih with ih | ih
          · rw [ih]
            rcases hblocked with ht | hi
            · simp only [Coroutine.maybeResume_of_timer ht]
              split
              · exact .inr rfl
              · exact .inl rfl
            · simp only [Coroutine.maybeResume_of_io hi]
              split
              · exact .inr rfl
              · exact .inl rfl
          · right
            rw [← ih]
            congr 1
            exact Coroutine.maybeResume_of_not_blocked (by simp [ih]) (by simp [ih])

end Scanned

theorem SlotInvariant.parked_state {coro : Coroutine} {cont : Cont} (h : SlotInvariant coro cont)
    (hc : cont.Parked) : coro.state = .runnable ∨ coro.Blocked := by
  obtain ⟨hidle, hrunning, hreturned⟩ := hc
  cases cont with
  | idle => exact absurd rfl hidle
  | running => exact absurd rfl hrunning
  | returned => exact absurd rfl hreturned
  | fresh | yielded => exact .inl h
  | sleeping =>
      rcases h with h | h
      · exact .inr (.inl h)
      · exact .inl h
  | waiting sock events =>
      rcases h with h | h
      · exact .inr (.inr h.state)
      · exact .inl h.state

namespace Machine

variable {m next first last : Machine} {event : Event} {idx : Slot} {turns : List Machine.Turn}

-- The scan finds the coroutine due: its deadline has passed or an event is there for it.
def Due (coro : Coroutine) (idx : Slot) (event : Event) : Prop :=
  ∃ now revents, event.scan = some (now, revents) ∧
    (coro.deadline ≤ now ∨ coro.state = .blockedOnIo ∧ coro.events &&& revents idx ≠ 0)

-- It is runnable from then on.
theorem Due.scanned {coro : Coroutine} (hstate : coro.state = .runnable ∨ coro.Blocked)
    (h : Due coro idx event) (log : List Event) :
    (scanned idx (event :: log) coro).state = .runnable := by
  have hstays : ∀ other : Coroutine, other.state = .runnable →
      (Runtime.scanned idx [event] other).state = .runnable := by
    intro other hs
    rw [scanned_of_not_blocked (by simp [hs]) (by simp [hs])]
    exact hs
  rw [show event :: log = [event] ++ log from rfl, scanned_append]
  rcases hstate with hstate | hblocked
  · apply hstays
    rw [scanned_of_not_blocked (by simp [hstate]) (by simp [hstate])]
    exact hstate
  · rcases @scanned_cases idx coro hblocked log with hsame | hrunnable
    · obtain ⟨now, revents, hscan, hdue⟩ := h
      rw [hsame]
      simp only [Runtime.scanned, hscan]
      rcases hdue with hdue | ⟨hi, hevents⟩
      · exact Coroutine.maybeResume_of_deadline hblocked hdue
      · rw [Coroutine.maybeResume_of_io hi, if_pos (.inl hevents)]
    · exact hstays _ hrunnable

-- A coroutine that has been picked is the next one to run.
theorem Step.of_picked (h : m.Invariant) (hs : Step m event next) (hc : (m.conts idx).Parked)
    (hcurrent : m.sched.current = some idx) : event.resumes (m.serials idx) = true := by
  have hpc : m.pc = .switch := by
    by_contra hpc
    have hne : m.sched.current ≠ none := by simp [hcurrent]
    have hrunning : m.pc = .coroutine := by
      by_contra hn
      exact hne (h.current.mpr ⟨hpc, hn⟩)
    exact hc.2.1 ((h.running idx).mpr ⟨hrunning, hcurrent⟩)
  have hm := hs.move
  cases hm with
  | @resumed sp slot coro how _ hother _ =>
      obtain rfl : slot = idx := Option.some.inj (hother.symm.trans hcurrent)
      simp [Event.resumes]
  | goFull hother | goFailed hother | goCreated hother =>
      rcases hother with hother | hother <;> simp [hpc] at hother
  | run hother | loopNext hother | loopEnd hother | clean hother | expire hother | pickNone hother
  | pickSome hother | pollSkipped hother | pollInterrupted hother | polled hother
  | yielded hother | slept hother | suspended hother | returned hother => simp [hpc] at hother

-- While it has not run, a coroutine that is off the processor is where it was.
theorem Path.waits_in_slot (h : first.Invariant) (hp : Path (Recorded Step) first turns last)
    (hc : (first.conts idx).Parked)
    (hn : ∀ turn ∈ turns, turn.label.resumes (first.serials idx) = false) :
    last.Invariant ∧ last.conts idx = first.conts idx ∧ last.serials idx = first.serials idx ∧
      last.sched.coroutines idx =
        scanned idx (turns.map fun turn => turn.label) (first.sched.coroutines idx) := by
  refine Path.stays h hp.labels hc ?_
  intro event he
  obtain ⟨turn, hm, rfl⟩ := List.mem_map.mp he
  exact hn turn hm

theorem Path.not_picked (h : first.Invariant) (hp : Path (Recorded Step) first turns last)
    (hc : (first.conts idx).Parked)
    (hn : ∀ turn ∈ turns, turn.label.resumes (first.serials idx) = false)
    (hlast : last.sched.current ≠ some idx) :
    ∀ turn ∈ turns, turn.after.sched.current ≠ some idx := by
  induction hp with
  | nil => exact fun _ hm => absurd hm List.not_mem_nil
  | @snoc turns middle next turn hp hs ih =>
      have hold : ∀ other ∈ turns, other.label.resumes (first.serials idx) = false :=
        fun other ho => hn other (List.mem_cons_of_mem _ ho)
      obtain ⟨hi, hconts, hserials, -⟩ := Path.waits_in_slot h hp hc hold
      obtain ⟨rfl, rfl, hstep⟩ := hs
      have hbefore : turn.before.sched.current ≠ some idx := by
        intro hcurrent
        have hresumes := hstep.of_picked hi (hconts ▸ hc) hcurrent
        rw [hserials, hn turn List.mem_cons_self] at hresumes
        cases hresumes
      intro other hm
      rcases List.mem_cons.mp hm with rfl | hm
      · exact hlast
      · exact ih hold hbefore other hm

-- A runnable coroutine waits for fewer picks than there are slots.
theorem Path.picks_lt (h : first.Invariant) (hp : Path (Recorded Step) first turns last)
    (hc : (first.conts idx).Parked) (hstate : (first.sched.coroutines idx).state = .runnable)
    (hloop : ∀ turn ∈ turns, turn.label.action ≠ .run)
    (hn : ∀ turn ∈ turns, turn.label.resumes (first.serials idx) = false)
    (hlast : last.sched.current ≠ some idx) : (picked turns).length < MAX_COROS := by
  have hready : ∀ turn ∈ turns, picks turn = true →
      (turn.before.sched.coroutines idx).state = .runnable := by
    intro turn hm _
    obtain ⟨newer, older, hturns, hbefore, -⟩ := Transition.Path.up_to hp hm
    have hold : ∀ other ∈ older, other.label.resumes (first.serials idx) = false := by
      intro other ho
      apply hn
      rw [hturns]
      exact List.mem_append_right _ (List.mem_cons_of_mem _ ho)
    obtain ⟨-, -, -, hcoro⟩ := Path.waits_in_slot h hbefore hc hold
    rw [hcoro, scanned_of_not_blocked (by simp [hstate]) (by simp [hstate])]
    exact hstate
  have hpassed := Path.not_picked h hp hc hn hlast
  obtain ⟨slots, hslots, hturns⟩ := Path.turns hp hloop hready fun turn hm _ => hpassed turn hm
  have hmem : idx ∉ slots := by
    intro hm
    exact absurd (hturns.passed.2 idx hm) (Nat.lt_irrefl _)
  have hcard := (List.nodup_cons.mpr ⟨hmem, hturns.nodup⟩).length_le_card
  rw [Fintype.card_fin, List.length_cons] at hcard
  rw [hslots, List.length_map]
  omega

-- A coroutine that is off the processor and may go on, as it is runnable or as a scan has found
-- it due, runs within as many picks as there are slots.
theorem Path.responds {later : List Machine.Turn} (hfirst : Reachable first)
    (hp : Path (Recorded Step) first turns last) (hc : (first.conts idx).Parked)
    (hloop : ∀ turn ∈ turns, turn.label.action ≠ .run)
    (hready : (first.sched.coroutines idx).state = .runnable ∧ later = turns ∨
      ∃ scan earlier, turns = later ++ scan :: earlier ∧
        Due (first.sched.coroutines idx) idx scan.label)
    (hmany : MAX_COROS ≤ (picked later).length) :
    (∃ turn ∈ turns, turn.label.resumes (first.serials idx) = true) ∨
      last.sched.current = some idx := by
  have h := Reachable.holds hfirst
  by_contra hno
  push Not at hno
  obtain ⟨hn, hlast⟩ := hno
  have hn : ∀ turn ∈ turns, turn.label.resumes (first.serials idx) = false :=
    fun turn hm => by simpa using hn turn hm
  rcases hready with ⟨hstate, rfl⟩ | ⟨scan, earlier, rfl, hdue⟩
  · have hfew := Path.picks_lt h hp hc hstate hloop hn hlast
    omega
  · obtain ⟨middle, hbefore, hafter⟩ := Transition.Path.split later hp
    have hold : ∀ turn ∈ scan :: earlier, turn.label.resumes (first.serials idx) = false :=
      fun turn hm => hn turn (List.mem_append_right _ hm)
    obtain ⟨hi, hconts, hserials, hcoro⟩ := Path.waits_in_slot h hbefore hc hold
    have hstate : (middle.sched.coroutines idx).state = .runnable := by
      rw [hcoro]
      exact hdue.scanned ((h.slots idx).parked_state hc) _
    have hfew := Path.picks_lt hi hafter (hconts ▸ hc) hstate
      (fun turn hm => hloop turn (List.mem_append_left _ hm))
      (fun turn hm => hserials ▸ hn turn (List.mem_append_left _ hm)) hlast
    omega

-- A sleeper against a coroutine that only yields: the second round reads the clock late enough,
-- and the rival takes every other turn.
def rivalStarted : List Action :=
  [.go 1 7 ⟨4096, some 0x10000, true⟩, .go 2 7 ⟨4096, some 0x40000, true⟩, .run, .loopTest, .clean,
    .expire 0, .pick, .switch 0x9000, .nanosleep 100 5 0x1f000]

def yieldRound (now sp : UInt64) : List Action :=
  [.loopTest, .clean, .expire now, .pick, .switch 0x9000, .yield sp]

def rivalRounds : List Action :=
  yieldRound 6 0x4f000 ++
    (List.replicate 8 (yieldRound 105 0x1f000 ++ yieldRound 106 0x4f000)).flatten

theorem Path.responds_rivalRounds :
    ∃ turn ∈ (initial.after rivalStarted).stretch rivalRounds, turn.label.resumes 0 = true := by
  have hfirst := (@after_run rivalStarted rfl).reachable
  have hserial : (initial.after rivalStarted).serials 0 = 0 := rfl
  have hsleeping : (initial.after rivalStarted).conts 0 = .sleeping := rfl
  have hparked : ((initial.after rivalStarted).conts 0).Parked := by
    simp [Cont.Parked, hsleeping]
  -- the scan of the second round, by its place in the history
  have hrounds : (Transition.replay performTurn rivalRounds (initial.after rivalStarted)).isSome ∧
      (Transition.outcome performTurn rivalRounds
        (initial.after rivalStarted)).2.sched.current ≠ some 0 ∧
      (((initial.after rivalStarted).stretch rivalRounds)[93]?.map fun turn =>
        turn.label.scan) = some (some (105, fun _ => 0)) ∧
      (∀ turn ∈ (initial.after rivalStarted).stretch rivalRounds, turn.label.action ≠ .run) ∧
      MAX_COROS ≤ (picked (((initial.after rivalStarted).stretch rivalRounds).take 93)).length := by
    decide +kernel
  obtain ⟨hreplay, hlast, hscan, hloop, hmany⟩ := hrounds
  have hpath := @stretch_path (initial.after rivalStarted) rivalRounds hreplay
  obtain ⟨scan, hplace, hscan⟩ := Option.map_eq_some_iff.mp hscan
  obtain ⟨hlt, rfl⟩ := List.getElem?_eq_some_iff.mp hplace
  have hsplit : (initial.after rivalStarted).stretch rivalRounds =
      ((initial.after rivalStarted).stretch rivalRounds).take 93 ++
        ((initial.after rivalStarted).stretch rivalRounds)[93] ::
          ((initial.after rivalStarted).stretch rivalRounds).drop 94 := by
    rw [← List.drop_eq_getElem_cons hlt, List.take_append_drop]
  have hdue : Due ((initial.after rivalStarted).sched.coroutines 0) 0
      ((initial.after rivalStarted).stretch rivalRounds)[93].label :=
    ⟨105, fun _ => 0, hscan, .inl (by decide)⟩
  have hresponds := Path.responds hfirst hpath hparked hloop (.inr ⟨_, _, hsplit, hdue⟩) hmany
  rw [hserial] at hresponds
  exact hresponds.resolve_right hlast

end Machine

end Minimk.Runtime
