import Minimk.Runtime.Machine.Invariant

namespace Minimk.Runtime

open Transition

namespace Machine

variable {m next first last : Machine} {event : Event} {i : Slot}

-- A step of the loop with the machines around it.
abbrev Turn := Transition.Turn Machine Event

def picks (turn : Turn) : Bool := turn.label.action = .pick

-- What the calls of the picker in a stretch returned, latest first.
def picked (turns : List Turn) : List (Option Slot) :=
  (turns.filter picks).map fun turn => turn.after.sched.current

theorem Step.fair_eq (h : Step m event next) (hpick : event.action ≠ .pick)
    (hrun : event.action ≠ .run) : next.fair = m.fair := by
  have hm := h.move
  cases hm with
  | run => exact absurd rfl hrun
  | pickNone | pickSome => exact absurd rfl hpick
  | _ => rfl

-- A pick that passes over a runnable slot returns another one.
theorem Step.picked (h : Step m event next) (hpick : event.action = .pick)
    (hready : (m.sched.coroutines i).state = .runnable) :
    ∃ slot, next.sched.current = some slot ∧
      RoundRobin.Pick (fun idx => (m.sched.coroutines idx).state = .runnable) m.fair.toNat slot
        next.fair.toNat := by
  have hm := h.move
  cases hm with
  | pickNone _ hnone => exact absurd hready (Scheduler.pickRunnable_eq_none hnone i)
  | @pickSome fair slot _ hsome => exact ⟨slot, rfl, Scheduler.pickRunnable_turn hsome⟩
  | clean => cases hpick
  | _ => cases hpick

theorem Path.turns {turns : List Turn} (h : Path (Recorded Step) first turns last)
    (hloop : ∀ turn ∈ turns, turn.label.action ≠ .run)
    (hready : ∀ turn ∈ turns, picks turn = true →
      (turn.before.sched.coroutines i).state = .runnable)
    (hpassed : ∀ turn ∈ turns, picks turn = true → turn.after.sched.current ≠ some i) :
    ∃ slots, picked turns = slots.map some ∧
      RoundRobin.Turns i first.fair.toNat slots last.fair.toNat := by
  induction h with
  | nil => exact ⟨[], rfl, .nil⟩
  | @snoc turns middle next turn hp hs ih =>
      obtain ⟨slots, hslots, hturns⟩ := ih
        (fun other ho => hloop other (List.mem_cons_of_mem _ ho))
        (fun other ho => hready other (List.mem_cons_of_mem _ ho))
        (fun other ho => hpassed other (List.mem_cons_of_mem _ ho))
      obtain ⟨before, event, after⟩ := turn
      obtain ⟨rfl, rfl, hstep⟩ := hs
      have hmem : (⟨before, event, after⟩ : Turn) ∈ ⟨before, event, after⟩ :: turns :=
        List.mem_cons_self
      by_cases hpick : event.action = .pick
      · have hp : picks ⟨before, event, after⟩ = true := by simpa [picks] using hpick
        have hwait := hready _ hmem hp
        obtain ⟨slot, hcurrent, hturn⟩ := hstep.picked hpick hwait
        have hne : slot ≠ i := by
          rintro rfl
          exact hpassed _ hmem hp hcurrent
        refine ⟨slot :: slots, ?_, hturns.snoc hturn hwait hne⟩
        have hcons : Machine.picked (⟨before, event, after⟩ :: turns) =
            after.sched.current :: Machine.picked turns := by
          simp [Machine.picked, hp]
        rw [hcons, hslots, hcurrent, List.map_cons]
      · have hp : picks ⟨before, event, after⟩ = false := by simpa [picks] using hpick
        have hfair := hstep.fair_eq hpick (hloop _ hmem)
        refine ⟨slots, ?_, ?_⟩
        · simpa [Machine.picked, hp] using hslots
        · rw [hfair]
          exact hturns

-- A runnable coroutine is not passed over while another one runs twice.
theorem Path.no_overtaking {turns : List Turn} (h : Path (Recorded Step) first turns last)
    (hloop : ∀ turn ∈ turns, turn.label.action ≠ .run)
    (hready : ∀ turn ∈ turns, picks turn = true →
      (turn.before.sched.coroutines i).state = .runnable)
    (hpassed : ∀ turn ∈ turns, picks turn = true → turn.after.sched.current ≠ some i) :
    (∀ turn ∈ turns, picks turn = true → ∃ slot, turn.after.sched.current = some slot ∧
      (turn.before.sched.coroutines slot).state = .runnable) ∧ (picked turns).Nodup := by
  obtain ⟨slots, hslots, hturns⟩ := Path.turns h hloop hready hpassed
  refine ⟨?_, ?_⟩
  · intro turn hm hp
    obtain ⟨_, _, -, -, hstep⟩ := Transition.Path.up_to h hm
    have hpick : turn.label.action = .pick := by simpa [picks] using hp
    obtain ⟨slot, hcurrent, hturn⟩ := Step.picked hstep hpick (hready turn hm hp)
    exact ⟨slot, hcurrent, hturn.slot_ready⟩
  · rw [hslots]
    exact List.Nodup.map (Option.some_injective Slot) hturns.nodup

-- The steps of a scripted stretch.
def performTurn (m : Machine) (action : Action) : Option (Turn × Machine) :=
  (m.perform action).map fun result => (⟨m, result.1, result.2⟩, result.2)

def stretch (m : Machine) (actions : List Action) : List Turn :=
  (Transition.outcome performTurn actions m).1

theorem stretch_path {actions : List Action}
    (h : (Transition.replay performTurn actions m).isSome) :
    Path (Recorded Step) m (m.stretch actions) (Transition.outcome performTurn actions m).2 := by
  refine @Transition.outcome_turns _ _ _ _ perform ?_ _ _ h
  exact fun _ _ _ _ => perform_step

-- Three coroutines, of which the third waits while the first two have a turn each.
def threeReady : List Action :=
  [.go 1 7 ⟨4096, some 0x10000, true⟩, .go 2 7 ⟨4096, some 0x40000, true⟩,
    .go 3 7 ⟨4096, some 0x70000, true⟩, .run]

def twoTurns : List Action :=
  [.loopTest, .clean, .expire 0, .pick, .switch 0x9000, .yield 0x1f000,
    .loopTest, .clean, .expire 1, .pick]

theorem Path.no_overtaking_twoTurns :
    (picked ((initial.after threeReady).stretch twoTurns)).Nodup := by
  have hpath := @stretch_path (initial.after threeReady) twoTurns rfl
  exact (Path.no_overtaking (i := 2) hpath (by decide) (by decide)
    (by decide)).2

end Machine

end Minimk.Runtime
