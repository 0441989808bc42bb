import Minimk.Runtime.Response
import Minimk.Runtime.StartOrder

namespace Minimk.Runtime.Machine

open Transition

variable {m next first last : Machine} {event : Event} {a b : Slot} {turns : List Machine.Turn}
  {count : Nat}

-- How two sleepers stand to each other before the one in `a` is picked, with the number of picks
-- of `b`: both are asleep, or `a` can run; and once `b` has been picked, it is behind `a`.
inductive InLine (first : Machine) (a b : Slot) (m : Machine) : Nat → Prop
  | asleep (ha : m.sched.coroutines a = first.sched.coroutines a)
      (hb : m.sched.coroutines b = first.sched.coroutines b) : InLine first a b m 0
  | woken (ha : (m.sched.coroutines a).state = .runnable) : InLine first a b m 0
  | behind (ha : (m.sched.coroutines a).state = .runnable)
      (hb : RoundRobin.distance m.fair.toNat a < RoundRobin.distance m.fair.toNat b) :
      InLine first a b m 1

theorem InLine.le_one (h : InLine first a b m count) : count ≤ 1 := by
  cases h <;> omega

-- A coroutine that has not been picked is not switched to.
theorem Step.not_resumes (h : m.Invariant) (hs : Step m event next) (hidle : m.conts a ≠ .idle)
    (hcurrent : m.sched.current ≠ some a) : event.resumes (m.serials a) = false := by
  have hm := hs.move
  cases hm with
  | @resumed sp idx coro how hpc hpicked hresume =>
      have hne : m.serials idx ≠ m.serials a := by
        intro hserial
        obtain ⟨hslot, -, -⟩ := resume_how hresume
        exact hcurrent (h.serial_inj idx a hslot hidle hserial ▸ hpicked)
      simpa [Event.resumes] using hne
  | clean => rfl
  | _ => rfl

theorem Step.current_cases (hs : Step m event next) (hpick : event.action ≠ .pick) :
    next.sched.current = m.sched.current ∨ next.sched.current = none := by
  have hm := hs.move
  cases hm with
  | pickNone | pickSome => exact absurd rfl hpick
  | yielded | slept | suspended | returned => exact .inr rfl
  | goFull | goFailed | goCreated | run | loopNext | loopEnd | clean | expire | pollSkipped
  | pollInterrupted | polled | resumed => exact .inl rfl

theorem Invariant.parked_of_timer (h : m.Invariant)
    (hstate : (m.sched.coroutines a).state = .blockedOnTimer) : (m.conts a).Parked := by
  rw [(h.slots a).sleeping_of_timer hstate]
  simp [Cont.Parked]

theorem Invariant.not_current (h : m.Invariant)
    (hstate : (m.sched.coroutines a).state ≠ .runnable) : m.sched.current ≠ some a :=
  fun hcurrent => hstate (h.picked a hcurrent)

-- The loop goes on while a coroutine is there.
theorem Step.looping (h : m.Invariant) (hs : Step m event next) (hidle : m.conts a ≠ .idle)
    (hpc : m.pc ≠ .main) : next.pc ≠ .main := by
  have hm := hs.move
  cases hm with
  | loopEnd _ hcount => exact absurd ((h.slots a).null_iff.mp (hcount a)) hidle
  | goFull | goFailed | goCreated => exact hpc
  | run | loopNext | clean | expire | pickNone | pickSome | pollSkipped | pollInterrupted | polled
  | resumed | yielded | slept | suspended | returned => nofun

theorem Step.pick_coroutines (hs : Step m event next) (hpick : event.action = .pick) :
    next.sched.coroutines = m.sched.coroutines := by
  have hm := hs.move
  cases hm with
  | pickNone | pickSome => rfl
  | clean => cases hpick
  | _ => cases hpick

-- A scan that wakes a sleeper wakes those that are due before it.
theorem scanned_order {sleeper other : Coroutine} (idx slot : Slot)
    (hsleeper : sleeper.state = .blockedOnTimer) (hother : other.state = .blockedOnTimer)
    (hdeadline : sleeper.deadline ≤ other.deadline) :
    (scanned idx [event] sleeper).state = .runnable ∨
      scanned idx [event] sleeper = sleeper ∧ scanned slot [event] other = other := by
  simp only [scanned]
  cases event.scan with
  | none => exact .inr ⟨rfl, rfl⟩
  | some scan =>
      simp only [Coroutine.maybeResume_of_timer hsleeper, Coroutine.maybeResume_of_timer hother]
      by_cases hdue : sleeper.deadline ≤ scan.1
      · exact .inl (by rw [if_pos hdue])
      · have hlater : ¬other.deadline ≤ scan.1 := fun hle => hdue (UInt64.le_trans hdeadline hle)
        exact .inr ⟨if_neg hdue, if_neg hlater⟩

-- The earlier sleeper is not on the processor yet, and stands to the later one as above.
structure Ahead (first : Machine) (a b : Slot) (m : Machine) (count : Nat) : Prop where
  invariant : m.Invariant
  looping : m.pc ≠ .main
  parked : (m.conts a).Parked
  waiting : m.sched.current ≠ some a
  line : InLine first a b m count

namespace Ahead

variable (h : Ahead first a b m count) (hs : Step m event next)

include h hs

theorem waiting_step (hpassed : event.action = .pick → next.sched.current ≠ some a) :
    next.sched.current ≠ some a := by
  by_cases hpick : event.action = .pick
  · exact hpassed hpick
  · rcases hs.current_cases hpick with hcurrent | hcurrent
    · rw [hcurrent]
      exact h.waiting
    · simp [hcurrent]

theorem stays : Stays m event next a :=
  hs.move.stays h.invariant h.parked (hs.not_resumes h.invariant h.parked.1 h.waiting)

theorem runnable_step (hstate : (m.sched.coroutines a).state = .runnable) :
    (next.sched.coroutines a).state = .runnable := by
  rw [(h.stays hs).coroutine, scanned_of_not_blocked (by simp [hstate]) (by simp [hstate])]
  exact hstate

-- Two sleepers sleep on, or the earlier one is woken.
theorem asleep_step (hsleeps : (m.sched.coroutines a).state = .blockedOnTimer)
    (hother : (m.sched.coroutines b).state = .blockedOnTimer)
    (hdeadline : (m.sched.coroutines a).deadline ≤ (m.sched.coroutines b).deadline) :
    (next.sched.coroutines a).state = .runnable ∨
      next.sched.coroutines a = m.sched.coroutines a ∧
        next.sched.coroutines b = m.sched.coroutines b := by
  have hparked := h.invariant.parked_of_timer hother
  have hquiet := hs.not_resumes h.invariant hparked.1 (h.invariant.not_current (by simp [hother]))
  have hstays := hs.move.stays h.invariant hparked hquiet
  rw [(h.stays hs).coroutine, hstays.coroutine]
  exact scanned_order a b hsleeps hother hdeadline

end Ahead

theorem Ahead.congr (h : Ahead first a b m count) (hs : Step m event next)
    (hpassed : event.action = .pick → next.sched.current ≠ some a) {later : Nat}
    (hline : InLine first a b next later) : Ahead first a b next later where
  invariant := hs.move.invariant h.invariant
  looping := hs.looping h.invariant h.parked.1 h.looping
  parked := (h.stays hs).conts ▸ h.parked
  waiting := h.waiting_step hs hpassed
  line := hline

-- A pick takes the later one once at most, and not before the earlier one can run.
theorem Ahead.pick (h : Ahead first a b m count) (hs : Step m event next)
    (hfirst : (first.sched.coroutines b).state = .blockedOnTimer)
    (hpick : event.action = .pick) (hpassed : next.sched.current ≠ some a) :
    (next.sched.current = some b → (m.sched.coroutines a).state = .runnable) ∧
      Ahead first a b next (count + if next.sched.current = some b then 1 else 0) := by
  have hcoroutines := hs.pick_coroutines hpick
  cases h.line with
  | asleep ha hb =>
      have hother : next.sched.current ≠ some b := by
        apply (hs.move.invariant h.invariant).not_current
        simp [hcoroutines, hb, hfirst]
      rw [if_neg hother]
      refine ⟨fun hcurrent => absurd hcurrent hother, h.congr hs (fun _ => hpassed) ?_⟩
      apply InLine.asleep
      · rw [hcoroutines, ha]
      · rw [hcoroutines, hb]
  | woken ha =>
      obtain ⟨slot, hcurrent, hturn⟩ := hs.picked hpick ha
      have hslot : slot ≠ a := fun he => hpassed (he ▸ hcurrent)
      refine ⟨fun _ => ha, h.congr hs (fun _ => hpassed) ?_⟩
      by_cases hother : slot = b
      · subst hother
        rw [if_pos hcurrent]
        exact .behind (h.runnable_step hs ha) ((hturn.order ha hslot).2 rfl)
      · rw [if_neg (by simp [hcurrent, hother])]
        exact .woken (h.runnable_step hs ha)
  | behind ha hb =>
      obtain ⟨slot, hcurrent, hturn⟩ := hs.picked hpick ha
      have hslot : slot ≠ a := fun he => hpassed (he ▸ hcurrent)
      obtain ⟨hother, hbehind⟩ := (hturn.order ha hslot).1 hb
      refine ⟨fun _ => ha, h.congr hs (fun _ => hpassed) ?_⟩
      rw [if_neg (by simp [hcurrent, hother])]
      exact .behind (h.runnable_step hs ha) hbehind

-- Between picks they keep their places.
theorem Ahead.step (h : Ahead first a b m count) (hs : Step m event next)
    (hsleeps : (first.sched.coroutines a).state = .blockedOnTimer)
    (hother : (first.sched.coroutines b).state = .blockedOnTimer)
    (hdeadline : (first.sched.coroutines a).deadline ≤ (first.sched.coroutines b).deadline)
    (hpick : event.action ≠ .pick) : Ahead first a b next count := by
  refine h.congr hs (fun hp => absurd hp hpick) ?_
  cases h.line with
  | asleep ha hb =>
      rcases h.asleep_step (b := b) hs (ha ▸ hsleeps) (hb ▸ hother) (ha ▸ hb ▸ hdeadline) with
        hwoken | ⟨hsame, hsame'⟩
      · exact .woken hwoken
      · exact .asleep (hsame.trans ha) (hsame'.trans hb)
  | woken ha => exact .woken (h.runnable_step hs ha)
  | behind ha hb =>
      have hrun : event.action ≠ .run := by
        intro he
        have hm := hs.move
        cases hm with
        | run hpc => exact h.looping hpc
        | clean => cases he
        | _ => cases he
      refine .behind (h.runnable_step hs ha) ?_
      rw [hs.fair_eq hpick hrun]
      exact hb

theorem Path.ahead (hahead : Ahead first a b first 0)
    (hsleeps : (first.sched.coroutines a).state = .blockedOnTimer)
    (hother : (first.sched.coroutines b).state = .blockedOnTimer)
    (hdeadline : (first.sched.coroutines a).deadline ≤ (first.sched.coroutines b).deadline)
    (hp : Path (Recorded Step) first turns last)
    (hpassed : ∀ turn ∈ turns, picks turn = true → turn.after.sched.current ≠ some a) :
    Ahead first a b last ((picked turns).count (some b)) ∧
      ∀ turn ∈ turns, picks turn = true → turn.after.sched.current = some b →
        (turn.before.sched.coroutines a).state = .runnable := by
  induction hp with
  | nil => exact ⟨hahead, fun _ hm => absurd hm List.not_mem_nil⟩
  | @snoc turns middle next turn hp hs ih =>
      obtain ⟨hmiddle, hold⟩ := ih fun other ho => hpassed other (List.mem_cons_of_mem _ ho)
      have hlast := hpassed turn List.mem_cons_self
      obtain ⟨before, event, after⟩ := turn
      obtain ⟨rfl, rfl, hstep⟩ := hs
      simp only [List.forall_mem_cons]
      by_cases hpick : event.action = .pick
      · have hp : picks ⟨before, event, after⟩ = true := by simpa [picks] using hpick
        have hcount : (picked (⟨before, event, after⟩ :: turns)).count (some b) =
            (picked turns).count (some b) + if after.sched.current = some b then 1 else 0 := by
          simp [picked, hp, List.count_cons]
        obtain ⟨hready, hnext⟩ := hmiddle.pick hstep hother hpick (hlast hp)
        rw [hcount]
        exact ⟨hnext, fun _ => hready, hold⟩
      · have hp : picks ⟨before, event, after⟩ = false := by simpa [picks] using hpick
        have hcount : picked (⟨before, event, after⟩ :: turns) = picked turns := by
          simp [picked, hp]
        rw [hcount]
        refine ⟨hmiddle.step hstep hsleeps hother hdeadline hpick, ?_, hold⟩
        intro hyes
        simp [hp] at hyes

-- Of two sleepers the one that is due first can run when the other one is picked, and is passed
-- over by it once at most.
theorem Path.sleeps_in_order (hfirst : Reachable first)
    (hp : Path (Recorded Step) first turns last)
    (hsleeps : (first.sched.coroutines a).state = .blockedOnTimer)
    (hother : (first.sched.coroutines b).state = .blockedOnTimer)
    (hdeadline : (first.sched.coroutines a).deadline ≤ (first.sched.coroutines b).deadline)
    (hpassed : ∀ turn ∈ turns, picks turn = true → turn.after.sched.current ≠ some a) :
    (∀ turn ∈ turns, picks turn = true → turn.after.sched.current = some b →
      (turn.before.sched.coroutines a).state = .runnable) ∧
    (picked turns).count (some b) ≤ 1 := by
  have h := Reachable.holds hfirst
  have hlooping : first.pc ≠ .main := by
    intro hpc
    obtain ⟨base, count, hq⟩ := Reachable.queued hfirst hpc
    have hslot := (h.slots a).sleeping_of_timer hsleeps
    by_cases hlt : a.val < count
    · rw [(hq.fresh a hlt).1] at hslot
      cases hslot
    · rw [hq.idle a (by omega)] at hslot
      cases hslot
  have hahead : Ahead first a b first 0 :=
    ⟨h, hlooping, h.parked_of_timer hsleeps, h.not_current (by simp [hsleeps]), .asleep rfl rfl⟩
  obtain ⟨hlast, hready⟩ := Path.ahead hahead hsleeps hother hdeadline hp hpassed
  exact ⟨hready, hlast.line.le_one⟩

-- The coroutine in the first slot sleeps longer than the second one, and is picked before it
-- when both are woken at once.
def twoSleepers : List Action :=
  [.go 1 7 ⟨4096, some 0x10000, true⟩, .go 2 7 ⟨4096, some 0x40000, true⟩, .run,
    .loopTest, .clean, .expire 0, .pick, .switch 0x9000, .nanosleep 300 10 0x1f000,
    .loopTest, .clean, .expire 20, .pick, .switch 0x9000, .nanosleep 100 30 0x4f000]

def lateScan : List Action :=
  [.loopTest, .clean, .expire 900, .pick, .switch 0x9000, .yield 0x1f000, .loopTest, .clean,
    .expire 1000]

theorem Path.sleeps_in_order_lateScan :
    (picked ((initial.after twoSleepers).stretch lateScan)).count (some 0) = 1 := by
  have hfirst := (@after_run twoSleepers rfl).reachable
  have hpath := @stretch_path (initial.after twoSleepers) lateScan rfl
  have horder := Path.sleeps_in_order (a := 1) (b := 0) hfirst hpath rfl rfl
    (by decide) (by decide)
  exact Nat.le_antisymm horder.2 (by rfl)

end Minimk.Runtime.Machine
