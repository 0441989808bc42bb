import Minimk.Runtime.Fairness
import Minimk.Runtime.Phases
import Minimk.Runtime.Safety

namespace Minimk.Runtime

open Abort Transition

namespace Coroutine

variable {coro : Coroutine} {now : UInt64}

-- The coroutine may go on at a clock reading, whatever its socket does.
def Ready (coro : Coroutine) (now : UInt64) : Prop :=
  coro.state = .runnable ∨ coro.Blocked ∧ coro.deadline ≤ now

-- The scan at the top of the loop makes runnable what is ready.
theorem maybeResume_runnable_iff :
    (coro.maybeResume now 0).state = .runnable ↔ coro.Ready now := by
  by_cases ht : coro.state = .blockedOnTimer
  · rw [maybeResume_of_timer ht]
    by_cases hdue : coro.deadline ≤ now <;> simp [Ready, Blocked, ht, hdue]
  · by_cases hi : coro.state = .blockedOnIo
    · rw [maybeResume_of_io hi]
      by_cases hdue : coro.deadline ≤ now <;> simp [Ready, Blocked, hi, hdue]
    · rw [maybeResume_of_not_blocked ht hi]
      simp [Ready, Blocked, ht, hi]

end Coroutine

namespace Machine

variable {m : Machine} {now : UInt64}

-- The machine when a pass through the loop has come to its choice.
def scannedAt (m : Machine) (now : UInt64) : Machine :=
  let cleaned := { m with pc := .clean }.clean.1
  { cleaned with sched := cleaned.sched.maybeExpireDeadlines now, pc := .pick }

def passLog (m : Machine) (now : UInt64) : List Event :=
  [⟨.pick, .silent⟩, ⟨.expire now, .silent⟩, ⟨.clean, m.clean.2⟩, ⟨.loopTest, .silent⟩]

theorem pass_path (hpc : m.pc = .loopTest) (hused : ∃ idx, (m.sched.coroutines idx).state ≠ .null) :
    Path Step m (m.passLog now) (m.scannedAt now).pick := by
  have hcount := Scheduler.countNonnullCoroutines_pos_iff.mpr hused
  have htest : Step m ⟨.loopTest, .silent⟩ { m with pc := .clean } := by
    simp [Step, exec, hpc, hcount]
  have hclean :
      Step { m with pc := .clean } ⟨.clean, m.clean.2⟩ { m with pc := .clean }.clean.1 := by
    simp only [Step, exec, if_true]
    rfl
  have hexpire : Step { m with pc := .clean }.clean.1 ⟨.expire now, .silent⟩ (m.scannedAt now) := by
    simp [Step, exec, scannedAt, Machine.clean]
  have hpick : Step (m.scannedAt now) ⟨.pick, .silent⟩ (m.scannedAt now).pick := by
    simp [Step, exec, scannedAt]
  exact .snoc (.snoc (.snoc (.snoc .nil htest) hclean) hexpire) hpick

theorem scannedAt_coroutines (m : Machine) (now : UInt64) (idx : Slot) :
    (m.scannedAt now).sched.coroutines idx =
      if (m.sched.coroutines idx).state = .exited then .zero
      else (m.sched.coroutines idx).maybeResume now 0 := by
  simp only [scannedAt, Machine.clean, Scheduler.maybeExpireDeadlines, Scheduler.resumeAll,
    Scheduler.cleanExitedCoroutines]
  split_ifs
  · rfl
  · rfl

-- The frames of what is ready are those it had before the pass.
theorem scannedAt_pick_frames {idx : Slot} (hready : (m.sched.coroutines idx).Ready now) :
    (m.scannedAt now).pick.conts idx = m.conts idx ∧
      (m.scannedAt now).pick.serials idx = m.serials idx := by
  have hexited : (m.sched.coroutines idx).state ≠ .exited := by
    intro hs
    simp [Coroutine.Ready, Coroutine.Blocked, hs] at hready
  simp [pick, scannedAt, Machine.clean, hexited]

theorem scannedAt_runnable_iff (m : Machine) (now : UInt64) (idx : Slot) :
    ((m.scannedAt now).sched.coroutines idx).state = .runnable ↔
      (m.sched.coroutines idx).Ready now := by
  rw [scannedAt_coroutines]
  split_ifs with hs
  · simp [Coroutine.Ready, Coroutine.Blocked, Coroutine.zero, hs]
  · exact Coroutine.maybeResume_runnable_iff

theorem scannedAt_null_iff (idle : ∀ idx, ¬(m.sched.coroutines idx).Ready now) :
    (∀ idx, ((m.scannedAt now).sched.coroutines idx).state = .null) ↔
      ∀ idx, ¬(m.sched.coroutines idx).Blocked := by
  refine forall_congr' fun idx => ?_
  have hready := idle idx
  have hrunnable := (m.scannedAt_runnable_iff now idx).not.mpr hready
  rw [scannedAt_coroutines] at hrunnable ⊢
  split_ifs at hrunnable ⊢ with hexited
  · simp [Coroutine.zero, Coroutine.Blocked, hexited]
  · rcases (m.sched.coroutines idx).maybeResume_state now 0 with hsame | hresumed
    · rw [hsame]
      cases hs : (m.sched.coroutines idx).state with
      | null | blockedOnTimer | blockedOnIo => simp [Coroutine.Blocked, hs]
      | exited => exact absurd hs hexited
      | runnable => exact absurd (.inl hs) hready
    · exact absurd hresumed hrunnable

-- The coroutine that a pick returns is switched to. Only one that has never run may still fail
-- the check of its stack pointer, where the kernel has put its stack.
theorem Reachable.switches_or_fails (h : Reachable m) (hpc : m.pc = .switch) {idx : Slot}
    (hcurrent : m.sched.current = some idx) (sp : UInt64) :
    (∃ how next, Step m ⟨.switch sp, .resumed (m.serials idx) how⟩ next ∧ next.pc = .coroutine) ∨
      m.conts idx = .fresh ∧ m.exec (.switch sp) = some (.error .validateStackPointer) := by
  have hi := Reachable.holds h
  obtain ⟨coro, how, hresume⟩ := hi.resume_ok hpc hcurrent
  by_cases hvalid : (m.sched.coroutines idx).validateStackPointer = .ok ()
  · exact .inl ⟨how, m.enter idx coro sp,
      Machine.switch_step hpc hcurrent hvalid hresume sp, rfl⟩
  · have hfails : (m.sched.coroutines idx).validateStackPointer = .error .validateStackPointer := by
      unfold Coroutine.validateStackPointer at hvalid ⊢
      rw [assert_eq_ok_iff] at hvalid
      exact assert_eq_error_iff.mpr ⟨hvalid, rfl⟩
    refine .inr ⟨?_, ?_⟩
    · by_contra hfresh
      have hidle : m.conts idx ≠ .idle := by
        rw [ne_eq, ← (hi.slots idx).null_iff, hi.picked idx hcurrent]
        decide
      exact hvalid (h.landed idx hidle (hi.not_running (by simp [hpc]) idx) hfresh)
    · simp [exec, hpc, switch, hcurrent, hresume, hfails]

theorem poll_step {later : UInt64} {reply : Scheduler.PollReply} (h : m.Invariant)
    (hpc : m.pc = .poll) (hused : ∃ idx, (m.sched.coroutines idx).state ≠ .null)
    (hrc : reply.rc = .success ∨ reply.rc = .eintr) :
    ∃ next, Step m ⟨.poll later reply, .polled (m.sched.pollCall later)⟩ next ∧
      next.pc = .loopTest := by
  have hcount := Scheduler.countNonnullCoroutines_pos_iff.mpr hused
  have hready : ∀ idx, Scheduler.PollReady (m.sched.coroutines idx) := fun idx =>
    (h.slots idx).pollReady
  have hblock := Scheduler.blockOnPoll_eq hready later reply
  rcases hrc with hrc | hrc
  · rw [hrc, if_neg (by simp), if_pos rfl] at hblock
    refine ⟨{ m with sched := m.sched.resumeAll reply.now reply.revents, pc := .loopTest }, ?_, rfl⟩
    simp [Step, exec, hpc, poll, hcount, hblock]
  · rw [hrc, if_pos rfl] at hblock
    refine ⟨{ m with pc := .loopTest }, ?_, rfl⟩
    simp [Step, exec, hpc, poll, hcount, hblock]

-- A pass through the loop finishes what has exited, then it switches to the next coroutine that
-- is ready at the clock reading. If none is ready it polls as long as one is blocked, and else the
-- loop ends without a poll.
theorem Reachable.loop_pass (h : Reachable m) (hpc : m.pc = .loopTest)
    (hused : ∃ idx, (m.sched.coroutines idx).state ≠ .null) (now : UInt64) :
    ∃ chosen, Path Step m (m.passLog now) chosen ∧
      ((∃ idx, (m.sched.coroutines idx).Ready now) → ∃ idx, chosen.sched.current = some idx ∧
        RoundRobin.Pick (fun idx => (m.sched.coroutines idx).Ready now) m.fair.toNat idx
          chosen.fair.toNat ∧
        ∀ sp, (∃ how next, Step chosen ⟨.switch sp, .resumed (m.serials idx) how⟩ next ∧
            next.pc = .coroutine) ∨
          m.conts idx = .fresh ∧
            chosen.exec (.switch sp) = some (.error .validateStackPointer)) ∧
      ((∀ idx, ¬(m.sched.coroutines idx).Ready now) →
        ((∃ idx, (m.sched.coroutines idx).Blocked) → ∀ later reply,
          reply.rc = .success ∨ reply.rc = .eintr →
            ∃ next, Step chosen ⟨.poll later reply, .polled (chosen.sched.pollCall later)⟩ next ∧
              next.pc = .loopTest) ∧
        ((∀ idx, ¬(m.sched.coroutines idx).Blocked) → ∀ later reply,
          ∃ next last, Step chosen ⟨.poll later reply, .silent⟩ next ∧
            Step next ⟨.loopTest, .silent⟩ last ∧ last.pc = .main)) := by
  have hpath := @pass_path m now hpc hused
  have hchosen := h.append hpath
  refine ⟨_, hpath, ?_, ?_⟩
  · rintro ⟨idx, hready⟩
    cases hpick : (m.scannedAt now).sched.pickRunnable (m.scannedAt now).fair with
    | mk current fair =>
        cases current with
        | none =>
            have hnone := Scheduler.pickRunnable_eq_none hpick idx
            exact absurd ((m.scannedAt_runnable_iff now idx).mpr hready) hnone
        | some slot =>
            have hturn := Scheduler.pickRunnable_turn hpick
            have hfair : (m.scannedAt now).fair = m.fair := rfl
            simp only [scannedAt_runnable_iff, hfair] at hturn
            obtain ⟨hconts, hserials⟩ := scannedAt_pick_frames hturn.slot_ready
            refine ⟨slot, by simp [pick, hpick], by simpa [pick, hpick] using hturn, fun sp => ?_⟩
            rw [← hconts, ← hserials]
            exact Reachable.switches_or_fails hchosen (by simp [pick, hpick])
              (by simp [pick, hpick]) sp
  · intro hidle
    have hnone : (m.scannedAt now).pick.pc = .poll ∧
        (m.scannedAt now).pick.sched.coroutines = (m.scannedAt now).sched.coroutines := by
      cases hpick : (m.scannedAt now).sched.pickRunnable (m.scannedAt now).fair with
      | mk current fair =>
          cases current with
          | none => simp [pick, hpick]
          | some slot =>
              have hrunnable := Scheduler.pickRunnable_eq_some hpick
              exact absurd ((m.scannedAt_runnable_iff now slot).mp hrunnable) (hidle slot)
    have hnull := scannedAt_null_iff hidle
    rw [← hnone.2] at hnull
    refine ⟨fun hblocked later reply hrc => ?_, fun hblocked later reply => ?_⟩
    · refine poll_step (Reachable.holds hchosen) hnone.1 ?_ hrc
      by_contra hall
      push Not at hall
      obtain ⟨idx, hidx⟩ := hblocked
      exact hnull.mp hall idx hidx
    · have hall := hnull.mpr hblocked
      have hcount : ¬0 < (m.scannedAt now).pick.sched.countNonnullCoroutines := by
        rw [Scheduler.countNonnullCoroutines_pos_iff]
        rintro ⟨idx, hidx⟩
        exact hidx (hall idx)
      refine ⟨{ (m.scannedAt now).pick with pc := .loopTest },
        { (m.scannedAt now).pick with pc := .main }, ?_, ?_, rfl⟩
      · simp [Step, exec, hnone.1, poll, hcount]
      · simp [Step, exec, hcount]

def sleeperQueued : List Action :=
  [.go 1 7 ⟨4096, some 0x10000, true⟩, .run, .loopTest, .clean, .expire 0, .pick, .switch 0x9000,
    .nanosleep 100 5 0x1f000]

theorem Reachable.loop_pass_sleeperQueued :
    ∃ chosen, Path Step (initial.after sleeperQueued)
        ((initial.after sleeperQueued).passLog 105) chosen ∧
      ∃ how next, Step chosen ⟨.switch 0x9000, .resumed 0 how⟩ next ∧ next.pc = .coroutine := by
  have hreachable := (@after_run sleeperQueued rfl).reachable
  have hused : ∃ idx, ((initial.after sleeperQueued).sched.coroutines idx).state ≠ .null :=
    ⟨0, by decide⟩
  obtain ⟨chosen, hpath, hready, -⟩ :=
    Reachable.loop_pass hreachable rfl hused 105
  have hdue : ((initial.after sleeperQueued).sched.coroutines 0).Ready 105 :=
    .inr ⟨.inl rfl, by decide⟩
  obtain ⟨idx, -, hpick, hswitches⟩ := hready ⟨0, hdue⟩
  have hlone : ∀ idx, ((initial.after sleeperQueued).sched.coroutines idx).Ready 105 →
      idx = 0 := by
    unfold Coroutine.Ready
    decide
  obtain rfl := hlone idx hpick.slot_ready
  rcases hswitches 0x9000 with ⟨how, next, hs, hpc⟩ | ⟨hfresh, -⟩
  · have hserial : (initial.after sleeperQueued).serials 0 = 0 := rfl
    rw [hserial] at hs
    exact ⟨chosen, hpath, how, next, hs, hpc⟩
  · exact absurd hfresh (by decide)

end Machine

end Minimk.Runtime
