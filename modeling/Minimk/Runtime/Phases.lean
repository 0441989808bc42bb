import Minimk.Runtime.Machine.Invariant

namespace Minimk.Runtime

namespace Coroutine

variable {coro : Coroutine} {now : UInt64} {revents : Int16}

def Blocked (coro : Coroutine) : Prop :=
  coro.state = .blockedOnTimer ∨ coro.state = .blockedOnIo

instance (coro : Coroutine) : Decidable coro.Blocked :=
  inferInstanceAs (Decidable (_ ∨ _))

theorem maybeResume_state (coro : Coroutine) (now : UInt64) (revents : Int16) :
    (coro.maybeResume now revents).state = coro.state ∨
      (coro.maybeResume now revents).state = .runnable := by
  unfold maybeResume
  split
  · exact .inr rfl
  · split
    · exact .inr rfl
    · exact .inl rfl

theorem maybeResume_of_deadline (h : coro.Blocked) (hdue : coro.deadline ≤ now) :
    (coro.maybeResume now revents).state = .runnable := by
  rcases h with ht | hi
  · rw [maybeResume_of_timer ht, if_pos hdue]
  · rw [maybeResume_of_io hi, if_pos (.inr hdue)]

end Coroutine

namespace Machine

variable {m next : Machine} {event : Event}

-- Which states the slots can be in at the statements of the run loop: a coroutine that has
-- exited is finished before anything else runs, and poll waits for the blocked ones only.
structure Phases (m : Machine) : Prop where
  exited : ∀ idx, (m.sched.coroutines idx).state = .exited → m.pc = .loopTest ∨ m.pc = .clean
  runnable : ∀ idx, (m.sched.coroutines idx).state = .runnable → m.pc ≠ .poll

namespace Phases

variable {idx : Slot} {coro : Coroutine}

theorem not_exited (h : m.Phases) (hloop : m.pc ≠ .loopTest) (hclean : m.pc ≠ .clean)
    (idx : Slot) : (m.sched.coroutines idx).state ≠ .exited := by
  intro hs
  rcases h.exited idx hs with hpc | hpc
  · exact hloop hpc
  · exact hclean hpc

-- A step that leaves the poll aside and puts nothing but a coroutine in use into a slot.
theorem set_slot (h : m.Phases) (hloop : m.pc ≠ .loopTest) (hclean : m.pc ≠ .clean)
    (hpoll : next.pc ≠ .poll) (hcoro : coro.state ≠ .exited)
    (hslots : next.sched.coroutines = Function.update m.sched.coroutines idx coro) :
    next.Phases where
  exited := by
    intro i hs
    rw [hslots] at hs
    by_cases he : i = idx
    · subst he
      rw [Function.update_self] at hs
      exact absurd hs hcoro
    · rw [Function.update_of_ne he] at hs
      exact absurd hs (h.not_exited hloop hclean i)
  runnable := fun _ _ => hpoll

-- A step whose next statement is the test of the loop.
theorem loop_test (hnext : next.pc = .loopTest) : next.Phases where
  exited := fun _ _ => .inl hnext
  runnable := fun _ _ => by simp [hnext]

end Phases

theorem initial_phases : initial.Phases where
  exited := by simp [initial, Coroutine.zero]
  runnable := by simp [initial]

theorem Move.phases (hm : Move m event next) (hi : m.Invariant) (h : m.Phases) :
    next.Phases := by
  cases hm with
  | goFull => exact h
  | goFailed hpc hnull hcoro _ =>
      rcases hpc with hpc | hpc <;>
        exact h.set_slot (by simp [hpc]) (by simp [hpc]) (by simp [hpc]) (by simp [hcoro]) rfl
  | goCreated hpc hnull hcoro _ _ _ =>
      rcases hpc with hpc | hpc <;>
        exact h.set_slot (by simp [hpc]) (by simp [hpc]) (by simp [spawn, hpc])
          (by simp [hcoro]) rfl
  | run | pollSkipped | pollInterrupted | polled | yielded | slept | suspended | returned =>
      exact .loop_test rfl
  | loopNext => exact ⟨fun _ _ => .inr rfl, fun _ _ => by simp⟩
  | loopEnd _ hcount =>
      refine ⟨?_, fun _ _ => by simp⟩
      intro idx hs
      simp [hcount idx] at hs
  | clean =>
      refine ⟨?_, fun _ _ => by simp [Machine.clean]⟩
      intro idx hs
      by_cases he : (m.sched.coroutines idx).state = .exited
      · simp [Machine.clean, Scheduler.cleanExitedCoroutines, he, Coroutine.finish,
          Coroutine.zero] at hs
      · simp [Machine.clean, Scheduler.cleanExitedCoroutines, he] at hs
  | @expire now hpc =>
      refine ⟨?_, fun _ _ => by simp⟩
      intro idx hs
      have hold := h.not_exited (by simp [hpc]) (by simp [hpc]) idx
      rcases (m.sched.coroutines idx).maybeResume_state now 0 with hstate | hstate
      · exact absurd (hstate.symm.trans hs) hold
      · simp [Scheduler.resumeAll, hstate] at hs
  | pickNone hpc hpick =>
      refine ⟨?_, ?_⟩
      · intro idx hs
        exact absurd hs (h.not_exited (by simp [hpc]) (by simp [hpc]) idx)
      · intro idx hs
        exact absurd hs (Scheduler.pickRunnable_eq_none hpick idx)
  | pickSome hpc _ =>
      refine ⟨?_, fun _ _ => by simp⟩
      intro idx hs
      exact absurd hs (h.not_exited (by simp [hpc]) (by simp [hpc]) idx)
  | resumed hpc hcurrent hr =>
      have hstate := hi.resume_eq_ok hcurrent hr
      exact h.set_slot (by simp [hpc]) (by simp [hpc]) (by simp [enter]) (by simp [hstate]) rfl

theorem Reachable.phases (h : Reachable m) : m.Phases := by
  obtain ⟨log, hr⟩ := h
  refine Transition.Run.invariant_from (P := fun _ m => m.Phases) ?_ ?_ hr
  · exact initial_phases
  · intro log m event next hrun ih hs
    exact hs.move.phases (Reachable.holds hrun.reachable) ih

end Machine

end Minimk.Runtime
