import Minimk.Runtime.Machine.Invariant

namespace Minimk.Runtime

open Abort Integer

theorem Coroutine.maybeResume_validate (coro : Coroutine) (now : UInt64) (revents : Int16) :
    (coro.maybeResume now revents).validateStackPointer = coro.validateStackPointer := by
  unfold maybeResume
  split_ifs <;> rfl

namespace Machine

variable {m next : Machine} {event : Event} {idx : Slot}

theorem coroutineYield_valid {coro : Coroutine} {cont : Cont} {sp : UInt64} {output : Output}
    (hcurrent : m.sched.current = some idx)
    (h : { m with sched := m.sched.set idx coro }.coroutineYield cont sp = .ok (next, output)) :
    (next.sched.coroutines idx).validateStackPointer = .ok () := by
  obtain ⟨rfl, -⟩ := coroutineYield_eq_ok hcurrent h
  simp only [coroutineYield, Scheduler.set_current, hcurrent, Scheduler.set_coroutines,
    Function.update_self] at h
  obtain ⟨_, hvalid, -⟩ := (bind_eq_ok_iff _ _ _).mp h
  simpa [Machine.leave] using hvalid

-- Whatever the call, the code checks the stack pointer it has stored before it switches away.
theorem Step.left_valid {action : Action} {serial : Nat}
    (hs : Step m ⟨action, .left serial⟩ next) (hcurrent : m.sched.current = some idx) :
    (next.sched.coroutines idx).validateStackPointer = .ok () := by
  have hm := hs.move
  have hexec : m.exec action = some (.ok (next, .left serial)) := hs
  generalize hev : (⟨action, .left serial⟩ : Event) = event at hm
  cases hm with
  | @yielded sp slot hpc _ =>
      cases hev
      have hyielded := Option.some.inj ((if_pos hpc).symm.trans hexec)
      have hself : { m with sched := m.sched.set idx (m.sched.coroutines idx) } = m := by
        simp [Scheduler.set]
      apply coroutineYield_valid hcurrent
      rw [hself]
      exact hyielded
  | slept hpc _ =>
      cases hev
      have hslept := Option.some.inj ((if_pos hpc).symm.trans hexec)
      simp only [coroutineSuspendTimer, hcurrent] at hslept
      exact coroutineYield_valid hcurrent hslept
  | suspended hpc _ _ _ =>
      cases hev
      have hsuspended := Option.some.inj ((if_pos hpc).symm.trans hexec)
      simp only [coroutineSuspendIo, hcurrent] at hsuspended
      obtain ⟨coro, -, hsuspended⟩ := (bind_eq_ok_iff _ _ _).mp hsuspended
      exact coroutineYield_valid hcurrent hsuspended
  | returned hpc _ =>
      cases hev
      have hreturned := Option.some.inj ((if_pos hpc).symm.trans hexec)
      simp only [coroutineMainExit, hcurrent] at hreturned
      exact coroutineYield_valid hcurrent hreturned
  | clean => cases hev
  | _ => cases hev

-- Every coroutine that has once switched away left its stack pointer inside its stack.
def Landed (m : Machine) : Prop :=
  ∀ idx, m.conts idx ≠ .idle → m.conts idx ≠ .running → m.conts idx ≠ .fresh →
    (m.sched.coroutines idx).validateStackPointer = .ok ()

theorem Landed.leave {slot : Slot} {coro : Coroutine} {cont : Cont} {sp : UInt64}
    (h : m.Landed)
    (hvalid : ((m.leave slot coro cont sp).sched.coroutines slot).validateStackPointer = .ok ()) :
    (m.leave slot coro cont sp).Landed := by
  intro idx hidle hrunning hfresh
  by_cases he : idx = slot
  · subst he
    exact hvalid
  · simp only [Machine.leave, Function.update_of_ne he] at hidle hrunning hfresh
    simpa [Machine.leave, he] using h idx hidle hrunning hfresh

theorem Step.landed (hs : Step m event next) (h : m.Invariant) (hl : m.Landed) :
    next.Landed := by
  have hm := hs.move
  cases hm with
  | goFull | run | loopNext | loopEnd | pickNone | pickSome | pollSkipped | pollInterrupted =>
      exact hl
  | @goFailed _ _ _ slot _ _ _ hnull _ _ =>
      intro idx hidle hrunning hfresh
      have hne : idx ≠ slot := by
        rintro rfl
        exact hidle ((h.slots idx).null_iff.mp hnull)
      simpa [hne] using hl idx hidle hrunning hfresh
  | @goCreated _ _ _ slot =>
      intro idx hidle hrunning hfresh
      by_cases he : idx = slot
      · subst he
        simp [spawn] at hfresh
      · simp only [spawn, Function.update_of_ne he] at hidle hrunning hfresh
        simpa [spawn, he] using hl idx hidle hrunning hfresh
  | clean =>
      intro idx hidle hrunning hfresh
      have hne : (m.sched.coroutines idx).state ≠ .exited := by
        intro hexited
        simp [Machine.clean, hexited] at hidle
      simp only [Machine.clean, hne, ↓reduceIte] at hidle hrunning hfresh
      simpa [Machine.clean, Scheduler.cleanExitedCoroutines, hne] using hl idx hidle hrunning hfresh
  | expire | polled =>
      intro idx hidle hrunning hfresh
      simp only [Scheduler.resumeAll, Coroutine.maybeResume_validate]
      exact hl idx hidle hrunning hfresh
  | @resumed _ slot =>
      intro idx hidle hrunning hfresh
      by_cases he : idx = slot
      · subst he
        simp [enter] at hrunning
      · simp only [enter, Function.update_of_ne he] at hidle hrunning hfresh
        simpa [enter, he] using hl idx hidle hrunning hfresh
  | yielded _ hcurrent | slept _ hcurrent | suspended _ hcurrent _ _ | returned _ hcurrent =>
      exact hl.leave (hs.left_valid hcurrent)

theorem Reachable.landed (h : Reachable m) : m.Landed := by
  have hboth : m.Invariant ∧ m.Landed := by
    refine Transition.Reachable.invariant_from (P := fun m => m.Invariant ∧ m.Landed) ?_ ?_ h
    · exact ⟨initial_invariant, fun _ hidle => absurd rfl hidle⟩
    · rintro _ _ _ ⟨hi, hl⟩ hs
      exact ⟨hs.move.invariant hi, hs.landed hi hl⟩
  exact hboth.2

-- The coroutine that was picked is runnable, so its own frames find the fields they check.
theorem Invariant.resume_ok (h : m.Invariant) (hpc : m.pc = .switch)
    (hcurrent : m.sched.current = some idx) :
    ∃ coro how, m.resume idx = some (.ok (coro, how)) := by
  have hstate := h.picked idx hcurrent
  have hslot := h.slots idx
  unfold resume
  cases hc : m.conts idx with
  | fresh =>
      refine ⟨m.sched.coroutines idx, .entryStarts (m.sched.coroutines idx).entry
        (m.sched.coroutines idx).argument, ?_⟩
      simp [hcurrent]
  | yielded => exact ⟨_, _, rfl⟩
  | sleeping => exact ⟨_, _, rfl⟩
  | waiting sock events =>
      rw [hc] at hslot
      rcases hslot with hw | hw
      · simp [hw.state] at hstate
      · refine ⟨{ m.sched.coroutines idx with revents := 0 },
          .suspendIoReturns (Coroutine.ioResult (m.sched.coroutines idx).revents events), ?_⟩
        simp [Coroutine.resumeIo_eq hw.deadline hw.sock hw.events]
  | idle | returned =>
      rw [hc] at hslot
      have hs : (m.sched.coroutines idx).state = _ := hslot
      rw [hs] at hstate
      cases hstate
  | running => exact absurd hc (h.not_running (by simp [hpc]) idx)

theorem switch_step {coro : Coroutine} {how : Resumed} (hpc : m.pc = .switch)
    (hcurrent : m.sched.current = some idx)
    (hvalid : (m.sched.coroutines idx).validateStackPointer = .ok ())
    (hresume : m.resume idx = some (.ok (coro, how))) (sp : UInt64) :
    Step m ⟨.switch sp, .resumed (m.serials idx) how⟩ (m.enter idx coro sp) := by
  simp [Step, exec, hpc, switch, hcurrent, hresume, hvalid, enter]

-- A coroutine that has run before goes on where it left as soon as it is picked.
theorem Reachable.switch_step (h : Reachable m) (hpc : m.pc = .switch)
    (hcurrent : m.sched.current = some idx) (hfresh : m.conts idx ≠ .fresh) (sp : UInt64) :
    ∃ coro how, m.resume idx = some (.ok (coro, how)) ∧
      Step m ⟨.switch sp, .resumed (m.serials idx) how⟩ (m.enter idx coro sp) := by
  have hi := Reachable.holds h
  obtain ⟨coro, how, hresume⟩ := hi.resume_ok hpc hcurrent
  have hidle : m.conts idx ≠ .idle := by
    rw [ne_eq, ← (hi.slots idx).null_iff, hi.picked idx hcurrent]
    decide
  have hvalid := h.landed idx hidle (hi.not_running (by simp [hpc]) idx) hfresh
  exact ⟨coro, how, hresume, Machine.switch_step hpc hcurrent hvalid hresume sp⟩

end Machine

end Minimk.Runtime
