import Minimk.Runtime.Machine.Moves

namespace Minimk.Runtime

open Abort Integer

-- A coroutine that waits for its socket, as its own frames remember the call.
structure Waiting (coro : Coroutine) (sock : Int32) (events : Int16) : Prop where
  state : coro.state = .blockedOnIo
  sock_eq : coro.sock = sock
  events_eq : coro.events = events
  sock_ne : sock ≠ invalidSocket
  events_ne : events ≠ 0
  revents : coro.revents = 0

-- A coroutine that a scan has woken from its socket and that has not run since.
structure Woken (coro : Coroutine) : Prop where
  state : coro.state = .runnable
  deadline : coro.deadline = 0
  sock : coro.sock = invalidSocket
  events : coro.events = 0

def SlotInvariant (coro : Coroutine) : Cont → Prop
  | .idle => coro.state = .null
  | .running | .fresh | .yielded => coro.state = .runnable
  | .sleeping => coro.state = .blockedOnTimer ∨ coro.state = .runnable
  | .waiting sock events => Waiting coro sock events ∨ Woken coro
  | .returned => coro.state = .exited

theorem Direction.events_ne_zero (direction : Direction) : direction.events ≠ 0 := by
  cases direction <;> decide

namespace SlotInvariant

variable {coro : Coroutine} {cont : Cont}

theorem null_iff (h : SlotInvariant coro cont) : coro.state = .null ↔ cont = .idle := by
  cases cont with
  | sleeping => rcases h with h | h <;> simp [h]
  | waiting sock events => rcases h with h | h <;> simp [h.state]
  | idle | running | fresh | yielded | returned => simp_all [SlotInvariant]

theorem exited_iff (h : SlotInvariant coro cont) : coro.state = .exited ↔ cont = .returned := by
  cases cont with
  | sleeping => rcases h with h | h <;> simp [h]
  | waiting sock events => rcases h with h | h <;> simp [h.state]
  | idle | running | fresh | yielded | returned => simp_all [SlotInvariant]

theorem waiting_of_io (h : SlotInvariant coro cont) (hs : coro.state = .blockedOnIo) :
    ∃ sock events, cont = .waiting sock events ∧ Waiting coro sock events := by
  cases cont with
  | waiting sock events =>
      rcases h with h | h
      · exact ⟨sock, events, rfl, h⟩
      · simp [h.state] at hs
  | sleeping => rcases h with h | h <;> simp [h] at hs
  | idle | running | fresh | yielded | returned => simp_all [SlotInvariant]

theorem sleeping_of_timer (h : SlotInvariant coro cont) (hs : coro.state = .blockedOnTimer) :
    cont = .sleeping := by
  cases cont with
  | sleeping => rfl
  | waiting sock events => rcases h with h | h <;> simp [h.state] at hs
  | idle | running | fresh | yielded | returned => simp_all [SlotInvariant]

theorem maybeResume (h : SlotInvariant coro cont) (now : UInt64) (revents : Int16) :
    SlotInvariant (coro.maybeResume now revents) cont := by
  by_cases ht : coro.state = .blockedOnTimer
  · obtain rfl := h.sleeping_of_timer ht
    rw [Coroutine.maybeResume_of_timer ht]
    split
    · exact .inr rfl
    · exact .inl ht
  by_cases hi : coro.state = .blockedOnIo
  · obtain ⟨sock, events, rfl, hw⟩ := h.waiting_of_io hi
    rw [Coroutine.maybeResume_of_io hi]
    split
    · exact .inr ⟨rfl, rfl, rfl, rfl⟩
    · exact .inl hw
  · rwa [Coroutine.maybeResume_of_not_blocked ht hi]

theorem pollReady (h : SlotInvariant coro cont) : Scheduler.PollReady coro := by
  intro hs
  obtain ⟨sock, events, -, hw⟩ := h.waiting_of_io hs
  exact ⟨hw.sock_eq ▸ hw.sock_ne, hw.events_eq ▸ hw.events_ne, hw.revents⟩

end SlotInvariant

namespace Machine

structure Invariant (m : Machine) : Prop where
  slots : ∀ idx, SlotInvariant (m.sched.coroutines idx) (m.conts idx)
  running : ∀ idx, m.conts idx = .running ↔ m.pc = .coroutine ∧ m.sched.current = some idx
  current : m.sched.current = none ↔ m.pc ≠ .switch ∧ m.pc ≠ .coroutine
  picked : ∀ idx, m.sched.current = some idx → (m.sched.coroutines idx).state = .runnable
  serial_lt : ∀ idx, m.conts idx ≠ .idle → m.serials idx < m.spawned
  serial_inj : ∀ i j, m.conts i ≠ .idle → m.conts j ≠ .idle → m.serials i = m.serials j → i = j

theorem initial_invariant : initial.Invariant where
  slots := fun _ => rfl
  running := by simp [initial]
  current := by simp [initial]
  picked := by simp [initial]
  serial_lt := by simp [initial]
  serial_inj := by simp [initial]

namespace Invariant

variable {m next : Machine} {idx : Slot}

theorem current_none (h : m.Invariant) (hs : m.pc ≠ .switch) (hc : m.pc ≠ .coroutine) :
    m.sched.current = none := h.current.mpr ⟨hs, hc⟩

theorem not_running (h : m.Invariant) (hc : m.pc ≠ .coroutine) (idx : Slot) :
    m.conts idx ≠ .running := fun hr => hc ((h.running idx).mp hr).1

-- A step of the run loop that keeps the frames of every coroutine.
theorem loop_step (h : m.Invariant) (hc : m.pc ≠ .coroutine)
    (hnext : next.pc ≠ .coroutine)
    (hslots : ∀ idx, SlotInvariant (next.sched.coroutines idx) (m.conts idx))
    (hcurrent : next.sched.current = none ↔ next.pc ≠ .switch)
    (hpicked : ∀ idx, next.sched.current = some idx →
      (next.sched.coroutines idx).state = .runnable)
    (hconts : next.conts = m.conts) (hserials : next.serials = m.serials)
    (hspawned : next.spawned = m.spawned) : next.Invariant where
  slots := by rw [hconts]; exact hslots
  running := by
    intro idx
    rw [hconts]
    simp [h.not_running hc idx, hnext]
  current := by rw [hcurrent]; simp [hnext]
  picked := hpicked
  serial_lt := by rw [hconts, hserials, hspawned]; exact h.serial_lt
  serial_inj := by rw [hconts, hserials]; exact h.serial_inj

theorem leave (h : m.Invariant) (hpc : m.pc = .coroutine) (hcurrent : m.sched.current = some idx)
    {coro : Coroutine} {cont : Cont} {sp : UInt64}
    (hslot : SlotInvariant { coro with sp := sp } cont) (hcont : cont ≠ .running) :
    (m.leave idx coro cont sp).Invariant := by
  have hrun := (h.running idx).mpr ⟨hpc, hcurrent⟩
  have hidle : ∀ i, Function.update m.conts idx cont i ≠ .idle → m.conts i ≠ .idle := by
    intro i hi
    by_cases he : i = idx
    · subst he
      simp [hrun]
    · simpa [he] using hi
  refine ⟨?_, ?_, ?_, ?_, ?_, ?_⟩
  · intro i
    by_cases he : i = idx
    · subst he
      simpa [Machine.leave] using hslot
    · simpa [Machine.leave, he] using h.slots i
  · intro i
    by_cases he : i = idx
    · subst he
      simp [Machine.leave, hcont]
    · have hn : m.conts i ≠ .running := by
        intro hr
        have hi := ((h.running i).mp hr).2
        rw [hcurrent] at hi
        exact he (Option.some.inj hi).symm
      simp [Machine.leave, he, hn]
  · simp [Machine.leave]
  · simp [Machine.leave]
  · exact fun i hi => h.serial_lt i (hidle i hi)
  · exact fun i j hi hj => h.serial_inj i j (hidle i hi) (hidle j hj)

theorem enter (h : m.Invariant) (hpc : m.pc = .switch) (hcurrent : m.sched.current = some idx)
    {coro : Coroutine} {sp : UInt64} (hstate : coro.state = .runnable) :
    (m.enter idx coro sp).Invariant := by
  have hne : m.conts idx ≠ .idle := by
    rw [ne_eq, ← (h.slots idx).null_iff, h.picked idx hcurrent]
    decide
  have hidle : ∀ i, Function.update m.conts idx .running i ≠ .idle → m.conts i ≠ .idle := by
    intro i hi
    by_cases he : i = idx
    · exact he ▸ hne
    · simpa [he] using hi
  refine ⟨?_, ?_, ?_, ?_, ?_, ?_⟩
  · intro i
    by_cases he : i = idx
    · subst he
      simpa [Machine.enter, SlotInvariant] using hstate
    · simpa [Machine.enter, he] using h.slots i
  · intro i
    by_cases he : i = idx
    · subst he
      simp [Machine.enter, hcurrent]
    · have hn := h.not_running (by simp [hpc]) i
      simp [Machine.enter, he, hn, hcurrent, Ne.symm he]
  · simp [Machine.enter, hcurrent]
  · intro i hi
    have he : idx = i := by simpa [Machine.enter, hcurrent] using hi
    subst he
    simpa [Machine.enter] using hstate
  · exact fun i hi => h.serial_lt i (hidle i hi)
  · exact fun i j hi hj => h.serial_inj i j (hidle i hi) (hidle j hj)

theorem goFailed (h : m.Invariant) (hnull : (m.sched.coroutines idx).state = .null)
    {coro : Coroutine} (hcoro : coro.state = .null) :
    { m with sched := m.sched.set idx coro }.Invariant := by
  have hidle := (h.slots idx).null_iff.mp hnull
  refine ⟨?_, h.running, h.current, ?_, h.serial_lt, h.serial_inj⟩
  · intro i
    by_cases he : i = idx
    · subst he
      simpa [hidle, SlotInvariant] using hcoro
    · simpa [he] using h.slots i
  · intro i hi
    have hne : i ≠ idx := by
      rintro rfl
      simp [h.picked i hi] at hnull
    simpa [hne] using h.picked i hi

theorem goCreated (h : m.Invariant) (hnull : (m.sched.coroutines idx).state = .null)
    {coro : Coroutine} {memory : Memory} (hcoro : coro.state = .runnable) :
    ({ m with sched := m.sched.set idx coro, memory := memory }.spawn idx).Invariant := by
  have hidle := (h.slots idx).null_iff.mp hnull
  refine ⟨?_, ?_, h.current, ?_, ?_, ?_⟩
  · intro i
    by_cases he : i = idx
    · subst he
      simpa [spawn, SlotInvariant] using hcoro
    · simpa [spawn, he] using h.slots i
  · intro i
    by_cases he : i = idx
    · subst he
      have hn := (h.running i).not.mp (by simp [hidle])
      simpa [spawn] using hn
    · simpa [spawn, he] using h.running i
  · intro i hi
    by_cases he : i = idx
    · subst he
      simpa [spawn] using hcoro
    · simpa [spawn, he] using h.picked i hi
  · intro i hi
    by_cases he : i = idx
    · subst he
      simp [spawn]
    · have hl := h.serial_lt i (by simpa [spawn, he] using hi)
      simp only [spawn, Function.update_of_ne he]
      omega
  · intro i j hi hj hs
    by_cases hei : i = idx <;> by_cases hej : j = idx
    · exact hei.trans hej.symm
    · have hl := h.serial_lt j (by simpa [spawn, hej] using hj)
      simp only [spawn, hei, Function.update_self, Function.update_of_ne hej] at hs
      omega
    · have hl := h.serial_lt i (by simpa [spawn, hei] using hi)
      simp only [spawn, hej, Function.update_self, Function.update_of_ne hei] at hs
      omega
    · simp only [spawn, Function.update_of_ne hei, Function.update_of_ne hej] at hi hj hs
      exact h.serial_inj i j hi hj hs

theorem clean (h : m.Invariant) (hpc : m.pc = .clean) : m.clean.1.Invariant := by
  have hcurrent := h.current_none (by simp [hpc]) (by simp [hpc])
  have hidle : ∀ i, m.clean.1.conts i ≠ .idle → m.conts i ≠ .idle := by
    intro i hi hn
    simp [Machine.clean, Scheduler.cleanExitedCoroutines, hn] at hi
  refine ⟨?_, ?_, ?_, ?_, ?_, ?_⟩
  · intro i
    by_cases he : (m.sched.coroutines i).state = .exited
    · simp [Machine.clean, Scheduler.cleanExitedCoroutines, he, SlotInvariant, Coroutine.finish,
        Coroutine.zero]
    · simpa [Machine.clean, Scheduler.cleanExitedCoroutines, he] using h.slots i
  · intro i
    have hn := h.not_running (by simp [hpc]) i
    by_cases he : (m.sched.coroutines i).state = .exited <;>
      simp [Machine.clean, Scheduler.cleanExitedCoroutines, he, hn]
  · simp [Machine.clean, Scheduler.cleanExitedCoroutines, hcurrent]
  · simp [Machine.clean, Scheduler.cleanExitedCoroutines, hcurrent]
  · exact fun i hi => h.serial_lt i (hidle i hi)
  · exact fun i j hi hj => h.serial_inj i j (hidle i hi) (hidle j hj)

theorem resume_eq_ok (h : m.Invariant) (hcurrent : m.sched.current = some idx)
    {coro : Coroutine} {how : Resumed} (hr : m.resume idx = some (.ok (coro, how))) :
    coro.state = .runnable := by
  have hstate := h.picked idx hcurrent
  have hslot := h.slots idx
  cases resume_regains hr with
  | fresh | yielded | sleeping => exact hstate
  | waiting hconts hio =>
      rw [hconts] at hslot
      rcases hslot with hw | hw
      · simp [hw.state] at hstate
      · rw [Coroutine.resumeIo_eq hw.deadline hw.sock hw.events] at hio
        cases hio
        exact hstate

end Invariant

theorem Move.invariant {m next : Machine} {event : Event} (hm : Move m event next)
    (h : m.Invariant) : next.Invariant := by
  cases hm with
  | goFull => exact h
  | goFailed _ hnull hcoro _ => exact h.goFailed hnull hcoro
  | goCreated _ hnull hcoro _ _ _ => exact h.goCreated hnull hcoro
  | run hpc hcurrent =>
      exact h.loop_step (by simp [hpc]) (by simp) h.slots (by simp [hcurrent])
        (by simp [hcurrent]) rfl rfl rfl
  | loopNext hpc _ | loopEnd hpc _ | pollSkipped hpc _ | pollInterrupted hpc _ _ _ =>
      have hcurrent := h.current_none (by simp [hpc]) (by simp [hpc])
      exact h.loop_step (by simp [hpc]) (by simp) h.slots (by simp [hcurrent])
        (by simp [hcurrent]) rfl rfl rfl
  | clean hpc => exact h.clean hpc
  | expire hpc | polled hpc _ _ _ =>
      have hcurrent := h.current_none (by simp [hpc]) (by simp [hpc])
      exact h.loop_step (by simp [hpc]) (by simp) (fun idx => (h.slots idx).maybeResume _ _)
        (by simp [Scheduler.resumeAll, hcurrent]) (by simp [Scheduler.resumeAll, hcurrent])
        rfl rfl rfl
  | pickNone hpc _ =>
      exact h.loop_step (by simp [hpc]) (by simp) h.slots (by simp) (by simp) rfl rfl rfl
  | pickSome hpc hpick =>
      refine h.loop_step (by simp [hpc]) (by simp) h.slots (by simp) ?_ rfl rfl rfl
      intro idx hi
      obtain rfl := Option.some.inj hi
      exact Scheduler.pickRunnable_eq_some hpick
  | resumed hpc hcurrent hr => exact h.enter hpc hcurrent (h.resume_eq_ok hcurrent hr)
  | yielded hpc hcurrent =>
      exact h.leave hpc hcurrent (h.picked _ hcurrent) (by simp)
  | slept hpc hcurrent => exact h.leave hpc hcurrent (.inl rfl) (by simp)
  | @suspended direction _ _ _ _ _ _ hpc hcurrent hsock hcoro =>
      subst hcoro
      exact h.leave hpc hcurrent
        (.inl ⟨rfl, rfl, rfl, hsock, direction.events_ne_zero, rfl⟩) (by simp)
  | returned hpc hcurrent => exact h.leave hpc hcurrent rfl (by simp)

theorem Reachable.holds {m : Machine} (h : Reachable m) : m.Invariant := by
  refine Transition.Reachable.invariant_from ?_ ?_ h
  · exact initial_invariant
  · intro _ _ _ ih hs
    exact (Step.move hs).invariant ih

end Machine

end Minimk.Runtime
