import Minimk.Runtime.Machine
import Minimk.Runtime.Scheduler.Theorems

namespace Minimk.Runtime

open Abort Integer

namespace Machine

-- The machine after the coroutine in a slot left its stack pointer and switched back.
def leave (m : Machine) (idx : Slot) (coro : Coroutine) (cont : Cont) (sp : UInt64) : Machine :=
  { m with
    sched := { m.sched.set idx { coro with sp := sp } with current := none }
    conts := Function.update m.conts idx cont
    pc := .loopTest }

-- The machine after the coroutine in a slot regained control.
def enter (m : Machine) (idx : Slot) (coro : Coroutine) (sp : UInt64) : Machine :=
  { m with
    sched := { m.sched.set idx coro with sp := sp }
    conts := Function.update m.conts idx .running
    pc := .coroutine }

-- Everything a step can do, with the guards it has passed.
inductive Move (m : Machine) : Event → Machine → Prop
  | goFull {entry argument : UInt64} {reply : StackReply}
      (hpc : m.pc = .main ∨ m.pc = .coroutine)
      (hfull : ∀ idx, (m.sched.coroutines idx).state ≠ .null) :
      Move m ⟨.go entry argument reply, .refused .eagain []⟩ m
  | goFailed {entry argument : UInt64} {reply : StackReply} {idx : Slot} {coro : Coroutine}
      {calls : List MemCall} (hpc : m.pc = .main ∨ m.pc = .coroutine)
      (hnull : (m.sched.coroutines idx).state = .null) (hcoro : coro.state = .null)
      (hcalls : calls = [] ∨ ∃ mapping, m.memory.Fresh mapping ∧
        calls = [.mmap mapping, .munmap mapping]) :
      Move m ⟨.go entry argument reply, .refused .enomem calls⟩
        { m with sched := m.sched.set idx coro }
  | goCreated {entry argument : UInt64} {reply : StackReply} {idx : Slot} {coro : Coroutine}
      (hpc : m.pc = .main ∨ m.pc = .coroutine)
      (hnull : (m.sched.coroutines idx).state = .null) (hcoro : coro.state = .runnable)
      (hentry : coro.entry = entry) (hargument : coro.argument = argument)
      (hfresh : m.memory.Fresh coro.stack.mapping) :
      Move m ⟨.go entry argument reply, .created m.spawned [.mmap coro.stack.mapping]⟩
        ({ m with
          sched := m.sched.set idx coro
          memory := coro.stack.mapping :: m.memory }.spawn idx)
  | run (hpc : m.pc = .main) (hcurrent : m.sched.current = none) :
      Move m ⟨.run, .silent⟩ { m with pc := .loopTest, fair := 0 }
  | loopNext (hpc : m.pc = .loopTest) (hcount : ∃ idx, (m.sched.coroutines idx).state ≠ .null) :
      Move m ⟨.loopTest, .silent⟩ { m with pc := .clean }
  | loopEnd (hpc : m.pc = .loopTest) (hcount : ∀ idx, (m.sched.coroutines idx).state = .null) :
      Move m ⟨.loopTest, .silent⟩ { m with pc := .main }
  | clean (hpc : m.pc = .clean) : Move m ⟨.clean, m.clean.2⟩ m.clean.1
  | expire {now : UInt64} (hpc : m.pc = .expire) :
      Move m ⟨.expire now, .silent⟩
        { m with sched := m.sched.resumeAll now fun _ => 0, pc := .pick }
  | pickNone {fair : UInt64} (hpc : m.pc = .pick)
      (hpick : m.sched.pickRunnable m.fair = (none, fair)) :
      Move m ⟨.pick, .silent⟩
        { m with sched := { m.sched with current := none }, fair := fair, pc := .poll }
  | pickSome {fair : UInt64} {idx : Slot} (hpc : m.pc = .pick)
      (hpick : m.sched.pickRunnable m.fair = (some idx, fair)) :
      Move m ⟨.pick, .silent⟩
        { m with sched := { m.sched with current := some idx }, fair := fair, pc := .switch }
  | pollSkipped {now : UInt64} {reply : Scheduler.PollReply} (hpc : m.pc = .poll)
      (hcount : ∀ idx, (m.sched.coroutines idx).state = .null) :
      Move m ⟨.poll now reply, .silent⟩ { m with pc := .loopTest }
  | pollInterrupted {now deadline : UInt64} {reply : Scheduler.PollReply}
      {fds : Slot → Scheduler.Pollfd} (hpc : m.pc = .poll)
      (hcount : ∃ idx, (m.sched.coroutines idx).state ≠ .null)
      (hscan : m.sched.pollScan now = .ok (deadline, fds)) (hrc : reply.rc = .eintr) :
      Move m ⟨.poll now reply, .polled ⟨fds, Scheduler.pollTimeout now deadline⟩⟩
        { m with pc := .loopTest }
  | polled {now deadline : UInt64} {reply : Scheduler.PollReply}
      {fds : Slot → Scheduler.Pollfd} (hpc : m.pc = .poll)
      (hcount : ∃ idx, (m.sched.coroutines idx).state ≠ .null)
      (hscan : m.sched.pollScan now = .ok (deadline, fds)) (hrc : reply.rc = .success) :
      Move m ⟨.poll now reply, .polled ⟨fds, Scheduler.pollTimeout now deadline⟩⟩
        { m with sched := m.sched.resumeAll reply.now reply.revents, pc := .loopTest }
  | resumed {sp : UInt64} {idx : Slot} {coro : Coroutine} {how : Resumed} (hpc : m.pc = .switch)
      (hcurrent : m.sched.current = some idx) (hresume : m.resume idx = some (.ok (coro, how))) :
      Move m ⟨.switch sp, .resumed (m.serials idx) how⟩ (m.enter idx coro sp)
  | yielded {sp : UInt64} {idx : Slot} (hpc : m.pc = .coroutine)
      (hcurrent : m.sched.current = some idx) :
      Move m ⟨.yield sp, .left (m.serials idx)⟩ (m.leave idx (m.sched.coroutines idx) .yielded sp)
  | slept {nanosec now sp : UInt64} {idx : Slot} (hpc : m.pc = .coroutine)
      (hcurrent : m.sched.current = some idx) :
      Move m ⟨.nanosleep nanosec now sp, .left (m.serials idx)⟩
        (m.leave idx ((m.sched.coroutines idx).suspendTimer (u64Satadd now nanosec)) .sleeping sp)
  | suspended {direction : Direction} {sock : Int32} {nanosec now sp : UInt64} {idx : Slot}
      {coro : Coroutine} (hpc : m.pc = .coroutine) (hcurrent : m.sched.current = some idx)
      (hsock : sock ≠ invalidSocket)
      (hcoro : coro = { m.sched.coroutines idx with
        state := .blockedOnIo, deadline := u64Satadd now nanosec, sock := sock,
        events := direction.events, revents := 0 }) :
      Move m ⟨.suspendIo direction sock nanosec now sp, .left (m.serials idx)⟩
        (m.leave idx coro (.waiting sock direction.events) sp)
  | returned {sp : UInt64} {idx : Slot} (hpc : m.pc = .coroutine)
      (hcurrent : m.sched.current = some idx) :
      Move m ⟨.ret sp, .left (m.serials idx)⟩
        (m.leave idx (m.sched.coroutines idx).markAsExited .returned sp)

-- How a coroutine regains control, by the call in which it had left.
inductive Regains (m : Machine) (idx : Slot) : Coroutine → Resumed → Prop
  | fresh (hconts : m.conts idx = .fresh) :
      Regains m idx (m.sched.coroutines idx)
        (.entryStarts (m.sched.coroutines idx).entry (m.sched.coroutines idx).argument)
  | yielded (hconts : m.conts idx = .yielded) :
      Regains m idx (m.sched.coroutines idx) .yieldReturns
  | sleeping (hconts : m.conts idx = .sleeping) :
      Regains m idx (m.sched.coroutines idx).resumeTimer .nanosleepReturns
  | waiting {sock : Int32} {events : Int16} {rv : Error} {coro : Coroutine}
      (hconts : m.conts idx = .waiting sock events)
      (hio : (m.sched.coroutines idx).resumeIo sock events = .ok (rv, coro)) :
      Regains m idx coro (.suspendIoReturns rv)

variable {m next : Machine} {output : Output}

theorem resume_regains {idx : Slot} {coro : Coroutine} {how : Resumed}
    (hr : m.resume idx = some (.ok (coro, how))) : m.Regains idx coro how := by
  unfold resume at hr
  cases hc : m.conts idx with
  | fresh =>
      simp only [hc, Option.some.injEq, bind_eq_ok_iff, pure_eq_ok, Except.ok.injEq,
        Prod.mk.injEq] at hr
      obtain ⟨-, -, rfl, rfl⟩ := hr
      exact .fresh hc
  | yielded =>
      simp only [hc, Option.some.injEq, Except.ok.injEq, Prod.mk.injEq] at hr
      obtain ⟨rfl, rfl⟩ := hr
      exact .yielded hc
  | sleeping =>
      simp only [hc, Option.some.injEq, Except.ok.injEq, Prod.mk.injEq] at hr
      obtain ⟨rfl, rfl⟩ := hr
      exact .sleeping hc
  | waiting sock events =>
      simp only [hc, Option.some.injEq, bind_eq_ok_iff, pure_eq_ok, Except.ok.injEq,
        Prod.mk.injEq, Prod.exists] at hr
      obtain ⟨rv, coro, hio, rfl, rfl⟩ := hr
      exact .waiting hc hio
  | returned | idle | running => simp [hc] at hr

theorem go_move {entry argument : UInt64} {reply : StackReply}
    (hpc : m.pc = .main ∨ m.pc = .coroutine)
    (hfresh : ∀ base ∈ reply.mmap, m.memory.Fresh ⟨base, stackSizeOf reply⟩)
    (h : m.go entry argument reply = .ok (next, output)) :
    Move m ⟨.go entry argument reply, output⟩ next := by
  obtain ⟨⟨rv, sched, calls⟩, hcreate, h⟩ := (bind_eq_ok_iff _ _ _).mp h
  unfold Scheduler.coroutineCreate at hcreate
  cases hfind : m.sched.findFreeCoroutineSlot with
  | error code =>
      obtain ⟨rfl, hfull⟩ := Scheduler.findFreeCoroutineSlot_eq_error hfind
      simp only [hfind, Except.ok.injEq, Prod.mk.injEq] at hcreate
      obtain ⟨rfl, rfl, rfl⟩ := hcreate
      simp only [pure_eq_ok, Except.ok.injEq, Prod.mk.injEq] at h
      obtain ⟨rfl, rfl⟩ := h
      exact .goFull hpc hfull
  | ok idx =>
      have hnull := Scheduler.findFreeCoroutineSlot_eq_ok hfind
      simp only [hfind] at hcreate
      obtain ⟨⟨code, coro, done⟩, hinit, hcreate⟩ := (bind_eq_ok_iff _ _ _).mp hcreate
      simp only [pure_eq_ok, Except.ok.injEq, Prod.mk.injEq] at hcreate
      obtain ⟨rfl, rfl, rfl⟩ := hcreate
      rcases Coroutine.init_eq_ok hinit with ⟨rfl, hs, hc⟩ | ⟨rfl, hs, he, ha, base, hm, hst, rfl⟩
      · simp only [pure_eq_ok, Except.ok.injEq, Prod.mk.injEq] at h
        obtain ⟨rfl, rfl⟩ := h
        rcases hc with rfl | ⟨base, hm, rfl⟩
        · exact .goFailed hpc hnull hs (.inl rfl)
        · have hf := hfresh base hm
          have hmemory : m.memory.calls [.mmap ⟨base, stackSizeOf reply⟩,
              .munmap ⟨base, stackSizeOf reply⟩] = m.memory := by
            simp [Memory.calls, Memory.call]
          rw [hmemory]
          exact .goFailed hpc hnull hs (.inr ⟨_, hf, rfl⟩)
      · simp only [hfind, pure_eq_ok, Except.ok.injEq, Prod.mk.injEq] at h
        obtain ⟨rfl, rfl⟩ := h
        exact .goCreated hpc hnull hs he ha (hst ▸ hfresh base hm)

theorem coroutineYield_eq_ok {idx : Slot} {coro : Coroutine} {cont : Cont} {sp : UInt64}
    (hcurrent : m.sched.current = some idx)
    (h : { m with sched := m.sched.set idx coro }.coroutineYield cont sp = .ok (next, output)) :
    next = m.leave idx coro cont sp ∧ output = .left (m.serials idx) := by
  simp only [coroutineYield, Scheduler.set_current, hcurrent, bind_eq_ok_iff,
    pure_eq_ok, Except.ok.injEq, Prod.mk.injEq, Scheduler.set_coroutines,
    Function.update_self] at h
  obtain ⟨_, _, rfl, rfl⟩ := h
  refine ⟨?_, rfl⟩
  simp [leave, Scheduler.set]

theorem blockOnPoll_eq_ok {sched next : Scheduler} {now : UInt64} {reply : Scheduler.PollReply}
    {call : Scheduler.PollCall} (h : sched.blockOnPoll now reply = .ok (next, call)) :
    ∃ deadline fds, sched.pollScan now = .ok (deadline, fds) ∧
      call = ⟨fds, Scheduler.pollTimeout now deadline⟩ ∧
      (reply.rc = .eintr ∧ next = sched ∨
        reply.rc = .success ∧ next = sched.resumeAll reply.now reply.revents) := by
  obtain ⟨⟨deadline, fds⟩, hscan, h⟩ := (bind_eq_ok_iff _ _ _).mp h
  refine ⟨deadline, fds, hscan, ?_⟩
  by_cases hrc : reply.rc = .eintr
  · simp only [hrc, ↓reduceIte, pure_eq_ok, Except.ok.injEq, Prod.mk.injEq] at h
    exact ⟨h.2.symm, .inl ⟨hrc, h.1.symm⟩⟩
  · simp only [hrc, ↓reduceIte, bind_eq_ok_iff, assert_eq_ok_iff, pure_eq_ok, Except.ok.injEq,
      Prod.mk.injEq] at h
    obtain ⟨_, hs, rfl, rfl⟩ := h
    exact ⟨rfl, .inr ⟨hs, rfl⟩⟩

theorem pick_move (hpc : m.pc = .pick) : Move m ⟨.pick, .silent⟩ m.pick := by
  unfold pick
  cases hp : m.sched.pickRunnable m.fair with
  | mk current fair =>
      cases current with
      | none => exact .pickNone hpc hp
      | some idx => exact .pickSome hpc hp

theorem poll_move {now : UInt64} {reply : Scheduler.PollReply} (hpc : m.pc = .poll)
    (h : m.poll now reply = .ok (next, output)) : Move m ⟨.poll now reply, output⟩ next := by
  unfold poll at h
  split at h
  · rename_i hcount
    obtain ⟨⟨sched, call⟩, hblock, h⟩ := (bind_eq_ok_iff _ _ _).mp h
    simp only [pure_eq_ok, Except.ok.injEq, Prod.mk.injEq] at h
    obtain ⟨rfl, rfl⟩ := h
    have hsome := Scheduler.countNonnullCoroutines_pos_iff.mp hcount
    obtain ⟨deadline, fds, hscan, rfl, ⟨hrc, rfl⟩ | ⟨hrc, rfl⟩⟩ := blockOnPoll_eq_ok hblock
    · exact .pollInterrupted hpc hsome hscan hrc
    · exact .polled hpc hsome hscan hrc
  · rename_i hcount
    simp only [Except.ok.injEq, Prod.mk.injEq] at h
    obtain ⟨rfl, rfl⟩ := h
    refine .pollSkipped hpc fun idx => ?_
    by_contra hne
    exact hcount (Scheduler.countNonnullCoroutines_pos_iff.mpr ⟨idx, hne⟩)

theorem switch_move {sp : UInt64} (hpc : m.pc = .switch)
    (h : m.switch sp = some (.ok (next, output))) : Move m ⟨.switch sp, output⟩ next := by
  unfold switch at h
  obtain ⟨idx, hcurrent, h⟩ := Option.bind_eq_some_iff.mp h
  obtain ⟨resumed, hresume, h⟩ := Option.bind_eq_some_iff.mp h
  simp only [Option.pure_def, Option.some.injEq, bind_eq_ok_iff, pure_eq_ok, Except.ok.injEq,
    Prod.mk.injEq] at h
  obtain ⟨_, _, ⟨coro, how⟩, rfl, rfl, rfl⟩ := h
  exact .resumed hpc hcurrent hresume

theorem suspendIo_move {direction : Direction} {sock : Int32} {nanosec now sp : UInt64}
    (hpc : m.pc = .coroutine)
    (h : m.coroutineSuspendIo sock direction.events nanosec now sp = .ok (next, output)) :
    Move m ⟨.suspendIo direction sock nanosec now sp, output⟩ next := by
  unfold coroutineSuspendIo at h
  cases hcurrent : m.sched.current with
  | none => simp [hcurrent] at h
  | some idx =>
      simp only [hcurrent] at h
      obtain ⟨coro, hsuspend, h⟩ := (bind_eq_ok_iff _ _ _).mp h
      obtain ⟨_, hassert, hcoro⟩ := (bind_eq_ok_iff _ _ _).mp hsuspend
      have hsock := (assert_eq_ok_iff _).mp hassert
      obtain ⟨rfl, rfl⟩ := coroutineYield_eq_ok hcurrent h
      exact .suspended hpc hcurrent hsock (by simpa using hcoro.symm)

theorem yield_move (coro : Slot → Coroutine) {cont : Cont} {sp : UInt64} {event : Action}
    (hmove : ∀ idx, m.sched.current = some idx →
      Move m ⟨event, .left (m.serials idx)⟩ (m.leave idx (coro idx) cont sp))
    {result : Except Assertion (Machine × Output)} (hresult : result = .ok (next, output))
    (hsome : ∀ idx, m.sched.current = some idx →
      result = { m with sched := m.sched.set idx (coro idx) }.coroutineYield cont sp)
    (hnone : m.sched.current = none → ∀ value, result ≠ .ok value) :
    Move m ⟨event, output⟩ next := by
  cases hcurrent : m.sched.current with
  | none => exact absurd hresult (hnone hcurrent _)
  | some idx =>
      rw [hsome idx hcurrent] at hresult
      obtain ⟨rfl, rfl⟩ := coroutineYield_eq_ok hcurrent hresult
      exact hmove idx hcurrent

theorem Step.move {event : Event} (h : Step m event next) : Move m event next := by
  obtain ⟨action, output⟩ := event
  simp only [Step] at h
  cases action <;> simp only [exec, Option.ite_none_right_eq_some, Option.some.injEq] at h
  case go entry argument reply => exact go_move h.1.1 h.1.2 h.2
  case run =>
    obtain ⟨hpc, h⟩ := h
    obtain ⟨_, hassert, h⟩ := (bind_eq_ok_iff _ _ _).mp h
    simp only [pure_eq_ok, Except.ok.injEq, Prod.mk.injEq] at h
    obtain ⟨rfl, rfl⟩ := h
    exact .run hpc ((assert_eq_ok_iff _).mp hassert)
  case loopTest =>
    obtain ⟨hpc, h⟩ := h
    simp only [Except.ok.injEq, Prod.mk.injEq] at h
    obtain ⟨rfl, rfl⟩ := h
    by_cases hcount : 0 < m.sched.countNonnullCoroutines
    · simp only [gt_iff_lt, hcount, ↓reduceIte]
      exact .loopNext hpc (Scheduler.countNonnullCoroutines_pos_iff.mp hcount)
    · simp only [gt_iff_lt, hcount, ↓reduceIte]
      refine .loopEnd hpc fun idx => ?_
      by_contra hne
      exact hcount (Scheduler.countNonnullCoroutines_pos_iff.mpr ⟨idx, hne⟩)
  case clean =>
    obtain ⟨hpc, h⟩ := h
    have he : m.clean = (next, output) := by simpa using h
    have hm : Move m ⟨.clean, m.clean.2⟩ m.clean.1 := .clean hpc
    rwa [he] at hm
  case expire now =>
    obtain ⟨hpc, h⟩ := h
    simp only [Except.ok.injEq, Prod.mk.injEq] at h
    obtain ⟨rfl, rfl⟩ := h
    exact .expire hpc
  case pick =>
    obtain ⟨hpc, h⟩ := h
    simp only [Except.ok.injEq, Prod.mk.injEq] at h
    obtain ⟨rfl, rfl⟩ := h
    exact pick_move hpc
  case poll now reply => exact poll_move h.1 h.2
  case switch sp => exact switch_move h.1 h.2
  case suspendIo direction sock nanosec now sp => exact suspendIo_move h.1 h.2
  case yield sp =>
    refine yield_move m.sched.coroutines (fun idx => .yielded h.1) h.2 ?_ ?_
    · intro idx _
      simp [Scheduler.set]
    · intro hnone value
      simp [coroutineYield, hnone]
  case nanosleep nanosec now sp =>
    refine yield_move _ (fun idx => .slept h.1) h.2 ?_ ?_
    · intro idx hcurrent
      simp [coroutineSuspendTimer, hcurrent]
    · intro hnone value
      simp [coroutineSuspendTimer, hnone]
  case ret sp =>
    refine yield_move _ (fun idx => .returned h.1) h.2 ?_ ?_
    · intro idx hcurrent
      simp [coroutineMainExit, hcurrent]
    · intro hnone value
      simp [coroutineMainExit, hnone]

end Machine

end Minimk.Runtime
