import Minimk.Runtime.Machine.Moves
import Minimk.Time

namespace Minimk.Runtime

open Abort Integer Time

namespace Machine

variable {m m' next next' : Machine} {idx idx' : Slot} {nanosec nanosec' now now' : UInt64}

-- The coroutine in a slot has suspended itself for some nanoseconds from a clock reading on,
-- for the time alone or also for its socket.
def Suspends (m : Machine) (idx : Slot) (nanosec now : UInt64) (next : Machine) : Prop :=
  m.sched.current = some idx ∧
    ((∃ sp output, m.coroutineSuspendTimer nanosec now sp = .ok (next, output)) ∨
      ∃ sock events sp output,
        m.coroutineSuspendIo sock events nanosec now sp = .ok (next, output))

-- Both compute the deadline in the same way.
theorem Suspends.deadline_eq (h : Suspends m idx nanosec now next) :
    (next.sched.coroutines idx).deadline = u64Satadd now nanosec := by
  obtain ⟨hcurrent, ⟨sp, output, h⟩ | ⟨sock, events, sp, output, h⟩⟩ := h
  · simp only [coroutineSuspendTimer, hcurrent] at h
    obtain ⟨rfl, -⟩ := coroutineYield_eq_ok hcurrent h
    simp [leave, Coroutine.suspendTimer]
  · simp only [coroutineSuspendIo, hcurrent] at h
    obtain ⟨coro, hsuspend, h⟩ := (bind_eq_ok_iff _ _ _).mp h
    obtain ⟨_, _, hcoro⟩ := (bind_eq_ok_iff _ _ _).mp hsuspend
    obtain ⟨rfl, -⟩ := coroutineYield_eq_ok hcurrent h
    simp only [pure_eq_ok, Except.ok.injEq] at hcoro
    subst hcoro
    simp [leave]

theorem coroutineYield_of_valid {coro : Coroutine} {cont : Cont} {sp : UInt64}
    (hcurrent : m.sched.current = some idx)
    (hvalid : { coro with sp := sp }.validateStackPointer = .ok ()) :
    ∃ next output,
      { m with sched := m.sched.set idx coro }.coroutineYield cont sp = .ok (next, output) := by
  refine ⟨m.leave idx coro cont sp, .left (m.serials idx), ?_⟩
  simp [coroutineYield, hcurrent, hvalid, leave, Scheduler.set]

-- What suspend_timer and suspend_io do when they are called: they arm the saturated sum.
theorem suspendTimer_arms {sp : UInt64} (hcurrent : m.sched.current = some idx)
    (hvalid : { m.sched.coroutines idx with sp := sp }.validateStackPointer = .ok ())
    (nanosec now : UInt64) :
    ∃ next output, m.coroutineSuspendTimer nanosec now sp = .ok (next, output) ∧
      (next.sched.coroutines idx).deadline = u64Satadd now nanosec := by
  obtain ⟨next, output, h⟩ := @coroutineYield_of_valid m idx
    ((m.sched.coroutines idx).suspendTimer (u64Satadd now nanosec)) .sleeping sp hcurrent hvalid
  have hok : m.coroutineSuspendTimer nanosec now sp = .ok (next, output) := by
    simp only [coroutineSuspendTimer, hcurrent]
    exact h
  refine ⟨next, output, hok, ?_⟩
  exact Suspends.deadline_eq ⟨hcurrent, .inl ⟨sp, output, hok⟩⟩

theorem suspendIo_arms {sp : UInt64} (hcurrent : m.sched.current = some idx)
    (hvalid : { m.sched.coroutines idx with sp := sp }.validateStackPointer = .ok ())
    {sock : Int32} (hsock : sock ≠ invalidSocket) (events : Int16) (nanosec now : UInt64) :
    ∃ next output, m.coroutineSuspendIo sock events nanosec now sp = .ok (next, output) ∧
      (next.sched.coroutines idx).deadline = u64Satadd now nanosec := by
  obtain ⟨next, output, h⟩ := @coroutineYield_of_valid m idx
    { m.sched.coroutines idx with
      state := .blockedOnIo, deadline := u64Satadd now nanosec, sock := sock,
      events := events, revents := 0 } (.waiting sock events) sp hcurrent hvalid
  have hok : m.coroutineSuspendIo sock events nanosec now sp = .ok (next, output) := by
    simp only [coroutineSuspendIo, hcurrent, Coroutine.suspendIo_eq hsock, ok_bind]
    exact h
  refine ⟨next, output, hok, ?_⟩
  exact Suspends.deadline_eq ⟨hcurrent, .inr ⟨sock, events, sp, output, hok⟩⟩

theorem Step.suspends {direction : Direction} {sock : Int32} {sp : UInt64} {output : Output}
    (h : Step m ⟨.suspendIo direction sock nanosec now sp, output⟩ next)
    (hcurrent : m.sched.current = some idx) : Suspends m idx nanosec now next := by
  simp only [Step, exec, Option.ite_none_right_eq_some, Option.some.injEq] at h
  exact ⟨hcurrent, .inr ⟨sock, direction.events, sp, output, h.2⟩⟩

end Machine

-- Earlier readings of the system clock, as the kernel delivers them.
def ClockBefore (reply reply' : ClockReply) : Prop :=
  reply.sec.toUInt64 < reply'.sec.toUInt64 ∨
    reply.sec.toUInt64 = reply'.sec.toUInt64 ∧ reply.nsec.toUInt64 ≤ reply'.nsec.toUInt64

theorem monotonicNow_le {reply reply' : ClockReply} {now now' : UInt64}
    (hrv : reply.rv = 0) (hrv' : reply'.rv = 0) (hnsec : reply.nsec.toUInt64 < 1000000000)
    (hbefore : ClockBefore reply reply') (hnow : monotonicNow reply = .ok now)
    (hnow' : monotonicNow reply' = .ok now') : now ≤ now' := by
  obtain ⟨reading, hreading, hnat⟩ := monotonicNow_eq hrv
  obtain ⟨reading', hreading', hnat'⟩ := monotonicNow_eq hrv'
  rw [hnow, Except.ok.injEq] at hreading
  rw [hnow', Except.ok.injEq] at hreading'
  subst hreading hreading'
  have hlt : reply.nsec.toUInt64.toNat < 1000000000 := UInt64.lt_iff_toNat_lt.mp hnsec
  rw [UInt64.le_iff_toNat_le, hnat, hnat']
  rcases hbefore with hsec | ⟨hsec, hle⟩
  · rw [UInt64.lt_iff_toNat_lt] at hsec
    omega
  · rw [UInt64.le_iff_toNat_le] at hle
    rw [hsec]
    omega

theorem monotonicNow_deadlines :
    (∀ reply : ClockReply, reply.rv = 0 → ∃ now, monotonicNow reply = .ok now ∧
      now.toNat = min (reply.sec.toUInt64.toNat * 1000000000 + reply.nsec.toUInt64.toNat)
        (2 ^ 64 - 1)) ∧
    (∀ (reply reply' : ClockReply) (now now' : UInt64), reply.rv = 0 → reply'.rv = 0 →
      reply.nsec.toUInt64 < 1000000000 → reply'.nsec.toUInt64 < 1000000000 →
      ClockBefore reply reply' → monotonicNow reply = .ok now → monotonicNow reply' = .ok now' →
      now ≤ now') ∧
    (∀ (m : Machine) idx sp, m.sched.current = some idx →
      { m.sched.coroutines idx with sp := sp }.validateStackPointer = .ok () →
      ∀ nanosec now,
        (∃ next output, m.coroutineSuspendTimer nanosec now sp = .ok (next, output) ∧
          (next.sched.coroutines idx).deadline = u64Satadd now nanosec) ∧
        ∀ sock events, sock ≠ invalidSocket →
          ∃ next output, m.coroutineSuspendIo sock events nanosec now sp = .ok (next, output) ∧
            (next.sched.coroutines idx).deadline = u64Satadd now nanosec) ∧
    (∀ m m' idx idx' nanosec nanosec' now now' next next', now ≤ now' → nanosec ≤ nanosec' →
      Machine.Suspends m idx nanosec now next → Machine.Suspends m' idx' nanosec' now' next' →
      (next.sched.coroutines idx).deadline ≤ (next'.sched.coroutines idx').deadline) ∧
    ∀ m idx nanosec now next, Machine.Suspends m idx nanosec now next →
      now ≤ (next.sched.coroutines idx).deadline ∧
      (now.toNat + nanosec.toNat < 2 ^ 64 →
        (next.sched.coroutines idx).deadline.toNat = now.toNat + nanosec.toNat) := by
  refine ⟨fun reply => monotonicNow_eq, ?_, ?_, ?_, ?_⟩
  · intro reply reply' now now' hrv hrv' hnsec _ hbefore hnow hnow'
    exact monotonicNow_le hrv hrv' hnsec hbefore hnow hnow'
  · intro m idx sp hcurrent hvalid nanosec now
    refine ⟨Machine.suspendTimer_arms hcurrent hvalid nanosec now, ?_⟩
    intro sock events hsock
    exact Machine.suspendIo_arms hcurrent hvalid hsock events nanosec now
  · intro m m' idx idx' nanosec nanosec' now now' next next' hnow hle hs hs'
    rw [hs.deadline_eq, hs'.deadline_eq]
    exact u64Satadd_mono hnow hle
  · intro m idx nanosec now next hs
    rw [hs.deadline_eq]
    refine ⟨le_u64Satadd now nanosec, ?_⟩
    intro hfits
    rw [toNat_u64Satadd]
    omega

-- A short sleep and a later wait that never ends, by the same coroutine.
theorem monotonicNow_deadlines_aloneStarts :
    ∃ slept waiting output output',
      (Machine.initial.after Machine.aloneStarts).coroutineSuspendTimer 100 5 0x1f000 =
        .ok (slept, output) ∧
      (Machine.initial.after Machine.aloneStarts).coroutineSuspendIo 3 POLLIN 0xffffffffffffffff 6
        0x1f000 = .ok (waiting, output') ∧
      (slept.sched.coroutines 0).deadline.toNat = 105 ∧
      (slept.sched.coroutines 0).deadline ≤ (waiting.sched.coroutines 0).deadline := by
  obtain ⟨-, -, harms, horder, hexact⟩ := monotonicNow_deadlines
  have hcurrent : (Machine.initial.after Machine.aloneStarts).sched.current = some 0 := rfl
  have harmed := harms _ 0 0x1f000 hcurrent rfl
  obtain ⟨slept, output, hslept, -⟩ := (harmed 100 5).1
  obtain ⟨waiting, output', hwaiting, -⟩ :=
    (harmed 0xffffffffffffffff 6).2 3 POLLIN (by decide)
  have htimer : Machine.Suspends _ 0 100 5 slept := ⟨hcurrent, .inl ⟨_, _, hslept⟩⟩
  have hio : Machine.Suspends _ 0 0xffffffffffffffff 6 waiting :=
    ⟨hcurrent, .inr ⟨_, _, _, _, hwaiting⟩⟩
  refine ⟨slept, waiting, output, output', hslept, hwaiting, ?_, ?_⟩
  · exact (hexact _ _ _ _ _ htimer).2 (by decide)
  · exact horder _ _ _ _ _ _ _ _ _ _ (by decide) (by decide) htimer hio

end Minimk.Runtime
