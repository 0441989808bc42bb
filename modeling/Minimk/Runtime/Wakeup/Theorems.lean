import Minimk.Runtime.Lifecycle.Theorems
import Minimk.Runtime.Machine.Resumption
import Minimk.Runtime.Wakeup

namespace Minimk.Runtime

open Integer

theorem toNat_waitEnd (now nanosec : UInt64) :
    (u64Satadd now nanosec).toNat = waitEnd now nanosec := toNat_u64Satadd now nanosec

section Scanned

variable {idx : Slot} {coro : Coroutine} {log : List Event} {event : Event}

-- Once a scan has woken the coroutine, the later ones pass it by.
theorem scanned_of_not_blocked (ht : coro.state ≠ .blockedOnTimer)
    (hi : coro.state ≠ .blockedOnIo) (log : List Event) : scanned idx log coro = coro := by
  induction log with
  | nil => rfl
  | cons event log ih =>
      simp only [scanned, ih]
      split
      · exact Coroutine.maybeResume_of_not_blocked ht hi
      · rfl

theorem scanned_append (newer older : List Event) :
    scanned idx (newer ++ older) coro = scanned idx newer (scanned idx older coro) := by
  induction newer with
  | nil => rfl
  | cons event newer ih => simp only [List.cons_append, scanned, ih]

theorem scanned_of_not_wakes (hstate : coro.state = .blockedOnIo)
    (hn : ∀ event ∈ log, ¬event.Wakes idx coro.events coro.deadline.toNat) :
    scanned idx log coro = coro := by
  induction log with
  | nil => rfl
  | cons event log ih =>
      have hold := ih fun other ho => hn other (List.mem_cons_of_mem _ ho)
      have hnew := hn event List.mem_cons_self
      simp only [scanned, hold]
      split
      · rename_i now revents hscan
        rw [Coroutine.maybeResume_of_io hstate, if_neg]
        intro hw
        refine hnew ⟨now, revents, hscan, ?_⟩
        rwa [Int16.and_comm, ← UInt64.le_iff_toNat_le]
      · rfl

theorem scanned_of_wakes {now : UInt64} {revents : Slot → Int16}
    (hstate : coro.state = .blockedOnIo)
    (hn : ∀ other ∈ log, ¬other.Wakes idx coro.events coro.deadline.toNat)
    (hscan : event.scan = some (now, revents))
    (hw : event.Wakes idx coro.events coro.deadline.toNat) :
    scanned idx (event :: log) coro = { coro with
      deadline := 0, state := .runnable, sock := invalidSocket, events := 0,
      revents := revents idx } := by
  obtain ⟨now', revents', hscan', hw⟩ := hw
  obtain ⟨rfl, rfl⟩ : now = now' ∧ revents = revents' := by simpa [hscan] using hscan'
  simp only [scanned, hscan, scanned_of_not_wakes hstate hn]
  rw [Coroutine.maybeResume_of_io hstate, if_pos]
  rwa [Int16.and_comm, UInt64.le_iff_toNat_le]

-- The oldest scan that is due decides.
theorem exists_first_wake (idx : Slot) (events : Int16) (deadline : Nat) (log : List Event) :
    (∀ event ∈ log, ¬event.Wakes idx events deadline) ∨
      ∃ after wake before, log = after ++ wake :: before ∧ wake.Wakes idx events deadline ∧
        ∀ event ∈ before, ¬event.Wakes idx events deadline := by
  induction log with
  | nil => simp
  | cons event log ih =>
      rcases ih with hn | ⟨after, wake, before, rfl, hw, hn⟩
      · by_cases hw : event.Wakes idx events deadline
        · exact .inr ⟨[], event, log, rfl, hw, hn⟩
        · refine .inl fun other ho => ?_
          rcases List.mem_cons.mp ho with rfl | ho
          · exact hw
          · exact hn other ho
      · exact .inr ⟨event :: after, wake, before, rfl, hw, hn⟩

theorem scanned_of_timer (hstate : coro.state = .blockedOnTimer)
    (hn : ∀ event ∈ log, ∀ now revents, event.scan = some (now, revents) → now < coro.deadline) :
    scanned idx log coro = coro := by
  induction log with
  | nil => rfl
  | cons event log ih =>
      have hold := ih fun other ho => hn other (List.mem_cons_of_mem _ ho)
      simp only [scanned, hold]
      split
      · rename_i now revents hscan
        have hlt := hn event List.mem_cons_self now revents hscan
        rw [Coroutine.maybeResume_of_timer hstate, if_neg]
        exact UInt64.not_le.mpr hlt
      · rfl

end Scanned

namespace Machine

open Transition

variable {m next first last : Machine} {event : Event} {idx : Slot}

-- Only its own switch and the scans touch a coroutine that has left the processor.
structure Stays (m : Machine) (event : Event) (next : Machine) (idx : Slot) : Prop where
  conts : next.conts idx = m.conts idx
  serials : next.serials idx = m.serials idx
  coroutine : next.sched.coroutines idx = scanned idx [event] (m.sched.coroutines idx)

theorem Stays.of_scan_none (hscan : event.scan = none) (hconts : next.conts idx = m.conts idx)
    (hserials : next.serials idx = m.serials idx)
    (hcoro : next.sched.coroutines idx = m.sched.coroutines idx) : Stays m event next idx :=
  ⟨hconts, hserials, by simp [scanned, hscan, hcoro]⟩

theorem Stays.leave {slot : Slot} {coro : Coroutine} {cont : Cont} {sp : UInt64}
    (h : m.Invariant) (hp : (m.conts idx).Parked) (hpc : m.pc = .coroutine)
    (hcurrent : m.sched.current = some slot) (hscan : event.scan = none) :
    Stays m event (m.leave slot coro cont sp) idx := by
  have hne : idx ≠ slot := by
    rintro rfl
    exact hp.2.1 ((h.running idx).mpr ⟨hpc, hcurrent⟩)
  exact .of_scan_none hscan (by simp [Machine.leave, hne]) rfl (by simp [Machine.leave, hne])

theorem Move.stays (hm : Move m event next) (h : m.Invariant) (hp : (m.conts idx).Parked)
    (hn : event.resumes (m.serials idx) = false) : Stays m event next idx := by
  cases hm with
  | goFull | run | loopNext | loopEnd | pickNone | pickSome | pollSkipped =>
      exact .of_scan_none rfl rfl rfl rfl
  | pollInterrupted _ _ _ hrc => exact .of_scan_none (by simp [Event.scan, hrc]) rfl rfl rfl
  | expire => exact ⟨rfl, rfl, rfl⟩
  | polled _ _ _ hrc => exact ⟨rfl, rfl, by simp [scanned, Event.scan, hrc, Scheduler.resumeAll]⟩
  | @goFailed _ _ _ slot coro _ _ hnull _ _ =>
      have hne : idx ≠ slot := by
        rintro rfl
        exact hp.1 ((h.slots idx).null_iff.mp hnull)
      exact .of_scan_none rfl rfl rfl (by simp [hne])
  | @goCreated _ _ _ slot coro _ hnull =>
      have hne : idx ≠ slot := by
        rintro rfl
        exact hp.1 ((h.slots idx).null_iff.mp hnull)
      exact .of_scan_none rfl (by simp [spawn, hne]) (by simp [spawn, hne]) (by simp [spawn, hne])
  | clean =>
      have hne : (m.sched.coroutines idx).state ≠ .exited :=
        (h.slots idx).exited_iff.not.mpr hp.2.2
      exact .of_scan_none rfl (by simp [Machine.clean, hne]) rfl
        (by simp [Machine.clean, Scheduler.cleanExitedCoroutines, hne])
  | @resumed sp slot coro how _ _ hr =>
      have hne : idx ≠ slot := by
        rintro rfl
        simp [Event.resumes] at hn
      exact .of_scan_none rfl (by simp [enter, hne]) rfl (by simp [enter, hne])
  | yielded hpc hcurrent | slept hpc hcurrent | suspended hpc hcurrent | returned hpc hcurrent =>
      exact .leave h hp hpc hcurrent rfl

theorem Path.stays {between : List Event} (h : first.Invariant)
    (hp : Path Step first between last) (hc : (first.conts idx).Parked)
    (hn : ∀ event ∈ between, event.resumes (first.serials idx) = false) :
    last.Invariant ∧ last.conts idx = first.conts idx ∧ last.serials idx = first.serials idx ∧
      last.sched.coroutines idx = scanned idx between (first.sched.coroutines idx) := by
  induction hp with
  | nil => exact ⟨h, rfl, rfl, rfl⟩
  | @snoc log middle next label hp hs ih =>
      obtain ⟨hi, hconts, hserials, hcoro⟩ := ih fun event he =>
        hn event (List.mem_cons_of_mem _ he)
      have hparked : (middle.conts idx).Parked := hconts ▸ hc
      have hresumes : label.resumes (middle.serials idx) = false :=
        hserials ▸ hn label List.mem_cons_self
      have hstays := hs.move.stays hi hparked hresumes
      refine ⟨hs.move.invariant hi, hstays.conts.trans hconts, hstays.serials.trans hserials, ?_⟩
      rw [hstays.coroutine, hcoro, ← scanned_append]
      rfl

-- The switch back to a coroutine runs what its own frames hold.
theorem Step.resumes {action : Action} {serial : Nat} {how : Resumed} (h : m.Invariant)
    (hs : Step m ⟨action, .resumed serial how⟩ next) (hidle : m.conts idx ≠ .idle)
    (hserial : m.serials idx = serial) :
    ∃ coro, m.resume idx = some (.ok (coro, how)) ∧
      (m.sched.coroutines idx).state = .runnable := by
  have hm := hs.move
  generalize hev : (⟨action, .resumed serial how⟩ : Event) = event at hm
  cases hm with
  | @resumed sp slot coro how' hpc hcurrent hr =>
      simp only [Event.mk.injEq, Output.resumed.injEq] at hev
      obtain ⟨-, rfl, rfl⟩ := hev
      obtain ⟨hslot, -, -⟩ := resume_how hr
      obtain rfl := h.serial_inj idx slot hidle hslot hserial
      exact ⟨coro, hr, h.picked idx hcurrent⟩
  | clean => cases hev
  | _ => cases hev

-- How the call that a coroutine has left returns: in no other way, and as soon as it is picked.
def Returns (m : Machine) (idx : Slot) (how : Resumed) : Prop :=
  (∀ action other next, Step m ⟨action, .resumed (m.serials idx) other⟩ next → other = how) ∧
    (m.pc = .switch → m.sched.current = some idx →
      ∀ sp, ∃ next, Step m ⟨.switch sp, .resumed (m.serials idx) how⟩ next)

theorem Reachable.returns {how : Resumed} (h : Reachable m) (hp : (m.conts idx).Parked)
    (hfresh : m.conts idx ≠ .fresh)
    (honly : ∀ coro other, m.resume idx = some (.ok (coro, other)) → other = how) :
    m.Returns idx how := by
  refine ⟨?_, ?_⟩
  · intro action other next hs
    obtain ⟨coro, hresume, -⟩ := hs.resumes (Reachable.holds h) hp.1 rfl
    exact honly coro other hresume
  · intro hpc hcurrent sp
    obtain ⟨coro, other, hresume, hs⟩ := h.switch_step hpc hcurrent hfresh sp
    rw [honly coro other hresume] at hs
    exact ⟨_, hs⟩

theorem Step.slept {nanosec now sp : UInt64} {serial : Nat}
    (hs : Step m ⟨.nanosleep nanosec now sp, .left serial⟩ next) :
    ∃ idx, m.sched.current = some idx ∧ next.conts idx = .sleeping ∧ next.serials idx = serial ∧
      (next.sched.coroutines idx).state = .blockedOnTimer ∧
      (next.sched.coroutines idx).deadline = u64Satadd now nanosec := by
  have hm := hs.move
  generalize hev : (⟨.nanosleep nanosec now sp, .left serial⟩ : Event) = event at hm
  cases hm with
  | @slept _ _ _ idx hpc hcurrent =>
      cases hev
      exact ⟨idx, hcurrent, by simp [Machine.leave], rfl,
        by simp [Machine.leave, Coroutine.suspendTimer],
        by simp [Machine.leave, Coroutine.suspendTimer]⟩
  | _ => cases hev

theorem Step.suspended {direction : Direction} {sock : Int32} {nanosec now sp : UInt64}
    {serial : Nat} (hs : Step m ⟨.suspendIo direction sock nanosec now sp, .left serial⟩ next) :
    ∃ idx, m.sched.current = some idx ∧ next.conts idx = .waiting sock direction.events ∧
      next.serials idx = serial ∧ (next.sched.coroutines idx).state = .blockedOnIo ∧
      (next.sched.coroutines idx).sock = sock ∧
      (next.sched.coroutines idx).events = direction.events ∧
      (next.sched.coroutines idx).deadline = u64Satadd now nanosec := by
  have hm := hs.move
  generalize hev : (⟨.suspendIo direction sock nanosec now sp, .left serial⟩ : Event) = event at hm
  cases hm with
  | @suspended _ _ _ _ _ idx coro hpc hcurrent hsock hcoro =>
      cases hev
      subst hcoro
      exact ⟨idx, hcurrent, by simp [Machine.leave], rfl, by simp [Machine.leave],
        by simp [Machine.leave], by simp [Machine.leave], by simp [Machine.leave]⟩
  | _ => cases hev

end Machine

end Minimk.Runtime
