import Minimk.Runtime.Phases
import Mathlib.Order.Bounds.Defs

namespace Minimk.Runtime

open Abort Integer

namespace Scheduler

variable {sched next : Scheduler} {now : UInt64} {idx : Slot}

theorem pollDeadlineStep_cases (sched : Scheduler) (deadline : UInt64) (idx : Slot) :
    ((sched.coroutines idx).Blocked ∧
      sched.pollDeadlineStep deadline idx = (sched.coroutines idx).deadline ∧
      (sched.coroutines idx).deadline < deadline) ∨
    (sched.pollDeadlineStep deadline idx = deadline ∧
      ((sched.coroutines idx).Blocked → deadline ≤ (sched.coroutines idx).deadline)) := by
  by_cases hb : (sched.coroutines idx).Blocked
  · have hstep : sched.pollDeadlineStep deadline idx =
        if (sched.coroutines idx).deadline < deadline then (sched.coroutines idx).deadline
        else deadline := if_pos hb
    rw [hstep]
    by_cases hlt : (sched.coroutines idx).deadline < deadline
    · rw [if_pos hlt]
      exact .inl ⟨hb, rfl, hlt⟩
    · rw [if_neg hlt]
      exact .inr ⟨rfl, fun _ => UInt64.not_lt.mp hlt⟩
  · exact .inr ⟨if_neg hb, fun h => absurd h hb⟩

-- The scan keeps the least of what it has seen.
theorem foldl_pollDeadlineStep (sched : Scheduler) (slots : List Slot) (deadline : UInt64) :
    (slots.foldl sched.pollDeadlineStep deadline = deadline ∨
      ∃ idx, (sched.coroutines idx).Blocked ∧
        slots.foldl sched.pollDeadlineStep deadline = (sched.coroutines idx).deadline) ∧
    slots.foldl sched.pollDeadlineStep deadline ≤ deadline ∧
    ∀ idx ∈ slots, (sched.coroutines idx).Blocked →
      slots.foldl sched.pollDeadlineStep deadline ≤ (sched.coroutines idx).deadline := by
  induction slots generalizing deadline with
  | nil =>
      refine ⟨.inl rfl, UInt64.le_refl deadline, ?_⟩
      intro idx hm
      exact absurd hm List.not_mem_nil
  | cons first rest ih =>
      obtain ⟨hmem, hle, hall⟩ := ih (sched.pollDeadlineStep deadline first)
      rcases sched.pollDeadlineStep_cases deadline first with ⟨hb, he, hlt⟩ | ⟨he, hkeep⟩
      · rw [List.foldl_cons, he]
        rw [he] at hmem hle hall
        refine ⟨.inr ?_, UInt64.le_trans hle (UInt64.le_of_lt hlt), ?_⟩
        · rcases hmem with hd | hd
          · exact ⟨first, hb, hd⟩
          · exact hd
        · intro idx hm hblocked
          rcases List.mem_cons.mp hm with rfl | hm
          · exact hle
          · exact hall idx hm hblocked
      · rw [List.foldl_cons, he]
        rw [he] at hmem hle hall
        refine ⟨hmem, hle, ?_⟩
        intro idx hm hblocked
        rcases List.mem_cons.mp hm with rfl | hm
        · exact UInt64.le_trans hle (hkeep hblocked)
        · exact hall idx hm hblocked

-- What the scan looks for: the default deadline ten seconds away and those of the coroutines
-- that are blocked, in exact integers.
def pollDeadlines (sched : Scheduler) (now : UInt64) : Set Nat :=
  {deadline | deadline = min (now.toNat + 10000000000) (2 ^ 64 - 1) ∨
    ∃ idx, (sched.coroutines idx).Blocked ∧ deadline = (sched.coroutines idx).deadline.toNat}

theorem pollDeadline_isLeast (sched : Scheduler) (now : UInt64) :
    IsLeast (sched.pollDeadlines now) (sched.pollDeadline now).toNat := by
  obtain ⟨hmem, hle, hall⟩ := foldl_pollDeadlineStep sched (List.finRange MAX_COROS)
    (u64Satadd now 10000000000)
  have hdefault : (u64Satadd now 10000000000).toNat =
      min (now.toNat + 10000000000) (2 ^ 64 - 1) := by
    rw [toNat_u64Satadd]
    rfl
  refine ⟨?_, ?_⟩
  · rcases hmem with he | ⟨idx, hb, he⟩
    · refine .inl ?_
      rw [pollDeadline, he, hdefault]
    · refine .inr ⟨idx, hb, ?_⟩
      rw [pollDeadline, he]
  · intro deadline hm
    rcases hm with he | ⟨idx, hb, he⟩
    · rw [he, ← hdefault]
      exact UInt64.le_iff_toNat_le.mp hle
    · rw [he]
      exact UInt64.le_iff_toNat_le.mp (hall idx (List.mem_finRange idx) hb)

theorem pollTimeout_eq {now deadline : UInt64}
    (h : deadline.toNat ≤ now.toNat + 10000000000) :
    pollTimeout now deadline = ((deadline.toNat - now.toNat) / 1000000 + 1 : Nat) := by
  have hwait : (if deadline > now then deadline - now else 0).toNat =
      deadline.toNat - now.toNat := by
    by_cases hlt : deadline > now
    · rw [if_pos hlt, UInt64.toNat_sub_of_le _ _ (UInt64.le_of_lt hlt)]
    · have hle := UInt64.le_iff_toNat_le.mp (UInt64.not_lt.mp hlt)
      rw [if_neg hlt]
      change 0 = _
      omega
  have htimeout : ((if deadline > now then deadline - now else 0) / 1000000 + 1).toNat =
      (deadline.toNat - now.toNat) / 1000000 + 1 := by
    rw [UInt64.toNat_add, UInt64.toNat_div, hwait]
    change ((deadline.toNat - now.toNat) / 1000000 + 1) % 2 ^ 64 = _
    omega
  have hmax : (if deadline > now then deadline - now else 0) / 1000000 + 1 < INT_MAX := by
    rw [UInt64.lt_iff_toNat_lt, htimeout]
    change _ < 2147483647
    omega
  simp only [pollTimeout, hmax, ↓reduceIte, htimeout]

-- The timeout ends after the deadline, and by less than one millisecond more than needed.
theorem pollTimeout_bounds {now deadline : UInt64}
    (h : deadline.toNat ≤ now.toNat + 10000000000) :
    1 ≤ pollTimeout now deadline ∧ pollTimeout now deadline ≤ 10001 ∧
      (max deadline.toNat now.toNat : Nat) < now.toNat + pollTimeout now deadline * 1000000 ∧
      now.toNat + pollTimeout now deadline * 1000000 ≤
        (max deadline.toNat now.toNat : Nat) + 1000000 := by
  rw [pollTimeout_eq h]
  omega

end Scheduler

namespace Machine

variable {m : Machine}

-- The run loop is about to call `minimk_runtime_scheduler_block_on_poll`.
def CallsPoll (m : Machine) : Prop := m.pc = .poll ∧ m.sched.countNonnullCoroutines > 0

theorem Phases.blocked (h : m.Phases) (hpc : m.pc = .poll) {idx : Slot}
    (hs : (m.sched.coroutines idx).state ≠ .null) : (m.sched.coroutines idx).Blocked := by
  have hexited := h.not_exited (by simp [hpc]) (by simp [hpc]) idx
  have hrunnable : (m.sched.coroutines idx).state ≠ .runnable :=
    fun hr => h.runnable idx hr hpc
  unfold Coroutine.Blocked
  cases hstate : (m.sched.coroutines idx).state with
  | null => exact absurd hstate hs
  | runnable => exact absurd hstate hrunnable
  | exited => exact absurd hstate hexited
  | blockedOnTimer => exact .inl rfl
  | blockedOnIo => exact .inr rfl

theorem Reachable.poll_bounds (h : Reachable m) (hcalls : m.CallsPoll) (now : UInt64) :
    (∀ idx, (m.sched.coroutines idx).state ≠ .runnable ∧
      (m.sched.coroutines idx).state ≠ .exited) ∧
    (∃ idx, (m.sched.coroutines idx).Blocked) ∧
    ∃ (least : Nat) (timeout : Int),
      IsLeast (m.sched.pollDeadlines now) least ∧
      1 ≤ timeout ∧ timeout ≤ 10001 ∧
      (max least now.toNat : Nat) < now.toNat + timeout * 1000000 ∧
      now.toNat + timeout * 1000000 ≤ (max least now.toNat : Nat) + 1000000 ∧
      (∃ deadline fds, m.sched.pollScan now = .ok (deadline, fds) ∧
        Scheduler.pollTimeout now deadline = timeout) ∧
      (∀ reply, reply.rc = .success ∨ reply.rc = .eintr →
        ∃ next call, m.sched.blockOnPoll now reply = .ok (next, call) ∧
          Step m ⟨.poll now reply, .polled call⟩ { m with sched := next, pc := .loopTest }) ∧
      ∀ reply next call, m.sched.blockOnPoll now reply = .ok (next, call) →
        call.timeout = timeout ∧
        (reply.rc = .success → now.toNat + timeout * 1000000 ≤ reply.now.toNat →
          ∀ idx, (m.sched.coroutines idx).Blocked →
            (m.sched.coroutines idx).deadline.toNat ≤ least →
            (next.coroutines idx).state = .runnable) := by
  obtain ⟨hpc, hcount⟩ := hcalls
  have hphases := h.phases
  have hready := fun idx => ((Reachable.holds h).slots idx).pollReady
  refine ⟨?_, ?_, ?_⟩
  · intro idx
    exact ⟨fun hr => hphases.runnable idx hr hpc,
      hphases.not_exited (by simp [hpc]) (by simp [hpc]) idx⟩
  · obtain ⟨idx, hs⟩ := Scheduler.countNonnullCoroutines_pos_iff.mp hcount
    exact ⟨idx, hphases.blocked hpc hs⟩
  · have hleast := m.sched.pollDeadline_isLeast now
    have hle : (m.sched.pollDeadline now).toNat ≤ now.toNat + 10000000000 := by
      have hdefault := hleast.2 (.inl rfl)
      omega
    obtain ⟨hone, hbound, hlt, hlate⟩ := Scheduler.pollTimeout_bounds hle
    refine ⟨(m.sched.pollDeadline now).toNat, Scheduler.pollTimeout now (m.sched.pollDeadline now),
      hleast, hone, hbound, hlt, hlate, ?_, ?_, ?_⟩
    · exact ⟨_, _, Scheduler.pollScan_eq hready now, rfl⟩
    · intro reply hrc
      obtain ⟨next, hblock⟩ : ∃ next, m.sched.blockOnPoll now reply =
          .ok (next, m.sched.pollCall now) := by
        rw [Scheduler.blockOnPoll_eq hready]
        rcases hrc with hrc | hrc
        · exact ⟨m.sched.resumeAll reply.now reply.revents, by simp [hrc]⟩
        · exact ⟨m.sched, by simp [hrc]⟩
      refine ⟨next, m.sched.pollCall now, hblock, ?_⟩
      simp [Step, exec, hpc, poll, hcount, hblock]
    · intro reply next call hblock
      rw [Scheduler.blockOnPoll_eq hready] at hblock
      split at hblock
      · rename_i hrc
        simp only [Except.ok.injEq, Prod.mk.injEq] at hblock
        obtain ⟨-, rfl⟩ := hblock
        refine ⟨rfl, fun hsuccess => ?_⟩
        rw [hrc] at hsuccess
        cases hsuccess
      · split at hblock
        · simp only [Except.ok.injEq, Prod.mk.injEq] at hblock
          obtain ⟨rfl, rfl⟩ := hblock
          refine ⟨rfl, fun _ hnow idx hb hdeadline => ?_⟩
          apply Coroutine.maybeResume_of_deadline hb
          rw [UInt64.le_iff_toNat_le]
          omega
        · cases hblock

-- A coroutine that sleeps on its own, up to the call of poll.
def loneSleeper : List Action :=
  [.go 1 7 ⟨4096, some 0x10000, true⟩, .run, .loopTest, .clean, .expire 0, .pick, .switch 0x9000,
    .nanosleep 1500000 5 0x1f000, .loopTest, .clean, .expire 6, .pick]

-- Two milliseconds for a wait of one and a half, and the sleeper is woken after them.
theorem Reachable.poll_bounds_loneSleeper :
    ∃ next call, (initial.after loneSleeper).sched.blockOnPoll 7
        ⟨.success, fun _ => 0, 2000007⟩ = .ok (next, call) ∧
      call.timeout = 2 ∧ (next.coroutines 0).state = .runnable := by
  have hreach := (@after_run loneSleeper rfl).reachable
  have hcalls : (initial.after loneSleeper).CallsPoll :=
    ⟨rfl, by decide⟩
  obtain ⟨-, -, least, timeout, hleast, -, -, hlt, hlate, -, hreturns, hwakes⟩ :=
    Reachable.poll_bounds hreach hcalls 7
  have hblocked : ((initial.after loneSleeper).sched.coroutines 0).Blocked :=
    .inl rfl
  have hdeadline : ((initial.after loneSleeper).sched.coroutines 0).deadline.toNat = 1500005 := rfl
  have hle : least ≤ 1500005 := hleast.2 (.inr ⟨0, hblocked, hdeadline.symm⟩)
  have hge : 1500005 ≤ least := by
    rcases hleast.1 with hdefault | ⟨idx, hb, hd⟩
    · rw [hdefault]
      decide
    · have hlone : ∀ idx, ((initial.after loneSleeper).sched.coroutines idx).Blocked →
          1500005 ≤ ((initial.after loneSleeper).sched.coroutines idx).deadline.toNat := by
        decide
      rw [hd]
      exact hlone idx hb
  have hnow : (7 : UInt64).toNat = 7 := rfl
  have htimeout : timeout = 2 := by
    rw [hnow] at hlt hlate
    omega
  obtain ⟨next, call, hblock, -⟩ := hreturns ⟨.success, fun _ => 0, 2000007⟩ (.inl rfl)
  obtain ⟨hcall, hrunnable⟩ := hwakes _ _ _ hblock
  refine ⟨next, call, hblock, hcall.trans htimeout, ?_⟩
  apply hrunnable rfl _ 0 hblocked
  · omega
  · rw [htimeout]
    decide

end Machine

end Minimk.Runtime
