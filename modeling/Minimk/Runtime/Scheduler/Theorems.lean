import Minimk.RoundRobin
import Minimk.Runtime.Coroutine.Theorems
import Minimk.Runtime.Scheduler

namespace Minimk.Runtime.Scheduler

open Abort Integer

variable {sched : Scheduler} {idx : Slot} {now : UInt64}

@[simp] theorem set_coroutines (sched : Scheduler) (idx : Slot) (coro : Coroutine) :
    (sched.set idx coro).coroutines = Function.update sched.coroutines idx coro := rfl

@[simp] theorem set_current (sched : Scheduler) (idx : Slot) (coro : Coroutine) :
    (sched.set idx coro).current = sched.current := rfl

theorem findFreeCoroutineSlot_eq_ok (h : sched.findFreeCoroutineSlot = .ok idx) :
    (sched.coroutines idx).state = .null := by
  unfold findFreeCoroutineSlot at h
  split at h
  · rename_i found hf
    obtain rfl : found = idx := by simpa using h
    simpa using List.find?_some hf
  · cases h

-- The scan for a free slot stops at the first one.
theorem findFreeCoroutineSlot_first {other : Slot}
    (h : sched.findFreeCoroutineSlot = .ok idx) (hlt : other < idx) :
    (sched.coroutines other).state ≠ .null := by
  unfold findFreeCoroutineSlot at h
  split at h
  · rename_i found hfind
    obtain rfl : found = idx := by simpa using h
    obtain ⟨-, i, hi, hget, hbefore⟩ := List.find?_eq_some_iff_getElem.mp hfind
    have hval : i = found.val := by
      have he := congrArg Fin.val hget
      simpa using he
    have hlt : other.val < found.val := hlt
    have hother := hbefore other.val (by omega)
    simpa using hother
  · cases h

theorem findFreeCoroutineSlot_eq_error {rv : Error} (h : sched.findFreeCoroutineSlot = .error rv) :
    rv = .eagain ∧ ∀ idx, (sched.coroutines idx).state ≠ .null := by
  unfold findFreeCoroutineSlot at h
  split at h
  · cases h
  · rename_i hn
    refine ⟨by simpa using h.symm, ?_⟩
    intro idx
    simpa using List.find?_eq_none.mp hn idx (List.mem_finRange idx)

theorem fairSlot_add_val (fair : UInt64) (count : Nat) :
    (fairSlot (fair + count.toUInt64)).val = (fair.toNat + count) % MAX_COROS := by
  have hcount : count.toUInt64.toNat = count % 2 ^ 64 := UInt64.toNat_ofNat' ..
  simp only [fairSlot, UInt64.toNat_add, hcount, MAX_COROS]
  omega

theorem add_one_add (fair : UInt64) (offset : Nat) :
    fair + 1 + offset.toUInt64 = fair + (offset + 1).toUInt64 := by
  have ho : (offset + 1).toUInt64 = offset.toUInt64 + 1 := UInt64.ofNat_add offset 1
  rw [ho, UInt64.add_assoc, UInt64.add_comm 1]

theorem pickRunnableLoop_eq_some {count : Nat} {fair next : UInt64}
    (h : sched.pickRunnableLoop count fair = (some idx, next)) :
    (sched.coroutines idx).state = .runnable := by
  induction count generalizing fair with
  | zero => simp [pickRunnableLoop] at h
  | succ count ih =>
      simp only [pickRunnableLoop] at h
      split at h
      · rename_i hr
        obtain ⟨rfl, -⟩ : fairSlot fair = idx ∧ fair + 1 = next := by simpa using h
        exact hr
      · exact ih h

-- The scan visits the slots behind the cursor one by one, also across the wrap of the cursor.
theorem pickRunnableLoop_eq_none {count : Nat} {fair next : UInt64}
    (h : sched.pickRunnableLoop count fair = (none, next)) (offset : Nat) (ho : offset < count) :
    (sched.coroutines (fairSlot (fair + offset.toUInt64))).state ≠ .runnable := by
  induction count generalizing fair offset with
  | zero => omega
  | succ count ih =>
      simp only [pickRunnableLoop] at h
      split at h
      · simp at h
      · rename_i hr
        cases offset with
        | zero =>
            have hz : fair + Nat.toUInt64 0 = fair := by simp
            rwa [hz]
        | succ offset =>
            rw [← add_one_add]
            exact ih h offset (by omega)

theorem pickRunnable_eq_some {fair next : UInt64}
    (h : sched.pickRunnable fair = (some idx, next)) : (sched.coroutines idx).state = .runnable :=
  pickRunnableLoop_eq_some h

theorem fairSlot_add_distance (fair : UInt64) (idx : Slot) :
    fairSlot (fair + (RoundRobin.distance fair.toNat idx).toUInt64) = idx := by
  have hd := RoundRobin.distance_cases fair.toNat idx
  apply Fin.ext
  rw [fairSlot_add_val]
  simp only [MAX_COROS] at *
  omega

theorem distance_fairSlot_add (fair : UInt64) {offset : Nat} (ho : offset < MAX_COROS) :
    RoundRobin.distance fair.toNat (fairSlot (fair + offset.toUInt64)) = offset := by
  have hd := RoundRobin.distance_cases fair.toNat (fairSlot (fair + offset.toUInt64))
  rw [fairSlot_add_val] at hd
  simp only [MAX_COROS] at *
  omega

theorem pickRunnable_eq_none {fair next : UInt64} (h : sched.pickRunnable fair = (none, next))
    (idx : Slot) : (sched.coroutines idx).state ≠ .runnable := by
  have hs := pickRunnableLoop_eq_none h _ (RoundRobin.distance_lt fair.toNat idx)
  rwa [fairSlot_add_distance] at hs

theorem pickRunnableLoop_scan {count : Nat} {fair next : UInt64}
    (h : sched.pickRunnableLoop count fair = (some idx, next)) :
    ∃ offset < count, idx = fairSlot (fair + offset.toUInt64) ∧
      next = fair + offset.toUInt64 + 1 ∧
      ∀ earlier < offset,
        (sched.coroutines (fairSlot (fair + earlier.toUInt64))).state ≠ .runnable := by
  induction count generalizing fair with
  | zero => simp [pickRunnableLoop] at h
  | succ count ih =>
      have hz : fair + Nat.toUInt64 0 = fair := by simp
      simp only [pickRunnableLoop] at h
      split at h
      · simp only [Prod.mk.injEq, Option.some.injEq] at h
        refine ⟨0, Nat.succ_pos count, ?_, ?_, ?_⟩
        · rw [hz]
          exact h.1.symm
        · rw [hz]
          exact h.2.symm
        · intro earlier he
          omega
      · rename_i hr
        obtain ⟨offset, hlt, hidx, hnext, hearlier⟩ := ih h
        rw [add_one_add] at hidx hnext
        refine ⟨offset + 1, by omega, hidx, hnext, ?_⟩
        intro earlier he
        cases earlier with
        | zero => rwa [hz]
        | succ earlier =>
            rw [← add_one_add]
            exact hearlier earlier (by omega)

-- One call of the picker is a round-robin pick, also where the cursor wraps around.
theorem pickRunnable_turn {fair next : UInt64}
    (h : sched.pickRunnable fair = (some idx, next)) :
    RoundRobin.Pick (fun idx => (sched.coroutines idx).state = .runnable) fair.toNat idx
      next.toNat := by
  obtain ⟨offset, hlt, rfl, rfl, hearlier⟩ := pickRunnableLoop_scan h
  refine ⟨pickRunnable_eq_some h, ?_, ?_⟩
  · intro other hother
    rw [distance_fairSlot_add fair hlt]
    by_contra hn
    have hs := hearlier (RoundRobin.distance fair.toNat other) (by omega)
    rw [fairSlot_add_distance] at hs
    exact hs hother
  · have hcount : offset.toUInt64.toNat = offset % 2 ^ 64 := UInt64.toNat_ofNat' ..
    rw [fairSlot_add_val, UInt64.toNat_add, UInt64.toNat_add, hcount]
    change ((fair.toNat + offset % 2 ^ 64) % 2 ^ 64 + 1) % 2 ^ 64 % 16 =
      ((fair.toNat + offset) % 16 + 1) % 16
    omega

theorem countNonnullCoroutines_pos_iff :
    0 < sched.countNonnullCoroutines ↔ ∃ idx, (sched.coroutines idx).state ≠ .null := by
  simp [countNonnullCoroutines, List.countP_pos_iff]

-- What one scan of the table asserts of a slot.
def PollReady (coro : Coroutine) : Prop :=
  coro.state = .blockedOnIo → coro.sock ≠ invalidSocket ∧ coro.events ≠ 0 ∧ coro.revents = 0

def pollfdOf (coro : Coroutine) : Pollfd :=
  if coro.state = .blockedOnIo then ⟨coro.sock, coro.events⟩ else ⟨0, 0⟩

def pollDeadlineStep (sched : Scheduler) (deadline : UInt64) (idx : Slot) : UInt64 :=
  let coro := sched.coroutines idx
  if coro.state = .blockedOnTimer ∨ coro.state = .blockedOnIo then
    if coro.deadline < deadline then coro.deadline else deadline
  else deadline

theorem pollScanStep_eq (hready : PollReady (sched.coroutines idx))
    (acc : UInt64 × (Slot → Pollfd)) :
    sched.pollScanStep acc idx = .ok (sched.pollDeadlineStep acc.1 idx,
      if (sched.coroutines idx).state = .blockedOnIo then
        Function.update acc.2 idx (pollfdOf (sched.coroutines idx))
      else acc.2) := by
  cases hs : (sched.coroutines idx).state with
  | blockedOnIo =>
      obtain ⟨hsock, hevents, hrevents⟩ := hready hs
      simp [pollScanStep, pollDeadlineStep, pollfdOf, hs, hsock, hevents, hrevents]
  | null | runnable | exited | blockedOnTimer => simp [pollScanStep, pollDeadlineStep, hs]

theorem foldlM_pollScanStep (hready : ∀ idx, PollReady (sched.coroutines idx)) (slots : List Slot)
    (acc : UInt64 × (Slot → Pollfd)) :
    slots.foldlM sched.pollScanStep acc = .ok (slots.foldl sched.pollDeadlineStep acc.1,
      fun idx => if idx ∈ slots ∧ (sched.coroutines idx).state = .blockedOnIo then
        pollfdOf (sched.coroutines idx) else acc.2 idx) := by
  induction slots generalizing acc with
  | nil => simp
  | cons first rest ih =>
      rw [List.foldlM_cons, pollScanStep_eq (hready first), ok_bind, ih]
      congr 2
      funext idx
      by_cases hr : idx ∈ rest ∧ (sched.coroutines idx).state = .blockedOnIo
      · simp [hr]
      · by_cases he : idx = first
        · subst he
          by_cases hs : (sched.coroutines idx).state = .blockedOnIo <;> simp [hs]
        · by_cases hs : (sched.coroutines first).state = .blockedOnIo <;> simp [hr, he, hs]

def pollDeadline (sched : Scheduler) (now : UInt64) : UInt64 :=
  (List.finRange MAX_COROS).foldl sched.pollDeadlineStep (u64Satadd now 10000000000)

theorem pollScan_eq (hready : ∀ idx, PollReady (sched.coroutines idx)) (now : UInt64) :
    sched.pollScan now =
      .ok (sched.pollDeadline now, fun idx => pollfdOf (sched.coroutines idx)) := by
  rw [pollScan, foldlM_pollScanStep hready]
  congr 2
  funext idx
  by_cases hs : (sched.coroutines idx).state = .blockedOnIo <;>
    simp [hs, List.mem_finRange, pollfdOf]

def pollCall (sched : Scheduler) (now : UInt64) : PollCall :=
  ⟨fun idx => pollfdOf (sched.coroutines idx), pollTimeout now (sched.pollDeadline now)⟩

theorem blockOnPoll_eq (hready : ∀ idx, PollReady (sched.coroutines idx)) (now : UInt64)
    (reply : PollReply) :
    sched.blockOnPoll now reply =
      if reply.rc = .eintr then .ok (sched, sched.pollCall now)
      else if reply.rc = .success then
        .ok (sched.resumeAll reply.now reply.revents, sched.pollCall now)
      else .error .blockOnPollRc := by
  simp only [blockOnPoll, pollScan_eq hready, ok_bind, pollCall]
  by_cases he : reply.rc = .eintr
  · simp [he]
  · by_cases hs : reply.rc = .success <;> simp [he, hs, assert]

end Minimk.Runtime.Scheduler
