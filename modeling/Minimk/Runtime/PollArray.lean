import Minimk.Runtime.PollTimeout
import Minimk.Runtime.Wakeup.PollError

namespace Minimk.Runtime

namespace Scheduler

variable {sched : Scheduler} {now deadline : UInt64} {fds : Slot → Pollfd}

-- The array that poll(2) should see: it looks at the entries without a negative descriptor
-- alone, and reports hang-ups and errors for these even where no event is asked for.
def Names (sched : Scheduler) (fds : Slot → Pollfd) : Prop :=
  ∀ idx,
    ((sched.coroutines idx).state = .blockedOnIo →
      0 ≤ (fds idx).fd ∧ fds idx = ⟨(sched.coroutines idx).sock, (sched.coroutines idx).events⟩) ∧
    ((sched.coroutines idx).state ≠ .blockedOnIo → (fds idx).fd < 0)

-- The entries that the scan leaves alone stay zeroed, and zero is a descriptor.
theorem names_pollfdOf_iff :
    sched.Names (fun idx => pollfdOf (sched.coroutines idx)) ↔
      ∀ idx, (sched.coroutines idx).state = .blockedOnIo ∧ 0 ≤ (sched.coroutines idx).sock := by
  constructor
  · intro hnames idx
    obtain ⟨hio, hother⟩ := hnames idx
    by_cases hs : (sched.coroutines idx).state = .blockedOnIo
    · have hfd := (hio hs).1
      simp only [pollfdOf, hs, ↓reduceIte] at hfd
      exact ⟨hs, hfd⟩
    · have hfd := hother hs
      simp only [pollfdOf, hs, ↓reduceIte] at hfd
      exact absurd hfd (by decide)
  · intro hall idx
    obtain ⟨hs, hsock⟩ := hall idx
    refine ⟨fun _ => ?_, fun hne => absurd hs hne⟩
    simp only [pollfdOf, hs, ↓reduceIte]
    exact ⟨hsock, trivial⟩

end Scheduler

namespace Machine

variable {m : Machine} {now deadline : UInt64} {fds : Slot → Scheduler.Pollfd}

theorem Reachable.poll_names_iff (h : Reachable m)
    (hscan : m.sched.pollScan now = .ok (deadline, fds)) :
    m.sched.Names fds ↔
      ∀ idx, (m.sched.coroutines idx).state = .blockedOnIo ∧
        0 ≤ (m.sched.coroutines idx).sock := by
  have hready := fun idx => ((Reachable.holds h).slots idx).pollReady
  rw [Scheduler.pollScan_eq hready] at hscan
  simp only [Except.ok.injEq, Prod.mk.injEq] at hscan
  obtain ⟨-, rfl⟩ := hscan
  exact Scheduler.names_pollfdOf_iff

theorem patientReader_calls : (initial.after patientReader).CallsPoll :=
  ⟨rfl, by decide⟩

theorem Reachable.poll_names_iff_patientReader :
    ¬(initial.after patientReader).sched.Names
      (fun idx => Scheduler.pollfdOf ((initial.after patientReader).sched.coroutines idx)) := by
  have hreach := (@after_run patientReader rfl).reachable
  have hready := fun idx => ((Reachable.holds hreach).slots idx).pollReady
  intro hnames
  have hall := (Reachable.poll_names_iff hreach (Scheduler.pollScan_eq hready 7)).mp hnames
  exact absurd (hall 1).1 (by decide)

-- The free slots of a lone reader make poll look at descriptor 0.
theorem free_slot_names_stdin :
    ¬∀ m now deadline fds, Reachable m → m.CallsPoll →
      m.sched.pollScan now = .ok (deadline, fds) → m.sched.Names fds := by
  intro hclaim
  have hreach := (@after_run patientReader rfl).reachable
  have hready := fun idx => ((Reachable.holds hreach).slots idx).pollReady
  have hnames := hclaim _ _ _ _ hreach patientReader_calls (Scheduler.pollScan_eq hready 7)
  have hnegative := (hnames 1).2 (by decide)
  have hzero : (Scheduler.pollfdOf ((initial.after patientReader).sched.coroutines 1)).fd = 0 := rfl
  rw [hzero] at hnegative
  exact absurd hnegative (by decide)

end Machine

end Minimk.Runtime
