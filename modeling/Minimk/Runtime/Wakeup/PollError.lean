import Minimk.Runtime.Wakeup.Outcome

namespace Minimk.Runtime.Machine

open Transition

variable {m next last : Machine} {idx : Slot}

theorem Step.polled_success {now : UInt64} {reply : Scheduler.PollReply}
    {call : Scheduler.PollCall} (hs : Step m ⟨.poll now reply, .polled call⟩ next)
    (hrc : reply.rc = .success) :
    next = { m with sched := m.sched.resumeAll reply.now reply.revents, pc := .loopTest } := by
  have hm := hs.move
  generalize hev : (⟨.poll now reply, .polled call⟩ : Event) = event at hm
  cases hm with
  | pollInterrupted _ _ _ hrc' =>
      cases hev
      simp [hrc'] at hrc
  | polled =>
      cases hev
      rfl
  | _ => cases hev

-- A poll that succeeds is a step, whatever it reports.
theorem Invariant.poll_step (h : m.Invariant) (hpc : m.pc = .poll)
    (hcount : 0 < m.sched.countNonnullCoroutines) (now : UInt64) {reply : Scheduler.PollReply}
    (hrc : reply.rc = .success) :
    Step m ⟨.poll now reply, .polled (m.sched.pollCall now)⟩
      { m with sched := m.sched.resumeAll reply.now reply.revents, pc := .loopTest } := by
  have hready : ∀ idx, Scheduler.PollReady (m.sched.coroutines idx) := fun idx =>
    (h.slots idx).pollReady
  simp [Step, exec, hpc, poll, hcount, Scheduler.blockOnPoll_eq hready, hrc]

-- The scan after poll looks at the requested events and at the deadline, not at errors.
theorem Step.polled_runnable_iff {now : UInt64} {reply : Scheduler.PollReply}
    {call : Scheduler.PollCall} (hs : Step m ⟨.poll now reply, .polled call⟩ next)
    (hrc : reply.rc = .success) (hstate : (m.sched.coroutines idx).state = .blockedOnIo) :
    (next.sched.coroutines idx).state = .runnable ↔
      reply.revents idx &&& (m.sched.coroutines idx).events ≠ 0 ∨
        (m.sched.coroutines idx).deadline ≤ reply.now := by
  rw [hs.polled_success hrc]
  simp only [Scheduler.resumeAll, Coroutine.maybeResume_of_io hstate]
  rw [Int16.and_comm]
  split_ifs with hw
  · simpa using hw
  · simpa [hstate] using hw

-- What a woken coroutine reports was fixed by the poll that woke it.
theorem Step.polled_outcome {now : UInt64} {reply : Scheduler.PollReply}
    {call : Scheduler.PollCall} {between : List Event} (h : Reachable m)
    (hs : Step m ⟨.poll now reply, .polled call⟩ next) (hrc : reply.rc = .success)
    (hstate : (m.sched.coroutines idx).state = .blockedOnIo)
    (hw : (next.sched.coroutines idx).state = .runnable) (hp : Path Step next between last)
    (hn : ∀ event ∈ between, event.resumes (m.serials idx) = false) :
    last.serials idx = m.serials idx ∧ last.Returns idx (.suspendIoReturns
      (Coroutine.ioResult (reply.revents idx) (m.sched.coroutines idx).events)) := by
  have hi := Reachable.holds h
  obtain ⟨sock, events, hconts, hwaiting⟩ := (hi.slots idx).waiting_of_io hstate
  have hdue := (hs.polled_runnable_iff hrc hstate).mp hw
  have hnext := hs.polled_success hrc
  have hwoken : next.sched.coroutines idx = { m.sched.coroutines idx with
      deadline := 0, state := .runnable, sock := invalidSocket, events := 0,
      revents := reply.revents idx } := by
    rw [hnext]
    simp only [Scheduler.resumeAll, Coroutine.maybeResume_of_io hstate]
    rw [if_pos (by rwa [Int16.and_comm])]
  have hconts' : next.conts idx = .waiting sock events := by rw [hnext]; exact hconts
  have hserials : next.serials idx = m.serials idx := by rw [hnext]
  have hparked : (next.conts idx).Parked := by simp [Cont.Parked, hconts']
  obtain ⟨-, hlast, hserial, hcoro⟩ :=
    Path.stays (hs.move.invariant hi) hp hparked (by rwa [hserials])
  rw [hwoken, scanned_of_not_blocked (by simp) (by simp)] at hcoro
  refine ⟨hserial.trans hserials, ?_⟩
  apply Reachable.returns ((h.snoc hs).append hp)
  · rw [hlast]
    exact hparked
  · simp [hlast, hconts']
  · intro coro other hresume
    have hhow := resume_waiting (hlast.trans hconts') (by rw [hcoro]) (by rw [hcoro])
      (by rw [hcoro]) hresume
    rw [hhow, hcoro, hwaiting.events_eq]

theorem Reachable.poll_wakes_iff {now : UInt64} {reply : Scheduler.PollReply}
    {call : Scheduler.PollCall} (h : Reachable m)
    (hs : Step m ⟨.poll now reply, .polled call⟩ next) (hrc : reply.rc = .success) :
    (∀ idx, (m.sched.coroutines idx).state = .blockedOnIo →
      reply.revents idx &&& (m.sched.coroutines idx).events ≠ 0 ∨
        reply.revents idx &&& POLLERR ≠ 0 →
      (next.sched.coroutines idx).state = .runnable ∧
        ∀ between last, Path Step next between last →
          (∀ event ∈ between, event.resumes (m.serials idx) = false) →
          last.serials idx = m.serials idx ∧ last.Returns idx (.suspendIoReturns .success)) ↔
    (∀ idx, (m.sched.coroutines idx).state = .blockedOnIo → reply.revents idx &&& POLLERR ≠ 0 →
      reply.revents idx &&& (m.sched.coroutines idx).events ≠ 0 ∨
        (m.sched.coroutines idx).deadline ≤ reply.now) := by
  constructor
  · intro hwakes idx hstate herr
    exact (hs.polled_runnable_iff hrc hstate).mp (hwakes idx hstate (.inr herr)).1
  · intro hdue idx hstate hrevents
    have hw : (next.sched.coroutines idx).state = .runnable := by
      rw [hs.polled_runnable_iff hrc hstate]
      rcases hrevents with hevents | herr
      · exact .inl hevents
      · exact hdue idx hstate herr
    refine ⟨hw, ?_⟩
    intro between last hp hn
    have houtcome := hs.polled_outcome h hrc hstate hw hp hn
    rw [Coroutine.ioResult, if_pos hrevents] at houtcome
    exact houtcome

-- A reader without a timeout, up to the poll.
def patientReader : List Action :=
  [.go 1 7 ⟨4096, some 0x10000, true⟩, .run, .loopTest, .clean, .expire 0, .pick, .switch 0x9000,
    .suspendIo .read 3 0xffffffffffffffff 5 0x1f000, .loopTest, .clean, .expire 6, .pick]

-- After the poll, and on to the next pick.
def patientReaderPolled (revents : Slot → Int16) : Machine :=
  { initial.after patientReader with
    sched := (initial.after patientReader).sched.resumeAll 8 revents
    pc := .loopTest }

def patientReaderPicked : List Action := [.loopTest, .clean, .expire 9, .pick]

theorem patientReader_polls (revents : Slot → Int16) :
    Step (initial.after patientReader)
      ⟨.poll 7 ⟨.success, revents, 8⟩, .polled ((initial.after patientReader).sched.pollCall 7)⟩
      (patientReaderPolled revents) := by
  have hi := Reachable.holds (@after_run patientReader rfl).reachable
  exact hi.poll_step rfl (by decide) 7 rfl

theorem Reachable.poll_wakes_iff_patientReader :
    ((patientReaderPolled fun _ => POLLIN).sched.coroutines 0).state = .runnable ∧
      ∃ next, Step ((patientReaderPolled fun _ => POLLIN).after patientReaderPicked)
        ⟨.switch 0x9000, .resumed 0 (.suspendIoReturns .success)⟩ next := by
  have hreach := (@after_run patientReader rfl).reachable
  have hwakes := Reachable.poll_wakes_iff hreach (patientReader_polls fun _ => POLLIN) rfl
  obtain ⟨hrunnable, hreturns⟩ := hwakes.mpr (by decide) 0 rfl (by decide)
  have hpicked := @after_path (patientReaderPolled fun _ => POLLIN) patientReaderPicked rfl
  obtain ⟨hserial, -, hswitches⟩ := hreturns _ _ hpicked (by decide)
  obtain ⟨next, hnext⟩ := hswitches rfl rfl 0x9000
  rw [hserial] at hnext
  exact ⟨hrunnable, next, hnext⟩

-- An error alone leaves the reader blocked, and poll would report it again at once.
theorem poll_error_leaves_blocked :
    ¬∀ m now reply call next, Reachable m → Step m ⟨.poll now reply, .polled call⟩ next →
      reply.rc = .success → ∀ idx, (m.sched.coroutines idx).state = .blockedOnIo →
        reply.revents idx &&& (m.sched.coroutines idx).events ≠ 0 ∨
          reply.revents idx &&& POLLERR ≠ 0 →
        (next.sched.coroutines idx).state = .runnable := by
  intro hclaim
  have hreach := (@after_run patientReader rfl).reachable
  have hrunnable := hclaim _ _ _ _ _ hreach (patientReader_polls fun _ => POLLERR) rfl 0 rfl
    (by decide)
  have hblocked : ((patientReaderPolled fun _ => POLLERR).sched.coroutines 0).state =
      .blockedOnIo := rfl
  rw [hblocked] at hrunnable
  cases hrunnable

end Minimk.Runtime.Machine
