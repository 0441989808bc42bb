import Minimk.Runtime.Wakeup.Theorems

namespace Minimk.Runtime.Machine

open Transition

variable {m first last next : Machine} {between : List Event} {idx : Slot}

-- Every entry that poll sees is made from the coroutine of its own slot.
theorem Step.polled_fds {now : UInt64} {reply : Scheduler.PollReply} {call : Scheduler.PollCall}
    (h : m.Invariant) (hs : Step m ⟨.poll now reply, .polled call⟩ next) (idx : Slot) :
    call.fds idx = Scheduler.pollfdOf (m.sched.coroutines idx) := by
  have hready : ∀ idx, Scheduler.PollReady (m.sched.coroutines idx) := fun idx =>
    (h.slots idx).pollReady
  have hfds : ∀ {deadline fds}, m.sched.pollScan now = .ok (deadline, fds) →
      fds idx = Scheduler.pollfdOf (m.sched.coroutines idx) := by
    intro deadline fds hscan
    rw [Scheduler.pollScan_eq hready] at hscan
    simp only [Except.ok.injEq, Prod.mk.injEq] at hscan
    rw [← hscan.2]
  have hm := hs.move
  generalize hev : (⟨.poll now reply, .polled call⟩ : Event) = event at hm
  cases hm with
  | pollInterrupted _ _ hscan _ | polled _ _ hscan _ =>
      cases hev
      exact hfds hscan
  | _ => cases hev

-- A sleeper goes on in its own call, and only a late enough scan wakes it.
theorem Path.slept {nanosec now sp : UInt64} {serial : Nat} (h : Reachable m)
    (hs : Step m ⟨.nanosleep nanosec now sp, .left serial⟩ first)
    (hp : Path Step first between last)
    (hn : ∀ event ∈ between, event.resumes serial = false) :
    ∃ idx, m.sched.current = some idx ∧ last.conts idx = .sleeping ∧
      last.serials idx = serial ∧ last.Returns idx .nanosleepReturns ∧
      ((last.sched.coroutines idx).state = .runnable →
        ∃ scan ∈ between, ∃ clock revents,
          scan.scan = some (clock, revents) ∧ waitEnd now nanosec ≤ clock.toNat) := by
  obtain ⟨idx, hcurrent, hconts, hserial, hstate, hdeadline⟩ := hs.slept
  have hparked : (first.conts idx).Parked := by simp [Cont.Parked, hconts]
  obtain ⟨hi, hconts', hserials', hcoro⟩ :=
    Path.stays (hs.move.invariant (Reachable.holds h)) hp hparked (by rwa [hserial])
  refine ⟨idx, hcurrent, hconts'.trans hconts, hserials'.trans hserial, ?_, ?_⟩
  · apply Reachable.returns ((h.snoc hs).append hp)
    · simp [Cont.Parked, hconts', hconts]
    · simp [hconts', hconts]
    · intro coro other hresume
      cases resume_regains hresume with
      | sleeping => rfl
      | fresh hother | yielded hother | waiting hother => simp [hconts', hconts] at hother
  · intro hrunnable
    by_contra hno
    push Not at hno
    have hsame : scanned idx between (first.sched.coroutines idx) =
        first.sched.coroutines idx := by
      refine scanned_of_timer hstate fun event he clock revents hscan => ?_
      have hlt := hno event he clock revents hscan
      rw [hdeadline, UInt64.lt_iff_toNat_lt, toNat_waitEnd]
      exact hlt
    rw [hcoro, hsame, hstate] at hrunnable
    cases hrunnable

-- A coroutine in suspend_io: still blocked as it was left, or woken by the first due scan.
theorem Path.suspended {direction : Direction} {sock : Int32} {nanosec now sp : UInt64}
    {serial : Nat} (h : m.Invariant)
    (hs : Step m ⟨.suspendIo direction sock nanosec now sp, .left serial⟩ first)
    (hp : Path Step first between last)
    (hn : ∀ event ∈ between, event.resumes serial = false) :
    ∃ idx, m.sched.current = some idx ∧ last.Invariant ∧
      last.conts idx = .waiting sock direction.events ∧ last.serials idx = serial ∧
      ((∀ event ∈ between, ¬event.Wakes idx direction.events (waitEnd now nanosec)) ∧
        (last.sched.coroutines idx).state = .blockedOnIo ∧
        (last.sched.coroutines idx).sock = sock ∧
        (last.sched.coroutines idx).events = direction.events ∨
      ∃ after wake before clock revents, between = after ++ wake :: before ∧
        wake.scan = some (clock, revents) ∧
        wake.Wakes idx direction.events (waitEnd now nanosec) ∧
        (∀ event ∈ before, ¬event.Wakes idx direction.events (waitEnd now nanosec)) ∧
        (last.sched.coroutines idx).state = .runnable ∧
        (last.sched.coroutines idx).deadline = 0 ∧
        (last.sched.coroutines idx).sock = invalidSocket ∧
        (last.sched.coroutines idx).events = 0 ∧
        (last.sched.coroutines idx).revents = revents idx) := by
  obtain ⟨idx, hcurrent, hconts, hserial, hstate, hsock, hevents, hdeadline⟩ := hs.suspended
  have hparked : (first.conts idx).Parked := by simp [Cont.Parked, hconts]
  obtain ⟨hi, hconts', hserials', hcoro⟩ :=
    Path.stays (hs.move.invariant h) hp hparked (by rwa [hserial])
  refine ⟨idx, hcurrent, hi, hconts'.trans hconts, hserials'.trans hserial, ?_⟩
  have hend : (first.sched.coroutines idx).deadline.toNat = waitEnd now nanosec := by
    rw [hdeadline, toNat_waitEnd]
  have hcases := exists_first_wake idx direction.events (waitEnd now nanosec) between
  rw [← hevents, ← hend] at hcases ⊢
  rcases hcases with hno | ⟨after, wake, before, rfl, hw, hno⟩
  · rw [hcoro, scanned_of_not_wakes hstate hno]
    exact .inl ⟨hno, hstate, hsock, rfl⟩
  · obtain ⟨clock, revents, hscan, hdue⟩ := hw
    have hwoken := scanned_of_wakes hstate hno hscan ⟨clock, revents, hscan, hdue⟩
    refine .inr ⟨after, wake, before, clock, revents, rfl, hscan, ⟨clock, revents, hscan, hdue⟩,
      hno, ?_⟩
    rw [hcoro, scanned_append, hwoken, scanned_of_not_blocked (by simp) (by simp)]
    exact ⟨rfl, rfl, rfl, rfl, rfl⟩

theorem resume_waiting {sock : Int32} {events : Int16} {coro : Coroutine} {how : Resumed}
    (hconts : m.conts idx = .waiting sock events)
    (hdeadline : (m.sched.coroutines idx).deadline = 0)
    (hsock : (m.sched.coroutines idx).sock = invalidSocket)
    (hevents : (m.sched.coroutines idx).events = 0)
    (hr : m.resume idx = some (.ok (coro, how))) :
    how = .suspendIoReturns (Coroutine.ioResult (m.sched.coroutines idx).revents events) := by
  cases resume_regains hr with
  | waiting hother hio =>
      obtain ⟨rfl, rfl⟩ := Cont.waiting.inj (hother.symm.trans hconts)
      rw [Coroutine.resumeIo_eq hdeadline hsock hevents] at hio
      cases hio
      rfl
  | fresh hother | yielded hother | sleeping hother => simp [hconts] at hother

theorem Reachable.waits (h : Reachable m) :
    (∀ nanosec now sp serial first between last,
      Step m ⟨.nanosleep nanosec now sp, .left serial⟩ first → Path Step first between last →
      (∀ event ∈ between, event.resumes serial = false) →
      ∃ idx, m.sched.current = some idx ∧ last.serials idx = serial ∧
        last.Returns idx .nanosleepReturns ∧
        ∀ action how next, Step last ⟨action, .resumed serial how⟩ next →
          ∃ scan ∈ between, ∃ clock revents,
            scan.scan = some (clock, revents) ∧ waitEnd now nanosec ≤ clock.toNat) ∧
    (∀ direction sock nanosec now sp serial first between last,
      Step m ⟨.suspendIo direction sock nanosec now sp, .left serial⟩ first →
      Path Step first between last → (∀ event ∈ between, event.resumes serial = false) →
      ∃ idx, m.sched.current = some idx ∧ last.serials idx = serial ∧
        ((∀ event ∈ between, ¬event.Wakes idx direction.events (waitEnd now nanosec)) ∧
          (last.sched.coroutines idx).state = .blockedOnIo ∧
          (∀ clock reply call next, Step last ⟨.poll clock reply, .polled call⟩ next →
            call.fds idx = ⟨sock, direction.events⟩) ∧
          (∀ action how next, ¬Step last ⟨action, .resumed serial how⟩ next) ∨
        ∃ after wake before clock revents, between = after ++ wake :: before ∧
          wake.scan = some (clock, revents) ∧
          wake.Wakes idx direction.events (waitEnd now nanosec) ∧
          (∀ event ∈ before, ¬event.Wakes idx direction.events (waitEnd now nanosec)) ∧
          (last.sched.coroutines idx).state = .runnable ∧
          last.Returns idx (.suspendIoReturns
            (if revents idx &&& direction.events ≠ 0 ∨ revents idx &&& POLLERR ≠ 0 then .success
            else .etimedout)))) := by
  constructor
  · intro nanosec now sp serial first between last hs hp hn
    obtain ⟨idx, hcurrent, hconts, hserial, hreturns, hscans⟩ := Path.slept h hs hp hn
    refine ⟨idx, hcurrent, hserial, hreturns, ?_⟩
    intro action how next hr
    have hlast := Reachable.holds ((h.snoc hs).append hp)
    obtain ⟨_, _, hrunnable⟩ := hr.resumes hlast (by simp [hconts]) hserial
    exact hscans hrunnable
  · intro direction sock nanosec now sp serial first between last hs hp hn
    obtain ⟨idx, hcurrent, hlast, hconts, hserial, hcases⟩ :=
      Path.suspended (Reachable.holds h) hs hp hn
    refine ⟨idx, hcurrent, hserial, ?_⟩
    rcases hcases with ⟨hno, hstate, hsock, hevents⟩ |
      ⟨after, wake, before, clock, revents, hb, hscan, hw, hno, hstate, hdl, hsk, hev, hrv⟩
    · refine .inl ⟨hno, hstate, ?_, ?_⟩
      · intro clock reply call next hpoll
        rw [hpoll.polled_fds hlast, Scheduler.pollfdOf, if_pos hstate, hsock, hevents]
      · intro action how next hr
        obtain ⟨_, _, hrunnable⟩ := hr.resumes hlast (by simp [hconts]) hserial
        simp [hstate] at hrunnable
    · refine .inr ⟨after, wake, before, clock, revents, hb, hscan, hw, hno, hstate, ?_⟩
      apply Reachable.returns ((h.snoc hs).append hp)
      · simp [Cont.Parked, hconts]
      · simp [hconts]
      · intro coro other hresume
        rw [resume_waiting hconts hdl hsk hev hresume, hrv]
        rfl

def sleeperWaits : List Action := [.loopTest, .clean, .expire 300, .pick]

def readerWaits : List Action :=
  [.loopTest, .clean, .expire 6, .pick, .poll 7 ⟨.success, fun _ => POLLIN, 8⟩, .loopTest, .clean,
    .expire 9, .pick]

theorem Reachable.waits_aloneStarts :
    (∃ next, Step (((initial.after aloneStarts).after [.nanosleep 100 5 0x1f000]).after
        sleeperWaits) ⟨.switch 0x9000, .resumed 0 .nanosleepReturns⟩ next) ∧
    (∃ scan ∈ ((initial.after aloneStarts).after [.nanosleep 100 5 0x1f000]).history sleeperWaits,
      ∃ clock revents, scan.scan = some (clock, revents) ∧ 105 ≤ clock.toNat) ∧
    ∃ next, Step (((initial.after aloneStarts).after [.suspendIo .read 3 100 5 0x1f000]).after
      readerWaits) ⟨.switch 0x9000, .resumed 0 (.suspendIoReturns .success)⟩ next := by
  have hreach := (@after_run aloneStarts rfl).reachable
  obtain ⟨hsleep, hsuspend⟩ := Reachable.waits hreach
  have hsleeps : Step (initial.after aloneStarts) ⟨.nanosleep 100 5 0x1f000, .left 0⟩
      ((initial.after aloneStarts).after [.nanosleep 100 5 0x1f000]) :=
    @perform_step _ _ (.nanosleep 100 5 0x1f000) _ rfl
  have hsleeping := @after_path ((initial.after aloneStarts).after [.nanosleep 100 5 0x1f000])
    sleeperWaits rfl
  obtain ⟨idx, hcurrent, hserial, hreturns, hscan⟩ :=
    hsleep 100 5 0x1f000 0 _ _ _ hsleeps hsleeping (by decide)
  obtain rfl : 0 = idx := Option.some.inj (Eq.trans rfl hcurrent)
  obtain ⟨next, hnext⟩ := hreturns.2 rfl rfl 0x9000
  rw [hserial] at hnext
  have hsuspends : Step (initial.after aloneStarts) ⟨.suspendIo .read 3 100 5 0x1f000, .left 0⟩
      ((initial.after aloneStarts).after [.suspendIo .read 3 100 5 0x1f000]) :=
    @perform_step _ _ (.suspendIo .read 3 100 5 0x1f000) _ rfl
  have hwaiting := @after_path
    ((initial.after aloneStarts).after [.suspendIo .read 3 100 5 0x1f000]) readerWaits rfl
  obtain ⟨idx, hcurrent, hserial, hcases⟩ :=
    hsuspend .read 3 100 5 0x1f000 0 _ _ _ hsuspends hwaiting (by decide)
  obtain rfl : 0 = idx := Option.some.inj (Eq.trans rfl hcurrent)
  refine ⟨⟨next, hnext⟩, hscan _ _ _ hnext, ?_⟩
  rcases hcases with ⟨-, hblocked, -⟩ |
    ⟨after, wake, before, clock, revents, hlog, hwake, hdue, -, -, hreturns⟩
  · exact absurd hblocked (by decide)
  · -- no scan of this history reads a late clock, so the wake-up is the event
    have hearly : (((initial.after aloneStarts).after
        [.suspendIo .read 3 100 5 0x1f000]).history readerWaits).all
        (fun event => event.scan.all fun scan => scan.1.toNat < 105) := rfl
    have hclock : clock.toNat < 105 := by
      have hscans := List.all_eq_true.mp hearly wake (by simp [hlog])
      simpa [hwake] using hscans
    have hready : revents 0 &&& Direction.read.events ≠ 0 := by
      obtain ⟨_, _, hsame, hevents | hlate⟩ := hdue
      · rw [hwake] at hsame
        cases hsame
        exact hevents
      · rw [hwake] at hsame
        cases hsame
        exact absurd hlate (Nat.not_le.mpr hclock)
    rw [if_pos (.inl hready)] at hreturns
    obtain ⟨next, hnext⟩ := hreturns.2 rfl rfl 0x9000
    rw [hserial] at hnext
    exact ⟨next, hnext⟩

end Minimk.Runtime.Machine
