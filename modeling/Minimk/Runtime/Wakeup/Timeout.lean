import Minimk.Runtime.Wakeup.PollError

namespace Minimk.Runtime

namespace Event

-- A poll that succeeded.
def polls (event : Event) : Bool :=
  match event.action, event.output with
  | .poll _ reply, .polled _ => reply.rc = .success
  | _, _ => false

-- A poll that succeeded with the socket in the entry of the slot.
def Includes (idx : Slot) (sock : Int32) (events : Int16) (event : Event) : Prop :=
  ∃ now reply call, event = ⟨.poll now reply, .polled call⟩ ∧ reply.rc = .success ∧
    call.fds idx = ⟨sock, events⟩

-- A poll that succeeded and reported none of the events for the entry of the slot.
def ReportsNone (idx : Slot) (events : Int16) (event : Event) : Prop :=
  ∃ now reply call, event = ⟨.poll now reply, .polled call⟩ ∧ reply.revents idx &&& events = 0

variable {event : Event} {idx : Slot}

theorem polls_iff : event.polls = true ↔
    ∃ now reply call, event = ⟨.poll now reply, .polled call⟩ ∧ reply.rc = .success := by
  obtain ⟨action, output⟩ := event
  unfold Event.polls
  constructor
  · intro h
    split at h
    · rename_i now reply call ha ho
      obtain rfl : action = .poll now reply := ha
      obtain rfl : output = .polled call := ho
      exact ⟨now, reply, call, rfl, by simpa using h⟩
    · cases h
  · rintro ⟨now, reply, call, he, hrc⟩
    simp only [Event.mk.injEq] at he
    obtain ⟨rfl, rfl⟩ := he
    simpa using hrc

theorem reportsNone_of_polls {events : Int16} {deadline : Nat} (hp : event.polls = true)
    (hn : ¬event.Wakes idx events deadline) : event.ReportsNone idx events := by
  obtain ⟨clock, reply, call, rfl, hrc⟩ := Event.polls_iff.mp hp
  refine ⟨clock, reply, call, rfl, ?_⟩
  by_contra hr
  exact hn ⟨reply.now, reply.revents, by simp [Event.scan, hrc], .inl hr⟩

theorem scan_cases {clock : UInt64} {revents : Slot → Int16}
    (h : event.scan = some (clock, revents)) :
    event.action = .expire clock ∨
      event.polls = true ∧ ∃ now reply call, event = ⟨.poll now reply, .polled call⟩ ∧
        reply.revents = revents := by
  obtain ⟨action, output⟩ := event
  unfold Event.scan at h
  split at h
  · rename_i now ha
    simp only [Option.some.injEq, Prod.mk.injEq] at h
    exact .inl (h.1 ▸ ha)
  · rename_i now reply call ha ho
    obtain rfl : action = .poll now reply := ha
    obtain rfl : output = .polled call := ho
    split_ifs at h with hrc
    simp only [Option.some.injEq, Prod.mk.injEq] at h
    exact .inr ⟨by simp [Event.polls, hrc], now, reply, call, rfl, h.2⟩
  · cases h

theorem Includes.polls {sock : Int32} {events : Int16} (h : event.Includes idx sock events) :
    event.polls = true := by
  obtain ⟨now, reply, call, he, hrc, _⟩ := h
  exact polls_iff.mpr ⟨now, reply, call, he, hrc⟩

-- Where the scan that ends a wait reports nothing, the last poll up to it reported nothing.
theorem last_poll {wake : Event} {before : List Event} {clock : UInt64}
    {revents : Slot → Int16} {events : Int16} {deadline : Nat}
    (hscan : wake.scan = some (clock, revents)) (hnone : revents idx &&& events = 0)
    (hno : ∀ event ∈ before, ¬event.Wakes idx events deadline)
    (hsome : ∃ poll ∈ wake :: before, poll.polls = true) :
    ∃ newer poll older, wake :: before = newer ++ poll :: older ∧ poll.polls = true ∧
      (∀ other ∈ newer, ¬other.polls = true) ∧ poll.ReportsNone idx events ∧
      ∀ event ∈ older, ¬event.Wakes idx events deadline := by
  obtain ⟨_, hmem, hpolls⟩ := hsome
  obtain ⟨poll, newer, older, hnewer, hpolls, heq, -⟩ := List.exists_of_eraseP hmem hpolls
  refine ⟨newer, poll, older, heq, hpolls, hnewer, ?_⟩
  cases newer with
  | nil =>
      obtain ⟨rfl, rfl⟩ := List.cons.inj heq
      refine ⟨?_, hno⟩
      rcases scan_cases hscan with he | ⟨_, clock', reply, call, rfl, rfl⟩
      · obtain ⟨action, output⟩ := wake
        obtain rfl : action = .expire clock := he
        simp [Event.polls] at hpolls
      · exact ⟨clock', reply, call, rfl, hnone⟩
  | cons first rest =>
      obtain ⟨rfl, rfl⟩ := List.cons.inj heq
      refine ⟨reportsNone_of_polls hpolls (hno poll (by simp)), fun event he => ?_⟩
      exact hno event (by simp [he])

-- Of two events in one history either one is the older, or they are the same.
theorem cons_eq_cons_cases {after before after' before' : List Event} {other : Event}
    (h : after ++ event :: before = after' ++ other :: before') :
    event = other ∨ other ∈ before ∨ event ∈ before' := by
  rcases List.append_eq_append_iff.mp h with ⟨gap, _, hg⟩ | ⟨gap, _, hg⟩
  · cases gap with
    | nil => exact .inl (List.cons.inj hg).1
    | cons first rest =>
        have hb := (List.cons.inj hg).2
        exact .inr (.inl (by simp [hb]))
  · cases gap with
    | nil => exact .inl (List.cons.inj hg).1.symm
    | cons first rest =>
        have hb := (List.cons.inj hg).2
        exact .inr (.inr (by simp [hb]))

end Event

namespace Machine

open Transition

variable {m first last next : Machine} {between : List Event} {idx : Slot} {event : Event}

section Wait

variable {direction : Direction} {sock : Int32} {nanosec now sp : UInt64} {serial : Nat}

-- The polls of a wait are looked at in the state in which they find the coroutine.
theorem Path.suspended_at (h : m.Invariant)
    (hs : Step m ⟨.suspendIo direction sock nanosec now sp, .left serial⟩ first)
    (hp : Path Step first between last)
    (hn : ∀ event ∈ between, event.resumes serial = false)
    {after before : List Event} (hb : between = after ++ event :: before)
    (hcurrent : m.sched.current = some idx) :
    ∃ state target, state.Invariant ∧ Step state event target ∧
      ((∀ event ∈ before, ¬event.Wakes idx direction.events (waitEnd now nanosec)) ∧
        (state.sched.coroutines idx).state = .blockedOnIo ∧
        (state.sched.coroutines idx).sock = sock ∧
        (state.sched.coroutines idx).events = direction.events ∨
      (∃ wake ∈ before, wake.Wakes idx direction.events (waitEnd now nanosec)) ∧
        (state.sched.coroutines idx).state = .runnable) := by
  subst hb
  obtain ⟨middle, hearlier, _⟩ := Path.split after hp
  cases hearlier with
  | @snoc _ state _ _ hbefore hstep =>
      have hquiet : ∀ event ∈ before, event.resumes serial = false := fun event he =>
        hn event (List.mem_append_right _ (List.mem_cons_of_mem _ he))
      obtain ⟨slot, hslot, hi, _, _, hcases⟩ := Path.suspended h hs hbefore hquiet
      obtain rfl : idx = slot := Option.some.inj (hcurrent.symm.trans hslot)
      refine ⟨state, middle, hi, hstep, ?_⟩
      rcases hcases with hblocked | ⟨_, wake, _, _, _, rfl, _, hw, _, hstate, _⟩
      · exact .inl hblocked
      · exact .inr ⟨⟨wake, by simp, hw⟩, hstate⟩

-- While the coroutine waits every poll has its socket, and after its wake-up none has.
theorem Path.includes_iff (h : m.Invariant)
    (hs : Step m ⟨.suspendIo direction sock nanosec now sp, .left serial⟩ first)
    (hp : Path Step first between last)
    (hn : ∀ event ∈ between, event.resumes serial = false)
    {after before : List Event} (hb : between = after ++ event :: before)
    (hcurrent : m.sched.current = some idx) :
    event.Includes idx sock direction.events ↔ event.polls = true ∧
      ∀ event ∈ before, ¬event.Wakes idx direction.events (waitEnd now nanosec) := by
  obtain ⟨state, target, hi, hstep, hcases⟩ := Path.suspended_at h hs hp hn hb hcurrent
  constructor
  · rintro ⟨clock, reply, call, rfl, hrc, hfds⟩
    refine ⟨Event.polls_iff.mpr ⟨clock, reply, call, rfl, hrc⟩, ?_⟩
    rcases hcases with ⟨hno, _⟩ | ⟨_, hstate⟩
    · exact hno
    · rw [hstep.polled_fds hi, Scheduler.pollfdOf, if_neg (by simp [hstate])] at hfds
      exact absurd (congrArg Scheduler.Pollfd.events hfds).symm direction.events_ne_zero
  · rintro ⟨hpolls, hno⟩
    obtain ⟨clock, reply, call, rfl, hrc⟩ := Event.polls_iff.mp hpolls
    rcases hcases with ⟨_, hstate, hsock, hevents⟩ | ⟨⟨wake, hmem, hw⟩, _⟩
    · refine ⟨clock, reply, call, rfl, hrc, ?_⟩
      rw [hstep.polled_fds hi, Scheduler.pollfdOf, if_pos hstate, hsock, hevents]
    · exact absurd hw (hno wake hmem)

end Wait

section Wait

variable {direction : Direction} {sock : Int32} {nanosec now sp : UInt64} {serial : Nat}
  {action : Action}

-- A wait that timed out was ended by a scan past its deadline that reported none of its events.
theorem Path.timed_out (h : m.Invariant)
    (hs : Step m ⟨.suspendIo direction sock nanosec now sp, .left serial⟩ first)
    (hp : Path Step first between last)
    (hn : ∀ event ∈ between, event.resumes serial = false)
    (hr : Step last ⟨action, .resumed serial (.suspendIoReturns .etimedout)⟩ next)
    (hcurrent : m.sched.current = some idx) :
    ∃ after wake before clock revents, between = after ++ wake :: before ∧
      wake.scan = some (clock, revents) ∧
      wake.Wakes idx direction.events (waitEnd now nanosec) ∧
      (∀ event ∈ before, ¬event.Wakes idx direction.events (waitEnd now nanosec)) ∧
      revents idx &&& direction.events = 0 := by
  obtain ⟨slot, hslot, hi, hconts, hserial, hcases⟩ := Path.suspended h hs hp hn
  obtain rfl : idx = slot := Option.some.inj (hcurrent.symm.trans hslot)
  obtain ⟨coro, hresume, hrunnable⟩ := hr.resumes hi (by simp [hconts]) hserial
  rcases hcases with ⟨_, hstate, _⟩ |
    ⟨after, wake, before, clock, revents, hb, hscan, hw, hno, _, hdl, hsk, hev, hrv⟩
  · simp [hstate] at hrunnable
  · refine ⟨after, wake, before, clock, revents, hb, hscan, hw, hno, ?_⟩
    have hresult := resume_waiting hconts hdl hsk hev hresume
    simp only [hrv, Coroutine.ioResult, Resumed.suspendIoReturns.injEq] at hresult
    by_contra hne
    simp [hne] at hresult

theorem Reachable.timeout_polled_iff (h : Reachable m)
    (hs : Step m ⟨.suspendIo direction sock nanosec now sp, .left serial⟩ first)
    (hp : Path Step first between last)
    (hn : ∀ event ∈ between, event.resumes serial = false)
    (hr : Step last ⟨action, .resumed serial (.suspendIoReturns .etimedout)⟩ next)
    (hcurrent : m.sched.current = some idx) :
    (∃ after poll before, between = after ++ poll :: before ∧
      poll.Includes idx sock direction.events ∧ poll.ReportsNone idx direction.events ∧
      ∀ other ∈ after, ¬other.Includes idx sock direction.events) ↔
    (∀ after before clock output, between = after ++ ⟨.expire clock, output⟩ :: before →
      waitEnd now nanosec ≤ clock.toNat → ∃ poll ∈ before, Event.polls poll = true) := by
  have hi := Reachable.holds h
  constructor
  · rintro ⟨after, poll, before, hb, hincludes, -, -⟩ after' before' clock output hb' hend
    obtain ⟨hpolls, hno⟩ := (Path.includes_iff hi hs hp hn hb hcurrent).mp hincludes
    rcases Event.cons_eq_cons_cases (hb.symm.trans hb') with rfl | hmem | hmem
    · simp [Event.polls] at hpolls
    · exact absurd ⟨clock, fun _ => 0, rfl, .inr hend⟩ (hno _ hmem)
    · exact ⟨poll, hmem, hpolls⟩
  · intro hexpire
    obtain ⟨after, wake, before, clock, revents, hb, hscan, hw, hno, hnone⟩ :=
      Path.timed_out hi hs hp hn hr hcurrent
    -- some poll is not younger than the scan that ended the wait
    have hsome : ∃ poll ∈ wake :: before, Event.polls poll = true := by
      rcases Event.scan_cases hscan with he | ⟨hpolls, _⟩
      · obtain ⟨wakeAction, output⟩ := wake
        obtain rfl : wakeAction = .expire clock := he
        obtain ⟨clock', revents', hscan', hdue⟩ := hw
        obtain ⟨rfl, rfl⟩ : clock = clock' ∧ revents = revents' := by simpa [hscan] using hscan'
        have hend := hdue.resolve_left (by simp [hnone])
        obtain ⟨poll, hmem, hpolls⟩ := hexpire after before clock output hb hend
        exact ⟨poll, List.mem_cons_of_mem _ hmem, hpolls⟩
      · exact ⟨wake, List.mem_cons_self, hpolls⟩
    obtain ⟨newer, poll, older, heq, hpolls, hnewer, hreports, holder⟩ :=
      Event.last_poll hscan hnone hno hsome
    have hsplit : between = (after ++ newer) ++ poll :: older := by
      rw [hb, heq, List.append_assoc]
    refine ⟨after ++ newer, poll, older, hsplit,
      (Path.includes_iff hi hs hp hn hsplit hcurrent).mpr ⟨hpolls, holder⟩, hreports, ?_⟩
    intro other hother hincludes
    rcases List.mem_append.mp hother with hafter | hnew
    · obtain ⟨latest, rest, rfl⟩ := List.append_of_mem hafter
      have hlater : between = latest ++ other :: (rest ++ wake :: before) := by
        rw [hb, List.append_assoc, List.cons_append]
      obtain ⟨-, hquiet⟩ := (Path.includes_iff hi hs hp hn hlater hcurrent).mp hincludes
      exact hquiet wake (by simp) hw
    · exact hnewer other hnew hincludes.polls

end Wait

-- A reader that waits while another coroutine keeps the processor past the deadline.
def lateReaderStarts : List Action :=
  [.go 1 7 ⟨4096, some 0x10000, true⟩, .go 2 8 ⟨4096, some 0x40000, true⟩, .run, .loopTest, .clean,
    .expire 0, .pick, .switch 0x9000]

def lateReaderWaits : List Action :=
  [.loopTest, .clean, .expire 6, .pick, .switch 0x9000, .yield 0x4f000, .loopTest, .clean,
    .expire 200, .pick]

theorem lateReader_suspends : Step (initial.after lateReaderStarts)
    ⟨.suspendIo .read 3 100 5 0x1f000, .left 0⟩
    ((initial.after lateReaderStarts).after [.suspendIo .read 3 100 5 0x1f000]) :=
  @perform_step _ _ (.suspendIo .read 3 100 5 0x1f000) _ rfl

theorem lateReader_returns : Step (((initial.after lateReaderStarts).after
      [.suspendIo .read 3 100 5 0x1f000]).after lateReaderWaits)
    ⟨.switch 0x9000, .resumed 0 (.suspendIoReturns .etimedout)⟩
    (((initial.after lateReaderStarts).after [.suspendIo .read 3 100 5 0x1f000]).after
      (lateReaderWaits ++ [.switch 0x9000])) :=
  @perform_step _ _ (.switch 0x9000) _ rfl

theorem Reachable.timeout_polled_iff_lateReader :
    ¬∃ after poll before,
      ((initial.after lateReaderStarts).after
        [.suspendIo .read 3 100 5 0x1f000]).history lateReaderWaits = after ++ poll :: before ∧
      poll.Includes 0 3 POLLIN ∧ poll.ReportsNone 0 POLLIN ∧
      ∀ other ∈ after, ¬other.Includes 0 3 POLLIN := by
  intro hpolled
  have hreach := (@after_run lateReaderStarts rfl).reachable
  have hpath := @after_path ((initial.after lateReaderStarts).after
    [.suspendIo .read 3 100 5 0x1f000]) lateReaderWaits rfl
  have hcurrent : (initial.after lateReaderStarts).sched.current = some 0 := rfl
  have hiff := Reachable.timeout_polled_iff hreach lateReader_suspends hpath (by decide)
    lateReader_returns hcurrent
  obtain ⟨poll, hmem, hpolls⟩ := hiff.mp hpolled
    [⟨.pick, .silent⟩]
    ((((initial.after lateReaderStarts).after
      [.suspendIo .read 3 100 5 0x1f000]).history lateReaderWaits).drop 2)
    200 .silent rfl (by decide)
  have hnone : ∀ poll ∈ (((initial.after lateReaderStarts).after
      [.suspendIo .read 3 100 5 0x1f000]).history lateReaderWaits).drop 2,
      Event.polls poll = false := by
    decide
  simp [hnone poll hmem] at hpolls

theorem timeout_without_poll :
    ¬∀ m first last next between action direction sock nanosec now sp serial idx, Reachable m →
      Step m ⟨.suspendIo direction sock nanosec now sp, .left serial⟩ first →
      Path Step first between last → (∀ event ∈ between, event.resumes serial = false) →
      Step last ⟨action, .resumed serial (.suspendIoReturns .etimedout)⟩ next →
      m.sched.current = some idx →
      ∃ poll ∈ between, poll.Includes idx sock direction.events := by
  intro hclaim
  have hreach := (@after_run lateReaderStarts rfl).reachable
  have hpath := @after_path ((initial.after lateReaderStarts).after
    [.suspendIo .read 3 100 5 0x1f000]) lateReaderWaits rfl
  obtain ⟨poll, hmem, hincludes⟩ := hclaim _ _ _ _ _ _ _ _ _ _ _ _ 0 hreach lateReader_suspends
    hpath (by decide) lateReader_returns rfl
  have hnone : ∀ poll ∈ ((initial.after lateReaderStarts).after
      [.suspendIo .read 3 100 5 0x1f000]).history lateReaderWaits, Event.polls poll = false := by
    decide
  simpa [hnone poll hmem] using hincludes.polls

end Machine

end Minimk.Runtime
