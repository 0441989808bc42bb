import Minimk.Runtime.Process

namespace Minimk.Runtime.Machine

open Abort Amd64

variable {m next : Machine} {event : Event} {idx i : Slot}

-- A creation fills the free slot that the scan has found, on the stack that was allocated.
theorem go_eq_created {entry argument : UInt64} {reply : StackReply} {serial : Nat}
    {calls : List MemCall} (h : m.go entry argument reply = .ok (next, .created serial calls)) :
    ∃ idx stack, m.sched.findFreeCoroutineSlot = .ok idx ∧ serial = m.spawned ∧
      stackAlloc .zero reply = .ok (.success, stack, calls) ∧
      next = ({ m with
        sched := m.sched.set idx { Coroutine.zero with
          sock := invalidSocket, entry := entry, argument := argument, stack := stack,
          sp := initCoroStack stack.top, state := .runnable }
        memory := m.memory.calls calls }).spawn idx := by
  cases hfind : m.sched.findFreeCoroutineSlot with
  | error code =>
      simp only [go, Scheduler.coroutineCreate, hfind, ok_bind, pure_eq_ok, Except.ok.injEq,
        Prod.mk.injEq, reduceCtorEq, and_false] at h
  | ok idx =>
      obtain ⟨⟨rv, sched, done⟩, hcreate, h⟩ := (bind_eq_ok_iff _ _ _).mp h
      simp only [Scheduler.coroutineCreate, hfind] at hcreate
      obtain ⟨⟨code, coro, made⟩, hinit, hcreate⟩ := (bind_eq_ok_iff _ _ _).mp hcreate
      obtain ⟨⟨code', stack, mapped⟩, halloc, hinit⟩ := (bind_eq_ok_iff _ _ _).mp hinit
      simp only [pure_eq_ok, Except.ok.injEq, Prod.mk.injEq] at hcreate
      obtain ⟨rfl, rfl, rfl⟩ := hcreate
      by_cases hcode : code' = .success
      · subst hcode
        simp only [ne_eq, not_true_eq_false, ↓reduceIte, pure_eq_ok, Except.ok.injEq,
          Prod.mk.injEq] at hinit
        obtain ⟨rfl, rfl, rfl⟩ := hinit
        simp only [hfind, pure_eq_ok, Except.ok.injEq, Prod.mk.injEq, Output.created.injEq] at h
        obtain ⟨rfl, rfl, rfl⟩ := h
        exact ⟨idx, stack, rfl, rfl, halloc, rfl⟩
      · simp only [ne_eq, hcode, not_false_eq_true, ↓reduceIte, pure_eq_ok, Except.ok.injEq,
          Prod.mk.injEq] at hinit
        obtain ⟨rfl, -, rfl⟩ := hinit
        cases code' with
        | success => exact absurd rfl hcode
        | _ => simp at h

-- What the processor has to know of a coroutine.
structure SameFrame (m next : Machine) (i : Slot) : Prop where
  conts : next.conts i = m.conts i
  serials : next.serials i = m.serials i
  sp : (next.sched.coroutines i).sp = (m.sched.coroutines i).sp
  origin : (next.sched.coroutines i).SameOrigin (m.sched.coroutines i)

theorem SameFrame.of_eq (hconts : next.conts i = m.conts i)
    (hserials : next.serials i = m.serials i)
    (hcoro : next.sched.coroutines i = m.sched.coroutines i) : SameFrame m next i :=
  ⟨hconts, hserials, by rw [hcoro], by rw [hcoro]; exact ⟨rfl, rfl, rfl⟩⟩

-- An event without a call into the assembly file.
structure Quiet (m : Machine) (event : Event) (next : Machine) : Prop where
  routines : ∀ back, m.routines next event.output back = []
  serial : event.output.serial = none
  context : next.context = m.context
  same : ∀ i, m.conts i ≠ .idle → SameFrame m next i
  idle : ∀ i, m.conts i = .idle → next.conts i = .idle

structure Creates (m : Machine) (event : Event) (next : Machine) (idx : Slot)
    (reply : StackReply) (stack : Stack) (calls : List MemCall) : Prop where
  event : event = ⟨.go (next.sched.coroutines idx).entry (next.sched.coroutines idx).argument reply,
    .created m.spawned calls⟩
  find : m.sched.findFreeCoroutineSlot = .ok idx
  alloc : stackAlloc .zero reply = .ok (.success, stack, calls)
  fresh : m.memory.Fresh stack.mapping
  idle : m.conts idx = .idle
  conts : next.conts idx = .fresh
  serials : next.serials idx = m.spawned
  stack_eq : (next.sched.coroutines idx).stack = stack
  sp_eq : (next.sched.coroutines idx).sp = initCoroStack stack.top
  context : next.context = m.context
  others : ∀ i, i ≠ idx → SameFrame m next i

structure Cleans (m : Machine) (event : Event) (next : Machine) (calls : List MemCall) :
    Prop where
  output : event.output = .cleaned calls
  before : m.context = none
  after : next.context = none
  exited : ∀ i, i ∈ m.exitedSlots ↔ m.conts i = .returned
  idle : ∀ i, m.conts i = .idle ∨ m.conts i = .returned → next.conts i = .idle
  others : ∀ i, m.conts i ≠ .returned → SameFrame m next i

structure Resumes (m : Machine) (event : Event) (next : Machine) (idx : Slot) (sp : UInt64)
    (coro : Coroutine) (how : Resumed) : Prop where
  event : event = ⟨.switch sp, .resumed (m.serials idx) how⟩
  current : m.sched.current = some idx
  before : m.context = none
  after : next.context = some idx
  regains : m.Regains idx coro how
  conts : next.conts idx = .running
  serials : next.serials idx = m.serials idx
  origin : (next.sched.coroutines idx).SameOrigin (m.sched.coroutines idx)
  others : ∀ i, i ≠ idx → SameFrame m next i

structure Leaves (m : Machine) (event : Event) (next : Machine) (idx : Slot) (sp : UInt64) :
    Prop where
  output : event.output = .left (m.serials idx)
  saves : event.action.saves = some sp
  current : m.sched.current = some idx
  before : m.context = some idx
  after : next.context = none
  running : m.conts idx = .running
  conts : event.action.cont = some (next.conts idx)
  idle : next.conts idx ≠ .idle
  sp_eq : (next.sched.coroutines idx).sp = sp
  serials : next.serials idx = m.serials idx
  origin : (next.sched.coroutines idx).SameOrigin (m.sched.coroutines idx)
  others : ∀ i, i ≠ idx → SameFrame m next i

-- How the processor takes part in an event.
inductive Shifts (m : Machine) (event : Event) (next : Machine) : Prop
  | stays (h : Quiet m event next)
  | created (idx : Slot) (reply : StackReply) (stack : Stack) (calls : List MemCall)
      (h : Creates m event next idx reply stack calls)
  | cleaned (calls : List MemCall) (h : Cleans m event next calls)
  | resumed (idx : Slot) (sp : UInt64) (coro : Coroutine) (how : Resumed)
      (h : Resumes m event next idx sp coro how)
  | left (idx : Slot) (sp : UInt64) (h : Leaves m event next idx sp)

theorem Shifts.leave {coro : Coroutine} {cont : Cont} {sp : UInt64} (h : m.Invariant)
    (hpc : m.pc = .coroutine) (hcurrent : m.sched.current = some idx)
    (houtput : event.output = .left (m.serials idx)) (hsaves : event.action.saves = some sp)
    (hcont : event.action.cont = some cont) (hidle : cont ≠ .idle)
    (hcoro : coro.SameOrigin (m.sched.coroutines idx)) :
    Shifts m event (m.leave idx coro cont sp) := by
  refine .left idx sp ⟨houtput, hsaves, hcurrent, ?_, ?_, (h.running idx).mpr ⟨hpc, hcurrent⟩, ?_,
    ?_, ?_, rfl, ?_, ?_⟩
  · simp [context, hpc, hcurrent]
  · simp [context, Machine.leave]
  · simp [Machine.leave, hcont]
  · simp [Machine.leave, hidle]
  · simp [Machine.leave]
  · simpa [Machine.leave] using ⟨hcoro.entry, hcoro.argument, hcoro.stack⟩
  · intro i hi
    exact .of_eq (by simp [Machine.leave, hi]) rfl (by simp [Machine.leave, hi])

theorem Step.shifts (hs : Step m event next) (h : m.Invariant) : Shifts m event next := by
  have hm := hs.move
  have hsame : ∀ i, SameFrame m m i := fun i => .of_eq rfl rfl rfl
  cases hm with
  | goFull => exact .stays ⟨fun _ => rfl, rfl, rfl, fun i _ => hsame i, fun _ hi => hi⟩
  | @goFailed entry argument reply idx coro calls hpc hnull hcoro hcalls =>
      refine .stays ⟨fun _ => rfl, rfl, rfl, fun i hi => ?_, fun _ hi => hi⟩
      have hne : i ≠ idx := by
        rintro rfl
        exact hi ((h.slots i).null_iff.mp hnull)
      exact .of_eq rfl rfl (by simp [hne])
  | @goCreated entry argument reply slot coro hpc hnull hcoro _ _ hfresh =>
      have hgo := hs
      simp only [Step, exec, Option.ite_none_right_eq_some, Option.some.injEq] at hgo
      obtain ⟨idx, stack, hfind, -, halloc, hnext⟩ := go_eq_created hgo.2
      have hidle := (h.slots idx).null_iff.mp (Scheduler.findFreeCoroutineSlot_eq_ok hfind)
      rw [hnext]
      have hbase : m.memory.Fresh stack.mapping := by
        rcases stackAlloc_eq_ok halloc with ⟨hrv, -⟩ | ⟨-, base, hmmap, hmapping, -⟩
        · cases hrv
        · rw [hmapping]
          exact hgo.1.2 base hmmap
      refine .created idx reply stack _ ⟨?_, hfind, halloc, hbase, hidle, ?_, ?_, ?_, ?_, ?_, ?_⟩
      · simp [spawn]
      · simp [spawn]
      · simp [spawn]
      · simp [spawn]
      · simp [spawn]
      · rfl
      · intro i hi
        exact .of_eq (by simp [spawn, hi]) (by simp [spawn, hi]) (by simp [spawn, hi])
  | run hpc hcurrent | loopNext hpc | loopEnd hpc | pollSkipped hpc | pollInterrupted hpc =>
      refine .stays ⟨fun _ => rfl, rfl, ?_, fun i _ => .of_eq rfl rfl rfl, fun _ hi => hi⟩
      simp [context, hpc]
  | expire hpc | polled hpc =>
      refine .stays ⟨fun _ => rfl, rfl, by simp [context, hpc], fun i _ => ?_, fun _ hi => hi⟩
      refine ⟨rfl, rfl, ?_, Coroutine.maybeResume_sameOrigin _ _ _⟩
      simp only [Scheduler.resumeAll, Coroutine.maybeResume]
      split_ifs <;> rfl
  | pickNone hpc | pickSome hpc =>
      refine .stays ⟨fun _ => rfl, rfl, ?_, fun i _ => .of_eq rfl rfl rfl, fun _ hi => hi⟩
      simp [context, hpc]
  | clean hpc =>
      have hexited : ∀ i, (m.sched.coroutines i).state = .exited ↔ m.conts i = .returned :=
        fun i => (h.slots i).exited_iff
      refine .cleaned _ ⟨m.clean_calls, ?_, ?_, ?_, ?_, ?_⟩
      · simp [context, hpc]
      · simp [context, Machine.clean]
      · intro i
        simpa [exitedSlots] using hexited i
      · rintro i (hi | hi) <;> simp [Machine.clean, hexited, hi]
      · intro i hi
        exact .of_eq (by simp [Machine.clean, hexited, hi]) rfl
          (by simp [Machine.clean, Scheduler.cleanExitedCoroutines, hexited, hi])
  | @resumed sp idx coro how hpc hcurrent hr =>
      refine .resumed idx sp coro how ⟨rfl, hcurrent, ?_, ?_, resume_regains hr, ?_, rfl, ?_, ?_⟩
      · simp [context, hpc]
      · simp [context, enter, hcurrent]
      · simp [enter]
      · simpa [enter] using resume_sameOrigin hr
      · intro i hi
        exact .of_eq (by simp [enter, hi]) rfl (by simp [enter, hi])
  | yielded hpc hcurrent | slept hpc hcurrent | returned hpc hcurrent =>
      exact .leave h hpc hcurrent rfl rfl rfl (by simp) ⟨rfl, rfl, rfl⟩
  | suspended hpc hcurrent _ hcoro =>
      subst hcoro
      exact .leave h hpc hcurrent rfl rfl rfl (by simp) ⟨rfl, rfl, rfl⟩

theorem Regains.used {coro : Coroutine} {how : Resumed} (h : m.Regains idx coro how) :
    m.conts idx ≠ .idle ∧ m.conts idx ≠ .running := by
  cases h with
  | fresh hc | yielded hc | sleeping hc | waiting hc => simp [hc]

-- The coroutine that has the processor is the one that runs.
theorem Invariant.context_running (h : m.Invariant) (hcontext : m.context = some idx) :
    m.conts idx = .running := by
  apply (h.running idx).mpr
  by_cases hpc : m.pc = .coroutine
  · rw [context, if_pos hpc] at hcontext
    exact ⟨hpc, hcontext⟩
  · rw [context, if_neg hpc] at hcontext
    cases hcontext

-- A slot in use has the coroutine it had, or the one that has just been made.
theorem Shifts.origin (h : Shifts m event next) (hidle : next.conts i ≠ .idle) :
    (m.conts i ≠ .idle ∧ next.serials i = m.serials i ∧
        (next.sched.coroutines i).SameOrigin (m.sched.coroutines i)) ∨
      ∃ reply stack calls, Creates m event next i reply stack calls := by
  have hsame : SameFrame m next i → m.conts i ≠ .idle ∧ next.serials i = m.serials i ∧
      (next.sched.coroutines i).SameOrigin (m.sched.coroutines i) :=
    fun hs => ⟨hs.conts ▸ hidle, hs.serials, hs.origin⟩
  cases h with
  | stays hc => exact .inl (hsame (hc.same i fun hi => hidle (hc.idle i hi)))
  | created idx reply stack calls hc =>
      by_cases he : i = idx
      · rw [he]
        exact .inr ⟨reply, stack, calls, hc⟩
      · exact .inl (hsame (hc.others i he))
  | cleaned calls hc =>
      exact .inl (hsame (hc.others i fun hr => hidle (hc.idle i (.inr hr))))
  | resumed idx sp coro how hc =>
      by_cases he : i = idx
      · rw [he]
        exact .inl ⟨hc.regains.used.1, hc.serials, hc.origin⟩
      · exact .inl (hsame (hc.others i he))
  | left idx sp hc =>
      by_cases he : i = idx
      · rw [he]
        exact .inl ⟨by simp [hc.running], hc.serials, hc.origin⟩
      · exact .inl (hsame (hc.others i he))

section Errors

variable {code : Assertion} {sp : UInt64}

theorem go_eq_error_pageSize {entry argument : UInt64} {reply : StackReply}
    (h : m.go entry argument reply = .error code) : ¬0 ≤ reply.pageSize := by
  rcases (bind_eq_error_iff _ _ _).mp h with h | ⟨⟨rv, sched, calls⟩, _, h⟩
  · unfold Scheduler.coroutineCreate at h
    split at h
    · cases h
    · rcases (bind_eq_error_iff _ _ _).mp h with h | ⟨_, _, h⟩
      · rcases (bind_eq_error_iff _ _ _).mp h with h | ⟨⟨rv, stack, calls⟩, _, h⟩
        · rcases (bind_eq_error_iff _ _ _).mp h with h | ⟨_, _, h⟩
          · exact (assert_eq_error_iff.mp h).1
          · split at h
            · cases h
            · split at h <;> cases h
        · simp only at h
          split at h <;> cases h
      · cases h
  · simp only at h
    split at h <;> cases h

theorem coroutineYield_eq_error_validate {coro : Coroutine} {cont : Cont}
    (hcurrent : m.sched.current = some idx)
    (h : { m with sched := m.sched.set idx coro }.coroutineYield cont sp = .error code) :
    { coro with sp := sp }.validateStackPointer = .error code := by
  simp only [coroutineYield, Scheduler.set_current, hcurrent, Scheduler.set_coroutines,
    Function.update_self] at h
  rcases (bind_eq_error_iff _ _ _).mp h with h | ⟨_, _, h⟩
  · exact h
  · cases h

-- A call that hands the processor over fails where the stack pointer that it saves does not
-- validate, and nowhere else.
theorem Invariant.leave_eq_error {action : Action} (h : m.Invariant) (ha : action.Admissible)
    (hsaves : action.saves = some sp) (hpc : m.pc = .coroutine)
    (he : m.exec action = some (.error code)) :
    ∃ (idx : Slot) (coro : Coroutine), m.sched.current = some idx ∧
      coro.stack = (m.sched.coroutines idx).stack ∧
      { coro with sp := sp }.validateStackPointer = .error code := by
  have hne : m.sched.current ≠ none := fun hn => (h.current.mp hn).2 hpc
  obtain ⟨idx, hcurrent⟩ := Option.ne_none_iff_exists'.mp hne
  refine ⟨idx, ?_⟩
  cases action <;> simp only [exec, Option.ite_none_right_eq_some, Option.some.injEq] at he
  case yield =>
    obtain rfl := Option.some.inj hsaves
    have hself : { m with sched := m.sched.set idx (m.sched.coroutines idx) } = m := by
      simp [Scheduler.set]
    rw [← hself] at he
    refine ⟨_, hcurrent, ?_, coroutineYield_eq_error_validate hcurrent he.2⟩
    rfl
  case nanosleep =>
    obtain rfl := Option.some.inj hsaves
    simp only [coroutineSuspendTimer, hcurrent] at he
    refine ⟨_, hcurrent, ?_, coroutineYield_eq_error_validate hcurrent he.2⟩
    rfl
  case suspendIo =>
    obtain rfl := Option.some.inj hsaves
    simp only [coroutineSuspendIo, hcurrent, Coroutine.suspendIo_eq ha, ok_bind] at he
    refine ⟨_, hcurrent, ?_, coroutineYield_eq_error_validate hcurrent he.2⟩
    rfl
  case ret =>
    obtain rfl := Option.some.inj hsaves
    simp only [coroutineMainExit, hcurrent] at he
    refine ⟨_, hcurrent, ?_, coroutineYield_eq_error_validate hcurrent he.2⟩
    rfl
  case switch =>
    rw [hpc] at he
    cases he.1
  all_goals cases hsaves

theorem Invariant.switch_eq_error_validate (h : m.Invariant)
    (he : m.switch sp = some (.error code)) :
    ∃ idx coro how, m.sched.current = some idx ∧ m.Regains idx coro how ∧
      (m.sched.coroutines idx).validateStackPointer = .error code := by
  obtain ⟨idx, hcurrent, he⟩ := Option.bind_eq_some_iff.mp he
  obtain ⟨resumed, hresume, he⟩ := Option.bind_eq_some_iff.mp he
  cases resumed with
  | error other => exact absurd hresume (h.resume_ne_error hcurrent)
  | ok result =>
      obtain ⟨coro, how⟩ := result
      refine ⟨idx, coro, how, hcurrent, resume_regains hresume, ?_⟩
      rcases (bind_eq_error_iff _ _ _).mp (Option.some.inj he) with he | ⟨_, _, he⟩
      · exact he
      · cases he

end Errors

section Routines

variable {stack : Stack} {calls : List MemCall} {sp : UInt64}

theorem Creates.routines_eq {reply : StackReply}
    (h : Creates m event next idx reply stack calls) (back : UInt64) :
    m.routines next event.output back = [.init idx stack.region back] := by
  have houtput : event.output = .created m.spawned calls := by rw [h.event]
  simp only [houtput, routines, h.find, h.stack_eq]

theorem Cleans.routines_eq (h : Cleans m event next calls) (back : UInt64) :
    m.routines next event.output back = m.exitedSlots.map .finish := by
  simp only [h.output, routines]

theorem Resumes.routines_eq {coro : Coroutine} {how : Resumed}
    (h : Resumes m event next idx sp coro how) (back : UInt64) :
    m.routines next event.output back = [.switch idx back] := by
  have houtput : event.output = .resumed (m.serials idx) how := by rw [h.event]
  simp [houtput, routines, h.current]

theorem Leaves.routines_eq (h : Leaves m event next idx sp) (back : UInt64) :
    m.routines next event.output back = [.yield idx back] := by
  simp [h.output, routines, h.current]

end Routines

end Minimk.Runtime.Machine
