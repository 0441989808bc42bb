import Minimk.Runtime.Pass
import Minimk.Socket.Os
import Minimk.Socket.Safety

namespace Minimk.Socket

open Abort Minimk.Runtime Syscall Transition

namespace Os

variable {os : Os} {opened : Finset Int32} {request : Request} {reply : Reply} {outcome : Outcome}

theorem Gives.errno_ne_zero (h : Gives opened outcome) (hrv : outcome.rv < 0) :
    outcome.errno ≠ 0 := by
  rcases h with ⟨hpos, -⟩ | ⟨-, herrno⟩
  · exact absurd hpos (Int32.not_le.mpr hrv)
  · exact herrno

theorem Gives.neg_one_iff (h : Gives opened outcome) : outcome.rv ≠ -1 ↔ 0 ≤ outcome.rv := by
  rcases h with ⟨hpos, -⟩ | ⟨hrv, -⟩
  · refine ⟨fun _ => hpos, ?_⟩
    rintro - hrv
    rw [hrv] at hpos
    exact absurd hpos (by decide)
  · rw [hrv]
    decide

-- socket(2) and accept(2) are told apart from their failures by different tests.
theorem socket_eq (outcome : Outcome) : Syscall.socket outcome =
    if 0 ≤ outcome.rv then (.success, outcome.rv) else (geterrno outcome.errno, -1) := by
  unfold Syscall.socket
  by_cases hrv : outcome.rv ≥ 0
  · simp [if_pos hrv]
  · simp [if_neg hrv]

theorem Gives.accept (h : Gives opened outcome) : Syscall.accept outcome =
    if 0 ≤ outcome.rv then (.success, outcome.rv) else (geterrno outcome.errno, -1) := by
  unfold Syscall.accept
  by_cases hrv : 0 ≤ outcome.rv
  · rw [if_neg (h.neg_one_iff.mpr hrv), if_pos hrv]
  · have hneg : outcome.rv = -1 := by
      by_contra hne
      exact hrv (h.neg_one_iff.mp hne)
    rw [if_pos hneg, if_neg hrv, hneg]

theorem Gives.geterrno_ne_success (h : Gives opened outcome) (hrv : ¬0 ≤ outcome.rv) :
    geterrno outcome.errno ≠ .success := by
  rw [geterrno, ne_eq, errnoMap_eq_success_iff]
  exact h.errno_ne_zero (Int32.not_le.mp hrv)

theorem Gives.fresh (h : Gives opened outcome) (hrv : 0 ≤ outcome.rv) : outcome.rv ∉ opened := by
  rcases h with ⟨-, hnew⟩ | ⟨hneg, -⟩
  · exact hnew
  · rw [hneg] at hrv
    exact absurd hrv (by decide)

-- The answers that the library passes on are those the kernel can make, and mean the same.
theorem Conforms.kernel (h : os.Conforms opened) (hanswer : os.answer request = some reply) :
    System.kernel opened reply request = some (os.openAfter opened request) := by
  cases request with
  | socket domain type protocol =>
      have hgives := h.socket domain type protocol
      simp only [answer, socket_eq, Option.some.injEq] at hanswer
      subst hanswer
      by_cases hrv : 0 ≤ (os.socket domain type protocol).rv
      · simp [System.kernel, openAfter, hrv, hgives.fresh hrv]
      · simp [System.kernel, openAfter, hrv, hgives.geterrno_ne_success hrv]
  | accept fd =>
      have hgives := h.accept fd
      simp only [answer, hgives.accept, Option.some.injEq] at hanswer
      subst hanswer
      by_cases hrv : 0 ≤ (os.accept fd).rv
      · simp [System.kernel, openAfter, hrv, hgives.fresh hrv]
      · simp [System.kernel, openAfter, hrv, hgives.geterrno_ne_success hrv]
  | suspend => cases hanswer
  | setnonblock | nosigpipe | closesocket | recv | send | connect | getsockoptError | bind
  | listen | setsockoptReuseaddr => rfl

theorem answer_isSome (os : Os)
    (h : ∀ direction fd nanosec, request ≠ .suspend direction fd nanosec) :
    ∃ reply, os.answer request = some reply := by
  cases request with
  | suspend direction fd nanosec => exact absurd rfl (h direction fd nanosec)
  | socket | setnonblock | nosigpipe | closesocket | accept | recv | send | connect
  | getsockoptError | bind | listen | setsockoptReuseaddr => exact ⟨_, rfl⟩

-- A poll returns, or a signal has interrupted it.
theorem Conforms.pollRc (h : os.Conforms opened) (call : Scheduler.PollCall) :
    os.pollRc call = .success ∨ os.pollRc call = .eintr := by
  unfold Os.pollRc
  rcases h.poll (if UInt64.ofNat MAX_COROS ≤ UINT16_MAX then UInt64.ofNat MAX_COROS
    else UINT16_MAX) call.timeout with hpos | ⟨hrv, herrno⟩
  · left
    simp only [Syscall.poll, ge_iff_le, hpos, ↓reduceIte]
  · right
    rw [poll_eq_eintr_iff, hrv]
    exact ⟨by decide, herrno⟩

end Os

namespace Host

variable {host next : Host} {event : System.Event} {log : List System.Event}

theorem Step.system (h : Step host event next) :
    System.Step host.system event next.system := by
  cases h with
  | call _ _ _ hstep | poll _ _ _ hstep | inside _ _ hstep => exact hstep

theorem Run.system (h : Run log host) : System.Run log host.system := by
  refine Transition.Run.invariant_from (P := fun log host => System.Run log host.system) ?_ ?_ h
  · exact Transition.Run.start rfl
  · exact fun _ _ _ _ _ ih hs => ih.snoc hs.system

-- A step without the return of a system call leaves the descriptors alone.
theorem inside_files {s after : System} (hs : System.Step s event after)
    (hreply : ∀ reply, event.action ≠ .reply reply) : after.files = s.files := by
  cases hs.move with
  | runtime | suspended => rfl
  | resumed | started => rw [System.settle_files]
  | replied => exact absurd rfl (hreply _)

theorem Step.opened (h : Step host event next) (hfiles : host.opened = host.system.files) :
    next.opened = next.system.files := by
  cases h with
  | @call os request reply output after hos hrequest hanswer hstep =>
      have hkernel := hos.kernel hanswer
      cases hstep.move with
      | replied hrunning hcall hkernel' hresume =>
          obtain rfl := Option.some.inj hrequest
          rw [hfiles, hkernel'] at hkernel
          rw [System.settle_files, hfiles]
          exact (Option.some.inj hkernel).symm
  | poll _ _ _ hstep => rw [inside_files hstep (by simp), ← hfiles]
  | inside hreply _ hstep => rw [inside_files hstep hreply, ← hfiles]

theorem Run.opened (h : Run log host) : host.opened = host.system.files := by
  refine Transition.Run.invariant_from (P := fun _ host => host.opened = host.system.files) ?_ ?_ h
  · rfl
  · exact fun _ _ _ _ _ ih hs => hs.opened ih

-- The creations that the table sees are steps of their own in the history.
theorem creates_of_tableCall {s after : System} {call : TableEvent}
    (hs : System.Step s event after) (hcall : s.tableCall event = some call)
    (hcreates : call.creates = true) : event.creates = true := by
  cases hs.move with
  | runtime | resumed | suspended => cases hcall
  | @started ctx operation table go hrunning hidle hstart =>
      cases operation with
      | setReadTimeout | setWriteTimeout =>
          obtain rfl := Option.some.inj hcall
          cases hcreates
      | create | accept | recv | send | connect | destroy | bind | listen | setsockoptReuseaddr =>
          cases hcall
  | @replied ctx reply request files table go hrunning hrequest hkernel hresume =>
      simp only [System.tableCall, hrunning] at hcall
      split at hcall
      · rename_i fd hframe
        rw [hframe] at hrequest
        obtain rfl := Option.some.inj hrequest
        rfl
      · obtain rfl := Option.some.inj hcall
        cases hcreates
      · cases hcall

theorem countP_creates {turns : List (Transition.Turn System System.Event)} {s : System}
    (h : System.Trace turns s) : (System.tableCalls turns).countP TableEvent.creates ≤
      (turns.map fun turn => turn.label).countP System.Event.creates := by
  refine Transition.Run.invariant_from (P := fun turns _ =>
    (System.tableCalls turns).countP TableEvent.creates ≤
      (turns.map fun turn => turn.label).countP System.Event.creates) ?_ ?_ h
  · exact Nat.le_refl _
  · rintro log state ⟨before, event, after⟩ next - ih ⟨rfl, rfl, hs⟩
    simp only [System.tableCalls, List.filterMap_cons, List.map_cons, List.countP_cons] at ih ⊢
    cases hcall : before.tableCall event with
    | none =>
        simp only
        omega
    | some call =>
        simp only [List.countP_cons]
        by_cases hcreates : call.creates = true
        · rw [if_pos hcreates, if_pos (creates_of_tableCall hs hcall hcreates)]
          omega
        · rw [if_neg hcreates]
          omega

theorem Run.trace (h : Run log host) : ∃ turns, System.Trace turns host.system ∧
    (System.tableCalls turns).countP TableEvent.creates ≤ log.countP System.Event.creates := by
  obtain ⟨first, hfirst, hpath⟩ := Run.system h
  obtain ⟨turns, hturns, rfl⟩ := hpath.recorded
  exact ⟨turns, ⟨first, hfirst, hturns⟩, countP_creates ⟨first, hfirst, hturns⟩⟩

theorem Run.answered {os : Os} {ctx : Option Slot} {request : Request} (h : Run log host)
    (hcount : log.countP System.Event.creates < 2 ^ 48) (hos : os.Conforms host.opened)
    (hrunning : host.system.running = some ctx)
    (hrequest : (host.system.contexts ctx).frame.request host.system.table = some request)
    (hcall : ∀ direction fd nanosec, request ≠ .suspend direction fd nanosec) :
    ∃ reply output after, os.answer request = some reply ∧ output.request = some request ∧
      Step host ⟨.reply reply, output⟩ after := by
  obtain ⟨turns, htrace, hle⟩ := Run.trace h
  obtain ⟨reply, hanswer⟩ := os.answer_isSome hcall
  have hkernel := hos.kernel hanswer
  rw [Run.opened h] at hkernel
  obtain ⟨after, output, hexec⟩ :=
    htrace.exec_reply (Nat.lt_of_le_of_lt hle hcount) hrunning hrequest hkernel
  have hstep : System.Step host.system ⟨.reply reply, output⟩ after := hexec
  have hout : output.request = some request := by
    cases hstep.move with
    | replied hrunning' hrequest' hkernel' hresume =>
        obtain rfl := Option.some.inj (hrunning.symm.trans hrunning')
        exact hrequest'.symm.trans hrequest
  exact ⟨reply, output, _, hanswer, hout, .call hos hout hanswer hstep⟩

theorem Run.polled {os : Os} (h : Run log host) (hos : os.Conforms host.opened)
    (hpc : host.system.machine.pc = .poll)
    (hused : ∃ idx, (host.system.machine.sched.coroutines idx).state ≠ .null)
    (now later : UInt64) (revents : Slot → Int16) :
    ∃ reply output after, reply.rc = os.pollRc (host.system.machine.sched.pollCall now) ∧
      reply.revents = revents ∧ reply.now = later ∧
      Step host ⟨.runtime (.poll now reply), output⟩ after := by
  have hmachine := (System.Reachable.linked (Run.system h).reachable).machine
  have hrc := hos.pollRc (host.system.machine.sched.pollCall now)
  obtain ⟨machine, hpoll, -⟩ := @Machine.poll_step _ now
    ⟨os.pollRc (host.system.machine.sched.pollCall now), revents, later⟩ hmachine hpc hused hrc
  have hexec : host.system.machine.exec (.poll now
      ⟨os.pollRc (host.system.machine.sched.pollCall now), revents, later⟩) =
      some (.ok (machine, .polled (host.system.machine.sched.pollCall now))) := hpoll
  have hstep : System.Step host.system ⟨.runtime (.poll now
      ⟨os.pollRc (host.system.machine.sched.pollCall now), revents, later⟩),
      ⟨none, none, some (.polled (host.system.machine.sched.pollCall now))⟩⟩
      { host.system with machine := machine } := by
    simp [System.Step, System.exec, System.running, hpc, System.runtime, hexec, System.switchBack]
  exact ⟨_, _, _, rfl, rfl, rfl, .poll hos rfl rfl hstep⟩

-- Whatever a system answers that keeps to POSIX, the library on top of it makes a run of the
-- model: it knows which descriptors are open, and no answer aborts it or leaves it without a step.
theorem Run.serves (h : Run log host) :
    System.Run log host.system ∧ host.opened = host.system.files ∧
    (∀ (os : Os) ctx request, log.countP System.Event.creates < 2 ^ 48 → os.Conforms host.opened →
      host.system.running = some ctx →
      (host.system.contexts ctx).frame.request host.system.table = some request →
      (∀ direction fd nanosec, request ≠ .suspend direction fd nanosec) →
        ∃ reply output after, os.answer request = some reply ∧ output.request = some request ∧
          Step host ⟨.reply reply, output⟩ after) ∧
    (∀ (os : Os) now later revents, os.Conforms host.opened → host.system.machine.pc = .poll →
      (∃ idx, (host.system.machine.sched.coroutines idx).state ≠ .null) →
        ∃ reply output after, reply.rc = os.pollRc (host.system.machine.sched.pollCall now) ∧
          reply.revents = revents ∧ reply.now = later ∧
          Step host ⟨.runtime (.poll now reply), output⟩ after) := by
  refine ⟨Run.system h, Run.opened h, ?_, ?_⟩
  · intro os ctx request hcount hos hrunning hrequest hcall
    exact Run.answered h hcount hos hrunning hrequest hcall
  · intro os now later revents hos hpc hused
    exact Run.polled h hos hpc hused now later revents

-- A system that gives descriptor 3 and fails on everything else.
def thriftyOs : Os :=
  let failed : Outcome := ⟨-1, Posix.EINTR⟩
  { libc := ⟨fun _ _ => 1, fun _ _ _ _ => (-1, Posix.EINTR), fun _ _ _ _ => (-1, Posix.EINTR),
      fun errno => errno, fun _ _ => (-1, Posix.EINTR, 0)⟩
    socket := fun _ _ _ => ⟨3, 0⟩
    accept := fun _ => failed
    getfl := fun _ => failed
    setfl := fun _ _ => failed
    close := fun _ => failed
    listen := fun _ _ => failed
    setsockoptReuseaddr := fun _ => failed
    recv := fun _ _ => ⟨-1, .eintr⟩
    send := fun _ _ => ⟨-1, .eintr⟩
    poll := fun _ _ => failed }

theorem thriftyOs_conforms : thriftyOs.Conforms ∅ where
  socket := fun _ _ _ => .inl ⟨(by decide : (0 : Int32) ≤ 3), Finset.notMem_empty _⟩
  accept := fun _ => .inr ⟨rfl, (by decide : Posix.EINTR ≠ 0)⟩
  poll := fun _ _ => .inr ⟨rfl, rfl⟩

def creating : Host := ⟨System.initial.after [.start (.create 2 1 0)], ∅⟩

theorem Run.serves_thriftyOs :
    ∃ reply output after, thriftyOs.answer (.socket 2 1 0) = some reply ∧
      output.request = some (.socket 2 1 0) ∧ Step creating ⟨.reply reply, output⟩ after := by
  have hinitial : Run [] initial := Transition.Run.start rfl
  have hstart : Step initial ⟨.start (.create 2 1 0), ⟨none, none, none⟩⟩ creating :=
    .inside (by simp) (by simp) rfl
  obtain ⟨-, -, hcalls, -⟩ := Run.serves (hinitial.snoc hstart)
  exact hcalls thriftyOs none (.socket 2 1 0) (by decide) thriftyOs_conforms rfl rfl (by simp)

end Host

end Minimk.Socket
