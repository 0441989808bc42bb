import Minimk.Runtime.Lifecycle.Theorems
import Minimk.Runtime.Machine.Resumption

namespace Minimk.Runtime

open Abort

-- What the callers of the library and poll promise of an action.
def Action.Admissible : Action → Prop
  | .suspendIo _ sock _ _ _ => sock ≠ invalidSocket
  | .poll _ reply => reply.rc = .success ∨ reply.rc = .eintr
  | _ => True

namespace Machine

open Transition

-- The assertions that no scheduling decision can provoke: they check what the kernel says of
-- its pages and where the compiled code has left a stack pointer.
def Environmental (code : Assertion) : Prop :=
  code = .stackAllocPageSize ∨ code = .validateStackPointer

variable {m next : Machine} {idx : Slot} {code : Assertion} {log : List Event}

theorem stackAlloc_eq_error {sp : Stack} {reply : StackReply}
    (h : stackAlloc sp reply = .error code) : code = .stackAllocPageSize := by
  rcases (bind_eq_error_iff _ _ _).mp h with h | ⟨_, _, h⟩
  · exact ((assert_eq_error_iff).mp h).2.symm
  · split at h
    · cases h
    · split at h <;> cases h

theorem init_eq_error {entry argument : UInt64} {reply : StackReply}
    (h : Coroutine.init entry argument reply = .error code) : code = .stackAllocPageSize := by
  rcases (bind_eq_error_iff _ _ _).mp h with h | ⟨⟨rv, stack, calls⟩, _, h⟩
  · exact stackAlloc_eq_error h
  · simp only at h
    split at h <;> cases h

theorem go_eq_error {entry argument : UInt64} {reply : StackReply}
    (h : m.go entry argument reply = .error code) : Environmental code := by
  rcases (bind_eq_error_iff _ _ _).mp h with h | ⟨⟨rv, sched, calls⟩, _, h⟩
  · unfold Scheduler.coroutineCreate at h
    split at h
    · cases h
    · rcases (bind_eq_error_iff _ _ _).mp h with h | ⟨_, _, h⟩
      · exact .inl (init_eq_error h)
      · cases h
  · simp only at h
    split at h <;> cases h

theorem coroutineYield_eq_error {cont : Cont} {sp : UInt64} (hcurrent : m.sched.current ≠ none)
    (h : m.coroutineYield cont sp = .error code) : code = .validateStackPointer := by
  obtain ⟨idx, hi⟩ := Option.ne_none_iff_exists'.mp hcurrent
  simp only [coroutineYield, hi] at h
  rcases (bind_eq_error_iff _ _ _).mp h with h | ⟨_, _, h⟩
  · exact (assert_eq_error_iff.mp h).2.symm
  · cases h

theorem coroutineSuspendIo_eq_error {sock : Int32} {events : Int16} {nanosec now sp : UInt64}
    (hcurrent : m.sched.current = some idx) (hsock : sock ≠ invalidSocket)
    (h : m.coroutineSuspendIo sock events nanosec now sp = .error code) :
    code = .validateStackPointer := by
  simp only [coroutineSuspendIo, hcurrent, Coroutine.suspendIo_eq hsock, ok_bind] at h
  exact coroutineYield_eq_error (by simp [hcurrent]) h

theorem Invariant.resume_ne_error (h : m.Invariant) (hcurrent : m.sched.current = some idx) :
    m.resume idx ≠ some (.error code) := by
  intro hr
  by_cases hpc : m.pc = .coroutine
  · have hrunning := (h.running idx).mpr ⟨hpc, hcurrent⟩
    simp [resume, hrunning] at hr
  · have hswitch : m.pc = .switch := by
      by_contra hs
      simp [h.current_none hs hpc] at hcurrent
    obtain ⟨_, _, hok⟩ := h.resume_ok hswitch hcurrent
    rw [hok] at hr
    cases hr

theorem Invariant.switch_eq_error (h : m.Invariant) {sp : UInt64}
    (hs : m.switch sp = some (.error code)) : Environmental code := by
  obtain ⟨idx, hcurrent, hs⟩ := Option.bind_eq_some_iff.mp hs
  obtain ⟨resumed, hresume, hs⟩ := Option.bind_eq_some_iff.mp hs
  have hs := Option.some.inj hs
  rcases (bind_eq_error_iff _ _ _).mp hs with hs | ⟨_, _, hs⟩
  · exact .inr (assert_eq_error_iff.mp hs).2.symm
  · rcases (bind_eq_error_iff _ _ _).mp hs with hs | ⟨_, _, hs⟩
    · subst hs
      exact absurd hresume (h.resume_ne_error hcurrent)
    · cases hs

theorem Invariant.poll_ne_error (h : m.Invariant) {now : UInt64} {reply : Scheduler.PollReply}
    (hrc : reply.rc = .success ∨ reply.rc = .eintr) : m.poll now reply ≠ .error code := by
  intro hp
  have hready : ∀ idx, Scheduler.PollReady (m.sched.coroutines idx) := fun idx =>
    (h.slots idx).pollReady
  unfold poll at hp
  split at hp
  · rw [Scheduler.blockOnPoll_eq hready] at hp
    rcases hrc with hrc | hrc <;> simp [hrc] at hp
  · cases hp

theorem Invariant.exec_eq_error (h : m.Invariant) {action : Action} (ha : action.Admissible)
    (he : m.exec action = some (.error code)) : Environmental code := by
  have hcurrent : m.pc = .coroutine → ∃ idx, m.sched.current = some idx := by
    intro hpc
    have hne : m.sched.current ≠ none := fun hn => (h.current.mp hn).2 hpc
    exact Option.ne_none_iff_exists'.mp hne
  cases action <;> simp only [exec, Option.ite_none_right_eq_some, Option.some.injEq] at he
  case go => exact go_eq_error he.2
  case run =>
    have hn := h.current_none (by simp [he.1]) (by simp [he.1])
    simp [run, hn] at he
  case loopTest => cases he.2
  case clean => cases he.2
  case expire => cases he.2
  case pick => cases he.2
  case poll => exact absurd he.2 (h.poll_ne_error ha)
  case switch => exact h.switch_eq_error he.2
  case yield =>
    obtain ⟨idx, hi⟩ := hcurrent he.1
    exact .inr (coroutineYield_eq_error (by simp [hi]) he.2)
  case nanosleep =>
    obtain ⟨idx, hi⟩ := hcurrent he.1
    have he := he.2
    simp only [coroutineSuspendTimer, hi] at he
    exact .inr (coroutineYield_eq_error (by simp [hi]) he)
  case suspendIo =>
    obtain ⟨idx, hi⟩ := hcurrent he.1
    exact .inr (coroutineSuspendIo_eq_error hi ha he.2)
  case ret =>
    obtain ⟨idx, hi⟩ := hcurrent he.1
    have he := he.2
    simp only [coroutineMainExit, hi] at he
    exact .inr (coroutineYield_eq_error (by simp [hi]) he)

-- A coroutine whose entry has returned has no frame that a switch could resume.
theorem Frames.resumes_eq_false {event : Event} {serial : Nat} (hf : Frames m event next)
    (hn : ¬m.Unfinished serial) : event.resumes serial = false := by
  cases hf with
  | quiet _ _ _ _ _ hresumes _ => exact hresumes serial
  | created _ _ _ _ _ _ _ hresumes _ => exact hresumes serial
  | cleaned _ _ _ _ _ hresumes _ => exact hresumes serial
  | left _ _ _ _ _ _ _ _ _ _ hresumes _ => exact hresumes serial
  | resumed idx hidle hreturned _ _ _ _ _ hresumes _ =>
      rw [hresumes]
      by_contra hs
      have hserial : m.serials idx = serial := by simpa using hs
      exact hn ⟨idx, hserial, hidle, hreturned⟩

theorem Run.resumes_eq_false {older newer : List Event} {event other : Event} {serial : Nat}
    (h : Run (newer ++ event :: older) m) (hr : event.returns serial = true)
    (ho : other ∈ newer) : other.resumes serial = false := by
  obtain ⟨latest, earlier, rfl⟩ := List.append_of_mem ho
  rw [List.append_assoc, List.cons_append] at h
  obtain ⟨state, after, hrun, hs, _⟩ := h.split_at
  have hreturned := (Run.history hrun).returned serial
  have hdone := hreturned.iff_exists.mpr ⟨event, by simp, hr⟩
  exact (hs.move.frames (Reachable.holds hrun.reachable)).resumes_eq_false hdone.2

theorem Run.safe (h : Run log m) :
    (∀ idx, (m.sched.coroutines idx).state = .blockedOnIo →
      (m.sched.coroutines idx).sock ≠ invalidSocket ∧ (m.sched.coroutines idx).events ≠ 0 ∧
        (m.sched.coroutines idx).revents = 0) ∧
    (∀ idx sock events, m.conts idx = .waiting sock events →
      (m.sched.coroutines idx).state ≠ .blockedOnIo →
      (m.sched.coroutines idx).state = .runnable ∧ (m.sched.coroutines idx).deadline = 0 ∧
        (m.sched.coroutines idx).sock = invalidSocket ∧ (m.sched.coroutines idx).events = 0) ∧
    (∀ idx, m.conts idx = .running ↔ m.pc = .coroutine ∧ m.sched.current = some idx) ∧
    (m.pc = .coroutine →
      ∃ idx, m.sched.current = some idx ∧ (m.sched.coroutines idx).state = .runnable) ∧
    (∀ newer event older serial, log = newer ++ event :: older → event.returns serial = true →
      ∀ other ∈ newer, other.resumes serial = false) ∧
    (∀ action code, action.Admissible → m.exec action = some (.error code) →
      code = .stackAllocPageSize ∨ code = .validateStackPointer) := by
  have hi := Reachable.holds h.reachable
  refine ⟨fun idx => (hi.slots idx).pollReady, ?_, hi.running, ?_, ?_, ?_⟩
  · intro idx sock events hc hs
    have hslot := hi.slots idx
    rw [hc] at hslot
    rcases hslot with hw | hw
    · exact absurd hw.state hs
    · exact ⟨hw.state, hw.deadline, hw.sock, hw.events⟩
  · intro hpc
    have hne : m.sched.current ≠ none := fun hn => (hi.current.mp hn).2 hpc
    obtain ⟨idx, hc⟩ := Option.ne_none_iff_exists'.mp hne
    exact ⟨idx, hc, hi.picked idx hc⟩
  · rintro newer event older serial rfl hr other ho
    exact Run.resumes_eq_false h hr ho
  · exact fun action code ha he => hi.exec_eq_error ha he

-- A reader that a poll wakes and that a later scan visits again before it is picked.
def wokenReader : List Action :=
  [.go 1 7 ⟨4096, some 0x10000, true⟩, .run, .loopTest, .clean, .expire 0, .pick, .switch 0x9000,
    .suspendIo .read 3 100 5 0x1f000, .loopTest, .clean, .expire 6, .pick,
    .poll 7 ⟨.success, fun _ => POLLIN, 8⟩, .loopTest, .clean, .expire 9]

theorem Run.safe_wokenReader :
    ((initial.after wokenReader).sched.coroutines 0).state = .runnable ∧
      ((initial.after wokenReader).sched.coroutines 0).deadline = 0 ∧
      ((initial.after wokenReader).sched.coroutines 0).sock = invalidSocket ∧
      ((initial.after wokenReader).sched.coroutines 0).events = 0 := by
  have hrun := @after_run wokenReader rfl
  obtain ⟨-, hwoken, -⟩ := Run.safe hrun
  exact hwoken 0 3 POLLIN rfl (by decide)

end Machine

end Minimk.Runtime
