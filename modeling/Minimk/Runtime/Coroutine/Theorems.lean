import Minimk.Runtime.Coroutine

namespace Minimk.Runtime

open Abort

theorem stackAlloc_eq_ok {sp stack : Stack} {reply : StackReply} {rv : Error} {calls : List MemCall}
    (h : stackAlloc sp reply = .ok (rv, stack, calls)) :
    (rv = .enomem ∧ (calls = [] ∨ ∃ base, reply.mmap = some base ∧
      calls = [.mmap ⟨base, stackSizeOf reply⟩, .munmap ⟨base, stackSizeOf reply⟩])) ∨
    (rv = .success ∧ ∃ base, reply.mmap = some base ∧
      stack.mapping = ⟨base, stackSizeOf reply⟩ ∧ calls = [.mmap stack.mapping]) := by
  obtain ⟨_, _, h⟩ := (bind_eq_ok_iff _ _ _).mp h
  cases hm : reply.mmap with
  | none =>
      simp only [hm, pure_eq_ok, Except.ok.injEq, Prod.mk.injEq] at h
      exact .inl ⟨h.1.symm, .inl h.2.2.symm⟩
  | some base =>
      cases hp : reply.mprotect with
      | false =>
          simp only [hm, hp, pure_eq_ok, Bool.false_eq_true, ↓reduceIte, Except.ok.injEq,
            Prod.mk.injEq] at h
          exact .inl ⟨h.1.symm, .inr ⟨base, rfl, h.2.2.symm⟩⟩
      | true =>
          simp only [hm, hp, pure_eq_ok, ↓reduceIte, Except.ok.injEq, Prod.mk.injEq] at h
          obtain ⟨hr, rfl, hc⟩ := h
          exact .inr ⟨hr.symm, base, rfl, rfl, hc.symm⟩

namespace Coroutine

theorem init_eq_ok {entry argument : UInt64} {reply : StackReply} {rv : Error} {coro : Coroutine}
    {calls : List MemCall} (h : init entry argument reply = .ok (rv, coro, calls)) :
    (rv = .enomem ∧ coro.state = .null ∧ (calls = [] ∨ ∃ base, reply.mmap = some base ∧
      calls = [.mmap ⟨base, stackSizeOf reply⟩, .munmap ⟨base, stackSizeOf reply⟩])) ∨
    (rv = .success ∧ coro.state = .runnable ∧ coro.entry = entry ∧ coro.argument = argument ∧
      ∃ base, reply.mmap = some base ∧
        coro.stack.mapping = ⟨base, stackSizeOf reply⟩ ∧ calls = [.mmap coro.stack.mapping]) := by
  obtain ⟨⟨code, stack, done⟩, ha, h⟩ := (bind_eq_ok_iff _ _ _).mp h
  rcases stackAlloc_eq_ok ha with ⟨rfl, hc⟩ | ⟨rfl, base, hm, hs, hc⟩
  · simp only [ne_eq, reduceCtorEq, not_false_eq_true, ↓reduceIte, pure_eq_ok, Except.ok.injEq,
      Prod.mk.injEq] at h
    obtain ⟨rfl, rfl, rfl⟩ := h
    exact .inl ⟨rfl, rfl, hc⟩
  · simp only [ne_eq, not_true_eq_false, ↓reduceIte, pure_eq_ok, Except.ok.injEq,
      Prod.mk.injEq] at h
    obtain ⟨rfl, rfl, rfl⟩ := h
    exact .inr ⟨rfl, rfl, rfl, rfl, base, hm, hs, hc⟩

section Resume

variable {coro : Coroutine} {now : UInt64} {revents : Int16}

theorem maybeResume_of_not_blocked (ht : coro.state ≠ .blockedOnTimer)
    (hi : coro.state ≠ .blockedOnIo) : coro.maybeResume now revents = coro := by
  simp [maybeResume, ht, hi]

theorem maybeResume_of_timer (h : coro.state = .blockedOnTimer) :
    coro.maybeResume now revents =
      if coro.deadline ≤ now then { coro with deadline := 0, state := .runnable } else coro := by
  simp [maybeResume, h]

theorem maybeResume_of_io (h : coro.state = .blockedOnIo) :
    coro.maybeResume now revents =
      if coro.events &&& revents ≠ 0 ∨ coro.deadline ≤ now then
        { coro with
          deadline := 0, state := .runnable, sock := invalidSocket, events := 0,
          revents := revents }
      else coro := by
  simp [maybeResume, h]

-- The outcome depends on the saved revents alone.
def ioResult (revents events : Int16) : Error :=
  if revents &&& events ≠ 0 ∨ revents &&& POLLERR ≠ 0 then .success else .etimedout

theorem resumeIo_eq {sock : Int32} {events : Int16} (hd : coro.deadline = 0)
    (hs : coro.sock = invalidSocket) (he : coro.events = 0) :
    coro.resumeIo sock events =
      .ok (ioResult coro.revents events, { coro with revents := 0 }) := by
  simp only [resumeIo, hd, hs, he, assert_of_true, ok_bind, ioResult]
  by_cases h : coro.revents &&& events = 0
  · by_cases hp : coro.revents &&& POLLERR = 0 <;> simp [h, hp]
  · simp [h]

theorem suspendIo_eq {sock : Int32} {events : Int16} {nanosec : UInt64} (h : sock ≠ invalidSocket) :
    coro.suspendIo now sock events nanosec = .ok { coro with
      state := .blockedOnIo, deadline := Integer.u64Satadd now nanosec, sock := sock,
      events := events, revents := 0 } := by
  simp [suspendIo, h]

end Resume

end Coroutine

end Minimk.Runtime
