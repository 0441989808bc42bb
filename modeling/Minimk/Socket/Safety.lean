import Minimk.Runtime.Safety
import Minimk.Socket.Registered.Theorems

namespace Minimk.Socket

open Abort Minimk.Runtime SocketTable Transition

section Operations

variable {table : SocketTable} {sock : UInt64} {point : Point} {code : Assertion}

-- The request of a point that suspends is a suspension.
theorem Point.request_suspends (info : SocketInfo) (h : point.suspends = true) :
    ∃ direction nanosec, point.request info = .suspend direction info.fd nanosec := by
  obtain ⟨direction, hawaits⟩ := Option.isSome_iff_exists.mp h
  cases point with
  | acceptSuspend | transferSuspend | connectSuspend => exact ⟨_, _, rfl⟩
  | _ => cases hawaits

theorem onFound_ne_error : onFound table sock point ≠ .error code := by
  rw [onFound_eq]
  split_ifs <;> simp

-- Any word may be passed for a handle.
theorem Operation.start_ne_error (operation : Operation) : operation.start table ≠ .error code := by
  cases operation with
  | create => simp [Operation.start, Socket.create]
  | destroy other =>
      simp only [Operation.start, Socket.destroy]
      split_ifs
      · simp
      · exact onFound_ne_error
  | setReadTimeout other nanosec =>
      simp only [Operation.start, setReadTimeout_eq]
      split_ifs <;> simp
  | setWriteTimeout other nanosec =>
      simp only [Operation.start, setWriteTimeout_eq]
      split_ifs <;> simp
  | accept | recv | send | connect | bind | listen | setsockoptReuseaddr =>
      exact onFound_ne_error

theorem SocketTable.Represents.infoCreate_ne_error {store : Registry UInt64 Entry}
    (h : table.Represents store) (hb : table.nextSlot.toNat + 256 ≤ 2 ^ 56) (fd : Int32) :
    table.infoCreate fd ≠ .error code := by
  obtain ⟨next, found, hcreate, -⟩ := @infoCreate_searched table fd h.cursor hb
  simp [hcreate]

theorem SocketTable.Represents.resume_ne_error {store : Registry UInt64 Entry}
    (h : table.Represents store) (hb : table.nextSlot.toNat + 256 ≤ 2 ^ 56) (frame : Frame)
    (reply : Reply) : frame.resume table reply ≠ .error code := by
  cases frame with
  | idle => simp [Frame.resume]
  | createSocket domain type protocol =>
      simp only [Frame.resume]
      split_ifs <;> simp
  | on info point => simp [Frame.resume]
  | opened fd point =>
      cases point with
      | setnonblock =>
          simp only [Frame.resume, OpenPoint.resume]
          split_ifs <;> simp
      | closesocket rv => simp [Frame.resume, OpenPoint.resume]
      | nosigpipe =>
          intro hresume
          rcases (bind_eq_error_iff _ _ _).mp hresume with hcreate | ⟨⟨rv, found, next⟩, -, hout⟩
          · exact h.infoCreate_ne_error hb fd hcreate
          · cases found <;> cases hout

end Operations

namespace System

variable {s next : System} {event : Event} {ctx : Option Slot} {code : Assertion}
  {turns : List (Transition.Turn System Event)}

-- What the library holds for a descriptor is one, also where an entry has been cleared.
structure Descriptors (s : System) : Prop where
  entries : ∀ info, (s.table.sockets info).fd ≠ invalidSocket
  opened : ∀ ctx fd point, (s.contexts ctx).frame = .opened fd point → fd ≠ invalidSocket

-- The kernel's answer to a call that gives a descriptor gives one.
theorem kernel_fd {files after : Finset Int32} {reply : Reply} {request : Request}
    (hrv : reply.rv = .success) (h : kernel files reply request = some after)
    (hrequest : (∃ domain type protocol, request = .socket domain type protocol) ∨
      ∃ fd, request = .accept fd) : reply.fd ≠ invalidSocket := by
  have hnonneg : 0 ≤ reply.fd := by
    rcases hrequest with ⟨domain, type, protocol, rfl⟩ | ⟨fd, rfl⟩
    · simp only [kernel, hrv, ne_eq, not_true_eq_false, ↓reduceIte,
        Option.ite_none_right_eq_some] at h
      exact h.1.1
    · simp only [kernel, hrv, ne_eq, not_true_eq_false, ↓reduceIte,
        Option.ite_none_right_eq_some] at h
      exact h.1.1
  intro hinvalid
  rw [hinvalid] at hnonneg
  exact absurd hnonneg (by decide)

-- What a turn of an operation does to the descriptors it may hold.
theorem Descriptors.turn (h : s.Descriptors) {machine : Machine} {files : Finset Int32}
    {reply : Reply} {frame : Frame} {table : SocketTable} {go : Next} {serial : Nat}
    (hframe : (s.contexts ctx).frame = frame) (hturn : Turn s.table reply frame table go)
    (hopens : ∀ fd point, go = .call (.opened fd point) →
      fd ≠ invalidSocket ∨ ∃ before, frame = .opened fd before) :
    ({ s with machine := machine, files := files }.settle ctx serial table go).1.Descriptors := by
  constructor
  · intro info
    rw [settle_table]
    cases hturn with
    | @destroyed idx =>
        by_cases he : info = idx
        · subst he
          simp [infoForget, SocketInfo.zero, invalidSocket]
        · simpa [infoForget, he] using h.entries info
    | full hsockets =>
        rw [hsockets]
        exact h.entries info
    | @stored fd _ idx hfilled =>
        cases hfilled with
        | free hfree htype hindex hsockets =>
            rw [hsockets]
            by_cases he : info = idx
            · subst he
              simpa using h.opened ctx fd _ hframe
            · simpa [he] using h.entries info
    | _ => exact h.entries info
  · intro other fd point hother
    by_cases he : other = ctx
    · subst he
      rw [settle_frame_self] at hother
      have hgo := @Next.eq_call_of_frame go (by simp [hother])
      rw [hother] at hgo
      rcases hopens fd point hgo with hvalid | ⟨before, rfl⟩
      · exact hvalid
      · exact h.opened other fd before hframe
    · rw [settle_contexts_of_ne he] at hother
      exact h.opened other fd point hother

theorem Move.descriptors (hm : Move s event next) (hlinked : s.Linked) (h : s.Descriptors) :
    next.Descriptors := by
  cases hm with
  | runtime | suspended => exact ⟨h.entries, h.opened⟩
  | @resumed action slot serial rv machine table go hstep hcurrent hidle hresume =>
      have hturn := Frame.resume_turn hidle hresume
      refine h.turn rfl hturn ?_
      obtain ⟨info, point, direction, sock, hframe, hawaits, -⟩ := hlinked.awaits hstep hidle
      rw [hframe] at hturn
      rintro fd later rfl
      cases hturn with
      | accepted => cases hawaits
  | @started other operation table go hrunning hidle hstart =>
      cases Operation.start_started hstart with
      | returned | socket | found =>
          refine ⟨by simpa using h.entries, ?_⟩
          intro ctx fd point hframe
          by_cases he : ctx = other
          · subst he
            rw [settle_frame_self] at hframe
            cases hframe
          · rw [settle_contexts_of_ne he] at hframe
            exact h.opened ctx fd point hframe
      | @retimed _ idx entry hhandle hfd =>
          constructor
          · intro info
            rw [settle_table]
            by_cases he : info = idx
            · subst he
              simpa [hfd] using h.entries info
            · simpa [he] using h.entries info
          · intro ctx fd point hframe
            by_cases he : ctx = other
            · subst he
              rw [settle_frame_self] at hframe
              cases hframe
            · rw [settle_contexts_of_ne he] at hframe
              exact h.opened ctx fd point hframe
  | @replied other reply request files table go hrunning hrequest hkernel hresume =>
      have hturn := Frame.resume_turn (Frame.ne_idle_of_request hrequest) hresume
      refine h.turn rfl hturn ?_
      generalize hframe : (s.contexts other).frame = frame at hturn hrequest
      rintro fd point rfl
      cases hturn with
      | accepted hrv =>
          exact .inl (kernel_fd hrv hkernel (.inr ⟨_, (Option.some.inj hrequest).symm⟩))
      | socket hrv =>
          exact .inl (kernel_fd hrv hkernel (.inl ⟨_, _, _, (Option.some.inj hrequest).symm⟩))
      | blocking | nonblocking | full => exact .inr ⟨_, rfl⟩

theorem Reachable.descriptors (h : Reachable s) : s.Descriptors := by
  have hboth : s.Linked ∧ s.Descriptors := by
    refine Transition.Reachable.invariant_from (P := fun s => s.Linked ∧ s.Descriptors) ?_ ?_ h
    · refine ⟨initial_linked, ?_, ?_⟩
      · exact fun info => (by decide : (0 : Int32) ≠ invalidSocket)
      · intro ctx fd point hframe
        cases hframe
    · exact fun _ _ _ ih hs => ⟨hs.move.linked ih.1, hs.move.descriptors ih.1 ih.2⟩
  exact hboth.2

-- What the program and poll promise of an action; the library's own calls need no promise.
def Action.Admissible : Action → Prop
  | .runtime action => Runtime.Action.Admissible action
  | _ => True

theorem settle_ne_error {files : Finset Int32} {reply : Reply} {store : Registry UInt64 Entry}
    (hrep : s.table.Represents store) (hb : s.table.nextSlot.toNat + 256 ≤ 2 ^ 56)
    (machine : Machine) :
    { s with machine := machine, files := files }.resume ctx reply ≠ .error code := by
  intro hresume
  rcases (bind_eq_error_iff _ _ _).mp hresume with hframe | ⟨⟨table, go⟩, -, hout⟩
  · exact hrep.resume_ne_error hb _ _ hframe
  · cases hout

theorem runtime_eq_error {action : Runtime.Action} {store : Registry UInt64 Entry}
    (h : s.machine.Invariant) (hrep : s.table.Represents store)
    (hb : s.table.nextSlot.toNat + 256 ≤ 2 ^ 56) (ha : Runtime.Action.Admissible action)
    (he : s.runtime action = some (.error code)) : Machine.Environmental code := by
  obtain ⟨result, hexec, he⟩ := Option.bind_eq_some_iff.mp he
  simp only [Option.pure_def, Option.some.injEq] at he
  rcases (bind_eq_error_iff _ _ _).mp he with rfl | ⟨⟨machine, output⟩, -, he⟩
  · exact h.exec_eq_error ha hexec
  · dsimp only at he
    split at he
    · rcases (bind_eq_error_iff _ _ _).mp he with he | ⟨_, -, hout⟩
      · exact absurd he (settle_ne_error hrep hb machine)
      · cases hout
    · cases he

theorem reply_ne_error {reply : Reply} {store : Registry UInt64 Entry}
    (hrep : s.table.Represents store) (hb : s.table.nextSlot.toNat + 256 ≤ 2 ^ 56) :
    s.reply ctx reply ≠ some (.error code) := by
  intro he
  obtain ⟨request, -, he⟩ := Option.bind_eq_some_iff.mp he
  obtain ⟨files, -, he⟩ := Option.bind_eq_some_iff.mp he
  simp only [Option.pure_def, Option.some.injEq] at he
  rcases (bind_eq_error_iff _ _ _).mp he with he | ⟨_, -, hout⟩
  · exact settle_ne_error hrep hb s.machine he
  · cases hout

-- An action that runs main into the suspension of an operation on a socket.
def MainSuspends (s : System) (action : Action) : Prop :=
  s.running = some none ∧ (∃ now sp, action = .suspend now sp) ∧
    ∃ info point, (s.contexts none).frame = .on info point ∧ point.suspends = true

theorem suspend_eq_error {now sp : UInt64} (h : s.machine.Invariant) (hvalid : s.Descriptors)
    (hrunning : s.running = some ctx) (he : s.suspend ctx now sp = some (.error code)) :
    Machine.Environmental code ∨ code = .suspendIoCurrent ∧ s.MainSuspends (.suspend now sp) := by
  obtain ⟨request, hrequest, he⟩ := Option.bind_eq_some_iff.mp he
  cases request with
  | suspend direction fd nanosec =>
      obtain ⟨info, point, hframe, hawaits, rfl, -⟩ := Frame.suspend_request hrequest
      cases ctx with
      | none =>
          refine .inr ⟨?_, hrunning, ⟨now, sp, rfl⟩, info, point, hframe, ?_⟩
          · exact (Except.error.inj (Option.some.inj he)).symm
          · rw [Point.suspends, hawaits]
            rfl
      | some slot =>
          obtain ⟨result, hexec, he⟩ := Option.bind_eq_some_iff.mp he
          simp only [Option.pure_def, Option.some.injEq] at he
          rcases (bind_eq_error_iff _ _ _).mp he with rfl | ⟨⟨machine, output⟩, -, hout⟩
          · refine .inl (h.exec_eq_error ?_ hexec)
            exact hvalid.entries info
          · cases hout
  | _ => cases he

theorem MainSuspends.exec {action : Action} (h : s.MainSuspends action) :
    s.exec action = some (.error .suspendIoCurrent) := by
  obtain ⟨hrunning, ⟨now, sp, rfl⟩, info, point, hframe, hsuspends⟩ := h
  obtain ⟨direction, nanosec, hrequest⟩ :=
    Point.request_suspends (s.table.sockets info) hsuspends
  simp [System.exec, hrunning, suspend, hframe, Frame.request, hrequest]

theorem Trace.bounded (h : Trace turns s)
    (hcount : (System.tableCalls turns).countP TableEvent.creates < 2 ^ 48) :
    ∃ store, s.table.Represents store ∧ s.table.nextSlot.toNat + 256 ≤ 2 ^ 56 := by
  obtain ⟨store, hrun, hrep, hnext⟩ :=
    SocketTable.Run.simulates (Trace.tableCalls h) (Nat.le_of_lt hcount)
  exact ⟨store, hrep, by omega⟩

theorem Trace.exec_eq_error {action : Action} (h : Trace turns s)
    (hcount : (System.tableCalls turns).countP TableEvent.creates < 2 ^ 48)
    (ha : action.Admissible) (he : s.exec action = some (.error code)) :
    Machine.Environmental code ∨ code = .suspendIoCurrent ∧ s.MainSuspends action := by
  obtain ⟨store, hrep, hb⟩ := Trace.bounded h hcount
  have hreach := (Trace.run h).reachable
  have hmachine := (Reachable.linked hreach).machine
  cases action with
  | runtime action =>
      cases hrunning : s.running with
      | none =>
          simp only [exec, hrunning] at he
          exact .inl (runtime_eq_error hmachine hrep hb ha he)
      | some ctx =>
          simp only [exec, hrunning, Option.ite_none_right_eq_some] at he
          exact .inl (runtime_eq_error hmachine hrep hb ha he.2)
  | start operation =>
      cases hrunning : s.running with
      | none => simp [exec, hrunning] at he
      | some ctx =>
          simp only [exec, hrunning, Option.ite_none_right_eq_some, Option.some.injEq] at he
          rcases (bind_eq_error_iff _ _ _).mp he.2 with he | ⟨_, -, hout⟩
          · exact absurd he operation.start_ne_error
          · cases hout
  | reply reply =>
      cases hrunning : s.running with
      | none => simp [exec, hrunning] at he
      | some ctx =>
          simp only [exec, hrunning] at he
          exact absurd he (reply_ne_error hrep hb)
  | suspend now sp =>
      cases hrunning : s.running with
      | none => simp [exec, hrunning] at he
      | some ctx =>
          simp only [exec, hrunning] at he
          exact suspend_eq_error hmachine (Reachable.descriptors hreach) hrunning he

-- A coroutine gets through the suspension of its operation.
theorem Reachable.exec_suspend {slot : Slot} {now sp : UInt64} {info : InfoIdx} {point : Point}
    (h : Reachable s) (hrunning : s.running = some (some slot))
    (hframe : (s.contexts (some slot)).frame = .on info point) (hsuspends : point.suspends = true) :
    (∃ next output, s.exec (.suspend now sp) = some (.ok (next, output))) ∨
      s.exec (.suspend now sp) = some (.error .validateStackPointer) := by
  obtain ⟨direction, nanosec, hrequest⟩ :=
    Point.request_suspends (s.table.sockets info) hsuspends
  obtain ⟨-, hnone⟩ | ⟨other, hpc, hcurrent, hother⟩ := running_eq_some hrunning
  · cases hnone
  · cases hresult : s.machine.coroutineSuspendIo (s.table.sockets info).fd direction.events nanosec
        now sp with
    | error code =>
        have hsock := (Reachable.descriptors h).entries info
        obtain rfl := Machine.coroutineSuspendIo_eq_error hcurrent hsock hresult
        right
        simp [System.exec, hrunning, suspend, hframe, Frame.request, hrequest, Machine.exec, hpc,
          hresult]
    | ok result =>
        left
        simp [System.exec, hrunning, suspend, hframe, Frame.request, hrequest, Machine.exec, hpc,
          hresult]

theorem exec_start {operation : Operation} (hrunning : s.running = some ctx)
    (hidle : (s.contexts ctx).frame = .idle) :
    ∃ next output, s.exec (.start operation) = some (.ok (next, output)) := by
  cases hstart : operation.start s.table with
  | error code => exact absurd hstart operation.start_ne_error
  | ok result => simp [exec, hrunning, hidle, start, hstart]

theorem Trace.exec_reply {reply : Reply} {request : Request} {files : Finset Int32}
    (h : Trace turns s) (hcount : (System.tableCalls turns).countP TableEvent.creates < 2 ^ 48)
    (hrunning : s.running = some ctx)
    (hrequest : (s.contexts ctx).frame.request s.table = some request)
    (hkernel : kernel s.files reply request = some files) :
    ∃ next output, s.exec (.reply reply) = some (.ok (next, output)) := by
  obtain ⟨store, hrep, hb⟩ := Trace.bounded h hcount
  cases hresume : { s with files := files }.resume ctx reply with
  | error code => exact absurd hresume (settle_ne_error hrep hb s.machine)
  | ok result => simp [exec, hrunning, System.reply, hrequest, hkernel, hresume]

-- The assertions that can fail in the whole library check what the kernel says of its pages and
-- where the compiled code has left a stack pointer, and that main does not wait for a socket. The
-- operations on sockets meet all of theirs in any order of the coroutines' steps, and every answer
-- of the kernel takes them on.
theorem Trace.asserts (h : Trace turns s)
    (hcount : (System.tableCalls turns).countP TableEvent.creates < 2 ^ 48) :
    (∀ action code, action.Admissible → s.exec action = some (.error code) →
      code = .stackAllocPageSize ∨ code = .validateStackPointer ∨
        code = .suspendIoCurrent ∧ s.MainSuspends action) ∧
    (∀ action, s.MainSuspends action → s.exec action = some (.error .suspendIoCurrent)) ∧
    (∀ slot now sp info point, s.running = some (some slot) →
      (s.contexts (some slot)).frame = .on info point → point.suspends = true →
        (∃ next output, s.exec (.suspend now sp) = some (.ok (next, output))) ∨
          s.exec (.suspend now sp) = some (.error .validateStackPointer)) ∧
    (∀ ctx operation, s.running = some ctx → (s.contexts ctx).frame = .idle →
      ∃ next output, s.exec (.start operation) = some (.ok (next, output))) ∧
    (∀ ctx reply request files, s.running = some ctx →
      (s.contexts ctx).frame.request s.table = some request →
      kernel s.files reply request = some files →
        ∃ next output, s.exec (.reply reply) = some (.ok (next, output))) := by
  refine ⟨?_, ?_, ?_, ?_, ?_⟩
  · intro action code ha he
    exact or_assoc.mp (Trace.exec_eq_error h hcount ha he)
  · intro action hmain
    exact hmain.exec
  · intro slot now sp info point hrunning hframe hsuspends
    exact Reachable.exec_suspend (Trace.run h).reachable hrunning hframe hsuspends
  · intro ctx operation hrunning hidle
    exact exec_start hrunning hidle
  · intro ctx reply request files hrunning hrequest hkernel
    exact Trace.exec_reply h hcount hrunning hrequest hkernel

-- Main reads from a socket on which nothing has arrived.
def mainReads : List Action :=
  let done : Reply := ⟨.success, 3, 0, .success⟩
  [.start (.create 2 1 0), .reply done, .reply done, .reply done,
    .start (.recv 0x100000000000000 16), .reply ⟨.eagain, -1, 0, .success⟩]

theorem mainReads_trace : Trace (Transition.outcome (performTurn perform) mainReads initial).1
    (Transition.outcome (performTurn perform) mainReads initial).2 := by
  refine ⟨initial, rfl, Transition.outcome_turns ?_ rfl⟩
  exact fun _ _ _ _ => perform_step

theorem Trace.asserts_timedSocket :
    (∃ next output, (Transition.outcome (performTurn perform) timedSocket initial).2.exec
      (.suspend 5 0x1f000) = some (.ok (next, output))) ∧
    (Transition.outcome (performTurn perform) mainReads initial).2.exec (.suspend 5 0x1f000) =
      some (.error .suspendIoCurrent) := by
  constructor
  · have hsuspends := (Trace.asserts timedSocket_trace (by decide)).2.2.1
    have hcases := hsuspends 0 5 0x1f000 0 (.transferSuspend .read 16 0) rfl rfl rfl
    apply hcases.resolve_right
    intro he
    cases he
  · have hfails := (Trace.asserts mainReads_trace (by decide)).2.1
    refine hfails (.suspend 5 0x1f000) ⟨rfl, ⟨_, _, rfl⟩, 0, ?_⟩
    exact ⟨.transferSuspend .read 16 0, rfl, rfl⟩

end System

end Minimk.Socket
