import Minimk.Runtime.Wakeup.Theorems
import Minimk.Socket.Operation.Theorems
import Minimk.Socket.System.Moves

namespace Minimk.Socket

open Abort Minimk.Runtime

-- A coroutine that waits for its socket does so until it is switched to.
theorem waits_until_resumed {m next : Machine} {event : Runtime.Event} {slot : Slot}
    {sock : Int32} {events : Int16} (h : m.Invariant) (hs : Machine.Step m event next)
    (hconts : m.conts slot = .waiting sock events) :
    next.conts slot = m.conts slot ∨
      ∃ serial rv, event.output = .resumed serial (.suspendIoReturns rv) ∧
        m.sched.current = some slot := by
  have hmove := hs.move
  have hparked : (m.conts slot).Parked := by simp [Cont.Parked, hconts]
  cases hresumes : event.resumes (m.serials slot) with
  | false => exact .inl (hmove.stays h hparked hresumes).conts
  | true =>
      cases hmove with
      | @resumed sp other coro how hpc hcurrent hresume =>
          have hserial : m.serials other = m.serials slot := by
            simpa [Runtime.Event.resumes] using hresumes
          obtain ⟨hother, -, -⟩ := Machine.resume_how hresume
          obtain rfl := h.serial_inj other slot hother hparked.1 hserial
          simp only [Machine.resume, hconts, Option.some.injEq] at hresume
          obtain ⟨⟨rv, after⟩, -, hresume⟩ := (bind_eq_ok_iff _ _ _).mp hresume
          simp only [pure_eq_ok, Except.ok.injEq, Prod.mk.injEq] at hresume
          obtain ⟨-, rfl⟩ := hresume
          exact .inr ⟨_, rv, rfl, hcurrent⟩
      | clean => simp [Runtime.Event.resumes, Machine.clean] at hresumes
      | _ => simp [Runtime.Event.resumes] at hresumes

theorem Frame.ne_idle_of_request {table : SocketTable} {frame : Frame} {request : Request}
    (h : frame.request table = some request) : frame ≠ .idle := by
  rintro rfl
  cases h

-- An operation suspends on the descriptor that its entry holds at that time.
theorem Frame.suspend_request {table : SocketTable} {frame : Frame} {direction : Direction}
    {fd : Int32} {nanosec : UInt64}
    (h : frame.request table = some (.suspend direction fd nanosec)) :
    ∃ info point, frame = .on info point ∧ point.awaits = some direction ∧
      fd = (table.sockets info).fd ∧ nanosec = (table.sockets info).timeout direction := by
  cases frame with
  | idle => cases h
  | createSocket => cases h
  | opened fd point => cases point <;> cases h
  | on info point =>
      refine ⟨info, point, rfl, ?_⟩
      cases point with
      | acceptSuspend | connectSuspend =>
          obtain ⟨rfl, rfl, rfl⟩ : _ ∧ _ ∧ _ := by simpa [Frame.request, Point.request] using h
          exact ⟨rfl, rfl, rfl⟩
      | transferSuspend way count amount =>
          obtain ⟨rfl, rfl, rfl⟩ : _ ∧ _ ∧ _ := by simpa [Frame.request, Point.request] using h
          exact ⟨rfl, rfl, rfl⟩
      | transferCall way count => cases way <;> cases h
      | _ => cases h

namespace System

variable {s next : System} {event : Event} {ctx : Option Slot}

section Settle

variable {serial : Nat} {table : SocketTable} {go : Next}

-- The local state that an operation goes on with.
def Next.frame : Next → Frame
  | .call frame => frame
  | .done _ _ | .issued _ => .idle

@[simp] theorem settle_machine : (s.settle ctx serial table go).1.machine = s.machine := by
  cases go <;> rfl

@[simp] theorem settle_table : (s.settle ctx serial table go).1.table = table := by
  cases go <;> rfl

@[simp] theorem settle_files : (s.settle ctx serial table go).1.files = s.files := by
  cases go <;> rfl

theorem settle_contexts : (s.settle ctx serial table go).1.contexts =
    Function.update s.contexts ctx ⟨Next.frame go, serial⟩ := by
  cases go <;> rfl

@[simp] theorem settle_running : (s.settle ctx serial table go).1.running = s.running := by
  simp only [running, settle_machine]

theorem settle_frame_self :
    ((s.settle ctx serial table go).1.contexts ctx).frame = Next.frame go := by
  simp [settle_contexts]

theorem settle_contexts_of_ne {other : Option Slot} (h : other ≠ ctx) :
    (s.settle ctx serial table go).1.contexts other = s.contexts other := by
  simp [settle_contexts, h]

end Settle

-- The context called a suspension in an operation and has not been switched to since.
def Suspended (s : System) (ctx : Option Slot) : Prop :=
  ∃ slot info point direction sock, ctx = some slot ∧ (s.contexts ctx).frame = .on info point ∧
    point.awaits = some direction ∧ s.machine.conts slot = .waiting sock direction.events

-- The local states of the operations agree with where the machine has left their contexts.
structure Linked (s : System) : Prop where
  machine : s.machine.Invariant
  frames : ∀ ctx, (s.contexts ctx).frame ≠ .idle → s.running = some ctx ∨ s.Suspended ctx
  closing : ∀ ctx info, (s.contexts ctx).frame = .on info .destroyClose →
    (s.table.sockets info).handle ≠ 0

theorem initial_linked : initial.Linked where
  machine := Machine.initial_invariant
  frames := fun _ h => absurd rfl h
  closing := fun _ _ h => by cases h

theorem running_eq_some (h : s.running = some ctx) :
    (s.machine.pc = .main ∧ ctx = none) ∨
      ∃ slot, s.machine.pc = .coroutine ∧ s.machine.sched.current = some slot ∧
        ctx = some slot := by
  unfold running at h
  split at h
  · rename_i hpc
    exact .inl ⟨hpc, (Option.some.inj h).symm⟩
  · rename_i hpc
    obtain ⟨slot, hcurrent, rfl⟩ := Option.map_eq_some_iff.mp h
    exact .inr ⟨slot, hpc, hcurrent, rfl⟩
  · cases h

-- A suspended operation stays so unless the step is the switch back to it.
theorem Suspended.keep {step : Runtime.Event} (hsuspended : s.Suspended ctx)
    (h : s.machine.Invariant) (hs : Machine.Step s.machine step next.machine)
    (hcontexts : next.contexts ctx = s.contexts ctx) :
    next.Suspended ctx ∨ ∃ slot serial rv, ctx = some slot ∧
      step.output = .resumed serial (.suspendIoReturns rv) ∧
      s.machine.sched.current = some slot := by
  obtain ⟨slot, info, point, direction, sock, rfl, hframe, hawaits, hconts⟩ := hsuspended
  rcases waits_until_resumed h hs hconts with hkeep | ⟨serial, rv, hout, hcurrent⟩
  · refine .inl ⟨slot, info, point, direction, sock, rfl, ?_, hawaits, ?_⟩
    · rw [hcontexts, hframe]
    · rw [hkeep, hconts]
  · exact .inr ⟨slot, serial, rv, rfl, hout, hcurrent⟩

namespace Linked

theorem not_suspended (h : s.Linked) (hrunning : s.running = some ctx) : ¬s.Suspended ctx := by
  rintro ⟨slot, info, point, direction, sock, rfl, -, -, hconts⟩
  rcases running_eq_some hrunning with ⟨-, hnone⟩ | ⟨other, hpc, hcurrent, hother⟩
  · cases hnone
  · obtain rfl := Option.some.inj hother
    rw [(h.machine.running slot).mpr ⟨hpc, hcurrent⟩] at hconts
    cases hconts

-- Only the running operation is anywhere but at a suspension.
theorem running_of_not_awaits (h : s.Linked) {frame : Frame}
    (hframe : (s.contexts ctx).frame = frame) (hidle : frame ≠ .idle)
    (hawaits : ∀ info point, frame = .on info point → point.awaits = none) :
    s.running = some ctx := by
  rcases h.frames ctx (hframe ▸ hidle) with hrunning | hsuspended
  · exact hrunning
  · obtain ⟨slot, info, point, direction, sock, -, hon, hsome, -⟩ := hsuspended
    rw [hawaits info point (hframe.symm.trans hon)] at hsome
    cases hsome

theorem running_of_opened (h : s.Linked) {fd : Int32} {point : OpenPoint}
    (hframe : (s.contexts ctx).frame = .opened fd point) : s.running = some ctx :=
  h.running_of_not_awaits hframe (by simp) (by simp)

theorem running_of_closing (h : s.Linked) {info : InfoIdx}
    (hframe : (s.contexts ctx).frame = .on info .destroyClose) : s.running = some ctx := by
  refine h.running_of_not_awaits hframe (by simp) fun other point he => ?_
  simp only [Frame.on.injEq] at he
  rw [← he.2]
  rfl

-- While the running context goes on, the others stay where they are.
theorem settle (h : s.Linked) {serial : Nat} {table : SocketTable} {files : Finset Int32}
    {go : Next} (hrunning : s.running = some ctx)
    (hclosing : ∀ info, Next.frame go = .on info .destroyClose → (table.sockets info).handle ≠ 0) :
    ({ s with files := files }.settle ctx serial table go).1.Linked := by
  refine ⟨by simpa using h.machine, ?_, ?_⟩
  · intro other hframe
    by_cases he : other = ctx
    · subst he
      exact .inl (by rw [settle_running]; exact hrunning)
    · rw [settle_contexts_of_ne he] at hframe
      rcases h.frames other hframe with hother | hsuspended
      · rw [hrunning] at hother
        exact absurd (Option.some.inj hother).symm he
      · obtain ⟨slot, info, point, direction, sock, rfl, hon, hawaits, hconts⟩ := hsuspended
        refine .inr ⟨slot, info, point, direction, sock, rfl, ?_, hawaits, ?_⟩
        · rw [settle_contexts_of_ne he]
          exact hon
        · simpa using hconts
  · intro other info hframe
    by_cases he : other = ctx
    · subst he
      rw [settle_frame_self] at hframe
      simpa using hclosing info hframe
    · rw [settle_contexts_of_ne he] at hframe
      have hother := h.running_of_closing hframe
      rw [hrunning] at hother
      exact absurd (Option.some.inj hother).symm he

end Linked

theorem turn_closing {table after : SocketTable} {reply : Reply} {frame : Frame} {go : Next}
    (h : Turn table reply frame after go) (info : InfoIdx) :
    Next.frame go ≠ .on info .destroyClose := by
  cases h with
  | again _ hlater _ _ =>
      simp only [Next.frame, ne_eq, Frame.on.injEq, not_and]
      exact fun _ => hlater
  | _ => simp [Next.frame]

theorem started_closing {table after : SocketTable} {operation : Operation} {go : Next}
    (h : Started table operation after go) (info : InfoIdx)
    (hframe : Next.frame go = .on info .destroyClose) : (after.sockets info).handle ≠ 0 := by
  cases h with
  | found hfinds _ =>
      simp only [Next.frame, Frame.on.injEq] at hframe
      rw [← hframe.1]
      exact hfinds.handle_ne_zero
  | _ => cases hframe

-- A switch enters the coroutine that the run loop has picked.
theorem switched {m machine : Machine} {action : Runtime.Action} {serial : Nat} {how : Resumed}
    (hstep : Machine.Step m ⟨action, .resumed serial how⟩ machine) :
    m.pc = .switch ∧ machine.pc = .coroutine ∧ machine.sched.current = m.sched.current := by
  have hmove := hstep.move
  generalize hev : (⟨action, .resumed serial how⟩ : Runtime.Event) = event at hmove
  cases hmove with
  | resumed hpc hcurrent _ => exact ⟨hpc, rfl, by simp [Machine.enter]⟩
  | clean => cases hev
  | _ => cases hev

-- An operation that is switched back to has been waiting at a suspension.
theorem Linked.awaits {machine : Machine} {action : Runtime.Action} {slot : Slot} {serial : Nat}
    {how : Resumed} (h : s.Linked)
    (hstep : Machine.Step s.machine ⟨action, .resumed serial how⟩ machine)
    (hframe : (s.contexts (some slot)).frame ≠ .idle) :
    ∃ info point direction sock, (s.contexts (some slot)).frame = .on info point ∧
      point.awaits = some direction ∧ s.machine.conts slot = .waiting sock direction.events := by
  obtain ⟨hpc, -, -⟩ := switched hstep
  rcases h.frames (some slot) hframe with hrunning | hsuspended
  · simp [running, hpc] at hrunning
  · obtain ⟨other, info, point, direction, sock, he, hon, hawaits, hconts⟩ := hsuspended
    obtain rfl := Option.some.inj he
    exact ⟨info, point, direction, sock, hon, hawaits, hconts⟩

-- The switch back to a suspended operation is a step of the machine alone, for the others.
theorem Linked.resumed {machine : Machine} {action : Runtime.Action} {slot : Slot}
    {serial number : Nat} {rv : Error} {table : SocketTable} {go : Next} (h : s.Linked)
    (hstep : Machine.Step s.machine ⟨action, .resumed number (.suspendIoReturns rv)⟩ machine)
    (hcurrent : s.machine.sched.current = some slot)
    (hclosing : ∀ info, Next.frame go ≠ .on info .destroyClose) :
    ({ s with machine := machine }.settle (some slot) serial table go).1.Linked := by
  have hmove := hstep.move
  obtain ⟨hswitch, hpc, hnow⟩ := switched hstep
  rw [hcurrent] at hnow
  have hnone : s.running = none := by simp [running, hswitch]
  have hkept : Machine.Step s.machine ⟨action, .resumed number (.suspendIoReturns rv)⟩
      ({ s with machine := machine }.settle (some slot) serial table go).1.machine := by
    simpa using hstep
  refine ⟨by simpa using hmove.invariant h.machine, ?_, ?_⟩
  · intro other hframe
    by_cases he : other = some slot
    · subst he
      refine .inl ?_
      rw [settle_running]
      simp [running, hpc, hnow]
    · rw [settle_contexts_of_ne he] at hframe
      rcases h.frames other hframe with hother | hsuspended
      · rw [hnone] at hother
        cases hother
      · have hcontexts := @settle_contexts_of_ne { s with machine := machine } (some slot) serial
          table go other he
        rcases hsuspended.keep h.machine hkept hcontexts with hkeep | ⟨back, _, _, rfl, _, hback⟩
        · exact .inr hkeep
        · exact absurd (congrArg some (Option.some.inj (hback.symm.trans hcurrent))) he
  · intro other info hframe
    by_cases he : other = some slot
    · subst he
      rw [settle_frame_self] at hframe
      exact absurd hframe (hclosing info)
    · rw [settle_contexts_of_ne he] at hframe
      have hother := h.running_of_closing hframe
      rw [hnone] at hother
      cases hother

theorem Linked.suspend {machine : Machine} {info : InfoIdx} {point : Point}
    {direction : Direction} {fd : Int32} {nanosec now sp : UInt64} {output : Runtime.Output}
    (h : s.Linked) (hrunning : s.running = some ctx)
    (hframe : (s.contexts ctx).frame = .on info point) (hawaits : point.awaits = some direction)
    (hstep : Machine.Step s.machine ⟨.suspendIo direction fd nanosec now sp, output⟩ machine) :
    { s with machine := machine }.Linked := by
  have hmove := hstep.move
  refine ⟨hmove.invariant h.machine, ?_, h.closing⟩
  generalize hev : (⟨.suspendIo direction fd nanosec now sp, output⟩ : Runtime.Event) = event
    at hmove
  cases hmove with
  | @suspended _ _ _ _ _ slot coro hpc hcurrent _ _ =>
      simp only [Runtime.Event.mk.injEq, Runtime.Action.suspendIo.injEq] at hev
      obtain ⟨⟨rfl, rfl, rfl, rfl, rfl⟩, rfl⟩ := hev
      have hself : ctx = some slot := by simpa [running, hpc, hcurrent] using hrunning.symm
      intro other hother
      by_cases he : other = some slot
      · subst he hself
        exact .inr ⟨slot, info, point, direction, fd, rfl, hframe, hawaits,
          by simp [Machine.leave]⟩
      · rcases h.frames other hother with hnow | hsuspended
        · rw [hrunning, hself] at hnow
          exact absurd (Option.some.inj hnow).symm he
        · have hs := @Suspended.keep _ { s with machine := _ } _ _ hsuspended h.machine hstep rfl
          rcases hs with hkeep | ⟨_, _, _, _, hout, _⟩
          · exact .inr hkeep
          · cases hout
  | clean => cases hev
  | _ => cases hev

theorem Move.linked (hm : Move s event next) (h : s.Linked) : next.Linked := by
  cases hm with
  | runtime hidle hstep hback =>
      refine ⟨hstep.move.invariant h.machine, ?_, h.closing⟩
      intro ctx hframe
      rcases h.frames ctx hframe with hrunning | hsuspended
      · exact absurd (hidle ctx hrunning) hframe
      · have hs := @Suspended.keep _ { s with machine := _ } _ _ hsuspended h.machine hstep rfl
        rcases hs with hkeep | ⟨slot, serial, rv, rfl, rfl, hcurrent⟩
        · exact .inr hkeep
        · have hframe : (s.contexts (some slot)).frame ≠ .idle := hframe
          simp [switchBack, hcurrent, hframe] at hback
  | resumed hstep hcurrent hframe hresume =>
      exact h.resumed hstep hcurrent (turn_closing (Frame.resume_turn hframe hresume))
  | started hrunning hframe hstart =>
      exact h.settle hrunning fun info => started_closing (Operation.start_started hstart) info
  | replied hrunning hrequest hkernel hresume =>
      have hidle := Frame.ne_idle_of_request hrequest
      refine h.settle hrunning fun info hclosing => ?_
      exact absurd hclosing (turn_closing (Frame.resume_turn hidle hresume) info)
  | suspended hrunning hrequest hstep =>
      obtain ⟨info, point, hframe, hawaits, -, -⟩ := Frame.suspend_request hrequest
      exact h.suspend hrunning hframe hawaits hstep

theorem Reachable.linked (h : Reachable s) : s.Linked := by
  refine Transition.Reachable.invariant_from ?_ ?_ h
  · exact initial_linked
  · exact fun _ _ _ ih hs => hs.move.linked ih

end System

end Minimk.Socket
