import Minimk.Socket.System.Invariant

namespace Minimk.Socket

open Abort Minimk.Runtime SocketTable Transition

-- What an operation finds when one of its calls returns: the reply, and the table as the other
-- coroutines have left it.
structure CallReturn where
  table : SocketTable
  reply : Reply

-- One operation by itself, from the return of a call up to the next or to its own return.
def Next.Step (next : Next) (returned : CallReturn) (after : Next) : Prop :=
  ∃ frame table, next = .call frame ∧ frame ≠ .idle ∧
    frame.resume returned.table returned.reply = .ok (table, after)

def Operation.Begins (operation : Operation) (table : SocketTable) (next : Next) : Prop :=
  ∃ after, operation.start table = .ok (after, next)

-- The turns of an operation with the calls that they answer, latest first.
abbrev CallTurn := Transition.Turn Next CallReturn

abbrev Next.Path := Transition.Path (Recorded Next.Step)

variable {table : SocketTable} {sock : UInt64} {info : InfoIdx} {point : Point} {next go : Next}
  {returned : CallReturn}

theorem Next.Step.on (h : Next.Step (.call (.on info point)) returned go) :
    go = (point.resume returned.table info returned.reply).2 := by
  obtain ⟨frame, after, hcall, -, hresume⟩ := h
  obtain rfl : Frame.on info point = frame := by simpa using hcall
  simp only [Frame.resume, Except.ok.injEq] at hresume
  rw [hresume]

theorem Next.step_on (table : SocketTable) (info : InfoIdx) (point : Point) (reply : Reply) :
    Next.Step (.call (.on info point)) ⟨table, reply⟩ (point.resume table info reply).2 :=
  ⟨.on info point, (point.resume table info reply).1, rfl, by simp, rfl⟩

theorem Next.not_step_done {rv : Error} {amount : Option UInt64} :
    ¬Next.Step (.done rv amount) returned go := by
  rintro ⟨_, _, hcall, -⟩
  cases hcall

theorem Next.Path.of_done {rv : Error} {amount : Option UInt64} {turns : List CallTurn}
    (h : Next.Path (.done rv amount) turns next) : next = .done rv amount := by
  induction h with
  | nil => rfl
  | snoc _ hs ih =>
      obtain ⟨-, -, hs⟩ := hs
      rw [ih] at hs
      exact absurd hs Next.not_step_done

-- One more call of an operation on an entry returns.
theorem Next.Path.turn {turns : List CallTurn} (table : SocketTable) (reply : Reply)
    (h : Next.Path next turns (.call (.on info point))) :
    Next.Path next (⟨.call (.on info point), ⟨table, reply⟩, (point.resume table info reply).2⟩ ::
      turns) (point.resume table info reply).2 :=
  h.snoc ⟨rfl, rfl, Next.step_on table info point reply⟩

theorem onFound_begins : (∃ after, onFound table sock point = .ok (after, next)) ↔
    next = if table.Finds sock then .call (.on (indexOf sock) point) else .done .ebadf none := by
  rw [onFound_eq]
  by_cases hfinds : table.Finds sock
  · simp [hfinds, eq_comm]
  · simp [hfinds, eq_comm]

-- The table of a program with one socket, on descriptor 3.
def firstSocket : SocketTable :=
  SocketTable.zero.set 0 ⟨0x100000000000000, Integer.UINT64_MAX, Integer.UINT64_MAX, 3⟩

theorem firstSocket_finds : firstSocket.Finds 0x100000000000000 := by decide

namespace System

variable {s last : System} {event : Event} {ctx : Option Slot}
  {turns : List (Transition.Turn System Event)}

-- To the context of an operation the steps of the system are turns of the operation.
theorem Step.call (h : Step s event last) (hbusy : (s.contexts ctx).frame ≠ .idle) :
    last.contexts ctx = s.contexts ctx ∨ ∃ reply go,
      Next.Step (.call (s.contexts ctx).frame) ⟨s.table, reply⟩ go ∧
        (last.contexts ctx).frame = Next.frame go := by
  have hmove := h.move
  cases hmove with
  | runtime | suspended => exact .inl rfl
  | @resumed action slot serial rv machine table go hstep hcurrent hframe hresume =>
      by_cases hctx : ctx = some slot
      · rw [hctx] at hbusy ⊢
        exact .inr ⟨_, go, ⟨_, table, rfl, hbusy, hresume⟩, settle_frame_self⟩
      · exact .inl (settle_contexts_of_ne hctx)
  | @started other operation table go hrunning hframe hstart =>
      have hctx : ctx ≠ other := by
        rintro rfl
        exact hbusy hframe
      exact .inl (settle_contexts_of_ne hctx)
  | @replied other reply request files table go hrunning hrequest hkernel hresume =>
      by_cases hctx : ctx = other
      · rw [hctx] at hbusy ⊢
        exact .inr ⟨reply, go, ⟨_, table, rfl, hbusy, hresume⟩, settle_frame_self⟩
      · exact .inl (settle_contexts_of_ne hctx)

theorem Step.begins {operation : Operation} {output : Output}
    (h : Step s ⟨.start operation, output⟩ last) (hrunning : s.running = some ctx) :
    ∃ go, operation.Begins s.table go ∧ (last.contexts ctx).frame = Next.frame go := by
  have hmove := h.move
  cases hmove with
  | @started other _ table go hother hframe hstart =>
      obtain rfl : ctx = other := Option.some.inj (hrunning.symm.trans hother)
      exact ⟨go, ⟨table, hstart⟩, settle_frame_self⟩

theorem Next.eq_call_of_frame (h : Next.frame go ≠ .idle) : go = .call (Next.frame go) := by
  cases go with
  | call frame => rfl
  | done | issued => exact absurd rfl h

-- A stretch in which an operation does not return is a stretch of the operation.
theorem Path.calls (h : Transition.Path (Recorded Step) s turns last)
    (hbusy : ∀ turn ∈ turns, (turn.before.contexts ctx).frame ≠ .idle)
    (hlast : (last.contexts ctx).frame ≠ .idle) :
    ∃ calls, Next.Path (.call (s.contexts ctx).frame) calls (.call (last.contexts ctx).frame) := by
  induction h with
  | nil => exact ⟨[], .nil⟩
  | @snoc turns middle after turn hp hs ih =>
      obtain ⟨rfl, rfl, hstep⟩ := hs
      have hnow := hbusy turn List.mem_cons_self
      obtain ⟨calls, hcalls⟩ := ih (fun other ho => hbusy other (List.mem_cons_of_mem _ ho)) hnow
      rcases hstep.call hnow with hsame | ⟨reply, go, hgo, hframe⟩
      · rw [hsame]
        exact ⟨calls, hcalls⟩
      · rw [hframe] at hlast ⊢
        rw [← Next.eq_call_of_frame hlast]
        exact ⟨⟨_, _, _⟩ :: calls, hcalls.snoc ⟨rfl, rfl, hgo⟩⟩

end System

end Minimk.Socket
