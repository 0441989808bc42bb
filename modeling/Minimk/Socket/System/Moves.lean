import Minimk.Socket.System
import Minimk.Runtime.Lifecycle.Theorems

namespace Minimk.Socket

open Abort Minimk.Runtime

namespace System

-- Everything a step can do, with the guards it has passed.
inductive Move (s : System) : Event → System → Prop
  | runtime {action : Runtime.Action} {output : Runtime.Output} {machine : Machine}
      (hidle : ∀ ctx, s.running = some ctx → (s.contexts ctx).frame = .idle)
      (hstep : Machine.Step s.machine ⟨action, output⟩ machine)
      (hback : s.switchBack output = none) :
      Move s ⟨.runtime action, ⟨none, none, some output⟩⟩ { s with machine := machine }
  | resumed {action : Runtime.Action} {slot : Slot} {serial : Nat} {rv : Error}
      {machine : Machine} {table : SocketTable} {next : Next}
      (hstep : Machine.Step s.machine ⟨action, .resumed serial (.suspendIoReturns rv)⟩ machine)
      (hcurrent : s.machine.sched.current = some slot)
      (hframe : (s.contexts (some slot)).frame ≠ .idle)
      (hresume : (s.contexts (some slot)).frame.resume s.table ⟨rv, -1, 0, .success⟩ =
        .ok (table, next)) :
      Move s ⟨.runtime action, ⟨none,
          ({ s with machine := machine }.settle (some slot) (s.contexts (some slot)).serial
            table next).2, some (.resumed serial (.suspendIoReturns rv))⟩⟩
        ({ s with machine := machine }.settle (some slot) (s.contexts (some slot)).serial
          table next).1
  | started {ctx : Option Slot} {operation : Operation} {table : SocketTable} {next : Next}
      (hrunning : s.running = some ctx) (hframe : (s.contexts ctx).frame = .idle)
      (hstart : operation.start s.table = .ok (table, next)) :
      Move s ⟨.start operation, ⟨none, (s.settle ctx (s.serialOf next) table next).2, none⟩⟩
        (s.settle ctx (s.serialOf next) table next).1
  | replied {ctx : Option Slot} {reply : Reply} {request : Request} {files : Finset Int32}
      {table : SocketTable} {next : Next} (hrunning : s.running = some ctx)
      (hrequest : (s.contexts ctx).frame.request s.table = some request)
      (hkernel : kernel s.files reply request = some files)
      (hresume : (s.contexts ctx).frame.resume s.table reply = .ok (table, next)) :
      Move s ⟨.reply reply, ⟨some request,
          ({ s with files := files }.settle ctx (s.contexts ctx).serial table next).2, none⟩⟩
        ({ s with files := files }.settle ctx (s.contexts ctx).serial table next).1
  | suspended {ctx : Option Slot} {now sp nanosec : UInt64} {direction : Direction} {fd : Int32}
      {output : Runtime.Output} {machine : Machine} (hrunning : s.running = some ctx)
      (hrequest : (s.contexts ctx).frame.request s.table =
        some (.suspend direction fd nanosec))
      (hstep : Machine.Step s.machine ⟨.suspendIo direction fd nanosec now sp, output⟩ machine) :
      Move s ⟨.suspend now sp, ⟨some (.suspend direction fd nanosec), none, some output⟩⟩
        { s with machine := machine }

variable {s next : System} {output : Output}

theorem switchBack_eq_some {result : Runtime.Output} {slot : Slot} {rv : Error}
    (h : s.switchBack result = some (slot, rv)) :
    ∃ serial, result = .resumed serial (.suspendIoReturns rv) ∧
      s.machine.sched.current = some slot ∧ (s.contexts (some slot)).frame ≠ .idle := by
  unfold switchBack at h
  split at h
  · rename_i serial rv' slot' hcurrent
    split_ifs at h with hidle
    obtain ⟨rfl, rfl⟩ : slot' = slot ∧ rv' = rv := by simpa using h
    exact ⟨serial, rfl, hcurrent, hidle⟩
  · cases h

theorem runtime_move {action : Runtime.Action}
    (hidle : ∀ ctx, s.running = some ctx → (s.contexts ctx).frame = .idle)
    (h : s.runtime action = some (.ok (next, output))) : Move s ⟨.runtime action, output⟩ next := by
  obtain ⟨result, hexec, h⟩ := Option.bind_eq_some_iff.mp h
  simp only [Option.pure_def, Option.some.injEq] at h
  obtain ⟨⟨machine, raw⟩, rfl, hrest⟩ := (bind_eq_ok_iff _ _ _).mp h
  dsimp only at hrest
  cases hback : s.switchBack raw with
  | none =>
      simp only [hback, pure_eq_ok, Except.ok.injEq, Prod.mk.injEq] at hrest
      obtain ⟨rfl, rfl⟩ := hrest
      exact .runtime hidle hexec hback
  | some back =>
      obtain ⟨slot, rv⟩ := back
      obtain ⟨serial, rfl, hcurrent, hframe⟩ := switchBack_eq_some hback
      simp only [hback] at hrest
      obtain ⟨⟨after, result⟩, hresume, hout⟩ := (bind_eq_ok_iff _ _ _).mp hrest
      obtain ⟨⟨table, go⟩, hresume, hsettle⟩ := (bind_eq_ok_iff _ _ _).mp hresume
      simp only [pure_eq_ok, Except.ok.injEq, Prod.mk.injEq] at hout hsettle
      obtain ⟨rfl, rfl⟩ := hout
      have hmove := Move.resumed hexec hcurrent hframe hresume
      simpa only [hsettle] using hmove

theorem start_move {ctx : Option Slot} {operation : Operation} (hrunning : s.running = some ctx)
    (hframe : (s.contexts ctx).frame = .idle)
    (h : s.start ctx operation = .ok (next, output)) : Move s ⟨.start operation, output⟩ next := by
  obtain ⟨⟨table, go⟩, hstart, h⟩ := (bind_eq_ok_iff _ _ _).mp h
  simp only [pure_eq_ok, Except.ok.injEq, Prod.mk.injEq] at h
  obtain ⟨rfl, rfl⟩ := h
  exact .started hrunning hframe hstart

theorem reply_move {ctx : Option Slot} {reply : Reply} (hrunning : s.running = some ctx)
    (h : s.reply ctx reply = some (.ok (next, output))) : Move s ⟨.reply reply, output⟩ next := by
  obtain ⟨request, hrequest, h⟩ := Option.bind_eq_some_iff.mp h
  obtain ⟨files, hkernel, h⟩ := Option.bind_eq_some_iff.mp h
  simp only [Option.pure_def, Option.some.injEq] at h
  obtain ⟨⟨after, result⟩, hresume, h⟩ := (bind_eq_ok_iff _ _ _).mp h
  obtain ⟨⟨table, go⟩, hresume, hsettle⟩ := (bind_eq_ok_iff _ _ _).mp hresume
  simp only [pure_eq_ok, Except.ok.injEq, Prod.mk.injEq] at h hsettle
  obtain ⟨rfl, rfl⟩ := h
  have hmove := Move.replied hrunning hrequest hkernel hresume
  simpa only [hsettle] using hmove

theorem suspend_move {ctx : Option Slot} {now sp : UInt64} (hrunning : s.running = some ctx)
    (h : s.suspend ctx now sp = some (.ok (next, output))) :
    Move s ⟨.suspend now sp, output⟩ next := by
  obtain ⟨request, hrequest, h⟩ := Option.bind_eq_some_iff.mp h
  cases request with
  | suspend direction fd nanosec =>
      cases ctx with
      | none => cases h
      | some slot =>
          obtain ⟨result, hexec, h⟩ := Option.bind_eq_some_iff.mp h
          simp only [Option.pure_def, Option.some.injEq] at h
          obtain ⟨⟨machine, raw⟩, rfl, h⟩ := (bind_eq_ok_iff _ _ _).mp h
          obtain ⟨rfl, rfl⟩ : _ ∧ _ := by simpa using h
          exact .suspended hrunning hrequest hexec
  | _ => cases h

theorem Step.move {event : Event} (h : Step s event next) : Move s event next := by
  obtain ⟨action, output⟩ := event
  simp only [Step, exec] at h
  cases hrunning : s.running with
  | none =>
      rw [hrunning] at h
      cases action with
      | runtime action =>
          refine runtime_move (fun ctx hctx => ?_) h
          simp [hrunning] at hctx
      | _ => cases h
  | some ctx =>
      rw [hrunning] at h
      cases action with
      | runtime action =>
          simp only [Option.ite_none_right_eq_some] at h
          obtain ⟨⟨-, hidle⟩, h⟩ := h
          refine runtime_move (fun other hother => ?_) h
          obtain rfl : ctx = other := by simpa [hrunning] using hother
          exact hidle
      | start operation =>
          simp only [Option.ite_none_right_eq_some, Option.some.injEq] at h
          exact start_move hrunning h.1 h.2
      | reply reply => exact reply_move hrunning h
      | suspend now sp => exact suspend_move hrunning h

end System

end Minimk.Socket
