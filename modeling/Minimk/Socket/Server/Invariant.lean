import Minimk.Runtime.StartOrder
import Minimk.Socket.Server.Code

namespace Minimk.Socket

open Abort Minimk.Runtime SocketTable Transition

namespace Server

variable {entries : Entries} {server next : Server} {event : System.Event} {ctx : Option Slot}
  {slot : Slot} {system : System} {gone : List UInt64}

theorem Step.cases (h : Step entries server event next) :
    ∃ system, System.Step server.system event system ∧
      server.permits entries event.action = true ∧ next = server.advance entries event system := by
  simp only [Step, exec, Option.ite_none_right_eq_some] at h
  obtain ⟨hpermits, h⟩ := h
  obtain ⟨result, hexec, h⟩ := Option.bind_eq_some_iff.mp h
  simp only [Option.pure_def, Option.some.injEq] at h
  obtain ⟨⟨system, output⟩, rfl, h⟩ := (bind_eq_ok_iff _ _ _).mp h
  simp only [pure_eq_ok] at h
  obtain ⟨rfl, rfl⟩ := h
  exact ⟨system, hexec, hpermits, rfl⟩

-- No code runs in a slot that is free, whose coroutine has not started or has returned.
def Vacant (server : Server) (slot : Slot) : Prop :=
  server.system.machine.conts slot = .idle ∨ server.system.machine.conts slot = .fresh ∨
    server.system.machine.conts slot = .returned

theorem owned_slot (hvacant : ¬server.Vacant slot) :
    server.owned entries (some slot) = (server.routines slot).sock := by
  have hfresh : server.system.machine.conts slot ≠ .fresh := fun hc => hvacant (.inr (.inl hc))
  simp only [owned, if_neg hfresh]

theorem borrows_slot (hvacant : ¬server.Vacant slot) :
    server.borrows entries slot = (server.routines slot).borrowed := by
  have hfresh : server.system.machine.conts slot ≠ .fresh := fun hc => hvacant (.inr (.inl hc))
  simp only [borrows, if_neg hfresh]

-- What holds between the steps of the server; `gone` lists the handles that are lost.
structure Invariant (entries : Entries) (gone : List UInt64) (server : Server) : Prop where
  reachable : System.Reachable server.system
  sound : (server.custody entries gone).Sound
  at_call : ∀ ctx, (server.system.contexts ctx).frame ≠ .idle →
    ∃ operation, server.call entries ctx = some (.operation operation) ∧
      operation.At (server.system.contexts ctx).frame
  live : ∀ ctx info point, (server.system.contexts ctx).frame = .on info point →
    server.system.Live info (server.system.contexts ctx).serial
  absent : ∀ slot, server.Vacant slot → server.routines slot = .absent
  -- While there are coroutines, main has the run of the loop before it or is in it.
  looping : ∀ slot, server.system.machine.conts slot ≠ .idle → ∃ sock, server.main = .run sock ∨
    server.main = .destroy sock ∧ server.system.machine.pc ≠ .main
  borrowed : ∀ slot sock, server.borrows entries slot = some sock → server.main.sock = some sock

namespace Invariant

variable (h : server.Invariant entries gone)

include h

theorem linked : server.system.Linked := System.Reachable.linked h.reachable

theorem named : System.Named server.system.table := System.Reachable.named h.reachable

theorem machine : server.system.machine.Invariant := h.linked.machine

theorem not_vacant {call : ProgramCall} (hcall : server.call entries (some slot) = some call) :
    ¬server.Vacant slot := by
  intro hvacant
  simp only [Server.call, h.absent slot hvacant] at hcall
  cases hcall

-- While main is in an operation there are no coroutines.
theorem idle_of_main {operation : Operation}
    (hcall : server.call entries none = some (.operation operation))
    (hpc : server.system.machine.pc = .main) (slot : Slot) :
    server.system.machine.conts slot = .idle := by
  by_contra hidle
  obtain ⟨sock, hmain | ⟨-, hne⟩⟩ := h.looping slot hidle
  · simp only [Server.call, hmain] at hcall
    cases hcall
  · exact hne hpc

-- Code calls operations on its own handle, and accept on that of main.
theorem handle_owner {operation : Operation} {sock : UInt64}
    (hcall : server.call entries ctx = some (.operation operation))
    (hhandle : operation.handle = some sock) :
    ∃ owner, server.owned entries owner = some sock ∧
      (owner = ctx ∨ owner = none ∧ ∃ slot, ctx = some slot ∧
        server.borrows entries slot = some sock) := by
  cases ctx with
  | none => exact ⟨none, MainPoint.call_handle hcall hhandle, .inl rfl⟩
  | some slot =>
      have hvacant := h.not_vacant hcall
      rcases RoutinePoint.call_handle hcall hhandle with hsock | hborrowed
      · exact ⟨some slot, (owned_slot hvacant).trans hsock, .inl rfl⟩
      · have hborrows : server.borrows entries slot = some sock :=
          (borrows_slot hvacant).trans hborrowed
        exact ⟨none, h.borrowed slot sock hborrows, .inr ⟨rfl, slot, rfl, hborrows⟩⟩

theorem owned_finds {sock : UInt64} (howned : server.owned entries ctx = some sock) :
    server.system.table.Finds sock :=
  h.named.finds (h.sound.held (.context ctx) sock howned)

theorem finds {operation : Operation} {sock : UInt64}
    (hcall : server.call entries ctx = some (.operation operation))
    (hhandle : operation.handle = some sock) : server.system.table.Finds sock := by
  obtain ⟨owner, howned, -⟩ := h.handle_owner hcall hhandle
  exact h.owned_finds howned

end Invariant

-- The code stays where it is in a step that is none of its own.
theorem advance_quiet (hmain : ∀ point, mainAfter point event = point)
    (hroutine : ∀ point, routineAfter entries point event = point) :
    server.advance entries event system = { server with system := system } := by
  unfold advance
  cases server.acting system with
  | none => rfl
  | some ctx => cases ctx <;> simp [proceed, hmain, hroutine]

section Machine

variable {m machine : Machine} {step : Runtime.Event}

-- A coroutine that has not started keeps its entry and its argument until it does.
theorem fresh_kept (h : m.Invariant) (hs : Machine.Step m step machine)
    (hfresh : m.conts slot = .fresh) (hstarts : step.starts (m.serials slot) = false) :
    machine.conts slot = .fresh ∧
      (machine.sched.coroutines slot).entry = (m.sched.coroutines slot).entry ∧
      (machine.sched.coroutines slot).argument = (m.sched.coroutines slot).argument := by
  have hidle : m.conts slot ≠ .idle := by simp [hfresh]
  have hresumes : step.resumes (m.serials slot) = false := by
    cases hs.move.frames h with
    | quiet _ _ _ _ _ hresumed | created _ _ _ _ _ _ _ hresumed | cleaned _ _ _ _ _ hresumed
    | left _ _ _ _ _ _ _ _ _ _ hresumed => exact hresumed _
    | resumed idx hother _ _ _ _ _ hstarted hresumed =>
        rw [hresumed, decide_eq_false_iff_not]
        intro hserial
        obtain rfl := h.serial_inj idx slot hother hidle hserial
        simp [hstarted, hfresh] at hstarts
  have hstate : (m.sched.coroutines slot).state = .runnable := by
    have hslot := h.slots slot
    rw [hfresh] at hslot
    exact hslot
  have hstays := hs.move.stays h (hfresh ▸ Machine.fresh_parked) hresumes
  rw [hstays.coroutine, scanned_of_not_blocked (by simp [hstate]) (by simp [hstate])]
  exact ⟨hstays.conts.trans hfresh, rfl, rfl⟩

-- A slot is filled by a creation only.
theorem fresh_before (h : m.Invariant) (hs : Machine.Step m step machine)
    (hcreates : ∀ serial, step.creates serial = false) (hfresh : machine.conts slot = .fresh) :
    m.conts slot = .fresh := by
  cases hs.move.frames h with
  | quiet hconts => rwa [hconts] at hfresh
  | created idx _ _ _ _ hcreated =>
      have hno := hcreates m.spawned
      simp [hcreated] at hno
  | cleaned hconts =>
      rw [hconts] at hfresh
      split_ifs at hfresh
      exact hfresh
  | resumed idx _ _ hconts =>
      by_cases he : slot = idx
      · subst he
        simp [hconts] at hfresh
      · rwa [hconts, Function.update_of_ne he] at hfresh
  | left idx cont _ _ hcont hconts =>
      by_cases he : slot = idx
      · subst he
        simp [hconts, hcont] at hfresh
      · rwa [hconts, Function.update_of_ne he] at hfresh

-- A slot is given up by a return only.
theorem idle_iff (h : m.Invariant) (hs : Machine.Step m step machine)
    (hfilled : machine.conts slot = .fresh → m.conts slot = .fresh)
    (hreturns : m.conts slot ≠ .idle → step.returns (m.serials slot) = false) :
    (machine.conts slot = .returned → m.conts slot = .returned) ∧
      (machine.conts slot = .idle → m.conts slot = .idle ∨ m.conts slot = .returned) ∧
      (m.conts slot = .idle → machine.conts slot = .idle) := by
  cases hs.move.frames h with
  | quiet hconts =>
      rw [hconts]
      exact ⟨id, .inl, id⟩
  | created idx hidle hconts =>
      by_cases he : slot = idx
      · subst he
        have hfresh := hfilled (by simp [hconts])
        simp [hfresh] at hidle
      · simp only [hconts, Function.update_of_ne he]
        exact ⟨id, .inl, id⟩
  | cleaned hconts =>
      rw [hconts]
      by_cases hreturned : m.conts slot = .returned
      · simp [hreturned]
      · rw [if_neg hreturned]
        exact ⟨id, .inl, id⟩
  | resumed idx hidle _ hconts =>
      by_cases he : slot = idx
      · subst he
        simp [hconts, hidle]
      · simp only [hconts, Function.update_of_ne he]
        exact ⟨id, .inl, id⟩
  | left idx cont hrunning hidle _ hconts _ _ _ _ _ hreturned =>
      by_cases he : slot = idx
      · subst he
        have hno := hreturns (by simp [hrunning])
        simp only [hreturned, decide_true, Bool.and_true, decide_eq_false_iff_not] at hno
        simp [hconts, hrunning, hidle, hno]
      · simp only [hconts, Function.update_of_ne he]
        exact ⟨id, .inl, id⟩

end Machine

-- A slot that a step of the machine neither fills, nor starts, nor empties.
structure Untouched (entries : Entries) (server next : Server) (slot : Slot) : Prop where
  routine : next.routines slot = server.routines slot
  vacant : next.Vacant slot → server.Vacant slot
  idle : server.system.machine.conts slot = .idle → next.system.machine.conts slot = .idle
  owned : next.owned entries (some slot) = server.owned entries (some slot)
  borrows : next.borrows entries slot = server.borrows entries slot

theorem Untouched.of_step {step : Runtime.Event} (h : server.system.machine.Invariant)
    (hs : Machine.Step server.system.machine step next.system.machine)
    (hroutine : next.routines slot = server.routines slot)
    (hfilled : next.system.machine.conts slot = .fresh →
      server.system.machine.conts slot = .fresh)
    (hstarts : server.system.machine.conts slot = .fresh →
      step.starts (server.system.machine.serials slot) = false)
    (hreturns : server.system.machine.conts slot ≠ .idle →
      step.returns (server.system.machine.serials slot) = false) :
    Untouched entries server next slot := by
  obtain ⟨hreturned, hidle, hkept⟩ := idle_iff h hs hfilled hreturns
  have howned : next.owned entries (some slot) = server.owned entries (some slot) ∧
      next.borrows entries slot = server.borrows entries slot := by
    simp only [Server.owned, Server.borrows]
    by_cases hc : server.system.machine.conts slot = .fresh
    · obtain ⟨hfresh, hentry, hargument⟩ := fresh_kept h hs hc (hstarts hc)
      rw [if_pos hc, if_pos hc, if_pos hfresh, if_pos hfresh, hentry, hargument]
      exact ⟨rfl, rfl⟩
    · have hfresh : next.system.machine.conts slot ≠ .fresh := fun hf => hc (hfilled hf)
      rw [if_neg hc, if_neg hc, if_neg hfresh, if_neg hfresh, hroutine]
      exact ⟨rfl, rfl⟩
  refine ⟨hroutine, ?_, hkept, howned.1, howned.2⟩
  rintro (hvacant | hvacant | hvacant)
  · rcases hidle hvacant with hbefore | hbefore
    · exact .inl hbefore
    · exact .inr (.inr hbefore)
  · exact .inr (.inl (hfilled hvacant))
  · exact .inr (.inr (hreturned hvacant))

-- What the steps of the runtime have in common: the slots that they touch are in order.
theorem Invariant.of_runtime (h : server.Invariant entries gone) {machine : Machine}
    {lost : List UInt64} (hsystem : next.system = { server.system with machine := machine })
    (hreachable : System.Reachable next.system) (hsound : (next.custody entries lost).Sound)
    (hmain : next.main.sock = server.main.sock)
    (hcall : ∀ ctx, (server.system.contexts ctx).frame ≠ .idle →
      next.call entries ctx = server.call entries ctx)
    (hlooping : ∀ slot, machine.conts slot ≠ .idle → ∃ sock, next.main = .run sock ∨
      next.main = .destroy sock ∧ machine.pc ≠ .main)
    (hslots : ∀ slot, Untouched entries server next slot ∨
      (next.Vacant slot → next.routines slot = .absent) ∧
        ∀ sock, next.borrows entries slot = some sock → server.main.sock = some sock) :
    next.Invariant entries lost where
  reachable := hreachable
  sound := hsound
  at_call := by
    intro ctx hframe
    rw [hsystem] at hframe ⊢
    obtain ⟨operation, hbefore, hat⟩ := h.at_call ctx hframe
    exact ⟨operation, (hcall ctx hframe).trans hbefore, hat⟩
  live := by
    intro ctx info point hframe
    rw [hsystem] at hframe ⊢
    exact h.live ctx info point hframe
  absent := by
    intro slot hvacant
    rcases hslots slot with hslot | ⟨hslot, -⟩
    · rw [hslot.routine]
      exact h.absent slot (hslot.vacant hvacant)
    · exact hslot hvacant
  looping := by
    intro slot hidle
    rw [hsystem] at hidle ⊢
    exact hlooping slot hidle
  borrowed := by
    intro slot sock hborrows
    rw [hmain]
    rcases hslots slot with hslot | ⟨-, hslot⟩
    · exact h.borrowed slot sock (hslot.borrows.symm.trans hborrows)
    · exact hslot sock hborrows

theorem custody_congr (htable : next.system.table = server.system.table)
    (howned : ∀ ctx, next.owned entries ctx = server.owned entries ctx) :
    next.custody entries gone = server.custody entries gone := by
  refine Custody.ext (by simp only [custody, htable]) ?_
  funext owner
  cases owner with
  | context ctx => exact howned ctx
  | nobody sock => rfl

-- The run loop, and the switch back to a coroutine that has called into the runtime.
theorem Invariant.quiet (h : server.Invariant entries gone) {machine : Machine}
    {step : Runtime.Event} (hs : Machine.Step server.system.machine step machine)
    (hnext : next = { server with system := { server.system with machine := machine } })
    (hreachable : System.Reachable next.system)
    (hcreates : ∀ serial, step.creates serial = false)
    (hstarts : ∀ serial, step.starts serial = false)
    (hreturns : ∀ serial, step.returns serial = false)
    (hpc : machine.pc = .main → (∀ slot, machine.conts slot = .idle) ∨
      server.system.machine.pc = .main) :
    next.custody entries gone = server.custody entries gone ∧ next.Invariant entries gone := by
  subst hnext
  have huntouched : ∀ slot, Untouched entries server
      { server with system := { server.system with machine := machine } } slot := fun slot =>
    .of_step h.machine hs rfl (fresh_before h.machine hs hcreates) (fun _ => hstarts _)
      fun _ => hreturns _
  have hcustody := @custody_congr entries server
    { server with system := { server.system with machine := machine } } gone rfl fun ctx => by
      cases ctx with
      | none => rfl
      | some slot => exact (huntouched slot).owned
  refine ⟨hcustody, h.of_runtime rfl hreachable (hcustody ▸ h.sound) rfl (fun ctx _ => ?_) ?_
    fun slot => .inl (huntouched slot)⟩
  · cases ctx <;> rfl
  · intro slot hidle
    have hbefore : server.system.machine.conts slot ≠ .idle :=
      fun hc => hidle ((huntouched slot).idle hc)
    obtain ⟨sock, hmain | ⟨hmain, hne⟩⟩ := h.looping slot hbefore
    · exact ⟨sock, .inl hmain⟩
    · refine ⟨sock, .inr ⟨hmain, fun hlater => ?_⟩⟩
      rcases hpc hlater with hall | hsame
      · exact hidle (hall slot)
      · exact hne hsame

theorem permits_call {action : System.Action} {call : ProgramCall}
    (h : server.permits entries action = true) (hrunning : server.system.running = some ctx)
    (hcall : action.call = some call) : server.call entries ctx = some call := by
  cases action with
  | reply | suspend => cases hcall
  | start | runtime =>
      simp only [permits, hrunning, Bool.and_eq_true, decide_eq_true_eq] at h
      exact h.2.trans hcall

-- The routine that runs is in a slot which is not vacant.
theorem Invariant.running_slot (h : server.Invariant entries gone)
    (hrunning : server.system.running = some (some slot)) :
    server.system.machine.conts slot = .running ∧ ¬server.Vacant slot := by
  rcases System.running_eq_some hrunning with ⟨-, hnone⟩ | ⟨other, hpc, hcurrent, hother⟩
  · cases hnone
  · obtain rfl := Option.some.inj hother
    have hconts := (h.machine.running slot).mpr ⟨hpc, hcurrent⟩
    exact ⟨hconts, by simp [Vacant, hconts]⟩

section Go

variable {machine : Machine} {entry argument sock clientSock ssock : UInt64} {reply : StackReply}
  {serial : Nat} {rv : Error} {calls : List MemCall}

-- Main goes on with the loop whether or not it has a coroutine to run there.
theorem Invariant.main_refused (h : server.Invariant entries gone)
    (hs : Machine.Step server.system.machine ⟨.go entry argument reply, .refused rv calls⟩ machine)
    (hmain : server.main = .go sock) (hframe : (server.system.contexts none).frame = .idle)
    (hnext : next = { server with
      system := { server.system with machine := machine }, main := .run sock })
    (hreachable : System.Reachable next.system) :
    next.custody entries gone = server.custody entries gone ∧ next.Invariant entries gone := by
  subst hnext
  have huntouched : ∀ slot, Untouched entries server { server with
      system := { server.system with machine := machine }, main := .run sock } slot := fun slot =>
    .of_step h.machine hs rfl (fresh_before h.machine hs fun _ => rfl) (fun _ => rfl) fun _ => rfl
  have hcustody := @custody_congr entries server { server with
    system := { server.system with machine := machine }, main := .run sock } gone rfl fun ctx => by
      cases ctx with
      | none => simp [owned, hmain, MainPoint.sock]
      | some slot => exact (huntouched slot).owned
  refine ⟨hcustody, h.of_runtime rfl hreachable (hcustody ▸ h.sound) (by rw [hmain]; rfl)
    (fun ctx hbusy => ?_) (fun _ _ => ⟨sock, .inl rfl⟩) fun slot => .inl (huntouched slot)⟩
  cases ctx with
  | none => exact absurd hframe hbusy
  | some slot => rfl

theorem Invariant.main_created (h : server.Invariant entries gone)
    (hs : Machine.Step server.system.machine
      ⟨.go entries.acceptLoop sock reply, .created serial calls⟩ machine)
    (hmain : server.main = .go sock) (hframe : (server.system.contexts none).frame = .idle)
    (hnext : next = { server with
      system := { server.system with machine := machine }, main := .run sock })
    (hreachable : System.Reachable next.system) :
    next.custody entries gone = server.custody entries gone ∧ next.Invariant entries gone := by
  have hm := hs.move
  cases hm with
  | @goCreated _ _ _ idx coro hpc hnull hcoro hentry hargument hfresh =>
      have hidle : server.system.machine.conts idx = .idle :=
        (h.machine.slots idx).null_iff.mp hnull
      have habsent := h.absent idx (.inl hidle)
      have huntouched : ∀ slot ≠ idx, Untouched entries server next slot := by
        intro slot hne
        subst hnext
        refine .of_step h.machine hs rfl ?_ (fun _ => rfl) fun _ => rfl
        simp [Machine.spawn, hne]
      have hstarts : RoutinePoint.start entries (coro.entry) coro.argument = .accept sock := by
        rw [hentry, hargument, RoutinePoint.start_acceptLoop]
      have howned : next.owned entries (some idx) = none ∧
          next.borrows entries idx = some sock := by
        simp [owned, borrows, hnext, Machine.spawn, hstarts, RoutinePoint.sock,
          RoutinePoint.borrowed]
      have hbefore : server.owned entries (some idx) = none := by
        simp [owned, hidle, habsent, RoutinePoint.sock]
      have hcustody : next.custody entries gone = server.custody entries gone := by
        refine custody_congr (by rw [hnext]) fun ctx => ?_
        cases ctx with
        | none => simp [owned, hnext, hmain, MainPoint.sock]
        | some slot =>
            by_cases he : slot = idx
            · rw [he, howned.1, hbefore]
            · exact (huntouched slot he).owned
      have hsound : (next.custody entries gone).Sound := by
        rw [hcustody]
        exact h.sound
      refine ⟨hcustody, h.of_runtime (by rw [hnext]) hreachable hsound (by rw [hnext, hmain]; rfl)
        (fun ctx hbusy => ?_) (fun _ _ => ⟨sock, .inl (by rw [hnext])⟩) fun slot => ?_⟩
      · cases ctx with
        | none => exact absurd hframe hbusy
        | some slot => simp only [Server.call, hnext]
      · by_cases he : slot = idx
        · subst he
          refine .inr ⟨fun _ => by rw [hnext]; exact habsent, fun other hother => ?_⟩
          rw [howned.2] at hother
          rw [hmain]
          exact hother
        · exact .inl (huntouched slot he)

-- What accept_loop passes on is lost when the coroutine for it is not there.
theorem Invariant.slot_refused (h : server.Invariant entries gone)
    (hs : Machine.Step server.system.machine ⟨.go entry argument reply, .refused rv calls⟩ machine)
    (hrunning : server.system.running = some (some slot))
    (hroutine : server.routines slot = .go ssock clientSock)
    (hframe : (server.system.contexts (some slot)).frame = .idle)
    (hnext : next = { server with
      system := { server.system with machine := machine }
      routines := Function.update server.routines slot (.accept ssock) })
    (hreachable : System.Reachable next.system) :
    Custody.Step (server.custody entries gone) .keep (next.custody entries (clientSock :: gone)) ∧
      next.Invariant entries (clientSock :: gone) := by
  obtain ⟨hconts, hvacant⟩ := h.running_slot hrunning
  have hsame : machine.conts = server.system.machine.conts ∧
      machine.pc = server.system.machine.pc := by
    have hm := hs.move
    cases hm with
    | goFull | goFailed => exact ⟨rfl, rfl⟩
  have huntouched : ∀ other ≠ slot, Untouched entries server next other := by
    intro other hne
    subst hnext
    exact .of_step h.machine hs (Function.update_of_ne hne _ _)
      (fresh_before h.machine hs fun _ => rfl) (fun _ => rfl) fun _ => rfl
  have hbefore : server.owned entries (some slot) = some clientSock ∧
      server.borrows entries slot = some ssock := by
    rw [owned_slot hvacant, borrows_slot hvacant, hroutine]
    exact ⟨rfl, rfl⟩
  have hafter : next.owned entries (some slot) = none ∧ next.borrows entries slot = some ssock := by
    simp [owned, borrows, hnext, hsame.1, hconts, RoutinePoint.sock, RoutinePoint.borrowed]
  have hfree : (server.custody entries gone).held (.nobody clientSock) = none := by
    by_contra hheld
    have hmem : clientSock ∈ gone := by
      by_contra hno
      exact hheld (by simp [custody, held, hno])
    have hne := h.sound.unique (.nobody clientSock) (.context (some slot)) clientSock
      (by simp [custody, held, hmem]) hbefore.1
    cases hne
  have hcustody : next.custody entries (clientSock :: gone) =
      ((server.custody entries gone).put (.context (some slot)) none).put (.nobody clientSock)
        (some clientSock) := by
    refine Custody.ext (by simp [custody, Custody.put, hnext]) ?_
    funext owner
    cases owner with
    | context ctx =>
        rw [Custody.put_held_of_ne (by simp)]
        by_cases he : ctx = some slot
        · rw [he, Custody.put_held_self]
          exact hafter.1
        · rw [Custody.put_held_of_ne (by simpa using he)]
          cases ctx with
          | none => simp [custody, held, owned, hnext]
          | some other => exact (huntouched other fun hother => he (hother ▸ rfl)).owned
    | nobody other =>
        by_cases he : other = clientSock
        · rw [he, Custody.put_held_self]
          simp [custody, held]
        · rw [Custody.put_held_of_ne (by simpa using he), Custody.put_held_of_ne (by simp)]
          simp [custody, held, he]
  have hstep : Custody.Step (server.custody entries gone) .keep
      (next.custody entries (clientSock :: gone)) := by
    rw [hcustody]
    exact .pass hbefore.1 hfree
  refine ⟨hstep, h.of_runtime (by rw [hnext]) hreachable (hstep.sound h.sound) (by rw [hnext])
    (fun ctx hbusy => ?_) (fun other hidle => ?_) fun other => ?_⟩
  · cases ctx with
    | none => simp only [Server.call, hnext]
    | some other =>
        have hne : other ≠ slot := by
          rintro rfl
          exact hbusy hframe
        simp only [Server.call, (huntouched other hne).routine]
  · rw [hsame.1] at hidle
    rw [hsame.2, hnext]
    exact h.looping other hidle
  · by_cases he : other = slot
    · subst he
      refine .inr ⟨fun hlater => ?_, fun sock hsock => ?_⟩
      · exact absurd (by simpa [Vacant, hnext, hsame.1] using hlater) hvacant
      · exact h.borrowed other sock (hbefore.2.trans (hafter.2.symm.trans hsock))
    · exact .inl (huntouched other he)

-- What accept_loop passes on is with the new coroutine.
theorem Invariant.slot_created (h : server.Invariant entries gone)
    (hs : Machine.Step server.system.machine
      ⟨.go entries.handleClient clientSock reply, .created serial calls⟩ machine)
    (hrunning : server.system.running = some (some slot))
    (hroutine : server.routines slot = .go ssock clientSock)
    (hframe : (server.system.contexts (some slot)).frame = .idle)
    (hnext : next = { server with
      system := { server.system with machine := machine }
      routines := Function.update server.routines slot (.accept ssock) })
    (hreachable : System.Reachable next.system) :
    Custody.Step (server.custody entries gone) .keep (next.custody entries gone) ∧
      next.Invariant entries gone := by
  obtain ⟨hconts, hvacant⟩ := h.running_slot hrunning
  have hm := hs.move
  cases hm with
  | @goCreated _ _ _ idx coro hpc hnull hcoro hentry hargument hfresh =>
      have hidle : server.system.machine.conts idx = .idle :=
        (h.machine.slots idx).null_iff.mp hnull
      have habsent := h.absent idx (.inl hidle)
      have hother : idx ≠ slot := by
        rintro rfl
        simp [hconts] at hidle
      have huntouched : ∀ other, other ≠ slot → other ≠ idx →
          Untouched entries server next other := by
        intro other hne hnew
        subst hnext
        refine .of_step h.machine hs (Function.update_of_ne hne _ _) ?_ (fun _ => rfl) fun _ => rfl
        simp [Machine.spawn, hnew]
      have hbefore : server.owned entries (some slot) = some clientSock ∧
          server.borrows entries slot = some ssock := by
        rw [owned_slot hvacant, borrows_slot hvacant, hroutine]
        exact ⟨rfl, rfl⟩
      have hafter : next.owned entries (some slot) = none ∧
          next.borrows entries slot = some ssock := by
        simp [owned, borrows, hnext, Machine.spawn, hother.symm, hconts, RoutinePoint.sock,
          RoutinePoint.borrowed]
      have hstarts : RoutinePoint.start entries coro.entry coro.argument = .recv clientSock := by
        rw [hentry, hargument, RoutinePoint.start_handleClient]
      have hnew : next.owned entries (some idx) = some clientSock ∧
          next.borrows entries idx = none := by
        simp [owned, borrows, hnext, Machine.spawn, hstarts, RoutinePoint.sock,
          RoutinePoint.borrowed]
      have hfree : server.owned entries (some idx) = none := by
        simp [owned, hidle, habsent, RoutinePoint.sock]
      have hcustody : next.custody entries gone =
          ((server.custody entries gone).put (.context (some slot)) none).put
            (.context (some idx)) (some clientSock) := by
        refine Custody.ext (by simp [custody, Custody.put, hnext]) ?_
        funext owner
        by_cases hidx : owner = .context (some idx)
        · rw [hidx, Custody.put_held_self]
          exact hnew.1
        · rw [Custody.put_held_of_ne hidx]
          by_cases hslot : owner = .context (some slot)
          · rw [hslot, Custody.put_held_self]
            exact hafter.1
          · rw [Custody.put_held_of_ne hslot]
            cases owner with
            | context ctx =>
                cases ctx with
                | none => simp [custody, held, owned, hnext]
                | some other =>
                    refine (huntouched other ?_ ?_).owned
                    · simpa using hslot
                    · simpa using hidx
            | nobody other => rfl
      have hstep : Custody.Step (server.custody entries gone) .keep
          (next.custody entries gone) := by
        rw [hcustody]
        exact .pass hbefore.1 hfree
      refine ⟨hstep, h.of_runtime (by rw [hnext]) hreachable (hstep.sound h.sound) (by rw [hnext])
        (fun ctx hbusy => ?_) (fun other hused => ?_) fun other => ?_⟩
      · cases ctx with
        | none => simp only [Server.call, hnext]
        | some other =>
            have hne : other ≠ slot := by
              rintro rfl
              exact hbusy hframe
            simp only [Server.call, hnext, Function.update_of_ne hne]
      · rw [hnext]
        exact h.looping slot (by simp [hconts])
      · by_cases he : other = slot
        · subst he
          refine .inr ⟨fun hlater => ?_, fun sock hsock => ?_⟩
          · exact absurd (by simpa [Vacant, hnext, Machine.spawn, hother.symm] using hlater) hvacant
          · exact h.borrowed other sock (hbefore.2.trans (hafter.2.symm.trans hsock))
        · by_cases hi : other = idx
          · subst hi
            refine .inr ⟨fun _ => ?_, fun sock hsock => ?_⟩
            · simp [hnext, hother, habsent]
            · rw [hnew.2] at hsock
              cases hsock
          · exact .inl (huntouched other he hi)

end Go

section Calls

variable {machine : Machine} {sock sp : UInt64} {serial : Nat}

theorem Invariant.main_run (h : server.Invariant entries gone)
    (hs : Machine.Step server.system.machine ⟨.run, .silent⟩ machine)
    (hmain : server.main = .run sock) (hframe : (server.system.contexts none).frame = .idle)
    (hnext : next = { server with
      system := { server.system with machine := machine }, main := .destroy sock })
    (hreachable : System.Reachable next.system) :
    next.custody entries gone = server.custody entries gone ∧ next.Invariant entries gone := by
  have hpc : machine.pc ≠ .main := by
    have hm := hs.move
    cases hm with
    | run => nofun
  subst hnext
  have huntouched : ∀ slot, Untouched entries server { server with
      system := { server.system with machine := machine }, main := .destroy sock } slot :=
    fun slot => .of_step h.machine hs rfl (fresh_before h.machine hs fun _ => rfl) (fun _ => rfl)
      fun _ => rfl
  have hcustody := @custody_congr entries server { server with
    system := { server.system with machine := machine }, main := .destroy sock } gone rfl
    fun ctx => by
      cases ctx with
      | none => simp [owned, hmain, MainPoint.sock]
      | some slot => exact (huntouched slot).owned
  refine ⟨hcustody, h.of_runtime rfl hreachable (hcustody ▸ h.sound) (by rw [hmain]; rfl)
    (fun ctx hbusy => ?_) (fun _ _ => ⟨sock, .inr ⟨rfl, hpc⟩⟩) fun slot => .inl (huntouched slot)⟩
  cases ctx with
  | none => exact absurd hframe hbusy
  | some slot => rfl

-- A step in one slot after which its code owns and has borrowed what it did before.
theorem Invariant.of_slot (h : server.Invariant entries gone) {machine : Machine}
    {point : RoutinePoint} (hnext : next = { server with
      system := { server.system with machine := machine }
      routines := Function.update server.routines slot point })
    (hreachable : System.Reachable next.system)
    (hframe : (server.system.contexts (some slot)).frame = .idle)
    (hused : server.system.machine.conts slot ≠ .idle) (hpc : machine.pc ≠ .main)
    (huntouched : ∀ other ≠ slot, Untouched entries server next other)
    (howned : next.owned entries (some slot) = server.owned entries (some slot))
    (hborrows : next.borrows entries slot = server.borrows entries slot)
    (hvacant : next.Vacant slot → point = .absent) :
    next.custody entries gone = server.custody entries gone ∧ next.Invariant entries gone := by
  have hcustody : next.custody entries gone = server.custody entries gone := by
    refine custody_congr (by rw [hnext]) fun ctx => ?_
    cases ctx with
    | none => simp only [owned, hnext]
    | some other =>
        by_cases he : other = slot
        · rw [he, howned]
        · exact (huntouched other he).owned
  have hsound : (next.custody entries gone).Sound := by
    rw [hcustody]
    exact h.sound
  refine ⟨hcustody, h.of_runtime (by rw [hnext]) hreachable hsound (by rw [hnext])
    (fun ctx hbusy => ?_) (fun other _ => ?_) fun other => ?_⟩
  · cases ctx with
    | none => simp only [Server.call, hnext]
    | some other =>
        have hne : other ≠ slot := by
          rintro rfl
          exact hbusy hframe
        simp only [Server.call, hnext, Function.update_of_ne hne]
  · rw [hnext]
    obtain ⟨sock, hmain | ⟨hmain, -⟩⟩ := h.looping slot hused
    · exact ⟨sock, .inl hmain⟩
    · exact ⟨sock, .inr ⟨hmain, hpc⟩⟩
  · by_cases he : other = slot
    · subst he
      refine .inr ⟨fun hlater => ?_, fun sock hsock => ?_⟩
      · simp [hnext, hvacant hlater]
      · exact h.borrowed other sock (hborrows.symm.trans hsock)
    · exact .inl (huntouched other he)

theorem Invariant.slot_returned (h : server.Invariant entries gone)
    (hs : Machine.Step server.system.machine ⟨.ret sp, .left serial⟩ machine)
    (hrunning : server.system.running = some (some slot))
    (hroutine : server.routines slot = .returning)
    (hframe : (server.system.contexts (some slot)).frame = .idle)
    (hnext : next = { server with
      system := { server.system with machine := machine }
      routines := Function.update server.routines slot .absent })
    (hreachable : System.Reachable next.system) :
    next.custody entries gone = server.custody entries gone ∧ next.Invariant entries gone := by
  obtain ⟨hconts, hvacant⟩ := h.running_slot hrunning
  have hm := hs.move
  cases hm with
  | @returned _ idx hpc hcurrent =>
      obtain rfl : idx = slot := by simpa [System.running, hpc, hcurrent] using hrunning
      have hlater : next.system.machine.conts idx = .returned := by
        simp [hnext, Machine.leave]
      refine h.of_slot hnext hreachable hframe (by simp [hconts]) (by simp [Machine.leave])
        ?_ ?_ ?_ fun _ => rfl
      · intro other hne
        subst hnext
        refine .of_step h.machine hs (Function.update_of_ne hne _ _)
          (fresh_before h.machine hs fun _ => rfl) (fun _ => rfl) fun hidle => ?_
        have hserial : server.system.machine.serials idx ≠ server.system.machine.serials other :=
          fun he => hne (h.machine.serial_inj idx other (by simp [hconts]) hidle he).symm
        simpa [Runtime.Event.returns] using hserial
      · rw [owned_slot hvacant, hroutine]
        simp [owned, hnext, Machine.leave, RoutinePoint.sock]
      · rw [borrows_slot hvacant, hroutine]
        simp [borrows, hnext, Machine.leave, RoutinePoint.borrowed]

theorem Invariant.slot_starts {entry argument : UInt64} (h : server.Invariant entries gone)
    (hs : Machine.Step server.system.machine
      ⟨.switch sp, .resumed serial (.entryStarts entry argument)⟩ machine)
    (hcurrent : server.system.machine.sched.current = some slot)
    (hnext : next = { server with
      system := { server.system with machine := machine }
      routines := Function.update server.routines slot (.start entries entry argument) })
    (hreachable : System.Reachable next.system) :
    next.custody entries gone = server.custody entries gone ∧ next.Invariant entries gone := by
  have hfresh : server.system.machine.conts slot = .fresh ∧
      entry = (server.system.machine.sched.coroutines slot).entry ∧
      argument = (server.system.machine.sched.coroutines slot).argument := by
    have hm := hs.move
    cases hm with
    | @resumed _ idx coro how hpc hpicked hresume =>
        obtain rfl : idx = slot := Option.some.inj (hpicked.symm.trans hcurrent)
        cases Machine.resume_regains hresume with
        | fresh hconts => exact ⟨hconts, rfl, rfl⟩
  obtain ⟨hconts, rfl, rfl⟩ := hfresh
  have hlater : next.system.machine.conts slot = .running ∧ machine.pc = .coroutine ∧
      serial = server.system.machine.serials slot := by
    have hm := hs.move
    cases hm with
    | @resumed _ idx coro how hpc hpicked hresume =>
        obtain rfl : idx = slot := Option.some.inj (hpicked.symm.trans hcurrent)
        exact ⟨by simp [hnext, Machine.enter], rfl, rfl⟩
  obtain ⟨hrunning, hpc, rfl⟩ := hlater
  have hframe : (server.system.contexts (some slot)).frame = .idle := by
    by_contra hbusy
    obtain ⟨operation, hcall, -⟩ := h.at_call (some slot) hbusy
    exact h.not_vacant hcall (.inr (.inl hconts))
  refine h.of_slot hnext hreachable hframe (by simp [hconts]) (by simp [hpc]) ?_ ?_ ?_ ?_
  · intro other hne
    subst hnext
    refine .of_step h.machine hs (Function.update_of_ne hne _ _)
      (fresh_before h.machine hs fun _ => rfl) (fun hother => ?_) fun _ => rfl
    have hserial : server.system.machine.serials slot ≠ server.system.machine.serials other := by
      intro he
      exact hne (h.machine.serial_inj slot other (by simp [hconts]) (by simp [hother]) he).symm
    simpa [Runtime.Event.starts] using hserial
  · rw [owned, if_neg (by simp [hrunning]), owned, if_pos hconts, hnext]
    simp
  · rw [borrows, if_neg (by simp [hrunning]), borrows, if_pos hconts, hnext]
    simp
  · simp [Vacant, hrunning]

end Calls

end Server

end Minimk.Socket
