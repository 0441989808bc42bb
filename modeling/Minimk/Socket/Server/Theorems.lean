import Minimk.Socket.Liveness.Theorems
import Minimk.Socket.Server.Turn

namespace Minimk.Socket

open Abort Minimk.Runtime SocketTable Transition

namespace Server

variable {entries : Entries} {server next : Server} {event : System.Event} {ctx : Option Slot}
  {slot : Slot} {system : System} {gone : List UInt64}

section Steps

variable {turns : List Turn} {turn : Turn}

@[simp] theorem advance_system : (server.advance entries event system).system = system := by
  unfold advance
  split
  · rfl
  · rename_i ctx _
    cases ctx <;> rfl

theorem lost_keep (h : loses turn = none) : lost (turn :: turns) = lost turns := by
  simp [lost, h]

theorem label_loop (h : turn.before.system.running = none) :
    label entries turn = .keep ∧ loses turn = none := by
  simp [label, loses, h]

theorem label_call {call : ProgramCall} (hrunning : turn.before.system.running = some ctx)
    (hcall : turn.before.call entries ctx = some call)
    (hoperation : ∀ operation, call ≠ .operation operation) : label entries turn = .keep := by
  simp only [label, hrunning, hcall]
  cases call with
  | operation operation => exact absurd rfl (hoperation operation)
  | go | run | ret => rfl

theorem loses_none (h : ∀ rv calls, turn.label.output.runtime ≠ some (.refused rv calls)) :
    loses turn = none := by
  unfold loses
  split
  · rename_i slot rv calls _ hrefused
    exact absurd hrefused (h rv calls)
  · rfl

theorem advance_running (h : server.system.running = some ctx) :
    server.advance entries event system = server.proceed entries event system ctx := by
  simp [advance, acting, h]

theorem Invariant.running_of_pc (h : server.Invariant entries gone)
    (hpc : server.system.machine.pc = .main ∨ server.system.machine.pc = .coroutine) :
    ∃ ctx, server.system.running = some ctx := by
  rcases hpc with hpc | hpc
  · exact ⟨none, by simp [System.running, hpc]⟩
  · cases hcurrent : server.system.machine.sched.current with
    | none => exact absurd hpc (h.machine.current.mp hcurrent).2
    | some slot => exact ⟨some slot, by simp [System.running, hpc, hcurrent]⟩

-- After a step the handles are with whom they should be, and the invariant holds.
def Preserved (entries : Entries) (turns : List Turn) (turn : Turn) : Prop :=
  Custody.Step (turn.before.custody entries (lost turns)) (label entries turn)
      (turn.after.custody entries (lost (turn :: turns))) ∧
    turn.after.Invariant entries (lost (turn :: turns))

-- A step that leaves the handles with whom they are.
theorem Invariant.kept
    (h : next.custody entries (lost turns) = server.custody entries (lost turns) ∧
      next.Invariant entries (lost turns))
    (hlabel : label entries ⟨server, event, next⟩ = .keep)
    (hloses : loses ⟨server, event, next⟩ = none) :
    Preserved entries turns ⟨server, event, next⟩ := by
  rw [Preserved, lost_keep hloses, hlabel, h.1]
  exact ⟨.keep, h.2⟩

section Runtime

variable {machine : Machine} {entry argument sp : UInt64} {reply : StackReply} {rv : Error}
  {calls : List MemCall} {serial : Nat}

theorem Invariant.refused (h : server.Invariant entries (lost turns))
    (hidle : ∀ ctx, server.system.running = some ctx →
      (server.system.contexts ctx).frame = .idle)
    (hstep : Machine.Step server.system.machine ⟨.go entry argument reply, .refused rv calls⟩
      machine)
    (hevent : event = ⟨.runtime (.go entry argument reply),
      ⟨none, none, some (.refused rv calls)⟩⟩)
    (hrunning : server.system.running = some ctx)
    (hcall : server.call entries ctx = some (.go entry argument))
    (hnext : next = server.advance entries event { server.system with machine := machine })
    (hreachable : System.Reachable next.system) :
    Preserved entries turns ⟨server, event, next⟩ := by
  have hlabel := @label_call entries ctx ⟨server, event, next⟩ _ hrunning hcall (by simp)
  rw [advance_running hrunning] at hnext
  cases ctx with
  | none =>
      obtain ⟨hmain, rfl⟩ := MainPoint.call_go hcall
      have hloses : loses ⟨server, event, next⟩ = none := by simp [loses, hrunning]
      refine Invariant.kept (h.main_refused hstep hmain (hidle none hrunning) ?_ hreachable)
        hlabel hloses
      rw [hnext, proceed, hmain, hevent]
      rfl
  | some slot =>
      obtain ⟨ssock, hroutine, rfl⟩ := RoutinePoint.call_go hcall
      have hlost : lost (⟨server, event, next⟩ :: turns) = argument :: lost turns := by
        simp [lost, loses, hrunning, hevent, hroutine, RoutinePoint.sock]
      rw [Preserved, hlost, hlabel]
      refine h.slot_refused hstep hrunning hroutine (hidle _ hrunning) ?_ hreachable
      rw [hnext, proceed, hroutine, hevent]
      rfl

theorem Invariant.created (h : server.Invariant entries (lost turns))
    (hidle : ∀ ctx, server.system.running = some ctx →
      (server.system.contexts ctx).frame = .idle)
    (hstep : Machine.Step server.system.machine ⟨.go entry argument reply, .created serial calls⟩
      machine)
    (hevent : event = ⟨.runtime (.go entry argument reply),
      ⟨none, none, some (.created serial calls)⟩⟩)
    (hrunning : server.system.running = some ctx)
    (hcall : server.call entries ctx = some (.go entry argument))
    (hnext : next = server.advance entries event { server.system with machine := machine })
    (hreachable : System.Reachable next.system) :
    Preserved entries turns ⟨server, event, next⟩ := by
  have hlabel := @label_call entries ctx ⟨server, event, next⟩ _ hrunning hcall (by simp)
  have hloses : loses ⟨server, event, next⟩ = none := loses_none (by simp [hevent])
  rw [advance_running hrunning] at hnext
  cases ctx with
  | none =>
      obtain ⟨hmain, rfl⟩ := MainPoint.call_go hcall
      refine Invariant.kept (h.main_created hstep hmain (hidle none hrunning) ?_ hreachable)
        hlabel hloses
      rw [hnext, proceed, hmain, hevent]
      rfl
  | some slot =>
      obtain ⟨ssock, hroutine, rfl⟩ := RoutinePoint.call_go hcall
      rw [Preserved, lost_keep hloses, hlabel]
      refine h.slot_created hstep hrunning hroutine (hidle _ hrunning) ?_ hreachable
      rw [hnext, proceed, hroutine, hevent]
      rfl

-- A step of the run loop that starts no coroutine is none of the code.
theorem Invariant.looped {action : Runtime.Action} {output : Runtime.Output}
    (h : server.Invariant entries (lost turns)) (hrunning : server.system.running = none)
    (hstep : Machine.Step server.system.machine ⟨action, output⟩ machine)
    (hevent : event = ⟨.runtime action, ⟨none, none, some output⟩⟩)
    (hnext : next = server.advance entries event { server.system with machine := machine })
    (hreachable : System.Reachable next.system)
    (hcall : System.Action.call (.runtime action) = none)
    (hcreates : ∀ serial, Runtime.Event.creates serial ⟨action, output⟩ = false)
    (hstarts : ∀ serial, Runtime.Event.starts serial ⟨action, output⟩ = false)
    (hreturns : ∀ serial, Runtime.Event.returns serial ⟨action, output⟩ = false)
    (hpc : machine.pc = .main → ∀ slot, machine.conts slot = .idle) :
    Preserved entries turns ⟨server, event, next⟩ := by
  obtain ⟨hlabel, hloses⟩ := @label_loop entries ⟨server, event, next⟩ hrunning
  have hnone : ∀ call, event.action.call = some call →
      ∃ operation, call = .operation operation := by
    intro call hsome
    rw [hevent, hcall] at hsome
    cases hsome
  have hresult : event.output.result = none := by rw [hevent]
  have hfresh : ∀ serial entry argument,
      event.output.runtime ≠ some (.resumed serial (.entryStarts entry argument)) := by
    intro serial entry argument hresumed
    have houtput : output = .resumed serial (.entryStarts entry argument) := by
      simpa [hevent] using hresumed
    simpa [houtput, Runtime.Event.starts] using hstarts serial
  rw [advance_quiet (fun _ => mainAfter_none hresult hnone)
    fun _ => routineAfter_none hresult hnone hfresh] at hnext
  have hquiet := h.quiet hstep hnext hreachable hcreates hstarts hreturns fun hmain =>
    .inl (hpc hmain)
  exact Invariant.kept hquiet hlabel hloses

theorem Invariant.runtime {action : Runtime.Action} {output : Runtime.Output}
    (h : server.Invariant entries (lost turns))
    (hidle : ∀ ctx, server.system.running = some ctx →
      (server.system.contexts ctx).frame = .idle)
    (hstep : Machine.Step server.system.machine ⟨action, output⟩ machine)
    (hevent : event = ⟨.runtime action, ⟨none, none, some output⟩⟩)
    (hpermits : server.permits entries event.action = true)
    (hnext : next = server.advance entries event { server.system with machine := machine })
    (hreachable : System.Reachable next.system) :
    Preserved entries turns ⟨server, event, next⟩ := by
  have hmove := hstep.move
  cases hmove with
  | loopNext hpc | expire hpc | pickNone hpc | pickSome hpc | pollSkipped hpc
  | pollInterrupted hpc | polled hpc | clean hpc =>
      have hrunning : server.system.running = none := by simp [System.running, hpc]
      exact h.looped hrunning hstep hevent hnext hreachable rfl (fun _ => rfl) (fun _ => rfl)
        (fun _ => rfl) fun hmain => by cases hmain
  | loopEnd hpc hcount =>
      have hrunning : server.system.running = none := by simp [System.running, hpc]
      apply h.looped hrunning hstep hevent hnext hreachable rfl (fun _ => rfl) (fun _ => rfl)
        (fun _ => rfl)
      intro _ slot
      exact (h.machine.slots slot).null_iff.mp (hcount slot)
  | goFull hpc | goFailed hpc =>
      obtain ⟨ctx, hrunning⟩ := h.running_of_pc hpc
      have hcall := permits_call hpermits hrunning (by rw [hevent]; rfl)
      exact h.refused hidle hstep hevent hrunning hcall hnext hreachable
  | goCreated hpc =>
      obtain ⟨ctx, hrunning⟩ := h.running_of_pc hpc
      have hcall := permits_call hpermits hrunning (by rw [hevent]; rfl)
      exact h.created hidle hstep hevent hrunning hcall hnext hreachable
  | run hpc =>
      have hrunning : server.system.running = some none := by simp [System.running, hpc]
      have hcall : server.call entries none = some .run :=
        permits_call hpermits hrunning (by rw [hevent]; rfl)
      have hlabel := @label_call entries none ⟨server, event, next⟩ _ hrunning hcall (by simp)
      obtain ⟨sock, hmain⟩ := MainPoint.call_run hcall
      rw [advance_running hrunning] at hnext
      refine Invariant.kept (h.main_run hstep hmain (hidle none hrunning) ?_ hreachable) hlabel
        (loses_none (by simp [hevent]))
      rw [hnext, proceed, hmain, hevent]
      rfl
  | @returned sp slot hpc hcurrent =>
      have hrunning : server.system.running = some (some slot) := by
        simp [System.running, hpc, hcurrent]
      have hcall : server.call entries (some slot) = some .ret :=
        permits_call hpermits hrunning (by rw [hevent]; rfl)
      have hlabel :=
        @label_call entries (some slot) ⟨server, event, next⟩ _ hrunning hcall (by simp)
      have hroutine := RoutinePoint.call_ret hcall
      rw [advance_running hrunning] at hnext
      refine Invariant.kept (h.slot_returned hstep hrunning hroutine (hidle _ hrunning) ?_
        hreachable) hlabel (loses_none (by simp [hevent]))
      rw [hnext, proceed, hroutine, hevent]
      rfl
  | @yielded _ slot hpc hcurrent | @slept _ _ _ slot hpc hcurrent
  | @suspended _ _ _ _ _ slot _ hpc hcurrent =>
      have hrunning : server.system.running = some (some slot) := by
        simp [System.running, hpc, hcurrent]
      simp [permits, hrunning, hevent, System.Action.call] at hpermits
  | @resumed sp slot coro how hpc hcurrent hresume =>
      have hrunning : server.system.running = none := by simp [System.running, hpc]
      cases how with
      | entryStarts entry argument =>
          obtain ⟨hlabel, hloses⟩ := @label_loop entries ⟨server, event, next⟩ hrunning
          have hacting : server.acting { server.system with
              machine := server.system.machine.enter slot coro sp } = some (some slot) := by
            simp [acting, System.running, hpc, hcurrent, Machine.enter]
          refine Invariant.kept (h.slot_starts hstep hcurrent ?_ hreachable) hlabel hloses
          rw [hnext, advance, hacting, hevent]
          rfl
      | yieldReturns | nanosleepReturns | suspendIoReturns =>
          exact h.looped hrunning hstep hevent hnext hreachable rfl (fun _ => rfl) (fun _ => rfl)
            (fun _ => rfl) fun hmain => by cases hmain

end Runtime

-- In a step within an operation the machine runs the code of one context, which goes on with the
-- result if there is one.
theorem Step.preserves (h : server.Invariant entries (lost turns))
    (hs : Step entries server event next) :
    Preserved entries turns ⟨server, event, next⟩ := by
  obtain ⟨system, hstep, hpermits, hnext⟩ := hs.cases
  have hreachable : System.Reachable next.system := by
    rw [hnext, advance_system]
    exact h.reachable.snoc hstep
  cases hstep.move with
  | runtime hidle hmachine _ => exact h.runtime hidle hmachine rfl hpermits hnext hreachable
  | @resumed action slot serial rv machine table go hmachine hcurrent hframe hresume =>
      obtain ⟨hswitch, hpc, hnow⟩ := System.switched hmachine
      obtain ⟨sp, rfl⟩ := (switch_iff_resumed hmachine).mpr ⟨serial, _, rfl⟩
      have hrunning : server.system.running = none := by simp [System.running, hswitch]
      obtain ⟨hlabel, hloses⟩ := @label_loop entries ⟨server, _, next⟩ hrunning
      rw [@advance_settle entries server _ (some slot)] at hnext
      · rw [Preserved, lost_keep hloses, hlabel]
        exact h.resumed hmachine hcurrent hframe hresume hnext hreachable
      · rw [acting, hrunning, System.settle_running]
        simp [System.running, hpc, hnow, hcurrent]
      · simp [System.Action.call]
      · simp
  | @started ctx operation table go hrunning hframe hstart =>
      have hcall := permits_call hpermits hrunning rfl
      rw [@advance_settle entries server _ ctx] at hnext
      · rw [Preserved, lost_keep (loses_none (by simp))]
        simp only [label, hrunning, hcall]
        exact h.started hrunning hcall hstart hnext hreachable
      · rw [acting, hrunning]
        rfl
      · rintro call ⟨⟩
        exact ⟨operation, rfl⟩
      · simp
  | @replied ctx reply request files table go hrunning hrequest hkernel hresume =>
      rw [@advance_settle entries server _ ctx] at hnext
      · obtain ⟨operation, hcall, hpreserves⟩ :=
          h.replied hrunning hrequest hresume hnext hreachable
        rw [Preserved, lost_keep (loses_none (by simp))]
        simp only [label, hrunning, hcall]
        exact hpreserves
      · rw [acting, hrunning]
        rfl
      · simp [System.Action.call]
      · simp
  | @suspended ctx now sp nanosec direction fd output machine hrunning hrequest hmachine =>
      obtain ⟨serial, rfl⟩ : ∃ serial, output = .left serial := by
        have hmove := hmachine.move
        cases hmove with
        | suspended => exact ⟨_, rfl⟩
      obtain ⟨operation, hcall, -⟩ := h.at_call ctx (Frame.ne_idle_of_request hrequest)
      rw [advance_quiet (fun _ => rfl) fun _ => rfl] at hnext
      refine Invariant.kept (h.quiet hmachine hnext hreachable (fun _ => rfl) (fun _ => rfl)
        (fun _ => rfl) fun hmain => ?_) ?_ (loses_none (by simp))
      · rw [suspended_pc hmachine] at hmain
        cases hmain
      · simp only [label, hrunning, hcall, Operation.label_none]

theorem initial_entry (info : InfoIdx) : (initial.system.table.sockets info).handle = 0 := rfl

theorem initial_custody : initial.custody entries [] = Custody.empty := by
  refine Custody.ext ?_ ?_
  · refine Finset.eq_empty_of_forall_notMem fun sock hmem => ?_
    obtain ⟨hne, info, rfl⟩ := SocketTable.mem_handles.mp hmem
    exact hne (initial_entry info)
  · funext owner
    cases owner with
    | context ctx => cases ctx <;> rfl
    | nobody sock => simp [custody, held, Custody.empty]

theorem initial_invariant : initial.Invariant entries [] where
  reachable := ⟨[], Transition.Run.start rfl⟩
  sound := by
    rw [initial_custody]
    exact Custody.empty_sound
  at_call := fun ctx hframe => absurd rfl hframe
  live := nofun
  absent := fun slot _ => rfl
  looping := fun slot hidle => absurd rfl hidle
  borrowed := nofun

theorem advance_routine : (server.advance entries event system).routines slot =
      server.routines slot ∨ server.acting system = some (some slot) ∧
    (server.advance entries event system).routines slot =
      routineAfter entries (server.routines slot) event := by
  unfold advance
  split
  · exact .inl rfl
  · rename_i ctx hacting
    cases ctx with
    | none => exact .inl rfl
    | some other =>
        by_cases he : slot = other
        · subst he
          exact .inr ⟨hacting, by simp [proceed]⟩
        · exact .inl (by simp [proceed, he])

theorem routineAfter_ne_aborted {point : RoutinePoint} {sock : UInt64}
    (h : point ≠ .aborted sock) (hresult : ∀ result, event.output.result = some result →
      point.returned result ≠ .aborted sock) :
    routineAfter entries point event ≠ .aborted sock := by
  have hwent : point.went ≠ .aborted sock := by
    cases point with
    | go | returning => nofun
    | absent | accept | recv | sendall | destroy | aborted => exact h
  unfold routineAfter
  split
  · rename_i hsome
    exact hresult _ hsome
  · exact hwent
  · exact hwent
  · unfold RoutinePoint.start
    split_ifs <;> nofun
  · exact h

-- A transfer that has succeeded has had its system call do so.
theorem Invariant.moved (h : server.Invariant entries gone)
    (hs : System.Step server.system event system) (hmoves : event.Moves) {operation : Operation}
    {count : UInt64} {result : Result} (hpermits : server.permits entries event.action = true)
    (hacting : server.acting system = some ctx)
    (hcall : server.call entries ctx = some (.operation operation))
    (htransfers : operation.transfers = some count)
    (hresult : event.output.result = some result) (hsuccess : result.rv = .success) :
    0 < result.amount.getD 0 ∧ result.amount.getD 0 ≤ count := by
  cases hs.move with
  | runtime | suspended => cases hresult
  | @started other own table go hrunning hframe hstart =>
      have hown := permits_call hpermits hrunning rfl
      have hretimes : own.retimes = false := by
        cases other with
        | none => exact MainPoint.call_retimes hown
        | some slot => exact RoutinePoint.call_retimes hown
      obtain ⟨frame, rfl, -⟩ :=
        Operation.start_at (fun _ hhandle => h.finds hown hhandle) hretimes hstart
      cases hresult
  | @replied other reply request files table go hrunning hrequest hkernel hresume =>
      obtain rfl : other = ctx := by simpa [acting, hrunning] using hacting
      obtain ⟨own, hown, hat⟩ := h.at_call other (Frame.ne_idle_of_request hrequest)
      obtain rfl : own = operation := by simpa [hown] using hcall
      obtain ⟨hrv, hamount, info, direction, hframe⟩ :=
        hat.moved htransfers hresume hresult hsuccess
      rw [hframe] at hrequest
      rw [hamount]
      cases direction with
      | read | write =>
          obtain rfl := Option.some.inj hrequest
          exact hmoves hrv
  | @resumed action slot serial rv machine table go hmachine hcurrent hframe hresume =>
      obtain ⟨hswitch, hpc, hnow⟩ := System.switched hmachine
      obtain rfl : some slot = ctx := by
        simpa [acting, System.running, hswitch, hpc, hnow, hcurrent] using hacting
      obtain ⟨own, hown, hat⟩ := h.at_call (some slot) hframe
      obtain rfl : own = operation := by simpa [hown] using hcall
      obtain ⟨-, -, info, direction, hon⟩ := hat.moved htransfers hresume hresult hsuccess
      obtain ⟨_, point, _, _, hpoint, hawaits, -⟩ := h.linked.awaits hmachine hframe
      obtain ⟨-, rfl⟩ := Frame.on.inj (hon.symm.trans hpoint)
      cases hawaits

theorem Invariant.not_aborted (h : server.Invariant entries gone)
    (hs : Step entries server event next) (hmoves : event.Moves)
    (hasserts : ∀ slot sock, server.routines slot ≠ .aborted sock) (slot : Slot) (sock : UInt64) :
    next.routines slot ≠ .aborted sock := by
  obtain ⟨system, hstep, hpermits, rfl⟩ := hs.cases
  rcases @advance_routine entries server event slot system with
    hsame | ⟨hacting, hafter⟩
  · rw [hsame]
    exact hasserts slot sock
  · rw [hafter]
    apply routineAfter_ne_aborted (hasserts slot sock)
    intro result hresult
    apply RoutinePoint.returned_ne_aborted (hasserts slot sock)
    intro operation count hcall htransfers hsuccess
    exact h.moved hstep hmoves hpermits hacting hcall htransfers hresult hsuccess

-- While every operation is on a live entry, none comes back to a dead one.
theorem Invariant.quiet_step (h : server.Invariant entries gone) {action : System.Action} :
    server.system.Quiet action := by
  intro sp slot info point direction haction hcurrent hframe hawaits hdead
  exact absurd (h.live (some slot) info point hframe) hdead

-- The server is a run of the library in which the handles are passed around as resources.
theorem Trace.invariant (h : Trace entries turns server) :
    Custody.Run (turns.map (label entries)) (server.custody entries (lost turns)) ∧
      server.Invariant entries (lost turns) ∧
      System.QuietRun (turns.map fun turn => turn.label) server.system ∧
      ((∀ turn ∈ turns, turn.label.Moves) →
        ∀ slot sock, server.routines slot ≠ .aborted sock) := by
  refine Transition.Run.invariant_from (P := fun turns server =>
    Custody.Run (turns.map (label entries)) (server.custody entries (lost turns)) ∧
      server.Invariant entries (lost turns) ∧
      System.QuietRun (turns.map fun turn => turn.label) server.system ∧
      ((∀ turn ∈ turns, turn.label.Moves) →
        ∀ slot sock, server.routines slot ≠ .aborted sock)) ?_ ?_ h
  · refine ⟨Transition.Run.start initial_custody, initial_invariant, Transition.Run.start rfl, ?_⟩
    rintro - slot sock ⟨⟩
  · rintro log state ⟨before, event, after⟩ next -
      ⟨hcustody, hinvariant, hquiet, hasserts⟩ ⟨rfl, rfl, hs⟩
    obtain ⟨hstep, hnext⟩ := hs.preserves hinvariant
    obtain ⟨system, hsystem, -, hadvance⟩ := hs.cases
    refine ⟨hcustody.snoc hstep, hnext, hquiet.snoc ⟨?_, hinvariant.quiet_step⟩, ?_⟩
    · rw [hadvance, advance_system]
      exact hsystem
    · intro hmoves
      obtain ⟨hlast, hbefore⟩ := List.forall_mem_cons.mp hmoves
      exact hinvariant.not_aborted hs hlast (hasserts hbefore)

-- Whatever the order of the coroutines' steps, and however many clients there are, every socket
-- of the server has one owner, and nobody uses or destroys it after its owner has destroyed it.
theorem Trace.entrusted (h : Trace entries turns server) : Entrusted entries turns server := by
  obtain ⟨hcustody, hinvariant, hquiet, hasserts⟩ := Trace.invariant h
  refine ⟨?_, ?_, ?_, ?_, ?_, ?_, ?_⟩
  · intro sock hmem
    exact hinvariant.sound.existsUnique hmem
  · intro owner sock hheld
    exact hinvariant.sound.held owner sock hheld
  · intro slot sock hborrows
    exact hinvariant.borrowed slot sock hborrows
  · intro ctx operation sock hcall hhandle
    refine ⟨indexOf sock, ?_⟩
    rw [infoFind_finds, if_pos (hinvariant.finds hcall hhandle)]
  · intro sock
    exact Custody.Run.balance hcustody sock
  · exact hasserts
  · exact System.conformingRun_iff.mpr hquiet

end Steps

def twoEntries : Entries := ⟨1, 2, by decide⟩

-- The listening socket is in the first entry. One client is served; another one is lost, as there
-- is no stack for its coroutine.
def lostClient : List System.Action :=
  let sock : UInt64 := 0x100000000000000
  let done (fd : Int32) : Reply := ⟨.success, fd, 0, .success⟩
  let moved (amount : UInt64) : Reply := ⟨.success, -1, amount, .success⟩
  let loop (now : UInt64) : List System.Action :=
    [.runtime .loopTest, .runtime .clean, .runtime (.expire now), .runtime .pick,
      .runtime (.switch 0x9000)]
  [.start (.create AF_INET SOCK_STREAM 0), .reply (done 3), .reply (done 3), .reply (done 3),
    .start (.setsockoptReuseaddr sock), .reply (done 3),
    .start (.bind sock "127.0.0.1" "9774"), .reply (done 3), .start (.listen sock 128),
    .reply (done 3), .runtime (.go 1 sock ⟨4096, some 0x10000, true⟩), .runtime .run] ++ loop 0 ++
  [.start (.accept sock), .reply (done 4), .reply (done 4), .reply (done 4),
    .runtime (.go 2 (sock + 1) ⟨4096, some 0x40000, true⟩), .start (.accept sock),
    .reply (done 5), .reply (done 5), .reply (done 5),
    .runtime (.go 2 (sock + 2) ⟨4096, none, true⟩), .start (.accept sock),
    .reply ⟨.eagain, -1, 0, .success⟩, .suspend 0 0x1f000] ++ loop 1 ++
  [.start (.recv (sock + 1) 4096), .reply (moved 7), .start (.send (sock + 1) 7), .reply (moved 4),
    .start (.send (sock + 1) 3), .reply (moved 3), .start (.recv (sock + 1) 4096),
    .reply ⟨.eof, -1, 0, .success⟩, .start (.destroy (sock + 1)), .reply (done 4),
    .runtime (.ret 0x4f000)]

theorem lostClient_trace :
    Trace twoEntries
      (Transition.outcome (performTurn (perform twoEntries)) lostClient initial).1
      (Transition.outcome (performTurn (perform twoEntries)) lostClient initial).2 := by
  refine ⟨initial, rfl, Transition.outcome_turns ?_ rfl⟩
  exact fun _ _ _ _ => perform_step

theorem Trace.entrusted_lostClient :
    Entrusted twoEntries
        (Transition.outcome (performTurn (perform twoEntries)) lostClient initial).1
        (Transition.outcome (performTurn (perform twoEntries)) lostClient initial).2 ∧
      lost (Transition.outcome (performTurn (perform twoEntries)) lostClient initial).1 =
        [0x100000000000002] :=
  ⟨Trace.entrusted lostClient_trace, rfl⟩

end Server

end Minimk.Socket
