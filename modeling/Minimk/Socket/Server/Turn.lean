import Minimk.Socket.Server.Invariant

namespace Minimk.Socket

open Abort Minimk.Runtime SocketTable Transition

namespace Server

variable {entries : Entries} {server next : Server} {event : System.Event} {ctx : Option Slot}
  {slot : Slot} {system : System} {gone : List UInt64}

-- The code of a context after a turn of its operation.
def settle (server : Server) (ctx : Option Slot) (system : System) : Option Result → Server
  | none => { server with system := system }
  | some result =>
      match ctx with
      | none => { server with system := system, main := server.main.returned result }
      | some slot =>
          let point := (server.routines slot).returned result
          { server with system := system, routines := Function.update server.routines slot point }

section Turn

variable {operation : Operation} {result : Option Result}

@[simp] theorem settle_system : (server.settle ctx system result).system = system := by
  cases result with
  | none => rfl
  | some result => cases ctx <;> rfl

theorem settle_main (h : ctx ≠ none) : (server.settle ctx system result).main = server.main := by
  cases result with
  | none => rfl
  | some result =>
      cases ctx with
      | none => exact absurd rfl h
      | some slot => rfl

theorem settle_routine (h : ctx ≠ some slot) :
    (server.settle ctx system result).routines slot = server.routines slot := by
  cases result with
  | none => rfl
  | some result =>
      cases ctx with
      | none => rfl
      | some other =>
          have hne : slot ≠ other := fun he => h (he ▸ rfl)
          simp [settle, hne]

theorem settle_borrowed : ((server.settle ctx system result).routines slot).borrowed =
    (server.routines slot).borrowed := by
  by_cases hctx : ctx = some slot
  · subst hctx
    cases result with
    | none => rfl
    | some result => simp [settle, RoutinePoint.returned_borrowed]
  · rw [settle_routine hctx]

theorem settle_call {other : Option Slot} (h : other ≠ ctx ∨ result = none) :
    (server.settle ctx system result).call entries other = server.call entries other := by
  cases result with
  | none => cases other <;> rfl
  | some result =>
      have hne : other ≠ ctx := by simpa using h
      cases other with
      | none => simp only [Server.call, settle_main hne.symm]
      | some slot => simp only [Server.call, settle_routine hne.symm]

theorem settle_passes {result : Result} (h : server.Invariant entries gone)
    (hcall : server.call entries ctx = some (.operation operation))
    (hslot : ∀ slot, ctx = some slot → system.machine.conts slot ≠ .fresh) :
    operation.Passes result (server.owned entries ctx)
      ((server.settle ctx system (some result)).owned entries ctx) := by
  cases ctx with
  | none => exact MainPoint.returned_passes hcall
  | some slot =>
      have hafter : (server.settle (some slot) system (some result)).owned entries (some slot) =
          ((server.routines slot).returned result).sock := by
        simp [owned, settle, hslot slot rfl]
      rw [owned_slot (h.not_vacant hcall), hafter]
      exact RoutinePoint.returned_passes hcall

theorem custody_put
    (hother : ∀ other ≠ ctx, next.owned entries other = server.owned entries other) :
    next.custody entries gone = ⟨next.system.table.handles,
      ((server.custody entries gone).put (.context ctx) (next.owned entries ctx)).held⟩ := by
  refine Custody.ext rfl ?_
  funext owner
  by_cases he : owner = .context ctx
  · rw [he, Custody.put_held_self]
    rfl
  · rw [Custody.put_held_of_ne he]
    cases owner with
    | context other => exact hother other fun hc => he (hc ▸ rfl)
    | nobody sock => rfl

-- The handles over a turn of an operation: one comes into use with the context that has asked for
-- it, or goes out of use with the one that has owned it.
theorem Invariant.turn_custody {serial : Nat} {table : SocketTable} {go : Next} {before : System}
    (h : server.Invariant entries gone)
    (hcall : server.call entries ctx = some (.operation operation))
    (hends : operation.Ends server.system.table table go)
    (hnext : next = server.settle ctx (before.settle ctx serial table go).1
      (before.settle ctx serial table go).2)
    (hother : ∀ other ≠ ctx, next.owned entries other = server.owned entries other)
    (hself : (before.settle ctx serial table go).2 = none →
      next.owned entries ctx = server.owned entries ctx)
    (hslot : ∀ slot, ctx = some slot → before.machine.conts slot ≠ .fresh) :
    Custody.Step (server.custody entries gone)
      (operation.label (before.settle ctx serial table go).2) (next.custody entries gone) := by
  have hput := @custody_put entries server next ctx gone hother
  have htable : next.system.table = table := by rw [hnext, settle_system, System.settle_table]
  have hpasses : ∀ result, (before.settle ctx serial table go).2 = some result →
      operation.Passes result (server.owned entries ctx) (next.owned entries ctx) := by
    intro result hresult
    rw [hnext, hresult]
    exact settle_passes h hcall (by simpa using hslot)
  have hkeep : next.owned entries ctx = server.owned entries ctx →
      table.sockets = server.system.table.sockets →
        next.custody entries gone = server.custody entries gone := by
    intro howned hsockets
    have hput' : (server.custody entries gone).put (.context ctx) (server.owned entries ctx) =
        server.custody entries gone := Custody.put_eq_self rfl
    rw [hput, howned, htable, handles_congr hsockets, hput']
    rfl
  cases hends with
  | call hat hsockets =>
      rw [hkeep (hself rfl) hsockets]
      show Custody.Step _ (operation.label none) _
      rw [Operation.label_none]
      exact .keep
  | @returned _ rv amount hopening hdestroy hsockets =>
      have hpass := hpasses _ rfl
      have hlabel : operation.label (some ⟨rv, MINIMK_SOCKET_INVALID, amount⟩) = .keep ∧
          next.owned entries ctx = server.owned entries ctx := by
        refine ⟨Operation.label_returned hopening hdestroy, ?_⟩
        cases hop : operation.opening with
        | false => exact hpass.kept hop hdestroy
        | true =>
            obtain ⟨hbefore, hafter⟩ := hpass.opened hop
            rw [hbefore, hafter, if_neg (hopening hop)]
      rw [hkeep hlabel.2 hsockets]
      show Custody.Step _ (operation.label (some ⟨rv, MINIMK_SOCKET_INVALID, amount⟩)) _
      rw [hlabel.1]
      exact .keep
  | @destroyed sock rv hoperation =>
      obtain ⟨hbefore, hafter⟩ := (hpasses _ rfl).destroyed sock hoperation
      subst hoperation
      rw [hput, hafter, htable, h.named.handles_forget (h.owned_finds hbefore)]
      exact .release hbefore
  | @issued _ fd info hopening hfilled =>
      obtain ⟨hbefore, hafter⟩ := (hpasses _ rfl).opened hopening
      rw [if_pos rfl] at hafter
      rw [hput, hafter, htable, hfilled.handles]
      show Custody.Step _ (operation.label (some _)) _
      rw [Operation.label_opening hopening, if_pos rfl]
      exact .acquire hbefore (hfilled.fresh h.named)

-- Code destroys its own handle.
theorem Invariant.destroys {sock : UInt64} (h : server.Invariant entries gone)
    (hcall : server.call entries ctx = some (.operation (.destroy sock))) :
    server.owned entries ctx = some sock := by
  let result : Result := ⟨.success, MINIMK_SOCKET_INVALID, none⟩
  cases ctx with
  | none => exact ((@MainPoint.returned_passes _ _ _ result hcall).destroyed sock rfl).1
  | some slot =>
      rw [owned_slot (h.not_vacant hcall)]
      exact ((@RoutinePoint.returned_passes _ _ _ result hcall).destroyed sock rfl).1

-- A turn of one context leaves the entry of another one's operation alone.
theorem Invariant.others_entry {table : SocketTable} {go : Next} {other : Option Slot}
    {info : InfoIdx} {point : Point} (h : server.Invariant entries gone)
    (hcall : server.call entries ctx = some (.operation operation))
    (hends : operation.Ends server.system.table table go)
    (hmain : ctx = none → server.system.machine.pc = .main) (hne : other ≠ ctx)
    (hframe : (server.system.contexts other).frame = .on info point) :
    (table.sockets info).handle = (server.system.table.sockets info).handle ∧
      go ≠ .issued info := by
  have hlive := (h.live other info point hframe).1
  cases hends with
  | call _ hsockets | returned _ _ hsockets => exact ⟨by rw [hsockets], nofun⟩
  | @issued _ fd place _ hfilled =>
      cases hfilled with
      | free hfree _ _ hsockets =>
          have hplace : info ≠ place := by
            rintro rfl
            exact hlive hfree
          refine ⟨by rw [hsockets, Function.update_of_ne hplace], ?_⟩
          rintro ⟨⟩
          exact hplace rfl
  | @destroyed sock rv hoperation =>
      refine ⟨?_, nofun⟩
      have hplace : info ≠ indexOf sock := by
        rintro rfl
        obtain ⟨own, hown, hat⟩ := h.at_call other (by simp [hframe])
        rw [hframe] at hat
        generalize hpoint : Frame.on (indexOf sock) point = frame at hat
        cases hat with
        | createSocket | opened => cases hpoint
        | @on used _ hhandle _ =>
            obtain ⟨hindex, -⟩ := Frame.on.inj hpoint
            have hfinds := h.finds hown hhandle
            have hsame : used = sock := by
              rw [← hfinds.2, ← hindex]
              exact (h.finds hcall (by rw [hoperation]; rfl)).2
            subst hsame
            subst hoperation
            obtain ⟨owner, howned, hwho⟩ := h.handle_owner hown hhandle
            have hsame := h.sound.unique (.context owner) (.context ctx) used howned
              (h.destroys hcall)
            obtain rfl := Owner.context.inj hsame
            rcases hwho with rfl | ⟨rfl, slot, rfl, -⟩
            · exact hne rfl
            · exact h.not_vacant hown (.inl (h.idle_of_main hcall (hmain rfl) slot))
      rw [infoForget, set_sockets, Function.update_of_ne hplace]

theorem settle_serial {before : System} {serial : Nat} {table : SocketTable} {go : Next}
    {info : InfoIdx} (hgo : go ≠ .issued info) :
    (before.settle ctx serial table go).1.serials info = before.serials info := by
  cases go with
  | call | done => rfl
  | issued place =>
      have hne : info ≠ place := fun he => hgo (he ▸ rfl)
      exact Function.update_of_ne hne _ _

-- The steps within an operation of one context.
theorem Invariant.turn {machine : Machine} {files : Finset Int32} {serial : Nat}
    {table : SocketTable} {go : Next} {before : System} (h : server.Invariant entries gone)
    (hreachable : System.Reachable next.system)
    (hbefore : before = { server.system with machine := machine, files := files })
    (hcall : server.call entries ctx = some (.operation operation))
    (hends : operation.Ends server.system.table table go)
    (hlive : ∀ info point, System.Next.frame go = .on info point → server.system.Live info serial)
    (hmain : ctx = none → server.system.machine.pc = .main)
    (hnext : next = server.settle ctx (before.settle ctx serial table go).1
      (before.settle ctx serial table go).2)
    (huntouched : ∀ slot, ctx ≠ some slot → Untouched entries server next slot)
    (hslot : ∀ slot, ctx = some slot → ¬next.Vacant slot)
    (hpc : machine.pc = .main → server.system.machine.pc = .main) :
    Custody.Step (server.custody entries gone)
        (operation.label (before.settle ctx serial table go).2) (next.custody entries gone) ∧
      next.Invariant entries gone := by
  have hmainNext : ctx ≠ none → next.main = server.main := by
    intro hne
    rw [hnext, settle_main hne]
  have hmachine : next.system.machine = machine := by
    rw [hnext, settle_system, System.settle_machine, hbefore]
  have hborrows : ∀ slot, next.borrows entries slot = server.borrows entries slot := by
    intro slot
    by_cases hctx : ctx = some slot
    · subst hctx
      rw [borrows_slot (hslot slot rfl), borrows_slot (h.not_vacant hcall), hnext, settle_borrowed]
    · exact (huntouched slot hctx).borrows
  have hused : ∀ slot, machine.conts slot ≠ .idle → server.system.machine.conts slot ≠ .idle := by
    intro slot hidle
    by_cases hctx : ctx = some slot
    · subst hctx
      exact fun hc => h.not_vacant hcall (.inl hc)
    · intro hc
      rw [← hmachine] at hidle
      exact hidle ((huntouched slot hctx).idle hc)
  have hcontexts : ∀ other ≠ ctx, next.system.contexts other = server.system.contexts other := by
    intro other hne
    rw [hnext, settle_system, System.settle_contexts_of_ne hne, hbefore]
  have hself : next.system.contexts ctx = ⟨System.Next.frame go, serial⟩ := by
    rw [hnext, settle_system, System.settle_contexts, Function.update_self]
  have hstep : Custody.Step (server.custody entries gone)
      (operation.label (before.settle ctx serial table go).2) (next.custody entries gone) := by
    apply h.turn_custody hcall hends hnext
    · intro other hne
      cases other with
      | none => simp only [owned, hmainNext hne.symm]
      | some slot => exact (huntouched slot hne.symm).owned
    · intro hnone
      rw [hnone] at hnext
      cases ctx with
      | none => rw [hnext]; rfl
      | some slot =>
          rw [owned_slot (hslot slot rfl), owned_slot (h.not_vacant hcall), hnext]
          rfl
    · rintro slot rfl
      have hvacant := hslot slot rfl
      rw [hbefore]
      intro hfresh
      exact hvacant (.inr (.inl (by rw [hmachine]; exact hfresh)))
  refine ⟨hstep, hreachable, hstep.sound h.sound, ?_, ?_, ?_, ?_, ?_⟩
  · intro other hframe
    by_cases hctx : other = ctx
    · subst hctx
      rw [hself] at hframe ⊢
      cases hends with
      | call hat =>
          refine ⟨operation, ?_, hat⟩
          rw [hnext]
          exact (settle_call (.inr rfl)).trans hcall
      | returned | destroyed | issued => exact absurd rfl hframe
    · rw [hcontexts other hctx] at hframe ⊢
      obtain ⟨own, hown, hat⟩ := h.at_call other hframe
      refine ⟨own, ?_, hat⟩
      rw [hnext, settle_call (.inl hctx)]
      exact hown
  · intro other info point hframe
    have hserials : go ≠ .issued info →
        next.system.serials info = server.system.serials info := by
      intro hgo
      rw [hnext, settle_system, settle_serial hgo, hbefore]
    have htable : next.system.table = table := by
      rw [hnext, settle_system, System.settle_table]
    by_cases hctx : other = ctx
    · subst hctx
      rw [hself] at hframe ⊢
      have hbound := hlive info point hframe
      cases hends with
      | call _ hsockets =>
          exact ⟨by rw [htable, hsockets]; exact hbound.1, (hserials (by simp)).trans hbound.2⟩
      | returned | destroyed | issued => cases hframe
    · rw [hcontexts other hctx] at hframe ⊢
      have hbound := h.live other info point hframe
      obtain ⟨hhandle, hgo⟩ := h.others_entry hcall hends hmain hctx hframe
      exact ⟨by rw [htable, hhandle]; exact hbound.1, (hserials hgo).trans hbound.2⟩
  · intro slot hvacant
    by_cases hctx : ctx = some slot
    · exact absurd hvacant (hslot slot hctx)
    · rw [(huntouched slot hctx).routine]
      exact h.absent slot ((huntouched slot hctx).vacant hvacant)
  · intro slot hidle
    rw [hmachine] at hidle ⊢
    have hne : ctx ≠ none := by
      rintro rfl
      exact hused slot hidle (h.idle_of_main hcall (hmain rfl) slot)
    rw [hmainNext hne]
    obtain ⟨sock, hrun | ⟨hdestroy, hloop⟩⟩ := h.looping slot (hused slot hidle)
    · exact ⟨sock, .inl hrun⟩
    · exact ⟨sock, .inr ⟨hdestroy, fun hlater => hloop (hpc hlater)⟩⟩
  · intro slot sock hsock
    rw [hborrows] at hsock
    have hne : ctx ≠ none := by
      rintro rfl
      have hidle := h.idle_of_main hcall (hmain rfl) slot
      simp [borrows, hidle, h.absent slot (.inl hidle), RoutinePoint.borrowed] at hsock
    rw [hmainNext hne]
    exact h.borrowed slot sock hsock

theorem mainAfter_none {point : MainPoint} (hresult : event.output.result = none)
    (hcall : ∀ call, event.action.call = some call → ∃ operation, call = .operation operation) :
    mainAfter point event = point := by
  simp only [mainAfter, hresult]
  split
  · contradiction
  · rename_i haction
    obtain ⟨_, ⟨⟩⟩ := hcall _ (by rw [haction]; rfl)
  · rename_i haction
    obtain ⟨_, ⟨⟩⟩ := hcall _ (by rw [haction]; rfl)
  · rfl

theorem routineAfter_none {point : RoutinePoint} (hresult : event.output.result = none)
    (hcall : ∀ call, event.action.call = some call → ∃ operation, call = .operation operation)
    (hstarts : ∀ serial entry argument,
      event.output.runtime ≠ some (.resumed serial (.entryStarts entry argument))) :
    routineAfter entries point event = point := by
  simp only [routineAfter, hresult]
  split
  · contradiction
  · rename_i haction
    obtain ⟨_, ⟨⟩⟩ := hcall _ (by rw [haction]; rfl)
  · rename_i haction
    obtain ⟨_, ⟨⟩⟩ := hcall _ (by rw [haction]; rfl)
  · rename_i hruntime _ _
    exact absurd hruntime (hstarts _ _ _)
  · rfl

-- Within an operation the code goes on with the result.
theorem advance_settle (hacting : server.acting system = some ctx)
    (hcall : ∀ call, event.action.call = some call → ∃ operation, call = .operation operation)
    (hstarts : ∀ serial entry argument,
      event.output.runtime ≠ some (.resumed serial (.entryStarts entry argument))) :
    server.advance entries event system = server.settle ctx system event.output.result := by
  have hproceed : server.advance entries event system =
      server.proceed entries event system ctx := by
    simp only [advance, hacting]
  rw [hproceed]
  cases hresult : event.output.result with
  | none =>
      cases ctx with
      | none => simp [proceed, settle, mainAfter_none hresult hcall]
      | some slot => simp [proceed, settle, routineAfter_none hresult hcall hstarts]
  | some result => cases ctx <;> simp [proceed, settle, mainAfter, routineAfter, hresult]

theorem Untouched.same (hmachine : next.system.machine = server.system.machine)
    (hroutine : next.routines slot = server.routines slot) :
    Untouched entries server next slot where
  routine := hroutine
  vacant := by simp only [Vacant, hmachine, imp_self]
  idle := by rw [hmachine]; exact id
  owned := by simp only [Server.owned, hmachine, hroutine]
  borrows := by simp only [Server.borrows, hmachine, hroutine]

theorem Invariant.started {table : SocketTable} {go : Next} (h : server.Invariant entries gone)
    (hrunning : server.system.running = some ctx)
    (hcall : server.call entries ctx = some (.operation operation))
    (hstart : operation.start server.system.table = .ok (table, go))
    (hnext : next = server.settle ctx
      (server.system.settle ctx (server.system.serialOf go) table go).1
      (server.system.settle ctx (server.system.serialOf go) table go).2)
    (hreachable : System.Reachable next.system) :
    Custody.Step (server.custody entries gone) (operation.label
        (server.system.settle ctx (server.system.serialOf go) table go).2)
        (next.custody entries gone) ∧ next.Invariant entries gone := by
  have hretimes : operation.retimes = false := by
    cases ctx with
    | none => exact MainPoint.call_retimes hcall
    | some slot => exact RoutinePoint.call_retimes hcall
  obtain ⟨frame, rfl, rfl, hidle, hat⟩ :=
    Operation.start_at (fun _ hhandle => h.finds hcall hhandle) hretimes hstart
  have hmachine : next.system.machine = server.system.machine := by
    rw [hnext, settle_system, System.settle_machine]
  refine h.turn hreachable rfl hcall (.call hat rfl) ?_ ?_ hnext ?_ ?_ id
  · rintro info point (rfl : frame = _)
    generalize hpoint : Frame.on info point = frame at hat
    cases hat with
    | createSocket | opened => cases hpoint
    | on hhandle _ =>
        obtain ⟨rfl, -⟩ := Frame.on.inj hpoint
        exact ⟨(h.finds hcall hhandle).handle_ne_zero, rfl⟩
  · rintro rfl
    rcases System.running_eq_some hrunning with ⟨hpc, -⟩ | ⟨slot, -, -, hnone⟩
    · exact hpc
    · cases hnone
  · intro slot hne
    exact .same hmachine (by rw [hnext, settle_routine hne])
  · rintro slot rfl
    have hvacant := h.not_vacant hcall
    simpa [Vacant, hmachine] using hvacant

-- An operation that goes on with its entry has been there before.
theorem Invariant.turn_live {reply : Reply} {table : SocketTable} {go : Next} {info : InfoIdx}
    {point : Point} (h : server.Invariant entries gone)
    (hframe : (server.system.contexts ctx).frame ≠ .idle)
    (hresume : (server.system.contexts ctx).frame.resume server.system.table reply =
      .ok (table, go))
    (hgo : System.Next.frame go = .on info point) :
    server.system.Live info (server.system.contexts ctx).serial := by
  obtain ⟨before, hbefore, -⟩ := System.turn_again (Frame.resume_turn hframe hresume) hgo
  exact h.live ctx info before hbefore

theorem Invariant.replied {reply : Reply} {request : Request} {files : Finset Int32}
    {table : SocketTable} {go : Next} (h : server.Invariant entries gone)
    (hrunning : server.system.running = some ctx)
    (hrequest : (server.system.contexts ctx).frame.request server.system.table = some request)
    (hresume : (server.system.contexts ctx).frame.resume server.system.table reply =
      .ok (table, go))
    (hnext : next = server.settle ctx
      (({ server.system with files := files } : System).settle ctx
        (server.system.contexts ctx).serial table go).1
      (({ server.system with files := files } : System).settle ctx
        (server.system.contexts ctx).serial table go).2)
    (hreachable : System.Reachable next.system) :
    ∃ operation, server.call entries ctx = some (.operation operation) ∧
      Custody.Step (server.custody entries gone) (operation.label
        (({ server.system with files := files } : System).settle ctx
          (server.system.contexts ctx).serial table go).2) (next.custody entries gone) ∧
      next.Invariant entries gone := by
  have hframe := Frame.ne_idle_of_request hrequest
  obtain ⟨operation, hcall, hat⟩ := h.at_call ctx hframe
  have hmachine : next.system.machine = server.system.machine := by
    rw [hnext, settle_system, System.settle_machine]
  refine ⟨operation, hcall, h.turn hreachable rfl hcall (hat.ends hresume)
    (fun _ _ => h.turn_live hframe hresume) ?_ hnext ?_ ?_ id⟩
  · rintro rfl
    rcases System.running_eq_some hrunning with ⟨hpc, -⟩ | ⟨slot, -, -, hnone⟩
    · exact hpc
    · cases hnone
  · intro slot hne
    exact .same hmachine (by rw [hnext, settle_routine hne])
  · rintro slot rfl
    have hvacant := h.not_vacant hcall
    simpa [Vacant, hmachine] using hvacant

-- What a suspension has returned cannot end a call of close or open a socket.
theorem Invariant.resumed {action : Runtime.Action} {serial : Nat} {rv : Error}
    {machine : Machine} {table : SocketTable} {go : Next} (h : server.Invariant entries gone)
    (hs : Machine.Step server.system.machine ⟨action, .resumed serial (.suspendIoReturns rv)⟩
      machine)
    (hcurrent : server.system.machine.sched.current = some slot)
    (hframe : (server.system.contexts (some slot)).frame ≠ .idle)
    (hresume : (server.system.contexts (some slot)).frame.resume server.system.table
      ⟨rv, -1, 0, .success⟩ = .ok (table, go))
    (hnext : next = server.settle (some slot)
      (({ server.system with machine := machine } : System).settle (some slot)
        (server.system.contexts (some slot)).serial table go).1
      (({ server.system with machine := machine } : System).settle (some slot)
        (server.system.contexts (some slot)).serial table go).2)
    (hreachable : System.Reachable next.system) :
    Custody.Step (server.custody entries gone) .keep (next.custody entries gone) ∧
      next.Invariant entries gone := by
  obtain ⟨operation, hcall, hat⟩ := h.at_call (some slot) hframe
  obtain ⟨hswitch, hpc, hnow⟩ := System.switched hs
  have hmachine : next.system.machine = machine := by
    rw [hnext, settle_system, System.settle_machine]
  have hends := hat.ends hresume
  have hlabel : operation.label (({ server.system with machine := machine } : System).settle
      (some slot) (server.system.contexts (some slot)).serial table go).2 = .keep := by
    obtain ⟨info, point, direction, sock, hon, hawaits, -⟩ := h.linked.awaits hs hframe
    have hturn := Frame.resume_turn hframe hresume
    rw [hon] at hat hturn
    cases hends with
    | call => exact Operation.label_none _
    | returned hopening hdestroy => exact Operation.label_returned hopening hdestroy
    | destroyed hoperation =>
        subst hoperation
        obtain rfl := hat.closes
        cases hawaits
    | issued => cases hturn
  have hbefore : ({ server.system with machine := machine } : System) =
      { server.system with machine := machine, files := server.system.files } := rfl
  have hturn := h.turn hreachable hbefore hcall hends
    (fun _ _ => h.turn_live hframe hresume) nofun hnext ?_ ?_ (by simp [hpc])
  · rw [hlabel] at hturn
    exact hturn
  · intro other hne
    refine .of_step h.machine (hmachine ▸ hs) (by rw [hnext, settle_routine hne]) ?_ ?_ ?_
    · rw [hmachine]
      exact fresh_before h.machine hs fun _ => rfl
    · exact fun _ => rfl
    · intro _
      cases action <;> rfl
  · rintro other ⟨⟩
    have hrunning : next.system.machine.conts slot = .running := by
      rw [(System.Reachable.linked hreachable).machine.running slot, hmachine, hnow]
      exact ⟨hpc, hcurrent⟩
    simp [Vacant, hrunning]

end Turn

end Server

end Minimk.Socket
