import Minimk.Runtime.Wakeup.Outcome
import Minimk.Socket.Liveness
import Minimk.Socket.System.Invariant

namespace Minimk.Socket

open Abort Minimk.Runtime SocketTable

theorem Point.request_fd (info : SocketInfo) (point : Point) :
    (point.request info).fd = some info.fd := by
  cases point with
  | transferCall direction count => cases direction <;> rfl
  | _ => rfl

theorem switch_iff_resumed {m machine : Machine} {action : Runtime.Action}
    {output : Runtime.Output} (hstep : Machine.Step m ⟨action, output⟩ machine) :
    (∃ sp, action = .switch sp) ↔ ∃ serial how, output = .resumed serial how := by
  cases hstep.move <;> simp [Machine.clean]

theorem suspended_pc {m machine : Machine} {direction : Direction} {fd : Int32}
    {nanosec now sp : UInt64} {output : Runtime.Output}
    (hstep : Machine.Step m ⟨.suspendIo direction fd nanosec now sp, output⟩ machine) :
    machine.pc = .loopTest := by
  cases hstep.move
  rfl

-- A woken coroutine learns from its saved revents how its wait has ended.
theorem switched_result {m machine : Machine} {action : Runtime.Action} {slot : Slot}
    {serial : Nat} {how : Resumed} {sock : Int32} {events : Int16} (h : m.Invariant)
    (hstep : Machine.Step m ⟨action, .resumed serial how⟩ machine)
    (hcurrent : m.sched.current = some slot) (hconts : m.conts slot = .waiting sock events) :
    how = .suspendIoReturns (Coroutine.ioResult (m.sched.coroutines slot).revents events) := by
  have hmove := hstep.move
  generalize hev : (⟨action, .resumed serial how⟩ : Runtime.Event) = event at hmove
  cases hmove with
  | @resumed _ other coro how _ hother hresume =>
      simp only [Runtime.Event.mk.injEq, Runtime.Output.resumed.injEq] at hev
      obtain ⟨-, -, rfl⟩ := hev
      obtain rfl := Option.some.inj (hother.symm.trans hcurrent)
      have hslot := h.slots other
      rw [hconts] at hslot
      rcases hslot with hwaiting | hwoken
      · have hrunnable := h.picked other hcurrent
        rw [hwaiting.state] at hrunnable
        cases hrunnable
      · exact Machine.resume_waiting hconts hwoken.deadline hwoken.sock hwoken.events hresume
  | clean => cases hev
  | _ => cases hev

namespace System

variable {s next : System} {event : Event} {log : List Event} {ctx : Option Slot}

-- An entry keeps the descriptor that its handle was issued with.
def Bound (s : System) : Prop :=
  ∀ info, (s.table.sockets info).handle ≠ 0 →
    s.bound[s.serials info]? = some (s.table.sockets info).fd

-- The handle of the operation that runs is live.
def Secure (s : System) : Prop :=
  ∀ ctx info point, s.running = some ctx → (s.contexts ctx).frame = .on info point →
    s.Live info (s.contexts ctx).serial

theorem Bound.of_eq (h : s.Bound) (hbound : next.bound = s.bound)
    (hserials : next.serials = s.serials)
    (hsockets : ∀ info, (next.table.sockets info).handle ≠ 0 →
      (next.table.sockets info).handle = (s.table.sockets info).handle ∧
        (next.table.sockets info).fd = (s.table.sockets info).fd) : next.Bound := by
  intro info hne
  obtain ⟨hhandle, hfd⟩ := hsockets info hne
  rw [hbound, hserials, hfd]
  exact h info (hhandle ▸ hne)

-- A new entry gets the next serial, and the earlier ones keep theirs.
theorem Bound.issued {serial : Nat} {files : Finset Int32} {table : SocketTable} {fd : Int32}
    {info : InfoIdx} (h : s.Bound) (hfilled : s.table.Filled fd table (some info)) :
    ({ s with files := files }.settle ctx serial table (.issued info)).1.Bound := by
  cases hfilled with
  | free hfree htype hindex hsockets =>
      intro other hne
      by_cases he : other = info
      · subst he
        simp [System.settle]
      · have hsame : table.sockets other = s.table.sockets other := by simp [hsockets, he]
        have hold : (s.table.sockets other).handle ≠ 0 := by
          rw [settle_table, hsame] at hne
          exact hne
        have hget := h other hold
        have hlt : s.serials other < s.bound.length := by
          by_contra hge
          rw [List.getElem?_eq_none (by omega)] at hget
          cases hget
        simp only [System.settle, Function.update_of_ne he]
        rw [List.getElem?_append_left hlt, hget, hsame]

theorem settle_bound {serial : Nat} {table : SocketTable} {go : Next}
    (hgo : ∀ info, go ≠ .issued info) : (s.settle ctx serial table go).1.bound = s.bound := by
  cases go with
  | issued info => exact absurd rfl (hgo info)
  | call | done => rfl

theorem settle_serials {serial : Nat} {table : SocketTable} {go : Next}
    (hgo : ∀ info, go ≠ .issued info) :
    (s.settle ctx serial table go).1.serials = s.serials := by
  cases go with
  | issued info => exact absurd rfl (hgo info)
  | call | done => rfl

theorem Bound.turn {reply : Reply} {frame : Frame} {table : SocketTable} {go : Next}
    {files : Finset Int32} {serial : Nat} (h : s.Bound)
    (hturn : Turn s.table reply frame table go) :
    ({ s with files := files }.settle ctx serial table go).1.Bound := by
  cases hturn with
  | stored hfilled => exact h.issued hfilled
  | full hsockets =>
      refine h.of_eq (settle_bound (by simp)) (settle_serials (by simp)) fun info _ => ?_
      rw [settle_table, hsockets]
      exact ⟨rfl, rfl⟩
  | @destroyed idx =>
      refine h.of_eq (settle_bound (by simp)) (settle_serials (by simp)) fun info hne => ?_
      rw [settle_table] at hne ⊢
      by_cases he : info = idx
      · subst he
        simp [infoForget, SocketInfo.zero] at hne
      · simp [infoForget, he]
  | _ =>
      refine h.of_eq (settle_bound (by simp)) (settle_serials (by simp)) fun info _ => ?_
      rw [settle_table]
      exact ⟨rfl, rfl⟩

theorem Move.bound (hm : Move s event next) (h : s.Bound) : next.Bound := by
  cases hm with
  | runtime | suspended => exact h
  | @resumed _ slot serial rv machine table go hstep hcurrent hframe hresume =>
      have hbound : { s with machine := machine }.Bound := h
      exact hbound.turn (Frame.resume_turn hframe hresume)
  | replied hrunning hrequest hkernel hresume =>
      exact h.turn (Frame.resume_turn (Frame.ne_idle_of_request hrequest) hresume)
  | started hrunning hframe hstart =>
      cases Operation.start_started hstart with
      | returned | socket | found =>
          refine h.of_eq (settle_bound (by simp)) (settle_serials (by simp)) fun info _ => ?_
          rw [settle_table]
          exact ⟨rfl, rfl⟩
      | @retimed _ idx entry hhandle hfd =>
          refine h.of_eq (settle_bound (by simp)) (settle_serials (by simp)) fun info _ => ?_
          rw [settle_table]
          by_cases he : info = idx
          · subst he
            simp [hhandle, hfd]
          · simp [he]

theorem Reachable.bound (h : Reachable s) : s.Bound := by
  refine Transition.Reachable.invariant_from ?_ ?_ h
  · exact fun info hne => absurd rfl hne
  · exact fun _ _ _ ih hs => hs.move.bound ih

-- The switch to an operation that waits is its return from the suspension.
theorem Step.switchedBack {sp : UInt64} {slot : Slot} {info : InfoIdx} {point : Point}
    (h : s.Linked) (hs : Step s event next) (haction : event.action = .runtime (.switch sp))
    (hcurrent : s.machine.sched.current = some slot)
    (hframe : (s.contexts (some slot)).frame = .on info point) :
    ∃ direction rv machine table go, point.awaits = some direction ∧
      rv = Coroutine.ioResult (s.machine.sched.coroutines slot).revents direction.events ∧
      Turn s.table ⟨rv, -1, 0, .success⟩ (.on info point) table go ∧
      next = ({ s with machine := machine }.settle (some slot)
        (s.contexts (some slot)).serial table go).1 ∧
      event.output.request = none ∧
      event.output.result = ({ s with machine := machine }.settle (some slot)
        (s.contexts (some slot)).serial table go).2 := by
  have hidle : (s.contexts (some slot)).frame ≠ .idle := by simp [hframe]
  cases hs.move with
  | runtime _ hstep hback =>
      obtain rfl := Action.runtime.inj haction
      obtain ⟨serial, how, rfl⟩ := (switch_iff_resumed hstep).mp ⟨sp, rfl⟩
      obtain ⟨-, -, direction, sock, -, -, hconts⟩ := h.awaits hstep hidle
      obtain rfl := switched_result h.machine hstep hcurrent hconts
      simp [switchBack, hcurrent, hidle] at hback
  | @resumed _ other _ rv machine table go hstep hother hne hresume =>
      obtain rfl := Option.some.inj (hother.symm.trans hcurrent)
      obtain ⟨info', point', direction, sock, hon, hawaits, hconts⟩ := h.awaits hstep hidle
      obtain ⟨rfl, rfl⟩ : info = info' ∧ point = point' := by simpa [hframe] using hon
      have hhow := switched_result h.machine hstep hcurrent hconts
      have hturn := Frame.resume_turn hne hresume
      rw [hframe] at hturn
      exact ⟨direction, rv, machine, table, go, hawaits, Resumed.suspendIoReturns.inj hhow, hturn,
        rfl, rfl, rfl⟩
  | started | replied | suspended => cases haction

theorem ioResult_eq_success_iff {revents events : Int16} :
    Coroutine.ioResult revents events = .success ↔
      revents &&& events ≠ 0 ∨ revents &&& POLLERR ≠ 0 := by
  unfold Coroutine.ioResult
  split_ifs with h
  · simpa using h
  · simpa using h

-- An operation goes on with an entry only from the same entry.
theorem turn_again {table after : SocketTable} {reply : Reply} {frame : Frame} {go : Next}
    {info : InfoIdx} {later : Point} (h : Turn table reply frame after go)
    (hgo : Next.frame go = .on info later) :
    ∃ point, frame = .on info point ∧ after = table ∧ go = .call (.on info later) ∧
      (point.suspends = true → reply.rv = .success) := by
  cases h with
  | again _ _ _ hsuspends =>
      obtain ⟨rfl, rfl⟩ : _ ∧ _ := by simpa [Next.frame] using hgo
      exact ⟨_, rfl, rfl, rfl, fun hs => (hsuspends hs).1⟩
  | _ => cases hgo

-- A quiet step lets an operation go on with its entry only where its handle is live.
theorem Step.secure (h : s.Linked) (hsecure : s.Secure) (hs : Step s event next)
    (hquiet : s.Quiet event.action) : next.Secure := by
  intro ctx info point hrunning hframe
  have hmove := hs.move
  have hlinked := hmove.linked h
  cases hmove with
  | runtime hidle hstep hback =>
      have hon : (s.contexts ctx).frame = .on info point := hframe
      exfalso
      rcases h.frames ctx (by simp [hon]) with hnow | hsuspended
      · rw [hidle ctx hnow] at hon
        cases hon
      · have hkept := @Suspended.keep _ { s with machine := _ } _ _ hsuspended h.machine hstep rfl
        rcases hkept with hkeep | ⟨slot, serial, rv, rfl, rfl, hcurrent⟩
        · exact hlinked.not_suspended hrunning hkeep
        · simp [switchBack, hcurrent, hon] at hback
  | @resumed action slot serial rv machine table go hstep hcurrent hne hresume =>
      obtain ⟨-, hpc, hnow⟩ := switched hstep
      obtain rfl : some slot = ctx := by
        simpa [running, hpc, hnow, hcurrent] using hrunning
      rw [settle_frame_self] at hframe
      obtain ⟨before, hbefore, rfl, rfl, hrv⟩ := turn_again (Frame.resume_turn hne hresume) hframe
      obtain ⟨info', point', direction, sock, hon, hawaits, hconts⟩ := h.awaits hstep hne
      obtain ⟨rfl, rfl⟩ : info = info' ∧ before = point' := by simpa [hbefore] using hon
      have hhow := switched_result h.machine hstep hcurrent hconts
      have hsuccess : rv = .success := hrv (by simp [Point.suspends, hawaits])
      have hlive : s.Live info (s.contexts (some slot)).serial := by
        by_contra hdead
        obtain ⟨sp, rfl⟩ := (switch_iff_resumed hstep).mpr ⟨serial, _, rfl⟩
        obtain ⟨hevents, herr⟩ := hquiet sp slot info before direction rfl hcurrent hbefore hawaits
          hdead
        obtain rfl := Resumed.suspendIoReturns.inj hhow
        rcases ioResult_eq_success_iff.mp hsuccess with hset | hset
        · exact hset hevents
        · exact hset herr
      simpa [Live, System.settle] using hlive
  | @started other operation table go hother hidle hstart =>
      rw [settle_running, hother] at hrunning
      obtain rfl := Option.some.inj hrunning
      rw [settle_frame_self] at hframe
      cases Operation.start_started hstart with
      | found hfinds _ =>
          obtain ⟨rfl, rfl⟩ : _ ∧ _ := by simpa [Next.frame] using hframe
          simpa [Live, System.settle, serialOf] using hfinds.handle_ne_zero
      | returned | retimed | socket => cases hframe
  | @replied other reply request files table go hother hrequest hkernel hresume =>
      rw [settle_running] at hrunning
      obtain rfl := Option.some.inj (hother.symm.trans hrunning)
      rw [settle_frame_self] at hframe
      have hturn := Frame.resume_turn (Frame.ne_idle_of_request hrequest) hresume
      obtain ⟨before, hbefore, rfl, rfl, -⟩ := turn_again hturn hframe
      have hlive := hsecure other info before hother hbefore
      simpa [Live, System.settle] using hlive
  | @suspended other now sp nanosec direction fd output machine hother hrequest hstep =>
      simp [running, suspended_pc hstep] at hrunning

-- The calls of a secure operation are on the descriptor of its handle.
theorem Step.calls (hbound : s.Bound) (hsecure : s.Secure) (hs : Step s event next)
    {info : InfoIdx} {point : Point} {request : Request} (hrunning : s.running = some ctx)
    (hframe : (s.contexts ctx).frame = .on info point)
    (hrequest : event.output.request = some request) :
    s.Live info (s.contexts ctx).serial ∧ request.fd = s.bound[(s.contexts ctx).serial]? := by
  have hlive := hsecure ctx info point hrunning hframe
  refine ⟨hlive, ?_⟩
  have hfd : request.fd = some (s.table.sockets info).fd := by
    cases hs.move with
    | runtime | resumed | started => cases hrequest
    | replied hother hcall | suspended hother hcall =>
        obtain rfl := Option.some.inj (hrunning.symm.trans hother)
        obtain rfl := Option.some.inj hrequest
        rw [hframe] at hcall
        rw [← Option.some.inj hcall]
        exact point.request_fd _
  rw [hfd, ← hlive.2, hbound info hlive.1]

theorem Step.conforms (h : s.Linked) (hbound : s.Bound) (hsecure : s.Secure)
    (hs : Step s event next) (hquiet : s.Quiet event.action) : Conforms s event next where
  calls := fun ctx info point request hrunning hframe hrequest =>
    hs.calls hbound hsecure hrunning hframe hrequest
  dead := by
    intro sp slot info point haction hcurrent hframe hdead
    obtain ⟨direction, rv, machine, table, go, hawaits, hrv, hturn, rfl, hrequest, hresult⟩ :=
      hs.switchedBack h haction hcurrent hframe
    obtain ⟨hevents, herr⟩ := hquiet sp slot info point direction haction hcurrent hframe hawaits
      hdead
    have hfailed : rv ≠ .success := by
      rw [hrv, ne_eq, ioResult_eq_success_iff]
      simp [hevents, herr]
    refine ⟨hrequest, ?_⟩
    cases hturn with
    | again _ _ _ hsuspends =>
        exact absurd (hsuspends (by simp [Point.suspends, hawaits])).1 hfailed
    | @done _ _ code amount _ _ hsuspends =>
        obtain ⟨-, rfl⟩ := hsuspends (by simp [Point.suspends, hawaits])
        rw [settle_frame_self]
        exact ⟨rfl, _, hresult, hfailed⟩
    | accepted | destroyed => cases hawaits

-- An operation that is woken by an event, or by an error, goes on with its entry.
theorem Step.quiet (h : s.Linked) (hs : Step s event next) (hconforms : Conforms s event next) :
    s.Quiet event.action := by
  intro sp slot info point direction haction hcurrent hframe hawaits hdead
  obtain ⟨-, hidle, result, hreturn, hrv⟩ :=
    hconforms.dead sp slot info point haction hcurrent hframe hdead
  obtain ⟨direction', rv, machine, table, go, hawaits', hcode, hturn, rfl, -, hresult⟩ :=
    hs.switchedBack h haction hcurrent hframe
  obtain rfl := Option.some.inj (hawaits.symm.trans hawaits')
  have hfailed : rv ≠ .success := by
    rw [hresult] at hreturn
    cases hturn with
    | again => cases hreturn
    | done _ _ hsuspends => exact (hsuspends (by simp [Point.suspends, hawaits])).1
    | accepted | destroyed => cases hawaits
  rw [hcode, ne_eq, ioResult_eq_success_iff] at hfailed
  simpa using hfailed

theorem QuietRun.run (h : QuietRun log s) : Run log s :=
  h.mono fun _ _ _ hs => hs.1

theorem ConformingRun.run (h : ConformingRun log s) : Run log s :=
  h.mono fun _ _ _ hs => hs.1

theorem QuietRun.conforming (h : QuietRun log s) : ConformingRun log s ∧ s.Secure := by
  refine Transition.Run.invariant_from (P := fun log s => ConformingRun log s ∧ s.Secure)
    ?_ ?_ h
  · refine ⟨Transition.Run.start rfl, ?_⟩
    intro ctx info point _ hframe
    cases hframe
  · intro log state event after hr ih hs
    have hreach := (QuietRun.run hr).reachable
    have hlinked := Reachable.linked hreach
    have hconforms := hs.1.conforms hlinked (Reachable.bound hreach) ih.2 hs.2
    exact ⟨ih.1.snoc ⟨hs.1, hconforms⟩, hs.1.secure hlinked ih.2 hs.2⟩

theorem ConformingRun.quiet (h : ConformingRun log s) : QuietRun log s := by
  refine Transition.Run.invariant_from (P := QuietRun) ?_ ?_ h
  · exact Transition.Run.start rfl
  · intro log state event after hr ih hs
    have hlinked := Reachable.linked (ConformingRun.run hr).reachable
    exact ih.snoc ⟨hs.1, hs.1.quiet hlinked hs.2⟩

theorem conformingRun_iff : ConformingRun log s ↔ QuietRun log s :=
  ⟨ConformingRun.quiet, fun h => (QuietRun.conforming h).1⟩

-- A reader waits for its socket; by the time it is switched to, the other coroutine, which was
-- woken by the same poll, has destroyed the handle.
def danglingReader : List Action :=
  let done : Reply := ⟨.success, 3, 0, .success⟩
  let loop (now : UInt64) : List Action :=
    [.runtime .loopTest, .runtime .clean, .runtime (.expire now), .runtime .pick]
  [.start (.create 2 1 0), .reply done, .reply done, .reply done,
    .runtime (.go 1 0 ⟨4096, some 0x10000, true⟩), .runtime (.go 2 0 ⟨4096, some 0x40000, true⟩),
    .runtime .run] ++ loop 0 ++
  [.runtime (.switch 0x9000), .runtime (.nanosleep 10 0 0x1f000)] ++ loop 1 ++
  [.runtime (.switch 0x9000), .start (.recv 0x100000000000000 16),
    .reply ⟨.eagain, -1, 0, .success⟩, .suspend 2 0x4f000] ++ loop 3 ++
  [.runtime (.poll 4 ⟨.success, fun idx => if idx = 1 then POLLIN else 0, 20⟩)] ++ loop 21 ++
  [.runtime (.switch 0x9000), .start (.destroy 0x100000000000000), .reply done,
    .runtime (.ret 0x1f000)] ++ loop 22 ++ [.runtime (.switch 0x9000)]

-- The reader goes on to receive from descriptor 0.
theorem dangling_recv :
    ¬∀ log s event next, Run log s → Step s event next → Conforms s event next := by
  intro hclaim
  have hrun := @after_run danglingReader (by decide +kernel)
  have hrecv : ((initial.after danglingReader).perform (.reply ⟨.success, -1, 5, .success⟩)).map
      (fun step => step.1.output.request) = some (some (.recv 0 16)) := by
    decide +kernel
  obtain ⟨⟨event, next⟩, hperform, hrequest⟩ := Option.map_eq_some_iff.mp hrecv
  have hconforms := hclaim _ _ _ _ hrun (perform_step hperform)
  obtain ⟨-, hfd⟩ := hconforms.calls (some 1) 0 (.transferCall .read 16) _ (by decide +kernel)
    (by decide +kernel) hrequest
  have hbound : (initial.after danglingReader).bound[((initial.after danglingReader).contexts
      (some 1)).serial]? = some 3 := by
    decide +kernel
  rw [hbound] at hfd
  cases hfd

end System

end Minimk.Socket
