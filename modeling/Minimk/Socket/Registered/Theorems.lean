import Minimk.Socket.Call
import Minimk.Socket.Ownership.Theorems
import Minimk.Socket.Liveness.Theorems
import Minimk.Socket.Registered

namespace Minimk.Socket

open Abort Minimk.Runtime SocketTable Transition

-- The calls of its code that an operation may stand at.
inductive Operation.Visits : Operation → Point → Prop
  | accept {sock : UInt64} : Visits (.accept sock) .acceptCall
  | acceptSuspend {sock : UInt64} : Visits (.accept sock) .acceptSuspend
  | recv {sock count : UInt64} : Visits (.recv sock count) (.transferCall .read count)
  | recvSuspend {sock count amount : UInt64} :
      Visits (.recv sock count) (.transferSuspend .read count amount)
  | send {sock count : UInt64} : Visits (.send sock count) (.transferCall .write count)
  | sendSuspend {sock count amount : UInt64} :
      Visits (.send sock count) (.transferSuspend .write count amount)
  | connect {sock : UInt64} {address port : String} :
      Visits (.connect sock address port) (.connectCall address port)
  | connectSuspend {sock : UInt64} {address port : String} :
      Visits (.connect sock address port) .connectSuspend
  | connectGetsockopt {sock : UInt64} {address port : String} :
      Visits (.connect sock address port) .connectGetsockopt
  | destroy {sock : UInt64} : Visits (.destroy sock) .destroyClose
  | bind {sock : UInt64} {address port : String} :
      Visits (.bind sock address port) (.bindCall address port)
  | listen {sock : UInt64} {backlog : Int32} : Visits (.listen sock backlog) (.listenCall backlog)
  | setsockoptReuseaddr {sock : UInt64} :
      Visits (.setsockoptReuseaddr sock) .setsockoptReuseaddrCall

section Visits

variable {operation : Operation} {point later : Point} {table next : SocketTable}
  {info other : InfoIdx} {reply : Reply}

theorem Operation.Visits.calls (h : operation.Visits point) (info : SocketInfo) :
    operation.Calls info.entry (point.request info) := by
  cases h <;> constructor

theorem Operation.Visits.resume (h : operation.Visits point)
    (hlater : (point.resume table info reply).2 = .call (.on other later)) :
    other = info ∧ operation.Visits later := by
  cases h with
  | accept | acceptSuspend | connectSuspend | connectGetsockopt | connect =>
      simp only [Point.resume] at hlater
      split_ifs at hlater <;> cases hlater <;> exact ⟨rfl, by constructor⟩
  | recv | send =>
      simp only [Point.resume] at hlater
      split at hlater <;> cases hlater
      exact ⟨rfl, by constructor⟩
  | recvSuspend | sendSuspend =>
      simp only [Point.resume] at hlater
      split at hlater <;> cases hlater
      exact ⟨rfl, by constructor⟩
  | destroy | bind | listen | setsockoptReuseaddr => cases hlater

-- An operation starts at its first call on the entry of its handle.
theorem onFound_call {sock : UInt64}
    (h : onFound table sock point = .ok (next, .call (.on info later))) :
    info = indexOf sock ∧ later = point := by
  rw [onFound_eq] at h
  split_ifs at h <;> cases h
  exact ⟨rfl, rfl⟩

theorem Operation.visits_start (h : operation.start table = .ok (next, .call (.on info point))) :
    ∃ sock, operation.handle = some sock ∧ info = indexOf sock ∧ operation.Visits point := by
  cases operation with
  | create => cases h
  | destroy sock =>
      simp only [Operation.start, Socket.destroy] at h
      split_ifs at h
      · cases h
      · obtain ⟨rfl, rfl⟩ := onFound_call h
        exact ⟨sock, rfl, rfl, .destroy⟩
  | setReadTimeout sock nanosec =>
      simp only [Operation.start, setReadTimeout_eq] at h
      split_ifs at h <;> cases h
  | setWriteTimeout sock nanosec =>
      simp only [Operation.start, setWriteTimeout_eq] at h
      split_ifs at h <;> cases h
  | accept | recv | send | connect | bind | listen | setsockoptReuseaddr =>
      obtain ⟨rfl, rfl⟩ := onFound_call h
      exact ⟨_, rfl, rfl, by constructor⟩

-- What an operation on a handle without an entry does.
theorem Operation.start_stale {sock : UInt64} {go : Next} (hhandle : operation.handle = some sock)
    (hstale : ¬table.Finds sock) (h : operation.start table = .ok (next, go)) :
    next = table ∧ go = .done (if operation = .destroy MINIMK_SOCKET_INVALID then .success
      else .ebadf) none := by
  cases operation with
  | create => cases hhandle
  | destroy other =>
      obtain rfl := Option.some.inj hhandle
      simp only [Operation.start, Socket.destroy, onFound_eq, if_neg hstale] at h
      split_ifs at h with hinvalid
      · cases h
        simp [hinvalid]
      · cases h
        simp [hinvalid]
  | setReadTimeout other nanosec =>
      obtain rfl := Option.some.inj hhandle
      simp only [Operation.start, setReadTimeout_eq, if_neg hstale] at h
      cases h
      exact ⟨rfl, by simp⟩
  | setWriteTimeout other nanosec =>
      obtain rfl := Option.some.inj hhandle
      simp only [Operation.start, setWriteTimeout_eq, if_neg hstale] at h
      cases h
      exact ⟨rfl, by simp⟩
  | accept | recv | send | connect | bind | listen | setsockoptReuseaddr =>
      obtain rfl := Option.some.inj hhandle
      simp only [Operation.start, Socket.accept, Socket.recv, Socket.send, Socket.connect,
        Socket.bind, Socket.listen, Socket.setsockoptReuseaddr, onFound_eq, if_neg hstale] at h
      cases h
      exact ⟨rfl, by simp⟩

end Visits

namespace System

variable {s next : System} {event : Event} {ctx : Option Slot} {table : SocketTable}
  {turns : List (Transition.Turn System Event)}

theorem Trace.run (h : Trace turns s) : Run (turns.map fun turn => turn.label) s := by
  obtain ⟨first, hfirst, hpath⟩ := h
  exact ⟨first, hfirst, hpath.labels⟩

-- A context that stands at a call on an entry is in its latest operation.
def Tracks (turns : List (Transition.Turn System Event)) (s : System) : Prop :=
  ∀ ctx info point, (s.contexts ctx).frame = .on info point →
    ∃ operation sock, operationOf ctx turns = some operation ∧ operation.handle = some sock ∧
      info = indexOf sock ∧ operation.Visits point

theorem operationOf_skip {turn : Transition.Turn System Event} (h : begins ctx turn = none) :
    operationOf ctx (turn :: turns) = operationOf ctx turns := by
  simp [operationOf, h]

theorem Tracks.same (h : Tracks turns s) {turn : Transition.Turn System Event}
    (hbegins : begins ctx turn = none) (hcontexts : next.contexts ctx = s.contexts ctx)
    {info : InfoIdx} {point : Point} (hframe : (next.contexts ctx).frame = .on info point) :
    ∃ operation sock, operationOf ctx (turn :: turns) = some operation ∧
      operation.handle = some sock ∧ info = indexOf sock ∧ operation.Visits point := by
  rw [operationOf_skip hbegins]
  exact h ctx info point (hcontexts ▸ hframe)

theorem Tracks.resumed (h : Tracks turns s) {turn : Transition.Turn System Event}
    (hbegins : begins ctx turn = none) {reply : Reply} {go : Next}
    (hidle : (s.contexts ctx).frame ≠ .idle)
    (hresume : (s.contexts ctx).frame.resume s.table reply = .ok (table, go))
    {info : InfoIdx} {point : Point} (hframe : Next.frame go = .on info point) :
    ∃ operation sock, operationOf ctx (turn :: turns) = some operation ∧
      operation.handle = some sock ∧ info = indexOf sock ∧ operation.Visits point := by
  obtain ⟨before, hbefore, -, hgo, -⟩ := turn_again (Frame.resume_turn hidle hresume) hframe
  obtain ⟨operation, sock, hlatest, hhandle, rfl, hvisits⟩ := h ctx info before hbefore
  rw [hbefore, Frame.resume, Except.ok.injEq] at hresume
  have hlater := congrArg Prod.snd hresume
  dsimp only at hlater
  rw [hgo] at hlater
  obtain ⟨-, hlater⟩ := hvisits.resume hlater
  rw [operationOf_skip hbegins]
  exact ⟨operation, sock, hlatest, hhandle, rfl, hlater⟩

theorem Tracks.step (h : Tracks turns s) (hs : Step s event next) :
    Tracks (⟨s, event, next⟩ :: turns) next := by
  intro ctx info point hframe
  cases hs.move with
  | runtime | suspended => exact h.same rfl rfl hframe
  | @resumed action slot serial rv machine after go hstep hcurrent hidle hresume =>
      by_cases hctx : ctx = some slot
      · subst hctx
        rw [settle_frame_self] at hframe
        exact h.resumed rfl hidle hresume hframe
      · rw [settle_contexts_of_ne hctx] at hframe
        exact h.same rfl rfl hframe
  | @replied other reply request files after go hrunning hrequest hkernel hresume =>
      by_cases hctx : ctx = other
      · subst hctx
        rw [settle_frame_self] at hframe
        exact h.resumed rfl (Frame.ne_idle_of_request hrequest) hresume hframe
      · rw [settle_contexts_of_ne hctx] at hframe
        exact h.same rfl rfl hframe
  | @started other operation after go hrunning hidle hstart =>
      by_cases hctx : ctx = other
      · subst hctx
        rw [settle_frame_self] at hframe
        have hgo := @Next.eq_call_of_frame go (by simp [hframe])
        rw [hgo, hframe] at hstart
        obtain ⟨sock, hhandle, hinfo, hvisits⟩ := Operation.visits_start hstart
        exact ⟨operation, sock, by simp [operationOf, begins, hrunning], hhandle, hinfo, hvisits⟩
      · rw [settle_contexts_of_ne hctx] at hframe
        exact h.same (by simp [begins, hrunning, Ne.symm hctx]) rfl hframe

theorem Trace.tracks (h : Trace turns s) : Tracks turns s := by
  refine Transition.Run.invariant_from (P := Tracks) ?_ ?_ h
  · intro ctx info point hframe
    cases hframe
  · rintro log state ⟨before, event, after⟩ next - ih ⟨rfl, rfl, hs⟩
    exact ih.step hs

-- What a step does to the table is a call into the table, if anything.
def Handles (s : System) (event : Event) (table : SocketTable) : Prop :=
  s.tableCall event = none ∧ table = s.table ∨
    ∃ call, s.tableCall event = some call ∧ SocketTable.Step s.table call table

theorem tableOutput_settle {serial : Nat} {rv : Error} {amount : Option UInt64} :
    tableOutput (s.settle ctx serial table (.done rv amount)).2 =
      if rv = .success then .done else .failed rv := rfl

theorem started_handles {operation : Operation} {go : Next} {request : Option Request}
    {output : Option Runtime.Output} (hstart : operation.start s.table = .ok (table, go)) :
    Handles s ⟨.start operation, ⟨request, (s.settle ctx (s.serialOf go) table go).2, output⟩⟩
      table := by
  have hstarted := Operation.start_started hstart
  cases operation with
  | setReadTimeout sock nanosec =>
      obtain ⟨⟨rv, after⟩, hset, hout⟩ := (bind_eq_ok_iff _ _ _).mp hstart
      simp only [pure_eq_ok, Except.ok.injEq, Prod.mk.injEq] at hout
      obtain ⟨rfl, rfl⟩ := hout
      refine .inr ⟨_, rfl, ?_⟩
      simp [SocketTable.Step, SocketTable.exec, hset, outcomeOf, tableOutput_settle]
  | setWriteTimeout sock nanosec =>
      obtain ⟨⟨rv, after⟩, hset, hout⟩ := (bind_eq_ok_iff _ _ _).mp hstart
      simp only [pure_eq_ok, Except.ok.injEq, Prod.mk.injEq] at hout
      obtain ⟨rfl, rfl⟩ := hout
      refine .inr ⟨_, rfl, ?_⟩
      simp [SocketTable.Step, SocketTable.exec, hset, outcomeOf, tableOutput_settle]
  | create =>
      simp only [Operation.start, Socket.create, Except.ok.injEq, Prod.mk.injEq] at hstart
      exact .inl ⟨rfl, hstart.1.symm⟩
  | destroy sock =>
      refine .inl ⟨rfl, ?_⟩
      simp only [Operation.start, Socket.destroy, onFound_eq] at hstart
      split_ifs at hstart <;> cases hstart <;> rfl
  | accept | recv | send | connect | bind | listen | setsockoptReuseaddr =>
      refine .inl ⟨rfl, ?_⟩
      simp only [Operation.start, Socket.accept, Socket.recv, Socket.send, Socket.connect,
        Socket.bind, Socket.listen, Socket.setsockoptReuseaddr, onFound_eq] at hstart
      split_ifs at hstart <;> cases hstart <;> rfl

theorem replied_handles {reply : Reply} {request : Option Request} {files : Finset Int32}
    {go : Next} {output : Option Runtime.Output} (h : s.Linked) (hnamed : Named s.table)
    (hrunning : s.running = some ctx) (hidle : (s.contexts ctx).frame ≠ .idle)
    (hresume : (s.contexts ctx).frame.resume s.table reply = .ok (table, go)) :
    Handles s ⟨.reply reply, ⟨request,
      ({ s with files := files }.settle ctx (s.contexts ctx).serial table go).2, output⟩⟩
      table := by
  cases hframe : (s.contexts ctx).frame with
  | idle => exact absurd hframe hidle
  | createSocket domain type protocol =>
      rw [hframe] at hresume
      refine .inl ⟨by simp [tableCall, hrunning, hframe], ?_⟩
      simp only [Frame.resume] at hresume
      split_ifs at hresume <;> cases hresume <;> rfl
  | opened fd point =>
      rw [hframe] at hresume
      cases point with
      | setnonblock =>
          refine .inl ⟨by simp [tableCall, hrunning, hframe], ?_⟩
          simp only [Frame.resume, OpenPoint.resume] at hresume
          split_ifs at hresume <;> cases hresume <;> rfl
      | closesocket rv =>
          cases hresume
          exact .inl ⟨by simp [tableCall, hrunning, hframe], rfl⟩
      | nosigpipe =>
          obtain ⟨⟨rv, found, after⟩, hcreate, hout⟩ := (bind_eq_ok_iff _ _ _).mp hresume
          obtain ⟨-, hrv⟩ := infoCreate_filled hcreate
          refine .inr ⟨_, by simp only [tableCall, hrunning, hframe]; rfl, ?_⟩
          cases found with
          | none =>
              cases hout
              obtain rfl : rv = .emfile := by simpa using hrv
              simp [SocketTable.Step, SocketTable.exec, hcreate, createOutput, settle]
          | some info =>
              cases hout
              simp [SocketTable.Step, SocketTable.exec, hcreate, createOutput, settle]
  | on info point =>
      rw [hframe] at hresume
      simp only [Frame.resume, Except.ok.injEq] at hresume
      have hturn := Point.resume_turn s.table info point reply
      rw [hresume] at hturn
      cases hturn with
      | destroyed =>
          refine .inr ⟨_, by simp only [tableCall, hrunning, hframe]; rfl, ?_⟩
          have hfind := hnamed.infoFind (h.closing ctx info hframe)
          simp [SocketTable.Step, SocketTable.exec, hfind, infoForget, SocketTable.set]
      | again hpoint | done hpoint =>
          refine .inl ⟨?_, rfl⟩
          cases point with
          | destroyClose => exact absurd rfl hpoint
          | _ => simp [tableCall, hrunning, hframe]
      | accepted => exact .inl ⟨by simp [tableCall, hrunning, hframe], rfl⟩

theorem Step.handles (h : s.Linked) (hnamed : Named s.table) (hs : Step s event next) :
    Handles s event next.table := by
  cases hs.move with
  | runtime | suspended => exact .inl ⟨rfl, rfl⟩
  | @resumed action slot serial rv machine after go hstep hcurrent hidle hresume =>
      obtain ⟨info, point, direction, sock, hframe, hawaits, -⟩ := h.awaits hstep hidle
      have hturn := Frame.resume_turn hidle hresume
      rw [hframe] at hturn
      rw [settle_table]
      cases hturn with
      | again | done => exact .inl ⟨rfl, rfl⟩
      | accepted | destroyed => cases hawaits
  | started hrunning hidle hstart =>
      rw [settle_table]
      exact started_handles hstart
  | replied hrunning hrequest hkernel hresume =>
      rw [settle_table]
      exact replied_handles h hnamed hrunning (Frame.ne_idle_of_request hrequest) hresume

theorem Trace.tableCalls (h : Trace turns s) :
    SocketTable.Run (System.tableCalls turns) s.table := by
  refine Transition.Run.invariant_from
    (P := fun turns s => SocketTable.Run (System.tableCalls turns) s.table) ?_ ?_ h
  · exact Transition.Run.start rfl
  · rintro log state ⟨before, event, after⟩ next hr ih ⟨rfl, rfl, hs⟩
    have hreach := (Trace.run hr).reachable
    rcases hs.handles (Reachable.linked hreach) (Reachable.named hreach) with
      ⟨hnone, htable⟩ | ⟨call, hsome, hcall⟩
    · rw [htable]
      simpa [System.tableCalls, hnone] using ih
    · have hcalls : System.tableCalls (⟨before, event, after⟩ :: log) =
          call :: System.tableCalls log := by
        simp [System.tableCalls, hsome]
      rw [hcalls]
      exact ih.snoc hcall

theorem Trace.calls {store : Registry UInt64 Entry} (h : Trace turns s)
    (hrun : Transition.Run Registry.Initial (Registry.Step 256) (handles turns) store)
    (hrep : s.table.Represents store) {info : InfoIdx} {point : Point} {request : Request}
    (hs : Step s event next) (hrunning : s.running = some ctx)
    (hframe : (s.contexts ctx).frame = .on info point)
    (hrequest : event.output.request = some request) :
    ∃ operation sock, operationOf ctx turns = some operation ∧ operation.handle = some sock ∧
      ∀ entry, Registry.entryOf sock (handles turns) = some entry →
        operation.Calls entry request := by
  obtain ⟨operation, sock, hlatest, hhandle, rfl, hvisits⟩ := Trace.tracks h ctx info point hframe
  refine ⟨operation, sock, hlatest, hhandle, fun entry hentry => ?_⟩
  rw [← Registry.Run.entryOf hrun, hrep.entries] at hentry
  obtain ⟨-, rfl, -⟩ := lookup_eq_some hentry
  have hcall : (s.contexts ctx).frame.request s.table = some request := by
    cases hs.move with
    | runtime | resumed | started => cases hrequest
    | replied hother hcall | suspended hother hcall =>
        obtain rfl := Option.some.inj (hrunning.symm.trans hother)
        exact hcall.trans hrequest
  rw [hframe] at hcall
  rw [← Option.some.inj hcall]
  exact hvisits.calls _

theorem Trace.stale {store : Registry UInt64 Entry} {operation : Operation} {sock : UInt64}
    (hrun : Transition.Run Registry.Initial (Registry.Step 256) (handles turns) store)
    (hrep : s.table.Represents store) (hs : Step s event next)
    (haction : event.action = .start operation) (hhandle : operation.handle = some sock)
    (hentry : Registry.entryOf sock (handles turns) = none) :
    event.output.request = none ∧ next.files = s.files ∧ next.table = s.table ∧
      event.output.result = some ⟨if operation = .destroy MINIMK_SOCKET_INVALID then .success
        else .ebadf, MINIMK_SOCKET_INVALID, none⟩ := by
  rw [← Registry.Run.entryOf hrun, hrep.entries] at hentry
  have hstale : ¬s.table.Finds sock := by
    intro hfinds
    simp [lookup, hfinds.1, hfinds.2] at hentry
  cases hs.move with
  | started hrunning hidle hstart =>
      obtain rfl := Action.start.inj haction
      obtain ⟨rfl, rfl⟩ := Operation.start_stale hhandle hstale hstart
      exact ⟨rfl, settle_files, settle_table, rfl⟩
  | runtime | resumed | replied | suspended => cases haction

-- In every run with few enough creations, whatever the order of the coroutines' steps, the
-- library is a store of handles to the operations that are called with them.
theorem Trace.registered (h : Trace turns s)
    (hcount : (System.tableCalls turns).countP TableEvent.creates ≤ 2 ^ 48) :
    Registered turns s := by
  obtain ⟨store, hrun, hrep, -⟩ := SocketTable.Run.simulates (Trace.tableCalls h) hcount
  refine ⟨⟨store, hrun, hrep.entries⟩, ?_, ?_⟩
  · intro ctx info point event next request hs hrunning hframe hrequest
    exact Trace.calls h hrun hrep hs hrunning hframe hrequest
  · intro operation sock event next hs haction hhandle hentry
    exact Trace.stale hrun hrep hs haction hhandle hentry

-- A socket gets a read timeout, and a coroutine that receives from it waits that long at most.
def timedSocket : List Action :=
  let done : Reply := ⟨.success, 3, 0, .success⟩
  [.start (.create 2 1 0), .reply done, .reply done, .reply done,
    .start (.setReadTimeout 0x100000000000000 50),
    .runtime (.go 1 0 ⟨4096, some 0x10000, true⟩), .runtime .run, .runtime .loopTest,
    .runtime .clean, .runtime (.expire 0), .runtime .pick, .runtime (.switch 0x9000),
    .start (.recv 0x100000000000000 16), .reply ⟨.eagain, -1, 0, .success⟩]

theorem timedSocket_trace : Trace (Transition.outcome (performTurn perform) timedSocket initial).1
    (Transition.outcome (performTurn perform) timedSocket initial).2 := by
  refine ⟨initial, rfl, Transition.outcome_turns ?_ rfl⟩
  exact fun _ _ _ _ => perform_step

theorem Trace.registered_timedSocket :
    Registered (Transition.outcome (performTurn perform) timedSocket initial).1
      (Transition.outcome (performTurn perform) timedSocket initial).2 :=
  Trace.registered timedSocket_trace (by decide)

end System

end Minimk.Socket
