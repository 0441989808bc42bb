import Minimk.Socket.Registered.Theorems
import Minimk.Socket.Server

namespace Minimk.Socket

open Abort Minimk.Runtime SocketTable Transition

section Handles

variable {table after : SocketTable} {sock : UInt64} {fd : Int32} {info : InfoIdx}

theorem SocketTable.mem_handles :
    sock ∈ table.handles ↔ sock ≠ 0 ∧ ∃ info, (table.sockets info).handle = sock := by
  simp [handles]

theorem SocketTable.handles_congr (h : after.sockets = table.sockets) :
    after.handles = table.handles := by
  simp only [handles, h]

theorem SocketTable.Finds.mem_handles (h : table.Finds sock) : sock ∈ table.handles :=
  SocketTable.mem_handles.mpr ⟨ne_zero_of_handleType h.1, indexOf sock, h.2⟩

theorem System.Named.finds (h : System.Named table) (hmem : sock ∈ table.handles) :
    table.Finds sock := by
  obtain ⟨hne, info, rfl⟩ := SocketTable.mem_handles.mp hmem
  exact ⟨(h info hne).1, by rw [(h info hne).2]⟩

theorem System.Named.handles_forget (h : System.Named table) (hfinds : table.Finds sock) :
    (table.infoForget (indexOf sock)).handles = table.handles.erase sock := by
  ext other
  rw [Finset.mem_erase, SocketTable.mem_handles, SocketTable.mem_handles]
  constructor
  · rintro ⟨hne, info, hinfo⟩
    by_cases he : info = indexOf sock
    · subst he
      simp [infoForget, SocketInfo.zero, hne.symm] at hinfo
    · simp only [infoForget, set_sockets, Function.update_of_ne he] at hinfo
      refine ⟨?_, hne, info, hinfo⟩
      rintro rfl
      exact he ((h info (hinfo.symm ▸ hne)).2.symm.trans (congrArg indexOf hinfo))
  · rintro ⟨hother, hne, info, hinfo⟩
    refine ⟨hne, info, ?_⟩
    have he : info ≠ indexOf sock := by
      rintro rfl
      exact hother (hinfo.symm.trans hfinds.2)
    simpa [infoForget, he] using hinfo

theorem SocketTable.Filled.handles (h : table.Filled fd after (some info)) :
    after.handles = insert (after.sockets info).handle table.handles := by
  cases h with
  | @free _ handle hfree htype hindex hsockets =>
      have hnew : (after.sockets info).handle = handle := by simp [hsockets]
      ext other
      rw [hnew, Finset.mem_insert, SocketTable.mem_handles, SocketTable.mem_handles]
      constructor
      · rintro ⟨hne, place, rfl⟩
        by_cases he : place = info
        · exact .inl (he ▸ hnew)
        · refine .inr ⟨hne, place, ?_⟩
          simp [hsockets, he]
      · rintro (rfl | ⟨hne, place, rfl⟩)
        · exact ⟨ne_zero_of_handleType htype, info, hnew⟩
        · refine ⟨hne, place, ?_⟩
          have he : place ≠ info := by
            rintro rfl
            exact hne hfree
          simp [hsockets, he]

theorem SocketTable.Filled.fresh (hnamed : System.Named table)
    (h : table.Filled fd after (some info)) : (after.sockets info).handle ∉ table.handles := by
  cases h with
  | @free _ handle hfree htype hindex hsockets =>
      have hnew : (after.sockets info).handle = handle := by simp [hsockets]
      rw [hnew]
      intro hmem
      have hfinds := hnamed.finds hmem
      rw [SocketTable.Finds, hindex, hfree] at hfinds
      exact ne_zero_of_handleType htype hfinds.2.symm

end Handles

-- Where an operation may stand. A descriptor is closed after a failure only.
inductive Operation.At (operation : Operation) : Frame → Prop
  | createSocket {domain type protocol : Int32}
      (hoperation : operation = .create domain type protocol) :
      At operation (.createSocket domain type protocol)
  | opened {fd : Int32} {point : OpenPoint} (hopening : operation.opening = true)
      (hfailed : ∀ rv, point = .closesocket rv → rv ≠ .success) : At operation (.opened fd point)
  | on {sock : UInt64} {point : Point} (hhandle : operation.handle = some sock)
      (hvisits : operation.Visits point) : At operation (.on (indexOf sock) point)

-- How an operation goes on from the return of a call.
inductive Operation.Ends (operation : Operation) (table : SocketTable) : SocketTable → Next → Prop
  | call {after : SocketTable} {frame : Frame} (hat : operation.At frame)
      (hsockets : after.sockets = table.sockets) : Ends operation table after (.call frame)
  | returned {after : SocketTable} {rv : Error} {amount : Option UInt64}
      (hopening : operation.opening = true → rv ≠ .success)
      (hdestroy : ∀ sock, operation ≠ .destroy sock) (hsockets : after.sockets = table.sockets) :
      Ends operation table after (.done rv amount)
  | destroyed {sock : UInt64} {rv : Error} (hoperation : operation = .destroy sock) :
      Ends operation table (table.infoForget (indexOf sock)) (.done rv none)
  | issued {after : SocketTable} {fd : Int32} {info : InfoIdx}
      (hopening : operation.opening = true) (hfilled : table.Filled fd after (some info)) :
      Ends operation table after (.issued info)

section Ends

variable {operation : Operation} {table after : SocketTable} {frame : Frame} {reply : Reply}
  {go : Next} {sock : UInt64} {point : Point}

theorem Operation.Ends.kept {rv : Error} {amount : Option UInt64}
    (hopening : operation.opening = false) (hdestroy : ∀ sock, operation ≠ .destroy sock)
    (hsockets : after.sockets = table.sockets) :
    operation.Ends table after (.done rv amount) := by
  refine .returned ?_ hdestroy hsockets
  intro hopens
  rw [hopening] at hopens
  cases hopens

theorem Operation.Visits.ends (hhandle : operation.handle = some sock)
    (hvisits : operation.Visits point) :
    operation.Ends table (point.resume table (indexOf sock) reply).1
      (point.resume table (indexOf sock) reply).2 := by
  cases hvisits with
  | accept =>
      simp only [Point.resume]
      split_ifs with hagain hrv
      · exact .call (.on hhandle .acceptSuspend) rfl
      · exact .returned (fun _ => hrv) (by simp) rfl
      · exact .call (.opened rfl (by simp)) rfl
  | acceptSuspend =>
      simp only [Point.resume]
      split_ifs with hrv
      · exact .returned (fun _ => hrv) (by simp) rfl
      · exact .call (.on hhandle .accept) rfl
  | recv =>
      simp only [Point.resume]
      split
      · exact .kept rfl (by simp) rfl
      · exact .call (.on hhandle .recvSuspend) rfl
  | recvSuspend =>
      simp only [Point.resume]
      split
      · exact .kept rfl (by simp) rfl
      · exact .call (.on hhandle .recv) rfl
  | send =>
      simp only [Point.resume]
      split
      · exact .kept rfl (by simp) rfl
      · exact .call (.on hhandle .sendSuspend) rfl
  | sendSuspend =>
      simp only [Point.resume]
      split
      · exact .kept rfl (by simp) rfl
      · exact .call (.on hhandle .send) rfl
  | connect =>
      simp only [Point.resume]
      split_ifs
      · exact .kept rfl (by simp) rfl
      · exact .kept rfl (by simp) rfl
      · exact .call (.on hhandle .connectSuspend) rfl
  | connectSuspend =>
      simp only [Point.resume]
      split_ifs
      · exact .kept rfl (by simp) rfl
      · exact .call (.on hhandle .connectGetsockopt) rfl
  | connectGetsockopt =>
      simp only [Point.resume]
      split_ifs <;> exact .kept rfl (by simp) rfl
  | destroy =>
      obtain rfl := Option.some.inj hhandle
      exact .destroyed rfl
  | bind | listen | setsockoptReuseaddr => exact .kept rfl (by simp) rfl

theorem Operation.At.ends (h : operation.At frame)
    (hresume : frame.resume table reply = .ok (after, go)) : operation.Ends table after go := by
  cases h with
  | createSocket hoperation =>
      subst hoperation
      cases Frame.resume_turn (by simp) hresume with
      | noSocket hrv => exact .returned (fun _ => hrv) (by simp) rfl
      | socket => exact .call (.opened rfl (by simp)) rfl
  | opened hopening hfailed =>
      have hdestroy : ∀ sock, operation ≠ .destroy sock := by
        rintro sock rfl
        cases hopening
      cases Frame.resume_turn (by simp) hresume with
      | blocking hrv =>
          refine .call (.opened hopening ?_) rfl
          rintro rv ⟨⟩
          exact hrv
      | nonblocking => exact .call (.opened hopening (by simp)) rfl
      | full hsockets =>
          refine .call (.opened hopening ?_) hsockets
          rintro rv ⟨⟩
          simp
      | stored hfilled => exact .issued hopening hfilled
      | closed => exact .returned (fun _ => hfailed _ rfl) hdestroy rfl
  | on hhandle hvisits =>
      have hends := @Operation.Visits.ends operation table reply _ _ hhandle hvisits
      simp only [Frame.resume, Except.ok.injEq] at hresume
      rwa [hresume] at hends

end Ends

-- The operations that set a timeout.
def Operation.retimes : Operation → Bool
  | .setReadTimeout _ _ | .setWriteTimeout _ _ => true
  | _ => false

-- An operation on a live handle gets as far as its first call.
theorem Operation.start_at {operation : Operation} {table after : SocketTable} {go : Next}
    (hfinds : ∀ sock, operation.handle = some sock → table.Finds sock)
    (hretimes : operation.retimes = false) (h : operation.start table = .ok (after, go)) :
    ∃ frame, go = .call frame ∧ after = table ∧ frame ≠ .idle ∧ operation.At frame := by
  cases operation with
  | create domain type protocol =>
      simp only [Operation.start, Socket.create, Except.ok.injEq, Prod.mk.injEq] at h
      obtain ⟨rfl, rfl⟩ := h
      exact ⟨_, rfl, rfl, by simp, .createSocket rfl⟩
  | destroy sock =>
      have hlive := hfinds sock rfl
      have hvalid : sock ≠ MINIMK_SOCKET_INVALID := ne_zero_of_handleType hlive.1
      simp only [Operation.start, Socket.destroy, hvalid, onFound_eq, hlive, ↓reduceIte] at h
      cases h
      exact ⟨_, rfl, rfl, by simp, .on rfl .destroy⟩
  | setReadTimeout | setWriteTimeout => cases hretimes
  | accept sock | recv sock | send sock | connect sock | bind sock | listen sock
  | setsockoptReuseaddr sock =>
      have hlive := hfinds sock rfl
      simp only [Operation.start, Socket.accept, Socket.recv, Socket.send, Socket.connect,
        Socket.bind, Socket.listen, Socket.setsockoptReuseaddr, onFound_eq, hlive,
        ↓reduceIte] at h
      cases h
      exact ⟨_, rfl, rfl, by simp, .on rfl (by constructor)⟩

-- What the return of an operation does to the handle that its caller owns.
structure Operation.Passes (operation : Operation) (result : Result)
    (before after : Option UInt64) : Prop where
  destroyed : ∀ sock, operation = .destroy sock → before = some sock ∧ after = none
  opened : operation.opening = true →
    before = none ∧ after = if result.rv = .success then some result.handle else none
  kept : operation.opening = false → (∀ sock, operation ≠ .destroy sock) → after = before

theorem Operation.label_none (operation : Operation) : operation.label none = .keep := by
  cases operation <;> rfl

theorem Operation.label_opening {operation : Operation} {result : Result}
    (hopening : operation.opening = true) : operation.label (some result) =
      if result.rv = .success then .acquire result.handle else .keep := by
  cases operation with
  | create | accept => rfl
  | _ => cases hopening

theorem Operation.label_returned {operation : Operation} {rv : Error} {handle : UInt64}
    {amount : Option UInt64} (hopening : operation.opening = true → rv ≠ .success)
    (hdestroy : ∀ sock, operation ≠ .destroy sock) :
    operation.label (some ⟨rv, handle, amount⟩) = .keep := by
  cases operation with
  | create | accept => exact if_neg (hopening rfl)
  | destroy sock => exact absurd rfl (hdestroy sock)
  | recv | send | connect | bind | listen | setsockoptReuseaddr | setReadTimeout
  | setWriteTimeout => rfl

-- Destroy makes no call but the close of the descriptor.
theorem Operation.At.closes {sock : UInt64} {info : InfoIdx} {point : Point}
    (h : (Operation.destroy sock).At (.on info point)) : point = .destroyClose := by
  cases h with
  | on _ hvisits =>
      cases hvisits with
      | destroy => rfl

-- The amount of a transfer that succeeds is that of its system call.
theorem Operation.At.moved {operation : Operation} {system : System} {ctx : Option Slot}
    {serial : Nat} {frame : Frame} {table after : SocketTable} {reply : Reply} {go : Next}
    {count : UInt64} {result : Result} (h : operation.At frame)
    (htransfers : operation.transfers = some count)
    (hresume : frame.resume table reply = .ok (after, go))
    (hresult : (system.settle ctx serial after go).2 = some result)
    (hsuccess : result.rv = .success) :
    reply.rv = .success ∧ result.amount = some reply.amount ∧
      ∃ info direction, frame = .on info (.transferCall direction count) := by
  cases h with
  | createSocket hoperation =>
      subst hoperation
      cases htransfers
  | opened hopening =>
      cases operation with
      | create | accept => cases htransfers
      | _ => cases hopening
  | @on sock point hhandle hvisits =>
      simp only [Frame.resume, Except.ok.injEq] at hresume
      cases hvisits with
      | recv | send =>
          obtain rfl := Option.some.inj htransfers
          simp only [Point.resume, transferTurn] at hresume
          split_ifs at hresume with hagain
          · obtain ⟨rfl, rfl⟩ : _ ∧ _ := by simpa using hresume
            obtain rfl := Option.some.inj hresult
            exact ⟨hsuccess, rfl, indexOf sock, _, rfl⟩
          · obtain ⟨rfl, rfl⟩ : _ ∧ _ := by simpa using hresume
            cases hresult
      | recvSuspend | sendSuspend =>
          simp only [Point.resume, transferResumed] at hresume
          split_ifs at hresume with hfailed
          · obtain ⟨rfl, rfl⟩ : _ ∧ _ := by simpa using hresume
            obtain rfl := Option.some.inj hresult
            exact absurd hsuccess hfailed
          · obtain ⟨rfl, rfl⟩ : _ ∧ _ := by simpa using hresume
            cases hresult
      | _ => cases htransfers

namespace MainPoint

variable {entries : Entries} {point : MainPoint} {operation : Operation} {result : Result}

theorem call_handle {sock : UInt64} (h : point.call entries = some (.operation operation))
    (hhandle : operation.handle = some sock) : point.sock = some sock := by
  cases point with
  | create => cases h; cases hhandle
  | go | run | exited => cases h
  | setsockoptReuseaddr | bind | listen | abandon | destroy => cases h; exact hhandle

theorem call_retimes (h : point.call entries = some (.operation operation)) :
    operation.retimes = false := by
  cases point with
  | go | run | exited => cases h
  | create | setsockoptReuseaddr | bind | listen | abandon | destroy => cases h; rfl

theorem returned_passes (h : point.call entries = some (.operation operation)) :
    operation.Passes result point.sock (point.returned result).sock := by
  cases point with
  | go | run | exited => cases h
  | create =>
      cases h
      refine ⟨nofun, fun _ => ⟨rfl, ?_⟩, nofun⟩
      by_cases hrv : result.rv = .success <;> simp [returned, sock, hrv]
  | setsockoptReuseaddr | bind | listen =>
      cases h
      refine ⟨nofun, nofun, fun _ _ => ?_⟩
      by_cases hrv : result.rv = .success <;> simp [returned, sock, hrv]
  | abandon | destroy =>
      cases h
      refine ⟨?_, nofun, fun _ hdestroy => absurd rfl (hdestroy _)⟩
      rintro sock ⟨⟩
      exact ⟨rfl, rfl⟩

theorem call_go {entry argument : UInt64} (h : point.call entries = some (.go entry argument)) :
    point = .go argument ∧ entry = entries.acceptLoop := by
  cases point with
  | go sock => cases h; exact ⟨rfl, rfl⟩
  | _ => cases h

theorem call_run (h : point.call entries = some .run) : ∃ sock, point = .run sock := by
  cases point with
  | run sock => exact ⟨sock, rfl⟩
  | _ => cases h

end MainPoint

namespace RoutinePoint

variable {entries : Entries} {point : RoutinePoint} {operation : Operation} {result : Result}

theorem call_handle {sock : UInt64} (h : point.call entries = some (.operation operation))
    (hhandle : operation.handle = some sock) :
    point.sock = some sock ∨ point.borrowed = some sock := by
  cases point with
  | absent | go | returning | aborted => cases h
  | accept => cases h; exact .inr hhandle
  | recv | sendall | destroy => cases h; exact .inl hhandle

theorem call_retimes (h : point.call entries = some (.operation operation)) :
    operation.retimes = false := by
  cases point with
  | absent | go | returning | aborted => cases h
  | accept | recv | sendall | destroy => cases h; rfl

@[simp] theorem sendallLoop_sock (clientSock nread total : UInt64) :
    (sendallLoop clientSock nread total).sock = some clientSock := by
  unfold sendallLoop
  split_ifs <;> rfl

@[simp] theorem sendallLoop_borrowed (clientSock nread total : UInt64) :
    (sendallLoop clientSock nread total).borrowed = none := by
  unfold sendallLoop
  split_ifs <;> rfl

theorem returned_passes (h : point.call entries = some (.operation operation)) :
    operation.Passes result point.sock (point.returned result).sock := by
  cases point with
  | absent | go | returning | aborted => cases h
  | accept =>
      cases h
      refine ⟨nofun, fun _ => ⟨rfl, ?_⟩, nofun⟩
      by_cases hrv : result.rv = .success <;> simp [returned, sock, hrv]
  | recv =>
      cases h
      refine ⟨nofun, nofun, fun _ _ => ?_⟩
      simp only [returned]
      split_ifs
      · rfl
      · rfl
      · rw [sendallLoop_sock]; rfl
      · rfl
  | sendall =>
      cases h
      refine ⟨nofun, nofun, fun _ _ => ?_⟩
      simp only [returned]
      split
      · rfl
      · rfl
      · rw [sendallLoop_sock]; rfl
  | destroy =>
      cases h
      refine ⟨?_, nofun, fun _ hdestroy => absurd rfl (hdestroy _)⟩
      rintro sock ⟨⟩
      exact ⟨rfl, rfl⟩

-- What is borrowed stays with its borrower.
theorem returned_borrowed : (point.returned result).borrowed = point.borrowed := by
  cases point with
  | accept ssock =>
      simp only [returned]
      split_ifs <;> rfl
  | recv =>
      simp only [returned]
      split_ifs
      · rfl
      · rfl
      · rw [sendallLoop_borrowed]; rfl
      · rfl
  | sendall =>
      simp only [returned]
      split
      · rfl
      · rfl
      · rw [sendallLoop_borrowed]; rfl
  | absent | go | destroy | returning | aborted => rfl

theorem writeallTurn_aborts {count total amount : UInt64} {rv : Error} {code : Assertion}
    (h : Io.writeallTurn count total rv amount = .error code) :
    rv = .success ∧ ¬(0 < amount ∧ amount ≤ count - total) := by
  simp only [Io.writeallTurn, Io.turn] at h
  split_ifs at h with heintr hrv
  refine ⟨not_not.mp hrv, ?_⟩
  rintro ⟨hnonzero, hcount⟩
  simp [hnonzero, hcount] at h

-- The assertions on what a transfer has moved.
theorem returned_ne_aborted {sock : UInt64} (h : point ≠ .aborted sock)
    (hmoved : ∀ operation count, point.call entries = some (.operation operation) →
      operation.transfers = some count → result.rv = .success →
        0 < result.amount.getD 0 ∧ result.amount.getD 0 ≤ count) :
    point.returned result ≠ .aborted sock := by
  have hloop : ∀ clientSock nread total, sendallLoop clientSock nread total ≠ .aborted sock := by
    intro clientSock nread total
    unfold sendallLoop
    split_ifs <;> nofun
  cases point with
  | accept ssock =>
      simp only [returned]
      split_ifs <;> nofun
  | recv clientSock =>
      simp only [returned]
      split_ifs with heof hrv hamount
      · nofun
      · nofun
      · exact hloop _ _ _
      · exact absurd (hmoved _ _ rfl rfl (not_not.mp hrv)).1 hamount
  | sendall clientSock nread total =>
      simp only [returned]
      split
      · rename_i hturn
        obtain ⟨hrv, hfailed⟩ := writeallTurn_aborts hturn
        exact absurd (hmoved _ _ rfl rfl hrv) hfailed
      · nofun
      · exact hloop _ _ _
  | destroy clientSock => nofun
  | absent | go | returning | aborted => exact h

theorem call_go {entry argument : UInt64} (h : point.call entries = some (.go entry argument)) :
    ∃ ssock, point = .go ssock argument ∧ entry = entries.handleClient := by
  cases point with
  | go ssock clientSock => cases h; exact ⟨ssock, rfl, rfl⟩
  | _ => cases h

theorem call_ret (h : point.call entries = some .ret) : point = .returning := by
  cases point with
  | returning => rfl
  | _ => cases h

theorem start_acceptLoop (argument : UInt64) :
    start entries entries.acceptLoop argument = .accept argument := by
  rw [start, if_pos rfl]

theorem start_handleClient (argument : UInt64) :
    start entries entries.handleClient argument = .recv argument := by
  rw [start, if_neg entries.distinct.symm, if_pos rfl]

end RoutinePoint

end Minimk.Socket
