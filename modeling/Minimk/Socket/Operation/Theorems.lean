import Minimk.Socket.Operation
import Minimk.Socket.Store.Theorems

namespace Minimk.Socket

open Abort Minimk.Runtime SocketTable

-- The entry that a call with a handle finds.
def SocketTable.Finds (table : SocketTable) (sock : UInt64) : Prop :=
  handleType sock = HANDLE_TYPE_SOCKET ∧ (table.sockets (indexOf sock)).handle = sock

instance (table : SocketTable) (sock : UInt64) : Decidable (table.Finds sock) :=
  inferInstanceAs (Decidable (_ ∧ _))

variable {table next : SocketTable} {sock : UInt64} {point : Point} {info : InfoIdx}
  {reply : Reply} {go : Next}

theorem SocketTable.Finds.handle_ne_zero (h : table.Finds sock) :
    (table.sockets (indexOf sock)).handle ≠ 0 := by
  rw [h.2]
  exact ne_zero_of_handleType h.1

theorem infoFind_finds (table : SocketTable) (sock : UInt64) :
    table.infoFind sock =
      if table.Finds sock then .ok (.success, some (indexOf sock)) else .ok (.ebadf, none) :=
  infoFind_eq table sock

theorem onFound_eq (table : SocketTable) (sock : UInt64) (point : Point) :
    onFound table sock point =
      if table.Finds sock then .ok (table, .call (.on (indexOf sock) point))
      else .ok (table, .done .ebadf none) := by
  rw [onFound, infoFind_finds]
  by_cases h : table.Finds sock
  · simp [h]
  · simp [h]

theorem setReadTimeout_eq (table : SocketTable) (sock nanosec : UInt64) :
    table.setReadTimeout sock nanosec =
      if table.Finds sock then
        .ok (.success, table.set (indexOf sock)
          { table.sockets (indexOf sock) with readTimeout := nanosec })
      else .ok (.ebadf, table) := by
  rw [setReadTimeout, infoFind_finds]
  by_cases h : table.Finds sock
  · simp [h]
  · simp [h]

theorem setWriteTimeout_eq (table : SocketTable) (sock nanosec : UInt64) :
    table.setWriteTimeout sock nanosec =
      if table.Finds sock then
        .ok (.success, table.set (indexOf sock)
          { table.sockets (indexOf sock) with writeTimeout := nanosec })
      else .ok (.ebadf, table) := by
  rw [setWriteTimeout, infoFind_finds]
  by_cases h : table.Finds sock
  · simp [h]
  · simp [h]

-- What the start of an operation does.
inductive Started (table : SocketTable) : Operation → SocketTable → Next → Prop
  | returned {operation : Operation} {rv : Error} : Started table operation table (.done rv none)
  | retimed {operation : Operation} {idx : InfoIdx} {entry : SocketInfo}
      (hhandle : entry.handle = (table.sockets idx).handle)
      (hfd : entry.fd = (table.sockets idx).fd) :
      Started table operation (table.set idx entry) (.done .success none)
  | socket {domain type protocol : Int32} :
      Started table (.create domain type protocol) table
        (.call (.createSocket domain type protocol))
  | found {operation : Operation} {sock : UInt64} {point : Point} (hfinds : table.Finds sock)
      (hpoint : point.suspends = false) :
      Started table operation table (.call (.on (indexOf sock) point))

theorem onFound_started {operation : Operation} (hpoint : point.suspends = false)
    (h : onFound table sock point = .ok (next, go)) : Started table operation next go := by
  rw [onFound_eq] at h
  split_ifs at h with hfinds
  · obtain ⟨rfl, rfl⟩ : table = next ∧ _ = go := by simpa using h
    exact .found hfinds hpoint
  · obtain ⟨rfl, rfl⟩ : table = next ∧ _ = go := by simpa using h
    exact .returned

theorem Operation.start_started {operation : Operation}
    (h : operation.start table = .ok (next, go)) : Started table operation next go := by
  cases operation with
  | create domain type protocol =>
      obtain ⟨rfl, rfl⟩ : table = next ∧ _ = go := by
        simpa [Operation.start, Socket.create] using h
      exact .socket
  | destroy sock =>
      simp only [Operation.start, Socket.destroy] at h
      split_ifs at h
      · obtain ⟨rfl, rfl⟩ : table = next ∧ _ = go := by simpa using h
        exact .returned
      · exact onFound_started rfl h
  | setReadTimeout sock nanosec =>
      simp only [Operation.start, setReadTimeout_eq] at h
      split_ifs at h with hfinds
      · obtain ⟨rfl, rfl⟩ : _ = next ∧ _ = go := by simpa using h
        exact .retimed rfl rfl
      · obtain ⟨rfl, rfl⟩ : table = next ∧ _ = go := by simpa using h
        exact .returned
  | setWriteTimeout sock nanosec =>
      simp only [Operation.start, setWriteTimeout_eq] at h
      split_ifs at h with hfinds
      · obtain ⟨rfl, rfl⟩ : _ = next ∧ _ = go := by simpa using h
        exact .retimed rfl rfl
      · obtain ⟨rfl, rfl⟩ : table = next ∧ _ = go := by simpa using h
        exact .returned
  | accept | recv | send | connect | bind | listen | setsockoptReuseaddr =>
      exact onFound_started rfl h

-- What an operation does from the return of a call up to the next.
inductive Turn (table : SocketTable) (reply : Reply) : Frame → SocketTable → Next → Prop
  | again {info : InfoIdx} {point later : Point} (hpoint : point ≠ .destroyClose)
      (hlater : later ≠ .destroyClose) (haccept : point = .acceptCall → reply.rv ≠ .success)
      (hsuspends : point.suspends = true → reply.rv = .success ∧ later.suspends = false) :
      Turn table reply (.on info point) table (.call (.on info later))
  | done {info : InfoIdx} {point : Point} {rv : Error} {amount : Option UInt64}
      (hpoint : point ≠ .destroyClose) (haccept : point = .acceptCall → reply.rv ≠ .success)
      (hsuspends : point.suspends = true → reply.rv ≠ .success ∧ rv = reply.rv) :
      Turn table reply (.on info point) table (.done rv amount)
  | accepted {info : InfoIdx} (hrv : reply.rv = .success) :
      Turn table reply (.on info .acceptCall) table (.call (.opened reply.fd .setnonblock))
  | destroyed {info : InfoIdx} :
      Turn table reply (.on info .destroyClose) (table.infoForget info) (.done reply.rv none)
  | noSocket {domain type protocol : Int32} (hrv : reply.rv ≠ .success) :
      Turn table reply (.createSocket domain type protocol) table (.done reply.rv none)
  | socket {domain type protocol : Int32} (hrv : reply.rv = .success) :
      Turn table reply (.createSocket domain type protocol) table
        (.call (.opened reply.fd .setnonblock))
  | blocking {fd : Int32} (hrv : reply.rv ≠ .success) :
      Turn table reply (.opened fd .setnonblock) table
        (.call (.opened fd (.closesocket reply.rv)))
  | nonblocking {fd : Int32} (hrv : reply.rv = .success) :
      Turn table reply (.opened fd .setnonblock) table (.call (.opened fd .nosigpipe))
  | full {fd : Int32} {next : SocketTable} (hsockets : next.sockets = table.sockets) :
      Turn table reply (.opened fd .nosigpipe) next (.call (.opened fd (.closesocket .emfile)))
  | stored {fd : Int32} {next : SocketTable} {idx : InfoIdx}
      (hfilled : table.Filled fd next (some idx)) :
      Turn table reply (.opened fd .nosigpipe) next (.issued idx)
  | closed {fd : Int32} {rv : Error} :
      Turn table reply (.opened fd (.closesocket rv)) table (.done rv none)

theorem Point.resume_turn (table : SocketTable) (info : InfoIdx) (point : Point) (reply : Reply) :
    Turn table reply (.on info point) (point.resume table info reply).1
      (point.resume table info reply).2 := by
  cases point with
  | destroyClose => exact .destroyed
  | acceptCall =>
      by_cases hagain : reply.rv = .eagain
      · simp only [Point.resume, hagain, ↓reduceIte]
        exact .again (by simp) (by simp) (by simp [hagain]) (by simp [Point.suspends, Point.awaits])
      · by_cases hrv : reply.rv = .success
        · simp only [Point.resume, hrv, ne_eq, not_true_eq_false, ↓reduceIte, reduceCtorEq]
          exact .accepted hrv
        · simp only [Point.resume, hagain, hrv, ne_eq, not_false_eq_true, ↓reduceIte]
          exact .done (by simp) (fun _ => hrv) (by simp [Point.suspends, Point.awaits])
  | acceptSuspend | connectSuspend =>
      by_cases hrv : reply.rv = .success
      · simp only [Point.resume, hrv, ne_eq, not_true_eq_false, ↓reduceIte]
        exact .again (by simp) (by simp) (by simp) fun _ => ⟨hrv, rfl⟩
      · simp only [Point.resume, hrv, ne_eq, not_false_eq_true, ↓reduceIte]
        exact .done (by simp) (by simp) fun _ => ⟨hrv, rfl⟩
  | transferCall direction count =>
      by_cases hagain : reply.rv = .eagain
      · simp only [Point.resume, transferTurn, hagain, ne_eq, not_true_eq_false, ↓reduceIte]
        exact .again (by simp) (by simp) (by simp) (by simp [Point.suspends, Point.awaits])
      · simp only [Point.resume, transferTurn, hagain, ne_eq, not_false_eq_true, ↓reduceIte]
        exact .done (by simp) (by simp) (by simp [Point.suspends, Point.awaits])
  | transferSuspend direction count amount =>
      by_cases hrv : reply.rv = .success
      · simp only [Point.resume, transferResumed, hrv, ne_eq, not_true_eq_false, ↓reduceIte]
        exact .again (by simp) (by simp) (by simp) fun _ => ⟨hrv, rfl⟩
      · simp only [Point.resume, transferResumed, hrv, ne_eq, not_false_eq_true, ↓reduceIte]
        exact .done (by simp) (by simp) fun _ => ⟨hrv, rfl⟩
  | connectCall address port =>
      by_cases hrv : reply.rv = .success
      · simp only [Point.resume, hrv, ↓reduceIte]
        exact .done (by simp) (by simp) (by simp [Point.suspends, Point.awaits])
      · by_cases hprogress : reply.rv = .einprogress
        · simp only [Point.resume, hprogress, ne_eq, not_true_eq_false, ↓reduceIte, reduceCtorEq]
          exact .again (by simp) (by simp) (by simp) (by simp [Point.suspends, Point.awaits])
        · simp only [Point.resume, hrv, hprogress, ne_eq, not_false_eq_true, ↓reduceIte]
          exact .done (by simp) (by simp) (by simp [Point.suspends, Point.awaits])
  | connectGetsockopt =>
      simp only [Point.resume]
      split_ifs
      · exact .done (by simp) (by simp) (by simp [Point.suspends, Point.awaits])
      · exact .done (by simp) (by simp) (by simp [Point.suspends, Point.awaits])
  | bindCall | listenCall | setsockoptReuseaddrCall =>
      exact .done (by simp) (by simp) (by simp [Point.suspends, Point.awaits])

theorem OpenPoint.resume_turn {fd : Int32} {point : OpenPoint}
    (h : point.resume table fd reply = .ok (next, go)) :
    Turn table reply (.opened fd point) next go := by
  cases point with
  | setnonblock =>
      simp only [OpenPoint.resume] at h
      split_ifs at h with hrv
      · obtain ⟨rfl, rfl⟩ : table = next ∧ _ = go := by simpa using h
        exact .blocking hrv
      · obtain ⟨rfl, rfl⟩ : table = next ∧ _ = go := by simpa using h
        exact .nonblocking (not_not.mp hrv)
  | nosigpipe =>
      obtain ⟨⟨rv, found, after⟩, hcreate, h⟩ := (bind_eq_ok_iff _ _ _).mp h
      obtain ⟨hfilled, hrv⟩ := infoCreate_filled hcreate
      cases found with
      | none =>
          obtain ⟨rfl, rfl⟩ : after = next ∧ _ = go := by simpa using h
          obtain rfl : rv = .emfile := by simpa using hrv
          cases hfilled with
          | full hsockets => exact .full hsockets
      | some idx =>
          obtain ⟨rfl, rfl⟩ : after = next ∧ _ = go := by simpa using h
          exact .stored hfilled
  | closesocket rv =>
      obtain ⟨rfl, rfl⟩ : table = next ∧ _ = go := by simpa [OpenPoint.resume] using h
      exact .closed

theorem Frame.resume_turn {frame : Frame} (hframe : frame ≠ .idle)
    (h : frame.resume table reply = .ok (next, go)) : Turn table reply frame next go := by
  cases frame with
  | idle => exact absurd rfl hframe
  | createSocket domain type protocol =>
      simp only [Frame.resume] at h
      split_ifs at h with hrv
      · obtain ⟨rfl, rfl⟩ : table = next ∧ _ = go := by simpa using h
        exact .noSocket hrv
      · obtain ⟨rfl, rfl⟩ : table = next ∧ _ = go := by simpa using h
        exact .socket (not_not.mp hrv)
  | opened fd point => exact OpenPoint.resume_turn h
  | on info point =>
      have hturn := Point.resume_turn table info point reply
      simp only [Frame.resume, Except.ok.injEq] at h
      rwa [h] at hturn

end Minimk.Socket
