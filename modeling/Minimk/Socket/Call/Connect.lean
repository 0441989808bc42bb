import Minimk.Socket.Call
import Minimk.Syscall.Address

namespace Minimk.Socket

open Abort Minimk.Runtime SocketTable Syscall Transition

-- What a suspension returns to connect.
def waited (revents : Int16) : Error := Coroutine.ioResult revents Direction.write.events

-- The replies that a call of connect gets from the libc and its suspension.
def Next.ConnectAnswers (libc : Libc) (revents : Int16) (next : Next) (returned : CallReturn) :
    Prop :=
  match next with
  | .call (.on info (.connectCall address port)) =>
      returned.reply.rv = Syscall.connect libc (returned.table.sockets info).fd address port
  | .call (.on _ .connectSuspend) => returned.reply.rv = waited revents
  | .call (.on info .connectGetsockopt) =>
      (returned.reply.rv, returned.reply.error) =
        getsockoptError libc (returned.table.sockets info).fd
  | _ => True

def Next.suspension (next : Next) (returned : CallReturn) : Option Error :=
  match next with
  | .call (.on _ .connectSuspend) => some returned.reply.rv
  | _ => none

-- What the suspensions of a call have returned, latest first.
def suspensions (turns : List CallTurn) : List Error :=
  turns.filterMap fun turn => turn.before.suspension turn.label

-- A call of connect from its start on; its entry keeps the handle and the descriptor.
structure Connects (libc : Libc) (revents : Int16) (table : SocketTable) (sock : UInt64)
    (address port : String) (turns : List CallTurn) (next : Next) : Prop where
  path : ∃ first, (Operation.connect sock address port).Begins table first ∧
    Next.Path first turns next
  answers : ∀ turn ∈ turns, turn.before.ConnectAnswers libc revents turn.label
  keeps : ∀ turn ∈ turns,
    (turn.label.table.sockets (indexOf sock)).handle = (table.sockets (indexOf sock)).handle ∧
      (turn.label.table.sockets (indexOf sock)).fd = (table.sockets (indexOf sock)).fd

variable {libc : Libc} {revents : Int16} {table : SocketTable} {sock : UInt64}
  {address port : String} {turns : List CallTurn} {rv : Error} {idx : InfoIdx} {next after : Next}
  {turn : CallTurn} {called wait : Error} {checked : Error × Error} {waits : List Error}

-- How far a call of connect has got, with what its suspensions have returned: `called`, `wait`
-- and `checked` are what its three calls return.
inductive Connecting (idx : InfoIdx) (address port : String) (called wait : Error)
    (checked : Error × Error) : List Error → Next → Prop
  | start : Connecting idx address port called wait checked []
      (.call (.on idx (.connectCall address port)))
  | settled (hcalled : called ≠ .einprogress) :
      Connecting idx address port called wait checked [] (.done called none)
  | inProgress (hcalled : called = .einprogress) :
      Connecting idx address port called wait checked [] (.call (.on idx .connectSuspend))
  | expired (hcalled : called = .einprogress) (hwait : wait ≠ .success) :
      Connecting idx address port called wait checked [wait] (.done wait none)
  | writable (hcalled : called = .einprogress) (hwait : wait = .success) :
      Connecting idx address port called wait checked [wait] (.call (.on idx .connectGetsockopt))
  | unchecked (hcalled : called = .einprogress) (hwait : wait = .success)
      (hchecked : checked.1 ≠ .success) :
      Connecting idx address port called wait checked [wait] (.done checked.1 none)
  | checked (hcalled : called = .einprogress) (hwait : wait = .success)
      (hchecked : checked.1 = .success) :
      Connecting idx address port called wait checked [wait] (.done checked.2 none)

theorem connectCall_resume (table : SocketTable) (idx : InfoIdx) (address port : String)
    (reply : Reply) : (Point.resume table idx (.connectCall address port) reply).2 =
      if reply.rv = .einprogress then .call (.on idx .connectSuspend)
      else .done reply.rv none := by
  by_cases hrv : reply.rv = .success
  · simp [Point.resume, hrv]
  · by_cases hprogress : reply.rv = .einprogress
    · simp [Point.resume, hprogress]
    · simp [Point.resume, hrv, hprogress]

theorem connectSuspend_resume (table : SocketTable) (idx : InfoIdx) (reply : Reply) :
    (Point.resume table idx .connectSuspend reply).2 =
      if reply.rv = .success then .call (.on idx .connectGetsockopt) else .done reply.rv none := by
  by_cases hrv : reply.rv = .success
  · simp [Point.resume, hrv]
  · simp [Point.resume, hrv]

theorem connectGetsockopt_resume (table : SocketTable) (idx : InfoIdx) (reply : Reply) :
    (Point.resume table idx .connectGetsockopt reply).2 =
      if reply.rv = .success then .done reply.error none else .done reply.rv none := by
  by_cases hrv : reply.rv = .success
  · simp [Point.resume, hrv]
  · simp [Point.resume, hrv]

theorem Connecting.step {returned : CallReturn} {fd : Int32}
    (h : Connecting idx address port (Syscall.connect libc fd address port) (waited revents)
      (getsockoptError libc fd) waits next)
    (hs : Next.Step next returned after) (hanswers : next.ConnectAnswers libc revents returned)
    (hfd : (returned.table.sockets idx).fd = fd) :
    Connecting idx address port (Syscall.connect libc fd address port) (waited revents)
      (getsockoptError libc fd) ((next.suspension returned).toList ++ waits) after := by
  obtain ⟨table, reply⟩ := returned
  dsimp only at hfd
  subst hfd
  cases h with
  | settled | expired | unchecked | checked => exact absurd hs Next.not_step_done
  | start =>
      have hrv : reply.rv = Syscall.connect libc (table.sockets idx).fd address port := hanswers
      rw [hs.on, connectCall_resume, ← hrv]
      by_cases hprogress : reply.rv = .einprogress
      · rw [if_pos hprogress]
        exact .inProgress hprogress
      · rw [if_neg hprogress]
        exact .settled hprogress
  | inProgress hcalled =>
      have hrv : reply.rv = waited revents := hanswers
      rw [hs.on, connectSuspend_resume]
      show Connecting _ _ _ _ _ _ [reply.rv] _
      rw [hrv]
      by_cases hwait : waited revents = .success
      · rw [if_pos hwait]
        exact .writable hcalled hwait
      · rw [if_neg hwait]
        exact .expired hcalled hwait
  | writable hcalled hwait =>
      have hreply : (reply.rv, reply.error) = getsockoptError libc (table.sockets idx).fd :=
        hanswers
      rw [hs.on, connectGetsockopt_resume, ← hreply]
      show Connecting _ _ _ _ _ _ [waited revents] _
      by_cases hchecked : reply.rv = .success
      · rw [if_pos hchecked]
        exact .checked hcalled hwait hchecked
      · rw [if_neg hchecked]
        exact .unchecked hcalled hwait hchecked

theorem Next.Path.connecting {fd : Int32} (h : Next.Path next turns after)
    (hanswers : ∀ turn ∈ turns, turn.before.ConnectAnswers libc revents turn.label)
    (hfd : ∀ turn ∈ turns, (turn.label.table.sockets idx).fd = fd)
    (hnext : Connecting idx address port (Syscall.connect libc fd address port) (waited revents)
      (getsockoptError libc fd) [] next) :
    Connecting idx address port (Syscall.connect libc fd address port) (waited revents)
      (getsockoptError libc fd) (suspensions turns) after := by
  induction h with
  | nil => exact hnext
  | @snoc turns middle last turn hp hs ih =>
      obtain ⟨rfl, rfl, hs⟩ := hs
      have hbefore := ih (fun other ho => hanswers other (List.mem_cons_of_mem _ ho))
        (fun other ho => hfd other (List.mem_cons_of_mem _ ho))
      have hafter := hbefore.step hs (hanswers turn List.mem_cons_self)
        (hfd turn List.mem_cons_self)
      have hcons : suspensions (turn :: turns) =
          (turn.before.suspension turn.label).toList ++ suspensions turns := by
        cases hwait : turn.before.suspension turn.label with
        | none => simp [suspensions, hwait]
        | some rv => simp [suspensions, hwait]
      rw [hcons]
      exact hafter

theorem Connects.connecting (h : Connects libc revents table sock address port turns next)
    (hfinds : table.Finds sock) : Connecting (indexOf sock) address port
      (Syscall.connect libc (table.sockets (indexOf sock)).fd address port) (waited revents)
      (getsockoptError libc (table.sockets (indexOf sock)).fd) (suspensions turns) next := by
  obtain ⟨first, hbegins, hpath⟩ := h.path
  have hfirst := onFound_begins.mp hbegins
  rw [if_pos hfinds] at hfirst
  subst hfirst
  exact hpath.connecting h.answers (fun turn hm => (h.keeps turn hm).2) .start

theorem Connects.answered {info : InfoIdx} {point : Point} {reply : Reply}
    (h : Connects libc revents table sock address port turns (.call (.on info point)))
    (hanswers : (.call (.on info point) : Next).ConnectAnswers libc revents ⟨table, reply⟩) :
    ∃ turns, Connects libc revents table sock address port turns
      (point.resume table info reply).2 := by
  obtain ⟨first, hbegins, hpath⟩ := h.path
  refine ⟨_, ⟨first, hbegins, hpath.turn table reply⟩, ?_, ?_⟩
  · rw [List.forall_mem_cons]
    exact ⟨hanswers, h.answers⟩
  · rw [List.forall_mem_cons]
    exact ⟨⟨rfl, rfl⟩, h.keeps⟩

-- Whatever the libc does and whatever the wake-up brings, the call returns.
theorem exists_connects (libc : Libc) (revents : Int16) (hfinds : table.Finds sock)
    (address port : String) : ∃ turns rv amount,
      Connects libc revents table sock address port turns (.done rv amount) := by
  have hbegins : (Operation.connect sock address port).Begins table
      (.call (.on (indexOf sock) (.connectCall address port))) := by
    refine onFound_begins.mpr ?_
    rw [if_pos hfinds]
  have hstart : Connects libc revents table sock address port []
      (.call (.on (indexOf sock) (.connectCall address port))) :=
    ⟨⟨_, hbegins, .nil⟩, by simp, by simp⟩
  let fd := (table.sockets (indexOf sock)).fd
  obtain ⟨_, hcalled⟩ := @Connects.answered _ _ _ _ _ _ _ _ _
    ⟨Syscall.connect libc fd address port, -1, 0, .success⟩ hstart rfl
  rw [connectCall_resume] at hcalled
  by_cases hprogress : Syscall.connect libc fd address port = .einprogress
  · rw [if_pos hprogress] at hcalled
    obtain ⟨_, hwoken⟩ := @Connects.answered _ _ _ _ _ _ _ _ _
      ⟨waited revents, -1, 0, .success⟩ hcalled rfl
    rw [connectSuspend_resume] at hwoken
    by_cases hwait : waited revents = .success
    · rw [if_pos hwait] at hwoken
      obtain ⟨_, hchecked⟩ := @Connects.answered _ _ _ _ _ _ _ _ _
        ⟨(getsockoptError libc fd).1, -1, 0, (getsockoptError libc fd).2⟩ hwoken rfl
      rw [connectGetsockopt_resume] at hchecked
      by_cases hsockopt : (getsockoptError libc fd).1 = .success
      · rw [if_pos hsockopt] at hchecked
        exact ⟨_, _, _, hchecked⟩
      · rw [if_neg hsockopt] at hchecked
        exact ⟨_, _, _, hchecked⟩
    · rw [if_neg hwait] at hwoken
      exact ⟨_, _, _, hwoken⟩
  · rw [if_neg hprogress] at hcalled
    exact ⟨_, _, _, hcalled⟩

-- The result of a call of connect tells what has happened: whether the connection stands and, if
-- not, the code of the failing call, the timeout of the suspension or the code of SO_ERROR.
structure ConnectTells (connect : Int32 × Int32) (getsockopt : Int32 × Int32 × Int32)
    (waits : List Error) (rv : Error) : Prop where
  connected : rv = .success ↔ connect.1 = 0 ∨
    connect.1 ≠ 0 ∧ connect.2 = Posix.EINPROGRESS ∧ .success ∈ waits ∧
      getsockopt.1 = 0 ∧ getsockopt.2.2 = 0
  failed : rv ≠ .success → connect.1 ≠ 0 ∧
    (connect.2 ≠ Posix.EINPROGRESS ∧ rv = errnoMap connect.2 ∨
      connect.2 = Posix.EINPROGRESS ∧
        (.etimedout ∈ waits ∧ rv = .etimedout ∨
          .success ∈ waits ∧ getsockopt.1 ≠ 0 ∧ rv = errnoMap getsockopt.2.1 ∨
          .success ∈ waits ∧ getsockopt.1 = 0 ∧ rv = errnoMap getsockopt.2.2))

theorem waited_eq_etimedout {revents : Int16} (h : waited revents ≠ .success) :
    waited revents = .etimedout := by
  unfold waited Coroutine.ioResult at h ⊢
  split_ifs at h ⊢
  · exact absurd rfl h
  · rfl

variable {fd : Int32} {amount : Option UInt64}

-- A call whose connect(2) is in progress.
theorem connectTells_inProgress {connect : Int32 × Int32} {getsockopt : Int32 × Int32 × Int32}
    (hrv : connect.1 ≠ 0) (herrno : connect.2 = Posix.EINPROGRESS)
    (hconnected : rv = .success ↔
      .success ∈ waits ∧ getsockopt.1 = 0 ∧ getsockopt.2.2 = 0)
    (hfailed : rv ≠ .success → .etimedout ∈ waits ∧ rv = .etimedout ∨
      .success ∈ waits ∧ getsockopt.1 ≠ 0 ∧ rv = errnoMap getsockopt.2.1 ∨
      .success ∈ waits ∧ getsockopt.1 = 0 ∧ rv = errnoMap getsockopt.2.2) :
    ConnectTells connect getsockopt waits rv where
  connected := by simp [hrv, herrno, hconnected]
  failed := fun h => ⟨hrv, .inr ⟨herrno, hfailed h⟩⟩

-- The call tells the truth if the errno of connect(2) survives.
theorem Connecting.tells (hreports : libc.Reports) (hresolved : libc.getaddrinfo address port = 0)
    (hkeeps : libc.Keeps (libc.connect fd address port clearerrno))
    (h : Connecting idx address port (Syscall.connect libc fd address port) (waited revents)
      (getsockoptError libc fd) waits (.done rv amount)) :
    ConnectTells (libc.connect fd address port clearerrno) (libc.getsockopt fd clearerrno) waits
      rv := by
  have hcode : Syscall.connect libc fd address port =
      if (libc.connect fd address port clearerrno).1 = 0 then .success
      else errnoMap (libc.connect fd address port clearerrno).2 := by
    rw [Syscall.connect, onAddress_eq hresolved]
    rcases hkeeps with hrv | hsame
    · rw [if_pos hrv, if_pos hrv]
    · rw [hsame]
  have herrno := hreports.connect fd address port clearerrno
  have hsockopt := hreports.getsockopt fd clearerrno
  rw [getsockoptError_eq] at h
  generalize Syscall.connect libc fd address port = code at h hcode
  generalize libc.connect fd address port clearerrno = connect at hcode herrno ⊢
  generalize libc.getsockopt fd clearerrno = getsockopt at h hsockopt ⊢
  have hprogress : code = .einprogress → connect.1 ≠ 0 ∧ connect.2 = Posix.EINPROGRESS := by
    intro hcalled
    rw [hcalled] at hcode
    by_cases hrv : connect.1 = 0
    · simp [hrv] at hcode
    · rw [if_neg hrv] at hcode
      exact ⟨hrv, (errnoMap_eq_einprogress_iff _).mp hcode.symm⟩
  cases h with
  | settled hcalled =>
      by_cases hrv : connect.1 = 0
      · rw [if_pos hrv] at hcode
        exact ⟨by simp [hcode, hrv], fun h => absurd hcode h⟩
      · rw [if_neg hrv] at hcode
        have hfailed : rv ≠ .success := by
          rw [hcode, ne_eq, errnoMap_eq_success_iff]
          exact herrno hrv
        have hrefused : connect.2 ≠ Posix.EINPROGRESS := by
          rw [ne_eq, ← errnoMap_eq_einprogress_iff, ← hcode]
          exact hcalled
        exact ⟨by simp [hfailed, hrv], fun _ => ⟨hrv, .inl ⟨hrefused, hcode⟩⟩⟩
  | expired hcalled hwait =>
      obtain ⟨hrv, hinprogress⟩ := hprogress hcalled
      refine connectTells_inProgress hrv hinprogress ?_ ?_
      · simp [hwait, Ne.symm hwait]
      · have hexpired := waited_eq_etimedout hwait
        simp [hexpired]
  | unchecked hcalled hwait hchecked =>
      obtain ⟨hrv, hinprogress⟩ := hprogress hcalled
      have hfailed : getsockopt.1 ≠ 0 := by
        intro hzero
        simp [hzero] at hchecked
      refine connectTells_inProgress hrv hinprogress ?_ ?_
      · simp [hfailed, errnoMap_eq_success_iff, hsockopt hfailed]
      · simp [hfailed, hwait]
  | checked hcalled hwait hchecked =>
      obtain ⟨hrv, hinprogress⟩ := hprogress hcalled
      have hsucceeded : getsockopt.1 = 0 := by
        by_contra hfailed
        simp [hfailed, errnoMap_eq_success_iff, hsockopt hfailed] at hchecked
      refine connectTells_inProgress hrv hinprogress ?_ ?_
      · simp [hsucceeded, hwait, errnoMap_eq_success_iff]
      · simp [hsucceeded, hwait]

-- Otherwise some wake-up and some SO_ERROR bring a result that is not true.
theorem Connecting.not_tells {getsockopt : Int32 × Int32 × Int32}
    (hresolved : libc.getaddrinfo address port = 0)
    (hkeeps : ¬libc.Keeps (libc.connect fd address port clearerrno)) (hwait : wait = .success)
    (h : Connecting idx address port (Syscall.connect libc fd address port) wait
      (.success, .success) waits (.done rv amount)) :
    ¬ConnectTells (libc.connect fd address port clearerrno) getsockopt waits rv := by
  obtain ⟨hrv, hclobbered⟩ := not_or.mp hkeeps
  have hcode : Syscall.connect libc fd address port =
      errnoMap (libc.freeaddrinfo (libc.connect fd address port clearerrno).2) := by
    rw [Syscall.connect, onAddress_eq hresolved, if_neg hrv]
  rw [← hcode] at hclobbered
  generalize Syscall.connect libc fd address port = code at h hclobbered
  generalize libc.connect fd address port clearerrno = connect at hrv hclobbered ⊢
  intro htells
  cases h with
  | settled hcalled =>
      have hfailed : rv ≠ .success := by
        intro hsuccess
        simpa [hrv] using htells.connected.mp hsuccess
      obtain ⟨-, ⟨-, hcode⟩ | ⟨-, hlater⟩⟩ := htells.failed hfailed
      · exact hclobbered hcode
      · simp at hlater
  | expired _ hexpired => exact absurd hwait hexpired
  | unchecked _ _ hchecked => exact absurd rfl hchecked
  | checked hcalled =>
      rcases htells.connected.mp rfl with hzero | ⟨-, hprogress, -⟩
      · exact hrv hzero
      · rw [hcalled, eq_comm, errnoMap_eq_einprogress_iff] at hclobbered
        exact hclobbered hprogress

theorem connect_bind_iff (hreports : libc.Reports) (hresolved : libc.getaddrinfo address port = 0)
    (hfinds : table.Finds sock) :
    ((∀ revents getsockopt, { libc with getsockopt := getsockopt }.Reports →
        (∃ turns rv amount, Connects { libc with getsockopt := getsockopt } revents table sock
          address port turns (.done rv amount)) ∧
        ∀ turns rv amount, Connects { libc with getsockopt := getsockopt } revents table sock
          address port turns (.done rv amount) →
          ConnectTells (libc.connect (table.sockets (indexOf sock)).fd address port clearerrno)
            (getsockopt (table.sockets (indexOf sock)).fd clearerrno) (suspensions turns) rv) ↔
      libc.Keeps (libc.connect (table.sockets (indexOf sock)).fd address port clearerrno)) ∧
    ∀ fd, ((Syscall.bind libc fd address port = .success ↔
          (libc.bind fd address port clearerrno).1 = 0) ∧
        ((libc.bind fd address port clearerrno).1 ≠ 0 → Syscall.bind libc fd address port =
          errnoMap (libc.bind fd address port clearerrno).2)) ↔
      libc.Keeps (libc.bind fd address port clearerrno) := by
  refine ⟨⟨?_, ?_⟩, ?_⟩
  · intro hclaim
    by_contra hkeeps
    have hquiet : { libc with getsockopt := fun _ _ => (0, 0, 0) }.Reports :=
      ⟨hreports.connect, hreports.bind, fun _ _ h => absurd rfl h⟩
    obtain ⟨⟨turns, rv, amount, hconnects⟩, htells⟩ := hclaim POLLOUT _ hquiet
    have hconnecting := hconnects.connecting hfinds
    exact Connecting.not_tells hresolved hkeeps (by decide) hconnecting
      (htells turns rv amount hconnects)
  · intro hkeeps revents getsockopt hok
    refine ⟨exists_connects _ revents hfinds address port, ?_⟩
    intro turns rv amount hconnects
    exact Connecting.tells hok hresolved hkeeps (hconnects.connecting hfinds)
  · intro fd
    exact onAddress_iff hresolved (hreports.bind fd address port clearerrno)

-- A libc that finds the connection in progress and the local address in use, with what its
-- freeaddrinfo makes of errno.
def busyLibc (freeaddrinfo : Int32 → Int32) : Libc where
  getaddrinfo := fun _ _ => 0
  connect := fun _ _ _ _ => (-1, Posix.EINPROGRESS)
  bind := fun _ _ _ _ => (-1, Posix.EADDRINUSE)
  freeaddrinfo := freeaddrinfo
  getsockopt := fun _ errno => (0, errno, 0)

theorem busyLibc_reports (freeaddrinfo : Int32 → Int32) : (busyLibc freeaddrinfo).Reports where
  connect := by simp [busyLibc, Posix.EINPROGRESS]
  bind := by simp [busyLibc, Posix.EADDRINUSE]
  getsockopt := by simp [busyLibc]

theorem connect_bind_iff_busyLibc :
    Syscall.bind (busyLibc id) 3 "127.0.0.1" "80" = .eaddrinuse ∧
    ∃ turns rv amount, Connects (busyLibc id) POLLOUT firstSocket 0x100000000000000
        "127.0.0.1" "80" turns (.done rv amount) ∧
      ConnectTells (-1, Posix.EINPROGRESS) (0, 0, 0) (suspensions turns) rv := by
  obtain ⟨hconnect, hbind⟩ := @connect_bind_iff (busyLibc id) _ _ "127.0.0.1" "80"
    (busyLibc_reports id) rfl firstSocket_finds
  refine ⟨((hbind 3).mpr (.inr rfl)).2 (by decide), ?_⟩
  obtain ⟨⟨turns, rv, amount, hconnects⟩, htells⟩ := hconnect.mpr (.inr rfl) POLLOUT
    (fun _ errno => (0, errno, 0)) (busyLibc_reports id)
  exact ⟨turns, rv, amount, hconnects, htells turns rv amount hconnects⟩

-- A freeaddrinfo that leaves ENOMEM turns a connection in progress into a failure.
theorem clobbered_connect :
    ¬∀ libc revents table sock address port turns rv amount, libc.Reports →
      libc.getaddrinfo address port = 0 → table.Finds sock →
      Connects libc revents table sock address port turns (.done rv amount) →
      ConnectTells (libc.connect (table.sockets (indexOf sock)).fd address port clearerrno)
        (libc.getsockopt (table.sockets (indexOf sock)).fd clearerrno) (suspensions turns) rv := by
  intro hclaim
  let libc := busyLibc fun _ => Posix.ENOMEM
  have hreports : libc.Reports := busyLibc_reports _
  obtain ⟨turns, rv, amount, hconnects⟩ :=
    exists_connects libc POLLOUT firstSocket_finds "127.0.0.1" "80"
  have hclobbered : ¬libc.Keeps (-1, Posix.EINPROGRESS) := by
    rintro (hzero | hsame)
    · exact absurd hzero (by decide)
    · exact absurd hsame (by decide)
  have htells := hclaim _ _ _ _ _ _ _ _ _ hreports rfl firstSocket_finds hconnects
  exact Connecting.not_tells rfl hclobbered (by decide) (hconnects.connecting firstSocket_finds)
    htells

end Minimk.Socket
