import Minimk.Syscall.Address

namespace Minimk.Syscall

-- What a system call returns as an int, and errno when it is read back.
structure Outcome where
  rv : Int32
  errno : Int32
  deriving DecidableEq, Repr

-- The calls that return 0 or fail.
def status (outcome : Outcome) : Error :=
  if outcome.rv = 0 then .success else geterrno outcome.errno

-- The caller's descriptor is invalid afterwards, also where the call fails.
def closesocket (outcome : Outcome) : Error × Int32 := (status outcome, -1)

def listen (outcome : Outcome) : Error := status outcome

def setsockoptReuseaddr (outcome : Outcome) : Error := status outcome

-- Linux has no SO_NOSIGPIPE.
def setsockoptNosigpipe : Error := .success

def socket (fdesc : Outcome) : Error × Int32 :=
  (if fdesc.rv ≥ 0 then .success else geterrno fdesc.errno, if fdesc.rv ≥ 0 then fdesc.rv else -1)

def accept (clientSock : Outcome) : Error × Int32 :=
  (if clientSock.rv = -1 then geterrno clientSock.errno else .success, clientSock.rv)

-- The value on linux.
def O_NONBLOCK : Int32 := 2048

def socketSetnonblock (getfl : Outcome) (setfl : Int32 → Outcome) : Error :=
  if getfl.rv = -1 then geterrno getfl.errno
  else
    let outcome := setfl (getfl.rv ||| O_NONBLOCK)
    if outcome.rv = -1 then geterrno outcome.errno else .success

def UINT16_MAX : UInt64 := 0xffff

def poll (size : UInt64) (timeout : Int) (sysPoll : UInt64 → Int → Outcome) :
    Error × UInt64 :=
  let outcome := sysPoll (if size ≤ UINT16_MAX then size else UINT16_MAX) timeout
  (if outcome.rv ≥ 0 then .success else geterrno outcome.errno,
    if outcome.rv ≥ 0 then outcome.rv.toInt64.toUInt64 else 0)

-- The errno that a code stands for; none sets EUNKNOWN or EOF.
def posixOf : Error → Int32
  | .success | .eunknown | .eof => 0
  | .efault => Posix.EFAULT
  | .einval => Posix.EINVAL
  | .eacces => Posix.EACCES
  | .eaddrinuse => Posix.EADDRINUSE
  | .eafnosupport => Posix.EAFNOSUPPORT
  | .eagain => Posix.EAGAIN
  | .econnrefused => Posix.ECONNREFUSED
  | .econnreset => Posix.ECONNRESET
  | .ehostunreach => Posix.EHOSTUNREACH
  | .einprogress => Posix.EINPROGRESS
  | .eintr => Posix.EINTR
  | .enetunreach => Posix.ENETUNREACH
  | .enobufs => Posix.ENOBUFS
  | .eprotonosupport => Posix.EPROTONOSUPPORT
  | .etimedout => Posix.ETIMEDOUT
  | .enomem => Posix.ENOMEM
  | .ebadf => Posix.EBADF
  | .emfile => Posix.EMFILE

def StandsFor (errno : Int32) (code : Error) : Prop := code ≠ .eunknown → posixOf code = errno

theorem StandsFor.ite {p : Prop} [Decidable p] {errno : Int32} {a b : Error}
    (ha : p → StandsFor errno a) (hb : StandsFor errno b) :
    StandsFor errno (if p then a else b) := by
  split
  · exact ha ‹_›
  · exact hb

theorem errnoMap_standsFor (errno : Int32) : StandsFor errno (errnoMap errno) := by
  unfold errnoMap
  repeat' apply StandsFor.ite
  all_goals first
    | exact fun h _ => h.symm
    | exact fun h => absurd rfl h

-- Only the codes without one of their own are confused.
theorem errnoMap_eq_iff {errno code : Int32} (hcode : errnoMap code ≠ .eunknown) :
    errnoMap errno = errnoMap code ↔ errno = code := by
  constructor
  · intro h
    rw [← errnoMap_standsFor code hcode, ← h, errnoMap_standsFor errno (h ▸ hcode)]
  · rintro rfl
    rfl

-- A poll that a signal has interrupted is told from one that has failed.
theorem poll_eq_eintr_iff (size : UInt64) (timeout : Int)
    (sysPoll : UInt64 → Int → Outcome) :
    (poll size timeout sysPoll).1 = .eintr ↔
      (sysPoll (if size ≤ UINT16_MAX then size else UINT16_MAX) timeout).rv < 0 ∧
        (sysPoll (if size ≤ UINT16_MAX then size else UINT16_MAX) timeout).errno = Posix.EINTR := by
  unfold poll geterrno
  generalize sysPoll (if size ≤ UINT16_MAX then size else UINT16_MAX) timeout = outcome
  by_cases hrv : outcome.rv ≥ 0
  · have hnot : ¬outcome.rv < 0 := Int32.not_lt.mpr hrv
    simp [hrv, hnot]
  · have hneg : outcome.rv < 0 := Int32.not_le.mp hrv
    have heintr : errnoMap outcome.errno = .eintr ↔ outcome.errno = Posix.EINTR :=
      @errnoMap_eq_iff outcome.errno Posix.EINTR (by decide)
    simpa [hrv, hneg] using heintr

end Minimk.Syscall
