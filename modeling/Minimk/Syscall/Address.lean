import Minimk.Syscall

namespace Minimk.Syscall

-- The libc, down to the kernel. What may write to errno is given its value and returns the new one
-- in the second place; getsockopt also returns SO_ERROR.
structure Libc where
  getaddrinfo : String → String → Int32
  connect : Int32 → String → String → Int32 → Int32 × Int32
  bind : Int32 → String → String → Int32 → Int32 × Int32
  freeaddrinfo : Int32 → Int32
  getsockopt : Int32 → Int32 → Int32 × Int32 × Int32

-- A system call that fails says why.
structure Libc.Reports (libc : Libc) : Prop where
  connect : ∀ sock address port errno, (libc.connect sock address port errno).1 ≠ 0 →
    (libc.connect sock address port errno).2 ≠ 0
  bind : ∀ sock address port errno, (libc.bind sock address port errno).1 ≠ 0 →
    (libc.bind sock address port errno).2 ≠ 0
  getsockopt : ∀ sock errno, (libc.getsockopt sock errno).1 ≠ 0 →
    (libc.getsockopt sock errno).2.1 ≠ 0

-- errno after `minimk_syscall_clearerrno`.
def clearerrno : Int32 := 0

def geterrno (errno : Int32) : Error := errnoMap errno

-- `minimk_syscall_connect_impl` and `minimk_syscall_bind_impl` up to the system call. The errno
-- that they read is the one that freeaddrinfo leaves.
def onAddress (libc : Libc) (sysCall : Int32 → String → String → Int32 → Int32 × Int32)
    (sock : Int32) (address port : String) : Error :=
  if libc.getaddrinfo address port ≠ 0 then .einval
  else
    let (rv, errno) := sysCall sock address port clearerrno
    let errno := libc.freeaddrinfo errno
    if rv = 0 then .success else geterrno errno

def connect (libc : Libc) : Int32 → String → String → Error := onAddress libc libc.connect

def bind (libc : Libc) : Int32 → String → String → Error := onAddress libc libc.bind

def getsockoptError (libc : Libc) (sock : Int32) : Error × Error :=
  let (rv, errno, soerr) := libc.getsockopt sock clearerrno
  (if rv = 0 then .success else geterrno errno, if rv = 0 then errnoMap soerr else .success)

-- The code of an outcome of connect(2) or bind(2) survives freeaddrinfo.
def Libc.Keeps (libc : Libc) (outcome : Int32 × Int32) : Prop :=
  outcome.1 = 0 ∨ errnoMap (libc.freeaddrinfo outcome.2) = errnoMap outcome.2

variable {libc : Libc} {sysCall : Int32 → String → String → Int32 → Int32 × Int32} {sock : Int32}
  {address port : String}

theorem onAddress_eq (hresolved : libc.getaddrinfo address port = 0) :
    onAddress libc sysCall sock address port =
      if (sysCall sock address port clearerrno).1 = 0 then .success
      else errnoMap (libc.freeaddrinfo (sysCall sock address port clearerrno).2) := by
  rw [onAddress, if_neg (by simp [hresolved])]
  rfl

theorem getsockoptError_eq (libc : Libc) (sock : Int32) : getsockoptError libc sock =
    (if (libc.getsockopt sock clearerrno).1 = 0 then .success
      else errnoMap (libc.getsockopt sock clearerrno).2.1,
    if (libc.getsockopt sock clearerrno).1 = 0 then errnoMap (libc.getsockopt sock clearerrno).2.2
      else .success) := rfl

-- What the code tells about the system call is right exactly if it survives.
theorem onAddress_iff (hresolved : libc.getaddrinfo address port = 0)
    (hreports : (sysCall sock address port clearerrno).1 ≠ 0 →
      (sysCall sock address port clearerrno).2 ≠ 0) :
    ((onAddress libc sysCall sock address port = .success ↔
        (sysCall sock address port clearerrno).1 = 0) ∧
      ((sysCall sock address port clearerrno).1 ≠ 0 → onAddress libc sysCall sock address port =
        errnoMap (sysCall sock address port clearerrno).2)) ↔
      libc.Keeps (sysCall sock address port clearerrno) := by
  rw [onAddress_eq hresolved, Libc.Keeps]
  generalize sysCall sock address port clearerrno = outcome at hreports ⊢
  by_cases hrv : outcome.1 = 0
  · simp [hrv]
  · have herrno : errnoMap outcome.2 ≠ .success := by
      rw [ne_eq, errnoMap_eq_success_iff]
      exact hreports hrv
    simp only [hrv, ↓reduceIte, iff_false, ne_eq, not_false_eq_true, forall_const, false_or,
      and_iff_right_iff_imp]
    intro hsame
    rw [hsame]
    exact herrno

end Minimk.Syscall
