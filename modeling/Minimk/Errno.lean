import Mathlib.Tactic.Common

namespace Minimk

-- `MINIMK_EWOULDBLOCK` is the same code as `MINIMK_EAGAIN`.
inductive Error where
  | success | eunknown | efault | einval | eacces | eaddrinuse | eafnosupport | eagain
  | econnrefused | econnreset | ehostunreach | einprogress | eintr | enetunreach | enobufs
  | eprotonosupport | etimedout | enomem | eof | ebadf | emfile
  deriving DecidableEq, Repr

-- The values of <errno.h> on linux.
namespace Posix

def EINTR : Int32 := 4
def EBADF : Int32 := 9
def EAGAIN : Int32 := 11
def ENOMEM : Int32 := 12
def EACCES : Int32 := 13
def EFAULT : Int32 := 14
def EINVAL : Int32 := 22
def EMFILE : Int32 := 24
def EPROTONOSUPPORT : Int32 := 93
def EAFNOSUPPORT : Int32 := 97
def EADDRINUSE : Int32 := 98
def ENETUNREACH : Int32 := 101
def ECONNRESET : Int32 := 104
def ENOBUFS : Int32 := 105
def ETIMEDOUT : Int32 := 110
def ECONNREFUSED : Int32 := 111
def EHOSTUNREACH : Int32 := 113
def EINPROGRESS : Int32 := 115

end Posix

open Posix in
def errnoMap (posixErrno : Int32) : Error :=
  if posixErrno = 0 then .success
  else if posixErrno = EAGAIN then .eagain
  else if posixErrno = ECONNREFUSED then .econnrefused
  else if posixErrno = ECONNRESET then .econnreset
  else if posixErrno = EFAULT then .efault
  else if posixErrno = EHOSTUNREACH then .ehostunreach
  else if posixErrno = EINPROGRESS then .einprogress
  else if posixErrno = EINTR then .eintr
  else if posixErrno = EINVAL then .einval
  else if posixErrno = EACCES then .eacces
  else if posixErrno = EADDRINUSE then .eaddrinuse
  else if posixErrno = EAFNOSUPPORT then .eafnosupport
  else if posixErrno = ENETUNREACH then .enetunreach
  else if posixErrno = ENOBUFS then .enobufs
  else if posixErrno = EPROTONOSUPPORT then .eprotonosupport
  else if posixErrno = ETIMEDOUT then .etimedout
  else if posixErrno = ENOMEM then .enomem
  else if posixErrno = EBADF then .ebadf
  else if posixErrno = EMFILE then .emfile
  else .eunknown

private theorem ite_ne {p : Prop} [Decidable p] {a b code : Error} (ha : a ≠ code)
    (hb : b ≠ code) : (if p then a else b) ≠ code := by
  split <;> assumption

theorem errnoMap_eq_success_iff (posixErrno : Int32) :
    errnoMap posixErrno = .success ↔ posixErrno = 0 := by
  constructor
  · intro h
    by_contra hne
    refine absurd h ?_
    rw [errnoMap, if_neg hne]
    repeat' apply ite_ne
    all_goals decide
  · rintro rfl
    rfl

theorem errnoMap_eq_einprogress_iff (posixErrno : Int32) :
    errnoMap posixErrno = .einprogress ↔ posixErrno = Posix.EINPROGRESS := by
  constructor
  · intro h
    by_contra hne
    refine absurd h ?_
    simp only [errnoMap, hne, ↓reduceIte]
    repeat' apply ite_ne
    all_goals decide
  · rintro rfl
    rfl

end Minimk
