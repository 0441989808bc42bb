import Minimk.Errno

namespace Minimk.Syscall

def SSIZE_MAX : UInt64 := 0x7fffffffffffffff

-- What send(2) and recv(2) return, with the errno of a failure.
structure Returned where
  rv : Int
  errno : Error
  deriving DecidableEq, Repr

def clampCount (count : UInt64) : UInt64 := if count ≤ SSIZE_MAX then count else SSIZE_MAX

def nmoved (returned : Returned) : UInt64 :=
  if returned.rv > 0 then UInt64.ofNat returned.rv.toNat else 0

def send (count : UInt64) (sysSend : UInt64 → Returned) : Error × UInt64 :=
  if count ≤ 0 then (.einval, 0)
  else
    let returned := sysSend (clampCount count)
    (if returned.rv = -1 then returned.errno else .success, nmoved returned)

def recv (count : UInt64) (sysRecv : UInt64 → Returned) : Error × UInt64 :=
  if count ≤ 0 then (.einval, 0)
  else
    let returned := sysRecv (clampCount count)
    (if returned.rv = -1 then returned.errno else if returned.rv = 0 then .eof else .success,
      nmoved returned)

end Minimk.Syscall
