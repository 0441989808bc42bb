import Minimk.Abort
import Minimk.Errno
import Minimk.Integer

namespace Minimk.Time

open Abort Integer

-- What clock_gettime(2) returned, the time it stored and the errno it set.
structure ClockReply where
  rv : Int32
  sec : Int64
  nsec : Int64
  errno : Int32
  deriving DecidableEq, Repr

def gettimeMonotonic (reply : ClockReply) : Error × UInt64 × UInt64 :=
  let sec := if reply.rv = 0 then reply.sec.toUInt64 else 0
  let nsec := if reply.rv = 0 then reply.nsec.toUInt64 else 0
  (if reply.rv ≠ 0 then errnoMap reply.errno else .success, sec, nsec)

-- How a reading of the clock can end without a value.
inductive Fault where
  | monotonicNowRv
  | divisionByZero
  deriving DecidableEq, Repr

def monotonicNow (reply : ClockReply) : Except Fault UInt64 := do
  let (rv, sec, nsec) := gettimeMonotonic reply
  assert (rv = .success) .monotonicNowRv
  match u64Satmul sec 1000000000 with
  | some now => return u64Satadd now nsec
  | none => .error .divisionByZero

-- The reading in exact integers, up to the largest word.
theorem monotonicNow_eq {reply : ClockReply} (hrv : reply.rv = 0) :
    ∃ now, monotonicNow reply = .ok now ∧
      now.toNat = min (reply.sec.toUInt64.toNat * 1000000000 + reply.nsec.toUInt64.toNat)
        (2 ^ 64 - 1) := by
  obtain ⟨product, hproduct, hnat⟩ :=
    @toNat_u64Satmul reply.sec.toUInt64 1000000000 (by decide)
  refine ⟨u64Satadd product reply.nsec.toUInt64, ?_, ?_⟩
  · simp [monotonicNow, gettimeMonotonic, hrv, hproduct]
  · have hbillion : (1000000000 : UInt64).toNat = 1000000000 := rfl
    rw [hbillion] at hnat
    rw [toNat_u64Satadd, hnat]
    omega

end Minimk.Time
