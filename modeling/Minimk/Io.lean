import Minimk.Assert
import Minimk.Errno
import Minimk.Integer

namespace Minimk.Io

open Abort Integer

-- One turn of the loops below, from what the call returned: the new total, or the error.
def turn (nonzero amount : Assertion) (count total : UInt64) (rv : Error) (moved : UInt64) :
    Except Assertion (Except Error UInt64) :=
  if rv = .eintr then .ok (.ok total)
  else if rv ≠ .success then .ok (.error rv)
  else do
    assert (moved > 0) nonzero
    assert (moved ≤ count - total) amount
    return .ok (total + moved)

def writeallTurn : UInt64 → UInt64 → Error → UInt64 → Except Assertion (Except Error UInt64) :=
  turn .writeallNonzero .writeallAmount

def readallTurn : UInt64 → UInt64 → Error → UInt64 → Except Assertion (Except Error UInt64) :=
  turn .readallNonzero .readallAmount

-- Pointer arithmetic within the buffer does not overflow.
def writeallStart (buf count : UInt64) : Except Assertion PUnit :=
  assert (buf ≤ UINT64_MAX - count) .writeallPointer

def readallStart (buf count : UInt64) : Except Assertion PUnit :=
  assert (buf ≤ UINT64_MAX - count) .readallPointer

variable {nonzero amount : Assertion} {count total moved : UInt64} {rv : Error}

theorem turn_eq_ok {next : UInt64} (h : turn nonzero amount count total rv moved = .ok (.ok next)) :
    rv = .eintr ∧ next = total ∨ rv = .success ∧ moved ≤ count - total ∧ next = total + moved := by
  unfold turn at h
  split_ifs at h with heintr hrv
  · exact .inl ⟨heintr, by simpa using h.symm⟩
  · cases Except.ok.inj h
  · obtain ⟨_, hnonzero, h⟩ := (bind_eq_ok_iff _ _ _).mp h
    obtain ⟨_, hamount, h⟩ := (bind_eq_ok_iff _ _ _).mp h
    refine .inr ⟨not_not.mp hrv, (assert_eq_ok_iff _).mp hamount, ?_⟩
    simpa using h.symm

theorem turn_eq_error {code : Error}
    (h : turn nonzero amount count total rv moved = .ok (.error code)) :
    rv = code ∧ rv ≠ .eintr ∧ rv ≠ .success := by
  unfold turn at h
  split_ifs at h with heintr hrv
  · cases Except.ok.inj h
  · exact ⟨by simpa using h, heintr, hrv⟩
  · obtain ⟨_, hnonzero, h⟩ := (bind_eq_ok_iff _ _ _).mp h
    obtain ⟨_, hamount, h⟩ := (bind_eq_ok_iff _ _ _).mp h
    cases Except.ok.inj h

end Minimk.Io
