import Minimk.Socket.Handle
import Mathlib.Data.Nat.Bitwise

namespace Minimk.Socket

open Abort

-- The fields of a handle as digits: the index, then the generation, then the type.
theorem toNat_handleIndex (handle : UInt64) : (handleIndex handle).toNat = handle.toNat % 256 := by
  have hmask : (0x00000000000000ff : UInt64).toNat = 2 ^ 8 - 1 := rfl
  rw [handleIndex, UInt64.toNat_and, hmask, Nat.and_two_pow_sub_one_eq_mod]

theorem toNat_handleType (handle : UInt64) :
    (handleType handle).toNat = handle.toNat / 2 ^ 56 := by
  have hlt := handle.toNat_lt
  have hmask : (0xff00000000000000 : UInt64).toNat >>> 56 = 2 ^ 8 - 1 := rfl
  have hshift : (56 : UInt64).toNat % 64 = 56 := rfl
  rw [handleType, UInt64.toNat_toUInt8, UInt64.toNat_shiftRight, hshift, UInt64.toNat_and,
    Nat.shiftRight_and_distrib, hmask, Nat.and_two_pow_sub_one_eq_mod, Nat.shiftRight_eq_div_pow]
  omega

theorem toNat_handleGeneration (handle : UInt64) :
    (handleGeneration handle).toNat = handle.toNat / 256 % 2 ^ 48 := by
  have hmask : (0x00ffffffffffff00 : UInt64).toNat >>> 8 = 2 ^ 48 - 1 := rfl
  have hshift : (8 : UInt64).toNat % 64 = 8 := rfl
  rw [handleGeneration, UInt64.toNat_shiftRight, hshift, UInt64.toNat_and,
    Nat.shiftRight_and_distrib, hmask, Nat.and_two_pow_sub_one_eq_mod, Nat.shiftRight_eq_div_pow]

theorem handleGenerationValid_iff (generation : UInt64) :
    handleGenerationValid generation ↔ generation.toNat < 2 ^ 48 := by
  have hlt := generation.toNat_lt
  have hmask : (0xffff000000000000 : UInt64).toNat = (2 ^ 16 - 1) <<< 48 := rfl
  have hand : (generation &&& 0xffff000000000000).toNat =
      (generation.toNat / 2 ^ 48) <<< 48 := by
    rw [UInt64.toNat_and, hmask]
    apply Nat.eq_of_testBit_eq
    intro i
    rw [Nat.testBit_and, Nat.testBit_shiftLeft, Nat.testBit_shiftLeft,
      Nat.testBit_two_pow_sub_one, Nat.testBit_div_two_pow]
    by_cases hi : 48 ≤ i
    · by_cases htop : i - 48 < 16
      · have hsum : 48 + (i - 48) = i := by omega
        simp [hi, htop, Nat.add_comm]
      · have hzero : generation.toNat.testBit i = false := by
          refine Nat.testBit_lt_two_pow (lt_of_lt_of_le hlt ?_)
          exact Nat.pow_le_pow_right (by decide) (by omega)
        simp [hi, hzero]
    · simp [hi]
  constructor
  · intro hv
    have hz : (generation &&& 0xffff000000000000).toNat = 0 := by
      rw [hv]
      rfl
    rw [hand, Nat.shiftLeft_eq] at hz
    omega
  · intro hg
    apply UInt64.toNat_inj.mp
    rw [hand, Nat.shiftLeft_eq]
    change generation.toNat / 2 ^ 48 * 2 ^ 48 = 0
    omega

theorem makeHandle_eq_ok {type : UInt8} {generation : UInt64} {index : UInt8}
    (hg : generation.toNat < 2 ^ 48) :
    ∃ handle, makeHandle type generation index = .ok handle ∧
      handle.toNat = type.toNat * 2 ^ 56 + generation.toNat * 256 + index.toNat := by
  have hvalid := (handleGenerationValid_iff generation).mpr hg
  refine ⟨(type.toUInt64 <<< 56 ||| generation <<< 8) ||| index.toUInt64,
    by simp [makeHandle, hvalid], ?_⟩
  have htype := type.toNat_lt
  have hindex := index.toNat_lt
  have hfirst : (type.toUInt64 <<< 56).toNat = type.toNat * 2 ^ 56 := by
    rw [UInt64.toNat_shiftLeft, UInt8.toNat_toUInt64]
    change type.toNat <<< 56 % 2 ^ 64 = _
    rw [Nat.shiftLeft_eq]
    omega
  have hsecond : (generation <<< 8).toNat = generation.toNat * 2 ^ 8 := by
    rw [UInt64.toNat_shiftLeft]
    change generation.toNat <<< 8 % 2 ^ 64 = _
    rw [Nat.shiftLeft_eq]
    omega
  have hupper : (type.toUInt64 <<< 56 ||| generation <<< 8).toNat =
      type.toNat * 2 ^ 56 + generation.toNat * 2 ^ 8 := by
    rw [UInt64.toNat_or, hfirst, hsecond, ← Nat.shiftLeft_eq type.toNat,
      Nat.shiftLeft_add_eq_or_of_lt (by omega)]
  have hshape : type.toNat * 2 ^ 56 + generation.toNat * 2 ^ 8 =
      (type.toNat * 2 ^ 48 + generation.toNat) <<< 8 := by
    rw [Nat.shiftLeft_eq]
    omega
  rw [UInt64.toNat_or, hupper, UInt8.toNat_toUInt64, hshape,
    ← Nat.shiftLeft_add_eq_or_of_lt (by omega), Nat.shiftLeft_eq, Nat.add_mul, Nat.mul_assoc]
  simp only [Nat.reducePow, Nat.reduceMul]

theorem makeHandle_eq_error {type : UInt8} {generation : UInt64} {index : UInt8}
    (hg : 2 ^ 48 ≤ generation.toNat) :
    makeHandle type generation index = .error .makeHandleGeneration := by
  have hvalid : ¬handleGenerationValid generation := by
    rw [handleGenerationValid_iff]
    omega
  simp [makeHandle, assert, hvalid]

-- A handle takes its three parts back out as they were put in.
theorem makeHandle_fields {type : UInt8} {generation handle : UInt64} {index : UInt8}
    (h : makeHandle type generation index = .ok handle) :
    handleType handle = type ∧ handleGeneration handle = generation ∧
      (handleIndex handle).toNat = index.toNat := by
  have htype := type.toNat_lt
  have hindex := index.toNat_lt
  have hg : generation.toNat < 2 ^ 48 := by
    by_contra hge
    rw [makeHandle_eq_error (by omega)] at h
    cases h
  obtain ⟨other, hok, hnat⟩ := @makeHandle_eq_ok type generation index hg
  obtain rfl : handle = other := by simpa [h] using hok
  refine ⟨UInt8.toNat_inj.mp ?_, UInt64.toNat_inj.mp ?_, ?_⟩
  · rw [toNat_handleType, hnat]
    omega
  · rw [toNat_handleGeneration, hnat]
    omega
  · rw [toNat_handleIndex, hnat]
    omega

end Minimk.Socket
