import Mathlib.Data.Nat.Bitwise
import Mathlib.Order.Bounds.Defs
import Mathlib.Tactic.Common

namespace Alignment

variable {size unit word mask : UInt64} {k : Nat}

-- A mask of low bits clears what is above the last multiple of its power of two.
theorem toNat_and_not_mask (hmask : mask.toNat = 2 ^ k - 1) :
    (word &&& ~~~mask).toNat = word.toNat / 2 ^ k * 2 ^ k := by
  apply Nat.eq_of_testBit_eq
  intro i
  have hbound := mask.toNat_lt
  have hnot : (~~~mask).toNat = 2 ^ 64 - (mask.toNat + 1) := by
    rw [UInt64.toNat_not]
    show 2 ^ 64 - 1 - mask.toNat = _
    omega
  rw [UInt64.toNat_and, Nat.testBit_and, hnot, Nat.testBit_two_pow_sub_succ hbound, hmask,
    Nat.testBit_two_pow_sub_one, Nat.testBit_mul_two_pow, Nat.testBit_div_two_pow]
  by_cases hk : k ≤ i
  · rw [Nat.sub_add_cancel hk]
    by_cases hi : i < 64
    · simp [hk, hi]
    · have hword : word.toNat < 2 ^ i :=
        Nat.lt_of_lt_of_le word.toNat_lt (Nat.pow_le_pow_right (by decide) (by omega))
      simp [hk, Nat.testBit_lt_two_pow hword]
  · simp [hk, Nat.lt_of_not_le hk]

-- The usual way to round up: add the mask of the unit, then clear its bits.
def roundUp (unit size : UInt64) : UInt64 :=
  let mask := unit - 1
  (size + mask) &&& ~~~mask

theorem toNat_roundUp (hunit : unit.toNat = 2 ^ k) (hfits : size.toNat + 2 ^ k ≤ 2 ^ 64) :
    (roundUp unit size).toNat = (size.toNat + (2 ^ k - 1)) / 2 ^ k * 2 ^ k := by
  have hone : (1 : UInt64).toNat = 1 := rfl
  have hpos : 0 < 2 ^ k := Nat.two_pow_pos k
  have hmask : (unit - 1).toNat = 2 ^ k - 1 := by
    rw [UInt64.toNat_sub_of_le, hunit, hone]
    rw [UInt64.le_iff_toNat_le, hunit, hone]
    exact hpos
  rw [roundUp, toNat_and_not_mask hmask, UInt64.toNat_add, hmask, Nat.mod_eq_of_lt (by omega)]

theorem roundUp_isLeast (hunit : unit.toNat = 2 ^ k) (hfits : size.toNat + 2 ^ k ≤ 2 ^ 64) :
    IsLeast {n | unit.toNat ∣ n ∧ size.toNat ≤ n} (roundUp unit size).toNat := by
  have hpos : 0 < 2 ^ k := Nat.two_pow_pos k
  rw [toNat_roundUp hunit hfits, hunit]
  generalize 2 ^ k = p at hpos
  have hround := Nat.div_add_mod (size.toNat + (p - 1)) p
  have hmod := Nat.mod_lt (size.toNat + (p - 1)) hpos
  rw [Nat.mul_comm] at hround
  constructor
  · refine ⟨Nat.dvd_mul_left p _, ?_⟩
    omega
  · rintro n ⟨⟨count, rfl⟩, hle⟩
    rw [Nat.mul_comm p count]
    apply Nat.mul_le_mul_right
    rw [← Nat.lt_succ_iff, Nat.div_lt_iff_lt_mul hpos, Nat.succ_mul, Nat.mul_comm count]
    omega

end Alignment
