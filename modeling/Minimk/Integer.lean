import Minimk.Saturation
import Mathlib.Algebra.Group.Nat.Defs
import Mathlib.Tactic.Common

namespace Minimk.Integer

open Saturation

def UINT64_MAX : UInt64 := 0xffffffffffffffff

def u64Satadd (left right : UInt64) : UInt64 :=
  if left ≤ UINT64_MAX - right then left + right else UINT64_MAX

-- `none` is the division by zero, which C leaves undefined.
def u64Satmul (left right : UInt64) : Option UInt64 :=
  if right = 0 then none
  else some (if left ≤ UINT64_MAX / right then left * right else UINT64_MAX)

-- The words as numbers.
def words : Format Nat UInt64 where
  value := UInt64.toNat
  top := 2 ^ 64 - 1
  value_injective := fun _ _ => UInt64.toNat_inj.mp
  value_le_iff := fun _ _ => UInt64.le_iff_toNat_le.symm

theorem le_UINT64_MAX (word : UInt64) : word ≤ UINT64_MAX := by
  have hword := word.toNat_lt
  rw [UInt64.le_iff_toNat_le]
  show _ ≤ 2 ^ 64 - 1
  omega

theorem toNat_pos {word : UInt64} (hword : word ≠ 0) : 0 < word.toNat :=
  UInt64.lt_iff_toNat_lt.mp (UInt64.pos_iff_ne_zero.mpr hword)

theorem toNat_max_sub (right : UInt64) :
    (UINT64_MAX - right).toNat = 2 ^ 64 - 1 - right.toNat := by
  rw [UInt64.toNat_sub_of_le]
  · rfl
  · exact le_UINT64_MAX right

theorem toNat_u64Satadd (left right : UInt64) :
    (u64Satadd left right).toNat = min (left.toNat + right.toNat) (2 ^ 64 - 1) := by
  have hl := left.toNat_lt
  have hr := right.toNat_lt
  have hsub := toNat_max_sub right
  unfold u64Satadd
  split
  · rename_i h
    rw [UInt64.le_iff_toNat_le, hsub] at h
    rw [UInt64.toNat_add]
    omega
  · rename_i h
    rw [UInt64.le_iff_toNat_le, hsub] at h
    change 2 ^ 64 - 1 = _
    omega

-- The guard of the product, a truncated quotient, is exact.
theorem le_max_div_iff {right : UInt64} (hright : right ≠ 0) (left : UInt64) :
    left ≤ UINT64_MAX / right ↔ left.toNat * right.toNat ≤ 2 ^ 64 - 1 := by
  rw [UInt64.le_iff_toNat_le, UInt64.toNat_div, Nat.le_div_iff_mul_le (toNat_pos hright)]
  rfl

theorem toNat_u64Satmul {left right : UInt64} (hright : right ≠ 0) :
    ∃ product, u64Satmul left right = some product ∧
      product.toNat = min (left.toNat * right.toNat) (2 ^ 64 - 1) := by
  have hguard := le_max_div_iff hright left
  refine ⟨_, by rw [u64Satmul, if_neg hright], ?_⟩
  by_cases hfits : left ≤ UINT64_MAX / right
  · rw [if_pos hfits, UInt64.toNat_mul]
    have hexact := hguard.mp hfits
    rw [Nat.mod_eq_of_lt (by omega), Nat.min_eq_left hexact]
  · rw [if_neg hfits]
    have hover := hguard.not.mp hfits
    rw [Nat.min_eq_right (by omega)]
    rfl

theorem u64Satadd_mono {left left' right right' : UInt64} (hl : left ≤ left')
    (hr : right ≤ right') : u64Satadd left right ≤ u64Satadd left' right' := by
  have hsum : words.Holds (left.toNat + right.toNat) (u64Satadd left right) :=
    toNat_u64Satadd left right
  refine hsum.mono (toNat_u64Satadd left' right') ?_
  exact Nat.add_le_add (UInt64.le_iff_toNat_le.mp hl) (UInt64.le_iff_toNat_le.mp hr)

theorem le_u64Satadd (left right : UInt64) : left ≤ u64Satadd left right := by
  have hl := left.toNat_lt
  rw [UInt64.le_iff_toNat_le, toNat_u64Satadd]
  omega

section Room

variable {total amount count : UInt64}

theorem toNat_add_le_of_room (htotal : total ≤ count) (hroom : amount ≤ count - total) :
    total.toNat + amount.toNat ≤ count.toNat := by
  rw [UInt64.le_iff_toNat_le, UInt64.toNat_sub_of_le _ _ htotal] at hroom
  rw [UInt64.le_iff_toNat_le] at htotal
  omega

theorem toNat_add_of_room (htotal : total ≤ count) (hroom : amount ≤ count - total) :
    (total + amount).toNat = total.toNat + amount.toNat := by
  have hcount := count.toNat_lt
  have hsum := toNat_add_le_of_room htotal hroom
  rw [UInt64.toNat_add]
  omega

theorem add_le_of_room (htotal : total ≤ count) (hroom : amount ≤ count - total) :
    total + amount ≤ count := by
  rw [UInt64.le_iff_toNat_le, toNat_add_of_room htotal hroom]
  exact toNat_add_le_of_room htotal hroom

end Room

end Minimk.Integer
