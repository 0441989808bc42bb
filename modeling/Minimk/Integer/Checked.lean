import Minimk.Abort
import Minimk.Integer
import Mathlib.Algebra.Order.Ring.Nat
import Mathlib.Data.Nat.SuccPred

namespace Minimk.Integer

open Abort Saturation

-- What the evaluation of an operator on words may run into.
inductive Trap where
  | overflow
  | divisionByZero
  deriving DecidableEq

namespace Checked

-- The operators of C where a result that is no word is a trap.
def add (left right : UInt64) : Except Trap UInt64 :=
  if left.toNat + right.toNat < 2 ^ 64 then .ok (left + right) else .error .overflow

def sub (left right : UInt64) : Except Trap UInt64 :=
  if right ≤ left then .ok (left - right) else .error .overflow

def mul (left right : UInt64) : Except Trap UInt64 :=
  if left.toNat * right.toNat < 2 ^ 64 then .ok (left * right) else .error .overflow

def div (left right : UInt64) : Except Trap UInt64 :=
  if right = 0 then .error .divisionByZero else .ok (left / right)

-- `minimk_integer_u64_satadd` and `minimk_integer_u64_satmul`, evaluated with these operators.
def satadd (left right : UInt64) : Except Trap UInt64 := do
  let room ← sub UINT64_MAX right
  if left ≤ room then add left right else return UINT64_MAX

def satmul (left right : UInt64) : Except Trap UInt64 := do
  let room ← div UINT64_MAX right
  if left ≤ room then mul left right else return UINT64_MAX

variable {left right : UInt64}

-- The guard lets a sum through only if it is a word.
theorem satadd_eq (left right : UInt64) : satadd left right = .ok (u64Satadd left right) := by
  rw [satadd, sub, if_pos (le_UINT64_MAX right), ok_bind]
  by_cases hguard : left ≤ UINT64_MAX - right
  · have hfits : left.toNat + right.toNat < 2 ^ 64 := by
      have hr := right.toNat_lt
      rw [UInt64.le_iff_toNat_le, toNat_max_sub] at hguard
      omega
    rw [u64Satadd, if_pos hguard, if_pos hguard, add, if_pos hfits]
  · rw [u64Satadd, if_neg hguard, if_neg hguard]
    rfl

-- The guard of the product is itself a trap where the divisor is zero.
theorem satmul_eq (left right : UInt64) :
    satmul left right = (u64Satmul left right).elim (.error .divisionByZero) .ok := by
  by_cases hzero : right = 0
  · rw [satmul, div, u64Satmul, if_pos hzero, if_pos hzero]
    rfl
  · rw [satmul, div, u64Satmul, if_neg hzero, if_neg hzero, ok_bind]
    by_cases hguard : left ≤ UINT64_MAX / right
    · have hfits : left.toNat * right.toNat < 2 ^ 64 := by
        have hexact := (le_max_div_iff hzero left).mp hguard
        omega
      rw [if_pos hguard, if_pos hguard, mul, if_pos hfits]
      rfl
    · rw [if_neg hguard, if_neg hguard]
      rfl

section Laws

variable {op : UInt64 → UInt64 → Except Trap UInt64} {result : Nat → Nat → Nat}
  {left' right' a b c : UInt64}

-- No operator of the evaluation traps, and its word is the exact result, capped.
def Saturates (op : UInt64 → UInt64 → Except Trap UInt64) (result : Nat → Nat → Nat)
    (left right : UInt64) : Prop :=
  ∃ word, op left right = .ok word ∧
    word.toNat = min (result left.toNat right.toNat) (2 ^ 64 - 1)

-- Both sides of each law are evaluated without a trap.
def Commutes (op : UInt64 → UInt64 → Except Trap UInt64) (left right : UInt64) : Prop :=
  ∃ word, op left right = .ok word ∧ op right left = .ok word

def Associates (op : UInt64 → UInt64 → Except Trap UInt64) (a b c : UInt64) : Prop :=
  ∃ word, (do op (← op a b) c) = .ok word ∧ (do op a (← op b c)) = .ok word

def Ordered (smaller larger : Except Trap UInt64) : Prop :=
  ∃ word word', smaller = .ok word ∧ larger = .ok word' ∧ word ≤ word'

theorem Saturates.commutes (hcomm : ∀ n m, result n m = result m n)
    (h : Saturates op result left right) (h' : Saturates op result right left) :
    Commutes op left right := by
  obtain ⟨word, hop, hword⟩ := h
  obtain ⟨word', hop', hword'⟩ := h'
  have hwords : words.Holds (result (words.value left) (words.value right)) word := hword
  have heq : word = word' := hwords.comm hcomm hword'
  exact ⟨word, hop, by rw [hop', heq]⟩

theorem Saturates.associates (habsorbs : Absorbs words.top result)
    (hassoc : ∀ n m k, result (result n m) k = result n (result m k))
    (hleft : Saturates op result a b) (hright : Saturates op result b c)
    (houter : ∀ word, Saturates op result word c)
    (houter' : ∀ word, op b c = .ok word → Saturates op result a word) :
    Associates op a b c := by
  obtain ⟨first, hfirst, hvalue⟩ := hleft
  obtain ⟨word, hword, hvalueWord⟩ := houter first
  obtain ⟨last, hlast, hvalueLast⟩ := hright
  obtain ⟨word', hword', hvalueWord'⟩ := houter' last hlast
  have hwords : words.Holds (result (words.value a) (words.value b)) first := hvalue
  have heq : word = word' :=
    hwords.assoc habsorbs hassoc hvalueWord hvalueLast hvalueWord'
  refine ⟨word, ?_, ?_⟩
  · rw [hfirst, ok_bind, hword]
  · rw [hlast, ok_bind, hword', heq]

theorem Saturates.ordered (h : Saturates op result left right)
    (h' : Saturates op result left' right')
    (hle : result left.toNat right.toNat ≤ result left'.toNat right'.toNat) :
    Ordered (op left right) (op left' right') := by
  obtain ⟨word, hop, hword⟩ := h
  obtain ⟨word', hop', hword'⟩ := h'
  have hwords : words.Holds (result left.toNat right.toNat) word := hword
  exact ⟨word, word', hop, hop', hwords.mono hword' hle⟩

end Laws

section Sum

variable {left' right' : UInt64}

theorem saturates_satadd (left right : UInt64) : Saturates satadd (· + ·) left right :=
  ⟨u64Satadd left right, satadd_eq left right, toNat_u64Satadd left right⟩

theorem commutes_satadd (left right : UInt64) : Commutes satadd left right :=
  (saturates_satadd left right).commutes Nat.add_comm (saturates_satadd right left)

theorem associates_satadd (a b c : UInt64) : Associates satadd a b c := by
  apply Saturates.associates (add_absorbs words.top) Nat.add_assoc
  · exact saturates_satadd a b
  · exact saturates_satadd b c
  · exact fun word => saturates_satadd word c
  · exact fun word _ => saturates_satadd a word

theorem ordered_satadd (hleft : left ≤ left') (hright : right ≤ right') :
    Ordered (satadd left right) (satadd left' right') := by
  apply (saturates_satadd left right).ordered (saturates_satadd left' right')
  exact Nat.add_le_add (UInt64.le_iff_toNat_le.mp hleft) (UInt64.le_iff_toNat_le.mp hright)

end Sum

section Product

variable {left' right' word a b c : UInt64}

theorem satmul_zero (left : UInt64) : satmul left 0 = .error .divisionByZero :=
  satmul_eq left 0

theorem right_ne_zero_of_satmul (h : satmul left right = .ok word) : right ≠ 0 := by
  rintro rfl
  rw [satmul_zero] at h
  contradiction

theorem saturates_satmul_iff (left right : UInt64) :
    Saturates satmul (· * ·) left right ↔ right ≠ 0 := by
  constructor
  · rintro ⟨word, hop, -⟩
    exact right_ne_zero_of_satmul hop
  · intro hright
    obtain ⟨product, hproduct, hvalue⟩ := @toNat_u64Satmul left right hright
    refine ⟨product, ?_, hvalue⟩
    rw [satmul_eq, hproduct]
    rfl

theorem commutes_satmul_iff (left right : UInt64) :
    Commutes satmul left right ↔ left ≠ 0 ∧ right ≠ 0 := by
  constructor
  · rintro ⟨word, hop, hop'⟩
    exact ⟨right_ne_zero_of_satmul hop', right_ne_zero_of_satmul hop⟩
  · rintro ⟨hleft, hright⟩
    have hsat := (saturates_satmul_iff left right).mpr hright
    exact hsat.commutes Nat.mul_comm ((saturates_satmul_iff right left).mpr hleft)

-- A product of factors other than zero is not zero, saturated or not.
theorem satmul_ne_zero (hleft : left ≠ 0) (h : satmul left right = .ok word) : word ≠ 0 := by
  obtain ⟨product, hop, hvalue⟩ :=
    (saturates_satmul_iff left right).mpr (right_ne_zero_of_satmul h)
  obtain rfl : product = word := by
    rw [hop] at h
    exact Except.ok.inj h
  have hpos : 0 < left.toNat * right.toNat :=
    Nat.mul_pos (toNat_pos hleft) (toNat_pos (right_ne_zero_of_satmul h))
  rintro rfl
  have hzero : 0 = min (left.toNat * right.toNat) (2 ^ 64 - 1) := hvalue
  omega

theorem associates_satmul_iff (a b c : UInt64) : Associates satmul a b c ↔ b ≠ 0 ∧ c ≠ 0 := by
  constructor
  · rintro ⟨word, hleft, -⟩
    obtain ⟨first, hfirst, houter⟩ := (bind_eq_ok_iff _ _ _).mp hleft
    exact ⟨right_ne_zero_of_satmul hfirst, right_ne_zero_of_satmul houter⟩
  · rintro ⟨hb, hc⟩
    apply Saturates.associates (mul_absorbs words.top) Nat.mul_assoc
    · exact (saturates_satmul_iff a b).mpr hb
    · exact (saturates_satmul_iff b c).mpr hc
    · exact fun word => (saturates_satmul_iff word c).mpr hc
    · exact fun word hword => (saturates_satmul_iff a word).mpr (satmul_ne_zero hb hword)

theorem ordered_satmul_iff (hleft : left ≤ left') (hright : right ≤ right') :
    Ordered (satmul left right) (satmul left' right') ↔ right ≠ 0 := by
  constructor
  · rintro ⟨word, word', hop, -, -⟩
    exact right_ne_zero_of_satmul hop
  · intro hzero
    have hzero' : right' ≠ 0 := by
      rintro rfl
      exact hzero (UInt64.le_zero_iff.mp hright)
    have hsat := (saturates_satmul_iff left right).mpr hzero
    apply hsat.ordered ((saturates_satmul_iff left' right').mpr hzero')
    exact Nat.mul_le_mul (UInt64.le_iff_toNat_le.mp hleft) (UInt64.le_iff_toNat_le.mp hright)

end Product

theorem satadd_satmul_iff (left left' right right' third : UInt64) :
    Saturates satadd (· + ·) left right ∧
    (Saturates satmul (· * ·) left right ↔ right ≠ 0) ∧
    Commutes satadd left right ∧
    (Commutes satmul left right ↔ left ≠ 0 ∧ right ≠ 0) ∧
    Associates satadd left right third ∧
    (Associates satmul left right third ↔ right ≠ 0 ∧ third ≠ 0) ∧
    (left ≤ left' → Ordered (satadd left right) (satadd left' right)) ∧
    (right ≤ right' → Ordered (satadd left right) (satadd left right')) ∧
    (left ≤ left' → (Ordered (satmul left right) (satmul left' right) ↔ right ≠ 0)) ∧
    (right ≤ right' → (Ordered (satmul left right) (satmul left right') ↔ right ≠ 0)) := by
  refine ⟨saturates_satadd left right, saturates_satmul_iff left right, commutes_satadd left right,
    commutes_satmul_iff left right, associates_satadd left right third,
    associates_satmul_iff left right third, ?_, ?_, ?_, ?_⟩
  · intro hleft
    exact ordered_satadd hleft UInt64.le_rfl
  · intro hright
    exact ordered_satadd UInt64.le_rfl hright
  · intro hleft
    exact ordered_satmul_iff hleft UInt64.le_rfl
  · intro hright
    exact ordered_satmul_iff UInt64.le_rfl hright

-- 7 * 0 is a word, but the guard divides by its right factor.
theorem satmul_seven_zero :
    ¬∀ left right, Saturates satadd (· + ·) left right ∧ Saturates satmul (· * ·) left right := by
  intro h
  obtain ⟨word, hop, -⟩ := (h 7 0).2
  have htrap : satmul 7 0 = .error .divisionByZero := rfl
  rw [htrap] at hop
  contradiction

end Checked

end Minimk.Integer
