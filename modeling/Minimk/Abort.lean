import Mathlib.Tactic.Common

namespace Abort

universe v

variable {ε : Type*} {α β : Type v}

-- A failed assertion ends the computation with its name.
def assert (p : Prop) [Decidable p] (error : ε) : Except ε PUnit :=
  if p then .ok ⟨⟩ else .error error

section

variable {p : Prop} [Decidable p] {error other : ε}

@[simp] theorem assert_eq_ok_iff (u : PUnit) : assert p error = .ok u ↔ p := by
  unfold assert
  split <;> simp_all

@[simp] theorem assert_eq_error_iff : assert p error = .error other ↔ ¬p ∧ error = other := by
  unfold assert
  split <;> simp_all

@[simp] theorem assert_of_true (h : p) : assert p error = .ok ⟨⟩ := by
  simp [h]

end

@[simp] theorem pure_eq_ok (a : α) : (pure a : Except ε α) = .ok a := rfl

@[simp] theorem ok_bind (a : α) (f : α → Except ε β) : (Except.ok a >>= f) = f a := rfl

@[simp] theorem error_bind (e : ε) (f : α → Except ε β) :
    ((Except.error e : Except ε α) >>= f) = .error e := rfl

@[simp] theorem bind_eq_ok_iff (x : Except ε α) (f : α → Except ε β) (b : β) :
    (x >>= f) = .ok b ↔ ∃ a, x = .ok a ∧ f a = .ok b := by
  cases x <;> simp

@[simp] theorem bind_eq_error_iff (x : Except ε α) (f : α → Except ε β) (e : ε) :
    (x >>= f) = .error e ↔ x = .error e ∨ ∃ a, x = .ok a ∧ f a = .error e := by
  cases x <;> simp

end Abort
