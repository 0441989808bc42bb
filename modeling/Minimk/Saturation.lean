import Mathlib.Algebra.Order.Ring.Defs
import Mathlib.Algebra.Order.SuccPred
import Mathlib.Tactic.Common

namespace Saturation

variable {α γ : Type*}

-- Words that stand for elements of an ordered type; the largest one stands for `top`.
structure Format (α γ : Type*) [LE α] [LE γ] where
  value : γ → α
  top : α
  value_injective : Function.Injective value
  value_le_iff : ∀ x y, value x ≤ value y ↔ x ≤ y

section Words

variable [LinearOrder α] [LE γ] {format : Format α γ} {op : α → α → α} {result result' : α}
  {x y z word word' left right : γ}

-- The word is what is left of an exact result in the format.
def Format.Holds (format : Format α γ) (result : α) (word : γ) : Prop :=
  format.value word = min result format.top

theorem Format.Holds.unique (h : format.Holds result word) (h' : format.Holds result word') :
    word = word' :=
  format.value_injective (h.trans h'.symm)

theorem Format.Holds.mono (h : format.Holds result word) (h' : format.Holds result' word')
    (hle : result ≤ result') : word ≤ word' := by
  rw [← format.value_le_iff, h, h']
  exact min_le_min_right format.top hle

-- A capped operand gives the same capped result as the operand itself.
structure Absorbs (top : α) (op : α → α → α) : Prop where
  left : ∀ n m, min (op (min n top) m) top = min (op n m) top
  right : ∀ n m, min (op n (min m top)) top = min (op n m) top

theorem Format.Holds.comm (hcomm : ∀ n m, op n m = op m n)
    (h : format.Holds (op (format.value x) (format.value y)) word)
    (h' : format.Holds (op (format.value y) (format.value x)) word') : word = word' := by
  rw [hcomm] at h
  exact h.unique h'

-- The order in which three operands are capped does not show.
theorem Format.Holds.assoc (habsorbs : Absorbs format.top op)
    (hassoc : ∀ n m k, op (op n m) k = op n (op m k))
    (hleft : format.Holds (op (format.value x) (format.value y)) left)
    (hword : format.Holds (op (format.value left) (format.value z)) word)
    (hright : format.Holds (op (format.value y) (format.value z)) right)
    (hword' : format.Holds (op (format.value x) (format.value right)) word') : word = word' := by
  apply format.value_injective
  calc
    format.value word =
        min (op (min (op (format.value x) (format.value y)) format.top) (format.value z))
          format.top := by
      rw [hword, hleft]
    _ = min (op (format.value x) (op (format.value y) (format.value z))) format.top := by
      rw [habsorbs.left, hassoc]
    _ = min (op (format.value x) (min (op (format.value y) (format.value z)) format.top))
          format.top := by
      rw [habsorbs.right]
    _ = format.value word' := by
      rw [hword', hright]

end Words

section Operations

variable [LinearOrder α] {top : α}

theorem Absorbs.of_comm {op : α → α → α} (hcomm : ∀ n m, op n m = op m n)
    (h : ∀ n m, min (op (min n top) m) top = min (op n m) top) : Absorbs top op where
  left := h
  right := fun n m => by rw [hcomm n, h, hcomm n]

theorem add_absorbs [AddCommMonoid α] [CanonicallyOrderedAdd α] (top : α) :
    Absorbs top (· + ·) := by
  refine Absorbs.of_comm add_comm fun n m => ?_
  rcases le_total n top with hfits | hover
  · rw [min_eq_left hfits]
  · have htop : top ≤ top + m := le_self_add
    have hsum : top ≤ n + m := hover.trans le_self_add
    rw [min_eq_right hover, min_eq_right htop, min_eq_right hsum]

-- A factor other than zero does not bring a product below the other factor.
theorem mul_absorbs [CommSemiring α] [IsOrderedRing α] [CanonicallyOrderedAdd α]
    [SuccAddOrder α] [NeZero (1 : α)] (top : α) : Absorbs top (· * ·) := by
  refine Absorbs.of_comm mul_comm fun n m => ?_
  rcases eq_or_ne m 0 with rfl | hm
  · rw [mul_zero, mul_zero]
  · have hone : 1 ≤ m := Order.one_le_iff_ne_zero.mpr hm
    rcases le_total n top with hfits | hover
    · rw [min_eq_left hfits]
    · have htop : top ≤ top * m := le_mul_of_one_le_right zero_le hone
      have hproduct : top ≤ n * m :=
        hover.trans (le_mul_of_one_le_right zero_le hone)
      rw [min_eq_right hover, min_eq_right htop, min_eq_right hproduct]

end Operations

end Saturation
