import Mathlib.Data.List.Basic
import Mathlib.Tactic.Common

namespace RoundRobin

variable {n : Nat}

-- How far a slot lies ahead of a cursor that is reduced on use only.
def distance (cursor : Nat) (slot : Fin n) : Nat :=
  (slot.val + (n - cursor % n)) % n

-- A scan from the cursor stops at the first ready slot and leaves the cursor behind it.
structure Pick (ready : Fin n → Prop) (cursor : Nat) (slot : Fin n) (next : Nat) : Prop where
  slot_ready : ready slot
  first_ready : ∀ other, ready other → distance cursor slot ≤ distance cursor other
  behind : next % n = (slot.val + 1) % n

-- Picks in a row, latest first, while one slot is ready each time and has to wait. What is
-- ready may change from one pick to the next.
inductive Turns (waiting : Fin n) (first : Nat) : List (Fin n) → Nat → Prop
  | nil : Turns waiting first [] first
  | snoc {ready : Fin n → Prop} {slots : List (Fin n)} {slot : Fin n} {cursor next : Nat} :
      Turns waiting first slots cursor → Pick ready cursor slot next → ready waiting →
      slot ≠ waiting → Turns waiting first (slot :: slots) next

section Distance

variable {cursor next : Nat} {slot other : Fin n}

theorem distance_lt (cursor : Nat) (slot : Fin n) : distance cursor slot < n :=
  Nat.mod_lt _ (Nat.zero_lt_of_lt slot.isLt)

-- The way from the cursor to the slot stays inside the table or wraps once.
theorem distance_cases (cursor : Nat) (slot : Fin n) :
    cursor % n < n ∧
      (cursor % n ≤ slot.val ∧ cursor % n + distance cursor slot = slot.val ∨
        slot.val < cursor % n ∧ cursor % n + distance cursor slot = slot.val + n) := by
  have hs := slot.isLt
  have hc : cursor % n < n := Nat.mod_lt _ (Nat.zero_lt_of_lt hs)
  unfold distance
  generalize cursor % n = place at hc ⊢
  refine ⟨hc, ?_⟩
  by_cases hle : place ≤ slot.val
  · have he : slot.val + (n - place) = slot.val - place + n := by omega
    have hm : (slot.val - place) % n = slot.val - place := Nat.mod_eq_of_lt (by omega)
    rw [he, Nat.add_mod_right, hm]
    omega
  · have hm : (slot.val + (n - place)) % n = slot.val + (n - place) :=
      Nat.mod_eq_of_lt (by omega)
    rw [hm]
    omega

theorem succ_cases (slot : Fin n) :
    slot.val + 1 = n ∧ (slot.val + 1) % n = 0 ∨
      slot.val + 1 < n ∧ (slot.val + 1) % n = slot.val + 1 := by
  have hs := slot.isLt
  by_cases he : slot.val + 1 = n
  · exact .inl ⟨he, by rw [he, Nat.mod_self]⟩
  · have hlt : slot.val + 1 < n := by omega
    exact .inr ⟨hlt, Nat.mod_eq_of_lt hlt⟩

theorem distance_inj (h : distance cursor slot = distance cursor other) : slot = other := by
  have hs := distance_cases cursor slot
  have ho := distance_cases cursor other
  apply Fin.ext
  omega

-- The slot itself is now the last one in line.
theorem distance_self (hnext : next % n = (slot.val + 1) % n) :
    distance next slot + 1 = n := by
  have hs := distance_cases next slot
  have hsucc := succ_cases slot
  omega

-- The slots ahead of the new cursor have come closer by the same amount.
theorem distance_ahead (hnext : next % n = (slot.val + 1) % n)
    (h : distance cursor slot < distance cursor other) :
    distance next other + distance cursor slot + 1 = distance cursor other := by
  have hs := distance_cases cursor slot
  have ho := distance_cases cursor other
  have hn := distance_cases next other
  have hsucc := succ_cases slot
  have hlt := other.isLt
  omega

-- A ready slot at the cursor itself is the one that is picked.
theorem Pick.at_cursor {ready : Fin n → Prop} (h : Pick ready cursor slot next)
    (hready : ready other) (hother : other.val = cursor % n) : slot = other := by
  have hle := h.first_ready other hready
  have hs := distance_cases cursor slot
  have ho := distance_cases cursor other
  have hlt := slot.isLt
  apply Fin.ext
  omega

-- A pick that passes over a ready slot takes none behind that one, and what it takes is behind
-- it from then on.
theorem Pick.order {ready : Fin n → Prop} {waiting : Fin n} (h : Pick ready cursor slot next)
    (hready : ready waiting) (hslot : slot ≠ waiting) :
    (distance cursor waiting < distance cursor other →
      slot ≠ other ∧ distance next waiting < distance next other) ∧
    (slot = other → distance next waiting < distance next other) := by
  have hle := h.first_ready waiting hready
  have hne : distance cursor slot ≠ distance cursor waiting := fun he => hslot (distance_inj he)
  have hwaiting := @distance_ahead _ cursor next slot waiting h.behind (by omega)
  constructor
  · intro hlt
    have hother := @distance_ahead _ cursor next slot other h.behind (by omega)
    refine ⟨?_, by omega⟩
    rintro rfl
    omega
  · rintro rfl
    have hself := distance_self h.behind
    have hbound := distance_lt cursor waiting
    omega

end Distance

section Turns

variable {waiting : Fin n} {first cursor : Nat} {slots : List (Fin n)}

-- The slots that have had their turn are farther ahead than the one that waits.
theorem Turns.passed (h : Turns waiting first slots cursor) :
    slots.Nodup ∧ ∀ slot ∈ slots, distance cursor waiting < distance cursor slot := by
  induction h with
  | nil => exact ⟨List.nodup_nil, fun slot hm => absurd hm (List.not_mem_nil)⟩
  | @snoc ready slots slot cursor next _ hpick hready hne ih =>
      obtain ⟨hnodup, hpassed⟩ := ih
      have hlt : distance cursor slot < distance cursor waiting := by
        have hle := hpick.first_ready waiting hready
        have hdist : distance cursor slot ≠ distance cursor waiting :=
          fun he => hne (distance_inj he)
        omega
      have hwaiting := distance_ahead hpick.behind hlt
      refine ⟨List.nodup_cons.mpr ⟨?_, hnodup⟩, ?_⟩
      · intro hm
        have hp := hpassed slot hm
        omega
      · intro other hm
        rcases List.mem_cons.mp hm with rfl | hm
        · have hself := distance_self hpick.behind
          have hbound := distance_lt cursor waiting
          omega
        · have hp := hpassed other hm
          have hother := distance_ahead hpick.behind (Nat.lt_trans hlt hp)
          omega

theorem Turns.nodup (h : Turns waiting first slots cursor) : slots.Nodup :=
  h.passed.1

end Turns

end RoundRobin
