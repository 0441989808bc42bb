import Minimk.RoundRobin
import Minimk.Transition
import Mathlib.Data.Finset.Card

namespace RoundRobin

open Transition

variable {n : Nat} {ready : Finset (Fin n)} {slots older newer between stretch : List (Fin n)}
  {slot other waiting : Fin n} {first cursor : Nat}

-- Picks in a row, latest first, while what is ready stays the same.
abbrev Rounds (ready : Finset (Fin n)) (first : Nat) (slots : List (Fin n)) (cursor : Nat) : Prop :=
  Path (fun cursor slot next => Pick (· ∈ ready) cursor slot next) first slots cursor

theorem Rounds.mem (h : Rounds ready first slots cursor) : ∀ slot ∈ slots, slot ∈ ready := by
  induction h with
  | nil => exact fun _ hm => absurd hm List.not_mem_nil
  | snoc _ hpick ih =>
      intro other hm
      rcases List.mem_cons.mp hm with rfl | hm
      · exact hpick.slot_ready
      · exact ih other hm

-- A slot that has had no turn has waited all the time.
theorem Rounds.turns (h : Rounds ready first slots cursor) (hready : waiting ∈ ready)
    (hmem : waiting ∉ slots) : Turns waiting first slots cursor := by
  induction h with
  | nil => exact .nil
  | snoc _ hpick ih =>
      have hold := List.not_mem_of_not_mem_cons hmem
      have hne := List.ne_of_not_mem_cons hmem
      exact (ih hold).snoc hpick hready (Ne.symm hne)

theorem exists_waiting (hlen : slots.length < ready.card) : ∃ waiting ∈ ready, waiting ∉ slots := by
  by_contra hno
  push Not at hno
  have hsub : ready ⊆ slots.toFinset := fun slot hs => List.mem_toFinset.mpr (hno slot hs)
  have hcard := Finset.card_le_card hsub
  have hlength := List.toFinset_card_le slots
  omega

-- While a slot waits nobody has a second turn, and the last one to wait ends the round.
theorem Rounds.nodup (h : Rounds ready first slots cursor) (hlen : slots.length ≤ ready.card) :
    slots.Nodup := by
  induction h with
  | nil => exact List.nodup_nil
  | @snoc slots middle next slot hp hpick ih =>
      rw [List.length_cons] at hlen
      have hnodup := ih (by omega)
      obtain ⟨waiting, hready, hmem⟩ := @exists_waiting _ ready slots (by omega)
      by_cases he : waiting = slot
      · subst he
        exact List.nodup_cons.mpr ⟨hmem, hnodup⟩
      · have hall : Rounds ready first (slot :: slots) next := hp.snoc hpick
        exact (hall.turns hready (List.not_mem_cons_of_ne_of_not_mem he hmem)).nodup

-- As many picks in a row as there are ready slots are one turn for each of them.
theorem Rounds.round (h : Rounds ready first slots cursor) (hlen : slots.length = ready.card) :
    slots.Nodup ∧ slots.toFinset = ready := by
  have hnodup := h.nodup (Nat.le_of_eq hlen)
  refine ⟨hnodup, Finset.eq_of_subset_of_card_le ?_ ?_⟩
  · exact fun slot hm => h.mem slot (List.mem_toFinset.mp hm)
  · rw [List.toFinset_card_of_nodup hnodup, hlen]

theorem Rounds.window (h : Rounds ready first (newer ++ (stretch ++ older)) cursor) :
    ∃ start stop, Rounds ready start stretch stop := by
  obtain ⟨stop, hstretch, -⟩ := Path.split newer h
  obtain ⟨start, -, hstretch⟩ := Path.split stretch hstretch
  exact ⟨start, stop, hstretch⟩

-- So the turn after a round is that of the slot with which the round began.
theorem Rounds.period (h : Rounds ready first (newer ++ slot :: (between ++ other :: older)) cursor)
    (hlen : between.length + 1 = ready.card) : slot = other := by
  have hlate : newer ++ slot :: (between ++ other :: older) =
      newer ++ ((slot :: between) ++ other :: older) := rfl
  have hearly : newer ++ slot :: (between ++ other :: older) =
      (newer ++ [slot]) ++ ((between ++ [other]) ++ older) := by simp
  obtain ⟨_, _, hwindow⟩ := Rounds.window (hlate ▸ h)
  obtain ⟨_, _, hbefore⟩ := Rounds.window (hearly ▸ h)
  obtain ⟨hnodup, hall⟩ := hwindow.round hlen
  obtain ⟨-, hsame⟩ := hbefore.round (by simpa using hlen)
  have hslot : slot ∈ (between ++ [other]).toFinset := by
    rw [hsame, ← hall]
    exact List.mem_toFinset.mpr List.mem_cons_self
  rcases List.mem_append.mp (List.mem_toFinset.mp hslot) with hm | hm
  · exact absurd hm (List.nodup_cons.mp hnodup).1
  · exact List.mem_singleton.mp hm

theorem Rounds.getElem_eq (h : Rounds ready first slots cursor) {i : Nat} (hpos : 0 < ready.card)
    (hget : slots[i + ready.card]? = some other) : slots[i]? = some other := by
  obtain ⟨hlt, hlast⟩ := List.getElem?_eq_some_iff.mp hget
  have hi : i < slots.length := by omega
  have hnewer : slots = slots.take i ++ slots[i] :: slots.drop (i + 1) := by
    rw [← List.drop_eq_getElem_cons, List.take_append_drop]
  have hrest : (slots.drop (i + 1)).drop (ready.card - 1) =
      other :: slots.drop (i + ready.card + 1) := by
    have he : i + 1 + (ready.card - 1) = i + ready.card := by omega
    rw [List.drop_drop, he, List.drop_eq_getElem_cons hlt, hlast]
  have holder := List.take_append_drop (ready.card - 1) (slots.drop (i + 1))
  rw [hrest] at holder
  have hlen : ((slots.drop (i + 1)).take (ready.card - 1)).length + 1 = ready.card := by
    rw [List.length_take, List.length_drop]
    omega
  have hall : Rounds ready first (slots.take i ++ slots[i] ::
      ((slots.drop (i + 1)).take (ready.card - 1) ++ other :: slots.drop (i + ready.card + 1)))
      cursor := by
    rw [holder, ← hnewer]
    exact h
  rw [List.getElem?_eq_getElem hi, hall.period hlen]

end RoundRobin
