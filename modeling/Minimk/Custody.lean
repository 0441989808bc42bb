import Minimk.Transition
import Mathlib.Data.Finset.Basic

-- Resources that are in use, and the holders they are with.
@[ext] structure Custody (κ ρ : Type*) where
  inUse : Finset ρ
  held : κ → Option ρ

namespace Custody

open Transition

variable {κ ρ : Type*}

inductive Label (ρ : Type*)
  | acquire (resource : ρ)
  | release (resource : ρ)
  | keep

-- Every resource in use has exactly one holder, and nobody holds another one.
structure Sound (custody : Custody κ ρ) : Prop where
  covered : ∀ resource ∈ custody.inUse, ∃ holder, custody.held holder = some resource
  held : ∀ holder resource, custody.held holder = some resource → resource ∈ custody.inUse
  unique : ∀ holder other resource, custody.held holder = some resource →
    custody.held other = some resource → holder = other

def empty : Custody κ ρ := ⟨∅, fun _ => none⟩

def Initial (custody : Custody κ ρ) : Prop := custody = empty

theorem empty_sound : (empty : Custody κ ρ).Sound where
  covered := fun resource h => absurd h (Finset.notMem_empty resource)
  held := fun _ _ h => by cases h
  unique := fun _ _ _ h => by cases h

theorem Sound.existsUnique {custody : Custody κ ρ} (h : custody.Sound) {resource : ρ}
    (hr : resource ∈ custody.inUse) : ∃! holder, custody.held holder = some resource := by
  obtain ⟨holder, hh⟩ := h.covered resource hr
  exact ⟨holder, hh, fun other ho => h.unique other holder resource ho hh⟩

section Put

variable [DecidableEq κ] {custody : Custody κ ρ}

def put (custody : Custody κ ρ) (holder : κ) (resource : Option ρ) : Custody κ ρ :=
  { custody with held := Function.update custody.held holder resource }

theorem put_held_of_ne {holder other : κ} (h : other ≠ holder) (value : Option ρ) :
    (custody.put holder value).held other = custody.held other := by
  simp [put, h]

@[simp] theorem put_held_self (holder : κ) (value : Option ρ) :
    (custody.put holder value).held holder = value := by
  simp [put]

theorem put_eq_self {holder : κ} {value : Option ρ} (h : custody.held holder = value) :
    custody.put holder value = custody := by
  rw [put, ← h, Function.update_eq_self]

theorem put_comm {holder other : κ} (h : holder ≠ other) (value third : Option ρ) :
    (custody.put holder value).put other third = (custody.put other third).put holder value := by
  simp only [put, Function.update_comm h]

end Put

section Steps

variable [DecidableEq κ] [DecidableEq ρ]

-- A resource comes into use with a holder that had none, is handed over, or goes out of use.
inductive Step (custody : Custody κ ρ) : Label ρ → Custody κ ρ → Prop
  | acquire {holder : κ} {resource : ρ} (hfree : custody.held holder = none)
      (hnew : resource ∉ custody.inUse) :
      Step custody (.acquire resource)
        { custody.put holder (some resource) with inUse := insert resource custody.inUse }
  | release {holder : κ} {resource : ρ} (hheld : custody.held holder = some resource) :
      Step custody (.release resource)
        { custody.put holder none with inUse := custody.inUse.erase resource }
  | pass {source target : κ} {resource : ρ} (hheld : custody.held source = some resource)
      (hfree : custody.held target = none) :
      Step custody .keep ((custody.put source none).put target (some resource))
  | keep : Step custody .keep custody

abbrev Run := Transition.Run (@Initial κ ρ) Step

def Label.acquires (resource : ρ) : Label ρ → Bool
  | .acquire other => other = resource
  | _ => false

def Label.releases (resource : ρ) : Label ρ → Bool
  | .release other => other = resource
  | _ => false

variable {custody next : Custody κ ρ} {label : Label ρ} {log : List (Label ρ)} {resource : ρ}

theorem Sound.acquire (h : custody.Sound) {holder : κ} (hfree : custody.held holder = none)
    (hnew : resource ∉ custody.inUse) :
    Sound { custody.put holder (some resource) with inUse := insert resource custody.inUse } := by
  have hother : ∀ other, custody.held other ≠ some resource :=
    fun other ho => hnew (h.held other resource ho)
  refine ⟨?_, ?_, ?_⟩
  · intro found hf
    rcases Finset.mem_insert.mp hf with rfl | hf
    · exact ⟨holder, put_held_self _ _⟩
    · obtain ⟨other, ho⟩ := h.covered found hf
      refine ⟨other, ?_⟩
      rwa [put_held_of_ne]
      rintro rfl
      simp [hfree] at ho
  · intro other found ho
    by_cases he : other = holder
    · subst he
      obtain rfl : resource = found := by simpa using ho
      exact Finset.mem_insert_self _ _
    · rw [put_held_of_ne he] at ho
      exact Finset.mem_insert_of_mem (h.held other found ho)
  · intro first second found hf hs
    by_cases he : first = holder <;> by_cases he' : second = holder
    · exact he.trans he'.symm
    · subst he
      obtain rfl : resource = found := by simpa using hf
      rw [put_held_of_ne he'] at hs
      exact absurd hs (hother second)
    · subst he'
      obtain rfl : resource = found := by simpa using hs
      rw [put_held_of_ne he] at hf
      exact absurd hf (hother first)
    · rw [put_held_of_ne he] at hf
      rw [put_held_of_ne he'] at hs
      exact h.unique first second found hf hs

theorem Sound.release (h : custody.Sound) {holder : κ}
    (hheld : custody.held holder = some resource) :
    Sound { custody.put holder none with inUse := custody.inUse.erase resource } := by
  refine ⟨?_, ?_, ?_⟩
  · intro found hf
    obtain ⟨hne, hf⟩ := Finset.mem_erase.mp hf
    obtain ⟨other, ho⟩ := h.covered found hf
    refine ⟨other, ?_⟩
    rwa [put_held_of_ne]
    rintro rfl
    exact hne (Option.some.inj (ho.symm.trans hheld))
  · intro other found ho
    by_cases he : other = holder
    · subst he
      simp at ho
    · rw [put_held_of_ne he] at ho
      refine Finset.mem_erase.mpr ⟨?_, h.held other found ho⟩
      rintro rfl
      exact he (h.unique other holder found ho hheld)
  · intro first second found hf hs
    by_cases he : first = holder
    · subst he
      simp at hf
    by_cases he' : second = holder
    · subst he'
      simp at hs
    rw [put_held_of_ne he] at hf
    rw [put_held_of_ne he'] at hs
    exact h.unique first second found hf hs

-- A hand-over is a release and an acquisition of the same resource.
theorem Sound.pass (h : custody.Sound) {source target : κ}
    (hheld : custody.held source = some resource) (hfree : custody.held target = none) :
    Sound ((custody.put source none).put target (some resource)) := by
  have hne : target ≠ source := by
    rintro rfl
    simp [hheld] at hfree
  have hrelease := h.release hheld
  have hfree' : (custody.put source none).held target = none := by
    rw [put_held_of_ne hne, hfree]
  have hsound := hrelease.acquire hfree' (Finset.notMem_erase resource custody.inUse)
  have heq : insert resource (custody.inUse.erase resource) = custody.inUse :=
    Finset.insert_erase (h.held source resource hheld)
  simpa only [put, heq] using hsound

theorem Step.sound (hs : Step custody label next) (h : custody.Sound) : next.Sound := by
  cases hs with
  | acquire hfree hnew => exact h.acquire hfree hnew
  | release hheld => exact h.release hheld
  | pass hheld hfree => exact h.pass hheld hfree
  | keep => exact h

theorem Run.sound (h : Run log custody) : custody.Sound := by
  refine Transition.Run.invariant_from (P := fun _ custody => custody.Sound) ?_ ?_ h
  · exact empty_sound
  · exact fun _ _ _ _ _ ih hs => hs.sound ih

-- What is in use has been acquired once more than it has been released.
theorem Run.balance (h : Run log custody) (resource : ρ) :
    log.countP (Label.acquires resource) =
      log.countP (Label.releases resource) + if resource ∈ custody.inUse then 1 else 0 := by
  refine Transition.Run.invariant_from (P := fun log custody =>
    log.countP (Label.acquires resource) =
      log.countP (Label.releases resource) + if resource ∈ custody.inUse then 1 else 0) ?_ ?_ h
  · simp [empty]
  · intro log custody label next hr ih hs
    have hsound := Run.sound hr
    cases hs with
    | @acquire holder other hfree hnew =>
        by_cases ho : other = resource
        · subst ho
          simp [Label.acquires, Label.releases, ih, hnew]
        · simp [Label.acquires, Label.releases, ih, ho, Ne.symm ho]
    | @release holder other hheld =>
        have hin := hsound.held holder other hheld
        by_cases ho : other = resource
        · subst ho
          simp [Label.acquires, Label.releases, ih, hin]
        · simp [Label.acquires, Label.releases, ih, ho, Ne.symm ho]
    | pass hheld hfree =>
        rw [List.countP_cons_of_neg (by simp [Label.acquires]),
          List.countP_cons_of_neg (by simp [Label.releases])]
        exact ih
    | keep => simpa [Label.acquires, Label.releases] using ih

-- A release finds the resource acquired and not released since.
theorem Run.release_balance {newer older : List (Label ρ)}
    (h : Run (newer ++ .release resource :: older) custody) :
    older.countP (Label.acquires resource) = older.countP (Label.releases resource) + 1 := by
  obtain ⟨state, after, hr, hs, -⟩ := h.split_at
  have hbalance := Run.balance hr resource
  cases hs with
  | release hheld => simpa [(Run.sound hr).held _ _ hheld] using hbalance

end Steps

end Custody
