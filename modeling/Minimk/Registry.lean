import Minimk.Transition
import Mathlib.Data.Set.Card

-- A store that hands out keys and never hands one out again.
structure Registry (κ ν : Type*) where
  entries : κ → Option ν
  issued : Set κ

namespace Registry

open Transition

variable {κ ν : Type*}

inductive Label (κ ν : Type*)
  | issue (key : κ) (value : ν)
  | full
  | modify (key : κ) (f : ν → ν)
  | drop (key : κ)
  | hit (key : κ) (value : ν)
  | miss (key : κ)

def empty : Registry κ ν := ⟨fun _ => none, ∅⟩

def live (registry : Registry κ ν) : Set κ := {key | registry.entries key ≠ none}

section Operations

variable [DecidableEq κ]

def issue (registry : Registry κ ν) (key : κ) (value : ν) : Registry κ ν :=
  ⟨Function.update registry.entries key (some value), insert key registry.issued⟩

def put (registry : Registry κ ν) (key : κ) (entry : Option ν) : Registry κ ν :=
  { registry with entries := Function.update registry.entries key entry }

-- The steps of a registry that holds a limited number of keys at a time.
inductive Step (capacity : Nat) (registry : Registry κ ν) : Label κ ν → Registry κ ν → Prop
  | issue {key : κ} {value : ν} (hfresh : key ∉ registry.issued)
      (hroom : registry.live.ncard < capacity) :
      Step capacity registry (.issue key value) (registry.issue key value)
  | full (hfull : registry.live.ncard = capacity) : Step capacity registry .full registry
  | modify {key : κ} {value : ν} {f : ν → ν} (hlive : registry.entries key = some value) :
      Step capacity registry (.modify key f) (registry.put key (some (f value)))
  | drop {key : κ} {value : ν} (hlive : registry.entries key = some value) :
      Step capacity registry (.drop key) (registry.put key none)
  | hit {key : κ} {value : ν} (hlive : registry.entries key = some value) :
      Step capacity registry (.hit key value) registry
  | miss {key : κ} (hdead : registry.entries key = none) :
      Step capacity registry (.miss key) registry

def Label.issues (key : κ) : Label κ ν → Bool
  | .issue other _ => other = key
  | _ => false

def Label.drops (key : κ) : Label κ ν → Bool
  | .drop other => other = key
  | _ => false

-- What a history says of a key: the value it was issued with, as modified since, unless dropped.
def entryOf (key : κ) : List (Label κ ν) → Option ν
  | [] => none
  | .issue other value :: log => if other = key then some value else entryOf key log
  | .modify other f :: log => if other = key then (entryOf key log).map f else entryOf key log
  | .drop other :: log => if other = key then none else entryOf key log
  | _ :: log => entryOf key log

end Operations

def Initial (registry : Registry κ ν) : Prop := registry = empty

section Runs

variable [DecidableEq κ] {capacity : Nat} {registry next : Registry κ ν} {label : Label κ ν}
  {log : List (Label κ ν)} {key : κ}

theorem Step.entryOf (hs : Step capacity registry label next)
    (h : registry.entries key = entryOf key log) :
    next.entries key = Registry.entryOf key (label :: log) := by
  cases hs with
  | @issue other value =>
      by_cases he : key = other
      · subst he
        simp [Registry.issue, Registry.entryOf]
      · simp [Registry.issue, Registry.entryOf, he, Ne.symm he, h]
  | @modify other value f hlive =>
      by_cases he : key = other
      · subst he
        simp [put, Registry.entryOf, ← h, hlive]
      · simp [put, Registry.entryOf, he, Ne.symm he, h]
  | @drop other value =>
      by_cases he : key = other
      · subst he
        simp [put, Registry.entryOf]
      · simp [put, Registry.entryOf, he, Ne.symm he, h]
  | full | hit | miss => exact h

theorem Run.entryOf (h : Run Initial (Step capacity) log registry) (key : κ) :
    registry.entries key = Registry.entryOf key log := by
  refine Run.invariant_from (P := fun log registry =>
    registry.entries key = Registry.entryOf key log) ?_ ?_ h
  · rfl
  · exact fun _ _ _ _ _ ih hs => hs.entryOf ih

theorem Step.once (hs : Step capacity registry label next)
    (h : Once log (Label.issues key) (key ∈ registry.issued)) :
    Once (label :: log) (Label.issues key) (key ∈ next.issued) := by
  cases hs with
  | @issue other value hfresh _ =>
      by_cases he : other = key
      · subst he
        exact h.mark (by simp [Label.issues]) hfresh (Set.mem_insert _ _)
      · exact h.skip (by simp [Label.issues, he]) (by simp [Registry.issue, Ne.symm he])
  | full | modify | drop | hit | miss => exact h.skip rfl Iff.rfl

-- No key is issued twice.
theorem Run.once (h : Run Initial (Step capacity) log registry) (key : κ) :
    Once log (Label.issues key) (key ∈ registry.issued) := by
  refine Run.invariant_from (P := fun log registry =>
    Once log (Label.issues key) (key ∈ registry.issued)) ?_ ?_ h
  · exact .nil (by simp [empty])
  · exact fun _ _ _ _ _ ih hs => hs.once ih

theorem Step.live_issued (hs : Step capacity registry label next)
    (h : registry.live ⊆ registry.issued) : next.live ⊆ next.issued := by
  intro other ho
  cases hs with
  | @issue new value =>
      by_cases he : other = new
      · exact he ▸ Set.mem_insert _ _
      · exact Set.mem_insert_of_mem _ (h (by simpa [live, Registry.issue, he] using ho))
  | @modify changed value f hlive =>
      by_cases he : other = changed
      · exact h (by simp [live, he, hlive])
      · exact h (by simpa [live, put, he] using ho)
  | @drop gone value =>
      by_cases he : other = gone
      · simp [live, put, he] at ho
      · exact h (by simpa [live, put, he] using ho)
  | full | hit | miss => exact h ho

theorem Reachable.live_issued (h : Reachable Initial (Step capacity) registry) :
    registry.live ⊆ registry.issued := by
  refine Reachable.invariant_from (P := fun registry => registry.live ⊆ registry.issued) ?_ ?_ h
  · intro key hk
    exact absurd rfl hk
  · exact fun _ _ _ ih hs => hs.live_issued ih

-- A key that has been dropped stays without an entry.
theorem Run.entries_dropped {newer older : List (Label κ ν)}
    (h : Run Initial (Step capacity) (newer ++ label :: older) registry)
    (hdrops : label.drops key = true) : registry.entries key = none := by
  obtain ⟨before, after, hrun, hs, hp⟩ := h.split_at
  have hgone : key ∈ after.issued ∧ after.entries key = none := by
    cases hs with
    | @drop other value hlive =>
        obtain rfl : other = key := by simpa [Label.drops] using hdrops
        refine ⟨?_, by simp [put]⟩
        exact Reachable.live_issued hrun.reachable (by simp [live, hlive])
    | issue | full | modify | hit | miss => simp [Label.drops] at hdrops
  refine (Path.invariant (P := fun registry => key ∈ registry.issued ∧
    registry.entries key = none) ?_ hp (fun _ _ => trivial) hgone).2
  intro state label next hdead _ hs
  cases hs with
  | @issue other value hfresh _ =>
      have hne : key ≠ other := by
        rintro rfl
        exact hfresh hdead.1
      simpa [Registry.issue, hne] using hdead
  | @modify other value f hlive =>
      have hne : key ≠ other := by
        rintro rfl
        simp [hlive] at hdead
      simpa [put, hne] using hdead
  | @drop other value hlive =>
      have hne : key ≠ other := by
        rintro rfl
        simp [hlive] at hdead
      simpa [put, hne] using hdead
  | full | hit | miss => exact hdead

end Runs

end Registry
