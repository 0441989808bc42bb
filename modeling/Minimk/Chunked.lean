import Mathlib.Data.List.Basic
import Mathlib.Tactic.Common

namespace Chunked

variable {α ε : Type*}

-- What one call reports that is offered everything behind the place it is called at.
inductive Report (α ε : Type*) where
  | moved (items : List α)
  | again
  | failed (error : ε)
  deriving DecidableEq

structure Call (α ε : Type*) where
  place : Nat
  report : Report α ε
  deriving DecidableEq

def Report.items : Report α ε → List α
  | .moved items => items
  | .again | .failed _ => []

-- The items that the calls of a transfer have moved, in order.
def items (calls : List (Call α ε)) : List α :=
  calls.flatMap fun call => call.report.items

-- All the calls of a transfer from a place on, first one first, with what it comes to: the end,
-- the first failure, or neither yet.
inductive Transfer (size : Nat) : Nat → List (Call α ε) → Option (Except ε Unit) → Prop
  | done : Transfer size size [] (some (.ok ()))
  | running {place : Nat} (h : place < size) : Transfer size place [] none
  | failed {place : Nat} {error : ε} (h : place < size) :
      Transfer size place [⟨place, .failed error⟩] (some (.error error))
  | again {place : Nat} {calls : List (Call α ε)} {result : Option (Except ε Unit)}
      (h : place < size) :
      Transfer size place calls result →
      Transfer size place (⟨place, .again⟩ :: calls) result
  | moved {place : Nat} {calls : List (Call α ε)} {result : Option (Except ε Unit)}
      {items : List α} (hpos : 0 < items.length) (hfit : place + items.length ≤ size) :
      Transfer size (place + items.length) calls result →
      Transfer size place (⟨place, .moved items⟩ :: calls) result

-- The items from a place on are overwritten.
def overwrite (buffer : List α) (place : Nat) (chunk : List α) : List α :=
  buffer.take place ++ chunk ++ buffer.drop (place + chunk.length)

-- What a transfer that reads makes of a buffer.
def fill (buffer : List α) (calls : List (Call α ε)) : List α :=
  calls.foldl (fun buffer call => overwrite buffer call.place call.report.items) buffer

@[simp] theorem items_nil : items ([] : List (Call α ε)) = [] := rfl

@[simp] theorem items_cons (call : Call α ε) (calls : List (Call α ε)) :
    items (call :: calls) = call.report.items ++ items calls := rfl

@[simp] theorem items_append (calls more : List (Call α ε)) :
    items (calls ++ more) = items calls ++ items more :=
  List.flatMap_append

@[simp] theorem overwrite_nil (buffer : List α) (place : Nat) :
    overwrite buffer place [] = buffer := by
  simp [overwrite]

section Transfer

variable {size place : Nat} {calls : List (Call α ε)} {result : Option (Except ε Unit)}

-- Every call stands where the items before it end, and there is something left.
theorem Transfer.place_eq (h : Transfer size place calls result) {before after : List (Call α ε)}
    {call : Call α ε} (hcalls : calls = before ++ call :: after) :
    call.place = place + (items before).length ∧ call.place < size := by
  induction h generalizing before with
  | done | running => simp at hcalls
  | @failed place error hlt =>
      cases before with
      | nil =>
          simp only [List.nil_append, List.cons.injEq] at hcalls
          obtain ⟨rfl, -⟩ := hcalls
          exact ⟨rfl, hlt⟩
      | cons first before => simp at hcalls
  | @again place calls result hlt _ ih =>
      cases before with
      | nil =>
          simp only [List.nil_append, List.cons.injEq] at hcalls
          obtain ⟨rfl, -⟩ := hcalls
          exact ⟨rfl, hlt⟩
      | cons first before =>
          simp only [List.cons_append, List.cons.injEq] at hcalls
          obtain ⟨rfl, hrest⟩ := hcalls
          simpa [Report.items] using ih hrest
  | @moved place calls result chunk hpos hfit _ ih =>
      cases before with
      | nil =>
          simp only [List.nil_append, List.cons.injEq] at hcalls
          obtain ⟨rfl, -⟩ := hcalls
          exact ⟨rfl, by show place < size; omega⟩
      | cons first before =>
          simp only [List.cons_append, List.cons.injEq] at hcalls
          obtain ⟨rfl, hrest⟩ := hcalls
          obtain ⟨hplace, hlt⟩ := ih hrest
          refine ⟨?_, hlt⟩
          simp only [items_cons, Report.items, List.length_append]
          omega

-- A transfer that has come to its end has moved everything, and no other one has.
theorem Transfer.length_items (h : Transfer size place calls result) :
    place + (items calls).length ≤ size ∧
      (result = some (.ok ()) ↔ place + (items calls).length = size) := by
  induction h with
  | done => simp
  | running hlt => exact ⟨by simp; omega, by simp; omega⟩
  | failed hlt => exact ⟨by simp [Report.items]; omega, by simp [Report.items]; omega⟩
  | again hlt _ ih => simpa [Report.items] using ih
  | @moved place calls result chunk hpos hfit _ ih =>
      simpa [Report.items, Nat.add_assoc] using ih

-- The failure is the first one and the last call.
theorem Transfer.failure (h : Transfer size place calls result) {error : ε}
    (hresult : result = some (.error error)) :
    ∃ before last, calls = before ++ [⟨last, .failed error⟩] ∧
      ∀ call ∈ before, ∀ other, call.report ≠ .failed other := by
  induction h with
  | done | running => simp at hresult
  | @failed place other hlt =>
      simp only [Option.some.injEq, Except.error.injEq] at hresult
      subst hresult
      exact ⟨[], place, rfl, by simp⟩
  | again _ _ ih | moved _ _ _ ih =>
      obtain ⟨before, last, rfl, hother⟩ := ih hresult
      refine ⟨_ :: before, last, rfl, ?_⟩
      intro call hm
      rcases List.mem_cons.mp hm with rfl | hm
      · simp
      · exact hother call hm

-- Chunks that are taken where they are offered make up one stretch of the source.
theorem Transfer.items_eq (h : Transfer size place calls result) (source : List α)
    (hsource : ∀ call ∈ calls, call.report.items <+: source.drop call.place) :
    items calls = (source.drop place).take (items calls).length := by
  induction h with
  | done | running | failed => simp [Report.items]
  | again hlt _ ih =>
      simpa [Report.items] using ih fun call hm => hsource call (List.mem_cons_of_mem _ hm)
  | @moved place calls result chunk hpos hfit _ ih =>
      have hrest := ih fun call hm => hsource call (List.mem_cons_of_mem _ hm)
      obtain ⟨after, hafter⟩ := hsource _ List.mem_cons_self
      have hdrop : source.drop (place + chunk.length) = after := by
        rw [← List.drop_drop, ← hafter]
        exact List.drop_left
      rw [hdrop] at hrest
      simp only [items_cons, Report.items, List.length_append] at hafter ⊢
      rw [← hafter, List.take_length_add_append, ← hrest]

-- The chunks lie side by side in the buffer and the rest of it is left alone.
theorem Transfer.fill_eq (h : Transfer size place calls result) (buffer : List α)
    (hsize : buffer.length = size) :
    fill buffer calls = overwrite buffer place (items calls) := by
  induction h generalizing buffer with
  | done | running | failed => simp [fill, Report.items]
  | again hlt _ ih => simpa [fill, Report.items] using ih buffer hsize
  | @moved place calls result chunk hpos hfit _ ih =>
      have hlength : (buffer.take place ++ chunk).length = place + chunk.length := by
        simp only [List.length_append, List.length_take]
        omega
      have hstored : (overwrite buffer place chunk).length = size := by
        simp only [overwrite, List.length_append, List.length_take, List.length_drop]
        omega
      have htake : (overwrite buffer place chunk).take (place + chunk.length) =
          buffer.take place ++ chunk := by
        rw [overwrite, ← hlength, List.take_left]
      have hdrop : (overwrite buffer place chunk).drop
          (place + chunk.length + (items calls).length) =
          buffer.drop (place + chunk.length + (items calls).length) := by
        rw [← List.drop_drop, overwrite, ← hlength, List.drop_left, List.drop_drop, hlength]
      have hstep : fill buffer (⟨place, .moved chunk⟩ :: calls) =
          fill (overwrite buffer place chunk) calls := rfl
      rw [hstep, ih _ hstored, overwrite, htake, hdrop, overwrite]
      simp only [items_cons, Report.items, List.length_append, List.append_assoc, Nat.add_assoc]

end Transfer

end Chunked
