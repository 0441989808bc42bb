import Minimk.Runtime.Process.Shifts

namespace Minimk.Runtime.Machine

open Transition

variable {m next : Machine} {event : Event} {log : List Event} {idx : Slot}

-- The kernel answers with whole pages wherever a history asks for a stack.
def PagedReplies (log : List Event) : Prop :=
  ∀ event ∈ log, ∀ reply ∈ event.action.reply, reply.Paged

-- The stack of a coroutine has the shape that the page size at its creation gave it.
def ShapedIn (log : List Event) (m : Machine) (idx : Slot) : Prop :=
  ∃ event ∈ log, ∃ reply ∈ event.action.reply, event.creates (m.serials idx) = true ∧
    (m.sched.coroutines idx).stack.Shaped (pageSizeOf reply).toNat

theorem Step.shapedIn (hs : Step m event next) (hi : m.Invariant)
    (hpaged : PagedReplies (event :: log))
    (h : ∀ idx, m.conts idx ≠ .idle → ShapedIn log m idx) (hidle : next.conts idx ≠ .idle) :
    ShapedIn (event :: log) next idx := by
  rcases (hs.shifts hi).origin hidle with ⟨hold, hserials, horigin⟩ | ⟨reply, stack, calls, hc⟩
  · obtain ⟨other, hmem, reply, hreply, hcreates, hshaped⟩ := h idx hold
    refine ⟨other, List.mem_cons_of_mem _ hmem, reply, hreply, ?_, ?_⟩
    · rw [hserials]
      exact hcreates
    · rw [horigin.stack]
      exact hshaped
  · have hreply : event.action.reply = some reply := by
      rw [hc.event]
      rfl
    refine ⟨event, List.mem_cons_self, reply, hreply, ?_, ?_⟩
    · rw [hc.event, hc.serials]
      simp [Event.creates]
    · rw [hc.stack_eq]
      exact stackAlloc_shaped (hpaged event List.mem_cons_self reply hreply) hc.alloc

theorem Run.shapedIn (h : Run log m) (hpaged : PagedReplies log) :
    ∀ idx, m.conts idx ≠ .idle → ShapedIn log m idx := by
  revert hpaged
  refine Transition.Run.invariant_from (P := fun log m => PagedReplies log →
    ∀ idx, m.conts idx ≠ .idle → ShapedIn log m idx) ?_ ?_ h
  · exact fun _ _ hidle => absurd rfl hidle
  · intro log m event next hrun ih hs hpaged idx hidle
    have hold : PagedReplies log := fun other ho => hpaged other (List.mem_cons_of_mem _ ho)
    exact hs.shapedIn (Reachable.holds hrun.reachable) hpaged (ih hold) hidle

-- The addresses of the guard and of the stack above it.
def Owns (m : Machine) (idx : Slot) (address : Nat) : Prop :=
  (m.sched.coroutines idx).stack.base.toNat ≤ address ∧
    address < (m.sched.coroutines idx).stack.top.toNat

-- Below each stack there is a whole page that no coroutine may use: it is part of the same
-- mapping, and the mappings of the others are elsewhere.
theorem Run.guard_pages (h : Run log m) (hpaged : PagedReplies log) :
    (∀ idx, m.conts idx ≠ .idle → ∃ event ∈ log, ∃ reply ∈ event.action.reply,
      event.creates (m.serials idx) = true ∧
        (m.sched.coroutines idx).stack.Shaped (pageSizeOf reply).toNat) ∧
    ∀ i j address, m.conts i ≠ .idle → m.conts j ≠ .idle → m.Owns i address →
      m.Owns j address → i = j := by
  refine ⟨Run.shapedIn h hpaged, ?_⟩
  rintro i j address hi hj ⟨hifrom, hito⟩ ⟨hjfrom, hjto⟩
  by_contra hij
  obtain ⟨_, _, _, _, _, hishape⟩ := Run.shapedIn h hpaged i hi
  obtain ⟨_, _, _, _, _, hjshape⟩ := Run.shapedIn h hpaged j hj
  have hitop := hishape.top
  have hjtop := hjshape.top
  have hapart := (Reachable.layout h.reachable).apart i j hi hj hij
  simp only [Mapping.Disjoint, stackOf, Stack.mapping] at hapart
  omega

-- Two coroutines on pages of 4 KiB.
def twoSpawns : List Action :=
  [.go 1 7 ⟨4096, some 0x10000, true⟩, .go 2 7 ⟨4096, some 0x40000, true⟩]

theorem paged_of_base {base : UInt64} (hbase : 4096 ∣ base.toNat) (hend : base.toNat < 2 ^ 32) :
    StackReply.Paged ⟨4096, some base, true⟩ := by
  have hpage : (pageSizeOf ⟨4096, some base, true⟩).toNat = 4096 := rfl
  have hsize : (stackSizeOf ⟨4096, some base, true⟩).toNat = 69632 := by
    show (stackSizeOf ⟨4096, none, true⟩).toNat = 69632
    decide
  refine ⟨⟨12, by omega, by omega⟩, ?_⟩
  intro other hother
  obtain rfl : base = other := Option.some.inj hother
  rw [hpage, hsize]
  exact ⟨hbase, by omega⟩

theorem Run.guard_pages_twoSpawns :
    ((initial.after twoSpawns).sched.coroutines 1).stack.Shaped 4096 := by
  have hrun := @after_run twoSpawns rfl
  have hreplies : ∀ event ∈ initial.history twoSpawns, ∀ reply ∈ event.action.reply,
      reply = ⟨4096, some 0x10000, true⟩ ∨ reply = ⟨4096, some 0x40000, true⟩ := by
    decide
  have hpaged : PagedReplies (initial.history twoSpawns) := by
    intro event hmem reply hreply
    rcases hreplies event hmem reply hreply with rfl | rfl
    · exact paged_of_base (by decide) (by decide)
    · exact paged_of_base (by decide) (by decide)
  obtain ⟨hshaped, -⟩ := Run.guard_pages hrun hpaged
  obtain ⟨event, hmem, reply, hreply, -, hstack⟩ := hshaped 1 (by decide)
  have hpage : (pageSizeOf reply).toNat = 4096 := by
    rcases hreplies event hmem reply hreply with rfl | rfl <;> rfl
  rw [hpage] at hstack
  exact hstack

end Minimk.Runtime.Machine
