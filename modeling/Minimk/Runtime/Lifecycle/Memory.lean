import Minimk.Runtime.Lifecycle.Theorems
import Mathlib.Data.List.Perm.Subperm

namespace Minimk.Runtime

theorem Mapping.Disjoint.symm {left right : Mapping} (h : left.Disjoint right) :
    right.Disjoint left := by
  unfold Mapping.Disjoint at *
  omega

theorem Mapping.Disjoint.ne {left right : Mapping} (h : left.Disjoint right)
    (hsize : 0 < left.size.toNat) : left ≠ right := by
  rintro rfl
  unfold Mapping.Disjoint at h
  omega

theorem Memory.calls_munmap (memory : Memory) (mappings : List Mapping) :
    memory.calls (mappings.map .munmap) = memory.diff mappings := by
  rw [List.diff_eq_foldl, Memory.calls, List.foldl_map]
  rfl

namespace Coroutine

-- The fields that a coroutine keeps from its creation to its end.
structure SameOrigin (next coro : Coroutine) : Prop where
  entry : next.entry = coro.entry
  argument : next.argument = coro.argument
  stack : next.stack = coro.stack

theorem maybeResume_sameOrigin (coro : Coroutine) (now : UInt64) (revents : Int16) :
    (coro.maybeResume now revents).SameOrigin coro := by
  unfold maybeResume
  split_ifs <;> exact ⟨rfl, rfl, rfl⟩

end Coroutine

namespace Machine

open Transition

variable {m next : Machine} {event : Event} {log : List Event} {idx : Slot}

theorem resume_sameOrigin {coro : Coroutine} {how : Resumed}
    (hr : m.resume idx = some (.ok (coro, how))) :
    coro.SameOrigin (m.sched.coroutines idx) := by
  cases resume_regains hr with
  | fresh | yielded | sleeping => exact ⟨rfl, rfl, rfl⟩
  | waiting hconts hio =>
      simp only [Coroutine.resumeIo, Abort.bind_eq_ok_iff] at hio
      obtain ⟨_, _, _, _, _, _, hio⟩ := hio
      split_ifs at hio <;> cases hio <;> exact ⟨rfl, rfl, rfl⟩

def exitedSlots (m : Machine) : List Slot :=
  (List.finRange MAX_COROS).filter fun idx => (m.sched.coroutines idx).state = .exited

theorem clean_calls (m : Machine) :
    m.clean.2 = .cleaned ((m.exitedSlots.map m.stackOf).map .munmap) := by
  simp only [clean, Scheduler.cleanExitedCoroutines, Coroutine.finish, stackFree, exitedSlots]
  congr 1
  induction List.finRange MAX_COROS with
  | nil => rfl
  | cons first rest ih =>
      by_cases hs : (m.sched.coroutines first).state = .exited
      · simp [hs, ih, stackOf, Stack.mapping]
      · simp [hs, ih]

-- What a step does to the stacks, and the calls it makes for them.
inductive Stacks (m : Machine) (event : Event) (next : Machine) : Prop
  | kept (hmemory : next.memory = m.memory)
      (hidle : ∀ i, next.conts i = .idle ↔ m.conts i = .idle)
      (hserials : next.serials = m.serials)
      (horigin : ∀ i, m.conts i ≠ .idle →
        (next.sched.coroutines i).SameOrigin (m.sched.coroutines i))
      (hcalls : event.calls = [] ∨ ∃ rv mapping, event.output = .refused rv event.calls ∧
        event.calls = [.mmap mapping, .munmap mapping])
  | created (idx : Slot) (entry argument : UInt64) (reply : StackReply)
      (hevent : event = ⟨.go entry argument reply, .created m.spawned [.mmap (next.stackOf idx)]⟩)
      (hidle : m.conts idx = .idle) (hnext : next.conts = Function.update m.conts idx .fresh)
      (hmemory : next.memory = next.stackOf idx :: m.memory)
      (hserials : next.serials = Function.update m.serials idx m.spawned)
      (hentry : (next.sched.coroutines idx).entry = entry)
      (hargument : (next.sched.coroutines idx).argument = argument)
      (hothers : ∀ i, i ≠ idx → next.sched.coroutines i = m.sched.coroutines i)
      (hfresh : m.memory.Fresh (next.stackOf idx))
  | cleaned (exited : List Slot) (hevent : event.action = .clean) (hnodup : exited.Nodup)
      (hmem : ∀ i, i ∈ exited ↔ m.conts i = .returned)
      (hcalls : event.calls = (exited.map m.stackOf).map .munmap)
      (hmemory : next.memory = m.memory.diff (exited.map m.stackOf))
      (hnext : ∀ i, next.conts i = if m.conts i = .returned then .idle else m.conts i)
      (hserials : next.serials = m.serials)
      (horigin : ∀ i, m.conts i ≠ .returned → next.sched.coroutines i = m.sched.coroutines i)

theorem Stacks.of_conts (hmemory : next.memory = m.memory) (hconts : next.conts = m.conts)
    (hserials : next.serials = m.serials)
    (horigin : ∀ i, (next.sched.coroutines i).SameOrigin (m.sched.coroutines i))
    (hcalls : event.calls = []) : Stacks m event next :=
  .kept hmemory (by simp [hconts]) hserials (fun i _ => horigin i) (.inl hcalls)

theorem Stacks.leave {coro : Coroutine} {cont : Cont} {sp : UInt64} (h : m.Invariant)
    (hpc : m.pc = .coroutine) (hcurrent : m.sched.current = some idx) (hcont : cont ≠ .idle)
    (hcoro : coro.SameOrigin (m.sched.coroutines idx)) (hcalls : event.calls = []) :
    Stacks m event (m.leave idx coro cont sp) := by
  have hrun := (h.running idx).mpr ⟨hpc, hcurrent⟩
  refine .kept rfl ?_ rfl ?_ (.inl hcalls)
  · intro i
    exact update_iff (P := fun cont => cont = .idle) (by simp [hcont, hrun]) i
  · intro i _
    by_cases he : i = idx
    · subst he
      simpa [Machine.leave] using ⟨hcoro.entry, hcoro.argument, hcoro.stack⟩
    · simpa [Machine.leave, he] using ⟨rfl, rfl, rfl⟩

theorem Stacks.clean (h : m.Invariant) : Stacks m ⟨.clean, m.clean.2⟩ m.clean.1 := by
  have hexited : ∀ i, (m.sched.coroutines i).state = .exited ↔ m.conts i = .returned :=
    fun i => (h.slots i).exited_iff
  have hcalls := m.clean_calls
  refine .cleaned m.exitedSlots rfl ((List.nodup_finRange MAX_COROS).filter _) ?_ ?_ ?_ ?_ rfl ?_
  · intro i
    simpa [exitedSlots] using hexited i
  · rw [hcalls]
    rfl
  · rw [← Memory.calls_munmap]
    simp only [Machine.clean, Output.cleaned.injEq] at hcalls ⊢
    rw [hcalls]
  · intro i
    simp [Machine.clean, hexited]
  · intro i hi
    simp [Machine.clean, Scheduler.cleanExitedCoroutines, hexited, hi]

theorem Move.stacks (hm : Move m event next) (h : m.Invariant) : Stacks m event next := by
  cases hm with
  | goFull | run | loopNext | loopEnd | pickNone | pickSome | pollSkipped | pollInterrupted =>
      exact .of_conts rfl rfl rfl (fun _ => ⟨rfl, rfl, rfl⟩) rfl
  | expire | polled =>
      exact .of_conts rfl rfl rfl (fun _ => Coroutine.maybeResume_sameOrigin _ _ _) rfl
  | @goFailed _ _ _ idx coro calls _ hnull _ hcalls =>
      have hidle := (h.slots idx).null_iff.mp hnull
      refine .kept rfl (fun _ => Iff.rfl) rfl ?_ ?_
      · intro i hi
        have hne : i ≠ idx := by
          rintro rfl
          exact hi hidle
        simpa [hne] using ⟨rfl, rfl, rfl⟩
      · rcases hcalls with rfl | ⟨mapping, _, rfl⟩
        · exact .inl rfl
        · exact .inr ⟨.enomem, mapping, rfl, rfl⟩
  | @goCreated entry argument reply idx coro _ hnull _ hentry hargument hfresh =>
      have hself : (({ m with
          sched := m.sched.set idx coro
          memory := coro.stack.mapping :: m.memory }.spawn idx).sched.coroutines idx) = coro := by
        simp [spawn]
      refine .created idx entry argument reply ?_ ((h.slots idx).null_iff.mp hnull) rfl ?_ rfl ?_ ?_
        ?_ ?_
      · simp [stackOf, spawn]
      · simp [stackOf, spawn]
      · rw [hself, hentry]
      · rw [hself, hargument]
      · intro i hi
        simp [spawn, hi]
      · simpa [stackOf, spawn] using hfresh
  | clean => exact .clean h
  | @resumed sp idx coro how _ _ hr =>
      obtain ⟨hidle, _, _⟩ := resume_how hr
      refine .kept rfl ?_ rfl ?_ (.inl rfl)
      · intro i
        exact update_iff (P := fun cont => cont = .idle) (by simp [hidle]) i
      · intro i _
        by_cases he : i = idx
        · subst he
          simpa [enter] using resume_sameOrigin hr
        · simpa [enter, he] using ⟨rfl, rfl, rfl⟩
  | yielded hpc hcurrent | slept hpc hcurrent | returned hpc hcurrent =>
      exact .leave h hpc hcurrent (by simp) ⟨rfl, rfl, rfl⟩ rfl
  | suspended hpc hcurrent _ hcoro =>
      subst hcoro
      exact .leave h hpc hcurrent (by simp) ⟨rfl, rfl, rfl⟩ rfl

theorem Layout.kept (h : m.Layout) (hmemory : next.memory = m.memory)
    (hidle : ∀ i, next.conts i = .idle ↔ m.conts i = .idle)
    (hstack : ∀ i, m.conts i ≠ .idle → next.stackOf i = m.stackOf i) : next.Layout := by
  have hne : ∀ i, next.conts i ≠ .idle ↔ m.conts i ≠ .idle := fun i => (hidle i).not
  refine ⟨?_, hmemory ▸ h.nodup, hmemory ▸ h.positive, ?_⟩
  · intro mapping
    rw [hmemory, h.mem_iff]
    refine exists_congr fun i => ?_
    rw [hne]
    refine and_congr_right fun hi => ?_
    rw [hstack i hi]
  · intro i j hi hj hij
    rw [hne] at hi hj
    rw [hstack i hi, hstack j hj]
    exact h.apart i j hi hj hij

theorem Layout.created (h : m.Layout) (hidle : m.conts idx = .idle)
    (hnext : next.conts = Function.update m.conts idx .fresh)
    (hmemory : next.memory = next.stackOf idx :: m.memory)
    (hothers : ∀ i, i ≠ idx → next.stackOf i = m.stackOf i)
    (hfresh : m.memory.Fresh (next.stackOf idx)) : next.Layout := by
  obtain ⟨hpositive, _, hclear⟩ := hfresh
  have hne : ∀ i, m.conts i ≠ .idle → i ≠ idx := by
    rintro i hi rfl
    exact hi hidle
  have hold : ∀ i, i ≠ idx → next.conts i = m.conts i := by
    intro i hi
    simp [hnext, hi]
  have hnew : next.conts idx ≠ .idle := by simp [hnext]
  have hmem : ∀ i, i ≠ idx → next.conts i ≠ .idle → next.stackOf i ∈ m.memory := by
    intro i hi hc
    rw [hothers i hi]
    exact (h.mem_iff _).mpr ⟨i, hold i hi ▸ hc, rfl⟩
  refine ⟨?_, ?_, ?_, ?_⟩
  · intro mapping
    rw [hmemory, List.mem_cons]
    constructor
    · rintro (rfl | hm)
      · exact ⟨idx, hnew, rfl⟩
      · obtain ⟨i, hi, rfl⟩ := (h.mem_iff mapping).mp hm
        exact ⟨i, by rwa [hold i (hne i hi)], hothers i (hne i hi)⟩
    · rintro ⟨i, hi, rfl⟩
      by_cases he : i = idx
      · exact .inl (by rw [he])
      · exact .inr (hmem i he hi)
  · rw [hmemory]
    refine List.nodup_cons.mpr ⟨?_, h.nodup⟩
    intro hm
    exact (hclear _ hm).ne hpositive rfl
  · intro mapping hm
    rw [hmemory] at hm
    rcases List.mem_cons.mp hm with rfl | hm
    · exact hpositive
    · exact h.positive mapping hm
  · intro i j hi hj hij
    by_cases hei : i = idx
    · have hj' := hmem j (fun hej => hij (hei.trans hej.symm)) hj
      exact hei ▸ hclear _ hj'
    · by_cases hej : j = idx
      · exact hej ▸ (hclear _ (hmem i hei hi)).symm
      · rw [hothers i hei, hothers j hej]
        exact h.apart i j (hold i hei ▸ hi) (hold j hej ▸ hj) hij

theorem Layout.stackOf_inj (h : m.Layout) {i j : Slot} (hi : m.conts i ≠ .idle)
    (hj : m.conts j ≠ .idle) (hs : m.stackOf i = m.stackOf j) : i = j := by
  by_contra hij
  have hsize := h.positive _ ((h.mem_iff _).mpr ⟨i, hi, rfl⟩)
  exact (h.apart i j hi hj hij).ne hsize hs

theorem Layout.cleaned {exited : List Slot} (h : m.Layout)
    (hmem : ∀ i, i ∈ exited ↔ m.conts i = .returned)
    (hmemory : next.memory = m.memory.diff (exited.map m.stackOf))
    (hnext : ∀ i, next.conts i = if m.conts i = .returned then .idle else m.conts i)
    (hothers : ∀ i, m.conts i ≠ .returned → next.stackOf i = m.stackOf i) : next.Layout := by
  have hne : ∀ i, next.conts i ≠ .idle ↔ m.conts i ≠ .returned ∧ m.conts i ≠ .idle := by
    intro i
    rw [hnext]
    split_ifs with hr <;> simp [hr]
  have hsub : ∀ mapping, mapping ∈ next.memory ↔
      mapping ∈ m.memory ∧ mapping ∉ exited.map m.stackOf := by
    intro mapping
    rw [hmemory]
    exact h.nodup.mem_sdiff_iff
  refine ⟨?_, ?_, ?_, ?_⟩
  · intro mapping
    rw [hsub, h.mem_iff]
    constructor
    · rintro ⟨⟨i, hi, rfl⟩, hn⟩
      have hr : m.conts i ≠ .returned := by
        intro hr
        exact hn (List.mem_map_of_mem ((hmem i).mpr hr))
      exact ⟨i, (hne i).mpr ⟨hr, hi⟩, hothers i hr⟩
    · rintro ⟨i, hi, rfl⟩
      obtain ⟨hr, hi⟩ := (hne i).mp hi
      rw [hothers i hr]
      refine ⟨⟨i, hi, rfl⟩, ?_⟩
      intro hm
      obtain ⟨j, hj, hs⟩ := List.mem_map.mp hm
      have hj := (hmem j).mp hj
      have hji := h.stackOf_inj (by simp [hj]) hi hs
      exact hr (hji ▸ hj)
  · rw [hmemory]
    exact h.nodup.diff
  · exact fun mapping hm => h.positive mapping ((hsub mapping).mp hm).1
  · intro i j hi hj hij
    obtain ⟨hri, hi⟩ := (hne i).mp hi
    obtain ⟨hrj, hj⟩ := (hne j).mp hj
    rw [hothers i hri, hothers j hrj]
    exact h.apart i j hi hj hij

theorem Stacks.layout (hs : Stacks m event next) (h : m.Layout) : next.Layout := by
  cases hs with
  | kept hmemory hidle _ horigin _ =>
      refine h.kept hmemory hidle fun i hi => ?_
      simp only [stackOf, (horigin i hi).stack]
  | created idx entry argument reply _ hidle hnext hmemory _ _ _ hothers hfresh =>
      refine h.created hidle hnext hmemory (fun i hi => ?_) hfresh
      simp only [stackOf, hothers i hi]
  | cleaned exited _ _ hmem _ hmemory hnext _ horigin =>
      refine h.cleaned hmem hmemory hnext fun i hi => ?_
      simp only [stackOf, horigin i hi]

theorem initial_layout : initial.Layout where
  mem_iff := by simp [initial]
  nodup := List.nodup_nil
  positive := by simp [initial]
  apart := by simp [initial]

theorem Reachable.layout (h : Reachable m) : m.Layout := by
  obtain ⟨log, hr⟩ := h
  refine Transition.Run.invariant_from (P := fun _ m => m.Layout) ?_ ?_ hr
  · exact initial_layout
  · intro _ _ _ _ hr hl hs
    exact (hs.move.stacks (Reachable.holds hr.reachable)).layout hl

theorem Stacks.origins (hs : Stacks m event next) (h : Origins log m) :
    Origins (event :: log) next := by
  intro i hi
  cases hs with
  | kept _ hidle hserials horigin _ =>
      have hm : m.conts i ≠ .idle := (hidle i).not.mp hi
      obtain ⟨reply, hmem⟩ := h i hm
      have ho := horigin i hm
      refine ⟨reply, List.mem_cons_of_mem _ ?_⟩
      rw [ho.entry, ho.argument, hserials, stackOf, ho.stack]
      exact hmem
  | created idx entry argument reply hevent _ hnext _ hserials hentry hargument hothers _ =>
      by_cases he : i = idx
      · subst he
        refine ⟨reply, ?_⟩
        rw [hentry, hargument, hserials, Function.update_self, ← hevent]
        exact List.mem_cons_self
      · rw [hnext, Function.update_of_ne he] at hi
        obtain ⟨reply, hmem⟩ := h i hi
        refine ⟨reply, List.mem_cons_of_mem _ ?_⟩
        rw [stackOf, hothers i he, hserials, Function.update_of_ne he]
        exact hmem
  | cleaned exited _ _ _ _ _ hnext hserials horigin =>
      rw [hnext] at hi
      split_ifs at hi with hr
      · exact absurd rfl hi
      · obtain ⟨reply, hmem⟩ := h i hi
        refine ⟨reply, List.mem_cons_of_mem _ ?_⟩
        rw [stackOf, horigin i hr, hserials]
        exact hmem

theorem Run.origins (h : Run log m) : Origins log m := by
  refine Transition.Run.invariant_from ?_ ?_ h
  · intro idx hidle
    exact absurd rfl hidle
  · intro _ _ _ _ hr ho hs
    exact (hs.move.stacks (Reachable.holds hr.reachable)).origins ho

-- What is mapped is what has been mapped and not been unmapped.
def Ledger (log : List Event) (m : Machine) : Prop :=
  ∀ mapping, mapped log mapping = unmapped log mapping + m.memory.count mapping

theorem mapped_cons (event : Event) (log : List Event) (mapping : Mapping) :
    mapped (event :: log) mapping = event.calls.count (.mmap mapping) + mapped log mapping := by
  simp [mapped]

theorem unmapped_cons (event : Event) (log : List Event) (mapping : Mapping) :
    unmapped (event :: log) mapping =
      event.calls.count (.munmap mapping) + unmapped log mapping := by
  simp [unmapped]

theorem count_map_munmap (mappings : List Mapping) (mapping : Mapping) :
    (mappings.map MemCall.munmap).count (.munmap mapping) = mappings.count mapping :=
  List.count_map_of_injective mappings MemCall.munmap (fun _ _ h => MemCall.munmap.inj h) mapping

theorem count_mmap_map_munmap (mappings : List Mapping) (mapping : Mapping) :
    (mappings.map MemCall.munmap).count (.mmap mapping) = 0 := by
  simp [List.count_eq_zero]

theorem Stacks.ledger (hs : Stacks m event next) (hl : m.Layout) (h : Ledger log m) :
    Ledger (event :: log) next := by
  intro mapping
  have hold := h mapping
  rw [mapped_cons, unmapped_cons]
  cases hs with
  | kept hmemory _ _ _ hcalls =>
      rw [hmemory]
      rcases hcalls with hcalls | ⟨rv, own, _, hcalls⟩
      · simpa [hcalls] using hold
      · by_cases he : own = mapping <;> simp [hcalls, he] <;> omega
  | created idx entry argument reply hevent _ _ hmemory _ _ _ _ _ =>
      have hcalls : event.calls = [.mmap (next.stackOf idx)] := by rw [hevent]; rfl
      rw [hmemory, hcalls]
      by_cases he : next.stackOf idx = mapping <;> simp [he] <;> omega
  | cleaned exited _ hnodup hmem hcalls hmemory _ _ _ =>
      have hsub : (exited.map m.stackOf).count mapping ≤ m.memory.count mapping := by
        have hinj : (exited.map m.stackOf).Nodup := by
          refine List.Nodup.map_on ?_ hnodup
          intro i hi j hj hs
          have hi := (hmem i).mp hi
          have hj := (hmem j).mp hj
          exact hl.stackOf_inj (by simp [hi]) (by simp [hj]) hs
        refine (hinj.subperm ?_).count_le mapping
        intro own hown
        obtain ⟨i, hi, rfl⟩ := List.mem_map.mp hown
        have hi := (hmem i).mp hi
        exact (hl.mem_iff _).mpr ⟨i, by simp [hi], rfl⟩
      rw [hcalls, count_map_munmap, count_mmap_map_munmap, hmemory, List.count_diff]
      omega

theorem Run.ledger (h : Run log m) : Ledger log m := by
  refine Transition.Run.invariant_from ?_ ?_ h
  · intro mapping
    rfl
  · intro _ _ _ _ hr ho hs
    have hl := Reachable.layout hr.reachable
    exact (hs.move.stacks (Reachable.holds hr.reachable)).ledger hl ho

theorem Reachable.count_le_one (h : Reachable m) (mapping : Mapping) :
    m.memory.count mapping ≤ 1 :=
  List.nodup_iff_count_le_one.mp h.layout.nodup mapping

-- A coroutine starts with the entry and the argument that its creation was given.
theorem Run.entryStarts_origin {action : Action} {serial : Nat} {entry argument : UInt64}
    (h : Run log m) (hs : Step m ⟨action, .resumed serial (.entryStarts entry argument)⟩ next) :
    ∃ reply calls, ⟨.go entry argument reply, .created serial calls⟩ ∈ log := by
  have hm := hs.move
  generalize hev : (⟨action, .resumed serial (.entryStarts entry argument)⟩ : Event) = event at hm
  cases hm with
  | @resumed sp idx coro how hpc hcurrent hr =>
      simp only [Event.mk.injEq, Output.resumed.injEq] at hev
      obtain ⟨-, rfl, rfl⟩ := hev
      obtain ⟨hidle, -, -⟩ := resume_how hr
      obtain ⟨reply, hmem⟩ := Run.origins h idx hidle
      cases resume_regains hr with
      | fresh => exact ⟨reply, _, hmem⟩
  | clean =>
      rw [clean_calls] at hev
      cases hev
  | _ => cases hev

theorem Run.munmap_origin {mapping : Mapping} (h : Run log m) (hs : Step m event next)
    (hcall : .munmap mapping ∈ event.calls) :
    (∃ rv, event.output = .refused rv [.mmap mapping, .munmap mapping]) ∨
      event.action = .clean ∧ m.sched.current = none ∧ ∃ idx action,
        m.conts idx = .returned ∧ m.stackOf idx = mapping ∧
          ⟨action, .created (m.serials idx) [.mmap mapping]⟩ ∈ log ∧
            ∃ ret ∈ log, Event.returns (m.serials idx) ret = true := by
  have hi := Reachable.holds h.reachable
  have hm := hs.move
  cases hm.stacks hi with
  | kept _ _ _ _ hcalls =>
      rcases hcalls with hcalls | ⟨rv, own, houtput, hcalls⟩
      · simp [hcalls] at hcall
      · rw [hcalls] at hcall houtput
        obtain rfl : mapping = own := by simpa using hcall
        exact .inl ⟨rv, houtput⟩
  | created idx entry argument reply hevent _ _ _ _ _ _ _ _ =>
      rw [hevent] at hcall
      simp [Event.calls] at hcall
  | cleaned exited hevent _ hmem hcalls _ _ _ _ =>
      rw [hcalls] at hcall
      obtain ⟨own, hown, he⟩ := List.mem_map.mp hcall
      obtain rfl := MemCall.munmap.inj he
      obtain ⟨idx, hidx, rfl⟩ := List.mem_map.mp hown
      have hret := (hmem idx).mp hidx
      obtain ⟨reply, horigin⟩ := Run.origins h idx (by simp [hret])
      have hdone := ((Run.history h).returned (m.serials idx)).iff_exists.mp
        ⟨hi.serial_lt idx (by simp [hret]), ?_⟩
      · refine .inr ⟨hevent, ?_, idx, _, hret, rfl, horigin, hdone⟩
        cases hm with
        | clean hpc => exact hi.current_none (by simp [hpc]) (by simp [hpc])
        | _ => cases hevent
      · rintro ⟨i, hserial, hidle, hunret⟩
        have hij := hi.serial_inj i idx hidle (by simp [hret]) hserial
        exact hunret (hij ▸ hret)

theorem Step.refused {action : Action} {rv : Error} {calls : List MemCall}
    (hs : Step m ⟨action, .refused rv calls⟩ next) :
    rv ≠ .success ∧ next.memory = m.memory ∧ next.conts = m.conts ∧ next.serials = m.serials ∧
      next.spawned = m.spawned ∧ ∀ idx, (m.sched.coroutines idx).state ≠ .null →
        next.sched.coroutines idx = m.sched.coroutines idx := by
  have hm := hs.move
  generalize hev : (⟨action, .refused rv calls⟩ : Event) = event at hm
  cases hm with
  | goFull =>
      cases hev
      exact ⟨by decide, rfl, rfl, rfl, rfl, fun _ _ => rfl⟩
  | @goFailed _ _ _ slot coro _ _ hnull _ _ =>
      cases hev
      refine ⟨by decide, rfl, rfl, rfl, rfl, fun idx hidx => ?_⟩
      have hne : idx ≠ slot := by
        rintro rfl
        exact hidx hnull
      simp [hne]
  | clean =>
      rw [clean_calls] at hev
      cases hev
  | _ => cases hev

theorem Run.returns_to_main {output : Output} (h : Run log m)
    (hs : Step m ⟨.loopTest, output⟩ next) (hpc : next.pc = .main) :
    next.memory = [] ∧ ∀ event ∈ log, ∀ serial, event.creates serial = true →
      ∃ ret ∈ log, Event.returns serial ret = true := by
  have hi := Reachable.holds h.reachable
  have hl := Reachable.layout h.reachable
  have hm := hs.move
  generalize hev : (⟨.loopTest, output⟩ : Event) = event at hm
  cases hm with
  | loopNext => simp at hpc
  | loopEnd _ hcount =>
      have hidle : ∀ idx, m.conts idx = .idle := fun idx =>
        (hi.slots idx).null_iff.mp (hcount idx)
      constructor
      · refine List.eq_nil_iff_forall_not_mem.mpr fun mapping hmem => ?_
        obtain ⟨idx, hidx, -⟩ := (hl.mem_iff mapping).mp hmem
        exact hidx (hidle idx)
      · intro event he serial hcreates
        have hh := Run.history h
        have hlt := (hh.created serial).iff_exists.mpr ⟨event, he, hcreates⟩
        refine (hh.returned serial).iff_exists.mp ⟨hlt, ?_⟩
        rintro ⟨idx, -, hidx, -⟩
        exact hidx (hidle idx)
  | _ => cases hev

theorem Run.lifecycle (h : Run log m) :
    (∀ serial, log.countP (Event.creates serial) ≤ 1 ∧ log.countP (Event.starts serial) ≤ 1 ∧
      ∀ action entry argument, ⟨action, .resumed serial (.entryStarts entry argument)⟩ ∈ log →
        ∃ reply calls, ⟨.go entry argument reply, .created serial calls⟩ ∈ log) ∧
    (∀ i j, m.conts i ≠ .idle → m.conts i ≠ .returned → m.conts j ≠ .idle →
      m.conts j ≠ .returned →
        (m.serials i = m.serials j ↔ i = j) ∧ (i ≠ j → (m.stackOf i).Disjoint (m.stackOf j))) ∧
    (∀ mapping, mapped log mapping = unmapped log mapping + m.memory.count mapping ∧
      m.memory.count mapping ≤ 1) ∧
    (∀ idx, m.conts idx ≠ .idle → m.stackOf idx ∈ m.memory) ∧
    (∀ event next mapping, Step m event next → .munmap mapping ∈ event.calls →
      (∃ rv, event.output = .refused rv [.mmap mapping, .munmap mapping]) ∨
        event.action = .clean ∧ m.sched.current = none ∧ ∃ idx action,
          m.conts idx = .returned ∧ m.stackOf idx = mapping ∧
            ⟨action, .created (m.serials idx) [.mmap mapping]⟩ ∈ log ∧
              ∃ ret ∈ log, Event.returns (m.serials idx) ret = true) ∧
    (∀ action rv calls next, Step m ⟨action, .refused rv calls⟩ next →
      rv ≠ .success ∧ next.memory = m.memory ∧ ∀ idx, (m.sched.coroutines idx).state ≠ .null →
        next.sched.coroutines idx = m.sched.coroutines idx) ∧
    (∀ output next, Step m ⟨.loopTest, output⟩ next → next.pc = .main →
      next.memory = [] ∧ ∀ event ∈ log, ∀ serial, event.creates serial = true →
        ∃ ret ∈ log, Event.returns serial ret = true) := by
  have hi := Reachable.holds h.reachable
  have hl := Reachable.layout h.reachable
  have hh := Run.history h
  refine ⟨?_, ?_, ?_, ?_, ?_, ?_, ?_⟩
  · intro serial
    refine ⟨(hh.created serial).le_one, (hh.started serial).le_one, ?_⟩
    intro action entry argument hmem
    obtain ⟨newer, older, rfl⟩ := List.append_of_mem hmem
    obtain ⟨state, after, hrun, hs, -⟩ := h.split_at
    obtain ⟨reply, calls, ho⟩ := Run.entryStarts_origin hrun hs
    exact ⟨reply, calls, List.mem_append_right _ (List.mem_cons_of_mem _ ho)⟩
  · intro i j hidle _ hjdle _
    refine ⟨⟨hi.serial_inj i j hidle hjdle, ?_⟩, hl.apart i j hidle hjdle⟩
    rintro rfl
    rfl
  · exact fun mapping => ⟨Run.ledger h mapping, Reachable.count_le_one h.reachable mapping⟩
  · exact fun idx hidle => (hl.mem_iff _).mpr ⟨idx, hidle, rfl⟩
  · exact fun event next mapping hs hcall => Run.munmap_origin h hs hcall
  · intro action rv calls next hs
    obtain ⟨hrv, hmemory, -, -, -, hslots⟩ := hs.refused
    exact ⟨hrv, hmemory, hslots⟩
  · exact fun output next hs hpc => Run.returns_to_main h hs hpc

-- A coroutine that returns at once, and a spawn from inside it that fails after its mmap.
def returningEntry : List Action :=
  [.go 1 7 ⟨4096, some 0x10000, true⟩, .run, .loopTest, .clean, .expire 0, .pick, .switch 0x9000,
    .go 2 8 ⟨4096, some 0x40000, false⟩, .ret 0x1f000, .loopTest, .clean, .expire 6, .pick,
    .poll 7 ⟨.success, fun _ => 0, 8⟩, .loopTest]

theorem Run.lifecycle_returningEntry :
    (initial.after returningEntry).pc = .main ∧
      unmapped (initial.history returningEntry) ⟨0x10000, 0x11000⟩ = 1 ∧
      unmapped (initial.history returningEntry) ⟨0x40000, 0x11000⟩ = 1 := by
  have hrun := @after_run returningEntry rfl
  obtain ⟨-, -, hledger, -⟩ := Run.lifecycle hrun
  have hmemory : (initial.after returningEntry).memory = [] := rfl
  have hone := (hledger ⟨0x10000, 0x11000⟩).1
  have htwo := (hledger ⟨0x40000, 0x11000⟩).1
  rw [hmemory, List.count_nil, Nat.add_zero] at hone htwo
  refine ⟨rfl, ?_, ?_⟩
  · rw [← hone]
    rfl
  · rw [← htwo]
    rfl

end Machine

end Minimk.Runtime
