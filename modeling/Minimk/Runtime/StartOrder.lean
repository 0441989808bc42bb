import Minimk.Runtime.Capacity
import Minimk.Runtime.Process.Shifts
import Minimk.Runtime.Wakeup.Theorems
import Mathlib.Data.Fintype.Fin

namespace Minimk.Runtime

open Transition

-- The switches of a history to coroutines, first one first.
def Event.switch (event : Event) : Option (Nat × Resumed) :=
  match event.output with
  | .resumed serial how => some (serial, how)
  | _ => none

theorem Event.resumes_eq_false (event : Event) (h : event.switch = none) (serial : Nat) :
    event.resumes serial = false := by
  unfold Event.switch at h
  unfold Event.resumes
  cases houtput : event.output with
  | resumed other how => simp [houtput] at h
  | silent | created | refused | cleaned | polled | left => rfl

def switches (log : List Event) : List (Nat × Resumed) :=
  (log.filterMap Event.switch).reverse

theorem switches_cons_none {event : Event} (log : List Event) (h : event.switch = none) :
    switches (event :: log) = switches log := by
  simp [switches, h]

theorem switches_cons_some {event : Event} {serial : Nat} {how : Resumed} (log : List Event)
    (h : event.switch = some (serial, how)) :
    switches (event :: log) = switches log ++ [(serial, how)] := by
  simp [switches, h]

namespace Machine

variable {m next first last : Machine} {event : Event} {log : List Event}
  {base count done : Nat}

-- Outside the loop the coroutines wait in the first slots, in the order of their creation.
structure Queued (m : Machine) (base count : Nat) : Prop where
  le : count ≤ MAX_COROS
  spawned : m.spawned = base + count
  fresh : ∀ idx : Slot, idx.val < count → m.conts idx = .fresh ∧ m.serials idx = base + idx.val
  idle : ∀ idx : Slot, count ≤ idx.val → m.conts idx = .idle

theorem Queued.live_iff (h : m.Queued base count) (idx : Slot) :
    idx ∈ m.live ↔ idx.val < count := by
  rw [mem_live]
  by_cases hlt : idx.val < count
  · simp [(h.fresh idx hlt).1, hlt]
  · simp [h.idle idx (by omega), hlt]

theorem Queued.card_live (h : m.Queued base count) : m.live.card = count := by
  have hlive : m.live = Finset.univ.filter fun idx : Slot => idx.val < count := by
    ext idx
    rw [h.live_iff, Finset.mem_filter_univ]
  rw [hlive, Fin.card_filter_val_lt, Nat.min_eq_right h.le]

theorem initial_queued : initial.Queued 0 0 where
  le := Nat.zero_le _
  spawned := rfl
  fresh := fun _ hlt => absurd hlt (Nat.not_lt_zero _)
  idle := fun _ _ => rfl

-- What is in the table does not change when main fails to create a coroutine.
theorem Queued.congr (h : m.Queued base count) (hspawned : next.spawned = m.spawned)
    (hconts : next.conts = m.conts) (hserials : next.serials = m.serials) :
    next.Queued base count where
  le := h.le
  spawned := hspawned.trans h.spawned
  fresh := by rw [hconts, hserials]; exact h.fresh
  idle := by rw [hconts]; exact h.idle

theorem Queued.created {entry argument : UInt64} {reply : StackReply} {serial : Nat}
    {calls : List MemCall} (h : m.Invariant) (hq : m.Queued base count)
    (hgo : m.go entry argument reply = .ok (next, .created serial calls)) :
    next.Queued base (count + 1) := by
  obtain ⟨idx, stack, hfind, -, -, rfl⟩ := go_eq_created hgo
  have hidle : m.conts idx = .idle :=
    (h.slots idx).null_iff.mp (Scheduler.findFreeCoroutineSlot_eq_ok hfind)
  have hge : count ≤ idx.val := by
    by_contra hlt
    have hfresh := (hq.fresh idx (by omega)).1
    rw [hidle] at hfresh
    cases hfresh
  have hidx : idx.val = count := by
    by_contra hne
    have hlt : count < idx.val := by omega
    have hother : (⟨count, Nat.lt_trans hlt idx.isLt⟩ : Slot) < idx := hlt
    refine Scheduler.findFreeCoroutineSlot_first hfind hother ?_
    exact (h.slots _).null_iff.mpr (hq.idle _ (Nat.le_refl _))
  have hspawned := hq.spawned
  refine ⟨?_, ?_, ?_, ?_⟩
  · have hlt := idx.isLt
    omega
  · show m.spawned + 1 = base + (count + 1)
    omega
  · intro other hlt
    by_cases he : other = idx
    · subst he
      simp only [spawn, Function.update_self, true_and]
      omega
    · have hne : other.val ≠ idx.val := fun hv => he (Fin.ext hv)
      simp only [spawn, Function.update_of_ne he]
      exact hq.fresh other (by omega)
  · intro other hle
    have hne : other ≠ idx := by
      rintro rfl
      omega
    simp only [spawn, Function.update_of_ne hne]
    exact hq.idle other (by omega)

theorem Step.queued (h : m.Invariant) (hs : Step m event next)
    (hq : m.pc = .main → ∃ base count, m.Queued base count) (hpc : next.pc = .main) :
    ∃ base count, next.Queued base count := by
  have hm := hs.move
  cases hm with
  | goFull => exact hq hpc
  | goFailed =>
      obtain ⟨base, count, hq⟩ := hq hpc
      exact ⟨base, count, hq.congr rfl rfl rfl⟩
  | goCreated =>
      obtain ⟨base, count, hq⟩ := hq hpc
      simp only [Step, exec, Option.ite_none_right_eq_some, Option.some.injEq] at hs
      exact ⟨base, count + 1, hq.created h hs.2⟩
  | loopEnd _ hcount =>
      refine ⟨m.spawned, 0, Nat.zero_le _, rfl, fun _ hlt => absurd hlt (Nat.not_lt_zero _),
        fun idx _ => ?_⟩
      exact (h.slots idx).null_iff.mp (hcount idx)
  | clean | run | loopNext | expire | pickNone | pickSome | pollSkipped | pollInterrupted | polled
  | resumed | yielded | slept | suspended | returned => cases hpc

theorem Reachable.queued (h : Reachable m) (hpc : m.pc = .main) :
    ∃ base count, m.Queued base count := by
  have hboth : m.Invariant ∧ (m.pc = .main → ∃ base count, m.Queued base count) := by
    refine Transition.Reachable.invariant_from (P := fun m =>
      m.Invariant ∧ (m.pc = .main → ∃ base count, m.Queued base count)) ?_ ?_ h
    · exact ⟨initial_invariant, fun _ => ⟨0, 0, initial_queued⟩⟩
    · exact fun _ _ _ ih hs => ⟨hs.move.invariant ih.1, hs.queued ih.1 ih.2⟩
  exact hboth.2 hpc

-- A run of the loop over the queued coroutines that has switched some times. Those that have had
-- no turn stay as they were created, and the cursor stands at the first of them.
structure Starting (base count done : Nat) (m : Machine) : Prop where
  fresh : ∀ idx : Slot, done ≤ idx.val → idx.val < count →
    m.conts idx = .fresh ∧ m.serials idx = base + idx.val
  looping : m.pc ≠ .main
  cursor : m.pc ≠ .switch → m.fair.toNat % MAX_COROS = done
  chosen : m.pc = .switch → ∃ idx, m.sched.current = some idx ∧ idx.val = done ∧
    m.fair.toNat % MAX_COROS = (done + 1) % MAX_COROS

theorem fresh_parked : Cont.Parked .fresh := by
  simp [Cont.Parked]

namespace Starting

variable (h : m.Invariant) (hstart : m.Starting base count done)

include h hstart

theorem runnable {idx : Slot} (hge : done ≤ idx.val) (hlt : idx.val < count) :
    (m.sched.coroutines idx).state = .runnable := by
  have hslot := h.slots idx
  rw [(hstart.fresh idx hge hlt).1] at hslot
  exact hslot

theorem fresh_step {later : Nat} (hm : Move m event next) (hge : done ≤ later)
    (hquiet : ∀ idx : Slot, later ≤ idx.val → idx.val < count →
      event.resumes (m.serials idx) = false) :
    ∀ idx : Slot, later ≤ idx.val → idx.val < count →
      next.conts idx = .fresh ∧ next.serials idx = base + idx.val := by
  intro idx hi hlt
  obtain ⟨hconts, hserials⟩ := hstart.fresh idx (by omega) hlt
  have hstays := hm.stays h (hconts ▸ fresh_parked) (hquiet idx hi hlt)
  exact ⟨hstays.conts.trans hconts, hstays.serials.trans hserials⟩

-- Between two switches the picker comes to the next coroutine in line.
theorem skip (hdone : done < count) (hle : count ≤ MAX_COROS) (hs : Step m event next)
    (hswitch : event.switch = none) : next.Starting base count done := by
  have hm := hs.move
  have hfresh := hstart.fresh_step h hm (Nat.le_refl _) fun idx _ _ =>
    event.resumes_eq_false hswitch (m.serials idx)
  let waiting : Slot := ⟨done, Nat.lt_of_lt_of_le hdone hle⟩
  have hrunnable : (m.sched.coroutines waiting).state = .runnable :=
    hstart.runnable h (Nat.le_refl done) hdone
  cases hm with
  | goFull => exact hstart
  | goFailed | goCreated => exact ⟨hfresh, hstart.looping, hstart.cursor, hstart.chosen⟩
  | run hpc => exact absurd hpc hstart.looping
  | loopEnd _ hcount =>
      have hnull := hcount waiting
      rw [hrunnable] at hnull
      cases hnull
  | loopNext hpc | clean hpc | expire hpc | pollSkipped hpc | pollInterrupted hpc | polled hpc
  | yielded hpc | slept hpc | suspended hpc | returned hpc =>
      have hcursor := hstart.cursor (by simp [hpc])
      exact ⟨hfresh, nofun, fun _ => hcursor, nofun⟩
  | pickNone hpc hpick => exact absurd hrunnable (Scheduler.pickRunnable_eq_none hpick waiting)
  | @pickSome fair idx hpc hpick =>
      have hturn := Scheduler.pickRunnable_turn hpick
      have hcursor := hstart.cursor (by simp [hpc])
      obtain rfl : idx = waiting := hturn.at_cursor hrunnable hcursor.symm
      exact ⟨hfresh, nofun, fun hne => absurd rfl hne, fun _ => ⟨waiting, rfl, rfl, hturn.behind⟩⟩
  | resumed => cases hswitch

theorem switched {serial : Nat} {how : Resumed} (hle : count ≤ MAX_COROS)
    (hs : Step m event next) (hdone : done < count)
    (hswitch : event.switch = some (serial, how)) :
    serial = base + done ∧ (∃ entry argument, how = .entryStarts entry argument) ∧
      (done + 1 < count → next.Starting base count (done + 1)) := by
  have hm := hs.move
  have hfresh := hstart.fresh_step h hm (Nat.le_succ done)
  cases hm with
  | @resumed sp idx coro how' hpc hcurrent hresume =>
      obtain ⟨rfl, rfl⟩ : m.serials idx = serial ∧ how' = how := by
        simpa [Event.switch] using hswitch
      obtain ⟨other, hother, hval, hcursor⟩ := hstart.chosen hpc
      obtain rfl : idx = other := Option.some.inj (hcurrent.symm.trans hother)
      obtain ⟨hconts, hserial⟩ := hstart.fresh idx (by omega) (by omega)
      refine ⟨by omega, ?_, fun hmore => ⟨?_, nofun, fun _ => ?_, nofun⟩⟩
      · cases resume_regains hresume with
        | fresh => exact ⟨_, _, rfl⟩
        | yielded hc | sleeping hc | waiting hc => simp [hconts] at hc
      · apply hfresh
        intro i hi hlt
        have hi' := (hstart.fresh i (by omega) hlt).2
        have hne : m.serials idx ≠ m.serials i := by omega
        simpa [Event.resumes] using hne
      · show m.fair.toNat % MAX_COROS = done + 1
        rw [hcursor, Nat.mod_eq_of_lt (by omega)]
  | clean => cases hswitch
  | _ => cases hswitch

end Starting

theorem Queued.starting (hq : m.Queued base count)
    (hloop : Step m ⟨.run, .silent⟩ next) : next.Starting base count 0 := by
  have hm := hloop.move
  cases hm with
  | run hpc hcurrent => exact ⟨fun idx _ hlt => hq.fresh idx hlt, nofun, fun _ => rfl, nofun⟩

theorem Path.starting (h : first.Invariant) (hstart : first.Starting base count 0)
    (hle : count ≤ MAX_COROS) (hp : Path Step first log last) :
    last.Invariant ∧
    ((switches log).length < count → last.Starting base count (switches log).length) ∧
    ∀ n < count, ∀ serial how, (switches log)[n]? = some (serial, how) →
      serial = base + n ∧ ∃ entry argument, how = .entryStarts entry argument := by
  induction hp with
  | nil => exact ⟨h, fun _ => hstart, fun n _ serial how hget => by simp [switches] at hget⟩
  | @snoc log middle next event hp hs ih =>
      obtain ⟨hi, hmiddle, hnames⟩ := ih
      refine ⟨hs.move.invariant hi, ?_⟩
      cases hswitch : event.switch with
      | none =>
          rw [switches_cons_none log hswitch]
          exact ⟨fun hlt => (hmiddle hlt).skip hi hlt hle hs hswitch, hnames⟩
      | some switch =>
          obtain ⟨serial, how⟩ := switch
          rw [switches_cons_some log hswitch, List.length_append, List.length_singleton]
          constructor
          · intro hlt
            have hdone : (switches log).length < count := by omega
            exact ((hmiddle hdone).switched hi hle hs hdone hswitch).2.2 hlt
          · intro n hn other how' hget
            by_cases hold : n < (switches log).length
            · rw [List.getElem?_append_left hold] at hget
              exact hnames n hn other how' hget
            · rw [List.getElem?_append_right (by omega)] at hget
              have hlast : n - (switches log).length = 0 := by
                by_contra hne
                rw [List.getElem?_eq_none (by simp; omega)] at hget
                cases hget
              obtain ⟨rfl, rfl⟩ : serial = other ∧ how = how' := by simpa [hlast] using hget
              obtain rfl : n = (switches log).length := by omega
              obtain ⟨hserial, hhow, -⟩ := (hmiddle hn).switched hi hle hs hn hswitch
              exact ⟨hserial, hhow⟩

-- The coroutines that wait when the loop is entered have their first turns in the order in which
-- they were created, before any of them has a second one and before any that is created later.
theorem Path.starts_in_order {n serial : Nat} {how : Resumed} (hm : Reachable m)
    (hloop : Step m ⟨.run, .silent⟩ first) (hp : Path Step first log last)
    (hn : n < m.live.card) (hswitch : (switches log)[n]? = some (serial, how)) :
    serial + m.live.card = m.spawned + n ∧ ∃ entry argument, how = .entryStarts entry argument := by
  have h := Reachable.holds hm
  have hpc : m.pc = .main := by
    cases hloop.move with
    | run hpc _ => exact hpc
  obtain ⟨base, count, hq⟩ := Reachable.queued hm hpc
  have hstart := hq.starting hloop
  rw [hq.card_live] at hn ⊢
  obtain ⟨-, -, hnames⟩ := Path.starting (hloop.move.invariant h) hstart hq.le hp
  obtain ⟨hserial, hhow⟩ := hnames n hn serial how hswitch
  have hspawned := hq.spawned
  exact ⟨by omega, hhow⟩

-- The first coroutine yields and gives way to the second one.
def twoQueued : List Action :=
  [.go 1 7 ⟨4096, some 0x10000, true⟩, .go 2 7 ⟨4096, some 0x40000, true⟩]

def twoSwitches : List Action :=
  [.loopTest, .clean, .expire 0, .pick, .switch 0x9000, .yield 0x1f000,
    .loopTest, .clean, .expire 1, .pick, .switch 0x9000]

theorem Path.starts_in_order_twoSwitches :
    ∃ serial how, (switches (((initial.after twoQueued).after [.run]).history twoSwitches))[1]? =
      some (serial, how) ∧ serial = 1 := by
  have hm := (@after_run twoQueued rfl).reachable
  have hloop : Step (initial.after twoQueued) ⟨.run, .silent⟩
      ((initial.after twoQueued).after [.run]) := @perform_step _ _ .run _ rfl
  have hp := @after_path ((initial.after twoQueued).after [.run]) twoSwitches rfl
  have hswitch : (switches (((initial.after twoQueued).after [.run]).history twoSwitches))[1]? =
      some (1, .entryStarts 2 7) := rfl
  have hcard : (initial.after twoQueued).live.card = 2 := rfl
  have horder := Path.starts_in_order hm hloop hp (by decide) hswitch
  exact ⟨1, .entryStarts 2 7, hswitch, by omega⟩

end Machine

end Minimk.Runtime
