import Minimk.Runtime.Lifecycle
import Minimk.Runtime.Machine.Invariant
import Mathlib.Data.List.Nodup

namespace Minimk.Runtime.Machine

open Transition

variable {m next : Machine} {event : Event} {log : List Event}

-- How a step changes the frames of the coroutines, and which milestones it records.
inductive Frames (m : Machine) (event : Event) (next : Machine) : Prop
  | quiet (hconts : next.conts = m.conts) (hserials : next.serials = m.serials)
      (hspawned : next.spawned = m.spawned) (hcreates : ∀ serial, event.creates serial = false)
      (hstarts : ∀ serial, event.starts serial = false)
      (hresumes : ∀ serial, event.resumes serial = false)
      (hreturns : ∀ serial, event.returns serial = false)
  | created (idx : Slot) (hidle : m.conts idx = .idle)
      (hconts : next.conts = Function.update m.conts idx .fresh)
      (hserials : next.serials = Function.update m.serials idx m.spawned)
      (hspawned : next.spawned = m.spawned + 1)
      (hcreates : ∀ serial, event.creates serial = decide (m.spawned = serial))
      (hstarts : ∀ serial, event.starts serial = false)
      (hresumes : ∀ serial, event.resumes serial = false)
      (hreturns : ∀ serial, event.returns serial = false)
  | cleaned (hconts : ∀ idx,
        next.conts idx = if m.conts idx = .returned then .idle else m.conts idx)
      (hserials : next.serials = m.serials) (hspawned : next.spawned = m.spawned)
      (hcreates : ∀ serial, event.creates serial = false)
      (hstarts : ∀ serial, event.starts serial = false)
      (hresumes : ∀ serial, event.resumes serial = false)
      (hreturns : ∀ serial, event.returns serial = false)
  | resumed (idx : Slot) (hidle : m.conts idx ≠ .idle) (hreturned : m.conts idx ≠ .returned)
      (hconts : next.conts = Function.update m.conts idx .running)
      (hserials : next.serials = m.serials) (hspawned : next.spawned = m.spawned)
      (hcreates : ∀ serial, event.creates serial = false)
      (hstarts : ∀ serial, event.starts serial =
        (decide (m.conts idx = .fresh) && decide (m.serials idx = serial)))
      (hresumes : ∀ serial, event.resumes serial = decide (m.serials idx = serial))
      (hreturns : ∀ serial, event.returns serial = false)
  | left (idx : Slot) (cont : Cont) (hrunning : m.conts idx = .running) (hidle : cont ≠ .idle)
      (hfresh : cont ≠ .fresh) (hconts : next.conts = Function.update m.conts idx cont)
      (hserials : next.serials = m.serials) (hspawned : next.spawned = m.spawned)
      (hcreates : ∀ serial, event.creates serial = false)
      (hstarts : ∀ serial, event.starts serial = false)
      (hresumes : ∀ serial, event.resumes serial = false)
      (hreturns : ∀ serial, event.returns serial =
        (decide (cont = .returned) && decide (m.serials idx = serial)))

theorem resume_how {idx : Slot} {coro : Coroutine} {how : Resumed}
    (hr : m.resume idx = some (.ok (coro, how))) :
    m.conts idx ≠ .idle ∧ m.conts idx ≠ .returned ∧
      ((∃ entry argument, how = .entryStarts entry argument) ↔ m.conts idx = .fresh) := by
  cases resume_regains hr with
  | fresh hconts | yielded hconts | sleeping hconts | waiting hconts => simp [hconts]

theorem Move.frames (hm : Move m event next) (h : m.Invariant) : Frames m event next := by
  cases hm with
  | goFull | goFailed | run | loopNext | loopEnd | expire | pickNone | pickSome | pollSkipped
  | pollInterrupted | polled =>
      exact .quiet rfl rfl rfl (fun _ => rfl) (fun _ => rfl) (fun _ => rfl) (fun _ => rfl)
  | @goCreated _ _ _ idx _ _ hnull =>
      exact .created idx ((h.slots idx).null_iff.mp hnull) rfl rfl rfl (fun _ => rfl)
        (fun _ => rfl) (fun _ => rfl) (fun _ => rfl)
  | clean =>
      refine .cleaned ?_ rfl rfl (fun _ => rfl) (fun _ => rfl) (fun _ => rfl) (fun _ => rfl)
      intro idx
      simp [Machine.clean, (h.slots idx).exited_iff]
  | @resumed _ idx coro how _ _ hr =>
      obtain ⟨hidle, hreturned, hfresh⟩ := resume_how hr
      refine .resumed idx hidle hreturned rfl rfl rfl (fun _ => rfl) ?_ (fun _ => rfl)
        (fun _ => rfl)
      intro serial
      cases how with
      | entryStarts entry argument =>
          have hc : m.conts idx = .fresh := hfresh.mp ⟨entry, argument, rfl⟩
          simp [Event.starts, hc]
      | yieldReturns | nanosleepReturns | suspendIoReturns =>
          have hc : m.conts idx ≠ .fresh := by simpa using hfresh.not.mp (by simp)
          simp [Event.starts, hc]
  | @yielded _ idx hpc hcurrent | @slept _ _ _ idx hpc hcurrent =>
      exact .left idx _ ((h.running idx).mpr ⟨hpc, hcurrent⟩) (by simp) (by simp) rfl rfl rfl
        (fun _ => rfl) (fun _ => rfl) (fun _ => rfl) (fun _ => rfl)
  | @suspended _ _ _ _ _ idx _ hpc hcurrent =>
      exact .left idx _ ((h.running idx).mpr ⟨hpc, hcurrent⟩) (by simp) (by simp) rfl rfl rfl
        (fun _ => rfl) (fun _ => rfl) (fun _ => rfl) (fun _ => rfl)
  | @returned _ idx hpc hcurrent =>
      exact .left idx _ ((h.running idx).mpr ⟨hpc, hcurrent⟩) (by simp) (by simp) rfl rfl rfl
        (fun _ => rfl) (fun _ => rfl) (fun _ => rfl) (fun _ => by simp [Event.returns])

-- What a history says of the coroutines, in terms of the slots they are in now.
structure History (log : List Event) (m : Machine) : Prop where
  created : ∀ serial, Once log (Event.creates serial) (serial < m.spawned)
  started : ∀ serial, Once log (Event.starts serial) (serial < m.spawned ∧ ¬m.Pending serial)
  returned : ∀ serial, Once log (Event.returns serial) (serial < m.spawned ∧ ¬m.Unfinished serial)

section Frames

variable {idx : Slot} {serial : Nat}

-- A change of one slot's frames matters only where it changes what they say of the serial.
theorem pending_congr (hserials : next.serials = m.serials)
    (hconts : ∀ idx, m.serials idx = serial → (next.conts idx = .fresh ↔ m.conts idx = .fresh)) :
    next.Pending serial ↔ m.Pending serial := by
  unfold Pending
  rw [hserials]
  exact exists_congr fun idx => and_congr_right fun hs => hconts idx hs

theorem unfinished_congr (hserials : next.serials = m.serials)
    (hconts : ∀ idx, m.serials idx = serial →
      (next.conts idx ≠ .idle ∧ next.conts idx ≠ .returned ↔
        m.conts idx ≠ .idle ∧ m.conts idx ≠ .returned)) :
    next.Unfinished serial ↔ m.Unfinished serial := by
  unfold Unfinished
  rw [hserials]
  exact exists_congr fun idx => and_congr_right fun hs => hconts idx hs

theorem update_iff {conts : Slot → Cont} {cont : Cont} {P : Cont → Prop}
    (hidx : P cont ↔ P (conts idx)) (i : Slot) :
    P (Function.update conts idx cont i) ↔ P (conts i) := by
  by_cases he : i = idx
  · subst he
    simpa using hidx
  · simp [he]

-- A serial has one slot, so what the slot gives up is gone for the serial.
theorem given_up {cont : Cont} {P : Cont → Prop} (h : m.Invariant) (hidle : m.conts idx ≠ .idle)
    (hconts : next.conts = Function.update m.conts idx cont) (hserials : next.serials = m.serials)
    (hcont : ¬P cont) (hno : ¬P .idle) :
    ¬∃ i, next.serials i = m.serials idx ∧ P (next.conts i) := by
  rintro ⟨i, hi, hp⟩
  rw [hserials] at hi
  rw [hconts] at hp
  have hx : i ≠ idx := by
    rintro rfl
    rw [Function.update_self] at hp
    exact hcont hp
  rw [Function.update_of_ne hx] at hp
  have hother : m.conts i ≠ .idle := fun hc => hno (hc ▸ hp)
  exact hx (h.serial_inj i idx hother hidle hi)

theorem History.quiet (hh : History log m) (hconts : next.conts = m.conts)
    (hserials : next.serials = m.serials) (hspawned : next.spawned = m.spawned)
    (hcreates : ∀ serial, event.creates serial = false)
    (hstarts : ∀ serial, event.starts serial = false)
    (hreturns : ∀ serial, event.returns serial = false) : History (event :: log) next where
  created serial := (hh.created serial).skip (hcreates serial) (by rw [hspawned])
  started serial := (hh.started serial).skip (hstarts serial)
    (by rw [hspawned, pending_congr hserials (by simp [hconts])])
  returned serial := (hh.returned serial).skip (hreturns serial)
    (by rw [hspawned, unfinished_congr hserials (by simp [hconts])])

theorem History.create (hh : History log m) (hidle : m.conts idx = .idle)
    (hconts : next.conts = Function.update m.conts idx .fresh)
    (hserials : next.serials = Function.update m.serials idx m.spawned)
    (hspawned : next.spawned = m.spawned + 1)
    (hcreates : ∀ serial, event.creates serial = decide (m.spawned = serial))
    (hstarts : ∀ serial, event.starts serial = false)
    (hreturns : ∀ serial, event.returns serial = false) : History (event :: log) next := by
  have hnew : next.serials idx = m.spawned ∧ next.conts idx = .fresh := by simp [hserials, hconts]
  have hold : ∀ i, i ≠ idx → next.serials i = m.serials i ∧ next.conts i = m.conts i := by
    intro i hi
    simp [hserials, hconts, hi]
  have hne : ∀ i, m.conts i ≠ .idle → i ≠ idx := by
    rintro i hi rfl
    exact hi hidle
  have hiff : ∀ P : Cont → Prop, P .fresh → ¬P .idle → ∀ serial,
      (serial < next.spawned ∧ ¬∃ i, next.serials i = serial ∧ P (next.conts i)) ↔
        (serial < m.spawned ∧ ¬∃ i, m.serials i = serial ∧ P (m.conts i)) := by
    intro P hfresh hno serial
    by_cases hs : serial = m.spawned
    · subst hs
      have hex : ∃ i, next.serials i = m.spawned ∧ P (next.conts i) :=
        ⟨idx, hnew.1, by rwa [hnew.2]⟩
      simp [hex]
    · have hex : (∃ i, next.serials i = serial ∧ P (next.conts i)) ↔
          ∃ i, m.serials i = serial ∧ P (m.conts i) := by
        constructor
        · rintro ⟨i, hi, hp⟩
          have hx : i ≠ idx := by
            rintro rfl
            exact hs (hi.symm.trans hnew.1)
          exact ⟨i, (hold i hx).1 ▸ hi, (hold i hx).2 ▸ hp⟩
        · rintro ⟨i, hi, hp⟩
          have hx : i ≠ idx := by
            rintro rfl
            exact hno (hidle ▸ hp)
          exact ⟨i, (hold i hx).1.trans hi, (hold i hx).2.symm ▸ hp⟩
      rw [hex, hspawned]
      have hl : serial < m.spawned + 1 ↔ serial < m.spawned := by omega
      rw [hl]
  refine ⟨fun serial => ?_, fun serial => ?_, fun serial => ?_⟩
  · by_cases hs : m.spawned = serial
    · exact (hh.created serial).mark (by simp [hcreates, hs]) (by omega) (by omega)
    · exact (hh.created serial).skip (by simp [hcreates, hs]) (by omega)
  · exact (hh.started serial).skip (hstarts serial) (hiff (· = .fresh) rfl (by simp) serial)
  · exact (hh.returned serial).skip (hreturns serial)
      (hiff (fun cont => cont ≠ .idle ∧ cont ≠ .returned) (by simp) (by simp) serial)

theorem History.resume (hh : History log m) (h : m.Invariant) (hidle : m.conts idx ≠ .idle)
    (hreturned : m.conts idx ≠ .returned)
    (hconts : next.conts = Function.update m.conts idx .running)
    (hserials : next.serials = m.serials) (hspawned : next.spawned = m.spawned)
    (hcreates : ∀ serial, event.creates serial = false)
    (hstarts : ∀ serial, event.starts serial =
      (decide (m.conts idx = .fresh) && decide (m.serials idx = serial)))
    (hreturns : ∀ serial, event.returns serial = false) : History (event :: log) next := by
  refine ⟨fun serial => ?_, fun serial => ?_, fun serial => ?_⟩
  · exact (hh.created serial).skip (hcreates serial) (by rw [hspawned])
  · by_cases hs : m.conts idx = .fresh ∧ m.serials idx = serial
    · refine (hh.started serial).mark (by simp [hstarts, hs]) ?_ ?_
      · exact fun hq => hq.2 ⟨idx, hs.2, hs.1⟩
      · refine ⟨by rw [hspawned, ← hs.2]; exact h.serial_lt idx hidle, ?_⟩
        rw [← hs.2]
        exact given_up (P := (· = .fresh)) h hidle hconts hserials (by simp) (by simp)
    · refine (hh.started serial).skip (by simpa [hstarts] using hs) ?_
      rw [hspawned, pending_congr hserials]
      intro i hi
      by_cases he : i = idx
      · subst he
        simp only [hconts, Function.update_self, reduceCtorEq, false_iff]
        exact fun hf => hs ⟨hf, hi⟩
      · simp [hconts, he]
  · refine (hh.returned serial).skip (hreturns serial) ?_
    rw [hspawned, unfinished_congr hserials]
    intro i _
    rw [hconts]
    exact update_iff (P := fun cont => cont ≠ .idle ∧ cont ≠ .returned)
      (by simp [hidle, hreturned]) i

theorem History.leave {cont : Cont} (hh : History log m) (h : m.Invariant)
    (hrunning : m.conts idx = .running) (hidle : cont ≠ .idle) (hfresh : cont ≠ .fresh)
    (hconts : next.conts = Function.update m.conts idx cont)
    (hserials : next.serials = m.serials) (hspawned : next.spawned = m.spawned)
    (hcreates : ∀ serial, event.creates serial = false)
    (hstarts : ∀ serial, event.starts serial = false)
    (hreturns : ∀ serial, event.returns serial =
      (decide (cont = .returned) && decide (m.serials idx = serial))) :
    History (event :: log) next := by
  refine ⟨fun serial => ?_, fun serial => ?_, fun serial => ?_⟩
  · exact (hh.created serial).skip (hcreates serial) (by rw [hspawned])
  · refine (hh.started serial).skip (hstarts serial) ?_
    rw [hspawned, pending_congr hserials]
    intro i _
    rw [hconts]
    exact update_iff (P := fun cont => cont = .fresh) (by simp [hrunning, hfresh]) i
  · by_cases hs : cont = .returned ∧ m.serials idx = serial
    · refine (hh.returned serial).mark (by simp [hreturns, hs]) ?_ ?_
      · exact fun hq => hq.2 ⟨idx, hs.2, by simp [hrunning]⟩
      · refine ⟨by rw [hspawned, ← hs.2]; exact h.serial_lt idx (by simp [hrunning]), ?_⟩
        rw [← hs.2]
        exact given_up (P := fun cont => cont ≠ .idle ∧ cont ≠ .returned) h (by simp [hrunning])
          hconts hserials (by simp [hs.1]) (by simp)
    · refine (hh.returned serial).skip (by simpa [hreturns] using hs) ?_
      rw [hspawned, unfinished_congr hserials]
      intro i hi
      by_cases he : i = idx
      · subst he
        have hc : cont ≠ .returned := fun hc => hs ⟨hc, hi⟩
        simp [hconts, hrunning, hidle, hc]
      · simp [hconts, he]

end Frames

theorem Frames.history (hf : Frames m event next) (h : m.Invariant) (hh : History log m) :
    History (event :: log) next := by
  cases hf with
  | quiet hconts hserials hspawned hcreates hstarts _ hreturns =>
      exact hh.quiet hconts hserials hspawned hcreates hstarts hreturns
  | created idx hidle hconts hserials hspawned hcreates hstarts _ hreturns =>
      exact hh.create hidle hconts hserials hspawned hcreates hstarts hreturns
  | cleaned hconts hserials hspawned hcreates hstarts _ hreturns =>
      refine ⟨fun serial => ?_, fun serial => ?_, fun serial => ?_⟩
      · exact (hh.created serial).skip (hcreates serial) (by rw [hspawned])
      · refine (hh.started serial).skip (hstarts serial) ?_
        rw [hspawned, pending_congr hserials]
        intro idx _
        rw [hconts]
        split_ifs with hr <;> simp [hr]
      · refine (hh.returned serial).skip (hreturns serial) ?_
        rw [hspawned, unfinished_congr hserials]
        intro idx _
        rw [hconts]
        split_ifs with hr <;> simp [hr]
  | resumed idx hidle hreturned hconts hserials hspawned hcreates hstarts _ hreturns =>
      exact hh.resume h hidle hreturned hconts hserials hspawned hcreates hstarts hreturns
  | left idx cont hrunning hidle hfresh hconts hserials hspawned hcreates hstarts _ hreturns =>
      exact hh.leave h hrunning hidle hfresh hconts hserials hspawned hcreates hstarts hreturns

theorem initial_history : History [] initial where
  created _ := .nil (by simp [initial])
  started _ := .nil (by simp [initial])
  returned _ := .nil (by simp [initial])

theorem Run.history (h : Run log m) : History log m := by
  refine Transition.Run.invariant_from ?_ ?_ h
  · exact initial_history
  · intro log m event next hr hh hs
    have hi := Reachable.holds hr.reachable
    exact (hs.move.frames hi).history hi hh

end Minimk.Runtime.Machine
