import Minimk.Runtime.Capacity
import Minimk.Runtime.Fairness
import Minimk.Runtime.Wakeup.Theorems
import Minimk.Tasks

namespace Minimk.Runtime

open Transition

-- What a coroutine waits for.
abbrev Interest := Int32 × Int16

def Coroutine.status (coro : Coroutine) (cont : Cont) : Tasks.Status Interest Nat :=
  match coro.state with
  | .runnable => if cont = .running then .running else .ready
  | .blockedOnTimer => .asleep coro.deadline.toNat
  | .blockedOnIo => .waiting (coro.sock, coro.events) coro.deadline.toNat
  | .exited | .null => .done

namespace Machine

def slotOf (m : Machine) (serial : Nat) : Option Slot :=
  (List.finRange MAX_COROS).find? fun idx => m.conts idx ≠ .idle ∧ m.serials idx = serial

-- The slots, the cursor and the statements of the loop are forgotten.
def tasks (m : Machine) : Tasks.System Interest Nat := fun serial =>
  match m.slotOf serial with
  | some idx => (m.sched.coroutines idx).status (m.conts idx)
  | none => if serial < m.spawned then .done else .unborn

def readyTasks (m : Machine) (revents : Slot → Int16) : Set Nat :=
  {serial | ∃ idx, m.conts idx ≠ .idle ∧ m.serials idx = serial ∧
    (m.sched.coroutines idx).events &&& revents idx ≠ 0}

-- What an event is for the tasks. A creation that fails for want of memory is nothing to them.
def taskLabel (m : Machine) (event : Event) : Option (Tasks.Label Interest Nat) :=
  match event.action, event.output with
  | _, .created serial _ => some (.spawn serial)
  | _, .refused rv _ => if rv = .eagain then some .refuse else none
  | _, .resumed serial _ => some (.dispatch serial)
  | .yield _, .left serial => some (.yield serial)
  | .nanosleep nanosec now _, .left serial => some (.sleep serial (waitEnd now nanosec))
  | .suspendIo direction sock nanosec now _, .left serial =>
      some (.wait serial (sock, direction.events) (waitEnd now nanosec))
  | .ret _, .left serial => some (.finish serial)
  | _, _ => event.scan.map fun scan => .wake scan.1.toNat (m.readyTasks scan.2)

def taskLog (turns : List Machine.Turn) : List (Tasks.Label Interest Nat) :=
  turns.filterMap fun turn => turn.before.taskLabel turn.label

variable {m next first last : Machine} {event : Event} {idx : Slot} {serial : Nat}

theorem slotOf_eq_some_iff (h : m.Invariant) :
    m.slotOf serial = some idx ↔ m.conts idx ≠ .idle ∧ m.serials idx = serial := by
  constructor
  · intro hs
    simpa using List.find?_some hs
  · rintro ⟨hidle, hserial⟩
    cases hs : m.slotOf serial with
    | none =>
        have hnone := List.find?_eq_none.mp hs idx (List.mem_finRange idx)
        simp [hidle, hserial] at hnone
    | some other =>
        obtain ⟨hother, hsame⟩ : m.conts other ≠ .idle ∧ m.serials other = serial := by
          simpa using List.find?_some hs
        rw [h.serial_inj other idx hother hidle (hsame.trans hserial.symm)]

theorem tasks_serial (h : m.Invariant) (hidle : m.conts idx ≠ .idle) :
    m.tasks (m.serials idx) = (m.sched.coroutines idx).status (m.conts idx) := by
  rw [tasks, (slotOf_eq_some_iff h).mpr ⟨hidle, rfl⟩]

theorem tasks_absent (h : m.Invariant)
    (hnone : ∀ idx, m.conts idx ≠ .idle → m.serials idx ≠ serial) :
    m.tasks serial = if serial < m.spawned then .done else .unborn := by
  have hslot : m.slotOf serial = none := by
    apply Option.eq_none_iff_forall_ne_some.mpr
    intro idx hs
    obtain ⟨hidle, hserial⟩ := (slotOf_eq_some_iff h).mp hs
    exact hnone idx hidle hserial
  rw [tasks, hslot]

-- The coroutines stay in their slots, and what is said of one of them changes by a function.
theorem tasks_map (h : m.Invariant) (hnext : next.Invariant)
    (hidle : ∀ i, next.conts i = .idle ↔ m.conts i = .idle)
    (hserials : next.serials = m.serials) (hspawned : next.spawned = m.spawned)
    {f : Tasks.Status Interest Nat → Tasks.Status Interest Nat}
    (hslot : ∀ i, m.conts i ≠ .idle → m.serials i = serial →
      (next.sched.coroutines i).status (next.conts i) =
        f ((m.sched.coroutines i).status (m.conts i)))
    (habsent : (∀ i, m.conts i ≠ .idle → m.serials i ≠ serial) →
      f .done = .done ∧ f .unborn = .unborn) :
    next.tasks serial = f (m.tasks serial) := by
  by_cases hex : ∃ i, m.conts i ≠ .idle ∧ m.serials i = serial
  · obtain ⟨i, hi, rfl⟩ := hex
    have hi' : next.conts i ≠ .idle := fun hc => hi ((hidle i).mp hc)
    have hnew := tasks_serial hnext hi'
    rw [hserials] at hnew
    rw [tasks_serial h hi, hnew]
    exact hslot i hi rfl
  · have hnone : ∀ i, m.conts i ≠ .idle → m.serials i ≠ serial :=
      fun i hi hs => hex ⟨i, hi, hs⟩
    have hnone' : ∀ i, next.conts i ≠ .idle → next.serials i ≠ serial := by
      intro i hi
      rw [hserials]
      exact hnone i fun hc => hi ((hidle i).mpr hc)
    obtain ⟨hdone, hunborn⟩ := habsent hnone
    rw [tasks_absent h hnone, tasks_absent hnext hnone', hspawned]
    split_ifs
    · exact hdone.symm
    · exact hunborn.symm

theorem tasks_cases (h : m.Invariant) (serial : Nat) :
    (∃ i, m.conts i ≠ .idle ∧ m.serials i = serial ∧
        m.tasks serial = (m.sched.coroutines i).status (m.conts i)) ∨
      (∀ i, m.conts i ≠ .idle → m.serials i ≠ serial) ∧
        m.tasks serial = if serial < m.spawned then .done else .unborn := by
  by_cases hex : ∃ i, m.conts i ≠ .idle ∧ m.serials i = serial
  · obtain ⟨i, hi, rfl⟩ := hex
    exact .inl ⟨i, hi, rfl, tasks_serial h hi⟩
  · have hnone : ∀ i, m.conts i ≠ .idle → m.serials i ≠ serial :=
      fun i hi hs => hex ⟨i, hi, hs⟩
    exact .inr ⟨hnone, tasks_absent h hnone⟩

theorem tasks_unborn_iff (h : m.Invariant) : m.tasks serial = .unborn ↔ m.spawned ≤ serial := by
  rcases tasks_cases h serial with ⟨i, hi, rfl, htask⟩ | ⟨-, htask⟩
  · have hlt := h.serial_lt i hi
    rw [htask]
    constructor
    · intro hstatus
      cases hs : (m.sched.coroutines i).state <;> simp [Coroutine.status, hs] at hstatus
      split_ifs at hstatus
    · omega
  · rw [htask]
    split_ifs with hlt
    · simpa using hlt
    · simpa using hlt

-- A coroutine is unfinished until its entry has returned.
theorem status_done_iff (h : m.Invariant) (hidle : m.conts idx ≠ .idle) :
    (m.sched.coroutines idx).status (m.conts idx) = .done ↔ m.conts idx = .returned := by
  have hnull := (h.slots idx).null_iff.not.mpr hidle
  have hexited := (h.slots idx).exited_iff
  rw [← hexited]
  cases hs : (m.sched.coroutines idx).state with
  | null => exact absurd hs hnull
  | runnable => by_cases hc : m.conts idx = .running <;> simp [Coroutine.status, hs, hc]
  | exited | blockedOnTimer | blockedOnIo => simp [Coroutine.status, hs]

theorem tasks_unfinished (h : m.Invariant) :
    (Tasks.unfinished m.tasks).ncard = m.live.card := by
  have himage : Tasks.unfinished m.tasks = m.serials '' m.live := by
    ext serial
    simp only [Tasks.unfinished, Set.mem_ofPred_eq, Set.mem_image, Finset.mem_coe, mem_live]
    constructor
    · rintro ⟨hborn, hdone⟩
      rcases tasks_cases h serial with ⟨i, hi, rfl, htask⟩ | ⟨-, htask⟩
      · rw [htask, ne_eq, status_done_iff h hi] at hdone
        exact ⟨i, ⟨hi, hdone⟩, rfl⟩
      · rw [htask] at hborn hdone
        split_ifs at hborn hdone
        · exact absurd rfl hdone
        · exact absurd rfl hborn
    · rintro ⟨i, ⟨hi, hreturned⟩, rfl⟩
      have hlt := h.serial_lt i hi
      refine ⟨?_, ?_⟩
      · rw [ne_eq, tasks_unborn_iff h]
        omega
      · rw [tasks_serial h hi, ne_eq, status_done_iff h hi]
        exact hreturned
  have hinj : Set.InjOn m.serials m.live := by
    intro i hi j hj hs
    exact h.serial_inj i j (mem_live.mp hi).1 (mem_live.mp hj).1 hs
  rw [himage, hinj.ncard_image, Set.ncard_coe_finset]

theorem tasks_not_running (h : m.Invariant) (hpc : m.pc ≠ .coroutine) (serial : Nat) :
    m.tasks serial ≠ .running := by
  rcases tasks_cases h serial with ⟨i, -, rfl, htask⟩ | ⟨-, htask⟩
  · have hn := h.not_running hpc i
    rw [htask]
    cases hs : (m.sched.coroutines i).state <;> simp [Coroutine.status, hs, hn]
  · rw [htask]
    split_ifs <;> simp

-- One coroutine goes on in its slot in another way.
theorem tasks_update (h : m.Invariant) (hnext : next.Invariant) (hold : m.conts idx ≠ .idle)
    (hnew : next.conts idx ≠ .idle) (hserials : next.serials = m.serials)
    (hspawned : next.spawned = m.spawned)
    (hconts : ∀ i, i ≠ idx → next.conts i = m.conts i)
    (hothers : ∀ i, i ≠ idx → next.sched.coroutines i = m.sched.coroutines i) (serial : Nat) :
    next.tasks serial = if m.serials idx = serial then
      (next.sched.coroutines idx).status (next.conts idx) else m.tasks serial := by
  refine tasks_map (f := fun status => if m.serials idx = serial then
    (next.sched.coroutines idx).status (next.conts idx) else status) h hnext ?_ hserials hspawned ?_
    ?_
  · intro i
    by_cases hi : i = idx
    · rw [hi]
      exact iff_of_false hnew hold
    · rw [hconts i hi]
  · intro i hi hs
    by_cases he : i = idx
    · rw [if_pos (he ▸ hs), he]
    · have hne : m.serials idx ≠ serial := by
        rw [← hs]
        exact fun hsame => he (h.serial_inj idx i hold hi hsame).symm
      rw [if_neg hne, hconts i he, hothers i he]
  · intro hnone
    simp [hnone idx hold]

-- The abstract side of a step: nothing, or one step of the tasks.
def Simulates (m : Machine) (event : Event) (next : Machine) : Prop :=
  m.taskLabel event = none ∧ next.tasks = m.tasks ∨
    ∃ label, m.taskLabel event = some label ∧ Tasks.Step MAX_COROS m.tasks label next.tasks

theorem Simulates.stutter (h : m.Invariant) (hnext : next.Invariant)
    (hlabel : m.taskLabel event = none) (hconts : next.conts = m.conts)
    (hserials : next.serials = m.serials) (hspawned : next.spawned = m.spawned)
    (hcoro : ∀ i, m.conts i ≠ .idle → next.sched.coroutines i = m.sched.coroutines i) :
    Simulates m event next := by
  refine .inl ⟨hlabel, funext fun serial => ?_⟩
  refine tasks_map (f := id) h hnext (fun i => by rw [hconts]) hserials hspawned ?_ ?_
  · intro i hi _
    rw [hconts, hcoro i hi]
    rfl
  · exact fun _ => ⟨rfl, rfl⟩

theorem Simulates.scan {now : UInt64} {revents : Slot → Int16} (h : m.Invariant)
    (hnext : next.Invariant) (hpc : m.pc ≠ .coroutine)
    (hlabel : m.taskLabel event = some (.wake now.toNat (m.readyTasks revents)))
    (hconts : next.conts = m.conts) (hserials : next.serials = m.serials)
    (hspawned : next.spawned = m.spawned)
    (hcoro : ∀ i, next.sched.coroutines i = (m.sched.coroutines i).maybeResume now (revents i)) :
    Simulates m event next := by
  refine .inr ⟨_, hlabel, tasks_not_running h hpc, fun serial => ?_⟩
  refine tasks_map (f := fun status => status.wake now.toNat (serial ∈ m.readyTasks revents))
    h hnext (fun i => by rw [hconts]) hserials hspawned ?_ (fun _ => ⟨rfl, rfl⟩)
  intro i hi hs
  have hready : serial ∈ m.readyTasks revents ↔
      (m.sched.coroutines i).events &&& revents i ≠ 0 := by
    constructor
    · rintro ⟨j, hj, hsame, hevents⟩
      rwa [h.serial_inj j i hj hi (hsame.trans hs.symm)] at hevents
    · exact fun hevents => ⟨i, hi, hs, hevents⟩
  have hrunning := h.not_running hpc i
  rw [hconts, hcoro]
  cases hstate : (m.sched.coroutines i).state with
  | null | runnable | exited =>
      rw [Coroutine.maybeResume_of_not_blocked (by simp [hstate]) (by simp [hstate])]
      simp [Coroutine.status, hstate, hrunning, Tasks.Status.wake]
  | blockedOnTimer =>
      rw [Coroutine.maybeResume_of_timer hstate]
      by_cases hdue : (m.sched.coroutines i).deadline ≤ now
      · have hnat := UInt64.le_iff_toNat_le.mp hdue
        simp [Coroutine.status, hstate, hrunning, Tasks.Status.wake, hdue, hnat]
      · have hnat : ¬(m.sched.coroutines i).deadline.toNat ≤ now.toNat :=
          fun hle => hdue (UInt64.le_iff_toNat_le.mpr hle)
        simp [Coroutine.status, hstate, Tasks.Status.wake, hdue, hnat]
  | blockedOnIo =>
      rw [Coroutine.maybeResume_of_io hstate]
      have hdue := @UInt64.le_iff_toNat_le (m.sched.coroutines i).deadline now
      by_cases hwakes : (m.sched.coroutines i).events &&& revents i ≠ 0 ∨
          (m.sched.coroutines i).deadline ≤ now
      · have habstract := hwakes
        rw [← hready, hdue] at habstract
        simp [Coroutine.status, hstate, hrunning, Tasks.Status.wake, hwakes, habstract]
      · have habstract := hwakes
        rw [← hready, hdue] at habstract
        simp [Coroutine.status, hstate, Tasks.Status.wake, hwakes, habstract]

theorem Simulates.leave {coro : Coroutine} {cont : Cont} {sp : UInt64}
    {label : Tasks.Label Interest Nat} (h : m.Invariant)
    (hnext : (m.leave idx coro cont sp).Invariant) (hpc : m.pc = .coroutine)
    (hcurrent : m.sched.current = some idx) (hlabel : m.taskLabel event = some label)
    (hidle : cont ≠ .idle)
    (hallows : m.tasks (m.serials idx) = .running → Tasks.Allows MAX_COROS m.tasks label)
    (happly : ∀ serial status, label.apply serial status =
      if m.serials idx = serial then { coro with sp := sp }.status cont else status) :
    Simulates m event (m.leave idx coro cont sp) := by
  have hrunning := (h.running idx).mpr ⟨hpc, hcurrent⟩
  have hused : m.conts idx ≠ .idle := by simp [hrunning]
  have htask : m.tasks (m.serials idx) = .running := by
    rw [tasks_serial h hused]
    simp [Coroutine.status, h.picked idx hcurrent, hrunning]
  refine .inr ⟨label, hlabel, hallows htask, fun serial => ?_⟩
  have hupdate := @tasks_update m _ idx h hnext hused (by simpa [Machine.leave] using hidle) rfl rfl
    (fun i hi => by simp [Machine.leave, hi]) (fun i hi => by simp [Machine.leave, hi]) serial
  rw [hupdate, happly]
  simp [Machine.leave]

theorem Simulates.resumed {sp : UInt64} {coro : Coroutine} {how : Resumed} (h : m.Invariant)
    (hnext : (m.enter idx coro sp).Invariant) (hpc : m.pc = .switch)
    (hcurrent : m.sched.current = some idx) (hresume : m.resume idx = some (.ok (coro, how))) :
    Simulates m ⟨.switch sp, .resumed (m.serials idx) how⟩ (m.enter idx coro sp) := by
  have hstate := h.resume_eq_ok hcurrent hresume
  have hused := (resume_how hresume).1
  have hrunning := h.not_running (by simp [hpc]) idx
  refine .inr ⟨.dispatch (m.serials idx), rfl, ⟨?_, tasks_not_running h (by simp [hpc])⟩, ?_⟩
  · rw [tasks_serial h hused]
    simp [Coroutine.status, h.picked idx hcurrent, hrunning]
  · intro serial
    have hupdate := @tasks_update m _ idx h hnext hused (by simp [enter]) rfl rfl
      (fun i hi => by simp [enter, hi]) (fun i hi => by simp [enter, hi]) serial
    rw [hupdate, Tasks.Label.apply]
    simp [enter, Coroutine.status, hstate]

theorem Simulates.refused {entry argument : UInt64} {reply : StackReply} (h : m.Invariant)
    (hp : m.Phases) (hpc : m.pc = .main ∨ m.pc = .coroutine)
    (hfull : ∀ idx, (m.sched.coroutines idx).state ≠ .null) :
    Simulates m ⟨.go entry argument reply, .refused .eagain []⟩ m := by
  have hexited : ∀ idx, (m.sched.coroutines idx).state ≠ .exited := by
    rcases hpc with hpc | hpc <;> exact hp.not_exited (by simp [hpc]) (by simp [hpc])
  refine .inr ⟨.refuse, rfl, ?_, fun _ => rfl⟩
  rw [Tasks.Allows, tasks_unfinished h, card_live_eq_iff]
  intro idx
  exact (h.live_iff (hexited idx)).mpr (hfull idx)

theorem Simulates.created {entry argument : UInt64} {reply : StackReply} {coro : Coroutine}
    (h : m.Invariant) (hnull : (m.sched.coroutines idx).state = .null)
    (hcoro : coro.state = .runnable) (hnext : ({ m with
      sched := m.sched.set idx coro
      memory := coro.stack.mapping :: m.memory }.spawn idx).Invariant) :
    Simulates m ⟨.go entry argument reply, .created m.spawned [.mmap coro.stack.mapping]⟩
      ({ m with
        sched := m.sched.set idx coro
        memory := coro.stack.mapping :: m.memory }.spawn idx) := by
  have hidle := (h.slots idx).null_iff.mp hnull
  have hroom : m.live.card < MAX_COROS := by
    have hsub : m.live ⊂ Finset.univ := by
      refine Finset.ssubset_univ_iff.mpr fun hall => ?_
      have hmem : idx ∈ m.live := hall ▸ Finset.mem_univ idx
      exact (mem_live.mp hmem).1 hidle
    exact (Finset.card_lt_card hsub).trans_le (Finset.card_fin MAX_COROS).le
  refine .inr ⟨.spawn m.spawned, rfl, ⟨?_, ?_, ?_⟩, fun serial => ?_⟩
  · exact (tasks_unborn_iff h).mpr (Nat.le_refl _)
  · intro other hlt
    rw [ne_eq, tasks_unborn_iff h]
    omega
  · rw [tasks_unfinished h]
    exact hroom
  · rw [Tasks.Label.apply]
    have hne : ∀ i, m.conts i ≠ .idle → i ≠ idx := by
      rintro i hi rfl
      exact hi hidle
    split_ifs with hs
    · have hnew := @tasks_serial _ idx hnext (by simp [spawn])
      simpa [spawn, hs, Coroutine.status, hcoro] using hnew
    · rcases tasks_cases h serial with ⟨i, hi, rfl, htask⟩ | ⟨hnone, htask⟩
      · have hold := @tasks_serial _ i hnext (by simpa [spawn, hne i hi] using hi)
        rw [htask]
        simpa [spawn, hne i hi] using hold
      · rw [htask]
        rw [tasks_absent hnext]
        · have hlt : serial < m.spawned + 1 ↔ serial < m.spawned := by omega
          simp only [spawn, hlt]
        · intro i hi hserial
          by_cases he : i = idx
          · rw [he] at hserial
            exact hs (by simpa [spawn] using hserial)
          · exact hnone i (by simpa [spawn, he] using hi) (by simpa [spawn, he] using hserial)

-- A coroutine is as finished before its slot is cleaned as afterwards.
theorem Simulates.clean (h : m.Invariant) (hnext : m.clean.1.Invariant) :
    Simulates m ⟨.clean, m.clean.2⟩ m.clean.1 := by
  have hexited : ∀ i, (m.sched.coroutines i).state = .exited ↔ m.conts i = .returned :=
    fun i => (h.slots i).exited_iff
  have hconts : ∀ i, m.clean.1.conts i = if m.conts i = .returned then .idle else m.conts i := by
    intro i
    simp [Machine.clean, hexited]
  refine .inl ⟨rfl, funext fun serial => ?_⟩
  rcases tasks_cases h serial with ⟨i, hi, rfl, htask⟩ | ⟨hnone, htask⟩
  · by_cases hreturned : m.conts i = .returned
    · rw [htask, (status_done_iff h hi).mpr hreturned, tasks_absent hnext]
      · exact if_pos (h.serial_lt i hi)
      · intro j hj hserial
        rw [hconts] at hj
        split_ifs at hj with hr
        · exact hj rfl
        · exact hr (h.serial_inj j i hj hi hserial ▸ hreturned)
    · have hkept : m.clean.1.conts i = m.conts i := by rw [hconts, if_neg hreturned]
      have hnew := @tasks_serial _ i hnext (by rw [hkept]; exact hi)
      rw [htask, ← hkept]
      simpa [Machine.clean, Scheduler.cleanExitedCoroutines, hexited, hreturned] using hnew
  · rw [htask, tasks_absent hnext]
    · rfl
    · intro i hi
      rw [hconts] at hi
      split_ifs at hi with hr
      · exact absurd rfl hi
      · exact hnone i hi

theorem Move.simulates (hm : Move m event next) (h : m.Invariant) (hp : m.Phases) :
    Simulates m event next := by
  have hnext := hm.invariant h
  cases hm with
  | goFull hpc hfull => exact .refused h hp hpc hfull
  | @goFailed _ _ _ idx coro _ _ hnull _ _ =>
      refine .stutter h hnext rfl rfl rfl rfl fun i hi => ?_
      have hne : i ≠ idx := by
        rintro rfl
        exact hi ((h.slots i).null_iff.mp hnull)
      simp [hne]
  | goCreated _ hnull hcoro _ _ _ => exact .created h hnull hcoro hnext
  | run | loopNext | loopEnd | pickNone | pickSome | pollSkipped =>
      exact .stutter h hnext rfl rfl rfl rfl fun _ _ => rfl
  | pollInterrupted _ _ _ hrc =>
      exact .stutter h hnext (by simp [taskLabel, Event.scan, hrc]) rfl rfl rfl fun _ _ => rfl
  | clean => exact .clean h hnext
  | expire hpc =>
      exact .scan h hnext (by simp [hpc]) rfl rfl rfl rfl fun _ => rfl
  | polled hpc _ _ hrc =>
      exact .scan h hnext (by simp [hpc]) (by simp [taskLabel, Event.scan, hrc]) rfl rfl rfl
        fun _ => rfl
  | resumed hpc hcurrent hresume => exact .resumed h hnext hpc hcurrent hresume
  | @yielded sp idx hpc hcurrent =>
      refine .leave h hnext hpc hcurrent rfl (by simp) (fun htask => htask) fun serial status => ?_
      simp [Tasks.Label.apply, Coroutine.status, h.picked idx hcurrent]
  | @slept nanosec now sp idx hpc hcurrent =>
      refine .leave h hnext hpc hcurrent rfl (by simp) (fun htask => htask) fun serial status => ?_
      simp [Tasks.Label.apply, Coroutine.status, Coroutine.suspendTimer, toNat_waitEnd]
  | suspended hpc hcurrent _ hcoro =>
      subst hcoro
      refine .leave h hnext hpc hcurrent rfl (by simp) (fun htask => htask) fun serial status => ?_
      simp [Tasks.Label.apply, Coroutine.status, toNat_waitEnd]
  | returned hpc hcurrent =>
      refine .leave h hnext hpc hcurrent rfl (by simp) (fun htask => htask) fun serial status => ?_
      simp [Tasks.Label.apply, Coroutine.status, Coroutine.markAsExited]

theorem initial_tasks : initial.tasks = Tasks.initial := by
  funext serial
  rw [tasks_absent initial_invariant fun i hi => absurd rfl hi]
  rfl

theorem Path.tasks_run {turns : List Machine.Turn} (h : Path (Recorded Step) initial turns m) :
    Reachable m ∧ Transition.Run Tasks.Initial (Tasks.Step MAX_COROS) (taskLog turns) m.tasks := by
  induction h with
  | nil => exact ⟨⟨[], .start rfl⟩, .start initial_tasks⟩
  | @snoc turns middle next turn hp hs ih =>
      obtain ⟨hreachable, hrun⟩ := ih
      obtain ⟨before, event, after⟩ := turn
      obtain ⟨rfl, rfl, hstep⟩ := hs
      refine ⟨hreachable.snoc hstep, ?_⟩
      have hlog : taskLog (⟨before, event, after⟩ :: turns) =
          (before.taskLabel event).toList ++ taskLog turns := by
        simp only [taskLog, List.filterMap_cons]
        cases before.taskLabel event <;> rfl
      have hsimulates := hstep.move.simulates (Reachable.holds hreachable)
        (Reachable.phases hreachable)
      rcases hsimulates with ⟨hlabel, hsame⟩ | ⟨label, hlabel, htask⟩
      · rw [hlog, hlabel, hsame]
        exact hrun
      · rw [hlog, hlabel]
        exact hrun.snoc htask

-- The runtime is a system of cooperative tasks: what it does to its coroutines is what such a
-- system does, and a coroutine is switched to where the history of the tasks makes it ready.
theorem Path.tasks {turns : List Machine.Turn} (h : Path (Recorded Step) initial turns m) :
    Transition.Run Tasks.Initial (Tasks.Step MAX_COROS) (taskLog turns) m.tasks ∧
      ∀ task newer older, taskLog turns = newer ++ .dispatch task :: older →
        Tasks.statusOf task older = .ready ∧ ∀ other, Tasks.statusOf other older ≠ .running := by
  have hrun := (Path.tasks_run h).2
  refine ⟨hrun, fun task newer older hlog => ?_⟩
  rw [hlog] at hrun
  exact Tasks.Run.dispatched hrun

-- A coroutine that sleeps and is switched to again.
def sleepTwice : List Action :=
  [.go 1 7 ⟨4096, some 0x10000, true⟩, .run, .loopTest, .clean, .expire 0, .pick, .switch 0x9000,
    .nanosleep 100 5 0x1f000, .loopTest, .clean, .expire 105, .pick, .switch 0x9000]

theorem Path.tasks_sleepTwice :
    Transition.Run Tasks.Initial (Tasks.Step MAX_COROS) (taskLog (initial.stretch sleepTwice))
      (Transition.outcome performTurn sleepTwice initial).2.tasks :=
  (Path.tasks (@stretch_path initial sleepTwice rfl)).1

end Machine

end Minimk.Runtime
