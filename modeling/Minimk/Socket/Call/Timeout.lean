import Minimk.Runtime.Deadlines
import Minimk.Socket.Call

namespace Minimk.Socket

open Abort Integer Minimk.Runtime SocketTable Transition

-- The operations that try again after a suspension: their handle and what they wait for.
def Operation.retries : Operation → Option (UInt64 × Direction)
  | .accept listenerSock => some (listenerSock, .read)
  | .recv sock _ => some (sock, .read)
  | .send sock _ => some (sock, .write)
  | _ => none

-- The same for the points of their loops.
def Point.retries : Point → Option Direction
  | .acceptCall | .acceptSuspend => some .read
  | .transferCall direction _ | .transferSuspend direction _ _ => some direction
  | _ => none

-- The operation is in its loop on an entry, or past it.
def Next.Retries (idx : InfoIdx) (direction : Direction) : Next → Prop
  | .call (.on info point) => info = idx ∧ point.retries = some direction
  | .call (.createSocket _ _ _) => False
  | .call .idle | .call (.opened _ _) | .done _ _ | .issued _ => True

variable {table : SocketTable} {operation : Operation} {sock : UInt64} {idx info : InfoIdx}
  {point : Point} {direction way : Direction} {next after : Next} {returned : CallReturn}

theorem Point.awaits_of_retries (h : point.retries = some direction)
    (hawaits : point.awaits = some way) : way = direction := by
  cases point with
  | acceptSuspend | transferSuspend => exact Option.some.inj (hawaits.symm.trans h)
  | connectSuspend => cases h
  | _ => cases hawaits

theorem Operation.Begins.retries (hop : operation.retries = some (sock, direction))
    (h : operation.Begins table next) : next.Retries (indexOf sock) direction := by
  have hfound : ∀ {point : Point}, point.retries = some direction →
      (∃ after, onFound table sock point = .ok (after, next)) →
        next.Retries (indexOf sock) direction := by
    intro point hpoint hbegins
    rw [onFound_begins.mp hbegins]
    by_cases hfinds : table.Finds sock
    · rw [if_pos hfinds]
      exact ⟨rfl, hpoint⟩
    · rw [if_neg hfinds]
      trivial
  cases operation with
  | accept | recv | send =>
      obtain ⟨rfl, rfl⟩ : _ ∧ _ := by simpa [Operation.retries] using hop
      exact hfound rfl h
  | _ => cases hop

theorem Point.resume_retries (h : point.retries = some direction) (reply : Reply) :
    (point.resume table idx reply).2.Retries idx direction := by
  cases point with
  | acceptCall =>
      simp only [Point.resume]
      split_ifs
      · exact ⟨rfl, h⟩
      · trivial
      · trivial
  | acceptSuspend =>
      simp only [Point.resume]
      split_ifs
      · trivial
      · exact ⟨rfl, h⟩
  | transferCall way count =>
      by_cases hagain : reply.rv = .eagain
      · have hsuspend : (Point.transferSuspend way count reply.amount).retries = some direction := h
        simpa [Point.resume, transferTurn, hagain, Next.Retries] using hsuspend
      · simp [Point.resume, transferTurn, hagain, Next.Retries]
  | transferSuspend way count amount =>
      by_cases hrv : reply.rv = .success
      · have hcall : (Point.transferCall way count).retries = some direction := h
        simpa [Point.resume, transferResumed, hrv, Next.Retries] using hcall
      · simp [Point.resume, transferResumed, hrv, Next.Retries]
  | _ => cases h

theorem Next.Step.retries (h : next.Retries idx direction) (hs : Next.Step next returned after) :
    after.Retries idx direction := by
  cases next with
  | done | issued =>
      obtain ⟨_, _, hcall, -⟩ := hs
      cases hcall
  | call frame =>
      cases frame with
      | createSocket => exact h.elim
      | idle =>
          obtain ⟨_, _, hcall, hframe, -⟩ := hs
          cases hcall
          exact absurd rfl hframe
      | on info point =>
          obtain ⟨rfl, hpoint⟩ := h
          rw [hs.on]
          exact Point.resume_retries hpoint returned.reply
      | opened fd point =>
          obtain ⟨_, table, hcall, -, hresume⟩ := hs
          cases hcall
          have hturn := OpenPoint.resume_turn hresume
          cases hturn <;> trivial

theorem Next.Path.retries {turns : List CallTurn} (h : Next.Path next turns after)
    (hnext : next.Retries idx direction) : after.Retries idx direction := by
  induction h with
  | nil => exact hnext
  | snoc _ hs ih =>
      obtain ⟨-, -, hs⟩ := hs
      exact hs.retries ih

namespace System

-- A suspension of a coroutine for its socket: the clock reading and the deadline it arms.
structure Arming where
  now : UInt64
  deadline : UInt64
  deriving DecidableEq

def arming (slot : Slot) (turn : Transition.Turn System Event) : Option Arming :=
  match turn.label.action with
  | .suspend now _ =>
      if turn.before.running = some (some slot) then
        some ⟨now, (turn.after.machine.sched.coroutines slot).deadline⟩
      else none
  | _ => none

-- Those of a stretch, latest first.
def armings (slot : Slot) (turns : List (Transition.Turn System Event)) : List Arming :=
  turns.filterMap (arming slot)

-- No deadline is later than the timeout counted from the first suspension.
def Bounded (timeout : UInt64) (armings : List Arming) : Prop :=
  ∀ first ∈ armings.getLast?, ∀ arming ∈ armings,
    arming.deadline.toNat ≤ min (first.now.toNat + timeout.toNat) (2 ^ 64 - 1)

instance (timeout : UInt64) (armings : List Arming) : Decidable (Bounded timeout armings) :=
  inferInstanceAs (Decidable (∀ first ∈ armings.getLast?, _))

-- A coroutine calls an operation and has not got its return in the turns that follow.
structure Calling (slot : Slot) (operation : Operation) (s : System)
    (turns : List (Transition.Turn System Event)) (last : System) : Prop where
  running : s.running = some (some slot)
  stretch : ∃ output first, Step s ⟨.start operation, output⟩ first ∧
    Transition.Path (Recorded Step) first turns last
  busy : ∀ turn ∈ turns, (turn.before.contexts (some slot)).frame ≠ .idle

variable {s first last : System} {slot : Slot} {timeout now : UInt64} {event : Event}
  {turns : List (Transition.Turn System Event)} {turn : Transition.Turn System Event}

-- What a suspension arms is computed from the clock and the timeout that the entry has then.
theorem Step.arms {sp : UInt64} (hs : Step s event last) (haction : event.action = .suspend now sp)
    (hrunning : s.running = some (some slot)) :
    ∃ info point direction, (s.contexts (some slot)).frame = .on info point ∧
      point.awaits = some direction ∧ (last.machine.sched.coroutines slot).deadline =
        u64Satadd now ((s.table.sockets info).timeout direction) := by
  have hmove := hs.move
  cases hmove with
  | @suspended ctx _ _ nanosec direction fd output machine hctx hrequest hstep =>
      obtain ⟨rfl, rfl⟩ : _ ∧ _ := by simpa using haction
      obtain rfl : ctx = some slot := Option.some.inj (hctx.symm.trans hrunning)
      obtain ⟨info, point, hframe, hawaits, -, rfl⟩ := Frame.suspend_request hrequest
      refine ⟨info, point, direction, hframe, hawaits, ?_⟩
      rcases running_eq_some hctx with ⟨-, hnone⟩ | ⟨other, hpc, hcurrent, hother⟩
      · cases hnone
      · obtain rfl : slot = other := by simpa using hother
        exact hstep.suspends hcurrent |>.deadline_eq
  | _ => cases haction

theorem Next.retries_frame (h : next.Retries idx direction) :
    (.call (Next.frame next) : Next).Retries idx direction := by
  cases next with
  | call frame => exact h
  | done | issued => trivial

-- Every suspension of a call counts the timeout of its handle from its own clock reading.
theorem Calling.deadline_eq {armed : Arming} (h : Calling slot operation s turns last)
    (hop : operation.retries = some (sock, direction)) (hm : turn ∈ turns)
    (htimeout : (turn.before.table.sockets (indexOf sock)).timeout direction = timeout)
    (harmed : arming slot turn = some armed) : armed.deadline = u64Satadd armed.now timeout := by
  obtain ⟨output, first, hstart, hpath⟩ := h.stretch
  obtain ⟨newer, older, rfl, holder, hstep⟩ := Path.up_to hpath hm
  obtain ⟨go, hbegins, hfirst⟩ := hstart.begins h.running
  obtain ⟨calls, hcalls⟩ := Path.calls holder (fun other ho => h.busy other (by simp [ho]))
    (h.busy turn hm)
  have hretries : (.call (turn.before.contexts (some slot)).frame : Next).Retries (indexOf sock)
      direction := by
    refine Next.Path.retries hcalls ?_
    rw [hfirst]
    exact Next.retries_frame (hbegins.retries hop)
  unfold arming at harmed
  split at harmed
  · rename_i now sp haction
    split_ifs at harmed with hrun
    obtain ⟨info, point, way, hframe, hawaits, hdeadline⟩ := hstep.arms haction hrun
    rw [hframe] at hretries
    obtain ⟨rfl, hpoint⟩ := hretries
    obtain rfl := Point.awaits_of_retries hpoint hawaits
    rw [← Option.some.inj harmed, ← htimeout]
    exact hdeadline
  · cases harmed

theorem bounded_armings_iff {armings : List Arming}
    (h : ∀ armed ∈ armings, armed.deadline = u64Satadd armed.now timeout) :
    Bounded timeout armings ↔ ∀ first ∈ armings.getLast?,
      (∀ armed ∈ armings, armed.now ≤ first.now) ∨
        2 ^ 64 - 1 ≤ first.now.toNat + timeout.toNat := by
  refine forall₂_congr fun first _ => ?_
  constructor
  · intro hbounded
    by_cases hover : 2 ^ 64 - 1 ≤ first.now.toNat + timeout.toNat
    · exact .inr hover
    · refine .inl fun armed hm => ?_
      have hle := hbounded armed hm
      rw [h armed hm, toNat_u64Satadd] at hle
      rw [UInt64.le_iff_toNat_le]
      omega
  · intro hcases armed hm
    rw [h armed hm, toNat_u64Satadd]
    rcases hcases with hnow | hover
    · have hle := UInt64.le_iff_toNat_le.mp (hnow armed hm)
      omega
    · omega

-- The timeout bounds the whole call if no later suspension reads a later clock, or if the timeout
-- of the first one never runs out.
theorem Calling.bounded_iff (h : Calling slot operation s turns last)
    (hop : operation.retries = some (sock, direction))
    (htimeout : ∀ turn ∈ turns,
      (turn.before.table.sockets (indexOf sock)).timeout direction = timeout) :
    Bounded timeout (armings slot turns) ↔ ∀ first ∈ (armings slot turns).getLast?,
      (∀ armed ∈ armings slot turns, armed.now ≤ first.now) ∨
        2 ^ 64 - 1 ≤ first.now.toNat + timeout.toNat := by
  refine bounded_armings_iff fun armed ha => ?_
  obtain ⟨turn, hm, harmed⟩ := List.mem_filterMap.mp ha
  exact h.deadline_eq hop hm (htimeout turn hm) harmed

-- A reader with a timeout of 100 starts to receive at 2 and is woken at 50.
def wokenReader : List Action :=
  let done : Reply := ⟨.success, 3, 0, .success⟩
  [.start (.create 2 1 0), .reply done, .reply done, .reply done,
    .start (.setReadTimeout 0x100000000000000 100),
    .runtime (.go 1 0 ⟨4096, some 0x10000, true⟩), .runtime .run,
    .runtime .loopTest, .runtime .clean, .runtime (.expire 0), .runtime .pick,
    .runtime (.switch 0x9000)]

-- There is nothing to read any more at 60, and it waits again.
def wokenInVain : List Action :=
  [.reply ⟨.eagain, -1, 0, .success⟩, .suspend 2 0x1f000, .runtime .loopTest, .runtime .clean,
    .runtime (.expire 3), .runtime .pick,
    .runtime (.poll 4 ⟨.success, fun idx => if idx = 0 then POLLIN else 0, 50⟩),
    .runtime .loopTest, .runtime .clean, .runtime (.expire 51), .runtime .pick,
    .runtime (.switch 0x9000), .reply ⟨.eagain, -1, 0, .success⟩, .suspend 60 0x1f000]

def stretch (s : System) (actions : List Action) : List (Transition.Turn System Event) :=
  (Transition.outcome (Transition.performTurn perform) actions s).1

theorem after_step {action : Action} (h : (s.perform action).isSome) :
    ∃ output, Step s ⟨action, output⟩ (s.after [action]) := by
  obtain ⟨⟨event, next⟩, hperform⟩ := Option.isSome_iff_exists.mp h
  have hafter : s.after [action] = next := by
    simp [after, Transition.outcome, Transition.replay, hperform]
  have haction : event.action = action := by
    unfold perform at hperform
    split at hperform
    · obtain ⟨rfl, rfl⟩ : _ ∧ _ := by simpa using hperform
      rfl
    · cases hperform
  rw [hafter, ← haction]
  exact ⟨event.output, perform_step hperform⟩

def recvStarted : System :=
  (initial.after wokenReader).after [.start (.recv 0x100000000000000 16)]

theorem calling_wokenInVain : ∃ last, Calling 0 (.recv 0x100000000000000 16)
    (initial.after wokenReader) (recvStarted.stretch wokenInVain) last := by
  obtain ⟨output, hstart⟩ := @after_step (initial.after wokenReader)
    (.start (.recv 0x100000000000000 16)) rfl
  refine ⟨_, rfl, ⟨output, recvStarted, hstart,
    @Transition.outcome_turns _ _ _ _ perform ?_ _ _ rfl⟩, by decide⟩
  exact fun _ _ _ _ => perform_step

theorem armings_wokenInVain :
    armings 0 (recvStarted.stretch wokenInVain) = [⟨60, 160⟩, ⟨2, 102⟩] := rfl

theorem Calling.bounded_iff_wokenInVain :
    ¬Bounded 100 (armings 0 (recvStarted.stretch wokenInVain)) := by
  obtain ⟨last, hcalling⟩ := calling_wokenInVain
  have hiff := @Calling.bounded_iff _ _ .read _ _ _ 100 _ hcalling rfl (by decide)
  rw [hiff, armings_wokenInVain]
  decide

-- The second suspension moves the deadline of the reader from 102 to 160.
theorem woken_reader_waits_longer :
    ¬∀ slot operation sock direction timeout s turns last, Reachable s →
      Calling slot operation s turns last → operation.retries = some (sock, direction) →
      s.table.Finds sock →
      (∀ turn ∈ turns, turn.before.table.Finds sock ∧
        (turn.before.table.sockets (indexOf sock)).timeout direction = timeout) →
      Bounded timeout (armings slot turns) := by
  intro hclaim
  obtain ⟨last, hcalling⟩ := calling_wokenInVain
  have hreach := (@after_run wokenReader rfl).reachable
  have hbounded := hclaim 0 _ 0x100000000000000 .read 100 _ _ _ hreach hcalling rfl
    (by decide) (by decide)
  rw [armings_wokenInVain] at hbounded
  exact absurd hbounded (by decide)

end System

end Minimk.Socket
