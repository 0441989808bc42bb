import Minimk.Socket.Liveness.Theorems
import Minimk.Socket.Ownership.Theorems

namespace Minimk.Socket

open Abort Minimk.Runtime SocketTable Transition

-- The calls that wait in the kernel where the descriptor is a blocking one.
def Request.mayBlock : Request → Bool
  | .accept _ | .recv _ _ | .send _ _ | .connect _ _ _ => true
  | _ => false

namespace System

def Event.nonblocks (fd : Int32) (event : Event) : Bool :=
  match event.action, event.output.request with
  | .reply reply, some (.setnonblock other) => reply.rv = .success ∧ other = fd
  | _, _ => false

-- The descriptor was made nonblocking after it was opened, and is still the same one.
def nonblocking (fd : Int32) : List Event → Bool
  | [] => false
  | event :: log =>
      event.nonblocks fd || (nonblocking fd log && !event.opens fd && !event.closes fd)

variable {s next : System} {event : Event} {ctx : Option Slot} {fd : Int32} {log : List Event}

-- An entry has the descriptor, or create or accept are about to make one with it.
def Ready (s : System) (fd : Int32) : Prop :=
  (∃ info, (s.table.sockets info).handle ≠ 0 ∧ (s.table.sockets info).fd = fd) ∨
    ∃ ctx, (s.contexts ctx).frame = .opened fd .nosigpipe

theorem Ready.holder (h : s.Ready fd) : ∃ holder, s.held holder = some fd := by
  rcases h with ⟨info, hne, rfl⟩ | ⟨ctx, hframe⟩
  · exact ⟨.entry info, by simp [held, hne]⟩
  · exact ⟨.operation ctx, by simp [held, hframe, Frame.held]⟩

-- The descriptors that a turn of an operation leaves ready were so, or it has made them so.
theorem turn_ready {machine : Machine} {files : Finset Int32} {reply : Reply} {frame : Frame}
    {table : SocketTable} {go : Next} {serial : Nat} (hframe : (s.contexts ctx).frame = frame)
    (hturn : Turn s.table reply frame table go)
    (h : Ready ({ s with machine := machine, files := files }.settle ctx serial table go).1 fd) :
    s.Ready fd ∨ frame = .opened fd .setnonblock ∧ reply.rv = .success := by
  rcases h with ⟨info, hne, hfd⟩ | ⟨other, hother⟩
  · rw [settle_table] at hne hfd
    cases hturn with
    | @destroyed idx =>
        by_cases he : info = idx
        · subst he
          simp [infoForget, SocketInfo.zero] at hne
        · simp only [infoForget, set_sockets, Function.update_of_ne he] at hne hfd
          exact .inl (.inl ⟨info, hne, hfd⟩)
    | full hsockets =>
        rw [hsockets] at hne hfd
        exact .inl (.inl ⟨info, hne, hfd⟩)
    | @stored new _ idx hfilled =>
        cases hfilled with
        | free hfree htype hindex hsockets =>
            rw [hsockets] at hne hfd
            by_cases he : info = idx
            · subst he
              obtain rfl : new = fd := by simpa using hfd
              exact .inl (.inr ⟨ctx, hframe⟩)
            · rw [Function.update_of_ne he] at hne hfd
              exact .inl (.inl ⟨info, hne, hfd⟩)
    | _ => exact .inl (.inl ⟨info, hne, hfd⟩)
  · by_cases he : other = ctx
    · subst he
      rw [settle_frame_self] at hother
      cases hturn with
      | nonblocking hrv =>
          simp only [Next.frame, Frame.opened.injEq, and_true] at hother
          exact .inr ⟨by rw [hother], hrv⟩
      | _ => simp [Next.frame] at hother
    · rw [settle_contexts_of_ne he] at hother
      exact .inl (.inr ⟨other, hother⟩)

theorem Step.ready (hlinked : s.Linked) (hs : Step s event next) (h : next.Ready fd) :
    s.Ready fd ∨ event.nonblocks fd = true := by
  cases hs.move with
  | runtime | suspended => exact .inl h
  | @resumed action slot serial rv machine table go hstep hcurrent hidle hresume =>
      obtain ⟨info, point, direction, sock, hframe, -, -⟩ := hlinked.awaits hstep hidle
      rcases turn_ready rfl (Frame.resume_turn hidle hresume) h with hold | ⟨hopened, -⟩
      · exact .inl hold
      · rw [hframe] at hopened
        cases hopened
  | @started other operation table go hrunning hidle hstart =>
      obtain ⟨hkept, hheld⟩ := started_keeps (Operation.start_started hstart)
      rcases h with ⟨info, hne, hfd⟩ | ⟨ctx, hframe⟩
      · rw [settle_table, (hkept info).1] at hne
        rw [settle_table, (hkept info).2] at hfd
        exact .inl (.inl ⟨info, hne, hfd⟩)
      · by_cases he : ctx = other
        · subst he
          rw [settle_frame_self] at hframe
          rw [hframe] at hheld
          cases hheld
        · rw [settle_contexts_of_ne he] at hframe
          exact .inl (.inr ⟨ctx, hframe⟩)
  | @replied other reply request files table go hrunning hrequest hkernel hresume =>
      have hturn := Frame.resume_turn (Frame.ne_idle_of_request hrequest) hresume
      rcases turn_ready rfl hturn h with hold | ⟨hopened, hrv⟩
      · exact .inl hold
      · rw [hopened] at hrequest
        obtain rfl := Option.some.inj hrequest
        exact .inr (by simp [Event.nonblocks, OpenPoint.request, hrv])

-- A descriptor that has a holder before a step and after it is neither opened nor closed by it.
theorem Step.keeps_open (hlinked : s.Linked) (hs : Step s event next) (hbefore : fd ∈ s.files)
    (hafter : fd ∈ next.files) : event.opens fd = false ∧ event.closes fd = false := by
  have hcustody := hs.move.custody hlinked
  generalize hcurrent : s.custody = custody at hcustody
  generalize hlater : next.custody = later at hcustody
  have hin : fd ∈ custody.inUse := hcurrent ▸ hbefore
  have hstill : fd ∈ later.inUse := hlater ▸ hafter
  unfold Event.opens Event.closes
  generalize event.label = label at hcustody ⊢
  cases hcustody with
  | @acquire holder resource _ hnew =>
      have hne : resource ≠ fd := by
        rintro rfl
        exact hnew hin
      simp [Custody.Label.acquires, Custody.Label.releases, hne]
  | @release holder resource _ =>
      have hne : fd ≠ resource := (Finset.mem_erase.mp hstill).1
      simp [Custody.Label.acquires, Custody.Label.releases, Ne.symm hne]
  | pass | keep => exact ⟨rfl, rfl⟩

theorem Run.ready_nonblocking (h : Run log s) (hready : s.Ready fd) :
    nonblocking fd log = true := by
  revert hready
  refine Transition.Run.invariant_from (P := fun log s => s.Ready fd → nonblocking fd log = true)
    ?_ ?_ h
  · rintro (⟨info, hne, -⟩ | ⟨ctx, hframe⟩)
    · exact absurd rfl hne
    · cases hframe
  · intro log state event next hr ih hs hready
    have hlinked := Reachable.linked hr.reachable
    rw [nonblocking, Bool.or_eq_true]
    rcases hs.ready hlinked hready with hold | hnow
    · obtain ⟨holder, hheld⟩ := hold.holder
      obtain ⟨later, hlater⟩ := hready.holder
      have hbefore := (Run.accounts hr).files holder fd hheld
      have hafter := (Run.accounts (hr.snoc hs)).files later fd hlater
      obtain ⟨hopens, hcloses⟩ := hs.keeps_open hlinked hbefore hafter
      exact .inr (by simp [ih hold, hopens, hcloses])
    · exact .inl hnow

-- A free entry has been cleared, descriptor and all.
def Cleared (table : SocketTable) : Prop :=
  ∀ info, (table.sockets info).handle = 0 → (table.sockets info).fd = 0

theorem turn_cleared {reply : Reply} {frame : Frame} {table after : SocketTable} {go : Next}
    (hturn : Turn table reply frame after go) (h : Cleared table) : Cleared after := by
  cases hturn with
  | @destroyed idx =>
      intro info hzero
      by_cases he : info = idx
      · subst he
        simp [infoForget, SocketInfo.zero]
      · simp only [infoForget, set_sockets, Function.update_of_ne he] at hzero ⊢
        exact h info hzero
  | full hsockets =>
      intro info hzero
      rw [hsockets] at hzero ⊢
      exact h info hzero
  | @stored fd _ idx hfilled =>
      cases hfilled with
      | free hfree htype hindex hsockets =>
          intro info hzero
          rw [hsockets] at hzero ⊢
          by_cases he : info = idx
          · subst he
            rw [Function.update_self] at hzero
            exact absurd hzero (ne_zero_of_handleType htype)
          · rw [Function.update_of_ne he] at hzero ⊢
            exact h info hzero
  | _ => exact h

theorem Reachable.cleared (h : Reachable s) : Cleared s.table := by
  refine Transition.Reachable.invariant_from (P := fun s => Cleared s.table) ?_ ?_ h
  · exact fun info _ => rfl
  · intro state event next ih hs
    cases hs.move with
    | runtime | suspended => exact ih
    | resumed hstep hcurrent hidle hresume =>
        rw [settle_table]
        exact turn_cleared (Frame.resume_turn hidle hresume) ih
    | replied hrunning hrequest hkernel hresume =>
        rw [settle_table]
        exact turn_cleared (Frame.resume_turn (Frame.ne_idle_of_request hrequest) hresume) ih
    | started hrunning hidle hstart =>
        obtain ⟨hkept, -⟩ := started_keeps (Operation.start_started hstart)
        intro info hzero
        rw [settle_table] at hzero ⊢
        rw [(hkept info).1] at hzero
        rw [(hkept info).2]
        exact ih info hzero

theorem mayBlock_on {table : SocketTable} {frame : Frame} {request : Request}
    (h : frame.request table = some request) (hblock : request.mayBlock = true) :
    ∃ info point, frame = .on info point ∧ request.fd = some (table.sockets info).fd := by
  cases frame with
  | idle => cases h
  | createSocket =>
      obtain rfl := Option.some.inj h
      cases hblock
  | opened fd point =>
      obtain rfl := Option.some.inj h
      cases point <;> cases hblock
  | on info point =>
      obtain rfl := Option.some.inj h
      exact ⟨info, point, rfl, point.request_fd _⟩

-- No call of the library waits in the kernel and stops the other coroutines: all of those that
-- could are on nonblocking descriptors, but for the one of an operation whose handle another
-- coroutine has destroyed, which is on descriptor 0.
theorem Run.never_blocks {request : Request} (h : Run log s) (hs : Step s event next)
    (hrequest : event.output.request = some request) (hblock : request.mayBlock = true) :
    (∃ fd, request.fd = some fd ∧ nonblocking fd log = true) ∨
      ∃ ctx info point, s.running = some ctx ∧ (s.contexts ctx).frame = .on info point ∧
        (s.table.sockets info).handle = 0 ∧ request.fd = some 0 := by
  have hcall : ∃ ctx, s.running = some ctx ∧
      (s.contexts ctx).frame.request s.table = some request := by
    cases hs.move with
    | runtime | resumed | started => cases hrequest
    | replied hrunning hcall => exact ⟨_, hrunning, hcall.trans hrequest⟩
    | suspended hrunning hcall => exact ⟨_, hrunning, hcall.trans hrequest⟩
  obtain ⟨ctx, hrunning, hcall⟩ := hcall
  obtain ⟨info, point, hframe, hfd⟩ := mayBlock_on hcall hblock
  by_cases hzero : (s.table.sockets info).handle = 0
  · have hcleared := Reachable.cleared h.reachable info hzero
    exact .inr ⟨ctx, info, point, hrunning, hframe, hzero, hcleared ▸ hfd⟩
  · exact .inl ⟨_, hfd, Run.ready_nonblocking h (.inl ⟨info, hzero, rfl⟩)⟩

def firstRecv : List Action :=
  let done : Reply := ⟨.success, 3, 0, .success⟩
  [.start (.create 2 1 0), .reply done, .reply done, .reply done,
    .start (.recv 0x100000000000000 16)]

theorem Run.never_blocks_firstRecv : nonblocking 3 (initial.history firstRecv) = true := by
  have hrun := @after_run firstRecv rfl
  have hrecv : ((initial.after firstRecv).perform (.reply ⟨.success, -1, 5, .success⟩)).map
      (fun step => step.1.output.request) = some (some (.recv 3 16)) := rfl
  obtain ⟨⟨event, next⟩, hperform, hrequest⟩ := Option.map_eq_some_iff.mp hrecv
  rcases Run.never_blocks hrun (perform_step hperform) hrequest rfl with
    ⟨fd, hfd, hnonblocking⟩ | ⟨ctx, info, point, -, -, -, hfd⟩
  · obtain rfl := Option.some.inj hfd
    exact hnonblocking
  · cases hfd

end System

end Minimk.Socket
