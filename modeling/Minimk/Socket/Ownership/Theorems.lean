import Minimk.Socket.Ownership
import Minimk.Socket.System.Invariant

namespace Minimk.Socket

open Abort Minimk.Runtime SocketTable

namespace System

variable {s next : System} {event : Event} {log : List Event} {ctx : Option Slot}
  {table : SocketTable} {files : Finset Int32} {reply : Reply}

-- The descriptors with their holders, when the operation of one context has gone on.
theorem settle_custody {serial : Nat} {go : Next} :
    ({ s with files := files }.settle ctx serial table go).1.custody =
      { (custody { s with table := table }).put (.operation ctx) (Next.frame go).held with
        inUse := files } := by
  refine Custody.ext (by simp [custody]) ?_
  funext holder
  cases holder with
  | entry info => simp [custody, held, Custody.put]
  | operation other =>
      by_cases he : other = ctx
      · subst he
        simp [custody, held, Custody.put, settle_frame_self]
      · simp [custody, held, Custody.put, he, settle_contexts_of_ne he]

-- What the entries hold, when their descriptors are as they were and when one has changed.
theorem custody_same (hsockets : ∀ info, (table.sockets info).handle =
      (s.table.sockets info).handle ∧ (table.sockets info).fd = (s.table.sockets info).fd) :
    custody { s with table := table } = s.custody := by
  refine Custody.ext rfl ?_
  funext holder
  cases holder with
  | entry info =>
      obtain ⟨hhandle, hfd⟩ := hsockets info
      simp only [custody, held, hhandle, hfd]
  | operation other => rfl

theorem custody_set {info : InfoIdx} {entry : SocketInfo}
    (hsockets : table.sockets = Function.update s.table.sockets info entry) :
    custody { s with table := table } =
      s.custody.put (.entry info) (if entry.handle ≠ 0 then some entry.fd else none) := by
  refine Custody.ext rfl ?_
  funext holder
  cases holder with
  | entry other =>
      by_cases he : other = info
      · rw [he, Custody.put_held_self]
        simp only [custody, held, hsockets, Function.update_self]
      · have hne : Holder.entry other ≠ .entry info := fun h => he (Holder.entry.inj h)
        rw [Custody.put_held_of_ne hne]
        simp only [custody, held, hsockets, Function.update_of_ne he]
  | operation other =>
      have hne : Holder.operation other ≠ .entry info := by simp
      rw [Custody.put_held_of_ne hne]
      simp only [custody, held]

-- Nothing changes hands while the entries keep their descriptors and the operation its own.
theorem keep_custody {serial : Nat} {go : Next}
    (hsockets : ∀ info, (table.sockets info).handle = (s.table.sockets info).handle ∧
      (table.sockets info).fd = (s.table.sockets info).fd)
    (hheld : (Next.frame go).held = (s.contexts ctx).frame.held) :
    ({ s with files := files }.settle ctx serial table go).1.custody =
      { s.custody with inUse := files } := by
  have hself : s.custody.held (.operation ctx) = (Next.frame go).held := hheld.symm
  rw [settle_custody, custody_same hsockets, Custody.put_eq_self hself]

-- A new descriptor is with the operation that has called for it.
theorem open_custody {serial : Nat} {fd : Int32} {point : OpenPoint} :
    ({ s with files := files }.settle ctx serial s.table (.call (.opened fd point))).1.custody =
      { s.custody.put (.operation ctx) (some fd) with inUse := files } := settle_custody

-- The close of a descriptor that the operation could not make an entry for.
theorem close_custody {serial : Nat} {rv : Error} {amount : Option UInt64} :
    ({ s with files := files }.settle ctx serial s.table (.done rv amount)).1.custody =
      { s.custody.put (.operation ctx) none with inUse := files } := settle_custody

theorem started_keeps {operation : Operation} {go : Next}
    (h : Started s.table operation table go) :
    (∀ info, (table.sockets info).handle = (s.table.sockets info).handle ∧
      (table.sockets info).fd = (s.table.sockets info).fd) ∧ (Next.frame go).held = none := by
  cases h with
  | returned | socket | found => exact ⟨fun _ => ⟨rfl, rfl⟩, rfl⟩
  | @retimed _ idx entry hhandle hfd =>
      refine ⟨fun info => ?_, rfl⟩
      by_cases he : info = idx
      · subst he
        simp [hhandle, hfd]
      · simp [he]

-- The calls on an entry other than its close, and accept where it fails, leave the descriptors.
theorem kernel_keep {point : Point} {info : SocketInfo} (hpoint : point ≠ .destroyClose)
    (haccept : point = .acceptCall → reply.rv ≠ .success)
    (h : kernel s.files reply (point.request info) = some files) {output : Output}
    (hout : output.request = some (point.request info)) :
    files = s.files ∧ Event.label ⟨.reply reply, output⟩ = .keep := by
  cases point with
  | destroyClose => exact absurd rfl hpoint
  | acceptCall =>
      have hrv := haccept rfl
      simp only [Point.request, kernel, hrv, ne_eq, not_false_eq_true, ↓reduceIte,
        Option.some.injEq] at h
      simp only [Point.request] at hout
      simp [Event.label, hout, hrv, h]
  | acceptSuspend | transferSuspend | connectSuspend => cases h
  | transferCall direction count =>
      cases direction <;> simp only [Point.request, kernel, Option.some.injEq] at h hout <;>
        simp [Event.label, hout, h]
  | connectCall | connectGetsockopt | bindCall | listenCall | setsockoptReuseaddrCall =>
      simp only [Point.request, kernel, Option.some.injEq] at h hout
      simp [Event.label, hout, h]

theorem kernel_opened {request : Request} (hrv : reply.rv = .success)
    (hrequest : (∃ domain type protocol, request = .socket domain type protocol) ∨
      ∃ fd, request = .accept fd)
    (h : kernel s.files reply request = some files) {output : Output}
    (hout : output.request = some request) :
    reply.fd ∉ s.files ∧ files = insert reply.fd s.files ∧
      Event.label ⟨.reply reply, output⟩ = .acquire reply.fd := by
  rcases hrequest with ⟨domain, type, protocol, rfl⟩ | ⟨fd, rfl⟩ <;>
    simp only [kernel, hrv, ne_eq, not_true_eq_false, ↓reduceIte, Option.ite_none_right_eq_some,
      Option.some.injEq] at h <;>
    exact ⟨h.1.2, h.2.symm, by simp [Event.label, hout, hrv]⟩

-- The close of an entry's descriptor, when destroy forgets the entry.
theorem forget_custody {serial : Nat} {info : InfoIdx} {rv : Error} {amount : Option UInt64}
    (hheld : (s.contexts ctx).frame.held = none) :
    ({ s with files := files }.settle ctx serial (s.table.infoForget info)
        (.done rv amount)).1.custody =
      { s.custody.put (.entry info) none with inUse := files } := by
  have hdone : (s.custody.put (.entry info) none).held (.operation ctx) =
      (Next.frame (.done rv amount)).held := by
    rw [Custody.put_held_of_ne (by simp)]
    exact hheld
  have hforget := @custody_set s (s.table.infoForget info) info .zero rfl
  have hzero : ¬SocketInfo.zero.handle ≠ 0 := by simp [SocketInfo.zero]
  rw [if_neg hzero] at hforget
  rw [settle_custody, hforget, Custody.put_eq_self hdone]

-- The new entry takes the descriptor over from the operation.
theorem store_custody {serial : Nat} {info : InfoIdx} {fd : Int32}
    (hfilled : s.table.Filled fd table (some info)) :
    (s.settle ctx serial table (.issued info)).1.custody =
      (s.custody.put (.operation ctx) none).put (.entry info) (some fd) := by
  cases hfilled with
  | free hfree htype hindex hsockets =>
      have hne := ne_zero_of_handleType htype
      have hstore := custody_set hsockets
      rw [if_pos hne] at hstore
      have hsettle := @settle_custody s ctx table s.files serial (.issued info)
      rw [hstore, Custody.put_comm (by simp)] at hsettle
      exact hsettle

theorem Linked.replied {request : Request} {go : Next} {output : Output} (h : s.Linked)
    (hrequest : (s.contexts ctx).frame.request s.table = some request)
    (hkernel : kernel s.files reply request = some files)
    (hresume : (s.contexts ctx).frame.resume s.table reply = .ok (table, go))
    (hout : output.request = some request) :
    Custody.Step s.custody (Event.label ⟨.reply reply, output⟩)
      ({ s with files := files }.settle ctx (s.contexts ctx).serial table go).1.custody := by
  have hturn := Frame.resume_turn (Frame.ne_idle_of_request hrequest) hresume
  generalize hframe : (s.contexts ctx).frame = frame at hturn hrequest
  have hself : s.custody.held (.operation ctx) = frame.held := by rw [← hframe]; rfl
  cases hturn with
  | again hpoint hlater haccept _ | done hpoint haccept _ =>
      obtain rfl := Option.some.inj hrequest
      obtain ⟨rfl, hlabel⟩ := kernel_keep hpoint haccept hkernel hout
      rw [hlabel, keep_custody (fun _ => ⟨rfl, rfl⟩) (by rw [hframe]; rfl)]
      exact .keep
  | accepted hrv =>
      obtain rfl := Option.some.inj hrequest
      obtain ⟨hnew, rfl, hlabel⟩ := kernel_opened hrv (.inr ⟨_, rfl⟩) hkernel hout
      rw [hlabel, open_custody]
      exact .acquire hself hnew
  | socket hrv =>
      obtain rfl := Option.some.inj hrequest
      obtain ⟨hnew, rfl, hlabel⟩ := kernel_opened hrv (.inl ⟨_, _, _, rfl⟩) hkernel hout
      rw [hlabel, open_custody]
      exact .acquire hself hnew
  | noSocket hrv =>
      obtain rfl := Option.some.inj hrequest
      simp only [kernel, hrv, ne_eq, not_false_eq_true, ↓reduceIte, Option.some.injEq] at hkernel
      rw [keep_custody (fun _ => ⟨rfl, rfl⟩) (by rw [hframe]; rfl), ← hkernel]
      simp only [Event.label, hout, hrv, ↓reduceIte]
      exact .keep
  | @destroyed info =>
      obtain rfl := Option.some.inj hrequest
      obtain rfl := Option.some.inj hkernel
      have hne := h.closing ctx info hframe
      rw [forget_custody (by rw [hframe]; rfl)]
      simp only [Event.label, hout, Point.request]
      exact .release (by simp [custody, held, hne])
  | blocking | nonblocking =>
      obtain rfl := Option.some.inj hrequest
      obtain rfl := Option.some.inj hkernel
      rw [keep_custody (fun _ => ⟨rfl, rfl⟩) (by rw [hframe]; rfl)]
      simp only [Event.label, hout, OpenPoint.request]
      exact .keep
  | full hsockets =>
      obtain rfl := Option.some.inj hrequest
      obtain rfl := Option.some.inj hkernel
      rw [keep_custody (fun _ => by rw [hsockets]; exact ⟨rfl, rfl⟩) (by rw [hframe]; rfl)]
      simp only [Event.label, hout, OpenPoint.request]
      exact .keep
  | @stored fd _ idx hfilled =>
      obtain rfl := Option.some.inj hrequest
      obtain rfl := Option.some.inj hkernel
      have hstore := @store_custody s ctx table (s.contexts ctx).serial idx fd hfilled
      simp only [Event.label, hout, OpenPoint.request]
      refine hstore ▸ .pass hself ?_
      cases hfilled with
      | free hfree _ _ _ => simp [custody, held, hfree]
  | closed =>
      obtain rfl := Option.some.inj hrequest
      obtain rfl := Option.some.inj hkernel
      rw [close_custody]
      simp only [Event.label, hout, OpenPoint.request]
      exact .release hself

theorem Move.custody (hm : Move s event next) (h : s.Linked) :
    Custody.Step s.custody event.label next.custody := by
  cases hm with
  | runtime | suspended => exact .keep
  | @resumed action slot serial rv machine table go hstep hcurrent hframe hresume =>
      have hkeep : ({ s with machine := machine }.settle (some slot)
          (s.contexts (some slot)).serial table go).1.custody = s.custody := by
        obtain ⟨info, point, direction, sock, hon, hawaits, -⟩ := h.awaits hstep hframe
        have hturn := Frame.resume_turn hframe hresume
        rw [hon] at hturn
        cases hturn with
        | again | done =>
            exact @keep_custody { s with machine := machine } (some slot) s.table s.files _ _
              (fun _ => ⟨rfl, rfl⟩) (by rw [hon]; rfl)
        | accepted | destroyed => cases hawaits
      rw [hkeep]
      exact .keep
  | @started ctx operation table go hrunning hframe hstart =>
      obtain ⟨hsockets, hheld⟩ := started_keeps (Operation.start_started hstart)
      have hkeep := @keep_custody s ctx table s.files (s.serialOf go) go hsockets
        (by rw [hheld, hframe]; rfl)
      rw [hkeep]
      exact .keep
  | replied hrunning hrequest hkernel hresume =>
      exact h.replied hrequest hkernel hresume rfl

theorem initial_custody : initial.custody = Custody.empty := by
  refine Custody.ext rfl ?_
  funext holder
  cases holder <;> rfl

-- The library hands descriptors around as a custody of resources does.
theorem Run.custody (h : Run log s) : Custody.Run (log.map Event.label) s.custody := by
  refine Transition.Run.invariant_from (P := fun log s =>
    Custody.Run (log.map Event.label) s.custody) ?_ ?_ h
  · exact Transition.Run.start initial_custody
  · intro log state event next hr ih hs
    exact ih.snoc (hs.move.custody (Reachable.linked hr.reachable))

-- A stored handle leads back to its entry.
def Named (table : SocketTable) : Prop :=
  ∀ info, (table.sockets info).handle ≠ 0 →
    handleType (table.sockets info).handle = HANDLE_TYPE_SOCKET ∧
      indexOf (table.sockets info).handle = info

theorem Named.infoFind {info : InfoIdx} (h : Named table) (hne : (table.sockets info).handle ≠ 0) :
    table.infoFind (table.sockets info).handle = .ok (.success, some info) := by
  obtain ⟨htype, hindex⟩ := h info hne
  rw [infoFind_eq, hindex, if_pos ⟨htype, rfl⟩]

theorem Named.of_handles {after : SocketTable} (h : Named table)
    (hafter : ∀ info, (after.sockets info).handle = (table.sockets info).handle) :
    Named after := by
  intro info hne
  rw [hafter] at hne ⊢
  exact h info hne

theorem turn_named {frame : Frame} {after : SocketTable} {go : Next}
    (hturn : Turn table reply frame after go) (h : Named table) : Named after := by
  cases hturn with
  | @destroyed idx =>
      intro info hne
      by_cases he : info = idx
      · subst he
        simp [infoForget, SocketInfo.zero] at hne
      · simp only [infoForget, set_sockets, Function.update_of_ne he] at hne ⊢
        exact h info hne
  | full hsockets => exact h.of_handles fun info => by rw [hsockets]
  | @stored fd after idx hfilled =>
      cases hfilled with
      | free hfree htype hindex hsockets =>
          intro info hne
          rw [hsockets] at hne ⊢
          by_cases he : info = idx
          · subst he
            simpa using ⟨htype, hindex⟩
          · rw [Function.update_of_ne he] at hne ⊢
            exact h info hne
  | _ => exact h

theorem Move.named (hm : Move s event next) (h : Named s.table) : Named next.table := by
  cases hm with
  | runtime | suspended => exact h
  | resumed hstep hcurrent hframe hresume =>
      rw [settle_table]
      exact turn_named (Frame.resume_turn hframe hresume) h
  | started hrunning hframe hstart =>
      rw [settle_table]
      exact h.of_handles fun info =>
        ((started_keeps (Operation.start_started hstart)).1 info).1
  | replied hrunning hrequest hkernel hresume =>
      rw [settle_table]
      exact turn_named (Frame.resume_turn (Frame.ne_idle_of_request hrequest) hresume) h

theorem Reachable.named (h : Reachable s) : Named s.table := by
  refine Transition.Reachable.invariant_from (P := fun s => Named s.table) ?_ ?_ h
  · exact fun info hne => absurd rfl hne
  · exact fun _ _ _ ih hs => hs.move.named ih

theorem countP_label (p : Custody.Label Int32 → Bool) :
    log.countP (fun event => p event.label) = (log.map Event.label).countP p := by
  rw [List.countP_map]
  rfl

theorem Run.accounts (h : Run log s) : Accounted log s := by
  have hcustody := h.custody
  have hsound := hcustody.sound
  refine ⟨?_, fun fd hfd => hsound.existsUnique hfd, hsound.held, ?_, ?_, ?_⟩
  · intro fd
    have hbalance := hcustody.balance fd
    rw [← countP_label, ← countP_label] at hbalance
    exact hbalance
  · intro ctx fd hheld
    cases hframe : (s.contexts ctx).frame with
    | opened other point => exact (Reachable.linked h.reachable).running_of_opened hframe
    | _ => simp [held, hframe, Frame.held] at hheld
  · exact fun info hne => (Reachable.named h.reachable).infoFind hne
  · rintro newer older event fd rfl hcloses
    have hlabel : event.label = .release fd := by
      unfold Event.closes Custody.Label.releases at hcloses
      split at hcloses
      · rename_i other hother
        rw [hother, of_decide_eq_true hcloses]
      · cases hcloses
    have hmap : (newer ++ event :: older).map Event.label =
        newer.map Event.label ++ .release fd :: older.map Event.label := by simp [hlabel]
    rw [hmap] at hcustody
    have hbalance := Custody.Run.release_balance hcustody
    rw [← countP_label, ← countP_label] at hbalance
    exact hbalance

-- While its operation goes on, the only steps are those of the running context.
theorem Step.busy (hs : Step s event next) (hrunning : s.running = some ctx)
    (hframe : (s.contexts ctx).frame ≠ .idle)
    (hawaits : ∀ info point, (s.contexts ctx).frame = .on info point → point.awaits = none) :
    ∃ reply request files table go, event.action = .reply reply ∧
      event.output.request = some request ∧
      (s.contexts ctx).frame.request s.table = some request ∧
      kernel s.files reply request = some files ∧
      Turn s.table reply (s.contexts ctx).frame table go ∧
      next = ({ s with files := files }.settle ctx (s.contexts ctx).serial table go).1 ∧
      event.output.result =
        ({ s with files := files }.settle ctx (s.contexts ctx).serial table go).2 := by
  have hmove := hs.move
  cases hmove with
  | runtime hidle => exact absurd (hidle ctx hrunning) hframe
  | resumed hstep => simp [running, (switched hstep).1] at hrunning
  | started hother hidle =>
      obtain rfl := Option.some.inj (hrunning.symm.trans hother)
      exact absurd hidle hframe
  | replied hother hrequest hkernel hresume =>
      obtain rfl := Option.some.inj (hrunning.symm.trans hother)
      exact ⟨_, _, _, _, _, rfl, rfl, hrequest, hkernel, Frame.resume_turn hframe hresume, rfl,
        rfl⟩
  | suspended hother hrequest =>
      obtain rfl := Option.some.inj (hrunning.symm.trans hother)
      obtain ⟨info, point, hon, hsome, -⟩ := Frame.suspend_request hrequest
      rw [hawaits info point hon] at hsome
      cases hsome

theorem Step.start {operation : Operation} (hs : Step s event next)
    (haction : event.action = .start operation) :
    ∃ ctx table go, s.running = some ctx ∧ operation.start s.table = .ok (table, go) ∧
      next = (s.settle ctx (s.serialOf go) table go).1 ∧ event.output.request = none ∧
      event.output.result = (s.settle ctx (s.serialOf go) table go).2 := by
  have hmove := hs.move
  cases hmove with
  | @started ctx other table go hrunning _ hstart =>
      obtain rfl : other = operation := by simpa using haction
      exact ⟨ctx, table, go, hrunning, hstart, rfl, rfl, rfl⟩
  | _ => cases haction

theorem infoFind_eq_some_iff {sock : UInt64} {info : InfoIdx} :
    table.infoFind sock = .ok (.success, some info) ↔ table.Finds sock ∧ indexOf sock = info := by
  rw [infoFind_eq]
  by_cases hfinds : handleType sock = HANDLE_TYPE_SOCKET ∧
      (table.sockets (indexOf sock)).handle = sock
  · rw [if_pos hfinds]
    have hf : table.Finds sock := hfinds
    simp [hf]
  · rw [if_neg hfinds]
    have hf : ¬table.Finds sock := hfinds
    simp [hf]

theorem Step.stale {sock : UInt64} (hs : Step s event next)
    (haction : event.action = .start (.destroy sock)) (hfinds : ¬s.table.Finds sock) :
    event.output.request = none ∧ next.files = s.files ∧ next.table = s.table ∧
      event.output.result = some ⟨if sock = MINIMK_SOCKET_INVALID then .success else .ebadf,
        MINIMK_SOCKET_INVALID, none⟩ := by
  obtain ⟨ctx, table, go, -, hstart, rfl, hrequest, hresult⟩ := hs.start haction
  simp only [Operation.start, Socket.destroy, onFound_eq, hfinds, ↓reduceIte] at hstart
  by_cases hz : sock = MINIMK_SOCKET_INVALID
  · simp only [hz, ↓reduceIte, Except.ok.injEq, Prod.mk.injEq] at hstart
    obtain ⟨rfl, rfl⟩ := hstart
    exact ⟨hrequest, by simp, by simp, by simp [hresult, settle, hz]⟩
  · simp only [hz, ↓reduceIte, Except.ok.injEq, Prod.mk.injEq] at hstart
    obtain ⟨rfl, rfl⟩ := hstart
    exact ⟨hrequest, by simp, by simp, by simp [hresult, settle, hz]⟩

theorem Step.destroy {sock : UInt64} (hs : Step s event next)
    (haction : event.action = .start (.destroy sock)) (hfinds : s.table.Finds sock) :
    event.output.result = none ∧ next.files = s.files ∧ next.table = s.table ∧
      ∃ ctx, next.running = some ctx ∧
        (next.contexts ctx).frame = .on (indexOf sock) .destroyClose := by
  obtain ⟨ctx, table, go, hrunning, hstart, rfl, -, hresult⟩ := hs.start haction
  have hz : sock ≠ MINIMK_SOCKET_INVALID := ne_zero_of_handleType hfinds.1
  simp only [Operation.start, Socket.destroy, onFound_eq, hfinds, hz, ↓reduceIte,
    Except.ok.injEq, Prod.mk.injEq] at hstart
  obtain ⟨rfl, rfl⟩ := hstart
  refine ⟨by simp [hresult, settle], by simp, by simp, ctx, by simpa using hrunning, ?_⟩
  rw [settle_frame_self]
  rfl

theorem Step.destroyed {info : InfoIdx} (h : s.Linked) (hs : Step s event next)
    (hframe : (s.contexts ctx).frame = .on info .destroyClose) :
    ∃ reply, event.action = .reply reply ∧
      event.output.request = some (.closesocket (s.table.sockets info).fd) ∧
      event.output.result = some ⟨reply.rv, MINIMK_SOCKET_INVALID, none⟩ ∧
      next.files = s.files.erase (s.table.sockets info).fd ∧
      next.table = s.table.infoForget info ∧ (next.contexts ctx).frame = .idle := by
  have hbusy := hs.busy (h.running_of_closing hframe) (by simp [hframe])
    (by simp [hframe, Point.awaits])
  obtain ⟨reply, request, files, table, go, haction, hout, hrequest, hkernel, hturn, rfl,
    hresult⟩ := hbusy
  rw [hframe] at hturn hrequest
  obtain rfl := Option.some.inj hrequest
  obtain rfl := Option.some.inj hkernel
  cases hturn with
  | destroyed =>
      refine ⟨reply, haction, hout, hresult, by simp, by simp, ?_⟩
      rw [settle_frame_self]
      rfl
  | again hpoint | done hpoint => exact absurd rfl hpoint

theorem Step.started {operation : Operation} (hs : Step s event next)
    (haction : event.action = .start operation) (hopening : operation.opening = true) :
    event.output.request = none ∧ next.files = s.files ∧ next.table = s.table := by
  obtain ⟨ctx, table, go, -, hstart, rfl, hrequest, -⟩ := hs.start haction
  refine ⟨hrequest, by simp, ?_⟩
  rw [settle_table]
  cases operation with
  | create domain type protocol =>
      simp only [Operation.start, Socket.create, Except.ok.injEq, Prod.mk.injEq] at hstart
      exact hstart.1.symm
  | accept sock =>
      simp only [Operation.start, Socket.accept, onFound_eq] at hstart
      split_ifs at hstart
      · obtain ⟨rfl, -⟩ : s.table = table ∧ _ = go := by simpa using hstart
        rfl
      · obtain ⟨rfl, -⟩ : s.table = table ∧ _ = go := by simpa using hstart
        rfl
  | _ => cases hopening

theorem settle_failed {serial : Nat} {go : Next} {result : Result}
    (h : (s.settle ctx serial table go).2 = some result) (hrv : result.rv ≠ .success) :
    result.handle = MINIMK_SOCKET_INVALID := by
  cases go with
  | call => cases h
  | done rv amount =>
      obtain rfl := Option.some.inj h
      rfl
  | issued info =>
      obtain rfl := Option.some.inj h
      exact absurd rfl hrv

theorem Step.failed {result : Result} (hs : Step s event next)
    (hresult : event.output.result = some result) (hrv : result.rv ≠ .success) :
    result.handle = MINIMK_SOCKET_INVALID := by
  cases hs.move with
  | runtime | suspended => cases hresult
  | resumed | started | replied => exact settle_failed hresult hrv

theorem Step.runtime {action : Runtime.Action} (h : s.Linked) (hs : Step s event next)
    (haction : event.action = .runtime action) :
    next.files = s.files ∧ next.table = s.table := by
  cases hs.move with
  | runtime => exact ⟨rfl, rfl⟩
  | resumed hstep hcurrent hframe hresume =>
      obtain ⟨info, point, direction, sock, hon, hawaits, -⟩ := h.awaits hstep hframe
      have hturn := Frame.resume_turn hframe hresume
      rw [hon] at hturn
      refine ⟨by simp, ?_⟩
      rw [settle_table]
      cases hturn with
      | destroyed => cases hawaits
      | _ => rfl
  | _ => cases haction

theorem Step.opening (hs : Step s event next) (hrunning : s.running = some ctx)
    (hopening : (s.contexts ctx).frame.opening = true) :
    next.table.sockets = s.table.sockets ∨
      ∃ info handle, (s.table.sockets info).handle = 0 ∧ handle ≠ MINIMK_SOCKET_INVALID ∧
        (next.table.sockets info).handle = handle ∧
        (∀ other, other ≠ info → next.table.sockets other = s.table.sockets other) ∧
        event.output.result = some ⟨.success, handle, none⟩ := by
  have hidle : (s.contexts ctx).frame ≠ .idle := by
    intro hidle
    simp [hidle, Frame.opening] at hopening
  have hmove := hs.move
  cases hmove with
  | runtime hidle' => exact absurd (hidle' ctx hrunning) hidle
  | resumed hstep => simp [running, (switched hstep).1] at hrunning
  | started hother hidle' =>
      obtain rfl := Option.some.inj (hrunning.symm.trans hother)
      exact absurd hidle' hidle
  | suspended => exact .inl rfl
  | replied hother hrequest hkernel hresume =>
      obtain rfl := Option.some.inj (hrunning.symm.trans hother)
      have hturn := Frame.resume_turn hidle hresume
      rw [settle_table]
      generalize (s.contexts ctx).frame = frame at hturn hopening
      cases hturn with
      | destroyed => cases hopening
      | full hsockets => exact .inl hsockets
      | @stored fd after info hfilled =>
          cases hfilled with
          | free hfree htype hindex hsockets =>
              refine .inr ⟨info, _, hfree, ne_zero_of_handleType htype, ?_, ?_, ?_⟩
              · simp [hsockets]
              · intro other hne
                simp [hsockets, hne]
              · simp [settle, hsockets]
      | _ => exact .inl rfl

-- Only a failed call of create or accept leads to the close of its descriptor.
theorem Step.abandons {fd : Int32} {rv : Error} (h : s.Linked) (hs : Step s event next)
    (hframe : (next.contexts ctx).frame = .opened fd (.closesocket rv)) :
    rv ≠ .success ∧ next.table.sockets = s.table.sockets ∧ next.files = s.files := by
  have hmove := hs.move
  cases hmove with
  | runtime hidle =>
      have hopened : (s.contexts ctx).frame = .opened fd (.closesocket rv) := hframe
      rw [hidle ctx (h.running_of_opened hopened)] at hopened
      cases hopened
  | @resumed action slot serial _ machine table go hstep hcurrent hidle hresume =>
      by_cases he : ctx = some slot
      · subst he
        rw [settle_frame_self] at hframe
        obtain ⟨info, point, direction, sock, hon, hawaits, -⟩ := h.awaits hstep hidle
        have hturn := Frame.resume_turn hidle hresume
        rw [hon] at hturn
        cases hturn <;> cases hframe
      · rw [settle_contexts_of_ne he] at hframe
        have hrunning := h.running_of_opened hframe
        simp [running, (switched hstep).1] at hrunning
  | @started other operation table go hrunning hidle hstart =>
      by_cases he : ctx = other
      · subst he
        rw [settle_frame_self] at hframe
        have hheld := (started_keeps (Operation.start_started hstart)).2
        rw [hframe] at hheld
        cases hheld
      · rw [settle_contexts_of_ne he] at hframe
        rw [h.running_of_opened hframe] at hrunning
        exact absurd (Option.some.inj hrunning) he
  | @replied other reply request files table go hrunning hrequest hkernel hresume =>
      by_cases he : ctx = other
      · subst he
        rw [settle_frame_self] at hframe
        have hturn := Frame.resume_turn (Frame.ne_idle_of_request hrequest) hresume
        generalize (s.contexts ctx).frame = frame at hturn hrequest
        cases hturn with
        | blocking hrv =>
            simp only [Next.frame, Frame.opened.injEq, OpenPoint.closesocket.injEq] at hframe
            obtain rfl := Option.some.inj hrequest
            obtain rfl := Option.some.inj hkernel
            obtain ⟨-, rfl⟩ := hframe
            exact ⟨hrv, by simp, by simp⟩
        | full hsockets =>
            simp only [Next.frame, Frame.opened.injEq, OpenPoint.closesocket.injEq] at hframe
            obtain rfl := Option.some.inj hrequest
            obtain rfl := Option.some.inj hkernel
            obtain ⟨-, rfl⟩ := hframe
            exact ⟨by decide, by simpa using hsockets, by simp⟩
        | _ => cases hframe
      · rw [settle_contexts_of_ne he] at hframe
        rw [h.running_of_opened hframe] at hrunning
        exact absurd (Option.some.inj hrunning) he
  | @suspended other _ _ _ _ _ _ machine hrunning hrequest hstep =>
      have hopened : (s.contexts ctx).frame = .opened fd (.closesocket rv) := hframe
      rw [h.running_of_opened hopened] at hrunning
      obtain rfl := Option.some.inj hrunning
      rw [hopened] at hrequest
      cases hrequest

theorem Step.closes {fd : Int32} {rv : Error} (h : s.Linked) (hs : Step s event next)
    (hframe : (s.contexts ctx).frame = .opened fd (.closesocket rv)) :
    event.output.request = some (.closesocket fd) ∧
      event.output.result = some ⟨rv, MINIMK_SOCKET_INVALID, none⟩ ∧
      next.files = s.files.erase fd ∧ next.table.sockets = s.table.sockets ∧
      (next.contexts ctx).frame = .idle := by
  obtain ⟨reply, request, files, table, go, -, hout, hrequest, hkernel, hturn, rfl, hresult⟩ :=
    hs.busy (h.running_of_opened hframe) (by simp [hframe]) (by simp [hframe])
  rw [hframe] at hturn hrequest
  obtain rfl := Option.some.inj hrequest
  obtain rfl := Option.some.inj hkernel
  cases hturn with
  | closed =>
      refine ⟨hout, hresult, by simp, by simp, ?_⟩
      rw [settle_frame_self]
      rfl

theorem Step.disposes (h : s.Linked) (hs : Step s event next) : Disposes s event next where
  stale := by
    intro sock haction hnone
    refine hs.stale haction fun hfinds => ?_
    exact hnone (indexOf sock) (infoFind_eq_some_iff.mpr ⟨hfinds, rfl⟩)
  destroy := by
    intro sock info haction hsome
    obtain ⟨hfinds, rfl⟩ := infoFind_eq_some_iff.mp hsome
    exact hs.destroy haction hfinds
  destroyed := fun ctx info hframe => hs.destroyed h hframe
  started := fun operation haction hopening => hs.started haction hopening
  failed := fun result hresult hrv => hs.failed hresult hrv
  runtime := fun action haction => hs.runtime h haction
  opening := fun ctx hrunning hopening => hs.opening hrunning hopening
  abandoned := by
    intro ctx fd rv hframe
    obtain ⟨hrv, hsockets, hfiles⟩ := hs.abandons h hframe
    refine ⟨hrv, hsockets, fun event' last hs' => ?_⟩
    obtain ⟨hrequest, hresult, herase, hsame, hidle⟩ := hs'.closes (hs.move.linked h) hframe
    exact ⟨hrequest, hresult, by rw [herase, hfiles], hsame.trans hsockets, hidle⟩

theorem Run.owned (h : Run log s) :
    Accounted log s ∧ ∀ event next, Step s event next → Disposes s event next :=
  ⟨h.accounts, fun _ _ hs => hs.disposes (Reachable.linked h.reachable)⟩

-- Main creates a socket, fails to create another one, and destroys the first one twice.
def destroyedTwice : List Action :=
  let created : Reply := ⟨.success, 5, 0, .success⟩
  let refused : Reply := ⟨.enobufs, 6, 0, .success⟩
  [.start (.create 2 1 0), .reply created, .reply created, .reply created,
    .start (.create 2 1 0), .reply { created with fd := 6 }, .reply refused, .reply created,
    .start (.destroy 0x100000000000000), .reply created, .start (.destroy 0x100000000000000)]

theorem Run.owned_destroyedTwice :
    Accounted (initial.history destroyedTwice) (initial.after destroyedTwice) ∧
      (initial.after destroyedTwice).files = ∅ ∧
      (initial.history destroyedTwice).countP (Event.closes 5) = 1 ∧
      (initial.history destroyedTwice).countP (Event.closes 6) = 1 :=
  ⟨(Run.owned (@after_run destroyedTwice rfl)).1, rfl, rfl, rfl⟩

end System

end Minimk.Socket
