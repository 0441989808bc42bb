import Minimk.Socket.Info.Theorems
import Minimk.Socket.Store

namespace Minimk.Socket.SocketTable

open Abort Integer Transition

variable {table next : SocketTable} {store : Registry UInt64 Entry} {idx : InfoIdx}
  {fd : Int32} {handle : UInt64} {log : List TableEvent}

-- The entry that a handle stands for in a table.
def lookup (table : SocketTable) (handle : UInt64) : Option Entry :=
  if handleType handle = HANDLE_TYPE_SOCKET ∧ (table.sockets (indexOf handle)).handle = handle
  then some (table.sockets (indexOf handle)).entry else none

-- Every stored handle was made at a position behind the cursor, for the slot it is in.
def Stored (table : SocketTable) : Prop :=
  ∀ idx, (table.sockets idx).handle ≠ 0 → ∃ pos < table.nextSlot.toNat,
    (table.sockets idx).handle.toNat = 2 ^ 56 + pos ∧ slotAt pos = idx

-- The table stands for a store: it keeps its entries, and issued handles lie behind the cursor.
structure Represents (table : SocketTable) (store : Registry UInt64 Entry) : Prop where
  cursor : table.Cursor
  stored : table.Stored
  entries : ∀ handle, store.entries handle = table.lookup handle
  issued : ∀ handle ∈ store.issued, ∃ pos < table.nextSlot.toNat, handle.toNat = 2 ^ 56 + pos

theorem handleType_at {pos : Nat} (h : handle.toNat = 2 ^ 56 + pos) (hb : pos < 2 ^ 56) :
    handleType handle = HANDLE_TYPE_SOCKET := by
  apply UInt8.toNat_inj.mp
  rw [toNat_handleType, h]
  change _ = 1
  omega

theorem indexOf_at {pos : Nat} (h : handle.toNat = 2 ^ 56 + pos) : indexOf handle = slotAt pos := by
  apply Fin.ext
  simp only [indexOf, slotAt, h]
  omega

theorem Stored.lookup_eq (h : table.Stored) (hb : table.nextSlot.toNat ≤ 2 ^ 56)
    (hne : (table.sockets idx).handle ≠ 0) :
    table.lookup (table.sockets idx).handle = some (table.sockets idx).entry := by
  obtain ⟨pos, hpos, hnat, hslot⟩ := h idx hne
  have hidx : indexOf (table.sockets idx).handle = idx := (indexOf_at hnat).trans hslot
  rw [lookup, hidx, if_pos ⟨handleType_at hnat (by omega), rfl⟩]

-- The zero handle of a free slot has the null type.
theorem ne_zero_of_handleType (h : handleType handle = HANDLE_TYPE_SOCKET) : handle ≠ 0 := by
  rintro rfl
  simp [handleType, HANDLE_TYPE_SOCKET] at h

theorem lookup_eq_some {entry : Entry} (h : table.lookup handle = some entry) :
    (table.sockets (indexOf handle)).handle = handle ∧
      entry = (table.sockets (indexOf handle)).entry ∧ handle ≠ 0 := by
  unfold lookup at h
  split_ifs at h with hl
  exact ⟨hl.2, (Option.some.inj h).symm, ne_zero_of_handleType hl.1⟩

-- The live handles are those of the taken slots, one for each.
theorem Represents.live_ncard (h : Represents table store) (hb : table.nextSlot.toNat ≤ 2 ^ 56) :
    store.live.ncard = {idx | (table.sockets idx).handle ≠ 0}.ncard := by
  have himage : store.live =
      (fun idx => (table.sockets idx).handle) '' {idx | (table.sockets idx).handle ≠ 0} := by
    ext handle
    simp only [Registry.live, Set.mem_ofPred_eq, h.entries, Set.mem_image]
    constructor
    · intro hlive
      obtain ⟨entry, he⟩ := Option.ne_none_iff_exists'.mp hlive
      obtain ⟨hstored, _, hne⟩ := lookup_eq_some he
      exact ⟨indexOf handle, by rwa [hstored], hstored⟩
    · rintro ⟨idx, hne, rfl⟩
      rw [h.stored.lookup_eq hb hne]
      simp
  rw [himage]
  refine Set.InjOn.ncard_image ?_
  intro i hi j hj he
  obtain ⟨pos, _, hnat, hslot⟩ := h.stored i hi
  obtain ⟨pos', _, hnat', hslot'⟩ := h.stored j hj
  have hnats : (table.sockets i).handle.toNat = (table.sockets j).handle.toNat :=
    congrArg UInt64.toNat he
  have hpos : pos = pos' := by omega
  rw [← hslot, ← hslot', hpos]

theorem Represents.live_full_iff (h : Represents table store)
    (hb : table.nextSlot.toNat ≤ 2 ^ 56) :
    store.live.ncard = 256 ↔ ∀ idx, (table.sockets idx).handle ≠ 0 := by
  have hcard : Nat.card InfoIdx = 256 := Nat.card_eq_fintype_card.trans (Fintype.card_fin _)
  rw [h.live_ncard hb, ← hcard, ← Set.eq_univ_iff_ncard, Set.eq_univ_iff_forall]
  exact Iff.rfl

theorem Represents.live_le (h : Represents table store) (hb : table.nextSlot.toNat ≤ 2 ^ 56) :
    store.live.ncard ≤ 256 := by
  have hcard : Nat.card InfoIdx = 256 := Nat.card_eq_fintype_card.trans (Fintype.card_fin _)
  rw [h.live_ncard hb, ← hcard]
  exact Set.ncard_le_card _

theorem zero_represents : Represents zero Registry.empty where
  cursor := rfl
  stored := fun idx hne => absurd rfl hne
  entries := by
    intro handle
    unfold lookup
    rw [if_neg]
    · rfl
    · rintro ⟨htype, hz⟩
      exact ne_zero_of_handleType htype hz.symm
  issued := by
    intro handle hmem
    exact absurd hmem (Set.notMem_empty _)

-- Changing an entry in its place changes what its own handle stands for.
theorem Stored.lookup_set (h : table.Stored) (hb : table.nextSlot.toNat ≤ 2 ^ 56)
    (hne : (table.sockets idx).handle ≠ 0) {info : SocketInfo}
    (hinfo : info.handle = (table.sockets idx).handle) (other : UInt64) :
    (table.set idx info).lookup other =
      Function.update table.lookup (table.sockets idx).handle (some info.entry) other := by
  obtain ⟨pos, hpos, hnat, hslot⟩ := h idx hne
  have hidx : indexOf (table.sockets idx).handle = idx := (indexOf_at hnat).trans hslot
  by_cases ho : other = (table.sockets idx).handle
  · subst ho
    simp only [lookup, set_sockets, hidx, Function.update_self, hinfo]
    rw [if_pos ⟨handleType_at hnat (by omega), trivial⟩]
  · rw [Function.update_of_ne ho]
    by_cases hi : indexOf other = idx
    · simp only [lookup, set_sockets, hi, Function.update_self, hinfo]
      rw [if_neg fun hl => ho hl.2.symm, if_neg fun hl => ho hl.2.symm]
    · simp only [lookup, set_sockets, Function.update_of_ne hi]

theorem Represents.modify (h : Represents table store) (hb : table.nextSlot.toNat ≤ 2 ^ 56)
    (hne : (table.sockets idx).handle ≠ 0) {info : SocketInfo}
    (hinfo : info.handle = (table.sockets idx).handle) :
    Represents (table.set idx info) (store.put (table.sockets idx).handle (some info.entry)) where
  cursor := h.cursor
  stored := by
    intro i hi
    by_cases he : i = idx
    · subst he
      simp only [set_sockets, Function.update_self, hinfo] at hi ⊢
      exact h.stored i hi
    · simp only [set_sockets, Function.update_of_ne he] at hi ⊢
      exact h.stored i hi
  entries := by
    intro other
    rw [h.stored.lookup_set hb hne hinfo]
    by_cases ho : other = (table.sockets idx).handle
    · simp [Registry.put, ho]
    · simp [Registry.put, ho, h.entries]
  issued := h.issued

theorem Represents.forget (h : Represents table store)
    (hne : (table.sockets idx).handle ≠ 0) :
    Represents (table.infoForget idx) (store.put (table.sockets idx).handle none) := by
  obtain ⟨pos, hpos, hnat, hslot⟩ := h.stored idx hne
  have hidx : indexOf (table.sockets idx).handle = idx := (indexOf_at hnat).trans hslot
  refine ⟨h.cursor, ?_, ?_, h.issued⟩
  · intro i hi
    by_cases he : i = idx
    · subst he
      simp [infoForget, SocketInfo.zero] at hi
    · simp only [infoForget, set_sockets, Function.update_of_ne he] at hi ⊢
      exact h.stored i hi
  · intro other
    by_cases ho : other = (table.sockets idx).handle
    · subst ho
      simp only [Registry.put, Function.update_self, lookup, infoForget, set_sockets, hidx]
      rw [if_neg fun hl => hne hl.2.symm]
    · simp only [Registry.put, Function.update_of_ne ho, h.entries]
      by_cases hi : indexOf other = idx
      · simp only [lookup, infoForget, set_sockets, hi, Function.update_self]
        rw [if_neg fun hl => ho hl.2.symm, if_neg]
        rintro ⟨htype, hz⟩
        exact ne_zero_of_handleType htype hz.symm
      · simp only [lookup, infoForget, set_sockets, Function.update_of_ne hi]

-- Moving the cursor without touching an entry keeps what the table stands for.
theorem Represents.moved (h : Represents table store) (hsockets : next.sockets = table.sockets)
    (hcursor : next.Cursor) (hnext : table.nextSlot.toNat ≤ next.nextSlot.toNat) :
    Represents next store where
  cursor := hcursor
  stored := by
    intro i hi
    rw [hsockets] at hi ⊢
    obtain ⟨pos, hpos, hat⟩ := h.stored i hi
    exact ⟨pos, by omega, hat⟩
  entries := by
    intro other
    rw [h.entries, lookup, lookup, hsockets]
  issued := by
    intro other hmem
    obtain ⟨pos, hpos, hnat⟩ := h.issued other hmem
    exact ⟨pos, by omega, hnat⟩

theorem Represents.created (h : Represents table store) {pos : Nat}
    (hb : pos < 2 ^ 56) (hcursor : next.Cursor) (hnext : next.nextSlot.toNat = pos + 1)
    (hfrom : table.nextSlot.toNat ≤ pos) (hfree : (table.sockets (slotAt pos)).handle = 0)
    (hhandle : handle.toNat = 2 ^ 56 + pos)
    (hsockets : next.sockets = Function.update table.sockets (slotAt pos)
      ⟨handle, UINT64_MAX, UINT64_MAX, fd⟩) :
    Represents next (store.issue handle ⟨fd, UINT64_MAX, UINT64_MAX⟩) where
  cursor := hcursor
  stored := by
    intro i hi
    rw [hsockets] at hi ⊢
    by_cases he : i = slotAt pos
    · subst he
      exact ⟨pos, by omega, by simpa using hhandle, rfl⟩
    · rw [Function.update_of_ne he] at hi ⊢
      obtain ⟨older, holder, hat⟩ := h.stored i hi
      exact ⟨older, by omega, hat⟩
  entries := by
    intro other
    by_cases ho : other = handle
    · subst ho
      simp only [Registry.issue, Function.update_self, lookup, indexOf_at hhandle, hsockets]
      rw [if_pos ⟨handleType_at hhandle hb, trivial⟩]
      rfl
    · simp only [Registry.issue, Function.update_of_ne ho, h.entries]
      by_cases hi : indexOf other = slotAt pos
      · simp only [lookup, hsockets, hi, Function.update_self, hfree]
        rw [if_neg fun hl => ne_zero_of_handleType hl.1 hl.2.symm, if_neg fun hl => ho hl.2.symm]
      · simp only [lookup, hsockets, Function.update_of_ne hi]
  issued := by
    intro other hmem
    rcases Set.mem_insert_iff.mp hmem with rfl | hmem
    · exact ⟨pos, by omega, hhandle⟩
    · obtain ⟨older, holder, hnat⟩ := h.issued other hmem
      exact ⟨older, by omega, hnat⟩

-- A handle above every issued one is fresh.
theorem Represents.fresh (h : Represents table store) {pos : Nat}
    (hfrom : table.nextSlot.toNat ≤ pos) (hhandle : handle.toNat = 2 ^ 56 + pos) :
    handle ∉ store.issued := by
  intro hmem
  obtain ⟨older, holder, hnat⟩ := h.issued handle hmem
  omega

-- How far a call may move the cursor.
def TableAction.reach : TableAction → Nat
  | .create _ => 256
  | _ => 0

inductive Outcome (table : SocketTable) (store : Registry UInt64 Entry) (action : TableAction) :
    SocketTable → TableOutput → Prop
  | mk {next : SocketTable} {output : TableOutput} {after : Registry UInt64 Entry}
      (hstep : Registry.Step 256 store (TableEvent.label ⟨action, output⟩) after)
      (hrep : Represents next after)
      (hnext : next.nextSlot.toNat ≤ table.nextSlot.toNat + TableAction.reach action) :
      Outcome table store action next output

theorem Represents.create (h : Represents table store) (fd : Int32)
    (hb : table.nextSlot.toNat + 256 ≤ 2 ^ 56) :
    ∃ next output, table.exec (.create fd) = .ok (next, output) ∧
      Outcome table store (.create fd) next output := by
  obtain ⟨next, found, hrun, hs⟩ := @infoCreate_searched table fd h.cursor hb
  have hfull := hs.full_iff
  cases hs with
  | full hsockets hcursor hnext _ =>
      refine ⟨next, .failed .emfile, by simp [exec, hrun], .mk (.full ?_) ?_ ?_⟩
      · exact (h.live_full_iff (by omega)).mpr (hfull.mp rfl)
      · exact h.moved hsockets hcursor (by omega)
      · exact Nat.le_of_eq hnext
  | free pos handle hcursor hnext hfrom hto hfree hhandle hsockets =>
      have hroom : store.live.ncard < 256 := by
        refine lt_of_le_of_ne (h.live_le (by omega)) ?_
        intro hn
        exact (h.live_full_iff (by omega)).mp hn _ hfree
      refine ⟨next, .created handle, by simp [exec, hrun, hsockets], .mk (.issue ?_ hroom) ?_ ?_⟩
      · exact h.fresh hfrom hhandle
      · exact h.created (by omega) hcursor hnext hfrom hfree hhandle hsockets
      · simp only [TableAction.reach]
        omega

-- A call on a handle finds the entry that the store holds for it, or none.
theorem Represents.find (h : Represents table store) (handle : UInt64) :
    (store.entries handle = none ∧ table.infoFind handle = .ok (.ebadf, none)) ∨
      ∃ idx, store.entries handle = some (table.sockets idx).entry ∧
        (table.sockets idx).handle = handle ∧ handle ≠ 0 ∧
        table.infoFind handle = .ok (.success, some idx) := by
  rw [h.entries, infoFind_eq]
  cases hl : table.lookup handle with
  | none =>
      refine .inl ⟨rfl, ?_⟩
      unfold lookup at hl
      split_ifs at hl with hc
      rw [if_neg hc]
  | some entry =>
      obtain ⟨hstored, rfl, hne⟩ := lookup_eq_some hl
      refine .inr ⟨indexOf handle, rfl, hstored, hne, ?_⟩
      unfold lookup at hl
      split_ifs at hl with hc
      rw [if_pos hc]

theorem Represents.exec (h : Represents table store) (action : TableAction)
    (hb : table.nextSlot.toNat + TableAction.reach action ≤ 2 ^ 56) :
    ∃ next output, table.exec action = .ok (next, output) ∧
      Outcome table store action next output := by
  cases action with
  | create fd => exact h.create fd hb
  | find handle =>
      rcases h.find handle with ⟨hnone, hfind⟩ | ⟨idx, hsome, rfl, _, hfind⟩
      · exact ⟨table, .failed .ebadf, by simp [SocketTable.exec, hfind], .mk (.miss hnone) h le_rfl⟩
      · exact ⟨table, .found (table.sockets idx), by simp [SocketTable.exec, hfind],
          .mk (.hit hsome) h le_rfl⟩
  | setReadTimeout handle nanosec =>
      rcases h.find handle with ⟨hnone, hfind⟩ | ⟨idx, hsome, rfl, hne, hfind⟩
      · exact ⟨table, .failed .ebadf,
          by simp [SocketTable.exec, setReadTimeout, outcomeOf, hfind], .mk (.miss hnone) h le_rfl⟩
      · exact ⟨table.set idx { table.sockets idx with readTimeout := nanosec }, .done,
          by simp [SocketTable.exec, setReadTimeout, outcomeOf, hfind],
          .mk (.modify hsome) (h.modify hb hne rfl) le_rfl⟩
  | setWriteTimeout handle nanosec =>
      rcases h.find handle with ⟨hnone, hfind⟩ | ⟨idx, hsome, rfl, hne, hfind⟩
      · exact ⟨table, .failed .ebadf,
          by simp [SocketTable.exec, setWriteTimeout, outcomeOf, hfind], .mk (.miss hnone) h le_rfl⟩
      · exact ⟨table.set idx { table.sockets idx with writeTimeout := nanosec }, .done,
          by simp [SocketTable.exec, setWriteTimeout, outcomeOf, hfind],
          .mk (.modify hsome) (h.modify hb hne rfl) le_rfl⟩
  | forget handle =>
      rcases h.find handle with ⟨hnone, hfind⟩ | ⟨idx, hsome, rfl, hne, hfind⟩
      · exact ⟨table, .failed .ebadf, by simp [SocketTable.exec, hfind], .mk (.miss hnone) h le_rfl⟩
      · exact ⟨table.infoForget idx, .done, by simp [SocketTable.exec, hfind],
          .mk (.drop hsome) (h.forget hne) le_rfl⟩

theorem Step.simulates {event : TableEvent} (h : Represents table store)
    (hb : table.nextSlot.toNat + TableAction.reach event.action ≤ 2 ^ 56)
    (hs : Step table event next) :
    ∃ after, Registry.Step 256 store event.label after ∧ Represents next after ∧
      next.nextSlot.toNat ≤ table.nextSlot.toNat + TableAction.reach event.action := by
  obtain ⟨action, output⟩ := event
  obtain ⟨next', output', hrun, hout⟩ := h.exec action hb
  have hs : table.exec action = .ok (next, output) := hs
  obtain ⟨rfl, rfl⟩ : next' = next ∧ output' = output := by simpa [hrun] using hs
  cases hout with
  | mk hstep hrep hnext => exact ⟨_, hstep, hrep, hnext⟩

theorem reach_le {event : TableEvent} {count total : Nat}
    (h : total = count + if event.creates then 1 else 0) :
    256 * count + TableAction.reach event.action = 256 * total := by
  obtain ⟨action, output⟩ := event
  cases action <;> simp [TableEvent.creates, TableAction.reach] at h ⊢ <;> omega

-- Along a run with few enough creations the table does what a store of fresh handles does.
theorem Run.simulates (h : Run log table) (hcount : log.countP TableEvent.creates ≤ 2 ^ 48) :
    ∃ store, Transition.Run Registry.Initial (Registry.Step 256) (log.map TableEvent.label) store ∧
      Represents table store ∧
      table.nextSlot.toNat ≤ 256 * log.countP TableEvent.creates := by
  revert hcount
  refine Transition.Run.invariant_from (P := fun log table =>
    log.countP TableEvent.creates ≤ 2 ^ 48 →
      ∃ store, Transition.Run Registry.Initial (Registry.Step 256) (log.map TableEvent.label)
          store ∧ Represents table store ∧
        table.nextSlot.toNat ≤ 256 * log.countP TableEvent.creates) ?_ ?_ h
  · intro _
    exact ⟨Registry.empty, Transition.Run.start rfl, zero_represents, Nat.zero_le _⟩
  · intro log state event next _ ih hs hcount
    have htotal : (event :: log).countP TableEvent.creates =
        log.countP TableEvent.creates + if event.creates then 1 else 0 := List.countP_cons
    obtain ⟨store, hrun, hrep, hb⟩ := ih (by omega)
    have hreach := reach_le htotal
    obtain ⟨after, hstep, hrep', hb'⟩ := hs.simulates hrep (by omega)
    exact ⟨after, hrun.snoc hstep, hrep', by omega⟩

theorem countP_issues (log : List TableEvent) (handle : UInt64) :
    log.countP (TableEvent.issues handle) =
      (log.map TableEvent.label).countP (Registry.Label.issues handle) := by
  rw [List.countP_map]
  refine List.countP_congr fun event _ => ?_
  obtain ⟨action, output⟩ := event
  cases action <;> cases output <;> rfl

section Store

variable
  (hrun : Transition.Run Registry.Initial (Registry.Step 256) (log.map TableEvent.label) store)
  (hrep : Represents table store)

include hrun hrep

theorem issues_zero_eq_false {event : TableEvent} (he : event ∈ log) : event.issues 0 = false := by
  by_contra hi
  have honce := Registry.Run.once hrun 0
  have hpos : 0 < (log.map TableEvent.label).countP (Registry.Label.issues 0) := by
    rw [← countP_issues]
    exact List.countP_pos_iff.mpr ⟨event, he, by simpa using hi⟩
  have hmem : (0 : UInt64) ∈ store.issued := by
    by_contra hn
    rw [honce.2 hn] at hpos
    exact absurd hpos (lt_irrefl 0)
  obtain ⟨pos, _, hnat⟩ := hrep.issued 0 hmem
  have hzero : (0 : UInt64).toNat = 0 := rfl
  omega

theorem infoFind_of_entryOf {entry : Entry}
    (he : Registry.entryOf handle (log.map TableEvent.label) = some entry) :
    ∃ idx, table.infoFind handle = .ok (.success, some idx) ∧
      (table.sockets idx).handle = handle ∧ (table.sockets idx).entry = entry := by
  rw [← Registry.Run.entryOf hrun handle] at he
  rcases hrep.find handle with ⟨hnone, _⟩ | ⟨idx, hsome, hstored, _, hfind⟩
  · rw [he] at hnone
    cases hnone
  · rw [he] at hsome
    exact ⟨idx, hfind, hstored, (Option.some.inj hsome).symm⟩

theorem infoFind_of_entryOf_eq_none
    (he : Registry.entryOf handle (log.map TableEvent.label) = none) :
    table.infoFind handle = .ok (.ebadf, none) := by
  rw [← Registry.Run.entryOf hrun handle] at he
  rcases hrep.find handle with ⟨_, hfind⟩ | ⟨idx, hsome, _, _, _⟩
  · exact hfind
  · rw [he] at hsome
    cases hsome

theorem infoFind_of_forgotten {newer older : List TableEvent}
    (hlog : log = newer ++ ⟨.forget handle, .done⟩ :: older) :
    table.infoFind handle = .ok (.ebadf, none) := by
  have hlabels : log.map TableEvent.label =
      newer.map TableEvent.label ++ .drop handle :: older.map TableEvent.label := by
    simp [hlog, TableEvent.label]
  have hdead : store.entries handle = none := by
    rw [hlabels] at hrun
    exact Registry.Run.entries_dropped hrun (by simp [Registry.Label.drops])
  rw [Registry.Run.entryOf hrun] at hdead
  exact infoFind_of_entryOf_eq_none hrun hrep hdead

theorem infoCreate_full_iff (fd : Int32) (hb : table.nextSlot.toNat + 256 ≤ 2 ^ 56) :
    ∃ rv found next, table.infoCreate fd = .ok (rv, found, next) ∧
      (rv = .emfile ↔
        {handle | Registry.entryOf handle (log.map TableEvent.label) ≠ none}.ncard = 256) ∧
      (rv = .emfile → found = none ∧ next.sockets = table.sockets) := by
  obtain ⟨next, found, hcreate, hs⟩ := @infoCreate_searched table fd hrep.cursor hb
  have hlive : store.live =
      {handle | Registry.entryOf handle (log.map TableEvent.label) ≠ none} := by
    ext handle
    simp only [Registry.live, Set.mem_ofPred_eq, Registry.Run.entryOf hrun]
  refine ⟨_, found, next, hcreate, ?_, ?_⟩
  · rw [← hlive, hrep.live_full_iff (by omega), ← hs.full_iff]
    cases found <;> simp
  · intro hrv
    have hnone : found = none := by
      cases found with
      | none => rfl
      | some idx => simp at hrv
    subst hnone
    cases hs with
    | full hsockets _ _ _ => exact ⟨rfl, hsockets⟩

end Store

theorem Run.never_reissued (h : Run log table)
    (hcount : log.countP TableEvent.creates ≤ 2 ^ 48) :
    (∃ store, Transition.Run Registry.Initial (Registry.Step 256) (log.map TableEvent.label) store ∧
      ∀ handle, store.entries handle = table.lookup handle) ∧
    (∀ handle, log.countP (TableEvent.issues handle) ≤ 1) ∧
    (∀ event ∈ log, event.issues 0 = false) ∧
    (∀ handle entry, Registry.entryOf handle (log.map TableEvent.label) = some entry →
      ∃ idx, table.infoFind handle = .ok (.success, some idx) ∧
        (table.sockets idx).handle = handle ∧ (table.sockets idx).entry = entry) ∧
    (∀ handle, Registry.entryOf handle (log.map TableEvent.label) = none →
      table.infoFind handle = .ok (.ebadf, none)) ∧
    (∀ newer older handle, log = newer ++ ⟨.forget handle, .done⟩ :: older →
      table.infoFind handle = .ok (.ebadf, none)) ∧
    (∀ action output, (⟨action, output⟩ :: log).countP TableEvent.creates ≤ 2 ^ 48 →
      ∃ next output, table.exec action = .ok (next, output)) ∧
    (∀ fd, log.countP TableEvent.creates + 1 ≤ 2 ^ 48 →
      ∃ rv found next, table.infoCreate fd = .ok (rv, found, next) ∧
        (rv = .emfile ↔
          {handle | Registry.entryOf handle (log.map TableEvent.label) ≠ none}.ncard = 256) ∧
        (rv = .emfile → found = none ∧ next.sockets = table.sockets)) := by
  obtain ⟨store, hrun, hrep, hb⟩ := Run.simulates h hcount
  refine ⟨⟨store, hrun, hrep.entries⟩, ?_, ?_, ?_, ?_, ?_, ?_, ?_⟩
  · intro handle
    rw [countP_issues]
    exact (Registry.Run.once hrun handle).le_one
  · exact fun event he => issues_zero_eq_false hrun hrep he
  · exact fun handle entry he => infoFind_of_entryOf hrun hrep he
  · exact fun handle he => infoFind_of_entryOf_eq_none hrun hrep he
  · exact fun newer older handle hlog => infoFind_of_forgotten hrun hrep hlog
  · intro action output ha
    have hreach : 256 * log.countP TableEvent.creates + TableAction.reach action =
        256 * (⟨action, output⟩ :: log).countP TableEvent.creates :=
      @reach_le ⟨action, output⟩ _ _ List.countP_cons
    have hroom : table.nextSlot.toNat + TableAction.reach action ≤ 2 ^ 56 := by omega
    obtain ⟨next, output, hexec, _⟩ := hrep.exec action hroom
    exact ⟨next, output, hexec⟩
  · exact fun fd hfd => infoCreate_full_iff hrun hrep fd (by omega)

-- A handle is created, gets a timeout and is forgotten; another one has been created by then, and
-- a third one comes after it. The search does not come back to the first slot this soon.
def forgottenSocket : List TableAction :=
  [.create 3, .setReadTimeout 0x100000000000000 50, .create 4, .forget 0x100000000000000,
    .create 5]

theorem Run.never_reissued_forgottenSocket :
    (outcome perform forgottenSocket zero).2.infoFind 0x100000000000000 = .ok (.ebadf, none) ∧
      ∃ idx, (outcome perform forgottenSocket zero).2.infoFind 0x100000000000002 =
        .ok (.success, some idx) := by
  have hrun := @outcome_run forgottenSocket rfl
  obtain ⟨-, -, -, hfound, -, hforgotten, -⟩ := Run.never_reissued hrun (by decide)
  constructor
  · exact hforgotten ((outcome perform forgottenSocket zero).1.take 1)
      ((outcome perform forgottenSocket zero).1.drop 2) _ rfl
  · have hentry : Registry.entryOf 0x100000000000002 ((outcome perform forgottenSocket zero).1.map
        TableEvent.label) = some ⟨5, UINT64_MAX, UINT64_MAX⟩ := rfl
    obtain ⟨idx, hfind, -⟩ := hfound _ _ hentry
    exact ⟨idx, hfind⟩

end Minimk.Socket.SocketTable
