import Minimk.Socket.Handle.Theorems
import Minimk.Socket.Info

namespace Minimk.Socket.SocketTable

open Abort Integer

variable {table next : SocketTable} {idx : InfoIdx} {fd : Int32}

@[simp] theorem set_sockets (table : SocketTable) (idx : InfoIdx) (info : SocketInfo) :
    (table.set idx info).sockets = Function.update table.sockets idx info := rfl

@[simp] theorem set_nextSlot (table : SocketTable) (idx : InfoIdx) (info : SocketInfo) :
    (table.set idx info).nextSlot = table.nextSlot := rfl

@[simp] theorem set_generation (table : SocketTable) (idx : InfoIdx) (info : SocketInfo) :
    (table.set idx info).generation = table.generation := rfl

@[simp] theorem advance_sockets (table : SocketTable) : table.advance.sockets = table.sockets := rfl

theorem infoGet_eq_ok {pos : UInt64} (h : pos.toNat < 256) : infoGet pos = .ok ⟨pos.toNat, h⟩ := by
  simp [infoGet, h]

-- The entry that a handle names, whether or not the handle is stored there.
def indexOf (handle : UInt64) : InfoIdx :=
  ⟨handle.toNat % 256, Nat.mod_lt _ (by decide)⟩

theorem infoFind_eq (table : SocketTable) (handle : UInt64) :
    table.infoFind handle =
      if handleType handle = HANDLE_TYPE_SOCKET ∧ (table.sockets (indexOf handle)).handle = handle
      then .ok (.success, some (indexOf handle)) else .ok (.ebadf, none) := by
  have hget : infoGet (handleIndex handle) = .ok (indexOf handle) := by
    have hindex := toNat_handleIndex handle
    rw [infoGet_eq_ok (by rw [hindex]; exact Nat.mod_lt _ (by decide))]
    congr 1
    exact Fin.ext hindex
  unfold infoFind
  by_cases htype : handleType handle = HANDLE_TYPE_SOCKET
  · by_cases hstored : (table.sockets (indexOf handle)).handle = handle <;>
      simp [htype, hget, hstored]
  · simp [htype]

-- The generation is what the cursor has left behind in full turns of the table.
def Cursor (table : SocketTable) : Prop :=
  table.generation.toNat = table.nextSlot.toNat / 256

-- The slot that the cursor visits at a position.
def slotAt (pos : Nat) : InfoIdx := ⟨pos % 256, Nat.mod_lt _ (by decide)⟩

theorem toNat_advance_nextSlot (h : table.nextSlot.toNat + 1 < 2 ^ 64) :
    table.advance.nextSlot.toNat = table.nextSlot.toNat + 1 := by
  have hone : (1 : UInt64).toNat = 1 := rfl
  change (table.nextSlot + 1).toNat = _
  rw [UInt64.toNat_add, hone]
  omega

theorem Cursor.advance (h : table.Cursor) (hb : table.nextSlot.toNat + 1 < 2 ^ 64) :
    table.advance.Cursor := by
  have hnext := toNat_advance_nextSlot hb
  have hbound : table.nextSlot.toNat / 256 + 1 < 2 ^ 64 := by omega
  have htwo : (2 : UInt64).toNat = 2 := rfl
  have hsize : (256 : UInt64).toNat = 256 := rfl
  have hone : (1 : UInt64).toNat = 1 := rfl
  unfold Cursor at *
  rw [hnext]
  change (if table.advance.nextSlot ≥ 2 ∧ table.advance.nextSlot % 256 = 0
    then table.generation + 1 else table.generation).toNat = _
  have hcond : table.advance.nextSlot ≥ 2 ∧ table.advance.nextSlot % 256 = 0 ↔
      (table.nextSlot.toNat + 1) % 256 = 0 := by
    rw [ge_iff_le, UInt64.le_iff_toNat_le, ← UInt64.toNat_inj, UInt64.toNat_mod, hnext, htwo, hsize]
    change _ ∧ (table.nextSlot.toNat + 1) % 256 = 0 ↔ _
    omega
  split_ifs with hc
  · have hm := hcond.mp hc
    rw [UInt64.toNat_add, hone, h]
    omega
  · have hm := hcond.not.mp hc
    rw [h]
    omega

-- What a search of some slots comes to: all of them taken, or the first free one filled.
inductive Searched (table : SocketTable) (fd : Int32) (count : Nat) :
    SocketTable → Option InfoIdx → Prop
  | full {next : SocketTable} (hsockets : next.sockets = table.sockets) (hcursor : next.Cursor)
      (hnext : next.nextSlot.toNat = table.nextSlot.toNat + count)
      (htaken : ∀ offset < count,
        (table.sockets (slotAt (table.nextSlot.toNat + offset))).handle ≠ 0) :
      Searched table fd count next none
  | free {next : SocketTable} (pos : Nat) (handle : UInt64) (hcursor : next.Cursor)
      (hnext : next.nextSlot.toNat = pos + 1) (hfrom : table.nextSlot.toNat ≤ pos)
      (hto : pos < table.nextSlot.toNat + count)
      (hfree : (table.sockets (slotAt pos)).handle = 0) (hhandle : handle.toNat = 2 ^ 56 + pos)
      (hsockets : next.sockets = Function.update table.sockets (slotAt pos)
        ⟨handle, UINT64_MAX, UINT64_MAX, fd⟩) :
      Searched table fd count next (some (slotAt pos))

theorem infoCreateLoop_some (count : Nat) (table : SocketTable) (idx : InfoIdx) :
    infoCreateLoop fd count table (some idx) = .ok (table, some idx) := by
  cases count <;> rfl

theorem toNat_slotIndex (table : SocketTable) :
    (table.nextSlot % 256).toNat = table.nextSlot.toNat % 256 := by
  rw [UInt64.toNat_mod]
  rfl

-- The handle made at a position is the position above the type.
theorem makeHandle_at {generation pos : UInt64} (hg : generation.toNat = pos.toNat / 256)
    (hb : pos.toNat < 2 ^ 56) :
    ∃ handle, makeHandle HANDLE_TYPE_SOCKET generation (pos % 256).toUInt8 = .ok handle ∧
      handle.toNat = 2 ^ 56 + pos.toNat := by
  have hmod : (pos % 256).toNat = pos.toNat % 256 := by
    rw [UInt64.toNat_mod]
    rfl
  have hindex : (pos % 256).toUInt8.toNat = pos.toNat % 256 := by
    rw [UInt64.toNat_toUInt8, hmod]
    omega
  have htype : HANDLE_TYPE_SOCKET.toNat = 1 := rfl
  obtain ⟨handle, hok, hnat⟩ :=
    @makeHandle_eq_ok HANDLE_TYPE_SOCKET generation (pos % 256).toUInt8 (by omega)
  refine ⟨handle, hok, ?_⟩
  rw [hnat, hindex, hg, htype]
  omega

theorem infoCreateLoop_searched (count : Nat) (h : table.Cursor)
    (hb : table.nextSlot.toNat + count ≤ 2 ^ 56) :
    ∃ next found, infoCreateLoop fd count table none = .ok (next, found) ∧
      Searched table fd count next found := by
  induction count generalizing table with
  | zero =>
      exact ⟨table, none, rfl, .full rfl h rfl (by simp)⟩
  | succ count ih =>
      have hslot := toNat_slotIndex table
      have hlt : (table.nextSlot % 256).toNat < 256 := by omega
      have hidx : (⟨(table.nextSlot % 256).toNat, hlt⟩ : InfoIdx) = slotAt table.nextSlot.toNat :=
        Fin.ext hslot
      have hnext := toNat_advance_nextSlot (show table.nextSlot.toNat + 1 < 2 ^ 64 by omega)
      have hcursor := h.advance (by omega)
      simp only [infoCreateLoop, infoGet_eq_ok hlt, ok_bind, hidx]
      by_cases hfree : (table.sockets (slotAt table.nextSlot.toNat)).handle = 0
      · have hassert : table.nextSlot % 256 ≤ 255 := by
          rw [UInt64.le_iff_toNat_le]
          change _ ≤ 255
          omega
        obtain ⟨handle, hok, hnat⟩ := makeHandle_at h (by omega)
        simp only [hfree, ↓reduceIte, assert_of_true hassert, ok_bind, hok, infoCreateLoop_some]
        refine ⟨_, _, rfl, .free table.nextSlot.toNat handle ?_ ?_ (by omega) (by omega) hfree hnat
          rfl⟩
        · exact hcursor
        · exact hnext
      · simp only [hfree, ↓reduceIte]
        obtain ⟨next, found, hrun, hs⟩ := ih hcursor (by omega)
        refine ⟨next, found, hrun, ?_⟩
        cases hs with
        | full hsockets hcursor' hnext' htaken =>
            refine .full hsockets hcursor' (by omega) ?_
            intro offset ho
            cases offset with
            | zero => exact hfree
            | succ offset =>
                have ht := htaken offset (by omega)
                rw [hnext] at ht
                have hpos : table.nextSlot.toNat + 1 + offset =
                    table.nextSlot.toNat + (offset + 1) := by omega
                rwa [hpos] at ht
        | free pos handle hcursor' hnext' hfrom hto hfree' hhandle hsockets =>
            exact .free pos handle hcursor' hnext' (by omega) (by omega) hfree' hhandle hsockets

-- A full turn visits every slot.
theorem slotAt_surjective (pos : Nat) (idx : InfoIdx) :
    ∃ offset < 256, slotAt (pos + offset) = idx := by
  refine ⟨(idx.val + (256 - pos % 256)) % 256, Nat.mod_lt _ (by decide), ?_⟩
  apply Fin.ext
  have hidx := idx.isLt
  simp only [slotAt, MAX_SOCKETS] at *
  omega

theorem infoCreate_searched (h : table.Cursor) (hb : table.nextSlot.toNat + 256 ≤ 2 ^ 56) :
    ∃ next found, table.infoCreate fd =
        .ok (if found = none then .emfile else .success, found, next) ∧
      Searched table fd 256 next found := by
  obtain ⟨next, found, hrun, hs⟩ := @infoCreateLoop_searched table fd 256 h hb
  refine ⟨next, found, ?_, hs⟩
  have hsize : MAX_SOCKETS = 256 := rfl
  simp only [infoCreate, hsize, hrun, ok_bind]
  cases found <;> simp

theorem Searched.full_iff {found : Option InfoIdx} (h : Searched table fd 256 next found) :
    found = none ↔ ∀ idx, (table.sockets idx).handle ≠ 0 := by
  cases h with
  | full _ _ _ htaken =>
      refine ⟨fun _ idx => ?_, fun _ => rfl⟩
      obtain ⟨offset, ho, rfl⟩ := slotAt_surjective table.nextSlot.toNat idx
      exact htaken offset ho
  | free pos handle _ _ _ _ hfree _ _ =>
      constructor
      · intro hn
        cases hn
      · intro hall
        exact absurd hfree (hall _)

-- What a search does to the entries, wherever the cursor is: nothing, or it fills a free one with
-- a handle that leads back to it.
inductive Filled (table : SocketTable) (fd : Int32) : SocketTable → Option InfoIdx → Prop
  | full {next : SocketTable} (hsockets : next.sockets = table.sockets) : Filled table fd next none
  | free {next : SocketTable} {idx : InfoIdx} {handle : UInt64}
      (hfree : (table.sockets idx).handle = 0) (htype : handleType handle = HANDLE_TYPE_SOCKET)
      (hindex : indexOf handle = idx)
      (hsockets : next.sockets = Function.update table.sockets idx
        ⟨handle, UINT64_MAX, UINT64_MAX, fd⟩) :
      Filled table fd next (some idx)

theorem infoCreateLoop_filled {count : Nat} {found : Option InfoIdx}
    (h : infoCreateLoop fd count table none = .ok (next, found)) : Filled table fd next found := by
  induction count generalizing table with
  | zero =>
      obtain ⟨rfl, rfl⟩ : table = next ∧ none = found := by simpa [infoCreateLoop] using h
      exact .full rfl
  | succ count ih =>
      have hslot := toNat_slotIndex table
      have hlt : (table.nextSlot % 256).toNat < 256 := by omega
      simp only [infoCreateLoop, infoGet_eq_ok hlt, ok_bind] at h
      split_ifs at h with hfree
      · obtain ⟨_, -, h⟩ := (bind_eq_ok_iff _ _ _).mp h
        obtain ⟨handle, hmake, h⟩ := (bind_eq_ok_iff _ _ _).mp h
        rw [infoCreateLoop_some] at h
        obtain ⟨rfl, rfl⟩ : _ = next ∧ _ = found := by simpa using h
        obtain ⟨htype, -, hindex⟩ := makeHandle_fields hmake
        refine .free hfree htype ?_ rfl
        apply Fin.ext
        have hcast : (table.nextSlot % 256).toUInt8.toNat = (table.nextSlot % 256).toNat := by
          rw [UInt64.toNat_toUInt8]
          omega
        rw [toNat_handleIndex, hcast] at hindex
        exact hindex
      · cases ih h with
        | full hsockets => exact .full hsockets
        | free hfree' htype hindex hsockets => exact .free hfree' htype hindex hsockets

theorem infoCreate_filled {rv : Error} {found : Option InfoIdx}
    (h : table.infoCreate fd = .ok (rv, found, next)) :
    Filled table fd next found ∧ rv = if found = none then .emfile else .success := by
  obtain ⟨⟨after, result⟩, hloop, h⟩ := (bind_eq_ok_iff _ _ _).mp h
  have hfilled := infoCreateLoop_filled hloop
  by_cases hnone : result = none
  · simp only [hnone, ↓reduceIte, pure_eq_ok, Except.ok.injEq, Prod.mk.injEq] at h
    obtain ⟨rfl, rfl, rfl⟩ := h
    rw [hnone] at hfilled
    exact ⟨hfilled, rfl⟩
  · simp only [hnone, ↓reduceIte, pure_eq_ok, Except.ok.injEq, Prod.mk.injEq] at h
    obtain ⟨rfl, rfl, rfl⟩ := h
    exact ⟨hfilled, by rw [if_neg hnone]⟩

end Minimk.Socket.SocketTable
