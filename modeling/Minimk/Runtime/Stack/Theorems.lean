import Minimk.Alignment
import Minimk.Runtime.Stack

namespace Minimk.Runtime

open Abort Alignment

-- The stack gets the least multiple of the page size that has the desired 64 KiB.
theorem coroStackSize_isLeast {pageSize : UInt64} {k : Nat} (hpage : pageSize.toNat = 2 ^ k) :
    IsLeast {size | pageSize.toNat ∣ size ∧ 65536 ≤ size} (coroStackSize pageSize).toNat := by
  have hdesired : ((64 : UInt64) <<< 10).toNat = 65536 := rfl
  by_cases hlarge : pageSize > (64 : UInt64) <<< 10
  · rw [coroStackSize, if_pos hlarge]
    rw [gt_iff_lt, UInt64.lt_iff_toNat_lt, hdesired] at hlarge
    refine ⟨⟨dvd_rfl, by omega⟩, ?_⟩
    rintro size ⟨hdvd, hsize⟩
    exact Nat.le_of_dvd (by omega) hdvd
  · have hround : coroStackSize pageSize = roundUp pageSize ((64 : UInt64) <<< 10) := by
      rw [coroStackSize, if_neg hlarge, roundUp]
    rw [gt_iff_lt, UInt64.lt_iff_toNat_lt, hdesired] at hlarge
    rw [hround, ← hdesired]
    apply roundUp_isLeast hpage
    omega

-- What the kernel promises of its pages and of the ranges it maps.
structure StackReply.Paged (reply : StackReply) : Prop where
  page : ∃ k, 4 ≤ k ∧ (pageSizeOf reply).toNat = 2 ^ k
  base : ∀ base ∈ reply.mmap, (pageSizeOf reply).toNat ∣ base.toNat ∧
    base.toNat + (stackSizeOf reply).toNat < 2 ^ 64

-- A stack of at least 64 KiB on top of a guard of whole pages, both in one mapping.
structure Stack.Guarded (sp : Stack) : Prop where
  guard : sp.base.toNat < sp.bottom.toNat
  room : sp.bottom.toNat + 65536 ≤ sp.top.toNat
  top : sp.top.toNat = sp.base.toNat + sp.size.toNat
  aligned : sp.top.toNat % 16 = 0

section Alloc

variable {reply : StackReply} {base : UInt64}

theorem toNat_pageSizeOf_lt (reply : StackReply) : (pageSizeOf reply).toNat < 2 ^ 31 := by
  have hpage := reply.pageSize.toInt_lt
  rw [pageSizeOf, Nat.toUInt64, UInt64.toNat_ofNat']
  omega

namespace StackReply.Paged

theorem pageSize_nonneg (h : reply.Paged) : 0 ≤ reply.pageSize := by
  obtain ⟨k, -, hpage⟩ := h.page
  have hpos := Nat.two_pow_pos k
  rw [Int32.le_iff_toInt_le]
  by_contra hneg
  have hzero : reply.pageSize.toInt.toNat = 0 := by
    have hconst : (0 : Int32).toInt = 0 := rfl
    omega
  rw [pageSizeOf, hzero] at hpage
  change 0 = _ at hpage
  omega

-- The sum of the stack and its guard does not overflow.
theorem toNat_stackSizeOf (h : reply.Paged) : (stackSizeOf reply).toNat =
    (coroStackSize (pageSizeOf reply)).toNat + (pageSizeOf reply).toNat := by
  obtain ⟨k, hk, hpage⟩ := h.page
  have hbound := toNat_pageSizeOf_lt reply
  obtain ⟨-, hmin⟩ := coroStackSize_isLeast hpage
  have hupper : (coroStackSize (pageSizeOf reply)).toNat ≤ 2 ^ k * 65536 := by
    apply hmin
    refine ⟨?_, Nat.le_mul_of_pos_left _ (Nat.two_pow_pos k)⟩
    rw [hpage]
    exact Nat.dvd_mul_right _ _
  rw [stackSizeOf, UInt64.toNat_add]
  omega

theorem stackSize (h : reply.Paged) : ∃ k, 4 ≤ k ∧ (pageSizeOf reply).toNat = 2 ^ k ∧
    2 ^ k ∣ (stackSizeOf reply).toNat ∧ 2 ^ k + 65536 ≤ (stackSizeOf reply).toNat := by
  obtain ⟨k, hk, hpage⟩ := h.page
  obtain ⟨⟨hdvd, hroom⟩, -⟩ := coroStackSize_isLeast hpage
  have hsum := h.toNat_stackSizeOf
  rw [hpage] at hdvd hsum
  refine ⟨k, hk, hpage, ?_, ?_⟩
  · rw [hsum]
    exact Nat.dvd_add hdvd dvd_rfl
  · omega

end StackReply.Paged

theorem stackAlloc_eq_success {sp stack : Stack} {calls : List MemCall}
    (halloc : stackAlloc sp reply = .ok (.success, stack, calls)) :
    0 ≤ reply.pageSize ∧ ∃ base ∈ reply.mmap, stack =
      ⟨base, stackSizeOf reply, base + stackSizeOf reply, base + pageSizeOf reply⟩ := by
  obtain ⟨_, hassert, halloc⟩ := (bind_eq_ok_iff _ _ _).mp halloc
  refine ⟨(assert_eq_ok_iff _).mp hassert, ?_⟩
  cases hmmap : reply.mmap with
  | none => simp [hmmap] at halloc
  | some base =>
      by_cases hprotect : reply.mprotect
      · simp only [hmmap, hprotect, ↓reduceIte, pure_eq_ok, Except.ok.injEq, Prod.mk.injEq,
          true_and] at halloc
        exact ⟨base, rfl, halloc.1.symm⟩
      · simp [hmmap, hprotect] at halloc

-- What an allocation makes of its mapping: one page of guard, then the stack.
structure Stack.Shaped (sp : Stack) (page : Nat) : Prop where
  guard : sp.bottom.toNat = sp.base.toNat + page
  room : IsLeast {size | page ∣ size ∧ 65536 ≤ size} (sp.top.toNat - sp.bottom.toNat)
  top : sp.top.toNat = sp.base.toNat + sp.size.toNat
  aligned : sp.top.toNat % 16 = 0

theorem stackAlloc_shaped (h : reply.Paged) {sp stack : Stack} {calls : List MemCall}
    (halloc : stackAlloc sp reply = .ok (.success, stack, calls)) :
    stack.Shaped (pageSizeOf reply).toNat := by
  obtain ⟨-, base, hmmap, rfl⟩ := stackAlloc_eq_success halloc
  obtain ⟨k, hk, hpage, hdvd, hroom⟩ := h.stackSize
  obtain ⟨hbase, hfits⟩ := h.base base hmmap
  have hleast := coroStackSize_isLeast hpage
  have htop : (base + stackSizeOf reply).toNat = base.toNat + (stackSizeOf reply).toNat := by
    rw [UInt64.toNat_add]
    omega
  have hbottom : (base + pageSizeOf reply).toNat = base.toNat + (pageSizeOf reply).toNat := by
    rw [UInt64.toNat_add]
    omega
  have hsum := h.toNat_stackSizeOf
  refine ⟨hbottom, ?_, htop, ?_⟩
  · have hsize : (base + stackSizeOf reply).toNat - (base + pageSizeOf reply).toNat =
        (coroStackSize (pageSizeOf reply)).toNat := by omega
    rw [hsize]
    exact hleast
  · have hsixteen : 16 ∣ 2 ^ k := pow_dvd_pow 2 hk
    rw [hpage] at hbase
    apply Nat.mod_eq_zero_of_dvd
    rw [htop]
    exact Nat.dvd_add (hsixteen.trans hbase) (hsixteen.trans hdvd)

theorem Stack.Shaped.guarded {sp : Stack} {page : Nat} (h : sp.Shaped page) (hpage : 0 < page) :
    sp.Guarded := by
  obtain ⟨hguard, ⟨⟨-, hroom⟩, -⟩, htop, haligned⟩ := h
  exact ⟨by omega, by omega, htop, haligned⟩

theorem stackAlloc_guarded (h : reply.Paged) {sp stack : Stack} {calls : List MemCall}
    (halloc : stackAlloc sp reply = .ok (.success, stack, calls)) : stack.Guarded := by
  obtain ⟨k, -, hpage⟩ := h.page
  apply (stackAlloc_shaped h halloc).guarded
  rw [hpage]
  exact Nat.two_pow_pos k

end Alloc

end Minimk.Runtime
