import Minimk.Runtime.Switch

namespace Minimk.Runtime

open Amd64 Transition

section Routines

variable {addresses : Addresses} {cpu : Cpu} {old new back : UInt64}

theorem switch_halves : Asm.switch =
    Asm.switchSaved.map .push ++ ([.store .rsp .rdi, .mov .rsi .rsp] ++ Asm.switchRestore) := rfl

-- The second half takes the words of a snapshot from the stack.
theorem switchRestore_snapshot {snap : Snapshot}
    (hframe : Holds cpu.memory (cpu.regs .rsp) snap.words)
    (hrsp : snap.rsp.toNat = (cpu.regs .rsp).toNat + 56) :
    snapshot (cpu.run Asm.switchRestore) = snap := by
  obtain ⟨h15, h14, h13, h12, hbp, hbx, hip, -⟩ := hframe
  have hend : cpu.regs .rsp + 8 + 8 + 8 + 8 + 8 + 8 + 8 = snap.rsp := by
    have hconst : (8 : UInt64).toNat = 8 := rfl
    have hbound := snap.rsp.toNat_lt
    apply UInt64.toNat_inj.mp
    simp only [UInt64.toNat_add, hconst]
    omega
  ext
  all_goals
    simp [Asm.switchRestore, snapshot, Cpu.exec, Cpu.set, h15, h14, h13, h12, hbp, hbx, hip, hend]

theorem switchRestore_memory : (cpu.run Asm.switchRestore).memory = cpu.memory := rfl

theorem callSwitch_eq (hroom : 56 ≤ (cpu.regs .rsp).toNat) :
    ∃ saved, Saved cpu saved back ∧ callSwitch addresses cpu old new back =
      ((saved.write old (saved.regs .rsp)).set .rsp new).run Asm.switchRestore := by
  let entered := ((cpu.set .rdi old).set .rsi new).exec (.call addresses.runtimeSwitch back)
  have hbound := (cpu.regs .rsp).toNat_lt
  have hrsp : entered.regs .rsp = cpu.regs .rsp - 8 := rfl
  have hmemory : entered.memory = Function.update cpu.memory (cpu.regs .rsp - 8) back := rfl
  have hnat := toNat_sub_eight (show 8 ≤ (cpu.regs .rsp).toNat by omega)
  have hback : Holds entered.memory (entered.regs .rsp) [back] := by
    rw [hmemory, hrsp]
    exact ⟨Function.update_self _ _ _, trivial⟩
  have hpushed :
      Pushed entered (entered.run (Asm.switchSaved.map .push)) Asm.switchSaved [back] := by
    apply Cpu.pushes
    · decide
    · exact hback
    · rw [hrsp, hnat]
      simp only [Asm.switchSaved, List.length_cons, List.length_nil]
      omega
    · rw [hrsp, hnat]
      simp only [List.length_cons, List.length_nil]
      omega
  generalize hsaved : entered.run (Asm.switchSaved.map .push) = saved at hpushed
  have hsp := hpushed.rsp
  rw [hrsp, hnat] at hsp
  simp only [Asm.switchSaved, List.length_cons, List.length_nil] at hsp
  have hrdi : saved.regs .rdi = old := hpushed.regs .rdi (by decide)
  have hrsi : saved.regs .rsi = new := hpushed.regs .rsi (by decide)
  refine ⟨saved, ⟨by omega, hpushed.block, ?_⟩, ?_⟩
  · intro address hout
    simp only [Region.Contains] at hout
    have hinner : ¬Region.Contains ⟨saved.regs .rsp, entered.regs .rsp⟩ address := by
      simp only [Region.Contains, hrsp]
      omega
    have hne : address ≠ cpu.regs .rsp - 8 := by
      intro he
      rw [he] at hout
      omega
    rw [hpushed.memory address hinner, hmemory]
    exact Function.update_of_ne hne _ _
  · have hrun : callSwitch addresses cpu old new back = entered.run Asm.switch := rfl
    rw [hrun, switch_halves, Cpu.run_append, hsaved, Cpu.run_append]
    simp only [Cpu.run_cons, Cpu.run_nil, Cpu.exec, hrdi, Cpu.write_regs, hrsi]

theorem Framed.congr {stack : Region} {cell : UInt64} {words : List UInt64}
    {memory later : UInt64 → UInt64} (h : Framed stack cell words memory)
    (hcell : later cell = memory cell)
    (hstack : ∀ address, stack.Contains address → later address = memory address) :
    Framed stack cell words later := by
  obtain ⟨hbottom, htop, hblock⟩ := h
  refine ⟨?_, ?_, ?_⟩
  · rwa [hcell]
  · rwa [hcell]
  · rw [hcell]
    exact hblock.congr hbottom htop hstack

-- Noting the address of a block makes a frame of it.
theorem Framed.note {stack : Region} {cell sp : UInt64} {words : List UInt64}
    {memory : UInt64 → UInt64} (hbottom : stack.bottom.toNat ≤ sp.toNat)
    (htop : sp.toNat + 8 * words.length ≤ stack.top.toNat) (hblock : Holds memory sp words)
    (hcell : ¬stack.Contains cell) :
    Framed stack cell words (Function.update memory cell sp) := by
  have hself : Function.update memory cell sp cell = sp := Function.update_self _ _ _
  refine ⟨by rwa [hself], by rwa [hself], ?_⟩
  rw [hself]
  refine hblock.congr hbottom htop fun address hin => ?_
  have hne : address ≠ cell := by
    intro he
    rw [he] at hin
    exact hcell hin
  exact Function.update_of_ne hne _ _

section CallSwitch

variable {stack : Region} (hbottom : stack.bottom.toNat + 56 ≤ (cpu.regs .rsp).toNat)
  (htop : (cpu.regs .rsp).toNat ≤ stack.top.toNat)

include hbottom htop

theorem callSwitch_framed (hcell : ¬stack.Contains old) :
    Framed stack old { snapshot cpu with rip := back }.words
        (callSwitch addresses cpu old new back).memory ∧
      ((callSwitch addresses cpu old new back).memory old).toNat + 56 =
        (cpu.regs .rsp).toNat := by
  obtain ⟨saved, hsaved, hcall⟩ := @callSwitch_eq addresses cpu old new back (by omega)
  have hrsp := hsaved.rsp
  rw [hcall, switchRestore_memory, Cpu.set_memory, Cpu.write_memory]
  refine ⟨Framed.note (by omega) ?_ hsaved.frame hcell, ?_⟩
  · simp only [Snapshot.words, List.length_cons, List.length_nil]
    omega
  · rw [Function.update_self]
    exact hrsp

theorem callSwitch_memory {address : UInt64}
    (hcell : address ≠ old) (hout : ¬stack.Contains address) :
    (callSwitch addresses cpu old new back).memory address = cpu.memory address := by
  obtain ⟨saved, hsaved, hcall⟩ := @callSwitch_eq addresses cpu old new back (by omega)
  have hrsp := hsaved.rsp
  rw [hcall, switchRestore_memory, Cpu.set_memory, Cpu.write_memory]
  rw [Function.update_of_ne hcell]
  apply hsaved.memory
  simp only [Region.Contains] at hout ⊢
  omega

end CallSwitch

theorem callSwitch_snapshot {snap : Snapshot} (hroom : 56 ≤ (cpu.regs .rsp).toNat)
    (hframe : Holds (callSwitch addresses cpu old new back).memory new snap.words)
    (hrsp : snap.rsp.toNat = new.toNat + 56) :
    snapshot (callSwitch addresses cpu old new back) = snap := by
  obtain ⟨saved, hsaved, hcall⟩ := @callSwitch_eq addresses cpu old new back hroom
  rw [hcall] at hframe ⊢
  have hsp : ((saved.write old (saved.regs .rsp)).set .rsp new).regs .rsp = new :=
    Cpu.set_self _ _ _
  apply switchRestore_snapshot
  · rw [hsp]
    exact hframe
  · rw [hsp]
    exact hrsp

section CallInitCoroStack

variable {stack : Region} {cell : UInt64}
  (hsize : stack.bottom.toNat + 64 ≤ stack.top.toNat)

theorem initCoroStack_parts :
    Asm.initCoroStack = [.mov .rsp .rax, .mov .rsi .rsp] ++ (Asm.initPushed.map .push ++
      Asm.initReturn) := rfl

include hsize

theorem callInitCoroStack_eq : ∃ pushed : Cpu, (pushed.regs .rsp).toNat + 64 = stack.top.toNat ∧
    Holds pushed.memory (pushed.regs .rsp)
      ((Snapshot.fresh addresses.asmTrampoline stack.top).words ++ [addresses.sched]) ∧
    (∀ address, ¬stack.Contains address → address ≠ cpu.regs .rsp - 8 →
      pushed.memory address = cpu.memory address) ∧
    (callInitCoroStack addresses cpu cell stack.top back).memory =
      Function.update pushed.memory cell (pushed.regs .rsp) := by
  let entered := (((((cpu.set .rdi cell).set .rsi stack.top).set .rdx addresses.asmTrampoline).set
    .rcx addresses.sched).exec (.call addresses.initCoroStack back)).run
      [.mov .rsp .rax, .mov .rsi .rsp]
  have hbound := stack.top.toNat_lt
  have hrsp : entered.regs .rsp = stack.top := rfl
  have hmemory : entered.memory = Function.update cpu.memory (cpu.regs .rsp - 8) back := rfl
  have hpushed : Pushed entered (entered.run (Asm.initPushed.map .push)) Asm.initPushed [] := by
    apply Cpu.pushes
    · decide
    · trivial
    · rw [hrsp]
      simp only [Asm.initPushed, List.length_cons, List.length_nil]
      omega
    · rw [hrsp]
      simp only [List.length_nil]
      omega
  have hrun : callInitCoroStack addresses cpu cell stack.top back =
      (entered.run (Asm.initPushed.map .push)).run Asm.initReturn := by
    rw [← Cpu.run_append, ← Cpu.run_append, ← initCoroStack_parts]
    rfl
  generalize entered.run (Asm.initPushed.map .push) = pushed at hpushed hrun
  have hsp := hpushed.rsp
  rw [hrsp] at hsp
  simp only [Asm.initPushed, List.length_cons, List.length_nil] at hsp
  have hrdi : pushed.regs .rdi = cell := hpushed.regs .rdi (by decide)
  refine ⟨pushed, by omega, hpushed.block, ?_, ?_⟩
  · intro address hout hne
    have hinner : ¬Region.Contains ⟨pushed.regs .rsp, entered.regs .rsp⟩ address := by
      simp only [Region.Contains, hrsp] at hout ⊢
      omega
    rw [hpushed.memory address hinner, hmemory]
    exact Function.update_of_ne hne _ _
  · rw [hrun, ← hrdi]
    rfl

theorem callInitCoroStack_framed (hcell : ¬stack.Contains cell) :
    Framed stack cell
        ((Snapshot.fresh addresses.asmTrampoline stack.top).words ++ [addresses.sched])
        (callInitCoroStack addresses cpu cell stack.top back).memory ∧
      ((callInitCoroStack addresses cpu cell stack.top back).memory cell).toNat + 64 =
        stack.top.toNat := by
  obtain ⟨pushed, hsp, hblock, -, hmemory⟩ :=
    @callInitCoroStack_eq addresses cpu back stack cell hsize
  rw [hmemory]
  refine ⟨Framed.note (by omega) ?_ hblock hcell, ?_⟩
  · simp only [Snapshot.words, List.length_append, List.length_cons, List.length_nil]
    omega
  · rw [Function.update_self]
    exact hsp

-- The stack pointer of a new coroutine is what the model of its slot has.
theorem callInitCoroStack_sp (hcell : ¬stack.Contains cell) :
    (callInitCoroStack addresses cpu cell stack.top back).memory cell =
      initCoroStack stack.top := by
  have hsp := (@callInitCoroStack_framed addresses cpu back stack cell hsize hcell).2
  have hconst : (64 : UInt64).toNat = 64 := rfl
  have hle : (64 : UInt64) ≤ stack.top := by
    rw [UInt64.le_iff_toNat_le, hconst]
    omega
  apply UInt64.toNat_inj.mp
  rw [initCoroStack, UInt64.toNat_sub_of_le _ _ hle, hconst]
  omega

theorem callInitCoroStack_memory {address : UInt64} (hcell : address ≠ cell)
    (hout : ¬stack.Contains address) (hpushed : address ≠ cpu.regs .rsp - 8) :
    (callInitCoroStack addresses cpu cell stack.top back).memory address =
      cpu.memory address := by
  obtain ⟨pushed, -, -, hrest, hmemory⟩ :=
    @callInitCoroStack_eq addresses cpu back stack cell hsize
  rw [hmemory, Function.update_of_ne hcell]
  exact hrest address hout hpushed

end CallInitCoroStack

end Routines

section Addresses

variable (addresses : Addresses)

theorem toNat_struct_top : addresses.struct.top.toNat = addresses.sched.toNat + 1296 := by
  have hsize : (1296 : UInt64).toNat = 1296 := rfl
  have hfits := addresses.fits
  simp only [Addresses.struct, UInt64.toNat_add, hsize]
  omega

theorem toNat_cell_slot (slot : Slot) :
    (addresses.cell (some slot)).toNat = addresses.sched.toNat + 80 * slot.val := by
  have hsize : (80 : UInt64).toNat = 80 := rfl
  have hfits := addresses.fits
  have hslot : slot.val < 16 := slot.isLt
  simp only [Addresses.cell, UInt64.toNat_add, UInt64.toNat_mul, UInt64.toNat_ofNat', hsize]
  omega

theorem toNat_cell_scheduler :
    (addresses.cell none).toNat = addresses.sched.toNat + 1288 := by
  have hsize : (1288 : UInt64).toNat = 1288 := rfl
  have hfits := addresses.fits
  simp only [Addresses.cell, UInt64.toNat_add, hsize]
  omega

theorem struct_contains (ctx : Option Slot) : addresses.struct.Contains (addresses.cell ctx) := by
  have htop := toNat_struct_top addresses
  have hbottom : addresses.struct.bottom = addresses.sched := rfl
  unfold Region.Contains
  rw [htop, hbottom]
  cases ctx with
  | none =>
      rw [toNat_cell_scheduler]
      omega
  | some slot =>
      have hslot : slot.val < 16 := slot.isLt
      rw [toNat_cell_slot]
      omega

theorem cell_injective : Function.Injective addresses.cell := by
  intro ctx other h
  have hnat := congrArg UInt64.toNat h
  cases ctx with
  | none =>
      cases other with
      | none => rfl
      | some slot =>
          have hslot : slot.val < 16 := slot.isLt
          rw [toNat_cell_scheduler, toNat_cell_slot] at hnat
          omega
  | some slot =>
      have hslot : slot.val < 16 := slot.isLt
      cases other with
      | none =>
          rw [toNat_cell_scheduler, toNat_cell_slot] at hnat
          omega
      | some third =>
          rw [toNat_cell_slot, toNat_cell_slot] at hnat
          exact congrArg some (Fin.ext (by omega))

end Addresses

namespace World

variable {addresses : Addresses} {world next : World} {event : SwitchEvent} {ctx : Option Slot}
  {stack : Region} {snap : Snapshot} {rest : List UInt64}

theorem Room.le {count : Nat} (h : world.Room count) : count ≤ (world.cpu.regs .rsp).toNat := by
  obtain ⟨own, -, hbottom, -⟩ := h
  omega

theorem Separate.not_contains (h : world.Separate addresses) (hs : world.regions ctx = some stack)
    (other : Option Slot) : ¬stack.Contains (addresses.cell other) :=
  (h.outside ctx stack hs).symm.not_contains (struct_contains addresses other)

-- A context that writes to its own stack only is one of those that the model lets compute.
theorem Separate.keeps_own (h : world.Separate addresses) {own : Region}
    (hown : world.regions world.current = some own) {memory : UInt64 → UInt64}
    (hwrites : ChangesOnly own world.cpu.memory memory) : world.Keeps addresses memory := by
  intro ctx stack hne hs
  refine ⟨hwrites _ (h.not_contains hown ctx), fun address hin => ?_⟩
  exact hwrites address ((h.apart _ _ _ _ hne hs hown).not_contains hin)

-- The switch of the context that runs leaves the stacks of the others and their cells alone.
theorem Separate.keeps_switch (h : world.Separate addresses) (hroom : world.Room 56)
    (new back : UInt64) : world.Keeps addresses
      (callSwitch addresses world.cpu (addresses.cell world.current) new back).memory := by
  obtain ⟨own, hown, hbottom, htop⟩ := hroom
  intro ctx stack hne hs
  have hcell : addresses.cell ctx ≠ addresses.cell world.current :=
    fun he => hne (cell_injective addresses he)
  refine ⟨?_, fun address hin => ?_⟩
  · exact callSwitch_memory hbottom htop hcell (h.not_contains hown ctx)
  · have hnot : address ≠ addresses.cell world.current := by
      intro he
      rw [he] at hin
      exact h.not_contains hs _ hin
    exact callSwitch_memory hbottom htop hnot ((h.apart _ _ _ _ hne hs hown).not_contains hin)

theorem Separate.keeps_init (h : world.Separate addresses) (hroom : world.Room 8) {slot : Slot}
    (hslot : world.regions (some slot) = none) (hfresh : world.Fresh addresses stack)
    (back : UInt64) : world.Keeps addresses (callInitCoroStack addresses world.cpu
      (addresses.cell (some slot)) stack.top back).memory := by
  obtain ⟨own, hown, hbottom, htop⟩ := hroom
  have hpush : own.Contains (world.cpu.regs .rsp - 8) := by
    have hnat := toNat_sub_eight (show 8 ≤ (world.cpu.regs .rsp).toNat by omega)
    simp only [Region.Contains, hnat]
    omega
  intro ctx region hne hs
  have hcell : addresses.cell ctx ≠ addresses.cell (some slot) := by
    intro he
    rw [cell_injective addresses he, hslot] at hs
    cases hs
  refine ⟨?_, fun address hin => ?_⟩
  · apply callInitCoroStack_memory hfresh.size hcell
    · exact hfresh.outside.symm.not_contains (struct_contains addresses ctx)
    · intro he
      rw [← he] at hpush
      exact h.not_contains hown ctx hpush
  · apply callInitCoroStack_memory hfresh.size
    · intro he
      rw [he] at hin
      exact h.not_contains hs _ hin
    · exact (hfresh.apart ctx region hs).symm.not_contains hin
    · intro he
      rw [he] at hin
      exact (h.apart _ _ _ _ hne hs hown).not_contains hin hpush

-- Whatever the context that runs does, it keeps the others as they are.
theorem Step.keeps (h : world.Separate addresses) (hs : world.Step addresses event next) :
    world.Keeps addresses next.cpu.memory := by
  obtain ⟨hadmits, rfl⟩ := hs
  cases event with
  | compute cpu => exact hadmits
  | init slot stack back => exact h.keeps_init hadmits.2.2 hadmits.1 hadmits.2.1 back
  | switch slot back =>
      have hkeeps := h.keeps_switch hadmits.2.2
        (world.cpu.memory (addresses.cell (some slot))) back
      rw [hadmits.1] at hkeeps
      exact hkeeps
  | yield slot back =>
      have hkeeps := h.keeps_switch hadmits.2 (world.cpu.memory (addresses.cell none)) back
      rw [hadmits.1] at hkeeps
      exact hkeeps
  | finish slot => exact fun _ _ _ _ => ⟨rfl, fun _ _ => rfl⟩

theorem Initial.separate (h : world.Initial addresses) : world.Separate addresses := by
  obtain ⟨own, hown, hout⟩ := h.scheduler
  have honly : ∀ ctx stack, world.regions ctx = some stack → ctx = none ∧ stack = own := by
    intro ctx stack hs
    cases ctx with
    | none => exact ⟨rfl, Option.some.inj (hs.symm.trans hown)⟩
    | some slot =>
        rw [h.coroutines slot] at hs
        cases hs
  refine ⟨by simp [hown], by simp [h.current, hown], ?_, ?_⟩
  · intro ctx other stack region hne hs hr
    exact absurd ((honly ctx stack hs).1.trans (honly other region hr).1.symm) hne
  · intro ctx stack hs
    rw [(honly ctx stack hs).2]
    exact hout

theorem Separate.init (h : world.Separate addresses) {slot : Slot}
    (hfresh : world.Fresh addresses stack) {cpu : Cpu} :
    Separate addresses { world with
      cpu := cpu, regions := Function.update world.regions (some slot) (some stack) } where
  scheduler := by simpa using h.scheduler
  running := by
    by_cases hc : world.current = some slot
    · simp [hc]
    · simpa [hc] using h.running
  apart := by
    intro ctx other left right hne hl hr
    simp only [Function.update_apply] at hl hr
    by_cases hc : ctx = some slot
    · have ho : ¬other = some slot := fun ho => hne (hc.trans ho.symm)
      rw [if_pos hc] at hl
      rw [if_neg ho] at hr
      rw [← Option.some.inj hl]
      exact hfresh.apart other right hr
    · rw [if_neg hc] at hl
      by_cases ho : other = some slot
      · rw [if_pos ho] at hr
        rw [← Option.some.inj hr]
        exact (hfresh.apart ctx left hl).symm
      · rw [if_neg ho] at hr
        exact h.apart ctx other left right hne hl hr
  outside := by
    intro ctx region hr
    simp only [Function.update_apply] at hr
    by_cases hc : ctx = some slot
    · rw [if_pos hc] at hr
      rw [← Option.some.inj hr]
      exact hfresh.outside
    · rw [if_neg hc] at hr
      exact h.outside ctx region hr

theorem Separate.finish (h : world.Separate addresses) {slot : Slot}
    (hcurrent : world.current = none) :
    Separate addresses { world with
      regions := Function.update world.regions (some slot) none } := by
  have hkept : ∀ ctx stack, Function.update world.regions (some slot) none ctx = some stack →
      world.regions ctx = some stack := by
    intro ctx stack hs
    simp only [Function.update_apply] at hs
    by_cases hc : ctx = some slot
    · rw [if_pos hc] at hs
      cases hs
    · rwa [if_neg hc] at hs
  refine ⟨by simpa using h.scheduler, by simpa [hcurrent] using h.scheduler, ?_, ?_⟩
  · intro ctx other left right hne hl hr
    exact h.apart ctx other left right hne (hkept ctx left hl) (hkept other right hr)
  · exact fun ctx stack hs => h.outside ctx stack (hkept ctx stack hs)

theorem Step.separate (h : world.Separate addresses) (hs : world.Step addresses event next) :
    next.Separate addresses := by
  obtain ⟨hadmits, rfl⟩ := hs
  cases event with
  | compute cpu => exact ⟨h.scheduler, h.running, h.apart, h.outside⟩
  | init slot stack back => exact h.init hadmits.2.1
  | switch slot back => exact ⟨h.scheduler, hadmits.2.1, h.apart, h.outside⟩
  | yield slot back => exact ⟨h.scheduler, h.scheduler, h.apart, h.outside⟩
  | finish slot => exact h.finish hadmits

theorem Step.untouched (hs : world.Step addresses event next) (ht : ¬event.Touches ctx) :
    next.regions ctx = world.regions ctx ∧ (next.current = ctx ↔ world.current = ctx) := by
  obtain ⟨hadmits, rfl⟩ := hs
  cases event with
  | compute cpu => exact ⟨rfl, Iff.rfl⟩
  | init slot stack back => exact ⟨Function.update_of_ne ht _ _, Iff.rfl⟩
  | finish slot => exact ⟨Function.update_of_ne ht _ _, Iff.rfl⟩
  | switch slot back =>
      simp only [SwitchEvent.Touches, not_or] at ht
      refine ⟨rfl, iff_of_false (fun he => ht.1 he.symm) fun he => ht.2 ?_⟩
      exact he.symm.trans hadmits.1
  | yield slot back =>
      simp only [SwitchEvent.Touches, not_or] at ht
      refine ⟨rfl, iff_of_false (fun he => ht.2 he.symm) fun he => ht.1 ?_⟩
      exact he.symm.trans hadmits.1

-- A context that is not concerned keeps its frame.
theorem Parked.step (hp : world.Parked addresses ctx snap rest) (h : world.Separate addresses)
    (hs : world.Step addresses event next) (ht : ¬event.Touches ctx) :
    next.Parked addresses ctx snap rest := by
  obtain ⟨hregions, hcurrent⟩ := hs.untouched ht
  obtain ⟨stack, hstack, hframe⟩ := hp.frame
  obtain ⟨hcell, hmemory⟩ := hs.keeps h ctx stack hp.off.symm hstack
  refine ⟨fun he => hp.off (hcurrent.mp he), ⟨stack, hregions.trans hstack, ?_⟩, ?_⟩
  · exact hframe.congr hcell hmemory
  · rw [hcell]
    exact hp.rsp

-- The assertion around the switch, on the stack pointer of the coroutine, holds.
theorem Parked.validates {slot : Slot} {coro : Coroutine}
    (hp : world.Parked addresses (some slot) snap rest)
    (hregion : world.regions (some slot) = some ⟨coro.stack.bottom, coro.stack.top⟩)
    (hsp : coro.sp = world.cpu.memory (addresses.cell (some slot))) :
    coro.validateStackPointer = .ok () := by
  obtain ⟨stack, hstack, hbottom, htop, -⟩ := hp.frame
  obtain rfl : ⟨coro.stack.bottom, coro.stack.top⟩ = stack :=
    Option.some.inj (hregion.symm.trans hstack)
  simp only [Snapshot.words, List.length_append, List.length_cons, ← hsp] at hbottom htop
  apply Abort.assert_of_true
  rw [ge_iff_le, UInt64.le_iff_toNat_le, UInt64.lt_iff_toNat_lt]
  omega

-- A context that calls `minimk_runtime_switch` leaves a frame with its snapshot.
theorem Separate.parked_switch (h : world.Separate addresses) (hroom : world.Room 56)
    (new back : UInt64) (hctx : world.current = ctx) {target : Option Slot}
    (hne : target ≠ ctx) :
    Parked addresses { world with
      cpu := callSwitch addresses world.cpu (addresses.cell ctx) new back, current := target }
      ctx { snapshot world.cpu with rip := back } [] := by
  obtain ⟨own, hown, hbottom, htop⟩ := hroom
  rw [hctx] at hown
  obtain ⟨hframe, hrsp⟩ := @callSwitch_framed addresses world.cpu (addresses.cell ctx) new back own
    hbottom htop (h.not_contains hown ctx)
  refine ⟨hne, ⟨own, hown, ?_⟩, hrsp.symm⟩
  rw [List.append_nil]
  exact hframe

theorem Step.parked_call {back : UInt64} (h : world.Separate addresses)
    (hs : world.Step addresses event next) (hcall : event.call = some (ctx, back)) :
    next.Parked addresses ctx { snapshot world.cpu with rip := back } [] := by
  obtain ⟨hadmits, rfl⟩ := hs
  cases event with
  | compute _ => cases hcall
  | init _ _ _ => cases hcall
  | finish _ => cases hcall
  | switch slot back' =>
      obtain ⟨rfl, rfl⟩ : none = ctx ∧ back' = back := by simpa [SwitchEvent.call] using hcall
      obtain ⟨hcurrent, -, hroom⟩ := hadmits
      exact h.parked_switch hroom _ back' hcurrent (Option.some_ne_none slot)
  | yield slot back' =>
      obtain ⟨rfl, rfl⟩ : some slot = ctx ∧ back' = back := by
        simpa [SwitchEvent.call] using hcall
      obtain ⟨hcurrent, hroom⟩ := hadmits
      exact h.parked_switch hroom _ back' hcurrent (Option.some_ne_none slot).symm

-- So does the one that makes a coroutine, for the coroutine.
theorem Step.parked_init {slot : Slot} {back : UInt64} (h : world.Separate addresses)
    (hs : world.Step addresses (.init slot stack back) next) :
    next.Parked addresses (some slot) (Snapshot.fresh addresses.asmTrampoline stack.top)
      [addresses.sched] := by
  obtain ⟨⟨hfree, hfresh, -⟩, rfl⟩ := hs
  obtain ⟨hframe, hsp⟩ := @callInitCoroStack_framed addresses world.cpu back stack
    (addresses.cell (some slot)) hfresh.size
    (hfresh.outside.symm.not_contains (struct_contains addresses (some slot)))
  refine ⟨?_, ⟨stack, Function.update_self _ _ _, hframe⟩, ?_⟩
  · intro he
    have hcurrent : world.current = some slot := he
    have hrunning := h.running
    rw [hcurrent] at hrunning
    exact hrunning hfree
  · have hsize := hfresh.size
    have hnat : (stack.top - 8).toNat = stack.top.toNat - 8 := toNat_sub_eight (by omega)
    have hrsp : (Snapshot.fresh addresses.asmTrampoline stack.top).rsp = stack.top - 8 := rfl
    rw [hrsp, hnat]
    simp only [exec]
    omega

-- A context that control goes to finds its snapshot, and the rest of its frame on its stack.
theorem Step.restores (h : world.Separate addresses) (hs : world.Step addresses event next)
    (hresumed : event.resumed = some ctx) (hp : world.Parked addresses ctx snap rest) :
    snapshot next.cpu = snap ∧ Holds next.cpu.memory snap.rsp rest := by
  obtain ⟨stack, hstack, hframe⟩ := hp.frame
  obtain ⟨hcell, hmemory⟩ := hs.keeps h ctx stack hp.off.symm hstack
  obtain ⟨-, -, hblock⟩ := hframe.congr hcell hmemory
  rw [hcell] at hblock
  obtain ⟨hwords, hrest⟩ := hblock.append
  refine ⟨?_, hrest snap.rsp hp.rsp⟩
  obtain ⟨hadmits, rfl⟩ := hs
  cases event with
  | compute _ => cases hresumed
  | init _ _ _ => cases hresumed
  | finish _ => cases hresumed
  | switch slot back =>
      obtain rfl : some slot = ctx := by simpa [SwitchEvent.resumed] using hresumed
      exact callSwitch_snapshot hadmits.2.2.le hwords hp.rsp
  | yield slot back =>
      obtain rfl : none = ctx := by simpa [SwitchEvent.resumed] using hresumed
      exact callSwitch_snapshot hadmits.2.le hwords hp.rsp

end World

theorem arrives_of_snapshot {addresses : Addresses} {cpu : Cpu} {top : UInt64}
    (hsnap : snapshot cpu = Snapshot.fresh addresses.asmTrampoline top)
    (hsched : cpu.memory (top - 8) = addresses.sched) (hsize : 16 ≤ top.toNat)
    (haligned : top.toNat % 16 = 0) : Arrives addresses cpu := by
  have hrsp : cpu.regs .rsp = top - 8 := congrArg Snapshot.rsp hsnap
  have hbx : cpu.regs .rbx = 0 := congrArg Snapshot.rbx hsnap
  have hbp : cpu.regs .rbp = 0 := congrArg Snapshot.rbp hsnap
  have h12 : cpu.regs .r12 = 0 := congrArg Snapshot.r12 hsnap
  have h13 : cpu.regs .r13 = 0 := congrArg Snapshot.r13 hsnap
  have h14 : cpu.regs .r14 = 0 := congrArg Snapshot.r14 hsnap
  have h15 : cpu.regs .r15 = 0 := congrArg Snapshot.r15 hsnap
  refine ⟨congrArg Snapshot.rip hsnap, ?_, fun back => rfl, fun back => ?_, fun back => ?_⟩
  · have hentry : (cpu.run Asm.trampolineEntry).regs .rsp = top - 8 - 8 := by
      rw [← hrsp]
      rfl
    have hfirst : (top - 8).toNat = top.toNat - 8 := toNat_sub_eight (by omega)
    rw [hentry, toNat_sub_eight (by omega)]
    omega
  · rw [← hsched, ← hrsp]
    rfl
  · have hkept : ∀ reg, reg ≠ .rsp → reg ≠ .rdi →
        (cpu.run (Asm.trampoline addresses.coroutineMain back)).regs reg = cpu.regs reg := by
      intro reg hsp hdi
      simp [Asm.trampoline, Asm.trampolineEntry, Cpu.exec, Cpu.pushWord_of_ne, Cpu.set_of_ne, hsp,
        hdi]
    simp [hkept, hbx, hbp, h12, h13, h14, h15]

namespace World

variable {addresses : Addresses} {first world next : World} {log : List SwitchEvent}
  {event : SwitchEvent} {ctx : Option Slot}

theorem LastEvent.skip {last : SwitchEvent} {before : World}
    (h : world.LastEvent addresses first log ctx last before)
    (hs : world.Step addresses event next) (ht : ¬event.Touches ctx) :
    next.LastEvent addresses first (event :: log) ctx last before := by
  obtain ⟨newer, older, after, rfl, hbefore, hstep, hafter, htouch, hquiet⟩ := h
  refine ⟨event :: newer, older, after, rfl, hbefore, hstep, hafter.snoc hs, htouch, ?_⟩
  intro other hmem
  cases hmem with
  | head => exact ht
  | tail _ hmem => exact hquiet other hmem

theorem LastEvent.now (hpath : Path (Step addresses) first log world)
    (hs : world.Step addresses event next) (ht : event.Touches ctx) :
    next.LastEvent addresses first (event :: log) ctx event world :=
  ⟨[], log, next, rfl, hpath, hs, .nil, ht, fun _ hmem => absurd hmem List.not_mem_nil⟩

-- A context with a stack that is not on the processor has called, or has just been made, and its
-- frame is that of this event.
def Accounted (addresses : Addresses) (first : World) (log : List SwitchEvent) (world : World)
    (ctx : Option Slot) : Prop :=
  ∃ last before, world.LastEvent addresses first log ctx last before ∧
    ((∃ back, last.call = some (ctx, back) ∧
        world.Parked addresses ctx { snapshot before.cpu with rip := back } []) ∨
      ∃ slot stack back, ctx = some slot ∧ last = .init slot stack back ∧
        before.Fresh addresses stack ∧
        world.Parked addresses (some slot) (Snapshot.fresh addresses.asmTrampoline stack.top)
          [addresses.sched])

theorem Step.accounted (hpath : Path (Step addresses) first log world)
    (h : world.Separate addresses)
    (ih : world.current ≠ ctx → world.regions ctx ≠ none →
      Accounted addresses first log world ctx)
    (hs : world.Step addresses event next) (hoff : next.current ≠ ctx)
    (hregions : next.regions ctx ≠ none) :
    Accounted addresses first (event :: log) next ctx := by
  by_cases ht : event.Touches ctx
  · have hlast := LastEvent.now hpath hs ht
    cases event with
    | compute cpu => cases ht
    | init slot stack back =>
        obtain rfl : ctx = some slot := ht
        exact ⟨_, _, hlast, .inr ⟨slot, stack, back, rfl, rfl, hs.1.2.1, hs.parked_init h⟩⟩
    | finish slot =>
        obtain rfl : ctx = some slot := ht
        rw [hs.2] at hregions
        exact absurd (Function.update_self _ _ _) hregions
    | switch slot back =>
        rw [hs.2] at hoff
        cases ht with
        | inl ht => exact absurd ht.symm hoff
        | inr ht =>
            have hcall : (SwitchEvent.switch slot back).call = some (ctx, back) := by rw [ht]; rfl
            exact ⟨_, _, hlast, .inl ⟨back, hcall, hs.parked_call h hcall⟩⟩
    | yield slot back =>
        rw [hs.2] at hoff
        cases ht with
        | inr ht => exact absurd ht.symm hoff
        | inl ht =>
            have hcall : (SwitchEvent.yield slot back).call = some (ctx, back) := by rw [ht]; rfl
            exact ⟨_, _, hlast, .inl ⟨back, hcall, hs.parked_call h hcall⟩⟩
  · obtain ⟨hsame, hcurrent⟩ := hs.untouched ht
    rw [hsame] at hregions
    obtain ⟨last, before, hlast, horigin⟩ := ih (fun he => hoff (hcurrent.mpr he)) hregions
    refine ⟨last, before, hlast.skip hs ht, ?_⟩
    cases horigin with
    | inl hcall =>
        obtain ⟨back, hcall, hparked⟩ := hcall
        exact .inl ⟨back, hcall, hparked.step h hs ht⟩
    | inr hinit =>
        obtain ⟨slot, stack, back, hslot, hinit, hfresh, hparked⟩ := hinit
        rw [hslot] at ht
        exact .inr ⟨slot, stack, back, hslot, hinit, hfresh, hparked.step h hs ht⟩

theorem Initial.accounted (hinit : first.Initial addresses)
    (hpath : Path (Step addresses) first log world) :
    world.Separate addresses ∧ ∀ ctx, world.current ≠ ctx → world.regions ctx ≠ none →
      Accounted addresses first log world ctx := by
  induction hpath with
  | nil =>
      refine ⟨hinit.separate, fun ctx hoff hregions => ?_⟩
      cases ctx with
      | none => exact absurd hinit.current hoff
      | some slot => exact absurd (hinit.coroutines slot) hregions
  | snoc hpath hs ih =>
      refine ⟨hs.separate ih.1, fun ctx hoff hregions => ?_⟩
      exact hs.accounted hpath ih.1 (ih.2 ctx) hoff hregions

theorem Step.resumed_parked (h : world.Separate addresses)
    (hs : world.Step addresses event next) (hresumed : event.resumed = some ctx) :
    world.current ≠ ctx ∧ world.regions ctx ≠ none := by
  obtain ⟨hadmits, rfl⟩ := hs
  cases event with
  | compute _ => cases hresumed
  | init _ _ _ => cases hresumed
  | finish _ => cases hresumed
  | switch slot back =>
      obtain rfl : some slot = ctx := by simpa [SwitchEvent.resumed] using hresumed
      exact ⟨by simp [hadmits.1], hadmits.2.1⟩
  | yield slot back =>
      obtain rfl : none = ctx := by simpa [SwitchEvent.resumed] using hresumed
      exact ⟨by simp [hadmits.1], h.scheduler⟩

theorem Initial.regains (hinit : first.Initial addresses)
    (hpath : Path (Step addresses) first log world) (hs : world.Step addresses event next)
    (hresumed : event.resumed = some ctx) :
    ∃ last before, world.LastEvent addresses first log ctx last before ∧
      ((∃ back, last.call = some (ctx, back) ∧
          snapshot next.cpu = { snapshot before.cpu with rip := back }) ∨
        ∃ slot stack back, ctx = some slot ∧ last = .init slot stack back ∧
          Arrives addresses next.cpu) := by
  obtain ⟨h, haccounted⟩ := hinit.accounted hpath
  obtain ⟨hoff, hregions⟩ := hs.resumed_parked h hresumed
  obtain ⟨last, before, hlast, horigin⟩ := haccounted ctx hoff hregions
  refine ⟨last, before, hlast, ?_⟩
  cases horigin with
  | inl hcall =>
      obtain ⟨back, hcall, hparked⟩ := hcall
      exact .inl ⟨back, hcall, (hs.restores h hresumed hparked).1⟩
  | inr hmade =>
      obtain ⟨slot, stack, back, rfl, hmade, hfresh, hparked⟩ := hmade
      obtain ⟨hsnap, hsched⟩ := hs.restores h hresumed hparked
      have hsize := hfresh.size
      exact .inr ⟨slot, stack, back, rfl, hmade,
        arrives_of_snapshot hsnap hsched.1 (by omega) hfresh.aligned⟩

-- A scheduler at 0x1000 makes a coroutine and switches to it; the coroutine changes a register,
-- writes to its stack and yields; the scheduler switches to it again.
def firstAddresses : Addresses := ⟨0x1000, 0x401000, 0x401100, 0x401200, 0x401300, by decide⟩

def firstWorld : World where
  cpu := ⟨fun reg => if reg = .rsp then 0x18000 else 1, 0x402000, fun _ => 0⟩
  current := none
  regions := fun ctx => if ctx = none then some ⟨0x10000, 0x20000⟩ else none

def firstMade : World := firstWorld.exec firstAddresses (.init 0 ⟨0x30000, 0x40000⟩ 0x402010)

def firstEntered : World := firstMade.exec firstAddresses (.switch 0 0x402020)

def firstWriting : SwitchEvent := .compute ((firstEntered.cpu.set .rbx 7).write 0x30000 9)

def firstComputed : World := firstEntered.exec firstAddresses firstWriting

def firstYielded : World := firstComputed.exec firstAddresses (.yield 0 0x403000)

theorem Initial.regains_first :
    ∃ last before,
      firstYielded.LastEvent firstAddresses firstWorld
          [.yield 0 0x403000, firstWriting, .switch 0 0x402020,
            .init 0 ⟨0x30000, 0x40000⟩ 0x402010] (some 0) last before ∧
        ((∃ back, last.call = some (some 0, back) ∧
            snapshot (firstYielded.exec firstAddresses (.switch 0 0x402020)).cpu =
              { snapshot before.cpu with rip := back }) ∨
          ∃ slot stack back, some (0 : Slot) = some slot ∧ last = .init slot stack back ∧
            Arrives firstAddresses
              (firstYielded.exec firstAddresses (.switch 0 0x402020)).cpu) := by
  have hinitial : firstWorld.Initial firstAddresses :=
    ⟨rfl, ⟨⟨0x10000, 0x20000⟩, rfl, by decide⟩, fun _ => rfl⟩
  have hfresh : firstWorld.Fresh firstAddresses ⟨0x30000, 0x40000⟩ := by
    refine ⟨fun ctx other hother => ?_, by decide, by decide, by decide⟩
    cases ctx with
    | some slot => cases hother
    | none =>
        obtain rfl : ⟨0x10000, 0x20000⟩ = other := Option.some.inj hother
        decide
  have hmade : firstWorld.Step firstAddresses (.init 0 ⟨0x30000, 0x40000⟩ 0x402010) firstMade :=
    ⟨⟨rfl, hfresh, ⟨0x10000, 0x20000⟩, rfl, by decide, by decide⟩, rfl⟩
  have hseparate := hmade.separate hinitial.separate
  have hentered : firstMade.Step firstAddresses (.switch 0 0x402020) firstEntered :=
    ⟨⟨rfl, by decide, ⟨0x10000, 0x20000⟩, rfl, by decide, by decide⟩, rfl⟩
  have hown : firstEntered.regions firstEntered.current = some ⟨0x30000, 0x40000⟩ := rfl
  have hwrites : ChangesOnly ⟨0x30000, 0x40000⟩ firstEntered.cpu.memory
      ((firstEntered.cpu.set .rbx 7).write 0x30000 9).memory := by
    intro address hout
    have hne : address ≠ 0x30000 := by
      intro he
      rw [he] at hout
      exact hout (by decide)
    exact Function.update_of_ne hne _ _
  have hcomputed : firstEntered.Step firstAddresses firstWriting firstComputed :=
    ⟨(hentered.separate hseparate).keeps_own hown hwrites, rfl⟩
  have hyielded : firstComputed.Step firstAddresses (.yield 0 0x403000) firstYielded :=
    ⟨⟨rfl, ⟨0x30000, 0x40000⟩, rfl, by decide, by decide⟩, rfl⟩
  have hswitch : firstYielded.Step firstAddresses (.switch 0 0x402020) _ :=
    ⟨⟨rfl, by decide, ⟨0x10000, 0x20000⟩, rfl, by decide, by decide⟩,
      rfl⟩
  exact Initial.regains hinitial
    (.snoc (.snoc (.snoc (.snoc .nil hmade) hentered) hcomputed) hyielded) hswitch rfl

end World

end Minimk.Runtime
