import Minimk.Runtime.Process.Shifts
import Minimk.Runtime.Switch.Theorems

namespace Minimk.Runtime

open Abort Amd64 Transition

namespace World

variable {addresses : Addresses} {world next : World} {event : SwitchEvent} {ctx : Option Slot}
  {snap : Snapshot} {rest : List UInt64} {events : List SwitchEvent}

theorem Path.separate (h : world.Separate addresses)
    (hp : Path (Step addresses) world events next) : next.Separate addresses := by
  induction hp with
  | nil => exact h
  | snoc _ hs ih => exact hs.separate ih

-- A context that no event of a path touches has the same frame and the same stack pointer.
theorem Path.parked (h : world.Separate addresses)
    (hp : Path (Step addresses) world events next) (hquiet : ∀ event ∈ events, ¬event.Touches ctx)
    (hparked : world.Parked addresses ctx snap rest) :
    next.Parked addresses ctx snap rest ∧
      next.cpu.memory (addresses.cell ctx) = world.cpu.memory (addresses.cell ctx) := by
  induction hp with
  | nil => exact ⟨hparked, rfl⟩
  | snoc hp hs ih =>
      obtain ⟨hold, hcell⟩ := ih fun other ho => hquiet other (List.mem_cons_of_mem _ ho)
      have hseparate := Path.separate h hp
      obtain ⟨stack, hstack, -⟩ := hold.frame
      have hkeeps := (hs.keeps hseparate ctx stack hold.off.symm hstack).1
      exact ⟨hold.step hseparate hs (hquiet _ List.mem_cons_self), hkeeps.trans hcell⟩

theorem Path.regions (hp : Path (Step addresses) world events next)
    (hquiet : ∀ event ∈ events, ¬event.Touches ctx) : next.regions ctx = world.regions ctx := by
  induction hp with
  | nil => rfl
  | snoc _ hs ih =>
      have hold := ih fun other ho => hquiet other (List.mem_cons_of_mem _ ho)
      exact (hs.untouched (hquiet _ List.mem_cons_self)).1.trans hold

-- Nor is its stack written to.
theorem Path.stack (h : world.Separate addresses)
    (hp : Path (Step addresses) world events next) (hquiet : ∀ event ∈ events, ¬event.Touches ctx)
    (hparked : world.Parked addresses ctx snap rest) {stack : Region}
    (hstack : world.regions ctx = some stack) {address : UInt64}
    (hin : stack.Contains address) : next.cpu.memory address = world.cpu.memory address := by
  induction hp with
  | nil => rfl
  | snoc hp hs ih =>
      have hrest := fun other ho => hquiet other (List.mem_cons_of_mem _ ho)
      have hoff := (Path.parked h hp hrest hparked).1.off.symm
      have hregions := (Path.regions hp hrest).trans hstack
      have hkeeps := (hs.keeps (Path.separate h hp) ctx stack hoff hregions).2 address hin
      exact hkeeps.trans (ih hrest)

variable {before : World}

theorem KeepsStack.path (hkept : before.KeepsStack ctx world) (h : world.Separate addresses)
    (hp : Path (Step addresses) world events next) (hquiet : ∀ event ∈ events, ¬event.Touches ctx)
    (hparked : world.Parked addresses ctx snap rest) : before.KeepsStack ctx next := by
  refine ⟨hkept.current, (Path.regions hp hquiet).trans hkept.regions, ?_⟩
  intro stack hstack address hin hup
  have hsame := Path.stack h hp hquiet hparked (hkept.regions.trans hstack) hin
  exact hsame.trans (hkept.memory stack hstack address hin hup)

-- A context that calls writes below its stack pointer only.
theorem callSwitch_above {target : Option Slot} {new back : UInt64}
    (h : world.Separate addresses) (hroom : world.Room 56) (hctx : world.current = ctx) :
    world.KeepsStack ctx { world with
      cpu := callSwitch addresses world.cpu (addresses.cell ctx) new back, current := target } := by
  refine ⟨hctx, rfl, ?_⟩
  intro stack hstack address hin hup
  obtain ⟨own, hown, hbottom, -⟩ := hroom
  have hcell : address ≠ addresses.cell ctx := by
    intro he
    rw [he] at hin
    exact h.not_contains hstack ctx hin
  refine @callSwitch_memory addresses world.cpu _ _ _ ⟨own.bottom, world.cpu.regs .rsp⟩ hbottom
    (Nat.le_refl _) address hcell ?_
  rw [UInt64.le_iff_toNat_le] at hup
  simp only [Region.Contains]
  omega

theorem Step.keepsStack {back : UInt64} (h : world.Separate addresses)
    (hs : world.Step addresses event next) (hcall : event.call = some (ctx, back)) :
    world.KeepsStack ctx next := by
  obtain ⟨hadmits, rfl⟩ := hs
  cases event with
  | compute _ => cases hcall
  | init _ _ _ => cases hcall
  | finish _ => cases hcall
  | switch slot back' =>
      obtain ⟨rfl, -⟩ : none = ctx ∧ back' = back := by simpa [SwitchEvent.call] using hcall
      exact callSwitch_above h hadmits.2.2 hadmits.1
  | yield slot back' =>
      obtain ⟨rfl, -⟩ : some slot = ctx ∧ back' = back := by simpa [SwitchEvent.call] using hcall
      exact callSwitch_above h hadmits.2 hadmits.1

-- Control comes back to a context with its registers and its stack.
theorem Step.goesOn {back : UInt64} (h : world.Separate addresses)
    (hs : world.Step addresses event next) (hresumed : event.resumed = some ctx)
    (hparked : world.Parked addresses ctx { snapshot before.cpu with rip := back } [])
    (hkept : before.KeepsStack ctx world) : before.GoesOn back next := by
  have hsnap := (hs.restores h hresumed hparked).1
  have hkeeps := hs.keeps h ctx
  have hnext : next.current = ctx ∧ next.regions = world.regions := by
    obtain ⟨-, rfl⟩ := hs
    cases event with
    | compute _ => cases hresumed
    | init _ _ _ => cases hresumed
    | finish _ => cases hresumed
    | switch slot back' => exact ⟨Option.some.inj hresumed, rfl⟩
    | yield slot back' => exact ⟨Option.some.inj hresumed, rfl⟩
  obtain ⟨hcurrent, hregions⟩ := hnext
  refine ⟨hcurrent.trans hkept.current.symm, hsnap, rfl, ?_, ?_⟩
  · rw [hregions, hkept.current]
    exact hkept.regions
  · rw [hkept.current]
    intro stack hstack address hin hup
    have hsame := (hkeeps stack hparked.off.symm (hkept.regions.trans hstack)).2 address hin
    exact hsame.trans (hkept.memory stack hstack address hin hup)

-- Giving up stacks leaves the processor with the context it is with.
theorem finish_path (hcurrent : world.current = none) (slots : List Slot) :
    Path (Step addresses) world (slots.map .finish)
        (world.execAll addresses (slots.map .finish)) ∧
      (world.execAll addresses (slots.map .finish)).current = none ∧
      ∀ slot ∈ slots,
        (world.execAll addresses (slots.map .finish)).regions (some slot) = none := by
  induction slots with
  | nil => exact ⟨.nil, hcurrent, fun _ hm => absurd hm List.not_mem_nil⟩
  | cons first rest ih =>
      obtain ⟨hpath, hnone, hgone⟩ := ih
      refine ⟨hpath.snoc ⟨hnone, rfl⟩, hnone, ?_⟩
      intro slot hm
      by_cases he : slot = first
      · rw [he]
        exact Function.update_self _ _ _
      · have hother : some slot ≠ some first := fun hs => he (Option.some.inj hs)
        have hrest := hgone slot (List.mem_of_ne_of_mem he hm)
        exact (Function.update_of_ne hother _ _).trans hrest

end World

namespace Process

variable {addresses : Addresses} {p next : Process} {log : List ProcessEvent} {action : Action}
  {event : Event} {label : ProcessEvent} {back : UInt64} {idx : Slot} {output : Output}

theorem exec_eq_ok (h : p.exec addresses action back = some (.ok (next, output))) :
    p.machine.Step ⟨action, output⟩ next.machine ∧
      next.world = p.world.execAll addresses (p.machine.routines next.machine output back) := by
  obtain ⟨result, hresult, h⟩ := Option.bind_eq_some_iff.mp h
  obtain ⟨⟨machine, out⟩, rfl, h⟩ := (bind_eq_ok_iff _ _ _).mp (Option.some.inj h)
  cases h
  exact ⟨hresult, rfl⟩

theorem exec_eq_error {code : Assertion}
    (h : p.exec addresses action back = some (.error code)) :
    p.machine.exec action = some (.error code) := by
  obtain ⟨result, hresult, h⟩ := Option.bind_eq_some_iff.mp h
  rcases (bind_eq_error_iff _ _ _).mp (Option.some.inj h) with rfl | ⟨_, _, h⟩
  · exact hresult
  · cases h

theorem Step.world_eq (hs : p.Step addresses label next) :
    next.world = p.world.execAll addresses (p.calls next label) := by
  cases label with
  | compute cpu =>
      obtain ⟨-, rfl⟩ := hs
      rfl
  | runtime event back => exact (exec_eq_ok hs.2).2

-- A coroutine that is off the processor is as its creation or its last call has left it.
inductive Left (addresses : Addresses) (log : List ProcessEvent) (p : Process) (idx : Slot) : Prop
  | fresh (reply : StackReply) (calls : List MemCall) (back : UInt64) (before : Process)
      (hlatest : Latest (Initial addresses) (Step addresses)
        (ProcessEvent.Concerns (p.machine.serials idx)) log
        (.runtime ⟨.go (p.machine.sched.coroutines idx).entry
          (p.machine.sched.coroutines idx).argument reply,
          .created (p.machine.serials idx) calls⟩ back) before)
      (hcont : p.machine.conts idx = .fresh)
      (hparked : p.world.Parked addresses (some idx)
        (Snapshot.fresh addresses.asmTrampoline (p.machine.sched.coroutines idx).stack.top)
        [addresses.sched])
  | called (action : Action) (back : UInt64) (before : Process)
      (hlatest : Latest (Initial addresses) (Step addresses)
        (ProcessEvent.Concerns (p.machine.serials idx)) log
        (.runtime ⟨action, .left (p.machine.serials idx)⟩ back) before)
      (hcont : action.cont = some (p.machine.conts idx))
      (hparked : p.world.Parked addresses (some idx)
        { snapshot before.world.cpu with rip := back } [])
      (hkept : before.world.KeepsStack (some idx) p.world)

theorem Left.parked (h : Left addresses log p idx) :
    ∃ snap rest, p.world.Parked addresses (some idx) snap rest := by
  cases h with
  | fresh _ _ _ _ _ _ hparked => exact ⟨_, _, hparked⟩
  | called _ _ _ _ _ hparked _ => exact ⟨_, _, hparked⟩

-- So is the scheduler while a coroutine runs.
def SchedulerLeft (addresses : Addresses) (log : List ProcessEvent) (p : Process) : Prop :=
  ∃ idx sp how back before, p.machine.context = some idx ∧
    Latest (Initial addresses) (Step addresses) ProcessEvent.Switches log
      (.runtime ⟨.switch sp, .resumed (p.machine.serials idx) how⟩ back) before ∧
    p.world.Parked addresses none { snapshot before.world.cpu with rip := back } [] ∧
    before.world.KeepsStack none p.world

-- What the machine takes for granted of the stack of a slot is how things are.
structure SlotSound (addresses : Addresses) (log : List ProcessEvent) (p : Process) (idx : Slot) :
    Prop where
  region : p.world.regions (some idx) =
    if p.machine.conts idx = .idle then none
    else some (p.machine.sched.coroutines idx).stack.region
  guarded : p.machine.conts idx ≠ .idle → (p.machine.sched.coroutines idx).stack.Guarded
  saved : p.machine.conts idx ≠ .idle → p.machine.conts idx ≠ .running →
    (p.machine.sched.coroutines idx).sp = p.world.cpu.memory (addresses.cell (some idx)) ∧
      Left addresses log p idx

structure Sound (addresses : Addresses) (log : List ProcessEvent) (p : Process) : Prop where
  machine : Machine.Reachable p.machine
  separate : p.world.Separate addresses
  context : p.world.current = p.machine.context
  slots : ∀ idx, SlotSound addresses log p idx
  scheduler : p.machine.context ≠ none → SchedulerLeft addresses log p

namespace Sound

theorem region_of_used (h : Sound addresses log p) (hidle : p.machine.conts idx ≠ .idle) :
    p.world.regions (some idx) = some (p.machine.sched.coroutines idx).stack.region := by
  rw [(h.slots idx).region, if_neg hidle]

-- The range of a new stack is apart from everything that is in use.
theorem fresh_stack (h : Sound addresses log p) {reply : StackReply} {stack : Stack}
    {calls : List MemCall} (hpaged : reply.Paged)
    (hspare : ∀ base ∈ reply.mmap, p.Spare addresses ⟨base, base + stackSizeOf reply⟩)
    (halloc : stackAlloc .zero reply = .ok (.success, stack, calls))
    (hfresh : p.machine.memory.Fresh stack.mapping) :
    p.world.Fresh addresses stack.region := by
  have hguarded := stackAlloc_guarded hpaged halloc
  obtain ⟨hguard, hroom, htop, haligned⟩ := hguarded
  obtain ⟨base, hmmap, hmapping⟩ :
      ∃ base ∈ reply.mmap, stack.mapping = ⟨base, stackSizeOf reply⟩ := by
    rcases stackAlloc_eq_ok halloc with ⟨hrv, -⟩ | ⟨-, base, hmmap, hmapping, -⟩
    · cases hrv
    · exact ⟨base, hmmap, hmapping⟩
  obtain rfl : stack.base = base := congrArg Mapping.base hmapping
  have hsize : stack.size = stackSizeOf reply := congrArg Mapping.size hmapping
  have hend : (stack.base + stackSizeOf reply).toNat = stack.top.toNat := by
    have hbound := stack.top.toNat_lt
    rw [← hsize, UInt64.toNat_add]
    omega
  have hinside : ∀ other : Region,
      (⟨stack.base, stack.base + stackSizeOf reply⟩ : Region).Disjoint other →
        stack.region.Disjoint other := by
    intro other hdisjoint
    simp only [Region.Disjoint, Stack.region, hend] at hdisjoint ⊢
    omega
  obtain ⟨hstruct, hscheduler⟩ := hspare stack.base hmmap
  refine ⟨?_, hinside _ hstruct, haligned, ?_⟩
  · intro ctx other hother
    cases ctx with
    | none => exact hinside _ (hscheduler other hother)
    | some slot =>
        have hused : p.machine.conts slot ≠ .idle := by
          intro hidle
          rw [(h.slots slot).region, if_pos hidle] at hother
          cases hother
        rw [h.region_of_used hused] at hother
        obtain ⟨hguard', hroom', htop', -⟩ := (h.slots slot).guarded hused
        have hmem := (h.machine.layout.mem_iff _).mpr ⟨slot, hused, rfl⟩
        have hapart := hfresh.2.2 _ hmem
        rw [← Option.some.inj hother]
        simp only [Mapping.Disjoint, Region.Disjoint, Stack.mapping, Stack.region,
          Machine.stackOf] at hapart ⊢
        omega
  · simp only [Stack.region]
    omega

-- The processor can do what the machine asks of it.
theorem path (h : Sound addresses log p) (hs : p.Step addresses label next) :
    Path (World.Step addresses) p.world (p.calls next label) next.world := by
  have hworld := hs.world_eq
  cases label with
  | compute cpu =>
      rw [hworld]
      exact .snoc .nil ⟨hs.1, rfl⟩
  | runtime event back =>
      obtain ⟨hpromises, hexec⟩ := hs
      have hmachine := (exec_eq_ok hexec).1
      rw [hworld]
      simp only [calls]
      cases hmachine.shifts (Machine.Reachable.holds h.machine) with
      | stays hc =>
          rw [hc.routines]
          exact .nil
      | created idx reply stack made hc =>
          have haction : event.action.reply = some reply := by
            rw [show event = _ from hc.event]
            rfl
          rw [hc.routines_eq]
          refine .snoc .nil ⟨⟨?_, ?_, ?_⟩, rfl⟩
          · exact (h.slots idx).region.trans (if_pos hc.idle)
          · exact h.fresh_stack (hpromises.pages reply haction) (hpromises.spare reply haction)
              hc.alloc hc.fresh
          · exact hpromises.callRoom reply haction
      | cleaned made hc =>
          rw [hc.routines_eq]
          exact (World.finish_path (h.context.trans hc.before) _).1
      | resumed idx sp coro how hc =>
          have hsaves : event.action.saves = some sp := by
            rw [show event = _ from hc.event]
            rfl
          rw [hc.routines_eq]
          refine .snoc .nil ⟨⟨h.context.trans hc.before, ?_, hpromises.switchRoom sp hsaves⟩, rfl⟩
          intro hnone
          exact Option.some_ne_none _ ((h.region_of_used hc.regains.used.1).symm.trans hnone)
      | left idx sp hc =>
          rw [hc.routines_eq]
          exact .snoc .nil ⟨⟨h.context.trans hc.before, hpromises.switchRoom sp hc.saves⟩, rfl⟩

end Sound

namespace SlotSound

-- A slot that an event passes by.
theorem keep (h : SlotSound addresses log p idx) (hseparate : p.world.Separate addresses)
    (hpath : Path (World.Step addresses) p.world (p.calls next label) next.world)
    (hquiet : ∀ call ∈ p.calls next label, ¬call.Touches (some idx))
    (hidle : p.machine.conts idx = .idle → next.machine.conts idx = .idle)
    (hframe : p.machine.conts idx ≠ .idle → p.machine.SameFrame next.machine idx ∧
      ¬label.Concerns (p.machine.serials idx)) : SlotSound addresses (label :: log) next idx := by
  have hregions := World.Path.regions hpath hquiet
  by_cases hused : p.machine.conts idx = .idle
  · have hnext := hidle hused
    refine ⟨?_, fun hn => absurd hnext hn, fun hn => absurd hnext hn⟩
    rw [hregions, h.region, if_pos hused, if_pos hnext]
  · obtain ⟨⟨hconts, hserials, hsp, horigin⟩, hconcerns⟩ := hframe hused
    refine ⟨?_, fun _ => ?_, fun _ hrunning => ?_⟩
    · rw [hregions, h.region, hconts, horigin.stack]
    · rw [horigin.stack]
      exact h.guarded hused
    · rw [hconts] at hrunning
      obtain ⟨hsaved, hleft⟩ := h.saved hused hrunning
      obtain ⟨snap, rest, hparked⟩ := hleft.parked
      have hcell := (World.Path.parked hseparate hpath hquiet hparked).2
      refine ⟨by rw [hsp, hcell, hsaved], ?_⟩
      cases hleft with
      | fresh reply made back before hlatest hcont hparked =>
          refine .fresh reply made back before ?_ (hconts.trans hcont) ?_
          · rw [hserials, horigin.entry, horigin.argument]
            exact hlatest.skip hconcerns
          · rw [horigin.stack]
            exact (World.Path.parked hseparate hpath hquiet hparked).1
      | called action back before hlatest hcont hparked hkept =>
          refine .called action back before ?_ (by rw [hconts, hcont]) ?_ ?_
          · rw [hserials]
            exact hlatest.skip hconcerns
          · exact (World.Path.parked hseparate hpath hquiet hparked).1
          · exact hkept.path hseparate hpath hquiet hparked

end SlotSound

-- The scheduler stays where it has switched to a coroutine as long as the coroutine runs.
theorem SchedulerLeft.keep (h : SchedulerLeft addresses log p)
    (hseparate : p.world.Separate addresses)
    (hpath : Path (World.Step addresses) p.world (p.calls next label) next.world)
    (hquiet : ∀ call ∈ p.calls next label, ¬call.Touches none)
    (hcontext : next.machine.context = p.machine.context)
    (hserials : ∀ idx, p.machine.context = some idx →
      next.machine.serials idx = p.machine.serials idx)
    (hswitches : ¬label.Switches) : SchedulerLeft addresses (label :: log) next := by
  obtain ⟨idx, sp, how, back, before, hidx, hlatest, hparked, hkept⟩ := h
  refine ⟨idx, sp, how, back, before, hcontext.trans hidx, ?_, ?_, ?_⟩
  · rw [hserials idx hidx]
    exact hlatest.skip hswitches
  · exact (World.Path.parked hseparate hpath hquiet hparked).1
  · exact hkept.path hseparate hpath hquiet hparked

namespace Sound

-- The serials of the other coroutines are not those that an event is about.
theorem not_concerns (h : Sound addresses log p) {i : Slot} (hne : i ≠ idx)
    (hi : p.machine.conts i ≠ .idle) (hidx : p.machine.conts idx ≠ .idle)
    (hserial : event.output.serial = some (p.machine.serials idx)) :
    ¬ProcessEvent.Concerns (p.machine.serials i) (.runtime event back) := by
  intro hconcerns
  have he : some (p.machine.serials idx) = some (p.machine.serials i) :=
    hserial.symm.trans hconcerns
  have hinvariant := Machine.Reachable.holds h.machine
  exact hne (hinvariant.serial_inj i idx hi hidx (Option.some.inj he).symm)

-- A step whose part of the processor is one call.
theorem single_call (h : Sound addresses log p) {call : SwitchEvent}
    (hs : p.Step addresses label next) (hcalls : p.calls next label = [call]) :
    p.world.Step addresses call next.world := by
  have hpath := h.path hs
  rw [hcalls] at hpath
  cases hpath with
  | snoc hnil hcall =>
      cases hnil
      exact hcall

section Cases

variable (h : Sound addresses log p) (hrun : Run addresses log p)

include h

theorem compute {cpu : Cpu} (hs : p.Step addresses (.compute cpu) next) :
    Sound addresses (.compute cpu :: log) next := by
  have hpath := h.path hs
  have hseparate := World.Path.separate h.separate hpath
  obtain ⟨-, rfl⟩ := hs
  have hquiet : ∀ ctx, ∀ call ∈ [SwitchEvent.compute cpu], ¬call.Touches ctx := by
    intro ctx call hm
    rw [List.mem_singleton.mp hm]
    exact fun ht => ht
  refine ⟨h.machine, hseparate, h.context, fun idx => ?_, fun hne => ?_⟩
  · exact (h.slots idx).keep h.separate hpath (hquiet _) (fun hi => hi)
      fun _ => ⟨.of_eq rfl rfl rfl, fun hc => hc⟩
  · exact (h.scheduler hne).keep h.separate hpath (hquiet _) rfl (fun _ _ => rfl) fun hc => hc

theorem stays (hs : p.Step addresses (.runtime event back) next)
    (hc : p.machine.Quiet event next.machine) :
    Sound addresses (.runtime event back :: log) next := by
  have hpath := h.path hs
  have hseparate := World.Path.separate h.separate hpath
  have hquiet : ∀ ctx, ∀ call ∈ p.calls next (.runtime event back), ¬call.Touches ctx := by
    intro ctx call hm
    simp only [calls, hc.routines] at hm
    exact absurd hm List.not_mem_nil
  have hworld := hs.world_eq
  simp only [calls, hc.routines] at hworld
  refine ⟨h.machine.snoc (exec_eq_ok hs.2).1, hseparate, ?_, fun idx => ?_, fun hne => ?_⟩
  · rw [hworld, hc.context]
    exact h.context
  · refine (h.slots idx).keep h.separate hpath (hquiet _) (hc.idle idx) fun hused => ?_
    refine ⟨hc.same idx hused, fun hconcerns => ?_⟩
    exact Option.some_ne_none _ (hconcerns.symm.trans hc.serial)
  · rw [hc.context] at hne
    refine (h.scheduler hne).keep h.separate hpath (hquiet _) hc.context ?_ ?_
    · intro idx hidx
      have hrunning := (Machine.Reachable.holds h.machine).context_running hidx
      exact (hc.same idx (by simp [hrunning])).serials
    · rintro (⟨serial, how, houtput⟩ | ⟨serial, houtput⟩)
      all_goals
        have hserial := hc.serial
        rw [houtput] at hserial
        cases hserial

theorem cleaned {made : List MemCall} (hs : p.Step addresses (.runtime event back) next)
    (hc : p.machine.Cleans event next.machine made) :
    Sound addresses (.runtime event back :: log) next := by
  have hpath := h.path hs
  have hseparate := World.Path.separate h.separate hpath
  have hcalls : p.calls next (.runtime event back) = p.machine.exitedSlots.map .finish :=
    hc.routines_eq back
  have hworld := hs.world_eq
  rw [hcalls] at hworld
  obtain ⟨-, hcurrent, hgone⟩ :=
    @World.finish_path addresses _ (h.context.trans hc.before) p.machine.exitedSlots
  refine ⟨h.machine.snoc (exec_eq_ok hs.2).1, hseparate, ?_, fun idx => ?_, fun hne => ?_⟩
  · rw [hworld, hcurrent, hc.after]
  · by_cases hreturned : p.machine.conts idx = .returned
    · have hidle := hc.idle idx (.inr hreturned)
      refine ⟨?_, fun hn => absurd hidle hn, fun hn => absurd hidle hn⟩
      rw [hworld, if_pos hidle]
      exact hgone idx ((hc.exited idx).mpr hreturned)
    · refine (h.slots idx).keep h.separate hpath ?_ (fun hi => hc.idle idx (.inl hi)) fun _ => ?_
      · intro call hm ht
        rw [hcalls] at hm
        obtain ⟨slot, hslot, rfl⟩ := List.mem_map.mp hm
        obtain rfl : idx = slot := Option.some.inj ht
        exact hreturned ((hc.exited idx).mp hslot)
      · refine ⟨hc.others idx hreturned, fun hconcerns => ?_⟩
        have hserial : event.output.serial = some (p.machine.serials idx) := hconcerns
        rw [hc.output] at hserial
        cases hserial
  · exact absurd hc.after hne

include hrun

theorem created {reply : StackReply} {stack : Stack} {made : List MemCall}
    (hs : p.Step addresses (.runtime event back) next)
    (hc : p.machine.Creates event next.machine idx reply stack made) :
    Sound addresses (.runtime event back :: log) next := by
  have hpath := h.path hs
  have hseparate := World.Path.separate h.separate hpath
  have hcalls : p.calls next (.runtime event back) = [.init idx stack.region back] :=
    hc.routines_eq back
  have hinvariant := Machine.Reachable.holds h.machine
  have hquiet : ∀ ctx, ctx ≠ some idx →
      ∀ call ∈ p.calls next (.runtime event back), ¬call.Touches ctx := by
    intro ctx hne call hm
    rw [hcalls] at hm
    rw [List.mem_singleton.mp hm]
    exact hne
  have hcall := h.single_call hs hcalls
  refine ⟨h.machine.snoc (exec_eq_ok hs.2).1, hseparate, ?_, fun i => ?_, fun hne => ?_⟩
  · rw [hcall.2, hc.context]
    exact h.context
  · by_cases hi : i = idx
    · rw [hi]
      have hfresh := hcall.1.2.1
      refine ⟨?_, fun _ => ?_, fun _ _ => ⟨?_, ?_⟩⟩
      · rw [hc.conts, if_neg (by simp), hc.stack_eq, hcall.2]
        exact Function.update_self _ _ _
      · rw [hc.stack_eq]
        have hpages := hs.1.pages reply
        rw [hc.event] at hpages
        exact stackAlloc_guarded (hpages rfl) hc.alloc
      · have hcell : ¬stack.region.Contains (addresses.cell (some idx)) :=
          hfresh.outside.symm.not_contains (struct_contains addresses (some idx))
        rw [hc.sp_eq, hcall.2]
        exact (@callInitCoroStack_sp addresses p.world.cpu back stack.region
          (addresses.cell (some idx)) hfresh.size hcell).symm
      · refine .fresh reply made back p ?_ hc.conts ?_
        · rw [hc.serials, ← hc.event]
          refine .now hrun ?_
          rw [hc.event]
          rfl
        · rw [hc.stack_eq]
          exact hcall.parked_init h.separate
    · refine (h.slots i).keep h.separate hpath (hquiet _ (by simpa using hi)) ?_ ?_
      · intro hidle
        rw [(hc.others i hi).conts, hidle]
      · intro hused
        refine ⟨hc.others i hi, fun hconcerns => ?_⟩
        have hserial : event.output.serial = some (p.machine.serials i) := hconcerns
        rw [hc.event] at hserial
        have hlt := hinvariant.serial_lt i hused
        rw [← Option.some.inj hserial] at hlt
        exact absurd hlt (Nat.lt_irrefl _)
  · rw [hc.context] at hne
    refine (h.scheduler hne).keep h.separate hpath (hquiet _ (by simp)) hc.context ?_ ?_
    · intro i hidx
      have hrunning := hinvariant.context_running hidx
      refine (hc.others i ?_).serials
      rintro rfl
      rw [hc.idle] at hrunning
      cases hrunning
    · rintro (⟨serial, how, houtput⟩ | ⟨serial, houtput⟩)
      all_goals
        rw [hc.event] at houtput
        cases houtput

theorem resumed {sp : UInt64} {coro : Coroutine} {how : Resumed}
    (hs : p.Step addresses (.runtime event back) next)
    (hc : p.machine.Resumes event next.machine idx sp coro how) :
    Sound addresses (.runtime event back :: log) next := by
  have hpath := h.path hs
  have hseparate := World.Path.separate h.separate hpath
  have hcalls : p.calls next (.runtime event back) = [.switch idx back] := hc.routines_eq back
  have hcall := h.single_call hs hcalls
  refine ⟨h.machine.snoc (exec_eq_ok hs.2).1, hseparate, ?_, fun i => ?_, fun _ => ?_⟩
  · rw [hcall.2, hc.after]
    rfl
  · by_cases hi : i = idx
    · rw [hi]
      have hused := hc.regains.used.1
      refine ⟨?_, fun _ => ?_, fun _ hrunning => absurd hc.conts hrunning⟩
      · rw [hc.conts, if_neg (by simp), hc.origin.stack, hcall.2]
        exact h.region_of_used hused
      · rw [hc.origin.stack]
        exact (h.slots idx).guarded hused
    · refine (h.slots i).keep h.separate hpath ?_ ?_ ?_
      · intro call hm
        rw [hcalls] at hm
        rw [List.mem_singleton.mp hm]
        simp [SwitchEvent.Touches, hi]
      · intro hidle
        rw [(hc.others i hi).conts, hidle]
      · intro hused
        refine ⟨hc.others i hi, h.not_concerns hi hused hc.regains.used.1 ?_⟩
        rw [hc.event]
        rfl
  · refine ⟨idx, sp, how, back, p, hc.after, ?_, hcall.parked_call h.separate rfl,
      hcall.keepsStack h.separate rfl⟩
    rw [hc.serials, ← hc.event]
    refine .now hrun (.inl ⟨p.machine.serials idx, how, ?_⟩)
    rw [hc.event]

theorem left {sp : UInt64} (hs : p.Step addresses (.runtime event back) next)
    (hc : p.machine.Leaves event next.machine idx sp) :
    Sound addresses (.runtime event back :: log) next := by
  have hpath := h.path hs
  have hseparate := World.Path.separate h.separate hpath
  have hcalls : p.calls next (.runtime event back) = [.yield idx back] := hc.routines_eq back
  have hcall := h.single_call hs hcalls
  have hused : p.machine.conts idx ≠ .idle := by simp [hc.running]
  refine ⟨h.machine.snoc (exec_eq_ok hs.2).1, hseparate, ?_, fun i => ?_, fun hne => ?_⟩
  · rw [hcall.2, hc.after]
    rfl
  · by_cases hi : i = idx
    · rw [hi]
      refine ⟨?_, fun _ => ?_, fun _ _ => ⟨?_, ?_⟩⟩
      · rw [if_neg hc.idle, hc.origin.stack, hcall.2]
        exact h.region_of_used hused
      · rw [hc.origin.stack]
        exact (h.slots idx).guarded hused
      · rw [hc.sp_eq, hs.1.saved sp hc.saves, hcall.2, saved, hc.before]
      · obtain ⟨action, output⟩ := event
        obtain rfl : output = .left (p.machine.serials idx) := hc.output
        refine .called action back p ?_ hc.conts (hcall.parked_call h.separate rfl)
          (hcall.keepsStack h.separate rfl)
        rw [hc.serials]
        exact .now hrun rfl
    · refine (h.slots i).keep h.separate hpath ?_ ?_ ?_
      · intro call hm
        rw [hcalls] at hm
        rw [List.mem_singleton.mp hm]
        simp [SwitchEvent.Touches, hi]
      · intro hidle
        rw [(hc.others i hi).conts, hidle]
      · intro hother
        refine ⟨hc.others i hi, h.not_concerns hi hother hused ?_⟩
        rw [hc.output]
        rfl
  · exact absurd hc.after hne

theorem step (hs : p.Step addresses label next) : Sound addresses (label :: log) next := by
  cases label with
  | compute cpu => exact h.compute hs
  | runtime event back =>
      have hmachine := (exec_eq_ok hs.2).1
      cases hmachine.shifts (Machine.Reachable.holds h.machine) with
      | stays hc => exact h.stays hs hc
      | created idx reply stack made hc => exact h.created hrun hs hc
      | cleaned made hc => exact h.cleaned hs hc
      | resumed idx sp coro how hc => exact h.resumed hrun hs hc
      | left idx sp hc => exact h.left hrun hs hc

end Cases

-- The frame of a coroutine that is off the processor passes the check around the switch.
theorem validates (h : Sound addresses log p) (hidle : p.machine.conts idx ≠ .idle)
    (hrunning : p.machine.conts idx ≠ .running) :
    (p.machine.sched.coroutines idx).validateStackPointer = .ok () := by
  obtain ⟨hsaved, hleft⟩ := (h.slots idx).saved hidle hrunning
  obtain ⟨snap, rest, hparked⟩ := hleft.parked
  exact hparked.validates (h.region_of_used hidle) hsaved

-- So does the one that the coroutine on the processor is about to leave.
theorem validates_saved (h : Sound addresses log p) (hcontext : p.machine.context = some idx)
    (hroom : p.world.Room 56) {coro : Coroutine}
    (hstack : coro.stack = (p.machine.sched.coroutines idx).stack) :
    { coro with sp := p.saved addresses back }.validateStackPointer = .ok () := by
  have hrunning := (Machine.Reachable.holds h.machine).context_running hcontext
  have hcall : p.world.Step addresses (.yield idx back)
      (p.world.exec addresses (.yield idx back)) :=
    ⟨⟨h.context.trans hcontext, hroom⟩, rfl⟩
  refine (hcall.parked_call h.separate rfl).validates ?_ ?_
  · rw [hstack]
    exact h.region_of_used (by simp [hrunning])
  · simp only [saved, hcontext]

theorem exec_ne_error (h : Sound addresses log p) (hpromises : p.Promises addresses action back)
    (code : Assertion) : p.exec addresses action back ≠ some (.error code) := by
  intro hexec
  have he := exec_eq_error hexec
  have hinvariant := Machine.Reachable.holds h.machine
  have hleave : ∀ sp, action.saves = some sp → p.machine.pc = .coroutine → False := by
    intro sp hsaves hpc
    obtain ⟨idx, coro, hcurrent, hstack, hfails⟩ :=
      hinvariant.leave_eq_error hpromises.admissible hsaves hpc he
    have hcontext : p.machine.context = some idx := by
      rw [Machine.context, if_pos hpc, hcurrent]
    have hvalid := @validates_saved addresses p log back idx h hcontext
      (hpromises.switchRoom sp hsaves) coro hstack
    rw [← hpromises.saved sp hsaves, hfails] at hvalid
    cases hvalid
  cases action <;> simp only [Machine.exec, Option.ite_none_right_eq_some, Option.some.injEq] at he
  case go =>
    exact Machine.go_eq_error_pageSize he.2 (hpromises.pages _ rfl).pageSize_nonneg
  case run =>
    have hnone := hinvariant.current_none (by simp [he.1]) (by simp [he.1])
    simp [Machine.run, hnone] at he
  case loopTest => cases he.2
  case clean => cases he.2
  case expire => cases he.2
  case pick => cases he.2
  case poll => exact hinvariant.poll_ne_error hpromises.admissible he.2
  case switch =>
    obtain ⟨idx, coro, how, hcurrent, hregains, hfails⟩ :=
      hinvariant.switch_eq_error_validate he.2
    rw [h.validates hregains.used.1 hregains.used.2] at hfails
    cases hfails
  case yield => exact hleave _ rfl he.1
  case nanosleep => exact hleave _ rfl he.1
  case suspendIo => exact hleave _ rfl he.1
  case ret => exact hleave _ rfl he.1

end Sound

theorem Initial.sound (h : p.Initial addresses) : Sound addresses [] p := by
  obtain ⟨hmachine, hworld⟩ := h
  refine ⟨?_, hworld.separate, ?_, fun idx => ?_, ?_⟩
  · rw [hmachine]
    exact ⟨[], .start rfl⟩
  · rw [hworld.current, hmachine]
    rfl
  · rw [show p = ⟨.initial, p.world⟩ from by rw [← hmachine]]
    exact ⟨hworld.coroutines idx, fun hn => absurd rfl hn, fun hn => absurd rfl hn⟩
  · rw [hmachine]
    exact fun hne => absurd rfl hne

theorem Run.sound (h : Run addresses log p) : Sound addresses log p := by
  refine Transition.Run.invariant (P := Sound addresses) ?_ ?_ h
  · exact fun _ hi => Initial.sound hi
  · exact fun _ _ _ _ hrun ih hs => ih.step hrun hs

-- What the processor does in a run of the process is a run of the processor.
theorem Run.world_run (h : Run addresses log p) :
    ∃ calls, Transition.Run (World.Initial addresses) (World.Step addresses) calls p.world := by
  refine Transition.Run.invariant (P := fun _ p => ∃ calls,
    Transition.Run (World.Initial addresses) (World.Step addresses) calls p.world) ?_ ?_ h
  · exact fun p hi => ⟨[], .start hi.2⟩
  · rintro log p label next hrun ⟨calls, first, hfirst, hpath⟩ hs
    exact ⟨_, first, hfirst, hpath.append ((Run.sound hrun).path hs)⟩

-- Under the promises of the kernel and of the compiled code no assertion of the runtime fails.
theorem Run.never_aborts (h : Run addresses log p) (hpromises : p.Promises addresses action back)
    (code : Assertion) : p.exec addresses action back ≠ some (.error code) :=
  (Run.sound h).exec_ne_error hpromises code

-- The call that a coroutine is in is the one that returns.
theorem answers_of_regains {coro : Coroutine} {how : Resumed} {m : Machine}
    (h : m.Regains idx coro how) (hcont : action.cont = some (m.conts idx)) :
    how.Answers action := by
  cases h with
  | fresh hc | yielded hc | sleeping hc | waiting hc =>
      rw [hc] at hcont
      cases action <;> simp [Action.cont, Resumed.Answers] at hcont ⊢

theorem Run.resumes_where_left {serial : Nat} {how : Resumed} (h : Run addresses log p)
    (hs : p.Step addresses (.runtime ⟨action, .resumed serial how⟩ back) next) :
    ∃ event back' before, Latest (Initial addresses) (Step addresses)
        (ProcessEvent.Concerns serial) log (.runtime event back') before ∧
      ((∃ entry argument reply calls,
          event = ⟨.go entry argument reply, .created serial calls⟩ ∧
            how = .entryStarts entry argument ∧ Arrives addresses next.world.cpu) ∨
        event.output = .left serial ∧ how.Answers event.action ∧
          before.world.GoesOn back' next.world) := by
  have hsound := Run.sound h
  have hmachine := (exec_eq_ok hs.2).1
  cases hmachine.shifts (Machine.Reachable.holds hsound.machine) with
  | stays hc => cases hc.serial
  | created _ _ _ _ hc => cases hc.event
  | cleaned _ hc => cases hc.output
  | left _ _ hc => cases hc.output
  | resumed idx sp coro how' hc =>
      have hcall := hsound.single_call hs (hc.routines_eq back)
      cases hc.event
      obtain ⟨hidle, hrunning⟩ := hc.regains.used
      obtain ⟨-, hleft⟩ := (hsound.slots idx).saved hidle hrunning
      cases hleft with
      | called action back' before hlatest hcont hparked hkept =>
          refine ⟨_, back', before, hlatest, .inr ⟨rfl, ?_, ?_⟩⟩
          · exact answers_of_regains hc.regains hcont
          · exact hcall.goesOn hsound.separate rfl hparked hkept
      | fresh reply made back' before hlatest hcont hparked =>
          refine ⟨_, back', before, hlatest, .inl ⟨_, _, reply, made, rfl, ?_, ?_⟩⟩
          · cases hc.regains with
            | fresh => rfl
            | yielded hother | sleeping hother | waiting hother => simp [hother] at hcont
          · obtain ⟨hsnap, hsched⟩ := hcall.restores hsound.separate rfl hparked
            obtain ⟨-, hroom, -, haligned⟩ := (hsound.slots idx).guarded hidle
            exact arrives_of_snapshot hsnap hsched.1 (by omega) haligned

theorem Run.leaves_where_switched {serial : Nat} (h : Run addresses log p)
    (hs : p.Step addresses (.runtime ⟨action, .left serial⟩ back) next) :
    ∃ sp how back' before, Latest (Initial addresses) (Step addresses) ProcessEvent.Switches log
        (.runtime ⟨.switch sp, .resumed serial how⟩ back') before ∧
      before.world.GoesOn back' next.world := by
  have hsound := Run.sound h
  have hmachine := (exec_eq_ok hs.2).1
  cases hmachine.shifts (Machine.Reachable.holds hsound.machine) with
  | stays hc => cases hc.serial
  | created _ _ _ _ hc => cases hc.event
  | cleaned _ hc => cases hc.output
  | resumed _ _ _ _ hc => cases hc.event
  | left idx sp hc =>
      obtain ⟨idx', sp', how, back', before, hidx, hlatest, hparked, hkept⟩ :=
        hsound.scheduler (by simp [hc.before])
      obtain rfl : idx = idx' := Option.some.inj (hc.before.symm.trans hidx)
      have hserial : Output.left serial = .left (p.machine.serials idx) := hc.output
      cases hserial
      refine ⟨sp', how, back', before, hlatest, ?_⟩
      have hcall := hsound.single_call hs (hc.routines_eq back)
      exact hcall.goesOn hsound.separate rfl hparked hkept

-- A coroutine regains control in the call in which it has left, which is the latest that
-- happened to it, and a new one starts in the trampoline; the scheduler goes on behind its switch.
theorem Run.switches (h : Run addresses log p) :
    (∃ calls, Transition.Run (World.Initial addresses) (World.Step addresses) calls p.world) ∧
    (∀ action serial how back next,
      p.Step addresses (.runtime ⟨action, .resumed serial how⟩ back) next →
      ∃ event back' before, Latest (Initial addresses) (Step addresses)
          (ProcessEvent.Concerns serial) log (.runtime event back') before ∧
        ((∃ entry argument reply calls,
            event = ⟨.go entry argument reply, .created serial calls⟩ ∧
              how = .entryStarts entry argument ∧ Arrives addresses next.world.cpu) ∨
          event.output = .left serial ∧ how.Answers event.action ∧
            before.world.GoesOn back' next.world)) ∧
    ∀ action serial back next,
      p.Step addresses (.runtime ⟨action, .left serial⟩ back) next →
      ∃ sp how back' before, Latest (Initial addresses) (Step addresses) ProcessEvent.Switches log
          (.runtime ⟨.switch sp, .resumed serial how⟩ back') before ∧
        before.world.GoesOn back' next.world :=
  ⟨Run.world_run h, fun _ _ _ _ _ hs => Run.resumes_where_left h hs,
    fun _ _ _ _ hs => Run.leaves_where_switched h hs⟩

section Boot

theorem Step.of_machine {machine : Machine}
    (hpromises : p.Promises addresses action back)
    (hs : p.machine.Step ⟨action, output⟩ machine) :
    p.Step addresses (.runtime ⟨action, output⟩ back)
      ⟨machine, p.world.execAll addresses (p.machine.routines machine output back)⟩ := by
  refine ⟨hpromises, ?_⟩
  have hexec : p.machine.exec action = some (.ok (machine, output)) := hs
  simp only [exec, hexec]
  rfl

-- An action without a call into the assembly file asks for nothing.
theorem Promises.quiet (ha : action.Admissible) (hreply : action.reply = none)
    (hsaves : action.saves = none) : p.Promises addresses action back := by
  refine ⟨ha, ?_, ?_, ?_, ?_, ?_⟩ <;> simp [hreply, hsaves]

theorem Promises.saving {sp : UInt64} (ha : action.Admissible) (hreply : action.reply = none)
    (hsaves : action.saves = some sp) (hroom : p.world.Room 56)
    (hsp : sp = p.saved addresses back) : p.Promises addresses action back := by
  refine ⟨ha, ?_, ?_, ?_, ?_, ?_⟩ <;> simp [hreply, hsaves, hroom, ← hsp]

theorem Step.of_quiet {machine after : Machine} {world : World} (ha : action.Admissible)
    (hreply : action.reply = none) (hsaves : action.saves = none)
    (hs : machine.Step ⟨action, output⟩ after) (hroutines : machine.routines after output 0 = []) :
    Step addresses ⟨machine, world⟩ (.runtime ⟨action, output⟩ 0) ⟨after, world⟩ := by
  have hpromises : Promises addresses ⟨machine, world⟩ action 0 := .quiet ha hreply hsaves
  have hstep := Step.of_machine hpromises hs
  simp only [hroutines] at hstep
  exact hstep

-- One pass through the loop, as far as the machine goes along.
theorem Run.pass {first second third fourth fifth : Machine} {world : World}
    (h : Run addresses log ⟨first, world⟩) (htest : first.Step ⟨.loopTest, .silent⟩ second)
    (hclean : second.Step ⟨.clean, .cleaned []⟩ third) (hexited : second.exitedSlots = [])
    (hexpire : third.Step ⟨.expire 0, .silent⟩ fourth)
    (hpick : fourth.Step ⟨.pick, .silent⟩ fifth) :
    ∃ log, Run addresses log ⟨fifth, world⟩ := by
  have hcleaned : second.routines third (.cleaned []) 0 = [] :=
    congrArg (List.map SwitchEvent.finish) hexited
  have hrun := h.snoc
    (@Step.of_quiet addresses .loopTest .silent _ _ world trivial rfl rfl htest rfl)
  have hrun := hrun.snoc
    (@Step.of_quiet addresses .clean (.cleaned []) _ _ world trivial rfl rfl hclean hcleaned)
  have hrun := hrun.snoc
    (@Step.of_quiet addresses (.expire 0) .silent _ _ world trivial rfl rfl hexpire rfl)
  exact ⟨_, hrun.snoc
    (@Step.of_quiet addresses .pick .silent _ _ world trivial rfl rfl hpick rfl)⟩

-- A process that makes a coroutine and switches to it.
def bootAddresses : Addresses := ⟨0x2000, 0x401000, 0x401100, 0x401200, 0x401300, by decide⟩

def boot : Process where
  machine := .initial
  world := {
    cpu := ⟨fun reg => if reg = .rsp then 0x18000 else 1, 0x402000, fun _ => 0⟩
    current := none
    regions := fun ctx => if ctx = none then some ⟨0x10000, 0x20000⟩ else none }

def bootReply : StackReply := ⟨4096, some 0x30000, true⟩

def bootActions : List Action := [.go 1 7 bootReply, .run, .loopTest, .clean, .expire 0, .pick]

def bootMachine (count : Nat) : Machine := Machine.initial.after (bootActions.take count)

def bootMade : World := boot.world.exec bootAddresses (.init 0 ⟨0x31000, 0x41000⟩ 0x402010)

def bootPicked : Process := ⟨bootMachine 6, bootMade⟩

def bootSp : UInt64 :=
  (bootMade.exec bootAddresses (.switch 0 0x402020)).cpu.memory (bootAddresses.cell none)

def bootEntered : Process where
  machine := bootPicked.machine.after [.switch bootSp]
  world := bootMade.exec bootAddresses (.switch 0 0x402020)

-- The coroutine yields and the scheduler comes back to it.
def bootYieldSp : UInt64 := bootEntered.saved bootAddresses 0x403000

def bootLeft : Process where
  machine := bootEntered.machine.after [.yield bootYieldSp]
  world := bootEntered.world.exec bootAddresses (.yield 0 0x403000)

def bootLooped (count : Nat) : Machine :=
  bootLeft.machine.after ([.loopTest, .clean, .expire 0, .pick].take count)

def bootPickedAgain : Process := ⟨bootLooped 4, bootLeft.world⟩

def bootAgainSp : UInt64 := bootPickedAgain.saved bootAddresses 0x402020

def bootBack : Process where
  machine := bootPickedAgain.machine.after [.switch bootAgainSp]
  world := bootPickedAgain.world.exec bootAddresses (.switch 0 0x402020)

theorem boot_rooms :
    bootMade.Room 56 ∧ bootEntered.world.Room 56 ∧ bootPickedAgain.world.Room 56 := by
  refine ⟨?_, ?_, ?_⟩
  · exact ⟨⟨0x10000, 0x20000⟩, rfl, by decide, by decide⟩
  · exact ⟨⟨0x31000, 0x41000⟩, rfl, by decide, by decide⟩
  · exact ⟨⟨0x10000, 0x20000⟩, rfl, by decide, by decide⟩

theorem boot_initial : boot.Initial bootAddresses :=
  ⟨rfl, rfl, ⟨⟨0x10000, 0x20000⟩, rfl, by decide⟩, fun _ => rfl⟩

theorem boot_promises : boot.Promises bootAddresses (.go 1 7 bootReply) 0x402010 := by
  refine ⟨trivial, ?_, ?_, ?_, ?_, ?_⟩
  · rintro reply ⟨⟩
    refine ⟨⟨12, by decide, by decide⟩, ?_⟩
    intro base hbase
    obtain rfl : 0x30000 = base := Option.some.inj hbase
    decide
  · rintro reply ⟨⟩ base hbase
    obtain rfl : 0x30000 = base := Option.some.inj hbase
    refine ⟨by decide, ?_⟩
    intro stack hstack
    obtain rfl : ⟨0x10000, 0x20000⟩ = stack := Option.some.inj hstack
    decide
  · rintro reply ⟨⟩
    exact ⟨⟨0x10000, 0x20000⟩, rfl, by decide, by decide⟩
  · rintro sp ⟨⟩
  · rintro sp ⟨⟩

theorem boot_created : boot.Step bootAddresses
    (.runtime ⟨.go 1 7 bootReply, .created 0 [.mmap ⟨0x30000, 0x11000⟩]⟩ 0x402010)
      ⟨bootMachine 1, bootMade⟩ := by
  have hfind : boot.machine.sched.findFreeCoroutineSlot = .ok 0 := rfl
  have hstack : ((bootMachine 1).sched.coroutines 0).stack.region = ⟨0x31000, 0x41000⟩ := rfl
  have hs : boot.machine.Step ⟨.go 1 7 bootReply, .created 0 [.mmap ⟨0x30000, 0x11000⟩]⟩
      (bootMachine 1) := rfl
  have hstep := Step.of_machine boot_promises hs
  simp only [Machine.routines, hfind, hstack] at hstep
  exact hstep

theorem boot_run : ∃ log, Run bootAddresses log bootPicked := by
  have hrun := (Transition.Run.start boot_initial).snoc boot_created
  have hrun := hrun.snoc
    (@Step.of_quiet bootAddresses .run .silent _ (bootMachine 2) _ trivial rfl rfl rfl rfl)
  exact @Run.pass _ _ _ (bootMachine 3) (bootMachine 4) (bootMachine 5) _ _ hrun rfl rfl rfl rfl rfl

theorem boot_entered : bootPicked.Step bootAddresses
    (.runtime ⟨.switch bootSp, .resumed 0 (.entryStarts 1 7)⟩ 0x402020) bootEntered := by
  have hcurrent : bootPicked.machine.sched.current = some 0 := rfl
  have hpromises : bootPicked.Promises bootAddresses (.switch bootSp) 0x402020 :=
    .saving trivial rfl rfl boot_rooms.1 rfl
  have hs : bootPicked.machine.Step ⟨.switch bootSp, .resumed 0 (.entryStarts 1 7)⟩
      bootEntered.machine := rfl
  have hstep := Step.of_machine hpromises hs
  simp only [Machine.routines, hcurrent] at hstep
  exact hstep

theorem boot_yields :
    bootEntered.Promises bootAddresses (.yield bootYieldSp) 0x403000 :=
  .saving trivial rfl rfl boot_rooms.2.1 rfl

theorem boot_left : bootEntered.Step bootAddresses
    (.runtime ⟨.yield bootYieldSp, .left 0⟩ 0x403000) bootLeft := by
  have hcurrent : bootEntered.machine.sched.current = some 0 := rfl
  have hs : bootEntered.machine.Step ⟨.yield bootYieldSp, .left 0⟩ bootLeft.machine := rfl
  have hstep := Step.of_machine boot_yields hs
  simp only [Machine.routines, hcurrent] at hstep
  exact hstep

theorem boot_run_again : ∃ log, Run bootAddresses log bootPickedAgain := by
  obtain ⟨log, hrun⟩ := boot_run
  have hrun := (hrun.snoc boot_entered).snoc boot_left
  exact @Run.pass _ _ _ (bootLooped 1) (bootLooped 2) (bootLooped 3) _ _ hrun rfl rfl rfl rfl rfl

theorem boot_back : bootPickedAgain.Step bootAddresses
    (.runtime ⟨.switch bootAgainSp, .resumed 0 .yieldReturns⟩ 0x402020) bootBack := by
  have hcurrent : bootPickedAgain.machine.sched.current = some 0 := rfl
  have hpromises : bootPickedAgain.Promises bootAddresses (.switch bootAgainSp) 0x402020 :=
    .saving trivial rfl rfl boot_rooms.2.2 rfl
  have hs : bootPickedAgain.machine.Step ⟨.switch bootAgainSp, .resumed 0 .yieldReturns⟩
      bootBack.machine := rfl
  have hstep := Step.of_machine hpromises hs
  simp only [Machine.routines, hcurrent] at hstep
  exact hstep

theorem Run.switches_boot :
    Arrives bootAddresses bootEntered.world.cpu ∧
    (∃ back before, World.GoesOn before back bootLeft.world) ∧
    ∃ (event : Event) (back : UInt64) (before : World), event.output = .left 0 ∧
      Resumed.yieldReturns.Answers event.action ∧ before.GoesOn back bootBack.world := by
  obtain ⟨log, hrun⟩ := boot_run
  obtain ⟨again, hagain⟩ := boot_run_again
  obtain ⟨-, hstarts, -⟩ := Run.switches hrun
  obtain ⟨-, -, hleaves⟩ := Run.switches (hrun.snoc boot_entered)
  obtain ⟨-, hresumes, -⟩ := Run.switches hagain
  refine ⟨?_, ?_, ?_⟩
  · obtain ⟨event, back, before, -, hcreated | ⟨-, hanswers, -⟩⟩ := hstarts _ _ _ _ _ boot_entered
    · obtain ⟨entry, argument, reply, calls, -, -, harrives⟩ := hcreated
      exact harrives
    · exact hanswers.elim
  · obtain ⟨sp, how, back, before, -, hgoes⟩ := hleaves _ _ _ _ boot_left
    exact ⟨back, before.world, hgoes⟩
  · obtain ⟨event, back, before, -, hcreated | ⟨hleft, hanswers, hgoes⟩⟩ :=
      hresumes _ _ _ _ _ boot_back
    · obtain ⟨entry, argument, reply, calls, -, hhow, -⟩ := hcreated
      cases hhow
    · exact ⟨event, back, before.world, hleft, hanswers, hgoes⟩

theorem Run.never_aborts_boot :
    bootEntered.exec bootAddresses (.yield bootYieldSp) 0x403000 ≠
      some (.error .validateStackPointer) := by
  obtain ⟨log, hrun⟩ := boot_run
  exact Run.never_aborts (hrun.snoc boot_entered) boot_yields _

end Boot

end Process

end Minimk.Runtime
