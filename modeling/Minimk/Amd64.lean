import Mathlib.Algebra.Group.Nat.Defs
import Mathlib.Data.List.Basic
import Mathlib.Tactic.Common

namespace Amd64

inductive Reg where
  | rax | rbx | rcx | rdx | rsi | rdi | rbp | rsp
  | r8 | r9 | r10 | r11 | r12 | r13 | r14 | r15
  deriving DecidableEq, Repr

-- The memory holds a word at each address; a block of words has its addresses eight apart. The
-- instruction pointer is followed where control leaves a block of code.
structure Cpu where
  regs : Reg → UInt64
  rip : UInt64
  memory : UInt64 → UInt64

inductive Operand where
  | reg (reg : Reg)
  | imm (value : UInt64)
  deriving DecidableEq, Repr

-- The operands stand in the order of the assembler: source, then target.
inductive Instr where
  | push (source : Operand)
  | pop (target : Reg)
  | mov (source target : Reg)
  | store (source address : Reg)
  | load (address target : Reg)
  | ret
  | call (target next : UInt64)
  deriving DecidableEq, Repr

namespace Cpu

def set (cpu : Cpu) (reg : Reg) (value : UInt64) : Cpu :=
  { cpu with regs := Function.update cpu.regs reg value }

def write (cpu : Cpu) (address value : UInt64) : Cpu :=
  { cpu with memory := Function.update cpu.memory address value }

def pushWord (cpu : Cpu) (value : UInt64) : Cpu :=
  (cpu.set .rsp (cpu.regs .rsp - 8)).write (cpu.regs .rsp - 8) value

def read (cpu : Cpu) : Operand → UInt64
  | .reg reg => cpu.regs reg
  | .imm value => value

def exec (cpu : Cpu) : Instr → Cpu
  | .push source => cpu.pushWord (cpu.read source)
  | .pop target => (cpu.set .rsp (cpu.regs .rsp + 8)).set target (cpu.memory (cpu.regs .rsp))
  | .mov source target => cpu.set target (cpu.regs source)
  | .store source address => cpu.write (cpu.regs address) (cpu.regs source)
  | .load address target => cpu.set target (cpu.memory (cpu.regs address))
  | .ret => { cpu.set .rsp (cpu.regs .rsp + 8) with rip := cpu.memory (cpu.regs .rsp) }
  | .call target next => { cpu.pushWord next with rip := target }

def run (cpu : Cpu) (code : List Instr) : Cpu := code.foldl exec cpu

variable (cpu : Cpu) (reg other : Reg) (address value : UInt64)

@[simp] theorem set_self : (cpu.set reg value).regs reg = value := by simp [set]

theorem set_of_ne (h : other ≠ reg) : (cpu.set reg value).regs other = cpu.regs other := by
  simp [set, h]

@[simp] theorem set_memory : (cpu.set reg value).memory = cpu.memory := rfl

@[simp] theorem write_regs : (cpu.write address value).regs = cpu.regs := rfl

@[simp] theorem write_memory :
    (cpu.write address value).memory = Function.update cpu.memory address value := rfl

theorem pushWord_rsp : (cpu.pushWord value).regs .rsp = cpu.regs .rsp - 8 := by
  simp [pushWord]

theorem pushWord_of_ne (h : reg ≠ .rsp) : (cpu.pushWord value).regs reg = cpu.regs reg := by
  simp [pushWord, set_of_ne _ _ _ _ h]

@[simp] theorem run_nil : cpu.run [] = cpu := rfl

@[simp] theorem run_cons (instr : Instr) (code : List Instr) :
    cpu.run (instr :: code) = (cpu.exec instr).run code := rfl

theorem run_append (first second : List Instr) :
    cpu.run (first ++ second) = (cpu.run first).run second := List.foldl_append

end Cpu

section Address

variable {address : UInt64}

theorem toNat_add_eight (h : address.toNat + 8 < 2 ^ 64) :
    (address + 8).toNat = address.toNat + 8 := by
  have height : (8 : UInt64).toNat = 8 := rfl
  rw [UInt64.toNat_add, height]
  omega

theorem toNat_sub_eight (h : 8 ≤ address.toNat) : (address - 8).toNat = address.toNat - 8 := by
  have height : (8 : UInt64).toNat = 8 := rfl
  rw [UInt64.toNat_sub_of_le, height]
  rw [UInt64.le_iff_toNat_le, height]
  exact h

end Address

-- The addresses from `bottom` on and below `top`.
structure Region where
  bottom : UInt64
  top : UInt64
  deriving DecidableEq, Repr

namespace Region

-- The whole word at the address is in the region.
def Contains (region : Region) (address : UInt64) : Prop :=
  region.bottom.toNat ≤ address.toNat ∧ address.toNat + 8 ≤ region.top.toNat

def Disjoint (left right : Region) : Prop :=
  left.top.toNat ≤ right.bottom.toNat ∨ right.top.toNat ≤ left.bottom.toNat

instance (region : Region) (address : UInt64) : Decidable (region.Contains address) :=
  inferInstanceAs (Decidable (_ ∧ _))

instance (left right : Region) : Decidable (left.Disjoint right) :=
  inferInstanceAs (Decidable (_ ∨ _))

variable {left right : Region}

theorem Disjoint.symm (h : left.Disjoint right) : right.Disjoint left := Or.symm h

theorem Disjoint.not_contains (h : left.Disjoint right) {address : UInt64}
    (hl : left.Contains address) : ¬right.Contains address := by
  unfold Contains at hl ⊢
  cases h with
  | inl h => omega
  | inr h => omega

end Region

-- The words of the memory outside the region are as they were.
def ChangesOnly (region : Region) (before after : UInt64 → UInt64) : Prop :=
  ∀ address, ¬region.Contains address → after address = before address

-- A block of words in the memory.
def Holds (memory : UInt64 → UInt64) : UInt64 → List UInt64 → Prop
  | _, [] => True
  | address, word :: rest => memory address = word ∧ Holds memory (address + 8) rest

section Holds

variable {memory later : UInt64 → UInt64} {address word : UInt64} {words : List UInt64}

-- A block stays where no word of a region around it is overwritten.
theorem Holds.congr {region : Region} (h : Holds memory address words)
    (hbottom : region.bottom.toNat ≤ address.toNat)
    (htop : address.toNat + 8 * words.length ≤ region.top.toNat)
    (hsame : ∀ other, region.Contains other → later other = memory other) :
    Holds later address words := by
  induction words generalizing address with
  | nil => trivial
  | cons word words ih =>
      simp only [List.length_cons] at htop
      have hbound := region.top.toNat_lt
      have hnext := toNat_add_eight (show address.toNat + 8 < 2 ^ 64 by omega)
      have hword : region.Contains address := ⟨hbottom, by omega⟩
      exact ⟨(hsame address hword).trans h.1, ih h.2 (by omega) (by omega)⟩

-- A push puts one more word in front of a block.
theorem Holds.push (h : Holds memory address words) (hlow : 8 ≤ address.toNat)
    (hhigh : address.toNat + 8 * words.length < 2 ^ 64) :
    Holds (Function.update memory (address - 8) word) (address - 8) (word :: words) := by
  have hback : address - 8 + 8 = address := UInt64.sub_add_cancel address 8
  have hnat := toNat_sub_eight hlow
  refine ⟨by simp, ?_⟩
  rw [hback]
  let block : Region := ⟨address, UInt64.ofNat (address.toNat + 8 * words.length)⟩
  have htop : block.top.toNat = address.toNat + 8 * words.length := by
    simp only [block, UInt64.toNat_ofNat']
    omega
  refine @congr _ _ _ _ block h (Nat.le_refl _) (by omega) fun other hother => ?_
  have hne : other ≠ address - 8 := by
    intro he
    have hfrom : address.toNat ≤ other.toNat := hother.1
    rw [he] at hfrom
    omega
  simp [hne]

-- The second of two blocks is where the first one ends.
theorem Holds.append {others : List UInt64} (h : Holds memory address (words ++ others)) :
    Holds memory address words ∧
      ∀ next : UInt64, next.toNat = address.toNat + 8 * words.length →
        Holds memory next others := by
  induction words generalizing address with
  | nil =>
      refine ⟨trivial, fun next hnext => ?_⟩
      have he : next = address := UInt64.toNat_inj.mp hnext
      rw [he]
      exact h
  | cons word words ih =>
      obtain ⟨hword, hrest⟩ := h
      obtain ⟨hwords, hothers⟩ := ih hrest
      refine ⟨⟨hword, hwords⟩, fun next hnext => hothers next ?_⟩
      have hbound := next.toNat_lt
      simp only [List.length_cons] at hnext
      rw [toNat_add_eight (by omega)]
      omega

end Holds

-- What some pushes do: the words stand in the block in the reverse order of the pushes.
structure Pushed (cpu next : Cpu) (operands : List Operand) (words : List UInt64) : Prop where
  rsp : (next.regs .rsp).toNat = (cpu.regs .rsp).toNat - 8 * operands.length
  regs : ∀ reg, reg ≠ .rsp → next.regs reg = cpu.regs reg
  rip : next.rip = cpu.rip
  block : Holds next.memory (next.regs .rsp) ((operands.map cpu.read).reverse ++ words)
  memory : ChangesOnly ⟨next.regs .rsp, cpu.regs .rsp⟩ cpu.memory next.memory

section Pushes

variable {cpu next last : Cpu} {operand other : Operand} {operands : List Operand}
  {words : List UInt64}

-- A push changes no register but the stack pointer.
theorem Pushed.read (h : Pushed cpu next operands words) (hne : other ≠ .reg .rsp) :
    next.read other = cpu.read other := by
  cases other with
  | imm value => rfl
  | reg reg =>
      refine h.regs reg fun he => hne ?_
      rw [he]

theorem Cpu.push (hholds : Holds cpu.memory (cpu.regs .rsp) words)
    (hlow : 8 ≤ (cpu.regs .rsp).toNat)
    (hhigh : (cpu.regs .rsp).toNat + 8 * words.length < 2 ^ 64) :
    Pushed cpu (cpu.exec (.push operand)) [operand] words := by
  have hrsp : (cpu.exec (.push operand)).regs .rsp = cpu.regs .rsp - 8 := cpu.pushWord_rsp _
  have hnat := toNat_sub_eight hlow
  refine ⟨?_, fun reg hr => cpu.pushWord_of_ne reg _ hr, rfl, ?_, ?_⟩
  · rw [hrsp]
    exact hnat
  · rw [hrsp]
    exact hholds.push hlow hhigh
  · intro address hout
    have hne : address ≠ cpu.regs .rsp - 8 := by
      intro he
      simp only [he, hrsp, Region.Contains] at hout
      omega
    exact Function.update_of_ne hne _ _

theorem Pushed.cons (hfirst : Pushed cpu next [operand] words)
    (hrest : Pushed next last operands (cpu.read operand :: words))
    (hrsp : .reg .rsp ∉ operands) (hlow : 8 * (operands.length + 1) ≤ (cpu.regs .rsp).toNat) :
    Pushed cpu last (operand :: operands) words := by
  have hnext := hfirst.rsp
  have hlast := hrest.rsp
  simp only [List.length_cons, List.length_nil] at hnext
  have hmap : operands.map next.read = operands.map cpu.read := by
    refine List.map_congr_left fun other hmem => hfirst.read fun he => ?_
    rw [he] at hmem
    exact hrsp hmem
  refine ⟨?_, fun reg hr => (hrest.regs reg hr).trans (hfirst.regs reg hr),
    hrest.rip.trans hfirst.rip, ?_, ?_⟩
  · simp only [List.length_cons]
    omega
  · have hblock := hrest.block
    rw [hmap] at hblock
    simpa using hblock
  · intro address hout
    simp only [Region.Contains] at hout
    rw [hrest.memory address, hfirst.memory address]
    · simp only [Region.Contains]
      omega
    · simp only [Region.Contains]
      omega

theorem Cpu.pushes (hrsp : .reg .rsp ∉ operands)
    (hholds : Holds cpu.memory (cpu.regs .rsp) words)
    (hlow : 8 * operands.length ≤ (cpu.regs .rsp).toNat)
    (hhigh : (cpu.regs .rsp).toNat + 8 * words.length < 2 ^ 64) :
    Pushed cpu (cpu.run (operands.map .push)) operands words := by
  induction operands generalizing cpu words with
  | nil => exact ⟨by simp, fun _ _ => rfl, rfl, by simpa using hholds, fun _ _ => rfl⟩
  | cons operand operands ih =>
      simp only [List.length_cons, List.mem_cons, not_or] at hlow hrsp
      have hfirst : Pushed cpu (cpu.exec (.push operand)) [operand] words :=
        Cpu.push hholds (by omega) hhigh
      have hnext := hfirst.rsp
      simp only [List.length_cons, List.length_nil] at hnext
      have hrest := ih hrsp.2 hfirst.block (by omega) (by simp only [List.length_append,
        List.length_reverse, List.length_map, List.length_cons, List.length_nil]; omega)
      exact hfirst.cons hrest hrsp.2 hlow

end Pushes

end Amd64
