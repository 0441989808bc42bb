import Minimk.Assert
import Minimk.Errno
import Mathlib.Algebra.Group.Nat.Defs
import Mathlib.Data.List.Basic

namespace Minimk.Runtime

open Abort

structure Stack where
  base : UInt64
  size : UInt64
  top : UInt64
  bottom : UInt64
  deriving DecidableEq, Repr

def Stack.zero : Stack := ⟨0, 0, 0, 0⟩

-- A mapping the kernel made, by its base and its length.
structure Mapping where
  base : UInt64
  size : UInt64
  deriving DecidableEq, Repr

def Mapping.Disjoint (left right : Mapping) : Prop :=
  left.base.toNat + left.size.toNat ≤ right.base.toNat ∨
    right.base.toNat + right.size.toNat ≤ left.base.toNat

instance (left right : Mapping) : Decidable (left.Disjoint right) :=
  inferInstanceAs (Decidable (_ ∨ _))

-- The mappings of the library that the kernel holds.
abbrev Memory := List Mapping

inductive MemCall where
  | mmap (mapping : Mapping)
  | munmap (mapping : Mapping)
  deriving DecidableEq, Repr

def Memory.call (memory : Memory) : MemCall → Memory
  | .mmap mapping => mapping :: memory
  | .munmap mapping => memory.erase mapping

def Memory.calls (memory : Memory) (calls : List MemCall) : Memory :=
  calls.foldl Memory.call memory

-- What mmap may return: a nonempty range inside the address space, clear of the others.
def Memory.Fresh (memory : Memory) (mapping : Mapping) : Prop :=
  0 < mapping.size.toNat ∧ mapping.base.toNat + mapping.size.toNat ≤ 2 ^ 64 ∧
    ∀ other ∈ memory, mapping.Disjoint other

instance (memory : Memory) (mapping : Mapping) : Decidable (memory.Fresh mapping) :=
  inferInstanceAs (Decidable (_ ∧ _ ∧ _))

-- The results of getpagesize, mmap (none is MAP_FAILED) and mprotect in one allocation.
structure StackReply where
  pageSize : Int32
  mmap : Option UInt64
  mprotect : Bool
  deriving DecidableEq, Repr

def coroStackSize (pageSize : UInt64) : UInt64 :=
  let desired := (64 : UInt64) <<< 10
  if pageSize > desired then pageSize
  else
    let pageMask := pageSize - 1
    (desired + pageMask) &&& ~~~pageMask

-- The cast of a nonnegative `int` to `size_t`.
def pageSizeOf (reply : StackReply) : UInt64 := reply.pageSize.toInt.toNat.toUInt64

def stackSizeOf (reply : StackReply) : UInt64 :=
  coroStackSize (pageSizeOf reply) + pageSizeOf reply

-- The reply is looked into; the addresses are finitely many, but too many to go through.
instance (memory : Memory) (reply : StackReply) :
    Decidable (∀ base ∈ reply.mmap, memory.Fresh ⟨base, stackSizeOf reply⟩) :=
  Option.decidableForallMem reply.mmap

def stackAlloc (sp : Stack) (reply : StackReply) :
    Except Assertion (Error × Stack × List MemCall) := do
  assert (0 ≤ reply.pageSize) .stackAllocPageSize
  let sp := { sp with size := stackSizeOf reply }
  match reply.mmap with
  | none => return (.enomem, sp, [])
  | some base =>
    let sp := { sp with base := base, bottom := base + pageSizeOf reply, top := base + sp.size }
    if reply.mprotect then return (.success, sp, [.mmap ⟨base, sp.size⟩])
    else return (.enomem, sp, [.mmap ⟨base, sp.size⟩, .munmap ⟨base, sp.size⟩])

-- munmap is taken to succeed; its only caller ignores the result.
def stackFree (sp : Stack) : Stack × List MemCall :=
  ({ sp with base := 0, size := 0 }, [.munmap ⟨sp.base, sp.size⟩])

def Stack.mapping (sp : Stack) : Mapping := ⟨sp.base, sp.size⟩

end Minimk.Runtime
