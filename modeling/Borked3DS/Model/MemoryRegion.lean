import Borked3DS.Library.IntervalSet
import Borked3DS.Model.Basic

/-!
# Memory regions

`MemoryRegionInfo` of `memory.cpp`: the allocator of a region of FCRAM, a set of free blocks and
a counter of the bytes in use. The interval set is a parameter. Its intervals are right-open, so
the `ASSERT`s on the bounds of the iterated intervals hold by the type.
-/

set_option autoImplicit false

namespace Borked3DS.Model

open Borked3DS.Library

/-- `MemoryRegionInfo`. The blocks are offsets from the start of FCRAM. -/
structure MemoryRegionInfo (S : Type) where
  base : ℕ
  size : ℕ
  used : ℕ
  freeBlocks : S
  isLocked : Bool := false

namespace MemoryRegionInfo

open IntervalSet

variable {S : Type} [IntervalSet S]

/-- `Reset`: the whole region is free.
SOURCE: memory.cpp:169-179 -/
def reset (r : MemoryRegionInfo S) (base size : ℕ) : Exec (MemoryRegionInfo S) := do
  assert (r.isLocked = false) .regionLocked
  pure { r with
    base := base
    size := size
    used := 0
    freeBlocks := add empty (base, u32 (base + size)) }

/-- The loop of `HeapAllocate` over the blocks from the highest one down: the blocks gathered,
and what is missing when there are no more. -/
def gather : List (ℕ × ℕ) → ℕ → S → S × ℕ
  | [], rest, result => (result, rest)
  | block :: blocks, rest, result =>
      if rest ≤ block.2 - block.1 then (add result (block.2 - rest, block.2), 0)
      else gather blocks (rest - (block.2 - block.1)) (add result block)

/-- `HeapAllocate`.
SOURCE: memory.cpp:181-210 -/
def heapAllocate (r : MemoryRegionInfo S) (size : ℕ) : Exec (MemoryRegionInfo S × S) := do
  assert (r.isLocked = false) .regionLocked
  let (result, rest) := gather (intervals r.freeBlocks).reverse size empty
  if rest ≠ 0 then pure (r, empty)
  else
    pure ({ r with freeBlocks := subSet r.freeBlocks result, used := u32 (r.used + size) }, result)

/-- `LinearAllocate(offset, size)`.
SOURCE: memory.cpp:212-223 -/
def linearAllocateAt (r : MemoryRegionInfo S) (offset size : ℕ) :
    Exec (MemoryRegionInfo S × Bool) := do
  assert (r.isLocked = false) .regionLocked
  let interval := (offset, u32 (offset + size))
  if contains r.freeBlocks interval then
    pure ({ r with freeBlocks := sub r.freeBlocks interval, used := u32 (r.used + size) }, true)
  else pure (r, false)

/-- What `LinearAllocate(size)` and `RLinearAllocate(size)` do with the interval they choose. -/
def take (r : MemoryRegionInfo S) (size : ℕ) (allocated : Option (ℕ × ℕ)) :
    MemoryRegionInfo S × Option ℕ :=
  match allocated with
  | none => (r, none)
  | some allocated =>
      ({ r with freeBlocks := sub r.freeBlocks allocated, used := u32 (r.used + size) },
        some allocated.1)

/-- `LinearAllocate(size)`: the start of the first block that is long enough.
SOURCE: memory.cpp:225-241 -/
def linearAllocate (r : MemoryRegionInfo S) (size : ℕ) :
    Exec (MemoryRegionInfo S × Option ℕ) := do
  assert (r.isLocked = false) .regionLocked
  let block := (intervals r.freeBlocks).find? fun interval =>
    decide (size ≤ interval.2 - interval.1)
  pure (r.take size (block.map fun interval => (interval.1, u32 (interval.1 + size))))

/-- `RLinearAllocate(size)`: the end of the last block that is long enough.
SOURCE: memory.cpp:243-260 -/
def rLinearAllocate (r : MemoryRegionInfo S) (size : ℕ) :
    Exec (MemoryRegionInfo S × Option ℕ) := do
  assert (r.isLocked = false) .regionLocked
  let block := (intervals r.freeBlocks).reverse.find? fun interval =>
    decide (size ≤ interval.2 - interval.1)
  pure (r.take size (block.map fun interval => (interval.2 - size, interval.2)))

/-- `Free`.
SOURCE: memory.cpp:262-271 -/
def free (r : MemoryRegionInfo S) (offset size : ℕ) : Exec (MemoryRegionInfo S) :=
  if r.isLocked then pure r
  else do
    let interval := (offset, u32 (offset + size))
    assert (intersects r.freeBlocks interval = false) .freeIntersects
    pure { r with freeBlocks := add r.freeBlocks interval, used := u32Sub r.used size }

end MemoryRegionInfo

end Borked3DS.Model
