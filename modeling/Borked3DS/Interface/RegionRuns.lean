import Mathlib.Logic.Relation
import Borked3DS.Model.MemoryRegion

/-!
# What an allocator of a memory region is for

The allocations a region has handed out and not taken back, as sets of offsets kept next to the
region (`RegionStep`), and what it means that a request fits.
-/

set_option autoImplicit false

namespace Borked3DS.Interface

open Borked3DS.Library Borked3DS.Model IntervalSet

variable {S : Type} [IntervalSet S]

/-- A region and its outstanding allocations. -/
structure Allocations (S : Type) where
  region : MemoryRegionInfo S
  outstanding : List (Set ℕ)

/-- One call on a region that does not fault. A call of `LinearAllocate` with an offset asks for a
range that does not wrap around, as its only caller checks, and `Free` is given offsets that are
outstanding. -/
inductive RegionStep : Allocations S → Allocations S → Prop
  | heapAllocate {r r' : MemoryRegionInfo S} {out : List (Set ℕ)} (size : ℕ) {result : S}
      (h : r.heapAllocate size = .ok (r', result)) :
      RegionStep ⟨r, out⟩ ⟨r', toSet result :: out⟩
  | linearAllocateAt {r r' : MemoryRegionInfo S} {out : List (Set ℕ)} (offset size : ℕ)
      {granted : Bool} (hbound : offset + size < 2 ^ 32)
      (h : r.linearAllocateAt offset size = .ok (r', granted)) :
      RegionStep ⟨r, out⟩ ⟨r', if granted then Set.Ico offset (offset + size) :: out else out⟩
  | linearAllocate {r r' : MemoryRegionInfo S} {out : List (Set ℕ)} (size : ℕ) {res : Option ℕ}
      (h : r.linearAllocate size = .ok (r', res)) :
      RegionStep ⟨r, out⟩ ⟨r', (res.map fun p => Set.Ico p (p + size)).toList ++ out⟩
  | rLinearAllocate {r r' : MemoryRegionInfo S} {out : List (Set ℕ)} (size : ℕ) {res : Option ℕ}
      (h : r.rLinearAllocate size = .ok (r', res)) :
      RegionStep ⟨r, out⟩ ⟨r', (res.map fun p => Set.Ico p (p + size)).toList ++ out⟩
  | free {r r' : MemoryRegionInfo S} {out : List (Set ℕ)} (offset size : ℕ)
      (hoffset : offset < 2 ^ 32) (hout : ∀ x ∈ Set.Ico offset (offset + size), ∃ A ∈ out, x ∈ A)
      (h : r.free offset size = .ok r') :
      RegionStep ⟨r, out⟩ ⟨r', out.map (· \ Set.Ico offset (offset + size))⟩

/-- A request of `n` bytes fits at `p` inside one free block. -/
def Fits (freeBlocks : S) (n p : ℕ) : Prop :=
  ∃ block ∈ intervals freeBlocks, block.1 ≤ p ∧ p + n ≤ block.2

/-- The books of a region are in order: what is free lies inside the region and is counted, and
what is outstanding lies inside the region, apart from what is free and from each other. -/
structure Conserves (base size : ℕ) (a : Allocations S) : Prop where
  inside : toSet a.region.freeBlocks ⊆ Set.Ico base (base + size)
  counted : a.region.used ≤ size ∧ total a.region.freeBlocks = size - a.region.used
  outside : ∀ A ∈ a.outstanding, A ⊆ Set.Ico base (base + size)
  apart : ∀ A ∈ a.outstanding, Disjoint A (toSet a.region.freeBlocks)
  disjoint : a.outstanding.Pairwise Disjoint

/-- What `HeapAllocate(n)` answers: nothing, when less than `n` bytes are free, or exactly `n`
bytes, all above what stays free. -/
def HeapAllocates (r : MemoryRegionInfo S) (n : ℕ) : Prop :=
  ∃ r' result, r.heapAllocate n = .ok (r', result) ∧
    (total r.freeBlocks < n → result = empty ∧ r' = r) ∧
    (n ≤ total r.freeBlocks → total result = n ∧ toSet result ⊆ toSet r.freeBlocks ∧
      toSet r'.freeBlocks = toSet r.freeBlocks \ toSet result ∧
      ∀ x ∈ toSet result, ∀ y ∈ toSet r'.freeBlocks, y < x)

/-- What a linear allocation answers: the best fitting position by the order `le`, or nothing when
the request fits nowhere. -/
def AllocatesBest (le : ℕ → ℕ → Prop) (r : MemoryRegionInfo S) (n : ℕ)
    (call : Exec (MemoryRegionInfo S × Option ℕ)) : Prop :=
  ∃ r' res, call = .ok (r', res) ∧
    ((∃ block ∈ intervals r.freeBlocks, n ≤ block.2 - block.1) →
      ∃ p, res = some p ∧ Fits r.freeBlocks n p ∧ ∀ q, Fits r.freeBlocks n q → le p q) ∧
    ((∀ block ∈ intervals r.freeBlocks, block.2 - block.1 < n) → res = none ∧ r' = r)

end Borked3DS.Interface
