import Borked3DS.Library.OrderedMap
import Borked3DS.Model.Basic

/-!
# The virtual memory manager

`vm_manager.cpp`: a process's address space as an ordered map of areas, and the calls that
cut, edit and fuse them. The private helpers work on the map alone, the public calls also
keep the page table. An iterator of the source is the key of the area it stands on.
-/

set_option autoImplicit false

namespace Borked3DS.Model

open Borked3DS.Library

/-- `VMAType`. -/
inductive VMAType
  | free
  | backingMemory
  deriving DecidableEq, Repr

/-- `VMAPermission`, one flag per bit. -/
structure VMAPermission where
  read : Bool := false
  write : Bool := false
  execute : Bool := false
  deriving DecidableEq, Repr

namespace VMAPermission

def none : VMAPermission := {}
def readWrite : VMAPermission := { read := true, write := true }

/-- The permission with the low three bits of `bits`. -/
def ofBits (bits : ℕ) : VMAPermission :=
  { read := bits.testBit 0, write := bits.testBit 1, execute := bits.testBit 2 }

/-- `(perms & expected) == expected`. -/
def includes (perms expected : VMAPermission) : Bool :=
  (perms.read || !expected.read) && (perms.write || !expected.write) &&
    (perms.execute || !expected.execute)

end VMAPermission

/-- `MemoryState`, the tag returned by `svcQueryMemory`. -/
inductive MemoryState
  | free | reserved | io | static | code | private_ | shared | continuous | aliased | alias
  | aliasCode | locked
  deriving DecidableEq, Repr

/-- A contiguous region of the address space with homogeneous attributes. -/
structure VirtualMemoryArea where
  base : ℕ := 0
  size : ℕ := 0
  type : VMAType := .free
  permissions : VMAPermission := .none
  meminfoState : MemoryState := .free
  backingMemory : MemoryRef := .null
  deriving DecidableEq, Repr

namespace VirtualMemoryArea

/-- The test of `CanBeMergedWith`: equal attributes and, for backed areas, backing memory
that continues from one area to the next. -/
def mergeable (vma next : VirtualMemoryArea) : Bool :=
  decide (vma.permissions = next.permissions) && decide (vma.meminfoState = next.meminfoState) &&
    decide (vma.type = next.type) &&
    !(decide (vma.type = .backingMemory) &&
      decide (vma.backingMemory.getPtr + vma.size ≠ next.backingMemory.getPtr))

/-- `CanBeMergedWith`, with its `ASSERT` that the areas are adjacent.
SOURCE: vm_manager.cpp:33-44 -/
def canBeMergedWith (vma next : VirtualMemoryArea) : Exec Bool := do
  assert (u32 (vma.base + vma.size) = next.base) .notAdjacent
  pure (vma.mergeable next)

/-- The backing memory of the part of an area that begins `offset` into it: the switch of
`SplitVMA`. -/
def backingAt (vma : VirtualMemoryArea) (offset : ℕ) : Exec MemoryRef :=
  match vma.type with
  | .free => pure vma.backingMemory
  | .backingMemory => vma.backingMemory.advance offset

end VirtualMemoryArea

/-- `PageType`. -/
inductive PageType
  | unmapped
  | memory
  | rasterizerCachedMemory
  deriving DecidableEq, Repr

/-- `PageTable`: the attribute and the host pointer (zero for null) of every page. -/
structure PageTable where
  attributes : ℕ → PageType
  pointers : ℕ → ℕ

namespace PageTable

/-- `PageTable::Clear`. -/
def clear : PageTable := { attributes := fun _ => .unmapped, pointers := fun _ => 0 }

/-- Overwrite the entry of one page. -/
def set (pt : PageTable) (page : ℕ) (type : PageType) (ptr : ℕ) : PageTable where
  attributes := Function.update pt.attributes page type
  pointers := Function.update pt.pointers page ptr

end PageTable

/-- `MemorySystem::MapPages`: enter `size` pages from page `base` on, walking the backing
memory along while more than a page of it is left. `isCached` is the rasterizer's cache
marker. The rasterizer flush before the loop moves no mapping and is not modelled.
SOURCE: memory.cpp:427-454 -/
def mapPages (isCached : ℕ → Bool) (type : PageType) :
    ℕ → ℕ → MemoryRef → PageTable → Exec PageTable
  | _, 0, _, pt => pure pt
  | base, size + 1, memory, pt => do
      assert (base < Memory.PAGE_TABLE_NUM_ENTRIES) .pageOutOfRange
      let pt :=
        if type = .memory ∧ isCached (base * Memory.PAGE_SIZE) then
          pt.set base .rasterizerCachedMemory 0
        else pt.set base type memory.getPtr
      let memory ←
        if memory.getPtr ≠ 0 ∧ Memory.PAGE_SIZE < memory.getSize then
          memory.advance Memory.PAGE_SIZE
        else pure memory
      mapPages isCached type (base + 1) size memory pt

/-- `MapMemoryRegion` and `UnmapRegion`.
SOURCE: memory.cpp:456-468 -/
def mapMemoryRegion (isCached : ℕ → Bool) (pt : PageTable) (base size : ℕ)
    (type : PageType) (target : MemoryRef) : Exec PageTable := do
  assert (pageAligned size) .pageUnaligned
  assert (pageAligned base) .pageUnaligned
  mapPages isCached type (base / Memory.PAGE_SIZE) (size / Memory.PAGE_SIZE) target pt

/-- `vma_map`: the areas under their base addresses. -/
abbrev VMAMap := List (ℕ × VirtualMemoryArea)

namespace VMAMap

open VirtualMemoryArea

/-- The maximum amount of address space managed by the kernel. -/
def MAX_ADDRESS : ℕ := 0x40000000

/-- Dereference an iterator. -/
def deref (m : VMAMap) (it : ℕ) : Exec VirtualMemoryArea :=
  match OrderedMap.lookup it m with
  | some vma => .ok vma
  | none => .error .undefined

/-- `FindVMA`: the area the address lies in, or `end()`.
SOURCE: vm_manager.cpp:79-85 -/
def findVMA (m : VMAMap) (target : ℕ) : Option ℕ :=
  if MAX_ADDRESS ≤ target then none
  else OrderedMap.prev (OrderedMap.upperBound target m) m

/-- `SplitVMA`: cut an area at an offset, returning the right part.
SOURCE: vm_manager.cpp:317-342 -/
def splitVMA (m : VMAMap) (vmaHandle : ℕ) (offsetInVma : ℕ) : Exec (VMAMap × ℕ) := do
  let oldVma ← deref m vmaHandle
  assert (offsetInVma < oldVma.size) .splitOffset
  assert (0 < offsetInVma) .splitOffset
  let backing ← oldVma.backingAt offsetInVma
  let newVma := { oldVma with
    base := u32 (oldVma.base + offsetInVma)
    size := oldVma.size - offsetInVma
    backingMemory := backing }
  let oldVma := { oldVma with size := offsetInVma }
  let mergeable ← oldVma.canBeMergedWith newVma
  assert (mergeable = true) .splitMergeable
  pure (OrderedMap.emplace newVma.base newVma (OrderedMap.assign vmaHandle oldVma m), newVma.base)

/-- The first half of `MergeAdjacent`: absorb the next area if possible.
SOURCE: vm_manager.cpp:345-349 -/
def mergeNext (m : VMAMap) (iter : ℕ) : Exec VMAMap := do
  match OrderedMap.upperBound iter m with
  | none => pure m
  | some nextVma => do
      let vma ← deref m iter
      let next ← deref m nextVma
      if ← vma.canBeMergedWith next then
        let vma := { vma with size := u32 (vma.size + next.size) }
        pure (OrderedMap.erase nextVma (OrderedMap.assign iter vma m))
      else pure m

/-- The second half of `MergeAdjacent`: be absorbed by the previous area if possible.
SOURCE: vm_manager.cpp:351-360 -/
def mergePrev (m : VMAMap) (iter : ℕ) : Exec (VMAMap × ℕ) := do
  match OrderedMap.prev (some iter) m with
  | none => pure (m, iter)
  | some prevVma => do
      let prev ← deref m prevVma
      let vma ← deref m iter
      if ← prev.canBeMergedWith vma then
        let prev := { prev with size := u32 (prev.size + vma.size) }
        pure (OrderedMap.erase iter (OrderedMap.assign prevVma prev m), prevVma)
      else pure (m, iter)

/-- `MergeAdjacent`: fuse an area with its neighbours where possible.
SOURCE: vm_manager.cpp:344-363 -/
def mergeAdjacent (m : VMAMap) (iter : ℕ) : Exec (VMAMap × ℕ) := do
  let m ← mergeNext m iter
  mergePrev m iter

/-- Cut off the end of the area `h`, then its start, unless they are the area's own.
SOURCE: vm_manager.cpp:278-285 -/
def splitEdges (m : VMAMap) (h : ℕ) (vmaSize startInVma endInVma : ℕ) :
    Exec (VMAMap × ℕ) := do
  let m ← if endInVma ≠ vmaSize then (do let (m, _) ← splitVMA m h endInVma; pure m) else pure m
  if startInVma ≠ 0 then splitVMA m h startInVma else pure (m, h)

/-- `CarveVMA`: cut an area of exactly the given extent out of a free area.
SOURCE: vm_manager.cpp:256-288 -/
def carveVMA (m : VMAMap) (base size : ℕ) : Exec (VMAMap × ResultVal ℕ) := do
  assert (pageAligned size) .carveUnaligned
  assert (pageAligned base) .carveUnaligned
  match findVMA m base with
  | none => pure (m, .error .invalidAddress)
  | some h => do
      let vma ← deref m h
      if vma.type ≠ .free then pure (m, .error .invalidAddressState)
      else
        let startInVma := u32Sub base vma.base
        let endInVma := u32 (startInVma + size)
        if vma.size < endInVma then pure (m, .error .invalidAddressState)
        else do
          let (m, h) ← splitEdges m h vma.size startInVma endInVma
          pure (m, .ok h)

/-- Whether every area from the head of the list up to the iterator `last` meets `p`; the
walk stops at the first that does not. Walking past `end()` is undefined. -/
def allUpTo (p : VirtualMemoryArea → Bool) (last : Option ℕ) : VMAMap → Exec Bool
  | [] => if last = none then pure true else .error .undefined
  | e :: m =>
      if last = some e.1 then pure true
      else if p e.2 then allUpTo p last m
      else pure false

/-- Split the area under `it` at the address `at_`, unless it begins there. -/
def splitAt (m : VMAMap) (it at_ : ℕ) : Exec (VMAMap × ℕ) := do
  let vma ← deref m it
  if at_ ≠ vma.base then splitVMA m it (u32Sub at_ vma.base) else pure (m, it)

/-- `CarveVMARange`: split the areas at both ends of a range without free areas.
SOURCE: vm_manager.cpp:290-315 -/
def carveVMARange (m : VMAMap) (target size : ℕ) : Exec (VMAMap × ResultVal ℕ) := do
  assert (pageAligned size) .carveUnaligned
  assert (pageAligned target) .carveUnaligned
  let targetEnd := u32 (target + size)
  assert (target ≤ targetEnd) .carveRange
  assert (targetEnd ≤ MAX_ADDRESS) .carveRange
  assert (0 < size) .carveRange
  match findVMA m target with
  | none => .error .undefined
  | some beginVma => do
      let allMapped ← allUpTo (fun vma => decide (vma.type ≠ .free))
        (OrderedMap.lowerBound targetEnd m) (OrderedMap.entriesFrom (some beginVma) m)
      if allMapped then do
        let (m, beginVma) ← splitAt m beginVma target
        match findVMA m targetEnd with
        | none => pure (m, .ok beginVma)
        | some endVma => do
            let (m, _) ← splitAt m endVma targetEnd
            pure (m, .ok beginVma)
      else pure (m, .error .invalidAddressState)

end VMAMap

/-- The state of a `VMManager`. -/
structure VMManager where
  vmaMap : VMAMap
  pageTable : PageTable
  isLocked : Bool := false

namespace VMManager

open VMAMap VirtualMemoryArea

variable (isCached : ℕ → Bool)

/-- `FindVMA`. -/
def findVMA (m : VMManager) (target : ℕ) : Option ℕ := VMAMap.findVMA m.vmaMap target

/-- `UpdatePageTableForVMA`. The notification of the plugin loader at its end changes neither
the areas nor the page table.
SOURCE: vm_manager.cpp:365-379 -/
def updatePageTableForVMA (m : VMManager) (vma : VirtualMemoryArea) : Exec VMManager := do
  let pt ← match vma.type with
    | .free => mapMemoryRegion isCached m.pageTable vma.base vma.size .unmapped .null
    | .backingMemory =>
        mapMemoryRegion isCached m.pageTable vma.base vma.size .memory vma.backingMemory
  pure { m with pageTable := pt }

/-- The area a cleared address space consists of. -/
def initialVma : VirtualMemoryArea := { size := MAX_ADDRESS }

/-- `Reset`: one free area covers the managed space.
SOURCE: vm_manager.cpp:64-77 -/
def reset (m : VMManager) : Exec VMManager := do
  assert (m.isLocked = false) .vmLocked
  updatePageTableForVMA isCached
    { m with vmaMap := [(initialVma.base, initialVma)], pageTable := .clear } initialVma

/-- Overwrite the area under an iterator, update its pages and fuse it with its neighbours:
the body shared by `Unmap`, `Reprotect` and the loop of `ChangeMemoryState`. -/
def editVMA (edit : VirtualMemoryArea → VirtualMemoryArea) (m : VMManager) (vmaHandle : ℕ) :
    Exec (VMManager × ℕ) := do
  let vma ← deref m.vmaMap vmaHandle
  let m := { m with vmaMap := OrderedMap.assign vmaHandle (edit vma) m.vmaMap }
  let m ← updatePageTableForVMA isCached m (edit vma)
  let (vmas, h) ← mergeAdjacent m.vmaMap vmaHandle
  pure ({ m with vmaMap := vmas }, h)

/-- What `Unmap` writes into an area. -/
def freed (vma : VirtualMemoryArea) : VirtualMemoryArea :=
  { vma with type := .free, permissions := .none, meminfoState := .free, backingMemory := .null }

/-- What `Reprotect` writes into an area. -/
def reprotected (newPerms : VMAPermission) (vma : VirtualMemoryArea) : VirtualMemoryArea :=
  { vma with permissions := newPerms }

/-- What `ChangeMemoryState` writes into an area. -/
def restated (newState : MemoryState) (newPerms : VMAPermission) (vma : VirtualMemoryArea) :
    VirtualMemoryArea :=
  { vma with permissions := newPerms, meminfoState := newState }

/-- `Unmap`.
SOURCE: vm_manager.cpp:171-183 -/
def unmap (m : VMManager) (vmaHandle : ℕ) : Exec (VMManager × ℕ) := do
  assert (m.isLocked = false) .vmLocked
  editVMA isCached freed m vmaHandle

/-- `Reprotect`.
SOURCE: vm_manager.cpp:206-216 -/
def reprotect (m : VMManager) (vmaHandle : ℕ) (newPerms : VMAPermission) :
    Exec (VMManager × ℕ) := do
  assert (m.isLocked = false) .vmLocked
  editVMA isCached (reprotected newPerms) m vmaHandle

/-- `while (vma != end && vma->second.base < target_end) vma = std::next(step(vma))`. Each
round leaves one area fewer before the iterator, so the number of areas is enough fuel. -/
def editLoop (step : VMManager → ℕ → Exec (VMManager × ℕ)) (targetEnd : ℕ) :
    ℕ → VMManager → Option ℕ → Exec VMManager
  | _, m, none => pure m
  | 0, _, some _ => .error .undefined
  | fuel + 1, m, some it => do
      let vma ← deref m.vmaMap it
      if vma.base < targetEnd then do
        let (m, it) ← step m it
        editLoop step targetEnd fuel m (OrderedMap.upperBound it m.vmaMap)
      else pure m

/-- `MapBackingMemory`.
SOURCE: vm_manager.cpp:116-133 -/
def mapBackingMemory (m : VMManager) (target : ℕ) (memory : MemoryRef) (size : ℕ)
    (state : MemoryState) : Exec (VMManager × ResultVal ℕ) := do
  assert (m.isLocked = false) .vmLocked
  assert (memory.getPtr ≠ 0) .nullBacking
  let (vmas, carved) ← carveVMA m.vmaMap target size
  match carved with
  | .error code => pure ({ m with vmaMap := vmas }, .error code)
  | .ok vmaHandle => do
      let vma ← deref vmas vmaHandle
      assert (vma.size = size) .carvedSize
      let finalVma := { vma with
        type := .backingMemory
        permissions := .readWrite
        meminfoState := state
        backingMemory := memory }
      let m := { m with vmaMap := OrderedMap.assign vmaHandle finalVma vmas }
      let m ← updatePageTableForVMA isCached m finalVma
      let (vmas, h) ← mergeAdjacent m.vmaMap vmaHandle
      pure ({ m with vmaMap := vmas }, .ok h)

/-- `MapBackingMemoryToBase`: map at the first free area that reaches far enough. When there
is none the source reads `end()` before it tests for it, and uses nothing of what it read.
SOURCE: vm_manager.cpp:87-114 -/
def mapBackingMemoryToBase (m : VMManager) (base : ℕ) (regionSize : ℕ) (memory : MemoryRef)
    (size : ℕ) (state : MemoryState) : Exec (VMManager × ResultVal ℕ) := do
  assert (m.isLocked = false) .vmLocked
  let found := m.vmaMap.find? fun e =>
    decide (e.2.type = .free) &&
      (let vmaEnd := u32 (e.2.base + e.2.size)
       decide (base < vmaEnd) && decide (u32 (base + size) ≤ vmaEnd))
  match found with
  | none => pure (m, .error .outOfMemory)
  | some e => do
      let target := max base e.2.base
      if u32 (base + regionSize) < u32 (target + size) then pure (m, .error .outOfMemory)
      else do
        let (m, result) ← mapBackingMemory isCached m target memory size state
        match result with
        | .error code => pure (m, .error code)
        | .ok _ => pure (m, .ok target)

/-- `ChangeMemoryState`.
SOURCE: vm_manager.cpp:135-169 -/
def changeMemoryState (m : VMManager) (target size : ℕ) (expectedState : MemoryState)
    (expectedPerms : VMAPermission) (newState : MemoryState) (newPerms : VMAPermission) :
    Exec (VMManager × Result) := do
  if m.isLocked then pure (m, .success)
  else
    let targetEnd := u32 (target + size)
    match m.findVMA target with
    | none => pure (m, .invalidAddress)
    | some beginVma => do
        let asExpected ← allUpTo
          (fun vma => decide (vma.meminfoState = expectedState) &&
            vma.permissions.includes expectedPerms)
          (OrderedMap.lowerBound targetEnd m.vmaMap)
          (OrderedMap.entriesFrom (some beginVma) m.vmaMap)
        if asExpected then do
          let (vmas, carved) ← carveVMARange m.vmaMap target size
          let m := { m with vmaMap := vmas }
          match carved with
          | .error code => pure (m, code)
          | .ok vma => do
              let m ← editLoop (editVMA isCached (restated newState newPerms)) targetEnd
                (vmas.length + 1) m (some vma)
              pure (m, .success)
        else pure (m, .invalidAddressState)

/-- `UnmapRange`.
SOURCE: vm_manager.cpp:185-204 -/
def unmapRange (m : VMManager) (target size : ℕ) : Exec (VMManager × Result) := do
  assert (m.isLocked = false) .vmLocked
  let (vmas, carved) ← carveVMARange m.vmaMap target size
  let m := { m with vmaMap := vmas }
  match carved with
  | .error code => pure (m, code)
  | .ok vma => do
      let m ← editLoop (unmap isCached) (u32 (target + size)) (vmas.length + 1) m (some vma)
      match m.findVMA target with
      | none => .error .undefined
      | some h => do
          let vma ← deref m.vmaMap h
          assert (size ≤ vma.size) .unmapMerged
          pure (m, .success)

/-- `ReprotectRange`.
SOURCE: vm_manager.cpp:218-235 -/
def reprotectRange (m : VMManager) (target size : ℕ) (newPerms : VMAPermission) :
    Exec (VMManager × Result) := do
  assert (m.isLocked = false) .vmLocked
  let (vmas, carved) ← carveVMARange m.vmaMap target size
  let m := { m with vmaMap := vmas }
  match carved with
  | .error code => pure (m, code)
  | .ok vma => do
      let m ← editLoop (fun m h => reprotect isCached m h newPerms) (u32 (target + size))
        (vmas.length + 1) m (some vma)
      pure (m, .success)

/-- `GetBackingBlocksForRange`: the backing memory of a range, area by area. A round moves to
the end of an area or of the range, so the number of areas is enough fuel.
SOURCE: vm_manager.cpp:381-402 -/
def getBackingBlocksForRange (m : VMManager) (address : ℕ) (size : ℕ) :
    Exec (ResultVal (List (MemoryRef × ℕ))) :=
  go (m.vmaMap.length + 1) address []
where
  go : ℕ → ℕ → List (MemoryRef × ℕ) → Exec (ResultVal (List (MemoryRef × ℕ)))
    | 0, _, _ => .error .undefined
    | fuel + 1, intervalTarget, blocks =>
        if intervalTarget = u32 (address + size) then pure (.ok blocks)
        else
          match m.findVMA intervalTarget with
          | none => .error .undefined
          | some h => do
              let vma ← deref m.vmaMap h
              if vma.type ≠ .backingMemory then pure (.error .invalidAddressState)
              else do
                let intervalEnd := min (u32 (address + size)) (u32 (vma.base + vma.size))
                let intervalSize := u32Sub intervalEnd intervalTarget
                let backing ← vma.backingMemory.advance (u32Sub intervalTarget vma.base)
                go fuel (u32 (intervalTarget + intervalSize)) (blocks ++ [(backing, intervalSize)])

end VMManager

end Borked3DS.Model

/-!
## Queries of the address space

`SVC::QueryProcessMemory` and `SVC::QueryMemory` (`svc.cpp`). The process that a handle names is an
argument.
-/

namespace Borked3DS.Model

open Borked3DS.Library VMAMap

/-- `MemoryInfo`, with the flags as they are kept in an area. -/
structure MemoryInfo where
  baseAddress : ℕ
  size : ℕ
  permission : VMAPermission
  state : MemoryState
  deriving DecidableEq, Repr

/-- `PageInfo`. -/
structure PageInfo where
  flags : ℕ
  deriving DecidableEq, Repr

/-- `std::find_if` over a part of the areas: where the first one stands that meets `p`. -/
def VMAMap.findIf (p : VirtualMemoryArea → Bool) (part : VMAMap) : Option ℕ :=
  (part.find? fun e => p e.2).map Prod.fst

/-- The area under an iterator that may have come to the end. -/
def VMAMap.derefAt (m : VMAMap) : Option ℕ → Exec VirtualMemoryArea
  | none => .error .undefined
  | some it => VMAMap.deref m it

/-- The areas that a reverse iterator made from an iterator walks over. -/
def VMAMap.entriesBefore (it : ℕ) (m : VMAMap) : VMAMap :=
  (m.takeWhile fun e => decide (e.1 < it)).reverse

/-- `--it` of a reverse iterator: the area behind the one that it stands on, where `none` is
`rend()`. -/
def VMAMap.prevReverse (it : Option ℕ) (m : VMAMap) : Option ℕ :=
  match it with
  | none => OrderedMap.first m
  | some k => OrderedMap.upperBound k m

/-- `QueryProcessMemory`.
SOURCE: svc.cpp:1459-1493 -/
def queryProcessMemory (process : Option VMManager) (addr : ℕ) :
    Exec (ResultVal (MemoryInfo × PageInfo)) :=
  match process with
  | none => .ok (.error .invalidHandle)
  | some vm =>
      match vm.findVMA addr with
      | none => .ok (.error .invalidAddress)
      | some it => do
          let vma ← VMAMap.deref vm.vmaMap it
          let permissions := vma.permissions
          let state := vma.meminfoState
          let mismatch := fun v : VirtualMemoryArea =>
            decide (v.permissions ≠ permissions) || decide (v.meminfoState ≠ state)
          let lower := findIf mismatch (entriesBefore it vm.vmaMap)
          let lower ← derefAt vm.vmaMap (prevReverse lower vm.vmaMap)
          let upper := findIf mismatch (OrderedMap.entriesFrom (some it) vm.vmaMap)
          let upper ← derefAt vm.vmaMap (OrderedMap.prev upper vm.vmaMap)
          .ok (.ok ({ baseAddress := lower.base
                      permission := permissions
                      size := u32Sub (u32 (upper.base + upper.size)) lower.base
                      state := state }, { flags := 0 }))

/-- `QueryMemory`.
SOURCE: svc.cpp:1496-1498 -/
def queryMemory (currentProcess : VMManager) (addr : ℕ) :
    Exec (ResultVal (MemoryInfo × PageInfo)) :=
  queryProcessMemory (some currentProcess) addr

end Borked3DS.Model
