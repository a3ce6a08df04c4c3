import Borked3DS.Model.Process

/-!
# The memory calls of a process

The heap, the linear heap and the aliases of `process.cpp`, and `SharedMemory::Map`. The contents of
memory are not modelled. The version of the kernel that a process asks for is an argument: it never
changes.
-/

set_option autoImplicit false

namespace Borked3DS.Model

open Borked3DS.Library IntervalSet

/-- The loops that map the blocks of an allocation one after the other, and protect each area that
the mapping returns.
SOURCE: process.cpp:309-323, process.cpp:540-550, shared_memory.cpp:199-206 -/
def mapBlocks (isCached : ℕ → Bool) (state : MemoryState) (perms : VMAPermission) :
    List (MemoryRef × ℕ) → ℕ → VMManager → Exec VMManager
  | [], _, vm => pure vm
  | (memory, size) :: blocks, intervalTarget, vm => do
      let (vm, vma) ← vm.mapBackingMemory isCached intervalTarget memory size state
      match vma with
      | .error _ => .error (.assertion .mappingSucceeded)
      | .ok vma => do
          let (vm, _) ← vm.reprotect isCached vma perms
          mapBlocks isCached state perms blocks (u32 (intervalTarget + size)) vm

/-- Whether the area of an address is free and reaches to the end of a range. -/
def VMManager.isFreeRange (vm : VMManager) (target size : ℕ) : Exec Bool :=
  match vm.findVMA target with
  | none => .error .undefined
  | some h => do
      let vma ← VMAMap.deref vm.vmaMap h
      pure (decide (vma.type = .free) && decide (u32 (target + size) ≤ u32 (vma.base + vma.size)))

/-- `[address, address + size)` lies in `[lo, hi)`, its end computed in 32 bits. -/
def rangeInside (lo hi address size : ℕ) : Prop :=
  lo ≤ address ∧ u32 (address + size) ≤ hi ∧ address ≤ u32 (address + size)

instance (lo hi address size : ℕ) : Decidable (rangeInside lo hi address size) :=
  inferInstanceAs (Decidable (_ ∧ _))

/-- The heap. -/
def inHeap (target size : ℕ) : Prop :=
  rangeInside Memory.HEAP_VADDR Memory.HEAP_VADDR_END target size

instance (target size : ℕ) : Decidable (inHeap target size) :=
  inferInstanceAs (Decidable (rangeInside _ _ _ _))

/-- Two ranges of one length overlap: `source - target < size || target - source < size`. -/
def rangesOverlap (target source size : ℕ) : Prop :=
  u32Sub source target < size ∨ u32Sub target source < size

instance (target source size : ℕ) : Decidable (rangesOverlap target source size) :=
  inferInstanceAs (Decidable (_ ∨ _))

/-- `GetLinearHeapAreaAddress`. -/
def linearHeapAreaAddress (kernelVersion : ℕ) : ℕ :=
  if kernelVersion < 0x22C then Memory.LINEAR_HEAP_VADDR else Memory.NEW_LINEAR_HEAP_VADDR

section Calls

variable {S : Type} [IntervalSet S]

/-- `GetFCRAMOffset`.
SOURCE: memory.cpp:972-975 -/
def fcramOffset (ptr : ℕ) : KernelM S ℕ := do
  let k ← get
  StateT.lift (assert (k.fcram.ptr ≤ ptr ∧ ptr ≤ k.fcram.ptr + Memory.FCRAM_N3DS_SIZE) .fcramOffset)
  pure (ptr - k.fcram.ptr)

/-- `memory_region->HeapAllocate(size)`. -/
def heapAllocateRegion (region : MemoryRegion) (size : ℕ) : KernelM S S := do
  let k ← get
  let (r, allocated) ← StateT.lift ((k.memoryRegions region).heapAllocate size)
  set { k with memoryRegions := Function.update k.memoryRegions region r }
  pure allocated

/-- `memory_region->LinearAllocate(offset, size)`. -/
def linearAllocateAtRegion (region : MemoryRegion) (offset size : ℕ) : KernelM S Bool := do
  let k ← get
  let (r, granted) ← StateT.lift ((k.memoryRegions region).linearAllocateAt offset size)
  set { k with memoryRegions := Function.update k.memoryRegions region r }
  pure granted

/-- The memory behind an interval of FCRAM, with its length. -/
def fcramBlock (interval : ℕ × ℕ) : KernelM S (MemoryRef × ℕ) := do
  StateT.lift (assert (interval.2 ≤ Memory.FCRAM_N3DS_SIZE) .fcramOffset)
  let memory ← fcramRef interval.1
  pure (memory, interval.2 - interval.1)

namespace Process

/-- `GetLinearHeapBase`. -/
def linearHeapBase (k : KernelSystem S) (process : Process S) (kernelVersion : ℕ) : ℕ :=
  u32 (linearHeapAreaAddress kernelVersion + (k.memoryRegions process.memoryRegion).base)

/-- `GetLinearHeapLimit`. -/
def linearHeapLimit (k : KernelSystem S) (process : Process S) (kernelVersion : ℕ) : ℕ :=
  u32 (linearHeapBase k process kernelVersion + (k.memoryRegions process.memoryRegion).size)

/-- `HeapAllocate`. The blocks' memory is looked up before the first block is mapped.
SOURCE: process.cpp:285-332 -/
def heapAllocate (p target size : ℕ) (perms : VMAPermission) (memoryState : MemoryState)
    (skipRangeCheck : Bool) : KernelM S (ResultVal ℕ) := do
  if ¬ inHeap target size ∧ skipRangeCheck = false then pure (.error .invalidAddress)
  else do
    let process ← getProcess p
    if ← StateT.lift (process.vmManager.isFreeRange target size) then do
      let allocated ← heapAllocateRegion process.memoryRegion size
      if intervals allocated = [] then pure (.error .outOfHeapMemory)
      else do
        let blocks ← (intervals allocated).mapM fcramBlock
        let vm ← StateT.lift
          (mapBlocks (← get).isCached memoryState perms blocks target process.vmManager)
        setProcess p { process with
          vmManager := vm
          holdingMemory := (intervals allocated).foldl add process.holdingMemory
          memoryUsed := u32 (process.memoryUsed + size) }
        let _ ← reserve process.resourceLimit .commit size
        pure (.ok target)
    else pure (.error .invalidAddressState)

/-- Give back one block of the heap. -/
def freeHeapBlock (p : ℕ) (block : MemoryRef × ℕ) : KernelM S Unit := do
  let process ← getProcess p
  let backingOffset ← fcramOffset block.1.getPtr
  freeRegion process.memoryRegion backingOffset block.2
  setProcess p { process with
    holdingMemory := sub process.holdingMemory (backingOffset, u32 (backingOffset + block.2)) }

/-- `HeapFree`.
SOURCE: process.cpp:334-361 -/
def heapFree (p target size : ℕ) : KernelM S Result := do
  if ¬ inHeap target size then pure .invalidAddress
  else if size = 0 then pure .success
  else do
    let process ← getProcess p
    match ← StateT.lift (process.vmManager.getBackingBlocksForRange target size) with
    | .error code => pure code
    | .ok backingBlocks => do
        backingBlocks.forM (freeHeapBlock p)
        let process ← getProcess p
        let (vm, result) ← StateT.lift
          (process.vmManager.unmapRange (← get).isCached target size)
        StateT.lift (assert (result = .success) .unmappingSucceeded)
        setProcess p { process with
          vmManager := vm
          memoryUsed := u32Sub process.memoryUsed size }
        release process.resourceLimit .commit size
        pure .success

/-- Where `LinearAllocate` puts a block: the address and the offset into FCRAM.
SOURCE: process.cpp:365-390 -/
def chooseLinear (p kernelVersion target size : ℕ) : KernelM S (ResultVal (ℕ × ℕ)) := do
  let process ← getProcess p
  let area := linearHeapAreaAddress kernelVersion
  if target = 0 then do
    match ← Model.linearAllocate process.memoryRegion size with
    | none => pure (.error .outOfHeapMemory)
    | some offset => pure (.ok (u32 (offset + area), offset))
  else do
    let k ← get
    if rangeInside (linearHeapBase k process kernelVersion)
        (linearHeapLimit k process kernelVersion) target size then do
      let physicalOffset := u32Sub target area
      if ← linearAllocateAtRegion process.memoryRegion physicalOffset size then
        pure (.ok (target, physicalOffset))
      else pure (.error .invalidAddressState)
    else pure (.error .invalidAddress)

/-- `LinearAllocate`.
SOURCE: process.cpp:363-407 -/
def linearAllocate (p kernelVersion target size : ℕ) (perms : VMAPermission) :
    KernelM S (ResultVal ℕ) := do
  match ← chooseLinear p kernelVersion target size with
  | .error code => pure (.error code)
  | .ok (target, physicalOffset) => do
      let backingMemory ← fcramRef physicalOffset
      let process ← getProcess p
      let vm ← StateT.lift (mapBlocks (← get).isCached .continuous perms [(backingMemory, size)]
        target process.vmManager)
      setProcess p { process with
        vmManager := vm
        holdingMemory := add process.holdingMemory (physicalOffset, u32 (physicalOffset + size))
        memoryUsed := u32 (process.memoryUsed + size) }
      let _ ← reserve process.resourceLimit .commit size
      pure (.ok target)

/-- Change the state of a range of a process. -/
def changeState (p target size : ℕ) (expectedState : MemoryState) (expectedPerms : VMAPermission)
    (newState : MemoryState) (newPerms : VMAPermission) : KernelM S Result := do
  let process ← getProcess p
  let (vm, result) ← StateT.lift (process.vmManager.changeMemoryState (← get).isCached target size
    expectedState expectedPerms newState newPerms)
  setProcess p { process with vmManager := vm }
  pure result

/-- `Map`.
SOURCE: process.cpp:499-553 -/
def map (p target source size : ℕ) (perms : VMAPermission) (privileged : Bool) :
    KernelM S Result := do
  if privileged = false ∧ ¬ inHeap source size then pure .invalidAddress
  else if rangesOverlap target source size then
    if privileged then
      if source = target then changeState p source size .private_ .readWrite .aliasCode perms
      else pure .invalidAddress
    else pure .invalidAddressState
  else do
    let process ← getProcess p
    if ← StateT.lift (process.vmManager.isFreeRange target size) then do
      let sourceState : MemoryState := if privileged then .locked else .aliased
      let targetState : MemoryState := if privileged then .aliasCode else .alias
      let sourcePerm : VMAPermission := if privileged then .none else .readWrite
      let marked ← changeState p source size .private_ .readWrite sourceState sourcePerm
      if marked ≠ .success then pure marked
      else do
        let process ← getProcess p
        match ← StateT.lift (process.vmManager.getBackingBlocksForRange source size) with
        | .error code => pure code
        | .ok backingBlocks => do
            let vm ← StateT.lift (mapBlocks (← get).isCached targetState perms backingBlocks target
              process.vmManager)
            setProcess p { process with vmManager := vm }
            pure .success
    else pure .invalidAddressState

end Process

/-! ## Shared memory -/

/-- `KernelSystem::CreateSharedMemory` without an owner, which takes the memory from a region.
SOURCE: shared_memory.cpp:42-86 -/
def KernelSystem.createUnownedSharedMemory (size permissions otherPermissions : ℕ)
    (region : MemoryRegion) : KernelM S (SharedMemory S) := do
  match ← Model.linearAllocate region size with
  | none => throw (.assertion .sharedMemorySpace)
  | some offset => do
      let memory ← fcramRef offset
      pure {
        ownerProcess := none
        size := size
        memoryRegion := region
        permissions := permissions
        otherPermissions := otherPermissions
        linearHeapPhysOffset := offset
        backingBlocks := [(memory, size)]
        holdingMemory := add empty (offset, u32 (offset + size)) }

/-- `KernelSystem::CreateSharedMemoryForApplet`.
SOURCE: shared_memory.cpp:88-117 -/
def KernelSystem.createSharedMemoryForApplet (offset size permissions otherPermissions : ℕ) :
    KernelM S (SharedMemory S) := do
  let allocated ← heapAllocateRegion .system size
  StateT.lift (assert (intervals allocated ≠ []) .sharedMemorySpace)
  let blocks ← (intervals allocated).mapM fcramBlock
  pure {
    ownerProcess := none
    size := size
    memoryRegion := .system
    permissions := permissions
    otherPermissions := otherPermissions
    baseAddress := u32 (Memory.HEAP_VADDR + offset)
    backingBlocks := blocks
    holdingMemory := allocated }

namespace SharedMemory

/-- `MemoryPermission::DontCare`. -/
def DontCare : ℕ := 0x10000000

/-- The permissions of `permissions` that `allowed` lacks: `permissions & ~allowed`. -/
def missingPermissions (permissions allowed : ℕ) : ℕ := permissions &&& (0xFFFFFFFF ^^^ allowed)

/-- The checks of `Map` on the permissions and the address.
SOURCE: shared_memory.cpp:123-172 -/
def mapChecks (m : SharedMemory S) (p address permissions otherPermissions : ℕ) : Result :=
  let ownOtherPermissions := if m.ownerProcess = some p then m.permissions else m.otherPermissions
  if m.baseAddress = 0 ∧ otherPermissions ≠ DontCare then .invalidCombination
  else if missingPermissions permissions ownOtherPermissions ≠ 0 then .invalidCombination
  else if m.baseAddress ≠ 0 ∧ otherPermissions = DontCare then .invalidCombination
  else if otherPermissions ≠ DontCare ∧ missingPermissions m.permissions otherPermissions ≠ 0 then
    .wrongPermission
  else if address ≠ 0 ∧ (address < Memory.HEAP_VADDR ∨
      Memory.SHARED_MEMORY_VADDR_END ≤ u32 (address + m.size)) then .invalidAddress
  else .success

/-- Where `Map` maps the memory. -/
def targetAddress (m : SharedMemory S) (address : ℕ) : ℕ :=
  if m.baseAddress = 0 ∧ address = 0 then u32 (m.linearHeapPhysOffset + Memory.LINEAR_HEAP_VADDR)
  else address

/-- `SharedMemory::Map`.
SOURCE: shared_memory.cpp:123-209 -/
def map (m : SharedMemory S) (p address permissions otherPermissions : ℕ) : KernelM S Result := do
  let check := mapChecks m p address permissions otherPermissions
  if check ≠ .success then pure check
  else do
    let target := targetAddress m address
    let process ← getProcess p
    if ← StateT.lift (process.vmManager.isFreeRange target m.size) then do
      let vm ← StateT.lift (mapBlocks (← get).isCached .shared
        (VMAPermission.ofBits (permissions % 8)) m.backingBlocks target process.vmManager)
      setProcess p { process with vmManager := vm }
      pure .success
    else pure .invalidAddressState

end SharedMemory

end Calls

end Borked3DS.Model
