import Borked3DS.Model.Process
import Borked3DS.Model.Thread

/-!
# Creating and destroying charged objects

The `Create*` calls of `svc.cpp` for the objects that are charged to a resource limit, the kernel
functions they call, and what happens to the charge when such an object goes.
-/

set_option autoImplicit false

namespace Borked3DS.Model

open Borked3DS.Library IntervalSet

variable {S : Type} [IntervalSet S]

/-- `std::make_shared`. -/
def makeObject (object : KernelObject S) : KernelM S ℕ := do
  let k ← get
  set { k with objects := k.objects ++ [(k.nextObject, object)], nextObject := k.nextObject + 1 }
  pure k.nextObject

/-- Overwrite the objects. -/
def modifyObjects (f : ℕ × KernelObject S → ℕ × KernelObject S) : KernelM S Unit :=
  modify fun k => { k with objects := k.objects.map f }

/-- `handle_table.Create(out_handle, object)`. -/
def createHandle (p : ℕ) (object : ℕ) : KernelM S (ResultVal ℕ) := do
  let process ← getProcess p
  match process.handleTable.create object with
  | .error code => pure (.error code)
  | .ok (handle, table) => do
      setProcess p { process with handleTable := table }
      pure (.ok handle)

/-! ## Destruction -/

/-- `~SharedMemory`.
SOURCE: shared_memory.cpp:26-40 -/
def sharedMemoryDestructor (m : SharedMemory S) : KernelM S Unit := do
  (intervals m.holdingMemory).forM fun interval =>
    freeRegion m.memoryRegion interval.1 (interval.2 - interval.1)
  match m.ownerProcess with
  | none => pure ()
  | some owner => do
      let process ← getProcess owner
      if process.expired then pure ()
      else do
        release process.resourceLimit .sharedMemory 1
        if m.baseAddress ≠ 0 then do
          let (vm, _) ← StateT.lift (process.vmManager.changeMemoryState (← get).isCached
            m.baseAddress m.size .locked .none .private_ .readWrite)
          setProcess owner { process with vmManager := vm }
        else setProcess owner { process with memoryUsed := u32Sub process.memoryUsed m.size }

/-- The destructors that release what was reserved when the object has a limit. -/
def releaseCharge (type : ResourceLimitType) (resourceLimit : Option ℕ) : KernelM S Unit :=
  match resourceLimit with
  | some limit => release limit type 1
  | none => pure ()

/-- A mutex without its holder, when that is the thread `id`. -/
def releasedBy (id : ℕ) : ℕ × KernelObject S → ℕ × KernelObject S
  | (m, .mutex limit holder) => (m, .mutex limit (if holder = some id then none else holder))
  | entry => entry

/-- The end of `Thread::Stop`: the mutexes are released, the slot of the thread local storage is
given back and the charge released. What `Stop` does to the scheduler is not modelled here.
SOURCE: thread.cpp:88-120 -/
def stopThread (id : ℕ) (t : ThreadObject) : KernelM S Unit := do
  modifyObjects (releasedBy id)
  let offset := u32Sub t.tlsAddress Memory.TLS_AREA_VADDR
  let page := offset / Memory.PAGE_SIZE
  let slot := offset % Memory.PAGE_SIZE / Memory.TLS_ENTRY_SIZE
  let process ← getProcess t.ownerProcess
  if process.expired then pure ()
  else if page < process.tlsSlots.length then do
    setProcess t.ownerProcess { process with
      tlsSlots := process.tlsSlots.modify page fun used i => if i.val = slot then false else used i }
    release process.resourceLimit .thread 1
  else throw .undefined

/-- What happens when an object goes: a thread is stopped, any other object is destroyed. -/
def destructor (id : ℕ) : KernelObject S → KernelM S Unit
  | .thread t => stopThread id t
  | .mutex limit _ => releaseCharge .mutex limit
  | .semaphore limit _ _ => releaseCharge .semaphore limit
  | .event limit _ => releaseCharge .event limit
  | .timer limit _ => releaseCharge .timer limit
  | .addressArbiter limit => releaseCharge .addressArbiter limit
  | .sharedMemory m => sharedMemoryDestructor m

/-- The last reference to an object is dropped, or a thread is stopped. -/
def destroyObject (id : ℕ) : KernelM S Unit := do
  let k ← get
  match k.objects.find? fun entry => entry.1 = id with
  | none => throw .undefined
  | some (_, object) => do
      set { k with objects := k.objects.eraseP fun entry => entry.1 = id }
      destructor id object

/-! ## Creation -/

/-- How the calls end that create an object: it gets a handle, and when there is none it goes
again, unless something else keeps it. -/
def giveHandle (p : ℕ) (object : ℕ) (kept : Bool) : KernelM S (ResultVal ℕ) := do
  match ← createHandle p object with
  | .ok handle => pure (.ok handle)
  | .error code =>
      if kept then pure (.error code)
      else do
        destroyObject object
        pure (.error code)

/-- The calls that reserve one object, create it and give it a handle. `create` makes the object
with its pointer to the limit. -/
def svcCreate (p : ℕ) (type : ResourceLimitType) (outOf : Result)
    (create : ℕ → ResultVal (KernelObject S)) (kept : Bool) : KernelM S (ResultVal ℕ) := do
  let process ← getProcess p
  if ← reserve process.resourceLimit type 1 then
    match create process.resourceLimit with
    | .error code => pure (.error code)
    | .ok object => do
        let id ← makeObject object
        giveHandle p id kept
  else pure (.error outOf)

/-- `SVC::CreateMutex`. A mutex created locked is kept by the thread that holds it.
SOURCE: svc.cpp:1342-1357, mutex.cpp:40-52 -/
def svcCreateMutex (p currentThread : ℕ) (initialLocked : ℕ) : KernelM S (ResultVal ℕ) :=
  svcCreate p .mutex .outOfMutexes
    (fun limit => .ok (.mutex limit (if initialLocked ≠ 0 then some currentThread else none)))
    (initialLocked ≠ 0)

/-- `KernelSystem::CreateSemaphore`.
SOURCE: semaphore.cpp:28-41 -/
def KernelSystem.createSemaphore (initialCount maxCount : ℤ) (limit : ℕ) : ResultVal (KernelObject S) :=
  if initialCount ≤ maxCount then .ok (.semaphore limit maxCount initialCount)
  else .error .invalidCombinationKernel

/-- `SVC::CreateSemaphore`.
SOURCE: svc.cpp:1408-1424 -/
def svcCreateSemaphore (p : ℕ) (initialCount maxCount : ℤ) : KernelM S (ResultVal ℕ) :=
  svcCreate p .semaphore .outOfSemaphores (KernelSystem.createSemaphore initialCount maxCount) false

/-- `SVC::CreateEvent`.
SOURCE: svc.cpp:1500-1515 -/
def svcCreateEvent (p : ℕ) (resetType : ℕ) : KernelM S (ResultVal ℕ) :=
  svcCreate p .event .outOfEvents (fun limit => .ok (.event limit resetType)) false

/-- `SVC::CreateTimer`.
SOURCE: svc.cpp:1544-1559 -/
def svcCreateTimer (p : ℕ) (resetType : ℕ) : KernelM S (ResultVal ℕ) :=
  svcCreate p .timer .outOfTimers (fun limit => .ok (.timer limit resetType)) false

/-- `SVC::CreateAddressArbiter`.
SOURCE: svc.cpp:1080-1094 -/
def svcCreateAddressArbiter (p : ℕ) : KernelM S (ResultVal ℕ) :=
  svcCreate p .addressArbiter .outOfAddressArbiters (fun limit => .ok (.addressArbiter limit)) false

/-- `IsValidVirtualAddress`.
SOURCE: memory.cpp:609-622 -/
def isValidVirtualAddress (process : Process S) (vaddr : ℕ) : Bool :=
  process.vmManager.pageTable.pointers (vaddr / Memory.PAGE_SIZE) ≠ 0 ||
    process.vmManager.pageTable.attributes (vaddr / Memory.PAGE_SIZE) = .rasterizerCachedMemory

/-- `KernelSystem::CreateThread`. The list of the threads keeps the new thread from then on.
SOURCE: thread.cpp:354-404 -/
def KernelSystem.createThread (entryPoint priority arg : ℕ) (processorId : ℤ) (stackTop : ℕ) (owner : ℕ) :
    KernelM S (ResultVal ℕ) := do
  let process ← getProcess owner
  if ThreadPrioLowest < priority then pure (.error .outOfRange)
  else if ThreadProcessorIdMax < processorId then pure (.error .outOfRangeKernel)
  else if isValidVirtualAddress process entryPoint = false then pure (.error .invalidAddress)
  else if processorId < 0 ∨ (← get).numCores ≤ processorId.toNat then throw .undefined
  else do
    let t : ThreadObject := {
      ownerProcess := owner
      priority := priority
      processorId := processorId.toNat
      entryPoint := entryPoint
      stackTop := stackTop
      arg := arg }
    let id ← makeObject (.thread t)
    match ← allocateThreadLocalStorage owner with
    | .error code => pure (.error code)
    | .ok address => do
        modifyObjects fun entry =>
          if entry.1 = id then (id, .thread { t with tlsAddress := address, ready := true }) else entry
        pure (.ok id)

/-- The checks of `SVC::CreateThread`: the core the thread is created for.
SOURCE: svc.cpp:1238-1272 -/
def threadProcessor (process : Process S) (maxPriority : ℤ) (priority : ℕ) (processorId : ℤ) :
    ResultVal ℤ :=
  if ThreadPrioLowest < priority then .error .outOfRange
  else if ¬ ((maxPriority % 2 ^ 32).toNat ≤ priority ∨ process.noThreadRestrictions) then
    .error .notAuthorized
  else
    let processorId := if processorId = -2 then (process.idealProcessor : ℤ) else processorId
    if processorId = -1 then .ok 0
    else if 0 ≤ processorId ∧ processorId < ThreadProcessorIdMax then .ok processorId
    else .error .outOfRange

/-- `SVC::CreateThread`.
SOURCE: svc.cpp:1236-1297 -/
def svcCreateThread (p : ℕ) (entryPoint arg stackTop priority : ℕ) (processorId : ℤ) :
    KernelM S (ResultVal ℕ) := do
  let process ← getProcess p
  let maxPriority := ((← get).resourceLimits process.resourceLimit).limitValues .priority
  match threadProcessor process maxPriority priority processorId with
  | .error code => pure (.error code)
  | .ok processorId => do
      if ← reserve process.resourceLimit .thread 1 then
        match ← KernelSystem.createThread entryPoint priority arg processorId stackTop p with
        | .error code => pure (.error code)
        | .ok id => giveHandle p id true
      else pure (.error .outOfThreads)

/-- The half of `KernelSystem::CreateSharedMemory` that takes the memory from a region.
SOURCE: shared_memory.cpp:56-72 -/
def allocateSharedMemory (m : SharedMemory S) (owner : ℕ) : KernelM S (SharedMemory S) := do
  match ← linearAllocate m.memoryRegion m.size with
  | none => throw (.assertion .sharedMemorySpace)
  | some offset => do
      let memory ← fcramRef offset
      let process ← getProcess owner
      setProcess owner { process with memoryUsed := u32 (process.memoryUsed + m.size) }
      pure { m with
        backingBlocks := [(memory, m.size)]
        holdingMemory := add m.holdingMemory (offset, offset + m.size)
        linearHeapPhysOffset := offset }

/-- `GetBackingBlocksForRange` with its `ASSERT`. -/
def backingBlocks (vm : VMManager) (address size : ℕ) : KernelM S (List (MemoryRef × ℕ)) := do
  match ← StateT.lift (vm.getBackingBlocksForRange address size) with
  | .ok blocks => pure blocks
  | .error _ => throw (.assertion .backingBlocks)

/-- `KernelSystem::CreateSharedMemory`. When the state of the memory cannot be changed the object
is destroyed before its address was set.
SOURCE: shared_memory.cpp:42-86 -/
def KernelSystem.createSharedMemory (owner size permissions otherPermissions address : ℕ)
    (region : MemoryRegion) : KernelM S (ResultVal ℕ) := do
  let m : SharedMemory S := {
    ownerProcess := some owner
    size := size
    memoryRegion := region
    permissions := permissions
    otherPermissions := otherPermissions
    holdingMemory := empty }
  if address = 0 then do
    let m ← allocateSharedMemory m owner
    let id ← makeObject (.sharedMemory m)
    pure (.ok id)
  else do
    let process ← getProcess owner
    let (vm, result) ← StateT.lift (process.vmManager.changeMemoryState (← get).isCached address
      size .private_ .readWrite .locked (VMAPermission.ofBits (permissions % 8)))
    setProcess owner { process with vmManager := vm }
    if result ≠ .success then do
      sharedMemoryDestructor m
      pure (.error result)
    else do
      let blocks ← backingBlocks vm address size
      let id ← makeObject (.sharedMemory { m with backingBlocks := blocks, baseAddress := address })
      pure (.ok id)

/-- `VerifyPermissions` of `SVC::CreateMemoryBlock`: none, read, write, both, or do not care. -/
def verifyPermissions (permission : ℕ) : Bool := permission < 4 || permission = 0x10000000

/-- The checks of `SVC::CreateMemoryBlock`.
SOURCE: svc.cpp:1681-1711 -/
def memoryBlockChecks (addr size myPermission otherPermission : ℕ) : Result :=
  if ¬ pageAligned size then .misalignedSize
  else if verifyPermissions myPermission = false then .invalidCombination
  else if verifyPermissions otherPermission = false then .invalidCombination
  else if (addr < Memory.PROCESS_IMAGE_VADDR ∨
      Memory.SHARED_MEMORY_VADDR_END < u32 (addr + size)) ∧ addr ≠ 0 then .invalidAddress
  else .success

/-- `SVC::CreateMemoryBlock`.
SOURCE: svc.cpp:1678-1733 -/
def svcCreateMemoryBlock (p : ℕ) (addr size myPermission otherPermission : ℕ) :
    KernelM S (ResultVal ℕ) := do
  let check := memoryBlockChecks addr size myPermission otherPermission
  if check ≠ .success then pure (.error check)
  else do
    let process ← getProcess p
    if ← reserve process.resourceLimit .sharedMemory 1 then
      let region :=
        if addr = 0 ∧ process.sharedDeviceMem then process.memoryRegion else .base
      match ← KernelSystem.createSharedMemory p size myPermission otherPermission addr region with
      | .error code => pure (.error code)
      | .ok id => giveHandle p id false
    else pure (.error .outOfSharedMems)

end Borked3DS.Model
