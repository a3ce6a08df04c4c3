import Mathlib.Data.Int.Notation
import Mathlib.Data.List.FinRange
import Borked3DS.Library.Triple
import Borked3DS.Model.HandleTable
import Borked3DS.Model.MemoryRegion
import Borked3DS.Model.VMManager

/-!
# Processes and what they own

The resource limits of `resource_limit.cpp`, the part of `process.cpp` that gives a process its
memory, and the kernel objects that are charged to a limit. A pointer to a limit, a process or an
object is its number. A process that was destroyed stays in the list, so that the weak pointers to
it can be found expired.
-/

set_option autoImplicit false

namespace Borked3DS.Model

open Borked3DS.Library IntervalSet

/-- `ResourceLimitType`. -/
inductive ResourceLimitType
  | priority | commit | thread | event | mutex | semaphore | timer | sharedMemory
  | addressArbiter | cpuTime
  deriving DecidableEq, Repr

/-- A signed 32-bit result; overflow is undefined. -/
def s32 (x : ℤ) : Exec ℤ := if -2 ^ 31 ≤ x ∧ x < 2 ^ 31 then pure x else .error .undefined

/-- `ResourceLimit`. -/
structure ResourceLimit where
  limitValues : ResourceLimitType → ℤ
  currentValues : ResourceLimitType → ℤ

namespace ResourceLimit

/-- `Reserve`. Going over the limit is logged and allowed.
SOURCE: resource_limit.cpp:45-56 -/
def reserve (r : ResourceLimit) (type : ResourceLimitType) (amount : ℤ) :
    Exec (ResourceLimit × Bool) := do
  let newValue ← s32 (r.currentValues type + amount)
  pure ({ r with currentValues := Function.update r.currentValues type newValue }, true)

/-- `Release`.
SOURCE: resource_limit.cpp:58-68 -/
def release (r : ResourceLimit) (type : ResourceLimitType) (amount : ℤ) :
    Exec (ResourceLimit × Bool) := do
  let value ← s32 (r.currentValues type - amount)
  pure ({ r with currentValues := Function.update r.currentValues type value }, true)

end ResourceLimit

/-- `MemoryRegion`. -/
inductive MemoryRegion
  | application | system | base
  deriving DecidableEq, Repr

/-- The slots of one page of thread local storage that are in use. -/
abbrev TlsPage := Fin 8 → Bool

/-- `Process`, once it runs. -/
structure Process (S : Type) where
  resourceLimit : ℕ
  memoryRegion : MemoryRegion
  sharedDeviceMem : Bool := false
  noThreadRestrictions : Bool := false
  idealProcessor : ℕ := 0
  handleTable : HandleTable ℕ := .init
  vmManager : VMManager
  memoryUsed : ℕ
  holdingMemory : S
  holdingTlsMemory : S
  tlsSlots : List TlsPage := []
  expired : Bool := false

/-- `SharedMemory`. -/
structure SharedMemory (S : Type) where
  ownerProcess : Option ℕ
  size : ℕ
  memoryRegion : MemoryRegion
  permissions : ℕ
  otherPermissions : ℕ
  baseAddress : ℕ := 0
  linearHeapPhysOffset : ℕ := 0
  backingBlocks : List (MemoryRef × ℕ) := []
  holdingMemory : S

/-- A thread, as far as its creation and its end read and write it. -/
structure ThreadObject where
  ownerProcess : ℕ
  priority : ℕ
  processorId : ℕ
  entryPoint : ℕ
  stackTop : ℕ
  arg : ℕ
  tlsAddress : ℕ := 0
  ready : Bool := false

/-- The objects that are charged to a resource limit, those of `SVC::Create*`. -/
inductive KernelObject (S : Type)
  | thread (t : ThreadObject)
  | mutex (resourceLimit : Option ℕ) (holdingThread : Option ℕ)
  | semaphore (resourceLimit : Option ℕ) (maxCount availableCount : ℤ)
  | event (resourceLimit : Option ℕ) (resetType : ℕ)
  | timer (resourceLimit : Option ℕ) (resetType : ℕ)
  | addressArbiter (resourceLimit : Option ℕ)
  | sharedMemory (m : SharedMemory S)

/-- What the calls below read and write of the kernel. The list of objects is that of the live
ones: a thread leaves it when it is stopped, any other object when it is destroyed. -/
structure KernelSystem (S : Type) where
  memoryRegions : MemoryRegion → MemoryRegionInfo S
  fcram : BackingMem
  isCached : ℕ → Bool
  numCores : ℕ
  resourceLimits : ℕ → ResourceLimit
  processes : List (Process S)
  objects : List (ℕ × KernelObject S)
  nextObject : ℕ

/-- A call on the kernel. -/
abbrev KernelM (S : Type) := StateT (KernelSystem S) Exec

section Access

variable {S : Type}

/-- Reading a process through its pointer. -/
def getProcess (p : ℕ) : KernelM S (Process S) := do
  match (← get).processes[p]? with
  | some process => pure process
  | none => throw .undefined

/-- Writing a process through its pointer. -/
def setProcess (p : ℕ) (process : Process S) : KernelM S Unit :=
  modify fun k => { k with processes := k.processes.set p process }

/-- `process->resource_limit->Reserve`. -/
def reserve (limit : ℕ) (type : ResourceLimitType) (amount : ℤ) : KernelM S Bool := do
  let k ← get
  let (r, ok) ← StateT.lift ((k.resourceLimits limit).reserve type amount)
  set { k with resourceLimits := Function.update k.resourceLimits limit r }
  pure ok

/-- `process->resource_limit->Release`. -/
def release (limit : ℕ) (type : ResourceLimitType) (amount : ℤ) : KernelM S Unit := do
  let k ← get
  let (r, _) ← StateT.lift ((k.resourceLimits limit).release type amount)
  set { k with resourceLimits := Function.update k.resourceLimits limit r }

/-- `GetFCRAMRef`.
SOURCE: memory.cpp:987-990 -/
def fcramRef (offset : ℕ) : KernelM S MemoryRef := do
  StateT.lift (assert (offset ≤ Memory.FCRAM_N3DS_SIZE) .fcramOffset)
  pure { backingMem := some (← get).fcram, offset := offset }

variable [IntervalSet S]

/-- `GetMemoryRegion(region)->LinearAllocate(size)`. -/
def linearAllocate (region : MemoryRegion) (size : ℕ) : KernelM S (Option ℕ) := do
  let k ← get
  let (r, offset) ← StateT.lift ((k.memoryRegions region).linearAllocate size)
  set { k with memoryRegions := Function.update k.memoryRegions region r }
  pure offset

/-- `GetMemoryRegion(region)->Free(offset, size)`. -/
def freeRegion (region : MemoryRegion) (offset size : ℕ) : KernelM S Unit := do
  let k ← get
  let r ← StateT.lift ((k.memoryRegions region).free offset size)
  set { k with memoryRegions := Function.update k.memoryRegions region r }

end Access

section Storage

variable {S : Type} [IntervalSet S]

/-- The first page with a free slot, with its first free slot; `i` counts the pages passed.
SOURCE: process.cpp:435-450 -/
def freeTlsSlot : List TlsPage → ℕ → Option (ℕ × Fin 8)
  | [], _ => none
  | page :: pages, i =>
      match (List.finRange 8).find? fun slot => !page slot with
      | some slot => some (i, slot)
      | none => freeTlsSlot pages (i + 1)

/-- Where a slot lies. -/
def tlsAddress (page : ℕ) (slot : Fin 8) : ℕ :=
  u32 (Memory.TLS_AREA_VADDR + page * Memory.PAGE_SIZE + slot.val * Memory.TLS_ENTRY_SIZE)

/-- The half of `AllocateThreadLocalStorage` that takes a page from the BASE region. Whether the
page could be mapped is not looked at.
SOURCE: process.cpp:452-485 -/
def allocateTlsPage (p : ℕ) : KernelM S (ResultVal ℕ) := do
  match ← linearAllocate .base Memory.PAGE_SIZE with
  | none => pure (.error .outOfMemory)
  | some offset => do
      let process ← getProcess p
      let page := process.tlsSlots.length
      let memory ← fcramRef offset
      let (vm, _) ← StateT.lift (process.vmManager.mapBackingMemory (← get).isCached
        (u32 (Memory.TLS_AREA_VADDR + page * Memory.PAGE_SIZE)) memory Memory.PAGE_SIZE .locked)
      setProcess p { process with
        vmManager := vm
        holdingTlsMemory := add process.holdingTlsMemory (offset, offset + Memory.PAGE_SIZE)
        memoryUsed := u32 (process.memoryUsed + Memory.PAGE_SIZE)
        tlsSlots := process.tlsSlots ++ [fun slot => decide (slot = 0)] }
      pure (.ok (tlsAddress page 0))

/-- `AllocateThreadLocalStorage`. The storage itself is not modelled.
SOURCE: process.cpp:429-498 -/
def allocateThreadLocalStorage (p : ℕ) : KernelM S (ResultVal ℕ) := do
  let process ← getProcess p
  match freeTlsSlot process.tlsSlots 0 with
  | some (page, slot) => do
      setProcess p { process with
        tlsSlots := process.tlsSlots.modify page fun used => Function.update used slot true }
      pure (.ok (tlsAddress page slot))
  | none => allocateTlsPage p

/-- One round of the loops of `FreeAllMemory`. -/
def giveBack (p : ℕ) (region : MemoryRegion) (entry : ℕ × ℕ) : KernelM S Unit := do
  freeRegion region entry.1 (entry.2 - entry.1)
  let process ← getProcess p
  setProcess p { process with memoryUsed := u32Sub process.memoryUsed (entry.2 - entry.1) }

/-- `FreeAllMemory`.
SOURCE: process.cpp:594-628 -/
def freeAllMemory (p : ℕ) : KernelM S Unit := do
  let process ← getProcess p
  (intervals process.holdingMemory).forM fun entry => do
    giveBack p process.memoryRegion entry
    release process.resourceLimit .commit (entry.2 - entry.1 : ℕ)
  (intervals process.holdingTlsMemory).forM fun entry => giveBack p .base entry
  let process ← getProcess p
  setProcess p { process with holdingMemory := empty, holdingTlsMemory := empty, tlsSlots := [] }

/-- The destructor of a process. The weak pointers to it have expired when it runs; the objects
that only its handles kept alive are destroyed by it.
SOURCE: process.cpp:634-645 -/
def destroyProcess (p : ℕ) : KernelM S Unit := do
  let process ← getProcess p
  setProcess p { process with handleTable := process.handleTable.clear, expired := true }
  freeAllMemory p

end Storage

end Borked3DS.Model
