import Borked3DS.Library.Run
import Borked3DS.Model.ObjectCreation
import Borked3DS.Interface.AddressSpace

/-!
# What the books of the kernel say

The calls that create charged objects and the ends of these objects as the inputs of a machine
(`AccountingCall`), what it means that the books are right (`Accounted`), the condition a call has
to meet for them to stay right (`AccountingCall.Settles`), and what is known of a kernel before
the first call (`Started`).
-/

set_option autoImplicit false

namespace Borked3DS.Interface

open Borked3DS.Library Borked3DS.Model IntervalSet VMAMap

variable {S : Type} [IntervalSet S]

/-- The calls that create charged objects, by a process, and the ends of these objects: the last
reference to one is dropped, a thread is stopped, a process is destroyed. -/
inductive AccountingCall
  | createThread (p : ℕ) (entryPoint arg stackTop priority : UInt32) (processorId : Int32)
  | createMutex (p currentThread : ℕ) (initialLocked : UInt32)
  | createSemaphore (p : ℕ) (initialCount maxCount : Int32)
  | createEvent (p : ℕ) (resetType : UInt32)
  | createTimer (p : ℕ) (resetType : UInt32)
  | createAddressArbiter (p : ℕ)
  | createMemoryBlock (p : ℕ) (addr size myPermission otherPermission : UInt32)
  | destroyObject (id : ℕ)
  | destroyProcess (p : ℕ)
  deriving DecidableEq, Repr

/-- A process whose last reference is gone makes no calls. -/
def calledBy {α : Type} (p : ℕ) (call : KernelM S α) : KernelM S Unit := do
  let process ← getProcess p
  if process.expired then throw .undefined
  else do
    let _ ← call
    pure ()

/-- Whether an object is a thread of the process `p`. -/
def isThreadOf (p : ℕ) : KernelObject S → Bool
  | .thread t => t.ownerProcess = p
  | _ => false

/-- `TerminateProcess` stops the threads of a process before it lets go of it. -/
def lastReferenceDropped (p : ℕ) : KernelM S Unit := do
  let k ← get
  if k.objects.any fun entry => isThreadOf p entry.2 then throw .undefined
  else calledBy p (destroyProcess p)

/-- What a call does. -/
def AccountingCall.perform : AccountingCall → KernelM S Unit
  | .createThread p entryPoint arg stackTop priority processorId =>
      calledBy p (svcCreateThread p entryPoint.toNat arg.toNat stackTop.toNat priority.toNat
        processorId.toInt)
  | .createMutex p currentThread initialLocked =>
      calledBy p (svcCreateMutex p currentThread initialLocked.toNat)
  | .createSemaphore p initialCount maxCount =>
      calledBy p (svcCreateSemaphore p initialCount.toInt maxCount.toInt)
  | .createEvent p resetType => calledBy p (svcCreateEvent p resetType.toNat)
  | .createTimer p resetType => calledBy p (svcCreateTimer p resetType.toNat)
  | .createAddressArbiter p => calledBy p (svcCreateAddressArbiter p)
  | .createMemoryBlock p addr size myPermission otherPermission =>
      calledBy p (svcCreateMemoryBlock p addr.toNat size.toNat myPermission.toNat
        otherPermission.toNat)
  | .destroyObject id => Model.destroyObject id
  | .destroyProcess p => lastReferenceDropped p

/-- The kernel after a call. -/
def accountingStep (k : KernelSystem S) (call : AccountingCall) : Exec (KernelSystem S) := do
  let (_, k) ← call.perform k
  pure k

/-! ## The books -/

/-- The types of which a limit counts objects. -/
def CountsObjects (type : ResourceLimitType) : Prop :=
  type ≠ .priority ∧ type ≠ .commit ∧ type ≠ .cpuTime

instance (type : ResourceLimitType) : Decidable (CountsObjects type) :=
  inferInstanceAs (Decidable (_ ∧ _ ∧ _))

/-- The limit an object is charged to, and as what. -/
def charge (processes : List (Process S)) : KernelObject S → Option (ℕ × ResourceLimitType)
  | .thread t => processes[t.ownerProcess]?.map fun p => (p.resourceLimit, .thread)
  | .mutex limit _ => limit.map (·, .mutex)
  | .semaphore limit _ _ => limit.map (·, .semaphore)
  | .event limit _ => limit.map (·, .event)
  | .timer limit _ => limit.map (·, .timer)
  | .addressArbiter limit => limit.map (·, .addressArbiter)
  | .sharedMemory m =>
      (m.ownerProcess.bind (processes[·]?)).map fun p => (p.resourceLimit, .sharedMemory)

/-- The live objects. -/
def liveObjects (k : KernelSystem S) : List (KernelObject S) := k.objects.map Prod.snd

/-- The number of the objects that are charged to a limit as a type. -/
def countCharged (processes : List (Process S)) (objects : List (KernelObject S)) (limit : ℕ)
    (type : ResourceLimitType) : ℕ :=
  objects.countP fun object => charge processes object = some (limit, type)

/-- The memory an object holds for the process `p`. -/
def objectBytes (p : ℕ) : KernelObject S → ℕ
  | .sharedMemory m => if m.ownerProcess = some p then total m.holdingMemory else 0
  | _ => 0

/-- The memory the process `p` holds: its heap, its thread local storage, and the shared memory
blocks it owns. -/
def heldBytes (objects : List (KernelObject S)) (p : ℕ) (process : Process S) : ℕ :=
  total process.holdingMemory + total process.holdingTlsMemory +
    (objects.map (objectBytes p)).sum

/-- The books are right: every limit's current value is the number of the live objects charged to
it, and every process's `memory_used` is the memory it holds. -/
structure Accounted (k : KernelSystem S) : Prop where
  counts : ∀ limit type, CountsObjects type → (k.resourceLimits limit).currentValues type =
    countCharged k.processes (liveObjects k) limit type
  bytes : ∀ p process, k.processes[p]? = some process → process.expired = false →
    process.memoryUsed = heldBytes (liveObjects k) p process

/-! ## The condition on a call -/

/-- The range is private memory that its owner can read and write. -/
def Lockable (m : VMAMap) (addr size : ℕ) : Prop :=
  addr + size ≤ MAX_ADDRESS ∧ RangeMeets (fun a => a.type ≠ .free ∧ a.meminfoState = .private_ ∧
    a.permissions.includes .readWrite = true) m addr size

instance (m : VMAMap) (addr size : ℕ) : Decidable (Lockable m addr size) :=
  inferInstanceAs (Decidable (_ ∧ ∀ e ∈ m, addr < e.1 + e.2.size → e.1 < addr + size → _))

/-- The condition under which the books stay right. A thread that gets past the checks of
`SVC::CreateThread` has a mapped entry point, a semaphore begins with no more slots than it may
have, a memory block with an address is made of memory that can be locked, and a shared memory
block goes before its owner does. -/
def AccountingCall.Settles (k : KernelSystem S) : AccountingCall → Prop
  | .createThread p entryPoint _ _ priority processorId =>
      ∀ process ∈ k.processes[p]?,
        (threadProcessor process ((k.resourceLimits process.resourceLimit).limitValues .priority)
          priority.toNat processorId.toInt).toOption.isSome →
        isValidVirtualAddress process entryPoint.toNat = true
  | .createSemaphore _ initialCount maxCount => initialCount.toInt ≤ maxCount.toInt
  | .createMemoryBlock p addr size myPermission otherPermission =>
      ∀ process ∈ k.processes[p]?,
        memoryBlockChecks addr.toNat size.toNat myPermission.toNat otherPermission.toNat =
          .success →
        addr.toNat = 0 ∨ size.toNat = 0 ∨
          Lockable process.vmManager.vmaMap addr.toNat size.toNat
  | .destroyObject id =>
      ∀ entry ∈ k.objects.find? fun entry => entry.1 = id,
        match entry.2 with
        | .sharedMemory m => ∀ owner ∈ m.ownerProcess, ∀ process ∈ k.processes[owner]?,
            process.expired = false
        | _ => True
  | _ => True

/-! ## The kernel before the first call -/

instance (s : S) (x : ℕ) : Decidable (x ∈ toSet s) :=
  inferInstanceAs (Decidable (∃ i ∈ intervals s, i.1 ≤ x ∧ x < i.2))

/-- How often `x` is in a set. -/
def share (x : ℕ) (s : S) : ℕ := if x ∈ toSet s then 1 else 0

/-- How often the byte at `x` is held by a process for itself. -/
def processShare (x : ℕ) (process : Process S) : ℕ :=
  share x process.holdingMemory + share x process.holdingTlsMemory

/-- How often the byte at `x` is held by an object. -/
def objectShare (x : ℕ) : KernelObject S → ℕ
  | .sharedMemory m => share x m.holdingMemory
  | _ => 0

/-- How often the byte of FCRAM at `x` is free or held. -/
def shares (regions : MemoryRegion → MemoryRegionInfo S) (processes : List (Process S))
    (objects : List (KernelObject S)) (x : ℕ) : ℕ :=
  share x (regions .application).freeBlocks + share x (regions .system).freeBlocks +
    share x (regions .base).freeBlocks + (processes.map (processShare x)).sum +
    (objects.map (objectShare x)).sum

/-- A shared memory block of a process holds the memory it was given, and none when it was made of
memory of its owner. Its address and size are 32-bit words. -/
def HoldsOwn (m : SharedMemory S) : Prop :=
  m.size < 2 ^ 32 ∧ m.baseAddress < 2 ^ 32 ∧
    (m.ownerProcess ≠ none → total m.holdingMemory = if m.baseAddress = 0 then m.size else 0)

/-- What is known of a kernel before the first call: the books are right, every byte of FCRAM is
free or held once at most, a shared memory block holds what it was given, a live thread belongs to
a live process, every address space is one that `Reset` and the calls on it lead to, and the next
object is a new one. -/
structure Started (k : KernelSystem S) : Prop where
  accounted : Accounted k
  apart : ∀ x, shares k.memoryRegions k.processes (liveObjects k) x ≤
    if x < Memory.FCRAM_N3DS_SIZE then 1 else 0
  holdsOwn : ∀ m, .sharedMemory m ∈ liveObjects k → HoldsOwn m
  threads : ∀ t, .thread t ∈ liveObjects k →
    ∃ process, k.processes[t.ownerProcess]? = some process ∧ process.expired = false
  spaces : ∀ process ∈ k.processes, ∃ m s₀, VMManager.reset k.isCached m = .ok s₀ ∧
    Reachable (VMCall.step k.isCached) s₀ process.vmManager
  fresh : ∀ entry ∈ k.objects, entry.1 < k.nextObject

end Borked3DS.Interface
