import Borked3DS.Library.Run
import Borked3DS.Model.ThreadStorage

/-!
# What the thread local storage promises

Threads are created and stopped, by any processes and in any order. The storage of a thread is its
own as long as it lives, and a thread that cannot be created leaves no trace.
-/

set_option autoImplicit false

namespace Borked3DS.Interface

open Borked3DS.Library Borked3DS.Model IntervalSet

variable {S : Type} [IntervalSet S]

/-- `KernelSystem::CreateThread` for a process that is alive, and `Thread::Stop`. -/
inductive ThreadCall
  | createThread (entryPoint priority arg : UInt32) (processorId : Int32) (stackTop : UInt32)
      (owner : ℕ) (makeReady : Bool)
  | stop (thread : ℕ)

/-- The kernel after a call. -/
def ThreadCall.step (k : ThreadKernel S) : ThreadCall → Exec (ThreadKernel S)
  | .createThread entryPoint priority arg processorId stackTop owner makeReady =>
      if k.kernel.processes[owner]?.any fun process => !process.expired then do
        let (_, k) ← ThreadKernel.createThread entryPoint.toNat priority.toNat arg.toNat
          processorId.toInt stackTop.toNat owner makeReady k
        pure k
      else .error .undefined
  | .stop thread => do
      let (_, k) ← ThreadKernel.stop thread k
      pure k

/-! ## Storage -/

/-- A thread that has been created and not stopped. -/
def IsThread (k : ThreadKernel S) (thread : ℕ) (t : ThreadObject) : Prop :=
  (thread, KernelObject.thread t) ∈ k.kernel.objects

/-- The page of a thread's storage, as `Thread::Stop` computes it. -/
def tlsPage (address : ℕ) : ℕ := u32Sub address Memory.TLS_AREA_VADDR / Memory.PAGE_SIZE

/-- The slot of a thread's storage in its page. -/
def tlsSlot (address : ℕ) : Fin 8 :=
  ⟨u32Sub address Memory.TLS_AREA_VADDR % Memory.PAGE_SIZE / Memory.TLS_ENTRY_SIZE, by
    unfold Memory.PAGE_SIZE Memory.TLS_ENTRY_SIZE
    omega⟩

/-- The addresses of a thread's storage. -/
def tlsRange (t : ThreadObject) : Set ℕ :=
  Set.Ico t.tlsAddress (t.tlsAddress + Memory.TLS_ENTRY_SIZE)

/-- The bit of a slot is set. -/
def SlotUsed (pages : List TlsPage) (page : ℕ) (slot : Fin 8) : Prop :=
  ∃ used, pages[page]? = some used ∧ used slot = true

/-- The storage of the threads of a process is apart, and the bits that are set are those of their
slots. -/
structure TlsExclusive (k : ThreadKernel S) : Prop where
  apart : ∀ thread thread' t t', IsThread k thread t → IsThread k thread' t' → thread ≠ thread' →
    t.ownerProcess = t'.ownerProcess → Disjoint (tlsRange t) (tlsRange t')
  used : ∀ thread t, IsThread k thread t → ∃ process,
    k.kernel.processes[t.ownerProcess]? = some process ∧
      SlotUsed process.tlsSlots (tlsPage t.tlsAddress) (tlsSlot t.tlsAddress)
  live : ∀ p process page slot, k.kernel.processes[p]? = some process →
    SlotUsed process.tlsSlots page slot → ∃ thread t, IsThread k thread t ∧ t.ownerProcess = p ∧
      tlsPage t.tlsAddress = page ∧ tlsSlot t.tlsAddress = slot

/-- A thread that is not created has no slot, and is in no list and no table. -/
def LeavesNothing (k : ThreadKernel S) : ThreadCall → Prop
  | .createThread entryPoint priority arg processorId stackTop owner makeReady =>
      ∀ code k', ThreadKernel.createThread entryPoint.toNat priority.toNat arg.toNat
          processorId.toInt stackTop.toNat owner makeReady k = .ok (.error code, k') →
        k'.threadList = k.threadList ∧ k'.wakeupCallbackTable = k.wakeupCallbackTable ∧
          k'.kernel.processes.map (·.tlsSlots) = k.kernel.processes.map (·.tlsSlots)
  | .stop _ => True

/-! ## The condition -/

/-- The checks at the start of `KernelSystem::CreateThread`. -/
def MayCreate (process : Process S) (entryPoint priority : ℕ) (processorId : ℤ) : Prop :=
  priority ≤ ThreadPrioLowest ∧ processorId ≤ ThreadProcessorIdMax ∧
    isValidVirtualAddress process entryPoint = true

/-- There is a free slot in a page, or a free page in the BASE region. -/
def HasStorage (k : KernelSystem S) (process : Process S) : Prop :=
  (∃ page ∈ process.tlsSlots, ∃ slot, page slot = false) ∨
    ∃ block ∈ intervals (k.memoryRegions .base).freeBlocks, Memory.PAGE_SIZE ≤ block.2 - block.1

/-- A thread that gets past the checks finds storage. -/
def FindsStorage (k : ThreadKernel S) : ThreadCall → Prop
  | .createThread entryPoint priority _ processorId _ owner _ =>
      ∀ process ∈ k.kernel.processes[owner]?,
        MayCreate process entryPoint.toNat priority.toNat processorId.toInt →
        HasStorage k.kernel process
  | .stop _ => True

instance (process : Process S) (entryPoint priority : ℕ) (processorId : ℤ) :
    Decidable (MayCreate process entryPoint priority processorId) :=
  inferInstanceAs (Decidable (_ ∧ _ ∧ _))

instance (k : KernelSystem S) (process : Process S) : Decidable (HasStorage k process) :=
  inferInstanceAs (Decidable (_ ∨ _))

instance (k : ThreadKernel S) (call : ThreadCall) : Decidable (FindsStorage k call) :=
  match call with
  | .createThread _ _ _ _ _ owner _ =>
      inferInstanceAs (Decidable (∀ process ∈ k.kernel.processes[owner]?, _ → _))
  | .stop _ => isTrue trivial

/-- A kernel before the first thread: no process has storage, what is free in the BASE region lies
in FCRAM, and each object has its own number. -/
structure Threadless (k : KernelSystem S) : Prop where
  threads : ∀ thread t, (thread, KernelObject.thread t) ∉ k.objects
  slots : ∀ process ∈ k.processes, process.tlsSlots = []
  inside : toSet (k.memoryRegions .base).freeBlocks ⊆ Set.Ico 0 Memory.FCRAM_N3DS_SIZE
  numbers : (k.objects.map Prod.fst).Nodup
  fresh : ∀ entry ∈ k.objects, entry.1 < k.nextObject

end Borked3DS.Interface
