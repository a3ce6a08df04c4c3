import Borked3DS.Model.ObjectCreation

/-!
# Threads in the tables of their managers

`KernelSystem::CreateThread` and `Thread::Stop`, with what the thread managers of the cores keep of
a thread next to its object: the list of the threads, and the table of wakeups by thread id.
-/

set_option autoImplicit false

namespace Borked3DS.Model

open Borked3DS.Library

/-- The kernel, and of the thread manager of each core the `thread_list` and the
`wakeup_callback_table`. The kernel gives out the thread ids, for all cores. -/
structure ThreadKernel (S : Type) where
  kernel : KernelSystem S
  threadList : ℕ → List ℕ := fun _ => []
  wakeupCallbackTable : ℕ → ℕ → Option ℕ := fun _ _ => none
  threadId : ℕ → ℕ := fun _ => 0
  nextThreadId : ℕ := 1

/-- A call on the kernel that reaches the tables of the thread managers. -/
abbrev ThreadKernelM (S : Type) := StateT (ThreadKernel S) Exec

/-- A call that does not reach the tables. -/
def onKernel {S α : Type} (m : KernelM S α) : ThreadKernelM S α := fun k => do
  let (a, kernel) ← m k.kernel
  pure (a, { k with kernel := kernel })

namespace ThreadKernel

variable {S : Type}

/-- The manager of a core gets to know a thread, by a new id. -/
def enter (core thread : ℕ) (k : ThreadKernel S) : ThreadKernel S :=
  { k with
    threadList := Function.update k.threadList core (k.threadList core ++ [thread])
    threadId := Function.update k.threadId thread k.nextThreadId
    wakeupCallbackTable := Function.update k.wakeupCallbackTable core
      (Function.update (k.wakeupCallbackTable core) k.nextThreadId (some thread))
    nextThreadId := u32 (k.nextThreadId + 1) }

/-- A thread leaves the tables of its manager. -/
def leave (core thread : ℕ) (k : ThreadKernel S) : ThreadKernel S :=
  { k with
    threadList := Function.update k.threadList core ((k.threadList core).erase thread)
    wakeupCallbackTable := Function.update k.wakeupCallbackTable core
      (Function.update (k.wakeupCallbackTable core) (k.threadId thread) none) }

variable [IntervalSet S]

/-- `KernelSystem::CreateThread`. The manager knows the thread before its local storage is
allocated.
SOURCE: thread.cpp:352-404 -/
def createThread (entryPoint priority arg : ℕ) (processorId : ℤ) (stackTop owner : ℕ)
    (makeReady : Bool) : ThreadKernelM S (ResultVal ℕ) := do
  let process ← onKernel (getProcess owner)
  if ThreadPrioLowest < priority then pure (.error .outOfRange)
  else if ThreadProcessorIdMax < processorId then pure (.error .outOfRangeKernel)
  else if isValidVirtualAddress process entryPoint = false then pure (.error .invalidAddress)
  else if processorId < 0 ∨ (← get).kernel.numCores ≤ processorId.toNat then throw .undefined
  else do
    let t : ThreadObject := {
      ownerProcess := owner
      priority := priority
      processorId := processorId.toNat
      entryPoint := entryPoint
      stackTop := stackTop
      arg := arg }
    let thread ← onKernel (makeObject (.thread t))
    modify (enter t.processorId thread)
    match ← onKernel (allocateThreadLocalStorage owner) with
    | .error code => pure (.error code)
    | .ok address => do
        onKernel (modifyObjects fun entry =>
          if entry.1 = thread then
            (thread, .thread { t with tlsAddress := address, ready := makeReady })
          else entry)
        pure (.ok thread)

/-- A thread of a manager's list is stopped and leaves it, as in `ExitCurrentThread` and
`TerminateProcessThreads`.
SOURCE: thread.cpp:88-120, 205-239 -/
def stop (thread : ℕ) : ThreadKernelM S Unit := do
  let k ← get
  match k.kernel.objects.find? fun entry => entry.1 = thread with
  | some (_, .thread t) =>
      if thread ∈ k.threadList t.processorId then
        onKernel (destroyObject thread)
        modify (leave t.processorId thread)
      else throw .undefined
  | _ => throw .undefined

end ThreadKernel

end Borked3DS.Model
