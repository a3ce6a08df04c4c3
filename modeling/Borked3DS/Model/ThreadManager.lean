import Borked3DS.Model.Thread

/-!
# The thread manager

The `ThreadManager` half of `thread.cpp`, and the calls that create threads, put the running one
to sleep, and wake others up. The clocks, the settings and the outcome of what other components
decide are arguments.
-/

set_option autoImplicit false

namespace Borked3DS.Model

open Borked3DS.Library

/-! ## Choosing the next thread -/

/-- The number of entries of the ready queue. -/
def ReadyQueue.entries (q : ReadyQueue) : ℕ :=
  ((List.range (ThreadPrioLowest + 1)).map fun i => (q.lane i).length).sum

/-- Both loops of `PopNextReadyThread`: what is popped and cannot be scheduled is parked. Each turn
takes an entry out of the queue, so the number of entries is enough fuel. -/
def popSchedulable (pop : ReadyQueue → Exec (Option ℕ × ReadyQueue)) : ℕ → ManagerM (Option ℕ)
  | 0 => undefined
  | fuel + 1 => do
      let (next, q) ← pop (← get).readyQueue
      modify fun s => { s with readyQueue := q }
      match next with
      | none => pure none
      | some t =>
          if (← getThread t).canSchedule then pure (some t)
          else
            modify fun s => { s with unscheduledReadyQueue := s.unscheduledReadyQueue ++ [t] }
            popSchedulable pop fuel

/-- The last loop of `PopNextReadyThread`, over the parked threads from the back on. -/
def requeueUnscheduled : List ℕ → ManagerM Unit
  | [] => pure ()
  | t :: rest => do
      let th ← getThread t
      modifyQueue fun q => q.pushBack th.currentPriority t
      modify fun s => { s with unscheduledReadyQueue := s.unscheduledReadyQueue.dropLast }
      requeueUnscheduled rest

/-- The running thread, if the current one is. -/
def runningThread : ManagerM (Option (ℕ × Thread)) := do
  match (← get).currentThread with
  | none => pure none
  | some t =>
      let th ← getThread t
      pure (if th.status = .running then some (t, th) else none)

/-- `ThreadManager::PopNextReadyThread`.
SOURCE: thread.cpp:172-203 -/
def popNextReadyThread : ManagerM (Option ℕ) := do
  let fuel := (← get).readyQueue.entries + 1
  let next ← match ← runningThread with
    | some (t, th) => do
        let next ← popSchedulable (fun q => q.popFirstBetter th.currentPriority) fuel
        -- null when nothing is better: just keep going with the current thread
        pure (next.or (some t))
    | none => popSchedulable (fun q => q.popFirst) fuel
  requeueUnscheduled (← get).unscheduledReadyQueue.reverse
  pure next

/-- The first half of `SwitchContext`: a thread that did not yield goes back to the front. -/
def saveContext (t ticks : ℕ) : ManagerM Unit := do
  modifyThread t fun th => { th with lastRunningTicks := ticks }
  let th ← getThread t
  if th.status = .running then
    modifyQueue fun q => q.pushFront th.currentPriority t
    modifyThread t fun th => { th with status := .ready }
  else pure ()

/-- The second half of `SwitchContext`, for a thread to run. -/
def loadContext (t : ℕ) : ManagerM Unit := do
  let th ← getThread t
  ensure (th.status = .ready) .readyToRun
  modify fun s => { s with currentThread := some t }
  modifyQueue fun q => q.remove th.currentPriority t
  modifyThread t fun th => { th with status := .running }
  ensure th.ownerProcess.isSome .ownerProcess
  modifyThread t fun th => { th with currentPriority := th.nominalPriority }

/-- `ThreadManager::SwitchContext`.
SOURCE: thread.cpp:123-170 -/
def switchContext (newThread : Option ℕ) (ticks : ℕ) : ManagerM Unit := do
  match (← get).currentThread with
  | some previous => saveContext previous ticks
  | none => pure ()
  match newThread with
  | some t => loadContext t
  | none => modify fun s => { s with currentThread := none }

/-- `ThreadManager::PriorityBoostStarvedThreads`.
SOURCE: thread.cpp:476-489 -/
def priorityBoostStarvedThreads (currentTicks : ℕ) : ManagerM Unit := do
  (← get).threadList.forM fun t => do
    let th ← getThread t
    let delta := (currentTicks + 2 ^ 64 - th.lastRunningTicks) % 2 ^ 64
    if th.status = .ready ∧ 1400000 < delta then
      match ← (← get).readyQueue.getFirst with
      | none => undefined
      | some first => boostPriority t (max (← getThread first).currentPriority 40)
    else pure ()

/-- `ThreadManager::Reschedule`, with the `priority_boost` setting and the two clocks it reads.
SOURCE: thread.cpp:491-511 -/
def reschedule (priorityBoost : Bool) (currentTicks cpuTicks : ℕ) : ManagerM Unit := do
  if priorityBoost then priorityBoostStarvedThreads currentTicks else pure ()
  let cur := (← get).currentThread
  let next ← popNextReadyThread
  if cur.isNone ∧ next.isNone then pure ()
  else switchContext next cpuTicks

/-! ## Objects and threads begin and end -/

/-- An object is made at an address that no object lives at. -/
def newObject (o : ℕ) (kind : ObjectKind) : ManagerM Unit := do
  let s ← get
  if (s.threads o).isSome ∨ (s.objects o).isSome then undefined
  else set { s with objects := Function.update s.objects o (some { kind := kind }) }

/-- `KernelSystem::CreateMutex`, which the current thread may hold from the start.
SOURCE: mutex.cpp:40-52 -/
def createMutex (o : ℕ) (initialLocked : Bool) : ManagerM Unit := do
  newObject o (.mutex {})
  if initialLocked then
    match (← get).currentThread with
    | none => undefined
    | some t => acquire o t
  else pure ()

/-- `KernelSystem::CreateEvent`. -/
def createEvent (o : ℕ) (resetType : ResetType) : ManagerM Unit :=
  newObject o (.event { resetType := resetType })

/-- `KernelSystem::CreateTimer`. -/
def createTimer (o : ℕ) (resetType : ResetType) : ManagerM Unit :=
  newObject o (.timer { resetType := resetType })

/-- `KernelSystem::CreateSemaphore`.
SOURCE: semaphore.cpp:28-41 -/
def createSemaphore (o : ℕ) (initialCount maxCount : ℤ) : ManagerM Result := do
  if maxCount < initialCount then pure .invalidCombinationKernel
  else
    newObject o (.semaphore { availableCount := initialCount, maxCount := maxCount })
    pure .success

/-- The middle of `CreateThread`: the thread is made, at an address that no object lives at, and
the manager gets to know it. -/
def registerThread (t priority ticks ownerProcess : ℕ) : ManagerM Unit := do
  let s ← get
  if (s.threads t).isSome ∨ (s.objects t).isSome then undefined
  else
    let q ← s.readyQueue.prepare priority
    set { s with
      threadList := s.threadList ++ [t]
      readyQueue := q
      nextThreadId := u32 (s.nextThreadId + 1)
      threads := Function.update s.threads t (some
        { threadId := s.nextThreadId, nominalPriority := priority, currentPriority := priority,
          lastRunningTicks := ticks, ownerProcess := some ownerProcess })
      objects := Function.update s.objects t (some { kind := .thread })
      wakeupCallbackTable := Function.update s.wakeupCallbackTable s.nextThreadId (some t) }

/-- `KernelSystem::CreateThread` for a processor whose manager this is. Whether the entry point is
mapped and whether there is room for the thread's local storage is decided elsewhere.
SOURCE: thread.cpp:352-404 -/
def createThread (t priority : ℕ) (processorId : ℤ) (entryPointValid tlsAllocated : Bool)
    (ticks ownerProcess : ℕ) (makeReady : Bool) : ManagerM Result := do
  if ThreadPrioLowest < priority then pure .outOfRange
  else if ThreadProcessorIdMax < processorId then pure .outOfRangeKernel
  else if !entryPointValid then pure .invalidAddress
  else
    registerThread t priority ticks ownerProcess
    if !tlsAllocated then pure .outOfMemory
    else
      if makeReady then enqueueReady t else pure ()
      pure .success

/-- `ThreadManager::ExitCurrentThread`. -/
def exitCurrentThread : ManagerM Unit := do
  match (← get).currentThread with
  | none => undefined
  | some t =>
      stop t
      modify fun s => { s with threadList := s.threadList.erase t }

/-- The loop of `TerminateProcessThreads`, over what follows the threads it keeps. -/
def terminateOthers (process : ℕ) : List ℕ → List ℕ → ManagerM Unit
  | _, [] => pure ()
  | kept, t :: rest => do
      let th ← getThread t
      if (← get).currentThread = some t ∨ th.ownerProcess ≠ some process then
        terminateOthers process (kept ++ [t]) rest
      else
        stop t
        modify fun s => { s with threadList := kept ++ rest }
        terminateOthers process kept rest

/-- `ThreadManager::TerminateProcessThreads`.
SOURCE: thread.cpp:216-241 -/
def terminateProcessThreads (process : ℕ) : ManagerM Unit := do
  terminateOthers process [] (← get).threadList
  match (← get).currentThread with
  | none => pure ()
  | some t =>
      if (← getThread t).ownerProcess = some process then exitCurrentThread else pure ()

/-- `ThreadManager::ThreadWakeupCallback`: an event for a thread that is not in the table throws.
SOURCE: thread.cpp:243-263 -/
def threadWakeupCallback (threadId : ℕ) : ManagerM Unit := do
  match (← get).wakeupCallbackTable threadId with
  | none => undefined
  | some t =>
      let th ← getThread t
      match th.status with
      | .waitSynchAny | .waitSynchAll | .waitArb | .waitHleEvent => leaveWaitObjects t
      | _ => pure ()
      resumeFromWait t

/-! ## What the running thread asks for -/

/-- The current thread executes the call: it is running. -/
def caller : ManagerM ℕ := do
  match ← runningThread with
  | some (t, _) => pure t
  | none => undefined

/-- `WaitCurrentThread_Sleep`, and in the same way `AddressArbiter::WaitThread` and
`ServerSession::HandleSyncRequest`, which set their own status. -/
def waitCurrentThread (status : ThreadStatus) : ManagerM Unit := do
  modifyThread (← caller) fun th => { th with status := status }

/-- `WaitCurrentThread_Sleep`. -/
def waitCurrentThreadSleep : ManagerM Unit := waitCurrentThread .waitSleep

/-- `AddressArbiter::WaitThread`, as far as it concerns the thread. -/
def arbiterWaitThread : ManagerM Unit := waitCurrentThread .waitArb

/-- The end of `ServerSession::HandleSyncRequest`. -/
def handleSyncRequest : ManagerM Unit := waitCurrentThread .waitIPC

/-- `HLERequestContext::SleepClientThread`, on the event it has created.
SOURCE: hle_ipc.cpp:107-123 -/
def sleepClientThread (event : ℕ) : ManagerM Unit := do
  let t ← caller
  modifyThread t fun th =>
    { th with wakeupCallback := true, status := .waitHleEvent, waitObjects := [event] }
  addWaitingThread event t

/-- `SVC::WaitSynchronization1` on an object.
SOURCE: svc.cpp:762-796 -/
def waitSynchronization1 (object : ℕ) (nanoSeconds : ℤ) : ManagerM Unit := do
  let t ← caller
  if ← shouldWait object t then
    if nanoSeconds = 0 then pure ()
    else
      modifyThread t fun th => { th with waitObjects := [object] }
      addWaitingThread object t
      modifyThread t fun th => { th with status := .waitSynchAny, wakeupCallback := true }
  else acquire object t

/-- `SVC::SetThreadPriority`, for a priority that the caller is allowed to set.
SOURCE: svc.cpp:1316-1340 -/
def setThreadPriority (t priority : ℕ) : ManagerM Unit := do
  if ThreadPrioLowest < priority then pure ()
  else
    setPriority t priority
    updatePriority t
    (← getThread t).pendingMutexes.forM fun m => mutexUpdatePriority m

/-- The first object that a thread need not wait for. -/
def firstAvailable (t : ℕ) : List ℕ → ManagerM (Option ℕ)
  | [] => pure none
  | o :: os => do
      if ← shouldWait o t then firstAvailable t os else pure (some o)

/-- The end of both halves of `WaitSynchronizationN`: the thread goes to sleep on the objects, if
it may wait at all. -/
def suspendOn (t : ℕ) (objects : List ℕ) (status : ThreadStatus) (nanoSeconds : ℤ) :
    ManagerM Unit := do
  if nanoSeconds = 0 then pure ()
  else
    modifyThread t fun th => { th with status := status }
    objects.forM fun o => addWaitingThread o t
    modifyThread t fun th => { th with waitObjects := objects, wakeupCallback := true }

/-- `SVC::WaitSynchronizationN` on objects.
SOURCE: svc.cpp:799-909 -/
def waitSynchronizationN (objects : List ℕ) (waitAll : Bool) (nanoSeconds : ℤ) :
    ManagerM Unit := do
  let t ← caller
  if waitAll then
    if ← objects.anyM fun o => shouldWait o t then suspendOn t objects .waitSynchAll nanoSeconds
    else objects.forM fun o => acquire o t
  else
    match ← firstAvailable t objects with
    | some o => acquire o t
    | none => suspendOn t objects .waitSynchAny nanoSeconds

/-- The `PROCESSOP_SCHEDULE_THREADS_WITHOUT_TLS_MAGIC` case of `SVC::ControlProcess`. Which threads
have the magic value in their local storage is an argument.
SOURCE: svc.cpp:2143-2161 -/
def scheduleThreadsWithoutTlsMagic (process varg2 : ℕ) (hasMagic : ℕ → Bool) : ManagerM Unit := do
  (← get).threadList.forM fun t => do
    let th ← getThread t
    if th.ownerProcess ≠ some process then pure ()
    else if hasMagic t then pure ()
    else
      match (← get).currentThread with
      | none => undefined
      | some current =>
          if th.threadId = (← getThread current).threadId then pure ()
          else modifyThread t fun th => { th with canSchedule := varg2 = 0 }

end Borked3DS.Model
