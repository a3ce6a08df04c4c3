import Mathlib.Data.Int.Notation
import Mathlib.Logic.Function.Basic
import Borked3DS.Model.ThreadQueueList

/-!
# Threads and the objects they wait for

`thread.cpp`, `wait_object.cpp`, `mutex.cpp`, `event.cpp`, `timer.cpp` and `semaphore.cpp`, and of
`server_session.cpp` and `server_port.cpp` what threads wait for, for the threads of one core. An
object is named by its address. What the emulated program sees of a thread (registers, stack, its
local storage) is left out, and so are the wakeup callbacks' own effects, which only write there.
-/

set_option autoImplicit false

namespace Borked3DS.Model

open Borked3DS.Library

/-- `ThreadStatus`. -/
inductive ThreadStatus
  | running | ready | waitArb | waitSleep | waitIPC | waitSynchAny | waitSynchAll | waitHleEvent
  | dormant | dead
  deriving DecidableEq, Repr

/-- `ThreadPrioLowest`. -/
def ThreadPrioLowest : ℕ := 63

/-- `ThreadProcessorIdMax`. -/
def ThreadProcessorIdMax : ℤ := 4

/-- `Thread`. The owner is what its weak pointer still leads to, and of the wakeup callback only
its presence is kept. -/
structure Thread where
  threadId : ℕ
  canSchedule : Bool := true
  status : ThreadStatus := .dormant
  nominalPriority : ℕ
  currentPriority : ℕ
  lastRunningTicks : ℕ := 0
  heldMutexes : List ℕ := []
  pendingMutexes : List ℕ := []
  ownerProcess : Option ℕ := none
  waitObjects : List ℕ := []
  wakeupCallback : Bool := false
  deriving Repr

/-- `ResetType`. -/
inductive ResetType
  | oneShot | sticky | pulse
  deriving DecidableEq, Repr

/-- `Mutex`. -/
structure Mutex where
  lockCount : ℤ := 0
  priority : ℕ := 0
  holdingThread : Option ℕ := none
  deriving Repr

/-- What `Event` and `Timer` share: whether they are signaled, and what takes that back. -/
structure Signal where
  resetType : ResetType
  signaled : Bool := false
  deriving Repr

/-- `Semaphore`. -/
structure Semaphore where
  availableCount : ℤ
  maxCount : ℤ
  deriving Repr

/-- What `ServerSession` is waited for with: whether its client is gone, the threads whose requests
are pending, and the one whose request is being handled. -/
structure ServerSession where
  clientClosed : Bool := false
  pendingRequestingThreads : List ℕ := []
  currentlyHandling : Option ℕ := none
  deriving Repr

/-- The classes that derive from `WaitObject`. A thread can be waited for as well; of a `ServerPort`
there are the sessions that nobody has accepted yet. -/
inductive ObjectKind
  | thread
  | mutex (m : Mutex)
  | event (e : Signal)
  | timer (t : Signal)
  | semaphore (s : Semaphore)
  | serverSession (s : ServerSession)
  | serverPort (pendingSessions : List ℕ)
  deriving Repr

/-- `WaitObject`. -/
structure WaitObject where
  kind : ObjectKind
  waitingThreads : List ℕ := []
  deriving Repr

/-- The queue of ready threads: one lane for each priority. -/
abbrev ReadyQueue := ThreadQueueList ℕ (ThreadPrioLowest + 1)

/-- `ThreadManager`, with the threads and objects its pointers lead to. -/
structure ThreadManager where
  threads : ℕ → Option Thread := fun _ => none
  objects : ℕ → Option WaitObject := fun _ => none
  currentThread : Option ℕ := none
  readyQueue : ReadyQueue := {}
  unscheduledReadyQueue : List ℕ := []
  wakeupCallbackTable : ℕ → Option ℕ := fun _ => none
  threadList : List ℕ := []
  nextThreadId : ℕ := 0

/-- A call on the thread manager. -/
abbrev ManagerM := StateT ThreadManager Exec

/-- What cannot happen in the language the code is written in. -/
def undefined {α : Type} : ManagerM α := throw .undefined

/-- `ASSERT(c)`. -/
def ensure (c : Bool) (site : AssertSite) : ManagerM Unit := StateT.lift (assert c site)

/-- Reading a thread through its pointer. -/
def getThread (t : ℕ) : ManagerM Thread := do
  match (← get).threads t with
  | some th => pure th
  | none => undefined

/-- Writing a thread through its pointer. -/
def modifyThread (t : ℕ) (f : Thread → Thread) : ManagerM Unit := do
  let th ← getThread t
  modify fun s => { s with threads := Function.update s.threads t (some (f th)) }

/-- Reading an object through its pointer. -/
def getObject (o : ℕ) : ManagerM WaitObject := do
  match (← get).objects o with
  | some ob => pure ob
  | none => undefined

/-- Writing an object through its pointer. -/
def modifyObject (o : ℕ) (f : WaitObject → WaitObject) : ManagerM Unit := do
  let ob ← getObject o
  modify fun s => { s with objects := Function.update s.objects o (some (f ob)) }

/-- Reading a mutex through its pointer. -/
def getMutex (m : ℕ) : ManagerM Mutex := do
  match (← getObject m).kind with
  | .mutex mx => pure mx
  | _ => undefined

/-- Writing a mutex through its pointer. -/
def setMutex (m : ℕ) (mx : Mutex) : ManagerM Unit :=
  modifyObject m fun ob => { ob with kind := .mutex mx }

/-- A call on the ready queue. -/
def modifyQueue (f : ReadyQueue → Exec ReadyQueue) : ManagerM Unit := do
  let q ← f (← get).readyQueue
  modify fun s => { s with readyQueue := q }

/-- `flat_set::insert`, in the order of the addresses. -/
def insertAddress (x : ℕ) : List ℕ → List ℕ
  | [] => [x]
  | y :: ys => if x < y then x :: y :: ys else if x = y then y :: ys else y :: insertAddress x ys

/-! ## Priorities -/

/-- `Thread::BoostPriority`.
SOURCE: thread.cpp:427-434 -/
def boostPriority (t priority : ℕ) : ManagerM Unit := do
  let th ← getThread t
  if th.status = .ready then
    modifyQueue fun q => q.move t th.currentPriority priority
  else
    modifyQueue fun q => q.prepare priority
  modifyThread t fun th => { th with currentPriority := priority }

/-- `Thread::SetPriority`.
SOURCE: thread.cpp:406-416 -/
def setPriority (t priority : ℕ) : ManagerM Unit := do
  ensure (priority ≤ ThreadPrioLowest) .invalidPriority
  let th ← getThread t
  if th.status = .ready then
    modifyQueue fun q => q.move t th.currentPriority priority
  else
    modifyQueue fun q => q.prepare priority
  modifyThread t fun th => { th with nominalPriority := priority, currentPriority := priority }

/-- `Thread::UpdatePriority`.
SOURCE: thread.cpp:418-425 -/
def updatePriority (t : ℕ) : ManagerM Unit := do
  let th ← getThread t
  let bestPriority ← th.heldMutexes.foldlM (fun bestPriority m => do
    let mx ← getMutex m
    pure (if mx.priority < bestPriority then mx.priority else bestPriority)) th.nominalPriority
  boostPriority t bestPriority

/-- `Mutex::UpdatePriority`.
SOURCE: mutex.cpp:118-133 -/
def mutexUpdatePriority (m : ℕ) : ManagerM Unit := do
  let mx ← getMutex m
  match mx.holdingThread with
  | none => pure ()
  | some holder =>
      let ob ← getObject m
      let bestPriority ← ob.waitingThreads.foldlM (fun bestPriority w => do
        let waiter ← getThread w
        pure (if waiter.currentPriority < bestPriority then waiter.currentPriority
          else bestPriority)) ThreadPrioLowest
      if bestPriority ≠ mx.priority then
        setMutex m { mx with priority := bestPriority }
        updatePriority holder
      else pure ()

/-! ## Waiting lists -/

/-- `WaitObject::AddWaitingThread`, and `Mutex::AddWaitingThread` over it. -/
def addWaitingThread (o t : ℕ) : ManagerM Unit := do
  modifyObject o fun ob =>
    { ob with waitingThreads :=
        if t ∈ ob.waitingThreads then ob.waitingThreads else ob.waitingThreads ++ [t] }
  match (← getObject o).kind with
  | .mutex _ =>
      modifyThread t fun th => { th with pendingMutexes := insertAddress o th.pendingMutexes }
      mutexUpdatePriority o
  | _ => pure ()

/-- `WaitObject::RemoveWaitingThread`, and `Mutex::RemoveWaitingThread` over it. -/
def removeWaitingThread (o t : ℕ) : ManagerM Unit := do
  modifyObject o fun ob => { ob with waitingThreads := ob.waitingThreads.erase t }
  match (← getObject o).kind with
  | .mutex _ =>
      modifyThread t fun th => { th with pendingMutexes := th.pendingMutexes.erase o }
      mutexUpdatePriority o
  | _ => pure ()

/-- `ShouldWait` of each class. -/
def shouldWait (o t : ℕ) : ManagerM Bool := do
  match (← getObject o).kind with
  | .thread => return (← getThread o).status ≠ .dead
  | .mutex mx => return 0 < mx.lockCount ∧ mx.holdingThread ≠ some t
  | .event e => return !e.signaled
  | .timer e => return !e.signaled
  | .semaphore s => return s.availableCount ≤ 0
  | .serverSession s =>
      return !s.clientClosed && (s.pendingRequestingThreads.isEmpty || s.currentlyHandling.isSome)
  | .serverPort pendingSessions => return pendingSessions.isEmpty

/-- `Acquire` of each class. -/
def acquire (o t : ℕ) : ManagerM Unit := do
  let wait ← shouldWait o t
  match (← getObject o).kind with
  | .thread => ensure (!wait) .objectUnavailable
  | .mutex mx =>
      ensure (!wait) .objectUnavailable
      if mx.lockCount = 0 then
        let th ← getThread t
        setMutex o { mx with priority := th.currentPriority, holdingThread := some t }
        modifyThread t fun th => { th with heldMutexes := insertAddress o th.heldMutexes }
        updatePriority t
      else pure ()
      let mx ← getMutex o
      setMutex o { mx with lockCount := mx.lockCount + 1 }
  | .event e =>
      ensure (!wait) .objectUnavailable
      if e.resetType = .oneShot then
        modifyObject o fun ob => { ob with kind := .event { e with signaled := false } }
      else pure ()
  | .timer e =>
      ensure (!wait) .objectUnavailable
      if e.resetType = .oneShot then
        modifyObject o fun ob => { ob with kind := .timer { e with signaled := false } }
      else pure ()
  | .semaphore s =>
      if s.availableCount ≤ 0 then pure ()
      else
        modifyObject o fun ob =>
          { ob with kind := .semaphore { s with availableCount := s.availableCount - 1 } }
  | .serverSession s =>
      ensure (!wait) .objectUnavailable
      if s.clientClosed then pure ()
      else
        match s.pendingRequestingThreads.getLast? with
        | none => ensure false .pendingRequest
        | some last =>
            modifyObject o fun ob =>
              { ob with kind := .serverSession { s with
                  currentlyHandling := some last
                  pendingRequestingThreads := s.pendingRequestingThreads.dropLast } }
  | .serverPort _ => ensure (!wait) .objectUnavailable

/-! ## Waking threads up -/

/-- A thread enters the ready queue behind the others of its priority. -/
def enqueueReady (t : ℕ) : ManagerM Unit := do
  let th ← getThread t
  modifyQueue fun q => q.pushBack th.currentPriority t
  modifyThread t fun th => { th with status := .ready }

/-- `Thread::ResumeFromWait`. The `DEBUG_ASSERT`s are not compiled into a release.
SOURCE: thread.cpp:281-318 -/
def resumeFromWait (t : ℕ) : ManagerM Unit := do
  let th ← getThread t
  ensure th.waitObjects.isEmpty .wakingWhileWaiting
  match th.status with
  | .ready => ensure (!th.wakeupCallback) .wakeupCallbackSet
  | .running => pure ()
  | .dead => pure ()
  | _ =>
      modifyThread t fun th => { th with wakeupCallback := false }
      enqueueReady t

/-- Nothing a thread waits for all of makes it wait any longer. -/
def readyToRun (t : ℕ) (th : Thread) : ManagerM Bool := do
  if th.status = .waitSynchAll then
    return !(← th.waitObjects.anyM fun o => shouldWait o t)
  else return true

/-- `WaitObject::GetHighestPriorityReadyThread`.
SOURCE: wait_object.cpp:51-85 -/
def getHighestPriorityReadyThread (o : ℕ) : ManagerM (Option ℕ) := do
  let ob ← getObject o
  let best ← ob.waitingThreads.foldlM (fun (best : Option ℕ × ℕ) t => do
    let th ← getThread t
    ensure (th.status = .waitSynchAny ∨ th.status = .waitSynchAll ∨ th.status = .waitHleEvent)
      .inconsistentWaiter
    if best.2 ≤ th.currentPriority then pure best
    else if ← shouldWait o t then pure best
    else if ← readyToRun t th then pure (some t, th.currentPriority)
    else pure best) (none, ThreadPrioLowest + 1)
  pure best.1

/-- A thread leaves all waiting lists it is in. -/
def leaveWaitObjects (t : ℕ) : ManagerM Unit := do
  (← getThread t).waitObjects.forM fun o => removeWaitingThread o t
  modifyThread t fun th => { th with waitObjects := [] }

/-- The body of the loop of `WakeupAllWaitingThreads`. -/
def wakeupWaitingThread (o t : ℕ) : ManagerM Unit := do
  let th ← getThread t
  if th.status ≠ .waitSynchAll then acquire o t
  else th.waitObjects.forM fun o => acquire o t
  leaveWaitObjects t
  resumeFromWait t

/-- The loop of `WakeupAllWaitingThreads`. A thread it wakes up is no waiter any more, or the next
look at it stops the emulator, so the number of waiters is enough fuel. -/
def wakeupLoop (o : ℕ) : ℕ → ManagerM Unit
  | 0 => undefined
  | fuel + 1 => do
      match ← getHighestPriorityReadyThread o with
      | none => pure ()
      | some t =>
          wakeupWaitingThread o t
          wakeupLoop o fuel

/-- `WaitObject::WakeupAllWaitingThreads`, and that of `Event` and `Timer` over it.
SOURCE: wait_object.cpp:87-110 -/
def wakeupAllWaitingThreads (o : ℕ) : ManagerM Unit := do
  wakeupLoop o ((← getObject o).waitingThreads.length + 1)
  match (← getObject o).kind with
  | .event e =>
      if e.resetType = .pulse then
        modifyObject o fun ob => { ob with kind := .event { e with signaled := false } }
      else pure ()
  | .timer e =>
      if e.resetType = .pulse then
        modifyObject o fun ob => { ob with kind := .timer { e with signaled := false } }
      else pure ()
  | _ => pure ()

/-! ## Signalling objects -/

/-- `Mutex::Release`.
SOURCE: mutex.cpp:73-104 -/
def mutexRelease (m t : ℕ) : ManagerM Result := do
  let mx ← getMutex m
  match mx.holdingThread with
  | none => pure .wrongLockingThread
  | some holder =>
      if t ≠ holder then pure .wrongLockingThread
      else if mx.lockCount ≤ 0 then pure .invalidResultValue
      else
        setMutex m { mx with lockCount := mx.lockCount - 1 }
        if mx.lockCount - 1 = 0 then
          modifyThread holder fun th => { th with heldMutexes := th.heldMutexes.erase m }
          updatePriority holder
          setMutex m { (← getMutex m) with holdingThread := none }
          wakeupAllWaitingThreads m
        else pure ()
        pure .success

/-- `Event::Signal` and `Timer::Signal`. -/
def signal (o : ℕ) : ManagerM Unit := do
  match (← getObject o).kind with
  | .event e => modifyObject o fun ob => { ob with kind := .event { e with signaled := true } }
  | .timer e => modifyObject o fun ob => { ob with kind := .timer { e with signaled := true } }
  | _ => undefined
  wakeupAllWaitingThreads o

/-- `Event::Clear` and `Timer::Clear`. -/
def clear (o : ℕ) : ManagerM Unit := do
  match (← getObject o).kind with
  | .event e => modifyObject o fun ob => { ob with kind := .event { e with signaled := false } }
  | .timer e => modifyObject o fun ob => { ob with kind := .timer { e with signaled := false } }
  | _ => undefined

/-- `Semaphore::Release`.
SOURCE: semaphore.cpp:54-62 -/
def semaphoreRelease (o : ℕ) (releaseCount : ℤ) : ManagerM Result := do
  match (← getObject o).kind with
  | .semaphore s =>
      if s.maxCount < releaseCount + s.availableCount then pure .outOfRangeKernel
      else
        modifyObject o fun ob =>
          { ob with kind := .semaphore { s with availableCount := s.availableCount + releaseCount } }
        wakeupAllWaitingThreads o
        pure .success
  | _ => undefined

/-- `ReleaseThreadMutexes`.
SOURCE: mutex.cpp:24-31 -/
def releaseThreadMutexes (t : ℕ) : ManagerM Unit := do
  (← getThread t).heldMutexes.forM fun m => do
    setMutex m { (← getMutex m) with lockCount := 0, holdingThread := none }
    wakeupAllWaitingThreads m
  modifyThread t fun th => { th with heldMutexes := [] }

/-- A thread dies: if it was ready, it leaves the ready queue. -/
def markDead (t : ℕ) : ManagerM Unit := do
  let th ← getThread t
  if th.status = .ready then
    modifyQueue fun q => q.remove th.currentPriority t
  else pure ()
  modifyThread t fun th => { th with status := .dead }

/-- `Thread::Stop`.
SOURCE: thread.cpp:88-121 -/
def stop (t : ℕ) : ManagerM Unit := do
  let th ← getThread t
  modify fun s =>
    { s with wakeupCallbackTable := Function.update s.wakeupCallbackTable th.threadId none }
  markDead t
  wakeupAllWaitingThreads t
  leaveWaitObjects t
  releaseThreadMutexes t

end Borked3DS.Model
