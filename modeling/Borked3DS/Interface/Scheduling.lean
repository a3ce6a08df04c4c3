import Mathlib.Data.List.Basic
import Borked3DS.Model.ThreadManager

/-!
# What scheduling promises

The calls on a thread manager and what its ready queue, its choice of the next thread and its grants
of objects have to keep to, whatever the calls are.
-/

set_option autoImplicit false

namespace Borked3DS.Interface

open Borked3DS.Library Borked3DS.Model

/-!
## The ready queue

The consistency of a thread manager: the ready queue files exactly the ready threads, each once
and under its priority, and the running thread is the current one. And what choosing the next
thread is for: the best ready thread that may be scheduled, with the order of all others kept.
-/

/-- The ready queue, the statuses and the current thread of a manager agree. -/
structure SchedulerConsistent (s : ThreadManager) : Prop where
  ready : ∀ t th, s.threads t = some th → th.status = .ready →
    ∀ p, (s.readyQueue.lane p).count t = if p = th.currentPriority then 1 else 0
  notReady : ∀ t th, s.threads t = some th → th.status ≠ .ready → ∀ p, t ∉ s.readyQueue.lane p
  alive : ∀ p, ∀ t ∈ s.readyQueue.lane p, (s.threads t).isSome
  running : ∀ t th, s.threads t = some th → th.status = .running → s.currentThread = some t

/-- The current thread, if it is running. -/
def runningOf (s : ThreadManager) : Option ℕ :=
  s.currentThread.filter fun t => (s.threads t).any fun th => th.status = .running

/-- A thread's priority. -/
def priorityOf (s : ThreadManager) (t : ℕ) : ℕ :=
  match s.threads t with
  | some th => th.currentPriority
  | none => 0

/-- A thread may be scheduled. -/
def schedulable (s : ThreadManager) (t : ℕ) : Bool := (s.threads t).any fun th => th.canSchedule

/-- The levels a ready thread has to be in to be taken: those better than the running thread's. -/
def levelsBetter (s : ThreadManager) : ℕ :=
  match runningOf s with
  | some r => priorityOf s r
  | none => ThreadPrioLowest + 1

/-- A thread is ready and may be scheduled. -/
def ReadySchedulable (s : ThreadManager) (t : ℕ) : Prop :=
  ∃ th, s.threads t = some th ∧ th.status = .ready ∧ th.canSchedule

/-- What the next thread should be. -/
inductive Picks (s : ThreadManager) : Option ℕ → Prop
  /-- The earliest schedulable thread of the best level that has one. -/
  | best (t : ℕ) (before after : List ℕ)
      (hlane : s.readyQueue.lane (priorityOf s t) = before ++ t :: after)
      (hbefore : ∀ u ∈ before, ¬ ReadySchedulable s u)
      (hready : ReadySchedulable s t)
      (hbest : ∀ u, ReadySchedulable s u → priorityOf s t ≤ priorityOf s u)
      (hbetter : ∀ r, runningOf s = some r → priorityOf s t < priorityOf s r) : Picks s (some t)
  /-- The running thread, when no other is strictly better. -/
  | keep (r : ℕ) (hrunning : runningOf s = some r)
      (hbest : ∀ u, ReadySchedulable s u → priorityOf s r ≤ priorityOf s u) : Picks s (some r)
  /-- None, when there is none. -/
  | idle (hrunning : runningOf s = none) (hnone : ∀ u, ¬ ReadySchedulable s u) : Picks s none

/-- A level still holds the threads it held, in the same relative order, the next one aside. -/
def KeepsOrder (next : Option ℕ) (lane lane' : List ℕ) : Prop :=
  (∀ a ∈ lane, some a ≠ next → a ∈ lane') ∧
    ∀ a b, some a ≠ next → some b ≠ next → [a, b].Sublist lane → [a, b].Sublist lane'

/-- What the choice of the next thread promises in a state. -/
def PicksInOrder (s : ThreadManager) : Prop :=
  ∃ next s', popNextReadyThread s = .ok (next, s') ∧ Picks s next ∧
    ∀ p, KeepsOrder next (s.readyQueue.lane p) (s'.readyQueue.lane p)

/-- A level the search comes to: better than the running thread's, with no schedulable thread in
any better level. -/
def Visited (s : ThreadManager) (p : ℕ) : Prop :=
  p < levelsBetter s ∧ ∀ j < p, ∀ u ∈ s.readyQueue.lane j, schedulable s u = false

/-- No unschedulable thread at the head of a lane has anyone behind it whom it would lose its place
to: there is none, or just one, and at most the thread taken behind it. -/
def HeadKeepsPlace (can : ℕ → Bool) (lane : List ℕ) : Prop :=
  lane.takeWhile (fun u => !can u) = [] ∨
    (lane.takeWhile (fun u => !can u)).length = 1 ∧ lane.length ≤ 2

/-!
## The calls on a thread manager

Every call that reaches a thread manager or one of its threads, as the step of a machine. What the
running thread asks for is refused when no thread runs.
-/

/-- A call, with its arguments and what the components outside decide about it. -/
inductive ManagerCall
  | createMutex (o : ℕ) (initialLocked : Bool)
  | createEvent (o : ℕ) (resetType : ResetType)
  | createTimer (o : ℕ) (resetType : ResetType)
  | createSemaphore (o : ℕ) (initialCount maxCount : ℤ)
  | createThread (t priority : ℕ) (processorId : ℤ) (entryPointValid tlsAllocated : Bool)
      (ticks ownerProcess : ℕ) (makeReady : Bool)
  | resumeFromWait (t : ℕ)
  | threadWakeupCallback (threadId : ℕ)
  | waitCurrentThreadSleep
  | arbiterWaitThread
  | handleSyncRequest
  | sleepClientThread (event : ℕ)
  | waitSynchronization1 (object : ℕ) (nanoSeconds : ℤ)
  | waitSynchronizationN (objects : List ℕ) (waitAll : Bool) (nanoSeconds : ℤ)
  | setPriority (t priority : ℕ)
  | boostPriority (t priority : ℕ)
  | updatePriority (t : ℕ)
  | setThreadPriority (t priority : ℕ)
  | priorityBoostStarvedThreads (currentTicks : ℕ)
  | scheduleThreadsWithoutTlsMagic (process varg2 : ℕ) (hasMagic : ℕ → Bool)
  | mutexRelease (m t : ℕ)
  | signal (o : ℕ)
  | clear (o : ℕ)
  | semaphoreRelease (o : ℕ) (releaseCount : ℤ)
  | stop (t : ℕ)
  | exitCurrentThread
  | terminateProcessThreads (process : ℕ)
  | reschedule (priorityBoost : Bool) (currentTicks cpuTicks : ℕ)

/-- The program a call runs. -/
def ManagerCall.program : ManagerCall → ManagerM Unit
  | .createMutex o l => Model.createMutex o l
  | .createEvent o r => Model.createEvent o r
  | .createTimer o r => Model.createTimer o r
  | .createSemaphore o i m => do let _ ← Model.createSemaphore o i m
  | .createThread t p i e l k w r => do let _ ← Model.createThread t p i e l k w r
  | .resumeFromWait t => Model.resumeFromWait t
  | .threadWakeupCallback i => Model.threadWakeupCallback i
  | .waitCurrentThreadSleep => Model.waitCurrentThreadSleep
  | .arbiterWaitThread => Model.arbiterWaitThread
  | .handleSyncRequest => Model.handleSyncRequest
  | .sleepClientThread e => Model.sleepClientThread e
  | .waitSynchronization1 o n => Model.waitSynchronization1 o n
  | .waitSynchronizationN os a n => Model.waitSynchronizationN os a n
  | .setPriority t p => Model.setPriority t p
  | .boostPriority t p => Model.boostPriority t p
  | .updatePriority t => Model.updatePriority t
  | .setThreadPriority t p => Model.setThreadPriority t p
  | .priorityBoostStarvedThreads k => Model.priorityBoostStarvedThreads k
  | .scheduleThreadsWithoutTlsMagic w v m => Model.scheduleThreadsWithoutTlsMagic w v m
  | .mutexRelease m t => do let _ ← Model.mutexRelease m t
  | .signal o => Model.signal o
  | .clear o => Model.clear o
  | .semaphoreRelease o n => do let _ ← Model.semaphoreRelease o n
  | .stop t => Model.stop t
  | .exitCurrentThread => Model.exitCurrentThread
  | .terminateProcessThreads w => Model.terminateProcessThreads w
  | .reschedule b k l => Model.reschedule b k l

/-- A call takes a manager from one state to the next, or stops the emulator. -/
def ManagerCall.step (s : ThreadManager) (call : ManagerCall) : Exec ThreadManager := do
  let (_, t) ← call.program s
  pure t

/-!
## Objects that are granted together

A thread that waits for all of a list of objects is granted them when none of them makes it wait.
They are then acquired one by one, and an acquisition can take away what was seen before for an
object that is listed again.
-/

/-- `Acquire` has found its object unavailable. -/
def HitsUnavailable {α : Type} (r : Exec α) : Prop :=
  r = .error (.assertion .objectUnavailable)

/-- A thread need not wait for any of the objects. -/
def AllAvailable (s : ThreadManager) (t : ℕ) (objects : List ℕ) : Prop :=
  ∀ o ∈ objects, shouldWait o t s = .ok (false, s)

/-- A semaphore has a slot for each time it is listed. -/
def SlotsForAll (s : ThreadManager) (objects : List ℕ) : Prop :=
  ∀ o ∈ objects, ∀ ob sm, s.objects o = some ob → ob.kind = .semaphore sm →
    (objects.count o : ℤ) ≤ sm.availableCount

/-- An object that is unavailable once a thread has acquired it, also for this thread: an event or a
timer of one shot, and a session whose client is there. -/
def acquiredOnce : ObjectKind → Prop
  | .event e => e.resetType = .oneShot
  | .timer e => e.resetType = .oneShot
  | .serverSession s => s.clientClosed = false
  | _ => False

/-- No such object is listed more than once. -/
def NoneTwice (s : ThreadManager) (objects : List ℕ) : Prop :=
  ∀ o ∈ objects, ∀ ob, s.objects o = some ob → acquiredOnce ob.kind → objects.count o ≤ 1

/-- The nominal priorities are in range, and a pointer to a mutex leads to a mutex. -/
def ThreadsSound (s : ThreadManager) : Prop :=
  ∀ t th, s.threads t = some th → th.nominalPriority ≤ ThreadPrioLowest ∧
    ∀ m ∈ th.heldMutexes, ∃ ob mx, s.objects m = some ob ∧ ob.kind = .mutex mx

/-! ### The immediate path -/

/-- `WaitSynchronizationN` with `wait_all` acquires available objects only, and grants a semaphore
no more often than it has slots. -/
def WaitAllRight (s : ThreadManager) (t : ℕ) (objects : List ℕ) (nanoSeconds : ℤ) : Prop :=
  ¬ HitsUnavailable (waitSynchronizationN objects true nanoSeconds s) ∧
    (AllAvailable s t objects → SlotsForAll s objects)

/-! ### The later path -/

/-- The loop of `WakeupAllWaitingThreads` comes to a state after some rounds. -/
inductive WakeupReaches (o : ℕ) (s : ThreadManager) : ℕ → ThreadManager → Prop
  | start : WakeupReaches o s 0 s
  | round {n t : ℕ} {s' s'' : ThreadManager} : WakeupReaches o s n s' →
      getHighestPriorityReadyThread o s' = .ok (some t, s') →
      wakeupWaitingThread o t s' = .ok ((), s'') → WakeupReaches o s (n + 1) s''

/-- In a round of the loop, which is none too many, a thread is granted the objects that it waits
for all of. -/
structure GrantedAll (o : ℕ) (s s' : ThreadManager) (t : ℕ) (objects : List ℕ) : Prop where
  reaches : ∃ n ob, s.objects o = some ob ∧ n ≤ ob.waitingThreads.length ∧ WakeupReaches o s n s'
  selected : getHighestPriorityReadyThread o s' = .ok (some t, s')
  thread : ∃ th, s'.threads t = some th ∧ th.status = .waitSynchAll ∧ th.waitObjects = objects

/-- `WakeupAllWaitingThreads` acquires available objects only, and grants a semaphore no more often
than it has slots. -/
def WakeupRight (s : ThreadManager) (o : ℕ) : Prop :=
  ¬ HitsUnavailable (wakeupAllWaitingThreads o s) ∧
    ∀ s' t objects, GrantedAll o s s' t objects → SlotsForAll s' objects

/-!
## The slots of semaphores

A semaphore hands out at most as many slots as it may, whatever is waited for and released.
-/

/-- The semaphore that a pointer leads to. -/
def semaphoreAt (s : ThreadManager) (o : ℕ) : Option Semaphore :=
  match s.objects o with
  | some ob =>
      match ob.kind with
      | .semaphore sm => some sm
      | _ => none
  | none => none

/-- The free slots of all semaphores are in bounds. -/
def SemaphoresBounded (s : ThreadManager) : Prop :=
  ∀ o sm, semaphoreAt s o = some sm → 0 ≤ sm.availableCount ∧ sm.availableCount ≤ sm.maxCount

/-- What a release promises: it adds up inside an `s32`, and changes nothing when it fails. -/
def ReleasesRight (s : ThreadManager) : ManagerCall → Prop
  | .semaphoreRelease o releaseCount =>
      (∀ sm, semaphoreAt s o = some sm → -2 ^ 31 ≤ releaseCount + sm.availableCount ∧
        releaseCount + sm.availableCount < 2 ^ 31) ∧
      ∀ r s', semaphoreRelease o releaseCount s = .ok (r, s') → r ≠ .success → s' = s
  | _ => True

/-- A call counts slots that can be there: no semaphore begins with fewer than none, none loses more
slots to a release than it has free, and none comes to more than an `s32` holds. -/
def CountsSlots (s : ThreadManager) : ManagerCall → Prop
  | .createSemaphore _ initialCount maxCount => initialCount ≤ maxCount → 0 ≤ initialCount
  | .semaphoreRelease o releaseCount => ∀ sm, semaphoreAt s o = some sm →
      -sm.availableCount ≤ releaseCount ∧ releaseCount + sm.availableCount < 2 ^ 31
  | _ => True

end Borked3DS.Interface
