import Mathlib.Data.Int.Order.Basic
import Mathlib.Data.Prod.Lex
import Borked3DS.Library.BinaryHeap
import Borked3DS.Library.CheckedList
import Borked3DS.Model.Basic

/-!
# Event timing

`Core::Timing` of `core_timing.h` and `core_timing.cpp`. An event type is a value of any type `τ`.
The callbacks change the timing and whatever else there is: they are a parameter of `advance`, with
a state `σ` of their own. An event type without a callback is one whose callback changes nothing.
-/

set_option autoImplicit false

namespace Borked3DS.Model

open Borked3DS.Library

/-- A value stored in a `u64`. -/
def toU64 (z : ℤ) : ℤ := z % 2 ^ 64

/-- A value stored in an `s64`. -/
def toS64 (z : ℤ) : ℤ := z.bmod (2 ^ 64)

/-- A value stored in an `int`. -/
def toInt (z : ℤ) : ℤ := z.bmod (2 ^ 32)

/-- `MAX_SLICE_LENGTH`. -/
def maxSliceLength : ℤ := 268111856 / 234

/-- `Timing::Event`. SOURCE: core_timing.h:146-150 -/
structure Event (τ : Type) where
  time : ℤ
  fifoOrder : ℕ
  userData : ℕ
  type : τ
  deriving DecidableEq, Repr

/-- The order of events: by time, then by the order they were added to the queue.
SOURCE: core_timing.cpp:17-23 -/
def Event.key {τ : Type} (e : Event τ) : ℤ ×ₗ ℕ := toLex (e.time, e.fifoOrder)

/-- `Timing::Timer`. SOURCE: core_timing.h:187-243 -/
structure Timer (τ : Type) where
  eventQueue : List (Event τ) := []
  eventFifoId : ℕ := 0
  tsQueue : List (Event τ) := []
  isTimerSane : Bool := true
  sliceLength : ℤ := maxSliceLength
  downcount : ℤ := maxSliceLength
  executedTicks : ℤ := 0
  idledCycles : ℤ := 0
  downcountHack : ℕ := 0
  deriving DecidableEq, Repr

namespace Timer

variable {τ : Type}

/-- `Timer::GetTicks`. SOURCE: core_timing.cpp:171-177 -/
def getTicks (timer : Timer τ) : ℤ :=
  if timer.isTimerSane then toU64 timer.executedTicks
  else toU64 (timer.executedTicks + (timer.sliceLength - timer.downcount))

/-- `Timer::AddTicks`, with the ticks already scaled by `cpu_clock_scale`.
SOURCE: core_timing.cpp:179-184 -/
def addTicks (scaledTicks : ℕ) (timer : Timer τ) : Timer τ :=
  { timer with downcount := toS64 (timer.downcount - scaledTicks) }

/-- `Timer::ForceExceptionCheck`. SOURCE: core_timing.cpp:190-196 -/
def forceExceptionCheck (cycles : ℤ) (timer : Timer τ) : Timer τ :=
  let cycles := max 0 cycles
  if cycles < timer.downcount then
    { timer with
      sliceLength := timer.sliceLength - (timer.downcount - cycles)
      downcount := cycles }
  else timer

/-- An event is given the next number and pushed on the heap. -/
def pushEvent (e : Event τ) (timer : Timer τ) : Timer τ :=
  { timer with
    eventQueue :=
      pushHeap Event.key (timer.eventQueue ++ [{ e with fifoOrder := timer.eventFifoId }])
    eventFifoId := timer.eventFifoId + 1 }

/-- `Timer::MoveEvents`. SOURCE: core_timing.cpp:198-204 -/
def moveEvents (timer : Timer τ) : Timer τ :=
  timer.tsQueue.foldl (fun timer e => timer.pushEvent e) { timer with tsQueue := [] }

/-- The part of `UnscheduleEvent` and of `RemoveEvent` that is about one timer.
SOURCE: core_timing.cpp:110-120, 128-137 -/
def eraseEvents (erased : Event τ → Bool) (timer : Timer τ) : Timer τ :=
  let kept := timer.eventQueue.filter (fun e => !erased e)
  if kept.length = timer.eventQueue.length then timer
  else { timer with eventQueue := makeHeap Event.key kept }

/-- `Timer::Advance` up to its loop. SOURCE: core_timing.cpp:215-225 -/
def beginAdvance (timer : Timer τ) : Timer τ :=
  let timer := timer.moveEvents
  { timer with
    idledCycles := 0
    executedTicks := timer.executedTicks + (timer.sliceLength - timer.downcount)
    sliceLength := 0
    downcount := 0
    downcountHack := 0
    isTimerSane := true }

/-- The first event leaves the queue. SOURCE: core_timing.cpp:228-230 -/
def popEvent (timer : Timer τ) : Timer τ :=
  { timer with eventQueue := (popHeap Event.key timer.eventQueue).dropLast }

/-- `Timer::SetNextSlice`. SOURCE: core_timing.cpp:241-251 -/
def setNextSlice (maxSlice : ℤ) (timer : Timer τ) : Timer τ :=
  let sliceLength :=
    match timer.eventQueue with
    | [] => maxSlice
    | front :: _ => toInt (min (front.time - timer.executedTicks) maxSlice)
  { timer with sliceLength := sliceLength, downcount := sliceLength >>> timer.downcountHack }

/-- `Timer::Idle`. SOURCE: core_timing.cpp:253-256 -/
def idle (timer : Timer τ) : Timer τ :=
  { timer with idledCycles := toU64 (timer.idledCycles + timer.downcount), downcount := 0 }

end Timer

/-- `Timing`. SOURCE: core_timing.h:300-312 -/
structure Timing (τ : Type) where
  timers : List (Timer τ)
  currentTimer : ℕ := 0
  eventQueueLocked : Bool := false
  deriving DecidableEq, Repr

namespace Timing

variable {τ : Type}

/-- The constructor. SOURCE: core_timing.cpp:25-36 -/
def new (numCores : ℕ) (baseTicks : ℤ) : Timing τ :=
  { timers := List.replicate numCores { executedTicks := baseTicks } }

/-- The timer of a core. -/
def getTimer (t : Timing τ) (core : ℕ) : Exec (Timer τ) := readAt .undefined t.timers core

/-- The timing with another timer in the place of a core's. -/
def setTimer (t : Timing τ) (core : ℕ) (timer : Timer τ) : Timing τ :=
  { t with timers := t.timers.set core timer }

/-- A change of the timer of a core. -/
def modifyTimer (t : Timing τ) (core : ℕ) (change : Timer τ → Timer τ) : Exec (Timing τ) := do
  let timer ← t.getTimer core
  pure (t.setTimer core (change timer))

/-- The core whose timer `ScheduleEvent` uses. SOURCE: core_timing.cpp:72-79 -/
def scheduleCore (t : Timing τ) : Option ℕ → Exec ℕ
  | none => pure t.currentTimer
  | some core => do
      assert (core < t.timers.length) .timingCore
      pure core

/-- `Timing::ScheduleEvent`. SOURCE: core_timing.cpp:65-104 -/
def scheduleEvent (cyclesIntoFuture : ℤ) (type : τ) (userData : ℕ) (coreId : Option ℕ)
    (threadSafeMode : Bool) (t : Timing τ) : Exec (Timing τ) :=
  if t.eventQueueLocked then pure t
  else do
    let core ← t.scheduleCore coreId
    let timer ← t.getTimer core
    if threadSafeMode then
      let cyclesIntoFuture := max (maxSliceLength * 2) cyclesIntoFuture
      let e : Event τ := ⟨toS64 (timer.getTicks + cyclesIntoFuture), 0, userData, type⟩
      pure (t.setTimer core { timer with tsQueue := timer.tsQueue ++ [e] })
    else
      let timeout := toS64 (timer.getTicks + cyclesIntoFuture)
      let e : Event τ := ⟨timeout, 0, userData, type⟩
      if t.currentTimer = core then
        -- an event before the next advance forces one early
        let timer :=
          if timer.isTimerSane then timer else timer.forceExceptionCheck cyclesIntoFuture
        pure (t.setTimer core (timer.pushEvent e))
      else pure (t.setTimer core { timer with tsQueue := timer.tsQueue ++ [e] })

/-- `Timing::UnscheduleEvent`. SOURCE: core_timing.cpp:106-122 -/
def unscheduleEvent [DecidableEq τ] (type : τ) (userData : ℕ) (t : Timing τ) : Timing τ :=
  if t.eventQueueLocked then t
  else
    { t with
      timers := t.timers.map
        (Timer.eraseEvents fun e => decide (e.type = type ∧ e.userData = userData)) }

/-- `Timing::RemoveEvent`. SOURCE: core_timing.cpp:124-139 -/
def removeEvent [DecidableEq τ] (type : τ) (t : Timing τ) : Timing τ :=
  if t.eventQueueLocked then t
  else { t with timers := t.timers.map (Timer.eraseEvents fun e => decide (e.type = type)) }

/-- `Timing::SetCurrentTimer`. SOURCE: core_timing.cpp:141-143 -/
def setCurrentTimer (core : ℕ) (t : Timing τ) : Exec (Timing τ) := do
  let _ ← t.getTimer core
  pure { t with currentTimer := core }

/-- The loop of `Timer::Advance`, with fuel for its turns. SOURCE: core_timing.cpp:227-236 -/
def advanceLoop {σ : Type} (callback : Event τ → ℤ → Timing τ × σ → Exec (Timing τ × σ))
    (core : ℕ) : ℕ → Timing τ × σ → Exec (Timing τ × σ)
  | 0, _ => .error .undefined
  | fuel + 1, (t, s) => do
      let timer ← t.getTimer core
      match timer.eventQueue with
      | [] => pure (t, s)
      | evt :: _ =>
          if evt.time ≤ timer.executedTicks then
            let r ← callback evt (toInt (timer.executedTicks - evt.time))
              (t.setTimer core timer.popEvent, s)
            advanceLoop callback core fuel r
          else pure (t, s)

/-- `Timer::Advance` of the timer of a core. SOURCE: core_timing.cpp:215-239 -/
def advance {σ : Type} (callback : Event τ → ℤ → Timing τ × σ → Exec (Timing τ × σ)) (core : ℕ)
    (fuel : ℕ) (w : Timing τ × σ) : Exec (Timing τ × σ) := do
  let t ← w.1.modifyTimer core Timer.beginAdvance
  let (t, s) ← advanceLoop callback core fuel (t, w.2)
  let t ← t.modifyTimer core fun timer => { timer with isTimerSane := false }
  pure (t, s)

end Timing

end Borked3DS.Model

/-!
## Waking a thread after a delay

The parts of `thread.cpp` that schedule, cancel and receive the wakeup events of threads. Each
thread manager has an event type of its own and a table of the threads that it may wake.
-/

namespace Borked3DS.Model

/-- The event types: `ThreadWakeupEventType` of the manager of a core, and those of others. -/
inductive KernelEventType
  | threadWakeup (core : ℕ)
  | other (n : ℕ)
  deriving DecidableEq, Repr

/-- `BASE_CLOCK_RATE_ARM11`. -/
def baseClockRate : ℤ := 268111856

/-- `MAX_VALUE_TO_MULTIPLY`. -/
def maxValueToMultiply : ℤ := (2 ^ 63 - 1) / baseClockRate

/-- `nsToCycles` of an `s64`. SOURCE: core_timing.h:98-108 -/
def nsToCycles (ns : ℤ) : ℤ :=
  if maxValueToMultiply < ns.tdiv 1000000000 then 2 ^ 63 - 1
  else if maxValueToMultiply < ns then toS64 (baseClockRate * ns.tdiv 1000000000)
  else toS64 (toU64 (baseClockRate * ns) / 1000000000)

/-- `usToCycles` of an `s64`. SOURCE: core_timing.h:66-76 -/
def usToCycles (us : ℤ) : ℤ :=
  if maxValueToMultiply < us.tdiv 1000000 then 2 ^ 63 - 1
  else if maxValueToMultiply < us then toS64 (baseClockRate * us.tdiv 1000000)
  else toS64 (toU64 (baseClockRate * us) / 1000000)

/-- `usToCycles` of a `u64`. SOURCE: core_timing.h:78-88 -/
def usToCyclesU64 (us : ℤ) : ℤ :=
  if maxValueToMultiply < us / 1000000 then 2 ^ 63 - 1
  else if maxValueToMultiply < us then toS64 (baseClockRate * toS64 (us / 1000000))
  else toS64 (toU64 (baseClockRate * toS64 us) / 1000000)

/-- `nsToCycles` of a `u64`, which casts before it divides. SOURCE: core_timing.h:110-120 -/
def nsToCyclesU64 (ns : ℤ) : ℤ :=
  if maxValueToMultiply < ns / 1000000000 then 2 ^ 63 - 1
  else if maxValueToMultiply < ns then toS64 (baseClockRate * (toS64 ns).tdiv 1000000000)
  else toS64 (toU64 (baseClockRate * toS64 ns) / 1000000000)

/-- The delay `WakeAfterDelay` uses. SOURCE: thread.cpp:271-274 -/
def maskedDelay (nanoseconds : ℤ) : ℤ :=
  let bits := (toU64 nanoseconds).toNat
  if bits &&& 0x7000000000000000 = 0x7000000000000000 then ((bits &&& 0xFFFFFFFF : ℕ) : ℤ)
  else nanoseconds

/-- The timing and the tables `wakeup_callback_table` of the managers, as pairs of a core and the id
of a thread. -/
structure Wakeups where
  timing : Timing KernelEventType
  wakeupCallbackTable : List (ℕ × ℕ) := []

namespace Wakeups

/-- The entry that `CreateThread` makes. SOURCE: thread.cpp:389 -/
def addThread (coreId threadId : ℕ) (w : Wakeups) : Wakeups :=
  { w with wakeupCallbackTable := (coreId, threadId) :: w.wakeupCallbackTable }

/-- `Thread::WakeAfterDelay`. SOURCE: thread.cpp:265-279 -/
def wakeAfterDelay (coreId threadId : ℕ) (nanoseconds : ℤ) (threadSafeMode : Bool) (w : Wakeups) :
    Exec Wakeups :=
  if nanoseconds = -1 then pure w
  else do
    let core := if threadSafeMode then some coreId else none
    let timing ← w.timing.scheduleEvent (nsToCycles (maskedDelay nanoseconds))
      (.threadWakeup coreId) threadId core threadSafeMode
    pure { w with timing := timing }

/-- What `Thread::Stop` does before all else. SOURCE: thread.cpp:89-91 -/
def stop (coreId threadId : ℕ) (w : Wakeups) : Wakeups :=
  { timing := w.timing.unscheduleEvent (.threadWakeup coreId) threadId
    wakeupCallbackTable := w.wakeupCallbackTable.filter (fun entry => entry ≠ (coreId, threadId)) }

/-- What `ThreadManager::SwitchContext` does for the new thread. SOURCE: thread.cpp:147-148 -/
def switchContext (coreId threadId : ℕ) (w : Wakeups) : Wakeups :=
  { w with timing := w.timing.unscheduleEvent (.threadWakeup coreId) threadId }

/-- The lookup of `ThreadManager::ThreadWakeupCallback`: `at` throws when there is no entry.
SOURCE: thread.cpp:241-242 -/
def threadWakeupCallback (coreId threadId : ℕ) (w : Wakeups) : Exec Unit :=
  if (coreId, threadId) ∈ w.wakeupCallbackTable then pure () else throw .undefined

end Wakeups

end Borked3DS.Model
