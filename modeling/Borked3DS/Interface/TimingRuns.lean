import Mathlib.Algebra.Order.Group.Unbundled.Abs
import Mathlib.Algebra.Order.Ring.Int
import Mathlib.Data.Int.GCD
import Borked3DS.Model.CoreTiming
import Borked3DS.Model.KernelTimer

/-!
# Runs of the event timing

The calls on a timing as the steps of a machine. An `Advance` is its beginning, one step for each
event that it invokes and its end; the calls between them are those of the callbacks, or of other
threads. The trace says what became of the events.
-/

set_option autoImplicit false

namespace Borked3DS.Interface

open Borked3DS.Library Borked3DS.Model

variable {τ : Type}

/-- An event without its number. -/
def bare (e : Event τ) : Event τ := { e with fifoOrder := 0 }

/-- What a cancellation is about: a type of events, or those of them with some user data. -/
structure Cancellation (τ : Type) where
  type : τ
  userData : Option ℕ
  deriving DecidableEq

/-- Whether an event is cancelled. -/
def Cancellation.covers [DecidableEq τ] (c : Cancellation τ) (e : Event τ) : Bool :=
  decide (e.type = c.type ∧ (c.userData = none ∨ c.userData = some e.userData))

/-- An entry of the trace: an event comes to the queue of a core (directly, or by way of its
`ts_queue`), a cancellation returns and has taken some events from the queues, an event of a core is
invoked. -/
inductive TimingEntry (τ : Type)
  | scheduled (core : ℕ) (direct : Bool) (e : Event τ)
  | cancelled (c : Cancellation τ) (taken : List (List (Event τ)))
  | invoked (core : ℕ) (e : Event τ)
  deriving DecidableEq

/-- A call on a timing. -/
inductive TimingCall (τ : Type)
  | scheduleEvent (cyclesIntoFuture : ℤ) (type : τ) (userData : ℕ) (coreId : Option ℕ)
      (threadSafeMode : Bool)
  | unscheduleEvent (type : τ) (userData : ℕ)
  | removeEvent (type : τ)
  | addTicks (core scaledTicks : ℕ)
  | setNextSlice (core : ℕ) (maxSlice : ℤ)
  | idle (core : ℕ)
  | setDowncountHack (core hack : ℕ)
  | setCurrentTimer (core : ℕ)

section Calls

variable [DecidableEq τ]

/-- What a call does. -/
def TimingCall.program : TimingCall τ → Timing τ → Exec (Timing τ)
  | .scheduleEvent n type userData coreId mode, t => t.scheduleEvent n type userData coreId mode
  | .unscheduleEvent type userData, t => pure (t.unscheduleEvent type userData)
  | .removeEvent type, t => pure (t.removeEvent type)
  | .addTicks core ticks, t => t.modifyTimer core (Timer.addTicks ticks)
  | .setNextSlice core n, t => t.modifyTimer core (Timer.setNextSlice n)
  | .idle core, t => t.modifyTimer core Timer.idle
  | .setDowncountHack core hack, t =>
      t.modifyTimer core fun timer => { timer with downcountHack := hack }
  | .setCurrentTimer core, t => t.setCurrentTimer core

/-- The event a call schedules: the core, whether it goes to the queue directly, and the event. -/
def scheduledEvent (cyclesIntoFuture : ℤ) (type : τ) (userData : ℕ) (coreId : Option ℕ)
    (threadSafeMode : Bool) (t : Timing τ) : List (TimingEntry τ) :=
  let core := coreId.getD t.currentTimer
  match t.timers[core]? with
  | none => []
  | some timer =>
      let cycles :=
        if threadSafeMode then max (maxSliceLength * 2) cyclesIntoFuture else cyclesIntoFuture
      [.scheduled core (!threadSafeMode && decide (t.currentTimer = core))
        ⟨toS64 (timer.getTicks + cycles), 0, userData, type⟩]

/-- The entry of a cancellation. -/
def cancelledEvents (c : Cancellation τ) (t : Timing τ) : List (TimingEntry τ) :=
  [.cancelled c (t.timers.map fun timer => timer.eventQueue.filter c.covers)]

/-- The entries of a call in some state. -/
def TimingCall.entries : TimingCall τ → Timing τ → List (TimingEntry τ)
  | .scheduleEvent n type userData coreId mode, t => scheduledEvent n type userData coreId mode t
  | .unscheduleEvent type userData, t => cancelledEvents ⟨type, some userData⟩ t
  | .removeEvent type, t => cancelledEvents ⟨type, none⟩ t
  | _, _ => []

end Calls

/-- A timing, what became of its events, and the core whose timer is advancing. -/
structure TimingRun (τ : Type) where
  timing : Timing τ
  trace : List (TimingEntry τ)
  advancing : Option ℕ

/-- A step: a call, or a part of an `Advance`. -/
inductive TimingStep (τ : Type)
  | call (c : TimingCall τ)
  | beginAdvance (core : ℕ)
  | invoke
  | endAdvance

/-- The event that the loop of an `Advance` invokes next. -/
def dueEvent (timer : Timer τ) : Option (Event τ) :=
  match timer.eventQueue with
  | [] => none
  | e :: _ => if e.time ≤ timer.executedTicks then some e else none

/-- The core that advances, and its timer. -/
def TimingRun.advancingTimer (s : TimingRun τ) : Exec (ℕ × Timer τ) := do
  let core ← (match s.advancing with
    | some core => pure core
    | none => throw .undefined)
  let timer ← s.timing.getTimer core
  pure (core, timer)

/-- The step function. -/
def timingStep [DecidableEq τ] (s : TimingRun τ) : TimingStep τ → Exec (TimingRun τ)
  | .call c => do
      let t ← c.program s.timing
      pure { s with timing := t, trace := s.trace ++ c.entries s.timing }
  | .beginAdvance core =>
      if s.advancing = none then do
        let t ← s.timing.modifyTimer core Timer.beginAdvance
        pure { s with timing := t, advancing := some core }
      else throw .undefined
  | .invoke => do
      let (core, timer) ← s.advancingTimer
      match dueEvent timer with
      | none => throw .undefined
      | some e =>
          pure { s with
            timing := s.timing.setTimer core timer.popEvent
            trace := s.trace ++ [.invoked core e] }
  | .endAdvance => do
      let (core, timer) ← s.advancingTimer
      match dueEvent timer with
      | none =>
          pure { s with
            timing := s.timing.setTimer core { timer with isTimerSane := false }
            advancing := none }
      | some _ => throw .undefined

/-- A timing with some cores, as it is constructed. -/
def newTiming (numCores : ℕ) (baseTicks : ℤ) : TimingRun τ := ⟨.new numCores baseTicks, [], none⟩

section Trace

variable (core : ℕ) (trace : List (TimingEntry τ))

/-- The events that came to a core, in one of the ways or in both. -/
def scheduledOn (way : Bool → Bool) : List (Event τ) :=
  trace.flatMap fun
    | .scheduled c direct e => if c = core ∧ way direct then [e] else []
    | _ => []

/-- The events that were taken from the queue of a core by cancellations. -/
def cancelledOn : List (Event τ) :=
  trace.flatMap fun
    | .cancelled _ taken => (taken.getD core []).map bare
    | _ => []

/-- The events of a core that were invoked. -/
def invokedOn : List (Event τ) :=
  trace.flatMap fun
    | .invoked c e => if c = core then [e] else []
    | _ => []

end Trace

/-- The events that wait for a timer. -/
def waitingEvents (timer : Timer τ) : List (Event τ) :=
  (timer.eventQueue ++ timer.tsQueue).map bare

/-- Every event that was scheduled on a core has been cancelled, has been invoked or waits for its
timer, and only once. -/
def EventsOnce (s : TimingRun τ) : Prop :=
  ∀ core timer, s.timing.timers[core]? = some timer →
    (scheduledOn core s.trace fun _ => true).Perm
      (cancelledOn core s.trace ++ (invokedOn core s.trace).map bare ++ waitingEvents timer)

/-- The queues are heaps ordered by `(time, fifo_order)`. -/
def QueuesAreHeaps (t : Timing τ) : Prop :=
  ∀ timer ∈ t.timers, IsHeap Event.key timer.eventQueue

/-- An `Advance` that is not over has its next step: a turn if an event is due, its end if none
is. -/
def AdvanceProgresses [DecidableEq τ] (s : TimingRun τ) : Prop :=
  s.advancing ≠ none → ∃ s', timingStep s .invoke = .ok s' ∨ timingStep s .endAdvance = .ok s'

/-- The steps within an `Advance`. -/
def TimingStep.Inside : TimingStep τ → Prop
  | .call _ => True
  | .invoke => True
  | _ => False

/-- What an `Advance` of a core that leads from `s` to `s'` promises. All it invokes are events of
its own timer that are due. The events waiting at its start and those that came to the queue
meanwhile have all been cancelled or invoked, or they are still in the queue and not due. They are
invoked in order, if none came that was due before. -/
structure AdvancePromise (core : ℕ) (s s' : TimingRun τ) (timer timer' : Timer τ)
    (new : List (TimingEntry τ)) : Prop where
  traced : s'.trace = s.trace ++ new
  executed : timer'.executedTicks = timer.executedTicks + (timer.sliceLength - timer.downcount)
  own : ∀ c e, .invoked c e ∈ new → c = core
  due : ∀ e ∈ invokedOn core new, e.time ≤ timer'.executedTicks
  notDue : ∀ e ∈ timer'.eventQueue, timer'.executedTicks < e.time
  exactly : (waitingEvents timer ++ scheduledOn core new fun direct => direct).Perm
    (cancelledOn core new ++ (invokedOn core new).map bare ++ timer'.eventQueue.map bare)
  deferred : timer'.tsQueue.map bare = scheduledOn core new fun direct => !direct
  inOrder : (∀ e ∈ scheduledOn core new fun direct => direct, timer'.executedTicks ≤ e.time) →
    (invokedOn core new).Pairwise fun e e' => e.key < e'.key

/-- The calls of a callback, one after the other. -/
def performCalls [DecidableEq τ] :
    List (TimingCall τ) → Timing τ × List (TimingEntry τ) → Exec (Timing τ × List (TimingEntry τ))
  | [], w => pure w
  | c :: calls, w => do
      let t ← c.program w.1
      performCalls calls (t, w.2 ++ c.entries w.1)

/-- A callback for `Timing.advance` that chooses its calls by all there is to see. -/
def replyCallback [DecidableEq τ] (core : ℕ)
    (reply : Event τ → ℤ → Timing τ × List (TimingEntry τ) → List (TimingCall τ)) (e : Event τ)
    (cyclesLate : ℤ) (w : Timing τ × List (TimingEntry τ)) :
    Exec (Timing τ × List (TimingEntry τ)) :=
  performCalls (reply e cyclesLate w) (w.1, w.2 ++ [.invoked core e])

end Borked3DS.Interface

/-!
## Emulated time

The calls on the timers as the steps of a machine in which the end of an `Advance` is followed at
once by `SetNextSlice`, the only place where a slice is set. No timer is meant to show an earlier
time after a step than before it.
-/

namespace Borked3DS.Interface

open Borked3DS.Library Borked3DS.Model

variable {τ : Type}

/-- A step: a call, or a part of an `Advance`, whose end comes with `SetNextSlice`. -/
inductive ClockStep (τ : Type)
  | call (c : TimingCall τ)
  | forceExceptionCheck (core : ℕ) (cycles : ℤ)
  | beginAdvance (core : ℕ)
  | invoke
  | endAdvance (maxSlice : ℤ)

/-- The step function. -/
def clockStep [DecidableEq τ] (s : TimingRun τ) : ClockStep τ → Exec (TimingRun τ)
  | .call (.setNextSlice _ _) => throw .undefined
  | .call c => timingStep s (.call c)
  | .forceExceptionCheck core cycles => do
      let t ← s.timing.modifyTimer core (Timer.forceExceptionCheck cycles)
      pure { s with timing := t }
  | .beginAdvance core => timingStep s (.beginAdvance core)
  | .invoke => timingStep s .invoke
  | .endAdvance maxSlice =>
      match s.advancing with
      | none => throw .undefined
      | some core => do
          let s ← timingStep s .endAdvance
          timingStep s (.call (.setNextSlice core maxSlice))

/-- No timer shows an earlier time than before. -/
def TicksForward (t t' : Timing τ) : Prop :=
  ∀ (core : ℕ) (timer timer' : Timer τ), t.timers[core]? = some timer →
    t'.timers[core]? = some timer' → timer.getTicks ≤ timer'.getTicks

/-- The slice ends no later than the earliest event in the queue. -/
def SliceEnds (timer : Timer τ) : Prop :=
  ∀ e ∈ timer.eventQueue, timer.executedTicks + timer.sliceLength ≤ e.time

/-- What a step promises: time goes forward, and a new slice ends with the next event. -/
def GoesForward [DecidableEq τ] (s : TimingRun τ) (step : ClockStep τ) : Prop :=
  ∀ s', clockStep s step = .ok s' → TicksForward s.timing s'.timing ∧
    ∀ maxSlice core timer', step = .endAdvance maxSlice → s.advancing = some core →
      s'.timing.timers[core]? = some timer' → SliceEnds timer'

/-- The time a timer comes to with the end of what it has executed of its slice. -/
def reachedTime (timer : Timer τ) : ℤ :=
  timer.executedTicks + (timer.sliceLength - timer.downcount)

/-- A step counts forward. The downcount is not overrun when the rest of a slice is idled away, the
next slice is positive and not made negative by the cast to `int` when the downcount hack scales it,
and no time or downcount leaves the range of an `s64`. -/
def CountsForward (s : TimingRun τ) : ClockStep τ → Prop
  | .call (.idle core) => ∀ timer, s.timing.timers[core]? = some timer →
      (timer.isTimerSane = true ∨ 0 ≤ timer.downcount) ∧
        timer.executedTicks + timer.sliceLength < 2 ^ 63
  | .call (.addTicks core ticks) => ∀ timer, s.timing.timers[core]? = some timer →
      -2 ^ 63 ≤ timer.downcount - ticks ∧ reachedTime timer + ticks < 2 ^ 63
  | .endAdvance maxSlice => 0 < maxSlice ∧ maxSlice < 2 ^ 63 ∧
      ∀ core timer, s.advancing = some core → s.timing.timers[core]? = some timer →
        timer.downcountHack = 0 ∨
          0 ≤ (timer.setNextSlice maxSlice).sliceLength ∧
            reachedTime (timer.setNextSlice maxSlice) < 2 ^ 63
  | _ => True

end Borked3DS.Interface

/-!
## Runs with cancelled events and thread wakeups

What a cancelled event promises, and the machine of a timing together with the threads that use it
for their wakeups.
-/

namespace Borked3DS.Interface

open Borked3DS.Library Borked3DS.Model

section Cancelled

variable {τ : Type} [DecidableEq τ]

/-- A cancelled event never fires, unless it is scheduled again: between a cancellation and the
invocation of an event that it covers, one of the same type and user data was scheduled. -/
def CancelledStayAway (trace : List (TimingEntry τ)) : Prop :=
  ∀ pre c taken mid core e post,
    trace = pre ++ .cancelled c taken :: (mid ++ .invoked core e :: post) → c.covers e = true →
    ∃ core' direct e', .scheduled core' direct e' ∈ mid ∧ e'.type = e.type ∧
      e'.userData = e.userData

/-- No `ts_queue` holds an event that a cancellation covers. -/
def NoneDeferred (c : Cancellation τ) (t : Timing τ) : Prop :=
  ∀ timer ∈ t.timers, ∀ e ∈ timer.tsQueue, c.covers e = false

/-- A call that cancels finds nothing to cancel in a `ts_queue`. -/
def TimingCall.NoneMissed (t : Timing τ) : TimingCall τ → Prop
  | .unscheduleEvent type userData => NoneDeferred ⟨type, some userData⟩ t
  | .removeEvent type => NoneDeferred ⟨type, none⟩ t
  | _ => True

instance (c : Cancellation τ) (t : Timing τ) : Decidable (NoneDeferred c t) :=
  inferInstanceAs (Decidable (∀ timer ∈ t.timers, ∀ e ∈ timer.tsQueue, c.covers e = false))

instance (t : Timing τ) : ∀ c : TimingCall τ, Decidable (c.NoneMissed t)
  | .unscheduleEvent type userData =>
      inferInstanceAs (Decidable (NoneDeferred ⟨type, some userData⟩ t))
  | .removeEvent type => inferInstanceAs (Decidable (NoneDeferred ⟨type, none⟩ t))
  | .scheduleEvent .. => isTrue trivial
  | .addTicks .. => isTrue trivial
  | .setNextSlice .. => isTrue trivial
  | .idle .. => isTrue trivial
  | .setDowncountHack .. => isTrue trivial
  | .setCurrentTimer .. => isTrue trivial

end Cancelled

/-- A call on events of another type than the wakeups. -/
def TimingCall.other : TimingCall ℕ → TimingCall KernelEventType
  | .scheduleEvent n type userData coreId mode => .scheduleEvent n (.other type) userData coreId mode
  | .unscheduleEvent type userData => .unscheduleEvent (.other type) userData
  | .removeEvent type => .removeEvent (.other type)
  | .addTicks core ticks => .addTicks core ticks
  | .setNextSlice core n => .setNextSlice core n
  | .idle core => .idle core
  | .setDowncountHack core hack => .setDowncountHack core hack
  | .setCurrentTimer core => .setCurrentTimer core

/-- A timing as in a run, and the tables of the thread managers. -/
structure WakeupRun where
  run : TimingRun KernelEventType
  table : List (ℕ × ℕ)

/-- A step: what threads do with their wakeups, any other call, or a part of an `Advance`. -/
inductive WakeupStep
  | createThread (core thread : ℕ)
  | wakeAfterDelay (core thread : ℕ) (nanoseconds : ℤ) (threadSafeMode : Bool)
  | stop (core thread : ℕ)
  | switchContext (core thread : ℕ)
  | other (c : TimingCall ℕ)
  | beginAdvance (core : ℕ)
  | invoke
  | endAdvance

namespace WakeupRun

/-- The state of the model. -/
def wakeups (s : WakeupRun) : Wakeups := ⟨s.run.timing, s.table⟩

/-- A state of the model that a call has led to, with its entries in the trace. -/
def proceed (s : WakeupRun) (w : Wakeups) (new : List (TimingEntry KernelEventType)) : WakeupRun :=
  ⟨{ s.run with timing := w.timing, trace := s.run.trace ++ new }, w.wakeupCallbackTable⟩

/-- The event that the running `Advance` invokes next. -/
def nextEvent (s : WakeupRun) : Option (Event KernelEventType) := do
  let core ← s.run.advancing
  let timer ← s.run.timing.timers[core]?
  dueEvent timer

/-- What `ThreadWakeupCallback` looks up, if it is invoked next. -/
def lookUp (s : WakeupRun) : Exec Unit :=
  match s.nextEvent with
  | some ⟨_, _, thread, .threadWakeup core⟩ => s.wakeups.threadWakeupCallback core thread
  | _ => pure ()

end WakeupRun

/-- The step function. -/
def wakeupStep (s : WakeupRun) : WakeupStep → Exec WakeupRun
  | .createThread core thread => pure (s.proceed (s.wakeups.addThread core thread) [])
  | .wakeAfterDelay core thread nanoseconds mode => do
      let w ← s.wakeups.wakeAfterDelay core thread nanoseconds mode
      let new :=
        if nanoseconds = -1 then []
        else scheduledEvent (nsToCycles (maskedDelay nanoseconds)) (.threadWakeup core) thread
          (if mode then some core else none) mode s.run.timing
      pure (s.proceed w new)
  | .stop core thread =>
      pure (s.proceed (s.wakeups.stop core thread)
        (cancelledEvents ⟨.threadWakeup core, some thread⟩ s.run.timing))
  | .switchContext core thread =>
      pure (s.proceed (s.wakeups.switchContext core thread)
        (cancelledEvents ⟨.threadWakeup core, some thread⟩ s.run.timing))
  | .other c => do
      let r ← timingStep s.run (.call c.other)
      pure { s with run := r }
  | .beginAdvance core => do
      let r ← timingStep s.run (.beginAdvance core)
      pure { s with run := r }
  | .invoke => do
      s.lookUp
      let r ← timingStep s.run .invoke
      pure { s with run := r }
  | .endAdvance => do
      let r ← timingStep s.run .endAdvance
      pure { s with run := r }

/-- A timing with some cores, as it is constructed, and no threads. -/
def newWakeups (numCores : ℕ) (baseTicks : ℤ) : WakeupRun := ⟨newTiming numCores baseTicks, []⟩

/-- When a step keeps cancelled events away: a cancellation finds none of its events in a
`ts_queue`, and only a thread that has not been stopped asks to be woken. -/
def WakeupStep.Covered (s : WakeupRun) : WakeupStep → Prop
  | .wakeAfterDelay core thread nanoseconds _ => nanoseconds = -1 ∨ (core, thread) ∈ s.table
  | .stop core thread => NoneDeferred ⟨.threadWakeup core, some thread⟩ s.run.timing
  | .switchContext core thread => NoneDeferred ⟨.threadWakeup core, some thread⟩ s.run.timing
  | .other c => c.other.NoneMissed s.run.timing
  | _ => True

instance (s : WakeupRun) : ∀ st : WakeupStep, Decidable (st.Covered s)
  | .wakeAfterDelay core thread nanoseconds _ =>
      inferInstanceAs (Decidable (nanoseconds = -1 ∨ (core, thread) ∈ s.table))
  | .stop core thread =>
      inferInstanceAs (Decidable (NoneDeferred ⟨.threadWakeup core, some thread⟩ s.run.timing))
  | .switchContext core thread =>
      inferInstanceAs (Decidable (NoneDeferred ⟨.threadWakeup core, some thread⟩ s.run.timing))
  | .other c => inferInstanceAs (Decidable (c.other.NoneMissed s.run.timing))
  | .createThread .. => isTrue trivial
  | .beginAdvance .. => isTrue trivial
  | .invoke => isTrue trivial
  | .endAdvance => isTrue trivial

/-- The wakeup that is invoked next is one of a thread in the table. -/
def WakeupsFound (s : WakeupRun) : Prop :=
  ∀ e core, s.nextEvent = some e → e.type = .threadWakeup core → (core, e.userData) ∈ s.table

end Borked3DS.Interface

/-!
## What the conversion of delays promises

A delay is converted into cycles of the main clock. `perSecond` is the number of units of time in a
second, and the exact result is `a * baseClockRate / perSecond`.
-/

namespace Borked3DS.Interface

open Borked3DS.Model

/-- A value of an `s64`. -/
def InS64 (a : ℤ) : Prop := -2 ^ 63 ≤ a ∧ a < 2 ^ 63

/-- The delay whose exact result is as far from the converted one as `perSecond` times the cycles
between them. -/
def conversionError (perSecond : ℤ) (convert : ℤ → ℤ) (a : ℤ) : ℤ :=
  a * baseClockRate - convert a * perSecond

/-- A conversion of `s64` delays, with its overload for `u64` delays: monotone, accurate to less
than a second and below the large values to a cycle, and the same for both types. -/
structure ConvertsAll (perSecond : ℤ) (convert convertU64 : ℤ → ℤ) : Prop where
  monotone : ∀ a b, InS64 a → InS64 b → a ≤ b → convert a ≤ convert b
  second : ∀ a, InS64 a → |conversionError perSecond convert a| < baseClockRate * perSecond
  cycle : ∀ a, InS64 a → a ≤ maxValueToMultiply →
    |conversionError perSecond convert a| ≤ perSecond
  agree : ∀ a, InS64 a → 0 ≤ a → convertU64 a = convert a

/-- A conversion of the delays from zero on. It rounds down: to a cycle up to
`MAX_VALUE_TO_MULTIPLY`, to a second behind it, and to the largest `s64` where the result of the
whole seconds does not fit. It is monotone on either side of the first switch, and across it where
the whole seconds of the longer delay make up for the rest of the shorter one. -/
structure ConvertsDelays (perSecond : ℤ) (convert convertU64 : ℤ → ℤ) : Prop where
  monotone : ∀ a b, 0 ≤ a → a ≤ b → b < 2 ^ 63 →
    (convert a ≤ convert b ↔ (a ≤ maxValueToMultiply → maxValueToMultiply < b →
      a * baseClockRate < (baseClockRate * (b / perSecond) + 1) * perSecond))
  drop : ∀ a b, 0 ≤ a → a ≤ b → b < 2 ^ 63 → convert a < convert b + baseClockRate
  second : ∀ a, 0 ≤ a → a < 2 ^ 63 → a / perSecond ≤ maxValueToMultiply →
    0 ≤ conversionError perSecond convert a ∧
      conversionError perSecond convert a < baseClockRate * perSecond
  cycle : ∀ a, 0 ≤ a → a ≤ maxValueToMultiply →
    0 ≤ conversionError perSecond convert a ∧ conversionError perSecond convert a < perSecond
  saturated : ∀ a, 0 ≤ a → a < 2 ^ 63 → maxValueToMultiply < a / perSecond →
    convert a = 2 ^ 63 - 1 ∧ 2 ^ 63 - 1 < baseClockRate * (a / perSecond)
  agree : ∀ a, 0 ≤ a → a < 2 ^ 63 → convertU64 a = convert a

end Borked3DS.Interface

/-!
## What periodic timers promise

A timer with an interval schedules its next event when it fires, into the slice that is being
advanced. An `Advance` is meant to come to its end all the same.
-/

namespace Borked3DS.Interface

open Borked3DS.Library Borked3DS.Model

variable {ω : Type}

/-- Timers that have been set: the events of the current core are in order, and those of timers name
timers that are there. -/
structure Armed (core : ℕ) (w : Timing KernelEventType × TimerManager ω)
    (timer : Timer KernelEventType) : Prop where
  unlocked : w.1.eventQueueLocked = false
  current : w.1.currentTimer = core
  lookup : w.1.timers[core]? = some timer
  heap : IsHeap Event.key timer.eventQueue
  numbered : ∀ e ∈ timer.eventQueue, e.fifoOrder < timer.eventFifoId
  distinct : (timer.eventQueue.map Event.fifoOrder).Nodup
  present : ∀ e ∈ timer.eventQueue ++ timer.tsQueue, e.type = timerCallbackEventType →
    (w.2.timerCallbackTable e.userData).isSome

/-- The loop of `Advance` performs finitely many callbacks. -/
def FinitelyManyCallbacks (wake : ℕ → ω → Bool × ω) (core : ℕ)
    (w : Timing KernelEventType × TimerManager ω) : Prop :=
  ∃ fuel w', Timing.advance (TimerManager.timerCallback wake) core fuel w = .ok w'

/-- The interval of the timer that an event is about, and none for an event of another type. -/
def intervalOf (m : TimerManager ω) (e : Event KernelEventType) : ℤ :=
  if e.type = timerCallbackEventType then
    match m.timerCallbackTable e.userData with
    | some timer => timer.intervalDelay
    | none => 0
  else 0

/-- A timer overtakes the time that has been executed. Each time it fires, the cycles it is late by,
as an `int`, go down by its interval, so that up to multiples of `2 ^ 32` they come to all numbers
that differ by a multiple of the greatest common divisor. One of them has to lead to an event behind
the executed time. -/
def Overtakes (executed interval time : ℤ) : Prop :=
  interval = 0 ∨ ∃ late : ℤ, -2 ^ 31 ≤ late ∧ late < 2 ^ 31 ∧
    (Int.gcd (nsToCycles interval) (2 ^ 32) : ℤ) ∣ toInt (executed - time) - late ∧
    executed < toS64 (executed + nsToCycles interval - late)

/-- All timers that are due when an `Advance` begins overtake it. -/
def TimersOvertake (m : TimerManager ω) (timer : Timer KernelEventType) : Prop :=
  ∀ e ∈ timer.eventQueue ++ timer.tsQueue, e.time ≤ reachedTime timer →
    Overtakes (reachedTime timer) (intervalOf m e) e.time

end Borked3DS.Interface
