import Mathlib.Logic.Function.Basic
import Borked3DS.Model.Thread
import Borked3DS.Model.CoreTiming

/-!
# Kernel timers

What `timer.cpp` does with the event timing: a timer that is set has one event, and schedules the
next one when it fires. Waking the threads that wait for a timer is a parameter: it changes what
there is besides (`ω`) and says whether one of them has acquired the timer.
-/

set_option autoImplicit false

namespace Borked3DS.Model

/-- The event type of the timers, `timer_callback_event_type`. -/
def timerCallbackEventType : KernelEventType := .other 0

/-- `Kernel::Timer`. SOURCE: timer.h -/
structure KernelTimer where
  resetType : ResetType
  initialDelay : ℤ := 0
  intervalDelay : ℤ := 0
  signaled : Bool := false
  deriving DecidableEq, Repr

/-- `Kernel::TimerManager`, and what waking threads changes. -/
structure TimerManager (ω : Type) where
  nextTimerCallbackId : ℕ := 0
  timerCallbackTable : ℕ → Option KernelTimer := fun _ => none
  besides : ω

namespace TimerManager

variable {ω : Type}

/-- The timer with a callback id: `at` throws when there is none. -/
def timerAt (callbackId : ℕ) (m : TimerManager ω) : Exec KernelTimer :=
  match m.timerCallbackTable callbackId with
  | some timer => pure timer
  | none => throw .undefined

/-- The manager with another timer under a callback id. -/
def setTimerAt (callbackId : ℕ) (timer : KernelTimer) (m : TimerManager ω) : TimerManager ω :=
  { m with timerCallbackTable := Function.update m.timerCallbackTable callbackId (some timer) }

/-- `KernelSystem::CreateTimer`. SOURCE: timer.cpp:34-44 -/
def createTimer (resetType : ResetType) (m : TimerManager ω) : TimerManager ω :=
  setTimerAt (m.nextTimerCallbackId + 1) { resetType := resetType }
    { m with nextTimerCallbackId := m.nextTimerCallbackId + 1 }

variable (wake : ℕ → ω → Bool × ω)

/-- `Timer::WakeupAllWaitingThreads` of a timer that is signaled. SOURCE: timer.cpp:50-55, 81-86 -/
def wakeupAllWaitingThreads (callbackId : ℕ) (timer : KernelTimer) (m : TimerManager ω) :
    TimerManager ω :=
  let (acquired, besides) := wake callbackId m.besides
  let signaled :=
    match timer.resetType with
    | .oneShot => !acquired
    | .sticky => true
    | .pulse => false
  setTimerAt callbackId { timer with signaled := signaled } { m with besides := besides }

/-- `Timer::Signal`. SOURCE: timer.cpp:88-101 -/
def signal (callbackId : ℕ) (cyclesLate : ℤ) (w : Timing KernelEventType × TimerManager ω) :
    Exec (Timing KernelEventType × TimerManager ω) := do
  let timer ← w.2.timerAt callbackId
  let m := wakeupAllWaitingThreads wake callbackId timer w.2
  if timer.intervalDelay ≠ 0 then
    let timing ← w.1.scheduleEvent (nsToCycles timer.intervalDelay - cyclesLate)
      timerCallbackEventType callbackId none false
    pure (timing, m)
  else pure (w.1, m)

/-- `Timer::Set`. SOURCE: timer.cpp:57-71 -/
def set (callbackId : ℕ) (initial interval : ℤ) (w : Timing KernelEventType × TimerManager ω) :
    Exec (Timing KernelEventType × TimerManager ω) := do
  let timing := w.1.unscheduleEvent timerCallbackEventType callbackId
  let timer ← w.2.timerAt callbackId
  let m := w.2.setTimerAt callbackId
    { timer with initialDelay := initial, intervalDelay := interval }
  if initial = 0 then signal wake callbackId 0 (timing, m)
  else
    let timing ← timing.scheduleEvent (nsToCycles initial) timerCallbackEventType callbackId none
      false
    pure (timing, m)

/-- `SVC::SetTimer`, for the timer that the handle leads to. SOURCE: svc.cpp:1573-1584 -/
def svcSetTimer (callbackId : ℕ) (initial interval : ℤ)
    (w : Timing KernelEventType × TimerManager ω) :
    Exec (Result × (Timing KernelEventType × TimerManager ω)) :=
  if 0 ≤ initial ∧ 0 ≤ interval then do
    let w ← set wake callbackId initial interval w
    pure (.success, w)
  else pure (.outOfRangeKernel, w)

/-- `TimerManager::TimerCallback`, and for events of other types a callback that does nothing.
SOURCE: timer.cpp:117-126 -/
def timerCallback (e : Event KernelEventType) (cyclesLate : ℤ)
    (w : Timing KernelEventType × TimerManager ω) :
    Exec (Timing KernelEventType × TimerManager ω) :=
  if e.type = timerCallbackEventType then signal wake e.userData cyclesLate w else pure w

end TimerManager

end Borked3DS.Model
