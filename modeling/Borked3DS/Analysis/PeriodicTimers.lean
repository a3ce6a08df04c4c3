import Mathlib.Algebra.BigOperators.Group.List.Basic
import Mathlib.Tactic.Ring
import Borked3DS.Analysis.EmulatedTime
import Borked3DS.Interface.TimingRuns

/-!
# Periodic timers in an advance

How often one timer fires, from it how many turns the loop of an `Advance` takes, and which timers
make it take turns for ever.
-/

set_option autoImplicit false

namespace Borked3DS.Analysis

open Borked3DS.Library Borked3DS.Model Borked3DS.Interface

/-! ## The firings of one timer -/

/-- The time of the event that a timer schedules when it fires. -/
def rearmed (executed interval time : ℤ) : ℤ :=
  toS64 (toU64 executed + (nsToCycles interval - toInt (executed - time)))

/-- An event of a timer with an interval leads to so many callbacks. -/
inductive CalledBack (executed interval : ℤ) : ℤ → ℕ → Prop
  | waits {time : ℤ} (h : executed < time) : CalledBack executed interval time 0
  | once {time : ℤ} (h : time ≤ executed) (hinterval : interval = 0) :
      CalledBack executed interval time 1
  | again {time : ℤ} {n : ℕ} (h : time ≤ executed) (hinterval : interval ≠ 0)
      (hrest : CalledBack executed interval (rearmed executed interval time) n) :
      CalledBack executed interval time (n + 1)

section Firings

variable {executed interval time : ℤ}

theorem CalledBack.unique {n n' : ℕ} (h : CalledBack executed interval time n)
    (h' : CalledBack executed interval time n') : n = n' := by
  induction h generalizing n' with
  | waits h =>
    cases h' with
    | waits => rfl
    | once hdue => omega
    | again hdue => omega
  | once h hinterval =>
    cases h' with
    | waits hdue => omega
    | once => rfl
    | again _ hne => exact absurd hinterval hne
  | again h hinterval _ ih =>
    cases h' with
    | waits hdue => omega
    | once _ heq => exact absurd heq hinterval
    | again _ _ hrest => rw [ih hrest]

/-- The detour by a `u64` changes no `s64`. -/
theorem toS64_toU64_add (x y : ℤ) : toS64 (toU64 x + y) = toS64 (x + y) := by
  unfold toS64 toU64
  rw [show (2 : ℤ) ^ 64 = ((2 ^ 64 : ℕ) : ℤ) by rfl]
  exact Int.emod_add_bmod x _

/-- The lateness of the next event, and the time of it by the lateness. -/
theorem rearmed_late : toInt (executed - rearmed executed interval time) =
    toInt (toInt (executed - time) - nsToCycles interval) := by
  rw [rearmed, toS64_toU64_add]
  set late := toInt (executed - time) with hlate
  obtain ⟨m, hm⟩ : (2 ^ 64 : ℤ) ∣ executed + (nsToCycles interval - late) -
      toS64 (executed + (nsToCycles interval - late)) := Int.dvd_self_sub_bmod
  have heq : executed - toS64 (executed + (nsToCycles interval - late)) =
      (late - nsToCycles interval) + (2 ^ 32 : ℕ) * (2 ^ 32 * m) := by
    push_cast
    omega
  unfold toInt at *
  rw [heq, Int.add_mul_bmod_self_left]

theorem rearmed_eq : rearmed executed interval time =
    toS64 (executed + nsToCycles interval - toInt (executed - time)) := by
  rw [rearmed, toS64_toU64_add, add_sub_assoc]

/-- The event after some firings. -/
def afterFirings (executed interval time : ℤ) : ℕ → ℤ
  | 0 => time
  | k + 1 => rearmed executed interval (afterFirings executed interval time k)

theorem afterFirings_late (k : ℕ) : toInt (executed - afterFirings executed interval time k) =
    toInt (toInt (executed - time) - k * nsToCycles interval) := by
  induction k with
  | zero =>
    unfold afterFirings toInt
    rw [Nat.cast_zero, zero_mul, sub_zero, Int.bmod_bmod]
  | succ k ih =>
    rw [afterFirings, rearmed_late, ih]
    unfold toInt
    rw [Int.bmod_sub_bmod]
    congr 1
    push_cast
    ring

theorem afterFirings_succ (k : ℕ) : afterFirings executed interval time (k + 1) =
    afterFirings executed interval (rearmed executed interval time) k := by
  induction k with
  | zero => rfl
  | succ k ih =>
    rw [afterFirings, ih]
    rfl

/-- An event is called back finitely often if some firing overtakes the executed time. -/
theorem calledBack_of_overtakes {k : ℕ} (hinterval : interval ≠ 0)
    (h : executed < afterFirings executed interval time k) :
    ∃ n, CalledBack executed interval time n := by
  induction k generalizing time with
  | zero => exact ⟨0, .waits h⟩
  | succ k ih =>
    rcases le_or_gt time executed with hdue | hwaits
    · rw [afterFirings_succ] at h
      obtain ⟨n, hn⟩ := ih h
      exact ⟨n + 1, .again hdue hinterval hn⟩
    · exact ⟨0, .waits hwaits⟩

/-- And only then. -/
theorem CalledBack.overtakes {n : ℕ} (h : CalledBack executed interval time n)
    (hinterval : interval ≠ 0) : ∃ k, executed < afterFirings executed interval time k := by
  induction h with
  | waits h => exact ⟨0, h⟩
  | once _ heq => exact absurd heq hinterval
  | again _ _ _ ih =>
    obtain ⟨k, hk⟩ := ih
    exact ⟨k + 1, by rwa [afterFirings_succ]⟩

/-- The latenesses that repeated subtraction comes to. -/
theorem exists_late_iff {l c late : ℤ} (hlo : -2 ^ 31 ≤ late) (hhi : late < 2 ^ 31) :
    (∃ k : ℕ, toInt (l - k * c) = late) ↔ (Int.gcd c (2 ^ 32) : ℤ) ∣ l - late := by
  constructor
  · rintro ⟨k, rfl⟩
    obtain ⟨m, hm⟩ : (2 ^ 32 : ℤ) ∣ l - k * c - toInt (l - k * c) := Int.dvd_self_sub_bmod
    have heq : l - toInt (l - k * c) = k * c + 2 ^ 32 * m := by omega
    rw [heq]
    exact Int.dvd_add (Dvd.dvd.mul_left (Int.gcd_dvd_left c _) k)
      (Dvd.dvd.mul_right (Int.gcd_dvd_right c _) m)
  · rintro ⟨d, hd⟩
    have hbezout := Int.gcd_eq_gcd_ab c (2 ^ 32)
    set k : ℤ := (Int.gcdA c (2 ^ 32) * d) % 2 ^ 32 with hk
    obtain ⟨m, hm⟩ : (2 ^ 32 : ℤ) ∣ Int.gcdA c (2 ^ 32) * d - k := Int.dvd_self_sub_emod
    refine ⟨k.toNat, ?_⟩
    rw [Int.toNat_of_nonneg (Int.emod_nonneg _ (by decide))]
    have heq : l - k * c = late + (2 ^ 32 : ℕ) * (Int.gcdB c (2 ^ 32) * d + m * c) := by
      have hkd : k = Int.gcdA c (2 ^ 32) * d - 2 ^ 32 * m := by omega
      have hl : l = late + (c * Int.gcdA c (2 ^ 32) + 2 ^ 32 * Int.gcdB c (2 ^ 32)) * d := by
        rw [← hbezout]
        omega
      rw [hkd, hl]
      push_cast
      ring
    unfold toInt
    rw [heq, Int.add_mul_bmod_self_left]
    exact Int.bmod_eq_of_le (by omega) (by omega)

/-- An event that is due is called back finitely often exactly when its timer overtakes the executed
time. -/
theorem calledBack_iff : (∃ n, CalledBack executed interval time n) ↔
    (time ≤ executed → Overtakes executed interval time) := by
  by_cases hinterval : interval = 0
  · refine ⟨fun _ _ => Or.inl hinterval, fun _ => ?_⟩
    rcases le_or_gt time executed with hdue | hwaits
    · exact ⟨1, .once hdue hinterval⟩
    · exact ⟨0, .waits hwaits⟩
  · constructor
    · rintro ⟨n, hn⟩ hdue
      obtain ⟨k, hk⟩ := hn.overtakes hinterval
      cases k with
      | zero => exact absurd hk (by unfold afterFirings; omega)
      | succ k =>
        rw [afterFirings, rearmed_eq, afterFirings_late] at hk
        set late := toInt (toInt (executed - time) - k * nsToCycles interval) with hlate
        have hlo : -2 ^ 31 ≤ late := by
          have := Int.le_bmod (x := toInt (executed - time) - k * nsToCycles interval)
            (m := 2 ^ 32) (by decide)
          exact this
        have hhi : late < 2 ^ 31 := by
          have := Int.bmod_lt (x := toInt (executed - time) - k * nsToCycles interval)
            (m := 2 ^ 32) (by decide)
          exact this
        exact Or.inr ⟨late, hlo, hhi, (exists_late_iff hlo hhi).mp ⟨k, hlate.symm⟩, hk⟩
    · intro h
      rcases le_or_gt time executed with hdue | hwaits
      · obtain ⟨late, hlo, hhi, hdvd, hlt⟩ := (h hdue).resolve_left hinterval
        obtain ⟨k, hk⟩ := (exists_late_iff hlo hhi).mpr hdvd
        refine calledBack_of_overtakes (k := k + 1) hinterval ?_
        rwa [afterFirings, rearmed_eq, afterFirings_late, hk]
      · exact ⟨0, .waits hwaits⟩

end Firings

/-! ## One turn of the loop -/

/-- What holds within the loop of an `Advance`. -/
structure InLoop {ω : Type} (core : ℕ) (w : Timing KernelEventType × TimerManager ω)
    (timer : Timer KernelEventType) : Prop where
  unlocked : w.1.eventQueueLocked = false
  current : w.1.currentTimer = core
  lookup : w.1.timers[core]? = some timer
  queue : QueueOk timer
  sane : timer.isTimerSane = true
  present : ∀ e ∈ timer.eventQueue, e.type = timerCallbackEventType →
    (w.2.timerCallbackTable e.userData).isSome

section Turns

variable {ω : Type} {wake : ℕ → ω → Bool × ω} {core : ℕ}
  {w w' : Timing KernelEventType × TimerManager ω} {timer timer' : Timer KernelEventType}
  {e : Event KernelEventType} {rest : List (Event KernelEventType)}

variable (wake) in
/-- Waking threads changes no interval, and no timer goes away. -/
theorem wakeup_intervals {m : TimerManager ω} {kt : KernelTimer} {callbackId : ℕ}
    (h : m.timerCallbackTable callbackId = some kt) :
    (∀ e, intervalOf (TimerManager.wakeupAllWaitingThreads wake callbackId kt m) e =
      intervalOf m e) ∧
      ∀ u, ((TimerManager.wakeupAllWaitingThreads wake callbackId kt m).timerCallbackTable
        u).isSome = (m.timerCallbackTable u).isSome := by
  constructor
  · intro e
    unfold intervalOf
    by_cases hsame : e.userData = callbackId
    · simp [TimerManager.wakeupAllWaitingThreads, TimerManager.setTimerAt, hsame, h]
    · simp [TimerManager.wakeupAllWaitingThreads, TimerManager.setTimerAt, hsame]
  · intro u
    by_cases hsame : u = callbackId
    · simp [TimerManager.wakeupAllWaitingThreads, TimerManager.setTimerAt, hsame, h]
    · simp [TimerManager.wakeupAllWaitingThreads, TimerManager.setTimerAt, hsame]

/-- Scheduling an event of the current core while it advances. -/
theorem scheduleEvent_advancing {t : Timing KernelEventType} {n : ℤ} {type : KernelEventType}
    {userData : ℕ} (hlock : t.eventQueueLocked = false)
    (hget : t.timers[t.currentTimer]? = some timer) (hsane : timer.isTimerSane = true) :
    t.scheduleEvent n type userData none false = .ok (t.setTimer t.currentTimer
      (timer.pushEvent ⟨toS64 (toU64 timer.executedTicks + n), 0, userData, type⟩)) := by
  have hticks : timer.getTicks = toU64 timer.executedTicks := by
    unfold Timer.getTicks
    rw [if_pos hsane]
  unfold Timing.scheduleEvent Timing.scheduleCore
  rw [if_neg (by simp [hlock]), pure_eq_ok, ok_bind, getTimer_eq_ok.mpr hget, ok_bind]
  simp [hticks, hsane]

/-- The event that a timer schedules when it fires for an event. -/
def nextEvent (executed : ℤ) (m : TimerManager ω) (e : Event KernelEventType) :
    Event KernelEventType :=
  ⟨rearmed executed (intervalOf m e) e.time, 0, e.userData, timerCallbackEventType⟩

variable (wake) in
/-- One turn: the event leaves the queue, and a timer with an interval puts its next one there. -/
theorem turn (h : InLoop core w timer) (hqueue : timer.eventQueue = e :: rest) :
    ∃ w' timer', TimerManager.timerCallback wake e (toInt (timer.executedTicks - e.time))
        (w.1.setTimer core timer.popEvent, w.2) = .ok w' ∧
      InLoop core w' timer' ∧ timer'.executedTicks = timer.executedTicks ∧
      (∀ e, intervalOf w'.2 e = intervalOf w.2 e) ∧
      (timer'.eventQueue.map bare).Perm
        ((if intervalOf w.2 e = 0 then [] else [nextEvent timer.executedTicks w.2 e]) ++
          rest.map bare) := by
  have hlt : core < w.1.timers.length := (List.getElem?_eq_some_iff.mp h.lookup).1
  obtain ⟨-, hperm, -⟩ := popEvent_spec h.queue hqueue
  have hstep := timerStep_popEvent h.queue hqueue
  have hpopped : (w.1.setTimer core timer.popEvent).timers[core]? = some timer.popEvent :=
    List.getElem?_set_self hlt
  have hpresent : ∀ q ∈ timer.popEvent.eventQueue, q.type = timerCallbackEventType →
      (w.2.timerCallbackTable q.userData).isSome := by
    intro q hq
    refine h.present q ?_
    rw [hqueue]
    exact List.mem_cons_of_mem e (hperm.mem_iff.mp hq)
  have hloop : InLoop core (w.1.setTimer core timer.popEvent, w.2) timer.popEvent :=
    ⟨h.unlocked, h.current, hpopped, hstep.ok h.queue, h.sane, hpresent⟩
  by_cases htype : e.type = timerCallbackEventType
  · obtain ⟨kt, hkt⟩ := Option.isSome_iff_exists.mp
      (h.present e (by rw [hqueue]; exact List.mem_cons_self) htype)
    have hinterval : intervalOf w.2 e = kt.intervalDelay := by
      unfold intervalOf
      rw [if_pos htype, hkt]
    obtain ⟨hintervals, hsome⟩ := wakeup_intervals wake hkt
    set m := TimerManager.wakeupAllWaitingThreads wake e.userData kt w.2 with hm
    have htimer : TimerManager.timerAt e.userData w.2 = .ok kt := by
      unfold TimerManager.timerAt
      rw [hkt]
      rfl
    have hcallback : TimerManager.timerCallback wake e (toInt (timer.executedTicks - e.time))
        (w.1.setTimer core timer.popEvent, w.2) =
          (if kt.intervalDelay ≠ 0 then do
            let timing ← (w.1.setTimer core timer.popEvent).scheduleEvent
              (nsToCycles kt.intervalDelay - toInt (timer.executedTicks - e.time))
              timerCallbackEventType e.userData none false
            pure (timing, m)
          else pure (w.1.setTimer core timer.popEvent, m)) := by
      unfold TimerManager.timerCallback TimerManager.signal
      rw [if_pos htype, htimer, ok_bind]
    by_cases hzero : kt.intervalDelay = 0
    · refine ⟨(w.1.setTimer core timer.popEvent, m), timer.popEvent, ?_, ?_, rfl, hintervals, ?_⟩
      · rw [hcallback, if_neg (by simp [hzero])]
        rfl
      · exact ⟨h.unlocked, h.current, hpopped, hstep.ok h.queue, h.sane, fun q hq hq' => by
          rw [hsome]
          exact hpresent q hq hq'⟩
      · rw [hinterval, if_pos hzero]
        exact hperm.map bare
    · have hcurrent : (w.1.setTimer core timer.popEvent).currentTimer = core := h.current
      set next := nextEvent timer.executedTicks w.2 e with hnext
      have hschedule : (w.1.setTimer core timer.popEvent).scheduleEvent
          (nsToCycles kt.intervalDelay - toInt (timer.executedTicks - e.time))
          timerCallbackEventType e.userData none false =
            .ok ((w.1.setTimer core timer.popEvent).setTimer core
              (timer.popEvent.pushEvent next)) := by
        have hadvancing := @scheduleEvent_advancing timer.popEvent
          (w.1.setTimer core timer.popEvent)
          (nsToCycles kt.intervalDelay - toInt (timer.executedTicks - e.time))
          timerCallbackEventType e.userData hloop.unlocked (by rw [hcurrent]; exact hpopped)
          hloop.sane
        rw [hcurrent] at hadvancing
        rw [hadvancing, hnext, nextEvent, hinterval]
        rfl
      refine ⟨((w.1.setTimer core timer.popEvent).setTimer core (timer.popEvent.pushEvent next), m),
        timer.popEvent.pushEvent next, ?_, ⟨h.unlocked, h.current, ?_, (hstep.ok h.queue).pushEvent,
          h.sane, ?_⟩, rfl, hintervals, ?_⟩
      · rw [hcallback, if_pos hzero, hschedule, ok_bind]
        rfl
      · have hlt' : core < (w.1.timers.set core timer.popEvent).length := by
          rw [List.length_set]
          exact hlt
        exact List.getElem?_set_self hlt'
      · intro q hq hq'
        have hq := (pushEvent_perm timer.popEvent next).mem_iff.mp hq
        rw [hsome]
        rcases List.mem_cons.mp hq with rfl | hold
        · exact h.present e (by rw [hqueue]; exact List.mem_cons_self) htype
        · exact hpresent q hold hq'
      · rw [hinterval, if_neg hzero]
        have hpush := (pushEvent_perm timer.popEvent next).map bare
        rw [List.map_cons] at hpush
        exact hpush.trans ((hperm.map bare).cons next)
  · refine ⟨(w.1.setTimer core timer.popEvent, w.2), timer.popEvent, ?_, hloop, rfl, fun _ => rfl,
      ?_⟩
    · unfold TimerManager.timerCallback
      rw [if_neg htype]
      rfl
    · have hinterval : intervalOf w.2 e = 0 := by
        unfold intervalOf
        rw [if_neg htype]
      rw [hinterval, if_pos rfl]
      exact hperm.map bare

end Turns

/-! ## The loop -/

open Classical in
/-- How often an event is called back, if it is finitely often. -/
noncomputable def firings {ω : Type} (executed : ℤ) (m : TimerManager ω)
    (e : Event KernelEventType) : ℕ :=
  if h : ∃ n, CalledBack executed (intervalOf m e) e.time n then h.choose else 0

/-- All events are called back finitely often. -/
def FinitelyOften {ω : Type} (executed : ℤ) (m : TimerManager ω)
    (events : List (Event KernelEventType)) : Prop :=
  ∀ e ∈ events, ∃ n, CalledBack executed (intervalOf m e) e.time n

section Loop

variable {ω : Type} {wake : ℕ → ω → Bool × ω} {core fuel : ℕ} {executed : ℤ}
  {m m' : TimerManager ω} {w r : Timing KernelEventType × TimerManager ω}
  {timer : Timer KernelEventType} {e : Event KernelEventType}
  {rest events : List (Event KernelEventType)}

theorem firings_eq {n : ℕ} (h : CalledBack executed (intervalOf m e) e.time n) :
    firings executed m e = n := by
  have hex : ∃ n, CalledBack executed (intervalOf m e) e.time n := ⟨n, h⟩
  rw [firings, dif_pos hex]
  exact hex.choose_spec.unique h

theorem finitelyOften_bare :
    FinitelyOften executed m (events.map bare) ↔ FinitelyOften executed m events := by
  unfold FinitelyOften
  rw [List.forall_mem_map]
  rfl

theorem firings_bare : ((events.map bare).map (firings executed m)).sum =
    (events.map (firings executed m)).sum := by
  rw [List.map_map]
  rfl

/-- The intervals are all that matters of the timers. -/
theorem finitelyOften_congr (h : ∀ e, intervalOf m' e = intervalOf m e) :
    FinitelyOften executed m' events ↔ FinitelyOften executed m events := by
  unfold FinitelyOften
  simp only [h]

theorem firings_congr (h : ∀ e, intervalOf m' e = intervalOf m e) :
    firings executed m' = firings executed m := by
  funext e
  unfold firings
  rw [h]

/-- The next event is about the same timer. -/
theorem intervalOf_nextEvent (h : intervalOf m e ≠ 0) :
    intervalOf m (nextEvent executed m e) = intervalOf m e := by
  have htype : e.type = timerCallbackEventType := by
    by_contra hne
    exact h (by unfold intervalOf; rw [if_neg hne])
  unfold intervalOf nextEvent
  rw [if_pos htype, if_pos rfl]

/-- What a turn puts into the queue is called back finitely often exactly when what it takes from
the queue is, and once less. -/
theorem turn_finitelyOften (hdue : e.time ≤ executed) :
    (FinitelyOften executed m (if intervalOf m e = 0 then [] else [nextEvent executed m e]) ↔
      FinitelyOften executed m [e]) ∧
      (FinitelyOften executed m [e] →
        ((if intervalOf m e = 0 then [] else [nextEvent executed m e]).map
          (firings executed m)).sum + 1 = firings executed m e) := by
  by_cases hzero : intervalOf m e = 0
  · have honce : CalledBack executed (intervalOf m e) e.time 1 := .once hdue hzero
    rw [if_pos hzero, firings_eq honce]
    refine ⟨⟨fun _ q hq => ?_, fun _ q hq => by cases hq⟩, fun _ => rfl⟩
    rw [List.mem_singleton.mp hq]
    exact ⟨1, honce⟩
  · have hsame : intervalOf m (nextEvent executed m e) = intervalOf m e :=
      intervalOf_nextEvent hzero
    rw [if_neg hzero]
    constructor
    · unfold FinitelyOften
      rw [List.forall_mem_singleton, List.forall_mem_singleton, hsame]
      constructor
      · rintro ⟨n, hn⟩
        exact ⟨n + 1, .again hdue hzero hn⟩
      · rintro ⟨n, hn⟩
        cases hn with
        | waits hwaits => omega
        | once _ heq => exact absurd heq hzero
        | again _ _ hrest => exact ⟨_, hrest⟩
    · intro h
      obtain ⟨n, hn⟩ := h e List.mem_cons_self
      rw [firings_eq hn]
      cases hn with
      | waits hwaits => omega
      | once _ heq => exact absurd heq hzero
      | @again _ k _ _ hrest =>
        have hnext : CalledBack executed (intervalOf m (nextEvent executed m e))
            (nextEvent executed m e).time k := by
          rw [hsame]
          exact hrest
        rw [List.map_cons, List.map_nil, List.sum_singleton, firings_eq hnext]

/-- The loop at an event that is due. -/
theorem advanceLoop_due (hget : w.1.timers[core]? = some timer)
    (hqueue : timer.eventQueue = e :: rest) (hdue : e.time ≤ timer.executedTicks) :
    Timing.advanceLoop (TimerManager.timerCallback wake) core (fuel + 1) w =
      (do
        let r ← TimerManager.timerCallback wake e (toInt (timer.executedTicks - e.time))
          (w.1.setTimer core timer.popEvent, w.2)
        Timing.advanceLoop (TimerManager.timerCallback wake) core fuel r) := by
  obtain ⟨t, m⟩ := w
  rw [Timing.advanceLoop, getTimer_eq_ok.mpr hget, ok_bind, hqueue]
  exact if_pos hdue

/-- The first event of a queue is due, or the loop is done. -/
theorem done_or_due (timer : Timer KernelEventType) :
    (∀ e ∈ timer.eventQueue.head?, timer.executedTicks < e.time) ∨
      ∃ e rest, timer.eventQueue = e :: rest ∧ e.time ≤ timer.executedTicks := by
  cases hqueue : timer.eventQueue with
  | nil => exact Or.inl fun e he => by cases he
  | cons e rest =>
    rcases le_or_gt e.time timer.executedTicks with hdue | hlater
    · exact Or.inr ⟨e, rest, rfl, hdue⟩
    · refine Or.inl fun q hq => ?_
      cases hq
      exact hlater

/-- The loop with no event that is due. -/
theorem advanceLoop_done (hget : w.1.timers[core]? = some timer)
    (hdone : ∀ e ∈ timer.eventQueue.head?, timer.executedTicks < e.time) :
    Timing.advanceLoop (TimerManager.timerCallback wake) core (fuel + 1) w = .ok w := by
  obtain ⟨t, m⟩ := w
  rw [Timing.advanceLoop, getTimer_eq_ok.mpr hget, ok_bind]
  cases hqueue : timer.eventQueue with
  | nil => rfl
  | cons e rest =>
    have hlater : timer.executedTicks < e.time := hdone e (by rw [hqueue]; rfl)
    exact if_neg (by omega)

/-- The events of a queue whose first one is not due. -/
theorem finitelyOften_done (hqueue : QueueOk timer)
    (hdone : ∀ e ∈ timer.eventQueue.head?, timer.executedTicks < e.time) :
    FinitelyOften timer.executedTicks m timer.eventQueue := by
  intro e he
  cases hevents : timer.eventQueue with
  | nil =>
    rw [hevents] at he
    cases he
  | cons front rest =>
    have hlater : timer.executedTicks < front.time := hdone front (by rw [hevents]; rfl)
    have hheap := hqueue.heap
    rw [hevents] at hheap he
    have hle : front.time ≤ e.time := by
      rcases List.mem_cons.mp he with rfl | hrest
      · exact le_refl _
      · have hkey := key_le_iff.mp (hheap.first_le e hrest)
        omega
    exact ⟨0, .waits (by omega)⟩

/-- A turn at the first event of a queue. -/
theorem turn_queue {timer' : Timer KernelEventType} (hqueue : timer.eventQueue = e :: rest)
    (hdue : e.time ≤ timer.executedTicks) (hintervals : ∀ e, intervalOf m' e = intervalOf m e)
    (hperm : (timer'.eventQueue.map bare).Perm
      ((if intervalOf m e = 0 then [] else [nextEvent timer.executedTicks m e]) ++
        rest.map bare)) :
    (FinitelyOften timer.executedTicks m' timer'.eventQueue ↔
      FinitelyOften timer.executedTicks m timer.eventQueue) ∧
      (FinitelyOften timer.executedTicks m timer.eventQueue →
        (timer'.eventQueue.map (firings timer.executedTicks m')).sum + 1 =
          (timer.eventQueue.map (firings timer.executedTicks m)).sum) := by
  obtain ⟨hsame, hless⟩ := turn_finitelyOften (m := m) hdue
  have hbare : FinitelyOften timer.executedTicks m (rest.map bare) ↔
      FinitelyOften timer.executedTicks m rest := finitelyOften_bare
  have happend : ∀ xs ys : List (Event KernelEventType),
      FinitelyOften timer.executedTicks m (xs ++ ys) ↔
        FinitelyOften timer.executedTicks m xs ∧ FinitelyOften timer.executedTicks m ys :=
    fun _ _ => List.forall_mem_append
  have hsplit : FinitelyOften timer.executedTicks m timer.eventQueue ↔
      FinitelyOften timer.executedTicks m [e] ∧ FinitelyOften timer.executedTicks m rest := by
    rw [hqueue, ← List.singleton_append]
    exact happend _ _
  constructor
  · rw [finitelyOften_congr hintervals, ← finitelyOften_bare, hsplit, ← hsame, ← hbare, ← happend]
    exact ⟨fun h q hq => h q (hperm.mem_iff.mpr hq), fun h q hq => h q (hperm.mem_iff.mp hq)⟩
  · intro h
    have hone := hless (hsplit.mp h).1
    rw [firings_congr hintervals, ← firings_bare, (hperm.map _).sum_eq, List.map_append,
      List.sum_append, firings_bare, hqueue, List.map_cons, List.sum_cons]
    omega

/-- A loop that comes to its end has called every event back finitely often. -/
theorem finitelyOften_of_loop (h : InLoop core w timer)
    (hloop : Timing.advanceLoop (TimerManager.timerCallback wake) core fuel w = .ok r) :
    FinitelyOften timer.executedTicks w.2 timer.eventQueue := by
  induction fuel generalizing w timer with
  | zero => cases hloop
  | succ fuel ih =>
    rcases done_or_due timer with hdone | ⟨e, rest, hqueue, hdue⟩
    · exact finitelyOften_done h.queue hdone
    · obtain ⟨w', timer', hturn, h', hticks, hintervals, hperm⟩ := turn wake h hqueue
      rw [advanceLoop_due h.lookup hqueue hdue, hturn, ok_bind] at hloop
      have hrest := ih h' hloop
      rw [hticks] at hrest
      exact (turn_queue hqueue hdue hintervals hperm).1.mp hrest

/-- And where every event is called back finitely often, the loop comes to its end, by induction on
the number of callbacks. -/
theorem loop_of_finitelyOften (h : InLoop core w timer)
    (hfinite : FinitelyOften timer.executedTicks w.2 timer.eventQueue) :
    ∃ fuel r timer', Timing.advanceLoop (TimerManager.timerCallback wake) core fuel w = .ok r ∧
      InLoop core r timer' := by
  generalize hn : (timer.eventQueue.map (firings timer.executedTicks w.2)).sum = n
  induction n generalizing w timer with
  | zero =>
    rcases done_or_due timer with hdone | ⟨e, rest, hqueue, hdue⟩
    · exact ⟨1, w, timer, advanceLoop_done h.lookup hdone, h⟩
    · obtain ⟨w', timer', hturn, h', hticks, hintervals, hperm⟩ := turn wake h hqueue
      have hless := (turn_queue hqueue hdue hintervals hperm).2 hfinite
      omega
  | succ n ih =>
    rcases done_or_due timer with hdone | ⟨e, rest, hqueue, hdue⟩
    · exact ⟨1, w, timer, advanceLoop_done h.lookup hdone, h⟩
    · obtain ⟨w', timer', hturn, h', hticks, hintervals, hperm⟩ := turn wake h hqueue
      obtain ⟨hsame, hless⟩ := turn_queue hqueue hdue hintervals hperm
      have hfinite' := hsame.mpr hfinite
      have hcount := hless hfinite
      rw [hn] at hcount
      rw [← hticks] at hfinite' hcount
      obtain ⟨fuel, r, timer'', hloop, hr⟩ := ih h' hfinite' (by omega)
      refine ⟨fuel + 1, r, timer'', ?_, hr⟩
      rw [advanceLoop_due h.lookup hqueue hdue, hturn, ok_bind]
      exact hloop

end Loop

/-! ## Whole advances -/

section Advances

variable {ω : Type} {wake : ℕ → ω → Bool × ω} {core : ℕ}
  {w w' : Timing KernelEventType × TimerManager ω} {timer : Timer KernelEventType}

/-- The loop begins with all events that wait for the timer. -/
theorem inLoop_begin (h : Armed core w timer) :
    InLoop core (w.1.setTimer core timer.beginAdvance, w.2) timer.beginAdvance ∧
      timer.beginAdvance.executedTicks = reachedTime timer ∧
      (timer.beginAdvance.eventQueue.map bare).Perm (waitingEvents timer) := by
  have hlt : core < w.1.timers.length := (List.getElem?_eq_some_iff.mp h.lookup).1
  obtain ⟨hqueue, hperm, -, hticks⟩ := beginAdvance_spec ⟨h.heap, h.numbered, h.distinct⟩
  refine ⟨⟨h.unlocked, h.current, List.getElem?_set_self hlt, hqueue, rfl, ?_⟩, hticks, hperm⟩
  intro e he htype
  have hbare : bare e ∈ waitingEvents timer := hperm.mem_iff.mp (List.mem_map_of_mem he)
  obtain ⟨q, hq, hsame⟩ := List.mem_map.mp hbare
  have htype' : (bare q).type = (bare e).type := congrArg Event.type hsame
  have huser : (bare q).userData = (bare e).userData := congrArg Event.userData hsame
  have hpresent := h.present q hq (htype'.trans htype)
  rwa [show q.userData = e.userData from huser] at hpresent

/-- The events that wait for the timer, as the loop begins. -/
theorem finitelyOften_begin (h : Armed core w timer) :
    FinitelyOften timer.beginAdvance.executedTicks w.2 timer.beginAdvance.eventQueue ↔
      TimersOvertake w.2 timer := by
  obtain ⟨-, hticks, hperm⟩ := inLoop_begin h
  have hwaiting : FinitelyOften timer.beginAdvance.executedTicks w.2 (waitingEvents timer) ↔
      FinitelyOften timer.beginAdvance.executedTicks w.2 (timer.eventQueue ++ timer.tsQueue) :=
    finitelyOften_bare
  rw [← finitelyOften_bare]
  constructor
  · intro hfinite e he
    have hall := hwaiting.mp fun q hq => hfinite q (hperm.mem_iff.mpr hq)
    rw [hticks] at hall
    exact calledBack_iff.mp (hall e he)
  · intro hovertake q hq
    refine hwaiting.mpr (fun e he => ?_) q (hperm.mem_iff.mp hq)
    rw [hticks]
    exact calledBack_iff.mpr (hovertake e he)

/-- An `Advance` comes to its end only if its loop does. -/
theorem finitelyOften_of_advance (h : Armed core w timer)
    (hfinite : FinitelyManyCallbacks wake core w) :
    FinitelyOften timer.beginAdvance.executedTicks w.2 timer.beginAdvance.eventQueue := by
  obtain ⟨fuel, w', hadvance⟩ := hfinite
  obtain ⟨t, hmodify, hrest⟩ := bind_eq_ok.mp hadvance
  obtain ⟨timer', hget, hset⟩ := bind_eq_ok.mp hmodify
  have hsame : some timer = some timer' := h.lookup.symm.trans (getTimer_eq_ok.mp hget)
  cases hsame
  cases hset
  obtain ⟨r, hloop, -⟩ := bind_eq_ok.mp hrest
  exact finitelyOften_of_loop (w := (w.1.setTimer core timer.beginAdvance, w.2))
    (inLoop_begin h).1 hloop

/-- And if its loop does, it comes to its end. -/
theorem advance_of_finitelyOften (h : Armed core w timer)
    (hfinite : FinitelyOften timer.beginAdvance.executedTicks w.2 timer.beginAdvance.eventQueue) :
    FinitelyManyCallbacks wake core w := by
  obtain ⟨fuel, r, timer', hloop, hr⟩ : ∃ fuel r timer',
      Timing.advanceLoop (TimerManager.timerCallback wake) core fuel
        (w.1.setTimer core timer.beginAdvance, w.2) = .ok r ∧ InLoop core r timer' :=
    loop_of_finitelyOften (inLoop_begin h).1 hfinite
  refine ⟨fuel, (r.1.setTimer core { timer' with isTimerSane := false }, r.2), ?_⟩
  refine bind_eq_ok.mpr ⟨w.1.setTimer core timer.beginAdvance, ?_, ?_⟩
  · exact bind_eq_ok.mpr ⟨timer, getTimer_eq_ok.mpr h.lookup, rfl⟩
  · refine bind_eq_ok.mpr ⟨r, hloop, ?_⟩
    refine bind_eq_ok.mpr ⟨r.1.setTimer core { timer' with isTimerSane := false }, ?_, rfl⟩
    exact bind_eq_ok.mpr ⟨timer', getTimer_eq_ok.mpr hr.lookup, rfl⟩

/-- Where nothing leaves the range of an `s64`, a due timer overtakes the executed time exactly when
its interval is at least a cycle, or its lateness is negative as an `int`. -/
theorem overtakes_iff {executed interval time : ℤ} (h : 0 ≤ interval) (h' : interval < 2 ^ 63)
    (hlo : -2 ^ 63 + 2 ^ 31 ≤ executed)
    (hhi : executed + nsToCycles interval + 2 ^ 31 ≤ 2 ^ 63 - 1) :
    Overtakes executed interval time ↔
      interval = 0 ∨ 4 ≤ interval ∨ toInt (executed - time) < 0 := by
  have hcycles : 0 ≤ nsToCycles interval ∧ (1 ≤ nsToCycles interval ↔ 4 ≤ interval) := by
    rcases le_or_gt interval maxValueToMultiply with hsmall | hlarge
    · rw [nsToCycles_formulas.small interval h hsmall]
      unfold baseClockRate
      omega
    · have hseconds : interval / 1000000000 ≤ maxValueToMultiply := by
        unfold maxValueToMultiply baseClockRate
        omega
      rw [nsToCycles_formulas.rounded interval h' hlarge hseconds]
      unfold maxValueToMultiply baseClockRate at *
      omega
  obtain ⟨hnonneg, hfour⟩ := hcycles
  set c := nsToCycles interval with hc
  have hfits : ∀ late : ℤ, -2 ^ 31 ≤ late → late < 2 ^ 31 →
      (executed < toS64 (executed + c - late) ↔ late < c) := by
    intro late hlate hlate'
    rw [toS64_of_range (by omega) (by omega)]
    omega
  unfold Overtakes
  rw [← hc]
  refine or_congr_right ?_
  have hlate : -2 ^ 31 ≤ toInt (executed - time) := Int.le_bmod (by decide)
  have hlate' : toInt (executed - time) < 2 ^ 31 := Int.bmod_lt (by decide)
  constructor
  · rintro ⟨late, hlo, hhi, hdvd, hlt⟩
    have hlt := (hfits late hlo hhi).mp hlt
    by_cases hzero : c = 0
    · -- the lateness stays what it is
      rw [hzero, Int.gcd_zero_left] at hdvd
      have heq : toInt (executed - time) - late = 0 :=
        Int.eq_zero_of_abs_lt_dvd hdvd (by rw [abs_lt]; norm_num; omega)
      omega
    · exact Or.inl (hfour.mp (by omega))
  · rintro (hpos | hneg)
    · have hc1 := hfour.mpr hpos
      -- the least lateness that is not negative, or the lateness itself where all is one class
      set g : ℤ := (Int.gcd c (2 ^ 32) : ℤ) with hg
      have hgpos : 0 < g := by
        have := Int.gcd_pos_of_ne_zero_left (2 ^ 32) (show c ≠ 0 by omega)
        omega
      have hgc : g ≤ c := Int.le_of_dvd (by omega) (Int.gcd_dvd_left c _)
      by_cases hsmall : g ≤ 2 ^ 31
      · refine ⟨toInt (executed - time) % g, ?_, ?_, Int.dvd_self_sub_emod, ?_⟩
        · have := Int.emod_nonneg (toInt (executed - time)) hgpos.ne'
          omega
        · have := Int.emod_lt_of_pos (toInt (executed - time)) hgpos
          omega
        · have hnn := Int.emod_nonneg (toInt (executed - time)) hgpos.ne'
          have hlt := Int.emod_lt_of_pos (toInt (executed - time)) hgpos
          exact (hfits _ (by omega) (by omega)).mpr (by omega)
      · exact ⟨_, hlate, hlate', by simp, (hfits _ hlate hlate').mpr (by omega)⟩
    · exact ⟨_, hlate, hlate', by simp, (hfits _ hlate hlate').mpr (by omega)⟩

end Advances

/-! ## Setting timers -/

section Setting

variable {ω : Type} {wake : ℕ → ω → Bool × ω} {core callbackId : ℕ}
  {w w' : Timing KernelEventType × TimerManager ω} {timer : Timer KernelEventType}

/-- No timer goes away. -/
theorem armed_table (h : Armed core w timer) {m : TimerManager ω}
    (hkept : ∀ u, (w.2.timerCallbackTable u).isSome → (m.timerCallbackTable u).isSome) :
    Armed core (w.1, m) timer :=
  ⟨h.unlocked, h.current, h.lookup, h.heap, h.numbered, h.distinct,
    fun e he htype => hkept _ (h.present e he htype)⟩

theorem armed_erase (h : Armed core w timer) (type : KernelEventType) (userData : ℕ) :
    ∃ timer', Armed core (w.1.unscheduleEvent type userData, w.2) timer' := by
  obtain ⟨t, m⟩ := w
  set erased : Event KernelEventType → Bool :=
    fun e => decide (e.type = type ∧ e.userData = userData) with herased
  have hunscheduled : t.unscheduleEvent type userData =
      { t with timers := t.timers.map (Timer.eraseEvents erased) } := by
    have hlock : t.eventQueueLocked = false := h.unlocked
    unfold Timing.unscheduleEvent
    rw [if_neg (by simp [hlock])]
  have hstep : TimerStep timer (timer.eraseEvents erased) [] []
      ((timer.eventQueue.filter erased).map bare) [] := timerStep_eraseEvents
  have hok := hstep.ok ⟨h.heap, h.numbered, h.distinct⟩
  rw [hunscheduled]
  refine ⟨timer.eraseEvents erased, h.unlocked, h.current, ?_, hok.heap, hok.numbered, hok.distinct,
    ?_⟩
  · show (t.timers.map _)[core]? = _
    rw [List.getElem?_map, h.lookup]
    rfl
  · intro e he htype
    refine h.present e ?_ htype
    rcases List.mem_append.mp he with hqueue | hts
    · rcases hstep.origin e hqueue with hold | ⟨-, hnew⟩
      · exact List.mem_append_left _ hold
      · cases hnew
    · have hsame : (timer.eraseEvents erased).tsQueue = timer.tsQueue := by
        unfold Timer.eraseEvents
        dsimp only
        split
        · rfl
        · rfl
      rw [hsame] at hts
      exact List.mem_append_right _ hts

theorem armed_schedule {n : ℤ} {t' : Timing KernelEventType} (h : Armed core w timer)
    (hpresent : (w.2.timerCallbackTable callbackId).isSome)
    (hschedule : w.1.scheduleEvent n timerCallbackEventType callbackId none false = .ok t') :
    ∃ timer', Armed core (t', w.2) timer' := by
  have hlt : core < w.1.timers.length := (List.getElem?_eq_some_iff.mp h.lookup).1
  unfold Timing.scheduleEvent at hschedule
  rw [if_neg (by simp [h.unlocked])] at hschedule
  obtain ⟨c, hcore, hschedule⟩ := bind_eq_ok.mp hschedule
  obtain rfl : core = c := h.current.symm.trans (Except.ok.inj hcore)
  obtain ⟨timer₀, hget, hschedule⟩ := bind_eq_ok.mp hschedule
  have hsame : some timer = some timer₀ := h.lookup.symm.trans (getTimer_eq_ok.mp hget)
  cases hsame
  dsimp only at hschedule
  rw [if_neg (by simp), if_pos h.current] at hschedule
  cases hschedule
  set forced := if timer.isTimerSane then timer else timer.forceExceptionCheck n with hforced
  obtain ⟨hqueue, hts, hfifo⟩ : forced.eventQueue = timer.eventQueue ∧
      forced.tsQueue = timer.tsQueue ∧ forced.eventFifoId = timer.eventFifoId := by
    rw [hforced]
    split
    · exact ⟨rfl, rfl, rfl⟩
    · obtain ⟨hqueue, hts, hfifo, -⟩ := forceExceptionCheck_queues timer n
      exact ⟨hqueue, hts, hfifo⟩
  have hok : QueueOk forced := by
    refine ⟨?_, ?_, ?_⟩
    · rw [hqueue]
      exact h.heap
    · rw [hqueue, hfifo]
      exact h.numbered
    · rw [hqueue]
      exact h.distinct
  set e : Event KernelEventType :=
    ⟨toS64 (timer.getTicks + n), 0, callbackId, timerCallbackEventType⟩
  have hpushed : QueueOk (forced.pushEvent e) := hok.pushEvent
  refine ⟨forced.pushEvent e, h.unlocked, h.current, List.getElem?_set_self hlt, hpushed.heap,
    hpushed.numbered, hpushed.distinct, ?_⟩
  intro q hq htype
  rcases List.mem_append.mp hq with hnew | hold
  · rcases List.mem_cons.mp ((pushEvent_perm forced e).mem_iff.mp hnew) with rfl | hold
    · exact hpresent
    · exact h.present q (List.mem_append_left _ (hqueue ▸ hold)) htype
  · exact h.present q (List.mem_append_right _ (hts ▸ hold)) htype

/-- Firing keeps timers armed. -/
theorem armed_signal {cyclesLate : ℤ} (h : Armed core w timer)
    (hsignal : TimerManager.signal wake callbackId cyclesLate w = .ok w') :
    ∃ timer', Armed core w' timer' := by
  obtain ⟨kt, htimer, hrest⟩ := bind_eq_ok.mp hsignal
  have hkt : w.2.timerCallbackTable callbackId = some kt := by
    unfold TimerManager.timerAt at htimer
    split at htimer
    · next hfound =>
      cases htimer
      exact hfound
    · cases htimer
  obtain ⟨-, hsome⟩ := wakeup_intervals wake hkt
  have hwoken := armed_table h fun u hu => (hsome u).trans hu
  dsimp only at hrest
  split at hrest
  · obtain ⟨t', hschedule, hpure⟩ := bind_eq_ok.mp hrest
    cases hpure
    exact armed_schedule hwoken (by rw [hsome, hkt]; rfl) hschedule
  · cases hrest
    exact ⟨timer, hwoken⟩

/-- `svcSetTimer` arms a timer, whatever its delays are. -/
theorem armed_svcSetTimer {initial interval : ℤ} {result : Result} (h : Armed core w timer)
    (hset : TimerManager.svcSetTimer wake callbackId initial interval w = .ok (result, w')) :
    ∃ timer', Armed core w' timer' := by
  unfold TimerManager.svcSetTimer at hset
  split at hset
  · obtain ⟨w₁, hset, hpure⟩ := bind_eq_ok.mp hset
    cases hpure
    unfold TimerManager.set at hset
    obtain ⟨timer₁, harmed⟩ := armed_erase h timerCallbackEventType callbackId
    obtain ⟨kt, htimer, hrest⟩ := bind_eq_ok.mp hset
    have hkept : ∀ (kt : KernelTimer) u, (w.2.timerCallbackTable u).isSome →
        ((w.2.setTimerAt callbackId kt).timerCallbackTable u).isSome := by
      intro kt u hu
      by_cases hsame : u = callbackId
      · simp [TimerManager.setTimerAt, hsame]
      · simpa [TimerManager.setTimerAt, hsame] using hu
    have harmed' := armed_table harmed
      (hkept { kt with initialDelay := initial, intervalDelay := interval })
    dsimp only at hrest
    split at hrest
    · exact armed_signal harmed' hrest
    · obtain ⟨t', hschedule, hpure⟩ := bind_eq_ok.mp hrest
      cases hpure
      exact armed_schedule harmed' (by simp [TimerManager.setTimerAt]) hschedule
  · cases hset
    exact ⟨timer, h⟩

/-- One core, with one event that waits for its timer. -/
theorem armed_single {e : Event KernelEventType} {m : TimerManager ω}
    (hqueue : timer.eventQueue = [e]) (hts : timer.tsQueue = [])
    (hfifo : e.fifoOrder < timer.eventFifoId)
    (hpresent : (m.timerCallbackTable e.userData).isSome) :
    Armed 0 (⟨[timer], 0, false⟩, m) timer := by
  refine ⟨rfl, rfl, rfl, ?_, ?_, by simp [hqueue], ?_⟩
  · intro i hi a b _ hb
    have hlt := (List.getElem?_eq_some_iff.mp hb).1
    rw [hqueue, List.length_singleton] at hlt
    omega
  · intro q hq
    rw [hqueue] at hq
    rw [List.mem_singleton.mp hq]
    exact hfifo
  · intro q hq _
    rw [hqueue, hts, List.append_nil] at hq
    rw [List.mem_singleton.mp hq]
    exact hpresent

end Setting

/-! ## Advances that come to an end -/

/-- An `Advance` performs finitely many callbacks exactly when every timer that is due overtakes the
time that has been executed. -/
theorem advance_terminates_iff {ω : Type} (wake : ℕ → ω → Bool × ω) (core : ℕ)
    (w : Timing KernelEventType × TimerManager ω) (timer : Timer KernelEventType)
    (h : Armed core w timer) :
    FinitelyManyCallbacks wake core w ↔ TimersOvertake w.2 timer := by
  rw [← finitelyOften_begin h]
  exact ⟨finitelyOften_of_advance h, advance_of_finitelyOften h⟩

/-- A timer with an interval of 1000 nanoseconds that is 32 cycles late. -/
theorem advance_terminates_late :
    FinitelyManyCallbacks (fun _ besides => (true, besides)) 0
      ((⟨[{
          eventQueue := [⟨268, 0, 1, timerCallbackEventType⟩]
          eventFifoId := 1
          downcount := maxSliceLength - 300 }], 0, false⟩ : Timing KernelEventType),
        ({
          timerCallbackTable := Function.update (fun _ => none) 1
            (some { resetType := .sticky, intervalDelay := 1000 })
          besides := () } : TimerManager Unit)) := by
  refine (advance_terminates_iff _ 0 _ _ (armed_single rfl rfl (by decide) rfl)).mpr ?_
  intro e he _
  have he : e ∈ [(⟨268, 0, 1, timerCallbackEventType⟩ : Event KernelEventType)] := he
  rw [List.mem_singleton.mp he]
  exact Or.inr ⟨0, by decide, by decide, by decide, by decide⟩

/-- A timer that is set to 1000 nanoseconds and an interval of one, and an `Advance` 300 cycles
later: 268 cycles after it was set the timer fires again and again. -/
theorem advance_forever :
    ∃ w, (do
      let manager := TimerManager.createTimer .sticky ({ besides := () } : TimerManager Unit)
      let (_, w) ← TimerManager.svcSetTimer (fun _ besides => (true, besides)) 1 1000 1
        (Timing.new 1 0, manager)
      let timing ← w.1.modifyTimer 0 (Timer.addTicks 300)
      pure (timing, w.2)) = Except.ok w ∧
      ¬ FinitelyManyCallbacks (fun _ besides => (true, besides)) 0 w := by
  set e : Event KernelEventType := ⟨268, 0, 1, timerCallbackEventType⟩ with he
  set timer : Timer KernelEventType :=
    { eventQueue := [e], eventFifoId := 1, downcount := maxSliceLength - 300 } with htimer
  set created : KernelTimer := { resetType := .sticky }
  set kt : KernelTimer := { created with initialDelay := 1000, intervalDelay := 1 } with hkt
  set manager : TimerManager Unit :=
    { nextTimerCallbackId := 1
      timerCallbackTable := Function.update (Function.update (fun _ => none) 1 (some created)) 1
        (some kt)
      besides := () } with hmanager
  have hinterval : intervalOf manager e = 1 := by
    simp [intervalOf, hmanager, he, hkt]
  refine ⟨(⟨[timer], 0, false⟩, manager), rfl, fun hfinite => ?_⟩
  have harmed : Armed 0 (⟨[timer], 0, false⟩, manager) timer :=
    armed_single rfl rfl (by decide) rfl
  have hovertake := (finitelyOften_begin harmed).mp (finitelyOften_of_advance harmed hfinite)
  have hnever : ∀ n, ¬ CalledBack 300 1 268 n := by
    intro n
    induction n with
    | zero =>
      intro h
      cases h with
      | waits h => omega
    | succ n ih =>
      intro h
      cases h with
      | once _ hzero => omega
      | again _ _ hrest => exact ih hrest
  obtain ⟨n, hn⟩ := calledBack_iff.mpr (hovertake e List.mem_cons_self)
  rw [hinterval] at hn
  exact hnever n hn

/-! ## Runs -/

/-- Timers are set one after the other, each to an initial delay and an interval. -/
def setTimers {ω : Type} (wake : ℕ → ω → Bool × ω) :
    List (ℕ × ℤ × ℤ) → Timing KernelEventType × TimerManager ω →
      Exec (Timing KernelEventType × TimerManager ω)
  | [], w => pure w
  | (callbackId, initial, interval) :: calls, w => do
      let (_, w) ← TimerManager.svcSetTimer wake callbackId initial interval w
      setTimers wake calls w

/-- No time comes near the bounds of an `s64`. -/
def TimesFit {ω : Type} (m : TimerManager ω) (timer : Timer KernelEventType) : Prop :=
  -2 ^ 63 + 2 ^ 31 ≤ reachedTime timer ∧ ∀ e ∈ timer.eventQueue ++ timer.tsQueue,
    0 ≤ intervalOf m e ∧ intervalOf m e < 2 ^ 63 ∧
      reachedTime timer + nsToCycles (intervalOf m e) + 2 ^ 31 ≤ 2 ^ 63 - 1

/-- Whatever the timers are set to, they stay armed, and as long as the times fit an `Advance` then
comes to its end exactly when each timer that is due has no interval or one of four nanoseconds or
more, or its lateness is negative as an `int`. -/
theorem setTimers_terminate_iff {ω : Type} (wake : ℕ → ω → Bool × ω) (core : ℕ)
    (calls : List (ℕ × ℤ × ℤ)) (w w' : Timing KernelEventType × TimerManager ω)
    (timer : Timer KernelEventType) (h : Armed core w timer)
    (hset : setTimers wake calls w = .ok w') :
    ∃ timer', Armed core w' timer' ∧ (TimesFit w'.2 timer' →
      (FinitelyManyCallbacks wake core w' ↔
        ∀ e ∈ timer'.eventQueue ++ timer'.tsQueue, e.time ≤ reachedTime timer' →
          intervalOf w'.2 e = 0 ∨ 4 ≤ intervalOf w'.2 e ∨
            toInt (reachedTime timer' - e.time) < 0)) := by
  induction calls generalizing w timer with
  | nil =>
    cases hset
    refine ⟨timer, h, fun hfits => ?_⟩
    have hends : FinitelyManyCallbacks wake core w' ↔ TimersOvertake w'.2 timer := by
      rw [← finitelyOften_begin h]
      exact ⟨finitelyOften_of_advance h, advance_of_finitelyOften h⟩
    refine hends.trans (forall₂_congr fun e he => imp_congr_right fun _ => ?_)
    obtain ⟨hnonneg, hlt, hhigh⟩ := hfits.2 e he
    exact overtakes_iff hnonneg hlt hfits.1 hhigh
  | cons call calls ih =>
    obtain ⟨r, hcall, hrest⟩ := bind_eq_ok.mp hset
    obtain ⟨timer₁, harmed⟩ := armed_svcSetTimer h hcall
    exact ih r.2 timer₁ harmed hrest

/-- A timer is set to fire every four nanoseconds. -/
theorem setTimers_terminate_iff_everyCycle : ∃ w' timer',
    setTimers (fun _ besides => (true, besides)) [(1, 4, 4)]
      ((⟨[{}], 0, false⟩ : Timing KernelEventType),
        ({ timerCallbackTable := Function.update (fun _ => none) 1 (some { resetType := .sticky })
           besides := () } : TimerManager Unit)) = .ok w' ∧ Armed 0 w' timer' := by
  have harmed : Armed 0 ((⟨[{}], 0, false⟩ : Timing KernelEventType),
      ({ timerCallbackTable := Function.update (fun _ => none) 1 (some { resetType := .sticky })
         besides := () } : TimerManager Unit)) {} := by
    refine ⟨rfl, rfl, rfl, ?_, by simp, by simp, by simp⟩
    intro i hi a b _ hb
    cases hb
  obtain ⟨timer', harmed', -⟩ := setTimers_terminate_iff (fun _ besides => (true, besides)) 0
    [(1, 4, 4)] _ _ {} harmed rfl
  exact ⟨_, timer', rfl, harmed'⟩

end Borked3DS.Analysis
