import Mathlib.Data.Int.Bitwise
import Borked3DS.Analysis.TimingOrder
import Borked3DS.Analysis.CycleConversions
import Borked3DS.Interface.TimingRuns

/-!
# Emulated time goes forward

What one operation does to the clock of a timer, then what a step does to the clocks of all cores,
and from it the whole run.
-/

set_option autoImplicit false

namespace Borked3DS.Analysis

open Borked3DS.Library Borked3DS.Model Borked3DS.Interface

variable {τ : Type}

/-! ## The clock of one timer -/

/-- The time that a timer shows, before it is stored in a `u64`. -/
def shownTime (timer : Timer τ) : ℤ :=
  if timer.isTimerSane then timer.executedTicks else reachedTime timer

/-- What holds of every clock. -/
structure ClockOk (timer : Timer τ) : Prop where
  executed : 0 ≤ timer.executedTicks
  downcount : timer.downcount ≤ timer.sliceLength
  slice : timer.isTimerSane = true → 0 ≤ timer.sliceLength
  fits : timer.sliceLength < 2 ^ 63
  reached : reachedTime timer < 2 ^ 63

/-- A clock that is as it should be goes on so, and shows no earlier time. -/
def Forward (timer timer' : Timer τ) : Prop :=
  ClockOk timer → ClockOk timer' ∧ shownTime timer ≤ shownTime timer'

/-- Two timers with the same clock. -/
structure SameClock (timer timer' : Timer τ) : Prop where
  executed : timer'.executedTicks = timer.executedTicks
  slice : timer'.sliceLength = timer.sliceLength
  downcount : timer'.downcount = timer.downcount
  sane : timer'.isTimerSane = timer.isTimerSane

section Operations

variable {timer timer' timer'' : Timer τ}

theorem Forward.trans (h : Forward timer timer') (h' : Forward timer' timer'') :
    Forward timer timer'' := by
  intro hok
  obtain ⟨hok', hle⟩ := h hok
  obtain ⟨hok'', hle'⟩ := h' hok'
  exact ⟨hok'', hle.trans hle'⟩

theorem SameClock.forward (h : SameClock timer timer') : Forward timer timer' := by
  intro hok
  have hreached : reachedTime timer' = reachedTime timer := by
    unfold reachedTime
    rw [h.executed, h.slice, h.downcount]
  have hshown : shownTime timer' = shownTime timer := by
    unfold shownTime
    rw [h.executed, h.sane, hreached]
  refine ⟨⟨?_, ?_, ?_, ?_, ?_⟩, hshown.ge⟩
  · rw [h.executed]
    exact hok.executed
  · rw [h.downcount, h.slice]
    exact hok.downcount
  · rw [h.sane, h.slice]
    exact hok.slice
  · rw [h.slice]
    exact hok.fits
  · rw [hreached]
    exact hok.reached

theorem Forward.refl (timer : Timer τ) : Forward timer timer :=
  SameClock.forward ⟨rfl, rfl, rfl, rfl⟩

/-- No clock shows a time that it has not reached, or one outside of an `s64`. -/
theorem ClockOk.getTicks (h : ClockOk timer) : timer.getTicks = shownTime timer := by
  have hdowncount := h.downcount
  have hexecuted := h.executed
  have hreached := h.reached
  unfold reachedTime at hreached
  unfold Timer.getTicks shownTime
  split
  · exact toU64_of_range h.executed (by omega)
  · exact toU64_of_range (by omega) (by omega)

theorem pushEvent_sameClock (e : Event τ) : SameClock timer (timer.pushEvent e) :=
  ⟨rfl, rfl, rfl, rfl⟩

theorem moveEvents_sameClock : SameClock timer timer.moveEvents := by
  suffices ∀ (events : List (Event τ)) (timer : Timer τ),
      SameClock timer (events.foldl (fun timer e => timer.pushEvent e) timer) by
    obtain ⟨h₁, h₂, h₃, h₄⟩ := this timer.tsQueue { timer with tsQueue := [] }
    exact ⟨h₁, h₂, h₃, h₄⟩
  intro events
  induction events with
  | nil => exact fun _ => ⟨rfl, rfl, rfl, rfl⟩
  | cons e events ih =>
    intro timer
    obtain ⟨h₁, h₂, h₃, h₄⟩ := ih (timer.pushEvent e)
    exact ⟨h₁, h₂, h₃, h₄⟩

theorem eraseEvents_sameClock (erased : Event τ → Bool) :
    SameClock timer (timer.eraseEvents erased) := by
  unfold Timer.eraseEvents
  dsimp only
  split
  · exact ⟨rfl, rfl, rfl, rfl⟩
  · exact ⟨rfl, rfl, rfl, rfl⟩

/-- The ticks make the time that is reached later. -/
theorem addTicks_forward {ticks : ℕ} (hlo : -2 ^ 63 ≤ timer.downcount - ticks)
    (hhi : reachedTime timer + ticks < 2 ^ 63) : Forward timer (timer.addTicks ticks) := by
  intro hok
  have hdowncount := hok.downcount
  have hexecuted := hok.executed
  have hslice := hok.fits
  unfold reachedTime at hhi
  have hfits : toS64 (timer.downcount - ticks) = timer.downcount - ticks :=
    toS64_of_range hlo (by omega)
  have hcount : (timer.addTicks ticks).downcount = timer.downcount - ticks := hfits
  refine ⟨⟨hok.executed, ?_, hok.slice, hok.fits, ?_⟩, ?_⟩
  · rw [hcount]
    show _ ≤ timer.sliceLength
    omega
  · unfold reachedTime
    rw [hcount]
    show timer.executedTicks + (timer.sliceLength - _) < _
    omega
  · unfold shownTime reachedTime
    rw [hcount]
    show (if timer.isTimerSane then timer.executedTicks else _) ≤
      if timer.isTimerSane then timer.executedTicks
      else timer.executedTicks + (timer.sliceLength - _)
    split
    · exact le_refl _
    · omega

/-- The slice is shortened by as much as the downcount. -/
theorem forceExceptionCheck_forward (cycles : ℤ) :
    Forward timer (timer.forceExceptionCheck cycles) := by
  intro hok
  unfold Timer.forceExceptionCheck
  dsimp only
  split
  · next hlt =>
    have hdowncount := hok.downcount
    have hreached := hok.reached
    unfold reachedTime at hreached
    have hslice := hok.fits
    refine ⟨⟨hok.executed, ?_, fun _ => ?_, ?_, ?_⟩, ?_⟩
    · show max 0 cycles ≤ timer.sliceLength - (timer.downcount - max 0 cycles)
      omega
    · show 0 ≤ timer.sliceLength - (timer.downcount - max 0 cycles)
      omega
    · show timer.sliceLength - (timer.downcount - max 0 cycles) < 2 ^ 63
      omega
    · unfold reachedTime
      dsimp only
      omega
    · unfold shownTime reachedTime
      dsimp only
      split
      · exact le_refl _
      · omega
  · exact ⟨hok, le_refl _⟩

/-- What is left of the slice is passed over. -/
theorem idle_forward (hleft : timer.isTimerSane = true ∨ 0 ≤ timer.downcount)
    (hhi : timer.executedTicks + timer.sliceLength < 2 ^ 63) : Forward timer timer.idle := by
  intro hok
  have hdowncount := hok.downcount
  unfold Timer.idle
  refine ⟨⟨hok.executed, ?_, hok.slice, hok.fits, ?_⟩, ?_⟩
  · show 0 ≤ timer.sliceLength
    rcases hleft with hsane | hleft
    · exact hok.slice hsane
    · omega
  · unfold reachedTime
    dsimp only
    omega
  · unfold shownTime reachedTime
    dsimp only
    split
    · exact le_refl _
    · next hsane =>
      have := hleft.resolve_left hsane
      omega

/-- What was reached is what has been executed when an `Advance` begins. -/
theorem beginAdvance_forward : Forward timer timer.beginAdvance := by
  intro hok
  have hdowncount := hok.downcount
  have hexecuted := hok.executed
  have hreached := hok.reached
  have hmoved : SameClock timer timer.moveEvents := moveEvents_sameClock
  have hticks : timer.beginAdvance.executedTicks = reachedTime timer := by
    show timer.moveEvents.executedTicks +
      (timer.moveEvents.sliceLength - timer.moveEvents.downcount) = _
    rw [hmoved.executed, hmoved.slice, hmoved.downcount]
    rfl
  have hzero : reachedTime timer.beginAdvance = timer.beginAdvance.executedTicks := add_zero _
  refine ⟨⟨?_, le_refl _, fun _ => le_refl _,
    show (0 : ℤ) < 2 ^ 63 by decide, ?_⟩, ?_⟩
  · rw [hticks]
    unfold reachedTime
    omega
  · rw [hzero, hticks]
    exact hreached
  · have hshown : shownTime timer.beginAdvance = timer.beginAdvance.executedTicks := rfl
    rw [hshown, hticks]
    unfold shownTime
    split
    · unfold reachedTime
      omega
    · exact le_refl _

/-- The cast to `int` makes nothing longer. -/
theorem toInt_le {m : ℤ} (h : 0 ≤ m) : toInt m ≤ m := by
  unfold toInt
  rw [Int.bmod_def]
  split <;> omega

/-- The next slice ends with the next event. -/
theorem setNextSlice_le {maxSlice : ℤ} {e : Event τ} {rest : List (Event τ)}
    (hqueue : timer.eventQueue = e :: rest) (hpos : 0 < maxSlice)
    (hdue : timer.executedTicks < e.time) :
    (timer.setNextSlice maxSlice).sliceLength ≤ e.time - timer.executedTicks := by
  have hlength : (timer.setNextSlice maxSlice).sliceLength =
      toInt (min (e.time - timer.executedTicks) maxSlice) := by
    unfold Timer.setNextSlice
    rw [hqueue]
  rw [hlength]
  exact (toInt_le (by omega)).trans (min_le_left _ _)

/-- The next slice fits an `s64`. -/
theorem setNextSlice_fits {maxSlice : ℤ} (h : maxSlice < 2 ^ 63) :
    (timer.setNextSlice maxSlice).sliceLength < 2 ^ 63 := by
  unfold Timer.setNextSlice
  dsimp only
  split
  · exact h
  · unfold toInt
    rw [Int.bmod_def]
    split <;> omega

/-- The end of an `Advance` and the slice that comes with it. -/
theorem nextSlice_forward {maxSlice : ℤ} (hsane : timer.isTimerSane = true)
    (hmax : maxSlice < 2 ^ 63)
    (hscaled : timer.downcountHack = 0 ∨
      0 ≤ (timer.setNextSlice maxSlice).sliceLength ∧
        reachedTime (timer.setNextSlice maxSlice) < 2 ^ 63) :
    Forward timer (Timer.setNextSlice maxSlice { timer with isTimerSane := false }) := by
  intro hok
  set next := Timer.setNextSlice maxSlice { timer with isTimerSane := false } with hnext
  have hcount : next.downcount = next.sliceLength >>> timer.downcountHack := rfl
  have hle : next.downcount ≤ next.sliceLength ∧ reachedTime next < 2 ^ 63 := by
    rcases hscaled with hzero | ⟨hnonneg, hreached⟩
    · have hsame : next.downcount = next.sliceLength := by
        rw [hcount, hzero]
        exact Int.shiftRight_zero _
      refine ⟨hsame.le, ?_⟩
      have hexecuted := hok.reached
      have hdowncount := hok.downcount
      unfold reachedTime at hexecuted ⊢
      rw [hsame]
      show timer.executedTicks + _ < _
      omega
    · refine ⟨?_, hreached⟩
      rw [hcount, Int.shiftRight_eq_div_pow]
      exact Int.ediv_le_self _ hnonneg
  refine ⟨⟨hok.executed, hle.1, fun h => Bool.noConfusion h, ?_, hle.2⟩, ?_⟩
  · exact setNextSlice_fits hmax
  have hshown : shownTime timer = timer.executedTicks := by
    unfold shownTime
    rw [hsane]
    rfl
  have hshown' : shownTime next = reachedTime next := rfl
  rw [hshown, hshown']
  unfold reachedTime
  show timer.executedTicks ≤ timer.executedTicks + _
  omega

end Operations

/-! ## The clocks of all cores -/

/-- A clock goes forward within an `Advance` or outside of one. -/
structure GoesOn (timer timer' : Timer τ) : Prop where
  forward : Forward timer timer'
  sane : timer'.isTimerSane = timer.isTimerSane

/-- A step on the timers of all cores. -/
def OnTimers (r : Timer τ → Timer τ → Prop) (t t' : Timing τ) : Prop :=
  ∀ (core : ℕ) (timer' : Timer τ), t'.timers[core]? = some timer' →
    ∃ timer, t.timers[core]? = some timer ∧ r timer timer'

/-- All clocks are as they should be. -/
def ClocksOk (t : Timing τ) : Prop :=
  ∀ (core : ℕ) (timer : Timer τ), t.timers[core]? = some timer → ClockOk timer

section Cores

variable {r : Timer τ → Timer τ → Prop} {t t' : Timing τ} {core : ℕ} {timer timer' : Timer τ}

theorem SameClock.goesOn (h : SameClock timer timer') : GoesOn timer timer' := ⟨h.forward, h.sane⟩

theorem GoesOn.refl (timer : Timer τ) : GoesOn timer timer := ⟨Forward.refl timer, rfl⟩

theorem OnTimers.refl (hrefl : ∀ timer, r timer timer) (t : Timing τ) : OnTimers r t t :=
  fun _ timer hget => ⟨timer, hget, hrefl timer⟩

theorem OnTimers.forward (h : OnTimers GoesOn t t') : OnTimers Forward t t' := by
  intro core timer' hget'
  obtain ⟨timer, hget, hgoes⟩ := h core timer' hget'
  exact ⟨timer, hget, hgoes.forward⟩

/-- The clocks after a step forward. -/
theorem OnTimers.clocks (h : OnTimers Forward t t') (hok : ClocksOk t) :
    ClocksOk t' ∧ TicksForward t t' := by
  constructor
  · intro core timer' hget'
    obtain ⟨timer, hget, hforward⟩ := h core timer' hget'
    exact (hforward (hok core timer hget)).1
  · intro core timer₀ timer' hget₀ hget'
    obtain ⟨timer, hget, hforward⟩ := h core timer' hget'
    rw [hget₀] at hget
    cases hget
    obtain ⟨hok', hle⟩ := hforward (hok core timer₀ hget₀)
    rw [(hok core timer₀ hget₀).getTicks, hok'.getTicks]
    exact hle

theorem onTimers_setTimer (hrefl : ∀ timer, r timer timer) (hget : t.timers[core]? = some timer)
    (h : r timer timer') : OnTimers r t (t.setTimer core timer') := by
  intro c timer'' hc
  have hset : (t.timers.set core timer')[c]? = some timer'' := hc
  rw [List.getElem?_set] at hset
  split at hset
  · next heq =>
    subst heq
    split at hset
    · cases hset
      exact ⟨timer, hget, h⟩
    · cases hset
  · exact ⟨timer'', hset, hrefl timer''⟩

theorem goesOn_modifyTimer {change : Timer τ → Timer τ} (h : t.modifyTimer core change = .ok t')
    (hchange : ∀ timer, t.timers[core]? = some timer → GoesOn timer (change timer)) :
    OnTimers GoesOn t t' := by
  obtain ⟨timer, hget, hset⟩ := bind_eq_ok.mp h
  cases hset
  have hget := getTimer_eq_ok.mp hget
  exact onTimers_setTimer GoesOn.refl hget (hchange timer hget)

theorem forceExceptionCheck_goesOn (cycles : ℤ) :
    GoesOn timer (timer.forceExceptionCheck cycles) := by
  refine ⟨forceExceptionCheck_forward cycles, ?_⟩
  unfold Timer.forceExceptionCheck
  dsimp only
  split
  · rfl
  · rfl

/-- Scheduling moves no clock: what forces an early end of the slice keeps the time. -/
theorem scheduleEvent_goesOn {n : ℤ} {type : τ} {userData : ℕ} {coreId : Option ℕ} {mode : Bool}
    (h : t.scheduleEvent n type userData coreId mode = .ok t') : OnTimers GoesOn t t' := by
  unfold Timing.scheduleEvent at h
  split at h
  · cases h
    exact OnTimers.refl GoesOn.refl _
  · obtain ⟨core, -, h⟩ := bind_eq_ok.mp h
    obtain ⟨timer, hget, h⟩ := bind_eq_ok.mp h
    have hget := getTimer_eq_ok.mp hget
    dsimp only at h
    split at h
    · cases h
      exact onTimers_setTimer GoesOn.refl hget (SameClock.goesOn ⟨rfl, rfl, rfl, rfl⟩)
    · split at h
      · cases h
        refine onTimers_setTimer GoesOn.refl hget ?_
        have hforced : GoesOn timer
            (if timer.isTimerSane then timer else timer.forceExceptionCheck n) := by
          split
          · exact GoesOn.refl _
          · exact forceExceptionCheck_goesOn n
        exact ⟨hforced.forward.trans (pushEvent_sameClock _).forward, hforced.sane⟩
      · cases h
        exact onTimers_setTimer GoesOn.refl hget (SameClock.goesOn ⟨rfl, rfl, rfl, rfl⟩)

theorem goesOn_erase (erased : Event τ → Bool) :
    OnTimers GoesOn t { t with timers := t.timers.map (Timer.eraseEvents erased) } := by
  intro core timer' hget'
  have hmap : (t.timers.map (Timer.eraseEvents erased))[core]? = some timer' := hget'
  rw [List.getElem?_map] at hmap
  obtain ⟨timer, hget, rfl⟩ := Option.map_eq_some_iff.mp hmap
  exact ⟨timer, hget, (eraseEvents_sameClock erased).goesOn⟩

end Cores

/-! ## Steps -/

section Steps

variable [DecidableEq τ] {s s' : TimingRun τ}

/-- A call that counts forward. -/
theorem call_goesOn {c : TimingCall τ} (hc : CountsForward s (.call c))
    (hslice : ∀ core n, c ≠ .setNextSlice core n) {t' : Timing τ}
    (h : c.program s.timing = .ok t') : OnTimers GoesOn s.timing t' := by
  cases c with
  | scheduleEvent n type userData coreId mode => exact scheduleEvent_goesOn h
  | unscheduleEvent type userData =>
    cases h
    unfold Timing.unscheduleEvent
    split
    · exact OnTimers.refl GoesOn.refl _
    · exact goesOn_erase _
  | removeEvent type =>
    cases h
    unfold Timing.removeEvent
    split
    · exact OnTimers.refl GoesOn.refl _
    · exact goesOn_erase _
  | addTicks core ticks =>
    refine goesOn_modifyTimer h fun timer hget => ?_
    obtain ⟨hlo, hhi⟩ := hc timer hget
    exact ⟨addTicks_forward hlo hhi, rfl⟩
  | setNextSlice core n => exact absurd rfl (hslice core n)
  | idle core =>
    refine goesOn_modifyTimer h fun timer hget => ?_
    obtain ⟨hleft, hhi⟩ := hc timer hget
    exact ⟨idle_forward hleft hhi, rfl⟩
  | setDowncountHack core hack =>
    exact goesOn_modifyTimer h fun timer _ => SameClock.goesOn ⟨rfl, rfl, rfl, rfl⟩
  | setCurrentTimer core =>
    obtain ⟨-, -, hpure⟩ := bind_eq_ok.mp h
    cases hpure
    exact OnTimers.refl GoesOn.refl _

/-- A call that is a step is no `SetNextSlice`. -/
theorem clockStep_call {c : TimingCall τ} (h : clockStep s (.call c) = .ok s') :
    (∀ core n, c ≠ .setNextSlice core n) ∧ timingStep s (.call c) = .ok s' := by
  cases c with
  | setNextSlice core n => cases h
  | _ => exact ⟨fun _ _ => by simp, h⟩

/-- What the end of an `Advance` and the next slice leave. -/
theorem nextSlice_step {maxSlice : ℤ} (h : clockStep s (.endAdvance maxSlice) = .ok s') :
    ∃ core timer, s.advancing = some core ∧ s.timing.timers[core]? = some timer ∧
      dueEvent timer = none ∧ s'.advancing = none ∧
      s'.timing = s.timing.setTimer core
        (Timer.setNextSlice maxSlice { timer with isTimerSane := false }) := by
  cases hadvancing : s.advancing with
  | none =>
    unfold clockStep at h
    rw [hadvancing] at h
    cases h
  | some core =>
    unfold clockStep at h
    rw [hadvancing] at h
    obtain ⟨s₁, hend, hnext⟩ := bind_eq_ok.mp h
    obtain ⟨c, timer, hcore, hget, hdue, rfl⟩ := endAdvance_step hend
    rw [hadvancing] at hcore
    cases hcore
    obtain ⟨t', hprogram, rfl⟩ := call_spec hnext
    obtain ⟨timer', hget', hset⟩ := bind_eq_ok.mp hprogram
    have hlt : core < s.timing.timers.length := (List.getElem?_eq_some_iff.mp hget).1
    have hsame : (s.timing.timers.set core { timer with isTimerSane := false })[core]? =
        some timer' := getTimer_eq_ok.mp hget'
    rw [List.getElem?_set_self hlt] at hsame
    cases hsame
    cases hset
    refine ⟨core, timer, rfl, hget, hdue, rfl, ?_⟩
    show ({ s.timing with timers := (s.timing.timers.set core _).set core _ } : Timing τ) = _
    rw [List.set_set]
    rfl

/-- The steps of the clocks keep what the steps of the timing keep. -/
theorem timingInv_clockStep {st : ClockStep τ} (h : TimingInv s) (hstep : clockStep s st = .ok s') :
    TimingInv s' := by
  cases st with
  | call c => exact timingInv_step h (clockStep_call hstep).2
  | forceExceptionCheck core cycles =>
    obtain ⟨t', hmodify, hpure⟩ := bind_eq_ok.mp hstep
    cases hpure
    have hcores : CoresStep s.timing t' [] := coresStep_modifyTimer hmodify fun timer => by
      obtain ⟨hqueue, hts, hfifo, hticks⟩ := forceExceptionCheck_queues timer cycles
      exact timerStep_same hqueue hts hfifo hticks
    constructor
    · exact hcores.locked.trans h.unlocked
    · intro c timer' hget'
      obtain ⟨timer, hget, htimer⟩ := hcores.timers c timer' hget'
      exact htimer.ok (h.queues c timer hget)
    · exact eventsOnce_step h.once (List.append_nil _).symm hcores
    · intro c hc
      show c < t'.timers.length
      rw [hcores.cores]
      exact h.core c hc
  | beginAdvance core =>
    have hbegin : timingStep s (.beginAdvance core) = .ok s' := hstep
    exact timingInv_step h hbegin
  | invoke =>
    have hinvoke : timingStep s .invoke = .ok s' := hstep
    exact timingInv_step h hinvoke
  | endAdvance maxSlice =>
    cases hadvancing : s.advancing with
    | none =>
      unfold clockStep at hstep
      rw [hadvancing] at hstep
      cases hstep
    | some core =>
      unfold clockStep at hstep
      rw [hadvancing] at hstep
      obtain ⟨s₁, hend, hnext⟩ := bind_eq_ok.mp hstep
      exact timingInv_step (timingInv_step h hend) hnext

/-- What holds in every state of a run that counts forward. -/
structure ClockInv (s : TimingRun τ) : Prop where
  timing : TimingInv s
  clocks : ClocksOk s.timing
  sane : ∀ (core : ℕ) (timer : Timer τ), s.advancing = some core →
    s.timing.timers[core]? = some timer → timer.isTimerSane = true

omit [DecidableEq τ] in
/-- After a step within an `Advance`, or outside of one. -/
theorem ClockInv.goesOn (h : ClockInv s) (htiming : TimingInv s')
    (hadvancing : s'.advancing = s.advancing) (hgoes : OnTimers GoesOn s.timing s'.timing) :
    ClockInv s' ∧ TicksForward s.timing s'.timing := by
  obtain ⟨hok, hticks⟩ := hgoes.forward.clocks h.clocks
  refine ⟨⟨htiming, hok, ?_⟩, hticks⟩
  intro core timer' hcore hget'
  obtain ⟨timer, hget, hstep⟩ := hgoes core timer' hget'
  rw [hstep.sane]
  exact h.sane core timer (hadvancing ▸ hcore) hget

omit [DecidableEq τ] in
/-- When no event is due, the next slice ends with the earliest one. -/
theorem sliceEnds_setNextSlice {timer : Timer τ} {maxSlice : ℤ} (hqueue : QueueOk timer)
    (hdue : dueEvent timer = none) (hpos : 0 < maxSlice) :
    SliceEnds (Timer.setNextSlice maxSlice { timer with isTimerSane := false }) := by
  intro e he
  have hmem : e ∈ timer.eventQueue := he
  set next := Timer.setNextSlice maxSlice { timer with isTimerSane := false } with hnext
  cases hevents : timer.eventQueue with
  | nil =>
    rw [hevents] at hmem
    cases hmem
  | cons front rest =>
    have hlater : timer.executedTicks < front.time := by
      unfold dueEvent at hdue
      rw [hevents] at hdue
      by_contra hlate
      have hsome : (if front.time ≤ timer.executedTicks then some front else none) = none := hdue
      rw [if_pos (by omega)] at hsome
      cases hsome
    have hfront : front.time ≤ e.time := by
      have hheap := hqueue.heap
      rw [hevents] at hheap hmem
      rcases List.mem_cons.mp hmem with rfl | hrest
      · exact le_refl _
      · have hkey := key_le_iff.mp (hheap.first_le e hrest)
        omega
    have hlength : next.sliceLength ≤ front.time - timer.executedTicks := by
      rw [hnext]
      exact setNextSlice_le hevents hpos hlater
    show timer.executedTicks + _ ≤ e.time
    omega

/-- A step that counts forward. -/
theorem clockInv_step {st : ClockStep τ} (h : ClockInv s) (hc : CountsForward s st)
    (hstep : clockStep s st = .ok s') :
    ClockInv s' ∧ TicksForward s.timing s'.timing ∧
      ∀ maxSlice core timer', st = .endAdvance maxSlice → s.advancing = some core →
        s'.timing.timers[core]? = some timer' → SliceEnds timer' := by
  have htiming := timingInv_clockStep h.timing hstep
  suffices hforward : ClockInv s' ∧ TicksForward s.timing s'.timing by
    refine ⟨hforward.1, hforward.2, ?_⟩
    rintro maxSlice core timer' rfl hadvancing hget'
    obtain ⟨c, timer, hcore, hget, hdue, -, hset⟩ := nextSlice_step hstep
    rw [hadvancing] at hcore
    cases hcore
    have hlt : core < s.timing.timers.length := (List.getElem?_eq_some_iff.mp hget).1
    rw [hset] at hget'
    have hsame : (s.timing.timers.set core _)[core]? = some timer' := hget'
    rw [List.getElem?_set_self hlt] at hsame
    cases hsame
    exact sliceEnds_setNextSlice (h.timing.queues core timer hget) hdue hc.1
  cases st with
  | call c =>
    obtain ⟨hslice, hcall⟩ := clockStep_call hstep
    obtain ⟨t', hprogram, rfl⟩ := call_spec hcall
    exact h.goesOn htiming rfl (call_goesOn hc hslice hprogram)
  | forceExceptionCheck core cycles =>
    obtain ⟨t', hmodify, hpure⟩ := bind_eq_ok.mp hstep
    cases hpure
    exact h.goesOn htiming rfl
      (goesOn_modifyTimer hmodify fun _ _ => forceExceptionCheck_goesOn cycles)
  | beginAdvance core =>
    obtain ⟨hadvancing, timer, hget, rfl⟩ := beginAdvance_step hstep
    obtain ⟨hok, hticks⟩ :=
      (onTimers_setTimer Forward.refl hget beginAdvance_forward).clocks h.clocks
    refine ⟨⟨htiming, hok, ?_⟩, hticks⟩
    intro c timer' hcore hget'
    cases hcore
    have hlt : core < s.timing.timers.length := (List.getElem?_eq_some_iff.mp hget).1
    have hset : (s.timing.timers.set core timer.beginAdvance)[core]? = some timer' := hget'
    rw [List.getElem?_set_self hlt] at hset
    cases hset
    rfl
  | invoke =>
    obtain ⟨core, timer, e, -, hget, -, rfl⟩ := invoke_step hstep
    exact h.goesOn htiming rfl
      (onTimers_setTimer GoesOn.refl hget (SameClock.goesOn ⟨rfl, rfl, rfl, rfl⟩))
  | endAdvance maxSlice =>
    obtain ⟨core, timer, hcore, hget, -, hdone, hset⟩ := nextSlice_step hstep
    obtain ⟨-, hmax, hscaled⟩ := hc
    have hnext := nextSlice_forward (h.sane core timer hcore hget) hmax
      (hscaled core timer hcore hget)
    have honTimers : OnTimers Forward s.timing s'.timing := by
      rw [hset]
      exact onTimers_setTimer Forward.refl hget hnext
    obtain ⟨hok, hticks⟩ := honTimers.clocks h.clocks
    refine ⟨⟨htiming, hok, ?_⟩, hticks⟩
    intro c timer' hcore'
    rw [hdone] at hcore'
    cases hcore'

end Steps

/-! ## Runs -/

/-- A timing as it is constructed. -/
theorem clockInv_new (numCores : ℕ) {baseTicks : ℤ} (h : 0 ≤ baseTicks) (h' : baseTicks < 2 ^ 63) :
    ClockInv (newTiming numCores baseTicks : TimingRun τ) := by
  refine ⟨timingInv_new numCores baseTicks, ?_, fun core timer hcore => by cases hcore⟩
  intro core timer hget
  obtain rfl : timer = { executedTicks := baseTicks } :=
    List.eq_of_mem_replicate (List.mem_of_getElem? hget)
  have hslice : (0 : ℤ) ≤ maxSliceLength ∧ maxSliceLength < 2 ^ 63 := by decide
  refine ⟨h, le_refl _, fun _ => hslice.1, hslice.2, ?_⟩
  unfold reachedTime
  dsimp only
  omega

/-- In a run whose steps count forward no timer ever shows an earlier time, and every slice ends
with the next event. -/
theorem time_goesForward [DecidableEq τ] (numCores : ℕ) (baseTicks : ℤ) (steps : List (ClockStep τ))
    (hbase : 0 ≤ baseTicks) (hbase' : baseTicks < 2 ^ 63)
    (h : EachStep clockStep CountsForward (newTiming numCores baseTicks) steps) :
    EachStep clockStep GoesForward (newTiming numCores baseTicks) steps := by
  refine EachStep.of_invariant (fun s st s' hinv hc hstep => ?_)
    (clockInv_new numCores hbase hbase') h
  obtain ⟨hinv', hticks, hends⟩ := clockInv_step hinv hc hstep
  refine ⟨hinv', fun s'' hstep' => ?_⟩
  rw [hstep] at hstep'
  cases hstep'
  exact ⟨hticks, hends⟩

/-- A slice of a hundred cycles that is idled away. -/
theorem time_goesForward_idle :
    EachStep clockStep GoesForward (newTiming 1 0 : TimingRun ℕ)
      [.beginAdvance 0, .endAdvance 100, .call (.idle 0)] := by
  refine time_goesForward 1 0 _ (by decide) (by decide) ?_
  rintro s₁ h₁
  cases h₁
  refine ⟨trivial, ?_⟩
  rintro s₂ h₂
  cases h₂
  refine ⟨⟨by decide, by decide, ?_⟩, ?_⟩
  · rintro core timer hcore hget
    cases hcore
    cases hget
    exact Or.inl rfl
  · rintro s₃ h₃
    cases h₃
    refine ⟨?_, trivial⟩
    rintro timer hget
    cases hget
    exact ⟨Or.inr (by decide), by decide⟩

/-- A slice of a hundred cycles of which a hundred and fifty are executed, and the rest is idled
away: the timer shows 150, and then 100. -/
theorem time_goesBack :
    ¬ EachStep clockStep GoesForward (newTiming 1 0 : TimingRun ℕ)
      [.beginAdvance 0, .endAdvance 100, .call (.addTicks 0 150), .call (.idle 0)] := by
  intro h
  obtain ⟨-, h₁⟩ := h _ rfl
  obtain ⟨-, h₂⟩ := h₁ _ rfl
  obtain ⟨-, h₃⟩ := h₂ _ rfl
  obtain ⟨hidle, -⟩ := h₃ _ rfl
  have hle := (hidle _ rfl).1 0 _ _ rfl rfl
  exact absurd hle (by decide)

end Borked3DS.Analysis
