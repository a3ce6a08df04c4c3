import Mathlib.Data.List.Count
import Borked3DS.Analysis.TimingEvents

/-!
# Whole runs of the event timing

The invariant of a run, what holds within an `Advance`, and the promise that a whole `Advance`
keeps.
-/

set_option autoImplicit false

namespace Borked3DS.Analysis

open Borked3DS.Library Borked3DS.Model Borked3DS.Interface

variable {τ : Type} [DecidableEq τ]

/-- What holds in every state of a run. -/
structure TimingInv (s : TimingRun τ) : Prop where
  unlocked : s.timing.eventQueueLocked = false
  queues : ∀ (core : ℕ) (timer : Timer τ), s.timing.timers[core]? = some timer → QueueOk timer
  once : EventsOnce s
  core : ∀ core, s.advancing = some core → core < s.timing.timers.length

section Counting

variable {s s' : TimingRun τ} {new : List (TimingEntry τ)}

theorem eventsOnce_step (h : EventsOnce s) (htrace : s'.trace = s.trace ++ new)
    (hstep : CoresStep s.timing s'.timing new) : EventsOnce s' := by
  intro core timer' hget'
  obtain ⟨timer, hget, htimer⟩ := hstep.timers core timer' hget'
  have honce := h core timer hget
  have hqueue := htimer.queue
  have hdeferral := htimer.deferral
  rw [List.perm_iff_count] at honce hqueue ⊢
  intro e
  have h1 := honce e
  have h2 := hqueue e
  have h3 := congrArg (List.count e) hdeferral
  have h4 := count_scheduledOn core new e
  rw [htrace]
  unfold waitingEvents at h1 ⊢
  simp only [List.count_append, List.map_append, scheduledOn_append, cancelledOn_append,
    invokedOn_append] at h1 h2 h3 ⊢
  omega

omit [DecidableEq τ] in
theorem eventsOnce_begin {core : ℕ} {timer : Timer τ} (h : EventsOnce s)
    (hok : QueueOk timer) (hget : s.timing.timers[core]? = some timer)
    (hs' : s'.timing = s.timing.setTimer core timer.beginAdvance) (htrace : s'.trace = s.trace) :
    EventsOnce s' := by
  intro c timer' hget'
  rw [htrace]
  rw [hs'] at hget'
  have hset : (s.timing.timers.set core timer.beginAdvance)[c]? = some timer' := hget'
  rw [List.getElem?_set] at hset
  split at hset
  · next heq =>
    subst heq
    obtain ⟨_, hperm, hts, _⟩ := beginAdvance_spec hok
    split at hset
    · cases hset
      apply (h core timer hget).trans
      apply List.Perm.append_left
      show (waitingEvents timer).Perm (waitingEvents timer.beginAdvance)
      unfold waitingEvents at hperm ⊢
      rw [hts, List.append_nil]
      exact hperm.symm
    · cases hset
  · exact h c timer' hset

end Counting

section Invariant

variable {s s' : TimingRun τ}

theorem timingInv_step {st : TimingStep τ} (h : TimingInv s) (hstep : timingStep s st = .ok s') :
    TimingInv s' := by
  by_cases hst : ∃ core, st = .beginAdvance core
  · obtain ⟨core, rfl⟩ := hst
    obtain ⟨_, timer, hget, rfl⟩ := beginAdvance_step hstep
    have hok := h.queues core timer hget
    have hlt : core < s.timing.timers.length := (List.getElem?_eq_some_iff.mp hget).1
    constructor
    · exact h.unlocked
    · intro c timer' hget'
      have hset : (s.timing.timers.set core timer.beginAdvance)[c]? = some timer' := hget'
      rw [List.getElem?_set] at hset
      split at hset
      · cases hset
        exact (beginAdvance_spec hok).1
      · exact h.queues c timer' hset
    · exact eventsOnce_begin h.once hok hget rfl rfl
    · intro c hc
      cases hc
      show core < (s.timing.timers.set core timer.beginAdvance).length
      rwa [List.length_set]
  · have hother : ∀ core, st ≠ .beginAdvance core := fun core heq => hst ⟨core, heq⟩
    obtain ⟨new, htrace, hcores⟩ := timingStep_coresStep h.unlocked h.queues hother hstep
    constructor
    · rw [hcores.locked]
      exact h.unlocked
    · intro core timer' hget'
      obtain ⟨timer, hget, htimer⟩ := hcores.timers core timer' hget'
      exact htimer.ok (h.queues core timer hget)
    · exact eventsOnce_step h.once htrace hcores
    · intro core hcore
      rw [hcores.cores]
      apply h.core
      cases st with
      | call c =>
        obtain ⟨t', _, rfl⟩ := call_spec hstep
        exact hcore
      | beginAdvance c => exact absurd rfl (hother c)
      | invoke =>
        obtain ⟨_, _, _, _, _, _, rfl⟩ := invoke_step hstep
        exact hcore
      | endAdvance =>
        obtain ⟨_, _, _, _, _, rfl⟩ := endAdvance_step hstep
        cases hcore

omit [DecidableEq τ] in
theorem timingInv_new (numCores : ℕ) (baseTicks : ℤ) :
    TimingInv (newTiming numCores baseTicks : TimingRun τ) := by
  have hnew (core : ℕ) (timer : Timer τ)
      (hget : (newTiming numCores baseTicks : TimingRun τ).timing.timers[core]? = some timer) :
      timer = { executedTicks := baseTicks } :=
    List.eq_of_mem_replicate (List.mem_of_getElem? hget)
  constructor
  · rfl
  · intro core timer hget
    rw [hnew core timer hget]
    constructor
    · exact isHeap_nil
    · intro e he
      cases he
    · exact List.nodup_nil
  · intro core timer hget
    rw [hnew core timer hget]
    exact List.Perm.refl _
  · intro core hcore
    cases hcore

theorem timingInv_run {numCores : ℕ} {baseTicks : ℤ} {steps : List (TimingStep τ)}
    (h : run timingStep (newTiming numCores baseTicks) steps = .ok s) : TimingInv s :=
  run_invariant (fun _ _ _ hinv hstep => timingInv_step hinv hstep)
    (timingInv_new numCores baseTicks) h

/-- An `Advance` that is not over has a next step. -/
theorem TimingInv.progresses (h : TimingInv s) : AdvanceProgresses s := by
  intro hadvancing
  obtain ⟨core, hcore⟩ := Option.ne_none_iff_exists'.mp hadvancing
  obtain ⟨timer, hget⟩ : ∃ timer, s.timing.timers[core]? = some timer :=
    ⟨_, List.getElem?_eq_getElem (h.core core hcore)⟩
  have htimer := advancingTimer_eq_ok.mpr ⟨hcore, hget⟩
  cases hdue : dueEvent timer with
  | none =>
    refine ⟨{ s with
      timing := s.timing.setTimer core { timer with isTimerSane := false }
      advancing := none }, Or.inr (bind_eq_ok.mpr ⟨(core, timer), htimer, ?_⟩)⟩
    dsimp only
    rw [hdue]
    rfl
  | some e =>
    refine ⟨{ s with
      timing := s.timing.setTimer core timer.popEvent
      trace := s.trace ++ [.invoked core e] },
      Or.inl (bind_eq_ok.mpr ⟨(core, timer), htimer, ?_⟩)⟩
    dsimp only
    rw [hdue]
    rfl

end Invariant

/-- What holds within an `Advance` of a core that began in the state `s₀` with the timer `timer₀`. -/
structure Advancing (core : ℕ) (s₀ s : TimingRun τ) (timer₀ timer : Timer τ)
    (new : List (TimingEntry τ)) : Prop where
  advancing : s.advancing = some core
  current : s.timing.timers[core]? = some timer
  traced : s.trace = s₀.trace ++ new
  ticks : timer.executedTicks =
    timer₀.executedTicks + (timer₀.sliceLength - timer₀.downcount)
  own : ∀ c e, .invoked c e ∈ new → c = core
  due : ∀ e ∈ invokedOn core new, e.time ≤ timer.executedTicks
  exactly : (waitingEvents timer₀ ++ scheduledOn core new fun direct => direct).Perm
    (cancelledOn core new ++ (invokedOn core new).map bare ++ timer.eventQueue.map bare)
  deferred : timer.tsQueue.map bare = scheduledOn core new fun direct => !direct
  numbered : ∀ e ∈ invokedOn core new, e.fifoOrder < timer.eventFifoId
  inOrder : (∀ e ∈ scheduledOn core new fun direct => direct, timer.executedTicks ≤ e.time) →
    (invokedOn core new).Pairwise (fun e e' => e.key < e'.key) ∧
      ∀ e ∈ invokedOn core new, ∀ q ∈ timer.eventQueue, e.key < q.key

section Advance

variable {s₀ s s' : TimingRun τ} {core : ℕ} {timer₀ timer : Timer τ} {new : List (TimingEntry τ)}

theorem advancing_begin (h : TimingInv s₀) (hstep : timingStep s₀ (.beginAdvance core) = .ok s) :
    ∃ timer₀ timer, s₀.timing.timers[core]? = some timer₀ ∧ Advancing core s₀ s timer₀ timer [] := by
  obtain ⟨_, timer₀, hget, rfl⟩ := beginAdvance_step hstep
  obtain ⟨_, hperm, hts, hticks⟩ := beginAdvance_spec (h.queues core timer₀ hget)
  have hlt : core < s₀.timing.timers.length := (List.getElem?_eq_some_iff.mp hget).1
  refine ⟨timer₀, timer₀.beginAdvance, hget, ?_⟩
  constructor
  · rfl
  · show (s₀.timing.timers.set core timer₀.beginAdvance)[core]? = _
    rw [List.getElem?_set_self hlt]
  · exact (List.append_nil _).symm
  · exact hticks
  · intro c e hmem
    cases hmem
  · intro e he
    cases he
  · rw [scheduledOn_nil, List.append_nil]
    exact hperm.symm
  · rw [hts]
    rfl
  · intro e he
    cases he
  · intro _
    refine ⟨List.Pairwise.nil, ?_⟩
    intro e he
    cases he

/-- A call invokes nothing. -/
theorem call_invokes_nothing (core : ℕ) (c : TimingCall τ) (t : Timing τ) :
    invokedOn core (c.entries t) = [] ∧ ∀ c' e, .invoked c' e ∉ c.entries t := by
  have hnone : invokedOn core ([] : List (TimingEntry τ)) = [] ∧
      ∀ c' e, TimingEntry.invoked c' e ∉ ([] : List (TimingEntry τ)) := by
    refine ⟨rfl, ?_⟩
    intro c' e hmem
    cases hmem
  cases c with
  | scheduleEvent n type userData coreId mode =>
    unfold TimingCall.entries scheduledEvent
    dsimp only
    split
    · exact hnone
    · refine ⟨rfl, ?_⟩
      intro c' e hmem
      cases List.mem_singleton.mp hmem
  | unscheduleEvent type userData =>
    refine ⟨rfl, ?_⟩
    intro c' e hmem
    cases List.mem_singleton.mp hmem
  | removeEvent type =>
    refine ⟨rfl, ?_⟩
    intro c' e hmem
    cases List.mem_singleton.mp hmem
  | addTicks => exact hnone
  | setNextSlice => exact hnone
  | idle => exact hnone
  | setDowncountHack => exact hnone
  | setCurrentTimer => exact hnone

/-- The events stay accounted for over a step. -/
theorem exactly_step {timer' : Timer τ} {more : List (TimingEntry τ)}
    (hexactly : (waitingEvents timer₀ ++ scheduledOn core new fun direct => direct).Perm
      (cancelledOn core new ++ (invokedOn core new).map bare ++ timer.eventQueue.map bare))
    (hqueue : (timer.eventQueue.map bare ++ scheduledOn core more fun direct => direct).Perm
      (cancelledOn core more ++ (invokedOn core more).map bare ++ timer'.eventQueue.map bare)) :
    (waitingEvents timer₀ ++ scheduledOn core (new ++ more) fun direct => direct).Perm
      (cancelledOn core (new ++ more) ++ (invokedOn core (new ++ more)).map bare ++
        timer'.eventQueue.map bare) := by
  rw [List.perm_iff_count] at hexactly hqueue ⊢
  intro e
  have h1 := hexactly e
  have h2 := hqueue e
  simp only [List.count_append, List.map_append, scheduledOn_append, cancelledOn_append,
    invokedOn_append] at h1 h2 ⊢
  omega

theorem Advancing.call (h : Advancing core s₀ s timer₀ timer new) (hinv : TimingInv s)
    {c : TimingCall τ} (hstep : timingStep s (.call c) = .ok s') :
    ∃ timer', Advancing core s₀ s' timer₀ timer' (new ++ c.entries s.timing) := by
  obtain ⟨t', hprogram, rfl⟩ := call_spec hstep
  have hcores := call_coresStep hinv.unlocked hprogram
  have hlt : core < t'.timers.length := by
    rw [hcores.cores]
    exact hinv.core core h.advancing
  obtain ⟨timer', hget'⟩ : ∃ timer', t'.timers[core]? = some timer' :=
    ⟨_, List.getElem?_eq_getElem hlt⟩
  obtain ⟨timer'', hget, htimer⟩ := hcores.timers core timer' hget'
  cases h.current.symm.trans hget
  obtain ⟨hnone, hnoEntry⟩ := call_invokes_nothing core c s.timing
  have hinvoked : invokedOn core (new ++ c.entries s.timing) = invokedOn core new := by
    rw [invokedOn_append, hnone, List.append_nil]
  refine ⟨timer', ?_⟩
  constructor
  · exact h.advancing
  · exact hget'
  · show s.trace ++ c.entries s.timing = _
    rw [h.traced, List.append_assoc]
  · rw [htimer.ticks]
    exact h.ticks
  · intro c' e hmem
    rcases List.mem_append.mp hmem with hmem | hmem
    · exact h.own c' e hmem
    · exact absurd hmem (hnoEntry c' e)
  · rw [hinvoked, htimer.ticks]
    exact h.due
  · exact exactly_step h.exactly htimer.queue
  · rw [htimer.deferral, h.deferred, scheduledOn_append]
  · rw [hinvoked]
    intro e he
    exact Nat.lt_of_lt_of_le (h.numbered e he) htimer.fifo
  · intro hlater
    rw [hinvoked]
    rw [htimer.ticks, scheduledOn_append] at hlater
    obtain ⟨hpairwise, hbefore⟩ := h.inOrder fun e he => hlater e (List.mem_append_left _ he)
    refine ⟨hpairwise, ?_⟩
    intro e he q hq
    rcases htimer.origin q hq with hold | ⟨hfifo, hdirect⟩
    · exact hbefore e he q hold
    · have hdue := h.due e he
      have hnumber := h.numbered e he
      have htime : timer.executedTicks ≤ (bare q).time := hlater _ (List.mem_append_right _ hdirect)
      rw [bare_time] at htime
      rw [key_lt_iff]
      omega

theorem Advancing.invoke (h : Advancing core s₀ s timer₀ timer new) (hinv : TimingInv s)
    (hstep : timingStep s .invoke = .ok s') :
    ∃ timer' e, Advancing core s₀ s' timer₀ timer' (new ++ [.invoked core e]) := by
  obtain ⟨c, timer', e, hadvancing, hget, hdue, rfl⟩ := invoke_step hstep
  cases h.advancing.symm.trans hadvancing
  cases h.current.symm.trans hget
  have hok := hinv.queues core timer hget
  have hlt := hinv.core core h.advancing
  obtain ⟨rest, hqueue, htime⟩ := dueEvent_eq_some.mp hdue
  obtain ⟨_, hperm, hfirst⟩ := popEvent_spec hok hqueue
  have htimer := timerStep_popEvent hok hqueue
  have hinvoked : invokedOn core (new ++ [.invoked core e]) = invokedOn core new ++ [e] := by
    rw [invokedOn_append, invokedOn_invoked, if_pos rfl]
  have hmem : e ∈ timer.eventQueue := by
    rw [hqueue]
    exact List.mem_cons_self
  refine ⟨timer.popEvent, e, ?_⟩
  constructor
  · exact hadvancing
  · show (s.timing.timers.set core timer.popEvent)[core]? = _
    rw [List.getElem?_set_self hlt]
  · show s.trace ++ [.invoked core e] = _
    rw [h.traced, List.append_assoc]
  · exact h.ticks
  · intro c' e' hentry
    rcases List.mem_append.mp hentry with hentry | hentry
    · exact h.own c' e' hentry
    · cases List.mem_singleton.mp hentry
      rfl
  · rw [hinvoked]
    intro e' he'
    rcases List.mem_append.mp he' with he' | he'
    · exact h.due e' he'
    · cases List.mem_singleton.mp he'
      exact htime
  · apply exactly_step h.exactly
    rw [scheduledOn_invoked, cancelledOn_invoked, invokedOn_invoked, if_pos rfl]
    exact htimer.queue
  · rw [scheduledOn_append, scheduledOn_invoked, List.append_nil]
    exact h.deferred
  · rw [hinvoked]
    intro e' he'
    rcases List.mem_append.mp he' with he' | he'
    · exact h.numbered e' he'
    · cases List.mem_singleton.mp he'
      exact hok.numbered e hmem
  · intro hlater
    rw [scheduledOn_append, scheduledOn_invoked, List.append_nil] at hlater
    obtain ⟨hpairwise, hbefore⟩ := h.inOrder hlater
    rw [hinvoked]
    constructor
    · rw [List.pairwise_append]
      refine ⟨hpairwise, List.pairwise_singleton _ _, ?_⟩
      intro e' he' q hq
      cases List.mem_singleton.mp hq
      exact hbefore e' he' e hmem
    · intro e' he' q hq
      rcases List.mem_append.mp he' with he' | he'
      · apply hbefore e' he' q
        rw [hqueue]
        exact List.mem_cons_of_mem e (hperm.mem_iff.mp hq)
      · cases List.mem_singleton.mp he'
        exact hfirst q hq

/-- The steps within an `Advance`, by induction on them. -/
theorem Advancing.inside {mid : List (TimingStep τ)} : ∀ {s : TimingRun τ} {timer : Timer τ}
    {new : List (TimingEntry τ)}, Advancing core s₀ s timer₀ timer new → TimingInv s →
      (∀ st ∈ mid, st.Inside) → run timingStep s mid = .ok s' →
      TimingInv s' ∧ ∃ timer' new', Advancing core s₀ s' timer₀ timer' new' := by
  induction mid with
  | nil =>
    intro s timer new h hinv _ hrun
    cases hrun
    exact ⟨hinv, timer, new, h⟩
  | cons st mid ih =>
    intro s timer new h hinv hinside hrun
    obtain ⟨s₁, hstep, hrest⟩ := bind_eq_ok.mp hrun
    have hinv' := timingInv_step hinv hstep
    have hmid : ∀ st ∈ mid, st.Inside := fun st' hst' => hinside st' (List.mem_cons_of_mem _ hst')
    have hfirst := hinside st List.mem_cons_self
    cases st with
    | call c =>
      obtain ⟨timer', h'⟩ := h.call hinv hstep
      exact ih h' hinv' hmid hrest
    | invoke =>
      obtain ⟨timer', e, h'⟩ := h.invoke hinv hstep
      exact ih h' hinv' hmid hrest
    | beginAdvance => cases hfirst
    | endAdvance => cases hfirst

/-- A whole `Advance` keeps its promise. -/
theorem advance_promise {mid : List (TimingStep τ)} (h : TimingInv s₀)
    (hinside : ∀ st ∈ mid, st.Inside)
    (hrun : run timingStep s₀ (.beginAdvance core :: (mid ++ [.endAdvance])) = .ok s') :
    ∃ timer timer' new, s₀.timing.timers[core]? = some timer ∧
      s'.timing.timers[core]? = some timer' ∧ AdvancePromise core s₀ s' timer timer' new := by
  obtain ⟨s₁, hbegin, hrest⟩ := bind_eq_ok.mp hrun
  rw [run_append] at hrest
  obtain ⟨s₂, hmid, hend⟩ := bind_eq_ok.mp hrest
  obtain ⟨s₃, hend, hdone⟩ := bind_eq_ok.mp hend
  cases hdone
  obtain ⟨timer, timer₁, hget, hadvancing⟩ := advancing_begin h hbegin
  obtain ⟨hinv, timer₂, new, hlast⟩ := hadvancing.inside (timingInv_step h hbegin) hinside hmid
  obtain ⟨c, timer₃, hcore, hget₃, hnone, rfl⟩ := endAdvance_step hend
  cases hlast.advancing.symm.trans hcore
  cases hlast.current.symm.trans hget₃
  have hlt := hinv.core core hcore
  refine ⟨timer, { timer₂ with isTimerSane := false }, new, hget, ?_, ?_⟩
  · show (s₂.timing.timers.set core _)[core]? = _
    rw [List.getElem?_set_self hlt]
  · constructor
    · exact hlast.traced
    · exact hlast.ticks
    · exact hlast.own
    · exact hlast.due
    · intro q hq
      have hok := hinv.queues core timer₂ hget₃
      have hqueue : q ∈ timer₂.eventQueue := hq
      cases hlist : timer₂.eventQueue with
      | nil =>
        rw [hlist] at hqueue
        cases hqueue
      | cons front rest =>
        have hlate : timer₂.executedTicks < front.time := by
          apply Int.lt_of_not_ge
          intro hdue
          have hsome := dueEvent_eq_some.mpr ⟨rest, hlist, hdue⟩
          rw [hnone] at hsome
          cases hsome
        have hheap := hok.heap
        rw [hlist] at hheap hqueue
        show timer₂.executedTicks < q.time
        rcases List.mem_cons.mp hqueue with rfl | hmem
        · exact hlate
        · have hle := key_le_iff.mp (hheap.first_le q hmem)
          omega
    · exact hlast.exactly
    · exact hlast.deferred
    · exact fun hlater => (hlast.inOrder hlater).1

end Advance

section Function

variable {core : ℕ} {t t' : Timing τ} {trace trace' : List (TimingEntry τ)}

/-- The calls of a callback are steps. -/
theorem performCalls_isRun (advancing : Option ℕ) : ∀ {calls : List (TimingCall τ)} {t : Timing τ}
    {trace : List (TimingEntry τ)}, performCalls calls (t, trace) = .ok (t', trace') →
      run timingStep ⟨t, trace, advancing⟩ (calls.map .call) = .ok ⟨t', trace', advancing⟩ := by
  intro calls
  induction calls with
  | nil =>
    intro t trace h
    cases h
    rfl
  | cons c calls ih =>
    intro t trace h
    obtain ⟨t₁, hprogram, hrest⟩ := bind_eq_ok.mp h
    apply bind_eq_ok.mpr
    exact ⟨⟨t₁, trace ++ c.entries t, advancing⟩, bind_eq_ok.mpr ⟨t₁, hprogram, rfl⟩, ih hrest⟩

omit [DecidableEq τ] in
theorem dueEvent_eq_none {timer : Timer τ} {e : Event τ} {rest : List (Event τ)}
    (hqueue : timer.eventQueue = e :: rest) (hlate : ¬ e.time ≤ timer.executedTicks) :
    dueEvent timer = none := by
  unfold dueEvent
  rw [hqueue]
  exact if_neg hlate

/-- The loop of an `Advance` is made of steps, by induction on its fuel. -/
theorem advanceLoop_isRun
    {reply : Event τ → ℤ → Timing τ × List (TimingEntry τ) → List (TimingCall τ)} {fuel : ℕ} :
    ∀ {t : Timing τ} {trace : List (TimingEntry τ)},
      Timing.advanceLoop (replyCallback core reply) core fuel (t, trace) = .ok (t', trace') →
      ∃ mid : List (TimingStep τ), (∀ st ∈ mid, st.Inside) ∧
        run timingStep ⟨t, trace, some core⟩ mid = .ok ⟨t', trace', some core⟩ ∧
        ∃ timer, t'.timers[core]? = some timer ∧ dueEvent timer = none := by
  induction fuel with
  | zero =>
    intro t trace h
    cases h
  | succ fuel ih =>
    intro t trace h
    obtain ⟨timer, hget, h⟩ := bind_eq_ok.mp h
    rw [getTimer_eq_ok] at hget
    have hnil : ∀ st ∈ ([] : List (TimingStep τ)), st.Inside := by
      intro st hst
      cases hst
    split at h
    · next hqueue =>
      cases h
      refine ⟨[], hnil, rfl, timer, hget, ?_⟩
      unfold dueEvent
      rw [hqueue]
    · next e rest hqueue =>
      split at h
      · next hdue =>
        obtain ⟨⟨t₁, trace₁⟩, hcallback, hrest⟩ := bind_eq_ok.mp h
        obtain ⟨mid, hinside, hrun, hlast⟩ := ih hrest
        have hcalls := performCalls_isRun (some core) hcallback
        have hinvoke : timingStep ⟨t, trace, some core⟩ .invoke =
            .ok ⟨t.setTimer core timer.popEvent, trace ++ [.invoked core e], some core⟩ := by
          apply bind_eq_ok.mpr
          refine ⟨(core, timer), advancingTimer_eq_ok.mpr ⟨rfl, hget⟩, ?_⟩
          dsimp only
          rw [dueEvent_eq_some.mpr ⟨rest, hqueue, hdue⟩]
          rfl
        refine ⟨.invoke :: ((reply e (toInt (timer.executedTicks - e.time))
          (t.setTimer core timer.popEvent, trace)).map .call ++ mid), ?_, ?_, hlast⟩
        · intro st hst
          rcases List.mem_cons.mp hst with rfl | hst
          · trivial
          · rcases List.mem_append.mp hst with hst | hst
            · obtain ⟨c, _, rfl⟩ := List.mem_map.mp hst
              trivial
            · exact hinside st hst
        · apply bind_eq_ok.mpr
          refine ⟨_, hinvoke, ?_⟩
          rw [run_append]
          exact bind_eq_ok.mpr ⟨_, hcalls, hrun⟩
      · next hlate =>
        cases h
        exact ⟨[], hnil, rfl, timer, hget, dueEvent_eq_none hqueue hlate⟩

/-- An `Advance` with callbacks that make calls is a run: its beginning, steps within it, and its
end. -/
theorem advance_isRun
    {reply : Event τ → ℤ → Timing τ × List (TimingEntry τ) → List (TimingCall τ)} {fuel : ℕ}
    (h : Timing.advance (replyCallback core reply) core fuel (t, trace) = .ok (t', trace')) :
    ∃ mid : List (TimingStep τ), (∀ st ∈ mid, st.Inside) ∧
      run timingStep ⟨t, trace, none⟩ (.beginAdvance core :: (mid ++ [.endAdvance])) =
        .ok ⟨t', trace', none⟩ := by
  obtain ⟨t₁, hbegin, h⟩ := bind_eq_ok.mp h
  obtain ⟨⟨t₂, trace₂⟩, hloop, h⟩ := bind_eq_ok.mp h
  obtain ⟨t₃, hend, hpure⟩ := bind_eq_ok.mp h
  cases hpure
  obtain ⟨mid, hinside, hrun, timer, hget, hdue⟩ := advanceLoop_isRun hloop
  obtain ⟨timer', hget', hset⟩ := bind_eq_ok.mp hend
  cases (getTimer_eq_ok.mp hget').symm.trans hget
  refine ⟨mid, hinside, ?_⟩
  apply bind_eq_ok.mpr
  refine ⟨⟨t₁, trace, some core⟩, bind_eq_ok.mpr ⟨t₁, hbegin, rfl⟩, ?_⟩
  rw [run_append]
  refine bind_eq_ok.mpr ⟨_, hrun, bind_eq_ok.mpr ⟨⟨t', trace', none⟩, ?_, rfl⟩⟩
  apply bind_eq_ok.mpr
  refine ⟨(core, timer), advancingTimer_eq_ok.mpr ⟨rfl, hget⟩, ?_⟩
  dsimp only
  rw [hdue]
  cases hset
  rfl

end Function

/-- Every scheduled event fires exactly once and in order: in every state of a run each event is
cancelled, invoked or waiting, only once, and the queues are heaps; an `Advance` never gets stuck,
and a whole one keeps its promise. -/
theorem timing_once_inOrder (numCores : ℕ) (baseTicks : ℤ) (steps : List (TimingStep τ))
    (s : TimingRun τ) (hrun : run timingStep (newTiming numCores baseTicks) steps = .ok s) :
    EventsOnce s ∧ QueuesAreHeaps s.timing ∧ AdvanceProgresses s ∧
      ∀ core mid s', (∀ st ∈ mid, TimingStep.Inside st) →
        run timingStep s (.beginAdvance core :: (mid ++ [.endAdvance])) = .ok s' →
        ∃ timer timer' new, s.timing.timers[core]? = some timer ∧
          s'.timing.timers[core]? = some timer' ∧ AdvancePromise core s s' timer timer' new := by
  have hinv := timingInv_run hrun
  refine ⟨hinv.once, ?_, hinv.progresses, ?_⟩
  · intro timer hmem
    obtain ⟨core, hget⟩ := List.mem_iff_getElem?.mp hmem
    exact (hinv.queues core timer hget).heap
  · intro core mid s' hinside hadvance
    exact advance_promise hinv hinside hadvance

/-- An event that is due when its timer advances. -/
theorem timing_once_inOrder_oneEvent :
    ∃ s : TimingRun ℕ, run timingStep (newTiming 2 0)
      [.call (.scheduleEvent 100 0 7 none false), .call (.addTicks 0 200), .beginAdvance 0, .invoke,
        .endAdvance] = .ok s ∧ EventsOnce s ∧ QueuesAreHeaps s.timing := by
  have hsome : (run timingStep (newTiming 2 0 : TimingRun ℕ)
      [.call (.scheduleEvent 100 0 7 none false), .call (.addTicks 0 200), .beginAdvance 0, .invoke,
        .endAdvance]).toOption.isSome = true := by decide
  obtain ⟨s, hs⟩ := Option.isSome_iff_exists.mp hsome
  have hrun := eq_ok_of_toOption hs
  obtain ⟨honce, hheaps, _⟩ := timing_once_inOrder 2 0 _ s hrun
  exact ⟨s, hrun, honce, hheaps⟩

/-- `Advance` keeps its promise whatever calls the callbacks make, in every state that steps lead to,
and every event is still scheduled, cancelled or invoked once. -/
theorem advance_once_inOrder (numCores : ℕ) (baseTicks : ℤ) (steps : List (TimingStep τ))
    (s : TimingRun τ) (hrun : run timingStep (newTiming numCores baseTicks) steps = .ok s)
    (hidle : s.advancing = none) (core fuel : ℕ)
    (reply : Event τ → ℤ → Timing τ × List (TimingEntry τ) → List (TimingCall τ)) (t' : Timing τ)
    (trace' : List (TimingEntry τ))
    (h : Timing.advance (replyCallback core reply) core fuel (s.timing, s.trace) =
      .ok (t', trace')) :
    EventsOnce ⟨t', trace', none⟩ ∧ QueuesAreHeaps t' ∧
      ∃ timer timer' new, s.timing.timers[core]? = some timer ∧ t'.timers[core]? = some timer' ∧
        AdvancePromise core s ⟨t', trace', none⟩ timer timer' new := by
  obtain ⟨timing, trace, advancing⟩ := s
  obtain rfl : advancing = none := hidle
  obtain ⟨mid, hinside, hadvance⟩ := advance_isRun h
  have hinv := timingInv_run hrun
  have hall : run timingStep (newTiming numCores baseTicks)
      (steps ++ .beginAdvance core :: (mid ++ [.endAdvance])) = .ok ⟨t', trace', none⟩ := by
    rw [run_append, hrun]
    exact hadvance
  have hinv' := timingInv_run hall
  refine ⟨hinv'.once, ?_, advance_promise hinv hinside hadvance⟩
  intro timer hmem
  obtain ⟨c, hget⟩ := List.mem_iff_getElem?.mp hmem
  exact (hinv'.queues c timer hget).heap

/-- A callback that schedules its event again, for later. -/
theorem advance_once_inOrder_again : ∃ s : TimingRun ℕ, ∃ w,
    run timingStep (newTiming 1 0) [.call (.scheduleEvent 100 0 7 none false),
      .call (.addTicks 0 200)] = .ok s ∧
    Timing.advance (replyCallback 0 fun _ _ _ => [.scheduleEvent 300 0 7 none false]) 0 3
      (s.timing, s.trace) = .ok w ∧ EventsOnce ⟨w.1, w.2, none⟩ ∧ QueuesAreHeaps w.1 := by
  have hsome : ((run timingStep (newTiming 1 0 : TimingRun ℕ)
      [.call (.scheduleEvent 100 0 7 none false), .call (.addTicks 0 200)]).toOption.bind fun s =>
        if s.advancing = none then
          (Timing.advance (replyCallback 0 fun _ _ _ => [.scheduleEvent 300 0 7 none false]) 0 3
            (s.timing, s.trace)).toOption
        else none).isSome = true := by decide
  obtain ⟨w, hw⟩ := Option.isSome_iff_exists.mp hsome
  obtain ⟨s, hs, hw⟩ := Option.bind_eq_some_iff.mp hw
  have hidle : s.advancing = none := of_not_not fun hbusy => by
    rw [if_neg hbusy] at hw
    cases hw
  rw [if_pos hidle] at hw
  have hrun := eq_ok_of_toOption hs
  have hadvance := eq_ok_of_toOption hw
  obtain ⟨honce, hheaps, -⟩ := advance_once_inOrder 1 0 _ s hrun hidle 0 3 _ w.1 w.2 hadvance
  exact ⟨s, w, hrun, hadvance, honce, hheaps⟩

end Borked3DS.Analysis
