import Borked3DS.Analysis.TimingOrder
import Borked3DS.Interface.TimingRuns

/-!
# Cancelled events

An event that waits for a timer has not been cancelled since it was scheduled, as long as the
cancellations find nothing in the queues that they do not look into. From this: what is invoked has
not been cancelled, and the thread that is woken has not been stopped.
-/

set_option autoImplicit false

namespace Borked3DS.Analysis

open Borked3DS.Library Borked3DS.Model Borked3DS.Interface

section Live

variable {τ : Type} [DecidableEq τ] {e : Event τ} {trace new : List (TimingEntry τ)}

/-- Whether events like `e` are live behind an entry of the trace. -/
def liveAfter (e : Event τ) (live : Bool) : TimingEntry τ → Bool
  | .scheduled _ _ e' => live || decide (e'.type = e.type ∧ e'.userData = e.userData)
  | .cancelled c _ => live && !c.covers e
  | .invoked _ _ => live

/-- Events like `e` have not been cancelled, or have been scheduled since. -/
def Live (trace : List (TimingEntry τ)) (e : Event τ) : Prop :=
  trace.foldl (liveAfter e) true = true

theorem Live.scheduled {core : ℕ} {direct : Bool} {e' : Event τ} (h : Live trace e) :
    Live (trace ++ [.scheduled core direct e']) e := by
  unfold Live at h ⊢
  rw [List.foldl_append, h]
  rfl

theorem live_scheduled {core : ℕ} {direct : Bool} : Live (trace ++ [.scheduled core direct e]) e := by
  unfold Live
  rw [List.foldl_append]
  show (_ || decide (e.type = e.type ∧ e.userData = e.userData)) = true
  simp

theorem Live.cancelled {c : Cancellation τ} {taken : List (List (Event τ))} (h : Live trace e)
    (hc : c.covers e = false) : Live (trace ++ [.cancelled c taken]) e := by
  unfold Live at h ⊢
  rw [List.foldl_append, h]
  show (true && !c.covers e) = true
  rw [hc]
  rfl

theorem Live.invoked {core : ℕ} {e' : Event τ} (h : Live trace e) :
    Live (trace ++ [.invoked core e']) e := by
  unfold Live at h ⊢
  rw [List.foldl_append, h]
  rfl

/-- Behind a cancellation only scheduling makes an event live, by induction on the entries. -/
theorem scheduled_of_live {mid : List (TimingEntry τ)} (h : mid.foldl (liveAfter e) false = true) :
    ∃ core direct e', .scheduled core direct e' ∈ mid ∧ e'.type = e.type ∧
      e'.userData = e.userData := by
  induction mid with
  | nil => cases h
  | cons entry mid ih =>
    rw [List.foldl_cons] at h
    have hrest (hfalse : liveAfter e false entry = false) :
        ∃ core direct e', .scheduled core direct e' ∈ entry :: mid ∧ e'.type = e.type ∧
          e'.userData = e.userData := by
      rw [hfalse] at h
      obtain ⟨core, direct, e', hmem, hlike⟩ := ih h
      exact ⟨core, direct, e', List.mem_cons_of_mem _ hmem, hlike⟩
    cases entry with
    | scheduled core direct e' =>
      by_cases hlike : e'.type = e.type ∧ e'.userData = e.userData
      · exact ⟨core, direct, e', List.mem_cons_self, hlike⟩
      · exact hrest (decide_eq_false hlike)
    | cancelled c taken => exact hrest rfl
    | invoked core e' => exact hrest rfl

/-- What was invoked was live. -/
def InvokedLive (trace : List (TimingEntry τ)) : Prop :=
  ∀ pre core e post, trace = pre ++ .invoked core e :: post → Live pre e

theorem InvokedLive.stayAway (h : InvokedLive trace) : CancelledStayAway trace := by
  intro pre c taken mid core e post htrace hcovers
  have hlive : Live (pre ++ .cancelled c taken :: mid) e := by
    apply h _ core e post
    rw [htrace, List.append_assoc]
    rfl
  unfold Live at hlive
  rw [List.foldl_append, List.foldl_cons] at hlive
  have hdead : liveAfter e (pre.foldl (liveAfter e) true) (.cancelled c taken) = false := by
    show (_ && !c.covers e) = false
    rw [hcovers, Bool.not_true, Bool.and_false]
  rw [hdead] at hlive
  exact scheduled_of_live hlive

/-- An entry is added. -/
theorem InvokedLive.concat {entry : TimingEntry τ} (h : InvokedLive trace)
    (hentry : ∀ core e, entry = .invoked core e → Live trace e) :
    InvokedLive (trace ++ [entry]) := by
  intro pre core e post htrace
  rcases List.eq_nil_or_concat post with rfl | ⟨post', last, rfl⟩
  · obtain ⟨rfl, hlast⟩ := List.append_inj' htrace rfl
    cases hlast
    exact hentry core e rfl
  · rw [List.concat_eq_append, ← List.cons_append, ← List.append_assoc] at htrace
    obtain ⟨hinit, _⟩ := List.append_inj' htrace rfl
    exact h pre core e post' hinit

end Live

section Waiting

variable {τ : Type} {t t' : Timing τ} {core : ℕ} {e : Event τ} {new : List (TimingEntry τ)}

/-- An event waits for the timer of a core. -/
def Waiting (t : Timing τ) (core : ℕ) (e : Event τ) : Prop :=
  ∃ timer, t.timers[core]? = some timer ∧ e ∈ waitingEvents timer

theorem mem_scheduledOn {way : Bool → Bool} (h : e ∈ scheduledOn core new way) :
    ∃ direct, .scheduled core direct e ∈ new := by
  obtain ⟨entry, hentry, hmem⟩ := List.mem_flatMap.mp h
  cases entry with
  | scheduled c direct e' =>
    dsimp only at hmem
    split at hmem
    · next hboth =>
      cases List.mem_singleton.mp hmem
      rw [hboth.1] at hentry
      exact ⟨direct, hentry⟩
    · cases hmem
  | cancelled => cases hmem
  | invoked => cases hmem

/-- What waits after a step waited before it, or has been scheduled. -/
theorem CoresStep.waiting (h : CoresStep t t' new) (hwaiting : Waiting t' core e) :
    Waiting t core e ∨ ∃ direct, .scheduled core direct e ∈ new := by
  obtain ⟨timer', hget', hmem⟩ := hwaiting
  obtain ⟨timer, hget, htimer⟩ := h.timers core timer' hget'
  unfold waitingEvents at hmem
  rw [List.map_append] at hmem
  have hold (hold : e ∈ timer.eventQueue.map bare ∨ e ∈ timer.tsQueue.map bare) :
      Waiting t core e := by
    refine ⟨timer, hget, ?_⟩
    unfold waitingEvents
    rw [List.map_append]
    exact List.mem_append.mpr hold
  rcases List.mem_append.mp hmem with hqueue | hts
  · have hall := htimer.queue.mem_iff.mpr (List.mem_append_right _ hqueue)
    rcases List.mem_append.mp hall with hqueue | hdirect
    · exact Or.inl (hold (Or.inl hqueue))
    · exact Or.inr (mem_scheduledOn hdirect)
  · rw [htimer.deferral] at hts
    rcases List.mem_append.mp hts with hts | hdeferred
    · exact Or.inl (hold (Or.inr hts))
    · exact Or.inr (mem_scheduledOn hdeferred)

/-- What waits when an `Advance` has begun waited before. -/
theorem waiting_begin {timer : Timer τ} {c : ℕ} (hok : QueueOk timer)
    (hget : t.timers[c]? = some timer) (h : Waiting (t.setTimer c timer.beginAdvance) core e) :
    Waiting t core e := by
  obtain ⟨timer', hget', hmem⟩ := h
  have hset : (t.timers.set c timer.beginAdvance)[core]? = some timer' := hget'
  rw [List.getElem?_set] at hset
  split at hset
  · next heq =>
    subst heq
    split at hset
    · cases hset
      obtain ⟨_, hperm, hts, _⟩ := beginAdvance_spec hok
      refine ⟨timer, hget, ?_⟩
      unfold waitingEvents at hmem
      rw [hts, List.append_nil] at hmem
      exact hperm.mem_iff.mp hmem
    · cases hset
  · exact ⟨timer', hset, hmem⟩

variable [DecidableEq τ] {c : Cancellation τ}

theorem covers_bare : c.covers (bare e) = c.covers e := rfl

/-- A cancellation leaves none of its events in a queue. -/
theorem eraseEvents_not_covered {timer : Timer τ}
    (hmem : e ∈ (timer.eraseEvents c.covers).eventQueue) : c.covers e = false := by
  unfold Timer.eraseEvents at hmem
  dsimp only at hmem
  split at hmem
  · next hsame =>
    have hall := List.length_filter_eq_length_iff.mp hsame e hmem
    simpa using hall
  · have hkept := (makeHeap_spec _ _).2.mem_iff.mp hmem
    simpa using (List.mem_filter.mp hkept).2

/-- What waits after a cancellation that misses nothing is not covered by it. -/
theorem waiting_erase (hnone : NoneDeferred c t)
    (h : Waiting { t with timers := t.timers.map (Timer.eraseEvents c.covers) } core e) :
    c.covers e = false := by
  obtain ⟨timer', hget', hmem⟩ := h
  have hmap : (t.timers.map (Timer.eraseEvents c.covers))[core]? = some timer' := hget'
  rw [List.getElem?_map, Option.map_eq_some_iff] at hmap
  obtain ⟨timer, hget, rfl⟩ := hmap
  obtain ⟨e', he', rfl⟩ := List.mem_map.mp hmem
  rw [covers_bare]
  rcases List.mem_append.mp he' with hqueue | hts
  · exact eraseEvents_not_covered hqueue
  · have hsame : (timer.eraseEvents c.covers).tsQueue = timer.tsQueue := by
      unfold Timer.eraseEvents
      dsimp only
      split
      · rfl
      · rfl
    rw [hsame] at hts
    exact hnone timer (List.mem_of_getElem? hget) e' hts

end Waiting

section Uncancelled

variable {τ : Type} [DecidableEq τ] {s s' : TimingRun τ}

/-- What waits is live, and what was invoked was. -/
structure Uncancelled (s : TimingRun τ) : Prop where
  waiting : ∀ core e, Waiting s.timing core e → Live s.trace e
  invoked : InvokedLive s.trace

/-- A step that schedules at most one event and cancels nothing. -/
theorem uncancelled_scheduled {t' : Timing τ} {new : List (TimingEntry τ)} (h : Uncancelled s)
    (hcores : CoresStep s.timing t' new)
    (hnew : new = [] ∨ ∃ core direct e, new = [.scheduled core direct e]) :
    Uncancelled { s with timing := t', trace := s.trace ++ new } := by
  rcases hnew with rfl | ⟨core, direct, e, rfl⟩
  · rw [List.append_nil]
    refine ⟨?_, h.invoked⟩
    intro core e hwaiting
    rcases hcores.waiting hwaiting with hold | ⟨_, hmem⟩
    · exact h.waiting core e hold
    · cases hmem
  · constructor
    · intro core' e' hwaiting
      rcases hcores.waiting hwaiting with hold | ⟨_, hmem⟩
      · exact (h.waiting core' e' hold).scheduled
      · cases List.mem_singleton.mp hmem
        exact live_scheduled
    · apply h.invoked.concat
      intro _ _ hentry
      cases hentry

omit [DecidableEq τ] in
theorem scheduledEvent_one {n : ℤ} {type : τ} {userData : ℕ} {coreId : Option ℕ} {mode : Bool}
    {t : Timing τ} : scheduledEvent n type userData coreId mode t = [] ∨
      ∃ core direct e, scheduledEvent n type userData coreId mode t = [.scheduled core direct e] := by
  unfold scheduledEvent
  dsimp only
  split
  · exact Or.inl rfl
  · exact Or.inr ⟨_, _, _, rfl⟩

/-- A cancellation that misses nothing. -/
theorem uncancelled_cancelled {c : Cancellation τ} {erased : Event τ → Bool} (h : Uncancelled s)
    (herased : erased = c.covers) (hnone : NoneDeferred c s.timing) :
    Uncancelled { s with
      timing := { s.timing with timers := s.timing.timers.map (Timer.eraseEvents erased) }
      trace := s.trace ++ cancelledEvents c s.timing } := by
  have hcores := coresStep_erase (t := s.timing) herased
  subst herased
  constructor
  · intro core e hwaiting
    rcases hcores.waiting hwaiting with hold | ⟨_, hmem⟩
    · exact (h.waiting core e hold).cancelled (waiting_erase hnone hwaiting)
    · cases List.mem_singleton.mp hmem
  · apply h.invoked.concat
    intro _ _ hentry
    cases hentry

theorem uncancelled_unschedule {type : τ} {userData : ℕ} (h : Uncancelled s) (hinv : TimingInv s)
    (hnone : NoneDeferred ⟨type, some userData⟩ s.timing) :
    Uncancelled { s with
      timing := s.timing.unscheduleEvent type userData
      trace := s.trace ++ cancelledEvents ⟨type, some userData⟩ s.timing } := by
  unfold Timing.unscheduleEvent
  rw [if_neg (by rw [hinv.unlocked]; decide)]
  exact uncancelled_cancelled h covers_userData hnone

theorem uncancelled_call {c : TimingCall τ} (h : Uncancelled s) (hinv : TimingInv s)
    (hnone : c.NoneMissed s.timing) (hstep : timingStep s (.call c) = .ok s') : Uncancelled s' := by
  obtain ⟨t', hprogram, rfl⟩ := call_spec hstep
  have hcores := call_coresStep hinv.unlocked hprogram
  cases c with
  | scheduleEvent n type userData coreId mode =>
    exact uncancelled_scheduled h hcores scheduledEvent_one
  | unscheduleEvent type userData =>
    cases hprogram
    exact uncancelled_unschedule h hinv hnone
  | removeEvent type =>
    cases hprogram
    unfold Timing.removeEvent
    rw [if_neg (by rw [hinv.unlocked]; decide)]
    exact uncancelled_cancelled h covers_type hnone
  | addTicks => exact uncancelled_scheduled h hcores (Or.inl rfl)
  | setNextSlice => exact uncancelled_scheduled h hcores (Or.inl rfl)
  | idle => exact uncancelled_scheduled h hcores (Or.inl rfl)
  | setDowncountHack => exact uncancelled_scheduled h hcores (Or.inl rfl)
  | setCurrentTimer => exact uncancelled_scheduled h hcores (Or.inl rfl)

theorem uncancelled_begin {core : ℕ} (h : Uncancelled s) (hinv : TimingInv s)
    (hstep : timingStep s (.beginAdvance core) = .ok s') : Uncancelled s' := by
  obtain ⟨_, timer, hget, rfl⟩ := beginAdvance_step hstep
  refine ⟨?_, h.invoked⟩
  intro c e hwaiting
  exact h.waiting c e (waiting_begin (hinv.queues core timer hget) hget hwaiting)

theorem uncancelled_invoke (h : Uncancelled s) (hinv : TimingInv s)
    (hstep : timingStep s .invoke = .ok s') : Uncancelled s' := by
  obtain ⟨new, htrace, hcores⟩ :=
    timingStep_coresStep hinv.unlocked hinv.queues (fun _ heq => by cases heq) hstep
  obtain ⟨core, timer, e, _, hget, hdue, rfl⟩ := invoke_step hstep
  obtain rfl : [TimingEntry.invoked core e] = new := List.append_cancel_left htrace
  obtain ⟨rest, hqueue, _⟩ := dueEvent_eq_some.mp hdue
  constructor
  · intro c e' hwaiting
    rcases hcores.waiting hwaiting with hold | ⟨_, hmem⟩
    · exact (h.waiting c e' hold).invoked
    · cases List.mem_singleton.mp hmem
  · apply h.invoked.concat
    intro c e' hentry
    cases hentry
    have hbare : Waiting s.timing core (bare e) := by
      refine ⟨timer, hget, List.mem_map_of_mem ?_⟩
      rw [hqueue]
      exact List.mem_cons_self
    exact h.waiting core (bare e) hbare

theorem uncancelled_end (h : Uncancelled s) (hinv : TimingInv s)
    (hstep : timingStep s .endAdvance = .ok s') : Uncancelled s' := by
  obtain ⟨new, htrace, hcores⟩ :=
    timingStep_coresStep hinv.unlocked hinv.queues (fun _ heq => by cases heq) hstep
  obtain ⟨core, timer, _, _, _, rfl⟩ := endAdvance_step hstep
  obtain rfl : [] = new := by
    have happend : s.trace ++ [] = s.trace ++ new := by
      rw [List.append_nil]
      exact htrace
    exact List.append_cancel_left happend
  refine ⟨?_, h.invoked⟩
  intro c e hwaiting
  rcases hcores.waiting hwaiting with hold | ⟨_, hmem⟩
  · exact h.waiting c e hold
  · cases hmem

end Uncancelled

/-- What holds in every state of a run in which no cancellation misses an event: what waits is
live, and the threads whose wakeups wait are in the table. -/
structure WakeupInv (s : WakeupRun) : Prop where
  timing : TimingInv s.run
  uncancelled : Uncancelled s.run
  inTable : ∀ core e c, Waiting s.run.timing core e → e.type = .threadWakeup c →
    (c, e.userData) ∈ s.table

section Wakeups

variable {s s' : WakeupRun} {r : TimingRun KernelEventType} {table : List (ℕ × ℕ)}

/-- A call after which only threads of the table have wakeups waiting. -/
theorem WakeupInv.call {c : TimingCall KernelEventType} (h : WakeupInv s)
    (hnone : c.NoneMissed s.run.timing) (hstep : timingStep s.run (.call c) = .ok r)
    (htable : ∀ core direct e core', .scheduled core direct e ∈ c.entries s.run.timing →
      e.type = .threadWakeup core' → (core', e.userData) ∈ s.table) :
    WakeupInv { s with run := r } := by
  refine ⟨timingInv_step h.timing hstep, uncancelled_call h.uncancelled h.timing hnone hstep, ?_⟩
  intro core e core' hwaiting htype
  obtain ⟨t', hprogram, rfl⟩ := call_spec hstep
  rcases (call_coresStep h.timing.unlocked hprogram).waiting hwaiting with hold | ⟨direct, hmem⟩
  · exact h.inTable core e core' hold htype
  · exact htable core direct e core' hmem htype

/-- A part of an `Advance`, after which nothing new waits. -/
theorem WakeupInv.advance (h : WakeupInv s) (hinv : TimingInv r) (huncancelled : Uncancelled r)
    (hold : ∀ core e, Waiting r.timing core e → Waiting s.run.timing core e) :
    WakeupInv { s with run := r } :=
  ⟨hinv, huncancelled, fun core e c hwaiting => h.inTable core e c (hold core e hwaiting)⟩

theorem mem_scheduledEvent {n : ℤ} {type : KernelEventType} {userData core : ℕ}
    {coreId : Option ℕ} {mode direct : Bool} {t : Timing KernelEventType}
    {e : Event KernelEventType}
    (h : .scheduled core direct e ∈ scheduledEvent n type userData coreId mode t) :
    e.type = type ∧ e.userData = userData := by
  unfold scheduledEvent at h
  dsimp only at h
  split at h
  · cases h
  · cases List.mem_singleton.mp h
    exact ⟨rfl, rfl⟩

/-- Other calls do not schedule wakeups. -/
theorem other_not_wakeup {c : TimingCall ℕ} {t : Timing KernelEventType} {core core' : ℕ}
    {direct : Bool} {e : Event KernelEventType} (h : .scheduled core direct e ∈ c.other.entries t) :
    e.type ≠ .threadWakeup core' := by
  intro htype
  cases c with
  | scheduleEvent n type userData coreId mode =>
    have hother := (mem_scheduledEvent h).1
    rw [htype] at hother
    cases hother
  | unscheduleEvent => cases List.mem_singleton.mp h
  | removeEvent => cases List.mem_singleton.mp h
  | addTicks => cases h
  | setNextSlice => cases h
  | idle => cases h
  | setDowncountHack => cases h
  | setCurrentTimer => cases h

/-- Cancelling the wakeups of a thread, which may leave the table. -/
theorem WakeupInv.cancel {core thread : ℕ} (h : WakeupInv s)
    (hnone : NoneDeferred ⟨.threadWakeup core, some thread⟩ s.run.timing)
    (htable : ∀ entry ∈ s.table, entry ≠ (core, thread) → entry ∈ table) :
    WakeupInv ⟨{ s.run with
      timing := s.run.timing.unscheduleEvent (.threadWakeup core) thread
      trace := s.run.trace ++ cancelledEvents ⟨.threadWakeup core, some thread⟩ s.run.timing },
      table⟩ := by
  have hstep : timingStep s.run (.call (.unscheduleEvent (.threadWakeup core) thread)) =
      .ok { s.run with
        timing := s.run.timing.unscheduleEvent (.threadWakeup core) thread
        trace := s.run.trace ++ cancelledEvents ⟨.threadWakeup core, some thread⟩ s.run.timing } := rfl
  refine ⟨timingInv_step h.timing hstep, uncancelled_unschedule h.uncancelled h.timing hnone, ?_⟩
  intro core' e c hwaiting htype
  have hcores := call_coresStep (c := .unscheduleEvent (.threadWakeup core) thread)
    h.timing.unlocked rfl
  have hold : Waiting s.run.timing core' e := by
    rcases hcores.waiting hwaiting with hold | ⟨_, hmem⟩
    · exact hold
    · cases List.mem_singleton.mp hmem
  apply htable _ (h.inTable core' e c hold htype)
  intro heq
  have hcovers : (Cancellation.mk (KernelEventType.threadWakeup core) (some thread)).covers e =
      false := by
    change Waiting (s.run.timing.unscheduleEvent (.threadWakeup core) thread) core' e at hwaiting
    unfold Timing.unscheduleEvent at hwaiting
    rw [if_neg (by rw [h.timing.unlocked]; decide), covers_userData] at hwaiting
    exact waiting_erase hnone hwaiting
  cases heq
  simp [Cancellation.covers, htype] at hcovers

theorem wakeupInv_step {st : WakeupStep} (h : WakeupInv s) (hcovered : st.Covered s)
    (hstep : wakeupStep s st = .ok s') : WakeupInv s' := by
  cases st with
  | createThread core thread =>
    cases hstep
    unfold WakeupRun.proceed
    rw [List.append_nil]
    refine ⟨h.timing, h.uncancelled, ?_⟩
    intro core' e c hwaiting htype
    exact List.mem_cons_of_mem _ (h.inTable core' e c hwaiting htype)
  | wakeAfterDelay core thread nanoseconds mode =>
    obtain ⟨w, hwake, hpure⟩ := bind_eq_ok.mp hstep
    cases hpure
    unfold Wakeups.wakeAfterDelay at hwake
    by_cases hforever : nanoseconds = -1
    · rw [if_pos hforever] at hwake ⊢
      cases hwake
      unfold WakeupRun.proceed
      rw [List.append_nil]
      exact h
    · rw [if_neg hforever] at hwake ⊢
      obtain ⟨t, hschedule, hpure⟩ := bind_eq_ok.mp hwake
      cases hpure
      have hlive : (core, thread) ∈ s.table := hcovered.resolve_left hforever
      refine h.call (c := .scheduleEvent (nsToCycles (maskedDelay nanoseconds))
        (.threadWakeup core) thread (if mode then some core else none) mode) trivial
        (bind_eq_ok.mpr ⟨t, hschedule, rfl⟩) ?_
      intro core' direct e c hmem htype
      obtain ⟨hkind, huser⟩ := mem_scheduledEvent hmem
      rw [hkind] at htype
      cases htype
      rw [huser]
      exact hlive
  | stop core thread =>
    cases hstep
    apply h.cancel hcovered
    intro entry hentry hne
    exact List.mem_filter.mpr ⟨hentry, by simpa using hne⟩
  | switchContext core thread =>
    cases hstep
    exact h.cancel hcovered fun entry hentry _ => hentry
  | other c =>
    obtain ⟨r, hcall, hpure⟩ := bind_eq_ok.mp hstep
    cases hpure
    apply h.call hcovered hcall
    intro core direct e core' hmem htype
    exact absurd htype (other_not_wakeup hmem)
  | beginAdvance core =>
    obtain ⟨r, hbegin, hpure⟩ := bind_eq_ok.mp hstep
    cases hpure
    apply h.advance (timingInv_step h.timing hbegin) (uncancelled_begin h.uncancelled h.timing hbegin)
    intro c e hwaiting
    obtain ⟨_, timer, hget, rfl⟩ := beginAdvance_step hbegin
    exact waiting_begin (h.timing.queues core timer hget) hget hwaiting
  | invoke =>
    obtain ⟨_, _, hrest⟩ := bind_eq_ok.mp hstep
    obtain ⟨r, hinvoke, hpure⟩ := bind_eq_ok.mp hrest
    cases hpure
    apply h.advance (timingInv_step h.timing hinvoke)
      (uncancelled_invoke h.uncancelled h.timing hinvoke)
    intro c e hwaiting
    obtain ⟨new, htrace, hcores⟩ :=
      timingStep_coresStep h.timing.unlocked h.timing.queues (fun _ heq => by cases heq) hinvoke
    obtain ⟨core, timer, e', _, _, _, rfl⟩ := invoke_step hinvoke
    obtain rfl : [TimingEntry.invoked core e'] = new := List.append_cancel_left htrace
    rcases hcores.waiting hwaiting with hold | ⟨_, hmem⟩
    · exact hold
    · cases List.mem_singleton.mp hmem
  | endAdvance =>
    obtain ⟨r, hend, hpure⟩ := bind_eq_ok.mp hstep
    cases hpure
    apply h.advance (timingInv_step h.timing hend) (uncancelled_end h.uncancelled h.timing hend)
    intro c e hwaiting
    obtain ⟨core, timer, _, hget, _, rfl⟩ := endAdvance_step hend
    have hcores : CoresStep s.run.timing
        (s.run.timing.setTimer core { timer with isTimerSane := false }) [] :=
      coresStep_setTimer hget (timerStep_same rfl rfl rfl rfl) fun _ _ => ⟨fun _ => rfl, rfl, rfl⟩
    rcases hcores.waiting hwaiting with hold | ⟨_, hmem⟩
    · exact hold
    · cases hmem

theorem WakeupInv.found (h : WakeupInv s) : WakeupsFound s := by
  intro e core hnext htype
  obtain ⟨core', _, hnext⟩ := Option.bind_eq_some_iff.mp hnext
  obtain ⟨timer, hget, hdue⟩ := Option.bind_eq_some_iff.mp hnext
  obtain ⟨rest, hqueue, _⟩ := dueEvent_eq_some.mp hdue
  apply h.inTable core' (bare e) core _ htype
  refine ⟨timer, hget, List.mem_map_of_mem ?_⟩
  rw [hqueue]
  exact List.mem_cons_self

/-- Runs whose steps are covered keep the invariant, by induction on the steps. -/
theorem wakeupInv_run {steps : List WakeupStep} : ∀ {s : WakeupRun}, WakeupInv s →
    EachStep wakeupStep (fun s st => st.Covered s) s steps → run wakeupStep s steps = .ok s' →
    WakeupInv s' := by
  induction steps with
  | nil =>
    intro s h _ hrun
    cases hrun
    exact h
  | cons st steps ih =>
    intro s h hcovered hrun
    obtain ⟨s₁, hstep, hrest⟩ := bind_eq_ok.mp hrun
    obtain ⟨hfirst, hothers⟩ := hcovered s₁ hstep
    exact ih (wakeupInv_step h hfirst hstep) hothers hrest

theorem wakeupInv_new (numCores : ℕ) (baseTicks : ℤ) : WakeupInv (newWakeups numCores baseTicks) := by
  have hnone (core : ℕ) (e : Event KernelEventType)
      (h : Waiting (newWakeups numCores baseTicks).run.timing core e) : False := by
    obtain ⟨timer, hget, hmem⟩ := h
    have hnew : timer = { executedTicks := baseTicks } :=
      List.eq_of_mem_replicate (List.mem_of_getElem? hget)
    rw [hnew] at hmem
    cases hmem
  refine ⟨timingInv_new numCores baseTicks, ⟨?_, ?_⟩, ?_⟩
  · intro core e h
    exact absurd h (hnone core e)
  · intro pre core e post h
    cases pre with
    | nil => cases h
    | cons _ _ => cases h
  · intro core e c h
    exact absurd h (hnone core e)

end Wakeups

/-- In a run whose cancellations find nothing of theirs in a `ts_queue`, and in which only threads
that have not been stopped ask to be woken, a cancelled event never fires and the thread of a
wakeup is in the table. -/
theorem cancelled_stayAway (numCores : ℕ) (baseTicks : ℤ) (steps : List WakeupStep) (s : WakeupRun)
    (hcovered : EachStep wakeupStep (fun s st => st.Covered s) (newWakeups numCores baseTicks) steps)
    (hrun : run wakeupStep (newWakeups numCores baseTicks) steps = .ok s) :
    CancelledStayAway s.run.trace ∧ WakeupsFound s := by
  have hinv := wakeupInv_run (wakeupInv_new numCores baseTicks) hcovered hrun
  exact ⟨hinv.uncancelled.invoked.stayAway, hinv.found⟩

/-- A thread that times out, and is stopped after that. -/
theorem cancelled_stayAway_timeout :
    ∃ s, run wakeupStep (newWakeups 2 0) [.createThread 0 1, .wakeAfterDelay 0 1 1000 false,
        .other (.addTicks 0 300), .beginAdvance 0, .invoke, .endAdvance, .stop 0 1] = .ok s ∧
      CancelledStayAway s.run.trace ∧ WakeupsFound s := by
  have hsome : (run wakeupStep (newWakeups 2 0) [.createThread 0 1, .wakeAfterDelay 0 1 1000 false,
      .other (.addTicks 0 300), .beginAdvance 0, .invoke, .endAdvance,
      .stop 0 1]).toOption.isSome = true := by decide
  obtain ⟨s, hs⟩ := Option.isSome_iff_exists.mp hsome
  have hrun := eq_ok_of_toOption hs
  exact ⟨s, hrun, cancelled_stayAway 2 0 _ s (by decide) hrun⟩

/-- An event scheduled from another core is cancelled and fires; the wakeup of a thread that was
stopped while it waited in the `ts_queue` finds no entry in the table. -/
theorem cancelled_fires :
    (∃ s, run wakeupStep (newWakeups 2 0) [.other (.scheduleEvent 0 5 7 (some 1) false),
        .other (.unscheduleEvent 5 7), .beginAdvance 1, .invoke] = .ok s ∧
      ¬ CancelledStayAway s.run.trace) ∧
    ∃ s, run wakeupStep (newWakeups 2 0) [.createThread 0 1, .wakeAfterDelay 0 1 0 true, .stop 0 1,
        .other (.addTicks 0 3000000), .beginAdvance 0] = .ok s ∧ ¬ WakeupsFound s := by
  constructor
  · have htrace : ((run wakeupStep (newWakeups 2 0)
        [.other (.scheduleEvent 0 5 7 (some 1) false), .other (.unscheduleEvent 5 7),
          .beginAdvance 1, .invoke]).toOption.map fun s => s.run.trace) =
        some [.scheduled 1 false ⟨0, 0, 7, .other 5⟩, .cancelled ⟨.other 5, some 7⟩ [[], []],
          .invoked 1 ⟨0, 0, 7, .other 5⟩] := by decide
    obtain ⟨s, hs, hentries⟩ := Option.map_eq_some_iff.mp htrace
    refine ⟨s, eq_ok_of_toOption hs, ?_⟩
    intro haway
    obtain ⟨_, _, _, hmem, _⟩ := haway [.scheduled 1 false ⟨0, 0, 7, .other 5⟩] _ _ [] 1 _ []
      hentries (by decide)
    cases hmem
  · have hnext : ((run wakeupStep (newWakeups 2 0) [.createThread 0 1, .wakeAfterDelay 0 1 0 true,
        .stop 0 1, .other (.addTicks 0 3000000), .beginAdvance 0]).toOption.map
          fun s => (s.nextEvent, s.table)) =
        some (some ⟨2291554, 0, 1, .threadWakeup 0⟩, []) := by decide
    obtain ⟨s, hs, hstate⟩ := Option.map_eq_some_iff.mp hnext
    obtain ⟨hevent, htable⟩ := Prod.mk.inj hstate
    refine ⟨s, eq_ok_of_toOption hs, ?_⟩
    intro hfound
    have hmem := hfound _ 0 hevent rfl
    rw [htable] at hmem
    cases hmem

end Borked3DS.Analysis
