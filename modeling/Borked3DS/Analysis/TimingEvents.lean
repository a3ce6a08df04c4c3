import Mathlib.Data.List.Perm.Basic
import Borked3DS.Interface.TimingRuns

/-!
# The queues of the timers

What each operation and each step does to them: every scheduled event, once and in order.
-/

set_option autoImplicit false

namespace Borked3DS.Analysis

open Borked3DS.Library Borked3DS.Model Borked3DS.Interface

/-!
## The queues of one timer

What each operation on a timer does to its queue of events and to its `ts_queue`: `TimerStep` says
which events come, which are cancelled and which one is invoked.
-/

variable {τ : Type}

/-- A queue that is a heap of events numbered below the next number, all of them differently. -/
structure QueueOk (timer : Timer τ) : Prop where
  heap : IsHeap Event.key timer.eventQueue
  numbered : ∀ e ∈ timer.eventQueue, e.fifoOrder < timer.eventFifoId
  distinct : (timer.eventQueue.map Event.fifoOrder).Nodup

/-- An operation on a timer: `direct` comes to its queue and `deferred` to its `ts_queue`, `cancelled`
is taken from the queue and `invoked`, too. -/
structure TimerStep (timer timer' : Timer τ) (direct deferred cancelled invoked : List (Event τ)) :
    Prop where
  queue : (timer.eventQueue.map bare ++ direct).Perm
    (cancelled ++ invoked.map bare ++ timer'.eventQueue.map bare)
  deferral : timer'.tsQueue.map bare = timer.tsQueue.map bare ++ deferred
  ok : QueueOk timer → QueueOk timer'
  ticks : timer'.executedTicks = timer.executedTicks
  fifo : timer.eventFifoId ≤ timer'.eventFifoId
  origin : ∀ q ∈ timer'.eventQueue, q ∈ timer.eventQueue ∨
    (timer.eventFifoId ≤ q.fifoOrder ∧ bare q ∈ direct)

section Order

variable {e e' : Event τ}

theorem key_lt_iff : e.key < e'.key ↔
    e.time < e'.time ∨ e.time = e'.time ∧ e.fifoOrder < e'.fifoOrder := Prod.Lex.toLex_lt_toLex

theorem key_le_iff : e.key ≤ e'.key ↔
    e.time < e'.time ∨ e.time = e'.time ∧ e.fifoOrder ≤ e'.fifoOrder := Prod.Lex.toLex_le_toLex

@[simp] theorem bare_bare : bare (bare e) = bare e := rfl

@[simp] theorem bare_time : (bare e).time = e.time := rfl

end Order

section Operations

variable {timer timer' : Timer τ} {e : Event τ}

/-- A queue with the same events and numbers at least as high is as good, if it is a heap. -/
theorem QueueOk.of_perm (h : QueueOk timer) (hheap : IsHeap Event.key timer'.eventQueue)
    (hperm : timer'.eventQueue.Perm timer.eventQueue)
    (hfifo : timer.eventFifoId ≤ timer'.eventFifoId) : QueueOk timer' := by
  constructor
  · exact hheap
  · intro e he
    exact Nat.lt_of_lt_of_le (h.numbered e (hperm.mem_iff.mp he)) hfifo
  · exact (hperm.map _).nodup_iff.mpr h.distinct

/-- An operation that leaves both queues alone. -/
theorem timerStep_same (hqueue : timer'.eventQueue = timer.eventQueue)
    (hts : timer'.tsQueue = timer.tsQueue) (hfifo : timer'.eventFifoId = timer.eventFifoId)
    (hticks : timer'.executedTicks = timer.executedTicks) : TimerStep timer timer' [] [] [] [] := by
  constructor
  · rw [hqueue, List.append_nil]
    exact List.Perm.refl _
  · rw [hts, List.append_nil]
  · intro h
    apply h.of_perm
    · rw [hqueue]
      exact h.heap
    · rw [hqueue]
    · exact Nat.le_of_eq hfifo.symm
  · exact hticks
  · exact Nat.le_of_eq hfifo.symm
  · intro q hq
    rw [hqueue] at hq
    exact Or.inl hq

theorem pushEvent_perm (timer : Timer τ) (e : Event τ) : (timer.pushEvent e).eventQueue.Perm
    ({ e with fifoOrder := timer.eventFifoId } :: timer.eventQueue) :=
  pushHeap_perm.trans (List.perm_append_singleton _ _)

theorem QueueOk.pushEvent (h : QueueOk timer) : QueueOk (timer.pushEvent e) := by
  have hperm := pushEvent_perm timer e
  constructor
  · exact pushHeap_isHeap h.heap
  · intro q hq
    show q.fifoOrder < timer.eventFifoId + 1
    rcases List.mem_cons.mp (hperm.mem_iff.mp hq) with rfl | hq
    · exact Nat.lt_succ_self _
    · exact Nat.lt_succ_of_lt (h.numbered q hq)
  · apply (hperm.map _).nodup_iff.mpr
    rw [List.map_cons, List.nodup_cons]
    refine ⟨?_, h.distinct⟩
    intro hmem
    obtain ⟨q, hq, hfifo⟩ := List.mem_map.mp hmem
    have hlt := h.numbered q hq
    rw [hfifo] at hlt
    exact Nat.lt_irrefl _ hlt

theorem timerStep_pushEvent (he : bare e = e) :
    TimerStep timer (timer.pushEvent e) [e] [] [] [] := by
  have hperm := pushEvent_perm timer e
  constructor
  · have hbare : bare { e with fifoOrder := timer.eventFifoId } = e := he
    have hmap := hperm.map bare
    rw [List.map_cons, hbare] at hmap
    exact (List.perm_append_singleton e _).trans hmap.symm
  · exact (List.append_nil _).symm
  · exact QueueOk.pushEvent
  · rfl
  · exact Nat.le_succ _
  · intro q hq
    rcases List.mem_cons.mp (hperm.mem_iff.mp hq) with rfl | hq
    · exact Or.inr ⟨Nat.le_refl _, by rw [List.mem_singleton]; exact he⟩
    · exact Or.inl hq

theorem timerStep_defer (he : bare e = e) :
    TimerStep timer { timer with tsQueue := timer.tsQueue ++ [e] } [] [e] [] [] := by
  constructor
  · rw [List.append_nil]
    exact List.Perm.refl _
  · show (timer.tsQueue ++ [e]).map bare = _
    rw [List.map_append, List.map_singleton, he]
  · intro h
    exact ⟨h.heap, h.numbered, h.distinct⟩
  · rfl
  · exact Nat.le_refl _
  · intro q hq
    exact Or.inl hq

theorem timerStep_eraseEvents {erased : Event τ → Bool} :
    TimerStep timer (timer.eraseEvents erased) [] [] ((timer.eventQueue.filter erased).map bare)
      [] := by
  have hsplit := List.filter_append_perm erased timer.eventQueue
  unfold Timer.eraseEvents
  dsimp only
  split
  · next hsame =>
    have hnone : timer.eventQueue.filter erased = [] := by
      have hlen := hsplit.length_eq
      rw [List.length_append] at hlen
      exact List.length_eq_zero_iff.mp (by omega)
    rw [hnone]
    exact timerStep_same rfl rfl rfl rfl
  · have hmake := makeHeap_spec Event.key (timer.eventQueue.filter fun e => !erased e)
    have hmem (q : Event τ) (hq : q ∈ makeHeap Event.key (timer.eventQueue.filter fun e => !erased e)) :
        q ∈ timer.eventQueue := (List.mem_filter.mp (hmake.2.mem_iff.mp hq)).1
    constructor
    · rw [List.append_nil, List.map_nil, List.append_nil, ← List.map_append]
      apply List.Perm.map
      exact hsplit.symm.trans (List.Perm.append_left _ hmake.2.symm)
    · exact (List.append_nil _).symm
    · intro h
      constructor
      · exact hmake.1
      · intro q hq
        exact h.numbered q (hmem q hq)
      · apply (hmake.2.map _).nodup_iff.mpr
        exact h.distinct.sublist (List.filter_sublist.map _)
    · rfl
    · exact Nat.le_refl _
    · intro q hq
      exact Or.inl (hmem q hq)

/-- The first event of a queue leaves it, and all others are later. -/
theorem popEvent_spec (h : QueueOk timer) {rest : List (Event τ)}
    (hqueue : timer.eventQueue = e :: rest) :
    IsHeap Event.key timer.popEvent.eventQueue ∧ timer.popEvent.eventQueue.Perm rest ∧
      ∀ q ∈ timer.popEvent.eventQueue, e.key < q.key := by
  have hheap := h.heap
  rw [hqueue] at hheap
  obtain ⟨heap, hpop, hresult, hperm⟩ := popHeap_spec hheap
  have hnew : timer.popEvent.eventQueue = heap := by
    show (popHeap Event.key timer.eventQueue).dropLast = heap
    rw [hqueue, hpop, List.dropLast_concat]
  rw [hnew]
  refine ⟨hresult, hperm, ?_⟩
  intro q hq
  have hmem := hperm.mem_iff.mp hq
  have hle := hheap.first_le q hmem
  have hne : e.fifoOrder ≠ q.fifoOrder := by
    have hdistinct := h.distinct
    rw [hqueue, List.map_cons, List.nodup_cons] at hdistinct
    intro heq
    exact hdistinct.1 (heq ▸ List.mem_map_of_mem hmem)
  rw [key_le_iff] at hle
  rw [key_lt_iff]
  omega

theorem timerStep_popEvent (h : QueueOk timer) {rest : List (Event τ)}
    (hqueue : timer.eventQueue = e :: rest) : TimerStep timer timer.popEvent [] [] [] [e] := by
  obtain ⟨hheap, hperm, _⟩ := popEvent_spec h hqueue
  have hmem (q : Event τ) (hq : q ∈ timer.popEvent.eventQueue) : q ∈ timer.eventQueue := by
    rw [hqueue]
    exact List.mem_cons_of_mem e (hperm.mem_iff.mp hq)
  constructor
  · rw [hqueue, List.append_nil]
    exact (hperm.map bare).symm.cons (bare e)
  · exact (List.append_nil _).symm
  · intro _
    constructor
    · exact hheap
    · intro q hq
      exact h.numbered q (hmem q hq)
    · have hdistinct := h.distinct
      rw [hqueue, List.map_cons, List.nodup_cons] at hdistinct
      exact (hperm.map _).nodup_iff.mpr hdistinct.2
  · rfl
  · exact Nat.le_refl _
  · intro q hq
    exact Or.inl (hmem q hq)

/-- What `MoveEvents` does, by induction on the events it moves. -/
theorem foldl_pushEvent (moved : List (Event τ)) : ∀ (timer : Timer τ), QueueOk timer →
    let timer' := moved.foldl (fun timer e => timer.pushEvent e) timer
    QueueOk timer' ∧
      (timer'.eventQueue.map bare).Perm ((timer.eventQueue ++ moved).map bare) ∧
      timer'.tsQueue = timer.tsQueue ∧ timer'.executedTicks = timer.executedTicks ∧
      timer'.sliceLength = timer.sliceLength ∧ timer'.downcount = timer.downcount := by
  induction moved with
  | nil =>
    intro timer h
    rw [List.append_nil]
    exact ⟨h, List.Perm.refl _, rfl, rfl, rfl, rfl⟩
  | cons e moved ih =>
    intro timer h
    obtain ⟨hok, hperm, hts, hticks, hslice, hdowncount⟩ := ih (timer.pushEvent e) h.pushEvent
    refine ⟨hok, hperm.trans ?_, hts, hticks, hslice, hdowncount⟩
    have hpush := (pushEvent_perm timer e).map bare
    rw [List.map_append, List.map_append, List.map_cons]
    exact (hpush.append_right _).trans List.perm_middle.symm

/-- What an `Advance` does before its loop. -/
theorem beginAdvance_spec (h : QueueOk timer) :
    QueueOk timer.beginAdvance ∧
      (timer.beginAdvance.eventQueue.map bare).Perm (waitingEvents timer) ∧
      timer.beginAdvance.tsQueue = [] ∧
      timer.beginAdvance.executedTicks =
        timer.executedTicks + (timer.sliceLength - timer.downcount) := by
  obtain ⟨hok, hperm, hts, hticks, hslice, hdowncount⟩ :=
    foldl_pushEvent timer.tsQueue { timer with tsQueue := [] } ⟨h.heap, h.numbered, h.distinct⟩
  refine ⟨⟨hok.heap, hok.numbered, hok.distinct⟩, hperm, hts, ?_⟩
  show timer.moveEvents.executedTicks + (timer.moveEvents.sliceLength - timer.moveEvents.downcount) = _
  unfold Timer.moveEvents
  rw [hticks, hslice, hdowncount]

end Operations

end Borked3DS.Analysis

/-!
## Every scheduled event, once and in order

What a step does to the queues of every core, then the invariants of whole runs: no event is lost
or duplicated, the queues stay heaps, and an `Advance` invokes what is due in order.
-/

namespace Borked3DS.Analysis

open Borked3DS.Library Borked3DS.Model Borked3DS.Interface

variable {τ : Type}

section Trace

variable {core : ℕ} {trace new : List (TimingEntry τ)} {way : Bool → Bool}

@[simp] theorem scheduledOn_append :
    scheduledOn core (trace ++ new) way = scheduledOn core trace way ++ scheduledOn core new way :=
  List.flatMap_append

@[simp] theorem cancelledOn_append :
    cancelledOn core (trace ++ new) = cancelledOn core trace ++ cancelledOn core new :=
  List.flatMap_append

@[simp] theorem invokedOn_append :
    invokedOn core (trace ++ new) = invokedOn core trace ++ invokedOn core new :=
  List.flatMap_append

@[simp] theorem scheduledOn_scheduled {c : ℕ} {direct : Bool} {e : Event τ} :
    scheduledOn core [.scheduled c direct e] way = if c = core ∧ way direct then [e] else [] := by
  simp [scheduledOn]

@[simp] theorem scheduledOn_cancelled {c : Cancellation τ} {taken : List (List (Event τ))} :
    scheduledOn core [.cancelled c taken] way = [] := rfl

@[simp] theorem scheduledOn_invoked {c : ℕ} {e : Event τ} :
    scheduledOn core [.invoked c e] way = [] := rfl

@[simp] theorem cancelledOn_scheduled {c : ℕ} {direct : Bool} {e : Event τ} :
    cancelledOn core [.scheduled c direct e] = [] := rfl

@[simp] theorem cancelledOn_cancelled {c : Cancellation τ} {taken : List (List (Event τ))} :
    cancelledOn core [.cancelled c taken] = (taken.getD core []).map bare := by
  simp [cancelledOn]

@[simp] theorem cancelledOn_invoked {c : ℕ} {e : Event τ} :
    cancelledOn core [.invoked c e] = [] := rfl

@[simp] theorem invokedOn_scheduled {c : ℕ} {direct : Bool} {e : Event τ} :
    invokedOn core [.scheduled c direct e] = [] := rfl

@[simp] theorem invokedOn_cancelled {c : Cancellation τ} {taken : List (List (Event τ))} :
    invokedOn core [.cancelled c taken] = [] := rfl

@[simp] theorem invokedOn_invoked {c : ℕ} {e : Event τ} :
    invokedOn core [.invoked c e] = if c = core then [e] else [] := by
  simp [invokedOn]

@[simp] theorem scheduledOn_nil : scheduledOn core ([] : List (TimingEntry τ)) way = [] := rfl

@[simp] theorem cancelledOn_nil : cancelledOn core ([] : List (TimingEntry τ)) = [] := rfl

@[simp] theorem invokedOn_nil : invokedOn core ([] : List (TimingEntry τ)) = [] := rfl

/-- The events that come to a core come to it in one of the two ways. -/
theorem count_scheduledOn [DecidableEq τ] (core : ℕ) (trace : List (TimingEntry τ))
    (e : Event τ) :
    (scheduledOn core trace fun _ => true).count e =
      (scheduledOn core trace fun direct => direct).count e +
        (scheduledOn core trace fun direct => !direct).count e := by
  induction trace with
  | nil => rfl
  | cons entry trace ih =>
    have hsplit (w : Bool → Bool) : scheduledOn core (entry :: trace) w =
        scheduledOn core [entry] w ++ scheduledOn core trace w := by
      rw [← scheduledOn_append, List.singleton_append]
    rw [hsplit, hsplit, hsplit, List.count_append, List.count_append, List.count_append, ih]
    cases entry with
    | scheduled c direct e' =>
      cases direct with
      | false => simp; omega
      | true => simp; omega
    | cancelled => simp
    | invoked => simp

end Trace

/-- A step of the timing that adds `new` to the trace. -/
structure CoresStep (t t' : Timing τ) (new : List (TimingEntry τ)) : Prop where
  locked : t'.eventQueueLocked = t.eventQueueLocked
  cores : t'.timers.length = t.timers.length
  timers : ∀ core timer', t'.timers[core]? = some timer' →
    ∃ timer, t.timers[core]? = some timer ∧
      TimerStep timer timer' (scheduledOn core new fun direct => direct)
        (scheduledOn core new fun direct => !direct) (cancelledOn core new) (invokedOn core new)

section Steps

variable {t t' : Timing τ} {s s' : TimingRun τ} {core : ℕ} {timer timer' : Timer τ}
  {new : List (TimingEntry τ)}

theorem getTimer_eq_ok : t.getTimer core = .ok timer ↔ t.timers[core]? = some timer := readAt_eq_ok

theorem timerStep_refl : TimerStep timer timer [] [] [] [] := timerStep_same rfl rfl rfl rfl

/-- A step on the timer of one core. -/
theorem coresStep_setTimer (hget : t.timers[core]? = some timer)
    (hself : TimerStep timer timer' (scheduledOn core new fun direct => direct)
      (scheduledOn core new fun direct => !direct) (cancelledOn core new) (invokedOn core new))
    (hothers : ∀ c, c ≠ core → (∀ way, scheduledOn c new way = []) ∧ cancelledOn c new = [] ∧
      invokedOn c new = []) : CoresStep t (t.setTimer core timer') new := by
  have hlt : core < t.timers.length := (List.getElem?_eq_some_iff.mp hget).1
  constructor
  · rfl
  · exact List.length_set
  · intro c timer'' hc
    have hset : (t.timers.set core timer')[c]? = some timer'' := hc
    rw [List.getElem?_set] at hset
    split at hset
    · next heq =>
      subst heq
      cases hset
      exact ⟨timer, hget, hself⟩
    · next hne =>
      obtain ⟨hscheduled, hcancelled, hinvoked⟩ := hothers c (Ne.symm hne)
      refine ⟨timer'', hset, ?_⟩
      rw [hscheduled, hscheduled, hcancelled, hinvoked]
      exact timerStep_refl

/-- A change of one timer that leaves its queues alone. -/
theorem coresStep_modifyTimer {change : Timer τ → Timer τ} (h : t.modifyTimer core change = .ok t')
    (hchange : ∀ timer, TimerStep timer (change timer) [] [] [] []) : CoresStep t t' [] := by
  obtain ⟨timer, hget, hset⟩ := bind_eq_ok.mp h
  cases hset
  exact coresStep_setTimer (getTimer_eq_ok.mp hget) (hchange timer) fun _ _ => ⟨fun _ => rfl, rfl, rfl⟩

theorem forceExceptionCheck_queues (timer : Timer τ) (cycles : ℤ) :
    (timer.forceExceptionCheck cycles).eventQueue = timer.eventQueue ∧
      (timer.forceExceptionCheck cycles).tsQueue = timer.tsQueue ∧
      (timer.forceExceptionCheck cycles).eventFifoId = timer.eventFifoId ∧
      (timer.forceExceptionCheck cycles).executedTicks = timer.executedTicks := by
  unfold Timer.forceExceptionCheck
  dsimp only
  split
  · exact ⟨rfl, rfl, rfl, rfl⟩
  · exact ⟨rfl, rfl, rfl, rfl⟩

/-- An operation after one that leaves the queues alone. -/
theorem TimerStep.after_same {timer'' : Timer τ} {direct deferred cancelled invoked : List (Event τ)}
    (h : TimerStep timer' timer'' direct deferred cancelled invoked)
    (hqueue : timer'.eventQueue = timer.eventQueue) (hts : timer'.tsQueue = timer.tsQueue)
    (hfifo : timer'.eventFifoId = timer.eventFifoId)
    (hticks : timer'.executedTicks = timer.executedTicks) :
    TimerStep timer timer'' direct deferred cancelled invoked := by
  have hsame := timerStep_same hqueue hts hfifo hticks
  constructor
  · rw [← hqueue]
    exact h.queue
  · rw [← hts]
    exact h.deferral
  · intro hok
    exact h.ok (hsame.ok hok)
  · rw [h.ticks, hticks]
  · rw [← hfifo]
    exact h.fifo
  · rw [← hfifo, ← hqueue]
    exact h.origin

theorem scheduleEvent_coresStep {n : ℤ} {type : τ} {userData : ℕ} {coreId : Option ℕ} {mode : Bool}
    (hlock : t.eventQueueLocked = false)
    (h : t.scheduleEvent n type userData coreId mode = .ok t') :
    CoresStep t t' (scheduledEvent n type userData coreId mode t) := by
  unfold Timing.scheduleEvent at h
  rw [hlock, if_neg (by decide)] at h
  obtain ⟨core, hcore, h⟩ := bind_eq_ok.mp h
  obtain ⟨timer, hget, h⟩ := bind_eq_ok.mp h
  rw [getTimer_eq_ok] at hget
  have hchosen : coreId.getD t.currentTimer = core := by
    cases coreId with
    | none =>
      cases hcore
      rfl
    | some c =>
      obtain ⟨_, _, hpure⟩ := bind_eq_ok.mp hcore
      cases hpure
      rfl
  unfold scheduledEvent
  dsimp only
  rw [hchosen, hget]
  dsimp only
  have hothers (direct : Bool) (e : Event τ) (c : ℕ) (hc : c ≠ core) :
      (∀ way, scheduledOn c [TimingEntry.scheduled core direct e] way = []) ∧
        cancelledOn c [TimingEntry.scheduled core direct e] = [] ∧
        invokedOn c [TimingEntry.scheduled core direct e] = [] := by
    refine ⟨?_, rfl, rfl⟩
    intro way
    rw [scheduledOn_scheduled, if_neg]
    intro hand
    exact hc hand.1.symm
  cases mode with
  | true =>
    rw [if_pos rfl] at h
    cases h
    apply coresStep_setTimer hget _ (hothers _ _)
    simp only [Bool.not_true, Bool.false_and, scheduledOn_scheduled, cancelledOn_scheduled,
      invokedOn_scheduled, Bool.false_eq_true, and_false, if_false, Bool.not_false, and_true, if_true]
    exact timerStep_defer rfl
  | false =>
    rw [if_neg (by decide)] at h
    by_cases hcurrent : t.currentTimer = core
    · rw [if_pos hcurrent] at h
      cases h
      apply coresStep_setTimer hget _ (hothers _ _)
      simp only [hcurrent, decide_true, Bool.not_false, Bool.and_self, Bool.false_eq_true, if_false,
        scheduledOn_scheduled, cancelledOn_scheduled, invokedOn_scheduled, Bool.not_true, and_false,
        and_true, if_true]
      split
      · exact timerStep_pushEvent rfl
      · obtain ⟨hqueue, hts, hfifo, hticks⟩ :=
          forceExceptionCheck_queues timer n
        exact (timerStep_pushEvent rfl).after_same hqueue hts hfifo hticks
    · rw [if_neg hcurrent] at h
      cases h
      apply coresStep_setTimer hget _ (hothers _ _)
      simp only [hcurrent, decide_false, Bool.and_false, Bool.false_eq_true, if_false,
        scheduledOn_scheduled, cancelledOn_scheduled, invokedOn_scheduled, Bool.not_false, and_false,
        and_true, if_true]
      exact timerStep_defer rfl

/-- A cancellation, on all cores. -/
theorem coresStep_erase [DecidableEq τ] {c : Cancellation τ} {erased : Event τ → Bool}
    (herased : erased = c.covers) :
    CoresStep t { t with timers := t.timers.map (Timer.eraseEvents erased) } (cancelledEvents c t) := by
  subst herased
  constructor
  · rfl
  · exact List.length_map _
  · intro core timer' hget
    have hmap : (t.timers.map (Timer.eraseEvents c.covers))[core]? = some timer' := hget
    rw [List.getElem?_map, Option.map_eq_some_iff] at hmap
    obtain ⟨timer, htimer, rfl⟩ := hmap
    refine ⟨timer, htimer, ?_⟩
    unfold cancelledEvents
    rw [scheduledOn_cancelled, scheduledOn_cancelled, cancelledOn_cancelled, invokedOn_cancelled,
      List.getD_eq_getElem?_getD, List.getElem?_map, htimer]
    exact timerStep_eraseEvents

theorem covers_userData [DecidableEq τ] {type : τ} {userData : ℕ} :
    (fun e : Event τ => decide (e.type = type ∧ e.userData = userData)) =
      (Cancellation.mk type (some userData)).covers := by
  funext e
  simp [Cancellation.covers, eq_comm]

theorem covers_type [DecidableEq τ] {type : τ} :
    (fun e : Event τ => decide (e.type = type)) = (Cancellation.mk type none).covers := by
  funext e
  simp [Cancellation.covers]

/-- A call, on all cores. -/
theorem call_coresStep [DecidableEq τ] {c : TimingCall τ} (hlock : t.eventQueueLocked = false)
    (h : c.program t = .ok t') : CoresStep t t' (c.entries t) := by
  cases c with
  | scheduleEvent n type userData coreId mode => exact scheduleEvent_coresStep hlock h
  | unscheduleEvent type userData =>
    cases h
    unfold Timing.unscheduleEvent
    rw [if_neg (by rw [hlock]; decide)]
    exact coresStep_erase covers_userData
  | removeEvent type =>
    cases h
    unfold Timing.removeEvent
    rw [if_neg (by rw [hlock]; decide)]
    exact coresStep_erase covers_type
  | addTicks core ticks => exact coresStep_modifyTimer h fun _ => timerStep_same rfl rfl rfl rfl
  | setNextSlice core n => exact coresStep_modifyTimer h fun _ => timerStep_same rfl rfl rfl rfl
  | idle core => exact coresStep_modifyTimer h fun _ => timerStep_same rfl rfl rfl rfl
  | setDowncountHack core hack =>
    exact coresStep_modifyTimer h fun _ => timerStep_same rfl rfl rfl rfl
  | setCurrentTimer core =>
    obtain ⟨_, _, hset⟩ := bind_eq_ok.mp h
    cases hset
    constructor
    · rfl
    · rfl
    · intro c timer' hget
      exact ⟨timer', hget, timerStep_refl⟩

theorem dueEvent_eq_some {e : Event τ} :
    dueEvent timer = some e ↔ ∃ rest, timer.eventQueue = e :: rest ∧ e.time ≤ timer.executedTicks := by
  unfold dueEvent
  cases timer.eventQueue with
  | nil => simp
  | cons front rest =>
    simp only [Option.ite_none_right_eq_some, Option.some.injEq, List.cons.injEq]
    constructor
    · rintro ⟨hdue, rfl⟩
      exact ⟨rest, ⟨rfl, rfl⟩, hdue⟩
    · rintro ⟨_, ⟨rfl, _⟩, hdue⟩
      exact ⟨hdue, rfl⟩

theorem advancingTimer_eq_ok : s.advancingTimer = .ok (core, timer) ↔
    s.advancing = some core ∧ s.timing.timers[core]? = some timer := by
  unfold TimingRun.advancingTimer
  rw [bind_eq_ok]
  constructor
  · rintro ⟨c, hc, hrest⟩
    obtain ⟨timer', hget, hpure⟩ := bind_eq_ok.mp hrest
    cases hpure
    refine ⟨?_, getTimer_eq_ok.mp hget⟩
    cases hadvancing : s.advancing with
    | none =>
      rw [hadvancing] at hc
      cases hc
    | some c' =>
      rw [hadvancing] at hc
      cases hc
      rfl
  · rintro ⟨hadvancing, hget⟩
    rw [hadvancing]
    exact ⟨core, rfl, bind_eq_ok.mpr ⟨timer, getTimer_eq_ok.mpr hget, rfl⟩⟩

variable [DecidableEq τ]

/-- What a call step is. -/
theorem call_spec {c : TimingCall τ} (h : timingStep s (.call c) = .ok s') :
    ∃ t', c.program s.timing = .ok t' ∧
      s' = { s with timing := t', trace := s.trace ++ c.entries s.timing } := by
  obtain ⟨t', hprogram, hpure⟩ := bind_eq_ok.mp h
  cases hpure
  exact ⟨t', hprogram, rfl⟩

theorem beginAdvance_step (h : timingStep s (.beginAdvance core) = .ok s') :
    s.advancing = none ∧ ∃ timer, s.timing.timers[core]? = some timer ∧
      s' = { s with timing := s.timing.setTimer core timer.beginAdvance, advancing := some core } := by
  change (if s.advancing = none then _ else _) = _ at h
  by_cases hadvancing : s.advancing = none
  · rw [if_pos hadvancing] at h
    obtain ⟨t', hmodify, hpure⟩ := bind_eq_ok.mp h
    obtain ⟨timer, hget, hset⟩ := bind_eq_ok.mp hmodify
    cases hset
    cases hpure
    exact ⟨hadvancing, timer, getTimer_eq_ok.mp hget, rfl⟩
  · rw [if_neg hadvancing] at h
    cases h

theorem invoke_step (h : timingStep s .invoke = .ok s') :
    ∃ core timer e, s.advancing = some core ∧ s.timing.timers[core]? = some timer ∧
      dueEvent timer = some e ∧
      s' = { s with
        timing := s.timing.setTimer core timer.popEvent
        trace := s.trace ++ [.invoked core e] } := by
  obtain ⟨⟨core, timer⟩, hadvancing, h⟩ := bind_eq_ok.mp h
  obtain ⟨hcore, hget⟩ := advancingTimer_eq_ok.mp hadvancing
  dsimp only at h
  split at h
  · cases h
  · next e hdue =>
    cases h
    exact ⟨core, timer, e, hcore, hget, hdue, rfl⟩

theorem endAdvance_step (h : timingStep s .endAdvance = .ok s') :
    ∃ core timer, s.advancing = some core ∧ s.timing.timers[core]? = some timer ∧
      dueEvent timer = none ∧
      s' = { s with
        timing := s.timing.setTimer core { timer with isTimerSane := false }
        advancing := none } := by
  obtain ⟨⟨core, timer⟩, hadvancing, h⟩ := bind_eq_ok.mp h
  obtain ⟨hcore, hget⟩ := advancingTimer_eq_ok.mp hadvancing
  dsimp only at h
  split at h
  · next hdue =>
    cases h
    exact ⟨core, timer, hcore, hget, hdue, rfl⟩
  · cases h

/-- Every step but the beginning of an `Advance`, on all cores. -/
theorem timingStep_coresStep {st : TimingStep τ} (hlock : s.timing.eventQueueLocked = false)
    (hok : ∀ (core : ℕ) (timer : Timer τ), s.timing.timers[core]? = some timer → QueueOk timer)
    (hst : ∀ core, st ≠ .beginAdvance core) (h : timingStep s st = .ok s') :
    ∃ new, s'.trace = s.trace ++ new ∧ CoresStep s.timing s'.timing new := by
  cases st with
  | call c =>
    obtain ⟨t', hprogram, rfl⟩ := call_spec h
    exact ⟨_, rfl, call_coresStep hlock hprogram⟩
  | beginAdvance core => exact absurd rfl (hst core)
  | invoke =>
    obtain ⟨core, timer, e, _, hget, hdue, rfl⟩ := invoke_step h
    obtain ⟨rest, hqueue, _⟩ := dueEvent_eq_some.mp hdue
    refine ⟨_, rfl, coresStep_setTimer hget ?_ ?_⟩
    · rw [scheduledOn_invoked, scheduledOn_invoked, cancelledOn_invoked, invokedOn_invoked, if_pos rfl]
      exact timerStep_popEvent (hok core timer hget) hqueue
    · intro c hc
      refine ⟨fun _ => rfl, rfl, ?_⟩
      rw [invokedOn_invoked, if_neg (Ne.symm hc)]
  | endAdvance =>
    obtain ⟨core, timer, _, hget, _, rfl⟩ := endAdvance_step h
    exact ⟨[], (List.append_nil _).symm, coresStep_setTimer hget
      (timerStep_same rfl rfl rfl rfl) fun _ _ => ⟨fun _ => rfl, rfl, rfl⟩⟩

end Steps

end Borked3DS.Analysis
