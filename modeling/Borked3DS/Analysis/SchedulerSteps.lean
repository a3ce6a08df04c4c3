import Borked3DS.Analysis.NextThread

/-!
# What the functions of a thread keep

Every function of `thread.cpp`, `mutex.cpp` and `wait_object.cpp` keeps the invariant of the
scheduler. Those that only move priorities about also keep every status (`StatusesAre`), which is
what the functions that set one later rely on.
-/

set_option autoImplicit false

namespace Borked3DS.Analysis

open Borked3DS.Library Borked3DS.Model Borked3DS.Interface ThreadQueueList

/-- The invariant, in a state with the given statuses. -/
def StatusesAre (status : ℕ → Option ThreadStatus) (s : ThreadManager) : Prop :=
  SchedulerInvariant s ∧ ∀ t, (s.threads t).map (fun th => th.status) = status t

/-- What keeps the invariant whatever the statuses are keeps the invariant. -/
theorem keeps_of_statuses {α : Type} {m : ManagerM α} (h : ∀ status, Keeps (StatusesAre status) m) :
    Keeps SchedulerInvariant m :=
  fun s a s' hs hrun => (h _ s a s' ⟨hs, fun _ => rfl⟩ hrun).1

section Writes

variable {s : ThreadManager} {t : ℕ} {th th' : Thread}

theorem readyLevel_update (threads : ℕ → Option Thread) :
    readyLevel (Function.update threads t (some th')) =
      Function.update (readyLevel threads) t
        (if th'.status = .ready then some th'.currentPriority else none) := by
  funext u
  unfold readyLevel
  by_cases hu : u = t
  · subst hu
    simp
  · simp [hu]

theorem readyLevel_eq (hth : s.threads t = some th) :
    readyLevel s.threads t = if th.status = .ready then some th.currentPriority else none := by
  unfold readyLevel
  rw [hth]

/-- A thread is written together with the queue: what the invariant asks for. -/
theorem SchedulerInvariant.write (h : SchedulerInvariant s) (hth : s.threads t = some th)
    {q : ReadyQueue} {ls : List ℕ} (hq : Linked q ls) (hprios : PrioritiesLinked s.threads ls)
    (hfiles : Files q (Function.update (readyLevel s.threads) t
      (if th'.status = .ready then some th'.currentPriority else none)))
    (hcurrent : th'.currentPriority ∈ ls) (hnominal : th'.nominalPriority ∈ ls)
    (hrunning : th'.status = .running → s.currentThread = some t) :
    SchedulerInvariant
      { s with readyQueue := q, threads := Function.update s.threads t (some th') } where
  linked := by
    refine ⟨ls, hq, ?_⟩
    intro u x hx
    by_cases hu : u = t
    · subst hu
      simp only [Function.update_self, Option.some.injEq] at hx
      subst hx
      exact ⟨hcurrent, hnominal⟩
    · simp only [Function.update_of_ne hu] at hx
      exact hprios u x hx
  files := by
    rw [readyLevel_update]
    exact hfiles
  running u x hx hrun := by
    by_cases hu : u = t
    · subst hu
      simp only [Function.update_self, Option.some.injEq] at hx
      subst hx
      exact hrunning hrun
    · simp only [Function.update_of_ne hu] at hx
      exact h.running u x hx hrun
  current u hu := by
    by_cases hut : u = t
    · subst hut
      simp
    · simp only [Function.update_of_ne hut]
      exact h.current u hu
  parked := h.parked

/-- Writing fields of a thread that the scheduler does not look at. -/
theorem SchedulerInvariant.writeAside (h : SchedulerInvariant s) (hth : s.threads t = some th)
    (hstatus : th'.status = th.status) (hcurrent : th'.currentPriority = th.currentPriority)
    (hnominal : th'.nominalPriority = th.nominalPriority) :
    SchedulerInvariant { s with threads := Function.update s.threads t (some th') } := by
  obtain ⟨ls, hq, hprios⟩ := h.linked
  refine h.write hth hq hprios ?_ ?_ ?_ ?_
  · rw [hstatus, hcurrent, ← readyLevel_eq hth, Function.update_eq_self]
    exact h.files
  · rw [hcurrent]
    exact (hprios t th hth).1
  · rw [hnominal]
    exact (hprios t th hth).2
  · intro hrun
    exact h.running t th hth (hstatus ▸ hrun)

theorem statuses_update {status : ℕ → Option ThreadStatus}
    (h : ∀ u, (s.threads u).map (fun th => th.status) = status u) (hth : s.threads t = some th)
    (hstatus : th'.status = th.status) (u : ℕ) :
    ((Function.update s.threads t (some th')) u).map (fun th => th.status) = status u := by
  by_cases hu : u = t
  · subst hu
    rw [Function.update_self, ← h u, hth]
    simp [hstatus]
  · rw [Function.update_of_ne hu]
    exact h u

/-- A state that differs in nothing the invariant reads. -/
theorem SchedulerInvariant.aside (h : SchedulerInvariant s) {s' : ThreadManager}
    (hthreads : s'.threads = s.threads) (hqueue : s'.readyQueue = s.readyQueue)
    (hcurrent : s'.currentThread = s.currentThread)
    (hparked : s'.unscheduledReadyQueue = s.unscheduledReadyQueue) : SchedulerInvariant s' where
  linked := by
    rw [hqueue, hthreads]
    exact h.linked
  files := by
    rw [hqueue, hthreads]
    exact h.files
  running := by
    rw [hthreads, hcurrent]
    exact h.running
  current := by
    rw [hthreads, hcurrent]
    exact h.current
  parked := by
    rw [hparked]
    exact h.parked

end Writes

/-! ## Accesses -/

section Accesses

variable {p : ThreadManager → Prop} {status : ℕ → Option ThreadStatus}

theorem keeps_undefined {α : Type} : Keeps p (undefined : ManagerM α) := Keeps.throw _

theorem keeps_ensure (c : Bool) (site : AssertSite) : Keeps p (ensure c site) := Keeps.lift _

theorem keeps_getThread (t : ℕ) : Keeps p (getThread t) := by
  intro s th s' hs hrun
  rw [(getThread_eq_ok.mp hrun).2]
  exact hs

theorem keeps_getObject (o : ℕ) : Keeps p (getObject o) := by
  unfold getObject
  refine Keeps.bind Keeps.get fun s => ?_
  split
  next => exact Keeps.pure _
  next => exact keeps_undefined

theorem keeps_getMutex (m : ℕ) : Keeps p (getMutex m) := by
  unfold getMutex
  refine Keeps.bind (keeps_getObject m) fun ob => ?_
  split
  next => exact Keeps.pure _
  next => exact keeps_undefined

theorem keeps_modifyObject (o : ℕ) (f : WaitObject → WaitObject) :
    Keeps (StatusesAre status) (modifyObject o f) := by
  unfold modifyObject
  refine Keeps.bind (keeps_getObject o) fun ob => ?_
  exact Triple.modify fun s hs => ⟨hs.1.aside rfl rfl rfl rfl, hs.2⟩

theorem keeps_setMutex (m : ℕ) (mx : Mutex) : Keeps (StatusesAre status) (setMutex m mx) :=
  keeps_modifyObject m _

theorem keeps_modifyThread {f : Thread → Thread} (t : ℕ) (hstatus : ∀ th, (f th).status = th.status)
    (hcurrent : ∀ th, (f th).currentPriority = th.currentPriority)
    (hnominal : ∀ th, (f th).nominalPriority = th.nominalPriority) :
    Keeps (StatusesAre status) (modifyThread t f) := by
  intro s u s' hs hrun
  obtain ⟨th, hth, rfl⟩ := modifyThread_eq_ok.mp hrun
  exact ⟨hs.1.writeAside hth (hstatus th) (hcurrent th) (hnominal th),
    statuses_update hs.2 hth (hstatus th)⟩

end Accesses

/-! ## Priorities -/

section Priorities

variable {s : ThreadManager} {status : ℕ → Option ThreadStatus}

theorem count_append_singleton {l : List ℕ} {t : ℕ} (u : ℕ) :
    (l ++ [t]).count u = l.count u + if u = t then 1 else 0 := by
  rw [List.count_append]
  by_cases hu : u = t
  · subst hu
    simp
  · have hne : ¬ t = u := fun heq => hu heq.symm
    simp [hu, hne]

/-- A thread's place in the queue follows its priority: it moves if it is ready, and the level is
linked in any case. -/
theorem moveOrPrepare_ok (h : SchedulerInvariant s) {t priority : ℕ} {th : Thread}
    (hth : s.threads t = some th) {q : ReadyQueue}
    (hq : (if th.status = .ready then s.readyQueue.move t th.currentPriority priority
      else s.readyQueue.prepare priority) = .ok q) :
    ∃ ls, Linked q ls ∧ PrioritiesLinked s.threads ls ∧ priority ∈ ls ∧
      Files q (Function.update (readyLevel s.threads) t
        (if th.status = .ready then some priority else none)) := by
  obtain ⟨ls, hlinked, hprios⟩ := h.linked
  by_cases hready : th.status = .ready
  · rw [if_pos hready] at hq ⊢
    have hmem := (hprios t th hth).1
    obtain ⟨q₁, hremove, hq⟩ := bind_eq_ok.mp hq
    obtain ⟨q₂, hprepare, hpush⟩ := bind_eq_ok.mp hq
    obtain ⟨-, rfl⟩ := remove_eq_ok.mp hremove
    obtain ⟨q₂', ls', hprep', hlinked₂, hin, hsub, hlane⟩ :=
      prepare_ok (hlinked.setData (.inl hmem)) (prepare_lt hprepare)
    rw [hprepare] at hprep'
    cases hprep'
    obtain ⟨-, rfl⟩ := pushBack_eq_ok.mp hpush
    refine ⟨ls', hlinked₂.setData (.inl hin), ?_, hin, ?_⟩
    · intro u x hx
      exact ⟨hsub _ (hprios u x hx).1, hsub _ (hprios u x hx).2⟩
    · have hlevel : ∀ j, readyLevel s.threads t = some j → j = th.currentPriority := by
        intro j hj
        rw [readyLevel_eq hth, if_pos hready] at hj
        exact (Option.some.inj hj).symm
      have hout : Files q₂ (Function.update (readyLevel s.threads) t none) :=
        (h.files.remove hlevel).congr hlane
      have hcount : ∀ u, (q₂.lane priority ++ [t]).count u =
          (q₂.lane priority).count u + if u = t then 1 else 0 := count_append_singleton
      simpa using hout.insert (t := t) (by simp) hcount
  · rw [if_neg hready] at hq ⊢
    obtain ⟨q', ls', hprep', hlinked', hin, hsub, hlane⟩ := prepare_ok hlinked (prepare_lt hq)
    rw [hq] at hprep'
    cases hprep'
    refine ⟨ls', hlinked', ?_, hin, ?_⟩
    · intro u x hx
      exact ⟨hsub _ (hprios u x hx).1, hsub _ (hprios u x hx).2⟩
    · have hsame : Function.update (readyLevel s.threads) t none = readyLevel s.threads := by
        have hlevel := readyLevel_eq hth
        rw [if_neg hready] at hlevel
        rw [← hlevel, Function.update_eq_self]
      rw [hsame]
      exact h.files.congr hlane

/-- `BoostPriority` and `SetPriority` from the queue on. -/
theorem keeps_movePriority {t priority : ℕ} {th : Thread} {f : Thread → Thread}
    (hstatus : ∀ th, (f th).status = th.status)
    (hcurrent : ∀ th, (f th).currentPriority = priority)
    (hnominal : ∀ th, (f th).nominalPriority = priority ∨
      (f th).nominalPriority = th.nominalPriority) :
    Triple (fun s => StatusesAre status s ∧ s.threads t = some th)
      (do
        if th.status = .ready then modifyQueue fun q => q.move t th.currentPriority priority
        else modifyQueue fun q => q.prepare priority
        modifyThread t f : ManagerM Unit)
      fun _ => StatusesAre status := by
  rintro s u s' ⟨⟨hs, hstat⟩, hth⟩ hrun
  have hqueue : ∃ q, (if th.status = .ready then s.readyQueue.move t th.currentPriority priority
      else s.readyQueue.prepare priority) = .ok q ∧
      modifyThread t f { s with readyQueue := q } = .ok (u, s') := by
    split at hrun
    next hready =>
      obtain ⟨_, s₁, hmove, hrun⟩ := stateT_bind_eq_ok.mp hrun
      obtain ⟨q, hq, rfl⟩ := modifyQueue_eq_ok.mp hmove
      exact ⟨q, by rw [if_pos hready]; exact hq, hrun⟩
    next hready =>
      obtain ⟨_, s₁, hprepare, hrun⟩ := stateT_bind_eq_ok.mp hrun
      obtain ⟨q, hq, rfl⟩ := modifyQueue_eq_ok.mp hprepare
      exact ⟨q, by rw [if_neg hready]; exact hq, hrun⟩
  obtain ⟨q, hq, hwrite⟩ := hqueue
  obtain ⟨th', hth', rfl⟩ := modifyThread_eq_ok.mp hwrite
  rw [hth] at hth'
  cases hth'
  obtain ⟨ls, hlinked, hprios, hin, hfiles⟩ := moveOrPrepare_ok hs hth hq
  refine ⟨hs.write hth hlinked hprios ?_ ?_ ?_ ?_, statuses_update hstat hth (hstatus th)⟩
  · rw [hstatus, hcurrent]
    exact hfiles
  · rw [hcurrent]
    exact hin
  · rcases hnominal th with heq | heq
    · rw [heq]
      exact hin
    · rw [heq]
      exact (hprios t th hth).2
  · intro hrunning
    exact hs.running t th hth (hstatus th ▸ hrunning)

theorem getThread_triple {p : ThreadManager → Prop} (t : ℕ) :
    Triple p (getThread t) fun th s => p s ∧ s.threads t = some th := by
  intro s th s' hs hrun
  obtain ⟨hth, rfl⟩ := getThread_eq_ok.mp hrun
  exact ⟨hs, hth⟩

/-- `Thread::BoostPriority`.
SOURCE: thread.cpp:427-434 -/
theorem keeps_boostPriority (t priority : ℕ) :
    Keeps (StatusesAre status) (boostPriority t priority) := by
  unfold boostPriority
  refine Triple.bind (getThread_triple t) fun th => ?_
  exact keeps_movePriority (fun _ => rfl) (fun _ => rfl) fun _ => .inr rfl

/-- `Thread::SetPriority`.
SOURCE: thread.cpp:406-416 -/
theorem keeps_setPriority (t priority : ℕ) :
    Keeps (StatusesAre status) (setPriority t priority) := by
  unfold setPriority
  refine Keeps.bind (keeps_ensure _ _) fun _ => ?_
  refine Triple.bind (getThread_triple t) fun th => ?_
  exact keeps_movePriority (fun _ => rfl) (fun _ => rfl) fun _ => .inl rfl

theorem keeps_updatePriority (t : ℕ) : Keeps (StatusesAre status) (updatePriority t) := by
  unfold updatePriority
  refine Keeps.bind (keeps_getThread t) fun th => ?_
  refine Keeps.bind (Keeps.foldlM _ _ fun best m => ?_) fun best => keeps_boostPriority t best
  exact Keeps.bind (keeps_getMutex m) fun mx => Keeps.pure _

theorem keeps_mutexUpdatePriority (m : ℕ) :
    Keeps (StatusesAre status) (mutexUpdatePriority m) := by
  unfold mutexUpdatePriority
  refine Keeps.bind (keeps_getMutex m) fun mx => ?_
  split
  next => exact Keeps.pure _
  next holder _ =>
    refine Keeps.bind (keeps_getObject m) fun ob => ?_
    refine Keeps.bind (Keeps.foldlM _ _ fun best w => ?_) fun best => ?_
    · exact Keeps.bind (keeps_getThread w) fun waiter => Keeps.pure _
    · split
      next => exact Keeps.bind (keeps_setMutex _ _) fun _ => keeps_updatePriority holder
      next => exact Keeps.pure _

end Priorities

/-! ## Objects -/

section Objects

variable {status : ℕ → Option ThreadStatus}

theorem keeps_addWaitingThread (o t : ℕ) : Keeps (StatusesAre status) (addWaitingThread o t) := by
  unfold addWaitingThread
  refine Keeps.bind (keeps_modifyObject _ _) fun _ => ?_
  refine Keeps.bind (keeps_getObject o) fun ob => ?_
  split
  next =>
    refine Keeps.bind (keeps_modifyThread t ?_ ?_ ?_) fun _ => keeps_mutexUpdatePriority o
    all_goals exact fun _ => rfl
  next => exact Keeps.pure _

theorem keeps_removeWaitingThread (o t : ℕ) :
    Keeps (StatusesAre status) (removeWaitingThread o t) := by
  unfold removeWaitingThread
  refine Keeps.bind (keeps_modifyObject _ _) fun _ => ?_
  refine Keeps.bind (keeps_getObject o) fun ob => ?_
  split
  next =>
    refine Keeps.bind (keeps_modifyThread t ?_ ?_ ?_) fun _ => keeps_mutexUpdatePriority o
    all_goals exact fun _ => rfl
  next => exact Keeps.pure _

theorem keeps_shouldWait {p : ThreadManager → Prop} (o t : ℕ) : Keeps p (shouldWait o t) := by
  unfold shouldWait
  refine Keeps.bind (keeps_getObject o) fun ob => ?_
  split
  next => exact Keeps.bind (keeps_getThread o) fun th => Keeps.pure _
  all_goals exact Keeps.pure _

theorem keeps_acquire (o t : ℕ) : Keeps (StatusesAre status) (acquire o t) := by
  unfold acquire
  refine Keeps.bind (keeps_shouldWait o t) fun wait => ?_
  refine Keeps.bind (keeps_getObject o) fun ob => ?_
  split
  next => exact keeps_ensure _ _
  next mx =>
    refine Keeps.bind (keeps_ensure _ _) fun _ => ?_
    have hlast : Keeps (StatusesAre status) (do
        let mx ← getMutex o
        setMutex o { mx with lockCount := mx.lockCount + 1 }) :=
      Keeps.bind (keeps_getMutex o) fun mx => keeps_setMutex _ _
    split
    next =>
      refine Keeps.bind (keeps_getThread t) fun th => ?_
      refine Keeps.bind (keeps_setMutex _ _) fun _ => ?_
      refine Keeps.bind (keeps_modifyThread t ?_ ?_ ?_) fun _ => ?_
      iterate 3 exact fun _ => rfl
      exact Keeps.bind (keeps_updatePriority t) fun _ => hlast
    next => exact hlast
  next e =>
    refine Keeps.bind (keeps_ensure _ _) fun _ => ?_
    split
    next => exact keeps_modifyObject _ _
    next => exact Keeps.pure _
  next e =>
    refine Keeps.bind (keeps_ensure _ _) fun _ => ?_
    split
    next => exact keeps_modifyObject _ _
    next => exact Keeps.pure _
  next sm =>
    split
    next => exact Keeps.pure _
    next => exact keeps_modifyObject _ _
  next ss =>
    refine Keeps.bind (keeps_ensure _ _) fun _ => ?_
    split
    next => exact Keeps.pure _
    next =>
      split
      next => exact keeps_ensure _ _
      next => exact keeps_modifyObject _ _
  next => exact keeps_ensure _ _

end Objects

end Borked3DS.Analysis
