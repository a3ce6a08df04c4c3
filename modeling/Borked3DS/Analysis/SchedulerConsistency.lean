import Borked3DS.Interface.Scheduling
import Borked3DS.Analysis.SchedulerSteps

/-!
# The scheduler is consistent in every reachable state

Waking up, stopping, creating and switching threads keep the invariant, and with them every call.
A reschedule breaks it for a moment: between taking a thread out of the queue and loading it, the
queue lacks a ready thread (`FilesBut`).
-/

set_option autoImplicit false

namespace Borked3DS.Analysis

open Borked3DS.Library Borked3DS.Model Borked3DS.Interface ThreadQueueList

/-! ## Setting a status -/

section Statuses

variable {s : ThreadManager} {t : ℕ} {th : Thread}

theorem keeps_modifyAside {f : Thread → Thread} (t : ℕ) (hstatus : ∀ th, (f th).status = th.status)
    (hcurrent : ∀ th, (f th).currentPriority = th.currentPriority)
    (hnominal : ∀ th, (f th).nominalPriority = th.nominalPriority) :
    Keeps SchedulerInvariant (modifyThread t f) :=
  keeps_of_statuses fun _ => keeps_modifyThread t hstatus hcurrent hnominal

/-- A thread that is not ready gets another status that is not ready, nor running. -/
theorem setStatus_triple {f : Thread → Thread} {status : ThreadStatus} (hready : status ≠ .ready)
    (hrunning : status ≠ .running) (hstatus : ∀ th, (f th).status = status)
    (hcurrent : ∀ th, (f th).currentPriority = th.currentPriority)
    (hnominal : ∀ th, (f th).nominalPriority = th.nominalPriority) :
    Triple (fun s => SchedulerInvariant s ∧ ∀ th, s.threads t = some th → th.status ≠ .ready)
      (modifyThread t f) fun _ => SchedulerInvariant := by
  rintro s u s' ⟨hs, hnot⟩ hrun
  obtain ⟨th, hth, rfl⟩ := modifyThread_eq_ok.mp hrun
  obtain ⟨ls, hlinked, hprios⟩ := hs.linked
  refine hs.write hth hlinked hprios ?_ ?_ ?_ ?_
  · have hlevel := readyLevel_eq hth
    rw [if_neg (hnot th hth)] at hlevel
    rw [hstatus, if_neg hready, ← hlevel, Function.update_eq_self]
    exact hs.files
  · rw [hcurrent]
    exact (hprios t th hth).1
  · rw [hnominal]
    exact (hprios t th hth).2
  · intro heq
    exact absurd ((hstatus th).symm.trans heq) hrunning

/-- A thread that is not ready enters the queue as it becomes so. -/
theorem enqueueReady_triple :
    Triple (fun s => SchedulerInvariant s ∧ ∀ th, s.threads t = some th → th.status ≠ .ready)
      (enqueueReady t) fun _ => SchedulerInvariant := by
  rintro s u s' ⟨hs, hnot⟩ hrun
  obtain ⟨th, s₁, hget, hrest⟩ := stateT_bind_eq_ok.mp hrun
  obtain ⟨hth, rfl⟩ := getThread_eq_ok.mp hget
  obtain ⟨_, s₂, hqueue, hwrite⟩ := stateT_bind_eq_ok.mp hrest
  obtain ⟨q, hpush, rfl⟩ := modifyQueue_eq_ok.mp hqueue
  obtain ⟨-, rfl⟩ := pushBack_eq_ok.mp hpush
  obtain ⟨th', hth', rfl⟩ := modifyThread_eq_ok.mp hwrite
  rw [hth] at hth'
  cases hth'
  obtain ⟨ls, hlinked, hprios⟩ := hs.linked
  have hlevel := readyLevel_eq hth
  rw [if_neg (hnot th hth)] at hlevel
  have hmem := hprios t th hth
  refine hs.write hth (hlinked.setData (.inl hmem.1)) hprios ?_ hmem.1 hmem.2 ?_
  · rw [if_pos rfl]
    exact hs.files.insert hlevel count_append_singleton
  · intro heq
    cases heq

/-- `Thread::ResumeFromWait`.
SOURCE: thread.cpp:281-318 -/
theorem keeps_resumeFromWait (t : ℕ) : Keeps SchedulerInvariant (resumeFromWait t) := by
  unfold resumeFromWait
  refine Triple.bind (getThread_triple t) fun th => ?_
  have hresume : th.status ≠ .ready →
      Triple (fun s => SchedulerInvariant s ∧ s.threads t = some th) (do
        modifyThread t fun th => { th with wakeupCallback := false }
        enqueueReady t) fun _ => SchedulerInvariant := by
    rintro hnot s u s' ⟨hs, hth⟩ hrun
    obtain ⟨_, s₁, hmodify, hrun⟩ := stateT_bind_eq_ok.mp hrun
    refine enqueueReady_triple s₁ u s' ⟨?_, ?_⟩ hrun
    · refine keeps_modifyAside t ?_ ?_ ?_ s _ s₁ hs hmodify
      all_goals exact fun _ => rfl
    · obtain ⟨th', hth', rfl⟩ := modifyThread_eq_ok.mp hmodify
      rw [hth] at hth'
      cases hth'
      intro x hx
      simp only [Function.update_self, Option.some.injEq] at hx
      subst hx
      exact hnot
  refine Triple.bind (q := fun _ s => SchedulerInvariant s ∧ s.threads t = some th)
    (keeps_ensure _ _) fun _ => ?_
  split
  next => exact (keeps_ensure _ _).weaken (fun s hs => hs) fun _ s hs => hs.1
  next => exact Triple.pure fun s hs => hs.1
  next => exact Triple.pure fun s hs => hs.1
  next hready _ _ => exact hresume hready

/-- A thread dies, and leaves the queue if it was ready. -/
theorem keeps_markDead (t : ℕ) : Keeps SchedulerInvariant (markDead t) := by
  intro s u s' hs hrun
  obtain ⟨th, s₁, hget, hrest⟩ := stateT_bind_eq_ok.mp hrun
  obtain ⟨hth, rfl⟩ := getThread_eq_ok.mp hget
  obtain ⟨ls, hlinked, hprios⟩ := hs.linked
  have hmem := hprios t th hth
  by_cases hready : th.status = .ready
  · rw [if_pos hready] at hrest
    obtain ⟨_, s₂, hqueue, hwrite⟩ := stateT_bind_eq_ok.mp hrest
    obtain ⟨q, hremove, rfl⟩ := modifyQueue_eq_ok.mp hqueue
    obtain ⟨-, rfl⟩ := remove_eq_ok.mp hremove
    obtain ⟨th', hth', rfl⟩ := modifyThread_eq_ok.mp hwrite
    rw [hth] at hth'
    cases hth'
    refine hs.write hth (hlinked.setData (.inl hmem.1)) hprios ?_ hmem.1 hmem.2 ?_
    · refine hs.files.remove ?_
      intro j hj
      rw [readyLevel_eq hth, if_pos hready] at hj
      exact (Option.some.inj hj).symm
    · intro heq
      cases heq
  · rw [if_neg hready] at hrest
    have hdead : Triple _ _ _ := setStatus_triple (t := t)
      (f := fun th => { th with status := .dead }) ThreadStatus.noConfusion
      ThreadStatus.noConfusion (fun _ => rfl) (fun _ => rfl) fun _ => rfl
    refine hdead _ u s' ⟨hs, ?_⟩ hrest
    intro x hx
    rw [hth] at hx
    cases hx
    exact hready

end Statuses

/-! ## Waking up -/

section WakingUp

theorem keeps_leaveWaitObjects (t : ℕ) : Keeps SchedulerInvariant (leaveWaitObjects t) := by
  unfold leaveWaitObjects
  refine Keeps.bind (keeps_getThread t) fun th => ?_
  refine Keeps.bind (Keeps.forM _ fun o => ?_) fun _ => ?_
  · exact keeps_of_statuses fun _ => keeps_removeWaitingThread o t
  · refine keeps_modifyAside t ?_ ?_ ?_
    all_goals exact fun _ => rfl

theorem keeps_readyToRun {p : ThreadManager → Prop} (t : ℕ) (th : Thread) :
    Keeps p (readyToRun t th) := by
  unfold readyToRun
  split
  next =>
    exact Keeps.bind (Keeps.anyM _ fun o => keeps_shouldWait o t) fun wait => Keeps.pure _
  next => exact Keeps.pure _

theorem keeps_getHighestPriorityReadyThread {p : ThreadManager → Prop} (o : ℕ) :
    Keeps p (getHighestPriorityReadyThread o) := by
  unfold getHighestPriorityReadyThread
  refine Keeps.bind (keeps_getObject o) fun ob => ?_
  refine Keeps.bind (Keeps.foldlM _ _ fun best t => ?_) fun best => Keeps.pure _
  refine Keeps.bind (keeps_getThread t) fun th => ?_
  refine Keeps.bind (keeps_ensure _ _) fun _ => ?_
  split
  next => exact Keeps.pure _
  next =>
    refine Keeps.bind (keeps_shouldWait o t) fun wait => ?_
    split
    next => exact Keeps.pure _
    next =>
      refine Keeps.bind (keeps_readyToRun t th) fun readyToRun => ?_
      split
      next => exact Keeps.pure _
      next => exact Keeps.pure _

theorem keeps_wakeupWaitingThread (o t : ℕ) :
    Keeps SchedulerInvariant (wakeupWaitingThread o t) := by
  unfold wakeupWaitingThread
  refine Keeps.bind (keeps_getThread t) fun th => ?_
  have hrest : Keeps SchedulerInvariant (do
      leaveWaitObjects t
      resumeFromWait t) :=
    Keeps.bind (keeps_leaveWaitObjects t) fun _ => keeps_resumeFromWait t
  split
  next => exact Keeps.bind (keeps_of_statuses fun _ => keeps_acquire o t) fun _ => hrest
  next =>
    refine Keeps.bind (Keeps.forM _ fun o => ?_) fun _ => hrest
    exact keeps_of_statuses fun _ => keeps_acquire o t

theorem keeps_wakeupLoop (o fuel : ℕ) : Keeps SchedulerInvariant (wakeupLoop o fuel) := by
  induction fuel with
  | zero => exact keeps_undefined
  | succ fuel ih =>
      unfold wakeupLoop
      refine Keeps.bind (keeps_getHighestPriorityReadyThread o) fun next => ?_
      split
      next => exact Keeps.pure _
      next t => exact Keeps.bind (keeps_wakeupWaitingThread o t) fun _ => ih

theorem keeps_writeObject (o : ℕ) (f : WaitObject → WaitObject) :
    Keeps SchedulerInvariant (modifyObject o f) :=
  keeps_of_statuses fun _ => keeps_modifyObject o f

/-- `WaitObject::WakeupAllWaitingThreads`.
SOURCE: wait_object.cpp:87-110 -/
theorem keeps_wakeupAllWaitingThreads (o : ℕ) :
    Keeps SchedulerInvariant (wakeupAllWaitingThreads o) := by
  unfold wakeupAllWaitingThreads
  refine Keeps.bind (keeps_getObject o) fun ob => ?_
  refine Keeps.bind (keeps_wakeupLoop o _) fun _ => ?_
  refine Keeps.bind (keeps_getObject o) fun ob => ?_
  split
  next =>
    split
    next => exact keeps_writeObject o _
    next => exact Keeps.pure _
  next =>
    split
    next => exact keeps_writeObject o _
    next => exact Keeps.pure _
  next => exact Keeps.pure _

theorem keeps_mutexRelease (m t : ℕ) : Keeps SchedulerInvariant (mutexRelease m t) := by
  unfold mutexRelease
  refine Keeps.bind (keeps_getMutex m) fun mx => ?_
  split
  next => exact Keeps.pure _
  next holder _ =>
    split
    next => exact Keeps.pure _
    next =>
      split
      next => exact Keeps.pure _
      next =>
        refine Keeps.bind (keeps_writeObject m _) fun _ => ?_
        split
        next =>
          refine Keeps.bind (keeps_modifyAside holder ?_ ?_ ?_) fun _ => ?_
          iterate 3 exact fun _ => rfl
          refine Keeps.bind (keeps_of_statuses fun _ => keeps_updatePriority holder) fun _ => ?_
          refine Keeps.bind (keeps_getMutex m) fun mx => ?_
          refine Keeps.bind (keeps_writeObject m _) fun _ => ?_
          exact Keeps.bind (keeps_wakeupAllWaitingThreads m) fun _ => Keeps.pure _
        next => exact Keeps.pure _

theorem keeps_signal (o : ℕ) : Keeps SchedulerInvariant (signal o) := by
  unfold signal
  refine Keeps.bind (keeps_getObject o) fun ob => ?_
  split
  next =>
    exact Keeps.bind (keeps_writeObject o _) fun _ => keeps_wakeupAllWaitingThreads o
  next =>
    exact Keeps.bind (keeps_writeObject o _) fun _ => keeps_wakeupAllWaitingThreads o
  next => exact Keeps.bind keeps_undefined fun _ => keeps_wakeupAllWaitingThreads o

theorem keeps_clear (o : ℕ) : Keeps SchedulerInvariant (clear o) := by
  unfold clear
  refine Keeps.bind (keeps_getObject o) fun ob => ?_
  split
  next => exact keeps_writeObject o _
  next => exact keeps_writeObject o _
  next => exact keeps_undefined

theorem keeps_semaphoreRelease (o : ℕ) (releaseCount : ℤ) :
    Keeps SchedulerInvariant (semaphoreRelease o releaseCount) := by
  unfold semaphoreRelease
  refine Keeps.bind (keeps_getObject o) fun ob => ?_
  split
  next =>
    split
    next => exact Keeps.pure _
    next =>
      refine Keeps.bind (keeps_writeObject o _) fun _ => ?_
      exact Keeps.bind (keeps_wakeupAllWaitingThreads o) fun _ => Keeps.pure _
  next => exact keeps_undefined

theorem keeps_releaseThreadMutexes (t : ℕ) :
    Keeps SchedulerInvariant (releaseThreadMutexes t) := by
  unfold releaseThreadMutexes
  refine Keeps.bind (keeps_getThread t) fun th => ?_
  refine Keeps.bind (Keeps.forM _ fun m => ?_) fun _ => ?_
  · refine Keeps.bind (keeps_getMutex m) fun mx => ?_
    exact Keeps.bind (keeps_writeObject m _) fun _ => keeps_wakeupAllWaitingThreads m
  · refine keeps_modifyAside t ?_ ?_ ?_
    all_goals exact fun _ => rfl

/-- `Thread::Stop`.
SOURCE: thread.cpp:88-121 -/
theorem keeps_stop (t : ℕ) : Keeps SchedulerInvariant (stop t) := by
  unfold stop
  refine Keeps.bind (keeps_getThread t) fun th => ?_
  refine Keeps.bind (Triple.modify fun s hs => hs.aside rfl rfl rfl rfl) fun _ => ?_
  refine Keeps.bind (keeps_markDead t) fun _ => ?_
  refine Keeps.bind (keeps_wakeupAllWaitingThreads t) fun _ => ?_
  refine Keeps.bind (keeps_leaveWaitObjects t) fun _ => ?_
  exact keeps_releaseThreadMutexes t

end WakingUp

/-! ## Switching threads -/

section Switching

/-- A queue holds each thread at the level given for it, but may lack the next thread. -/
structure FilesBut (next : Option ℕ) (q : ReadyQueue) (level : ℕ → Option ℕ) : Prop where
  only : ∀ t p, level t ≠ some p → (q.lane p).count t = 0
  once : ∀ t p, next ≠ some t → level t = some p → (q.lane p).count t = 1

/-- The next thread is chosen, and may be out of the queue. -/
structure Chosen (next : Option ℕ) (s : ThreadManager) : Prop where
  linked : ∃ ls, Linked s.readyQueue ls ∧ PrioritiesLinked s.threads ls
  files : FilesBut next s.readyQueue (readyLevel s.threads)
  parked : s.unscheduledReadyQueue = []

variable {next : Option ℕ} {q : ReadyQueue} {level : ℕ → Option ℕ} {s : ThreadManager} {t p : ℕ}

theorem FilesBut.files (h : FilesBut none q level) : Files q level := by
  intro t p
  by_cases hlevel : level t = some p
  · rw [if_pos hlevel]
    exact h.once t p (by simp) hlevel
  · rw [if_neg hlevel]
    exact h.only t p hlevel

/-- A thread that did not yield goes to the front of its lane. -/
theorem FilesBut.pushFront (h : FilesBut next q level) (hnone : level t = none) :
    FilesBut next (q.setData p (t :: q.lane p)) (Function.update level t (some p)) where
  only u j hu := by
    rw [lane_setData]
    by_cases hut : u = t
    · subst hut
      have hjp : ¬ j = p := by
        intro heq
        rw [heq] at hu
        simp at hu
      rw [if_neg hjp]
      exact h.only u j (by simp [hnone])
    · rw [Function.update_of_ne hut] at hu
      have hold := h.only u j hu
      by_cases hjp : j = p
      · subst hjp
        rw [if_pos rfl, List.count_cons_of_ne (Ne.symm hut)]
        exact hold
      · rw [if_neg hjp]
        exact hold
  once u j hnext hu := by
    rw [lane_setData]
    by_cases hut : u = t
    · subst hut
      simp only [Function.update_self, Option.some.injEq] at hu
      subst hu
      rw [if_pos rfl, List.count_cons_self, h.only u p (by simp [hnone])]
    · rw [Function.update_of_ne hut] at hu
      have hold := h.once u j hnext hu
      by_cases hjp : j = p
      · subst hjp
        rw [if_pos rfl, List.count_cons_of_ne (Ne.symm hut)]
        exact hold
      · rw [if_neg hjp]
        exact hold

/-- Taking the next thread out once more leaves a queue that files all others. -/
theorem FilesBut.remove (h : FilesBut (some t) q level) (hlevel : level t = some p) :
    Files (q.setData p ((q.lane p).filter fun y => decide (y ≠ t)))
      (Function.update level t none) := by
  intro u j
  rw [lane_setData]
  by_cases hut : u = t
  · subst hut
    have hgone : (Function.update level u none) u ≠ some j := by simp
    rw [if_neg hgone]
    by_cases hjp : j = p
    · subst hjp
      rw [if_pos rfl, List.count_eq_zero]
      simp
    · rw [if_neg hjp]
      apply h.only
      rw [hlevel]
      intro heq
      exact hjp (Option.some.inj heq).symm
  · rw [Function.update_of_ne hut]
    have hcount : (if j = p then (q.lane p).filter fun y => decide (y ≠ t) else q.lane j).count u =
        (q.lane j).count u := by
      by_cases hjp : j = p
      · subst hjp
        rw [if_pos rfl]
        apply List.count_filter
        simpa using hut
      · rw [if_neg hjp]
    rw [hcount]
    by_cases hu : level u = some j
    · rw [if_pos hu]
      exact h.once u j (fun heq => hut (Option.some.inj heq).symm) hu
    · rw [if_neg hu]
      exact h.only u j hu

/-- `PopNextReadyThread` takes nothing out of the queue for good but the thread it returns. -/
theorem popNextReadyThread_chosen {s' : ThreadManager} (h : SchedulerInvariant s)
    (hrun : popNextReadyThread s = .ok (next, s')) :
    Chosen next s' ∧ s'.threads = s.threads ∧ s'.currentThread = s.currentThread := by
  obtain ⟨parked, popped, q, q', ls, hok, hpops, hq', hprios, hlane'⟩ := popNextReadyThread_ok h
  rw [hok] at hrun
  cases hrun
  have hlane := hpops.lane_eq h.byPriority
  have hcount : ∀ t p, (s.readyQueue.lane p).count t =
      (q'.lane p).count t + (ofLevel (priorityOf s) p popped.toList).count t := by
    intro t p
    rw [hlane p, hlane' p]
    simp only [List.count_append, List.count_reverse]
    omega
  refine ⟨⟨⟨ls, hq', hprios⟩, ⟨?_, ?_⟩, h.parked⟩, rfl, rfl⟩
  · intro t p hlevel
    have hfiles := h.files t p
    rw [if_neg hlevel, hcount] at hfiles
    exact (Nat.add_eq_zero_iff.mp hfiles).1
  · intro t p hnext hlevel
    have hfiles := h.files t p
    have hnot : (ofLevel (priorityOf s) p popped.toList).count t = 0 := by
      rw [List.count_eq_zero]
      intro hmem
      have hpopped : popped = some t := by simpa using (List.mem_filter.mp hmem).1
      exact hnext (by rw [hpopped]; rfl)
    rw [if_pos hlevel, hcount, hnot] at hfiles
    exact hfiles

/-- The first half of a switch leaves no thread running. -/
theorem saveContext_chosen {s' : ThreadManager} {previous ticks : ℕ} {u : Unit}
    (h : Chosen next s) (honly : ∀ t th, s.threads t = some th → th.status = .running →
      t = previous) (hrun : saveContext previous ticks s = .ok (u, s')) :
    Chosen next s' ∧ ∀ t th, s'.threads t = some th → th.status ≠ .running := by
  obtain ⟨_, s₁, hmodify, hrest⟩ := stateT_bind_eq_ok.mp hrun
  obtain ⟨th, hth, rfl⟩ := modifyThread_eq_ok.mp hmodify
  obtain ⟨th₁, s₂, hget, hrest⟩ := stateT_bind_eq_ok.mp hrest
  obtain ⟨hth₁, hs₂⟩ := getThread_eq_ok.mp hget
  subst hs₂
  simp only [Function.update_self, Option.some.injEq] at hth₁
  obtain ⟨ls, hlinked, hprios⟩ := h.linked
  have hmem := hprios previous th hth
  by_cases hrunning : th.status = .running
  · rw [← hth₁, if_pos hrunning] at hrest
    obtain ⟨_, s₃, hqueue, hwrite⟩ := stateT_bind_eq_ok.mp hrest
    obtain ⟨q, hpush, rfl⟩ := modifyQueue_eq_ok.mp hqueue
    obtain ⟨-, rfl⟩ := pushFront_eq_ok.mp hpush
    obtain ⟨th₂, hth₂, rfl⟩ := modifyThread_eq_ok.mp hwrite
    simp only [Function.update_self, Option.some.injEq] at hth₂
    subst hth₂
    have hlevel := readyLevel_eq hth
    rw [hrunning, if_neg (by simp)] at hlevel
    refine ⟨⟨⟨ls, hlinked.setData (.inl hmem.1), ?_⟩, ?_, h.parked⟩, ?_⟩
    · intro t x hx
      by_cases ht : t = previous
      · subst ht
        simp only [Function.update_self, Option.some.injEq] at hx
        subst hx
        exact hmem
      · simp only [Function.update_of_ne ht] at hx
        exact hprios t x hx
    · simp only [Function.update_idem, readyLevel_update, if_true]
      exact h.files.pushFront hlevel
    · intro t x hx
      by_cases ht : t = previous
      · subst ht
        simp only [Function.update_self, Option.some.injEq] at hx
        subst hx
        intro heq
        cases heq
      · simp only [Function.update_of_ne ht] at hx
        intro heq
        exact ht (honly t x hx heq)
  · rw [← hth₁, if_neg hrunning] at hrest
    cases hrest
    refine ⟨⟨⟨ls, hlinked, ?_⟩, ?_, h.parked⟩, ?_⟩
    · intro t x hx
      by_cases ht : t = previous
      · subst ht
        simp only [Function.update_self, Option.some.injEq] at hx
        subst hx
        exact hmem
      · simp only [Function.update_of_ne ht] at hx
        exact hprios t x hx
    · have hsame := readyLevel_eq hth
      simp only [readyLevel_update]
      rw [← hsame, Function.update_eq_self]
      exact h.files
    · intro t x hx heq
      by_cases ht : t = previous
      · subst ht
        simp only [Function.update_self, Option.some.injEq] at hx
        subst hx
        exact hrunning heq
      · simp only [Function.update_of_ne ht] at hx
        exact ht (honly t x hx heq)

/-- The second half of a switch makes the thread it loads the running one. -/
theorem loadContext_invariant {s' : ThreadManager} {u : Unit} (h : Chosen (some t) s)
    (hnone : ∀ t th, s.threads t = some th → th.status ≠ .running)
    (hrun : loadContext t s = .ok (u, s')) : SchedulerInvariant s' := by
  obtain ⟨th, s₁, hget, h₁⟩ := stateT_bind_eq_ok.mp hrun
  obtain ⟨hth, hs₁⟩ := getThread_eq_ok.mp hget
  rw [hs₁] at h₁
  obtain ⟨_, s₂, hensure, h₂⟩ := stateT_bind_eq_ok.mp h₁
  obtain ⟨hready, hs₂⟩ := ensure_eq_ok.mp hensure
  rw [hs₂] at h₂
  obtain ⟨_, s₃, hcurrent, h₃⟩ := stateT_bind_eq_ok.mp h₂
  cases hcurrent
  obtain ⟨_, s₄, hqueue, h₄⟩ := stateT_bind_eq_ok.mp h₃
  obtain ⟨q, hremove, rfl⟩ := modifyQueue_eq_ok.mp hqueue
  obtain ⟨-, rfl⟩ := remove_eq_ok.mp hremove
  obtain ⟨_, s₅, hstatus, h₅⟩ := stateT_bind_eq_ok.mp h₄
  obtain ⟨th₅, hth₅, rfl⟩ := modifyThread_eq_ok.mp hstatus
  obtain ⟨_, s₆, howner, h₆⟩ := stateT_bind_eq_ok.mp h₅
  obtain ⟨-, hs₆⟩ := ensure_eq_ok.mp howner
  rw [hs₆] at h₆
  obtain ⟨th₆, hth₆, rfl⟩ := modifyThread_eq_ok.mp h₆
  simp only [Function.update_self, Option.some.injEq] at hth₅ hth₆
  rw [hth] at hth₅
  cases hth₅
  subst hth₆
  have hready : th.status = .ready := by simpa using hready
  have hlevel := readyLevel_eq hth
  rw [if_pos hready] at hlevel
  obtain ⟨ls, hlinked, hprios⟩ := h.linked
  have hmem := hprios t th hth
  refine ⟨⟨ls, hlinked.setData (.inl hmem.1), ?_⟩, ?_, ?_, ?_, h.parked⟩
  · intro v x hx
    by_cases hv : v = t
    · subst hv
      simp only [Function.update_self, Option.some.injEq] at hx
      subst hx
      exact ⟨hmem.2, hmem.2⟩
    · simp only [Function.update_of_ne hv] at hx
      exact hprios v x hx
  · simp only [Function.update_idem, readyLevel_update, reduceCtorEq, if_false]
    exact h.files.remove hlevel
  · intro v x hx heq
    by_cases hv : v = t
    · rw [hv]
    · simp only [Function.update_of_ne hv] at hx
      exact absurd heq (hnone v x hx)
  · intro v hv
    cases hv
    simp

/-- A switch, whatever it does after its first half. -/
theorem switchContext_saved {s' : ThreadManager} {ticks : ℕ} {u : Unit} {load : ManagerM Unit}
    (h : Chosen next s)
    (hrunning : ∀ t th, s.threads t = some th → th.status = .running → s.currentThread = some t)
    (hrun : (match s.currentThread with
      | some previous => do
          saveContext previous ticks
          load
      | none => load) s = .ok (u, s')) :
    ∃ s₁, Chosen next s₁ ∧ (∀ t th, s₁.threads t = some th → th.status ≠ .running) ∧
      load s₁ = .ok (u, s') := by
  cases hcurrent : s.currentThread with
  | none =>
      rw [hcurrent] at hrun
      refine ⟨s, h, ?_, hrun⟩
      intro t th hth heq
      have hcur := hrunning t th hth heq
      rw [hcurrent] at hcur
      cases hcur
  | some previous =>
      rw [hcurrent] at hrun
      obtain ⟨_, s₁, hsave, hload⟩ := stateT_bind_eq_ok.mp hrun
      have honly : ∀ t th, s.threads t = some th → th.status = .running → t = previous := by
        intro t th hth heq
        have hcur := hrunning t th hth heq
        rw [hcurrent] at hcur
        exact (Option.some.inj hcur).symm
      obtain ⟨hchosen, hnone⟩ := saveContext_chosen h honly hsave
      exact ⟨s₁, hchosen, hnone, hload⟩

/-- `ThreadManager::SwitchContext`, to the thread that has been chosen.
SOURCE: thread.cpp:123-170 -/
theorem switchContext_invariant {s' : ThreadManager} {ticks : ℕ} {u : Unit} (h : Chosen next s)
    (hrunning : ∀ t th, s.threads t = some th → th.status = .running → s.currentThread = some t)
    (hrun : switchContext next ticks s = .ok (u, s')) : SchedulerInvariant s' := by
  obtain ⟨_, s₀, hget, hrest⟩ := stateT_bind_eq_ok.mp hrun
  cases hget
  cases next with
  | some t =>
      obtain ⟨s₁, hchosen, hnone, hload⟩ := switchContext_saved h hrunning hrest
      exact loadContext_invariant hchosen hnone hload
  | none =>
      obtain ⟨s₁, hchosen, hnone, hload⟩ := switchContext_saved h hrunning hrest
      cases hload
      refine ⟨hchosen.linked, hchosen.files.files, ?_, ?_, hchosen.parked⟩
      · intro t th hth heq
        exact absurd heq (hnone t th hth)
      · intro t ht
        cases ht

theorem keeps_priorityBoostStarvedThreads (currentTicks : ℕ) :
    Keeps SchedulerInvariant (priorityBoostStarvedThreads currentTicks) := by
  unfold priorityBoostStarvedThreads
  refine Keeps.bind Keeps.get fun s => ?_
  refine Keeps.forM _ fun t => ?_
  refine Keeps.bind (keeps_getThread t) fun th => ?_
  dsimp only
  split
  next =>
    refine Keeps.bind Keeps.get fun s => ?_
    refine Keeps.bind (Keeps.lift _) fun first => ?_
    split
    next => exact keeps_undefined
    next first =>
      refine Keeps.bind (keeps_getThread first) fun th => ?_
      exact keeps_of_statuses fun _ => keeps_boostPriority t _
  next => exact Keeps.pure _

/-- `ThreadManager::Reschedule`.
SOURCE: thread.cpp:491-511 -/
theorem keeps_reschedule (priorityBoost : Bool) (currentTicks cpuTicks : ℕ) :
    Keeps SchedulerInvariant (reschedule priorityBoost currentTicks cpuTicks) := by
  have hswitch : Keeps SchedulerInvariant (do
      let cur := (← get).currentThread
      let next ← popNextReadyThread
      if cur.isNone ∧ next.isNone then pure ()
      else switchContext next cpuTicks : ManagerM Unit) := by
    intro s u s' hs hrun
    obtain ⟨_, s₀, hget, hrest⟩ := stateT_bind_eq_ok.mp hrun
    cases hget
    obtain ⟨next, s₁, hpop, hrest⟩ := stateT_bind_eq_ok.mp hrest
    obtain ⟨hchosen, hthreads, hcurrent⟩ := popNextReadyThread_chosen hs hpop
    have hrunning : ∀ t th, s₁.threads t = some th → th.status = .running →
        s₁.currentThread = some t := by
      rw [hthreads, hcurrent]
      exact hs.running
    split at hrest
    next hidle =>
      cases hrest
      have hnone : next = none := by simpa using hidle.2
      subst hnone
      refine ⟨hchosen.linked, hchosen.files.files, hrunning, ?_, hchosen.parked⟩
      rw [hthreads, hcurrent]
      exact hs.current
    next => exact switchContext_invariant hchosen hrunning hrest
  unfold reschedule
  split
  next => exact Keeps.bind (keeps_priorityBoostStarvedThreads currentTicks) fun _ => hswitch
  next => exact hswitch

end Switching

/-! ## Objects and threads begin and end -/

section Lifetimes

theorem keeps_newObject (o : ℕ) (kind : ObjectKind) :
    Keeps SchedulerInvariant (newObject o kind) := by
  unfold newObject
  refine Triple.bind (q := fun s₀ s => SchedulerInvariant s ∧ s₀ = s)
    (Triple.get fun s hs => ⟨hs, rfl⟩) fun s₀ => ?_
  split
  next => exact Triple.throw
  next =>
    rintro s u s' ⟨hs, rfl⟩ hrun
    cases hrun
    exact hs.aside rfl rfl rfl rfl

theorem keeps_createMutex (o : ℕ) (initialLocked : Bool) :
    Keeps SchedulerInvariant (createMutex o initialLocked) := by
  unfold createMutex
  refine Keeps.bind (keeps_newObject o _) fun _ => ?_
  split
  next =>
    refine Keeps.bind Keeps.get fun s => ?_
    split
    next => exact keeps_undefined
    next t _ => exact keeps_of_statuses fun _ => keeps_acquire o t
  next => exact Keeps.pure _

theorem keeps_createSemaphore (o : ℕ) (initialCount maxCount : ℤ) :
    Keeps SchedulerInvariant (createSemaphore o initialCount maxCount) := by
  unfold createSemaphore
  split
  next => exact Keeps.pure _
  next => exact Keeps.bind (keeps_newObject o _) fun _ => Keeps.pure _

/-- A new thread is not ready, and the level of its priority is linked for it. -/
theorem registerThread_triple (t priority ticks ownerProcess : ℕ) :
    Triple SchedulerInvariant (registerThread t priority ticks ownerProcess)
      fun _ s => SchedulerInvariant s ∧ ∀ th, s.threads t = some th → th.status ≠ .ready := by
  intro s u s' h hrun
  obtain ⟨_, _, hget, hrest⟩ := stateT_bind_eq_ok.mp hrun
  cases hget
  split at hrest
  next => cases hrest
  next hfree =>
    obtain ⟨q, _, hlift, hset⟩ := stateT_bind_eq_ok.mp hrest
    obtain ⟨_, hprepare, hpure⟩ := bind_eq_ok.mp hlift
    cases hpure
    cases hset
    have hq : s.readyQueue.prepare priority = .ok q := hprepare
    have hnew : s.threads t = none := by
      cases hth : s.threads t with
      | none => rfl
      | some th => exact absurd (.inl (by rw [hth]; rfl)) hfree
    obtain ⟨ls, hlinked, hprios⟩ := h.linked
    obtain ⟨q', ls', hprep, hlinked', hin, hsub, hlane⟩ := prepare_ok hlinked (prepare_lt hq)
    rw [hq] at hprep
    cases hprep
    refine ⟨⟨⟨ls', hlinked', ?_⟩, ?_, ?_, ?_, h.parked⟩, ?_⟩
    · intro v x hx
      by_cases hv : v = t
      · subst hv
        simp only [Function.update_self, Option.some.injEq] at hx
        subst hx
        exact ⟨hin, hin⟩
      · simp only [Function.update_of_ne hv] at hx
        exact ⟨hsub _ (hprios v x hx).1, hsub _ (hprios v x hx).2⟩
    · have hlevel : readyLevel s.threads t = none := by
        unfold readyLevel
        rw [hnew]
      simp only [readyLevel_update, reduceCtorEq, if_false]
      rw [← hlevel, Function.update_eq_self]
      exact h.files.congr hlane
    · intro v x hx heq
      by_cases hv : v = t
      · subst hv
        simp only [Function.update_self, Option.some.injEq] at hx
        subst hx
        cases heq
      · simp only [Function.update_of_ne hv] at hx
        exact h.running v x hx heq
    · intro v hv
      by_cases hvt : v = t
      · subst hvt
        simp
      · simp only [Function.update_of_ne hvt]
        exact h.current v hv
    · intro x hx
      simp only [Function.update_self, Option.some.injEq] at hx
      subst hx
      intro heq
      cases heq

/-- `KernelSystem::CreateThread`.
SOURCE: thread.cpp:352-404 -/
theorem keeps_createThread (t priority : ℕ) (processorId : ℤ) (entryPointValid tlsAllocated : Bool)
    (ticks ownerProcess : ℕ) (makeReady : Bool) :
    Keeps SchedulerInvariant (createThread t priority processorId entryPointValid tlsAllocated
      ticks ownerProcess makeReady) := by
  unfold createThread
  split
  next => exact Keeps.pure _
  next =>
    split
    next => exact Keeps.pure _
    next =>
      split
      next => exact Keeps.pure _
      next =>
        refine Triple.bind (registerThread_triple t priority ticks ownerProcess) fun _ => ?_
        split
        next => exact Triple.pure fun s hs => hs.1
        next =>
          split
          next => exact Triple.bind enqueueReady_triple fun _ => Triple.pure fun s hs => hs
          next => exact Triple.pure fun s hs => hs.1

theorem keeps_threadList (f : List ℕ → List ℕ) :
    Keeps SchedulerInvariant
      (modify fun s => { s with threadList := f s.threadList } : ManagerM Unit) :=
  Triple.modify fun _ hs => hs.aside rfl rfl rfl rfl

theorem keeps_exitCurrentThread : Keeps SchedulerInvariant exitCurrentThread := by
  unfold exitCurrentThread
  refine Keeps.bind Keeps.get fun s => ?_
  split
  next => exact keeps_undefined
  next t _ => exact Keeps.bind (keeps_stop t) fun _ => keeps_threadList fun l => l.erase t

theorem keeps_terminateOthers (process : ℕ) (kept rest : List ℕ) :
    Keeps SchedulerInvariant (terminateOthers process kept rest) := by
  induction rest generalizing kept with
  | nil => exact Keeps.pure _
  | cons t rest ih =>
      unfold terminateOthers
      refine Keeps.bind (keeps_getThread t) fun th => ?_
      refine Keeps.bind Keeps.get fun s => ?_
      split
      next => exact ih _
      next =>
        refine Keeps.bind (keeps_stop t) fun _ => ?_
        exact Keeps.bind (keeps_threadList fun _ => kept ++ rest) fun _ => ih kept

/-- `ThreadManager::TerminateProcessThreads`.
SOURCE: thread.cpp:216-241 -/
theorem keeps_terminateProcessThreads (process : ℕ) :
    Keeps SchedulerInvariant (terminateProcessThreads process) := by
  unfold terminateProcessThreads
  refine Keeps.bind Keeps.get fun s => ?_
  refine Keeps.bind (keeps_terminateOthers process _ _) fun _ => ?_
  refine Keeps.bind Keeps.get fun s => ?_
  split
  next => exact Keeps.pure _
  next t _ =>
    refine Keeps.bind (keeps_getThread t) fun th => ?_
    split
    next => exact keeps_exitCurrentThread
    next => exact Keeps.pure _

theorem keeps_threadWakeupCallback (threadId : ℕ) :
    Keeps SchedulerInvariant (threadWakeupCallback threadId) := by
  unfold threadWakeupCallback
  refine Keeps.bind Keeps.get fun s => ?_
  split
  next => exact keeps_undefined
  next t _ =>
    refine Keeps.bind (keeps_getThread t) fun th => ?_
    have hleave : Keeps SchedulerInvariant (do
        leaveWaitObjects t
        resumeFromWait t) :=
      Keeps.bind (keeps_leaveWaitObjects t) fun _ => keeps_resumeFromWait t
    split
    iterate 4 exact hleave
    exact keeps_resumeFromWait t

end Lifetimes

/-! ## What the running thread asks for -/

section Waiting

/-- The caller is a running thread. -/
theorem caller_triple {status : ℕ → Option ThreadStatus} :
    Triple (StatusesAre status) caller
      fun t s => StatusesAre status s ∧ status t = some .running := by
  intro s t s' hs hrun
  obtain ⟨r, hr, hrunning, hrth⟩ := runningThread_ok hs.1.current
  obtain ⟨r', s₁, hcall, hrest⟩ := stateT_bind_eq_ok.mp hrun
  rw [hr] at hcall
  cases hcall
  cases r with
  | none => cases hrest
  | some r =>
      obtain ⟨u, th⟩ := r
      cases hrest
      refine ⟨hs, ?_⟩
      obtain ⟨th', hth', hstatus⟩ := runningOf_eq_some hrunning.symm
      rw [← hs.2 t, hth']
      exact congrArg some hstatus

/-- A running thread goes to sleep. -/
theorem suspend_triple {status : ℕ → Option ThreadStatus} {f : Thread → Thread}
    {w : ThreadStatus} {t : ℕ} (ht : status t = some .running) (hready : w ≠ .ready)
    (hrunning : w ≠ .running) (hstatus : ∀ th, (f th).status = w)
    (hcurrent : ∀ th, (f th).currentPriority = th.currentPriority)
    (hnominal : ∀ th, (f th).nominalPriority = th.nominalPriority) :
    Triple (StatusesAre status) (modifyThread t f) fun _ => SchedulerInvariant := by
  refine (setStatus_triple hready hrunning hstatus hcurrent hnominal).weaken ?_ fun _ s hs => hs
  intro s hs
  refine ⟨hs.1, ?_⟩
  intro th hth
  have hstat := hs.2 t
  rw [hth, ht] at hstat
  have hrun : th.status = .running := Option.some.inj hstat
  rw [hrun]
  exact ThreadStatus.noConfusion

/-- A program that finds its caller first. -/
theorem keeps_asCaller {α : Type} {m : ℕ → ManagerM α}
    (h : ∀ status t, status t = some .running →
      Triple (StatusesAre status) (m t) fun _ => SchedulerInvariant) :
    Keeps SchedulerInvariant (do m (← caller)) := by
  intro s a s' hs hrun
  let status := fun t => (s.threads t).map fun th => th.status
  have hbind : Triple (StatusesAre status) (do m (← caller)) fun _ => SchedulerInvariant := by
    refine Triple.bind caller_triple fun t => ?_
    intro s₁ b s₂ hs₁ hrun₁
    exact h status t hs₁.2 s₁ b s₂ hs₁.1 hrun₁
  exact hbind s a s' ⟨hs, fun _ => rfl⟩ hrun

theorem keeps_waitCurrentThread {waiting : ThreadStatus} (hready : waiting ≠ .ready)
    (hrunning : waiting ≠ .running) :
    Keeps SchedulerInvariant (waitCurrentThread waiting) := by
  unfold waitCurrentThread
  refine keeps_asCaller fun status t ht => ?_
  exact suspend_triple ht hready hrunning (fun _ => rfl) (fun _ => rfl) fun _ => rfl

/-- What keeps the invariant whatever the statuses may follow or end a program. -/
theorem statuses_invariant {α : Type} {m : ManagerM α} {status : ℕ → Option ThreadStatus}
    (h : Keeps SchedulerInvariant m) :
    Triple (StatusesAre status) m fun _ => SchedulerInvariant :=
  h.weaken (fun _ hs => hs.1) fun _ _ hs => hs

theorem keeps_sleepClientThread (event : ℕ) :
    Keeps SchedulerInvariant (sleepClientThread event) := by
  unfold sleepClientThread
  refine keeps_asCaller fun status t ht => ?_
  refine Triple.bind (q := fun _ => SchedulerInvariant)
    (suspend_triple (w := .waitHleEvent) ht ?_ ?_ ?_ ?_ ?_) fun _ => ?_
  · exact ThreadStatus.noConfusion
  · exact ThreadStatus.noConfusion
  iterate 3 exact fun _ => rfl
  exact keeps_of_statuses fun _ => keeps_addWaitingThread event t

/-- `SVC::WaitSynchronization1`.
SOURCE: svc.cpp:762-796 -/
theorem keeps_waitSynchronization1 (object : ℕ) (nanoSeconds : ℤ) :
    Keeps SchedulerInvariant (waitSynchronization1 object nanoSeconds) := by
  unfold waitSynchronization1
  refine keeps_asCaller fun status t ht => ?_
  refine Triple.bind (keeps_shouldWait object t) fun wait => ?_
  split
  next =>
    split
    next => exact Triple.pure fun s hs => hs.1
    next =>
      refine Triple.bind (q := fun _ => StatusesAre status) (keeps_modifyThread t ?_ ?_ ?_) fun _ => ?_
      iterate 3 exact fun _ => rfl
      refine Triple.bind (keeps_addWaitingThread object t) fun _ => ?_
      refine suspend_triple (w := .waitSynchAny) ht ?_ ?_ ?_ ?_ ?_
      · exact ThreadStatus.noConfusion
      · exact ThreadStatus.noConfusion
      all_goals exact fun _ => rfl
  next => exact statuses_invariant (keeps_of_statuses fun _ => keeps_acquire object t)

theorem keeps_firstAvailable {p : ThreadManager → Prop} (t : ℕ) (objects : List ℕ) :
    Keeps p (firstAvailable t objects) := by
  induction objects with
  | nil => exact Keeps.pure _
  | cons o os ih =>
      unfold firstAvailable
      refine Keeps.bind (keeps_shouldWait o t) fun wait => ?_
      split
      next => exact ih
      next => exact Keeps.pure _

theorem keeps_suspendOn {status : ℕ → Option ThreadStatus} {waiting : ThreadStatus} {t : ℕ}
    (ht : status t = some .running) (hready : waiting ≠ .ready) (hrunning : waiting ≠ .running)
    (objects : List ℕ) (nanoSeconds : ℤ) :
    Triple (StatusesAre status) (suspendOn t objects waiting nanoSeconds)
      fun _ => SchedulerInvariant := by
  unfold suspendOn
  split
  next => exact Triple.pure fun s hs => hs.1
  next =>
    refine Triple.bind (q := fun _ => SchedulerInvariant)
      (suspend_triple ht hready hrunning (fun _ => rfl) (fun _ => rfl) fun _ => rfl) fun _ => ?_
    refine Keeps.bind (Keeps.forM _ fun o => ?_) fun _ => ?_
    · exact keeps_of_statuses fun _ => keeps_addWaitingThread o t
    · refine keeps_modifyAside t ?_ ?_ ?_
      all_goals exact fun _ => rfl

/-- `SVC::WaitSynchronizationN`.
SOURCE: svc.cpp:799-909 -/
theorem keeps_waitSynchronizationN (objects : List ℕ) (waitAll : Bool) (nanoSeconds : ℤ) :
    Keeps SchedulerInvariant (waitSynchronizationN objects waitAll nanoSeconds) := by
  unfold waitSynchronizationN
  refine keeps_asCaller fun status t ht => ?_
  split
  next =>
    refine Triple.bind (Keeps.anyM _ fun o => keeps_shouldWait o t) fun wait => ?_
    split
    next =>
      exact keeps_suspendOn ht ThreadStatus.noConfusion ThreadStatus.noConfusion _ _
    next =>
      refine statuses_invariant (Keeps.forM _ fun o => ?_)
      exact keeps_of_statuses fun _ => keeps_acquire o t
  next =>
    refine Triple.bind (keeps_firstAvailable t objects) fun first => ?_
    split
    next o => exact statuses_invariant (keeps_of_statuses fun _ => keeps_acquire o t)
    next =>
      exact keeps_suspendOn ht ThreadStatus.noConfusion ThreadStatus.noConfusion _ _

theorem keeps_setThreadPriority (t priority : ℕ) :
    Keeps SchedulerInvariant (setThreadPriority t priority) := by
  unfold setThreadPriority
  split
  next => exact Keeps.pure _
  next =>
    refine Keeps.bind (keeps_of_statuses fun _ => keeps_setPriority t priority) fun _ => ?_
    refine Keeps.bind (keeps_of_statuses fun _ => keeps_updatePriority t) fun _ => ?_
    refine Keeps.bind (keeps_getThread t) fun th => ?_
    refine Keeps.forM _ fun m => ?_
    exact keeps_of_statuses fun _ => keeps_mutexUpdatePriority m

theorem keeps_scheduleThreadsWithoutTlsMagic (process varg2 : ℕ) (hasMagic : ℕ → Bool) :
    Keeps SchedulerInvariant (scheduleThreadsWithoutTlsMagic process varg2 hasMagic) := by
  unfold scheduleThreadsWithoutTlsMagic
  refine Keeps.bind Keeps.get fun s => ?_
  refine Keeps.forM _ fun t => ?_
  refine Keeps.bind (keeps_getThread t) fun th => ?_
  split
  next => exact Keeps.pure _
  next =>
    split
    next => exact Keeps.pure _
    next =>
      refine Keeps.bind Keeps.get fun s => ?_
      split
      next => exact keeps_undefined
      next current _ =>
        refine Keeps.bind (keeps_getThread current) fun cur => ?_
        split
        next => exact Keeps.pure _
        next =>
          refine keeps_modifyAside t ?_ ?_ ?_
          all_goals exact fun _ => rfl

end Waiting

/-! ## Every call -/

section Calls

/-- Every call keeps the invariant. -/
theorem keeps_program (call : ManagerCall) : Keeps SchedulerInvariant call.program := by
  cases call with
  | createMutex o l => exact keeps_createMutex o l
  | createEvent o r => exact keeps_newObject o _
  | createTimer o r => exact keeps_newObject o _
  | createSemaphore o i m => exact Keeps.bind (keeps_createSemaphore o i m) fun _ => Keeps.pure _
  | createThread t p i e l k w r =>
      exact Keeps.bind (keeps_createThread t p i e l k w r) fun _ => Keeps.pure _
  | resumeFromWait t => exact keeps_resumeFromWait t
  | threadWakeupCallback i => exact keeps_threadWakeupCallback i
  | waitCurrentThreadSleep =>
      exact keeps_waitCurrentThread ThreadStatus.noConfusion ThreadStatus.noConfusion
  | arbiterWaitThread =>
      exact keeps_waitCurrentThread ThreadStatus.noConfusion ThreadStatus.noConfusion
  | handleSyncRequest =>
      exact keeps_waitCurrentThread ThreadStatus.noConfusion ThreadStatus.noConfusion
  | sleepClientThread e => exact keeps_sleepClientThread e
  | waitSynchronization1 o n => exact keeps_waitSynchronization1 o n
  | waitSynchronizationN os a n => exact keeps_waitSynchronizationN os a n
  | setPriority t p => exact keeps_of_statuses fun _ => keeps_setPriority t p
  | boostPriority t p => exact keeps_of_statuses fun _ => keeps_boostPriority t p
  | updatePriority t => exact keeps_of_statuses fun _ => keeps_updatePriority t
  | setThreadPriority t p => exact keeps_setThreadPriority t p
  | priorityBoostStarvedThreads k => exact keeps_priorityBoostStarvedThreads k
  | scheduleThreadsWithoutTlsMagic w v m => exact keeps_scheduleThreadsWithoutTlsMagic w v m
  | mutexRelease m t => exact Keeps.bind (keeps_mutexRelease m t) fun _ => Keeps.pure _
  | signal o => exact keeps_signal o
  | clear o => exact keeps_clear o
  | semaphoreRelease o n => exact Keeps.bind (keeps_semaphoreRelease o n) fun _ => Keeps.pure _
  | stop t => exact keeps_stop t
  | exitCurrentThread => exact keeps_exitCurrentThread
  | terminateProcessThreads w => exact keeps_terminateProcessThreads w
  | reschedule b k l => exact keeps_reschedule b k l

theorem schedulerInvariant_step {s s' : ThreadManager} {call : ManagerCall}
    (hs : SchedulerInvariant s) (hstep : call.step s = .ok s') : SchedulerInvariant s' := by
  obtain ⟨⟨u, t⟩, hrun, hpure⟩ := bind_eq_ok.mp hstep
  cases hpure
  exact keeps_program call s u s' hs hrun

/-- A new manager has no threads, and an empty queue with nothing linked. -/
theorem schedulerInvariant_init : SchedulerInvariant {} where
  linked := ⟨[], ⟨rfl, trivial, .nil, by simp, fun _ _ => rfl, fun _ _ => rfl⟩, by
    intro t th hth
    cases hth⟩
  files _ _ := rfl
  running t th hth := by cases hth
  current t ht := by cases ht
  parked := rfl

theorem schedulerInvariant_reachable {s : ThreadManager}
    (h : Reachable ManagerCall.step {} s) : SchedulerInvariant s :=
  invariant_of_step (fun _ _ _ hs hstep => schedulerInvariant_step hs hstep)
    schedulerInvariant_init h

/-- What the invariant says of threads and lanes. -/
theorem SchedulerInvariant.consistent {s : ThreadManager} (h : SchedulerInvariant s) :
    SchedulerConsistent s where
  ready t th hth hready p := by
    rw [h.files t p, readyLevel_eq hth, if_pos hready]
    by_cases hp : p = th.currentPriority
    · simp [hp]
    · have hne : ¬ th.currentPriority = p := fun heq => hp heq.symm
      simp [hp, hne]
  notReady t th hth hready p hmem := by
    obtain ⟨th', hth', hready', -⟩ := h.mem_lane_iff.mp hmem
    rw [hth] at hth'
    cases hth'
    exact hready hready'
  alive p t hmem := by
    obtain ⟨th, hth, -⟩ := h.mem_lane_iff.mp hmem
    rw [hth]
    rfl
  running := h.running

/-- After any sequence of calls a thread stands in the ready queue exactly once, at the level of
its priority, if it is ready, and nowhere otherwise, and only the current thread can be running. -/
theorem scheduler_consistent {s : ThreadManager} (h : Reachable ManagerCall.step {} s) :
    SchedulerConsistent s :=
  (schedulerInvariant_reachable h).consistent

/-- Two threads of one level, and a third one above them that runs, stops them from being scheduled,
moves one, and sleeps. -/
def threeThreads : List ManagerCall :=
  [.createThread 1 40 0 true true 0 7 true, .createThread 2 40 0 true true 0 7 true,
    .createThread 3 30 0 true true 0 7 true, .reschedule true 0 0,
    .scheduleThreadsWithoutTlsMagic 7 1 fun _ => false, .setPriority 2 50,
    .waitCurrentThreadSleep, .reschedule true 0 0]

/-- The theorem, at the end of these calls. -/
theorem scheduler_consistent_threeThreads :
    ∃ s, run ManagerCall.step {} threeThreads = .ok s ∧ SchedulerConsistent s := by
  have hruns : (run ManagerCall.step {} threeThreads).toOption.isSome := by decide +kernel
  obtain ⟨s, hs⟩ := Option.isSome_iff_exists.mp hruns
  have hrun := eq_ok_of_toOption hs
  exact ⟨s, hrun, scheduler_consistent ⟨_, hrun⟩⟩

end Calls

end Borked3DS.Analysis
