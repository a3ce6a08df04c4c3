import Borked3DS.Analysis.SchedulerConsistency

/-!
# What the calls on a thread manager keep

A property of a thread manager that is kept by each single write of a thread or an object is kept by
every call, but for the creation and the release of a semaphore, which are no such writes. What may
be written of a thread's status, and of what it waits for, is a parameter: a property of threads
that wait is kept by the calls that do not wake them.
-/

set_option autoImplicit false

namespace Borked3DS.Analysis

open Borked3DS.Library Borked3DS.Model Borked3DS.Interface

/-- What becomes of an object that is there: a mutex stays a mutex, and a semaphore only loses a
slot that it has. -/
inductive KindFollows : ObjectKind → ObjectKind → Prop
  | same (k : ObjectKind) : KindFollows k k
  | mutex (mx mx' : Mutex) : KindFollows (.mutex mx) (.mutex mx')
  | event (e e' : Signal) : KindFollows (.event e) (.event e')
  | timer (e e' : Signal) : KindFollows (.timer e) (.timer e')
  | semaphore (sm : Semaphore) (h : 0 < sm.availableCount) : KindFollows (.semaphore sm)
      (.semaphore { sm with availableCount := sm.availableCount - 1 })
  | serverSession (ss ss' : ServerSession) : KindFollows (.serverSession ss) (.serverSession ss')

/-- The pointer leads to a mutex. -/
def MutexAt (m : ℕ) (s : ThreadManager) : Prop :=
  ∃ ob mx, s.objects m = some ob ∧ ob.kind = .mutex mx

/-- The pointer leads to a thread with this status. -/
def StatusIs (t : ℕ) (status : ThreadStatus) (s : ThreadManager) : Prop :=
  ∃ th, s.threads t = some th ∧ th.status = status

/-- A thread waits, or does not, as it did. -/
structure SameWait (th th' : Thread) : Prop where
  status : th'.status = th.status
  wakeupCallback : th'.wakeupCallback = th.wakeupCallback
  waitObjects : th'.waitObjects = th.waitObjects

/-- How a thread may be written: its priority stays in range, what it comes to hold are mutexes, and
it waits as it did or as `R` allows. -/
structure WritesThread (R : Thread → Thread → Prop) (s : ThreadManager) (th th' : Thread) :
    Prop where
  threadId : th'.threadId = th.threadId
  owner : th'.ownerProcess = th.ownerProcess
  nominal : th'.nominalPriority = th.nominalPriority ∨ th'.nominalPriority ≤ ThreadPrioLowest
  held : ∀ m ∈ th'.heldMutexes, m ∈ th.heldMutexes ∨ MutexAt m s
  waits : SameWait th th' ∨ R th th'

/-- A property that no single write breaks. -/
structure KeptByWrites (R : Thread → Thread → Prop) (p : ThreadManager → Prop) : Prop where
  aside : ∀ s s', s'.threads = s.threads → s'.objects = s.objects →
    s'.wakeupCallbackTable = s.wakeupCallbackTable → p s → p s'
  forget : ∀ s id, p s →
    p { s with wakeupCallbackTable := Function.update s.wakeupCallbackTable id none }
  thread : ∀ s t th th', p s → s.threads t = some th → WritesThread R s th th' →
    p { s with threads := Function.update s.threads t (some th') }
  object : ∀ s o ob ob', p s → s.objects o = some ob → KindFollows ob.kind ob'.kind →
    p { s with objects := Function.update s.objects o (some ob') }
  newObject : ∀ s o kind, p s → ¬ ((s.threads o).isSome ∨ (s.objects o).isSome) →
    (∀ sm, kind ≠ .semaphore sm) →
    p { s with objects := Function.update s.objects o (some { kind := kind }) }

/-- What is kept by more writes is kept by fewer. -/
theorem KeptByWrites.mono {R R' : Thread → Thread → Prop} {p : ThreadManager → Prop}
    (hp : KeptByWrites R p) (h : ∀ th th', R' th th' → R th th') : KeptByWrites R' p where
  aside := hp.aside
  forget := hp.forget
  thread s t th th' hs hth hwrite := hp.thread s t th th' hs hth
    ⟨hwrite.threadId, hwrite.owner, hwrite.nominal, hwrite.held, hwrite.waits.imp_right (h th th')⟩
  object := hp.object
  newObject := hp.newObject

theorem KeptByWrites.and {R : Thread → Thread → Prop} {p q : ThreadManager → Prop}
    (hp : KeptByWrites R p) (hq : KeptByWrites R q) : KeptByWrites R fun s => p s ∧ q s where
  aside s s' ht ho hc hs := ⟨hp.aside s s' ht ho hc hs.1, hq.aside s s' ht ho hc hs.2⟩
  forget s id hs := ⟨hp.forget s id hs.1, hq.forget s id hs.2⟩
  thread s t th th' hs hth hw :=
    ⟨hp.thread s t th th' hs.1 hth hw, hq.thread s t th th' hs.2 hth hw⟩
  object s o ob ob' hs hob hk :=
    ⟨hp.object s o ob ob' hs.1 hob hk, hq.object s o ob ob' hs.2 hob hk⟩
  newObject s o kind hs hfree hk :=
    ⟨hp.newObject s o kind hs.1 hfree hk, hq.newObject s o kind hs.2 hfree hk⟩

/-- A status is kept by the writes that keep it. -/
theorem statusIs_kept {R : Thread → Thread → Prop} {status : ThreadStatus} (t : ℕ)
    (hR : ∀ th th', R th th' → th.status = status → th'.status = status) :
    KeptByWrites R (StatusIs t status) where
  aside s s' hthreads _ _ hs := by
    obtain ⟨th, hth, hstatus⟩ := hs
    exact ⟨th, hthreads ▸ hth, hstatus⟩
  forget s id hs := hs
  thread s u th th' hs hth hwrite := by
    obtain ⟨th₁, hth₁, hstatus⟩ := hs
    by_cases hut : t = u
    · subst hut
      rw [hth] at hth₁
      cases hth₁
      refine ⟨th', Function.update_self _ _ _, ?_⟩
      rcases hwrite.waits with hsame | hr
      · exact hsame.status.trans hstatus
      · exact hR th th' hr hstatus
    · exact ⟨th₁, (Function.update_of_ne hut _ _).trans hth₁, hstatus⟩
  object s o ob ob' hs _ _ := hs
  newObject s o kind hs _ _ := hs

/-- The writes that `R` allows and that keep the status. -/
def Still (R : Thread → Thread → Prop) (th th' : Thread) : Prop :=
  R th th' ∧ th'.status = th.status

theorem KeptByWrites.still {R : Thread → Thread → Prop} {p : ThreadManager → Prop}
    (hp : KeptByWrites R p) (t : ℕ) (status : ThreadStatus) :
    KeptByWrites (Still R) fun s => p s ∧ StatusIs t status s :=
  (hp.mono fun _ _ h => h.1).and (statusIs_kept t fun _ _ h hstatus => h.2.trans hstatus)

/-! ## The writes of the calls -/

/-- The statuses of a thread that waits for objects. -/
def SynchWaiting (status : ThreadStatus) : Prop :=
  status = .waitSynchAny ∨ status = .waitSynchAll ∨ status = .waitHleEvent

/-- The statuses that `ResumeFromWait` does something about. -/
def Resumes (status : ThreadStatus) : Prop :=
  status ≠ .ready ∧ status ≠ .running ∧ status ≠ .dead

/-- The two writes of `ResumeFromWait`. -/
def MayResume (R : Thread → Thread → Prop) (th : Thread) : Prop :=
  R th { th with wakeupCallback := false } ∧
    R { th with wakeupCallback := false } { th with wakeupCallback := false, status := .ready }

/-- The writes that no thread is woken with which waits for no objects, and that none starts to run
with. -/
structure Permits (R : Thread → Thread → Prop) : Prop where
  wake : ∀ th, SynchWaiting th.status → th.waitObjects = [] → MayResume R th
  leave : ∀ th, SynchWaiting th.status ∨ th.status = .dead → R th { th with waitObjects := [] }
  enqueue : ∀ th, th.status = .dormant → th.waitObjects = [] → R th { th with status := .ready }
  pause : ∀ th, th.status = .running → R th { th with status := .ready }
  sleep : ∀ th, th.status = .running → R th { th with status := .waitSleep }
  request : ∀ th, th.status = .running → R th { th with status := .waitIPC }
  suspend : ∀ th status callback objects, th.status = .running → SynchWaiting status →
    R th { th with status := status, wakeupCallback := callback, waitObjects := objects }
  settle : ∀ th objects, SynchWaiting th.status →
    R th { th with waitObjects := objects, wakeupCallback := true }

/-- A dead thread stays dead. -/
def StaysDead (th th' : Thread) : Prop := th.status = .dead → th'.status = .dead

theorem SynchWaiting.ne_dead {status : ThreadStatus} (h : SynchWaiting status) :
    status ≠ .dead := by
  rcases h with rfl | rfl | rfl <;> exact ThreadStatus.noConfusion

theorem Permits.staysDead {R : Thread → Thread → Prop} (hR : Permits R) :
    Permits fun th th' => R th th' ∧ StaysDead th th' where
  wake th hst hobjects := by
    have hne := hst.ne_dead
    obtain ⟨hfirst, hsecond⟩ := hR.wake th hst hobjects
    exact ⟨⟨hfirst, id⟩, hsecond, fun hdead => absurd hdead hne⟩
  leave th hst := ⟨hR.leave th hst, id⟩
  enqueue th hst hobjects := ⟨hR.enqueue th hst hobjects, fun h => by simp [hst] at h⟩
  pause th hst := ⟨hR.pause th hst, fun h => by simp [hst] at h⟩
  sleep th hst := ⟨hR.sleep th hst, fun h => by simp [hst] at h⟩
  request th hst := ⟨hR.request th hst, fun h => by simp [hst] at h⟩
  suspend th status callback objects hst hw :=
    ⟨hR.suspend th status callback objects hst hw, fun h => by simp [hst] at h⟩
  settle th objects hst := ⟨hR.settle th objects hst, id⟩

/-! ## Reads -/

section Reads

variable {p : ThreadManager → Prop}

theorem ensure_triple (c : Bool) (site : AssertSite) :
    Triple p (ensure c site) fun _ s => p s ∧ c = true := by
  intro s u s' hs hrun
  cases c with
  | true =>
    cases hrun
    exact ⟨hs, rfl⟩
  | false => cases hrun

theorem getObject_triple (o : ℕ) :
    Triple p (getObject o) fun ob s => p s ∧ s.objects o = some ob := by
  intro s ob s' hs hrun
  obtain ⟨s₁, s₂, hget, hrest⟩ := stateT_bind_eq_ok.mp hrun
  cases hget
  cases hob : s.objects o with
  | none =>
    rw [hob] at hrest
    cases hrest
  | some ob' =>
    rw [hob] at hrest
    cases hrest
    exact ⟨hs, hob⟩

theorem getMutex_triple (m : ℕ) : Triple p (getMutex m) fun _ s => p s ∧ MutexAt m s := by
  unfold getMutex
  refine Triple.bind (getObject_triple m) fun ob => ?_
  split
  next mx hkind => exact Triple.pure fun s ⟨hs, hob⟩ => ⟨hs, ob, mx, hob, hkind⟩
  next => exact Triple.throw

theorem runningThread_triple :
    Triple p runningThread fun r s => p s ∧ ∀ x, r = some x → StatusIs x.1 .running s := by
  unfold runningThread
  refine Triple.bind Keeps.get fun s => ?_
  split
  next => exact Triple.pure fun s hs => ⟨hs, fun _ h => by cases h⟩
  next t _ =>
    refine Triple.bind (getThread_triple t) fun th => Triple.pure fun s ⟨hs, hth⟩ => ⟨hs, ?_⟩
    intro x hx
    split at hx
    next hrunning =>
      cases hx
      exact ⟨th, hth, hrunning⟩
    next => cases hx

theorem keeps_runningThread : Keeps p runningThread :=
  runningThread_triple.weaken (fun _ hs => hs) fun _ _ hs => hs.1

/-- The caller is running. -/
theorem running_caller : Triple p caller fun t s => p s ∧ StatusIs t .running s := by
  unfold caller
  refine Triple.bind runningThread_triple fun r => ?_
  split
  next t th => exact Triple.pure fun s ⟨hs, hrunning⟩ => ⟨hs, hrunning _ rfl⟩
  next => exact Triple.throw

/-- The thread that is woken next waits for objects. -/
theorem getHighestPriorityReadyThread_triple (o : ℕ) :
    Triple p (getHighestPriorityReadyThread o) fun next s =>
      p s ∧ ∀ t, next = some t → ∃ status, SynchWaiting status ∧ StatusIs t status s := by
  unfold getHighestPriorityReadyThread
  refine Triple.bind (keeps_getObject o) fun ob => ?_
  refine Triple.bind (q := fun best s => p s ∧ ∀ t, best.1 = some t →
    ∃ status, SynchWaiting status ∧ StatusIs t status s) ?_ fun best => Triple.pure fun _ hs => hs
  refine (Triple.foldlM _ fun best t => ?_).weaken (fun s hs => ⟨hs, fun _ h => by cases h⟩)
    fun _ _ hs => hs
  refine Triple.bind (getThread_triple t) fun th => ?_
  refine Triple.bind (ensure_triple _ _) fun _ => ?_
  split
  next => exact Triple.pure fun s hs => hs.1.1
  next =>
    refine Triple.bind (keeps_shouldWait o t) fun wait => ?_
    split
    next => exact Triple.pure fun s hs => hs.1.1
    next =>
      refine Triple.bind (keeps_readyToRun t th) fun ready => ?_
      split
      next =>
        refine Triple.pure fun s ⟨⟨⟨hs, _⟩, hth⟩, hstatus⟩ => ⟨hs, fun u hu => ?_⟩
        cases hu
        refine ⟨th.status, ?_, th, hth, rfl⟩
        simpa [SynchWaiting] using hstatus
      next => exact Triple.pure fun s hs => hs.1.1

end Reads

/-! ## Writes -/

theorem mem_insertAddress {x y : ℕ} (l : List ℕ) : y ∈ insertAddress x l ↔ y = x ∨ y ∈ l := by
  induction l with
  | nil => simp [insertAddress]
  | cons z l ih =>
    unfold insertAddress
    by_cases hlt : x < z
    · rw [if_pos hlt]
      simp
    · rw [if_neg hlt]
      by_cases heq : x = z
      · rw [if_pos heq]
        subst heq
        simp
      · rw [if_neg heq, List.mem_cons, ih, List.mem_cons]
        exact or_left_comm

section Writes

variable {R : Thread → Thread → Prop} {p : ThreadManager → Prop} (hp : KeptByWrites R p)

include hp

/-- What is not about threads and objects is written. -/
theorem kept_aside {f : ThreadManager → ThreadManager}
    (hthreads : ∀ s, (f s).threads = s.threads) (hobjects : ∀ s, (f s).objects = s.objects)
    (htable : ∀ s, (f s).wakeupCallbackTable = s.wakeupCallbackTable) :
    Keeps p (modify f : ManagerM Unit) :=
  Triple.modify fun s hs => hp.aside s (f s) (hthreads s) (hobjects s) (htable s) hs

theorem kept_modifyQueue (f : ReadyQueue → Exec ReadyQueue) : Keeps p (modifyQueue f) := by
  intro s u s' hs hrun
  obtain ⟨q, -, rfl⟩ := modifyQueue_eq_ok.mp hrun
  exact hp.aside s { s with readyQueue := q } rfl rfl rfl hs

/-- A thread is written as it may be. -/
theorem kept_writeThread {f : Thread → Thread} (t : ℕ) :
    Triple (fun s => p s ∧ ∀ th, s.threads t = some th → WritesThread R s th (f th))
      (modifyThread t f) fun _ => p := by
  rintro s u s' ⟨hs, hwrite⟩ hrun
  obtain ⟨th, hth, rfl⟩ := modifyThread_eq_ok.mp hrun
  exact hp.thread s t th (f th) hs hth (hwrite th hth)

theorem kept_modifyThread {f : Thread → Thread} (t : ℕ)
    (hwrite : ∀ s th, WritesThread R s th (f th)) : Keeps p (modifyThread t f) :=
  (kept_writeThread hp t).weaken (fun s hs => ⟨hs, fun th _ => hwrite s th⟩) fun _ _ hs => hs

/-- Nothing is written of a thread that such a property may be about. -/
theorem kept_modifyRest {f : Thread → Thread} (t : ℕ)
    (hwrite : ∀ th, (f th).threadId = th.threadId ∧ (f th).ownerProcess = th.ownerProcess ∧
      (f th).nominalPriority = th.nominalPriority ∧ (f th).heldMutexes = th.heldMutexes ∧
      SameWait th (f th)) : Keeps p (modifyThread t f) := by
  refine kept_modifyThread hp t fun s th => ?_
  obtain ⟨hid, howner, hnominal, hheld, hsame⟩ := hwrite th
  exact ⟨hid, howner, Or.inl hnominal, fun m hm => Or.inl (hheld ▸ hm), Or.inl hsame⟩

/-- A thread waits, or does not, in the way that `R` allows. -/
theorem kept_writeWait {f : Thread → Thread} (t : ℕ)
    (hwrite : ∀ th, (f th).threadId = th.threadId ∧ (f th).ownerProcess = th.ownerProcess ∧
      (f th).nominalPriority = th.nominalPriority ∧ (f th).heldMutexes = th.heldMutexes) :
    Triple (fun s => p s ∧ ∀ th, s.threads t = some th → R th (f th))
      (modifyThread t f) fun _ => p := by
  refine (kept_writeThread hp t).weaken (fun s hs => ⟨hs.1, fun th hth => ?_⟩) fun _ _ hs => hs
  obtain ⟨hid, howner, hnominal, hheld⟩ := hwrite th
  exact ⟨hid, howner, Or.inl hnominal, fun m hm => Or.inl (hheld ▸ hm), Or.inr (hs.2 th hth)⟩

/-- The same of a thread whose status is known. -/
theorem kept_writeStatus {f : Thread → Thread} {status : ThreadStatus} (t : ℕ)
    (hwrite : ∀ th, (f th).threadId = th.threadId ∧ (f th).ownerProcess = th.ownerProcess ∧
      (f th).nominalPriority = th.nominalPriority ∧ (f th).heldMutexes = th.heldMutexes)
    (hR : ∀ th, th.status = status → R th (f th)) :
    Triple (fun s => p s ∧ StatusIs t status s) (modifyThread t f) fun _ => p := by
  refine (kept_writeWait hp t hwrite).weaken (fun s hs => ⟨hs.1, fun th hth => ?_⟩) fun _ _ hs => hs
  obtain ⟨th', hth', hstatus⟩ := hs.2
  rw [hth] at hth'
  cases hth'
  exact hR th hstatus

/-- An object is written whose kind was read. -/
theorem kept_writeKind {f : WaitObject → WaitObject} {o : ℕ} {ob : WaitObject}
    (hkind : KindFollows ob.kind (f ob).kind) :
    Triple (fun s => p s ∧ s.objects o = some ob) (modifyObject o f) fun _ => p := by
  rintro s u s' ⟨hs, hob⟩ hrun
  obtain ⟨ob₁, s₁, hget, hrest⟩ := stateT_bind_eq_ok.mp hrun
  obtain ⟨rfl, hob₁⟩ := getObject_triple (p := fun u => u = s) o s ob₁ s₁ rfl hget
  rw [hob] at hob₁
  cases hob₁
  cases hrest
  exact hp.object s₁ o ob (f ob) hs hob hkind

/-- A list of waiting threads is written. -/
theorem kept_modifyWaiting {f : WaitObject → WaitObject} (o : ℕ)
    (hkind : ∀ ob, (f ob).kind = ob.kind) : Keeps p (modifyObject o f) := by
  unfold modifyObject
  refine Triple.bind (getObject_triple o) fun ob => Triple.modify fun s ⟨hs, hob⟩ => ?_
  exact hp.object s o ob (f ob) hs hob (hkind ob ▸ .same ob.kind)

/-- A mutex is written over a mutex. -/
theorem kept_setMutex (m : ℕ) (mx : Mutex) :
    Triple (fun s => p s ∧ MutexAt m s) (setMutex m mx) fun _ => p := by
  rintro s u s' ⟨hs, ob, mx₀, hob, hkind⟩ hrun
  have hwrite : Triple (fun s => p s ∧ s.objects m = some ob) (setMutex m mx) fun _ => p := by
    refine kept_writeKind hp ?_
    rw [hkind]
    exact .mutex mx₀ mx
  exact hwrite s u s' ⟨hs, hob⟩ hrun

/-- A signal is written over the one that was read. -/
theorem kept_writeEvent {f : WaitObject → WaitObject} {o : ℕ} {ob : WaitObject} {e e' : Signal}
    (hkind : ob.kind = .event e) (hwrite : (f ob).kind = .event e') :
    Triple (fun s => p s ∧ s.objects o = some ob) (modifyObject o f) fun _ => p := by
  refine kept_writeKind hp ?_
  rw [hkind, hwrite]
  exact .event e e'

theorem kept_writeTimer {f : WaitObject → WaitObject} {o : ℕ} {ob : WaitObject} {e e' : Signal}
    (hkind : ob.kind = .timer e) (hwrite : (f ob).kind = .timer e') :
    Triple (fun s => p s ∧ s.objects o = some ob) (modifyObject o f) fun _ => p := by
  refine kept_writeKind hp ?_
  rw [hkind, hwrite]
  exact .timer e e'

end Writes

/-! ## Priorities -/

section Priorities

variable {R : Thread → Thread → Prop} {p : ThreadManager → Prop} (hp : KeptByWrites R p)

include hp

theorem kept_boostPriority (t priority : ℕ) : Keeps p (boostPriority t priority) := by
  unfold boostPriority
  refine Keeps.bind (keeps_getThread t) fun th => ?_
  have hwrite : Keeps p
      (modifyThread t fun th => { th with currentPriority := priority }) :=
    kept_modifyRest hp t fun _ => ⟨rfl, rfl, rfl, rfl, rfl, rfl, rfl⟩
  split
  next => exact Keeps.bind (kept_modifyQueue hp _) fun _ => hwrite
  next => exact Keeps.bind (kept_modifyQueue hp _) fun _ => hwrite

/-- `Thread::SetPriority`, behind its check.
SOURCE: thread.cpp:406-416 -/
theorem kept_setPriority (t priority : ℕ) : Keeps p (setPriority t priority) := by
  unfold setPriority
  refine Triple.bind (ensure_triple _ _) fun _ => ?_
  rintro s u s' ⟨hs, hpriority⟩ hrun
  have hwrite : Keeps p (modifyThread t fun th =>
      { th with nominalPriority := priority, currentPriority := priority }) :=
    kept_modifyThread hp t fun _ _ =>
      ⟨rfl, rfl, Or.inr (of_decide_eq_true hpriority), fun _ => Or.inl, Or.inl ⟨rfl, rfl, rfl⟩⟩
  refine Keeps.bind (p := p) (keeps_getThread t) (fun th => ?_) s u s' hs hrun
  split
  next => exact Keeps.bind (kept_modifyQueue hp _) fun _ => hwrite
  next => exact Keeps.bind (kept_modifyQueue hp _) fun _ => hwrite

theorem kept_updatePriority (t : ℕ) : Keeps p (updatePriority t) := by
  unfold updatePriority
  refine Keeps.bind (keeps_getThread t) fun th => ?_
  refine Keeps.bind (Keeps.foldlM _ _ fun best m => ?_) fun best => kept_boostPriority hp t best
  exact Keeps.bind (keeps_getMutex m) fun mx => Keeps.pure _

theorem kept_mutexUpdatePriority (m : ℕ) : Keeps p (mutexUpdatePriority m) := by
  unfold mutexUpdatePriority
  refine Triple.bind (getMutex_triple m) fun mx => ?_
  split
  next => exact Triple.pure fun s hs => hs.1
  next holder _ =>
    refine Triple.bind (keeps_getObject m) fun ob => ?_
    refine Triple.bind (Keeps.foldlM _ _ fun best w => ?_) fun best => ?_
    · exact Keeps.bind (keeps_getThread w) fun waiter => Keeps.pure _
    · split
      next => exact Triple.bind (kept_setMutex hp _ _) fun _ => kept_updatePriority hp holder
      next => exact Triple.pure fun s hs => hs.1

end Priorities

/-! ## Objects -/

section Objects

variable {R : Thread → Thread → Prop} {p : ThreadManager → Prop} (hp : KeptByWrites R p)

include hp

theorem kept_addWaitingThread (o t : ℕ) : Keeps p (addWaitingThread o t) := by
  unfold addWaitingThread
  refine Keeps.bind (kept_modifyWaiting hp o fun _ => rfl) fun _ => ?_
  refine Keeps.bind (keeps_getObject o) fun ob => ?_
  split
  next =>
    refine Keeps.bind (kept_modifyRest hp t ?_) fun _ => kept_mutexUpdatePriority hp o
    exact fun _ => ⟨rfl, rfl, rfl, rfl, rfl, rfl, rfl⟩
  next => exact Keeps.pure _

theorem kept_removeWaitingThread (o t : ℕ) : Keeps p (removeWaitingThread o t) := by
  unfold removeWaitingThread
  refine Keeps.bind (kept_modifyWaiting hp o fun _ => rfl) fun _ => ?_
  refine Keeps.bind (keeps_getObject o) fun ob => ?_
  split
  next =>
    refine Keeps.bind (kept_modifyRest hp t ?_) fun _ => kept_mutexUpdatePriority hp o
    exact fun _ => ⟨rfl, rfl, rfl, rfl, rfl, rfl, rfl⟩
  next => exact Keeps.pure _

/-- A thread comes to hold a mutex. -/
theorem kept_hold (o t : ℕ) (mx : Mutex) : Triple (fun s => p s ∧ MutexAt o s) (do
    setMutex o mx
    modifyThread t fun th => { th with heldMutexes := insertAddress o th.heldMutexes })
    fun _ => p := by
  intro s u s' hs hrun
  obtain ⟨_, s₁, hset, hrest⟩ := stateT_bind_eq_ok.mp hrun
  have hs₁ := kept_setMutex hp o mx s _ s₁ hs hset
  obtain ⟨ob, s₂, hget, hwrite⟩ := stateT_bind_eq_ok.mp hset
  cases hwrite
  obtain ⟨th, hth, rfl⟩ := modifyThread_eq_ok.mp hrest
  refine hp.thread _ t th _ hs₁ hth ⟨rfl, rfl, Or.inl rfl, fun m hm => ?_, Or.inl ⟨rfl, rfl, rfl⟩⟩
  rcases (mem_insertAddress _).mp hm with rfl | hold
  · exact Or.inr ⟨_, mx, Function.update_self _ _ _, rfl⟩
  · exact Or.inl hold

theorem kept_acquire (o t : ℕ) : Keeps p (acquire o t) := by
  unfold acquire
  refine Keeps.bind (keeps_shouldWait o t) fun wait => ?_
  refine Triple.bind (getObject_triple o) fun ob => ?_
  have hensure : ∀ {p : ThreadManager → Prop} (site : AssertSite),
      Keeps p (ensure (!wait) site) := fun site => keeps_ensure _ site
  have hdone : Triple (fun s => p s ∧ s.objects o = some ob)
      (pure () : ManagerM Unit) fun _ => p := Triple.pure fun s hs => hs.1
  split
  next => exact (hensure _).weaken (fun _ hs => hs) fun _ _ hs => hs.1
  next mx _ =>
    have hlast : Keeps p (do
        let mx ← getMutex o
        setMutex o { mx with lockCount := mx.lockCount + 1 }) :=
      Triple.bind (getMutex_triple o) fun mx => kept_setMutex hp _ _
    suffices hmutex : Triple (fun s => p s ∧ MutexAt o s) _ fun _ => p from
      hmutex.weaken (fun s hs => ⟨hs.1, ob, mx, hs.2, by assumption⟩) fun _ _ hs => hs
    refine Triple.bind (hensure _) fun _ => ?_
    split
    next =>
      refine Triple.bind (keeps_getThread t) fun th => ?_
      have hhold := kept_hold hp o t
        { mx with priority := th.currentPriority, holdingThread := some t }
      intro s u s' hs hrun
      obtain ⟨_, s₁, hset, hrest⟩ := stateT_bind_eq_ok.mp hrun
      obtain ⟨_, s₂, hinsert, hrest⟩ := stateT_bind_eq_ok.mp hrest
      have hs₂ := hhold s _ s₂ hs (stateT_bind_eq_ok.mpr ⟨_, s₁, hset, hinsert⟩)
      exact Keeps.bind (kept_updatePriority hp t) (fun _ => hlast) s₂ u s' hs₂ hrest
    next => exact hlast.weaken (fun _ hs => hs.1) fun _ _ hs => hs
  next e hkind =>
    refine Triple.bind (hensure _) fun _ => ?_
    split
    next => exact kept_writeEvent hp hkind rfl
    next => exact hdone
  next e hkind =>
    refine Triple.bind (hensure _) fun _ => ?_
    split
    next => exact kept_writeTimer hp hkind rfl
    next => exact hdone
  next sm hkind =>
    split
    next => exact hdone
    next =>
      refine kept_writeKind hp ?_
      rw [hkind]
      exact .semaphore sm (by omega)
  next ss hkind =>
    refine Triple.bind (hensure _) fun _ => ?_
    split
    next => exact hdone
    next =>
      split
      next => exact (keeps_ensure _ _).weaken (fun _ hs => hs) fun _ _ hs => hs.1
      next =>
        refine kept_writeKind hp ?_
        rw [hkind]
        exact .serverSession ss _
  next => exact (hensure _).weaken (fun _ hs => hs) fun _ _ hs => hs.1

end Objects

/-! ## Waking up -/

section WakingUp

variable {R : Thread → Thread → Prop} {p : ThreadManager → Prop} (hp : KeptByWrites R p)

include hp

theorem kept_enqueueReady (t : ℕ) :
    Triple (fun s => p s ∧ ∀ th, s.threads t = some th → R th { th with status := .ready })
      (enqueueReady t) fun _ => p := by
  rintro s u s' ⟨hs, hready⟩ hrun
  obtain ⟨th, s₁, hget, hrest⟩ := stateT_bind_eq_ok.mp hrun
  obtain ⟨hth, rfl⟩ := getThread_eq_ok.mp hget
  obtain ⟨_, s₂, hqueue, hwrite⟩ := stateT_bind_eq_ok.mp hrest
  obtain ⟨q, -, rfl⟩ := modifyQueue_eq_ok.mp hqueue
  refine kept_writeWait hp t ?_ { s₁ with readyQueue := q } u s' ⟨?_, hready⟩ hwrite
  · exact fun _ => ⟨rfl, rfl, rfl, rfl⟩
  · exact hp.aside s₁ { s₁ with readyQueue := q } rfl rfl rfl hs

/-- `Thread::ResumeFromWait`, of a thread that `R` lets resume.
SOURCE: thread.cpp:281-318 -/
theorem kept_resumeFromWait (t : ℕ) :
    Triple (fun s => p s ∧ ∀ th, s.threads t = some th → Resumes th.status →
        th.waitObjects = [] → MayResume R th)
      (resumeFromWait t) fun _ => p := by
  unfold resumeFromWait
  refine Triple.bind (getThread_triple t) fun th => ?_
  refine Triple.bind (ensure_triple _ _) fun _ => ?_
  have hresume : Resumes th.status → Triple (fun s => ((p s ∧ ∀ th, s.threads t = some th →
      Resumes th.status → th.waitObjects = [] → MayResume R th) ∧ s.threads t = some th) ∧
        th.waitObjects.isEmpty = true) (do
      modifyThread t fun th => { th with wakeupCallback := false }
      enqueueReady t) fun _ => p := by
    rintro hst s u s' ⟨⟨⟨hs, hmay⟩, hth⟩, hempty⟩ hrun
    obtain ⟨hfirst, hsecond⟩ := hmay th hth hst (List.isEmpty_iff.mp hempty)
    obtain ⟨_, s₁, hmodify, hrest⟩ := stateT_bind_eq_ok.mp hrun
    have hs₁ : p s₁ := by
      refine kept_writeWait hp t ?_ s _ s₁ ⟨hs, fun th' hth' => ?_⟩ hmodify
      · exact fun _ => ⟨rfl, rfl, rfl, rfl⟩
      · rw [hth] at hth'
        cases hth'
        exact hfirst
    obtain ⟨th', hth', rfl⟩ := modifyThread_eq_ok.mp hmodify
    rw [hth] at hth'
    cases hth'
    refine kept_enqueueReady hp t _ u s' ⟨hs₁, fun th' hth' => ?_⟩ hrest
    simp only [Function.update_self, Option.some.injEq] at hth'
    subst hth'
    exact hsecond
  split
  next => exact (keeps_ensure _ _).weaken (fun _ hs => hs) fun _ _ hs => hs.1.1.1
  next => exact Triple.pure fun s hs => hs.1.1.1
  next => exact Triple.pure fun s hs => hs.1.1.1
  next hready hrunning hdead => exact hresume ⟨hready, hrunning, hdead⟩

/-- A thread that waits for objects resumes. -/
theorem kept_resumeWaiting (hR : Permits R) {status : ThreadStatus} (hst : SynchWaiting status)
    (t : ℕ) : Triple (fun s => p s ∧ StatusIs t status s) (resumeFromWait t) fun _ => p := by
  refine (kept_resumeFromWait hp t).weaken (fun s hs => ⟨hs.1, fun th hth _ hempty => ?_⟩)
    fun _ _ hs => hs
  obtain ⟨th', hth', hstatus⟩ := hs.2
  rw [hth] at hth'
  cases hth'
  exact hR.wake th (hstatus ▸ hst) hempty

/-- A thread leaves its waiting lists, and keeps its status. -/
theorem kept_leaveWaitObjects {status : ThreadStatus} (t : ℕ)
    (hR : ∀ th, th.status = status → R th { th with waitObjects := [] }) :
    Keeps (fun s => p s ∧ StatusIs t status s) (leaveWaitObjects t) := by
  have hstill := hp.still t status
  unfold leaveWaitObjects
  refine Keeps.bind (keeps_getThread t) fun th => ?_
  refine Keeps.bind (Keeps.forM _ fun o => kept_removeWaitingThread hstill o t) fun _ => ?_
  refine (kept_writeStatus hstill t ?_ ?_).weaken (fun s hs => ⟨hs, hs.2⟩) fun _ _ hs => hs
  · exact fun _ => ⟨rfl, rfl, rfl, rfl⟩
  · exact fun th hth => ⟨hR th hth, rfl⟩

theorem kept_wakeupWaitingThread (hR : Permits R) {status : ThreadStatus}
    (hst : SynchWaiting status) (o t : ℕ) :
    Triple (fun s => p s ∧ StatusIs t status s) (wakeupWaitingThread o t) fun _ => p := by
  have hstill := hp.still t status
  unfold wakeupWaitingThread
  refine Triple.bind (keeps_getThread t) fun th => ?_
  have hrest : Triple (fun s => p s ∧ StatusIs t status s) (do
      leaveWaitObjects t
      resumeFromWait t) fun _ => p := by
    refine Triple.bind (kept_leaveWaitObjects hp t fun th hth => ?_)
      fun _ => kept_resumeWaiting hp hR hst t
    exact hR.leave th (Or.inl (hth ▸ hst))
  split
  next => exact Triple.bind (kept_acquire hstill o t) fun _ => hrest
  next => exact Triple.bind (Keeps.forM _ fun o => kept_acquire hstill o t) fun _ => hrest

theorem kept_wakeupLoop (hR : Permits R) (o fuel : ℕ) : Keeps p (wakeupLoop o fuel) := by
  induction fuel with
  | zero => exact keeps_undefined
  | succ fuel ih =>
    unfold wakeupLoop
    refine Triple.bind (getHighestPriorityReadyThread_triple o) fun next => ?_
    split
    next => exact Triple.pure fun s hs => hs.1
    next t =>
      rintro s u s' ⟨hs, hnext⟩ hrun
      obtain ⟨status, hst, hstatus⟩ := hnext t rfl
      have hwake := Triple.bind (kept_wakeupWaitingThread hp hR hst o t) fun _ => ih
      exact hwake s u s' ⟨hs, hstatus⟩ hrun

/-- `WaitObject::WakeupAllWaitingThreads`.
SOURCE: wait_object.cpp:87-110 -/
theorem kept_wakeupAllWaitingThreads (hR : Permits R) (o : ℕ) :
    Keeps p (wakeupAllWaitingThreads o) := by
  unfold wakeupAllWaitingThreads
  refine Keeps.bind (keeps_getObject o) fun ob => ?_
  refine Keeps.bind (kept_wakeupLoop hp hR o _) fun _ => ?_
  refine Triple.bind (getObject_triple o) fun ob => ?_
  split
  next e hkind =>
    split
    next => exact kept_writeEvent hp hkind rfl
    next => exact Triple.pure fun s hs => hs.1
  next e hkind =>
    split
    next => exact kept_writeTimer hp hkind rfl
    next => exact Triple.pure fun s hs => hs.1
  next => exact Triple.pure fun s hs => hs.1

theorem kept_mutexRelease (hR : Permits R) (m t : ℕ) : Keeps p (mutexRelease m t) := by
  unfold mutexRelease
  refine Triple.bind (getMutex_triple m) fun mx => ?_
  have hrefused : ∀ r : Result, Triple (fun s => p s ∧ MutexAt m s) (pure r : ManagerM Result)
      fun _ => p := fun r => Triple.pure fun s hs => hs.1
  split
  next => exact hrefused _
  next holder _ =>
    split
    next => exact hrefused _
    next =>
      split
      next => exact hrefused _
      next =>
        refine Triple.bind (kept_setMutex hp m _) fun _ => ?_
        split
        next =>
          refine Keeps.bind (kept_modifyThread hp holder fun s th => ?_) fun _ => ?_
          · exact ⟨rfl, rfl, Or.inl rfl, fun x hx => Or.inl (List.mem_of_mem_erase hx),
              Or.inl ⟨rfl, rfl, rfl⟩⟩
          refine Keeps.bind (kept_updatePriority hp holder) fun _ => ?_
          refine Triple.bind (getMutex_triple m) fun mx => ?_
          refine Triple.bind (kept_setMutex hp m _) fun _ => ?_
          exact Keeps.bind (kept_wakeupAllWaitingThreads hp hR m) fun _ => Keeps.pure _
        next => exact Keeps.pure _

theorem kept_signal (hR : Permits R) (o : ℕ) : Keeps p (signal o) := by
  unfold signal
  refine Triple.bind (getObject_triple o) fun ob => ?_
  split
  next e hkind =>
    exact Triple.bind (kept_writeEvent hp hkind rfl) fun _ =>
      kept_wakeupAllWaitingThreads hp hR o
  next e hkind =>
    exact Triple.bind (kept_writeTimer hp hkind rfl) fun _ =>
      kept_wakeupAllWaitingThreads hp hR o
  next =>
    refine Triple.bind (q := fun _ => p) Triple.throw fun _ => ?_
    exact kept_wakeupAllWaitingThreads hp hR o

theorem kept_clearObject (o : ℕ) : Keeps p (clear o) := by
  unfold clear
  refine Triple.bind (getObject_triple o) fun ob => ?_
  split
  next e hkind => exact kept_writeEvent hp hkind rfl
  next e hkind => exact kept_writeTimer hp hkind rfl
  next => exact Triple.throw

theorem kept_releaseThreadMutexes (hR : Permits R) (t : ℕ) : Keeps p (releaseThreadMutexes t) := by
  unfold releaseThreadMutexes
  refine Keeps.bind (keeps_getThread t) fun th => ?_
  refine Keeps.bind (Keeps.forM _ fun m => ?_) fun _ => ?_
  · refine Triple.bind (getMutex_triple m) fun mx => ?_
    exact Triple.bind (kept_setMutex hp m _) fun _ => kept_wakeupAllWaitingThreads hp hR m
  · refine kept_modifyThread hp t fun s th => ?_
    exact ⟨rfl, rfl, Or.inl rfl, fun _ hm => (List.not_mem_nil hm).elim, Or.inl ⟨rfl, rfl, rfl⟩⟩

theorem kept_markDead (t : ℕ) :
    Triple (fun s => p s ∧ ∀ th, s.threads t = some th → R th { th with status := .dead })
      (markDead t) fun _ s => p s ∧ StatusIs t .dead s := by
  rintro s u s' ⟨hs, hdie⟩ hrun
  obtain ⟨th, s₁, hget, hrest⟩ := stateT_bind_eq_ok.mp hrun
  obtain ⟨hth, rfl⟩ := getThread_eq_ok.mp hget
  have hwrite : ∀ s₂ : ThreadManager, p s₂ → s₂.threads = s₁.threads →
      modifyThread t (fun th => { th with status := .dead }) s₂ = .ok (u, s') →
      p s' ∧ StatusIs t .dead s' := by
    intro s₂ hs₂ hthreads hmodify
    refine ⟨kept_writeWait hp t ?_ s₂ u s' ⟨hs₂, fun th hth => ?_⟩ hmodify, ?_⟩
    · exact fun _ => ⟨rfl, rfl, rfl, rfl⟩
    · exact hdie th (hthreads ▸ hth)
    · obtain ⟨th', -, rfl⟩ := modifyThread_eq_ok.mp hmodify
      exact ⟨_, Function.update_self _ _ _, rfl⟩
  split at hrest
  next =>
    obtain ⟨_, s₂, hqueue, hmodify⟩ := stateT_bind_eq_ok.mp hrest
    obtain ⟨q, -, rfl⟩ := modifyQueue_eq_ok.mp hqueue
    exact hwrite _ (hp.aside s₁ { s₁ with readyQueue := q } rfl rfl rfl hs) rfl hmodify
  next => exact hwrite s₁ hs rfl hrest

/-- `Thread::Stop`, of a thread that `R` lets die: it is dead then.
SOURCE: thread.cpp:88-121 -/
theorem kept_stop (hR : Permits R) (t : ℕ) :
    Triple (fun s => p s ∧ ∀ th, s.threads t = some th → R th { th with status := .dead })
      (stop t) fun _ s => p s ∧ StatusIs t .dead s := by
  have hp' : KeptByWrites (fun th th' => R th th' ∧ StaysDead th th')
      fun s => p s ∧ StatusIs t .dead s :=
    (hp.mono fun _ _ h => h.1).and (statusIs_kept t fun _ _ h => h.2)
  unfold stop
  refine Triple.bind (keeps_getThread t) fun th => ?_
  refine Triple.bind (q := fun _ s => p s ∧ ∀ th, s.threads t = some th →
    R th { th with status := .dead }) (Triple.modify fun s hs => ?_) fun _ => ?_
  · exact ⟨hp.forget s th.threadId hs.1, hs.2⟩
  refine Triple.bind (kept_markDead hp t) fun _ => ?_
  refine Triple.bind (kept_wakeupAllWaitingThreads hp' hR.staysDead t) fun _ => ?_
  refine Triple.bind (q := fun _ s => p s ∧ StatusIs t .dead s) ?_
    fun _ => kept_releaseThreadMutexes hp' hR.staysDead t
  exact kept_leaveWaitObjects hp t fun th hth => hR.leave th (Or.inr hth)

end WakingUp

/-! ## Switching threads -/

section Switching

variable {R : Thread → Thread → Prop} {p : ThreadManager → Prop} (hp : KeptByWrites R p)

include hp

theorem kept_popSchedulable (pop : ReadyQueue → Exec (Option ℕ × ReadyQueue)) (fuel : ℕ) :
    Keeps p (popSchedulable pop fuel) := by
  induction fuel with
  | zero => exact keeps_undefined
  | succ fuel ih =>
    unfold popSchedulable
    refine Keeps.bind Keeps.get fun s => ?_
    refine Keeps.bind (Keeps.lift _) fun r => ?_
    refine Keeps.bind (kept_aside hp (fun _ => rfl) (fun _ => rfl) fun _ => rfl) fun _ => ?_
    split
    next => exact Keeps.pure _
    next t _ =>
      refine Keeps.bind (keeps_getThread t) fun th => ?_
      split
      next => exact Keeps.pure _
      next =>
        exact Keeps.bind (kept_aside hp (fun _ => rfl) (fun _ => rfl) fun _ => rfl) fun _ => ih

theorem kept_requeueUnscheduled (parked : List ℕ) :
    Keeps p (requeueUnscheduled parked) := by
  induction parked with
  | nil => exact Keeps.pure _
  | cons t rest ih =>
    unfold requeueUnscheduled
    refine Keeps.bind (keeps_getThread t) fun th => ?_
    refine Keeps.bind (kept_modifyQueue hp _) fun _ => ?_
    exact Keeps.bind (kept_aside hp (fun _ => rfl) (fun _ => rfl) fun _ => rfl) fun _ => ih

/-- `ThreadManager::PopNextReadyThread`.
SOURCE: thread.cpp:172-203 -/
theorem kept_popNextReadyThread : Keeps p popNextReadyThread := by
  unfold popNextReadyThread
  refine Keeps.bind Keeps.get fun s => ?_
  have hrequeue : ∀ next : Option ℕ, Keeps p (do
      requeueUnscheduled (← get).unscheduledReadyQueue.reverse
      pure next : ManagerM (Option ℕ)) := fun next =>
    Keeps.bind Keeps.get fun s => Keeps.bind (kept_requeueUnscheduled hp _) fun _ => Keeps.pure _
  refine Keeps.bind keeps_runningThread fun running => ?_
  split
  next t th =>
    exact Keeps.bind (kept_popSchedulable hp _ _) fun next => hrequeue _
  next => exact Keeps.bind (kept_popSchedulable hp _ _) fun next => hrequeue _

theorem kept_saveContext (hR : Permits R) (t ticks : ℕ) : Keeps p (saveContext t ticks) := by
  unfold saveContext
  refine Keeps.bind (kept_modifyRest hp t ?_) fun _ => ?_
  · exact fun _ => ⟨rfl, rfl, rfl, rfl, rfl, rfl, rfl⟩
  refine Triple.bind (getThread_triple t) fun th => ?_
  split
  next hrunning =>
    refine Triple.bind (q := fun _ s => p s ∧ StatusIs t .running s) ?_ fun _ => ?_
    · refine (kept_modifyQueue (hp.still t .running) _).weaken (fun s hs => ?_) fun _ _ hs => hs
      exact ⟨hs.1, th, hs.2, hrunning⟩
    · exact kept_writeStatus hp t (fun _ => ⟨rfl, rfl, rfl, rfl⟩) hR.pause
  next => exact Triple.pure fun s hs => hs.1

theorem kept_loadContext (hload : ∀ th, th.status = .ready → R th { th with status := .running })
    (t : ℕ) : Keeps p (loadContext t) := by
  have hstill := hp.still t .ready
  unfold loadContext
  refine Triple.bind (getThread_triple t) fun th => ?_
  refine Triple.bind (ensure_triple _ _) fun _ => ?_
  have hrest : Triple (fun s => p s ∧ StatusIs t .ready s) (do
      modify fun s => { s with currentThread := some t }
      modifyQueue fun q => q.remove th.currentPriority t
      modifyThread t fun th => { th with status := .running }
      ensure th.ownerProcess.isSome .ownerProcess
      modifyThread t fun th => { th with currentPriority := th.nominalPriority } :
        ManagerM Unit) fun _ => p := by
    refine Triple.bind (kept_aside hstill (fun _ => rfl) (fun _ => rfl) fun _ => rfl) fun _ => ?_
    refine Triple.bind (kept_modifyQueue hstill _) fun _ => ?_
    refine Triple.bind (kept_writeStatus hp t (fun _ => ⟨rfl, rfl, rfl, rfl⟩) hload) fun _ => ?_
    refine Keeps.bind (keeps_ensure _ _) fun _ => kept_modifyRest hp t ?_
    exact fun _ => ⟨rfl, rfl, rfl, rfl, rfl, rfl, rfl⟩
  refine hrest.weaken (fun s hs => ⟨hs.1.1, th, hs.1.2, ?_⟩) fun _ _ hs => hs
  simpa using hs.2

/-- `ThreadManager::SwitchContext`.
SOURCE: thread.cpp:123-170 -/
theorem kept_switchContext (hR : Permits R)
    (hload : ∀ th, th.status = .ready → R th { th with status := .running })
    (newThread : Option ℕ) (ticks : ℕ) : Keeps p (switchContext newThread ticks) := by
  have hsave : ∀ {load : ManagerM Unit}, Keeps p load → ∀ previous,
      Keeps p (saveContext previous ticks >>= fun _ => load) :=
    fun hload previous => Keeps.bind (kept_saveContext hp hR previous ticks) fun _ => hload
  unfold switchContext
  refine Keeps.bind Keeps.get fun s => ?_
  cases newThread with
  | none =>
    have hnone : Keeps p (modify fun s => { s with currentThread := none }) :=
      kept_aside hp (fun _ => rfl) (fun _ => rfl) fun _ => rfl
    dsimp only
    split
    next previous _ => exact hsave hnone previous
    next => exact hnone
  | some t =>
    have hthread := kept_loadContext hp hload t
    dsimp only
    split
    next previous _ => exact hsave hthread previous
    next => exact hthread

theorem kept_priorityBoostStarvedThreads (currentTicks : ℕ) :
    Keeps p (priorityBoostStarvedThreads currentTicks) := by
  unfold priorityBoostStarvedThreads
  refine Keeps.bind Keeps.get fun s => ?_
  refine Keeps.forM _ fun t => ?_
  refine Keeps.bind (keeps_getThread t) fun th => ?_
  dsimp only
  split
  next =>
    refine Keeps.bind Keeps.get fun s => ?_
    refine Keeps.bind (Keeps.lift _) fun first => ?_
    split
    next => exact keeps_undefined
    next first =>
      exact Keeps.bind (keeps_getThread first) fun th => kept_boostPriority hp t _
  next => exact Keeps.pure _

/-- `ThreadManager::Reschedule`.
SOURCE: thread.cpp:491-511 -/
theorem kept_reschedule (hR : Permits R)
    (hload : ∀ th, th.status = .ready → R th { th with status := .running })
    (priorityBoost : Bool) (currentTicks cpuTicks : ℕ) :
    Keeps p (reschedule priorityBoost currentTicks cpuTicks) := by
  have hswitch : Keeps p (do
      let cur := (← get).currentThread
      let next ← popNextReadyThread
      if cur.isNone ∧ next.isNone then pure ()
      else switchContext next cpuTicks : ManagerM Unit) := by
    refine Keeps.bind Keeps.get fun s => ?_
    refine Keeps.bind (kept_popNextReadyThread hp) fun next => ?_
    split
    next => exact Keeps.pure _
    next => exact kept_switchContext hp hR hload next cpuTicks
  unfold reschedule
  split
  next => exact Keeps.bind (kept_priorityBoostStarvedThreads hp currentTicks) fun _ => hswitch
  next => exact hswitch

end Switching

/-! ## Objects and threads begin and end -/

/-- A new thread is made, as a property of threads lets it. -/
def KeptByNew (p : ThreadManager → Prop) : Prop :=
  ∀ s t th table, p s → s.threads t = none → th.nominalPriority ≤ ThreadPrioLowest →
    th.heldMutexes = [] → th.threadId = s.nextThreadId → th.status = .dormant →
    (∀ id u, table id = some u → u = t ∧ id = s.nextThreadId ∨ s.wakeupCallbackTable id = some u) →
    p { s with threads := Function.update s.threads t (some th), wakeupCallbackTable := table }

/-- What a new thread is like. -/
def FreshThread (t : ℕ) (s : ThreadManager) : Prop :=
  ∃ th, s.threads t = some th ∧ th.status = .dormant ∧ th.waitObjects = []

theorem registerThread_fresh {p : ThreadManager → Prop} (t priority ticks ownerProcess : ℕ) :
    Triple p (registerThread t priority ticks ownerProcess) fun _ => FreshThread t := by
  intro s u s' _ hrun
  obtain ⟨_, _, hget, hrest⟩ := stateT_bind_eq_ok.mp hrun
  cases hget
  split at hrest
  next => cases hrest
  next =>
    obtain ⟨q, _, hlift, hset⟩ := stateT_bind_eq_ok.mp hrest
    obtain ⟨_, hprepare, hpure⟩ := bind_eq_ok.mp hlift
    cases hpure
    cases hset
    exact ⟨_, Function.update_self _ _ _, rfl, rfl⟩

section Lifetimes

variable {R : Thread → Thread → Prop} {p : ThreadManager → Prop} (hp : KeptByWrites R p)

include hp

theorem kept_newObject (o : ℕ) {kind : ObjectKind} (hkind : ∀ sm, kind ≠ .semaphore sm) :
    Keeps p (newObject o kind) := by
  unfold newObject
  refine Triple.bind (q := fun s₀ s => p s ∧ s₀ = s)
    (Triple.get fun s hs => ⟨hs, rfl⟩) fun s₀ => ?_
  split
  next => exact Triple.throw
  next hfree =>
    rintro s u s' ⟨hs, rfl⟩ hrun
    cases hrun
    exact hp.newObject s₀ o kind hs hfree hkind

theorem kept_createMutex (o : ℕ) (initialLocked : Bool) :
    Keeps p (createMutex o initialLocked) := by
  unfold createMutex
  refine Keeps.bind (kept_newObject hp o (by simp)) fun _ => ?_
  split
  next =>
    refine Keeps.bind Keeps.get fun s => ?_
    split
    next => exact keeps_undefined
    next t _ => exact kept_acquire hp o t
  next => exact Keeps.pure _

/-- A new thread holds nothing, and its priority was checked. -/
theorem kept_registerThread (hnew : KeptByNew p) {priority : ℕ}
    (hpriority : priority ≤ ThreadPrioLowest) (t ticks ownerProcess : ℕ) :
    Keeps p (registerThread t priority ticks ownerProcess) := by
  intro s u s' hs hrun
  obtain ⟨_, _, hget, hrest⟩ := stateT_bind_eq_ok.mp hrun
  cases hget
  split at hrest
  next => cases hrest
  next hfree =>
    obtain ⟨q, _, hlift, hset⟩ := stateT_bind_eq_ok.mp hrest
    obtain ⟨_, hprepare, hpure⟩ := bind_eq_ok.mp hlift
    cases hpure
    cases hset
    obtain ⟨hnone, -⟩ := not_or.mp hfree
    have hmade := hp.newObject s t .thread hs hfree (by simp)
    have hthread := hnew _ t
      { threadId := s.nextThreadId, nominalPriority := priority, currentPriority := priority,
        lastRunningTicks := ticks, ownerProcess := some ownerProcess }
      (Function.update s.wakeupCallbackTable s.nextThreadId (some t)) hmade
      (Option.not_isSome_iff_eq_none.mp hnone) hpriority rfl rfl rfl fun id u hid => ?_
    · exact hp.aside { s with threads := _, objects := _, wakeupCallbackTable := _ } _ rfl rfl rfl
        hthread
    · by_cases heq : id = s.nextThreadId
      · subst heq
        rw [Function.update_self] at hid
        exact Or.inl ⟨(Option.some.inj hid).symm, rfl⟩
      · exact Or.inr ((Function.update_of_ne heq _ _).symm.trans hid)

/-- `KernelSystem::CreateThread`.
SOURCE: thread.cpp:352-404 -/
theorem kept_createThread (hR : Permits R) {q : ThreadManager → Prop} (hq : ∀ s, q s → p s)
    {t priority : ℕ} {processorId : ℤ} {entryPointValid tlsAllocated : Bool}
    {ticks ownerProcess : ℕ} {makeReady : Bool}
    (hregister : priority ≤ ThreadPrioLowest →
      Triple q (registerThread t priority ticks ownerProcess) fun _ => p) :
    Triple q (createThread t priority processorId entryPointValid tlsAllocated
      ticks ownerProcess makeReady) fun _ => p := by
  unfold createThread
  split
  next => exact Triple.pure hq
  next hpriority =>
    split
    next => exact Triple.pure hq
    next =>
      split
      next => exact Triple.pure hq
      next =>
        refine Triple.bind (q := fun _ s => p s ∧ FreshThread t s) ?_ fun _ => ?_
        · intro s u s' hs hrun
          exact ⟨hregister (by omega) s u s' hs hrun, registerThread_fresh t _ _ _ s u s' hs hrun⟩
        · split
          next => exact Triple.pure fun s hs => hs.1
          next =>
            split
            next =>
              refine Triple.bind (q := fun _ => p) ?_ fun _ => Keeps.pure _
              refine (kept_enqueueReady hp t).weaken (fun s hs => ⟨hs.1, fun th hth => ?_⟩)
                fun _ _ hs => hs
              obtain ⟨th', hth', hstatus, hobjects⟩ := hs.2
              rw [hth] at hth'
              cases hth'
              exact hR.enqueue th hstatus hobjects
            next => exact Triple.pure fun s hs => hs.1

theorem kept_exitCurrentThread (hR : Permits R) :
    Triple (fun s => p s ∧ ∀ t th, s.currentThread = some t → s.threads t = some th →
      R th { th with status := .dead }) exitCurrentThread fun _ => p := by
  unfold exitCurrentThread
  rintro s u s' ⟨hs, hdie⟩ hrun
  obtain ⟨_, _, hget, hrest⟩ := stateT_bind_eq_ok.mp hrun
  cases hget
  cases hcurrent : s.currentThread with
  | none =>
    rw [hcurrent] at hrest
    cases hrest
  | some t =>
    rw [hcurrent] at hrest
    obtain ⟨_, s₁, hstop, hmodify⟩ := stateT_bind_eq_ok.mp hrest
    cases hmodify
    have hstopped := kept_stop hp hR t s _ s₁ ⟨hs, fun th => hdie t th hcurrent⟩ hstop
    exact hp.aside s₁ _ rfl rfl rfl hstopped.1

theorem kept_terminateOthers (hR : Permits R) {process : ℕ}
    (hdie : ∀ s t th, p s → s.threads t = some th → th.ownerProcess = some process →
      R th { th with status := .dead }) (kept rest : List ℕ) :
    Keeps p (terminateOthers process kept rest) := by
  induction rest generalizing kept with
  | nil => exact Keeps.pure _
  | cons t rest ih =>
    unfold terminateOthers
    refine Triple.bind (getThread_triple t) fun th => ?_
    refine Triple.bind Keeps.get fun s => ?_
    split
    next => exact (ih _).weaken (fun _ hs => hs.1) fun _ _ hs => hs
    next hothers =>
      refine Triple.bind (q := fun _ => p) ?_ fun _ => ?_
      · refine (kept_stop hp hR t).weaken (fun s hs => ⟨hs.1, fun th' hth' => ?_⟩)
          fun _ _ hs => hs.1
        refine hdie s t th' hs.1 hth' ?_
        rw [hs.2] at hth'
        cases hth'
        exact not_not.mp fun hne => hothers (Or.inr hne)
      · exact Keeps.bind (kept_aside hp (fun _ => rfl) (fun _ => rfl) fun _ => rfl) fun _ => ih kept

theorem kept_terminateProcessThreads (hR : Permits R) {process : ℕ}
    (hdie : ∀ s t th, p s → s.threads t = some th → th.ownerProcess = some process →
      R th { th with status := .dead }) : Keeps p (terminateProcessThreads process) := by
  unfold terminateProcessThreads
  refine Keeps.bind Keeps.get fun s => ?_
  refine Keeps.bind (kept_terminateOthers hp hR hdie _ _) fun _ => ?_
  refine Triple.bind (q := fun s₀ s => p s ∧ s₀ = s) (Triple.get fun s hs => ⟨hs, rfl⟩) fun s₀ => ?_
  split
  next => exact Triple.pure fun s hs => hs.1
  next t hcurrent =>
    refine Triple.bind (getThread_triple t) fun th => ?_
    split
    next howner =>
      refine (kept_exitCurrentThread hp hR).weaken ?_ fun _ _ hs => hs
      rintro s ⟨⟨hs, rfl⟩, hth⟩
      refine ⟨hs, fun u th' hu hth' => ?_⟩
      rw [hcurrent] at hu
      cases hu
      rw [hth] at hth'
      cases hth'
      exact hdie s₀ t th hs hth howner
    next => exact Triple.pure fun s hs => hs.1.1

/-- `ThreadManager::ThreadWakeupCallback`, of a thread whose status lets it leave what it waits for
and resume. -/
theorem kept_threadWakeupCallback {A : ThreadStatus → Prop}
    (hleave : ∀ th, A th.status → SynchWaiting th.status ∨ th.status = .waitArb →
      R th { th with waitObjects := [] })
    (hresume : ∀ th, A th.status → Resumes th.status → th.waitObjects = [] → MayResume R th)
    (threadId : ℕ) :
    Triple (fun s => p s ∧ ∀ t th, s.wakeupCallbackTable threadId = some t →
      s.threads t = some th → A th.status) (threadWakeupCallback threadId) fun _ => p := by
  unfold threadWakeupCallback
  refine Triple.bind (q := fun s₀ s => p s ∧ ∀ t th, s₀.wakeupCallbackTable threadId = some t →
    s.threads t = some th → A th.status) (Triple.get fun s hs => hs) fun s₀ => ?_
  split
  next => exact Triple.throw
  next t htable =>
    refine Triple.bind (getThread_triple t) fun th => ?_
    have hlast : A th.status →
        Triple (fun s => p s ∧ StatusIs t th.status s) (resumeFromWait t) fun _ => p := by
      intro hstatus
      refine (kept_resumeFromWait hp t).weaken (fun s hs => ⟨hs.1, fun th' hth' => ?_⟩)
        fun _ _ hs => hs
      obtain ⟨th₁, hth₁, heq⟩ := hs.2
      rw [hth'] at hth₁
      cases hth₁
      exact hresume th' (heq ▸ hstatus)
    have hboth : SynchWaiting th.status ∨ th.status = .waitArb → A th.status →
        Triple (fun s => p s ∧ StatusIs t th.status s) (do
          leaveWaitObjects t
          resumeFromWait t) fun _ => p := fun hst hstatus =>
      Triple.bind (kept_leaveWaitObjects hp t fun th' hth' =>
        hleave th' (hth' ▸ hstatus) (hth' ▸ hst)) fun _ => hlast hstatus
    have hruns : ∀ m : ManagerM Unit, (A th.status →
        Triple (fun s => p s ∧ StatusIs t th.status s) m fun _ => p) →
        Triple (fun s => (p s ∧ ∀ t th, s₀.wakeupCallbackTable threadId = some t →
          s.threads t = some th → A th.status) ∧ s.threads t = some th) m fun _ => p := by
      rintro m hm s u s' ⟨⟨hs, hA⟩, hth⟩ hrun
      exact hm (hA t th htable hth) s u s' ⟨hs, th, hth, rfl⟩ hrun
    split
    next hst => exact hruns _ (hboth (Or.inl (Or.inl hst)))
    next hst => exact hruns _ (hboth (Or.inl (Or.inr (Or.inl hst))))
    next hst => exact hruns _ (hboth (Or.inr hst))
    next hst => exact hruns _ (hboth (Or.inl (Or.inr (Or.inr hst))))
    next => exact hruns _ hlast

end Lifetimes

/-! ## What the running thread asks for -/

section Waiting

variable {R : Thread → Thread → Prop} {p : ThreadManager → Prop} (hp : KeptByWrites R p)

include hp

/-- The running thread goes to sleep. -/
theorem kept_waitCurrentThread {status : ThreadStatus}
    (hR : ∀ th, th.status = .running → R th { th with status := status }) :
    Keeps p (waitCurrentThread status) :=
  Triple.bind running_caller fun t => kept_writeStatus hp t (fun _ => ⟨rfl, rfl, rfl, rfl⟩) hR

theorem kept_sleepClientThread (hR : Permits R) (event : ℕ) :
    Keeps p (sleepClientThread event) := by
  unfold sleepClientThread
  refine Triple.bind running_caller fun t => ?_
  refine Triple.bind (kept_writeStatus hp t ?_ fun th hth => ?_)
    fun _ => kept_addWaitingThread hp event t
  · exact fun _ => ⟨rfl, rfl, rfl, rfl⟩
  · exact hR.suspend th .waitHleEvent true [event] hth (Or.inr (Or.inr rfl))

/-- What a thread waits for is written while it still runs. -/
theorem kept_waitSynchronization1 (hR : Permits R)
    (hask : ∀ th objects, th.status = .running → R th { th with waitObjects := objects })
    (object : ℕ) (nanoSeconds : ℤ) : Keeps p (waitSynchronization1 object nanoSeconds) := by
  unfold waitSynchronization1
  refine Triple.bind running_caller fun t => ?_
  have hstill := hp.still t .running
  refine Triple.bind (keeps_shouldWait object t) fun wait => ?_
  split
  next =>
    split
    next => exact Triple.pure fun s hs => hs.1
    next =>
      refine Triple.bind (q := fun _ s => p s ∧ StatusIs t .running s) ?_ fun _ => ?_
      · refine (kept_writeStatus hstill t ?_ fun th hth => ?_).weaken
          (fun s hs => ⟨hs, hs.2⟩) fun _ _ hs => hs
        · exact fun _ => ⟨rfl, rfl, rfl, rfl⟩
        · exact ⟨hask th [object] hth, rfl⟩
      refine Triple.bind (kept_addWaitingThread hstill object t) fun _ => ?_
      refine kept_writeStatus hp t (fun _ => ⟨rfl, rfl, rfl, rfl⟩) fun th hth => ?_
      exact hR.suspend th .waitSynchAny true th.waitObjects hth (Or.inl rfl)
  next =>
    exact (kept_acquire hp object t).weaken (fun _ hs => hs.1) fun _ _ hs => hs

theorem kept_suspendOn (hR : Permits R) (t : ℕ) (objects : List ℕ) {status : ThreadStatus}
    (hst : SynchWaiting status) (nanoSeconds : ℤ) :
    Triple (fun s => p s ∧ StatusIs t .running s) (suspendOn t objects status nanoSeconds)
      fun _ => p := by
  have hstill := hp.still t status
  unfold suspendOn
  split
  next => exact Triple.pure fun s hs => hs.1
  next =>
    refine Triple.bind (q := fun _ s => p s ∧ StatusIs t status s) ?_ fun _ => ?_
    · intro s u s' hs hrun
      refine ⟨kept_writeStatus hp t ?_ ?_ s u s' hs hrun, ?_⟩
      · exact fun _ => ⟨rfl, rfl, rfl, rfl⟩
      · exact fun th hth => hR.suspend th status th.wakeupCallback th.waitObjects hth hst
      · obtain ⟨th, -, rfl⟩ := modifyThread_eq_ok.mp hrun
        exact ⟨_, Function.update_self _ _ _, rfl⟩
    refine Triple.bind (Keeps.forM _ fun o => kept_addWaitingThread hstill o t) fun _ => ?_
    refine kept_writeStatus hp t (fun _ => ⟨rfl, rfl, rfl, rfl⟩) fun th hth => ?_
    exact hR.settle th objects (hth ▸ hst)

/-- `SVC::WaitSynchronizationN`.
SOURCE: svc.cpp:799-909 -/
theorem kept_waitSynchronizationN (hR : Permits R) (objects : List ℕ) (waitAll : Bool)
    (nanoSeconds : ℤ) : Keeps p (waitSynchronizationN objects waitAll nanoSeconds) := by
  unfold waitSynchronizationN
  refine Triple.bind running_caller fun t => ?_
  split
  next =>
    refine Triple.bind (Keeps.anyM _ fun o => keeps_shouldWait o t) fun wait => ?_
    split
    next => exact kept_suspendOn hp hR t objects (Or.inr (Or.inl rfl)) nanoSeconds
    next =>
      exact (Keeps.forM _ fun o => kept_acquire hp o t).weaken (fun _ hs => hs.1) fun _ _ hs => hs
  next =>
    refine Triple.bind (keeps_firstAvailable t objects) fun first => ?_
    split
    next o => exact (kept_acquire hp o t).weaken (fun _ hs => hs.1) fun _ _ hs => hs
    next => exact kept_suspendOn hp hR t objects (Or.inl rfl) nanoSeconds

theorem kept_setThreadPriority (t priority : ℕ) :
    Keeps p (setThreadPriority t priority) := by
  unfold setThreadPriority
  split
  next => exact Keeps.pure _
  next =>
    refine Keeps.bind (kept_setPriority hp t priority) fun _ => ?_
    refine Keeps.bind (kept_updatePriority hp t) fun _ => ?_
    refine Keeps.bind (keeps_getThread t) fun th => ?_
    exact Keeps.forM _ fun m => kept_mutexUpdatePriority hp m

theorem kept_scheduleThreadsWithoutTlsMagic (process varg2 : ℕ) (hasMagic : ℕ → Bool) :
    Keeps p (scheduleThreadsWithoutTlsMagic process varg2 hasMagic) := by
  unfold scheduleThreadsWithoutTlsMagic
  refine Keeps.bind Keeps.get fun s => ?_
  refine Keeps.forM _ fun t => ?_
  refine Keeps.bind (keeps_getThread t) fun th => ?_
  split
  next => exact Keeps.pure _
  next =>
    split
    next => exact Keeps.pure _
    next =>
      refine Keeps.bind Keeps.get fun s => ?_
      split
      next => exact keeps_undefined
      next current _ =>
        refine Keeps.bind (keeps_getThread current) fun cur => ?_
        split
        next => exact Keeps.pure _
        next => exact kept_modifyRest hp t fun _ => ⟨rfl, rfl, rfl, rfl, rfl, rfl, rfl⟩

end Waiting

/-! ## Semaphores -/

section Semaphores

variable {R : Thread → Thread → Prop} {p : ThreadManager → Prop} (hp : KeptByWrites R p)
  (hobjects : ∀ s objects, p s → p { s with objects := objects })

include hobjects

include hp

end Semaphores

/-! ## The calls -/

/-- The calls that wake no thread but one that waits for objects, let none die or run, and are about
no semaphores. -/
def Plain : ManagerCall → Prop
  | .createSemaphore _ _ _ | .createThread _ _ _ _ _ _ _ _ | .resumeFromWait _
  | .threadWakeupCallback _ | .arbiterWaitThread | .waitSynchronization1 _ _
  | .semaphoreRelease _ _ | .stop _ | .exitCurrentThread | .terminateProcessThreads _
  | .reschedule _ _ _ => False
  | _ => True

theorem kept_plain {R : Thread → Thread → Prop} {p : ThreadManager → Prop}
    (hp : KeptByWrites R p) (hR : Permits R) {call : ManagerCall} (hplain : Plain call) :
    Keeps p call.program := by
  cases call with
  | createMutex o l => exact kept_createMutex hp o l
  | createEvent o r => exact kept_newObject hp o (by simp)
  | createTimer o r => exact kept_newObject hp o (by simp)
  | waitCurrentThreadSleep => exact kept_waitCurrentThread hp hR.sleep
  | handleSyncRequest => exact kept_waitCurrentThread hp hR.request
  | sleepClientThread e => exact kept_sleepClientThread hp hR e
  | waitSynchronizationN os a n => exact kept_waitSynchronizationN hp hR os a n
  | setPriority t p => exact kept_setPriority hp t p
  | boostPriority t p => exact kept_boostPriority hp t p
  | updatePriority t => exact kept_updatePriority hp t
  | setThreadPriority t p => exact kept_setThreadPriority hp t p
  | priorityBoostStarvedThreads k => exact kept_priorityBoostStarvedThreads hp k
  | scheduleThreadsWithoutTlsMagic w v m => exact kept_scheduleThreadsWithoutTlsMagic hp w v m
  | mutexRelease m t => exact Keeps.bind (kept_mutexRelease hp hR m t) fun _ => Keeps.pure _
  | signal o => exact kept_signal hp hR o
  | clear o => exact kept_clearObject hp o
  | _ => exact hplain.elim

/-- What is more that a thread may be written with when it may also resume from whatever it waits
for, die, begin to run and wait for an arbiter. -/
structure PermitsAll (R : Thread → Thread → Prop) : Prop extends Permits R where
  resume : ∀ th, Resumes th.status → th.waitObjects = [] → MayResume R th
  leaveAny : ∀ th, SynchWaiting th.status ∨ th.status = .waitArb →
    R th { th with waitObjects := [] }
  die : ∀ th, R th { th with status := .dead }
  load : ∀ th, th.status = .ready → R th { th with status := .running }
  arbitrate : ∀ th, th.status = .running → R th { th with status := .waitArb }

/-- Every call but those that make semaphores and threads, release a semaphore's slots, and wait for
one object. -/
theorem kept_program {R : Thread → Thread → Prop} {p : ThreadManager → Prop}
    (hp : KeptByWrites R p) (hR : PermitsAll R) {call : ManagerCall}
    (hsemaphore : ∀ o i m, call ≠ .createSemaphore o i m)
    (hrelease : ∀ o n, call ≠ .semaphoreRelease o n)
    (hthread : ∀ t i e l k w r, ∀ n, call ≠ .createThread t n i e l k w r)
    (hwait : ∀ o n, call ≠ .waitSynchronization1 o n) : Keeps p call.program := by
  cases call with
  | createSemaphore o i m => exact absurd rfl (hsemaphore o i m)
  | createThread t n i e l k w r => exact absurd rfl (hthread t i e l k w r n)
  | waitSynchronization1 o n => exact absurd rfl (hwait o n)
  | semaphoreRelease o n => exact absurd rfl (hrelease o n)
  | resumeFromWait t =>
      exact (kept_resumeFromWait hp t).weaken (fun s hs => ⟨hs, fun th _ => hR.resume th⟩)
        fun _ _ hs => hs
  | threadWakeupCallback i =>
      refine (kept_threadWakeupCallback (A := fun _ => True) hp (fun th _ => hR.leaveAny th)
        (fun th _ => hR.resume th) i).weaken (fun s hs => ⟨hs, fun _ _ _ _ => trivial⟩)
        fun _ _ hs => hs
  | arbiterWaitThread => exact kept_waitCurrentThread hp hR.arbitrate
  | stop t =>
      exact (kept_stop hp hR.toPermits t).weaken (fun s hs => ⟨hs, fun th _ => hR.die th⟩)
        fun _ _ hs => hs.1
  | exitCurrentThread =>
      exact (kept_exitCurrentThread hp hR.toPermits).weaken
        (fun s hs => ⟨hs, fun _ th _ _ => hR.die th⟩) fun _ _ hs => hs
  | terminateProcessThreads w =>
      exact kept_terminateProcessThreads hp hR.toPermits fun _ _ th _ _ _ => hR.die th
  | reschedule b k l => exact kept_reschedule hp hR.toPermits hR.load b k l
  | _ => exact kept_plain hp hR.toPermits trivial

/-- Whatever is written of a thread. -/
def AnyWrite (_ _ : Thread) : Prop := True

theorem permitsAll_anyWrite : PermitsAll AnyWrite where
  wake _ _ _ := ⟨trivial, trivial⟩
  leave _ _ := trivial
  enqueue _ _ _ := trivial
  pause _ _ := trivial
  sleep _ _ := trivial
  request _ _ := trivial
  suspend _ _ _ _ _ _ := trivial
  settle _ _ _ := trivial
  resume _ _ _ := ⟨trivial, trivial⟩
  leaveAny _ _ := trivial
  die _ := trivial
  load _ _ := trivial
  arbitrate _ _ := trivial

/-- Every call but the two that make a semaphore and release its slots. -/
theorem kept_anyCall {p : ThreadManager → Prop} (hp : KeptByWrites AnyWrite p) (hnew : KeptByNew p)
    {call : ManagerCall} (hsemaphore : ∀ o i m, call ≠ .createSemaphore o i m)
    (hrelease : ∀ o n, call ≠ .semaphoreRelease o n) : Keeps p call.program := by
  have hR := permitsAll_anyWrite
  by_cases hthread : ∃ t n i e l k w r, call = .createThread t n i e l k w r
  · obtain ⟨t, n, i, e, l, k, w, r, rfl⟩ := hthread
    refine Keeps.bind (kept_createThread hp hR.toPermits (fun _ hs => hs) fun hn => ?_)
      fun _ => Keeps.pure _
    exact kept_registerThread hp hnew hn t k w
  · by_cases hwait : ∃ o n, call = .waitSynchronization1 o n
    · obtain ⟨o, n, rfl⟩ := hwait
      exact kept_waitSynchronization1 hp hR.toPermits (fun _ _ _ => trivial) o n
    · refine kept_program hp hR hsemaphore hrelease (fun t i e l k w r n h => ?_) fun o n h => ?_
      · exact hthread ⟨t, n, i, e, l, k, w, r, h⟩
      · exact hwait ⟨o, n, h⟩

end Borked3DS.Analysis
