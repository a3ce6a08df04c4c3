import Borked3DS.Analysis.ManagerRules

/-!
# Sound threads

The nominal priorities stay in range and what a thread holds stay mutexes, through every call on the
thread manager.
-/

set_option autoImplicit false

namespace Borked3DS.Analysis

open Borked3DS.Library Borked3DS.Model Borked3DS.Interface

/-! ## Writes -/

section Writes

variable {s s' : ThreadManager} {o t : ℕ} {ob : WaitObject} {th : Thread}

/-- The mutexes stay mutexes, and the threads hold what they held. -/
theorem threadsSound_of_kept (h : ThreadsSound s)
    (hmutexes : ∀ m ob mx, s.objects m = some ob → ob.kind = .mutex mx →
      ∃ ob' mx', s'.objects m = some ob' ∧ ob'.kind = .mutex mx')
    (hthreads : ∀ u th', s'.threads u = some th' → ∃ th, s.threads u = some th ∧
      th'.nominalPriority = th.nominalPriority ∧ ∀ m ∈ th'.heldMutexes, m ∈ th.heldMutexes) :
    ThreadsSound s' := by
  intro u th' hth'
  obtain ⟨th, hth, hnominal, hheld⟩ := hthreads u th' hth'
  obtain ⟨hpriority, hmutex⟩ := h u th hth
  refine ⟨hnominal ▸ hpriority, fun m hm => ?_⟩
  obtain ⟨ob, mx, hob, hkind⟩ := hmutex m (hheld m hm)
  exact hmutexes m ob mx hob hkind

/-- An object that is written, which is no mutex. -/
theorem threadsSound_write (h : ThreadsSound s) (hob : s.objects o = some ob) {ob' : WaitObject}
    (hkind : ∀ mx, ob.kind ≠ .mutex mx) :
    ThreadsSound { s with objects := Function.update s.objects o (some ob') } := by
  refine threadsSound_of_kept h (fun m ob₁ mx hm hmx => ?_)
    fun u th' hth' => ⟨th', hth', rfl, fun _ hm => hm⟩
  have hne : m ≠ o := by
    rintro rfl
    rw [hob] at hm
    cases hm
    exact hkind mx hmx
  refine ⟨ob₁, mx, ?_, hmx⟩
  simp only [Function.update_of_ne hne]
  exact hm

/-- A mutex is written over a mutex. -/
theorem threadsSound_mutex (h : ThreadsSound s) {mx : Mutex} :
    ThreadsSound { s with
      objects := Function.update s.objects o (some { ob with kind := .mutex mx }) } := by
  refine threadsSound_of_kept h (fun m ob₁ mx₁ hm hmx => ?_)
    fun u th' hth' => ⟨th', hth', rfl, fun _ hm => hm⟩
  by_cases hne : m = o
  · subst hne
    exact ⟨_, _, Function.update_self _ _ _, rfl⟩
  · exact ⟨ob₁, mx₁, (Function.update_of_ne hne _ _).trans hm, hmx⟩

/-- A thread is written that holds mutexes only. -/
theorem threadsSound_thread (h : ThreadsSound s) (hth : s.threads t = some th) {th' : Thread}
    (hnominal : th'.nominalPriority ≤ ThreadPrioLowest)
    (hheld : ∀ m ∈ th'.heldMutexes, m ∈ th.heldMutexes ∨
      ∃ ob mx, s.objects m = some ob ∧ ob.kind = .mutex mx) :
    ThreadsSound { s with threads := Function.update s.threads t (some th') } := by
  intro u th₁ hu
  by_cases hut : u = t
  · subst hut
    simp only [Function.update_self, Option.some.injEq] at hu
    subst hu
    obtain ⟨-, hmutexes⟩ := h u th hth
    refine ⟨hnominal, fun m hm => ?_⟩
    rcases hheld m hm with hold | hmutex
    · exact hmutexes m hold
    · exact hmutex
  · simp only [Function.update_of_ne hut] at hu
    exact h u th₁ hu

/-- An object is made where there was none. -/
theorem threadsSound_create (h : ThreadsSound s)
    (hfree : ¬ ((s.threads o).isSome ∨ (s.objects o).isSome)) (kind : ObjectKind) :
    ThreadsSound { s with objects := Function.update s.objects o (some { kind := kind }) } := by
  refine threadsSound_of_kept h (fun m ob mx hm hmx => ?_) fun u th hth =>
    ⟨th, hth, rfl, fun _ hheld => hheld⟩
  have hne : m ≠ o := by
    rintro rfl
    exact hfree (Or.inr (by rw [hm]; rfl))
  exact ⟨ob, mx, (Function.update_of_ne hne _ _).trans hm, hmx⟩

/-- An object is written whose kind follows the one that it had. -/
theorem threadsSound_follows (h : ThreadsSound s) (hob : s.objects o = some ob) {ob' : WaitObject}
    (hkind : KindFollows ob.kind ob'.kind) :
    ThreadsSound { s with objects := Function.update s.objects o (some ob') } := by
  refine threadsSound_of_kept h (fun m ob₁ mx hm hmx => ?_) fun u th hth =>
    ⟨th, hth, rfl, fun _ hheld => hheld⟩
  by_cases hne : m = o
  · subst hne
    rw [hob] at hm
    cases hm
    rw [hmx] at hkind
    refine ⟨ob', ?_⟩
    cases hk : ob'.kind with
    | mutex mx' => exact ⟨mx', Function.update_self _ _ _, rfl⟩
    | _ =>
        rw [hk] at hkind
        cases hkind
  · exact ⟨ob₁, mx, (Function.update_of_ne hne _ _).trans hm, hmx⟩

end Writes

/-- No single write makes a thread unsound. -/
theorem threadsSound_kept : KeptByWrites AnyWrite ThreadsSound where
  aside s s' hthreads hobjects _ hs t th hth := by
    rw [hobjects]
    exact hs t th (hthreads ▸ hth)
  forget s id hs := hs
  thread s t th th' hs hth hwrite := by
    refine threadsSound_thread hs hth ?_ hwrite.held
    rcases hwrite.nominal with heq | hle
    · rw [heq]
      exact (hs t th hth).1
    · exact hle
  object s o ob ob' hs hob hkind := threadsSound_follows hs hob hkind
  newObject s o kind hs hfree _ := threadsSound_create hs hfree kind

theorem threadsSound_new : KeptByNew ThreadsSound := by
  intro s t th table hs _ hpriority hheld _ _ _ u th' hu
  by_cases hut : u = t
  · subst hut
    simp only [Function.update_self, Option.some.injEq] at hu
    subst hu
    refine ⟨hpriority, fun m hm => ?_⟩
    rw [hheld] at hm
    cases hm
  · simp only [Function.update_of_ne hut] at hu
    exact hs u th' hu

/-! ## Semaphores -/

theorem sound_createSemaphore (o : ℕ) (initialCount maxCount : ℤ) :
    Keeps ThreadsSound (createSemaphore o initialCount maxCount) := by
  unfold createSemaphore
  split
  next => exact Keeps.pure _
  next =>
    refine Keeps.bind ?_ fun _ => Keeps.pure _
    unfold newObject
    refine Triple.bind (q := fun s₀ s => ThreadsSound s ∧ s₀ = s)
      (Triple.get fun s hs => ⟨hs, rfl⟩) fun s₀ => ?_
    split
    next => exact Triple.throw
    next hfree =>
      rintro s u s' ⟨hs, rfl⟩ hrun
      cases hrun
      exact threadsSound_create hs hfree _

theorem sound_semaphoreRelease (o : ℕ) (releaseCount : ℤ) :
    Keeps ThreadsSound (semaphoreRelease o releaseCount) := by
  unfold semaphoreRelease
  refine Triple.bind (getObject_triple o) fun ob => ?_
  split
  next sm hkind =>
    split
    next => exact Triple.pure fun s hs => hs.1
    next =>
      refine Triple.bind (q := fun _ => ThreadsSound) ?_ fun _ => ?_
      · rintro s u s' ⟨hs, hob⟩ hrun
        obtain ⟨ob₁, s₁, hget, hrest⟩ := stateT_bind_eq_ok.mp hrun
        obtain ⟨rfl, hob₁⟩ := getObject_triple (p := fun u => u = s) o s ob₁ s₁ rfl hget
        cases hrest
        refine threadsSound_write hs hob fun mx hmx => ?_
        rw [hkind] at hmx
        cases hmx
      · have hwake := kept_wakeupAllWaitingThreads threadsSound_kept permitsAll_anyWrite.toPermits o
        exact Keeps.bind hwake fun _ => Keeps.pure _
  next => exact Triple.throw

/-! ## Every call -/

/-- Every call leaves the threads sound. -/
theorem sound_program (call : ManagerCall) : Keeps ThreadsSound call.program := by
  by_cases hcreate : ∃ o i m, call = .createSemaphore o i m
  · obtain ⟨o, i, m, rfl⟩ := hcreate
    exact Keeps.bind (sound_createSemaphore o i m) fun _ => Keeps.pure _
  · by_cases hrelease : ∃ o n, call = .semaphoreRelease o n
    · obtain ⟨o, n, rfl⟩ := hrelease
      exact Keeps.bind (sound_semaphoreRelease o n) fun _ => Keeps.pure _
    · refine kept_anyCall threadsSound_kept threadsSound_new (fun o i m h => ?_) fun o n h => ?_
      · exact hcreate ⟨o, i, m, h⟩
      · exact hrelease ⟨o, n, h⟩

/-- From a manager with sound threads, every sequence of calls leads to one. -/
theorem threadsSound_reachable {s₀ s : ThreadManager} (h₀ : ThreadsSound s₀)
    (h : Reachable ManagerCall.step s₀ s) : ThreadsSound s := by
  refine invariant_of_step (fun s call s' hs hstep => ?_) h₀ h
  obtain ⟨⟨u, t⟩, hrun, hpure⟩ := bind_eq_ok.mp hstep
  cases hpure
  exact sound_program call s u s' hs hrun

end Borked3DS.Analysis
