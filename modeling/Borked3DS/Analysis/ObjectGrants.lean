import Mathlib.Data.List.Nodup
import Borked3DS.Analysis.ThreadSoundness

/-!
# Objects that are granted together

What one acquisition does to the object and to the others, from it when all acquisitions of a list
go through, and then both paths on which a thread is granted all of its objects.
-/

set_option autoImplicit false

namespace Borked3DS.Analysis

open Borked3DS.Library Borked3DS.Model Borked3DS.Interface ThreadQueueList

/-! ## Reading the state -/

section Reading

variable {s : ThreadManager} {o t : ℕ} {ob : WaitObject} {mx : Mutex}

theorem getObject_run (h : s.objects o = some ob) : getObject o s = .ok (ob, s) := by
  refine stateT_bind_eq_ok.mpr ⟨s, s, rfl, ?_⟩
  rw [h]
  rfl

theorem getMutex_run (h : s.objects o = some ob) (hkind : ob.kind = .mutex mx) :
    getMutex o s = .ok (mx, s) := by
  refine stateT_bind_eq_ok.mpr ⟨ob, s, getObject_run h, ?_⟩
  rw [hkind]
  rfl

theorem modifyObject_run (h : s.objects o = some ob) (f : WaitObject → WaitObject) :
    modifyObject o f s =
      .ok ((), { s with objects := Function.update s.objects o (some (f ob)) }) :=
  stateT_bind_eq_ok.mpr ⟨ob, s, getObject_run h, rfl⟩

theorem getObject_eq_ok {s' : ThreadManager} (h : getObject o s = .ok (ob, s')) :
    s.objects o = some ob ∧ s' = s := by
  obtain ⟨s₁, s₂, hget, hrest⟩ := stateT_bind_eq_ok.mp h
  cases hget
  cases hob : s.objects o with
  | none =>
    rw [hob] at hrest
    cases hrest
  | some ob' =>
    rw [hob] at hrest
    cases hrest
    exact ⟨rfl, rfl⟩

/-- The object does not make the thread fail: it need not wait, or the object is a semaphore. -/
def usable (s : ThreadManager) (t o : ℕ) : ObjectKind → Prop
  | .thread => ∃ th, s.threads o = some th ∧ th.status = .dead
  | .mutex mx => ¬ (0 < mx.lockCount ∧ mx.holdingThread ≠ some t)
  | .event e => e.signaled = true
  | .timer e => e.signaled = true
  | .semaphore _ => True
  | .serverSession ss =>
      ss.clientClosed = true ∨ (ss.pendingRequestingThreads ≠ [] ∧ ss.currentlyHandling = none)
  | .serverPort pending => pending ≠ []

/-- A thread that is waited for is there. -/
def present (s : ThreadManager) (o : ℕ) : ObjectKind → Prop
  | .thread => ∃ th, s.threads o = some th
  | _ => True

/-- An object that makes nobody wait is there and usable. -/
theorem usable_of_shouldWait {s' : ThreadManager} (h : shouldWait o t s = .ok (false, s')) :
    ∃ ob, s.objects o = some ob ∧ present s o ob.kind ∧ usable s t o ob.kind := by
  obtain ⟨ob, s₁, hget, hrest⟩ := stateT_bind_eq_ok.mp h
  obtain ⟨hob, rfl⟩ := getObject_eq_ok hget
  refine ⟨ob, hob, ?_⟩
  cases hkind : ob.kind with
  | thread =>
    rw [hkind] at hrest
    obtain ⟨th, s₂, hth, hpure⟩ := stateT_bind_eq_ok.mp hrest
    obtain ⟨hth, rfl⟩ := getThread_eq_ok.mp hth
    obtain ⟨hdead, -⟩ := stateT_pure_eq_ok.mp hpure
    exact ⟨⟨th, hth⟩, th, hth, by simpa using hdead⟩
  | mutex mx =>
    rw [hkind] at hrest
    obtain ⟨hfree, -⟩ := stateT_pure_eq_ok.mp hrest
    exact ⟨trivial, of_decide_eq_false hfree⟩
  | event e | timer e =>
    rw [hkind] at hrest
    obtain ⟨hsignaled, -⟩ := stateT_pure_eq_ok.mp hrest
    exact ⟨trivial, by simpa [usable] using hsignaled⟩
  | semaphore sm => exact ⟨trivial, trivial⟩
  | serverSession ss =>
    rw [hkind] at hrest
    obtain ⟨hready, -⟩ := stateT_pure_eq_ok.mp hrest
    refine ⟨trivial, ?_⟩
    cases hclosed : ss.clientClosed with
    | true => exact Or.inl hclosed
    | false =>
      rw [hclosed] at hready
      simp only [Bool.not_false, Bool.true_and, Bool.or_eq_false_iff, List.isEmpty_eq_false_iff,
        Option.isSome_eq_false_iff, Option.isNone_iff_eq_none] at hready
      exact Or.inr hready
  | serverPort pending =>
    rw [hkind] at hrest
    obtain ⟨hpending, -⟩ := stateT_pure_eq_ok.mp hrest
    exact ⟨trivial, by simpa [usable] using hpending⟩

/-- What `shouldWait` says of an object that is there, semaphores aside. -/
theorem shouldWait_run (hob : s.objects o = some ob) (hpresent : present s o ob.kind) :
    ∃ wait, shouldWait o t s = .ok (wait, s) ∧
      ((∀ sm, ob.kind ≠ .semaphore sm) → (wait = false ↔ usable s t o ob.kind)) := by
  have hrun : ∀ {wait : Bool}, (match ob.kind with
      | .thread => do return (← getThread o).status ≠ .dead
      | .mutex mx => return 0 < mx.lockCount ∧ mx.holdingThread ≠ some t
      | .event e => return !e.signaled
      | .timer e => return !e.signaled
      | .semaphore s => return s.availableCount ≤ 0
      | .serverSession s =>
          return !s.clientClosed &&
            (s.pendingRequestingThreads.isEmpty || s.currentlyHandling.isSome)
      | .serverPort pendingSessions => return pendingSessions.isEmpty : ManagerM Bool) s =
        .ok (wait, s) → shouldWait o t s = .ok (wait, s) :=
    fun h => stateT_bind_eq_ok.mpr ⟨ob, s, getObject_run hob, h⟩
  cases hkind : ob.kind with
  | thread =>
    rw [hkind] at hpresent hrun
    obtain ⟨th, hth⟩ := hpresent
    refine ⟨decide (th.status ≠ .dead), hrun ?_, fun _ => ?_⟩
    · exact stateT_bind_eq_ok.mpr ⟨th, s, getThread_eq_ok.mpr ⟨hth, rfl⟩, rfl⟩
    · simp [usable, hth]
  | mutex mx =>
    rw [hkind] at hrun
    exact ⟨_, hrun rfl, fun _ => by simp [usable]⟩
  | event e | timer e =>
    rw [hkind] at hrun
    exact ⟨_, hrun rfl, fun _ => by simp [usable]⟩
  | semaphore sm =>
    rw [hkind] at hrun
    exact ⟨_, hrun rfl, fun hnone => absurd rfl (hnone sm)⟩
  | serverSession ss =>
    rw [hkind] at hrun
    refine ⟨_, hrun rfl, fun _ => ?_⟩
    simp only [usable]
    cases hclosed : ss.clientClosed with
    | true => simp
    | false => simp
  | serverPort pending =>
    rw [hkind] at hrun
    exact ⟨_, hrun rfl, fun _ => by simp [usable]⟩

end Reading

/-! ## One acquisition -/

section Acquire

variable {s s' : ThreadManager} {o t : ℕ} {ob : WaitObject} {th : Thread}

/-- `UpdatePriority` on a thread that is not ready. -/
theorem updatePriority_run (h : ThreadsSound s) (hth : s.threads t = some th)
    (hready : th.status ≠ .ready) :
    ∃ q priority, updatePriority t s = .ok ((), { s with
      readyQueue := q
      threads := Function.update s.threads t (some { th with currentPriority := priority }) }) := by
  obtain ⟨hnominal, hheld⟩ := h t th hth
  have hbest : ∀ (ms : List ℕ) (best : ℕ), (∀ m ∈ ms, m ∈ th.heldMutexes) →
      ∃ best' ≤ best, (ms.foldlM (fun best m => do
        let mx ← getMutex m
        pure (if mx.priority < best then mx.priority else best)) best : ManagerM ℕ) s =
          .ok (best', s) := by
    intro ms
    induction ms with
    | nil => exact fun best _ => ⟨best, Nat.le_refl best, rfl⟩
    | cons m ms ih =>
      intro best hms
      obtain ⟨ob, mx, hob, hkind⟩ := hheld m (hms m List.mem_cons_self)
      obtain ⟨best', hle, hrun⟩ := ih (if mx.priority < best then mx.priority else best)
        fun m' hm' => hms m' (List.mem_cons_of_mem m hm')
      refine ⟨best', ?_, ?_⟩
      · split at hle
        · omega
        · exact hle
      · rw [List.foldlM_cons]
        refine stateT_bind_eq_ok.mpr ⟨_, s, ?_, hrun⟩
        exact stateT_bind_eq_ok.mpr ⟨mx, s, getMutex_run hob hkind, rfl⟩
  obtain ⟨best, hle, hfold⟩ := hbest th.heldMutexes th.nominalPriority fun _ hm => hm
  have hbound : best < ThreadPrioLowest + 1 := by omega
  have hprepare : s.readyQueue.prepare best =
      .ok (if (s.readyQueue.queues best).nextNonempty = .unlinked then s.readyQueue.link best
        else s.readyQueue) := by
    unfold prepare index
    rw [if_pos hbound]
    rfl
  obtain ⟨q, hq⟩ : ∃ q, s.readyQueue.prepare best = .ok q := ⟨_, hprepare⟩
  refine ⟨q, best, ?_⟩
  have hget := (getThread_eq_ok (s := s)).mpr ⟨hth, rfl⟩
  refine stateT_bind_eq_ok.mpr ⟨th, s, hget, stateT_bind_eq_ok.mpr ⟨best, s, hfold, ?_⟩⟩
  refine stateT_bind_eq_ok.mpr ⟨th, s, hget, ?_⟩
  rw [if_neg hready]
  refine stateT_bind_eq_ok.mpr ⟨(), _, modifyQueue_eq_ok.mpr ⟨q, hq, rfl⟩, ?_⟩
  exact modifyThread_eq_ok.mpr ⟨th, hth, rfl⟩

/-- What an acquisition that goes through leaves: the other objects and all statuses are as they
were, and the object is usable again unless it is acquired once only. -/
structure Acquired (s s' : ThreadManager) (t o : ℕ) (ob : WaitObject) : Prop where
  others : ∀ o', o' ≠ o → s'.objects o' = s.objects o'
  statuses : ∀ u, (s'.threads u).map (fun th => th.status) = (s.threads u).map fun th => th.status
  sound : ThreadsSound s'
  object : ∃ ob', s'.objects o = some ob' ∧ present s' o ob'.kind ∧
    (acquiredOnce ob.kind → ¬ usable s' t o ob'.kind) ∧
    (¬ acquiredOnce ob.kind → usable s' t o ob'.kind ∧ ¬ acquiredOnce ob'.kind)

theorem Acquired.of_same (h : ThreadsSound s) (hob : s.objects o = some ob)
    (hpresent : present s o ob.kind) (husable : usable s t o ob.kind)
    (hnot : ¬ acquiredOnce ob.kind) : Acquired s s t o ob :=
  ⟨fun _ _ => rfl, fun _ => rfl, h, ob, hob, hpresent, fun honce => absurd honce hnot,
    fun _ => ⟨husable, hnot⟩⟩

/-- Another kind is written, which is no thread and no mutex, nor was it one. -/
theorem Acquired.of_write (h : ThreadsSound s) (hob : s.objects o = some ob) (kind : ObjectKind)
    (hmutex : ∀ mx, ob.kind ≠ .mutex mx)
    (hpresent : ∀ s' : ThreadManager, present s' o kind)
    (honce : acquiredOnce ob.kind → ∀ s' : ThreadManager, ¬ usable s' t o kind)
    (hagain : ¬ acquiredOnce ob.kind → ∀ s' : ThreadManager, usable s' t o kind ∧
      ¬ acquiredOnce kind) :
    Acquired s { s with objects := Function.update s.objects o (some { ob with kind := kind }) } t o
      ob :=
  ⟨fun _ ho => Function.update_of_ne ho _ _, fun _ => rfl, threadsSound_write h hob hmutex,
    { ob with kind := kind }, Function.update_self _ _ _, hpresent _, fun hspent => honce hspent _,
    fun hspent => hagain hspent _⟩

/-- `Event::Acquire` and `Timer::Acquire`. -/
theorem acquireSignal_run (h : ThreadsSound s) (hob : s.objects o = some ob) {e : Signal}
    {kind : Signal → ObjectKind} (hkind : ob.kind = kind e)
    (hcases : kind = .event ∨ kind = .timer) (husable : usable s t o ob.kind) :
    ∃ s', (if e.resetType = .oneShot then
        modifyObject o fun ob => { ob with kind := kind { e with signaled := false } }
      else pure () : ManagerM Unit) s = .ok ((), s') ∧ Acquired s s' t o ob := by
  have hfacts : acquiredOnce (kind e) = (e.resetType = .oneShot) ∧
      (∀ s' : ThreadManager, usable s' t o (kind e) = (e.signaled = true)) ∧
      (∀ (s' : ThreadManager) e', present s' o (kind e')) ∧ (∀ mx, kind e ≠ .mutex mx) ∧
      ∀ s' : ThreadManager, ¬ usable s' t o (kind { e with signaled := false }) := by
    rcases hcases with rfl | rfl
    all_goals
      refine ⟨rfl, fun _ => rfl, fun _ _ => trivial, fun mx hmx => ?_, fun _ hfalse => ?_⟩
      · cases hmx
      · cases hfalse
  obtain ⟨honce, hsignaled, hpresent, hmutex, hcleared⟩ := hfacts
  by_cases hreset : e.resetType = .oneShot
  · rw [if_pos hreset]
    refine ⟨_, modifyObject_run hob _, Acquired.of_write h hob _ (hkind ▸ hmutex)
      (fun s' => hpresent s' _) (fun _ => hcleared) fun hnot => ?_⟩
    rw [hkind, honce] at hnot
    exact absurd hreset hnot
  · rw [if_neg hreset]
    refine ⟨s, rfl, Acquired.of_same h hob (hkind ▸ hpresent s e) husable ?_⟩
    rw [hkind, honce]
    exact hreset

/-- `Mutex::Acquire`, behind its check. -/
theorem acquireMutex_run (h : ThreadsSound s) (hob : s.objects o = some ob) {mx : Mutex}
    (hkind : ob.kind = .mutex mx) (husable : usable s t o ob.kind) (hth : s.threads t = some th)
    (hready : th.status ≠ .ready) :
    ∃ s', (do
      if mx.lockCount = 0 then
        let th ← getThread t
        setMutex o { mx with priority := th.currentPriority, holdingThread := some t }
        modifyThread t fun th => { th with heldMutexes := insertAddress o th.heldMutexes }
        updatePriority t
      else pure ()
      let mx ← getMutex o
      setMutex o { mx with lockCount := mx.lockCount + 1 } : ManagerM Unit) s = .ok ((), s') ∧
      Acquired s s' t o ob := by
  rw [hkind] at husable
  by_cases hfree : mx.lockCount = 0
  · simp only [if_pos hfree]
    let ob₁ : WaitObject := { ob with
      kind := .mutex { mx with priority := th.currentPriority, holdingThread := some t } }
    let s₁ := { s with objects := Function.update s.objects o (some ob₁) }
    let th₁ := { th with heldMutexes := insertAddress o th.heldMutexes }
    let s₂ := { s₁ with threads := Function.update s.threads t (some th₁) }
    have hob₁ : s₁.objects o = some ob₁ := Function.update_self _ _ _
    have hth₁ : s₂.threads t = some th₁ := Function.update_self _ _ _
    have hsound₂ : ThreadsSound s₂ := by
      refine threadsSound_thread (threadsSound_mutex h) hth (h t th hth).1 fun m hm => ?_
      rcases (mem_insertAddress _).mp hm with rfl | hold
      · exact Or.inr ⟨ob₁, _, hob₁, rfl⟩
      · exact Or.inl hold
    obtain ⟨q, priority, hupdate⟩ := updatePriority_run hsound₂ hth₁ hready
    let s₃ := { s₂ with
      readyQueue := q
      threads := Function.update s₂.threads t (some { th₁ with currentPriority := priority }) }
    have hob₃ : s₃.objects o = some ob₁ := hob₁
    refine ⟨_, stateT_bind_eq_ok.mpr ⟨th, s, getThread_eq_ok.mpr ⟨hth, rfl⟩,
      stateT_bind_eq_ok.mpr ⟨(), s₁, modifyObject_run hob _, stateT_bind_eq_ok.mpr ⟨(), s₂,
      modifyThread_eq_ok.mpr ⟨th, hth, rfl⟩, stateT_bind_eq_ok.mpr ⟨(), s₃, hupdate,
      stateT_bind_eq_ok.mpr ⟨_, _, getMutex_run hob₃ rfl, modifyObject_run hob₃ _⟩⟩⟩⟩⟩, ?_⟩
    refine ⟨fun _ ho => ?_, fun u => ?_, ?_,
      { ob with kind := .mutex ⟨mx.lockCount + 1, th.currentPriority, some t⟩ },
      Function.update_self _ _ _, trivial, fun honce => ?_, fun _ => ⟨?_, id⟩⟩
    · exact (Function.update_of_ne ho _ _).trans (Function.update_of_ne ho _ _)
    · by_cases hut : u = t
      · subst hut
        simp only [s₃, Function.update_self]
        rw [hth]
        rfl
      · simp only [s₃, s₂, Function.update_of_ne hut]
    · let th₂ := { th₁ with currentPriority := priority }
      have hsound₃ : ThreadsSound { s₂ with
          threads := Function.update s₂.threads t (some th₂) } :=
        threadsSound_thread hsound₂ hth₁ (hsound₂ t th₁ hth₁).1 fun _ hm => Or.inl hm
      exact threadsSound_mutex (s := s₃) hsound₃
    · rw [hkind] at honce
      exact honce.elim
    · rintro ⟨-, hother⟩
      exact hother rfl
  · simp only [if_neg hfree]
    refine ⟨_, stateT_bind_eq_ok.mpr ⟨mx, s, getMutex_run hob hkind, modifyObject_run hob _⟩, ?_⟩
    refine ⟨fun _ ho => Function.update_of_ne ho _ _, fun _ => rfl, ?_,
      { ob with kind := .mutex { mx with lockCount := mx.lockCount + 1 } },
      Function.update_self _ _ _, trivial, fun honce => ?_, fun _ => ⟨?_, id⟩⟩
    · exact threadsSound_mutex h
    · rw [hkind] at honce
      exact honce.elim
    · rintro ⟨hlocked, hother⟩
      dsimp only at hlocked
      exact husable ⟨by omega, hother⟩

/-- An object that is usable is acquired. -/
theorem acquire_usable (h : ThreadsSound s) (hob : s.objects o = some ob)
    (hpresent : present s o ob.kind) (husable : usable s t o ob.kind) (hth : s.threads t = some th)
    (hready : th.status ≠ .ready) : ∃ s', acquire o t s = .ok ((), s') ∧ Acquired s s' t o ob := by
  obtain ⟨wait, hwait, hagrees⟩ := shouldWait_run (t := t) hob hpresent
  unfold acquire
  refine exists_bind_run hwait (exists_bind_run (getObject_run hob) ?_)
  have hgoes : (∀ sm, ob.kind ≠ .semaphore sm) →
      ensure (!wait) .objectUnavailable s = .ok ((), s) := by
    intro hnone
    rw [(hagrees hnone).mpr husable]
    rfl
  cases hkind : ob.kind with
  | thread =>
    rw [hkind] at hgoes
    refine ⟨s, hgoes fun _ hfalse => ?_, Acquired.of_same h hob hpresent husable ?_⟩
    · cases hfalse
    · rw [hkind]
      exact id
  | mutex mx =>
    rw [hkind] at hgoes
    have hopen := hgoes fun _ hfalse => by cases hfalse
    obtain ⟨s', hrun, hacquired⟩ := acquireMutex_run h hob hkind husable hth hready
    exact ⟨s', stateT_bind_eq_ok.mpr ⟨(), s, hopen, hrun⟩, hacquired⟩
  | event e =>
    rw [hkind] at hgoes
    have hopen := hgoes fun _ hfalse => by cases hfalse
    obtain ⟨s', hrun, hacquired⟩ := acquireSignal_run h hob hkind (Or.inl rfl) husable
    exact ⟨s', stateT_bind_eq_ok.mpr ⟨(), s, hopen, hrun⟩, hacquired⟩
  | timer e =>
    rw [hkind] at hgoes
    have hopen := hgoes fun _ hfalse => by cases hfalse
    obtain ⟨s', hrun, hacquired⟩ := acquireSignal_run h hob hkind (Or.inr rfl) husable
    exact ⟨s', stateT_bind_eq_ok.mpr ⟨(), s, hopen, hrun⟩, hacquired⟩
  | semaphore sm =>
    by_cases hslots : sm.availableCount ≤ 0
    · simp only [if_pos hslots]
      refine ⟨s, rfl, Acquired.of_same h hob hpresent husable ?_⟩
      rw [hkind]
      exact id
    · simp only [if_neg hslots]
      refine ⟨_, modifyObject_run hob _, Acquired.of_write h hob _ (fun mx hmx => ?_)
        (fun _ => trivial) (fun honce => ?_) fun _ _ => ⟨trivial, id⟩⟩
      · rw [hkind] at hmx
        cases hmx
      · rw [hkind] at honce
        exact honce.elim
  | serverSession ss =>
    rw [hkind] at hgoes husable hpresent
    have hopen := hgoes fun _ hfalse => by cases hfalse
    by_cases hclosed : ss.clientClosed = true
    · refine ⟨s, stateT_bind_eq_ok.mpr ⟨(), s, hopen, ?_⟩, Acquired.of_same h hob ?_ ?_ ?_⟩
      · rw [if_pos hclosed]
        rfl
      · rw [hkind]
        trivial
      · rw [hkind]
        exact husable
      · rw [hkind]
        simp [acquiredOnce, hclosed]
    · obtain ⟨hpending, hnone⟩ := husable.resolve_left hclosed
      have hlast := List.getLast?_eq_getLast_of_ne_nil hpending
      let taken : ServerSession := { ss with
        currentlyHandling := some (ss.pendingRequestingThreads.getLast hpending)
        pendingRequestingThreads := ss.pendingRequestingThreads.dropLast }
      refine ⟨_, stateT_bind_eq_ok.mpr ⟨(), s, hopen, ?_⟩,
        Acquired.of_write h hob (.serverSession taken) (fun mx hmx => ?_) (fun _ => ?_)
        (fun honce s' hfalse => ?_) fun hnot => ?_⟩
      · rw [if_neg hclosed, hlast]
        exact modifyObject_run hob _
      · rw [hkind] at hmx
        cases hmx
      · trivial
      · rcases hfalse with hfalse | ⟨-, hfalse⟩
        · exact hclosed hfalse
        · cases hfalse
      · rw [hkind] at hnot
        have hopened : ss.clientClosed = false := by simpa using hclosed
        exact absurd hopened hnot
  | serverPort pending =>
    rw [hkind] at hgoes
    refine ⟨s, hgoes fun _ hfalse => ?_, Acquired.of_same h hob hpresent husable ?_⟩
    · cases hfalse
    · rw [hkind]
      exact id

/-- An object that is not usable is not acquired. -/
theorem acquire_unusable (hob : s.objects o = some ob) (hpresent : present s o ob.kind)
    (hnot : ¬ usable s t o ob.kind) : HitsUnavailable (acquire o t s) := by
  obtain ⟨wait, hwait, hagrees⟩ := shouldWait_run (t := t) hob hpresent
  have hsemaphore : ∀ sm, ob.kind ≠ .semaphore sm := by
    intro sm hsm
    rw [hsm] at hnot
    exact hnot trivial
  obtain rfl : wait = true := by
    by_contra hfalse
    exact hnot ((hagrees hsemaphore).mp (by simpa using hfalse))
  have hrefused : ensure (!true) .objectUnavailable s =
      .error (.assertion .objectUnavailable) := rfl
  refine stateT_bind_eq_error.mpr (Or.inr ⟨true, s, hwait, stateT_bind_eq_error.mpr
    (Or.inr ⟨ob, s, getObject_run hob, ?_⟩)⟩)
  cases hkind : ob.kind with
  | thread | serverPort pending => exact hrefused
  | mutex mx | event e | timer e | serverSession ss =>
    exact stateT_bind_eq_error.mpr (Or.inl hrefused)
  | semaphore sm => exact absurd hkind (hsemaphore sm)

end Acquire

/-! ## Acquiring a list -/

section List

variable {s s' : ThreadManager} {o t : ℕ} {ob : WaitObject} {th : Thread} {objects : List ℕ}

/-- The objects of a list are there. -/
def AllPresent (s : ThreadManager) (objects : List ℕ) : Prop :=
  ∀ o ∈ objects, ∃ ob, s.objects o = some ob ∧ present s o ob.kind

/-- The objects of a list can be acquired as often as the list names them. -/
def HasRoom (s : ThreadManager) (t : ℕ) (objects : List ℕ) : Prop :=
  ∀ o ∈ objects, ∀ ob, s.objects o = some ob →
    usable s t o ob.kind ∧ (acquiredOnce ob.kind → objects.count o ≤ 1)

/-- The statuses of the threads are as they were. -/
def SameStatuses (s s' : ThreadManager) : Prop :=
  ∀ u, (s'.threads u).map (fun th => th.status) = (s.threads u).map fun th => th.status

theorem SameStatuses.thread (h : SameStatuses s s') {u : ℕ} (hth : s.threads u = some th) :
    ∃ th', s'.threads u = some th' ∧ th'.status = th.status := by
  have hu := h u
  rw [hth] at hu
  exact Option.map_eq_some_iff.mp hu

theorem SameStatuses.symm (h : SameStatuses s s') : SameStatuses s' s :=
  fun u => (h u).symm

theorem SameStatuses.present (h : SameStatuses s s') {kind : ObjectKind}
    (hpresent : present s o kind) : present s' o kind := by
  cases kind with
  | thread =>
    obtain ⟨th, hth⟩ := hpresent
    obtain ⟨th', hth', -⟩ := h.thread hth
    exact ⟨th', hth'⟩
  | _ => trivial

theorem SameStatuses.usable (h : SameStatuses s s') {kind : ObjectKind}
    (husable : usable s t o kind) : usable s' t o kind := by
  cases kind with
  | thread =>
    obtain ⟨th, hth, hdead⟩ := husable
    obtain ⟨th', hth', hstatus⟩ := h.thread hth
    exact ⟨th', hth', hstatus.trans hdead⟩
  | _ => exact husable

/-- The objects behind an acquired one are there as before. -/
theorem AllPresent.tail (h : AllPresent s (o :: objects)) (hacquired : Acquired s s' t o ob) :
    AllPresent s' objects := by
  intro o' ho'
  by_cases heq : o' = o
  · subst heq
    obtain ⟨ob', hob', hpresent, -, -⟩ := hacquired.object
    exact ⟨ob', hob', hpresent⟩
  · obtain ⟨ob', hob', hpresent⟩ := h o' (List.mem_cons_of_mem o ho')
    exact ⟨ob', (hacquired.others o' heq).trans hob',
      SameStatuses.present hacquired.statuses hpresent⟩

/-- There is room for a list when there is room for its rest once the first object is acquired. -/
theorem room_cons (hob : s.objects o = some ob) (husable : usable s t o ob.kind)
    (hacquired : Acquired s s' t o ob) : HasRoom s t (o :: objects) ↔ HasRoom s' t objects := by
  have hsame : SameStatuses s s' := hacquired.statuses
  obtain ⟨ob', hob', -, hspent, hagain⟩ := hacquired.object
  constructor
  · intro h o' ho' ob₁ hob₁
    by_cases heq : o' = o
    · subst heq
      have hnot : ¬ acquiredOnce ob.kind := by
        intro honce
        have hcount := (h o' List.mem_cons_self ob hob).2 honce
        have hrest := List.count_pos_iff.mpr ho'
        rw [List.count_cons_self] at hcount
        omega
      rw [hob'] at hob₁
      cases hob₁
      exact ⟨(hagain hnot).1, fun honce => absurd honce (hagain hnot).2⟩
    · rw [hacquired.others o' heq] at hob₁
      obtain ⟨husable₁, honce₁⟩ := h o' (List.mem_cons_of_mem o ho') ob₁ hob₁
      refine ⟨hsame.usable husable₁, fun honce => ?_⟩
      have hcount := honce₁ honce
      rwa [List.count_cons_of_ne (Ne.symm heq)] at hcount
  · intro h o' ho' ob₁ hob₁
    by_cases heq : o' = o
    · subst heq
      rw [hob] at hob₁
      cases hob₁
      refine ⟨husable, fun honce => ?_⟩
      -- listed once more, it would have to be usable after it was spent
      have hlast : o' ∉ objects := fun hmem => hspent honce (h o' hmem ob' hob').1
      have hrest := List.count_eq_zero_of_not_mem hlast
      rw [List.count_cons_self]
      omega
    · have hmem : o' ∈ objects := (List.mem_cons.mp ho').resolve_left heq
      obtain ⟨husable₁, honce₁⟩ := h o' hmem ob₁ ((hacquired.others o' heq).trans hob₁)
      refine ⟨hsame.symm.usable husable₁, fun honce => ?_⟩
      rw [List.count_cons_of_ne (Ne.symm heq)]
      exact honce₁ honce

/-- The objects of a list are acquired one by one if there is room for all, and else one of them is
found unavailable. -/
theorem acquireAll (hsound : ThreadsSound s) (hpresent : AllPresent s objects)
    (hth : s.threads t = some th) (hready : th.status ≠ .ready) :
    (HasRoom s t objects ∧ ∃ s', objects.forM (fun o => acquire o t) s = .ok ((), s')) ∨
      ¬ HasRoom s t objects ∧ HitsUnavailable (objects.forM (fun o => acquire o t) s) := by
  induction objects generalizing s th with
  | nil =>
    refine Or.inl ⟨fun o ho => ?_, s, rfl⟩
    cases ho
  | cons o objects ih =>
    obtain ⟨ob, hob, hthere⟩ := hpresent o List.mem_cons_self
    have hcons : (o :: objects).forM (fun o => acquire o t) =
      (acquire o t >>= fun _ => objects.forM fun o => acquire o t) := rfl
    rw [hcons]
    by_cases husable : usable s t o ob.kind
    · obtain ⟨s₁, hrun, hacquired⟩ := acquire_usable hsound hob hthere husable hth hready
      obtain ⟨th₁, hth₁, hstatus⟩ := SameStatuses.thread hacquired.statuses hth
      rw [room_cons hob husable hacquired]
      rcases ih hacquired.sound (hpresent.tail hacquired) hth₁ (hstatus ▸ hready) with
        ⟨hroom, s', hrest⟩ | ⟨hroom, hhits⟩
      · exact Or.inl ⟨hroom, s', stateT_bind_eq_ok.mpr ⟨(), s₁, hrun, hrest⟩⟩
      · exact Or.inr ⟨hroom, stateT_bind_eq_error.mpr (Or.inr ⟨(), s₁, hrun, hhits⟩)⟩
    · refine Or.inr ⟨fun hroom => husable (hroom o List.mem_cons_self ob hob).1, ?_⟩
      exact stateT_bind_eq_error.mpr (Or.inl (acquire_unusable hob hthere husable))

/-- Objects that are all available are acquired without a fault exactly when none of those that are
acquired once is listed twice. -/
theorem acquireAll_available (hsound : ThreadsSound s) (havailable : AllAvailable s t objects)
    (hth : s.threads t = some th) (hready : th.status ≠ .ready) :
    (NoneTwice s objects ∧ ∃ s', objects.forM (fun o => acquire o t) s = .ok ((), s')) ∨
      ¬ NoneTwice s objects ∧ HitsUnavailable (objects.forM (fun o => acquire o t) s) := by
  have hpresent : AllPresent s objects := by
    intro o ho
    obtain ⟨ob, hob, hthere, -⟩ := usable_of_shouldWait (havailable o ho)
    exact ⟨ob, hob, hthere⟩
  have hroom : HasRoom s t objects ↔ NoneTwice s objects := by
    constructor
    · exact fun h o ho ob hob honce => (h o ho ob hob).2 honce
    · intro h o ho ob hob
      obtain ⟨ob', hob', -, husable⟩ := usable_of_shouldWait (havailable o ho)
      rw [hob] at hob'
      cases hob'
      exact ⟨husable, h o ho ob hob⟩
  rw [← hroom]
  exact acquireAll hsound hpresent hth hready

end List

/-! ## Programs that acquire nothing -/

section Harmless

/-- The program finds no object unavailable. -/
def Harmless {α : Type} (m : ManagerM α) : Prop :=
  NeverFaults (· = Fault.assertion .objectUnavailable) m

theorem harmless_undefined {α : Type} : Harmless (undefined : ManagerM α) :=
  NeverFaults.throw (by decide)

theorem harmless_ensure (c : Bool) {site : AssertSite} (hsite : site ≠ .objectUnavailable) :
    Harmless (ensure c site) := by
  refine NeverFaults.lift fun e he hassert => ?_
  subst he
  cases c with
  | true => cases hassert
  | false => exact hsite (by simpa [assert] using hassert)

theorem harmless_getThread (t : ℕ) : Harmless (getThread t) := by
  unfold getThread
  refine NeverFaults.bind NeverFaults.get fun s => ?_
  split
  next => exact NeverFaults.pure _
  next => exact harmless_undefined

theorem harmless_getObject (o : ℕ) : Harmless (getObject o) := by
  unfold getObject
  refine NeverFaults.bind NeverFaults.get fun s => ?_
  split
  next => exact NeverFaults.pure _
  next => exact harmless_undefined

theorem harmless_getMutex (m : ℕ) : Harmless (getMutex m) := by
  unfold getMutex
  refine NeverFaults.bind (harmless_getObject m) fun ob => ?_
  split
  next => exact NeverFaults.pure _
  next => exact harmless_undefined

theorem harmless_modifyThread (t : ℕ) (f : Thread → Thread) : Harmless (modifyThread t f) :=
  NeverFaults.bind (harmless_getThread t) fun _ => NeverFaults.modify _

theorem harmless_modifyObject (o : ℕ) (f : WaitObject → WaitObject) : Harmless (modifyObject o f) :=
  NeverFaults.bind (harmless_getObject o) fun _ => NeverFaults.modify _

/-- The calls on the ready queue only fail by an index out of range. -/
theorem harmless_modifyQueue {f : ReadyQueue → Exec ReadyQueue}
    (hf : ∀ q e, f q = .error e → e = .undefined) : Harmless (modifyQueue f) := by
  unfold modifyQueue
  refine NeverFaults.bind NeverFaults.get fun s => ?_
  refine NeverFaults.bind (NeverFaults.lift fun e he hrun => ?_) fun q => NeverFaults.modify _
  rw [hf _ e hrun] at he
  cases he

theorem index_eq_error {i : ℕ} {e : Fault}
    (h : index (N := ThreadPrioLowest + 1) i = .error e) : e = .undefined := by
  unfold index at h
  split at h
  next => cases h
  next =>
    cases h
    rfl

theorem pushBack_eq_error {q : ReadyQueue} {priority t : ℕ} {e : Fault}
    (h : q.pushBack priority t = .error e) : e = .undefined := by
  rcases bind_eq_error.mp h with hindex | ⟨_, -, hpure⟩
  · exact index_eq_error hindex
  · cases hpure

theorem prepare_eq_error {q : ReadyQueue} {priority : ℕ} {e : Fault}
    (h : q.prepare priority = .error e) : e = .undefined := by
  rcases bind_eq_error.mp h with hindex | ⟨_, -, hpure⟩
  · exact index_eq_error hindex
  · cases hpure

theorem move_eq_error {q : ReadyQueue} {t old new : ℕ} {e : Fault}
    (h : q.move t old new = .error e) : e = .undefined := by
  rcases bind_eq_error.mp h with hremove | ⟨_, -, hrest⟩
  · rcases bind_eq_error.mp hremove with hindex | ⟨_, -, hpure⟩
    · exact index_eq_error hindex
    · cases hpure
  · rcases bind_eq_error.mp hrest with hprepare | ⟨_, -, hpush⟩
    · exact prepare_eq_error hprepare
    · exact pushBack_eq_error hpush

theorem harmless_updatePriority (t : ℕ) : Harmless (updatePriority t) := by
  unfold updatePriority boostPriority
  refine NeverFaults.bind (harmless_getThread t) fun th => ?_
  refine NeverFaults.bind (NeverFaults.foldlM _ _ fun best m => ?_) fun best => ?_
  · exact NeverFaults.bind (harmless_getMutex m) fun mx => NeverFaults.pure _
  · refine NeverFaults.bind (harmless_getThread t) fun th => ?_
    split
    next =>
      refine NeverFaults.bind (harmless_modifyQueue fun q e h => move_eq_error h) fun _ => ?_
      exact harmless_modifyThread t _
    next =>
      refine NeverFaults.bind (harmless_modifyQueue fun q e h => prepare_eq_error h) fun _ => ?_
      exact harmless_modifyThread t _

theorem harmless_mutexUpdatePriority (m : ℕ) : Harmless (mutexUpdatePriority m) := by
  unfold mutexUpdatePriority
  refine NeverFaults.bind (harmless_getMutex m) fun mx => ?_
  split
  next => exact NeverFaults.pure _
  next holder _ =>
    refine NeverFaults.bind (harmless_getObject m) fun ob => ?_
    refine NeverFaults.bind (NeverFaults.foldlM _ _ fun best w => ?_) fun best => ?_
    · exact NeverFaults.bind (harmless_getThread w) fun waiter => NeverFaults.pure _
    · split
      next =>
        exact NeverFaults.bind (harmless_modifyObject _ _) fun _ => harmless_updatePriority holder
      next => exact NeverFaults.pure _

theorem harmless_addWaitingThread (o t : ℕ) : Harmless (addWaitingThread o t) := by
  unfold addWaitingThread
  refine NeverFaults.bind (harmless_modifyObject o _) fun _ => ?_
  refine NeverFaults.bind (harmless_getObject o) fun ob => ?_
  split
  next =>
    exact NeverFaults.bind (harmless_modifyThread t _) fun _ => harmless_mutexUpdatePriority o
  next => exact NeverFaults.pure _

theorem harmless_removeWaitingThread (o t : ℕ) : Harmless (removeWaitingThread o t) := by
  unfold removeWaitingThread
  refine NeverFaults.bind (harmless_modifyObject o _) fun _ => ?_
  refine NeverFaults.bind (harmless_getObject o) fun ob => ?_
  split
  next =>
    exact NeverFaults.bind (harmless_modifyThread t _) fun _ => harmless_mutexUpdatePriority o
  next => exact NeverFaults.pure _

theorem harmless_shouldWait (o t : ℕ) : Harmless (shouldWait o t) := by
  unfold shouldWait
  refine NeverFaults.bind (harmless_getObject o) fun ob => ?_
  split
  next => exact NeverFaults.bind (harmless_getThread o) fun th => NeverFaults.pure _
  all_goals exact NeverFaults.pure _

theorem harmless_suspendOn (t : ℕ) (objects : List ℕ) (status : ThreadStatus) (nanoSeconds : ℤ) :
    Harmless (suspendOn t objects status nanoSeconds) := by
  unfold suspendOn
  split
  next => exact NeverFaults.pure _
  next =>
    refine NeverFaults.bind (harmless_modifyThread t _) fun _ => ?_
    refine NeverFaults.bind (NeverFaults.forM _ fun o => harmless_addWaitingThread o t) fun _ => ?_
    exact harmless_modifyThread t _

theorem harmless_resumeFromWait (t : ℕ) : Harmless (resumeFromWait t) := by
  unfold resumeFromWait enqueueReady
  refine NeverFaults.bind (harmless_getThread t) fun th => ?_
  refine NeverFaults.bind (harmless_ensure _ (by decide)) fun _ => ?_
  split
  next => exact harmless_ensure _ (by decide)
  next => exact NeverFaults.pure _
  next => exact NeverFaults.pure _
  next =>
    refine NeverFaults.bind (harmless_modifyThread t _) fun _ => ?_
    refine NeverFaults.bind (harmless_getThread t) fun th => ?_
    refine NeverFaults.bind (harmless_modifyQueue fun q e h => pushBack_eq_error h) fun _ => ?_
    exact harmless_modifyThread t _

theorem harmless_leaveWaitObjects (t : ℕ) : Harmless (leaveWaitObjects t) := by
  unfold leaveWaitObjects
  refine NeverFaults.bind (harmless_getThread t) fun th => ?_
  refine NeverFaults.bind (NeverFaults.forM _ fun o => harmless_removeWaitingThread o t) fun _ => ?_
  exact harmless_modifyThread t _

theorem harmless_getHighestPriorityReadyThread (o : ℕ) :
    Harmless (getHighestPriorityReadyThread o) := by
  unfold getHighestPriorityReadyThread readyToRun
  refine NeverFaults.bind (harmless_getObject o) fun ob => ?_
  refine NeverFaults.bind (NeverFaults.foldlM _ _ fun best t => ?_) fun best => NeverFaults.pure _
  refine NeverFaults.bind (harmless_getThread t) fun th => ?_
  refine NeverFaults.bind (harmless_ensure _ (by decide)) fun _ => ?_
  split
  next => exact NeverFaults.pure _
  next =>
    refine NeverFaults.bind (harmless_shouldWait o t) fun wait => ?_
    split
    next => exact NeverFaults.pure _
    next =>
      refine NeverFaults.bind ?_ fun ready => ?_
      · split
        next =>
          exact NeverFaults.bind (NeverFaults.anyM _ fun o => harmless_shouldWait o t) fun wait =>
            NeverFaults.pure _
        next => exact NeverFaults.pure _
      · split
        next => exact NeverFaults.pure _
        next => exact NeverFaults.pure _

end Harmless

/-! ## The immediate path -/

section Immediate

variable {s : ThreadManager} {t : ℕ} {th : Thread} {objects : List ℕ}

/-- Looking at all objects finds no reason to wait exactly when all are available. -/
theorem anyM_shouldWait {s' : ThreadManager} :
    objects.anyM (fun o => shouldWait o t) s = .ok (false, s') ↔
      AllAvailable s t objects ∧ s' = s := by
  induction objects with
  | nil =>
    constructor
    · intro h
      cases h
      refine ⟨fun o ho => ?_, rfl⟩
      cases ho
    · rintro ⟨-, rfl⟩
      rfl
  | cons o objects ih =>
    have hcons : (o :: objects).anyM (fun o => shouldWait o t) = (do
        match ← shouldWait o t with
        | true => pure true
        | false => objects.anyM fun o => shouldWait o t) := rfl
    rw [hcons, stateT_bind_eq_ok]
    constructor
    · rintro ⟨wait, s₁, hwait, hrest⟩
      obtain rfl : s₁ = s := keeps_shouldWait (p := (· = s)) o t s wait s₁ rfl hwait
      cases wait with
      | true => cases hrest
      | false =>
        obtain ⟨havailable, rfl⟩ := ih.mp hrest
        refine ⟨fun o' ho' => ?_, rfl⟩
        rcases List.mem_cons.mp ho' with rfl | ho'
        · exact hwait
        · exact havailable o' ho'
    · rintro ⟨havailable, rfl⟩
      refine ⟨false, s', havailable o List.mem_cons_self, ih.mpr ⟨?_, rfl⟩⟩
      exact fun o' ho' => havailable o' (List.mem_cons_of_mem o ho')

/-- The running thread is the caller. -/
theorem caller_run (hcurrent : s.currentThread = some t) (hth : s.threads t = some th)
    (hrunning : th.status = .running) : caller s = .ok (t, s) := by
  have hrun : runningThread s = .ok (some (t, th), s) := by
    refine stateT_bind_eq_ok.mpr ⟨s, s, rfl, ?_⟩
    rw [hcurrent]
    refine stateT_bind_eq_ok.mpr ⟨th, s, getThread_eq_ok.mpr ⟨hth, rfl⟩, ?_⟩
    rw [if_pos hrunning]
    rfl
  exact stateT_bind_eq_ok.mpr ⟨some (t, th), s, hrun, rfl⟩

/-- The immediate path goes right exactly when available objects that are acquired once are listed
once, and semaphores no more often than they have slots. -/
theorem waitAllRight_iff (hsound : ThreadsSound s) (hcurrent : s.currentThread = some t)
    (hth : s.threads t = some th) (hrunning : th.status = .running) (nanoSeconds : ℤ) :
    WaitAllRight s t objects nanoSeconds ↔
      (AllAvailable s t objects → NoneTwice s objects ∧ SlotsForAll s objects) := by
  have hcaller := caller_run hcurrent hth hrunning
  have hready : th.status ≠ .ready := by
    rw [hrunning]
    decide
  by_cases havailable : AllAvailable s t objects
  · have hrun : waitSynchronizationN objects true nanoSeconds s =
        objects.forM (fun o => acquire o t) s := by
      have hlook := anyM_shouldWait.mpr ⟨havailable, rfl⟩
      exact (stateT_bind_of_ok hcaller).trans (stateT_bind_of_ok hlook)
    unfold WaitAllRight
    rw [hrun]
    rcases acquireAll_available hsound havailable hth hready with ⟨hnone, s', hok⟩ | ⟨hnone, hhits⟩
    · rw [hok]
      constructor
      · exact fun h hall => ⟨hnone, h.2 hall⟩
      · exact fun h => ⟨fun hfalse => (by cases hfalse), fun hall => (h hall).2⟩
    · constructor
      · exact fun h => absurd hhits h.1
      · exact fun h => absurd (h havailable).1 hnone
  · refine ⟨fun _ hall => absurd hall havailable, fun _ => ⟨fun hhits => ?_, fun hall =>
      absurd hall havailable⟩⟩
    rcases stateT_bind_eq_error.mp hhits with hcall | ⟨t', s', hcall, hrest⟩
    · rw [hcaller] at hcall
      cases hcall
    · rw [hcaller] at hcall
      cases hcall
      rcases stateT_bind_eq_error.mp hrest with hlook | ⟨wait, s', hlook, hrest⟩
      · exact NeverFaults.anyM _ (fun o => harmless_shouldWait o t) s _ rfl hlook
      · cases wait with
        | true => exact harmless_suspendOn t objects _ nanoSeconds s' _ rfl hrest
        | false => exact havailable (anyM_shouldWait.mp hlook).1

end Immediate

/-! ## The later path -/

section Later

variable {s s' : ThreadManager} {o t n : ℕ} {th : Thread} {objects : List ℕ}

/-- What `GetHighestPriorityReadyThread` has seen of the thread that it selects. -/
def Selected (o : ℕ) (s : ThreadManager) (t : ℕ) : Prop :=
  ∃ th, s.threads t = some th ∧ th.status ≠ .ready ∧ shouldWait o t s = .ok (false, s) ∧
    (th.status = .waitSynchAll → AllAvailable s t th.waitObjects)

/-- One waiting thread is looked at: if it is taken, it was found ready. -/
theorem selected_of_fold {best : Option ℕ × ℕ} {r : Option ℕ × ℕ}
    (hbest : ∀ t, best.1 = some t → Selected o s t)
    (hrun : (do
      let th ← getThread t
      ensure (th.status = .waitSynchAny ∨ th.status = .waitSynchAll ∨ th.status = .waitHleEvent)
        .inconsistentWaiter
      if best.2 ≤ th.currentPriority then pure best
      else if ← shouldWait o t then pure best
      else if ← readyToRun t th then pure (some t, th.currentPriority)
      else pure best : ManagerM (Option ℕ × ℕ)) s = .ok (r, s')) :
    s' = s ∧ ∀ t, r.1 = some t → Selected o s t := by
  obtain ⟨th, s₁, hget, hcheck⟩ := stateT_bind_eq_ok.mp hrun
  obtain ⟨hth, rfl⟩ := getThread_eq_ok.mp hget
  obtain ⟨u, s₂, hensure, hrest⟩ := stateT_bind_eq_ok.mp hcheck
  obtain ⟨rfl, hstatus⟩ := ensure_triple (p := (· = s₁)) _ _ s₁ u s₂ rfl hensure
  have hready : th.status ≠ .ready := by
    intro hfalse
    rw [hfalse] at hstatus
    revert hstatus
    decide
  split at hrest
  next =>
    cases hrest
    exact ⟨rfl, hbest⟩
  next =>
    obtain ⟨wait, s₃, hwait, hready'⟩ := stateT_bind_eq_ok.mp hrest
    obtain rfl : s₃ = s₂ := keeps_shouldWait (p := (· = s₂)) o t s₂ wait s₃ rfl hwait
    cases wait with
    | true =>
      cases hready'
      exact ⟨rfl, hbest⟩
    | false =>
      obtain ⟨ready, s₄, hlook, hend⟩ := stateT_bind_eq_ok.mp hready'
      obtain rfl : s₄ = s₃ := keeps_readyToRun (p := (· = s₃)) t th s₃ ready s₄ rfl hlook
      cases ready with
      | false =>
        cases hend
        exact ⟨rfl, hbest⟩
      | true =>
        cases hend
        refine ⟨rfl, fun t' ht' => ?_⟩
        cases ht'
        refine ⟨th, hth, hready, hwait, fun hall => ?_⟩
        unfold readyToRun at hlook
        rw [if_pos hall] at hlook
        obtain ⟨any, s₅, hany, hpure⟩ := stateT_bind_eq_ok.mp hlook
        cases any with
        | true => cases hpure
        | false => exact (anyM_shouldWait.mp hany).1

/-- The thread that is selected was found ready. -/
theorem selected_of_highest (h : getHighestPriorityReadyThread o s = .ok (some t, s')) :
    Selected o s t := by
  obtain ⟨ob, s₁, hget, hrest⟩ := stateT_bind_eq_ok.mp h
  obtain ⟨hob, rfl⟩ := getObject_eq_ok hget
  obtain ⟨best, s₂, hfold, hpure⟩ := stateT_bind_eq_ok.mp hrest
  suffices hall : ∀ (waiting : List ℕ) (best₀ : Option ℕ × ℕ),
      (∀ t, best₀.1 = some t → Selected o s₁ t) →
      (waiting.foldlM (fun (best : Option ℕ × ℕ) t => do
        let th ← getThread t
        ensure (th.status = .waitSynchAny ∨ th.status = .waitSynchAll ∨
          th.status = .waitHleEvent) .inconsistentWaiter
        if best.2 ≤ th.currentPriority then pure best
        else if ← shouldWait o t then pure best
        else if ← readyToRun t th then pure (some t, th.currentPriority)
        else pure best) best₀ : ManagerM (Option ℕ × ℕ)) s₁ = .ok (best, s₂) →
      ∀ t, best.1 = some t → Selected o s₁ t by
    obtain ⟨hbest, -⟩ := stateT_pure_eq_ok.mp hpure
    refine hall ob.waitingThreads _ (fun t ht => ?_) hfold t hbest
    cases ht
  intro waiting
  induction waiting with
  | nil =>
    intro best₀ hbest₀ hrun
    cases hrun
    exact hbest₀
  | cons w waiting ih =>
    intro best₀ hbest₀ hrun
    rw [List.foldlM_cons] at hrun
    obtain ⟨best₁, s₃, hlook, hwaiting⟩ := stateT_bind_eq_ok.mp hrun
    obtain ⟨rfl, hbest₁⟩ := selected_of_fold hbest₀ hlook
    exact ih best₁ hbest₁ hwaiting

theorem sound_wakeupReaches (hsound : ThreadsSound s) (h : WakeupReaches o s n s') :
    ThreadsSound s' := by
  induction h with
  | start => exact hsound
  | round _ hselected hwake ih =>
    obtain ⟨-, hnext⟩ := getHighestPriorityReadyThread_triple o _ _ _ ih hselected
    obtain ⟨status, hst, hstatus⟩ := hnext _ rfl
    exact kept_wakeupWaitingThread threadsSound_kept permitsAll_anyWrite.toPermits hst o _ _ _ _
      ⟨ih, hstatus⟩ hwake

/-- The rounds that are done leave the loop with the rest of them. -/
theorem wakeupLoop_reaches (h : WakeupReaches o s n s') (fuel : ℕ) :
    wakeupLoop o (n + fuel) s = wakeupLoop o fuel s' := by
  induction h generalizing fuel with
  | start => rw [Nat.zero_add]
  | round _ hselected hwake ih =>
    rw [Nat.add_assoc, Nat.add_comm 1 fuel, ih (fuel + 1)]
    exact (stateT_bind_of_ok hselected).trans (stateT_bind_of_ok hwake)

/-- A loop that finds an object unavailable does so for a thread that it wakes up. -/
theorem wakeupLoop_hits {fuel : ℕ} (hreaches : WakeupReaches o s n s')
    (hhits : HitsUnavailable (wakeupLoop o fuel s')) :
    ∃ m s'' t, m < n + fuel ∧ WakeupReaches o s m s'' ∧
      getHighestPriorityReadyThread o s'' = .ok (some t, s'') ∧
      HitsUnavailable (wakeupWaitingThread o t s'') := by
  induction fuel generalizing n s' with
  | zero => cases hhits
  | succ fuel ih =>
    rcases stateT_bind_eq_error.mp hhits with hlook | ⟨next, s₁, hlook, hrest⟩
    · exact absurd hlook (harmless_getHighestPriorityReadyThread o s' _ rfl)
    · obtain rfl : s₁ = s' :=
        keeps_getHighestPriorityReadyThread (p := (· = s')) o s' next s₁ rfl hlook
      cases next with
      | none => cases hrest
      | some t =>
        rcases stateT_bind_eq_error.mp hrest with hwake | ⟨_, s₂, hwake, hrest⟩
        · exact ⟨n, s₁, t, by omega, hreaches, hlook, hwake⟩
        · obtain ⟨m, s₃, t', hm, hfound⟩ := ih (hreaches.round hlook hwake) hrest
          exact ⟨m, s₃, t', by omega, hfound⟩

/-- What a thread does once its objects are acquired finds none unavailable. -/
theorem wakeup_rest_harmless (t : ℕ) : Harmless (do
    leaveWaitObjects t
    resumeFromWait t) :=
  NeverFaults.bind (harmless_leaveWaitObjects t) fun _ => harmless_resumeFromWait t

/-- Waking up a thread that was found ready finds an object unavailable only if the thread waits for
all of its objects and acquires one of them twice. -/
theorem wakeupWaitingThread_hits (hsound : ThreadsSound s) (hselected : Selected o s t) :
    HitsUnavailable (wakeupWaitingThread o t s) ↔
      ∃ th, s.threads t = some th ∧ th.status = .waitSynchAll ∧ ¬ NoneTwice s th.waitObjects := by
  obtain ⟨th, hth, hready, hwait, hall⟩ := hselected
  have hget := (getThread_eq_ok (s := s)).mpr ⟨hth, rfl⟩
  unfold HitsUnavailable wakeupWaitingThread
  rw [stateT_bind_of_ok hget]
  by_cases hstatus : th.status = .waitSynchAll
  · simp only [hstatus, ne_eq, not_true_eq_false, if_false]
    rcases acquireAll_available hsound (hall hstatus) hth hready with ⟨hnone, s', hok⟩ |
      ⟨hnone, hhits⟩
    · rw [stateT_bind_of_ok hok]
      constructor
      · exact fun h => absurd h (wakeup_rest_harmless t s' _ rfl)
      · rintro ⟨th', hth', -, hnot⟩
        rw [hth] at hth'
        cases hth'
        exact absurd hnone hnot
    · refine ⟨fun _ => ⟨th, hth, hstatus, hnone⟩, fun _ => ?_⟩
      exact stateT_bind_eq_error.mpr (Or.inl hhits)
  · simp only [hstatus, ne_eq, not_false_eq_true, if_true]
    obtain ⟨ob, hob, hpresent, husable⟩ := usable_of_shouldWait hwait
    obtain ⟨s', hok, -⟩ := acquire_usable hsound hob hpresent husable hth hready
    rw [stateT_bind_of_ok hok]
    constructor
    · exact fun h => absurd h (wakeup_rest_harmless t s' _ rfl)
    · rintro ⟨th', hth', hfalse, -⟩
      rw [hth] at hth'
      cases hth'
      exact absurd hfalse hstatus

/-- The end of `WakeupAllWaitingThreads` finds no object unavailable. -/
theorem wakeup_end_harmless (o : ℕ) : Harmless (do
    match (← getObject o).kind with
    | .event e =>
        if e.resetType = .pulse then
          modifyObject o fun ob => { ob with kind := .event { e with signaled := false } }
        else pure ()
    | .timer e =>
        if e.resetType = .pulse then
          modifyObject o fun ob => { ob with kind := .timer { e with signaled := false } }
        else pure ()
    | _ => pure () : ManagerM Unit) := by
  refine NeverFaults.bind (harmless_getObject o) fun ob => ?_
  split
  next =>
    split
    next => exact harmless_modifyObject o _
    next => exact NeverFaults.pure _
  next =>
    split
    next => exact harmless_modifyObject o _
    next => exact NeverFaults.pure _
  next => exact NeverFaults.pure _

/-- The later path goes right exactly when each thread that is granted all of its objects lists
those that are acquired once just once, and semaphores no more often than they have slots. -/
theorem wakeupRight_iff (hsound : ThreadsSound s) (o : ℕ) :
    WakeupRight s o ↔ ∀ s' t objects, GrantedAll o s s' t objects →
      NoneTwice s' objects ∧ SlotsForAll s' objects := by
  constructor
  · rintro ⟨hright, hslots⟩ s' t objects hgranted
    refine ⟨by_contra fun hnone => hright ?_, hslots s' t objects hgranted⟩
    obtain ⟨n, ob, hob, hn, hreaches⟩ := hgranted.reaches
    obtain ⟨th, hth, hstatus, rfl⟩ := hgranted.thread
    have hwake : HitsUnavailable (wakeupWaitingThread o t s') :=
      (wakeupWaitingThread_hits (sound_wakeupReaches hsound hreaches)
        (selected_of_highest hgranted.selected)).mpr ⟨th, hth, hstatus, hnone⟩
    obtain ⟨fuel, hfuel⟩ := Nat.exists_eq_add_of_le hn
    have hloop : HitsUnavailable (wakeupLoop o (ob.waitingThreads.length + 1) s) := by
      rw [hfuel, Nat.add_assoc, wakeupLoop_reaches hreaches]
      unfold HitsUnavailable wakeupLoop
      rw [stateT_bind_of_ok hgranted.selected]
      exact stateT_bind_eq_error.mpr (Or.inl hwake)
    unfold HitsUnavailable wakeupAllWaitingThreads
    rw [stateT_bind_of_ok (getObject_run hob)]
    exact stateT_bind_eq_error.mpr (Or.inl hloop)
  · intro h
    refine ⟨fun hhits => ?_, fun s' t objects hgranted => (h s' t objects hgranted).2⟩
    rcases stateT_bind_eq_error.mp hhits with hget | ⟨ob, s₁, hget, hrest⟩
    · exact harmless_getObject o s _ rfl hget
    · obtain ⟨hob, rfl⟩ := getObject_eq_ok hget
      rcases stateT_bind_eq_error.mp hrest with hloop | ⟨_, s₂, -, hend⟩
      · obtain ⟨m, s₂, t, hm, hreaches, hlook, hwake⟩ := wakeupLoop_hits .start hloop
        obtain ⟨th, hth, hstatus, hnone⟩ := (wakeupWaitingThread_hits
          (sound_wakeupReaches hsound hreaches) (selected_of_highest hlook)).mp hwake
        exact hnone (h s₂ t th.waitObjects ⟨⟨m, ob, hob, by omega, hreaches⟩, hlook, th, hth,
          hstatus, rfl⟩).1
      · exact wakeup_end_harmless o s₂ _ rfl hend

end Later

/-! ## Both paths -/

/-- A thread runs. -/
def oneThread : List ManagerCall :=
  [.createThread 1 40 0 true true 0 7 true, .reschedule false 0 0]

theorem threadsSound_init : ThreadsSound {} := by
  intro t th hth
  cases hth

/-- A computation that ends well, as what is read off at its end shows. -/
theorem exists_ok_of_map {α β : Type} {x : Exec α} {f : α → β} {b : β}
    (h : (x.map f).toOption = some b) : ∃ a, x = .ok a ∧ f a = b := by
  cases x with
  | error e => cases h
  | ok a => exact ⟨a, rfl, Option.some.inj h⟩

/-- A semaphore that makes nobody wait has a slot. -/
theorem slot_of_shouldWait {s s' : ThreadManager} {o t : ℕ} {ob : WaitObject} {sm : Semaphore}
    (hob : s.objects o = some ob) (hkind : ob.kind = .semaphore sm)
    (h : shouldWait o t s = .ok (false, s')) : 1 ≤ sm.availableCount := by
  obtain ⟨ob', s₁, hget, hrest⟩ := stateT_bind_eq_ok.mp h
  obtain ⟨hob', rfl⟩ := getObject_eq_ok hget
  cases hob.symm.trans hob'
  rw [hkind] at hrest
  obtain ⟨hfree, -⟩ := stateT_pure_eq_ok.mp hrest
  have hpositive := of_decide_eq_false hfree
  omega

end Borked3DS.Analysis
