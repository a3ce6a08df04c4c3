import Borked3DS.Analysis.ManagerRules

/-!
# The slots of semaphores

Waits only draw slots that are there, so that a semaphore leaves its bounds by its creation or by a
release alone, and the check of neither is about the lower one.
-/

set_option autoImplicit false

namespace Borked3DS.Analysis

open Borked3DS.Library Borked3DS.Model Borked3DS.Interface

/-! ## Drawing slots -/

section Drawing

variable {s s' : ThreadManager} {o : ℕ} {ob : WaitObject}

/-- Slots have been drawn from a semaphore, as long as there were any. -/
structure Drawn (sm sm' : Semaphore) : Prop where
  maxCount : sm'.maxCount = sm.maxCount
  atMost : sm'.availableCount ≤ sm.availableCount
  there : sm'.availableCount < sm.availableCount → 0 ≤ sm'.availableCount

/-- Of all semaphores slots have only been drawn. -/
def SlotsDrawn (s s' : ThreadManager) : Prop :=
  ∀ o, Option.Rel Drawn (semaphoreAt s o) (semaphoreAt s' o)

theorem drawn_refl (sm : Semaphore) : Drawn sm sm :=
  ⟨rfl, Int.le_refl _, fun h => absurd h (Int.lt_irrefl _)⟩

/-- One more slot is drawn. -/
theorem Drawn.next {sm sm' : Semaphore} (h : Drawn sm sm') (hslot : 0 < sm'.availableCount) :
    Drawn sm { sm' with availableCount := sm'.availableCount - 1 } := by
  refine ⟨h.maxCount, ?_, fun _ => ?_⟩
  · have hle := h.atMost
    show sm'.availableCount - 1 ≤ sm.availableCount
    omega
  · show 0 ≤ sm'.availableCount - 1
    omega

theorem slotsDrawn_refl (s : ThreadManager) : SlotsDrawn s s := by
  intro o
  cases semaphoreAt s o with
  | none => exact .none
  | some sm => exact .some (drawn_refl sm)

theorem semaphoreAt_eq (hob : s.objects o = some ob) :
    semaphoreAt s o = match ob.kind with
      | .semaphore sm => some sm
      | _ => none := by
  unfold semaphoreAt
  generalize s.objects o = x at hob ⊢
  subst hob
  rfl

theorem semaphoreAt_update_self (ob : WaitObject) :
    semaphoreAt { s with objects := Function.update s.objects o (some ob) } o =
      match ob.kind with
      | .semaphore sm => some sm
      | _ => none :=
  semaphoreAt_eq (Function.update_self _ _ _)

theorem semaphoreAt_update_of_ne {u : ℕ} (h : u ≠ o) (ob : Option WaitObject) :
    semaphoreAt { s with objects := Function.update s.objects o ob } u = semaphoreAt s u := by
  simp [semaphoreAt, Function.update_of_ne h]

theorem semaphoreAt_of_objects (h : s'.objects = s.objects) : semaphoreAt s' = semaphoreAt s := by
  funext u
  simp [semaphoreAt, h]

/-- What is written of an object draws one slot at most. -/
theorem slotsDrawn_write {s₀ : ThreadManager} (h : SlotsDrawn s₀ s) {ob' : WaitObject}
    (hob : s.objects o = some ob) (hkind : KindFollows ob.kind ob'.kind) :
    SlotsDrawn s₀ { s with objects := Function.update s.objects o (some ob') } := by
  intro u
  by_cases hu : u = o
  · subst hu
    have hu := h u
    rw [semaphoreAt_eq hob] at hu
    rw [semaphoreAt_update_self]
    generalize ob.kind = k at hkind hu
    generalize ob'.kind = k' at hkind ⊢
    cases hkind with
    | semaphore sm hslot =>
        generalize semaphoreAt s₀ u = first at hu ⊢
        cases hu with
        | some hdrawn => exact .some (hdrawn.next hslot)
    | _ => exact hu
  · rw [semaphoreAt_update_of_ne hu]
    exact h u

/-- Whatever is written, of semaphores slots are only drawn. -/
theorem slotsDrawn_kept (s₀ : ThreadManager) : KeptByWrites AnyWrite (SlotsDrawn s₀) where
  aside s s' _ hobjects _ h := by
    intro u
    rw [semaphoreAt_of_objects hobjects]
    exact h u
  forget _ _ h := h
  thread _ _ _ _ h _ _ := h
  object _ _ _ _ h hob hkind := slotsDrawn_write h hob hkind
  newObject s o kind h hfree hkind := by
    intro u
    by_cases hu : u = o
    · subst hu
      have hnone : s.objects u = none := by
        rw [← Option.not_isSome_iff_eq_none]
        exact fun hsome => hfree (Or.inr hsome)
      have hu := h u
      have hbefore : semaphoreAt s u = none := by simp [semaphoreAt, hnone]
      have hafter : semaphoreAt
          { s with objects := Function.update s.objects u (some { kind := kind }) } u = none := by
        rw [semaphoreAt_update_self]
        cases kind with
        | semaphore sm => exact absurd rfl (hkind sm)
        | _ => rfl
      rw [hafter, ← hbefore]
      exact hu
    · rw [semaphoreAt_update_of_ne hu]
      exact h u

theorem slotsDrawn_new (s₀ : ThreadManager) : KeptByNew (SlotsDrawn s₀) :=
  fun _ _ _ _ h _ _ _ _ _ _ => h

theorem semaphoresBounded_of_drawn (h : SemaphoresBounded s) (hdrawn : SlotsDrawn s s') :
    SemaphoresBounded s' := by
  intro o sm' hsm'
  have ho := hdrawn o
  rw [hsm'] at ho
  generalize hsm : semaphoreAt s o = first at ho
  cases ho with
  | @some sm _ hd =>
      obtain ⟨hlower, hupper⟩ := h o sm hsm
      have hmax := hd.maxCount
      have hle := hd.atMost
      refine ⟨?_, by omega⟩
      by_cases hlt : sm'.availableCount < sm.availableCount
      · exact hd.there hlt
      · omega

end Drawing

/-! ## The two calls -/

section Calls

variable {s s' : ThreadManager} {o : ℕ}

/-- A semaphore is made where there was none. -/
theorem semaphoresBounded_create {initialCount maxCount : ℤ} (h : SemaphoresBounded s)
    (hstep : ManagerCall.step s (.createSemaphore o initialCount maxCount) = .ok s') :
    SemaphoresBounded s' ↔ (initialCount ≤ maxCount → 0 ≤ initialCount) := by
  obtain ⟨⟨u, s₁⟩, hrun, hpure⟩ := bind_eq_ok.mp hstep
  cases hpure
  obtain ⟨r, s₂, hcreate, hpure⟩ := stateT_bind_eq_ok.mp hrun
  cases hpure
  unfold createSemaphore at hcreate
  split at hcreate
  next hlt =>
    cases hcreate
    exact iff_of_true h fun hle => absurd hlt (Int.not_lt.mpr hle)
  next hle =>
    obtain ⟨_, s₃, hnew, hpure⟩ := stateT_bind_eq_ok.mp hcreate
    cases hpure
    obtain ⟨s₀, s₄, hget, hrest⟩ := stateT_bind_eq_ok.mp hnew
    cases hget
    split at hrest
    next => cases hrest
    next hfree =>
      cases hrest
      constructor
      · intro hbounded _
        exact (hbounded o _ (semaphoreAt_update_self _)).1
      · intro hfirst u sm hsm
        by_cases hu : u = o
        · subst hu
          rw [semaphoreAt_update_self] at hsm
          cases hsm
          exact ⟨hfirst (Int.not_lt.mp hle), Int.not_lt.mp hle⟩
        · rw [semaphoreAt_update_of_ne hu] at hsm
          exact h u sm hsm

/-- What a release comes to: it is refused, or adds to the semaphore and wakes up the threads that
wait for it, which draw from it. -/
theorem semaphoreRelease_cases {releaseCount : ℤ} {r : Result}
    (hrun : semaphoreRelease o releaseCount s = .ok (r, s')) :
    ∃ sm, semaphoreAt s o = some sm ∧
      (sm.maxCount < releaseCount + sm.availableCount ∧ s' = s ∨
        releaseCount + sm.availableCount ≤ sm.maxCount ∧ r = .success ∧
          ∃ s₁, SlotsDrawn s₁ s' ∧
            semaphoreAt s₁ o =
              some { sm with availableCount := sm.availableCount + releaseCount } ∧
            ∀ u, u ≠ o → semaphoreAt s₁ u = semaphoreAt s u) := by
  unfold semaphoreRelease at hrun
  obtain ⟨ob, s₁, hget, hrest⟩ := stateT_bind_eq_ok.mp hrun
  obtain ⟨rfl, hob⟩ := getObject_triple (p := fun u => s = u) o s ob s₁ rfl hget
  have hat := semaphoreAt_eq hob
  generalize ob.kind = kind at hrest hat
  cases kind with
  | semaphore sm =>
    refine ⟨sm, hat, ?_⟩
    dsimp only at hrest
    split at hrest
    next hlt =>
      cases hrest
      exact Or.inl ⟨hlt, rfl⟩
    next hle =>
      obtain ⟨_, s₂, hwrite, hrest⟩ := stateT_bind_eq_ok.mp hrest
      obtain ⟨_, s₃, hwake, hpure⟩ := stateT_bind_eq_ok.mp hrest
      cases hpure
      obtain ⟨ob', s₄, hget', hmodify⟩ := stateT_bind_eq_ok.mp hwrite
      obtain ⟨rfl, -⟩ := getObject_triple (p := fun u => s = u) o s ob' s₄ rfl hget'
      cases hmodify
      have hdrawn :=
        kept_wakeupAllWaitingThreads (slotsDrawn_kept _) permitsAll_anyWrite.toPermits o _ _ _
          (slotsDrawn_refl _) hwake
      exact Or.inr ⟨Int.not_lt.mp hle, rfl, _, hdrawn, semaphoreAt_update_self _,
        fun u hu => semaphoreAt_update_of_ne hu _⟩
  | _ => cases hrest

theorem semaphoresBounded_release {releaseCount : ℤ} (h : SemaphoresBounded s)
    (hstep : ManagerCall.step s (.semaphoreRelease o releaseCount) = .ok s') :
    SemaphoresBounded s' ∧ ReleasesRight s (.semaphoreRelease o releaseCount) ↔
      CountsSlots s (.semaphoreRelease o releaseCount) := by
  obtain ⟨⟨u, s₁⟩, hrun, hpure⟩ := bind_eq_ok.mp hstep
  cases hpure
  obtain ⟨r, s₂, hrelease, hpure⟩ := stateT_bind_eq_ok.mp hrun
  cases hpure
  have hunchanged : ∀ r s', semaphoreRelease o releaseCount s = .ok (r, s') → r ≠ .success →
      s' = s := by
    intro r' s₃ hrun' hne
    obtain ⟨sm', -, ⟨-, heq⟩ | ⟨-, hsuccess, -⟩⟩ := semaphoreRelease_cases hrun'
    · exact heq
    · exact absurd hsuccess hne
  obtain ⟨sm, hsm, hcases⟩ := semaphoreRelease_cases hrelease
  obtain ⟨hlower, hupper⟩ := h o sm hsm
  constructor
  · rintro ⟨hbounded, hfits, -⟩ sm' hsm'
    rw [hsm] at hsm'
    cases hsm'
    refine ⟨?_, (hfits sm hsm).2⟩
    rcases hcases with ⟨hover, -⟩ | ⟨-, -, s₁, hdrawn, hat, -⟩
    · omega
    · -- a count below zero is drawn from by nobody, so it would still be there
      have ho := hdrawn o
      rw [hat] at ho
      generalize hafter : semaphoreAt s' o = after at ho
      cases ho with
      | @some _ sm' hd =>
          have hzero := (hbounded o sm' hafter).1
          have hle : sm'.availableCount ≤ sm.availableCount + releaseCount := hd.atMost
          omega
  · intro hcounts
    obtain ⟨hfree, hlt⟩ := hcounts sm hsm
    refine ⟨?_, fun sm' hsm' => ?_, hunchanged⟩
    · rcases hcases with ⟨-, rfl⟩ | ⟨hle, -, s₁, hdrawn, hat, haside⟩
      · exact h
      · refine semaphoresBounded_of_drawn (fun u sm' hsm' => ?_) hdrawn
        by_cases hu : u = o
        · subst hu
          rw [hat] at hsm'
          cases hsm'
          exact ⟨by show 0 ≤ sm.availableCount + releaseCount; omega,
            by show sm.availableCount + releaseCount ≤ sm.maxCount; omega⟩
        · rw [haside u hu] at hsm'
          exact h u sm' hsm'
    · rw [hsm] at hsm'
      cases hsm'
      omega

end Calls

/-! ## Every call -/

/-- A call keeps the semaphores in bounds exactly when it counts slots that can be there. -/
theorem semaphoresBounded_step {s s' : ThreadManager} {call : ManagerCall}
    (h : SemaphoresBounded s) (hstep : ManagerCall.step s call = .ok s') :
    SemaphoresBounded s' ∧ ReleasesRight s call ↔ CountsSlots s call := by
  by_cases hcreate : ∃ o i m, call = .createSemaphore o i m
  · obtain ⟨o, i, m, rfl⟩ := hcreate
    exact (and_iff_left trivial).trans (semaphoresBounded_create h hstep)
  · by_cases hrelease : ∃ o n, call = .semaphoreRelease o n
    · obtain ⟨o, n, rfl⟩ := hrelease
      exact semaphoresBounded_release h hstep
    · have hcreate : ∀ o i m, call ≠ .createSemaphore o i m :=
        fun o i m h => hcreate ⟨o, i, m, h⟩
      have hrelease : ∀ o n, call ≠ .semaphoreRelease o n := fun o n h => hrelease ⟨o, n, h⟩
      obtain ⟨⟨u, s₁⟩, hrun, hpure⟩ := bind_eq_ok.mp hstep
      cases hpure
      have hdrawn :=
        kept_anyCall (slotsDrawn_kept s) (slotsDrawn_new s) hcreate hrelease s u s'
          (slotsDrawn_refl s) hrun
      have hbounded := semaphoresBounded_of_drawn h hdrawn
      cases call with
      | createSemaphore o i m => exact absurd rfl (hcreate o i m)
      | semaphoreRelease o n => exact absurd rfl (hrelease o n)
      | _ => exact iff_of_true ⟨hbounded, trivial⟩ trivial

/-- The semaphores stay in bounds all along a run, with every release adding up and none that fails
changing anything, exactly when every call counts slots that can be there. -/
theorem semaphoreSlots_iff (calls : List ManagerCall) :
    AllAlong ManagerCall.step SemaphoresBounded {} calls ∧
        EachStep ManagerCall.step ReleasesRight {} calls ↔
      EachStep ManagerCall.step CountsSlots {} calls :=
  allAlong_and_eachStep_iff (fun _ _ _ h hstep => semaphoresBounded_step h hstep)
    (fun o sm hsm => by cases hsm) calls

/-- A slot is taken out of a semaphore that has none, and a semaphore of one slot is released until
the sum leaves the `s32`. -/
theorem semaphoreSlots_below :
    ¬ AllAlong ManagerCall.step SemaphoresBounded {}
        [.createSemaphore 0 0 1, .semaphoreRelease 0 (-1)] ∧
      ¬ EachStep ManagerCall.step ReleasesRight {}
        [.createSemaphore 0 1 1, .semaphoreRelease 0 (2 ^ 31 - 1)] := by
  constructor
  · intro h
    have hend := (h.2 _ rfl).2 _ rfl
    have hat := (hend 0 { availableCount := -1, maxCount := 1 } rfl).1
    revert hat
    decide
  · intro h
    have hright := ((h _ rfl).2 _ rfl).1.1
    have hsum := (hright { availableCount := 1, maxCount := 1 } rfl).2
    revert hsum
    decide

end Borked3DS.Analysis
