import Borked3DS.Analysis.ReadyQueues

/-!
# Choosing the next thread

What `PopNextReadyThread` pops and parks (`Pops`), and what its last loop puts back.
-/

set_option autoImplicit false

namespace Borked3DS.Analysis

open Borked3DS.Library Borked3DS.Model Borked3DS.Interface ThreadQueueList

/-! ## The loop that pops and parks -/

/-- From the first queue to the last, entries below a level are popped: the unschedulable ones are
parked, and the first other one is what is found. -/
inductive Pops (can : ℕ → Bool) (b : ℕ) :
    ReadyQueue → List ℕ → Option ℕ → ReadyQueue → Prop
  | done {q : ReadyQueue} (hbelow : ∀ j < b, q.lane j = []) : Pops can b q [] none q
  | found {q : ReadyQueue} {i x : ℕ} {rest : List ℕ} (hib : i < b) (hlane : q.lane i = x :: rest)
      (hbelow : ∀ j < i, q.lane j = []) (hcan : can x = true) :
      Pops can b q [] (some x) (q.setData i rest)
  | park {q q' : ReadyQueue} {i x : ℕ} {rest parked : List ℕ} {next : Option ℕ} (hib : i < b)
      (hlane : q.lane i = x :: rest) (hbelow : ∀ j < i, q.lane j = []) (hcan : can x = false)
      (hrest : Pops can b (q.setData i rest) parked next q') : Pops can b q (x :: parked) next q'

/-- Taking an entry out leaves one entry less. -/
theorem sum_lengths_setData {q : ReadyQueue} {i x : ℕ} {rest : List ℕ}
    (hlane : q.lane i = x :: rest) (n : ℕ) :
    ((List.range n).map fun j => (q.lane j).length).sum =
      ((List.range n).map fun j => ((q.setData i rest).lane j).length).sum +
        if i < n then 1 else 0 := by
  induction n with
  | zero => rfl
  | succ n ih =>
      simp only [List.range_succ, List.map_append, List.sum_append, ih, List.map_cons, List.map_nil,
        List.sum_cons, List.sum_nil, lane_setData]
      by_cases hn : n = i
      · subst hn
        simp [hlane]
        omega
      · by_cases hi : i < n
        · have hi' : i < n + 1 := by omega
          simp [hn, hi, hi']
          omega
        · have hi' : ¬ i < n + 1 := by omega
          simp [hn, hi, hi']

theorem entries_setData {q : ReadyQueue} {i x : ℕ} {rest : List ℕ} (hlane : q.lane i = x :: rest)
    (hi : i < ThreadPrioLowest + 1) :
    ReadyQueue.entries q = ReadyQueue.entries (q.setData i rest) + 1 := by
  unfold ReadyQueue.entries
  rw [sum_lengths_setData hlane, if_pos hi]

/-- The loop of `PopNextReadyThread`, with enough fuel for all entries. -/
theorem popSchedulable_ok {pop : ReadyQueue → Exec (Option ℕ × ReadyQueue)} {b : ℕ} {ls : List ℕ}
    (hpop : ∀ q, Linked q ls → ∃ r, pop q = .ok r ∧ PopsBelow q b r)
    (hb : b ≤ ThreadPrioLowest + 1) (fuel : ℕ) (s : ThreadManager)
    (hlinked : Linked s.readyQueue ls)
    (halive : ∀ i, ∀ t ∈ s.readyQueue.lane i, (s.threads t).isSome)
    (hfuel : ReadyQueue.entries s.readyQueue < fuel) :
    ∃ parked next q, popSchedulable pop fuel s = .ok (next, { s with
        readyQueue := q, unscheduledReadyQueue := s.unscheduledReadyQueue ++ parked }) ∧
      Pops (schedulable s) b s.readyQueue parked next q ∧ Linked q ls := by
  induction fuel generalizing s with
  | zero => exact absurd hfuel (Nat.not_lt_zero _)
  | succ fuel ih =>
      obtain ⟨r, hr, hbelow⟩ := hpop s.readyQueue hlinked
      cases hbelow with
      | none hbelow =>
          refine ⟨[], none, s.readyQueue, ?_, .done hbelow, hlinked⟩
          rw [List.append_nil]
          refine stateT_bind_eq_ok.mpr ⟨s, s, rfl, ?_⟩
          exact stateT_bind_eq_ok.mpr ⟨_, s, bind_eq_ok.mpr ⟨_, hr, rfl⟩, rfl⟩
      | some i x rest hib hlane hempty =>
          have hls : i ∈ ls := by
            by_contra hi
            rw [hlinked.empty i hi] at hlane
            cases hlane
          obtain ⟨th, hth⟩ := Option.isSome_iff_exists.mp (halive i x (by simp [hlane]))
          have hcan : schedulable s x = th.canSchedule := by
            unfold schedulable
            rw [hth]
            rfl
          have hstep : ∀ {r : Option ℕ × ThreadManager},
              (if th.canSchedule then (pure (some x) : ManagerM (Option ℕ)) else do
                modify fun s =>
                  { s with unscheduledReadyQueue := s.unscheduledReadyQueue ++ [x] }
                popSchedulable pop fuel) { s with readyQueue := s.readyQueue.setData i rest } =
                  .ok r → popSchedulable pop (fuel + 1) s = .ok r := by
            intro r hrest
            refine stateT_bind_eq_ok.mpr ⟨s, s, rfl, ?_⟩
            refine stateT_bind_eq_ok.mpr ⟨_, s, bind_eq_ok.mpr ⟨_, hr, rfl⟩, ?_⟩
            refine stateT_bind_eq_ok.mpr ⟨_, _, rfl, ?_⟩
            exact stateT_bind_eq_ok.mpr ⟨th, _, getThread_eq_ok.mpr ⟨hth, rfl⟩, hrest⟩
          by_cases hx : th.canSchedule = true
          · refine ⟨[], some x, s.readyQueue.setData i rest, ?_,
              .found hib hlane hempty (hcan.trans hx), hlinked.setData (.inl hls)⟩
            apply hstep
            rw [if_pos hx, List.append_nil]
            rfl
          · let s₁ : ThreadManager := { s with
              readyQueue := s.readyQueue.setData i rest
              unscheduledReadyQueue := s.unscheduledReadyQueue ++ [x] }
            have hentries := entries_setData hlane (Nat.lt_of_lt_of_le hib hb)
            obtain ⟨parked, next, q, hrun, hpops, hq⟩ := ih s₁ (hlinked.setData (.inl hls))
              (by
                intro j t ht
                simp only [s₁, lane_setData] at ht
                split at ht
                next heq =>
                  subst heq
                  exact halive j t (by simp [hlane, ht])
                next => exact halive j t ht)
              (by simp only [s₁]; omega)
            refine ⟨x :: parked, next, q, ?_, .park hib hlane hempty ?_ hpops, hq⟩
            · apply hstep
              rw [if_neg hx]
              refine stateT_bind_eq_ok.mpr ⟨⟨⟩, s₁, rfl, ?_⟩
              rw [hrun]
              simp [s₁]
            · rw [hcan]
              simpa using hx

/-! ## What has been popped -/

section Popped

variable {can : ℕ → Bool} {prio : ℕ → ℕ} {b : ℕ} {q q' : ReadyQueue} {parked : List ℕ}
  {next : Option ℕ}

/-- Every entry stands in the lane of its priority. -/
def ByPriority (prio : ℕ → ℕ) (q : ReadyQueue) : Prop := ∀ i, ∀ t ∈ q.lane i, prio t = i

/-- The threads of a list with a given priority. -/
def ofLevel (prio : ℕ → ℕ) (i : ℕ) (l : List ℕ) : List ℕ := l.filter fun t => decide (prio t = i)

theorem ByPriority.setData {i x : ℕ} {rest : List ℕ} (h : ByPriority prio q)
    (hlane : q.lane i = x :: rest) : ByPriority prio (q.setData i rest) := by
  intro j t ht
  rw [lane_setData] at ht
  split at ht
  next heq =>
    subst heq
    exact h j t (by simp [hlane, ht])
  next => exact h j t ht

/-- A lane is what has been parked of it, then what has been found, then what is left. -/
theorem Pops.lane_eq (h : Pops can b q parked next q') (hprio : ByPriority prio q) (i : ℕ) :
    q.lane i = ofLevel prio i parked ++ ofLevel prio i next.toList ++ q'.lane i := by
  induction h with
  | done hbelow => rfl
  | @found q j x rest hjb hlane hbelow hcan =>
      have hx : prio x = j := hprio j x (by simp [hlane])
      rw [lane_setData]
      by_cases hij : i = j
      · subst hij
        simp [ofLevel, hx, hlane]
      · have hji : ¬ j = i := fun heq => hij heq.symm
        simp [ofLevel, hx, hij, hji]
  | @park q q' j x rest parked next hjb hlane hbelow hcan hrest ih =>
      have hx : prio x = j := hprio j x (by simp [hlane])
      have hih := ih (hprio.setData hlane)
      rw [lane_setData] at hih
      by_cases hij : i = j
      · subst hij
        rw [if_pos rfl] at hih
        rw [hlane, hih]
        simp [ofLevel, hx]
      · have hji : ¬ j = i := fun heq => hij heq.symm
        rw [if_neg hij] at hih
        rw [hih]
        simp [ofLevel, hx, hji]

/-- What is parked cannot be scheduled, and stands at a level that the search has come to. -/
theorem Pops.parked_visited (h : Pops can b q parked next q') (hprio : ByPriority prio q) :
    ∀ t ∈ parked, can t = false ∧ prio t < b ∧
      ∀ j < prio t, ∀ u ∈ q.lane j, can u = false := by
  induction h with
  | done hbelow => simp
  | found hjb hlane hbelow hcan => simp
  | @park q q' i x rest parked next hib hlane hbelow hcan hrest ih =>
      intro t ht
      rcases List.mem_cons.mp ht with rfl | ht
      · have hx : prio t = i := hprio i t (by simp [hlane])
        refine ⟨hcan, hx ▸ hib, ?_⟩
        intro j hj u hu
        rw [hbelow j (hx ▸ hj)] at hu
        cases hu
      · obtain ⟨hcant, hpt, hvisited⟩ := ih (hprio.setData hlane) t ht
        refine ⟨hcant, hpt, ?_⟩
        intro j hj u hu
        by_cases hji : j = i
        · subst hji
          rw [hlane] at hu
          rcases List.mem_cons.mp hu with rfl | hu
          · exact hcan
          · exact hvisited j hj u (by rw [lane_setData, if_pos rfl]; exact hu)
        · exact hvisited j hj u (by rw [lane_setData, if_neg hji]; exact hu)

/-- What is found may be scheduled, and nothing is left at any better level. -/
theorem Pops.found_best (h : Pops can b q parked next q') (hprio : ByPriority prio q) :
    ∀ x, next = some x → can x = true ∧ prio x < b ∧ ∀ j < prio x, q'.lane j = [] := by
  induction h with
  | done hbelow => simp
  | @found q i x rest hib hlane hbelow hcan =>
      intro y hy
      cases hy
      have hx : prio x = i := hprio i x (by simp [hlane])
      refine ⟨hcan, hx ▸ hib, ?_⟩
      intro j hj
      rw [lane_setData, if_neg (by omega)]
      exact hbelow j (hx ▸ hj)
  | park hib hlane hbelow hcan hrest ih => exact ih (hprio.setData hlane)

/-- When nothing is found, nothing is left below the bound. -/
theorem Pops.none_left (h : Pops can b q parked next q') (hnone : next = none) :
    ∀ j < b, q'.lane j = [] := by
  induction h with
  | done hbelow => exact hbelow
  | found => cases hnone
  | park _ _ _ _ _ ih => exact ih hnone

end Popped

/-! ## Putting the parked threads back -/

/-- The last loop of `PopNextReadyThread`: each parked thread goes behind all others of its level,
the one parked last first. -/
theorem requeueUnscheduled_ok {ls : List ℕ} (l : List ℕ) (s : ThreadManager)
    (hparked : s.unscheduledReadyQueue = l.reverse) (hlinked : Linked s.readyQueue ls)
    (hl : ∀ t ∈ l, (s.threads t).isSome ∧ priorityOf s t ∈ ls) :
    ∃ q, requeueUnscheduled l s = .ok (⟨⟩, { s with
        readyQueue := q, unscheduledReadyQueue := [] }) ∧ Linked q ls ∧
      ∀ i, q.lane i = s.readyQueue.lane i ++ ofLevel (priorityOf s) i l := by
  induction l generalizing s with
  | nil =>
      refine ⟨s.readyQueue, ?_, hlinked, fun i => by simp [ofLevel]⟩
      have hs : s = { s with unscheduledReadyQueue := [] } := by
        rw [List.reverse_nil] at hparked
        rw [← hparked]
      rw [← hs]
      rfl
  | cons t l ih =>
      obtain ⟨hsome, hmem⟩ := hl t (by simp)
      obtain ⟨th, hth⟩ := Option.isSome_iff_exists.mp hsome
      have hprio : priorityOf s t = th.currentPriority := by
        unfold priorityOf
        rw [hth]
      rw [hprio] at hmem
      let q₁ := s.readyQueue.setData th.currentPriority
        (s.readyQueue.lane th.currentPriority ++ [t])
      have hpush : s.readyQueue.pushBack th.currentPriority t = .ok q₁ :=
        pushBack_eq_ok.mpr ⟨hlinked.bound _ hmem, rfl⟩
      let s₁ : ThreadManager := { s with
        readyQueue := q₁
        unscheduledReadyQueue := s.unscheduledReadyQueue.dropLast }
      obtain ⟨q, hrun, hq, hlane⟩ := ih s₁ (by simp [s₁, hparked]) (hlinked.setData (.inl hmem))
        fun u hu => hl u (by simp [hu])
      refine ⟨q, ?_, hq, ?_⟩
      · refine stateT_bind_eq_ok.mpr ⟨th, s, getThread_eq_ok.mpr ⟨hth, rfl⟩, ?_⟩
        refine stateT_bind_eq_ok.mpr ⟨⟨⟩, _, modifyQueue_eq_ok.mpr ⟨_, hpush, rfl⟩, ?_⟩
        exact stateT_bind_eq_ok.mpr ⟨⟨⟩, s₁, rfl, hrun⟩
      · intro i
        have hsame : priorityOf s₁ = priorityOf s := rfl
        rw [hlane i, hsame]
        simp only [s₁, q₁, lane_setData]
        by_cases hi : i = th.currentPriority
        · subst hi
          simp [ofLevel, hprio]
        · have hi' : ¬ th.currentPriority = i := fun heq => hi heq.symm
          simp [ofLevel, hprio, hi, hi']

/-! ## The whole choice -/

section Choice

variable {s : ThreadManager}

theorem priorityOf_eq {t : ℕ} {th : Thread} (hth : s.threads t = some th) :
    priorityOf s t = th.currentPriority := by
  unfold priorityOf
  rw [hth]

theorem schedulable_eq {t : ℕ} {th : Thread} (hth : s.threads t = some th) :
    schedulable s t = th.canSchedule := by
  unfold schedulable
  rw [hth]
  rfl

/-- A thread is queued exactly at the level of its priority and when it is ready. -/
theorem SchedulerInvariant.mem_lane_iff (h : SchedulerInvariant s) {t i : ℕ} :
    t ∈ s.readyQueue.lane i ↔
      ∃ th, s.threads t = some th ∧ th.status = .ready ∧ th.currentPriority = i := by
  rw [h.files.mem_iff]
  unfold readyLevel
  cases hth : s.threads t with
  | none => simp
  | some th => simp

theorem SchedulerInvariant.byPriority (h : SchedulerInvariant s) :
    ByPriority (priorityOf s) s.readyQueue := by
  intro i t ht
  obtain ⟨th, hth, -, hprio⟩ := h.mem_lane_iff.mp ht
  rw [priorityOf_eq hth, hprio]

theorem SchedulerInvariant.readySchedulable_iff (h : SchedulerInvariant s) {t : ℕ} :
    ReadySchedulable s t ↔
      t ∈ s.readyQueue.lane (priorityOf s t) ∧ schedulable s t = true := by
  unfold ReadySchedulable
  rw [h.mem_lane_iff]
  constructor
  · rintro ⟨th, hth, hready, hcan⟩
    exact ⟨⟨th, hth, hready, (priorityOf_eq hth).symm⟩, (schedulable_eq hth).trans hcan⟩
  · rintro ⟨⟨th, hth, hready, -⟩, hcan⟩
    exact ⟨th, hth, hready, (schedulable_eq hth).symm.trans hcan⟩

/-- What the call reads of the running thread. -/
theorem runningThread_ok (halive : ∀ t, s.currentThread = some t → (s.threads t).isSome) :
    ∃ r, runningThread s = .ok (r, s) ∧ r.map Prod.fst = runningOf s ∧
      ∀ t th, r = some (t, th) → s.threads t = some th := by
  unfold runningOf
  cases hcur : s.currentThread with
  | none =>
      refine ⟨none, ?_, rfl, by simp⟩
      refine stateT_bind_eq_ok.mpr ⟨s, s, rfl, ?_⟩
      rw [hcur]
      rfl
  | some t =>
      obtain ⟨th, hth⟩ := Option.isSome_iff_exists.mp (halive t hcur)
      refine ⟨if th.status = .running then some (t, th) else none, ?_, ?_, ?_⟩
      · refine stateT_bind_eq_ok.mpr ⟨s, s, rfl, ?_⟩
        rw [hcur]
        exact stateT_bind_eq_ok.mpr ⟨th, s, getThread_eq_ok.mpr ⟨hth, rfl⟩, rfl⟩
      · by_cases hrun : th.status = .running
        · simp [Option.filter, hrun, hth]
        · simp [Option.filter, hrun, hth]
      · intro t' th' heq
        split at heq
        next =>
          cases heq
          exact hth
        next => cases heq

/-- What is known of the running thread. -/
theorem runningOf_eq_some {r : ℕ} (hr : runningOf s = some r) :
    ∃ th, s.threads r = some th ∧ th.status = .running := by
  unfold runningOf at hr
  obtain ⟨-, hany⟩ := Option.filter_eq_some_iff.mp hr
  cases hth : s.threads r with
  | none => simp [hth] at hany
  | some th => exact ⟨th, rfl, by simpa [hth] using hany⟩

theorem SchedulerInvariant.running_not_queued (h : SchedulerInvariant s) {r i : ℕ}
    (hr : runningOf s = some r) : r ∉ s.readyQueue.lane i := by
  intro hmem
  obtain ⟨th, hth, hrun⟩ := runningOf_eq_some hr
  obtain ⟨th', hth', hready, -⟩ := h.mem_lane_iff.mp hmem
  rw [hth] at hth'
  cases hth'
  rw [hrun] at hready
  cases hready

/-- `PopNextReadyThread`: what it returns, and the queue it leaves.
SOURCE: thread.cpp:172-203 -/
theorem popNextReadyThread_ok (h : SchedulerInvariant s) :
    ∃ parked popped q q' ls,
      popNextReadyThread s = .ok (popped.or (runningOf s), { s with readyQueue := q' }) ∧
      Pops (schedulable s) (levelsBetter s) s.readyQueue parked popped q ∧
      Linked q' ls ∧ PrioritiesLinked s.threads ls ∧
      ∀ i, q'.lane i = q.lane i ++ (ofLevel (priorityOf s) i parked).reverse := by
  obtain ⟨ls, hlinked, hprios⟩ := h.linked
  obtain ⟨r, hr, hrunning, hrth⟩ := runningThread_ok h.current
  have halive : ∀ i, ∀ t ∈ s.readyQueue.lane i, (s.threads t).isSome := by
    intro i t ht
    obtain ⟨th, hth, -⟩ := h.mem_lane_iff.mp ht
    rw [hth]
    rfl
  -- either loop, then the threads it has parked
  have hwhole : ∀ {f : ReadyQueue → Exec (Option ℕ × ReadyQueue)},
      (∀ q, Linked q ls → ∃ r, f q = .ok r ∧ PopsBelow q (levelsBetter s) r) →
      levelsBetter s ≤ ThreadPrioLowest + 1 →
      ∃ parked popped q q', popSchedulable f (ReadyQueue.entries s.readyQueue + 1) s =
          .ok (popped, { s with readyQueue := q, unscheduledReadyQueue := parked }) ∧
        requeueUnscheduled parked.reverse
            { s with readyQueue := q, unscheduledReadyQueue := parked } =
          .ok (⟨⟩, { s with readyQueue := q' }) ∧
        Pops (schedulable s) (levelsBetter s) s.readyQueue parked popped q ∧ Linked q' ls ∧
        ∀ i, q'.lane i = q.lane i ++ (ofLevel (priorityOf s) i parked).reverse := by
    intro f hpop hle
    obtain ⟨parked, popped, q, hrun, hpops, hq⟩ :=
      popSchedulable_ok hpop hle _ s hlinked halive (Nat.lt_succ_self _)
    rw [h.parked, List.nil_append] at hrun
    have hback : ∀ t ∈ parked.reverse, (s.threads t).isSome ∧ priorityOf s t ∈ ls := by
      intro t ht
      have hlane := hpops.lane_eq h.byPriority (priorityOf s t)
      have hmem : t ∈ s.readyQueue.lane (priorityOf s t) := by
        rw [hlane]
        simp [ofLevel, List.mem_reverse.mp ht]
      obtain ⟨th, hth, -⟩ := h.mem_lane_iff.mp hmem
      rw [priorityOf_eq hth, hth]
      exact ⟨rfl, (hprios t th hth).1⟩
    obtain ⟨q', hrun', hq', hlane⟩ := requeueUnscheduled_ok parked.reverse
      { s with readyQueue := q, unscheduledReadyQueue := parked } (by simp) hq hback
    refine ⟨parked, popped, q, q', hrun, ?_, hpops, hq', ?_⟩
    · rw [hrun', ← h.parked]
    · intro i
      rw [hlane i]
      unfold ofLevel
      rw [List.filter_reverse]
      rfl
  cases r with
  | none =>
      have hbound : levelsBetter s = ThreadPrioLowest + 1 := by
        unfold levelsBetter
        rw [← hrunning]
        rfl
      obtain ⟨parked, popped, q, q', hrun, hback, hpops, hq', hlane⟩ :=
        hwhole (f := fun q => q.popFirst)
          (fun q hq => by rw [hbound]; exact popFirst_ok hq) (Nat.le_of_eq hbound)
      refine ⟨parked, popped, q, q', ls, ?_, hpops, hq', hprios, hlane⟩
      refine stateT_bind_eq_ok.mpr ⟨s, s, rfl, ?_⟩
      refine stateT_bind_eq_ok.mpr ⟨none, s, hr, ?_⟩
      refine stateT_bind_eq_ok.mpr ⟨popped, _, hrun, ?_⟩
      refine stateT_bind_eq_ok.mpr ⟨_, _, rfl, ?_⟩
      refine stateT_bind_eq_ok.mpr ⟨⟨⟩, _, hback, ?_⟩
      rw [← hrunning]
      cases popped <;> rfl
  | some r =>
      obtain ⟨t, th⟩ := r
      have hth := hrth t th rfl
      have hbound : levelsBetter s = th.currentPriority := by
        unfold levelsBetter
        rw [← hrunning]
        exact priorityOf_eq hth
      have hmem := (hprios t th hth).1
      obtain ⟨parked, popped, q, q', hrun, hback, hpops, hq', hlane⟩ :=
        hwhole (f := fun q => q.popFirstBetter th.currentPriority)
          (fun q hq => by rw [hbound]; exact popFirstBetter_ok hq hmem)
          (by rw [hbound]; exact Nat.le_of_lt (hlinked.bound _ hmem))
      refine ⟨parked, popped, q, q', ls, ?_, hpops, hq', hprios, hlane⟩
      refine stateT_bind_eq_ok.mpr ⟨s, s, rfl, ?_⟩
      refine stateT_bind_eq_ok.mpr ⟨some (t, th), s, hr, ?_⟩
      refine stateT_bind_eq_ok.mpr ⟨popped, _, hrun, ?_⟩
      refine stateT_bind_eq_ok.mpr ⟨popped.or (some t), _, rfl, ?_⟩
      refine stateT_bind_eq_ok.mpr ⟨_, _, rfl, ?_⟩
      refine stateT_bind_eq_ok.mpr ⟨⟨⟩, _, hback, ?_⟩
      rw [← hrunning]
      rfl

end Choice

end Borked3DS.Analysis
