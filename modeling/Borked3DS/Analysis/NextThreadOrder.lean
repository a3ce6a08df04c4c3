import Borked3DS.Analysis.SchedulerConsistency

/-!
# The order of the threads that are not chosen

`PopNextReadyThread` chooses the right thread in every state. What it parks on the way it puts back
behind the others, the last one first: when that changes no order, and a run in which it does.
-/

set_option autoImplicit false

namespace Borked3DS.Analysis

open Borked3DS.Library Borked3DS.Model Borked3DS.Interface ThreadQueueList

/-! ## The order of the others -/

section Order

/-- In a list without duplicates only one of two entries comes first. -/
theorem not_both_orders {a b : ℕ} {l : List ℕ} (hnodup : l.Nodup) (hab : [a, b].Sublist l) :
    ¬ [b, a].Sublist l := by
  intro hba
  induction l with
  | nil => cases hab
  | cons x l ih =>
      obtain ⟨hx, hl⟩ := List.nodup_cons.mp hnodup
      cases hab with
      | cons _ hab =>
          cases hba with
          | cons _ hba => exact ih hl hab hba
          | cons_cons _ hba => exact hx (hab.subset (by simp))
      | cons_cons _ hab =>
          cases hba with
          | cons _ hba => exact hx (hba.subset (by simp))
          | cons_cons _ hba => exact hx (hba.subset (by simp))

variable {next : Option ℕ} {pre found rest : List ℕ}

/-- Parking the head of a lane and putting it back behind, the last one first, keeps the order
exactly when there is no head, or one thread which nothing is left to overtake. -/
theorem keepsOrder_iff (hnodup : (pre ++ found ++ rest).Nodup)
    (hfound : ∀ a ∈ found, some a = next) (hothers : ∀ a ∈ pre ++ rest, some a ≠ next) :
    KeepsOrder next (pre ++ found ++ rest) (rest ++ pre.reverse) ↔
      pre = [] ∨ pre.length = 1 ∧ rest = [] := by
  have hrest : (rest ++ pre.reverse).Nodup := by
    have hsub : (pre ++ rest).Sublist (pre ++ found ++ rest) := by
      rw [List.append_assoc]
      exact (List.Sublist.refl pre).append (List.sublist_append_right found rest)
    have hperm : (rest ++ pre.reverse).Perm (pre ++ rest) :=
      ((List.reverse_perm pre).append_left rest).trans List.perm_append_comm
    exact hperm.nodup_iff.mpr (hnodup.sublist hsub)
  constructor
  · rintro ⟨-, horder⟩
    cases pre with
    | nil => exact .inl rfl
    | cons u pre =>
        right
        have hu := hothers u (by simp)
        cases pre with
        | cons v pre =>
            -- the two first parked threads have changed places
            have hv := hothers v (by simp)
            have hkept := horder u v hu hv (by simp)
            refine absurd hkept (not_both_orders hrest ?_)
            simp only [List.reverse_cons, List.append_assoc]
            refine List.Sublist.trans ?_ (List.sublist_append_right rest _)
            refine List.Sublist.trans ?_ (List.sublist_append_right pre.reverse _)
            simp
        | nil =>
            refine ⟨rfl, ?_⟩
            cases rest with
            | nil => rfl
            | cons w rest =>
                -- a thread that was left has overtaken the parked one
                have hw := hothers w (by simp)
                have hsub : [u, w].Sublist ([u] ++ found ++ w :: rest) := by
                  simp only [List.singleton_append]
                  refine List.Sublist.cons_cons u ?_
                  refine List.Sublist.trans ?_ (List.sublist_append_right found _)
                  simp
                refine absurd (horder u w hu hw hsub) (not_both_orders hrest ?_)
                simp
  · intro hcase
    have hsame : pre ++ rest = rest ++ pre.reverse := by
      rcases hcase with rfl | ⟨hlen, rfl⟩
      · simp
      · obtain ⟨u, rfl⟩ := List.length_eq_one_iff.mp hlen
        simp
    have hfilter : (pre ++ found ++ rest).filter (fun a => decide (some a ≠ next)) =
        pre ++ rest := by
      have hpre : ∀ a ∈ pre, decide (some a ≠ next) = true := by
        intro a ha
        simpa using hothers a (by simp [ha])
      have hrest : ∀ a ∈ rest, decide (some a ≠ next) = true := by
        intro a ha
        simpa using hothers a (by simp [ha])
      have hmid : ∀ a ∈ found, ¬ decide (some a ≠ next) = true := by
        intro a ha
        simpa using hfound a ha
      rw [List.filter_append, List.filter_append, List.filter_eq_self.mpr hpre,
        List.filter_eq_self.mpr hrest, List.filter_eq_nil_iff.mpr hmid, List.append_nil]
    constructor
    · intro a ha hne
      rw [← hsame, ← hfilter]
      exact List.mem_filter.mpr ⟨ha, by simpa using hne⟩
    · intro a b ha hb hab
      rw [← hsame, ← hfilter]
      have hpair := hab.filter fun a => decide (some a ≠ next)
      simpa [ha, hb] using hpair

end Order

/-! ## The promise -/

section Promise

variable {s : ThreadManager} {parked : List ℕ} {popped : Option ℕ} {q : ReadyQueue}

/-- What is left below the level where the search has ended. -/
theorem Pops.left_of_visited (hpops : Pops (schedulable s) (levelsBetter s) s.readyQueue parked
    popped q) (hprio : ByPriority (priorityOf s) s.readyQueue) {i : ℕ} (hi : Visited s i) :
    q.lane i = [] ∨ ∃ x, popped = some x ∧ priorityOf s x = i := by
  cases hpopped : popped with
  | none => exact .inl (hpops.none_left hpopped i hi.1)
  | some x =>
      obtain ⟨hcan, -, hleft⟩ := hpops.found_best hprio x hpopped
      rcases Nat.lt_trichotomy i (priorityOf s x) with hlt | heq | hgt
      · exact .inl (hleft i hlt)
      · exact .inr ⟨x, rfl, heq.symm⟩
      · -- the thread found stands at a better level than a visited one
        have hlane := hpops.lane_eq hprio (priorityOf s x)
        have hmem : x ∈ s.readyQueue.lane (priorityOf s x) := by
          rw [hlane, hpopped]
          simp [ofLevel]
        rw [hi.2 _ hgt x hmem] at hcan
        cases hcan

/-- The choice is right in every state. -/
theorem Pops.picks (h : SchedulerInvariant s)
    (hpops : Pops (schedulable s) (levelsBetter s) s.readyQueue parked popped q) :
    Picks s (popped.or (runningOf s)) := by
  have hprio := h.byPriority
  have hparked := hpops.parked_visited hprio
  -- below what is found, and below the bound when nothing is, every thread has been parked
  have hnone : ∀ u, ReadySchedulable s u →
      (q.lane (priorityOf s u) ≠ [] ∨ ∃ x, popped = some x ∧ priorityOf s x = priorityOf s u) := by
    intro u hu
    obtain ⟨hmem, hcan⟩ := h.readySchedulable_iff.mp hu
    rw [hpops.lane_eq hprio, List.mem_append, List.mem_append] at hmem
    rcases hmem with (hmem | hmem) | hmem
    · have hin := (List.mem_filter.mp hmem).1
      rw [(hparked u hin).1] at hcan
      cases hcan
    · have hin := (List.mem_filter.mp hmem).1
      exact .inr ⟨u, by simpa using hin, rfl⟩
    · left
      intro heq
      rw [heq] at hmem
      cases hmem
  cases hpopped : popped with
  | some x =>
      obtain ⟨hcan, hlt, hleft⟩ := hpops.found_best hprio x hpopped
      have hlane := hpops.lane_eq hprio (priorityOf s x)
      have hx : ofLevel (priorityOf s) (priorityOf s x) popped.toList = [x] := by
        simp [hpopped, ofLevel]
      rw [hx, List.append_assoc] at hlane
      have hready : ReadySchedulable s x :=
        h.readySchedulable_iff.mpr ⟨by rw [hlane]; simp, hcan⟩
      refine .best x _ _ hlane ?_ hready ?_ ?_
      · intro u hu hru
        have hin := (List.mem_filter.mp hu).1
        have hcanu := (h.readySchedulable_iff.mp hru).2
        rw [(hparked u hin).1] at hcanu
        cases hcanu
      · intro u hu
        by_contra hbetter
        rcases hnone u hu with hne | ⟨y, hy, hyu⟩
        · exact hne (hleft _ (by omega))
        · rw [hpopped] at hy
          cases hy
          omega
      · intro r hr
        have hbound : levelsBetter s = priorityOf s r := by
          unfold levelsBetter
          rw [hr]
        rw [← hbound]
        exact hlt
  | none =>
      have hempty := hpops.none_left hpopped
      have hout : ∀ u, ReadySchedulable s u → levelsBetter s ≤ priorityOf s u := by
        intro u hu
        by_contra hbetter
        rcases hnone u hu with hne | ⟨y, hy, -⟩
        · exact hne (hempty _ (by omega))
        · rw [hpopped] at hy
          cases hy
      rw [Option.none_or]
      cases hr : runningOf s with
      | some r =>
          have hbound : levelsBetter s = priorityOf s r := by
            unfold levelsBetter
            rw [hr]
          refine .keep r hr ?_
          rw [← hbound]
          exact hout
      | none =>
          refine .idle hr ?_
          intro u hu
          have hbound : levelsBetter s = ThreadPrioLowest + 1 := by
            unfold levelsBetter
            rw [hr]
          obtain ⟨ls, hlinked, hprios⟩ := h.linked
          obtain ⟨th, hth, -⟩ := id hu
          have hlt := hlinked.bound _ (hprios u th hth).1
          have hle := hout u hu
          rw [hbound, priorityOf_eq hth] at hle
          omega

/-- At a level that the search comes to, the threads parked are the head of its lane. -/
theorem headKeepsPlace_iff {can : ℕ → Bool} {pre found rest : List ℕ}
    (hpre : ∀ u ∈ pre, can u = false)
    (hfound : found = [] ∧ rest = [] ∨ ∃ x, found = [x] ∧ can x = true) :
    HeadKeepsPlace can (pre ++ found ++ rest) ↔ pre = [] ∨ pre.length = 1 ∧ rest = [] := by
  have hall : ∀ u ∈ pre, (!can u) = true := by
    intro u hu
    rw [hpre u hu]
    rfl
  have hhead : (pre ++ found ++ rest).takeWhile (fun u => !can u) = pre := by
    rw [List.append_assoc, List.takeWhile_append_of_pos hall]
    rcases hfound with ⟨rfl, rfl⟩ | ⟨x, rfl, hx⟩
    · simp
    · simp [hx]
  unfold HeadKeepsPlace
  rw [hhead]
  simp only [List.length_append]
  rcases hfound with ⟨rfl, rfl⟩ | ⟨x, rfl, hx⟩
  · simp only [List.length_nil, and_true]
    constructor
    · rintro (hnil | ⟨hlen, -⟩)
      · exact .inl hnil
      · exact .inr hlen
    · rintro (hnil | hlen)
      · exact .inl hnil
      · exact .inr ⟨hlen, by omega⟩
  · simp only [List.length_singleton]
    constructor
    · rintro (hnil | ⟨hlen, htwo⟩)
      · exact .inl hnil
      · exact .inr ⟨hlen, List.length_eq_zero_iff.mp (by omega)⟩
    · rintro (hnil | ⟨hlen, rfl⟩)
      · exact .inl hnil
      · exact .inr ⟨hlen, by simp [hlen]⟩

/-- `PopNextReadyThread` chooses the right thread and keeps the order of all others exactly when
at every level it comes to, the unschedulable head of the lane keeps its place.
SOURCE: thread.cpp:172-203 -/
theorem popNextReadyThread_inOrder_iff (h : SchedulerInvariant s) :
    PicksInOrder s ↔
      ∀ p, Visited s p → HeadKeepsPlace (schedulable s) (s.readyQueue.lane p) := by
  obtain ⟨parked, popped, q, q', ls, hrun, hpops, hq', -, hlane'⟩ := popNextReadyThread_ok h
  have hprio := h.byPriority
  have hparked := hpops.parked_visited hprio
  let next := popped.or (runningOf s)
  let pre := fun i => ofLevel (priorityOf s) i parked
  let found := fun i => ofLevel (priorityOf s) i popped.toList
  have hlane : ∀ i, s.readyQueue.lane i = pre i ++ found i ++ q.lane i := hpops.lane_eq hprio
  have hnodup : ∀ i, (pre i ++ found i ++ q.lane i).Nodup := by
    intro i
    rw [← hlane i]
    exact h.files.nodup
  have hfound : ∀ i, ∀ a ∈ found i, some a = next := by
    intro i a ha
    have hin : a ∈ popped.toList := (List.mem_filter.mp ha).1
    have hpopped : popped = some a := by simpa using hin
    simp [next, hpopped]
  -- nothing but what has been found is the next thread
  have hothers : ∀ i, ∀ a ∈ pre i ++ q.lane i, some a ≠ next := by
    intro i a ha heq
    cases hpopped : popped with
    | none =>
        have hr : runningOf s = some a := by simpa [next, hpopped] using heq.symm
        refine h.running_not_queued hr (i := i) ?_
        rw [hlane i]
        simp only [List.mem_append] at ha ⊢
        tauto
    | some x =>
        have hax : a = x := by simpa [next, hpopped] using heq
        subst hax
        have hmem : a ∈ s.readyQueue.lane i := by
          rw [hlane i]
          simp only [List.mem_append] at ha ⊢
          tauto
        have hfa : found i = [a] := by simp [found, ofLevel, hpopped, hprio i a hmem]
        have hdup := hnodup i
        rw [hfa, List.append_assoc, List.nodup_append] at hdup
        obtain ⟨-, hcons, hdisj⟩ := hdup
        rcases List.mem_append.mp ha with ha | ha
        · exact hdisj a ha a (by simp) rfl
        · exact (List.nodup_cons.mp hcons).1 ha
  have hkeeps : ∀ i, KeepsOrder next (s.readyQueue.lane i) (q'.lane i) ↔
      pre i = [] ∨ (pre i).length = 1 ∧ q.lane i = [] := by
    intro i
    rw [hlane i, hlane' i]
    exact keepsOrder_iff (hnodup i) (hfound i) (hothers i)
  have hpreCan : ∀ i, ∀ u ∈ pre i, schedulable s u = false :=
    fun i u hu => (hparked u (List.mem_filter.mp hu).1).1
  have hvisited : ∀ i, Visited s i →
      (HeadKeepsPlace (schedulable s) (s.readyQueue.lane i) ↔
        KeepsOrder next (s.readyQueue.lane i) (q'.lane i)) := by
    intro i hi
    rw [hkeeps i, hlane i]
    refine headKeepsPlace_iff (hpreCan i) ?_
    cases hpopped : popped with
    | none => exact .inl ⟨by simp [found, ofLevel, hpopped], hpops.none_left hpopped i hi.1⟩
    | some x =>
        by_cases hx : priorityOf s x = i
        · exact .inr ⟨x, by simp [found, ofLevel, hpopped, hx],
            (hpops.found_best hprio x hpopped).1⟩
        · left
          refine ⟨by simp [found, ofLevel, hpopped, hx], ?_⟩
          rcases hpops.left_of_visited hprio hi with hnil | ⟨y, hy, hyi⟩
          · exact hnil
          · rw [hpopped] at hy
            cases hy
            exact absurd hyi hx
  constructor
  · rintro ⟨next', s', hrun', -, horder⟩ p hp
    rw [hrun] at hrun'
    cases hrun'
    exact (hvisited p hp).mpr (horder p)
  · intro hcond
    refine ⟨next, _, hrun, hpops.picks h, ?_⟩
    intro p
    by_cases hp : Visited s p
    · exact (hvisited p hp).mp (hcond p hp)
    · -- nothing has been parked of a level that the search has not come to
      refine (hkeeps p).mpr (.inl ?_)
      refine List.eq_nil_iff_forall_not_mem.mpr ?_
      intro u hu
      obtain ⟨hin, hup⟩ := List.mem_filter.mp hu
      obtain ⟨-, hlt, hbetter⟩ := hparked u hin
      have hup : priorityOf s u = p := by simpa using hup
      rw [hup] at hlt hbetter
      exact hp ⟨hlt, hbetter⟩

/-! ## Two threads that change places -/

/-- Two threads of one priority are ready, and may not be scheduled any more when a third one, which
has forbidden it, goes to sleep. -/
def parkingCalls : List ManagerCall :=
  [.createThread 1 40 0 true true 0 7 true, .createThread 2 40 0 true true 0 7 true,
    .createThread 3 30 0 true true 0 7 true, .reschedule false 0 0,
    .scheduleThreadsWithoutTlsMagic 7 1 fun _ => false, .waitCurrentThreadSleep]

/-- The theorem, in the state after these calls. -/
theorem popNextReadyThread_inOrder_iff_parkingCalls :
    ∃ s, run ManagerCall.step {} parkingCalls = .ok s ∧ (PicksInOrder s ↔
      ∀ p, Visited s p → HeadKeepsPlace (schedulable s) (s.readyQueue.lane p)) := by
  have hruns : (run ManagerCall.step {} parkingCalls).toOption.isSome := by decide +kernel
  obtain ⟨s, hs⟩ := Option.isSome_iff_exists.mp hruns
  have hrun := eq_ok_of_toOption hs
  exact ⟨s, hrun, popNextReadyThread_inOrder_iff (schedulerInvariant_reachable ⟨_, hrun⟩)⟩

/-- There is no thread to choose, and the two come back in the other order. -/
theorem popNextReadyThread_reversed :
    ∃ s, run ManagerCall.step {} parkingCalls = .ok s ∧ SchedulerInvariant s ∧
      ¬ PicksInOrder s := by
  have hruns : ((run ManagerCall.step {} parkingCalls).bind fun s =>
      (popNextReadyThread s).map fun r =>
        (r.1, s.readyQueue.lane 40, r.2.readyQueue.lane 40)).toOption =
      some (none, [1, 2], [2, 1]) := by decide +kernel
  obtain ⟨s, hs, hpop⟩ := bind_eq_ok.mp (eq_ok_of_toOption hruns)
  refine ⟨s, hs, schedulerInvariant_reachable ⟨_, hs⟩, ?_⟩
  rintro ⟨next, s', hrun, -, horder⟩
  rw [hrun] at hpop
  simp only [Except.map, Except.ok.injEq, Prod.mk.injEq] at hpop
  obtain ⟨rfl, hlane, hlane'⟩ := hpop
  have hkept := (horder 40).2 1 2 (by simp) (by simp) (by rw [hlane])
  rw [hlane'] at hkept
  exact absurd hkept (by decide)

end Promise

end Borked3DS.Analysis
