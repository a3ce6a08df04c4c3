import Mathlib.Data.List.Basic
import Mathlib.Data.List.Pairwise
import Mathlib.Data.List.Perm.Subperm
import Borked3DS.Interface.Scheduling
import Borked3DS.Library.Triple
import Borked3DS.Model.ThreadQueueList

/-!
# The ready queue

The chain of levels of a thread queue list, and how the scheduler files the ready threads in it.
-/

set_option autoImplicit false

namespace Borked3DS.Analysis

open Borked3DS.Library Borked3DS.Model ThreadQueueList

/-!
## The chain of levels

What the pointers of a thread queue list look like (`Linked`): from `first` they run through the
levels ever used, in ascending order, and every level that holds something is one of them. Under
that invariant each operation is a function of the lanes alone.
-/

variable {T : Type} {N : ℕ}

/-- The pointer to the first of some levels, or to what follows when there are none. -/
def ptrTo (ls : List ℕ) (last : QueuePtr) : QueuePtr :=
  match ls with
  | [] => last
  | i :: _ => .level i

/-- The links run through the levels one by one, and then to `last`. -/
def Chained (q : ThreadQueueList T N) (last : QueuePtr) : List ℕ → Prop
  | [] => True
  | i :: ls => (q.queues i).nextNonempty = ptrTo ls last ∧ Chained q last ls

/-- The chain of `q` runs through the levels `ls` and all others are unlinked and empty. -/
structure Linked (q : ThreadQueueList T N) (ls : List ℕ) : Prop where
  first : q.first = ptrTo ls .null
  chained : Chained q .null ls
  sorted : ls.Pairwise (· < ·)
  bound : ∀ i ∈ ls, i < N
  unlinked : ∀ i, i ∉ ls → (q.queues i).nextNonempty = .unlinked
  empty : ∀ i, i ∉ ls → q.lane i = []

section Lanes

variable {q : ThreadQueueList T N} {ls : List ℕ} {i j : ℕ} {data : List T}

theorem lane_setData : (q.setData i data).lane j = if j = i then data else q.lane j := by
  unfold lane setData
  by_cases h : j = i
  · subst h
    simp
  · simp [h]

theorem lane_setNext (next : QueuePtr) : (q.setNext i next).lane j = q.lane j := by
  unfold lane setNext
  by_cases h : j = i
  · subst h
    simp
  · simp [h]

theorem next_setData : ((q.setData i data).queues j).nextNonempty = (q.queues j).nextNonempty := by
  unfold setData
  by_cases h : j = i
  · subst h
    simp
  · simp [h]

theorem next_setNext (next : QueuePtr) :
    ((q.setNext i next).queues j).nextNonempty =
      if j = i then next else (q.queues j).nextNonempty := by
  unfold setNext
  by_cases h : j = i
  · subst h
    simp
  · simp [h]

/-- The chain reads nothing but the links of its own levels. -/
theorem Chained.congr {q' : ThreadQueueList T N} {last : QueuePtr}
    (h : ∀ i ∈ ls, (q'.queues i).nextNonempty = (q.queues i).nextNonempty) :
    Chained q' last ls ↔ Chained q last ls := by
  induction ls with
  | nil => exact Iff.rfl
  | cons i ls ih =>
      unfold Chained
      rw [h i (by simp), ih fun j hj => h j (by simp [hj])]

theorem Linked.setData (h : Linked q ls) (hi : i ∈ ls ∨ data = []) :
    Linked (q.setData i data) ls where
  first := h.first
  chained := (Chained.congr fun _ _ => next_setData).mpr h.chained
  sorted := h.sorted
  bound := h.bound
  unlinked j hj := next_setData.trans (h.unlinked j hj)
  empty j hj := by
    rw [lane_setData]
    split
    next heq =>
      subst heq
      rcases hi with hi | hi
      · exact absurd hi hj
      · exact hi
    next => exact h.empty j hj

theorem ptrTo_append (l r : List ℕ) (last : QueuePtr) :
    ptrTo (l ++ r) last = ptrTo l (ptrTo r last) := by
  cases l with
  | nil => rfl
  | cons i l => rfl

/-- A chain through two runs of levels enters the second one where it leaves the first. -/
theorem chained_append {l r : List ℕ} {last : QueuePtr} :
    Chained q last (l ++ r) ↔ Chained q (ptrTo r last) l ∧ Chained q last r := by
  induction l with
  | nil => simp [Chained]
  | cons i l ih =>
      simp only [List.cons_append, Chained, ptrTo_append, ih]
      tauto

theorem Linked.next_ne (h : Linked q ls) (hi : i ∈ ls) : (q.queues i).nextNonempty ≠ .unlinked := by
  obtain ⟨before, after, rfl⟩ := List.append_of_mem hi
  have hnext := (chained_append.mp h.chained).2.1
  rw [hnext]
  cases after with
  | nil => simp [ptrTo]
  | cons j after => simp [ptrTo]

end Lanes

/-! ### Linking a level -/

section Link

variable {q : ThreadQueueList T N} {i : ℕ}

/-- The nearest linked level below a priority is the last one of those before it. -/
theorem linkedBelow_eq {ls : List ℕ} (h : Linked q ls) {before after : List ℕ}
    (hls : ls = before ++ after) (hbefore : ∀ j ∈ before, j < i) (hafter : ∀ j ∈ after, i ≤ j) :
    q.linkedBelow i = before.getLast? := by
  induction i generalizing before after with
  | zero =>
      cases before with
      | nil => rfl
      | cons j before => exact absurd (hbefore j (by simp)) (Nat.not_lt_zero j)
  | succ i ih =>
      rw [linkedBelow]
      by_cases hi : i ∈ ls
      · rw [if_pos (h.next_ne hi)]
        have hmem : i ∈ before := by
          rw [hls] at hi
          rcases List.mem_append.mp hi with hi | hi
          · exact hi
          · have := hafter i hi
            omega
        -- nothing of `before` stands behind `i`
        obtain ⟨l, r, rfl⟩ := List.append_of_mem hmem
        have hsorted := h.sorted
        rw [hls, List.append_assoc] at hsorted
        have hpair := (List.pairwise_append.mp hsorted).2.1
        cases r with
        | nil => simp
        | cons j r =>
            have := (List.pairwise_cons.mp hpair).1 j (by simp)
            have := hbefore j (by simp)
            omega
      · rw [if_neg (not_not.mpr (h.unlinked i hi))]
        refine ih hls ?_ ?_
        · intro j hj
          have hne : j ≠ i := by
            intro heq
            subst heq
            exact hi (hls ▸ List.mem_append_left after hj)
          have := hbefore j hj
          omega
        · intro j hj
          have := hafter j hj
          omega

/-- `link` enters a level into the chain and leaves all lanes as they are.
SOURCE: thread_queue_list.h:145-158 -/
theorem linked_link {before after : List ℕ} (h : Linked q (before ++ after)) (hiN : i < N)
    (hbefore : ∀ j ∈ before, j < i) (hafter : ∀ j ∈ after, i < j) :
    Linked (q.link i) (before ++ i :: after) ∧ ∀ j, (q.link i).lane j = q.lane j := by
  have hbelow := linkedBelow_eq h rfl hbefore fun j hj => Nat.le_of_lt (hafter j hj)
  have hni : i ∉ before ++ after := by
    intro hmem
    rcases List.mem_append.mp hmem with hmem | hmem
    · exact absurd (hbefore i hmem) (Nat.lt_irrefl _)
    · exact absurd (hafter i hmem) (Nat.lt_irrefl _)
  have hsorted : (before ++ i :: after).Pairwise (· < ·) := by
    obtain ⟨hb, ha, hba⟩ := List.pairwise_append.mp h.sorted
    refine List.pairwise_append.mpr ⟨hb, List.pairwise_cons.mpr ⟨hafter, ha⟩, ?_⟩
    intro a ha b hb
    rcases List.mem_cons.mp hb with rfl | hb
    · exact hbefore a ha
    · exact hba a ha b hb
  have hbound : ∀ j ∈ before ++ i :: after, j < N := by
    intro j hj
    rw [List.mem_append, List.mem_cons] at hj
    rcases hj with hj | rfl | hj
    · exact h.bound j (by simp [hj])
    · exact hiN
    · exact h.bound j (by simp [hj])
  have hold : ∀ j, j ∉ before ++ i :: after → j ≠ i ∧ j ∉ before ++ after := by
    intro j hj
    simp only [List.mem_append, List.mem_cons, not_or] at hj ⊢
    tauto
  obtain ⟨hcb, hca⟩ := chained_append.mp h.chained
  rcases List.eq_nil_or_concat before with rfl | ⟨l, k, rfl⟩
  · -- no level is linked below: the new one becomes the first
    have hlane : ∀ j, (q.link i).lane j = q.lane j := by
      intro j
      rw [link, hbelow]
      exact lane_setNext q.first
    have hnext : ∀ j, ((q.link i).queues j).nextNonempty =
        if j = i then q.first else (q.queues j).nextNonempty := by
      intro j
      rw [link, hbelow]
      exact next_setNext q.first
    refine ⟨⟨by rw [link, hbelow]; rfl, ⟨?_, ?_⟩, hsorted, hbound, ?_, ?_⟩, hlane⟩
    · rw [hnext, if_pos rfl]
      exact h.first
    · refine (Chained.congr fun j hj => ?_).mpr hca
      rw [hnext, if_neg (show j ≠ i from fun heq => hni (heq ▸ hj))]
    · intro j hj
      obtain ⟨hne, hj⟩ := hold j hj
      rw [hnext, if_neg hne]
      exact h.unlinked j hj
    · intro j hj
      rw [hlane]
      exact h.empty j (hold j hj).2
  · simp only [List.concat_eq_append, List.getLast?_concat] at *
    have hki : k ≠ i := by
      intro heq
      exact absurd (hbefore k (by simp)) (heq ▸ Nat.lt_irrefl _)
    obtain ⟨hcl, hck, -⟩ := chained_append.mp hcb
    have hlane : ∀ j, (q.link i).lane j = q.lane j := by
      intro j
      rw [link, hbelow]
      exact (lane_setNext _).trans (lane_setNext _)
    have hnext : ∀ j, ((q.link i).queues j).nextNonempty =
        if j = k then .level i else if j = i then (q.queues k).nextNonempty
        else (q.queues j).nextNonempty := by
      intro j
      rw [link, hbelow]
      simp only [next_setNext]
    have hkl : k ∉ l := by
      intro hmem
      have hpair := (List.pairwise_append.mp (List.pairwise_append.mp h.sorted).1).2.2
      exact absurd (hpair k hmem k (by simp)) (Nat.lt_irrefl _)
    refine ⟨⟨?_, ?_, hsorted, hbound, ?_, ?_⟩, hlane⟩
    · have hfirst : (q.link i).first = q.first := by
        rw [link, hbelow]
        rfl
      rw [hfirst, h.first, ptrTo_append, ptrTo_append, ptrTo_append, ptrTo_append]
      rfl
    · refine chained_append.mpr ⟨chained_append.mpr ⟨?_, ?_, trivial⟩, ?_, ?_⟩
      · refine (Chained.congr fun j hj => ?_).mpr hcl
        have hjk : j ≠ k := fun heq => hkl (heq ▸ hj)
        have hji : j ≠ i := fun heq => hni (by simp [← heq, hj])
        rw [hnext, if_neg hjk, if_neg hji]
      · rw [hnext, if_pos rfl]
        rfl
      · rw [hnext, if_neg (Ne.symm hki), if_pos rfl]
        exact hck
      · refine (Chained.congr fun j hj => ?_).mpr hca
        have hjk : j ≠ k := by
          intro heq
          have hpair := (List.pairwise_append.mp h.sorted).2.2
          exact absurd (hpair k (by simp) j hj) (heq ▸ Nat.lt_irrefl _)
        have hji : j ≠ i := fun heq => hni (by simp [← heq, hj])
        rw [hnext, if_neg hjk, if_neg hji]
    · intro j hj
      obtain ⟨hne, hj⟩ := hold j hj
      rw [hnext, if_neg fun heq => hj (by simp [heq]), if_neg hne]
      exact h.unlinked j hj
    · intro j hj
      rw [hlane]
      exact h.empty j (hold j hj).2

/-- A level outside a sorted list cuts it in two. -/
theorem sorted_split {ls : List ℕ} (hsorted : ls.Pairwise (· < ·)) (hi : i ∉ ls) :
    ∃ before after, ls = before ++ after ∧ (∀ j ∈ before, j < i) ∧ ∀ j ∈ after, i < j := by
  induction ls with
  | nil => exact ⟨[], [], rfl, by simp, by simp⟩
  | cons k ls ih =>
      rw [List.mem_cons, not_or] at hi
      obtain ⟨hk, hls⟩ := List.pairwise_cons.mp hsorted
      by_cases hki : k < i
      · obtain ⟨before, after, heq, hbefore, hafter⟩ := ih hls hi.2
        refine ⟨k :: before, after, by rw [heq, List.cons_append], ?_, hafter⟩
        intro j hj
        rcases List.mem_cons.mp hj with rfl | hj
        · exact hki
        · exact hbefore j hj
      · have hik : i < k := by omega
        refine ⟨[], k :: ls, rfl, by simp, ?_⟩
        intro j hj
        rcases List.mem_cons.mp hj with rfl | hj
        · exact hik
        · exact Nat.lt_trans hik (hk j hj)

/-- `prepare` adds a level to those that are linked, and leaves all lanes as they are. -/
theorem prepare_levels {ls : List ℕ} (h : Linked q ls) (hiN : i < N) :
    ∃ q' ls', q.prepare i = .ok q' ∧ Linked q' ls' ∧ (∀ j, j ∈ ls' ↔ j = i ∨ j ∈ ls) ∧
      ∀ j, q'.lane j = q.lane j := by
  simp only [prepare, index, hiN, if_true, pure_eq_ok, ok_bind]
  by_cases hi : i ∈ ls
  · rw [if_neg (h.next_ne hi)]
    refine ⟨q, ls, rfl, h, fun j => ⟨Or.inr, ?_⟩, fun j => rfl⟩
    rintro (rfl | hj)
    · exact hi
    · exact hj
  · rw [if_pos (h.unlinked i hi)]
    obtain ⟨before, after, rfl, hbefore, hafter⟩ := sorted_split h.sorted hi
    obtain ⟨hlinked, hlane⟩ := linked_link h hiN hbefore hafter
    refine ⟨_, _, rfl, hlinked, fun j => ?_, hlane⟩
    simp only [List.mem_append, List.mem_cons]
    tauto

/-- `prepare` links a level, keeps those already linked, and leaves all lanes as they are. -/
theorem prepare_ok {ls : List ℕ} (h : Linked q ls) (hiN : i < N) :
    ∃ q' ls', q.prepare i = .ok q' ∧ Linked q' ls' ∧ i ∈ ls' ∧ (∀ j ∈ ls, j ∈ ls') ∧
      ∀ j, q'.lane j = q.lane j := by
  obtain ⟨q', ls', hq', hlinked, hmem, hlane⟩ := prepare_levels h hiN
  exact ⟨q', ls', hq', hlinked, (hmem i).mpr (Or.inl rfl), fun j hj => (hmem j).mpr (Or.inr hj),
    hlane⟩

end Link

/-! ### Taking the first entry -/

section Pop

variable {q : ThreadQueueList T N} {ls : List ℕ}

/-- What taking the first entry of the levels below a bound gives. -/
inductive PopsBelow (q : ThreadQueueList T N) (p : ℕ) : Option T × ThreadQueueList T N → Prop
  | none (hbelow : ∀ j < p, q.lane j = []) : PopsBelow q p (none, q)
  | some (i : ℕ) (x : T) (rest : List T) (hip : i < p) (hlane : q.lane i = x :: rest)
      (hbelow : ∀ j < i, q.lane j = []) : PopsBelow q p (some x, q.setData i rest)

theorem Linked.length_le (h : Linked q ls) : ls.length ≤ N := by
  have hnodup : ls.Nodup := h.sorted.imp fun hlt => Nat.ne_of_lt hlt
  have hsub : ls ⊆ List.range N := fun i hi => List.mem_range.mpr (h.bound i hi)
  simpa using (List.subperm_of_subset hnodup hsub).length_le

/-- Levels before the first of a sorted run are outside it. -/
theorem not_mem_of_lt_head {i j : ℕ} (hsorted : (i :: ls).Pairwise (· < ·)) (hj : j < i) :
    j ∉ i :: ls := by
  intro hmem
  rcases List.mem_cons.mp hmem with rfl | hmem
  · exact Nat.lt_irrefl _ hj
  · exact Nat.lt_asymm hj ((List.pairwise_cons.mp hsorted).1 j hmem)

/-- The scan of `pop_first`, from where nothing but the levels ahead can hold an entry. -/
theorem popFirstFrom_ok {fuel : ℕ} (hfuel : ls.length < fuel) (hchained : Chained q .null ls)
    (hsorted : ls.Pairwise (· < ·)) (hbound : ∀ i ∈ ls, i < N)
    (hempty : ∀ j, j ∉ ls → q.lane j = []) :
    ∃ r, q.popFirstFrom fuel (ptrTo ls .null) = .ok r ∧ PopsBelow q N r := by
  induction ls generalizing fuel with
  | nil =>
      cases fuel with
      | zero => exact absurd hfuel (Nat.not_lt_zero _)
      | succ fuel => exact ⟨_, rfl, .none fun j _ => hempty j (by simp)⟩
  | cons i ls ih =>
      cases fuel with
      | zero => exact absurd hfuel (Nat.not_lt_zero _)
      | succ fuel =>
          obtain ⟨hnext, hrest⟩ := hchained
          simp only [ptrTo, popFirstFrom]
          cases hlane : (q.queues i).data with
          | cons x rest =>
              refine ⟨_, rfl, .some i x rest (hbound i (by simp)) hlane ?_⟩
              intro j hj
              exact hempty j (not_mem_of_lt_head hsorted hj)
          | nil =>
              simp only [hnext]
              apply ih (by simpa using hfuel) hrest (List.pairwise_cons.mp hsorted).2
              · intro j hj
                exact hbound j (by simp [hj])
              · intro j hj
                by_cases hji : j = i
                · subst hji
                  exact hlane
                · exact hempty j (by simp [hji, hj])

/-- `pop_first` takes the first entry of all.
SOURCE: thread_queue_list.h:56-67 -/
theorem popFirst_ok (h : Linked q ls) : ∃ r, q.popFirst = .ok r ∧ PopsBelow q N r := by
  unfold popFirst
  rw [h.first]
  exact popFirstFrom_ok (Nat.lt_succ_of_le h.length_le) h.chained h.sorted h.bound h.empty

/-- The scan of `pop_first_better`, which the level it stops at keeps from running off. -/
theorem popFirstBetterFrom_ok {fuel p : ℕ} (hp : p ∈ ls) (hfuel : ls.length < fuel)
    (hchained : Chained q .null ls) (hsorted : ls.Pairwise (· < ·))
    (hempty : ∀ j, j ∉ ls → q.lane j = []) :
    ∃ r, q.popFirstBetterFrom p fuel (ptrTo ls .null) = .ok r ∧ PopsBelow q p r := by
  induction ls generalizing fuel with
  | nil => exact absurd hp (by simp)
  | cons i ls ih =>
      cases fuel with
      | zero => exact absurd hfuel (Nat.not_lt_zero _)
      | succ fuel =>
          obtain ⟨hnext, hrest⟩ := hchained
          have hbefore : ∀ j < i, q.lane j = [] :=
            fun j hj => hempty j (not_mem_of_lt_head hsorted hj)
          simp only [ptrTo, popFirstBetterFrom]
          by_cases hip : i < p
          · rw [if_pos hip]
            cases hlane : (q.queues i).data with
            | cons x rest => exact ⟨_, rfl, .some i x rest hip hlane hbefore⟩
            | nil =>
                simp only [hnext]
                have hpls : p ∈ ls := by
                  rcases List.mem_cons.mp hp with rfl | hp
                  · exact absurd hip (Nat.lt_irrefl _)
                  · exact hp
                apply ih hpls (by simpa using hfuel) hrest (List.pairwise_cons.mp hsorted).2
                intro j hj
                by_cases hji : j = i
                · subst hji
                  exact hlane
                · exact hempty j (by simp [hji, hj])
          · rw [if_neg hip]
            refine ⟨_, rfl, .none fun j hj => hbefore j ?_⟩
            omega

/-- `pop_first_better` takes the first entry that is better than a linked level.
SOURCE: thread_queue_list.h:69-82 -/
theorem popFirstBetter_ok {p : ℕ} (h : Linked q ls) (hp : p ∈ ls) :
    ∃ r, q.popFirstBetter p = .ok r ∧ PopsBelow q p r := by
  unfold popFirstBetter index
  rw [if_pos (h.bound p hp), h.first]
  exact popFirstBetterFrom_ok hp (Nat.lt_succ_of_le h.length_le) h.chained h.sorted h.empty

end Pop

end Borked3DS.Analysis

/-!
## The invariant of the scheduler

The ready queue files the ready threads (`Files`), its chain runs through the levels of all
priorities in use, nothing is parked, and only the current thread runs. How each operation of the
queue changes what it files, and what the small accesses of the model return.
-/

namespace Borked3DS.Analysis

open Borked3DS.Library Borked3DS.Model Borked3DS.Interface ThreadQueueList

/-- The level a thread is filed at: its priority, if it is ready. -/
def readyLevel (threads : ℕ → Option Thread) (t : ℕ) : Option ℕ :=
  match threads t with
  | some th => if th.status = .ready then some th.currentPriority else none
  | none => none

/-- A queue holds each thread exactly once, at the level given for it, if there is one. -/
def Files (q : ReadyQueue) (level : ℕ → Option ℕ) : Prop :=
  ∀ t p, (q.lane p).count t = if level t = some p then 1 else 0

/-- The levels of all priorities in use are linked. -/
def PrioritiesLinked (threads : ℕ → Option Thread) (ls : List ℕ) : Prop :=
  ∀ t th, threads t = some th → th.currentPriority ∈ ls ∧ th.nominalPriority ∈ ls

/-- What holds of a thread manager between any two calls. -/
structure SchedulerInvariant (s : ThreadManager) : Prop where
  linked : ∃ ls, Linked s.readyQueue ls ∧ PrioritiesLinked s.threads ls
  files : Files s.readyQueue (readyLevel s.threads)
  running : ∀ t th, s.threads t = some th → th.status = .running → s.currentThread = some t
  current : ∀ t, s.currentThread = some t → (s.threads t).isSome
  parked : s.unscheduledReadyQueue = []

section Files

variable {q : ReadyQueue} {level : ℕ → Option ℕ} {t p : ℕ}

theorem Files.mem_iff (h : Files q level) : t ∈ q.lane p ↔ level t = some p := by
  rw [← List.count_pos_iff, h t p]
  by_cases hlevel : level t = some p
  · simp [hlevel]
  · simp [hlevel]

theorem Files.nodup (h : Files q level) : (q.lane p).Nodup := by
  rw [List.nodup_iff_count]
  intro t
  rw [h t p]
  split
  next => exact Nat.le_refl 1
  next => exact Nat.zero_le 1

theorem Files.congr {q' : ReadyQueue} (h : Files q level) (hlane : ∀ i, q'.lane i = q.lane i) :
    Files q' level := by
  intro t p
  rw [hlane p]
  exact h t p

/-- A thread that is filed nowhere enters a lane, at either end. -/
theorem Files.insert {data : List ℕ} (h : Files q level) (hnone : level t = none)
    (hdata : ∀ u, data.count u = (q.lane p).count u + if u = t then 1 else 0) :
    Files (q.setData p data) (Function.update level t (some p)) := by
  intro u j
  rw [lane_setData]
  by_cases hu : u = t
  · subst hu
    by_cases hj : j = p
    · subst hj
      simp [hdata, h u j, hnone]
    · have hne : p ≠ j := fun heq => hj heq.symm
      simp [hj, hne, h u j, hnone]
  · by_cases hj : j = p
    · subst hj
      simp [hdata, hu, h u j]
    · simp [hj, hu, h u j]

/-- A thread leaves the one lane it can be in. -/
theorem Files.remove (h : Files q level) (hlevel : ∀ j, level t = some j → j = p) :
    Files (q.setData p ((q.lane p).filter fun y => decide (y ≠ t)))
      (Function.update level t none) := by
  intro u j
  rw [lane_setData]
  by_cases hu : u = t
  · subst hu
    by_cases hj : j = p
    · subst hj
      simp [List.count_eq_zero]
    · have hne : level u ≠ some j := fun heq => hj (hlevel j heq)
      simp [hj, h u j, hne]
  · by_cases hj : j = p
    · subst hj
      have hcount : ((q.lane j).filter fun y => decide (y ≠ t)).count u = (q.lane j).count u := by
        apply List.count_filter
        simpa using hu
      simp only [if_true, hcount, h u j, Function.update_of_ne hu]
    · simp [hj, hu, h u j]

end Files

section Accesses

variable {s s' : ThreadManager} {t : ℕ} {th : Thread}

theorem getThread_eq_ok : getThread t s = .ok (th, s') ↔ s.threads t = some th ∧ s' = s := by
  unfold getThread undefined
  cases h : s.threads t with
  | none =>
      constructor
      · intro hrun
        obtain ⟨s₁, s₂, hget, hrun⟩ := stateT_bind_eq_ok.mp hrun
        cases hget
        rw [h] at hrun
        cases hrun
      · rintro ⟨h, -⟩
        cases h
  | some x =>
      constructor
      · intro hrun
        obtain ⟨s₁, s₂, hget, hrun⟩ := stateT_bind_eq_ok.mp hrun
        cases hget
        rw [h] at hrun
        cases hrun
        exact ⟨rfl, rfl⟩
      · rintro ⟨hx, rfl⟩
        cases hx
        refine stateT_bind_eq_ok.mpr ⟨s', s', rfl, ?_⟩
        rw [h]
        rfl

theorem modifyThread_eq_ok {f : Thread → Thread} {u : PUnit} :
    modifyThread t f s = .ok (u, s') ↔ ∃ th, s.threads t = some th ∧
      s' = { s with threads := Function.update s.threads t (some (f th)) } := by
  unfold modifyThread
  constructor
  · intro hrun
    obtain ⟨th, s₁, hget, hmodify⟩ := stateT_bind_eq_ok.mp hrun
    obtain ⟨hth, hs₁⟩ := getThread_eq_ok.mp hget
    subst hs₁
    exact ⟨th, hth, (Prod.mk.inj (Except.ok.inj hmodify)).2.symm⟩
  · rintro ⟨th, hth, rfl⟩
    exact stateT_bind_eq_ok.mpr ⟨th, s, getThread_eq_ok.mpr ⟨hth, rfl⟩, rfl⟩

theorem modifyQueue_eq_ok {f : ReadyQueue → Exec ReadyQueue} {u : PUnit} :
    modifyQueue f s = .ok (u, s') ↔
      ∃ q, f s.readyQueue = .ok q ∧ s' = { s with readyQueue := q } := by
  unfold modifyQueue
  constructor
  · intro hrun
    obtain ⟨s₁, s₂, hget, hrun⟩ := stateT_bind_eq_ok.mp hrun
    cases hget
    obtain ⟨q, s₃, hq, hrun⟩ := stateT_bind_eq_ok.mp hrun
    obtain ⟨q', hf, hpure⟩ := bind_eq_ok.mp hq
    cases hpure
    cases hrun
    exact ⟨q, hf, rfl⟩
  · rintro ⟨q, hf, rfl⟩
    refine stateT_bind_eq_ok.mpr ⟨s, s, rfl, ?_⟩
    refine stateT_bind_eq_ok.mpr ⟨q, s, ?_, rfl⟩
    exact bind_eq_ok.mpr ⟨q, hf, rfl⟩

theorem ensure_eq_ok {c : Bool} {site : AssertSite} {u : Unit} :
    ensure c site s = .ok (u, s') ↔ c = true ∧ s' = s := by
  unfold ensure
  constructor
  · intro hrun
    obtain ⟨u', hassert, hpure⟩ := bind_eq_ok.mp hrun
    cases hpure
    exact ⟨assert_eq_ok.mp hassert, rfl⟩
  · rintro ⟨hc, rfl⟩
    exact bind_eq_ok.mpr ⟨(), assert_eq_ok.mpr hc, rfl⟩

end Accesses

section Queue

variable {q q' : ReadyQueue} {t i j : ℕ}

theorem pushBack_eq_ok :
    q.pushBack i t = .ok q' ↔ i < ThreadPrioLowest + 1 ∧ q' = q.setData i (q.lane i ++ [t]) := by
  unfold pushBack index
  by_cases hi : i < ThreadPrioLowest + 1
  · simp [hi, lane, eq_comm]
  · simp [hi]

theorem pushFront_eq_ok :
    q.pushFront i t = .ok q' ↔ i < ThreadPrioLowest + 1 ∧ q' = q.setData i (t :: q.lane i) := by
  unfold pushFront index
  by_cases hi : i < ThreadPrioLowest + 1
  · simp [hi, lane, eq_comm]
  · simp [hi]

theorem remove_eq_ok :
    q.remove i t = .ok q' ↔
      i < ThreadPrioLowest + 1 ∧
        q' = q.setData i ((q.lane i).filter fun y => decide (y ≠ t)) := by
  unfold ThreadQueueList.remove index
  by_cases hi : i < ThreadPrioLowest + 1
  · simp [hi, lane, eq_comm]
  · simp [hi]

theorem prepare_lt (h : q.prepare i = .ok q') : i < ThreadPrioLowest + 1 := by
  unfold prepare index at h
  by_cases hi : i < ThreadPrioLowest + 1
  · exact hi
  · rw [if_neg hi] at h
    cases h

end Queue

end Borked3DS.Analysis
