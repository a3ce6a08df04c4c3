import Mathlib.Algebra.Order.Ring.Nat
import Mathlib.Data.List.Pairwise
import Mathlib.Data.Set.Card
import Mathlib.Order.CompletePartialOrder
import Mathlib.Order.Interval.Finset.Nat
import Mathlib.Order.Interval.Set.Disjoint
import Mathlib.Tactic.Common

/-!
# Interval sets

A set of natural numbers kept as right-open intervals that are joined when they touch. The
operations are a class, and what they promise is a second one: the intervals are listed in
ascending order with gaps between them, and each operation acts on the elements as its name
says. `IntervalList` is the implementation by the list of intervals itself.
-/

set_option autoImplicit false

namespace Borked3DS.Library

/-- The operations of an interval set. An interval `(lo, hi)` stands for `[lo, hi)`, and is empty
when `hi ≤ lo`. -/
class IntervalSet (S : Type) where
  empty : S
  /-- The intervals in iteration order. -/
  intervals : S → List (ℕ × ℕ)
  add : S → ℕ × ℕ → S
  sub : S → ℕ × ℕ → S
  /-- Take the elements of the second set out of the first. -/
  subSet : S → S → S
  contains : S → ℕ × ℕ → Bool
  intersects : S → ℕ × ℕ → Bool

namespace IntervalSet

/-- The intervals are not empty, ascend, and do not touch. -/
structure Canonical (l : List (ℕ × ℕ)) : Prop where
  nonempty : ∀ i ∈ l, i.1 < i.2
  gaps : l.Pairwise fun i j => i.2 < j.1

/-- The elements of a list of intervals. -/
def elements (l : List (ℕ × ℕ)) : Set ℕ := { x | ∃ i ∈ l, i.1 ≤ x ∧ x < i.2 }

/-- The summed length of a list of intervals. -/
def length (l : List (ℕ × ℕ)) : ℕ := (l.map fun i => i.2 - i.1).sum

variable {S : Type} [IntervalSet S]

/-- The elements of an interval set. -/
def toSet (s : S) : Set ℕ := elements (intervals s)

/-- The total length of an interval set. -/
def total (s : S) : ℕ := length (intervals s)

end IntervalSet

open IntervalSet in
/-- What the operations of an interval set promise. -/
class LawfulIntervalSet (S : Type) [IntervalSet S] : Prop where
  canonical : ∀ s : S, Canonical (intervals s)
  toSet_empty : toSet (empty : S) = ∅
  toSet_add : ∀ (s : S) i, toSet (add s i) = toSet s ∪ Set.Ico i.1 i.2
  toSet_sub : ∀ (s : S) i, toSet (sub s i) = toSet s \ Set.Ico i.1 i.2
  toSet_subSet : ∀ s t : S, toSet (subSet s t) = toSet s \ toSet t
  contains_iff : ∀ (s : S) i, contains s i = true ↔ Set.Ico i.1 i.2 ⊆ toSet s
  intersects_iff : ∀ (s : S) i, intersects s i = true ↔ (toSet s ∩ Set.Ico i.1 i.2).Nonempty

namespace IntervalSet

section Elements

variable {i : ℕ × ℕ} {l : List (ℕ × ℕ)} {x : ℕ}

theorem mem_elements : x ∈ elements l ↔ ∃ i ∈ l, i.1 ≤ x ∧ x < i.2 := Iff.rfl

theorem elements_nil : elements [] = ∅ := by
  ext x
  simp [elements]

theorem elements_cons : elements (i :: l) = Set.Ico i.1 i.2 ∪ elements l := by
  ext x
  simp [elements]

theorem elements_append (l₁ l₂ : List (ℕ × ℕ)) :
    elements (l₁ ++ l₂) = elements l₁ ∪ elements l₂ := by
  ext x
  simp [elements, or_and_right, exists_or]

theorem finite_elements (l : List (ℕ × ℕ)) : (elements l).Finite := by
  induction l with
  | nil => rw [elements_nil]; exact Set.finite_empty
  | cons i l ih => rw [elements_cons]; exact (Set.finite_Ico _ _).union ih

theorem Canonical.tail (h : Canonical (i :: l)) : Canonical l :=
  ⟨fun j hj => h.nonempty j (List.mem_cons_of_mem i hj), h.gaps.tail⟩

theorem canonical_cons : Canonical (i :: l) ↔
    i.1 < i.2 ∧ (∀ j ∈ l, i.2 < j.1) ∧ Canonical l := by
  constructor
  · intro h
    exact ⟨h.nonempty i (by simp), (List.pairwise_cons.mp h.gaps).1, h.tail⟩
  · rintro ⟨hi, hgap, hl⟩
    refine ⟨?_, List.pairwise_cons.mpr ⟨hgap, hl.gaps⟩⟩
    intro j hj
    rcases List.mem_cons.mp hj with rfl | hj
    · exact hi
    · exact hl.nonempty j hj

/-- The elements behind the first interval lie past it. -/
theorem Canonical.lt_of_mem (h : Canonical (i :: l)) (hx : x ∈ elements l) : i.2 < x := by
  obtain ⟨j, hj, hlo, -⟩ := hx
  have := (canonical_cons.mp h).2.1 j hj
  omega

theorem ncard_Ico (lo hi : ℕ) : (Set.Ico lo hi).ncard = hi - lo := by
  rw [← Finset.coe_Ico, Set.ncard_coe_finset, Nat.card_Ico]

/-- The summed length of separate intervals counts their elements. -/
theorem length_eq_ncard (h : Canonical l) : length l = (elements l).ncard := by
  induction l with
  | nil => simp [length, elements_nil]
  | cons i l ih =>
      have hdisj : Disjoint (Set.Ico i.1 i.2) (elements l) := by
        rw [Set.disjoint_left]
        intro x hx hxl
        have := h.lt_of_mem hxl
        have := hx.2
        omega
      rw [elements_cons, Set.ncard_union_eq hdisj (Set.finite_Ico _ _) (finite_elements l),
        ncard_Ico, ← ih h.tail]
      simp [length]

/-- A run of consecutive elements lies in one interval. -/
theorem exists_interval (h : Canonical l) {lo hi : ℕ} (hlt : lo < hi)
    (hsub : Set.Ico lo hi ⊆ elements l) : ∃ i ∈ l, i.1 ≤ lo ∧ hi ≤ i.2 := by
  induction l with
  | nil =>
      have hlo := hsub (Set.left_mem_Ico.mpr hlt)
      rw [elements_nil] at hlo
      exact absurd hlo (Set.notMem_empty lo)
  | cons i l ih =>
      rw [elements_cons] at hsub
      rcases hsub (Set.left_mem_Ico.mpr hlt) with hlo | hlo
      · refine ⟨i, by simp, hlo.1, ?_⟩
        by_contra hend
        -- the end of the interval would be an element of a later one, across a gap
        have hmem : i.2 ∈ Set.Ico lo hi := ⟨hlo.2.le, by omega⟩
        rcases hsub hmem with hin | hin
        · exact absurd hin.2 (lt_irrefl _)
        · exact absurd (h.lt_of_mem hin) (lt_irrefl _)
      · have hfirst := h.lt_of_mem hlo
        have hrest : Set.Ico lo hi ⊆ elements l := by
          intro x hx
          rcases hsub hx with hin | hin
          · have := hin.2
            have := hx.1
            omega
          · exact hin
        obtain ⟨j, hj, hle, hge⟩ := ih h.tail hrest
        exact ⟨j, List.mem_cons_of_mem i hj, hle, hge⟩

end Elements

section Lawful

variable {S : Type} [IntervalSet S] [LawfulIntervalSet S]

open LawfulIntervalSet

omit [LawfulIntervalSet S] in
theorem finite_toSet (s : S) : (toSet s).Finite := finite_elements _

theorem total_eq_ncard (s : S) : total s = (toSet s).ncard := length_eq_ncard (canonical s)

/-- Adding an interval of new elements adds its length. -/
theorem total_add (s : S) (lo hi : ℕ) (h : Disjoint (toSet s) (Set.Ico lo hi)) :
    total (add s (lo, hi)) = total s + (hi - lo) := by
  rw [total_eq_ncard, toSet_add, Set.ncard_union_eq h (finite_toSet s) (Set.finite_Ico _ _),
    ncard_Ico, ← total_eq_ncard]

/-- Taking an interval of elements out takes its length off. -/
theorem total_sub (s : S) (lo hi : ℕ) (h : Set.Ico lo hi ⊆ toSet s) :
    total (sub s (lo, hi)) + (hi - lo) = total s := by
  rw [total_eq_ncard, toSet_sub, ← ncard_Ico lo hi,
    Set.ncard_sdiff_add_ncard_of_subset h (finite_toSet s), ← total_eq_ncard]

end Lawful

end IntervalSet

/-! ## The list of intervals itself -/

/-- An interval set as its list of intervals. -/
structure IntervalList where
  intervals : List (ℕ × ℕ)
  canonical : IntervalSet.Canonical intervals

namespace IntervalList

open IntervalSet

/-- Join the interval `i` with those it touches. -/
def join (i : ℕ × ℕ) : List (ℕ × ℕ) → List (ℕ × ℕ)
  | [] => [i]
  | j :: l =>
      if i.2 < j.1 then i :: j :: l
      else if j.2 < i.1 then j :: join i l
      else join (min i.1 j.1, max i.2 j.2) l

/-- What is left of one interval without the elements of another one. -/
def pieces (i j : ℕ × ℕ) : List (ℕ × ℕ) :=
  [(j.1, min j.2 i.1), (max j.1 i.2, j.2)].filter fun k => decide (k.1 < k.2)

/-- Take the elements of `i` out. -/
def remove (i : ℕ × ℕ) (l : List (ℕ × ℕ)) : List (ℕ × ℕ) :=
  if i.1 < i.2 then l.flatMap (pieces i) else l

variable {i j : ℕ × ℕ} {l : List (ℕ × ℕ)}

theorem elements_join (hi : i.1 < i.2) (hl : Canonical l) :
    elements (join i l) = elements l ∪ Set.Ico i.1 i.2 := by
  induction l generalizing i with
  | nil => simp [join, elements_nil, elements_cons]
  | cons j l ih =>
      have hj := (canonical_cons.mp hl).1
      unfold join
      split
      · rw [elements_cons, Set.union_comm]
      · split
        · rw [elements_cons, elements_cons, ih hi hl.tail, Set.union_assoc]
        · have hjoin : Set.Ico (min i.1 j.1) (max i.2 j.2) = Set.Ico i.1 i.2 ∪ Set.Ico j.1 j.2 := by
            ext x
            simp only [Set.mem_union, Set.mem_Ico]
            omega
          rw [ih (by simp only; omega) hl.tail, elements_cons, hjoin, ← Set.union_assoc,
            Set.union_right_comm, Set.union_comm (elements l)]

theorem lt_join {k : ℕ} (hi : k < i.1) (hl : ∀ j ∈ l, k < j.1) : ∀ j ∈ join i l, k < j.1 := by
  induction l generalizing i with
  | nil => simpa [join] using hi
  | cons j l ih =>
      have hj := hl j (by simp)
      have htail : ∀ j ∈ l, k < j.1 := fun a ha => hl a (by simp [ha])
      unfold join
      split
      · simpa using ⟨hi, hj, fun a b hab => htail (a, b) hab⟩
      · split
        · simpa using ⟨hj, fun a b hab => ih hi htail (a, b) hab⟩
        · exact ih (by simp only; omega) htail

theorem canonical_join (hi : i.1 < i.2) (hl : Canonical l) : Canonical (join i l) := by
  induction l generalizing i with
  | nil => exact canonical_cons.mpr ⟨hi, by simp, hl⟩
  | cons j l ih =>
      obtain ⟨hj, hgap, htail⟩ := canonical_cons.mp hl
      unfold join
      split
      next hbefore =>
        refine canonical_cons.mpr ⟨hi, ?_, hl⟩
        intro a ha
        rcases List.mem_cons.mp ha with rfl | ha
        · exact hbefore
        · have := hgap a ha
          omega
      next =>
        split
        next hafter => exact canonical_cons.mpr ⟨hj, lt_join hafter hgap, ih hi htail⟩
        next => exact ih (by simp only; omega) htail

theorem mem_pieces {k : ℕ × ℕ} (h : k ∈ pieces i j) : k.1 < k.2 ∧ j.1 ≤ k.1 ∧ k.2 ≤ j.2 := by
  simp only [pieces, List.mem_filter, List.mem_cons, List.not_mem_nil, or_false,
    decide_eq_true_eq] at h
  obtain ⟨rfl | rfl, hlt⟩ := h
  · simp only at hlt ⊢
    omega
  · simp only at hlt ⊢
    omega

theorem elements_pieces (i j : ℕ × ℕ) :
    elements (pieces i j) = Set.Ico j.1 j.2 \ Set.Ico i.1 i.2 := by
  ext x
  simp only [pieces, elements, List.mem_filter, List.mem_cons, List.not_mem_nil, or_false,
    decide_eq_true_eq, Set.mem_ofPred_eq, Set.mem_sdiff, Set.mem_Ico]
  constructor
  · rintro ⟨k, ⟨rfl | rfl, hlt⟩, hlo, hhi⟩
    · simp only at hlo hhi
      omega
    · simp only at hlo hhi
      omega
  · rintro ⟨hin, hout⟩
    by_cases hx : x < i.1
    · exact ⟨_, ⟨.inl rfl, by simp only; omega⟩, by simp only; omega⟩
    · exact ⟨_, ⟨.inr rfl, by simp only; omega⟩, by simp only; omega⟩

theorem elements_remove (i : ℕ × ℕ) (l : List (ℕ × ℕ)) :
    elements (remove i l) = elements l \ Set.Ico i.1 i.2 := by
  unfold remove
  split
  next hi =>
    induction l with
    | nil => simp [elements_nil]
    | cons j l ih =>
        rw [List.flatMap_cons, elements_append, ih, elements_pieces, elements_cons,
          Set.union_sdiff_distrib]
  next hi => rw [Set.Ico_eq_empty hi, Set.sdiff_empty]

theorem canonical_pieces (hi : i.1 < i.2) : Canonical (pieces i j) := by
  constructor
  · intro k hk
    exact (mem_pieces hk).1
  · apply List.Pairwise.filter
    simp only [List.pairwise_cons, List.mem_cons, List.not_mem_nil, or_false, forall_eq,
      List.Pairwise.nil, and_true, IsEmpty.forall_iff, implies_true]
    omega

theorem canonical_remove (i : ℕ × ℕ) (hl : Canonical l) : Canonical (remove i l) := by
  unfold remove
  split
  next hi =>
    induction l with
    | nil => exact hl
    | cons j l ih =>
        obtain ⟨-, hgap, htail⟩ := canonical_cons.mp hl
        have hrest := ih htail
        rw [List.flatMap_cons]
        refine ⟨?_, List.pairwise_append.mpr ⟨(canonical_pieces hi).gaps, hrest.gaps, ?_⟩⟩
        · intro k hk
          rcases List.mem_append.mp hk with hk | hk
          · exact (mem_pieces hk).1
          · exact hrest.nonempty k hk
        · intro a ha b hb
          obtain ⟨c, hc, hbc⟩ := List.mem_flatMap.mp hb
          have := mem_pieces ha
          have := mem_pieces hbc
          have := hgap c hc
          omega
  next => exact hl

theorem canonical_foldl_remove (is : List (ℕ × ℕ)) (hl : Canonical l) :
    Canonical (is.foldl (fun l i => remove i l) l) := by
  induction is generalizing l with
  | nil => exact hl
  | cons i is ih => exact ih (canonical_remove i hl)

theorem elements_foldl_remove (is l : List (ℕ × ℕ)) :
    elements (is.foldl (fun l i => remove i l) l) = elements l \ elements is := by
  induction is generalizing l with
  | nil => simp [elements_nil]
  | cons i is ih => rw [List.foldl_cons, ih, elements_remove, elements_cons, Set.sdiff_sdiff]

instance : IntervalSet IntervalList where
  empty := ⟨[], by simp, List.Pairwise.nil⟩
  intervals := intervals
  add s i := if h : i.1 < i.2 then ⟨join i s.intervals, canonical_join h s.canonical⟩ else s
  sub s i := ⟨remove i s.intervals, canonical_remove i s.canonical⟩
  subSet s t := ⟨_, canonical_foldl_remove t.intervals s.canonical⟩
  contains s i := decide (i.2 ≤ i.1) || s.intervals.any fun j => decide (j.1 ≤ i.1 ∧ i.2 ≤ j.2)
  intersects s i := s.intervals.any fun j => decide (max i.1 j.1 < min i.2 j.2)

theorem toSet_eq (s : IntervalList) : toSet s = elements s.intervals := rfl

instance : LawfulIntervalSet IntervalList where
  canonical s := s.canonical
  toSet_empty := elements_nil
  toSet_add s i := by
    simp only [IntervalSet.add]
    split
    next hi => exact elements_join hi s.canonical
    next hi => rw [Set.Ico_eq_empty hi, Set.union_empty]
  toSet_sub s i := elements_remove i s.intervals
  toSet_subSet s t := elements_foldl_remove t.intervals s.intervals
  contains_iff s i := by
    simp only [IntervalSet.contains, toSet_eq, Bool.or_eq_true, decide_eq_true_eq, List.any_eq_true]
    constructor
    · rintro (hempty | ⟨j, hj, hlo, hhi⟩)
      · rw [Set.Ico_eq_empty (by omega)]
        exact Set.empty_subset _
      · intro x hx
        exact ⟨j, hj, hlo.trans hx.1, lt_of_lt_of_le hx.2 hhi⟩
    · intro hsub
      by_cases hi : i.1 < i.2
      · obtain ⟨j, hj, hlo, hhi⟩ := exists_interval s.canonical hi hsub
        exact .inr ⟨j, hj, hlo, hhi⟩
      · exact .inl (by omega)
  intersects_iff s i := by
    simp only [IntervalSet.intersects, toSet_eq, List.any_eq_true, decide_eq_true_eq]
    constructor
    · rintro ⟨j, hj, hlt⟩
      exact ⟨max i.1 j.1, ⟨j, hj, by omega, by omega⟩, by simp only [Set.mem_Ico]; omega⟩
    · rintro ⟨x, ⟨j, hj, hlo, hhi⟩, hx⟩
      have := hx.1
      have := hx.2
      exact ⟨j, hj, by omega⟩

end IntervalList

end Borked3DS.Library
