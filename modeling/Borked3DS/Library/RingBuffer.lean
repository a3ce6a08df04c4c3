import Mathlib.Algebra.Order.Ring.Nat
import Mathlib.Data.List.Basic
import Mathlib.Data.List.Flatten
import Mathlib.Tactic.Common

/-!
# Rings of slots

A queue is kept in `n` slots that are used round and round: its first element is in the slot
`first`, and each of the others in the slot behind, the slot `0` being behind the last one. Elements
are taken off at the front and put on at the back, and as long as there is a free slot no element
that is still in the queue is overwritten.
-/

set_option autoImplicit false

namespace Borked3DS.Library

variable {α : Type*} {n first count k : ℕ} {slots slots' : ℕ → α} {x : α}

/-- The elements of a ring of `n` slots, `count` of them from the slot `first` on. -/
def ringContents (n : ℕ) (slots : ℕ → α) (first count : ℕ) : List α :=
  (List.range count).map fun i => slots ((first + i) % n)

@[simp] theorem ringContents_zero : ringContents n slots first 0 = [] := rfl

@[simp] theorem length_ringContents : (ringContents n slots first count).length = count := by
  simp [ringContents]

theorem getElem?_ringContents (h : k < count) :
    (ringContents n slots first count)[k]? = some (slots ((first + k) % n)) := by
  simp [ringContents, h]

/-- Fewer elements than there are slots lie in different slots. -/
theorem ringSlot_ne (hk : k < count) (hroom : count < n) :
    (first + k) % n ≠ (first + count) % n := by
  intro heq
  have hdvd : n ∣ first + count - (first + k) :=
    Nat.dvd_of_mod_eq_zero (Nat.sub_mod_eq_zero_of_mod_eq heq.symm)
  have hzero := Nat.eq_zero_of_dvd_of_lt hdvd (by omega)
  omega

/-- Slots that hold the same elements make up the same ring. -/
theorem ringContents_congr (h : ∀ i < count, slots' ((first + i) % n) = slots ((first + i) % n)) :
    ringContents n slots' first count = ringContents n slots first count := by
  apply List.map_congr_left
  intro i hi
  exact h i (List.mem_range.mp hi)

/-- An element is put on at the back. -/
theorem ringContents_push (hroom : count < n) (hslot : slots' ((first + count) % n) = x)
    (hkept : ∀ i < n, i ≠ (first + count) % n → slots' i = slots i) :
    ringContents n slots' first (count + 1) = ringContents n slots first count ++ [x] := by
  have hfront : ringContents n slots' first count = ringContents n slots first count := by
    apply ringContents_congr
    intro i hi
    exact hkept _ (Nat.mod_lt _ (by omega)) (ringSlot_ne hi hroom)
  rw [← hfront, ← hslot]
  simp [ringContents, List.range_succ]

/-- An element is taken off at the front. -/
theorem ringContents_pop : ringContents n slots first (count + 1) =
    slots (first % n) :: ringContents n slots ((first + 1) % n) count := by
  unfold ringContents
  rw [List.range_succ_eq_map, List.map_cons, List.map_map, Nat.add_zero]
  apply congrArg
  apply List.map_congr_left
  intro i _
  rw [Function.comp, Nat.mod_add_mod, Nat.succ_eq_add_one, Nat.add_assoc, Nat.add_comm 1 i]

end Borked3DS.Library

/-!
## Blocks in a ring

Blocks of elements lie in a ring of `n` slots one behind the other. As long as they have no more
elements than there are slots, they do not overlap, and each of them is found again from where it
begins and how long it is.
-/

namespace Borked3DS.Library

variable {α : Type*} {n first count a b k : ℕ} {slots slots' : ℕ → α} {x : List α}
  {xs : List (List α)} {p : ℕ × ℕ}

/-! ### Runs of slots -/

theorem ringContents_add : ringContents n slots first (a + b) =
    ringContents n slots first a ++ ringContents n slots (first + a) b := by
  unfold ringContents
  rw [List.range_add, List.map_append, List.map_map]
  apply congrArg
  apply List.map_congr_left
  intro i _
  rw [Function.comp, Nat.add_assoc]

@[simp] theorem ringContents_mod :
    ringContents n slots (first % n) count = ringContents n slots first count := by
  apply List.map_congr_left
  intro i _
  rw [Nat.mod_add_mod]

/-- A block is put on at the back. -/
theorem ringContents_append
    (hkept : ∀ i < count, slots' ((first + i) % n) = slots ((first + i) % n))
    (hslot : ∀ i (h : i < x.length), slots' ((first + count + i) % n) = x[i]) :
    ringContents n slots' first (count + x.length) = ringContents n slots first count ++ x := by
  rw [ringContents_add, ringContents_congr hkept]
  apply congrArg
  apply List.ext_getElem
  · exact length_ringContents
  · intro i _ h
    have helement : (ringContents n slots' (first + count) x.length)[i]? =
        some (slots' ((first + count + i) % n)) := getElem?_ringContents h
    rw [hslot i h] at helement
    exact List.getElem_of_getElem? helement |>.2

/-- A part of a ring is the same part of what the ring holds. -/
theorem ringContents_part (h : ringContents n slots first count = x) (hab : a + b ≤ count) :
    ringContents n slots (first + a) b = (x.drop a).take b := by
  obtain ⟨rest, rfl⟩ := Nat.exists_eq_add_of_le hab
  rw [Nat.add_assoc, ringContents_add, ringContents_add] at h
  rw [← h, List.drop_left' length_ringContents, List.take_left' length_ringContents]

/-- A block is put into the slots from `first` on, and no other slot changes. -/
structure RingWrite (n : ℕ) (slots slots' : ℕ → α) (first : ℕ) (x : List α) : Prop where
  written : ringContents n slots' first x.length = x
  kept : ∀ k, (∀ j < x.length, k ≠ (first + j) % n) → slots' k = slots k

/-- What lies less than a round before a block is kept. -/
theorem RingWrite.ringContents_before {start : ℕ} (h : RingWrite n slots slots' start x)
    (hbefore : first + count ≤ start) (hround : start + x.length ≤ first + n) :
    ringContents n slots' first count = ringContents n slots first count := by
  apply ringContents_congr
  intro i hi
  apply h.kept
  intro j hj
  obtain ⟨gap, rfl⟩ := Nat.exists_eq_add_of_le (show first ≤ start by omega)
  rw [Nat.add_assoc]
  exact ringSlot_ne (by omega) (by omega)

/-! ### Where the blocks are -/

/-- Where blocks that lie one behind the other, from a slot on, begin, and how long they are. -/
def ringLayout (n : ℕ) : ℕ → List (List α) → List (ℕ × ℕ)
  | _, [] => []
  | first, x :: xs => (first % n, x.length) :: ringLayout n (first + x.length) xs

@[simp] theorem length_ringLayout : (ringLayout n first xs).length = xs.length := by
  induction xs generalizing first with
  | nil => rfl
  | cons x xs ih => rw [ringLayout, List.length_cons, List.length_cons, ih]

theorem ringLayout_append : ringLayout n first (xs ++ [x]) =
    ringLayout n first xs ++ [((first + xs.flatten.length) % n, x.length)] := by
  induction xs generalizing first with
  | nil => rfl
  | cons y xs ih =>
    rw [List.cons_append, ringLayout, ringLayout, ih, List.cons_append, List.flatten_cons,
      List.length_append, Nat.add_assoc]

/-- The first block begins where the blocks do. -/
theorem exists_getElem?_zero_ringLayout (n first : ℕ) (h : xs ≠ []) :
    ∃ length, (ringLayout n first xs)[0]? = some (first % n, length) := by
  cases xs with
  | nil => exact absurd rfl h
  | cons x xs => exact ⟨x.length, rfl⟩

/-- Where the last block is. -/
theorem getElem?_length_ringLayout : (ringLayout n first (xs ++ [x]))[xs.length]? =
    some ((first + xs.flatten.length) % n, x.length) := by
  rw [ringLayout_append, List.getElem?_append_right (Nat.le_of_eq length_ringLayout),
    length_ringLayout, Nat.sub_self]
  rfl

theorem drop_ringLayout : (ringLayout n first xs).drop k =
    ringLayout n (first + (xs.take k).flatten.length) (xs.drop k) := by
  induction k generalizing first xs with
  | zero => rfl
  | succ k ih =>
    cases xs with
    | nil => rfl
    | cons x xs =>
      rw [ringLayout, List.drop_succ_cons, ih, List.take_succ_cons, List.drop_succ_cons,
        List.flatten_cons, List.length_append, Nat.add_assoc]

/-- The blocks are found again. -/
theorem map_ringLayout (h : ringContents n slots first xs.flatten.length = xs.flatten) :
    (ringLayout n first xs).map (fun p => ringContents n slots p.1 p.2) = xs := by
  induction xs generalizing first with
  | nil => rfl
  | cons x xs ih =>
    rw [List.flatten_cons, List.length_append, ringContents_add] at h
    obtain ⟨hx, hxs⟩ := List.append_inj h length_ringContents
    rw [ringLayout, List.map_cons, ringContents_mod, hx, ih hxs]

theorem bounds_of_mem_ringLayout (h : p ∈ ringLayout n first xs) :
    ∃ before, p.1 = (first + before) % n ∧ before + p.2 ≤ xs.flatten.length := by
  induction xs generalizing first with
  | nil => cases h
  | cons x xs ih =>
    rw [List.flatten_cons, List.length_append]
    rcases List.mem_cons.mp h with rfl | hrest
    · exact ⟨0, rfl, by dsimp only; omega⟩
    · obtain ⟨before, hstart, hle⟩ := ih hrest
      exact ⟨x.length + before, by rw [hstart, Nat.add_assoc], by omega⟩

/-- Blocks that have no more elements than there are slots do not overlap. -/
theorem pairwise_ringLayout (hroom : xs.flatten.length ≤ n) :
    (ringLayout n first xs).Pairwise fun p q => ∀ i < p.2, ∀ j < q.2,
      (p.1 + i) % n ≠ (q.1 + j) % n := by
  induction xs generalizing first with
  | nil => exact List.Pairwise.nil
  | cons x xs ih =>
    rw [List.flatten_cons, List.length_append] at hroom
    refine List.Pairwise.cons ?_ (ih (by omega))
    intro q hq i hi j hj
    obtain ⟨before, hstart, hle⟩ := bounds_of_mem_ringLayout hq
    dsimp only at hi
    rw [hstart, Nat.mod_add_mod, Nat.mod_add_mod, Nat.add_assoc, Nat.add_assoc]
    exact ringSlot_ne (by omega) (by omega)

/-- Where the last block ends the blocks end. -/
theorem end_ringLayout : ((first + xs.flatten.length) % n + x.length) % n =
    (first + (xs ++ [x]).flatten.length) % n := by
  rw [Nat.mod_add_mod, List.flatten_append, List.length_append, List.flatten_singleton,
    Nat.add_assoc]

end Borked3DS.Library
