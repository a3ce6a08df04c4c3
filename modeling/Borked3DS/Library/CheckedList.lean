import Mathlib.Data.List.Basic
import Borked3DS.Library.Run

/-!
# Lists read and written within their bounds

An array as a list whose accesses fault outside it: one entry, or a run of entries, is read or
overwritten. `overwrite` is what a write within the bounds leaves.
-/

set_option autoImplicit false

namespace Borked3DS.Library

universe u

variable {ε : Type u} {α : Type u}

/-- One entry. -/
def readAt (e : ε) (xs : List α) (i : ℕ) : Except ε α :=
  match xs[i]? with
  | some x => .ok x
  | none => .error e

/-- The run of `n` entries from `i` on. -/
def readRun (e : ε) (xs : List α) (i n : ℕ) : Except ε (List α) :=
  if i + n ≤ xs.length then .ok ((xs.drop i).take n) else .error e

/-- A list with the run from `i` on replaced by another of its length. -/
def overwrite (xs : List α) (i : ℕ) (ys : List α) : List α :=
  xs.take i ++ ys ++ xs.drop (i + ys.length)

/-- A run is overwritten, if it lies within the list. -/
def writeRun (e : ε) (xs : List α) (i : ℕ) (ys : List α) : Except ε (List α) :=
  if i + ys.length ≤ xs.length then .ok (overwrite xs i ys) else .error e

section Rules

variable {e : ε} {xs ys : List α} {i n : ℕ} {x : α}

theorem readAt_eq_ok : readAt e xs i = .ok x ↔ xs[i]? = some x := by
  unfold readAt
  cases xs[i]? with
  | none => simp
  | some y => simp

theorem readAt_of_length_le (h : xs.length ≤ i) : readAt e xs i = .error e := by
  unfold readAt
  rw [List.getElem?_eq_none h]

@[simp] theorem readAt_cons_zero : readAt e (x :: xs) 0 = .ok x := rfl

@[simp] theorem readAt_cons_succ : readAt e (x :: xs) (i + 1) = readAt e xs i := rfl

/-- Reading behind a prefix. -/
theorem readAt_append (e : ε) (ys xs : List α) (i : ℕ) :
    readAt e (ys ++ xs) (ys.length + i) = readAt e xs i := by
  unfold readAt
  rw [List.getElem?_append_right (Nat.le_add_right _ _), Nat.add_sub_cancel_left]

theorem readRun_append (e : ε) (ys xs : List α) (i n : ℕ) :
    readRun e (ys ++ xs) (ys.length + i) n = readRun e xs i n := by
  unfold readRun
  rw [List.length_append, List.drop_append, Nat.add_sub_cancel_left,
    List.drop_eq_nil_of_le (Nat.le_add_right _ _), List.nil_append]
  by_cases h : i + n ≤ xs.length
  · rw [if_pos h, if_pos (by omega)]
  · rw [if_neg h, if_neg (by omega)]

@[simp] theorem readRun_cons_succ : readRun e (x :: xs) (i + 1) n = readRun e xs i n := by
  have h := readRun_append e [x] xs i n
  rwa [List.length_singleton, Nat.add_comm] at h

@[simp] theorem length_overwrite (h : i + ys.length ≤ xs.length) :
    (overwrite xs i ys).length = xs.length := by
  unfold overwrite
  simp only [List.length_append, List.length_take, List.length_drop]
  omega

@[simp] theorem overwrite_nil : overwrite xs i [] = xs := by
  unfold overwrite
  rw [List.append_nil, List.length_nil, Nat.add_zero, List.take_append_drop]

/-- Two runs overwritten one behind the other are one. -/
theorem overwrite_append (zs : List α) (h : i + ys.length ≤ xs.length) :
    overwrite (overwrite xs i ys) (i + ys.length) zs = overwrite xs i (ys ++ zs) := by
  have hprefix : (xs.take i ++ ys).length = i + ys.length := by
    rw [List.length_append, List.length_take]
    omega
  unfold overwrite
  rw [List.take_append_of_le_length (Nat.le_of_eq hprefix.symm), ← hprefix, List.take_length,
    List.drop_append, List.drop_eq_nil_of_le (Nat.le_add_right _ _), Nat.add_sub_cancel_left,
    List.nil_append, List.drop_drop, hprefix, List.length_append]
  simp only [List.append_assoc, Nat.add_assoc]

theorem writeRun_ok (h : i + ys.length ≤ xs.length) : writeRun e xs i ys = .ok (overwrite xs i ys) :=
  if_pos h

/-- Writing behind what is written already, into room that is filled with one value. -/
theorem writeRun_append_replicate {n : ℕ} (h : ys.length ≤ n) :
    writeRun e (xs ++ List.replicate n x) xs.length ys =
      .ok (xs ++ ys ++ List.replicate (n - ys.length) x) := by
  rw [writeRun_ok (by rw [List.length_append, List.length_replicate]; omega)]
  unfold overwrite
  rw [List.take_left, List.drop_append, List.drop_eq_nil_of_le (Nat.le_add_right _ _),
    Nat.add_sub_cancel_left, List.nil_append, List.drop_replicate]

/-- The run that stands between two others. -/
theorem readRun_middle (e : ε) (xs ys zs : List α) :
    readRun e (xs ++ (ys ++ zs)) xs.length ys.length = .ok ys := by
  have h := readRun_append e xs (ys ++ zs) 0 ys.length
  rw [Nat.add_zero] at h
  rw [h, readRun, if_pos (by rw [List.length_append]; omega), List.drop_zero, List.take_left]

end Rules

end Borked3DS.Library
