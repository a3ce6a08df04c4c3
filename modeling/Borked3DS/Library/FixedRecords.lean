import Mathlib.Algebra.Order.Ring.Nat
import Mathlib.Data.List.Basic
import Mathlib.Tactic.Common

/-!
# Records one behind the other

The room that records of different sizes take together; and records that are encoded with one
length, and how they are taken out by their places.
-/

set_option autoImplicit false

namespace Borked3DS.Library

section Sizes

variable {α : Type*} (size : α → ℕ)

/-- The room the items take together. -/
def totalSize (xs : List α) : ℕ := (xs.map size).sum

@[simp] theorem totalSize_nil : totalSize size ([] : List α) = 0 := rfl

@[simp] theorem totalSize_cons (x : α) (xs : List α) :
    totalSize size (x :: xs) = size x + totalSize size xs := List.sum_cons

@[simp] theorem totalSize_append (xs ys : List α) :
    totalSize size (xs ++ ys) = totalSize size xs + totalSize size ys := by
  rw [totalSize, List.map_append, List.sum_append, ← totalSize, ← totalSize]

end Sizes

variable {α β : Type*} {encode : α → List β} {decode : List β → α} {size : ℕ}

/-- The records at the first `n` places of a run of bytes. -/
def readRecords (decode : List β → α) (size n : ℕ) (bytes : List β) : List α :=
  (List.range n).map fun i => decode ((bytes.drop (size * i)).take size)

@[simp] theorem length_readRecords (n : ℕ) (bytes : List β) :
    (readRecords decode size n bytes).length = n := by
  simp [readRecords]

theorem length_flatMap_of_size (h : ∀ x, (encode x).length = size) (xs : List α) :
    (xs.flatMap encode).length = size * xs.length := by
  simp [List.length_flatMap, h, Nat.mul_comm]

end Borked3DS.Library
