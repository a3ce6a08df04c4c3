import Mathlib.Algebra.Order.Ring.Nat
import Mathlib.Data.Nat.Notation
import Mathlib.Logic.Function.Basic
import Mathlib.Tactic.Common

/-!
# Fixed arrays and bit fields

An array of a fixed length is a function on the places it has, and a write to any other place
faults. A bit field is a run of the bits of a word.
-/

set_option autoImplicit false

namespace Borked3DS.Library

/-! ## Arrays -/

/-- An array of `n` elements. -/
abbrev Table (n : ℕ) (α : Type*) := Fin n → α

namespace Table

variable {ε α : Type*} {n i : ℕ} {e : ε} {t : Table n α} {v : α}

/-- Write the element at `i`. -/
def write (e : ε) (t : Table n α) (i : ℕ) (v : α) : Except ε (Table n α) :=
  if h : i < n then .ok (Function.update t ⟨i, h⟩ v) else .error e

/-- The element at `i`, if there is one. -/
def read [Inhabited α] (t : Table n α) (i : ℕ) : α := if h : i < n then t ⟨i, h⟩ else default

theorem write_of_lt (h : i < n) : write e t i v = .ok (Function.update t ⟨i, h⟩ v) := dif_pos h

theorem write_of_le (h : n ≤ i) : write e t i v = .error e := dif_neg (Nat.not_lt.mpr h)

/-- A write inside of the array succeeds. -/
theorem exists_write (e : ε) (t : Table n α) (v : α) (h : i < n) : ∃ t', write e t i v = .ok t' :=
  ⟨_, write_of_lt h⟩

end Table

/-! ## Bit fields -/

/-- The `width` bits of a word from the bit `position` on. -/
def bitField (position width word : ℕ) : ℕ := word / 2 ^ position % 2 ^ width

/-- The word with those bits replaced by the lowest ones of a value. -/
def assignField (position width word value : ℕ) : ℕ :=
  word - bitField position width word * 2 ^ position + value % 2 ^ width * 2 ^ position

theorem bitField_lt (position width word : ℕ) : bitField position width word < 2 ^ width :=
  Nat.mod_lt _ (Nat.two_pow_pos _)

end Borked3DS.Library
