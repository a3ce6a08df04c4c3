import Borked3DS.Model.Basic

/-!
# Sizes and optional values

64-bit words, and what dereferencing an empty `std::optional` does.
-/

set_option autoImplicit false

namespace Borked3DS.Model

/-- A `std::size_t` holds values modulo `2 ^ 64`. -/
def u64 (x : ℕ) : ℕ := x % 2 ^ 64

theorem u64_of_lt {x : ℕ} (h : x < 2 ^ 64) : u64 x = x := Nat.mod_eq_of_lt h

theorem u64_lt (x : ℕ) : u64 x < 2 ^ 64 := Nat.mod_lt _ (by decide)

/-- Subtraction of 64-bit words. -/
def u64Sub (x y : ℕ) : ℕ := u64 (x + 2 ^ 64 - y)

theorem u64Sub_of_le {x y : ℕ} (h : y ≤ x) (hx : x < 2 ^ 64) : u64Sub x y = x - y := by
  unfold u64Sub u64
  omega

theorem u64Sub_of_lt {x y : ℕ} (h : x < y) : u64Sub x y = x + 2 ^ 64 - y := by
  unfold u64Sub u64
  omega

/-- `*optional`. -/
def deref {α : Type} : Option α → Exec α
  | some x => .ok x
  | none => .error .undefined

@[simp] theorem deref_some {α : Type} (x : α) : deref (some x) = .ok x := rfl

end Borked3DS.Model
