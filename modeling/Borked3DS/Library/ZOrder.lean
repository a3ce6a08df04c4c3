import Mathlib.Algebra.Order.Ring.Nat
import Mathlib.Data.Nat.Notation
import Mathlib.Tactic.Common

/-!
# Z-order

The lowest bits of two coordinates interleaved to one number, those of the first one in the even
places. The number determines the bits of both, and every number of twice as many bits is the one
of exactly one pair.
-/

set_option autoImplicit false

namespace Borked3DS.Library

/-- The lowest `n` bits of `x` and of `y` interleaved. -/
def zOrder : ℕ → ℕ → ℕ → ℕ
  | 0, _, _ => 0
  | n + 1, x, y => x % 2 + 2 * (y % 2) + 4 * zOrder n (x / 2) (y / 2)

/-- The first coordinate of a number of `2 * n` bits. -/
def zOrderX : ℕ → ℕ → ℕ
  | 0, _ => 0
  | n + 1, m => m % 2 + 2 * zOrderX n (m / 4)

/-- The second coordinate of a number of `2 * n` bits. -/
def zOrderY : ℕ → ℕ → ℕ
  | 0, _ => 0
  | n + 1, m => m / 2 % 2 + 2 * zOrderY n (m / 4)

theorem zOrder_lt (n x y : ℕ) : zOrder n x y < 4 ^ n := by
  induction n generalizing x y with
  | zero => exact Nat.one_pos
  | succ n ih =>
    have hrest := ih (x / 2) (y / 2)
    rw [zOrder, Nat.pow_succ]
    omega

theorem zOrderX_lt (n m : ℕ) : zOrderX n m < 2 ^ n := by
  induction n generalizing m with
  | zero => exact Nat.one_pos
  | succ n ih =>
    have hrest := ih (m / 4)
    rw [zOrderX, Nat.pow_succ]
    omega

theorem zOrderY_lt (n m : ℕ) : zOrderY n m < 2 ^ n := by
  induction n generalizing m with
  | zero => exact Nat.one_pos
  | succ n ih =>
    have hrest := ih (m / 4)
    rw [zOrderY, Nat.pow_succ]
    omega

theorem zOrderX_zOrder (n x y : ℕ) : zOrderX n (zOrder n x y) = x % 2 ^ n := by
  induction n generalizing x y with
  | zero => rw [Nat.pow_zero, Nat.mod_one, zOrderX]
  | succ n ih =>
    have hbit : (x % 2 + 2 * (y % 2) + 4 * zOrder n (x / 2) (y / 2)) % 2 = x % 2 := by omega
    have hrest : (x % 2 + 2 * (y % 2) + 4 * zOrder n (x / 2) (y / 2)) / 4 =
        zOrder n (x / 2) (y / 2) := by omega
    rw [zOrder, zOrderX, hbit, hrest, ih, Nat.pow_succ', Nat.mod_mul]

theorem zOrderY_zOrder (n x y : ℕ) : zOrderY n (zOrder n x y) = y % 2 ^ n := by
  induction n generalizing x y with
  | zero => rw [Nat.pow_zero, Nat.mod_one, zOrderY]
  | succ n ih =>
    have hbit : (x % 2 + 2 * (y % 2) + 4 * zOrder n (x / 2) (y / 2)) / 2 % 2 = y % 2 := by omega
    have hrest : (x % 2 + 2 * (y % 2) + 4 * zOrder n (x / 2) (y / 2)) / 4 =
        zOrder n (x / 2) (y / 2) := by omega
    rw [zOrder, zOrderY, hbit, hrest, ih, Nat.pow_succ', Nat.mod_mul]

/-- A number of `2 * n` bits is that of its coordinates. -/
theorem zOrder_coordinates {n m : ℕ} (h : m < 4 ^ n) : zOrder n (zOrderX n m) (zOrderY n m) = m := by
  induction n generalizing m with
  | zero =>
    rw [Nat.pow_zero] at h
    rw [zOrder]
    omega
  | succ n ih =>
    rw [Nat.pow_succ] at h
    have hx : (m % 2 + 2 * zOrderX n (m / 4)) / 2 = zOrderX n (m / 4) := by omega
    have hy : (m / 2 % 2 + 2 * zOrderY n (m / 4)) / 2 = zOrderY n (m / 4) := by omega
    rw [zOrder, zOrderX, zOrderY, hx, hy, ih (by omega)]
    omega

end Borked3DS.Library
