import Mathlib.Algebra.Order.Ring.Nat
import Mathlib.Data.List.Basic

/-!
# Cipher block chaining

Decryption of a stream in blocks of one width, where each block is decrypted on its own and mixed
with the encrypted block before it, which a register holds.
-/

set_option autoImplicit false

namespace Borked3DS.Library

universe u

variable {α : Type u} (width : ℕ) (decrypt : List α → List α) (mix : α → α → α)

/-- A number of blocks from a stream: what they decrypt to, and the register behind them. -/
def chainBlocks : ℕ → List α → List α → List α × List α
  | 0, register, _ => ([], register)
  | count + 1, register, xs =>
      let rest := chainBlocks count (xs.take width) (xs.drop width)
      (List.zipWith mix (decrypt (xs.take width)) register ++ rest.1, rest.2)

/-- All the blocks of a stream. -/
def chain (register xs : List α) : List α × List α :=
  chainBlocks width decrypt mix (xs.length / width) register xs

section Rules

variable {width decrypt mix} {register xs : List α}

theorem chain_nil : chain width decrypt mix register [] = ([], register) := by
  unfold chain
  rw [List.length_nil, Nat.zero_div]
  rfl

theorem chainBlocks_append {j : ℕ} (k : ℕ) (ys : List α) (h : xs.length = j * width) :
    chainBlocks width decrypt mix (j + k) register (xs ++ ys) =
      ((chainBlocks width decrypt mix j register xs).1 ++
          (chainBlocks width decrypt mix k (chainBlocks width decrypt mix j register xs).2 ys).1,
        (chainBlocks width decrypt mix k (chainBlocks width decrypt mix j register xs).2 ys).2) := by
  induction j generalizing register xs with
  | zero =>
      rw [Nat.zero_mul, List.length_eq_zero_iff] at h
      rw [h, Nat.zero_add]
      rfl
  | succ j ih =>
      rw [Nat.succ_mul] at h
      have hdrop : (xs.drop width).length = j * width := by
        rw [List.length_drop]
        omega
      rw [Nat.succ_add, chainBlocks, chainBlocks, List.take_append_of_le_length (by omega),
        List.drop_append_of_le_length (by omega), ih hdrop, List.append_assoc]

/-- A stream may be cut between two blocks. -/
theorem chain_append (ys : List α) (hwidth : 0 < width) (h : width ∣ xs.length) :
    chain width decrypt mix register (xs ++ ys) =
      ((chain width decrypt mix register xs).1 ++
          (chain width decrypt mix (chain width decrypt mix register xs).2 ys).1,
        (chain width decrypt mix (chain width decrypt mix register xs).2 ys).2) := by
  have hcount : (xs ++ ys).length / width = xs.length / width + ys.length / width := by
    obtain ⟨count, hcount⟩ := h
    rw [List.length_append, hcount, Nat.mul_add_div hwidth, Nat.mul_div_cancel_left _ hwidth]
  unfold chain
  rw [hcount]
  exact chainBlocks_append _ ys (Nat.div_mul_cancel h).symm

end Rules

end Borked3DS.Library
