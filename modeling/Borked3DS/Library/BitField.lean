import Mathlib.Algebra.Order.Ring.Nat
import Mathlib.Data.List.Basic
import Mathlib.Tactic.Common

/-!
# Bit fields

A bit field is a run of bits of a word. Fields that lie apart do not know of one another: what is
assigned to one of them is read back from it, and the others keep what they hold.
-/

set_option autoImplicit false

namespace Borked3DS.Library

/-- Some bits of a word, from a position on. -/
structure BitField where
  position : ℕ
  bits : ℕ
  deriving DecidableEq, Repr

namespace BitField

/-- The value of a field. -/
def get (f : BitField) (word : ℕ) : ℕ := word / 2 ^ f.position % 2 ^ f.bits

/-- The word with another value in a field, of which only the lowest bits fit. -/
def assign (f : BitField) (word value : ℕ) : ℕ :=
  word / 2 ^ (f.position + f.bits) * 2 ^ (f.position + f.bits) +
    value % 2 ^ f.bits * 2 ^ f.position + word % 2 ^ f.position

/-- Two fields have no bit in common. -/
def Apart (f g : BitField) : Prop :=
  f.position + f.bits ≤ g.position ∨ g.position + g.bits ≤ f.position

instance (f g : BitField) : Decidable (Apart f g) := inferInstanceAs (Decidable (_ ∨ _))

variable {f g : BitField} {word value width : ℕ}

theorem get_lt : f.get word < 2 ^ f.bits := Nat.mod_lt _ (Nat.two_pow_pos _)

/-- What is assigned in a field and behind it. -/
theorem low_lt : value % 2 ^ f.bits * 2 ^ f.position + word % 2 ^ f.position <
    2 ^ (f.position + f.bits) := by
  have hvalue : value % 2 ^ f.bits + 1 ≤ 2 ^ f.bits := Nat.mod_lt _ (Nat.two_pow_pos _)
  have hword : word % 2 ^ f.position < 2 ^ f.position := Nat.mod_lt _ (Nat.two_pow_pos _)
  calc value % 2 ^ f.bits * 2 ^ f.position + word % 2 ^ f.position
      < value % 2 ^ f.bits * 2 ^ f.position + 2 ^ f.position := Nat.add_lt_add_left hword _
    _ = (value % 2 ^ f.bits + 1) * 2 ^ f.position := (Nat.succ_mul _ _).symm
    _ ≤ 2 ^ f.bits * 2 ^ f.position := Nat.mul_le_mul_right _ hvalue
    _ = 2 ^ (f.position + f.bits) := by rw [Nat.pow_add, Nat.mul_comm]

theorem assign_div : f.assign word value / 2 ^ (f.position + f.bits) =
    word / 2 ^ (f.position + f.bits) := by
  unfold assign
  rw [Nat.add_assoc, Nat.mul_comm, Nat.mul_add_div (Nat.two_pow_pos _), Nat.div_eq_of_lt low_lt,
    Nat.add_zero]

theorem assign_mod : f.assign word value % 2 ^ f.position = word % 2 ^ f.position := by
  unfold assign
  rw [Nat.pow_add, Nat.mul_comm (2 ^ f.position), ← Nat.mul_assoc, ← Nat.add_mul,
    Nat.mul_add_mod_self_right, Nat.mod_mod]

/-- What is assigned to a field is read back. -/
theorem get_assign : f.get (f.assign word value) = value % 2 ^ f.bits := by
  unfold get assign
  have hword : word % 2 ^ f.position < 2 ^ f.position := Nat.mod_lt _ (Nat.two_pow_pos _)
  rw [Nat.pow_add, Nat.mul_comm (2 ^ f.position), ← Nat.mul_assoc, ← Nat.add_mul, Nat.mul_comm,
    Nat.mul_add_div (Nat.two_pow_pos _), Nat.div_eq_of_lt hword, Nat.add_zero,
    Nat.mul_add_mod_self_right, Nat.mod_mod]

/-- A field is made of the bits in front of its end. -/
theorem get_congr_mod {word' : ℕ} (h : word' % 2 ^ (g.position + g.bits) =
    word % 2 ^ (g.position + g.bits)) : g.get word' = g.get word := by
  unfold get
  rw [← Nat.mod_mul_right_div_self, ← Nat.mod_mul_right_div_self, ← Nat.pow_add, h]

/-- The other fields keep what they hold. -/
theorem get_assign_of_apart (h : Apart f g) : g.get (f.assign word value) = g.get word := by
  rcases h with habove | hbelow
  · obtain ⟨d, hd⟩ := Nat.exists_eq_add_of_le habove
    unfold get
    rw [hd, Nat.pow_add 2 (f.position + f.bits), ← Nat.div_div_eq_div_mul,
      ← Nat.div_div_eq_div_mul, assign_div]
  · apply get_congr_mod
    have hdvd : 2 ^ (g.position + g.bits) ∣ 2 ^ f.position := Nat.pow_dvd_pow 2 hbelow
    rw [← Nat.mod_mod_of_dvd (f.assign word value) hdvd, assign_mod, Nat.mod_mod_of_dvd _ hdvd]

/-- A word of some width stays one, if the field lies in it. -/
theorem assign_lt (hword : word < 2 ^ width) (hfield : f.position + f.bits ≤ width) :
    f.assign word value < 2 ^ width := by
  obtain ⟨d, hd⟩ := Nat.exists_eq_add_of_le hfield
  have hdiv : f.assign word value / 2 ^ (f.position + f.bits) < 2 ^ d := by
    rw [assign_div]
    apply Nat.div_lt_of_lt_mul
    rwa [← Nat.pow_add, ← hd]
  have hlt := (Nat.div_lt_iff_lt_mul (Nat.two_pow_pos _)).mp hdiv
  rwa [← Nat.pow_add, Nat.add_comm d, ← hd] at hlt

end BitField

/-! ## Fields that are copied -/

/-- Fields of a word are assigned to the same fields of another one. -/
def copyFields (fields : List BitField) (source target : ℕ) : ℕ :=
  fields.foldl (fun word f => f.assign word (f.get source)) target

variable {fields : List BitField} {f g : BitField} {source target width : ℕ}

theorem get_copyFields_of_apart (h : ∀ f ∈ fields, f.Apart g) :
    g.get (copyFields fields source target) = g.get target := by
  induction fields generalizing target with
  | nil => rfl
  | cons f fields ih =>
    have hrest := @ih (f.assign target (f.get source)) fun f hf => h f (List.mem_cons_of_mem _ hf)
    exact hrest.trans (BitField.get_assign_of_apart (h f (List.mem_cons_self ..)))

/-- A field that is copied, among fields that lie apart. -/
theorem get_copyFields (hapart : fields.Pairwise fun f g => g.Apart f) (hf : f ∈ fields) :
    f.get (copyFields fields source target) = f.get source := by
  induction fields generalizing target with
  | nil => cases hf
  | cons g fields ih =>
    obtain ⟨hfirst, hrest⟩ := List.pairwise_cons.mp hapart
    rcases List.mem_cons.mp hf with rfl | hmem
    · refine (get_copyFields_of_apart hfirst).trans (BitField.get_assign.trans ?_)
      exact Nat.mod_eq_of_lt BitField.get_lt
    · exact ih hrest hmem

theorem copyFields_lt (htarget : target < 2 ^ width)
    (h : ∀ f ∈ fields, f.position + f.bits ≤ width) :
    copyFields fields source target < 2 ^ width := by
  induction fields generalizing target with
  | nil => exact htarget
  | cons f fields ih =>
    exact ih (BitField.assign_lt htarget (h f (List.mem_cons_self ..)))
      fun f hf => h f (List.mem_cons_of_mem _ hf)

end Borked3DS.Library
