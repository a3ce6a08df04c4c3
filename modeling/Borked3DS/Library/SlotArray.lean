import Mathlib.Algebra.Order.Ring.Nat
import Mathlib.Data.Finset.Card
import Mathlib.Data.Finset.Image
import Mathlib.Data.List.Basic
import Mathlib.Data.Nat.Find

/-!
# Slots, and the set of those that are taken

Two ways of recording which of some numbered slots are taken: an array that holds the name of each
slot that is taken, and a mask with its bit. What taking and leaving a slot does to them is what it
does to the set.
-/

set_option autoImplicit false

namespace Borked3DS.Library

variable {α : Type*} {free : α} {name : ℕ → α} {n i : ℕ} {taken : Finset ℕ}

/-- The array of `n` slots: the names of those that are taken. -/
def slotArray (free : α) (name : ℕ → α) (n : ℕ) (taken : Finset ℕ) : List α :=
  (List.range n).map fun i => if i ∈ taken then name i else free

/-- The mask has the bits of the slots that are taken. -/
def MarksSlots (mask : ℕ) (taken : Finset ℕ) : Prop :=
  ∀ i, mask.testBit i = decide (i ∈ taken)

@[simp] theorem length_slotArray : (slotArray free name n taken).length = n := by
  simp [slotArray]

theorem getElem?_slotArray (hi : i < n) :
    (slotArray free name n taken)[i]? = some (if i ∈ taken then name i else free) := by
  simp [slotArray, hi]

@[simp] theorem slotArray_empty : slotArray free name n ∅ = List.replicate n free := by
  apply List.ext_getElem?
  intro i
  by_cases hi : i < n
  · rw [getElem?_slotArray hi, if_neg (Finset.notMem_empty i)]
    simp [hi]
  · rw [List.getElem?_eq_none (by rw [length_slotArray]; omega),
      List.getElem?_eq_none (by rw [List.length_replicate]; omega)]

/-- An entry is overwritten where the sets may differ. -/
theorem slotArray_set {others : Finset ℕ} {x : α} (hx : x = if i ∈ others then name i else free)
    (hsame : ∀ j, j ≠ i → (j ∈ taken ↔ j ∈ others)) :
    (slotArray free name n taken).set i x = slotArray free name n others := by
  apply List.ext_getElem?
  intro j
  rw [List.getElem?_set, length_slotArray]
  by_cases hj : j < n
  · rw [getElem?_slotArray hj, getElem?_slotArray hj]
    by_cases heq : i = j
    · rw [if_pos heq, if_pos (heq ▸ hj), hx, heq]
    · rw [if_neg heq]
      simp only [hsame j (Ne.symm heq)]
  · have hnone : ∀ s : Finset ℕ, (slotArray free name n s)[j]? = none := by
      intro s
      rw [List.getElem?_eq_none (by rw [length_slotArray]; omega)]
    rw [hnone, hnone]
    by_cases heq : i = j
    · rw [if_pos heq, if_neg (heq ▸ hj)]
    · rw [if_neg heq]

theorem slotArray_insert :
    (slotArray free name n taken).set i (name i) = slotArray free name n (insert i taken) := by
  apply slotArray_set
  · rw [if_pos (Finset.mem_insert_self i taken)]
  · intro j hj
    simp [hj]

theorem slotArray_erase :
    (slotArray free name n taken).set i free = slotArray free name n (taken.erase i) := by
  apply slotArray_set
  · rw [if_neg (Finset.notMem_erase i taken)]
  · intro j hj
    simp [hj]

/-- The names in the array are those of the slots. -/
theorem mem_slotArray (hnames : ∀ i ∈ taken, name i ≠ free) (hbelow : ∀ i ∈ taken, i < n) {x : α} :
    x ≠ free ∧ x ∈ slotArray free name n taken ↔ ∃ i ∈ taken, name i = x := by
  unfold slotArray
  rw [List.mem_map]
  constructor
  · rintro ⟨hx, i, -, hi⟩
    by_cases hmem : i ∈ taken
    · rw [if_pos hmem] at hi
      exact ⟨i, hmem, hi⟩
    · rw [if_neg hmem] at hi
      exact absurd hi.symm hx
  · rintro ⟨i, hmem, rfl⟩
    exact ⟨hnames i hmem, i, List.mem_range.mpr (hbelow i hmem), if_pos hmem⟩

section Masks

variable {mask : ℕ}

theorem marksSlots_zero : MarksSlots 0 ∅ := by
  intro i
  simp

theorem MarksSlots.insert (h : MarksSlots mask taken) (i : ℕ) :
    MarksSlots (mask ||| 2 ^ i) (Insert.insert i taken) := by
  intro j
  rw [Nat.testBit_or, h j, Nat.testBit_two_pow]
  by_cases heq : i = j
  · simp [heq]
  · simp [heq, Ne.symm heq]

/-- A slot that is taken lies within the word. -/
theorem MarksSlots.lt {w : ℕ} (h : MarksSlots mask taken) (hmask : mask < 2 ^ w) (hi : i ∈ taken) :
    i < w := by
  by_contra hge
  have hclear := Nat.testBit_lt_two_pow
    (Nat.lt_of_lt_of_le hmask (Nat.pow_le_pow_right (by decide) (Nat.not_lt.mp hge)))
  rw [h i, decide_eq_true hi] at hclear
  cases hclear

/-- The bit of a slot is cleared in a word of `w` bits. -/
theorem MarksSlots.erase {w : ℕ} (h : MarksSlots mask taken) (hi : i < w) (hmask : mask < 2 ^ w) :
    MarksSlots (mask &&& (2 ^ w - 1 - 2 ^ i)) (taken.erase i) := by
  intro j
  have hpow : 2 ^ i < 2 ^ w := Nat.pow_lt_pow_right (by decide) hi
  rw [Nat.testBit_and, h j, Nat.sub_sub, Nat.add_comm 1, Nat.testBit_two_pow_sub_succ hpow,
    Nat.testBit_two_pow]
  by_cases hj : j ∈ taken
  · have hlt := h.lt hmask hj
    by_cases heq : i = j
    · simp [heq]
    · simp [hj, hlt, heq, Ne.symm heq]
  · simp [hj]

end Masks

/-- Among more slots than are taken there is a first one that is free. -/
theorem exists_first_free (h : taken.card < n) :
    ∃ i < n, i ∉ taken ∧ ∀ j < i, j ∈ taken := by
  have hfree : ∃ i, i < n ∧ i ∉ taken := by
    by_contra hnone
    have hall : Finset.range n ⊆ taken := by
      intro i hi
      by_contra hmem
      exact hnone ⟨i, Finset.mem_range.mp hi, hmem⟩
    have hcard := Finset.card_le_card hall
    rw [Finset.card_range] at hcard
    omega
  obtain ⟨hlt, hmem⟩ := Nat.find_spec hfree
  refine ⟨Nat.find hfree, hlt, hmem, fun j hj => ?_⟩
  by_contra hnot
  exact Nat.find_min hfree hj ⟨by omega, hnot⟩

end Borked3DS.Library
