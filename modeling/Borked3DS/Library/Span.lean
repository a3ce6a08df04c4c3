import Mathlib.Algebra.Order.Ring.Nat
import Mathlib.Data.List.Induction
import Mathlib.Data.Nat.Notation
import Mathlib.Tactic.Common

/-!
# Spans of bytes

A span is a length and a byte at every place; what lies behind its length has no meaning. Bytes
are read and written in runs, and a run that does not reach a place leaves it alone.
-/

set_option autoImplicit false

namespace Borked3DS.Library

/-- A run of bytes in memory. -/
structure Span where
  size : ℕ
  get : ℕ → UInt8

namespace Span

/-- The `n` bytes from `offset` on. -/
def read (s : Span) (offset n : ℕ) : List UInt8 := (List.range n).map fun i => s.get (offset + i)

/-- The span with bytes written from `offset` on. -/
def write (s : Span) (offset : ℕ) (bytes : List UInt8) : Span where
  size := s.size
  get := fun i => if offset ≤ i then bytes.getD (i - offset) (s.get i) else s.get i

variable {s : Span} {offset i n : ℕ} {bytes : List UInt8}

@[simp] theorem length_read : (s.read offset n).length = n := by simp [read]

theorem getElem?_read (h : i < n) : (s.read offset n)[i]? = some (s.get (offset + i)) := by
  simp [read, h]

theorem getD_read (h : i < n) (d : UInt8) : (s.read offset n).getD i d = s.get (offset + i) := by
  rw [List.getD_eq_getElem?_getD, getElem?_read h, Option.getD_some]

/-- A byte that is written. -/
theorem get_write_of_mem (h : i < bytes.length) :
    (s.write offset bytes).get (offset + i) = bytes.getD i 0 := by
  simp only [write, Nat.le_add_right, if_true, Nat.add_sub_cancel_left]
  rw [List.getD_eq_getElem?_getD, List.getD_eq_getElem?_getD, List.getElem?_eq_getElem h,
    Option.getD_some, Option.getD_some]

/-- A byte in front of those that are written, or behind them. -/
theorem get_write_of_notMem (h : i < offset ∨ offset + bytes.length ≤ i) :
    (s.write offset bytes).get i = s.get i := by
  unfold write
  dsimp only
  by_cases hle : offset ≤ i
  · rw [if_pos hle, List.getD_eq_getElem?_getD, List.getElem?_eq_none (by omega), Option.getD_none]
  · exact if_neg hle

/-- Bytes that are written are read back. -/
theorem read_write : (s.write offset bytes).read offset bytes.length = bytes := by
  apply List.ext_getElem?
  intro i
  by_cases hi : i < bytes.length
  · rw [getElem?_read hi, get_write_of_mem hi, List.getD_eq_getElem?_getD,
      List.getElem?_eq_getElem hi, Option.getD_some]
  · rw [List.getElem?_eq_none (by rw [length_read]; omega),
      List.getElem?_eq_none (by omega)]

/-- Bytes that are written where they were read change nothing. -/
theorem get_write_read : (s.write offset (s.read offset n)).get i = s.get i := by
  by_cases hi : offset ≤ i ∧ i < offset + n
  · obtain ⟨j, rfl⟩ := Nat.exists_eq_add_of_le hi.1
    rw [get_write_of_mem (by rw [length_read]; omega), getD_read (by omega)]
  · exact get_write_of_notMem (by rw [length_read]; omega)

/-- Spans that agree on a run read the same there. -/
theorem read_congr {t : Span} (h : ∀ i < n, t.get (offset + i) = s.get (offset + i)) :
    t.read offset n = s.read offset n := by
  apply List.map_congr_left
  intro i hi
  exact h i (List.mem_range.mp hi)

/-! ## Blocks written one after the other -/

section Blocks

variable {α : Type*} {place : α → ℕ} {bytes : α → List UInt8} {l : List α}

/-- Write the block of every element of a list. -/
def writeBlocks (place : α → ℕ) (bytes : α → List UInt8) (l : List α) (s : Span) : Span :=
  l.foldl (fun s a => s.write (place a) (bytes a)) s

@[simp] theorem size_writeBlocks : (writeBlocks place bytes l s).size = s.size := by
  induction l generalizing s with
  | nil => rfl
  | cons a l ih => exact ih

/-- A byte that lies in no block. -/
theorem get_writeBlocks_of_notMem (h : ∀ a ∈ l, i < place a ∨ place a + (bytes a).length ≤ i) :
    (writeBlocks place bytes l s).get i = s.get i := by
  induction l generalizing s with
  | nil => rfl
  | cons a l ih =>
    have hrest := ih (s := s.write (place a) (bytes a)) fun b hb => h b (by simp [hb])
    exact hrest.trans (get_write_of_notMem (h a (by simp)))

/-- A byte of a block that no other block of the list meets. -/
theorem get_writeBlocks_of_mem {a : α} (ha : a ∈ l) (hi : i < (bytes a).length)
    (h : ∀ b ∈ l, b ≠ a → place a + i < place b ∨ place b + (bytes b).length ≤ place a + i) :
    (writeBlocks place bytes l s).get (place a + i) = (bytes a).getD i 0 := by
  classical
  induction l using List.reverseRecOn generalizing s with
  | nil => cases ha
  | append_singleton l c ih =>
    have hlast : writeBlocks place bytes (l ++ [c]) s =
        (writeBlocks place bytes l s).write (place c) (bytes c) := List.foldl_append
    rw [hlast]
    by_cases hc : c = a
    · rw [hc]
      exact get_write_of_mem hi
    · have hmem : a ∈ l := by
        rcases List.mem_append.mp ha with hl | hl
        · exact hl
        · exact absurd (List.mem_singleton.mp hl).symm hc
      rw [get_write_of_notMem (h c (by simp) hc)]
      exact ih hmem fun b hb hne => h b (by simp [hb]) hne

end Blocks

end Span

end Borked3DS.Library

/-!
## Spans filled with a pattern

A pattern of bytes is repeated over a part of a span, and cut off where the part ends. Writing it
block by block, the last one as far as it fits, fills the part.
-/

namespace Borked3DS.Library.Span

variable {s : Span} {offset total i : ℕ} {pattern : List UInt8}

theorem eq_of_get {t : Span} (hsize : s.size = t.size) (hget : ∀ i, s.get i = t.get i) : s = t := by
  cases s
  cases t
  exact congr (congrArg Span.mk hsize) (funext hget)

/-- The pattern over the `total` bytes from `offset` on. -/
def fill (s : Span) (offset total : ℕ) (pattern : List UInt8) : Span where
  size := s.size
  get := fun i => if offset ≤ i ∧ i < offset + total
    then pattern.getD ((i - offset) % pattern.length) 0 else s.get i

theorem get_fill_of_mem (h : i < total) :
    (s.fill offset total pattern).get (offset + i) = pattern.getD (i % pattern.length) 0 := by
  unfold fill
  dsimp only
  rw [if_pos ⟨Nat.le_add_right _ _, Nat.add_lt_add_left h _⟩, Nat.add_sub_cancel_left]

theorem get_fill_of_notMem (h : i < offset ∨ offset + total ≤ i) :
    (s.fill offset total pattern).get i = s.get i :=
  if_neg (by omega)

@[simp] theorem fill_zero : s.fill offset 0 pattern = s := by
  unfold fill
  congr 1
  funext i
  exact if_neg (by omega)

/-- The blocks that a part of `total` bytes is cut into. -/
def blocks (size total : ℕ) : List ℕ := List.range ((total + size - 1) / size)

theorem mem_blocks {size : ℕ} (hsize : 0 < size) : i ∈ blocks size total ↔ size * i < total := by
  unfold blocks
  rw [List.mem_range, Nat.lt_div_iff_mul_lt hsize, Nat.mul_comm]
  omega

theorem blocks_mul {size : ℕ} (hsize : 0 < size) (n : ℕ) : blocks size (size * n) = List.range n := by
  unfold blocks
  congr 1
  rw [Nat.add_sub_assoc hsize, Nat.mul_add_div hsize,
    Nat.div_eq_of_lt (Nat.sub_lt hsize Nat.one_pos), Nat.add_zero]

/-- The pattern is written block by block, as far as it fits. -/
theorem writeBlocks_pattern (hpattern : 0 < pattern.length) :
    writeBlocks (fun i => offset + pattern.length * i)
      (fun i => pattern.take (total - pattern.length * i)) (blocks pattern.length total) s =
        s.fill offset total pattern := by
  have hget : ∀ i, (writeBlocks (fun i => offset + pattern.length * i)
      (fun i => pattern.take (total - pattern.length * i)) (blocks pattern.length total) s).get i =
        (s.fill offset total pattern).get i := by
    intro i
    by_cases hi : offset ≤ i ∧ i < offset + total
    · obtain ⟨j, rfl⟩ := Nat.exists_eq_add_of_le hi.1
      have hj : j < total := by omega
      -- The block of the byte, and its place in it.
      have hsplit := Nat.div_add_mod j pattern.length
      have hplace := Nat.mod_lt j hpattern
      have hmem : j / pattern.length ∈ blocks pattern.length total :=
        (mem_blocks hpattern).mpr (by omega)
      have hlength : j % pattern.length <
          (pattern.take (total - pattern.length * (j / pattern.length))).length := by
        rw [List.length_take]
        omega
      have hbyte : (writeBlocks (fun i => offset + pattern.length * i)
          (fun i => pattern.take (total - pattern.length * i)) (blocks pattern.length total) s).get
            (offset + pattern.length * (j / pattern.length) + j % pattern.length) =
          (pattern.take (total - pattern.length * (j / pattern.length))).getD
            (j % pattern.length) 0 := get_writeBlocks_of_mem hmem hlength (by
        intro b _ hb
        rw [List.length_take]
        rcases Nat.lt_or_gt_of_ne hb with hlt | hgt
        · have hnext := Nat.mul_le_mul_left pattern.length (Nat.succ_le_of_lt hlt)
          rw [Nat.mul_succ] at hnext
          omega
        · have hnext := Nat.mul_le_mul_left pattern.length (Nat.succ_le_of_lt hgt)
          rw [Nat.mul_succ] at hnext
          omega)
      rw [Nat.add_assoc, hsplit] at hbyte
      rw [hbyte, get_fill_of_mem hj, List.getD_eq_getElem?_getD, List.getD_eq_getElem?_getD,
        List.getElem?_take_of_lt (by omega)]
    · rw [get_fill_of_notMem (by omega)]
      apply get_writeBlocks_of_notMem
      intro b hb
      have hb := (mem_blocks hpattern).mp hb
      rw [List.length_take]
      omega
  exact eq_of_get size_writeBlocks hget

end Borked3DS.Library.Span
