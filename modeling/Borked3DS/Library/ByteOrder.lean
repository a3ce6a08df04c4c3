import Mathlib.Algebra.Order.Ring.Nat
import Mathlib.Data.List.Basic
import Mathlib.Data.Nat.Notation
import Mathlib.Tactic.Common

/-!
# The order of bytes

Numbers as runs of bytes, and words in a memory of bytes.
-/

set_option autoImplicit false

/-!
## Little-endian numbers

A number written as a run of bytes, the least significant byte first, and read back. Runs of
16-bit units are written unit by unit.
-/

namespace Borked3DS.Library

/-- The lowest `width` bytes of `n`. -/
def toLittleEndian : ℕ → ℕ → List UInt8
  | 0, _ => []
  | width + 1, n => UInt8.ofNat n :: toLittleEndian width (n / 256)

/-- The number whose bytes are given. -/
def ofLittleEndian : List UInt8 → ℕ
  | [] => 0
  | b :: bs => b.toNat + 256 * ofLittleEndian bs

@[simp] theorem length_toLittleEndian (width n : ℕ) : (toLittleEndian width n).length = width := by
  induction width generalizing n with
  | zero => rfl
  | succ width ih => rw [toLittleEndian, List.length_cons, ih]

theorem ofLittleEndian_toLittleEndian (width n : ℕ) :
    ofLittleEndian (toLittleEndian width n) = n % 256 ^ width := by
  induction width generalizing n with
  | zero => rw [toLittleEndian, ofLittleEndian, Nat.pow_zero, Nat.mod_one]
  | succ width ih =>
      have hbyte : (UInt8.ofNat n).toNat = n % 256 := UInt8.toNat_ofNat'
      rw [toLittleEndian, ofLittleEndian, ih, hbyte, Nat.pow_succ', Nat.mod_mul]

theorem ofLittleEndian_lt (bytes : List UInt8) : ofLittleEndian bytes < 256 ^ bytes.length := by
  induction bytes with
  | nil => exact Nat.one_pos
  | cons b bs ih =>
      have hb := b.toNat_lt
      rw [ofLittleEndian, List.length_cons, Nat.pow_succ']
      omega

theorem ofLittleEndian_append (xs ys : List UInt8) :
    ofLittleEndian (xs ++ ys) = ofLittleEndian xs + 256 ^ xs.length * ofLittleEndian ys := by
  induction xs with
  | nil => rw [List.nil_append, ofLittleEndian, List.length_nil, Nat.pow_zero, Nat.zero_add,
      Nat.one_mul]
  | cons b xs ih =>
      rw [List.cons_append, ofLittleEndian, ih, ofLittleEndian, List.length_cons, Nat.pow_succ',
        Nat.mul_add, Nat.add_assoc, Nat.mul_assoc]

/-- A bit of a number is one of a byte. -/
theorem testBit_ofLittleEndian (bytes : List UInt8) (j : ℕ) :
    (ofLittleEndian bytes).testBit j = (bytes.getD (j / 8) 0).toNat.testBit (j % 8) := by
  induction bytes generalizing j with
  | nil => rw [ofLittleEndian, List.getD_nil, Nat.zero_testBit, UInt8.toNat_zero, Nat.zero_testBit]
  | cons b bytes ih =>
      have hbits := Nat.testBit_two_pow_mul_add (ofLittleEndian bytes) b.toNat_lt j
      rw [ofLittleEndian, Nat.add_comm]
      refine hbits.trans ?_
      by_cases hj : j < 8
      · rw [if_pos hj, Nat.div_eq_of_lt hj, List.getD_cons_zero, Nat.mod_eq_of_lt hj]
      · have hdiv : j / 8 = (j - 8) / 8 + 1 := by omega
        have hmod : j % 8 = (j - 8) % 8 := by omega
        rw [if_neg hj, ih, hdiv, hmod, List.getD_cons_succ]

/-- A number that fits comes back. -/
theorem ofLittleEndian_of_lt {width n : ℕ} (h : n < 256 ^ width) :
    ofLittleEndian (toLittleEndian width n) = n := by
  rw [ofLittleEndian_toLittleEndian, Nat.mod_eq_of_lt h]

/-- The number of `n` bytes at an offset. -/
def fieldAt (bytes : List UInt8) (offset n : ℕ) : ℕ := ofLittleEndian ((bytes.drop offset).take n)

/-- A number that is written at an offset. -/
theorem fieldAt_append {front rest : List UInt8} {width n : ℕ} (h : n < 256 ^ width) :
    fieldAt (front ++ (toLittleEndian width n ++ rest)) front.length width = n := by
  unfold fieldAt
  rw [List.drop_left, List.take_left' (length_toLittleEndian width n), ofLittleEndian_of_lt h]

/-- Bytes are those of the number they give. -/
theorem toLittleEndian_ofLittleEndian (bytes : List UInt8) :
    toLittleEndian bytes.length (ofLittleEndian bytes) = bytes := by
  induction bytes with
  | nil => rfl
  | cons b bs ih =>
      have hb := b.toNat_lt
      have hhead : UInt8.ofNat (b.toNat + 256 * ofLittleEndian bs) = b := by
        apply UInt8.toNat_inj.mp
        rw [UInt8.toNat_ofNat']
        omega
      have htail : (b.toNat + 256 * ofLittleEndian bs) / 256 = ofLittleEndian bs := by omega
      rw [ofLittleEndian, List.length_cons, toLittleEndian, hhead, htail, ih]

/-- The bytes of a run of 16-bit units. -/
def unitsToBytes (units : List UInt16) : List UInt8 :=
  units.flatMap fun unit => toLittleEndian 2 unit.toNat

/-- The 16-bit units of a run of bytes; a last byte on its own is dropped. -/
def bytesToUnits : List UInt8 → List UInt16
  | low :: high :: rest => UInt16.ofNat (ofLittleEndian [low, high]) :: bytesToUnits rest
  | _ => []

end Borked3DS.Library

/-!
## Big-endian numbers

A number written as a run of bytes, the most significant byte first, and read back.
-/

namespace Borked3DS.Library

/-- The lowest `width` bytes of `n`, the highest first. -/
def toBigEndian (width n : ℕ) : List UInt8 := (toLittleEndian width n).reverse

/-- The number whose bytes are given, the highest first. -/
def ofBigEndian (bytes : List UInt8) : ℕ := ofLittleEndian bytes.reverse

@[simp] theorem length_toBigEndian (width n : ℕ) : (toBigEndian width n).length = width := by
  rw [toBigEndian, List.length_reverse, length_toLittleEndian]

theorem ofBigEndian_toBigEndian (width n : ℕ) :
    ofBigEndian (toBigEndian width n) = n % 256 ^ width := by
  rw [ofBigEndian, toBigEndian, List.reverse_reverse, ofLittleEndian_toLittleEndian]

/-- A number that fits comes back. -/
theorem ofBigEndian_of_lt {width n : ℕ} (h : n < 256 ^ width) :
    ofBigEndian (toBigEndian width n) = n := by
  rw [ofBigEndian_toBigEndian, Nat.mod_eq_of_lt h]

theorem ofBigEndian_lt (bytes : List UInt8) : ofBigEndian bytes < 256 ^ bytes.length := by
  have h := ofLittleEndian_lt bytes.reverse
  rwa [List.length_reverse] at h

@[simp] theorem ofBigEndian_nil : ofBigEndian [] = 0 := rfl

theorem ofBigEndian_append (xs ys : List UInt8) :
    ofBigEndian (xs ++ ys) = ofBigEndian xs * 256 ^ ys.length + ofBigEndian ys := by
  rw [ofBigEndian, List.reverse_append, ofLittleEndian_append, List.length_reverse, Nat.add_comm,
    Nat.mul_comm]
  rfl

theorem ofBigEndian_cons (b : UInt8) (bytes : List UInt8) :
    ofBigEndian (b :: bytes) = b.toNat * 256 ^ bytes.length + ofBigEndian bytes :=
  ofBigEndian_append [b] bytes

/-- Runs of one length are those of their numbers. -/
theorem ofBigEndian_inj {xs ys : List UInt8} (hlength : xs.length = ys.length)
    (h : ofBigEndian xs = ofBigEndian ys) : xs = ys := by
  have hxs := toLittleEndian_ofLittleEndian xs.reverse
  have hys := toLittleEndian_ofLittleEndian ys.reverse
  unfold ofBigEndian at h
  rw [List.length_reverse] at hxs hys
  rw [h, hlength, hys] at hxs
  exact (List.reverse_injective hxs).symm

end Borked3DS.Library

/-!
## Memory of bytes with 32-bit addresses

A memory holds a byte at every 32-bit address. Words of 32 bits are read and written in little-endian
order at any address; the addresses of their bytes wrap around. What a write does to the words that
are read later depends only on whether the two lie apart.
-/

namespace Borked3DS.Library

/-- A byte at every address. -/
abbrev ByteMemory := UInt32 → UInt8

namespace ByteMemory

/-- The word at an address. -/
def read32 (m : ByteMemory) (a : UInt32) : UInt32 :=
  UInt32.ofNat (ofLittleEndian [m a, m (a + 1), m (a + 2), m (a + 3)])

/-- The memory with a word at an address. -/
def write32 (m : ByteMemory) (a v : UInt32) : ByteMemory :=
  fun b => (toLittleEndian 4 v.toNat).getD (b - a).toNat (m b)

/-- The words at two addresses have no byte in common. -/
def Apart (a b : UInt32) : Prop := 4 ≤ (a - b).toNat ∧ 4 ≤ (b - a).toNat

instance (a b : UInt32) : Decidable (Apart a b) := inferInstanceAs (Decidable (_ ∧ _))

variable {m : ByteMemory} {a b v : UInt32}

/-- What lies behind a word is not written. -/
theorem write32_of_le (h : 4 ≤ (b - a).toNat) : m.write32 a v b = m b := by
  unfold write32
  rw [List.getD_eq_getElem?_getD, List.getElem?_eq_none (by rw [length_toLittleEndian]; exact h)]
  rfl

/-- A word that has been written is read back. -/
@[simp] theorem read32_write32 : (m.write32 a v).read32 a = v := by
  have hbytes : [m.write32 a v a, m.write32 a v (a + 1), m.write32 a v (a + 2),
      m.write32 a v (a + 3)] = toLittleEndian 4 v.toNat := by
    have hplace : ∀ k : UInt32, a + k - a = k := by
      intro k
      rw [UInt32.add_comm, UInt32.add_sub_cancel]
    unfold write32
    rw [hplace, hplace, hplace, UInt32.sub_self]
    rfl
  unfold read32
  rw [hbytes, ofLittleEndian_of_lt v.toNat_lt, UInt32.ofNat_toNat]

/-- A word that lies apart is not changed. -/
theorem read32_write32_of_apart (h : Apart a b) : (m.write32 a v).read32 b = m.read32 b := by
  have hbyte : ∀ k : UInt32, k.toNat < 4 → m.write32 a v (b + k) = m (b + k) := by
    intro k hk
    apply write32_of_le
    obtain ⟨hab, hba⟩ := h
    have ha := a.toNat_lt
    have hb := b.toNat_lt
    rw [UInt32.toNat_sub] at hab hba ⊢
    rw [UInt32.toNat_add]
    omega
  have hzero : m.write32 a v b = m b := by
    have h := hbyte 0 (by decide)
    rwa [UInt32.add_zero] at h
  unfold read32
  rw [hzero, hbyte 1 (by decide), hbyte 2 (by decide), hbyte 3 (by decide)]

end ByteMemory

end Borked3DS.Library
