import Mathlib.Data.Fintype.EquivFin
import Mathlib.Tactic.NormNum
import Borked3DS.Interface.KeyArithmetic

/-!
# Where arithmetic on keys is exact

The value of a rotated key is compared bit by bit with the rotated number. The carry that runs
through the bytes of a sum belongs to the sum of the bytes behind them, so that a sum that stops in
the middle of a key is exact when nothing is carried out of the half that it adds to.
-/

set_option autoImplicit false

namespace Borked3DS.Analysis

open Borked3DS.Library Borked3DS.Model.AES Borked3DS.Interface

variable {a b : AESKey} {c : UInt64} {r : UInt32}

theorem value_lt (key : AESKey) : key.value < 2 ^ 128 := by
  have h := ofBigEndian_lt key.bytes
  rw [key.length_bytes] at h
  exact lt_of_lt_of_eq h (by norm_num)

/-- A key is determined by its number. -/
theorem key_ext (h : a.value = b.value) : a = b := by
  have hbytes : a.bytes = b.bytes := by
    apply ofBigEndian_inj _ h
    rw [a.length_bytes, b.length_bytes]
  cases a
  cases b
  simp only at hbytes
  subst hbytes
  rfl

theorem value_ofNat (h : c.toNat < 2 ^ 128) : (AESKey.ofNat c.toNat).value = c.toNat := by
  refine ofBigEndian_of_lt (lt_of_lt_of_eq h ?_)
  norm_num

/-! ## Rotations -/

/-- A bit of a key's number is one of a byte. -/
theorem testBit_value (key : AESKey) {j : ℕ} (hj : j < 128) :
    key.value.testBit j = (key.byte (15 - j / 8)).toNat.testBit (j % 8) := by
  have hlength : j / 8 < key.bytes.length := by
    rw [key.length_bytes]
    omega
  unfold AESKey.value AESKey.byte ofBigEndian
  rw [testBit_ofLittleEndian, List.getD_eq_getElem?_getD, List.getElem?_reverse hlength,
    key.length_bytes, ← List.getD_eq_getElem?_getD]

/-- A bit of a rotated byte: of the first byte it is put together from if it lies above the shift,
and of the second one else. -/
theorem testBit_rotatedByte {byteShift bitShift i t : ℕ} (ht : t < 8) (hs : bitShift < 8) :
    (rotatedByte a byteShift bitShift i).toNat.testBit t =
      if bitShift ≤ t then (a.byte ((i + byteShift) % 16)).toNat.testBit (t - bitShift)
      else (a.byte ((i + byteShift + 1) % 16)).toNat.testBit (8 - bitShift + t) := by
  have hhigh : ∀ x : UInt8, 8 ≤ 8 - bitShift + t → x.toNat.testBit (8 - bitShift + t) = false := by
    intro x h
    apply Nat.testBit_lt_two_pow
    exact lt_of_lt_of_le x.toNat_lt (Nat.pow_le_pow_right (by norm_num) h)
  have hmask : Nat.testBit 0xFF t = true := by
    have h := Nat.testBit_two_pow_sub_one 8 t
    simpa [ht] using h
  unfold rotatedByte
  rw [UInt8.toNat_ofNat', Nat.testBit_mod_two_pow, Nat.testBit_and, Nat.testBit_or, hmask,
    Nat.testBit_shiftLeft, Nat.testBit_shiftRight]
  by_cases h : bitShift ≤ t
  · rw [if_pos h, hhigh _ (by omega)]
    simp [ht, h]
  · rw [if_neg h]
    simp [ht, h]

/-- A rotated key. -/
theorem rotated_value : (lrot128 a r).value =
    ((BitVec.ofNat 128 a.value).rotateLeft r.toNat).toNat := by
  apply Nat.eq_of_testBit_eq
  intro j
  by_cases hj : j < 128
  case neg =>
    have hwide : 2 ^ 128 ≤ 2 ^ j := Nat.pow_le_pow_right (by norm_num) (by omega)
    rw [Nat.testBit_lt_two_pow (lt_of_lt_of_le (value_lt _) hwide),
      Nat.testBit_lt_two_pow (lt_of_lt_of_le (BitVec.isLt _) hwide)]
  have hbyte : (lrot128 a r).byte (15 - j / 8) =
      rotatedByte a (r.toNat % 128 / 8) (r.toNat % 128 % 8) (15 - j / 8) := by
    unfold AESKey.byte lrot128
    rw [List.getD_eq_getElem?_getD, List.getElem?_map, List.getElem?_range (by omega)]
    rfl
  have hbits : ∀ i < 128, (BitVec.ofNat 128 a.value).getLsbD i = a.value.testBit i := by
    intro i hi
    rw [BitVec.getLsbD_ofNat, decide_eq_true hi, Bool.true_and]
  rw [testBit_value _ hj, hbyte, testBit_rotatedByte (by omega) (by omega),
    BitVec.testBit_toNat, BitVec.getLsbD_rotateLeft, decide_eq_true hj, Bool.true_and]
  generalize hrot : r.toNat % 128 = rot
  have hrot_lt : rot < 128 := by omega
  by_cases hwrap : j < rot
  · rw [decide_eq_true hwrap, cond_true, hbits _ (by omega), testBit_value _ (by omega)]
    split
    case isTrue h =>
      congr 3 <;> omega
    case isFalse h =>
      congr 3 <;> omega
  · rw [decide_eq_false hwrap, cond_false, hbits _ (by omega), testBit_value _ (by omega)]
    split
    case isTrue h =>
      congr 3 <;> omega
    case isFalse h =>
      congr 3 <;> omega

/-! ## Sums -/

/-- What is added so far, and the carry in front of it, make the sum of the bytes. -/
theorem addBytes_value (pairs : List (UInt8 × UInt8)) :
    ofBigEndian (addBytes pairs).1 + (addBytes pairs).2.toNat * 256 ^ pairs.length =
        ofBigEndian (pairs.map Prod.fst) + ofBigEndian (pairs.map Prod.snd) ∧
      (addBytes pairs).2.toNat ≤ 1 := by
  induction pairs with
  | nil => exact ⟨rfl, Nat.zero_le 1⟩
  | cons pair pairs ih =>
      obtain ⟨ih, hcarry⟩ := ih
      have hstep : addBytes (pair :: pairs) = addStep pair (addBytes pairs) := rfl
      have hfst := pair.1.toNat_lt
      have hsnd := pair.2.toNat_lt
      have hsum : (pair.1.toUInt32 + pair.2.toUInt32 + (addBytes pairs).2).toNat =
          pair.1.toNat + pair.2.toNat + (addBytes pairs).2.toNat := by
        simp only [UInt32.toNat_add, UInt8.toNat_toUInt32]
        omega
      have hbyte : ∀ sum : UInt32, (sum &&& 0xff).toUInt8.toNat = sum.toNat % 256 := by
        intro sum
        have hmask : (sum &&& 0xff).toNat = sum.toNat % 256 := by
          rw [UInt32.toNat_and]
          exact Nat.and_two_pow_sub_one_eq_mod sum.toNat 8
        rw [UInt32.toNat_toUInt8, hmask]
        exact Nat.mod_mod _ _
      have hrest : ∀ sum : UInt32, (sum >>> 8).toNat = sum.toNat / 256 := by
        intro sum
        rw [UInt32.toNat_shiftRight]
        exact Nat.shiftRight_eq_div_pow sum.toNat 8
      rw [hstep, addStep]
      dsimp only
      rw [List.map_cons, List.map_cons, ofBigEndian_cons, ofBigEndian_cons, ofBigEndian_cons, hbyte,
        hrest, hsum, length_addBytes, List.length_map, List.length_map, List.length_cons,
        Nat.pow_succ']
      generalize 256 ^ pairs.length = place at ih ⊢
      generalize hfirst : pair.1.toNat + pair.2.toNat + (addBytes pairs).2.toNat = sum
      have hdiv : sum % 256 * place + sum / 256 * (256 * place) = sum * place := by
        rw [← Nat.mul_assoc, Nat.mul_comm (sum / 256), ← Nat.add_mul, Nat.mod_add_div]
      have hcarry' : sum / 256 ≤ 1 := by omega
      refine ⟨?_, hcarry'⟩
      have hsplit : sum * place = pair.1.toNat * place + pair.2.toNat * place +
          (addBytes pairs).2.toNat * place := by
        rw [← hfirst, Nat.add_mul, Nat.add_mul]
      omega

/-- Bytes are added to bytes, and what is carried out of them is lost. -/
theorem addBytes_zip {xs ys : List UInt8} (h : xs.length = ys.length) :
    ofBigEndian (addBytes (xs.zip ys)).1 =
      (ofBigEndian xs + ofBigEndian ys) % 256 ^ xs.length := by
  obtain ⟨hsum, -⟩ := addBytes_value (xs.zip ys)
  have hlength : (addBytes (xs.zip ys)).1.length = xs.length := by
    rw [length_addBytes, List.length_zip, ← h, Nat.min_self]
  have hlt := ofBigEndian_lt (addBytes (xs.zip ys)).1
  rw [hlength] at hlt
  rw [List.map_fst_zip (Nat.le_of_eq h), List.map_snd_zip (Nat.le_of_eq h.symm), List.length_zip,
    ← h, Nat.min_self] at hsum
  rw [← hsum, Nat.add_mul_mod_self_right, Nat.mod_eq_of_lt hlt]

theorem added_value : (add128 a b).value = (a.value + b.value) % 2 ^ 128 := by
  have hsum := addBytes_zip (a.length_bytes.trans b.length_bytes.symm)
  rw [a.length_bytes] at hsum
  exact hsum

theorem counterBytes_value : ofBigEndian (counterBytes c) = c.toNat := by
  have hbyte : ∀ shift : UInt64, shift.toNat < 64 →
      (c >>> shift &&& 0xff).toUInt8 = UInt8.ofNat (c.toNat / 2 ^ shift.toNat) := by
    intro shift hshift
    have hmask : (c >>> shift &&& 0xff).toNat = (c >>> shift).toNat % 256 := by
      rw [UInt64.toNat_and]
      exact Nat.and_two_pow_sub_one_eq_mod _ 8
    apply UInt8.toNat_inj.mp
    rw [UInt64.toNat_toUInt8, hmask, UInt64.toNat_shiftRight, Nat.mod_eq_of_lt hshift,
      Nat.shiftRight_eq_div_pow, UInt8.toNat_ofNat']
    exact Nat.mod_mod _ _
  have hbytes : counterBytes c = toBigEndian 8 c.toNat := by
    change [(c >>> 56 &&& 0xff).toUInt8, (c >>> 48 &&& 0xff).toUInt8,
      (c >>> 40 &&& 0xff).toUInt8, (c >>> 32 &&& 0xff).toUInt8, (c >>> 24 &&& 0xff).toUInt8,
      (c >>> 16 &&& 0xff).toUInt8, (c >>> 8 &&& 0xff).toUInt8, (c >>> 0 &&& 0xff).toUInt8] = _
    rw [hbyte 56 (by decide), hbyte 48 (by decide), hbyte 40 (by decide), hbyte 32 (by decide),
      hbyte 24 (by decide), hbyte 16 (by decide), hbyte 8 (by decide), hbyte 0 (by decide)]
    simp [toBigEndian, toLittleEndian, Nat.div_div_eq_div_mul]
  rw [hbytes, ofBigEndian_toBigEndian]
  exact Nat.mod_eq_of_lt c.toNat_lt

/-- The upper half of a key stays as it is when a number is added. -/
theorem addedLow_value : (add128Low a c).value =
    a.value / 2 ^ 64 * 2 ^ 64 + (a.value % 2 ^ 64 + c.toNat) % 2 ^ 64 := by
  have hdrop : (a.bytes.drop 8).length = 8 := by rw [List.length_drop, a.length_bytes]
  have hlow := @addBytes_zip (a.bytes.drop 8) (counterBytes c) (hdrop.trans rfl)
  rw [hdrop, counterBytes_value] at hlow
  have hlt := ofBigEndian_lt (a.bytes.drop 8)
  rw [hdrop] at hlt
  have hvalue : a.value =
      ofBigEndian (a.bytes.take 8) * 256 ^ 8 + ofBigEndian (a.bytes.drop 8) := by
    have hsplit := ofBigEndian_append (a.bytes.take 8) (a.bytes.drop 8)
    rwa [List.take_append_drop, hdrop] at hsplit
  have hlength : (addBytes ((a.bytes.drop 8).zip (counterBytes c))).1.length = 8 := by
    rw [length_addBytes, List.length_zip, hdrop]
    rfl
  have hresult : (add128Low a c).value = ofBigEndian (a.bytes.take 8) * 256 ^ 8 +
      (ofBigEndian (a.bytes.drop 8) + c.toNat) % 256 ^ 8 := by
    rw [← hlow]
    have hsplit := ofBigEndian_append (a.bytes.take 8)
      (addBytes ((a.bytes.drop 8).zip (counterBytes c))).1
    rwa [hlength] at hsplit
  rw [hresult, hvalue]
  omega

/-- A number is added exactly if nothing is carried out of the lower half. -/
theorem addedLow_iff : (add128Low a c).value = (a.value + c.toNat) % 2 ^ 128 ↔
    a.value % 2 ^ 64 + c.toNat < 2 ^ 64 := by
  have ha := value_lt a
  have hc := c.toNat_lt
  rw [addedLow_value]
  omega

/-! ## All operations -/

theorem xor128_cancel : xor128 a (xor128 a b) = b ∧ xor128 (xor128 a b) b = a := by
  have hlength := a.length_bytes.trans b.length_bytes.symm
  have hleft : ∀ xs ys : List UInt8, xs.length = ys.length →
      List.zipWith (· ^^^ ·) xs (List.zipWith (· ^^^ ·) xs ys) = ys ∧
        List.zipWith (· ^^^ ·) (List.zipWith (· ^^^ ·) xs ys) ys = xs := by
    intro xs
    induction xs with
    | nil =>
        intro ys h
        rw [List.eq_nil_of_length_eq_zero h.symm]
        exact ⟨rfl, rfl⟩
    | cons x xs ih =>
        intro ys h
        cases ys with
        | nil => cases h
        | cons y ys =>
            obtain ⟨hl, hr⟩ := ih ys (Nat.succ.inj h)
            simp only [List.zipWith_cons_cons, hl, hr]
            constructor
            · rw [← UInt8.xor_assoc, UInt8.xor_self, UInt8.zero_xor]
            · rw [UInt8.xor_assoc, UInt8.xor_self, UInt8.xor_zero]
  obtain ⟨hl, hr⟩ := hleft a.bytes b.bytes hlength
  cases a
  cases b
  simp only [xor128, AESKey.mk.injEq]
  exact ⟨hl, hr⟩

/-- The arithmetic on keys is exact if and only if the number that is added carries nothing out of
the lower half of the key. -/
theorem arithmeticExact_iff (a b : AESKey) (c : UInt64) (r : UInt32) :
    ArithmeticExact a b c r ↔ a.value % 2 ^ 64 + c.toNat < 2 ^ 64 := by
  constructor
  · intro h
    exact addedLow_iff.mp h.addedLow
  · intro h
    have hlow := addedLow_iff.mpr h
    refine ⟨rotated_value, added_value, hlow, ?_, xor128_cancel.1, xor128_cancel.2⟩
    apply key_ext
    rw [hlow, added_value, value_ofNat (Nat.lt_trans c.toNat_lt (by norm_num))]

/-- One is added to a key whose lower half is all ones: the upper half stays. -/
theorem not_arithmeticExact_carry :
    ¬ ArithmeticExact (.ofNat (2 ^ 64 - 1)) (.ofNat 0) 1 0 := by
  intro h
  have hlow := h.addedLow
  revert hlow
  decide

/-! ## Normal keys -/

/-- The bits of a number are those of its rotation. -/
theorem rotateLeft_injective (k : ℕ) : Function.Injective fun x : BitVec 128 => x.rotateLeft k := by
  intro x x' h
  apply BitVec.eq_of_getLsbD_eq
  intro i hi
  have hbit : ∀ x : BitVec 128, x.getLsbD i = (x.rotateLeft k).getLsbD ((i + k % 128) % 128) := by
    intro x
    rw [BitVec.getLsbD_rotateLeft]
    by_cases hwrap : i + k % 128 < 128
    · rw [Nat.mod_eq_of_lt hwrap, decide_eq_false (by omega), cond_false, decide_eq_true hwrap,
        Bool.true_and, Nat.add_sub_cancel]
    · have hplace : (i + k % 128) % 128 = i + k % 128 - 128 := by omega
      have hback : 128 - k % 128 + (i + k % 128 - 128) = i := by omega
      rw [hplace, decide_eq_true (by omega), cond_true, hback]
  rw [hbit x, hbit x']
  exact congrArg (fun y => y.getLsbD ((i + k % 128) % 128)) h

theorem lrot128_injective (r : UInt32) : Function.Injective fun key => lrot128 key r := by
  intro a b h
  have hvalue : (lrot128 a r).value = (lrot128 b r).value := congrArg AESKey.value h
  rw [rotated_value, rotated_value] at hvalue
  have hnumber := rotateLeft_injective r.toNat (BitVec.eq_of_toNat_eq hvalue)
  have hsame := congrArg BitVec.toNat hnumber
  rw [BitVec.toNat_ofNat, BitVec.toNat_ofNat, Nat.mod_eq_of_lt (value_lt a),
    Nat.mod_eq_of_lt (value_lt b)] at hsame
  exact key_ext hsame

theorem add128_injective (c : AESKey) : Function.Injective fun key => add128 key c := by
  intro a b h
  have hvalue : (add128 a c).value = (add128 b c).value := congrArg AESKey.value h
  rw [added_value, added_value] at hvalue
  have ha := value_lt a
  have hb := value_lt b
  apply key_ext
  omega

theorem finite_key : Finite AESKey := by
  refine Finite.of_injective (fun key : AESKey => (⟨key.value, value_lt key⟩ : Fin (2 ^ 128))) ?_
  intro a b h
  exact key_ext (Fin.mk.inj h)

theorem normalKey_injective : (∀ y, Function.Injective fun x => normalKey x y) ∧
    ∀ x, Function.Injective (normalKey x) := by
  constructor
  · intro y x x' h
    have hxor := add128_injective generatorConstant (lrot128_injective 87 h)
    have hback : ∀ x, xor128 (xor128 (lrot128 x 2) y) y = lrot128 x 2 := fun x => xor128_cancel.2
    apply lrot128_injective 2
    calc lrot128 x 2 = xor128 (xor128 (lrot128 x 2) y) y := (hback x).symm
      _ = xor128 (xor128 (lrot128 x' 2) y) y := congrArg (xor128 · y) hxor
      _ = lrot128 x' 2 := hback x'
  · intro x y y' h
    have hxor := add128_injective generatorConstant (lrot128_injective 87 h)
    calc y = xor128 (lrot128 x 2) (xor128 (lrot128 x 2) y) := xor128_cancel.1.symm
      _ = xor128 (lrot128 x 2) (xor128 (lrot128 x 2) y') := congrArg (xor128 _) hxor
      _ = y' := xor128_cancel.1

/-- Whatever a slot holds, one of its keys can be set, in exactly one way, so that any normal key
comes out with the other. -/
theorem keySlot_existsUnique (slot : KeySlot) (normal : AESKey) :
    (∀ y, ∃! x, ((slot.setKeyY (some y)).setKeyX (some x)).normal = some normal) ∧
      ∀ x, ∃! y, ((slot.setKeyX (some x)).setKeyY (some y)).normal = some normal := by
  have hfinite := finite_key
  obtain ⟨hx, hy⟩ := normalKey_injective
  constructor
  · intro y
    have hbijective := Finite.injective_iff_bijective.mp (hx y)
    have hnormal : ∀ x, ((slot.setKeyY (some y)).setKeyX (some x)).normal =
        some (normalKey x y) := by
      intro x
      cases hslot : slot.x <;> simp [KeySlot.setKeyY, KeySlot.setKeyX, KeySlot.generateNormalKey,
        hslot]
    simp only [hnormal, Option.some.injEq]
    exact hbijective.existsUnique normal
  · intro x
    have hbijective := Finite.injective_iff_bijective.mp (hy x)
    have hnormal : ∀ y, ((slot.setKeyX (some x)).setKeyY (some y)).normal =
        some (normalKey x y) := by
      intro y
      cases hslot : slot.y <;> simp [KeySlot.setKeyY, KeySlot.setKeyX, KeySlot.generateNormalKey,
        hslot]
    simp only [hnormal, Option.some.injEq]
    exact hbijective.existsUnique normal

end Borked3DS.Analysis
