import Mathlib.Data.Nat.Bitwise
import Borked3DS.Interface.Patches

/-!
# Applying an IPS patch

The loop over the records against the format. A state of the loop is the part of the patch that is
still to be read; the lemmas about one turn say what it does for each kind of record, for the end
marker and for what is cut short.
-/

set_option autoImplicit false

namespace Borked3DS.Analysis

open Borked3DS.Library Borked3DS.Model Borked3DS.Model.Patch Borked3DS.Interface

section Bytes

theorem bigEndian16_eq (a b : UInt8) : bigEndian16 a b = a.toNat * 2 ^ 8 + b.toNat := by
  unfold bigEndian16
  rw [← Nat.shiftLeft_add_eq_or_of_lt (UInt8.toNat_lt b), Nat.shiftLeft_eq]

theorem bigEndian24_eq (a b c : UInt8) :
    bigEndian24 a b c = a.toNat * 2 ^ 16 + b.toNat * 2 ^ 8 + c.toNat := by
  have hb := UInt8.toNat_lt b
  have hlow : b.toNat <<< 8 < 2 ^ 16 := by
    rw [Nat.shiftLeft_eq]
    omega
  have hsum : a.toNat <<< 16 + b.toNat <<< 8 = (a.toNat <<< 8 + b.toNat) <<< 8 := by
    simp only [Nat.shiftLeft_eq]
    omega
  unfold bigEndian24
  rw [← Nat.shiftLeft_add_eq_or_of_lt hlow, hsum,
    ← Nat.shiftLeft_add_eq_or_of_lt (UInt8.toNat_lt c)]
  simp only [Nat.shiftLeft_eq]
  omega

theorem encode16_bigEndian16 (a b : UInt8) : IpsRecord.encode16 (bigEndian16 a b) = [a, b] := by
  have ha := UInt8.toNat_lt a
  have hb := UInt8.toNat_lt b
  unfold IpsRecord.encode16
  congr 1
  · apply UInt8.toNat_inj.mp
    rw [bigEndian16_eq, UInt8.toNat_ofNat']
    omega
  · congr 1
    apply UInt8.toNat_inj.mp
    rw [bigEndian16_eq, UInt8.toNat_ofNat']
    omega
theorem encode24_bigEndian24 (a b c : UInt8) :
    IpsRecord.encode24 (bigEndian24 a b c) = [a, b, c] := by
  have ha := UInt8.toNat_lt a
  have hb := UInt8.toNat_lt b
  have hc := UInt8.toNat_lt c
  unfold IpsRecord.encode24
  rw [bigEndian24_eq]
  simp only [List.cons.injEq, and_true, ← UInt8.toNat_inj, UInt8.toNat_ofNat']
  omega
theorem bigEndian16_encode {n : ℕ} (h : n < 2 ^ 16) :
    bigEndian16 (UInt8.ofNat (n / 2 ^ 8)) (UInt8.ofNat n) = n := by
  rw [bigEndian16_eq, UInt8.toNat_ofNat', UInt8.toNat_ofNat']
  omega

theorem bigEndian24_encode {n : ℕ} (h : n < 2 ^ 24) :
    bigEndian24 (UInt8.ofNat (n / 2 ^ 16)) (UInt8.ofNat (n / 2 ^ 8)) (UInt8.ofNat n) = n := by
  rw [bigEndian24_eq, UInt8.toNat_ofNat', UInt8.toNat_ofNat', UInt8.toNat_ofNat']
  omega

theorem bigEndian16_lt (a b : UInt8) : bigEndian16 a b < 2 ^ 16 := by
  have ha := UInt8.toNat_lt a
  have hb := UInt8.toNat_lt b
  rw [bigEndian16_eq]
  omega

theorem bigEndian24_lt (a b c : UInt8) : bigEndian24 a b c < 2 ^ 24 := by
  have ha := UInt8.toNat_lt a
  have hb := UInt8.toNat_lt b
  have hc := UInt8.toNat_lt c
  rw [bigEndian24_eq]
  omega

end Bytes

/-- The loop over the records with the cursor behind `pre`. -/
def applyRest (pre rest : List UInt8) (fuel : ℕ) (buffer : List UInt8) :
    Exec (Bool × List UInt8) :=
  applyRecords (pre ++ rest) ((pre ++ rest).length - 3) fuel pre.length buffer

section Turn

variable {pre rest data buffer : List UInt8} {o₂ o₁ o₀ l₁ l₀ r₁ r₀ v : UInt8} {fuel : ℕ}

/-- The loop that writes an RLE record writes all of its bytes. -/
theorem fillRun_eq {ips : List UInt8} {cursor offset : ℕ}
    (hv : readAt Fault.undefined ips (cursor + 7) = .ok v) :
    ∀ (k i : ℕ) (b : List UInt8), offset + i + k ≤ b.length →
      fillRun ips cursor offset i k b = .ok (overwrite b (offset + i) (List.replicate k v)) := by
  intro k
  induction k with
  | zero =>
    intro i b _
    rw [List.replicate_zero, overwrite_nil]
    rfl
  | succ k ih =>
    intro i b hfit
    have hone : offset + i + [v].length ≤ b.length := by
      rw [List.length_singleton]
      omega
    have hrest : offset + (i + 1) + k ≤ (overwrite b (offset + i) [v]).length := by
      rw [length_overwrite hone]
      omega
    have hjoin := overwrite_append (List.replicate k v) hone
    rw [List.length_singleton] at hjoin
    rw [fillRun, hv]
    show (do
      let b' ← writeRun Fault.undefined b (offset + i) [v]
      fillRun ips cursor offset (i + 1) k b') = _
    rw [writeRun_ok hone]
    show fillRun ips cursor offset (i + 1) k (overwrite b (offset + i) [v]) = _
    rw [ih (i + 1) _ hrest, ← Nat.add_assoc, hjoin]
    rfl

/-- The loop ends when no more than three bytes are left, whatever they are. -/
theorem applyRest_short (hrest : rest.length ≤ 3) :
    applyRest pre rest (fuel + 1) buffer = .ok (true, buffer) := by
  unfold applyRest
  rw [applyRecords, if_neg]
  · rfl
  · rw [List.length_append]
    omega

/-- The end marker with something behind it ends the loop, too. -/
theorem applyRest_eof {x : UInt8} :
    applyRest pre (eofMarker ++ x :: rest) (fuel + 1) buffer = .ok (false, buffer) := by
  have hlen : (eofMarker ++ x :: rest).length = rest.length + 4 := rfl
  unfold applyRest
  rw [applyRecords, if_pos]
  · have hread := readRun_append Fault.undefined pre (eofMarker ++ x :: rest) 0 3
    have hmarker : readRun Fault.undefined (eofMarker ++ x :: rest) 0 3 = .ok eofMarker := by
      unfold readRun
      rw [if_pos (by omega)]
      rfl
    rw [Nat.add_zero, hmarker] at hread
    rw [hread]
    rfl
  · rw [List.length_append]
    omega

/-- A turn that comes to the fourth byte of something else than the end marker. -/
theorem applyRest_turn {t : List UInt8} (hoff : [o₂, o₁, o₀] ≠ eofMarker) :
    applyRest pre (o₂ :: o₁ :: o₀ :: l₁ :: t) (fuel + 1) buffer = (do
      let low ← readAt .undefined t 0
      if bigEndian16 l₁ low = 0 then
        let length := bigEndian16 (← readAt .undefined t 1) (← readAt .undefined t 2)
        if buffer.length < bigEndian24 o₂ o₁ o₀ + length then pure (false, buffer)
        else
          let buffer ← fillRun (pre ++ o₂ :: o₁ :: o₀ :: l₁ :: t) pre.length (bigEndian24 o₂ o₁ o₀) 0
            length buffer
          applyRecords (pre ++ o₂ :: o₁ :: o₀ :: l₁ :: t)
            ((pre ++ o₂ :: o₁ :: o₀ :: l₁ :: t).length - 3) fuel (pre.length + 8) buffer
      else if buffer.length < bigEndian24 o₂ o₁ o₀ + bigEndian16 l₁ low then pure (false, buffer)
      else
        let data ← readRun .undefined t 1 (bigEndian16 l₁ low)
        let buffer ← writeRun .undefined buffer (bigEndian24 o₂ o₁ o₀) data
        applyRecords (pre ++ o₂ :: o₁ :: o₀ :: l₁ :: t)
          ((pre ++ o₂ :: o₁ :: o₀ :: l₁ :: t).length - 3) fuel
          (pre.length + bigEndian16 l₁ low + 5) buffer) := by
  have hat := readAt_append Fault.undefined pre (o₂ :: o₁ :: o₀ :: l₁ :: t)
  have hzero := hat 0
  rw [Nat.add_zero] at hzero
  have hrun := readRun_append Fault.undefined pre (o₂ :: o₁ :: o₀ :: l₁ :: t)
  have hmarker := hrun 0 3
  have hthree : readRun Fault.undefined (o₂ :: o₁ :: o₀ :: l₁ :: t) 0 3 = .ok [o₂, o₁, o₀] := by
    unfold readRun
    rw [if_pos (by simp only [List.length_cons]; omega)]
    rfl
  rw [Nat.add_zero, hthree] at hmarker
  have hmore : pre.length < (pre ++ o₂ :: o₁ :: o₀ :: l₁ :: t).length - 3 := by
    simp only [List.length_append, List.length_cons]
    omega
  unfold applyRest
  rw [applyRecords, if_pos hmore, hmarker]
  simp only [hzero, hat, hrun, readAt_cons_succ, readAt_cons_zero, readRun_cons_succ]
  show (if [o₂, o₁, o₀] = eofMarker then _ else _) = _
  rw [if_neg hoff]
  rfl

/-- The loop with the cursor moved over some bytes. -/
theorem applyRecords_behind {whole read : List UInt8} {cursor : ℕ} (hwhole : whole = read ++ rest)
    (hcursor : cursor = pre.length + read.length) :
    applyRecords (pre ++ whole) ((pre ++ whole).length - 3) fuel cursor buffer =
      applyRest (pre ++ read) rest fuel buffer := by
  subst hwhole hcursor
  unfold applyRest
  rw [List.append_assoc, ← List.length_append]

theorem applyRest_outside (hoff : [o₂, o₁, o₀] ≠ eofMarker) (hlen : bigEndian16 l₁ l₀ ≠ 0)
    (hsize : buffer.length < bigEndian24 o₂ o₁ o₀ + bigEndian16 l₁ l₀) :
    applyRest pre (o₂ :: o₁ :: o₀ :: l₁ :: l₀ :: rest) (fuel + 1) buffer = .ok (false, buffer) := by
  rw [applyRest_turn hoff]
  show (if bigEndian16 l₁ l₀ = 0 then _ else _) = _
  rw [if_neg hlen, if_pos hsize]
  rfl

theorem applyRest_outsideRle (hoff : [o₂, o₁, o₀] ≠ eofMarker) (hlen : bigEndian16 l₁ l₀ = 0)
    (hsize : buffer.length < bigEndian24 o₂ o₁ o₀ + bigEndian16 r₁ r₀) :
    applyRest pre (o₂ :: o₁ :: o₀ :: l₁ :: l₀ :: r₁ :: r₀ :: rest) (fuel + 1) buffer =
      .ok (false, buffer) := by
  rw [applyRest_turn hoff]
  show (if bigEndian16 l₁ l₀ = 0 then _ else _) = _
  rw [if_pos hlen]
  show (if buffer.length < bigEndian24 o₂ o₁ o₀ + bigEndian16 r₁ r₀ then _ else _) = _
  rw [if_pos hsize]
  rfl

/-- A normal record inside the buffer is applied. -/
theorem applyRest_record (hoff : [o₂, o₁, o₀] ≠ eofMarker) (hlen : bigEndian16 l₁ l₀ ≠ 0)
    (hdata : data.length = bigEndian16 l₁ l₀)
    (hinside : bigEndian24 o₂ o₁ o₀ + bigEndian16 l₁ l₀ ≤ buffer.length) :
    applyRest pre (o₂ :: o₁ :: o₀ :: l₁ :: l₀ :: (data ++ rest)) (fuel + 1) buffer =
      applyRest (pre ++ o₂ :: o₁ :: o₀ :: l₁ :: l₀ :: data) rest fuel
        (overwrite buffer (bigEndian24 o₂ o₁ o₀) data) := by
  have hread : readRun Fault.undefined (l₀ :: (data ++ rest)) 1 (bigEndian16 l₁ l₀) = .ok data := by
    unfold readRun
    rw [if_pos]
    · show Except.ok ((data ++ rest).take (bigEndian16 l₁ l₀)) = _
      rw [← hdata, List.take_left]
    · rw [List.length_cons, List.length_append]
      omega
  rw [applyRest_turn hoff]
  show (if bigEndian16 l₁ l₀ = 0 then _ else _) = _
  rw [if_neg hlen, if_neg (Nat.not_lt.mpr hinside), hread]
  show (do
    let buffer ← writeRun Fault.undefined buffer (bigEndian24 o₂ o₁ o₀) data
    _) = _
  rw [writeRun_ok (by rw [hdata]; exact hinside)]
  apply applyRecords_behind
  · rfl
  · simp only [List.length_cons, hdata]
    omega

/-- An RLE record inside the buffer is applied. -/
theorem applyRest_recordRle (hoff : [o₂, o₁, o₀] ≠ eofMarker) (hlen : bigEndian16 l₁ l₀ = 0)
    (hinside : bigEndian24 o₂ o₁ o₀ + bigEndian16 r₁ r₀ ≤ buffer.length) :
    applyRest pre (o₂ :: o₁ :: o₀ :: l₁ :: l₀ :: r₁ :: r₀ :: v :: rest) (fuel + 1) buffer =
      applyRest (pre ++ [o₂, o₁, o₀, l₁, l₀, r₁, r₀, v]) rest fuel
        (overwrite buffer (bigEndian24 o₂ o₁ o₀) (List.replicate (bigEndian16 r₁ r₀) v)) := by
  have hv : readAt Fault.undefined (pre ++ o₂ :: o₁ :: o₀ :: l₁ :: l₀ :: r₁ :: r₀ :: v :: rest)
      (pre.length + 7) = .ok v := readAt_append _ _ _ _
  have hfill : fillRun (pre ++ o₂ :: o₁ :: o₀ :: l₁ :: l₀ :: r₁ :: r₀ :: v :: rest) pre.length
      (bigEndian24 o₂ o₁ o₀) 0 (bigEndian16 r₁ r₀) buffer =
        .ok (overwrite buffer (bigEndian24 o₂ o₁ o₀) (List.replicate (bigEndian16 r₁ r₀) v)) :=
    fillRun_eq hv _ 0 buffer hinside
  rw [applyRest_turn hoff]
  show (if bigEndian16 l₁ l₀ = 0 then _ else _) = _
  rw [if_pos hlen]
  show (if buffer.length < bigEndian24 o₂ o₁ o₀ + bigEndian16 r₁ r₀ then _ else _) = _
  rw [if_neg (Nat.not_lt.mpr hinside), hfill]
  apply applyRecords_behind
  · rfl
  · rfl

end Turn

/-- Bytes that are some records inside a buffer of some size and the end marker. -/
def EncodesRecords (size : ℕ) (rest : List UInt8) (records : List IpsRecord) : Prop :=
  rest = records.flatMap IpsRecord.encode ++ eofMarker ∧ ∀ r ∈ records, r.Valid ∧ r.Inside size

section Format

variable {size : ℕ} {rest data : List UInt8} {records : List IpsRecord}
  {o₂ o₁ o₀ l₁ l₀ r₁ r₀ v : UInt8}

/-- What follows the end marker's place in a list of records: the end marker, or a record whose
offset is another one. -/
theorem EncodesRecords.cases_records (h : EncodesRecords size rest records) :
    (records = [] ∧ rest = eofMarker) ∨
    (∃ o₂ o₁ o₀ l₁ l₀ data tail others, records = .normal (bigEndian24 o₂ o₁ o₀) data :: others ∧
      rest = o₂ :: o₁ :: o₀ :: l₁ :: l₀ :: (data ++ tail) ∧ [o₂, o₁, o₀] ≠ eofMarker ∧
      bigEndian16 l₁ l₀ ≠ 0 ∧ data.length = bigEndian16 l₁ l₀ ∧
      bigEndian24 o₂ o₁ o₀ + bigEndian16 l₁ l₀ ≤ size ∧ EncodesRecords size tail others) ∨
    (∃ o₂ o₁ o₀ r₁ r₀ v tail others,
      records = .rle (bigEndian24 o₂ o₁ o₀) (bigEndian16 r₁ r₀) v :: others ∧
      rest = o₂ :: o₁ :: o₀ :: 0 :: 0 :: r₁ :: r₀ :: v :: tail ∧ [o₂, o₁, o₀] ≠ eofMarker ∧
      bigEndian24 o₂ o₁ o₀ + bigEndian16 r₁ r₀ ≤ size ∧ EncodesRecords size tail others) := by
  obtain ⟨hrest, hall⟩ := h
  cases records with
  | nil => exact Or.inl ⟨rfl, hrest⟩
  | cons r others =>
    obtain ⟨hvalid, hinside⟩ := hall r List.mem_cons_self
    have htail : EncodesRecords size (others.flatMap IpsRecord.encode ++ eofMarker) others :=
      ⟨rfl, fun r' hr' => hall r' (List.mem_cons_of_mem _ hr')⟩
    rw [List.flatMap_cons, List.append_assoc] at hrest
    cases r with
    | normal offset data =>
      obtain ⟨hoffset, hmarker, hpos, hlength⟩ := hvalid
      have hoff := bigEndian24_encode hoffset
      have hlen := bigEndian16_encode hlength
      refine Or.inr (Or.inl ⟨UInt8.ofNat (offset / 2 ^ 16), UInt8.ofNat (offset / 2 ^ 8),
        UInt8.ofNat offset, UInt8.ofNat (data.length / 2 ^ 8), UInt8.ofNat data.length, data, _,
        others, ?_, ?_, hmarker, ?_, hlen.symm, ?_, htail⟩)
      · rw [hoff]
      · rw [hrest]
        show IpsRecord.encode24 offset ++ IpsRecord.encode16 data.length ++ data ++ _ = _
        rw [List.append_assoc]
        rfl
      · rw [hlen]
        omega
      · rw [hoff, hlen]
        exact hinside
    | rle offset length value =>
      obtain ⟨hoffset, hmarker, hlength⟩ := hvalid
      have hoff := bigEndian24_encode hoffset
      have hlen := bigEndian16_encode hlength
      refine Or.inr (Or.inr ⟨UInt8.ofNat (offset / 2 ^ 16), UInt8.ofNat (offset / 2 ^ 8),
        UInt8.ofNat offset, UInt8.ofNat (length / 2 ^ 8), UInt8.ofNat length, value, _, others,
        ?_, hrest, hmarker, ?_, htail⟩)
      · rw [hoff, hlen]
      · rw [hoff, hlen]
        have hfit : offset + (List.replicate length value).length ≤ size := hinside
        rwa [List.length_replicate] at hfit

/-- Two bytes that give the number 0 are both 0. -/
theorem bigEndian16_eq_zero (h : bigEndian16 l₁ l₀ = 0) : l₁ = 0 ∧ l₀ = 0 := by
  rw [bigEndian16_eq] at h
  have h1 : l₁.toNat = 0 := by omega
  have h0 : l₀.toNat = 0 := by omega
  exact ⟨UInt8.toNat_inj.mp h1, UInt8.toNat_inj.mp h0⟩

theorem EncodesRecords.of_normal {t : List UInt8} (hlen : bigEndian16 l₁ l₀ ≠ 0)
    (hoff : [o₂, o₁, o₀] ≠ eofMarker)
    (h : EncodesRecords size (o₂ :: o₁ :: o₀ :: l₁ :: l₀ :: t) records) :
    ∃ data tail others, records = .normal (bigEndian24 o₂ o₁ o₀) data :: others ∧
      t = data ++ tail ∧ data.length = bigEndian16 l₁ l₀ ∧
      bigEndian24 o₂ o₁ o₀ + bigEndian16 l₁ l₀ ≤ size ∧ EncodesRecords size tail others := by
  rcases h.cases_records with ⟨_, hcut⟩ |
    ⟨_, _, _, _, _, data, tail, others, hrecords, hcut, _, _, hdata, hinside, htail⟩ |
    ⟨_, _, _, _, _, _, _, _, _, hcut, _⟩
  · cases hcut
  · cases hcut
    exact ⟨data, tail, others, hrecords, rfl, hdata, hinside, htail⟩
  · cases hcut
    exact absurd rfl hlen

theorem EncodesRecords.of_rle {t : List UInt8} (hlen : bigEndian16 l₁ l₀ = 0)
    (hoff : [o₂, o₁, o₀] ≠ eofMarker)
    (h : EncodesRecords size (o₂ :: o₁ :: o₀ :: l₁ :: l₀ :: r₁ :: r₀ :: t) records) :
    ∃ v tail others, records = .rle (bigEndian24 o₂ o₁ o₀) (bigEndian16 r₁ r₀) v :: others ∧
      t = v :: tail ∧ bigEndian24 o₂ o₁ o₀ + bigEndian16 r₁ r₀ ≤ size ∧
      EncodesRecords size tail others := by
  rcases h.cases_records with ⟨_, hcut⟩ |
    ⟨_, _, _, k₁, k₀, _, _, _, _, hcut, _, hne, _⟩ |
    ⟨_, _, _, _, _, v, tail, others, hrecords, hcut, _, hinside, htail⟩
  · cases hcut
  · simp only [List.cons.injEq] at hcut
    rw [← hcut.2.2.2.1, ← hcut.2.2.2.2.1] at hne
    exact absurd hlen hne
  · cases hcut
    exact ⟨v, tail, others, hrecords, rfl, hinside, htail⟩

theorem EncodesRecords.cons_normal (hoff : [o₂, o₁, o₀] ≠ eofMarker)
    (hlen : bigEndian16 l₁ l₀ ≠ 0) (hdata : data.length = bigEndian16 l₁ l₀)
    (hinside : bigEndian24 o₂ o₁ o₀ + bigEndian16 l₁ l₀ ≤ size)
    (h : EncodesRecords size rest records) :
    EncodesRecords size (o₂ :: o₁ :: o₀ :: l₁ :: l₀ :: (data ++ rest))
      (.normal (bigEndian24 o₂ o₁ o₀) data :: records) := by
  constructor
  · rw [List.flatMap_cons, List.append_assoc, ← h.1]
    show _ = IpsRecord.encode24 (bigEndian24 o₂ o₁ o₀) ++ IpsRecord.encode16 data.length ++ data ++ _
    rw [encode24_bigEndian24, hdata, encode16_bigEndian16, List.append_assoc]
    rfl
  · intro r hr
    rcases List.mem_cons.mp hr with rfl | hr
    · refine ⟨⟨bigEndian24_lt o₂ o₁ o₀, ?_, ?_, ?_⟩, ?_⟩
      · rwa [encode24_bigEndian24]
      · omega
      · rw [hdata]
        exact bigEndian16_lt l₁ l₀
      · show bigEndian24 o₂ o₁ o₀ + data.length ≤ size
        rwa [hdata]
    · exact h.2 r hr

theorem EncodesRecords.cons_rle (hoff : [o₂, o₁, o₀] ≠ eofMarker)
    (hlen : bigEndian16 l₁ l₀ = 0)
    (hinside : bigEndian24 o₂ o₁ o₀ + bigEndian16 r₁ r₀ ≤ size)
    (h : EncodesRecords size rest records) :
    EncodesRecords size (o₂ :: o₁ :: o₀ :: l₁ :: l₀ :: r₁ :: r₀ :: v :: rest)
      (.rle (bigEndian24 o₂ o₁ o₀) (bigEndian16 r₁ r₀) v :: records) := by
  obtain ⟨rfl, rfl⟩ := bigEndian16_eq_zero hlen
  constructor
  · rw [List.flatMap_cons, List.append_assoc, ← h.1]
    show _ = IpsRecord.encode24 (bigEndian24 o₂ o₁ o₀) ++ [0, 0] ++
      IpsRecord.encode16 (bigEndian16 r₁ r₀) ++ [v] ++ rest
    rw [encode24_bigEndian24, encode16_bigEndian16]
    rfl
  · intro r hr
    rcases List.mem_cons.mp hr with rfl | hr
    · refine ⟨⟨bigEndian24_lt o₂ o₁ o₀, ?_, bigEndian16_lt r₁ r₀⟩, ?_⟩
      · rwa [encode24_bigEndian24]
      · show bigEndian24 o₂ o₁ o₀ + (List.replicate (bigEndian16 r₁ r₀) v).length ≤ size
        rwa [List.length_replicate]
    · exact h.2 r hr

/-- A list of records is framed. -/
theorem EncodesRecords.framed :
    ∀ {records : List IpsRecord} {rest : List UInt8}, EncodesRecords size rest records →
      Framed size rest := by
  intro records
  induction records with
  | nil =>
    intro rest h
    rw [h.1]
    exact .done
  | cons r others ih =>
    intro rest h
    rcases h.cases_records with ⟨hnil, _⟩ | ⟨o₂, o₁, o₀, l₁, l₀, data, tail, others', hcons, rfl,
      hoff, hlen, hdata, _, htail⟩ | ⟨o₂, o₁, o₀, r₁, r₀, v, tail, others', hcons, rfl, hoff, _,
      htail⟩
    · cases hnil
    · cases hcons
      exact .record o₂ o₁ o₀ l₁ l₀ data tail hoff hlen hdata (ih htail)
    · cases hcons
      exact .recordRle o₂ o₁ o₀ 0 0 r₁ r₀ v tail hoff rfl (ih htail)

end Format

/-- What the loop promises from some point of the patch on. -/
def AppliesRest (pre rest : List UInt8) (fuel : ℕ) (buffer : List UInt8) : Prop :=
  ∃ success result, applyRest pre rest fuel buffer = .ok (success, result) ∧
    (∀ records, EncodesRecords buffer.length rest records →
      success = true ∧ result = records.foldl IpsRecord.apply buffer) ∧
    ((∀ records, ¬ EncodesRecords buffer.length rest records) → success = false)

section Loop

variable {size : ℕ} {rest : List UInt8}

/-- Where the loop gives up there are no records. -/
theorem appliesRest_of_false {pre buffer : List UInt8} {fuel : ℕ}
    (hrun : applyRest pre rest fuel buffer = .ok (false, buffer))
    (hnone : ∀ records, ¬ EncodesRecords buffer.length rest records) :
    AppliesRest pre rest fuel buffer := by
  refine ⟨false, buffer, hrun, ?_, fun _ => rfl⟩
  intro records hrecords
  exact absurd hrecords (hnone records)

/-- The loop keeps its promise on a framed rest, by induction on the frame. -/
theorem appliesRest_of_framed (h : Framed size rest) :
    ∀ (pre : List UInt8) (fuel : ℕ) (buffer : List UInt8), buffer.length = size →
      rest.length < fuel → AppliesRest pre rest fuel buffer := by
  induction h with
  | done =>
    intro pre fuel buffer _ hfuel
    obtain ⟨fuel, rfl⟩ := Nat.exists_eq_add_one_of_ne_zero (Nat.ne_zero_of_lt hfuel)
    refine ⟨true, buffer, applyRest_short (Nat.le_refl 3), ?_, ?_⟩
    · intro records hrecords
      rcases hrecords.cases_records with ⟨rfl, _⟩ | ⟨_, _, _, _, _, _, _, _, _, hcut, _⟩ |
        ⟨_, _, _, _, _, _, _, _, _, hcut, _⟩
      · exact ⟨rfl, rfl⟩
      · cases hcut
      · cases hcut
    · intro hnone
      refine absurd ⟨rfl, ?_⟩ (hnone [])
      intro r hr
      cases hr
  | early x rest =>
    intro pre fuel buffer _ hfuel
    obtain ⟨fuel, rfl⟩ := Nat.exists_eq_add_one_of_ne_zero (Nat.ne_zero_of_lt hfuel)
    apply appliesRest_of_false applyRest_eof
    intro records hrecords
    rcases hrecords.cases_records with ⟨_, hcut⟩ |
      ⟨_, _, _, _, _, _, _, _, _, hcut, hoff, _⟩ | ⟨_, _, _, _, _, _, _, _, _, hcut, hoff, _⟩
    · cases hcut
    · cases hcut
      exact hoff rfl
    · cases hcut
      exact hoff rfl
  | outside o₂ o₁ o₀ l₁ l₀ rest hoff hlen hsize =>
    intro pre fuel buffer hbuffer hfuel
    obtain ⟨fuel, rfl⟩ := Nat.exists_eq_add_one_of_ne_zero (Nat.ne_zero_of_lt hfuel)
    rw [← hbuffer] at hsize
    apply appliesRest_of_false (applyRest_outside hoff hlen hsize)
    intro records hrecords
    obtain ⟨_, _, _, _, _, _, hinside, _⟩ := hrecords.of_normal hlen hoff
    omega
  | outsideRle o₂ o₁ o₀ l₁ l₀ r₁ r₀ rest hoff hlen hsize =>
    intro pre fuel buffer hbuffer hfuel
    obtain ⟨fuel, rfl⟩ := Nat.exists_eq_add_one_of_ne_zero (Nat.ne_zero_of_lt hfuel)
    rw [← hbuffer] at hsize
    apply appliesRest_of_false (applyRest_outsideRle hoff hlen hsize)
    intro records hrecords
    obtain ⟨_, _, _, _, _, hinside, _⟩ := hrecords.of_rle hlen hoff
    omega
  | record o₂ o₁ o₀ l₁ l₀ data rest hoff hlen hdata _ ih =>
    intro pre fuel buffer hbuffer hfuel
    obtain ⟨fuel, rfl⟩ := Nat.exists_eq_add_one_of_ne_zero (Nat.ne_zero_of_lt hfuel)
    rcases Nat.lt_or_ge buffer.length (bigEndian24 o₂ o₁ o₀ + bigEndian16 l₁ l₀) with hsize | hfit
    · apply appliesRest_of_false (applyRest_outside hoff hlen hsize)
      intro records hrecords
      obtain ⟨_, _, _, _, _, _, hinside, _⟩ := hrecords.of_normal hlen hoff
      omega
    · have hplace : bigEndian24 o₂ o₁ o₀ + data.length ≤ buffer.length := by
        rwa [hdata]
      have hlength := length_overwrite hplace
      have hshort : rest.length < fuel := by
        simp only [List.length_cons, List.length_append] at hfuel
        omega
      obtain ⟨success, result, hrun, hgood, hbad⟩ :=
        ih (pre ++ o₂ :: o₁ :: o₀ :: l₁ :: l₀ :: data) fuel
          (overwrite buffer (bigEndian24 o₂ o₁ o₀) data) (hlength.trans hbuffer) hshort
      rw [hlength] at hgood hbad
      refine ⟨success, result, (applyRest_record hoff hlen hdata hfit).trans hrun, ?_, ?_⟩
      · intro records hrecords
        obtain ⟨data', tail, others, rfl, hcut, hdata', _, htail⟩ := hrecords.of_normal hlen hoff
        obtain ⟨rfl, rfl⟩ := List.append_inj hcut (hdata.trans hdata'.symm)
        exact hgood others htail
      · intro hnone
        apply hbad
        intro others hothers
        exact hnone _ (hothers.cons_normal hoff hlen hdata hfit)
  | recordRle o₂ o₁ o₀ l₁ l₀ r₁ r₀ v rest hoff hlen _ ih =>
    intro pre fuel buffer hbuffer hfuel
    obtain ⟨fuel, rfl⟩ := Nat.exists_eq_add_one_of_ne_zero (Nat.ne_zero_of_lt hfuel)
    rcases Nat.lt_or_ge buffer.length (bigEndian24 o₂ o₁ o₀ + bigEndian16 r₁ r₀) with hsize | hfit
    · apply appliesRest_of_false (applyRest_outsideRle hoff hlen hsize)
      intro records hrecords
      obtain ⟨_, _, _, _, _, hinside, _⟩ := hrecords.of_rle hlen hoff
      omega
    · have hplace : bigEndian24 o₂ o₁ o₀ + (List.replicate (bigEndian16 r₁ r₀) v).length ≤
          buffer.length := by
        rwa [List.length_replicate]
      have hlength := length_overwrite hplace
      have hshort : rest.length < fuel := by
        simp only [List.length_cons] at hfuel
        omega
      obtain ⟨success, result, hrun, hgood, hbad⟩ :=
        ih (pre ++ [o₂, o₁, o₀, l₁, l₀, r₁, r₀, v]) fuel _ (hlength.trans hbuffer) hshort
      rw [hlength] at hgood hbad
      refine ⟨success, result, (applyRest_recordRle hoff hlen hfit).trans hrun, ?_, ?_⟩
      · intro records hrecords
        obtain ⟨v', tail, others, rfl, hcut, _, htail⟩ := hrecords.of_rle hlen hoff
        cases hcut
        exact hgood others htail
      · intro hnone
        apply hbad
        intro others hothers
        exact hnone _ (hothers.cons_rle hoff hlen hfit)

/-- A normal record cut short is read out of bounds. -/
theorem applyRest_cut {pre t buffer : List UInt8} {o₂ o₁ o₀ l₁ l₀ : UInt8} {fuel : ℕ}
    (hoff : [o₂, o₁, o₀] ≠ eofMarker) (hlen : bigEndian16 l₁ l₀ ≠ 0)
    (hinside : bigEndian24 o₂ o₁ o₀ + bigEndian16 l₁ l₀ ≤ buffer.length)
    (hcut : t.length < bigEndian16 l₁ l₀) :
    applyRest pre (o₂ :: o₁ :: o₀ :: l₁ :: l₀ :: t) (fuel + 1) buffer = .error .undefined := by
  have hread : readRun Fault.undefined (l₀ :: t) 1 (bigEndian16 l₁ l₀) = .error .undefined := by
    unfold readRun
    rw [if_neg]
    rw [List.length_cons]
    omega
  rw [applyRest_turn hoff]
  show (if bigEndian16 l₁ l₀ = 0 then _ else _) = _
  rw [if_neg hlen, if_neg (Nat.not_lt.mpr hinside), hread]
  rfl

/-- An RLE record without its byte is read out of bounds, or it has length 0 and the loop takes the
patch for complete. -/
theorem applyRest_cutRle {pre buffer result : List UInt8} {o₂ o₁ o₀ l₁ l₀ r₁ r₀ : UInt8} {fuel : ℕ}
    {success : Bool} (hoff : [o₂, o₁, o₀] ≠ eofMarker) (hlen : bigEndian16 l₁ l₀ = 0)
    (hinside : bigEndian24 o₂ o₁ o₀ + bigEndian16 r₁ r₀ ≤ buffer.length)
    (hrun : applyRest pre [o₂, o₁, o₀, l₁, l₀, r₁, r₀] (fuel + 2) buffer = .ok (success, result)) :
    success = true := by
  have hread := readAt_append Fault.undefined pre [o₂, o₁, o₀, l₁, l₀, r₁, r₀] 7
  rw [applyRest_turn hoff] at hrun
  change (if bigEndian16 l₁ l₀ = 0 then _ else _) = _ at hrun
  rw [if_pos hlen] at hrun
  change (if buffer.length < bigEndian24 o₂ o₁ o₀ + bigEndian16 r₁ r₀ then _ else _) = _ at hrun
  rw [if_neg (Nat.not_lt.mpr hinside)] at hrun
  cases hcount : bigEndian16 r₁ r₀ with
  | zero =>
    rw [hcount] at hrun
    change applyRecords _ _ (fuel + 1) _ buffer = _ at hrun
    rw [applyRecords, if_neg] at hrun
    · cases hrun
      rfl
    · simp only [List.length_append, List.length_cons, List.length_nil]
      omega
  | succ k =>
    rw [hcount, fillRun, hread] at hrun
    cases hrun

/-- What is not framed is read out of bounds or taken for a patch, by induction on its length. -/
theorem applyRest_of_not_framed :
    ∀ (bound : ℕ) (rest : List UInt8), rest.length ≤ bound → ¬ Framed size rest →
      ∀ (pre : List UInt8) (fuel : ℕ) (buffer result : List UInt8) (success : Bool),
        buffer.length = size → rest.length < fuel →
        applyRest pre rest fuel buffer = .ok (success, result) → success = true := by
  intro bound
  induction bound with
  | zero =>
    intro rest hbound _ pre fuel buffer result success _ hfuel hrun
    obtain ⟨fuel, rfl⟩ := Nat.exists_eq_add_one_of_ne_zero (Nat.ne_zero_of_lt hfuel)
    rw [applyRest_short (by omega)] at hrun
    cases hrun
    rfl
  | succ bound ih =>
    intro rest hbound hframe pre fuel buffer result success hbuffer hfuel hrun
    obtain ⟨fuel, rfl⟩ := Nat.exists_eq_add_one_of_ne_zero (Nat.ne_zero_of_lt hfuel)
    match rest with
    | [] | [_] | [_, _] | [_, _, _] =>
      rw [applyRest_short (by simp)] at hrun
      cases hrun
      rfl
    | o₂ :: o₁ :: o₀ :: l₁ :: t =>
      have hoff : [o₂, o₁, o₀] ≠ eofMarker := by
        intro heof
        cases heof
        exact hframe (.early l₁ t)
      match t with
      | [] =>
        rw [applyRest_turn hoff] at hrun
        cases hrun
      | l₀ :: t =>
        by_cases hlen : bigEndian16 l₁ l₀ = 0
        · match t with
          | [] | [_] =>
            rw [applyRest_turn hoff] at hrun
            change (if bigEndian16 l₁ l₀ = 0 then _ else _) = _ at hrun
            rw [if_pos hlen] at hrun
            cases hrun
          | r₁ :: r₀ :: t =>
            have hinside : bigEndian24 o₂ o₁ o₀ + bigEndian16 r₁ r₀ ≤ buffer.length := by
              apply Nat.le_of_not_lt
              intro hsize
              rw [hbuffer] at hsize
              exact hframe (.outsideRle o₂ o₁ o₀ l₁ l₀ r₁ r₀ t hoff hlen hsize)
            match t with
            | [] =>
              obtain ⟨fuel, rfl⟩ : ∃ k, fuel = k + 1 :=
                Nat.exists_eq_add_one_of_ne_zero (by simp only [List.length_cons] at hfuel; omega)
              exact applyRest_cutRle hoff hlen hinside hrun
            | v :: t =>
              have hplace : bigEndian24 o₂ o₁ o₀ + (List.replicate (bigEndian16 r₁ r₀) v).length ≤
                  buffer.length := by
                rwa [List.length_replicate]
              simp only [List.length_cons] at hbound hfuel
              rw [applyRest_recordRle hoff hlen hinside] at hrun
              apply ih t _ _ _ fuel _ result success _ _ hrun
              · omega
              · intro hrest
                exact hframe (.recordRle o₂ o₁ o₀ l₁ l₀ r₁ r₀ v t hoff hlen hrest)
              · exact (length_overwrite hplace).trans hbuffer
              · omega
        · have hinside : bigEndian24 o₂ o₁ o₀ + bigEndian16 l₁ l₀ ≤ buffer.length := by
            apply Nat.le_of_not_lt
            intro hsize
            rw [hbuffer] at hsize
            exact hframe (.outside o₂ o₁ o₀ l₁ l₀ t hoff hlen hsize)
          rcases Nat.lt_or_ge t.length (bigEndian16 l₁ l₀) with hcut | hwhole
          · rw [applyRest_cut hoff hlen hinside hcut] at hrun
            cases hrun
          · obtain ⟨data, rest, rfl, hdata⟩ : ∃ data rest, t = data ++ rest ∧
                data.length = bigEndian16 l₁ l₀ :=
              ⟨t.take (bigEndian16 l₁ l₀), t.drop (bigEndian16 l₁ l₀),
                (List.take_append_drop _ t).symm, List.length_take_of_le hwhole⟩
            have hplace : bigEndian24 o₂ o₁ o₀ + data.length ≤ buffer.length := by
              rwa [hdata]
            simp only [List.length_cons, List.length_append] at hbound hfuel
            rw [applyRest_record hoff hlen hdata hinside] at hrun
            apply ih rest _ _ _ fuel _ result success _ _ hrun
            · omega
            · intro hrest
              exact hframe (.record o₂ o₁ o₀ l₁ l₀ data rest hoff hlen hdata hrest)
            · exact (length_overwrite hplace).trans hbuffer
            · omega

end Loop

/-- A patch is the header and some records exactly when what is behind the header is some
records. -/
theorem isIpsPatch_iff {size : ℕ} {rest : List UInt8} {records : List IpsRecord} :
    IsIpsPatch size (ipsHeader ++ rest) records ↔ EncodesRecords size rest records := by
  unfold IsIpsPatch EncodesRecords
  rw [List.append_assoc, List.append_cancel_left_eq]

section Patch

variable {ips rest buffer : List UInt8}

/-- Without five bytes the header is read out of bounds. -/
theorem applyIpsPatch_fault (h : ips.length < 5) : applyIpsPatch ips buffer = .error .undefined := by
  unfold applyIpsPatch readRun
  rw [if_neg (by omega)]
  rfl

/-- Another header is refused. -/
theorem applyIpsPatch_refuse (h : 5 ≤ ips.length) (hheader : ips.take 5 ≠ ipsHeader) :
    applyIpsPatch ips buffer = .ok (false, buffer) := by
  unfold applyIpsPatch readRun
  rw [if_pos (by omega)]
  show (if ips.take 5 ≠ ipsHeader then _ else _) = _
  rw [if_pos hheader]
  rfl

/-- Behind the right header comes the loop. -/
theorem applyIpsPatch_loop (hsize : (ipsHeader ++ rest).length < 2 ^ 64) :
    applyIpsPatch (ipsHeader ++ rest) buffer =
      applyRest ipsHeader rest ((ipsHeader ++ rest).length + 1) buffer := by
  have hlen : (ipsHeader ++ rest).length = rest.length + 5 := by
    rw [List.length_append, Nat.add_comm]
    rfl
  have hpatch : ((ipsHeader ++ rest).length + 2 ^ 64 - 3) % 2 ^ 64 =
      (ipsHeader ++ rest).length - 3 := by omega
  unfold applyIpsPatch readRun
  rw [if_pos (by omega), hpatch]
  rfl

/-- The loop promises behind the header what the whole call promises. -/
theorem appliesIps_iff_rest (hsize : (ipsHeader ++ rest).length < 2 ^ 64) :
    AppliesIps (ipsHeader ++ rest) buffer ↔
      AppliesRest ipsHeader rest ((ipsHeader ++ rest).length + 1) buffer := by
  unfold AppliesIps AppliesRest
  rw [applyIpsPatch_loop hsize]
  simp only [isIpsPatch_iff]

/-- A loop that keeps its promise reads a framed rest. -/
theorem framed_of_appliesRest {pre : List UInt8} {fuel : ℕ} (hfuel : rest.length < fuel)
    (h : AppliesRest pre rest fuel buffer) : Framed buffer.length rest := by
  obtain ⟨success, result, hrun, _, hbad⟩ := h
  apply Classical.byContradiction
  intro hframe
  have htrue : success = true :=
    applyRest_of_not_framed rest.length rest (Nat.le_refl _) hframe pre fuel buffer result success
      rfl hfuel hrun
  have hfalse : success = false := by
    apply hbad
    intro records hrecords
    exact hframe hrecords.framed
  rw [htrue] at hfalse
  cases hfalse

end Patch

/-- `ApplyIpsPatch` keeps within its bounds, applies the records of a well-formed patch and refuses
every other patch, exactly when the patch is readable. The bound is that of a `size_t`. -/
theorem applyIpsPatch_applies_iff (ips buffer : List UInt8) (hsize : ips.length < 2 ^ 64) :
    AppliesIps ips buffer ↔ IpsReadable buffer.length ips := by
  unfold IpsReadable
  rcases Nat.lt_or_ge ips.length 5 with hshort | hlong
  · constructor
    · rintro ⟨success, result, hrun, _⟩
      rw [applyIpsPatch_fault hshort] at hrun
      cases hrun
    · rintro ⟨hlong, _⟩
      omega
  · by_cases hheader : ips.take 5 = ipsHeader
    · obtain ⟨rest, rfl⟩ : ∃ rest, ips = ipsHeader ++ rest :=
        ⟨ips.drop 5, by rw [← hheader, List.take_append_drop]⟩
      have hfuel : rest.length < (ipsHeader ++ rest).length + 1 := by
        rw [List.length_append]
        omega
      rw [appliesIps_iff_rest hsize]
      constructor
      · intro happlies
        exact ⟨hlong, fun _ => framed_of_appliesRest hfuel happlies⟩
      · rintro ⟨_, hframe⟩
        exact appliesRest_of_framed (hframe hheader) ipsHeader _ buffer rfl hfuel
    · constructor
      · intro _
        exact ⟨hlong, fun h => absurd h hheader⟩
      · intro _
        refine ⟨false, buffer, applyIpsPatch_refuse hlong hheader, ?_, fun _ => rfl⟩
        rintro records ⟨rfl, _⟩
        exact absurd rfl hheader

/-- A patch of one normal record that fills the buffer to its end. -/
theorem applyIpsPatch_applies_iff_record :
    (ipsHeader ++ [0, 0, 1, 0, 2, 7, 8] ++ eofMarker).length < 2 ^ 64 ∧
      (AppliesIps (ipsHeader ++ [0, 0, 1, 0, 2, 7, 8] ++ eofMarker) [0, 0, 0] ↔
        IpsReadable 3 (ipsHeader ++ [0, 0, 1, 0, 2, 7, 8] ++ eofMarker)) :=
  ⟨by decide, applyIpsPatch_applies_iff _ [0, 0, 0] (by decide)⟩

/-- Four zero bytes behind the header: the turn reads a fifth one. -/
theorem applyIpsPatch_truncated : ¬ AppliesIps (ipsHeader ++ [0, 0, 0, 0]) [0, 0, 0, 0] := by
  rintro ⟨success, result, hrun, _⟩
  have hfault : applyIpsPatch (ipsHeader ++ [0, 0, 0, 0]) [0, 0, 0, 0] = .error .undefined := by rfl
  rw [hfault] at hrun
  cases hrun

end Borked3DS.Analysis
