import Mathlib.Tactic.Linarith
import Mathlib.Tactic.Ring
import Borked3DS.Interface.AudioStreams

/-!
# Exact decoding of samples

The frames of the codec are one run over the samples. A step of it computes the recurrence unless
the last sum of the filter leaves the range of an `int`; all other results fit.
-/

set_option autoImplicit false

namespace Borked3DS.Analysis

open Borked3DS.Library Borked3DS.Model Borked3DS.Model.AudioCore Borked3DS.Interface

variable {data : ℕ → UInt8} {coeffs : Vector Int16 16} {state : ADPCMState} {count : ℕ}

/-- A number that an `s16` holds. -/
def IsSample (y : ℤ) : Prop := -2 ^ 15 ≤ y ∧ y < 2 ^ 15

theorem isSample_toInt (c : Int16) : IsSample c.toInt := ⟨c.le_toInt, c.toInt_lt⟩

theorem isSample_clampSample (x : ℤ) : IsSample (clampSample x) := by
  unfold IsSample clampSample
  omega

theorem toInt_ofInt_of_isSample {y : ℤ} (h : IsSample y) : (Int16.ofInt y).toInt = y :=
  Int16.toInt_ofInt_of_le h.1 h.2

/-! ## A step -/

/-- A product of two samples is far from the bounds of an `int`. -/
theorem product_bounds {c y : ℤ} (hc : IsSample c) (hy : IsSample y) :
    -2 ^ 30 ≤ c * y ∧ c * y ≤ 2 ^ 30 := by
  obtain ⟨hc, hc'⟩ := hc
  obtain ⟨hy, hy'⟩ := hy
  constructor <;> nlinarith

theorem scaled_bounds {nibble : ℤ} (hnibble : -8 ≤ nibble ∧ nibble ≤ 7) {s : ℕ} (hs : s < 16) :
    -2 ^ 18 ≤ nibble * 2 ^ s ∧ nibble * 2 ^ s ≤ 7 * 2 ^ 15 := by
  have hpos : (1 : ℤ) ≤ 2 ^ s := one_le_pow₀ (by norm_num)
  have hle : (2 : ℤ) ^ s ≤ 2 ^ 15 := pow_le_pow_right₀ (by norm_num) (by omega)
  obtain ⟨hlow, hhigh⟩ := hnibble
  constructor <;> nlinarith

/-- The filter, with the rounding that is added. -/
def filtered (c₁ c₂ scale nibble : ℤ) (d : Decoder) : ℤ :=
  nibble * scale * 2 ^ 11 + 0x400 + c₁ * d.yn1 + c₂ * d.yn2

/-- The sample that a sum gives. -/
def Decoder.push (d : Decoder) (sum : ℤ) : Decoder where
  yn1 := clampSample (sum / 2 ^ 11)
  yn2 := d.yn1
  ret := d.ret ++ [(Int16.ofInt (clampSample (sum / 2 ^ 11)),
    Int16.ofInt (clampSample (sum / 2 ^ 11)))]

/-- Only the last sum can leave the range of an `int`. -/
theorem decodeSample_eq {c₁ c₂ nibble : ℤ} {s : ℕ} {d : Decoder} (hc₁ : IsSample c₁)
    (hc₂ : IsSample c₂) (hnibble : -8 ≤ nibble ∧ nibble ≤ 7) (hs : s < 16)
    (hy₁ : IsSample d.yn1) (hy₂ : IsSample d.yn2) :
    decodeSample c₁ c₂ (2 ^ s) nibble d =
      if -2 ^ 31 ≤ filtered c₁ c₂ (2 ^ s) nibble d ∧ filtered c₁ c₂ (2 ^ s) nibble d < 2 ^ 31 then
        .ok (Decoder.push d (filtered c₁ c₂ (2 ^ s) nibble d))
      else .error .undefined := by
  have hxn := scaled_bounds hnibble hs
  have hfirst := product_bounds hc₁ hy₁
  have hsecond := product_bounds hc₂ hy₂
  unfold decodeSample filtered int32
  generalize nibble * 2 ^ s = xn at hxn ⊢
  generalize c₁ * d.yn1 = first at hfirst ⊢
  generalize c₂ * d.yn2 = second at hsecond ⊢
  rw [if_pos (by omega), pure_eq_ok, ok_bind, if_pos (by omega), pure_eq_ok, ok_bind,
    if_pos (by omega), pure_eq_ok, ok_bind, if_pos (by omega), pure_eq_ok, ok_bind,
    if_pos (by omega), pure_eq_ok, ok_bind, if_pos (by omega), pure_eq_ok, ok_bind]
  split
  · rw [pure_eq_ok, ok_bind, Int.shiftRight_eq_div_pow]
    rfl
  · rfl

/-! ## The run over the samples -/

/-- A sample is decoded with what its frame gives. -/
def sampleStep (data : ℕ → UInt8) (coeffs : Vector Int16 16) (d : Decoder) (n : ℕ) :
    Exec Decoder :=
  decodeSample (sampleCoef data coeffs n 0) (sampleCoef data coeffs n 1)
    (2 ^ (sampleHeader data n % 16)) (sampleNibble data n) d

/-- The decoder after so many samples of the recurrence. -/
def exactDecoder (data : ℕ → UInt8) (coeffs : Vector Int16 16) (state : ADPCMState) (n : ℕ) :
    Decoder where
  yn1 := (exactHistory data coeffs state n).1
  yn2 := (exactHistory data coeffs state n).2
  ret := (List.range n).map fun i =>
    (Int16.ofInt (exactHistory data coeffs state (i + 1)).1,
      Int16.ofInt (exactHistory data coeffs state (i + 1)).1)

theorem isSample_exactHistory (n : ℕ) :
    IsSample (exactHistory data coeffs state n).1 ∧
      IsSample (exactHistory data coeffs state n).2 := by
  induction n with
  | zero => exact ⟨isSample_toInt _, isSample_toInt _⟩
  | succ n ih => exact ⟨isSample_clampSample _, ih.1⟩

/-- The sum of a sample fits. -/
def SumFits (data : ℕ → UInt8) (coeffs : Vector Int16 16) (state : ADPCMState) (n : ℕ) : Prop :=
  -2 ^ 31 ≤ filterSum data coeffs n (exactHistory data coeffs state n) ∧
    filterSum data coeffs n (exactHistory data coeffs state n) < 2 ^ 31

theorem sampleNibble_bounds (data : ℕ → UInt8) (n : ℕ) :
    -8 ≤ sampleNibble data n ∧ sampleNibble data n ≤ 7 := by
  have hbyte := (data (n / 14 * 8 + 1 + n % 14 / 2)).toNat_lt
  unfold sampleNibble signedNibble
  dsimp only
  split <;> split <;> omega

/-- A step of the run computes the recurrence exactly if the sum fits. -/
theorem sampleStep_exact (n : ℕ) :
    (SumFits data coeffs state n → sampleStep data coeffs (exactDecoder data coeffs state n) n =
        .ok (exactDecoder data coeffs state (n + 1))) ∧
      (¬ SumFits data coeffs state n →
        sampleStep data coeffs (exactDecoder data coeffs state n) n = .error .undefined) := by
  obtain ⟨hy₁, hy₂⟩ := @isSample_exactHistory data coeffs state n
  have hstep := @decodeSample_eq (sampleCoef data coeffs n 0) (sampleCoef data coeffs n 1)
    (sampleNibble data n) (sampleHeader data n % 16) (exactDecoder data coeffs state n)
    (isSample_toInt _) (isSample_toInt _) (sampleNibble_bounds data n) (by omega) hy₁ hy₂
  unfold sampleStep
  rw [hstep]
  constructor
  · intro hfits
    refine (if_pos hfits).trans ?_
    unfold exactDecoder Decoder.push
    rw [List.range_succ, List.map_append, List.map_singleton]
    rfl
  · intro hfits
    exact if_neg hfits

theorem samples_ok {n : ℕ} (h : ∀ i < n, SumFits data coeffs state i) :
    (List.range n).foldlM (sampleStep data coeffs) (exactDecoder data coeffs state 0) =
      .ok (exactDecoder data coeffs state n) := by
  induction n with
  | zero => rfl
  | succ n ih =>
      rw [List.range_succ, List.foldlM_append, ih fun i hi => h i (Nat.lt_succ_of_lt hi), ok_bind,
        List.foldlM_cons, (sampleStep_exact n).1 (h n (Nat.lt_succ_self n)), ok_bind]
      rfl

theorem samples_overflow {n i : ℕ} (hi : i < n) (h : ¬ SumFits data coeffs state i) :
    (List.range n).foldlM (sampleStep data coeffs) (exactDecoder data coeffs state 0) =
      .error .undefined := by
  induction n generalizing i with
  | zero => exact absurd hi (Nat.not_lt_zero i)
  | succ n ih =>
      rw [List.range_succ, List.foldlM_append]
      by_cases hbefore : ∃ j < n, ¬ SumFits data coeffs state j
      · obtain ⟨j, hj, hfits⟩ := hbefore
        rw [ih hj hfits]
        rfl
      · have hall : ∀ j < n, SumFits data coeffs state j := fun j hj =>
          of_not_not fun hfits => hbefore ⟨j, hj, hfits⟩
        obtain rfl | hlt := Nat.eq_or_lt_of_le (Nat.le_of_lt_succ hi)
        · rw [samples_ok hall, ok_bind, List.foldlM_cons, (sampleStep_exact i).2 h]
          rfl
        · exact absurd (hall i hlt) h

/-! ## Frames -/

theorem signedNibbles_eq {k : ℕ} (hk : k < 16) : SIGNED_NIBBLES.getD k 0 = signedNibble k := by
  have hall : ∀ k < 16, SIGNED_NIBBLES.getD k 0 = signedNibble k := by decide
  exact hall k hk

/-- The samples of one frame have the same header. -/
theorem sampleHeader_frame {f j : ℕ} (hj : j < 14) :
    sampleHeader data (14 * f + j) = (data (f * 8)).toNat := by
  unfold sampleHeader
  have hframe : (14 * f + j) / 14 = f := by omega
  rw [hframe]

theorem sampleCoef_frame {f j : ℕ} (hj : j < 14) (i : ℕ) :
    sampleCoef data coeffs (14 * f + j) i = sampleCoef data coeffs (14 * f) i := by
  have hfirst := @sampleHeader_frame data f 0 (by norm_num)
  unfold sampleCoef
  rw [sampleHeader_frame hj, ← hfirst, Nat.add_zero]

/-- The two halves of a byte. -/
theorem byte_halves (f : ℕ) {j : ℕ} (hj : j < 7) :
    SIGNED_NIBBLES.getD ((data (f * 8 + 1 + j)).toNat >>> 4) 0 =
        sampleNibble data (14 * f + 2 * j) ∧
      SIGNED_NIBBLES.getD ((data (f * 8 + 1 + j)).toNat &&& 0xF) 0 =
        sampleNibble data (14 * f + 2 * j + 1) := by
  have hlow : (data (f * 8 + 1 + j)).toNat &&& 0xF = (data (f * 8 + 1 + j)).toNat % 16 :=
    Nat.and_two_pow_sub_one_eq_mod _ 4
  have hbyte := (data (f * 8 + 1 + j)).toNat_lt
  have hplace : (14 * f + 2 * j) / 14 * 8 + 1 + (14 * f + 2 * j) % 14 / 2 = f * 8 + 1 + j := by
    omega
  have hplace' : (14 * f + 2 * j + 1) / 14 * 8 + 1 + (14 * f + 2 * j + 1) % 14 / 2 =
      f * 8 + 1 + j := by omega
  have heven : (14 * f + 2 * j) % 2 = 0 := by omega
  have hodd : ¬ (14 * f + 2 * j + 1) % 2 = 0 := by omega
  unfold sampleNibble
  dsimp only
  rw [hplace, hplace', if_pos heven, if_neg hodd, hlow, Nat.shiftRight_eq_div_pow]
  exact ⟨signedNibbles_eq (by omega), signedNibbles_eq (by omega)⟩

/-- The bytes of a frame are a part of the run. -/
theorem decodeBytes_eq (f : ℕ) {left : ℕ} (hleft : left ≤ 7) (d : Decoder) :
    decodeBytes (sampleCoef data coeffs (14 * f) 0) (sampleCoef data coeffs (14 * f) 1)
        (2 ^ (sampleHeader data (14 * f) % 16)) data count left (14 * f + 2 * (7 - left))
        (f * 8 + 1 + (7 - left)) d =
      (List.range' (14 * f + 2 * (7 - left))
        (2 * min left ((count - (14 * f + 2 * (7 - left)) + 1) / 2))).foldlM
          (sampleStep data coeffs) d := by
  induction left generalizing d with
  | zero =>
      rw [Nat.zero_min, Nat.mul_zero, List.range'_zero]
      rfl
  | succ left ih =>
      rw [decodeBytes]
      by_cases hmore : 14 * f + 2 * (7 - (left + 1)) < count
      · have hhalves := @byte_halves data f (7 - (left + 1)) (by omega)
        have hsteps : ∀ j < 14, ∀ d, decodeSample (sampleCoef data coeffs (14 * f) 0)
            (sampleCoef data coeffs (14 * f) 1) (2 ^ (sampleHeader data (14 * f) % 16))
            (sampleNibble data (14 * f + j)) d = sampleStep data coeffs d (14 * f + j) := by
          intro j hj d
          have hheader : sampleHeader data (14 * f) = sampleHeader data (14 * f + j) :=
            (@sampleHeader_frame data f 0 (by norm_num)).trans (sampleHeader_frame hj).symm
          rw [sampleStep, sampleCoef_frame hj, sampleCoef_frame hj, hheader]
        have hcount : 2 * min (left + 1) ((count - (14 * f + 2 * (7 - (left + 1))) + 1) / 2) =
            2 * min left ((count - (14 * f + 2 * (7 - left)) + 1) / 2) + 1 + 1 := by omega
        have hnext : 14 * f + 2 * (7 - (left + 1)) + 1 + 1 = 14 * f + 2 * (7 - left) := by omega
        have hbyte : f * 8 + 1 + (7 - (left + 1)) + 1 = f * 8 + 1 + (7 - left) := by omega
        have hupper := hsteps (2 * (7 - (left + 1))) (by omega)
        have hlower := hsteps (2 * (7 - (left + 1)) + 1) (by omega)
        rw [← hhalves.1] at hupper
        rw [← Nat.add_assoc, ← hhalves.2] at hlower
        rw [if_pos hmore, hcount, List.range'_succ, List.range'_succ, List.foldlM_cons, ← hupper]
        refine bind_congr fun d₁ => ?_
        rw [List.foldlM_cons, ← hlower, hnext]
        refine bind_congr fun d₂ => ?_
        rw [hbyte]
        exact ih (by omega) d₂
      · have hnone : min (left + 1) ((count - (14 * f + 2 * (7 - (left + 1))) + 1) / 2) = 0 := by
          omega
        rw [if_neg hmore, hnone, Nat.mul_zero, List.range'_zero]
        rfl

theorem decodeFrame_eq (f : ℕ) (d : Decoder) :
    decodeFrame data count coeffs d f =
      (List.range' (14 * f) (2 * min 7 ((count - 14 * f + 1) / 2))).foldlM
        (sampleStep data coeffs) d := by
  have hheader := @sampleHeader_frame data f 0 (by norm_num)
  rw [Nat.add_zero] at hheader
  have hscale : (data (f * 8)).toNat &&& 0xF = (data (f * 8)).toNat % 16 :=
    Nat.and_two_pow_sub_one_eq_mod _ 4
  have hidx : (data (f * 8)).toNat >>> 4 &&& 0x7 = (data (f * 8)).toNat / 16 % 8 := by
    rw [Nat.shiftRight_eq_div_pow]
    exact Nat.and_two_pow_sub_one_eq_mod _ 3
  have hbytes := @decodeBytes_eq data coeffs count f 7 le_rfl d
  rw [Nat.sub_self, Nat.mul_zero, Nat.add_zero, Nat.add_zero] at hbytes
  unfold decodeFrame
  dsimp only
  rw [← hbytes, hscale, hidx, Nat.one_shiftLeft, Nat.cast_pow, Nat.cast_ofNat, hheader,
    Nat.mul_comm f 14]
  unfold sampleCoef
  rw [hheader]

/-- The frames are the run over all samples. -/
theorem decodeFrames_eq (frames : ℕ) (d : Decoder) :
    (List.range frames).foldlM (decodeFrame data count coeffs) d =
      (List.range (min (14 * frames) (evenCount count))).foldlM (sampleStep data coeffs) d := by
  induction frames with
  | zero =>
      rw [Nat.mul_zero, Nat.zero_min]
      rfl
  | succ frames ih =>
      have hparts : List.range (min (14 * (frames + 1)) (evenCount count)) =
          List.range (min (14 * frames) (evenCount count)) ++
            List.range' (14 * frames) (2 * min 7 ((count - 14 * frames + 1) / 2)) := by
        unfold evenCount
        by_cases hmore : 14 * frames < count
        · have hbefore : min (14 * frames) (count + count % 2) = 14 * frames := by omega
          have hafter : min (14 * (frames + 1)) (count + count % 2) =
              14 * frames + 2 * min 7 ((count - 14 * frames + 1) / 2) := by omega
          rw [hbefore, hafter, List.range_add, List.range'_eq_map_range]
        · have hsame : min (14 * (frames + 1)) (count + count % 2) =
              min (14 * frames) (count + count % 2) := by omega
          have hnone : min 7 ((count - 14 * frames + 1) / 2) = 0 := by omega
          rw [hsame, hnone, Nat.mul_zero, List.range'_zero, List.append_nil]
      rw [List.range_succ, List.foldlM_append, ih, hparts, List.foldlM_append]
      refine bind_congr fun d₁ => ?_
      change (decodeFrame data count coeffs d₁ frames >>= pure) = _
      rw [bind_pure, decodeFrame_eq]

theorem decodeADPCM_eq : decodeADPCM data count coeffs state =
    (List.range (evenCount count)).foldlM (sampleStep data coeffs)
      (exactDecoder data coeffs state 0) >>= fun d =>
        .ok (d.ret, ⟨Int16.ofInt d.yn1, Int16.ofInt d.yn2⟩) := by
  have hall : min (14 * ((count + 13) / 14)) (evenCount count) = evenCount count := by
    unfold evenCount
    omega
  unfold decodeADPCM
  dsimp only
  rw [decodeFrames_eq, hall]
  rfl

/-! ## Whole runs -/

/-- What is decoded if every sum fits. -/
theorem decodeADPCM_ok (h : SumsFit data coeffs count state) :
    decodeADPCM data count coeffs state = .ok
      ((exactDecoder data coeffs state (evenCount count)).ret,
      ⟨Int16.ofInt (exactHistory data coeffs state (evenCount count)).1,
        Int16.ofInt (exactHistory data coeffs state (evenCount count)).2⟩) := by
  rw [decodeADPCM_eq, samples_ok h, ok_bind]
  rfl

/-- Later samples are those of the data behind the first frames. -/
theorem filterSum_shift (k n : ℕ) (y : ℤ × ℤ) :
    filterSum (fun i => data (8 * k + i)) coeffs n y = filterSum data coeffs (14 * k + n) y := by
  have hframe : 8 * k + n / 14 * 8 = (14 * k + n) / 14 * 8 := by omega
  have hheader : sampleHeader (fun i => data (8 * k + i)) n = sampleHeader data (14 * k + n) := by
    unfold sampleHeader
    rw [← hframe]
  have hnibble : sampleNibble (fun i => data (8 * k + i)) n = sampleNibble data (14 * k + n) := by
    have hbyte : 8 * k + (n / 14 * 8 + 1 + n % 14 / 2) =
        (14 * k + n) / 14 * 8 + 1 + (14 * k + n) % 14 / 2 := by omega
    have heven : (14 * k + n) % 2 = n % 2 := by omega
    unfold sampleNibble
    dsimp only
    rw [hbyte, heven]
  unfold filterSum sampleCoef
  rw [hheader, hnibble]

/-- The feedback after the first frames. -/
def middleState (data : ℕ → UInt8) (coeffs : Vector Int16 16) (state : ADPCMState) (k : ℕ) :
    ADPCMState where
  yn1 := Int16.ofInt (exactHistory data coeffs state (14 * k)).1
  yn2 := Int16.ofInt (exactHistory data coeffs state (14 * k)).2

theorem exactHistory_shift (k n : ℕ) :
    exactHistory (fun i => data (8 * k + i)) coeffs (middleState data coeffs state k) n =
      exactHistory data coeffs state (14 * k + n) := by
  induction n with
  | zero =>
      obtain ⟨hy₁, hy₂⟩ := @isSample_exactHistory data coeffs state (14 * k)
      rw [exactHistory, middleState, toInt_ofInt_of_isSample hy₁, toInt_ofInt_of_isSample hy₂]
      rfl
  | succ n ih =>
      rw [exactHistory, ih, filterSum_shift, ← Nat.add_assoc, exactHistory]

theorem decodesExactly_of_sumsFit (h : SumsFit data coeffs count state) :
    DecodesExactly data coeffs count state := by
  refine ⟨_, _, decodeADPCM_ok h, ?_, ?_, fun k hk => ?_⟩
  · unfold exactDecoder
    rw [List.map_map]
    refine List.map_congr_left fun n _ => ?_
    have hsample := (@isSample_exactHistory data coeffs state (n + 1)).1
    simp only [Function.comp_apply, toInt_ofInt_of_isSample hsample]
  · obtain ⟨hy₁, hy₂⟩ := @isSample_exactHistory data coeffs state (evenCount count)
    rw [toInt_ofInt_of_isSample hy₁, toInt_ofInt_of_isSample hy₂]
  · have heven : evenCount (14 * k) = 14 * k := by
      unfold evenCount
      omega
    have hcount : evenCount count = 14 * k + evenCount (count - 14 * k) := by
      unfold evenCount
      omega
    have hfirst : SumsFit data coeffs (14 * k) state := fun n hn =>
      h n (by rw [heven] at hn; omega)
    have hrest : SumsFit (fun i => data (8 * k + i)) coeffs (count - 14 * k)
        (middleState data coeffs state k) := by
      intro n hn
      rw [exactHistory_shift, filterSum_shift]
      exact h (14 * k + n) (by omega)
    have hdecoded := decodeADPCM_ok hfirst
    rw [heven] at hdecoded
    have hdecoded' := decodeADPCM_ok hrest
    rw [exactHistory_shift, ← hcount] at hdecoded'
    refine ⟨_, middleState data coeffs state k, _, hdecoded, hdecoded', ?_⟩
    unfold exactDecoder
    simp only [exactHistory_shift, ← Nat.add_assoc]
    rw [hcount, List.range_add, List.map_append, List.map_map]
    rfl

theorem decodesExactly_iff_sumsFit :
    DecodesExactly data coeffs count state ↔ SumsFit data coeffs count state := by
  refine ⟨fun h n hn => ?_, decodesExactly_of_sumsFit⟩
  obtain ⟨samples, state', hdecoded, -⟩ := h
  by_contra hfits
  rw [decodeADPCM_eq, samples_overflow hn hfits] at hdecoded
  cases hdecoded

/-! ## Coefficients -/

/-- What a coefficient can add to a sum and take away from it. -/
theorem feedback_bounds {c y : ℤ} (hc : IsSample c) (hy : IsSample y) :
    -largestFeedback c ≤ c * y ∧ c * y ≤ largestFeedback c + 2 ^ 15 := by
  obtain ⟨hc, hc'⟩ := hc
  obtain ⟨hy, hy'⟩ := hy
  unfold largestFeedback
  rcases le_total 0 c with hsign | hsign
  · rw [max_eq_left (by linarith)]
    constructor <;> nlinarith
  · rw [max_eq_right (by linarith)]
    constructor <;> nlinarith

/-- The sample that takes the most away. -/
def worstSample (c : ℤ) : ℤ := if 0 ≤ c then -2 ^ 15 else 2 ^ 15 - 1

theorem mul_worstSample (c : ℤ) : c * worstSample c = -largestFeedback c := by
  unfold worstSample largestFeedback
  split
  · rw [max_eq_left (by linarith)]
    ring
  · rw [max_eq_right (by linarith)]
    ring

theorem isSample_worstSample (c : ℤ) : IsSample (worstSample c) := by
  unfold IsSample worstSample
  split <;> norm_num

theorem sumFits_of_coefficientsFit (h : CoefficientsFit coeffs) (n : ℕ) :
    SumFits data coeffs state n := by
  obtain ⟨hy₁, hy₂⟩ := @isSample_exactHistory data coeffs state n
  have hpair := h (sampleHeader data n / 16 % 8) (Nat.mod_lt _ (by norm_num))
  have hfirst := @feedback_bounds (sampleCoef data coeffs n 0) _ (isSample_toInt _) hy₁
  have hsecond := @feedback_bounds (sampleCoef data coeffs n 1) _ (isSample_toInt _) hy₂
  have hxn := @scaled_bounds _ (sampleNibble_bounds data n) (sampleHeader data n % 16)
    (Nat.mod_lt _ (by norm_num))
  unfold SumFits filterSum
  change largestFeedback (sampleCoef data coeffs n 0) +
    largestFeedback (sampleCoef data coeffs n 1) ≤ _ at hpair
  omega

/-- The smallest samples, with a pair of coefficients and the largest scale. -/
def worstData (i j : ℕ) : UInt8 := if j = 0 then UInt8.ofNat (16 * i + 15) else 0x80

theorem filterSum_worstData {i : ℕ} (hi : i < 8) (y : ℤ × ℤ) :
    filterSum (worstData i) coeffs 0 y = -8 * 2 ^ 15 * 2 ^ 11 + 0x400 +
      coefficient coeffs (i * 2) * y.1 +
        coefficient coeffs (i * 2 + 1) * y.2 := by
  have hall : ∀ i < 8, sampleHeader (worstData i) 0 / 16 % 8 = i ∧
      sampleHeader (worstData i) 0 % 16 = 15 ∧ sampleNibble (worstData i) 0 = -8 := by decide
  obtain ⟨hidx, hscale, hnibble⟩ := hall i hi
  unfold filterSum sampleCoef
  rw [hidx, hscale, hnibble, Nat.add_zero]

theorem coefficientsFit_of_sumFits
    (h : ∀ data state count, SumsFit data coeffs count state) : CoefficientsFit coeffs := by
  intro i hi
  generalize hc₁ : coefficient coeffs (i * 2) = c₁
  generalize hc₂ : coefficient coeffs (i * 2 + 1) = c₂
  have hfits := h (worstData i) ⟨Int16.ofInt (worstSample c₁), Int16.ofInt (worstSample c₂)⟩ 1 0
    (by norm_num [evenCount])
  rw [exactHistory, toInt_ofInt_of_isSample (isSample_worstSample c₁),
    toInt_ofInt_of_isSample (isSample_worstSample c₂), filterSum_worstData hi, hc₁, hc₂,
    mul_worstSample, mul_worstSample] at hfits
  omega

/-- Decoding is exact if and only if no sum of the filter leaves the range of an `int`; for all
data, feedback and counts at once this is so exactly for coefficients that leave room for the
smallest sample. -/
theorem decodesExactly_iff (coeffs : Vector Int16 16) :
    (∀ data count state, DecodesExactly data coeffs count state ↔
        SumsFit data coeffs count state) ∧
      ((∀ data count state, DecodesExactly data coeffs count state) ↔ CoefficientsFit coeffs) := by
  refine ⟨fun data count state => decodesExactly_iff_sumsFit, fun h => ?_, fun h => ?_⟩
  · exact coefficientsFit_of_sumFits fun data state count =>
      decodesExactly_iff_sumsFit.mp (h data count state)
  · exact fun data count state =>
      decodesExactly_of_sumsFit fun n _ => sumFits_of_coefficientsFit h n

/-- Both coefficients and the first sample are the smallest, and both samples before the largest. -/
theorem not_decodesExactly_overflow : ¬ DecodesExactly (fun j => if j = 0 then 0x0F else 0x80)
    (Vector.replicate 16 (-0x8000)) 1 ⟨0x7FFF, 0x7FFF⟩ := by
  rintro ⟨samples, state', hdecoded, -⟩
  have hoverflow : decodeADPCM (fun j => if j = 0 then 0x0F else 0x80) 1
      (Vector.replicate 16 (-0x8000)) ⟨0x7FFF, 0x7FFF⟩ = .error .undefined := by rfl
  rw [hoverflow] at hdecoded
  cases hdecoded

end Borked3DS.Analysis
