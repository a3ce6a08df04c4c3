import Mathlib.Tactic.Linarith
import Mathlib.Tactic.Ring
import Borked3DS.Interface.TimingRuns

/-!
# Converting delays into cycles

On the delays from zero on, where nothing wraps, a conversion is one of three formulas. What it
promises follows from them, whatever the unit is.
-/

set_option autoImplicit false

namespace Borked3DS.Analysis

open Borked3DS.Model Borked3DS.Interface

/-! ## Words that hold their values -/

theorem toU64_of_range {z : ℤ} (h : 0 ≤ z) (h' : z < 2 ^ 64) : toU64 z = z :=
  Int.emod_eq_of_lt h h'

theorem toS64_of_range {z : ℤ} (h : -2 ^ 63 ≤ z) (h' : z < 2 ^ 63) : toS64 z = z := by
  unfold toS64
  exact Int.bmod_eq_of_le (by omega) (by omega)

/-! ## The formulas -/

/-- The three formulas of a conversion. -/
structure ThreeFormulas (perSecond : ℤ) (convert : ℤ → ℤ) : Prop where
  small : ∀ a, 0 ≤ a → a ≤ maxValueToMultiply → convert a = baseClockRate * a / perSecond
  rounded : ∀ a, a < 2 ^ 63 → maxValueToMultiply < a → a / perSecond ≤ maxValueToMultiply →
    convert a = baseClockRate * (a / perSecond)
  saturated : ∀ a, 0 ≤ a → maxValueToMultiply < a / perSecond → convert a = 2 ^ 63 - 1

section Formulas

variable {a : ℤ}

/-- The product with a small value fits an `s64`. -/
theorem product_fits (h : 0 ≤ a) (h' : a ≤ maxValueToMultiply) :
    0 ≤ baseClockRate * a ∧ baseClockRate * a < 2 ^ 63 := by
  unfold maxValueToMultiply baseClockRate at *
  omega

/-- The product with a value that is not small does not. -/
theorem product_exceeds (h : maxValueToMultiply < a) : 2 ^ 63 - 1 < baseClockRate * a := by
  unfold maxValueToMultiply baseClockRate at *
  omega

theorem nsToCycles_formulas : ThreeFormulas 1000000000 nsToCycles where
  small a h h' := by
    obtain ⟨hlo, hhi⟩ := product_fits h h'
    have hsmall : ¬ maxValueToMultiply < a.tdiv 1000000000 := by
      rw [Int.tdiv_eq_ediv_of_nonneg h]
      omega
    rw [nsToCycles, if_neg hsmall, if_neg (by omega), toU64_of_range hlo (by omega),
      toS64_of_range (by omega) (by omega)]
  rounded a hrange h h' := by
    have hpos : 0 ≤ a := by
      unfold maxValueToMultiply baseClockRate at h
      omega
    obtain ⟨hlo, hhi⟩ := product_fits (a := a / 1000000000) (by omega) h'
    rw [nsToCycles, Int.tdiv_eq_ediv_of_nonneg hpos, if_neg (by omega), if_pos h,
      toS64_of_range (by omega) hhi]
  saturated a h h' := by
    rw [nsToCycles, Int.tdiv_eq_ediv_of_nonneg h, if_pos h']

theorem usToCycles_formulas : ThreeFormulas 1000000 usToCycles where
  small a h h' := by
    obtain ⟨hlo, hhi⟩ := product_fits h h'
    have hsmall : ¬ maxValueToMultiply < a.tdiv 1000000 := by
      rw [Int.tdiv_eq_ediv_of_nonneg h]
      omega
    rw [usToCycles, if_neg hsmall, if_neg (by omega), toU64_of_range hlo (by omega),
      toS64_of_range (by omega) (by omega)]
  rounded a hrange h h' := by
    have hpos : 0 ≤ a := by
      unfold maxValueToMultiply baseClockRate at h
      omega
    obtain ⟨hlo, hhi⟩ := product_fits (a := a / 1000000) (by omega) h'
    rw [usToCycles, Int.tdiv_eq_ediv_of_nonneg hpos, if_neg (by omega), if_pos h,
      toS64_of_range (by omega) hhi]
  saturated a h h' := by
    rw [usToCycles, Int.tdiv_eq_ediv_of_nonneg h, if_pos h']

/-- The casts of the `u64` overloads change no value of an `s64`. -/
theorem nsToCyclesU64_eq (h : 0 ≤ a) (h' : a < 2 ^ 63) : nsToCyclesU64 a = nsToCycles a := by
  rw [nsToCyclesU64, nsToCycles, toS64_of_range (by omega) h', Int.tdiv_eq_ediv_of_nonneg h]

theorem usToCyclesU64_eq (h : 0 ≤ a) (h' : a < 2 ^ 63) : usToCyclesU64 a = usToCycles a := by
  have hquotient : toS64 (a / 1000000) = a / 1000000 := toS64_of_range (by omega) (by omega)
  rw [usToCyclesU64, usToCycles, hquotient, toS64_of_range (by omega) h',
    Int.tdiv_eq_ediv_of_nonneg h]

end Formulas

/-! ## What the formulas promise -/

namespace ThreeFormulas

variable {perSecond : ℤ} {convert : ℤ → ℤ} {a b : ℤ}

/-- Up to the first switch the result is rounded down to a cycle. -/
theorem cycle (f : ThreeFormulas perSecond convert) (hunit : 0 < perSecond) (h : 0 ≤ a)
    (h' : a ≤ maxValueToMultiply) :
    0 ≤ conversionError perSecond convert a ∧
      conversionError perSecond convert a < perSecond := by
  have hmod := Int.emod_add_mul_ediv (baseClockRate * a) perSecond
  have hnonneg := Int.emod_nonneg (baseClockRate * a) hunit.ne'
  have hlt := Int.emod_lt_of_pos (baseClockRate * a) hunit
  unfold conversionError
  rw [f.small a h h', mul_comm a, mul_comm (_ / _)]
  omega

/-- Behind it the result is rounded down to a second. -/
theorem second_of_large (f : ThreeFormulas perSecond convert) (hunit : 0 < perSecond)
    (hrange : a < 2 ^ 63) (h : maxValueToMultiply < a) (h' : a / perSecond ≤ maxValueToMultiply) :
    0 ≤ conversionError perSecond convert a ∧
      conversionError perSecond convert a < baseClockRate * perSecond := by
  have hmod := Int.emod_add_mul_ediv a perSecond
  have hnonneg := Int.emod_nonneg a hunit.ne'
  have hlt := Int.emod_lt_of_pos a hunit
  have herror : conversionError perSecond convert a = baseClockRate * (a % perSecond) := by
    unfold conversionError
    rw [f.rounded a hrange h h']
    calc a * baseClockRate - baseClockRate * (a / perSecond) * perSecond
        = baseClockRate * (a - perSecond * (a / perSecond)) := by ring
      _ = baseClockRate * (a % perSecond) := by rw [Int.emod_def]
  rw [herror]
  unfold baseClockRate
  constructor <;> omega

theorem second (f : ThreeFormulas perSecond convert) (hunit : 0 < perSecond) (h : 0 ≤ a)
    (hrange : a < 2 ^ 63) (h' : a / perSecond ≤ maxValueToMultiply) :
    0 ≤ conversionError perSecond convert a ∧
      conversionError perSecond convert a < baseClockRate * perSecond := by
  rcases le_or_gt a maxValueToMultiply with hsmall | hlarge
  · obtain ⟨hlo, hhi⟩ := f.cycle hunit h hsmall
    refine ⟨hlo, lt_of_lt_of_le hhi ?_⟩
    unfold baseClockRate
    omega
  · exact f.second_of_large hunit hrange hlarge h'

/-- The results of whole seconds behind the first switch are in order. -/
theorem large_le (f : ThreeFormulas perSecond convert) (hunit : 0 < perSecond)
    (h : maxValueToMultiply < a) (hab : a ≤ b) (hrange : b < 2 ^ 63) :
    convert a ≤ convert b := by
  have hpos : 0 ≤ a := by
    unfold maxValueToMultiply baseClockRate at h
    omega
  have hquotient : a / perSecond ≤ b / perSecond := Int.ediv_le_ediv hunit hab
  have ha0 : 0 ≤ a / perSecond := Int.ediv_nonneg hpos hunit.le
  rcases le_or_gt (b / perSecond) maxValueToMultiply with hb | hb
  · rw [f.rounded b hrange (by omega) hb, f.rounded a (by omega) h (by omega)]
    unfold baseClockRate
    omega
  · rw [f.saturated b (by omega) hb]
    rcases le_or_gt (a / perSecond) maxValueToMultiply with ha | ha
    · obtain ⟨-, hfits⟩ := product_fits ha0 ha
      rw [f.rounded a (by omega) h ha]
      omega
    · rw [f.saturated a hpos ha]

/-- What a delay behind the first switch gives is enough for the whole seconds of a shorter one. -/
theorem across (f : ThreeFormulas perSecond convert) (hunit : 0 < perSecond) (h : 0 ≤ a)
    (ha : a ≤ maxValueToMultiply) (hb : maxValueToMultiply < b) (hrange : b < 2 ^ 63) :
    (convert a ≤ convert b ↔ a * baseClockRate < (baseClockRate * (b / perSecond) + 1) * perSecond)
      ∧ convert a < convert b + baseClockRate := by
  have hab : a / perSecond ≤ b / perSecond := Int.ediv_le_ediv hunit (by omega)
  obtain ⟨-, hfits⟩ := product_fits h ha
  obtain ⟨hlo, hhi⟩ := f.cycle hunit h ha
  have hmod := Int.emod_add_mul_ediv a perSecond
  have hlt := Int.emod_lt_of_pos a hunit
  have hconvert : convert a = a * baseClockRate / perSecond := by
    rw [f.small a h ha, mul_comm]
  rcases le_or_gt (b / perSecond) maxValueToMultiply with hsmall | hlarge
  · rw [f.rounded b hrange hb hsmall]
    constructor
    · rw [hconvert, ← Int.lt_add_one_iff, Int.ediv_lt_iff_lt_mul hunit]
    · rw [hconvert, Int.ediv_lt_iff_lt_mul hunit]
      calc a * baseClockRate
          = baseClockRate * (a % perSecond + perSecond * (a / perSecond)) := by rw [hmod]; ring
        _ < baseClockRate * (perSecond + perSecond * (a / perSecond)) := by
            unfold baseClockRate
            omega
        _ ≤ baseClockRate * (perSecond + perSecond * (b / perSecond)) := by
            have := Int.mul_le_mul_of_nonneg_left hab hunit.le
            unfold baseClockRate
            omega
        _ = (baseClockRate * (b / perSecond) + baseClockRate) * perSecond := by ring
  · have hle : convert a ≤ 2 ^ 63 - 1 := by
      have := Int.ediv_le_self perSecond (product_fits h ha).1
      rw [f.small a h ha]
      omega
    have hexceeds := product_exceeds hlarge
    rw [f.saturated b (by omega) hlarge]
    refine ⟨⟨fun _ => ?_, fun _ => hle⟩, ?_⟩
    · calc a * baseClockRate < baseClockRate * (b / perSecond) + 1 := by
            rw [mul_comm]
            omega
        _ ≤ (baseClockRate * (b / perSecond) + 1) * perSecond :=
            le_mul_of_one_le_right (by omega) hunit
    · unfold baseClockRate
      omega

/-- The three formulas promise it all. -/
theorem converts (f : ThreeFormulas perSecond convert) {convertU64 : ℤ → ℤ} (hunit : 0 < perSecond)
    (hagree : ∀ a, 0 ≤ a → a < 2 ^ 63 → convertU64 a = convert a) :
    ConvertsDelays perSecond convert convertU64 where
  monotone a b ha hab hb := by
    rcases le_or_gt b maxValueToMultiply with hsmall | hlarge
    · have hle : convert a ≤ convert b := by
        rw [f.small a ha (by omega), f.small b (by omega) hsmall]
        refine Int.ediv_le_ediv hunit ?_
        unfold baseClockRate
        omega
      exact ⟨fun _ _ h => absurd h (by omega), fun _ => hle⟩
    · rcases le_or_gt a maxValueToMultiply with ha' | ha'
      · rw [(f.across hunit ha ha' hlarge hb).1]
        exact ⟨fun h _ _ => h, fun h => h ha' hlarge⟩
      · exact ⟨fun _ h => absurd h (by omega), fun _ => f.large_le hunit ha' hab hb⟩
  drop a b ha hab hb := by
    have hrate : 0 < baseClockRate := by decide
    rcases le_or_gt b maxValueToMultiply with hsmall | hlarge
    · have hle : convert a ≤ convert b := by
        rw [f.small a ha (by omega), f.small b (by omega) hsmall]
        refine Int.ediv_le_ediv hunit ?_
        unfold baseClockRate
        omega
      omega
    · rcases le_or_gt a maxValueToMultiply with ha' | ha'
      · exact (f.across hunit ha ha' hlarge hb).2
      · have := f.large_le hunit ha' hab hb
        omega
  second a h hrange h' := f.second hunit h hrange h'
  cycle a h h' := f.cycle hunit h h'
  saturated a h _ h' := ⟨f.saturated a h h', product_exceeds h'⟩
  agree := hagree

end ThreeFormulas

/-! ## Both conversions -/

/-- Both conversions promise what there is to promise of the delays from zero on, and no delay in
nanoseconds is too large for its result. -/
theorem delays_convert :
    ConvertsDelays 1000000000 nsToCycles nsToCyclesU64 ∧
      ConvertsDelays 1000000 usToCycles usToCyclesU64 ∧
      ∀ a < 2 ^ 63, a / 1000000000 ≤ maxValueToMultiply := by
  refine ⟨nsToCycles_formulas.converts (by decide) fun _ h h' => nsToCyclesU64_eq h h',
    usToCycles_formulas.converts (by decide) fun _ h h' => usToCyclesU64_eq h h', ?_⟩
  intro a h
  unfold maxValueToMultiply baseClockRate
  omega

/-- One nanosecond more than `MAX_VALUE_TO_MULTIPLY` is a shorter delay, and the largest delay in
microseconds is not converted at all. -/
theorem delays_drop :
    ¬ (ConvertsAll 1000000000 nsToCycles nsToCyclesU64 ∧
      ConvertsAll 1000000 usToCycles usToCyclesU64) ∧
      nsToCycles (maxValueToMultiply + 1) < nsToCycles maxValueToMultiply ∧
      usToCycles (2 ^ 63 - 1) = 2 ^ 63 - 1 ∧
      baseClockRate * 1000000 < conversionError 1000000 usToCycles (2 ^ 63 - 1) := by
  have hdrop : nsToCycles (maxValueToMultiply + 1) < nsToCycles maxValueToMultiply := by decide
  refine ⟨fun h => ?_, hdrop, by decide, by decide⟩
  have hle := h.1.monotone maxValueToMultiply (maxValueToMultiply + 1) ⟨by decide, by decide⟩
    ⟨by decide, by decide⟩ (by decide)
  omega

end Borked3DS.Analysis
