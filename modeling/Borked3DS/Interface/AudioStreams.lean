import Borked3DS.Model.AudioCore

/-!
# Exact decoding

The recurrence that the codec computes, over integers of any size.
-/

set_option autoImplicit false

namespace Borked3DS.Interface

open Borked3DS.Model Borked3DS.Model.AudioCore

/-- A sample of four bits as a number. -/
def signedNibble (n : ℕ) : ℤ := if n < 8 then n else n - 16

section Recurrence

variable (data : ℕ → UInt8) (coeffs : Vector Int16 16)

/-- The header of a sample's frame. -/
def sampleHeader (n : ℕ) : ℕ := (data (n / 14 * 8)).toNat

/-- A sample before it is decoded: half a byte, the upper half first. -/
def sampleNibble (n : ℕ) : ℤ :=
  let byte := (data (n / 14 * 8 + 1 + n % 14 / 2)).toNat
  signedNibble (if n % 2 = 0 then byte / 16 else byte % 16)

/-- The coefficients of a sample. -/
def sampleCoef (n i : ℕ) : ℤ :=
  coefficient coeffs (sampleHeader data n / 16 % 8 * 2 + i)

/-- What the filter adds up for a sample after two others. -/
def filterSum (n : ℕ) (y : ℤ × ℤ) : ℤ :=
  sampleNibble data n * 2 ^ (sampleHeader data n % 16) * 2 ^ 11 + 0x400 +
    sampleCoef data coeffs n 0 * y.1 + sampleCoef data coeffs n 1 * y.2

/-- A number within the range of a sample. -/
def clampSample (x : ℤ) : ℤ := max (-32768) (min x 32767)

/-- The last two samples before one. -/
def exactHistory (state : ADPCMState) : ℕ → ℤ × ℤ
  | 0 => (state.yn1.toInt, state.yn2.toInt)
  | n + 1 => (clampSample (filterSum data coeffs n (exactHistory state n) / 2 ^ 11),
      (exactHistory state n).1)

/-- An even number of samples is decoded. -/
def evenCount (count : ℕ) : ℕ := count + count % 2

/-- No sum of the filter leaves the range of 32 bits. -/
def SumsFit (count : ℕ) (state : ADPCMState) : Prop :=
  ∀ n < evenCount count, -2 ^ 31 ≤ filterSum data coeffs n (exactHistory data coeffs state n) ∧
    filterSum data coeffs n (exactHistory data coeffs state n) < 2 ^ 31

/-- The samples are those of the recurrence, and they can be decoded in two parts. -/
def DecodesExactly (count : ℕ) (state : ADPCMState) : Prop :=
  ∃ samples state', decodeADPCM data count coeffs state = .ok (samples, state') ∧
    samples.map (fun s => (s.1.toInt, s.2.toInt)) = (List.range (evenCount count)).map (fun n =>
      ((exactHistory data coeffs state (n + 1)).1, (exactHistory data coeffs state (n + 1)).1)) ∧
    (state'.yn1.toInt, state'.yn2.toInt) = exactHistory data coeffs state (evenCount count) ∧
    ∀ k, 14 * k ≤ count → ∃ first middle rest,
      decodeADPCM data (14 * k) coeffs state = .ok (first, middle) ∧
        decodeADPCM (fun i => data (8 * k + i)) (count - 14 * k) coeffs middle =
          .ok (rest, state') ∧ samples = first ++ rest

end Recurrence

/-- The largest amount that a coefficient takes away from a sum. -/
def largestFeedback (c : ℤ) : ℤ := max (2 ^ 15 * c) (-(2 ^ 15 - 1) * c)

/-- The feedback of each pair of coefficients leaves room for the smallest sample. -/
def CoefficientsFit (coeffs : Vector Int16 16) : Prop :=
  ∀ i < 8, largestFeedback (coefficient coeffs (i * 2)) +
    largestFeedback (coefficient coeffs (i * 2 + 1)) ≤ 2 ^ 31 - 2 ^ 29 + 2 ^ 10

end Borked3DS.Interface
