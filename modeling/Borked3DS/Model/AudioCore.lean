import Mathlib.Data.Int.Notation
import Borked3DS.Model.Basic

/-!
# The audio codec

`codec.cpp`: samples of four bits are decoded by a filter of second order, whose coefficients and
scale change with each frame of fourteen samples.
-/

set_option autoImplicit false

namespace Borked3DS.Model.AudioCore

open Borked3DS.Library

/-- An element of a `StereoBuffer16`. -/
abbrev StereoSample := Int16 × Int16

/-- `ADPCMState`.
SOURCE: codec.h:15-20 -/
structure ADPCMState where
  yn1 : Int16
  yn2 : Int16

/-- The value of an `int`: a result that does not fit is undefined. -/
def int32 (x : ℤ) : Exec ℤ := if -2 ^ 31 ≤ x ∧ x < 2 ^ 31 then pure x else .error .undefined

def SIGNED_NIBBLES : List ℤ := [0, 1, 2, 3, 4, 5, 6, 7, -8, -7, -6, -5, -4, -3, -2, -1]

/-- The feedback and the samples that have been decoded, each for both channels. -/
structure Decoder where
  yn1 : ℤ
  yn2 : ℤ
  ret : List StereoSample

/-- `decode_sample`, in the order of the source's operations.
SOURCE: codec.cpp:47-60 -/
def decodeSample (coef1 coef2 scale nibble : ℤ) (d : Decoder) : Exec Decoder := do
  let xn ← int32 (nibble * scale)
  let shifted ← int32 (xn * 2 ^ 11)
  let rounded ← int32 (shifted + 0x400)
  let first ← int32 (coef1 * d.yn1)
  let sum ← int32 (rounded + first)
  let second ← int32 (coef2 * d.yn2)
  let sum ← int32 (sum + second)
  let val := max (-32768) (min (sum >>> (11 : ℕ)) 32767)
  pure { yn1 := val, yn2 := d.yn1, ret := d.ret ++ [(Int16.ofInt val, Int16.ofInt val)] }

/-- The bytes of a frame, so many of them being left, from a sample and a byte on.
SOURCE: codec.cpp:64-74 -/
def decodeBytes (coef1 coef2 scale : ℤ) (data : ℕ → UInt8) (sampleCount : ℕ) :
    ℕ → ℕ → ℕ → Decoder → Exec Decoder
  | 0, _, _, d => pure d
  | left + 1, outputi, datai, d =>
      if outputi < sampleCount then do
        let byte := (data datai).toNat
        let d ← decodeSample coef1 coef2 scale (SIGNED_NIBBLES.getD (byte >>> 4) 0) d
        let d ← decodeSample coef1 coef2 scale (SIGNED_NIBBLES.getD (byte &&& 0xF) 0) d
        decodeBytes coef1 coef2 scale data sampleCount left (outputi + 2) (datai + 1) d
      else pure d

/-- `adpcm_coeff[i]`. -/
def coefficient (adpcmCoeff : Vector Int16 16) (i : ℕ) : ℤ := (adpcmCoeff.get (Fin.ofNat 16 i)).toInt

/-- A frame: its header, and seven bytes.
SOURCE: codec.cpp:37-75 -/
def decodeFrame (data : ℕ → UInt8) (sampleCount : ℕ) (adpcmCoeff : Vector Int16 16) (d : Decoder)
    (framei : ℕ) : Exec Decoder :=
  let frameHeader := (data (framei * 8)).toNat
  let scale : ℤ := 1 <<< (frameHeader &&& 0xF)
  let idx := (frameHeader >>> 4) &&& 0x7
  let coef1 := coefficient adpcmCoeff (idx * 2 + 0)
  let coef2 := coefficient adpcmCoeff (idx * 2 + 1)
  decodeBytes coef1 coef2 scale data sampleCount 7 (framei * 14) (framei * 8 + 1) d

/-- `DecodeADPCM`, with the feedback that it leaves.
SOURCE: codec.cpp:17-81 -/
def decodeADPCM (data : ℕ → UInt8) (sampleCount : ℕ) (adpcmCoeff : Vector Int16 16)
    (state : ADPCMState) : Exec (List StereoSample × ADPCMState) := do
  let numFrames := (sampleCount + 13) / 14
  let d ← (List.range numFrames).foldlM (decodeFrame data sampleCount adpcmCoeff)
    ⟨state.yn1.toInt, state.yn2.toInt, []⟩
  pure (d.ret, ⟨Int16.ofInt d.yn1, Int16.ofInt d.yn2⟩)

end Borked3DS.Model.AudioCore
