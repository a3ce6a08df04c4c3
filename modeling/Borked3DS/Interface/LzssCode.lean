import Mathlib.Data.Nat.Bitwise
import Borked3DS.Model.Lzss

/-!
# What compressed code means

The backward reading of a compressed buffer as a function of its bytes: the tokens are taken from
the end, and what they stand for grows downwards from the end of the result.
-/

set_option autoImplicit false

namespace Borked3DS.Interface

open Borked3DS.Library Borked3DS.Model

/-- The bits of a control byte, the highest one first. -/
def controlBits (control : UInt8) : List Bool :=
  (List.range 8).map fun i => control.toNat.testBit (7 - i)

/-- A run of what stands already, copied in front of it byte by byte. The distance is counted from
the byte in front, which moves with the copy. -/
def copyBack (distance : ℕ) : ℕ → List UInt8 → Option (List UInt8)
  | 0, produced => some produced
  | length + 1, produced =>
      match produced[distance]? with
      | some x => copyBack distance length (x :: produced)
      | none => none

/-- One token, from the bytes below the read position, the nearest one first: a byte of its own, or
two bytes that give a length and a distance. It yields the bytes left and what stands then, unless
the bytes run out, the distance leaves what stands, or there is no room. -/
def readToken (size : ℕ) (isReference : Bool) (input produced : List UInt8) :
    Option (List UInt8 × List UInt8) :=
  if isReference then
    match input with
    | high :: low :: rest =>
        let length := high.toNat / 16 + 3
        let distance := high.toNat % 16 * 256 + low.toNat + 2
        if produced.length + length ≤ size then
          (copyBack distance length produced).map (rest, ·)
        else none
    | _ => none
  else
    match input with
    | x :: rest => some (rest, x :: produced)
    | [] => none

/-- The tokens of one control byte, as long as the read position is above the stop and the result
is not full. -/
def readTokens (size stop : ℕ) :
    List Bool → List UInt8 → List UInt8 → Option (List UInt8 × List UInt8)
  | [], input, produced => some (input, produced)
  | isReference :: bits, input, produced =>
      if input.length ≤ stop ∨ size ≤ produced.length then some (input, produced)
      else
        match readToken size isReference input produced with
        | some (input, produced) => readTokens size stop bits input produced
        | none => none

/-- The control bytes with their tokens down to the stop. -/
def readGroups (size stop : ℕ) : ℕ → List UInt8 → List UInt8 → Option (List UInt8)
  | 0, _, produced => some produced
  | fuel + 1, input, produced =>
      if input.length ≤ stop then some produced
      else
        match input with
        | [] => some produced
        | control :: input =>
            match readTokens size stop (controlBits control) input produced with
            | some (input, produced) => readGroups size stop fuel input produced
            | none => none

/-- The footer's distance from the end of the buffer to the first control byte. -/
def lzssTop (compressed : List UInt8) : ℕ :=
  ofLittleEndian ((compressed.drop (compressed.length - 8)).take 4) / 2 ^ 24 % 2 ^ 8

/-- The footer's distance from the end of the buffer to the end of the untouched prefix. -/
def lzssBottom (compressed : List UInt8) : ℕ :=
  ofLittleEndian ((compressed.drop (compressed.length - 8)).take 4) % 2 ^ 24

/-- How much longer the footer says the result is. -/
def lzssOffsetSize (compressed : List UInt8) : ℕ :=
  ofLittleEndian ((compressed.drop (compressed.length - 4)).take 4)

/-- The reference decoding: what the tokens stand for, behind as much of the buffer itself as is
left untouched, with zeros where the buffer is too short. There is none if the footer points out of
the buffer or a token has no meaning. -/
def lzssReference (compressed : List UInt8) : Option (List UInt8) :=
  let size := compressed.length + lzssOffsetSize compressed
  if lzssTop compressed ≤ compressed.length ∧ lzssBottom compressed ≤ compressed.length then
    (readGroups size (compressed.length - lzssBottom compressed) compressed.length
      (compressed.take (compressed.length - lzssTop compressed)).reverse []).map fun produced =>
        (compressed ++ List.replicate (lzssOffsetSize compressed) 0).take (size - produced.length) ++
          produced
  else none

/-- What unpacking promises: no access out of bounds, and success only with the reference
decoding. -/
def DecompressesCode (compressed : List UInt8) : Prop :=
  ∃ result, Lzss.loadCompressedCode compressed = .ok result ∧
    ∀ bytes, result = some bytes → lzssReference compressed = some bytes

/-- The buffer holds a footer, which points into it. -/
def LzssFooterInside (compressed : List UInt8) : Prop :=
  8 ≤ compressed.length ∧ lzssTop compressed ≤ compressed.length ∧
    lzssBottom compressed ≤ compressed.length

end Borked3DS.Interface
