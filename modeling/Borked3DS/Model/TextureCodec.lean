import Borked3DS.Library.ByteOrder
import Borked3DS.Library.Span
import Borked3DS.Model.Basic

/-!
# The copy between linear and tiled images

`MortonCopy` of `texture_codec.h` for the colour and depth formats, without conversion of the
pixels. A subspan is a window on its span; taking one that does not fit is undefined, and so is
every copy that leaves its buffer. What an array holds that nobody has written is an argument
(`fresh`).
-/

set_option autoImplicit false

namespace Borked3DS.Model

open Borked3DS.Library

/-- The colour and depth formats of `PixelFormat`. -/
inductive PixelFormat
  | rgba8 | rgb8 | rgb5a1 | rgb565 | rgba4 | d16 | d24 | d24s8
  deriving DecidableEq, Repr

/-- `GetFormatBpp`: the bits of a pixel in a tiled image.
SOURCE: pixel_format.h:66-92 -/
def formatBpp : PixelFormat → ℕ
  | .rgba8 => 32
  | .rgb8 => 24
  | .rgb5a1 => 16
  | .rgb565 => 16
  | .rgba4 => 16
  | .d16 => 16
  | .d24 => 24
  | .d24s8 => 32

/-- `GetFormatBytesPerPixel`: the bytes of a pixel in a linear image.
SOURCE: pixel_format.h:66-98 -/
def formatBytesPerPixel : PixelFormat → ℕ
  | .rgba8 => 4
  | .rgb8 => 3
  | .rgb5a1 => 2
  | .rgb565 => 2
  | .rgba4 => 2
  | .d16 => 2
  | .d24 => 4
  | .d24s8 => 4

/-- `Common::AlignDown`. -/
def Common.alignDown (value size : ℕ) : ℕ := value - value % size

theorem Common.alignDown_eq {value size : ℕ} :
    alignDown value size = value / size * size := by
  have hsplit := Nat.div_add_mod value size
  rw [Nat.mul_comm] at hsplit
  unfold alignDown
  omega

/-- `Common::AlignUp`. -/
def Common.alignUp (value size : ℕ) : ℕ :=
  if value % size = 0 then value else u32 (value - value % size + size)

open Common

/-- `MortonInterleave`.
SOURCE: utils.h:12-16 -/
def mortonInterleave (x y : ℕ) : ℕ :=
  [0x00, 0x01, 0x04, 0x05, 0x10, 0x11, 0x14, 0x15].getD (x % 8) 0 +
    [0x00, 0x02, 0x08, 0x0a, 0x20, 0x22, 0x28, 0x2a].getD (y % 8) 0

/-- `std::rotl` of a 32-bit word. -/
def rotl (x n : ℕ) : ℕ := ((BitVec.ofNat 32 x).rotateLeft n).toNat

/-- `std::rotr` of a 32-bit word. -/
def rotr (x n : ℕ) : ℕ := ((BitVec.ofNat 32 x).rotateRight n).toNat

/-- `EncodePixel` without conversion: the bytes of a tiled pixel, from those at the linear one.
SOURCE: texture_codec.h:117-168 -/
def encodePixel (format : PixelFormat) (source : List UInt8) : List UInt8 :=
  match format with
  | .d24s8 => toLittleEndian 4 (rotr (ofLittleEndian source) 8)
  | _ => source

/-- `DecodePixel` without conversion.
SOURCE: texture_codec.h:28-73 -/
def decodePixel (format : PixelFormat) (source : List UInt8) : List UInt8 :=
  match format with
  | .d24s8 => toLittleEndian 4 (rotl (ofLittleEndian source) 8)
  | _ => source

/-- A subspan: where it begins and how long it is. -/
structure Window where
  offset : ℕ
  size : ℕ

/-- `span.subspan(offset, count)`. -/
def subspan (s : Span) (offset count : ℕ) : Exec Window :=
  if offset + count ≤ s.size then pure ⟨offset, count⟩ else .error .undefined

/-- `subspan` of a subspan. -/
def Window.subspan (w : Window) (offset count : ℕ) : Exec Window :=
  if offset + count ≤ w.size then pure ⟨w.offset + offset, count⟩ else .error .undefined

/-- `std::memcpy` between two buffers. -/
def memcpy (dest : Span) (destOffset : ℕ) (source : Span) (sourceOffset count : ℕ) : Exec Span :=
  if destOffset + count ≤ dest.size ∧ sourceOffset + count ≤ source.size then
    pure (dest.write destOffset (source.read sourceOffset count))
  else .error .undefined

/-- Copy one pixel of a tile.
SOURCE: texture_codec.h:209-226 -/
def mortonCopyPixel (mortonToLinear : Bool) (format : PixelFormat) (stride : ℕ)
    (tileBuffer linearBuffer : Window) (buffers : Span × Span) (place : ℕ × ℕ) :
    Exec (Span × Span) := do
  let bytesPerPixel := formatBpp format / 8
  let linearBytesPerPixel := formatBytesPerPixel format
  let (x, y) := place
  let tiledPixel ← tileBuffer.subspan (u32 (mortonInterleave x y * bytesPerPixel)) bytesPerPixel
  let linearPixel ← linearBuffer.subspan (u32 (((7 - y) * stride + x) * linearBytesPerPixel))
    linearBytesPerPixel
  let (tiled, linear) := buffers
  if mortonToLinear then
    pure (tiled, linear.write linearPixel.offset
      (decodePixel format (tiled.read tiledPixel.offset bytesPerPixel)))
  else
    pure (tiled.write tiledPixel.offset
      (encodePixel format (linear.read linearPixel.offset bytesPerPixel)), linear)

/-- The places of a tile in the order of the two loops. -/
def tilePlaces : List (ℕ × ℕ) :=
  (List.range 8).flatMap fun y => (List.range 8).map fun x => (x, y)

/-- `MortonCopyTile`. The buffers that the two windows are on are the tiled one and the linear one.
SOURCE: texture_codec.h:200-230 -/
def mortonCopyTile (mortonToLinear : Bool) (format : PixelFormat) (stride : ℕ)
    (tileBuffer linearBuffer : Window) (buffers : Span × Span) : Exec (Span × Span) :=
  tilePlaces.foldlM (mortonCopyPixel mortonToLinear format stride tileBuffer linearBuffer) buffers

/-- The variables that `MortonCopy` changes. -/
structure MortonState where
  x : ℕ
  y : ℕ
  linearOffset : ℕ
  tiledOffset : ℕ
  tiled : Span
  linear : Span

section Copy

variable (fresh : ℕ → UInt8) (mortonToLinear : Bool) (format : PixelFormat) (width height : ℕ)

/-- The bytes of a tile. -/
def tileSize : ℕ := formatBpp format * 64 / 8

/-- From the first to behind the last byte that a tile has in the linear buffer. -/
def linearTileStride : ℕ := u32 ((7 * width + 8) * formatBytesPerPixel format)

/-- `linear_next_tile`.
SOURCE: texture_codec.h:283-294 -/
def linearNextTile (s : MortonState) : MortonState :=
  let x := u32 (s.x + 8) % width
  let linearOffset := u32 (s.linearOffset + 8 * formatBytesPerPixel format)
  if x = 0 then
    let y := u32 (s.y + 8) % height
    if y = 0 then { s with x := x, y := y, linearOffset := linearOffset }
    else { s with
      x := x
      y := y
      linearOffset := u32Sub linearOffset (u32 (width * 9 * formatBytesPerPixel format)) }
  else { s with x := x, linearOffset := linearOffset }

/-- Swizzle a tile to a temporary buffer.
SOURCE: texture_codec.h:298-300, texture_codec.h:325-328 -/
def swizzleTile (s : MortonState) : Exec Span := do
  let linearData ← subspan s.linear s.linearOffset (linearTileStride format width)
  let (tile, _) ← mortonCopyTile mortonToLinear format width ⟨0, tileSize format⟩ linearData
    (⟨tileSize format, fresh⟩, s.linear)
  pure tile

/-- The loop over the tiles that are copied as a whole; `fuel` bounds its rounds.
SOURCE: texture_codec.h:313-319 -/
def copyTiles (bufferEnd : ℕ) : ℕ → MortonState → Exec MortonState
  | 0, _ => .error .undefined
  | fuel + 1, s =>
      if s.tiledOffset < bufferEnd then do
        let linearData ← subspan s.linear s.linearOffset (linearTileStride format width)
        let tiledData ← subspan s.tiled s.tiledOffset (tileSize format)
        let (tiled, linear) ← mortonCopyTile mortonToLinear format width tiledData linearData
          (s.tiled, s.linear)
        copyTiles bufferEnd fuel (linearNextTile format width height { s with
          tiled := tiled
          linear := linear
          tiledOffset := u32 (s.tiledOffset + tileSize format) })
      else pure s

/-- The part of the first tile that lies in the range.
SOURCE: texture_codec.h:296-306 -/
def copyFirst (startOffset endOffset : ℕ) (s : MortonState) : Exec MortonState := do
  let alignedDownStart := alignDown startOffset (tileSize format)
  let alignedStart := alignUp startOffset (tileSize format)
  if startOffset < alignedStart ∧ mortonToLinear = false then do
    let tile ← swizzleTile fresh mortonToLinear format width s
    let tiled ← memcpy s.tiled 0 tile (startOffset - alignedDownStart)
      (u32Sub (min alignedStart endOffset) startOffset)
    pure (linearNextTile format width height { s with
      tiled := tiled
      tiledOffset := u32 (s.tiledOffset + (alignedStart - startOffset)) })
  else pure s

/-- The tiles that lie in the range.
SOURCE: texture_codec.h:308-320 -/
def copyMiddle (startOffset endOffset : ℕ) (s : MortonState) : Exec MortonState :=
  let alignedStart := alignUp startOffset (tileSize format)
  let alignedEnd := alignDown endOffset (tileSize format)
  if alignedStart < alignedEnd then
    let bufferEnd := min (u32Sub (u32 (s.tiledOffset + alignedEnd)) alignedStart) (u32 s.tiled.size)
    copyTiles mortonToLinear format width height bufferEnd (bufferEnd / tileSize format + 2) s
  else pure s

/-- The part of the last tile that lies in the range.
SOURCE: texture_codec.h:322-331 -/
def copyLast (startOffset endOffset : ℕ) (s : MortonState) : Exec MortonState := do
  let alignedStart := alignUp startOffset (tileSize format)
  let alignedEnd := alignDown endOffset (tileSize format)
  if max alignedStart alignedEnd < endOffset ∧ mortonToLinear = false then do
    let tile ← swizzleTile fresh mortonToLinear format width s
    let tiled ← memcpy s.tiled s.tiledOffset tile 0 (endOffset - alignedEnd)
    pure { s with tiled := tiled }
  else pure s

/-- Where `MortonCopy` begins.
SOURCE: texture_codec.h:265-281 -/
def mortonStart (startOffset : ℕ) (linear tiled : Span) : MortonState :=
  let beginPixelIndex := u32 (alignDown startOffset (tileSize format) * 8) / formatBpp format
  let x := beginPixelIndex % u32 (width * 8) / 8
  let y := u32 (beginPixelIndex / u32 (width * 8) * 8)
  { x := x
    y := y
    linearOffset := u32 ((u32Sub (u32Sub height 8) y * width + x) * formatBytesPerPixel format)
    tiledOffset := 0
    tiled := tiled
    linear := linear }

/-- `MortonCopy`, the linear and the tiled buffer after it.
SOURCE: texture_codec.h:257-332 -/
def mortonCopy (startOffset endOffset : ℕ) (linear tiled : Span) : Exec (Span × Span) := do
  assert (mortonToLinear = false ∨ (alignUp startOffset (tileSize format) = startOffset ∧
    alignDown endOffset (tileSize format) = endOffset)) .tileAligned
  let s ← copyFirst fresh mortonToLinear format width height startOffset endOffset
    (mortonStart format width height startOffset linear tiled)
  let s ← copyMiddle mortonToLinear format width height startOffset endOffset s
  let s ← copyLast fresh mortonToLinear format width startOffset endOffset s
  pure (s.linear, s.tiled)

end Copy

end Borked3DS.Model
