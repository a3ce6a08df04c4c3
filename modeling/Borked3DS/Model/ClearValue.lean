import Mathlib.Data.Int.Notation
import Borked3DS.Library.CheckedList
import Borked3DS.Model.SurfaceParams

/-!
# The value that a fill clears with

Where a fill covers a rectangle of another surface, that is cleared with one value instead of being
read from the memory: `CanFill` says when (`surface_base.cpp`), and the value is read from a few
bytes of the fill with the functions for the texels of a texture (`texture_decode.cpp`). Values are
taken before they are divided by the greatest one of their kind.
-/

set_option autoImplicit false

namespace Borked3DS.Model.VideoCore

open Borked3DS.Library

/-! ## Pixels -/

/-- `Common::Vec4<u8>`. -/
structure Color where
  r : UInt8
  g : UInt8
  b : UInt8
  a : UInt8
  deriving DecidableEq, Repr

/-- A pixel of a colour, depth or depth-stencil format. A depth comes with the greatest one. -/
inductive PixelValue
  | color (value : Color)
  | depth (value greatest : ℕ)
  | depthStencil (depth stencil : ℕ)
  deriving DecidableEq, Repr

def convert1To8 (value : UInt8) : UInt8 := value * 255

def convert4To8 (value : UInt8) : UInt8 := (value <<< 4) ||| value

def convert5To8 (value : UInt8) : UInt8 := (value <<< 3) ||| (value >>> 2)

def convert6To8 (value : UInt8) : UInt8 := (value <<< 2) ||| (value >>> 4)

section Decode

-- The bytes at a pointer.
variable (bytes : ℕ → UInt8)

/-- `u16_le`. -/
def halfWordAt : UInt16 := (bytes 0).toUInt16 ||| ((bytes 1).toUInt16 <<< 8)

/-- SOURCE: color.h:66-68 -/
def decodeRGBA8 : Color := ⟨bytes 3, bytes 2, bytes 1, bytes 0⟩

/-- SOURCE: color.h:75-77 -/
def decodeRGB8 : Color := ⟨bytes 2, bytes 1, bytes 0, 255⟩

/-- SOURCE: color.h:84-86 -/
def decodeRG8 : Color := ⟨bytes 1, bytes 0, 0, 255⟩

/-- SOURCE: color.h:93-98 -/
def decodeRGB565 : Color :=
  let pixel := halfWordAt bytes
  ⟨convert5To8 ((pixel >>> 11) &&& 0x1F).toUInt8, convert6To8 ((pixel >>> 5) &&& 0x3F).toUInt8,
    convert5To8 (pixel &&& 0x1F).toUInt8, 255⟩

/-- SOURCE: color.h:105-110 -/
def decodeRGB5A1 : Color :=
  let pixel := halfWordAt bytes
  ⟨convert5To8 ((pixel >>> 11) &&& 0x1F).toUInt8, convert5To8 ((pixel >>> 6) &&& 0x1F).toUInt8,
    convert5To8 ((pixel >>> 1) &&& 0x1F).toUInt8, convert1To8 (pixel &&& 0x1).toUInt8⟩

/-- SOURCE: color.h:117-122 -/
def decodeRGBA4 : Color :=
  let pixel := halfWordAt bytes
  ⟨convert4To8 ((pixel >>> 12) &&& 0xF).toUInt8, convert4To8 ((pixel >>> 8) &&& 0xF).toUInt8,
    convert4To8 ((pixel >>> 4) &&& 0xF).toUInt8, convert4To8 (pixel &&& 0xF).toUInt8⟩

/-- SOURCE: color.h:129-131 -/
def decodeIA8 : Color := ⟨bytes 1, bytes 1, bytes 1, bytes 0⟩

/-- SOURCE: color.h:138-140 -/
def decodeI8 : Color := ⟨bytes 0, bytes 0, bytes 0, 255⟩

/-- SOURCE: color.h:147-149 -/
def decodeA8 : Color := ⟨0, 0, 0, bytes 0⟩

/-- SOURCE: color.h:156-160 -/
def decodeIA4 : Color :=
  let i := convert4To8 ((bytes 0 &&& 0xF0) >>> 4)
  let a := convert4To8 (bytes 0 &&& 0x0F)
  ⟨i, i, i, a⟩

/-- SOURCE: color.h:178-180 -/
def decodeD24 : ℕ := ((bytes 2).toNat <<< 16) ||| ((bytes 1).toNat <<< 8) ||| (bytes 0).toNat

end Decode

/-! ## ETC1 -/

/-- SOURCE: etc1.cpp:18-27 -/
def etc1ModifierTable : List (ℕ × ℕ) :=
  [(2, 8), (5, 17), (9, 29), (13, 42), (18, 60), (24, 80), (33, 106), (47, 183)]

/-- A bit field of a word. -/
def etc1Field (raw position width : ℕ) : ℕ := raw >>> position % 2 ^ width

/-- A bit field with a sign. -/
def etc1Signed (raw position width : ℕ) : ℤ :=
  let value := etc1Field raw position width
  if value < 2 ^ (width - 1) then value else (value : ℤ) - 2 ^ width

/-- A component of the base colour: the bit positions are those of the fields of the two modes.
SOURCE: etc1.cpp:80-107 -/
def etc1Base (raw x delta base first second : ℕ) : ℤ :=
  if etc1Field raw 33 1 = 1 then
    let ret : ℤ := etc1Field raw base 5
    let ret := if x ≥ 2 then ret + etc1Signed raw delta 3 else ret
    (convert5To8 (UInt8.ofInt ret)).toNat
  else (convert4To8 (UInt8.ofNat (etc1Field raw (if x < 2 then first else second) 4))).toNat

/-- `ETC1Tile::GetRGB`.
SOURCE: etc1.cpp:73-126 -/
def etc1GetRGB (raw x y : ℕ) : UInt8 × UInt8 × UInt8 :=
  let texel := 4 * x + y
  let (x, _) := if etc1Field raw 32 1 = 1 then (y, x) else (x, y)
  let tableIndex := if x < 2 then etc1Field raw 37 3 else etc1Field raw 34 3
  let modifiers := etc1ModifierTable.getD tableIndex (0, 0)
  let modifier : ℤ := if etc1Field raw texel 1 = 0 then modifiers.1 else modifiers.2
  let modifier := if etc1Field raw (16 + texel) 1 = 1 then modifier * -1 else modifier
  let clamp := fun value : ℤ => UInt8.ofInt (max 0 (min 255 (value + modifier)))
  (clamp (etc1Base raw x 56 59 60 56), clamp (etc1Base raw x 48 51 52 48),
    clamp (etc1Base raw x 40 43 44 40))

/-! ## Textures -/

namespace SurfaceFormat

/-- `CalculateTileSize`, for a format of textures.
SOURCE: texture_decode.cpp:106-140 -/
def tileSize (format : SurfaceFormat) : ℕ := format.bpp * 64 / 8

end SurfaceFormat

/-- `LookupTexelInTile`, without the case of widgets that show no alpha. The pointer is one to the
bytes of a buffer.
SOURCE: texture_decode.cpp:157-309 -/
def lookupTexelInTile (source : List UInt8) (x y : ℕ) (format : SurfaceFormat) : Exec Color :=
  let offset := mortonInterleave x y
  let read := fun (place n : ℕ) => do
    let found ← readRun Fault.undefined source place n
    pure fun i : ℕ => found.getD i 0
  match format with
  | .RGBA8 => do pure (decodeRGBA8 (← read (offset * 4) 4))
  | .RGB8 => do pure (decodeRGB8 (← read (offset * 3) 3))
  | .RGB5A1 => do pure (decodeRGB5A1 (← read (offset * 2) 2))
  | .RGB565 => do pure (decodeRGB565 (← read (offset * 2) 2))
  | .RGBA4 => do pure (decodeRGBA4 (← read (offset * 2) 2))
  | .IA8 => do
      let pixel ← read (offset * 2) 2
      pure ⟨pixel 1, pixel 1, pixel 1, pixel 0⟩
  | .RG8 => do
      let res := decodeRG8 (← read (offset * 2) 2)
      pure ⟨res.r, res.g, 0, 255⟩
  | .I8 => do
      let pixel ← read offset 1
      pure ⟨pixel 0, pixel 0, pixel 0, 255⟩
  | .A8 => do
      let pixel ← read offset 1
      pure ⟨255, 255, 255, pixel 0⟩
  | .IA4 => do
      let pixel ← read offset 1
      let intensity := convert4To8 ((pixel 0 &&& 0xF0) >>> 4)
      pure ⟨intensity, intensity, intensity, convert4To8 (pixel 0 &&& 0xF)⟩
  | .I4 => do
      let pixel ← read (offset / 2) 1
      let intensity := convert4To8
        (if offset % 2 ≠ 0 then (pixel 0 &&& 0xF0) >>> 4 else pixel 0 &&& 0xF)
      pure ⟨intensity, intensity, intensity, 255⟩
  | .A4 => do
      let pixel ← read (offset / 2) 1
      let alpha := convert4To8
        (if offset % 2 ≠ 0 then (pixel 0 &&& 0xF0) >>> 4 else pixel 0 &&& 0xF)
      pure ⟨255, 255, 255, alpha⟩
  | .ETC1 | .ETC1A4 => do
      let hasAlpha := format = .ETC1A4
      let subtile := (x / 4 + 2 * (y / 4)) * (if hasAlpha then 16 else 8)
      let x := x % 4
      let y := y % 4
      let packedAlpha ← if hasAlpha then readRun Fault.undefined source subtile 8 else pure []
      let data ← readRun Fault.undefined source (if hasAlpha then subtile + 8 else subtile) 8
      let alpha := if hasAlpha
        then convert4To8 (UInt8.ofNat (ofLittleEndian packedAlpha >>> (4 * (x * 4 + y)) % 16))
        else 255
      let (r, g, b) := etc1GetRGB (ofLittleEndian data) x y
      pure ⟨r, g, b, alpha⟩
  | .D16 | .D24 | .D24S8 => pure ⟨0, 0, 0, 0⟩

/-- SOURCE: texture_decode.cpp:142-155 -/
def lookupTexture (source : List UInt8) (x y stride : ℕ) (format : SurfaceFormat) : Exec Color :=
  lookupTexelInTile (source.drop (y / 8 * stride + x / 8 * format.tileSize)) (x % 8) (y % 8) format

/-! ## The pixels of a surface -/

/-- `DecodePixel` with conversion, for a pixel that is made of whole bytes. Compressed formats have
no pixels of their own.
SOURCE: texture_codec.h:27-71 -/
def decodePixelValue (format : SurfaceFormat) (bytes : ℕ → UInt8) : PixelValue :=
  match format with
  | .RGBA8 => .color (decodeRGBA8 bytes)
  | .RGB8 => .color (decodeRGB8 bytes)
  | .RGB565 => .color (decodeRGB565 bytes)
  | .RGB5A1 => .color (decodeRGB5A1 bytes)
  | .RGBA4 => .color (decodeRGBA4 bytes)
  | .IA8 => .color (decodeIA8 bytes)
  | .RG8 => .color (decodeRG8 bytes)
  | .I8 => .color (decodeI8 bytes)
  | .A8 => .color (decodeA8 bytes)
  | .IA4 => .color (decodeIA4 bytes)
  | .D16 => .depth (halfWordAt bytes).toNat 0xFFFF
  | .D24 => .depth (decodeD24 bytes) 0xFFFFFF
  | .D24S8 =>
      -- The stencil is the lowest byte of the texel.
      let d24s8 := rotl (ofLittleEndian ((List.range 4).map bytes)) 8
      .depthStencil (d24s8 / 2 ^ 8) (d24s8 % 2 ^ 8)
  | .I4 | .A4 | .ETC1 | .ETC1A4 => .color ⟨bytes 0, 0, 0, 0⟩

/-- SOURCE: texture_codec.h:73-86 -/
def decodePixel4 (format : SurfaceFormat) (x y : ℕ) (tile : ℕ → UInt8) : Color :=
  let mortonOffset := mortonInterleave x y
  let value := tile (mortonOffset / 2)
  let pixel := convert4To8 (if mortonOffset % 2 ≠ 0 then value >>> 4 else value &&& 0xF)
  if format = .I4 then ⟨pixel, pixel, pixel, 255⟩ else ⟨0, 0, 0, pixel⟩

/-- SOURCE: texture_codec.h:88-116 -/
def decodePixelETC1 (format : SurfaceFormat) (x y : ℕ) (tile : ℕ → UInt8) : Color :=
  let hasAlpha := format = .ETC1A4
  let subtile := (x / 4 + 2 * (y / 4)) * (if hasAlpha then 16 else 8)
  let x := x % 4
  let y := y % 4
  let wordAt := fun place : ℕ => ofLittleEndian ((List.range 8).map fun i => tile (place + i))
  let alpha := if hasAlpha
    then convert4To8 (UInt8.ofNat (wordAt subtile >>> (4 * (x * 4 + y)) % 16)) else 255
  let (r, g, b) := etc1GetRGB (wordAt (if hasAlpha then subtile + 8 else subtile)) x y
  ⟨r, g, b, alpha⟩

/-- One pixel of a tile as `MortonCopyTile` decodes it.
SOURCE: texture_codec.h:200-222 -/
def decodeTilePixel (format : SurfaceFormat) (x y : ℕ) (tile : ℕ → UInt8) : PixelValue :=
  match format with
  | .ETC1 | .ETC1A4 => .color (decodePixelETC1 format x y tile)
  | .I4 | .A4 => .color (decodePixel4 format x y tile)
  | _ => decodePixelValue format fun i => tile (mortonInterleave x y * (format.bpp / 8) + i)

/-! ## Fills -/

namespace Surface

variable (surface : Surface)

/-- SOURCE: surface_base.cpp:17-46 -/
def canFill (destSurface : SurfaceParams) (fillInterval : SurfaceInterval) : Exec Bool :=
  if surface.type = .Fill ∧ surface.isRegionValid fillInterval = true ∧
      surface.addr ≤ fillInterval.lower ∧ fillInterval.upper ≤ surface.upper then do
    let rect ← destSurface.fromInterval fillInterval
    if rect.getInterval ≠ fillInterval then pure false
    else if surface.fillSize * 8 ≠ destSurface.pixelFormat.bpp then
      let destBytesPerPixel := max (destSurface.pixelFormat.bpp / 8) 1
      let fillTest :=
        (List.replicate destBytesPerPixel (surface.fillData.take surface.fillSize)).flatten
      if (List.range surface.fillSize).any fun i =>
          (fillTest.drop (destBytesPerPixel * i)).take destBytesPerPixel ≠
            fillTest.take destBytesPerPixel then pure false
      else pure (!decide (destSurface.pixelFormat.bpp = 4 ∧
        fillTest.getD 0 0 &&& (0xF : UInt8) ≠ fillTest.getD 0 0 >>> 4))
    else pure true
  else pure false

/-- SOURCE: surface_base.cpp:168-180 -/
def makeFillBuffer (copyAddr : ℕ) : List UInt8 :=
  let fillOffset := u32Sub copyAddr surface.addr % surface.fillSize
  (List.range 4).map fun i => surface.fillData.getD ((fillOffset + i) % surface.fillSize) 0

/-- SOURCE: surface_base.cpp:130-166 -/
def makeClearValue (copyAddr : ℕ) (dstFormat : SurfaceFormat) : Exec PixelValue :=
  let fillBuffer := surface.makeFillBuffer copyAddr
  match dstFormat.type with
  | .Color | .Texture | .Fill => do
      let color ← lookupTexture fillBuffer 0 0 0 dstFormat
      pure (.color color)
  | .Depth =>
      if dstFormat = .D16 then do
        pure (.depth (ofLittleEndian (← readRun .undefined fillBuffer 0 2)) 0xFFFF)
      else do
        pure (.depth (ofLittleEndian (← readRun .undefined fillBuffer 0 3)) 0xFFFFFF)
  | .DepthStencil => do
      let clearValue := ofLittleEndian (← readRun .undefined fillBuffer 0 4)
      pure (.depthStencil (clearValue % 2 ^ 24) (clearValue >>> 24))
  | .Invalid => .error .undefined

end Surface

end Borked3DS.Model.VideoCore
