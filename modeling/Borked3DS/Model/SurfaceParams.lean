import Borked3DS.Model.MemoryFill
import Borked3DS.Model.TextureCodec

/-!
# Surface parameters

`SurfaceParams` of `surface_params.cpp`: where the levels of a surface lie in the memory, and how
rectangles of it and intervals of addresses are turned into each other.
-/

set_option autoImplicit false

namespace Borked3DS.Model.VideoCore

open Borked3DS.Model.Common

/-- `PixelFormat`, with the formats of textures, but without `Invalid`.
SOURCE: pixel_format.h:19-39 -/
inductive SurfaceFormat
  | RGBA8 | RGB8 | RGB5A1 | RGB565 | RGBA4 | IA8 | RG8 | I8 | A8 | IA4 | I4 | A4 | ETC1 | ETC1A4
  | D16 | D24 | D24S8
  deriving DecidableEq, Repr

/-- `GetFormatBpp`.
SOURCE: pixel_format.h:66-92 -/
def SurfaceFormat.bpp : SurfaceFormat → ℕ
  | RGBA8 | D24S8 => 32
  | RGB8 | D24 => 24
  | RGB5A1 | RGB565 | RGBA4 | IA8 | RG8 | D16 => 16
  | I8 | A8 | IA4 | ETC1A4 => 8
  | I4 | A4 | ETC1 => 4

/-- `GetFormatType`.
SOURCE: pixel_format.h:66-104 -/
def SurfaceFormat.type : SurfaceFormat → SurfaceType
  | RGBA8 | RGB8 | RGB5A1 | RGB565 | RGBA4 => .Color
  | IA8 | RG8 | I8 | A8 | IA4 | I4 | A4 | ETC1 | ETC1A4 => .Texture
  | D16 | D24 => .Depth
  | D24S8 => .DepthStencil

/-- `Common::Rectangle<u32>`.
SOURCE: math_util.h:17-62 -/
structure Rectangle where
  left : ℕ := 0
  top : ℕ := 0
  right : ℕ := 0
  bottom : ℕ := 0
  deriving DecidableEq, Repr

namespace Rectangle

/-- `std::abs` of a difference as a signed word. -/
def absSub (x y : ℕ) : ℕ := if u32Sub x y < 2 ^ 31 then u32Sub x y else u32Sub y x

def getWidth (r : Rectangle) : ℕ := absSub r.right r.left

def getHeight (r : Rectangle) : ℕ := absSub r.bottom r.top

end Rectangle

def MAX_PICA_LEVELS : ℕ := 8

/-- The offsets of the levels are an array of `MAX_PICA_LEVELS` addresses.
SOURCE: surface_params.h:99-115 -/
structure SurfaceParams where
  addr : ℕ := 0
  upper : ℕ := 0
  size : ℕ := 0
  width : ℕ := 0
  height : ℕ := 0
  stride : ℕ := 0
  levels : ℕ := 1
  isTiled : Bool := false
  pixelFormat : SurfaceFormat
  mipmapOffsets : ℕ → ℕ := fun _ => 0

/-- The variables of the loops over the levels. -/
structure MipLoop where
  levelWidth : ℕ
  levelHeight : ℕ
  offset : ℕ
  offsets : ℕ → ℕ

namespace SurfaceParams

variable (s : SurfaceParams)

def getInterval : SurfaceInterval := ⟨s.addr, s.upper⟩

def pixelsInBytes (size : ℕ) : ℕ := u32 (size * 8) / s.pixelFormat.bpp

def bytesInPixels (pixels : ℕ) : ℕ := u32 (pixels * s.pixelFormat.bpp) / 8

/-- One level of the loops.
SOURCE: surface_params.cpp:180-186 -/
def mipStep (loop : MipLoop) (level : ℕ) : MipLoop where
  levelWidth := loop.levelWidth / 2
  levelHeight := loop.levelHeight / 2
  offset := u32 (loop.offset + s.bytesInPixels (u32 (loop.levelWidth * loop.levelHeight)))
  offsets := Function.update loop.offsets level loop.offset

def mipLoop (offset : ℕ) : MipLoop :=
  (List.range s.levels).foldl s.mipStep ⟨s.width, s.height, offset, s.mipmapOffsets⟩

/-- `CalculateMipLevelOffsets`, and `CalculateSurfaceSize` that runs the same loop from zero on.
SOURCE: surface_params.cpp:173-202 -/
def calculateMipLevels : Exec ((ℕ → ℕ) × ℕ) := do
  assert (s.levels ≤ MAX_PICA_LEVELS ∧ s.stride = s.width) .mipLevels
  pure ((s.mipLoop s.addr).offsets, (s.mipLoop 0).offset)

/-- SOURCE: surface_params.cpp:61-78 -/
def updateParams : Exec SurfaceParams := do
  let s := { s with stride := if s.stride = 0 then s.width else s.stride }
  if s.levels ≠ 1 then
    assert (s.stride = s.width) .levelStride
    let (offsets, size) ← s.calculateMipLevels
    pure { s with mipmapOffsets := offsets, size := size, upper := u32 (s.addr + size) }
  else
    let size := if s.isTiled
      then s.bytesInPixels (u32 (s.stride * 8 * u32Sub (s.height / 8) 1 + s.width * 8))
      else s.bytesInPixels (u32 (s.stride * u32Sub s.height 1 + s.width))
    pure { s with
      mipmapOffsets := Function.update s.mipmapOffsets 0 s.addr
      size := size
      upper := u32 (s.addr + size) }

/-- The levels from one downwards that `LevelOf` looks at. The offset of the first one is the
address of the surface. -/
def levelFrom (levelAddr : ℕ) : ℕ → ℕ
  | 0 => 0
  | level + 1 =>
      if s.mipmapOffsets (level + 1) > levelAddr then levelFrom levelAddr level else level + 1

/-- SOURCE: surface_params.cpp:211-221 -/
def levelOf (levelAddr : ℕ) : ℕ :=
  if levelAddr < s.addr ∨ levelAddr > s.upper then 0 else s.levelFrom levelAddr (s.levels - 1)

/-- SOURCE: surface_params.cpp:204-209 -/
def levelInterval (level : ℕ) : Exec SurfaceInterval := do
  assert (s.levels > level) .surfaceLevel
  pure ⟨s.mipmapOffsets level,
    if level = s.levels - 1 then s.upper else s.mipmapOffsets (level + 1)⟩

/-- SOURCE: surface_params.cpp:80-99 -/
def getSubRect (subSurface : SurfaceParams) : Exec Rectangle := do
  let level := s.levelOf subSurface.addr
  let beginPixelIndex := s.pixelsInBytes (u32Sub subSurface.addr (s.mipmapOffsets level))
  assert (s.stride = s.width ∨ level = 0) .levelStride
  let strideLod := s.stride >>> level
  if s.isTiled then
    let x0 := beginPixelIndex % u32 (strideLod * 8) / 8
    let y0 := u32 (beginPixelIndex / u32 (strideLod * 8) * 8)
    let heightLod := s.height >>> level
    pure ⟨x0, u32Sub heightLod y0, u32 (x0 + subSurface.width),
      u32Sub heightLod (u32 (y0 + subSurface.height))⟩
  else
    let x0 := beginPixelIndex % strideLod
    let y0 := beginPixelIndex / strideLod
    pure ⟨x0, u32 (y0 + subSurface.height), u32 (x0 + subSurface.width), y0⟩

/-- The side of a tile. -/
def tiledSize : ℕ := if s.isTiled then 8 else 1

/-- SOURCE: surface_params.cpp:105-148 -/
def fromInterval (interval : SurfaceInterval) : Exec SurfaceParams := do
  let level := s.levelOf interval.lower
  let endAddr := interval.upper
  assert (level = s.levelOf endAddr ∨ endAddr = s.upper ∨ endAddr = s.mipmapOffsets (level + 1))
    .singleLevel
  let width := s.width >>> level
  let stride := s.stride >>> level
  let strideTiledBytes := s.bytesInPixels (u32 (stride * s.tiledSize))
  assert (s.stride = s.width ∨ level = 0) .levelStride
  let start := s.mipmapOffsets level
  let alignedStart := u32 (start + alignDown (u32Sub interval.lower start) strideTiledBytes)
  let alignedEnd := u32 (start + alignUp (u32Sub interval.upper start) strideTiledBytes)
  if u32Sub alignedEnd alignedStart > strideTiledBytes then
    updateParams { s with
      addr := alignedStart
      width := width
      stride := stride
      height := u32Sub alignedEnd alignedStart / s.bytesInPixels stride
      levels := 1 }
  else
    assert (u32Sub alignedEnd alignedStart = strideTiledBytes) .oneRow
    let tiledAlignment := s.bytesInPixels (if s.isTiled then 8 * 8 else 1)
    let alignedStart := u32 (start + alignDown (u32Sub interval.lower start) tiledAlignment)
    let alignedEnd := u32 (start + alignUp (u32Sub interval.upper start) tiledAlignment)
    let width := s.pixelsInBytes (u32Sub alignedEnd alignedStart) / s.tiledSize
    updateParams { s with
      addr := alignedStart
      width := width
      stride := width
      height := s.tiledSize
      levels := 1 }

/-- SOURCE: surface_params.cpp:150-171 -/
def getSubRectInterval (unscaledRect : Rectangle) (level : ℕ := 0) : SurfaceInterval :=
  if unscaledRect.getHeight = 0 ∨ unscaledRect.getWidth = 0 then ⟨0, 0⟩
  else
    let rect : Rectangle := if s.isTiled then {
        left := u32 (alignDown unscaledRect.left 8 * 8)
        bottom := alignDown unscaledRect.bottom 8 / 8
        right := u32 (alignUp unscaledRect.right 8 * 8)
        top := alignUp unscaledRect.top 8 / 8 }
      else unscaledRect
    let strideTiled := (if s.isTiled then u32 (s.stride * 8) else s.stride) >>> level
    let pixels := u32 (u32Sub rect.getHeight 1 * strideTiled + rect.getWidth)
    let pixelOffset := u32 (strideTiled *
      (if s.isTiled then u32Sub (s.height / 8) rect.top else rect.bottom) + rect.left)
    let start := s.mipmapOffsets level
    ⟨u32 (start + s.bytesInPixels pixelOffset),
      u32 (start + s.bytesInPixels (u32 (pixelOffset + pixels)))⟩

end SurfaceParams

end Borked3DS.Model.VideoCore
