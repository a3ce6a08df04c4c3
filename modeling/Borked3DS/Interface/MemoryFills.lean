import Borked3DS.Model.ClearValue

/-!
# When two memory fills agree

A fill leaves the same bytes in the memory whether it is done at once, or by a surface that is
written back when its range is flushed. A part of the surface can be flushed by itself. Another
surface can be cleared with the value of the fill.
-/

set_option autoImplicit false

namespace Borked3DS.Interface

open Borked3DS.Library Borked3DS.Model Borked3DS.Model.VideoCore

/-- Every byte of every area is the same. -/
def SameBytes (a b : GuestMemory) : Prop :=
  ∀ area, ∀ i < area.size, (a.bytes area).get i = (b.bytes area).get i

/-- A fill by the cache, and a flush of the range that it fills. -/
def fillAndFlush (downloadSurface : Surface → SurfaceInterval → GuestMemory → Exec GuestMemory)
    (cache : RasterizerCache) (memory : GuestMemory) (config : MemoryFillConfig) :
    Exec GuestMemory := do
  let cache ← cache.accelerateFill config
  let (_, memory) ← cache.flushRegion downloadSurface config.getStartAddress
    (config.getEndAddress - config.getStartAddress) memory
  .ok memory

/-- Whatever is in the memory and in the cache, both fills get to their end and leave the same
bytes. -/
def FillsAgree (config : MemoryFillConfig) : Prop :=
  ∀ downloadSurface cache memory, ∃ filled flushed,
    swMemoryFill memory config = .ok filled ∧
      fillAndFlush downloadSurface cache memory config = .ok flushed ∧ SameBytes filled flushed

/-- The start lies in no area; or it is the end of one, and the end lies in none; or both lie in
one, and the range of a fill with 24-bit values consists of whole values, which have one byte only
if the fill is one with 32-bit values, too. -/
def FillFits (config : MemoryFillConfig) : Prop :=
  match findArea config.getStartAddress, findArea config.getEndAddress with
  | none, _ => True
  | some startArea, none => config.getStartAddress = startArea.paddr + startArea.size
  | some startArea, some endArea => startArea = endArea ∧ (config.fill24bit = true →
      3 ∣ config.getEndAddress - config.getStartAddress ∧ (config.fill32bit = true →
        ∀ byte ∈ config.valueBytes, byte = config.valueBytes.getD 0 0))

/-! ## Flushes of a part -/

/-- A surface of a fill with two, three or four bytes. -/
structure IsFillSurface (surface : Surface) : Prop where
  type : surface.type = .Fill
  fillSize : surface.fillSize = 2 ∨ surface.fillSize = 3 ∨ surface.fillSize = 4
  fillData : surface.fillData.length = 4

/-- An interval of a surface. -/
structure PartOf (surface : Surface) (interval : SurfaceInterval) : Prop where
  lower : surface.addr ≤ interval.lower
  ordered : interval.lower ≤ interval.upper
  upper : interval.upper ≤ surface.upper

/-- An address in an interval. -/
def Meets (interval : SurfaceInterval) (address : ℕ) : Prop :=
  interval.lower ≤ address ∧ address < interval.upper

/-- The bytes of the interval are those of the fill, and the others are as they were. -/
structure FillFlushed (surface : Surface) (interval : SurfaceInterval)
    (before after : GuestMemory) : Prop where
  filled : ∀ area, ∀ i < area.size, Meets interval (area.paddr + i) →
    (after.bytes area).get i =
      surface.fillData.getD ((area.paddr + i - surface.addr) % surface.fillSize) 0
  kept : ∀ area, ∀ i < area.size, ¬ Meets interval (area.paddr + i) →
    (after.bytes area).get i = (before.bytes area).get i

/-- Whatever is in the memory, the flush gets to its end and writes the right bytes. -/
def FlushesFill (surface : Surface) (interval : SurfaceInterval) : Prop :=
  ∀ memory, ∃ flushed, downloadFillSurface surface interval memory = .ok flushed ∧
    FillFlushed surface interval memory flushed

/-- No byte of an interval lies in an area, except in the one of its start. -/
def InOneArea (interval : SurfaceInterval) : Prop :=
  ∀ area, findArea interval.lower ≠ some area → ∀ i < area.size, ¬ Meets interval (area.paddr + i)

/-- The flush of an interval in one area begins where the surface does; or it has no bytes, and the
place of those that would be kept, if there are any, is in the area. -/
def FlushFits (surface : Surface) (interval : SurfaceInterval) : Prop :=
  InOneArea interval ∧ ∀ area, findArea interval.lower = some area →
    interval.lower = surface.addr ∨
      (interval.upper = interval.lower ∨ interval.lower = area.paddr + area.size) ∧
        (surface.fillSize ∣ interval.lower - surface.addr ∨
          interval.lower + (interval.lower - surface.addr) ≤ area.paddr + area.size)

/-! ## Clears of other surfaces -/

/-- The memory as a fill leaves it. -/
def filledByte (surface : Surface) (address : ℕ) : UInt8 :=
  surface.fillData.getD ((address - surface.addr) % surface.fillSize) 0

/-- The value that the fill clears with is read inside its buffer, and every pixel of the tiles of
the interval, or of the interval of a linear surface, is decoded to it from the bytes of the
fill. -/
def ClearsSoundly (surface : Surface) (dest : SurfaceParams) (interval : SurfaceInterval) : Prop :=
  ∃ value, surface.makeClearValue interval.lower dest.pixelFormat = .ok value ∧
    (dest.isTiled = true → ∀ tile x y, x < 8 → y < 8 →
      interval.lower + (tile + 1) * dest.pixelFormat.tileSize ≤ interval.upper →
      decodeTilePixel dest.pixelFormat x y (fun i =>
        filledByte surface (interval.lower + tile * dest.pixelFormat.tileSize + i)) = value) ∧
    (dest.isTiled = false → ∀ pixel,
      interval.lower + (pixel + 1) * (dest.pixelFormat.bpp / 8) ≤ interval.upper →
      decodePixelValue dest.pixelFormat (fun i =>
        filledByte surface (interval.lower + pixel * (dest.pixelFormat.bpp / 8) + i)) = value)

/-- A format that is not compressed, and has more than an alpha component. -/
def ClearableFormat (format : SurfaceFormat) : Prop := format ∉ [.A8, .A4, .ETC1, .ETC1A4]

end Borked3DS.Interface
