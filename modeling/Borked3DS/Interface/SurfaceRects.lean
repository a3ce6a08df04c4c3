import Borked3DS.Model.SurfaceParams

/-!
# When rectangles and intervals correspond

A rectangle of pixels of a level is found again in the interval of addresses that it is turned into,
and an interval in the rectangle of whole rows or tiles around it.
-/

set_option autoImplicit false

namespace Borked3DS.Interface

open Borked3DS.Model Borked3DS.Model.VideoCore

/-- The parameters are up to date, every level has pixels, and consists of whole tiles if the
surface is tiled, and the surface lies in the address space. A pixel of a linear surface is made of
whole bytes. -/
structure ValidSurface (s : SurfaceParams) : Prop where
  updated : s.updateParams = .ok s
  levels : 0 < s.levels
  width_le : s.width ≤ s.stride
  pixels : ∀ level < s.levels, 0 < s.width >>> level ∧ 0 < s.height >>> level
  tiles : s.isTiled = true → ∀ level < s.levels,
    8 ∣ s.width >>> level ∧ 8 ∣ s.stride >>> level ∧ 8 ∣ s.height >>> level
  wholeBytes : s.isTiled = false → 8 ∣ s.pixelFormat.bpp
  fits : s.stride * s.height * s.pixelFormat.bpp < 2 ^ 32
  inMemory : s.addr + s.size < 2 ^ 32

/-- A part of a level that has bytes. -/
def InLevel (s : SurfaceParams) (level : ℕ) (interval : SurfaceInterval) : Prop :=
  ∃ whole, s.levelInterval level = .ok whole ∧ whole.lower ≤ interval.lower ∧
    interval.lower < interval.upper ∧ interval.upper ≤ whole.upper

/-- A rectangle of pixels of a level, of whole tiles if the surface is tiled. -/
structure RectOf (s : SurfaceParams) (level : ℕ) (rect : Rectangle) : Prop where
  level_lt : level < s.levels
  left_lt : rect.left < rect.right
  right_le : rect.right ≤ s.width >>> level
  bottom_lt : rect.bottom < rect.top
  top_le : rect.top ≤ s.height >>> level
  tiles : s.isTiled = true → 8 ∣ rect.left ∧ 8 ∣ rect.right ∧ 8 ∣ rect.bottom ∧ 8 ∣ rect.top

/-- Where a pixel lies, or the tile that it is in. The rows are counted from the bottom; the rows of
tiles lie in the memory from the top on. -/
def pixelPlace (s : SurfaceParams) (level x y : ℕ) : SurfaceInterval :=
  let start := s.mipmapOffsets level
  let stride := s.stride >>> level
  if s.isTiled then
    let tile := (s.height >>> level - 1 - y) / 8 * (stride / 8) + x / 8
    ⟨start + s.bytesInPixels (tile * 64), start + s.bytesInPixels ((tile + 1) * 64)⟩
  else ⟨start + s.bytesInPixels (stride * y + x), start + s.bytesInPixels (stride * y + x + 1)⟩

/-- The interval of a rectangle lies in its level and has all its pixels, and the surface that is
made from the interval is found in a rectangle around. -/
structure RectCorresponds (s : SurfaceParams) (level : ℕ) (rect : Rectangle) : Prop where
  within : InLevel s level (s.getSubRectInterval rect level)
  covers : ∀ x y, rect.left ≤ x → x < rect.right → rect.bottom ≤ y → y < rect.top →
    (s.getSubRectInterval rect level).lower ≤ (pixelPlace s level x y).lower ∧
      (pixelPlace s level x y).upper ≤ (s.getSubRectInterval rect level).upper
  found : ∃ sub outer, s.fromInterval (s.getSubRectInterval rect level) = .ok sub ∧
    s.getSubRect sub = .ok outer ∧ outer.left ≤ rect.left ∧ rect.right ≤ outer.right ∧
      outer.bottom ≤ rect.bottom ∧ rect.top ≤ outer.top

/-- The surface that is made from an interval has all of it and lies in its level, and is made again
from what it lies in. -/
def IntervalCorresponds (s : SurfaceParams) (level : ℕ) (interval : SurfaceInterval) : Prop :=
  ∃ sub, s.fromInterval interval = .ok sub ∧
    (sub.addr ≤ interval.lower ∧ interval.upper ≤ sub.upper) ∧
    InLevel s level sub.getInterval ∧
    ∃ again, s.fromInterval sub.getInterval = .ok again ∧ again.getInterval = sub.getInterval

/-- An interval is in one row of pixels or tiles, or its last byte is in the part of a row that has
pixels of the surface. -/
def EndsInPixels (s : SurfaceParams) (level : ℕ) (interval : SurfaceInterval) : Prop :=
  let rowBytes := s.bytesInPixels ((s.stride >>> level) * s.tiledSize)
  let usedBytes := s.bytesInPixels ((s.width >>> level) * s.tiledSize)
  let first := interval.lower - s.mipmapOffsets level
  let last := interval.upper - 1 - s.mipmapOffsets level
  first / rowBytes = last / rowBytes ∨ last % rowBytes < usedBytes

end Borked3DS.Interface
