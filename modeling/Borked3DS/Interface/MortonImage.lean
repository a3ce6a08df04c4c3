import Borked3DS.Library.ZOrder
import Borked3DS.Model.TextureCodec

/-!
# Tiled images

A tiled image lists the tiles of an image row by row from the top, eight by eight pixels each, and
the pixels of a tile in Z-order. The linear image it stands for is upside down: its last row is
the top one.
-/

set_option autoImplicit false

namespace Borked3DS.Interface

open Borked3DS.Library Borked3DS.Model

/-- The bytes of a pixel in a tiled image. -/
def bytesPerPixel (format : PixelFormat) : ℕ := formatBpp format / 8

/-- The length of a tiled image. -/
def tiledSize (format : PixelFormat) (width height : ℕ) : ℕ :=
  width * height * bytesPerPixel format

/-- The length of a linear image. -/
def linearSize (format : PixelFormat) (width height : ℕ) : ℕ :=
  width * height * formatBytesPerPixel format

/-- The place of the pixel `(x, y)`, counted from the top left, in a tiled image. -/
def tiledPlace (width x y : ℕ) : ℕ :=
  (y / 8 * (width / 8) + x / 8) * 64 + zOrder 3 x y

/-- The place of the pixel in the linear image. -/
def linearPlace (width height x y : ℕ) : ℕ := (height - 1 - y) * width + x

/-- `tiled` is the tiled image of `linear`: every pixel of the one stands, encoded, at its place in
the other. -/
def IsTiledImage (format : PixelFormat) (width height : ℕ) (linear tiled : Span) : Prop :=
  ∀ x y, x < width → y < height →
    tiled.read (tiledPlace width x y * bytesPerPixel format) (bytesPerPixel format) =
      encodePixel format (linear.read
        (linearPlace width height x y * formatBytesPerPixel format) (bytesPerPixel format))

/-- The place in the linear image of the pixel that stands at `q` in the tiled one. -/
def linearPlaceOf (width height q : ℕ) : ℕ :=
  linearPlace width height (8 * (q / 64 % (width / 8)) + zOrderX 3 (q % 64))
    (8 * (q / 64 / (width / 8)) + zOrderY 3 (q % 64))

/-- The tiled image of a linear one. -/
def tiledImage (format : PixelFormat) (width height : ℕ) (linear : Span) : Span where
  size := tiledSize format width height
  get := fun p => (encodePixel format (linear.read
    (linearPlaceOf width height (p / bytesPerPixel format) * formatBytesPerPixel format)
    (bytesPerPixel format))).getD (p % bytesPerPixel format) 0

/-- The byte of the linear image at `p` is one that a tiled image has. Only the fourth byte of a
24-bit depth is not. -/
def IsStored (format : PixelFormat) (p : ℕ) : Prop :=
  p % formatBytesPerPixel format < bytesPerPixel format

instance (format : PixelFormat) (p : ℕ) : Decidable (IsStored format p) :=
  inferInstanceAs (Decidable (_ < _))

end Borked3DS.Interface
