import Borked3DS.Interface.MortonImage

/-!
# Copying images

One tile, and the walk over the tiles of an image.
-/

set_option autoImplicit false

namespace Borked3DS.Analysis

open Borked3DS.Library Borked3DS.Model Borked3DS.Interface

/-!
## Copying one tile

The places of a tile are all pairs below eight, and its pixels lie apart in either buffer, so what
the two loops write can be read back pixel by pixel.
-/

/-! ### Places -/

theorem mem_tilePlaces {x y : ℕ} : (x, y) ∈ tilePlaces ↔ x < 8 ∧ y < 8 := by
  simp only [tilePlaces, List.mem_flatMap, List.mem_range, List.mem_map, Prod.mk.injEq]
  constructor
  · rintro ⟨b, hb, a, ha, rfl, rfl⟩
    exact ⟨ha, hb⟩
  · rintro ⟨hx, hy⟩
    exact ⟨y, hy, x, hx, rfl, rfl⟩

/-- The tables of the source interleave the lowest three bits.
SOURCE: utils.h:12-16 -/
theorem mortonInterleave_eq (x y : ℕ) : mortonInterleave x y = zOrder 3 x y := by
  have htable : ∀ a < 8, ∀ b < 8, mortonInterleave a b = zOrder 3 a b := by
    decide
  have hlow : mortonInterleave x y = mortonInterleave (x % 8) (y % 8) := by
    unfold mortonInterleave
    rw [Nat.mod_mod, Nat.mod_mod]
  have hbits : zOrder 3 x y = zOrder 3 (x % 8) (y % 8) := by
    simp only [zOrder]
    omega
  rw [hlow, hbits]
  exact htable _ (Nat.mod_lt _ (by decide)) _ (Nat.mod_lt _ (by decide))

theorem zOrder_tile_lt (x y : ℕ) : zOrder 3 x y < 64 := zOrder_lt 3 x y

/-- Two places of a tile with one number are the same. -/
theorem zOrder_tile_inj {x y x' y' : ℕ} (hx : x < 8) (hy : y < 8) (hx' : x' < 8) (hy' : y' < 8)
    (h : zOrder 3 x y = zOrder 3 x' y') : x = x' ∧ y = y' := by
  constructor
  · have hxs := congrArg (zOrderX 3) h
    rw [zOrderX_zOrder, zOrderX_zOrder] at hxs
    omega
  · have hys := congrArg (zOrderY 3) h
    rw [zOrderY_zOrder, zOrderY_zOrder] at hys
    omega

/-! ### Formats -/

section Formats

variable (format : PixelFormat)

theorem bytesPerPixel_pos : 0 < bytesPerPixel format := by
  cases format <;> decide

theorem bytesPerPixel_le : bytesPerPixel format ≤ formatBytesPerPixel format := by
  cases format <;> decide

theorem formatBytesPerPixel_le : formatBytesPerPixel format ≤ 4 := by
  cases format <;> decide

theorem formatBpp_eq : formatBpp format = 8 * bytesPerPixel format := by
  cases format <;> decide

theorem tileSize_eq : tileSize format = 64 * bytesPerPixel format := by
  cases format <;> decide

/-- Rotating a word to the left undoes rotating it to the right. -/
theorem rotl_rotr {x : ℕ} (h : x < 2 ^ 32) : rotl (rotr x 8) 8 = x := by
  unfold rotl rotr
  have hrotate : ((BitVec.ofNat 32 x).rotateRight 8).rotateLeft 8 = BitVec.ofNat 32 x := by
    ext i hi
    simp only [BitVec.getElem_rotateLeft, BitVec.getElem_rotateRight]
    grind
  rw [BitVec.ofNat_toNat, BitVec.setWidth_eq, hrotate, BitVec.toNat_ofNat, Nat.mod_eq_of_lt h]

variable {format}

theorem length_encodePixel {source : List UInt8} (h : source.length = bytesPerPixel format) :
    (encodePixel format source).length = bytesPerPixel format := by
  cases format with
  | d24s8 => simp [encodePixel, bytesPerPixel, formatBpp]
  | _ => exact h

theorem length_decodePixel {source : List UInt8} (h : source.length = bytesPerPixel format) :
    (decodePixel format source).length = bytesPerPixel format := by
  cases format with
  | d24s8 => simp [decodePixel, bytesPerPixel, formatBpp]
  | _ => exact h

/-- A pixel comes back from its code. -/
theorem decodePixel_encodePixel {source : List UInt8} (h : source.length = bytesPerPixel format) :
    decodePixel format (encodePixel format source) = source := by
  cases format with
  | d24s8 =>
    have hlength : source.length = 4 := h
    have hsource := ofLittleEndian_lt source
    rw [hlength] at hsource
    have hrotr : rotr (ofLittleEndian source) 8 < 256 ^ 4 := BitVec.isLt _
    have hbytes := toLittleEndian_ofLittleEndian source
    rw [hlength] at hbytes
    simp only [decodePixel, encodePixel]
    rw [ofLittleEndian_of_lt hrotr, rotl_rotr hsource, hbytes]
  | _ => rfl

end Formats

/-! ### A tile -/

section Tile

variable {format : PixelFormat} {width tileBase linearBase : ℕ} {tiled linear : Span}

/-- The place of a pixel of a tile in the linear buffer, from where the tile begins. -/
def linearInTile (width : ℕ) (place : ℕ × ℕ) : ℕ := (7 - place.2) * width + place.1

/-- What a tile puts at a place of the tiled buffer. -/
def encodedPixel (format : PixelFormat) (width linearBase : ℕ) (linear : Span) (place : ℕ × ℕ) :
    List UInt8 :=
  encodePixel format (linear.read
    (linearBase + linearInTile width place * formatBytesPerPixel format) (bytesPerPixel format))

/-- What it puts at a place of the linear one. -/
def decodedPixel (format : PixelFormat) (tileBase : ℕ) (tiled : Span) (place : ℕ × ℕ) :
    List UInt8 :=
  decodePixel format (tiled.read
    (tileBase + zOrder 3 place.1 place.2 * bytesPerPixel format) (bytesPerPixel format))

theorem length_encodedPixel (place : ℕ × ℕ) :
    (encodedPixel format width linearBase linear place).length = bytesPerPixel format :=
  length_encodePixel Span.length_read

theorem length_decodedPixel (place : ℕ × ℕ) :
    (decodedPixel format tileBase tiled place).length = bytesPerPixel format :=
  length_decodePixel Span.length_read

theorem linearInTile_lt {place : ℕ × ℕ} (hx : place.1 < 8) :
    linearInTile width place + 1 ≤ 7 * width + 8 := by
  have hrow : (7 - place.2) * width ≤ 7 * width := Nat.mul_le_mul_right _ (Nat.sub_le _ _)
  unfold linearInTile
  omega

/-- The windows of a pixel are where they should be. -/
theorem mortonCopyPixel_eq {mortonToLinear : Bool} {place : ℕ × ℕ} (hplace : place ∈ tilePlaces)
    (hfit : (7 * width + 8) * formatBytesPerPixel format < 2 ^ 32) :
    mortonCopyPixel mortonToLinear format width ⟨tileBase, tileSize format⟩
      ⟨linearBase, (7 * width + 8) * formatBytesPerPixel format⟩ (tiled, linear) place =
    .ok (if mortonToLinear then
      (tiled, linear.write (linearBase + linearInTile width place * formatBytesPerPixel format)
        (decodedPixel format tileBase tiled place))
    else (tiled.write (tileBase + zOrder 3 place.1 place.2 * bytesPerPixel format)
      (encodedPixel format width linearBase linear place), linear)) := by
  obtain ⟨x, y⟩ := place
  obtain ⟨hx, hy⟩ := mem_tilePlaces.mp hplace
  have hz := zOrder_tile_lt x y
  have hbytes := bytesPerPixel_le format
  have hfour := formatBytesPerPixel_le format
  have htile := tileSize_eq format
  have hin := @linearInTile_lt width (x, y) hx
  have htiledEnd : (zOrder 3 x y + 1) * bytesPerPixel format ≤ 64 * bytesPerPixel format :=
    Nat.mul_le_mul_right _ (by omega)
  have hlinearEnd := Nat.mul_le_mul_right (formatBytesPerPixel format) hin
  rw [Nat.add_mul, Nat.one_mul] at htiledEnd
  rw [Nat.add_mul (linearInTile width (x, y)), Nat.one_mul] at hlinearEnd
  have htiledWindow : Window.subspan ⟨tileBase, tileSize format⟩
      (u32 (mortonInterleave x y * bytesPerPixel format)) (bytesPerPixel format) =
      .ok ⟨tileBase + zOrder 3 x y * bytesPerPixel format, bytesPerPixel format⟩ := by
    rw [mortonInterleave_eq, u32_of_lt (by omega), Window.subspan, if_pos (by dsimp only; omega)]
    rfl
  have hlinearWindow : Window.subspan
      ⟨linearBase, (7 * width + 8) * formatBytesPerPixel format⟩
      (u32 (((7 - y) * width + x) * formatBytesPerPixel format)) (formatBytesPerPixel format) =
      .ok ⟨linearBase + linearInTile width (x, y) * formatBytesPerPixel format,
        formatBytesPerPixel format⟩ := by
    have hsame : (7 - y) * width + x = linearInTile width (x, y) := rfl
    rw [hsame, u32_of_lt (by omega), Window.subspan, if_pos (by dsimp only; omega)]
    rfl
  unfold mortonCopyPixel
  dsimp only
  rw [show formatBpp format / 8 = bytesPerPixel format from rfl, htiledWindow, ok_bind,
    hlinearWindow, ok_bind]
  cases mortonToLinear with
  | true => rfl
  | false => rfl

/-- Copying a tile to the tiled buffer writes one block for each of its places. -/
theorem mortonCopyTile_toTiled (hfit : (7 * width + 8) * formatBytesPerPixel format < 2 ^ 32) :
    mortonCopyTile false format width ⟨tileBase, tileSize format⟩
      ⟨linearBase, (7 * width + 8) * formatBytesPerPixel format⟩ (tiled, linear) =
    .ok (Span.writeBlocks (fun place => tileBase + zOrder 3 place.1 place.2 * bytesPerPixel format)
      (encodedPixel format width linearBase linear) tilePlaces tiled, linear) := by
  have hstep : ∀ l : List (ℕ × ℕ), (∀ place ∈ l, place ∈ tilePlaces) → ∀ tiled,
      l.foldlM (mortonCopyPixel false format width ⟨tileBase, tileSize format⟩
        ⟨linearBase, (7 * width + 8) * formatBytesPerPixel format⟩) (tiled, linear) =
      .ok (Span.writeBlocks (fun place => tileBase + zOrder 3 place.1 place.2 *
        bytesPerPixel format) (encodedPixel format width linearBase linear) l tiled, linear) := by
    intro l
    induction l with
    | nil =>
      intro _ tiled
      rfl
    | cons place l ih =>
      intro hl tiled
      rw [List.foldlM_cons, mortonCopyPixel_eq (hl place (by simp)) hfit, ok_bind]
      exact ih (fun place hplace => hl place (by simp [hplace])) _
  exact hstep tilePlaces (fun _ h => h) tiled

/-- Copying it to the linear buffer does too. -/
theorem mortonCopyTile_toLinear (hfit : (7 * width + 8) * formatBytesPerPixel format < 2 ^ 32) :
    mortonCopyTile true format width ⟨tileBase, tileSize format⟩
      ⟨linearBase, (7 * width + 8) * formatBytesPerPixel format⟩ (tiled, linear) =
    .ok (tiled, Span.writeBlocks
      (fun place => linearBase + linearInTile width place * formatBytesPerPixel format)
      (decodedPixel format tileBase tiled) tilePlaces linear) := by
  have hstep : ∀ l : List (ℕ × ℕ), (∀ place ∈ l, place ∈ tilePlaces) → ∀ linear,
      l.foldlM (mortonCopyPixel true format width ⟨tileBase, tileSize format⟩
        ⟨linearBase, (7 * width + 8) * formatBytesPerPixel format⟩) (tiled, linear) =
      .ok (tiled, Span.writeBlocks (fun place => linearBase + linearInTile width place *
        formatBytesPerPixel format) (decodedPixel format tileBase tiled) l linear) := by
    intro l
    induction l with
    | nil =>
      intro _ linear
      rfl
    | cons place l ih =>
      intro hl linear
      rw [List.foldlM_cons, mortonCopyPixel_eq (hl place (by simp)) hfit, ok_bind]
      exact ih (fun place hplace => hl place (by simp [hplace])) _
  exact hstep tilePlaces (fun _ h => h) linear

end Tile

end Borked3DS.Analysis

/-!
## Copying images tile by tile

The walk of `MortonCopy` visits the tiles in order: what its variables are at a tile is told by the
tile's number alone. So the tiles it copies are those of the tiled image, and the parts of the first
and the last tile that it takes from a temporary buffer are parts of it as well.
-/

namespace Borked3DS.Analysis

open Borked3DS.Library Borked3DS.Model Borked3DS.Interface

/-! ### Where the tiles are -/

/-- The place in the linear image where the tile `k` begins: its last row of pixels. -/
def tileLinear (cols rows k : ℕ) : ℕ := 8 * (rows - 1 - k / cols) * (8 * cols) + 8 * (k % cols)

/-- The variables of `MortonCopy` when the tile `k` is next. -/
structure AtTile (format : PixelFormat) (cols rows k : ℕ) (s : MortonState) : Prop where
  x : s.x = 8 * (k % cols)
  y : s.y = 8 * (k / cols)
  linearOffset : s.linearOffset = tileLinear cols rows k * formatBytesPerPixel format

section Place

variable {format : PixelFormat} {cols rows k : ℕ}

theorem row_lt (hk : k < cols * rows) : k / cols < rows := Nat.div_lt_of_lt_mul hk

/-- A tile lies in the linear image. -/
theorem tileLinear_end (hcols : 0 < cols) (hk : k < cols * rows) :
    tileLinear cols rows k + (7 * (8 * cols) + 8) ≤ 8 * cols * (8 * rows) := by
  have hrow := row_lt hk
  have hcol := Nat.mod_lt k hcols
  have hrows : 8 * (rows - 1 - k / cols) * (8 * cols) + 8 * (8 * cols) ≤
      8 * cols * (8 * rows) := by
    rw [← Nat.add_mul, Nat.mul_comm]
    apply Nat.mul_le_mul_left
    generalize k / cols = row at hrow
    omega
  unfold tileLinear
  generalize 8 * (rows - 1 - k / cols) * (8 * cols) = above at hrows
  omega

/-- The pixel of a tile that stands at a place of it. -/
theorem linearPlaceOf_eq (hk : k < cols * rows) {x y : ℕ} (hx : x < 8)
    (hy : y < 8) : linearPlaceOf (8 * cols) (8 * rows) (k * 64 + zOrder 3 x y) =
      tileLinear cols rows k + linearInTile (8 * cols) (x, y) := by
  have hrow := row_lt hk
  have hz := zOrder_tile_lt x y
  have htile : (k * 64 + zOrder 3 x y) / 64 = k := by omega
  have hplace : (k * 64 + zOrder 3 x y) % 64 = zOrder 3 x y := by omega
  have hwidth : 8 * cols / 8 = cols := Nat.mul_div_cancel_left _ (by decide)
  have hheight : 8 * rows - 1 - (8 * (k / cols) + y) = 8 * (rows - 1 - k / cols) + (7 - y) := by
    omega
  have hxlow : x % 2 ^ 3 = x := Nat.mod_eq_of_lt hx
  have hylow : y % 2 ^ 3 = y := Nat.mod_eq_of_lt hy
  unfold linearPlaceOf linearPlace tileLinear linearInTile
  rw [htile, hplace, zOrderX_zOrder, zOrderY_zOrder, hwidth, hxlow, hylow, hheight, Nat.add_mul]
  dsimp only
  omega

/-- The sizes of an image fit in 32 bits. -/
theorem sides_lt (hrows : 0 < rows) (hcols : 0 < cols)
    (hsize : linearSize format (8 * cols) (8 * rows) < 2 ^ 32) :
    8 * cols < 2 ^ 32 ∧ 8 * rows < 2 ^ 32 := by
  have hpos := Nat.lt_of_lt_of_le (bytesPerPixel_pos format) (bytesPerPixel_le format)
  have harea : 8 * cols * (8 * rows) ≤ linearSize format (8 * cols) (8 * rows) :=
    Nat.le_mul_of_pos_right _ hpos
  have hwidth : 8 * cols ≤ 8 * cols * (8 * rows) := Nat.le_mul_of_pos_right _ (by omega)
  have hheight : 8 * rows ≤ 8 * cols * (8 * rows) := Nat.le_mul_of_pos_left _ (by omega)
  omega

/-- The tile behind a tile: in the same row, or the first one of the next row. -/
theorem next_div_mod (hcols : 0 < cols) (k : ℕ) :
    (k % cols + 1 < cols ∧ (k + 1) % cols = k % cols + 1 ∧ (k + 1) / cols = k / cols) ∨
      (k % cols + 1 = cols ∧ (k + 1) % cols = 0 ∧ (k + 1) / cols = k / cols + 1) := by
  have hcol := Nat.mod_lt k hcols
  have hsplit := Nat.div_add_mod k cols
  generalize k / cols = row at hsplit ⊢
  generalize k % cols = col at hsplit hcol ⊢
  subst hsplit
  rcases Nat.lt_or_ge (col + 1) cols with hlt | hge
  · left
    rw [Nat.add_assoc, Nat.mul_add_mod, Nat.mod_eq_of_lt hlt, Nat.mul_add_div hcols,
      Nat.div_eq_of_lt hlt]
    exact ⟨hlt, rfl, rfl⟩
  · right
    have heq : col + 1 = cols := by omega
    rw [Nat.add_assoc, heq, Nat.mul_add_mod, Nat.mod_self, Nat.mul_add_div hcols,
      Nat.div_self hcols]
    exact ⟨rfl, rfl, rfl⟩

/-- `linear_next_tile` goes on to the next tile.
SOURCE: texture_codec.h:283-294 -/
theorem linearNextTile_atTile {s : MortonState} (hcols : 0 < cols)
    (hsize : linearSize format (8 * cols) (8 * rows) < 2 ^ 32) (hk : k + 1 < cols * rows)
    (h : AtTile format cols rows k s) :
    AtTile format cols rows (k + 1) (linearNextTile format (8 * cols) (8 * rows) s) := by
  obtain ⟨hx, hy, hlinear⟩ := h
  have hend := tileLinear_end hcols (show k < cols * rows by omega)
  have hfour := formatBytesPerPixel_le format
  have hcol := Nat.mod_lt k hcols
  have hsplit := Nat.div_add_mod k cols
  have hrow := row_lt hk
  have hbytes := Nat.mul_le_mul_right (formatBytesPerPixel format) hend
  unfold linearSize at hsize
  have hoffset : tileLinear cols rows k * formatBytesPerPixel format +
      8 * formatBytesPerPixel format = (tileLinear cols rows k + 8) * formatBytesPerPixel format :=
    (Nat.add_mul _ _ _).symm
  have hsmall : (tileLinear cols rows k + 8) * formatBytesPerPixel format < 2 ^ 32 := by
    have hle : tileLinear cols rows k + 8 ≤ tileLinear cols rows k + (7 * (8 * cols) + 8) := by
      omega
    exact Nat.lt_of_le_of_lt (Nat.mul_le_mul_right _ hle) (Nat.lt_of_le_of_lt hbytes hsize)
  have hrows : 0 < rows := Nat.lt_of_le_of_lt (Nat.zero_le _) hrow
  obtain ⟨hwidth, hheight⟩ := sides_lt hrows hcols hsize
  unfold linearNextTile
  rw [hx, hy, hlinear, u32_of_lt (x := tileLinear cols rows k * _ + _) (by omega), hoffset,
    u32_of_lt (x := 8 * (k % cols) + 8) (by omega)]
  rcases next_div_mod hcols k with ⟨hlt, hmod, hdiv⟩ | ⟨heq, hmod, hdiv⟩
  · have hnext : (8 * (k % cols) + 8) % (8 * cols) = 8 * (k % cols + 1) :=
      Nat.mod_eq_of_lt (by omega)
    rw [hnext, if_neg (by omega)]
    refine ⟨?_, ?_, ?_⟩
    · rw [hmod]
    · rw [hdiv]
    · dsimp only
      unfold tileLinear
      rw [hmod, hdiv, Nat.mul_add 8, Nat.add_assoc]
  · have hnext : (8 * (k % cols) + 8) % (8 * cols) = 0 := by
      rw [← Nat.mul_succ, Nat.succ_eq_add_one, heq, Nat.mod_self]
    have hlast : k / cols + 1 < rows := by
      rw [← hdiv]
      exact row_lt hk
    have hjump : tileLinear cols rows k + 8 =
        tileLinear cols rows (k + 1) + 8 * cols * 9 := by
      have habove : rows - 1 - k / cols = rows - 1 - (k / cols + 1) + 1 := by
        generalize k / cols = row at hlast
        omega
      unfold tileLinear
      rw [hmod, hdiv, habove, Nat.mul_succ 8, Nat.add_mul]
      omega
    rw [hjump] at hsmall ⊢
    have hback : tileLinear cols rows (k + 1) * formatBytesPerPixel format +
        8 * cols * 9 * formatBytesPerPixel format =
        (tileLinear cols rows (k + 1) + 8 * cols * 9) * formatBytesPerPixel format :=
      (Nat.add_mul _ _ _).symm
    generalize k / cols = row at hy hdiv hrow hlast ⊢
    have hnextRow : u32 (8 * row + 8) % (8 * rows) = 8 * (row + 1) := by
      rw [u32_of_lt (by omega), Nat.mod_eq_of_lt (by omega)]
      rfl
    rw [if_pos hnext, hnext, hnextRow, if_neg (by omega)]
    refine ⟨?_, ?_, ?_⟩
    · rw [hmod]
    · rw [hdiv]
    · dsimp only
      rw [u32_of_lt (x := 8 * cols * 9 * _) (by omega), u32Sub_of_le (by omega) (by omega)]
      omega

end Place

/-! ### What a tile writes -/

section Blocks

variable {format : PixelFormat} {cols rows k tileBase : ℕ} {tiled linear : Span}

/-- The tile `k` written at a place of the tiled buffer. -/
def writeTile (format : PixelFormat) (cols rows k tileBase : ℕ) (linear tiled : Span) : Span :=
  Span.writeBlocks (fun place => tileBase + zOrder 3 place.1 place.2 * bytesPerPixel format)
    (encodedPixel format (8 * cols) (tileLinear cols rows k * formatBytesPerPixel format) linear)
    tilePlaces tiled

@[simp] theorem size_writeTile : (writeTile format cols rows k tileBase linear tiled).size =
    tiled.size := Span.size_writeBlocks

/-- Two places of a tile take blocks of the tiled buffer that lie apart. -/
theorem tiled_apart {z z' n b : ℕ} (hz : z ≠ z') (hb : b < n) (base : ℕ) :
    base + z * n + b < base + z' * n ∨ base + z' * n + n ≤ base + z * n + b := by
  rcases Nat.lt_or_gt_of_ne hz with hlt | hgt
  · left
    have := Nat.mul_le_mul_right n (Nat.succ_le_of_lt hlt)
    rw [Nat.succ_mul] at this
    omega
  · right
    have := Nat.mul_le_mul_right n (Nat.succ_le_of_lt hgt)
    rw [Nat.succ_mul] at this
    omega

/-- The tile is the one of the tiled image. -/
theorem get_writeTile_of_mem (hk : k < cols * rows) {i : ℕ} (hi : i < tileSize format) :
    (writeTile format cols rows k tileBase linear tiled).get (tileBase + i) =
      (tiledImage format (8 * cols) (8 * rows) linear).get (k * tileSize format + i) := by
  have hpos := bytesPerPixel_pos format
  rw [tileSize_eq] at hi
  have hq : i / bytesPerPixel format < 64 := Nat.div_lt_of_lt_mul (by rwa [Nat.mul_comm] at hi)
  have hb := Nat.mod_lt i hpos
  have hsplit := Nat.div_add_mod i (bytesPerPixel format)
  have hindex : (k * tileSize format + i) / bytesPerPixel format =
      k * 64 + i / bytesPerPixel format := by
    rw [tileSize_eq, ← Nat.mul_assoc, Nat.mul_comm (k * 64), Nat.mul_add_div hpos]
  have hoffset : (k * tileSize format + i) % bytesPerPixel format = i % bytesPerPixel format := by
    rw [tileSize_eq, ← Nat.mul_assoc, Nat.mul_comm (k * 64), Nat.mul_add_mod]
  generalize i / bytesPerPixel format = q at hq hsplit hindex
  generalize i % bytesPerPixel format = b at hb hsplit hoffset
  have hx : zOrderX 3 q < 8 := zOrderX_lt 3 q
  have hy : zOrderY 3 q < 8 := zOrderY_lt 3 q
  have hz : zOrder 3 (zOrderX 3 q) (zOrderY 3 q) = q := zOrder_coordinates hq
  have hplace : tileBase + i = tileBase + zOrder 3 (zOrderX 3 q) (zOrderY 3 q) *
      bytesPerPixel format + b := by
    rw [hz, ← hsplit, Nat.mul_comm, Nat.add_assoc]
  unfold writeTile
  rw [hplace, Span.get_writeBlocks_of_mem (a := (zOrderX 3 q, zOrderY 3 q))
    (mem_tilePlaces.mpr ⟨hx, hy⟩) (by rwa [length_encodedPixel])]
  · unfold tiledImage encodedPixel
    dsimp only
    rw [hindex, hoffset, ← hz, linearPlaceOf_eq hk hx hy, hz, Nat.add_mul]
  · rintro ⟨x', y'⟩ hmem hne
    obtain ⟨hx', hy'⟩ := mem_tilePlaces.mp hmem
    rw [length_encodedPixel]
    apply tiled_apart _ hb
    intro heq
    obtain ⟨hxs, hys⟩ := zOrder_tile_inj hx hy hx' hy' heq
    exact hne (by rw [hxs, hys])

/-- The bytes around the tile are as they were. -/
theorem get_writeTile_of_notMem {i : ℕ} (hi : i < tileBase ∨ tileBase + tileSize format ≤ i) :
    (writeTile format cols rows k tileBase linear tiled).get i = tiled.get i := by
  rw [tileSize_eq] at hi
  apply Span.get_writeBlocks_of_notMem
  rintro ⟨x, y⟩ -
  have hz := Nat.mul_le_mul_right (bytesPerPixel format)
    (Nat.succ_le_of_lt (zOrder_tile_lt x y))
  rw [Nat.succ_mul] at hz
  rw [length_encodedPixel]
  dsimp only
  omega

end Blocks

/-! ### The tiles that are copied as a whole -/

section Loops

variable {format : PixelFormat} {cols rows : ℕ}

@[simp] theorem linearNextTile_tiled {width height : ℕ} (s : MortonState) :
    (linearNextTile format width height s).tiled = s.tiled := by
  unfold linearNextTile
  dsimp only
  split
  · split <;> rfl
  · rfl

@[simp] theorem linearNextTile_linear {width height : ℕ} (s : MortonState) :
    (linearNextTile format width height s).linear = s.linear := by
  unfold linearNextTile
  dsimp only
  split
  · split <;> rfl
  · rfl

@[simp] theorem linearNextTile_tiledOffset {width height : ℕ} (s : MortonState) :
    (linearNextTile format width height s).tiledOffset = s.tiledOffset := by
  unfold linearNextTile
  dsimp only
  split
  · split <;> rfl
  · rfl

/-- The window of a tile on the linear buffer. -/
theorem subspan_linear {s : MortonState} {k : ℕ} (hcols : 0 < cols)
    (hsize : linearSize format (8 * cols) (8 * rows) < 2 ^ 32) (hk : k < cols * rows)
    (hlinear : s.linear.size = linearSize format (8 * cols) (8 * rows))
    (h : AtTile format cols rows k s) :
    (7 * (8 * cols) + 8) * formatBytesPerPixel format < 2 ^ 32 ∧
      subspan s.linear s.linearOffset (linearTileStride format (8 * cols)) =
        .ok ⟨tileLinear cols rows k * formatBytesPerPixel format,
          (7 * (8 * cols) + 8) * formatBytesPerPixel format⟩ := by
  have hend := Nat.mul_le_mul_right (formatBytesPerPixel format) (tileLinear_end hcols hk)
  rw [Nat.add_mul] at hend
  unfold linearSize at hsize hlinear
  have hfit : (7 * (8 * cols) + 8) * formatBytesPerPixel format < 2 ^ 32 := by omega
  refine ⟨hfit, ?_⟩
  unfold subspan linearTileStride
  rw [u32_of_lt hfit, h.linearOffset, if_pos (by omega)]
  rfl

/-- The state behind `n` whole tiles, from the tile `k` on, in the direction to the tiled image. -/
structure CopiedTiles (format : PixelFormat) (cols rows k n : ℕ) (s s' : MortonState) : Prop where
  linear : s'.linear = s.linear
  size : s'.tiled.size = s.tiled.size
  tiledOffset : s'.tiledOffset = s.tiledOffset + n * tileSize format
  next : k + n < cols * rows → AtTile format cols rows (k + n) s'
  copied : ∀ i < n * tileSize format, s'.tiled.get (s.tiledOffset + i) =
    (tiledImage format (8 * cols) (8 * rows) s.linear).get (k * tileSize format + i)
  kept : ∀ i, i < s.tiledOffset ∨ s.tiledOffset + n * tileSize format ≤ i →
    s'.tiled.get i = s.tiled.get i

/-- One tile and those behind it. -/
theorem copiedTiles_cons {k n : ℕ} {s s' : MortonState} (hk : k < cols * rows)
    (h : CopiedTiles format cols rows (k + 1) n
      (linearNextTile format (8 * cols) (8 * rows) { s with
        tiled := writeTile format cols rows k s.tiledOffset s.linear s.tiled
        tiledOffset := s.tiledOffset + tileSize format }) s') :
    CopiedTiles format cols rows k (n + 1) s s' := by
  obtain ⟨hlinear, hsize, hoffset, hnext, hcopied, hkept⟩ := h
  simp only [linearNextTile_linear, linearNextTile_tiled, linearNextTile_tiledOffset,
    size_writeTile] at hlinear hsize hoffset hcopied hkept
  have hcount : (n + 1) * tileSize format = tileSize format + n * tileSize format := by
    rw [Nat.succ_mul, Nat.add_comm]
  have hindex : k + (n + 1) = k + 1 + n := by omega
  refine ⟨hlinear, hsize, by omega, ?_, ?_, ?_⟩
  · rw [hindex]
    exact hnext
  · intro i hi
    rcases Nat.lt_or_ge i (tileSize format) with hfirst | hrest
    · rw [hkept (s.tiledOffset + i) (Or.inl (by omega))]
      exact get_writeTile_of_mem hk hfirst
    · have hlater := hcopied (i - tileSize format) (by omega)
      have hplace : s.tiledOffset + tileSize format + (i - tileSize format) = s.tiledOffset + i := by
        omega
      have himage : (k + 1) * tileSize format + (i - tileSize format) =
          k * tileSize format + i := by
        rw [Nat.succ_mul]
        omega
      rwa [hplace, himage] at hlater
  · intro i hi
    rw [hkept i (by omega)]
    exact get_writeTile_of_notMem (by omega)

theorem copyTiles_toTiled {n k fuel bufferEnd : ℕ} {s : MortonState} (hcols : 0 < cols)
    (hsize : linearSize format (8 * cols) (8 * rows) < 2 ^ 32) (hk : k + n ≤ cols * rows)
    (hlinear : s.linear.size = linearSize format (8 * cols) (8 * rows))
    (hend : bufferEnd = s.tiledOffset + n * tileSize format) (hbuffer : bufferEnd ≤ s.tiled.size)
    (hsmall : bufferEnd < 2 ^ 32) (hfuel : n < fuel)
    (hat : k < cols * rows → AtTile format cols rows k s) :
    ∃ s', copyTiles false format (8 * cols) (8 * rows) bufferEnd fuel s = .ok s' ∧
      CopiedTiles format cols rows k n s s' := by
  induction n generalizing k fuel s with
  | zero =>
    cases fuel with
    | zero => exact absurd hfuel (Nat.not_lt_zero _)
    | succ fuel =>
      refine ⟨s, ?_, ?_⟩
      · unfold copyTiles
        rw [if_neg (by omega)]
        rfl
      · refine ⟨rfl, rfl, by omega, hat, ?_, fun _ _ => rfl⟩
        intro i hi
        omega
  | succ n ih =>
    cases fuel with
    | zero => exact absurd hfuel (Nat.not_lt_zero _)
    | succ fuel =>
      have hT : 0 < tileSize format := by
        have := bytesPerPixel_pos format
        rw [tileSize_eq]
        omega
      rw [Nat.succ_mul] at hend
      obtain ⟨hfit, hwindow⟩ := subspan_linear hcols hsize (by omega) hlinear (hat (by omega))
      have htile : subspan s.tiled s.tiledOffset (tileSize format) =
          .ok ⟨s.tiledOffset, tileSize format⟩ := if_pos (by omega)
      let s₁ : MortonState := { s with
        tiled := writeTile format cols rows k s.tiledOffset s.linear s.tiled
        tiledOffset := s.tiledOffset + tileSize format }
      have hrun : copyTiles false format (8 * cols) (8 * rows) bufferEnd (fuel + 1) s =
          copyTiles false format (8 * cols) (8 * rows) bufferEnd fuel
            (linearNextTile format (8 * cols) (8 * rows) s₁) := by
        rw [copyTiles, if_pos (by omega), hwindow, ok_bind, htile, ok_bind,
          mortonCopyTile_toTiled hfit, ok_bind, u32_of_lt (by omega)]
        rfl
      have hat₁ : AtTile format cols rows k s₁ :=
        ⟨(hat (by omega)).x, (hat (by omega)).y, (hat (by omega)).linearOffset⟩
      have hoffset₁ : s₁.tiledOffset = s.tiledOffset + tileSize format := rfl
      obtain ⟨s', hs', hcopied⟩ := @ih (k + 1) fuel
        (linearNextTile format (8 * cols) (8 * rows) s₁) (by omega) (by simpa [s₁] using hlinear)
        (by rw [linearNextTile_tiledOffset, hoffset₁]; omega) (by simpa [s₁] using hbuffer)
        (by omega) (fun hlt => linearNextTile_atTile hcols hsize hlt hat₁)
      refine ⟨s', hrun.trans hs', copiedTiles_cons (by omega) ?_⟩
      exact hcopied

end Loops

/-! ### The places of the pixels -/

section Pixels

variable {cols rows : ℕ}

/-- The pixel that stands at `q` in the tiled image lies in the image. -/
theorem pixel_lt {q : ℕ} (hq : q < cols * rows * 64) :
    8 * (q / 64 % cols) + zOrderX 3 (q % 64) < 8 * cols ∧
      8 * (q / 64 / cols) + zOrderY 3 (q % 64) < 8 * rows := by
  have htile : q / 64 < cols * rows := by omega
  have hcols : 0 < cols := Nat.pos_of_mul_pos_right (Nat.lt_of_le_of_lt (Nat.zero_le _) htile)
  have hcol := Nat.mod_lt (q / 64) hcols
  have hrow := row_lt htile
  have hx : zOrderX 3 (q % 64) < 8 := zOrderX_lt 3 _
  have hy : zOrderY 3 (q % 64) < 8 := zOrderY_lt 3 _
  generalize q / 64 / cols = row at hrow ⊢
  generalize q / 64 % cols = col at hcol ⊢
  omega

/-- Where it stands is its place. -/
theorem tiledPlace_pixel (cols q : ℕ) :
    tiledPlace (8 * cols) (8 * (q / 64 % cols) + zOrderX 3 (q % 64))
      (8 * (q / 64 / cols) + zOrderY 3 (q % 64)) = q := by
  have hx : zOrderX 3 (q % 64) < 8 := zOrderX_lt 3 _
  have hy : zOrderY 3 (q % 64) < 8 := zOrderY_lt 3 _
  have hz : zOrder 3 (zOrderX 3 (q % 64)) (zOrderY 3 (q % 64)) = q % 64 :=
    zOrder_coordinates (Nat.mod_lt _ (by decide))
  have hwidth : 8 * cols / 8 = cols := Nat.mul_div_cancel_left _ (by decide)
  have hsplit := Nat.div_add_mod (q / 64) cols
  rw [Nat.mul_comm] at hsplit
  generalize q / 64 / cols = row at hsplit ⊢
  generalize q / 64 % cols = col at hsplit ⊢
  generalize zOrderX 3 (q % 64) = x at hx hz ⊢
  generalize zOrderY 3 (q % 64) = y at hy hz ⊢
  have hlow : zOrder 3 (8 * col + x) (8 * row + y) = zOrder 3 x y := by
    simp only [zOrder]
    omega
  have hrow : (8 * row + y) / 8 = row := by omega
  have hcol : (8 * col + x) / 8 = col := by omega
  unfold tiledPlace
  rw [hlow, hz, hwidth, hrow, hcol, hsplit]
  omega

/-- The pixel at the place of `(x, y)` is `(x, y)`. -/
theorem linearPlaceOf_tiledPlace {x y : ℕ} (hx : x < 8 * cols) (height : ℕ) :
    linearPlaceOf (8 * cols) height (tiledPlace (8 * cols) x y) =
      linearPlace (8 * cols) height x y := by
  have hwidth : 8 * cols / 8 = cols := Nat.mul_div_cancel_left _ (by decide)
  have hz := zOrder_tile_lt x y
  have htile : (tiledPlace (8 * cols) x y) / 64 = y / 8 * cols + x / 8 := by
    unfold tiledPlace
    rw [hwidth]
    omega
  have hinside : (tiledPlace (8 * cols) x y) % 64 = zOrder 3 x y := by
    unfold tiledPlace
    omega
  have hcols : 0 < cols := by omega
  have hcol : (y / 8 * cols + x / 8) % cols = x / 8 := by
    rw [Nat.mul_comm, Nat.mul_add_mod, Nat.mod_eq_of_lt (by omega)]
  have hrow : (y / 8 * cols + x / 8) / cols = y / 8 := by
    have hcolumn : x / 8 < cols := by omega
    rw [Nat.mul_comm, Nat.mul_add_div hcols, Nat.div_eq_of_lt hcolumn, Nat.add_zero]
  unfold linearPlaceOf
  rw [htile, hinside, hwidth, hcol, hrow, zOrderX_zOrder, zOrderY_zOrder]
  congr 1 <;> omega

/-- Its place in the tiled image lies in that image. -/
theorem tiledPlace_lt {x y : ℕ} (hx : x < 8 * cols) (hy : y < 8 * rows) :
    tiledPlace (8 * cols) x y < cols * rows * 64 := by
  have hwidth : 8 * cols / 8 = cols := Nat.mul_div_cancel_left _ (by decide)
  have hz := zOrder_tile_lt x y
  have hrow : y / 8 + 1 ≤ rows := by omega
  have hrows := Nat.mul_le_mul_right cols hrow
  rw [Nat.add_mul, Nat.one_mul, Nat.mul_comm rows] at hrows
  have hcol : x / 8 < cols := by omega
  unfold tiledPlace
  rw [hwidth]
  generalize y / 8 * cols = above at hrows ⊢
  omega

/-- Two pixels at one place of a linear image are the same. -/
theorem linearPlace_inj {width height x y x' y' : ℕ} (hx : x < width) (hy : y < height)
    (hx' : x' < width) (hy' : y' < height)
    (h : linearPlace width height x y = linearPlace width height x' y') : x = x' ∧ y = y' := by
  unfold linearPlace at h
  have hcol := congrArg (· % width) h
  have hrow := congrArg (· / width) h
  have hpos : 0 < width := by omega
  simp only [Nat.mul_comm _ width, Nat.mul_add_mod, Nat.mul_add_div hpos, Nat.mod_eq_of_lt hx,
    Nat.mod_eq_of_lt hx', Nat.div_eq_of_lt hx, Nat.div_eq_of_lt hx'] at hcol hrow
  omega

/-- The tiled image has every pixel once. -/
theorem linearPlaceOf_inj {q q' : ℕ} (hq : q < cols * rows * 64) (hq' : q' < cols * rows * 64)
    (h : linearPlaceOf (8 * cols) (8 * rows) q = linearPlaceOf (8 * cols) (8 * rows) q') :
    q = q' := by
  have hwidth : 8 * cols / 8 = cols := Nat.mul_div_cancel_left _ (by decide)
  have hplace := tiledPlace_pixel cols q
  have hplace' := tiledPlace_pixel cols q'
  obtain ⟨hx, hy⟩ := pixel_lt hq
  obtain ⟨hx', hy'⟩ := pixel_lt hq'
  unfold linearPlaceOf at h
  rw [hwidth] at h
  obtain ⟨hxs, hys⟩ := linearPlace_inj hx hy hx' hy' h
  rw [← hplace, hxs, hys, hplace']

/-- Every place of the linear image is that of a pixel. -/
theorem exists_linearPlaceOf {place : ℕ} (h : place < 8 * cols * (8 * rows)) :
    ∃ q < cols * rows * 64, linearPlaceOf (8 * cols) (8 * rows) q = place := by
  have hpos : 0 < 8 * cols := Nat.pos_of_mul_pos_right (Nat.lt_of_le_of_lt (Nat.zero_le _) h)
  have hx := Nat.mod_lt place hpos
  have hrow : place / (8 * cols) < 8 * rows := Nat.div_lt_of_lt_mul h
  have hsplit := Nat.div_add_mod place (8 * cols)
  generalize place / (8 * cols) = row at hrow hsplit
  generalize place % (8 * cols) = x at hx hsplit
  refine ⟨tiledPlace (8 * cols) x (8 * rows - 1 - row), tiledPlace_lt hx (by omega), ?_⟩
  have hback : 8 * rows - 1 - (8 * rows - 1 - row) = row := by omega
  rw [linearPlaceOf_tiledPlace hx, linearPlace, hback, Nat.mul_comm, hsplit]

end Pixels

/-! ### Back to the linear image -/

section Linear

variable {format : PixelFormat} {cols rows : ℕ}

/-- The pixel at `q` of a tiled buffer, decoded. -/
def decodedAt (format : PixelFormat) (tiled : Span) (q : ℕ) : List UInt8 :=
  decodePixel format (tiled.read (q * bytesPerPixel format) (bytesPerPixel format))

/-- The state behind `n` whole tiles, from the tile `k` on, in the direction to the linear image. -/
structure DecodedTiles (format : PixelFormat) (cols rows k n : ℕ) (s s' : MortonState) : Prop where
  tiled : s'.tiled = s.tiled
  size : s'.linear.size = s.linear.size
  decoded : ∀ q, k * 64 ≤ q → q < (k + n) * 64 → ∀ b < bytesPerPixel format,
    s'.linear.get (linearPlaceOf (8 * cols) (8 * rows) q * formatBytesPerPixel format + b) =
      (decodedAt format s.tiled q).getD b 0
  kept : ∀ i, (∀ q, k * 64 ≤ q → q < (k + n) * 64 →
    i < linearPlaceOf (8 * cols) (8 * rows) q * formatBytesPerPixel format ∨
      linearPlaceOf (8 * cols) (8 * rows) q * formatBytesPerPixel format + bytesPerPixel format ≤ i) →
    s'.linear.get i = s.linear.get i

/-- The tile `k` written to the linear buffer. -/
def writeLinearTile (format : PixelFormat) (cols rows k : ℕ) (tiled linear : Span) : Span :=
  Span.writeBlocks (fun place => tileLinear cols rows k * formatBytesPerPixel format +
      linearInTile (8 * cols) place * formatBytesPerPixel format)
    (decodedPixel format (k * tileSize format) tiled) tilePlaces linear

@[simp] theorem size_writeLinearTile {k : ℕ} {tiled linear : Span} :
    (writeLinearTile format cols rows k tiled linear).size = linear.size := Span.size_writeBlocks

/-- The blocks of two pixels of the linear image lie apart. -/
theorem linear_apart {place place' b : ℕ} (h : place ≠ place') (hb : b < bytesPerPixel format) :
    place * formatBytesPerPixel format + b < place' * formatBytesPerPixel format ∨
      place' * formatBytesPerPixel format + bytesPerPixel format ≤
        place * formatBytesPerPixel format + b := by
  have hle := bytesPerPixel_le format
  rcases Nat.lt_or_gt_of_ne h with hlt | hgt
  · left
    have := Nat.mul_le_mul_right (formatBytesPerPixel format) (Nat.succ_le_of_lt hlt)
    rw [Nat.succ_mul] at this
    omega
  · right
    have := Nat.mul_le_mul_right (formatBytesPerPixel format) (Nat.succ_le_of_lt hgt)
    rw [Nat.succ_mul] at this
    omega

/-- The block that a tile writes for one of its places, as the pixel of the image. -/
theorem decodedPixel_eq {k x y : ℕ} (tiled : Span) :
    decodedPixel format (k * tileSize format) tiled (x, y) =
      decodedAt format tiled (k * 64 + zOrder 3 x y) := by
  unfold decodedPixel decodedAt
  rw [tileSize_eq, ← Nat.mul_assoc, Nat.add_mul]

/-- The pixels of the tile come to their places. -/
theorem get_writeLinearTile_of_mem {k q b : ℕ} {tiled linear : Span} (hk : k < cols * rows)
    (hq : k * 64 ≤ q) (hq' : q < (k + 1) * 64) (hb : b < bytesPerPixel format) :
    (writeLinearTile format cols rows k tiled linear).get
        (linearPlaceOf (8 * cols) (8 * rows) q * formatBytesPerPixel format + b) =
      (decodedAt format tiled q).getD b 0 := by
  obtain ⟨z, rfl⟩ := Nat.exists_eq_add_of_le hq
  have hz : z < 64 := by omega
  have hx : zOrderX 3 z < 8 := zOrderX_lt 3 z
  have hy : zOrderY 3 z < 8 := zOrderY_lt 3 z
  have hplace : zOrder 3 (zOrderX 3 z) (zOrderY 3 z) = z := zOrder_coordinates hz
  have hpixel := @linearPlaceOf_eq cols rows k hk _ _ hx hy
  rw [hplace] at hpixel
  rw [hpixel, Nat.add_mul]
  unfold writeLinearTile
  rw [Span.get_writeBlocks_of_mem (a := (zOrderX 3 z, zOrderY 3 z))
    (mem_tilePlaces.mpr ⟨hx, hy⟩) (by rwa [length_decodedPixel]), decodedPixel_eq, hplace]
  rintro ⟨x', y'⟩ hmem hne
  obtain ⟨hx', hy'⟩ := mem_tilePlaces.mp hmem
  rw [length_decodedPixel, ← Nat.add_mul, ← Nat.add_mul]
  apply linear_apart _ hb
  rw [← linearPlaceOf_eq hk hx hy, ← linearPlaceOf_eq hk hx' hy']
  intro heq
  have hz' := zOrder_tile_lt x' y'
  have hsame := linearPlaceOf_inj (by rw [hplace]; omega) (by omega) heq
  obtain ⟨hxs, hys⟩ := zOrder_tile_inj hx hy hx' hy' (by omega)
  exact hne (by rw [hxs, hys])

/-- What lies in none of its pixels is as it was. -/
theorem get_writeLinearTile_of_notMem {k i : ℕ} {tiled linear : Span} (hk : k < cols * rows)
    (hi : ∀ q, k * 64 ≤ q → q < (k + 1) * 64 →
      i < linearPlaceOf (8 * cols) (8 * rows) q * formatBytesPerPixel format ∨
        linearPlaceOf (8 * cols) (8 * rows) q * formatBytesPerPixel format +
          bytesPerPixel format ≤ i) :
    (writeLinearTile format cols rows k tiled linear).get i = linear.get i := by
  apply Span.get_writeBlocks_of_notMem
  rintro ⟨x, y⟩ hmem
  obtain ⟨hx, hy⟩ := mem_tilePlaces.mp hmem
  have hz := zOrder_tile_lt x y
  have hpixel := hi (k * 64 + zOrder 3 x y) (by omega) (by omega)
  rw [linearPlaceOf_eq hk hx hy, Nat.add_mul] at hpixel
  rwa [length_decodedPixel]

/-- One tile and those behind it. -/
theorem decodedTiles_cons {k n : ℕ} {s s' : MortonState} (hk : k + (n + 1) ≤ cols * rows)
    (h : DecodedTiles format cols rows (k + 1) n
      (linearNextTile format (8 * cols) (8 * rows) { s with
        linear := writeLinearTile format cols rows k s.tiled s.linear
        tiledOffset := s.tiledOffset + tileSize format }) s') :
    DecodedTiles format cols rows k (n + 1) s s' := by
  obtain ⟨htiled, hsize, hdecoded, hkept⟩ := h
  simp only [linearNextTile_linear, linearNextTile_tiled, size_writeLinearTile]
    at htiled hsize hdecoded hkept
  have hthis : k < cols * rows := by omega
  refine ⟨htiled, hsize, ?_, ?_⟩
  · intro q hq hq' b hb
    rcases Nat.lt_or_ge q ((k + 1) * 64) with hfirst | hrest
    · rw [hkept _ ?_]
      · exact get_writeLinearTile_of_mem hthis hq hfirst hb
      · intro q' hlow hhigh
        apply linear_apart _ hb
        intro heq
        have hsame := linearPlaceOf_inj (by omega) (by omega) heq
        omega
    · exact hdecoded q hrest (by omega) b hb
  · intro i hi
    rw [hkept i fun q hq hq' => hi q (by omega) (by omega)]
    exact get_writeLinearTile_of_notMem hthis fun q hq hq' => hi q hq (by omega)

theorem copyTiles_toLinear {n k fuel bufferEnd : ℕ} {s : MortonState} (hcols : 0 < cols)
    (hsize : linearSize format (8 * cols) (8 * rows) < 2 ^ 32) (hk : k + n ≤ cols * rows)
    (hlinear : s.linear.size = linearSize format (8 * cols) (8 * rows))
    (hstart : s.tiledOffset = k * tileSize format)
    (hend : bufferEnd = (k + n) * tileSize format) (hbuffer : bufferEnd ≤ s.tiled.size)
    (hsmall : bufferEnd < 2 ^ 32) (hfuel : n < fuel)
    (hat : k < cols * rows → AtTile format cols rows k s) :
    ∃ s', copyTiles true format (8 * cols) (8 * rows) bufferEnd fuel s = .ok s' ∧
      DecodedTiles format cols rows k n s s' := by
  induction n generalizing k fuel s with
  | zero =>
    cases fuel with
    | zero => exact absurd hfuel (Nat.not_lt_zero _)
    | succ fuel =>
      refine ⟨s, ?_, rfl, rfl, ?_, fun _ _ => rfl⟩
      · unfold copyTiles
        rw [if_neg (by rw [hstart, hend, Nat.add_zero]; exact Nat.lt_irrefl _)]
        rfl
      · intro q hq hq'
        omega
  | succ n ih =>
    cases fuel with
    | zero => exact absurd hfuel (Nat.not_lt_zero _)
    | succ fuel =>
      have hT : 0 < tileSize format := by
        have := bytesPerPixel_pos format
        rw [tileSize_eq]
        omega
      have hcount : (k + (n + 1)) * tileSize format =
          k * tileSize format + tileSize format + n * tileSize format := by
        rw [Nat.add_mul, Nat.succ_mul, Nat.add_comm (n * _), Nat.add_assoc]
      obtain ⟨hfit, hwindow⟩ := subspan_linear hcols hsize (by omega) hlinear (hat (by omega))
      have htile : subspan s.tiled s.tiledOffset (tileSize format) =
          .ok ⟨k * tileSize format, tileSize format⟩ := by
        rw [subspan, if_pos (by omega), hstart]
        rfl
      let s₁ : MortonState := { s with
        linear := writeLinearTile format cols rows k s.tiled s.linear
        tiledOffset := s.tiledOffset + tileSize format }
      have hrun : copyTiles true format (8 * cols) (8 * rows) bufferEnd (fuel + 1) s =
          copyTiles true format (8 * cols) (8 * rows) bufferEnd fuel
            (linearNextTile format (8 * cols) (8 * rows) s₁) := by
        rw [copyTiles, if_pos (by omega), hwindow, ok_bind, htile, ok_bind,
          mortonCopyTile_toLinear hfit, ok_bind, u32_of_lt (by omega)]
        rfl
      have hat₁ : AtTile format cols rows k s₁ :=
        ⟨(hat (by omega)).x, (hat (by omega)).y, (hat (by omega)).linearOffset⟩
      have hoffset₁ : s₁.tiledOffset = (k + 1) * tileSize format := by
        rw [Nat.succ_mul, ← hstart]
      obtain ⟨s', hs', hdecoded⟩ := @ih (k + 1) fuel
        (linearNextTile format (8 * cols) (8 * rows) s₁) (by omega) (by simpa [s₁] using hlinear)
        (by rw [linearNextTile_tiledOffset, hoffset₁])
        (by rw [hend, Nat.add_assoc k, Nat.add_comm 1]) (by simpa [s₁] using hbuffer)
        (by omega) (fun hlt => linearNextTile_atTile hcols hsize hlt hat₁)
      exact ⟨s', hrun.trans hs', decodedTiles_cons hk hdecoded⟩

end Linear

end Borked3DS.Analysis
