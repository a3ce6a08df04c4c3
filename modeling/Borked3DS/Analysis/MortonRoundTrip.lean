import Borked3DS.Analysis.MortonCopy

/-!
# The copy there and back, and in parts

The full range is copied tile by tile in either direction, so the linear image comes back except
for the bytes that a tiled image has no room for. A part of the range begins and ends inside a
tile, which goes through a temporary buffer; the part copied is that of the tiled image.
-/

set_option autoImplicit false

namespace Borked3DS.Analysis

open Borked3DS.Library Borked3DS.Model Borked3DS.Model.Common Borked3DS.Interface

/-! ## Tiled images -/

section Images

variable {format : PixelFormat} {cols rows : ℕ} {linear tiled : Span}

/-- The bytes of a tiled image are those of its tiles. -/
theorem tiledSize_eq : tiledSize format (8 * cols) (8 * rows) =
    cols * rows * tileSize format := by
  unfold tiledSize
  rw [tileSize_eq, Nat.mul_mul_mul_comm, Nat.mul_comm (8 * 8), Nat.mul_assoc]

theorem tiledSize_le {width height : ℕ} :
    tiledSize format width height ≤ linearSize format width height :=
  Nat.mul_le_mul_left _ (bytesPerPixel_le format)

/-- A list is known from its elements. -/
theorem read_eq_iff {s : Span} {offset n : ℕ} {bytes : List UInt8} (h : bytes.length = n) :
    s.read offset n = bytes ↔ ∀ b < n, s.get (offset + b) = bytes.getD b 0 := by
  constructor
  · rintro rfl b hb
    exact (Span.getD_read hb 0).symm
  · intro hbytes
    apply List.ext_getElem (by simp [h])
    intro b hb hb'
    have hbyte := hbytes b (by omega)
    rw [List.getD_eq_getElem?_getD, List.getElem?_eq_getElem hb', Option.getD_some] at hbyte
    simp [Span.read, hbyte]

/-- What a tiled image has in the place `q`. -/
theorem readPixel_of_isTiledImage (h : IsTiledImage format (8 * cols) (8 * rows) linear tiled)
    {q : ℕ} (hq : q < cols * rows * 64) :
    tiled.read (q * bytesPerPixel format) (bytesPerPixel format) =
      encodePixel format (linear.read (linearPlaceOf (8 * cols) (8 * rows) q *
        formatBytesPerPixel format) (bytesPerPixel format)) := by
  obtain ⟨hx, hy⟩ := pixel_lt hq
  have hread := h _ _ hx hy
  have hwidth : 8 * cols / 8 = cols := Nat.mul_div_cancel_left _ (by decide)
  have hplace : linearPlace (8 * cols) (8 * rows) (8 * (q / 64 % cols) + zOrderX 3 (q % 64))
      (8 * (q / 64 / cols) + zOrderY 3 (q % 64)) = linearPlaceOf (8 * cols) (8 * rows) q := by
    rw [linearPlaceOf, hwidth]
  rwa [tiledPlace_pixel, hplace] at hread

/-- A tiled image is one that has the bytes of the tiled image. -/
theorem isTiledImage_iff :
    IsTiledImage format (8 * cols) (8 * rows) linear tiled ↔
      ∀ p < cols * rows * tileSize format,
        tiled.get p = (tiledImage format (8 * cols) (8 * rows) linear).get p := by
  have hpos := bytesPerPixel_pos format
  have hpixel : ∀ q, tiled.read (q * bytesPerPixel format) (bytesPerPixel format) =
      encodePixel format (linear.read (linearPlaceOf (8 * cols) (8 * rows) q *
        formatBytesPerPixel format) (bytesPerPixel format)) ↔
      ∀ b < bytesPerPixel format, tiled.get (q * bytesPerPixel format + b) =
        (tiledImage format (8 * cols) (8 * rows) linear).get (q * bytesPerPixel format + b) := by
    intro q
    rw [read_eq_iff (length_encodePixel Span.length_read)]
    have himage : ∀ b < bytesPerPixel format,
        (tiledImage format (8 * cols) (8 * rows) linear).get (q * bytesPerPixel format + b) =
          (encodePixel format (linear.read (linearPlaceOf (8 * cols) (8 * rows) q *
            formatBytesPerPixel format) (bytesPerPixel format))).getD b 0 := by
      intro b hb
      have hindex : (q * bytesPerPixel format + b) / bytesPerPixel format = q := by
        rw [Nat.mul_comm, Nat.mul_add_div hpos, Nat.div_eq_of_lt hb, Nat.add_zero]
      have hoffset : (q * bytesPerPixel format + b) % bytesPerPixel format = b := by
        rw [Nat.mul_comm, Nat.mul_add_mod, Nat.mod_eq_of_lt hb]
      unfold tiledImage
      dsimp only
      rw [hindex, hoffset]
    constructor
    · intro h b hb
      rw [himage b hb, h b hb]
    · intro h b hb
      rw [← himage b hb, h b hb]
  constructor
  · intro h p hp
    rw [tileSize_eq, ← Nat.mul_assoc] at hp
    have hq : p / bytesPerPixel format < cols * rows * 64 :=
      Nat.div_lt_of_lt_mul (by rwa [Nat.mul_comm] at hp)
    have hb := Nat.mod_lt p hpos
    have hsplit := Nat.div_add_mod p (bytesPerPixel format)
    rw [Nat.mul_comm] at hsplit
    have hread := readPixel_of_isTiledImage h hq
    have hbyte := (hpixel _).mp hread _ hb
    rwa [hsplit] at hbyte
  · intro h x y hx hy
    rw [← linearPlaceOf_tiledPlace hx]
    apply (hpixel _).mpr
    intro b hb
    apply h
    have hplace := tiledPlace_lt hx hy
    have hend := Nat.mul_le_mul_right (bytesPerPixel format) (Nat.succ_le_of_lt hplace)
    rw [Nat.succ_mul] at hend
    rw [tileSize_eq, ← Nat.mul_assoc]
    omega

end Images

/-! ## The ends of a range -/

section Ends

variable {x size : ℕ}

/-- The end of the tile that a place is in, or the place if it is the beginning of one. -/
theorem alignUp_cases (hsize : 0 < size) {n : ℕ} (hx : x ≤ n * size) (hn : n * size < 2 ^ 32) :
    (x = x / size * size ∧ alignUp x size = x / size * size) ∨
      (x / size * size < x ∧ x < (x / size + 1) * size ∧ x / size + 1 ≤ n ∧
        alignUp x size = (x / size + 1) * size) := by
  have hsplit := Nat.div_add_mod x size
  have hmod := Nat.mod_lt x hsize
  rw [Nat.mul_comm] at hsplit
  unfold alignUp
  rcases Nat.eq_zero_or_pos (x % size) with hzero | hpos
  · left
    rw [if_pos hzero]
    omega
  · right
    rw [if_neg (by omega), Nat.add_mul, Nat.one_mul]
    have hle : x / size + 1 ≤ n := by
      apply Nat.succ_le_of_lt
      apply Nat.lt_of_mul_lt_mul_right (a := size)
      omega
    have hend := Nat.mul_le_mul_right size hle
    rw [Nat.add_mul, Nat.one_mul] at hend
    rw [u32_of_lt (by omega)]
    omega

/-- A sum that wraps around comes back when one of its parts is taken off. -/
theorem u32Sub_u32_add {a b c : ℕ} (h : a + c < 2 ^ 32) (hb : b < 2 ^ 32) :
    u32Sub (u32 (a + (b + c))) b = a + c := by
  unfold u32Sub u32
  omega

/-- The tiles of a buffer are fewer than the rounds of the loop. -/
theorem tiles_lt_fuel {offset n : ℕ} (hsize : 0 < size) :
    n < (offset + n * size) / size + 2 := by
  rw [Nat.add_mul_div_right _ _ hsize]
  exact Nat.lt_of_le_of_lt (Nat.le_add_left _ _) (Nat.lt_add_of_pos_right (by decide))

end Ends

/-! ## A part of the range -/

section Slices

variable {format : PixelFormat} {cols rows : ℕ} {linear : Span}

/-- The walk begins at the tile that the range begins in.
SOURCE: texture_codec.h:273-281 -/
theorem mortonStart_atTile {start : ℕ} {tiled : Span} (hcols : 0 < cols)
    (hsize : linearSize format (8 * cols) (8 * rows) < 2 ^ 32)
    (hk : start / tileSize format < cols * rows)
    (hsmall : alignDown start (tileSize format) * 8 < 2 ^ 32) :
    AtTile format cols rows (start / tileSize format)
      (mortonStart format (8 * cols) (8 * rows) start linear tiled) := by
  have hpos := bytesPerPixel_pos format
  have hrow := row_lt hk
  have hrows : 0 < rows := Nat.lt_of_le_of_lt (Nat.zero_le _) hrow
  obtain ⟨hwidth, hheight⟩ := sides_lt hrows hcols hsize
  have hwide : 8 * cols * 8 < 2 ^ 32 := by
    have hone : 1 ≤ formatBytesPerPixel format :=
      Nat.lt_of_lt_of_le (bytesPerPixel_pos format) (bytesPerPixel_le format)
    have hstrip : 8 * cols * 8 ≤ 8 * cols * (8 * rows) := Nat.mul_le_mul_left _ (by omega)
    have harea : 8 * cols * (8 * rows) ≤ linearSize format (8 * cols) (8 * rows) :=
      Nat.le_mul_of_pos_right _ hone
    omega
  rw [alignDown_eq] at hsmall
  have hindex : u32 (alignDown start (tileSize format) * 8) / formatBpp format =
      64 * (start / tileSize format) := by
    rw [alignDown_eq, u32_of_lt hsmall, formatBpp_eq, tileSize_eq]
    generalize start / (64 * bytesPerPixel format) = k
    rw [← Nat.mul_assoc, Nat.mul_comm _ 8, Nat.mul_div_mul_left _ _ (by decide),
      Nat.mul_div_cancel _ hpos, Nat.mul_comm]
  have hend := tileLinear_end hcols hk
  generalize start / tileSize format = k at hk hrow hsmall hindex hend ⊢
  have hcol := Nat.mod_lt k hcols
  have hstrip : 8 * cols * 8 = 64 * cols := by omega
  have hx : 64 * k % u32 (8 * cols * 8) / 8 = 8 * (k % cols) := by
    rw [u32_of_lt hwide, hstrip, Nat.mul_mod_mul_left]
    omega
  have hy : u32 (64 * k / u32 (8 * cols * 8) * 8) = 8 * (k / cols) := by
    rw [u32_of_lt hwide, hstrip, Nat.mul_div_mul_left _ _ (by decide), Nat.mul_comm,
      u32_of_lt (by omega)]
  refine ⟨?_, ?_, ?_⟩
  · unfold mortonStart
    dsimp only
    rw [hindex, hx]
  · unfold mortonStart
    dsimp only
    rw [hindex, hy]
  · have habove : u32Sub (u32Sub (8 * rows) 8) (8 * (k / cols)) = 8 * (rows - 1 - k / cols) := by
      rw [u32Sub_of_le (x := 8 * rows) (by omega) hheight, u32Sub_of_le (by omega) (by omega)]
      omega
    have hfit : tileLinear cols rows k * formatBytesPerPixel format < 2 ^ 32 := by
      have hle : tileLinear cols rows k ≤ 8 * cols * (8 * rows) := by omega
      exact Nat.lt_of_le_of_lt (Nat.mul_le_mul_right _ hle) hsize
    unfold mortonStart
    dsimp only
    rw [hindex, hx, hy, habove]
    exact u32_of_lt hfit

/-- A tile swizzled to the temporary buffer. -/
theorem swizzleTile_toTiled (fresh : ℕ → UInt8) {k : ℕ} {s : MortonState} (hcols : 0 < cols)
    (hsize : linearSize format (8 * cols) (8 * rows) < 2 ^ 32) (hk : k < cols * rows)
    (hlinear : s.linear.size = linearSize format (8 * cols) (8 * rows))
    (hat : AtTile format cols rows k s) :
    ∃ tile, swizzleTile fresh false format (8 * cols) s = .ok tile ∧
      tile.size = tileSize format ∧ ∀ i < tileSize format,
        tile.get i = (tiledImage format (8 * cols) (8 * rows) s.linear).get
          (k * tileSize format + i) := by
  obtain ⟨hfit, hwindow⟩ := subspan_linear hcols hsize hk hlinear hat
  refine ⟨writeTile format cols rows k 0 s.linear ⟨tileSize format, fresh⟩, ?_, ?_, ?_⟩
  · unfold swizzleTile
    rw [hwindow, ok_bind, mortonCopyTile_toTiled hfit, ok_bind]
    rfl
  · rw [size_writeTile]
  · intro i hi
    have := @get_writeTile_of_mem format cols rows k 0 ⟨tileSize format, fresh⟩
      s.linear hk _ hi
    rwa [Nat.zero_add] at this

/-- The state when the bytes from `start` to the tile `k`, but none behind `stop`, are copied. -/
structure SlicedTo (format : PixelFormat) (cols rows start stop k : ℕ) (image : Span)
    (s : MortonState) : Prop where
  linear : s.linear = image
  size : s.tiled.size = stop - start
  tiledOffset : s.tiledOffset + start = k * tileSize format
  next : k < cols * rows → AtTile format cols rows k s
  copied : ∀ i < min (k * tileSize format) stop - start, s.tiled.get i =
    (tiledImage format (8 * cols) (8 * rows) image).get (start + i)

/-- Copy a part of a tile that was swizzled to the temporary buffer. -/
theorem memcpy_tile {k : ℕ} {tile : Span} (tiled : Span) (offset count tileOffset : ℕ)
    (hcount : offset + count ≤ tiled.size)
    (htile : tile.size = tileSize format)
    (hbytes : ∀ i < tileSize format, tile.get i =
      (tiledImage format (8 * cols) (8 * rows) linear).get (k * tileSize format + i))
    (hinside : tileOffset + count ≤ tileSize format) :
    ∃ tiled', memcpy tiled offset tile tileOffset count = .ok tiled' ∧
      tiled'.size = tiled.size ∧
      (∀ i < offset, tiled'.get i = tiled.get i) ∧
      ∀ i < count, tiled'.get (offset + i) = (tiledImage format (8 * cols) (8 * rows) linear).get
        (k * tileSize format + tileOffset + i) := by
  refine ⟨tiled.write offset (tile.read tileOffset count), ?_, rfl, ?_, ?_⟩
  · unfold memcpy
    rw [if_pos ⟨hcount, by omega⟩]
    rfl
  · intro i hi
    exact Span.get_write_of_notMem (Or.inl hi)
  · intro i hi
    rw [Span.get_write_of_mem (by rwa [Span.length_read]), Span.getD_read hi,
      hbytes _ (by omega), Nat.add_assoc]

section Range

variable (fresh : ℕ → UInt8) {start stop : ℕ} (hcols : 0 < cols)
  (hsize : linearSize format (8 * cols) (8 * rows) < 2 ^ 32)
  (hlinear : linear.size = linearSize format (8 * cols) (8 * rows))
  (hle : start ≤ stop) (hstop : stop ≤ cols * rows * tileSize format)

include hcols hsize hlinear hle hstop

/-- The first tile. -/
theorem copyFirst_slices {s : MortonState} (hs : s.linear = linear)
    (hspan : s.tiled.size = stop - start) (hoffset : s.tiledOffset = 0)
    (hat : start / tileSize format < cols * rows →
      AtTile format cols rows (start / tileSize format) s) :
    ∃ s' k, copyFirst fresh false format (8 * cols) (8 * rows) start stop s = .ok s' ∧
      start ≤ k * tileSize format ∧ alignUp start (tileSize format) = k * tileSize format ∧
      SlicedTo format cols rows start stop k linear s' := by
  have hT : 0 < tileSize format := by
    have := bytesPerPixel_pos format
    rw [tileSize_eq]
    omega
  have hwhole : cols * rows * tileSize format < 2 ^ 32 := by
    rw [← tiledSize_eq]
    exact Nat.lt_of_le_of_lt tiledSize_le hsize
  rcases alignUp_cases hT (Nat.le_trans hle hstop) hwhole with
    ⟨haligned, hup⟩ | ⟨hlow, hhigh, hlast, hup⟩
  · refine ⟨s, start / tileSize format, ?_, by omega, hup, hs, hspan, by omega, hat, ?_⟩
    · unfold copyFirst
      dsimp only
      rw [if_neg (by omega)]
      rfl
    · intro i hi
      omega
  · have hk : start / tileSize format < cols * rows := hlast
    obtain ⟨tile, htile, htileSize, hbytes⟩ := swizzleTile_toTiled fresh hcols hsize hk
      (by rw [hs, hlinear]) (hat hk)
    rw [hs] at hbytes
    have hdown : alignDown start (tileSize format) = start / tileSize format * tileSize format :=
      alignDown_eq
    have hend := Nat.mul_le_mul_right (tileSize format) hlast
    generalize start / tileSize format = k at *
    have hsucc : (k + 1) * tileSize format = k * tileSize format + tileSize format :=
      Nat.succ_mul _ _
    obtain ⟨tiled, hcopy, hkept, -, hnew⟩ := memcpy_tile s.tiled 0
      (min ((k + 1) * tileSize format) stop - start) (start - k * tileSize format)
      (by omega) htileSize hbytes (by omega)
    refine ⟨linearNextTile format (8 * cols) (8 * rows) { s with
      tiled := tiled
      tiledOffset := u32 (s.tiledOffset + ((k + 1) * tileSize format - start)) }, k + 1, ?_,
      by omega, hup, ?_, ?_, ?_, ?_, ?_⟩
    · unfold copyFirst
      dsimp only
      rw [hup, hdown, if_pos ⟨hhigh, rfl⟩, htile, ok_bind,
        u32Sub_of_le (by omega) (by omega), hcopy, ok_bind]
      rfl
    · rw [linearNextTile_linear, hs]
    · rw [linearNextTile_tiled, ← hspan, ← hkept]
    · rw [linearNextTile_tiledOffset]
      dsimp only
      rw [hoffset, Nat.zero_add, u32_of_lt (by omega)]
      omega
    · intro hnext
      have hthis := hat hk
      exact linearNextTile_atTile hcols hsize hnext ⟨hthis.x, hthis.y, hthis.linearOffset⟩
    · intro i hi
      have hbyte := hnew i hi
      have hplace : k * tileSize format + (start - k * tileSize format) + i = start + i := by omega
      rw [Nat.zero_add, hplace] at hbyte
      rw [linearNextTile_tiled]
      exact hbyte

/-- The tiles in the middle. -/
theorem copyMiddle_slices {k : ℕ} {s : MortonState} (hk : start ≤ k * tileSize format)
    (hup : alignUp start (tileSize format) = k * tileSize format)
    (hs : SlicedTo format cols rows start stop k linear s) :
    ∃ s', copyMiddle false format (8 * cols) (8 * rows) start stop s = .ok s' ∧
      SlicedTo format cols rows start stop (max k (stop / tileSize format)) linear s' := by
  have hT : 0 < tileSize format := by
    have := bytesPerPixel_pos format
    rw [tileSize_eq]
    omega
  have hwhole : cols * rows * tileSize format < 2 ^ 32 := by
    rw [← tiledSize_eq]
    exact Nat.lt_of_le_of_lt tiledSize_le hsize
  have hdown : alignDown stop (tileSize format) = stop / tileSize format * tileSize format :=
    alignDown_eq
  have hin : stop / tileSize format * tileSize format ≤ stop := Nat.div_mul_le_self _ _
  have hlast : stop / tileSize format ≤ cols * rows :=
    Nat.div_le_of_le_mul (by rwa [Nat.mul_comm] at hstop)
  generalize stop / tileSize format = k' at hdown hin hlast ⊢
  obtain ⟨hsLinear, hsSize, hsOffset, hsNext, hsCopied⟩ := hs
  unfold copyMiddle
  dsimp only
  rw [hup, hdown]
  rcases Nat.lt_or_ge k k' with hlt | hge
  · obtain ⟨n, rfl⟩ := Nat.exists_eq_add_of_lt hlt
    have hcount : (k + n + 1) * tileSize format = k * tileSize format +
        (n + 1) * tileSize format := by
      rw [Nat.add_assoc, Nat.add_mul]
    have hpos : tileSize format ≤ (n + 1) * tileSize format := Nat.le_mul_of_pos_left _ (by omega)
    have hbuffer : s.tiledOffset + (n + 1) * tileSize format ≤ s.tiled.size := by omega
    have hsmall : s.tiledOffset + (n + 1) * tileSize format < 2 ^ 32 := by omega
    have hbehind : k ≤ k + n + 1 := by omega
    have hbefore : k * tileSize format < (k + n + 1) * tileSize format := by omega
    have hend : min (u32Sub (u32 (s.tiledOffset + (k + n + 1) * tileSize format))
        (k * tileSize format)) (u32 s.tiled.size) =
        s.tiledOffset + (n + 1) * tileSize format := by
      rw [hsSize, hcount, u32Sub_u32_add hsmall (by omega), u32_of_lt (by omega)]
      omega
    rw [if_pos hbefore, hend, Nat.max_eq_right hbehind]
    clear hend
    obtain ⟨s', hrun, hcopied⟩ := @copyTiles_toTiled format cols rows (n + 1) k
      ((s.tiledOffset + (n + 1) * tileSize format) / tileSize format + 2) _ s hcols hsize hlast
      (by rw [hsLinear, hlinear]) rfl hbuffer hsmall (tiles_lt_fuel hT) hsNext
    refine ⟨s', hrun, ?_, ?_, ?_, ?_, ?_⟩
    · rw [hcopied.linear, hsLinear]
    · rw [hcopied.size, hsSize]
    · rw [hcopied.tiledOffset]
      omega
    · exact hcopied.next
    · intro i hi
      rcases Nat.lt_or_ge i s.tiledOffset with hfirst | hrest
      · rw [hcopied.kept i (Or.inl hfirst)]
        exact hsCopied i (by omega)
      · have hbyte := hcopied.copied (i - s.tiledOffset) (by omega)
        have hplace : s.tiledOffset + (i - s.tiledOffset) = i := by omega
        have himage : k * tileSize format + (i - s.tiledOffset) = start + i := by omega
        rwa [hplace, himage, hsLinear] at hbyte
  · have hle' := Nat.mul_le_mul_right (tileSize format) hge
    rw [if_neg (by omega), Nat.max_eq_left hge]
    exact ⟨s, rfl, hsLinear, hsSize, hsOffset, hsNext, hsCopied⟩

/-- The last tile. -/
theorem copyLast_slices {k : ℕ} {s : MortonState} (hk : start ≤ k * tileSize format)
    (hup : alignUp start (tileSize format) = k * tileSize format)
    (hs : SlicedTo format cols rows start stop (max k (stop / tileSize format)) linear s) :
    ∃ s', copyLast fresh false format (8 * cols) start stop s = .ok s' ∧
      s'.linear = linear ∧ s'.tiled.size = stop - start ∧
      ∀ i < stop - start, s'.tiled.get i =
        (tiledImage format (8 * cols) (8 * rows) linear).get (start + i) := by
  have hT : 0 < tileSize format := by
    have := bytesPerPixel_pos format
    rw [tileSize_eq]
    omega
  have hdown : alignDown stop (tileSize format) = stop / tileSize format * tileSize format :=
    alignDown_eq
  have hin : stop / tileSize format * tileSize format ≤ stop := Nat.div_mul_le_self _ _
  have hover : stop < (stop / tileSize format + 1) * tileSize format := by
    have hmod := Nat.mod_lt stop hT
    have hsplit := Nat.div_add_mod stop (tileSize format)
    rw [Nat.mul_comm] at hsplit
    rw [Nat.succ_mul]
    omega
  generalize stop / tileSize format = k' at hdown hin hover hs
  obtain ⟨hsLinear, hsSize, hsOffset, hsNext, hsCopied⟩ := hs
  unfold copyLast
  dsimp only
  rw [hup, hdown]
  by_cases hpart : max (k * tileSize format) (k' * tileSize format) < stop
  · have hbehind : k ≤ k' := by
      apply Nat.le_of_lt_succ
      apply Nat.lt_of_mul_lt_mul_right (a := tileSize format)
      exact Nat.lt_of_le_of_lt (Nat.le_max_left _ _) (Nat.lt_trans hpart hover)
    rw [Nat.max_eq_right hbehind] at hsOffset hsNext hsCopied
    have hle' := Nat.mul_le_mul_right (tileSize format) hbehind
    have hk' : k' < cols * rows := by
      apply Nat.lt_of_mul_lt_mul_right (a := tileSize format)
      omega
    obtain ⟨tile, htile, htileSize, hbytes⟩ := swizzleTile_toTiled fresh hcols hsize hk'
      (by rw [hsLinear, hlinear]) (hsNext hk')
    rw [hsLinear] at hbytes
    rw [Nat.succ_mul] at hover
    obtain ⟨tiled, hcopy, hkept, hold, hnew⟩ := memcpy_tile s.tiled s.tiledOffset
      (stop - k' * tileSize format) 0 (by omega) htileSize hbytes (by omega)
    refine ⟨{ s with tiled := tiled }, ?_, hsLinear, by rw [← hsSize, ← hkept], ?_⟩
    · rw [if_pos ⟨hpart, rfl⟩, htile, ok_bind, hcopy, ok_bind]
      rfl
    · intro i hi
      rcases Nat.lt_or_ge i s.tiledOffset with hfirst | hrest
      · have hbefore := hsCopied i (by omega)
        rw [← hold i hfirst] at hbefore
        exact hbefore
      · have hbyte := hnew (i - s.tiledOffset) (by omega)
        have hplace : s.tiledOffset + (i - s.tiledOffset) = i := by omega
        have himage : k' * tileSize format + 0 + (i - s.tiledOffset) = start + i := by omega
        rw [hplace, himage] at hbyte
        exact hbyte
  · rw [if_neg fun h => hpart h.1]
    refine ⟨s, rfl, hsLinear, hsSize, fun i hi => hsCopied i ?_⟩
    have hbig : max (k * tileSize format) (k' * tileSize format) =
        max k k' * tileSize format := (Nat.mul_max_mul_right _ _ _)
    omega

/-- A part of the range is copied to the bytes of the tiled image.
SOURCE: texture_codec.h:257-332 -/
theorem mortonCopy_slices {tiled : Span}
    (hsmall : alignDown start (tileSize format) * 8 < 2 ^ 32)
    (hspan : tiled.size = stop - start) :
    ∃ tiled', mortonCopy fresh false format (8 * cols) (8 * rows) start stop linear tiled =
        .ok (linear, tiled') ∧ tiled'.size = stop - start ∧
      ∀ i < stop - start, tiled'.get i =
        (tiledImage format (8 * cols) (8 * rows) linear).get (start + i) := by
  obtain ⟨s₁, k, hfirst, hk, hup, h₁⟩ := copyFirst_slices fresh hcols hsize hlinear hle
    hstop (s := mortonStart format (8 * cols) (8 * rows) start linear tiled) rfl hspan rfl
    fun hlt => mortonStart_atTile hcols hsize hlt hsmall
  obtain ⟨s₂, hmiddle, h₂⟩ := copyMiddle_slices hcols hsize hlinear hle hstop hk hup h₁
  obtain ⟨s₃, hlast, hsLinear, hsSize, hbytes⟩ := copyLast_slices fresh hcols hsize
    hlinear hle hstop hk hup h₂
  refine ⟨s₃.tiled, ?_, hsSize, hbytes⟩
  have hassert : assert (false = false ∨ (alignUp start (tileSize format) = start ∧
      alignDown stop (tileSize format) = stop)) .tileAligned = .ok () :=
    assert_eq_ok.mpr (Or.inl rfl)
  unfold mortonCopy
  rw [hassert, ok_bind, hfirst, ok_bind, hmiddle, ok_bind, hlast, ok_bind, hsLinear]
  rfl

end Range

end Slices

/-! ## There and back -/

section RoundTrip

variable (fresh : ℕ → UInt8) {format : PixelFormat} {cols rows : ℕ} {linear tiled : Span}

/-- Behind the last whole tile there is nothing left to do. -/
theorem alignDown_tiles : alignDown (cols * rows * tileSize format) (tileSize format) =
    cols * rows * tileSize format := by
  unfold alignDown
  rw [Nat.mul_mod_left, Nat.sub_zero]

/-- The copy to the linear image decodes every tile.
SOURCE: texture_codec.h:257-332 -/
theorem mortonCopy_toLinear (hcols : 0 < cols) (hrows : 0 < rows)
    (hsize : linearSize format (8 * cols) (8 * rows) < 2 ^ 32)
    (hlinear : linear.size = linearSize format (8 * cols) (8 * rows))
    (htiled : tiled.size = tiledSize format (8 * cols) (8 * rows)) :
    ∃ linear', mortonCopy fresh true format (8 * cols) (8 * rows) 0
        (tiledSize format (8 * cols) (8 * rows)) linear tiled = .ok (linear', tiled) ∧
      linear'.size = linear.size ∧
      (∀ q < cols * rows * 64, ∀ b < bytesPerPixel format,
        linear'.get (linearPlaceOf (8 * cols) (8 * rows) q * formatBytesPerPixel format + b) =
          (decodedAt format tiled q).getD b 0) ∧
      ∀ p, ¬ IsStored format p → linear'.get p = linear.get p := by
  have hT : 0 < tileSize format := by
    have := bytesPerPixel_pos format
    rw [tileSize_eq]
    omega
  have hwhole : cols * rows * tileSize format < 2 ^ 32 := by
    rw [← tiledSize_eq]
    exact Nat.lt_of_le_of_lt tiledSize_le hsize
  have htiles : 0 < cols * rows := Nat.mul_pos hcols hrows
  have hpos : 0 < cols * rows * tileSize format := Nat.mul_pos htiles hT
  have hup : alignUp 0 (tileSize format) = 0 := by
    unfold alignUp
    rw [if_pos (Nat.zero_mod _)]
  have hzero : 0 / tileSize format = 0 := Nat.zero_div _
  have hstart : AtTile format cols rows 0
      (mortonStart format (8 * cols) (8 * rows) 0 linear tiled) := by
    have := @mortonStart_atTile format cols rows linear 0 tiled hcols hsize (by rwa [hzero])
      (by rw [alignDown_eq, hzero]; omega)
    rwa [hzero] at this
  rw [tiledSize_eq] at htiled ⊢
  obtain ⟨s, hrun, hdecoded⟩ := @copyTiles_toLinear format cols rows (cols * rows) 0
    (cols * rows * tileSize format / tileSize format + 2) (cols * rows * tileSize format)
    (mortonStart format (8 * cols) (8 * rows) 0 linear tiled) hcols hsize
    (Nat.le_of_eq (Nat.zero_add _)) hlinear (by rw [Nat.zero_mul]; rfl) (by rw [Nat.zero_add])
    (by rw [← htiled]; exact Nat.le_refl _) hwhole
    (by rw [Nat.mul_div_cancel _ hT]; exact Nat.lt_add_of_pos_right (by decide))
    (fun _ => hstart)
  have hassert : assert (true = false ∨ (alignUp 0 (tileSize format) = 0 ∧
      alignDown (cols * rows * tileSize format) (tileSize format) =
        cols * rows * tileSize format)) .tileAligned = .ok () :=
    assert_eq_ok.mpr (Or.inr ⟨hup, alignDown_tiles⟩)
  have hfirst : copyFirst fresh true format (8 * cols) (8 * rows) 0
      (cols * rows * tileSize format) (mortonStart format (8 * cols) (8 * rows) 0 linear tiled) =
      .ok (mortonStart format (8 * cols) (8 * rows) 0 linear tiled) := by
    unfold copyFirst
    dsimp only
    rw [if_neg fun h => Bool.noConfusion h.2]
    rfl
  have hend : min (u32Sub (u32 (0 + cols * rows * tileSize format)) 0)
      (u32 (cols * rows * tileSize format)) = cols * rows * tileSize format := by
    rw [Nat.zero_add, u32_of_lt hwhole, u32Sub_of_le (Nat.zero_le _) hwhole, Nat.sub_zero,
      Nat.min_self]
  have hmiddle : copyMiddle true format (8 * cols) (8 * rows) 0 (cols * rows * tileSize format)
      (mortonStart format (8 * cols) (8 * rows) 0 linear tiled) = .ok s := by
    have hbuffer : min (u32Sub (u32 ((mortonStart format (8 * cols) (8 * rows) 0 linear
        tiled).tiledOffset + cols * rows * tileSize format)) 0)
        (u32 (mortonStart format (8 * cols) (8 * rows) 0 linear tiled).tiled.size) =
        cols * rows * tileSize format := by
      rw [show (mortonStart format (8 * cols) (8 * rows) 0 linear tiled).tiled.size =
        cols * rows * tileSize format from htiled]
      exact hend
    unfold copyMiddle
    dsimp only
    rw [hup, alignDown_tiles, if_pos hpos, hbuffer, hrun]
  have hlast : copyLast fresh true format (8 * cols) 0 (cols * rows * tileSize format) s =
      .ok s := by
    unfold copyLast
    dsimp only
    rw [if_neg fun h => Bool.noConfusion h.2]
    rfl
  refine ⟨s.linear, ?_, hdecoded.size, ?_, ?_⟩
  · unfold mortonCopy
    rw [hassert, ok_bind, hfirst, ok_bind, hmiddle, ok_bind, hlast, ok_bind, hdecoded.tiled]
    rfl
  · intro q hq b hb
    exact hdecoded.decoded q (by omega) (by omega) b hb
  · intro p hp
    apply hdecoded.kept
    intro q _ _
    have hsplit := Nat.div_add_mod p (formatBytesPerPixel format)
    have hmod := Nat.mod_lt p (Nat.lt_of_lt_of_le (bytesPerPixel_pos format)
      (bytesPerPixel_le format))
    have hle := bytesPerPixel_le format
    unfold IsStored at hp
    rw [Nat.mul_comm] at hsplit
    generalize linearPlaceOf (8 * cols) (8 * rows) q = place
    generalize p / formatBytesPerPixel format = place' at hsplit
    generalize p % formatBytesPerPixel format = b at hsplit hmod hp
    rcases Nat.lt_or_ge place' place with hlt | hge
    · left
      have := Nat.mul_le_mul_right (formatBytesPerPixel format) (Nat.succ_le_of_lt hlt)
      rw [Nat.succ_mul] at this
      omega
    · right
      have := Nat.mul_le_mul_right (formatBytesPerPixel format) hge
      omega

end RoundTrip

/-- Copied to the tiled form an image is the Z-order permutation of its pixels, and copied back it
is the image again, except for the bytes that a tiled image does not have; a part of the range is
copied to that part of the tiled image. All for images whose bytes 32 bits can count, and parts
that begin in the first `2 ^ 32` bits.
SOURCE: texture_codec.h:200-332, utils.h:12-51 -/
theorem mortonCopy_tiledImage (fresh : ℕ → UInt8) {format : PixelFormat} {width height : ℕ}
    {linear : Span} (hwidth : 0 < width ∧ width % 8 = 0) (hheight : 0 < height ∧ height % 8 = 0)
    (hsize : linearSize format width height < 2 ^ 32)
    (hlinear : linear.size = linearSize format width height) :
    (∀ tiled, tiled.size = tiledSize format width height →
      ∃ tiled', mortonCopy fresh false format width height 0 (tiledSize format width height)
          linear tiled = .ok (linear, tiled') ∧
        tiled'.size = tiledSize format width height ∧
        IsTiledImage format width height linear tiled' ∧
        ∀ back, back.size = linearSize format width height →
          ∃ linear', mortonCopy fresh true format width height 0 (tiledSize format width height)
              back tiled' = .ok (linear', tiled') ∧
            linear'.size = linearSize format width height ∧
            ∀ p < linearSize format width height,
              linear'.get p = if IsStored format p then linear.get p else back.get p) ∧
    ∀ start stop, start ≤ stop → stop ≤ tiledSize format width height →
      alignDown start (tileSize format) * 8 < 2 ^ 32 →
      ∀ full, IsTiledImage format width height linear full →
      ∀ tiled, tiled.size = stop - start →
        ∃ tiled', mortonCopy fresh false format width height start stop linear tiled =
            .ok (linear, tiled') ∧
          tiled'.size = stop - start ∧
          ∀ i < stop - start, tiled'.get i = full.get (start + i) := by
  obtain ⟨hcols, hwidth⟩ := hwidth
  obtain ⟨hrows, hheight⟩ := hheight
  obtain ⟨cols, rfl⟩ := Nat.dvd_of_mod_eq_zero hwidth
  obtain ⟨rows, rfl⟩ := Nat.dvd_of_mod_eq_zero hheight
  replace hcols : 0 < cols := by omega
  replace hrows : 0 < rows := by omega
  have hpos : 0 < formatBytesPerPixel format :=
    Nat.lt_of_lt_of_le (bytesPerPixel_pos format) (bytesPerPixel_le format)
  have hdown : alignDown 0 (tileSize format) * 8 < 2 ^ 32 := by
    rw [alignDown_eq, Nat.zero_div]
    omega
  constructor
  · intro tiled htiled
    rw [tiledSize_eq] at htiled
    obtain ⟨tiled', hcopy, hsize', hbytes⟩ := mortonCopy_slices fresh hcols hsize
      hlinear (Nat.zero_le _) (Nat.le_refl _) hdown htiled
    have himage : IsTiledImage format (8 * cols) (8 * rows) linear tiled' := by
      apply isTiledImage_iff.mpr
      intro p hp
      have hbyte := hbytes p hp
      rwa [Nat.zero_add] at hbyte
    refine ⟨tiled', by rw [tiledSize_eq, hcopy], by rw [tiledSize_eq, hsize']; rfl, himage, ?_⟩
    intro back hback
    obtain ⟨linear', hcopy', hsize'', hdecoded, hkept⟩ := @mortonCopy_toLinear fresh
      format cols rows back tiled' hcols hrows hsize hback (by rw [tiledSize_eq, hsize']; rfl)
    refine ⟨linear', hcopy', by rw [hsize'', hback], ?_⟩
    intro p hp
    by_cases hstored : IsStored format p
    · rw [if_pos hstored]
      have hplace : p / formatBytesPerPixel format < 8 * cols * (8 * rows) :=
        Nat.div_lt_of_lt_mul (by rwa [Nat.mul_comm])
      obtain ⟨q, hq, hqPlace⟩ := exists_linearPlaceOf hplace
      have hbyte := hdecoded q hq _ hstored
      have hread := readPixel_of_isTiledImage himage hq
      have hsplit := Nat.div_add_mod p (formatBytesPerPixel format)
      rw [Nat.mul_comm] at hsplit
      unfold decodedAt at hbyte
      rw [hread, decodePixel_encodePixel Span.length_read, Span.getD_read hstored, hqPlace,
        hsplit] at hbyte
      exact hbyte
    · rw [if_neg hstored]
      exact hkept p hstored
  · intro start stop hle hstop hsmall full hfull tiled htiled
    rw [tiledSize_eq] at hstop
    obtain ⟨tiled', hcopy, hsize', hbytes⟩ := mortonCopy_slices fresh hcols hsize
      hlinear hle hstop hsmall htiled
    refine ⟨tiled', hcopy, hsize', ?_⟩
    intro i hi
    rw [hbytes i hi, isTiledImage_iff.mp hfull _ (by omega)]

/-- Two tiles of sixteen-bit pixels, and the bytes from the third to the two hundredth of them. -/
theorem mortonCopy_tiledImage_strip :
    (∃ tiled', mortonCopy (fun _ => 0) false .rgb565 16 8 0 256 ⟨256, UInt8.ofNat⟩
        ⟨256, fun _ => 0⟩ = .ok (⟨256, UInt8.ofNat⟩, tiled') ∧
      IsTiledImage .rgb565 16 8 ⟨256, UInt8.ofNat⟩ tiled') ∧
    ∀ full, IsTiledImage .rgb565 16 8 ⟨256, UInt8.ofNat⟩ full →
      ∃ tiled', mortonCopy (fun _ => 0) false .rgb565 16 8 2 200 ⟨256, UInt8.ofNat⟩
          ⟨198, fun _ => 0⟩ = .ok (⟨256, UInt8.ofNat⟩, tiled') ∧
        ∀ i < 198, tiled'.get i = full.get (2 + i) := by
  obtain ⟨hwhole, hpart⟩ := @mortonCopy_tiledImage (fun _ => 0) .rgb565 16 8
    ⟨256, UInt8.ofNat⟩ (by decide) (by decide) (by decide) rfl
  constructor
  · obtain ⟨tiled', hcopy, _, himage, _⟩ := hwhole ⟨256, fun _ => 0⟩ rfl
    exact ⟨tiled', hcopy, himage⟩
  · intro full hfull
    obtain ⟨tiled', hcopy, _, hbytes⟩ := hpart 2 200 (by decide) (by decide) (by decide) full hfull
      ⟨198, fun _ => 0⟩ rfl
    exact ⟨tiled', hcopy, hbytes⟩

/-- A 24-bit depth comes back without its fourth byte. An image of more than `2 ^ 32` bytes, and a
part that begins behind the first `2 ^ 32` bits, are copied from another tile. -/
theorem mortonCopy_loses :
    (do
      let (_, tiled) ← mortonCopy (fun _ => 0) false .d24 8 8 0 192 ⟨256, fun _ => 1⟩
        ⟨192, fun _ => 0⟩
      let (linear, _) ← mortonCopy (fun _ => 0) true .d24 8 8 0 192 ⟨256, fun _ => 0⟩ tiled
      pure (linear.get 2, linear.get 3) : Exec (UInt8 × UInt8)) = .ok (1, 0) ∧
    (do
      let (_, tiled) ← mortonCopy (fun _ => 0) false .rgba8 8 (2 ^ 27 + 8) 0 1
        ⟨2 ^ 32 + 256, fun i => if i = 2 ^ 32 + 224 then 1 else 0⟩ ⟨1, fun _ => 0⟩
      pure (tiled.get 0) : Exec UInt8) = .ok 0 ∧
    (tiledImage .rgba8 8 (2 ^ 27 + 8)
      ⟨2 ^ 32 + 256, fun i => if i = 2 ^ 32 + 224 then 1 else 0⟩).get 0 = 1 ∧
    (do
      let (_, tiled) ← mortonCopy (fun _ => 0) false .rgba8 8 (2 ^ 24 + 8) (2 ^ 29) (2 ^ 29 + 1)
        ⟨2 ^ 29 + 256, fun i => if i = 224 then 1 else 0⟩ ⟨1, fun _ => 0⟩
      pure (tiled.get 0) : Exec UInt8) = .ok 0 ∧
    (tiledImage .rgba8 8 (2 ^ 24 + 8)
      ⟨2 ^ 29 + 256, fun i => if i = 224 then 1 else 0⟩).get (2 ^ 29) = 1 := by
  refine ⟨?_, ?_, ?_, ?_, ?_⟩
  · decide +kernel
  · decide +kernel
  · decide +kernel
  · decide +kernel
  · decide +kernel

end Borked3DS.Analysis
