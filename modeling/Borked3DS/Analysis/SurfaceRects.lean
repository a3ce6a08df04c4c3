import Borked3DS.Analysis.SurfaceLevels

/-!
# When rectangles and intervals correspond

An interval of a level is given by two numbers of bytes, and a rectangle by the tiles of its
corners. What is made from an interval has whole rows, up to where the pixels of the last one end,
or whole tiles of one row. A rectangle of a tiled surface is counted from the last row of the first
level in every level.
-/

set_option autoImplicit false

namespace Borked3DS.Analysis

open Borked3DS.Library Borked3DS.Model Borked3DS.Model.Common Borked3DS.Model.VideoCore
open Borked3DS.Interface

variable {s : SurfaceParams} {level a b : ℕ} {interval : SurfaceInterval} {rect : Rectangle}

/-! ## Intervals -/

theorem inLevel_iff (hvalid : ValidSurface s) (hlevel : level < s.levels) :
    InLevel s level interval ↔ s.mipmapOffsets level ≤ interval.lower ∧
      interval.lower < interval.upper ∧
      interval.upper ≤ s.mipmapOffsets level + levelBytes s level := by
  unfold InLevel
  rw [levelInterval_eq hvalid hlevel]
  simp

theorem level_of_inLevel (h : InLevel s level interval) : level < s.levels := by
  obtain ⟨whole, hwhole, -⟩ := h
  unfold SurfaceParams.levelInterval at hwhole
  obtain ⟨_, hassert, -⟩ := bind_eq_ok.mp hwhole
  exact assert_eq_ok.mp hassert

/-- The difference of two addresses that may have wrapped. -/
theorem u32Sub_u32 {start x y : ℕ} (hle : y ≤ x) (hlt : x < 2 ^ 32) :
    u32Sub (u32 (start + x)) (u32 (start + y)) = x - y := by
  unfold u32Sub u32
  omega

theorem levelBytes_le (hvalid : ValidSurface s) (hlevel : level < s.levels) :
    levelBytes s level ≤ rows s level * rowBytes s level := by
  have hused : usedBytes s level ≤ rowBytes s level := usedBytes_le hvalid
  obtain ⟨n, hn⟩ := Nat.exists_eq_add_of_le' (rows_pos hvalid hlevel)
  unfold levelBytes
  rw [hn, Nat.add_sub_cancel, Nat.add_mul, Nat.one_mul, Nat.mul_comm n]
  omega

theorem strideTiledBytes_eq (hvalid : ValidSurface s) (hlevel : level < s.levels) :
    s.bytesInPixels (u32 ((s.stride >>> level) * s.tiledSize)) = rowBytes s level := by
  have hfit := tiles_fit hvalid hlevel
    (Nat.le_mul_of_pos_left (columns s level) (rows_pos hvalid hlevel))
  have hpixels : columns s level * (s.tiledSize * s.tiledSize) < 2 ^ 32 := by
    have hbits := hfit
    rw [tileBytes_mul hvalid, ← Nat.mul_assoc] at hbits
    exact Nat.lt_of_le_of_lt (Nat.le_mul_of_pos_right _ (bpp_pos _)) hbits
  rw [← columns_mul hvalid hlevel, Nat.mul_assoc, u32_of_lt hpixels, bytes_tiles hvalid hfit]
  rfl

theorem bytes_row (hvalid : ValidSurface s) (hlevel : level < s.levels) :
    s.bytesInPixels (s.stride >>> level) * s.tiledSize = rowBytes s level := by
  have htile := tileBytes_mul hvalid
  have hfit := tiles_fit hvalid hlevel
    (Nat.le_mul_of_pos_left (columns s level) (rows_pos hvalid hlevel))
  unfold rowBytes SurfaceParams.bytesInPixels
  rw [← columns_mul hvalid hlevel]
  rw [htile, ← Nat.mul_assoc, ← Nat.mul_assoc] at hfit
  have hside := tiledSize_pos s
  have hword : columns s level * s.tiledSize * s.pixelFormat.bpp < 2 ^ 32 := by
    refine Nat.lt_of_le_of_lt ?_ hfit
    exact Nat.mul_le_mul_right _ (Nat.le_mul_of_pos_right _ hside)
  rw [u32_of_lt hword]
  unfold SurfaceParams.tiledSize at htile ⊢
  cases htiled : s.isTiled with
  | true =>
    simp only [htiled, if_true] at htile ⊢
    have hbytes : tileBytes s = 8 * s.pixelFormat.bpp := by omega
    rw [hbytes, Nat.mul_right_comm, Nat.mul_div_cancel _ (by decide), Nat.mul_assoc,
      Nat.mul_comm s.pixelFormat.bpp]
  | false =>
    simp only [htiled, Bool.false_eq_true, if_false, Nat.mul_one, Nat.one_mul] at htile ⊢
    rw [← htile, ← Nat.mul_assoc, Nat.mul_div_cancel _ (by decide)]

/-- A row of tiles is as high as a tile. -/
theorem rowBytes_div (hvalid : ValidSurface s) (hlevel : level < s.levels) (n : ℕ) :
    n * rowBytes s level / s.bytesInPixels (s.stride >>> level) = n * s.tiledSize := by
  have hrow := bytes_row hvalid hlevel
  have hpos := rowBytes_pos hvalid hlevel
  rw [← hrow] at hpos
  rw [← hrow, Nat.mul_comm (s.bytesInPixels _), ← Nat.mul_assoc,
    Nat.mul_div_cancel _ (Nat.pos_of_mul_pos_right hpos)]

theorem tiledAlignment_eq : s.bytesInPixels (if s.isTiled then 8 * 8 else 1) = tileBytes s := by
  unfold tileBytes SurfaceParams.tiledSize
  cases s.isTiled <;> rfl

theorem upper_or_next (hvalid : ValidSurface s) (hlevel : level < s.levels) :
    s.mipmapOffsets level + levelBytes s level = s.upper ∨
      s.mipmapOffsets level + levelBytes s level = s.mipmapOffsets (level + 1) := by
  have hinterval := levelInterval_eq hvalid hlevel
  unfold SurfaceParams.levelInterval at hinterval
  rw [assert, if_pos hlevel, ok_bind] at hinterval
  have hupper := congrArg SurfaceInterval.upper (Except.ok.inj hinterval)
  dsimp only at hupper
  split at hupper
  · exact Or.inl hupper.symm
  · exact Or.inr hupper.symm

theorem stride_or_first (hvalid : ValidSurface s) (hlevel : level < s.levels) :
    s.stride = s.width ∨ level = 0 := by
  by_cases hone : s.levels = 1
  · exact Or.inr (by omega)
  · exact Or.inl (updated_many hvalid hone).1

/-- Parameters of one level that are given in tiles. -/
theorem updateParams_oneLevel (hvalid : ValidSurface s) (addr : ℕ) {stride width n : ℕ}
    (hstride : 0 < stride) (hn : n + 1 < 2 ^ 32)
    (hfit : (stride * n + width) * (tileBytes s * 8) < 2 ^ 32) :
    ∃ sub, SurfaceParams.updateParams { s with
        addr := addr
        width := width * s.tiledSize
        stride := stride * s.tiledSize
        height := (n + 1) * s.tiledSize
        levels := 1 } = .ok sub ∧
      sub.addr = addr ∧ sub.upper = u32 (addr + (stride * n + width) * tileBytes s) ∧
      sub.width = width * s.tiledSize ∧ sub.height = (n + 1) * s.tiledSize := by
  have hsize := oneLevel_size hvalid hn hfit
  have hpos : stride * s.tiledSize ≠ 0 :=
    Nat.ne_of_gt (Nat.mul_pos hstride (tiledSize_pos s))
  unfold SurfaceParams.updateParams
  dsimp only
  rw [if_neg hpos, if_neg (not_not_intro rfl)]
  refine ⟨_, rfl, rfl, ?_, rfl, rfl⟩
  rw [← hsize]
  rfl

/-- The row of the last byte of an interval is a row of the level. -/
theorem lastRow_lt (hvalid : ValidSurface s) (hlevel : level < s.levels) (hab : a < b)
    (hb : b ≤ levelBytes s level) : (b - 1) / rowBytes s level < rows s level := by
  rw [Nat.div_lt_iff_lt_mul (rowBytes_pos hvalid hlevel)]
  have hle := levelBytes_le hvalid hlevel
  omega

theorem firstRow_le (hab : a < b) : a / rowBytes s level ≤ (b - 1) / rowBytes s level :=
  Nat.div_le_div_right (by omega)

/-- The difference of the ends of aligned intervals. -/
theorem aligned_sub {start first last size : ℕ} (hle : first ≤ last)
    (hlt : (last + 1) * size < 2 ^ 32) :
    u32Sub (u32 (start + (last + 1) * size)) (u32 (start + first * size)) =
      (last - first + 1) * size := by
  have hmul : first * size ≤ (last + 1) * size := Nat.mul_le_mul_right _ (by omega)
  rw [u32Sub_u32 hmul hlt, ← Nat.sub_mul]
  congr 1
  omega

/-- An aligned interval of rows of a level is a word long. -/
theorem rows_fit (hvalid : ValidSurface s) (hlevel : level < s.levels) {n : ℕ}
    (hn : n < rows s level) : (n + 1) * rowBytes s level * 8 < 2 ^ 32 := by
  have hfits := level_fits hvalid hlevel
  have hmul : (n + 1) * rowBytes s level ≤ rows s level * rowBytes s level :=
    Nat.mul_le_mul_right _ hn
  omega

/-- The tiles of a level. -/
theorem levelBytes_tiles (s : SurfaceParams) (level : ℕ) : levelBytes s level =
    (columns s level * (rows s level - 1) + usedColumns s level) * tileBytes s := by
  unfold levelBytes rowBytes usedBytes
  ring

/-- The tile of the last byte ends in the level. -/
theorem tileEnd_le (hvalid : ValidSurface s) (hab : a < b) (hb : b ≤ levelBytes s level) :
    ((b - 1) / tileBytes s + 1) * tileBytes s ≤ levelBytes s level := by
  rw [levelBytes_tiles] at hb ⊢
  apply Nat.mul_le_mul_right
  apply Nat.succ_le_of_lt
  rw [Nat.div_lt_iff_lt_mul (tileBytes_pos hvalid)]
  omega

/-- `FromInterval` up to where it tells one row from many. -/
theorem fromInterval_aligned (hvalid : ValidSurface s) (hlevel : level < s.levels) (hab : a < b)
    (hb : b ≤ levelBytes s level) :
    s.fromInterval ⟨s.mipmapOffsets level + a, s.mipmapOffsets level + b⟩ =
      if a / rowBytes s level < (b - 1) / rowBytes s level then
        SurfaceParams.updateParams { s with
          addr := s.mipmapOffsets level + a / rowBytes s level * rowBytes s level
          width := usedColumns s level * s.tiledSize
          stride := columns s level * s.tiledSize
          height := ((b - 1) / rowBytes s level - a / rowBytes s level + 1) * s.tiledSize
          levels := 1 }
      else
        SurfaceParams.updateParams { s with
          addr := s.mipmapOffsets level + a / tileBytes s * tileBytes s
          width := ((b - 1) / tileBytes s - a / tileBytes s + 1) * s.tiledSize
          stride := ((b - 1) / tileBytes s - a / tileBytes s + 1) * s.tiledSize
          height := (0 + 1) * s.tiledSize
          levels := 1 } := by
  have hrow := rowBytes_pos hvalid hlevel
  have htile := tileBytes_pos hvalid
  obtain ⟨haddr, hend, hword⟩ := level_le_upper hvalid hlevel
  have hlevelOf : s.levelOf (s.mipmapOffsets level + a) = level :=
    levelOf_eq hvalid hlevel (by omega) (by omega)
  have hsingle : level = s.levelOf (s.mipmapOffsets level + b) ∨
      s.mipmapOffsets level + b = s.upper ∨
        s.mipmapOffsets level + b = s.mipmapOffsets (level + 1) := by
    by_cases hlt : b < levelBytes s level
    · exact Or.inl (levelOf_eq hvalid hlevel (by omega) (by omega)).symm
    · obtain rfl : b = levelBytes s level := by omega
      exact Or.inr (upper_or_next hvalid hlevel)
  have hrows := lastRow_lt hvalid hlevel hab hb
  have hfirst : a / rowBytes s level ≤ (b - 1) / rowBytes s level := firstRow_le hab
  have hfit := rows_fit hvalid hlevel hrows
  have hlower : u32Sub (s.mipmapOffsets level + a) (s.mipmapOffsets level) = a := by
    rw [u32Sub_of_le (by omega) (by omega), Nat.add_sub_cancel_left]
  have hupper : u32Sub (s.mipmapOffsets level + b) (s.mipmapOffsets level) = b := by
    rw [u32Sub_of_le (by omega) (by omega), Nat.add_sub_cancel_left]
  have hbits := level_fits hvalid hlevel
  have hlevelBytes := levelBytes_le hvalid hlevel
  have hcolumn : tileBytes s ≤ rowBytes s level :=
    Nat.le_mul_of_pos_left _ (columns_pos hvalid hlevel)
  have hrowLe : rowBytes s level ≤ rows s level * rowBytes s level :=
    Nat.le_mul_of_pos_left _ (rows_pos hvalid hlevel)
  have hstart : a / rowBytes s level * rowBytes s level ≤ a := Nat.div_mul_le_self _ _
  have htileStart : a / tileBytes s * tileBytes s ≤ a := Nat.div_mul_le_self _ _
  unfold SurfaceParams.fromInterval
  dsimp only
  rw [hlevelOf, assert, if_pos hsingle, ok_bind, assert, if_pos (stride_or_first hvalid hlevel),
    ok_bind, strideTiledBytes_eq hvalid hlevel, hlower, hupper, tiledAlignment_eq, alignDown_eq,
    alignDown_eq, alignUp_last (by omega) hrow (by omega),
    alignUp_last (by omega) htile (by omega), aligned_sub hfirst (by omega), ← usedColumns_mul hvalid hlevel]
  by_cases hmany : a / rowBytes s level < (b - 1) / rowBytes s level
  · have hlonger : ((b - 1) / rowBytes s level - a / rowBytes s level + 1) * rowBytes s level >
        rowBytes s level :=
      lt_mul_of_one_lt_left hrow (Nat.lt_add_of_pos_left (Nat.sub_pos_of_lt hmany))
    rw [if_pos hlonger, if_pos hmany, rowBytes_div hvalid hlevel, u32_of_lt (by omega),
      columns_mul hvalid hlevel]
  · have hone : (b - 1) / rowBytes s level - a / rowBytes s level + 1 = 1 := by omega
    have htileEnd := tileEnd_le hvalid hab hb
    have htiles : a / tileBytes s ≤ (b - 1) / tileBytes s := Nat.div_le_div_right (by omega)
    have hcount : ((b - 1) / tileBytes s - a / tileBytes s + 1) * (tileBytes s * 8) < 2 ^ 32 := by
      have hmul : ((b - 1) / tileBytes s - a / tileBytes s + 1) * tileBytes s ≤
          ((b - 1) / tileBytes s + 1) * tileBytes s :=
        Nat.mul_le_mul_right _ (Nat.add_le_add_right (Nat.sub_le _ _) 1)
      rw [← Nat.mul_assoc]
      omega
    rw [hone, Nat.one_mul, if_neg (Nat.lt_irrefl _), if_neg hmany, assert, if_pos rfl, ok_bind,
      aligned_sub htiles (by omega), pixels_tiles hvalid hcount, ← Nat.mul_assoc,
      Nat.mul_div_cancel _ (tiledSize_pos s), u32_of_lt (by omega), Nat.zero_add, Nat.one_mul]

/-- The end of the pixels of a row. -/
theorem rowEnd_le {n : ℕ} (hn : n < rows s level) :
    n * rowBytes s level + usedBytes s level ≤ levelBytes s level := by
  have hmul : n * rowBytes s level ≤ (rows s level - 1) * rowBytes s level :=
    Nat.mul_le_mul_right _ (by omega)
  unfold levelBytes
  rw [Nat.mul_comm (rowBytes s level)]
  omega

/-- What is made from an interval of many rows. -/
theorem fromInterval_rows (hvalid : ValidSurface s) (hlevel : level < s.levels) (hab : a < b)
    (hb : b ≤ levelBytes s level)
    (hmany : a / rowBytes s level < (b - 1) / rowBytes s level) :
    ∃ sub, s.fromInterval ⟨s.mipmapOffsets level + a, s.mipmapOffsets level + b⟩ = .ok sub ∧
      sub.addr = s.mipmapOffsets level + a / rowBytes s level * rowBytes s level ∧
      sub.upper = s.mipmapOffsets level +
        ((b - 1) / rowBytes s level * rowBytes s level + usedBytes s level) ∧
      sub.width = usedColumns s level * s.tiledSize ∧
      sub.height = ((b - 1) / rowBytes s level - a / rowBytes s level + 1) * s.tiledSize := by
  have hrows := lastRow_lt hvalid hlevel hab hb
  obtain ⟨-, hend, hword⟩ := level_le_upper hvalid hlevel
  have hrowEnd := rowEnd_le hrows
  obtain ⟨gap, hgap⟩ := Nat.exists_eq_add_of_lt hmany
  have hdiff : (b - 1) / rowBytes s level - a / rowBytes s level = gap + 1 := by omega
  have hbytes : (columns s level * (gap + 1) + usedColumns s level) * tileBytes s =
      (gap + 1) * rowBytes s level + usedBytes s level := by
    unfold rowBytes usedBytes
    ring
  have hsum : a / rowBytes s level * rowBytes s level + (gap + 1) * rowBytes s level =
      (b - 1) / rowBytes s level * rowBytes s level := by
    rw [← Nat.add_mul, hgap, Nat.add_assoc]
  have hfit : (columns s level * (gap + 1) + usedColumns s level) * (tileBytes s * 8) <
      2 ^ 32 := by
    have hbits := level_fits hvalid hlevel
    have hle := levelBytes_le hvalid hlevel
    rw [← Nat.mul_assoc, hbytes]
    omega
  have hrowsLt : gap + 1 + 1 < 2 ^ 32 := by
    have hlt := rows_lt hvalid hlevel
    have hfirst := Nat.zero_le (a / rowBytes s level)
    omega
  obtain ⟨sub, hsub, haddr, hupper, hwidth, hheight⟩ := updateParams_oneLevel hvalid
    (s.mipmapOffsets level + a / rowBytes s level * rowBytes s level)
    (columns_pos hvalid hlevel) hrowsLt hfit
  refine ⟨sub, ?_, haddr, ?_, hwidth, ?_⟩
  · rw [fromInterval_aligned hvalid hlevel hab hb, if_pos hmany, hdiff]
    exact hsub
  · rw [hupper, hbytes, Nat.add_assoc, ← Nat.add_assoc (a / rowBytes s level * rowBytes s level),
      hsum, u32_of_lt (by omega)]
  · rw [hheight, hdiff]

/-- What is made from an interval of one row. -/
theorem fromInterval_row (hvalid : ValidSurface s) (hlevel : level < s.levels) (hab : a < b)
    (hb : b ≤ levelBytes s level)
    (hone : a / rowBytes s level = (b - 1) / rowBytes s level) :
    ∃ sub, s.fromInterval ⟨s.mipmapOffsets level + a, s.mipmapOffsets level + b⟩ = .ok sub ∧
      sub.addr = s.mipmapOffsets level + a / tileBytes s * tileBytes s ∧
      sub.upper = s.mipmapOffsets level + ((b - 1) / tileBytes s + 1) * tileBytes s ∧
      sub.width = ((b - 1) / tileBytes s - a / tileBytes s + 1) * s.tiledSize ∧
      sub.height = s.tiledSize := by
  obtain ⟨-, hend, hword⟩ := level_le_upper hvalid hlevel
  have htileEnd := tileEnd_le hvalid hab hb
  have htiles : a / tileBytes s ≤ (b - 1) / tileBytes s := Nat.div_le_div_right (by omega)
  obtain ⟨count, hcount⟩ := Nat.exists_eq_add_of_le htiles
  have hdiff : (b - 1) / tileBytes s - a / tileBytes s = count := by omega
  have hsum : a / tileBytes s * tileBytes s + (count + 1) * tileBytes s =
      ((b - 1) / tileBytes s + 1) * tileBytes s := by
    rw [← Nat.add_mul, hcount, Nat.add_assoc]
  have hfit : ((count + 1) * 0 + (count + 1)) * (tileBytes s * 8) < 2 ^ 32 := by
    have hbits := level_fits hvalid hlevel
    have hle := levelBytes_le hvalid hlevel
    rw [Nat.mul_zero, Nat.zero_add, ← Nat.mul_assoc]
    omega
  obtain ⟨sub, hsub, haddr, hupper, hwidth, hheight⟩ := updateParams_oneLevel hvalid
    (s.mipmapOffsets level + a / tileBytes s * tileBytes s)
    (Nat.succ_pos count) (by decide) hfit
  refine ⟨sub, ?_, haddr, ?_, ?_, ?_⟩
  · rw [fromInterval_aligned hvalid hlevel hab hb, if_neg (by omega), hdiff]
    exact hsub
  · rw [hupper, Nat.mul_zero, Nat.zero_add, Nat.add_assoc, hsum, u32_of_lt (by omega)]
  · rw [hwidth, hdiff]
  · rw [hheight, Nat.zero_add, Nat.one_mul]

/-- The row of a tile. -/
theorem div_rowBytes (a : ℕ) :
    a / rowBytes s level = a / tileBytes s / columns s level := by
  unfold rowBytes
  rw [Nat.mul_comm, Nat.div_div_eq_div_mul]

theorem row_of_rowEnd (hvalid : ValidSurface s) (hlevel : level < s.levels) (n : ℕ) :
    (n * rowBytes s level + usedBytes s level - 1) / rowBytes s level = n := by
  have hpos := usedBytes_pos hvalid hlevel
  have hle : usedBytes s level ≤ rowBytes s level := usedBytes_le hvalid
  rw [Nat.add_sub_assoc hpos, Nat.add_comm, Nat.add_mul_div_right _ _ (rowBytes_pos hvalid hlevel),
    Nat.div_eq_of_lt (by omega), Nat.zero_add]

theorem tile_of_tileEnd (hvalid : ValidSurface s) (n : ℕ) :
    ((n + 1) * tileBytes s - 1) / tileBytes s = n := by
  have hpos := tileBytes_pos hvalid
  rw [Nat.add_mul, Nat.one_mul, Nat.add_sub_assoc hpos, Nat.add_comm,
    Nat.add_mul_div_right _ _ hpos, Nat.div_eq_of_lt (by omega), Nat.zero_add]

theorem row_corresponds (hvalid : ValidSurface s) (hlevel : level < s.levels) (hab : a < b)
    (hb : b ≤ levelBytes s level) (hone : a / rowBytes s level = (b - 1) / rowBytes s level) :
    IntervalCorresponds s level ⟨s.mipmapOffsets level + a, s.mipmapOffsets level + b⟩ := by
  have htile := tileBytes_pos hvalid
  obtain ⟨sub, hsub, haddr, hupper, -⟩ := fromInterval_row hvalid hlevel hab hb hone
  have hstart : a / tileBytes s * tileBytes s ≤ a := Nat.div_mul_le_self _ _
  have hsplit := Nat.div_add_mod' (b - 1) (tileBytes s)
  have hmod := Nat.mod_lt (b - 1) htile
  have hend : b ≤ ((b - 1) / tileBytes s + 1) * tileBytes s := by
    rw [Nat.add_mul, Nat.one_mul]
    omega
  have htileEnd := tileEnd_le hvalid hab hb
  have hinterval : sub.getInterval = ⟨s.mipmapOffsets level + a / tileBytes s * tileBytes s,
      s.mipmapOffsets level + ((b - 1) / tileBytes s + 1) * tileBytes s⟩ := by
    rw [← haddr, ← hupper]
    rfl
  have hfirst : a / tileBytes s * tileBytes s / tileBytes s = a / tileBytes s :=
    Nat.mul_div_cancel _ htile
  have hlast := tile_of_tileEnd hvalid ((b - 1) / tileBytes s)
  have hsame : a / tileBytes s * tileBytes s / rowBytes s level =
      (((b - 1) / tileBytes s + 1) * tileBytes s - 1) / rowBytes s level := by
    rw [div_rowBytes, div_rowBytes (_ - 1), hfirst, hlast, ← div_rowBytes, ← div_rowBytes, hone]
  obtain ⟨again, hagain, haddr', hupper', -⟩ :=
    fromInterval_row hvalid hlevel (by omega) htileEnd hsame
  refine ⟨sub, hsub, ⟨by dsimp only; omega, by dsimp only; omega⟩, ?_, again, ?_, ?_⟩
  · rw [hinterval, inLevel_iff hvalid hlevel]
    dsimp only
    omega
  · rw [hinterval]
    exact hagain
  · rw [hinterval]
    unfold SurfaceParams.getInterval
    rw [haddr', hupper', hfirst, hlast]

theorem rows_correspond_iff (hvalid : ValidSurface s) (hlevel : level < s.levels) (hab : a < b)
    (hb : b ≤ levelBytes s level) (hmany : a / rowBytes s level < (b - 1) / rowBytes s level) :
    IntervalCorresponds s level ⟨s.mipmapOffsets level + a, s.mipmapOffsets level + b⟩ ↔
      (b - 1) % rowBytes s level < usedBytes s level := by
  have hrow := rowBytes_pos hvalid hlevel
  obtain ⟨sub, hsub, haddr, hupper, -⟩ := fromInterval_rows hvalid hlevel hab hb hmany
  have hstart : a / rowBytes s level * rowBytes s level ≤ a := Nat.div_mul_le_self _ _
  have hsplit := Nat.div_add_mod' (b - 1) (rowBytes s level)
  have hrows := lastRow_lt hvalid hlevel hab hb
  have hrowEnd := rowEnd_le hrows
  have hinterval : sub.getInterval = ⟨s.mipmapOffsets level +
      a / rowBytes s level * rowBytes s level, s.mipmapOffsets level +
        ((b - 1) / rowBytes s level * rowBytes s level + usedBytes s level)⟩ := by
    rw [← haddr, ← hupper]
    rfl
  constructor
  · rintro ⟨sub', hsub', ⟨-, hcontains⟩, -⟩
    obtain rfl := Except.ok.inj (hsub.symm.trans hsub')
    dsimp only at hcontains
    omega
  · intro hpixels
    have hfirst : a / rowBytes s level * rowBytes s level / rowBytes s level =
        a / rowBytes s level := Nat.mul_div_cancel _ hrow
    have hlast := row_of_rowEnd hvalid hlevel ((b - 1) / rowBytes s level)
    have hmore : a / rowBytes s level * rowBytes s level <
        (b - 1) / rowBytes s level * rowBytes s level + usedBytes s level := by omega
    obtain ⟨again, hagain, haddr', hupper', -⟩ := fromInterval_rows hvalid hlevel hmore hrowEnd
      (by rw [hfirst, hlast]; exact hmany)
    refine ⟨sub, hsub, ⟨by dsimp only; omega, by dsimp only; omega⟩, ?_, again, ?_, ?_⟩
    · rw [hinterval, inLevel_iff hvalid hlevel]
      dsimp only
      omega
    · rw [hinterval]
      exact hagain
    · rw [hinterval]
      unfold SurfaceParams.getInterval
      rw [haddr', hupper', hfirst, hlast]

/-- An interval corresponds to what is made from it where its last byte has pixels, or lies in the
row of the first. -/
theorem intervalCorresponds_iff (hvalid : ValidSurface s) (h : InLevel s level interval) :
    IntervalCorresponds s level interval ↔ EndsInPixels s level interval := by
  have hlevel := level_of_inLevel h
  obtain ⟨hlower, hsome, hupper⟩ := (inLevel_iff hvalid hlevel).mp h
  obtain ⟨a, ha⟩ := Nat.exists_eq_add_of_le hlower
  obtain ⟨b, hb⟩ := Nat.exists_eq_add_of_le (Nat.le_trans hlower (Nat.le_of_lt hsome))
  have hinterval : interval = ⟨s.mipmapOffsets level + a, s.mipmapOffsets level + b⟩ := by
    rw [← ha, ← hb]
  have hfirst : interval.lower - s.mipmapOffsets level = a := by omega
  have hlast : interval.upper - 1 - s.mipmapOffsets level = b - 1 := by omega
  have hsmall : ∀ n ≤ columns s level, n * (tileBytes s * 8) < 2 ^ 32 := fun n hn =>
    tiles_fit hvalid hlevel (Nat.le_trans hn (Nat.le_mul_of_pos_left _ (rows_pos hvalid hlevel)))
  have hrowBytes : s.bytesInPixels ((s.stride >>> level) * s.tiledSize) = rowBytes s level := by
    rw [← columns_mul hvalid hlevel, Nat.mul_assoc, bytes_tiles hvalid (hsmall _ (Nat.le_refl _))]
    rfl
  have husedBytes : s.bytesInPixels ((s.width >>> level) * s.tiledSize) = usedBytes s level := by
    rw [← usedColumns_mul hvalid hlevel, Nat.mul_assoc,
      bytes_tiles hvalid (hsmall _ (usedColumns_le hvalid))]
    rfl
  unfold EndsInPixels
  dsimp only
  rw [hfirst, hlast, hrowBytes, husedBytes, hinterval]
  by_cases hone : a / rowBytes s level = (b - 1) / rowBytes s level
  · exact iff_of_true (row_corresponds hvalid hlevel (by omega) (by omega) hone) (Or.inl hone)
  · have hle : a / rowBytes s level ≤ (b - 1) / rowBytes s level := firstRow_le (by omega)
    rw [rows_correspond_iff hvalid hlevel (by omega) (by omega) (Nat.lt_of_le_of_ne hle hone),
      or_iff_right hone]

/-! ## Rectangles -/

theorem absSub_right {x y : ℕ} (hlt : x < y) (hy : y < 2 ^ 31) : Rectangle.absSub y x = y - x := by
  unfold Rectangle.absSub
  rw [u32Sub_of_le (by omega) (by omega), if_pos (by omega)]

theorem absSub_left {x y : ℕ} (hlt : x < y) (hy : y < 2 ^ 31) : Rectangle.absSub x y = y - x := by
  have hwrapped : ¬ u32Sub x y < 2 ^ 31 := by
    unfold u32Sub u32
    omega
  unfold Rectangle.absSub
  rw [if_neg hwrapped, u32Sub_of_le (by omega) (by omega)]

/-- The rectangle of a surface that begins with a tile of the level. -/
theorem getSubRect_eq (hvalid : ValidSurface s) (hlevel : level < s.levels) {sub : SurfaceParams}
    {row column : ℕ} (hrow : row < rows s level) (hcolumn : column < columns s level)
    (haddr : sub.addr =
      s.mipmapOffsets level + (row * columns s level + column) * tileBytes s)
    (hlt : (row * columns s level + column) * tileBytes s < levelBytes s level) :
    s.getSubRect sub = .ok (if s.isTiled then
        ⟨column * 8, u32Sub (s.height >>> level) (row * 8), u32 (column * 8 + sub.width),
          u32Sub (s.height >>> level) (u32 (row * 8 + sub.height))⟩
      else ⟨column, u32 (row + sub.height), u32 (column + sub.width), row⟩) := by
  obtain ⟨-, hend, hword⟩ := level_le_upper hvalid hlevel
  have hlevelOf : s.levelOf sub.addr = level := by
    rw [haddr]
    exact levelOf_eq hvalid hlevel (by omega) (by omega)
  have hbegin : u32Sub sub.addr (s.mipmapOffsets level) =
      (row * columns s level + column) * tileBytes s := by
    rw [haddr, u32Sub_of_le (by omega) (by omega), Nat.add_sub_cancel_left]
  have htiles : row * columns s level + column ≤ rows s level * columns s level := by
    have hmul := Nat.mul_le_mul_right (columns s level) (Nat.succ_le_of_lt hrow)
    rw [Nat.succ_mul] at hmul
    omega
  unfold SurfaceParams.getSubRect
  dsimp only
  rw [hlevelOf, hbegin, pixels_tiles hvalid (tiles_fit hvalid hlevel htiles), assert,
    if_pos (stride_or_first hvalid hlevel), ok_bind, ← columns_mul hvalid hlevel]
  have hmod : (row * columns s level + column) % columns s level = column := by
    rw [Nat.mul_add_mod_self_right, Nat.mod_eq_of_lt hcolumn]
  have hdiv : (row * columns s level + column) / columns s level = row := by
    rw [Nat.add_comm, Nat.add_mul_div_right _ _ (by omega), Nat.div_eq_of_lt hcolumn,
      Nat.zero_add]
  have hwidth : columns s level * s.tiledSize * s.tiledSize < 2 ^ 32 := by
    have hbits := tiles_fit hvalid hlevel
      (Nat.le_mul_of_pos_left (columns s level) (rows_pos hvalid hlevel))
    rw [tileBytes_mul hvalid, ← Nat.mul_assoc, ← Nat.mul_assoc] at hbits
    exact Nat.lt_of_le_of_lt (Nat.le_mul_of_pos_right _ (bpp_pos _)) hbits
  have hrowWord : row * s.tiledSize < 2 ^ 32 := by
    have hmul := Nat.mul_le_mul_right s.tiledSize (Nat.le_of_lt hrow)
    have hheight := shiftRight_le_self s.height level
    have hsmall := (sides_small hvalid).2
    have hle := Nat.le_mul_of_pos_right s.height (tiledSize_pos s)
    rw [rows_mul hvalid hlevel] at hmul
    omega
  unfold SurfaceParams.tiledSize at hwidth hrowWord ⊢
  cases htiled : s.isTiled with
  | true =>
    simp only [htiled, if_true] at hwidth hrowWord ⊢
    rw [u32_of_lt hwidth, Nat.mul_assoc (columns s level), Nat.mul_mod_mul_right, hmod,
      Nat.mul_div_mul_right _ _ (by decide), hdiv, ← Nat.mul_assoc,
      Nat.mul_div_cancel _ (by decide), u32_of_lt hrowWord]
    rfl
  | false =>
    simp only [Bool.false_eq_true, if_false, Nat.mul_one]
    rw [hmod, hdiv]
    rfl

/-- Some tiles of a level up to the pixels of a row. -/
theorem tiles_le_level {row column : ℕ} (hrow : row < rows s level)
    (hcolumn : column ≤ usedColumns s level) :
    (row * columns s level + column) * tileBytes s ≤ levelBytes s level := by
  refine Nat.le_trans ?_ (rowEnd_le hrow)
  unfold rowBytes usedBytes
  rw [Nat.add_mul, Nat.mul_assoc]
  exact Nat.add_le_add_left (Nat.mul_le_mul_right _ hcolumn) _

/-- The interval between two tiles, as `GetSubRectInterval` computes it. -/
theorem interval_of_tiles (hvalid : ValidSurface s) (hlevel : level < s.levels)
    (first last left right : ℕ) (hrows : first ≤ last) (hlast : last < rows s level)
    (hcolumns : left ≤ right) (hright : right ≤ usedColumns s level) :
    (⟨u32 (s.mipmapOffsets level + s.bytesInPixels
        (u32 (columns s level * (s.tiledSize * s.tiledSize) * first +
          left * (s.tiledSize * s.tiledSize)))),
      u32 (s.mipmapOffsets level + s.bytesInPixels
        (u32 (u32 (columns s level * (s.tiledSize * s.tiledSize) * first +
            left * (s.tiledSize * s.tiledSize)) +
          u32 (u32Sub (last - first + 1) 1 * (columns s level * (s.tiledSize * s.tiledSize)) +
            (right * (s.tiledSize * s.tiledSize) - left * (s.tiledSize * s.tiledSize))))))⟩ :
      SurfaceInterval) =
    ⟨s.mipmapOffsets level + (first * columns s level + left) * tileBytes s,
      s.mipmapOffsets level + (last * columns s level + right) * tileBytes s⟩ := by
  obtain ⟨-, hend, hword⟩ := level_le_upper hvalid hlevel
  have hupper := tiles_le_level hlast hright
  have hlower := tiles_le_level (Nat.lt_of_le_of_lt hrows hlast)
    (Nat.le_trans hcolumns hright)
  have hcount : last * columns s level + right ≤ rows s level * columns s level := by
    have hmul := Nat.mul_le_mul_right (columns s level) (Nat.succ_le_of_lt hlast)
    have hused : usedColumns s level ≤ columns s level := usedColumns_le hvalid
    rw [Nat.succ_mul] at hmul
    omega
  have hfirst : first * columns s level ≤ last * columns s level := Nat.mul_le_mul_right _ hrows
  have hfit := tiles_fit hvalid hlevel hcount
  have hfitFirst : (first * columns s level + left) * (tileBytes s * 8) < 2 ^ 32 :=
    tiles_fit hvalid hlevel (by omega)
  have hpixels : ∀ n, n * (tileBytes s * 8) < 2 ^ 32 →
      n * (s.tiledSize * s.tiledSize) < 2 ^ 32 := by
    intro n hn
    rw [tileBytes_mul hvalid, ← Nat.mul_assoc] at hn
    exact Nat.lt_of_le_of_lt (Nat.le_mul_of_pos_right _ (bpp_pos _)) hn
  have hoffset : columns s level * (s.tiledSize * s.tiledSize) * first +
      left * (s.tiledSize * s.tiledSize) =
        (first * columns s level + left) * (s.tiledSize * s.tiledSize) := by ring
  have hrowsLt := rows_lt hvalid hlevel
  obtain ⟨more, rfl⟩ := Nat.exists_eq_add_of_le hrows
  obtain ⟨wide, rfl⟩ := Nat.exists_eq_add_of_le hcolumns
  have hheight : u32Sub (first + more - first + 1) 1 = more := by
    rw [u32Sub_of_le (by omega) (by omega)]
    omega
  have hlength : more * (columns s level * (s.tiledSize * s.tiledSize)) +
      ((left + wide) * (s.tiledSize * s.tiledSize) - left * (s.tiledSize * s.tiledSize)) =
        (more * columns s level + wide) * (s.tiledSize * s.tiledSize) := by
    rw [← Nat.sub_mul, Nat.add_sub_cancel_left]
    ring
  have hsum : (first * columns s level + left) * (s.tiledSize * s.tiledSize) +
      (more * columns s level + wide) * (s.tiledSize * s.tiledSize) =
        ((first + more) * columns s level + (left + wide)) * (s.tiledSize * s.tiledSize) := by
    ring
  have hall := hpixels _ hfit
  have hbegin := hpixels _ hfitFirst
  rw [hheight, hoffset, hlength, u32_of_lt hbegin, u32_of_lt (by omega : (more * columns s level +
    wide) * (s.tiledSize * s.tiledSize) < 2 ^ 32), hsum, u32_of_lt hall, bytes_tiles hvalid hfit,
    bytes_tiles hvalid hfitFirst, u32_of_lt (by omega), u32_of_lt (by omega)]

/-- The sides of a rectangle are small. -/
theorem rect_small (hvalid : ValidSurface s) (hrect : RectOf s level rect) :
    rect.right * s.tiledSize < 2 ^ 30 ∧ rect.top * s.tiledSize < 2 ^ 30 := by
  obtain ⟨hstride, hheight⟩ := sides_small hvalid
  have hright : rect.right ≤ s.stride :=
    Nat.le_trans hrect.right_le (Nat.le_trans (shiftRight_le_self _ _) hvalid.width_le)
  have htop : rect.top ≤ s.height := Nat.le_trans hrect.top_le (shiftRight_le_self _ _)
  exact ⟨Nat.lt_of_le_of_lt (Nat.mul_le_mul_right _ hright) hstride,
    Nat.lt_of_le_of_lt (Nat.mul_le_mul_right _ htop) hheight⟩

theorem getSubRectInterval_linear (hvalid : ValidSurface s) (hrect : RectOf s level rect)
    (htiled : s.isTiled = false) : s.getSubRectInterval rect level =
      ⟨s.mipmapOffsets level + (rect.bottom * columns s level + rect.left) * tileBytes s,
        s.mipmapOffsets level + ((rect.top - 1) * columns s level + rect.right) * tileBytes s⟩ := by
  have hside : s.tiledSize = 1 := by
    unfold SurfaceParams.tiledSize
    simp [htiled]
  obtain ⟨hright, htop⟩ := rect_small hvalid hrect
  have hcolumns := columns_mul hvalid hrect.level_lt
  have hused := usedColumns_mul hvalid hrect.level_lt
  have hrows := rows_mul hvalid hrect.level_lt
  rw [hside, Nat.mul_one] at hright htop hcolumns hused hrows
  have hleft := hrect.left_lt
  have hbottom := hrect.bottom_lt
  have hrightLe := hrect.right_le
  have htopLe := hrect.top_le
  have hheight : rect.getHeight = rect.top - rect.bottom := absSub_left hbottom (by omega)
  have hwidth : rect.getWidth = rect.right - rect.left := absSub_right hleft (by omega)
  have htiles := interval_of_tiles hvalid hrect.level_lt
    rect.bottom (rect.top - 1) rect.left rect.right (by omega) (by omega) (Nat.le_of_lt hleft)
    (by omega)
  have hlast : rect.top - 1 - rect.bottom + 1 = rect.top - rect.bottom := by omega
  rw [hside, hlast] at htiles
  simp only [Nat.mul_one] at htiles
  unfold SurfaceParams.getSubRectInterval
  rw [if_neg (by rw [hheight, hwidth]; omega)]
  simp only [htiled, Bool.false_eq_true, if_false]
  rw [hheight, hwidth, ← hcolumns]
  exact htiles

/-- A rectangle of tiles. -/
theorem rect_tiles (hrect : RectOf s level rect) (htiled : s.isTiled = true) :
    rect.left / 8 * 8 = rect.left ∧ rect.right / 8 * 8 = rect.right ∧
      rect.bottom / 8 * 8 = rect.bottom ∧ rect.top / 8 * 8 = rect.top := by
  obtain ⟨hleft, hright, hbottom, htop⟩ := hrect.tiles htiled
  exact ⟨Nat.div_mul_cancel hleft, Nat.div_mul_cancel hright, Nat.div_mul_cancel hbottom,
    Nat.div_mul_cancel htop⟩

theorem alignUp_self {x : ℕ} (h : 8 ∣ x) : alignUp x 8 = x := if_pos (Nat.mod_eq_zero_of_dvd h)

theorem alignDown_self {x : ℕ} (h : 8 ∣ x) : alignDown x 8 = x := by
  unfold alignDown
  rw [Nat.mod_eq_zero_of_dvd h, Nat.sub_zero]

theorem getSubRectInterval_tiled (hvalid : ValidSurface s) (hrect : RectOf s 0 rect)
    (htiled : s.isTiled = true) : s.getSubRectInterval rect 0 =
      ⟨s.mipmapOffsets 0 +
          ((rows s 0 - rect.top / 8) * columns s 0 + rect.left / 8) * tileBytes s,
        s.mipmapOffsets 0 +
          ((rows s 0 - rect.bottom / 8 - 1) * columns s 0 + rect.right / 8) * tileBytes s⟩ := by
  have hside : s.tiledSize = 8 := by
    unfold SurfaceParams.tiledSize
    simp [htiled]
  obtain ⟨hright, htop⟩ := rect_small hvalid hrect
  have hcolumns := columns_mul hvalid hrect.level_lt
  have hused := usedColumns_mul hvalid hrect.level_lt
  have hrows := rows_mul hvalid hrect.level_lt
  have hstride := (sides_small hvalid).1
  rw [hside] at hright htop hcolumns hused hrows hstride
  rw [Nat.shiftRight_zero] at hcolumns hused hrows
  obtain ⟨hleft8, hright8, hbottom8, htop8⟩ := rect_tiles hrect htiled
  obtain ⟨hleftDvd, hrightDvd, hbottomDvd, htopDvd⟩ := hrect.tiles htiled
  have hleft := hrect.left_lt
  have hbottom := hrect.bottom_lt
  have hrightLe := hrect.right_le
  have htopLe := hrect.top_le
  rw [Nat.shiftRight_zero] at hrightLe htopLe
  have hheight : rect.getHeight = rect.top - rect.bottom := absSub_left hbottom (by omega)
  have hwidth : rect.getWidth = rect.right - rect.left := absSub_right hleft (by omega)
  have htiles := interval_of_tiles hvalid hrect.level_lt
    (rows s 0 - rect.top / 8) (rows s 0 - rect.bottom / 8 - 1) (rect.left / 8) (rect.right / 8)
    (by omega) (by omega) (by omega) (by omega)
  unfold SurfaceParams.getSubRectInterval
  rw [if_neg (by rw [hheight, hwidth]; omega)]
  simp only [htiled, if_true]
  rw [alignDown_self hleftDvd, alignUp_self hrightDvd, alignDown_self hbottomDvd,
    alignUp_self htopDvd]
  have hrowsEq : s.height / 8 = rows s 0 := by
    rw [← hrows, Nat.mul_div_cancel _ (by decide)]
  have hword := rows_lt hvalid hrect.level_lt
  have htileHeight : Rectangle.getHeight ⟨u32 (rect.left * 8), rect.top / 8, u32 (rect.right * 8),
      rect.bottom / 8⟩ = rows s 0 - rect.bottom / 8 - 1 - (rows s 0 - rect.top / 8) + 1 := by
    have hsub : rect.top / 8 - rect.bottom / 8 =
        rows s 0 - rect.bottom / 8 - 1 - (rows s 0 - rect.top / 8) + 1 := by omega
    rw [← hsub]
    exact absSub_left (by dsimp only; omega) (by dsimp only; omega)
  have hleftTiles : u32 (rect.left * 8) = rect.left / 8 * (8 * 8) := by
    rw [u32_of_lt (by omega), ← Nat.mul_assoc, hleft8]
  have hrightTiles : u32 (rect.right * 8) = rect.right / 8 * (8 * 8) := by
    rw [u32_of_lt (by omega), ← Nat.mul_assoc, hright8]
  have htileWidth : Rectangle.getWidth ⟨u32 (rect.left * 8), rect.top / 8, u32 (rect.right * 8),
      rect.bottom / 8⟩ = rect.right / 8 * (8 * 8) - rect.left / 8 * (8 * 8) := by
    unfold Rectangle.getWidth
    dsimp only
    rw [hleftTiles, hrightTiles]
    exact absSub_right (by omega) (by omega)
  have hrowsSub : u32Sub (s.height / 8) (rect.top / 8) = rows s 0 - rect.top / 8 := by
    rw [hrowsEq, u32Sub_of_le (by omega) hword]
  have hstrideTiles : u32 (s.stride * 8) >>> 0 = columns s 0 * (8 * 8) := by
    rw [u32_of_lt (by omega), Nat.shiftRight_zero, ← hcolumns, Nat.mul_assoc]
  rw [hside] at htiles
  rw [htileHeight, htileWidth, hrowsSub, hleftTiles, hstrideTiles]
  exact htiles

/-- The row of tiles that the interval of a rectangle begins in, -/
def firstRow (s : SurfaceParams) (level : ℕ) (rect : Rectangle) : ℕ :=
  if s.isTiled then rows s level - rect.top / 8 else rect.bottom

/-- and the one that it ends in. -/
def lastRow (s : SurfaceParams) (level : ℕ) (rect : Rectangle) : ℕ :=
  if s.isTiled then rows s level - rect.bottom / 8 - 1 else rect.top - 1

theorem rect_rows (hvalid : ValidSurface s) (hrect : RectOf s level rect) :
    firstRow s level rect ≤ lastRow s level rect ∧ lastRow s level rect < rows s level ∧
      rect.left / s.tiledSize < rect.right / s.tiledSize ∧
        rect.right / s.tiledSize ≤ usedColumns s level := by
  have hrows := rows_mul hvalid hrect.level_lt
  have hbottom := hrect.bottom_lt
  have htop := hrect.top_le
  have hleft := hrect.left_lt
  have hright : rect.right / s.tiledSize ≤ usedColumns s level :=
    Nat.div_le_div_right hrect.right_le
  refine and_assoc.mp (and_assoc.mp ⟨?_, hright⟩)
  unfold firstRow lastRow
  unfold SurfaceParams.tiledSize at hrows ⊢
  cases htiled : s.isTiled with
  | true =>
    obtain ⟨hleft8, hright8, hbottom8, htop8⟩ := rect_tiles hrect htiled
    simp only [htiled, if_true] at hrows ⊢
    omega
  | false =>
    simp only [htiled, Bool.false_eq_true, if_false, Nat.mul_one, Nat.div_one] at hrows ⊢
    omega

theorem getSubRectInterval_eq (hvalid : ValidSurface s) (hrect : RectOf s level rect)
    (hfirst : s.isTiled = true → level = 0) : s.getSubRectInterval rect level =
      ⟨s.mipmapOffsets level + (firstRow s level rect * columns s level +
          rect.left / s.tiledSize) * tileBytes s,
        s.mipmapOffsets level + (lastRow s level rect * columns s level +
          rect.right / s.tiledSize) * tileBytes s⟩ := by
  unfold firstRow lastRow SurfaceParams.tiledSize
  cases htiled : s.isTiled with
  | true =>
    obtain rfl := hfirst htiled
    simp only [if_true]
    exact getSubRectInterval_tiled hvalid hrect htiled
  | false =>
    simp only [Bool.false_eq_true, if_false, Nat.div_one]
    exact getSubRectInterval_linear hvalid hrect htiled

/-- The order of tiles in the memory. -/
theorem tile_le {row row' column column' width : ℕ} (hrow : row ≤ row') (hcolumn : column ≤ width)
    (hsame : row = row' → column ≤ column') :
    row * width + column ≤ row' * width + column' := by
  rcases Nat.lt_or_eq_of_le hrow with hlt | heq
  · have hmul := Nat.mul_le_mul_right width (Nat.succ_le_of_lt hlt)
    rw [Nat.succ_mul] at hmul
    omega
  · rw [heq]
    exact Nat.add_le_add_left (hsame heq) _

/-- A pixel of a rectangle lies in its rows and columns of tiles. -/
theorem pixelPlace_eq (hvalid : ValidSurface s) (hrect : RectOf s level rect) {x y : ℕ}
    (hright : x < rect.right) (hbottom : rect.bottom ≤ y) (htop : y < rect.top) :
    ∃ row, firstRow s level rect ≤ row ∧ row ≤ lastRow s level rect ∧
      pixelPlace s level x y =
        ⟨s.mipmapOffsets level + (row * columns s level + x / s.tiledSize) * tileBytes s,
          s.mipmapOffsets level + (row * columns s level + x / s.tiledSize + 1) *
            tileBytes s⟩ := by
  have hlevel := hrect.level_lt
  have hrows := rows_mul hvalid hlevel
  have htopLe := hrect.top_le
  have hrightLe := hrect.right_le
  have hcolumn : x / s.tiledSize < columns s level := by
    refine Nat.lt_of_lt_of_le ?_ (usedColumns_le hvalid)
    rw [Nat.div_lt_iff_lt_mul (tiledSize_pos s), usedColumns_mul hvalid hlevel]
    omega
  have hbytes : ∀ row < rows s level, ∀ n ≤ row * columns s level + x / s.tiledSize + 1,
      s.bytesInPixels (n * (s.tiledSize * s.tiledSize)) = n * tileBytes s := by
    intro row hrow n hn
    have hmul := Nat.mul_le_mul_right (columns s level) (Nat.succ_le_of_lt hrow)
    rw [Nat.succ_mul] at hmul
    exact bytes_tiles hvalid (tiles_fit hvalid hlevel (by omega))
  have hstride := columns_mul hvalid hlevel
  unfold firstRow lastRow pixelPlace
  dsimp only
  cases htiled : s.isTiled with
  | true =>
    have hside : s.tiledSize = 8 := by
      unfold SurfaceParams.tiledSize
      simp [htiled]
    obtain ⟨-, -, hbottom8, htop8⟩ := rect_tiles hrect htiled
    rw [hside] at hrows hbytes hstride ⊢
    have hrowEq : (s.height >>> level - 1 - y) / 8 = rows s level - 1 - y / 8 := by
      omega
    have hcolumns : s.stride >>> level / 8 = columns s level := by
      rw [← hstride, Nat.mul_div_cancel _ (by decide)]
    have hrow : rows s level - 1 - y / 8 < rows s level := by omega
    refine ⟨rows s level - 1 - y / 8, ?_, ?_, ?_⟩
    · simp only [if_true]
      omega
    · simp only [if_true]
      omega
    · simp only [if_true]
      rw [hrowEq, hcolumns, hbytes _ hrow _ (Nat.le_succ _), hbytes _ hrow _ (Nat.le_refl _)]
  | false =>
    have hside : s.tiledSize = 1 := by
      unfold SurfaceParams.tiledSize
      simp [htiled]
    rw [hside] at hrows hbytes hstride ⊢
    simp only [Nat.mul_one, Nat.div_one] at hrows hbytes hstride ⊢
    simp only [Bool.false_eq_true, if_false]
    have hrow : y < rows s level := by omega
    refine ⟨y, hbottom, by omega, ?_⟩
    rw [← hstride, Nat.mul_comm (columns s level), hbytes y hrow _ (Nat.le_succ _),
      hbytes y hrow _ (Nat.le_refl _)]

theorem rect_within (hvalid : ValidSurface s) (hrect : RectOf s level rect)
    (hfirst : s.isTiled = true → level = 0) :
    InLevel s level (s.getSubRectInterval rect level) := by
  obtain ⟨hrows, hlast, hcolumns, hright⟩ := rect_rows hvalid hrect
  rw [getSubRectInterval_eq hvalid hrect hfirst, inLevel_iff hvalid hrect.level_lt]
  have hupper := tiles_le_level hlast hright
  have hused : usedColumns s level ≤ columns s level := usedColumns_le hvalid
  have hless : firstRow s level rect * columns s level + rect.left / s.tiledSize + 1 ≤
      lastRow s level rect * columns s level + rect.right / s.tiledSize := by
    rw [Nat.add_assoc]
    exact tile_le hrows (by omega) fun _ => hcolumns
  have hlt := Nat.mul_lt_mul_of_pos_right (Nat.lt_of_succ_le hless) (tileBytes_pos hvalid)
  dsimp only
  omega

theorem rect_covers (hvalid : ValidSurface s) (hrect : RectOf s level rect)
    (hfirst : s.isTiled = true → level = 0) (x y : ℕ) (hleft : rect.left ≤ x)
    (hright : x < rect.right) (hbottom : rect.bottom ≤ y) (htop : y < rect.top) :
    (s.getSubRectInterval rect level).lower ≤ (pixelPlace s level x y).lower ∧
      (pixelPlace s level x y).upper ≤ (s.getSubRectInterval rect level).upper := by
  obtain ⟨hrows, hlast, hcolumns, hrightLe⟩ := rect_rows hvalid hrect
  obtain ⟨row, hfirstRow, hlastRow, hplace⟩ := pixelPlace_eq hvalid hrect hright hbottom htop
  have hused : usedColumns s level ≤ columns s level := usedColumns_le hvalid
  have hcolumn : rect.left / s.tiledSize ≤ x / s.tiledSize := Nat.div_le_div_right hleft
  have hcolumnLt : x / s.tiledSize + 1 ≤ rect.right / s.tiledSize := by
    unfold SurfaceParams.tiledSize
    cases htiled : s.isTiled with
    | true =>
      obtain ⟨-, hright8, -⟩ := rect_tiles hrect htiled
      simp only [if_true]
      omega
    | false => simpa using Nat.succ_le_of_lt hright
  rw [hplace, getSubRectInterval_eq hvalid hrect hfirst]
  dsimp only
  have hlower : firstRow s level rect * columns s level + rect.left / s.tiledSize ≤
      row * columns s level + x / s.tiledSize := tile_le hfirstRow (by omega) fun _ => hcolumn
  have hupper : row * columns s level + (x / s.tiledSize + 1) ≤
      lastRow s level rect * columns s level + rect.right / s.tiledSize :=
    tile_le hlastRow (by omega) fun _ => hcolumnLt
  exact ⟨Nat.add_le_add_left (Nat.mul_le_mul_right _ hlower) _,
    Nat.add_le_add_left (Nat.mul_le_mul_right _ hupper) _⟩

/-- The rectangle of a surface that has the rows of the rectangle. -/
theorem outer_found (hvalid : ValidSurface s) (hrect : RectOf s level rect) {sub : SurfaceParams}
    {column width : ℕ} (hleft : column ≤ rect.left / s.tiledSize)
    (hright : rect.right / s.tiledSize ≤ column + width)
    (hwide : column + width ≤ usedColumns s level)
    (haddr : sub.addr = s.mipmapOffsets level +
      (firstRow s level rect * columns s level + column) * tileBytes s)
    (hwidth : sub.width = width * s.tiledSize)
    (hheight : sub.height =
      (lastRow s level rect - firstRow s level rect + 1) * s.tiledSize) :
    ∃ outer, s.getSubRect sub = .ok outer ∧ outer.left ≤ rect.left ∧
      rect.right ≤ outer.right ∧ outer.bottom ≤ rect.bottom ∧ rect.top ≤ outer.top := by
  obtain ⟨hrows, hlast, hcolumns, hrightLe⟩ := rect_rows hvalid hrect
  have hlevel := hrect.level_lt
  have hused : usedColumns s level ≤ columns s level := usedColumns_le hvalid
  have hbegin : (firstRow s level rect * columns s level + column) * tileBytes s <
      levelBytes s level := by
    refine Nat.lt_of_lt_of_le ?_ (tiles_le_level (Nat.lt_of_le_of_lt hrows hlast)
      (Nat.le_refl (usedColumns s level)))
    exact Nat.mul_lt_mul_of_pos_right (by omega) (tileBytes_pos hvalid)
  have houter := getSubRect_eq hvalid hlevel (Nat.lt_of_le_of_lt hrows hlast) (by omega) haddr
    hbegin
  refine ⟨_, houter, ?_⟩
  rw [hwidth, hheight]
  have hrowsEq := rows_mul hvalid hlevel
  have husedEq := usedColumns_mul hvalid hlevel
  have hwidthLe := hvalid.width_le
  have hstrideSmall := (sides_small hvalid).1
  have hheightSmall := (sides_small hvalid).2
  have hwidthShift := shiftRight_le_self s.width level
  have hheightShift := shiftRight_le_self s.height level
  have hbottom := hrect.bottom_lt
  have htop := hrect.top_le
  unfold firstRow lastRow SurfaceParams.tiledSize at *
  cases htiled : s.isTiled with
  | true =>
    obtain ⟨hleft8, hright8, hbottom8, htop8⟩ := rect_tiles hrect htiled
    simp only [htiled, if_true] at *
    rw [u32_of_lt (by omega), u32_of_lt (by omega), u32Sub_of_le (by omega) (by omega),
      u32Sub_of_le (by omega) (by omega)]
    omega
  | false =>
    simp only [htiled, Bool.false_eq_true, if_false, Nat.mul_one, Nat.div_one] at *
    rw [u32_of_lt (by omega), u32_of_lt (by omega)]
    omega

theorem rect_found (hvalid : ValidSurface s) (hrect : RectOf s level rect)
    (hfirst : s.isTiled = true → level = 0) :
    ∃ sub outer, s.fromInterval (s.getSubRectInterval rect level) = .ok sub ∧
      s.getSubRect sub = .ok outer ∧ outer.left ≤ rect.left ∧ rect.right ≤ outer.right ∧
        outer.bottom ≤ rect.bottom ∧ rect.top ≤ outer.top := by
  obtain ⟨hrows, hlast, hcolumns, hright⟩ := rect_rows hvalid hrect
  have hlevel := hrect.level_lt
  have hused : usedColumns s level ≤ columns s level := usedColumns_le hvalid
  have htile := tileBytes_pos hvalid
  have hupper := tiles_le_level hlast hright
  have hless : firstRow s level rect * columns s level + rect.left / s.tiledSize + 1 ≤
      lastRow s level rect * columns s level + rect.right / s.tiledSize := by
    rw [Nat.add_assoc]
    exact tile_le hrows (by omega) fun _ => hcolumns
  have hab := Nat.mul_lt_mul_of_pos_right (Nat.lt_of_succ_le hless) htile
  -- The tiles of the first and the last byte, and their rows.
  obtain ⟨lastColumn, hlastColumn⟩ := Nat.exists_eq_add_of_lt
    (Nat.lt_of_le_of_lt (Nat.zero_le _) hcolumns)
  rw [Nat.zero_add] at hlastColumn
  have hlastTile : ((lastRow s level rect * columns s level + rect.right / s.tiledSize) *
      tileBytes s - 1) / tileBytes s = lastRow s level rect * columns s level + lastColumn := by
    rw [hlastColumn, ← Nat.add_assoc]
    exact tile_of_tileEnd hvalid _
  have hfirstTile : (firstRow s level rect * columns s level + rect.left / s.tiledSize) *
      tileBytes s / tileBytes s =
        firstRow s level rect * columns s level + rect.left / s.tiledSize :=
    Nat.mul_div_cancel _ htile
  have hrowOf : ∀ row column, column < columns s level →
      (row * columns s level + column) / columns s level = row := by
    intro row column hcolumn
    rw [Nat.add_comm, Nat.add_mul_div_right _ _ (by omega), Nat.div_eq_of_lt hcolumn, Nat.zero_add]
  have hlastRow : ((lastRow s level rect * columns s level + rect.right / s.tiledSize) *
      tileBytes s - 1) / rowBytes s level = lastRow s level rect := by
    rw [div_rowBytes, hlastTile, hrowOf _ _ (by omega)]
  have hfirstRow : (firstRow s level rect * columns s level + rect.left / s.tiledSize) *
      tileBytes s / rowBytes s level = firstRow s level rect := by
    rw [div_rowBytes, hfirstTile, hrowOf _ _ (by omega)]
  rw [getSubRectInterval_eq hvalid hrect hfirst]
  rcases Nat.lt_or_eq_of_le hrows with hmany | hone
  · obtain ⟨sub, hsub, haddr, -, hwidth, hheight⟩ := fromInterval_rows hvalid hlevel hab hupper
      (by rw [hfirstRow, hlastRow]; exact hmany)
    rw [hfirstRow] at haddr
    rw [hfirstRow, hlastRow] at hheight
    have haddr' : sub.addr = s.mipmapOffsets level +
        (firstRow s level rect * columns s level + 0) * tileBytes s := by
      rw [haddr, Nat.add_zero, Nat.mul_assoc]
      rfl
    obtain ⟨outer, houter⟩ := outer_found hvalid hrect (Nat.zero_le _)
      (by omega : rect.right / s.tiledSize ≤ 0 + usedColumns s level) (by omega) haddr' hwidth
      hheight
    exact ⟨sub, outer, hsub, houter⟩
  · obtain ⟨sub, hsub, haddr, -, hwidth, hheight⟩ := fromInterval_row hvalid hlevel hab hupper
      (by rw [hfirstRow, hlastRow]; exact hone)
    rw [hfirstTile] at haddr
    rw [hfirstTile, hlastTile, ← hone] at hwidth
    have hwidth' : sub.width =
        (rect.right / s.tiledSize - rect.left / s.tiledSize) * s.tiledSize := by
      rw [hwidth]
      congr 1
      omega
    have hheight' : sub.height =
        (lastRow s level rect - firstRow s level rect + 1) * s.tiledSize := by
      rw [hheight, ← hone, Nat.sub_self, Nat.zero_add, Nat.one_mul]
    obtain ⟨outer, houter⟩ := outer_found hvalid hrect (Nat.le_refl _) (by omega)
      (by omega) haddr hwidth' hheight'
    exact ⟨sub, outer, hsub, houter⟩

/-- The tiles in front of the interval that is computed for a rectangle of a tiled level behind the
first are more than the level has. -/
theorem tiledLevel_offset (hvalid : ValidSurface s) (hrect : RectOf s level rect)
    (htiled : s.isTiled = true) (hlevel : level ≠ 0) :
    rows s level * columns s level * 64 ≤
        (s.stride * 8) >>> level * (s.height / 8 - rect.top / 8) + rect.left * 8 ∧
      (s.stride * 8) >>> level * (s.height / 8 - rect.top / 8) + rect.left * 8 ≤
        s.stride * s.height := by
  have hside : s.tiledSize = 8 := by
    unfold SurfaceParams.tiledSize
    simp [htiled]
  have hcolumns := columns_mul hvalid hrect.level_lt
  have hrows := rows_mul hvalid hrect.level_lt
  rw [hside] at hcolumns hrows
  obtain ⟨-, -, -, htop8⟩ := rect_tiles hrect htiled
  have htop := hrect.top_le
  have hbottom := hrect.bottom_lt
  have hleft := hrect.left_lt
  have hright := hrect.right_le
  obtain ⟨below, rfl⟩ := Nat.exists_eq_add_one_of_ne_zero hlevel
  have hhalf : ∀ n : ℕ, n >>> (below + 1) ≤ n / 2 := by
    intro n
    rw [Nat.shiftRight_succ]
    exact Nat.div_le_div_right (shiftRight_le_self n below)
  have hheightHalf := hhalf s.height
  have hwidthHalf := hhalf s.width
  have hstrideHalf := hhalf (s.stride * 8)
  have hwidthLe := hvalid.width_le
  have hstripe : columns s (below + 1) * 64 ≤ (s.stride * 8) >>> (below + 1) := by
    rw [Nat.shiftRight_eq_div_pow] at hcolumns ⊢
    rw [Nat.le_div_iff_mul_le (Nat.two_pow_pos _)]
    have hdiv := Nat.div_mul_le_self s.stride (2 ^ (below + 1))
    rw [← hcolumns] at hdiv
    calc columns s (below + 1) * 64 * 2 ^ (below + 1)
        = columns s (below + 1) * 8 * 2 ^ (below + 1) * 8 := by ring
      _ ≤ s.stride * 8 := Nat.mul_le_mul_right 8 hdiv
  constructor
  · calc rows s (below + 1) * columns s (below + 1) * 64
        = columns s (below + 1) * 64 * rows s (below + 1) := by ring
      _ ≤ (s.stride * 8) >>> (below + 1) * (s.height / 8 - rect.top / 8) :=
          Nat.mul_le_mul hstripe (by omega)
      _ ≤ _ := Nat.le_add_right _ _
  · have hstripes : (s.stride * 8) >>> (below + 1) * (s.height / 8 - rect.top / 8) ≤
        s.stride * 4 * (s.height / 8 - rect.top / 8) := Nat.mul_le_mul_right _ (by omega)
    have hlast : s.stride * 4 * (s.height / 8 - rect.top / 8 + 1) ≤ s.stride * s.height := by
      rw [Nat.mul_assoc]
      exact Nat.mul_le_mul_left _ (by omega)
    rw [Nat.mul_succ] at hlast
    omega

/-- In a level of a tiled surface behind the first the interval begins behind the level: the rows
are counted from the last one of the first level. -/
theorem not_within_tiledLevel (hvalid : ValidSurface s) (hrect : RectOf s level rect)
    (htiled : s.isTiled = true) (hlevel : level ≠ 0) :
    ¬ InLevel s level (s.getSubRectInterval rect level) := by
  intro hin
  obtain ⟨hlower, hsome, hupper⟩ := (inLevel_iff hvalid hrect.level_lt).mp hin
  obtain ⟨hbehind, hbounded⟩ := tiledLevel_offset hvalid hrect htiled hlevel
  have hside : s.tiledSize = 8 := by
    unfold SurfaceParams.tiledSize
    simp [htiled]
  obtain ⟨hrightSmall, htopSmall⟩ := rect_small hvalid hrect
  have hstrideSmall := (sides_small hvalid).1
  have hheightSmall := (sides_small hvalid).2
  have hlevelBytes := levelBytes_le hvalid hrect.level_lt
  have htileBytes := tileBytes_mul hvalid
  rw [hside] at hrightSmall htopSmall hstrideSmall hheightSmall htileBytes
  obtain ⟨hleftDvd, hrightDvd, hbottomDvd, htopDvd⟩ := hrect.tiles htiled
  have hleft := hrect.left_lt
  have hbottom := hrect.bottom_lt
  have htop := Nat.le_trans hrect.top_le (shiftRight_le_self s.height level)
  have hword := (level_le_upper hvalid hrect.level_lt).2
  have hheight : rect.getHeight = rect.top - rect.bottom := absSub_left hbottom (by omega)
  have hwidth : rect.getWidth = rect.right - rect.left := absSub_right hleft (by omega)
  -- How far behind the start of the level the interval begins.
  have hoffset : (s.getSubRectInterval rect level).lower = u32 (s.mipmapOffsets level +
      ((s.stride * 8) >>> level * (s.height / 8 - rect.top / 8) + rect.left * 8) *
        s.pixelFormat.bpp / 8) := by
    have hbits := Nat.mul_le_mul_right s.pixelFormat.bpp hbounded
    have hfits := hvalid.fits
    have harea : s.stride * s.height < 2 ^ 32 :=
      Nat.lt_of_le_of_lt (Nat.le_mul_of_pos_right _ (bpp_pos _)) hfits
    unfold SurfaceParams.getSubRectInterval
    rw [if_neg (by rw [hheight, hwidth]; omega)]
    simp only [htiled, if_true]
    rw [alignDown_self hleftDvd, alignUp_self htopDvd, u32_of_lt (x := rect.left * 8) (by omega),
      u32_of_lt (x := s.stride * 8) (by omega), u32Sub_of_le (by omega) (by omega)]
    unfold SurfaceParams.bytesInPixels
    rw [u32_of_lt (x := _ + rect.left * 8) (by omega), u32_of_lt (x := _ * s.pixelFormat.bpp)
      (by omega)]
  have hbits := Nat.mul_le_mul_right s.pixelFormat.bpp hbounded
  have hfits := hvalid.fits
  have hmore : levelBytes s level ≤
      ((s.stride * 8) >>> level * (s.height / 8 - rect.top / 8) + rect.left * 8) *
        s.pixelFormat.bpp / 8 := by
    refine Nat.le_trans hlevelBytes ?_
    rw [Nat.le_div_iff_mul_le (by decide)]
    calc rows s level * rowBytes s level * 8
        = rows s level * columns s level * (tileBytes s * 8) := by
          unfold rowBytes
          ring
      _ = rows s level * columns s level * 64 * s.pixelFormat.bpp := by
          rw [htileBytes]
          ring
      _ ≤ _ := Nat.mul_le_mul_right _ hbehind
  rw [hoffset] at hlower hsome
  unfold u32 at hlower hsome
  omega

/-- A rectangle corresponds to its interval, unless it is one of a level of a tiled surface behind
the first. -/
theorem rectCorresponds_iff (hvalid : ValidSurface s) (hrect : RectOf s level rect) :
    RectCorresponds s level rect ↔ (s.isTiled = true → level = 0) := by
  constructor
  · intro h htiled
    by_contra hlevel
    exact not_within_tiledLevel hvalid hrect htiled hlevel h.within
  · intro hfirst
    exact ⟨rect_within hvalid hrect hfirst, rect_covers hvalid hrect hfirst,
      rect_found hvalid hrect hfirst⟩

/-- Rectangles and intervals of a valid surface correspond exactly where the rectangle is not one
of a level of a tiled surface behind the first, and the interval does not end beside the pixels of
a row that it does not begin in. -/
theorem rects_and_intervals_iff (hvalid : ValidSurface s) :
    (∀ level rect, RectOf s level rect →
      (RectCorresponds s level rect ↔ (s.isTiled = true → level = 0))) ∧
    ∀ level interval, InLevel s level interval →
      (IntervalCorresponds s level interval ↔ EndsInPixels s level interval) :=
  ⟨fun _ _ hrect => rectCorresponds_iff hvalid hrect,
    fun _ _ hin => intervalCorresponds_iff hvalid hin⟩

/-- Two rows of four pixels that are eight pixels apart. -/
def linearSurface : SurfaceParams where
  addr := 0x18000000
  upper := 0x18000030
  size := 48
  width := 4
  height := 2
  stride := 8
  pixelFormat := .RGBA8
  mipmapOffsets := fun _ => 0x18000000

theorem validSurface_linearSurface : ValidSurface linearSurface where
  updated := by
    have hoffsets : Function.update linearSurface.mipmapOffsets 0 0x18000000 =
        linearSurface.mipmapOffsets := Function.update_eq_self _ _
    unfold SurfaceParams.updateParams
    rw [if_neg (by decide), if_neg (by decide)]
    change Except.ok { linearSurface with
      mipmapOffsets := Function.update linearSurface.mipmapOffsets 0 0x18000000 } = _
    rw [hoffsets]
  levels := by decide
  width_le := by decide
  pixels := by decide
  tiles := nofun
  wholeBytes := by decide
  fits := by decide
  inMemory := by decide

theorem rects_and_intervals_linearSurface :
    RectCorresponds linearSurface 0 ⟨0, 2, 4, 0⟩ ∧
      IntervalCorresponds linearSurface 0 ⟨0x18000004, 0x18000030⟩ := by
  have hvalid := validSurface_linearSurface
  refine ⟨((rects_and_intervals_iff hvalid).1 0 _ ⟨by decide, by decide, by decide, by decide,
    by decide, nofun⟩).mpr nofun, ((rects_and_intervals_iff hvalid).2 0 _ ?_).mpr ?_⟩
  · exact ⟨⟨0x18000000, 0x18000030⟩, rfl, by decide, by decide, by decide⟩
  · exact Or.inr (by decide)

/-- A tiled surface of two levels. -/
def mipmappedSurface : SurfaceParams where
  addr := 0x18000000
  upper := 0x18000500
  size := 0x500
  width := 16
  height := 16
  stride := 16
  levels := 2
  isTiled := true
  pixelFormat := .RGBA8
  mipmapOffsets := fun level => if level = 0 then 0x18000000 else 0x18000400

theorem validSurface_mipmappedSurface : ValidSurface mipmappedSurface where
  updated := by
    have hoffsets : Function.update (Function.update mipmappedSurface.mipmapOffsets 0 0x18000000) 1
        0x18000400 = mipmappedSurface.mipmapOffsets := by
      funext level
      match level with
      | 0 => rfl
      | 1 => rfl
      | _ + 2 => rfl
    unfold SurfaceParams.updateParams
    rw [if_pos (by decide)]
    change Except.ok { mipmappedSurface with
      mipmapOffsets := Function.update (Function.update mipmappedSurface.mipmapOffsets 0
        0x18000000) 1 0x18000400 } = _
    rw [hoffsets]
  levels := by decide
  width_le := by decide
  pixels := by decide
  tiles := by decide
  wholeBytes := nofun
  fits := by decide
  inMemory := by decide

/-- The second level is one tile, and the interval of that tile lies behind it. -/
theorem not_rectCorresponds_mipmappedSurface : ValidSurface mipmappedSurface ∧
    RectOf mipmappedSurface 1 ⟨0, 8, 8, 0⟩ ∧ ¬ RectCorresponds mipmappedSurface 1 ⟨0, 8, 8, 0⟩ := by
  have hrect : RectOf mipmappedSurface 1 ⟨0, 8, 8, 0⟩ :=
    ⟨by decide, by decide, by decide, by decide, by decide, by decide⟩
  exact ⟨validSurface_mipmappedSurface, hrect, fun h =>
    not_within_tiledLevel validSurface_mipmappedSurface hrect rfl (by decide) h.within⟩

end Borked3DS.Analysis
