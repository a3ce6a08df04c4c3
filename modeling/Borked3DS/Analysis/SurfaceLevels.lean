import Mathlib.Tactic.Ring
import Borked3DS.Interface.SurfaceRects

/-!
# Where the levels of a surface lie

A level is a number of rows that are a stride apart, and a row a number of tiles, where a tile of a
linear surface is one pixel. In the numbers of tiles nothing wraps.
-/

set_option autoImplicit false

namespace Borked3DS.Analysis

open Borked3DS.Library Borked3DS.Model Borked3DS.Model.Common Borked3DS.Model.VideoCore
open Borked3DS.Interface

variable {s : SurfaceParams} {level : ℕ}

/-! ## Tiles -/

theorem bpp_pos (format : SurfaceFormat) : 0 < format.bpp := by
  cases format <;> decide

theorem tiledSize_pos (s : SurfaceParams) : 0 < s.tiledSize := by
  unfold SurfaceParams.tiledSize
  split <;> decide

/-- The bytes of a tile. -/
def tileBytes (s : SurfaceParams) : ℕ := s.bytesInPixels (s.tiledSize * s.tiledSize)

/-- A tile is made of whole bytes. -/
theorem tileBytes_mul (hvalid : ValidSurface s) :
    tileBytes s * 8 = s.tiledSize * s.tiledSize * s.pixelFormat.bpp := by
  unfold tileBytes SurfaceParams.bytesInPixels SurfaceParams.tiledSize
  cases htiled : s.isTiled with
  | true => cases s.pixelFormat <;> rfl
  | false =>
    have hwhole := hvalid.wholeBytes htiled
    revert hwhole
    cases s.pixelFormat <;> decide

theorem tileBytes_pos (hvalid : ValidSurface s) : 0 < tileBytes s := by
  have hmul := tileBytes_mul hvalid
  have hpos := Nat.mul_pos (Nat.mul_pos (tiledSize_pos s) (tiledSize_pos s))
    (bpp_pos s.pixelFormat)
  omega

/-- The bytes of some tiles. -/
theorem bytes_tiles (hvalid : ValidSurface s) {n : ℕ} (hn : n * (tileBytes s * 8) < 2 ^ 32) :
    s.bytesInPixels (n * (s.tiledSize * s.tiledSize)) = n * tileBytes s := by
  unfold SurfaceParams.bytesInPixels
  rw [Nat.mul_assoc, ← tileBytes_mul hvalid, u32_of_lt hn, ← Nat.mul_assoc,
    Nat.mul_div_cancel _ (by decide)]

/-- The pixels of some tiles. -/
theorem pixels_tiles (hvalid : ValidSurface s) {n : ℕ} (hn : n * (tileBytes s * 8) < 2 ^ 32) :
    s.pixelsInBytes (n * tileBytes s) = n * (s.tiledSize * s.tiledSize) := by
  unfold SurfaceParams.pixelsInBytes
  rw [Nat.mul_assoc, u32_of_lt hn, tileBytes_mul hvalid, ← Nat.mul_assoc,
    Nat.mul_div_cancel _ (bpp_pos s.pixelFormat)]

/-! ## Alignment -/

/-- A size is aligned to the end of the block of its last byte. -/
theorem alignUp_last {value size : ℕ} (hvalue : 0 < value) (hsize : 0 < size)
    (hfits : value + size ≤ 2 ^ 32) : alignUp value size = ((value - 1) / size + 1) * size := by
  have hsplit := Nat.div_add_mod (value - 1) size
  have hmod := Nat.mod_lt (value - 1) hsize
  rw [Nat.mul_comm] at hsplit
  have hsucc : value = (value - 1) / size * size + ((value - 1) % size + 1) := by omega
  have hrest : value % size = ((value - 1) % size + 1) % size := by
    rw [hsucc, Nat.mul_add_mod_self_right, ← hsucc]
  unfold alignUp
  rw [Nat.add_mul, Nat.one_mul]
  by_cases hlast : (value - 1) % size + 1 = size
  · rw [hlast, Nat.mod_self] at hrest
    rw [if_pos hrest]
    omega
  · rw [Nat.mod_eq_of_lt (by omega : (value - 1) % size + 1 < size)] at hrest
    rw [if_neg (by omega), u32_of_lt (by omega)]
    omega

/-! ## Rows and columns -/

/-- The tiles from one row of tiles to the next, -/
def columns (s : SurfaceParams) (level : ℕ) : ℕ := (s.stride >>> level) / s.tiledSize

/-- those of a row that have pixels of the surface, -/
def usedColumns (s : SurfaceParams) (level : ℕ) : ℕ := (s.width >>> level) / s.tiledSize

/-- and the rows of tiles. -/
def rows (s : SurfaceParams) (level : ℕ) : ℕ := (s.height >>> level) / s.tiledSize

theorem columns_mul (hvalid : ValidSurface s) (hlevel : level < s.levels) :
    columns s level * s.tiledSize = s.stride >>> level := by
  unfold columns SurfaceParams.tiledSize
  cases htiled : s.isTiled with
  | true => exact Nat.div_mul_cancel (hvalid.tiles htiled level hlevel).2.1
  | false => simp

theorem usedColumns_mul (hvalid : ValidSurface s) (hlevel : level < s.levels) :
    usedColumns s level * s.tiledSize = s.width >>> level := by
  unfold usedColumns SurfaceParams.tiledSize
  cases htiled : s.isTiled with
  | true => exact Nat.div_mul_cancel (hvalid.tiles htiled level hlevel).1
  | false => simp

theorem rows_mul (hvalid : ValidSurface s) (hlevel : level < s.levels) :
    rows s level * s.tiledSize = s.height >>> level := by
  unfold rows SurfaceParams.tiledSize
  cases htiled : s.isTiled with
  | true => exact Nat.div_mul_cancel (hvalid.tiles htiled level hlevel).2.2
  | false => simp

theorem usedColumns_pos (hvalid : ValidSurface s) (hlevel : level < s.levels) :
    0 < usedColumns s level := by
  have hwidth := (hvalid.pixels level hlevel).1
  rw [← usedColumns_mul hvalid hlevel] at hwidth
  exact Nat.pos_of_mul_pos_right hwidth

theorem rows_pos (hvalid : ValidSurface s) (hlevel : level < s.levels) : 0 < rows s level := by
  have hheight := (hvalid.pixels level hlevel).2
  rw [← rows_mul hvalid hlevel] at hheight
  exact Nat.pos_of_mul_pos_right hheight

theorem usedColumns_le (hvalid : ValidSurface s) : usedColumns s level ≤ columns s level := by
  apply Nat.div_le_div_right
  rw [Nat.shiftRight_eq_div_pow, Nat.shiftRight_eq_div_pow]
  exact Nat.div_le_div_right hvalid.width_le

theorem columns_pos (hvalid : ValidSurface s) (hlevel : level < s.levels) :
    0 < columns s level :=
  Nat.lt_of_lt_of_le (usedColumns_pos hvalid hlevel) (usedColumns_le hvalid)

/-- The bytes from one row to the next, -/
def rowBytes (s : SurfaceParams) (level : ℕ) : ℕ := columns s level * tileBytes s

/-- and those of them that have pixels of the surface. -/
def usedBytes (s : SurfaceParams) (level : ℕ) : ℕ := usedColumns s level * tileBytes s

theorem usedBytes_le (hvalid : ValidSurface s) : usedBytes s level ≤ rowBytes s level :=
  Nat.mul_le_mul_right _ (usedColumns_le hvalid)

theorem usedBytes_pos (hvalid : ValidSurface s) (hlevel : level < s.levels) :
    0 < usedBytes s level :=
  Nat.mul_pos (usedColumns_pos hvalid hlevel) (tileBytes_pos hvalid)

theorem rowBytes_pos (hvalid : ValidSurface s) (hlevel : level < s.levels) :
    0 < rowBytes s level :=
  Nat.mul_pos (columns_pos hvalid hlevel) (tileBytes_pos hvalid)

theorem shiftRight_le_self (n level : ℕ) : n >>> level ≤ n := by
  rw [Nat.shiftRight_eq_div_pow]
  exact Nat.div_le_self n _

/-- The bits of a whole level are a word. -/
theorem level_fits (hvalid : ValidSurface s) (hlevel : level < s.levels) :
    rows s level * rowBytes s level * 8 < 2 ^ 32 := by
  calc rows s level * rowBytes s level * 8
      = rows s level * columns s level * (tileBytes s * 8) := by
        unfold rowBytes
        ring
    _ = (columns s level * s.tiledSize) * (rows s level * s.tiledSize) * s.pixelFormat.bpp := by
        rw [tileBytes_mul hvalid]
        ring
    _ = (s.stride >>> level) * (s.height >>> level) * s.pixelFormat.bpp := by
        rw [columns_mul hvalid hlevel, rows_mul hvalid hlevel]
    _ ≤ s.stride * s.height * s.pixelFormat.bpp :=
        Nat.mul_le_mul_right _ (Nat.mul_le_mul (shiftRight_le_self _ _) (shiftRight_le_self _ _))
    _ < 2 ^ 32 := hvalid.fits

theorem four_le_bpp (format : SurfaceFormat) : 4 ≤ format.bpp := by
  cases format <;> decide

theorem tiledSize_le_sides (hvalid : ValidSurface s) :
    s.tiledSize ≤ s.stride ∧ s.tiledSize ≤ s.height := by
  have hlevel := hvalid.levels
  have hheight := rows_mul hvalid hlevel
  have hstride := columns_mul hvalid hlevel
  rw [Nat.shiftRight_zero] at hheight hstride
  rw [← hheight, ← hstride]
  exact ⟨Nat.le_mul_of_pos_left _ (columns_pos hvalid hlevel),
    Nat.le_mul_of_pos_left _ (rows_pos hvalid hlevel)⟩

/-- The sides of a surface are far from a word, even in the numbers of a strip of tiles. -/
theorem sides_small (hvalid : ValidSurface s) :
    s.stride * s.tiledSize < 2 ^ 30 ∧ s.height * s.tiledSize < 2 ^ 30 := by
  have harea : s.stride * s.height < 2 ^ 30 := by
    have hbits := Nat.mul_le_mul_left (s.stride * s.height) (four_le_bpp s.pixelFormat)
    have hfits := hvalid.fits
    omega
  obtain ⟨hstride, hheight⟩ := tiledSize_le_sides hvalid
  refine ⟨Nat.lt_of_le_of_lt (Nat.mul_le_mul_left _ hheight) harea, ?_⟩
  rw [Nat.mul_comm] at harea
  exact Nat.lt_of_le_of_lt (Nat.mul_le_mul_left _ hstride) harea

/-- Some tiles of a level, of which there are at most as many as in all rows. -/
theorem tiles_fit (hvalid : ValidSurface s) (hlevel : level < s.levels) {n : ℕ}
    (hn : n ≤ rows s level * columns s level) : n * (tileBytes s * 8) < 2 ^ 32 := by
  have hfits := level_fits hvalid hlevel
  have hmul := Nat.mul_le_mul_right (tileBytes s * 8) hn
  unfold rowBytes at hfits
  calc n * (tileBytes s * 8) ≤ rows s level * columns s level * (tileBytes s * 8) := hmul
    _ = rows s level * (columns s level * tileBytes s) * 8 := by ring
    _ < 2 ^ 32 := hfits

/-! ## The parameters of a valid surface -/

theorem stride_ne_zero (hvalid : ValidSurface s) : s.stride ≠ 0 := by
  have hwidth := (hvalid.pixels 0 hvalid.levels).1
  rw [Nat.shiftRight_zero] at hwidth
  have hle := hvalid.width_le
  omega

theorem updated_one (hvalid : ValidSurface s) (hone : s.levels = 1) :
    s.mipmapOffsets 0 = s.addr ∧
    s.size = (if s.isTiled
      then s.bytesInPixels (u32 (s.stride * 8 * u32Sub (s.height / 8) 1 + s.width * 8))
      else s.bytesInPixels (u32 (s.stride * u32Sub s.height 1 + s.width))) ∧
    s.upper = s.addr + s.size := by
  have hupdated := hvalid.updated
  unfold SurfaceParams.updateParams at hupdated
  dsimp only at hupdated
  rw [if_neg (stride_ne_zero hvalid), if_neg (not_not_intro hone)] at hupdated
  have hsame := Except.ok.inj hupdated
  have hsize := (congrArg SurfaceParams.size hsame).symm
  have hoffsets := congrFun (congrArg SurfaceParams.mipmapOffsets hsame).symm 0
  have hupper := (congrArg SurfaceParams.upper hsame).symm
  dsimp only at hsize hoffsets hupper
  rw [Function.update_self] at hoffsets
  refine ⟨hoffsets, hsize, ?_⟩
  rw [← hsize, u32_of_lt hvalid.inMemory] at hupper
  exact hupper

theorem updated_many (hvalid : ValidSurface s) (hmany : s.levels ≠ 1) :
    s.stride = s.width ∧ s.levels ≤ MAX_PICA_LEVELS ∧
      s.mipmapOffsets = (s.mipLoop s.addr).offsets ∧ s.size = (s.mipLoop 0).offset ∧
      s.upper = s.addr + s.size := by
  have hupdated := hvalid.updated
  unfold SurfaceParams.updateParams at hupdated
  dsimp only at hupdated
  rw [if_neg (stride_ne_zero hvalid), if_pos hmany] at hupdated
  obtain ⟨-, -, hupdated⟩ := bind_eq_ok.mp hupdated
  obtain ⟨⟨offsets, size⟩, hlevels, hupdated⟩ := bind_eq_ok.mp hupdated
  unfold SurfaceParams.calculateMipLevels at hlevels
  obtain ⟨_, hassert, hlevels⟩ := bind_eq_ok.mp hlevels
  obtain ⟨hmax, hstride⟩ := assert_eq_ok.mp hassert
  obtain ⟨rfl, rfl⟩ := Prod.mk.inj (Except.ok.inj hlevels)
  have hsame := Except.ok.inj hupdated
  have hsize := (congrArg SurfaceParams.size hsame).symm
  have hoffsets := (congrArg SurfaceParams.mipmapOffsets hsame).symm
  have hupper := (congrArg SurfaceParams.upper hsame).symm
  dsimp only at hsize hoffsets hupper
  refine ⟨hstride, hmax, hoffsets, hsize, ?_⟩
  rw [← hsize, u32_of_lt hvalid.inMemory] at hupper
  exact hupper

/-! ## The loop over the levels -/

/-- What the loop takes the size of a level to be. -/
def loopSize (s : SurfaceParams) (level : ℕ) : ℕ :=
  s.bytesInPixels (u32 ((s.width >>> level) * (s.height >>> level)))

/-- The bytes of the levels before one. -/
def bytesBefore (s : SurfaceParams) : ℕ → ℕ
  | 0 => 0
  | level + 1 => bytesBefore s level + loopSize s level

theorem mipLoop_levels {offset : ℕ} (n : ℕ) (hfits : offset + bytesBefore s n < 2 ^ 32) :
    (List.range n).foldl s.mipStep ⟨s.width, s.height, offset, s.mipmapOffsets⟩ =
      ⟨s.width >>> n, s.height >>> n, offset + bytesBefore s n,
        fun k => if k < n then offset + bytesBefore s k else s.mipmapOffsets k⟩ := by
  induction n with
  | zero => rfl
  | succ n ih =>
    have hbefore : bytesBefore s (n + 1) = bytesBefore s n + loopSize s n := rfl
    rw [List.range_succ, List.foldl_append, ih (by omega), List.foldl_cons, List.foldl_nil]
    unfold SurfaceParams.mipStep
    rw [← loopSize, Nat.add_assoc, ← hbefore, u32_of_lt hfits, Nat.shiftRight_succ,
      Nat.shiftRight_succ]
    congr 1
    funext k
    by_cases hk : k = n
    · rw [hk, Function.update_self, if_pos (Nat.lt_succ_self n)]
    · rw [Function.update_of_ne hk]
      dsimp only
      by_cases hlt : k < n
      · rw [if_pos hlt, if_pos (Nat.lt_succ_of_lt hlt)]
      · rw [if_neg hlt, if_neg (by omega)]

theorem loopSize_le (hvalid : ValidSurface s) :
    loopSize s level * 8 ≤ s.stride * s.height * s.pixelFormat.bpp := by
  unfold loopSize SurfaceParams.bytesInPixels
  calc u32 (u32 ((s.width >>> level) * (s.height >>> level)) * s.pixelFormat.bpp) / 8 * 8
      ≤ u32 ((s.width >>> level) * (s.height >>> level)) * s.pixelFormat.bpp :=
        le_trans (Nat.div_mul_le_self _ _) (u32_le _)
    _ ≤ s.stride * s.height * s.pixelFormat.bpp := by
        apply Nat.mul_le_mul_right
        exact le_trans (u32_le _)
          (Nat.mul_le_mul (le_trans (shiftRight_le_self _ _) hvalid.width_le)
            (shiftRight_le_self _ _))

theorem bytesBefore_le (hvalid : ValidSurface s) (n : ℕ) :
    bytesBefore s n * 8 ≤ n * (s.stride * s.height * s.pixelFormat.bpp) := by
  induction n with
  | zero => exact Nat.zero_le _
  | succ n ih =>
    have hsize : loopSize s n * 8 ≤ _ := loopSize_le hvalid
    unfold bytesBefore
    rw [Nat.add_mul, Nat.succ_mul]
    exact Nat.add_le_add ih hsize

theorem bytesBefore_lt (hvalid : ValidSurface s) {n : ℕ} (hn : n ≤ 8) :
    bytesBefore s n < 2 ^ 32 := by
  have hle := bytesBefore_le hvalid n
  have hmul := Nat.mul_le_mul_right (s.stride * s.height * s.pixelFormat.bpp) hn
  have hfits := hvalid.fits
  omega

theorem size_many (hvalid : ValidSurface s) (hmany : s.levels ≠ 1) :
    s.size = bytesBefore s s.levels := by
  obtain ⟨-, hmax, -, hsize, -⟩ := updated_many hvalid hmany
  have hlt := bytesBefore_lt hvalid hmax
  rw [hsize]
  unfold SurfaceParams.mipLoop
  rw [mipLoop_levels s.levels (by omega)]
  exact Nat.zero_add _

/-- A level begins behind those before it. -/
theorem mipmapOffsets_eq (hvalid : ValidSurface s) (hlevel : level < s.levels) :
    s.mipmapOffsets level = s.addr + bytesBefore s level := by
  by_cases hone : s.levels = 1
  · obtain rfl : level = 0 := by omega
    rw [(updated_one hvalid hone).1]
    rfl
  · obtain ⟨-, -, hoffsets, -⟩ := updated_many hvalid hone
    have hmemory := hvalid.inMemory
    rw [size_many hvalid hone] at hmemory
    rw [hoffsets]
    unfold SurfaceParams.mipLoop
    rw [mipLoop_levels s.levels hmemory]
    exact if_pos hlevel

/-- The bytes of a level: the last row ends with its pixels. -/
def levelBytes (s : SurfaceParams) (level : ℕ) : ℕ :=
  rowBytes s level * (rows s level - 1) + usedBytes s level

theorem loopSize_eq (hvalid : ValidSurface s) (hlevel : level < s.levels)
    (hstride : s.stride = s.width) : loopSize s level = levelBytes s level := by
  have hrows := rows_pos hvalid hlevel
  have hused : usedColumns s level = columns s level := by
    unfold usedColumns columns
    rw [hstride]
  have htiles : (s.width >>> level) * (s.height >>> level) =
      rows s level * columns s level * (s.tiledSize * s.tiledSize) := by
    rw [← usedColumns_mul hvalid hlevel, ← rows_mul hvalid hlevel, hused]
    ring
  have hfit := tiles_fit hvalid hlevel (Nat.le_refl (rows s level * columns s level))
  have hpixels : rows s level * columns s level * (s.tiledSize * s.tiledSize) < 2 ^ 32 := by
    rw [tileBytes_mul hvalid, ← Nat.mul_assoc] at hfit
    exact Nat.lt_of_le_of_lt (Nat.le_mul_of_pos_right _ (bpp_pos _)) hfit
  unfold loopSize
  rw [htiles, u32_of_lt hpixels, bytes_tiles hvalid hfit]
  unfold levelBytes usedBytes rowBytes
  rw [hused]
  obtain ⟨n, hn⟩ := Nat.exists_eq_add_of_le' hrows
  rw [hn, Nat.add_sub_cancel]
  ring

/-- The bytes of a surface of one level, given in tiles. -/
theorem oneLevel_size (hvalid : ValidSurface s) {n stride width : ℕ} (hn : n + 1 < 2 ^ 32)
    (hfit : (stride * n + width) * (tileBytes s * 8) < 2 ^ 32) :
    (if s.isTiled
      then s.bytesInPixels (u32 (stride * s.tiledSize * 8 *
        u32Sub ((n + 1) * s.tiledSize / 8) 1 + width * s.tiledSize * 8))
      else s.bytesInPixels (u32 (stride * s.tiledSize * u32Sub ((n + 1) * s.tiledSize) 1 +
        width * s.tiledSize))) = (stride * n + width) * tileBytes s := by
  have hpixels : (stride * n + width) * (s.tiledSize * s.tiledSize) < 2 ^ 32 := by
    have hbits := hfit
    rw [tileBytes_mul hvalid, ← Nat.mul_assoc] at hbits
    exact Nat.lt_of_le_of_lt (Nat.le_mul_of_pos_right _ (bpp_pos _)) hbits
  have hlast : u32Sub (n + 1) 1 = n := by
    rw [u32Sub_of_le (by omega) hn, Nat.add_sub_cancel]
  rw [← bytes_tiles hvalid hfit, ← u32_of_lt hpixels]
  unfold SurfaceParams.tiledSize
  cases s.isTiled with
  | true =>
    have hcount : stride * 8 * 8 * n + width * 8 * 8 = (stride * n + width) * (8 * 8) := by ring
    simp only [if_true]
    rw [Nat.mul_div_cancel _ (by decide), hlast, hcount]
  | false => simp only [Bool.false_eq_true, if_false, Nat.mul_one, hlast]

theorem rows_lt (hvalid : ValidSurface s) (hlevel : level < s.levels) :
    rows s level < 2 ^ 32 := by
  have hbits := level_fits hvalid hlevel
  have hle : rows s level ≤ rows s level * rowBytes s level :=
    Nat.le_mul_of_pos_right _ (rowBytes_pos hvalid hlevel)
  omega

theorem size_one (hvalid : ValidSurface s) (hone : s.levels = 1) : s.size = levelBytes s 0 := by
  have hlevel : 0 < s.levels := hvalid.levels
  have hcolumns := columns_mul hvalid hlevel
  have hused := usedColumns_mul hvalid hlevel
  have hheight := rows_mul hvalid hlevel
  have hle : usedColumns s 0 ≤ columns s 0 := usedColumns_le hvalid
  have hword := rows_lt hvalid hlevel
  rw [Nat.shiftRight_zero] at hcolumns hused hheight
  obtain ⟨n, hn⟩ := Nat.exists_eq_add_of_le' (rows_pos hvalid hlevel)
  have hcount : columns s 0 * n + usedColumns s 0 ≤ rows s 0 * columns s 0 := by
    rw [hn, Nat.add_mul, Nat.one_mul, Nat.mul_comm n]
    omega
  have hsize := oneLevel_size hvalid (by omega) (tiles_fit hvalid hlevel hcount)
  rw [← hn, hcolumns, hused, hheight] at hsize
  rw [(updated_one hvalid hone).2.1, hsize]
  unfold levelBytes rowBytes usedBytes
  rw [hn, Nat.add_sub_cancel]
  ring

/-- Where a level ends. -/
theorem levelInterval_eq (hvalid : ValidSurface s) (hlevel : level < s.levels) :
    s.levelInterval level =
      .ok ⟨s.mipmapOffsets level, s.mipmapOffsets level + levelBytes s level⟩ := by
  unfold SurfaceParams.levelInterval
  rw [assert, if_pos hlevel, ok_bind, mipmapOffsets_eq hvalid hlevel]
  by_cases hone : s.levels = 1
  · obtain rfl : level = 0 := by omega
    rw [if_pos (by omega), (updated_one hvalid hone).2.2, size_one hvalid hone]
    rfl
  · obtain ⟨hstride, -, -, -, hupper⟩ := updated_many hvalid hone
    rw [← loopSize_eq hvalid hlevel hstride, Nat.add_assoc]
    by_cases hlast : level = s.levels - 1
    · have hlevels : level + 1 = s.levels := by omega
      rw [if_pos hlast, hupper, size_many hvalid hone, ← hlevels]
      rfl
    · rw [if_neg hlast, mipmapOffsets_eq hvalid (by omega)]
      rfl

/-- The levels lie one behind the other. -/
theorem mipmapOffsets_le (hvalid : ValidSurface s) {l k : ℕ} (hlk : l ≤ k) (hk : k < s.levels) :
    s.mipmapOffsets l ≤ s.mipmapOffsets k := by
  induction k, hlk using Nat.le_induction with
  | base => exact Nat.le_refl _
  | succ k hlk ih =>
    rw [mipmapOffsets_eq hvalid hk]
    have hbefore : bytesBefore s (k + 1) = bytesBefore s k + loopSize s k := rfl
    have hprev := ih (by omega)
    rw [mipmapOffsets_eq hvalid (by omega : k < s.levels)] at hprev
    omega

theorem levelFrom_eq (hvalid : ValidSurface s) {a n : ℕ} (hn : n < s.levels) (hlevel : level ≤ n)
    (hlower : s.mipmapOffsets level ≤ a)
    (hnext : level + 1 < s.levels → a < s.mipmapOffsets (level + 1)) :
    s.levelFrom a n = level := by
  induction n, hlevel using Nat.le_induction with
  | base =>
    cases level with
    | zero => rfl
    | succ level => exact if_neg (Nat.not_lt_of_le hlower)
  | succ n hlevel ih =>
    have hle := mipmapOffsets_le hvalid (Nat.add_le_add_right hlevel 1) hn
    have hlt := hnext (by omega)
    unfold SurfaceParams.levelFrom
    rw [if_pos (by omega)]
    exact ih (by omega)

theorem bytesBefore_mono {l k : ℕ} (hlk : l ≤ k) : bytesBefore s l ≤ bytesBefore s k := by
  induction k, hlk using Nat.le_induction with
  | base => exact Nat.le_refl _
  | succ k _ ih =>
    have hbefore : bytesBefore s (k + 1) = bytesBefore s k + loopSize s k := rfl
    omega

theorem mipmapOffsets_succ (hvalid : ValidSurface s) (hnext : level + 1 < s.levels) :
    s.mipmapOffsets (level + 1) = s.mipmapOffsets level + levelBytes s level := by
  obtain ⟨hstride, -⟩ := updated_many hvalid (by omega)
  rw [mipmapOffsets_eq hvalid hnext, mipmapOffsets_eq hvalid (by omega),
    ← loopSize_eq hvalid (by omega) hstride, Nat.add_assoc]
  rfl

/-- A level is in the surface. -/
theorem level_le_upper (hvalid : ValidSurface s) (hlevel : level < s.levels) :
    s.addr ≤ s.mipmapOffsets level ∧
      s.mipmapOffsets level + levelBytes s level ≤ s.upper ∧ s.upper < 2 ^ 32 := by
  have hmemory := hvalid.inMemory
  rw [mipmapOffsets_eq hvalid hlevel]
  by_cases hone : s.levels = 1
  · obtain rfl : level = 0 := by omega
    have hbefore : bytesBefore s 0 = 0 := rfl
    rw [(updated_one hvalid hone).2.2, ← size_one hvalid hone]
    omega
  · obtain ⟨hstride, -, -, -, hupper⟩ := updated_many hvalid hone
    have hbefore : bytesBefore s (level + 1) = bytesBefore s level + loopSize s level := rfl
    have hmono : bytesBefore s (level + 1) ≤ bytesBefore s s.levels := bytesBefore_mono hlevel
    rw [hupper, size_many hvalid hone, ← loopSize_eq hvalid hlevel hstride]
    rw [size_many hvalid hone] at hmemory
    omega

/-- The level of an address. -/
theorem levelOf_eq (hvalid : ValidSurface s) (hlevel : level < s.levels) {a : ℕ}
    (hlower : s.mipmapOffsets level ≤ a) (hupper : a < s.mipmapOffsets level + levelBytes s level) :
    s.levelOf a = level := by
  obtain ⟨haddr, hend, -⟩ := level_le_upper hvalid hlevel
  unfold SurfaceParams.levelOf
  rw [if_neg (by omega)]
  apply levelFrom_eq hvalid (by omega) (by omega) hlower
  intro hnext
  rw [mipmapOffsets_succ hvalid hnext]
  exact hupper

end Borked3DS.Analysis
