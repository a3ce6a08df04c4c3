import Mathlib.Data.List.GetD
import Mathlib.Data.Nat.Periodic
import Borked3DS.Analysis.MemoryFills
import Borked3DS.Analysis.SurfaceRects

/-!
# The value that a fill clears with

The bytes of a fill have the size of the fill as a period, and `CanFill` makes sure that they have
that of a pixel, too, wherever the pixels begin. The functions for the texels of a texture decode
them as the surface does, but for alpha textures, and read behind the buffer for compressed ones.
-/

set_option autoImplicit false

namespace Borked3DS.Analysis

open Borked3DS.Library Borked3DS.Model Borked3DS.Model.VideoCore Borked3DS.Interface

variable {surface : Surface} {dest : SurfaceParams} {interval : SurfaceInterval} {level : ℕ}

/-! ## Periods -/

/-- The bytes of a fill from its start on. -/
def fillByte (surface : Surface) (i : ℕ) : UInt8 :=
  surface.fillData.getD (i % surface.fillSize) 0

theorem filledByte_eq {address : ℕ} :
    filledByte surface address = fillByte surface (address - surface.addr) := rfl

/-- The bytes of a destination pixel, one for a format of four bits. -/
def pixelBytes (dest : SurfaceParams) : ℕ := max (dest.pixelFormat.bpp / 8) 1

theorem fillByte_periodic : Function.Periodic (fillByte surface) surface.fillSize := by
  intro i
  unfold fillByte
  rw [Nat.add_mod_right]

/-- An element of a repeated list. -/
theorem getD_flatten_replicate {α : Type*} (xs : List α) (d : α) {n i : ℕ}
    (hi : i < n * xs.length) :
    (List.replicate n xs).flatten.getD i d = xs.getD (i % xs.length) d := by
  induction n generalizing i with
  | zero => omega
  | succ n ih =>
    rw [List.replicate_succ, List.flatten_cons]
    by_cases hlt : i < xs.length
    · rw [List.getD_append _ _ _ _ hlt, Nat.mod_eq_of_lt hlt]
    · have hle := Nat.le_of_not_lt hlt
      rw [Nat.succ_mul] at hi
      rw [List.getD_append_right _ _ _ _ hle, ih (by omega), ← Nat.mod_eq_sub_mod hle]

/-- Where the blocks of a length of a periodic sequence are all the same, the length is a period,
too. -/
theorem periodic_of_blocks {α : Type*} {f : ℕ → α} {period length : ℕ}
    (hperiod : Function.Periodic f period) (hperiodPos : 0 < period) (hpos : 0 < length)
    (hblocks : ∀ i < period, ∀ j < length, f (length * i + j) = f j) :
    Function.Periodic f length := by
  have hblock : ∀ i ≤ period, ∀ j < length, f (length * i + j) = f j := by
    intro i hi j hj
    rcases Nat.lt_or_eq_of_le hi with hlt | rfl
    · exact hblocks i hlt j hj
    · rw [Nat.add_comm]
      exact hperiod.nat_mul length j
  intro n
  have hmod := Nat.mod_lt n hperiodPos
  have hsplit : n = n % period + n / period * period := (Nat.mod_add_div' n period).symm
  have hfirst : f n = f (n % period) := (hperiod.map_mod_nat n).symm
  have hnext : f (n + length) = f (n % period + length) := by
    have hshift : n + length = n % period + length + n / period * period := by omega
    rw [hshift]
    exact hperiod.nat_mul (n / period) _
  rw [hfirst, hnext]
  -- The place in its block of the place in the period.
  have hplace := Nat.mod_lt (n % period) hpos
  have hbelow := Nat.div_le_self (n % period) length
  have hblockOf := Nat.div_add_mod (n % period) length
  have hhere := hblock (n % period / length) (by omega) _ hplace
  have hthere := hblock (n % period / length + 1) (by omega) _ hplace
  have hmore : length * (n % period / length + 1) + n % period % length =
      n % period + length := by
    rw [Nat.mul_succ]
    omega
  rw [hblockOf] at hhere
  rw [hmore] at hthere
  rw [hhere, hthere]

/-- The test of `CanFill` on its buffer. -/
theorem blocks_of_test {d : ℕ} (hfill : IsFillSurface surface)
    (h : ∀ i < surface.fillSize,
      (((List.replicate d (surface.fillData.take surface.fillSize)).flatten.drop (d * i)).take d =
        (List.replicate d (surface.fillData.take surface.fillSize)).flatten.take d)) :
    ∀ i < surface.fillSize, ∀ j < d, fillByte surface (d * i + j) = fillByte surface j := by
  intro i hi j hj
  have hlength := length_fillPattern hfill
  have hbyte : ∀ k, k < d * surface.fillSize →
      (List.replicate d (surface.fillData.take surface.fillSize)).flatten.getD k 0 =
        fillByte surface k := by
    intro k hk
    rw [getD_flatten_replicate _ _ (by rwa [hlength]), hlength, getD_fillPattern hfill]
    rfl
  have hnext := Nat.mul_le_mul_left d (Nat.succ_le_of_lt hi)
  rw [Nat.mul_succ] at hnext
  have hfirst : d ≤ d * surface.fillSize := Nat.le_mul_of_pos_right _ (fillSize_pos hfill)
  have hsame := congrArg (fun block => block.getD j 0) (h i hi)
  rw [List.getD_eq_getElem?_getD, List.getD_eq_getElem?_getD, List.getElem?_take_of_lt hj,
    List.getElem?_take_of_lt hj, List.getElem?_drop, ← List.getD_eq_getElem?_getD,
    ← List.getD_eq_getElem?_getD, hbyte _ (by omega), hbyte _ (by omega)] at hsame
  exact hsame

/-- What `CanFill` makes sure of. -/
theorem canFill_periodic (hfill : IsFillSurface surface)
    (h : surface.canFill dest interval = .ok true) :
    surface.addr ≤ interval.lower ∧ interval.upper ≤ surface.upper ∧
      (∃ rect, dest.fromInterval interval = .ok rect ∧ rect.getInterval = interval) ∧
      Function.Periodic (fillByte surface) (pixelBytes dest) ∧
      (dest.pixelFormat.bpp = 4 →
        fillByte surface 0 &&& (0xF : UInt8) = fillByte surface 0 >>> 4) := by
  unfold Surface.canFill at h
  dsimp only at h
  split at h
  · rename_i hwithin
    obtain ⟨rect, hrect, hrest⟩ := bind_eq_ok.mp h
    split at hrest
    · cases hrest
    · rename_i hsame
      refine ⟨hwithin.2.2.1, hwithin.2.2.2, ⟨rect, hrect, not_not.mp hsame⟩, ?_⟩
      split at hrest
      · split at hrest
        · cases hrest
        · rename_i htest
          have hpos : 0 < pixelBytes dest := Nat.lt_of_lt_of_le Nat.one_pos (Nat.le_max_right _ _)
          have hblocks : ∀ i < surface.fillSize, ∀ j < pixelBytes dest,
              fillByte surface (pixelBytes dest * i + j) = fillByte surface j := by
            apply blocks_of_test hfill
            simpa [pixelBytes] using htest
          refine ⟨periodic_of_blocks fillByte_periodic (fillSize_pos hfill) hpos hblocks, ?_⟩
          intro hfour
          have hlength := length_fillPattern hfill
          have hfirst : (List.replicate (pixelBytes dest)
              (surface.fillData.take surface.fillSize)).flatten.getD 0 0 = fillByte surface 0 := by
            rw [getD_flatten_replicate _ _ (by
              rw [hlength]
              exact Nat.mul_pos hpos (fillSize_pos hfill)), hlength, getD_fillPattern hfill]
            rfl
          have hnibbles := of_decide_eq_false ((Bool.not_eq_true' _).mp (Except.ok.inj hrest))
          rw [← pixelBytes, hfirst] at hnibbles
          by_contra hne
          exact hnibbles ⟨hfour, hne⟩
      · rename_i hsize
        have hsize := not_not.mp hsize
        have hpixel : pixelBytes dest = surface.fillSize := by
          have hpos := fillSize_pos hfill
          unfold pixelBytes
          omega
        rw [hpixel]
        exact ⟨fillByte_periodic, fun hfour => by omega⟩
  · cases h

/-! ## Values -/

section Values

variable {format : SurfaceFormat} {bytes : ℕ → UInt8}

theorem ofLittleEndian_two (a b : UInt8) : ofLittleEndian [a, b] = a.toNat + 256 * b.toNat := by
  simp [ofLittleEndian]

theorem ofLittleEndian_three (a b c : UInt8) :
    ofLittleEndian [a, b, c] = a.toNat + 256 * (b.toNat + 256 * c.toNat) := by
  simp [ofLittleEndian]

theorem toNat_halfWordAt : (halfWordAt bytes).toNat = ofLittleEndian [bytes 0, bytes 1] := by
  have hlow := (bytes 0).toNat_lt
  have hhigh := (bytes 1).toNat_lt
  have hword : (bytes 1).toNat <<< 8 < 2 ^ 16 := by
    rw [Nat.shiftLeft_eq]
    omega
  rw [ofLittleEndian_two]
  unfold halfWordAt
  rw [UInt16.toNat_or, UInt16.toNat_shiftLeft, UInt8.toNat_toUInt16, UInt8.toNat_toUInt16]
  rw [show (8 : UInt16).toNat % 16 = 8 from rfl, Nat.mod_eq_of_lt hword, Nat.or_comm,
    ← Nat.shiftLeft_add_eq_or_of_lt hlow, Nat.shiftLeft_eq]
  omega

theorem decodeD24_eq : decodeD24 bytes = ofLittleEndian [bytes 0, bytes 1, bytes 2] := by
  have hlow := (bytes 0).toNat_lt
  have hmiddle := (bytes 1).toNat_lt
  have hfirst : (bytes 1).toNat <<< 8 ||| (bytes 0).toNat =
      (bytes 1).toNat <<< 8 + (bytes 0).toNat := (Nat.shiftLeft_add_eq_or_of_lt hlow _).symm
  have hbelow : (bytes 1).toNat <<< 8 + (bytes 0).toNat < 2 ^ 16 := by
    rw [Nat.shiftLeft_eq]
    omega
  rw [ofLittleEndian_three]
  unfold decodeD24
  rw [Nat.or_assoc, hfirst, ← Nat.shiftLeft_add_eq_or_of_lt hbelow, Nat.shiftLeft_eq,
    Nat.shiftLeft_eq]
  omega

/-- A word turned by a byte has its highest byte as its lowest one. -/
theorem rotl_eight {x : ℕ} (hx : x < 2 ^ 32) : rotl x 8 = x % 2 ^ 24 * 2 ^ 8 + x / 2 ^ 24 := by
  have hlow : x >>> 24 < 2 ^ 8 := by
    rw [Nat.shiftRight_eq_div_pow]
    omega
  have hword : x <<< 8 % 2 ^ 32 = (x % 2 ^ 24) <<< 8 := by
    rw [Nat.shiftLeft_eq, Nat.shiftLeft_eq]
    omega
  unfold rotl
  rw [BitVec.toNat_rotateLeft, BitVec.toNat_ofNat, Nat.mod_eq_of_lt hx,
    show 8 % 32 = 8 from rfl, hword, ← Nat.shiftLeft_add_eq_or_of_lt hlow, Nat.shiftLeft_eq,
    Nat.shiftRight_eq_div_pow]

/-- A depth and a stencil of a word. -/
theorem depthStencil_of_word {x : ℕ} (hx : x < 2 ^ 32) :
    rotl x 8 / 2 ^ 8 = x % 2 ^ 24 ∧ rotl x 8 % 2 ^ 8 = x >>> 24 := by
  rw [rotl_eight hx, Nat.shiftRight_eq_div_pow]
  omega

end Values

/-! ## The buffer -/

/-- The four bytes of the buffer, from a byte of the fill on. -/
theorem makeFillBuffer_eq {address : ℕ} (hle : surface.addr ≤ address) (hlt : address < 2 ^ 32) :
    surface.makeFillBuffer address = [filledByte surface address, filledByte surface (address + 1),
      filledByte surface (address + 2), filledByte surface (address + 3)] := by
  have hbyte : ∀ i, surface.fillData.getD
      (((address - surface.addr) % surface.fillSize + i) % surface.fillSize) 0 =
        filledByte surface (address + i) := by
    intro i
    unfold filledByte
    rw [Nat.mod_add_mod]
    congr 2
    omega
  unfold Surface.makeFillBuffer
  dsimp only
  rw [u32Sub_of_le hle hlt]
  simp only [hbyte]
  rfl

/-- The bytes from a pixel on, wherever the pixel is. -/
theorem filledByte_pixel (hperiod : Function.Periodic (fillByte surface) (pixelBytes dest))
    {address : ℕ} (hle : surface.addr ≤ address) (n i : ℕ) :
    filledByte surface (address + n * pixelBytes dest + i) = filledByte surface (address + i) := by
  have hsplit : address + n * pixelBytes dest + i - surface.addr =
      address + i - surface.addr + n * pixelBytes dest := by omega
  rw [filledByte_eq, filledByte_eq, hsplit]
  exact hperiod.nat_mul n _

section ClearValue

variable {format : SurfaceFormat} {address : ℕ}

/-- The value of a texel at the start of the buffer, and that of a depth, is the one of a pixel
there. -/
theorem makeClearValue_wholeBytes (hle : surface.addr ≤ address) (hlt : address < 2 ^ 32)
    (hformat : format ∉ [.A8, .A4, .ETC1, .ETC1A4, .I4]) :
    surface.makeClearValue address format =
      .ok (decodePixelValue format fun i => filledByte surface (address + i)) := by
  unfold Surface.makeClearValue
  rw [makeFillBuffer_eq hle hlt]
  generalize hbytes : (fun i => filledByte surface (address + i)) = bytes
  have hfour : [filledByte surface address, filledByte surface (address + 1),
      filledByte surface (address + 2), filledByte surface (address + 3)] =
        [bytes 0, bytes 1, bytes 2, bytes 3] := by
    rw [← hbytes]
    rfl
  rw [hfour]
  cases format with
  | A8 | A4 | ETC1 | ETC1A4 | I4 => simp at hformat
  | D16 =>
    show _ = Except.ok (PixelValue.depth (halfWordAt bytes).toNat 0xFFFF)
    rw [toNat_halfWordAt]
    rfl
  | D24 =>
    show _ = Except.ok (PixelValue.depth (decodeD24 bytes) 0xFFFFFF)
    rw [decodeD24_eq]
    rfl
  | D24S8 =>
    have hword : ofLittleEndian [bytes 0, bytes 1, bytes 2, bytes 3] < 2 ^ 32 := by
      calc ofLittleEndian [bytes 0, bytes 1, bytes 2, bytes 3] < 256 ^ 4 := ofLittleEndian_lt _
        _ = 2 ^ 32 := by norm_num
    obtain ⟨hdepth, hstencil⟩ := depthStencil_of_word hword
    show _ = Except.ok (PixelValue.depthStencil
      (rotl (ofLittleEndian [bytes 0, bytes 1, bytes 2, bytes 3]) 8 / 2 ^ 8)
      (rotl (ofLittleEndian [bytes 0, bytes 1, bytes 2, bytes 3]) 8 % 2 ^ 8))
    rw [hdepth, hstencil]
    rfl
  | _ => rfl

/-- The value of four bits at the start of the buffer. -/
theorem makeClearValue_I4 (hle : surface.addr ≤ address) (hlt : address < 2 ^ 32) :
    surface.makeClearValue address .I4 =
      .ok (.color ⟨convert4To8 (filledByte surface address &&& 0xF),
        convert4To8 (filledByte surface address &&& 0xF),
        convert4To8 (filledByte surface address &&& 0xF), 255⟩) := by
  unfold Surface.makeClearValue
  rw [makeFillBuffer_eq hle hlt]
  rfl

/-- The value of an alpha texel is white. -/
theorem makeClearValue_alpha (hle : surface.addr ≤ address) (hlt : address < 2 ^ 32)
    (hformat : format = .A8 ∨ format = .A4) :
    ∃ alpha, surface.makeClearValue address format = .ok (.color ⟨255, 255, 255, alpha⟩) := by
  unfold Surface.makeClearValue
  rw [makeFillBuffer_eq hle hlt]
  rcases hformat with rfl | rfl
  · exact ⟨_, rfl⟩
  · exact ⟨_, rfl⟩

/-- A block of a compressed format has more bytes than the buffer. -/
theorem makeClearValue_compressed (hle : surface.addr ≤ address) (hlt : address < 2 ^ 32)
    (hformat : format = .ETC1 ∨ format = .ETC1A4) :
    surface.makeClearValue address format = .error .undefined := by
  unfold Surface.makeClearValue
  rw [makeFillBuffer_eq hle hlt]
  rcases hformat with rfl | rfl
  · rfl
  · rfl

end ClearValue

/-! ## The pixels -/

theorem pixelBytes_eq (hformat : dest.pixelFormat ∉ [.A8, .A4, .ETC1, .ETC1A4, .I4]) :
    pixelBytes dest = dest.pixelFormat.bpp / 8 ∧
      dest.pixelFormat.tileSize = 64 * (dest.pixelFormat.bpp / 8) := by
  unfold pixelBytes SurfaceFormat.tileSize
  cases hcases : dest.pixelFormat <;> simp_all [SurfaceFormat.bpp]

/-- A pixel of whole bytes in a tile. -/
theorem decodeTilePixel_wholeBytes {format : SurfaceFormat}
    (hformat : format ∉ [.A8, .A4, .ETC1, .ETC1A4, .I4]) (x y : ℕ) (tile : ℕ → UInt8) :
    decodeTilePixel format x y tile =
      decodePixelValue format fun i => tile (mortonInterleave x y * (format.bpp / 8) + i) := by
  cases format with
  | A8 | A4 | ETC1 | ETC1A4 | I4 => simp at hformat
  | _ => rfl

theorem clearsSoundly_wholeBytes (hle : surface.addr ≤ interval.lower)
    (hlt : interval.lower < 2 ^ 32)
    (hformat : dest.pixelFormat ∉ [.A8, .A4, .ETC1, .ETC1A4, .I4])
    (hperiod : Function.Periodic (fillByte surface) (pixelBytes dest)) :
    ClearsSoundly surface dest interval := by
  obtain ⟨hbytes, htile⟩ := pixelBytes_eq hformat
  refine ⟨_, makeClearValue_wholeBytes hle hlt hformat, ?_, ?_⟩
  · intro _ tile x y _ _ _
    rw [decodeTilePixel_wholeBytes hformat]
    congr 1
    funext i
    have hplace : interval.lower + tile * dest.pixelFormat.tileSize +
        (mortonInterleave x y * (dest.pixelFormat.bpp / 8) + i) =
          interval.lower + (tile * 64 + mortonInterleave x y) * pixelBytes dest + i := by
      rw [htile, hbytes]
      ring
    rw [hplace, filledByte_pixel hperiod hle]
  · intro _ pixel _
    congr 1
    funext i
    rw [← hbytes, filledByte_pixel hperiod hle]

theorem clearsSoundly_fourBits (hle : surface.addr ≤ interval.lower)
    (hlt : interval.lower < 2 ^ 32) (htiled : dest.isTiled = true)
    (hformat : dest.pixelFormat = .I4)
    (hperiod : Function.Periodic (fillByte surface) 1)
    (hnibbles : fillByte surface 0 &&& (0xF : UInt8) = fillByte surface 0 >>> 4) :
    ClearsSoundly surface dest interval := by
  have hbyte : ∀ address, filledByte surface address = fillByte surface 0 := by
    intro address
    have hsame := hperiod.nat_mul_eq (address - surface.addr)
    rwa [Nat.cast_id, Nat.mul_one] at hsame
  refine ⟨_, by rw [hformat]; exact makeClearValue_I4 hle hlt, ?_, ?_⟩
  · intro _ tile x y _ _ _
    rw [hformat]
    simp only [decodeTilePixel, decodePixel4, hbyte, if_true]
    split
    · rw [hnibbles]
    · rfl
  · intro hlinear
    rw [htiled] at hlinear
    cases hlinear

/-- A cleared interval has a tile, or a pixel of a linear surface. -/
theorem clearedTile_le (hvalid : ValidSurface dest) (hin : InLevel dest level interval)
    (hrect : ∃ rect, dest.fromInterval interval = .ok rect ∧ rect.getInterval = interval) :
    interval.lower + tileBytes dest ≤ interval.upper := by
  have hlevel := level_of_inLevel hin
  obtain ⟨hlower, hsome, hupper⟩ := (inLevel_iff hvalid hlevel).mp hin
  obtain ⟨a, ha⟩ := Nat.exists_eq_add_of_le hlower
  obtain ⟨b, hb⟩ := Nat.exists_eq_add_of_le (Nat.le_trans hlower (Nat.le_of_lt hsome))
  obtain rfl : interval = ⟨dest.mipmapOffsets level + a, dest.mipmapOffsets level + b⟩ := by
    rw [← ha, ← hb]
  dsimp only at hlower hsome hupper ⊢
  obtain ⟨rect, hrect, hsame⟩ := hrect
  have hab : a < b := by omega
  have hbelow : b ≤ levelBytes dest level := by omega
  have hfirst : rect.addr = dest.mipmapOffsets level + a :=
    congrArg SurfaceInterval.lower hsame
  have hlast : rect.upper = dest.mipmapOffsets level + b :=
    congrArg SurfaceInterval.upper hsame
  have hrows : a / rowBytes dest level ≤ (b - 1) / rowBytes dest level := firstRow_le hab
  rcases Nat.lt_or_eq_of_le hrows with hmany | hone
  · obtain ⟨sub, hsub, haddr, hend, -⟩ := fromInterval_rows hvalid hlevel hab hbelow hmany
    obtain rfl := Except.ok.inj (hrect.symm.trans hsub)
    have hcolumn : tileBytes dest ≤ rowBytes dest level :=
      Nat.le_mul_of_pos_left _ (columns_pos hvalid hlevel)
    have hnext := Nat.mul_le_mul_right (rowBytes dest level) (Nat.succ_le_of_lt hmany)
    rw [Nat.succ_mul] at hnext
    omega
  · obtain ⟨sub, hsub, haddr, hend, -⟩ := fromInterval_row hvalid hlevel hab hbelow hone
    obtain rfl := Except.ok.inj (hrect.symm.trans hsub)
    have htiles : a / tileBytes dest ≤ (b - 1) / tileBytes dest :=
      Nat.div_le_div_right (by omega)
    have hnext := Nat.mul_le_mul_right (tileBytes dest) htiles
    rw [Nat.add_mul, Nat.one_mul] at hend
    omega

/-- The tiles of the surface are those of textures. -/
theorem tileBytes_texture (hvalid : ValidSurface dest) : tileBytes dest =
    if dest.isTiled then dest.pixelFormat.tileSize else dest.pixelFormat.bpp / 8 := by
  have hmul := tileBytes_mul hvalid
  unfold SurfaceParams.tiledSize at hmul
  unfold SurfaceFormat.tileSize
  cases htiled : dest.isTiled with
  | true =>
    simp only [htiled, if_true] at hmul ⊢
    omega
  | false =>
    simp only [htiled, Bool.false_eq_true, if_false] at hmul ⊢
    omega

/-- A pixel of an alpha texture is black. -/
theorem not_clearsSoundly_alpha (hvalid : ValidSurface dest) (hle : surface.addr ≤ interval.lower)
    (hlt : interval.lower < 2 ^ 32) (hformat : dest.pixelFormat = .A8 ∨ dest.pixelFormat = .A4)
    (htile : interval.lower + tileBytes dest ≤ interval.upper) :
    ¬ ClearsSoundly surface dest interval := by
  rintro ⟨value, hvalue, htiled, hlinear⟩
  obtain ⟨alpha, halpha⟩ := makeClearValue_alpha hle hlt hformat
  obtain rfl := Except.ok.inj (halpha.symm.trans hvalue)
  rw [tileBytes_texture hvalid] at htile
  cases hcases : dest.isTiled with
  | true =>
    rw [hcases, if_pos rfl] at htile
    have hpixel := htiled hcases 0 0 0 (by decide) (by decide) (by omega)
    rcases hformat with hformat | hformat
    · rw [hformat] at hpixel
      cases hpixel
    · rw [hformat] at hpixel
      cases hpixel
  | false =>
    rw [hcases, if_neg (by decide)] at htile
    have hpixel := hlinear hcases 0 (by omega)
    have hwhole := hvalid.wholeBytes hcases
    rcases hformat with hformat | hformat
    · rw [hformat] at hpixel
      cases hpixel
    · rw [hformat] at hwhole
      exact absurd hwhole (by decide)

/-- `CanFill` is right about every surface that is not compressed, and no alpha texture. -/
theorem clearsSoundly_iff (hfill : IsFillSurface surface) (hvalid : ValidSurface dest)
    (hin : InLevel dest level interval) (hcan : surface.canFill dest interval = .ok true) :
    ClearsSoundly surface dest interval ↔ ClearableFormat dest.pixelFormat := by
  obtain ⟨hle, -, hrect, hperiod, hnibbles⟩ := canFill_periodic hfill hcan
  have htile := clearedTile_le hvalid hin hrect
  have hlt : interval.lower < 2 ^ 32 := by
    have hlevel := level_of_inLevel hin
    obtain ⟨hlower, hsome, hupper⟩ := (inLevel_iff hvalid hlevel).mp hin
    obtain ⟨-, hend, hword⟩ := level_le_upper hvalid hlevel
    omega
  unfold ClearableFormat
  constructor
  · intro hclears hbad
    by_cases halpha : dest.pixelFormat = .A8 ∨ dest.pixelFormat = .A4
    · exact not_clearsSoundly_alpha hvalid hle hlt halpha htile hclears
    · obtain ⟨value, hvalue, -⟩ := hclears
      have hcompressed : dest.pixelFormat = .ETC1 ∨ dest.pixelFormat = .ETC1A4 := by
        simpa [or_assoc, (not_or.mp halpha).1, (not_or.mp halpha).2] using hbad
      rw [makeClearValue_compressed hle hlt hcompressed] at hvalue
      cases hvalue
  · intro hgood
    by_cases hfour : dest.pixelFormat = .I4
    · have hbpp : dest.pixelFormat.bpp = 4 := by
        rw [hfour]
        rfl
      have htiled : dest.isTiled = true := by
        by_contra hlinear
        have hwhole := hvalid.wholeBytes (Bool.eq_false_iff.mpr hlinear)
        rw [hbpp] at hwhole
        exact absurd hwhole (by decide)
      have hone : pixelBytes dest = 1 := by
        unfold pixelBytes
        rw [hbpp]
        rfl
      rw [hone] at hperiod
      exact clearsSoundly_fourBits hle hlt htiled hfour hperiod (hnibbles hbpp)
    · refine clearsSoundly_wholeBytes hle hlt ?_ hperiod
      simp only [List.mem_cons, List.not_mem_nil, or_false, not_or] at hgood ⊢
      exact ⟨hgood.1, hgood.2.1, hgood.2.2.1, hgood.2.2.2, hfour⟩

/-- One tile of a texture at the start of the video memory. -/
def oneTile (format : SurfaceFormat) : SurfaceParams where
  addr := 0x18000000
  upper := 0x18000000 + format.bpp * 8
  size := format.bpp * 8
  width := 8
  height := 8
  stride := 8
  isTiled := true
  pixelFormat := format
  mipmapOffsets := fun _ => 0x18000000

theorem validSurface_oneTile (format : SurfaceFormat) : ValidSurface (oneTile format) where
  updated := by
    have hoffsets : Function.update (oneTile format).mipmapOffsets 0 0x18000000 =
        (oneTile format).mipmapOffsets := Function.update_eq_self _ _
    have hupdated : (oneTile format).updateParams = .ok { oneTile format with
        mipmapOffsets := Function.update (oneTile format).mipmapOffsets 0 0x18000000 } := by
      cases format <;> rfl
    rw [hupdated, hoffsets]
  levels := Nat.one_pos
  width_le := Nat.le_refl _
  pixels := by
    intro level hlevel
    obtain rfl : level = 0 := Nat.lt_one_iff.mp hlevel
    exact (by decide : 0 < 8 >>> 0 ∧ 0 < 8 >>> 0)
  tiles := by
    intro _ level hlevel
    obtain rfl : level = 0 := Nat.lt_one_iff.mp hlevel
    exact (by decide : 8 ∣ 8 >>> 0 ∧ 8 ∣ 8 >>> 0 ∧ 8 ∣ 8 >>> 0)
  wholeBytes := nofun
  fits := by cases format <;> decide
  inMemory := by cases format <;> decide

/-- A fill of the tile of any format with `0x5555`. -/
def tileFill : Surface where
  addr := 0x18000000
  upper := 0x18000100
  size := 256
  type := .Fill
  fillData := [0x55, 0x55, 0x55, 0x55]
  fillSize := 2

theorem isFillSurface_tileFill : IsFillSurface tileFill := ⟨rfl, by decide, rfl⟩

theorem inLevel_oneTile (format : SurfaceFormat) :
    InLevel (oneTile format) 0 (oneTile format).getInterval := by
  refine ⟨(oneTile format).getInterval, rfl, Nat.le_refl _, ?_, Nat.le_refl _⟩
  cases format <;> decide

theorem clearsSoundly_tile :
    ClearsSoundly tileFill (oneTile .RGBA8) (oneTile .RGBA8).getInterval :=
  (clearsSoundly_iff isFillSurface_tileFill (validSurface_oneTile _) (inLevel_oneTile _)
    (by decide +kernel)).mpr (by unfold ClearableFormat; decide)

/-- A block of a compressed texture is read behind the buffer, and an alpha texture is cleared with
white. -/
theorem not_clearsSoundly_tile :
    IsFillSurface tileFill ∧
      (ValidSurface (oneTile .ETC1) ∧
        InLevel (oneTile .ETC1) 0 (oneTile .ETC1).getInterval ∧
        tileFill.canFill (oneTile .ETC1) (oneTile .ETC1).getInterval = .ok true ∧
        ¬ ClearsSoundly tileFill (oneTile .ETC1) (oneTile .ETC1).getInterval) ∧
      ValidSurface (oneTile .A8) ∧
        InLevel (oneTile .A8) 0 (oneTile .A8).getInterval ∧
        tileFill.canFill (oneTile .A8) (oneTile .A8).getInterval = .ok true ∧
        ¬ ClearsSoundly tileFill (oneTile .A8) (oneTile .A8).getInterval := by
  refine ⟨isFillSurface_tileFill,
    ⟨validSurface_oneTile _, inLevel_oneTile _, by decide, ?_⟩,
    validSurface_oneTile _, inLevel_oneTile _, by decide, ?_⟩
  · rintro ⟨value, hvalue, -⟩
    have herror : tileFill.makeClearValue 0x18000000 .ETC1 = .error .undefined :=
      makeClearValue_compressed (by decide) (by decide) (Or.inl rfl)
    cases herror.symm.trans hvalue
  · exact not_clearsSoundly_alpha (validSurface_oneTile _) (by decide) (by decide) (Or.inl rfl)
      (by decide)

end Borked3DS.Analysis
