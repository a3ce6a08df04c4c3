import Borked3DS.Interface.MemoryFills

/-!
# When the memory fills agree

Both fills repeat a value over a range. The cache cuts the last value off at the end of the range,
and at the end of the area; the software writes whole values, and refuses a range whose end lies in
no area. A flush of a part of the surface counts from the start of the surface where the memory is
counted from the start of the part.
-/

set_option autoImplicit false

namespace Borked3DS.Analysis

open Borked3DS.Library Borked3DS.Model Borked3DS.Model.VideoCore Borked3DS.Interface

/-! ## Writes of many blocks -/

section Writes

variable {memory memory' : GuestMemory} {area : MemoryArea} {offset step total : ℕ}
  {block : ℕ → List UInt8} {rounds : List ℕ} {pattern : List UInt8}

theorem guestMemory_eq {a b : GuestMemory} (h : a.bytes = b.bytes) : a = b := by
  cases a
  cases b
  congr

@[simp] theorem bytes_set_self (span : Span) (h : span.size = area.size) :
    (memory.set area span h).bytes area = span := Function.update_self _ _ _

theorem bytes_set_of_ne {other : MemoryArea} (hne : other ≠ area) (span : Span)
    (h : span.size = area.size) : (memory.set area span h).bytes other = memory.bytes other :=
  Function.update_of_ne hne _ _

/-- The memory behind a loop whose blocks all fit. -/
def written (memory : GuestMemory) (area : MemoryArea) (offset step : ℕ)
    (block : ℕ → List UInt8) (rounds : List ℕ) : GuestMemory :=
  memory.set area (Span.writeBlocks (fun i => offset + step * i) block rounds (memory.bytes area))
    (Span.size_writeBlocks.trans (memory.size_eq area))

theorem writeLoop_eq_ok : memory.writeLoop area offset step block rounds = .ok memory' ↔
    (∀ i ∈ rounds, offset + step * i + (block i).length ≤ area.size) ∧
      memory' = written memory area offset step block rounds := by
  unfold GuestMemory.writeLoop
  induction rounds generalizing memory with
  | nil =>
      have hself : written memory area offset step block [] = memory :=
        guestMemory_eq (Function.update_eq_self _ _)
      rw [List.foldlM_nil, pure_eq_ok, hself, Except.ok.injEq, and_iff_right nofun, eq_comm]
  | cons i rounds ih =>
      rw [List.foldlM_cons, List.forall_mem_cons, GuestMemory.write]
      by_cases hfits : offset + step * i + (block i).length ≤ area.size
      · rw [if_pos hfits, ok_bind, ih, and_iff_right hfits]
        have hrest : written (memory.set area ((memory.bytes area).write (offset + step * i)
            (block i)) (memory.size_eq area)) area offset step block rounds =
              written memory area offset step block (i :: rounds) := by
          apply guestMemory_eq
          unfold written GuestMemory.set
          dsimp only
          rw [Function.update_idem, Function.update_self]
          rfl
        rw [hrest]
      · rw [if_neg hfits, error_bind]
        exact iff_of_false nofun fun h => hfits h.1.1

/-- The memory with a pattern over a part of an area. -/
def filled (memory : GuestMemory) (area : MemoryArea) (offset total : ℕ) (pattern : List UInt8) :
    GuestMemory :=
  memory.set area ((memory.bytes area).fill offset total pattern) (memory.size_eq area)

theorem written_pattern (hpattern : 0 < pattern.length) :
    written memory area offset pattern.length
      (fun i => pattern.take (total - pattern.length * i)) (Span.blocks pattern.length total) =
        filled memory area offset total pattern := by
  apply guestMemory_eq
  unfold written filled GuestMemory.set
  dsimp only
  rw [Span.writeBlocks_pattern hpattern]

/-- A loop that cuts its last block off. -/
theorem writeLoop_cut (hpattern : 0 < pattern.length) (hroom : offset + total ≤ area.size) :
    memory.writeLoop area offset pattern.length
      (fun i => pattern.take (total - pattern.length * i)) (Span.blocks pattern.length total) =
        .ok (filled memory area offset total pattern) := by
  refine writeLoop_eq_ok.mpr ⟨fun i hi => ?_, (written_pattern hpattern).symm⟩
  have hi := (Span.mem_blocks hpattern).mp hi
  rw [List.length_take]
  omega

/-- A loop of whole blocks. -/
theorem writeLoop_whole (hpattern : 0 < pattern.length) {n : ℕ} (hn : 0 < n) :
    memory.writeLoop area offset pattern.length (fun _ => pattern) (List.range n) = .ok memory' ↔
      offset + pattern.length * n ≤ area.size ∧
        memory' = filled memory area offset (pattern.length * n) pattern := by
  have hwhole : ∀ i ∈ List.range n, pattern = pattern.take (pattern.length * n -
      pattern.length * i) := by
    intro i hi
    have hnext := Nat.mul_le_mul_left pattern.length (Nat.succ_le_of_lt (List.mem_range.mp hi))
    rw [Nat.mul_succ] at hnext
    exact (List.take_of_length_le (by omega)).symm
  have hwritten : written memory area offset pattern.length (fun _ => pattern) (List.range n) =
      filled memory area offset (pattern.length * n) pattern := by
    rw [← written_pattern hpattern, Span.blocks_mul hpattern]
    apply guestMemory_eq
    unfold written GuestMemory.set Span.writeBlocks
    dsimp only
    congr 1
    exact List.foldl_ext _ _ _ fun s i hi => congrArg _ (hwhole i hi)
  rw [writeLoop_eq_ok, hwritten]
  apply and_congr_left
  intro _
  constructor
  · intro hall
    have hlast := hall (n - 1) (List.mem_range.mpr (by omega))
    have hend : pattern.length * (n - 1) + pattern.length = pattern.length * n := by
      rw [← Nat.mul_succ]
      congr 1
      omega
    omega
  · intro hroom i hi
    have hnext := Nat.mul_le_mul_left pattern.length (Nat.succ_le_of_lt (List.mem_range.mp hi))
    rw [Nat.mul_succ] at hnext
    omega

theorem sameBytes_of_area {a b : GuestMemory} (area : MemoryArea)
    (hother : ∀ other, other ≠ area → a.bytes other = b.bytes other)
    (h : ∀ i < area.size, (a.bytes area).get i = (b.bytes area).get i) : SameBytes a b := by
  intro other i hi
  by_cases hne : other = area
  · subst hne
    exact h i hi
  · rw [hother other hne]

theorem bytes_filled_of_ne {other : MemoryArea} (hne : other ≠ area) :
    (filled memory area offset total pattern).bytes other = memory.bytes other :=
  bytes_set_of_ne hne _ _

theorem bytes_filled :
    (filled memory area offset total pattern).bytes area =
      (memory.bytes area).fill offset total pattern := bytes_set_self _ _

/-- A memory with one value everywhere. -/
def constantMemory (byte : UInt8) : GuestMemory :=
  ⟨fun area => ⟨area.size, fun _ => byte⟩, fun _ => rfl⟩

theorem exists_otherByte (byte : UInt8) : ∃ other : UInt8, byte ≠ other :=
  ⟨byte + 1, by simp⟩

/-- Where two fills of one range agree on every memory, they fill as much, with the same bytes. -/
theorem sameFill_iff {p q : List UInt8} {n : ℕ} (hp : 0 < p.length) (hn : 0 < n)
    (hlong : total ≤ p.length * n) (hroom : offset + total ≤ area.size) :
    (∀ memory : GuestMemory, ∃ memory',
      memory.writeLoop area offset p.length (fun _ => p) (List.range n) = .ok memory' ∧
        SameBytes memory' (filled memory area offset total q)) ↔
      p.length * n = total ∧ ∀ i < total, p.getD (i % p.length) 0 = q.getD (i % q.length) 0 := by
  constructor
  · intro h
    have hbytes : ∀ memory : GuestMemory, offset + p.length * n ≤ area.size ∧ ∀ i < area.size,
        ((memory.bytes area).fill offset (p.length * n) p).get i =
          ((memory.bytes area).fill offset total q).get i := by
      intro memory
      obtain ⟨memory', hloop, hsame⟩ := h memory
      obtain ⟨hfits, rfl⟩ := (writeLoop_whole hp hn).mp hloop
      refine ⟨hfits, fun i hi => ?_⟩
      have hbyte := hsame area i hi
      rwa [bytes_filled, bytes_filled] at hbyte
    have hfits := (hbytes (constantMemory 0)).1
    constructor
    · -- The byte behind the range is another one in some memory.
      by_contra hne
      have hmore : total < p.length * n := Nat.lt_of_le_of_ne hlong (Ne.symm hne)
      obtain ⟨other, hother⟩ := exists_otherByte (p.getD (total % p.length) 0)
      have hbyte := (hbytes (constantMemory other)).2 (offset + total) (by omega)
      rw [Span.get_fill_of_mem hmore, Span.get_fill_of_notMem (Or.inr (Nat.le_refl _))] at hbyte
      exact hother hbyte
    · intro i hi
      have hbyte := (hbytes (constantMemory 0)).2 (offset + i) (by omega)
      rwa [Span.get_fill_of_mem (Nat.lt_of_lt_of_le hi hlong), Span.get_fill_of_mem hi] at hbyte
  · rintro ⟨htotal, hsame⟩ memory
    refine ⟨_, (writeLoop_whole hp hn).mpr ⟨by omega, rfl⟩, ?_⟩
    rw [htotal]
    refine sameBytes_of_area area (fun other hne => ?_) fun i _ => ?_
    · rw [bytes_filled_of_ne hne, bytes_filled_of_ne hne]
    · rw [bytes_filled, bytes_filled]
      by_cases hi : offset ≤ i ∧ i < offset + total
      · obtain ⟨j, rfl⟩ := Nat.exists_eq_add_of_le hi.1
        have hj : j < total := by omega
        rw [Span.get_fill_of_mem hj, Span.get_fill_of_mem hj, hsame j hj]
      · rw [Span.get_fill_of_notMem (by omega), Span.get_fill_of_notMem (by omega)]

/-- A fill agrees with none exactly when it is empty. -/
theorem unfilled_iff {q : List UInt8} (hroom : offset + total ≤ area.size) :
    (∀ memory : GuestMemory, SameBytes memory (filled memory area offset total q)) ↔
      total = 0 := by
  constructor
  · intro h
    by_contra hne
    obtain ⟨other, hother⟩ := exists_otherByte (q.getD (0 % q.length) 0)
    have hbyte := h (constantMemory other) area (offset + 0) (by omega)
    rw [bytes_filled, Span.get_fill_of_mem (Nat.pos_of_ne_zero hne)] at hbyte
    exact hother hbyte.symm
  · rintro rfl memory
    refine sameBytes_of_area area (fun other hne => (bytes_filled_of_ne hne).symm) fun i _ => ?_
    rw [bytes_filled, Span.fill_zero]

end Writes

/-! ## The fill by the cache -/

section Cache

variable {config : MemoryFillConfig}

/-- How many bytes of the value the cache repeats. -/
def fillSizeOf (config : MemoryFillConfig) : ℕ :=
  if config.fill32bit then 4 else if config.fill24bit then 3 else 2

theorem length_valueBytes (config : MemoryFillConfig) : config.valueBytes.length = 4 :=
  length_toLittleEndian _ _

theorem length_take_fillSizeOf (config : MemoryFillConfig) :
    (config.valueBytes.take (fillSizeOf config)).length = fillSizeOf config := by
  rw [List.length_take, length_valueBytes, fillSizeOf]
  split
  · rfl
  · split <;> rfl

theorem fillSizeOf_pos (config : MemoryFillConfig) : 0 < fillSizeOf config := by
  unfold fillSizeOf
  split
  · decide
  · split <;> decide

/-- The surface of a fill. -/
def fillSurface (config : MemoryFillConfig) : Surface where
  addr := config.getStartAddress
  upper := config.getEndAddress
  size := config.getEndAddress - config.getStartAddress
  type := .Fill
  fillData := config.valueBytes
  fillSize := fillSizeOf config
  registered := true

/-- No part of what is left of an interval meets the other one. -/
theorem not_overlaps_of_mem_minus {a b c : SurfaceInterval} (h : c ∈ a.minus b) :
    c.overlaps b = false := by
  unfold SurfaceInterval.minus at h
  obtain ⟨hmem, hsome⟩ := List.mem_filter.mp h
  have hsome := of_decide_eq_true hsome
  apply decide_eq_false
  rcases List.mem_cons.mp hmem with rfl | hmem
  · dsimp only at hsome ⊢
    omega
  · obtain rfl := List.mem_singleton.mp hmem
    dsimp only at hsome ⊢
    omega

/-- The region of an owner that has no other one. -/
theorem setRegion_newOwner {regions : List DirtyRegion} {interval : SurfaceInterval}
    {owner : SurfaceId} (h : ∀ region ∈ regions, region.owner < owner) :
    ∃ rest, setRegion regions interval owner = ⟨interval, owner⟩ :: rest ∧
      ∀ region ∈ rest, region.interval.overlaps interval = false := by
  have hkept := @owner_of_mem_minus regions interval owner h
  unfold setRegion
  dsimp only
  rw [List.filter_eq_nil_iff.mpr fun region hmem => by
    rw [decide_eq_true_eq]
    exact fun htouches => Nat.ne_of_lt (hkept region hmem) htouches.1]
  refine ⟨_, rfl, fun region hmem => ?_⟩
  obtain ⟨before, -, hrest⟩ := List.mem_flatMap.mp (List.mem_filter.mp hmem).1
  obtain ⟨rest, hminus, rfl⟩ := List.mem_map.mp hrest
  exact not_overlaps_of_mem_minus hminus

/-- A flush of just one region. -/
theorem flushedRegions_one {interval : SurfaceInterval} {owner : SurfaceId}
    {rest : List DirtyRegion} (hsome : interval.lower < interval.upper)
    (hrest : ∀ region ∈ rest, region.interval.overlaps interval = false) :
    flushedRegions (⟨interval, owner⟩ :: rest) interval.lower (interval.upper - interval.lower) =
      [⟨interval, owner⟩] := by
  have hinterval : (⟨interval.lower, interval.lower + (interval.upper - interval.lower)⟩ :
      SurfaceInterval) = interval := by
    rw [Nat.add_sub_cancel' (Nat.le_of_lt hsome)]
  have hself : interval.overlaps interval = true := by
    unfold SurfaceInterval.overlaps
    rw [Nat.max_self, Nat.min_self]
    exact decide_eq_true hsome
  have hmeet : interval.meet interval = interval := by
    unfold SurfaceInterval.meet
    rw [Nat.max_self, Nat.min_self]
  have hnone : rest.filter (fun region => region.interval.overlaps interval) = [] := by
    refine List.filter_eq_nil_iff.mpr fun region hmem => ?_
    rw [hrest region hmem]
    nofun
  unfold flushedRegions
  dsimp only
  rw [hinterval, List.filter_cons_of_pos (by exact hself), hnone, List.mergeSort_singleton,
    List.map_singleton, hmeet, ite_self]

theorem invalidateRegion_ok {cache : RasterizerCache} {addr size : ℕ} {owner : SurfaceId}
    {surface : Surface} (hsurface : cache.surfaces[owner]? = some surface) (hsize : size ≠ 0)
    (htype : surface.type ≠ .Texture) (hrange : surface.addr ≤ addr ∧ addr + size ≤ surface.upper)
    (hstride : surface.width = surface.stride) :
    ∃ cache', cache.invalidateRegion addr size owner = .ok cache' ∧
      cache'.surfaces[owner]? = some (surface.markValid ⟨addr, addr + size⟩) ∧
      cache'.dirtyRegions = setRegion cache.dirtyRegions ⟨addr, addr + size⟩ owner := by
  unfold RasterizerCache.invalidateRegion
  rw [if_neg hsize]
  dsimp only
  split
  · rename_i hnone
    cases hsurface.symm.trans hnone
  · rename_i found hfound
    obtain rfl := Option.some.inj (hsurface.symm.trans hfound)
    rw [assert, if_pos htype, ok_bind, assert, if_pos hrange, ok_bind, assert, if_pos hstride,
      ok_bind]
    refine ⟨_, rfl, ?_, rfl⟩
    rw [List.getElem?_mapIdx, hfound, Option.map_some, if_pos rfl]

/-- What a fill leaves in the cache: its surface is the owner of the range. -/
theorem accelerateFill_ok (cache : RasterizerCache)
    (hrange : config.getStartAddress < config.getEndAddress) :
    ∃ cache' rest, cache.accelerateFill config = .ok cache' ∧
      cache'.surfaces[cache.surfaces.length]? = some ((fillSurface config).markValid
        ⟨config.getStartAddress, config.getEndAddress⟩) ∧
      cache'.dirtyRegions =
        ⟨⟨config.getStartAddress, config.getEndAddress⟩, cache.surfaces.length⟩ :: rest ∧
      ∀ region ∈ rest, region.interval.overlaps
        ⟨config.getStartAddress, config.getEndAddress⟩ = false := by
  have hsize : (decodeAddressRegister config.addressEnd -
      decodeAddressRegister config.addressStart).toNat =
        config.getEndAddress - config.getStartAddress :=
    UInt32.toNat_sub_of_le _ _ (UInt32.le_iff_toNat_le.mpr (Nat.le_of_lt hrange))
  have hupper : (fillSurface config).addr + (config.getEndAddress - config.getStartAddress) =
      config.getEndAddress := Nat.add_sub_cancel' (Nat.le_of_lt hrange)
  have hfound : (cache.insertSurface (fillSurface config)).surfaces[cache.surfaces.length]? =
      some (fillSurface config) := List.getElem?_concat_length
  obtain ⟨cache', hcache, hsurface, hregions⟩ := invalidateRegion_ok hfound
    (Nat.sub_ne_zero_of_lt hrange) nofun ⟨Nat.le_refl _, Nat.le_of_eq hupper⟩ rfl
  obtain ⟨rest, hset, hrest⟩ := @setRegion_newOwner cache.dirtyRegions
    ⟨config.getStartAddress, config.getEndAddress⟩ cache.surfaces.length cache.owned
  rw [hupper] at hsurface hregions
  refine ⟨cache', rest, ?_, hsurface, hregions.trans hset, hrest⟩
  unfold RasterizerCache.accelerateFill
  rw [hsize]
  exact hcache

/-- The memory with the value in the area of the start, up to the end of the range or of the
area. -/
def downloaded (memory : GuestMemory) (config : MemoryFillConfig) : GuestMemory :=
  match findArea config.getStartAddress with
  | none => memory
  | some area => filled memory area (config.getStartAddress - area.paddr)
      (min (config.getEndAddress - config.getStartAddress)
        (area.size - (config.getStartAddress - area.paddr)))
      (config.valueBytes.take (fillSizeOf config))

theorem findArea_some {address : ℕ} {area : MemoryArea} (h : findArea address = some area) :
    area.paddr ≤ address ∧ address ≤ area.paddr + area.size := by
  unfold findArea at h
  have hfound := List.find?_some h
  exact of_decide_eq_true hfound

theorem downloadFillSurface_ok (memory : GuestMemory)
    (hrange : config.getStartAddress < config.getEndAddress) :
    downloadFillSurface ((fillSurface config).markValid
        ⟨config.getStartAddress, config.getEndAddress⟩)
      ⟨config.getStartAddress, config.getEndAddress⟩ memory = .ok (downloaded memory config) := by
  unfold downloadFillSurface Surface.markValid fillSurface downloaded
  dsimp only
  rw [assert, if_pos ⟨Nat.le_refl _, Nat.le_refl _⟩, ok_bind]
  cases harea : findArea config.getStartAddress with
  | none => rfl
  | some area =>
      have hplace := findArea_some harea
      simp only [Nat.sub_self, Nat.zero_mod, if_true, Nat.add_zero, Nat.sub_zero]
      have hpattern : 0 < (config.valueBytes.take (fillSizeOf config)).length := by
        rw [length_take_fillSizeOf]
        exact fillSizeOf_pos config
      have hloop := @writeLoop_cut memory area (config.getStartAddress - area.paddr)
        (min (config.getEndAddress - config.getStartAddress)
          (area.size - (config.getStartAddress - area.paddr))) _ hpattern (by omega)
      rw [length_take_fillSizeOf] at hloop
      exact hloop

/-- What a fill by the cache leaves when it is flushed. -/
theorem fillAndFlush_ok
    (downloadSurface : Surface → SurfaceInterval → GuestMemory → Exec GuestMemory)
    (cache : RasterizerCache) (memory : GuestMemory)
    (hrange : config.getStartAddress < config.getEndAddress) :
    fillAndFlush downloadSurface cache memory config = .ok (downloaded memory config) := by
  obtain ⟨cache', rest, hcache, hsurface, hregions, hrest⟩ := accelerateFill_ok cache hrange
  have hvalid : ((fillSurface config).markValid
      ⟨config.getStartAddress, config.getEndAddress⟩).isRegionValid
        ⟨config.getStartAddress, config.getEndAddress⟩ = true :=
    List.all_eq_true.mpr fun a _ => rfl
  have hflush : flushOne downloadSurface cache'.surfaces
      ⟨config.getStartAddress, config.getEndAddress⟩ cache.surfaces.length memory =
        .ok (downloaded memory config) := by
    unfold flushOne
    rw [hsurface]
    dsimp only
    rw [assert, if_pos hvalid, ok_bind, if_pos (by exact rfl)]
    exact downloadFillSurface_ok memory hrange
  have hone := @flushedRegions_one ⟨config.getStartAddress, config.getEndAddress⟩
    cache.surfaces.length rest hrange hrest
  dsimp only at hone
  have hfold : (flushedRegions cache'.dirtyRegions config.getStartAddress
      (config.getEndAddress - config.getStartAddress)).foldlM (fun memory region =>
        flushOne downloadSurface cache'.surfaces region.interval region.owner memory) memory =
          .ok (downloaded memory config) := by
    rw [hregions, hone, List.foldlM_cons, hflush, ok_bind, List.foldlM_nil, pure_eq_ok]
  unfold fillAndFlush RasterizerCache.flushRegion
  rw [hcache, ok_bind, if_neg (Nat.sub_ne_zero_of_lt hrange)]
  dsimp only
  rw [hfold, ok_bind, ok_bind]

end Cache

/-! ## The fill by the software -/

section Software

variable {config : MemoryFillConfig} {area : MemoryArea}

theorem eight_dvd_decodeAddressRegister (registerValue : UInt32) :
    8 ∣ (decodeAddressRegister registerValue).toNat := by
  unfold decodeAddressRegister
  rw [UInt32.toNat_mul]
  change 8 ∣ registerValue.toNat * 8 % 4294967296
  omega

/-- How many bytes of the value the software repeats, -/
def swFillSize (config : MemoryFillConfig) : ℕ :=
  if config.fill24bit then 3 else if config.fill32bit then 4 else 2

/-- and how often. -/
def swFillRounds (config : MemoryFillConfig) : ℕ :=
  let length := config.getEndAddress - config.getStartAddress
  if config.fill24bit then (length + 2) / 3
  else if config.fill32bit then length / 4
  else (length + 1) / 2

theorem length_take_swFillSize (config : MemoryFillConfig) :
    (config.valueBytes.take (swFillSize config)).length = swFillSize config := by
  rw [List.length_take, length_valueBytes, swFillSize]
  split
  · rfl
  · split <;> rfl

/-- The software covers the range, -/
theorem swFill_covers (hrange : config.getStartAddress < config.getEndAddress) :
    0 < swFillSize config ∧ 0 < swFillRounds config ∧
      config.getEndAddress - config.getStartAddress ≤ swFillSize config * swFillRounds config := by
  have hstart : 8 ∣ config.getStartAddress := eight_dvd_decodeAddressRegister _
  have hend : 8 ∣ config.getEndAddress := eight_dvd_decodeAddressRegister _
  unfold swFillSize swFillRounds
  cases config.fill24bit <;> cases config.fill32bit <;> dsimp only <;> simp only [if_true,
    Bool.false_eq_true, if_false] <;> omega

/-- just it, unless it is one of 24-bit values that does not consist of whole ones. -/
theorem swFill_exact_iff : swFillSize config * swFillRounds config =
    config.getEndAddress - config.getStartAddress ↔
      (config.fill24bit = true → 3 ∣ config.getEndAddress - config.getStartAddress) := by
  have hstart : 8 ∣ config.getStartAddress := eight_dvd_decodeAddressRegister _
  have hend : 8 ∣ config.getEndAddress := eight_dvd_decodeAddressRegister _
  unfold swFillSize swFillRounds
  cases config.fill24bit <;> cases config.fill32bit <;> dsimp only <;> simp only [if_true,
    Bool.false_eq_true, if_false, true_implies, false_implies, iff_true] <;> omega

theorem swMemoryFill_area (memory : GuestMemory)
    (hstart : findArea config.getStartAddress = some area)
    (hend : findArea config.getEndAddress = some area)
    (hrange : config.getStartAddress < config.getEndAddress) :
    swMemoryFill memory config = memory.writeLoop area (config.getStartAddress - area.paddr)
      (config.valueBytes.take (swFillSize config)).length
      (fun _ => config.valueBytes.take (swFillSize config)) (List.range (swFillRounds config)) := by
  have hfour : config.valueBytes.take 4 = config.valueBytes :=
    List.take_of_length_le (Nat.le_of_eq (length_valueBytes config))
  rw [length_take_swFillSize]
  unfold swMemoryFill swFillSize swFillRounds
  rw [hstart, hend]
  dsimp only
  rw [if_neg (Nat.not_le_of_lt hrange), if_neg (not_not_intro rfl)]
  cases config.fill24bit <;> cases config.fill32bit <;> simp only [if_true, Bool.false_eq_true,
    if_false, hfour]

/-- The two repeat the same bytes, unless the one takes three of them and the other one four. -/
theorem samePattern_iff (hrange : config.getStartAddress < config.getEndAddress) :
    (∀ i < config.getEndAddress - config.getStartAddress,
      (config.valueBytes.take (swFillSize config)).getD
          (i % (config.valueBytes.take (swFillSize config)).length) 0 =
        (config.valueBytes.take (fillSizeOf config)).getD
          (i % (config.valueBytes.take (fillSizeOf config)).length) 0) ↔
      (config.fill24bit = true → config.fill32bit = true →
        ∀ byte ∈ config.valueBytes, byte = config.valueBytes.getD 0 0) := by
  have hstart : 8 ∣ config.getStartAddress := eight_dvd_decodeAddressRegister _
  have hend : 8 ∣ config.getEndAddress := eight_dvd_decodeAddressRegister _
  rw [length_take_swFillSize, length_take_fillSizeOf]
  unfold swFillSize fillSizeOf
  cases config.fill24bit with
  | false => cases config.fill32bit <;> exact iff_of_true (fun _ _ => rfl) nofun
  | true =>
      cases config.fill32bit with
      | false => exact iff_of_true (fun _ _ => rfl) fun _ => nofun
      | true =>
          obtain ⟨a, b, c, d, hbytes⟩ : ∃ a b c d, config.valueBytes = [a, b, c, d] :=
            List.length_eq_four.mp (length_valueBytes config)
          rw [hbytes]
          simp only [if_true, true_implies]
          constructor
          · intro h
            have hd : a = d := h 3 (by omega)
            have hb : b = a := h 4 (by omega)
            have hc : c = b := h 5 (by omega)
            subst hd hb hc
            simp
          · intro h i _
            obtain ⟨hb, hc, hd⟩ : b = a ∧ c = a ∧ d = a := by simpa using h
            subst hb hc hd
            have hgetD : ∀ (byte : UInt8) (n k : ℕ), k < n →
                (List.replicate n byte).getD k 0 = byte := by
              intro byte n k hk
              rw [List.getD_eq_getElem?_getD, List.getElem?_replicate, if_pos hk,
                Option.getD_some]
            exact (hgetD _ 3 _ (Nat.mod_lt i (by decide))).trans
              (hgetD _ 4 _ (Nat.mod_lt i (by decide))).symm

end Software

/-- A fill of a range agrees with that by the cache exactly when it fits. -/
theorem fillsAgree_iff {config : MemoryFillConfig}
    (hrange : config.getStartAddress < config.getEndAddress) :
    FillsAgree config ↔ FillFits config := by
  have hreduce : FillsAgree config ↔ ∀ memory, ∃ memory', swMemoryFill memory config = .ok memory' ∧
      SameBytes memory' (downloaded memory config) := by
    constructor
    · intro h memory
      obtain ⟨memory', flushed, hfill, hflush, hsame⟩ := h (fun _ _ memory => .ok memory) {} memory
      rw [fillAndFlush_ok _ _ memory hrange] at hflush
      cases hflush
      exact ⟨memory', hfill, hsame⟩
    · intro h downloadSurface cache memory
      obtain ⟨memory', hfill, hsame⟩ := h memory
      exact ⟨memory', _, hfill, fillAndFlush_ok downloadSurface cache memory hrange, hsame⟩
  rw [hreduce]
  unfold FillFits downloaded
  cases hstart : findArea config.getStartAddress with
  | none =>
      refine iff_of_true (fun memory => ⟨memory, ?_, fun _ _ _ => rfl⟩) trivial
      unfold swMemoryFill
      rw [hstart]
  | some startArea =>
      have hplace := findArea_some hstart
      cases hend : findArea config.getEndAddress with
      | none =>
          have hnothing : ∀ memory, swMemoryFill memory config = .ok memory := by
            intro memory
            unfold swMemoryFill
            rw [hstart, hend]
          dsimp only
          simp only [hnothing, Except.ok.injEq, exists_eq_left']
          rw [unfilled_iff (by omega)]
          omega
      | some endArea =>
          dsimp only
          by_cases hsame : startArea = endArea
          · subst hsame
            have hendPlace := findArea_some hend
            have htotal : min (config.getEndAddress - config.getStartAddress)
                (startArea.size - (config.getStartAddress - startArea.paddr)) =
                  config.getEndAddress - config.getStartAddress := by omega
            obtain ⟨hsize, hrounds, hcovers⟩ := swFill_covers hrange
            simp only [swMemoryFill_area _ hstart hend hrange, htotal]
            rw [sameFill_iff (by rw [length_take_swFillSize]; exact hsize) hrounds
              (by rw [length_take_swFillSize]; exact hcovers) (by omega), samePattern_iff hrange,
              length_take_swFillSize, swFill_exact_iff]
            simp only [true_and]
            exact ⟨fun h hshort => ⟨h.1 hshort, h.2 hshort⟩,
              fun h => ⟨fun hshort => (h hshort).1, fun hshort => (h hshort).2⟩⟩
          · refine iff_of_false (fun h => ?_) fun h => hsame h.1
            obtain ⟨memory', hfill, -⟩ := h (constantMemory 0)
            unfold swMemoryFill at hfill
            rw [hstart, hend] at hfill
            dsimp only at hfill
            rw [if_neg (Nat.not_le_of_lt hrange), if_pos hsame] at hfill
            cases hfill

/-- A range of 24 bytes is filled with eight 24-bit values. -/
theorem fillsAgree_wholeValues : FillsAgree ⟨0x03000000, 0x03000003, 0x00332211, true, false⟩ := by
  refine (fillsAgree_iff (by decide)).mpr ?_
  unfold FillFits
  rw [show findArea _ = some .vram by decide,
    show findArea _ = some .vram by decide]
  exact ⟨rfl, fun _ => ⟨by decide, nofun⟩⟩

/-- The third of three 24-bit values ends behind a range of eight bytes. -/
theorem not_fillsAgree_eightBytes :
    ¬ FillsAgree ⟨0x03000000, 0x03000001, 0x00332211, true, false⟩ := by
  intro h
  obtain ⟨memory', flushed, hfill, hflush, hsame⟩ :=
    h (fun _ _ memory => .ok memory) {} (constantMemory 0)
  rw [fillAndFlush_ok _ _ _ (by decide)] at hflush
  cases hflush
  have hbyte : (swMemoryFill (constantMemory 0) ⟨0x03000000, 0x03000001, 0x00332211, true,
      false⟩).toOption.map (fun memory => (memory.bytes .vram).get 8) = some 0x33 := by
    decide
  rw [hfill] at hbyte
  have hbehind : ((downloaded (constantMemory 0) ⟨0x03000000, 0x03000001, 0x00332211, true,
      false⟩).bytes .vram).get 8 = 0 := by
    decide
  have hboth := (hsame .vram 8 (by decide)).trans hbehind
  exact absurd ((Option.some.inj hbyte).symm.trans hboth) (by decide)

/-! ## Flushes of a part of a fill -/

section Flushes

variable {surface : Surface} {interval : SurfaceInterval} {memory flushed : GuestMemory}
  {area : MemoryArea}

theorem fillSize_pos (hfill : IsFillSurface surface) : 0 < surface.fillSize := by
  rcases hfill.fillSize with h | h | h <;> omega

theorem length_fillPattern (hfill : IsFillSurface surface) :
    (surface.fillData.take surface.fillSize).length = surface.fillSize := by
  rw [List.length_take, hfill.fillData]
  rcases hfill.fillSize with h | h | h <;> omega

theorem getD_fillPattern (hfill : IsFillSurface surface) (i : ℕ) :
    (surface.fillData.take surface.fillSize).getD (i % surface.fillSize) 0 =
      surface.fillData.getD (i % surface.fillSize) 0 := by
  rw [List.getD_eq_getElem?_getD, List.getD_eq_getElem?_getD,
    List.getElem?_take_of_lt (Nat.mod_lt _ (fillSize_pos hfill))]

/-- The bytes that a flush can write in an area. -/
def downloadSize (interval : SurfaceInterval) (area : MemoryArea) : ℕ :=
  min (interval.upper - interval.lower) (area.size - (interval.lower - area.paddr))

/-- Where the pattern begins that the flush repeats, counted from the start of the interval. -/
def coarseStart (surface : Surface) (interval : SurfaceInterval) : ℕ :=
  interval.lower - surface.addr - (interval.lower - surface.addr) % surface.fillSize

/-- The memory with the pattern that a flush repeats. -/
def coarselyFilled (surface : Surface) (interval : SurfaceInterval) (area : MemoryArea)
    (memory : GuestMemory) : GuestMemory :=
  filled memory area (interval.lower - area.paddr + coarseStart surface interval)
    (downloadSize interval area - coarseStart surface interval)
    (surface.fillData.take surface.fillSize)

theorem fillLoop_ok (hfill : IsFillSurface surface)
    (hplace : interval.lower ≤ area.paddr + area.size) :
    memory.writeLoop area (interval.lower - area.paddr + coarseStart surface interval)
      surface.fillSize (fun i => (surface.fillData.take surface.fillSize).take
        (downloadSize interval area - coarseStart surface interval - surface.fillSize * i))
      (Span.blocks surface.fillSize
        (downloadSize interval area - coarseStart surface interval)) =
      .ok (coarselyFilled surface interval area memory) := by
  have hlength := length_fillPattern hfill
  have hpattern : 0 < (surface.fillData.take surface.fillSize).length := by
    rw [hlength]
    exact fillSize_pos hfill
  have hwritten := @written_pattern memory area
    (interval.lower - area.paddr + coarseStart surface interval)
    (downloadSize interval area - coarseStart surface interval) _ hpattern
  rw [hlength] at hwritten
  refine writeLoop_eq_ok.mpr ⟨fun i hi => ?_, hwritten.symm⟩
  have hi := (Span.mem_blocks (fillSize_pos hfill)).mp hi
  rw [List.length_take]
  unfold downloadSize at hi ⊢
  omega

/-- A flush in an area. -/
theorem downloadFillSurface_area (hfill : IsFillSurface surface) (hpart : PartOf surface interval)
    (harea : findArea interval.lower = some area) (memory : GuestMemory) :
    downloadFillSurface surface interval memory =
      if (interval.lower - surface.addr) % surface.fillSize = 0 then
        .ok (coarselyFilled surface interval area memory)
      else
        memory.read area (interval.lower - area.paddr + coarseStart surface interval)
            ((interval.lower - surface.addr) % surface.fillSize) >>=
          (coarselyFilled surface interval area memory).write area
            (interval.lower - area.paddr + coarseStart surface interval) := by
  have hloop := @fillLoop_ok surface interval memory area hfill (findArea_some harea).2
  unfold downloadFillSurface
  dsimp only
  rw [assert, if_pos ⟨hpart.lower, hpart.upper⟩, ok_bind, harea]
  unfold downloadSize coarseStart at hloop
  dsimp only
  rw [hloop]
  simp only [ok_bind]
  rfl

theorem read_eq_ok {offset n : ℕ} {bytes : List UInt8} : memory.read area offset n = .ok bytes ↔
    offset + n ≤ area.size ∧ bytes = (memory.bytes area).read offset n := by
  unfold GuestMemory.read
  by_cases h : offset + n ≤ area.size
  · rw [if_pos h, Except.ok.injEq, and_iff_right h, eq_comm]
  · rw [if_neg h]
    exact iff_of_false nofun fun hread => h hread.1

theorem exists_write {offset : ℕ} {bytes : List UInt8} (h : offset + bytes.length ≤ area.size) :
    ∃ memory', memory.write area offset bytes = .ok memory' := ⟨_, if_pos h⟩

theorem bytes_of_write {offset : ℕ} {bytes : List UInt8}
    (h : memory.write area offset bytes = .ok flushed) :
    flushed.bytes area = (memory.bytes area).write offset bytes ∧
      ∀ other, other ≠ area → flushed.bytes other = memory.bytes other := by
  unfold GuestMemory.write at h
  by_cases hfits : offset + bytes.length ≤ area.size
  · rw [if_pos hfits] at h
    cases h
    exact ⟨bytes_set_self _ _, fun other hne => bytes_set_of_ne hne _ _⟩
  · rw [if_neg hfits] at h
    cases h

/-- The other areas are left alone. -/
theorem download_otherArea (hfill : IsFillSurface surface) (hpart : PartOf surface interval)
    (hok : downloadFillSurface surface interval memory = .ok flushed)
    (hother : findArea interval.lower ≠ some area) : flushed.bytes area = memory.bytes area := by
  cases hstart : findArea interval.lower with
  | none =>
      unfold downloadFillSurface at hok
      dsimp only at hok
      rw [assert, if_pos ⟨hpart.lower, hpart.upper⟩, ok_bind, hstart] at hok
      cases hok
      rfl
  | some start =>
      have hne : area ≠ start := by
        rintro rfl
        exact hother hstart
      rw [downloadFillSurface_area hfill hpart hstart] at hok
      split at hok
      · cases hok
        exact bytes_filled_of_ne hne
      · obtain ⟨backup, -, hwrite⟩ := bind_eq_ok.mp hok
        exact ((bytes_of_write hwrite).2 area hne).trans (bytes_filled_of_ne hne)

/-- A flush that does not begin where the surface does leaves its first byte as it was: the
pattern begins behind it, or it is among those that are kept. -/
theorem download_keepsStart (hfill : IsFillSurface surface) (hpart : PartOf surface interval)
    (harea : findArea interval.lower = some area) (hinside : surface.addr < interval.lower)
    (hok : downloadFillSurface surface interval memory = .ok flushed) :
    (flushed.bytes area).get (interval.lower - area.paddr) =
      (memory.bytes area).get (interval.lower - area.paddr) := by
  have hmod := Nat.mod_le (interval.lower - surface.addr) surface.fillSize
  rw [downloadFillSurface_area hfill hpart harea] at hok
  split at hok
  · rename_i hwhole
    cases hok
    have hcoarse : 0 < coarseStart surface interval := by
      unfold coarseStart
      omega
    unfold coarselyFilled
    rw [bytes_filled, Span.get_fill_of_notMem (Or.inl (by omega))]
  · rename_i hsome
    obtain ⟨backup, hread, hwrite⟩ := bind_eq_ok.mp hok
    obtain ⟨-, rfl⟩ := read_eq_ok.mp hread
    rw [(bytes_of_write hwrite).1]
    by_cases hcoarse : coarseStart surface interval = 0
    · rw [hcoarse, Nat.add_zero]
      have hfirst := @Span.get_write_of_mem
        ((coarselyFilled surface interval area memory).bytes area) (interval.lower - area.paddr) 0
        ((memory.bytes area).read (interval.lower - area.paddr)
          ((interval.lower - surface.addr) % surface.fillSize))
        (by rw [Span.length_read]; omega)
      rw [Nat.add_zero] at hfirst
      rw [hfirst, Span.getD_read (by omega), Nat.add_zero]
    · unfold coarselyFilled
      rw [Span.get_write_of_notMem (Or.inl (by omega)), bytes_filled,
        Span.get_fill_of_notMem (Or.inl (by omega))]

/-- Not even the first byte of such a flush is right in every memory. -/
theorem not_flushesFill_inside (hfill : IsFillSurface surface) (hpart : PartOf surface interval)
    (harea : findArea interval.lower = some area) (hinside : surface.addr < interval.lower)
    (hsome : interval.lower < interval.upper) (hend : interval.lower ≠ area.paddr + area.size) :
    ¬ FlushesFill surface interval := by
  intro h
  have hplace := findArea_some harea
  obtain ⟨other, hother⟩ := exists_otherByte
    (surface.fillData.getD ((interval.lower - surface.addr) % surface.fillSize) 0)
  obtain ⟨flushed, hok, hflushed⟩ := h (constantMemory other)
  have hstart : area.paddr + (interval.lower - area.paddr) = interval.lower := by omega
  have hbyte := hflushed.filled area (interval.lower - area.paddr) (by omega) (by
    rw [hstart]
    exact ⟨Nat.le_refl _, hsome⟩)
  rw [download_keepsStart hfill hpart harea hinside hok, hstart] at hbyte
  exact hother hbyte.symm

/-- Bytes in another area are not flushed. -/
theorem inOneArea_of_flushesFill (hfill : IsFillSurface surface) (hpart : PartOf surface interval)
    (h : FlushesFill surface interval) : InOneArea interval := by
  intro area harea i hi hmeets
  obtain ⟨other, hother⟩ := exists_otherByte
    (surface.fillData.getD ((area.paddr + i - surface.addr) % surface.fillSize) 0)
  obtain ⟨flushed, hok, hflushed⟩ := h (constantMemory other)
  have hbyte := hflushed.filled area i hi hmeets
  rw [download_otherArea hfill hpart hok harea] at hbyte
  exact hother hbyte.symm

/-- A flush from the start of the surface on is right. -/
theorem fillFlushed_start (hfill : IsFillSurface surface) (hone : InOneArea interval)
    (harea : findArea interval.lower = some area) (hstart : interval.lower = surface.addr) :
    FillFlushed surface interval memory (coarselyFilled surface interval area memory) := by
  have hplace := findArea_some harea
  have hcoarse : coarseStart surface interval = 0 := by
    unfold coarseStart
    rw [hstart, Nat.sub_self, Nat.zero_mod]
  unfold coarselyFilled downloadSize
  rw [hcoarse, Nat.add_zero, Nat.sub_zero]
  constructor
  · intro other i hi hmeets
    by_cases hother : other = area
    · subst hother
      obtain ⟨hlower, hupper⟩ := hmeets
      obtain ⟨j, rfl⟩ := Nat.exists_eq_add_of_le
        (show interval.lower - other.paddr ≤ i by omega)
      have hplace' : other.paddr + (interval.lower - other.paddr + j) - surface.addr = j := by omega
      rw [bytes_filled, Span.get_fill_of_mem (by omega), length_fillPattern hfill,
        getD_fillPattern hfill, hplace']
    · exact absurd hmeets (hone other (by rw [harea]; simpa using Ne.symm hother) i hi)
  · intro other i hi hmeets
    by_cases hother : other = area
    · subst hother
      unfold Meets at hmeets
      rw [bytes_filled, Span.get_fill_of_notMem (by omega)]
    · rw [bytes_filled_of_ne hother]

theorem coarselyFilled_nothing (hnone : downloadSize interval area = 0) :
    (coarselyFilled surface interval area memory).bytes = memory.bytes := by
  unfold coarselyFilled
  rw [hnone, Nat.zero_sub]
  funext other
  by_cases hother : other = area
  · subst hother
    rw [bytes_filled, Span.fill_zero]
  · exact bytes_filled_of_ne hother

/-- The places that are kept end as far behind the start of the interval as that lies behind the
start of the surface. -/
theorem backup_end (hpart : PartOf surface interval) (hplace : area.paddr ≤ interval.lower) :
    interval.lower - area.paddr + coarseStart surface interval +
        (interval.lower - surface.addr) % surface.fillSize ≤ area.size ↔
      interval.lower + (interval.lower - surface.addr) ≤ area.paddr + area.size := by
  have hmod := Nat.mod_le (interval.lower - surface.addr) surface.fillSize
  have hlower := hpart.lower
  unfold coarseStart
  omega

/-- A flush without bytes gets to its end where the places that it keeps are in the area, -/
theorem fits_of_download (hfill : IsFillSurface surface) (hpart : PartOf surface interval)
    (harea : findArea interval.lower = some area)
    (hok : downloadFillSurface surface interval memory = .ok flushed) :
    surface.fillSize ∣ interval.lower - surface.addr ∨
      interval.lower + (interval.lower - surface.addr) ≤ area.paddr + area.size := by
  rw [downloadFillSurface_area hfill hpart harea] at hok
  split at hok
  · rename_i hwhole
    exact Or.inl (Nat.dvd_of_mod_eq_zero hwhole)
  · obtain ⟨backup, hread, -⟩ := bind_eq_ok.mp hok
    exact Or.inr ((backup_end hpart (findArea_some harea).1).mp (read_eq_ok.mp hread).1)

/-- and then leaves the memory as it was. -/
theorem download_nothing (hfill : IsFillSurface surface) (hpart : PartOf surface interval)
    (harea : findArea interval.lower = some area) (hnone : downloadSize interval area = 0)
    (hfits : surface.fillSize ∣ interval.lower - surface.addr ∨
      interval.lower + (interval.lower - surface.addr) ≤ area.paddr + area.size)
    (memory : GuestMemory) : ∃ flushed, downloadFillSurface surface interval memory = .ok flushed ∧
      SameBytes flushed memory := by
  have hbytes := @coarselyFilled_nothing surface interval memory area hnone
  rw [downloadFillSurface_area hfill hpart harea]
  by_cases hwhole : (interval.lower - surface.addr) % surface.fillSize = 0
  · rw [if_pos hwhole]
    refine ⟨_, rfl, fun other i _ => ?_⟩
    rw [hbytes]
  · have hbackup : interval.lower - area.paddr + coarseStart surface interval +
        (interval.lower - surface.addr) % surface.fillSize ≤ area.size := by
      rw [backup_end hpart (findArea_some harea).1]
      exact hfits.resolve_left fun hdvd => hwhole (Nat.mod_eq_zero_of_dvd hdvd)
    obtain ⟨flushed, hflushed⟩ := @exists_write (coarselyFilled surface interval area memory) area
      (interval.lower - area.paddr + coarseStart surface interval)
      ((memory.bytes area).read (interval.lower - area.paddr + coarseStart surface interval)
        ((interval.lower - surface.addr) % surface.fillSize)) (by rwa [Span.length_read])
    obtain ⟨hself, hothers⟩ := bytes_of_write hflushed
    rw [if_neg hwhole, read_eq_ok.mpr ⟨hbackup, rfl⟩, ok_bind]
    refine ⟨flushed, hflushed, sameBytes_of_area area (fun other hne => ?_) fun i _ => ?_⟩
    · rw [hothers other hne, hbytes]
    · rw [hself, hbytes, Span.get_write_read]

/-- A flush of a part of a fill is right exactly when it fits. -/
theorem flushesFill_iff (hfill : IsFillSurface surface) (hpart : PartOf surface interval) :
    FlushesFill surface interval ↔ FlushFits surface interval := by
  constructor
  · intro h
    refine ⟨inOneArea_of_flushesFill hfill hpart h, fun area harea => ?_⟩
    by_cases hstart : interval.lower = surface.addr
    · exact Or.inl hstart
    · have hlower := hpart.lower
      have hordered := hpart.ordered
      obtain ⟨flushed, hok, -⟩ := h (constantMemory 0)
      refine Or.inr ⟨?_, fits_of_download hfill hpart harea hok⟩
      by_contra hsome
      rw [not_or] at hsome
      exact not_flushesFill_inside hfill hpart harea (by omega) (by omega) hsome.2 h
  · rintro ⟨hone, hfits⟩ memory
    cases harea : findArea interval.lower with
    | none =>
        refine ⟨memory, ?_, ?_, fun _ _ _ _ => rfl⟩
        · unfold downloadFillSurface
          dsimp only
          rw [assert, if_pos ⟨hpart.lower, hpart.upper⟩, ok_bind, harea]
        · intro area i hi hmeets
          exact absurd hmeets (hone area (by rw [harea]; nofun) i hi)
    | some area =>
        rcases hfits area harea with hstart | ⟨hempty, hkept⟩
        · refine ⟨_, ?_, fillFlushed_start hfill hone harea hstart⟩
          rw [downloadFillSurface_area hfill hpart harea, hstart, Nat.sub_self, Nat.zero_mod,
            if_pos rfl]
        · have hnone : downloadSize interval area = 0 := by
            unfold downloadSize
            omega
          obtain ⟨flushed, hok, hsame⟩ := download_nothing hfill hpart harea hnone hkept memory
          refine ⟨flushed, hok, fun other i hi hmeets => ?_, fun other i hi _ => hsame other i hi⟩
          by_cases hother : findArea interval.lower = some other
          · obtain rfl := Option.some.inj (harea.symm.trans hother)
            obtain ⟨hlower, hupper⟩ := hmeets
            omega
          · exact absurd hmeets (hone other hother i hi)

/-- A fill of 16 bytes of the video memory with the value `0x44332211`. -/
def vramFill : Surface where
  addr := 0x18000000
  upper := 0x18000010
  size := 16
  type := .Fill
  fillData := [0x11, 0x22, 0x33, 0x44]
  fillSize := 4

theorem isFillSurface_vramFill : IsFillSurface vramFill := ⟨rfl, by decide, rfl⟩

theorem flushesFill_vramFill : FlushesFill vramFill ⟨0x18000000, 0x18000010⟩ := by
  refine (flushesFill_iff isFillSurface_vramFill ⟨by decide, by decide, by decide⟩).mpr
    ⟨fun area harea i hi hmeets => ?_, fun area _ => Or.inl rfl⟩
  have hvram : findArea 0x18000000 = some .vram := by decide
  unfold Meets at hmeets
  cases area with
  | vram => exact harea hvram
  | dspRam | fcram | n3dsExtraRam =>
      simp only [MemoryArea.paddr] at hmeets
      omega

/-- The second half is not filled when it is flushed by itself. -/
theorem not_flushesFill_secondHalf : IsFillSurface vramFill ∧
    PartOf vramFill ⟨0x18000008, 0x18000010⟩ ∧
      ¬ FlushesFill vramFill ⟨0x18000008, 0x18000010⟩ := by
  have hpart : PartOf vramFill ⟨0x18000008, 0x18000010⟩ := ⟨by decide, by decide, by decide⟩
  have hvram : findArea 0x18000008 = some .vram := by decide
  exact ⟨isFillSurface_vramFill, hpart, not_flushesFill_inside isFillSurface_vramFill hpart hvram
    (by decide) (by decide) (by decide)⟩

end Flushes

end Borked3DS.Analysis
