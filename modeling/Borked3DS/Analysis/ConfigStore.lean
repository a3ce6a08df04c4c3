import Mathlib.Data.List.Nodup
import Borked3DS.Analysis.ConfigEntries

/-!
# When the config savegame keeps its blocks

A savegame that holds the blocks in the order of their creation finds each of them, as long as no
block is created twice and the data has room.
-/

set_option autoImplicit false

namespace Borked3DS.Analysis

open Borked3DS.Library Borked3DS.Model Borked3DS.Model.CFG Borked3DS.Interface

/-! ## The blocks in the buffer -/

/-- Where the data of a block is, if `outside` is the place for data outside of its entry. -/
def blockPlace (i : ℕ) (block : ConfigBlock) (outside : ℕ) : ℕ :=
  if 4 < block.data.val.length then outside else entryOffset i + 4

/-- An entry of the buffer is that of a block. -/
structure HoldsBlock (buffer : ConfigBuffer) (i : ℕ) (block : ConfigBlock) (outside : ℕ) :
    Prop where
  blockId : (buffer.entry i).blockId = block.blockId
  size : (buffer.entry i).size.toNat = block.data.val.length
  accessFlags : (buffer.entry i).accessFlags = block.accessFlags
  place : 4 < block.data.val.length → (buffer.entry i).offsetOrData.toNat = outside
  data : buffer.span.read (blockPlace i block outside) block.data.val.length = block.data.val

/-- The buffer holds different blocks one after the other, and nothing behind them. -/
structure Stores (buffer : ConfigBuffer) (blocks : List ConfigBlock) : Prop where
  total : buffer.totalEntries = blocks.length
  bound : blocks.length ≤ CONFIG_FILE_MAX_BLOCK_ENTRIES
  start : buffer.dataEntriesOffset = 0x455C
  holds : ∀ i block, blocks[i]? = some block →
    HoldsBlock buffer i block (blocksEnd (blocks.take i))
  unused : ∀ i, blocks.length ≤ i → i < CONFIG_FILE_MAX_BLOCK_ENTRIES →
    buffer.entry i = ⟨0, 0, 0, 0⟩
  room : blocksEnd blocks ≤ CONFIG_SAVEFILE_SIZE
  distinct : (blocks.map ConfigBlock.blockId).Nodup

section Places

variable {buffer : ConfigBuffer} {blocks : List ConfigBlock} {block : ConfigBlock} {i j : ℕ}

theorem blocksEnd_append (blocks : List ConfigBlock) (block : ConfigBlock) :
    blocksEnd (blocks ++ [block]) = blocksEnd blocks + outsideSize block := by
  unfold blocksEnd
  rw [List.map_append, List.sum_append, List.map_singleton, List.sum_singleton, Nat.add_assoc]

theorem blocksEnd_take_succ (h : blocks[i]? = some block) :
    blocksEnd (blocks.take (i + 1)) = blocksEnd (blocks.take i) + outsideSize block := by
  rw [List.take_add_one, h, Option.toList_some, blocksEnd_append]

theorem blocksEnd_take_mono (h : i ≤ j) :
    blocksEnd (blocks.take i) ≤ blocksEnd (blocks.take j) := by
  obtain ⟨rest, hrest⟩ := List.take_prefix_take_left (l := blocks) h
  unfold blocksEnd
  rw [← hrest, List.map_append, List.sum_append]
  omega

theorem le_blocksEnd (blocks : List ConfigBlock) : 0x455C ≤ blocksEnd blocks :=
  Nat.le_add_right _ _

theorem lt_length (h : blocks[i]? = some block) : i < blocks.length :=
  (List.getElem?_eq_some_iff.mp h).1

/-- The data of a block in front of others lies in front of theirs. -/
theorem blocksEnd_take_add_le (h : blocks[i]? = some block) (hlong : 4 < block.data.val.length)
    (hij : i < j) :
    blocksEnd (blocks.take i) + block.data.val.length ≤ blocksEnd (blocks.take j) := by
  have hnext := blocksEnd_take_succ h
  unfold outsideSize at hnext
  rw [if_pos hlong] at hnext
  rw [← hnext]
  exact blocksEnd_take_mono hij

theorem blocksEnd_take_add_le_end (h : blocks[i]? = some block)
    (hlong : 4 < block.data.val.length) :
    blocksEnd (blocks.take i) + block.data.val.length ≤ blocksEnd blocks := by
  have hle := blocksEnd_take_add_le h hlong (lt_length h)
  rwa [List.take_length] at hle

/-- The entries lie in front of the data. -/
theorem entryOffset_add_le (h : i < CONFIG_FILE_MAX_BLOCK_ENTRIES) :
    entryOffset i + 12 ≤ 0x455C := by
  unfold CONFIG_FILE_MAX_BLOCK_ENTRIES at h
  unfold entryOffset
  omega

theorem Stores.lt_max (h : Stores buffer blocks) (hi : blocks[i]? = some block) :
    i < CONFIG_FILE_MAX_BLOCK_ENTRIES := Nat.lt_of_lt_of_le (lt_length hi) h.bound

/-- The data of a block lies behind the count of entries and inside the buffer, -/
theorem Stores.blockPlace_bounds (h : Stores buffer blocks) (hi : blocks[i]? = some block) :
    8 ≤ blockPlace i block (blocksEnd (blocks.take i)) ∧
      blockPlace i block (blocksEnd (blocks.take i)) + block.data.val.length ≤
        CONFIG_SAVEFILE_SIZE := by
  have hroom := h.room
  unfold blockPlace
  split
  · rename_i hlong
    have hend := blocksEnd_take_add_le_end hi hlong
    have hstart := le_blocksEnd (blocks.take i)
    omega
  · have hentry := entryOffset_add_le (h.lt_max hi)
    unfold CONFIG_SAVEFILE_SIZE entryOffset at *
    omega

/-- apart from the entries of others, and from the first and the last word of its own, -/
theorem Stores.blockPlace_apart_entry (h : Stores buffer blocks) (hi : blocks[i]? = some block)
    (hj : j < CONFIG_FILE_MAX_BLOCK_ENTRIES) :
    (j ≠ i → entryOffset j + 12 ≤ blockPlace i block (blocksEnd (blocks.take i)) ∨
      blockPlace i block (blocksEnd (blocks.take i)) + block.data.val.length ≤ entryOffset j) ∧
    entryOffset i + 4 ≤ blockPlace i block (blocksEnd (blocks.take i)) ∧
    (entryOffset i + 12 ≤ blockPlace i block (blocksEnd (blocks.take i)) ∨
      blockPlace i block (blocksEnd (blocks.take i)) + block.data.val.length ≤
        entryOffset i + 8) := by
  have hentry := entryOffset_add_le (h.lt_max hi)
  have hother := entryOffset_add_le hj
  have hstart := le_blocksEnd (blocks.take i)
  unfold blockPlace
  split
  · omega
  · unfold entryOffset at *
    omega

/-- and apart from that of another one. -/
theorem Stores.blockPlace_apart {other : ConfigBlock} (h : Stores buffer blocks)
    (hi : blocks[i]? = some block) (hj : blocks[j]? = some other) (hne : i ≠ j) :
    blockPlace j other (blocksEnd (blocks.take j)) + other.data.val.length ≤
        blockPlace i block (blocksEnd (blocks.take i)) ∨
      blockPlace i block (blocksEnd (blocks.take i)) + block.data.val.length ≤
        blockPlace j other (blocksEnd (blocks.take j)) := by
  have hentry := entryOffset_add_le (h.lt_max hi)
  have hother := entryOffset_add_le (h.lt_max hj)
  have hstart := le_blocksEnd (blocks.take i)
  have hotherStart := le_blocksEnd (blocks.take j)
  unfold blockPlace
  by_cases hlong : 4 < block.data.val.length
  · by_cases hotherLong : 4 < other.data.val.length
    · rw [if_pos hlong, if_pos hotherLong]
      rcases Nat.lt_or_gt_of_ne hne with hlt | hgt
      · exact Or.inr (blocksEnd_take_add_le hi hlong hlt)
      · exact Or.inl (blocksEnd_take_add_le hj hotherLong hgt)
    · rw [if_pos hlong, if_neg hotherLong]
      omega
  · by_cases hotherLong : 4 < other.data.val.length
    · rw [if_neg hlong, if_pos hotherLong]
      omega
    · rw [if_neg hlong, if_neg hotherLong]
      unfold entryOffset
      omega

end Places

/-! ## Lookups -/

section Lookups

variable {buffer : ConfigBuffer} {blocks : List ConfigBlock} {block : ConfigBlock} {i : ℕ}
  {blockId size : UInt32} {accessFlag : AccessFlag}

/-- A block is found by its entry, -/
theorem Stores.findEntry_mem (h : Stores buffer blocks) (hi : blocks[i]? = some block)
    (hid : block.blockId = blockId) : buffer.findEntry blockId = some i := by
  unfold ConfigBuffer.findEntry
  rw [List.find?_range_eq_some]
  refine ⟨?_, List.mem_range.mpr (h.lt_max hi), fun j hj => ?_⟩
  · exact decide_eq_true ((h.holds i block hi).blockId.trans hid)
  · obtain ⟨other, hother⟩ : ∃ other, blocks[j]? = some other :=
      ⟨_, List.getElem?_eq_getElem (Nat.lt_trans hj (lt_length hi))⟩
    rw [Bool.not_eq_true', decide_eq_false_iff_not, (h.holds j other hother).blockId, ← hid]
    intro hsame
    have hids : (blocks.map ConfigBlock.blockId)[j]? = (blocks.map ConfigBlock.blockId)[i]? := by
      rw [List.getElem?_map, List.getElem?_map, hother, hi, Option.map_some, Option.map_some, hsame]
    have hlength : j < (blocks.map ConfigBlock.blockId).length := by
      rw [List.length_map]
      exact Nat.lt_trans hj (lt_length hi)
    exact Nat.ne_of_lt hj ((List.getElem?_inj hlength h.distinct).mp hids)

/-- and what is not a block, by an unused entry at most. -/
theorem Stores.findEntry_notMem (h : Stores buffer blocks)
    (hid : ∀ block ∈ blocks, block.blockId ≠ blockId) :
    buffer.findEntry blockId = none ∨
      ∃ i, buffer.findEntry blockId = some i ∧ buffer.entry i = ⟨0, 0, 0, 0⟩ := by
  cases hfind : buffer.findEntry blockId with
  | none => exact Or.inl rfl
  | some i =>
      refine Or.inr ⟨i, rfl, ?_⟩
      have hmax := List.mem_range.mp (List.mem_of_find?_eq_some hfind)
      have hfound := List.find?_some hfind
      have hfound := of_decide_eq_true hfound
      refine h.unused i (Nat.le_of_not_lt fun hlt => ?_) hmax
      have hblock := List.getElem?_eq_getElem hlt
      exact hid _ (List.getElem_mem hlt) ((h.holds i _ hblock).blockId.symm.trans hfound)

/-- The access to a block. -/
theorem HoldsBlock.accessEntry {outside : ℕ} (h : HoldsBlock buffer i block outside) :
    accessEntry buffer i size accessFlag =
      if block.accessFlags &&& accessFlag = 0 then .error .notAuthorized
      else if block.data.val.length ≠ size.toNat then .error .invalidSize
      else .ok (blockPlace i block outside) := by
  have hsize : (buffer.entry i).size.toUInt32 = size ↔ block.data.val.length = size.toNat := by
    rw [← UInt32.toNat_inj, UInt16.toNat_toUInt32, h.size]
  have hshort : (buffer.entry i).size ≤ 4 ↔ ¬ 4 < block.data.val.length := by
    rw [UInt16.le_iff_toNat_le, h.size, Nat.not_lt]
    rfl
  unfold CFG.accessEntry blockPlace
  dsimp only
  rw [h.accessFlags]
  simp only [ne_eq, hsize, hshort]
  split
  · rfl
  · split
    · rfl
    · by_cases hlong : 4 < block.data.val.length
      · rw [if_neg (not_not_intro hlong), if_pos hlong, h.place hlong]
      · rw [if_pos hlong, if_neg hlong]

/-- All blocks that have a default are there. -/
def HasDefaults (blocks : List ConfigBlock) : Prop :=
  ∀ blockId block, getDefaultConfigBlock blockId = some block →
    ∃ other ∈ blocks, other.blockId = blockId

theorem withDefault_of_hasDefaults (h : HasDefaults blocks) (blockId : UInt32) :
    withDefault blocks blockId = blocks := by
  unfold withDefault
  split
  · rfl
  · rename_i hmissing
    split
    · cases hdefault : getDefaultConfigBlock blockId with
      | none => rw [Option.toList_none, List.append_nil]
      | some block => exact absurd (h blockId block hdefault) hmissing
    · rfl

/-- A block is reached where its data is, -/
theorem Stores.getConfigBlockPointer_mem (h : Stores buffer blocks) (hi : blocks[i]? = some block)
    (hid : block.blockId = blockId) (opened : Bool) :
    getConfigBlockPointer buffer opened blockId size accessFlag = .ok (buffer,
      if block.accessFlags &&& accessFlag = 0 then .error .notAuthorized
      else if block.data.val.length ≠ size.toNat then .error .invalidSize
      else .ok (blockPlace i block (blocksEnd (blocks.take i)))) := by
  unfold getConfigBlockPointer
  rw [h.findEntry_mem hi hid]
  dsimp only
  rw [(h.holds i block hi).accessEntry]

/-- and nothing else is. -/
theorem Stores.getConfigBlockPointer_notMem (h : Stores buffer blocks)
    (hdefaults : HasDefaults blocks) (hid : ∀ block ∈ blocks, block.blockId ≠ blockId)
    (opened : Bool) : ∃ result, result ≠ .success ∧
      getConfigBlockPointer buffer opened blockId size accessFlag = .ok (buffer, .error result) := by
  unfold getConfigBlockPointer
  rcases h.findEntry_notMem hid with hnone | ⟨i, hi, hunused⟩
  · rw [hnone]
    cases hdefault : getDefaultConfigBlock blockId with
    | none => exact ⟨.notFound, nofun, rfl⟩
    | some block =>
        obtain ⟨other, hmem, hother⟩ := hdefaults blockId block hdefault
        exact absurd hother (hid other hmem)
  · rw [hi]
    dsimp only
    unfold CFG.accessEntry
    rw [hunused, if_pos (UInt16.zero_and)]
    exact ⟨.notAuthorized, nofun, rfl⟩

end Lookups

/-! ## New data -/

section Updates

variable {buffer buffer' : ConfigBuffer} {blocks : List ConfigBlock} {block : ConfigBlock} {i : ℕ}
  {blockId : UInt32}

/-- A block is still held where its entry and its data are the same; the second word of the entry
is data if the block is a small one. -/
theorem HoldsBlock.of_same {outside : ℕ} (h : HoldsBlock buffer i block outside)
    (hfirst : SameFrom buffer buffer' (entryOffset i) 4)
    (hlast : SameFrom buffer buffer' (entryOffset i + 8) 4)
    (hplace : 4 < block.data.val.length → SameFrom buffer buffer' (entryOffset i + 4) 4)
    (hdata : SameFrom buffer buffer' (blockPlace i block outside) block.data.val.length) :
    HoldsBlock buffer' i block outside where
  blockId := (congrArg UInt32.ofNat hfirst.field).trans h.blockId
  size := by
    have hsize := SameFrom.field (hlast.part (by decide : 0 + 2 ≤ 4))
    exact (congrArg (fun n => (UInt16.ofNat n).toNat) hsize).trans h.size
  accessFlags := by
    have hflags := SameFrom.field (hlast.part (by decide : 2 + 2 ≤ 4))
    exact (congrArg UInt16.ofNat hflags).trans h.accessFlags
  place := fun hlong =>
    (congrArg (fun n => (UInt32.ofNat n).toNat) (hplace hlong).field).trans (h.place hlong)
  data := hdata.read.trans h.data

/-- The place for new data is behind that of the blocks. -/
theorem Stores.nextOffset (h : Stores buffer blocks) :
    (nextOffset buffer).toNat = blocksEnd blocks := by
  have hprefix : ∀ n ≤ blocks.length,
      (((List.range n).reverse.find? fun i => decide (4 < (buffer.entry i).size.toNat)).elim
        (UInt32.ofNat buffer.dataEntriesOffset)
        fun i => (buffer.entry i).offsetOrData + (buffer.entry i).size.toUInt32).toNat =
          blocksEnd (blocks.take n) := by
    intro n
    induction n with
    | zero =>
        intro _
        rw [List.range_zero, List.reverse_nil, List.find?_nil, Option.elim_none, h.start]
        rfl
    | succ n ih =>
        intro hn
        have hblock := List.getElem?_eq_getElem hn
        have hholds := h.holds n _ hblock
        rw [List.range_succ, List.reverse_append, List.reverse_singleton, List.singleton_append,
          List.find?_cons, blocksEnd_take_succ hblock, hholds.size]
        unfold outsideSize
        by_cases hlong : 4 < (blocks[n]).data.val.length
        · have hend := blocksEnd_take_add_le_end hblock hlong
          have hroom := h.room
          unfold CONFIG_SAVEFILE_SIZE at hroom
          simp only [hlong, decide_true, if_true, Option.elim_some]
          rw [UInt32.toNat_add, UInt16.toNat_toUInt32, hholds.size, hholds.place hlong,
            Nat.mod_eq_of_lt (by omega)]
        · simp only [hlong, decide_false, if_false, Nat.add_zero]
          exact ih (Nat.le_of_succ_le hn)
  have hall := hprefix blocks.length (Nat.le_refl _)
  rw [List.take_length] at hall
  unfold CFG.nextOffset
  rw [h.total, ← hall]
  cases (List.range blocks.length).reverse.find? fun i =>
    decide (4 < (buffer.entry i).size.toNat) <;> rfl

/-- A new block for which there is an entry and room is held behind the others. -/
theorem Stores.create (h : Stores buffer blocks)
    (hleft : blocks.length < CONFIG_FILE_MAX_BLOCK_ENTRIES)
    (hnew : ∀ other ∈ blocks, other.blockId ≠ block.blockId)
    (hroom : blocksEnd blocks + outsideSize block ≤ CONFIG_SAVEFILE_SIZE) :
    Stores (created buffer block) (blocks ++ [block]) := by
  have hnext := h.nextOffset
  have htotal := h.total
  have hstart := le_blocksEnd blocks
  have hbehind : 4 < block.data.val.length → 0x455C ≤ (CFG.nextOffset buffer).toNat :=
    fun _ => hnext ▸ hstart
  have hleft' : buffer.totalEntries < CONFIG_FILE_MAX_BLOCK_ENTRIES := htotal ▸ hleft
  have hmax := entryOffset_add_le hleft
  -- What is the same, by what the buffer held.
  have hsame : ∀ offset n, 2 ≤ offset → (offset + n ≤ entryOffset blocks.length ∨
      entryOffset blocks.length + 12 ≤ offset) → offset + n ≤ blocksEnd blocks →
        SameFrom buffer (created buffer block) offset n := fun offset n hcount hentry hdata =>
    created_same hcount (htotal ▸ hentry) fun _ => Or.inl (hnext ▸ hdata)
  refine ⟨?_, ?_, ?_, ?_, ?_, ?_, ?_⟩
  · rw [totalEntries_created hbehind hleft', htotal, List.length_append, List.length_singleton]
  · rw [List.length_append, List.length_singleton]
    exact hleft
  · exact (dataEntriesOffset_created hbehind).trans h.start
  · intro i other hi
    rcases Nat.lt_or_ge i blocks.length with hlt | hge
    · rw [List.getElem?_append_left hlt] at hi
      rw [List.take_append_of_le_length (Nat.le_of_lt hlt)]
      have hentry : entryOffset i + 12 ≤ entryOffset blocks.length := by
        unfold entryOffset
        omega
      have hplace : 2 ≤ entryOffset i := by
        unfold entryOffset
        omega
      refine (h.holds i other hi).of_same (hsame _ _ hplace (by omega) (by omega))
        (hsame _ _ (by omega) (by omega) (by omega))
        (fun _ => hsame _ _ (by omega) (by omega) (by omega)) ?_
      unfold blockPlace
      split
      · rename_i hlong
        have hend := blocksEnd_take_add_le_end hi hlong
        have hfront := le_blocksEnd (blocks.take i)
        exact hsame _ _ (by omega) (by omega) hend
      · exact hsame _ _ (by omega) (by omega) (by omega)
    · rw [List.getElem?_append_right hge] at hi
      have hi' : i - blocks.length = 0 := by
        have hlt := lt_length hi
        rw [List.length_singleton] at hlt
        omega
      rw [hi'] at hi
      obtain rfl : block = other := Option.some.inj hi
      obtain rfl : i = blocks.length := by omega
      rw [List.take_left]
      obtain ⟨hid, hsize, hflags, hoffset⟩ := entry_created hbehind hleft'
      rw [htotal] at hid hsize hflags hoffset
      refine ⟨hid, hsize, hflags, fun hlong => (congrArg UInt32.toNat (hoffset hlong)).trans hnext,
        ?_⟩
      have hread := read_created hbehind
      rw [hnext, htotal] at hread
      exact hread
  · intro i hi himax
    rw [List.length_append, List.length_singleton] at hi
    have hentry := entryOffset_add_le himax
    rw [SameFrom.entry (hsame (entryOffset i) 12 ?_ (Or.inr ?_) (by omega))]
    · exact h.unused i (by omega) himax
    · unfold entryOffset
      omega
    · unfold entryOffset
      omega
  · rw [blocksEnd_append]
    exact hroom
  · rw [List.map_append, List.map_singleton]
    refine List.nodup_append.mpr ⟨h.distinct, List.pairwise_singleton _ _, ?_⟩
    intro id hid other hother
    obtain ⟨found, hfound, rfl⟩ := List.mem_map.mp hid
    rw [List.mem_singleton.mp hother]
    exact hnew found hfound

/-- The size of a block outside of its entry is that of its data. -/
theorem outsideSize_congr {other : ConfigBlock}
    (h : other.data.val.length = block.data.val.length) :
    outsideSize other = outsideSize block := by
  unfold outsideSize
  rw [h]

/-- Data of the same size is set in its place. -/
theorem Stores.set (h : Stores buffer blocks) (hi : blocks[i]? = some block)
    (hid : block.blockId = blockId) {input : List UInt8}
    (hlength : input.length = block.data.val.length) :
    Stores (buffer.put (blockPlace i block (blocksEnd (blocks.take i))) input)
      (setBlock blocks blockId input) := by
  have hbounds := h.blockPlace_bounds hi
  have hshort : input.length < 2 ^ 16 := hlength ▸ block.data.property
  have hset : setBlock blocks blockId input = blocks.map fun other =>
      if other.blockId = blockId then { other with data := ⟨input, hshort⟩ } else other :=
    dif_pos hshort
  -- The only block that is set is the one that was found.
  have hone : ∀ j other, blocks[j]? = some other → other.blockId = blockId → j = i := by
    intro j other hj hother
    have hids : (blocks.map ConfigBlock.blockId)[j]? = (blocks.map ConfigBlock.blockId)[i]? := by
      rw [List.getElem?_map, List.getElem?_map, hj, hi, Option.map_some, Option.map_some, hother,
        hid]
    refine (List.getElem?_inj ?_ h.distinct).mp hids
    rw [List.length_map]
    exact lt_length hj
  have hsizes : (setBlock blocks blockId input).map outsideSize = blocks.map outsideSize := by
    rw [hset, List.map_map]
    apply List.map_congr_left
    intro other hmem
    obtain ⟨j, hj⟩ := List.mem_iff_getElem?.mp hmem
    dsimp only [Function.comp]
    split
    · rename_i hother
      obtain rfl := hone j other hj hother
      obtain rfl := Option.some.inj (hi.symm.trans hj)
      exact outsideSize_congr hlength
    · rfl
  have hends : ∀ n, blocksEnd ((setBlock blocks blockId input).take n) =
      blocksEnd (blocks.take n) := by
    intro n
    unfold blocksEnd
    rw [List.map_take, List.map_take, hsizes]
  have hids : (setBlock blocks blockId input).map ConfigBlock.blockId =
      blocks.map ConfigBlock.blockId := by
    rw [hset, List.map_map]
    apply List.map_congr_left
    intro other _
    dsimp only [Function.comp]
    split <;> rfl
  have hcount : (setBlock blocks blockId input).length = blocks.length := by
    rw [hset, List.length_map]
  have hheader : SameFrom buffer
      (buffer.put (blockPlace i block (blocksEnd (blocks.take i))) input) 0 4 :=
    sameFrom_put (Or.inl (by omega))
  have hentry : ∀ j, j < CONFIG_FILE_MAX_BLOCK_ENTRIES → j ≠ i → SameFrom buffer
      (buffer.put (blockPlace i block (blocksEnd (blocks.take i))) input) (entryOffset j) 12 := by
    intro j hj hne
    have hapart := (h.blockPlace_apart_entry hi hj).1 hne
    exact sameFrom_put (by omega)
  refine ⟨?_, hcount ▸ h.bound, ?_, ?_, ?_, ?_, hids ▸ h.distinct⟩
  · rw [hheader.totalEntries, h.total, hcount]
  · rw [hheader.dataEntriesOffset, h.start]
  · intro j other hj
    rw [hends]
    rw [hset, List.getElem?_map] at hj
    obtain ⟨before, hbefore, rfl⟩ := Option.map_eq_some_iff.mp hj
    have hholds := h.holds j before hbefore
    have hmax := h.lt_max hbefore
    by_cases hne : j = i
    · subst hne
      obtain rfl := Option.some.inj (hi.symm.trans hbefore)
      rw [if_pos hid]
      have hown := (h.blockPlace_apart_entry hi hmax).2
      have hplace : blockPlace j { block with data := ⟨input, hshort⟩ }
          (blocksEnd (blocks.take j)) = blockPlace j block (blocksEnd (blocks.take j)) := by
        unfold blockPlace
        dsimp only
        rw [hlength]
      have hfirst : SameFrom buffer
          (buffer.put (blockPlace j block (blocksEnd (blocks.take j))) input) (entryOffset j) 4 :=
        sameFrom_put (Or.inl hown.1)
      have hlast : SameFrom buffer
          (buffer.put (blockPlace j block (blocksEnd (blocks.take j))) input)
            (entryOffset j + 8) 4 := sameFrom_put (by omega)
      refine ⟨(congrArg UInt32.ofNat hfirst.field).trans hholds.blockId, ?_, ?_, fun hlong => ?_, ?_⟩
      · have hsize := SameFrom.field (hlast.part (by decide : 0 + 2 ≤ 4))
        refine (congrArg (fun n => (UInt16.ofNat n).toNat) hsize).trans ?_
        exact hholds.size.trans hlength.symm
      · have hflags := SameFrom.field (hlast.part (by decide : 2 + 2 ≤ 4))
        exact (congrArg UInt16.ofNat hflags).trans hholds.accessFlags
      · have hlong : 4 < block.data.val.length := hlength ▸ hlong
        have hsecond : SameFrom buffer
            (buffer.put (blockPlace j block (blocksEnd (blocks.take j))) input)
              (entryOffset j + 4) 4 := by
          have hinside := entryOffset_add_le hmax
          have hfront := le_blocksEnd (blocks.take j)
          unfold blockPlace
          rw [if_pos hlong]
          exact sameFrom_put (by omega)
        refine (congrArg (fun n => (UInt32.ofNat n).toNat) hsecond.field).trans ?_
        exact hholds.place hlong
      · rw [hplace]
        exact read_put
    · have hother : before.blockId ≠ blockId := fun hsame => hne (hone j before hbefore hsame)
      rw [if_neg hother]
      have hsame := hentry j hmax hne
      have hdata := h.blockPlace_apart hi hbefore (Ne.symm hne)
      refine hholds.of_same (hsame.part (by decide : 0 + 4 ≤ 12))
        (hsame.part (by decide : 8 + 4 ≤ 12)) (fun _ => hsame.part (by decide : 4 + 4 ≤ 12))
        (sameFrom_put (by omega))
  · intro j hj hjmax
    rw [hcount] at hj
    have hilt := lt_length hi
    rw [SameFrom.entry (hentry j hjmax (by omega))]
    exact h.unused j hj hjmax
  · have hend := hends (setBlock blocks blockId input).length
    rw [List.take_length, hcount, List.take_length] at hend
    rw [hend]
    exact h.room

end Updates

/-! ## Calls -/

section Calls

variable {buffer : ConfigBuffer} {blocks : List ConfigBlock} {block : ConfigBlock} {i : ℕ}
  {blockId size : UInt32} {accessFlag : AccessFlag}

/-- A savegame that holds blocks is well formed. -/
theorem Stores.wellFormed (h : Stores buffer blocks) : WellFormed buffer := by
  have hblock : ∀ j < buffer.totalEntries, ∃ block, blocks[j]? = some block := fun j hj =>
    ⟨_, List.getElem?_eq_getElem (h.total ▸ hj)⟩
  refine ⟨fun i j hij hj => ?_, fun i j hij hj hi4 hj4 => ?_, fun i hi hlong => ?_⟩
  · obtain ⟨block, hi⟩ := hblock i (Nat.lt_trans hij hj)
    obtain ⟨other, hother⟩ := hblock j hj
    rw [(h.holds i block hi).blockId, (h.holds j other hother).blockId]
    intro hsame
    have hids : (blocks.map ConfigBlock.blockId)[i]? = (blocks.map ConfigBlock.blockId)[j]? := by
      rw [List.getElem?_map, List.getElem?_map, hi, hother, Option.map_some, Option.map_some, hsame]
    have hlength : i < (blocks.map ConfigBlock.blockId).length := by
      rw [List.length_map]
      exact lt_length hi
    exact Nat.ne_of_lt hij ((List.getElem?_inj hlength h.distinct).mp hids)
  · obtain ⟨block, hi⟩ := hblock i (Nat.lt_trans hij hj)
    obtain ⟨other, hother⟩ := hblock j hj
    have hholds := h.holds i block hi
    have hholds' := h.holds j other hother
    rw [hholds.size] at hi4 ⊢
    rw [hholds'.size] at hj4 ⊢
    rw [hholds.place hi4, hholds'.place hj4]
    exact Or.inl (blocksEnd_take_add_le hi hi4 hij)
  · obtain ⟨block, hi⟩ := hblock i hi
    have hholds := h.holds i block hi
    rw [hholds.size] at hlong ⊢
    rw [hholds.place hlong, h.start]
    exact ⟨le_blocksEnd _, Nat.le_trans (blocksEnd_take_add_le_end hi hlong) h.room⟩

/-- Blocks with different ids are found by them. -/
theorem eq_of_blockId (h : (blocks.map ConfigBlock.blockId).Nodup) {other : ConfigBlock}
    (hblock : block ∈ blocks) (hother : other ∈ blocks) (hid : block.blockId = other.blockId) :
    block = other := List.inj_on_of_nodup_map h hblock hother hid

/-- A block is read as it is held, and nothing else is read. -/
theorem Stores.get (h : Stores buffer blocks) (hdefaults : HasDefaults blocks) (opened : Bool)
    {artic : Option ArticAnswer}
    (hartic : (if getFromArtic blockId accessFlag then artic else none) = none) :
    ∃ outcome, getConfigBlock buffer opened artic blockId size accessFlag = .ok (buffer, outcome) ∧
      ReadsBlock blocks blockId size accessFlag outcome := by
  unfold getConfigBlock
  rw [hartic]
  dsimp only
  by_cases hid : ∃ block ∈ blocks, block.blockId = blockId
  · obtain ⟨block, hmem, hid⟩ := hid
    obtain ⟨i, hi⟩ := List.mem_iff_getElem?.mp hmem
    rw [h.getConfigBlockPointer_mem hi hid opened, ok_bind]
    dsimp only
    have honly : ∀ other ∈ blocks, other.blockId = blockId → other = block := fun other hother h' =>
      eq_of_blockId h.distinct hother hmem (h'.trans hid.symm)
    by_cases hflags : block.accessFlags &&& accessFlag = 0
    · rw [if_pos hflags]
      refine ⟨_, rfl, fun other hother hother' hallowed => ?_, nofun⟩
      exact absurd hflags (honly other hother hother' ▸ hallowed)
    · rw [if_neg hflags]
      by_cases hsize : block.data.val.length ≠ size.toNat
      · rw [if_pos hsize]
        refine ⟨_, rfl, fun other hother hother' _ hlength => ?_, nofun⟩
        exact absurd (honly other hother hother' ▸ hlength) hsize
      · have hlength := not_not.mp hsize
        have hbounds := (h.blockPlace_bounds hi).2
        rw [if_neg hsize]
        dsimp only
        rw [ConfigBuffer.read, ← hlength, if_pos hbounds, ok_bind, (h.holds i block hi).data]
        refine ⟨_, rfl, fun other hother hother' _ _ => ?_, fun bytes hbytes => ?_⟩
        · rw [honly other hother hother']
        · exact ⟨block, hmem, hid, Except.ok.inj hbytes⟩
  · have hmissing : ∀ block ∈ blocks, block.blockId ≠ blockId := fun block hmem h' =>
      hid ⟨block, hmem, h'⟩
    obtain ⟨result, -, hpointer⟩ := h.getConfigBlockPointer_notMem hdefaults hmissing opened
    rw [hpointer, ok_bind]
    exact ⟨_, rfl, fun block hmem h' => absurd h' (hmissing block hmem), nofun⟩

/-- A block that may be set is. -/
theorem Stores.setConfigBlock_mem (h : Stores buffer blocks) (hmem : block ∈ blocks)
    (hid : block.blockId = blockId) (hflags : block.accessFlags &&& accessFlag ≠ 0)
    (opened : Bool) {input : { input : List UInt8 // input.length < 2 ^ 32 }}
    (hlength : block.data.val.length = input.val.length) :
    ∃ buffer', setConfigBlock buffer opened blockId accessFlag input = .ok (.success, buffer') ∧
      Stores buffer' (setBlock blocks blockId input.val) := by
  have hinput : (UInt32.ofNat input.val.length).toNat = input.val.length :=
    UInt32.toNat_ofNat_of_lt' input.property
  obtain ⟨i, hi⟩ := List.mem_iff_getElem?.mp hmem
  have hbounds := (h.blockPlace_bounds hi).2
  unfold setConfigBlock
  rw [h.getConfigBlockPointer_mem hi hid opened, ok_bind, hinput, if_neg hflags,
    if_neg (not_not_intro hlength)]
  dsimp only
  rw [ConfigBuffer.write, ← hlength, if_pos hbounds, ok_bind]
  exact ⟨_, rfl, h.set hi hid hlength.symm⟩

/-- A block is set, or nothing happens. -/
theorem Stores.setConfigBlock (h : Stores buffer blocks) (hdefaults : HasDefaults blocks)
    (opened : Bool) (input : { input : List UInt8 // input.length < 2 ^ 32 }) :
    ∃ result buffer', CFG.setConfigBlock buffer opened blockId accessFlag input =
        .ok (result, buffer') ∧
      Stores buffer' (if result = .success then setBlock blocks blockId input.val else blocks) := by
  have hinput : (UInt32.ofNat input.val.length).toNat = input.val.length :=
    UInt32.toNat_ofNat_of_lt' input.property
  by_cases hid : ∃ block ∈ blocks, block.blockId = blockId
  · obtain ⟨block, hmem, hid⟩ := hid
    obtain ⟨i, hi⟩ := List.mem_iff_getElem?.mp hmem
    by_cases hflags : block.accessFlags &&& accessFlag = 0
    · unfold CFG.setConfigBlock
      rw [h.getConfigBlockPointer_mem hi hid opened, ok_bind, if_pos hflags]
      exact ⟨_, _, rfl, by rwa [if_neg nofun]⟩
    · by_cases hsize : block.data.val.length = input.val.length
      · obtain ⟨buffer', hset, hstores⟩ := h.setConfigBlock_mem hmem hid hflags opened hsize
        refine ⟨_, _, hset, ?_⟩
        rwa [if_pos rfl]
      · unfold CFG.setConfigBlock
        rw [h.getConfigBlockPointer_mem hi hid opened, ok_bind, hinput, if_neg hflags,
          if_pos hsize]
        exact ⟨_, _, rfl, by rwa [if_neg nofun]⟩
  · have hmissing : ∀ block ∈ blocks, block.blockId ≠ blockId := fun block hmem h' =>
      hid ⟨block, hmem, h'⟩
    obtain ⟨result, hresult, hpointer⟩ :=
      h.getConfigBlockPointer_notMem hdefaults hmissing opened
    unfold CFG.setConfigBlock
    rw [hpointer, ok_bind]
    exact ⟨_, _, rfl, by rwa [if_neg hresult]⟩

theorem blockId_mem_setBlock {input : List UInt8} {id : UInt32}
    (h : ∃ block ∈ blocks, block.blockId = id) :
    ∃ block ∈ setBlock blocks blockId input, block.blockId = id := by
  unfold setBlock
  split
  · obtain ⟨block, hmem, hid⟩ := h
    refine ⟨_, List.mem_map_of_mem hmem, ?_⟩
    split <;> exact hid
  · exact h

theorem mem_setBlock_of_ne {input : List UInt8} (hmem : block ∈ blocks)
    (hne : block.blockId ≠ blockId) : block ∈ setBlock blocks blockId input := by
  unfold setBlock
  split
  · exact List.mem_map.mpr ⟨block, hmem, if_neg hne⟩
  · exact hmem

theorem HasDefaults.setBlock (h : HasDefaults blocks) (blockId : UInt32) (input : List UInt8) :
    HasDefaults (setBlock blocks blockId input) := fun id block hdefault =>
  blockId_mem_setBlock (h id block hdefault)

theorem HasDefaults.append (h : HasDefaults blocks) (more : List ConfigBlock) :
    HasDefaults (blocks ++ more) := by
  intro id block hdefault
  obtain ⟨other, hmem, hid⟩ := h id block hdefault
  exact ⟨other, List.mem_append_left more hmem, hid⟩

/-- A new block is held, if there is an entry left. -/
theorem Stores.createConfigBlock (h : Stores buffer blocks)
    (hfits : blocks.length < CONFIG_FILE_MAX_BLOCK_ENTRIES →
      (∀ other ∈ blocks, other.blockId ≠ block.blockId) ∧
        (4 < block.data.val.length →
          blocksEnd blocks + block.data.val.length ≤ CONFIG_SAVEFILE_SIZE)) :
    ∃ result buffer', CFG.createConfigBlock buffer block = .ok (result, buffer') ∧
      (result = .success ↔ blocks.length < CONFIG_FILE_MAX_BLOCK_ENTRIES) ∧
      Stores buffer' (if result = .success then blocks ++ [block] else blocks) := by
  by_cases hleft : blocks.length < CONFIG_FILE_MAX_BLOCK_ENTRIES
  · obtain ⟨hnew, hroom⟩ := hfits hleft
    rw [createConfigBlock_eq (h.total ▸ hleft), if_pos (by rwa [h.nextOffset])]
    refine ⟨_, _, rfl, iff_of_true rfl hleft, ?_⟩
    rw [if_pos rfl]
    refine h.create hleft hnew ?_
    unfold outsideSize
    split
    · rename_i hlong
      exact hroom hlong
    · exact h.room
  · unfold CFG.createConfigBlock
    rw [if_pos (h.total ▸ Nat.le_of_not_lt hleft)]
    exact ⟨_, _, rfl, iff_of_false nofun hleft, by rwa [if_neg nofun]⟩

end Calls

/-! ## The format -/

section Format

variable {buffer : ConfigBuffer} {blocks defaultBlocks : List ConfigBlock}

theorem toLittleEndian_zero (n : ℕ) : toLittleEndian n 0 = List.replicate n 0 := by
  induction n with
  | zero => rfl
  | succ n ih =>
      rw [toLittleEndian, List.replicate_succ, Nat.zero_div, ih]
      rfl

/-- The buffer that the format starts with holds nothing. -/
theorem stores_empty : Stores (emptyBuffer.put 2 (toLittleEndian 2 0x455C)) [] := by
  have hzero : ∀ offset n, emptyBuffer.field offset n = 0 := by
    intro offset n
    have hbytes : emptyBuffer.span.read offset n = List.replicate n 0 :=
      List.eq_replicate_iff.mpr ⟨Span.length_read, fun byte hbyte => by
        obtain ⟨i, -, rfl⟩ := List.mem_map.mp hbyte
        rfl⟩
    unfold ConfigBuffer.field
    rw [hbytes, ← toLittleEndian_zero, ofLittleEndian_of_lt (Nat.pow_pos (by decide))]
  have hsame : ∀ offset n, offset + n ≤ 2 ∨ 4 ≤ offset →
      SameFrom emptyBuffer (emptyBuffer.put 2 (toLittleEndian 2 0x455C)) offset n :=
    fun offset n h => sameFrom_put (by rwa [length_toLittleEndian])
  refine ⟨?_, Nat.zero_le _, ?_, nofun, fun i _ _ => ?_, by decide, List.nodup_nil⟩
  · exact (hsame 0 2 (Or.inl (Nat.le_refl 2))).field.trans (hzero 0 2)
  · exact field_put_number (by decide)
  · rw [SameFrom.entry (hsame _ _ (Or.inr (Nat.le_add_right 4 _)))]
    unfold ConfigBuffer.entry
    rw [hzero, hzero, hzero, hzero]
    rfl

/-- Different blocks for which there are entries and room are held in their order. -/
theorem Stores.createConfigBlocks (h : Stores buffer blocks)
    (hbound : (blocks ++ defaultBlocks).length ≤ CONFIG_FILE_MAX_BLOCK_ENTRIES)
    (hdistinct : ((blocks ++ defaultBlocks).map ConfigBlock.blockId).Nodup)
    (hroom : blocksEnd (blocks ++ defaultBlocks) ≤ CONFIG_SAVEFILE_SIZE) :
    ∃ buffer', CFG.createConfigBlocks buffer defaultBlocks = .ok (.success, buffer') ∧
      Stores buffer' (blocks ++ defaultBlocks) := by
  induction defaultBlocks generalizing buffer blocks with
  | nil =>
      rw [List.append_nil]
      exact ⟨buffer, rfl, h⟩
  | cons block rest ih =>
      have hsplit : blocks ++ block :: rest = (blocks ++ [block]) ++ rest := by
        rw [List.append_assoc]
        rfl
      have hleft : blocks.length < CONFIG_FILE_MAX_BLOCK_ENTRIES := by
        rw [List.length_append, List.length_cons] at hbound
        omega
      have hnew : ∀ other ∈ blocks, other.blockId ≠ block.blockId := by
        intro other hmem
        rw [List.map_append, List.map_cons] at hdistinct
        exact (List.nodup_append.mp hdistinct).2.2 _ (List.mem_map_of_mem hmem) _
          List.mem_cons_self
      have hend : blocksEnd blocks + outsideSize block ≤ CONFIG_SAVEFILE_SIZE := by
        rw [← blocksEnd_append]
        refine Nat.le_trans ?_ hroom
        rw [hsplit]
        have hle := @blocksEnd_take_mono ((blocks ++ [block]) ++ rest) (blocks ++ [block]).length
          ((blocks ++ [block]) ++ rest).length (by simp)
        rwa [List.take_left, List.take_length] at hle
      have hfits : blocks.length < CONFIG_FILE_MAX_BLOCK_ENTRIES →
          (∀ other ∈ blocks, other.blockId ≠ block.blockId) ∧
            (4 < block.data.val.length →
              blocksEnd blocks + block.data.val.length ≤ CONFIG_SAVEFILE_SIZE) := by
        refine fun _ => ⟨hnew, fun hlong => ?_⟩
        unfold outsideSize at hend
        rwa [if_pos hlong] at hend
      obtain ⟨result, buffer', hcreate, hresult, hstores⟩ := h.createConfigBlock hfits
      obtain rfl := hresult.mpr hleft
      rw [if_pos rfl] at hstores
      rw [hsplit] at hbound hdistinct hroom ⊢
      obtain ⟨buffer'', hcreateAll, hall⟩ := ih hstores hbound hdistinct hroom
      unfold CFG.createConfigBlocks
      rw [hcreate, ok_bind]
      exact ⟨buffer'', hcreateAll, hall⟩

theorem hasDefaults_of_perm (horder : defaultBlocks.Perm defaultConfigBlocks) :
    HasDefaults defaultBlocks := by
  intro blockId block hdefault
  have hid := List.find?_some hdefault
  exact ⟨block, horder.mem_iff.mpr (List.mem_of_find?_eq_some hdefault), of_decide_eq_true hid⟩

theorem mem_of_perm (horder : defaultBlocks.Perm defaultConfigBlocks) {block : ConfigBlock}
    (h : block ∈ defaultConfigBlocks) : block ∈ defaultBlocks := horder.mem_iff.mpr h

/-- The defaults have entries and room. -/
theorem defaults_fit (horder : defaultBlocks.Perm defaultConfigBlocks) :
    defaultBlocks.length ≤ CONFIG_FILE_MAX_BLOCK_ENTRIES ∧
      (defaultBlocks.map ConfigBlock.blockId).Nodup ∧
      blocksEnd defaultBlocks ≤ CONFIG_SAVEFILE_SIZE := by
  refine ⟨?_, ?_, ?_⟩
  · rw [horder.length_eq]
    decide
  · rw [(horder.map ConfigBlock.blockId).nodup_iff]
    decide +kernel
  · unfold blocksEnd
    rw [(horder.map outsideSize).sum_nat]
    decide +kernel

/-- The format leaves the defaults, with an id of the console. -/
theorem formatConfig_ok (horder : defaultBlocks.Perm defaultConfigBlocks) (randomNumber : UInt32)
    (consoleId : UInt64) : ∃ buffer,
      formatConfig defaultBlocks true randomNumber consoleId = .ok (.success, buffer) ∧
        Stores buffer (formattedBlocks defaultBlocks randomNumber consoleId) ∧
        HasDefaults (formattedBlocks defaultBlocks randomNumber consoleId) := by
  obtain ⟨hbound, hdistinct, hroom⟩ := defaults_fit horder
  obtain ⟨buffer, hcreate, hstores⟩ :=
    @Stores.createConfigBlocks _ [] defaultBlocks stores_empty hbound hdistinct hroom
  rw [List.nil_append] at hstores
  have hfirst : defaultBlock ConsoleUniqueID1BlockID .Global (List.replicate 8 0) ∈
      defaultBlocks := mem_of_perm horder (by decide)
  have hsecond : defaultBlock ConsoleUniqueID2BlockID .Global (List.replicate 8 0) ∈
      defaultBlocks := mem_of_perm horder (by decide)
  have hthird : defaultBlock ConsoleUniqueID3BlockID .Global (List.replicate 4 0) ∈
      defaultBlocks := mem_of_perm horder (by decide)
  have hallowed : AccessFlag.Global &&& AccessFlag.Global ≠ 0 := by decide
  have hid : (toLittleEndian 8 consoleId.toNat).length < 2 ^ 32 := by
    rw [length_toLittleEndian]
    decide
  have hnumber : (toLittleEndian 4 randomNumber.toNat).length < 2 ^ 32 := by
    rw [length_toLittleEndian]
    decide
  obtain ⟨buffer₁, hset₁, hstores₁⟩ : ∃ buffer', setConfigBlock buffer true
      ConsoleUniqueID1BlockID .Global ⟨_, hid⟩ = .ok (.success, buffer') ∧ Stores buffer'
        (setBlock defaultBlocks ConsoleUniqueID1BlockID (toLittleEndian 8 consoleId.toNat)) :=
    hstores.setConfigBlock_mem hfirst rfl hallowed true (length_toLittleEndian 8 _).symm
  have hsecond₁ := @mem_setBlock_of_ne defaultBlocks _ ConsoleUniqueID1BlockID
    (toLittleEndian 8 consoleId.toNat) hsecond (by decide)
  have hthird₁ := @mem_setBlock_of_ne defaultBlocks _ ConsoleUniqueID1BlockID
    (toLittleEndian 8 consoleId.toNat) hthird (by decide)
  obtain ⟨buffer₂, hset₂, hstores₂⟩ : ∃ buffer', setConfigBlock buffer₁ true
      ConsoleUniqueID2BlockID .Global ⟨_, hid⟩ = .ok (.success, buffer') ∧ Stores buffer'
        (setBlock (setBlock defaultBlocks ConsoleUniqueID1BlockID
          (toLittleEndian 8 consoleId.toNat)) ConsoleUniqueID2BlockID
            (toLittleEndian 8 consoleId.toNat)) :=
    hstores₁.setConfigBlock_mem hsecond₁ rfl hallowed true (length_toLittleEndian 8 _).symm
  have hthird₂ := @mem_setBlock_of_ne _ _ ConsoleUniqueID2BlockID
    (toLittleEndian 8 consoleId.toNat) hthird₁ (by decide)
  obtain ⟨buffer₃, hset₃, hstores₃⟩ : ∃ buffer', setConfigBlock buffer₂ true
      ConsoleUniqueID3BlockID .Global ⟨_, hnumber⟩ = .ok (.success, buffer') ∧ Stores buffer'
        (formattedBlocks defaultBlocks randomNumber consoleId) :=
    hstores₂.setConfigBlock_mem hthird₂ rfl hallowed true (length_toLittleEndian 4 _).symm
  have hunique : setConsoleUniqueId buffer true randomNumber consoleId =
      .ok (.success, buffer₃) := by
    unfold setConsoleUniqueId
    dsimp only
    rw [hset₁, ok_bind]
    dsimp only
    rw [if_neg (not_not_intro rfl), hset₂, ok_bind]
    dsimp only
    rw [if_neg (not_not_intro rfl), hset₃]
  refine ⟨buffer₃, ?_, hstores₃, (((hasDefaults_of_perm horder).setBlock _ _).setBlock _ _).setBlock
    _ _⟩
  unfold formatConfig
  dsimp only
  rw [hcreate, ok_bind]
  dsimp only
  rw [if_neg (not_not_intro rfl), hunique, ok_bind, assert, if_pos rfl, ok_bind]

end Format

end Borked3DS.Analysis
