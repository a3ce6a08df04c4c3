import Borked3DS.Interface.ConfigStore

/-!
# Entries of the config savegame

A write into the buffer leaves what lies apart from it. So a new entry leaves those in front of it,
and new data leaves the header and the data in front of it.
-/

set_option autoImplicit false

namespace Borked3DS.Analysis

open Borked3DS.Library Borked3DS.Model Borked3DS.Model.CFG Borked3DS.Interface

/-! ## Reads behind writes -/

section Reads

variable {buffer buffer' : ConfigBuffer} {offset k n width v : ℕ} {bytes : List UInt8}

/-- Two buffers have the same bytes between two places. -/
def SameFrom (buffer buffer' : ConfigBuffer) (offset n : ℕ) : Prop :=
  ∀ i < n, buffer'.span.get (offset + i) = buffer.span.get (offset + i)

theorem sameFrom_put (h : offset + n ≤ k ∨ k + bytes.length ≤ offset) :
    SameFrom buffer (buffer.put k bytes) offset n :=
  fun i hi => Span.get_write_of_notMem (by omega)

theorem SameFrom.trans {buffer'' : ConfigBuffer} (h : SameFrom buffer buffer' offset n)
    (h' : SameFrom buffer' buffer'' offset n) : SameFrom buffer buffer'' offset n :=
  fun i hi => (h' i hi).trans (h i hi)

/-- Inside of a part that is the same, another one is. -/
theorem SameFrom.part (h : SameFrom buffer buffer' offset n) {m : ℕ} (hpart : k + m ≤ n) :
    SameFrom buffer buffer' (offset + k) m := by
  intro i hi
  rw [Nat.add_assoc]
  exact h (k + i) (by omega)

theorem SameFrom.read (h : SameFrom buffer buffer' offset n) :
    buffer'.span.read offset n = buffer.span.read offset n := Span.read_congr h

theorem SameFrom.field (h : SameFrom buffer buffer' offset n) :
    buffer'.field offset n = buffer.field offset n := by
  unfold ConfigBuffer.field
  rw [h.read]

theorem SameFrom.totalEntries (h : SameFrom buffer buffer' 0 4) :
    buffer'.totalEntries = buffer.totalEntries :=
  SameFrom.field (h.part (by decide : 0 + 2 ≤ 4))

theorem SameFrom.dataEntriesOffset (h : SameFrom buffer buffer' 0 4) :
    buffer'.dataEntriesOffset = buffer.dataEntriesOffset :=
  SameFrom.field (h.part (by decide : 2 + 2 ≤ 4))

theorem SameFrom.entry {i : ℕ} (h : SameFrom buffer buffer' (entryOffset i) 12) :
    buffer'.entry i = buffer.entry i := by
  have hid : buffer'.field (entryOffset i) 4 = buffer.field (entryOffset i) 4 :=
    SameFrom.field (h.part (by decide : 0 + 4 ≤ 12))
  unfold ConfigBuffer.entry
  rw [hid, SameFrom.field (h.part (by decide : 4 + 4 ≤ 12)),
    SameFrom.field (h.part (by decide : 8 + 2 ≤ 12)),
    SameFrom.field (h.part (by decide : 10 + 2 ≤ 12))]

/-- A field of bytes that have been put into the buffer. -/
theorem field_put (h : k + n ≤ bytes.length) :
    (buffer.put offset bytes).field (offset + k) n = fieldAt bytes k n := by
  unfold ConfigBuffer.field fieldAt
  congr 1
  apply List.ext_getElem?
  intro i
  by_cases hi : i < n
  · have hget : (buffer.span.write offset bytes).get (offset + (k + i)) = bytes.getD (k + i) 0 :=
      Span.get_write_of_mem (by omega)
    rw [Span.getElem?_read hi, List.getElem?_take_of_lt hi, List.getElem?_drop, Nat.add_assoc]
    refine (congrArg some hget).trans ?_
    rw [List.getD_eq_getElem?_getD, List.getElem?_eq_getElem (by omega), Option.getD_some]
  · rw [List.getElem?_eq_none (by rw [Span.length_read]; omega),
      List.getElem?_eq_none (by rw [List.length_take]; omega)]

/-- A number that has been put into the buffer. -/
theorem field_put_number (h : v < 256 ^ width) :
    (buffer.put offset (toLittleEndian width v)).field offset width = v := by
  have hfield := @field_put buffer offset 0 width (toLittleEndian width v)
    (Nat.le_of_eq ((Nat.zero_add width).trans (length_toLittleEndian width v).symm))
  rw [Nat.add_zero] at hfield
  rw [hfield]
  unfold fieldAt
  rw [List.drop_zero, List.take_of_length_le (Nat.le_of_eq (length_toLittleEndian width v)),
    ofLittleEndian_of_lt h]

/-- Data that has been put into the buffer. -/
theorem read_put : (buffer.put offset bytes).span.read offset bytes.length = bytes :=
  Span.read_write

theorem length_toBytes_entry (entry : SaveConfigBlockEntry) : entry.toBytes.length = 12 := by
  unfold SaveConfigBlockEntry.toBytes
  simp only [List.length_append, length_toLittleEndian]

/-- An entry that has been put into the buffer. -/
theorem entry_put (i : ℕ) (entry : SaveConfigBlockEntry) :
    (buffer.put (entryOffset i) entry.toBytes).entry i = entry := by
  have hlength := length_toBytes_entry entry
  have hid : (buffer.put (entryOffset i) entry.toBytes).field (entryOffset i) 4 =
      entry.blockId.toNat := by
    refine (@field_put buffer (entryOffset i) 0 4 entry.toBytes (by omega)).trans ?_
    exact @fieldAt_append [] _ 4 _ entry.blockId.toNat_lt
  have hoffset : (buffer.put (entryOffset i) entry.toBytes).field (entryOffset i + 4) 4 =
      entry.offsetOrData.toNat := by
    refine (field_put (by omega)).trans ?_
    have hfield := @fieldAt_append (toLittleEndian 4 entry.blockId.toNat)
      (toLittleEndian 2 entry.size.toNat ++ toLittleEndian 2 entry.accessFlags.toNat) 4 _
      entry.offsetOrData.toNat_lt
    rwa [length_toLittleEndian] at hfield
  have hsize : (buffer.put (entryOffset i) entry.toBytes).field (entryOffset i + 8) 2 =
      entry.size.toNat := by
    refine (field_put (by omega)).trans ?_
    have hfield := @fieldAt_append (toLittleEndian 4 entry.blockId.toNat ++
      toLittleEndian 4 entry.offsetOrData.toNat) (toLittleEndian 2 entry.accessFlags.toNat) 2 _
      entry.size.toNat_lt
    rwa [List.length_append, length_toLittleEndian, length_toLittleEndian, List.append_assoc]
      at hfield
  have hflags : (buffer.put (entryOffset i) entry.toBytes).field (entryOffset i + 10) 2 =
      entry.accessFlags.toNat := by
    refine (field_put (by omega)).trans ?_
    have hfield := @fieldAt_append (toLittleEndian 4 entry.blockId.toNat ++
      (toLittleEndian 4 entry.offsetOrData.toNat ++ toLittleEndian 2 entry.size.toNat)) [] 2 _
      entry.accessFlags.toNat_lt
    simp only [List.length_append, length_toLittleEndian, List.append_assoc, List.append_nil]
      at hfield
    exact hfield
  unfold ConfigBuffer.entry
  rw [hid, hoffset, hsize, hflags, UInt32.ofNat_toNat, UInt32.ofNat_toNat, UInt16.ofNat_toNat,
    UInt16.ofNat_toNat]

end Reads

/-! ## The creation of a block -/

section Creation

variable {buffer buffer' : ConfigBuffer} {block : ConfigBlock} {offset n : ℕ}

theorem find?_congr_of_mem {α : Type*} {p q : α → Bool} {l : List α}
    (h : ∀ a ∈ l, p a = q a) : l.find? p = l.find? q := by
  induction l with
  | nil => rfl
  | cons a l ih =>
      rw [List.find?_cons, List.find?_cons, h a List.mem_cons_self,
        ih fun b hb => h b (List.mem_cons_of_mem a hb)]

/-- The place for new data depends only on the header up to the new entry. -/
theorem SameFrom.nextOffset (h : SameFrom buffer buffer' 0 (entryOffset buffer.totalEntries)) :
    nextOffset buffer' = nextOffset buffer := by
  have hheader : SameFrom buffer buffer' 0 4 :=
    h.part (show 0 + 4 ≤ entryOffset buffer.totalEntries by unfold entryOffset; omega)
  have hentry : ∀ i < buffer.totalEntries, buffer'.entry i = buffer.entry i := by
    intro i hi
    apply SameFrom.entry
    have hpart := h.part (show entryOffset i + 12 ≤ entryOffset buffer.totalEntries by
      unfold entryOffset
      omega)
    rwa [Nat.zero_add] at hpart
  have hfind : (List.range buffer.totalEntries).reverse.find?
      (fun i => decide (4 < (buffer'.entry i).size.toNat)) =
        (List.range buffer.totalEntries).reverse.find?
          (fun i => decide (4 < (buffer.entry i).size.toNat)) := by
    apply find?_congr_of_mem
    intro i hi
    rw [hentry i (List.mem_range.mp (List.mem_reverse.mp hi))]
  unfold CFG.nextOffset
  rw [hheader.totalEntries, hheader.dataEntriesOffset, hfind]
  split
  · rename_i i hi
    have hmem := List.mem_of_find?_eq_some hi
    rw [hentry i (List.mem_range.mp (List.mem_reverse.mp hmem))]
  · rfl

/-- The entry of a new block, without its place. -/
def newEntry (block : ConfigBlock) : SaveConfigBlockEntry :=
  ⟨block.blockId, 0, UInt16.ofNat block.data.val.length, block.accessFlags⟩

/-- The buffer with a new block but for the count of its entries. -/
def withNewBlock (buffer : ConfigBuffer) (block : ConfigBlock) : ConfigBuffer :=
  let place := entryOffset buffer.totalEntries
  let buffer' := buffer.put place (newEntry block).toBytes
  if 4 < block.data.val.length then
    (buffer'.put (place + 4) (toLittleEndian 4 (nextOffset buffer).toNat)).put
      (nextOffset buffer).toNat block.data.val
  else buffer'.put (place + 4) block.data.val

/-- The buffer behind a creation. -/
def created (buffer : ConfigBuffer) (block : ConfigBlock) : ConfigBuffer :=
  (withNewBlock buffer block).put 0
    (toLittleEndian 2 ((withNewBlock buffer block).totalEntries + 1))

/-- While there are entries left, a creation needs room for its data only. -/
theorem createConfigBlock_eq (hleft : buffer.totalEntries < CONFIG_FILE_MAX_BLOCK_ENTRIES) :
    createConfigBlock buffer block =
      if 4 < block.data.val.length →
          (nextOffset buffer).toNat + block.data.val.length ≤ CONFIG_SAVEFILE_SIZE then
        .ok (.success, created buffer block)
      else .error .undefined := by
  have hnext : nextOffset (buffer.put (entryOffset buffer.totalEntries)
      (newEntry block).toBytes) = nextOffset buffer :=
    SameFrom.nextOffset (sameFrom_put (Or.inl (Nat.le_of_eq (Nat.zero_add _))))
  unfold newEntry at hnext
  unfold createConfigBlock created withNewBlock newEntry
  rw [if_neg (Nat.not_le_of_lt hleft)]
  dsimp only
  by_cases hlong : 4 < block.data.val.length
  · simp only [if_pos hlong, hnext, ConfigBuffer.write]
    by_cases hroom : (nextOffset buffer).toNat + block.data.val.length ≤ CONFIG_SAVEFILE_SIZE
    · rw [if_pos hroom, if_pos fun _ => hroom, ok_bind]
    · rw [if_neg hroom, if_neg fun h => hroom (h hlong), error_bind]
  · simp only [if_neg hlong, ok_bind]
    rw [if_pos fun h => absurd h hlong]

/-- What lies apart from the new entry and from its data is the same, -/
theorem withNewBlock_same
    (hentry : offset + n ≤ entryOffset buffer.totalEntries ∨
      entryOffset buffer.totalEntries + 12 ≤ offset)
    (hdata : 4 < block.data.val.length → offset + n ≤ (nextOffset buffer).toNat ∨
      (nextOffset buffer).toNat + block.data.val.length ≤ offset) :
    SameFrom buffer (withNewBlock buffer block) offset n := by
  have hheader : SameFrom buffer (buffer.put (entryOffset buffer.totalEntries)
      (newEntry block).toBytes) offset n := by
    apply sameFrom_put
    rw [length_toBytes_entry]
    exact hentry
  unfold withNewBlock
  dsimp only
  split
  · rename_i hlong
    refine (hheader.trans (sameFrom_put ?_)).trans (sameFrom_put (hdata hlong))
    rw [length_toLittleEndian]
    omega
  · refine hheader.trans (sameFrom_put ?_)
    omega

/-- and apart from the count. -/
theorem created_same (hcount : 2 ≤ offset)
    (hentry : offset + n ≤ entryOffset buffer.totalEntries ∨
      entryOffset buffer.totalEntries + 12 ≤ offset)
    (hdata : 4 < block.data.val.length → offset + n ≤ (nextOffset buffer).toNat ∨
      (nextOffset buffer).toNat + block.data.val.length ≤ offset) :
    SameFrom buffer (created buffer block) offset n :=
  (withNewBlock_same hentry hdata).trans (sameFrom_put (Or.inr (by
    rw [length_toLittleEndian]
    omega)))

variable (hbehind : 4 < block.data.val.length → 0x455C ≤ (nextOffset buffer).toNat)

include hbehind

theorem dataEntriesOffset_created :
    (created buffer block).dataEntriesOffset = buffer.dataEntriesOffset := by
  refine SameFrom.field (created_same (Nat.le_refl 2) (Or.inl ?_) fun hlong => Or.inl ?_)
  · unfold entryOffset
    omega
  · have hplace := hbehind hlong
    omega

/-- The data of the new block. -/
theorem read_created :
    (created buffer block).span.read
      (if 4 < block.data.val.length then (nextOffset buffer).toNat
        else entryOffset buffer.totalEntries + 4) block.data.val.length = block.data.val := by
  unfold created withNewBlock
  dsimp only
  split
  · rename_i hlong
    have hplace := hbehind hlong
    refine (SameFrom.read (sameFrom_put (Or.inr ?_))).trans read_put
    rw [length_toLittleEndian]
    omega
  · refine (SameFrom.read (sameFrom_put (Or.inr ?_))).trans read_put
    rw [length_toLittleEndian]
    unfold entryOffset
    omega

variable (hleft : buffer.totalEntries < CONFIG_FILE_MAX_BLOCK_ENTRIES)

include hleft

/-- There is one entry more. -/
theorem totalEntries_created :
    (created buffer block).totalEntries = buffer.totalEntries + 1 := by
  have hsame : SameFrom buffer (withNewBlock buffer block) 0 4 := by
    apply withNewBlock_same
    · unfold entryOffset
      omega
    · intro hlong
      have hplace := hbehind hlong
      omega
  unfold created
  rw [hsame.totalEntries]
  refine field_put_number ?_
  unfold CONFIG_FILE_MAX_BLOCK_ENTRIES at hleft
  omega

/-- What is put into the new entry first stays, but for its second word. -/
theorem created_sameHeader {k : ℕ} (hk : k + n ≤ 4 ∨ 8 ≤ k ∧ k + n ≤ 12) :
    SameFrom (buffer.put (entryOffset buffer.totalEntries) (newEntry block).toBytes)
      (created buffer block) (entryOffset buffer.totalEntries + k) n := by
  have hinside : entryOffset buffer.totalEntries + 12 ≤ 0x455C := by
    unfold CONFIG_FILE_MAX_BLOCK_ENTRIES at hleft
    unfold entryOffset
    omega
  have hcount : SameFrom (withNewBlock buffer block) (created buffer block)
      (entryOffset buffer.totalEntries + k) n := by
    apply sameFrom_put
    rw [length_toLittleEndian]
    unfold entryOffset
    omega
  refine SameFrom.trans ?_ hcount
  unfold withNewBlock
  dsimp only
  split
  · rename_i hlong
    have hplace := hbehind hlong
    refine (sameFrom_put ?_).trans (sameFrom_put ?_)
    · rw [length_toLittleEndian]
      omega
    · omega
  · apply sameFrom_put
    omega

/-- The new entry. -/
theorem entry_created :
    ((created buffer block).entry buffer.totalEntries).blockId = block.blockId ∧
      ((created buffer block).entry buffer.totalEntries).size.toNat = block.data.val.length ∧
      ((created buffer block).entry buffer.totalEntries).accessFlags = block.accessFlags ∧
      (4 < block.data.val.length →
        ((created buffer block).entry buffer.totalEntries).offsetOrData = nextOffset buffer) := by
  have hput : (buffer.put (entryOffset buffer.totalEntries) (newEntry block).toBytes).entry
      buffer.totalEntries = newEntry block := entry_put _ _
  have hid : ((created buffer block).entry buffer.totalEntries).blockId =
      (newEntry block).blockId := by
    refine Eq.trans ?_ (congrArg SaveConfigBlockEntry.blockId hput)
    have hsame := @created_sameHeader buffer block 4 hbehind hleft 0 (Or.inl (Nat.le_refl 4))
    exact congrArg UInt32.ofNat hsame.field
  have hsize : ((created buffer block).entry buffer.totalEntries).size =
      (newEntry block).size := by
    refine Eq.trans ?_ (congrArg SaveConfigBlockEntry.size hput)
    have hsame := @created_sameHeader buffer block 2 hbehind hleft 8 (Or.inr (by decide))
    exact congrArg UInt16.ofNat hsame.field
  have hflags : ((created buffer block).entry buffer.totalEntries).accessFlags =
      (newEntry block).accessFlags := by
    refine Eq.trans ?_ (congrArg SaveConfigBlockEntry.accessFlags hput)
    have hsame := @created_sameHeader buffer block 2 hbehind hleft 10 (Or.inr (by decide))
    exact congrArg UInt16.ofNat hsame.field
  refine ⟨hid, ?_, hflags, fun hlong => ?_⟩
  · rw [hsize]
    exact UInt16.toNat_ofNat_of_lt' block.data.property
  · have hplace := hbehind hlong
    have hinside : entryOffset buffer.totalEntries + 12 ≤ 0x455C := by
      unfold CONFIG_FILE_MAX_BLOCK_ENTRIES at hleft
      unfold entryOffset
      omega
    have hfield : (created buffer block).field (entryOffset buffer.totalEntries + 4) 4 =
        (nextOffset buffer).toNat := by
      unfold created withNewBlock
      dsimp only
      rw [if_pos hlong]
      refine (SameFrom.field ((sameFrom_put ?_).trans (sameFrom_put ?_))).trans
        (field_put_number (nextOffset buffer).toNat_lt)
      · omega
      · rw [length_toLittleEndian]
        unfold entryOffset
        omega
    exact (congrArg UInt32.ofNat hfield).trans UInt32.ofNat_toNat

end Creation

end Borked3DS.Analysis
