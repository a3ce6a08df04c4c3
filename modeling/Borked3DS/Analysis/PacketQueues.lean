import Borked3DS.Interface.PacketQueue
import Borked3DS.Library.RingBuffer

/-!
# When the receive buffer holds its packets

The bytes of the packets that wait lie in their ring one behind the other, from where the first of
them begins. A packet that is taken goes behind the last one, into slots that none of them uses:
what the free space is computed to be is never more than what is free.
-/

set_option autoImplicit false

namespace Borked3DS.Analysis

open Borked3DS.Library Borked3DS.Model Borked3DS.Model.IR Borked3DS.Interface

/-! ## Writes -/

section Writes

variable {memory : SharedMemory} {b : BufferManager} {offset n i : ℕ} {bytes packet : List UInt8}

/-- Places of a shared memory are 32-bit numbers. -/
theorem u32_of_inside (h : offset + n ≤ memory.block.size) : u32 offset = offset := by
  have hsize := memory.size_le
  unfold Memory.FCRAM_N3DS_SIZE at hsize
  exact u32_of_lt (by omega)

theorem write_inside (h : offset + bytes.length ≤ memory.block.size) :
    memory.write offset bytes = .ok { memory with block := memory.block.write offset bytes } := by
  unfold SharedMemory.write
  rw [u32_of_inside h, if_pos h]

theorem read_inside (h : offset + n ≤ memory.block.size) :
    memory.read offset n = .ok (memory.block.read offset n) := by
  unfold SharedMemory.read
  rw [u32_of_inside h, if_pos h]

@[simp] theorem length_bufferInfo (info : BufferInfo) : info.toBytes.length = 16 := by
  simp [BufferInfo.toBytes]

@[simp] theorem length_packetInfo (packetInfo : PacketInfo) : packetInfo.toBytes.length = 8 := by
  simp [PacketInfo.toBytes]

theorem packetInfo_ofBytes {packetInfo : PacketInfo} (hoffset : packetInfo.offset < 2 ^ 32)
    (hsize : packetInfo.size < 2 ^ 32) : PacketInfo.ofBytes packetInfo.toBytes = packetInfo := by
  unfold PacketInfo.ofBytes PacketInfo.toBytes
  rw [List.take_left' (length_toLittleEndian _ _), List.drop_left' (length_toLittleEndian _ _),
    ofLittleEndian_of_lt hoffset, ofLittleEndian_of_lt hsize]

/-- The guest sees the indices as they are updated. -/
theorem updateBufferInfo_inside (hinfo : b.infoOffset = 0x10)
    (h : 0x20 ≤ b.sharedMemory.block.size) : b.updateBufferInfo =
      .ok { b with sharedMemory := { b.sharedMemory with
        block := b.sharedMemory.block.write 0x10 b.info.toBytes } } := by
  unfold BufferManager.updateBufferInfo
  rw [hinfo, if_pos (by decide), write_inside (by rw [length_bufferInfo]; exact h), ok_bind]

/-- The bytes of a packet that is not larger than the ring are written into it, and nothing else
is. -/
theorem writeData_inside (hroom : b.dataOffset + b.maxDataSize ≤ b.sharedMemory.block.size)
    (hsize : packet.length ≤ b.maxDataSize) :
    ∃ memory, b.writeData offset packet = .ok { b with sharedMemory := memory } ∧
      memory.block.size = b.sharedMemory.block.size ∧
      (∀ a, (∀ i < packet.length, a ≠ b.dataOffset + (offset + i) % b.maxDataSize) →
        memory.block.get a = b.sharedMemory.block.get a) ∧
      ∀ i (h : i < packet.length),
        memory.block.get (b.dataOffset + (offset + i) % b.maxDataSize) = packet[i] := by
  induction packet generalizing b offset with
  | nil => exact ⟨b.sharedMemory, rfl, rfl, fun _ _ => rfl, fun i h => absurd h (Nat.not_lt_zero i)⟩
  | cons byte packet ih =>
    rw [List.length_cons] at hsize
    have hpositive : 0 < b.maxDataSize := by omega
    have hlt : offset % b.maxDataSize < b.maxDataSize := Nat.mod_lt _ hpositive
    have hinside : b.dataOffset + offset % b.maxDataSize + [byte].length ≤
        b.sharedMemory.block.size := by
      rw [List.length_singleton]
      omega
    have hwrite := write_inside hinside
    obtain ⟨memory, hrest, hkept, hothers, hwritten⟩ := @ih
      { b with sharedMemory := { b.sharedMemory with
        block := b.sharedMemory.block.write (b.dataOffset + offset % b.maxDataSize) [byte] } }
      (offset + 1) hroom (by dsimp only; omega)
    change ∀ a, (∀ i < packet.length,
      a ≠ b.dataOffset + (offset + 1 + i) % b.maxDataSize) → _ at hothers
    change ∀ i (h : i < packet.length),
      memory.block.get (b.dataOffset + (offset + 1 + i) % b.maxDataSize) = packet[i] at hwritten
    refine ⟨memory, ?_, hkept, ?_, ?_⟩
    · rw [BufferManager.writeData, modulo, if_neg (Nat.ne_of_gt hpositive), ok_bind, hwrite,
        ok_bind]
      exact hrest
    · intro a ha
      have hfirst := ha 0 (Nat.succ_pos _)
      rw [Nat.add_zero] at hfirst
      rw [hothers a]
      · apply Span.get_write_of_notMem
        rw [List.length_singleton]
        omega
      · intro i hi
        have hlater := ha (i + 1) (Nat.succ_lt_succ hi)
        rwa [← Nat.add_assoc, Nat.add_right_comm] at hlater
    · intro i hi
      cases i with
      | zero =>
        rw [Nat.add_zero, hothers]
        · exact @Span.get_write_of_mem b.sharedMemory.block _ 0 [byte] Nat.one_pos
        · intro i hi heq
          have hne : (offset + 0) % b.maxDataSize ≠ (offset + (1 + i)) % b.maxDataSize :=
            ringSlot_ne (by omega) (by omega)
          rw [Nat.add_zero, ← Nat.add_assoc] at hne
          exact hne (Nat.add_left_cancel heq)
      | succ i =>
        have hlater := hwritten i (Nat.lt_of_succ_lt_succ hi)
        rwa [Nat.add_right_comm, Nat.add_assoc] at hlater

end Writes

/-! ## How packets wait -/

section Invariant

variable {b b' : BufferManager} {waiting : List (List UInt8)} {packet : List UInt8} {n : ℕ}

/-- The rings lie in the memory, and there is room for bytes if there can be two packets. -/
structure Placed (b : BufferManager) : Prop where
  infoOffset : b.infoOffset = 0x10
  bufferOffset : b.bufferOffset = 0x20
  positive : 0 < b.maxPacketCount
  room : b.dataOffset + b.maxDataSize ≤ b.sharedMemory.block.size
  ring : b.maxPacketCount = 1 ∨ 0 < b.maxDataSize

/-- The packets lie in their ring one behind the other. -/
structure Waits (b : BufferManager) (waiting : List (List UInt8)) : Prop where
  count_eq : b.info.packetCount = waiting.length
  count_le : waiting.length ≤ b.maxPacketCount
  begin_lt : b.info.beginIndex < b.maxPacketCount
  end_eq : b.info.endIndex = (b.info.beginIndex + waiting.length) % b.maxPacketCount
  shown : b.sharedMemory.block.read b.infoOffset 16 = b.info.toBytes
  total : waiting.flatten.length ≤ b.maxDataSize
  laid : ∃ first,
    (packetInfos b).map (fun p => (p.offset, p.size)) =
        ringLayout b.maxDataSize first waiting ∧
      ringContents b.maxDataSize (dataByteAt b) first waiting.flatten.length = waiting.flatten

theorem Placed.size_lt (h : Placed b) : b.dataOffset + b.maxDataSize ≤ 0x10000000 := by
  have hroom := h.room
  have hsize := b.sharedMemory.size_le
  unfold Memory.FCRAM_N3DS_SIZE at hsize
  omega

theorem Placed.dataOffset_eq (h : Placed b) : b.dataOffset = 0x20 + 8 * b.maxPacketCount := by
  unfold BufferManager.dataOffset sizeofPacketInfo
  rw [h.bufferOffset]

theorem put_refused (h : b.put packet = .ok (false, b')) : b' = b := by
  unfold BufferManager.put at h
  split at h
  · cases h
    rfl
  · obtain ⟨found, -, h⟩ := bind_eq_ok.mp h
    cases found with
    | none =>
      cases h
      rfl
    | some offset =>
      obtain ⟨b₁, -, h⟩ := bind_eq_ok.mp h
      obtain ⟨b₂, -, h⟩ := bind_eq_ok.mp h
      obtain ⟨e, -, h⟩ := bind_eq_ok.mp h
      obtain ⟨b₃, -, h⟩ := bind_eq_ok.mp h
      cases h

theorem release_refused (h : b.release n = .ok (false, b')) : b' = b := by
  unfold BufferManager.release at h
  split at h
  · cases h
    rfl
  · obtain ⟨i, -, h⟩ := bind_eq_ok.mp h
    obtain ⟨b₁, -, h⟩ := bind_eq_ok.mp h
    cases h

/-- Packets that wait are held. -/
theorem holdsPackets_of_waits (h : Waits b waiting) : HoldsPackets ⟨b, waiting⟩ := by
  obtain ⟨first, hinfos, hdata⟩ := h.laid
  have hmap : (packetInfos b).map (packetBytes b) =
      ((packetInfos b).map fun p => (p.offset, p.size)).map fun p =>
        ringContents b.maxDataSize (dataByteAt b) p.1 p.2 := by
    rw [List.map_map]
    rfl
  refine {
    count_le := by rw [h.count_eq]; exact h.count_le
    begin_lt := h.begin_lt
    end_eq := by rw [h.end_eq, h.count_eq]
    shown := h.shown
    packets := by rw [hmap, hinfos, map_ringLayout hdata]
    sizes := ?_
    apart := ?_
    put_refused := fun _ _ => put_refused
    release_refused := fun _ _ => release_refused }
  · intro p hp
    have hmem : (p.offset, p.size) ∈ ringLayout b.maxDataSize first waiting :=
      hinfos ▸ List.mem_map_of_mem hp
    obtain ⟨before, -, hle⟩ := bounds_of_mem_ringLayout hmem
    have htotal := h.total
    dsimp only at hle
    change p.size ≤ b.maxDataSize
    omega
  · have hpairs := @pairwise_ringLayout _ b.maxDataSize first waiting h.total
    rw [← hinfos, List.pairwise_map] at hpairs
    exact hpairs

/-- What is taken for free is free. -/
theorem freeSpace_le {size first total : ℕ} (hfirst : first < size) (htotal : total ≤ size) :
    (first + size - (first + total) % size) % size ≤ size - total := by
  by_cases hwrap : first + total < size
  · rw [Nat.mod_eq_of_lt hwrap]
    have hspace : first + size - (first + total) = size - total := by omega
    rw [hspace]
    exact Nat.mod_le _ _
  · have hmod : (first + total) % size = first + total - size := by
      rw [Nat.mod_eq_sub_mod (by omega), Nat.mod_eq_of_lt (by omega)]
    have hspace : first + size - (first + total - size) = size - total + size := by omega
    rw [hmod, hspace, Nat.add_mod_right]
    exact Nat.mod_le _ _

/-- The slot in front of the end of a ring is the last one of its elements. -/
theorem lastSlot_eq {size first m : ℕ} (hfirst : first < size) (hm : m + 1 ≤ size) :
    ((first + (m + 1)) % size + size - 1) % size = (first + m) % size := by
  by_cases hwrap : first + (m + 1) < size
  · have hslot : first + (m + 1) + size - 1 = first + m + size := by omega
    rw [Nat.mod_eq_of_lt hwrap, hslot, Nat.add_mod_right]
  · have hmod : (first + (m + 1)) % size = first + (m + 1) - size := by
      rw [Nat.mod_eq_sub_mod (by omega), Nat.mod_eq_of_lt (by omega)]
    have hslot : first + (m + 1) - size + size - 1 = first + m := by omega
    rw [hmod, hslot]

theorem modulo_eq {a d : ℕ} (h : 0 < d) : modulo a d = .ok (a % d) := if_neg (Nat.ne_of_gt h)

theorem getPacketInfo_eq (hp : Placed b) {index : ℕ} (h : index < b.maxPacketCount) :
    b.getPacketInfo index = .ok (packetInfoAt b index) := by
  have hroom := hp.room
  rw [hp.dataOffset_eq] at hroom
  unfold BufferManager.getPacketInfo
  rw [read_inside (by rw [hp.bufferOffset]; unfold sizeofPacketInfo; omega), ok_bind]
  rfl

/-- What the shared memory says of a packet that waits. -/
theorem packetInfoAt_eq (hw : Waits b waiting) {k start length first : ℕ}
    (hinfos : (packetInfos b).map (fun p => (p.offset, p.size)) =
      ringLayout b.maxDataSize first waiting) (hk : k < waiting.length)
    (hblock : (ringLayout b.maxDataSize first waiting)[k]? = some (start, length)) :
    packetInfoAt b ((b.info.beginIndex + k) % b.maxPacketCount) = ⟨start, length⟩ := by
  have hslot : (packetInfos b)[k]? =
      some (packetInfoAt b ((b.info.beginIndex + k) % b.maxPacketCount)) :=
    getElem?_ringContents (hw.count_eq ▸ hk)
  rw [← hinfos, List.getElem?_map, hslot, Option.map_some] at hblock
  obtain ⟨hstart, hlength⟩ := Prod.mk.inj (Option.some.inj hblock)
  rw [← hstart, ← hlength]

/-- Where a packet goes: behind the packets that wait, if it fits behind them. -/
theorem findSpace_ok (hp : Placed b) (hw : Waits b waiting)
    (hfree : waiting.length < b.maxPacketCount) :
    ∃ found, b.findSpace n = .ok found ∧ ∀ offset, found = some offset →
      ∃ first, (packetInfos b).map (fun p => (p.offset, p.size)) =
          ringLayout b.maxDataSize first waiting ∧
        ringContents b.maxDataSize (dataByteAt b) first waiting.flatten.length = waiting.flatten ∧
        offset = (first + waiting.flatten.length) % b.maxDataSize ∧ offset < 2 ^ 32 ∧
        waiting.flatten.length + n ≤ b.maxDataSize := by
  unfold BufferManager.findSpace
  rw [hw.count_eq]
  rcases List.eq_nil_or_concat waiting with rfl | ⟨init, last, rfl⟩
  · rw [if_pos List.length_nil]
    refine ⟨_, rfl, ?_⟩
    intro offset hoffset
    split at hoffset
    · cases hoffset
    · next hsize =>
      cases hoffset
      refine ⟨0, ?_, rfl, (Nat.zero_mod _).symm, by decide, ?_⟩
      · unfold packetInfos
        rw [hw.count_eq]
        rfl
      · rw [List.flatten_nil, List.length_nil]
        omega
  · rw [List.concat_eq_append] at hw hfree ⊢
    obtain ⟨first, hinfos, hdata⟩ := hw.laid
    have hlength : (init ++ [last]).length = init.length + 1 := by
      rw [List.length_append, List.length_singleton]
    have hpositive : 0 < b.maxDataSize := by
      rcases hp.ring with hone | hpos
      · omega
      · exact hpos
    have hbound := hp.size_lt
    have hcount := hp.dataOffset_eq
    have hend := hw.end_eq
    have hendLt : b.info.endIndex < b.maxPacketCount := by
      rw [hend]
      exact Nat.mod_lt _ hp.positive
    obtain ⟨size, hhead⟩ := exists_getElem?_zero_ringLayout b.maxDataSize first
      (by simp : init ++ [last] ≠ [])
    have hfirstInfo := packetInfoAt_eq hw hinfos (by omega) hhead
    rw [Nat.add_zero, Nat.mod_eq_of_lt hw.begin_lt] at hfirstInfo
    have hlastInfo := packetInfoAt_eq hw hinfos (by omega) getElem?_length_ringLayout
    have hlastIndex : u32Sub (u32 (b.info.endIndex + b.maxPacketCount)) 1 % b.maxPacketCount =
        (b.info.beginIndex + init.length) % b.maxPacketCount := by
      have hpos := hp.positive
      rw [u32_of_lt (by omega), u32Sub_of_le (by omega) (by omega), hend, hlength,
        lastSlot_eq hw.begin_lt (by omega)]
    have htotal := hw.total
    have hsplit : (init ++ [last]).flatten.length = init.flatten.length + last.length := by
      rw [List.flatten_append, List.length_append, List.flatten_singleton]
    have hstart : (first + init.flatten.length) % b.maxDataSize < b.maxDataSize :=
      Nat.mod_lt _ hpositive
    have hwriteOffset : u32 ((first + init.flatten.length) % b.maxDataSize + last.length) %
        b.maxDataSize = (first + (init ++ [last]).flatten.length) % b.maxDataSize := by
      rw [u32_of_lt (by omega), end_ringLayout]
    have hwriteLt : (first + (init ++ [last]).flatten.length) % b.maxDataSize < b.maxDataSize :=
      Nat.mod_lt _ hpositive
    have hfirstLt : first % b.maxDataSize < b.maxDataSize := Nat.mod_lt _ hpositive
    have hspace := freeSpace_le hfirstLt htotal
    rw [Nat.mod_add_mod] at hspace
    rw [if_neg (by omega), modulo_eq hp.positive, ok_bind, getPacketInfo_eq hp hw.begin_lt, ok_bind,
      hlastIndex, getPacketInfo_eq hp (Nat.mod_lt _ hp.positive), ok_bind, hfirstInfo, hlastInfo]
    dsimp only
    rw [modulo_eq hpositive, ok_bind, hwriteOffset, modulo_eq hpositive, ok_bind,
      u32_of_lt (by omega : first % b.maxDataSize + b.maxDataSize < 2 ^ 32),
      u32Sub_of_le (by omega) (by omega)]
    refine ⟨_, rfl, ?_⟩
    intro offset hoffset
    split at hoffset
    · cases hoffset
    · next hfits =>
      cases hoffset
      exact ⟨first, hinfos, hdata, rfl, by omega, by omega⟩

end Invariant

/-! ## Calls -/

section Calls

variable {b : BufferManager} {waiting : List (List UInt8)} {packet : List UInt8} {offset : ℕ}

/-- What the memory is when a packet has been put into it. -/
structure PutWritten (b : BufferManager) (packet : List UInt8) (offset : ℕ) (info : BufferInfo)
    (memory : SharedMemory) : Prop where
  size : memory.block.size = b.sharedMemory.block.size
  infos : ∀ index < b.maxPacketCount, index ≠ b.info.endIndex →
    memory.block.read (b.bufferOffset + sizeofPacketInfo * index) sizeofPacketInfo =
      b.sharedMemory.block.read (b.bufferOffset + sizeofPacketInfo * index) sizeofPacketInfo
  newInfo : memory.block.read (b.bufferOffset + sizeofPacketInfo * b.info.endIndex)
    sizeofPacketInfo = PacketInfo.toBytes ⟨offset, packet.length⟩
  data : ∀ place < b.maxDataSize, (∀ i < packet.length, place ≠ (offset + i) % b.maxDataSize) →
    memory.block.get (b.dataOffset + place) = b.sharedMemory.block.get (b.dataOffset + place)
  newData : ∀ i (h : i < packet.length),
    memory.block.get (b.dataOffset + (offset + i) % b.maxDataSize) = packet[i]
  shown : memory.block.read 0x10 16 = info.toBytes

/-- A packet for which there is space is put into the memory. -/
theorem put_some (hp : Placed b) (hcount : b.info.packetCount < b.maxPacketCount)
    (hend : b.info.endIndex < b.maxPacketCount)
    (hfound : b.findSpace packet.length = .ok (some offset))
    (hsize : packet.length ≤ b.maxDataSize) :
    ∃ memory info, b.put packet = .ok (true, { b with sharedMemory := memory, info }) ∧
      info.beginIndex = b.info.beginIndex ∧
      info.endIndex = (b.info.endIndex + 1) % b.maxPacketCount ∧
      info.packetCount = b.info.packetCount + 1 ∧ PutWritten b packet offset info memory := by
  obtain ⟨info, hinfo⟩ : ∃ info : BufferInfo, info = { b.info with
      endIndex := (b.info.endIndex + 1) % b.maxPacketCount
      packetCount := b.info.packetCount + 1 } := ⟨_, rfl⟩
  have hdataOffset := hp.dataOffset_eq
  have hbound := hp.size_lt
  have hroom := hp.room
  have hpositive := hp.positive
  have hlength : (PacketInfo.toBytes ⟨offset, packet.length⟩).length = 8 := length_packetInfo _
  -- The info of the packet is written first.
  have hslot : b.bufferOffset + sizeofPacketInfo * b.info.endIndex +
      (PacketInfo.toBytes ⟨offset, packet.length⟩).length ≤ b.sharedMemory.block.size := by
    rw [hlength, hp.bufferOffset]
    unfold sizeofPacketInfo
    omega
  have hset : b.setPacketInfo b.info.endIndex ⟨offset, u32 packet.length⟩ =
      .ok { b with sharedMemory := { b.sharedMemory with
        block := b.sharedMemory.block.write (b.bufferOffset + sizeofPacketInfo * b.info.endIndex)
          (PacketInfo.toBytes ⟨offset, packet.length⟩) } } := by
    unfold BufferManager.setPacketInfo
    rw [u32_of_lt (by omega), write_inside hslot, ok_bind]
  obtain ⟨memory, hdata, hkept, hothers, hwritten⟩ := @writeData_inside
    { b with sharedMemory := { b.sharedMemory with
      block := b.sharedMemory.block.write (b.bufferOffset + sizeofPacketInfo * b.info.endIndex)
        (PacketInfo.toBytes ⟨offset, packet.length⟩) } } offset packet hroom hsize
  change memory.block.size = b.sharedMemory.block.size at hkept
  have hupdate := @updateBufferInfo_inside { b with sharedMemory := memory, info }
    hp.infoOffset (by dsimp only; omega)
  -- Infos and indices lie in front of the bytes.
  have hinfos : ∀ a < b.dataOffset, memory.block.get a =
      (b.sharedMemory.block.write (b.bufferOffset + sizeofPacketInfo * b.info.endIndex)
        (PacketInfo.toBytes ⟨offset, packet.length⟩)).get a := by
    intro a ha
    apply hothers
    intro i _ heq
    change a = b.dataOffset + _ at heq
    omega
  have hindices : ∀ a, 0x20 ≤ a →
      (memory.block.write 0x10 info.toBytes).get a = memory.block.get a := by
    intro a ha
    apply Span.get_write_of_notMem
    rw [length_bufferInfo]
    omega
  refine ⟨{ memory with block := memory.block.write 0x10 info.toBytes }, info, ?_, by rw [hinfo],
    by rw [hinfo], by rw [hinfo], ?_⟩
  · unfold BufferManager.put
    rw [if_neg (Nat.ne_of_lt hcount), hfound, ok_bind]
    dsimp only
    rw [hset, ok_bind, hdata, ok_bind]
    dsimp only
    rw [u32_of_lt (by omega), modulo_eq hpositive, ok_bind, u32_of_lt (by omega), ← hinfo, hupdate,
      ok_bind]
  · refine ⟨hkept, ?_, ?_, ?_, ?_, ?_⟩
    · intro index hindex hne
      apply Span.read_congr
      intro k hk
      unfold sizeofPacketInfo at hk
      have hplace : b.bufferOffset + sizeofPacketInfo * index + k < b.dataOffset := by
        rw [hdataOffset, hp.bufferOffset]
        unfold sizeofPacketInfo
        omega
      dsimp only
      rw [hindices _ (by rw [hp.bufferOffset]; omega), hinfos _ hplace]
      apply Span.get_write_of_notMem
      rw [hlength]
      unfold sizeofPacketInfo
      omega
    · have hread := @Span.read_write b.sharedMemory.block
        (b.bufferOffset + sizeofPacketInfo * b.info.endIndex)
        (PacketInfo.toBytes ⟨offset, packet.length⟩)
      rw [hlength] at hread
      rw [← hread]
      apply Span.read_congr
      intro k hk
      unfold sizeofPacketInfo at hk
      have hplace : b.bufferOffset + sizeofPacketInfo * b.info.endIndex + k < b.dataOffset := by
        rw [hdataOffset, hp.bufferOffset]
        unfold sizeofPacketInfo
        omega
      dsimp only
      rw [hindices _ (by rw [hp.bufferOffset]; omega), hinfos _ hplace]
    · intro place hplace hnot
      dsimp only
      rw [hindices _ (by omega), hothers]
      · apply Span.get_write_of_notMem
        rw [hlength, hdataOffset, hp.bufferOffset]
        unfold sizeofPacketInfo
        omega
      · intro i hi heq
        exact hnot i hi (Nat.add_left_cancel heq)
    · intro i hi
      dsimp only
      rw [hindices _ (by omega)]
      exact hwritten i hi
    · have hread := @Span.read_write memory.block 0x10 info.toBytes
      rw [length_bufferInfo] at hread
      exact hread

/-- A packet is taken or refused, and the packets that wait are held. -/
theorem putPacket_ok (hp : Placed b) (hw : Waits b waiting) :
    ∃ taken b', b.put packet = .ok (taken, b') ∧ Placed b' ∧
      Waits b' (if taken then waiting ++ [packet] else waiting) := by
  by_cases hfull : b.info.packetCount = b.maxPacketCount
  · exact ⟨false, b, if_pos hfull, hp, hw⟩
  have hfree : waiting.length < b.maxPacketCount := by
    have hle := hw.count_le
    rw [hw.count_eq] at hfull
    omega
  obtain ⟨found, hfound, hspace⟩ := findSpace_ok (n := packet.length) hp hw hfree
  cases found with
  | none =>
    refine ⟨false, b, ?_, hp, hw⟩
    unfold BufferManager.put
    rw [if_neg hfull, hfound, ok_bind]
  | some offset =>
    obtain ⟨first, hinfos, hdata, hoffset, hoffsetLt, hfits⟩ := hspace offset rfl
    have hend : b.info.endIndex < b.maxPacketCount := by
      rw [hw.end_eq]
      exact Nat.mod_lt _ hp.positive
    have hbound := hp.size_lt
    have hmax := hp.dataOffset_eq
    obtain ⟨memory, info, hput, hbegin', hend', hcount', hwritten⟩ :=
      put_some hp (by rw [hw.count_eq]; exact hfree) hend hfound (by omega)
    refine ⟨true, _, hput, ⟨hp.infoOffset, hp.bufferOffset, hp.positive, ?_, hp.ring⟩, ?_⟩
    · rw [hwritten.size]
      exact hp.room
    have hslot : (b.info.beginIndex + b.info.packetCount) % b.maxPacketCount =
        b.info.endIndex := by
      rw [hw.end_eq, hw.count_eq]
    have hpush : packetInfos { b with sharedMemory := memory, info } =
        packetInfos b ++ [⟨offset, packet.length⟩] := by
      unfold packetInfos
      dsimp only
      rw [hbegin', hcount']
      apply ringContents_push
      · rw [hw.count_eq]
        exact hfree
      · rw [hslot]
        unfold packetInfoAt
        dsimp only
        rw [hwritten.newInfo, packetInfo_ofBytes hoffsetLt (by dsimp only; omega)]
      · intro index hindex hne
        unfold packetInfoAt
        dsimp only
        rw [hwritten.infos index hindex (hslot ▸ hne)]
    have happend : ringContents b.maxDataSize (dataByteAt { b with sharedMemory := memory, info })
        first (waiting.flatten.length + packet.length) = waiting.flatten ++ packet := by
      rw [← hdata, length_ringContents]
      apply ringContents_append
      · intro i hi
        have hpositive : 0 < b.maxDataSize := by omega
        refine hwritten.data _ (Nat.mod_lt _ hpositive) fun j hj => ?_
        rw [hoffset, Nat.mod_add_mod, Nat.add_assoc]
        exact ringSlot_ne (by omega) (by omega)
      · intro i hi
        rw [← hwritten.newData i hi, hoffset, Nat.mod_add_mod]
        rfl
    have hflatten : (waiting ++ [packet]).flatten = waiting.flatten ++ packet := by
      rw [List.flatten_append, List.flatten_singleton]
    rw [if_pos rfl]
    refine ⟨?_, ?_, ?_, ?_, ?_, ?_, first, ?_, ?_⟩
    · dsimp only
      rw [hcount', List.length_append, hw.count_eq]
      rfl
    · rw [List.length_append]
      exact hfree
    · dsimp only
      rw [hbegin']
      exact hw.begin_lt
    · dsimp only
      rw [hend', hbegin', List.length_append, hw.end_eq, Nat.mod_add_mod]
      rfl
    · dsimp only
      rw [hp.infoOffset]
      exact hwritten.shown
    · rw [hflatten, List.length_append]
      exact hfits
    · rw [ringLayout_append, ← hinfos, ← hoffset, hpush, List.map_append]
      rfl
    · rw [hflatten, List.length_append]
      exact happend

/-- Packets are released from the front. -/
theorem releasePackets_ok {count : ℕ} (hp : Placed b) (hw : Waits b waiting) :
    ∃ released b', b.release count = .ok (released, b') ∧ Placed b' ∧
      Waits b' (if released then waiting.drop count else waiting) := by
  by_cases hless : b.info.packetCount < count
  · exact ⟨false, b, if_pos hless, hp, hw⟩
  have hbound := hp.size_lt
  have hmax := hp.dataOffset_eq
  have hroom := hp.room
  have hbegin := hw.begin_lt
  have hcountLe := hw.count_le
  rw [hw.count_eq] at hless
  obtain ⟨info, hinfo⟩ : ∃ info : BufferInfo, info = { b.info with
    beginIndex := (b.info.beginIndex + count) % b.maxPacketCount
    packetCount := b.info.packetCount - count } := ⟨_, rfl⟩
  have hupdate := @updateBufferInfo_inside { b with info } hp.infoOffset (by dsimp only; omega)
  obtain ⟨memory, hmemory⟩ : ∃ memory : SharedMemory, memory = { b.sharedMemory with
    block := b.sharedMemory.block.write 0x10 info.toBytes } := ⟨_, rfl⟩
  have hkept : ∀ a, 0x20 ≤ a → memory.block.get a = b.sharedMemory.block.get a := by
    intro a ha
    rw [hmemory]
    apply Span.get_write_of_notMem
    rw [length_bufferInfo]
    omega
  have hrelease : b.release count = .ok (true, { b with sharedMemory := memory, info }) := by
    unfold BufferManager.release
    rw [if_neg (by rw [hw.count_eq]; exact hless), u32_of_lt (by omega), modulo_eq hp.positive,
      ok_bind, ← hinfo, hupdate, ok_bind, hmemory]
  have hbegin' : info.beginIndex = (b.info.beginIndex + count) % b.maxPacketCount := by rw [hinfo]
  have hend' : info.endIndex = b.info.endIndex := by rw [hinfo]
  have hcount' : info.packetCount = b.info.packetCount - count := by rw [hinfo]
  have hlength : waiting.length = count + (waiting.drop count).length := by
    rw [List.length_drop]
    omega
  obtain ⟨first, hinfos, hdata⟩ := hw.laid
  have hflatten : waiting.flatten =
      (waiting.take count).flatten ++ (waiting.drop count).flatten := by
    rw [← List.flatten_append, List.take_append_drop]
  have htotal := hw.total
  rw [hflatten, List.length_append] at htotal
  have hdrop : packetInfos { b with sharedMemory := memory, info } =
      (packetInfos b).drop count := by
    have hsame : packetInfoAt { b with sharedMemory := memory, info } = packetInfoAt b := by
      funext index
      apply congrArg PacketInfo.ofBytes
      apply Span.read_congr
      intro k _
      dsimp only
      exact hkept _ (by rw [hp.bufferOffset]; omega)
    have hall : packetInfos b = ringContents b.maxPacketCount (packetInfoAt b) b.info.beginIndex
        (count + (waiting.drop count).length) := by
      rw [← hlength, ← hw.count_eq]
      rfl
    rw [hall, ringContents_add, List.drop_left' length_ringContents]
    unfold packetInfos
    rw [hsame]
    dsimp only
    rw [hbegin', hcount', ringContents_mod, hw.count_eq, List.length_drop]
  have hbytes : dataByteAt { b with sharedMemory := memory, info } = dataByteAt b := by
    funext place
    exact hkept _ (by change 0x20 ≤ b.dataOffset + place; omega)
  refine ⟨true, _, hrelease, ⟨hp.infoOffset, hp.bufferOffset, hp.positive, ?_, hp.ring⟩, ?_⟩
  · dsimp only
    rw [hmemory]
    exact hroom
  rw [if_pos rfl]
  refine ⟨?_, ?_, ?_, ?_, ?_, ?_, first + (waiting.take count).flatten.length, ?_, ?_⟩
  · dsimp only
    rw [hcount', hw.count_eq, List.length_drop]
  · dsimp only
    omega
  · dsimp only
    rw [hbegin']
    exact Nat.mod_lt _ hp.positive
  · dsimp only
    rw [hend', hbegin', hw.end_eq, Nat.mod_add_mod, Nat.add_assoc, ← hlength]
  · have hread := @Span.read_write b.sharedMemory.block 0x10 info.toBytes
    rw [length_bufferInfo] at hread
    dsimp only
    rw [hp.infoOffset, hmemory]
    exact hread
  · dsimp only
    omega
  · rw [hdrop, List.map_drop, hinfos, drop_ringLayout]
  · rw [hbytes]
    rw [hflatten, List.length_append, ringContents_add] at hdata
    exact (List.append_inj hdata length_ringContents).2

/-- Runs of calls get to their end, and the packets are held all along. -/
theorem completes_of_waits (hp : Placed b) (hw : Waits b waiting) (is : List QueueEvent) :
    Completes queueStep HoldsPackets ⟨b, waiting⟩ is := by
  induction is generalizing b waiting with
  | nil => exact holdsPackets_of_waits hw
  | cons i is ih =>
    refine ⟨holdsPackets_of_waits hw, ?_⟩
    cases i with
    | put packet =>
      obtain ⟨taken, b', hput, hp', hw'⟩ := @putPacket_ok b waiting packet hp hw
      refine ⟨_, ?_, ih hp' hw'⟩
      dsimp only [queueStep]
      rw [hput, ok_bind]
    | release count =>
      obtain ⟨released, b', hrelease, hp', hw'⟩ := @releasePackets_ok b waiting count.toNat hp hw
      refine ⟨_, ?_, ih hp' hw'⟩
      dsimp only [queueStep]
      rw [hrelease, ok_bind]

/-- A buffer that fits is made, and no packet waits in it. -/
theorem initialize_ok {recvBuffSize recvBuffPacketCount : UInt32} {memory : SharedMemory}
    (h : BufferFits recvBuffSize recvBuffPacketCount memory) :
    ∃ manager, initializeIrNopShared recvBuffSize recvBuffPacketCount memory = .ok manager ∧
      Placed manager ∧ Waits manager [] := by
  obtain ⟨hpositive, hinfos, hinside, hring⟩ := h
  unfold sizeofPacketInfo at hinfos hring
  have hcount := recvBuffPacketCount.toNat_lt
  have hsize := recvBuffSize.toNat_lt
  have hdata : u32 (recvBuffSize.toNat + 2 ^ 64 - sizeofPacketInfo * recvBuffPacketCount.toNat) =
      recvBuffSize.toNat - 8 * recvBuffPacketCount.toNat := by
    unfold u32 sizeofPacketInfo
    omega
  have hnew : BufferManager.new memory 0x10 0x20 recvBuffPacketCount.toNat recvBuffSize.toNat =
      .ok { sharedMemory := { memory with block := memory.block.write 0x10 (BufferInfo.toBytes {}) }
            infoOffset := 0x10
            bufferOffset := 0x20
            maxPacketCount := recvBuffPacketCount.toNat
            maxDataSize := recvBuffSize.toNat - 8 * recvBuffPacketCount.toNat } := by
    unfold BufferManager.new
    rw [hdata, updateBufferInfo_inside rfl (by dsimp only; omega)]
  have hheader : 0 + sharedMemoryInit.length ≤
      (memory.block.write 0x10 (BufferInfo.toBytes {})).size := by
    change 16 ≤ memory.block.size
    omega
  have hmemory := @write_inside
    { memory with block := memory.block.write 0x10 (BufferInfo.toBytes {}) } _ _ hheader
  have hmade : initializeIrNopShared recvBuffSize recvBuffPacketCount memory = .ok
      { sharedMemory := { memory with
          block := (memory.block.write 0x10 (BufferInfo.toBytes {})).write 0 sharedMemoryInit }
        infoOffset := 0x10
        bufferOffset := 0x20
        maxPacketCount := recvBuffPacketCount.toNat
        maxDataSize := recvBuffSize.toNat - 8 * recvBuffPacketCount.toNat } := by
    unfold initializeIrNopShared
    rw [hnew, ok_bind]
    dsimp only
    rw [hmemory, ok_bind]
  refine ⟨_, hmade, ⟨rfl, rfl, hpositive, ?_, ?_⟩, ⟨rfl, Nat.zero_le _, hpositive, ?_, ?_,
    Nat.zero_le _, 0, rfl, rfl⟩⟩
  · change 0x20 + 8 * recvBuffPacketCount.toNat + (recvBuffSize.toNat -
      8 * recvBuffPacketCount.toNat) ≤ memory.block.size
    omega
  · dsimp only
    omega
  · exact (Nat.zero_mod _).symm
  · have hread := @Span.read_write memory.block 0x10 (BufferInfo.toBytes {})
    rw [length_bufferInfo] at hread
    rw [← hread]
    apply Span.read_congr
    intro k _
    apply Span.get_write_of_notMem
    right
    change 16 ≤ 0x10 + k
    omega

end Calls

/-! ## What calls need -/

section Needs

variable {b b' : BufferManager} {waiting : List (List UInt8)} {packet : List UInt8}
  {offset n : ℕ}

/-- Where and how large the rings of a buffer are. -/
structure SameRings (b b' : BufferManager) : Prop where
  infoOffset : b'.infoOffset = b.infoOffset
  bufferOffset : b'.bufferOffset = b.bufferOffset
  maxPacketCount : b'.maxPacketCount = b.maxPacketCount
  maxDataSize : b'.maxDataSize = b.maxDataSize
  size : b'.sharedMemory.block.size = b.sharedMemory.block.size

theorem SameRings.trans {b'' : BufferManager} (h : SameRings b b') (h' : SameRings b' b'') :
    SameRings b b'' :=
  ⟨h'.1.trans h.1, h'.2.trans h.2, h'.3.trans h.3, h'.4.trans h.4, h'.5.trans h.5⟩

theorem write_ok {memory memory' : SharedMemory} {bytes : List UInt8}
    (h : memory.write offset bytes = .ok memory') :
    u32 offset + bytes.length ≤ memory.block.size ∧ memory'.block.size = memory.block.size := by
  unfold SharedMemory.write at h
  split at h
  · next hinside =>
    cases h
    exact ⟨hinside, rfl⟩
  · cases h

theorem updateBufferInfo_ok (h : b.updateBufferInfo = .ok b') :
    SameRings b b' ∧ b'.info = b.info ∧
      (b.infoOffset ≠ 0 → u32 b.infoOffset + 16 ≤ b.sharedMemory.block.size) := by
  unfold BufferManager.updateBufferInfo at h
  split at h
  · obtain ⟨memory, hmemory, h⟩ := bind_eq_ok.mp h
    cases h
    obtain ⟨hinside, hsize⟩ := write_ok hmemory
    rw [length_bufferInfo] at hinside
    exact ⟨⟨rfl, rfl, rfl, rfl, hsize⟩, rfl, fun _ => hinside⟩
  · next hzero =>
    cases h
    exact ⟨⟨rfl, rfl, rfl, rfl, rfl⟩, rfl, fun hne => absurd hne hzero⟩

theorem modulo_ok {a d r : ℕ} (h : modulo a d = .ok r) : d ≠ 0 ∧ r = a % d := by
  unfold modulo at h
  split at h
  · cases h
  · next hne => exact ⟨hne, (Except.ok.inj h).symm⟩

theorem writeData_ok (h : b.writeData offset packet = .ok b') :
    SameRings b b' ∧ b'.info = b.info ∧ ∀ i < packet.length,
      u32 (b.dataOffset + (offset + i) % b.maxDataSize) + 1 ≤ b.sharedMemory.block.size := by
  induction packet generalizing b offset with
  | nil =>
    cases h
    exact ⟨⟨rfl, rfl, rfl, rfl, rfl⟩, rfl, fun i hi => absurd hi (Nat.not_lt_zero i)⟩
  | cons byte packet ih =>
    rw [BufferManager.writeData] at h
    obtain ⟨place, hplace, h⟩ := bind_eq_ok.mp h
    obtain ⟨-, rfl⟩ := modulo_ok hplace
    obtain ⟨memory, hmemory, h⟩ := bind_eq_ok.mp h
    obtain ⟨hinside, hsize⟩ := write_ok hmemory
    obtain ⟨hsame, hinfo, hrest⟩ := ih h
    refine ⟨⟨hsame.1, hsame.2, hsame.3, hsame.4, hsame.5.trans hsize⟩, hinfo, ?_⟩
    intro i hi
    cases i with
    | zero => exact hinside
    | succ i =>
      have hlater := hrest i (Nat.lt_of_succ_lt_succ hi)
      change u32 (b.dataOffset + (offset + 1 + i) % b.maxDataSize) + 1 ≤ memory.block.size at hlater
      rwa [hsize, Nat.add_right_comm, Nat.add_assoc] at hlater

/-- A packet that is put into an empty buffer: its info and its bytes lie in the memory. -/
theorem put_of_empty (hempty : b.info.packetCount = 0) (hcount : b.maxPacketCount ≠ 0)
    (hsize : packet.length ≤ b.maxDataSize) {r : Bool × BufferManager}
    (h : b.put packet = .ok r) :
    SameRings b r.2 ∧ r.2.info.packetCount = 1 ∧
      r.2.info.endIndex = u32 (b.info.endIndex + 1) % b.maxPacketCount ∧
      u32 (b.bufferOffset + 8 * b.info.endIndex) + 8 ≤ b.sharedMemory.block.size ∧
      ∀ i < packet.length,
        u32 (b.dataOffset + i % b.maxDataSize) + 1 ≤ b.sharedMemory.block.size := by
  have hfound : b.findSpace packet.length = .ok (some 0) := by
    unfold BufferManager.findSpace
    rw [if_pos hempty, if_neg (Nat.not_lt.mpr hsize)]
  unfold BufferManager.put at h
  rw [if_neg (by rw [hempty]; exact hcount.symm), hfound, ok_bind] at h
  dsimp only at h
  obtain ⟨b₁, h₁, h⟩ := bind_eq_ok.mp h
  obtain ⟨b₂, h₂, h⟩ := bind_eq_ok.mp h
  obtain ⟨endIndex, h₃, h⟩ := bind_eq_ok.mp h
  obtain ⟨b₄, h₄, h⟩ := bind_eq_ok.mp h
  cases h
  obtain ⟨memory, hmemory, h₁⟩ := bind_eq_ok.mp h₁
  cases h₁
  obtain ⟨hslot, hsize₁⟩ := write_ok hmemory
  obtain ⟨hsame₂, hinfo₂, hdata⟩ := writeData_ok h₂
  obtain ⟨-, rfl⟩ := modulo_ok h₃
  obtain ⟨hsame₄, hinfo₄, -⟩ := updateBufferInfo_ok h₄
  rw [length_packetInfo] at hslot
  have hsame₁ : SameRings b b₂ :=
    ⟨hsame₂.1, hsame₂.2, hsame₂.3, hsame₂.4, hsame₂.5.trans hsize₁⟩
  refine ⟨⟨hsame₄.1.trans hsame₁.1, hsame₄.2.trans hsame₁.2, hsame₄.3.trans hsame₁.3,
    hsame₄.4.trans hsame₁.4, hsame₄.5.trans hsame₁.5⟩, ?_, ?_, hslot, ?_⟩
  · rw [hinfo₄, hinfo₂]
    dsimp only
    rw [hempty]
    rfl
  · rw [hinfo₄, hinfo₂, hsame₁.3]
  · intro i hi
    have hbyte := hdata i hi
    rw [Nat.zero_add] at hbyte
    dsimp only at hbyte
    rwa [hsize₁] at hbyte

theorem release_of_ok {r : Bool × BufferManager} (hcount : n ≤ b.info.packetCount)
    (h : b.release n = .ok r) : b.maxPacketCount ≠ 0 ∧ SameRings b r.2 ∧
      r.2.info.packetCount = b.info.packetCount - n ∧ r.2.info.endIndex = b.info.endIndex := by
  unfold BufferManager.release at h
  rw [if_neg (Nat.not_lt.mpr hcount)] at h
  obtain ⟨beginIndex, hbegin, h⟩ := bind_eq_ok.mp h
  obtain ⟨b₁, h₁, h⟩ := bind_eq_ok.mp h
  cases h
  obtain ⟨hsame, hinfo, -⟩ := updateBufferInfo_ok h₁
  dsimp only at hinfo ⊢
  refine ⟨(modulo_ok hbegin).1, ⟨hsame.1, hsame.2, hsame.3, hsame.4, hsame.5⟩, ?_, ?_⟩
  · rw [hinfo]
  · rw [hinfo]

/-- Empty packets that are put into the buffer and released, one after the other. -/
def emptyPackets (n : ℕ) : List QueueEvent := (List.replicate n [.put [], .release 1]).flatten

/-- Their infos go through all slots. -/
theorem slots_of_completes (hempty : b.info.packetCount = 0)
    (hend : b.info.endIndex + n ≤ b.maxPacketCount) (hmax : b.maxPacketCount < 2 ^ 32)
    (h : Completes queueStep HoldsPackets ⟨b, waiting⟩ (emptyPackets n)) :
    ∀ k < n, u32 (b.bufferOffset + 8 * (b.info.endIndex + k)) + 8 ≤ b.sharedMemory.block.size := by
  induction n generalizing b waiting with
  | zero => exact fun k hk => absurd hk (Nat.not_lt_zero k)
  | succ n ih =>
    obtain ⟨-, s₁, h₁, -, s₂, h₂, hrest⟩ := h
    obtain ⟨r₁, hput, h₁⟩ := bind_eq_ok.mp h₁
    cases h₁
    obtain ⟨r₂, hrelease, h₂⟩ := bind_eq_ok.mp h₂
    cases h₂
    obtain ⟨hsame₁, hcount₁, hend₁, hslot, -⟩ :=
      put_of_empty hempty (by omega) (Nat.zero_le _) hput
    obtain ⟨-, hsame₂, hcount₂, hend₂⟩ := release_of_ok (by rw [hcount₁]; decide) hrelease
    dsimp only at hsame₂ hcount₂ hend₂ hrelease
    intro k hk
    cases k with
    | zero => exact hslot
    | succ k =>
      have hnext : r₂.2.info.endIndex = b.info.endIndex + 1 := by
        rw [hend₂, hend₁, u32_of_lt (by omega), Nat.mod_eq_of_lt (by omega)]
      have hsame := hsame₁.trans hsame₂
      have hlater := @ih r₂.2 _ (by rw [hcount₂, hcount₁]; rfl)
        (by rw [hnext, hsame.3]; omega) (by rw [hsame.3]; exact hmax) hrest k (by omega)
      rw [hnext, hsame.2, hsame.5, Nat.add_assoc, Nat.add_comm 1 k] at hlater
      exact hlater

/-- A buffer that is made has the sizes that the guest asks for. -/
theorem initialize_spec {recvBuffSize recvBuffPacketCount : UInt32} {memory : SharedMemory}
    (h : initializeIrNopShared recvBuffSize recvBuffPacketCount memory = .ok b) :
    b.info = {} ∧ b.bufferOffset = 0x20 ∧ b.maxPacketCount = recvBuffPacketCount.toNat ∧
      b.maxDataSize =
        u32 (recvBuffSize.toNat + 2 ^ 64 - sizeofPacketInfo * recvBuffPacketCount.toNat) ∧
      b.sharedMemory.block.size = memory.block.size ∧ 0x20 ≤ memory.block.size := by
  unfold initializeIrNopShared at h
  obtain ⟨b₁, hnew, h⟩ := bind_eq_ok.mp h
  obtain ⟨memory', hheader, h⟩ := bind_eq_ok.mp h
  cases h
  obtain ⟨hsame, hinfo, hinside⟩ := updateBufferInfo_ok hnew
  obtain ⟨-, hsize⟩ := write_ok hheader
  have hshown := hinside (Nat.succ_ne_zero 15)
  exact ⟨hinfo, hsame.2, hsame.3, hsame.4, hsize.trans hsame.5, hshown⟩

/-- The infos of all packets lie in the memory. -/
theorem infos_fit (hempty : b.info = {}) (hplace : b.bufferOffset = 0x20)
    (hmax : b.maxPacketCount < 2 ^ 32) (hsize : 0x20 ≤ b.sharedMemory.block.size)
    (h : Completes queueStep HoldsPackets ⟨b, waiting⟩ (emptyPackets b.maxPacketCount)) :
    0x20 + 8 * b.maxPacketCount ≤ b.sharedMemory.block.size := by
  have hslots := slots_of_completes (by rw [hempty]) (by rw [hempty]; dsimp only; omega) hmax h
  have hbound := b.sharedMemory.size_le
  unfold Memory.FCRAM_N3DS_SIZE at hbound
  by_contra hout
  -- The first slot that is not in the memory.
  have hslot := hslots ((b.sharedMemory.block.size - 0x20) / 8) (by omega)
  rw [hempty, hplace] at hslot
  dsimp only at hslot
  rw [Nat.zero_add, u32_of_lt (by omega)] at hslot
  omega

/-- The bytes of the largest packet lie in the memory. -/
theorem data_fits (hempty : b.info = {}) (hcount : b.maxPacketCount ≠ 0)
    (hinfos : b.dataOffset ≤ b.sharedMemory.block.size)
    (h : Completes queueStep HoldsPackets ⟨b, waiting⟩ [.put (List.replicate b.maxDataSize 0)]) :
    b.dataOffset + b.maxDataSize ≤ b.sharedMemory.block.size := by
  obtain ⟨-, s, hstep, -⟩ := h
  obtain ⟨r, hput, -⟩ := bind_eq_ok.mp hstep
  have hlength : (List.replicate b.maxDataSize (0 : UInt8)).length = b.maxDataSize :=
    List.length_replicate
  obtain ⟨-, -, -, -, hdata⟩ := put_of_empty (by rw [hempty]) hcount (Nat.le_of_eq hlength) hput
  rw [hlength] at hdata
  have hbound := b.sharedMemory.size_le
  unfold Memory.FCRAM_N3DS_SIZE at hbound
  by_contra hout
  have hbyte := hdata (b.sharedMemory.block.size - b.dataOffset) (by omega)
  rw [Nat.mod_eq_of_lt (by omega), Nat.add_sub_cancel' hinfos, u32_of_lt (by omega)] at hbyte
  omega

/-- Two empty packets do not wait in a buffer without room for bytes. -/
theorem not_completes_empty (hempty : b.info = {}) (hcount : 1 < b.maxPacketCount)
    (hsize : b.maxDataSize = 0) :
    ¬ Completes queueStep HoldsPackets ⟨b, waiting⟩ [.put [], .put []] := by
  rintro ⟨-, s₁, h₁, -, s₂, h₂, -⟩
  obtain ⟨r₁, hput₁, h₁⟩ := bind_eq_ok.mp h₁
  cases h₁
  obtain ⟨r₂, hput₂, -⟩ := bind_eq_ok.mp h₂
  obtain ⟨hsame, hone, -⟩ :=
    put_of_empty (by rw [hempty]) (by dsimp only; omega) (Nat.zero_le _) hput₁
  dsimp only at hput₁ hput₂ hsame hone
  unfold BufferManager.put at hput₂
  rw [if_neg (by rw [hone, hsame.3]; omega)] at hput₂
  obtain ⟨found, hfound, -⟩ := bind_eq_ok.mp hput₂
  unfold BufferManager.findSpace at hfound
  rw [if_neg (by rw [hone]; decide)] at hfound
  obtain ⟨lastIndex, -, hfound⟩ := bind_eq_ok.mp hfound
  obtain ⟨first, -, hfound⟩ := bind_eq_ok.mp hfound
  obtain ⟨last, -, hfound⟩ := bind_eq_ok.mp hfound
  obtain ⟨writeOffset, hmodulo, -⟩ := bind_eq_ok.mp hfound
  exact (modulo_ok hmodulo).1 (hsame.4.trans hsize)

theorem bufferFits_of_right {recvBuffSize recvBuffPacketCount : UInt32} {memory : SharedMemory}
    (h : PacketQueueRight recvBuffSize recvBuffPacketCount memory) :
    BufferFits recvBuffSize recvBuffPacketCount memory := by
  obtain ⟨b, hmade, hruns⟩ := h
  obtain ⟨hempty, hplace, hmax, hdata, hsize, hheader⟩ := initialize_spec hmade
  have hcountLt := recvBuffPacketCount.toNat_lt
  have hsizeLt := recvBuffSize.toNat_lt
  have hbound := memory.size_le
  unfold Memory.FCRAM_N3DS_SIZE at hbound
  have hpositive : b.maxPacketCount ≠ 0 := by
    obtain ⟨-, s, hstep, -⟩ := hruns [.release 0]
    obtain ⟨r, hrelease, -⟩ := bind_eq_ok.mp hstep
    exact (release_of_ok (Nat.zero_le _) hrelease).1
  have hinfos := infos_fit hempty hplace (by omega) (by omega) (hruns _)
  have hdataOffset : b.dataOffset = 0x20 + 8 * b.maxPacketCount := by
    unfold BufferManager.dataOffset sizeofPacketInfo
    rw [hplace]
  have hinside := data_fits hempty hpositive (by omega) (hruns _)
  unfold sizeofPacketInfo u32 at hdata
  have hfits : 8 * recvBuffPacketCount.toNat ≤ recvBuffSize.toNat := by
    rw [hdataOffset, hsize, hmax, hdata] at hinside
    omega
  have hring : recvBuffPacketCount.toNat = 1 ∨
      8 * recvBuffPacketCount.toNat < recvBuffSize.toNat := by
    by_contra hnot
    obtain ⟨hone, hless⟩ := not_or.mp hnot
    exact not_completes_empty hempty (by omega) (by omega) (hruns _)
  refine ⟨by omega, hfits, ?_, hring⟩
  rw [hdataOffset, hsize, hmax, hdata] at hinside
  omega

/-- The receive buffer is a lossless queue inside its memory exactly when it fits. -/
theorem packetQueueRight_iff (recvBuffSize recvBuffPacketCount : UInt32) (memory : SharedMemory) :
    PacketQueueRight recvBuffSize recvBuffPacketCount memory ↔
      BufferFits recvBuffSize recvBuffPacketCount memory := by
  refine ⟨bufferFits_of_right, fun h => ?_⟩
  obtain ⟨manager, hmade, hp, hw⟩ := initialize_ok h
  exact ⟨manager, hmade, completes_of_waits hp hw⟩

/-- A page of shared memory. -/
def sharedPage : SharedMemory := ⟨⟨0x1000, fun _ => 0⟩, by decide⟩

/-- In a buffer for no packets the release of none of them divides by zero. -/
theorem packetQueueRight_noPackets : ¬ PacketQueueRight 0x100 0 sharedPage :=
  fun h => absurd (bufferFits_of_right h).1 (by decide)

end Needs

end Borked3DS.Analysis
