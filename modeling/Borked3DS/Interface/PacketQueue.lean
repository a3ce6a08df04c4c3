import Borked3DS.Library.RingBuffer
import Borked3DS.Library.Run
import Borked3DS.Model.IrUser

/-!
# What the receive buffer owes to its packets

Packets are put into the buffer and released from it in any order; `waiting` keeps those that were
taken and have not been released.
-/

set_option autoImplicit false

namespace Borked3DS.Interface

open Borked3DS.Library Borked3DS.Model Borked3DS.Model.IR

/-- What the shared memory holds in a slot of the ring of infos. -/
def packetInfoAt (b : BufferManager) (index : ℕ) : PacketInfo :=
  .ofBytes (b.sharedMemory.block.read (b.bufferOffset + sizeofPacketInfo * index) sizeofPacketInfo)

/-- What it holds in a slot of the ring of bytes. -/
def dataByteAt (b : BufferManager) (place : ℕ) : UInt8 :=
  b.sharedMemory.block.get (b.dataOffset + place)

/-- The infos of the packets between the two indices. -/
def packetInfos (b : BufferManager) : List PacketInfo :=
  ringContents b.maxPacketCount (packetInfoAt b) b.info.beginIndex b.info.packetCount

/-- The bytes that an info stands for. -/
def packetBytes (b : BufferManager) (packetInfo : PacketInfo) : List UInt8 :=
  ringContents b.maxDataSize (dataByteAt b) packetInfo.offset packetInfo.size

/-- The receive buffer, with the packets that have been taken and not been released. -/
structure QueueState where
  manager : BufferManager
  waiting : List (List UInt8) := []

inductive QueueEvent
  | put (packet : List UInt8)
  | release (count : UInt32)

def queueStep (s : QueueState) : QueueEvent → Exec QueueState
  | .put packet => do
      let (taken, manager) ← s.manager.put packet
      .ok { manager, waiting := if taken then s.waiting ++ [packet] else s.waiting }
  | .release count => do
      let (released, manager) ← s.manager.release count.toNat
      .ok { manager, waiting := if released then s.waiting.drop count.toNat else s.waiting }

/-- The packets in the memory are those that wait, their bytes do not overlap, the number of packets
fits the indices, which the guest sees, and a call that is refused changes nothing. -/
structure HoldsPackets (s : QueueState) : Prop where
  count_le : s.manager.info.packetCount ≤ s.manager.maxPacketCount
  begin_lt : s.manager.info.beginIndex < s.manager.maxPacketCount
  end_eq : s.manager.info.endIndex =
    (s.manager.info.beginIndex + s.manager.info.packetCount) % s.manager.maxPacketCount
  shown : s.manager.sharedMemory.block.read s.manager.infoOffset 16 = s.manager.info.toBytes
  packets : (packetInfos s.manager).map (packetBytes s.manager) = s.waiting
  sizes : ∀ p ∈ packetInfos s.manager, p.size ≤ s.manager.maxDataSize
  apart : (packetInfos s.manager).Pairwise fun p q => ∀ i < p.size, ∀ j < q.size,
    (p.offset + i) % s.manager.maxDataSize ≠ (q.offset + j) % s.manager.maxDataSize
  put_refused : ∀ packet b, s.manager.put packet = .ok (false, b) → b = s.manager
  release_refused : ∀ count b, s.manager.release count = .ok (false, b) → b = s.manager

/-- The buffer is made, and every run of calls gets to its end without leaving the memory or
dividing by zero, with the packets held all along. -/
def PacketQueueRight (recvBuffSize recvBuffPacketCount : UInt32) (memory : SharedMemory) : Prop :=
  ∃ manager, initializeIrNopShared recvBuffSize recvBuffPacketCount memory = .ok manager ∧
    ∀ is, Completes queueStep HoldsPackets { manager } is

/-- There is a slot for an info, the infos leave something of the buffer for the bytes of packets,
if there is more than one of them, and the buffer lies in the memory. -/
def BufferFits (recvBuffSize recvBuffPacketCount : UInt32) (memory : SharedMemory) : Prop :=
  0 < recvBuffPacketCount.toNat ∧
    sizeofPacketInfo * recvBuffPacketCount.toNat ≤ recvBuffSize.toNat ∧
    0x20 + recvBuffSize.toNat ≤ memory.block.size ∧
    (recvBuffPacketCount.toNat = 1 ∨
      sizeofPacketInfo * recvBuffPacketCount.toNat < recvBuffSize.toNat)

end Borked3DS.Interface
