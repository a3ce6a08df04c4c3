import Borked3DS.Library.ByteOrder
import Borked3DS.Library.Span
import Borked3DS.Model.Basic

/-!
# The receive buffer of the IR service

Packets for the guest lie in a memory that it shares with the service: a ring of packet infos, which
say where the packets are, and behind it a ring of their bytes. The guest chooses how large the
rings are (`ir_user.cpp`).
-/

set_option autoImplicit false

namespace Borked3DS.Model.IR

open Borked3DS.Library

/-- The first backing block of a shared memory, a part of the FCRAM; `GetPointer` points into it
without looking at its size.
SOURCE: kernel/shared_memory.cpp:46-100, 211-216 -/
structure SharedMemory where
  block : Span
  size_le : block.size ≤ Memory.FCRAM_N3DS_SIZE

namespace SharedMemory

variable (memory : SharedMemory) (offset : ℕ)

/-- `memcpy` to a pointer. -/
def write (bytes : List UInt8) : Exec SharedMemory :=
  if u32 offset + bytes.length ≤ memory.block.size then
    .ok { memory with block := memory.block.write (u32 offset) bytes }
  else .error .undefined

/-- `memcpy` from a pointer. -/
def read (n : ℕ) : Exec (List UInt8) :=
  if u32 offset + n ≤ memory.block.size then .ok (memory.block.read (u32 offset) n)
  else .error .undefined

end SharedMemory

/-- SOURCE: ir_user.cpp:160-176 -/
structure BufferInfo where
  beginIndex : ℕ := 0
  endIndex : ℕ := 0
  packetCount : ℕ := 0
  unknown : ℕ := 0
  deriving DecidableEq, Repr

def BufferInfo.toBytes (info : BufferInfo) : List UInt8 :=
  toLittleEndian 4 info.beginIndex ++ toLittleEndian 4 info.endIndex ++
    toLittleEndian 4 info.packetCount ++ toLittleEndian 4 info.unknown

/-- SOURCE: ir_user.cpp:179-182 -/
structure PacketInfo where
  offset : ℕ
  size : ℕ
  deriving DecidableEq, Repr

def PacketInfo.toBytes (packetInfo : PacketInfo) : List UInt8 :=
  toLittleEndian 4 packetInfo.offset ++ toLittleEndian 4 packetInfo.size

def PacketInfo.ofBytes (bytes : List UInt8) : PacketInfo where
  offset := ofLittleEndian (bytes.take 4)
  size := ofLittleEndian (bytes.drop 4)

def sizeofPacketInfo : ℕ := 8

/-- `a % b`. -/
def modulo (a b : ℕ) : Exec ℕ := if b = 0 then .error .undefined else .ok (a % b)

/-- SOURCE: ir_user.cpp:92-217 -/
structure BufferManager where
  info : BufferInfo := {}
  sharedMemory : SharedMemory
  infoOffset : ℕ
  bufferOffset : ℕ
  maxPacketCount : ℕ
  maxDataSize : ℕ

namespace BufferManager

variable (b : BufferManager)

/-- SOURCE: ir_user.cpp:185-192 -/
def setPacketInfo (index : ℕ) (packetInfo : PacketInfo) : Exec BufferManager := do
  let sharedMemory ← b.sharedMemory.write (b.bufferOffset + sizeofPacketInfo * index)
    packetInfo.toBytes
  .ok { b with sharedMemory }

/-- SOURCE: ir_user.cpp:194-198 -/
def getPacketInfo (index : ℕ) : Exec PacketInfo := do
  let bytes ← b.sharedMemory.read (b.bufferOffset + sizeofPacketInfo * index) sizeofPacketInfo
  .ok (.ofBytes bytes)

/-- Where the bytes of the packets begin.
SOURCE: ir_user.cpp:200-203 -/
def dataOffset : ℕ := b.bufferOffset + sizeofPacketInfo * b.maxPacketCount

/-- SOURCE: ir_user.cpp:205-209 -/
def updateBufferInfo : Exec BufferManager :=
  if b.infoOffset ≠ 0 then do
    let sharedMemory ← b.sharedMemory.write b.infoOffset b.info.toBytes
    .ok { b with sharedMemory }
  else .ok b

/-- SOURCE: ir_user.cpp:94-100 -/
def new (sharedMemory : SharedMemory) (infoOffset bufferOffset maxPacketCount bufferSize : ℕ) :
    Exec BufferManager :=
  updateBufferInfo { sharedMemory, infoOffset, bufferOffset, maxPacketCount
                     maxDataSize := u32 (bufferSize + 2 ^ 64 - sizeofPacketInfo * maxPacketCount) }

/-- Where the bytes of a packet of `n` bytes go, if there is room for them.
SOURCE: ir_user.cpp:112-130 -/
def findSpace (n : ℕ) : Exec (Option ℕ) :=
  if b.info.packetCount = 0 then .ok (if b.maxDataSize < n then none else some 0)
  else do
    let lastIndex ← modulo (u32Sub (u32 (b.info.endIndex + b.maxPacketCount)) 1) b.maxPacketCount
    let first ← b.getPacketInfo b.info.beginIndex
    let last ← b.getPacketInfo lastIndex
    let writeOffset ← modulo (u32 (last.offset + last.size)) b.maxDataSize
    let freeSpace ← modulo (u32Sub (u32 (first.offset + b.maxDataSize)) writeOffset) b.maxDataSize
    .ok (if freeSpace < n then none else some writeOffset)

/-- The bytes of a packet are written, from an offset on.
SOURCE: ir_user.cpp:136-139 -/
def writeData (b : BufferManager) : ℕ → List UInt8 → Exec BufferManager
  | _, [] => .ok b
  | offset, byte :: packet => do
      let place ← modulo offset b.maxDataSize
      let sharedMemory ← b.sharedMemory.write (b.dataOffset + place) [byte]
      writeData { b with sharedMemory } (offset + 1) packet

/-- SOURCE: ir_user.cpp:107-146 -/
def put (packet : List UInt8) : Exec (Bool × BufferManager) :=
  if b.info.packetCount = b.maxPacketCount then .ok (false, b)
  else do
    match ← b.findSpace packet.length with
    | none => .ok (false, b)
    | some writeOffset =>
        let b ← b.setPacketInfo b.info.endIndex ⟨writeOffset, u32 packet.length⟩
        let b ← b.writeData writeOffset packet
        let endIndex ← modulo (u32 (b.info.endIndex + 1)) b.maxPacketCount
        let b ← updateBufferInfo { b with info := { b.info with
          endIndex, packetCount := u32 (b.info.packetCount + 1) } }
        .ok (true, b)

/-- SOURCE: ir_user.cpp:153-162 -/
def release (count : ℕ) : Exec (Bool × BufferManager) :=
  if b.info.packetCount < count then .ok (false, b)
  else do
    let beginIndex ← modulo (u32 (b.info.beginIndex + count)) b.maxPacketCount
    let b ← updateBufferInfo { b with info := { b.info with
      beginIndex, packetCount := b.info.packetCount - count } }
    .ok (true, b)

end BufferManager

/-- The header of a shared memory that is initialized.
SOURCE: ir_user.cpp:46-63 -/
def sharedMemoryInit : List UInt8 := List.replicate 14 0 ++ [1, 0]

/-- The parameters that are used, and the memory that the guest hands over.
SOURCE: ir_user.cpp:292-309 -/
def initializeIrNopShared (recvBuffSize recvBuffPacketCount : UInt32)
    (sharedMemory : SharedMemory) : Exec BufferManager := do
  let b ← BufferManager.new sharedMemory 0x10 0x20 recvBuffPacketCount.toNat recvBuffSize.toNat
  let sharedMemory ← b.sharedMemory.write 0 sharedMemoryInit
  .ok { b with sharedMemory }

end Borked3DS.Model.IR
