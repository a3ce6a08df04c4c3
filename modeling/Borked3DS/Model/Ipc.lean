import Borked3DS.Library.ByteOrder
import Borked3DS.Library.Touching
import Borked3DS.Model.HandleTable
import Borked3DS.Model.VMManager

/-!
# Translating command buffers between processes

`ipc.h` and `ipc.cpp`: the words of a command and `TranslateCommandBuffer`. The command buffer is
a function from indices to words, with whatever lies behind its end; every index is noted when it is
used. `MemorySystem` is a parameter: how bytes are read and written through a page table.
-/

set_option autoImplicit false

namespace Borked3DS.Model

open Borked3DS.Library Borked3DS.Library.Touching

/-! ## The words of a command -/

namespace IPC

/-- `COMMAND_BUFFER_LENGTH`: the size of the command buffer area, in 32-bit words. -/
def COMMAND_BUFFER_LENGTH : ℕ := 0x100 / 4

/-- `Header::translate_params_size`. -/
def translateParamsSize (header : ℕ) : ℕ := header % 2 ^ 6

/-- `Header::normal_params_size`. -/
def normalParamsSize (header : ℕ) : ℕ := header / 2 ^ 6 % 2 ^ 6

/-- `untranslated_size`: the header and the normal parameters. -/
def untranslatedSize (header : ℕ) : ℕ := 1 + normalParamsSize header

/-- `command_size`. -/
def commandSize (header : ℕ) : ℕ := untranslatedSize header + translateParamsSize header

/-- `DescriptorType`, with the value of the mask `0x30` that has no name. -/
inductive DescriptorType
  | copyHandle | moveHandle | callingPid | staticBuffer | pxiBuffer | mappedBuffer | unnamed
  deriving DecidableEq, Repr

/-- `GetDescriptorType`. The tests stand in the order of the source.
SOURCE: ipc.h:141-154 -/
def getDescriptorType (descriptor : ℕ) : DescriptorType :=
  if descriptor &&& 0xF = 0 then
    match descriptor &&& 0x30 with
    | 0x00 => .copyHandle
    | 0x10 => .moveHandle
    | 0x20 => .callingPid
    | _ => .unnamed
  else if descriptor &&& 0x08 ≠ 0 then .mappedBuffer
  else if descriptor &&& 0x04 ≠ 0 then .pxiBuffer
  else .staticBuffer

/-- The descriptor `MoveHandle` for one handle. -/
def MoveHandle : ℕ := 0x10

/-- `HandleNumberFromDesc`. -/
def handleNumberFromDesc (descriptor : ℕ) : ℕ := descriptor / 2 ^ 26 + 1

/-- `StaticBufferDescInfo::buffer_id`. -/
def staticBufferId (descriptor : ℕ) : ℕ := descriptor / 2 ^ 10 % 2 ^ 4

/-- `StaticBufferDescInfo::size`. -/
def staticBufferSize (descriptor : ℕ) : ℕ := descriptor / 2 ^ 14 % 2 ^ 18

/-- `MappedBufferPermissions::R`. -/
def R : ℕ := 1

/-- `MappedBufferDescInfo::perms`. -/
def mappedBufferPerms (descriptor : ℕ) : ℕ := descriptor / 2 % 2 ^ 2

/-- `MappedBufferDescInfo::size`. -/
def mappedBufferSize (descriptor : ℕ) : ℕ := descriptor / 2 ^ 4 % 2 ^ 28

end IPC

open IPC

/-! ## What a translation works on -/

/-- `MemorySystem`, as far as the translators call it: bytes are read, written and copied through
page tables, and a new `BufferMem` is allocated and filled. -/
structure MemorySystem (Mem : Type) where
  readBlock : Mem → PageTable → ℕ → ℕ → List UInt8
  writeBlock : Mem → PageTable → ℕ → List UInt8 → Mem
  copyBlock : Mem → PageTable → PageTable → ℕ → ℕ → ℕ → Mem
  bufferMem : Mem → ℕ → BackingMem × Mem
  fillBuffer : Mem → BackingMem → ℕ → List UInt8 → Mem
  isCached : Mem → ℕ → Bool

/-- `MappedBufferContext`. -/
structure MappedBufferContext where
  permissions : ℕ
  size : ℕ
  sourceAddress : ℕ
  targetAddress : ℕ
  buffer : BackingMem
  deriving DecidableEq, Repr

/-- `MappedBuffer`, without the process it lies in. -/
structure MappedBuffer where
  id : ℕ
  address : ℕ
  size : ℕ
  perms : ℕ
  deriving DecidableEq, Repr

/-- What the translators use of a process. -/
structure IpcProcess (Obj : Type) where
  processId : ℕ
  handleTable : HandleTable Obj
  vmManager : VMManager

/-- What the translators read and write: the processes and the memory behind them, the command
buffers (`cmd_buf` and, of a reply of an HLE service, `dst_cmdbuf`), the mapped buffers of the
session, and the objects, static buffers and mapped buffers of an HLE request. -/
structure IpcState (Proc Obj Mem : Type) where
  processes : Proc → IpcProcess Obj
  memory : Mem
  cmdBuf : ℕ → ℕ
  dstCmdbuf : ℕ → ℕ
  mappedBufferContext : List MappedBufferContext
  requestHandles : List (Option Obj)
  staticBuffers : ℕ → List UInt8
  requestMappedBuffers : List MappedBuffer

/-- Who a command is translated between, which objects the pseudo handles stand for, and whether
the IPC recorder is enabled. -/
structure IpcParties (Proc Obj Mem : Type) where
  memorySystem : MemorySystem Mem
  src : Proc
  dst : Proc
  srcThread : Obj
  srcProcess : Obj
  currentThread : Option Obj
  currentProcess : Option Obj
  shouldRecord : Bool

/-- The buffers a translator indexes. The static buffers area lies right behind the command buffer
of `dst_cmdbuf` and is not part of it. -/
inductive CommandArea
  | srcCmdbuf | cmdBuf | dstCmdbuf | staticBuffers
  deriving DecidableEq, Repr

/-- An index used to read or write a buffer. -/
structure CommandIndex where
  area : CommandArea
  index : ℕ
  deriving DecidableEq, Repr

/-- How a translation ends early: in a fault, or by returning a result. -/
inductive IpcStop
  | fault (f : Fault)
  | returns (r : Result)
  deriving DecidableEq, Repr

/-- A part of a translation. -/
abbrev Ipc (Proc Obj Mem : Type) := Touching CommandIndex (IpcState Proc Obj Mem) IpcStop

namespace Ipc

variable {Proc Obj Mem : Type}

/-- A computation of the kernel that may fault. -/
def exec {α : Type} (x : Exec α) : Ipc Proc Obj Mem α := lift (x.mapError .fault)

/-- Use the indices below `n` of a buffer. -/
def touchBelow (area : CommandArea) (n : ℕ) : Ipc Proc Obj Mem Unit :=
  touch ((List.range n).map fun i => ⟨area, i⟩)

/-- `cmd_buf[i]`. -/
def readCmdBuf (i : ℕ) : Ipc Proc Obj Mem ℕ := do
  touch [⟨.cmdBuf, i⟩]
  let s ← get
  pure (s.cmdBuf i)

/-- `cmd_buf[i] = word`. -/
def writeCmdBuf (i word : ℕ) : Ipc Proc Obj Mem Unit := do
  touch [⟨.cmdBuf, i⟩]
  modify fun s => { s with cmdBuf := Function.update s.cmdBuf i word }

/-- The words of a buffer are copied for the recorder, if it is enabled. -/
def record (shouldRecord : Bool) (area : CommandArea) (commandSize : ℕ) : Ipc Proc Obj Mem Unit :=
  if shouldRecord then touchBelow area commandSize else pure ()

variable [DecidableEq Proc]

/-- Change a process. -/
def modifyProcess (process : Proc) (f : IpcProcess Obj → IpcProcess Obj) : Ipc Proc Obj Mem Unit :=
  modify fun s => { s with processes := Function.update s.processes process (f (s.processes process)) }

/-- `handle_table.Close` of a handle that is moved, its result not looked at. -/
def closeMoved (process : Proc) (isMoved : Bool) (handle : ℕ) : Ipc Proc Obj Mem Unit :=
  modifyProcess process fun p =>
    match p.handleTable.close handle with
    | .ok table => if isMoved then { p with handleTable := table } else p
    | .error _ => p

/-- `R_ASSERT(handle_table.Create(..))`. -/
def createHandle (process : Proc) (object : Obj) : Ipc Proc Obj Mem ℕ := do
  let s ← get
  match (s.processes process).handleTable.create object with
  | .error _ => Touching.stop (.fault (.assertion .handleCreated))
  | .ok (handle, table) => do
      modifyProcess process fun p => { p with handleTable := table }
      pure handle

end Ipc

open Ipc

/-! ## TranslateCommandBuffer -/

section Translate

variable {Proc Obj Mem : Type} [DecidableEq Proc] (parties : IpcParties Proc Obj Mem)

/-- One handle behind a handle descriptor. Only the descriptor for one handle closes what it moves:
the source compares the whole descriptor.
SOURCE: ipc.cpp:71-97 -/
def translateHandle (descriptor i : ℕ) : Ipc Proc Obj Mem Unit := do
  let handle ← readCmdBuf i
  let s ← get
  let handles := (s.processes parties.src).handleTable
  let object :=
    if handle = CurrentThread then some parties.srcThread
    else if handle = CurrentProcess then some parties.srcProcess
    else if handle ≠ 0 then
      handles.getGeneric parties.currentThread parties.currentProcess handle
    else none
  let isReal := handle ≠ CurrentThread ∧ handle ≠ CurrentProcess ∧ handle ≠ 0
  closeMoved parties.src (isReal ∧ descriptor = MoveHandle) handle
  match object with
  | none => writeCmdBuf i 0
  | some object => do
      let created ← createHandle parties.dst object
      writeCmdBuf i created

/-- The part behind a `StaticBuffer` descriptor.
SOURCE: ipc.cpp:104-137 -/
def translateStaticBuffer (dstAddress descriptor i : ℕ) : Ipc Proc Obj Mem Unit := do
  let staticBufferSrcAddress ← readCmdBuf i
  let s ← get
  let srcTable := (s.processes parties.src).vmManager.pageTable
  let dstTable := (s.processes parties.dst).vmManager.pageTable
  let data := parties.memorySystem.readBlock s.memory srcTable staticBufferSrcAddress
    (staticBufferSize descriptor)
  let staticBufferOffset := COMMAND_BUFFER_LENGTH * 4 + 8 * staticBufferId descriptor
  let targetBuffer := parties.memorySystem.readBlock s.memory dstTable
    (u32 (dstAddress + staticBufferOffset)) 8
  let targetDescriptor := ofLittleEndian (targetBuffer.take 4)
  let targetAddress := ofLittleEndian (targetBuffer.drop 4)
  exec (assert (data.length ≤ staticBufferSize targetDescriptor) .staticBufferSize)
  modify fun s =>
    { s with memory := parties.memorySystem.writeBlock s.memory dstTable targetAddress data }
  writeCmdBuf i targetAddress

/-- `page_start`: where the page of an address begins. -/
def pageStart (address : ℕ) : ℕ := address - address % Memory.PAGE_SIZE

/-- `page_offset`. -/
def pageOffset (address : ℕ) : ℕ := address - pageStart address

/-- `num_pages`: the pages a mapped buffer lies in. -/
def numPages (address size : ℕ) : ℕ :=
  (pageOffset address + size + (Memory.PAGE_SIZE - 1)) / Memory.PAGE_SIZE

/-- Copy the bytes of a buffer back into the client, unless it is read-only.
SOURCE: ipc.cpp:170-176 -/
def copyBack (found : MappedBufferContext) (permissions size : ℕ) : Ipc Proc Obj Mem Unit :=
  modify fun s => { s with
    memory :=
      if permissions ≠ R then
        parties.memorySystem.copyBlock s.memory
          (s.processes parties.dst).vmManager.pageTable
          (s.processes parties.src).vmManager.pageTable found.sourceAddress found.targetAddress
          size
      else s.memory }

/-- Unmap a buffer of the server with its guard pages.
SOURCE: ipc.cpp:178-190 -/
def unmapMappedBuffer (pageStart numPages : ℕ) : Ipc Proc Obj Mem Unit := do
  let s ← get
  let src := (s.processes parties.src).vmManager
  let prevReserve := u32Sub pageStart Memory.PAGE_SIZE
  let nextReserve := u32 (pageStart + numPages * Memory.PAGE_SIZE)
  match src.findVMA prevReserve, src.findVMA nextReserve with
  | some prev, some next => do
      let prevVma ← exec (VMAMap.deref src.vmaMap prev)
      let nextVma ← exec (VMAMap.deref src.vmaMap next)
      exec (assert (prevVma.meminfoState = .reserved ∧ nextVma.meminfoState = .reserved)
        .guardPages)
      let unmapped ← exec (src.unmapRange (parties.memorySystem.isCached s.memory) prevReserve
        ((numPages + 2) * Memory.PAGE_SIZE))
      modifyProcess parties.src fun p => { p with vmManager := unmapped.1 }
      exec (assert (unmapped.2 = .success) .bufferUnmapped)
  | _, _ => Touching.stop (.fault .undefined)

/-- Whether an entry of the session is about the buffer that a reply returns. The reply's source
address is the request's target address. -/
def isReturned (permissions size sourceAddress : ℕ) (context : MappedBufferContext) : Bool :=
  decide (context.permissions = permissions) && decide (context.size = size) &&
    decide (context.targetAddress = sourceAddress)

/-- Take a mapped buffer back from the server that replies.
SOURCE: ipc.cpp:157-196 -/
def returnMappedBuffer (permissions size sourceAddress : ℕ) : Ipc Proc Obj Mem Unit := do
  let s ← get
  match s.mappedBufferContext.find? (isReturned permissions size sourceAddress) with
  | none => Touching.stop (.fault (.assertion .unsolicitedBuffer))
  | some found => do
      copyBack parties found permissions size
      unmapMappedBuffer parties (pageStart sourceAddress) (numPages sourceAddress size)
      modify fun s => { s with
        mappedBufferContext :=
          s.mappedBufferContext.eraseP (isReturned permissions size sourceAddress) }

/-- Make a buffer with room for two guard pages and fill it with the bytes of the client.
SOURCE: ipc.cpp:202-206 -/
def makeBuffer (size sourceAddress : ℕ) : Ipc Proc Obj Mem BackingMem := do
  let s ← get
  let allocated := parties.memorySystem.bufferMem s.memory
    ((numPages sourceAddress size + 2) * Memory.PAGE_SIZE)
  modify fun s => { s with
    memory := parties.memorySystem.fillBuffer allocated.2 allocated.1
      (Memory.PAGE_SIZE + pageOffset sourceAddress)
      (parties.memorySystem.readBlock allocated.2 (s.processes parties.src).vmManager.pageTable
        sourceAddress size) }
  pure allocated.1

/-- Make a page of a new mapping a guard page.
SOURCE: ipc.cpp:221-228 -/
def guardPage (address : ℕ) : Ipc Proc Obj Mem Unit := do
  let s ← get
  let guarded ← exec ((s.processes parties.dst).vmManager.changeMemoryState
    (parties.memorySystem.isCached s.memory) address Memory.PAGE_SIZE .shared .readWrite .reserved
    .none)
  modifyProcess parties.dst fun p => { p with vmManager := guarded.1 }
  exec (assert (guarded.2 = .success) .guardState)

/-- Map a buffer with its guard pages into the server: the address of the lower one.
SOURCE: ipc.cpp:208-228 -/
def mapBuffer (buffer : BackingMem) : Ipc Proc Obj Mem ℕ := do
  let s ← get
  let mapped ← exec ((s.processes parties.dst).vmManager.mapBackingMemoryToBase
    (parties.memorySystem.isCached s.memory) Memory.IPC_MAPPING_VADDR Memory.IPC_MAPPING_SIZE
    { backingMem := some buffer } (u32 buffer.size) .shared)
  modifyProcess parties.dst fun p => { p with vmManager := mapped.1 }
  match mapped.2 with
  | .error _ => Touching.stop (.fault (.assertion .unwrappedError))
  | .ok lowGuardAddress => do
      guardPage parties lowGuardAddress
      guardPage parties (u32Sub (u32 (lowGuardAddress + u32 buffer.size)) Memory.PAGE_SIZE)
      pure lowGuardAddress

/-- Lend a buffer of the client to the server and note it in the session: the address it lies at.
SOURCE: ipc.cpp:198-237 -/
def lendMappedBuffer (permissions size sourceAddress : ℕ) : Ipc Proc Obj Mem ℕ := do
  let buffer ← makeBuffer parties size sourceAddress
  let lowGuardAddress ← mapBuffer parties buffer
  let targetAddress := u32 (u32 (lowGuardAddress + Memory.PAGE_SIZE) + pageOffset sourceAddress)
  modify fun s => { s with mappedBufferContext := s.mappedBufferContext ++
    [{ permissions := permissions, size := size, sourceAddress := sourceAddress,
       targetAddress := targetAddress, buffer := buffer }] }
  pure targetAddress

/-- The part behind a `MappedBuffer` descriptor.
SOURCE: ipc.cpp:138-238 -/
def translateMappedBuffer (reply : Bool) (descriptor i : ℕ) : Ipc Proc Obj Mem Unit := do
  let sourceAddress ← readCmdBuf i
  let size := mappedBufferSize descriptor
  let permissions := mappedBufferPerms descriptor
  if size = 0 then writeCmdBuf i 0
  else do
    exec (assert (1 ≤ numPages sourceAddress size) .mappedPages)
    if reply then returnMappedBuffer parties permissions size sourceAddress
    else do
      let targetAddress ← lendMappedBuffer parties permissions size sourceAddress
      writeCmdBuf i targetAddress

/-- One round of the loop: translate the descriptor at `i`, and say how many words it takes behind
it. A descriptor of an unknown kind takes none.
SOURCE: ipc.cpp:56-242 -/
def translateDescriptor (reply : Bool) (dstAddress commandSize i : ℕ) : Ipc Proc Obj Mem ℕ := do
  let descriptor ← readCmdBuf i
  let i := i + 1
  match getDescriptorType descriptor with
  | .copyHandle | .moveHandle => do
      let numHandles := handleNumberFromDesc descriptor
      if commandSize < i + numHandles then Touching.stop (.returns .commandTooLarge)
      else do
        each (translateHandle parties descriptor) numHandles i
        pure numHandles
  | .callingPid => do
      let s ← get
      writeCmdBuf i (s.processes parties.src).processId
      pure 1
  | .staticBuffer => do
      translateStaticBuffer parties dstAddress descriptor i
      pure 1
  | .mappedBuffer => do
      translateMappedBuffer parties reply descriptor i
      pure 1
  | .pxiBuffer | .unnamed => pure 0

/-- The word at an index of what was read from a command buffer. -/
def wordAt (bytes : List UInt8) (i : ℕ) : ℕ := ofLittleEndian ((bytes.drop (4 * i)).take 4)

/-- The header of the command at an address. -/
def headerAt (s : IpcState Proc Obj Mem) (srcAddress : ℕ) : ℕ :=
  wordAt (parties.memorySystem.readBlock s.memory (s.processes parties.src).vmManager.pageTable
    srcAddress 4) 0

/-- `memory.ReadBlock(*src_process, src_address, cmd_buf.data(), ..)`. -/
def fetchCommand (s : IpcState Proc Obj Mem) (srcAddress commandSize : ℕ) :
    IpcState Proc Obj Mem :=
  let bytes := parties.memorySystem.readBlock s.memory
    (s.processes parties.src).vmManager.pageTable srcAddress (commandSize * 4)
  { s with cmdBuf := fun i => if i < commandSize then wordAt bytes i else s.cmdBuf i }

/-- `TranslateCommandBuffer`. The recorder gets copies of the words before and after.
SOURCE: ipc.cpp:26-258 -/
def translateCommandBuffer (srcAddress dstAddress : ℕ) (reply : Bool) : Ipc Proc Obj Mem Result := do
  let s ← get
  let header := headerAt parties s srcAddress
  let untranslatedSize := untranslatedSize header
  let commandSize := commandSize header
  exec (assert (commandSize ≤ COMMAND_BUFFER_LENGTH) .commandSize)
  touchBelow .cmdBuf commandSize
  modify fun s => fetchCommand parties s srcAddress commandSize
  record parties.shouldRecord .cmdBuf commandSize
  walk commandSize (translateDescriptor parties reply dstAddress commandSize) untranslatedSize
  record parties.shouldRecord .cmdBuf commandSize
  touchBelow .cmdBuf commandSize
  modify fun s => { s with
    memory := parties.memorySystem.writeBlock s.memory
      (s.processes parties.dst).vmManager.pageTable dstAddress
      ((List.range commandSize).flatMap fun i => toLittleEndian 4 (s.cmdBuf i)) }
  pure .success

end Translate

end Borked3DS.Model
