import Borked3DS.Model.Ipc

/-!
# Translating the commands of emulated services

`hle_ipc.cpp`: how a request is read into an `HLERequestContext` and a reply is written back. The
context's own `cmd_buf`, objects and buffers are in `IpcState`.
-/

set_option autoImplicit false

namespace Borked3DS.Model

open Borked3DS.Library Borked3DS.Library.Touching
open IPC Ipc

namespace HLERequestContext

variable {Proc Obj Mem : Type} [DecidableEq Proc] (parties : IpcParties Proc Obj Mem)

/-! ## The request -/

section Incoming

variable (srcCmdbuf : ℕ → ℕ)

/-- `src_cmdbuf[i]`. -/
def readSrcCmdbuf (i : ℕ) : Ipc Proc Obj Mem ℕ := do
  touch [⟨.srcCmdbuf, i⟩]
  pure (srcCmdbuf i)

/-- `AddOutgoingHandle`. -/
def addOutgoingHandle (object : Option Obj) : Ipc Proc Obj Mem ℕ := do
  modify fun s => { s with requestHandles := s.requestHandles ++ [object] }
  let s ← get
  pure (u32 (s.requestHandles.length - 1))

/-- One handle behind a handle descriptor.
SOURCE: hle_ipc.cpp:185-197 -/
def populateHandle (descriptor i : ℕ) : Ipc Proc Obj Mem Unit := do
  let handle ← readSrcCmdbuf srcCmdbuf i
  let s ← get
  let object :=
    if handle ≠ 0 then
      (s.processes parties.src).handleTable.getGeneric parties.currentThread
        parties.currentProcess handle
    else none
  exec (assert (handle ≠ 0 → object.isSome) .missingObject)
  closeMoved parties.src (handle ≠ 0 ∧ descriptor = MoveHandle) handle
  let id ← addOutgoingHandle object
  writeCmdBuf i id

/-- One round of the loop: the descriptor at `i`, and how many words it takes behind it.
SOURCE: hle_ipc.cpp:176-226 -/
def populateDescriptor (commandSize i : ℕ) : Ipc Proc Obj Mem ℕ := do
  let descriptor ← readSrcCmdbuf srcCmdbuf i
  writeCmdBuf i descriptor
  let i := i + 1
  match getDescriptorType descriptor with
  | .copyHandle | .moveHandle => do
      let numHandles := handleNumberFromDesc descriptor
      exec (assert (i + numHandles ≤ commandSize) .handleCount)
      each (populateHandle parties srcCmdbuf descriptor) numHandles i
      pure numHandles
  | .callingPid => do
      let s ← get
      writeCmdBuf i (s.processes parties.src).processId
      pure 1
  | .staticBuffer => do
      let sourceAddress ← readSrcCmdbuf srcCmdbuf i
      modify fun s => { s with
        staticBuffers := Function.update s.staticBuffers (staticBufferId descriptor)
          (parties.memorySystem.readBlock s.memory
            (s.processes parties.src).vmManager.pageTable sourceAddress
            (staticBufferSize descriptor)) }
      writeCmdBuf i sourceAddress
      pure 1
  | .mappedBuffer => do
      let s ← get
      let nextId := u32 s.requestMappedBuffers.length
      let address ← readSrcCmdbuf srcCmdbuf i
      modify fun s => { s with
        requestMappedBuffers := s.requestMappedBuffers ++
          [{ id := nextId, address := address, size := mappedBufferSize descriptor,
             perms := mappedBufferPerms descriptor }] }
      writeCmdBuf i nextId
      pure 1
  | .pxiBuffer | .unnamed => pure 0

/-- `std::copy_n(src_cmdbuf, untranslated_size, cmd_buf.begin())`. -/
def copyIncoming (untranslatedSize : ℕ) (s : IpcState Proc Obj Mem) : IpcState Proc Obj Mem :=
  { s with cmdBuf := fun i => if i < untranslatedSize then srcCmdbuf i else s.cmdBuf i }

/-- `PopulateFromIncomingCommandBuffer`.
SOURCE: hle_ipc.cpp:157-235 -/
def populateFromIncomingCommandBuffer : Ipc Proc Obj Mem Result := do
  let header ← readSrcCmdbuf srcCmdbuf 0
  let untranslatedSize := untranslatedSize header
  let commandSize := commandSize header
  exec (assert (commandSize ≤ COMMAND_BUFFER_LENGTH) .commandSize)
  touchBelow .srcCmdbuf untranslatedSize
  touchBelow .cmdBuf untranslatedSize
  modify (copyIncoming srcCmdbuf untranslatedSize)
  record parties.shouldRecord .srcCmdbuf commandSize
  walk commandSize (populateDescriptor parties srcCmdbuf commandSize) untranslatedSize
  record parties.shouldRecord .cmdBuf commandSize
  pure .success

end Incoming

/-! ## The reply -/

/-- `dst_cmdbuf[i] = word`. -/
def writeDstCmdbuf (i word : ℕ) : Ipc Proc Obj Mem Unit := do
  touch [⟨.dstCmdbuf, i⟩]
  modify fun s => { s with dstCmdbuf := Function.update s.dstCmdbuf i word }

/-- `GetIncomingHandle`. -/
def getIncomingHandle (idFromCmdbuf : ℕ) : Ipc Proc Obj Mem (Option Obj) := do
  let s ← get
  match s.requestHandles[idFromCmdbuf]? with
  | none => Touching.stop (.fault (.assertion .incomingHandle))
  | some object => pure object

/-- One handle behind a handle descriptor.
SOURCE: hle_ipc.cpp:265-273 -/
def writeHandle (i : ℕ) : Ipc Proc Obj Mem Unit := do
  let id ← readCmdBuf i
  let object ← getIncomingHandle id
  match object with
  | none => writeDstCmdbuf i 0
  | some object => do
      let handle ← createHandle parties.dst object
      writeDstCmdbuf i handle

/-- One round of the loop. `CallingPid` is a descriptor of an unknown kind here.
SOURCE: hle_ipc.cpp:255-304 -/
def writeDescriptor (commandSize i : ℕ) : Ipc Proc Obj Mem ℕ := do
  let descriptor ← readCmdBuf i
  writeDstCmdbuf i descriptor
  let i := i + 1
  match getDescriptorType descriptor with
  | .copyHandle | .moveHandle => do
      let numHandles := handleNumberFromDesc descriptor
      exec (assert (i + numHandles ≤ commandSize) .handleCount)
      each (writeHandle parties) numHandles i
      pure numHandles
  | .staticBuffer => do
      let staticBufferOffset := COMMAND_BUFFER_LENGTH + 2 * staticBufferId descriptor
      touch [⟨.staticBuffers, staticBufferOffset⟩, ⟨.staticBuffers, staticBufferOffset + 1⟩]
      let s ← get
      let data := s.staticBuffers (staticBufferId descriptor)
      let targetDescriptor := s.dstCmdbuf staticBufferOffset
      let targetAddress := s.dstCmdbuf (staticBufferOffset + 1)
      exec (assert (data.length ≤ staticBufferSize targetDescriptor) .staticBufferSize)
      modify fun s => { s with
        memory := parties.memorySystem.writeBlock s.memory
          (s.processes parties.dst).vmManager.pageTable targetAddress data }
      writeDstCmdbuf i targetAddress
      pure 1
  | .mappedBuffer => do
      let id ← readCmdBuf i
      let s ← get
      match s.requestMappedBuffers[id]? with
      | none => Touching.stop (.fault .undefined)
      | some buffer => do
          writeDstCmdbuf i buffer.address
          pure 1
  | .callingPid | .pxiBuffer | .unnamed => pure 0

/-- `std::copy_n(cmd_buf.begin(), untranslated_size, dst_cmdbuf)`. -/
def copyOutgoing (untranslatedSize : ℕ) (s : IpcState Proc Obj Mem) : IpcState Proc Obj Mem :=
  { s with dstCmdbuf := fun i => if i < untranslatedSize then s.cmdBuf i else s.dstCmdbuf i }

/-- `WriteToOutgoingCommandBuffer`.
SOURCE: hle_ipc.cpp:237-313 -/
def writeToOutgoingCommandBuffer : Ipc Proc Obj Mem Result := do
  let header ← readCmdBuf 0
  let untranslatedSize := untranslatedSize header
  let commandSize := commandSize header
  exec (assert (commandSize ≤ COMMAND_BUFFER_LENGTH) .commandSize)
  touchBelow .cmdBuf untranslatedSize
  touchBelow .dstCmdbuf untranslatedSize
  modify (copyOutgoing untranslatedSize)
  record parties.shouldRecord .cmdBuf commandSize
  walk commandSize (writeDescriptor parties commandSize) untranslatedSize
  record parties.shouldRecord .dstCmdbuf commandSize
  pure .success

end HLERequestContext

end Borked3DS.Model
