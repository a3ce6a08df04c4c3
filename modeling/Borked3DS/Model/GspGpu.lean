import Borked3DS.Library.Registers
import Borked3DS.Model.Basic

/-!
# The GSP service

The sessions of `gsp::Gpu`, who of them holds the right to the GPU, and what the service keeps in
the memory that it shares with all of them: a queue of interrupts and a ring of commands for each of
four threads (`gsp_gpu.cpp`, `gsp_interrupt.h`, `gsp_command.h`).
-/

set_option autoImplicit false

namespace Borked3DS.Model.GSP

open Borked3DS.Library

/-! ## The shared memory -/

abbrev MaxGSPThreads : ℕ := 4

/-- SOURCE: gsp_interrupt.h:13-21 -/
inductive InterruptId
  | psc0 | psc1 | pdc0 | pdc1 | ppf | p3d | dma
  deriving DecidableEq, Repr

/-- GSP thread interrupt relay queue. The counts of missed interrupts are not used.
SOURCE: gsp_interrupt.h:24-37 -/
structure InterruptRelayQueue where
  index : UInt8
  numberInterrupts : UInt8
  errorCode : UInt8
  slot : Table 0x34 InterruptId

/-- SOURCE: gsp_gpu.h:31-39 -/
structure FrameBufferInfo where
  activeFb : UInt32
  addressLeft : UInt32
  addressRight : UInt32
  stride : UInt32
  format : UInt32
  shownFb : UInt32
  unknown : UInt32
  deriving DecidableEq

/-- SOURCE: gsp_gpu.h:42-50 -/
structure FrameBufferUpdate where
  index : Fin 2
  isDirty : Bool
  framebufferInfo : Table 2 FrameBufferInfo

/-- A command of the ring: the byte that says what it is, the byte that stops the ring behind it,
and its parameters.
SOURCE: gsp_command.h:74-91 -/
structure Command where
  id : UInt8
  stop : UInt8
  rawData : List UInt8
  deriving DecidableEq, Repr

def CommandId.submitCmdList : UInt8 := 1

def STATUS_STOPPED : UInt8 := 1

/-- The ring of commands of a thread.
SOURCE: gsp_command.h:95-121 -/
structure CommandBuffer where
  index : UInt8
  numberCommands : UInt8
  status : UInt8
  shouldStop : UInt8
  commands : Table 0xF Command

/-- The shared memory of the service, with the command buffers by the offset they are at. -/
structure SharedMemory where
  relayQueue : Table MaxGSPThreads InterruptRelayQueue
  frameBuffer : Table MaxGSPThreads (Table 2 FrameBufferUpdate)
  commandBuffer : ℕ → CommandBuffer

/-- The memory as it is made. -/
def SharedMemory.zeroed : SharedMemory where
  relayQueue _ := ⟨0, 0, 0, fun _ => .psc0⟩
  frameBuffer _ _ := ⟨0, false, fun _ => ⟨0, 0, 0, 0, 0, 0, 0⟩⟩
  commandBuffer _ := ⟨0, 0, 0, 0, fun _ => ⟨0, 0, []⟩⟩

/-- The size of the shared memory.
SOURCE: gsp_gpu.cpp:920 -/
def SHARED_MEMORY_SIZE : ℕ := 0x1000

/-- Where the command buffer of a thread is. The sum is a 32-bit one.
SOURCE: gsp_gpu.cpp:108-111 -/
def getCommandBuffer (threadId : ℕ) : ℕ := u32 (0x800 + threadId * 0x200)

/-! ## The service -/

/-- A client of the service, by its session.
SOURCE: gsp_gpu.h:63-82 -/
structure SessionData where
  session : ℕ
  threadId : Fin MaxGSPThreads
  interruptEvent : Option ℕ := none
  registered : Bool := false
  deriving DecidableEq, Repr

/-- `std::numeric_limits<u32>::max()`: no thread holds the right. -/
def noThread : ℕ := 2 ^ 32 - 1

/-- SOURCE: gsp_gpu.h:376-394 -/
structure GspGpu where
  connectedSessions : List SessionData := []
  usedThreadIds : Table MaxGSPThreads Bool := fun _ => false
  activeThreadId : ℕ := noThread
  firstInitialization : Bool := true
  memory : SharedMemory
  /-- The frame buffers that the GPU has been told to show, by the screen. -/
  bufferSwaps : List (Fin 2 × FrameBufferInfo) := []

/-- What the calls for the right answer. -/
inductive RightResult
  | success
  | alreadyDone
  | busy
  deriving DecidableEq, Repr

namespace GspGpu

variable (s : GspGpu)

/-- SOURCE: gsp_gpu.cpp:97-106 -/
def getUnusedThreadId : Exec (Fin MaxGSPThreads) :=
  match (List.finRange MaxGSPThreads).find? fun id => !s.usedThreadIds id with
  | some id => .ok id
  | none => .error (.assertion .gspThreads)

/-- The session data of a new session takes a thread id.
SOURCE: gsp_gpu.cpp:941-947, hle_ipc.cpp:78-81 -/
def clientConnected (session : ℕ) : Exec GspGpu := do
  let threadId ← s.getUnusedThreadId
  pure { s with
    usedThreadIds := Function.update s.usedThreadIds threadId true
    connectedSessions := s.connectedSessions ++ [{ session, threadId }] }

/-- The port lets no more than four sessions in.
SOURCE: client_port.cpp:25-46, gsp_gpu.cpp:868 -/
def connect (session : ℕ) : Exec GspGpu :=
  if s.connectedSessions.length < 4 then s.clientConnected session else .ok s

/-- SOURCE: hle_ipc.h:97-105 -/
def getSessionData (session : ℕ) : Exec SessionData :=
  match s.connectedSessions.find? fun data => data.session = session with
  | some data => .ok data
  | none => .error (.assertion .sessionData)

/-- SOURCE: gsp_gpu.cpp:790-794 -/
def releaseRightOf (data : SessionData) : Exec GspGpu := do
  assert (s.activeThreadId = data.threadId) .wrongGpuRight
  pure { s with activeThreadId := noThread }

/-- SOURCE: gsp_gpu.cpp:796-805 -/
def releaseRight (session : ℕ) : Exec GspGpu := do
  let data ← s.getSessionData session
  s.releaseRightOf data

/-- A session goes: its thread id is free again.
SOURCE: hle_ipc.cpp:83-89, gsp_gpu.cpp:949-952 -/
def eraseSession (session : ℕ) : GspGpu :=
  let erased := s.connectedSessions.filter fun data => data.session = session
  { s with
    connectedSessions := s.connectedSessions.filter fun data => data.session ≠ session
    usedThreadIds := fun id => s.usedThreadIds id && !erased.any fun data => data.threadId = id }

/-- SOURCE: gsp_gpu.cpp:127-133 -/
def clientDisconnected (session : ℕ) : Exec GspGpu := do
  let data ← s.getSessionData session
  let s ← if s.activeThreadId = data.threadId then s.releaseRightOf data else pure s
  pure (s.eraseSession session)

/-- SOURCE: gsp_gpu.cpp:736-767 -/
def acquireGpuRight (session : ℕ) (blocking : Bool) : Exec (RightResult × GspGpu) := do
  let data ← s.getSessionData session
  if s.activeThreadId = data.threadId then
    pure (.alreadyDone, s)
  else if blocking then
    assert (s.activeThreadId = noThread) .gpuRight
    pure (.success, { s with activeThreadId := data.threadId })
  else if s.activeThreadId ≠ noThread then
    pure (.busy, s)
  else
    pure (.success, { s with activeThreadId := data.threadId })

/-- SOURCE: gsp_gpu.cpp:769-777 -/
def tryAcquireRight (session : ℕ) : Exec (RightResult × GspGpu) := s.acquireGpuRight session false

/-- SOURCE: gsp_gpu.cpp:779-788 -/
def acquireRight (session : ℕ) : Exec (RightResult × GspGpu) := s.acquireGpuRight session true

/-- The first session that registers is told that it is the first.
SOURCE: gsp_gpu.cpp:338-366 -/
def registerInterruptRelayQueue (session event : ℕ) :
    Exec ((Bool × Fin MaxGSPThreads) × GspGpu) := do
  let data ← s.getSessionData session
  pure ((s.firstInitialization, data.threadId), { s with
    connectedSessions := s.connectedSessions.map fun other =>
      if other.session = session then
        { other with interruptEvent := some event, registered := true }
      else other
    firstInitialization := false })

/-- SOURCE: gsp_gpu.cpp:368-378 -/
def unregisterInterruptRelayQueue (session : ℕ) : Exec GspGpu := do
  let _ ← s.getSessionData session
  pure { s with
    connectedSessions := s.connectedSessions.map fun other =>
      if other.session = session then
        { other with interruptEvent := none, registered := false }
      else other }

end GspGpu

/-! ## Interrupts -/

namespace InterruptRelayQueue

variable (q : InterruptRelayQueue)

/-- The slot behind the interrupts that wait. The sum is an 8-bit one.
SOURCE: gsp_gpu.cpp:393-395 -/
def next : Fin 0x34 := ⟨(q.index + q.numberInterrupts).toNat % 0x34, Nat.mod_lt _ (by decide)⟩

/-- SOURCE: gsp_gpu.cpp:393-400 -/
def push (id : InterruptId) : InterruptRelayQueue :=
  { q with
    numberInterrupts := q.numberInterrupts + 1
    slot := Function.update q.slot q.next id
    errorCode := 0 }

end InterruptRelayQueue

/-- SOURCE: gsp_gpu.cpp:403-405 -/
def InterruptId.screen : InterruptId → Option (Fin 2)
  | .pdc0 => some 0
  | .pdc1 => some 1
  | _ => none

namespace GspGpu

variable (s : GspGpu)

/-- SOURCE: gsp_gpu.cpp:846-855 -/
def findRegisteredThreadData (threadId : ℕ) : Option SessionData :=
  s.connectedSessions.find? fun data => data.registered && data.threadId = threadId

/-- A frame buffer that waits to be shown is.
SOURCE: gsp_gpu.cpp:406-412 -/
def updateFrameBuffer (threadId : Fin MaxGSPThreads) (screen : Fin 2) : GspGpu :=
  let info := s.memory.frameBuffer threadId screen
  if info.isDirty then
    { s with
      bufferSwaps := s.bufferSwaps ++ [(screen, info.framebufferInfo info.index)]
      memory := { s.memory with
        frameBuffer := Function.update s.memory.frameBuffer threadId
          (Function.update (s.memory.frameBuffer threadId) screen
            { info with isDirty := false }) } }
  else s

/-- SOURCE: gsp_gpu.cpp:380-415 -/
def signalInterruptForThread (interruptId : InterruptId) (threadId : ℕ) : GspGpu :=
  match s.findRegisteredThreadData threadId with
  | none => s
  | some data =>
      match data.interruptEvent with
      | none => s
      | some _ =>
          let queue := (s.memory.relayQueue data.threadId).push interruptId
          let s := { s with memory := { s.memory with
            relayQueue := Function.update s.memory.relayQueue data.threadId queue } }
          match interruptId.screen with
          | some screen => s.updateFrameBuffer data.threadId screen
          | none => s

/-- The interrupts of the screens go to every registered thread, the others to the one that holds
the right.
SOURCE: gsp_gpu.cpp:417-439 -/
def signalInterrupt (interruptId : InterruptId) : GspGpu :=
  if interruptId = .pdc0 ∨ interruptId = .pdc1 then
    (List.range MaxGSPThreads).foldl
      (fun s threadId => s.signalInterruptForThread interruptId threadId) s
  else if s.activeThreadId = noThread then s
  else s.signalInterruptForThread interruptId s.activeThreadId

end GspGpu

/-! ## Commands -/

namespace CommandBuffer

variable (b : CommandBuffer)

/-- `commands[index]`. -/
def command : Exec Command :=
  if h : b.index.toNat < 0xF then .ok (b.commands ⟨b.index.toNat, h⟩) else .error .undefined

/-- The command at `index` is taken off.
SOURCE: gsp_gpu.cpp:529-531 -/
def advance : CommandBuffer :=
  { b with
    numberCommands := b.numberCommands - 1
    index := UInt8.ofNat ((b.index.toNat + 1) % 0xF) }

end CommandBuffer

/-- The memory with another command buffer at an offset. -/
def SharedMemory.setCommandBuffer (m : SharedMemory) (offset : ℕ) (b : CommandBuffer) :
    SharedMemory :=
  { m with commandBuffer := Function.update m.commandBuffer offset b }

/-- What the GPU makes of commands: what is in the shared memory once it has executed one, which is
the `n`-th one of a call, and the setting that delays the game. Interrupts are signalled, and what a
command copies may go anywhere. -/
structure Execution where
  execute : ℕ → Command → SharedMemory → SharedMemory
  delayGameRenderThread : ℕ

/-- The state of the loop over the commands, with those that have been executed. -/
structure TriggerLoop where
  memory : SharedMemory
  requiresDelay : Bool := false
  executed : List Command := []

namespace TriggerLoop

variable (e : Execution) (offset : ℕ) (l : TriggerLoop)

/-- A round of the loop, and whether there is another one.
SOURCE: gsp_gpu.cpp:478-571 -/
def round : Exec (TriggerLoop × Bool) :=
  let b := l.memory.commandBuffer offset
  if b.numberCommands = 0 then
    pure (l, false)
  else if b.shouldStop ≠ 0 then
    pure ({ l with
      memory := l.memory.setCommandBuffer offset { b with status := STATUS_STOPPED } }, false)
  else if b.status = STATUS_STOPPED then
    pure (l, false)
  else do
    let command ← b.command
    let requiresDelay := l.requiresDelay ||
      (command.id = CommandId.submitCmdList && e.delayGameRenderThread ≠ 0)
    let memory := l.memory.setCommandBuffer offset b.advance
    let memory := e.execute l.executed.length command memory
    let memory := if command.stop ≠ 0 then
        memory.setCommandBuffer offset { memory.commandBuffer offset with shouldStop := 1 }
      else memory
    pure ({ memory, requiresDelay, executed := l.executed ++ [command] }, true)

/-- The loop, in at most so many rounds. -/
def run : ℕ → TriggerLoop → Exec TriggerLoop
  | 0, _ => .error .unfinished
  | rounds + 1, l => do
      let (l, again) ← l.round e offset
      if again then run rounds l else pure l

end TriggerLoop

/-- Whether the answer is delayed, and the state behind the call.
SOURCE: gsp_gpu.cpp:453-602 -/
def GspGpu.triggerCmdReqQueue (s : GspGpu) (e : Execution) (rounds : ℕ) : Exec (Bool × GspGpu) := do
  let l ← TriggerLoop.run e (getCommandBuffer s.activeThreadId) rounds { memory := s.memory }
  pure (l.requiresDelay, { s with memory := l.memory })

end Borked3DS.Model.GSP
