import Borked3DS.Model.GdbStub

/-!
# What the stub for the debugger promises

No packet makes the stub touch bytes that are not its own, and the packets that show and write
registers agree with each other.
-/

set_option autoImplicit false

namespace Borked3DS.Interface

open Borked3DS.Library Borked3DS.Library.Touching Borked3DS.Model Borked3DS.Model.GDBStub

variable {Mem : Type} (memory : ProcessMemory Mem)

/-! ## What a packet may touch -/

/-- Received bytes are read, the buffers are written inside their bounds, no length is taken
backwards, and memory is only copied for an answer that fits. -/
def GdbAllowed : Access → Prop
  | .readCommand i length => i < length
  | .writeCommand i => i < GDB_BUFFER_SIZE
  | .writeReply b i => i < b.size
  | .fieldLength stop start => start ≤ stop
  | .copyMemory length => length * 2 ≤ ReplyBuffer.memory.size

/-- `HandlePacket`, again and again, with what the program has become in between. -/
def handlePackets : List (Debuggee Mem) → StubM Mem Unit
  | [] => pure ()
  | program :: rest => do
      modify fun s => { s with debuggee := program }
      handlePacket memory
      handlePackets rest

/-- In these calls, the stub has read a command and is about to handle it. -/
def CommandRead : List (Debuggee Mem) → Stub Mem → Stub Mem → Prop
  | [], _, _ => False
  | program :: rest, s, t =>
      let s' := { s with debuggee := program }
      (s'.connected ∧ s'.received ≠ [] ∧ Returns readCommand s' () t ∧ t.commandLength ≠ 0) ∨
        ∃ u, Returns (handlePacket memory) s' () u ∧ CommandRead rest u t

/-! ## Packets that fit -/

/-- The bytes of the command between two places. -/
def commandField (s : Stub Mem) (start stop : ℕ) : List UInt8 :=
  (List.range' start (stop - start)).map s.commandBuffer

/-- The place of the first such character from a place on, or the end of the command. -/
def separator (s : Stub Mem) (c : UInt8) (start : ℕ) : ℕ :=
  start + ((commandField s start s.commandLength).takeWhile fun b => b ≠ c).length

/-- The number between two places of the command. -/
def fieldValue (s : Stub Mem) (start stop : ℕ) : ℕ :=
  (commandField s start stop).foldl pushDigit 0

/-- The texts that a query is compared with. -/
def queryTexts : List (List UInt8) :=
  [ascii "TStatus" ++ [0], ascii "Supported", ascii "Xfer:features:read:target.xml:",
    ascii "fThreadInfo", ascii "sThreadInfo", ascii "Xfer:threads:read"]

/-- The register that a packet writes. -/
def writtenRegister (s : Stub Mem) : ℕ :=
  if s.commandBuffer 2 ≠ byteOf '=' then
    hexCharToValue (s.commandBuffer 1) * 16 + hexCharToValue (s.commandBuffer 2)
  else hexCharToValue (s.commandBuffer 1)

/-- The place of the value that it writes. -/
def valuePlace (s : Stub Mem) : ℕ := if s.commandBuffer 2 ≠ byteOf '=' then 4 else 3

/-- The number of digits of a register. -/
def registerDigits (id : ℕ) : ℕ :=
  if id ≤ PC_REGISTER ∨ id = CPSR_REGISTER ∨ id = FPSCR_REGISTER then 8
  else if D0_REGISTER ≤ id ∧ id < FPSCR_REGISTER then 16
  else 0

/-- The fields of a command lie in what was received, and its answer in the buffer for it. -/
def CommandFits (s : Stub Mem) : Prop :=
  match packetKind (s.commandBuffer 0) with
  | .query => ∀ text ∈ queryTexts, commandField s 1 s.commandLength <+: text →
      text.length < s.commandLength
  | .setThread => 3 ≤ s.commandLength
  | .readRegister => 3 ≤ s.commandLength
  | .writeRegister => 3 ≤ s.commandLength ∧ (registerDigits (writtenRegister s) = 0 ∨
      valuePlace s + registerDigits (writtenRegister s) ≤ s.commandLength)
  | .writeRegisters => 1169 ≤ s.commandLength
  | .readMemory =>
      let comma := separator s (byteOf ',') 1
      comma < s.commandLength ∧
        (memory.isValidVirtualAddress s.debuggee.memory (fieldValue s 1 comma) = true →
          fieldValue s (comma + 1) s.commandLength * 2 < ReplyBuffer.memory.size)
  | .writeMemory =>
      let comma := separator s (byteOf ',') 1
      let colon := separator s (byteOf ':') (comma + 1)
      comma < s.commandLength ∧
        (memory.isValidVirtualAddress s.debuggee.memory (fieldValue s 1 comma) = true →
          fieldValue s (comma + 1) colon = 0 ∨
            colon + 1 + 2 * fieldValue s (comma + 1) colon ≤ s.commandLength)
  | .step => s.commandLength = 1 ∨ 9 ≤ s.commandLength
  | .removeBreakpoint => 2 ≤ s.commandLength ∧
      (breakpointType (hexCharToValue (s.commandBuffer 1)) = none ∨ 3 ≤ s.commandLength)
  | .addBreakpoint => 2 ≤ s.commandLength ∧
      (breakpointType (hexCharToValue (s.commandBuffer 1)) = none ∨
        separator s (byteOf ',') 3 < s.commandLength)
  | _ => True

/-! ## Views of the registers -/

/-- A command stands in the buffer. -/
def withCommand (s : Stub Mem) (command : List UInt8) : Stub Mem :=
  { s with commandBuffer := fun i => command.getD i 0, commandLength := command.length }

/-- A command is answered with a text. -/
def RepliesWith (s : Stub Mem) (command text : List UInt8) : Prop :=
  ∃ t, Returns (handleCommand memory) (withCommand s command) () t ∧
    t.sent = s.sent ++ [packetOf text]

/-- The registers in the order of the target description. -/
def xmlOrder : List ℕ := registerNumbers 0 (coreRegisters ++ vfpRegisters)

/-- The command that asks for a register. -/
def readRegisterCommand (r : ℕ) : List UInt8 := byteOf 'p' :: formatHex 1 r

/-- The command that writes a register. -/
def writeRegisterCommand (r v : ℕ) : List UInt8 :=
  byteOf 'P' :: formatHex 1 r ++ byteOf '=' :: gdbHexDigits (registerDigits r / 2) v

/-- The command that asks for all registers. -/
def readRegistersCommand : List UInt8 := [byteOf 'g']

/-- What is answered for all registers is what is answered for each of them, one after the other. -/
def ReadsAgree (s : Stub Mem) : Prop :=
  ∃ answer : ℕ → List UInt8,
    (∀ r ∈ xmlOrder, RepliesWith memory s (readRegisterCommand r) (answer r)) ∧
      RepliesWith memory s readRegistersCommand (xmlOrder.flatMap answer)

/-- What is answered for all registers, sent back to write them all, restores the thread's context,
whatever has become of it. -/
def WriteRestores (s : Stub Mem) (t : ℕ) : Prop :=
  ∀ text, RepliesWith memory s readRegistersCommand text →
    ∀ s' : Stub Mem, s'.connected = true → s'.currentThread = some t →
      ∃ u, Returns (handleCommand memory) (withCommand s' (byteOf 'G' :: text)) () u ∧
        u.debuggee.context t = s.debuggee.context t

/-- The value of a register of a context. -/
def registerValue (ctx : ThreadContext) (r : ℕ) : ℕ :=
  if r ≤ PC_REGISTER ∨ r = CPSR_REGISTER then (ctx.regRead r).toNat else (ctx.fpuRead r).toNat

/-- The place of a register in the answer for all of them. -/
def registerPlace (r : ℕ) : ℕ :=
  ((xmlOrder.takeWhile fun r' => r' ≠ r).map registerDigits).sum

/-- Writing a register changes nothing else of the thread, and the answers show what was written. -/
structure SingleWriteAgrees (s : Stub Mem) (t r v : ℕ) (u : Stub Mem) : Prop where
  value : registerValue (u.debuggee.context t) r = v
  others : ∀ r' ∈ xmlOrder, r' ≠ r →
    registerValue (u.debuggee.context t) r' = registerValue (s.debuggee.context t) r'
  threads : ∀ t', t' ≠ t → u.debuggee.context t' = s.debuggee.context t'
  single : RepliesWith memory u (readRegisterCommand r) (gdbHexDigits (registerDigits r / 2) v)

/-- The answer for all registers shows a register. -/
def BulkShows (s : Stub Mem) (r v : ℕ) : Prop :=
  ∃ text, RepliesWith memory s readRegistersCommand text ∧
    (text.drop (registerPlace r)).take (registerDigits r) = gdbHexDigits (registerDigits r / 2) v

/-- The views of the registers of the selected thread agree. -/
structure RegisterViewsAgree (s : Stub Mem) (t : ℕ) : Prop where
  restores : WriteRestores memory s t
  reads : ReadsAgree memory s
  writes : ∀ r ∈ xmlOrder, ∀ v < 16 ^ registerDigits r,
    ∃ u, Returns (handleCommand memory) (withCommand s (writeRegisterCommand r v)) () u ∧
      SingleWriteAgrees memory s t r v u ∧ BulkShows memory u r v

end Borked3DS.Interface
