import Mathlib.Logic.Function.Basic
import Borked3DS.Library.Touching
import Borked3DS.Model.Basic

/-!
# The stub for the GNU debugger

`gdbstub.cpp`: packets from the client are received into `command_buffer`, and handled by the
program's own registers and memory. What is read of the buffer, what is written to it and to the
buffers of replies, and the lengths that are computed from pointers are noted. The debuggee is
handed in: the program's memory is a parameter, and no file request of the program is pending.
-/

set_option autoImplicit false

namespace Borked3DS.Model.GDBStub

open Borked3DS.Library Borked3DS.Library.Touching

/-! ## What the stub works on -/

/-- `GDB_BUFFER_SIZE`. -/
def GDB_BUFFER_SIZE : ℕ := 10000

/-- `PC_REGISTER`. -/
def PC_REGISTER : ℕ := 15

/-- `SP_REGISTER`. -/
def SP_REGISTER : ℕ := 13

/-- `LR_REGISTER`. -/
def LR_REGISTER : ℕ := 14

/-- `CPSR_REGISTER`. -/
def CPSR_REGISTER : ℕ := 25

/-- `D0_REGISTER`. -/
def D0_REGISTER : ℕ := 26

/-- `FPSCR_REGISTER`. -/
def FPSCR_REGISTER : ℕ := 42

/-- `SIGTRAP`. -/
def SIGTRAP : ℕ := 5

/-- A character of the protocol. -/
def byteOf (c : Char) : UInt8 := UInt8.ofNat c.toNat

/-- A text of the protocol. -/
def ascii (text : String) : List UInt8 := text.toList.map byteOf

/-- `ThreadContext`, as far as the stub shows it. -/
structure ThreadContext where
  cpuRegisters : Fin 16 → UInt32 := fun _ => 0
  cpsr : UInt32 := 0
  fpuRegisters : Fin 64 → UInt32 := fun _ => 0
  fpscr : UInt32 := 0

/-- What the stub asks of the memory of the current process. -/
structure ProcessMemory (Mem : Type) where
  isValidVirtualAddress : Mem → ℕ → Bool
  readBlock : Mem → ℕ → ℕ → List UInt8
  writeBlock : Mem → ℕ → List UInt8 → Mem
  length_readBlock : ∀ mem addr len, (readBlock mem addr len).length = len

/-- The program: its memory, the threads of all cores by their pointers, and what the running core
holds of registers. -/
structure Debuggee (Mem : Type) where
  memory : Mem
  threadList : List ℕ := []
  threadId : ℕ → ℕ := fun _ => 0
  context : ℕ → ThreadContext := fun _ => {}
  runningCore : ThreadContext := {}

/-- `BreakpointType`. -/
inductive BreakpointType
  | none | execute | read | write | access
  deriving DecidableEq, Repr

/-- `Breakpoint`. -/
structure Breakpoint where
  active : Bool
  addr : ℕ
  len : ℕ
  inst : List UInt8
  deriving DecidableEq, Repr

/-- The static buffers that replies are put together in. -/
inductive ReplyBuffer
  | register | registers | memory
  deriving DecidableEq, Repr

/-- Their sizes. -/
def ReplyBuffer.size : ReplyBuffer → ℕ
  | .register => 64
  | .registers => GDB_BUFFER_SIZE - 4
  | .memory => GDB_BUFFER_SIZE - 4

/-- The state of the stub, with the bytes of the client that it has not read yet and what it has
sent to it. -/
structure Stub (Mem : Type) where
  debuggee : Debuggee Mem
  connected : Bool := true
  commandBuffer : ℕ → UInt8 := fun _ => 0
  commandLength : ℕ := 0
  replies : ReplyBuffer → ℕ → UInt8 := fun _ _ => 0
  currentThread : Option ℕ := none
  latestSignal : ℕ := 0
  memoryBreak : Bool := false
  haltLoop : Bool := true
  stepLoop : Bool := false
  sendTrap : Bool := false
  breakpointsExecute : List (ℕ × Breakpoint) := []
  breakpointsRead : List (ℕ × Breakpoint) := []
  breakpointsWrite : List (ℕ × Breakpoint) := []
  received : List UInt8 := []
  sent : List (List UInt8) := []

/-- What is noted: a byte of the command that is read, with the command's length; a byte written to
`command_buffer` or a buffer of replies; a length taken between two places; and memory of the
program that is copied for a reply. -/
inductive Access
  | readCommand (i length : ℕ)
  | writeCommand (i : ℕ)
  | writeReply (buffer : ReplyBuffer) (i : ℕ)
  | fieldLength (stop start : ℕ)
  | copyMemory (length : ℕ)
  deriving DecidableEq, Repr

/-- A call on the stub. -/
abbrev StubM (Mem : Type) := Touching Access (Stub Mem) Fault

variable {Mem : Type}

/-- Reading `command_buffer[i]`. -/
def commandByte (i : ℕ) : StubM Mem UInt8 := do
  touch [.readCommand i (← get).commandLength]
  if i < GDB_BUFFER_SIZE then return (← get).commandBuffer i else stop .undefined

/-- Writing `command_buffer[i]`. -/
def writeCommand (i : ℕ) (c : UInt8) : StubM Mem Unit := do
  touch [.writeCommand i]
  if i < GDB_BUFFER_SIZE then
    modify fun s => { s with commandBuffer := Function.update s.commandBuffer i c }
  else stop .undefined

/-- Writing into a buffer of replies, byte by byte. -/
def writeReply (b : ReplyBuffer) (i : ℕ) : List UInt8 → StubM Mem Unit
  | [] => pure ()
  | c :: text => do
      touch [.writeReply b i]
      if i < b.size then
        modify fun s =>
          { s with replies := Function.update s.replies b (Function.update (s.replies b) i c) }
        writeReply b (i + 1) text
      else stop .undefined

/-- `memset` of a whole buffer of replies. -/
def clearReply (b : ReplyBuffer) : StubM Mem Unit :=
  modify fun s => { s with replies := Function.update s.replies b fun _ => 0 }

/-- A length as the difference of two places, which becomes a `u32`. -/
def fieldLength (stop start : ℕ) : StubM Mem ℕ := do
  touch [.fieldLength stop start]
  return u32 (stop + 2 ^ 32 - start)

/-! ## Hex digits -/

/-- `HexCharToValue`.
SOURCE: gdbstub.cpp:236-247 -/
def hexCharToValue (hex : UInt8) : ℕ :=
  if byteOf '0' ≤ hex ∧ hex ≤ byteOf '9' then hex.toNat - (byteOf '0').toNat
  else if byteOf 'a' ≤ hex ∧ hex ≤ byteOf 'f' then hex.toNat - (byteOf 'a').toNat + 0xA
  else if byteOf 'A' ≤ hex ∧ hex ≤ byteOf 'F' then hex.toNat - (byteOf 'A').toNat + 0xA
  else 0

/-- `NibbleToHex`.
SOURCE: gdbstub.cpp:254-261 -/
def nibbleToHex (n : ℕ) : UInt8 :=
  if n % 16 < 0xA then UInt8.ofNat ((byteOf '0').toNat + n % 16)
  else UInt8.ofNat ((byteOf 'a').toNat + n % 16 - 0xA)

/-- A value with one more digit, in a `u32`. -/
def pushDigit (output : ℕ) (hex : UInt8) : ℕ := u32 (output * 16 + hexCharToValue hex)

/-- `HexToInt`, of `len` characters from a place of the command on.
SOURCE: gdbstub.cpp:263-270 -/
def hexToInt : ℕ → ℕ → ℕ → StubM Mem ℕ
  | 0, _, output => pure output
  | len + 1, src, output => do
      hexToInt len (src + 1) (pushDigit output (← commandByte src))

/-- What `IntToGdbHex` (4 bytes) and `LongToGdbHex` (8 bytes) write: two digits for each byte of the
value, from the lowest on.
SOURCE: gdbstub.cpp:307-312, 336-341 -/
def gdbHexDigits : ℕ → ℕ → List UInt8
  | 0, _ => []
  | n + 1, v => nibbleToHex (v / 16) :: nibbleToHex v :: gdbHexDigits n (v / 256)

/-- `IntToGdbHex`. -/
def intToGdbHex (b : ReplyBuffer) (dest : ℕ) (v : UInt32) : StubM Mem Unit :=
  writeReply b dest (gdbHexDigits 4 v.toNat)

/-- `LongToGdbHex`. -/
def longToGdbHex (b : ReplyBuffer) (dest : ℕ) (v : UInt64) : StubM Mem Unit :=
  writeReply b dest (gdbHexDigits 8 v.toNat)

/-- What `GdbHexToInt` (4 bytes) and `GdbHexToLong` (8 bytes) read: two digits for each byte, from
the highest on.
SOURCE: gdbstub.cpp:319-328, 348-357 -/
def gdbHexToNat (src : ℕ) : ℕ → ℕ → StubM Mem ℕ
  | 0, output => pure output
  | n + 1, output => do
      let high ← commandByte (src + 2 * n)
      let low ← commandByte (src + 2 * n + 1)
      gdbHexToNat src n ((output * 16 + hexCharToValue high) * 16 + hexCharToValue low)

/-- `GdbHexToInt`. -/
def gdbHexToInt (src : ℕ) : StubM Mem UInt32 := do return UInt32.ofNat (← gdbHexToNat src 4 0)

/-- `GdbHexToLong`. -/
def gdbHexToLong (src : ℕ) : StubM Mem UInt64 := do return UInt64.ofNat (← gdbHexToNat src 8 0)

/-- `MemToGdbHex`.
SOURCE: gdbstub.cpp:279-285 -/
def memToGdbHex (bytes : List UInt8) : List UInt8 :=
  bytes.flatMap fun byte => [nibbleToHex (byte.toNat / 16), nibbleToHex byte.toNat]

/-- `GdbHexToMem`, of `len` bytes from a place of the command on.
SOURCE: gdbstub.cpp:294-299 -/
def gdbHexToMem : ℕ → ℕ → StubM Mem (List UInt8)
  | 0, _ => pure []
  | len + 1, src => do
      let high ← commandByte src
      let low ← commandByte (src + 1)
      let rest ← gdbHexToMem len (src + 2)
      return UInt8.ofNat (hexCharToValue high * 16 + hexCharToValue low) :: rest

/-- `std::find` in the command. What it finds when the end is in front of the beginning is undefined
once it leaves the buffer, so the size of the buffer is enough fuel. -/
def findFrom (c : UInt8) (last : ℕ) : ℕ → ℕ → StubM Mem ℕ
  | 0, _ => stop .undefined
  | fuel + 1, i => do
      if i = last then return i
      else if (← commandByte i) = c then return i
      else findFrom c last fuel (i + 1)

/-- `std::find` up to the end of the command. -/
def find (c : UInt8) (start : ℕ) : StubM Mem ℕ := do
  findFrom c (← get).commandLength (GDB_BUFFER_SIZE + 1) start

/-! ## Registers -/

/-- `FindThreadById`. -/
def findThreadById (s : Stub Mem) (id : ℕ) : Option ℕ :=
  s.debuggee.threadList.find? fun t => s.debuggee.threadId t = id

/-- `RegRead` of a context. -/
def ThreadContext.regRead (ctx : ThreadContext) (id : ℕ) : UInt32 :=
  if h : id ≤ PC_REGISTER then ctx.cpuRegisters ⟨id, Nat.lt_succ_of_le h⟩
  else if id = CPSR_REGISTER then ctx.cpsr
  else 0

/-- `RegWrite` of a context. -/
def ThreadContext.regWrite (ctx : ThreadContext) (id : ℕ) (val : UInt32) : ThreadContext :=
  if h : id ≤ PC_REGISTER then
    { ctx with cpuRegisters := Function.update ctx.cpuRegisters ⟨id, Nat.lt_succ_of_le h⟩ val }
  else if id = CPSR_REGISTER then { ctx with cpsr := val }
  else ctx

/-- The two halves of a double register. -/
def fpuIndex (id : ℕ) (half : ℕ) (h : D0_REGISTER ≤ id ∧ id < FPSCR_REGISTER) (hhalf : half < 2) :
    Fin 64 :=
  ⟨2 * (id - D0_REGISTER) + half, by
    unfold D0_REGISTER FPSCR_REGISTER at h
    unfold D0_REGISTER
    omega⟩

/-- `FpuRead` of a context. -/
def ThreadContext.fpuRead (ctx : ThreadContext) (id : ℕ) : UInt64 :=
  if h : D0_REGISTER ≤ id ∧ id < FPSCR_REGISTER then
    UInt64.ofNat ((ctx.fpuRegisters (fpuIndex id 0 h (by decide))).toNat +
      (ctx.fpuRegisters (fpuIndex id 1 h (by decide))).toNat * 2 ^ 32)
  else if id = FPSCR_REGISTER then UInt64.ofNat ctx.fpscr.toNat
  else 0

/-- `FpuWrite` of a context. -/
def ThreadContext.fpuWrite (ctx : ThreadContext) (id : ℕ) (val : UInt64) : ThreadContext :=
  if h : D0_REGISTER ≤ id ∧ id < FPSCR_REGISTER then
    { ctx with
      fpuRegisters := Function.update (Function.update ctx.fpuRegisters
        (fpuIndex id 0 h (by decide)) (UInt32.ofNat val.toNat))
        (fpuIndex id 1 h (by decide)) (UInt32.ofNat (val.toNat / 2 ^ 32)) }
  else if id = FPSCR_REGISTER then { ctx with fpscr := UInt32.ofNat val.toNat }
  else ctx

/-- A register of a thread, or `0` without a thread. -/
def readContext {α : Type} (thread : Option ℕ) (absent : α) (read : ThreadContext → α) :
    StubM Mem α := do
  let s ← get
  return (thread.map fun t => read (s.debuggee.context t)).getD absent

/-- A change of a thread's context, or nothing without a thread. -/
def writeContext (thread : Option ℕ) (write : ThreadContext → ThreadContext) : StubM Mem Unit :=
  match thread with
  | none => pure ()
  | some t => modify fun s =>
      { s with
        debuggee := { s.debuggee with
          context := Function.update s.debuggee.context t (write (s.debuggee.context t)) } }

/-- `RegRead`.
SOURCE: gdbstub.cpp:176-188 -/
def regRead (id : ℕ) (thread : Option ℕ) : StubM Mem UInt32 :=
  readContext thread 0 fun ctx => ctx.regRead id

/-- `RegWrite`.
SOURCE: gdbstub.cpp:190-200 -/
def regWrite (id : ℕ) (val : UInt32) (thread : Option ℕ) : StubM Mem Unit :=
  writeContext thread fun ctx => ctx.regWrite id val

/-- `FpuRead`.
SOURCE: gdbstub.cpp:202-216 -/
def fpuRead (id : ℕ) (thread : Option ℕ) : StubM Mem UInt64 :=
  readContext thread 0 fun ctx => ctx.fpuRead id

/-- `FpuWrite`.
SOURCE: gdbstub.cpp:218-229 -/
def fpuWrite (id : ℕ) (val : UInt64) (thread : Option ℕ) : StubM Mem Unit :=
  writeContext thread fun ctx => ctx.fpuWrite id val

/-- `GetRunningCore().LoadContext(current_thread->context)`. -/
def loadCurrentContext : StubM Mem Unit := do
  match (← get).currentThread with
  | none => stop .undefined
  | some t =>
      modify fun s =>
        { s with debuggee := { s.debuggee with runningCore := s.debuggee.context t } }

/-! ## Replies -/

/-- `CalculateChecksum`. -/
def calculateChecksum (bytes : List UInt8) : UInt8 := bytes.foldl (· + ·) 0

/-- The packet of a reply. -/
def packetOf (reply : List UInt8) : List UInt8 :=
  let checksum := (calculateChecksum reply).toNat
  byteOf '$' :: reply ++ [byteOf '#', nibbleToHex (checksum / 16), nibbleToHex checksum]

/-- `SendReply`. The checksum is computed while the place of the start character is zero.
SOURCE: gdbstub.cpp:490-523 -/
def sendReply (reply : List UInt8) : StubM Mem Unit := do
  if (← get).connected then
    modify fun s => { s with commandBuffer := fun _ => 0, commandLength := reply.length }
    if reply.length + 4 ≤ GDB_BUFFER_SIZE then
      (packetOf reply).zipIdx.forM fun (c, i) => writeCommand i c
      modify fun s => { s with sent := s.sent ++ [packetOf reply] }
    else pure ()
  else pure ()

/-- Sending what stands in a buffer of replies, up to the first zero. -/
def sendBuffer (b : ReplyBuffer) : StubM Mem Unit := do
  let s ← get
  let bytes := (List.range b.size).map fun i => s.replies b i
  if 0 ∈ bytes then sendReply (bytes.takeWhile (· ≠ 0)) else stop .undefined

/-- `SendPacket`. -/
def sendPacket (packet : Char) : StubM Mem Unit :=
  modify fun s => { s with sent := s.sent ++ [[byteOf packet]] }

/-- A number in hexadecimal digits, as many as given at least. -/
def formatHex (digits n : ℕ) : List UInt8 :=
  let text := (Nat.toDigits 16 n).map byteOf
  List.replicate (digits - text.length) (byteOf '0') ++ text

/-- `htonl`, on a little-endian host. -/
def htonl (v : UInt32) : ℕ :=
  v.toNat % 256 * 2 ^ 24 + v.toNat / 2 ^ 8 % 256 * 2 ^ 16 + v.toNat / 2 ^ 16 % 256 * 2 ^ 8 +
    v.toNat / 2 ^ 24

/-- `SendSignal`.
SOURCE: gdbstub.cpp:611-638 -/
def sendSignal (thread : Option ℕ) (signal : ℕ) : StubM Mem Unit := do
  if (← get).connected then
    modify fun s => { s with latestSignal := signal }
    let s ← get
    let reg := fun id => formatHex 8 (htonl (s.debuggee.runningCore.regRead id))
    match thread with
    | none => sendReply (ascii "T" ++ formatHex 2 signal)
    | some t =>
        sendReply (ascii "T" ++ formatHex 2 signal ++ formatHex 2 PC_REGISTER ++ ascii ":" ++
          reg PC_REGISTER ++ ascii ";" ++ formatHex 2 SP_REGISTER ++ ascii ":" ++
          reg SP_REGISTER ++ ascii ";" ++ formatHex 2 LR_REGISTER ++ ascii ":" ++
          reg LR_REGISTER ++ ascii ";thread:" ++ formatHex 1 (s.debuggee.threadId t) ++ ascii ";")
  else pure ()

/-! ## The target description -/

/-- A register of the target description. -/
structure XmlRegister where
  name : String
  bitsize : ℕ
  attributes : String := ""
  regnum : Option ℕ := none

/-- The registers of the core. -/
def coreRegisters : List XmlRegister :=
  (List.range 13).map (fun i => { name := "r" ++ toString i, bitsize := 32 }) ++
    [{ name := "sp", bitsize := 32, attributes := " type=\"data_ptr\"" },
      { name := "lr", bitsize := 32 },
      { name := "pc", bitsize := 32, attributes := " type=\"code_ptr\"" },
      { name := "cpsr", bitsize := 32, regnum := some 25 }]

/-- The registers of the floating point unit. -/
def vfpRegisters : List XmlRegister :=
  (List.range 16).map (fun i =>
      { name := "d" ++ toString i, bitsize := 64, attributes := " type=\"float\"" }) ++
    [{ name := "fpscr", bitsize := 32, attributes := " type=\"int\" group=\"float\"" }]

/-- The numbers that the registers of a description get: their own, or the one behind the register
in front. -/
def registerNumbers : ℕ → List XmlRegister → List ℕ
  | _, [] => []
  | next, r :: rest => r.regnum.getD next :: registerNumbers (r.regnum.getD next + 1) rest

/-- The line of a register. -/
def XmlRegister.line (r : XmlRegister) : String :=
  "    <reg name=\"" ++ r.name ++ "\" bitsize=\"" ++ toString r.bitsize ++ "\"" ++ r.attributes ++
    (r.regnum.elim "" fun n => " regnum=\"" ++ toString n ++ "\"") ++ "/>\n"

/-- `target_xml`, without the comment in it.
SOURCE: gdbstub.cpp:72-121 -/
def targetXml : String :=
  "l<?xml version=\"1.0\"?>\n<!DOCTYPE target SYSTEM \"gdb-target.dtd\">\n" ++
    "<target version=\"1.0\">\n  <feature name=\"org.gnu.gdb.arm.core\">\n" ++
    String.join (coreRegisters.map XmlRegister.line) ++
    "  </feature>\n  <feature name=\"org.gnu.gdb.arm.vfp\">\n" ++
    String.join (vfpRegisters.map XmlRegister.line) ++ "  </feature>\n</target>\n"

/-! ## Handlers -/

/-- Comparing the query with a text, character by character, until they differ. -/
def queryIs : ℕ → List UInt8 → StubM Mem Bool
  | _, [] => pure true
  | i, c :: text => do
      if (← commandByte i) = c then queryIs (i + 1) text else return false

/-- `HandleQuery`. A text that is compared as a whole ends with its zero.
SOURCE: gdbstub.cpp:525-569 -/
def handleQuery : StubM Mem Unit := do
  if ← queryIs 1 (ascii "TStatus" ++ [0]) then sendReply (ascii "T0")
  else if ← queryIs 1 (ascii "Supported") then
    sendReply (ascii "PacketSize=2000;qXfer:features:read+;qXfer:threads:read+")
  else if ← queryIs 1 (ascii "Xfer:features:read:target.xml:") then sendReply (ascii targetXml)
  else if ← queryIs 1 (ascii "fThreadInfo") then
    let program := (← get).debuggee
    sendReply ((ascii "m" ++ program.threadList.flatMap fun t =>
      formatHex 1 (program.threadId t) ++ ascii ",").dropLast)
  else if ← queryIs 1 (ascii "sThreadInfo") then sendReply (ascii "l")
  else if ← queryIs 1 (ascii "Xfer:threads:read") then
    let program := (← get).debuggee
    sendReply (ascii "l<?xml version=\"1.0\"?><threads>" ++ (program.threadList.flatMap fun t =>
      let id := formatHex 1 (program.threadId t)
      ascii "<thread id=\"" ++ id ++ ascii "\" name=\"Thread " ++ id ++ ascii "\"></thread>") ++
      ascii "</threads>")
  else sendReply []

/-- `HandleSetThread`. The number is an `int`, and negative from `2 ^ 31` on.
SOURCE: gdbstub.cpp:571-589 -/
def handleSetThread : StubM Mem Unit := do
  let mark ← commandByte 2
  if mark ≠ byteOf '-' then
    let id ← hexToInt (← fieldLength (← get).commandLength 2) 2 0
    if 1 ≤ id ∧ id < 2 ^ 31 then
      modify fun s => { s with currentThread := findThreadById s id }
    else pure ()
  else pure ()
  if (← get).currentThread.isNone then
    modify fun s => { s with currentThread := findThreadById s 1 }
  else pure ()
  if (← get).currentThread.isSome then sendReply (ascii "OK") else sendReply (ascii "E01")

/-- `HandleThreadAlive`.
SOURCE: gdbstub.cpp:592-602 -/
def handleThreadAlive : StubM Mem Unit := do
  let id ← hexToInt (← fieldLength (← get).commandLength 1) 1 0
  let id := if id = 0 then 1 else id
  if (findThreadById (← get) id).isSome then sendReply (ascii "OK") else sendReply (ascii "E01")

/-- `ReadRegister`.
SOURCE: gdbstub.cpp:712-735 -/
def readRegister : StubM Mem Unit := do
  clearReply .register
  let thread := (← get).currentThread
  let first ← commandByte 1
  let second ← commandByte 2
  let id := if second ≠ 0 then hexCharToValue first * 16 + hexCharToValue second
    else hexCharToValue first
  if id ≤ PC_REGISTER ∨ id = CPSR_REGISTER then
    intToGdbHex .register 0 (← regRead id thread)
    sendBuffer .register
  else if D0_REGISTER ≤ id ∧ id < FPSCR_REGISTER then
    longToGdbHex .register 0 (← fpuRead id thread)
    sendBuffer .register
  else if id = FPSCR_REGISTER then
    intToGdbHex .register 0 (← fpuRead id thread).toUInt32
    sendBuffer .register
  else sendReply (ascii "E01")

/-- `ReadRegisters`. The double registers are written at places that count from the number of the
first one on.
SOURCE: gdbstub.cpp:738-763 -/
def readRegisters : StubM Mem Unit := do
  clearReply .registers
  let thread := (← get).currentThread
  (List.range (PC_REGISTER + 1)).forM fun reg => do
    intToGdbHex .registers (reg * 8) (← regRead reg thread)
  intToGdbHex .registers (16 * 8) (← regRead CPSR_REGISTER thread)
  (List.range' D0_REGISTER (FPSCR_REGISTER - D0_REGISTER)).forM fun reg => do
    longToGdbHex .registers (16 * 8 + 8 + reg * 16) (← fpuRead reg thread)
  intToGdbHex .registers (16 * 8 + 8 + 16 * 16) (← fpuRead FPSCR_REGISTER thread).toUInt32
  sendBuffer .registers

/-- `WriteRegister`.
SOURCE: gdbstub.cpp:766-792 -/
def writeRegister : StubM Mem Unit := do
  let thread := (← get).currentThread
  let first ← commandByte 1
  let second ← commandByte 2
  let value := if second ≠ byteOf '=' then 4 else 3
  let id := if second ≠ byteOf '=' then hexCharToValue first * 16 + hexCharToValue second
    else hexCharToValue first
  if id ≤ PC_REGISTER ∨ id = CPSR_REGISTER then
    regWrite id (← gdbHexToInt value) thread
    loadCurrentContext
    sendReply (ascii "OK")
  else if D0_REGISTER ≤ id ∧ id < FPSCR_REGISTER then
    fpuWrite id (← gdbHexToLong value) thread
    loadCurrentContext
    sendReply (ascii "OK")
  else if id = FPSCR_REGISTER then
    fpuWrite id (← gdbHexToInt value).toUInt64 thread
    loadCurrentContext
    sendReply (ascii "OK")
  else sendReply (ascii "E01")

/-- The loop of `WriteRegisters`, at register `reg` and place `i`, for the rest of the registers. No
thread is given to `RegWrite` and `FpuWrite`. -/
def writeRegistersFrom : ℕ → ℕ → ℕ → StubM Mem Unit
  | 0, _, _ => pure ()
  | n + 1, i, reg => do
      if reg ≤ PC_REGISTER then
        regWrite reg (← gdbHexToInt (1 + i * 8)) none
        writeRegistersFrom n (i + 1) (reg + 1)
      else if reg = CPSR_REGISTER then
        regWrite reg (← gdbHexToInt (1 + i * 8)) none
        writeRegistersFrom n (i + 1) (reg + 1)
      else if reg = CPSR_REGISTER - 1 then writeRegistersFrom n (i + 1) (reg + 1)
      else if reg < CPSR_REGISTER then writeRegistersFrom n (i + 3) (reg + 1)
      else if D0_REGISTER ≤ reg ∧ reg < FPSCR_REGISTER then
        fpuWrite reg (← gdbHexToLong (1 + i * 16)) none
        writeRegistersFrom n (i + 2) (reg + 1)
      else
        fpuWrite reg (← gdbHexToInt (1 + i * 8)).toUInt64 none
        writeRegistersFrom n (i + 1) (reg + 1)

/-- `WriteRegisters`.
SOURCE: gdbstub.cpp:795-826 -/
def writeRegisters : StubM Mem Unit := do
  if (← commandByte 0) ≠ byteOf 'G' then sendReply (ascii "E01")
  else
    writeRegistersFrom (FPSCR_REGISTER + 1) 0 0
    loadCurrentContext
    sendReply (ascii "OK")

section Memory

variable (memory : ProcessMemory Mem)

/-- `ReadMemory`. Nothing returns after the first error.
SOURCE: gdbstub.cpp:829-862 -/
def readMemory : StubM Mem Unit := do
  let addrPos ← find (byteOf ',') 1
  let addr ← hexToInt (← fieldLength addrPos 1) 1 0
  let start := addrPos + 1
  let len ← hexToInt (← fieldLength (← get).commandLength start) start 0
  if ReplyBuffer.memory.size < u32 (len * 2) then sendReply (ascii "E01") else pure ()
  let mem := (← get).debuggee.memory
  if memory.isValidVirtualAddress mem addr then
    touch [.copyMemory len]
    writeReply .memory 0 (memToGdbHex (memory.readBlock mem addr len))
    writeReply .memory (u32 (len * 2)) [0]
    sendBuffer .memory
  else sendReply (ascii "E00")

/-- `WriteMemory`.
SOURCE: gdbstub.cpp:865-885 -/
def writeMemory : StubM Mem Unit := do
  let addrPos ← find (byteOf ',') 1
  let addr ← hexToInt (← fieldLength addrPos 1) 1 0
  let start := addrPos + 1
  let lenPos ← find (byteOf ':') start
  let len ← hexToInt (← fieldLength lenPos start) start 0
  if memory.isValidVirtualAddress (← get).debuggee.memory addr then
    let data ← gdbHexToMem len (lenPos + 1)
    modify fun s =>
      { s with
        debuggee := { s.debuggee with memory := memory.writeBlock s.debuggee.memory addr data } }
    sendReply (ascii "OK")
  else sendReply (ascii "E00")

/-- `Step`.
SOURCE: gdbstub.cpp:894-903 -/
def step : StubM Mem Unit := do
  if 1 < (← get).commandLength then
    regWrite PC_REGISTER (← gdbHexToInt 1) (← get).currentThread
    loadCurrentContext
  else pure ()
  modify fun s => { s with stepLoop := true, haltLoop := true, sendTrap := true }

/-- `Continue`. -/
def continueRunning : StubM Mem Unit :=
  modify fun s => { s with memoryBreak := false, stepLoop := false, haltLoop := false }

/-- `std::map::insert`, which keeps what is there. -/
def insertBreakpoint (b : Breakpoint) : List (ℕ × Breakpoint) → List (ℕ × Breakpoint)
  | [] => [(b.addr, b)]
  | (a, b') :: rest =>
      if b.addr < a then (b.addr, b) :: (a, b') :: rest
      else if b.addr = a then (a, b') :: rest
      else (a, b') :: insertBreakpoint b rest

/-- `GetBreakpointMap`. -/
def breakpointMap (s : Stub Mem) : BreakpointType → List (ℕ × Breakpoint)
  | .execute => s.breakpointsExecute
  | .write => s.breakpointsWrite
  | _ => s.breakpointsRead

/-- Writing a map of breakpoints. -/
def setBreakpointMap (type : BreakpointType) (map : List (ℕ × Breakpoint)) : StubM Mem Unit :=
  modify fun s =>
    match type with
    | .execute => { s with breakpointsExecute := map }
    | .write => { s with breakpointsWrite := map }
    | _ => { s with breakpointsRead := map }

/-- The bytes of the instruction that stops the program. -/
def btrap : List UInt8 := [0x70, 0x00, 0x20, 0xe1]

/-- `CommitBreakpoint`.
SOURCE: gdbstub.cpp:928-953 -/
def commitBreakpoint (type : BreakpointType) (addr len : ℕ) : StubM Mem Unit := do
  let s ← get
  let inst := memory.readBlock s.debuggee.memory addr 4
  if type = .execute then
    modify fun s =>
      { s with
        debuggee := { s.debuggee with memory := memory.writeBlock s.debuggee.memory addr btrap } }
  else pure ()
  setBreakpointMap type (insertBreakpoint ⟨true, addr, len, inst⟩ (breakpointMap s type))

/-- `RemoveBreakpoint` of an address.
SOURCE: gdbstub.cpp:398-421 -/
def eraseBreakpoint (type : BreakpointType) (addr : ℕ) : StubM Mem Unit := do
  let s ← get
  match (breakpointMap s type).find? fun e => e.1 = addr with
  | none => pure ()
  | some (_, b) =>
      if type = .execute then
        modify fun s =>
          { s with
            debuggee := { s.debuggee with
              memory := memory.writeBlock s.debuggee.memory b.addr b.inst } }
      else pure ()
      setBreakpointMap type ((breakpointMap s type).filter fun e => e.1 ≠ addr)

/-- The type of breakpoint that a packet names. -/
def breakpointType (typeId : ℕ) : Option BreakpointType :=
  if typeId = 0 ∨ typeId = 1 then some .execute
  else if typeId = 2 then some .write
  else if typeId = 3 then some .read
  else if typeId = 4 then some .access
  else none

/-- `AddBreakpoint`. An access is a read and a write.
SOURCE: gdbstub.cpp:956-1001 -/
def addBreakpoint : StubM Mem Unit := do
  match breakpointType (hexCharToValue (← commandByte 1)) with
  | none => sendReply (ascii "E01")
  | some type =>
      let addrPos ← find (byteOf ',') 3
      let addr ← hexToInt (← fieldLength addrPos 3) 3 0
      let start := addrPos + 1
      let len ← hexToInt (← fieldLength (← get).commandLength start) start 0
      if type = .access then
        commitBreakpoint memory .read addr len
        commitBreakpoint memory .write addr len
      else commitBreakpoint memory type addr len
      sendReply (ascii "OK")

/-- `RemoveBreakpoint`.
SOURCE: gdbstub.cpp:1004-1038 -/
def removeBreakpoint : StubM Mem Unit := do
  match breakpointType (hexCharToValue (← commandByte 1)) with
  | none => sendReply (ascii "E01")
  | some type =>
      let addrPos ← find (byteOf ',') 3
      let addr ← hexToInt (← fieldLength addrPos 3) 3 0
      if type = .access then
        eraseBreakpoint memory .read addr
        eraseBreakpoint memory .write addr
      else eraseBreakpoint memory type addr
      sendReply (ascii "OK")

/-! ## Packets -/

/-- `ReadByte` waits for the client. -/
def readByte : StubM Mem UInt8 := do
  match (← get).received with
  | [] => stop .unfinished
  | c :: rest =>
      modify fun s => { s with received := rest }
      return c

/-- The loop of `ReadCommand`: it says whether the end of the packet was found before the buffer was
full. Each turn takes a byte, so their number is enough fuel. -/
def receive : ℕ → StubM Mem Bool
  | 0 => stop .unfinished
  | fuel + 1 => do
      let c ← readByte
      if c = byteOf '#' then return true
      else
        let length := (← get).commandLength
        if GDB_BUFFER_SIZE ≤ length then
          sendPacket '-'
          return false
        else
          writeCommand length c
          modify fun s => { s with commandLength := length + 1 }
          receive fuel

/-- `ReadCommand`.
SOURCE: gdbstub.cpp:641-686 -/
def readCommand : StubM Mem Unit := do
  modify fun s => { s with commandLength := 0, commandBuffer := fun _ => 0 }
  let c ← readByte
  if c = byteOf '+' then pure ()
  else if c = 0x03 then
    modify fun s => { s with haltLoop := true }
    sendSignal (← get).currentThread SIGTRAP
  else if c ≠ byteOf '$' then pure ()
  else
    if ← receive ((← get).received.length + 1) then
      let high ← readByte
      let low ← readByte
      let s ← get
      let checksum := calculateChecksum ((List.range s.commandLength).map s.commandBuffer)
      if hexCharToValue high * 16 + hexCharToValue low ≠ checksum.toNat then
        modify fun s => { s with commandLength := 0 }
        sendPacket '-'
      else sendPacket '+'
    else pure ()

/-- What the first character of a packet asks for. -/
inductive PacketKind
  | query | setThread | signal | kill | hioReply | readRegisters | writeRegisters | readRegister
  | writeRegister | readMemory | writeMemory | step | continueRunning | removeBreakpoint
  | addBreakpoint | threadAlive | unknown
  deriving DecidableEq, Repr

/-- The `switch` of `HandlePacket`. -/
def packetKind (c : UInt8) : PacketKind :=
  if c = byteOf 'q' then .query
  else if c = byteOf 'H' then .setThread
  else if c = byteOf '?' then .signal
  else if c = byteOf 'k' then .kill
  else if c = byteOf 'F' then .hioReply
  else if c = byteOf 'g' then .readRegisters
  else if c = byteOf 'G' then .writeRegisters
  else if c = byteOf 'p' then .readRegister
  else if c = byteOf 'P' then .writeRegister
  else if c = byteOf 'm' then .readMemory
  else if c = byteOf 'M' then .writeMemory
  else if c = byteOf 's' then .step
  else if c = byteOf 'C' ∨ c = byteOf 'c' then .continueRunning
  else if c = byteOf 'z' then .removeBreakpoint
  else if c = byteOf 'Z' then .addBreakpoint
  else if c = byteOf 'T' then .threadAlive
  else .unknown

/-- The command that has been read is handled. -/
def handleCommand : StubM Mem Unit := do
  match packetKind (← commandByte 0) with
  | .query => handleQuery
  | .setThread => handleSetThread
  | .signal => do
      let s ← get
      sendSignal s.currentThread s.latestSignal
  | .kill => do
      modify fun s => { s with connected := false }
      continueRunning
  | .hioReply => pure ()
  | .readRegisters => readRegisters
  | .writeRegisters => writeRegisters
  | .readRegister => readRegister
  | .writeRegister => writeRegister
  | .readMemory => readMemory memory
  | .writeMemory => writeMemory memory
  | .step => step
  | .continueRunning => continueRunning
  | .removeBreakpoint => removeBreakpoint memory
  | .addBreakpoint => addBreakpoint memory
  | .threadAlive => handleThreadAlive
  | .unknown => sendReply []

/-- `HandlePacket`.
SOURCE: gdbstub.cpp:1040-1121 -/
def handlePacket : StubM Mem Unit := do
  let s ← get
  if s.connected ∧ s.received ≠ [] then
    readCommand
    if (← get).commandLength = 0 then pure () else handleCommand memory
  else pure ()

end Memory

end Borked3DS.Model.GDBStub
