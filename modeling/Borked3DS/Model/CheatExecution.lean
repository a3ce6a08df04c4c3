import Borked3DS.Library.WhileLoop
import Borked3DS.Model.Words

/-!
# Running a cheat

`GatewayCheat::Execute` of `gateway_cheat.cpp`: the lines of a cheat are carried out one after
another on the memory of the game, with a register, an offset, conditions and a loop.
-/

set_option autoImplicit false

namespace Borked3DS.Model.Cheats

open Borked3DS.Library

/-- SOURCE: gateway_cheat.h:18-47 -/
inductive CheatType
  | null | write32 | write16 | write8 | greaterThan32 | lessThan32 | equalTo32 | notEqualTo32
  | greaterThan16WithMask | lessThan16WithMask | equalTo16WithMask | notEqualTo16WithMask
  | loadOffset | loop | terminator | loopExecuteVariant | fullTerminator | setOffset | addValue
  | setValue | incrementiveWrite32 | incrementiveWrite16 | incrementiveWrite8 | load32 | load16
  | load8 | addOffset | joker | patch
  /-- A number that names no type. -/
  | other
  deriving DecidableEq, Repr

/-- What a line of code was parsed into.
SOURCE: gateway_cheat.h:49-57 -/
structure CheatLine where
  type : CheatType
  address : UInt32
  value : UInt32
  first : UInt32
  deriving DecidableEq

/-- The lines of a cheat. A vector has room for less than `2 ^ 63` of them. -/
structure CheatLines where
  lines : List CheatLine
  size_lt : lines.length < 2 ^ 63

/-- SOURCE: gateway_cheat.cpp:25-33 -/
structure State where
  reg : UInt32 := 0
  offset : UInt32 := 0
  ifFlag : UInt32 := 0
  loopCount : UInt32 := 0
  loopBackLine : ℕ := 0
  currentLineNr : ℕ := 0
  loopFlag : Bool := false
  deriving DecidableEq

/-- What a cheat uses of the system. Reading may change the memory too, where it is cached. -/
structure CheatSystem (M : Type) where
  read8 : UInt32 → M → UInt8 × M
  read16 : UInt32 → M → UInt16 × M
  read32 : UInt32 → M → UInt32 × M
  write8 : UInt32 → UInt8 → M → M
  write16 : UInt32 → UInt16 → M → M
  write32 : UInt32 → UInt32 → M → M
  invalidateCacheRange : UInt32 → UInt32 → M → M
  padState : M → UInt32

/-- A cheat that is being run. -/
structure CheatRun (M : Type) where
  state : State
  memory : M
  deriving DecidableEq

/-- Reading and writing values of one size: the template arguments of the operations. -/
structure Access (M T : Type) where
  size : UInt32
  read : UInt32 → M → T × M
  write : UInt32 → T → M → M
  cast : UInt32 → T
  widen : T → UInt32

section Operations

variable {M : Type} (system : CheatSystem M)

def CheatSystem.access8 : Access M UInt8 :=
  ⟨1, system.read8, system.write8, UInt32.toUInt8, UInt8.toUInt32⟩

def CheatSystem.access16 : Access M UInt16 :=
  ⟨2, system.read16, system.write16, UInt32.toUInt16, UInt16.toUInt32⟩

def CheatSystem.access32 : Access M UInt32 :=
  ⟨4, system.read32, system.write32, id, id⟩

variable {T : Type} (access : Access M T) (line : CheatLine) (r : CheatRun M)

/-- A value is written unless it is there already. -/
def writeAt [DecidableEq T] (addr value : UInt32) (memory : M) : M :=
  let (val, memory) := access.read addr memory
  if val ≠ access.cast value then
    system.invalidateCacheRange addr access.size (access.write addr (access.cast value) memory)
  else memory

/-- SOURCE: gateway_cheat.cpp:35-47 -/
def writeOp [DecidableEq T] : CheatRun M :=
  { r with memory := writeAt system access (line.address + r.state.offset) line.value r.memory }

/-- SOURCE: gateway_cheat.cpp:49-58 -/
def compOp (comp : T → Bool) : CheatRun M :=
  let (val, memory) := access.read (line.address + r.state.offset) r.memory
  if comp val then { r with memory := memory }
  else { state := { r.state with ifFlag := r.state.ifFlag + 1 }, memory := memory }

/-- SOURCE: gateway_cheat.cpp:60-64 -/
def loadOffsetOp : CheatRun M :=
  let (offset, memory) := system.read32 (line.address + r.state.offset) r.memory
  { state := { r.state with offset := offset }, memory := memory }

/-- SOURCE: gateway_cheat.cpp:66-70 -/
def loopOp (s : State) : State :=
  { s with
    loopFlag := decide (s.loopCount < line.value)
    loopCount := s.loopCount + 1
    loopBackLine := s.currentLineNr }

/-- SOURCE: gateway_cheat.cpp:72-76 -/
def terminateOp (s : State) : State :=
  if 0 < s.ifFlag then { s with ifFlag := s.ifFlag - 1 } else s

/-- SOURCE: gateway_cheat.cpp:78-84 -/
def loopExecuteVariantOp (s : State) : State :=
  if s.loopFlag then { s with currentLineNr := u64Sub s.loopBackLine 1 }
  else { s with loopCount := 0 }

/-- SOURCE: gateway_cheat.cpp:86-96 -/
def fullTerminateOp (s : State) : State :=
  if s.loopFlag then { s with currentLineNr := u64Sub s.loopBackLine 1 }
  else { s with offset := 0, reg := 0, loopCount := 0, ifFlag := 0, loopFlag := false }

/-- SOURCE: gateway_cheat.cpp:98-100 -/
def setOffsetOp (s : State) : State := { s with offset := line.value }

/-- SOURCE: gateway_cheat.cpp:102-104 -/
def addValueOp (s : State) : State := { s with reg := s.reg + line.value }

/-- SOURCE: gateway_cheat.cpp:106-108 -/
def setValueOp (s : State) : State := { s with reg := line.value }

/-- SOURCE: gateway_cheat.cpp:110-121 -/
def incrementiveWriteOp [DecidableEq T] : CheatRun M :=
  { state := { r.state with offset := r.state.offset + access.size }
    memory := writeAt system access (line.value + r.state.offset) r.state.reg r.memory }

/-- SOURCE: gateway_cheat.cpp:123-129 -/
def loadOp : CheatRun M :=
  let (val, memory) := access.read (line.value + r.state.offset) r.memory
  { state := { r.state with reg := access.widen val }, memory := memory }

/-- SOURCE: gateway_cheat.cpp:131-133 -/
def addOffsetOp (s : State) : State := { s with offset := s.offset + line.value }

/-- SOURCE: gateway_cheat.cpp:135-146 -/
def jokerOp : CheatRun M :=
  if system.padState r.memory &&& line.value = line.value then r
  else { r with state := { r.state with ifFlag := r.state.ifFlag + 1 } }

/-- `cheat_lines[state.current_line_nr]`. -/
def CheatLines.at (cheatLines : CheatLines) (lineNr : ℕ) : Exec CheatLine :=
  deref cheatLines.lines[lineNr]?

/-- What `PatchOp` keeps while it copies. -/
structure Copying (M : Type) where
  addr : UInt32
  first : Bool
  currentLineNr : ℕ
  memory : M

/-- The half of a line of data that is next. -/
def Copying.half (copying : Copying M) (line : CheatLine) : UInt32 :=
  if copying.first then line.first else line.value

/-- The first loop of `PatchOp`, which goes on while there are four bytes left. -/
def copyWords (cheatLines : CheatLines) : ℕ → Copying M → Exec (Copying M)
  | numBytes + 4, copying => do
      let line ← cheatLines.at copying.currentLineNr
      copyWords cheatLines numBytes {
        addr := copying.addr + 4
        first := !copying.first
        currentLineNr :=
          if !copying.first ∧ 4 < numBytes + 4 then u64 (copying.currentLineNr + 1)
          else copying.currentLineNr
        memory := system.write32 copying.addr (copying.half line) copying.memory }
  | _, copying => pure copying

/-- The second loop of `PatchOp`. -/
def copyBytes (cheatLines : CheatLines) : ℕ → UInt32 → Copying M → Exec (Copying M)
  | 0, _, copying => pure copying
  | numBytes + 1, bitOffset, copying => do
      let line ← cheatLines.at copying.currentLineNr
      copyBytes cheatLines numBytes (bitOffset + 8) { copying with
        addr := copying.addr + 1
        memory := system.write8 copying.addr (copying.half line >>> bitOffset).toUInt8
          copying.memory }

/-- `ceil(value / 8.0)`. -/
def patchLines : ℕ := (line.value.toNat + 7) / 8

/-- SOURCE: gateway_cheat.cpp:148-183 -/
def patchOp (cheatLines : CheatLines) : Exec (CheatRun M) :=
  if 0 < r.state.ifFlag then
    pure { r with state := { r.state with
      currentLineNr := u64 (r.state.currentLineNr + patchLines line) } }
  else do
    let numBytes := line.value.toNat
    let addr := line.address + r.state.offset
    let copied ← copyWords system cheatLines numBytes {
      addr := addr
      first := true
      currentLineNr :=
        if 0 < numBytes then u64 (r.state.currentLineNr + 1) else r.state.currentLineNr
      memory := system.invalidateCacheRange addr line.value r.memory }
    let copied ← copyBytes system cheatLines (numBytes % 4) 0 copied
    pure { state := { r.state with currentLineNr := copied.currentLineNr }
           memory := copied.memory }

/-- A line inside of a condition that does not hold. -/
def skipLine (cheatLines : CheatLines) : Exec (CheatRun M) :=
  match line.type with
  | .greaterThan32 | .lessThan32 | .equalTo32 | .notEqualTo32 | .greaterThan16WithMask
  | .lessThan16WithMask | .equalTo16WithMask | .notEqualTo16WithMask | .joker =>
      pure { r with state := { r.state with ifFlag := r.state.ifFlag + 1 } }
  | .patch => patchOp system line r cheatLines
  | .terminator => pure { r with state := terminateOp r.state }
  | .fullTerminator => pure { r with state := fullTerminateOp r.state }
  | _ => pure r

/-- A line that is carried out. -/
def executeLine (cheatLines : CheatLines) : Exec (CheatRun M) :=
  let mask := (~~~ line.value >>> 16).toUInt16
  match line.type with
  | .null | .other => pure r
  | .write32 => pure (writeOp system system.access32 line r)
  | .write16 => pure (writeOp system system.access16 line r)
  | .write8 => pure (writeOp system system.access8 line r)
  | .greaterThan32 => pure (compOp system.access32 line r fun val => line.value > val)
  | .lessThan32 => pure (compOp system.access32 line r fun val => line.value < val)
  | .equalTo32 => pure (compOp system.access32 line r fun val => line.value == val)
  | .notEqualTo32 => pure (compOp system.access32 line r fun val => line.value != val)
  | .greaterThan16WithMask =>
      pure (compOp system.access16 line r fun val => line.value.toUInt16 > (mask &&& val))
  | .lessThan16WithMask =>
      pure (compOp system.access16 line r fun val => line.value.toUInt16 < (mask &&& val))
  | .equalTo16WithMask =>
      pure (compOp system.access16 line r fun val => line.value.toUInt16 == (mask &&& val))
  | .notEqualTo16WithMask =>
      pure (compOp system.access16 line r fun val => line.value.toUInt16 != (mask &&& val))
  | .loadOffset => pure (loadOffsetOp system line r)
  | .loop => pure { r with state := loopOp line r.state }
  | .terminator => pure { r with state := terminateOp r.state }
  | .loopExecuteVariant => pure { r with state := loopExecuteVariantOp r.state }
  | .fullTerminator => pure { r with state := fullTerminateOp r.state }
  | .setOffset => pure { r with state := setOffsetOp line r.state }
  | .addValue => pure { r with state := addValueOp line r.state }
  | .setValue => pure { r with state := setValueOp line r.state }
  | .incrementiveWrite32 => pure (incrementiveWriteOp system system.access32 line r)
  | .incrementiveWrite16 => pure (incrementiveWriteOp system system.access16 line r)
  | .incrementiveWrite8 => pure (incrementiveWriteOp system system.access8 line r)
  | .load32 => pure (loadOp system.access32 line r)
  | .load16 => pure (loadOp system.access16 line r)
  | .load8 => pure (loadOp system.access8 line r)
  | .addOffset => pure { r with state := addOffsetOp line r.state }
  | .joker => pure (jokerOp system line r)
  | .patch => patchOp system line r cheatLines

end Operations

section Execute

variable {M : Type} (system : CheatSystem M) (cheatLines : CheatLines)

/-- The body of the loop of `Execute`. -/
def runLine (line : CheatLine) (r : CheatRun M) : Exec (CheatRun M) :=
  if 0 < r.state.ifFlag then skipLine system line r cheatLines
  else executeLine system line r cheatLines

/-- `state.current_line_nr++`. -/
def CheatRun.nextLine (r : CheatRun M) : CheatRun M :=
  { r with state := { r.state with currentLineNr := u64 (r.state.currentLineNr + 1) } }

/-- A turn of the loop of `Execute`. -/
def executeTurn (r : CheatRun M) : Exec (Option (CheatRun M)) :=
  match cheatLines.lines[r.state.currentLineNr]? with
  | none => pure none
  | some line => do
      let r ← runLine system cheatLines line r
      pure (some r.nextLine)

/-- `Execute`, for so many turns at most.
SOURCE: gateway_cheat.cpp:233-426 -/
def execute (fuel : ℕ) (memory : M) : Exec (Option (CheatRun M)) :=
  whileLoop (executeTurn system cheatLines) fuel { state := {}, memory := memory }

end Execute

end Borked3DS.Model.Cheats
