import Borked3DS.Library.ByteOrder
import Borked3DS.Library.CheckedList
import Borked3DS.Model.Words

/-!
# Network packets

`Network::Packet` of `packet.cpp` and `packet.h`: values of the types that the operators take, how
they are appended to a packet, and how they are read back. The host is little-endian. Reading the
data of a packet outside its bounds is undefined.
-/

set_option autoImplicit false

namespace Borked3DS.Model.Network

open Borked3DS.Library

/-- A word with its bytes in the opposite order. -/
def swapBytes (width x : ℕ) : ℕ := ofLittleEndian (toLittleEndian width x).reverse

/-- `htons` and `ntohs`. -/
def htons (x : ℕ) : ℕ := swapBytes 2 x

/-- `htonl` and `ntohl`. -/
def htonl (x : ℕ) : ℕ := swapBytes 4 x

/-- `htonll` and `ntohll`.
SOURCE: packet.cpp:17-27 -/
def htonll (x : ℕ) : ℕ :=
  if 1 = htonl 1 then x else (htonl (x &&& 0xFFFFFFFF) <<< 32) ||| htonl (u32 (x >>> 32))

/-- The types of the values in a packet. -/
inductive PacketType
  | bool | s8 | u8 | s16 | u16 | s32 | u32 | s64 | u64 | float | double | string
  | vector (element : PacketType)
  | array (element : PacketType) (size : ℕ)

/-- The values of a type. A floating point number is the word of its bits. -/
@[reducible] def PacketType.Value : PacketType → Type
  | .bool => Bool
  | .s8 => Int8
  | .u8 => UInt8
  | .s16 => Int16
  | .u16 => UInt16
  | .s32 => Int32
  | .u32 => UInt32
  | .s64 => Int64
  | .u64 => UInt64
  | .float => UInt32
  | .double => UInt64
  | .string => List UInt8
  | .vector element => List element.Value
  | .array element size => { values : List element.Value // values.length = size }

/-- SOURCE: packet.h:14-121 -/
structure Packet where
  data : List UInt8 := []
  readPos : ℕ := 0
  isValid : Bool := true

namespace Packet

/-- `Append`. -/
def append (p : Packet) (bytes : List UInt8) : Packet := { p with data := p.data ++ bytes }

/-- `CheckSize`. -/
def checkSize (p : Packet) (size : ℕ) : Bool × Packet :=
  let isValid := p.isValid && decide (u64 (p.readPos + size) ≤ p.data.length)
  (isValid, { p with isValid := isValid })

/-- `Read`: the bytes read, if any. -/
def read (p : Packet) (size : ℕ) : Exec (Option (List UInt8) × Packet) :=
  let (ok, p) := p.checkSize size
  if ok then do
    let bytes ← readRun .undefined p.data p.readPos size
    pure (some bytes, { p with readPos := u64 (p.readPos + size) })
  else .ok (none, p)

/-- `Read` into a word, which keeps its value where nothing is read. -/
def readWord (p : Packet) (width old : ℕ) : Exec (ℕ × Packet) := do
  let (bytes, p) ← p.read width
  match bytes with
  | some bytes => pure (ofLittleEndian bytes, p)
  | none => pure (old, p)

/-- `EndOfPacket`. -/
def endOfPacket (p : Packet) : Bool := decide (p.data.length ≤ p.readPos)

/-- `operator<<` for `u32`, which the length prefixes use as well. -/
def writeU32 (p : Packet) (x : ℕ) : Packet := p.append (toLittleEndian 4 (htonl x))

/-- `operator>>` for `u32`. -/
def readU32 (p : Packet) : Exec (ℕ × Packet) := do
  let (value, p) ← p.readWord 4 0
  pure (htonl value, p)

/-- The characters of a string, behind its length. -/
def readChars (p : Packet) (length : ℕ) : Exec (List UInt8 × Packet) :=
  if 0 < length then
    let (ok, p) := p.checkSize length
    if ok then do
      let bytes ← readRun .undefined p.data p.readPos length
      pure (bytes, { p with readPos := u64 (p.readPos + length) })
    else .ok ([], p)
  else .ok ([], p)

/-- The overloads of `operator<<`.
SOURCE: packet.cpp:180-257, packet.h:148-165 -/
def write : (t : PacketType) → t.Value → Packet → Packet
  | .bool, x, p => p.append (toLittleEndian 1 x.toNat)
  | .s8, x, p => p.append (toLittleEndian 1 x.toUInt8.toNat)
  | .u8, x, p => p.append (toLittleEndian 1 x.toNat)
  | .s16, x, p => p.append (toLittleEndian 2 (htons x.toUInt16.toNat))
  | .u16, x, p => p.append (toLittleEndian 2 (htons x.toNat))
  | .s32, x, p => p.append (toLittleEndian 4 (htonl x.toUInt32.toNat))
  | .u32, x, p => p.writeU32 x.toNat
  | .s64, x, p => p.append (toLittleEndian 8 (htonll x.toUInt64.toNat))
  | .u64, x, p => p.append (toLittleEndian 8 (htonll x.toNat))
  | .float, x, p => p.append (toLittleEndian 4 x.toNat)
  | .double, x, p => p.append (toLittleEndian 8 x.toNat)
  | .string, s, p =>
      let length := Model.u32 s.length
      let p := p.writeU32 length
      if 0 < length then p.append (s.take length) else p
  | .vector element, values, p =>
      values.foldl (fun p value => write element value p) (p.writeU32 (Model.u32 values.length))
  | .array element _, values, p => values.1.foldl (fun p value => write element value p) p

/-- Reading elements one after the other, each into a new variable. -/
def readElements {α : Type} (readElement : Packet → Exec (α × Packet)) :
    ℕ → Packet → Exec (List α × Packet)
  | 0, p => .ok ([], p)
  | n + 1, p => do
      let (value, p) ← readElement p
      let (values, p) ← readElements readElement n p
      pure (value :: values, p)

/-- As many elements are read as were asked for. -/
theorem readElements_length {α : Type} {readElement : Packet → Exec (α × Packet)} {n : ℕ}
    {p p' : Packet} {values : List α} (h : readElements readElement n p = .ok (values, p')) :
    values.length = n := by
  induction n generalizing p values with
  | zero =>
      cases h
      rfl
  | succ n ih =>
      rw [readElements] at h
      obtain ⟨⟨value, p₁⟩, _, hrest⟩ := bind_eq_ok.mp h
      obtain ⟨⟨values', p₂⟩, hvalues, hpure⟩ := bind_eq_ok.mp hrest
      cases hpure
      rw [List.length_cons, ih hvalues]

/-- The overloads of `operator>>`: what the variable that is read into holds then. `fresh` is what a
variable holds that has just been declared.
SOURCE: packet.cpp:70-178, packet.h:121-146 -/
def readValue (fresh : (t : PacketType) → t.Value) :
    (t : PacketType) → t.Value → Packet → Exec (t.Value × Packet)
  | .bool, out, p => do
      let (value, p) ← p.readWord 1 (fresh .u8).toNat
      pure (if p.isValid then decide (value ≠ 0) else out, p)
  | .s8, out, p => do
      let (value, p) ← p.readWord 1 out.toUInt8.toNat
      pure ((UInt8.ofNat value).toInt8, p)
  | .u8, out, p => do
      let (value, p) ← p.readWord 1 out.toNat
      pure (UInt8.ofNat value, p)
  | .s16, _, p => do
      let (value, p) ← p.readWord 2 0
      pure ((UInt16.ofNat (htons value)).toInt16, p)
  | .u16, _, p => do
      let (value, p) ← p.readWord 2 0
      pure (UInt16.ofNat (htons value), p)
  | .s32, _, p => do
      let (value, p) ← p.readWord 4 0
      pure ((UInt32.ofNat (htonl value)).toInt32, p)
  | .u32, _, p => do
      let (value, p) ← p.readU32
      pure (UInt32.ofNat value, p)
  | .s64, _, p => do
      let (value, p) ← p.readWord 8 0
      pure ((UInt64.ofNat (htonll value)).toInt64, p)
  | .u64, _, p => do
      let (value, p) ← p.readWord 8 0
      pure (UInt64.ofNat (htonll value), p)
  | .float, out, p => do
      let (value, p) ← p.readWord 4 out.toNat
      pure (UInt32.ofNat value, p)
  | .double, out, p => do
      let (value, p) ← p.readWord 8 out.toNat
      pure (UInt64.ofNat value, p)
  | .string, _, p => do
      let (length, p) ← p.readU32
      p.readChars length
  | .vector element, _, p => do
      let (size, p) ← p.readU32
      readElements (fun p => readValue fresh element (fresh element) p) size p
  | .array element size, _, p =>
      match h : readElements (fun p => readValue fresh element (fresh element) p) size p with
      | .error fault => .error fault
      | .ok (values, p) => .ok (⟨values, readElements_length h⟩, p)

/-- Values with their types. -/
abbrev TypedValue := (t : PacketType) × t.Value

/-- Some values written one after the other. -/
def writeAll (p : Packet) (values : List TypedValue) : Packet :=
  values.foldl (fun p value => write value.1 value.2 p) p

/-- Some variables read into one after the other. -/
def readAll (fresh : (t : PacketType) → t.Value) :
    List TypedValue → Packet → Exec (List TypedValue × Packet)
  | [], p => .ok ([], p)
  | out :: outs, p => do
      let (value, p) ← readValue fresh out.1 out.2 p
      let (values, p) ← readAll fresh outs p
      pure (⟨out.1, value⟩ :: values, p)

end Packet

end Borked3DS.Model.Network
