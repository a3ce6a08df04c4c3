import Borked3DS.Model.Packet

/-!
# What a packet holds

The format of packets as a decoder on bytes, which values it can hold, and what reading promises.
-/

set_option autoImplicit false

namespace Borked3DS.Interface

open Borked3DS.Library Borked3DS.Model Borked3DS.Model.Network

/-- A word at the head of some bytes, and the bytes behind it. -/
def decodeWord (width : ℕ) (bytes : List UInt8) : Option (ℕ × List UInt8) :=
  if width ≤ bytes.length then some (ofLittleEndian (bytes.take width), bytes.drop width) else none

/-- As many elements as asked for. -/
def decodeElements {α : Type} (decodeElement : List UInt8 → Option (α × List UInt8)) :
    ℕ → List UInt8 → Option (List α × List UInt8)
  | 0, bytes => some ([], bytes)
  | n + 1, bytes =>
      match decodeElement bytes with
      | none => none
      | some (value, rest) =>
          match decodeElements decodeElement n rest with
          | none => none
          | some (values, rest) => some (value :: values, rest)

theorem decodeElements_length {α : Type} {decodeElement : List UInt8 → Option (α × List UInt8)}
    {n : ℕ} {bytes rest : List UInt8} {values : List α}
    (h : decodeElements decodeElement n bytes = some (values, rest)) : values.length = n := by
  induction n generalizing bytes values with
  | zero =>
      cases h
      rfl
  | succ n ih =>
      rw [decodeElements] at h
      split at h
      · cases h
      · split at h
        · cases h
        · rename_i hvalues
          cases h
          rw [List.length_cons, ih hvalues]

/-- A value of a type at the head of some bytes, and the bytes behind it. Numbers of more than one
byte stand highest byte first, strings and vectors behind their length in 32 bits. There is none if
the bytes run out. -/
def decode : (t : PacketType) → List UInt8 → Option (t.Value × List UInt8)
  | .bool, bytes => (decodeWord 1 bytes).map fun x => (decide (x.1 ≠ 0), x.2)
  | .s8, bytes => (decodeWord 1 bytes).map fun x => ((UInt8.ofNat x.1).toInt8, x.2)
  | .u8, bytes => (decodeWord 1 bytes).map fun x => (UInt8.ofNat x.1, x.2)
  | .s16, bytes => (decodeWord 2 bytes).map fun x => ((UInt16.ofNat (htons x.1)).toInt16, x.2)
  | .u16, bytes => (decodeWord 2 bytes).map fun x => (UInt16.ofNat (htons x.1), x.2)
  | .s32, bytes => (decodeWord 4 bytes).map fun x => ((UInt32.ofNat (htonl x.1)).toInt32, x.2)
  | .u32, bytes => (decodeWord 4 bytes).map fun x => (UInt32.ofNat (htonl x.1), x.2)
  | .s64, bytes => (decodeWord 8 bytes).map fun x => ((UInt64.ofNat (htonll x.1)).toInt64, x.2)
  | .u64, bytes => (decodeWord 8 bytes).map fun x => (UInt64.ofNat (htonll x.1), x.2)
  | .float, bytes => (decodeWord 4 bytes).map fun x => (UInt32.ofNat x.1, x.2)
  | .double, bytes => (decodeWord 8 bytes).map fun x => (UInt64.ofNat x.1, x.2)
  | .string, bytes =>
      match decodeWord 4 bytes with
      | none => none
      | some (length, rest) =>
          if htonl length ≤ rest.length then
            some (rest.take (htonl length), rest.drop (htonl length))
          else none
  | .vector element, bytes =>
      match decodeWord 4 bytes with
      | none => none
      | some (size, rest) => decodeElements (decode element) (htonl size) rest
  | .array element size, bytes =>
      match h : decodeElements (decode element) size bytes with
      | none => none
      | some (values, rest) => some (⟨values, decodeElements_length h⟩, rest)

/-- Values of some types, one after the other. -/
def decodeAll : List PacketType → List UInt8 → Option (List Packet.TypedValue × List UInt8)
  | [], bytes => some ([], bytes)
  | t :: types, bytes =>
      match decode t bytes with
      | none => none
      | some (value, rest) =>
          match decodeAll types rest with
          | none => none
          | some (values, rest) => some (⟨t, value⟩ :: values, rest)

/-- The lengths in a value fit their prefixes. -/
def LengthsFit : (t : PacketType) → t.Value → Prop
  | .string, s => s.length < 2 ^ 32
  | .vector element, values => values.length < 2 ^ 32 ∧ ∀ value ∈ values, LengthsFit element value
  | .array element _, values => ∀ value ∈ values.1, LengthsFit element value
  | _, _ => True

/-- The bytes of a packet that are still to be read. -/
def unreadData (p : Packet) : List UInt8 := p.data.drop p.readPos

/-- A packet as a `std::vector` can hold it, with a position that a `std::size_t` can hold without
wrapping when a length is added. -/
def IsPacket (p : Packet) : Prop := p.data.length < 2 ^ 63 ∧ p.readPos < 2 ^ 63

/-- Some values written into a new packet come back, whatever they are read into, and end it. -/
def RoundTripsPacket (fresh : (t : PacketType) → t.Value) (values : List Packet.TypedValue) :
    Prop :=
  ∀ outs : List Packet.TypedValue, outs.map Sigma.fst = values.map Sigma.fst →
    ∃ p, Packet.readAll fresh outs (Packet.writeAll {} values) = .ok (values, p) ∧
      p.isValid = true ∧ p.endOfPacket = true

/-- Some reads of a packet do not leave its data. If it is valid and the data holds the values, they
are read; otherwise the packet is invalid then, and one that was invalid already has not moved. -/
def ReadsSafely (fresh : (t : PacketType) → t.Value) (p : Packet)
    (outs : List Packet.TypedValue) : Prop :=
  ∃ values p', Packet.readAll fresh outs p = .ok (values, p') ∧ p'.data = p.data ∧
    (p.isValid = true → ∀ expected rest,
      decodeAll (outs.map Sigma.fst) (unreadData p) = some (expected, rest) →
        p'.isValid = true ∧ values = expected ∧ unreadData p' = rest) ∧
    (decodeAll (outs.map Sigma.fst) (unreadData p) = none → p'.isValid = false) ∧
    (p.isValid = false → p'.isValid = false ∧ p'.readPos = p.readPos)

end Borked3DS.Interface
