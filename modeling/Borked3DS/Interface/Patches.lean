import Mathlib.Data.Int.Notation
import Borked3DS.Model.Patches

/-!
# What patches mean

The two formats of patches for the code of a program, as functions of their bytes.
-/

set_option autoImplicit false

namespace Borked3DS.Interface

open Borked3DS.Library Borked3DS.Model Borked3DS.Model.Patch

/-!
## What an IPS patch is

The records of the format and the bytes they are written as, what applying them to a buffer gives,
and which patches are well formed for a buffer.
-/

/-- A record: bytes for a place in the buffer, or one byte many times over. -/
inductive IpsRecord
  | normal (offset : ℕ) (data : List UInt8)
  | rle (offset length : ℕ) (value : UInt8)

namespace IpsRecord

/-- Where a record goes. -/
def offset : IpsRecord → ℕ
  | normal offset _ => offset
  | rle offset _ _ => offset

/-- The bytes a record puts there. -/
def payload : IpsRecord → List UInt8
  | normal _ data => data
  | rle _ length value => List.replicate length value

/-- A number as two bytes, the higher one first. -/
def encode16 (n : ℕ) : List UInt8 := [UInt8.ofNat (n / 2 ^ 8), UInt8.ofNat n]

/-- A number as three bytes, the highest one first. -/
def encode24 (n : ℕ) : List UInt8 :=
  [UInt8.ofNat (n / 2 ^ 16), UInt8.ofNat (n / 2 ^ 8), UInt8.ofNat n]

/-- The bytes of a record. The size 0 tells an RLE record from a normal one. -/
def encode : IpsRecord → List UInt8
  | normal offset data => encode24 offset ++ encode16 data.length ++ data
  | rle offset length value => encode24 offset ++ [0, 0] ++ encode16 length ++ [value]

/-- A record that the format can hold: its offset is not the end marker's. -/
def Valid : IpsRecord → Prop
  | normal offset data => offset < 2 ^ 24 ∧ encode24 offset ≠ eofMarker ∧ 0 < data.length ∧
      data.length < 2 ^ 16
  | rle offset length _ => offset < 2 ^ 24 ∧ encode24 offset ≠ eofMarker ∧ length < 2 ^ 16

/-- A record inside a buffer of some size. -/
def Inside (size : ℕ) (r : IpsRecord) : Prop := r.offset + r.payload.length ≤ size

/-- What a record does to a buffer. -/
def apply (buffer : List UInt8) (r : IpsRecord) : List UInt8 := overwrite buffer r.offset r.payload

end IpsRecord

/-- A patch made of some records, all of them inside a buffer of some size. -/
def IsIpsPatch (size : ℕ) (ips : List UInt8) (records : List IpsRecord) : Prop :=
  ips = ipsHeader ++ records.flatMap IpsRecord.encode ++ eofMarker ∧
    ∀ r ∈ records, r.Valid ∧ r.Inside size

/-- What applying a patch promises: no access out of bounds, the records one after the other if the
patch is well formed, and failure otherwise. -/
def AppliesIps (ips buffer : List UInt8) : Prop :=
  ∃ success result, applyIpsPatch ips buffer = .ok (success, result) ∧
    (∀ records, IsIpsPatch buffer.length ips records →
      success = true ∧ result = records.foldl IpsRecord.apply buffer) ∧
    ((∀ records, ¬ IsIpsPatch buffer.length ips records) → success = false)

/-- The bytes behind the header, read record by record, come to an end that a record does not run
over: the end marker, at the end of the patch or before it, or a record that does not fit the
buffer and says so before the patch ends. -/
inductive Framed (size : ℕ) : List UInt8 → Prop
  | done : Framed size eofMarker
  | early (x : UInt8) (rest : List UInt8) : Framed size (eofMarker ++ x :: rest)
  | outside (o₂ o₁ o₀ l₁ l₀ : UInt8) (rest : List UInt8) (hoff : [o₂, o₁, o₀] ≠ eofMarker)
      (hlen : bigEndian16 l₁ l₀ ≠ 0) (hsize : size < bigEndian24 o₂ o₁ o₀ + bigEndian16 l₁ l₀) :
      Framed size (o₂ :: o₁ :: o₀ :: l₁ :: l₀ :: rest)
  | outsideRle (o₂ o₁ o₀ l₁ l₀ r₁ r₀ : UInt8) (rest : List UInt8)
      (hoff : [o₂, o₁, o₀] ≠ eofMarker) (hlen : bigEndian16 l₁ l₀ = 0)
      (hsize : size < bigEndian24 o₂ o₁ o₀ + bigEndian16 r₁ r₀) :
      Framed size (o₂ :: o₁ :: o₀ :: l₁ :: l₀ :: r₁ :: r₀ :: rest)
  | record (o₂ o₁ o₀ l₁ l₀ : UInt8) (data rest : List UInt8) (hoff : [o₂, o₁, o₀] ≠ eofMarker)
      (hlen : bigEndian16 l₁ l₀ ≠ 0) (hdata : data.length = bigEndian16 l₁ l₀)
      (hrest : Framed size rest) :
      Framed size (o₂ :: o₁ :: o₀ :: l₁ :: l₀ :: (data ++ rest))
  | recordRle (o₂ o₁ o₀ l₁ l₀ r₁ r₀ v : UInt8) (rest : List UInt8)
      (hoff : [o₂, o₁, o₀] ≠ eofMarker) (hlen : bigEndian16 l₁ l₀ = 0)
      (hrest : Framed size rest) :
      Framed size (o₂ :: o₁ :: o₀ :: l₁ :: l₀ :: r₁ :: r₀ :: v :: rest)

/-- The patches that are read within their bounds: they hold a header, and if it is the right one,
no record is cut short. -/
def IpsReadable (size : ℕ) (ips : List UInt8) : Prop :=
  5 ≤ ips.length ∧ (ips.take 5 = ipsHeader → Framed size (ips.drop 5))

end Borked3DS.Interface

/-!
## What a BPS patch means

The numbers and the actions of the format as functions of the bytes of a patch, what a list of
actions makes of a source, and which patches are applied without leaving a buffer.
-/

namespace Borked3DS.Interface

open Borked3DS.Library Borked3DS.Model Borked3DS.Model.Bps

/-- The last byte of a number has its highest bit set. -/
def isLastByte (x : UInt8) : Bool := x.toNat &&& 0x80 ≠ 0

/-- The number at the head of some bytes, its lowest seven bits first. Each byte behind the first
one counts from 1. -/
def numberValue : List UInt8 → ℕ
  | [] => 0
  | x :: xs => x.toNat % 128 + if isLastByte x then 0 else 128 * (1 + numberValue xs)

/-- The bytes behind the number. -/
def numberRest : List UInt8 → List UInt8
  | [] => []
  | x :: xs => if isLastByte x then xs else numberRest xs

/-- A number as the patcher reads it, in 32 bits, and the bytes behind it. -/
def decodeNumber (bytes : List UInt8) : ℕ × List UInt8 :=
  (u32 (numberValue bytes), numberRest bytes)

/-- One step of making the target. Copies start where the last copy of their kind ended, moved by
`delta`. -/
inductive BpsAction
  | sourceRead (length : ℕ)
  | targetRead (bytes : List UInt8)
  | sourceCopy (length : ℕ) (delta : ℤ)
  | targetCopy (length : ℕ) (delta : ℤ)

/-- A signed number: the sign is its lowest bit. -/
def signedDelta (data : ℕ) : ℤ := if data % 2 = 1 then -(data / 2 : ℕ) else (data / 2 : ℕ)

/-- The action at the head of some bytes, and the bytes behind it. There is none if the bytes that
it holds itself are cut short. -/
def decodeAction (bytes : List UInt8) : Option (BpsAction × List UInt8) :=
  let (data, rest) := decodeNumber bytes
  let length := data / 4 + 1
  match data % 4 with
  | 0 => some (.sourceRead length, rest)
  | 1 => if length ≤ rest.length then some (.targetRead (rest.take length), rest.drop length)
      else none
  | 2 =>
      let (data, rest) := decodeNumber rest
      some (.sourceCopy length (signedDelta data), rest)
  | _ =>
      let (data, rest) := decodeNumber rest
      some (.targetCopy length (signedDelta data), rest)

/-- The actions that some bytes start with, and the bytes behind them. The last twelve bytes of a
patch are its checksums, and no action starts there. -/
inductive ReadsActions : List UInt8 → List BpsAction → List UInt8 → Prop
  | nil (bytes : List UInt8) : ReadsActions bytes [] bytes
  | cons {bytes mid rest : List UInt8} {action : BpsAction} {actions : List BpsAction}
      (hlength : FooterSize < bytes.length) (hhead : decodeAction bytes = some (action, mid))
      (htail : ReadsActions mid actions rest) : ReadsActions bytes (action :: actions) rest

/-- What some actions have made: the head of the target, and where the last copies ended. -/
structure BpsState where
  out : List UInt8 := []
  sourceOffset : ℕ := 0
  targetOffset : ℕ := 0

/-- The head of a target with a run of it copied behind it, byte by byte. What is not written yet
is zero. -/
def copyWithin (out : List UInt8) (offset : ℕ) : ℕ → List UInt8
  | 0 => out
  | length + 1 => copyWithin (out ++ [out.getD offset 0]) (offset + 1) length

/-- The meaning of an action over a source, for a target of some size. An action that leaves the
source or the target has none. -/
def BpsAction.perform (source : List UInt8) (size : ℕ) (s : BpsState) :
    BpsAction → Option BpsState
  | sourceRead length =>
      if s.out.length + length ≤ size ∧ s.out.length + length ≤ source.length then
        some { s with out := s.out ++ (source.drop s.out.length).take length }
      else none
  | targetRead bytes =>
      if s.out.length + bytes.length ≤ size then some { s with out := s.out ++ bytes } else none
  | sourceCopy length delta =>
      let start := s.sourceOffset + delta
      if s.out.length + length ≤ size ∧ 0 ≤ start ∧ start + length ≤ source.length then
        some
          { s with
            out := s.out ++ (source.drop start.toNat).take length
            sourceOffset := start.toNat + length }
      else none
  | targetCopy length delta =>
      let start := s.targetOffset + delta
      if s.out.length + length ≤ size ∧ 0 ≤ start ∧ start + length ≤ size then
        some
          { s with
            out := copyWithin s.out start.toNat length
            targetOffset := start.toNat + length }
      else none

/-- The meaning of a list of actions. -/
def performAll (source : List UInt8) (size : ℕ) (s : BpsState) (actions : List BpsAction) :
    Option BpsState :=
  actions.foldlM (BpsAction.perform source size) s

/-- The three numbers behind the magic of a patch, and the bytes behind them. -/
structure BpsHeader where
  sourceSize : ℕ
  targetSize : ℕ
  metadataSize : ℕ
  body : List UInt8

def readHeader (patch : List UInt8) : BpsHeader :=
  let (sourceSize, rest) := decodeNumber (patch.drop MagicSize)
  let (targetSize, rest) := decodeNumber rest
  let (metadataSize, rest) := decodeNumber rest
  ⟨sourceSize, targetSize, metadataSize, rest⟩

/-- What a buffer is patched from: it grows to the size of the target where that is larger. -/
def bpsSource (patch buffer : List UInt8) : List UInt8 :=
  if (readHeader patch).sourceSize < (readHeader patch).targetSize then
    resize buffer (readHeader patch).targetSize
  else buffer

/-- The header is one that the patcher goes on from. -/
def HeaderAccepted (patch buffer : List UInt8) : Prop :=
  patch.take MagicSize = bpsMagic ∧
    (readHeader patch).sourceSize ≤ (bpsSource patch buffer).length ∧
    (readHeader patch).targetSize ≤ (bpsSource patch buffer).length ∧
    (readHeader patch).metadataSize = 0

instance (patch buffer : List UInt8) : Decidable (HeaderAccepted patch buffer) :=
  inferInstanceAs (Decidable (_ ∧ _))

/-- The checksum of the source that the footer of a patch gives. -/
def footerSourceCrc (patch : List UInt8) : ℕ :=
  ofLittleEndian ((patch.drop (patch.length - FooterSize)).take 4)

/-- What applying a patch promises: no access out of bounds, and on success a target that is the
meaning of the actions of the patch over the source, with zeros behind it. -/
def AppliesBps (crc32 : List UInt8 → ℕ) (patch buffer : List UInt8) : Prop :=
  ∃ success result, applyBpsPatch crc32 patch buffer = .ok (success, result) ∧
    (success = true → ∃ actions rest s,
      ReadsActions (readHeader patch).body actions rest ∧ rest.length ≤ FooterSize ∧
      performAll (bpsSource patch buffer) (bpsSource patch buffer).length {} actions = some s ∧
      result = s.out ++ List.replicate ((bpsSource patch buffer).length - s.out.length) 0)

/-- A copy within the target that starts before it and does not end before it. -/
def BpsAction.Escapes (size : ℕ) (s : BpsState) : BpsAction → Prop
  | targetCopy length delta =>
      s.out.length + length ≤ size ∧ s.targetOffset + delta < 0 ∧
        0 ≤ s.targetOffset + delta + length
  | _ => False

/-- The patches that are applied within their bounds: they hold a magic, and if their header is
accepted, a footer, and if the source is the one they are for, no action that is reached escapes. -/
def BpsReadable (crc32 : List UInt8 → ℕ) (patch buffer : List UInt8) : Prop :=
  MagicSize ≤ patch.length ∧
    (HeaderAccepted patch buffer →
      FooterSize ≤ patch.length ∧
        (crc32 ((bpsSource patch buffer).take (readHeader patch).sourceSize) =
            footerSourceCrc patch →
          ∀ actions action rest s,
            ReadsActions (readHeader patch).body (actions ++ [action]) rest →
            performAll (bpsSource patch buffer) (bpsSource patch buffer).length {} actions =
              some s →
            ¬ action.Escapes (bpsSource patch buffer).length s))

end Borked3DS.Interface
