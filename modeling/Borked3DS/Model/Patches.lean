import Borked3DS.Library.ByteOrder
import Borked3DS.Library.CheckedList
import Borked3DS.Model.Words

/-!
# Patches

`patch.cpp`, which applies patches to the code of a program.
-/

set_option autoImplicit false

namespace Borked3DS.Model.Patch

open Borked3DS.Library

/-!
## IPS patches

`Patch::ApplyIpsPatch` of `patch.cpp`. Reading or writing a vector outside its bounds is undefined.
-/

/-- The bytes of `"PATCH"`. -/
def ipsHeader : List UInt8 := [0x50, 0x41, 0x54, 0x43, 0x48]

/-- The bytes of `"EOF"`. -/
def eofMarker : List UInt8 := [0x45, 0x4F, 0x46]

/-- `a << 8 | b`. -/
def bigEndian16 (a b : UInt8) : ℕ := a.toNat <<< 8 ||| b.toNat

/-- `a << 16 | b << 8 | c`. -/
def bigEndian24 (a b c : UInt8) : ℕ := a.toNat <<< 16 ||| b.toNat <<< 8 ||| c.toNat

/-- The loop that writes the bytes of an RLE record one by one. -/
def fillRun (ips : List UInt8) (cursor offset : ℕ) : ℕ → ℕ → List UInt8 → Exec (List UInt8)
  | _, 0, buffer => .ok buffer
  | i, rest + 1, buffer => do
      let value ← readAt .undefined ips (cursor + 7)
      let buffer ← writeRun .undefined buffer (offset + i) [value]
      fillRun ips cursor offset (i + 1) rest buffer

/-- The loop over the records. Each turn moves the cursor, so the length of the patch is enough
fuel. -/
def applyRecords (ips : List UInt8) (patchLength : ℕ) :
    ℕ → ℕ → List UInt8 → Exec (Bool × List UInt8)
  | 0, _, _ => .error .undefined
  | fuel + 1, cursor, buffer =>
      if cursor < patchLength then do
        let eofCheck ← readRun .undefined ips cursor 3
        if eofCheck = eofMarker then pure (false, buffer)
        else
          let offset := bigEndian24 (← readAt .undefined ips cursor)
            (← readAt .undefined ips (cursor + 1)) (← readAt .undefined ips (cursor + 2))
          let length := bigEndian16 (← readAt .undefined ips (cursor + 3))
            (← readAt .undefined ips (cursor + 4))
          if length = 0 then
            let length := bigEndian16 (← readAt .undefined ips (cursor + 5))
              (← readAt .undefined ips (cursor + 6))
            if buffer.length < offset + length then pure (false, buffer)
            else
              let buffer ← fillRun ips cursor offset 0 length buffer
              applyRecords ips patchLength fuel (cursor + 8) buffer
          else if buffer.length < offset + length then pure (false, buffer)
          else
            let data ← readRun .undefined ips (cursor + 5) length
            let buffer ← writeRun .undefined buffer offset data
            applyRecords ips patchLength fuel (cursor + length + 5) buffer
      else pure (true, buffer)

/-- `Patch::ApplyIpsPatch`: whether it succeeds, and the buffer it leaves.
SOURCE: patch.cpp:18-59 -/
def applyIpsPatch (ips buffer : List UInt8) : Exec (Bool × List UInt8) := do
  let patchLength := (ips.length + 2 ^ 64 - 3) % 2 ^ 64
  let header ← readRun .undefined ips 0 5
  if header ≠ ipsHeader then pure (false, buffer)
  else applyRecords ips patchLength (ips.length + 1) 5 buffer

end Borked3DS.Model.Patch

/-!
## BPS patches

`Patch::ApplyBpsPatch` of `patch.cpp` with its `Stream` and its `PatchApplier`. Sizes and offsets
are 64-bit words, the numbers of the format 32-bit ones. Reading or writing a buffer outside its
bounds and dereferencing an empty `std::optional` are undefined.
-/

namespace Borked3DS.Model.Bps

open Borked3DS.Library

def MagicSize : ℕ := 4
def FooterSize : ℕ := 12

/-- The bytes of `"BPS1"`. -/
def bpsMagic : List UInt8 := [0x42, 0x50, 0x53, 0x31]

/-- A buffer with a position in it. The position never passes the end.
SOURCE: patch.cpp:78-146 -/
structure Stream where
  data : List UInt8
  offset : ℕ := 0
  offset_le : offset ≤ data.length

namespace Stream

/-- A stream at the start of its buffer. -/
def ofBytes (data : List UInt8) : Stream := ⟨data, 0, Nat.zero_le _⟩

def size (s : Stream) : ℕ := s.data.length

/-- `Stream::Seek`: whether the position lies in the buffer. -/
def seek (s : Stream) (offset : ℕ) : Bool × Stream :=
  if h : s.size < offset then (false, s)
  else (true, { s with offset := offset, offset_le := Nat.le_of_not_lt h })

/-- `Stream::Read`. The bytes read are `none` where the source returns `false`. -/
def read (s : Stream) (length : ℕ) : Exec (Option (List UInt8) × Stream) :=
  if h : s.size < u64 (s.offset + length) then .ok (none, s)
  else do
    let bytes ← readRun .undefined s.data s.offset length
    pure (some bytes,
      { s with offset := u64 (s.offset + length), offset_le := Nat.le_of_not_lt h })

/-- `Stream::CopyFrom`: the stream and the one it copied from. -/
def copyFrom (s other : Stream) (length : ℕ) : Exec (Bool × Stream × Stream) :=
  if h : s.size < u64 (s.offset + length) then .ok (false, s, other)
  else do
    let (bytes, other) ← other.read length
    match bytes with
    | none => pure (false, s, other)
    | some bytes =>
        if hroom : s.offset + bytes.length ≤ s.data.length then
          pure (true,
            { data := overwrite s.data s.offset bytes
              offset := u64 (s.offset + length)
              offset_le := by
                rw [length_overwrite hroom]
                exact Nat.le_of_not_lt h }, other)
        else .error .undefined

/-- `Read<u8>`. -/
def readU8 (s : Stream) : Exec (Option UInt8 × Stream) := do
  let (bytes, s) ← s.read 1
  pure (bytes.bind List.head?, s)

/-- `Read<u32>`. -/
def readU32 (s : Stream) : Exec (Option ℕ × Stream) := do
  let (bytes, s) ← s.read 4
  pure (bytes.map ofLittleEndian, s)

/-- The loop of `Stream::ReadNumber`. It ends at the end of the buffer, so the length of the buffer
is enough fuel. -/
def readNumberLoop : ℕ → Stream → ℕ → ℕ → Exec (ℕ × Stream)
  | 0, _, _, _ => .error .undefined
  | fuel + 1, s, data, shift => do
      let (x, s) ← s.readU8
      match x with
      | none => pure (data, s)
      | some x =>
          let data := u32 (data + u32 ((x.toNat &&& 0x7f) * shift))
          if x.toNat &&& 0x80 ≠ 0 then pure (data, s)
          else
            let shift := u32 (shift <<< 7)
            readNumberLoop fuel s (u32 (data + shift)) shift

/-- `Stream::ReadNumber`. -/
def readNumber (s : Stream) : Exec (ℕ × Stream) := readNumberLoop (s.size + 1) s 0 1

/-- `data()[i] = x`. -/
def store (s : Stream) (i : ℕ) (x : UInt8) : Exec Stream :=
  if i < s.size then
    .ok { s with data := s.data.set i x, offset_le := by rw [List.length_set]; exact s.offset_le }
  else .error .undefined

/-- `std::memset(data(), 0, size())`. -/
def clear (s : Stream) : Stream :=
  { s with
    data := List.replicate s.size 0
    offset_le := by rw [List.length_replicate]; exact s.offset_le }

end Stream

/-- SOURCE: patch.cpp:148-255 -/
structure PatchApplier where
  sourceRelativeOffset : ℕ := 0
  targetRelativeOffset : ℕ := 0
  source : Stream
  target : Stream
  patch : Stream

/-- `offset += (data & 1 ? -1 : +1) * int(data >> 1)`. -/
def moveOffset (offset data : ℕ) : ℕ :=
  if data &&& 1 ≠ 0 then u64Sub offset (data >>> 1) else u64 (offset + data >>> 1)

namespace PatchApplier

/-- SOURCE: patch.cpp:220-222 -/
def sourceRead (a : PatchApplier) (length : ℕ) : Exec (Bool × PatchApplier) :=
  match a.source.seek a.target.offset with
  | (false, source) => .ok (false, { a with source := source })
  | (true, source) => do
      let (ok, target, source) ← a.target.copyFrom source length
      pure (ok, { a with target := target, source := source })

/-- SOURCE: patch.cpp:224-226 -/
def targetRead (a : PatchApplier) (length : ℕ) : Exec (Bool × PatchApplier) := do
  let (ok, target, patch) ← a.target.copyFrom a.patch length
  pure (ok, { a with target := target, patch := patch })

/-- SOURCE: patch.cpp:228-235 -/
def sourceCopy (a : PatchApplier) (length : ℕ) : Exec (Bool × PatchApplier) := do
  let (data, patch) ← a.patch.readNumber
  let offset := moveOffset a.sourceRelativeOffset data
  match a.source.seek offset with
  | (false, source) =>
      pure (false, { a with patch := patch, source := source, sourceRelativeOffset := offset })
  | (true, source) =>
      let (ok, target, source) ← a.target.copyFrom source length
      pure (ok,
        { a with
          patch := patch
          source := source
          target := target
          sourceRelativeOffset := if ok then u64 (offset + length) else offset })

/-- The byte by byte copy of `TargetCopy`: what is left to copy, the place to write, the place to
read. -/
def copyBytes : ℕ → ℕ → ℕ → Stream → Exec (ℕ × Stream)
  | 0, _, offset, target => .ok (offset, target)
  | rest + 1, place, offset, target => do
      let x ← readAt .undefined target.data offset
      let target ← target.store place x
      copyBytes rest (place + 1) (u64 (offset + 1)) target

/-- SOURCE: patch.cpp:237-250 -/
def targetCopy (a : PatchApplier) (length : ℕ) : Exec (Bool × PatchApplier) := do
  let (data, patch) ← a.patch.readNumber
  let offset := moveOffset a.targetRelativeOffset data
  if a.target.size < u64 (a.target.offset + length) then
    pure (false, { a with patch := patch, targetRelativeOffset := offset })
  else if a.target.size < u64 (offset + length) then
    pure (false, { a with patch := patch, targetRelativeOffset := offset })
  else
    let (offset, target) ← copyBytes length a.target.offset offset a.target
    let target := (target.seek (u64 (target.offset + length))).2
    pure (true, { a with patch := patch, target := target, targetRelativeOffset := offset })

/-- SOURCE: patch.cpp:194-218 -/
def handleCommand (a : PatchApplier) : Exec (Bool × PatchApplier) := do
  let (data, patch) ← a.patch.readNumber
  let a := { a with patch := patch }
  let length := u32 (data >>> 2 + 1)
  match data &&& 3 with
  | 0 => a.sourceRead length
  | 1 => a.targetRead length
  | 2 => a.sourceCopy length
  | 3 => a.targetCopy length
  | _ => pure (false, a)

/-- The loop over the commands. Each of them takes a byte of the patch at least, so the length of
the patch is enough fuel. -/
def handleCommands (commandEndOffset : ℕ) : ℕ → PatchApplier → Exec (Bool × PatchApplier)
  | 0, _ => .error .undefined
  | fuel + 1, a =>
      if a.patch.offset < commandEndOffset then do
        let (ok, a) ← a.handleCommand
        if ok then handleCommands commandEndOffset fuel a else pure (false, a)
      else .ok (true, a)

/-- `PatchApplier::Apply`. `crc32` is the checksum of a run of bytes.
SOURCE: patch.cpp:153-191 -/
def apply (crc32 : List UInt8 → ℕ) (a : PatchApplier) : Exec (Bool × PatchApplier) := do
  let (magic, patch) ← a.patch.read MagicSize
  let magic ← deref magic
  if magic ≠ bpsMagic then pure (false, { a with patch := patch })
  else
    let (sourceSize, patch) ← patch.readNumber
    let (targetSize, patch) ← patch.readNumber
    let (metadataSize, patch) ← patch.readNumber
    if a.source.size < sourceSize ∨ a.target.size < targetSize ∨ metadataSize ≠ 0 then
      pure (false, { a with patch := patch })
    else
      let commandStartOffset := patch.offset
      let commandEndOffset := u64Sub patch.size FooterSize
      let patch := (patch.seek commandEndOffset).2
      let (sourceCrc32, patch) ← patch.readU32
      let sourceCrc32 ← deref sourceCrc32
      let (targetCrc32, patch) ← patch.readU32
      let targetCrc32 ← deref targetCrc32
      let patch := (patch.seek commandStartOffset).2
      let sourceBytes ← readRun .undefined a.source.data 0 sourceSize
      if crc32 sourceBytes ≠ sourceCrc32 then pure (false, { a with patch := patch })
      else
        let a := { a with patch := patch, target := a.target.clear }
        let (ok, a) ← handleCommands commandEndOffset (patch.size + 1) a
        if ok then
          let targetBytes ← readRun .undefined a.target.data 0 targetSize
          pure (decide (crc32 targetBytes = targetCrc32), a)
        else pure (false, a)

end PatchApplier

/-- `std::vector::resize`. -/
def resize (buffer : List UInt8) (n : ℕ) : List UInt8 :=
  buffer.take n ++ List.replicate (n - buffer.length) 0

/-- `Patch::ApplyBpsPatch`: whether it succeeds, and the buffer it leaves.
SOURCE: patch.cpp:259-282 -/
def applyBpsPatch (crc32 : List UInt8 → ℕ) (patch buffer : List UInt8) :
    Exec (Bool × List UInt8) := do
  let patchStream := ((Stream.ofBytes patch).seek MagicSize).2
  let (sourceSize, patchStream) ← patchStream.readNumber
  let (targetSize, patchStream) ← patchStream.readNumber
  let buffer := if sourceSize < targetSize then resize buffer targetSize else buffer
  let patchStream := (patchStream.seek 0).2
  let applier : PatchApplier :=
    { source := Stream.ofBytes buffer, target := Stream.ofBytes buffer, patch := patchStream }
  let (ok, applier) ← applier.apply crc32
  pure (ok, applier.target.data)

end Borked3DS.Model.Bps
