import Borked3DS.Library.ByteOrder
import Borked3DS.Library.CheckedList
import Borked3DS.Model.Words

/-!
# The compression of ExeFS code

`LZSS_GetDecompressedSize` and `LZSS_Decompress` of `ncch_container.cpp`, which unpack the `.code`
section backwards. Sizes and indices are 64-bit words; reading or writing a buffer outside its
bounds is undefined.
-/

set_option autoImplicit false

namespace Borked3DS.Model.Lzss

open Borked3DS.Library

/-- `LZSS_GetDecompressedSize`.
SOURCE: ncch_container.cpp:41-45 -/
def getDecompressedSize (buffer : List UInt8) : Exec ℕ := do
  let offsetSize ← readRun .undefined buffer (u64Sub buffer.length 4) 4
  pure (u64 (ofLittleEndian offsetSize + buffer.length))

/-- The variables of the decompression loop. -/
structure State where
  out : ℕ
  index : ℕ
  decompressed : List UInt8

/-- `decompressed[--out] = data`. -/
def State.put (s : State) (data : UInt8) : Exec State := do
  let decompressed ← writeRun .undefined s.decompressed (u64Sub s.out 1) [data]
  pure { s with out := u64Sub s.out 1, decompressed := decompressed }

/-- The loop that copies a segment. There is no state where the source returns `false`. -/
def copySegment (segmentOffset : ℕ) : ℕ → State → Exec (Option State)
  | 0, s => .ok (some s)
  | rest + 1, s =>
      if s.decompressed.length ≤ u64 (s.out + segmentOffset) then .ok none
      else do
        let data ← readAt .undefined s.decompressed (u64 (s.out + segmentOffset))
        let s ← s.put data
        copySegment segmentOffset rest s

/-- What one bit of the control byte asks for. -/
def handleToken (compressed : List UInt8) (control : UInt8) (s : State) : Exec (Option State) :=
  if control &&& 0x80 ≠ 0 then
    if s.index < 2 then .ok none
    else do
      let index := u64Sub s.index 2
      let low ← readAt .undefined compressed index
      let high ← readAt .undefined compressed (u64 (index + 1))
      let segmentOffset := low.toNat ||| (high.toNat <<< 8)
      let segmentSize := ((segmentOffset >>> 12) &&& 15) + 3
      let segmentOffset := (segmentOffset &&& 0x0FFF) + 2
      if s.out < segmentSize then pure none
      else copySegment segmentOffset segmentSize { s with index := index }
  else if s.out < 1 then .ok none
  else do
    let index := u64Sub s.index 1
    let data ← readAt .undefined compressed index
    let s ← State.put { s with index := index } data
    pure (some s)

/-- The loop over the bits of a control byte. -/
def handleTokens (compressed : List UInt8) (stopIndex : ℕ) :
    ℕ → UInt8 → State → Exec (Option State)
  | 0, _, s => .ok (some s)
  | rest + 1, control, s =>
      if s.index ≤ stopIndex ∨ s.index ≤ 0 ∨ s.out ≤ 0 then .ok (some s)
      else do
        match ← handleToken compressed control s with
        | none => pure none
        | some s => handleTokens compressed stopIndex rest (control <<< 1) s

/-- The loop over the control bytes. Each of them moves the index, so the length of the buffer is
enough fuel. -/
def decompressLoop (compressed : List UInt8) (stopIndex : ℕ) : ℕ → State → Exec (Option State)
  | 0, _ => .error .undefined
  | fuel + 1, s =>
      if stopIndex < s.index then do
        let index := u64Sub s.index 1
        let control ← readAt .undefined compressed index
        match ← handleTokens compressed stopIndex 8 control { s with index := index } with
        | none => pure none
        | some s => decompressLoop compressed stopIndex fuel s
      else .ok (some s)

/-- `LZSS_Decompress`, for a destination of some size, which is cleared first: what it leaves there
where the source returns `true`.
SOURCE: ncch_container.cpp:55-112 -/
def decompress (compressed : List UInt8) (decompressedSize : ℕ) :
    Exec (Option (List UInt8)) := do
  let footer ← readRun .undefined compressed (u64Sub compressed.length 8) 4
  let bufferTopAndBottom := ofLittleEndian footer
  let index := u64Sub compressed.length ((bufferTopAndBottom >>> 24) &&& 0xFF)
  let stopIndex := u64Sub compressed.length (bufferTopAndBottom &&& 0xFFFFFF)
  let decompressed := List.replicate decompressedSize 0
  let decompressed ← writeRun .undefined decompressed 0 compressed
  let s ← decompressLoop compressed stopIndex (compressed.length + 1)
    { out := decompressedSize, index := index, decompressed := decompressed }
  pure (s.map State.decompressed)

/-- How `LoadSectionExeFS` unpacks a compressed section.
SOURCE: ncch_container.cpp:551-554 -/
def loadCompressedCode (tempBuffer : List UInt8) : Exec (Option (List UInt8)) := do
  let size ← getDecompressedSize tempBuffer
  decompress tempBuffer size

end Borked3DS.Model.Lzss
