import Borked3DS.Library.CheckedList
import Borked3DS.Model.StaticLRUCache
import Borked3DS.Model.Words

/-!
# Reading a RomFS from a host file

`DirectRomFSReader` of `romfs_reader.cpp` with its cache of lines. The file is the list of its bytes
and the cipher a keystream: what `ProcessData` does to a byte depends on where the byte stands.
-/

set_option autoImplicit false

namespace Borked3DS.Model.RomFSReader

open Borked3DS.Library

def cacheLineSize : ℕ := 2 ^ 13
def cacheLineCount : ℕ := 16

/-- A line of the cache (`std::array`). -/
def Line : Type := { bytes : List UInt8 // bytes.length = cacheLineSize }

/-- A line with bytes read into its front. -/
def Line.fill (line : Line) (bytes : List UInt8) (h : bytes.length ≤ cacheLineSize) : Line :=
  ⟨overwrite line.1 0 bytes, by
    rw [length_overwrite (by rw [line.2, Nat.zero_add]; exact h)]
    exact line.2⟩

/-- The cipher in counter mode. -/
structure Cipher where
  keystream : ℕ → UInt8
  cryptoOffset : ℕ

/-- `Seek` to a position and `ProcessData`. -/
def Cipher.process (c : Cipher) (position : ℕ) (bytes : List UInt8) : List UInt8 :=
  bytes.mapIdx fun i b => b ^^^ c.keystream (position + i)

@[simp] theorem Cipher.length_process (c : Cipher) (position : ℕ) (bytes : List UInt8) :
    (c.process position bytes).length = bytes.length :=
  List.length_mapIdx

/-- SOURCE: romfs_reader.h:42-101 -/
structure DirectRomFSReader where
  file : List UInt8
  cipher : Option Cipher
  fileOffset : ℕ
  dataSize : ℕ
  cache : StaticLRUCache ℕ Line cacheLineCount

/-- `IOFile::ReadAtBytes`: the number it returns, and the bytes read. A position that is negative as
an `off_t` makes `pread` return -1.
SOURCE: file_util.cpp:1206-1220 -/
def readAtBytes (file : List UInt8) (length offset : ℕ) : ℕ × List UInt8 :=
  if length = 0 then (0, [])
  else if 2 ^ 63 ≤ offset then (2 ^ 64 - 1, [])
  else (((file.drop offset).take length).length, (file.drop offset).take length)

theorem readAtBytes_length (file : List UInt8) (length offset : ℕ) :
    (readAtBytes file length offset).2.length ≤ length := by
  unfold readAtBytes
  split
  · exact Nat.zero_le _
  · split
    · exact Nat.zero_le _
    · exact List.length_take_le _ _

/-- `OffsetToPage`. -/
def offsetToPage (offset : ℕ) : ℕ := offset - offset % cacheLineSize

/-- The loop of `BreakupRead`. Each segment takes a byte at least, so the length is enough fuel. -/
def breakupLoop : ℕ → ℕ → ℕ → List (ℕ × ℕ)
  | 0, _, _ => []
  | fuel + 1, currOffset, length =>
      if length = 0 then []
      else
        let nextPage := offsetToPage (u64 (currOffset + cacheLineSize))
        let currPageLen := min length (u64Sub nextPage currOffset)
        (currOffset, currPageLen) :: breakupLoop fuel nextPage (length - currPageLen)

/-- `BreakupRead`.
SOURCE: romfs_reader.cpp:92-112 -/
def breakupRead (offset length : ℕ) : List (ℕ × ℕ) :=
  if cacheLineSize < length then [(offset, length)] else breakupLoop length offset length

namespace DirectRomFSReader

/-- `ProcessData` over `count` bytes, of which some have been read. More than those are not there. -/
def decrypt (r : DirectRomFSReader) (position count : ℕ) (bytes : List UInt8) :
    Exec (List UInt8) :=
  match r.cipher with
  | none => .ok bytes
  | some c =>
      if count = bytes.length then .ok (c.process (u64 (c.cryptoOffset + position)) bytes)
      else .error .undefined

/-- The bytes of a line that is not cached, and how many `ReadAtBytes` says they are. -/
def readLine (r : DirectRomFSReader) (page : ℕ) : Exec (ℕ × List UInt8) :=
  let (readSize, bytes) := readAtBytes r.file cacheLineSize (u64 (r.fileOffset + page))
  if readSize = 0 then .ok (readSize, bytes)
  else do
    let bytes ← r.decrypt page readSize bytes
    pure (readSize, bytes)

theorem readLine_length {r : DirectRomFSReader} {page readSize : ℕ} {bytes : List UInt8}
    (h : r.readLine page = .ok (readSize, bytes)) : bytes.length ≤ cacheLineSize := by
  have hlength := readAtBytes_length r.file cacheLineSize (u64 (r.fileOffset + page))
  unfold readLine at h
  dsimp only at h
  split at h
  · cases h
    exact hlength
  · obtain ⟨bytes', hdecrypt, hpure⟩ := bind_eq_ok.mp h
    cases hpure
    unfold decrypt at hdecrypt
    split at hdecrypt
    · cases hdecrypt
      exact hlength
    · split at hdecrypt
      · cases hdecrypt
        rw [Cipher.length_process]
        exact hlength
      · cases hdecrypt

/-- One segment of a cached read: the bytes copied to the buffer.
SOURCE: romfs_reader.cpp:38-66 -/
def readSegment (r : DirectRomFSReader) (seg : ℕ × ℕ) :
    Exec (List UInt8 × DirectRomFSReader) :=
  let page := offsetToPage seg.1
  let (found, place, cache) := r.cache.request page
  let into := seg.1 - page
  let copyAmount (readSize : ℕ) := if into < readSize then min (into + seg.2) readSize - into else 0
  if found then do
    let bytes ← readRun .undefined cache.array[place].1 into (copyAmount cacheLineSize)
    pure (bytes, { r with cache := cache })
  else
    match h : r.readLine page with
    | .error fault => .error fault
    | .ok (readSize, bytes) => do
        let line := cache.array[place].fill bytes (readLine_length h)
        let bytes ← readRun .undefined line.1 into (copyAmount readSize)
        pure (bytes, { r with cache := cache.store place line })

/-- The loop over the segments. -/
def readSegments : DirectRomFSReader → List (ℕ × ℕ) → Exec (List UInt8 × DirectRomFSReader)
  | r, [] => .ok ([], r)
  | r, seg :: segments => do
      let (bytes, r) ← r.readSegment seg
      let (rest, r) ← r.readSegments segments
      pure (bytes ++ rest, r)

/-- `ReadFile`: the number it returns, and the bytes at the front of the buffer.
SOURCE: romfs_reader.cpp:17-68 -/
def readFile (r : DirectRomFSReader) (offset length : ℕ) :
    Exec ((ℕ × List UInt8) × DirectRomFSReader) :=
  let length := min length (u64Sub r.dataSize offset)
  if length = 0 then .ok ((0, []), r)
  else
    let segments := breakupRead offset length
    match segments with
    | [seg] =>
        if cacheLineSize < seg.2 then do
          let (length, bytes) := readAtBytes r.file length (u64 (r.fileOffset + offset))
          let bytes ← r.decrypt offset length bytes
          pure ((length, bytes), r)
        else do
          let (bytes, r) ← r.readSegments segments
          pure ((bytes.length, bytes), r)
    | _ => do
        let (bytes, r) ← r.readSegments segments
        pure ((bytes.length, bytes), r)

/-- Some calls of `ReadFile`, one after the other: what each of them returns. -/
def readFiles : DirectRomFSReader → List (ℕ × ℕ) →
    Exec (List (ℕ × List UInt8) × DirectRomFSReader)
  | r, [] => .ok ([], r)
  | r, (offset, length) :: requests => do
      let (result, r) ← r.readFile offset length
      let (results, r) ← r.readFiles requests
      pure (result :: results, r)

end DirectRomFSReader

end Borked3DS.Model.RomFSReader
