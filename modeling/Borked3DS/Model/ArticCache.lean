import Borked3DS.Library.CheckedList
import Borked3DS.Model.StaticLRUCache
import Borked3DS.Model.Words

/-!
# Files of an Artic server

`ArticFileBackend` of `archive_artic.cpp` and the cache in front of it, `ArticCache` of
`artic_cache.cpp`. The remote file is the list of its bytes; what else the server answers to the
requests of one call is given with the call. A loop that makes no progress has no result.
-/

set_option autoImplicit false

namespace Borked3DS.Model.Artic

open Borked3DS.Library

def cacheLineSize : ℕ := 4 * 1024
def cacheLineCount : ℕ := 256
def maxBreakupSize : ℕ := 8 * 1024
def bigCacheSkip : ℕ := 1 * 1024 * 1024
def bigCacheLines : ℕ := 1024
def veryBigCacheSkip : ℕ := 10 * 1024 * 1024
def veryBigCacheLines : ℕ := 24

/-- A line of the cache (`std::array`). -/
def Line : Type := { bytes : List UInt8 // bytes.length = cacheLineSize }

/-- A line with bytes read into its front. -/
def Line.fill (line : Line) (bytes : List UInt8) (h : bytes.length ≤ cacheLineSize) : Line :=
  ⟨overwrite line.1 0 bytes, by
    rw [length_overwrite (by rw [line.2, Nat.zero_add]; exact h)]
    exact line.2⟩

/-- The requests of a file that some bytes are written or a size is set by, and what they return. -/
structure Answers where
  /-- The code that `FSFILE_Read` fails with for an offset and a size. -/
  readFails : ℕ → ℕ → Option ℕ
  /-- The code that `FSFILE_GetSize` fails with. -/
  getSizeFails : Option ℕ
  /-- `FSFILE_Write` of bytes at an offset with flags: the number it returns or the code it fails
  with, and the file then. -/
  write : List UInt8 → ℕ → List UInt8 → ℕ → Except ℕ ℕ × List UInt8
  /-- `FSFILE_SetSize`: whether it succeeds, and the file then. -/
  setSize : List UInt8 → ℕ → Bool × List UInt8
  /-- What the bytes hold that a vector gets without initialising them. -/
  uninitialized : ℕ → UInt8

/-- A `ResultVal` of the bytes at the front of a buffer, or the code of a failure. -/
abbrev ReadResult := Except ℕ (List UInt8)

section Requests

variable (maxSize : ℕ) (a : Answers) (file : List UInt8)

/-- The loop of `ReadFromArtic` with `left` bytes still to read: the bytes it has read, and the code
of the request that failed.
SOURCE: artic_cache.cpp:183-216 -/
def readLoop : ℕ → ℕ → ℕ → Exec (List UInt8 × Option ℕ)
  | _, _, 0 => .ok ([], none)
  | 0, _, _ + 1 => .error .undefined
  | fuel + 1, offset, left + 1 =>
      let toRead := min (u64Sub maxSize 0x100) (left + 1)
      match a.readFails (u64 offset) toRead with
      | some code => .ok ([], some code)
      | none =>
          let bytes := (file.drop (u64 offset)).take toRead
          if bytes.length ≠ toRead then .ok (bytes, none)
          else do
            let (rest, failure) ←
              readLoop fuel (offset + bytes.length) (left + 1 - bytes.length)
            pure (bytes ++ rest, failure)

/-- `ReadFromArtic`. Each turn reads a byte at least, so the length is enough fuel. -/
def readFromArtic (len offset : ℕ) : Exec (List UInt8 × Option ℕ) :=
  readLoop maxSize a file len offset len

theorem readLoop_length {fuel offset left : ℕ} {bytes : List UInt8} {failure : Option ℕ}
    (h : readLoop maxSize a file fuel offset left = .ok (bytes, failure)) :
    bytes.length ≤ left := by
  induction fuel generalizing offset left bytes failure with
  | zero =>
      cases left with
      | zero =>
          cases h
          exact Nat.le_refl _
      | succ left => cases h
  | succ fuel ih =>
      cases left with
      | zero =>
          cases h
          exact Nat.le_refl _
      | succ left =>
          rw [readLoop] at h
          split at h
          · cases h
            exact Nat.zero_le _
          · dsimp only at h
            have hslice : ((file.drop (u64 offset)).take
                (min (u64Sub maxSize 0x100) (left + 1))).length ≤ left + 1 :=
              Nat.le_trans (List.length_take_le _ _) (Nat.min_le_right _ _)
            split at h
            · obtain ⟨rfl, -⟩ := Prod.mk.inj (Except.ok.inj h)
              exact hslice
            · obtain ⟨⟨rest, failure'⟩, hrest, hpure⟩ := bind_eq_ok.mp h
              obtain ⟨rfl, -⟩ := Prod.mk.inj (Except.ok.inj hpure)
              have hle := ih hrest
              dsimp only
              rw [List.length_append]
              omega

/-- What `ReadFromArtic` returns to a caller that reads into its own buffer. -/
def readDirect (len offset : ℕ) : Exec ReadResult := do
  let (bytes, failure) ← readFromArtic maxSize a file len offset
  match failure with
  | some code => pure (.error code)
  | none => pure (.ok bytes)

/-- The loop of `Write` with the bytes that are left: the number written, and the file then.
SOURCE: artic_cache.cpp:124-157, archive_artic.cpp:430-461 -/
def writeLoop (flags : ℕ) :
    ℕ → List UInt8 → ℕ → List UInt8 → ℕ → Exec (Except ℕ ℕ × List UInt8)
  | _, file, _, [], written => .ok (.ok written, file)
  | 0, _, _, _ :: _, _ => .error .undefined
  | fuel + 1, file, offset, byte :: bytes, written =>
      let toWrite := min (u64Sub maxSize 0x100) (byte :: bytes).length
      let (result, file) :=
        a.write file (u64 (offset + written)) ((byte :: bytes).take toWrite) flags
      match result with
      | .error code => .ok (.error code, file)
      | .ok actuallyWritten =>
          let written := u64 (written + actuallyWritten)
          if actuallyWritten ≠ toWrite then .ok (.ok written, file)
          else writeLoop flags fuel file offset ((byte :: bytes).drop toWrite) written

/-- `FSFILE_GetSize`. -/
def requestSize : Except ℕ ℕ :=
  match a.getSizeFails with
  | some code => .error code
  | none => .ok (u64 file.length)

end Requests

/-- `OffsetToPage`. -/
def offsetToPage (offset : ℕ) : ℕ := offset - offset % cacheLineSize

/-- The loop of `BreakupRead`. Each segment takes a byte at least, so the length is enough fuel. -/
def breakupLoop : ℕ → ℕ → ℕ → List (ℕ × ℕ)
  | 0, _, _ => []
  | fuel + 1, currOffset, length =>
      if length = 0 then []
      else
        let nextPage := offsetToPage (u64 (currOffset + cacheLineSize))
        let currPageLen := min length (u64Sub nextPage currOffset)
        (currOffset, currPageLen) :: breakupLoop fuel nextPage (length - currPageLen)

/-- `BreakupRead`.
SOURCE: artic_cache.cpp:218-236 -/
def breakupRead (offset length : ℕ) : List (ℕ × ℕ) :=
  if maxBreakupSize < length then [(offset, length)] else breakupLoop length offset length

/-- SOURCE: artic_cache.h:38-107 -/
structure ArticCache where
  dataSize : Option ℕ := none
  cache : StaticLRUCache ℕ Line cacheLineCount
  bigCache : StaticLRUCache (ℕ × ℕ) (List UInt8) bigCacheLines
  veryBigCache : StaticLRUCache (ℕ × ℕ) (List UInt8) veryBigCacheLines

namespace ArticCache

variable (maxSize : ℕ) (a : Answers) (file : List UInt8)

/-- `Clear`. -/
def clear (c : ArticCache) : ArticCache :=
  { dataSize := none
    cache := c.cache.clear
    bigCache := c.bigCache.clear
    veryBigCache := c.veryBigCache.clear }

/-- `ForceSetSize`. -/
def forceSetSize (c : ArticCache) (size : Option ℕ) : ArticCache := { c with dataSize := size }

/-- One segment of a cached read: the bytes copied to the buffer.
SOURCE: artic_cache.cpp:64-91 -/
def readSegment (c : ArticCache) (seg : ℕ × ℕ) : Exec (ReadResult × ArticCache) :=
  let page := offsetToPage seg.1
  let (found, place, cache) := c.cache.request page
  let into := seg.1 - page
  let copyAmount (readSize : ℕ) := if into < readSize then min (into + seg.2) readSize - into else 0
  if found then do
    let bytes ← readRun .undefined cache.array[place].1 into (copyAmount cacheLineSize)
    pure (.ok bytes, { c with cache := cache })
  else
    match h : readFromArtic maxSize a file cacheLineSize page with
    | .error fault => .error fault
    | .ok (bytes, failure) =>
        let line := cache.array[place].fill bytes (readLoop_length maxSize a file h)
        let c := { c with cache := cache.store place line }
        match failure with
        | some code => .ok (.error code, c)
        | none => do
            let copied ← readRun .undefined line.1 into (copyAmount bytes.length)
            pure (.ok copied, c)

/-- The loop over the segments. -/
def readSegments : ArticCache → List (ℕ × ℕ) → Exec (ReadResult × ArticCache)
  | c, [] => .ok (.ok [], c)
  | c, seg :: segments => do
      let (result, c) ← c.readSegment maxSize a file seg
      match result with
      | .error code => pure (.error code, c)
      | .ok bytes => do
          let (rest, c) ← c.readSegments segments
          pure (rest.map (bytes ++ ·), c)

/-- A read through one of the caches of whole requests.
SOURCE: artic_cache.cpp:21-37, 40-57 -/
def readThrough {n : ℕ} (cache : StaticLRUCache (ℕ × ℕ) (List UInt8) n) (offset length : ℕ) :
    Exec (ReadResult × StaticLRUCache (ℕ × ℕ) (List UInt8) n) :=
  let (found, place, cache) := cache.request (offset, length)
  if found then do
    let bytes ← readRun .undefined cache.array[place] 0 length
    pure (.ok bytes, cache)
  else do
    let (bytes, failure) ← readFromArtic maxSize a file length offset
    let entry := overwrite ((List.range length).map a.uninitialized) 0 bytes
    let cache := cache.store place entry
    match failure with
    | some code => pure (.error code, cache)
    | none => do
        let bytes ← readRun .undefined entry 0 bytes.length
        pure (.ok bytes, cache)

/-- `Read`.
SOURCE: artic_cache.cpp:10-93 -/
def read (c : ArticCache) (offset length : ℕ) : Exec (ReadResult × ArticCache) :=
  if length = 0 then .ok (.ok [], c)
  else
    let segments := breakupRead offset length
    match segments with
    | [seg] =>
        if cacheLineSize < seg.2 then
          if seg.2 < bigCacheSkip then do
            let (result, bigCache) ← readThrough maxSize a file c.bigCache offset length
            pure (result, { c with bigCache := bigCache })
          else if seg.2 < veryBigCacheSkip then do
            let (result, veryBigCache) ← readThrough maxSize a file c.veryBigCache offset length
            pure (result, { c with veryBigCache := veryBigCache })
          else do
            let result ← readDirect maxSize a file length offset
            pure (result, c)
        else c.readSegments maxSize a file segments
    | _ => c.readSegments maxSize a file segments

/-- `GetSize`.
SOURCE: artic_cache.cpp:159-181 -/
def getSize (c : ArticCache) : Except ℕ ℕ × ArticCache :=
  match c.dataSize with
  | some size => (.ok size, c)
  | none =>
      match requestSize a file with
      | .error code => (.error code, c)
      | .ok size => (.ok size, { c with dataSize := some size })

end ArticCache

/-- A file backend: the cache, if there is one, and the remote file.
SOURCE: archive_artic.h -/
structure ArticFileBackend where
  cache : Option ArticCache
  file : List UInt8

/-- The calls of a backend. -/
inductive Call
  | read (offset length : ℕ)
  | write (offset : ℕ) (buffer : List UInt8) (flush updateTimestamp : Bool)
  | setSize (size : ℕ)
  | getSize

/-- What the calls return. -/
inductive Returned
  | read (result : ReadResult)
  | write (result : Except ℕ ℕ)
  | setSize (success : Bool)
  | getSize (size : ℕ)
  deriving DecidableEq

namespace ArticFileBackend

variable (maxSize : ℕ) (a : Answers)

/-- `GetSize`.
SOURCE: archive_artic.cpp:464-487 -/
def getSize (f : ArticFileBackend) : ℕ × ArticFileBackend :=
  match f.cache with
  | some c =>
      let (size, c) := c.getSize a f.file
      (match size with
        | .error _ => 0
        | .ok size => size, { f with cache := some c })
  | none =>
      (match requestSize a f.file with
        | .error _ => 0
        | .ok size => size, f)

/-- `Read`.
SOURCE: archive_artic.cpp:386-421 -/
def read (f : ArticFileBackend) (offset length : ℕ) : Exec (ReadResult × ArticFileBackend) :=
  match f.cache with
  | some _ =>
      let (size, f) := f.getSize a
      match f.cache with
      | some c =>
          if u64 (offset + length) < size then do
            let (result, c) ← c.read maxSize a f.file offset length
            pure (result, { f with cache := some c })
          else do
            let result ← readDirect maxSize a f.file length offset
            pure (result, f)
      | none => do
          let result ← readDirect maxSize a f.file length offset
          pure (result, f)
  | none => do
      let result ← readDirect maxSize a f.file length offset
      pure (result, f)

/-- `Write`. The loop is the same with a cache, which is cleared first, and without one.
SOURCE: archive_artic.cpp:423-462, artic_cache.cpp:117-157 -/
def write (f : ArticFileBackend) (offset : ℕ) (buffer : List UInt8) (flush updateTimestamp : Bool) :
    Exec (Except ℕ ℕ × ArticFileBackend) := do
  let flags := (if flush then 1 else 0) ||| (if updateTimestamp then 1 <<< 8 else 0)
  let (result, file) ← writeLoop maxSize a flags buffer.length f.file offset buffer 0
  pure (result, { cache := f.cache.map ArticCache.clear, file })

/-- `SetSize`.
SOURCE: archive_artic.cpp:489-496 -/
def setSize (f : ArticFileBackend) (size : ℕ) : Bool × ArticFileBackend :=
  let (success, file) := a.setSize f.file size
  (success, { f with file })

/-- One call. -/
def call (f : ArticFileBackend) (c : Call) : Exec (Returned × ArticFileBackend) :=
  match c with
  | .read offset length => do
      let (result, f) ← f.read maxSize a offset length
      pure (.read result, f)
  | .write offset buffer flush updateTimestamp => do
      let (result, f) ← f.write maxSize a offset buffer flush updateTimestamp
      pure (.write result, f)
  | .setSize size =>
      let (success, f) := f.setSize a size
      .ok (.setSize success, f)
  | .getSize =>
      let (size, f) := f.getSize a
      .ok (.getSize size, f)

/-- Some calls, each with the answers of the server: what each of them returns. -/
def calls : ArticFileBackend → List (Answers × Call) → Exec (List Returned)
  | _, [] => .ok []
  | f, (a, c) :: rest => do
      let (returned, f) ← f.call maxSize a c
      let returneds ← f.calls rest
      pure (returned :: returneds)

end ArticFileBackend

end Borked3DS.Model.Artic
