import Borked3DS.Model.LayeredFS

/-!
# Rebuilding the metadata of a layered RomFS and reading the image

`PrepareBuild`, `BuildDirectories`, `BuildFiles` and `RebuildMetadata` of `layered_fs.cpp`, which
run once on a loaded tree, and `ReadFile`, which serves the rebuilt image.
-/

set_option autoImplicit false

namespace Borked3DS.Model

open Borked3DS.Library

/-- The members that the rebuild fills in. The offset maps are keyed by pointers. -/
structure LayeredFS where
  root : LayeredFS.Directory
  dataOffsetMap : List (ℕ × LayeredFS.FilePtr) := []
  metadata : List UInt8 := []
  directoryHashTable : List ℕ := []
  fileHashTable : List ℕ := []
  directoryMetadataOffsetMap : List (LayeredFS.DirectoryPtr × ℕ) := []
  directoryList : List LayeredFS.DirectoryPtr := []
  currentDirectoryOffset : ℕ := 0
  directoryMetadataTable : List UInt8 := []
  fileMetadataOffsetMap : List (LayeredFS.FilePtr × ℕ) := []
  fileList : List LayeredFS.FilePtr := []
  currentFileOffset : ℕ := 0
  fileMetadataTable : List UInt8 := []
  currentDataOffset : ℕ := 0

namespace LayeredFS

/-- The value under a key of an `unordered_map`. -/
def valueAt {κ : Type} [DecidableEq κ] : List (κ × ℕ) → κ → Option ℕ
  | [], _ => none
  | e :: map, key => if e.1 = key then some e.2 else valueAt map key

/-- `unordered_map::emplace`: a key that is present keeps its value. -/
def emplace {κ : Type} [DecidableEq κ] (map : List (κ × ℕ)) (key : κ) (value : ℕ) :
    List (κ × ℕ) :=
  if (valueAt map key).isSome then map else map ++ [(key, value)]

/-- `unordered_map::at`. -/
def mapAt {κ : Type} [DecidableEq κ] (map : List (κ × ℕ)) (key : κ) : Exec ℕ :=
  match valueAt map key with
  | some value => .ok value
  | none => .error .outOfRange

/-- Follow a pointer to a directory. -/
def directory (fs : LayeredFS) (ptr : DirectoryPtr) : Exec Directory :=
  match fs.root.child? ptr with
  | some directory => .ok directory
  | none => .error .undefined

/-- Follow a pointer to a file. -/
def file (fs : LayeredFS) (ptr : FilePtr) : Exec File := do
  let parent ← fs.directory ptr.parent
  readAt .undefined parent.files ptr.index

section Rebuild

variable (text : TextConversion)

/-- SOURCE: layered_fs.cpp:273-276 -/
def getNameSize (name : List UInt8) : ℕ :=
  alignUp 64 ((text.utf8ToUtf16 name).length * 2) 4

/-- SOURCE: layered_fs.cpp:278-282 -/
def prepareBuildDirectory (fs : LayeredFS) (ptr : DirectoryPtr) (current : Directory) :
    LayeredFS :=
  { fs with
    directoryMetadataOffsetMap :=
      emplace fs.directoryMetadataOffsetMap ptr (u32 fs.currentDirectoryOffset)
    directoryList := fs.directoryList ++ [ptr]
    currentDirectoryOffset :=
      fs.currentDirectoryOffset + (directoryMetadataSize + getNameSize text current.name) }

/-- A removed file is not counted.
SOURCE: layered_fs.cpp:284-291 -/
def prepareBuildFile (fs : LayeredFS) (ptr : FilePtr) (current : File) : LayeredFS :=
  if current.kept then
    { fs with
      fileMetadataOffsetMap := emplace fs.fileMetadataOffsetMap ptr (u32 fs.currentFileOffset)
      fileList := fs.fileList ++ [ptr]
      currentFileOffset :=
        fs.currentFileOffset + (fileMetadataSize + getNameSize text current.name) }
  else fs

/-- The first loop of `PrepareBuild`. -/
def prepareBuildFiles (fs : LayeredFS) (ptr : DirectoryPtr) : ℕ → List File → LayeredFS
  | _, [] => fs
  | i, child :: rest =>
      prepareBuildFiles (prepareBuildFile text fs ⟨ptr, i⟩ child) ptr (i + 1) rest

/-- The second loop of `PrepareBuild`. -/
def prepareBuildDirectories (fs : LayeredFS) (ptr : DirectoryPtr) :
    ℕ → List Directory → LayeredFS
  | _, [] => fs
  | i, child :: rest =>
      prepareBuildDirectories (prepareBuildDirectory text fs (ptr ++ [i]) child) ptr (i + 1) rest

mutual

/-- SOURCE: layered_fs.cpp:293-305 -/
def prepareBuild (fs : LayeredFS) (ptr : DirectoryPtr) : Directory → LayeredFS
  | .mk _ files directories =>
      let fs := prepareBuildFiles text fs ptr 0 files
      let fs := prepareBuildDirectories text fs ptr 0 directories
      prepareBuildBelow fs ptr 0 directories

/-- The third loop of `PrepareBuild`, over the children from index `i` on. -/
def prepareBuildBelow (fs : LayeredFS) (ptr : DirectoryPtr) (i : ℕ) :
    List Directory → LayeredFS
  | [] => fs
  | child :: rest => prepareBuildBelow (prepareBuild fs (ptr ++ [i]) child) ptr (i + 1) rest

end

/-- One 16-bit unit goes into the hash.
SOURCE: layered_fs.cpp:312-313 -/
def hashUnit (hash : UInt32) (unit : UInt16) : UInt32 :=
  ((hash >>> 5) ||| (hash <<< 27)) ^^^ unit.toUInt32

/-- SOURCE: layered_fs.cpp:308-316 -/
def calcHash (name : List UInt8) (parentOffset : ℕ) : ℕ :=
  ((text.utf8ToUtf16 name).foldl hashUnit (UInt32.ofNat parentOffset ^^^ 123456789)).toNat

/-- What `WriteName` copies: the units, padded to four bytes.
SOURCE: layered_fs.cpp:318-327 -/
def nameBytes (name : List UInt16) : List UInt8 :=
  unitsToBytes name ++
    List.replicate (alignUp 64 (name.length * 2) 4 - name.length * 2) 0

/-- The sibling after `self`; the flag says that `self` was met. -/
def nextSibling {α : Type} [DecidableEq α] (self : α) : Bool → List α → Option α
  | _, [] => none
  | true, sibling :: _ => some sibling
  | false, sibling :: rest => nextSibling self (decide (sibling = self)) rest

/-- The offset a link holds: that of the target, or the end mark. -/
def linkTo {κ : Type} [DecidableEq κ] (map : List (κ × ℕ)) : Option κ → Exec ℕ
  | none => .ok noOffset
  | some target => mapAt map target

/-- The record of a directory, but for its hash chain.
SOURCE: layered_fs.cpp:334-358, 366-367 -/
def directoryRecord (fs : LayeredFS) (ptr : DirectoryPtr) (directory : Directory) :
    Exec DirectoryMetadata := do
  let parentOffset ← mapAt fs.directoryMetadataOffsetMap ptr.dropLast
  let parent ← fs.directory ptr.dropLast
  let sibling := if ptr.dropLast ≠ ptr then
      nextSibling ptr false (childDirectories ptr.dropLast parent)
    else none
  let nextSiblingOffset ← linkTo fs.directoryMetadataOffsetMap sibling
  let firstChildDirectoryOffset ←
    linkTo fs.directoryMetadataOffsetMap (childDirectories ptr directory).head?
  let firstFileOffset ← linkTo fs.fileMetadataOffsetMap (childFiles ptr directory).head?
  pure
    { parentDirectoryOffset := parentOffset
      nextSiblingOffset := nextSiblingOffset
      firstChildDirectoryOffset := firstChildDirectoryOffset
      firstFileOffset := firstFileOffset
      hashBucketNext := noOffset
      nameLength := u32 ((text.utf8ToUtf16 directory.name).length * 2) }

/-- The body of the loop of `BuildDirectories`: the state and how much is written.
SOURCE: layered_fs.cpp:333-373 -/
def buildDirectory (state : LayeredFS × ℕ) (ptr : DirectoryPtr) : Exec (LayeredFS × ℕ) := do
  let (fs, written) := state
  let directory ← fs.directory ptr
  let metadata ← directoryRecord text fs ptr directory
  let bucket := calcHash text directory.name metadata.parentDirectoryOffset %
    fs.directoryHashTable.length
  let hashBucketNext ← readAt .undefined fs.directoryHashTable bucket
  let offset ← mapAt fs.directoryMetadataOffsetMap ptr
  let metadata := { metadata with hashBucketNext := hashBucketNext }
  let table ← writeRun .undefined fs.directoryMetadataTable written metadata.bytes
  let written := written + directoryMetadataSize
  let name := nameBytes (text.utf8ToUtf16 directory.name)
  let table ← writeRun .undefined table written name
  let fs := { fs with
    directoryHashTable := fs.directoryHashTable.set bucket offset
    directoryMetadataTable := table }
  pure (fs, written + name.length)

/-- SOURCE: layered_fs.cpp:329-377 -/
def buildDirectories (fs : LayeredFS) : Exec LayeredFS := do
  let fs := { fs with directoryMetadataTable := List.replicate fs.currentDirectoryOffset 0xFF }
  let (fs, written) ← fs.directoryList.foldlM (buildDirectory text) (fs, 0)
  assert (written = fs.directoryMetadataTable.length) .directoryTableSize
  pure fs

/-- The pointers to the files of a directory that are not removed. -/
def keptFiles (ptr : DirectoryPtr) (directory : Directory) : List FilePtr :=
  (childFiles ptr directory).filter fun child =>
    match directory.files[child.index]? with
    | some file => file.kept
    | none => false

/-- The record of a file, but for its hash chain.
SOURCE: layered_fs.cpp:384-403, 415-416 -/
def fileRecord (fs : LayeredFS) (ptr : FilePtr) (file : File) : Exec FileMetadata := do
  let parentOffset ← mapAt fs.directoryMetadataOffsetMap ptr.parent
  let parent ← fs.directory ptr.parent
  let sibling := nextSibling ptr false (keptFiles ptr.parent parent)
  let nextSiblingOffset ← linkTo fs.fileMetadataOffsetMap sibling
  pure
    { parentDirectoryOffset := parentOffset
      nextSiblingOffset := nextSiblingOffset
      fileDataOffset := fs.currentDataOffset
      fileDataLength := file.relocation.size
      hashBucketNext := noOffset
      nameLength := u32 ((text.utf8ToUtf16 file.name).length * 2) }

/-- The body of the loop of `BuildFiles`.
SOURCE: layered_fs.cpp:383-422 -/
def buildFile (state : LayeredFS × ℕ) (ptr : FilePtr) : Exec (LayeredFS × ℕ) := do
  let (fs, written) := state
  let file ← fs.file ptr
  let metadata ← fileRecord text fs ptr file
  let currentDataOffset :=
    (fs.currentDataOffset + alignUp 64 metadata.fileDataLength 16) % 2 ^ 64
  let dataOffsetMap := if metadata.fileDataLength ≠ 0 then
      OrderedMap.emplace metadata.fileDataOffset ptr fs.dataOffsetMap
    else fs.dataOffsetMap
  let bucket := calcHash text file.name metadata.parentDirectoryOffset % fs.fileHashTable.length
  let hashBucketNext ← readAt .undefined fs.fileHashTable bucket
  let offset ← mapAt fs.fileMetadataOffsetMap ptr
  let metadata := { metadata with hashBucketNext := hashBucketNext }
  let table ← writeRun .undefined fs.fileMetadataTable written metadata.bytes
  let written := written + fileMetadataSize
  let name := nameBytes (text.utf8ToUtf16 file.name)
  let table ← writeRun .undefined table written name
  let fs := { fs with
    currentDataOffset := currentDataOffset
    dataOffsetMap := dataOffsetMap
    fileHashTable := fs.fileHashTable.set bucket offset
    fileMetadataTable := table }
  pure (fs, written + name.length)

/-- SOURCE: layered_fs.cpp:379-426 -/
def buildFiles (fs : LayeredFS) : Exec LayeredFS := do
  let fs := { fs with fileMetadataTable := List.replicate fs.currentFileOffset 0xFF }
  let (fs, written) ← fs.fileList.foldlM (buildFile text) (fs, 0)
  assert (written = fs.fileMetadataTable.length) .fileTableSize
  pure fs

/-- The condition of the loop of `GetHashTableSize`. -/
def hasSmallFactor (count : ℕ) : Bool :=
  count % 2 == 0 || count % 3 == 0 || count % 5 == 0 || count % 7 == 0 ||
    count % 11 == 0 || count % 13 == 0 || count % 17 == 0

/-- The loop of `GetHashTableSize`. -/
def nextHashTableSize : ℕ → ℕ → Exec ℕ
  | 0, _ => .error .undefined
  | fuel + 1, count =>
      if hasSmallFactor count then nextHashTableSize fuel (count + 1) else .ok count

/-- The product of the primes tried: one of that many successive numbers has none of them as a
factor. -/
def smallFactorPeriod : ℕ := 510510

/-- SOURCE: layered_fs.cpp:429-442 -/
def getHashTableSize (entryCount : ℕ) : Exec ℕ :=
  if entryCount < 3 then .ok 3
  else if entryCount < 19 then .ok (entryCount ||| 1)
  else nextHashTableSize smallFactorPeriod entryCount

/-- The header for tables of the given sizes.
SOURCE: layered_fs.cpp:455-471 -/
def makeHeader (directoryBuckets directoryBytes fileBuckets fileBytes : ℕ) : RomFSHeader :=
  let directoryHashTable : Descriptor := ⟨romFSHeaderSize, u32 (directoryBuckets * 4)⟩
  let directoryMetadataTable : Descriptor :=
    ⟨u32 (directoryHashTable.offset + directoryHashTable.length), u32 directoryBytes⟩
  let fileHashTable : Descriptor :=
    ⟨u32 (directoryMetadataTable.offset + directoryMetadataTable.length), u32 (fileBuckets * 4)⟩
  let fileMetadataTable : Descriptor :=
    ⟨u32 (fileHashTable.offset + fileHashTable.length), u32 fileBytes⟩
  { headerLength := romFSHeaderSize
    directoryHashTable := directoryHashTable
    directoryMetadataTable := directoryMetadataTable
    fileHashTable := fileHashTable
    fileMetadataTable := fileMetadataTable
    fileDataOffset :=
      alignUp 32 (u32 (fileMetadataTable.offset + fileMetadataTable.length)) 16 }

/-- The bytes of a hash table. -/
def hashTableBytes (table : List ℕ) : List UInt8 := table.flatMap (toLittleEndian 4)

/-- The metadata: the header and the tables, each copied to its place.
SOURCE: layered_fs.cpp:473-484 -/
def writeMetadata (fs : LayeredFS) : Exec (List UInt8) := do
  let header := makeHeader fs.directoryHashTable.length fs.directoryMetadataTable.length
    fs.fileHashTable.length fs.fileMetadataTable.length
  let metadata := List.replicate header.fileDataOffset 0
  let metadata ← writeRun .undefined metadata 0 header.bytes
  let metadata ← writeRun .undefined metadata header.directoryHashTable.offset
    ((hashTableBytes fs.directoryHashTable).take header.directoryHashTable.length)
  let metadata ← writeRun .undefined metadata header.directoryMetadataTable.offset
    (fs.directoryMetadataTable.take header.directoryMetadataTable.length)
  let metadata ← writeRun .undefined metadata header.fileHashTable.offset
    ((hashTableBytes fs.fileHashTable).take header.fileHashTable.length)
  writeRun .undefined metadata header.fileMetadataTable.offset
    (fs.fileMetadataTable.take header.fileMetadataTable.length)

/-- `RebuildMetadata` on a loaded tree.
SOURCE: layered_fs.cpp:444-485 -/
def rebuildMetadata (root : Directory) : Exec LayeredFS := do
  let fs := prepareBuild text (prepareBuildDirectory text { root := root } [] root) [] root
  let directoryBuckets ← getHashTableSize fs.directoryList.length
  let fileBuckets ← getHashTableSize fs.fileList.length
  let fs := { fs with
    directoryHashTable := List.replicate directoryBuckets noOffset
    fileHashTable := List.replicate fileBuckets noOffset }
  let fs ← buildDirectories text fs
  let fs ← buildFiles text fs
  let metadata ← writeMetadata fs
  pure { fs with metadata := metadata }

end Rebuild

/-! ## Reading the image -/

/-- SOURCE: layered_fs.cpp:487-489 -/
def getSize (fs : LayeredFS) : ℕ := (fs.metadata.length + fs.currentDataOffset) % 2 ^ 64

/-- Subtraction of 64-bit words. -/
def u64Sub (x y : ℕ) : ℕ := (x + 2 ^ 64 - y) % 2 ^ 64

/-- Where file contents come from: the bytes of the original RomFS, and the host's files by their
path. -/
structure Sources where
  romfs : List UInt8
  host : List UInt8 → Option (List UInt8)

/-- What a read of a file leaves in the buffer: the original RomFS and a replacement file give what
they have there, and a replacement file that does not open leaves the buffer as it is.
SOURCE: layered_fs.cpp:520-541 -/
def readRelocated (sources : Sources) (relocation : Relocation)
    (relativeOffset toRead : ℕ) : Exec (List UInt8) :=
  match relocation with
  | .none originalOffset _ =>
      .ok ((sources.romfs.drop ((originalOffset.toNat + relativeOffset) % 2 ^ 64)).take toRead)
  | .replaced replaceFilePath _ =>
      match sources.host replaceFilePath with
      | some contents => .ok ((contents.drop relativeOffset).take toRead)
      | none => .ok []
  | .patched patchedFile =>
      -- Copying no bytes reads nothing, also when the offset lies in the padding.
      if toRead = 0 then .ok [] else readRun .undefined patchedFile relativeOffset toRead
  | .removed => .error (.assertion .relocationType)

/-- The loop of `ReadFile`. The first entry is the one `current` points to; its file is read at
`offset`, and what is read goes into the buffer at `readSize`.
SOURCE: layered_fs.cpp:506-546 -/
def readFiles (fs : LayeredFS) (sources : Sources) (length : ℕ) :
    List (ℕ × FilePtr) → ℕ → ℕ → List UInt8 → Exec (List UInt8 × ℕ)
  | [], _, readSize, buffer =>
      if readSize < length then .error .undefined else .ok (buffer, readSize)
  | (first, ptr) :: rest, offset, readSize, buffer =>
      if readSize < length then do
        let file ← fs.file ptr
        let size := file.relocation.size
        let relativeOffset := u64Sub offset first
        let toRead := if relativeOffset < size then
            min (size - relativeOffset) (length - readSize)
          else 0
        let alignment :=
          u64Sub (min (u64Sub (alignUp 64 size 16) relativeOffset) (length - readSize)) toRead
        let contents ← readRelocated sources file.relocation relativeOffset toRead
        let buffer ← writeRun .undefined buffer readSize contents
        let buffer ← writeRun .undefined buffer (readSize + toRead) (List.replicate alignment 0)
        readFiles fs sources length rest ((offset + (toRead + alignment)) % 2 ^ 64)
          ((readSize + (toRead + alignment)) % 2 ^ 64) buffer
      else .ok (buffer, readSize)

/-- `ReadFile` into a buffer: what the buffer holds afterwards, and how much is read. Stepping back
from the first entry of the map, or within an empty one, is undefined.
SOURCE: layered_fs.cpp:491-549 -/
def readFile (fs : LayeredFS) (sources : Sources) (offset length : ℕ) (buffer : List UInt8) :
    Exec (List UInt8 × ℕ) := do
  assert ((offset + length) % 2 ^ 64 ≤ fs.getSize) .readOutOfBound
  let toRead := if offset < fs.metadata.length then
      min (fs.metadata.length - offset) length
    else 0
  let contents ← readRun .undefined fs.metadata (min offset fs.metadata.length) toRead
  let buffer ← writeRun .undefined buffer 0 contents
  let offset := if offset < fs.metadata.length then 0 else offset - fs.metadata.length
  match OrderedMap.prev (OrderedMap.upperBound offset fs.dataOffsetMap) fs.dataOffsetMap with
  | none => .error .undefined
  | some current =>
      readFiles fs sources length (OrderedMap.entriesFrom (some current) fs.dataOffsetMap) offset
        toRead buffer

end LayeredFS

end Borked3DS.Model
