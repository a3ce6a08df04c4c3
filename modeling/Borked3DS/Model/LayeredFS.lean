import Borked3DS.Library.CheckedList
import Borked3DS.Library.ByteOrder
import Borked3DS.Library.OrderedMap
import Borked3DS.Model.Basic

/-!
# The layered RomFS

`layered_fs.cpp`: the directory tree of a RomFS, the pass that assigns an offset to every directory
and file, the passes that write the metadata tables, the reader that parses them, and the reader of
the rebuilt image. A pointer to a directory is the path of child indices that leads to it from the
root, a pointer to a file is that of its directory and its index there.
-/

set_option autoImplicit false

namespace Borked3DS.Model.LayeredFS

open Borked3DS.Library

/-- The offset that ends a list of siblings or a hash chain. -/
def noOffset : ℕ := 0xFFFFFFFF

/-- `Common::AlignUp` on unsigned numbers of `bits` bits.
SOURCE: alignment.h:10-16 -/
def alignUp (bits value size : ℕ) : ℕ :=
  if value % size = 0 then value else (value - value % size + size) % 2 ^ bits

/-- `Common::UTF8ToUTF16` and `Common::UTF16ToUTF8`, which call a library. -/
structure TextConversion where
  utf8ToUtf16 : List UInt8 → List UInt16
  utf16ToUtf8 : List UInt16 → List UInt8

/-- What became of a file (`FileRelocationInfo`), by its type, with what the type uses. -/
inductive Relocation
  | none (originalOffset size : UInt64)
  | replaced (replaceFilePath : List UInt8) (size : UInt64)
  | patched (patchedFile : List UInt8)
  | removed
  deriving DecidableEq

/-- The relocated size, zero for a removed file. -/
def Relocation.size : Relocation → ℕ
  | .none _ size => size.toNat
  | .replaced _ size => size.toNat
  | .patched patchedFile => patchedFile.length % 2 ^ 64
  | .removed => 0

/-- SOURCE: layered_fs.cpp:22-34 -/
structure File where
  name : List UInt8
  relocation : Relocation
  deriving DecidableEq

/-- The file is not removed. -/
def File.kept (file : File) : Bool :=
  match file.relocation with
  | .removed => false
  | _ => true

/-- SOURCE: layered_fs.h:67-73 -/
inductive Directory
  | mk (name : List UInt8) (files : List File) (directories : List Directory)

namespace Directory

def name : Directory → List UInt8
  | mk name _ _ => name

def files : Directory → List File
  | mk _ files _ => files

def directories : Directory → List Directory
  | mk _ _ directories => directories

/-- The directory that a path of child indices leads to. -/
def child? : Directory → List ℕ → Option Directory
  | directory, [] => some directory
  | directory, i :: path => directory.directories[i]?.bind fun child => child.child? path

end Directory

/-- `Directory*`. The parent of the root is the root itself. -/
abbrev DirectoryPtr := List ℕ

/-- `File*`. -/
structure FilePtr where
  parent : DirectoryPtr
  index : ℕ
  deriving DecidableEq

/-- The pointers to the children of a directory. -/
def childDirectories (ptr : DirectoryPtr) (directory : Directory) : List DirectoryPtr :=
  (List.range directory.directories.length).map fun i => ptr ++ [i]

/-- The pointers to the files of a directory. -/
def childFiles (ptr : DirectoryPtr) (directory : Directory) : List FilePtr :=
  (List.range directory.files.length).map fun i => ⟨ptr, i⟩

/-! ## The metadata on disk -/

/-- SOURCE: layered_fs.cpp:36-44 -/
structure DirectoryMetadata where
  parentDirectoryOffset : ℕ
  nextSiblingOffset : ℕ
  firstChildDirectoryOffset : ℕ
  firstFileOffset : ℕ
  hashBucketNext : ℕ
  nameLength : ℕ
  deriving DecidableEq

def directoryMetadataSize : ℕ := 0x18

def DirectoryMetadata.bytes (metadata : DirectoryMetadata) : List UInt8 :=
  toLittleEndian 4 metadata.parentDirectoryOffset ++ toLittleEndian 4 metadata.nextSiblingOffset ++
    toLittleEndian 4 metadata.firstChildDirectoryOffset ++
    toLittleEndian 4 metadata.firstFileOffset ++ toLittleEndian 4 metadata.hashBucketNext ++
    toLittleEndian 4 metadata.nameLength

/-- The number in `width` bytes at `offset`. -/
def number (bytes : List UInt8) (offset width : ℕ) : ℕ :=
  ofLittleEndian ((bytes.drop offset).take width)

def DirectoryMetadata.ofBytes (bytes : List UInt8) : DirectoryMetadata where
  parentDirectoryOffset := number bytes 0 4
  nextSiblingOffset := number bytes 4 4
  firstChildDirectoryOffset := number bytes 8 4
  firstFileOffset := number bytes 12 4
  hashBucketNext := number bytes 16 4
  nameLength := number bytes 20 4

/-- SOURCE: layered_fs.cpp:47-55 -/
structure FileMetadata where
  parentDirectoryOffset : ℕ
  nextSiblingOffset : ℕ
  fileDataOffset : ℕ
  fileDataLength : ℕ
  hashBucketNext : ℕ
  nameLength : ℕ
  deriving DecidableEq

def fileMetadataSize : ℕ := 0x20

def FileMetadata.bytes (metadata : FileMetadata) : List UInt8 :=
  toLittleEndian 4 metadata.parentDirectoryOffset ++ toLittleEndian 4 metadata.nextSiblingOffset ++
    toLittleEndian 8 metadata.fileDataOffset ++ toLittleEndian 8 metadata.fileDataLength ++
    toLittleEndian 4 metadata.hashBucketNext ++ toLittleEndian 4 metadata.nameLength

def FileMetadata.ofBytes (bytes : List UInt8) : FileMetadata where
  parentDirectoryOffset := number bytes 0 4
  nextSiblingOffset := number bytes 4 4
  fileDataOffset := number bytes 8 8
  fileDataLength := number bytes 16 8
  hashBucketNext := number bytes 24 4
  nameLength := number bytes 28 4

/-- `RomFSHeader::Descriptor`. -/
structure Descriptor where
  offset : ℕ
  length : ℕ
  deriving DecidableEq

/-- SOURCE: layered_fs.h:23-34 -/
structure RomFSHeader where
  headerLength : ℕ
  directoryHashTable : Descriptor
  directoryMetadataTable : Descriptor
  fileHashTable : Descriptor
  fileMetadataTable : Descriptor
  fileDataOffset : ℕ
  deriving DecidableEq

def romFSHeaderSize : ℕ := 0x28

def Descriptor.bytes (descriptor : Descriptor) : List UInt8 :=
  toLittleEndian 4 descriptor.offset ++ toLittleEndian 4 descriptor.length

def RomFSHeader.bytes (header : RomFSHeader) : List UInt8 :=
  toLittleEndian 4 header.headerLength ++ header.directoryHashTable.bytes ++
    header.directoryMetadataTable.bytes ++ header.fileHashTable.bytes ++
    header.fileMetadataTable.bytes ++ toLittleEndian 4 header.fileDataOffset

/-! ## Parsing

`romfs` holds the bytes of the image that is parsed; reading past its end leaves the fields
uninitialised. -/

section Parsing

variable (text : TextConversion) (romfs : List UInt8)

def readDirectoryMetadata (header : RomFSHeader) (offset : ℕ) : Exec DirectoryMetadata := do
  let bytes ← readRun .undefined romfs (u32 (header.directoryMetadataTable.offset + offset))
    directoryMetadataSize
  pure (DirectoryMetadata.ofBytes bytes)

def readFileMetadata (header : RomFSHeader) (offset : ℕ) : Exec FileMetadata := do
  let bytes ← readRun .undefined romfs (u32 (header.fileMetadataTable.offset + offset))
    fileMetadataSize
  pure (FileMetadata.ofBytes bytes)

/-- SOURCE: layered_fs.cpp:132-141 -/
def readName (offset nameLength : ℕ) : Exec (List UInt8) := do
  let bytes ← readRun .undefined romfs offset nameLength
  pure (text.utf16ToUtf8 (bytesToUnits bytes))

/-- The file at `offset` and the offset of the next one.
SOURCE: layered_fs.cpp:113-130 -/
def loadFile (header : RomFSHeader) (offset : ℕ) : Exec (File × ℕ) := do
  let metadata ← readFileMetadata romfs header offset
  let name ← readName text romfs
    (u32 (header.fileMetadataTable.offset + offset + fileMetadataSize)) metadata.nameLength
  let relocation := Relocation.none (.ofNat (header.fileDataOffset + metadata.fileDataOffset))
    (.ofNat metadata.fileDataLength)
  pure (⟨name, relocation⟩, metadata.nextSiblingOffset)

/-- The loop over the files of a directory. The fuel bounds the number of entries read. -/
def loadFiles (header : RomFSHeader) : ℕ → ℕ → Exec (List File)
  | 0, _ => .error .undefined
  | fuel + 1, offset =>
      if offset = noOffset then pure []
      else do
        let (file, next) ← loadFile text romfs header offset
        let files ← loadFiles header fuel next
        pure (file :: files)

mutual

/-- The directory at `offset` with all below it, and the offset of its next sibling.
SOURCE: layered_fs.cpp:86-111 -/
def loadDirectory (header : RomFSHeader) : ℕ → ℕ → Exec (Directory × ℕ)
  | 0, _ => .error .undefined
  | fuel + 1, offset => do
      let metadata ← readDirectoryMetadata romfs header offset
      let name ← readName text romfs
        (u32 (header.directoryMetadataTable.offset + offset + directoryMetadataSize))
        metadata.nameLength
      let files ← loadFiles text romfs header fuel metadata.firstFileOffset
      let directories ← loadDirectories header fuel metadata.firstChildDirectoryOffset
      pure (.mk name files directories, metadata.nextSiblingOffset)

/-- The loop over the children of a directory. -/
def loadDirectories (header : RomFSHeader) : ℕ → ℕ → Exec (List Directory)
  | 0, _ => .error .undefined
  | fuel + 1, offset =>
      if offset = noOffset then pure []
      else do
        let (directory, next) ← loadDirectory header fuel offset
        let directories ← loadDirectories header fuel next
        pure (directory :: directories)

end

end Parsing

end Borked3DS.Model.LayeredFS
