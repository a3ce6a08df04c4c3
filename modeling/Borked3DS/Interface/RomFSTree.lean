import Mathlib.Logic.Relation
import Borked3DS.Library.TreeWalk
import Borked3DS.Model.LayeredFS
import Borked3DS.Model.LayeredFSRebuild
import Borked3DS.Model.RomFSReader

/-!
# What a rebuilt RomFS holds

The directories and kept files of a tree in the order of the tables, what a reader of the rebuilt
metadata sees of them, how it finds one by its hash, and the image that `ReadFile` is to be a
window on.
-/

set_option autoImplicit false

namespace Borked3DS.Interface

open Borked3DS.Library Borked3DS.Model Borked3DS.Model.LayeredFS

/-! ## The directories and files of a tree -/

/-- The children of a directory from index `i` on. -/
def childrenFrom (ptr : DirectoryPtr) (i : ℕ) :
    List Directory → List (DirectoryPtr × Directory)
  | [] => []
  | child :: rest => (ptr ++ [i], child) :: childrenFrom ptr (i + 1) rest

mutual

/-- The directories below one: its children, then what is below each of them. -/
def directoriesBelow (ptr : DirectoryPtr) : Directory → List (DirectoryPtr × Directory)
  | .mk _ _ directories => childrenFrom ptr 0 directories ++ directoriesBelowAll ptr 0 directories

def directoriesBelowAll (ptr : DirectoryPtr) (i : ℕ) :
    List Directory → List (DirectoryPtr × Directory)
  | [] => []
  | child :: rest =>
      directoriesBelow (ptr ++ [i]) child ++ directoriesBelowAll ptr (i + 1) rest

end

/-- Every directory of a tree, in the order of its table. -/
def directoriesOf (root : Directory) : List (DirectoryPtr × Directory) :=
  ([], root) :: directoriesBelow [] root

/-- The files of a directory from index `i` on that are not removed. -/
def keptFrom (ptr : DirectoryPtr) (i : ℕ) : List File → List (FilePtr × File)
  | [] => []
  | file :: rest =>
      if file.kept then (⟨ptr, i⟩, file) :: keptFrom ptr (i + 1) rest
      else keptFrom ptr (i + 1) rest

mutual

/-- The kept files of a directory and of all below it. -/
def filesBelow (ptr : DirectoryPtr) : Directory → List (FilePtr × File)
  | .mk _ files directories => keptFrom ptr 0 files ++ filesBelowAll ptr 0 directories

def filesBelowAll (ptr : DirectoryPtr) (i : ℕ) : List Directory → List (FilePtr × File)
  | [] => []
  | child :: rest => filesBelow (ptr ++ [i]) child ++ filesBelowAll ptr (i + 1) rest

end

/-- Every kept file of a tree, in the order of its table. -/
def filesOf (root : Directory) : List (FilePtr × File) := filesBelow [] root

/-- The conversion, as far as names of ASCII characters go. -/
def asciiConversion : TextConversion where
  utf8ToUtf16 := fun name => name.map UInt8.toUInt16
  utf16ToUtf8 := fun name => name.map UInt16.toUInt8

end Borked3DS.Interface

/-!
## The image of a rebuilt RomFS

What `ReadFile` is a window on: the metadata, then each kept file's data, padded to 16 bytes.
-/

namespace Borked3DS.Interface

open Borked3DS.Library Borked3DS.Model Borked3DS.Model.LayeredFS

/-- The data of a file, as far as its source has it. -/
def fileData (sources : Sources) : Relocation → List UInt8
  | .none originalOffset size => (sources.romfs.drop originalOffset.toNat).take size.toNat
  | .replaced replaceFilePath size =>
      match sources.host replaceFilePath with
      | some contents => contents.take size.toNat
      | none => []
  | .patched patchedFile => patchedFile.take (patchedFile.length % 2 ^ 64)
  | .removed => []

/-- A size padded to 16 bytes. -/
def paddedSize (size : ℕ) : ℕ := (size + 15) / 16 * 16

/-- The data of a file, padded to 16 bytes. -/
def dataBlock (sources : Sources) (e : FilePtr × File) : List UInt8 :=
  fileData sources e.2.relocation ++
    List.replicate (paddedSize e.2.relocation.size - e.2.relocation.size) 0

/-- A read of `length` bytes at `offset` gives `bytes`, whatever buffer with room for them it goes
into, and reports that many. -/
def Reads (fs : LayeredFS) (sources : Sources) (offset length : ℕ) (bytes : List UInt8) : Prop :=
  bytes.length = length ∧ ∀ buffer : List UInt8, length ≤ buffer.length →
    fs.readFile sources offset length buffer = .ok (overwrite buffer 0 bytes, length)

/-- `image` is what every read within the size of a rebuilt RomFS is a slice of. -/
structure ReadsImage (fs : LayeredFS) (sources : Sources) (root : Directory)
    (image : List UInt8) : Prop where
  size : image.length = fs.getSize
  metadata : fs.metadata <+: image
  files : ∀ e ∈ filesOf root, e.2.relocation.size ≠ 0 → ∃ offset,
    (offset, e.1) ∈ fs.dataOffsetMap ∧
      dataBlock sources e <+: image.drop (fs.metadata.length + offset)
  reads : ∀ offset length, offset + length ≤ fs.getSize →
    Reads fs sources offset length ((image.drop offset).take length)
  splits : ∀ offset length length', offset + (length + length') ≤ fs.getSize → ∃ bytes bytes',
    Reads fs sources offset length bytes ∧ Reads fs sources (offset + length) length' bytes' ∧
      Reads fs sources offset (length + length') (bytes ++ bytes')

/-- The reads of a rebuilt RomFS are the slices of one image. -/
def ReadsOneImage (fs : LayeredFS) (sources : Sources) (root : Directory) : Prop :=
  ∃ image, ReadsImage fs sources root image

/-- Some kept file is not empty. -/
def HasData (root : Directory) : Prop := ∃ e ∈ filesOf root, e.2.relocation.size ≠ 0

instance (root : Directory) : Decidable (HasData root) :=
  inferInstanceAs (Decidable (∃ e ∈ filesOf root, _))

/-- The size of the image has 64 bits. -/
def ImageFits (fs : LayeredFS) (root : Directory) : Prop :=
  fs.metadata.length + ((filesOf root).map fun e => paddedSize e.2.relocation.size).sum < 2 ^ 64

/-- The RomFS and the host still have all the data that the kept files are to get from them. -/
def SourcesComplete (sources : Sources) (root : Directory) : Prop :=
  sources.romfs.length < 2 ^ 64 ∧
    ∀ e ∈ filesOf root, (fileData sources e.2.relocation).length = e.2.relocation.size

end Borked3DS.Interface

/-!
## What reading a RomFS means

The RomFS is a window of the host file, decrypted; a read is a slice of it.
-/

namespace Borked3DS.Interface

open Borked3DS.Library Borked3DS.Model Borked3DS.Model.RomFSReader

/-- Bytes of the window as the game sees them, given where in the window they stand. -/
def plainBytes (r : DirectRomFSReader) (position : ℕ) (bytes : List UInt8) : List UInt8 :=
  match r.cipher with
  | none => bytes
  | some c => c.process (c.cryptoOffset + position) bytes

/-- The RomFS: the decrypted window of the file. -/
def romFSWindow (r : DirectRomFSReader) : List UInt8 :=
  plainBytes r 0 ((r.file.drop r.fileOffset).take r.dataSize)

/-- The window lies in the file, and the file in what a host file can be. The cipher's positions of
the window do not wrap. -/
structure IsWindow (r : DirectRomFSReader) : Prop where
  inside : r.fileOffset + r.dataSize ≤ r.file.length
  length_lt : r.file.length < 2 ^ 63
  position_lt : ∀ c, r.cipher = some c → c.cryptoOffset + r.dataSize < 2 ^ 64

/-- A read without a cache: how many bytes there are, and the bytes. -/
def directRead (r : DirectRomFSReader) (request : ℕ × ℕ) : ℕ × List UInt8 :=
  (min request.2 (r.dataSize - request.1), ((romFSWindow r).drop request.1).take request.2)

/-- Every call of some requests returns what a read without a cache does. -/
def ReadsDirectly (r : DirectRomFSReader) (requests : List (ℕ × ℕ)) : Prop :=
  ∃ r', r.readFiles requests = .ok (requests.map (directRead r), r')

/-- A request that does not start behind the RomFS, or asks for nothing. -/
def StartsInside (dataSize : ℕ) (request : ℕ × ℕ) : Prop :=
  request.1 ≤ dataSize ∨ request.2 = 0

/-- A reader as it is made: nothing is cached. -/
def IsFresh (r : DirectRomFSReader) : Prop := r.cache.list = []

end Borked3DS.Interface

/-!
## Which entries of a RomFS are parsed

The entries of the metadata tables that `LoadDirectory` and `LoadFile` come to, in their order, and
where each of them leads.
-/

namespace Borked3DS.Interface

open Borked3DS.Library Borked3DS.Model Borked3DS.Model.LayeredFS

/-- An entry of the directory table or of the file table, by its offset. -/
inductive RomFSEntry
  | directory (offset : ℕ)
  | file (offset : ℕ)
  deriving DecidableEq, Repr

/-- The file at an offset, if there is one. -/
def fileAt (offset : ℕ) : List RomFSEntry := if offset = noOffset then [] else [.file offset]

/-- The directory at an offset, if there is one. -/
def directoryAt (offset : ℕ) : List RomFSEntry :=
  if offset = noOffset then [] else [.directory offset]

/-- The first of the files and of the children of a directory. -/
def contents (metadata : DirectoryMetadata) : List RomFSEntry :=
  fileAt metadata.firstFileOffset ++ directoryAt metadata.firstChildDirectoryOffset

section Walk

variable (text : TextConversion) (romfs : List UInt8) (header : RomFSHeader)

/-- What `LoadDirectory` reads of a directory itself. -/
def readDirectory (offset : ℕ) : Exec DirectoryMetadata := do
  let metadata ← readDirectoryMetadata romfs header offset
  let _ ← readName text romfs
    (u32 (header.directoryMetadataTable.offset + offset + directoryMetadataSize))
    metadata.nameLength
  pure metadata

/-- The entries that an entry leads to, if it can be read: the first of its files and children, and
its next sibling. -/
def leadsTo : RomFSEntry → Option (List RomFSEntry)
  | .directory offset => (readDirectory text romfs header offset).toOption.map fun metadata =>
      contents metadata ++ directoryAt metadata.nextSiblingOffset
  | .file offset => (loadFile text romfs header offset).toOption.map fun loaded => fileAt loaded.2

/-- The entries that the loop over the files of a directory comes to. -/
def visitFiles : ℕ → ℕ → Exec (List RomFSEntry)
  | 0, _ => .error .undefined
  | fuel + 1, offset =>
      if offset = noOffset then pure []
      else do
        let (_, next) ← loadFile text romfs header offset
        let entries ← visitFiles fuel next
        pure (.file offset :: entries)

mutual

/-- The entries that `LoadDirectory` comes to, and what it returns. -/
def visitDirectory : ℕ → ℕ → Exec (List RomFSEntry × ℕ)
  | 0, _ => .error .undefined
  | fuel + 1, offset => do
      let metadata ← readDirectory text romfs header offset
      let files ← visitFiles text romfs header fuel metadata.firstFileOffset
      let directories ← visitDirectories fuel metadata.firstChildDirectoryOffset
      pure (.directory offset :: (files ++ directories), metadata.nextSiblingOffset)

/-- The entries that the loop over the children of a directory comes to. -/
def visitDirectories : ℕ → ℕ → Exec (List RomFSEntry)
  | 0, _ => .error .undefined
  | fuel + 1, offset =>
      if offset = noOffset then pure []
      else do
        let (entries, next) ← visitDirectory fuel offset
        let others ← visitDirectories fuel next
        pure (entries ++ others)

end

/-- `LoadDirectory` of the root comes to an end, and has come to no entry twice. -/
def VisitsOnce : Prop :=
  ∃ fuel root next entries, loadDirectory text romfs header fuel 0 = .ok (root, next) ∧
    visitDirectory text romfs header fuel 0 = .ok (entries, next) ∧ entries.Nodup

/-- The entries below the root are a forest that does not lead back to it. -/
def EntriesBelowRoot : Prop :=
  ∃ metadata, readDirectory text romfs header 0 = .ok metadata ∧
    Forest (leadsTo text romfs header) (contents metadata) ∧
    ¬ Reached (leadsTo text romfs header) (contents metadata) (.directory 0)

end Walk

end Borked3DS.Interface
