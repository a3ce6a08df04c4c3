import Borked3DS.Model.CIAFile

/-!
# The files of installed titles

Of `am.cpp` the paths of title metadata and contents, and `CIAFile::Close`, which removes what an
update leaves behind. A path names a title and a file in its `content/` folder; titles lie on the
NAND or on the SD card, one of which is meant throughout.
-/

set_option autoImplicit false

namespace Borked3DS.Model.Cia

open Borked3DS.Library

/-- A file in the folder of a title: `<id>.tmd`, and `<content id>.app` there or in `00000000/`. -/
inductive TitleFile
  | tmd (id : ℕ)
  | app (inFolder : Bool) (contentId : ℕ)
  deriving DecidableEq, Repr

/-- A path below the folder that titles are installed to. -/
structure TitlePath where
  titleId : ℕ
  file : TitleFile
  deriving DecidableEq, Repr

/-- The files with their bytes, in the order in which a directory is scanned. -/
structure Storage where
  files : List (TitlePath × List UInt8)
  deriving DecidableEq

/-- What `System` knows of the program that runs: its path if it is that of a title, and whether the
file goes away with it. -/
structure System where
  poweredOn : Bool
  filepath : Option TitlePath
  selfDeletePending : Bool := false
  deriving DecidableEq

namespace TitleMetadata

/-- `FileSys::TitleMetadata tmd;`, whose body is not initialised. -/
def fresh : TitleMetadata :=
  { tmdBody := [], signatureType := 0, tmdSignature := [], tmdChunks := [] }

/-- SOURCE: title_metadata.cpp:135-137 -/
def getTitleID (tmd : TitleMetadata) : ℕ := bigEndianAt tmd.tmdBody 0x4C 8

/-- Whether the second content is optional, as in DLC, whose contents lie in a folder of their own.
SOURCE: am.cpp:725-728 -/
def inFolder (tmd : TitleMetadata) : Bool :=
  match tmd.tmdChunks[1]? with
  | some chunk => chunk.type.testBit 14
  | none => false

end TitleMetadata

namespace Storage

variable (storage : Storage)

/-- The bytes of a file. -/
def read (path : TitlePath) : Option (List UInt8) :=
  (storage.files.find? fun file => file.1 = path).map Prod.snd

/-- `FileUtil::Exists`. -/
def fileExists (path : TitlePath) : Bool := (storage.read path).isSome

/-- `FileUtil::Delete`. -/
def delete (path : TitlePath) : Storage :=
  { files := storage.files.filter fun file => file.1 ≠ path }

/-- `TitleMetadata::Load` of a file.
SOURCE: title_metadata.cpp:16-31 -/
def loadTmd (path : TitlePath) : Exec (ResultStatus × TitleMetadata) :=
  match storage.read path with
  | none => .ok (.error, .fresh)
  | some bytes => if bytes.isEmpty then .ok (.error, .fresh) else TitleMetadata.fresh.load bytes 0

/-- The IDs of the `.tmd` files in the folder of a title. -/
def tmdIds (titleId : ℕ) : List ℕ :=
  storage.files.filterMap fun (path, _) =>
    match path.file with
    | .tmd id => if path.titleId = titleId then some id else none
    | .app _ _ => none

/-- `GetTitleMetadataPath`: the smallest ID is the base, and the largest the update, or the next one
when there is no other.
SOURCE: am.cpp:657-693 -/
def getTitleMetadataPath (titleId : ℕ) (update : Bool) : TitlePath :=
  let baseId := (storage.tmdIds titleId).foldl min 0xFFFFFFFF
  let updateId := (storage.tmdIds titleId).foldl max 0
  let baseId := if baseId = 0xFFFFFFFF then 0 else baseId
  let updateId := if baseId = updateId then u32 (updateId + 1) else updateId
  { titleId, file := .tmd (if update then updateId else baseId) }

/-- `GetTitleContentPath`, with no path for a content that is not there.
SOURCE: am.cpp:695-732 -/
def getTitleContentPath (titleId index : ℕ) (update : Bool) : Exec (Option TitlePath) := do
  let (result, tmd) ← storage.loadTmd (storage.getTitleMetadataPath titleId update)
  if result ≠ .success then pure (some { titleId, file := .app false 0 })
  else
    match tmd.tmdChunks[index]? with
    | none => pure none
    | some chunk => pure (some { titleId, file := .app tmd.inFolder chunk.id })

end Storage

/-- `SetSelfDelete`.
SOURCE: core.h:354-360 -/
def System.setSelfDelete (system : System) (file : TitlePath) : Bool × System :=
  if system.filepath = some file then (true, { system with selfDeletePending := true })
  else (false, system)

/-- A content goes away: at once, or with the program that runs from it.
SOURCE: am.cpp:405-412 -/
def removeContent (toDelete : Option TitlePath) (system : System) (storage : Storage) :
    System × Storage :=
  match toDelete with
  | none => (system, storage)
  | some path =>
      if !system.poweredOn then (system, storage.delete path)
      else
        match system.setSelfDelete path with
        | (true, system) => (system, storage)
        | (false, system) => (system, storage.delete path)

/-- The loop over the old contents, from one of them on.
SOURCE: am.cpp:392-413 -/
def removeOldContents (oldTmd newTmd : TitleMetadata) :
    ℕ → List ContentChunk → System → Storage → Exec (System × Storage)
  | _, [], system, storage => .ok (system, storage)
  | oldIndex, chunk :: chunks, system, storage =>
      let abort := newTmd.tmdChunks.any fun newChunk => chunk.id = newChunk.id
      if abort then .ok (system, storage)
      else do
        let toDelete ← storage.getTitleContentPath oldTmd.getTitleID oldIndex false
        let (system, storage) := removeContent toDelete system storage
        removeOldContents oldTmd newTmd (oldIndex + 1) chunks system storage

namespace CIAFile

/-- Whether everything has been written.
SOURCE: am.cpp:363-369 -/
def complete (f : CIAFile) : Exec Bool :=
  if (f.installState = .tmdLoaded ∨ f.installState = .contentWritten) ∧
      f.contentWritten.length = f.container.ciaTmd.tmdChunks.length then
    f.contentWritten.zipIdx.allM fun (bytesWritten, i) => do
      let size ← f.container.getContentSize (i % 2 ^ 16)
      pure (size ≤ bytesWritten)
  else .ok false

/-- `Close`. Where the installation is aborted, the folder of the title is only removed when it is
empty.
SOURCE: am.cpp:362-418 -/
def close (f : CIAFile) (system : System) (storage : Storage) : Exec (System × Storage) := do
  if !(← f.complete) then pure (system, storage)
  else
    let titleId := f.container.ciaTmd.getTitleID
    let oldTmdPath := storage.getTitleMetadataPath titleId false
    let newTmdPath := storage.getTitleMetadataPath titleId true
    if storage.fileExists newTmdPath ∧ oldTmdPath ≠ newTmdPath then do
      let (_, oldTmd) ← storage.loadTmd oldTmdPath
      let (_, newTmd) ← storage.loadTmd newTmdPath
      let (system, storage) ←
        removeOldContents oldTmd newTmd 0 oldTmd.tmdChunks system storage
      pure (system, storage.delete oldTmdPath)
    else pure (system, storage)

end CIAFile

end Borked3DS.Model.Cia
