import Borked3DS.Library.BlockChaining
import Borked3DS.Model.Patches
import Borked3DS.Model.CIAContainer

/-!
# The file a CIA is installed through

`CIAFile` of `am.cpp`: what is written to it is buffered up to the contents, from where the ticket and
the title metadata are loaded, and handed on to the content files from there.
-/

set_option autoImplicit false

namespace Borked3DS.Model.Cia

open Borked3DS.Library
open Borked3DS.Model.Bps (resize)

/-- SOURCE: am.h:55-62 -/
inductive CIAInstallState
  | installStarted | headerLoaded | certLoaded | ticketLoaded | tmdLoaded | contentWritten
  deriving DecidableEq, Repr

/-- The error results of a write. -/
inductive InstallError
  | invalidCIAHeader | fileNotFound
  deriving DecidableEq, Repr

/-- What an installation uses of the machine it runs on: whether the title metadata can be saved and
each content file opened, the title key of a ticket if the keys for it are there, and AES. -/
structure InstallHost where
  savesTmd : TitleMetadata → Bool
  opensContent : TitleMetadata → ℕ → Bool
  getTitleKey : Ticket → Option (List UInt8)
  decryptBlock : List UInt8 → List UInt8 → List UInt8

def aesBlockSize : ℕ := 16

/-- `CBC_Mode<AES>::Decryption` between two calls. -/
structure CbcDecryption where
  key : List UInt8
  register : List UInt8
  deriving DecidableEq

/-- `ProcessData`, which takes whole blocks only. -/
def CbcDecryption.processData (decryption : CbcDecryption) (host : InstallHost)
    (bytes : List UInt8) : Exec (List UInt8 × CbcDecryption) :=
  if bytes.length % aesBlockSize ≠ 0 then .error .undefined
  else
    let (plain, register) :=
      chain aesBlockSize (host.decryptBlock decryption.key) (· ^^^ ·) decryption.register bytes
    .ok (plain, { decryption with register })

/-- The members of `CIAFile` that its writes use. A content file is what has been written to it.
SOURCE: am.h:123-153 -/
structure CIAFile where
  installState : CIAInstallState := .installStarted
  written : ℕ := 0
  container : CIAContainer
  data : List UInt8 := []
  contentWritten : List ℕ := []
  contentFiles : List (List UInt8) := []
  decryptionState : List CbcDecryption := []
  deriving DecidableEq

namespace CIAFile

/-- SOURCE: am.cpp:132-145 -/
def writeTicket (f : CIAFile) : Exec (Option InstallError × CIAFile) := do
  let (loadResult, container) ← f.container.loadTicket f.data f.container.getTicketOffset
  let f := { f with container }
  if loadResult ≠ .success then pure (some .invalidCIAHeader, f)
  else pure (none, { f with installState := .ticketLoaded })

/-- What follows in `WriteTitleMetadata` when the title metadata has been saved: the content files are
opened up to the first that cannot be.
SOURCE: am.cpp:187-224 -/
def openContents (f : CIAFile) (host : InstallHost) : Option InstallError × CIAFile :=
  let tmd := f.container.ciaTmd
  let contentCount := tmd.tmdChunks.length
  let f :=
    { f with
      contentWritten :=
        f.contentWritten.take contentCount ++
          List.replicate (contentCount - f.contentWritten.length) 0 }
  let opened := ((List.range contentCount).takeWhile (host.opensContent tmd)).length
  if opened < contentCount then
    (some .fileNotFound, { f with contentFiles := List.replicate (opened + 1) [] })
  else
    let f := { f with contentFiles := List.replicate contentCount [] }
    if tmd.hasEncryptedContent then
      match host.getTitleKey f.container.ciaTicket with
      | none => (some .fileNotFound, f)
      | some key =>
          (none,
            { f with
              decryptionState := tmd.tmdChunks.map fun chunk => { key, register := chunk.ctr }
              installState := .tmdLoaded })
    else (none, { f with installState := .tmdLoaded })

/-- SOURCE: am.cpp:147-224 -/
def writeTitleMetadata (f : CIAFile) (host : InstallHost) :
    Exec (Option InstallError × CIAFile) := do
  let (loadResult, container) ←
    f.container.loadTitleMetadata f.data f.container.getTitleMetadataOffset
  let f := { f with container }
  if loadResult ≠ .success then pure (some .invalidCIAHeader, f)
  else if !host.savesTmd f.container.ciaTmd then pure (some .fileNotFound, f)
  else pure (f.openContents host)

/-- A part of a content, decrypted if the content is encrypted. -/
def decryptContent (f : CIAFile) (host : InstallHost) (i : ℕ) (temp : List UInt8) :
    Exec (List UInt8 × List CbcDecryption) := do
  let chunk ← deref f.container.ciaTmd.tmdChunks[i]?
  if chunk.encrypted then do
    let decryption ← deref f.decryptionState[i]?
    let (plain, decryption) ← decryption.processData host temp
    pure (plain, f.decryptionState.set i decryption)
  else pure (temp, f.decryptionState)

/-- What a write brings of one content. A file that is opened again for each part of it is written to
at its end too.
SOURCE: am.cpp:231-275 -/
def writeContent (host : InstallHost) (offset : ℕ) (buffer : List UInt8) (f : CIAFile) (i : ℕ) :
    Exec CIAFile := do
  let offsetMax := u64 (offset + buffer.length)
  let contentWritten ← deref f.contentWritten[i]?
  let size ← f.container.getContentSize i
  if size ≤ contentWritten then pure f
  else do
    let start ← f.container.getContentOffset i
    let rangeMin := u64 (start + contentWritten)
    let rangeMax := u64 (start + size)
    if offsetMax < rangeMin ∨ rangeMax < offset then pure f
    else do
      let availableToWrite := u64Sub (min offsetMax rangeMax) rangeMin
      let temp ← readRun .undefined buffer (u64Sub rangeMin offset) availableToWrite
      let (plain, decryptionState) ← f.decryptContent host i temp
      pure
        { f with
          decryptionState
          contentFiles := f.contentFiles.modify i (· ++ plain)
          contentWritten := f.contentWritten.set i (u64 (contentWritten + availableToWrite)) }

/-- SOURCE: am.cpp:226-278 -/
def writeContentData (f : CIAFile) (host : InstallHost) (offset : ℕ) (buffer : List UInt8) :
    Exec CIAFile :=
  (List.range f.contentWritten.length).foldlM (writeContent host offset buffer) f

/-- What a write does before there is a header.
SOURCE: am.cpp:292-305 -/
def stageHeader (f : CIAFile) (offset : ℕ) (buffer : List UInt8) : Exec CIAFile := do
  let bufCopySize := min buffer.length ciaHeaderSize
  let bufMaxSize := min (u64 (offset + buffer.length)) ciaHeaderSize
  let copied ← readRun .undefined buffer 0 bufCopySize
  let data ← writeRun .undefined (resize f.data bufMaxSize) offset copied
  let f := { f with data }
  if f.written < ciaHeaderSize then pure f
  else do
    let (_, container) ← f.container.loadHeader f.data 0
    pure { f with container, installState := .headerLoaded }

/-- What is buffered of a write before the contents.
SOURCE: am.cpp:314-324 -/
def stageSections (f : CIAFile) (offset : ℕ) (buffer : List UInt8) : Exec CIAFile := do
  let contentOffset := f.container.getContentStart
  let bufLoaded := f.data.length
  let copyOffset := max offset bufLoaded
  let bufOffset := u64Sub bufLoaded offset
  let bufCopySize := u64Sub (min buffer.length (u64Sub contentOffset offset)) bufOffset
  let bufMaxSize := min (u64 (offset + buffer.length)) contentOffset
  let copied ← readRun .undefined buffer bufOffset bufCopySize
  let data ← writeRun .undefined (resize f.data bufMaxSize) copyOffset copied
  pure { f with data }

/-- The ticket and the title metadata, as soon as they are buffered.
SOURCE: am.cpp:328-338 -/
def writeSections (f : CIAFile) (host : InstallHost) : Exec (Option InstallError × CIAFile) := do
  if f.container.getContentStart ≤ f.written ∧ f.installState ≠ .tmdLoaded then do
    let (result, f) ← f.writeTicket
    if result ≠ none then pure (result, f)
    else f.writeTitleMetadata host
  else pure (none, f)

/-- `Write` behind the header.
SOURCE: am.cpp:312-352 -/
def writeBehindHeader (f : CIAFile) (host : InstallHost) (offset : ℕ) (buffer : List UInt8) :
    Exec (Except InstallError ℕ × CIAFile) := do
  let f ← (if offset < f.container.getContentStart then f.stageSections offset buffer else .ok f)
  let (result, f) ← f.writeSections host
  match result with
  | some error => pure (.error error, f)
  | none =>
      if f.installState ≠ .tmdLoaded then pure (.ok buffer.length, f)
      else do
        let f ← f.writeContentData host offset buffer
        pure (.ok buffer.length, f)

/-- `Write` of a buffer at an offset.
SOURCE: am.cpp:280-352 -/
def write (f : CIAFile) (host : InstallHost) (offset : ℕ) (buffer : List UInt8) :
    Exec (Except InstallError ℕ × CIAFile) := do
  let f := { f with written := u64 (f.written + buffer.length) }
  if f.installState ≠ .installStarted then f.writeBehindHeader host offset buffer
  else do
    let f ← f.stageHeader offset buffer
    if f.installState = .installStarted then pure (.ok buffer.length, f)
    else f.writeBehindHeader host offset buffer

/-- Consecutive writes, from an offset on: what each returns, and the file behind them. -/
def writeAll (host : InstallHost) : CIAFile → ℕ → List (List UInt8) →
    Exec (List (Except InstallError ℕ) × CIAFile)
  | f, _, [] => .ok ([], f)
  | f, offset, buffer :: buffers => do
      let (result, f) ← f.write host offset buffer
      let (results, f) ← writeAll host f (offset + buffer.length) buffers
      pure (result :: results, f)

end CIAFile

end Borked3DS.Model.Cia
