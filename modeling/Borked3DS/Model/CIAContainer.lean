import Borked3DS.Model.LayeredFS
import Borked3DS.Model.Words

/-!
# CIA containers

`cia_container.cpp` with the parts that it loads, `ticket.cpp` and `title_metadata.cpp`. A packed
structure is the bytes that are copied into it, with a function for each field that is read.
-/

set_option autoImplicit false

namespace Borked3DS.Model.Cia

open Borked3DS.Library
open Borked3DS.Model.LayeredFS (alignUp)

/-- Bytes as a buffer or a host file can hold them. -/
def HostBytes : Type := { bytes : List UInt8 // bytes.length < 2 ^ 63 }

/-- The results of the loaders. -/
inductive ResultStatus
  | success | error | errorInvalidFormat
  deriving DecidableEq, Repr

/-- The field of `width` bytes at `offset`, lowest byte first. -/
def littleEndianAt (bytes : List UInt8) (offset width : ℕ) : ℕ :=
  ofLittleEndian ((bytes.drop offset).take width)

/-- The field of `width` bytes at `offset`, highest byte first. -/
def bigEndianAt (bytes : List UInt8) (offset width : ℕ) : ℕ :=
  ofLittleEndian ((bytes.drop offset).take width).reverse

/-- SOURCE: cia_common.h:12-43 -/
def getSignatureSize (signatureType : ℕ) : ℕ :=
  if signatureType = 0x10000 ∨ signatureType = 0x10003 then 0x200
  else if signatureType = 0x10001 ∨ signatureType = 0x10004 then 0x100
  else if signatureType = 0x10002 ∨ signatureType = 0x10005 then 0x3C
  else 0

/-- Where the body behind a signature starts. -/
def bodyStart (signatureType : ℕ) : ℕ := alignUp 64 (getSignatureSize signatureType + 4) 0x40

def ticketBodySize : ℕ := 0x210

/-- SOURCE: ticket.h:22-64 -/
structure Ticket where
  ticketBody : List UInt8
  signatureType : ℕ
  ticketSignature : List UInt8
  deriving DecidableEq

/-- SOURCE: ticket.cpp:17-43 -/
def Ticket.load (t : Ticket) (fileData : List UInt8) (offset : ℕ) : Exec (ResultStatus × Ticket) :=
  let totalSize := u64Sub fileData.length offset
  if totalSize < 4 then .ok (.error, t)
  else do
    let type ← readRun .undefined fileData offset 4
    let t := { t with signatureType := bigEndianAt type 0 4 }
    let signatureSize := getSignatureSize t.signatureType
    if signatureSize = 0 then pure (.error, t)
    else
      let bodyEnd := bodyStart t.signatureType + ticketBodySize
      if totalSize < bodyEnd then pure (.error, t)
      else do
        let signature ← readRun .undefined fileData (offset + 4) signatureSize
        let body ← readRun .undefined fileData (offset + bodyStart t.signatureType) ticketBodySize
        pure (.success, { t with ticketSignature := signature, ticketBody := body })

def tmdBodySize : ℕ := 0x9C4

def contentChunkSize : ℕ := 0x30

/-- SOURCE: title_metadata.h:39-45 -/
structure ContentChunk where
  id : ℕ
  index : ℕ
  type : ℕ
  size : ℕ
  hash : List UInt8
  deriving DecidableEq

/-- A chunk that bytes are copied into. -/
def ContentChunk.ofBytes (bytes : List UInt8) : ContentChunk where
  id := bigEndianAt bytes 0 4
  index := bigEndianAt bytes 4 2
  type := bigEndianAt bytes 6 2
  size := bigEndianAt bytes 8 8
  hash := bytes.drop 0x10

/-- SOURCE: title_metadata.h:37-122 -/
structure TitleMetadata where
  tmdBody : List UInt8
  signatureType : ℕ
  tmdSignature : List UInt8
  tmdChunks : List ContentChunk
  deriving DecidableEq

/-- `TMDContentTypeFlag::Encrypted` in the type.
SOURCE: title_metadata.h:21-27 -/
def ContentChunk.encrypted (chunk : ContentChunk) : Bool := chunk.type.testBit 0

/-- The counter that a content is decrypted from: its index as it stands in the chunk, and zeros.
SOURCE: title_metadata.cpp:179-183 -/
def ContentChunk.ctr (chunk : ContentChunk) : List UInt8 :=
  [UInt8.ofNat (chunk.index / 256), UInt8.ofNat chunk.index] ++ List.replicate 14 0

namespace TitleMetadata

/-- SOURCE: title_metadata.cpp:185-189 -/
def hasEncryptedContent (tmd : TitleMetadata) : Bool :=
  tmd.tmdChunks.any ContentChunk.encrypted

/-- `content_count` of a body. -/
def contentCount (tmdBody : List UInt8) : ℕ := bigEndianAt tmdBody 0x9E 2

/-- The loop over the chunks. -/
def loadChunks (fileData : List UInt8) : ℕ → ℕ → Exec (List ContentChunk)
  | _, 0 => .ok []
  | offset, count + 1 => do
      let chunk ← readRun .undefined fileData offset contentChunkSize
      let chunks ← loadChunks fileData (offset + contentChunkSize) count
      pure (ContentChunk.ofBytes chunk :: chunks)

/-- SOURCE: title_metadata.cpp:33-77 -/
def load (tmd : TitleMetadata) (fileData : List UInt8) (offset : ℕ) :
    Exec (ResultStatus × TitleMetadata) :=
  let totalSize := u64Sub fileData.length offset
  if totalSize < 4 then .ok (.error, tmd)
  else do
    let type ← readRun .undefined fileData offset 4
    let tmd := { tmd with signatureType := bigEndianAt type 0 4 }
    let signatureSize := getSignatureSize tmd.signatureType
    if signatureSize = 0 then pure (.error, tmd)
    else
      let bodyEnd := bodyStart tmd.signatureType + tmdBodySize
      if totalSize < bodyEnd then pure (.error, tmd)
      else do
        let signature ← readRun .undefined fileData (offset + 4) signatureSize
        let body ← readRun .undefined fileData (offset + bodyStart tmd.signatureType) tmdBodySize
        let tmd := { tmd with tmdSignature := signature, tmdBody := body }
        let expectedSize := bodyEnd + contentCount tmd.tmdBody * contentChunkSize
        if totalSize < expectedSize then pure (.errorInvalidFormat, tmd)
        else do
          let chunks ← loadChunks fileData (offset + bodyEnd) (contentCount tmd.tmdBody)
          pure (.success, { tmd with tmdChunks := tmd.tmdChunks ++ chunks })

end TitleMetadata

def ciaHeaderSize : ℕ := 0x2020

def ciaMetadataSize : ℕ := 0x400

def ciaSectionAlignment : ℕ := 0x40

/-- SOURCE: cia_container.h:85-112 -/
structure Header where
  headerSize : ℕ
  type : ℕ
  version : ℕ
  certSize : ℕ
  tikSize : ℕ
  tmdSize : ℕ
  metaSize : ℕ
  contentSize : ℕ
  contentPresent : List UInt8
  deriving DecidableEq

/-- A header that bytes are copied into. -/
def Header.ofBytes (bytes : List UInt8) : Header where
  headerSize := littleEndianAt bytes 0 4
  type := littleEndianAt bytes 4 2
  version := littleEndianAt bytes 6 2
  certSize := littleEndianAt bytes 8 4
  tikSize := littleEndianAt bytes 0xC 4
  tmdSize := littleEndianAt bytes 0x10 4
  metaSize := littleEndianAt bytes 0x14 4
  contentSize := littleEndianAt bytes 0x18 8
  contentPresent := bytes.drop 0x20

/-- SOURCE: cia_container.h:87-92 -/
def Header.isContentPresent (h : Header) (index : ℕ) : Exec Bool := do
  let bits ← deref h.contentPresent[index / 8]?
  pure (bits.toNat.testBit (7 - index % 8))

/-- SOURCE: cia_container.h:38-132 -/
structure CIAContainer where
  ciaHeader : Header
  ciaMetadata : List UInt8
  ciaTicket : Ticket
  ciaTmd : TitleMetadata
  deriving DecidableEq

namespace CIAContainer

section Offsets

variable (c : CIAContainer)

/-- SOURCE: cia_container.cpp:182-184 -/
def getCertificateOffset : ℕ := alignUp 32 c.ciaHeader.headerSize ciaSectionAlignment

/-- SOURCE: cia_container.cpp:186-188 -/
def getTicketOffset : ℕ :=
  alignUp 64 (u64 (c.getCertificateOffset + c.ciaHeader.certSize)) ciaSectionAlignment

/-- SOURCE: cia_container.cpp:190-192 -/
def getTitleMetadataOffset : ℕ :=
  alignUp 64 (u64 (c.getTicketOffset + c.ciaHeader.tikSize)) ciaSectionAlignment

/-- `GetContentOffset` of the first content. -/
def getContentStart : ℕ :=
  alignUp 64 (u64 (c.getTitleMetadataOffset + c.ciaHeader.tmdSize)) ciaSectionAlignment

/-- SOURCE: cia_container.cpp:194-201 -/
def getMetadataOffset : ℕ :=
  alignUp 64 (u64 (c.getContentStart + c.ciaHeader.contentSize)) ciaSectionAlignment

end Offsets

section Contents

variable (c : CIAContainer)

/-- SOURCE: cia_container.cpp:232-239 -/
def getContentSize (index : ℕ) : Exec ℕ := do
  let present ← c.ciaHeader.isContentPresent index
  if !present then pure 0
  else do
    let chunk ← deref c.ciaTmd.tmdChunks[index]?
    pure chunk.size

/-- SOURCE: cia_container.cpp:203-210 -/
def getContentOffset : ℕ → Exec ℕ
  | 0 => .ok c.getContentStart
  | index + 1 => do
      let offset ← getContentOffset index
      let size ← c.getContentSize index
      pure (u64 (offset + size))

end Contents

/-- SOURCE: cia_container.cpp:141-149 -/
def loadHeader (c : CIAContainer) (headerData : List UInt8) (offset : ℕ) :
    Exec (ResultStatus × CIAContainer) :=
  if u64Sub headerData.length offset < ciaHeaderSize then .ok (.error, c)
  else do
    let header ← readRun .undefined headerData 0 ciaHeaderSize
    pure (.success, { c with ciaHeader := Header.ofBytes header })

/-- SOURCE: cia_container.cpp:151-153 -/
def loadTicket (c : CIAContainer) (ticketData : List UInt8) (offset : ℕ) :
    Exec (ResultStatus × CIAContainer) := do
  let (status, ticket) ← c.ciaTicket.load ticketData offset
  pure (status, { c with ciaTicket := ticket })

/-- SOURCE: cia_container.cpp:155-158 -/
def loadTitleMetadata (c : CIAContainer) (tmdData : List UInt8) (offset : ℕ) :
    Exec (ResultStatus × CIAContainer) := do
  let (status, tmd) ← c.ciaTmd.load tmdData offset
  pure (status, { c with ciaTmd := tmd })

/-- SOURCE: cia_container.cpp:160-168 -/
def loadMetadata (c : CIAContainer) (metaData : List UInt8) (offset : ℕ) :
    Exec (ResultStatus × CIAContainer) :=
  if u64Sub metaData.length offset < ciaMetadataSize then .ok (.error, c)
  else do
    let metadata ← readRun .undefined metaData 0 ciaMetadataSize
    pure (.success, { c with ciaMetadata := metadata })

/-- Loading goes on where the part before has been loaded. -/
def andThen (x : Exec (ResultStatus × CIAContainer))
    (next : CIAContainer → Exec (ResultStatus × CIAContainer)) :
    Exec (ResultStatus × CIAContainer) := do
  let (result, c) ← x
  if result ≠ .success then pure (result, c) else next c

/-- `Load` of a span.
SOURCE: cia_container.cpp:112-139 -/
def loadSpan (c : CIAContainer) (fileData : List UInt8) : Exec (ResultStatus × CIAContainer) :=
  andThen (c.loadHeader fileData 0) fun c =>
  andThen (c.loadTicket fileData c.getTicketOffset) fun c =>
  andThen (c.loadTitleMetadata fileData c.getTitleMetadataOffset) fun c =>
  if c.ciaHeader.metaSize ≠ 0 then c.loadMetadata fileData c.getMetadataOffset
  else .ok (.success, c)

end CIAContainer

/-- A host file that is open for reading, and the position in it. -/
structure IOFile where
  bytes : List UInt8
  position : ℕ := 0

namespace IOFile

/-- `Seek` to an offset from the start. It fails where the offset is negative as an `s64`, and leaves
the position then. -/
def seek (file : IOFile) (offset : ℕ) : IOFile :=
  if offset < 2 ^ 63 then { file with position := offset } else file

/-- `ReadBytes`: the bytes read, fewer than asked for at the end of the file. -/
def readBytes (file : IOFile) (length : ℕ) : List UInt8 × IOFile :=
  let bytes := (file.bytes.drop file.position).take length
  (bytes, { file with position := file.position + bytes.length })

/-- `DiskFile::Read` of a file that may be read.
SOURCE: disk_archive.cpp:20-27 -/
def readAt (file : IOFile) (offset length : ℕ) : List UInt8 × IOFile :=
  (file.seek offset).readBytes length

end IOFile

namespace CIAContainer

/-- A part is read into a buffer of its size and loaded from there. -/
def loadPart (c : CIAContainer) (read : List UInt8 × IOFile) (size : ℕ)
    (load : CIAContainer → List UInt8 → ℕ → Exec (ResultStatus × CIAContainer))
    (next : CIAContainer → IOFile → Exec (ResultStatus × CIAContainer)) :
    Exec (ResultStatus × CIAContainer) :=
  if read.1.length ≠ size then .ok (.error, c)
  else andThen (load c read.1 0) fun c => next c read.2

/-- What both loads from a file do behind the header.
SOURCE: cia_container.cpp:28-60, 77-109 -/
def loadSections (c : CIAContainer) (file : IOFile) : Exec (ResultStatus × CIAContainer) :=
  c.loadPart (file.readAt c.getTicketOffset c.ciaHeader.tikSize) c.ciaHeader.tikSize
    loadTicket fun c file =>
  c.loadPart (file.readAt c.getTitleMetadataOffset c.ciaHeader.tmdSize) c.ciaHeader.tmdSize
    loadTitleMetadata fun c file =>
  if c.ciaHeader.metaSize ≠ 0 then
    c.loadPart (file.readAt c.getMetadataOffset ciaMetadataSize) ciaMetadataSize
      loadMetadata fun c _ => .ok (.success, c)
  else .ok (.success, c)

/-- `Load` of a file backend.
SOURCE: cia_container.cpp:16-61 -/
def loadBackend (c : CIAContainer) (backend : IOFile) : Exec (ResultStatus × CIAContainer) :=
  c.loadPart (backend.readAt 0 ciaHeaderSize) ciaHeaderSize loadHeader loadSections

/-- `Load` of a path, with the file that it opens.
SOURCE: cia_container.cpp:63-110 -/
def loadPath (c : CIAContainer) (file : IOFile) : Exec (ResultStatus × CIAContainer) :=
  c.loadPart (file.readBytes ciaHeaderSize) ciaHeaderSize loadHeader loadSections

end CIAContainer

end Borked3DS.Model.Cia
