import Borked3DS.Model.CIAContainer
import Borked3DS.Model.CIAFile
import Borked3DS.Model.TitleFiles

/-!
# What CIA files promise

That the ways to load one agree, and what installing one leaves.
-/

set_option autoImplicit false

namespace Borked3DS.Interface

open Borked3DS.Library Borked3DS.Model Borked3DS.Model.Cia

/-!
## Loading a CIA from memory and from a file

What it means that the ways to load a CIA agree, and for which bytes they do: how far each section
reaches, against the size that the header declares for it.
-/

/-- Whatever a container holds before, the three ways to load some bytes into it read nothing outside
of them, return the same result and leave the same container. -/
def LoadsAgree (data : HostBytes) : Prop :=
  ∀ c : CIAContainer, ∃ r,
    c.loadSpan data.1 = .ok r ∧ c.loadBackend { bytes := data.1 } = .ok r ∧
      c.loadPath { bytes := data.1 } = .ok r

/-- The signature type at the head of a section. -/
def sectionType (bytes : List UInt8) : ℕ := bigEndianAt bytes 0 4

/-- Where the body ends of a ticket whose signature type is known. -/
def ticketEnd (bytes : List UInt8) : ℕ :=
  if getSignatureSize (sectionType bytes) = 0 then 0
  else bodyStart (sectionType bytes) + ticketBodySize

/-- Where the body ends of title metadata whose signature type is known. -/
def tmdBodyEnd (bytes : List UInt8) : ℕ :=
  if getSignatureSize (sectionType bytes) = 0 then 0
  else bodyStart (sectionType bytes) + tmdBodySize

/-- The number of chunks that the body of title metadata declares. -/
def declaredChunks (bytes : List UInt8) : ℕ :=
  TitleMetadata.contentCount ((bytes.drop (bodyStart (sectionType bytes))).take tmdBodySize)

/-- Where the chunks end of title metadata whose signature type is known. -/
def tmdEnd (bytes : List UInt8) : ℕ :=
  if getSignatureSize (sectionType bytes) = 0 then 0
  else tmdBodyEnd bytes + declaredChunks bytes * contentChunkSize

/-- There is a whole ticket at the head of some bytes. -/
def HoldsTicket (bytes : List UInt8) : Prop :=
  4 ≤ bytes.length ∧ getSignatureSize (sectionType bytes) ≠ 0 ∧ ticketEnd bytes ≤ bytes.length

/-- There is whole title metadata at the head of some bytes. -/
def HoldsTmd (bytes : List UInt8) : Prop :=
  4 ≤ bytes.length ∧ getSignatureSize (sectionType bytes) ≠ 0 ∧ tmdEnd bytes ≤ bytes.length

/-- The declared size covers a signature type and not more than there is; and if there is a whole
ticket, it covers it. Nothing is asked where there is no signature type. -/
def TicketFits (bytes : List UInt8) (size : ℕ) : Prop :=
  bytes.length < 4 ∨
    4 ≤ size ∧ size ≤ bytes.length ∧ (bytes.length < ticketEnd bytes ∨ ticketEnd bytes ≤ size)

/-- The declared size covers a signature type and not more than there is; if there is a whole body,
it covers it, and if there are all the chunks, it covers them. -/
def TmdFits (bytes : List UInt8) (size : ℕ) : Prop :=
  bytes.length < 4 ∨
    4 ≤ size ∧ size ≤ bytes.length ∧
      (bytes.length < tmdBodyEnd bytes ∨
        tmdBodyEnd bytes ≤ size ∧ (bytes.length < tmdEnd bytes ∨ tmdEnd bytes ≤ size))

/-- There is no metadata section, or it lies in the bytes and is cut off there, or where the file is
read for it stands what the bytes start with. An offset that is negative as an `s64` leaves the file
behind the title metadata. -/
def MetaSectionFits (c : CIAContainer) (bytes : List UInt8) : Prop :=
  c.ciaHeader.metaSize = 0 ∨
    (c.getMetadataOffset ≤ bytes.length ∧
      bytes.length < c.getMetadataOffset + ciaMetadataSize) ∨
    let place :=
      if c.getMetadataOffset < 2 ^ 63 then c.getMetadataOffset
      else c.getTitleMetadataOffset + c.ciaHeader.tmdSize
    place + ciaMetadataSize ≤ bytes.length ∧
      (bytes.drop place).take ciaMetadataSize = bytes.take ciaMetadataSize

/-- Sections behind a header, one after the other as far as they load. -/
def SectionsFit (c : CIAContainer) (bytes : List UInt8) : Prop :=
  c.getTicketOffset ≤ bytes.length ∧
    TicketFits (bytes.drop c.getTicketOffset) c.ciaHeader.tikSize ∧
    (HoldsTicket (bytes.drop c.getTicketOffset) →
      c.getTitleMetadataOffset ≤ bytes.length ∧
        TmdFits (bytes.drop c.getTitleMetadataOffset) c.ciaHeader.tmdSize ∧
        (HoldsTmd (bytes.drop c.getTitleMetadataOffset) → MetaSectionFits c bytes))

/-- A container with nothing but the header that stands at the head of some bytes. -/
def headerOnly (bytes : List UInt8) : CIAContainer where
  ciaHeader := Header.ofBytes (bytes.take ciaHeaderSize)
  ciaMetadata := []
  ciaTicket := { ticketBody := [], signatureType := 2 ^ 32, ticketSignature := [] }
  ciaTmd := { tmdBody := [], signatureType := 2 ^ 32, tmdSignature := [], tmdChunks := [] }

/-- There is no header, or the sections behind it fit. -/
def CIAFits (bytes : List UInt8) : Prop :=
  bytes.length < ciaHeaderSize ∨ SectionsFit (headerOnly bytes) bytes

/-!
## What the installation of a CIA leaves

The contents of a CIA as its header and title metadata lay them out, and the state that the
installation should be in when a number of its bytes have been written, however they were cut.
-/

section Contents

variable (c : CIAContainer)

def contentCount : ℕ := c.ciaTmd.tmdChunks.length

/-- The size of a content. A content that is not there has none. -/
def contentSize (i : ℕ) : ℕ :=
  match c.getContentSize i with
  | .ok size => size
  | .error _ => 0

/-- Where a content starts: behind those before it. -/
def contentStart (i : ℕ) : ℕ :=
  c.getContentStart + ((List.range i).map (contentSize c)).sum

def isEncrypted (i : ℕ) : Bool := (c.ciaTmd.tmdChunks[i]?).any ContentChunk.encrypted

/-- The bytes of a content in a CIA. -/
def contentSlice (bytes : List UInt8) (i : ℕ) : List UInt8 :=
  (bytes.drop (contentStart c i)).take (contentSize c i)

end Contents

section Decryption

variable (host : InstallHost) (c : CIAContainer) (i : ℕ) (part : List UInt8)

/-- The cipher of a content before anything of it has been decrypted. -/
def contentCipher : CbcDecryption where
  key := (host.getTitleKey c.ciaTicket).getD []
  register := ((c.ciaTmd.tmdChunks[i]?).map ContentChunk.ctr).getD []

/-- A content up to some place, decrypted, and the cipher's register there. -/
def decrypted : List UInt8 × List UInt8 :=
  chain aesBlockSize (host.decryptBlock (contentCipher host c i).key) (· ^^^ ·)
    (contentCipher host c i).register part

/-- What a content file holds when its content has been written up to some place. -/
def installedPart : List UInt8 := if isEncrypted c i then (decrypted host c i part).1 else part

/-- The cipher of a content that has been written up to some place. -/
def cipherBehind : CbcDecryption :=
  if isEncrypted c i then
    { contentCipher host c i with register := (decrypted host c i part).2 }
  else contentCipher host c i

end Decryption

/-- The bytes are a CIA: they can be loaded from a file, into the container `c`, its contents are
behind the header and all there, and encrypted contents are whole blocks. -/
structure WellFormedCIA (fresh : CIAContainer) (bytes : List UInt8) (c : CIAContainer) : Prop where
  length : bytes.length < 2 ^ 63
  loads : fresh.loadBackend { bytes := bytes } = .ok (.success, c)
  behindHeader : ciaHeaderSize ≤ c.getContentStart
  contents : contentStart c (contentCount c) ≤ bytes.length
  blocks : ∀ i < contentCount c, isEncrypted c i → aesBlockSize ∣ contentSize c i

/-- The machine saves the title metadata of a CIA, opens its content files and has its title key if
that is needed. -/
structure HostInstalls (host : InstallHost) (c : CIAContainer) : Prop where
  savesTmd : host.savesTmd c.ciaTmd
  opensContents : ∀ i < contentCount c, host.opensContent c.ciaTmd i
  hasTitleKey : c.ciaTmd.hasEncryptedContent → (host.getTitleKey c.ciaTicket).isSome

/-- A place that does not cut a block of an encrypted content. -/
def BlockBoundary (c : CIAContainer) (n : ℕ) : Prop :=
  ∀ i < contentCount c, isEncrypted c i → contentStart c i < n →
    n < contentStart c i + contentSize c i → aesBlockSize ∣ n - contentStart c i

/-- No write starts inside the header and ends behind it, and each ends where no block is cut. -/
def WritesFit (c : CIAContainer) : ℕ → List (List UInt8) → Prop
  | _, [] => True
  | offset, buffer :: buffers =>
      (offset = 0 ∨ ciaHeaderSize ≤ offset ∨ offset + buffer.length ≤ ciaHeaderSize) ∧
        BlockBoundary c (offset + buffer.length) ∧ WritesFit c (offset + buffer.length) buffers

/-- How much of a content there is among the first `n` bytes. -/
def contentDone (c : CIAContainer) (n i : ℕ) : ℕ := min (n - contentStart c i) (contentSize c i)

/-- How far the installation gets with the first `n` bytes. -/
def installStateAfter (c : CIAContainer) (n : ℕ) : CIAInstallState :=
  if n < ciaHeaderSize then .installStarted
  else if n < c.getContentStart then .headerLoaded
  else .tmdLoaded

/-- The contents that the installation has taken from the first `n` bytes. -/
def partsAfter (c : CIAContainer) (bytes : List UInt8) (n i : ℕ) : List UInt8 :=
  (contentSlice c bytes i).take (contentDone c n i)

/-- The installation when the first `n` bytes of a CIA have been written. -/
def installedAfter (host : InstallHost) (fresh : CIAContainer) (bytes : List UInt8)
    (c : CIAContainer) (n : ℕ) : CIAFile :=
  if n < ciaHeaderSize then { written := n, container := fresh, data := bytes.take n }
  else if n < c.getContentStart then
    { installState := .headerLoaded
      written := n
      container := { fresh with ciaHeader := c.ciaHeader }
      data := bytes.take n }
  else
    { installState := .tmdLoaded
      written := n
      container := { c with ciaMetadata := fresh.ciaMetadata }
      data := bytes.take c.getContentStart
      contentWritten := (List.range (contentCount c)).map (contentDone c n)
      contentFiles :=
        (List.range (contentCount c)).map fun i => installedPart host c i (partsAfter c bytes n i)
      decryptionState :=
        if c.ciaTmd.hasEncryptedContent then
          (List.range (contentCount c)).map fun i => cipherBehind host c i (partsAfter c bytes n i)
        else [] }

/-- The bytes of each content as they should be installed. -/
def installedContents (host : InstallHost) (bytes : List UInt8) (c : CIAContainer) :
    List (List UInt8) :=
  (List.range (contentCount c)).map fun i => installedPart host c i (contentSlice c bytes i)

/-- Some writes install all the contents, and the installation ends with them written. -/
def InstallsWhole (host : InstallHost) (fresh : CIAContainer) (bytes : List UInt8)
    (c : CIAContainer) (buffers : List (List UInt8)) : Prop :=
  ∃ results f, CIAFile.writeAll host { container := fresh } 0 buffers = .ok (results, f) ∧
    f.contentFiles = installedContents host bytes c ∧ f.installState = .contentWritten

end Borked3DS.Interface

/-!
## What closing an update promises

When an installation that is complete replaces older title metadata, the contents that only the old
ones list are removed, and all others stay.
-/

namespace Borked3DS.Interface.Cia

open Borked3DS.Library Borked3DS.Model Borked3DS.Model.Cia

/-- A complete installation has put new title metadata beside the old ones of the title. -/
structure Replacing (f : CIAFile) (storage : Storage) (oldTmd newTmd : TitleMetadata) : Prop where
  complete : f.complete = .ok true
  apart : storage.getTitleMetadataPath f.container.ciaTmd.getTitleID false ≠
    storage.getTitleMetadataPath f.container.ciaTmd.getTitleID true
  old : storage.loadTmd (storage.getTitleMetadataPath f.container.ciaTmd.getTitleID false) =
    .ok (.success, oldTmd)
  new : storage.loadTmd (storage.getTitleMetadataPath f.container.ciaTmd.getTitleID true) =
    .ok (.success, newTmd)
  title : oldTmd.getTitleID = f.container.ciaTmd.getTitleID

/-- The path of a content that a title's metadata list. -/
def contentPath (tmd : TitleMetadata) (contentId : ℕ) : TitlePath :=
  { titleId := tmd.getTitleID, file := .app tmd.inFolder contentId }

/-- The new title metadata list a content. -/
def listed (tmd : TitleMetadata) (contentId : ℕ) : Bool :=
  tmd.tmdChunks.any fun chunk => contentId = chunk.id

/-- A content that only the old title metadata list. -/
def Stale (oldTmd newTmd : TitleMetadata) (contentId : ℕ) : Prop :=
  listed oldTmd contentId ∧ ¬ listed newTmd contentId

/-- A file is there, and does not go away with the program that runs. -/
def Stays (system : System) (storage : Storage) (path : TitlePath) : Prop :=
  storage.fileExists path ∧ ¬ (system.selfDeletePending ∧ system.filepath = some path)

/-- The stale contents go, and every other content stays as it was. -/
structure RemovesStale (oldTmd newTmd : TitleMetadata) (system system' : System)
    (storage storage' : Storage) : Prop where
  removed : ∀ contentId, Stale oldTmd newTmd contentId →
    ¬ Stays system' storage' (contentPath oldTmd contentId)
  kept : ∀ titleId inFolder contentId,
    (Stale oldTmd newTmd contentId → ⟨titleId, .app inFolder contentId⟩ ≠
      contentPath oldTmd contentId) →
    storage'.read ⟨titleId, .app inFolder contentId⟩ =
        storage.read ⟨titleId, .app inFolder contentId⟩ ∧
      (Stays system' storage' ⟨titleId, .app inFolder contentId⟩ ↔
        Stays system storage ⟨titleId, .app inFolder contentId⟩)

/-- The contents in front of the first that the new title metadata list as well. -/
def inFront (oldTmd newTmd : TitleMetadata) : List ContentChunk :=
  oldTmd.tmdChunks.takeWhile fun chunk => !listed newTmd chunk.id

/-- Every stale content is listed in front of the first content that both list, or has no file. -/
def StaleInFront (oldTmd newTmd : TitleMetadata) (system : System) (storage : Storage) : Prop :=
  ∀ contentId, Stale oldTmd newTmd contentId →
    contentId ∈ (inFront oldTmd newTmd).map ContentChunk.id ∨
      ¬ Stays system storage (contentPath oldTmd contentId)

end Borked3DS.Interface.Cia
