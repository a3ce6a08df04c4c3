import Borked3DS.Analysis.CIALoading

/-!
# The paths that load a CIA

From memory and from a file the sections are loaded one after the other, as long as they load. Both
paths are taken apart at the same places. Where they agree on a container whose ticket and title
metadata no bytes can leave behind, every section fits; and where every section fits, they agree.
-/

set_option autoImplicit false

namespace Borked3DS.Analysis

open Borked3DS.Library Borked3DS.Model Borked3DS.Model.Cia Borked3DS.Interface
open Borked3DS.Model.Cia.CIAContainer (andThen loadPart)
open Borked3DS.Model.LayeredFS (alignUp)

section Offsets

theorem alignUp_le (bits value size : ℕ) : alignUp bits value size ≤ value + size := by
  unfold alignUp
  split
  · exact Nat.le_add_right _ _
  · calc (value - value % size + size) % 2 ^ bits ≤ value - value % size + size := Nat.mod_le _ _
      _ ≤ value + size := Nat.add_le_add_right (Nat.sub_le _ _) _

theorem alignUp_u64_lt (value size : ℕ) : alignUp 64 (u64 value) size < 2 ^ 64 := by
  unfold alignUp
  split
  · exact u64_lt _
  · exact Nat.mod_lt _ (by decide)

theorem u64_le (x : ℕ) : u64 x ≤ x := Nat.mod_le _ _

theorem littleEndianAt_lt (bytes : List UInt8) (offset width : ℕ) :
    littleEndianAt bytes offset width < 256 ^ width :=
  calc littleEndianAt bytes offset width < 256 ^ ((bytes.drop offset).take width).length :=
        ofLittleEndian_lt _
    _ ≤ 256 ^ width := Nat.pow_le_pow_right (by decide) (List.length_take_le _ _)

/-- The sections before the contents are where a file can be read. -/
structure NearSections (c : CIAContainer) : Prop where
  ticket : c.getTicketOffset < 2 ^ 63
  tmd : c.getTitleMetadataOffset + c.ciaHeader.tmdSize < 2 ^ 63

theorem nearSections_of_header {c : CIAContainer} {bytes : List UInt8}
    (h : c.ciaHeader = Header.ofBytes bytes) : NearSections c := by
  have hheader : c.ciaHeader.headerSize < 256 ^ 4 := by
    rw [h]
    exact littleEndianAt_lt _ _ _
  have hcert : c.ciaHeader.certSize < 256 ^ 4 := by
    rw [h]
    exact littleEndianAt_lt _ _ _
  have htik : c.ciaHeader.tikSize < 256 ^ 4 := by
    rw [h]
    exact littleEndianAt_lt _ _ _
  have htmd : c.ciaHeader.tmdSize < 256 ^ 4 := by
    rw [h]
    exact littleEndianAt_lt _ _ _
  have hcertificate : c.getCertificateOffset ≤ c.ciaHeader.headerSize + 0x40 := alignUp_le _ _ _
  have hticket : c.getTicketOffset ≤ c.getCertificateOffset + c.ciaHeader.certSize + 0x40 :=
    (alignUp_le _ _ _).trans (Nat.add_le_add_right (u64_le _) _)
  have htitle : c.getTitleMetadataOffset ≤ c.getTicketOffset + c.ciaHeader.tikSize + 0x40 :=
    (alignUp_le _ _ _).trans (Nat.add_le_add_right (u64_le _) _)
  constructor <;> omega

/-- Where the sections are depends on the header only. -/
theorem metaSectionFits_congr {c d : CIAContainer} {bytes : List UInt8}
    (h : c.ciaHeader = d.ciaHeader) : MetaSectionFits c bytes ↔ MetaSectionFits d bytes := by
  rcases c with ⟨header, _, _, _⟩
  rcases d with ⟨header', _, _, _⟩
  obtain rfl : header = header' := h
  exact Iff.rfl

theorem sectionsFit_congr {c d : CIAContainer} {bytes : List UInt8}
    (h : c.ciaHeader = d.ciaHeader) : SectionsFit c bytes ↔ SectionsFit d bytes := by
  rcases c with ⟨header, _, _, _⟩
  rcases d with ⟨header', _, _, _⟩
  obtain rfl : header = header' := h
  exact Iff.rfl

end Offsets

section Stages

variable {c : CIAContainer} {bytes : List UInt8} {file : IOFile}

theorem andThen_stop {next : CIAContainer → Exec (ResultStatus × CIAContainer)}
    {s : ResultStatus × CIAContainer} (hs : s.1 ≠ .success) : andThen (.ok s) next = .ok s := by
  rcases s with ⟨status, d⟩
  unfold andThen
  rw [ok_bind]
  exact if_pos hs

theorem andThen_go {next : CIAContainer → Exec (ResultStatus × CIAContainer)}
    {s : ResultStatus × CIAContainer} (hs : s.1 = .success) : andThen (.ok s) next = next s.2 := by
  rcases s with ⟨status, d⟩
  unfold andThen
  rw [ok_bind]
  exact if_neg (not_not_intro hs)

theorem andThen_ok {x : Exec (ResultStatus × CIAContainer)}
    {next : CIAContainer → Exec (ResultStatus × CIAContainer)} {r : ResultStatus × CIAContainer}
    (h : andThen x next = .ok r) :
    ∃ s, x = .ok s ∧ (s.1 ≠ .success ∧ r = s ∨ s.1 = .success ∧ next s.2 = .ok r) := by
  obtain ⟨s, rfl, -⟩ := bind_eq_ok.mp h
  refine ⟨s, rfl, ?_⟩
  by_cases hs : s.1 = .success
  · rw [andThen_go hs] at h
    exact .inr ⟨hs, h⟩
  · rw [andThen_stop hs] at h
    exact .inl ⟨hs, (Except.ok.inj h).symm⟩

/-- The container with the ticket loaded from some bytes. -/
def afterTicket (c : CIAContainer) (bytes : List UInt8) : ResultStatus × CIAContainer :=
  ((ticketOutcome c.ciaTicket bytes).1, { c with ciaTicket := (ticketOutcome c.ciaTicket bytes).2 })

/-- The container with the title metadata loaded from some bytes. -/
def afterTmd (c : CIAContainer) (bytes : List UInt8) : ResultStatus × CIAContainer :=
  ((tmdOutcome c.ciaTmd bytes).1, { c with ciaTmd := (tmdOutcome c.ciaTmd bytes).2 })

theorem loadTicket_eq {offset : ℕ} (hlength : bytes.length < 2 ^ 63)
    (hoffset : offset ≤ bytes.length) :
    c.loadTicket bytes offset = .ok (afterTicket c (bytes.drop offset)) := by
  unfold CIAContainer.loadTicket
  rw [ticketLoad_eq _ hlength hoffset]
  rfl

theorem loadTicket_ok {offset : ℕ} {r : ResultStatus × CIAContainer}
    (hlt : offset < 2 ^ 63) (h : c.loadTicket bytes offset = .ok r) : offset ≤ bytes.length := by
  by_contra hoffset
  unfold CIAContainer.loadTicket at h
  rw [ticketLoad_outside _ (by omega) hlt, error_bind] at h
  cases h

theorem loadTitleMetadata_eq {offset : ℕ} (hlength : bytes.length < 2 ^ 63)
    (hoffset : offset ≤ bytes.length) :
    c.loadTitleMetadata bytes offset = .ok (afterTmd c (bytes.drop offset)) := by
  unfold CIAContainer.loadTitleMetadata
  rw [tmdLoad_eq _ hlength hoffset]
  rfl

theorem loadTitleMetadata_ok {offset : ℕ} {r : ResultStatus × CIAContainer}
    (hlt : offset < 2 ^ 63) (h : c.loadTitleMetadata bytes offset = .ok r) :
    offset ≤ bytes.length := by
  by_contra hoffset
  unfold CIAContainer.loadTitleMetadata at h
  rw [tmdLoad_outside _ (by omega) hlt, error_bind] at h
  cases h

/-- Where a file is read for an offset. -/
def readPlace (file : IOFile) (offset : ℕ) : ℕ :=
  if offset < 2 ^ 63 then offset else file.position

theorem readPlace_of_lt {offset : ℕ} (h : offset < 2 ^ 63) : readPlace file offset = offset :=
  if_pos h

theorem seek_eq (file : IOFile) (offset : ℕ) :
    file.seek offset = { file with position := readPlace file offset } := by
  unfold IOFile.seek readPlace
  split <;> rfl

theorem loadPart_readAt {offset size : ℕ}
    {load : CIAContainer → List UInt8 → ℕ → Exec (ResultStatus × CIAContainer)}
    {next : CIAContainer → IOFile → Exec (ResultStatus × CIAContainer)} :
    c.loadPart (file.readAt offset size) size load next =
      if (file.bytes.drop (readPlace file offset)).length < size then .ok (.error, c)
      else andThen (load c ((file.bytes.drop (readPlace file offset)).take size) 0) fun d =>
        next d { file with position := readPlace file offset + size } := by
  unfold loadPart IOFile.readAt
  rw [seek_eq]
  unfold IOFile.readBytes
  dsimp only
  rw [List.length_take]
  by_cases hshort : (file.bytes.drop (readPlace file offset)).length < size
  · rw [if_pos hshort, if_pos (by omega)]
  · rw [if_neg hshort, if_neg (by omega), Nat.min_eq_left (by omega)]

/-- Behind the title metadata of a span. -/
def metadataSpan (c : CIAContainer) (bytes : List UInt8) : Exec (ResultStatus × CIAContainer) :=
  if c.ciaHeader.metaSize ≠ 0 then c.loadMetadata bytes c.getMetadataOffset
  else .ok (.success, c)

/-- Behind the ticket of a span. -/
def tmdSpan (c : CIAContainer) (bytes : List UInt8) : Exec (ResultStatus × CIAContainer) :=
  andThen (c.loadTitleMetadata bytes c.getTitleMetadataOffset) fun c => metadataSpan c bytes

/-- Behind the header of a span. -/
def ticketSpan (c : CIAContainer) (bytes : List UInt8) : Exec (ResultStatus × CIAContainer) :=
  andThen (c.loadTicket bytes c.getTicketOffset) fun c => tmdSpan c bytes

/-- Behind the title metadata of a file. -/
def metadataFile (c : CIAContainer) (file : IOFile) : Exec (ResultStatus × CIAContainer) :=
  if c.ciaHeader.metaSize ≠ 0 then
    c.loadPart (file.readAt c.getMetadataOffset ciaMetadataSize) ciaMetadataSize
      CIAContainer.loadMetadata fun c _ => .ok (.success, c)
  else .ok (.success, c)

/-- Behind the ticket of a file. -/
def tmdFile (c : CIAContainer) (file : IOFile) : Exec (ResultStatus × CIAContainer) :=
  c.loadPart (file.readAt c.getTitleMetadataOffset c.ciaHeader.tmdSize) c.ciaHeader.tmdSize
    CIAContainer.loadTitleMetadata metadataFile

theorem loadSections_eq : c.loadSections file =
    c.loadPart (file.readAt c.getTicketOffset c.ciaHeader.tikSize) c.ciaHeader.tikSize
      CIAContainer.loadTicket tmdFile := rfl

end Stages

section Agreement

variable {c : CIAContainer} {bytes : List UInt8} {file : IOFile}

/-- From memory the metadata is what the bytes start with, wherever it should be. -/
theorem metadataSpan_eq (hlong : ciaHeaderSize ≤ bytes.length) (hlength : bytes.length < 2 ^ 63)
    (hmeta : c.ciaHeader.metaSize ≠ 0) :
    metadataSpan c bytes =
      if c.getMetadataOffset ≤ bytes.length ∧ bytes.length < c.getMetadataOffset + ciaMetadataSize
      then .ok (.error, c)
      else .ok (.success, { c with ciaMetadata := bytes.take ciaMetadataSize }) := by
  have hlt : c.getMetadataOffset < 2 ^ 64 := alignUp_u64_lt _ _
  have hsmall : u64Sub bytes.length c.getMetadataOffset < ciaMetadataSize ↔
      c.getMetadataOffset ≤ bytes.length ∧
        bytes.length < c.getMetadataOffset + ciaMetadataSize := by
    rcases Nat.lt_or_ge bytes.length c.getMetadataOffset with h | h
    · rw [u64Sub_of_lt h]
      unfold ciaHeaderSize at hlong
      unfold ciaMetadataSize
      omega
    · rw [u64Sub_of_le h (by omega)]
      omega
  have hread : readRun Fault.undefined bytes 0 ciaMetadataSize =
      .ok (bytes.take ciaMetadataSize) := by
    unfold readRun
    rw [if_pos (by unfold ciaHeaderSize at hlong; unfold ciaMetadataSize; omega), List.drop_zero]
  unfold metadataSpan CIAContainer.loadMetadata
  rw [if_pos hmeta, hread, ok_bind]
  by_cases h : u64Sub bytes.length c.getMetadataOffset < ciaMetadataSize
  · rw [if_pos h, if_pos (hsmall.mp h)]
  · rw [if_neg h, if_neg fun h' => h (hsmall.mpr h')]
    rfl

theorem metadataFile_eq (hmeta : c.ciaHeader.metaSize ≠ 0) :
    metadataFile c file =
      if file.bytes.length < readPlace file c.getMetadataOffset + ciaMetadataSize
      then .ok (.error, c)
      else .ok (.success,
        { c with
          ciaMetadata :=
            (file.bytes.drop (readPlace file c.getMetadataOffset)).take ciaMetadataSize }) := by
  have hpositive : 0 < ciaMetadataSize := by decide
  unfold metadataFile
  rw [if_pos hmeta, loadPart_readAt, List.length_drop]
  by_cases h : file.bytes.length < readPlace file c.getMetadataOffset + ciaMetadataSize
  · rw [if_pos h, if_pos (by omega)]
  · have hwhole : ((file.bytes.drop (readPlace file c.getMetadataOffset)).take
        ciaMetadataSize).length = ciaMetadataSize := by
      rw [List.length_take, List.length_drop]
      omega
    have hload : c.loadMetadata
        ((file.bytes.drop (readPlace file c.getMetadataOffset)).take ciaMetadataSize) 0 =
        .ok (.success,
          { c with
            ciaMetadata :=
              (file.bytes.drop (readPlace file c.getMetadataOffset)).take ciaMetadataSize }) := by
      have hread : readRun Fault.undefined
          ((file.bytes.drop (readPlace file c.getMetadataOffset)).take ciaMetadataSize) 0
            ciaMetadataSize =
          .ok ((file.bytes.drop (readPlace file c.getMetadataOffset)).take ciaMetadataSize) := by
        unfold readRun
        rw [if_pos (by omega), List.drop_zero, List.take_of_length_le (by omega)]
      have hsize : ¬ u64Sub ciaMetadataSize 0 < ciaMetadataSize := by decide
      unfold CIAContainer.loadMetadata
      rw [hwhole, if_neg hsize, hread]
      rfl
    rw [if_neg h, if_neg (by omega), hload, andThen_go rfl]

/-- Behind the title metadata the paths agree exactly where the metadata fits. -/
theorem metadata_agree_iff (hlong : ciaHeaderSize ≤ file.bytes.length)
    (hlength : file.bytes.length < 2 ^ 63)
    (hposition : file.position = c.getTitleMetadataOffset + c.ciaHeader.tmdSize) :
    (∃ r, metadataSpan c file.bytes = .ok r ∧ metadataFile c file = .ok r) ↔
      MetaSectionFits c file.bytes := by
  have hplace : (if c.getMetadataOffset < 2 ^ 63 then c.getMetadataOffset
      else c.getTitleMetadataOffset + c.ciaHeader.tmdSize) =
        readPlace file c.getMetadataOffset := by
    unfold readPlace
    rw [hposition]
  unfold MetaSectionFits
  dsimp only
  rw [hplace]
  by_cases hmeta : c.ciaHeader.metaSize = 0
  · have hspan : metadataSpan c file.bytes = .ok (.success, c) := if_neg (not_not_intro hmeta)
    have hfile : metadataFile c file = .ok (.success, c) := if_neg (not_not_intro hmeta)
    exact ⟨fun _ => .inl hmeta, fun _ => ⟨_, hspan, hfile⟩⟩
  · rw [metadataSpan_eq hlong hlength hmeta, metadataFile_eq hmeta]
    constructor
    · rintro ⟨r, hspan, hfile⟩
      by_cases hcut : c.getMetadataOffset ≤ file.bytes.length ∧
          file.bytes.length < c.getMetadataOffset + ciaMetadataSize
      · exact .inr (.inl hcut)
      · rw [if_neg hcut] at hspan
        obtain rfl := Except.ok.inj hspan
        by_cases hshort : file.bytes.length <
            readPlace file c.getMetadataOffset + ciaMetadataSize
        · rw [if_pos hshort] at hfile
          have := congrArg Prod.fst (Except.ok.inj hfile)
          contradiction
        · rw [if_neg hshort] at hfile
          have hsame := congrArg (fun r => r.2.ciaMetadata) (Except.ok.inj hfile)
          exact .inr (.inr ⟨by omega, hsame⟩)
    · rintro (h | hcut | ⟨hwhole, hsame⟩)
      · exact absurd h hmeta
      · have hshort : file.bytes.length <
            readPlace file c.getMetadataOffset + ciaMetadataSize := by
          rw [readPlace_of_lt (by omega)]
          exact hcut.2
        rw [if_pos hcut, if_pos hshort]
        exact ⟨_, rfl, rfl⟩
      · have hcut : ¬ (c.getMetadataOffset ≤ file.bytes.length ∧
            file.bytes.length < c.getMetadataOffset + ciaMetadataSize) := by
          rintro ⟨hle, hlt⟩
          rw [readPlace_of_lt (by omega)] at hwhole
          omega
        rw [if_neg hcut, if_neg (by omega), hsame]
        exact ⟨_, rfl, rfl⟩

/-- What the metadata does not touch. -/
theorem metadataSpan_frame {r : ResultStatus × CIAContainer}
    (h : metadataSpan c bytes = .ok r) :
    r.1 ≠ .errorInvalidFormat ∧ r.2.ciaTicket = c.ciaTicket ∧ r.2.ciaTmd = c.ciaTmd := by
  unfold metadataSpan CIAContainer.loadMetadata at h
  split at h
  · split at h
    · obtain rfl := Except.ok.inj h
      exact ⟨nofun, rfl, rfl⟩
    · obtain ⟨metadata, -, h⟩ := bind_eq_ok.mp h
      obtain rfl := Except.ok.inj h
      exact ⟨nofun, rfl, rfl⟩
  · obtain rfl := Except.ok.inj h
    exact ⟨nofun, rfl, rfl⟩

theorem metadataFile_frame {r : ResultStatus × CIAContainer}
    (h : metadataFile c file = .ok r) :
    r.1 ≠ .errorInvalidFormat ∧ r.2.ciaTicket = c.ciaTicket ∧ r.2.ciaTmd = c.ciaTmd := by
  by_cases hmeta : c.ciaHeader.metaSize = 0
  · have hfile : metadataFile c file = .ok (.success, c) := if_neg (not_not_intro hmeta)
    rw [hfile] at h
    obtain rfl := Except.ok.inj h
    exact ⟨nofun, rfl, rfl⟩
  · rw [metadataFile_eq hmeta] at h
    split at h <;>
      · obtain rfl := Except.ok.inj h
        exact ⟨nofun, rfl, rfl⟩

theorem tmdSpan_eq (hlength : bytes.length < 2 ^ 63)
    (hoffset : c.getTitleMetadataOffset ≤ bytes.length) :
    tmdSpan c bytes = andThen (.ok (afterTmd c (bytes.drop c.getTitleMetadataOffset)))
      fun d => metadataSpan d bytes := by
  unfold tmdSpan
  rw [loadTitleMetadata_eq hlength hoffset]

theorem length_take_lt {n : ℕ} (h : bytes.length < 2 ^ 63) : (bytes.take n).length < 2 ^ 63 :=
  Nat.lt_of_le_of_lt (List.length_take_le' _ _) h

theorem length_drop_lt {n : ℕ} (h : bytes.length < 2 ^ 63) : (bytes.drop n).length < 2 ^ 63 :=
  Nat.lt_of_le_of_lt (by rw [List.length_drop]; exact Nat.sub_le _ _) h

theorem tmdFile_eq (hlength : file.bytes.length < 2 ^ 63) (hnear : NearSections c) :
    tmdFile c file =
      if (file.bytes.drop c.getTitleMetadataOffset).length < c.ciaHeader.tmdSize
      then .ok (.error, c)
      else andThen (.ok (afterTmd c
          ((file.bytes.drop c.getTitleMetadataOffset).take c.ciaHeader.tmdSize)))
        fun d => metadataFile d
          { file with position := c.getTitleMetadataOffset + c.ciaHeader.tmdSize } := by
  have hplace : readPlace file c.getTitleMetadataOffset = c.getTitleMetadataOffset :=
    readPlace_of_lt (Nat.lt_of_le_of_lt (Nat.le_add_right _ _) hnear.tmd)
  unfold tmdFile
  rw [loadPart_readAt, hplace,
    loadTitleMetadata_eq (length_take_lt (length_drop_lt hlength)) (Nat.zero_le _), List.drop_zero]

/-- Where the title metadata and what is behind it fit, the paths agree from there on. -/
theorem tmd_agree (hlong : ciaHeaderSize ≤ file.bytes.length)
    (hlength : file.bytes.length < 2 ^ 63) (hnear : NearSections c)
    (hoffset : c.getTitleMetadataOffset ≤ file.bytes.length)
    (hfits : TmdFits (file.bytes.drop c.getTitleMetadataOffset) c.ciaHeader.tmdSize)
    (hmeta : HoldsTmd (file.bytes.drop c.getTitleMetadataOffset) → MetaSectionFits c file.bytes) :
    ∃ r, tmdSpan c file.bytes = .ok r ∧ tmdFile c file = .ok r := by
  rw [tmdSpan_eq hlength hoffset, tmdFile_eq hlength hnear]
  generalize hrest : file.bytes.drop c.getTitleMetadataOffset = rest at hfits hmeta ⊢
  rcases hfits with hshort | ⟨hsome, hle, hcovers⟩
  · have hspan : afterTmd c rest = (.error, c) := by
      unfold afterTmd
      rw [tmdOutcome_short hshort]
    refine ⟨(.error, c), ?_, ?_⟩
    · rw [hspan]
      exact andThen_stop nofun
    · split
      · rfl
      · have hfile : afterTmd c (rest.take c.ciaHeader.tmdSize) = (.error, c) := by
          unfold afterTmd
          rw [tmdOutcome_short (Nat.lt_of_le_of_lt (List.length_take_le' _ _) hshort)]
        rw [hfile]
        exact andThen_stop nofun
  · have hsame : afterTmd c (rest.take c.ciaHeader.tmdSize) = afterTmd c rest := by
      unfold afterTmd
      rw [tmdOutcome_take hsome hle hcovers]
    rw [if_neg (Nat.not_lt.mpr hle), hsame]
    by_cases hsuccess : (afterTmd c rest).1 = .success
    · rw [andThen_go hsuccess, andThen_go hsuccess]
      have hheld : MetaSectionFits (afterTmd c rest).2 file.bytes :=
        (metaSectionFits_congr rfl).mp (hmeta (tmdOutcome_success.mp hsuccess))
      exact (@metadata_agree_iff (afterTmd c rest).2
        { file with position := c.getTitleMetadataOffset + c.ciaHeader.tmdSize } hlong hlength
        rfl).mpr hheld
    · exact ⟨_, andThen_stop hsuccess, andThen_stop hsuccess⟩

/-- What is left in a container of the title metadata loaded. -/
theorem tmdSpan_ok {r : ResultStatus × CIAContainer} (hlength : bytes.length < 2 ^ 63)
    (hnear : NearSections c) (h : tmdSpan c bytes = .ok r) :
    c.getTitleMetadataOffset ≤ bytes.length ∧ r.2.ciaTicket = c.ciaTicket ∧
      r.2.ciaTmd = (tmdOutcome c.ciaTmd (bytes.drop c.getTitleMetadataOffset)).2 ∧
      (r.1 = .errorInvalidFormat →
        ¬ HoldsTmd (bytes.drop c.getTitleMetadataOffset)) := by
  obtain ⟨s, hload, hrest⟩ := andThen_ok h
  have hoffset := loadTitleMetadata_ok
    (Nat.lt_of_le_of_lt (Nat.le_add_right _ _) hnear.tmd) hload
  rw [loadTitleMetadata_eq hlength hoffset] at hload
  obtain rfl := Except.ok.inj hload
  refine ⟨hoffset, ?_⟩
  rcases hrest with ⟨hstop, rfl⟩ | ⟨-, hrest⟩
  · exact ⟨rfl, rfl, fun _ hholds => hstop (tmdOutcome_success.mpr hholds)⟩
  · obtain ⟨hstatus, hticket, htmd⟩ := metadataSpan_frame hrest
    exact ⟨hticket, htmd, fun hbad => absurd hbad hstatus⟩

theorem tmdFile_frame {r : ResultStatus × CIAContainer} (hlength : file.bytes.length < 2 ^ 63)
    (hnear : NearSections c) (h : tmdFile c file = .ok r) :
    r.2.ciaTicket = c.ciaTicket ∧
      ((file.bytes.drop c.getTitleMetadataOffset).length < c.ciaHeader.tmdSize ∧
          r.2.ciaTmd = c.ciaTmd ∨
        c.ciaHeader.tmdSize ≤ (file.bytes.drop c.getTitleMetadataOffset).length ∧
          r.2.ciaTmd = (tmdOutcome c.ciaTmd
            ((file.bytes.drop c.getTitleMetadataOffset).take c.ciaHeader.tmdSize)).2 ∧
          ((tmdOutcome c.ciaTmd ((file.bytes.drop c.getTitleMetadataOffset).take
            c.ciaHeader.tmdSize)).1 = .errorInvalidFormat → r.1 = .errorInvalidFormat)) := by
  rw [tmdFile_eq hlength hnear] at h
  split at h
  · rename_i hshort
    obtain rfl := Except.ok.inj h
    exact ⟨rfl, .inl ⟨hshort, rfl⟩⟩
  · rename_i hwhole
    obtain ⟨s, hload, hrest⟩ := andThen_ok h
    obtain rfl := Except.ok.inj hload
    rcases hrest with ⟨-, rfl⟩ | ⟨hgo, hrest⟩
    · exact ⟨rfl, .inr ⟨Nat.not_lt.mp hwhole, rfl, id⟩⟩
    · obtain ⟨-, hticket, htmd⟩ := metadataFile_frame hrest
      refine ⟨hticket, .inr ⟨Nat.not_lt.mp hwhole, htmd, fun hbad => ?_⟩⟩
      have hgo : (tmdOutcome c.ciaTmd ((file.bytes.drop c.getTitleMetadataOffset).take
          c.ciaHeader.tmdSize)).1 = .success := hgo
      rw [hgo] at hbad
      contradiction

/-- Where the paths agree behind the ticket of a container without title metadata, the title metadata
and what is behind it fit. -/
theorem tmd_fits {r : ResultStatus × CIAContainer} (hlong : ciaHeaderSize ≤ file.bytes.length)
    (hlength : file.bytes.length < 2 ^ 63) (hnear : NearSections c)
    (htype : c.ciaTmd.signatureType = 2 ^ 32) (hbody : c.ciaTmd.tmdBody = [])
    (hspan : tmdSpan c file.bytes = .ok r) (hfile : tmdFile c file = .ok r) :
    c.getTitleMetadataOffset ≤ file.bytes.length ∧
      TmdFits (file.bytes.drop c.getTitleMetadataOffset) c.ciaHeader.tmdSize ∧
      (HoldsTmd (file.bytes.drop c.getTitleMetadataOffset) → MetaSectionFits c file.bytes) := by
  obtain ⟨hoffset, -, htmd, hstatus⟩ := tmdSpan_ok hlength hnear hspan
  obtain ⟨-, hframe⟩ := tmdFile_frame hlength hnear hfile
  rw [tmdFile_eq hlength hnear] at hfile
  rw [tmdSpan_eq hlength hoffset] at hspan
  generalize hrest : file.bytes.drop c.getTitleMetadataOffset = rest at *
  have hfits : TmdFits rest c.ciaHeader.tmdSize := by
    by_cases hshort : rest.length < 4
    · exact .inl hshort
    have hloaded : r.2.ciaTmd.signatureType = sectionType rest := by
      rw [htmd]
      exact tmdOutcome_signatureType (by omega)
    have hknown := sectionType_lt rest
    rcases hframe with ⟨-, hkept⟩ | ⟨hle, hread, hmalformed⟩
    · rw [hkept, htype] at hloaded
      omega
    · have hlength' : (rest.take c.ciaHeader.tmdSize).length = c.ciaHeader.tmdSize := by
        rw [List.length_take, Nat.min_eq_left hle]
      have hsome : 4 ≤ c.ciaHeader.tmdSize := by
        by_contra hnone
        rw [hread, tmdOutcome_short (by omega), htype] at hloaded
        omega
      refine .inr ⟨hsome, hle, ?_⟩
      by_contra hcut
      have hwhole : tmdBodyEnd rest ≤ rest.length := by omega
      have hsignature : getSignatureSize (sectionType rest) ≠ 0 := by
        intro hnone
        have hend : tmdBodyEnd rest = 0 := if_pos hnone
        have hend' : tmdEnd rest = 0 := if_pos hnone
        omega
      rcases Nat.lt_or_ge c.ciaHeader.tmdSize (tmdBodyEnd rest) with hbodyCut | hbodyCut
      · -- only the load from memory finds a body
        have hend : tmdBodyEnd rest = bodyStart (sectionType rest) + tmdBodySize :=
          if_neg hsignature
        have hnone : r.2.ciaTmd.tmdBody = [] := by
          rw [hread, tmdOutcome_cut hsome hle hbodyCut]
          exact hbody
        rw [htmd, tmdOutcome_body hsignature hwhole] at hnone
        have hpositive : 0 < tmdBodySize := by decide
        have hcount := congrArg List.length hnone
        rw [List.length_take, List.length_drop, List.length_nil] at hcount
        omega
      · -- only the load from the file misses chunks
        have hbad := hmalformed (tmdOutcome_malformed hsignature hsome hle hbodyCut (by omega))
        exact hstatus hbad ⟨by omega, hsignature, by omega⟩
  refine ⟨hoffset, hfits, fun hholds => ?_⟩
  have hsuccess : (afterTmd c rest).1 = .success := tmdOutcome_success.mpr hholds
  rcases hfits with hshort | ⟨hsome, hle, hcovers⟩
  · have := hholds.1
    omega
  · have hsame : afterTmd c (rest.take c.ciaHeader.tmdSize) = afterTmd c rest := by
      unfold afterTmd
      rw [tmdOutcome_take hsome hle hcovers]
    rw [if_neg (Nat.not_lt.mpr hle), hsame, andThen_go hsuccess] at hfile
    rw [andThen_go hsuccess] at hspan
    have hheld := (@metadata_agree_iff (afterTmd c rest).2
      { file with position := c.getTitleMetadataOffset + c.ciaHeader.tmdSize } hlong hlength
      rfl).mp ⟨r, hspan, hfile⟩
    exact (metaSectionFits_congr rfl).mp hheld

theorem ticketSpan_eq (hlength : bytes.length < 2 ^ 63)
    (hoffset : c.getTicketOffset ≤ bytes.length) :
    ticketSpan c bytes = andThen (.ok (afterTicket c (bytes.drop c.getTicketOffset)))
      fun d => tmdSpan d bytes := by
  unfold ticketSpan
  rw [loadTicket_eq hlength hoffset]

theorem ticketFile_eq (hlength : file.bytes.length < 2 ^ 63) (hnear : NearSections c) :
    c.loadSections file =
      if (file.bytes.drop c.getTicketOffset).length < c.ciaHeader.tikSize then .ok (.error, c)
      else andThen (.ok (afterTicket c
          ((file.bytes.drop c.getTicketOffset).take c.ciaHeader.tikSize)))
        fun d => tmdFile d { file with position := c.getTicketOffset + c.ciaHeader.tikSize } := by
  rw [loadSections_eq, loadPart_readAt, readPlace_of_lt hnear.ticket,
    loadTicket_eq (length_take_lt (length_drop_lt hlength)) (Nat.zero_le _), List.drop_zero]

/-- Where the sections fit, the paths agree behind the header. -/
theorem sections_agree (hlong : ciaHeaderSize ≤ file.bytes.length)
    (hlength : file.bytes.length < 2 ^ 63) (hnear : NearSections c)
    (hfits : SectionsFit c file.bytes) :
    ∃ r, ticketSpan c file.bytes = .ok r ∧ c.loadSections file = .ok r := by
  obtain ⟨hoffset, hticket, hrest⟩ := hfits
  rw [ticketSpan_eq hlength hoffset, ticketFile_eq hlength hnear]
  generalize hbehind : file.bytes.drop c.getTicketOffset = rest at hticket hrest ⊢
  rcases hticket with hshort | ⟨hsome, hle, hcovers⟩
  · have hspan : afterTicket c rest = (.error, c) := by
      unfold afterTicket
      rw [ticketOutcome_short hshort]
    refine ⟨(.error, c), ?_, ?_⟩
    · rw [hspan]
      exact andThen_stop nofun
    · split
      · rfl
      · have hfile : afterTicket c (rest.take c.ciaHeader.tikSize) = (.error, c) := by
          unfold afterTicket
          rw [ticketOutcome_short (Nat.lt_of_le_of_lt (List.length_take_le' _ _) hshort)]
        rw [hfile]
        exact andThen_stop nofun
  · have hsame : afterTicket c (rest.take c.ciaHeader.tikSize) = afterTicket c rest := by
      unfold afterTicket
      rw [ticketOutcome_take hsome hle hcovers]
    rw [if_neg (Nat.not_lt.mpr hle), hsame]
    by_cases hsuccess : (afterTicket c rest).1 = .success
    · rw [andThen_go hsuccess, andThen_go hsuccess]
      obtain ⟨htitle, htmd, hmeta⟩ := hrest (ticketOutcome_success.mp hsuccess)
      exact @tmd_agree (afterTicket c rest).2
        { file with position := c.getTicketOffset + c.ciaHeader.tikSize } hlong hlength
        ⟨hnear.ticket, hnear.tmd⟩ htitle htmd fun hholds =>
          (metaSectionFits_congr rfl).mp (hmeta hholds)
    · exact ⟨_, andThen_stop hsuccess, andThen_stop hsuccess⟩

/-- Where the paths agree behind the header of a container without ticket and title metadata, the
sections fit. -/
theorem sections_fit {r : ResultStatus × CIAContainer} (hlong : ciaHeaderSize ≤ file.bytes.length)
    (hlength : file.bytes.length < 2 ^ 63) (hnear : NearSections c)
    (htype : c.ciaTicket.signatureType = 2 ^ 32) (hbody : c.ciaTicket.ticketBody = [])
    (htmdType : c.ciaTmd.signatureType = 2 ^ 32) (htmdBody : c.ciaTmd.tmdBody = [])
    (hspan : ticketSpan c file.bytes = .ok r) (hfile : c.loadSections file = .ok r) :
    SectionsFit c file.bytes := by
  obtain ⟨s, hload, -⟩ := andThen_ok hspan
  have hoffset := loadTicket_ok hnear.ticket hload
  rw [ticketSpan_eq hlength hoffset] at hspan
  rw [ticketFile_eq hlength hnear] at hfile
  unfold SectionsFit
  generalize hbehind : file.bytes.drop c.getTicketOffset = rest at *
  have hloaded : r.2.ciaTicket = (ticketOutcome c.ciaTicket rest).2 := by
    obtain ⟨s, hs, ⟨-, rfl⟩ | ⟨-, hgo⟩⟩ := andThen_ok hspan
    · obtain rfl := Except.ok.inj hs
      rfl
    · obtain rfl := Except.ok.inj hs
      have hframe := @tmdSpan_ok (afterTicket c rest).2 file.bytes r hlength
        ⟨hnear.ticket, hnear.tmd⟩ hgo
      exact hframe.2.1
  have hfits : TicketFits rest c.ciaHeader.tikSize := by
    by_cases hshort : rest.length < 4
    · exact .inl hshort
    have hknown := sectionType_lt rest
    have hsignatureType : r.2.ciaTicket.signatureType = sectionType rest := by
      rw [hloaded]
      exact ticketOutcome_signatureType (by omega)
    split at hfile
    · obtain rfl := Except.ok.inj hfile
      rw [htype] at hsignatureType
      omega
    · rename_i hwhole
      have hle := Nat.not_lt.mp hwhole
      have hlength' : (rest.take c.ciaHeader.tikSize).length = c.ciaHeader.tikSize := by
        rw [List.length_take, Nat.min_eq_left hle]
      have hread : r.2.ciaTicket =
          (ticketOutcome c.ciaTicket (rest.take c.ciaHeader.tikSize)).2 := by
        obtain ⟨s, hs, ⟨-, rfl⟩ | ⟨-, hgo⟩⟩ := andThen_ok hfile
        · obtain rfl := Except.ok.inj hs
          rfl
        · obtain rfl := Except.ok.inj hs
          have hframe := @tmdFile_frame (afterTicket c (rest.take c.ciaHeader.tikSize)).2
            { file with position := c.getTicketOffset + c.ciaHeader.tikSize } r hlength
            ⟨hnear.ticket, hnear.tmd⟩ hgo
          exact hframe.1
      have hsome : 4 ≤ c.ciaHeader.tikSize := by
        by_contra hnone
        rw [hread, ticketOutcome_short (by omega), htype] at hsignatureType
        omega
      refine .inr ⟨hsome, hle, ?_⟩
      by_contra hcut
      have hsignature : getSignatureSize (sectionType rest) ≠ 0 := by
        intro hnone
        have hend : ticketEnd rest = 0 := if_pos hnone
        omega
      have hend : ticketEnd rest = bodyStart (sectionType rest) + ticketBodySize :=
        if_neg hsignature
      have hnone : r.2.ciaTicket.ticketBody = [] := by
        rw [hread, ticketOutcome_cut hsome hle (by omega)]
        exact hbody
      rw [hloaded, ticketOutcome_body hsignature (by omega)] at hnone
      have hpositive : 0 < ticketBodySize := by decide
      have hcount := congrArg List.length hnone
      rw [List.length_take, List.length_drop, List.length_nil] at hcount
      omega
  refine ⟨hoffset, hfits, fun hholds => ?_⟩
  have hsuccess : (afterTicket c rest).1 = .success := ticketOutcome_success.mpr hholds
  rcases hfits with hshort | ⟨hsome, hle, hcovers⟩
  · have := hholds.1
    omega
  · have hsame : afterTicket c (rest.take c.ciaHeader.tikSize) = afterTicket c rest := by
      unfold afterTicket
      rw [ticketOutcome_take hsome hle hcovers]
    rw [if_neg (Nat.not_lt.mpr hle), hsame, andThen_go hsuccess] at hfile
    rw [andThen_go hsuccess] at hspan
    obtain ⟨htitle, htmd, hmeta⟩ := @tmd_fits (afterTicket c rest).2
      { file with position := c.getTicketOffset + c.ciaHeader.tikSize } r hlong hlength
      ⟨hnear.ticket, hnear.tmd⟩ htmdType htmdBody hspan hfile
    exact ⟨htitle, htmd, fun hholds => (metaSectionFits_congr rfl).mp (hmeta hholds)⟩

end Agreement

section Containers

variable {c : CIAContainer} {bytes : List UInt8}

/-- A container with the header at the head of some bytes. -/
def withHeader (c : CIAContainer) (bytes : List UInt8) : CIAContainer :=
  { c with ciaHeader := Header.ofBytes (bytes.take ciaHeaderSize) }

theorem loadHeader_eq (hlength : bytes.length < 2 ^ 63) :
    c.loadHeader bytes 0 =
      if bytes.length < ciaHeaderSize then .ok (.error, c)
      else .ok (.success, withHeader c bytes) := by
  have htotal : u64Sub bytes.length 0 = bytes.length := u64Sub_of_le (Nat.zero_le _) (by omega)
  unfold CIAContainer.loadHeader
  rw [htotal]
  by_cases hshort : bytes.length < ciaHeaderSize
  · rw [if_pos hshort, if_pos hshort]
  · have hread : readRun Fault.undefined bytes 0 ciaHeaderSize =
        .ok (bytes.take ciaHeaderSize) := by
      unfold readRun
      rw [if_pos (by omega), List.drop_zero]
    rw [if_neg hshort, if_neg hshort, hread]
    rfl

theorem loadSpan_eq (hlength : bytes.length < 2 ^ 63) :
    c.loadSpan bytes =
      if bytes.length < ciaHeaderSize then .ok (.error, c)
      else ticketSpan (withHeader c bytes) bytes := by
  show andThen (c.loadHeader bytes 0) (fun c => ticketSpan c bytes) = _
  rw [loadHeader_eq hlength]
  by_cases hshort : bytes.length < ciaHeaderSize
  · rw [if_pos hshort, if_pos hshort, andThen_stop]
    exact nofun
  · rw [if_neg hshort, if_neg hshort, andThen_go rfl]

theorem loadPath_eq_loadBackend :
    c.loadPath { bytes := bytes } = c.loadBackend { bytes := bytes } := by
  have hseek : (⟨bytes, 0⟩ : IOFile).seek 0 = ⟨bytes, 0⟩ := if_pos (by decide)
  unfold CIAContainer.loadPath CIAContainer.loadBackend IOFile.readAt
  rw [hseek]

theorem loadBackend_eq (hlength : bytes.length < 2 ^ 63) :
    c.loadBackend { bytes := bytes } =
      if bytes.length < ciaHeaderSize then .ok (.error, c)
      else (withHeader c bytes).loadSections { bytes := bytes, position := ciaHeaderSize } := by
  have hplace : readPlace ⟨bytes, 0⟩ 0 = 0 := readPlace_of_lt (by decide)
  unfold CIAContainer.loadBackend
  rw [loadPart_readAt, hplace, List.drop_zero, Nat.zero_add]
  by_cases hshort : bytes.length < ciaHeaderSize
  · rw [if_pos hshort, if_pos hshort]
  · have hwhole : (bytes.take ciaHeaderSize).length = ciaHeaderSize := by
      rw [List.length_take]
      omega
    have hheader : withHeader c (bytes.take ciaHeaderSize) = withHeader c bytes := by
      unfold withHeader
      rw [List.take_take, Nat.min_self]
    rw [if_neg hshort, if_neg hshort, loadHeader_eq (length_take_lt hlength), hwhole,
      if_neg (Nat.lt_irrefl _), hheader, andThen_go rfl]

/-- The ways to load a CIA agree exactly on the bytes whose sections fit. -/
theorem loadsAgree_iff (data : HostBytes) : LoadsAgree data ↔ CIAFits data.1 := by
  obtain ⟨bytes, hlength⟩ := data
  unfold LoadsAgree CIAFits
  dsimp only
  by_cases hshort : bytes.length < ciaHeaderSize
  · refine ⟨fun _ => .inl hshort, fun _ c => ⟨(.error, c), ?_, ?_, ?_⟩⟩
    · rw [loadSpan_eq hlength, if_pos hshort]
    · rw [loadBackend_eq hlength, if_pos hshort]
    · rw [loadPath_eq_loadBackend, loadBackend_eq hlength, if_pos hshort]
  have hlong := Nat.not_lt.mp hshort
  have hnear : ∀ c : CIAContainer, NearSections (withHeader c bytes) := fun _ =>
    nearSections_of_header rfl
  constructor
  · intro hagree
    obtain ⟨r, hspan, hbackend, -⟩ := hagree (headerOnly bytes)
    rw [loadSpan_eq hlength, if_neg hshort] at hspan
    rw [loadBackend_eq hlength, if_neg hshort] at hbackend
    exact .inr (@sections_fit (headerOnly bytes) ⟨bytes, ciaHeaderSize⟩ r hlong hlength
      (hnear (headerOnly bytes)) rfl rfl rfl rfl hspan hbackend)
  · rintro (h | hfits) c
    · exact absurd h hshort
    · have hfits : SectionsFit (withHeader c bytes) bytes := (sectionsFit_congr rfl).mp hfits
      obtain ⟨r, hspan, hbackend⟩ := @sections_agree (withHeader c bytes) ⟨bytes, ciaHeaderSize⟩
        hlong hlength (hnear c) hfits
      refine ⟨r, ?_, ?_, ?_⟩
      · rw [loadSpan_eq hlength, if_neg hshort]
        exact hspan
      · rw [loadBackend_eq hlength, if_neg hshort]
        exact hbackend
      · rw [loadPath_eq_loadBackend, loadBackend_eq hlength, if_neg hshort]
        exact hbackend

/-- A header that declares a header of `0x10000000` bytes, and nothing behind it. -/
def hugeHeader : List UInt8 := [0, 0, 0, 0x10] ++ List.replicate 0x201C 0

/-- From memory the ticket of a header that declares itself longer than the bytes is looked for
outside of them; from a file it is missed. -/
theorem loadsAgree_hugeHeader : ¬ ∀ data : HostBytes, LoadsAgree data := by
  intro h
  have hlength : hugeHeader.length = 0x2020 := by
    unfold hugeHeader
    rw [List.length_append, List.length_replicate]
    rfl
  have hoffset : (headerOnly hugeHeader).getTicketOffset = 0x10000000 := by decide
  have hfits := (loadsAgree_iff ⟨hugeHeader, by rw [hlength]; decide⟩).mp (h _)
  dsimp only [CIAFits] at hfits
  rcases hfits with hshort | hfits
  · rw [hlength] at hshort
    exact absurd hshort (by decide)
  · have hinside := hfits.1
    rw [hoffset, hlength] at hinside
    exact absurd hinside (by decide)

end Containers

end Borked3DS.Analysis
