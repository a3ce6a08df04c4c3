import Borked3DS.Analysis.CIALoadPaths
import Borked3DS.Interface.CIAInstall

/-!
# What an installation takes from a CIA

What the sections of a well formed CIA are is read off its load from a file; the buffer that ends
where the contents start holds them as well. Of each content a write brings the part that starts
where the writes before it ended.
-/

set_option autoImplicit false

namespace Borked3DS.Analysis

open Borked3DS.Library Borked3DS.Model Borked3DS.Model.Cia Borked3DS.Interface
open Borked3DS.Model.Cia.CIAContainer (andThen)
open Borked3DS.Model.LayeredFS (alignUp)

section Loaded

variable {c d fresh : CIAContainer} {bytes : List UInt8} {file : IOFile}

theorem le_alignUp {value size : ℕ} (hsize : 0 < size) (h : value + size < 2 ^ 64) :
    value ≤ alignUp 64 (u64 value) size := by
  have hmod := Nat.mod_lt value hsize
  rw [u64_of_lt (by omega)]
  unfold alignUp
  split
  · exact Nat.le_refl _
  · rw [Nat.mod_eq_of_lt (by omega)]
    omega

/-- Sections stand one behind the other. -/
theorem sections_ordered {b : List UInt8} (h : c.ciaHeader = Header.ofBytes b) :
    c.getTicketOffset + c.ciaHeader.tikSize ≤ c.getTitleMetadataOffset ∧
      c.getTitleMetadataOffset + c.ciaHeader.tmdSize ≤ c.getContentStart := by
  have htik : c.ciaHeader.tikSize < 256 ^ 4 := by
    rw [h]
    exact littleEndianAt_lt _ _ _
  have hnear := nearSections_of_header h
  have hticket := hnear.ticket
  have htmd := hnear.tmd
  constructor
  · exact le_alignUp (by decide) (by unfold ciaSectionAlignment; omega)
  · exact le_alignUp (by decide) (by unfold ciaSectionAlignment; omega)

theorem metadataFile_success (h : metadataFile c file = .ok (.success, d)) :
    d.ciaHeader = c.ciaHeader ∧ d.ciaTicket = c.ciaTicket ∧ d.ciaTmd = c.ciaTmd := by
  by_cases hmeta : c.ciaHeader.metaSize = 0
  · have hfile : metadataFile c file = .ok (.success, c) := if_neg (not_not_intro hmeta)
    rw [hfile] at h
    obtain rfl := congrArg Prod.snd (Except.ok.inj h)
    exact ⟨rfl, rfl, rfl⟩
  · rw [metadataFile_eq hmeta] at h
    split at h
    · have := congrArg Prod.fst (Except.ok.inj h)
      contradiction
    · obtain rfl := congrArg Prod.snd (Except.ok.inj h)
      exact ⟨rfl, rfl, rfl⟩

theorem tmdFile_success (hlength : file.bytes.length < 2 ^ 63) (hnear : NearSections c)
    (h : tmdFile c file = .ok (.success, d)) :
    c.ciaHeader.tmdSize ≤ (file.bytes.drop c.getTitleMetadataOffset).length ∧
      HoldsTmd ((file.bytes.drop c.getTitleMetadataOffset).take c.ciaHeader.tmdSize) ∧
      d.ciaHeader = c.ciaHeader ∧ d.ciaTicket = c.ciaTicket ∧
      d.ciaTmd = (tmdOutcome c.ciaTmd
        ((file.bytes.drop c.getTitleMetadataOffset).take c.ciaHeader.tmdSize)).2 := by
  rw [tmdFile_eq hlength hnear] at h
  split at h
  · have := congrArg Prod.fst (Except.ok.inj h)
    contradiction
  · rename_i hwhole
    obtain ⟨s, hs, ⟨hstop, rfl⟩ | ⟨hgo, hrest⟩⟩ := andThen_ok h
    · exact absurd rfl hstop
    · obtain rfl := Except.ok.inj hs
      obtain ⟨hheader, hticket, htmd⟩ := metadataFile_success hrest
      exact ⟨Nat.not_lt.mp hwhole, tmdOutcome_success.mp hgo, hheader, hticket, htmd⟩

/-- What a container holds that has been loaded from a file. -/
structure LoadedFrom (fresh : CIAContainer) (bytes : List UInt8) (c : CIAContainer) : Prop where
  long : ciaHeaderSize ≤ bytes.length
  header : c.ciaHeader = Header.ofBytes (bytes.take ciaHeaderSize)
  ticketInside : c.ciaHeader.tikSize ≤ (bytes.drop c.getTicketOffset).length
  ticketHeld : HoldsTicket ((bytes.drop c.getTicketOffset).take c.ciaHeader.tikSize)
  ticket : c.ciaTicket = (ticketOutcome fresh.ciaTicket
    ((bytes.drop c.getTicketOffset).take c.ciaHeader.tikSize)).2
  tmdInside : c.ciaHeader.tmdSize ≤ (bytes.drop c.getTitleMetadataOffset).length
  tmdHeld : HoldsTmd ((bytes.drop c.getTitleMetadataOffset).take c.ciaHeader.tmdSize)
  tmd : c.ciaTmd = (tmdOutcome fresh.ciaTmd
    ((bytes.drop c.getTitleMetadataOffset).take c.ciaHeader.tmdSize)).2

/-- Where the sections are depends on the header only. -/
theorem offsets_congr (h : c.ciaHeader = d.ciaHeader) :
    c.getTicketOffset = d.getTicketOffset ∧
      c.getTitleMetadataOffset = d.getTitleMetadataOffset ∧
      c.getContentStart = d.getContentStart := by
  rcases c with ⟨header, _, _, _⟩
  rcases d with ⟨header', _, _, _⟩
  obtain rfl : header = header' := h
  exact ⟨rfl, rfl, rfl⟩

theorem loadBackend_success (hlength : bytes.length < 2 ^ 63)
    (h : fresh.loadBackend { bytes := bytes } = .ok (.success, c)) : LoadedFrom fresh bytes c := by
  rw [loadBackend_eq hlength] at h
  split at h
  · have := congrArg Prod.fst (Except.ok.inj h)
    contradiction
  rename_i hlong
  have hnear : NearSections (withHeader fresh bytes) := nearSections_of_header rfl
  rw [ticketFile_eq hlength hnear] at h
  split at h
  · have := congrArg Prod.fst (Except.ok.inj h)
    contradiction
  rename_i hwhole
  obtain ⟨s, hs, ⟨hstop, rfl⟩ | ⟨hgo, hrest⟩⟩ := andThen_ok h
  · exact absurd rfl hstop
  obtain rfl := Except.ok.inj hs
  have hnear' : NearSections (afterTicket (withHeader fresh bytes)
      ((bytes.drop (withHeader fresh bytes).getTicketOffset).take
        (withHeader fresh bytes).ciaHeader.tikSize)).2 := nearSections_of_header rfl
  obtain ⟨hinside, hheld, hheader, hticket, htmd⟩ := tmdFile_success hlength hnear' hrest
  have hsame : (withHeader fresh bytes).ciaHeader = c.ciaHeader := hheader.symm
  obtain ⟨htikOffset, htmdOffset, -⟩ := offsets_congr hsame
  rw [htikOffset, hsame] at hwhole
  have hgo : (ticketOutcome fresh.ciaTicket ((bytes.drop (withHeader fresh bytes).getTicketOffset).take
      (withHeader fresh bytes).ciaHeader.tikSize)).1 = .success := hgo
  rw [htikOffset, hsame] at hgo
  have hticket : c.ciaTicket = (ticketOutcome fresh.ciaTicket
      ((bytes.drop (withHeader fresh bytes).getTicketOffset).take
        (withHeader fresh bytes).ciaHeader.tikSize)).2 := hticket
  rw [htikOffset, hsame] at hticket
  have hinside : (withHeader fresh bytes).ciaHeader.tmdSize ≤
      (bytes.drop (withHeader fresh bytes).getTitleMetadataOffset).length := hinside
  rw [htmdOffset, hsame] at hinside
  have hheld : HoldsTmd ((bytes.drop (withHeader fresh bytes).getTitleMetadataOffset).take
      (withHeader fresh bytes).ciaHeader.tmdSize) := hheld
  rw [htmdOffset, hsame] at hheld
  have htmd : c.ciaTmd = (tmdOutcome fresh.ciaTmd
      ((bytes.drop (withHeader fresh bytes).getTitleMetadataOffset).take
        (withHeader fresh bytes).ciaHeader.tmdSize)).2 := htmd
  rw [htmdOffset, hsame] at htmd
  exact
    { long := Nat.not_lt.mp hlong
      header := hheader
      ticketInside := Nat.not_lt.mp hwhole
      ticketHeld := ticketOutcome_success.mp hgo
      ticket := hticket
      tmdInside := hinside
      tmdHeld := hheld
      tmd := htmd }

/-- Whole sections and no metadata are loaded from a file. -/
theorem loadBackend_whole (hlength : bytes.length < 2 ^ 63) (hlong : ciaHeaderSize ≤ bytes.length)
    (hheader : c.ciaHeader = Header.ofBytes (bytes.take ciaHeaderSize))
    (hticketInside : c.ciaHeader.tikSize ≤ (bytes.drop c.getTicketOffset).length)
    (hticket : HoldsTicket ((bytes.drop c.getTicketOffset).take c.ciaHeader.tikSize))
    (htmdInside : c.ciaHeader.tmdSize ≤ (bytes.drop c.getTitleMetadataOffset).length)
    (htmd : HoldsTmd ((bytes.drop c.getTitleMetadataOffset).take c.ciaHeader.tmdSize))
    (hmeta : c.ciaHeader.metaSize = 0) :
    ∃ d, fresh.loadBackend { bytes := bytes } = .ok (.success, d) ∧
      d.ciaHeader = c.ciaHeader ∧
      d.ciaTmd = (tmdOutcome fresh.ciaTmd
        ((bytes.drop c.getTitleMetadataOffset).take c.ciaHeader.tmdSize)).2 := by
  have hsame : withHeader fresh bytes = { fresh with ciaHeader := c.ciaHeader } := by
    unfold withHeader
    rw [hheader]
  have hoffsets := @offsets_congr { fresh with ciaHeader := c.ciaHeader } c rfl
  have hnear : NearSections { fresh with ciaHeader := c.ciaHeader } :=
    nearSections_of_header hheader
  rw [loadBackend_eq hlength, if_neg (Nat.not_lt.mpr hlong), hsame, ticketFile_eq hlength hnear]
  dsimp only
  rw [hoffsets.1, if_neg (Nat.not_lt.mpr hticketInside),
    andThen_go (ticketOutcome_success.mpr hticket)]
  have hnear' : NearSections (afterTicket { fresh with ciaHeader := c.ciaHeader }
      ((bytes.drop c.getTicketOffset).take c.ciaHeader.tikSize)).2 := ⟨hnear.ticket, hnear.tmd⟩
  have hoffset : (afterTicket { fresh with ciaHeader := c.ciaHeader }
      ((bytes.drop c.getTicketOffset).take c.ciaHeader.tikSize)).2.getTitleMetadataOffset =
        c.getTitleMetadataOffset := hoffsets.2.1
  have hsize : (afterTicket { fresh with ciaHeader := c.ciaHeader }
      ((bytes.drop c.getTicketOffset).take c.ciaHeader.tikSize)).2.ciaHeader.tmdSize =
        c.ciaHeader.tmdSize := rfl
  rw [tmdFile_eq hlength hnear', hoffset, hsize]
  dsimp only
  rw [if_neg (Nat.not_lt.mpr htmdInside), andThen_go (tmdOutcome_success.mpr htmd)]
  exact ⟨_, if_neg (not_not_intro hmeta), rfl, rfl⟩

/-- A whole ticket is loaded the same where more bytes follow. -/
theorem ticketOutcome_extend {t : Ticket} {size : ℕ} (hle : size ≤ bytes.length)
    (h : HoldsTicket (bytes.take size)) :
    ticketOutcome t bytes = ticketOutcome t (bytes.take size) := by
  obtain ⟨hsome, -, hend⟩ := h
  rw [List.length_take, Nat.min_eq_left hle] at hsome hend
  rw [ticketEnd_take hsome] at hend
  exact (ticketOutcome_take hsome hle (.inr hend)).symm

theorem tmdOutcome_extend {tmd : TitleMetadata} {size : ℕ} (hle : size ≤ bytes.length)
    (h : HoldsTmd (bytes.take size)) : tmdOutcome tmd bytes = tmdOutcome tmd (bytes.take size) := by
  obtain ⟨hsome, hsignature, hend⟩ := h
  rw [List.length_take, Nat.min_eq_left hle] at hsome hend
  rw [sectionType_take hsome] at hsignature
  have hbody := tmdBodyEnd_le (bytes.take size)
  rw [tmdBodyEnd_take hsome] at hbody
  have hchunks := (declaredChunks_take hsignature hsome (hbody.trans hend)).2
  rw [hchunks] at hend
  exact (tmdOutcome_take hsome hle (.inr ⟨by omega, .inr hend⟩)).symm

/-- What is cut behind a section holds the section. -/
theorem take_drop_take {offset size stop : ℕ} (h : offset + size ≤ stop) :
    ((bytes.take stop).drop offset).take size = (bytes.drop offset).take size := by
  rw [List.drop_take, List.take_take, Nat.min_eq_left (by omega)]

/-- The ticket is loaded from the buffer that ends where the contents start. -/
theorem loadTicket_staged (hlength : bytes.length < 2 ^ 63) (hloaded : LoadedFrom fresh bytes c)
    (hstart : c.getContentStart ≤ bytes.length) :
    CIAContainer.loadTicket { fresh with ciaHeader := c.ciaHeader }
        (bytes.take c.getContentStart) c.getTicketOffset =
      .ok (.success, { fresh with ciaHeader := c.ciaHeader, ciaTicket := c.ciaTicket }) := by
  obtain ⟨hticket, htmd⟩ := sections_ordered hloaded.header
  have hstaged : (bytes.take c.getContentStart).length = c.getContentStart := by
    rw [List.length_take, Nat.min_eq_left hstart]
  have hcut : ((bytes.take c.getContentStart).drop c.getTicketOffset).take c.ciaHeader.tikSize =
      (bytes.drop c.getTicketOffset).take c.ciaHeader.tikSize := take_drop_take (by omega)
  have hheld := hloaded.ticketHeld
  have houtcome := hloaded.ticket
  have hinside : c.ciaHeader.tikSize ≤
      ((bytes.take c.getContentStart).drop c.getTicketOffset).length := by
    rw [List.length_drop, hstaged]
    omega
  rw [← hcut] at hheld houtcome
  rw [← ticketOutcome_extend hinside hheld] at houtcome
  rw [loadTicket_eq (length_take_lt hlength) (by omega)]
  unfold afterTicket
  have hsuccess : (ticketOutcome fresh.ciaTicket
      ((bytes.take c.getContentStart).drop c.getTicketOffset)).1 = .success := by
    rw [ticketOutcome_extend hinside hheld]
    exact ticketOutcome_success.mpr hheld
  rw [hsuccess, houtcome]

theorem loadTitleMetadata_staged (hlength : bytes.length < 2 ^ 63)
    (hloaded : LoadedFrom fresh bytes c) (hstart : c.getContentStart ≤ bytes.length) :
    CIAContainer.loadTitleMetadata { fresh with ciaHeader := c.ciaHeader, ciaTicket := c.ciaTicket }
        (bytes.take c.getContentStart) c.getTitleMetadataOffset =
      .ok (.success, { c with ciaMetadata := fresh.ciaMetadata }) := by
  obtain ⟨-, htmd⟩ := sections_ordered hloaded.header
  have hstaged : (bytes.take c.getContentStart).length = c.getContentStart := by
    rw [List.length_take, Nat.min_eq_left hstart]
  have hcut : ((bytes.take c.getContentStart).drop c.getTitleMetadataOffset).take
      c.ciaHeader.tmdSize = (bytes.drop c.getTitleMetadataOffset).take c.ciaHeader.tmdSize :=
    take_drop_take (by omega)
  have hheld := hloaded.tmdHeld
  have houtcome := hloaded.tmd
  have hinside : c.ciaHeader.tmdSize ≤
      ((bytes.take c.getContentStart).drop c.getTitleMetadataOffset).length := by
    rw [List.length_drop, hstaged]
    omega
  rw [← hcut] at hheld houtcome
  rw [← tmdOutcome_extend hinside hheld] at houtcome
  rw [loadTitleMetadata_eq (length_take_lt hlength) (by omega)]
  unfold afterTmd
  have hsuccess : (tmdOutcome fresh.ciaTmd
      ((bytes.take c.getContentStart).drop c.getTitleMetadataOffset)).1 = .success := by
    rw [tmdOutcome_extend hinside hheld]
    exact tmdOutcome_success.mpr hheld
  rw [hsuccess, ← houtcome]

end Loaded

section Contents

variable {c fresh : CIAContainer} {bytes : List UInt8}

theorem length_chunksOf (bytes : List UInt8) (count : ℕ) : (chunksOf bytes count).length = count := by
  induction count generalizing bytes with
  | zero => rfl
  | succ count ih => rw [chunksOf, List.length_cons, ih]

theorem bigEndianAt_lt (bytes : List UInt8) (offset width : ℕ) :
    bigEndianAt bytes offset width < 256 ^ width :=
  calc bigEndianAt bytes offset width < 256 ^ ((bytes.drop offset).take width).reverse.length :=
        ofLittleEndian_lt _
    _ ≤ 256 ^ width := by
        apply Nat.pow_le_pow_right (by decide)
        rw [List.length_reverse]
        exact List.length_take_le _ _

/-- There are no more contents than their number can say. -/
theorem contentCount_lt (hfresh : fresh.ciaTmd.tmdChunks = []) (hloaded : LoadedFrom fresh bytes c) :
    contentCount c < 256 ^ 2 := by
  unfold contentCount
  rw [hloaded.tmd, tmdOutcome_chunks hloaded.tmdHeld, hfresh, List.nil_append, length_chunksOf]
  exact bigEndianAt_lt _ _ _

theorem isContentPresent_ok {h : Header} {index : ℕ}
    (hindex : index / 8 < h.contentPresent.length) : ∃ present, h.isContentPresent index = .ok present := by
  unfold Header.isContentPresent
  rw [List.getElem?_eq_getElem hindex, deref_some, ok_bind]
  exact ⟨_, rfl⟩

theorem getContentSize_eq (hfresh : fresh.ciaTmd.tmdChunks = [])
    (hloaded : LoadedFrom fresh bytes c) {i : ℕ} (hi : i < contentCount c) :
    c.getContentSize i = .ok (contentSize c i) := by
  have hcount := contentCount_lt hfresh hloaded
  have hbits : c.ciaHeader.contentPresent.length = 0x2000 := by
    rw [hloaded.header]
    unfold Header.ofBytes
    rw [List.length_drop, List.length_take, Nat.min_eq_left hloaded.long]
    rfl
  have hsize : ∃ size, c.getContentSize i = .ok size := by
    obtain ⟨present, hpresent⟩ := @isContentPresent_ok c.ciaHeader i (by omega)
    unfold CIAContainer.getContentSize
    rw [hpresent, ok_bind]
    cases present with
    | false => exact ⟨0, rfl⟩
    | true =>
        refine ⟨c.ciaTmd.tmdChunks[i].size, ?_⟩
        rw [List.getElem?_eq_getElem hi]
        rfl
  obtain ⟨size, hsize⟩ := hsize
  unfold contentSize
  rw [hsize]

theorem contentStart_zero (c : CIAContainer) : contentStart c 0 = c.getContentStart := rfl

theorem contentStart_succ (c : CIAContainer) (i : ℕ) :
    contentStart c (i + 1) = contentStart c i + contentSize c i := by
  unfold contentStart
  rw [List.range_succ, List.map_append, List.sum_append, ← Nat.add_assoc]
  rfl

theorem contentStart_mono (c : CIAContainer) {i j : ℕ} (h : i ≤ j) :
    contentStart c i ≤ contentStart c j := by
  induction j, h using Nat.le_induction with
  | base => exact Nat.le_refl _
  | succ j _ ih =>
      rw [contentStart_succ]
      exact ih.trans (Nat.le_add_right _ _)

/-- The contents start where the buffer ends, and end before all of them do. -/
theorem content_bounds {i : ℕ} (hi : i < contentCount c) :
    c.getContentStart ≤ contentStart c i ∧
      contentStart c i + contentSize c i ≤ contentStart c (contentCount c) := by
  refine ⟨contentStart_mono c (Nat.zero_le i), ?_⟩
  rw [← contentStart_succ]
  exact contentStart_mono c hi

theorem getContentOffset_eq (hfresh : fresh.ciaTmd.tmdChunks = [])
    (hloaded : LoadedFrom fresh bytes c) (hlength : bytes.length < 2 ^ 63)
    (hcontents : contentStart c (contentCount c) ≤ bytes.length) {i : ℕ} (hi : i ≤ contentCount c) :
    c.getContentOffset i = .ok (contentStart c i) := by
  induction i with
  | zero => rfl
  | succ i ih =>
      have hend := contentStart_mono c hi
      rw [CIAContainer.getContentOffset, ih (by omega), ok_bind, getContentSize_eq hfresh hloaded hi,
        ok_bind, contentStart_succ, ← contentStart_succ, u64_of_lt (by omega)]
      rfl

/-- The metadata has no part in where the contents are. -/
theorem getContentOffset_metadata (c : CIAContainer) (metadata : List UInt8) (i : ℕ) :
    ({ c with ciaMetadata := metadata } : CIAContainer).getContentOffset i =
      c.getContentOffset i := by
  induction i with
  | zero => rfl
  | succ i ih =>
      rw [CIAContainer.getContentOffset, CIAContainer.getContentOffset, ih]
      rfl

end Contents

section Parts

variable {host : InstallHost} {c : CIAContainer} {i : ℕ}

/-- A part of an encrypted content in whole blocks takes the cipher behind it. -/
theorem processData_eq {part temp : List UInt8} (hencrypted : isEncrypted c i)
    (hpart : aesBlockSize ∣ part.length) (htemp : aesBlockSize ∣ temp.length) :
    ∃ plain, (cipherBehind host c i part).processData host temp =
        .ok (plain, cipherBehind host c i (part ++ temp)) ∧
      installedPart host c i (part ++ temp) = installedPart host c i part ++ plain := by
  have hwhole : ¬ temp.length % aesBlockSize ≠ 0 := by
    rw [Nat.mod_eq_zero_of_dvd htemp]
    exact not_not_intro rfl
  have hbehind : ∀ bytes, cipherBehind host c i bytes =
      { contentCipher host c i with register := (decrypted host c i bytes).2 } := fun _ =>
    if_pos hencrypted
  have hinstalled : ∀ bytes, installedPart host c i bytes = (decrypted host c i bytes).1 := fun _ =>
    if_pos hencrypted
  have happend : decrypted host c i (part ++ temp) =
      ((decrypted host c i part).1 ++
          (chain aesBlockSize (host.decryptBlock (contentCipher host c i).key) (· ^^^ ·)
            (decrypted host c i part).2 temp).1,
        (chain aesBlockSize (host.decryptBlock (contentCipher host c i).key) (· ^^^ ·)
            (decrypted host c i part).2 temp).2) := chain_append temp (by decide) hpart
  refine ⟨(chain aesBlockSize (host.decryptBlock (contentCipher host c i).key) (· ^^^ ·)
    (decrypted host c i part).2 temp).1, ?_, ?_⟩
  · unfold CbcDecryption.processData
    rw [if_neg hwhole, hbehind, hbehind, happend]
  · rw [hinstalled, hinstalled, happend]

theorem set_map_range {α : Type} (f : ℕ → α) (n i : ℕ) (x : α) :
    ((List.range n).map f).set i x = (List.range n).map fun j => if j = i then x else f j := by
  apply List.ext_getElem
  · rw [List.length_set, List.length_map, List.length_map]
  · intro j h₁ h₂
    rw [List.getElem_set, List.getElem_map, List.getElem_map, List.getElem_range]
    by_cases h : i = j
    · rw [if_pos h, if_pos h.symm]
    · rw [if_neg h, if_neg (Ne.symm h)]

theorem modify_map_range {α : Type} (f : ℕ → α) (n i : ℕ) (m : α → α) :
    ((List.range n).map f).modify i m =
      (List.range n).map fun j => if j = i then m (f i) else f j := by
  apply List.ext_getElem
  · rw [List.length_modify, List.length_map, List.length_map]
  · intro j h₁ h₂
    rw [List.getElem_modify, List.getElem_map, List.getElem_map, List.getElem_range]
    by_cases h : i = j
    · rw [if_pos h, if_pos h.symm, h]
    · rw [if_neg h, if_neg (Ne.symm h)]

theorem getElem?_map_range {α : Type} {f : ℕ → α} {n i : ℕ} (h : i < n) :
    ((List.range n).map f)[i]? = some (f i) := by
  rw [List.getElem?_map, List.getElem?_range h]
  rfl

end Parts

section Progress

variable {host : InstallHost} {fresh c : CIAContainer} {bytes : List UInt8}

/-- The installation with a number of bytes written of each content. -/
def atProgress (host : InstallHost) (fresh : CIAContainer) (bytes : List UInt8) (c : CIAContainer)
    (written : ℕ) (done : ℕ → ℕ) : CIAFile where
  installState := .tmdLoaded
  written := written
  container := { c with ciaMetadata := fresh.ciaMetadata }
  data := bytes.take c.getContentStart
  contentWritten := (List.range (contentCount c)).map done
  contentFiles := (List.range (contentCount c)).map fun i =>
    installedPart host c i ((contentSlice c bytes i).take (done i))
  decryptionState :=
    if c.ciaTmd.hasEncryptedContent then
      (List.range (contentCount c)).map fun i =>
        cipherBehind host c i ((contentSlice c bytes i).take (done i))
    else []

theorem atProgress_loaded (written : ℕ) (done : ℕ → ℕ) :
    ¬ (atProgress host fresh bytes c written done).installState ≠ .tmdLoaded :=
  not_not_intro rfl

/-- One more part of a content. -/
theorem decryptContent_eq {i written : ℕ} {done : ℕ → ℕ} {temp : List UInt8}
    (hi : i < contentCount c)
    (hblocks : isEncrypted c i →
      aesBlockSize ∣ ((contentSlice c bytes i).take (done i)).length ∧ aesBlockSize ∣ temp.length) :
    ∃ plain,
      (atProgress host fresh bytes c written done).decryptContent host i temp =
        .ok (plain, if c.ciaTmd.hasEncryptedContent then
          (List.range (contentCount c)).map fun j =>
            if j = i then
              cipherBehind host c i ((contentSlice c bytes i).take (done i) ++ temp)
            else cipherBehind host c j ((contentSlice c bytes j).take (done j))
          else []) ∧
        installedPart host c i ((contentSlice c bytes i).take (done i) ++ temp) =
          installedPart host c i ((contentSlice c bytes i).take (done i)) ++ plain := by
  have hchunk : c.ciaTmd.tmdChunks[i]? = some c.ciaTmd.tmdChunks[i] := List.getElem?_eq_getElem hi
  have hsame : isEncrypted c i = c.ciaTmd.tmdChunks[i].encrypted := by
    unfold isEncrypted
    rw [hchunk]
    rfl
  have hfetch : (atProgress host fresh bytes c written done).container.ciaTmd.tmdChunks[i]? =
      some c.ciaTmd.tmdChunks[i] := hchunk
  unfold CIAFile.decryptContent
  rw [hfetch, deref_some, ok_bind]
  by_cases hencrypted : isEncrypted c i
  · have hany : c.ciaTmd.hasEncryptedContent := by
      unfold TitleMetadata.hasEncryptedContent
      rw [List.any_eq_true]
      exact ⟨_, List.getElem_mem hi, hsame ▸ hencrypted⟩
    have hstate : (atProgress host fresh bytes c written done).decryptionState =
        (List.range (contentCount c)).map fun j =>
          cipherBehind host c j ((contentSlice c bytes j).take (done j)) := if_pos hany
    obtain ⟨hpart, htemp⟩ := hblocks hencrypted
    obtain ⟨plain, hplain, hinstalled⟩ := @processData_eq host c i
      ((contentSlice c bytes i).take (done i)) temp hencrypted hpart htemp
    refine ⟨plain, ?_, hinstalled⟩
    rw [← hsame, if_pos hencrypted, hstate, getElem?_map_range hi, deref_some, ok_bind, hplain,
      ok_bind]
    dsimp only
    rw [set_map_range, if_pos hany]
    rfl
  · have hcipher : ∀ part, cipherBehind host c i part = contentCipher host c i := fun _ =>
      if_neg hencrypted
    refine ⟨temp, ?_, ?_⟩
    · rw [← hsame, if_neg hencrypted]
      have hkept : (fun j => if j = i then
            cipherBehind host c i ((contentSlice c bytes i).take (done i) ++ temp)
          else cipherBehind host c j ((contentSlice c bytes j).take (done j))) =
          fun j => cipherBehind host c j ((contentSlice c bytes j).take (done j)) := by
        funext j
        split
        · rename_i hj
          rw [hj, hcipher, hcipher]
        · rfl
      rw [hkept]
      rfl
    · unfold installedPart
      rw [if_neg hencrypted, if_neg hencrypted]

/-- The blocks of a content end where a place between two writes does. -/
theorem done_blocks {n i : ℕ} (hi : i < contentCount c) (hencrypted : isEncrypted c i)
    (hblocks : aesBlockSize ∣ contentSize c i) (hboundary : BlockBoundary c n) :
    aesBlockSize ∣ contentDone c n i := by
  unfold contentDone
  rcases Nat.lt_or_ge (contentStart c i) n with hstarted | hstarted
  · rcases Nat.lt_or_ge n (contentStart c i + contentSize c i) with hinside | hinside
    · rw [Nat.min_eq_left (by omega)]
      exact hboundary i hi hencrypted hstarted hinside
    · rw [Nat.min_eq_right (by omega)]
      exact hblocks
  · rw [Nat.sub_eq_zero_of_le hstarted, Nat.zero_min]
    exact Nat.dvd_zero _

theorem length_contentSlice {i : ℕ} (hi : i < contentCount c)
    (hcontents : contentStart c (contentCount c) ≤ bytes.length) :
    (contentSlice c bytes i).length = contentSize c i := by
  have hbounds := (content_bounds hi).2
  unfold contentSlice
  rw [List.length_take, List.length_drop]
  omega

/-- What stands in a content between two places of the CIA. -/
def partBetween (c : CIAContainer) (bytes : List UInt8) (n n' i : ℕ) : List UInt8 :=
  ((contentSlice c bytes i).drop (contentDone c n i)).take (contentDone c n' i - contentDone c n i)

theorem contentDone_mono {n n' i : ℕ} (h : n ≤ n') : contentDone c n i ≤ contentDone c n' i := by
  unfold contentDone
  omega

/-- A content that is complete stays so. -/
theorem contentDone_complete {n len i : ℕ} (h : contentSize c i ≤ contentDone c n i) :
    contentDone c (n + len) i = contentDone c n i := by
  unfold contentDone at h ⊢
  omega

/-- Before it is complete, a content has everything from its start on. -/
theorem contentDone_begun {n i : ℕ} (h : ¬ contentSize c i ≤ contentDone c n i) :
    contentDone c n i = n - contentStart c i := by
  unfold contentDone at h ⊢
  omega

/-- Nothing comes for a content that the write does not reach. -/
theorem contentDone_skip {n len i : ℕ}
    (h : n + len < contentStart c i + contentDone c n i ∨
      contentStart c i + contentSize c i < n) :
    contentDone c (n + len) i = contentDone c n i := by
  unfold contentDone at h ⊢
  omega

/-- What comes starts behind what is there, and it ends where the write or the content does. -/
theorem contentDone_part {n len i : ℕ} (hcomplete : ¬ contentSize c i ≤ contentDone c n i)
    (hskip : ¬ (n + len < contentStart c i + contentDone c n i ∨
      contentStart c i + contentSize c i < n)) :
    contentStart c i + contentDone c n i ≤
        min (n + len) (contentStart c i + contentSize c i) ∧
      contentDone c (n + len) i =
        contentDone c n i +
          (min (n + len) (contentStart c i + contentSize c i) -
            (contentStart c i + contentDone c n i)) := by
  have hbegun := contentDone_begun hcomplete
  rw [not_or, Nat.not_lt, Nat.not_lt] at hskip
  rw [Nat.not_le] at hcomplete
  have hlast := Nat.le_min.mpr ⟨hskip.1, Nat.add_le_add_left (Nat.le_of_lt hcomplete) _⟩
  refine ⟨hlast, ?_⟩
  unfold contentDone at hskip hcomplete ⊢
  omega

/-- A write passes over a content that it brings nothing of, or it decrypts what it brings. -/
theorem writeContent_cases {i n len : ℕ} {done : ℕ → ℕ} (hfresh : fresh.ciaTmd.tmdChunks = [])
    (hloaded : LoadedFrom fresh bytes c) (hlength : bytes.length < 2 ^ 63)
    (hcontents : contentStart c (contentCount c) ≤ bytes.length) (hi : i < contentCount c)
    (hend : n + len ≤ bytes.length) (hdone : done i = contentDone c n i) :
    contentDone c (n + len) i = contentDone c n i ∧
        CIAFile.writeContent host n ((bytes.drop n).take len)
          (atProgress host fresh bytes c (n + len) done) i =
            .ok (atProgress host fresh bytes c (n + len) done) ∨
      CIAFile.writeContent host n ((bytes.drop n).take len)
          (atProgress host fresh bytes c (n + len) done) i = (do
        let (plain, decryptionState) ←
          (atProgress host fresh bytes c (n + len) done).decryptContent host i
            (partBetween c bytes n (n + len) i)
        pure
          { atProgress host fresh bytes c (n + len) done with
            decryptionState
            contentFiles :=
              (atProgress host fresh bytes c (n + len) done).contentFiles.modify i (· ++ plain)
            contentWritten :=
              (atProgress host fresh bytes c (n + len) done).contentWritten.set i
                (contentDone c (n + len) i) }) := by
  have hbuffer : ((bytes.drop n).take len).length = len := by
    rw [List.length_take, List.length_drop]
    omega
  have hbounds := (content_bounds hi).2
  have hsize : (atProgress host fresh bytes c (n + len) done).container.getContentSize i =
      .ok (contentSize c i) := getContentSize_eq hfresh hloaded hi
  have hstart : (atProgress host fresh bytes c (n + len) done).container.getContentOffset i =
      .ok (contentStart c i) :=
    (getContentOffset_metadata c _ i).trans
      (getContentOffset_eq hfresh hloaded hlength hcontents (Nat.le_of_lt hi))
  have hwritten : (atProgress host fresh bytes c (n + len) done).contentWritten[i]? =
      some (contentDone c n i) := by
    rw [← hdone]
    exact getElem?_map_range hi
  unfold CIAFile.writeContent
  rw [hbuffer, hwritten, deref_some, ok_bind, hsize, ok_bind, hstart]
  by_cases hcomplete : contentSize c i ≤ contentDone c n i
  · refine .inl ⟨contentDone_complete hcomplete, ?_⟩
    rw [if_pos hcomplete]
    rfl
  rw [if_neg hcomplete, ok_bind]
  dsimp only
  have hbegun := contentDone_begun hcomplete
  rw [u64_of_lt (by omega), u64_of_lt (by omega), u64_of_lt (by omega)]
  by_cases hskip : n + len < contentStart c i + contentDone c n i ∨
      contentStart c i + contentSize c i < n
  · refine .inl ⟨contentDone_skip hskip, ?_⟩
    rw [if_pos hskip]
    rfl
  refine .inr ?_
  rw [if_neg hskip]
  -- the part that is written ends where the write or the content does
  obtain ⟨hlast, hnow⟩ := contentDone_part hcomplete hskip
  have hfirst : n ≤ contentStart c i + contentDone c n i := by
    rw [hbegun]
    omega
  rw [u64Sub_of_le hlast (by omega), u64Sub_of_le hfirst (by omega)]
  unfold partBetween
  generalize havailable : min (n + len) (contentStart c i + contentSize c i) -
    (contentStart c i + contentDone c n i) = available at hnow ⊢
  have hroom : contentDone c n i + available ≤ contentSize c i := by
    rw [← hnow]
    exact Nat.min_le_right _ _
  have htemp : ((bytes.drop n).take len).drop (contentStart c i + contentDone c n i - n) =
      (bytes.drop (contentStart c i + contentDone c n i)).take
        (n + len - (contentStart c i + contentDone c n i)) := by
    rw [List.drop_take, List.drop_drop, Nat.add_sub_cancel' hfirst]
    congr 1
    omega
  have hread : readRun Fault.undefined ((bytes.drop n).take len)
      (contentStart c i + contentDone c n i - n) available =
        .ok (((contentSlice c bytes i).drop (contentDone c n i)).take available) := by
    unfold readRun
    rw [if_pos (by rw [hbuffer]; omega), htemp, List.take_take, Nat.min_eq_left (by omega)]
    unfold contentSlice
    rw [List.drop_take, List.take_take, Nat.min_eq_left (by omega), List.drop_drop]
  rw [hread, ok_bind, u64_of_lt (by omega), ← hnow, hnow, Nat.add_sub_cancel_left]

theorem take_partBetween {n n' i : ℕ} (h : n ≤ n') :
    (contentSlice c bytes i).take (contentDone c n i) ++ partBetween c bytes n n' i =
      (contentSlice c bytes i).take (contentDone c n' i) := by
  unfold partBetween
  rw [← List.take_add, Nat.add_sub_cancel' (contentDone_mono h)]

theorem length_partBetween {n n' i : ℕ} (hi : i < contentCount c)
    (hcontents : contentStart c (contentCount c) ≤ bytes.length) :
    (partBetween c bytes n n' i).length = contentDone c n' i - contentDone c n i := by
  have hroom : contentDone c n' i ≤ contentSize c i := Nat.min_le_right _ _
  unfold partBetween
  rw [List.length_take, List.length_drop, length_contentSlice hi hcontents]
  omega

/-- What a write brings of a content, if it cuts no block of it. -/
theorem writeContent_eq {i n len : ℕ} {done : ℕ → ℕ} (hfresh : fresh.ciaTmd.tmdChunks = [])
    (hloaded : LoadedFrom fresh bytes c) (hlength : bytes.length < 2 ^ 63)
    (hcontents : contentStart c (contentCount c) ≤ bytes.length) (hi : i < contentCount c)
    (hend : n + len ≤ bytes.length)
    (hbefore : isEncrypted c i → aesBlockSize ∣ contentDone c n i)
    (hbehind : isEncrypted c i → aesBlockSize ∣ contentDone c (n + len) i)
    (hdone : done i = contentDone c n i) :
    CIAFile.writeContent host n ((bytes.drop n).take len)
        (atProgress host fresh bytes c (n + len) done) i =
      .ok (atProgress host fresh bytes c (n + len)
        fun j => if j = i then contentDone c (n + len) i else done j) := by
  rcases @writeContent_cases host fresh c bytes i n len done hfresh hloaded hlength hcontents hi
    hend hdone with ⟨hsame, hstep⟩ | hstep
  · rw [hstep]
    congr 2
    funext j
    split
    · rename_i hj
      rw [hj, hdone, hsame]
    · rfl
  have hmono := @contentDone_mono c n (n + len) i (Nat.le_add_right _ _)
  have hwhole : isEncrypted c i →
      aesBlockSize ∣ ((contentSlice c bytes i).take (done i)).length ∧
        aesBlockSize ∣ (partBetween c bytes n (n + len) i).length := by
    intro hencrypted
    have hroom : contentDone c n i ≤ contentSize c i := Nat.min_le_right _ _
    rw [hdone, List.length_take, length_contentSlice hi hcontents, Nat.min_eq_left hroom,
      length_partBetween hi hcontents]
    exact ⟨hbefore hencrypted, Nat.dvd_sub (hbehind hencrypted) (hbefore hencrypted)⟩
  obtain ⟨plain, hplain, hinstalled⟩ :=
    @decryptContent_eq host fresh c bytes i (n + len) done _ hi hwhole
  rw [hdone, take_partBetween (Nat.le_add_right _ _)] at hplain hinstalled
  rw [hstep, hplain, ok_bind]
  have hwrittenList : (atProgress host fresh bytes c (n + len) done).contentWritten.set i
      (contentDone c (n + len) i) = (List.range (contentCount c)).map
        fun j => if j = i then contentDone c (n + len) i else done j := set_map_range _ _ _ _
  have hfiles : (atProgress host fresh bytes c (n + len) done).contentFiles.modify i (· ++ plain) =
      (List.range (contentCount c)).map fun j =>
        if j = i then installedPart host c i
          ((contentSlice c bytes i).take (contentDone c (n + len) i))
        else installedPart host c j ((contentSlice c bytes j).take (done j)) := by
    rw [hinstalled, ← hdone]
    exact modify_map_range _ _ _ _
  dsimp only
  rw [hwrittenList, hfiles]
  have hinstalled' : ∀ j, installedPart host c j ((contentSlice c bytes j).take
      (if j = i then contentDone c (n + len) i else done j)) =
        if j = i then installedPart host c i
          ((contentSlice c bytes i).take (contentDone c (n + len) i))
        else installedPart host c j ((contentSlice c bytes j).take (done j)) := by
    intro j
    split
    · rename_i hj
      rw [hj]
    · rfl
  have hcipher : ∀ j, cipherBehind host c j ((contentSlice c bytes j).take
      (if j = i then contentDone c (n + len) i else done j)) =
        if j = i then cipherBehind host c i
          ((contentSlice c bytes i).take (contentDone c (n + len) i))
        else cipherBehind host c j ((contentSlice c bytes j).take (done j)) := by
    intro j
    split
    · rename_i hj
      rw [hj]
    · rfl
  unfold atProgress
  simp only [hinstalled', hcipher]
  rfl

/-- A write that cuts a block of an encrypted content asks for a part of a block to be decrypted. -/
theorem writeContent_cut {i n len : ℕ} {done : ℕ → ℕ} (hfresh : fresh.ciaTmd.tmdChunks = [])
    (hloaded : LoadedFrom fresh bytes c) (hlength : bytes.length < 2 ^ 63)
    (hcontents : contentStart c (contentCount c) ≤ bytes.length) (hi : i < contentCount c)
    (hend : n + len ≤ bytes.length) (hencrypted : isEncrypted c i)
    (hbefore : aesBlockSize ∣ contentDone c n i)
    (hcut : ¬ aesBlockSize ∣ contentDone c (n + len) i) (hdone : done i = contentDone c n i) :
    CIAFile.writeContent host n ((bytes.drop n).take len)
        (atProgress host fresh bytes c (n + len) done) i = .error .undefined := by
  rcases @writeContent_cases host fresh c bytes i n len done hfresh hloaded hlength hcontents hi
    hend hdone with ⟨hsame, -⟩ | hstep
  · rw [hsame] at hcut
    contradiction
  have hmono := @contentDone_mono c n (n + len) i (Nat.le_add_right _ _)
  have hpart : (partBetween c bytes n (n + len) i).length % aesBlockSize ≠ 0 := by
    intro hwhole
    have hdvd := Nat.dvd_of_mod_eq_zero hwhole
    rw [length_partBetween hi hcontents] at hdvd
    apply hcut
    rw [← Nat.sub_add_cancel hmono]
    exact Nat.dvd_add hdvd hbefore
  have hchunk : (atProgress host fresh bytes c (n + len) done).container.ciaTmd.tmdChunks[i]? =
      some c.ciaTmd.tmdChunks[i] := List.getElem?_eq_getElem hi
  have hsame : c.ciaTmd.tmdChunks[i].encrypted = true := by
    unfold isEncrypted at hencrypted
    rw [List.getElem?_eq_getElem hi] at hencrypted
    exact hencrypted
  have hany : c.ciaTmd.hasEncryptedContent = true := by
    unfold TitleMetadata.hasEncryptedContent
    rw [List.any_eq_true]
    exact ⟨_, List.getElem_mem hi, hsame⟩
  have hstate : (atProgress host fresh bytes c (n + len) done).decryptionState =
      (List.range (contentCount c)).map fun j =>
        cipherBehind host c j ((contentSlice c bytes j).take (done j)) := if_pos hany
  rw [hstep]
  unfold CIAFile.decryptContent
  rw [hchunk, deref_some, ok_bind, if_pos hsame, hstate, getElem?_map_range hi, deref_some, ok_bind]
  unfold CbcDecryption.processData
  rw [if_pos hpart]
  rfl

theorem atProgress_congr {written : ℕ} {done done' : ℕ → ℕ}
    (h : ∀ i < contentCount c, done i = done' i) :
    atProgress host fresh bytes c written done = atProgress host fresh bytes c written done' := by
  have hwritten : (List.range (contentCount c)).map done =
      (List.range (contentCount c)).map done' :=
    List.map_congr_left fun i hi => h i (List.mem_range.mp hi)
  have hfiles : ((List.range (contentCount c)).map fun i =>
      installedPart host c i ((contentSlice c bytes i).take (done i))) =
        (List.range (contentCount c)).map fun i =>
          installedPart host c i ((contentSlice c bytes i).take (done' i)) :=
    List.map_congr_left fun i hi => by rw [h i (List.mem_range.mp hi)]
  have hciphers : ((List.range (contentCount c)).map fun i =>
      cipherBehind host c i ((contentSlice c bytes i).take (done i))) =
        (List.range (contentCount c)).map fun i =>
          cipherBehind host c i ((contentSlice c bytes i).take (done' i)) :=
    List.map_congr_left fun i hi => by rw [h i (List.mem_range.mp hi)]
  unfold atProgress
  rw [hwritten, hfiles, hciphers]

/-- The contents that a write has been through, out of all of them. -/
def doneUpTo (c : CIAContainer) (n n' k i : ℕ) : ℕ :=
  if i < k then contentDone c n' i else contentDone c n i

/-- What a write brings of the contents before some content. -/
theorem writeContents_eq {n len k : ℕ} (hfresh : fresh.ciaTmd.tmdChunks = [])
    (hloaded : LoadedFrom fresh bytes c) (hlength : bytes.length < 2 ^ 63)
    (hcontents : contentStart c (contentCount c) ≤ bytes.length)
    (hend : n + len ≤ bytes.length) (hk : k ≤ contentCount c)
    (hblocks : ∀ i < k, isEncrypted c i →
      aesBlockSize ∣ contentDone c n i ∧ aesBlockSize ∣ contentDone c (n + len) i) :
    (List.range k).foldlM (CIAFile.writeContent host n ((bytes.drop n).take len))
        (atProgress host fresh bytes c (n + len) (contentDone c n)) =
      .ok (atProgress host fresh bytes c (n + len) (doneUpTo c n (n + len) k)) := by
  induction k with
  | zero => rfl
  | succ k ih =>
      have hwhole := hblocks k (Nat.lt_succ_self k)
      have hstep := @writeContent_eq host fresh c bytes k n len (doneUpTo c n (n + len) k) hfresh
        hloaded hlength hcontents hk hend (fun h => (hwhole h).1) (fun h => (hwhole h).2)
        (if_neg (Nat.lt_irrefl k))
      have hnext : (fun j => if j = k then contentDone c (n + len) k
          else doneUpTo c n (n + len) k j) = doneUpTo c n (n + len) (k + 1) := by
        funext j
        unfold doneUpTo
        rcases Nat.lt_trichotomy j k with hj | hj | hj
        · rw [if_neg (by omega), if_pos hj, if_pos (by omega)]
        · rw [if_pos hj, if_pos (by omega), hj]
        · rw [if_neg (by omega), if_neg (by omega), if_neg (by omega)]
      rw [List.range_succ, List.foldlM_append,
        ih (by omega) fun i hi => hblocks i (Nat.lt_succ_of_lt hi), ok_bind, List.foldlM_cons, hstep,
        ok_bind, hnext]
      rfl

theorem length_contentWritten {written : ℕ} {done : ℕ → ℕ} :
    (atProgress host fresh bytes c written done).contentWritten.length = contentCount c := by
  unfold atProgress
  rw [List.length_map, List.length_range]

/-- What a write brings of all the contents. -/
theorem writeContentData_eq {n len : ℕ} (hfresh : fresh.ciaTmd.tmdChunks = [])
    (hloaded : LoadedFrom fresh bytes c) (hlength : bytes.length < 2 ^ 63)
    (hcontents : contentStart c (contentCount c) ≤ bytes.length)
    (hblocks : ∀ i < contentCount c, isEncrypted c i → aesBlockSize ∣ contentSize c i)
    (hend : n + len ≤ bytes.length) (hbefore : BlockBoundary c n)
    (hbehind : BlockBoundary c (n + len)) :
    (atProgress host fresh bytes c (n + len) (contentDone c n)).writeContentData host n
        ((bytes.drop n).take len) =
      .ok (atProgress host fresh bytes c (n + len) (contentDone c (n + len))) := by
  have hall : ∀ j < contentCount c,
      doneUpTo c n (n + len) (contentCount c) j = contentDone c (n + len) j := fun j hj =>
    if_pos hj
  unfold CIAFile.writeContentData
  rw [length_contentWritten, writeContents_eq hfresh hloaded hlength hcontents hend
    (Nat.le_refl _) fun i hi hencrypted =>
      ⟨done_blocks hi hencrypted (hblocks i hi hencrypted) hbefore,
        done_blocks hi hencrypted (hblocks i hi hencrypted) hbehind⟩,
    atProgress_congr hall]

end Progress

end Borked3DS.Analysis
