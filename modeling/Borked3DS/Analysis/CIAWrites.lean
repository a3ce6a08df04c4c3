import Mathlib.Data.List.TakeWhile
import Borked3DS.Analysis.CIAInstall

/-!
# Installing a CIA in any number of writes

One write takes the installation from the state for the bytes before it to the state for the bytes
behind it, and so does a run of writes.
-/

set_option autoImplicit false

namespace Borked3DS.Analysis

open Borked3DS.Library Borked3DS.Model Borked3DS.Model.Cia Borked3DS.Interface

section Staging

variable {host : InstallHost} {fresh c : CIAContainer} {bytes : List UInt8}

/-- More of the bytes behind those that are buffered. -/
theorem writeRun_resize {m k : ℕ} (hm : m ≤ k) (hk : k ≤ bytes.length) :
    writeRun Fault.undefined (Bps.resize (bytes.take m) k) m ((bytes.drop m).take (k - m)) =
      .ok (bytes.take k) := by
  have hbuffered : (bytes.take m).length = m := by
    rw [List.length_take, Nat.min_eq_left (by omega)]
  have hmore : ((bytes.drop m).take (k - m)).length = k - m := by
    rw [List.length_take, List.length_drop]
    omega
  have hwrite := @writeRun_append_replicate Fault UInt8 Fault.undefined (bytes.take m)
    ((bytes.drop m).take (k - m)) 0 (k - m) (Nat.le_of_eq hmore)
  unfold Bps.resize
  rw [hbuffered] at hwrite ⊢
  rw [List.take_of_length_le (by omega), hwrite, hmore, Nat.sub_self, List.replicate_zero,
    List.append_nil, ← List.take_add, Nat.add_sub_cancel' hm]

theorem stageHeader_eq {n len : ℕ} (hlength : bytes.length < 2 ^ 63)
    (hloaded : LoadedFrom fresh bytes c) (hend : n + len ≤ bytes.length) (hn : n < ciaHeaderSize)
    (hfits : n = 0 ∨ n + len ≤ ciaHeaderSize) :
    CIAFile.stageHeader { written := n + len, container := fresh, data := bytes.take n } n
        ((bytes.drop n).take len) =
      .ok (if n + len < ciaHeaderSize then
          { written := n + len, container := fresh, data := bytes.take (n + len) }
        else
          { installState := .headerLoaded
            written := n + len
            container := { fresh with ciaHeader := c.ciaHeader }
            data := bytes.take ciaHeaderSize }) := by
  have hbuffer : ((bytes.drop n).take len).length = len := by
    rw [List.length_take, List.length_drop]
    omega
  have hread : readRun Fault.undefined ((bytes.drop n).take len) 0 (min len ciaHeaderSize) =
      .ok ((bytes.drop n).take (min (n + len) ciaHeaderSize - n)) := by
    unfold readRun
    rw [if_pos (by omega), List.drop_zero, List.take_take]
    congr 2
    omega
  unfold CIAFile.stageHeader
  dsimp only
  rw [hbuffer, u64_of_lt (by omega), hread, ok_bind, writeRun_resize (by omega) (by omega), ok_bind]
  by_cases hshort : n + len < ciaHeaderSize
  · rw [if_pos hshort, if_pos hshort, Nat.min_eq_left (by omega)]
    rfl
  · have hlong := hloaded.long
    have hheader : withHeader fresh (bytes.take ciaHeaderSize) =
        { fresh with ciaHeader := c.ciaHeader } := by
      unfold withHeader
      rw [List.take_take, Nat.min_self, hloaded.header]
    rw [if_neg hshort, if_neg hshort, Nat.min_eq_right (by omega),
      loadHeader_eq (length_take_lt hlength), List.length_take, Nat.min_eq_left hlong,
      if_neg (Nat.lt_irrefl _), hheader]
    rfl

/-- What is buffered reaches as far as the bytes written, but not into the contents. -/
theorem stageSections_eq {f : CIAFile} {n m len : ℕ} (hlength : bytes.length < 2 ^ 63)
    (hdata : f.data = bytes.take m) (hn : n ≤ m) (hm : m ≤ n + len)
    (hbefore : m ≤ f.container.getContentStart) (hend : n + len ≤ bytes.length)
    (hstart : f.container.getContentStart ≤ bytes.length) :
    f.stageSections n ((bytes.drop n).take len) =
      .ok { f with data := bytes.take (min (n + len) f.container.getContentStart) } := by
  have hbuffer : ((bytes.drop n).take len).length = len := by
    rw [List.length_take, List.length_drop]
    omega
  have hbuffered : (bytes.take m).length = m := by
    rw [List.length_take, Nat.min_eq_left (by omega)]
  unfold CIAFile.stageSections
  dsimp only
  generalize f.container.getContentStart = contentOffset at hbefore hstart ⊢
  have hread : readRun Fault.undefined ((bytes.drop n).take len) (m - n)
      (min len (contentOffset - n) - (m - n)) =
        .ok ((bytes.drop m).take (min (n + len) contentOffset - m)) := by
    unfold readRun
    rw [if_pos (by omega), List.drop_take, List.drop_drop, Nat.add_sub_cancel' hn, List.take_take]
    congr 2
    omega
  rw [hdata, hbuffered, hbuffer, u64Sub_of_le hn (by omega),
    u64Sub_of_le (Nat.le_trans hn hbefore) (by omega), u64Sub_of_le (by omega) (by omega),
    u64_of_lt (by omega), Nat.max_eq_right hn, hread, ok_bind,
    writeRun_resize (by omega) (by omega)]
  rfl

/-- The installation with a header and what is buffered so far. -/
def withStaged (fresh c : CIAContainer) (bytes : List UInt8) (written staged : ℕ) : CIAFile where
  installState := .headerLoaded
  written := written
  container := { fresh with ciaHeader := c.ciaHeader }
  data := bytes.take staged

theorem withStaged_start (written staged : ℕ) :
    (withStaged fresh c bytes written staged).container.getContentStart = c.getContentStart :=
  (offsets_congr rfl).2.2

/-- The title metadata that is loaded opens the contents. -/
theorem openContents_eq {written : ℕ} (hhost : HostInstalls host c) :
    CIAFile.openContents
        { installState := .ticketLoaded
          written := written
          container := { c with ciaMetadata := fresh.ciaMetadata }
          data := bytes.take c.getContentStart } host =
      (none, atProgress host fresh bytes c written fun _ => 0) := by
  have hopened : (List.range (contentCount c)).takeWhile (host.opensContent c.ciaTmd) =
      List.range (contentCount c) := by
    rw [List.takeWhile_eq_self_iff]
    intro i hi
    exact hhost.opensContents i (List.mem_range.mp hi)
  have hnothing : ∀ i, installedPart host c i [] = [] := by
    intro i
    unfold installedPart decrypted
    rw [chain_nil]
    split <;> rfl
  have hfiles : List.replicate (contentCount c) [] =
      (List.range (contentCount c)).map fun i =>
        installedPart host c i ((contentSlice c bytes i).take 0) := by
    simp only [List.take_zero, hnothing, List.map_const', List.length_range]
  have hwritten : List.replicate (contentCount c) 0 =
      (List.range (contentCount c)).map fun _ => 0 := by
    rw [List.map_const', List.length_range]
  have hcipher : ∀ i, cipherBehind host c i [] = contentCipher host c i := by
    intro i
    unfold cipherBehind decrypted
    rw [chain_nil]
    split <;> rfl
  unfold CIAFile.openContents atProgress
  dsimp only
  rw [show c.ciaTmd.tmdChunks.length = contentCount c from rfl, hopened, List.length_range,
    if_neg (Nat.lt_irrefl _), List.take_nil, List.nil_append, List.length_nil, Nat.sub_zero,
    hwritten, hfiles]
  by_cases hencrypted : c.ciaTmd.hasEncryptedContent
  · obtain ⟨key, hkey⟩ := Option.isSome_iff_exists.mp (hhost.hasTitleKey hencrypted)
    have hciphers : (c.ciaTmd.tmdChunks.map fun chunk =>
        ({ key := key, register := chunk.ctr } : CbcDecryption)) =
          (List.range (contentCount c)).map fun i =>
            cipherBehind host c i ((contentSlice c bytes i).take 0) := by
      apply List.ext_getElem
      · rw [List.length_map, List.length_map, List.length_range]
        rfl
      · intro i h₁ h₂
        rw [List.length_map] at h₁
        rw [List.getElem_map, List.getElem_map, List.getElem_range, List.take_zero, hcipher]
        unfold contentCipher
        rw [hkey, List.getElem?_eq_getElem h₁]
        rfl
    rw [if_pos hencrypted, if_pos hencrypted, hkey]
    dsimp only
    rw [hciphers]
  · rw [if_neg hencrypted, if_neg hencrypted]

theorem writeSections_eq {written : ℕ} (hlength : bytes.length < 2 ^ 63) (hloaded : LoadedFrom fresh bytes c)
    (hstart : c.getContentStart ≤ bytes.length) (hhost : HostInstalls host c)
    (hwritten : c.getContentStart ≤ written) :
    (withStaged fresh c bytes written c.getContentStart).writeSections host =
      .ok (none, atProgress host fresh bytes c written fun _ => 0) := by
  have hready : (withStaged fresh c bytes written c.getContentStart).container.getContentStart ≤
      (withStaged fresh c bytes written c.getContentStart).written ∧
        (withStaged fresh c bytes written c.getContentStart).installState ≠ .tmdLoaded := by
    rw [withStaged_start]
    exact ⟨hwritten, nofun⟩
  have hoffsets := @offsets_congr { fresh with ciaHeader := c.ciaHeader } c rfl
  have hticket : (withStaged fresh c bytes written c.getContentStart).writeTicket =
      .ok (none,
        { installState := .ticketLoaded
          written := written
          container := { fresh with ciaHeader := c.ciaHeader, ciaTicket := c.ciaTicket }
          data := bytes.take c.getContentStart }) := by
    have hload := loadTicket_staged hlength hloaded hstart
    unfold CIAFile.writeTicket withStaged
    dsimp only
    rw [hoffsets.1, hload, ok_bind]
    rfl
  have htmd : CIAFile.writeTitleMetadata
      { installState := .ticketLoaded
        written := written
        container := { fresh with ciaHeader := c.ciaHeader, ciaTicket := c.ciaTicket }
        data := bytes.take c.getContentStart } host =
      .ok (none, atProgress host fresh bytes c written fun _ => 0) := by
    have hload := loadTitleMetadata_staged hlength hloaded hstart
    have hplace := (@offsets_congr
      { fresh with ciaHeader := c.ciaHeader, ciaTicket := c.ciaTicket } c rfl).2.1
    have hsaves : ¬ (!host.savesTmd c.ciaTmd) = true := by
      rw [hhost.savesTmd]
      decide
    unfold CIAFile.writeTitleMetadata
    dsimp only
    rw [hplace, hload, ok_bind]
    dsimp only
    rw [if_neg (not_not_intro rfl), if_neg hsaves, openContents_eq hhost]
    rfl
  unfold CIAFile.writeSections
  rw [if_pos hready, hticket, ok_bind]
  dsimp only
  rw [if_neg (not_not_intro rfl), htmd]

end Staging

section Writes

variable {host : InstallHost} {fresh c : CIAContainer} {bytes : List UInt8}

theorem contentStart_ge (c : CIAContainer) (i : ℕ) : c.getContentStart ≤ contentStart c i :=
  contentStart_mono c (Nat.zero_le i)

/-- Before the contents there is nothing of any of them. -/
theorem contentDone_before {n : ℕ} (h : n ≤ c.getContentStart) :
    contentDone c n = fun _ => 0 := by
  funext i
  have hstart := contentStart_ge c i
  unfold contentDone
  rw [Nat.sub_eq_zero_of_le (by omega), Nat.zero_min]

/-- A write that starts before the contents, with a header. -/
theorem writeBehindHeader_staged {n m len : ℕ} (hfresh : fresh.ciaTmd.tmdChunks = [])
    (hwf : WellFormedCIA fresh bytes c) (hhost : HostInstalls host c) (hn : n ≤ m)
    (hm : m ≤ n + len) (hstart : m ≤ c.getContentStart) (hbefore : n < c.getContentStart)
    (hend : n + len ≤ bytes.length) (hheader : ciaHeaderSize ≤ n + len)
    (hboundary : BlockBoundary c (n + len)) :
    (withStaged fresh c bytes (n + len) m).writeBehindHeader host n ((bytes.drop n).take len) =
      .ok (.ok len, installedAfter host fresh bytes c (n + len)) := by
  have hloaded := loadBackend_success hwf.length hwf.loads
  have hinside := (contentStart_ge c (contentCount c)).trans hwf.contents
  have hbuffer : ((bytes.drop n).take len).length = len := by
    rw [List.length_take, List.length_drop]
    omega
  have hstage := @stageSections_eq bytes (withStaged fresh c bytes (n + len) m) n m len hwf.length
    rfl hn hm (by rw [withStaged_start]; exact hstart) hend (by rw [withStaged_start]; exact hinside)
  rw [withStaged_start] at hstage
  unfold CIAFile.writeBehindHeader
  rw [withStaged_start, if_pos hbefore, hstage, ok_bind, hbuffer]
  unfold installedAfter
  rw [if_neg (by omega)]
  by_cases hshort : n + len < c.getContentStart
  · have hwait : ¬ (c.getContentStart ≤ n + len ∧
        CIAInstallState.headerLoaded ≠ .tmdLoaded) := by omega
    have hsections : (withStaged fresh c bytes (n + len) (n + len)).writeSections host =
        .ok (none, withStaged fresh c bytes (n + len) (n + len)) := by
      unfold CIAFile.writeSections
      rw [withStaged_start]
      exact if_neg hwait
    rw [if_pos hshort, Nat.min_eq_left (by omega)]
    show (withStaged fresh c bytes (n + len) (n + len)).writeSections host >>= _ = _
    rw [hsections, ok_bind]
    rfl
  · have hempty : BlockBoundary c n := by
      intro i _ _ hinside'
      have := contentStart_ge c i
      omega
    have hcontents := @writeContentData_eq host fresh c bytes n len hfresh hloaded hwf.length
      hwf.contents hwf.blocks hend hempty hboundary
    rw [contentDone_before (Nat.le_of_lt hbefore)] at hcontents
    rw [if_neg hshort, Nat.min_eq_right (by omega)]
    show (withStaged fresh c bytes (n + len) c.getContentStart).writeSections host >>= _ = _
    rw [writeSections_eq hwf.length hloaded hinside hhost (by omega), ok_bind]
    dsimp only
    rw [if_neg (atProgress_loaded _ _), hcontents]
    rfl

/-- One write takes the installation from the bytes before it to those behind it. -/
theorem ciaWrite_eq {n len : ℕ} (hfresh : fresh.ciaTmd.tmdChunks = [])
    (hwf : WellFormedCIA fresh bytes c) (hhost : HostInstalls host c)
    (hend : n + len ≤ bytes.length)
    (hfits : n = 0 ∨ ciaHeaderSize ≤ n ∨ n + len ≤ ciaHeaderSize) (hbefore : BlockBoundary c n)
    (hbehind : BlockBoundary c (n + len)) :
    (installedAfter host fresh bytes c n).write host n ((bytes.drop n).take len) =
      .ok (.ok len, installedAfter host fresh bytes c (n + len)) := by
  have hloaded := loadBackend_success hwf.length hwf.loads
  have hlength := hwf.length
  have hstart := hwf.behindHeader
  have hbuffer : ((bytes.drop n).take len).length = len := by
    rw [List.length_take, List.length_drop]
    omega
  have hwritten : u64 (n + len) = n + len := u64_of_lt (by omega)
  rcases Nat.lt_or_ge n ciaHeaderSize with hn | hn
  · have hfits' : n = 0 ∨ n + len ≤ ciaHeaderSize := by omega
    have hstate : installedAfter host fresh bytes c n =
        { written := n, container := fresh, data := bytes.take n } := if_pos hn
    have hstage := stageHeader_eq hlength hloaded hend hn hfits'
    unfold CIAFile.write
    rw [hstate, hbuffer]
    dsimp only
    rw [hwritten, if_neg (not_not_intro rfl), hstage, ok_bind]
    by_cases hshort : n + len < ciaHeaderSize
    · rw [if_pos hshort, if_pos rfl]
      unfold installedAfter
      rw [if_pos hshort]
      rfl
    · rw [if_neg hshort, if_neg nofun]
      exact writeBehindHeader_staged hfresh hwf hhost (Nat.le_of_lt hn) (by omega) hstart
        (by omega) hend (by omega) hbehind
  · rcases Nat.lt_or_ge n c.getContentStart with hn' | hn'
    · have hstate : installedAfter host fresh bytes c n = withStaged fresh c bytes n n := by
        unfold installedAfter
        rw [if_neg (by omega), if_pos hn']
        rfl
      unfold CIAFile.write
      rw [hstate, hbuffer]
      show (if CIAInstallState.headerLoaded ≠ .installStarted then
        (withStaged fresh c bytes (u64 (n + len)) n).writeBehindHeader host n _ else _) = _
      rw [hwritten, if_pos nofun]
      exact writeBehindHeader_staged hfresh hwf hhost (Nat.le_refl n) (by omega) (by omega) hn'
        hend (by omega) hbehind
    · have hstate : ∀ k, c.getContentStart ≤ k → installedAfter host fresh bytes c k =
          atProgress host fresh bytes c k (contentDone c k) := by
        intro k hk
        unfold installedAfter
        rw [if_neg (by omega), if_neg (by omega)]
        rfl
      have hplace : (atProgress host fresh bytes c (n + len)
          (contentDone c n)).container.getContentStart = c.getContentStart :=
        (offsets_congr rfl).2.2
      have hsections : (atProgress host fresh bytes c (n + len) (contentDone c n)).writeSections
          host = .ok (none, atProgress host fresh bytes c (n + len) (contentDone c n)) := by
        unfold CIAFile.writeSections
        exact if_neg fun h => h.2 rfl
      have hcontents := @writeContentData_eq host fresh c bytes n len hfresh hloaded hlength
        hwf.contents hwf.blocks hend hbefore hbehind
      unfold CIAFile.write
      rw [hstate n hn', hbuffer, hstate (n + len) (by omega)]
      show (if CIAInstallState.tmdLoaded ≠ .installStarted then
        (atProgress host fresh bytes c (u64 (n + len)) (contentDone c n)).writeBehindHeader host n _
          else _) = _
      rw [hwritten, if_pos nofun]
      unfold CIAFile.writeBehindHeader
      rw [hplace, if_neg (by omega), ok_bind, hsections, ok_bind]
      dsimp only
      rw [if_neg (atProgress_loaded _ _), hcontents, hbuffer]
      rfl

/-- A run of writes. -/
theorem ciaWriteAll_eq {n : ℕ} {buffers : List (List UInt8)} (hfresh : fresh.ciaTmd.tmdChunks = [])
    (hwf : WellFormedCIA fresh bytes c) (hhost : HostInstalls host c) {rest : List UInt8}
    (hsplit : bytes.drop n = buffers.flatten ++ rest) (hn : n ≤ bytes.length)
    (hboundary : BlockBoundary c n) (hfits : WritesFit c n buffers) :
    CIAFile.writeAll host (installedAfter host fresh bytes c n) n buffers =
      .ok (buffers.map fun buffer => .ok buffer.length,
        installedAfter host fresh bytes c (n + buffers.flatten.length)) := by
  induction buffers generalizing n with
  | nil => rfl
  | cons buffer buffers ih =>
      rw [List.flatten_cons, List.append_assoc] at hsplit
      obtain ⟨hheader, hbehind, hfits⟩ := hfits
      have hend : n + buffer.length ≤ bytes.length := by
        have hcount := congrArg List.length hsplit
        rw [List.length_drop, List.length_append] at hcount
        omega
      have hbuffer : (bytes.drop n).take buffer.length = buffer := by
        rw [hsplit, List.take_left]
      have hrest : bytes.drop (n + buffer.length) = buffers.flatten ++ rest := by
        rw [← List.drop_drop, hsplit, List.drop_left]
      have hwrite := ciaWrite_eq hfresh hwf hhost hend hheader hboundary hbehind
      rw [hbuffer] at hwrite
      rw [CIAFile.writeAll, hwrite, ok_bind]
      dsimp only
      rw [ih hrest hend hbehind hfits, ok_bind, List.flatten_cons, List.length_append,
        ← Nat.add_assoc]
      rfl

end Writes

section Faults

variable {host : InstallHost} {fresh c : CIAContainer} {bytes : List UInt8}

/-- A write that starts inside the header and ends behind it is copied past the end of the buffer. -/
theorem write_straddles {n len : ℕ} (hlength : bytes.length < 2 ^ 63)
    (hend : n + len ≤ bytes.length) (hstart : 0 < n) (hn : n < ciaHeaderSize)
    (hpast : ciaHeaderSize < n + len) :
    (installedAfter host fresh bytes c n).write host n ((bytes.drop n).take len) =
      .error .undefined := by
  have hbuffer : ((bytes.drop n).take len).length = len := by
    rw [List.length_take, List.length_drop]
    omega
  have hstate : installedAfter host fresh bytes c n =
      { written := n, container := fresh, data := bytes.take n } := if_pos hn
  have hread : readRun Fault.undefined ((bytes.drop n).take len) 0 (min len ciaHeaderSize) =
      .ok (((bytes.drop n).take len).take (min len ciaHeaderSize)) := by
    unfold readRun
    rw [if_pos (by omega), List.drop_zero]
  have hbuffered : (Bps.resize (bytes.take n) (min (n + len) ciaHeaderSize)).length =
      ciaHeaderSize := by
    unfold Bps.resize
    rw [List.length_append, List.length_take, List.length_take, List.length_replicate]
    omega
  have hwrite : writeRun Fault.undefined (Bps.resize (bytes.take n) (min (n + len) ciaHeaderSize)) n
      (((bytes.drop n).take len).take (min len ciaHeaderSize)) = .error .undefined := by
    unfold writeRun
    rw [hbuffered, List.length_take, hbuffer, if_neg (by omega)]
  have hstage : CIAFile.stageHeader
      { written := u64 (n + len), container := fresh, data := bytes.take n } n
        ((bytes.drop n).take len) = .error .undefined := by
    unfold CIAFile.stageHeader
    dsimp only
    rw [hbuffer, u64_of_lt (by omega), hread, ok_bind, hwrite]
    rfl
  unfold CIAFile.write
  rw [hstate, hbuffer]
  dsimp only
  rw [if_neg (not_not_intro rfl), hstage]
  rfl

/-- A write that ends inside a block of an encrypted content has a part of a block decrypted. -/
theorem write_cutsBlock {n len i : ℕ} (hfresh : fresh.ciaTmd.tmdChunks = [])
    (hwf : WellFormedCIA fresh bytes c) (hend : n + len ≤ bytes.length)
    (hn : c.getContentStart ≤ n) (hbefore : BlockBoundary c n) (hi : i < contentCount c)
    (hencrypted : isEncrypted c i) (hstarted : contentStart c i < n + len)
    (hinside : n + len < contentStart c i + contentSize c i)
    (hcut : ¬ aesBlockSize ∣ n + len - contentStart c i) :
    (installedAfter host fresh bytes c n).write host n ((bytes.drop n).take len) =
      .error .undefined := by
  have hloaded := loadBackend_success hwf.length hwf.loads
  have hlength := hwf.length
  have hheader := hwf.behindHeader
  have hbuffer : ((bytes.drop n).take len).length = len := by
    rw [List.length_take, List.length_drop]
    omega
  have hstate : installedAfter host fresh bytes c n =
      atProgress host fresh bytes c n (contentDone c n) := by
    unfold installedAfter
    rw [if_neg (by omega), if_neg (by omega)]
    rfl
  -- the contents before it have been written, or are by this write
  have hearlier : ∀ j < i, isEncrypted c j →
      aesBlockSize ∣ contentDone c n j ∧ aesBlockSize ∣ contentDone c (n + len) j := by
    intro j hj hencrypted
    have hblocks := hwf.blocks j (by omega) hencrypted
    have hbounds := contentStart_mono c (show j + 1 ≤ i from hj)
    rw [contentStart_succ] at hbounds
    refine ⟨done_blocks (by omega) hencrypted hblocks hbefore, ?_⟩
    have hwhole : contentDone c (n + len) j = contentSize c j := by
      unfold contentDone
      omega
    rw [hwhole]
    exact hblocks
  have hpart : ¬ aesBlockSize ∣ contentDone c (n + len) i := by
    have hplace : contentDone c (n + len) i = n + len - contentStart c i := by
      unfold contentDone
      omega
    rw [hplace]
    exact hcut
  have hfault := @writeContent_cut host fresh c bytes i n len (doneUpTo c n (n + len) i) hfresh
    hloaded hlength hwf.contents hi hend hencrypted
    (done_blocks hi hencrypted (hwf.blocks i hi hencrypted) hbefore) hpart
    (if_neg (Nat.lt_irrefl i))
  have hrange : List.range (contentCount c) =
      List.range i ++ i :: (List.range (contentCount c - (i + 1))).map (i + 1 + ·) := by
    have hcount : contentCount c = i + 1 + (contentCount c - (i + 1)) := by omega
    conv_lhs => rw [hcount, List.range_add, List.range_succ, List.append_assoc]
    rfl
  have hcontents : (atProgress host fresh bytes c (n + len) (contentDone c n)).writeContentData host
      n ((bytes.drop n).take len) = .error .undefined := by
    unfold CIAFile.writeContentData
    rw [length_contentWritten, hrange, List.foldlM_append,
      writeContents_eq hfresh hloaded hlength hwf.contents hend (Nat.le_of_lt hi) hearlier, ok_bind,
      List.foldlM_cons, hfault]
    rfl
  have hplace : (atProgress host fresh bytes c (n + len)
      (contentDone c n)).container.getContentStart = c.getContentStart := (offsets_congr rfl).2.2
  have hsections : (atProgress host fresh bytes c (n + len) (contentDone c n)).writeSections
      host = .ok (none, atProgress host fresh bytes c (n + len) (contentDone c n)) := by
    unfold CIAFile.writeSections
    exact if_neg fun h => h.2 rfl
  unfold CIAFile.write
  rw [hstate, hbuffer]
  show (if CIAInstallState.tmdLoaded ≠ .installStarted then
    (atProgress host fresh bytes c (u64 (n + len)) (contentDone c n)).writeBehindHeader host n _
      else _) = _
  rw [u64_of_lt (by omega), if_pos nofun]
  unfold CIAFile.writeBehindHeader
  rw [hplace, if_neg (by omega), ok_bind, hsections, ok_bind]
  dsimp only
  rw [if_neg (atProgress_loaded _ _), hcontents]
  rfl

end Faults

section SmallCIA

/-- A header without certificates or metadata, for a content of `0x10` bytes, and what fills the
section up. -/
def smallHeader : List UInt8 :=
  [0x20, 0x20, 0, 0, 0, 0, 0, 0, 0, 0, 0, 0, 0x50, 2, 0, 0, 0x34, 0x0A, 0, 0, 0, 0, 0, 0,
    0x10, 0, 0, 0, 0, 0, 0, 0, 0x80] ++ List.replicate 0x201F 0

def smallTicket : List UInt8 := [0, 1, 0, 2] ++ List.replicate 0x27C 0

/-- Title metadata for one content of a type. -/
def smallTmd (type : UInt8) : List UInt8 :=
  [0, 1, 0, 2] ++ (List.replicate 0xDA 0 ++ ([0, 1] ++ (List.replicate 0x924 0 ++
    ([0, 0, 0, 0, 0, 0, 0, type, 0, 0, 0, 0, 0, 0, 0, 0x10] ++ List.replicate 0x2C 0))))

/-- A CIA with one content of a type. -/
def smallCIA (type : UInt8) : List UInt8 :=
  smallHeader ++ (smallTicket ++ (smallTmd type ++ List.replicate 0x10 0xAB))

/-- A container that nothing has been loaded into. -/
def emptyContainer : CIAContainer := headerOnly []

/-- A machine that installs everything, with a key and a cipher that change nothing. -/
def plainHost : InstallHost where
  savesTmd _ := true
  opensContent _ _ := true
  getTitleKey _ := some []
  decryptBlock _ block := block

theorem plainHost_installs (c : CIAContainer) : HostInstalls plainHost c where
  savesTmd := rfl
  opensContents _ _ := rfl
  hasTitleKey _ := rfl

theorem length_smallHeader : smallHeader.length = 0x2040 := by
  unfold smallHeader
  rw [List.length_append, List.length_replicate]
  rfl

theorem length_smallTicket : smallTicket.length = 0x280 := by
  unfold smallTicket
  rw [List.length_append, List.length_replicate]
  rfl

theorem length_smallTmd (type : UInt8) : (smallTmd type).length = 0xA40 := by
  unfold smallTmd
  rw [List.length_append, List.length_append, List.length_append, List.length_append,
    List.length_append, List.length_replicate, List.length_replicate, List.length_replicate]
  rfl

theorem length_smallCIA (type : UInt8) : (smallCIA type).length = 0x2D10 := by
  unfold smallCIA
  rw [List.length_append, List.length_append, List.length_append, length_smallHeader,
    length_smallTicket, length_smallTmd, List.length_replicate]

theorem small_offsets :
    (headerOnly smallHeader).getTicketOffset = 0x2040 ∧
      (headerOnly smallHeader).ciaHeader.tikSize = 0x250 ∧
      (headerOnly smallHeader).getTitleMetadataOffset = 0x22C0 ∧
      (headerOnly smallHeader).ciaHeader.tmdSize = 0xA34 ∧
      (headerOnly smallHeader).getContentStart = 0x2D00 ∧
      (headerOnly smallHeader).ciaHeader.metaSize = 0 := by decide

theorem smallTicket_held : HoldsTicket (smallTicket.take 0x250) := by
  have hend : getSignatureSize (sectionType (smallTicket.take 0x250)) ≠ 0 ∧
      ticketEnd (smallTicket.take 0x250) = 0x250 := by decide
  unfold HoldsTicket
  rw [hend.2, List.length_take, length_smallTicket]
  exact ⟨by decide, hend.1, by decide⟩

theorem smallTmd_held {type : UInt8} (h : type = 0 ∨ type = 1) :
    HoldsTmd ((smallTmd type).take 0xA34) := by
  have hend : getSignatureSize (sectionType ((smallTmd type).take 0xA34)) ≠ 0 ∧
      tmdEnd ((smallTmd type).take 0xA34) = 0xA34 := by
    rcases h with rfl | rfl <;> decide
  unfold HoldsTmd
  rw [hend.2, List.length_take, length_smallTmd]
  exact ⟨by decide, hend.1, by decide⟩

/-- The chunk of the one content. -/
def smallChunk (type : UInt8) : ContentChunk where
  id := 0
  index := 0
  type := type.toNat
  size := 0x10
  hash := List.replicate 0x20 0

theorem smallChunk_plain : (smallChunk 0).encrypted = false := by decide

theorem smallTmd_chunks {type : UInt8} (h : type = 0 ∨ type = 1) :
    chunksOf (((smallTmd type).take 0xA34).drop (tmdBodyEnd ((smallTmd type).take 0xA34)))
      (declaredChunks ((smallTmd type).take 0xA34)) = [smallChunk type] := by
  rcases h with rfl | rfl <;> decide +kernel

/-- The small CIA is well formed, with one content of one block. -/
theorem smallCIA_wellFormed {type : UInt8} (h : type = 0 ∨ type = 1) :
    ∃ c, WellFormedCIA emptyContainer (smallCIA type) c ∧ c.getContentStart = 0x2D00 ∧
      contentCount c = 1 ∧ contentSize c 0 = 0x10 ∧
      isEncrypted c 0 = (smallChunk type).encrypted := by
  obtain ⟨htikOffset, htikSize, htmdOffset, htmdSize, hstart, hmeta⟩ := small_offsets
  have hbehind : (smallCIA type).drop 0x2040 =
      smallTicket ++ (smallTmd type ++ List.replicate 0x10 0xAB) :=
    List.drop_left' length_smallHeader
  have hbehind' : (smallCIA type).drop 0x22C0 = smallTmd type ++ List.replicate 0x10 0xAB := by
    rw [show (0x22C0 : ℕ) = 0x2040 + 0x280 from rfl, ← List.drop_drop, hbehind]
    exact List.drop_left' length_smallTicket
  have hticket : ((smallCIA type).drop (headerOnly smallHeader).getTicketOffset).take
      (headerOnly smallHeader).ciaHeader.tikSize = smallTicket.take 0x250 := by
    rw [htikOffset, htikSize, hbehind, List.take_append_of_le_length]
    rw [length_smallTicket]
    decide
  have htmd : ((smallCIA type).drop (headerOnly smallHeader).getTitleMetadataOffset).take
      (headerOnly smallHeader).ciaHeader.tmdSize = (smallTmd type).take 0xA34 := by
    rw [htmdOffset, htmdSize, hbehind', List.take_append_of_le_length]
    rw [length_smallTmd]
    decide
  have hheader : (headerOnly smallHeader).ciaHeader =
      Header.ofBytes ((smallCIA type).take ciaHeaderSize) := by
    unfold smallCIA
    rw [List.take_append_of_le_length]
    · rfl
    · rw [length_smallHeader]
      decide
  obtain ⟨c, hloads, hsame, hloaded⟩ := @loadBackend_whole (headerOnly smallHeader) emptyContainer (smallCIA type)
    (by rw [length_smallCIA]; decide) (by rw [length_smallCIA]; decide) hheader
    (by rw [htikOffset, htikSize, List.length_drop, length_smallCIA]; decide)
    (by rw [hticket]; exact smallTicket_held)
    (by rw [htmdOffset, htmdSize, List.length_drop, length_smallCIA]; decide)
    (by rw [htmd]; exact smallTmd_held h) hmeta
  rw [htmd] at hloaded
  have hchunks : (tmdOutcome emptyContainer.ciaTmd ((smallTmd type).take 0xA34)).2.tmdChunks =
      [smallChunk type] := by
    rw [tmdOutcome_chunks (smallTmd_held h), smallTmd_chunks h]
    rfl
  have hcount : c.ciaTmd.tmdChunks = [smallChunk type] := by
    rw [hloaded]
    exact hchunks
  have hplace : c.getContentStart = 0x2D00 := by
    rw [(offsets_congr hsame).2.2]
    exact hstart
  have hpresent : (headerOnly smallHeader).ciaHeader.isContentPresent 0 = .ok true := by
    decide
  have hsize : contentSize c 0 = 0x10 := by
    unfold contentSize CIAContainer.getContentSize
    rw [hsame, hpresent, hcount]
    rfl
  have hone : contentCount c = 1 := by
    unfold contentCount
    rw [hcount]
    rfl
  refine ⟨c, ?_, hplace, hone, hsize, ?_⟩
  · exact
      { length := by rw [length_smallCIA]; decide
        loads := hloads
        behindHeader := by rw [hplace]; decide
        contents := by
          rw [hone, contentStart_succ, contentStart_zero, hplace, hsize, length_smallCIA]
        blocks := by
          intro i hi _
          obtain rfl : i = 0 := by omega
          rw [hsize]
          decide }
  · unfold isEncrypted
    rw [hcount]
    rfl

end SmallCIA

section Installations

theorem installedAfter_state {host : InstallHost} {fresh c : CIAContainer} {bytes : List UInt8}
    {n : ℕ} : (installedAfter host fresh bytes c n).installState = installStateAfter c n := by
  unfold installedAfter installStateAfter
  split
  · rfl
  · split <;> rfl

theorem installStateAfter_ne {c : CIAContainer} {n : ℕ} :
    installStateAfter c n ≠ .contentWritten := by
  unfold installStateAfter
  split
  · nofun
  · split <;> nofun

/-- However a CIA is cut into writes that fit, every write succeeds within the buffers, and how far
the installation has come depends only on how many bytes have been written; when the contents have
been, each content file is its content, decrypted if it is encrypted. -/
theorem installation_independentOfCuts {host : InstallHost} {fresh c : CIAContainer}
    {bytes rest : List UInt8} {buffers : List (List UInt8)} (hfresh : fresh.ciaTmd.tmdChunks = [])
    (hwf : WellFormedCIA fresh bytes c) (hhost : HostInstalls host c)
    (hsplit : bytes = buffers.flatten ++ rest) (hfits : WritesFit c 0 buffers) :
    ∃ f, CIAFile.writeAll host { container := fresh } 0 buffers =
        .ok (buffers.map fun buffer => .ok buffer.length, f) ∧
      f = installedAfter host fresh bytes c buffers.flatten.length ∧
      f.installState = installStateAfter c buffers.flatten.length ∧
      (contentStart c (contentCount c) ≤ buffers.flatten.length →
        f.contentFiles = installedContents host bytes c) := by
  have hstart := hwf.behindHeader
  have hzero : installedAfter host fresh bytes c 0 = { container := fresh } := if_pos (by decide)
  have hboundary : BlockBoundary c 0 := fun i _ _ h => absurd h (Nat.not_lt_zero _)
  have hrun := ciaWriteAll_eq hfresh hwf hhost (n := 0) (by rw [List.drop_zero]; exact hsplit)
    (Nat.zero_le _) hboundary hfits
  rw [hzero, Nat.zero_add] at hrun
  refine ⟨_, hrun, rfl, ?_, fun hall => ?_⟩
  · exact installedAfter_state
  · have hbefore := contentStart_ge c (contentCount c)
    unfold installedAfter installedContents
    rw [if_neg (by omega), if_neg (by omega)]
    apply List.map_congr_left
    intro i hi
    have hbounds := (content_bounds (List.mem_range.mp hi)).2
    unfold partsAfter
    rw [List.take_of_length_le]
    rw [length_contentSlice (List.mem_range.mp hi) hwf.contents]
    unfold contentDone
    omega

/-- The small CIA with an unencrypted content, in two writes, the first of them the header. -/
theorem installation_independentOfCuts_small :
    ∃ f, CIAFile.writeAll plainHost { container := emptyContainer } 0
        [(smallCIA 0).take ciaHeaderSize, (smallCIA 0).drop ciaHeaderSize] =
        .ok ([(smallCIA 0).take ciaHeaderSize, (smallCIA 0).drop ciaHeaderSize].map
          fun buffer => .ok buffer.length, f) ∧
      f.installState = .tmdLoaded := by
  obtain ⟨c, hwf, hstart, hcount, hsize, hencrypted⟩ := smallCIA_wellFormed (.inl rfl)
  have hcuts : smallCIA 0 =
      [(smallCIA 0).take ciaHeaderSize, (smallCIA 0).drop ciaHeaderSize].flatten ++ [] := by
    rw [List.append_nil, List.flatten_cons, List.flatten_cons, List.flatten_nil, List.append_nil,
      List.take_append_drop]
  have hlength : [(smallCIA 0).take ciaHeaderSize, (smallCIA 0).drop ciaHeaderSize].flatten.length =
      0x2D10 := by
    have h := congrArg List.length hcuts
    rw [List.append_nil, length_smallCIA] at h
    exact h.symm
  have hboundary : ∀ n, BlockBoundary c n := by
    intro n i hi h
    obtain rfl : i = 0 := by omega
    rw [hencrypted, smallChunk_plain] at h
    exact absurd h Bool.false_ne_true
  have hheader : ((smallCIA 0).take ciaHeaderSize).length = ciaHeaderSize := by
    rw [List.length_take, length_smallCIA]
    rfl
  obtain ⟨f, hrun, -, hstate, -⟩ := @installation_independentOfCuts plainHost emptyContainer c
    (smallCIA 0) [] _ rfl hwf (plainHost_installs c) hcuts
    ⟨.inl rfl, hboundary _, .inr (.inl (by rw [hheader, Nat.zero_add])), hboundary _, trivial⟩
  refine ⟨f, hrun, ?_⟩
  rw [hstate, hlength]
  unfold installStateAfter
  rw [hstart]
  rfl

/-- The small CIA is never recorded as written; a write from its second byte on is copied past the end
of the buffer; and if its content is encrypted, a write of half a block of it has half a block
decrypted. -/
theorem installation_smallCuts :
    (¬ ∀ (host : InstallHost) (fresh c : CIAContainer) (bytes : List UInt8),
      fresh.ciaTmd.tmdChunks = [] → WellFormedCIA fresh bytes c → HostInstalls host c →
        ∀ buffers, buffers.flatten = bytes → InstallsWhole host fresh bytes c buffers) ∧
      (∃ c, WellFormedCIA emptyContainer (smallCIA 0) c ∧
        CIAFile.writeAll plainHost { container := emptyContainer } 0
          [(smallCIA 0).take 1, (smallCIA 0).drop 1] = .error .undefined) ∧
      ∃ c, WellFormedCIA emptyContainer (smallCIA 1) c ∧
        CIAFile.writeAll plainHost { container := emptyContainer } 0
          [(smallCIA 1).take 0x2D00, ((smallCIA 1).drop 0x2D00).take 8, (smallCIA 1).drop 0x2D08] =
            .error .undefined := by
  have hempty : ∀ c : CIAContainer, ∀ bytes,
      installedAfter plainHost emptyContainer bytes c 0 = { container := emptyContainer } :=
    fun _ _ => if_pos (by decide)
  have hzero : ∀ c : CIAContainer, BlockBoundary c 0 := fun _ i _ _ h => absurd h (Nat.not_lt_zero _)
  refine ⟨?_, ?_, ?_⟩
  · obtain ⟨c, hwf, hstart, hcount, hsize, hencrypted⟩ := smallCIA_wellFormed (.inl rfl)
    intro hall
    obtain ⟨results, f, hrun, -, hstate⟩ := hall plainHost emptyContainer c (smallCIA 0) rfl hwf
      (plainHost_installs c) [smallCIA 0] (by rw [List.flatten_singleton])
    have hwrites := @ciaWriteAll_eq plainHost emptyContainer c (smallCIA 0) 0 [smallCIA 0] rfl hwf
      (plainHost_installs c) [] (by rw [List.drop_zero, List.flatten_singleton, List.append_nil])
      (Nat.zero_le _) (hzero c) ⟨.inl rfl, fun i hi h => by
        obtain rfl : i = 0 := by omega
        rw [hencrypted, smallChunk_plain] at h
        exact absurd h Bool.false_ne_true, trivial⟩
    rw [hempty] at hwrites
    rw [hwrites] at hrun
    obtain rfl := (Prod.mk.inj (Except.ok.inj hrun)).2
    rw [installedAfter_state] at hstate
    exact installStateAfter_ne hstate
  · obtain ⟨c, hwf, hstart, hcount, hsize, hencrypted⟩ := smallCIA_wellFormed (.inl rfl)
    have hlength := length_smallCIA 0
    have hfirst := @ciaWrite_eq plainHost emptyContainer c (smallCIA 0) 0 1 rfl hwf
      (plainHost_installs c) (by omega) (.inl rfl) (hzero c) (fun i hi h => by
        obtain rfl : i = 0 := by omega
        rw [hencrypted, smallChunk_plain] at h
        exact absurd h Bool.false_ne_true)
    have hsecond := @write_straddles plainHost emptyContainer c (smallCIA 0) 1 0x2D0F hwf.length
      (by omega) (by decide) (by decide) (by decide)
    have hrest : ((smallCIA 0).drop 1).take 0x2D0F = (smallCIA 0).drop 1 :=
      List.take_of_length_le (by rw [List.length_drop, hlength])
    have hone : ((smallCIA 0).take 1).length = 1 := by rw [List.length_take, hlength]; rfl
    rw [hempty, List.drop_zero] at hfirst
    rw [hrest] at hsecond
    refine ⟨c, hwf, ?_⟩
    rw [CIAFile.writeAll, hfirst, ok_bind]
    dsimp only
    rw [hone, CIAFile.writeAll, Nat.zero_add, hsecond]
    rfl
  · obtain ⟨c, hwf, hstart, hcount, hsize, hencrypted⟩ := smallCIA_wellFormed (.inr rfl)
    have hlength := length_smallCIA 1
    have hcontent : contentStart c 0 = 0x2D00 := (contentStart_zero c).trans hstart
    have hboundary : BlockBoundary c 0x2D00 := by
      intro i hi h hlt
      have := contentStart_ge c i
      omega
    have hfirst := @ciaWrite_eq plainHost emptyContainer c (smallCIA 1) 0 0x2D00 rfl hwf
      (plainHost_installs c) (by omega) (.inl rfl) (hzero c) (by rw [Nat.zero_add]; exact hboundary)
    have hsecond := @write_cutsBlock plainHost emptyContainer c (smallCIA 1) 0x2D00 8 0 rfl hwf
      (by omega) (by omega) hboundary (by omega) (by rw [hencrypted]; decide) (by omega) (by omega)
      (by rw [hcontent]; decide)
    have hone : ((smallCIA 1).take 0x2D00).length = 0x2D00 := by rw [List.length_take, hlength]; rfl
    rw [hempty, List.drop_zero] at hfirst
    refine ⟨c, hwf, ?_⟩
    rw [CIAFile.writeAll, hfirst, ok_bind]
    dsimp only
    rw [hone, CIAFile.writeAll, Nat.zero_add, hsecond]
    rfl

end Installations

end Borked3DS.Analysis
