import Mathlib.Data.List.TakeWhile
import Borked3DS.Interface.CIAInstall

/-!
# Closing an update

The loop over the old contents stops at the first that the new title metadata list as well, so that
it removes what is in front of that one.
-/

set_option autoImplicit false

namespace Borked3DS.Analysis.Cia

open Borked3DS.Library Borked3DS.Model Borked3DS.Model.Cia Borked3DS.Interface.Cia

/-! ## Files -/

section Files

variable {storage storage' : Storage} {system : System} {path : TitlePath}

theorem read_delete_self (storage : Storage) (path : TitlePath) :
    (storage.delete path).read path = none := by
  unfold Storage.read Storage.delete
  rw [Option.map_eq_none_iff, List.find?_eq_none]
  intro file hfile
  simpa using (List.mem_filter.mp hfile).2

theorem read_delete_of_ne {q : TitlePath} (h : q ≠ path) :
    (storage.delete path).read q = storage.read q := by
  unfold Storage.read Storage.delete
  rw [List.find?_filter]
  congr 2
  funext file
  by_cases hq : file.1 = q
  · simp [hq, h]
  · simp [hq]

/-- The title metadata are those of the storage before. -/
structure SameTmds (storage storage' : Storage) : Prop where
  ids : ∀ titleId, storage'.tmdIds titleId = storage.tmdIds titleId
  read : ∀ titleId id, storage'.read ⟨titleId, .tmd id⟩ = storage.read ⟨titleId, .tmd id⟩

theorem sameTmds_delete (storage : Storage) (titleId : ℕ) (inFolder : Bool) (contentId : ℕ) :
    SameTmds storage (storage.delete ⟨titleId, .app inFolder contentId⟩) where
  ids := by
    intro t
    unfold Storage.tmdIds Storage.delete
    rw [List.filterMap_filter]
    congr 1
    funext ⟨p, bytes⟩
    by_cases hp : p = ⟨titleId, .app inFolder contentId⟩
    · simp [hp]
    · simp [hp]
  read := fun t id => read_delete_of_ne (by simp)

theorem getTitleMetadataPath_same (h : SameTmds storage storage') (titleId : ℕ) (update : Bool) :
    storage'.getTitleMetadataPath titleId update = storage.getTitleMetadataPath titleId update := by
  unfold Storage.getTitleMetadataPath
  rw [h.ids]

theorem loadTmd_same (h : SameTmds storage storage') (titleId : ℕ) (update : Bool) :
    storage'.loadTmd (storage'.getTitleMetadataPath titleId update) =
      storage.loadTmd (storage.getTitleMetadataPath titleId update) := by
  rw [getTitleMetadataPath_same h]
  unfold Storage.loadTmd
  rw [show storage'.read (storage.getTitleMetadataPath titleId update) =
    storage.read (storage.getTitleMetadataPath titleId update) from h.read _ _]

/-- The path of a content that the metadata of a title list. -/
theorem getTitleContentPath_eq {tmd : TitleMetadata} {chunk : ContentChunk} {index : ℕ}
    (hload : storage.loadTmd (storage.getTitleMetadataPath tmd.getTitleID false) =
      .ok (.success, tmd)) (hchunk : tmd.tmdChunks[index]? = some chunk) :
    storage.getTitleContentPath tmd.getTitleID index false =
      .ok (some (contentPath tmd chunk.id)) := by
  unfold Storage.getTitleContentPath
  rw [hload, ok_bind]
  simp [hchunk, contentPath]

end Files

/-! ## Removing contents -/

section Removing

variable {oldTmd newTmd : TitleMetadata} {system system' : System} {storage storage' : Storage}

/-- What stays of a path is what stayed of it before. -/
def Unchanged (system system' : System) (storage storage' : Storage) (path : TitlePath) : Prop :=
  storage'.read path = storage.read path ∧
    (Stays system' storage' path ↔ Stays system storage path)

theorem unchanged_trans {system'' : System} {storage'' : Storage} {path : TitlePath}
    (h : Unchanged system system' storage storage' path)
    (h' : Unchanged system' system'' storage' storage'' path) :
    Unchanged system system'' storage storage'' path :=
  ⟨h'.1.trans h.1, h'.2.trans h.2⟩

/-- A content is removed, and nothing else. -/
theorem removeContent_spec (titleId : ℕ) (inFolder : Bool) (contentId : ℕ) (system : System)
    (storage : Storage) :
    ∃ system' storage',
      removeContent (some ⟨titleId, .app inFolder contentId⟩) system storage = (system', storage') ∧
      SameTmds storage storage' ∧ ¬ Stays system' storage' ⟨titleId, .app inFolder contentId⟩ ∧
      ∀ q, q ≠ ⟨titleId, .app inFolder contentId⟩ →
        Unchanged system system' storage storage' q := by
  set path : TitlePath := ⟨titleId, .app inFolder contentId⟩ with hpath
  have hdelete : ∀ system : System, SameTmds storage (storage.delete path) ∧
      ¬ Stays system (storage.delete path) path ∧
      ∀ q, q ≠ path → Unchanged system system storage (storage.delete path) q := by
    intro system
    refine ⟨sameTmds_delete storage titleId inFolder contentId, fun h => ?_, fun q hq => ?_⟩
    · simp [Stays, Storage.fileExists, read_delete_self] at h
    · have hread : (storage.delete path).read q = storage.read q := read_delete_of_ne hq
      exact ⟨hread, by simp [Stays, Storage.fileExists, hread]⟩
  unfold removeContent
  cases hpower : system.poweredOn with
  | false =>
      exact ⟨system, storage.delete path, rfl, hdelete system⟩
  | true =>
      by_cases hself : system.filepath = some path
      · refine ⟨{ system with selfDeletePending := true }, storage,
          by simp [System.setSelfDelete, hself], ⟨fun _ => rfl, fun _ _ => rfl⟩, ?_, ?_⟩
        · simp [Stays, hself]
        · intro q hq
          have hne : system.filepath ≠ some q := by
            rw [hself]
            simpa using hq.symm
          exact ⟨rfl, by simp [Stays, hne]⟩
      · exact ⟨system, storage.delete path, by simp [System.setSelfDelete, hself],
          hdelete system⟩

/-- The loop goes on behind a content that the new title metadata do not list. -/
theorem removeOldContents_cons {chunk : ContentChunk} {chunks : List ContentChunk} {index : ℕ}
    {toDelete : Option TitlePath} (hlisted : ¬ listed newTmd chunk.id = true)
    (hpath : storage.getTitleContentPath oldTmd.getTitleID index false = .ok toDelete)
    (hremove : removeContent toDelete system storage = (system', storage')) :
    removeOldContents oldTmd newTmd index (chunk :: chunks) system storage =
      removeOldContents oldTmd newTmd (index + 1) chunks system' storage' := by
  refine (if_neg hlisted).trans ?_
  rw [hpath, ok_bind, hremove]

/-- What the loop removes, from one of the old contents on: the contents up to the first that the
new title metadata list as well. -/
theorem removeOldContents_spec {chunks : List ContentChunk} {index : ℕ}
    (hchunks : oldTmd.tmdChunks.drop index = chunks)
    (hload : storage.loadTmd (storage.getTitleMetadataPath oldTmd.getTitleID false) =
      .ok (.success, oldTmd)) :
    ∃ system' storage',
      removeOldContents oldTmd newTmd index chunks system storage = .ok (system', storage') ∧
      SameTmds storage storage' ∧
      (∀ chunk ∈ chunks.takeWhile fun chunk => !listed newTmd chunk.id,
        ¬ Stays system' storage' (contentPath oldTmd chunk.id)) ∧
      ∀ q, (∀ chunk ∈ chunks.takeWhile fun chunk => !listed newTmd chunk.id,
          q ≠ contentPath oldTmd chunk.id) →
        Unchanged system system' storage storage' q := by
  induction chunks generalizing index system storage with
  | nil =>
      exact ⟨system, storage, rfl, ⟨fun _ => rfl, fun _ _ => rfl⟩, by simp,
        fun q _ => ⟨rfl, Iff.rfl⟩⟩
  | cons chunk chunks ih =>
      by_cases hlisted : listed newTmd chunk.id = true
      · refine ⟨system, storage, if_pos hlisted, ⟨fun _ => rfl, fun _ _ => rfl⟩, ?_,
          fun q _ => ⟨rfl, Iff.rfl⟩⟩
        simp [hlisted]
      · have hchunk : oldTmd.tmdChunks[index]? = some chunk := by
          rw [← List.head?_drop, hchunks]
          rfl
        have hrest : oldTmd.tmdChunks.drop (index + 1) = chunks := by
          rw [← List.tail_drop, hchunks]
          rfl
        obtain ⟨system₁, storage₁, hremove, hsame₁, hgone, hothers⟩ :=
          removeContent_spec oldTmd.getTitleID oldTmd.inFolder chunk.id system storage
        obtain ⟨system', storage', hloop, hsame, hremoved, hkept⟩ :=
          @ih system₁ storage₁ (index + 1) hrest (by rw [loadTmd_same hsame₁, hload])
        refine ⟨system', storage', ?_, ⟨fun t => ?_, fun t id => ?_⟩, ?_, ?_⟩
        · rw [removeOldContents_cons hlisted (getTitleContentPath_eq hload hchunk) hremove]
          exact hloop
        · rw [hsame.ids, hsame₁.ids]
        · rw [hsame.read, hsame₁.read]
        all_goals
          simp only [List.takeWhile_cons, hlisted, Bool.not_false, if_true, List.mem_cons,
            forall_eq_or_imp]
        · refine ⟨?_, hremoved⟩
          by_cases hagain : ∃ later ∈ chunks.takeWhile fun chunk => !listed newTmd chunk.id,
              later.id = chunk.id
          · obtain ⟨later, hlater, hid⟩ := hagain
            rw [← hid]
            exact hremoved later hlater
          · refine fun hstays => hgone (((hkept _ fun later hlater heq => ?_).2).mp hstays)
            refine hagain ⟨later, hlater, ?_⟩
            simpa [contentPath] using heq.symm
        · rintro q ⟨hne, hnone⟩
          exact unchanged_trans (hothers q hne) (hkept q hnone)

end Removing

/-! ## Closing -/

section Closing

variable {f : CIAFile} {oldTmd newTmd : TitleMetadata} {system : System} {storage : Storage}

theorem fileExists_of_loadTmd {path : TitlePath} {tmd : TitleMetadata}
    (h : storage.loadTmd path = .ok (.success, tmd)) : storage.fileExists path = true := by
  unfold Storage.loadTmd at h
  unfold Storage.fileExists
  cases hread : storage.read path with
  | none =>
      rw [hread] at h
      cases h
  | some bytes => rfl

/-- A complete installation that replaces older title metadata runs the loop over their contents,
and removes them. -/
theorem close_eq (h : Replacing f storage oldTmd newTmd) {system' : System} {storage' : Storage}
    (hloop : removeOldContents oldTmd newTmd 0 oldTmd.tmdChunks system storage =
      .ok (system', storage')) :
    f.close system storage = .ok (system', storage'.delete
      (storage.getTitleMetadataPath f.container.ciaTmd.getTitleID false)) := by
  unfold CIAFile.close
  rw [h.complete, ok_bind]
  refine (if_neg (by simp)).trans ((if_pos ⟨fileExists_of_loadTmd h.new, h.apart⟩).trans ?_)
  rw [h.old, ok_bind]
  dsimp only
  rw [h.new, ok_bind]
  dsimp only
  rw [hloop]
  rfl

/-- A content in front of the first that both list is stale. -/
theorem stale_of_inFront {chunk : ContentChunk} (h : chunk ∈ inFront oldTmd newTmd) :
    Stale oldTmd newTmd chunk.id := by
  refine ⟨?_, by simpa using List.mem_takeWhile_imp h⟩
  exact List.any_eq_true.mpr ⟨chunk, List.takeWhile_subset _ h, by simp⟩

/-- Closing an update removes the stale contents and no others exactly when each of them is listed
in front of the first content that stays, or has no file. -/
theorem close_removesStale_iff (f : CIAFile) (system : System) (storage : Storage)
    (oldTmd newTmd : TitleMetadata) (h : Replacing f storage oldTmd newTmd) :
    ∃ system' storage', f.close system storage = .ok (system', storage') ∧
      (RemovesStale oldTmd newTmd system system' storage storage' ↔
        StaleInFront oldTmd newTmd system storage) := by
  obtain ⟨system', storage', hloop, -, hremoved, hkept⟩ :=
    @removeOldContents_spec oldTmd newTmd system storage _ 0 List.drop_zero (h.title ▸ h.old)
  refine ⟨system', _, close_eq h hloop, ?_⟩
  generalize htmd : storage.getTitleMetadataPath f.container.ciaTmd.getTitleID false = tmdPath
  have hfile : ∃ titleId id, tmdPath = ⟨titleId, .tmd id⟩ := ⟨_, _, htmd.symm⟩
  obtain ⟨titleId, id, rfl⟩ := hfile
  -- the contents are those that the loop leaves, as the old title metadata are none of them
  have hread : ∀ t b c, (storage'.delete ⟨titleId, .tmd id⟩).read ⟨t, .app b c⟩ =
      storage'.read ⟨t, .app b c⟩ := fun t b c => read_delete_of_ne (by simp)
  have hstays : ∀ t b c, Stays system' (storage'.delete ⟨titleId, .tmd id⟩) ⟨t, .app b c⟩ ↔
      Stays system' storage' ⟨t, .app b c⟩ := by
    intro t b c
    simp only [Stays, Storage.fileExists, hread]
  constructor
  · intro hright contentId hstale
    by_cases hfront : contentId ∈ (inFront oldTmd newTmd).map ContentChunk.id
    · exact Or.inl hfront
    · refine Or.inr fun hbefore => hright.removed contentId hstale ((hstays _ _ _).mpr ?_)
      refine ((hkept _ fun chunk hchunk heq => hfront ?_).2).mpr hbefore
      have hid : contentId = chunk.id := by simpa [contentPath] using heq
      exact List.mem_map.mpr ⟨chunk, hchunk, hid.symm⟩
  · intro hfront
    refine ⟨fun contentId hstale hafter => ?_, fun t b c hother => ?_⟩
    · have hafter := (hstays _ _ _).mp hafter
      by_cases hmem : contentId ∈ (inFront oldTmd newTmd).map ContentChunk.id
      · obtain ⟨chunk, hchunk, rfl⟩ := List.mem_map.mp hmem
        exact hremoved chunk hchunk hafter
      · refine ((hfront contentId hstale).resolve_left hmem) ?_
        refine ((hkept _ fun chunk hchunk heq => hmem ?_).2).mp hafter
        have hid : contentId = chunk.id := by simpa [contentPath] using heq
        exact List.mem_map.mpr ⟨chunk, hchunk, hid.symm⟩
    · have hunchanged := hkept ⟨t, .app b c⟩ fun chunk hchunk heq => by
        have hid : c = chunk.id := by
          have := congrArg TitlePath.file heq
          simp only [contentPath, TitleFile.app.injEq] at this
          exact this.2
        exact hother (hid ▸ stale_of_inFront hchunk) (hid ▸ heq)
      exact ⟨(hread t b c).trans hunchanged.1, (hstays t b c).trans hunchanged.2⟩

end Closing

/-! ## Two updates -/

section Updates

/-- Title metadata of title 0 that list contents with these IDs. -/
def titleTmd (contentIds : List UInt8) : List UInt8 :=
  [0, 1, 0, 2] ++ (List.replicate 0xDA 0 ++ ([0, UInt8.ofNat contentIds.length] ++
    (List.replicate 0x924 0 ++
      contentIds.flatMap fun id => [0, 0, 0, id] ++ List.replicate 0x2C 0)))

/-- These title metadata as they are loaded. -/
def loadedTmd (contentIds : List UInt8) : TitleMetadata where
  tmdBody := List.replicate 0x9E 0 ++ ([0, UInt8.ofNat contentIds.length] ++ List.replicate 0x924 0)
  signatureType := 0x10002
  tmdSignature := List.replicate 0x3C 0
  tmdChunks := contentIds.map fun id =>
    { id := id.toNat, index := 0, type := 0, size := 0, hash := List.replicate 0x20 0 }

/-- The title has these contents, and an update has come beside it that has one content. -/
def updatedStorage (contentIds : List UInt8) : Storage where
  files := [(⟨0, .tmd 0⟩, titleTmd contentIds), (⟨0, .tmd 1⟩, titleTmd [1])] ++
    contentIds.map fun id => (⟨0, .app false id.toNat⟩, [])

/-- The installation of the update, which is complete. -/
def updateFile : CIAFile where
  installState := .tmdLoaded
  contentWritten := [0]
  container :=
    { ciaHeader := Header.ofBytes (List.replicate 0x2020 0)
      ciaMetadata := []
      ciaTicket := { ticketBody := [], signatureType := 0, ticketSignature := [] }
      ciaTmd := loadedTmd [1] }

theorem replacing_update {contentIds : List UInt8}
    (h : contentIds = [1, 2] ∨ contentIds = [2, 1]) :
    Replacing updateFile (updatedStorage contentIds) (loadedTmd contentIds) (loadedTmd [1]) := by
  rcases h with rfl | rfl
  all_goals
    exact ⟨by decide +kernel, by decide +kernel, by decide +kernel, by decide +kernel,
      by decide +kernel⟩

/-- The second content of two is dropped: the loop stops at the first, which stays, and leaves the
file. -/
theorem close_leavesStale :
    ∃ system' storage', updateFile.close { poweredOn := false, filepath := none }
        (updatedStorage [1, 2]) = .ok (system', storage') ∧
      Stale (loadedTmd [1, 2]) (loadedTmd [1]) 2 ∧
      Stays system' storage' (contentPath (loadedTmd [1, 2]) 2) := by
  refine ⟨{ poweredOn := false, filepath := none },
    (updatedStorage [1, 2]).delete ⟨0, .tmd 0⟩, by decide +kernel,
    ⟨by decide +kernel, by decide +kernel⟩, by decide +kernel, by decide⟩

/-- The first content of two is dropped. -/
theorem close_removesStale_first :
    ∃ system' storage', updateFile.close { poweredOn := false, filepath := none }
        (updatedStorage [2, 1]) = .ok (system', storage') ∧
      RemovesStale (loadedTmd [2, 1]) (loadedTmd [1]) { poweredOn := false, filepath := none }
        system' (updatedStorage [2, 1]) storage' := by
  obtain ⟨system', storage', hclose, hiff⟩ := close_removesStale_iff updateFile
    { poweredOn := false, filepath := none } (updatedStorage [2, 1]) (loadedTmd [2, 1])
    (loadedTmd [1]) (replacing_update (Or.inr rfl))
  refine ⟨system', storage', hclose, hiff.mpr fun contentId hstale => Or.inl ?_⟩
  obtain ⟨hold, hnew⟩ := hstale
  obtain ⟨chunk, hchunk, hid⟩ := List.any_eq_true.mp hold
  have hcases : chunk.id = 2 ∨ chunk.id = 1 := by
    simp only [loadedTmd, List.map_cons, List.map_nil, List.mem_cons, List.not_mem_nil,
      or_false] at hchunk
    rcases hchunk with rfl | rfl
    · exact Or.inl rfl
    · exact Or.inr rfl
  obtain rfl : contentId = chunk.id := of_decide_eq_true hid
  rcases hcases with htwo | hone
  · rw [htwo]
    decide
  · rw [hone] at hnew
    exact absurd (by decide) hnew

end Updates

end Borked3DS.Analysis.Cia
