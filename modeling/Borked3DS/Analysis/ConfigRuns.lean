import Borked3DS.Analysis.ConfigStore
import Borked3DS.Library.FaultAvoidance

/-!
# Runs on the config savegame

A savegame that has been formatted keeps its blocks as long as none is created twice or without
room; one that has been loaded is used inside the buffer as long as its entries point into it.
-/

set_option autoImplicit false

namespace Borked3DS.Analysis

open Borked3DS.Library Borked3DS.Model Borked3DS.Model.CFG Borked3DS.Interface

/-! ## Formatted savegames -/

section Formatted

variable {s t : ConfigStore} {call : ConfigCall}

/-- The savegame holds its blocks, those with a default among them. -/
structure KeepsBlocks (s : ConfigStore) : Prop where
  stores : Stores s.buffer s.blocks
  defaults : HasDefaults s.blocks

/-- What fits keeps the blocks and is right. -/
theorem configStep_of_fits (h : KeepsBlocks s) (hfits : ConfigCallFits s call) :
    ∃ t, configStep s call = .ok t ∧ KeepsBlocks t ∧ ConfigCallRight s call := by
  cases call with
  | create block =>
      obtain ⟨result, buffer, hcreate, -, hstores⟩ := h.stores.createConfigBlock hfits
      dsimp only [configStep]
      rw [hcreate, ok_bind]
      refine ⟨_, rfl, ⟨hstores, ?_⟩, trivial⟩
      dsimp only
      split
      · exact h.defaults.append _
      · exact h.defaults
  | set opened blockId accessFlag input =>
      obtain ⟨result, buffer, hset, hstores⟩ :=
        @Stores.setConfigBlock _ _ blockId accessFlag h.stores h.defaults opened input
      dsimp only [configStep]
      rw [hset, ok_bind]
      dsimp only
      rw [withDefault_of_hasDefaults h.defaults]
      refine ⟨_, rfl, ⟨hstores, ?_⟩, trivial⟩
      dsimp only
      split
      · exact h.defaults.setBlock _ _
      · exact h.defaults
  | get opened artic blockId size accessFlag =>
      have hblocks := withDefault_of_hasDefaults h.defaults blockId
      cases hartic : (if getFromArtic blockId accessFlag then artic else none) with
      | none =>
          obtain ⟨outcome, hget, hreads⟩ :=
            @Stores.get _ _ blockId size accessFlag h.stores h.defaults opened artic hartic
          dsimp only [configStep]
          rw [hget, ok_bind]
          dsimp only
          rw [hblocks, ite_self]
          refine ⟨_, rfl, h, fun buffer outcome' houtcome => ?_⟩
          cases hget.symm.trans houtcome
          rwa [hblocks]
      | some answer =>
          have hget : getConfigBlock s.buffer opened artic blockId size accessFlag =
              .ok (s.buffer, answer.outcome size) := by
            unfold getConfigBlock
            rw [hartic]
          have hasked : getFromArtic blockId accessFlag = true := by
            by_contra hnot
            rw [if_neg hnot] at hartic
            cases hartic
          rw [if_pos hasked] at hartic
          dsimp only [configStep]
          rw [hget, ok_bind]
          dsimp only
          rw [hblocks, ite_self]
          refine ⟨_, rfl, h, fun buffer outcome' houtcome => ?_⟩
          cases hget.symm.trans houtcome
          rw [hblocks]
          exact hfits hasked answer hartic

/-- An entry that is in use stays as it is when a block is created. -/
theorem Stores.entry_created_old {buffer : ConfigBuffer} {blocks : List ConfigBlock}
    {other : ConfigBlock} {i : ℕ} (h : Stores buffer blocks) (block : ConfigBlock)
    (hi : blocks[i]? = some other) : (created buffer block).entry i = buffer.entry i := by
  have hlt := lt_length hi
  have hinside := entryOffset_add_le (h.lt_max hi)
  refine SameFrom.entry (created_same ?_ (Or.inl ?_) fun _ => Or.inl ?_)
  · unfold entryOffset
    omega
  · rw [h.total]
    unfold entryOffset
    omega
  · rw [h.nextOffset]
    exact Nat.le_trans hinside (le_blocksEnd blocks)

/-- What is right fits. -/
theorem fits_of_configStep (h : KeepsBlocks s) (hstep : configStep s call = .ok t)
    (ht : WellFormed t.buffer) (hright : ConfigCallRight s call) : ConfigCallFits s call := by
  cases call with
  | create block =>
      intro hleft
      have hleft' : s.buffer.totalEntries < CONFIG_FILE_MAX_BLOCK_ENTRIES :=
        h.stores.total ▸ hleft
      obtain ⟨⟨result, buffer⟩, hcreate, hrest⟩ := bind_eq_ok.mp hstep
      rw [createConfigBlock_eq hleft'] at hcreate
      by_cases hroom : 4 < block.data.val.length →
          (nextOffset s.buffer).toNat + block.data.val.length ≤ CONFIG_SAVEFILE_SIZE
      · rw [if_pos hroom] at hcreate
        cases hcreate
        cases hrest
        have hbehind : 4 < block.data.val.length → 0x455C ≤ (nextOffset s.buffer).toNat := by
          intro _
          rw [h.stores.nextOffset]
          exact le_blocksEnd s.blocks
        refine ⟨fun other hmem hsame => ?_, h.stores.nextOffset ▸ hroom⟩
        obtain ⟨i, hi⟩ := List.mem_iff_getElem?.mp hmem
        have hlt : i < s.buffer.totalEntries := h.stores.total ▸ lt_length hi
        refine ht.distinct i s.buffer.totalEntries hlt ?_ ?_
        · rw [totalEntries_created hbehind hleft']
          exact Nat.lt_succ_self _
        · have hkept := h.stores.entry_created_old block hi
          rw [hkept, (h.stores.holds i other hi).blockId, (entry_created hbehind hleft').1]
          exact hsame
      · rw [if_neg hroom] at hcreate
        cases hcreate
  | set opened blockId accessFlag input => trivial
  | get opened artic blockId size accessFlag =>
      intro hasked answer hartic
      have hget : getConfigBlock s.buffer opened artic blockId size accessFlag =
          .ok (s.buffer, answer.outcome size) := by
        unfold getConfigBlock
        rw [if_pos hasked, hartic]
      have hreads := hright _ _ hget
      rwa [withDefault_of_hasDefaults h.defaults] at hreads

end Formatted

/-! ## Loaded savegames -/

section Loaded

variable {buffer : ConfigBuffer} {opened : Bool} {blockId size : UInt32} {accessFlag : AccessFlag}

/-- An entry that is accessed has to have its data inside the buffer. -/
theorem accessEntry_inside_iff {i : ℕ} (hi : i < CONFIG_FILE_MAX_BLOCK_ENTRIES) :
    (∀ pointer, accessEntry buffer i size accessFlag = .ok pointer →
      pointer + size.toNat ≤ CONFIG_SAVEFILE_SIZE) ↔ EntryInside buffer i size accessFlag := by
  have hentry := entryOffset_add_le hi
  unfold accessEntry EntryInside
  dsimp only
  by_cases hflags : (buffer.entry i).accessFlags &&& accessFlag = 0
  · rw [if_pos hflags]
    exact ⟨fun _ hnot => absurd hflags hnot, fun _ _ h => (nomatch h)⟩
  · rw [if_neg hflags]
    by_cases hsize : (buffer.entry i).size.toUInt32 = size
    · rw [if_neg (not_not_intro hsize)]
      by_cases hsmall : (buffer.entry i).size ≤ 4
      · rw [if_pos hsmall]
        have hplace : entryOffset i + 4 + size.toNat ≤ CONFIG_SAVEFILE_SIZE := by
          have hfour := UInt16.le_iff_toNat_le.mp hsmall
          have hfour : (buffer.entry i).size.toNat ≤ 4 := hfour
          rw [← hsize, UInt16.toNat_toUInt32]
          unfold CONFIG_SAVEFILE_SIZE
          omega
        refine ⟨fun _ _ _ hlong => absurd hsmall (UInt16.not_le.mpr hlong), ?_⟩
        rintro - pointer hpointer
        cases hpointer
        exact hplace
      · rw [if_neg hsmall]
        refine ⟨fun h _ _ _ => h _ rfl, ?_⟩
        intro h pointer hpointer
        cases hpointer
        exact h hflags hsize (UInt16.not_le.mp hsmall)
    · rw [if_pos hsize]
      exact ⟨fun _ _ hsame => absurd hsame hsize, fun _ _ h => (nomatch h)⟩

theorem findEntry_lt {i : ℕ} (h : buffer.findEntry blockId = some i) :
    i < CONFIG_FILE_MAX_BLOCK_ENTRIES := by
  unfold ConfigBuffer.findEntry at h
  have hmem := List.mem_of_find?_eq_some h
  exact List.mem_range.mp hmem

/-- What uses a pointer stays in the buffer if it is inside. -/
theorem pointer_inside_iff {τ : Type} {use : ConfigBuffer × Except CfgResult ℕ → Exec τ}
    (huse : ∀ buffer pointer, use (buffer, pointer) ≠ .error .undefined ↔
      ∀ place, pointer = .ok place → place + size.toNat ≤ CONFIG_SAVEFILE_SIZE) :
    (getConfigBlockPointer buffer opened blockId size accessFlag >>= use) ≠ .error .undefined ↔
      PointerInside buffer opened blockId size accessFlag := by
  unfold getConfigBlockPointer PointerInside
  cases hfind : buffer.findEntry blockId with
  | some i =>
      dsimp only
      rw [ok_bind, huse, accessEntry_inside_iff (findEntry_lt hfind)]
  | none =>
      dsimp only
      cases hdefault : getDefaultConfigBlock blockId with
      | none =>
          dsimp only
          rw [ok_bind, huse]
          exact ⟨fun _ _ h => (nomatch h), fun _ _ h => (nomatch h)⟩
      | some block =>
          dsimp only
          by_cases hleft : buffer.totalEntries < CONFIG_FILE_MAX_BLOCK_ENTRIES
          · rw [createConfigBlock_eq hleft]
            by_cases hroom : 4 < block.data.val.length →
                (nextOffset buffer).toNat + block.data.val.length ≤ CONFIG_SAVEFILE_SIZE
            · rw [if_pos hroom, ok_bind]
              dsimp only
              rw [if_neg (not_not_intro rfl)]
              cases opened with
              | false =>
                  refine iff_of_true nofun fun block' hblock _ => ?_
                  cases hblock
                  exact ⟨hroom, nofun⟩
              | true =>
                  have hassert : assert (true = true) .configFileOpened = .ok () := rfl
                  rw [hassert, ok_bind]
                  constructor
                  · intro h block' hblock _
                    cases hblock
                    refine ⟨hroom, fun _ buffer' hbuffer => ?_⟩
                    rw [createConfigBlock_eq hleft, if_pos hroom] at hbuffer
                    cases hbuffer
                    cases hnew : (created buffer block).findEntry blockId with
                    | none =>
                        rw [hnew] at h
                        exact absurd rfl h
                    | some i =>
                        rw [hnew] at h
                        dsimp only at h
                        rw [ok_bind, huse, accessEntry_inside_iff (findEntry_lt hnew)] at h
                        exact ⟨i, rfl, h⟩
                  · intro h
                    obtain ⟨-, hfound⟩ := h block rfl hleft
                    have hcreate := @createConfigBlock_eq _ block hleft
                    rw [if_pos hroom] at hcreate
                    obtain ⟨i, hnew, hinside⟩ := hfound rfl _ hcreate
                    rw [hnew]
                    dsimp only
                    rwa [ok_bind, huse, accessEntry_inside_iff (findEntry_lt hnew)]
            · rw [if_neg hroom, error_bind, error_bind]
              refine ⟨fun h => absurd rfl h, fun h => absurd (h block rfl hleft).1 hroom⟩
          · have hfull : createConfigBlock buffer block = .ok (.unknown, buffer) := by
              unfold createConfigBlock
              rw [if_pos (Nat.le_of_not_lt hleft)]
            rw [hfull, ok_bind]
            dsimp only
            rw [if_pos nofun, ok_bind, huse]
            exact ⟨fun _ _ _ h => absurd h hleft, fun _ _ h => (nomatch h)⟩

/-- A call stays in the buffer exactly when what it accesses is inside. -/
theorem accessStep_iff (access : ConfigAccess) :
    accessStep buffer access ≠ .error .undefined ↔ AccessInside buffer access := by
  cases access with
  | set opened blockId accessFlag input =>
      have hlength : (UInt32.ofNat input.val.length).toNat = input.val.length :=
        UInt32.toNat_ofNat_of_lt' input.property
      dsimp only [accessStep, AccessInside]
      unfold setConfigBlock
      rw [bind_assoc]
      apply pointer_inside_iff
      intro buffer pointer
      rw [hlength]
      cases pointer with
      | error result => exact iff_of_true nofun nofun
      | ok place =>
          dsimp only
          unfold ConfigBuffer.write
          by_cases hplace : place + input.val.length ≤ CONFIG_SAVEFILE_SIZE
          · rw [if_pos hplace]
            refine iff_of_true nofun fun place' h => ?_
            cases h
            exact hplace
          · rw [if_neg hplace, error_bind, error_bind]
            exact iff_of_false (fun h => h rfl) fun h => hplace (h place rfl)
  | get opened artic blockId size accessFlag =>
      dsimp only [accessStep, AccessInside]
      unfold getConfigBlock
      cases hasked : getFromArtic blockId accessFlag && artic.isSome with
      | true =>
          obtain ⟨hasked, hserver⟩ := Bool.and_eq_true_iff.mp hasked
          obtain ⟨answer, hanswer⟩ := Option.isSome_iff_exists.mp hserver
          rw [if_pos hasked, hanswer]
          dsimp only
          rw [ok_bind]
          refine iff_of_true (ok_ne_error _) ?_
          intro h
          cases h
      | false =>
          have hnone : (if getFromArtic blockId accessFlag = true then artic else none) = none := by
            split
            · rename_i hyes
              rw [hyes, Bool.true_and] at hasked
              exact Option.not_isSome_iff_eq_none.mp (Bool.not_eq_true _ ▸ hasked)
            · rfl
          rw [hnone]
          dsimp only
          rw [bind_assoc, forall_prop_of_true rfl]
          apply pointer_inside_iff
          intro buffer pointer
          cases pointer with
          | error result => exact iff_of_true nofun nofun
          | ok place =>
              dsimp only
              unfold ConfigBuffer.read
              by_cases hplace : place + size.toNat ≤ CONFIG_SAVEFILE_SIZE
              · rw [if_pos hplace]
                refine iff_of_true nofun fun place' h => ?_
                cases h
                exact hplace
              · rw [if_neg hplace, error_bind, error_bind]
                exact iff_of_false (fun h => h rfl) fun h => hplace (h place rfl)

end Loaded

/-! ## Runs -/

/-- From the format on, the savegame is right in every run in which each block is created once, with
room for its data, and no other answer is taken from a server; and a buffer of any content is left
alone by exactly the runs whose entries lie inside of it. -/
theorem configStoreRight_iff {defaultBlocks : List ConfigBlock}
    (horder : defaultBlocks.Perm defaultConfigBlocks) (randomNumber : UInt32)
    (consoleId : UInt64) :
    (∃ buffer, formatConfig defaultBlocks true randomNumber consoleId = .ok (.success, buffer) ∧
      ∀ calls, ConfigStoreRight
          ⟨buffer, formattedBlocks defaultBlocks randomNumber consoleId⟩ calls ↔
        EveryStep configStep ConfigCallFits
          ⟨buffer, formattedBlocks defaultBlocks randomNumber consoleId⟩ calls) ∧
    ∀ buffer accesses, StaysInBuffer buffer accesses ↔
      EveryStep accessStep AccessInside buffer accesses := by
  constructor
  · obtain ⟨buffer, hformat, hstores, hdefaults⟩ := formatConfig_ok horder randomNumber consoleId
    refine ⟨buffer, hformat, fun calls => ?_⟩
    have hkeeps : KeepsBlocks ⟨buffer, formattedBlocks defaultBlocks randomNumber consoleId⟩ :=
      ⟨hstores, hdefaults⟩
    refine completes_and_eachStep_iff_everyStep (q := KeepsBlocks) ?_ ?_ ?_ hkeeps calls
    · intro s h
      exact h.stores.wellFormed
    · intro s call h hfits
      exact configStep_of_fits h hfits
    · intro s call t h hstep ht hright
      exact fits_of_configStep h hstep ht hright
  · intro buffer accesses
    unfold StaysInBuffer
    rw [run_ne_error_iff]
    refine everyStep_congr (q := fun _ => True) (fun _ _ _ _ _ => trivial) ?_ trivial accesses
    intro buffer access _
    exact accessStep_iff access

/-- The formatted savegame, used by one call. -/
theorem configStoreRight_iff_defaults :
    (∃ buffer, formatConfig defaultConfigBlocks true 1 2 = .ok (.success, buffer) ∧
      ∀ calls, ConfigStoreRight ⟨buffer, formattedBlocks defaultConfigBlocks 1 2⟩ calls ↔
        EveryStep configStep ConfigCallFits
          ⟨buffer, formattedBlocks defaultConfigBlocks 1 2⟩ calls) ∧
    ∀ buffer accesses, StaysInBuffer buffer accesses ↔
      EveryStep accessStep AccessInside buffer accesses :=
  configStoreRight_iff (List.Perm.refl _) 1 2

/-- An empty block of the first of the default ids. -/
def duplicateBlock : ConfigBlock := ⟨0x00030001, .Global, [], by decide⟩

/-- A block of a default id is created once more. -/
theorem duplicateBlock_not_right :
    ¬ ∀ buffer, formatConfig defaultConfigBlocks true 1 2 = .ok (.success, buffer) →
      ∀ calls, ConfigStoreRight ⟨buffer, formattedBlocks defaultConfigBlocks 1 2⟩ calls := by
  intro h
  obtain ⟨buffer, hformat, hstores, hdefaults⟩ :=
    formatConfig_ok (List.Perm.refl defaultConfigBlocks) 1 2
  obtain ⟨⟨-, t, ht, hlast⟩, hright⟩ := h buffer hformat [.create duplicateBlock]
  have hfits := fits_of_configStep ⟨hstores, hdefaults⟩ ht hlast (hright t ht).1
  have hleft : (formattedBlocks defaultConfigBlocks 1 2).length <
      CONFIG_FILE_MAX_BLOCK_ENTRIES := by decide
  obtain ⟨hnew, -⟩ := hfits hleft
  obtain ⟨other, hmem, hother⟩ : ∃ other ∈ formattedBlocks defaultConfigBlocks 1 2,
      other.blockId = duplicateBlock.blockId := by decide
  exact hnew other hmem hother

end Borked3DS.Analysis
