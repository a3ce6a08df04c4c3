import Borked3DS.Analysis.ProcessMemoryCalls
import Borked3DS.Analysis.RegionConservation

/-!
# Mapping memory and the permissions around it

`HeapAllocate`, `LinearAllocate`, `Map` and `SharedMemory::Map` leave the permissions of all other
memory alone unless the new mapping joins memory that is there: then that memory is protected with
it, and only the permissions to read and write keep what it had.
-/

set_option autoImplicit false

namespace Borked3DS.Analysis

open Borked3DS.Library Borked3DS.Model Borked3DS.Interface VMAMap IntervalSet

theorem reachableSpace_consistent {vm : VMManager} (h : ReachableSpace vm) : Consistent vm := by
  induction h with
  | reset h => exact reset_consistent h
  | call _ h ih => exact (step_keeps ih h).1

variable {S : Type} [IntervalSet S] {k k' : KernelSystem S} {p : ℕ} {process : Process S}

/-! ## The memory that is mapped -/

omit [IntervalSet S] in
theorem blocksSize_fcramBlocks (k : KernelSystem S) (l : List (ℕ × ℕ)) :
    blocksSize (fcramBlocks k l) = IntervalSet.length l := by
  simp [blocksSize, fcramBlocks, IntervalSet.length, Function.comp_def]

omit [IntervalSet S] in
theorem fcramBlocks_small {l : List (ℕ × ℕ)} (h : ∀ i ∈ l, i.2 ≤ Memory.FCRAM_N3DS_SIZE) :
    ∀ block ∈ fcramBlocks k l, block.2 < 2 ^ 32 := by
  intro block hblock
  obtain ⟨i, hi, rfl⟩ := List.mem_map.mp hblock
  have hle := h i hi
  have hfcram : Memory.FCRAM_N3DS_SIZE < 2 ^ 32 := by decide
  show i.2 - i.1 < 2 ^ 32
  omega

/-- The blocks of an allocation have the size that was asked for. -/
theorem heapAllocate_length [LawfulIntervalSet S] {r r' : MemoryRegionInfo S} {n : ℕ} {allocated : S}
    (h : r.heapAllocate n = .ok (r', allocated)) (hne : intervals allocated ≠ []) :
    IntervalSet.length (intervals allocated) = n := by
  have hlock : r.isLocked = false := by
    simp only [MemoryRegionInfo.heapAllocate, bind_eq_ok, assert_eq_ok] at h
    exact h.choose_spec.1
  obtain ⟨r₁, result, hc, hcases⟩ := heapAllocate_cases hlock n
  obtain ⟨rfl, rfl⟩ := Prod.mk.inj (Except.ok.inj (h.symm.trans hc))
  rcases hcases with ⟨-, -, rfl⟩ | ⟨-, -, hcard, -⟩
  · obtain ⟨i, l, hil⟩ := List.exists_cons_of_ne_nil hne
    have hpos := (LawfulIntervalSet.canonical (empty : S)).nonempty i (by simp [hil])
    have hmem : i.1 ∈ toSet (empty : S) := ⟨i, by simp [hil], le_rfl, hpos⟩
    rw [LawfulIntervalSet.toSet_empty] at hmem
    exact absurd hmem (Set.notMem_empty _)
  · rw [length_eq_ncard (LawfulIntervalSet.canonical allocated)]
    exact hcard

/-! ## Aliases -/

/-- What the pages of a range are, when `ChangeMemoryState` accepts it, and what it makes of them.
SOURCE: vm_manager.cpp:135-169 -/
theorem changeMemoryState_pages {isCached : ℕ → Bool} {M M' : VMManager} {t n : ℕ}
    {expectedState newState : MemoryState} {expectedPerms newPerms : VMAPermission}
    (h : Consistent M) (ht : t < 2 ^ 32) (hn : n < 2 ^ 32)
    (hc : M.changeMemoryState isCached t n expectedState expectedPerms newState newPerms =
      .ok (M', .success)) :
    0 < n ∧ t + n ≤ MAX_ADDRESS ∧ (∀ p, ¬ (t ≤ p ∧ p < t + n) → M'.vmaMap.view p = M.vmaMap.view p) ∧
      ∀ p, t ≤ p → p < t + n → ∃ v, M.vmaMap.view p = some v ∧ v.meminfoState = expectedState ∧
        M'.vmaMap.view p = some { v with permissions := newPerms, meminfoState := newState } := by
  obtain ⟨hbound, hview⟩ := (changeMemoryState_rewrites h ht hn hc).1 rfl
  rcases changeMemoryState_cases h.areas h.unlocked ht hn hc with ⟨-, hedited, hmeets⟩ | ⟨hne, -⟩
  · refine ⟨hedited.pos, hbound, ?_, ?_⟩
    · intro p hp
      rw [hview]
      exact if_neg hp
    · intro p hle hlt
      obtain ⟨l, e, r, hm, hlo, hhi, -⟩ := findVMA_spec h.areas (show p < MAX_ADDRESS by omega)
      have hplace := h.areas
      rw [hm] at hplace
      have hold : M.vmaMap.view p = some (e.2.viewAt p) := by
        rw [hm]
        exact view_place hplace hlo hhi
      have hstate := (hmeets e (by simp [hm]) (by omega) (by omega)).2.1
      refine ⟨_, hold, hstate, ?_⟩
      rw [hview, PageMap.updateRange, if_pos ⟨hle, hlt⟩, hold]
      rfl
  · exact absurd rfl hne

/-- The memory around an alias, in the space where the source has its new state already. -/
theorem standsApart_alias_iff {f g : PageMap} {state oldState newState : MemoryState}
    {perms : VMAPermission} {target source n : ℕ} {blocks : List (MemoryRef × ℕ)} (hn : 0 < n)
    (hold : oldState ≠ state) (hnew : newState ≠ state)
    (hother : ∀ p, ¬ (source ≤ p ∧ p < source + n) → g p = f p)
    (hsource : ∀ p, source ≤ p → p < source + n → ∃ v, f p = some v ∧ v.meminfoState = oldState ∧
      g p = some { v with permissions := perms, meminfoState := newState })
    (hblocks : BacksRange g source (source + n) blocks) (hsize : blocksSize blocks = n) :
    StandsApart g state target blocks ↔ AliasStandsApart f state target source n := by
  -- no page of the source is in the state of the alias, before or after
  have hsame : ∀ p host, g p = some (readWriteView state host) ↔
      f p = some (readWriteView state host) := by
    intro p host
    by_cases hp : source ≤ p ∧ p < source + n
    · obtain ⟨v, hv, hstate, hmarked⟩ := hsource p hp.1 hp.2
      rw [hv, hmarked]
      constructor
      · intro heq
        exact absurd (congrArg PageView.meminfoState (Option.some.inj heq)) hnew
      · intro heq
        have := congrArg PageView.meminfoState (Option.some.inj heq)
        exact absurd (hstate.symm.trans this) hold
    · rw [hother p hp]
  have hbacking : ∀ p v, source ≤ p → p < source + n → g p = some v →
      ∃ w, f p = some w ∧ w.backing = v.backing := by
    intro p v hle hlt hv
    obtain ⟨w, hw, -, hmarked⟩ := hsource p hle hlt
    obtain rfl := Option.some.inj (hmarked.symm.trans hv)
    exact ⟨w, hw, rfl⟩
  obtain ⟨⟨first, hfirst, v, hv, hvbacking⟩, last, hlast, w, host, hw, hwbacking, hend⟩ :=
    hblocks.ends (by omega)
  obtain ⟨v₀, hv₀, hv₀backing⟩ := hbacking source v le_rfl (by omega) hv
  obtain ⟨w₀, hw₀, hw₀backing⟩ := hbacking (source + n - 1) w (by omega) (by omega) hw
  rw [hvbacking] at hv₀backing
  rw [hwbacking] at hw₀backing
  unfold StandsApart AliasStandsApart JoinsBefore JoinsAfter
  simp only [hfirst, hlast, Option.mem_some_iff, forall_eq', hsame, hsize, ← hend]
  constructor
  · rintro ⟨hbefore, hafter⟩
    constructor
    · intro x y hx hy
      obtain rfl := Option.some.inj (hv₀.symm.trans hx)
      obtain rfl := Option.some.inj (hv₀backing.symm.trans hy)
      exact hbefore
    · intro x y hx hy
      obtain rfl := Option.some.inj (hw₀.symm.trans hx)
      obtain rfl := Option.some.inj (hw₀backing.symm.trans hy)
      exact hafter
  · rintro ⟨hbefore, hafter⟩
    exact ⟨hbefore v₀ _ hv₀ hv₀backing, hafter w₀ _ hw₀ hw₀backing⟩

/-- An alias keeps the permissions outside of both ranges when the mapping, from the space where
the source is marked, keeps those outside of the target. -/
theorem alias_keeps_iff {M M₁ M' : VMManager} {state oldState newState : MemoryState}
    {marks perms : VMAPermission} {target source n : ℕ} {blocks : List (MemoryRef × ℕ)}
    (hnew : newState ≠ state)
    (hother : ∀ p, ¬ (source ≤ p ∧ p < source + n) → M₁.vmaMap.view p = M.vmaMap.view p)
    (hsource : ∀ p, source ≤ p → p < source + n → ∃ v, M.vmaMap.view p = some v ∧
      v.meminfoState = oldState ∧
      M₁.vmaMap.view p = some { v with permissions := marks, meminfoState := newState })
    (hmapped : MapsBlocks M₁ target blocks state perms M') (hsize : blocksSize blocks = n) :
    KeepsPermissions M M' (Set.Ico target (target + n) ∪ Set.Ico source (source + n)) ↔
      KeepsPermissions M₁ M' (Set.Ico target (target + blocksSize blocks)) := by
  rw [hsize]
  constructor
  · intro hkeeps p hp
    by_cases hin : source ≤ p ∧ p < source + n
    · -- a page of the source is in another state, so it is not fused with the alias
      obtain ⟨v, -, -, hmarked⟩ := hsource p hin.1 hin.2
      unfold permissionsAt
      rcases hmapped.outside p (by rw [hsize]; exact hp) with hsame | ⟨⟨host, hview⟩, -⟩
      · rw [hsame]
      · rw [hmarked] at hview
        exact absurd (congrArg PageView.meminfoState (Option.some.inj hview)) hnew
    · rw [hkeeps p (by rintro (h | h); exacts [hp h, hin h])]
      unfold permissionsAt
      rw [hother p hin]
  · intro hkeeps p hp
    rw [hkeeps p fun h => hp (Or.inl h)]
    unfold permissionsAt
    rw [hother p fun h => hp (Or.inr h)]

/-! ## Shared memory -/

/-- Blocks that together are as long as the shared memory, each of a 32-bit length. -/
structure HoldsSize (m : SharedMemory S) : Prop where
  size : blocksSize m.backingBlocks = m.size
  small : ∀ block ∈ m.backingBlocks, block.2 < 2 ^ 32

omit [IntervalSet S] in
theorem holdsSize_single {m : SharedMemory S} {memory : MemoryRef} (hsmall : m.size < 2 ^ 32)
    (hblocks : m.backingBlocks = [(memory, m.size)]) : HoldsSize m := by
  constructor
  · simp [blocksSize, hblocks]
  · rw [hblocks]
    simpa using hsmall

/-- SOURCE: shared_memory.cpp:42-86 -/
theorem createSharedMemory_holdsSize {m : SharedMemory S} {owner permissions otherPermissions : ℕ}
    {size address : UInt32} {region : MemoryRegion} {id : ℕ}
    (hs : ∀ process, k.processes[owner]? = some process → ReachableSpace process.vmManager)
    (h : KernelSystem.createSharedMemory owner size.toNat permissions otherPermissions
      address.toNat region k = .ok (.ok id, k'))
    (hm : k'.objects.getLast? = some (id, .sharedMemory m)) : HoldsSize m := by
  unfold KernelSystem.createSharedMemory at h
  dsimp only at h
  split at h
  · obtain ⟨made, k₁, hmade, h⟩ := stateT_bind_eq_ok.mp h
    obtain ⟨id', k₂, hobject, h⟩ := stateT_bind_eq_ok.mp h
    obtain ⟨-, rfl⟩ := makeObject_ok hobject
    obtain ⟨-, rfl⟩ := stateT_pure_eq_ok.mp h
    simp only [List.getLast?_append, List.getLast?_singleton, Option.some_or, Option.some.injEq,
      Prod.mk.injEq, KernelObject.sharedMemory.injEq] at hm
    obtain ⟨-, rfl⟩ := hm
    unfold allocateSharedMemory at hmade
    obtain ⟨found, k₃, hfound, hmade⟩ := stateT_bind_eq_ok.mp hmade
    cases found with
    | none => cases hmade
    | some offset =>
      simp only [stateT_bind_eq_ok, stateT_pure_eq_ok] at hmade
      obtain ⟨memory, _, -, process, _, -, _, _, -, rfl, -⟩ := hmade
      exact holdsSize_single size.toNat_lt rfl
  · obtain ⟨process, _, hprocess, h⟩ := stateT_bind_eq_ok.mp h
    obtain ⟨rfl, hget⟩ := getProcess_ok hprocess
    simp only [stateT_bind_eq_ok, stateT_get_eq_ok, stateT_lift_eq_ok, setProcess,
      stateT_modify_eq_ok] at h
    obtain ⟨_, _, ⟨rfl, rfl⟩, ⟨vm, result⟩, _, ⟨hchange, rfl⟩, _, _, rfl, h⟩ := h
    have hcons := reachableSpace_consistent (hs process hget)
    split at h
    · obtain ⟨_, _, -, h⟩ := stateT_bind_eq_ok.mp h
      exact absurd (stateT_pure_eq_ok.mp h).1 (by simp)
    next hresult =>
      obtain rfl := not_not.mp hresult
      obtain ⟨blocks, k₁, hblocks, h⟩ := stateT_bind_eq_ok.mp h
      obtain ⟨id', k₂, hobject, h⟩ := stateT_bind_eq_ok.mp h
      obtain ⟨-, rfl⟩ := makeObject_ok hobject
      obtain ⟨-, rfl⟩ := stateT_pure_eq_ok.mp h
      simp only [List.getLast?_append, List.getLast?_singleton, Option.some_or, Option.some.injEq,
        Prod.mk.injEq, KernelObject.sharedMemory.injEq] at hm
      obtain ⟨-, rfl⟩ := hm
      unfold backingBlocks at hblocks
      obtain ⟨found, _, hfound, hblocks⟩ := stateT_bind_eq_ok.mp hblocks
      obtain ⟨hgathered, rfl⟩ := stateT_lift_eq_ok.mp hfound
      cases found with
      | error _ => cases hblocks
      | ok found =>
        obtain ⟨rfl, -⟩ := stateT_pure_eq_ok.mp hblocks
        obtain ⟨-, hbound, -⟩ := changeMemoryState_pages hcons address.toNat_lt size.toNat_lt hchange
        have hafter := changeMemoryState_consistent hcons address.toNat_lt size.toNat_lt hchange
        have hbacks := getBackingBlocksForRange_ok hafter.areas hbound hgathered
        refine ⟨?_, hbacks.small⟩
        rw [hbacks.size]
        exact Nat.add_sub_cancel_left _ _

/-- The blocks of shared memory are as long as it is. -/
theorem createdSharedMemory_holdsSize [LawfulIntervalSet S] {m : SharedMemory S}
    (h : CreatedSharedMemory m) : HoldsSize m := by
  cases h with
  | owned hs h hm => exact createSharedMemory_holdsSize hs h hm
  | @unowned _ _ _ _ size _ h =>
    unfold KernelSystem.createUnownedSharedMemory at h
    obtain ⟨found, _, -, h⟩ := stateT_bind_eq_ok.mp h
    cases found with
    | none => cases h
    | some offset =>
      simp only [stateT_bind_eq_ok, stateT_pure_eq_ok] at h
      obtain ⟨memory, _, -, rfl, -⟩ := h
      exact holdsSize_single size.toNat_lt rfl
  | forApplet h =>
    unfold KernelSystem.createSharedMemoryForApplet at h
    obtain ⟨allocated, k₁, hallocated, h⟩ := stateT_bind_eq_ok.mp h
    simp only [heapAllocateRegion, stateT_bind_eq_ok, stateT_get_eq_ok, stateT_lift_eq_ok,
      stateT_set_eq_ok, stateT_pure_eq_ok] at hallocated
    obtain ⟨_, _, ⟨rfl, rfl⟩, ⟨r, _⟩, _, ⟨hr, rfl⟩, _, _, rfl, rfl, rfl⟩ := hallocated
    simp only [stateT_bind_eq_ok, stateT_lift_eq_ok, stateT_pure_eq_ok, assert_eq_ok] at h
    obtain ⟨_, _, ⟨hne, rfl⟩, blocks, _, hblocks, rfl, -⟩ := h
    obtain ⟨rfl, rfl, hall⟩ := fcramBlock_mapM_ok hblocks
    refine ⟨?_, fcramBlocks_small hall⟩
    rw [blocksSize_fcramBlocks]
    exact heapAllocate_length hr hne

omit [IntervalSet S] in
/-- SOURCE: shared_memory.cpp:123-209 -/
theorem sharedMemory_map_ok {m : SharedMemory S} {address permissions otherPermissions : ℕ}
    (h : SharedMemory.map m p address permissions otherPermissions k = .ok (.success, k')) :
    ∃ process vm, k.processes[p]? = some process ∧
      mapBlocks k.isCached .shared (VMAPermission.ofBits (permissions % 8)) m.backingBlocks
        (SharedMemory.targetAddress m address) process.vmManager = .ok vm ∧
      MovesMemory k p process (k.memoryRegions process.memoryRegion) vm k' := by
  unfold SharedMemory.map at h
  dsimp only at h
  split at h
  next hcheck => exact absurd (stateT_pure_eq_ok.mp h).1 hcheck
  next hcheck =>
    obtain ⟨process, _, hprocess, h⟩ := stateT_bind_eq_ok.mp h
    obtain ⟨rfl, hget⟩ := getProcess_ok hprocess
    obtain ⟨isFree, _, hfree, h⟩ := stateT_bind_eq_ok.mp h
    obtain ⟨-, rfl⟩ := stateT_lift_eq_ok.mp hfree
    split at h
    · simp only [stateT_bind_eq_ok, stateT_get_eq_ok, stateT_lift_eq_ok, stateT_pure_eq_ok,
        setProcess, stateT_modify_eq_ok] at h
      obtain ⟨_, _, ⟨rfl, rfl⟩, vm, _, ⟨hvm, rfl⟩, _, _, rfl, -, rfl⟩ := h
      exact ⟨process, vm, hget, hvm, rfl, rfl, (Function.update_eq_self _ _).symm, _,
        getElem?_set_process hget, rfl, rfl⟩
    · exact absurd (stateT_pure_eq_ok.mp h).1 (by simp)

/-! ## All four calls -/

omit [IntervalSet S] in
theorem keepsOthers_iff {r : MemoryRegionInfo S} {vm : VMManager} {changed : Set ℕ}
    (h : MovesMemory k p process r vm k') :
    KeepsOthers k' p process changed ↔ KeepsPermissions process.vmManager vm changed := by
  obtain ⟨process', hget, rfl, -⟩ := h.process
  constructor
  · intro hkeeps
    exact hkeeps process' hget
  · intro hkeeps process'' hget'
    obtain rfl := Option.some.inj (hget.symm.trans hget')
    exact hkeeps

/-- What a linear allocation maps lies at the address and has the memory behind it that the
conditions name. -/
theorem linearAllocate_place {kernelVersion target size a offset : ℕ} {r : MemoryRegionInfo S}
    (hfcram : offset ≤ Memory.FCRAM_N3DS_SIZE)
    (h : (target = 0 ∧ (k.memoryRegions process.memoryRegion).linearAllocate size =
          .ok (r, some offset) ∧ a = u32 (offset + linearHeapAreaAddress kernelVersion)) ∨
        (target ≠ 0 ∧ a = target ∧ offset = u32Sub target (linearHeapAreaAddress kernelVersion) ∧
          rangeInside (Process.linearHeapBase k process kernelVersion)
            (Process.linearHeapLimit k process kernelVersion) target size ∧
          (k.memoryRegions process.memoryRegion).linearAllocateAt offset size = .ok (r, true))) :
    a = linearTarget k process kernelVersion target size ∧
      ({ backingMem := some k.fcram, offset := offset }, size) = linearBlock k kernelVersion a size := by
  rcases h with ⟨rfl, hr, rfl⟩ | ⟨hne, rfl, rfl, -⟩
  · have harea : linearHeapAreaAddress kernelVersion ≤ 0x30000000 := by
      unfold linearHeapAreaAddress
      split <;> decide
    have hfit : Memory.FCRAM_N3DS_SIZE + 0x30000000 < 2 ^ 32 := by decide
    have hoffset : u32Sub (u32 (offset + linearHeapAreaAddress kernelVersion))
        (linearHeapAreaAddress kernelVersion) = offset := by
      rw [u32_of_lt (by omega), u32Sub_of_le (by omega) (by omega)]
      omega
    refine ⟨?_, ?_⟩
    · unfold linearTarget
      rw [if_pos rfl, hr]
    · unfold linearBlock
      rw [hoffset]
  · refine ⟨?_, rfl⟩
    unfold linearTarget
    rw [if_neg hne]

/-- Each of the four calls that map memory keeps the permissions of all other memory exactly when
it maps for reading and writing, or maps where its memory joins none.
SOURCE: process.cpp:285-332, process.cpp:363-407, process.cpp:499-553, shared_memory.cpp:123-209 -/
theorem mappingCalls_keepOthers_iff (S : Type) [IntervalSet S] [LawfulIntervalSet S]
    (k k' : KernelSystem S) (p : ℕ) (process : Process S) (hget : k.processes[p]? = some process)
    (hs : ReachableSpace process.vmManager) (perms : VMAPermission) (target size : UInt32) :
    (∀ state skipRangeCheck a,
      Process.heapAllocate p target.toNat size.toNat perms state skipRangeCheck k =
        .ok (.ok a, k') →
      (KeepsOthers k' p process (Set.Ico target.toNat (target.toNat + size.toNat)) ↔
        perms = .readWrite ∨ StandsApart process.vmManager.vmaMap.view state target.toNat
          (heapBlocks k process size.toNat))) ∧
    (∀ kernelVersion a,
      Process.linearAllocate p kernelVersion target.toNat size.toNat perms k = .ok (.ok a, k') →
      (KeepsOthers k' p process (Set.Ico a (a + size.toNat)) ↔
        perms = .readWrite ∨ StandsApart process.vmManager.vmaMap.view .continuous
          (linearTarget k process kernelVersion target.toNat size.toNat)
          [linearBlock k kernelVersion
            (linearTarget k process kernelVersion target.toNat size.toNat) size.toNat])) ∧
    (∀ (source : UInt32) privileged, source ≠ target →
      Process.map p target.toNat source.toNat size.toNat perms privileged k = .ok (.success, k') →
      (KeepsOthers k' p process (Set.Ico target.toNat (target.toNat + size.toNat) ∪
          Set.Ico source.toNat (source.toNat + size.toNat)) ↔
        perms = .readWrite ∨ AliasStandsApart process.vmManager.vmaMap.view
          (if privileged then .aliasCode else .alias) target.toNat source.toNat size.toNat)) ∧
    (∀ (m : SharedMemory S) (permissions otherPermissions : ℕ), CreatedSharedMemory m →
      perms = VMAPermission.ofBits (permissions % 8) →
      SharedMemory.map m p target.toNat permissions otherPermissions k = .ok (.success, k') →
      (KeepsOthers k' p process (Set.Ico (SharedMemory.targetAddress m target.toNat)
          (SharedMemory.targetAddress m target.toNat + m.size)) ↔
        perms = .readWrite ∨ StandsApart process.vmManager.vmaMap.view .shared
          (SharedMemory.targetAddress m target.toNat) m.backingBlocks)) := by
  have hcons := reachableSpace_consistent hs
  refine ⟨?_, ?_, ?_, ?_⟩
  · intro state skipRangeCheck a h
    obtain ⟨rfl, process', r, allocated, vm, hget', hr, hne, hall, hvm, hmoves⟩ :=
      process_heapAllocate_ok h
    obtain rfl := Option.some.inj (hget.symm.trans hget')
    have hblocks : heapBlocks k process size.toNat = fcramBlocks k (intervals allocated) := by
      unfold heapBlocks
      rw [hr]
    have hkeeps := mapBlocks_keeps_iff hcons (fcramBlocks_small hall) hvm
    rw [blocksSize_fcramBlocks, heapAllocate_length hr hne] at hkeeps
    rw [keepsOthers_iff hmoves, hkeeps, hblocks]
  · intro kernelVersion a h
    obtain ⟨process', r, offset, vm, hget', hplace, hfcram, hvm, hmoves⟩ :=
      process_linearAllocate_ok h
    obtain rfl := Option.some.inj (hget.symm.trans hget')
    obtain ⟨ha, hblock⟩ := linearAllocate_place hfcram hplace
    rw [← ha, ← hblock, keepsOthers_iff hmoves]
    have hkeeps := mapBlocks_keeps_iff hcons (by simpa using size.toNat_lt) hvm
    rw [show blocksSize [({ backingMem := some k.fcram, offset := offset }, size.toNat)] =
      size.toNat by simp [blocksSize]] at hkeeps
    exact hkeeps
  · intro source privileged hne h
    obtain ⟨-, process', marked, blocks, vm, hget', hmarked, hfound, hvm, hmoves⟩ :=
      process_map_ok (fun heq => hne (UInt32.toNat_inj.mp heq)) h
    obtain rfl := Option.some.inj (hget.symm.trans hget')
    obtain ⟨hpos, hbound, hother, hsource⟩ :=
      changeMemoryState_pages hcons source.toNat_lt size.toNat_lt hmarked
    have hmarkedCons := changeMemoryState_consistent hcons source.toNat_lt size.toNat_lt hmarked
    have hbacks := getBackingBlocksForRange_ok hmarkedCons.areas hbound hfound
    have hsize : blocksSize blocks = size.toNat := by
      rw [hbacks.size]
      exact Nat.add_sub_cancel_left _ _
    have hmapped := mapBlocks_spec hmarkedCons hbacks.small hvm
    have hstate : (aliasStates privileged).2.1 = if privileged then .aliasCode else .alias := by
      cases privileged <;> rfl
    have hnew : (aliasStates privileged).1 ≠ (aliasStates privileged).2.1 := by
      cases privileged <;> decide
    have hold : MemoryState.private_ ≠ (aliasStates privileged).2.1 := by
      cases privileged <;> decide
    rw [keepsOthers_iff hmoves, alias_keeps_iff hnew hother hsource hmapped hsize,
      mapBlocks_keeps_iff hmarkedCons hbacks.small hvm,
      standsApart_alias_iff hpos hold hnew hother hsource hbacks hsize, hstate]
  · rintro m permissions otherPermissions hm rfl h
    obtain ⟨process', vm, hget', hvm, hmoves⟩ := sharedMemory_map_ok h
    obtain rfl := Option.some.inj (hget.symm.trans hget')
    have hholds := createdSharedMemory_holdsSize hm
    have hkeeps := mapBlocks_keeps_iff hcons hholds.small hvm
    rw [hholds.size] at hkeeps
    rw [keepsOthers_iff hmoves, hkeeps]

/-! ## A page behind a page -/

theorem mapBlocks_reachable {isCached : ℕ → Bool} {M M' : VMManager} {t : ℕ} {state : MemoryState}
    {perms : VMAPermission} {blocks : List (MemoryRef × ℕ)} (h : ReachableSpace M)
    (ht : t < 2 ^ 32) (hsize : ∀ block ∈ blocks, block.2 < 2 ^ 32)
    (hc : mapBlocks isCached state perms blocks t M = .ok M') : ReachableSpace M' := by
  induction blocks generalizing M t with
  | nil =>
    obtain rfl := Except.ok.inj hc
    exact h
  | cons block blocks ih =>
    unfold mapBlocks at hc
    obtain ⟨⟨M₁, mapped⟩, hmap, hc⟩ := bind_eq_ok.mp hc
    cases mapped with
    | error _ => cases hc
    | ok vma =>
      obtain ⟨⟨M₂, vma'⟩, hprotect, hrest⟩ := bind_eq_ok.mp hc
      have hn := hsize block (by simp)
      have hmapped : ReachableSpace M₁ := by
        refine @ReachableSpace.call isCached _ _
          (.mapBackingMemory (UInt32.ofNat t) block.1 (UInt32.ofNat block.2) state) h ?_
        simp only [VMCall.step, UInt32.toNat_ofNat_of_lt' ht, UInt32.toNat_ofNat_of_lt' hn]
        rw [hmap]
        rfl
      have hprotected : ReachableSpace M₂ := by
        refine @ReachableSpace.call isCached _ _ (.reprotect vma perms) hmapped ?_
        simp only [VMCall.step]
        rw [hprotect]
        rfl
      exact ih hprotected (Nat.mod_lt _ (by decide)) (fun b hb => hsize b (by simp [hb])) hrest

/-- A linear allocation whose parts succeed. -/
theorem process_linearAllocate_eq {kernelVersion target size a offset : ℕ} {perms : VMAPermission}
    {k₁ : KernelSystem S} {vm : VMManager} {granted : Bool}
    (hchosen : Process.chooseLinear p kernelVersion target size k = .ok (.ok (a, offset), k₁))
    (hfcram : offset ≤ Memory.FCRAM_N3DS_SIZE) (hget : k₁.processes[p]? = some process)
    (hvm : mapBlocks k₁.isCached .continuous perms
      [({ backingMem := some k₁.fcram, offset := offset }, size)] a process.vmManager = .ok vm)
    (hreserve : ∀ ps, ∃ k₂, reserve process.resourceLimit .commit size
      { k₁ with processes := ps } = .ok (granted, k₂)) :
    ∃ k', Process.linearAllocate p kernelVersion target size perms k = .ok (.ok a, k') := by
  obtain ⟨k₂, hk₂⟩ := hreserve (k₁.processes.set p { process with
    vmManager := vm
    holdingMemory := add process.holdingMemory (offset, u32 (offset + size))
    memoryUsed := u32 (process.memoryUsed + size) })
  refine ⟨k₂, ?_⟩
  unfold Process.linearAllocate
  refine stateT_bind_eq_ok.mpr ⟨_, _, hchosen, ?_⟩
  refine stateT_bind_eq_ok.mpr ⟨{ backingMem := some k₁.fcram, offset := offset }, k₁, ?_, ?_⟩
  · unfold fcramRef
    refine stateT_bind_eq_ok.mpr ⟨(), k₁, ?_, rfl⟩
    exact stateT_lift_eq_ok.mpr ⟨assert_eq_ok.mpr hfcram, rfl⟩
  refine stateT_bind_eq_ok.mpr ⟨process, k₁, ?_, ?_⟩
  · unfold getProcess
    refine stateT_bind_eq_ok.mpr ⟨k₁, k₁, rfl, ?_⟩
    rw [hget]
    rfl
  refine stateT_bind_eq_ok.mpr ⟨k₁, k₁, rfl, ?_⟩
  refine stateT_bind_eq_ok.mpr ⟨vm, k₁, stateT_lift_eq_ok.mpr ⟨hvm, rfl⟩, ?_⟩
  refine stateT_bind_eq_ok.mpr ⟨(), _, rfl, ?_⟩
  exact stateT_bind_eq_ok.mpr ⟨granted, k₂, hk₂, rfl⟩

/-- A byte of FCRAM. -/
def fcramAt (offset : ℕ) : MemoryRef := ⟨some ⟨0x10000, 0x10000000⟩, offset⟩

/-- One process, and a region of 16 pages of which the first one is taken. -/
def linearKernel (vm : VMManager) : KernelSystem IntervalList where
  memoryRegions := fun _ =>
    { base := 0, size := 0x10000, used := 0x1000, freeBlocks := add empty (0x1000, 0x10000) }
  fcram := ⟨0x10000, 0x10000000⟩
  isCached := fun _ => false
  numCores := 2
  resourceLimits := fun _ => ⟨fun _ => 0x10000, fun _ => 0⟩
  processes := [{
    resourceLimit := 0
    memoryRegion := .application
    vmManager := vm
    memoryUsed := 0x1000
    holdingMemory := empty
    holdingTlsMemory := empty }]
  objects := []
  nextObject := 0

/-- A page is mapped at the start of the linear heap to read and write, and the process allocates
the page behind it to read. -/
theorem linearKernel_allocates : ∃ vm, ReachableSpace vm ∧
    JoinsBefore vm.vmaMap.view .continuous 0x14001000 (fcramAt 0x1000).getPtr ∧
    ∃ k', Process.linearAllocate 0 0 0 0x1000 { read := true } (linearKernel vm) =
      .ok (.ok 0x14001000, k') := by
  obtain ⟨pt, hpt⟩ := reset_exists (fun _ => false) ⟨[], .clear, false⟩ rfl
  have hcalls : ((mapBlocks (fun _ => false) .continuous .readWrite [(fcramAt 0, 0x1000)] 0x14000000
      ⟨[(0, VMManager.initialVma)], pt, false⟩).toOption.bind fun vm =>
        (mapBlocks (fun _ => false) .continuous { read := true } [(fcramAt 0x1000, 0x1000)]
          0x14001000 vm).toOption).isSome = true := rfl
  obtain ⟨vm', hrun⟩ := Option.isSome_iff_exists.mp hcalls
  obtain ⟨vm, hvm, hvm'⟩ := Option.bind_eq_some_iff.mp hrun
  have hmapped := eq_ok_of_toOption hvm
  refine ⟨vm, mapBlocks_reachable (.reset hpt) (by decide) (by simp) hmapped, ?_, ?_⟩
  · have hspec := mapBlocks_spec (reset_consistent hpt) (by simp) hmapped
    obtain ⟨host, hhost, hview⟩ := hspec.inside 0x14000FFF (by decide) (by decide)
    obtain rfl : 0x10FFF = host := Option.some.inj hhost
    exact ⟨0x10FFF, by decide, by decide, hview⟩
  · have hchosen : (Process.chooseLinear 0 0 0 0x1000 (linearKernel vm)).toOption.map
        (fun r => r.1.toOption) = some (some (0x14001000, 0x1000)) := rfl
    obtain ⟨⟨res, k₁⟩, hk₁, hres⟩ := Option.map_eq_some_iff.mp hchosen
    cases res with
    | error _ => cases hres
    | ok place =>
      obtain rfl : place = (0x14001000, 0x1000) := Option.some.inj hres
      have hcall := eq_ok_of_toOption hk₁
      obtain ⟨process, r, hget, rfl, -⟩ := chooseLinear_ok hcall
      apply process_linearAllocate_eq hcall (by decide) hget
      · rw [← Option.some.inj hget]
        exact eq_ok_of_toOption hvm'
      · intro ps
        rw [← Option.some.inj hget]
        exact ⟨_, rfl⟩

/-- The page that is allocated to read takes the write permission of the page before it away. -/
theorem mappingCalls_changeOthers :
    ∃ (k k' : KernelSystem IntervalList) (process : Process IntervalList) (a : ℕ),
      k.processes[0]? = some process ∧ ReachableSpace process.vmManager ∧
      Process.linearAllocate 0 0 0 0x1000 { read := true } k = .ok (.ok a, k') ∧
      ¬ KeepsOthers k' 0 process (Set.Ico a (a + 0x1000)) := by
  obtain ⟨vm, hreach, hjoins, k', hcall⟩ := linearKernel_allocates
  refine ⟨linearKernel vm, k', _, _, rfl, hreach, hcall, ?_⟩
  obtain ⟨process, r, offset, vm', hget, hplace, hfcram, hvm, hmoves⟩ :=
    process_linearAllocate_ok hcall
  obtain rfl := Option.some.inj hget
  obtain ⟨-, hblock⟩ := linearAllocate_place hfcram hplace
  rw [hblock] at hvm
  have hkeeps := mapBlocks_keeps_iff (reachableSpace_consistent hreach) (by simp [linearBlock]) hvm
  have hsize : blocksSize [linearBlock (linearKernel vm) 0 0x14001000 0x1000] = 0x1000 := rfl
  rw [hsize] at hkeeps
  rw [keepsOthers_iff hmoves, hkeeps]
  rintro (hperms | hstands)
  · exact absurd hperms (by decide)
  · exact hstands.1 _ rfl hjoins

/-- The equivalence at that allocation. -/
theorem mappingCalls_keepOthers_iff_linear : ∃ (vm : VMManager) (k' : KernelSystem IntervalList)
    (process : Process IntervalList) (a : ℕ),
      Process.linearAllocate 0 0 0 0x1000 { read := true } (linearKernel vm) = .ok (.ok a, k') ∧
      (KeepsOthers k' 0 process (Set.Ico a (a + 0x1000)) ↔
        ({ read := true } : VMAPermission) = .readWrite ∨
          StandsApart process.vmManager.vmaMap.view .continuous
            (linearTarget (linearKernel vm) process 0 0 0x1000) [linearBlock (linearKernel vm) 0
              (linearTarget (linearKernel vm) process 0 0 0x1000) 0x1000]) := by
  obtain ⟨vm, hreach, -, k', hcall⟩ := linearKernel_allocates
  exact ⟨vm, k', _, _, hcall, (mappingCalls_keepOthers_iff IntervalList (linearKernel vm) k' 0 _ rfl
    hreach { read := true } 0 0x1000).2.1 0 _ hcall⟩

end Borked3DS.Analysis
