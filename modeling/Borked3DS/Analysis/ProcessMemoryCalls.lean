import Borked3DS.Analysis.MappedBlocks
import Borked3DS.Analysis.ResourceCalls
import Borked3DS.Analysis.VMManagerInvariant
import Borked3DS.Interface.MappingEffects

/-!
# The memory calls of a process

The memory behind a range, and what each call that succeeds does.
-/

set_option autoImplicit false

namespace Borked3DS.Analysis

open Borked3DS.Library Borked3DS.Model Borked3DS.Interface VMAMap

/-!
## The memory behind a range

`GetBackingBlocksForRange` lists what a range is backed by, area by area: by induction over the
rounds of its loop, the blocks gathered from an address on hold the host byte of every address from
there to the end of the range.
-/

/-- Blocks that hold the host bytes behind the addresses from `t` to `u`. -/
structure BacksRange (f : PageMap) (t u : ℕ) (blocks : List (MemoryRef × ℕ)) : Prop where
  size : blocksSize blocks = u - t
  small : ∀ block ∈ blocks, block.2 < 2 ^ 32
  pos : ∀ block ∈ blocks, 0 < block.2
  backed : ∀ p, t ≤ p → p < u → ∃ v host, f p = some v ∧ v.type = .backingMemory ∧
    v.backing = some host ∧ hostAt blocks (p - t) = some host

theorem BacksRange.nil (f : PageMap) (t : ℕ) : BacksRange f t t [] where
  size := by simp [blocksSize]
  small := by simp
  pos := by simp
  backed p hle hlt := absurd hlt (Nat.not_lt.mpr hle)

/-- A block in front, up to where the others begin. -/
theorem BacksRange.cons {f : PageMap} {t m u n : ℕ} {blocks : List (MemoryRef × ℕ)}
    {memory : MemoryRef} (hm : t + n = m) (hmu : m ≤ u) (hn : n < 2 ^ 32) (hpos : 0 < n)
    (hfirst : ∀ p, t ≤ p → p < m → ∃ v, f p = some v ∧ v.type = .backingMemory ∧
      v.backing = some (memory.getPtr + (p - t)))
    (h : BacksRange f m u blocks) : BacksRange f t u ((memory, n) :: blocks) where
  size := by
    have := h.size
    simp only [blocksSize, List.map_cons, List.sum_cons] at this ⊢
    omega
  small := by
    intro block hblock
    rcases List.mem_cons.mp hblock with rfl | hblock
    · exact hn
    · exact h.small block hblock
  pos := by
    intro block hblock
    rcases List.mem_cons.mp hblock with rfl | hblock
    · exact hpos
    · exact h.pos block hblock
  backed := by
    intro p hle hlt
    by_cases hp : p < m
    · obtain ⟨v, hv, htype, hbacking⟩ := hfirst p hle hp
      exact ⟨v, _, hv, htype, hbacking, if_pos (by omega)⟩
    · obtain ⟨v, host, hv, htype, hbacking, hhost⟩ := h.backed p (by omega) hlt
      refine ⟨v, host, hv, htype, hbacking, ?_⟩
      have hoffset : p - t - n = p - m := by omega
      unfold hostAt
      rw [if_neg (by omega), hoffset]
      exact hhost

variable {M : VMManager} {t n : ℕ}

/-- One round gathers the block from an address to the end of its area or of the range.
SOURCE: vm_manager.cpp:381-402 -/
theorem backingBlocks_go (h : Areas 0 MAX_ADDRESS M.vmaMap) (hend : t + n ≤ MAX_ADDRESS) (fuel : ℕ)
    {address : ℕ} {gathered blocks : List (MemoryRef × ℕ)} (haddress : address ≤ t + n)
    (hc : VMManager.getBackingBlocksForRange.go M t n fuel address gathered = .ok (.ok blocks)) :
    ∃ rest, blocks = gathered ++ rest ∧ BacksRange M.vmaMap.view address (t + n) rest := by
  have hmax : MAX_ADDRESS < 2 ^ 32 := by decide
  induction fuel generalizing address gathered with
  | zero =>
    unfold VMManager.getBackingBlocksForRange.go at hc
    cases hc
  | succ fuel ih =>
    unfold VMManager.getBackingBlocksForRange.go at hc
    rw [u32_of_lt (show t + n < 2 ^ 32 by omega)] at hc
    split at hc
    next heq =>
      obtain rfl := Except.ok.inj (Except.ok.inj hc)
      subst heq
      exact ⟨[], (List.append_nil _).symm, BacksRange.nil _ _⟩
    next hne =>
      obtain ⟨l, e, r, hm, hle, hlt, hfind⟩ := findVMA_spec h (show address < MAX_ADDRESS by omega)
      have hareas := h
      rw [hm] at hareas
      obtain ⟨-, hpos, hs, hr⟩ := areas_place.mp hareas
      have hareaEnd := hr.le
      have hbase : e.2.base = e.1 := hs.key.symm
      simp only [VMManager.findVMA] at hc
      rw [hfind] at hc
      dsimp only at hc
      rw [hm, deref_place hareas.sorted, ok_bind] at hc
      split at hc
      next => cases hc
      next htype =>
        obtain ⟨backing, hadvance, hrest⟩ := bind_eq_ok.mp hc
        rw [hbase, u32_of_lt (show e.1 + e.2.size < 2 ^ 32 by omega)] at hrest
        rw [hbase, u32Sub_of_le hle (by omega)] at hadvance
        obtain ⟨next, hnext⟩ : ∃ next, next = min (t + n) (e.1 + e.2.size) := ⟨_, rfl⟩
        have hnextEnd : next ≤ t + n := by omega
        have hnextArea : next ≤ e.1 + e.2.size := by omega
        have hadvances : address < next := by omega
        rw [← hnext, u32Sub_of_le (Nat.le_of_lt hadvances) (by omega),
          Nat.add_sub_cancel' (Nat.le_of_lt hadvances), u32_of_lt (by omega)] at hrest
        obtain ⟨rest, rfl, hbacks⟩ := ih hnextEnd hrest
        refine ⟨(backing, next - address) :: rest, by simp, ?_⟩
        apply BacksRange.cons (Nat.add_sub_cancel' (Nat.le_of_lt hadvances)) hnextEnd (by omega) (by omega) _
          hbacks
        intro p hp hlt'
        have hbacked : e.2.type = .backingMemory := by
          cases hkind : e.2.type with
          | free => exact absurd (by rw [hkind]; decide) htype
          | backingMemory => rfl
        refine ⟨e.2.viewAt p, ?_, hbacked, ?_⟩
        · rw [hm]
          exact view_place hareas (by omega) (by omega)
        · simp only [VirtualMemoryArea.viewAt, hbacked, hbase]
          rw [MemoryRef.advance_getPtr hadvance]
          congr 1
          omega

/-- A range that is not backed all through is refused. -/
theorem getBackingBlocksForRange_error {code : Result}
    (hc : M.getBackingBlocksForRange t n = .ok (.error code)) : code = .invalidAddressState := by
  suffices h : ∀ fuel address gathered, VMManager.getBackingBlocksForRange.go M t n fuel address
      gathered = .ok (.error code) → code = .invalidAddressState from h _ _ _ hc
  intro fuel
  induction fuel with
  | zero =>
    intro address gathered hc
    unfold VMManager.getBackingBlocksForRange.go at hc
    cases hc
  | succ fuel ih =>
    intro address gathered hc
    unfold VMManager.getBackingBlocksForRange.go at hc
    split at hc
    · cases hc
    · split at hc
      · cases hc
      · obtain ⟨vma, -, hc⟩ := bind_eq_ok.mp hc
        split at hc
        · cases hc
          rfl
        · obtain ⟨backing, -, hc⟩ := bind_eq_ok.mp hc
          exact ih _ _ hc

/-- What a range is backed by. -/
theorem getBackingBlocksForRange_ok (h : Areas 0 MAX_ADDRESS M.vmaMap) (hend : t + n ≤ MAX_ADDRESS)
    {blocks : List (MemoryRef × ℕ)}
    (hc : M.getBackingBlocksForRange t n = .ok (.ok blocks)) :
    BacksRange M.vmaMap.view t (t + n) blocks := by
  obtain ⟨rest, rfl, hrest⟩ := backingBlocks_go h hend _ (Nat.le_add_right t n) hc
  exact hrest

/-! ### The ends of the blocks -/

/-- The last host byte of blocks that are not empty is the last one of the last block. -/
theorem hostAt_last {blocks : List (MemoryRef × ℕ)} {last : MemoryRef × ℕ}
    (hpos : ∀ block ∈ blocks, 0 < block.2) (hlast : blocks.getLast? = some last) :
    hostAt blocks (blocksSize blocks - 1) = some (last.1.getPtr + (last.2 - 1)) := by
  induction blocks with
  | nil => cases hlast
  | cons block blocks ih =>
    have hblock := hpos block (by simp)
    have htotal : blocksSize (block :: blocks) = block.2 + blocksSize blocks := by
      simp [blocksSize]
    unfold hostAt
    cases blocks with
    | nil =>
      obtain rfl := Option.some.inj hlast
      have hsize : blocksSize [block] = block.2 := by simp [blocksSize]
      rw [hsize, if_pos (by omega)]
      rfl
    | cons second blocks =>
      have hsecond := hpos second (by simp)
      have hrest : blocksSize (second :: blocks) = second.2 + blocksSize blocks := by
        simp [blocksSize]
      have hsub : blocksSize (block :: second :: blocks) - 1 - block.2 =
          blocksSize (second :: blocks) - 1 := by omega
      rw [if_neg (by omega), hsub]
      apply ih
      · intro b hb
        exact hpos b (by simp [hb])
      · rw [← hlast, List.getLast?_cons_cons]

/-- The first host byte behind a range that is not empty is that of the first block, and the last
one that of the last block. -/
theorem BacksRange.ends {f : PageMap} {t u : ℕ} {blocks : List (MemoryRef × ℕ)}
    (h : BacksRange f t u blocks) (hlt : t < u) :
    (∃ first, blocks.head? = some first ∧ ∃ v, f t = some v ∧
        v.backing = some first.1.getPtr) ∧
      ∃ last, blocks.getLast? = some last ∧ ∃ v host, f (u - 1) = some v ∧
        v.backing = some host ∧ host + 1 = last.1.getPtr + last.2 := by
  have hsize := h.size
  obtain ⟨v, host, hv, -, hbacking, hhost⟩ := h.backed t le_rfl hlt
  obtain ⟨w, host', hw, -, hbacking', hhost'⟩ := h.backed (u - 1) (by omega) (by omega)
  cases blocks with
  | nil => cases hhost
  | cons first blocks =>
    have hpos := h.pos first (by simp)
    constructor
    · refine ⟨first, rfl, v, hv, ?_⟩
      unfold hostAt at hhost
      rw [Nat.sub_self, if_pos hpos] at hhost
      rw [hbacking, ← hhost]
      rfl
    · obtain ⟨last, hlast⟩ : ∃ last, (first :: blocks).getLast? = some last :=
        ⟨_, List.getLast?_eq_some_getLast (List.cons_ne_nil _ _)⟩
      have hlastPos := h.pos last (List.mem_of_getLast? hlast)
      refine ⟨last, hlast, w, host', hw, hbacking', ?_⟩
      have hoffset : u - 1 - t = blocksSize (first :: blocks) - 1 := by omega
      rw [hoffset, hostAt_last h.pos hlast] at hhost'
      have := Option.some.inj hhost'
      omega

end Borked3DS.Analysis

/-!
## What the memory calls of a process do

One lemma for each call that succeeds: what was taken from or given back to the region of the
process, and what was done to its address space.
-/

namespace Borked3DS.Analysis

open Borked3DS.Library Borked3DS.Model Borked3DS.Interface VMAMap IntervalSet

variable {S : Type} [IntervalSet S] {k k' : KernelSystem S} {p : ℕ} {process : Process S}

/-- A call on the memory of a process left its region and its address space like this, and FCRAM
and the rasterizer's marks as they were. -/
structure MovesMemory (k : KernelSystem S) (p : ℕ) (process : Process S) (r : MemoryRegionInfo S)
    (vm : VMManager) (k' : KernelSystem S) : Prop where
  fcram : k'.fcram = k.fcram
  isCached : k'.isCached = k.isCached
  region : k'.memoryRegions = Function.update k.memoryRegions process.memoryRegion r
  process : ∃ process', k'.processes[p]? = some process' ∧ process'.vmManager = vm ∧
    process'.memoryRegion = process.memoryRegion

/-! ### The parts -/

omit [IntervalSet S] in
/-- The process that is written is the one that is read. -/
theorem getElem?_set_process {ps : List (Process S)} {process' : Process S}
    (h : ps[p]? = some process) : (ps.set p process')[p]? = some process' := by
  obtain ⟨hlt, -⟩ := List.getElem?_eq_some_iff.mp h
  rw [List.getElem?_set_self hlt]

omit [IntervalSet S] in
theorem fcramRef_ok {offset : ℕ} {memory : MemoryRef} (h : fcramRef offset k = .ok (memory, k')) :
    offset ≤ Memory.FCRAM_N3DS_SIZE ∧ memory = { backingMem := some k.fcram, offset := offset } ∧
      k' = k := by
  simp only [fcramRef, stateT_bind_eq_ok, stateT_get_eq_ok, stateT_lift_eq_ok,
    stateT_pure_eq_ok, assert_eq_ok] at h
  obtain ⟨_, _, ⟨hle, rfl⟩, _, _, ⟨rfl, rfl⟩, rfl, rfl⟩ := h
  exact ⟨hle, rfl, rfl⟩

omit [IntervalSet S] in
theorem fcramBlock_mapM_ok {allocated : List (ℕ × ℕ)} {blocks : List (MemoryRef × ℕ)}
    (h : allocated.mapM fcramBlock k = .ok (blocks, k')) :
    k' = k ∧ blocks = fcramBlocks k allocated ∧ ∀ i ∈ allocated, i.2 ≤ Memory.FCRAM_N3DS_SIZE := by
  induction allocated generalizing blocks k' with
  | nil =>
    simp only [List.mapM_nil, stateT_pure_eq_ok] at h
    obtain ⟨rfl, rfl⟩ := h
    exact ⟨rfl, rfl, by simp⟩
  | cons i allocated ih =>
    simp only [List.mapM_cons, stateT_bind_eq_ok, stateT_pure_eq_ok] at h
    obtain ⟨block, k₁, hblock, rest, k₂, hrest, rfl, rfl⟩ := h
    simp only [fcramBlock, stateT_bind_eq_ok, stateT_lift_eq_ok, stateT_pure_eq_ok,
      assert_eq_ok] at hblock
    obtain ⟨_, _, ⟨hle, rfl⟩, memory, _, hmemory, rfl, rfl⟩ := hblock
    obtain ⟨-, rfl, rfl⟩ := fcramRef_ok hmemory
    obtain ⟨rfl, rfl, hall⟩ := ih hrest
    refine ⟨rfl, rfl, ?_⟩
    intro j hj
    rcases List.mem_cons.mp hj with rfl | hj
    · exact hle
    · exact hall j hj

/-! ### The heap -/

/-- SOURCE: process.cpp:285-332 -/
theorem process_heapAllocate_ok {target size a : ℕ} {perms : VMAPermission} {state : MemoryState}
    {skipRangeCheck : Bool}
    (h : Process.heapAllocate p target size perms state skipRangeCheck k = .ok (.ok a, k')) :
    a = target ∧ ∃ process r allocated vm, k.processes[p]? = some process ∧
      (k.memoryRegions process.memoryRegion).heapAllocate size = .ok (r, allocated) ∧
      intervals allocated ≠ [] ∧ (∀ i ∈ intervals allocated, i.2 ≤ Memory.FCRAM_N3DS_SIZE) ∧
      mapBlocks k.isCached state perms (fcramBlocks k (intervals allocated)) target
        process.vmManager = .ok vm ∧ MovesMemory k p process r vm k' := by
  unfold Process.heapAllocate at h
  split at h
  · exact absurd (stateT_pure_eq_ok.mp h).1 (by simp)
  · obtain ⟨process, _, hprocess, h⟩ := stateT_bind_eq_ok.mp h
    obtain ⟨rfl, hget⟩ := getProcess_ok hprocess
    obtain ⟨isFree, _, hfree, h⟩ := stateT_bind_eq_ok.mp h
    obtain ⟨-, rfl⟩ := stateT_lift_eq_ok.mp hfree
    split at h
    · obtain ⟨allocated, k₁, hallocated, h⟩ := stateT_bind_eq_ok.mp h
      simp only [heapAllocateRegion, stateT_bind_eq_ok, stateT_get_eq_ok, stateT_lift_eq_ok,
        stateT_set_eq_ok, stateT_pure_eq_ok] at hallocated
      obtain ⟨_, _, ⟨rfl, rfl⟩, ⟨r, _⟩, _, ⟨hr, rfl⟩, _, _, rfl, rfl, rfl⟩ := hallocated
      split at h
      · exact absurd (stateT_pure_eq_ok.mp h).1 (by simp)
      next hne =>
        obtain ⟨blocks, _, hblocks, h⟩ := stateT_bind_eq_ok.mp h
        obtain ⟨rfl, rfl, hall⟩ := fcramBlock_mapM_ok hblocks
        simp only [stateT_bind_eq_ok, stateT_get_eq_ok, stateT_lift_eq_ok, stateT_pure_eq_ok,
          setProcess, stateT_modify_eq_ok, Except.ok.injEq] at h
        obtain ⟨_, _, ⟨rfl, rfl⟩, vm, _, ⟨hvm, rfl⟩, _, _, rfl, _, _, hreserve, rfl, rfl⟩ := h
        obtain ⟨-, rfl⟩ := reserve_ok hreserve
        exact ⟨rfl, process, r, _, vm, hget, hr, hne, hall, hvm, rfl, rfl, rfl, _,
          getElem?_set_process hget, rfl, rfl⟩
    · exact absurd (stateT_pure_eq_ok.mp h).1 (by simp)

/-! ### The linear heap -/

/-- SOURCE: process.cpp:365-390 -/
theorem chooseLinear_ok {kernelVersion target size address offset : ℕ}
    (h : Process.chooseLinear p kernelVersion target size k = .ok (.ok (address, offset), k')) :
    ∃ process r, k.processes[p]? = some process ∧
      k' = withRegion k process.memoryRegion r ∧
      ((target = 0 ∧ (k.memoryRegions process.memoryRegion).linearAllocate size =
          .ok (r, some offset) ∧ address = u32 (offset + linearHeapAreaAddress kernelVersion)) ∨
        (target ≠ 0 ∧ address = target ∧
          offset = u32Sub target (linearHeapAreaAddress kernelVersion) ∧
          rangeInside (Process.linearHeapBase k process kernelVersion)
            (Process.linearHeapLimit k process kernelVersion) target size ∧
          (k.memoryRegions process.memoryRegion).linearAllocateAt offset size =
            .ok (r, true))) := by
  unfold Process.chooseLinear at h
  obtain ⟨process, _, hprocess, h⟩ := stateT_bind_eq_ok.mp h
  obtain ⟨rfl, hget⟩ := getProcess_ok hprocess
  refine ⟨process, ?_⟩
  dsimp only at h
  split at h
  next hzero =>
    obtain ⟨res, k₁, hres, h⟩ := stateT_bind_eq_ok.mp h
    simp only [Model.linearAllocate, stateT_bind_eq_ok, stateT_get_eq_ok, stateT_lift_eq_ok,
      stateT_set_eq_ok, stateT_pure_eq_ok] at hres
    obtain ⟨_, _, ⟨rfl, rfl⟩, ⟨r, found⟩, _, ⟨hr, rfl⟩, _, _, rfl, rfl, rfl⟩ := hres
    cases found with
    | none => exact absurd (stateT_pure_eq_ok.mp h).1 (by simp)
    | some found =>
      simp only [stateT_pure_eq_ok, Except.ok.injEq, Prod.mk.injEq] at h
      obtain ⟨⟨rfl, rfl⟩, rfl⟩ := h
      exact ⟨r, hget, rfl, Or.inl ⟨hzero, hr, rfl⟩⟩
  next hzero =>
    obtain ⟨_, _, hk, h⟩ := stateT_bind_eq_ok.mp h
    obtain ⟨rfl, rfl⟩ := stateT_get_eq_ok.mp hk
    split at h
    next hinside =>
      obtain ⟨granted, k₁, hgranted, h⟩ := stateT_bind_eq_ok.mp h
      simp only [linearAllocateAtRegion, stateT_bind_eq_ok, stateT_get_eq_ok, stateT_lift_eq_ok,
        stateT_set_eq_ok, stateT_pure_eq_ok] at hgranted
      obtain ⟨_, _, ⟨rfl, rfl⟩, ⟨r, given⟩, _, ⟨hr, rfl⟩, _, _, rfl, rfl, rfl⟩ := hgranted
      cases given with
      | false => exact absurd (stateT_pure_eq_ok.mp h).1 (by simp)
      | true =>
        simp only [if_true, stateT_pure_eq_ok, Except.ok.injEq, Prod.mk.injEq] at h
        obtain ⟨⟨rfl, rfl⟩, rfl⟩ := h
        exact ⟨r, hget, rfl, Or.inr ⟨hzero, rfl, rfl, hinside, hr⟩⟩
    · exact absurd (stateT_pure_eq_ok.mp h).1 (by simp)

/-- SOURCE: process.cpp:363-407 -/
theorem process_linearAllocate_ok {kernelVersion target size a : ℕ} {perms : VMAPermission}
    (h : Process.linearAllocate p kernelVersion target size perms k = .ok (.ok a, k')) :
    ∃ process r offset vm, k.processes[p]? = some process ∧
      ((target = 0 ∧ (k.memoryRegions process.memoryRegion).linearAllocate size =
          .ok (r, some offset) ∧ a = u32 (offset + linearHeapAreaAddress kernelVersion)) ∨
        (target ≠ 0 ∧ a = target ∧ offset = u32Sub target (linearHeapAreaAddress kernelVersion) ∧
          rangeInside (Process.linearHeapBase k process kernelVersion)
            (Process.linearHeapLimit k process kernelVersion) target size ∧
          (k.memoryRegions process.memoryRegion).linearAllocateAt offset size = .ok (r, true))) ∧
      offset ≤ Memory.FCRAM_N3DS_SIZE ∧
      mapBlocks k.isCached .continuous perms [({ backingMem := some k.fcram, offset := offset },
        size)] a process.vmManager = .ok vm ∧ MovesMemory k p process r vm k' := by
  unfold Process.linearAllocate at h
  obtain ⟨chosen, k₁, hchosen, h⟩ := stateT_bind_eq_ok.mp h
  cases chosen with
  | error _ => exact absurd (stateT_pure_eq_ok.mp h).1 (by simp)
  | ok place =>
    obtain ⟨address, offset⟩ := place
    obtain ⟨process, r, hget, rfl, hplace⟩ := chooseLinear_ok hchosen
    obtain ⟨memory, _, hmemory, h⟩ := stateT_bind_eq_ok.mp h
    obtain ⟨hle, rfl, rfl⟩ := fcramRef_ok hmemory
    obtain ⟨process', _, hprocess, h⟩ := stateT_bind_eq_ok.mp h
    obtain ⟨rfl, hget'⟩ := getProcess_ok hprocess
    obtain rfl := Option.some.inj (hget.symm.trans hget')
    simp only [stateT_bind_eq_ok, stateT_get_eq_ok, stateT_lift_eq_ok, stateT_pure_eq_ok,
      setProcess, stateT_modify_eq_ok, Except.ok.injEq] at h
    obtain ⟨_, _, ⟨rfl, rfl⟩, vm, _, ⟨hvm, rfl⟩, _, _, rfl, _, _, hreserve, rfl, rfl⟩ := h
    obtain ⟨-, rfl⟩ := reserve_ok hreserve
    exact ⟨process, r, offset, vm, hget, hplace, hle, hvm, rfl, rfl, rfl, _,
      getElem?_set_process hget, rfl, rfl⟩

/-! ### Aliases -/

omit [IntervalSet S] in
theorem changeState_ok {target size : ℕ} {expectedState newState : MemoryState}
    {expectedPerms newPerms : VMAPermission} {res : Result}
    (h : Process.changeState p target size expectedState expectedPerms newState newPerms k =
      .ok (res, k')) :
    ∃ process vm, k.processes[p]? = some process ∧
      process.vmManager.changeMemoryState k.isCached target size expectedState expectedPerms
        newState newPerms = .ok (vm, res) ∧
      k' = { k with processes := k.processes.set p { process with vmManager := vm } } := by
  unfold Process.changeState at h
  obtain ⟨process, _, hprocess, h⟩ := stateT_bind_eq_ok.mp h
  obtain ⟨rfl, hget⟩ := getProcess_ok hprocess
  simp only [stateT_bind_eq_ok, stateT_get_eq_ok, stateT_lift_eq_ok, stateT_pure_eq_ok,
    setProcess, stateT_modify_eq_ok] at h
  obtain ⟨_, _, ⟨rfl, rfl⟩, ⟨vm, _⟩, _, ⟨hvm, rfl⟩, _, _, rfl, rfl, rfl⟩ := h
  exact ⟨process, vm, hget, hvm, rfl⟩

/-- The states that `Map` gives its source and its target, and the permissions of the source. -/
def aliasStates (privileged : Bool) : MemoryState × MemoryState × VMAPermission :=
  if privileged then (.locked, .aliasCode, .none) else (.aliased, .alias, .readWrite)

omit [IntervalSet S] in
/-- SOURCE: process.cpp:499-553 -/
theorem process_map_ok {target source size : ℕ} {perms : VMAPermission} {privileged : Bool}
    (hne : source ≠ target)
    (h : Process.map p target source size perms privileged k = .ok (.success, k')) :
    ¬ rangesOverlap target source size ∧ ∃ process marked blocks vm,
      k.processes[p]? = some process ∧
      process.vmManager.changeMemoryState k.isCached source size .private_ .readWrite
        (aliasStates privileged).1 (aliasStates privileged).2.2 = .ok (marked, .success) ∧
      marked.getBackingBlocksForRange source size = .ok (.ok blocks) ∧
      mapBlocks k.isCached (aliasStates privileged).2.1 perms blocks target marked = .ok vm ∧
      MovesMemory k p process (k.memoryRegions process.memoryRegion) vm k' := by
  unfold Process.map at h
  split at h
  · exact absurd (stateT_pure_eq_ok.mp h).1 (by simp)
  · split at h
    · split at h
      · exact absurd (stateT_pure_eq_ok.mp h).1 (by simp)
      · exact absurd (stateT_pure_eq_ok.mp h).1 (by simp)
    next hoverlap =>
      obtain ⟨process, _, hprocess, h⟩ := stateT_bind_eq_ok.mp h
      obtain ⟨rfl, hget⟩ := getProcess_ok hprocess
      obtain ⟨isFree, _, hfree, h⟩ := stateT_bind_eq_ok.mp h
      obtain ⟨-, rfl⟩ := stateT_lift_eq_ok.mp hfree
      split at h
      · obtain ⟨res, k₁, hmarked, h⟩ := stateT_bind_eq_ok.mp h
        obtain ⟨process', marked, hget', hchange, rfl⟩ := changeState_ok hmarked
        obtain rfl := Option.some.inj (hget.symm.trans hget')
        split at h
        next hres => exact absurd (stateT_pure_eq_ok.mp h).1 hres
        next hres =>
          obtain rfl := not_not.mp hres
          obtain ⟨process', _, hprocess', h⟩ := stateT_bind_eq_ok.mp h
          obtain ⟨rfl, hget''⟩ := getProcess_ok hprocess'
          rw [getElem?_set_process hget] at hget''
          obtain rfl := Option.some.inj hget''
          obtain ⟨found, _, hfound, h⟩ := stateT_bind_eq_ok.mp h
          obtain ⟨hblocks, rfl⟩ := stateT_lift_eq_ok.mp hfound
          cases found with
          | error code =>
            obtain ⟨rfl, rfl⟩ := stateT_pure_eq_ok.mp h
            exact absurd (getBackingBlocksForRange_error hblocks) (by simp)
          | ok blocks =>
            simp only [stateT_bind_eq_ok, stateT_get_eq_ok, stateT_lift_eq_ok, stateT_pure_eq_ok,
              setProcess, stateT_modify_eq_ok] at h
            obtain ⟨_, _, ⟨rfl, rfl⟩, vm, _, ⟨hvm, rfl⟩, _, _, rfl, -, rfl⟩ := h
            rw [List.set_set]
            cases privileged with
            | true =>
              exact ⟨hoverlap, process, marked, blocks, vm, hget, hchange, hblocks, hvm, rfl, rfl,
                (Function.update_eq_self _ _).symm, _, getElem?_set_process hget, rfl, rfl⟩
            | false =>
              exact ⟨hoverlap, process, marked, blocks, vm, hget, hchange, hblocks, hvm, rfl, rfl,
                (Function.update_eq_self _ _).symm, _, getElem?_set_process hget, rfl, rfl⟩
      · exact absurd (stateT_pure_eq_ok.mp h).1 (by simp)

end Borked3DS.Analysis
