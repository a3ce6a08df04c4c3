import Borked3DS.Analysis.ResourceBooks

/-!
# The calls that create and destroy charged objects

What each function leaves of the kernel, read off its program: the allocations, the thread local
storage, the handles, the destructors, and the creation of threads and shared memory blocks.
-/

set_option autoImplicit false

namespace Borked3DS.Analysis

open Borked3DS.Library Borked3DS.Model Borked3DS.Interface IntervalSet LawfulIntervalSet

variable {S : Type} [IntervalSet S]

/-- `ChangeMemoryState` keeps an address space consistent.
SOURCE: vm_manager.cpp:135-169 -/
theorem changeMemoryState_consistent {isCached : ℕ → Bool} {M M' : VMManager} {t n : ℕ}
    (h : Consistent M) (ht : t < 2 ^ 32) (hn : n < 2 ^ 32) {expectedState newState : MemoryState}
    {expectedPerms newPerms : VMAPermission} {res : Result}
    (hc : M.changeMemoryState isCached t n expectedState expectedPerms newState newPerms =
      .ok (M', res)) : Consistent M' := by
  rcases changeMemoryState_cases h.areas h.unlocked ht hn hc with ⟨-, hedited, -⟩ | ⟨-, rfl, -⟩
  · exact hedited.consistent (restated_pageEdit newState newPerms) h
  · exact h

/-! ## Allocating and freeing -/

section Regions

variable {k k' : KernelSystem S} {os : List (KernelObject S)} {region : MemoryRegion} {n : ℕ}

/-- The kernel with a region overwritten. -/
def withRegion (k : KernelSystem S) (region : MemoryRegion) (r : MemoryRegionInfo S) :
    KernelSystem S := { k with memoryRegions := Function.update k.memoryRegions region r }

/-- The range `[offset, offset + n)` was taken from what is free in a region. -/
structure Takes (k : KernelSystem S) (region : MemoryRegion) (n offset : ℕ) (k' : KernelSystem S) :
    Prop where
  regions : ∃ r, k' = withRegion k region r
  fits : offset + n ≤ Memory.FCRAM_N3DS_SIZE
  free : ∀ x, inRange x offset (offset + n) ≤ share x (k.memoryRegions region).freeBlocks
  taken : ∀ x, freeShare k'.memoryRegions x + inRange x offset (offset + n) =
    freeShare k.memoryRegions x

variable [LawfulIntervalSet S]

/-- SOURCE: memory.cpp:225-241 -/
theorem linearAllocate_ok (ha : ApartOf k os) {res : Option ℕ}
    (h : linearAllocate region n k = .ok (res, k')) :
    (res = none ∧ k' = k) ∨ ∃ offset, res = some offset ∧ Takes k region n offset k' := by
  simp only [linearAllocate, stateT_bind_eq_ok, stateT_get_eq_ok, stateT_lift_eq_ok,
    stateT_set_eq_ok, stateT_pure_eq_ok] at h
  obtain ⟨_, _, ⟨rfl, rfl⟩, ⟨r, _⟩, _, ⟨hr, rfl⟩, _, _, rfl, rfl, rfl⟩ := h
  simp only [MemoryRegionInfo.linearAllocate, bind_eq_ok, assert_eq_ok] at hr
  obtain ⟨-, -, hr⟩ := hr
  cases hfind : (intervals (k.memoryRegions region).freeBlocks).find?
      (fun interval => decide (n ≤ interval.2 - interval.1)) with
  | none =>
      rw [hfind] at hr
      obtain ⟨rfl, rfl⟩ := Prod.mk.inj (Except.ok.inj hr)
      exact .inl ⟨rfl, by rw [Function.update_eq_self]⟩
  | some block =>
      rw [hfind] at hr
      obtain ⟨rfl, rfl⟩ := Prod.mk.inj (Except.ok.inj hr)
      have hmem := List.mem_of_find?_eq_some hfind
      have hlong := List.find?_some hfind
      simp only [decide_eq_true_eq] at hlong
      have hne := (canonical (k.memoryRegions region).freeBlocks).nonempty block hmem
      -- the last byte of the block is free, so it lies in FCRAM
      have hlast : share (block.2 - 1) (k.memoryRegions region).freeBlocks = 1 :=
        share_eq_one.mpr ⟨block, hmem, by omega, by omega⟩
      have hbound : block.2 ≤ Memory.FCRAM_N3DS_SIZE := by
        have h₁ := ha (block.2 - 1)
        have h₂ := share_le_freeShare k.memoryRegions region (block.2 - 1)
        rw [shares_eq] at h₁
        split at h₁ <;> omega
      have hwrap : u32 (block.1 + n) = block.1 + n := u32_of_lt (by
        have : Memory.FCRAM_N3DS_SIZE < 2 ^ 32 := by decide
        omega)
      have hfree : ∀ x, inRange x block.1 (block.1 + n) ≤
          share x (k.memoryRegions region).freeBlocks := by
        intro x
        unfold inRange
        split
        next hx => exact (share_eq_one.mpr ⟨block, hmem, hx.1, by omega⟩).ge
        next => exact Nat.zero_le _
      refine .inr ⟨block.1, rfl, ⟨⟨_, rfl⟩, by omega, hfree, fun x => ?_⟩⟩
      have hupdate := freeShare_update k.memoryRegions region
        ((k.memoryRegions region).take n (some (block.1, u32 (block.1 + n)))).1 x
      have hsub : share x (sub (k.memoryRegions region).freeBlocks (block.1, block.1 + n)) +
          inRange x block.1 (block.1 + n) = share x (k.memoryRegions region).freeBlocks := by
        have := hfree x
        simp only [share, inRange, toSet_sub, Set.mem_sdiff, Set.mem_Ico] at this ⊢
        split_ifs at this ⊢ <;> first | omega | tauto
      simp only [MemoryRegionInfo.take, hwrap] at hupdate
      show freeShare (Function.update k.memoryRegions region _) x + _ = _
      simp only [hwrap]
      omega

/-- SOURCE: memory.cpp:262-271 -/
theorem freeRegion_ok {offset : ℕ} {u : Unit} (h : freeRegion region offset n k = .ok (u, k')) :
    ∃ r, k' = withRegion k region r ∧ ∀ x, freeShare k'.memoryRegions x ≤
      freeShare k.memoryRegions x + inRange x offset (offset + n) := by
  simp only [freeRegion, stateT_bind_eq_ok, stateT_get_eq_ok, stateT_lift_eq_ok,
    stateT_set_eq_ok] at h
  obtain ⟨_, _, ⟨rfl, rfl⟩, r, _, ⟨hr, rfl⟩, rfl⟩ := h
  refine ⟨r, rfl, fun x => ?_⟩
  show freeShare (Function.update k.memoryRegions region r) x ≤ _
  have hupdate := freeShare_update k.memoryRegions region r x
  have hgrow : share x r.freeBlocks ≤
      share x (k.memoryRegions region).freeBlocks + inRange x offset (offset + n) := by
    simp only [MemoryRegionInfo.free] at hr
    split at hr
    · obtain rfl := Except.ok.inj hr
      omega
    · obtain ⟨-, -, hr⟩ := bind_eq_ok.mp hr
      obtain rfl := Except.ok.inj hr
      have hadd := share_add_le x offset (u32 (offset + n)) (k.memoryRegions region).freeBlocks
      have hle := u32_le (offset + n)
      have hin : inRange x offset (u32 (offset + n)) ≤ inRange x offset (offset + n) := by
        unfold inRange
        split_ifs <;> omega
      exact hadd.trans (Nat.add_le_add_left hin _)
  omega

/-- How often `x` is in the intervals of a list. -/
def listShare (x : ℕ) (l : List (ℕ × ℕ)) : ℕ :=
  (l.map fun i => inRange x i.1 (i.1 + (i.2 - i.1))).sum

omit [IntervalSet S] [LawfulIntervalSet S] in
theorem listShare_canonical (x : ℕ) {l : List (ℕ × ℕ)} (h : Canonical l) :
    listShare x l = if ∃ i ∈ l, i.1 ≤ x ∧ x < i.2 then 1 else 0 := by
  induction l with
  | nil => rfl
  | cons i l ih =>
      have hne := h.nonempty i (by simp)
      have hrest := ih h.tail
      simp only [listShare, List.map_cons, List.sum_cons] at hrest ⊢
      rw [hrest, show i.1 + (i.2 - i.1) = i.2 by omega]
      by_cases hin : i.1 ≤ x ∧ x < i.2
      · have hnot : ¬ ∃ j ∈ l, j.1 ≤ x ∧ x < j.2 := by
          intro hex
          have := h.lt_of_mem (mem_elements.mpr hex)
          omega
        rw [inRange, if_pos hin, if_neg hnot, if_pos ⟨i, by simp, hin⟩]
      · have hiff : (∃ j ∈ i :: l, j.1 ≤ x ∧ x < j.2) ↔ ∃ j ∈ l, j.1 ≤ x ∧ x < j.2 := by
          simp [hin]
        rw [inRange, if_neg hin, zero_add]
        exact if_congr hiff.symm rfl rfl

theorem listShare_intervals (x : ℕ) (s : S) : listShare x (intervals s) = share x s :=
  listShare_canonical x (canonical s)

/-- Freeing intervals one after the other. -/
theorem freeLoop_ok {l : List (ℕ × ℕ)} {u : Unit}
    (h : (l.forM fun i => freeRegion region i.1 (i.2 - i.1)) k = .ok (u, k')) :
    ∃ regions, k' = { k with memoryRegions := regions } ∧
      ∀ x, freeShare regions x ≤ freeShare k.memoryRegions x + listShare x l := by
  induction l generalizing k with
  | nil =>
      obtain ⟨-, rfl⟩ := Prod.mk.inj (Except.ok.inj h)
      exact ⟨k.memoryRegions, rfl, fun x => Nat.le_add_right _ _⟩
  | cons i l ih =>
      obtain ⟨a, k₁, hfirst, hrest⟩ := stateT_bind_eq_ok.mp h
      obtain ⟨r, hk₁, hr⟩ := freeRegion_ok hfirst
      obtain ⟨regions, hk', hregions⟩ := ih hrest
      refine ⟨regions, by rw [hk', hk₁]; rfl, fun x => ?_⟩
      have h₁ := hr x
      have h₂ := hregions x
      simp only [listShare, List.map_cons, List.sum_cons] at h₂ ⊢
      omega

end Regions

/-! ## What calls leave as it is -/

section Frames

variable {k k' k'' : KernelSystem S} {os os' : List (KernelObject S)} {p : ℕ}
  {process process' : Process S}

/-- The three books with a list of objects. -/
structure Books (k : KernelSystem S) (objects : List (KernelObject S)) : Prop where
  counts : CountsOf k objects
  bytes : BytesOf k objects
  apart : ApartOf k objects

/-- Every process keeps its limit and lives on if it lived, and every address space stays
consistent. -/
structure KeepsProcesses (k k' : KernelSystem S) : Prop where
  same : ∀ i : ℕ, (k'.processes[i]?).map (fun q => (q.resourceLimit, q.expired)) =
    (k.processes[i]?).map fun q => (q.resourceLimit, q.expired)
  spaces : (∀ q ∈ k.processes, Consistent q.vmManager) →
    ∀ q ∈ k'.processes, Consistent q.vmManager

omit [IntervalSet S] in
theorem KeepsProcesses.of_eq (h : k'.processes = k.processes) : KeepsProcesses k k' :=
  ⟨fun i => by rw [h], by rw [h]; exact id⟩

omit [IntervalSet S] in
theorem KeepsProcesses.trans (h : KeepsProcesses k k') (h' : KeepsProcesses k' k'') :
    KeepsProcesses k k'' :=
  ⟨fun i => (h'.same i).trans (h.same i), fun hs => h'.spaces (h.spaces hs)⟩

omit [IntervalSet S] in
theorem KeepsProcesses.limits (h : KeepsProcesses k k') : SameLimits k.processes k'.processes := by
  intro i
  have := congrArg (Option.map Prod.fst) (h.same i)
  rw [Option.map_map, Option.map_map] at this
  exact this

omit [IntervalSet S] in
/-- A live process is still there and alive. -/
theorem KeepsProcesses.live (h : KeepsProcesses k k') (hget : k.processes[p]? = some process)
    (hlive : process.expired = false) :
    ∃ process', k'.processes[p]? = some process' ∧ process'.expired = false := by
  have hsame := h.same p
  rw [hget] at hsame
  cases hp : k'.processes[p]? with
  | none =>
      rw [hp] at hsame
      cases hsame
  | some process' =>
      rw [hp] at hsame
      have := congrArg Prod.snd (Option.some.inj hsame)
      exact ⟨process', rfl, this.trans hlive⟩

omit [IntervalSet S] in
theorem KeepsProcesses.of_set (hget : k.processes[p]? = some process)
    (hset : k'.processes = k.processes.set p process')
    (hlimit : process'.resourceLimit = process.resourceLimit)
    (hexpired : process'.expired = process.expired)
    (hspace : Consistent process.vmManager → Consistent process'.vmManager) :
    KeepsProcesses k k' := by
  have hlt : p < k.processes.length := (List.getElem?_eq_some_iff.mp hget).1
  refine ⟨fun i => ?_, fun hs q hq => ?_⟩
  · rw [hset, List.getElem?_set]
    split
    next heq =>
      subst heq
      rw [hget]
      simp [hlimit, hexpired]
    next => rfl
  · rw [hset] at hq
    rcases mem_set_cases hq with hold | rfl
    · exact hs q hold
    · exact hspace (hs process (List.mem_of_getElem? hget))

/-- Writing a process without changing what the books are about. -/
theorem Books.of_set (h : Books k os) (hget : k.processes[p]? = some process)
    (hk : k' = { k with processes := k.processes.set p process' })
    (hlimit : process'.resourceLimit = process.resourceLimit)
    (hexpired : process'.expired = process.expired)
    (hused : process'.memoryUsed = process.memoryUsed)
    (hheap : process'.holdingMemory = process.holdingMemory)
    (htls : process'.holdingTlsMemory = process.holdingTlsMemory) : Books k' os := by
  subst hk
  refine ⟨?_, bytesOf_set h.bytes hget rfl (fun _ _ => rfl) fun hlive => ?_, fun x => ?_⟩
  · exact h.counts.congr (fun _ _ _ => rfl) (sameLimits_set hget hlimit)
  · rw [hused, h.bytes p process hget (hexpired ▸ hlive), heldBytes, heldBytes, hheap, htls]
  · have hshares := shares_set k.memoryRegions hget process' os x
    have := h.apart x
    simp only [processShare, hheap, htls] at hshares
    show shares k.memoryRegions (k.processes.set p process') os x ≤ _
    omega

end Frames

/-! ## The memory of a process -/

section ProcessMemory

variable [LawfulIntervalSet S]

variable {k k' : KernelSystem S} {os : List (KernelObject S)} {p : ℕ} {process : Process S}

/-- The process with another page of thread local storage. -/
def withTlsPage (process : Process S) (vm : VMManager) (offset : ℕ) (tls : List TlsPage) :
    Process S :=
  { process with
    vmManager := vm
    holdingTlsMemory := add process.holdingTlsMemory (offset, offset + Memory.PAGE_SIZE)
    memoryUsed := u32 (process.memoryUsed + Memory.PAGE_SIZE)
    tlsSlots := tls }

/-- Taking a page for thread local storage, or finding none.
SOURCE: process.cpp:452-485 -/
theorem allocateTlsPage_ok (ha : ApartOf k os) (hget : k.processes[p]? = some process)
    {res : ResultVal ℕ} (h : allocateTlsPage p k = .ok (res, k')) :
    (res = .error .outOfMemory ∧ k' = k) ∨
      ∃ offset k₁ vm tls address, res = .ok address ∧ Takes k .base Memory.PAGE_SIZE offset k₁ ∧
        (Consistent process.vmManager → Consistent vm) ∧
        k' = { k₁ with processes := k.processes.set p (withTlsPage process vm offset tls) } := by
  simp only [allocateTlsPage] at h
  obtain ⟨a, k₁, halloc, h⟩ := stateT_bind_eq_ok.mp h
  rcases linearAllocate_ok ha halloc with ⟨rfl, hk₁⟩ | ⟨offset, rfl, htakes⟩
  · obtain ⟨rfl, rfl⟩ := Prod.mk.inj (Except.ok.inj h)
    exact .inl ⟨rfl, hk₁⟩
  · obtain ⟨r, hk₁⟩ := htakes.regions
    have hsame : k₁.processes = k.processes := by rw [hk₁]; rfl
    obtain ⟨process₁, k₂, hproc, h⟩ := stateT_bind_eq_ok.mp h
    obtain ⟨hk₂, hget₁⟩ := getProcess_ok hproc
    rw [← hk₂] at h
    obtain rfl : process = process₁ := by
      rw [hsame, hget] at hget₁
      exact Option.some.inj hget₁
    simp only [fcramRef, setProcess, stateT_bind_eq_ok, stateT_get_eq_ok, stateT_lift_eq_ok,
      stateT_modify_eq_ok, stateT_pure_eq_ok] at h
    obtain ⟨memory, _, ⟨_, _, ⟨-, rfl⟩, _, _, ⟨rfl, rfl⟩, rfl, rfl⟩, _, _, ⟨rfl, rfl⟩, ⟨vm, res'⟩, _,
      ⟨hmap, rfl⟩, _, _, rfl, rfl, rfl⟩ := h
    refine .inr ⟨offset, k₁, vm, _, _, rfl, htakes, fun hc => ?_, by rw [← hsame]; rfl⟩
    exact (mapBackingMemory_invariant hc (by decide) hmap).1

omit [LawfulIntervalSet S] in
/-- A range that was taken was held by nobody. -/
theorem Takes.disjoint {region : MemoryRegion} {n offset : ℕ} (ht : Takes k region n offset k')
    (ha : ApartOf k os) {s : S} (hs : ∀ x, share x s + freeShare k.memoryRegions x ≤
      shares k.memoryRegions k.processes os x) :
    Disjoint (toSet s) (Set.Ico offset (offset + n)) := by
  rw [Set.disjoint_left]
  rintro x hx ⟨hlo, hhi⟩
  have h₁ := share_eq_one.mpr hx
  have h₂ := ht.free x
  have h₃ := share_le_freeShare k.memoryRegions region x
  have h₄ := hs x
  have h₅ := ha x
  rw [inRange, if_pos ⟨hlo, hhi⟩] at h₂
  split at h₅ <;> omega

omit [LawfulIntervalSet S] in
/-- A process's storage is part of what is held. -/
theorem tls_share_le (hget : k.processes[p]? = some process) (x : ℕ) :
    share x process.holdingTlsMemory + freeShare k.memoryRegions x ≤
      shares k.memoryRegions k.processes os x := by
  have : processShare x process ≤ (k.processes.map (processShare x)).sum :=
    List.single_le_sum (by simp) _ (List.mem_map_of_mem (List.mem_of_getElem? hget))
  rw [shares_eq]
  simp only [processShare] at this
  omega

/-- SOURCE: process.cpp:429-498 -/
theorem allocateThreadLocalStorage_books (h : Books k os)
    (hget : k.processes[p]? = some process) (hlive : process.expired = false) {res : ResultVal ℕ}
    (hc : allocateThreadLocalStorage p k = .ok (res, k')) :
    Books k' os ∧ KeepsProcesses k k' ∧ k'.objects = k.objects ∧ k'.nextObject = k.nextObject := by
  obtain ⟨process₁, k₁, hproc, hrest⟩ := stateT_bind_eq_ok.mp hc
  obtain ⟨rfl, hget₁⟩ := getProcess_ok hproc
  obtain rfl : process = process₁ := Option.some.inj (hget.symm.trans hget₁)
  cases hslot : freeTlsSlot process.tlsSlots 0 with
  | some place =>
      obtain ⟨page, slot⟩ := place
      simp only [hslot, setProcess, stateT_bind_eq_ok, stateT_modify_eq_ok,
        stateT_pure_eq_ok] at hrest
      obtain ⟨_, _, rfl, rfl, rfl⟩ := hrest
      exact ⟨h.of_set hget rfl rfl rfl rfl rfl rfl, .of_set hget rfl rfl rfl id, rfl, rfl⟩
  | none =>
      simp only [hslot] at hrest
      rcases allocateTlsPage_ok h.apart hget hrest with
        ⟨-, hk'⟩ | ⟨offset, k₂, vm, tls, address, -, htakes, hspace, hk'⟩
      · rw [hk']
        exact ⟨h, .of_eq rfl, rfl, rfl⟩
      · obtain ⟨r, hk₂⟩ := htakes.regions
        have hset : k'.processes = k.processes.set p (withTlsPage process vm offset tls) := by
          rw [hk']
        have hdisjoint := htakes.disjoint h.apart (tls_share_le hget)
        have hshares : ∀ x, shares k'.memoryRegions k'.processes os x ≤
            shares k.memoryRegions k.processes os x := by
          intro x
          have h₁ := shares_set k'.memoryRegions hget (withTlsPage process vm offset tls) os x
          have h₂ := share_add_le x offset (offset + Memory.PAGE_SIZE) process.holdingTlsMemory
          have h₃ := htakes.taken x
          have h₄ : k'.memoryRegions = k₂.memoryRegions := by rw [hk']
          rw [← hset] at h₁
          simp only [processShare, withTlsPage, shares_eq, h₄] at h₁ ⊢
          omega
        have hapart : ApartOf k' os := fun x => (hshares x).trans (h.apart x)
        have hget' : k'.processes[p]? = some (withTlsPage process vm offset tls) := by
          rw [hset, List.getElem?_set_self (List.getElem?_eq_some_iff.mp hget).1]
        have hheld : heldBytes os p (withTlsPage process vm offset tls) =
            heldBytes os p process + Memory.PAGE_SIZE := by
          simp only [heldBytes, withTlsPage, total_add _ _ _ hdisjoint]
          omega
        have hbound := heldBytes_le hapart hget'
        refine ⟨⟨h.counts.congr (fun limit type _ => by rw [hk', hk₂]; rfl)
          (by rw [hset]; exact sameLimits_set hget rfl),
          bytesOf_set h.bytes hget hset (fun _ _ => rfl) fun _ => ?_, hapart⟩,
          .of_set hget hset rfl rfl hspace, by rw [hk', hk₂]; rfl, by rw [hk', hk₂]; rfl⟩
        rw [hheld] at hbound ⊢
        rw [← h.bytes p process hget hlive] at hbound ⊢
        exact u32_of_lt (by
          have : Memory.FCRAM_N3DS_SIZE < 2 ^ 32 := by decide
          omega)

end ProcessMemory

/-! ## Objects and handles -/

section Handles

variable {k k' : KernelSystem S} {os : List (KernelObject S)} {o : KernelObject S} {p id : ℕ}

omit [IntervalSet S] in
theorem makeObject_ok (h : makeObject o k = .ok (id, k')) : id = k.nextObject ∧
    k' = { k with objects := k.objects ++ [(id, o)], nextObject := id + 1 } := by
  simp only [makeObject, stateT_bind_eq_ok, stateT_get_eq_ok, stateT_set_eq_ok,
    stateT_pure_eq_ok] at h
  obtain ⟨_, _, ⟨rfl, rfl⟩, _, _, rfl, rfl, rfl⟩ := h
  exact ⟨rfl, rfl⟩

/-- A handle was made, or the table was full and nothing happened.
SOURCE: handle_table.cpp:36-58 -/
theorem createHandle_books (h : Books k os) {res : ResultVal ℕ}
    (hc : createHandle p id k = .ok (res, k')) :
    Books k' os ∧ KeepsProcesses k k' ∧ k'.objects = k.objects ∧ k'.nextObject = k.nextObject := by
  obtain ⟨process, k₁, hproc, hrest⟩ := stateT_bind_eq_ok.mp hc
  obtain ⟨rfl, hget⟩ := getProcess_ok hproc
  cases hcreate : process.handleTable.create id with
  | error code =>
      simp only [hcreate, stateT_pure_eq_ok] at hrest
      obtain ⟨-, rfl⟩ := hrest
      exact ⟨h, .of_eq rfl, rfl, rfl⟩
  | ok made =>
      obtain ⟨handle, table⟩ := made
      simp only [hcreate, setProcess, stateT_bind_eq_ok, stateT_modify_eq_ok,
        stateT_pure_eq_ok] at hrest
      obtain ⟨_, _, rfl, -, rfl⟩ := hrest
      exact ⟨h.of_set hget rfl rfl rfl rfl rfl rfl, .of_set hget rfl rfl rfl fun hs => hs, rfl, rfl⟩

/-- Overwriting the objects of the kernel without changing what the books are about. -/
theorem Books.map (os : List (KernelObject S)) (h : Books k (os ++ liveObjects k))
    {f : ℕ × KernelObject S → ℕ × KernelObject S}
    (hf : ∀ e ∈ k.objects, charge k.processes (f e).2 = charge k.processes e.2 ∧
      (∀ p, objectBytes p (f e).2 = objectBytes p e.2) ∧
      ∀ x, objectShare x (f e).2 = objectShare x e.2)
    (hk : k' = { k with objects := k.objects.map f }) : Books k' (os ++ liveObjects k') := by
  subst hk
  refine ⟨fun limit type htype => ?_, fun q process hget hlive => ?_, fun x => ?_⟩
  · rw [show (k.resourceLimits limit).currentValues type = _ from h.counts limit type htype]
    simp only [countCharged, liveObjects, List.countP_append, List.countP_map]
    refine congrArg (fun n => ((_ + n : ℕ) : ℤ)) (List.countP_congr fun e he => ?_)
    simp only [Function.comp_apply, (hf e he).1]
  · rw [h.bytes q process hget hlive]
    simp only [heldBytes, liveObjects, List.map_append, List.map_map]
    congr 3
    exact List.map_congr_left fun e he => ((hf e he).2.1 q).symm
  · have hsum : ((k.objects.map f).map Prod.snd).map (objectShare x) =
        (k.objects.map Prod.snd).map (objectShare x) := by
      rw [List.map_map, List.map_map, List.map_map]
      exact List.map_congr_left fun e he => (hf e he).2.2 x
    have := h.apart x
    simp only [liveObjects, shares_eq, List.map_append] at this ⊢
    rw [hsum]
    exact this

omit [IntervalSet S] in
theorem liveObjects_eraseP {q : ℕ × KernelObject S → Bool} {e : ℕ × KernelObject S}
    (h : k.objects.find? q = some e) :
    (liveObjects k).Perm (e.2 :: (k.objects.eraseP q).map Prod.snd) :=
  (perm_cons_eraseP h).map Prod.snd

end Handles

/-! ## Destructors -/

section Destructors

variable [LawfulIntervalSet S]

variable {k k' : KernelSystem S} {os : List (KernelObject S)} {o : KernelObject S}
  {limit : ℕ} {type : ResourceLimitType}

omit [LawfulIntervalSet S] in
/-- Releasing the charge of an object that held no memory. -/
theorem release_books (h : Books k (o :: os)) (ho : Weightless o)
    (hcharge : charge k.processes o = some (limit, type)) (htype : CountsObjects type) {u : Unit}
    (hc : release limit type 1 k = .ok (u, k')) :
    Books k' os ∧ KeepsProcesses k k' ∧ k'.objects = k.objects ∧ k'.nextObject = k.nextObject := by
  have hk' := release_ok hc
  refine ⟨⟨(release_counts hc hcharge htype).mpr h.counts, ?_, ?_⟩, ?_, ?_, ?_⟩
  · rw [hk']
    exact (bytesOf_cons ho).mp h.bytes
  · rw [hk']
    exact (apartOf_cons ho).mp h.apart
  · rw [hk']
    exact .of_eq rfl
  · rw [hk']
    rfl
  · rw [hk']
    rfl

omit [LawfulIntervalSet S] in
/-- Reserving for an object that will hold no memory of its own. -/
theorem reserve_books (h : Books k os) (ho : Weightless o)
    (hcharge : charge k.processes o = some (limit, type)) (htype : CountsObjects type) {b : Bool}
    (hc : reserve limit type 1 k = .ok (b, k')) :
    b = true ∧ Books k' (o :: os) ∧ k'.processes = k.processes ∧ k'.objects = k.objects ∧
      k'.nextObject = k.nextObject := by
  obtain ⟨hb, hk'⟩ := reserve_ok hc
  refine ⟨hb, ⟨(reserve_counts hc hcharge htype).mpr h.counts, ?_, ?_⟩, ?_, ?_, ?_⟩
  · rw [hk']
    exact (bytesOf_cons ho).mpr h.bytes
  · rw [hk']
    exact (apartOf_cons ho).mpr h.apart
  · rw [hk']
    rfl
  · rw [hk']
    rfl
  · rw [hk']
    rfl

omit [LawfulIntervalSet S] in
/-- An object that is charged to nobody and holds nothing may go as it is. -/
theorem Books.uncharged (h : Books k (o :: os)) (ho : Weightless o)
    (hcharge : charge k.processes o = none) : Books k os := by
  refine ⟨fun limit type htype => ?_, (bytesOf_cons ho).mp h.bytes, (apartOf_cons ho).mp h.apart⟩
  rw [h.counts limit type htype, countCharged_cons, hcharge]
  simp

omit [LawfulIntervalSet S] in
/-- SOURCE: mutex.cpp:34-38, event.cpp:21-25, timer.cpp:28-32, semaphore.cpp:22-26,
address_arbiter.cpp:81-85 -/
theorem releaseCharge_books (h : Books k (o :: os)) (ho : Weightless o) {limit : Option ℕ}
    (hcharge : charge k.processes o = limit.map fun l => (l, type)) (htype : CountsObjects type)
    {u : Unit} (hc : releaseCharge type limit k = .ok (u, k')) :
    Books k' os ∧ KeepsProcesses k k' ∧ k'.objects = k.objects ∧ k'.nextObject = k.nextObject := by
  cases limit with
  | none =>
      obtain ⟨-, rfl⟩ := stateT_pure_eq_ok.mp hc
      exact ⟨h.uncharged ho hcharge, .of_eq rfl, rfl, rfl⟩
  | some l => exact release_books h ho hcharge htype hc

/-- How `~SharedMemory` leaves the owner. -/
def ownerAfter (m : SharedMemory S) (process : Process S) (vm : VMManager) : Process S :=
  if m.baseAddress ≠ 0 then { process with vmManager := vm }
  else { process with memoryUsed := u32Sub process.memoryUsed m.size }

/-- `~SharedMemory` frees what the block holds, and settles with the owner when it lives.
SOURCE: shared_memory.cpp:26-40 -/
theorem sharedMemoryDestructor_ok {m : SharedMemory S} {u : Unit}
    (hc : sharedMemoryDestructor m k = .ok (u, k')) :
    ∃ regions, (∀ x, freeShare regions x ≤ freeShare k.memoryRegions x + share x m.holdingMemory) ∧
      match m.ownerProcess with
      | none => k' = { k with memoryRegions := regions }
      | some owner => ∃ process, k.processes[owner]? = some process ∧
          (process.expired = true → k' = { k with memoryRegions := regions }) ∧
          (process.expired = false → ∃ k₁ u vm,
            (Consistent process.vmManager → m.size < 2 ^ 32 → m.baseAddress < 2 ^ 32 →
              Consistent vm) ∧
            release process.resourceLimit .sharedMemory 1 { k with memoryRegions := regions } =
              .ok (u, k₁) ∧
            k' = { k₁ with processes := k.processes.set owner (ownerAfter m process vm) }) := by
  obtain ⟨_, k₁, hfree, hrest⟩ := stateT_bind_eq_ok.mp hc
  obtain ⟨regions, hk₁, hregions⟩ := freeLoop_ok hfree
  refine ⟨regions, fun x => by rw [← listShare_intervals]; exact hregions x, ?_⟩
  cases howner : m.ownerProcess with
  | none =>
      simp only [howner] at hrest
      obtain ⟨-, rfl⟩ := stateT_pure_eq_ok.mp hrest
      exact hk₁
  | some owner =>
      simp only [howner] at hrest
      obtain ⟨process, k₂, hproc, hrest⟩ := stateT_bind_eq_ok.mp hrest
      obtain ⟨rfl, hget⟩ := getProcess_ok hproc
      have hprocs : k₁.processes = k.processes := by rw [hk₁]
      refine ⟨process, hprocs ▸ hget, fun hexpired => ?_, fun hlive => ?_⟩
      · rw [if_pos hexpired] at hrest
        obtain ⟨-, rfl⟩ := stateT_pure_eq_ok.mp hrest
        exact hk₁
      · rw [if_neg (by simp [hlive])] at hrest
        obtain ⟨u, k₂, hrelease, hrest⟩ := stateT_bind_eq_ok.mp hrest
        have hk₂ := release_ok hrelease
        rw [hk₁] at hrelease
        by_cases hbase : m.baseAddress ≠ 0
        · rw [if_pos hbase] at hrest
          simp only [setProcess, stateT_bind_eq_ok, stateT_get_eq_ok, stateT_lift_eq_ok,
            stateT_modify_eq_ok] at hrest
          obtain ⟨_, _, ⟨rfl, rfl⟩, ⟨vm, res⟩, _, ⟨hchange, rfl⟩, rfl⟩ := hrest
          refine ⟨k₂, u, vm, fun hcons hsize hb => ?_, hrelease, ?_⟩
          · exact changeMemoryState_consistent hcons hb hsize hchange
          · rw [ownerAfter, if_pos hbase, hk₂, ← hprocs]
            rfl
        · rw [if_neg hbase] at hrest
          simp only [setProcess, stateT_modify_eq_ok] at hrest
          refine ⟨k₂, u, process.vmManager, fun hcons _ _ => hcons, hrelease, ?_⟩
          rw [← hrest, ownerAfter, if_neg hbase, hk₂, ← hprocs]
          rfl

end Destructors

end Borked3DS.Analysis
