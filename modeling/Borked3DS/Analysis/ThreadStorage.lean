import Borked3DS.Analysis.ObjectCreations
import Borked3DS.Interface.ThreadStorage

/-!
# The local storage of threads

As long as every thread that gets past the checks finds storage, the storage of the threads is
apart and the bits of their slots are the bits that are set. A thread that finds none stays in the
tables of its manager, which know it before its storage is allocated.
-/

set_option autoImplicit false

namespace Borked3DS.Analysis

open Borked3DS.Library Borked3DS.Model Borked3DS.Interface IntervalSet LawfulIntervalSet

/-! ## Where a slot lies -/

section Addresses

variable {page page' : ℕ} {slot slot' : Fin 8}

/-- The pages that fit into FCRAM lie in the address space. -/
theorem tlsAddress_eq (h : page * Memory.PAGE_SIZE < Memory.FCRAM_N3DS_SIZE) :
    tlsAddress page slot =
      Memory.TLS_AREA_VADDR + page * Memory.PAGE_SIZE + slot.val * Memory.TLS_ENTRY_SIZE := by
  unfold tlsAddress
  unfold Memory.PAGE_SIZE Memory.FCRAM_N3DS_SIZE at h
  unfold Memory.TLS_AREA_VADDR Memory.PAGE_SIZE Memory.TLS_ENTRY_SIZE
  exact u32_of_lt (by omega)

theorem tlsAddress_offset (h : page * Memory.PAGE_SIZE < Memory.FCRAM_N3DS_SIZE) :
    u32Sub (tlsAddress page slot) Memory.TLS_AREA_VADDR =
      page * Memory.PAGE_SIZE + slot.val * Memory.TLS_ENTRY_SIZE := by
  rw [tlsAddress_eq h]
  unfold Memory.PAGE_SIZE Memory.FCRAM_N3DS_SIZE at h
  unfold Memory.TLS_AREA_VADDR Memory.PAGE_SIZE Memory.TLS_ENTRY_SIZE
  rw [u32Sub_of_le (by omega) (by omega)]
  omega

/-- `Thread::Stop` finds the page that the storage was taken from. -/
theorem tlsPage_tlsAddress (h : page * Memory.PAGE_SIZE < Memory.FCRAM_N3DS_SIZE) :
    tlsPage (tlsAddress page slot) = page := by
  unfold tlsPage
  rw [tlsAddress_offset h]
  unfold Memory.PAGE_SIZE Memory.TLS_ENTRY_SIZE
  omega

/-- `Thread::Stop` finds the slot that the storage was taken from. -/
theorem tlsSlot_tlsAddress (h : page * Memory.PAGE_SIZE < Memory.FCRAM_N3DS_SIZE) :
    tlsSlot (tlsAddress page slot) = slot := by
  apply Fin.ext
  unfold tlsSlot
  simp only [tlsAddress_offset h]
  unfold Memory.PAGE_SIZE Memory.TLS_ENTRY_SIZE
  omega

/-- Two slots do not overlap. -/
theorem tlsAddress_apart (h : page * Memory.PAGE_SIZE < Memory.FCRAM_N3DS_SIZE)
    (h' : page' * Memory.PAGE_SIZE < Memory.FCRAM_N3DS_SIZE)
    (hne : tlsAddress page slot ≠ tlsAddress page' slot') :
    Disjoint (Set.Ico (tlsAddress page slot) (tlsAddress page slot + Memory.TLS_ENTRY_SIZE))
      (Set.Ico (tlsAddress page' slot') (tlsAddress page' slot' + Memory.TLS_ENTRY_SIZE)) := by
  rw [tlsAddress_eq h, tlsAddress_eq h'] at hne ⊢
  unfold Memory.TLS_AREA_VADDR Memory.PAGE_SIZE Memory.TLS_ENTRY_SIZE at *
  rw [Set.disjoint_left]
  rintro x ⟨hlo, hhi⟩ ⟨hlo', hhi'⟩
  omega

end Addresses

/-! ## Finding a free slot -/

section Slots

variable {pages : List TlsPage} {page : ℕ} {slot : Fin 8}

/-- The slot that is found is in a page, and free.
SOURCE: process.cpp:435-450 -/
theorem freeTlsSlot_some {i : ℕ} (h : freeTlsSlot pages i = some (page, slot)) :
    ∃ j used, page = i + j ∧ pages[j]? = some used ∧ used slot = false := by
  induction pages generalizing i with
  | nil => cases h
  | cons used pages ih =>
    unfold freeTlsSlot at h
    split at h
    next found hfound =>
      cases h
      exact ⟨0, used, rfl, rfl, by simpa using List.find?_some hfound⟩
    next =>
      obtain ⟨j, used', rfl, hget, hfree⟩ := ih h
      exact ⟨j + 1, used', by omega, by simpa using hget, hfree⟩

/-- None is found when all are in use. -/
theorem freeTlsSlot_none {i : ℕ} (h : freeTlsSlot pages i = none) :
    ∀ used ∈ pages, ∀ slot, used slot = true := by
  induction pages generalizing i with
  | nil => simp
  | cons used pages ih =>
    unfold freeTlsSlot at h
    split at h
    next => cases h
    next hnone =>
      intro used' hmem slot
      rcases List.mem_cons.mp hmem with rfl | hmem
      · simpa using List.find?_eq_none.mp hnone slot (List.mem_finRange slot)
      · exact ih h used' hmem slot

theorem slotUsed_lt (h : SlotUsed pages page slot) : page < pages.length := by
  obtain ⟨used, hget, -⟩ := h
  exact (List.getElem?_eq_some_iff.mp hget).1

/-- Setting or clearing one bit of a page. -/
theorem slotUsed_modify {f : TlsPage → TlsPage} {page' : ℕ} {slot' : Fin 8} :
    SlotUsed (pages.modify page f) page' slot' ↔
      if page' = page then ∃ used, pages[page]? = some used ∧ f used slot' = true
      else SlotUsed pages page' slot' := by
  unfold SlotUsed
  rw [List.getElem?_modify]
  by_cases hpage : page' = page
  · subst hpage
    cases pages[page']? <;> simp
  · have hne : page ≠ page' := fun h => hpage h.symm
    simp [hpage, hne]

/-- A free slot of a page is taken. -/
theorem slotUsed_take {used : TlsPage} (hget : pages[page]? = some used) (page' : ℕ)
    (slot' : Fin 8) :
    SlotUsed (pages.modify page fun used => Function.update used slot true) page' slot' ↔
      SlotUsed pages page' slot' ∨ page' = page ∧ slot' = slot := by
  rw [slotUsed_modify]
  by_cases hpage : page' = page
  · subst hpage
    unfold SlotUsed
    by_cases hslot : slot' = slot
    · subst hslot
      simp [hget]
    · simp [hget, hslot]
  · simp [hpage]

/-- A slot is given back. -/
theorem slotUsed_release (page' : ℕ) (slot' : Fin 8) :
    SlotUsed (pages.modify page fun used i => if i.val = slot.val then false else used i) page'
        slot' ↔
      SlotUsed pages page' slot' ∧ ¬ (page' = page ∧ slot' = slot) := by
  rw [slotUsed_modify]
  by_cases hpage : page' = page
  · subst hpage
    unfold SlotUsed
    by_cases hslot : slot' = slot
    · subst hslot
      simp
    · have hne : slot'.val ≠ slot.val := fun h => hslot (Fin.ext h)
      simp [hslot, hne]
  · simp [hpage]

/-- A page is added of which the first slot is in use. -/
theorem slotUsed_append (page' : ℕ) (slot' : Fin 8) :
    SlotUsed (pages ++ [fun slot => decide (slot = 0)]) page' slot' ↔
      SlotUsed pages page' slot' ∨ page' = pages.length ∧ slot' = 0 := by
  unfold SlotUsed
  rcases Nat.lt_trichotomy page' pages.length with hlt | rfl | hgt
  · rw [List.getElem?_append_left hlt]
    have hne : page' ≠ pages.length := by omega
    simp [hne]
  · simp
  · have hne : page' ≠ pages.length := by omega
    rw [List.getElem?_eq_none (by simp; omega), List.getElem?_eq_none (by omega)]
    simp [hne]

end Slots

/-! ## Allocating -/

section Allocating

variable {S : Type} [IntervalSet S] [LawfulIntervalSet S] {k k' : KernelSystem S} {p : ℕ}
  {process : Process S}

/-- What is free in the BASE region. -/
abbrev baseFree (k : KernelSystem S) : S := (k.memoryRegions .base).freeBlocks

/-- A page of the BASE region is taken, if there is one.
SOURCE: memory.cpp:225-241 -/
theorem linearAllocate_base (hinside : toSet (baseFree k) ⊆ Set.Ico 0 Memory.FCRAM_N3DS_SIZE)
    {res : Option ℕ} (h : linearAllocate .base Memory.PAGE_SIZE k = .ok (res, k')) :
    (res = none ∧ k' = k ∧
      ∀ block ∈ intervals (baseFree k), block.2 - block.1 < Memory.PAGE_SIZE) ∨
    ∃ offset r, res = some offset ∧ k' = withRegion k .base r ∧
      toSet r.freeBlocks ⊆ toSet (baseFree k) ∧
      total r.freeBlocks + Memory.PAGE_SIZE = total (baseFree k) ∧
      ∃ block ∈ intervals (baseFree k), Memory.PAGE_SIZE ≤ block.2 - block.1 := by
  simp only [linearAllocate, stateT_bind_eq_ok, stateT_get_eq_ok, stateT_lift_eq_ok,
    stateT_set_eq_ok, stateT_pure_eq_ok] at h
  obtain ⟨_, _, ⟨rfl, rfl⟩, ⟨r, _⟩, _, ⟨hr, rfl⟩, _, _, rfl, rfl, rfl⟩ := h
  simp only [MemoryRegionInfo.linearAllocate, bind_eq_ok, assert_eq_ok] at hr
  obtain ⟨-, -, hr⟩ := hr
  cases hfind : (intervals (baseFree k)).find?
      (fun interval => decide (Memory.PAGE_SIZE ≤ interval.2 - interval.1)) with
  | none =>
      rw [hfind] at hr
      obtain ⟨rfl, rfl⟩ := Prod.mk.inj (Except.ok.inj hr)
      refine .inl ⟨rfl, by rw [Function.update_eq_self], fun block hmem => ?_⟩
      simpa using List.find?_eq_none.mp hfind block hmem
  | some block =>
      rw [hfind] at hr
      obtain ⟨rfl, rfl⟩ := Prod.mk.inj (Except.ok.inj hr)
      have hmem := List.mem_of_find?_eq_some hfind
      have hlong := List.find?_some hfind
      simp only [decide_eq_true_eq] at hlong
      have hpage : 0 < Memory.PAGE_SIZE := by decide
      have hfcram : Memory.FCRAM_N3DS_SIZE < 2 ^ 32 := by decide
      -- the last byte of the block is free, so it lies in FCRAM
      have hlast : block.2 - 1 ∈ Set.Ico 0 Memory.FCRAM_N3DS_SIZE :=
        hinside ⟨block, hmem, by omega, by omega⟩
      have hend := hlast.2
      have hwrap : u32 (block.1 + Memory.PAGE_SIZE) = block.1 + Memory.PAGE_SIZE :=
        u32_of_lt (by omega)
      have hsub : Set.Ico block.1 (block.1 + Memory.PAGE_SIZE) ⊆ toSet (baseFree k) := by
        rintro x ⟨hlo, hhi⟩
        exact ⟨block, hmem, hlo, by omega⟩
      have htotal := total_sub (baseFree k) block.1 (block.1 + Memory.PAGE_SIZE) hsub
      rw [Nat.add_sub_cancel_left] at htotal
      refine .inr ⟨block.1, _, rfl, rfl, ?_, ?_, block, hmem, hlong⟩
      · simp only [hwrap, toSet_sub]
        exact Set.sdiff_subset
      · simpa only [hwrap] using htotal

/-- A process has been given the storage of a slot. -/
structure Allocates (k k' : KernelSystem S) (p : ℕ) (process : Process S) (page : ℕ)
    (slot : Fin 8) : Prop where
  objects : k'.objects = k.objects
  nextObject : k'.nextObject = k.nextObject
  free : ¬ SlotUsed process.tlsSlots page slot
  process : ∃ process', k'.processes = k.processes.set p process' ∧
    process'.expired = process.expired ∧
    (∀ page' slot', SlotUsed process'.tlsSlots page' slot' ↔
      SlotUsed process.tlsSlots page' slot' ∨ page' = page ∧ slot' = slot) ∧
    process'.tlsSlots.length * Memory.PAGE_SIZE + total (baseFree k') ≤
      process.tlsSlots.length * Memory.PAGE_SIZE + total (baseFree k)
  inside : toSet (baseFree k') ⊆ toSet (baseFree k)
  total : total (baseFree k') ≤ total (baseFree k)

/-- Storage is allocated exactly when there is some.
SOURCE: process.cpp:429-498 -/
theorem allocateThreadLocalStorage_outcome
    (hinside : toSet (baseFree k) ⊆ Set.Ico 0 Memory.FCRAM_N3DS_SIZE)
    (hget : k.processes[p]? = some process) {res : ResultVal ℕ}
    (h : allocateThreadLocalStorage p k = .ok (res, k')) :
    (∃ page slot, res = .ok (tlsAddress page slot) ∧ Allocates k k' p process page slot ∧
      HasStorage k process) ∨
    (res = .error .outOfMemory ∧ k' = k ∧ ¬ HasStorage k process) := by
  obtain ⟨process₁, k₁, hproc, hrest⟩ := stateT_bind_eq_ok.mp h
  obtain ⟨rfl, hget₁⟩ := getProcess_ok hproc
  obtain rfl : process = process₁ := Option.some.inj (hget.symm.trans hget₁)
  cases hslot : freeTlsSlot process.tlsSlots 0 with
  | some place =>
      obtain ⟨page, slot⟩ := place
      obtain ⟨j, used, hj, hused, hfree⟩ := freeTlsSlot_some hslot
      obtain rfl : page = j := by omega
      simp only [hslot, setProcess, stateT_bind_eq_ok, stateT_modify_eq_ok,
        stateT_pure_eq_ok] at hrest
      obtain ⟨_, _, rfl, rfl, rfl⟩ := hrest
      have hnot : ¬ SlotUsed process.tlsSlots page slot := by
        rintro ⟨used', hget', hset⟩
        rw [hused, Option.some.injEq] at hget'
        subst hget'
        simp [hfree] at hset
      refine .inl ⟨page, slot, rfl, ⟨rfl, rfl, hnot, ⟨_, rfl, rfl, slotUsed_take hused, ?_⟩,
        subset_rfl, Nat.le_refl _⟩, .inl ⟨used, List.mem_of_getElem? hused, slot, hfree⟩⟩
      simp
  | none =>
      have hall := freeTlsSlot_none hslot
      have hnone : ¬ ∃ page ∈ process.tlsSlots, ∃ slot, page slot = false := by
        rintro ⟨used, hmem, slot, hfree⟩
        simp [hall used hmem slot] at hfree
      rw [hslot] at hrest
      change allocateTlsPage p k = _ at hrest
      obtain ⟨a, k₂, halloc, hcont⟩ := stateT_bind_eq_ok.mp hrest
      clear hrest
      rcases linearAllocate_base hinside halloc with
        ⟨rfl, rfl, hshort⟩ | ⟨offset, r, rfl, rfl, hsub, htotal, hblock⟩
      · obtain ⟨rfl, rfl⟩ := stateT_pure_eq_ok.mp hcont
        refine .inr ⟨rfl, rfl, ?_⟩
        rintro (hfree | ⟨block, hmem, hlong⟩)
        · exact hnone hfree
        · exact absurd (hshort block hmem) (by omega)
      · obtain ⟨process₁, k₃, hproc, hrest⟩ := stateT_bind_eq_ok.mp hcont
        obtain ⟨rfl, hget₁⟩ := getProcess_ok hproc
        obtain rfl : process = process₁ := Option.some.inj (hget.symm.trans hget₁)
        simp only [fcramRef, setProcess, stateT_bind_eq_ok, stateT_get_eq_ok, stateT_lift_eq_ok,
          stateT_modify_eq_ok, stateT_pure_eq_ok] at hrest
        obtain ⟨memory, _, ⟨_, _, ⟨-, rfl⟩, _, _, ⟨rfl, rfl⟩, rfl, rfl⟩, _, _, ⟨rfl, rfl⟩,
          ⟨vm, res'⟩, _, ⟨-, rfl⟩, _, _, rfl, rfl, rfl⟩ := hrest
        have hfree : ¬ SlotUsed process.tlsSlots process.tlsSlots.length 0 := fun hused =>
          absurd (slotUsed_lt hused) (Nat.lt_irrefl _)
        refine .inl ⟨process.tlsSlots.length, 0, rfl,
          ⟨rfl, rfl, hfree, ⟨_, rfl, rfl, slotUsed_append, ?_⟩, ?_, ?_⟩, .inr hblock⟩
        · simp only [List.length_append, List.length_singleton, withRegion, baseFree,
            Function.update_self, Nat.add_mul, Nat.one_mul] at htotal ⊢
          omega
        · simpa [withRegion, baseFree] using hsub
        · simp only [withRegion, baseFree, Function.update_self] at htotal ⊢
          omega

end Allocating

/-! ## The invariant -/

section Invariant

variable {S : Type} [IntervalSet S] [LawfulIntervalSet S] {k k' : ThreadKernel S}

/-- What holds between any two calls. -/
structure TlsInvariant (k : ThreadKernel S) : Prop where
  numbers : (k.kernel.objects.map Prod.fst).Nodup
  fresh : ∀ entry ∈ k.kernel.objects, entry.1 < k.kernel.nextObject
  placed : ∀ thread t, IsThread k thread t → ∃ process page slot,
    k.kernel.processes[t.ownerProcess]? = some process ∧ process.expired = false ∧
      t.tlsAddress = tlsAddress page slot ∧ SlotUsed process.tlsSlots page slot
  own : ∀ thread thread' t t', IsThread k thread t → IsThread k thread' t' →
    t.ownerProcess = t'.ownerProcess → t.tlsAddress = t'.tlsAddress → thread = thread'
  live : ∀ p process page slot, k.kernel.processes[p]? = some process →
    SlotUsed process.tlsSlots page slot →
    ∃ thread t, IsThread k thread t ∧ t.ownerProcess = p ∧ t.tlsAddress = tlsAddress page slot
  inside : toSet (baseFree k.kernel) ⊆ Set.Ico 0 Memory.FCRAM_N3DS_SIZE
  pages : ∀ (p : ℕ) (process : Process S), k.kernel.processes[p]? = some process →
    process.tlsSlots.length * Memory.PAGE_SIZE + total (baseFree k.kernel) ≤
      Memory.FCRAM_N3DS_SIZE

omit [LawfulIntervalSet S] in
/-- The pages in use fit into FCRAM. -/
theorem TlsInvariant.page_fits (h : TlsInvariant k) {p page : ℕ} {slot : Fin 8}
    {process : Process S} (hget : k.kernel.processes[p]? = some process)
    (hused : SlotUsed process.tlsSlots page slot) :
    page * Memory.PAGE_SIZE < Memory.FCRAM_N3DS_SIZE := by
  have hpages := h.pages p process hget
  have hlt := slotUsed_lt hused
  unfold Memory.PAGE_SIZE at *
  omega

omit [LawfulIntervalSet S] in
/-- SOURCE: process.cpp:429-498, thread.cpp:112-119 -/
theorem TlsInvariant.exclusive (h : TlsInvariant k) : TlsExclusive k where
  apart thread thread' t t' ht ht' hne howner := by
    obtain ⟨process, page, slot, hget, -, haddress, hused⟩ := h.placed thread t ht
    obtain ⟨process', page', slot', hget', -, haddress', hused'⟩ := h.placed thread' t' ht'
    have hdistinct : tlsAddress page slot ≠ tlsAddress page' slot' := by
      rw [← haddress, ← haddress']
      exact fun heq => hne (h.own thread thread' t t' ht ht' howner heq)
    unfold tlsRange
    rw [haddress, haddress']
    exact tlsAddress_apart (h.page_fits hget hused) (h.page_fits hget' hused') hdistinct
  used thread t ht := by
    obtain ⟨process, page, slot, hget, -, haddress, hused⟩ := h.placed thread t ht
    refine ⟨process, hget, ?_⟩
    have hfits := h.page_fits hget hused
    rw [haddress, tlsPage_tlsAddress hfits, tlsSlot_tlsAddress hfits]
    exact hused
  live p process page slot hget hused := by
    obtain ⟨thread, t, ht, howner, haddress⟩ := h.live p process page slot hget hused
    have hfits := h.page_fits hget hused
    refine ⟨thread, t, ht, howner, ?_, ?_⟩
    · rw [haddress, tlsPage_tlsAddress hfits]
    · rw [haddress, tlsSlot_tlsAddress hfits]

theorem tlsInvariant_init {k : KernelSystem S} (h : Threadless k) :
    TlsInvariant { kernel := k } where
  numbers := h.numbers
  fresh := h.fresh
  placed thread t ht := absurd ht (h.threads thread t)
  own thread thread' t t' ht := absurd ht (h.threads thread t)
  live p process page slot hget hused := by
    have hlt := slotUsed_lt hused
    rw [h.slots process (List.mem_of_getElem? hget)] at hlt
    exact absurd hlt (Nat.not_lt_zero _)
  inside := h.inside
  pages p process hget := by
    rw [h.slots process (List.mem_of_getElem? hget), List.length_nil, Nat.zero_mul, Nat.zero_add,
      total_eq_ncard]
    have hcard := Set.ncard_le_ncard h.inside (Set.finite_Ico _ _)
    rwa [ncard_Ico] at hcard

end Invariant

/-! ## The calls -/

section Calls

variable {S : Type} [IntervalSet S] [LawfulIntervalSet S] {k k' : ThreadKernel S}

omit [IntervalSet S] [LawfulIntervalSet S] in
theorem onKernel_eq_ok {α : Type} {m : KernelM S α} {a : α} :
    onKernel m k = .ok (a, k') ↔ ∃ kernel, m k.kernel = .ok (a, kernel) ∧
      k' = { k with kernel := kernel } := by
  unfold onKernel
  rw [bind_eq_ok]
  constructor
  · rintro ⟨⟨b, kernel⟩, hm, hpure⟩
    cases hpure
    exact ⟨kernel, hm, rfl⟩
  · rintro ⟨kernel, hm, rfl⟩
    exact ⟨(a, kernel), hm, rfl⟩

omit [LawfulIntervalSet S] in
/-- A thread is made whose storage has just been allocated. -/
theorem TlsInvariant.created (h : TlsInvariant k) {t : ThreadObject} {page : ℕ} {slot : Fin 8}
    {process : Process S} (hget : k.kernel.processes[t.ownerProcess]? = some process)
    (halive : process.expired = false) (haddress : t.tlsAddress = tlsAddress page slot)
    (hallocates : Allocates { k.kernel with
        objects := k'.kernel.objects, nextObject := k'.kernel.nextObject }
      k'.kernel t.ownerProcess process page slot)
    (hobjects : k'.kernel.objects = k.kernel.objects ++ [(k.kernel.nextObject, .thread t)])
    (hnext : k'.kernel.nextObject = k.kernel.nextObject + 1) : TlsInvariant k' := by
  obtain ⟨process', hset, hexpired, hslots, hbound⟩ := hallocates.process
  have hlt : t.ownerProcess < k.kernel.processes.length := (List.getElem?_eq_some_iff.mp hget).1
  have hself : k'.kernel.processes[t.ownerProcess]? = some process' := by
    rw [hset]
    exact List.getElem?_set_self hlt
  have hrest : ∀ p, p ≠ t.ownerProcess →
      k'.kernel.processes[p]? = k.kernel.processes[p]? := by
    intro p hp
    rw [hset]
    exact List.getElem?_set_ne (Ne.symm hp)
  have hthread : ∀ thread x, IsThread k' thread x ↔
      IsThread k thread x ∨ thread = k.kernel.nextObject ∧ x = t := by
    intro thread x
    unfold IsThread
    rw [hobjects]
    simp
  have htotal : total (baseFree k'.kernel) ≤ total (baseFree k.kernel) := hallocates.total
  have hpages : process'.tlsSlots.length * Memory.PAGE_SIZE + total (baseFree k'.kernel) ≤
      Memory.FCRAM_N3DS_SIZE := hbound.trans (h.pages t.ownerProcess process hget)
  have hused : SlotUsed process'.tlsSlots page slot := (hslots page slot).mpr (.inr ⟨rfl, rfl⟩)
  have hfits : page * Memory.PAGE_SIZE < Memory.FCRAM_N3DS_SIZE := by
    have hpage := (slotUsed_lt hused)
    unfold Memory.PAGE_SIZE at *
    omega
  -- the slot is that of no other thread of the process
  have hnew : ∀ thread x, IsThread k thread x → x.ownerProcess = t.ownerProcess →
      x.tlsAddress ≠ t.tlsAddress := by
    intro thread x hx howner heq
    obtain ⟨process₁, page₁, slot₁, hget₁, -, haddress₁, hused₁⟩ := h.placed thread x hx
    rw [howner, hget, Option.some.injEq] at hget₁
    subst hget₁
    have hfits₁ := h.page_fits hget hused₁
    have hpage := congrArg tlsPage (haddress₁.symm.trans (heq.trans haddress))
    have hslot := congrArg tlsSlot (haddress₁.symm.trans (heq.trans haddress))
    rw [tlsPage_tlsAddress hfits₁, tlsPage_tlsAddress hfits] at hpage
    rw [tlsSlot_tlsAddress hfits₁, tlsSlot_tlsAddress hfits] at hslot
    subst hpage hslot
    exact hallocates.free hused₁
  refine ⟨?_, ?_, ?_, ?_, ?_, hallocates.inside.trans h.inside, ?_⟩
  · rw [hobjects, List.map_append, List.map_singleton]
    refine List.nodup_append.mpr ⟨h.numbers, by simp, fun n hn m hm => ?_⟩
    obtain ⟨entry, hentry, rfl⟩ := List.mem_map.mp hn
    have hless := h.fresh entry hentry
    rw [List.mem_singleton.mp hm]
    exact Nat.ne_of_lt hless
  · intro entry hentry
    rw [hobjects] at hentry
    rw [hnext]
    rcases List.mem_append.mp hentry with hentry | hentry
    · exact Nat.lt_succ_of_lt (h.fresh entry hentry)
    · rw [List.mem_singleton.mp hentry]
      exact Nat.lt_succ_self _
  · intro thread x hx
    rcases (hthread thread x).mp hx with hx | ⟨-, rfl⟩
    · obtain ⟨process₁, page₁, slot₁, hget₁, halive₁, haddress₁, hused₁⟩ := h.placed thread x hx
      by_cases howner : x.ownerProcess = t.ownerProcess
      · rw [howner, hget, Option.some.injEq] at hget₁
        subst hget₁
        exact ⟨process', page₁, slot₁, howner ▸ hself, hexpired.trans halive, haddress₁,
          (hslots page₁ slot₁).mpr (.inl hused₁)⟩
      · exact ⟨process₁, page₁, slot₁, (hrest _ howner).trans hget₁, halive₁, haddress₁, hused₁⟩
    · exact ⟨process', page, slot, hself, hexpired.trans halive, haddress, hused⟩
  · intro thread thread' x x' hx hx' howner heq
    rcases (hthread thread x).mp hx with hx | ⟨rfl, rfl⟩ <;>
      rcases (hthread thread' x').mp hx' with hx' | ⟨rfl, rfl⟩
    · exact h.own thread thread' x x' hx hx' howner heq
    · exact absurd heq (hnew thread x hx howner)
    · exact absurd heq.symm (hnew thread' x' hx' howner.symm)
    · rfl
  · intro p process₁ page₁ slot₁ hget₁ hused₁
    by_cases howner : p = t.ownerProcess
    · subst howner
      rw [hself, Option.some.injEq] at hget₁
      subst hget₁
      rcases (hslots page₁ slot₁).mp hused₁ with hold | ⟨rfl, rfl⟩
      · obtain ⟨thread, x, hx, hrest⟩ := h.live _ process page₁ slot₁ hget hold
        exact ⟨thread, x, (hthread thread x).mpr (.inl hx), hrest⟩
      · exact ⟨_, t, (hthread _ t).mpr (.inr ⟨rfl, rfl⟩), rfl, haddress⟩
    · rw [hrest p howner] at hget₁
      obtain ⟨thread, x, hx, hrest⟩ := h.live p process₁ page₁ slot₁ hget₁ hused₁
      exact ⟨thread, x, (hthread thread x).mpr (.inl hx), hrest⟩
  · intro p process₁ hget₁
    by_cases howner : p = t.ownerProcess
    · subst howner
      rw [hself, Option.some.injEq] at hget₁
      subst hget₁
      exact hpages
    · rw [hrest p howner] at hget₁
      have hbefore := h.pages p process₁ hget₁
      omega

/-- `KernelSystem::CreateThread` refuses a thread, makes it, or leaves it in the tables.
SOURCE: thread.cpp:352-404 -/
theorem threadCreate_outcome (h : TlsInvariant k) {process : Process S} {owner : ℕ}
    (hget : k.kernel.processes[owner]? = some process) (halive : process.expired = false)
    {entryPoint priority arg stackTop : ℕ} {processorId : ℤ} {makeReady : Bool}
    {res : ResultVal ℕ}
    (hrun : ThreadKernel.createThread entryPoint priority arg processorId stackTop owner makeReady
      k = .ok (res, k')) :
    (¬ MayCreate process entryPoint priority processorId ∧ k' = k) ∨
    (MayCreate process entryPoint priority processorId ∧ HasStorage k.kernel process ∧
      TlsInvariant k' ∧ ∃ thread, res = .ok thread) ∨
    (MayCreate process entryPoint priority processorId ∧ ¬ HasStorage k.kernel process ∧
      res = .error .outOfMemory ∧ k'.threadList ≠ k.threadList) := by
  obtain ⟨process₁, k₁, hproc, hrest⟩ := stateT_bind_eq_ok.mp hrun
  obtain ⟨kernel, hkernel, rfl⟩ := onKernel_eq_ok.mp hproc
  obtain ⟨rfl, hget₁⟩ := getProcess_ok hkernel
  obtain rfl : process = process₁ := Option.some.inj (hget.symm.trans hget₁)
  split at hrest
  next hprio =>
    obtain ⟨-, rfl⟩ := stateT_pure_eq_ok.mp hrest
    exact .inl ⟨fun hpasses => absurd hpasses.1 (by omega), rfl⟩
  next hprio =>
    split at hrest
    next hcore =>
      obtain ⟨-, rfl⟩ := stateT_pure_eq_ok.mp hrest
      exact .inl ⟨fun hpasses => absurd hpasses.2.1 (by omega), rfl⟩
    next hcore =>
      split at hrest
      next hinvalid =>
        obtain ⟨-, rfl⟩ := stateT_pure_eq_ok.mp hrest
        refine .inl ⟨fun hpasses => ?_, rfl⟩
        rw [hpasses.2.2] at hinvalid
        cases hinvalid
      next hvalid =>
        have hpasses : MayCreate process entryPoint priority processorId :=
          ⟨by omega, by omega, by simpa using hvalid⟩
        obtain ⟨_, _, hstate, hrest⟩ := stateT_bind_eq_ok.mp hrest
        cases hstate
        split at hrest
        · exact (stateT_throw_eq_ok.mp hrest).elim
        · obtain ⟨thread, k₁, hmake, hrest⟩ := stateT_bind_eq_ok.mp hrest
          obtain ⟨kernel₁, hobject, rfl⟩ := onKernel_eq_ok.mp hmake
          cases hobject
          obtain ⟨_, k₂, henter, hrest⟩ := stateT_bind_eq_ok.mp hrest
          cases henter
          obtain ⟨storage, k₃, halloc, hrest⟩ := stateT_bind_eq_ok.mp hrest
          obtain ⟨kernel₃, hstored, rfl⟩ := onKernel_eq_ok.mp halloc
          let made : KernelSystem S := { k.kernel with
            objects := k.kernel.objects ++ [(k.kernel.nextObject, .thread {
              ownerProcess := owner
              priority := priority
              processorId := processorId.toNat
              entryPoint := entryPoint
              stackTop := stackTop
              arg := arg })]
            nextObject := k.kernel.nextObject + 1 }
          rcases allocateThreadLocalStorage_outcome (k := made) h.inside hget hstored with
            ⟨page, slot, rfl, hallocates, hstorage⟩ | ⟨rfl, rfl, hnone⟩
          · obtain ⟨_, k₄, hmodify, hrest⟩ := stateT_bind_eq_ok.mp hrest
            obtain ⟨kernel₄, hobjects, rfl⟩ := onKernel_eq_ok.mp hmodify
            obtain ⟨rfl, rfl⟩ := stateT_pure_eq_ok.mp hrest
            obtain rfl := stateT_modify_eq_ok.mp hobjects
            refine .inr (.inl ⟨hpasses, hstorage, ?_, _, rfl⟩)
            let t : ThreadObject := {
              ownerProcess := owner
              priority := priority
              processorId := processorId.toNat
              entryPoint := entryPoint
              stackTop := stackTop
              arg := arg
              tlsAddress := tlsAddress page slot
              ready := makeReady }
            refine @TlsInvariant.created _ _ _ _ h t page slot process hget halive rfl
              ⟨rfl, rfl, hallocates.free, hallocates.process, hallocates.inside,
                hallocates.total⟩ ?_ hallocates.nextObject
            -- the only object of that number is the new thread
            have hold : k.kernel.objects.map (fun entry =>
                if entry.1 = k.kernel.nextObject then (k.kernel.nextObject, .thread t)
                else entry) = k.kernel.objects := by
              refine (List.map_congr_left fun entry hentry => ?_).trans (List.map_id _)
              exact if_neg (Nat.ne_of_lt (h.fresh entry hentry))
            show kernel₃.objects.map _ = _
            rw [hallocates.objects, List.map_append, hold, List.map_singleton, if_pos rfl]
          · obtain ⟨rfl, rfl⟩ := stateT_pure_eq_ok.mp hrest
            refine .inr (.inr ⟨hpasses, hnone, rfl, fun heq => ?_⟩)
            have hlength := congrArg List.length (congrFun heq processorId.toNat)
            simp [ThreadKernel.enter] at hlength

omit [LawfulIntervalSet S] in
/-- `Thread::Stop` of a thread gives back the slot that its address leads to.
SOURCE: thread.cpp:88-120 -/
theorem destroyThread_ok {kernel kernel' : KernelSystem S} {thread : ℕ} {t : ThreadObject}
    {process : Process S} {u : Unit}
    (hfind : kernel.objects.find? (fun entry => entry.1 = thread) = some (thread, .thread t))
    (hget : kernel.processes[t.ownerProcess]? = some process) (halive : process.expired = false)
    (h : destroyObject thread kernel = .ok (u, kernel')) :
    kernel'.objects =
        (kernel.objects.eraseP fun entry => entry.1 = thread).map (releasedBy thread) ∧
      kernel'.nextObject = kernel.nextObject ∧ kernel'.memoryRegions = kernel.memoryRegions ∧
      kernel'.processes = kernel.processes.set t.ownerProcess { process with
        tlsSlots := process.tlsSlots.modify (tlsPage t.tlsAddress) fun used i =>
          if i.val = (tlsSlot t.tlsAddress).val then false else used i } := by
  obtain ⟨_, _, hstate, hrest⟩ := stateT_bind_eq_ok.mp h
  cases hstate
  rw [hfind] at hrest
  obtain ⟨_, kernel₁, hset, hrest⟩ := stateT_bind_eq_ok.mp hrest
  cases hset
  obtain ⟨_, kernel₂, hrelease, hrest⟩ := stateT_bind_eq_ok.mp hrest
  cases hrelease
  obtain ⟨process₁, kernel₃, hproc, hrest⟩ := stateT_bind_eq_ok.mp hrest
  obtain ⟨rfl, hget₁⟩ := getProcess_ok hproc
  obtain rfl : process = process₁ := Option.some.inj (hget.symm.trans hget₁)
  split at hrest
  next hexpired =>
    rw [halive] at hexpired
    cases hexpired
  next =>
    split at hrest
    next =>
      obtain ⟨_, kernel₄, hwrite, hrest⟩ := stateT_bind_eq_ok.mp hrest
      cases hwrite
      rw [release_ok hrest]
      exact ⟨rfl, rfl, rfl, rfl⟩
    next => exact (stateT_throw_eq_ok.mp hrest).elim

omit [IntervalSet S] [LawfulIntervalSet S] in
/-- A stopped thread takes its holds on mutexes with it, and no other thread changes. -/
theorem thread_mem_released {objects : List (ℕ × KernelObject S)} {thread n : ℕ}
    {t : ThreadObject} : (n, KernelObject.thread t) ∈ objects.map (releasedBy thread) ↔
      (n, KernelObject.thread t) ∈ objects := by
  rw [List.mem_map]
  constructor
  · rintro ⟨⟨m, object⟩, hmem, heq⟩
    cases object <;> simp_all [releasedBy]
  · exact fun hmem => ⟨_, hmem, rfl⟩

omit [IntervalSet S] [LawfulIntervalSet S] in
theorem releasedBy_fst {thread : ℕ} (entry : ℕ × KernelObject S) :
    (releasedBy thread entry).1 = entry.1 := by
  obtain ⟨n, object⟩ := entry
  cases object <;> rfl

omit [LawfulIntervalSet S] in
/-- A thread is stopped. -/
theorem TlsInvariant.stopped (h : TlsInvariant k) {thread : ℕ} {t : ThreadObject}
    {process : Process S} (ht : IsThread k thread t)
    (hget : k.kernel.processes[t.ownerProcess]? = some process)
    (hobjects : ∃ objects, k.kernel.objects.Perm ((thread, .thread t) :: objects) ∧
      k'.kernel.objects = objects.map (releasedBy thread))
    (hnext : k'.kernel.nextObject = k.kernel.nextObject)
    (hregions : k'.kernel.memoryRegions = k.kernel.memoryRegions)
    (hset : k'.kernel.processes = k.kernel.processes.set t.ownerProcess { process with
      tlsSlots := process.tlsSlots.modify (tlsPage t.tlsAddress) fun used i =>
        if i.val = (tlsSlot t.tlsAddress).val then false else used i }) : TlsInvariant k' := by
  obtain ⟨objects, hperm, hobjects⟩ := hobjects
  have hlt : t.ownerProcess < k.kernel.processes.length := (List.getElem?_eq_some_iff.mp hget).1
  set process' : Process S := { process with
    tlsSlots := process.tlsSlots.modify (tlsPage t.tlsAddress) fun used i =>
      if i.val = (tlsSlot t.tlsAddress).val then false else used i } with hprocess'
  have hself : k'.kernel.processes[t.ownerProcess]? = some process' := by
    rw [hset]
    exact List.getElem?_set_self hlt
  have hrest : ∀ p, p ≠ t.ownerProcess →
      k'.kernel.processes[p]? = k.kernel.processes[p]? := by
    intro p hp
    rw [hset]
    exact List.getElem?_set_ne (Ne.symm hp)
  have hslots := fun page slot => @slotUsed_release process.tlsSlots (tlsPage t.tlsAddress)
    (tlsSlot t.tlsAddress) page slot
  have hnumbers := (hperm.map Prod.fst).nodup_iff.mp h.numbers
  obtain ⟨hnot, hnodup⟩ := List.nodup_cons.mp hnumbers
  have hthread : ∀ n x, IsThread k' n x ↔ IsThread k n x ∧ n ≠ thread := by
    intro n x
    unfold IsThread
    rw [hobjects, thread_mem_released, hperm.mem_iff, List.mem_cons]
    constructor
    · intro hmem
      exact ⟨.inr hmem, fun heq => hnot (List.mem_map.mpr ⟨_, hmem, heq⟩)⟩
    · rintro ⟨heq | hmem, hne⟩
      · exact absurd (congrArg Prod.fst heq) hne
      · exact hmem
  have hfree : baseFree k'.kernel = baseFree k.kernel := by
    unfold baseFree
    rw [hregions]
  obtain ⟨process₀, page₀, slot₀, hget₀, halive, haddress, hused₀⟩ := h.placed thread t ht
  obtain rfl : process = process₀ := Option.some.inj (hget.symm.trans hget₀)
  have hfits := h.page_fits hget hused₀
  have hpage : tlsPage t.tlsAddress = page₀ := by rw [haddress, tlsPage_tlsAddress hfits]
  have hslot : tlsSlot t.tlsAddress = slot₀ := by rw [haddress, tlsSlot_tlsAddress hfits]
  refine ⟨?_, ?_, ?_, ?_, ?_, hfree ▸ h.inside, ?_⟩
  · rw [hobjects, List.map_map]
    rwa [show Prod.fst ∘ releasedBy thread = (Prod.fst : ℕ × KernelObject S → ℕ) from
      funext releasedBy_fst]
  · intro entry hentry
    rw [hobjects] at hentry
    obtain ⟨old, hold, rfl⟩ := List.mem_map.mp hentry
    rw [releasedBy_fst, hnext]
    exact h.fresh old (hperm.mem_iff.mpr (List.mem_cons_of_mem _ hold))
  · intro n x hx
    obtain ⟨hx, hne⟩ := (hthread n x).mp hx
    obtain ⟨process₁, page₁, slot₁, hget₁, halive₁, haddress₁, hused₁⟩ := h.placed n x hx
    by_cases howner : x.ownerProcess = t.ownerProcess
    · rw [howner, hget, Option.some.injEq] at hget₁
      subst hget₁
      refine ⟨process', page₁, slot₁, howner ▸ hself, halive₁, haddress₁,
        (hslots page₁ slot₁).mpr ⟨hused₁, ?_⟩⟩
      rintro ⟨rfl, rfl⟩
      -- another thread with the slot would have its address
      refine hne (h.own n thread x t hx ht howner ?_)
      rw [haddress₁, hpage, hslot, haddress]
    · exact ⟨process₁, page₁, slot₁, (hrest _ howner).trans hget₁, halive₁, haddress₁, hused₁⟩
  · intro n n' x x' hx hx'
    exact h.own n n' x x' ((hthread n x).mp hx).1 ((hthread n' x').mp hx').1
  · intro p process₁ page₁ slot₁ hget₁ hused₁
    by_cases howner : p = t.ownerProcess
    · subst howner
      rw [hself, Option.some.injEq] at hget₁
      subst hget₁
      obtain ⟨hold, hother⟩ := (hslots page₁ slot₁).mp hused₁
      obtain ⟨n, x, hx, hxowner, hxaddress⟩ := h.live _ process page₁ slot₁ hget hold
      refine ⟨n, x, (hthread n x).mpr ⟨hx, ?_⟩, hxowner, hxaddress⟩
      rintro rfl
      have hsame : x = t := by
        have hpair := List.inj_on_of_nodup_map h.numbers hx ht rfl
        simpa using hpair
      subst hsame
      refine hother ⟨?_, ?_⟩
      · rw [hxaddress, tlsPage_tlsAddress (h.page_fits hget hold)]
      · rw [hxaddress, tlsSlot_tlsAddress (h.page_fits hget hold)]
    · rw [hrest p howner] at hget₁
      obtain ⟨n, x, hx, hxowner, hxaddress⟩ := h.live p process₁ page₁ slot₁ hget₁ hused₁
      refine ⟨n, x, (hthread n x).mpr ⟨hx, ?_⟩, hxowner, hxaddress⟩
      rintro rfl
      have hpair := List.inj_on_of_nodup_map h.numbers hx ht rfl
      obtain rfl : x = t := by simpa using hpair
      exact howner hxowner.symm
  · intro p process₁ hget₁
    rw [hfree]
    by_cases howner : p = t.ownerProcess
    · subst howner
      rw [hself, Option.some.injEq] at hget₁
      subst hget₁
      simpa [hprocess'] using h.pages _ process hget
    · rw [hrest p howner] at hget₁
      exact h.pages p process₁ hget₁

omit [LawfulIntervalSet S] in
/-- SOURCE: thread.cpp:88-120, 205-239 -/
theorem threadStop_invariant (h : TlsInvariant k) {thread : ℕ} {u : Unit}
    (hrun : ThreadKernel.stop thread k = .ok (u, k')) : TlsInvariant k' := by
  obtain ⟨_, _, hstate, hrest⟩ := stateT_bind_eq_ok.mp hrun
  cases hstate
  cases hfind : k.kernel.objects.find? fun entry => entry.1 = thread with
  | none =>
    rw [hfind] at hrest
    exact (stateT_throw_eq_ok.mp hrest).elim
  | some entry =>
    obtain ⟨n, object⟩ := entry
    obtain rfl : n = thread := by simpa using List.find?_some hfind
    rw [hfind] at hrest
    cases object with
    | thread t =>
      dsimp only at hrest
      split at hrest
      next =>
        obtain ⟨_, k₁, hcall, hrest⟩ := stateT_bind_eq_ok.mp hrest
        obtain ⟨kernel', hdestroy, rfl⟩ := onKernel_eq_ok.mp hcall
        cases hrest
        have ht : IsThread k n t := List.mem_of_find?_eq_some hfind
        obtain ⟨process, page, slot, hget, halive, -⟩ := h.placed n t ht
        obtain ⟨hobjects, hnext, hregions, hset⟩ := destroyThread_ok hfind hget halive hdestroy
        exact h.stopped ht hget ⟨_, perm_cons_eraseP hfind, hobjects⟩ hnext hregions hset
      next => exact (stateT_throw_eq_ok.mp hrest).elim
    | _ => exact (stateT_throw_eq_ok.mp hrest).elim

/-- A call keeps the invariant and leaves nothing behind when the thread finds storage, and leaves
a thread behind that finds none. -/
theorem threadCall_step (h : TlsInvariant k) {call : ThreadCall}
    (hstep : ThreadCall.step k call = .ok k') :
    (FindsStorage k call → TlsInvariant k' ∧ LeavesNothing k call) ∧
      (LeavesNothing k call → FindsStorage k call) := by
  cases call with
  | stop thread =>
    obtain ⟨⟨u, k₁⟩, hrun, hpure⟩ := bind_eq_ok.mp hstep
    cases hpure
    exact ⟨fun _ => ⟨threadStop_invariant h hrun, trivial⟩, fun _ => trivial⟩
  | createThread entryPoint priority arg processorId stackTop owner makeReady =>
    dsimp only [ThreadCall.step] at hstep
    split at hstep
    next halive =>
      obtain ⟨process, hget, halive⟩ := (Option.any_eq_true _ _).mp halive
      replace halive : process.expired = false := by simpa using halive
      obtain ⟨⟨res, k₁⟩, hrun, hpure⟩ := bind_eq_ok.mp hstep
      cases hpure
      have hfinds : FindsStorage k (.createThread entryPoint priority arg processorId stackTop owner
          makeReady) ↔ (MayCreate process entryPoint.toNat priority.toNat processorId.toInt →
            HasStorage k.kernel process) := by
        simp [FindsStorage, hget]
      rw [hfinds]
      have hleaves : LeavesNothing k (.createThread entryPoint priority arg processorId stackTop
          owner makeReady) ↔ ∀ code, res = .error code →
            k₁.threadList = k.threadList ∧ k₁.wakeupCallbackTable = k.wakeupCallbackTable ∧
              k₁.kernel.processes.map (·.tlsSlots) = k.kernel.processes.map (·.tlsSlots) := by
        constructor
        · rintro hleaves code rfl
          exact hleaves code k₁ hrun
        · intro hleaves code k₂ hrun₂
          rw [hrun] at hrun₂
          cases hrun₂
          exact hleaves code rfl
      rw [hleaves]
      rcases threadCreate_outcome h hget halive hrun with
        ⟨hrefused, rfl⟩ | ⟨hpasses, hstorage, hinv, thread, rfl⟩ |
        ⟨hpasses, hnone, rfl, hlist⟩
      · exact ⟨fun _ => ⟨h, fun _ _ => ⟨rfl, rfl, rfl⟩⟩, fun _ hpasses => absurd hpasses hrefused⟩
      · exact ⟨fun _ => ⟨hinv, fun _ herror => by cases herror⟩, fun _ _ => hstorage⟩
      · exact ⟨fun hfinds => absurd (hfinds hpasses) hnone,
          fun hleaves => absurd (hleaves _ rfl).1 hlist⟩
    next => cases hstep

/-- In every run the storage of the threads is their own, and no thread that cannot be created
leaves anything behind, exactly when every thread that gets past the checks finds storage.
SOURCE: process.cpp:429-498, thread.cpp:88-120, 352-404 -/
theorem tls_exclusive_iff (S : Type) [IntervalSet S] [LawfulIntervalSet S] (k : KernelSystem S)
    (h : Threadless k) (calls : List ThreadCall) :
    AllAlong ThreadCall.step TlsExclusive { kernel := k } calls ∧
        EachStep ThreadCall.step LeavesNothing { kernel := k } calls ↔
      EachStep ThreadCall.step FindsStorage { kernel := k } calls := by
  have hinit := tlsInvariant_init h
  constructor
  · rintro ⟨-, hleaves⟩
    refine hleaves.of_invariant (q := TlsInvariant) (fun s i t hs hd ht => ?_) hinit
    obtain ⟨hkeeps, hfinds⟩ := threadCall_step hs ht
    exact ⟨(hkeeps (hfinds hd)).1, hfinds hd⟩
  · intro hfinds
    refine ⟨allAlong_of_eachStep (fun _ hs => hs.exclusive) (fun s i t hs hc ht => ?_) hinit hfinds,
      hfinds.of_invariant (q := TlsInvariant) (fun s i t hs hc ht => ?_) hinit⟩
    · exact ((threadCall_step hs ht).1 hc).1
    · exact (threadCall_step hs ht).1 hc

/-- A process with a page of code, and a BASE region with some free pages. -/
def codeKernel (pages : ℕ) : KernelSystem IntervalList where
  memoryRegions := fun _ => {
    base := 0
    size := pages * Memory.PAGE_SIZE
    used := 0
    freeBlocks := if pages = 0 then empty else add empty (0, pages * Memory.PAGE_SIZE) }
  fcram := ⟨0x10000, 0x10000000⟩
  isCached := fun _ => false
  numCores := 2
  resourceLimits := fun _ => ⟨fun _ => 0, fun _ => 0⟩
  processes := [{
    resourceLimit := 0
    memoryRegion := .base
    vmManager := ⟨[(0, VMManager.initialVma)],
      { attributes := fun page => if page = 0x100 then .memory else .unmapped
        pointers := fun page => if page = 0x100 then 0x10000 else 0 }, false⟩
    memoryUsed := 0
    holdingMemory := empty
    holdingTlsMemory := empty }]
  objects := []
  nextObject := 0

/-- The kernel has no object yet. -/
theorem codeKernel_threadless (pages : ℕ) (h : pages * Memory.PAGE_SIZE ≤ Memory.FCRAM_N3DS_SIZE) :
    Threadless (codeKernel pages) where
  threads thread t hmem := by cases hmem
  slots process hmem := by
    rcases List.mem_singleton.mp hmem with rfl
    rfl
  inside := by
    unfold codeKernel
    dsimp only
    split
    · rw [toSet_empty]
      exact Set.empty_subset _
    · rw [toSet_add, toSet_empty, Set.empty_union]
      exact Set.Ico_subset_Ico_right h
  numbers := List.nodup_nil
  fresh entry hmem := by cases hmem

/-- Two threads are created, the first is stopped, and a third takes its slot. -/
theorem tls_exclusive_iff_reused :
    AllAlong ThreadCall.step TlsExclusive { kernel := codeKernel 1 }
        [.createThread 0x100000 48 0 0 0 0 true, .createThread 0x100000 48 0 0 0 0 true, .stop 0,
          .createThread 0x100000 48 0 0 0 0 true] ∧
      EachStep ThreadCall.step LeavesNothing { kernel := codeKernel 1 }
        [.createThread 0x100000 48 0 0 0 0 true, .createThread 0x100000 48 0 0 0 0 true, .stop 0,
          .createThread 0x100000 48 0 0 0 0 true] :=
  (tls_exclusive_iff IntervalList (codeKernel 1) (codeKernel_threadless 1 (by decide)) _).mpr
    (by decide)

/-- Where no page is free, a thread stays in the tables that could not be created.
SOURCE: thread.cpp:370-391 -/
theorem tls_leaves_thread : ¬ (
    AllAlong ThreadCall.step TlsExclusive { kernel := codeKernel 0 }
        [.createThread 0x100000 48 0 0 0 0 true] ∧
      EachStep ThreadCall.step LeavesNothing { kernel := codeKernel 0 }
        [.createThread 0x100000 48 0 0 0 0 true]) := by
  rintro ⟨-, hleaves⟩
  -- the call ends with an error, and the thread has found no storage
  have hok : (ThreadCall.step { kernel := codeKernel 0 }
      (.createThread 0x100000 48 0 0 0 0 true)).toOption.isSome = true := by decide
  cases hstep : ThreadCall.step { kernel := codeKernel 0 }
      (.createThread 0x100000 48 0 0 0 0 true) with
  | error fault =>
    rw [hstep] at hok
    cases hok
  | ok k' =>
    have hinv := tlsInvariant_init (codeKernel_threadless 0 (by decide))
    have hfinds := (threadCall_step hinv hstep).2 (hleaves k' hstep).1
    revert hfinds
    decide

end Calls

end Borked3DS.Analysis
