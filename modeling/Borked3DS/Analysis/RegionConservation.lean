import Borked3DS.Interface.RegionRuns

/-!
# A memory region conserves memory

The counter and the free blocks of a region stay together over every run of allocations and
frees, what is handed out is never handed out again before it is freed, and each allocation
takes the place its strategy promises.
-/

set_option autoImplicit false

namespace Borked3DS.Analysis

open Borked3DS.Library Borked3DS.Model Borked3DS.Interface IntervalSet LawfulIntervalSet

variable {S : Type} [IntervalSet S] [LawfulIntervalSet S]

/-! ## Gathering from the highest block down -/

/-- The blocks are not empty and descend with gaps between them. -/
structure Descending (d : List (ℕ × ℕ)) : Prop where
  nonempty : ∀ i ∈ d, i.1 < i.2
  gaps : d.Pairwise fun i j => j.2 < i.1

theorem descending_reverse {l : List (ℕ × ℕ)} (h : Canonical l) : Descending l.reverse := by
  constructor
  · intro i hi
    exact h.nonempty i (List.mem_reverse.mp hi)
  · exact List.pairwise_reverse.mpr h.gaps

theorem descending_cons {i : ℕ × ℕ} {d : List (ℕ × ℕ)} (h : Descending (i :: d)) :
    i.1 < i.2 ∧ (∀ x ∈ elements d, x < i.1) ∧ Descending d := by
  refine ⟨h.nonempty i (by simp), ?_, fun j hj => h.nonempty j (by simp [hj]), h.gaps.tail⟩
  intro x hx
  obtain ⟨j, hj, -, hhi⟩ := hx
  have := (List.pairwise_cons.mp h.gaps).1 j hj
  omega

theorem elements_reverse (l : List (ℕ × ℕ)) : elements l.reverse = elements l := by
  ext x
  simp [elements]

theorem length_reverse (l : List (ℕ × ℕ)) : IntervalSet.length l.reverse = IntervalSet.length l := by
  simp [IntervalSet.length, List.sum_reverse]

omit [LawfulIntervalSet S] in
/-- When the blocks do not suffice, something is missing after the loop. -/
theorem gather_short {d : List (ℕ × ℕ)} {rest : ℕ} (h : IntervalSet.length d < rest) (result : S) :
    (MemoryRegionInfo.gather d rest result).2 ≠ 0 := by
  induction d generalizing rest result with
  | nil =>
      simp only [IntervalSet.length, List.map_nil, List.sum_nil] at h
      simp only [MemoryRegionInfo.gather]
      omega
  | cons i d ih =>
      simp only [IntervalSet.length, List.map_cons, List.sum_cons] at h
      rw [MemoryRegionInfo.gather, if_neg (by omega)]
      apply ih
      simp only [IntervalSet.length]
      omega

/-- When the blocks suffice, the loop gathers exactly the highest `rest` elements. -/
theorem gather_enough {d : List (ℕ × ℕ)} {rest : ℕ} (hd : Descending d)
    (h : rest ≤ IntervalSet.length d) (hpos : 0 < rest) (result : S) :
    ∃ A, (MemoryRegionInfo.gather d rest result).2 = 0 ∧
      toSet (MemoryRegionInfo.gather d rest result).1 = toSet result ∪ A ∧
      A ⊆ elements d ∧ A.ncard = rest ∧ ∀ x ∈ A, ∀ y ∈ elements d \ A, y < x := by
  induction d generalizing rest result with
  | nil =>
      simp only [IntervalSet.length, List.map_nil, List.sum_nil] at h
      omega
  | cons i d ih =>
      obtain ⟨hi, hbelow, hrest⟩ := descending_cons hd
      simp only [IntervalSet.length, List.map_cons, List.sum_cons] at h
      rw [elements_cons]
      by_cases hle : rest ≤ i.2 - i.1
      · -- the last block: only its top is taken
        refine ⟨Set.Ico (i.2 - rest) i.2, ?_, ?_, ?_, ?_, ?_⟩
        · rw [MemoryRegionInfo.gather, if_pos hle]
        · rw [MemoryRegionInfo.gather, if_pos hle, toSet_add]
        · intro x hx
          have := hx.1
          exact .inl ⟨by omega, hx.2⟩
        · rw [ncard_Ico]
          omega
        · intro x hx y hy
          have := hx.1
          obtain ⟨hin | hin, hout⟩ := hy
          · by_contra hlt
            exact hout ⟨by omega, hin.2⟩
          · have := hbelow y hin
            omega
      · have hgather : MemoryRegionInfo.gather (i :: d) rest result =
            MemoryRegionInfo.gather d (rest - (i.2 - i.1)) (add result i) := by
          rw [MemoryRegionInfo.gather, if_neg hle]
        have hlen : rest - (i.2 - i.1) ≤ IntervalSet.length d := by
          simp only [IntervalSet.length]
          omega
        obtain ⟨A, hzero, hset, hsub, hcard, htop⟩ :=
          ih hrest hlen (by omega) (add result i)
        have hdisj : Disjoint (Set.Ico i.1 i.2) A := by
          rw [Set.disjoint_left]
          intro x hx hxA
          have := hbelow x (hsub hxA)
          have := hx.1
          omega
        refine ⟨Set.Ico i.1 i.2 ∪ A, ?_, ?_, ?_, ?_, ?_⟩
        · rw [hgather, hzero]
        · rw [hgather, hset, toSet_add, Set.union_assoc]
        · exact Set.union_subset_union_right _ hsub
        · rw [Set.ncard_union_eq hdisj (Set.finite_Ico _ _)
            ((finite_elements d).subset hsub), ncard_Ico, hcard]
          omega
        · intro x hx y hy
          obtain ⟨hin | hin, hout⟩ := hy
          · exact absurd (Or.inl hin) hout
          · rcases hx with hx | hx
            · have := hbelow y hin
              have := hx.1
              omega
            · exact htop x hx y ⟨hin, fun hyA => hout (Or.inr hyA)⟩

/-- Gathering nothing leaves the result as it was. -/
theorem gather_zero (d : List (ℕ × ℕ)) (result : S) :
    (MemoryRegionInfo.gather d 0 result).2 = 0 ∧
      toSet (MemoryRegionInfo.gather d 0 result).1 = toSet result := by
  cases d with
  | nil => exact ⟨rfl, rfl⟩
  | cons i d =>
      rw [MemoryRegionInfo.gather, if_pos (Nat.zero_le _)]
      refine ⟨rfl, ?_⟩
      rw [toSet_add]
      simp

/-! ## Taking from the free blocks and giving back -/

variable {base size : ℕ} {r r' : MemoryRegionInfo S} {out : List (Set ℕ)}

/-- Handing out free offsets keeps the books in order. -/
theorem conserves_take (h : Conserves base size ⟨r, out⟩) (hsize : base + size < 2 ^ 32)
    {A : Set ℕ} {freeBlocks : S} (hA : A ⊆ toSet r.freeBlocks)
    (hfree : toSet freeBlocks = toSet r.freeBlocks \ A) :
    Conserves base size
      ⟨{ r with freeBlocks := freeBlocks, used := u32 (r.used + A.ncard) }, A :: out⟩ := by
  have hin : A ⊆ Set.Ico base (base + size) := hA.trans h.inside
  have hsub : toSet freeBlocks ⊆ toSet r.freeBlocks := by
    rw [hfree]
    exact Set.sdiff_subset
  have hcount : total freeBlocks + A.ncard = total r.freeBlocks := by
    rw [total_eq_ncard, hfree, Set.ncard_sdiff_add_ncard_of_subset hA (finite_toSet _),
      ← total_eq_ncard]
  have hcounted := h.counted
  simp only at hcounted
  constructor
  · exact hsub.trans h.inside
  · rw [u32_of_lt (by omega)]
    simp only
    omega
  · intro B hB
    rcases List.mem_cons.mp hB with rfl | hB
    · exact hin
    · exact h.outside B hB
  · intro B hB
    rcases List.mem_cons.mp hB with rfl | hB
    · simp only [hfree]
      exact Set.disjoint_sdiff_right
    · exact (h.apart B hB).mono_right hsub
  · refine List.pairwise_cons.mpr ⟨?_, h.disjoint⟩
    intro B hB
    exact ((h.apart B hB).mono_right hA).symm

omit [LawfulIntervalSet S] in
/-- A member of a region's outstanding allocations is not free. -/
theorem conserves_not_free (h : Conserves base size ⟨r, out⟩) {x : ℕ}
    (hx : ∃ A ∈ out, x ∈ A) : x ∉ toSet r.freeBlocks ∧ x ∈ Set.Ico base (base + size) := by
  obtain ⟨A, hA, hxA⟩ := hx
  exact ⟨Set.disjoint_left.mp (h.apart A hA) hxA, h.outside A hA hxA⟩

/-- `Free` takes outstanding offsets back: its `ASSERT` holds, and the books stay in order.
SOURCE: memory.cpp:262-271 -/
theorem free_ok (h : Conserves base size ⟨r, out⟩) (hsize : base + size < 2 ^ 32)
    (hlock : r.isLocked = false) {offset n : ℕ} (hoffset : offset < 2 ^ 32)
    (hout : ∀ x ∈ Set.Ico offset (offset + n), ∃ A ∈ out, x ∈ A) :
    ∃ r', r.free offset n = .ok r' ∧ r'.isLocked = false ∧
      Conserves base size ⟨r', out.map (· \ Set.Ico offset (offset + n))⟩ := by
  -- the range lies inside the region, so its end does not wrap around
  have hin : Set.Ico offset (offset + n) ⊆ Set.Ico base (base + size) := by
    intro x hx
    exact (conserves_not_free h (hout x hx)).2
  have hend : offset + n < 2 ^ 32 := by
    by_cases hn : n = 0
    · omega
    · have := (hin (show offset + n - 1 ∈ Set.Ico offset (offset + n) from ⟨by omega, by omega⟩)).2
      omega
  have hfree : Disjoint (toSet r.freeBlocks) (Set.Ico offset (offset + n)) := by
    rw [Set.disjoint_right]
    intro x hx
    exact (conserves_not_free h (hout x hx)).1
  have hassert : intersects r.freeBlocks (offset, offset + n) = false := by
    rw [← Bool.not_eq_true, intersects_iff]
    exact Set.not_nonempty_iff_eq_empty.mpr (Set.disjoint_iff_inter_eq_empty.mp hfree)
  refine ⟨{ r with
      freeBlocks := add r.freeBlocks (offset, offset + n), used := u32Sub r.used n }, ?_, hlock, ?_⟩
  · simp [MemoryRegionInfo.free, hlock, u32_of_lt hend, assert, hassert]
  · have htotal := total_add r.freeBlocks offset (offset + n) hfree
    have hcounted := h.counted
    have hinside : toSet (add r.freeBlocks (offset, offset + n)) ⊆ Set.Ico base (base + size) := by
      rw [toSet_add]
      exact Set.union_subset h.inside hin
    have hbound : total (add r.freeBlocks (offset, offset + n)) ≤ size := by
      rw [total_eq_ncard]
      apply (Set.ncard_le_ncard hinside (Set.finite_Ico _ _)).trans
      rw [ncard_Ico]
      omega
    simp only at hcounted
    constructor
    · exact hinside
    · simp only
      rw [u32Sub_of_le (by omega) (by omega)]
      omega
    · intro B hB
      obtain ⟨A, hA, rfl⟩ := List.mem_map.mp hB
      exact Set.sdiff_subset.trans (h.outside A hA)
    · intro B hB
      obtain ⟨A, hA, rfl⟩ := List.mem_map.mp hB
      simp only [toSet_add]
      rw [Set.disjoint_union_right]
      exact ⟨(h.apart A hA).mono_left Set.sdiff_subset, Set.disjoint_sdiff_left⟩
    · apply List.Pairwise.map _ _ h.disjoint
      intro A B hAB
      exact hAB.mono Set.sdiff_subset Set.sdiff_subset

/-! ## The allocating calls -/

/-- `HeapAllocate` takes exactly `n` bytes, or nothing.
SOURCE: memory.cpp:181-210 -/
theorem heapAllocate_cases (hlock : r.isLocked = false) (n : ℕ) :
    ∃ r' result, r.heapAllocate n = .ok (r', result) ∧
      ((total r.freeBlocks < n ∧ r' = r ∧ result = empty) ∨
        (n ≤ total r.freeBlocks ∧ toSet result ⊆ toSet r.freeBlocks ∧ (toSet result).ncard = n ∧
          (∀ x ∈ toSet result, ∀ y ∈ toSet r.freeBlocks \ toSet result, y < x) ∧
          r' = { r with
            freeBlocks := subSet r.freeBlocks result, used := u32 (r.used + n) })) := by
  have hd := descending_reverse (canonical r.freeBlocks)
  have hlen : IntervalSet.length (intervals r.freeBlocks).reverse = total r.freeBlocks :=
    length_reverse _
  have helem : elements (intervals r.freeBlocks).reverse = toSet r.freeBlocks := elements_reverse _
  simp only [MemoryRegionInfo.heapAllocate, assert, hlock, if_true, ok_bind]
  by_cases hshort : total r.freeBlocks < n
  · refine ⟨r, empty, ?_, .inl ⟨hshort, rfl, rfl⟩⟩
    rw [if_pos (gather_short (by omega) _)]
    rfl
  · have hgather : (MemoryRegionInfo.gather (intervals r.freeBlocks).reverse n (empty : S)).2 = 0 ∧
        toSet (MemoryRegionInfo.gather (intervals r.freeBlocks).reverse n (empty : S)).1 ⊆
          toSet r.freeBlocks ∧
        (toSet (MemoryRegionInfo.gather (intervals r.freeBlocks).reverse n (empty : S)).1).ncard = n ∧
        ∀ x ∈ toSet (MemoryRegionInfo.gather (intervals r.freeBlocks).reverse n (empty : S)).1,
          ∀ y ∈ toSet r.freeBlocks \
            toSet (MemoryRegionInfo.gather (intervals r.freeBlocks).reverse n (empty : S)).1,
              y < x := by
      by_cases hn : n = 0
      · subst hn
        obtain ⟨hzero, hset⟩ := gather_zero (intervals r.freeBlocks).reverse (empty : S)
        rw [hset, toSet_empty]
        exact ⟨hzero, Set.empty_subset _, Set.ncard_empty ℕ, fun x hx => absurd hx (by simp)⟩
      · obtain ⟨A, hzero, hset, hsub, hcard, htop⟩ :=
          gather_enough hd (show n ≤ _ by omega) (by omega) (empty : S)
        rw [hset, toSet_empty, Set.empty_union, ← helem]
        exact ⟨hzero, hsub, hcard, htop⟩
    obtain ⟨hzero, hsub, hcard, htop⟩ := hgather
    refine ⟨_, _, ?_, .inr ⟨by omega, hsub, hcard, htop, rfl⟩⟩
    rw [if_neg (by omega)]
    rfl

/-- `LinearAllocate(offset, size)` takes the range it is asked for when it is free.
SOURCE: memory.cpp:212-223 -/
theorem linearAllocateAt_cases (hlock : r.isLocked = false) {offset n : ℕ}
    (hbound : offset + n < 2 ^ 32) {granted : Bool}
    (hc : r.linearAllocateAt offset n = .ok (r', granted)) :
    (granted = true ∧ Set.Ico offset (offset + n) ⊆ toSet r.freeBlocks ∧
        r' = { r with
          freeBlocks := sub r.freeBlocks (offset, offset + n), used := u32 (r.used + n) }) ∨
      (granted = false ∧ r' = r) := by
  simp only [MemoryRegionInfo.linearAllocateAt, assert, hlock, if_true, ok_bind,
    u32_of_lt hbound] at hc
  split at hc
  next hcontains =>
    obtain ⟨rfl, rfl⟩ := Prod.mk.inj (Except.ok.inj hc)
    exact .inl ⟨rfl, (contains_iff _ _).mp hcontains, by rw [← hlock]⟩
  next =>
    obtain ⟨rfl, rfl⟩ := Prod.mk.inj (Except.ok.inj hc)
    exact .inr ⟨rfl, rfl⟩

/-- Among canonical blocks the first one that is long enough holds the lowest fitting position. -/
theorem find_lowest {l : List (ℕ × ℕ)} (h : Canonical l) {n : ℕ} {block : ℕ × ℕ}
    (hfind : l.find? (fun i => decide (n ≤ i.2 - i.1)) = some block) :
    block ∈ l ∧ n ≤ block.2 - block.1 ∧
      ∀ i ∈ l, ∀ q, i.1 ≤ q → q + n ≤ i.2 → block.1 ≤ q := by
  obtain ⟨hlong, before, after, hl, hbefore⟩ := List.find?_eq_some_iff_append.mp hfind
  refine ⟨List.mem_of_find?_eq_some hfind, by simpa using hlong, ?_⟩
  intro i hi q hlo hhi
  subst hl
  rcases List.mem_append.mp hi with hi | hi
  · -- an earlier block is too short
    have := hbefore i hi
    simp only [Bool.not_eq_true', decide_eq_false_iff_not] at this
    omega
  · rcases List.mem_cons.mp hi with rfl | hi
    · exact hlo
    · have hgaps := (List.pairwise_append.mp h.gaps).2.1
      have := (List.pairwise_cons.mp hgaps).1 i hi
      have := h.nonempty block (by simp)
      omega

/-- Among canonical blocks the last one that is long enough holds the highest fitting position. -/
theorem find_highest {l : List (ℕ × ℕ)} (h : Canonical l) {n : ℕ} {block : ℕ × ℕ}
    (hfind : l.reverse.find? (fun i => decide (n ≤ i.2 - i.1)) = some block) :
    block ∈ l ∧ n ≤ block.2 - block.1 ∧
      ∀ i ∈ l, ∀ q, i.1 ≤ q → q + n ≤ i.2 → q ≤ block.2 - n := by
  have hd := descending_reverse h
  obtain ⟨hlong, before, after, hl, hbefore⟩ := List.find?_eq_some_iff_append.mp hfind
  refine ⟨List.mem_reverse.mp (List.mem_of_find?_eq_some hfind), by simpa using hlong, ?_⟩
  intro i hi q hlo hhi
  have hi := List.mem_reverse.mpr hi
  rw [hl] at hi hd
  rcases List.mem_append.mp hi with hi | hi
  · have := hbefore i hi
    simp only [Bool.not_eq_true', decide_eq_false_iff_not] at this
    omega
  · rcases List.mem_cons.mp hi with rfl | hi
    · omega
    · have hgaps := (List.pairwise_append.mp hd.gaps).2.1
      have := (List.pairwise_cons.mp hgaps).1 i hi
      have := hd.nonempty block (by simp)
      simp only [decide_eq_true_eq] at hlong
      omega

/-- No block is long enough when the search finds none. -/
theorem find_none {l : List (ℕ × ℕ)} {n : ℕ}
    (hfind : l.find? (fun i => decide (n ≤ i.2 - i.1)) = none) : ∀ i ∈ l, i.2 - i.1 < n := by
  intro i hi
  have := List.find?_eq_none.mp hfind i hi
  simp only [decide_eq_true_eq] at this
  omega

/-- A linear allocation that took the range `[p, p + n)`. -/
structure TakesLinear (r r' : MemoryRegionInfo S) (n p : ℕ) : Prop where
  fits : Fits r.freeBlocks n p
  taken : r' = { r with
    freeBlocks := sub r.freeBlocks (p, p + n), used := u32 (r.used + n) }

/-- A block of a region ends inside the region. -/
theorem block_end_le (h : Conserves base size ⟨r, out⟩) {block : ℕ × ℕ}
    (hmem : block ∈ intervals r.freeBlocks) : block.1 < block.2 ∧ block.2 ≤ base + size := by
  have hne := (canonical r.freeBlocks).nonempty block hmem
  have hlast : block.2 - 1 ∈ Set.Ico base (base + size) :=
    h.inside ⟨block, hmem, by omega, by omega⟩
  have := hlast.2
  omega

/-- `LinearAllocate(size)` takes the lowest fitting position.
SOURCE: memory.cpp:225-241 -/
theorem linearAllocate_cases (h : Conserves base size ⟨r, out⟩) (hsize : base + size < 2 ^ 32)
    (hlock : r.isLocked = false) (n : ℕ) :
    ∃ r' res, r.linearAllocate n = .ok (r', res) ∧
      ((∃ p, res = some p ∧ TakesLinear r r' n p ∧ ∀ q, Fits r.freeBlocks n q → p ≤ q) ∨
        (res = none ∧ r' = r ∧ ∀ block ∈ intervals r.freeBlocks, block.2 - block.1 < n)) := by
  simp only [MemoryRegionInfo.linearAllocate, assert, hlock, if_true, ok_bind]
  refine ⟨_, _, rfl, ?_⟩
  cases hfind : (intervals r.freeBlocks).find? (fun i => decide (n ≤ i.2 - i.1)) with
  | none => exact .inr ⟨rfl, rfl, find_none hfind⟩
  | some block =>
      obtain ⟨hmem, hlong, hlow⟩ := find_lowest (canonical r.freeBlocks) hfind
      have hend := block_end_le h hmem
      have hwrap : u32 (block.1 + n) = block.1 + n := u32_of_lt (by omega)
      refine .inl ⟨block.1, rfl, ⟨⟨block, hmem, le_rfl, by omega⟩, ?_⟩, ?_⟩
      · simp only [Option.map_some, hwrap]
      · rintro q ⟨i, hi, hlo, hhi⟩
        exact hlow i hi q hlo hhi

/-- `RLinearAllocate(size)` takes the highest fitting position.
SOURCE: memory.cpp:243-260 -/
theorem rLinearAllocate_cases (hlock : r.isLocked = false) (n : ℕ) :
    ∃ r' res, r.rLinearAllocate n = .ok (r', res) ∧
      ((∃ p, res = some p ∧ TakesLinear r r' n p ∧ ∀ q, Fits r.freeBlocks n q → q ≤ p) ∨
        (res = none ∧ r' = r ∧ ∀ block ∈ intervals r.freeBlocks, block.2 - block.1 < n)) := by
  simp only [MemoryRegionInfo.rLinearAllocate, assert, hlock, if_true, ok_bind]
  refine ⟨_, _, rfl, ?_⟩
  cases hfind : (intervals r.freeBlocks).reverse.find? (fun i => decide (n ≤ i.2 - i.1)) with
  | none =>
      have hnone := find_none hfind
      exact .inr ⟨rfl, rfl, fun i hi => hnone i (List.mem_reverse.mpr hi)⟩
  | some block =>
      obtain ⟨hmem, hlong, hhigh⟩ := find_highest (canonical r.freeBlocks) hfind
      have hne := (canonical r.freeBlocks).nonempty block hmem
      have hend : block.2 - n + n = block.2 := by omega
      refine .inl ⟨block.2 - n, rfl, ⟨⟨block, hmem, by omega, by omega⟩, ?_⟩, ?_⟩
      · simp only [Option.map_some, hend]
      · rintro q ⟨i, hi, hlo, hhi⟩
        exact hhigh i hi q hlo hhi

/-! ## Runs -/

/-- The invariant of a run: the region is unlocked and its books are in order. -/
structure Sound (base size : ℕ) (a : Allocations S) : Prop where
  conserves : Conserves base size a
  unlocked : a.region.isLocked = false

theorem reset_sound (hsize : base + size < 2 ^ 32) (hc : r.reset base size = .ok r') :
    Sound base size ⟨r', []⟩ := by
  obtain ⟨u, hlock, hc⟩ := bind_eq_ok.mp hc
  obtain rfl := Except.ok.inj hc
  have hset : toSet (add (empty : S) (base, u32 (base + size))) = Set.Ico base (base + size) := by
    rw [toSet_add, toSet_empty, Set.empty_union, u32_of_lt hsize]
  refine ⟨⟨hset.subset, ⟨Nat.zero_le _, ?_⟩, by simp, by simp, List.Pairwise.nil⟩,
    assert_eq_ok.mp hlock⟩
  rw [total_eq_ncard]
  simp only [hset, ncard_Ico]
  omega

/-- Taking a fitting range keeps the books in order. -/
theorem takesLinear_conserves (h : Conserves base size ⟨r, out⟩) (hsize : base + size < 2 ^ 32)
    {n p : ℕ} (ht : TakesLinear r r' n p) :
    Conserves base size ⟨r', Set.Ico p (p + n) :: out⟩ := by
  have hsub : Set.Ico p (p + n) ⊆ toSet r.freeBlocks := by
    obtain ⟨block, hmem, hlo, hhi⟩ := ht.fits
    intro x hx
    exact ⟨block, hmem, hlo.trans hx.1, lt_of_lt_of_le hx.2 hhi⟩
  have hset := toSet_sub r.freeBlocks (p, p + n)
  have htake := conserves_take h hsize hsub hset
  rw [ncard_Ico, Nat.add_sub_cancel_left] at htake
  rw [ht.taken]
  exact htake

/-- Every call on a region keeps the invariant. -/
theorem regionStep_sound (hsize : base + size < 2 ^ 32) {a b : Allocations S}
    (h : Sound base size a) (hstep : RegionStep a b) : Sound base size b := by
  cases hstep with
  | @heapAllocate r r' out n result hc =>
      have hlock : r.isLocked = false := h.unlocked
      obtain ⟨r₁, result₁, hc₁, hcases⟩ := heapAllocate_cases hlock n
      obtain ⟨rfl, rfl⟩ := Prod.mk.inj (Except.ok.inj (hc.symm.trans hc₁))
      rcases hcases with ⟨-, rfl, rfl⟩ | ⟨-, hsub, hcard, -, rfl⟩
      · refine ⟨?_, hlock⟩
        have hset := Set.sdiff_empty (s := toSet r'.freeBlocks)
        have htake := conserves_take h.conserves hsize (Set.empty_subset _) hset.symm
        have hcounted := h.conserves.counted
        simp only at hcounted
        rw [Set.ncard_empty, Nat.add_zero, u32_of_lt (by omega)] at htake
        rw [toSet_empty]
        exact htake
      · have htake := conserves_take h.conserves hsize hsub (toSet_subSet r.freeBlocks result)
        rw [hcard] at htake
        exact ⟨htake, hlock⟩
  | @linearAllocateAt r r' out offset n granted hbound hc =>
      have hlock : r.isLocked = false := h.unlocked
      rcases linearAllocateAt_cases hlock hbound hc with ⟨rfl, hsub, rfl⟩ | ⟨rfl, rfl⟩
      · have hset := toSet_sub r.freeBlocks (offset, offset + n)
        have htake := conserves_take h.conserves hsize hsub hset
        rw [ncard_Ico, Nat.add_sub_cancel_left] at htake
        exact ⟨htake, hlock⟩
      · exact h
  | @linearAllocate r r' out n res hc =>
      have hlock : r.isLocked = false := h.unlocked
      obtain ⟨r₁, res₁, hc₁, hcases⟩ := linearAllocate_cases h.conserves hsize hlock n
      obtain ⟨rfl, rfl⟩ := Prod.mk.inj (Except.ok.inj (hc.symm.trans hc₁))
      rcases hcases with ⟨p, rfl, htakes, -⟩ | ⟨rfl, rfl, -⟩
      · refine ⟨takesLinear_conserves h.conserves hsize htakes, ?_⟩
        rw [htakes.taken]
        exact hlock
      · exact h
  | @rLinearAllocate r r' out n res hc =>
      have hlock : r.isLocked = false := h.unlocked
      obtain ⟨r₁, res₁, hc₁, hcases⟩ := rLinearAllocate_cases hlock n
      obtain ⟨rfl, rfl⟩ := Prod.mk.inj (Except.ok.inj (hc.symm.trans hc₁))
      rcases hcases with ⟨p, rfl, htakes, -⟩ | ⟨rfl, rfl, -⟩
      · refine ⟨takesLinear_conserves h.conserves hsize htakes, ?_⟩
        rw [htakes.taken]
        exact hlock
      · exact h
  | @free r r' out offset n hoffset hout hc =>
      obtain ⟨r₁, hc₁, hlock, hcons⟩ := free_ok h.conserves hsize h.unlocked hoffset hout
      obtain rfl := Except.ok.inj (hc.symm.trans hc₁)
      exact ⟨hcons, hlock⟩

theorem reachable_sound (hsize : base + size < 2 ^ 32) (hc : r.reset base size = .ok r')
    {a : Allocations S} (hrun : Relation.ReflTransGen RegionStep ⟨r', []⟩ a) :
    Sound base size a := by
  induction hrun with
  | refl => exact reset_sound hsize hc
  | tail _ hstep ih => exact regionStep_sound hsize ih hstep

theorem heapAllocates_of_sound {a : Allocations S} (h : Sound base size a) (n : ℕ) :
    HeapAllocates a.region n := by
  obtain ⟨r', result, hc, hcases⟩ := heapAllocate_cases h.unlocked n
  refine ⟨r', result, hc, ?_, ?_⟩
  · intro hshort
    rcases hcases with ⟨-, rfl, rfl⟩ | ⟨henough, -⟩
    · exact ⟨rfl, rfl⟩
    · omega
  · intro henough
    rcases hcases with ⟨hshort, -⟩ | ⟨-, hsub, hcard, htop, rfl⟩
    · omega
    · have hset := toSet_subSet a.region.freeBlocks result
      refine ⟨?_, hsub, hset, ?_⟩
      · rw [total_eq_ncard, hcard]
      · intro x hx y hy
        rw [hset] at hy
        exact htop x hx y hy

omit [LawfulIntervalSet S] in
/-- The two outcomes of a linear allocation, by whether some block is long enough. -/
theorem allocatesBest_of_cases {le : ℕ → ℕ → Prop} {n : ℕ}
    {call : Exec (MemoryRegionInfo S × Option ℕ)}
    (h : ∃ r' res, call = .ok (r', res) ∧
      ((∃ p, res = some p ∧ TakesLinear r r' n p ∧ ∀ q, Fits r.freeBlocks n q → le p q) ∨
        (res = none ∧ r' = r ∧ ∀ block ∈ intervals r.freeBlocks, block.2 - block.1 < n))) :
    AllocatesBest le r n call := by
  obtain ⟨r', res, hc, hcases⟩ := h
  refine ⟨r', res, hc, ?_, ?_⟩
  · rintro ⟨block, hmem, hlong⟩
    rcases hcases with ⟨p, rfl, htakes, hbest⟩ | ⟨-, -, hshort⟩
    · exact ⟨p, rfl, htakes.fits, hbest⟩
    · have := hshort block hmem
      omega
  · intro hshort
    rcases hcases with ⟨p, rfl, htakes, -⟩ | ⟨rfl, rfl, -⟩
    · obtain ⟨block, hmem, hlo, hhi⟩ := htakes.fits
      have := hshort block hmem
      omega
    · exact ⟨rfl, rfl⟩

/-- A region of one page, with its blocks in a list. -/
def pageRegion : MemoryRegionInfo IntervalList where
  base := 0x2000
  size := 0x1000
  used := 0
  freeBlocks := add empty (0x2000, 0x3000)

end Borked3DS.Analysis
