import Mathlib.Data.Nat.Find
import Borked3DS.Analysis.VMManagerInvariant
import Borked3DS.Interface.AddressSpace

/-!
# When the memory is mapped at the first gap that fits

The search takes the first free area that ends late enough, however late it begins. Nothing in front
of it fits; whether it fits itself is left to `CarveVMA`.
-/

set_option autoImplicit false

namespace Borked3DS.Analysis

open Borked3DS.Library Borked3DS.Model Borked3DS.Interface VMAMap

variable {isCached : ℕ → Bool} {M M' : VMManager} {m m' l r : VMAMap} {e : Entry} {t n : ℕ}

/-! ## Mapping inside a free area -/

section Inside

/-- A free area can be trimmed to any part of it. -/
theorem splitEdges_free (h : Areas 0 MAX_ADDRESS (l ++ e :: r)) (hfree : e.2.type = .free)
    {s f : ℕ} (hfa : pageAligned f) (hsf : s < f) (hf : f ≤ e.2.size) :
    ∃ m' k, splitEdges (l ++ e :: r) e.1 e.2.size s f = .ok (m', k) := by
  have hbacks : ∀ {a : VirtualMemoryArea} {n : ℕ}, a.type = .free → Backs a n := by
    intro a n ha hbacked
    rw [ha] at hbacked
    cases hbacked
  have hstart : ∀ {l r : VMAMap} {e : Entry}, Areas 0 MAX_ADDRESS (l ++ e :: r) →
      e.2.type = .free → s < e.2.size →
        ∃ m' k, (if s ≠ 0 then splitVMA (l ++ e :: r) e.1 s else pure (l ++ e :: r, e.1)) =
          .ok (m', k) := by
    intro l r e h hfree hs
    by_cases hzero : s = 0
    · rw [if_neg (not_not_intro hzero)]
      exact ⟨_, _, rfl⟩
    · rw [if_pos hzero]
      exact ⟨_, _, (splitVMA_place h).mpr ⟨⟨hs, Nat.pos_of_ne_zero hzero, hbacks hfree⟩, rfl⟩⟩
  unfold splitEdges
  by_cases hend : f = e.2.size
  · rw [if_neg (not_not_intro hend), pure_eq_ok, ok_bind]
    exact hstart h hfree (by omega)
  · have hlt : f < e.2.size := by omega
    have hpos : 0 < f := by omega
    have hsplit := (splitVMA_place h).mpr ⟨⟨hlt, hpos, hbacks hfree⟩, rfl⟩
    rw [if_pos hend, hsplit, ok_bind]
    dsimp only
    rw [pure_eq_ok, ok_bind]
    exact @hstart l _ (e.1, leftPart e.2 f) (split_areas h hfa hlt hpos) hfree hsf

/-- A part of a free area can be carved out, -/
theorem carveVMA_free (h : Areas 0 MAX_ADDRESS (l ++ e :: r)) (hfree : e.2.type = .free)
    (htp : pageAligned t) (hnp : pageAligned n) (hpos : 0 < n) (hle : e.1 ≤ t)
    (hend : t + n ≤ e.1 + e.2.size) : ∃ m', carveVMA (l ++ e :: r) t n = .ok (m', .ok t) := by
  have hmax : MAX_ADDRESS < 2 ^ 32 := by decide
  have hbound := h.bounds (e := e) (by simp)
  have hsound := h.sound e (by simp)
  have hfind := findVMA_place h hle (by omega)
  have hoff : pageAligned (t - e.1 + n) := pageAligned_add (h.aligned_sub htp (by simp)) hnp
  obtain ⟨m', k, hedges⟩ := splitEdges_free h hfree hoff (show t - e.1 < t - e.1 + n by omega)
    (by omega)
  have hk : k = t := by
    obtain ⟨-, hk, -⟩ := splitEdges_place h hoff (by omega) hedges
    omega
  refine ⟨m', ?_⟩
  simp only [carveVMA, assert, if_pos htp, if_pos hnp, ok_bind, hfind, deref_place h.sorted,
    ← hsound.key, u32Sub_of_le hle (show t < 2 ^ 32 by omega), hfree, ne_eq, not_true_eq_false,
    if_false, u32_of_lt (show t - e.1 + n < 2 ^ 32 by omega)]
  rw [if_neg (by omega), hedges, ok_bind, hk]
  rfl

/-- and mapped. -/
theorem mapBackingMemory_free (isCached : ℕ → Bool) (h : Consistent M) (hM : M.vmaMap = l ++ e :: r)
    (hfree : e.2.type = .free) {memory : MemoryRef} (hmem : memory.getPtr ≠ 0) (htp : pageAligned t)
    (hnp : pageAligned n) (hpos : 0 < n) (hle : e.1 ≤ t) (hend : t + n ≤ e.1 + e.2.size)
    (state : MemoryState) :
    ∃ M' k, M.mapBackingMemory isCached t memory n state = .ok (M', .ok k) := by
  have hmax : MAX_ADDRESS < 2 ^ 32 := by decide
  have hareas := h.areas
  rw [hM] at hareas
  have hbound := hareas.bounds (e := e) (by simp)
  obtain ⟨m', hcarve⟩ := carveVMA_free hareas hfree htp hnp hpos hle hend
  obtain ⟨-, -, -, -, -, l', a, r', -, hsize, rfl, hcarved⟩ :=
    carveVMA_ok hareas (by omega) hcarve
  have hareas' : Areas 0 MAX_ADDRESS (l'.reverse.reverse ++ (t, a) :: r') := by
    simpa using hcarved.areas
  have hsorted : OrderedMap.Sorted (l' ++ (t, a) :: r') := by simpa using hareas'.sorted
  have hbase : a.base = t := (hareas'.sound (t, a) (by simp)).key.symm
  obtain ⟨pt, hpt⟩ := editVMA_place isCached (mapped memory state)
    (M := { M with vmaMap := l' ++ (t, a) :: r' }) (mapped_rewrites hbase memory state) hareas'
    (by simp)
  have hderef : deref (l' ++ (t, a) :: r') t = .ok a := deref_place hsorted
  simp only [VMManager.editVMA, hderef, ok_bind, bind_eq_ok] at hpt
  obtain ⟨M₁, hM₁, ⟨vmas, k⟩, hvmas, -⟩ := hpt
  refine ⟨{ M₁ with vmaMap := vmas }, k, ?_⟩
  unfold mapped at hM₁
  simp only [VMManager.mapBackingMemory, assert, if_pos h.unlocked, if_pos hmem, ok_bind, hM,
    hcarve, hderef, if_pos hsize, hM₁, hvmas]
  rfl

/-- When it cannot be carved out, it is not for want of memory. -/
theorem mapBackingMemory_error_ne {memory : MemoryRef} {state : MemoryState} {code : Result}
    (hc : M.mapBackingMemory isCached t memory n state = .ok (M', .error code)) :
    code ≠ .outOfMemory := by
  simp only [VMManager.mapBackingMemory, bind_eq_ok, assert_eq_ok] at hc
  obtain ⟨-, -, -, -, ⟨vmas, carved⟩, hcarve, hc⟩ := hc
  cases carved with
  | ok k =>
      simp only [bind_eq_ok] at hc
      obtain ⟨_, _, _, _, _, _, _, _, hc⟩ := hc
      simp at hc
  | error code' =>
      obtain ⟨-, hcode⟩ := Prod.mk.inj (Except.ok.inj hc)
      cases hcode
      simp only [carveVMA, bind_eq_ok, assert_eq_ok] at hcarve
      obtain ⟨-, -, -, -, hcarve⟩ := hcarve
      split at hcarve
      next =>
        cases hcarve
        decide
      next =>
        obtain ⟨vma, -, hcarve⟩ := bind_eq_ok.mp hcarve
        split at hcarve
        next =>
          cases hcarve
          decide
        next =>
          split at hcarve
          next =>
            cases hcarve
            decide
          next =>
            obtain ⟨⟨m₁, k₁⟩, -, hcarve⟩ := bind_eq_ok.mp hcarve
            simp at hcarve

end Inside

/-! ## The search -/

section Search

variable {base regionSize size : ℕ}

/-- Where the search stops. -/
theorem searchedArea_spec (h : Areas 0 MAX_ADDRESS m) (hfound : searchedArea m base size = some e) :
    ∃ l r, m = l ++ e :: r ∧ e.2.type = .free ∧ base < e.1 + e.2.size ∧
      u32 (base + size) ≤ e.1 + e.2.size ∧
      ∀ a ∈ l, a.2.type = .free → base < a.1 + a.2.size → a.1 + a.2.size < u32 (base + size) := by
  have hmax : MAX_ADDRESS < 2 ^ 32 := by decide
  have hend : ∀ a ∈ m, u32 (a.2.base + a.2.size) = a.1 + a.2.size := by
    intro a ha
    have hbound := h.bounds ha
    rw [← (h.sound a ha).key, u32_of_lt (by omega)]
  unfold searchedArea at hfound
  obtain ⟨htest, l, r, rfl, hbefore⟩ := List.find?_eq_some_iff_append.mp hfound
  dsimp only at htest hbefore
  rw [hend e (by simp)] at htest
  simp only [Bool.and_eq_true, decide_eq_true_eq] at htest
  refine ⟨l, r, rfl, htest.1, htest.2.1, htest.2.2, fun a ha hfree hbehind => ?_⟩
  have hskipped := hbefore a ha
  rw [hend a (by simp [ha])] at hskipped
  simp only [hfree, hbehind, decide_true, Bool.true_and, Bool.not_eq_true', decide_eq_false_iff_not]
    at hskipped
  omega

/-- A gap lies in the area that the search stops at, or behind it. -/
theorem FreeGap.searched (h : Areas 0 MAX_ADDRESS m) (hpos : 0 < size)
    (hgap : FreeGap m base regionSize size t) :
    ∃ e, searchedArea m base size = some e ∧ max base e.1 ≤ t := by
  have hmax : MAX_ADDRESS < 2 ^ 32 := by decide
  obtain ⟨a, ha, hfree, hle, hend, hbase, -⟩ := hgap
  have hbound := h.bounds ha
  have hreaches : u32 (base + size) ≤ a.1 + a.2.size :=
    Nat.le_trans (u32_le _) (by omega)
  cases hfound : searchedArea m base size with
  | none =>
      unfold searchedArea at hfound
      have hskipped := List.find?_eq_none.mp hfound a ha
      rw [← (h.sound a ha).key, u32_of_lt (show a.1 + a.2.size < 2 ^ 32 by omega)] at hskipped
      simp only [hfree, decide_true, Bool.true_and, Bool.and_eq_true, decide_eq_true_eq, not_and]
        at hskipped
      exact absurd hreaches (hskipped (by omega))
  | some e =>
      refine ⟨e, rfl, ?_⟩
      obtain ⟨l, r, rfl, -, -, -, hbefore⟩ := searchedArea_spec h hfound
      rcases List.mem_append.mp ha with hl | hr
      · have hskipped := hbefore a hl hfree (by omega)
        omega
      · rcases List.mem_cons.mp hr with rfl | hr
        · omega
        · have hbehind := (areas_place.mp h).2.2.2.bounds hr
          omega

/-- The area that the search stops at fits at its lowest part if it fits at all. -/
theorem isLeast_searched (h : Areas 0 MAX_ADDRESS m) (hpos : 0 < size)
    (hfound : searchedArea m base size = some e) (hroom : max base e.1 + size ≤ e.1 + e.2.size)
    (hregion : max base e.1 + size ≤ base + regionSize) :
    IsLeast {t | FreeGap m base regionSize size t} (max base e.1) := by
  obtain ⟨l, r, rfl, hfree, -⟩ := searchedArea_spec h hfound
  refine ⟨⟨e, by simp, hfree, le_max_right _ _, hroom, le_max_left _ _, hregion⟩, ?_⟩
  intro t hgap
  obtain ⟨a, ha, hle⟩ := FreeGap.searched h hpos hgap
  rw [hfound] at ha
  cases ha
  exact hle

/-- What the call does with the area that the search stops at. -/
theorem mapBackingMemoryToBase_searched (h : Consistent M) {memory : MemoryRef}
    {state : MemoryState} (hfound : searchedArea M.vmaMap base size = some e) :
    M.mapBackingMemoryToBase isCached base regionSize memory size state =
      if u32 (base + regionSize) < u32 (max base e.1 + size) then .ok (M, .error .outOfMemory)
      else (do
        let (m, result) ← M.mapBackingMemory isCached (max base e.1) memory size state
        match result with
        | .error code => pure (m, .error code)
        | .ok _ => pure (m, .ok (max base e.1))) := by
  obtain ⟨l, r, hM, -⟩ := searchedArea_spec h.areas hfound
  have hkey : e.1 = e.2.base := (h.areas.sound e (by rw [hM]; simp)).key
  unfold searchedArea at hfound
  unfold VMManager.mapBackingMemoryToBase
  dsimp only at hfound ⊢
  rw [hfound, assert, if_pos h.unlocked, ok_bind, hkey]
  rfl

/-- What a call that maps at the place where the search stops has checked. -/
theorem mapBackingMemoryToBase_ok (h : Consistent M) (hsize : size < 2 ^ 32) {memory : MemoryRef}
    {state : MemoryState} (hfound : searchedArea M.vmaMap base size = some e)
    (hrun : M.mapBackingMemoryToBase isCached base regionSize memory size state =
      .ok (M', .ok t)) :
    t = max base e.1 ∧ pageAligned t ∧ memory.getPtr ≠ 0 ∧
      t + size ≤ u32 (base + regionSize) := by
  have hmax : MAX_ADDRESS < 2 ^ 32 := by decide
  rw [mapBackingMemoryToBase_searched h hfound] at hrun
  split at hrun
  · cases hrun
  · rename_i hregion
    obtain ⟨⟨m, result⟩, hmap, hrest⟩ := bind_eq_ok.mp hrun
    cases result with
    | error code => cases hrest
    | ok k =>
        cases hrest
        obtain ⟨-, hbound, htp, -⟩ := mapBackingMemory_ok h.areas hsize hmap
        simp only [VMManager.mapBackingMemory, bind_eq_ok, assert_eq_ok] at hmap
        obtain ⟨-, -, -, hmem, -⟩ := hmap
        rw [u32_of_lt (show max base e.1 + size < 2 ^ 32 by omega)] at hregion
        exact ⟨rfl, htp, hmem, Nat.le_of_not_lt hregion⟩

theorem exists_isLeast_freeGap (hgap : ∃ t, FreeGap m base regionSize size t) :
    ∃ t, IsLeast {t | FreeGap m base regionSize size t} t := by
  classical
  exact ⟨Nat.find hgap, Nat.find_spec hgap, fun t ht => Nat.find_min' hgap ht⟩

/-- If the area that the search stops at does not fit, a call that is right refuses it. -/
theorem refuses_of_right (h : Consistent M) (hsize : size < 2 ^ 32) (hpos : 0 < size) {memory : MemoryRef}
    {state : MemoryState}
    (hright : FirstFitRight isCached M base regionSize memory size state)
    (hfound : searchedArea M.vmaMap base size = some e)
    (hroom : ¬ (max base e.1 + size ≤ e.1 + e.2.size ∧
      max base e.1 + size ≤ base + regionSize)) :
    u32 (base + regionSize) < u32 (max base e.1 + size) ∧
      ∀ t, ¬ FreeGap M.vmaMap base regionSize size t := by
  have hnone : ∀ t, ¬ FreeGap M.vmaMap base regionSize size t := by
    intro t hgap
    obtain ⟨t, hleast⟩ := exists_isLeast_freeGap ⟨t, hgap⟩
    obtain ⟨M', hrun, -⟩ := hright.maps t hleast
    obtain ⟨rfl, -⟩ := mapBackingMemoryToBase_ok h hsize hfound hrun
    obtain ⟨a, ha, -, hle, hend, -, hregion⟩ := hleast.1
    obtain ⟨l, r, hM, -, hbehind, -⟩ := searchedArea_spec h.areas hfound
    have hareas := h.areas
    rw [hM] at hareas ha
    obtain ⟨hl, harea, -, hr⟩ := areas_place.mp hareas
    rcases List.mem_append.mp ha with ha | ha
    · have hbefore := hl.bounds ha
      omega
    · rcases List.mem_cons.mp ha with rfl | ha
      · exact hroom ⟨hend, hregion⟩
      · have hafter := hr.bounds ha
        omega
  obtain ⟨M', hrun⟩ := hright.full hnone
  refine ⟨?_, hnone⟩
  rw [mapBackingMemoryToBase_searched h hfound] at hrun
  by_contra hregion
  rw [if_neg hregion] at hrun
  obtain ⟨⟨m, result⟩, hmap, hrest⟩ := bind_eq_ok.mp hrun
  cases result with
  | ok k => cases hrest
  | error code =>
      cases hrest
      exact mapBackingMemory_error_ne hmap rfl

/-- The call is right exactly when what the search stops at fits, or is refused for good reason. -/
theorem firstFitRight_iff_searchFits (h : Consistent M) (hsize : size < 2 ^ 32)
    (hpage : pageAligned size) (hpos : 0 < size) (memory : MemoryRef) (state : MemoryState) :
    FirstFitRight isCached M base regionSize memory size state ↔
      SearchFits M.vmaMap base regionSize memory size := by
  have hmax : MAX_ADDRESS < 2 ^ 32 := by decide
  constructor
  · intro hright
    obtain ⟨e, hfound⟩ := Option.isSome_iff_exists.mp hright.stops
    refine ⟨e, hfound, ?_⟩
    split
    · rename_i hroom
      obtain ⟨M', hrun, -⟩ :=
        hright.maps _ (isLeast_searched h.areas hpos hfound hroom.1 hroom.2)
      exact (mapBackingMemoryToBase_ok h hsize hfound hrun).2
    · rename_i hroom
      obtain ⟨hregion, hnone⟩ := refuses_of_right h hsize hpos hright hfound hroom
      exact ⟨hregion, fun _ => hnone⟩
  · rintro ⟨e, hfound, hfits⟩
    have hcall := @mapBackingMemoryToBase_searched isCached M e base regionSize size h memory state
      hfound
    have hnone : u32 (base + regionSize) < u32 (max base e.1 + size) ∧ (2 ^ 32 ≤ base + regionSize →
        ∀ t, ¬ FreeGap M.vmaMap base regionSize size t) →
          ∀ t, ¬ FreeGap M.vmaMap base regionSize size t := by
      rintro ⟨hregion, hwraps⟩ t hgap
      rcases Nat.lt_or_ge (base + regionSize) (2 ^ 32) with hlt | hge
      · obtain ⟨e', hfound', hle⟩ := FreeGap.searched h.areas hpos hgap
        rw [hfound] at hfound'
        cases hfound'
        have hcut := u32_le (max base e.1 + size)
        rw [u32_of_lt hlt] at hregion
        obtain ⟨-, -, -, -, -, -, hend⟩ := hgap
        omega
      · exact hwraps hge t hgap
    refine ⟨Option.isSome_iff_exists.mpr ⟨e, hfound⟩, ?_, ?_⟩
    · intro t hleast
      split at hfits
      · rename_i hroom
        obtain ⟨htp, hmem, hregion⟩ := hfits
        have htarget := isLeast_searched h.areas hpos hfound hroom.1 hroom.2
        obtain rfl : t = max base e.1 :=
          Nat.le_antisymm (hleast.2 htarget.1) (htarget.2 hleast.1)
        obtain ⟨l, r, hM, hfree, -⟩ := searchedArea_spec h.areas hfound
        obtain ⟨M', k, hmap⟩ := mapBackingMemory_free isCached h hM hfree hmem htp
          hpage hpos (le_max_right _ _) hroom.1 state
        have hrewrites := mapBackingMemory_rewrites h hsize hmap
        refine ⟨M', ?_, (hrewrites.1 ⟨k, rfl⟩).2⟩
        have hle := u32_le (max base e.1 + size)
        rw [hcall, if_neg (by omega), hmap]
        rfl
      · exact absurd hleast.1 (hnone hfits t)
    · intro hnone
      split at hfits
      · rename_i hroom
        exact absurd (isLeast_searched h.areas hpos hfound hroom.1 hroom.2).1 (hnone _)
      · exact ⟨M, by rw [hcall, if_pos hfits.1]⟩

end Search

/-! ## Runs -/

/-- In every state that a run from `Reset` reaches, memory is mapped at the lowest gap that fits
exactly when the first free area that ends late enough is one that has it, or there is none. -/
theorem firstFitRight_iff (isCached : ℕ → Bool) (m s₀ s : VMManager)
    (h₀ : m.reset isCached = .ok s₀) (hs : Reachable (VMCall.step isCached) s₀ s)
    (base regionSize size : UInt32) (memory : MemoryRef) (state : MemoryState)
    (hpage : pageAligned size.toNat) (hpos : 0 < size.toNat) :
    FirstFitRight isCached s base.toNat regionSize.toNat memory size.toNat state ↔
      SearchFits s.vmaMap base.toNat regionSize.toNat memory size.toNat :=
  firstFitRight_iff_searchFits (consistent_invariant h₀ hs) size.toNat_lt hpage hpos memory state

/-- A page in a cleared address space. -/
theorem firstFitRight_iff_reset :
    ∃ s₀, VMManager.reset (fun _ => false) ⟨[], .clear, false⟩ = .ok s₀ ∧
      (FirstFitRight (fun _ => false) s₀ 0x04000000 0x04000000 ⟨some ⟨0x10000, 0x1000⟩, 0⟩ 0x1000
          .shared ↔
        SearchFits s₀.vmaMap 0x04000000 0x04000000 ⟨some ⟨0x10000, 0x1000⟩, 0⟩ 0x1000) := by
  obtain ⟨pt, hpt⟩ := reset_exists (fun _ => false) ⟨[], .clear, false⟩ rfl
  exact ⟨_, hpt, firstFitRight_iff _ _ _ _ hpt (Reachable.refl _) 0x04000000 0x04000000 0x1000
    ⟨some ⟨0x10000, 0x1000⟩, 0⟩ .shared (by decide) (by decide)⟩

/-- Two buffers with a page between them. -/
def smallGapCalls : List VMCall :=
  [.mapBackingMemory 0x04000000 ⟨some ⟨0x10000, 0x2000⟩, 0⟩ 0x2000 .shared,
    .mapBackingMemory 0x04003000 ⟨some ⟨0x20000, 0x1000⟩, 0⟩ 0x1000 .shared]

/-- Between them there is no room for two pages, and the rest of the region is not looked at. -/
theorem smallGap_not_right :
    ∃ s₀ s, VMManager.reset (fun _ => false) ⟨[], .clear, false⟩ = .ok s₀ ∧
      run (VMCall.step fun _ => false) s₀ smallGapCalls = .ok s ∧
        ¬ FirstFitRight (fun _ => false) s 0x04000000 0x04000000 ⟨some ⟨0x30000, 0x2000⟩, 0⟩ 0x2000
          .shared := by
  obtain ⟨pt, hpt⟩ := reset_exists (fun _ => false) ⟨[], .clear, false⟩ rfl
  have hrun : (run (VMCall.step fun _ => false) ⟨[(0, VMManager.initialVma)], pt, false⟩
      smallGapCalls).map (fun s => s.vmaMap.map fun e => (e.1, (⟨e.2.base, e.2.size, e.2.type,
        e.2.permissions, e.2.meminfoState, e.2.backingMemory⟩ : VirtualMemoryArea))) =
      .ok [(0, ⟨0, 0x04000000, .free, .none, .free, .null⟩),
        (0x04000000, ⟨0x04000000, 0x2000, .backingMemory, .readWrite, .shared,
          ⟨some ⟨0x10000, 0x2000⟩, 0⟩⟩),
        (0x04002000, ⟨0x04002000, 0x1000, .free, .none, .free, .null⟩),
        (0x04003000, ⟨0x04003000, 0x1000, .backingMemory, .readWrite, .shared,
          ⟨some ⟨0x20000, 0x1000⟩, 0⟩⟩),
        (0x04004000, ⟨0x04004000, 0x40000000 - 0x04004000, .free, .none, .free, .null⟩)] := rfl
  cases hend : run (VMCall.step fun _ => false) ⟨[(0, VMManager.initialVma)], pt, false⟩
      smallGapCalls with
  | error fault =>
      rw [hend] at hrun
      cases hrun
  | ok s =>
      rw [hend] at hrun
      have hmap : s.vmaMap = _ := (List.map_id s.vmaMap).symm.trans (Except.ok.inj hrun)
      refine ⟨_, s, hpt, hend, fun hright => ?_⟩
      have hconsistent := consistent_invariant hpt ⟨_, hend⟩
      obtain ⟨e, hfound, hfits⟩ :=
        (firstFitRight_iff_searchFits hconsistent (by decide) (by decide) (by decide) _ _).mp hright
      rw [hmap] at hfound hfits
      obtain rfl := Option.some.inj hfound
      rw [if_neg (by decide)] at hfits
      exact absurd hfits.1 (by decide)

end Borked3DS.Analysis
