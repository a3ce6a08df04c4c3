import Borked3DS.Analysis.VMManagerInvariant
import Borked3DS.Interface.MappingEffects

/-!
# Mapping blocks and protecting them

One round of the loops that map the blocks of an allocation: which addresses outside of the new
mapping it protects along with it. Then the whole loop, by induction over the blocks.
-/

set_option autoImplicit false

namespace Borked3DS.Analysis

open Borked3DS.Library Borked3DS.Model Borked3DS.Interface VMAMap

/-! ## How far a round reaches -/

section Reach

variable {edit : VirtualMemoryArea → VirtualMemoryArea} {g : ℕ → PageView → PageView}
  {l r : VMAMap} {e : Entry}

/-- The area that a round leaves reaches over the next one if the rewritten flat map runs on. -/
theorem absorbNext_reach (h : Areas 0 MAX_ADDRESS (l ++ e :: r)) :
    (absorbNext e r).1.1 = e.1 ∧ e.2.size ≤ (absorbNext e r).1.2.size ∧
      (e.2.size < (absorbNext e r).1.2.size ↔
        (view (l ++ e :: r)).ContinuesAt (e.1 + e.2.size)) := by
  obtain ⟨-, hpos, -, hr⟩ := areas_place.mp h
  cases r with
  | nil =>
    refine ⟨rfl, le_rfl, iff_of_false (lt_irrefl _) ?_⟩
    rintro ⟨v, w, -, hw, -⟩
    rw [view_of_ge h (Nat.le_of_eq (areas_nil.mp hr).symm)] at hw
    cases hw
  | cons n r =>
    obtain ⟨hk, hnpos, -, -⟩ := areas_cons.mp hr
    have hmerge := mergeable_place h
    rw [hk] at hmerge
    simp only [absorbNext]
    split
    next hm =>
      refine ⟨rfl, Nat.le_add_right _ _, iff_of_true ?_ (hmerge.mp hm)⟩
      simp only [fused]
      omega
    next hm => exact ⟨rfl, le_rfl, iff_of_false (lt_irrefl _) fun hc => hm (hmerge.mpr hc)⟩

/-- It reaches over the previous one likewise, and ends where it did. -/
theorem absorbPrev_reach {a : Entry} (h : Areas 0 MAX_ADDRESS (l.reverse ++ e :: r))
    (hsame : ∀ c : VirtualMemoryArea, c.mergeable a.2 = c.mergeable e.2) (ha : a.1 = e.1) :
    (absorbPrev a l).2.1 ≤ e.1 ∧
      (absorbPrev a l).2.1 + (absorbPrev a l).2.2.size = e.1 + a.2.size ∧
      ((absorbPrev a l).2.1 < e.1 ↔
        0 < e.1 ∧ (view (l.reverse ++ e :: r)).ContinuesAt e.1) := by
  cases l with
  | nil =>
    have hfirst : e.1 = 0 := (areas_cons.mp h).1
    refine ⟨Nat.le_of_eq ha, by simp [absorbPrev, ha], iff_of_false ?_ ?_⟩
    · simp [absorbPrev, ha]
    · rintro ⟨hpos, -⟩
      omega
  | cons q l =>
    have hassoc : (q :: l).reverse ++ e :: r = l.reverse ++ q :: e :: r := by simp
    rw [hassoc] at h ⊢
    obtain ⟨hl, hqpos, -, hrest⟩ := areas_place.mp h
    have hk := (areas_cons.mp hrest).1
    have hmerge := mergeable_place h
    simp only [absorbPrev]
    split
    next hm =>
      rw [hsame] at hm
      have hlt : q.1 < e.1 := by omega
      refine ⟨Nat.le_of_lt hlt, ?_, iff_of_true hlt ⟨by omega, hmerge.mp hm⟩⟩
      simp only [fused]
      omega
    next hm =>
      rw [hsame] at hm
      refine ⟨Nat.le_of_eq ha, by simp [ha], iff_of_false ?_ fun hc => hm (hmerge.mpr hc.2)⟩
      simp [ha]

/-- The extent of the area that a round leaves: it holds the rewritten area, and more of either side
exactly where the rewritten flat map runs on. -/
theorem visit_reach (he : Rewrites g e.2 (edit e.2))
    (h : Areas 0 MAX_ADDRESS (l.reverse ++ e :: r)) :
    (visit edit l e r).2.1.1 ≤ e.1 ∧
      e.1 + e.2.size ≤ (visit edit l e r).2.1.1 + (visit edit l e r).2.1.2.size ∧
      ((visit edit l e r).2.1.1 < e.1 ↔
        0 < e.1 ∧ (view (l.reverse ++ (e.1, edit e.2) :: r)).ContinuesAt e.1) ∧
      (e.1 + e.2.size < (visit edit l e r).2.1.1 + (visit edit l e r).2.1.2.size ↔
        (view (l.reverse ++ (e.1, edit e.2) :: r)).ContinuesAt (e.1 + e.2.size)) := by
  have hedited := edit_areas he h
  have hsize : (edit e.2).size = e.2.size := he.size
  obtain ⟨hkey, hle, hnext⟩ := absorbNext_reach hedited
  have hsame : ∀ c : VirtualMemoryArea,
      c.mergeable (absorbNext (e.1, edit e.2) r).1.2 = c.mergeable (edit e.2) := by
    intro c
    cases r with
    | nil => rfl
    | cons n r =>
      simp only [absorbNext]
      split
      · exact mergeable_fused_left
      · rfl
  obtain ⟨hfirst, hend, hprev⟩ := absorbPrev_reach hedited hsame hkey
  simp only [hsize] at hle hnext hend
  simp only [visit]
  rw [hend]
  refine ⟨hfirst, by omega, hprev, ?_⟩
  rw [← hnext]
  exact Nat.add_lt_add_iff_left

end Reach

/-! ## One block -/

section Round

variable {isCached : ℕ → Bool} {M M₁ M₂ : VMManager} {t n k k' : ℕ} {memory : MemoryRef}
  {state : MemoryState} {perms : VMAPermission}

/-- An address is mapped in a state, for reading and writing. -/
def MappedReadWrite (M : VMManager) (state : MemoryState) (p : ℕ) : Prop :=
  ∃ host, M.vmaMap.view p = some (readWriteView state host)

theorem MappedReadWrite.permissionsAt {p : ℕ} (h : MappedReadWrite M state p) :
    permissionsAt M p = some .readWrite := by
  obtain ⟨host, hview⟩ := h
  unfold Interface.permissionsAt
  rw [hview]
  rfl

/-- What one round of mapping and protecting has done: it mapped `[t, t + n)`, which was free, and
protected all of `[lo, hi)`, of which the rest was mapped for reading and writing before. -/
structure MappedRound (M : VMManager) (t n : ℕ) (memory : MemoryRef) (state : MemoryState)
    (perms : VMAPermission) (lo hi : ℕ) (M' : VMManager) : Prop where
  consistent : Consistent M'
  pos : 0 < n
  bound : t + n ≤ MAX_ADDRESS
  lo_le : lo ≤ t
  le_hi : t + n ≤ hi
  free : ∀ p, t ≤ p → p < t + n → ∃ v, M.vmaMap.view p = some v ∧ v.type = .free
  before : lo < t ↔ JoinsBefore M.vmaMap.view state t memory.getPtr
  after : t + n < hi ↔ JoinsAfter M.vmaMap.view state (t + n) (memory.getPtr + n)
  readWrite : ∀ p, lo ≤ p → p < hi → ¬ (t ≤ p ∧ p < t + n) → MappedReadWrite M state p
  inside : ∀ p, t ≤ p → p < t + n → M'.vmaMap.view p =
    some { readWriteView state (memory.getPtr + (p - t)) with permissions := perms }
  beside : ∀ p, lo ≤ p → p < hi → ¬ (t ≤ p ∧ p < t + n) → M'.vmaMap.view p =
    (M.vmaMap.view p).map fun v => { v with permissions := perms }
  outside : ∀ p, ¬ (lo ≤ p ∧ p < hi) → M'.vmaMap.view p = M.vmaMap.view p

theorem continues_readWriteView_iff {v : PageView} {host : ℕ} :
    v.Continues (readWriteView state host) ↔
      ∃ before, before + 1 = host ∧ v = readWriteView state before := by
  obtain ⟨type, permissions, meminfoState, backing⟩ := v
  constructor
  · rintro ⟨hpermissions, hstate, htype, hbacking⟩
    obtain ⟨before, hbefore, hnext⟩ := Option.map_eq_some_iff.mp hbacking
    refine ⟨before, hnext, ?_⟩
    simp_all [readWriteView]
  · rintro ⟨before, rfl, hv⟩
    cases hv
    exact ⟨rfl, rfl, rfl, rfl⟩

theorem readWriteView_continues_iff {w : PageView} {host : ℕ} :
    (readWriteView state host).Continues w ↔ w = readWriteView state (host + 1) := by
  obtain ⟨type, permissions, meminfoState, backing⟩ := w
  constructor
  · rintro ⟨rfl, rfl, rfl, rfl⟩
    rfl
  · intro hw
    cases hw
    exact ⟨rfl, rfl, rfl, rfl⟩

/-- Where the flat map runs on into a fresh mapping, the memory before it continues there. -/
theorem continuesAt_start_iff {f : PageMap} {v : PageView} (hn : 0 < n) (ht : f t = some v) :
    (0 < t ∧ (PageMap.updateRange f t n fun p _ => mappedView t memory state p).ContinuesAt t) ↔
      JoinsBefore f state t memory.getPtr := by
  have hstart : PageMap.updateRange f t n (fun p _ => mappedView t memory state p) t =
      some (readWriteView state memory.getPtr) := by
    unfold PageMap.updateRange
    rw [if_pos ⟨le_rfl, by omega⟩, ht]
    simp [mappedView, readWriteView]
  unfold PageMap.ContinuesAt JoinsBefore
  rw [hstart]
  constructor
  · rintro ⟨hpos, v, w, hv, hw, hcont⟩
    obtain rfl := Option.some.inj hw
    obtain ⟨before, hnext, rfl⟩ := continues_readWriteView_iff.mp hcont
    unfold PageMap.updateRange at hv
    rw [if_neg (by omega)] at hv
    exact ⟨before, hpos, hnext, hv⟩
  · rintro ⟨before, hpos, hnext, hbefore⟩
    refine ⟨hpos, _, _, ?_, rfl, continues_readWriteView_iff.mpr ⟨before, hnext, rfl⟩⟩
    unfold PageMap.updateRange
    rw [if_neg (by omega), hbefore]

/-- Where it runs on behind the mapping, the mapping is continued there. -/
theorem continuesAt_end_iff {f : PageMap} {v : PageView} (hn : 0 < n)
    (ht : f (t + n - 1) = some v) :
    (PageMap.updateRange f t n fun p _ => mappedView t memory state p).ContinuesAt (t + n) ↔
      JoinsAfter f state (t + n) (memory.getPtr + n) := by
  have hlast : PageMap.updateRange f t n (fun p _ => mappedView t memory state p) (t + n - 1) =
      some (readWriteView state (memory.getPtr + (n - 1))) := by
    unfold PageMap.updateRange
    rw [if_pos (by omega), ht]
    simp only [Option.map_some, mappedView, readWriteView, Option.some.injEq, PageView.mk.injEq,
      true_and]
    omega
  have hnext : PageMap.updateRange f t n (fun p _ => mappedView t memory state p) (t + n) =
      f (t + n) := if_neg (by omega)
  have hhost : memory.getPtr + (n - 1) + 1 = memory.getPtr + n := by omega
  unfold PageMap.ContinuesAt JoinsAfter
  rw [hlast, hnext, ← hhost]
  constructor
  · rintro ⟨v, w, hv, hw, hcont⟩
    obtain rfl := Option.some.inj hv
    rw [hw, readWriteView_continues_iff.mp hcont]
  · intro hw
    exact ⟨_, _, rfl, hw, readWriteView_continues_iff.mpr rfl⟩

theorem mappedRound_of_ok (h : Consistent M) (hn : n < 2 ^ 32)
    (hmap : M.mapBackingMemory isCached t memory n state = .ok (M₁, .ok k))
    (hprotect : M₁.reprotect isCached k perms = .ok (M₂, k')) :
    ∃ lo hi, MappedRound M t n memory state perms lo hi M₂ := by
  have hcons₁ := (mapBackingMemory_invariant h hn hmap).1
  have hview₁ := ((mapBackingMemory_rewrites h hn hmap).1 ⟨k, rfl⟩).2
  obtain ⟨hpos, hbound, -, -, l, a, r, pt, hfree, hsize, hcarved, hM₁, rfl⟩ :=
    mapBackingMemory_ok h.areas hn hmap
  have hareas : Areas 0 MAX_ADDRESS (l.reverse.reverse ++ (t, a) :: r) := by
    simpa using hcarved.areas
  have hcarvedView : view (l.reverse.reverse ++ (t, a) :: r) = M.vmaMap.view := by
    simpa using hcarved.same
  have hbase : a.base = t := (hareas.sound (t, a) (by simp)).key.symm
  have hedit := mapped_rewrites hbase memory state
  -- the area that is left there, and what it covers
  generalize hmerged : (visit (mapped memory state) l.reverse (t, a) r).2.1 = merged at hM₁ hprotect
  obtain ⟨hlo, hhi, hbefore, hafter⟩ := visit_reach hedit hareas
  have hplace : M₁.vmaMap = (visit (mapped memory state) l.reverse (t, a) r).1.reverse ++
      merged :: (visit (mapped memory state) l.reverse (t, a) r).2.2 := by
    rw [hM₁, ← hmerged]
    rfl
  have hfresh : view (l.reverse.reverse ++ (t, mapped memory state a) :: r) =
      PageMap.updateRange M.vmaMap.view t n fun p _ => mappedView t memory state p := by
    funext p
    have hedited := edit_view (p := p) hedit hareas
    rw [hcarvedView, hsize] at hedited
    exact hedited
  rw [hmerged] at hlo hhi hbefore hafter
  rw [hfresh] at hbefore hafter
  simp only [hsize] at hhi hafter
  have hareas₁ := hcons₁.areas
  rw [hplace] at hareas₁
  -- the area that `Reprotect` finds under the handle is that one
  obtain ⟨l₂, a₂, r₂, pt₂, hplace₂, hM₂⟩ := reprotect_ok hcons₁.areas hprotect
  have hareas₂ : Areas 0 MAX_ADDRESS (l₂.reverse.reverse ++ (merged.1, a₂) :: r₂) := by
    simpa [← hplace₂] using hcons₁.areas
  obtain rfl : a₂ = merged.2 := by
    have hderef₁ := deref_place hareas₁.sorted
    have hderef₂ := deref_place hareas₂.sorted
    rw [← hplace] at hderef₁
    rw [List.reverse_reverse, ← hplace₂] at hderef₂
    exact Except.ok.inj (hderef₂.symm.trans hderef₁)
  have hview₂ : ∀ p, M₂.vmaMap.view p = if merged.1 ≤ p ∧ p < merged.1 + merged.2.size then
      (M₁.vmaMap.view p).map (fun v => { v with permissions := perms })
      else M₁.vmaMap.view p := by
    intro p
    have hvisit := visit_view (p := p) ((reprotected_pageEdit perms).rewrites merged.2) hareas₂
    rw [List.reverse_reverse, ← hplace₂] at hvisit
    rw [hM₂]
    exact hvisit
  have hinside : ∀ p, merged.1 ≤ p → p < merged.1 + merged.2.size →
      M₁.vmaMap.view p = some (merged.2.viewAt p) := by
    intro p hle hlt
    rw [hplace]
    exact view_place hareas₁ hle hlt
  have hwasFree : ∀ p, t ≤ p → p < t + n → ∃ v, M.vmaMap.view p = some v ∧ v.type = .free := by
    intro p hle hlt
    refine ⟨a.viewAt p, ?_, hfree⟩
    rw [← hcarvedView]
    exact view_place hareas hle (by rw [hsize]; exact hlt)
  obtain ⟨first, hfirst, -⟩ := hwasFree t le_rfl (by omega)
  obtain ⟨last, hlast, -⟩ := hwasFree (t + n - 1) (by omega) (by omega)
  rw [continuesAt_start_iff hpos hfirst] at hbefore
  rw [continuesAt_end_iff hpos hlast] at hafter
  have hmapped : ∀ p, t ≤ p → p < t + n → M₁.vmaMap.view p =
      some (readWriteView state (memory.getPtr + (p - t))) := by
    intro p hle hlt
    obtain ⟨v, hv, -⟩ := hwasFree p hle hlt
    rw [hview₁, PageMap.updateRange, if_pos ⟨hle, hlt⟩, hv]
    rfl
  have hkept : ∀ p, ¬ (t ≤ p ∧ p < t + n) → M₁.vmaMap.view p = M.vmaMap.view p := by
    intro p hp
    rw [hview₁]
    exact if_neg hp
  have hreadWrite : ∀ p, ∃ host, merged.2.viewAt p = readWriteView state host := by
    intro p
    have hstart := (hinside t hlo (by omega)).symm.trans (hmapped t le_rfl (by omega))
    obtain ⟨htype, hpermissions, hstate, -⟩ := PageView.mk.inj (Option.some.inj hstart)
    refine ⟨merged.2.backingMemory.getPtr + (p - merged.2.base), ?_⟩
    simp only [VirtualMemoryArea.viewAt, readWriteView, PageView.mk.injEq]
    exact ⟨htype, hpermissions, hstate, by rw [htype]⟩
  refine ⟨merged.1, merged.1 + merged.2.size, {
    consistent := (reprotect_invariant hcons₁ hprotect).1
    pos := hpos
    bound := hbound
    lo_le := hlo
    le_hi := hhi
    free := hwasFree
    before := hbefore
    after := hafter
    readWrite := ?_
    inside := ?_
    beside := ?_
    outside := ?_ }⟩
  · intro p hle hlt hp
    obtain ⟨host, hview⟩ := hreadWrite p
    refine ⟨host, ?_⟩
    rw [← hkept p hp, hinside p hle hlt, hview]
  · intro p hle hlt
    rw [hview₂, if_pos (by omega), hmapped p hle hlt]
    rfl
  · intro p hle hlt hp
    rw [hview₂, if_pos ⟨hle, hlt⟩, hkept p hp]
  · intro p hp
    rw [hview₂, if_neg hp, hkept p (by omega)]

end Round

/-! ## All blocks -/

section Blocks

variable {isCached : ℕ → Bool} {M M' : VMManager} {t : ℕ} {state : MemoryState}
  {perms : VMAPermission} {blocks : List (MemoryRef × ℕ)}

/-- What mapping blocks and protecting them has done: they are mapped at `t`, one after the other,
and outside of them some memory that was mapped for reading and writing may be protected too. -/
structure MapsBlocks (M : VMManager) (t : ℕ) (blocks : List (MemoryRef × ℕ)) (state : MemoryState)
    (perms : VMAPermission) (M' : VMManager) : Prop where
  consistent : Consistent M'
  bound : blocks ≠ [] → t + blocksSize blocks ≤ MAX_ADDRESS
  free : ∀ p, t ≤ p → p < t + blocksSize blocks → ∃ v, M.vmaMap.view p = some v ∧ v.type = .free
  inside : ∀ p, t ≤ p → p < t + blocksSize blocks → ∃ host, hostAt blocks (p - t) = some host ∧
    M'.vmaMap.view p = some { readWriteView state host with permissions := perms }
  outside : ∀ p, ¬ (t ≤ p ∧ p < t + blocksSize blocks) → M'.vmaMap.view p = M.vmaMap.view p ∨
    MappedReadWrite M state p ∧
      M'.vmaMap.view p = (M.vmaMap.view p).map fun v => { v with permissions := perms }

theorem blocksSize_cons (block : MemoryRef × ℕ) (blocks : List (MemoryRef × ℕ)) :
    blocksSize (block :: blocks) = block.2 + blocksSize blocks := by simp [blocksSize]

/-- The first round, and the rest from where it ends. -/
theorem mapBlocks_cons_ok {block : MemoryRef × ℕ} (h : Consistent M) (hsize : block.2 < 2 ^ 32)
    (hc : mapBlocks isCached state perms (block :: blocks) t M = .ok M') :
    ∃ lo hi M₁, MappedRound M t block.2 block.1 state perms lo hi M₁ ∧
      mapBlocks isCached state perms blocks (t + block.2) M₁ = .ok M' := by
  unfold mapBlocks at hc
  obtain ⟨⟨M₁, mapped⟩, hmap, hc⟩ := bind_eq_ok.mp hc
  cases mapped with
  | error _ => cases hc
  | ok k =>
    obtain ⟨⟨M₂, k'⟩, hprotect, hrest⟩ := bind_eq_ok.mp hc
    obtain ⟨lo, hi, hround⟩ := mappedRound_of_ok h hsize hmap hprotect
    have hbound := hround.bound
    have hmax : MAX_ADDRESS < 2 ^ 32 := by decide
    rw [u32_of_lt (by omega)] at hrest
    exact ⟨lo, hi, M₂, hround, hrest⟩

/-- A round leaves an address outside of its mapping alone or protects it. -/
theorem MappedRound.outside_cases {n lo hi : ℕ} {memory : MemoryRef} {p : ℕ}
    (h : MappedRound M t n memory state perms lo hi M') (hp : ¬ (t ≤ p ∧ p < t + n)) :
    M'.vmaMap.view p = M.vmaMap.view p ∨ MappedReadWrite M state p ∧
      M'.vmaMap.view p = (M.vmaMap.view p).map fun v => { v with permissions := perms } := by
  by_cases hin : lo ≤ p ∧ p < hi
  · exact Or.inr ⟨h.readWrite p hin.1 hin.2 hp, h.beside p hin.1 hin.2 hp⟩
  · exact Or.inl (h.outside p hin)

/-- An address that is left alone or protected, twice, is left alone or protected. -/
theorem protected_trans {M₁ M₂ M₃ : VMManager} {p : ℕ}
    (h₁ : M₂.vmaMap.view p = M₁.vmaMap.view p ∨ MappedReadWrite M₁ state p ∧
      M₂.vmaMap.view p = (M₁.vmaMap.view p).map fun v => { v with permissions := perms })
    (h₂ : M₃.vmaMap.view p = M₂.vmaMap.view p ∨ MappedReadWrite M₂ state p ∧
      M₃.vmaMap.view p = (M₂.vmaMap.view p).map fun v => { v with permissions := perms }) :
    M₃.vmaMap.view p = M₁.vmaMap.view p ∨ MappedReadWrite M₁ state p ∧
      M₃.vmaMap.view p = (M₁.vmaMap.view p).map fun v => { v with permissions := perms } := by
  rcases h₁ with h₁ | ⟨hreadWrite, h₁⟩
  · rcases h₂ with h₂ | ⟨hreadWrite, h₂⟩
    · exact Or.inl (h₂.trans h₁)
    · unfold MappedReadWrite at hreadWrite ⊢
      rw [h₁] at hreadWrite h₂
      exact Or.inr ⟨hreadWrite, h₂⟩
  · refine Or.inr ⟨hreadWrite, ?_⟩
    rcases h₂ with h₂ | ⟨-, h₂⟩
    · exact h₂.trans h₁
    · rw [h₂, h₁, Option.map_map]
      rfl

theorem mapBlocks_spec (h : Consistent M) (hsize : ∀ block ∈ blocks, block.2 < 2 ^ 32)
    (hc : mapBlocks isCached state perms blocks t M = .ok M') :
    MapsBlocks M t blocks state perms M' := by
  induction blocks generalizing M t with
  | nil =>
    obtain rfl := Except.ok.inj hc
    have hnone : ∀ p, t ≤ p → ¬ p < t + blocksSize [] := by
      intro p hle hlt
      exact absurd hlt (Nat.not_lt.mpr hle)
    exact ⟨h, fun hne => absurd rfl hne, fun p hle hlt => absurd hlt (hnone p hle),
      fun p hle hlt => absurd hlt (hnone p hle), fun p _ => Or.inl rfl⟩
  | cons block blocks ih =>
    obtain ⟨lo, hi, M₁, hround, hrest⟩ := mapBlocks_cons_ok h (hsize block (by simp)) hc
    have htail := ih hround.consistent (fun b hb => hsize b (by simp [hb])) hrest
    have hbound := hround.bound
    have htotal := blocksSize_cons block blocks
    refine ⟨htail.consistent, ?_, ?_, ?_, ?_⟩
    · intro _
      cases blocks with
      | nil =>
        rw [htotal]
        exact hbound
      | cons second blocks =>
        have := htail.bound (List.cons_ne_nil _ _)
        omega
    · intro p hle hlt
      by_cases hfirst : p < t + block.2
      · exact hround.free p hle hfirst
      · obtain ⟨v, hv, htype⟩ := htail.free p (by omega) (by omega)
        rcases hround.outside_cases (p := p) (by omega) with hsame | ⟨-, hsame⟩
        · exact ⟨v, hsame ▸ hv, htype⟩
        · rw [hsame] at hv
          obtain ⟨w, hw, rfl⟩ := Option.map_eq_some_iff.mp hv
          exact ⟨w, hw, htype⟩
    · intro p hle hlt
      by_cases hfirst : p < t + block.2
      · refine ⟨block.1.getPtr + (p - t), if_pos (by omega), ?_⟩
        have hmapped := hround.inside p hle hfirst
        rcases htail.outside p (by omega) with hsame | ⟨-, hsame⟩
        · rw [hsame, hmapped]
        · rw [hsame, hmapped]
          rfl
      · obtain ⟨host, hhost, hview⟩ := htail.inside p (by omega) (by omega)
        refine ⟨host, ?_, hview⟩
        have hoffset : p - t - block.2 = p - (t + block.2) := by omega
        unfold hostAt
        rw [if_neg (by omega), hoffset, hhost]
    · intro p hp
      have hround' := hround.outside_cases (p := p) (by omega)
      have htail' := htail.outside p (by omega)
      exact protected_trans hround' htail'

/-- Protecting what was mapped for reading and writing for just that changes nothing. -/
theorem MapsBlocks.keeps_readWrite (h : MapsBlocks M t blocks state .readWrite M') :
    KeepsPermissions M M' (Set.Ico t (t + blocksSize blocks)) := by
  intro p hp
  unfold permissionsAt
  rcases h.outside p hp with hsame | ⟨hreadWrite, hsame⟩
  · rw [hsame]
  · obtain ⟨host, hview⟩ := hreadWrite
    rw [hsame, hview]
    rfl

/-- A mapping that joins the memory before it protects the address before it. -/
theorem MappedRound.joined_before {n lo hi : ℕ} {memory : MemoryRef}
    (h : MappedRound M t n memory state perms lo hi M') (hlt : lo < t) :
    permissionsAt M (t - 1) = some .readWrite ∧ permissionsAt M' (t - 1) = some perms := by
  have hbound := h.le_hi
  have hreadWrite := h.readWrite (t - 1) (by omega) (by omega) (by omega)
  refine ⟨hreadWrite.permissionsAt, ?_⟩
  obtain ⟨host, hv⟩ := hreadWrite
  unfold permissionsAt
  rw [h.beside (t - 1) (by omega) (by omega) (by omega), hv]
  rfl

/-- One that joins the memory behind it protects the address behind it. -/
theorem MappedRound.joined_after {n lo hi : ℕ} {memory : MemoryRef}
    (h : MappedRound M t n memory state perms lo hi M') (hlt : t + n < hi) :
    permissionsAt M (t + n) = some .readWrite ∧ permissionsAt M' (t + n) = some perms := by
  have hle := h.lo_le
  have hreadWrite := h.readWrite (t + n) (by omega) hlt (by omega)
  refine ⟨hreadWrite.permissionsAt, ?_⟩
  obtain ⟨host, hv⟩ := hreadWrite
  unfold permissionsAt
  rw [h.beside (t + n) (by omega) hlt (by omega), hv]
  rfl

/-- Once an address has other permissions than reading and writing, the blocks behind leave them. -/
theorem MapsBlocks.keeps_protected {p : ℕ} (h : MapsBlocks M t blocks state perms M')
    (hperms : perms ≠ .readWrite) (hp : ¬ (t ≤ p ∧ p < t + blocksSize blocks))
    (hprotected : permissionsAt M p = some perms) : permissionsAt M' p = some perms := by
  rcases h.outside p hp with hsame | ⟨hreadWrite, -⟩
  · unfold permissionsAt
    rw [hsame]
    exact hprotected
  · have hsame := hreadWrite.permissionsAt
    rw [hprotected] at hsame
    exact absurd (Option.some.inj hsame) hperms

/-- Some memory is mapped if there is a block. -/
theorem mapBlocks_pos {block : MemoryRef × ℕ} (h : Consistent M)
    (hsize : ∀ b ∈ block :: blocks, b.2 < 2 ^ 32)
    (hc : mapBlocks isCached state perms (block :: blocks) t M = .ok M') :
    0 < blocksSize (block :: blocks) := by
  obtain ⟨lo, hi, M₁, hround, -⟩ := mapBlocks_cons_ok h (hsize block (by simp)) hc
  rw [blocksSize_cons]
  exact Nat.add_pos_left hround.pos _

/-- A single block. -/
theorem mapBlock_keeps_iff {block : MemoryRef × ℕ} {lo hi : ℕ} {M₁ : VMManager}
    (hperms : perms ≠ .readWrite)
    (hround : MappedRound M t block.2 block.1 state perms lo hi M₁)
    (hc : mapBlocks isCached state perms [] (t + block.2) M₁ = .ok M') :
    KeepsPermissions M M' (Set.Ico t (t + blocksSize [block])) ↔
      StandsApart M.vmaMap.view state t [block] := by
  obtain rfl := Except.ok.inj hc
  have htotal : blocksSize [block] = block.2 := by simp [blocksSize]
  unfold StandsApart
  simp only [List.head?_cons, Option.mem_some_iff, forall_eq', List.getLast?_singleton, htotal]
  rw [← hround.before, ← hround.after]
  constructor
  · intro hkeeps
    constructor
    · intro hlt
      obtain ⟨hreadWrite, hprotected⟩ := hround.joined_before hlt
      have hsame := hkeeps (t - 1) (by simp only [Set.mem_Ico]; omega)
      rw [hreadWrite, hprotected] at hsame
      exact hperms (Option.some.inj hsame)
    · intro hlt
      obtain ⟨hreadWrite, hprotected⟩ := hround.joined_after hlt
      have hsame := hkeeps (t + block.2) (by simp only [Set.mem_Ico]; omega)
      rw [hreadWrite, hprotected] at hsame
      exact hperms (Option.some.inj hsame)
  · rintro ⟨hlo, hhi⟩ p hp
    simp only [Set.mem_Ico] at hp
    unfold permissionsAt
    rw [hround.outside p (by omega)]

/-- With other permissions than reading and writing, the memory outside keeps its permissions
exactly when the blocks join nothing there. Between two blocks nothing is joined: the one before is
protected already. -/
theorem mapBlocks_keeps_iff_standsApart (h : Consistent M)
    (hsize : ∀ block ∈ blocks, block.2 < 2 ^ 32) (hperms : perms ≠ .readWrite)
    (hc : mapBlocks isCached state perms blocks t M = .ok M') :
    KeepsPermissions M M' (Set.Ico t (t + blocksSize blocks)) ↔
      StandsApart M.vmaMap.view state t blocks := by
  induction blocks generalizing M t with
  | nil =>
    obtain rfl := Except.ok.inj hc
    exact iff_of_true (fun _ _ => rfl) ⟨by simp, by simp⟩
  | cons block blocks ih =>
    obtain ⟨lo, hi, M₁, hround, hrest⟩ := mapBlocks_cons_ok h (hsize block (by simp)) hc
    have hsizes : ∀ b ∈ blocks, b.2 < 2 ^ 32 := fun b hb => hsize b (by simp [hb])
    have htail := mapBlocks_spec hround.consistent hsizes hrest
    have hlo : lo < t → permissionsAt M (t - 1) ≠ permissionsAt M' (t - 1) := by
      intro hlt hsame
      obtain ⟨hreadWrite, hprotected⟩ := hround.joined_before hlt
      rw [hreadWrite, htail.keeps_protected hperms (by omega) hprotected] at hsame
      exact hperms (Option.some.inj hsame).symm
    have hbefore : (¬ JoinsBefore M.vmaMap.view state t block.1.getPtr) ↔ lo = t := by
      rw [← hround.before]
      exact ⟨fun hle => Nat.le_antisymm hround.lo_le (Nat.le_of_not_lt hle),
        fun heq => heq ▸ lt_irrefl _⟩
    cases blocks with
    | nil => exact mapBlock_keeps_iff hperms hround hrest
    | cons second blocks =>
      have hiff := ih hround.consistent hsizes hrest
      have htotal := blocksSize_cons block (second :: blocks)
      have hpos : 0 < blocksSize (second :: blocks) := mapBlocks_pos hround.consistent hsizes hrest
      -- the next block is mapped where memory was free, so this one is not continued there
      have hhi : hi = t + block.2 := by
        by_contra hne
        have hlt : t + block.2 < hi := Nat.lt_of_le_of_ne hround.le_hi (Ne.symm hne)
        obtain ⟨v, hv, hfree⟩ := htail.free (t + block.2) le_rfl (by omega)
        have hbeside := hround.beside (t + block.2) (by have := hround.lo_le; omega) hlt (by omega)
        rw [hround.after.mp hlt, hv] at hbeside
        rw [Option.some.inj hbeside] at hfree
        cases hfree
      have hlast : StandsApart M₁.vmaMap.view state (t + block.2) (second :: blocks) ↔
          ∀ last ∈ (second :: blocks).getLast?, ¬ JoinsAfter M.vmaMap.view state
            (t + blocksSize (block :: second :: blocks)) (last.1.getPtr + last.2) := by
        have hsame := hround.outside (t + blocksSize (block :: second :: blocks)) (by omega)
        have hsum : t + block.2 + blocksSize (second :: blocks) =
            t + blocksSize (block :: second :: blocks) := by omega
        unfold StandsApart JoinsAfter
        rw [hsum, hsame]
        apply and_iff_right
        rintro first - ⟨before, -, -, hview⟩
        rw [hround.inside (t + block.2 - 1) (by have := hround.pos; omega)
          (by have := hround.pos; omega)] at hview
        exact hperms (congrArg PageView.permissions (Option.some.inj hview))
      rw [hlast] at hiff
      unfold StandsApart
      simp only [List.head?_cons, Option.mem_some_iff, forall_eq', List.getLast?_cons_cons]
      rw [hbefore, ← hiff]
      constructor
      · intro hkeeps
        have hlo' : lo = t := by
          by_contra hne
          have hlt : lo < t := Nat.lt_of_le_of_ne hround.lo_le hne
          exact hlo hlt (hkeeps (t - 1) (by simp only [Set.mem_Ico]; omega)).symm
        refine ⟨hlo', ?_⟩
        intro p hp
        by_cases hfirst : t ≤ p ∧ p < t + block.2
        · have hprotected : permissionsAt M₁ p = some perms := by
            unfold permissionsAt
            rw [hround.inside p hfirst.1 hfirst.2]
            rfl
          rw [hprotected]
          exact htail.keeps_protected hperms (by omega) hprotected
        · rw [hkeeps p (by simp only [Set.mem_Ico] at hp ⊢; omega)]
          unfold permissionsAt
          rw [hround.outside p (by omega)]
      · rintro ⟨hlo', hkeeps⟩ p hp
        simp only [Set.mem_Ico] at hp
        rw [hkeeps p (by simp only [Set.mem_Ico]; omega)]
        unfold permissionsAt
        rw [hround.outside p (by omega)]

/-- What the loops of the allocating calls do to the permissions around the new mapping. -/
theorem mapBlocks_keeps_iff (h : Consistent M) (hsize : ∀ block ∈ blocks, block.2 < 2 ^ 32)
    (hc : mapBlocks isCached state perms blocks t M = .ok M') :
    KeepsPermissions M M' (Set.Ico t (t + blocksSize blocks)) ↔
      perms = .readWrite ∨ StandsApart M.vmaMap.view state t blocks := by
  by_cases hperms : perms = .readWrite
  · subst hperms
    exact iff_of_true (mapBlocks_spec h hsize hc).keeps_readWrite (Or.inl rfl)
  · rw [mapBlocks_keeps_iff_standsApart h hsize hperms hc]
    exact (or_iff_right hperms).symm

end Blocks

end Borked3DS.Analysis
