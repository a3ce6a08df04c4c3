import Borked3DS.Analysis.Carving

/-!
# The loops that edit a range

`UnmapRange`, `ReprotectRange` and `ChangeMemoryState` walk over the areas of a range, rewrite
each one and fuse it with its neighbours while they walk. `visit` is one round and `sweep` the
whole walk, as functions on the areas behind the iterator (nearest first) and those from it on.
The walk rewrites the flat map on the range alone (`sweep_view`), and `sweep_maximal` says
exactly when it leaves two mergeable neighbours behind.
-/

set_option autoImplicit false

namespace Borked3DS.Analysis

open Borked3DS.Library Borked3DS.Model Borked3DS.Interface VMAMap

/-- The area `b` says of its addresses what `a` says, rewritten by `g`, and has the extent of
`a`. -/
structure Rewrites (g : ℕ → PageView → PageView) (a b : VirtualMemoryArea) : Prop where
  base : b.base = a.base
  size : b.size = a.size
  free : (a.type = .free → a.backingMemory = .null) → b.type = .free → b.backingMemory = .null
  viewAt : ∀ p, b.viewAt p = g p (a.viewAt p)

/-- `edit` rewrites every area by `g` and has nothing to change in an area that an edited area can
absorb. -/
structure PageEdit (edit : VirtualMemoryArea → VirtualMemoryArea) (g : ℕ → PageView → PageView) :
    Prop where
  rewrites : ∀ a, Rewrites g a (edit a)
  absorbed : ∀ a b, (b.type = .free → b.backingMemory = .null) →
    (edit a).mergeable b = true → edit b = b

variable {edit : VirtualMemoryArea → VirtualMemoryArea} {g : ℕ → PageView → PageView}
  {l r : VMAMap} {e : Entry} {lo hi te p : ℕ}

/-- Rewrite an area, absorb the next one if possible, be absorbed by the previous one if
possible. -/
def visit (edit : VirtualMemoryArea → VirtualMemoryArea) (l : VMAMap) (e : Entry) (r : VMAMap) :
    VMAMap × Entry × VMAMap :=
  let next := absorbNext (e.1, edit e.2) r
  let prev := absorbPrev next.1 l
  (prev.1, prev.2, next.2)

theorem absorbNext_length (e : Entry) (r : VMAMap) : (absorbNext e r).2.length ≤ r.length := by
  cases r with
  | nil => simp [absorbNext]
  | cons n r => simp only [absorbNext]; split <;> simp

/-- Visit the areas that begin before `te`. -/
def sweep (edit : VirtualMemoryArea → VirtualMemoryArea) (te : ℕ) (l r : VMAMap) : VMAMap :=
  match r with
  | [] => l.reverse
  | e :: r =>
      if e.1 < te then
        sweep edit te ((visit edit l e r).2.1 :: (visit edit l e r).1) (visit edit l e r).2.2
      else l.reverse ++ e :: r
termination_by r.length
decreasing_by exact Nat.lt_succ_of_le (absorbNext_length _ _)

/-! ## One round -/

theorem edit_areas (he : Rewrites g e.2 (edit e.2)) (h : Areas lo hi (l ++ e :: r)) :
    Areas lo hi (l ++ (e.1, edit e.2) :: r) := by
  obtain ⟨hl, hpos, hs, hr⟩ := areas_place.mp h
  have hsize := he.size
  refine areas_place.mpr ⟨hl, by simpa [hsize] using hpos, ⟨?_, ?_, ?_⟩, by simpa [hsize] using hr⟩
  · simp only [he.base, hs.key]
  · simpa only [hsize] using hs.aligned
  · exact he.free hs.free

/-- Rewriting one area rewrites the flat map on that area. -/
theorem edit_view (he : Rewrites g e.2 (edit e.2)) (h : Areas lo hi (l ++ e :: r)) :
    view (l ++ (e.1, edit e.2) :: r) p =
      if e.1 ≤ p ∧ p < e.1 + e.2.size then (view (l ++ e :: r) p).map (g p)
      else view (l ++ e :: r) p := by
  have h' := edit_areas he h
  have hsize : ((e.1, edit e.2) : Entry).2.size = e.2.size := he.size
  split
  next hin =>
    rw [view_place h hin.1 hin.2, view_place h' hin.1 (by rw [hsize]; exact hin.2)]
    simp [he.viewAt]
  next hout =>
    obtain ⟨hl, hpos, hs, hr⟩ := areas_place.mp h
    obtain ⟨-, hpos', hs', hr'⟩ := areas_place.mp h'
    have hc := areas_cons.mpr ⟨rfl, hpos, hs, hr⟩
    have hc' := areas_cons.mpr ⟨rfl, hpos', hs', hr'⟩
    rw [view_append hl hc, view_append hl hc', view_cons hc, view_cons hc', hsize]
    by_cases hlt : p < e.1
    · simp only [hlt, if_true]
    · simp only [hlt, if_false]
      rw [if_neg (by omega), if_neg (by omega)]

theorem visit_areas (he : Rewrites g e.2 (edit e.2))
    (h : Areas lo hi (l.reverse ++ e :: r)) :
    Areas lo hi ((visit edit l e r).1.reverse ++
      (visit edit l e r).2.1 :: (visit edit l e r).2.2) :=
  absorbPrev_areas (absorbNext_areas (edit_areas he h))

theorem visit_view (he : Rewrites g e.2 (edit e.2))
    (h : Areas lo hi (l.reverse ++ e :: r)) :
    view ((visit edit l e r).1.reverse ++ (visit edit l e r).2.1 :: (visit edit l e r).2.2) p =
      if e.1 ≤ p ∧ p < e.1 + e.2.size then (view (l.reverse ++ e :: r) p).map (g p)
      else view (l.reverse ++ e :: r) p := by
  have h' := edit_areas he h
  exact (absorbPrev_view (absorbNext_areas h')).trans ((absorbNext_view h').trans (edit_view he h))

/-- A round leaves the areas after it as they are, or absorbs the first of them. -/
theorem visit_rest (edit : VirtualMemoryArea → VirtualMemoryArea) (l : VMAMap) (e : Entry)
    (r : VMAMap) :
    (visit edit l e r).2.2 = r ∧ (∀ n ∈ r.head?, (edit e.2).mergeable n.2 = false) ∨
      ∃ n r', r = n :: r' ∧ (visit edit l e r).2.2 = r' ∧ (edit e.2).mergeable n.2 = true := by
  cases r with
  | nil => exact .inl ⟨rfl, by simp⟩
  | cons n r =>
      cases hm : (edit e.2).mergeable n.2 with
      | false => exact .inl ⟨by simp [visit, absorbNext, hm], by simpa using hm⟩
      | true => exact .inr ⟨n, r, rfl, by simp [visit, absorbNext, hm], hm⟩

/-- After a round the iterator stands at the first area after the rewritten one, or one area
further when that one was absorbed and says already what the rewriting would make it say. -/
theorem visit_splits (he : PageEdit edit g) (h : Areas lo hi (l.reverse ++ e :: r)) :
    ∃ s, e.1 + e.2.size ≤ s ∧
      Areas lo s ((visit edit l e r).2.1 :: (visit edit l e r).1).reverse ∧
      Areas s hi (visit edit l e r).2.2 ∧
      (∀ p, e.1 + e.2.size ≤ p → p < s →
        (view (l.reverse ++ e :: r) p).map (g p) = view (l.reverse ++ e :: r) p) ∧
      ∀ a ∈ (visit edit l e r).2.2, a ∈ r := by
  obtain ⟨hl, -, -, hr⟩ := areas_place.mp h
  have hvisit := visit_areas (he.rewrites e.2) h
  have hassoc : (visit edit l e r).1.reverse ++ (visit edit l e r).2.1 :: (visit edit l e r).2.2 =
      ((visit edit l e r).2.1 :: (visit edit l e r).1).reverse ++ (visit edit l e r).2.2 := by simp
  rw [hassoc] at hvisit
  obtain ⟨s, hl', hr'⟩ := areas_append.mp hvisit
  refine ⟨s, ?_⟩
  rcases visit_rest edit l e r with ⟨hrest, -⟩ | ⟨n, r₁, rfl, hrest, hm⟩
  · rw [hrest] at hr' ⊢
    obtain rfl := hr.lo_unique hr'
    exact ⟨le_rfl, hl', hr', fun p hge hlt => absurd hlt (by omega), fun a ha => ha⟩
  · rw [hrest] at hr' ⊢
    obtain ⟨hk, hpos, hs, hr₁⟩ := areas_cons.mp hr
    obtain rfl := hr₁.lo_unique hr'
    refine ⟨by omega, hl', hr', fun p hge hlt => ?_, fun a ha => by simp [ha]⟩
    have hassoc : l.reverse ++ e :: n :: r₁ = (l.reverse ++ [e]) ++ n :: r₁ := by simp
    have hview : view (l.reverse ++ e :: n :: r₁) p = some (n.2.viewAt p) := by
      rw [hassoc] at h ⊢
      exact view_place h (by omega) (by omega)
    rw [hview, Option.map_some, ← (he.rewrites n.2).viewAt,
      he.absorbed e.2 n.2 hs.free hm]

/-! ## The walk -/

theorem sweep_nil (l : VMAMap) : sweep edit te l [] = l.reverse := by rw [sweep]

theorem sweep_of_lt (h : e.1 < te) : sweep edit te l (e :: r) =
    sweep edit te ((visit edit l e r).2.1 :: (visit edit l e r).1) (visit edit l e r).2.2 := by
  rw [sweep, if_pos h]

theorem sweep_of_ge (h : te ≤ e.1) : sweep edit te l (e :: r) = l.reverse ++ e :: r := by
  rw [sweep, if_neg (by omega)]

theorem visit_length (edit : VirtualMemoryArea → VirtualMemoryArea) (l : VMAMap) (e : Entry)
    (r : VMAMap) : (visit edit l e r).2.2.length < (e :: r).length :=
  Nat.lt_succ_of_le (absorbNext_length (e.1, edit e.2) r)

/-- The walk keeps the areas an exact tiling. -/
theorem sweep_areas (he : PageEdit edit g) (h : Areas lo hi (l.reverse ++ r)) :
    Areas lo hi (sweep edit te l r) := by
  induction hn : r.length using Nat.strong_induction_on generalizing l r with
  | _ n ih =>
    cases r with
    | nil => simpa [sweep_nil] using h
    | cons e r =>
        rcases Nat.lt_or_ge e.1 te with hlt | hge
        · rw [sweep_of_lt hlt]
          exact ih _ (hn ▸ visit_length edit l e r) (by simpa using visit_areas (he.rewrites e.2) h) rfl
        · rwa [sweep_of_ge hge]

/-- The walk rewrites the flat map from its first area up to `te`, when no area lies across
`te`. -/
theorem sweep_view (he : PageEdit edit g) {s : ℕ} (hl : Areas lo s l.reverse) (hr : Areas s hi r)
    (hte : ∀ e ∈ r, e.1 < te → e.1 + e.2.size ≤ te) :
    view (sweep edit te l r) p =
      if s ≤ p ∧ p < te then (view (l.reverse ++ r) p).map (g p) else view (l.reverse ++ r) p := by
  induction hn : r.length using Nat.strong_induction_on generalizing l r s with
  | _ n ih =>
    cases r with
    | nil =>
        rw [sweep_nil, List.append_nil]
        split
        next hin => rw [view_of_ge hl hin.1, Option.map_none]
        next => rfl
    | cons e r =>
        have h := hl.append hr
        obtain ⟨rfl, hpos, -, -⟩ := areas_cons.mp hr
        rcases Nat.lt_or_ge e.1 te with hlt | hge
        · obtain ⟨s', hs', hl', hr', hfixed, hmem⟩ := visit_splits he h
          have hend := hte e (by simp) hlt
          have hassoc : ((visit edit l e r).2.1 :: (visit edit l e r).1).reverse ++
              (visit edit l e r).2.2 = (visit edit l e r).1.reverse ++
                (visit edit l e r).2.1 :: (visit edit l e r).2.2 := by simp
          rw [sweep_of_lt hlt, ih _ (hn ▸ visit_length edit l e r) hl' hr'
            (fun a ha => hte a (by simp [hmem a ha])) rfl, hassoc,
            visit_view (he.rewrites e.2) h]
          by_cases hin : e.1 ≤ p ∧ p < e.1 + e.2.size
          · rw [if_neg (by omega), if_pos hin, if_pos ⟨hin.1, by omega⟩]
          · rw [if_neg hin]
            by_cases hskip : e.1 + e.2.size ≤ p ∧ p < s'
            · rw [if_neg (by omega), hfixed p hskip.1 hskip.2, ite_self]
            · exact if_congr (by omega) rfl rfl
        · rw [sweep_of_ge hge, if_neg (by omega)]

/-! ## What the walk leaves unmerged -/

/-- No two neighbours can be merged, for areas listed nearest first. -/
def MaximalBehind (l : VMAMap) : Prop := l.IsChain fun a b => b.2.mergeable a.2 = false

theorem maximal_reverse : VMAMap.Maximal l.reverse ↔ MaximalBehind l := by
  rw [VMAMap.Maximal, List.isChain_reverse]
  rfl

/-- The last of the areas behind the iterator cannot be merged with the first one before it. -/
def Breaks (l r : VMAMap) : Prop := ∀ a ∈ l.head?, ∀ b ∈ r.head?, a.2.mergeable b.2 = false

theorem maximal_append :
    VMAMap.Maximal (l.reverse ++ r) ↔ MaximalBehind l ∧ r.Maximal ∧ Breaks l r := by
  rw [VMAMap.Maximal, List.isChain_append, List.getLast?_reverse]
  exact and_congr_left' maximal_reverse

theorem absorbPrev_mergeable (l : VMAMap) (e : Entry) (c : VirtualMemoryArea) :
    (absorbPrev e l).2.2.mergeable c = e.2.mergeable c := by
  cases l with
  | nil => rfl
  | cons q l =>
      simp only [absorbPrev]
      split
      next hm => exact fused_mergeable_right hm
      next => rfl

/-- A round leaves nothing to merge behind the iterator. -/
theorem visit_maximal (edit : VirtualMemoryArea → VirtualMemoryArea) (e : Entry) (r : VMAMap)
    (hl : MaximalBehind l) :
    MaximalBehind ((visit edit l e r).2.1 :: (visit edit l e r).1) := by
  simp only [visit]
  generalize (absorbNext (e.1, edit e.2) r).1 = e'
  cases l with
  | nil => exact List.isChain_singleton _
  | cons q l =>
      simp only [absorbPrev]
      split
      next hm =>
        cases l with
        | nil => exact List.isChain_singleton _
        | cons q' l =>
            obtain ⟨hq, hl⟩ := List.isChain_cons_cons.mp hl
            exact List.isChain_cons_cons.mpr ⟨hq, hl⟩
      next hm => exact List.isChain_cons_cons.mpr ⟨by simpa using hm, hl⟩

/-- To its right the area a round leaves merges with what the rewritten area merges with, or
with what the absorbed area merges with. -/
theorem visit_breaks (hrest : (visit edit l e r).2.2 = r) (hm : ∀ n ∈ r.head?,
    (edit e.2).mergeable n.2 = false) :
    Breaks ((visit edit l e r).2.1 :: (visit edit l e r).1) r := by
  intro a ha b hb
  obtain rfl := Option.some.inj ha
  have hnext : (absorbNext (e.1, edit e.2) r).1 = (e.1, edit e.2) := by
    cases r with
    | nil => rfl
    | cons n r => simp [absorbNext, hm n (by simp)]
  simp only [visit, absorbPrev_mergeable, hnext]
  exact hm b hb

theorem visit_breaks_absorbed {n : Entry} (hm : (edit e.2).mergeable n.2 = true) :
    Breaks ((visit edit l e (n :: r)).2.1 :: (visit edit l e (n :: r)).1) r ↔
      ∀ c ∈ r.head?, n.2.mergeable c.2 = false := by
  have hnext : ∀ c, (visit edit l e (n :: r)).2.1.2.mergeable c = n.2.mergeable c := by
    intro c
    simp only [visit, absorbPrev_mergeable, absorbNext, hm, if_true]
    exact fused_mergeable_right hm
  simp [Breaks, hnext]

/-- Three areas in a row, the last one beginning at `te`, of which the first one, once rewritten,
absorbs the second, so that the walk steps over the pair of the second and the third. -/
def Swallows (edit : VirtualMemoryArea → VirtualMemoryArea) (te : ℕ) (r : VMAMap) : Prop :=
  ∃ pre q a c post, r = pre ++ q :: a :: c :: post ∧ c.1 = te ∧
    (edit q.2).mergeable a.2 = true ∧ a.2.mergeable c.2 = true

theorem swallows_cons : Swallows edit te (e :: r) ↔
    (∃ a c post, r = a :: c :: post ∧ c.1 = te ∧ (edit e.2).mergeable a.2 = true ∧
      a.2.mergeable c.2 = true) ∨ Swallows edit te r := by
  constructor
  · rintro ⟨pre, q, a, c, post, hr, hrest⟩
    cases pre with
    | nil =>
        obtain ⟨rfl, rfl⟩ := List.cons.inj hr
        exact .inl ⟨a, c, post, rfl, hrest⟩
    | cons _ pre =>
        obtain ⟨-, rfl⟩ := List.cons.inj hr
        exact .inr ⟨pre, q, a, c, post, rfl, hrest⟩
  · rintro (⟨a, c, post, rfl, hrest⟩ | ⟨pre, q, a, c, post, rfl, hrest⟩)
    · exact ⟨[], e, a, c, post, rfl, hrest⟩
    · exact ⟨e :: pre, q, a, c, post, rfl, hrest⟩

/-- Neighbours that do not meet at `te` cannot be merged. -/
def MaximalBut (te : ℕ) (r : VMAMap) : Prop :=
  r.IsChain fun a b => b.1 ≠ te → a.2.mergeable b.2 = false

/-- A walk over areas that are maximal except at its end `te` restores maximality exactly when
it swallows no area that ends at `te`. -/
theorem sweep_maximal (he : PageEdit edit g) (hr : Areas lo hi r) (hmax : MaximalBut te r)
    (hl : MaximalBehind l) (hbreak : (∀ e ∈ r.head?, te ≤ e.1) → Breaks l r) :
    (sweep edit te l r).Maximal ↔ ¬ Swallows edit te r := by
  induction hn : r.length using Nat.strong_induction_on generalizing l r lo with
  | _ n ih =>
    cases r with
    | nil =>
        rw [sweep_nil, maximal_reverse]
        exact iff_of_true hl (by simp [Swallows])
    | cons e r =>
        obtain ⟨rfl, hpos, hs, hr'⟩ := areas_cons.mp hr
        rcases Nat.lt_or_ge e.1 te with hlt | hge
        · rw [sweep_of_lt hlt, swallows_cons]
          have hlen := hn ▸ visit_length edit l e r
          have hl' := visit_maximal edit e r hl
          rcases visit_rest edit l e r with ⟨hrest, hm⟩ | ⟨a, r₁, rfl, hrest, hm⟩
          · -- nothing is absorbed: the walk goes on at the next area
            have hb := visit_breaks hrest hm
            rw [hrest] at hlen ⊢
            rw [ih _ hlen hr' hmax.tail hl' (fun _ => hb) rfl]
            refine not_congr (or_iff_right ?_).symm
            rintro ⟨a, c, post, rfl, -, hma, -⟩
            simp [hm a (by simp)] at hma
          · rw [hrest] at hlen ⊢
            obtain ⟨hk, hpos', hs', hr₁⟩ := areas_cons.mp hr'
            by_cases hb : ∀ c ∈ r₁.head?, a.2.mergeable c.2 = false
            · -- the absorbed area merges with nothing more
              rw [ih _ hlen hr₁ hmax.tail.tail hl' (fun _ => (visit_breaks_absorbed hm).mpr hb) rfl]
              refine not_congr (Iff.symm ?_)
              rw [swallows_cons]
              refine ⟨?_, fun h => .inr (.inr h)⟩
              rintro (⟨a', c, post, heq, -, -, hmc⟩ | ⟨c, d, post, rfl, hd, hmc, -⟩ | h)
              · obtain ⟨rfl, rfl⟩ := List.cons.inj heq
                simp [hb c (by simp)] at hmc
              · rw [he.absorbed e.2 a.2 hs'.free hm] at hmc
                simp [hb c (by simp)] at hmc
              · exact h
            · -- it could be merged with the next one, which is where the walk stops
              obtain ⟨c, hc, hmc⟩ : ∃ c ∈ r₁.head?, a.2.mergeable c.2 = true := by
                simpa using hb
              obtain ⟨post, rfl⟩ : ∃ post, r₁ = c :: post := by
                cases r₁ with
                | nil => simp at hc
                | cons c' post => exact ⟨post, by rw [Option.some.inj hc]⟩
              have hcte : c.1 = te := by
                by_contra hne
                have := (List.isChain_cons_cons.mp (List.isChain_cons_cons.mp hmax).2).1 hne
                simp [this] at hmc
              rw [sweep_of_ge (by omega), maximal_append, visit_breaks_absorbed hm]
              refine iff_of_false (fun h => hb h.2.2) (not_not_intro (.inl ?_))
              exact ⟨a, c, post, rfl, hcte, hm, hmc⟩
        · rw [sweep_of_ge hge, maximal_append]
          refine iff_of_true ⟨hl, ?_, hbreak (by simpa using hge)⟩ ?_
          · -- no area before the iterator begins at `te` any more
            rw [VMAMap.Maximal, List.isChain_iff_forall_rel_of_append_cons_cons]
            intro a b pre post heq
            refine List.isChain_iff_forall_rel_of_append_cons_cons.mp hmax heq ?_
            obtain ⟨hpre, hapos, -, hb⟩ := areas_place.mp (heq ▸ hr)
            have := hpre.le
            have := (areas_cons.mp hb).1
            omega
          · rintro ⟨pre, q, a, c, post, heq, hc, -, -⟩
            obtain ⟨hpre, hqpos, -, ha⟩ := areas_place.mp (heq ▸ hr)
            obtain ⟨hak, hapos, -, hcs⟩ := areas_cons.mp ha
            have := hpre.le
            have := (areas_cons.mp hcs).1
            omega

/-! ## The code walks that way -/

section Code

variable (isCached : ℕ → Bool)

/-- Entering pages into the page table never faults inside the managed address space. -/
theorem mapPages_ok (type : PageType) {base size : ℕ} (memory : MemoryRef) (pt : PageTable)
    (h : base + size ≤ Memory.PAGE_TABLE_NUM_ENTRIES) :
    ∃ pt', mapPages isCached type base size memory pt = .ok pt' := by
  induction size generalizing base memory pt with
  | zero => exact ⟨pt, rfl⟩
  | succ size ih =>
      have hbase : base < Memory.PAGE_TABLE_NUM_ENTRIES := by omega
      have hnext : base + 1 + size ≤ Memory.PAGE_TABLE_NUM_ENTRIES := by omega
      simp only [mapPages, assert, hbase, if_true, ok_bind]
      split
      next hadv =>
        have hok := (MemoryRef.advance_eq_ok (r := memory)).mpr ⟨hadv.2, rfl⟩
        rw [hok, ok_bind]
        exact ih _ _ hnext
      next => exact ih _ _ hnext

theorem updatePageTable_ok (M : VMManager) {a : VirtualMemoryArea} (hbase : pageAligned a.base)
    (hsize : pageAligned a.size) (hend : a.base + a.size ≤ MAX_ADDRESS) :
    ∃ pt, M.updatePageTableForVMA isCached a = .ok { M with pageTable := pt } := by
  have hpages : a.base / Memory.PAGE_SIZE + a.size / Memory.PAGE_SIZE ≤
      Memory.PAGE_TABLE_NUM_ENTRIES := by
    unfold Memory.PAGE_SIZE Memory.PAGE_TABLE_NUM_ENTRIES
    unfold MAX_ADDRESS at hend
    omega
  have hregion : ∀ type target, ∃ pt,
      mapMemoryRegion isCached M.pageTable a.base a.size type target = .ok pt := by
    intro type target
    simp only [mapMemoryRegion, assert, hbase, hsize, if_true, ok_bind]
    exact mapPages_ok isCached type target M.pageTable hpages
  cases htype : a.type with
  | free =>
      obtain ⟨pt, hpt⟩ := hregion .unmapped .null
      exact ⟨pt, by simp only [VMManager.updatePageTableForVMA, htype, hpt, ok_bind]; rfl⟩
  | backingMemory =>
      obtain ⟨pt, hpt⟩ := hregion .memory a.backingMemory
      exact ⟨pt, by simp only [VMManager.updatePageTableForVMA, htype, hpt, ok_bind]; rfl⟩

/-- Rewriting an area and merging it with its neighbours is one round of the walk. -/
theorem editVMA_place (edit : VirtualMemoryArea → VirtualMemoryArea) {M : VMManager}
    (he : Rewrites g e.2 (edit e.2))
    (h : Areas 0 MAX_ADDRESS (l.reverse ++ e :: r)) (hM : M.vmaMap = l.reverse ++ e :: r) :
    ∃ pt, M.editVMA isCached edit e.1 = .ok
      ({ M with
          vmaMap := (visit edit l e r).1.reverse ++ (visit edit l e r).2.1 :: (visit edit l e r).2.2
          pageTable := pt }, (visit edit l e r).2.1.1) := by
  have h' := edit_areas he h
  have hbound := (h'.bounds (e := (e.1, edit e.2)) (by simp)).2.2
  have hsound := h'.sound (e.1, edit e.2) (by simp)
  have hassign := OrderedMap.assign_place (k := e.1) (v := e.2) h.sorted (edit e.2)
  obtain ⟨pt, hpt⟩ := updatePageTable_ok isCached
    { M with vmaMap := l.reverse ++ (e.1, edit e.2) :: r } (a := edit e.2)
    (hsound.key ▸ hsound.aligned.1) hsound.aligned.2 (hsound.key ▸ hbound)
  refine ⟨pt, ?_⟩
  simp only [VMManager.editVMA, hM, deref_place h.sorted, ok_bind, hassign, hpt,
    mergeAdjacent_place h']
  rfl

/-- The loop of the code is the walk, and it ends with fuel to spare.
SOURCE: vm_manager.cpp:156-166 -/
theorem editLoop_sweep (step : VMManager → ℕ → Exec (VMManager × ℕ)) (te fuel : ℕ)
    (he : PageEdit edit g)
    (hstep : ∀ M h, M.isLocked = false → step M h = M.editVMA isCached edit h) {M : VMManager} (h : Areas 0 MAX_ADDRESS (l.reverse ++ r)) (hM : M.vmaMap = l.reverse ++ r)
    (hlock : M.isLocked = false) (hfuel : r.length ≤ fuel) :
    ∃ pt, VMManager.editLoop step te fuel M (OrderedMap.first r) =
      .ok { M with vmaMap := sweep edit te l r, pageTable := pt } := by
  induction fuel generalizing l r M with
  | zero =>
      obtain rfl := List.length_eq_zero_iff.mp (Nat.le_zero.mp hfuel)
      refine ⟨M.pageTable, ?_⟩
      rw [sweep_nil, ← List.append_nil l.reverse, ← hM]
      rfl
  | succ fuel ih =>
      cases r with
      | nil =>
          refine ⟨M.pageTable, ?_⟩
          rw [sweep_nil, ← List.append_nil l.reverse, ← hM]
          rfl
      | cons e r =>
          have hkey : e.2.base = e.1 := (h.sound e (by simp)).key.symm
          simp only [OrderedMap.first, List.head?_cons, Option.map_some, VMManager.editLoop, hM,
            deref_place h.sorted, ok_bind, hkey]
          split
          next hlt =>
            obtain ⟨pt, hpt⟩ := editVMA_place isCached edit (he.rewrites e.2) h hM
            have hlen := visit_length edit l e r
            have hvisit := visit_areas (he.rewrites e.2) h
            rw [hstep M e.1 hlock, hpt, ok_bind, sweep_of_lt hlt]
            generalize visit edit l e r = v at hvisit hlen ⊢
            obtain ⟨l', ⟨k', a'⟩, r'⟩ := v
            have hassoc : l'.reverse ++ (k', a') :: r' = ((k', a') :: l').reverse ++ r' := by simp
            simp only at hvisit hlen ⊢
            rw [OrderedMap.upperBound_place hvisit.sorted]
            rw [hassoc] at hvisit ⊢
            exact ih (M := { M with vmaMap := ((k', a') :: l').reverse ++ r', pageTable := pt })
              hvisit rfl hlock (by simp only [List.length_cons] at *; omega)
          next hge =>
            refine ⟨M.pageTable, ?_⟩
            rw [sweep_of_ge (by omega), ← hM]
            rfl

end Code

end Borked3DS.Analysis
