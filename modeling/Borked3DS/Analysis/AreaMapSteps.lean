import Mathlib.Data.List.Chain
import Borked3DS.Interface.AddressSpace

/-!
# Lists of areas and the helpers on them

The areas of a stretch of the address space, and what each private helper of the memory manager does
to them.
-/

set_option autoImplicit false

namespace Borked3DS.Analysis

open Borked3DS.Library Borked3DS.Model Borked3DS.Interface VMAMap

/-!
## Lists of areas

The invariant the helpers of the memory manager work under (`Areas`), stated for any stretch
`[lo, hi)` of the address space so that it splits at every place of the map, and what the two
halves of `MergeAdjacent` do there, as functions on the lists behind and before the place.
-/

/-- An entry of the area map. -/
abbrev Entry := ℕ × VirtualMemoryArea

/-- An entry stands under its area's base, both ends of the area lie on page boundaries, and a
free area has no backing memory. -/
structure SoundEntry (e : Entry) : Prop where
  key : e.1 = e.2.base
  aligned : pageAligned e.1 ∧ pageAligned e.2.size
  free : e.2.type = .free → e.2.backingMemory = .null

/-- The areas of `m` tile `[lo, hi)` and are sound. -/
structure Areas (lo hi : ℕ) (m : VMAMap) : Prop where
  tiles : Tiles Prod.fst entrySize lo hi m
  sound : ∀ e ∈ m, SoundEntry e

section Areas

variable {lo mid hi p : ℕ} {l r m m₁ m₂ : VMAMap} {e : Entry}

theorem areas_nil : Areas lo hi [] ↔ lo = hi :=
  ⟨fun h => h.tiles, fun h => ⟨h, by simp⟩⟩

theorem areas_cons : Areas lo hi (e :: m) ↔
    e.1 = lo ∧ 0 < e.2.size ∧ SoundEntry e ∧ Areas (lo + e.2.size) hi m := by
  constructor
  · rintro ⟨⟨hk, hpos, ht⟩, hs⟩
    exact ⟨hk, hpos, hs e (by simp), ht, fun a ha => hs a (by simp [ha])⟩
  · rintro ⟨hk, hpos, hs, ht, hm⟩
    refine ⟨⟨hk, hpos, ht⟩, fun a ha => ?_⟩
    rcases List.mem_cons.mp ha with rfl | ha
    · exact hs
    · exact hm a ha

theorem areas_append : Areas lo hi (m₁ ++ m₂) ↔ ∃ mid, Areas lo mid m₁ ∧ Areas mid hi m₂ := by
  constructor
  · rintro ⟨ht, hs⟩
    obtain ⟨mid, h₁, h₂⟩ := tiles_append.mp ht
    exact ⟨mid, ⟨h₁, fun a ha => hs a (by simp [ha])⟩, h₂, fun a ha => hs a (by simp [ha])⟩
  · rintro ⟨mid, ⟨h₁, hs₁⟩, h₂, hs₂⟩
    refine ⟨h₁.append h₂, fun a ha => ?_⟩
    rcases List.mem_append.mp ha with ha | ha
    · exact hs₁ a ha
    · exact hs₂ a ha

theorem Areas.append (h₁ : Areas lo mid m₁) (h₂ : Areas mid hi m₂) : Areas lo hi (m₁ ++ m₂) :=
  areas_append.mpr ⟨mid, h₁, h₂⟩

theorem areas_place : Areas lo hi (l ++ e :: r) ↔
    Areas lo e.1 l ∧ 0 < e.2.size ∧ SoundEntry e ∧ Areas (e.1 + e.2.size) hi r := by
  rw [areas_append]
  constructor
  · rintro ⟨mid, hl, hr⟩
    obtain ⟨rfl, hpos, hs, hr⟩ := areas_cons.mp hr
    exact ⟨hl, hpos, hs, hr⟩
  · rintro ⟨hl, hpos, hs, hr⟩
    exact ⟨e.1, hl, areas_cons.mpr ⟨rfl, hpos, hs, hr⟩⟩

theorem Areas.le (h : Areas lo hi m) : lo ≤ hi := h.tiles.le

theorem Areas.bounds (h : Areas lo hi m) (he : e ∈ m) :
    lo ≤ e.1 ∧ 0 < e.2.size ∧ e.1 + e.2.size ≤ hi := h.tiles.bounds he

/-- The beginning of a tiling is determined by its end. -/
theorem Areas.lo_unique {lo' : ℕ} (h : Areas lo hi m) (h' : Areas lo' hi m) : lo = lo' := by
  cases m with
  | nil => exact (areas_nil.mp h).trans (areas_nil.mp h').symm
  | cons e m => exact (areas_cons.mp h).1.symm.trans (areas_cons.mp h').1

theorem Areas.sorted (h : Areas lo hi m) : OrderedMap.Sorted m := h.tiles.pairwise_lt

theorem Areas.exists_place (h : Areas lo hi m) (hlo : lo ≤ p) (hhi : p < hi) :
    ∃ l e r, m = l ++ e :: r ∧ e.1 ≤ p ∧ p < e.1 + e.2.size := h.tiles.exists_place hlo hhi

theorem Areas.partition (h : Areas 0 MAX_ADDRESS m) : m.Partition :=
  ⟨fun e he => (h.sound e he).key, h.tiles⟩

end Areas

section View

variable {lo mid hi p : ℕ} {m m₁ m₂ : VMAMap} {e : Entry}

theorem view_append (h₁ : Areas lo mid m₁) (h₂ : Areas mid hi m₂) :
    view (m₁ ++ m₂) p = if p < mid then view m₁ p else view m₂ p :=
  denote_append h₁.tiles h₂.tiles

theorem view_cons (h : Areas lo hi (e :: m)) :
    view (e :: m) p =
      if p < lo then none else if p < lo + e.2.size then some (e.2.viewAt p) else view m p :=
  denote_cons h.tiles

theorem view_of_ge (h : Areas lo hi m) (hp : hi ≤ p) : view m p = none := denote_of_ge h.tiles hp

theorem view_place {l r : VMAMap} (h : Areas lo hi (l ++ e :: r)) (hle : e.1 ≤ p)
    (hlt : p < e.1 + e.2.size) : view (l ++ e :: r) p = some (e.2.viewAt p) :=
  denote_place h.tiles hle hlt

end View

/-! ### Mergeable areas -/

section Mergeable

variable {a b c : VirtualMemoryArea}

theorem mergeable_iff : a.mergeable b = true ↔
    a.permissions = b.permissions ∧ a.meminfoState = b.meminfoState ∧ a.type = b.type ∧
      (a.type = .backingMemory →
        a.backingMemory.getPtr + a.size = b.backingMemory.getPtr) := by
  simp [VirtualMemoryArea.mergeable, and_assoc, imp_iff_not_or]

/-- Adjacent areas can be merged when the flat map runs on from one to the other. -/
theorem mergeable_iff_continues (hadj : a.base + a.size = b.base) (hpos : 0 < a.size) :
    a.mergeable b = true ↔ (a.viewAt (b.base - 1)).Continues (b.viewAt b.base) := by
  rw [mergeable_iff]
  simp only [PageView.Continues, VirtualMemoryArea.viewAt]
  refine and_congr_right fun _ => and_congr_right fun _ => and_congr_right fun htype => ?_
  cases hb : b.type with
  | free => simp [htype, hb]
  | backingMemory =>
      simp only [htype, hb, forall_const, Option.map_some, Option.some.injEq]
      omega

/-- Inside an area the flat map runs on. -/
theorem viewAt_continues {p : ℕ} (hp : a.base < p) : (a.viewAt (p - 1)).Continues (a.viewAt p) := by
  refine ⟨rfl, rfl, rfl, ?_⟩
  simp only [VirtualMemoryArea.viewAt]
  cases a.type with
  | free => rfl
  | backingMemory =>
      simp only [Option.map_some, Option.some.injEq]
      omega

/-- An area fused with the one after it. -/
def fused (a b : VirtualMemoryArea) : VirtualMemoryArea := { a with size := a.size + b.size }

/-- The fused area says of an address what the area it came from says. -/
theorem fused_viewAt (h : a.mergeable b = true) (hadj : a.base + a.size = b.base) {p : ℕ}
    (hp : b.base ≤ p) : (fused a b).viewAt p = b.viewAt p := by
  obtain ⟨h₁, h₂, h₃, h₄⟩ := mergeable_iff.mp h
  cases hb : b.type with
  | free => simp [VirtualMemoryArea.viewAt, fused, h₁, h₂, h₃, hb]
  | backingMemory =>
      have hptr := h₄ (h₃.trans hb)
      have hback : a.backingMemory.getPtr + (p - a.base) = b.backingMemory.getPtr + (p - b.base) := by
        omega
      simp [VirtualMemoryArea.viewAt, fused, h₁, h₂, h₃, hb, hback]

/-- To its right a fused area merges with what its right half merges with. -/
theorem fused_mergeable_right (h : a.mergeable b = true) :
    (fused a b).mergeable c = b.mergeable c := by
  obtain ⟨h₁, h₂, h₃, h₄⟩ := mergeable_iff.mp h
  rw [Bool.eq_iff_iff, mergeable_iff, mergeable_iff]
  simp only [fused, h₁, h₂, h₃]
  refine and_congr_right fun _ => and_congr_right fun _ => and_congr_right fun _ => ?_
  refine imp_congr_right fun hb => ?_
  have := h₄ (h₃.trans hb)
  omega

/-- To its left a fused area merges with what its left half merges with. -/
theorem mergeable_fused_left : c.mergeable (fused a b) = c.mergeable a := rfl

end Mergeable

section Maximal

variable {lo mid hi p k : ℕ} {l r m m₁ m₂ : VMAMap} {e n : Entry}

theorem continuesAt_left (h₁ : Areas lo mid m₁) (h₂ : Areas mid hi m₂) (hk : k < mid) :
    (view (m₁ ++ m₂)).ContinuesAt k ↔ (view m₁).ContinuesAt k := by
  rw [PageMap.ContinuesAt, PageMap.ContinuesAt, view_append h₁ h₂, view_append h₁ h₂, if_pos hk,
    if_pos (by omega)]

theorem continuesAt_right (h₁ : Areas lo mid m₁) (h₂ : Areas mid hi m₂) (hk : mid < k) :
    (view (m₁ ++ m₂)).ContinuesAt k ↔ (view m₂).ContinuesAt k := by
  rw [PageMap.ContinuesAt, PageMap.ContinuesAt, view_append h₁ h₂, view_append h₁ h₂,
    if_neg (by omega), if_neg (by omega)]

/-- Neighbouring areas of a map can be merged when its flat map runs on between them. -/
theorem mergeable_place (h : Areas lo hi (l ++ e :: n :: r)) :
    e.2.mergeable n.2 = true ↔ (view (l ++ e :: n :: r)).ContinuesAt n.1 := by
  obtain ⟨-, hpos, hs, hr⟩ := areas_place.mp h
  obtain ⟨hk, hpos', hs', -⟩ := areas_cons.mp hr
  have hleft : view (l ++ e :: n :: r) (n.1 - 1) = some (e.2.viewAt (n.1 - 1)) :=
    view_place h (by omega) (by omega)
  have hright : view (l ++ e :: n :: r) n.1 = some (n.2.viewAt n.1) := by
    have hassoc : l ++ e :: n :: r = (l ++ [e]) ++ n :: r := by simp
    rw [hassoc] at h ⊢
    exact view_place h le_rfl (by omega)
  have hadj : e.2.base + e.2.size = n.2.base := by rw [← hs.key, ← hs'.key, hk]
  rw [mergeable_iff_continues hadj hpos, ← hs'.key, PageMap.ContinuesAt, hleft, hright]
  simp

/-- A map is as coarse as it can be when its flat map breaks at every area's base. -/
theorem maximal_iff (h : Areas lo hi m) :
    m.Maximal ↔ ∀ k ∈ m.keys, lo < k → ¬ (view m).ContinuesAt k := by
  rw [VMAMap.Maximal, List.isChain_iff_forall_rel_of_append_cons_cons]
  constructor
  · intro hchain k hk hlo hcont
    obtain ⟨e, he, rfl⟩ := List.mem_map.mp hk
    obtain ⟨l, r, rfl⟩ := List.append_of_mem he
    rcases List.eq_nil_or_concat l with rfl | ⟨l, q, rfl⟩
    · have := (areas_cons.mp h).1
      omega
    · have hassoc : l.concat q ++ e :: r = l ++ q :: e :: r := by simp
      rw [hassoc] at h hchain hcont
      have := (mergeable_place h).mpr hcont
      simp [hchain rfl] at this
  · intro hbreak q n l r hm
    subst hm
    rw [← Bool.not_eq_true, mergeable_place h]
    refine hbreak n.1 (by simp [VMAMap.keys]) ?_
    obtain ⟨hl, hpos, -, hr⟩ := areas_place.mp h
    have := hl.le
    have := (areas_cons.mp hr).1
    omega

end Maximal

/-- Absorb the first of the following entries if possible. -/
def absorbNext (e : Entry) : VMAMap → Entry × VMAMap
  | [] => (e, [])
  | n :: r => if e.2.mergeable n.2 then ((e.1, fused e.2 n.2), r) else (e, n :: r)

/-- Be absorbed by the preceding entry if possible; the preceding entries are listed nearest
first. -/
def absorbPrev (e : Entry) : VMAMap → VMAMap × Entry
  | [] => ([], e)
  | q :: l => if q.2.mergeable e.2 then (l, (q.1, fused q.2 e.2)) else (q :: l, e)

section Absorb

variable {lo hi p : ℕ} {l r : VMAMap} {e : Entry}

theorem fused_areas {q n : Entry} (h : Areas lo hi (l ++ q :: n :: r)) :
    Areas lo hi (l ++ (q.1, fused q.2 n.2) :: r) := by
  obtain ⟨hl, hpos, hs, hr⟩ := areas_place.mp h
  obtain ⟨hk, hpos', hs', hr⟩ := areas_cons.mp hr
  have haligned := pageAligned_add hs.aligned.2 hs'.aligned.2
  refine areas_place.mpr ⟨hl, ?_, ⟨hs.key, ⟨hs.aligned.1, haligned⟩, hs.free⟩, ?_⟩
  · simp only [fused]; omega
  · simpa [fused, Nat.add_assoc] using hr

/-- Fusing two mergeable neighbours does not change the flat map. -/
theorem fused_view {q n : Entry} (h : Areas lo hi (l ++ q :: n :: r))
    (hm : q.2.mergeable n.2 = true) :
    view (l ++ (q.1, fused q.2 n.2) :: r) p = view (l ++ q :: n :: r) p := by
  obtain ⟨hl, hpos, hs, hr⟩ := areas_place.mp h
  obtain ⟨hl', hpos', hs', hr'⟩ := areas_place.mp (fused_areas h)
  have hq := areas_cons.mpr ⟨rfl, hpos, hs, hr⟩
  have hq' := areas_cons.mpr ⟨rfl, hpos', hs', hr'⟩
  obtain ⟨hk, hnpos, hns, hr⟩ := areas_cons.mp hr
  rw [view_append hl hq, view_append hl' hq', view_cons hq, view_cons hq',
    view_cons (areas_cons.mpr ⟨hk, hnpos, hns, hr⟩)]
  by_cases hlt : p < q.1
  · simp only [hlt, if_true]
  · simp only [hlt, if_false]
    by_cases hleft : p < q.1 + q.2.size
    · -- the address lies in the left half, which the fused area extends
      rw [if_pos (show p < q.1 + (fused q.2 n.2).size by simp only [fused]; omega), if_pos hleft]
      rfl
    · rw [if_neg hleft, if_neg hleft]
      have hsize : q.1 + (fused q.2 n.2).size = q.1 + q.2.size + n.2.size := by
        simp only [fused]; omega
      have hadj : q.2.base + q.2.size = n.2.base := by rw [← hs.key, ← hns.key, hk]
      rw [hsize, fused_viewAt hm hadj (by rw [← hns.key, hk]; omega)]

theorem absorbNext_areas (h : Areas lo hi (l ++ e :: r)) :
    Areas lo hi (l ++ (absorbNext e r).1 :: (absorbNext e r).2) := by
  cases r with
  | nil => exact h
  | cons n r =>
      simp only [absorbNext]
      split
      · exact fused_areas h
      · exact h

theorem absorbNext_view (h : Areas lo hi (l ++ e :: r)) :
    view (l ++ (absorbNext e r).1 :: (absorbNext e r).2) p = view (l ++ e :: r) p := by
  cases r with
  | nil => rfl
  | cons n r =>
      simp only [absorbNext]
      split
      next hm => exact fused_view h hm
      next => rfl

theorem absorbPrev_areas (h : Areas lo hi (l.reverse ++ e :: r)) :
    Areas lo hi ((absorbPrev e l).1.reverse ++ (absorbPrev e l).2 :: r) := by
  cases l with
  | nil => exact h
  | cons q l =>
      simp only [absorbPrev]
      split
      · exact fused_areas (by simpa using h)
      · exact h

theorem absorbPrev_view (h : Areas lo hi (l.reverse ++ e :: r)) :
    view ((absorbPrev e l).1.reverse ++ (absorbPrev e l).2 :: r) p =
      view (l.reverse ++ e :: r) p := by
  cases l with
  | nil => rfl
  | cons q l =>
      simp only [absorbPrev]
      split
      next hm => simpa using fused_view (l := l.reverse) (by simpa using h) hm
      next => rfl

end Absorb

end Borked3DS.Analysis

/-!
## What the private helpers of the memory manager do

One lemma for each helper that works on the area map alone, at the place of the map it works
on: `deref`, `findVMA`, `splitVMA` and `mergeAdjacent`.
-/

namespace Borked3DS.Analysis

open Borked3DS.Library Borked3DS.Model Borked3DS.Interface VMAMap

variable {l r m m' : VMAMap} {e : Entry} {n p : ℕ}

theorem deref_place (h : OrderedMap.Sorted (l ++ e :: r)) : deref (l ++ e :: r) e.1 = .ok e.2 := by
  rw [deref, OrderedMap.lookup_place (k := e.1) (v := e.2) h]

theorem findVMA_of_ge (h : MAX_ADDRESS ≤ p) : VMAMap.findVMA m p = none := if_pos h

theorem findVMA_place (h : Areas 0 MAX_ADDRESS (l ++ e :: r)) (hle : e.1 ≤ p)
    (hlt : p < e.1 + e.2.size) : VMAMap.findVMA (l ++ e :: r) p = some e.1 := by
  have hmax := (h.bounds (e := e) (by simp)).2.2
  have hbehind : ∀ a ∈ l ++ [e], a.1 ≤ p := by
    intro a ha
    rcases List.mem_append.mp ha with ha | ha
    · have := OrderedMap.sorted_lt_left (k := e.1) (v := e.2) h.sorted a ha
      omega
    · rw [List.mem_singleton.mp ha]; exact hle
  have hbefore : ∀ a ∈ r, p < a.1 := by
    intro a ha
    have := (areas_place.mp h).2.2.2.bounds ha
    omega
  have hassoc : l ++ e :: r = (l ++ [e]) ++ r := by simp
  rw [VMAMap.findVMA, if_neg (by omega), hassoc, OrderedMap.upperBound_split hbehind hbefore,
    OrderedMap.prev_first (by rw [← hassoc]; exact h.sorted)]
  simp

/-- Every managed address lies in exactly the area `FindVMA` returns. -/
theorem findVMA_spec (h : Areas 0 MAX_ADDRESS m) (hp : p < MAX_ADDRESS) :
    ∃ l e r, m = l ++ e :: r ∧ e.1 ≤ p ∧ p < e.1 + e.2.size ∧
      VMAMap.findVMA m p = some e.1 := by
  obtain ⟨l, e, r, rfl, hle, hlt⟩ := h.exists_place (Nat.zero_le p) hp
  exact ⟨l, e, r, rfl, hle, hlt, findVMA_place h hle hlt⟩

/-! ### Splitting -/

/-- The left part of a cut. -/
def leftPart (a : VirtualMemoryArea) (n : ℕ) : VirtualMemoryArea := { a with size := n }

/-- The right part of a cut. -/
def rightPart (a : VirtualMemoryArea) (n : ℕ) : VirtualMemoryArea :=
  { a with
    base := a.base + n
    size := a.size - n
    backingMemory :=
      match a.type with
      | .free => a.backingMemory
      | .backingMemory => { a.backingMemory with offset := a.backingMemory.offset + n } }

/-- The backing memory of an area reaches past the offset `n`. -/
def Backs (a : VirtualMemoryArea) (n : ℕ) : Prop :=
  a.type = .backingMemory → n < a.backingMemory.getSize

theorem backingAt_eq_ok {a : VirtualMemoryArea} {ref : MemoryRef} :
    a.backingAt n = .ok ref ↔ Backs a n ∧ ref = (rightPart a n).backingMemory := by
  cases ht : a.type with
  | free => simp [VirtualMemoryArea.backingAt, Backs, rightPart, ht, eq_comm]
  | backingMemory =>
      simp [VirtualMemoryArea.backingAt, Backs, rightPart, ht, MemoryRef.advance_eq_ok]

theorem rightPart_getPtr {a : VirtualMemoryArea} (hb : a.type = .backingMemory)
    (h : Backs a n) : (rightPart a n).backingMemory.getPtr = a.backingMemory.getPtr + n := by
  have hadv : a.backingMemory.advance n = .ok (rightPart a n).backingMemory :=
    MemoryRef.advance_eq_ok.mpr ⟨h hb, by simp [rightPart, hb]⟩
  exact MemoryRef.advance_getPtr hadv

/-- The parts of a cut can be merged again. -/
theorem leftPart_mergeable {a : VirtualMemoryArea} (h : Backs a n) :
    (leftPart a n).mergeable (rightPart a n) = true :=
  mergeable_iff.mpr ⟨rfl, rfl, rfl, fun hb => (rightPart_getPtr hb h).symm⟩

/-- A cut at an inner offset replaces the area by its two parts.
SOURCE: vm_manager.cpp:317-342 -/
theorem splitVMA_place (h : Areas 0 MAX_ADDRESS (l ++ e :: r)) {res : VMAMap × ℕ} :
    splitVMA (l ++ e :: r) e.1 n = .ok res ↔
      (n < e.2.size ∧ 0 < n ∧ Backs e.2 n) ∧
        res = (l ++ (e.1, leftPart e.2 n) :: (e.1 + n, rightPart e.2 n) :: r, e.1 + n) := by
  obtain ⟨k, a⟩ := e
  have hsound := h.sound (k, a) (by simp)
  obtain rfl : k = a.base := hsound.key
  have hbound := h.bounds (e := (a.base, a)) (by simp)
  have hmax : MAX_ADDRESS < 2 ^ 32 := by decide
  simp only at hbound ⊢
  simp only [splitVMA, deref_place (e := (a.base, a)) h.sorted, ok_bind, bind_eq_ok, assert_eq_ok,
    backingAt_eq_ok, VirtualMemoryArea.canBeMergedWith, pure_eq_ok]
  have hright : n < a.size → ({ a with
      base := u32 (a.base + n), size := a.size - n,
      backingMemory := (rightPart a n).backingMemory } : VirtualMemoryArea) = rightPart a n := by
    intro hlt
    rw [u32_of_lt (by omega)]
    rfl
  have hmap : n < a.size → 0 < n → OrderedMap.emplace (a.base + n) (rightPart a n)
      (OrderedMap.assign a.base (leftPart a n) (l ++ (a.base, a) :: r)) =
        l ++ (a.base, leftPart a n) :: (a.base + n, rightPart a n) :: r := by
    intro hlt hpos
    rw [OrderedMap.assign_place h.sorted]
    refine OrderedMap.emplace_place ?_ _ (by omega) fun b hb => ?_
    · have := h.sorted
      rw [OrderedMap.sorted_place] at this ⊢
      exact this
    · have := (areas_place.mp h).2.2.2.bounds hb
      simp only at this
      omega
  constructor
  · rintro ⟨-, hlt, -, hpos, b, ⟨hback, rfl⟩, mergeable, -, -, -, hres⟩
    refine ⟨⟨hlt, hpos, hback⟩, ?_⟩
    rw [hright hlt, u32_of_lt (by omega)] at hres
    rw [← hmap hlt hpos]
    exact (Except.ok.inj hres).symm
  · rintro ⟨⟨hlt, hpos, hback⟩, rfl⟩
    refine ⟨(), hlt, (), hpos, _, ⟨hback, rfl⟩, true, ⟨(), trivial, ?_⟩, (), rfl, ?_⟩
    · rw [hright hlt]
      exact congrArg _ (leftPart_mergeable hback)
    · rw [hright hlt, u32_of_lt (by omega), ← hmap hlt hpos]
      rfl

theorem split_areas {lo hi : ℕ} (h : Areas lo hi (l ++ e :: r)) (hn : pageAligned n)
    (hlt : n < e.2.size) (hpos : 0 < n) :
    Areas lo hi (l ++ (e.1, leftPart e.2 n) :: (e.1 + n, rightPart e.2 n) :: r) := by
  obtain ⟨hl, -, hs, hr⟩ := areas_place.mp h
  obtain ⟨hkey, hsize⟩ := hs.aligned
  refine areas_place.mpr ⟨hl, hpos, ⟨hs.key, ⟨hkey, hn⟩, hs.free⟩,
    areas_cons.mpr ⟨rfl, ?_, ⟨?_, ⟨pageAligned_add hkey hn, pageAligned_sub hsize hn⟩, ?_⟩, ?_⟩⟩
  · simp only [rightPart]; omega
  · simp only [rightPart, hs.key]
  · intro hfree
    have hfree : e.2.type = .free := hfree
    simp [rightPart, hfree, hs.free hfree]
  · have hend : e.1 + n + (e.2.size - n) = e.1 + e.2.size := by omega
    simpa only [leftPart, rightPart, hend] using hr

/-- Cutting an area does not change the flat map. -/
theorem split_view {lo hi : ℕ} (h : Areas lo hi (l ++ e :: r)) (hn : pageAligned n)
    (hlt : n < e.2.size) (hpos : 0 < n) (hback : Backs e.2 n) :
    view (l ++ (e.1, leftPart e.2 n) :: (e.1 + n, rightPart e.2 n) :: r) p =
      view (l ++ e :: r) p := by
  -- a cut is undone by fusing the parts
  have hfuse := fused_view (p := p) (split_areas h hn hlt hpos) (leftPart_mergeable hback)
  have hwhole : fused (leftPart e.2 n) (rightPart e.2 n) = e.2 := by
    have : n + (e.2.size - n) = e.2.size := by omega
    simp only [fused, leftPart, rightPart, this]
  rw [← hfuse]
  simp only [hwhole]

/-! ### Fusing -/

/-- Adjacent areas of the map meet the `ASSERT` of `CanBeMergedWith`. -/
theorem canBeMergedWith_place {q n : Entry} (h : Areas 0 MAX_ADDRESS (l ++ q :: n :: r)) :
    q.2.canBeMergedWith n.2 = .ok (q.2.mergeable n.2) := by
  obtain ⟨-, -, hs, hr⟩ := areas_place.mp h
  obtain ⟨hk, -, hs', -⟩ := areas_cons.mp hr
  have hbound := (h.bounds (e := q) (by simp)).2.2
  have hmax : MAX_ADDRESS < 2 ^ 32 := by decide
  have hadj : u32 (q.2.base + q.2.size) = n.2.base := by
    rw [← hs.key, ← hs'.key, hk, u32_of_lt (by omega)]
  simp [VirtualMemoryArea.canBeMergedWith, assert, hadj]

theorem u32_fused {q n : Entry} (h : Areas 0 MAX_ADDRESS (l ++ q :: n :: r)) :
    ({ q.2 with size := u32 (q.2.size + n.2.size) } : VirtualMemoryArea) = fused q.2 n.2 := by
  have := ((fused_areas h).bounds (e := (q.1, fused q.2 n.2)) (by simp)).2.2
  have hmax : MAX_ADDRESS < 2 ^ 32 := by decide
  simp only [fused] at this ⊢
  rw [u32_of_lt (by omega)]

/-- The map with `q` overwritten by the fusion of `q` and `n`, and `n` erased. -/
theorem erase_assign_place {q n : Entry} (h : OrderedMap.Sorted (l ++ q :: n :: r))
    (a : VirtualMemoryArea) :
    OrderedMap.erase n.1 (OrderedMap.assign q.1 a (l ++ q :: n :: r)) = l ++ (q.1, a) :: r := by
  rw [OrderedMap.assign_place (k := q.1) (v := q.2) h]
  have hassoc : l ++ (q.1, a) :: n :: r = (l ++ [(q.1, a)]) ++ (n.1, n.2) :: r := by simp
  have hsorted : OrderedMap.Sorted (l ++ (q.1, a) :: n :: r) := by
    rw [OrderedMap.sorted_place] at h ⊢
    exact h
  rw [hassoc] at hsorted ⊢
  rw [OrderedMap.erase_place hsorted]
  simp

theorem mergeNext_place (h : Areas 0 MAX_ADDRESS (l ++ e :: r)) :
    mergeNext (l ++ e :: r) e.1 = .ok (l ++ (absorbNext e r).1 :: (absorbNext e r).2) := by
  rw [mergeNext, OrderedMap.upperBound_place (k := e.1) (v := e.2) h.sorted]
  cases r with
  | nil => rfl
  | cons n r =>
      have hassoc : l ++ e :: n :: r = (l ++ [e]) ++ n :: r := by simp
      have hnext : deref (l ++ e :: n :: r) n.1 = .ok n.2 := by
        rw [hassoc]
        exact deref_place (by rw [← hassoc]; exact h.sorted)
      simp only [OrderedMap.first, List.head?_cons, Option.map_some, deref_place h.sorted, hnext,
        canBeMergedWith_place h, ok_bind, absorbNext]
      split
      next hm => rw [u32_fused h, erase_assign_place h.sorted]; rfl
      next => rfl

theorem mergePrev_place (h : Areas 0 MAX_ADDRESS (l.reverse ++ e :: r)) :
    mergePrev (l.reverse ++ e :: r) e.1 =
      .ok ((absorbPrev e l).1.reverse ++ (absorbPrev e l).2 :: r, (absorbPrev e l).2.1) := by
  rw [mergePrev, OrderedMap.prev_place (k := e.1) (v := e.2) h.sorted]
  cases l with
  | nil => rfl
  | cons q l =>
      have hassoc : (q :: l).reverse ++ e :: r = l.reverse ++ q :: e :: r := by simp
      have hcur : deref (l.reverse ++ q :: e :: r) e.1 = .ok e.2 := by
        rw [← hassoc]
        exact deref_place h.sorted
      rw [hassoc] at h ⊢
      simp only [List.reverse_cons, List.getLast?_concat, Option.map_some,
        deref_place (e := q) h.sorted, hcur, canBeMergedWith_place h, ok_bind, absorbPrev]
      split
      next hm => rw [u32_fused h, erase_assign_place h.sorted]; rfl
      next => simp

/-- `MergeAdjacent` absorbs the next area, then is absorbed by the previous one.
SOURCE: vm_manager.cpp:344-363 -/
theorem mergeAdjacent_place (h : Areas 0 MAX_ADDRESS (l.reverse ++ e :: r)) :
    mergeAdjacent (l.reverse ++ e :: r) e.1 =
      .ok ((absorbPrev (absorbNext e r).1 l).1.reverse ++
          (absorbPrev (absorbNext e r).1 l).2 :: (absorbNext e r).2,
        (absorbPrev (absorbNext e r).1 l).2.1) := by
  have hkey : (absorbNext e r).1.1 = e.1 := by
    cases r with
    | nil => rfl
    | cons n r => simp only [absorbNext]; split <;> rfl
  have hprev := mergePrev_place (absorbNext_areas h)
  rw [hkey] at hprev
  rw [mergeAdjacent, mergeNext_place h, ok_bind, hprev]

end Borked3DS.Analysis
