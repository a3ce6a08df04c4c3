import Borked3DS.Analysis.EditLoop
import Borked3DS.Interface.AddressSpace

/-!
# The memory manager keeps its invariant and refines a page map

What each call does, what every run keeps, and what the calls are on the flat map of pages.
-/

set_option autoImplicit false

namespace Borked3DS.Analysis

open Borked3DS.Library Borked3DS.Model Borked3DS.Interface VMAMap

/-!
## What the calls of the memory manager do

One lemma for each public call: what a success has done to the areas (`RangeEdited` for the
calls that walk over a range) and that an error has done nothing.
-/

variable {isCached : ℕ → Bool} {M M' : VMManager} {t n k : ℕ}

/-! ### The edits -/

/-- What `MapBackingMemory` writes into the area it carved. -/
def mapped (memory : MemoryRef) (state : MemoryState) (a : VirtualMemoryArea) :
    VirtualMemoryArea :=
  { a with
    type := .backingMemory
    permissions := .readWrite
    meminfoState := state
    backingMemory := memory }

theorem mapped_rewrites {a : VirtualMemoryArea} (hbase : a.base = t) (memory : MemoryRef)
    (state : MemoryState) :
    Rewrites (fun p _ => mappedView t memory state p) a (mapped memory state a) where
  base := rfl
  size := rfl
  free := by simp [mapped]
  viewAt p := by simp [VirtualMemoryArea.viewAt, mapped, mappedView, hbase]

theorem freed_pageEdit : PageEdit VMManager.freed (fun _ _ => PageView.free) where
  rewrites a :=
    { base := rfl
      size := rfl
      free := fun _ _ => rfl
      viewAt := fun _ => rfl }
  absorbed a b hfree hm := by
    obtain ⟨hp, hs, ht, -⟩ := mergeable_iff.mp hm
    have hback := hfree ht.symm
    cases b
    simp_all [VMManager.freed]

theorem reprotected_pageEdit (newPerms : VMAPermission) :
    PageEdit (VMManager.reprotected newPerms) (fun _ v => { v with permissions := newPerms }) where
  rewrites a :=
    { base := rfl
      size := rfl
      free := fun hfree => hfree
      viewAt := fun _ => rfl }
  absorbed a b _ hm := by
    obtain ⟨hp, -⟩ := mergeable_iff.mp hm
    cases b
    simp_all [VMManager.reprotected]

theorem restated_pageEdit (newState : MemoryState) (newPerms : VMAPermission) :
    PageEdit (VMManager.restated newState newPerms)
      (fun _ v => { v with permissions := newPerms, meminfoState := newState }) where
  rewrites a :=
    { base := rfl
      size := rfl
      free := fun hfree => hfree
      viewAt := fun _ => rfl }
  absorbed a b _ hm := by
    obtain ⟨hp, hs, -⟩ := mergeable_iff.mp hm
    cases b
    simp_all [VMManager.restated]

/-! ### Mapping -/

/-- A round on one area between maximal stretches restores maximality. -/
theorem visit_restores {edit : VirtualMemoryArea → VirtualMemoryArea} {l r : VMAMap} {e : Entry}
    (hl : MaximalBehind l) (hr : r.Maximal) :
    VMAMap.Maximal ((visit edit l e r).1.reverse ++
      (visit edit l e r).2.1 :: (visit edit l e r).2.2) := by
  have hassoc : (visit edit l e r).1.reverse ++ (visit edit l e r).2.1 :: (visit edit l e r).2.2 =
      ((visit edit l e r).2.1 :: (visit edit l e r).1).reverse ++ (visit edit l e r).2.2 := by simp
  rw [hassoc, maximal_append]
  have hbehind := visit_maximal edit e r hl
  rcases visit_rest edit l e r with ⟨hrest, hm⟩ | ⟨a, r, rfl, hrest, hm⟩
  · have hbreak := visit_breaks hrest hm
    rw [hrest]
    exact ⟨hbehind, hr, hbreak⟩
  · rw [hrest]
    refine ⟨hbehind, hr.tail, (visit_breaks_absorbed hm).mpr fun c hc => ?_⟩
    cases r with
    | nil => simp at hc
    | cons c' r =>
        obtain rfl := Option.some.inj hc
        exact (List.isChain_cons_cons.mp hr).1

/-- The areas after a round. -/
def visited (edit : VirtualMemoryArea → VirtualMemoryArea) (l : VMAMap) (e : Entry) (r : VMAMap) :
    VMAMap :=
  (visit edit l.reverse e r).1.reverse ++
    (visit edit l.reverse e r).2.1 :: (visit edit l.reverse e r).2.2

/-- A successful `MapBackingMemory` carves a free area and rewrites it in one round; it returns
the area that the round leaves there.
SOURCE: vm_manager.cpp:116-133 -/
theorem mapBackingMemory_ok (h : Areas 0 MAX_ADDRESS M.vmaMap) (hn : n < 2 ^ 32)
    {memory : MemoryRef} {state : MemoryState}
    (hc : M.mapBackingMemory isCached t memory n state = .ok (M', .ok k)) :
    0 < n ∧ t + n ≤ MAX_ADDRESS ∧ pageAligned t ∧ pageAligned n ∧
      ∃ l a r pt, a.type = .free ∧ a.size = n ∧ Carved M.vmaMap t n l [(t, a)] r ∧
        M' = { M with vmaMap := visited (mapped memory state) l (t, a) r, pageTable := pt } ∧
        k = (visit (mapped memory state) l.reverse (t, a) r).2.1.1 := by
  simp only [VMManager.mapBackingMemory, bind_eq_ok, assert_eq_ok] at hc
  obtain ⟨-, hlock, -, hptr, ⟨vmas, carved⟩, hcarve, hc⟩ := hc
  cases carved with
  | error code => simp at hc
  | ok k₀ =>
      obtain ⟨rfl, hpos, hmax, htp, hnp, l, a, r, hfree, hsize, rfl, hcarved⟩ :=
        carveVMA_ok h hn hcarve
      have hareas : Areas 0 MAX_ADDRESS (l ++ (k₀, a) :: r) := by simpa using hcarved.areas
      have hbase : a.base = k₀ := (hareas.sound (k₀, a) (by simp)).key.symm
      have hareas' : Areas 0 MAX_ADDRESS (l.reverse.reverse ++ (k₀, a) :: r) := by simpa using hareas
      obtain ⟨pt, hpt⟩ := editVMA_place isCached (mapped memory state)
        (M := { M with vmaMap := l ++ (k₀, a) :: r }) (mapped_rewrites hbase memory state) hareas'
        (by simp)
      have hderef : deref (l ++ (k₀, a) :: r) k₀ = .ok a := deref_place hareas.sorted
      simp only [VMManager.editVMA, hderef, ok_bind, bind_eq_ok] at hpt
      simp only [hderef, ok_bind, bind_eq_ok, assert_eq_ok] at hc
      obtain ⟨M₁, hM₁, ⟨vmas, k₁⟩, hvmas, hpt⟩ := hpt
      obtain ⟨-, -, M₂, hM₂, ⟨vmas', k₂⟩, hvmas', hc⟩ := hc
      obtain rfl := Except.ok.inj (hM₁.symm.trans hM₂)
      obtain ⟨rfl, rfl⟩ := Prod.mk.inj (Except.ok.inj (hvmas.symm.trans hvmas'))
      obtain ⟨hM', hk⟩ := Prod.mk.inj (Except.ok.inj hc)
      obtain ⟨hM'', hk'⟩ := Prod.mk.inj (Except.ok.inj hpt)
      refine ⟨hpos, hmax, htp, hnp, l, a, r, pt, hfree, hsize, hcarved, ?_, ?_⟩
      · rw [← hM', hM'']
        rfl
      · rw [← Except.ok.inj hk, hk']

/-- A `MapBackingMemory` that returns an error changes nothing. -/
theorem mapBackingMemory_error {memory : MemoryRef} {state : MemoryState} {code : Result}
    (hc : M.mapBackingMemory isCached t memory n state = .ok (M', .error code)) : M' = M := by
  simp only [VMManager.mapBackingMemory, bind_eq_ok, assert_eq_ok] at hc
  obtain ⟨-, -, -, -, ⟨vmas, carved⟩, hcarve, hc⟩ := hc
  cases carved with
  | error code' =>
      obtain ⟨rfl, -⟩ := Prod.mk.inj (Except.ok.inj hc)
      rw [carveVMA_error hcarve]
  | ok k₀ =>
      simp only [bind_eq_ok] at hc
      obtain ⟨_, _, _, _, _, _, _, _, hc⟩ := hc
      simp at hc

/-- `MapBackingMemoryToBase` maps at the address it returns, or changes nothing.
SOURCE: vm_manager.cpp:87-114 -/
theorem mapBackingMemoryToBase_cases {base regionSize : ℕ} {memory : MemoryRef}
    {state : MemoryState} {res : ResultVal ℕ}
    (hc : M.mapBackingMemoryToBase isCached base regionSize memory n state = .ok (M', res)) :
    (M' = M ∧ ∃ code, res = .error code) ∨
      ∃ target k, res = .ok target ∧ base ≤ target ∧
        M.mapBackingMemory isCached target memory n state = .ok (M', .ok k) := by
  simp only [VMManager.mapBackingMemoryToBase, bind_eq_ok, assert_eq_ok] at hc
  obtain ⟨-, -, hc⟩ := hc
  split at hc
  next =>
    obtain ⟨rfl, rfl⟩ := Prod.mk.inj (Except.ok.inj hc)
    exact .inl ⟨rfl, _, rfl⟩
  next e _ =>
    split at hc
    next =>
      obtain ⟨rfl, rfl⟩ := Prod.mk.inj (Except.ok.inj hc)
      exact .inl ⟨rfl, _, rfl⟩
    next =>
      obtain ⟨⟨M₁, res₁⟩, hmap, hc⟩ := bind_eq_ok.mp hc
      cases res₁ with
      | error code =>
          obtain ⟨rfl, rfl⟩ := Prod.mk.inj (Except.ok.inj hc)
          exact .inl ⟨mapBackingMemory_error hmap, _, rfl⟩
      | ok k =>
          obtain ⟨rfl, rfl⟩ := Prod.mk.inj (Except.ok.inj hc)
          exact .inr ⟨_, k, rfl, le_max_left _ _, hmap⟩

/-! ### Walking over a range -/

/-- `M'` is `M` after the walk that rewrites the areas of `[t, t + n)` by `edit`. -/
structure RangeEdited (edit : VirtualMemoryArea → VirtualMemoryArea) (M : VMManager) (t n : ℕ)
    (M' : VMManager) : Prop where
  pos : 0 < n
  bound : t + n ≤ MAX_ADDRESS
  aligned : pageAligned t ∧ pageAligned n
  mapped : RangeMeets (fun a => a.type ≠ .free) M.vmaMap t n
  walk : ∃ l mid r pt, Carved M.vmaMap t n l mid r ∧
    M' = { M with vmaMap := sweep edit (t + n) l.reverse (mid ++ r), pageTable := pt }

/-- Walking over a range that was carved out, as `UnmapRange`, `ReprotectRange` and
`ChangeMemoryState` do. -/
theorem editLoop_carved (isCached : ℕ → Bool) {edit : VirtualMemoryArea → VirtualMemoryArea}
    {g : ℕ → PageView → PageView} (he : PageEdit edit g)
    (step : VMManager → ℕ → Exec (VMManager × ℕ))
    (hstep : ∀ M h, M.isLocked = false → step M h = M.editVMA isCached edit h)
    (hlock : M.isLocked = false) (hpos : 0 < n) (hbound : t + n ≤ MAX_ADDRESS)
    (haligned : pageAligned t ∧ pageAligned n)
    (hmapped : RangeMeets (fun a => a.type ≠ .free) M.vmaMap t n) {l mid r : VMAMap}
    (hcarved : Carved M.vmaMap t n l mid r) :
    ∃ M', RangeEdited edit M t n M' ∧
      VMManager.editLoop step (u32 (t + n)) ((l ++ mid ++ r).length + 1)
        { M with vmaMap := l ++ mid ++ r } (some t) = .ok M' := by
  have hmax : MAX_ADDRESS < 2 ^ 32 := by decide
  have hareas : Areas 0 MAX_ADDRESS (l.reverse.reverse ++ (mid ++ r)) := by
    simpa using hcarved.areas
  have hfirst : OrderedMap.first (mid ++ r) = some t := by
    cases mid with
    | nil => have := areas_nil.mp hcarved.within; omega
    | cons e mid => simp [OrderedMap.first, (areas_cons.mp hcarved.within).1]
  obtain ⟨pt, hpt⟩ := editLoop_sweep isCached step (t + n) ((l ++ mid ++ r).length + 1) he
    hstep (M := { M with vmaMap := l ++ mid ++ r }) hareas
    (by simp) hlock (by simp; omega)
  rw [hfirst] at hpt
  exact ⟨_, ⟨hpos, hbound, haligned, hmapped, l, mid, r, pt, hcarved, rfl⟩,
    by rw [u32_of_lt (by omega), hpt]⟩

/-- How the range calls that assert and carve return: they walked over the range, or they met a
free area, returned an error and changed nothing. -/
def RangeOutcome (edit : VirtualMemoryArea → VirtualMemoryArea) (M : VMManager) (t n : ℕ)
    (M' : VMManager) (res : Result) : Prop :=
  (res = .success ∧ RangeEdited edit M t n M') ∨
    (res = .invalidAddressState ∧ ¬ RangeMeets (fun a => a.type ≠ .free) M.vmaMap t n ∧ M' = M)

/-- `ReprotectRange`.
SOURCE: vm_manager.cpp:218-235 -/
theorem reprotectRange_cases (h : Areas 0 MAX_ADDRESS M.vmaMap) (ht : t < 2 ^ 32)
    (hn : n < 2 ^ 32) {newPerms : VMAPermission} {res : Result}
    (hc : M.reprotectRange isCached t n newPerms = .ok (M', res)) :
    RangeOutcome (VMManager.reprotected newPerms) M t n M' res := by
  simp only [VMManager.reprotectRange, bind_eq_ok, assert_eq_ok] at hc
  obtain ⟨-, hlock, ⟨vmas, carved⟩, hcarve, hc⟩ := hc
  obtain ⟨hpos, hbound, htp, hnp, hcases⟩ := carveVMARange_cases h ht hn hcarve
  rcases hcases with ⟨rfl, hmapped, l, mid, r, rfl, hcarved⟩ | ⟨rfl, hfree, rfl⟩
  · obtain ⟨M₁, hM₁, hloop⟩ := editLoop_carved isCached (reprotected_pageEdit newPerms)
      (fun m h => m.reprotect isCached h newPerms)
      (fun M h hM => by simp [VMManager.reprotect, assert, hM]) hlock hpos hbound ⟨htp, hnp⟩
      hmapped hcarved
    simp only [hloop, ok_bind] at hc
    obtain ⟨rfl, rfl⟩ := Prod.mk.inj (Except.ok.inj hc)
    exact .inl ⟨rfl, hM₁⟩
  · obtain ⟨rfl, rfl⟩ := Prod.mk.inj (Except.ok.inj hc)
    exact .inr ⟨rfl, hfree, rfl⟩

/-- `UnmapRange`.
SOURCE: vm_manager.cpp:185-204 -/
theorem unmapRange_cases (h : Areas 0 MAX_ADDRESS M.vmaMap) (ht : t < 2 ^ 32) (hn : n < 2 ^ 32)
    {res : Result} (hc : M.unmapRange isCached t n = .ok (M', res)) :
    RangeOutcome VMManager.freed M t n M' res := by
  simp only [VMManager.unmapRange, bind_eq_ok, assert_eq_ok] at hc
  obtain ⟨-, hlock, ⟨vmas, carved⟩, hcarve, hc⟩ := hc
  obtain ⟨hpos, hbound, htp, hnp, hcases⟩ := carveVMARange_cases h ht hn hcarve
  rcases hcases with ⟨rfl, hmapped, l, mid, r, rfl, hcarved⟩ | ⟨rfl, hfree, rfl⟩
  · obtain ⟨M₁, hM₁, hloop⟩ := editLoop_carved isCached freed_pageEdit
      (VMManager.unmap isCached) (fun M h hM => by simp [VMManager.unmap, assert, hM])
      hlock hpos hbound ⟨htp, hnp⟩ hmapped hcarved
    simp only [hloop, ok_bind] at hc
    split at hc
    next => simp at hc
    next =>
      simp only [bind_eq_ok] at hc
      obtain ⟨_, _, _, _, hc⟩ := hc
      obtain ⟨rfl, rfl⟩ := Prod.mk.inj (Except.ok.inj hc)
      exact .inl ⟨rfl, hM₁⟩
  · obtain ⟨rfl, rfl⟩ := Prod.mk.inj (Except.ok.inj hc)
    exact .inr ⟨rfl, hfree, rfl⟩

/-- `ChangeMemoryState` on an unlocked address space.
SOURCE: vm_manager.cpp:135-169 -/
theorem changeMemoryState_cases (h : Areas 0 MAX_ADDRESS M.vmaMap) (hlock : M.isLocked = false)
    (ht : t < 2 ^ 32) (hn : n < 2 ^ 32) {expectedState newState : MemoryState}
    {expectedPerms newPerms : VMAPermission} {res : Result}
    (hc : M.changeMemoryState isCached t n expectedState expectedPerms newState newPerms =
      .ok (M', res)) :
    (res = .success ∧ RangeEdited (VMManager.restated newState newPerms) M t n M' ∧
        RangeMeets (fun a => a.type ≠ .free ∧ a.meminfoState = expectedState ∧
          a.permissions.includes expectedPerms = true) M.vmaMap t n) ∨
      (res ≠ .success ∧ M' = M ∧ (0 < n → t + n < MAX_ADDRESS →
        ¬ RangeMeets (fun a => a.type ≠ .free ∧ a.meminfoState = expectedState ∧
          a.permissions.includes expectedPerms = true) M.vmaMap t n)) := by
  have hmax : MAX_ADDRESS < 2 ^ 32 := by decide
  rw [VMManager.changeMemoryState, if_neg (by simp [hlock])] at hc
  simp only [VMManager.findVMA] at hc
  rcases Nat.lt_or_ge t MAX_ADDRESS with hin | hout
  · obtain ⟨l₀, e, r₀, hm, hle, hlt, hfind⟩ := findVMA_spec h hin
    simp only [hfind] at hc
    obtain ⟨asExpected, hwalk, hc⟩ := bind_eq_ok.mp hc
    -- what the walk has checked, when the end of the range did not wrap around
    have hexpected : 0 < n → t + n ≤ MAX_ADDRESS → (asExpected = true ↔
        RangeMeets (fun a => a.meminfoState = expectedState ∧
          a.permissions.includes expectedPerms = true) M.vmaMap t n) := by
      intro hpos hbound
      obtain ⟨b, hb, hmeets⟩ := allUpTo_range (hm ▸ h) hle hlt (show t < t + n by omega)
        (fun vma => decide (vma.meminfoState = expectedState) &&
          vma.permissions.includes expectedPerms)
      rw [hm, u32_of_lt (by omega)] at hwalk
      obtain rfl := Except.ok.inj (hwalk.symm.trans hb)
      rw [hm, hmeets]
      simp
    split at hc
    next hasExpected =>
      obtain ⟨⟨vmas, carved⟩, hcarve, hc⟩ := bind_eq_ok.mp hc
      obtain ⟨hpos, hbound, htp, hnp, hcases⟩ := carveVMARange_cases h ht hn hcarve
      rcases hcases with ⟨rfl, hmapped, l, mid, r, rfl, hcarved⟩ | ⟨rfl, hfree, rfl⟩
      · obtain ⟨M₁, hM₁, hloop⟩ := editLoop_carved isCached
          (restated_pageEdit newState newPerms) _ (fun M h _ => rfl) hlock hpos hbound ⟨htp, hnp⟩
          hmapped hcarved
        simp only [hloop, ok_bind] at hc
        obtain ⟨rfl, rfl⟩ := Prod.mk.inj (Except.ok.inj hc)
        have hmeets := (hexpected hpos hbound).mp hasExpected
        exact .inl ⟨rfl, hM₁, fun a ha hin' hbelow =>
          ⟨hmapped a ha hin' hbelow, hmeets a ha hin' hbelow⟩⟩
      · obtain ⟨rfl, rfl⟩ := Prod.mk.inj (Except.ok.inj hc)
        exact .inr ⟨by simp, rfl, fun _ _ hmeets => hfree fun a ha hin' hbelow =>
          (hmeets a ha hin' hbelow).1⟩
    next hnot =>
      obtain ⟨rfl, rfl⟩ := Prod.mk.inj (Except.ok.inj hc)
      exact .inr ⟨by simp, rfl, fun hpos hbound hmeets => hnot ((hexpected hpos hbound.le).mpr
        fun a ha hin' hbelow => (hmeets a ha hin' hbelow).2)⟩
  · rw [findVMA_of_ge hout] at hc
    obtain ⟨rfl, rfl⟩ := Prod.mk.inj (Except.ok.inj hc)
    exact .inr ⟨by simp, rfl, fun _ hbound => absurd hbound (by omega)⟩

section RangeEdited

variable {edit : VirtualMemoryArea → VirtualMemoryArea} {g : ℕ → PageView → PageView}

theorem RangeEdited.areas (he : PageEdit edit g) (hr : RangeEdited edit M t n M') :
    Areas 0 MAX_ADDRESS M'.vmaMap := by
  obtain ⟨l, mid, r, pt, hcarved, rfl⟩ := hr.walk
  exact sweep_areas he (by simpa using hcarved.areas)

theorem RangeEdited.isLocked (hr : RangeEdited edit M t n M') : M'.isLocked = M.isLocked := by
  obtain ⟨l, mid, r, pt, -, rfl⟩ := hr.walk
  rfl

/-- A walk over a range rewrites the flat map there and nowhere else. -/
theorem RangeEdited.view (he : PageEdit edit g) (hr : RangeEdited edit M t n M') :
    M'.vmaMap.view = PageMap.updateRange M.vmaMap.view t n g := by
  obtain ⟨l, mid, r, pt, hcarved, rfl⟩ := hr.walk
  funext p
  have hassoc : l.reverse.reverse ++ (mid ++ r) = l ++ mid ++ r := by simp
  have hends : ∀ e ∈ mid ++ r, e.1 < t + n → e.1 + e.2.size ≤ t + n := by
    intro e he hlt
    rcases List.mem_append.mp he with he | he
    · exact (hcarved.within.bounds he).2.2
    · have := hcarved.after.bounds he
      omega
  rw [sweep_view he (by simpa using hcarved.before) (hcarved.within.append hcarved.after) hends,
    hassoc, hcarved.same]
  rfl

end RangeEdited

end Borked3DS.Analysis

/-!
## The representation invariant of the memory manager

Every call keeps `vma_map` a partition of the managed address space, and keeps it as coarse as
possible unless it strands the tail of an area (`VMCall.Strands`). The condition is exact, and
both directions are carried over whole runs.
-/

namespace Borked3DS.Analysis

open Borked3DS.Library Borked3DS.Model Borked3DS.Interface VMAMap

section Strands

variable {edit : VirtualMemoryArea → VirtualMemoryArea} {g : PageView → PageView}
  {m l mid r : VMAMap} {t n : ℕ}

/-- A rewritten area absorbs the next one when the flat map, rewritten before that one's base,
runs on there. -/
theorem edit_mergeable_place {q a : Entry} {post : VMAMap} (he : PageEdit edit fun _ => g)
    (h : Areas 0 MAX_ADDRESS (l ++ q :: a :: post)) :
    (edit q.2).mergeable a.2 = true ↔ ∃ v w, view (l ++ q :: a :: post) (a.1 - 1) = some v ∧
      view (l ++ q :: a :: post) a.1 = some w ∧ (g v).Continues w := by
  obtain ⟨-, hpos, hs, hrest⟩ := areas_place.mp h
  obtain ⟨hk, hpos', hs', -⟩ := areas_cons.mp hrest
  have hleft : view (l ++ q :: a :: post) (a.1 - 1) = some (q.2.viewAt (a.1 - 1)) :=
    view_place h (by omega) (by omega)
  have hright : view (l ++ q :: a :: post) a.1 = some (a.2.viewAt a.1) := by
    have hassoc : l ++ q :: a :: post = (l ++ [q]) ++ a :: post := by simp
    rw [hassoc] at h ⊢
    exact view_place h le_rfl (by omega)
  have hq := he.rewrites q.2
  have hadj : (edit q.2).base + (edit q.2).size = a.2.base := by
    rw [hq.base, hq.size, ← hs.key, ← hs'.key, hk]
  rw [mergeable_iff_continues hadj (by rw [hq.size]; exact hpos), ← hs'.key, hq.viewAt, hleft,
    hright]
  simp

/-- On a carved map the walk swallows an area exactly when the range strands the tail of one. -/
theorem swallows_iff_strandsTail (he : PageEdit edit fun _ => g) (hm : Areas 0 MAX_ADDRESS m)
    (hmax : m.Maximal) (hc : Carved m t n l mid r) :
    Swallows edit (t + n) (mid ++ r) ↔ StrandsTail g m t n := by
  have hwhole := hc.areas
  constructor
  · rintro ⟨pre, q, a, c, post, heq, hc1, hqa, hac⟩
    have hinner := hc.within.append hc.after
    rw [heq] at hinner
    rw [List.append_assoc, heq, ← List.append_assoc] at hwhole
    have hsame := hc.same
    have hkeys := hc.keys
    rw [List.append_assoc, heq, ← List.append_assoc] at hsame hkeys
    obtain ⟨hpre, hqpos, -, ha⟩ := areas_place.mp hinner
    obtain ⟨hak, hapos, -, hcs⟩ := areas_cons.mp ha
    obtain ⟨hck, hcpos, -, hpost⟩ := areas_cons.mp hcs
    have := hpre.le
    have := hpost.le
    -- the absorbed area begins where an area of the map begins
    have hmem : a.1 ∈ m.keys := by
      rcases (hkeys a.1).mp (by simp [VMAMap.keys]) with hold | heq | heq
      · exact hold
      · omega
      · omega
    obtain ⟨e, hem, hea⟩ := List.mem_map.mp hmem
    obtain ⟨l₀, r₀, rfl⟩ := List.append_of_mem hem
    obtain ⟨-, hepos, -, hr₀⟩ := areas_place.mp hm
    have hassoc : l ++ pre ++ q :: a :: c :: post = (l ++ pre ++ [q]) ++ a :: c :: post := by simp
    have hcont : (view (l₀ ++ e :: r₀)).ContinuesAt c.1 := by
      rw [← hsame]
      rw [hassoc] at hwhole ⊢
      exact (mergeable_place hwhole).mp hac
    have hend : t + n < e.1 + e.2.size := by
      by_contra hshort
      cases r₀ with
      | nil => have := areas_nil.mp hr₀; omega
      | cons f r₀ =>
          have hf := (areas_cons.mp hr₀).1
          have hfmem : f.1 ∈ VMAMap.keys (l₀ ++ e :: f :: r₀) := by simp [VMAMap.keys]
          have hfwhole := (hkeys f.1).mpr (.inl hfmem)
          rw [hassoc] at hwhole hfwhole
          rcases hwhole.key_outside hfwhole with hle | hge
          · omega
          · -- the area ends with the range, where the flat map would have to break
            have hfc : f.1 = c.1 := by omega
            exact (maximal_iff hm).mp hmax f.1 hfmem (by omega) (hfc ▸ hcont)
    refine ⟨e, hem, by omega, by omega, hend, ?_⟩
    rw [hea, ← hsame]
    exact (edit_mergeable_place he hwhole).mp hqa
  · rintro ⟨e, hem, htlt, hltn, hend, v, w, hv, hw, hvw⟩
    obtain ⟨l₀, r₀, rfl⟩ := List.append_of_mem hem
    have hbound := (hm.bounds (e := e) (by simp)).2.2
    -- the area that begins there is the last one of the range
    have hmem : e.1 ∈ mid.keys := by
      have := (hc.keys e.1).mpr (.inl (by simp [VMAMap.keys]))
      simp only [VMAMap.keys, List.map_append, List.mem_append] at this
      rcases this with (hk | hk) | hk
      · obtain ⟨b, hb, hbe⟩ := List.mem_map.mp hk
        have := hc.before.bounds hb
        omega
      · exact hk
      · obtain ⟨b, hb, hbe⟩ := List.mem_map.mp hk
        have := hc.after.bounds hb
        omega
    obtain ⟨a, ha, hae⟩ := List.mem_map.mp hmem
    obtain ⟨pre, post, rfl⟩ := List.append_of_mem ha
    obtain ⟨hpre, hapos, -, hpost⟩ := areas_place.mp hc.within
    obtain rfl : post = [] := by
      cases post with
      | nil => rfl
      | cons b post =>
          have hb := areas_cons.mp hpost
          have hbend := hc.within.bounds (e := b) (by simp)
          have := (hc.keys b.1).mp (by simp [VMAMap.keys])
          rcases this with hk | hk | hk
          · have := hm.key_outside hk
            omega
          · omega
          · omega
    have haend := areas_nil.mp hpost
    rcases List.eq_nil_or_concat pre with rfl | ⟨pre, q, rfl⟩
    · have := areas_nil.mp hpre
      omega
    · cases r with
      | nil =>
          have := areas_nil.mp hc.after
          omega
      | cons c r =>
          have hck := (areas_cons.mp hc.after).1
          have hassoc : l ++ (pre.concat q ++ [a]) ++ c :: r = (l ++ pre) ++ q :: a :: c :: r := by
            simp
          have hassoc' : (l ++ pre) ++ q :: a :: c :: r = (l ++ pre ++ [q]) ++ a :: c :: r := by
            simp
          have hsame := hc.same
          rw [hassoc] at hwhole hsame
          refine ⟨pre, q, a, c, r, by simp, hck, ?_, ?_⟩
          · rw [edit_mergeable_place he hwhole, hae, hsame]
            exact ⟨v, w, hv, hw, hvw⟩
          · rw [hassoc'] at hwhole hsame
            rw [mergeable_place hwhole, hsame, hck]
            have hlast : view (l₀ ++ e :: r₀) (t + n - 1) = some (e.2.viewAt (t + n - 1)) :=
              view_place hm (by omega) (by omega)
            have hnext : view (l₀ ++ e :: r₀) (t + n) = some (e.2.viewAt (t + n)) :=
              view_place hm (by omega) (by omega)
            have hbase := (hm.sound e (by simp)).key
            exact ⟨_, _, hlast, hnext, viewAt_continues (by omega)⟩

end Strands

variable {isCached : ℕ → Bool} {M M' : VMManager} {t n : ℕ}

/-- The part of the invariant that every call keeps: the address space is unlocked and its areas
are sound and tile it. -/
structure Consistent (M : VMManager) : Prop where
  areas : Areas 0 MAX_ADDRESS M.vmaMap
  unlocked : M.isLocked = false

/-- An unlocked address space can be cleared. -/
theorem reset_exists (isCached : ℕ → Bool) (M : VMManager) (hlock : M.isLocked = false) : ∃ pt, M.reset isCached =
    .ok { vmaMap := [(0, VMManager.initialVma)], pageTable := pt, isLocked := M.isLocked } := by
  obtain ⟨pt, hpt⟩ := updatePageTable_ok isCached
    { M with vmaMap := [(VMManager.initialVma.base, VMManager.initialVma)], pageTable := .clear }
    (a := VMManager.initialVma) rfl rfl (by decide)
  refine ⟨pt, ?_⟩
  rw [VMManager.reset, hpt, assert, if_pos hlock]
  rfl

/-- A cleared address space is one free area.
SOURCE: vm_manager.cpp:64-77 -/
theorem reset_ok (hM : M.reset isCached = .ok M') :
    M'.vmaMap = [(0, VMManager.initialVma)] ∧ M'.isLocked = false := by
  obtain ⟨u, hlock, -⟩ := bind_eq_ok.mp hM
  obtain ⟨pt, hpt⟩ := reset_exists isCached M (assert_eq_ok.mp hlock)
  obtain rfl := Except.ok.inj (hpt.symm.trans hM)
  exact ⟨rfl, assert_eq_ok.mp hlock⟩

theorem reset_consistent (hM : M.reset isCached = .ok M') : Consistent M' := by
  obtain ⟨hmap, hlock⟩ := reset_ok hM
  refine ⟨?_, hlock⟩
  rw [hmap]
  exact areas_cons.mpr ⟨rfl, by decide, ⟨rfl, ⟨rfl, rfl⟩, fun _ => rfl⟩, areas_nil.mpr rfl⟩

theorem reset_maximal (hM : M.reset isCached = .ok M') : M'.vmaMap.Maximal := by
  rw [(reset_ok hM).1]
  exact List.isChain_singleton _

/-! ### One round calls -/

/-- `MapBackingMemory` keeps the invariant whether it succeeds or not. -/
theorem mapBackingMemory_invariant (h : Consistent M) (hn : n < 2 ^ 32) {memory : MemoryRef}
    {state : MemoryState} {res : ResultVal ℕ}
    (hc : M.mapBackingMemory isCached t memory n state = .ok (M', res)) :
    Consistent M' ∧ (M.vmaMap.Maximal → M'.vmaMap.Maximal) := by
  cases res with
  | error code =>
      obtain rfl := mapBackingMemory_error hc
      exact ⟨h, id⟩
  | ok k =>
      obtain ⟨-, -, -, -, l, a, r, pt, -, -, hcarved, rfl, -⟩ := mapBackingMemory_ok h.areas hn hc
      have hareas : Areas 0 MAX_ADDRESS (l.reverse.reverse ++ (t, a) :: r) := by
        simpa using hcarved.areas
      have hbase : a.base = t := (hareas.sound (t, a) (by simp)).key.symm
      refine ⟨⟨visit_areas (mapped_rewrites hbase memory state) hareas, h.unlocked⟩, fun hmax => ?_⟩
      obtain ⟨hl, -, hr⟩ := hcarved.maximal h.areas hmax
      exact visit_restores (maximal_reverse.mp (by simpa using hl)) hr

theorem mapBackingMemoryToBase_invariant (h : Consistent M) (hn : n < 2 ^ 32) {base regionSize : ℕ}
    {memory : MemoryRef} {state : MemoryState} {res : ResultVal ℕ}
    (hc : M.mapBackingMemoryToBase isCached base regionSize memory n state = .ok (M', res)) :
    Consistent M' ∧ (M.vmaMap.Maximal → M'.vmaMap.Maximal) := by
  rcases mapBackingMemoryToBase_cases hc with ⟨rfl, -⟩ | ⟨target, k, -, -, hmap⟩
  · exact ⟨h, id⟩
  · exact mapBackingMemory_invariant h hn hmap

/-- `Reprotect` is one round on the area under its handle.
SOURCE: vm_manager.cpp:206-216 -/
theorem reprotect_ok (h : Areas 0 MAX_ADDRESS M.vmaMap) {vma k : ℕ} {newPerms : VMAPermission}
    (hc : M.reprotect isCached vma newPerms = .ok (M', k)) :
    ∃ l a r pt, M.vmaMap = l ++ (vma, a) :: r ∧
      M' = { M with
        vmaMap := visited (VMManager.reprotected newPerms) l (vma, a) r, pageTable := pt } := by
  simp only [VMManager.reprotect, bind_eq_ok, assert_eq_ok] at hc
  obtain ⟨-, -, hc⟩ := hc
  have hlook : ∃ a, OrderedMap.lookup vma M.vmaMap = some a := by
    obtain ⟨a, ha, -⟩ := bind_eq_ok.mp hc
    rw [deref] at ha
    split at ha
    next a' h' => exact ⟨a', h'⟩
    next => simp at ha
  obtain ⟨a, ha⟩ := hlook
  obtain ⟨l, r, hm⟩ := OrderedMap.place_of_lookup ha
  obtain ⟨pt, hpt⟩ := editVMA_place isCached (VMManager.reprotected newPerms) (l := l.reverse) (e := (vma, a))
    ((reprotected_pageEdit newPerms).rewrites a) (by simpa [hm] using h) (by simpa using hm)
  obtain ⟨rfl, -⟩ := Prod.mk.inj (Except.ok.inj (hpt.symm.trans hc))
  exact ⟨l, a, r, pt, hm, rfl⟩

theorem reprotect_invariant (h : Consistent M) {vma k : ℕ} {newPerms : VMAPermission}
    (hc : M.reprotect isCached vma newPerms = .ok (M', k)) :
    Consistent M' ∧ (M.vmaMap.Maximal → M'.vmaMap.Maximal) := by
  obtain ⟨l, a, r, pt, hm, rfl⟩ := reprotect_ok h.areas hc
  have hareas : Areas 0 MAX_ADDRESS (l.reverse.reverse ++ (vma, a) :: r) := by
    simpa [hm] using h.areas
  refine ⟨⟨visit_areas ((reprotected_pageEdit newPerms).rewrites a) hareas, h.unlocked⟩,
    fun hmax => ?_⟩
  have hmax : VMAMap.Maximal (l.reverse.reverse ++ (vma, a) :: r) := by simpa [hm] using hmax
  obtain ⟨hl, hr, -⟩ := maximal_append.mp hmax
  exact visit_restores hl hr.tail

/-! ### Range calls -/

/-- A walk over a maximal address space leaves it maximal unless the range strands the tail of an
area. -/
theorem RangeEdited.maximal_iff {edit : VirtualMemoryArea → VirtualMemoryArea}
    {g : PageView → PageView} (he : PageEdit edit fun _ => g) (h : Areas 0 MAX_ADDRESS M.vmaMap)
    (hmax : M.vmaMap.Maximal) (hr : RangeEdited edit M t n M') :
    M'.vmaMap.Maximal ↔ ¬ StrandsTail g M.vmaMap t n := by
  obtain ⟨l, mid, r, pt, hcarved, rfl⟩ := hr.walk
  obtain ⟨hl, hmid, hr'⟩ := hcarved.maximal h hmax
  have hpos := hr.pos
  have hinner := hcarved.within.append hcarved.after
  have hbut : MaximalBut (t + n) (mid ++ r) := by
    rw [MaximalBut, List.isChain_append]
    refine ⟨hmid.imp fun a b hab _ => hab, hr'.imp fun a b hab _ => hab, fun a _ b hb hne => ?_⟩
    cases r with
    | nil => simp at hb
    | cons c r =>
        obtain rfl := Option.some.inj hb
        exact absurd (areas_cons.mp hcarved.after).1 hne
  rw [← swallows_iff_strandsTail he h hmax hcarved]
  refine sweep_maximal he hinner hbut (maximal_reverse.mp (by simpa using hl)) fun hdone => ?_
  cases mid with
  | nil => have := areas_nil.mp hcarved.within; omega
  | cons e mid =>
      have := hdone e (by simp)
      have := (areas_cons.mp hcarved.within).1
      omega

theorem RangeEdited.consistent {edit : VirtualMemoryArea → VirtualMemoryArea}
    {g : ℕ → PageView → PageView} (he : PageEdit edit g) (h : Consistent M)
    (hr : RangeEdited edit M t n M') : Consistent M' :=
  ⟨hr.areas he, hr.isLocked.trans h.unlocked⟩

/-- A range of mapped areas strands no tail when it is unmapped. -/
theorem not_strandsTail_free {m : VMAMap} (h : Areas 0 MAX_ADDRESS m)
    (hmapped : RangeMeets (fun a => a.type ≠ .free) m t n) :
    ¬ StrandsTail (fun _ => PageView.free) m t n := by
  rintro ⟨e, he, hlo, hhi, hend, v, w, -, hw, hcont⟩
  obtain ⟨l, r, rfl⟩ := List.append_of_mem he
  obtain ⟨-, hpos, -⟩ := areas_place.mp h
  rw [view_place h le_rfl (by omega)] at hw
  obtain rfl := Option.some.inj hw
  exact hmapped e he (by omega) hhi hcont.2.2.1.symm

/-- `M'` is a sound address space, and as coarse as possible if `M` was, exactly when `c` fails. -/
def Keeps (c : Prop) (M M' : VMManager) : Prop :=
  Consistent M' ∧ (M.vmaMap.Maximal → (M'.vmaMap.Maximal ↔ ¬ c))

theorem keeps_of_maximal (h : Consistent M' ∧ (M.vmaMap.Maximal → M'.vmaMap.Maximal)) :
    Keeps False M M' := ⟨h.1, fun hmax => iff_of_true (h.2 hmax) not_false⟩

theorem keeps_refl {c : Prop} (h : Consistent M) (hc : ¬ c) : Keeps c M M :=
  ⟨h, fun hmax => iff_of_true hmax hc⟩

theorem RangeOutcome.keeps {edit : VirtualMemoryArea → VirtualMemoryArea}
    {g : PageView → PageView} (he : PageEdit edit fun _ => g) (h : Consistent M) {res : Result}
    (hr : RangeOutcome edit M t n M' res) :
    Keeps (RangeMeets (fun a => a.type ≠ .free) M.vmaMap t n ∧ StrandsTail g M.vmaMap t n)
      M M' := by
  rcases hr with ⟨-, hedited⟩ | ⟨-, hfree, rfl⟩
  · refine ⟨hedited.consistent he h, fun hmax => ?_⟩
    rw [hedited.maximal_iff he h.areas hmax, and_iff_right hedited.mapped]
  · exact keeps_refl h fun hc => hfree hc.1

/-- What one call does to the representation invariant. -/
theorem step_keeps {call : VMCall} (h : Consistent M) (hc : call.step isCached M = .ok M') :
    Keeps (call.Strands M.vmaMap) M M' := by
  cases call with
  | mapBackingMemory target memory size state =>
      obtain ⟨⟨M₁, res⟩, hcall, hc⟩ := bind_eq_ok.mp hc
      obtain rfl := Except.ok.inj hc
      exact keeps_of_maximal (mapBackingMemory_invariant h size.toNat_lt hcall)
  | mapBackingMemoryToBase base regionSize memory size state =>
      obtain ⟨⟨M₁, res⟩, hcall, hc⟩ := bind_eq_ok.mp hc
      obtain rfl := Except.ok.inj hc
      exact keeps_of_maximal (mapBackingMemoryToBase_invariant h size.toNat_lt hcall)
  | unmapRange target size =>
      obtain ⟨⟨M₁, res⟩, hcall, hc⟩ := bind_eq_ok.mp hc
      obtain rfl := Except.ok.inj hc
      have hcases := unmapRange_cases h.areas target.toNat_lt size.toNat_lt hcall
      obtain ⟨hcons, hiff⟩ := hcases.keeps freed_pageEdit h
      exact ⟨hcons, fun hmax => (hiff hmax).trans
        (not_congr (iff_false_intro fun hs => not_strandsTail_free h.areas hs.1 hs.2))⟩
  | reprotect vma newPerms =>
      obtain ⟨⟨M₁, k⟩, hcall, hc⟩ := bind_eq_ok.mp hc
      obtain rfl := Except.ok.inj hc
      exact keeps_of_maximal (reprotect_invariant h hcall)
  | reprotectRange target size newPerms =>
      obtain ⟨⟨M₁, res⟩, hcall, hc⟩ := bind_eq_ok.mp hc
      obtain rfl := Except.ok.inj hc
      exact (reprotectRange_cases h.areas target.toNat_lt size.toNat_lt hcall).keeps
        (reprotected_pageEdit newPerms) h
  | changeMemoryState target size expectedState expectedPerms newState newPerms =>
      obtain ⟨⟨M₁, res⟩, hcall, hc⟩ := bind_eq_ok.mp hc
      obtain rfl := Except.ok.inj hc
      rcases changeMemoryState_cases h.areas h.unlocked target.toNat_lt size.toNat_lt hcall with
        ⟨-, hedited, hmeets⟩ | ⟨-, rfl, hnot⟩
      · refine ⟨hedited.consistent (restated_pageEdit newState newPerms) h, fun hmax => ?_⟩
        rw [hedited.maximal_iff (restated_pageEdit newState newPerms) h.areas hmax]
        exact not_congr (and_iff_right hmeets).symm
      · refine keeps_refl h ?_
        rintro ⟨hmeets, htail⟩
        obtain ⟨e, he, hlo, hhi, hend, -⟩ := htail
        have := (h.areas.bounds he).2.2
        exact hnot (by omega) (by omega) hmeets

/-! ### Runs -/

theorem consistent_invariant {s₀ s : VMManager} (h₀ : M.reset isCached = .ok s₀)
    (hs : Reachable (VMCall.step isCached) s₀ s) : Consistent s :=
  invariant_of_step (fun _ _ _ h hc => (step_keeps h hc).1) (reset_consistent h₀) hs

/-- Map three pages, take the write permission of the first one away, and give it back together
with that of the second one. -/
def strandingCalls : List VMCall :=
  [.mapBackingMemory 0x08000000 ⟨some ⟨0x10000, 0x3000⟩, 0⟩ 0x3000 .private_,
    .reprotectRange 0x08000000 0x1000 { read := true },
    .reprotectRange 0x08000000 0x2000 .readWrite]

/-- The three calls of `strandingCalls` leave the last page in an area of its own. -/
theorem strandingCalls_not_maximal (pt : PageTable) :
    ∃ s, run (VMCall.step fun _ => false) ⟨[(0, VMManager.initialVma)], pt, false⟩
      strandingCalls = .ok s ∧ ¬ s.vmaMap.Maximal := by
  have hrun : (run (VMCall.step fun _ => false) ⟨[(0, VMManager.initialVma)], pt, false⟩
      strandingCalls).map (fun s => s.vmaMap.map fun e => (e.2.size, e.2.permissions,
        e.2.meminfoState, e.2.type, e.2.backingMemory)) =
      .ok [(0x08000000, .none, .free, .free, .null),
        (0x2000, .readWrite, .private_, .backingMemory, ⟨some ⟨0x10000, 0x3000⟩, 0⟩),
        (0x1000, .readWrite, .private_, .backingMemory, ⟨some ⟨0x10000, 0x3000⟩, 0x2000⟩),
        (0x40000000 - 0x08003000, .none, .free, .free, .null)] := rfl
  generalize run (VMCall.step fun _ => false) ⟨[(0, VMManager.initialVma)], pt, false⟩
    strandingCalls = x at hrun ⊢
  cases x with
  | error fault => cases hrun
  | ok s =>
      refine ⟨s, rfl, fun hmax => ?_⟩
      have hmap := Except.ok.inj hrun
      simp only [List.map_eq_cons_iff, List.map_eq_nil_iff] at hmap
      obtain ⟨e₀, _, hs, -, e₁, _, rfl, h₁, e₂, _, rfl, h₂, e₃, _, rfl, -, rfl⟩ := hmap
      simp only [Prod.mk.injEq] at h₁ h₂
      rw [hs] at hmax
      have hpair := (List.isChain_cons_cons.mp (List.isChain_cons_cons.mp hmax).2).1
      rw [← Bool.not_eq_true, mergeable_iff] at hpair
      simp [h₁, h₂, MemoryRef.getPtr] at hpair

end Borked3DS.Analysis

/-!
## The memory manager refines a flat page map

In every state a run from `Reset` reaches, each call acts on the flat map of the address space
as its purpose says: it rewrites its range and nothing else, or fails and changes nothing.
-/

namespace Borked3DS.Analysis

open Borked3DS.Library Borked3DS.Model Borked3DS.Interface VMAMap

variable {isCached : ℕ → Bool} {M M' : VMManager} {t n : ℕ}

/-- The flat map is defined on the managed address space and nowhere else. -/
theorem view_isSome_iff (h : Areas 0 MAX_ADDRESS M.vmaMap) (p : ℕ) :
    (M.vmaMap.view p).isSome ↔ p < MAX_ADDRESS := by
  constructor
  · intro hsome
    by_contra hge
    simp [view_of_ge h (Nat.le_of_not_lt hge)] at hsome
  · exact denote_isSome h.tiles (Nat.zero_le p)

theorem mapBackingMemory_rewrites (h : Consistent M) (hn : n < 2 ^ 32) {memory : MemoryRef}
    {state : MemoryState} {res : ResultVal ℕ}
    (hc : M.mapBackingMemory isCached t memory n state = .ok (M', res)) :
    RewritesRange M M' (∃ k, res = .ok k) t n fun p _ => mappedView t memory state p := by
  cases res with
  | error code =>
      obtain rfl := mapBackingMemory_error hc
      exact ⟨fun hok => by simp at hok, fun _ => rfl⟩
  | ok k =>
      refine ⟨fun _ => ?_, fun hnot => absurd ⟨k, rfl⟩ hnot⟩
      obtain ⟨-, hmax, -, -, l, a, r, pt, -, hsize, hcarved, rfl, -⟩ :=
        mapBackingMemory_ok h.areas hn hc
      have hareas : Areas 0 MAX_ADDRESS (l.reverse.reverse ++ (t, a) :: r) := by
        simpa using hcarved.areas
      have hbase : a.base = t := (hareas.sound (t, a) (by simp)).key.symm
      have hsame : view (l.reverse.reverse ++ (t, a) :: r) = view M.vmaMap := by
        simpa using hcarved.same
      refine ⟨hmax, ?_⟩
      funext p
      have hvisit := visit_view (p := p) (mapped_rewrites hbase memory state) hareas
      rw [hsame, hsize] at hvisit
      exact hvisit

/-- A range call acts on the flat map by the rewriting of its edit. -/
theorem RangeOutcome.rewrites {edit : VirtualMemoryArea → VirtualMemoryArea}
    {g : ℕ → PageView → PageView} (he : PageEdit edit g) {res : Result}
    (hr : RangeOutcome edit M t n M' res) : RewritesRange M M' (res = .success) t n g := by
  rcases hr with ⟨rfl, hedited⟩ | ⟨rfl, -, rfl⟩
  · exact ⟨fun _ => ⟨hedited.bound, hedited.view he⟩, fun hnot => absurd rfl hnot⟩
  · exact ⟨fun hok => by simp at hok, fun _ => rfl⟩

theorem changeMemoryState_rewrites (h : Consistent M) (ht : t < 2 ^ 32) (hn : n < 2 ^ 32)
    {expectedState newState : MemoryState} {expectedPerms newPerms : VMAPermission} {res : Result}
    (hc : M.changeMemoryState isCached t n expectedState expectedPerms newState newPerms =
      .ok (M', res)) :
    RewritesRange M M' (res = .success) t n
      fun _ v => { v with permissions := newPerms, meminfoState := newState } := by
  rcases changeMemoryState_cases h.areas h.unlocked ht hn hc with ⟨rfl, hedited, -⟩ | ⟨hne, rfl, -⟩
  · exact ⟨fun _ => ⟨hedited.bound, hedited.view (restated_pageEdit newState newPerms)⟩,
      fun hnot => absurd rfl hnot⟩
  · exact ⟨fun hok => absurd hok hne, fun _ => rfl⟩

/-- The calls of the memory manager refine calls on a flat page map, in every state that a run
from `Reset` reaches. -/
theorem vmManager_refines_pageMap (isCached : ℕ → Bool) (m s₀ s : VMManager)
    (h₀ : m.reset isCached = .ok s₀) (hs : Reachable (VMCall.step isCached) s₀ s)
    (t n : UInt32) :
    (∀ p, (s.vmaMap.view p).isSome ↔ p < MAX_ADDRESS) ∧
    (∀ memory state s' res,
      s.mapBackingMemory isCached t.toNat memory n.toNat state = .ok (s', res) →
      RewritesRange s s' (∃ k, res = .ok k) t.toNat n.toNat
        fun p _ => mappedView t.toNat memory state p) ∧
    (∀ s' res, s.unmapRange isCached t.toNat n.toNat = .ok (s', res) →
      RewritesRange s s' (res = .success) t.toNat n.toNat fun _ _ => PageView.free) ∧
    (∀ perm s' res, s.reprotectRange isCached t.toNat n.toNat perm = .ok (s', res) →
      RewritesRange s s' (res = .success) t.toNat n.toNat
        fun _ v => { v with permissions := perm }) ∧
    (∀ es ep ns np s' res,
      s.changeMemoryState isCached t.toNat n.toNat es ep ns np = .ok (s', res) →
      RewritesRange s s' (res = .success) t.toNat n.toNat
        fun _ v => { v with permissions := np, meminfoState := ns }) := by
  have hcons := consistent_invariant h₀ hs
  have ht : t.toNat < 2 ^ 32 := t.toNat_lt
  have hn : n.toNat < 2 ^ 32 := n.toNat_lt
  refine ⟨view_isSome_iff hcons.areas, fun memory state s' res hc => ?_, fun s' res hc => ?_,
    fun perm s' res hc => ?_, fun es ep ns np s' res hc => ?_⟩
  · exact mapBackingMemory_rewrites hcons hn hc
  · exact (unmapRange_cases hcons.areas ht hn hc).rewrites freed_pageEdit
  · exact (reprotectRange_cases hcons.areas ht hn hc).rewrites (reprotected_pageEdit perm)
  · exact changeMemoryState_rewrites hcons ht hn hc

/-- The refinement in a cleared address space, for the page at `0x08000000`. -/
theorem vmManager_refines_pageMap_reset :
    ∃ s₀, VMManager.reset (fun _ => false) ⟨[], .clear, false⟩ = .ok s₀ ∧
      ∀ memory state s' res,
        s₀.mapBackingMemory (fun _ => false) 0x08000000 memory 0x1000 state = .ok (s', res) →
        RewritesRange s₀ s' (∃ k, res = .ok k) 0x08000000 0x1000
          fun p _ => mappedView 0x08000000 memory state p := by
  obtain ⟨pt, hpt⟩ := reset_exists (fun _ => false) ⟨[], .clear, false⟩ rfl
  exact ⟨_, hpt,
    (vmManager_refines_pageMap _ _ _ _ hpt (Reachable.refl _) 0x08000000 0x1000).2.1⟩

end Borked3DS.Analysis
