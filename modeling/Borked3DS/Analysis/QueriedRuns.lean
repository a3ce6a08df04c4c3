import Borked3DS.Analysis.VMManagerInvariant
import Borked3DS.Interface.AddressSpace

/-!
# The run that a query reports

The two searches go as far as the areas have the attributes of the one that they start from. Areas
begin and end with pages, so that a run of areas that cannot be extended by an area cannot be
extended by a page.
-/

set_option autoImplicit false

namespace Borked3DS.Analysis

open Borked3DS.Library Borked3DS.Model Borked3DS.Interface VMAMap

variable {m l r l₁ l₂ r₁ r₂ : VMAMap} {e a : Entry} {p addr : ℕ}
  {q : VirtualMemoryArea → Bool}

/-! ## The searches -/

/-- A list ends with a run of elements that do not meet `q`, and what is in front of the run is
nothing or meets it. -/
theorem exists_run_at_end (q : VirtualMemoryArea → Bool) (l : VMAMap) :
    ∃ l₁ l₂, l = l₁ ++ l₂ ∧ (∀ a ∈ l₂, q a.2 = false) ∧ ∀ a ∈ l₁.getLast?, q a.2 = true := by
  induction l with
  | nil => exact ⟨[], [], rfl, by simp, by simp⟩
  | cons a l ih =>
      obtain ⟨l₁, l₂, rfl, hrun, hlast⟩ := ih
      cases l₁ with
      | cons b l₁ => exact ⟨a :: b :: l₁, l₂, rfl, hrun, by simpa using hlast⟩
      | nil =>
          cases ha : q a.2 with
          | true => exact ⟨[a], l₂, rfl, hrun, by simpa using ha⟩
          | false => exact ⟨[], a :: l₂, rfl, by simpa [ha] using hrun, by simp⟩

/-- A list begins with such a run. -/
theorem exists_run_at_start (q : VirtualMemoryArea → Bool) (r : VMAMap) :
    ∃ r₁ r₂, r = r₁ ++ r₂ ∧ (∀ a ∈ r₁, q a.2 = false) ∧ ∀ a ∈ r₂.head?, q a.2 = true := by
  induction r with
  | nil => exact ⟨[], [], rfl, by simp, by simp⟩
  | cons a r ih =>
      obtain ⟨r₁, r₂, rfl, hrun, hfirst⟩ := ih
      cases ha : q a.2 with
      | true => exact ⟨[], a :: (r₁ ++ r₂), rfl, by simp, by simpa using ha⟩
      | false => exact ⟨a :: r₁, r₂, rfl, by simpa [ha] using hrun, hfirst⟩

/-- The search stops behind the run, -/
theorem findIf_run (hrun : ∀ a ∈ r₁, q a.2 = false) (hfirst : ∀ a ∈ r₂.head?, q a.2 = true) :
    findIf q (r₁ ++ r₂) = OrderedMap.first r₂ := by
  have hnone : r₁.find? (fun e => q e.2) = none :=
    List.find?_eq_none.mpr fun a ha => by simp [hrun a ha]
  unfold findIf OrderedMap.first
  rw [List.find?_append, hnone, Option.none_or]
  cases r₂ with
  | nil => rfl
  | cons a r₂ => rw [List.find?_cons, hfirst a rfl, List.head?_cons]

/-- and the other search, in front of it. -/
theorem findIf_reverse_run (hrun : ∀ a ∈ l₂, q a.2 = false)
    (hlast : ∀ a ∈ l₁.getLast?, q a.2 = true) :
    findIf q (l₁ ++ l₂).reverse = l₁.getLast?.map Prod.fst := by
  rw [List.reverse_append, findIf_run (fun a ha => hrun a (List.mem_reverse.mp ha))
    (by simpa using hlast)]
  unfold OrderedMap.first
  rw [List.head?_reverse]

theorem entriesBefore_place (h : OrderedMap.Sorted (l ++ e :: r)) :
    entriesBefore e.1 (l ++ e :: r) = l.reverse := by
  have hl := OrderedMap.sorted_lt_left (k := e.1) (v := e.2) h
  unfold entriesBefore
  rw [List.takeWhile_append_of_pos fun a ha => decide_eq_true (hl a ha)]
  simp

/-- Back from where a search downwards stopped, the first area of the run stands. -/
theorem prevReverse_place (h : OrderedMap.Sorted (l ++ r)) :
    prevReverse (l.getLast?.map Prod.fst) (l ++ r) = OrderedMap.first r := by
  cases hlast : l.getLast? with
  | none =>
      rw [List.getLast?_eq_none_iff.mp hlast]
      rfl
  | some a =>
      obtain ⟨l', rfl⟩ := List.getLast?_eq_some_iff.mp hlast
      have hsorted : OrderedMap.Sorted (l' ++ (a.1, a.2) :: r) := by simpa using h
      rw [Option.map_some, List.append_assoc, List.singleton_append]
      exact OrderedMap.upperBound_place hsorted

theorem derefAt_first (h : OrderedMap.Sorted (l ++ e :: r)) :
    derefAt (l ++ e :: r) (OrderedMap.first (e :: r)) = .ok e.2 := deref_place h

theorem derefAt_last (h : OrderedMap.Sorted (l ++ e :: r)) :
    derefAt (l ++ e :: r) ((l ++ [e]).getLast?.map Prod.fst) = .ok e.2 := by
  rw [List.getLast?_append, List.getLast?_singleton, Option.some_or, Option.map_some]
  exact deref_place h

/-! ## The run -/

/-- The mismatch with the attributes of an area. -/
def mismatch (vma v : VirtualMemoryArea) : Bool :=
  decide (v.permissions ≠ vma.permissions) || decide (v.meminfoState ≠ vma.meminfoState)

theorem mismatch_eq_false {vma v : VirtualMemoryArea} :
    mismatch vma v = false ↔
      v.permissions = vma.permissions ∧ v.meminfoState = vma.meminfoState := by
  simp [mismatch]

/-- The areas around an address: a run of those that match the one with the address in it, between
others that do not. -/
structure AreaRun (m : VMAMap) (vma : VirtualMemoryArea) (lo hi : ℕ) (l mid r : VMAMap) : Prop where
  eq : m = l ++ mid ++ r
  before : Areas 0 lo l
  within : Areas lo hi mid
  behind : Areas hi MAX_ADDRESS r
  matching : ∀ a ∈ mid, mismatch vma a.2 = false
  last : ∀ a ∈ l.getLast?, mismatch vma a.2 = true
  first : ∀ a ∈ r.head?, mismatch vma a.2 = true

/-- What is reported of a run. -/
def runInfo (vma : VirtualMemoryArea) (lo hi : ℕ) : MemoryInfo where
  baseAddress := lo
  size := hi - lo
  permission := vma.permissions
  state := vma.meminfoState

section Run

variable {vma : VirtualMemoryArea} {lo hi : ℕ} {mid : VMAMap}

/-- Inside an area, what is reported of the run holds exactly if the area matches. -/
theorem reports_place {f : PageMap} (hview : f p = some (a.2.viewAt p)) :
    MemoryInfo.Reports (runInfo vma lo hi) f p ↔ mismatch vma a.2 = false := by
  unfold MemoryInfo.Reports
  rw [mismatch_eq_false, hview]
  constructor
  · rintro ⟨v, hv, hpermission, hstate⟩
    cases hv
    exact ⟨hpermission, hstate⟩
  · intro h
    exact ⟨_, rfl, h⟩

/-- An area has a page at least. -/
theorem page_le_size (h : Areas lo hi m) (ha : a ∈ m) : Memory.PAGE_SIZE ≤ a.2.size := by
  have haligned := (h.sound a ha).aligned.2
  have hpos := (h.bounds ha).2.1
  unfold pageAligned at haligned
  unfold Memory.PAGE_SIZE at *
  omega

theorem Areas.aligned_ends (h : Areas lo hi m) (hlo : pageAligned lo) : pageAligned hi := by
  induction m generalizing lo with
  | nil =>
      obtain rfl := areas_nil.mp h
      exact hlo
  | cons a m ih =>
      obtain ⟨rfl, -, hsound, hrest⟩ := areas_cons.mp h
      exact ih hrest (pageAligned_add hlo hsound.aligned.2)

/-- A run of areas is a largest run of pages. -/
theorem AreaRun.maximalRun (h : AreaRun m vma lo hi l mid r) (hlo : lo ≤ addr) (hhi : addr < hi) :
    MaximalRun (view m) (runInfo vma lo hi) addr := by
  have hle := h.within.le
  have hmax := h.behind.le
  have halignedLo : pageAligned lo := Areas.aligned_ends h.before pageAligned_zero
  have halignedHi : pageAligned hi := Areas.aligned_ends h.within halignedLo
  have hareas : Areas 0 MAX_ADDRESS m := by
    rw [h.eq]
    exact (h.before.append h.within).append h.behind
  have hend : lo + (hi - lo) = hi := by omega
  refine ⟨⟨halignedLo, pageAligned_sub halignedHi halignedLo⟩, ?_, ?_, ?_, ?_, ?_⟩
  · exact Nat.le_trans (Nat.le_of_eq hend) hmax
  · exact ⟨hlo, Nat.lt_of_lt_of_eq hhi hend.symm⟩
  · intro p hp hp'
    obtain ⟨l', a, r', hmid, hle', hlt⟩ := h.within.exists_place hp (Nat.lt_of_lt_of_eq hp' hend)
    have hplace : m = (l ++ l') ++ a :: (r' ++ r) := by
      rw [h.eq, hmid]
      simp
    refine (reports_place ?_).mpr (h.matching a (by simp [hmid]))
    rw [hplace] at hareas ⊢
    exact view_place hareas hle' hlt
  · intro p hp hp'
    have hnear : lo ≤ p + Memory.PAGE_SIZE := hp'
    have hbelow : p < lo := hp
    cases hlast : l.getLast? with
    | none =>
        obtain rfl := List.getLast?_eq_none_iff.mp hlast
        have hzero := areas_nil.mp h.before
        omega
    | some a =>
        obtain ⟨l', rfl⟩ := List.getLast?_eq_some_iff.mp hlast
        have hpage := page_le_size (a := a) h.before (by simp)
        obtain ⟨-, -, -, hnil⟩ := areas_place.mp h.before
        have hbound := areas_nil.mp hnil
        have hplace : m = l' ++ a :: (mid ++ r) := by
          rw [h.eq]
          simp
        have hmis := h.last a hlast
        intro hreports
        rw [(reports_place (a := a) ?_).mp hreports] at hmis
        · cases hmis
        · rw [hplace] at hareas ⊢
          exact view_place hareas (by omega) (by omega)
  · intro p hp hp'
    have hfrom : hi ≤ p := Nat.le_trans (Nat.le_of_eq hend.symm) hp
    have hnear : p < hi + Memory.PAGE_SIZE := Nat.lt_of_lt_of_eq hp' (congrArg (· + _) hend)
    cases hr : r with
    | nil =>
        have hbehind := h.behind
        rw [hr] at hbehind
        obtain rfl := areas_nil.mp hbehind
        rintro ⟨v, hv, -⟩
        rw [view_of_ge hareas hfrom] at hv
        cases hv
    | cons a r' =>
        have hbehind := h.behind
        rw [hr] at hbehind
        have hpage := page_le_size (a := a) hbehind (by simp)
        obtain ⟨hkey, -⟩ := areas_cons.mp hbehind
        have hplace : m = (l ++ mid) ++ a :: r' := by rw [h.eq, hr]
        have hmis := h.first a (by rw [hr]; rfl)
        intro hreports
        rw [(reports_place (a := a) ?_).mp hreports] at hmis
        · cases hmis
        · rw [hplace] at hareas ⊢
          exact view_place hareas (by omega) (by omega)

end Run

/-- The search from an address finds the run of areas around it. -/
theorem queryMemory_areaRun {vm : VMManager} (h : Areas 0 MAX_ADDRESS vm.vmaMap)
    (haddr : addr < MAX_ADDRESS) :
    ∃ vma lo hi l mid r, AreaRun vm.vmaMap vma lo hi l mid r ∧ lo ≤ addr ∧ addr < hi ∧
      queryMemory vm addr = .ok (.ok (runInfo vma lo hi, ⟨0⟩)) := by
  have hmax : MAX_ADDRESS < 2 ^ 32 := by decide
  obtain ⟨l, e, r, hM, hle, hlt, hfind⟩ := findVMA_spec h haddr
  obtain ⟨l₁, l₂, rfl, hrunBefore, hlast⟩ := exists_run_at_end (mismatch e.2) l
  obtain ⟨r₁, r₂, rfl, hrunBehind, hfirst⟩ := exists_run_at_start (mismatch e.2) r
  -- the first and the last area of the run
  obtain ⟨a, rest, ha⟩ : ∃ a rest, l₂ ++ e :: r₁ = a :: rest := by
    cases l₂ with
    | nil => exact ⟨e, r₁, rfl⟩
    | cons a l₂ => exact ⟨a, l₂ ++ e :: r₁, rfl⟩
  obtain ⟨rest', b, hb⟩ : ∃ rest' b, l₂ ++ e :: r₁ = rest' ++ [b] :=
    ⟨_, _, (List.dropLast_append_getLast (by simp)).symm⟩
  have heq : vm.vmaMap = l₁ ++ (l₂ ++ e :: r₁) ++ r₂ := by
    rw [hM]
    simp
  have hareas : Areas 0 MAX_ADDRESS (l₁ ++ (l₂ ++ e :: r₁) ++ r₂) := heq ▸ h
  obtain ⟨hi, hmid, hbehind⟩ := areas_append.mp hareas
  obtain ⟨lo, hbefore, hwithin⟩ := areas_append.mp hmid
  have hmatching : ∀ x ∈ l₂ ++ e :: r₁, mismatch e.2 x.2 = false := by
    intro x hx
    rcases List.mem_append.mp hx with hx | hx
    · exact hrunBefore x hx
    · rcases List.mem_cons.mp hx with rfl | hx
      · exact mismatch_eq_false.mpr ⟨rfl, rfl⟩
      · exact hrunBehind x hx
  have hbound := hwithin.bounds (e := e) (by simp)
  have hlo : a.1 = lo := by
    rw [ha] at hwithin
    exact (areas_cons.mp hwithin).1
  have hhi : b.1 + b.2.size = hi := by
    rw [hb] at hwithin
    obtain ⟨-, -, -, hnil⟩ := areas_place.mp hwithin
    exact areas_nil.mp hnil
  have hkeyA : a.1 = a.2.base := (hwithin.sound a (by rw [ha]; simp)).key
  have hkeyB : b.1 = b.2.base := (hwithin.sound b (by rw [hb]; simp)).key
  have hle' := hwithin.le
  have hmax' := hbehind.le
  refine ⟨e.2, lo, hi, l₁, l₂ ++ e :: r₁, r₂,
    ⟨heq, hbefore, hwithin, hbehind, hmatching, hlast, hfirst⟩, by omega, by omega, ?_⟩
  have hsorted := h.sorted
  have hplaceE : vm.vmaMap = (l₁ ++ l₂) ++ (e.1, e.2) :: (r₁ ++ r₂) := hM
  have hplaceA : vm.vmaMap = l₁ ++ a :: (rest ++ r₂) := by
    rw [heq, ha]
    simp
  have hplaceB : vm.vmaMap = (l₁ ++ rest') ++ b :: r₂ := by
    rw [heq, hb]
    simp
  have hentry : deref vm.vmaMap e.1 = .ok e.2 := by
    rw [hM] at hsorted ⊢
    exact deref_place hsorted
  have hlower : derefAt vm.vmaMap (prevReverse (findIf (mismatch e.2)
      (entriesBefore e.1 vm.vmaMap)) vm.vmaMap) = .ok a.2 := by
    have hstop : findIf (mismatch e.2) (entriesBefore e.1 vm.vmaMap) =
        l₁.getLast?.map Prod.fst := by
      rw [hM] at hsorted ⊢
      rw [entriesBefore_place hsorted]
      exact findIf_reverse_run hrunBefore hlast
    rw [hstop, hplaceA, prevReverse_place (hplaceA ▸ hsorted)]
    exact derefAt_first (hplaceA ▸ hsorted)
  have hupper : derefAt vm.vmaMap (OrderedMap.prev (findIf (mismatch e.2)
      (OrderedMap.entriesFrom (some e.1) vm.vmaMap)) vm.vmaMap) = .ok b.2 := by
    have hstop : findIf (mismatch e.2) (OrderedMap.entriesFrom (some e.1) vm.vmaMap) =
        OrderedMap.first r₂ := by
      rw [hplaceE] at hsorted ⊢
      rw [OrderedMap.entriesFrom_place hsorted]
      have hrun : ∀ x ∈ e :: r₁, mismatch e.2 x.2 = false :=
        fun x hx => hmatching x (List.mem_append_right l₂ hx)
      exact findIf_run hrun hfirst
    have hlast : vm.vmaMap = ((l₁ ++ rest') ++ [b]) ++ r₂ := by
      rw [hplaceB]
      simp
    rw [hstop]
    have hprev : OrderedMap.prev (OrderedMap.first r₂) vm.vmaMap =
        ((l₁ ++ rest') ++ [b]).getLast?.map Prod.fst := by
      rw [hlast] at hsorted ⊢
      exact OrderedMap.prev_first hsorted
    rw [hprev, hplaceB]
    exact derefAt_last (hplaceB ▸ hsorted)
  unfold mismatch at hlower hupper
  unfold queryMemory queryProcessMemory VMManager.findVMA
  dsimp only
  rw [hfind]
  dsimp only
  rw [hentry, ok_bind, hlower, ok_bind, hupper, ok_bind, ← hkeyA, ← hkeyB, hlo, hhi,
    u32_of_lt (by omega), u32Sub_of_le hle' (by omega)]
  rfl

/-- Runs with an address in common are one run. -/
theorem eq_of_maximalRun {f : PageMap} {info info' : MemoryInfo} {addr addr' : ℕ}
    (h : MaximalRun f info addr) (h' : MaximalRun f info' addr')
    (hlo : info.baseAddress ≤ addr') (hhi : addr' < info.baseAddress + info.size) :
    info' = info := by
  have hpage : 0 < Memory.PAGE_SIZE := by decide
  obtain ⟨v, hv, hpermission, hstate⟩ := h.same addr' hlo hhi
  obtain ⟨v', hv', hpermission', hstate'⟩ := h'.same addr' h'.contains.1 h'.contains.2
  cases hv.symm.trans hv'
  have hcontains := h'.contains
  have hreports : ∀ p, MemoryInfo.Reports info' f p ↔ MemoryInfo.Reports info f p := by
    intro p
    unfold MemoryInfo.Reports
    rw [← hpermission, ← hstate, ← hpermission', ← hstate']
  have hbase : info'.baseAddress = info.baseAddress := by
    rcases Nat.lt_trichotomy info'.baseAddress info.baseAddress with hlt | heq | hgt
    · have hreach := h'.same (info.baseAddress - 1) (by omega) (by omega)
      exact absurd ((hreports _).mp hreach) (h.before _ (by omega) (by omega))
    · exact heq
    · have hreach := h.same (info'.baseAddress - 1) (by omega) (by omega)
      exact absurd ((hreports _).mpr hreach) (h'.before _ (by omega) (by omega))
  have hsize : info'.size = info.size := by
    rcases Nat.lt_trichotomy info'.size info.size with hlt | heq | hgt
    · have hreach := h.same (info'.baseAddress + info'.size) (by omega) (by omega)
      exact absurd ((hreports _).mpr hreach) (h'.behind _ (by omega) (by omega))
    · exact heq
    · have hreach := h'.same (info.baseAddress + info.size) (by omega) (by omega)
      exact absurd ((hreports _).mp hreach) (h.behind _ (by omega) (by omega))
  cases info
  cases info'
  simp only at hpermission hstate hpermission' hstate' hbase hsize
  rw [hbase, hsize, ← hpermission, ← hstate, ← hpermission', ← hstate']

/-- In every state that a run from `Reset` reaches, and at every address of the address space, a
query reports the largest run of pages. -/
theorem queryMemory_right (isCached : ℕ → Bool) (m s₀ s : VMManager)
    (h₀ : m.reset isCached = .ok s₀) (hs : Reachable (VMCall.step isCached) s₀ s) (addr : UInt32)
    (haddr : addr.toNat < MAX_ADDRESS) : QueryRight s addr.toNat := by
  have hareas := (consistent_invariant h₀ hs).areas
  obtain ⟨vma, lo, hi, l, mid, r, hrun, hlo, hhi, hquery⟩ := queryMemory_areaRun hareas haddr
  have hmaximal := hrun.maximalRun hlo hhi
  refine ⟨_, _, hquery, hmaximal, fun other hbase hend => ?_⟩
  have hinside := hmaximal.inside
  obtain ⟨vma', lo', hi', l', mid', r', hrun', hlo', hhi', hquery'⟩ :=
    queryMemory_areaRun hareas (Nat.lt_of_lt_of_le hend hinside)
  rw [hquery', eq_of_maximalRun hmaximal (hrun'.maximalRun hlo' hhi') hbase hend]

/-- A cleared address space. -/
theorem queryMemory_right_reset :
    ∃ s₀, VMManager.reset (fun _ => false) ⟨[], .clear, false⟩ = .ok s₀ ∧
      QueryRight s₀ 0x08000000 := by
  obtain ⟨pt, hpt⟩ := reset_exists (fun _ => false) ⟨[], .clear, false⟩ rfl
  exact ⟨_, hpt, queryMemory_right _ _ _ _ hpt (Reachable.refl _) 0x08000000 (by decide)⟩

/-! ## Walks through the address space -/

/-- Queries one after the other, each at the end of the range that the one before reported. -/
def queryWalk (vm : VMManager) : ℕ → ℕ → Exec (List MemoryInfo)
  | 0, _ => pure []
  | steps + 1, addr =>
      if addr < MAX_ADDRESS then do
        match ← queryMemory vm addr with
        | .ok (info, _) => do
            let infos ← queryWalk vm steps (info.baseAddress + info.size)
            pure (info :: infos)
        | .error _ => pure []
      else pure []

/-- Ranges that follow each other without a gap up to the end of the address space, each of them as
large as it can be. -/
def TilesFrom (f : PageMap) : ℕ → List MemoryInfo → Prop
  | lo, [] => lo = MAX_ADDRESS
  | lo, info :: infos => info.baseAddress = lo ∧ MaximalRun f info lo ∧
      TilesFrom f (lo + info.size) infos

/-- In every state that a run from `Reset` reaches, such queries tile the whole address space. -/
theorem queryWalk_tiles (isCached : ℕ → Bool) (m s₀ s : VMManager)
    (h₀ : m.reset isCached = .ok s₀) (hs : Reachable (VMCall.step isCached) s₀ s) :
    ∃ infos, queryWalk s MAX_ADDRESS 0 = .ok infos ∧ TilesFrom s.vmaMap.view 0 infos := by
  have hareas := (consistent_invariant h₀ hs).areas
  -- a range ends where the walk goes on, so that no range reaches back over that place
  suffices hwalk : ∀ steps addr, MAX_ADDRESS ≤ addr + steps → addr ≤ MAX_ADDRESS →
      (addr = 0 ∨ ∃ info, MaximalRun s.vmaMap.view info (addr - 1) ∧
        addr = info.baseAddress + info.size) →
      ∃ infos, queryWalk s steps addr = .ok infos ∧ TilesFrom s.vmaMap.view addr infos from
    hwalk MAX_ADDRESS 0 (by omega) (Nat.zero_le _) (Or.inl rfl)
  intro steps
  induction steps with
  | zero => exact fun addr hreach hle _ => ⟨[], rfl, Nat.le_antisymm hle hreach⟩
  | succ steps ih =>
    intro addr hreach hle hstart
    rw [queryWalk]
    by_cases hend : addr < MAX_ADDRESS
    case neg => exact ⟨[], if_neg hend, Nat.le_antisymm hle (Nat.not_lt.mp hend)⟩
    obtain ⟨vma, lo, hi, l, mid, r, hrun, hlo, hhi, hquery⟩ := queryMemory_areaRun hareas hend
    have hmaximal := hrun.maximalRun hlo hhi
    rw [if_pos hend, hquery]
    generalize runInfo vma lo hi = info at hmaximal ⊢
    have hcontains := hmaximal.contains
    have hinside := hmaximal.inside
    have hbase : info.baseAddress = addr := by
      rcases hstart with rfl | ⟨info', hbefore, hends⟩
      · exact Nat.le_zero.mp hcontains.1
      · refine Nat.le_antisymm hcontains.1 (Nat.not_lt.mp fun hback => ?_)
        have hsame := eq_of_maximalRun hmaximal hbefore (by omega) (by omega)
        rw [hsame] at hends
        omega
    have hnext : addr + info.size = info.baseAddress + info.size := by rw [hbase]
    have hlast : MaximalRun s.vmaMap.view info (addr + info.size - 1) :=
      { hmaximal with contains := by omega }
    obtain ⟨infos, hwalk, htiles⟩ := ih (addr + info.size) (by omega) (by omega)
      (Or.inr ⟨info, hlast, hnext⟩)
    rw [hnext] at hwalk
    refine ⟨info :: infos, ?_, hbase, hmaximal, htiles⟩
    rw [ok_bind]
    dsimp only
    rw [hwalk]
    rfl

/-- A walk through a cleared address space. -/
theorem queryWalk_tiles_reset :
    ∃ s₀ infos, VMManager.reset (fun _ => false) ⟨[], .clear, false⟩ = .ok s₀ ∧
      queryWalk s₀ MAX_ADDRESS 0 = .ok infos ∧ TilesFrom s₀.vmaMap.view 0 infos := by
  obtain ⟨pt, hpt⟩ := reset_exists (fun _ => false) ⟨[], .clear, false⟩ rfl
  obtain ⟨infos, hwalk, htiles⟩ := queryWalk_tiles _ _ _ _ hpt (Reachable.refl _)
  exact ⟨_, infos, hpt, hwalk, htiles⟩

end Borked3DS.Analysis
