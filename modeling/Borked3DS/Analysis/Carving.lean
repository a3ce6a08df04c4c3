import Borked3DS.Analysis.AreaMapSteps

/-!
# Carving areas out of the map

Both carving helpers are cuts of the map at the two ends of a range (`cut`). `carveVMA` cuts
inside one free area, `carveVMARange` cuts a stretch that holds no free area; a call that
returns an error cuts nothing.
-/

set_option autoImplicit false

namespace Borked3DS.Analysis

open Borked3DS.Library Borked3DS.Model Borked3DS.Interface VMAMap

variable {l r m m' : VMAMap} {e : Entry} {n p t : ℕ}

/-- The map cut at the address `t`: the area `t` lies inside of, if any, is split there. -/
def cut (t : ℕ) : VMAMap → VMAMap
  | [] => []
  | e :: m =>
      if e.1 < t ∧ t < e.1 + e.2.size then
        (e.1, leftPart e.2 (t - e.1)) :: (t, rightPart e.2 (t - e.1)) :: m
      else e :: cut t m

/-- Backing memory reaches past `t` in the area that `t` lies inside of. -/
def CutBacked (t : ℕ) (m : VMAMap) : Prop :=
  ∀ e ∈ m, e.1 < t → t < e.1 + e.2.size → Backs e.2 (t - e.1)

/-- A cut leaves as much backing memory behind every address as there was. -/
theorem cutBacked_cut {x : ℕ} (h : CutBacked t m) : CutBacked t (cut x m) := by
  induction m with
  | nil => exact h
  | cons e m ih =>
      have hm : CutBacked t m := fun a ha => h a (by simp [ha])
      have he : e.1 < t → t < e.1 + e.2.size → Backs e.2 (t - e.1) := h e (by simp)
      intro a ha hlt hgt
      rw [cut] at ha
      split at ha
      next hin =>
        rcases List.mem_cons.mp ha with rfl | ha
        · simp only [leftPart] at hlt hgt
          exact he hlt (by omega)
        · rcases List.mem_cons.mp ha with rfl | ha
          · simp only [rightPart] at hlt hgt
            intro hb
            have hb : e.2.type = .backingMemory := hb
            have := he (by omega) (by omega) hb
            simp only [rightPart, hb, MemoryRef.getSize] at this ⊢
            split at this <;> omega
          · exact hm a ha hlt hgt
      next =>
        rcases List.mem_cons.mp ha with rfl | ha
        · exact he hlt hgt
        · exact ih hm a ha hlt hgt

section Cut

variable {lo hi : ℕ}

theorem cut_place (h : Areas lo hi (l ++ e :: r)) (hlt : e.1 < t) (hgt : t < e.1 + e.2.size) :
    cut t (l ++ e :: r) =
      l ++ (e.1, leftPart e.2 (t - e.1)) :: (t, rightPart e.2 (t - e.1)) :: r := by
  obtain ⟨hl, -⟩ := areas_place.mp h
  clear h
  induction l generalizing lo with
  | nil => simp [cut, hlt, hgt]
  | cons a l ih =>
      have hend := hl.bounds (e := a) (by simp)
      obtain ⟨-, -, -, hl⟩ := areas_cons.mp hl
      rw [List.cons_append, cut, if_neg (by omega), ih hl, List.cons_append]

theorem cut_boundary (hl : Areas lo t l) (hr : Areas t hi r) : cut t (l ++ r) = l ++ r := by
  have hstay : ∀ e ∈ l ++ r, ¬ (e.1 < t ∧ t < e.1 + e.2.size) := by
    intro e he
    rcases List.mem_append.mp he with he | he
    · have := hl.bounds he; omega
    · have := hr.bounds he; omega
  generalize l ++ r = m at hstay
  induction m with
  | nil => rfl
  | cons a m ih =>
      rw [cut, if_neg (hstay a (by simp)), ih fun b hb => hstay b (by simp [hb])]

/-- Only one area has a given address inside. -/
theorem Areas.eq_of_inside (h : Areas lo hi (l ++ e :: r)) {a : Entry} (ha : a ∈ l ++ e :: r)
    (hle : e.1 ≤ t) (hge : t ≤ e.1 + e.2.size) (hlt : a.1 < t) (hgt : t < a.1 + a.2.size) :
    a = e := by
  obtain ⟨hl, -, -, hr⟩ := areas_place.mp h
  rcases List.mem_append.mp ha with ha | ha
  · have := hl.bounds ha
    omega
  · rcases List.mem_cons.mp ha with rfl | ha
    · rfl
    · have := hr.bounds ha
      omega

/-- An address of the interval lies inside an area or between two. -/
theorem Areas.boundary_or_inside (h : Areas lo hi m) (hlo : lo ≤ t) (hhi : t ≤ hi) :
    (∃ l r, m = l ++ r ∧ Areas lo t l ∧ Areas t hi r) ∨
      ∃ l e r, m = l ++ e :: r ∧ e.1 < t ∧ t < e.1 + e.2.size := by
  rcases Nat.lt_or_ge t hi with hlt | hge
  · obtain ⟨l, e, r, rfl, hle, hgt⟩ := h.exists_place hlo hlt
    rcases Nat.lt_or_ge e.1 t with hin | hat
    · exact .inr ⟨l, e, r, rfl, hin, hgt⟩
    · obtain rfl : e.1 = t := by omega
      obtain ⟨hl, hrest⟩ := areas_place.mp h
      exact .inl ⟨l, e :: r, rfl, hl, areas_cons.mpr ⟨rfl, hrest⟩⟩
  · obtain rfl : t = hi := by omega
    exact .inl ⟨m, [], by simp, h, areas_nil.mpr rfl⟩

/-- The distance of an aligned address from the base of an area is aligned. -/
theorem Areas.aligned_sub (h : Areas lo hi m) (ht : pageAligned t) (he : e ∈ m) :
    pageAligned (t - e.1) := pageAligned_sub ht (h.sound e he).aligned.1

theorem cut_areas (h : Areas lo hi m) (ht : pageAligned t) (hlo : lo ≤ t) (hhi : t ≤ hi) :
    Areas lo hi (cut t m) := by
  rcases h.boundary_or_inside hlo hhi with ⟨l, r, rfl, hl, hr⟩ | ⟨l, e, r, rfl, hlt, hgt⟩
  · rw [cut_boundary hl hr]; exact h
  · rw [cut_place h hlt hgt]
    have := split_areas h (n := t - e.1) (h.aligned_sub ht (by simp)) (by omega) (by omega)
    rwa [show e.1 + (t - e.1) = t by omega] at this

theorem cut_view (h : Areas lo hi m) (ht : pageAligned t) (hlo : lo ≤ t) (hhi : t ≤ hi)
    (hback : CutBacked t m) : view (cut t m) p = view m p := by
  rcases h.boundary_or_inside hlo hhi with ⟨l, r, rfl, hl, hr⟩ | ⟨l, e, r, rfl, hlt, hgt⟩
  · rw [cut_boundary hl hr]
  · rw [cut_place h hlt hgt]
    have := split_view (p := p) h (n := t - e.1) (h.aligned_sub ht (by simp)) (by omega) (by omega)
      (hback e (by simp) hlt hgt)
    rwa [show e.1 + (t - e.1) = t by omega] at this

/-- A cut adds its own address to the bases and no other. -/
theorem cut_keys (h : Areas lo hi m) (hlo : lo ≤ t) (hhi : t < hi) {k : ℕ} :
    k ∈ (cut t m).keys ↔ k ∈ m.keys ∨ k = t := by
  rcases h.boundary_or_inside hlo hhi.le with ⟨l, r, rfl, hl, hr⟩ | ⟨l, e, r, rfl, hlt, hgt⟩
  · have hmem : t ∈ (l ++ r).keys := by
      cases r with
      | nil => have := areas_nil.mp hr; omega
      | cons e r => simp [VMAMap.keys, (areas_cons.mp hr).1]
    rw [cut_boundary hl hr]
    exact ⟨.inl, fun hk => hk.elim id fun hk => hk ▸ hmem⟩
  · rw [cut_place h hlt hgt]
    simp only [VMAMap.keys, List.map_append, List.map_cons, List.mem_append, List.mem_cons]
    tauto

/-- No area begins inside another one. -/
theorem Areas.key_outside (h : Areas lo hi (l ++ e :: r)) {k : ℕ}
    (hk : k ∈ VMAMap.keys (l ++ e :: r)) : k ≤ e.1 ∨ e.1 + e.2.size ≤ k := by
  obtain ⟨a, ha, rfl⟩ := List.mem_map.mp hk
  obtain ⟨hl, -, -, hr⟩ := areas_place.mp h
  rcases List.mem_append.mp ha with ha | ha
  · have := hl.bounds ha
    omega
  · rcases List.mem_cons.mp ha with rfl | ha
    · exact .inl le_rfl
    · have := hr.bounds ha
      omega

/-- At the base of an area, or at its end, a map falls into two maps. -/
theorem Areas.split_at_key (h : Areas lo hi m) (ht : t ∈ m.keys ∨ t = hi) :
    ∃ l r, m = l ++ r ∧ Areas lo t l ∧ Areas t hi r := by
  rcases ht with ht | rfl
  · obtain ⟨e, he, rfl⟩ := List.mem_map.mp ht
    obtain ⟨l, r, rfl⟩ := List.append_of_mem he
    obtain ⟨hl, hrest⟩ := areas_place.mp h
    exact ⟨l, e :: r, rfl, hl, areas_cons.mpr ⟨rfl, hrest⟩⟩
  · exact ⟨m, [], by simp, h, areas_nil.mpr rfl⟩

end Cut

/-- The map cut at both ends of `[t, t + n)`: the areas before, inside and after the range. -/
structure Carved (m : VMAMap) (t n : ℕ) (l mid r : VMAMap) : Prop where
  before : Areas 0 t l
  within : Areas t (t + n) mid
  after : Areas (t + n) MAX_ADDRESS r
  same : view (l ++ mid ++ r) = view m
  keys : ∀ k, k ∈ (l ++ mid ++ r).keys ↔
    k ∈ m.keys ∨ k = t ∨ k = t + n ∧ t + n < MAX_ADDRESS

/-- A map with the same view and with both ends of the range added to its bases. -/
theorem carved_of_keys (hareas : Areas 0 MAX_ADDRESS m') (hmax : t + n ≤ MAX_ADDRESS)
    (hpos : 0 < n) (hview : view m' = view m)
    (hkeys : ∀ k, k ∈ m'.keys ↔ k ∈ m.keys ∨ k = t ∨ k = t + n ∧ t + n < MAX_ADDRESS) :
    ∃ l mid r, m' = l ++ mid ++ r ∧ Carved m t n l mid r := by
  have hend : t + n ∈ m'.keys ∨ t + n = MAX_ADDRESS := by
    rcases Nat.lt_or_ge (t + n) MAX_ADDRESS with hlt | hge
    · exact .inl ((hkeys _).mpr (.inr (.inr ⟨rfl, hlt⟩)))
    · exact .inr (by omega)
  obtain ⟨l', r, rfl, hl', hr⟩ := hareas.split_at_key hend
  have hstart : t ∈ l'.keys := by
    have := (hkeys t).mpr (.inr (.inl rfl))
    rw [VMAMap.keys, List.map_append, List.mem_append] at this
    rcases this with hmem | hmem
    · exact hmem
    · -- an area after the range does not begin at its start
      obtain ⟨e, he, hk⟩ := List.mem_map.mp hmem
      have := (hr.bounds he).1
      omega
  obtain ⟨l, mid, rfl, hl, hmid⟩ := hl'.split_at_key (.inl hstart)
  exact ⟨l, mid, r, rfl, hl, hmid, hr, hview, hkeys⟩

section Carve

/-- Splitting the area over `t` at `t` cuts the map there. -/
theorem splitAt_place (h : Areas 0 MAX_ADDRESS (l ++ e :: r)) (hle : e.1 ≤ t)
    (hlt : t < e.1 + e.2.size) {res : VMAMap × ℕ} :
    splitAt (l ++ e :: r) e.1 t = .ok res →
      CutBacked t (l ++ e :: r) ∧ res = (cut t (l ++ e :: r), t) := by
  have hkey : e.2.base = e.1 := (h.sound e (by simp)).key.symm
  have hend := (h.bounds (e := e) (by simp)).2.2
  have hmax : MAX_ADDRESS < 2 ^ 32 := by decide
  have honly : ∀ a ∈ l ++ e :: r, a.1 < t → t < a.1 + a.2.size → a = e :=
    fun a ha halt hagt => h.eq_of_inside ha hle hlt.le halt hagt
  simp only [splitAt, deref_place h.sorted, ok_bind, hkey]
  split
  next hne =>
    rw [u32Sub_of_le hle (by omega), splitVMA_place h]
    rintro ⟨⟨-, -, hback⟩, rfl⟩
    rw [cut_place h (by omega) hlt, show e.1 + (t - e.1) = t by omega]
    exact ⟨fun a ha halt hagt => honly a ha halt hagt ▸ hback, rfl⟩
  next heq =>
    have heq : t = e.1 := not_not.mp heq
    subst heq
    intro hres
    obtain ⟨hl, hrest⟩ := areas_place.mp h
    rw [cut_boundary hl (areas_cons.mpr ⟨rfl, hrest⟩)]
    refine ⟨fun a ha halt hagt => ?_, (Except.ok.inj hres).symm⟩
    exact absurd (honly a ha halt hagt ▸ halt) (lt_irrefl _)

/-- The walk up to the first area at or after `te` meets exactly the areas that begin before it. -/
theorem allUpTo_eq {lo hi te : ℕ} (h : Areas lo hi m) (q : VirtualMemoryArea → Bool) :
    allUpTo q (OrderedMap.lowerBound te m) m =
      .ok (decide (∀ a ∈ m, a.1 < te → q a.2 = true)) := by
  induction m generalizing lo with
  | nil => simp [allUpTo, OrderedMap.lowerBound]
  | cons a m ih =>
      have hsorted := h.sorted
      obtain ⟨-, -, -, hm⟩ := areas_cons.mp h
      by_cases hte : te ≤ a.1
      · have hall : ∀ b ∈ a :: m, b.1 < te → q b.2 = true := by
          intro b hb hlt
          rcases List.mem_cons.mp hb with rfl | hb
          · omega
          · have := (List.pairwise_cons.mp hsorted).1 b hb
            omega
        simp only [OrderedMap.lowerBound, allUpTo, hte, decide_true, List.find?_cons_of_pos,
          Option.map_some, if_true, decide_eq_true hall]
        rfl
      · have hlower : OrderedMap.lowerBound te (a :: m) = OrderedMap.lowerBound te m := by
          simp [OrderedMap.lowerBound, hte]
        have hne : OrderedMap.lowerBound te m ≠ some a.1 := by
          intro heq
          obtain ⟨b, hb, hkey⟩ := Option.map_eq_some_iff.mp heq
          have := (List.pairwise_cons.mp hsorted).1 b (List.mem_of_find?_eq_some hb)
          omega
        rw [hlower, allUpTo, if_neg hne]
        split
        next hq =>
          rw [ih hm]
          have hlt : a.1 < te := by omega
          simp [hq, hlt]
        next hq =>
          have hlt : a.1 < te := by omega
          simp [hq, hlt]

/-- The walk from the area over `t` to the end of a range checks the areas of the range. -/
theorem allUpTo_range (h : Areas 0 MAX_ADDRESS (l ++ e :: r)) (hle : e.1 ≤ t)
    (hlt : t < e.1 + e.2.size) (hn : t < t + n) (q : VirtualMemoryArea → Bool) :
    ∃ b, allUpTo q (OrderedMap.lowerBound (t + n) (l ++ e :: r))
        (OrderedMap.entriesFrom (some e.1) (l ++ e :: r)) = .ok b ∧
      (b = true ↔ RangeMeets (fun a => q a = true) (l ++ e :: r) t n) := by
  have hrest : Areas e.1 MAX_ADDRESS (e :: r) := areas_cons.mpr ⟨rfl, (areas_place.mp h).2⟩
  have hlower : OrderedMap.lowerBound (t + n) (l ++ e :: r) =
      OrderedMap.lowerBound (t + n) (e :: r) := by
    have hbehind : l.find? (fun a => decide (t + n ≤ a.1)) = none :=
      List.find?_eq_none.mpr fun a ha => by
        have := (areas_place.mp h).1.bounds ha
        simp
        omega
    simp [OrderedMap.lowerBound, List.find?_append, hbehind]
  rw [hlower, OrderedMap.entriesFrom_place (k := e.1) (v := e.2) h.sorted, allUpTo_eq hrest]
  refine ⟨_, rfl, decide_eq_true_iff.trans ⟨fun hall a ha hin hbelow => ?_, fun hrange a ha hbelow =>
    hrange a (List.mem_append_right l ha) ?_ hbelow⟩⟩
  · rcases List.mem_append.mp ha with ha | ha
    · have := (areas_place.mp h).1.bounds ha
      omega
    · exact hall a ha hbelow
  · rcases List.mem_cons.mp ha with rfl | ha
    · exact hlt
    · have := (areas_place.mp h).2.2.2.bounds ha
      omega

/-- Cutting at both ends of a range carves it. -/
theorem carved_cut (h : Areas 0 MAX_ADDRESS m) (ht : pageAligned t) (hn : pageAligned n)
    (hpos : 0 < n) (hmax : t + n ≤ MAX_ADDRESS) (hback : CutBacked t m)
    (hback' : CutBacked (t + n) (cut t m)) :
    ∃ l mid r, cut (t + n) (cut t m) = l ++ mid ++ r ∧ Carved m t n l mid r := by
  have hcut := cut_areas h ht (Nat.zero_le t) (by omega)
  have hend := pageAligned_add ht hn
  refine carved_of_keys (cut_areas hcut hend (by omega) hmax) hmax hpos ?_ fun k => ?_
  · funext p
    rw [cut_view hcut hend (by omega) hmax hback', cut_view h ht (by omega) (by omega) hback]
  · rcases Nat.lt_or_ge (t + n) MAX_ADDRESS with hlt | hge
    · rw [cut_keys hcut (by omega) hlt, cut_keys h (by omega) (by omega)]
      tauto
    · -- the range ends where the managed space ends
      obtain heq : t + n = MAX_ADDRESS := by omega
      have hstay := cut_boundary hcut (areas_nil.mpr rfl)
      rw [List.append_nil] at hstay
      rw [heq, hstay, cut_keys h (by omega) (by omega)]
      simp

/-- What a `CarveVMARange` that returns has checked, and that it cut the range out exactly when
it returns no error.
SOURCE: vm_manager.cpp:290-315 -/
theorem carveVMARange_cases (h : Areas 0 MAX_ADDRESS m) (ht : t < 2 ^ 32) (hn : n < 2 ^ 32)
    {res : ResultVal ℕ} (hc : carveVMARange m t n = .ok (m', res)) :
    0 < n ∧ t + n ≤ MAX_ADDRESS ∧ pageAligned t ∧ pageAligned n ∧
      ((res = .ok t ∧ RangeMeets (fun a => a.type ≠ .free) m t n ∧
          ∃ l mid r, m' = l ++ mid ++ r ∧ Carved m t n l mid r) ∨
        (res = .error .invalidAddressState ∧ ¬ RangeMeets (fun a => a.type ≠ .free) m t n ∧
          m' = m)) := by
  simp only [carveVMARange, bind_eq_ok, assert_eq_ok] at hc
  obtain ⟨-, hnp, -, htp, -, hwrap, -, hmax, -, hpos, hc⟩ := hc
  have hnowrap : u32 (t + n) = t + n := by
    unfold u32 at hwrap ⊢
    omega
  rw [hnowrap] at hmax hc
  refine ⟨hpos, hmax, htp, hnp, ?_⟩
  obtain ⟨l, e, r, rfl, hle, hlt, hfind⟩ := findVMA_spec h (p := t) (by omega)
  obtain ⟨mapped, hwalk, hmapped⟩ := allUpTo_range h hle hlt (show t < t + n by omega)
    (fun vma => decide (vma.type ≠ .free))
  have hmapped : mapped = true ↔ RangeMeets (fun a => a.type ≠ .free) (l ++ e :: r) t n := by
    simpa using hmapped
  simp only [hfind, hwalk, bind_eq_ok, Except.ok.injEq, exists_eq_left'] at hc
  split at hc
  next hrange =>
    left
    have hrange := hmapped.mp hrange
    obtain ⟨⟨m₁, k₁⟩, hsplit, hc⟩ := bind_eq_ok.mp hc
    obtain ⟨hback, hm₁⟩ := splitAt_place h hle hlt hsplit
    obtain ⟨rfl, rfl⟩ := Prod.mk.inj hm₁
    have hcut := cut_areas h htp (Nat.zero_le k₁) (by omega)
    suffices hres : CutBacked (k₁ + n) (cut k₁ (l ++ e :: r)) ∧
        m' = cut (k₁ + n) (cut k₁ (l ++ e :: r)) ∧ res = .ok k₁ by
      obtain ⟨hback', rfl, rfl⟩ := hres
      exact ⟨rfl, hrange, carved_cut h htp hnp hpos hmax hback hback'⟩
    rcases Nat.lt_or_ge (k₁ + n) MAX_ADDRESS with hend | hend
    · obtain ⟨l₂, e₂, r₂, hm₂, hle₂, hlt₂, hfind₂⟩ := findVMA_spec hcut hend
      simp only [hfind₂, bind_eq_ok] at hc
      obtain ⟨⟨m₂, k₂⟩, hsplit₂, hc⟩ := hc
      rw [hm₂] at hcut hsplit₂ ⊢
      obtain ⟨hback₂, hm₂'⟩ := splitAt_place hcut hle₂ hlt₂ hsplit₂
      obtain ⟨rfl, -⟩ := Prod.mk.inj hm₂'
      obtain ⟨rfl, hk⟩ := Prod.mk.inj (Except.ok.inj hc)
      exact ⟨hback₂, rfl, hk.symm⟩
    · rw [findVMA_of_ge hend] at hc
      obtain ⟨rfl, hk⟩ := Prod.mk.inj (Except.ok.inj hc)
      have heq : k₁ + n = MAX_ADDRESS := by omega
      have hstay := cut_boundary hcut (areas_nil.mpr rfl)
      rw [List.append_nil] at hstay
      refine ⟨fun a ha hbelow habove => ?_, ?_, hk.symm⟩
      · have := hcut.bounds ha
        omega
      · rw [heq, hstay]
  next hrange =>
    obtain ⟨rfl, rfl⟩ := Prod.mk.inj (Except.ok.inj hc)
    exact .inr ⟨rfl, fun hall => hrange (hmapped.mpr hall), rfl⟩

/-- `SplitVMA` cuts the map inside the area. -/
theorem splitVMA_cut (h : Areas 0 MAX_ADDRESS (l ++ e :: r)) {k : ℕ}
    (hs : splitVMA (l ++ e :: r) e.1 n = .ok (m', k)) :
    (0 < n ∧ n < e.2.size) ∧ k = e.1 + n ∧ m' = cut (e.1 + n) (l ++ e :: r) := by
  obtain ⟨⟨hlt, hpos, -⟩, hres⟩ := (splitVMA_place h).mp hs
  obtain ⟨rfl, rfl⟩ := Prod.mk.inj hres
  refine ⟨⟨hpos, hlt⟩, rfl, ?_⟩
  rw [cut_place h (by omega) (by omega), show e.1 + n - e.1 = n by omega]

/-- `splitEdges` after its first cut: the start is cut off unless it is the area's own. -/
theorem splitStart_place (h : Areas 0 MAX_ADDRESS (l ++ e :: r)) {s k : ℕ}
    (hres : (if s ≠ 0 then splitVMA (l ++ e :: r) e.1 s else pure (l ++ e :: r, e.1)) =
      .ok (m', k)) :
    s < e.2.size ∧ k = e.1 + s ∧ m' = cut (e.1 + s) (l ++ e :: r) := by
  split at hres
  next =>
    obtain ⟨⟨-, hlt⟩, rfl, rfl⟩ := splitVMA_cut h hres
    exact ⟨hlt, rfl, rfl⟩
  next heq =>
    obtain rfl : s = 0 := not_not.mp heq
    obtain ⟨rfl, rfl⟩ := Prod.mk.inj (Except.ok.inj hres)
    obtain ⟨hl, hpos, hrest⟩ := areas_place.mp h
    refine ⟨hpos, rfl, ?_⟩
    rw [Nat.add_zero, cut_boundary hl (areas_cons.mpr ⟨rfl, hpos, hrest⟩)]

/-- Trimming an area down to `[e.1 + s, e.1 + f)` cuts the map at both ends.
SOURCE: vm_manager.cpp:278-285 -/
theorem splitEdges_place (h : Areas 0 MAX_ADDRESS (l ++ e :: r)) {s f k : ℕ}
    (hfa : pageAligned f) (hf : f ≤ e.2.size)
    (hres : splitEdges (l ++ e :: r) e.1 e.2.size s f = .ok (m', k)) :
    s < f ∧ k = e.1 + s ∧ m' = cut (e.1 + s) (cut (e.1 + f) (l ++ e :: r)) := by
  simp only [splitEdges] at hres
  split at hres
  next hne =>
    obtain ⟨m₁, hm₁, hres⟩ := bind_eq_ok.mp hres
    obtain ⟨⟨m₂, k₂⟩, hsplit, hm₁⟩ := bind_eq_ok.mp hm₁
    obtain rfl := Except.ok.inj hm₁
    obtain ⟨⟨hfpos, hlt⟩, -, rfl⟩ := splitVMA_cut h hsplit
    have hcut := cut_place h (t := e.1 + f) (by omega) (by omega)
    rw [show e.1 + f - e.1 = f by omega] at hcut
    simp only [hcut] at hres ⊢
    exact splitStart_place (e := (e.1, leftPart e.2 f)) (split_areas h hfa hlt hfpos) hres
  next heq =>
    obtain rfl : f = e.2.size := not_not.mp heq
    obtain ⟨hl, hpos, hsound, hr⟩ := areas_place.mp h
    have hassoc : l ++ e :: r = (l ++ [e]) ++ r := by simp
    have hle : Areas 0 (e.1 + e.2.size) (l ++ [e]) :=
      areas_place.mpr ⟨hl, hpos, hsound, areas_nil.mpr rfl⟩
    have hcut : cut (e.1 + e.2.size) (l ++ e :: r) = l ++ e :: r := by
      rw [hassoc, cut_boundary hle hr]
    rw [hcut]
    exact splitStart_place h hres

/-- A map with one base is one area. -/
theorem Areas.singleton {lo hi : ℕ} (h : Areas lo hi m) (hlt : lo < hi)
    (hkeys : ∀ k ∈ m.keys, k ≤ lo) : ∃ a, m = [(lo, a)] ∧ a.size = hi - lo := by
  cases m with
  | nil => have := areas_nil.mp h; omega
  | cons e m =>
      obtain ⟨rfl, hpos, -, hm⟩ := areas_cons.mp h
      cases m with
      | nil =>
          have := areas_nil.mp hm
          exact ⟨e.2, rfl, by omega⟩
      | cons a m =>
          have := (areas_cons.mp hm).1
          have := hkeys a.1 (by simp [VMAMap.keys])
          omega

/-- Both cuts inside one free area carve a free area of the size of the range. -/
theorem carved_free (h : Areas 0 MAX_ADDRESS (l ++ e :: r)) (hfree : e.2.type = .free)
    (htp : pageAligned t) (hnp : pageAligned n) (hle : e.1 ≤ t) (hpos : 0 < n)
    (hend : t + n ≤ e.1 + e.2.size) :
    ∃ l' a r', a.type = .free ∧ a.size = n ∧ cut t (cut (t + n) (l ++ e :: r)) = l' ++ (t, a) :: r' ∧
      Carved (l ++ e :: r) t n l' [(t, a)] r' := by
  have hbound := (h.bounds (e := e) (by simp)).2.2
  have hap := pageAligned_add htp hnp
  have hback : ∀ x, e.1 ≤ x → x ≤ e.1 + e.2.size → CutBacked x (l ++ e :: r) := by
    intro x hle hge a ha hlt hgt hb
    have := h.eq_of_inside ha hle hge hlt hgt
    simp [this, hfree] at hb
  have hb₁ := hback (t + n) (by omega) (by omega)
  have hb₂ := cutBacked_cut (x := t + n) (hback t hle (by omega))
  have hcut := cut_areas h hap (Nat.zero_le (t + n)) (by omega)
  have hcut' := cut_areas hcut htp (Nat.zero_le t) (by omega)
  have hview : view (cut t (cut (t + n) (l ++ e :: r))) = view (l ++ e :: r) := by
    funext p
    rw [cut_view hcut htp (by omega) (by omega) hb₂, cut_view h hap (by omega) (by omega) hb₁]
  have hkeys : ∀ k, k ∈ (cut t (cut (t + n) (l ++ e :: r))).keys ↔
      k ∈ VMAMap.keys (l ++ e :: r) ∨ k = t ∨ k = t + n ∧ t + n < MAX_ADDRESS := by
    intro k
    rw [cut_keys hcut (by omega) (by omega)]
    rcases Nat.lt_or_ge (t + n) MAX_ADDRESS with hlt' | hge'
    · rw [cut_keys h (by omega) hlt']
      tauto
    · have hstay := cut_boundary h (areas_nil.mpr rfl)
      rw [List.append_nil] at hstay
      rw [show t + n = MAX_ADDRESS by omega, hstay]
      simp
  obtain ⟨l', mid, r', hm', hcarved⟩ :=
    carved_of_keys hcut' (by omega) (by omega) hview hkeys
  -- no area begins inside the range, so what lies in it is one area
  have hone : ∀ k ∈ mid.keys, k ≤ t := by
    intro k hk
    obtain ⟨b, hb, rfl⟩ := List.mem_map.mp hk
    have hbounds := hcarved.within.bounds hb
    have hkey : b.1 ∈ (l' ++ mid ++ r').keys := by
      simp only [VMAMap.keys, List.map_append, List.mem_append]
      exact .inl (.inr hk)
    rcases (hcarved.keys _).mp hkey with hold | heq | heq
    · have := h.key_outside hold
      omega
    · omega
    · omega
  obtain ⟨a, rfl, hsize⟩ := hcarved.within.singleton (by omega) hone
  have hfree' : a.type = .free := by
    have hold : view (l ++ e :: r) t = some (e.2.viewAt t) := view_place h hle (by omega)
    rw [hm'] at hcut'
    simp only [List.append_assoc, List.singleton_append] at hcut'
    have hnew : view (l' ++ (t, a) :: r') t = some (a.viewAt t) :=
      view_place hcut' le_rfl (show t < t + a.size by omega)
    have hsame := hcarved.same
    simp only [List.append_assoc, List.singleton_append] at hsame
    rw [hsame, hold] at hnew
    have := congrArg PageView.type (Option.some.inj hnew)
    exact this.symm.trans hfree
  exact ⟨l', a, r', hfree', by omega, by simp [hm'], hcarved⟩

/-- What a successful `CarveVMA` has checked and done.
SOURCE: vm_manager.cpp:256-288 -/
theorem carveVMA_ok (h : Areas 0 MAX_ADDRESS m) (hn : n < 2 ^ 32) {k : ℕ}
    (hc : carveVMA m t n = .ok (m', .ok k)) :
    k = t ∧ 0 < n ∧ t + n ≤ MAX_ADDRESS ∧ pageAligned t ∧ pageAligned n ∧
      ∃ l a r, a.type = .free ∧ a.size = n ∧ m' = l ++ (t, a) :: r ∧
        Carved m t n l [(t, a)] r := by
  simp only [carveVMA, bind_eq_ok, assert_eq_ok] at hc
  obtain ⟨-, hnp, -, htp, hc⟩ := hc
  rcases Nat.lt_or_ge t MAX_ADDRESS with hin | hout
  · obtain ⟨l, e, r, rfl, hle, hlt, hfind⟩ := findVMA_spec h hin
    have hmax : MAX_ADDRESS < 2 ^ 32 := by decide
    have hbound := h.bounds (e := e) (by simp)
    have hsound := h.sound e (by simp)
    simp only [hfind, deref_place h.sorted, ok_bind, ← hsound.key,
      u32Sub_of_le hle (show t < 2 ^ 32 by omega)] at hc
    split at hc
    next => simp at hc
    next hfree =>
      have hfree : e.2.type = .free := not_not.mp hfree
      split at hc
      next => simp at hc
      next hfits =>
        obtain ⟨⟨m₁, k₁⟩, hedges, hc⟩ := bind_eq_ok.mp hc
        obtain ⟨rfl, hk⟩ := Prod.mk.inj (Except.ok.inj hc)
        obtain rfl := Except.ok.inj hk
        have hoff : pageAligned (t - e.1) := h.aligned_sub htp (by simp)
        have hwrap : pageAligned (u32 (t - e.1 + n)) := by
          have := pageAligned_add hoff hnp
          unfold pageAligned Memory.PAGE_SIZE u32 at *
          omega
        obtain ⟨hsf, rfl, rfl⟩ := splitEdges_place h hwrap (by omega) hedges
        -- the end did not wrap around, as it lies after the start
        have hnowrap : u32 (t - e.1 + n) = t - e.1 + n := by
          unfold u32 at hsf ⊢
          omega
        rw [hnowrap] at hsf hfits
        have hstart : e.1 + (t - e.1) = t := by omega
        have hend : e.1 + (t - e.1 + n) = t + n := by omega
        simp only [hnowrap, hstart, hend]
        exact ⟨trivial, by omega, by omega, htp, hnp,
          carved_free h hfree htp hnp hle (by omega) (by omega)⟩
  · rw [findVMA_of_ge hout] at hc
    simp at hc

/-- A `CarveVMA` that returns an error cuts nothing. -/
theorem carveVMA_error {code : Result} (hc : carveVMA m t n = .ok (m', .error code)) :
    m' = m := by
  simp only [carveVMA, bind_eq_ok, assert_eq_ok] at hc
  obtain ⟨-, -, -, -, hc⟩ := hc
  split at hc
  next => exact (Prod.mk.inj (Except.ok.inj hc)).1.symm
  next =>
    obtain ⟨vma, -, hc⟩ := bind_eq_ok.mp hc
    split at hc
    next => exact (Prod.mk.inj (Except.ok.inj hc)).1.symm
    next =>
      split at hc
      next => exact (Prod.mk.inj (Except.ok.inj hc)).1.symm
      next =>
        obtain ⟨⟨m₁, k₁⟩, -, hc⟩ := bind_eq_ok.mp hc
        simp at hc

end Carve

section Carved

variable {mid : VMAMap}

theorem Carved.areas (h : Carved m t n l mid r) : Areas 0 MAX_ADDRESS (l ++ mid ++ r) :=
  (h.before.append h.within).append h.after

/-- What a maximal map is carved into is maximal piece by piece. -/
theorem Carved.maximal (h : Carved m t n l mid r) (hm : Areas 0 MAX_ADDRESS m)
    (hmax : m.Maximal) : l.Maximal ∧ mid.Maximal ∧ r.Maximal := by
  have hbreak := (maximal_iff hm).mp hmax
  have hinner : ∀ k ∈ (l ++ mid ++ r).keys, 0 < k → k ≠ t → k ≠ t + n →
      ¬ (view (l ++ mid ++ r)).ContinuesAt k := by
    intro k hk hpos hne hne'
    rw [h.same]
    rcases (h.keys k).mp hk with hold | heq | heq
    · exact hbreak k hold hpos
    · exact absurd heq hne
    · exact absurd heq.1 hne'
  have hmem : ∀ k, k ∈ l.keys ∨ k ∈ mid.keys ∨ k ∈ r.keys → k ∈ (l ++ mid ++ r).keys := by
    simp [VMAMap.keys]
  have hleft := h.before.append h.within
  refine ⟨(maximal_iff h.before).mpr fun k hk hpos => ?_,
    (maximal_iff h.within).mpr fun k hk hpos => ?_,
    (maximal_iff h.after).mpr fun k hk hpos => ?_⟩
  · obtain ⟨e, he, rfl⟩ := List.mem_map.mp hk
    have := h.before.bounds he
    rw [← continuesAt_left h.before h.within (by omega),
      ← continuesAt_left hleft h.after (by omega)]
    exact hinner e.1 (hmem _ (.inl hk)) hpos (by omega) (by omega)
  · obtain ⟨e, he, rfl⟩ := List.mem_map.mp hk
    have := h.within.bounds he
    rw [← continuesAt_right h.before h.within hpos, ← continuesAt_left hleft h.after (by omega)]
    exact hinner e.1 (hmem _ (.inr (.inl hk))) (by omega) (by omega) (by omega)
  · rw [← continuesAt_right hleft h.after hpos]
    exact hinner k (hmem _ (.inr (.inr hk))) (by omega) (by omega) (by omega)

end Carved

end Borked3DS.Analysis
