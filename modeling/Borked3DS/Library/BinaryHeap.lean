import Mathlib.Algebra.Order.Ring.Nat
import Mathlib.Data.List.Basic
import Mathlib.Order.Basic

/-!
# Binary heaps in a list

The heap operations of an array on lists: the entry at `i` has the entries at `2 * i + 1` and
`2 * i + 2` below it, and no entry comes before the one above it. `pushHeap` puts the last entry in
its place, `popHeap` moves the first entry to the end and `makeHeap` orders any list.
-/

set_option autoImplicit false

namespace Borked3DS.Library

universe u

variable {α κ : Type u} [LinearOrder κ] (key : α → κ)

/-- The position above `i`. -/
def parent (i : ℕ) : ℕ := (i - 1) / 2

/-- The entry at `i` does not come after the entry at `j`, where both are there. -/
def InOrder (xs : List α) (i j : ℕ) : Prop :=
  ∀ a b, xs[i]? = some a → xs[j]? = some b → key a ≤ key b

/-- No entry comes before the one above it. -/
def IsHeap (xs : List α) : Prop := ∀ i, 0 < i → InOrder key xs (parent i) i

/-- The entry at `i` is moved up while it comes before the one above it. -/
def siftUp : ℕ → List α → ℕ → List α
  | 0, xs, _ => xs
  | fuel + 1, xs, i =>
      if i = 0 then xs
      else
        match xs[parent i]?, xs[i]? with
        | some above, some entry =>
            if key entry < key above then
              siftUp fuel ((xs.set (parent i) entry).set i above) (parent i)
            else xs
        | _, _ => xs

/-- The one of the two entries below `i` that comes first, with its position. -/
def firstBelow (xs : List α) (i : ℕ) : Option (ℕ × α) :=
  match xs[2 * i + 1]?, xs[2 * i + 2]? with
  | none, _ => none
  | some left, none => some (2 * i + 1, left)
  | some left, some right =>
      if key right < key left then some (2 * i + 2, right) else some (2 * i + 1, left)

/-- The entry at `i` is moved down while one below it comes before it. -/
def siftDown : ℕ → List α → ℕ → List α
  | 0, xs, _ => xs
  | fuel + 1, xs, i =>
      match xs[i]?, firstBelow key xs i with
      | some entry, some (j, below) =>
          if key below < key entry then siftDown fuel ((xs.set i below).set j entry) j else xs
      | _, _ => xs

/-- `std::push_heap`: all entries but the last are a heap, and then all are. -/
def pushHeap (xs : List α) : List α := siftUp key xs.length xs (xs.length - 1)

/-- `std::pop_heap`: the first entry goes to the end, and the others are a heap. -/
def popHeap : List α → List α
  | [] => []
  | first :: rest =>
      match rest.getLast? with
      | none => [first]
      | some last => siftDown key rest.length (last :: rest.dropLast) 0 ++ [first]

/-- `std::make_heap`. -/
def makeHeap (xs : List α) : List α := xs.foldl (fun heap x => pushHeap key (heap ++ [x])) []

section Swaps

variable {xs : List α} {i j k : ℕ} {a b : α}

theorem getElem?_swap (hi : xs[i]? = some a) (hj : xs[j]? = some b) (hij : i ≠ j) :
    ((xs.set i b).set j a)[k]? = if k = i then some b else if k = j then some a else xs[k]? := by
  have hilt : i < xs.length := (List.getElem?_eq_some_iff.mp hi).1
  have hjlt : j < xs.length := (List.getElem?_eq_some_iff.mp hj).1
  rw [List.getElem?_set, List.getElem?_set, List.length_set]
  by_cases hki : k = i
  · subst hki
    rw [if_neg (Ne.symm hij), if_pos rfl, if_pos hilt, if_pos rfl]
  · rw [if_neg (Ne.symm hki), if_neg hki]
    by_cases hkj : k = j
    · subst hkj
      rw [if_pos rfl, if_pos rfl, if_pos hjlt]
    · rw [if_neg (Ne.symm hkj), if_neg hkj]

theorem swap_perm (hi : xs[i]? = some a) (hj : xs[j]? = some b) :
    ((xs.set i b).set j a).Perm xs := by
  obtain ⟨hilt, rfl⟩ := List.getElem?_eq_some_iff.mp hi
  obtain ⟨hjlt, rfl⟩ := List.getElem?_eq_some_iff.mp hj
  exact List.set_set_perm hilt hjlt

end Swaps

theorem parent_lt {i : ℕ} (h : 0 < i) : parent i < i := by
  unfold parent
  omega

section SiftUp

variable {key}

/-- Everything is in order but the entry at `i` with the one above it. -/
structure UpOrder (key : α → κ) (xs : List α) (i : ℕ) : Prop where
  others : ∀ j, 0 < j → j ≠ i → InOrder key xs (parent j) j
  across : ∀ j, 0 < j → parent j = i → 0 < i → InOrder key xs (parent i) j

/-- A turn of the way up. -/
theorem UpOrder.swap {xs : List α} {i : ℕ} {above entry : α} (h : UpOrder key xs i) (hpos : 0 < i)
    (habove : xs[parent i]? = some above) (hentry : xs[i]? = some entry)
    (hlt : key entry < key above) :
    UpOrder key ((xs.set (parent i) entry).set i above) (parent i) := by
  have hne : parent i ≠ i := Nat.ne_of_lt (parent_lt hpos)
  have hget (k : ℕ) := getElem?_swap (k := k) habove hentry hne
  constructor
  · intro j hj hji a b ha hb
    rw [hget] at ha hb
    by_cases hjself : j = i
    · subst hjself
      rw [if_pos rfl] at ha
      rw [if_neg hji, if_pos rfl] at hb
      cases ha
      cases hb
      exact le_of_lt hlt
    · rw [if_neg hji, if_neg hjself] at hb
      by_cases hpp : parent j = parent i
      · rw [if_pos hpp] at ha
        cases ha
        have hside := h.others j hj hjself above b (by rw [hpp]; exact habove) hb
        exact le_trans (le_of_lt hlt) hside
      · rw [if_neg hpp] at ha
        by_cases hpi : parent j = i
        · rw [if_pos hpi] at ha
          cases ha
          exact h.across j hj hpi hpos above b habove hb
        · rw [if_neg hpi] at ha
          exact h.others j hj hjself a b ha hb
  · intro j hj hjp hpp a b ha hb
    have hup : parent (parent i) ≠ parent i := Nat.ne_of_lt (parent_lt hpp)
    have hup' : parent (parent i) ≠ i := by
      have := parent_lt hpp
      have := parent_lt hpos
      omega
    have hjpar : j ≠ parent i := by
      have := parent_lt hj
      omega
    rw [hget, if_neg hup, if_neg hup'] at ha
    rw [hget, if_neg hjpar] at hb
    have htop := h.others (parent i) hpp hne a above ha habove
    by_cases hjself : j = i
    · rw [if_pos hjself] at hb
      cases hb
      exact htop
    · rw [if_neg hjself] at hb
      exact le_trans htop (h.others j hj hjself above b (by rw [hjp]; exact habove) hb)

/-- The way up ends in a heap, by induction on the fuel. -/
theorem siftUp_isHeap : ∀ (fuel : ℕ) (xs : List α) (i : ℕ), i ≤ fuel → UpOrder key xs i →
    IsHeap key (siftUp key fuel xs i) := by
  intro fuel
  induction fuel with
  | zero =>
    intro xs i hi h j hj
    exact h.others j hj (by omega)
  | succ fuel ih =>
    intro xs i hi h
    unfold siftUp
    split
    · next hzero =>
      intro j hj
      exact h.others j hj (by omega)
    · next hzero =>
      have hpos : 0 < i := by omega
      split
      · next above entry habove hentry =>
        split
        · next hlt =>
          apply ih
          · have := parent_lt hpos
            omega
          · exact h.swap hpos habove hentry hlt
        · next hle =>
          intro j hj
          by_cases hji : j = i
          · subst hji
            intro a b ha hb
            rw [habove] at ha
            rw [hentry] at hb
            cases ha
            cases hb
            exact le_of_not_gt hle
          · exact h.others j hj hji
      · next hnone =>
        intro j hj
        by_cases hji : j = i
        · subst hji
          intro a b ha hb
          exact absurd hb (by
            intro hb
            exact hnone a b ha hb)
        · exact h.others j hj hji

theorem siftUp_perm : ∀ (fuel : ℕ) (xs : List α) (i : ℕ), (siftUp key fuel xs i).Perm xs := by
  intro fuel
  induction fuel with
  | zero =>
    intro xs i
    exact List.Perm.refl xs
  | succ fuel ih =>
    intro xs i
    unfold siftUp
    split
    · exact List.Perm.refl xs
    · split
      · next above entry habove hentry =>
        split
        · exact (ih _ _).trans (swap_perm habove hentry)
        · exact List.Perm.refl xs
      · exact List.Perm.refl xs

end SiftUp

section SiftDown

variable {key}

/-- Everything is in order but the entry at `i` with those below it. -/
structure DownOrder (key : α → κ) (xs : List α) (i : ℕ) : Prop where
  others : ∀ j, 0 < j → parent j ≠ i → InOrder key xs (parent j) j
  across : ∀ j, 0 < j → parent j = i → 0 < i → InOrder key xs (parent i) j

theorem below_of_parent {i j : ℕ} (hj : 0 < j) (h : parent j = i) :
    j = 2 * i + 1 ∨ j = 2 * i + 2 := by
  unfold parent at h
  omega

/-- The entry below `i` that is chosen: it is there, it is below `i`, and no entry below `i` comes
before it. -/
theorem firstBelow_spec {xs : List α} {i j : ℕ} {below : α}
    (h : firstBelow key xs i = some (j, below)) :
    xs[j]? = some below ∧ 0 < j ∧ parent j = i ∧
      ∀ k b, 0 < k → parent k = i → xs[k]? = some b → key below ≤ key b := by
  have hparent₁ : parent (2 * i + 1) = i := by
    unfold parent
    omega
  have hparent₂ : parent (2 * i + 2) = i := by
    unfold parent
    omega
  unfold firstBelow at h
  split at h
  · cases h
  · next left hleft hright =>
    cases h
    refine ⟨hleft, by omega, hparent₁, ?_⟩
    intro k b hk hki hb
    rcases below_of_parent hk hki with rfl | rfl
    · rw [hleft] at hb
      cases hb
      exact le_refl _
    · rw [hright] at hb
      cases hb
  · next left right hleft hright =>
    split at h
    · next hlt =>
      cases h
      refine ⟨hright, by omega, hparent₂, ?_⟩
      intro k b hk hki hb
      rcases below_of_parent hk hki with rfl | rfl
      · rw [hleft] at hb
        cases hb
        exact le_of_lt hlt
      · rw [hright] at hb
        cases hb
        exact le_refl _
    · next hle =>
      cases h
      refine ⟨hleft, by omega, hparent₁, ?_⟩
      intro k b hk hki hb
      rcases below_of_parent hk hki with rfl | rfl
      · rw [hleft] at hb
        cases hb
        exact le_refl _
      · rw [hright] at hb
        cases hb
        exact le_of_not_gt hle

theorem firstBelow_eq_none {xs : List α} {i : ℕ} (h : firstBelow key xs i = none) :
    xs.length ≤ 2 * i + 1 := by
  unfold firstBelow at h
  split at h
  · next hnone => exact List.getElem?_eq_none_iff.mp hnone
  · cases h
  · split at h
    · cases h
    · cases h

/-- A turn of the way down. -/
theorem DownOrder.swap {xs : List α} {i j : ℕ} {entry below : α} (h : DownOrder key xs i)
    (hentry : xs[i]? = some entry) (hbelow : firstBelow key xs i = some (j, below))
    (hlt : key below < key entry) : DownOrder key ((xs.set i below).set j entry) j := by
  obtain ⟨hj, hjpos, hjparent, hmin⟩ := firstBelow_spec hbelow
  have hij : i < j := by
    rw [← hjparent]
    exact parent_lt hjpos
  have hget (k : ℕ) := getElem?_swap (k := k) hentry hj (Nat.ne_of_lt hij)
  constructor
  · intro k hk hkj a b ha hb
    have hkself := parent_lt hk
    rw [hget] at ha hb
    rw [if_neg hkj] at ha
    by_cases hki : k = i
    · rw [if_pos hki] at hb
      rw [if_neg (by omega)] at ha
      cases hb
      rw [hki] at ha hk
      exact h.across j hjpos hjparent hk a below ha hj
    · rw [if_neg hki] at hb
      by_cases hkp : parent k = i
      · rw [if_pos hkp] at ha
        cases ha
        by_cases hkeq : k = j
        · rw [if_pos hkeq] at hb
          cases hb
          exact le_of_lt hlt
        · rw [if_neg hkeq] at hb
          exact hmin k b hk hkp hb
      · rw [if_neg hkp] at ha
        by_cases hkeq : k = j
        · rw [hkeq] at hkp
          exact absurd hjparent hkp
        · rw [if_neg hkeq] at hb
          exact h.others k hk hkp a b ha hb
  · intro k hk hkj _ a b ha hb
    have hkself := parent_lt hk
    rw [hget] at ha hb
    rw [hjparent, if_pos rfl] at ha
    rw [if_neg (by omega), if_neg (by omega)] at hb
    cases ha
    exact h.others k hk (by omega) below b (by rw [hkj]; exact hj) hb

/-- The way down ends in a heap, by induction on the fuel. -/
theorem siftDown_isHeap : ∀ (fuel : ℕ) (xs : List α) (i : ℕ), xs.length ≤ i + fuel →
    DownOrder key xs i → IsHeap key (siftDown key fuel xs i) := by
  intro fuel
  induction fuel with
  | zero =>
    intro xs i hi h j hj a b ha hb
    by_cases hji : parent j = i
    · have hlt : j < xs.length := (List.getElem?_eq_some_iff.mp hb).1
      have := parent_lt hj
      omega
    · exact h.others j hj hji a b ha hb
  | succ fuel ih =>
    intro xs i hi h
    unfold siftDown
    split
    · next entry j below hentry hbelow =>
      obtain ⟨hj, hjpos, hjparent, hmin⟩ := firstBelow_spec hbelow
      split
      · next hlt =>
        apply ih
        · have := parent_lt hjpos
          simp only [List.length_set]
          omega
        · exact h.swap hentry hbelow hlt
      · next hle =>
        intro k hk a b ha hb
        by_cases hki : parent k = i
        · rw [hki, hentry] at ha
          cases ha
          exact le_trans (le_of_not_gt hle) (hmin k b hk hki hb)
        · exact h.others k hk hki a b ha hb
    · next hnone =>
      intro k hk a b ha hb
      by_cases hki : parent k = i
      · rw [hki] at ha
        cases hbelow : firstBelow key xs i with
        | none =>
          have hlt := (List.getElem?_eq_some_iff.mp hb).1
          have hshort := firstBelow_eq_none hbelow
          rcases below_of_parent hk hki with rfl | rfl
          · omega
          · omega
        | some below => exact absurd hbelow (hnone a below.1 below.2 ha)
      · exact h.others k hk hki a b ha hb

theorem siftDown_perm : ∀ (fuel : ℕ) (xs : List α) (i : ℕ), (siftDown key fuel xs i).Perm xs := by
  intro fuel
  induction fuel with
  | zero =>
    intro xs i
    exact List.Perm.refl xs
  | succ fuel ih =>
    intro xs i
    unfold siftDown
    split
    · next entry j below hentry hbelow =>
      split
      · exact (ih _ _).trans (swap_perm hentry (firstBelow_spec hbelow).1)
      · exact List.Perm.refl xs
    · exact List.Perm.refl xs

end SiftDown

section Operations

variable {key} {xs : List α} {x : α}

theorem isHeap_nil : IsHeap key ([] : List α) := by
  intro i _ a b ha _
  cases ha

/-- The first entry of a heap comes first of all. -/
theorem IsHeap.first_le (h : IsHeap key (x :: xs)) : ∀ y ∈ xs, key x ≤ key y := by
  have hall : ∀ (n i : ℕ) (y : α), i ≤ n → (x :: xs)[i]? = some y → key x ≤ key y := by
    intro n
    induction n with
    | zero =>
      intro i y hi hy
      obtain rfl : i = 0 := by omega
      cases hy
      exact le_refl _
    | succ n ih =>
      intro i y hi hy
      rcases Nat.eq_zero_or_pos i with rfl | hpos
      · cases hy
        exact le_refl _
      · have hup := parent_lt hpos
        have hlt := (List.getElem?_eq_some_iff.mp hy).1
        obtain ⟨a, ha⟩ : ∃ a, (x :: xs)[parent i]? = some a :=
          ⟨_, List.getElem?_eq_getElem (by omega)⟩
        exact le_trans (ih (parent i) a (by omega) ha) (h i hpos a y ha hy)
  intro y hy
  obtain ⟨i, hi⟩ := List.mem_iff_getElem?.mp hy
  exact hall (i + 1) (i + 1) y (Nat.le_refl _) hi

theorem pushHeap_perm : (pushHeap key xs).Perm xs := siftUp_perm _ _ _

theorem pushHeap_isHeap (h : IsHeap key xs) : IsHeap key (pushHeap key (xs ++ [x])) := by
  have hlen : (xs ++ [x]).length - 1 = xs.length := by
    rw [List.length_append, List.length_singleton, Nat.add_sub_cancel]
  unfold pushHeap
  apply siftUp_isHeap
  · omega
  · rw [hlen]
    constructor
    · intro j hj hjx a b ha hb
      have hlt : j < xs.length := by
        have := (List.getElem?_eq_some_iff.mp hb).1
        rw [List.length_append, List.length_singleton] at this
        omega
      have hup := parent_lt hj
      rw [List.getElem?_append_left (by omega)] at ha hb
      exact h j hj a b ha hb
    · intro j hj hjx _ a b _ hb
      have hup := parent_lt hj
      have hlt := (List.getElem?_eq_some_iff.mp hb).1
      rw [List.length_append, List.length_singleton] at hlt
      omega

/-- Popping a heap leaves the first entry at the end, behind a heap of the others. -/
theorem popHeap_spec (h : IsHeap key (x :: xs)) :
    ∃ heap, popHeap key (x :: xs) = heap ++ [x] ∧ IsHeap key heap ∧ heap.Perm xs := by
  cases hlast : xs.getLast? with
  | none =>
    rw [List.getLast?_eq_none_iff] at hlast
    subst hlast
    exact ⟨[], rfl, isHeap_nil, List.Perm.refl _⟩
  | some last =>
    obtain ⟨front, rfl⟩ := List.getLast?_eq_some_iff.mp hlast
    refine ⟨siftDown key (front ++ [last]).length (last :: front) 0, ?_, ?_, ?_⟩
    · unfold popHeap
      dsimp only
      rw [hlast, List.dropLast_concat]
    · apply siftDown_isHeap
      · rw [List.length_cons, List.length_append, List.length_singleton]
        omega
      · constructor
        · intro j hj hjp a b ha hb
          have hup : 0 < parent j := by omega
          have hlt := (List.getElem?_eq_some_iff.mp hb).1
          have hle := parent_lt hj
          rw [List.length_cons] at hlt
          have hsame (k : ℕ) (hk : 0 < k) (hkf : k < front.length + 1) :
              (last :: front)[k]? = (x :: (front ++ [last]))[k]? := by
            obtain ⟨k, rfl⟩ := Nat.exists_eq_add_one_of_ne_zero (Nat.ne_of_gt hk)
            rw [List.getElem?_cons_succ, List.getElem?_cons_succ,
              List.getElem?_append_left (by omega)]
          rw [hsame _ (by omega) (by omega)] at ha hb
          exact h j hj a b ha hb
        · intro j _ _ hpos
          omega
    · apply (siftDown_perm _ _ _).trans
      exact (List.perm_append_singleton last front).symm

theorem makeHeap_spec (key : α → κ) (xs : List α) :
    IsHeap key (makeHeap key xs) ∧ (makeHeap key xs).Perm xs := by
  have hfold : ∀ (ys heap : List α), IsHeap key heap →
      IsHeap key (ys.foldl (fun heap x => pushHeap key (heap ++ [x])) heap) ∧
        (ys.foldl (fun heap x => pushHeap key (heap ++ [x])) heap).Perm (heap ++ ys) := by
    intro ys
    induction ys with
    | nil =>
      intro heap hheap
      rw [List.append_nil]
      exact ⟨hheap, List.Perm.refl _⟩
    | cons y ys ih =>
      intro heap hheap
      obtain ⟨hresult, hperm⟩ := ih _ (pushHeap_isHeap (x := y) hheap)
      refine ⟨hresult, hperm.trans ?_⟩
      have hpush : (pushHeap key (heap ++ [y])).Perm (heap ++ [y]) := pushHeap_perm
      have hone := hpush.append_right ys
      rwa [List.append_assoc, List.singleton_append] at hone
  exact hfold xs [] isHeap_nil

end Operations

end Borked3DS.Library
