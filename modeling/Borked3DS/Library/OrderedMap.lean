import Mathlib.Algebra.Order.Ring.Nat
import Mathlib.Data.List.Basic
import Mathlib.Data.List.Pairwise
import Mathlib.Order.Basic
import Mathlib.Tactic.Common
import Mathlib.Tactic.Order

/-!
# Ordered maps and their iterators

An ordered map is the list of its entries in strictly increasing key order. An iterator is
the key of the entry it stands on, or `none` past the last entry. Each operation is stated
on plain lists; the lemmas of the last section say what it does at a given place
`l ++ (k, v) :: r` of a sorted map, which is how every traversal below is reasoned about:
`l` is what the iterator has behind it, `r` what it has before it.
-/

set_option autoImplicit false

namespace Borked3DS.Library.OrderedMap

variable {κ α : Type*} [LinearOrder κ]

/-- The entries stand in strictly increasing key order. -/
def Sorted (m : List (κ × α)) : Prop := m.Pairwise fun a b => a.1 < b.1

/-- The value under the key `k`. -/
def lookup (k : κ) : List (κ × α) → Option α
  | [] => none
  | e :: m => if e.1 = k then some e.2 else lookup k m

/-- The first entry: `begin()`. -/
def first (m : List (κ × α)) : Option κ := m.head?.map Prod.fst

/-- The first entry whose key is not less than `k`. -/
def lowerBound (k : κ) (m : List (κ × α)) : Option κ :=
  (m.find? fun e => decide (k ≤ e.1)).map Prod.fst

/-- The first entry whose key is greater than `k`. -/
def upperBound (k : κ) (m : List (κ × α)) : Option κ :=
  (m.find? fun e => decide (k < e.1)).map Prod.fst

/-- The entry before an iterator; `none` when the iterator is at the first entry. -/
def prev (it : Option κ) (m : List (κ × α)) : Option κ :=
  match it with
  | none => m.getLast?.map Prod.fst
  | some k => (m.takeWhile fun e => decide (e.1 < k)).getLast?.map Prod.fst

/-- Insert an entry, unless its key is present. -/
def emplace (k : κ) (v : α) : List (κ × α) → List (κ × α)
  | [] => [(k, v)]
  | e :: m =>
      if k < e.1 then (k, v) :: e :: m
      else if k = e.1 then e :: m
      else e :: emplace k v m

/-- Remove the entry under `k`. -/
def erase (k : κ) (m : List (κ × α)) : List (κ × α) := m.filter fun e => decide (e.1 ≠ k)

/-- Overwrite the value under `k`. -/
def assign (k : κ) (v : α) (m : List (κ × α)) : List (κ × α) :=
  m.map fun e => if e.1 = k then (k, v) else e

/-- The entries from the iterator `it` on. -/
def entriesFrom (it : Option κ) (m : List (κ × α)) : List (κ × α) :=
  match it with
  | none => []
  | some k => m.dropWhile fun e => decide (e.1 ≠ k)

section Place

variable {l r : List (κ × α)} {k : κ} {v : α}

/-- The keys behind a place are smaller than its key, the keys before it are larger. -/
theorem sorted_place : Sorted (l ++ (k, v) :: r) ↔
    Sorted l ∧ Sorted r ∧ (∀ e ∈ l, e.1 < k) ∧ (∀ e ∈ r, k < e.1) ∧
      ∀ a ∈ l, ∀ b ∈ r, a.1 < b.1 := by
  simp only [Sorted, List.pairwise_append, List.pairwise_cons, List.mem_cons,
    forall_eq_or_imp, forall_and]
  tauto

theorem sorted_lt_left (h : Sorted (l ++ (k, v) :: r)) : ∀ e ∈ l, e.1 < k :=
  (sorted_place.mp h).2.2.1

theorem sorted_lt_right (h : Sorted (l ++ (k, v) :: r)) : ∀ e ∈ r, k < e.1 :=
  (sorted_place.mp h).2.2.2.1

theorem lookup_place (h : Sorted (l ++ (k, v) :: r)) :
    lookup k (l ++ (k, v) :: r) = some v := by
  have hl := sorted_lt_left h
  clear h
  induction l with
  | nil => simp [lookup]
  | cons e l ih =>
      have he : e.1 ≠ k := (hl e (by simp)).ne
      simp only [List.cons_append, lookup, he, if_false]
      exact ih fun a ha => hl a (by simp [ha])

theorem assign_place (h : Sorted (l ++ (k, v) :: r)) (w : α) :
    assign k w (l ++ (k, v) :: r) = l ++ (k, w) :: r := by
  have hl : l.map (fun e => if e.1 = k then (k, w) else e) = l :=
    (List.map_congr_left fun e he => if_neg (sorted_lt_left h e he).ne).trans (List.map_id l)
  have hr : r.map (fun e => if e.1 = k then (k, w) else e) = r :=
    (List.map_congr_left fun e he => if_neg (sorted_lt_right h e he).ne').trans (List.map_id r)
  simp [assign, hl, hr]

theorem erase_place (h : Sorted (l ++ (k, v) :: r)) :
    erase k (l ++ (k, v) :: r) = l ++ r := by
  have hl : l.filter (fun e => decide (e.1 ≠ k)) = l :=
    List.filter_eq_self.mpr fun e he => decide_eq_true (sorted_lt_left h e he).ne
  have hr : r.filter (fun e => decide (e.1 ≠ k)) = r :=
    List.filter_eq_self.mpr fun e he => decide_eq_true (sorted_lt_right h e he).ne'
  rw [erase, List.filter_append, List.filter_cons, hl, hr]
  simp

theorem upperBound_split {m : List (κ × α)} (hl : ∀ e ∈ l, e.1 ≤ k)
    (hm : ∀ e ∈ m, k < e.1) : upperBound k (l ++ m) = first m := by
  have hnone : l.find? (fun e => decide (k < e.1)) = none :=
    List.find?_eq_none.mpr fun e he => by simpa using hl e he
  have hhead : m.find? (fun e => decide (k < e.1)) = m.head? := by
    cases m with
    | nil => rfl
    | cons e m => simp [hm e (by simp)]
  simp [upperBound, first, List.find?_append, hnone, hhead]

theorem upperBound_place (h : Sorted (l ++ (k, v) :: r)) :
    upperBound k (l ++ (k, v) :: r) = first r := by
  have hle : ∀ e ∈ l ++ [(k, v)], e.1 ≤ k := by
    intro e he
    rcases List.mem_append.mp he with he | he
    · exact (sorted_lt_left h e he).le
    · rw [List.mem_singleton.mp he]
  have := upperBound_split hle (sorted_lt_right h)
  simpa using this

/-- The entry before the first entry of `m`, where `l` is what stands before `m`. -/
theorem prev_first {m : List (κ × α)} (h : Sorted (l ++ m)) :
    prev (first m) (l ++ m) = l.getLast?.map Prod.fst := by
  cases m with
  | nil => simp [first, prev]
  | cons e m =>
      obtain ⟨k, v⟩ := e
      have hl := sorted_lt_left h
      simp only [first, List.head?_cons, Option.map_some, prev]
      rw [List.takeWhile_append_of_pos fun e he => decide_eq_true (hl e he)]
      simp

theorem prev_place (h : Sorted (l ++ (k, v) :: r)) :
    prev (some k) (l ++ (k, v) :: r) = l.getLast?.map Prod.fst := prev_first h

theorem emplace_place (h : Sorted (l ++ (k, v) :: r)) {k' : κ} (v' : α) (hk : k < k')
    (hr : ∀ e ∈ r, k' < e.1) :
    emplace k' v' (l ++ (k, v) :: r) = l ++ (k, v) :: (k', v') :: r := by
  have hl := sorted_lt_left h
  clear h
  induction l with
  | nil =>
      have hnot : ¬ k' < k := hk.not_gt
      cases r with
      | nil => simp [emplace, hnot, hk.ne']
      | cons e r => simp [emplace, hnot, hk.ne', hr e (by simp)]
  | cons e l ih =>
      have he : e.1 < k' := (hl e (by simp)).trans hk
      simp only [List.cons_append, emplace, he.not_gt, he.ne', if_false]
      rw [ih fun a ha => hl a (by simp [ha])]

theorem entriesFrom_place (h : Sorted (l ++ (k, v) :: r)) :
    entriesFrom (some k) (l ++ (k, v) :: r) = (k, v) :: r := by
  have hl := sorted_lt_left h
  simp only [entriesFrom]
  rw [List.dropWhile_append_of_pos fun e he => decide_eq_true (hl e he).ne]
  simp

/-- A key that is present stands at some place of the map. -/
theorem place_of_lookup {m : List (κ × α)} (h : lookup k m = some v) :
    ∃ l r, m = l ++ (k, v) :: r := by
  induction m with
  | nil => simp [lookup] at h
  | cons e m ih =>
      rw [lookup] at h
      split at h
      next hk =>
        cases h
        exact ⟨[], m, by simp [← hk]⟩
      next =>
        obtain ⟨l, r, rfl⟩ := ih h
        exact ⟨e :: l, r, rfl⟩

end Place

end Borked3DS.Library.OrderedMap
