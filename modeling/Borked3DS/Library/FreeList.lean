import Mathlib.Algebra.Order.Ring.Nat
import Mathlib.Data.List.Basic
import Mathlib.Logic.Function.Basic

/-!
# A free list threaded through an array

The entries of an array that are free form a linked list: each one holds the next, from a head on
up to an end marker, in the same array that holds something else for the entries in use. `FreeList`
says that the list runs exactly through the free entries, once through each. Taking the head out
and putting an entry back in front keep it, and so does writing to an entry in use.
-/

set_option autoImplicit false

namespace Borked3DS.Library

variable {α : Type*}

/-- The links run from `head` through a list up to the end marker. -/
def Threads (next : α → α) (e : α) : α → List α → Prop
  | head, [] => head = e
  | head, i :: l => head = i ∧ Threads next e (next i) l

/-- The links from `head` run exactly through the free entries, without repetition. -/
def FreeList (next : α → α) (e head : α) (free : Set α) : Prop :=
  ∃ l, Threads next e head l ∧ l.Nodup ∧ ∀ i, i ∈ l ↔ i ∈ free

theorem Threads.congr {next next' : α → α} {e head : α} {l : List α}
    (h : Threads next e head l) (hsame : ∀ i ∈ l, next' i = next i) : Threads next' e head l := by
  induction l generalizing head with
  | nil => exact h
  | cons i l ih =>
      refine ⟨h.1, ?_⟩
      rw [hsame i (by simp)]
      exact ih h.2 fun j hj => hsame j (by simp [hj])

namespace FreeList

variable {next next' : α → α} {e head : α} {free free' : Set α}

/-- The head is an entry of the list, or the list is empty and the head is the end marker. -/
theorem eq_end_iff (h : FreeList next e head free) (he : e ∉ free) :
    head = e ↔ ∀ i, i ∉ free := by
  obtain ⟨l, hthreads, -, hmem⟩ := h
  cases l with
  | nil =>
      constructor
      · intro _ i hi
        have := (hmem i).mpr hi
        cases this
      · intro _
        exact hthreads
  | cons i l =>
      have hi : i ∈ free := (hmem i).mp (by simp)
      constructor
      · intro heq
        rw [hthreads.1] at heq
        exact absurd (heq ▸ hi) he
      · intro hnone
        exact absurd hi (hnone i)

theorem head_mem (h : FreeList next e head free) (hne : head ≠ e) : head ∈ free := by
  obtain ⟨l, hthreads, -, hmem⟩ := h
  cases l with
  | nil => exact absurd hthreads hne
  | cons i l =>
      rw [hthreads.1]
      exact (hmem i).mp (by simp)

/-- The head is taken out of the list; what is written to it does not matter. -/
theorem take (h : FreeList next e head free) (hne : head ≠ e)
    (hsame : ∀ i, i ≠ head → next' i = next i) (hfree : ∀ i, i ∈ free' ↔ i ∈ free ∧ i ≠ head) :
    FreeList next' e (next head) free' := by
  obtain ⟨l, hthreads, hnodup, hmem⟩ := h
  cases l with
  | nil => exact absurd hthreads hne
  | cons i l =>
      obtain ⟨hhead, hrest⟩ := hthreads
      obtain ⟨hi, hl⟩ := List.nodup_cons.mp hnodup
      subst hhead
      refine ⟨l, hrest.congr ?_, hl, ?_⟩
      · intro j hj
        exact hsame j fun heq => hi (heq ▸ hj)
      · intro j
        rw [hfree j, ← hmem j, List.mem_cons]
        constructor
        · intro hj
          exact ⟨.inr hj, fun heq => hi (heq ▸ hj)⟩
        · rintro ⟨heq | hj, hne⟩
          · exact absurd heq hne
          · exact hj

/-- An entry in use is put in front. -/
theorem put [DecidableEq α] {i : α} (h : FreeList next e head free) (hi : i ∉ free)
    (hfree : ∀ j, j ∈ free' ↔ j = i ∨ j ∈ free) :
    FreeList (Function.update next i head) e i free' := by
  obtain ⟨l, hthreads, hnodup, hmem⟩ := h
  have hil : i ∉ l := fun hin => hi ((hmem i).mp hin)
  refine ⟨i :: l, ⟨rfl, ?_⟩, List.nodup_cons.mpr ⟨hil, hnodup⟩, ?_⟩
  · rw [Function.update_self]
    refine hthreads.congr fun j hj => ?_
    rw [Function.update_of_ne (show j ≠ i from fun heq => hil (heq ▸ hj))]
  · intro j
    rw [hfree j, ← hmem j, List.mem_cons]

end FreeList

/-- An array in which every entry holds its successor. -/
theorem freeList_succ {next : ℕ → ℕ} {n : ℕ} {free : Set ℕ} (hnext : ∀ i < n, next i = i + 1)
    (hfree : ∀ i, i ∈ free ↔ i < n) : FreeList next n 0 free := by
  have hthreads : ∀ m k, k + m = n → Threads next n k (List.range' k m) := by
    intro m
    induction m with
    | zero =>
        intro k hk
        exact hk
    | succ m ih =>
        intro k hk
        refine ⟨rfl, ?_⟩
        rw [hnext k (by omega)]
        exact ih (k + 1) (by omega)
  refine ⟨List.range' 0 n, hthreads n 0 (by omega), List.nodup_range', ?_⟩
  intro i
  rw [hfree i, List.mem_range'_1]
  omega

end Borked3DS.Library
