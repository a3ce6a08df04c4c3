import Mathlib.Logic.Relation
import Mathlib.Order.WellFounded
import Borked3DS.Library.Run

/-!
# Loops that end by themselves

A loop takes turn after turn. A turn may fault, and it may find that the loop is over. Whether the
loop ends is a question about the states it visits; a measure that every turn between them decreases
answers it, and a state that it comes back to does so as well.
-/

set_option autoImplicit false

namespace Borked3DS.Library

universe u

variable {σ ε : Type u} (turn : σ → Except ε (Option σ))

/-- The loop with so many turns at most: the state in which it is over, if it gets there. -/
def whileLoop : ℕ → σ → Except ε (Option σ)
  | 0, _ => .ok none
  | fuel + 1, s => do
      match ← turn s with
      | none => pure (some s)
      | some t => whileLoop fuel t

/-- The loop ends, and not by a fault. -/
def Finishes (s : σ) : Prop := ∃ fuel final, whileLoop turn fuel s = .ok (some final)

/-- The loop comes from a state to another one. -/
def Visits : σ → σ → Prop := Relation.ReflTransGen fun s t => turn s = .ok (some t)

/-- How many of the next turns begin in a state of a kind. -/
def countTurns (p : σ → Bool) : ℕ → σ → ℕ
  | 0, _ => 0
  | fuel + 1, s =>
      (if p s then 1 else 0) +
        match turn s with
        | .ok (some t) => countTurns p fuel t
        | _ => 0

/-- The states that the next turns begin in. -/
def statesOf : ℕ → σ → List σ
  | 0, s => [s]
  | fuel + 1, s =>
      s :: match turn s with
        | .ok (some t) => statesOf fuel t
        | _ => []

section Rules

variable {turn} {s t : σ}

theorem Visits.step {r : σ} (hturn : turn s = .ok (some t)) (h : Visits turn t r) :
    Visits turn s r :=
  Relation.ReflTransGen.head hturn h

/-- A loop that ends visits no other states than those of its turns. -/
theorem Visits.mem_statesOf {fuel : ℕ} {final : σ}
    (hover : whileLoop turn fuel s = .ok (some final)) (h : Visits turn s t) :
    t ∈ statesOf turn fuel s := by
  induction fuel generalizing s with
  | zero => cases hover
  | succ fuel ih =>
    unfold statesOf
    rcases Relation.ReflTransGen.cases_head h with rfl | ⟨r, hturn, hrest⟩
    · exact List.mem_cons_self
    · unfold whileLoop at hover
      rw [hturn] at hover ⊢
      exact List.mem_cons_of_mem _ (ih hover hrest)

/-- A loop ends when no turn of it faults and each decreases a measure. -/
theorem finishes_of_measure {α : Type*} [Preorder α] [WellFoundedLT α] (μ : σ → α)
    (p : σ → Prop)
    (hturn : ∀ s, p s → turn s = .ok none ∨ ∃ t, turn s = .ok (some t) ∧ p t ∧ μ t < μ s)
    (hs : p s) : Finishes turn s := by
  induction hμ : μ s using WellFoundedLT.induction generalizing s with
  | ind a ih =>
    rcases hturn s hs with hover | ⟨t, hnext, ht, hlt⟩
    · refine ⟨1, s, ?_⟩
      unfold whileLoop
      rw [hover]
      rfl
    · obtain ⟨fuel, final, hrest⟩ := ih (μ t) (hμ ▸ hlt) ht rfl
      refine ⟨fuel + 1, final, ?_⟩
      unfold whileLoop
      rw [hnext]
      exact hrest

/-- A loop does not end that always finds another state of a kind to go to. -/
theorem not_finishes_of_goes_on (p : σ → Prop)
    (hturn : ∀ s, p s → ∃ t, turn s = .ok (some t) ∧ p t) (hs : p s) : ¬ Finishes turn s := by
  rintro ⟨fuel, final, hover⟩
  induction fuel generalizing s with
  | zero => cases hover
  | succ fuel ih =>
    obtain ⟨t, hnext, ht⟩ := hturn s hs
    unfold whileLoop at hover
    rw [hnext] at hover
    exact ih ht hover

/-- The loop never ends in a fault exactly when no turn does from a state that it visits. -/
theorem whileLoop_ne_error_iff {e : ε} :
    (∀ fuel, whileLoop turn fuel s ≠ .error e) ↔ ∀ t, Visits turn s t → turn t ≠ .error e := by
  constructor
  · intro hnever t ht
    induction ht using Relation.ReflTransGen.head_induction_on with
    | refl =>
      intro hfault
      refine hnever 1 ?_
      unfold whileLoop
      rw [hfault]
      rfl
    | head hturn _ ih =>
      refine ih fun fuel hfault => hnever (fuel + 1) ?_
      unfold whileLoop
      rw [hturn]
      exact hfault
  · intro hnone fuel
    induction fuel generalizing s with
    | zero =>
      intro hfault
      cases hfault
    | succ fuel ih =>
      intro hfault
      unfold whileLoop at hfault
      cases hturn : turn s with
      | error d =>
        rw [hturn] at hfault
        cases hfault
        exact hnone s .refl hturn
      | ok next =>
        rw [hturn] at hfault
        cases next with
        | none => cases hfault
        | some t => exact ih (fun r hr => hnone r (hr.step hturn)) hfault

/-- When each turn that is counted spends some of a budget that none gives back, there are not more
of them than the budget allows. -/
theorem countTurns_le {p : σ → Bool} {budget : σ → ℕ} (q : σ → Prop)
    (hnext : ∀ s t, q s → turn s = .ok (some t) →
      q t ∧ (if p s then 1 else 0) + budget t ≤ budget s)
    (hlast : ∀ s, q s → (∀ t, turn s ≠ .ok (some t)) → (if p s then 1 else 0) ≤ budget s)
    (hs : q s) (fuel : ℕ) : countTurns turn p fuel s ≤ budget s := by
  induction fuel generalizing s with
  | zero => exact Nat.zero_le _
  | succ fuel ih =>
    unfold countTurns
    match hturn : turn s with
    | .ok (some t) =>
      obtain ⟨ht, hspent⟩ := hnext s t hs hturn
      exact (Nat.add_le_add_left (ih ht) _).trans hspent
    | .ok none => exact hlast s hs fun t ht => by simp [hturn] at ht
    | .error e => exact hlast s hs fun t ht => by simp [hturn] at ht

end Rules

end Borked3DS.Library
