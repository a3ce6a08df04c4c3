import Borked3DS.Library.CheckedList

/-!
# Computations without one fault

When a computation does not end in a fault of one kind, whatever else it does: the rules follow how
the computation is put together.
-/

set_option autoImplicit false

namespace Borked3DS.Library

universe u

variable {ε α β : Type u} {e : ε}

theorem ok_ne_error (a : α) : (Except.ok a : Except ε α) ≠ .error e := by
  intro h
  cases h

/-- Neither half ends in the fault, the second one on what the first one returns. -/
theorem bind_ne_error_iff {x : Except ε α} {f : α → Except ε β} :
    (x >>= f) ≠ .error e ↔ x ≠ .error e ∧ ∀ a, x = .ok a → f a ≠ .error e := by
  cases x with
  | error d => simp
  | ok a => simp

/-- What is only computed from the result does not matter. -/
theorem bind_pure_ne_error_iff {x : Except ε α} {g : α → β} :
    (x >>= fun a => pure (g a)) ≠ .error e ↔ x ≠ .error e := by
  rw [bind_ne_error_iff]
  exact and_iff_left fun a _ => ok_ne_error (g a)

/-- When the first half returns something, what the second one needs may be said without it. -/
theorem bind_ne_error_iff_and {x : Except ε α} {f : α → Except ε β} {p q : Prop}
    (hx : x ≠ .error e ↔ p) (htotal : p → ∃ a, x = .ok a)
    (hf : p → ∀ a, x = .ok a → (f a ≠ .error e ↔ q)) : (x >>= f) ≠ .error e ↔ p ∧ q := by
  rw [bind_ne_error_iff, hx]
  apply and_congr_right
  intro hp
  constructor
  · intro h
    obtain ⟨a, ha⟩ := htotal hp
    exact (hf hp a ha).mp (h a ha)
  · intro hq a ha
    exact (hf hp a ha).mpr hq

theorem ite_ne_error_iff {c : Prop} [Decidable c] {x y : Except ε α} :
    (if c then x else y) ≠ .error e ↔ (c → x ≠ .error e) ∧ (¬ c → y ≠ .error e) := by
  by_cases hc : c
  · simp [hc]
  · simp [hc]

/-- A run does not end in the fault exactly when none of its steps does. -/
theorem run_ne_error_iff {σ : Type u} {ι : Type*} {step : σ → ι → Except ε σ} {s : σ} {is : List ι} :
    run step s is ≠ .error e ↔ EveryStep step (fun s i => step s i ≠ .error e) s is := by
  induction is generalizing s with
  | nil => exact iff_of_true (ok_ne_error s) trivial
  | cons i is ih =>
      unfold run EveryStep
      rw [bind_ne_error_iff]
      simp only [ih]

theorem readRun_ne_error_iff {xs : List α} {i n : ℕ} :
    readRun e xs i n ≠ .error e ↔ i + n ≤ xs.length := by
  unfold readRun
  rw [ite_ne_error_iff]
  constructor
  · rintro ⟨-, h⟩
    by_contra hlength
    exact h hlength rfl
  · intro h
    exact ⟨fun _ => ok_ne_error _, fun hlength => absurd h hlength⟩

theorem readRun_eq_ok {xs ys : List α} {i n : ℕ} :
    readRun e xs i n = .ok ys ↔ i + n ≤ xs.length ∧ (xs.drop i).take n = ys := by
  unfold readRun
  by_cases h : i + n ≤ xs.length
  · simp [h]
  · simp [h]

/-- A run that is there is read. -/
theorem exists_readRun_eq_ok {xs : List α} {i n : ℕ} {g : List α → β} (h : i + n ≤ xs.length) :
    ∃ b, (readRun e xs i n >>= fun ys => pure (g ys)) = .ok b := by
  rw [readRun, if_pos h, ok_bind]
  exact ⟨_, rfl⟩

theorem writeRun_ne_error_iff {xs ys : List α} {i : ℕ} :
    writeRun e xs i ys ≠ .error e ↔ i + ys.length ≤ xs.length := by
  unfold writeRun
  rw [ite_ne_error_iff]
  constructor
  · rintro ⟨-, h⟩
    by_contra hlength
    exact h hlength rfl
  · intro h
    exact ⟨fun _ => ok_ne_error _, fun hlength => absurd h hlength⟩

end Borked3DS.Library
