import Mathlib.Algebra.Order.Ring.Nat
import Mathlib.Data.List.Basic
import Mathlib.Tactic.Common

/-!
# Runs of a machine whose steps may fault

A machine is a step function `σ → ι → Except ε σ`: in a state and on an input it either
faults or yields the next state. A run feeds it a list of inputs and ends at the first
fault. The two rules used throughout are `invariant_of_step`, which carries a step
invariant over every reachable state, and `allAlong_iff_eachStep`, which says that a
property holds in every state of a run exactly when each of its steps meets the step's
own condition.
-/

set_option autoImplicit false

namespace Borked3DS.Library

universe u

variable {ε σ ι : Type*} {α β : Type u}

/-- A sequenced computation succeeds exactly when both halves do. -/
theorem bind_eq_ok {x : Except ε α} {f : α → Except ε β} {r : β} :
    (x >>= f) = .ok r ↔ ∃ a, x = .ok a ∧ f a = .ok r := by
  cases x with
  | error e => simp [bind, Except.bind]
  | ok a => simp [bind, Except.bind]

@[simp] theorem pure_eq_ok (a : α) : (pure a : Except ε α) = .ok a := rfl

@[simp] theorem ok_bind (a : α) (f : α → Except ε β) :
    ((Except.ok a : Except ε α) >>= f) = f a := rfl

@[simp] theorem error_bind (e : ε) (f : α → Except ε β) :
    ((Except.error e : Except ε α) >>= f) = .error e := rfl

theorem eq_ok_of_toOption {x : Except ε α} {a : α} (h : x.toOption = some a) : x = .ok a := by
  cases x with
  | error e => cases h
  | ok b => exact congrArg Except.ok (Option.some.inj h)

/-- A sequenced computation faults when its first half does, or when its second half
does on what the first half returned. -/
theorem bind_eq_error {x : Except ε α} {f : α → Except ε β} {e : ε} :
    (x >>= f) = .error e ↔ x = .error e ∨ ∃ a, x = .ok a ∧ f a = .error e := by
  cases x with
  | error e => simp [bind, Except.bind]
  | ok a => simp [bind, Except.bind]

/-- What a loop does to one component of its state, when each of its turns that does not fault
does `f` to it. -/
theorem foldlM_component {τ : Type u} {ι' γ : Type*} {step : τ → ι' → Except ε τ} {g : τ → γ}
    {f : γ → ι' → γ} {xs : List ι'} {s t : τ}
    (h : ∀ s x t, step s x = .ok t → g t = f (g s) x) (hrun : xs.foldlM step s = .ok t) :
    g t = xs.foldl f (g s) := by
  induction xs generalizing s with
  | nil =>
      cases hrun
      rfl
  | cons x xs ih =>
      rw [List.foldlM_cons] at hrun
      obtain ⟨s', hs', hrest⟩ := bind_eq_ok.mp hrun
      rw [List.foldl_cons, ih hrest, h s x s' hs']

/-- The state after the inputs `is`, or the first fault met on the way. -/
def run (step : σ → ι → Except ε σ) : σ → List ι → Except ε σ
  | s, [] => .ok s
  | s, i :: is => step s i >>= fun t => run step t is

/-- Some list of inputs leads from `s` to `t` without a fault. -/
def Reachable (step : σ → ι → Except ε σ) (s t : σ) : Prop :=
  ∃ is, run step s is = .ok t

/-- `p` holds in `s` and in every state the inputs `is` lead through. -/
def AllAlong (step : σ → ι → Except ε σ) (p : σ → Prop) : σ → List ι → Prop
  | s, [] => p s
  | s, i :: is => p s ∧ ∀ t, step s i = .ok t → AllAlong step p t is

/-- Every step the inputs `is` take without a fault meets `c`, a condition on the state
before the step and on its input. -/
def EachStep (step : σ → ι → Except ε σ) (c : σ → ι → Prop) : σ → List ι → Prop
  | _, [] => True
  | s, i :: is => ∀ t, step s i = .ok t → c s i ∧ EachStep step c t is

/-- Every step the inputs `is` take meets `c`, the one that faults included. -/
def EveryStep (step : σ → ι → Except ε σ) (c : σ → ι → Prop) : σ → List ι → Prop
  | _, [] => True
  | s, i :: is => c s i ∧ ∀ t, step s i = .ok t → EveryStep step c t is

/-- The inputs `is` lead from `s` to their end without a fault, and `p` holds in `s` and in every
state on the way. -/
def Completes (step : σ → ι → Except ε σ) (p : σ → Prop) : σ → List ι → Prop
  | s, [] => p s
  | s, i :: is => p s ∧ ∃ t, step s i = .ok t ∧ Completes step p t is

/-- Whether every step of a run meets a condition can be found out by running it. -/
instance EachStep.decidable {step : σ → ι → Except ε σ} {c : σ → ι → Prop}
    [∀ s i, Decidable (c s i)] : ∀ (s : σ) (is : List ι), Decidable (EachStep step c s is)
  | _, [] => isTrue trivial
  | s, i :: is =>
      match h : step s i with
      | .error _ => isTrue fun t ht => by rw [h] at ht; cases ht
      | .ok t =>
          have : Decidable (EachStep step c t is) := EachStep.decidable t is
          decidable_of_iff (c s i ∧ EachStep step c t is)
            ⟨fun hc u hu => by rw [h] at hu; cases hu; exact hc, fun hall => hall t h⟩

section Rules

variable {step : σ → ι → Except ε σ}

theorem run_append (s : σ) (is js : List ι) :
    run step s (is ++ js) = run step s is >>= fun t => run step t js := by
  induction is generalizing s with
  | nil => rfl
  | cons i is ih =>
      simp only [List.cons_append, run]
      cases step s i with
      | error e => rfl
      | ok t => exact ih t

theorem Reachable.refl (s : σ) : Reachable step s s := ⟨[], rfl⟩

/-- What a step preserves, a run preserves. -/
theorem run_invariant {p : σ → Prop} (hstep : ∀ s i t, p s → step s i = .ok t → p t)
    {s t : σ} {is : List ι} (hs : p s) (h : run step s is = .ok t) : p t := by
  induction is generalizing s with
  | nil => cases h; exact hs
  | cons i is ih =>
      obtain ⟨u, hu, hrest⟩ := bind_eq_ok.mp h
      exact ih (hstep s i u hs hu) hrest

/-- An invariant that holds initially and is preserved by every step holds in every
reachable state. -/
theorem invariant_of_step {p : σ → Prop} {s₀ s : σ}
    (hstep : ∀ s i t, p s → step s i = .ok t → p t) (h₀ : p s₀)
    (h : Reachable step s₀ s) : p s := by
  obtain ⟨is, his⟩ := h
  exact run_invariant hstep h₀ his

/-- What holds all along a run holds where it ends. -/
theorem AllAlong.last {p : σ → Prop} {s t : σ} {is : List ι} (hall : AllAlong step p s is)
    (h : run step s is = .ok t) : p t := by
  induction is generalizing s with
  | nil =>
      cases h
      exact hall
  | cons i is ih =>
      obtain ⟨u, hu, hrest⟩ := bind_eq_ok.mp h
      exact ih (hall.2 u hu) hrest

/-- An invariant that the steps that meet `c` preserve holds all along a run of such steps. -/
theorem allAlong_of_eachStep {p q : σ → Prop} {c : σ → ι → Prop} (hqp : ∀ s, q s → p s)
    (hstep : ∀ s i t, q s → c s i → step s i = .ok t → q t) {s : σ} {is : List ι} (hqs : q s)
    (hc : EachStep step c s is) : AllAlong step p s is := by
  induction is generalizing s with
  | nil => exact hqp s hqs
  | cons i is ih =>
      refine ⟨hqp s hqs, fun t ht => ?_⟩
      obtain ⟨hci, hrest⟩ := hc t ht
      exact ih (hstep s i t hqs hci ht) hrest

/-- What every step that meets `c` does in the states of an invariant that it keeps, the steps of a
run of such steps do. -/
theorem EachStep.of_invariant {q : σ → Prop} {c d : σ → ι → Prop}
    (hstep : ∀ s i t, q s → c s i → step s i = .ok t → q t ∧ d s i) {s : σ} {is : List ι}
    (hqs : q s) (hc : EachStep step c s is) : EachStep step d s is := by
  induction is generalizing s with
  | nil => trivial
  | cons i is ih =>
      intro t ht
      obtain ⟨hci, hrest⟩ := hc t ht
      obtain ⟨hqt, hd⟩ := hstep s i t hqs hci ht
      exact ⟨hd, ih hqt hrest⟩

/-- A property that a step preserves exactly when it meets `c` holds all along a run
exactly when every step of the run meets `c`. The invariant `q` is what the equivalence
of one step may rely on. -/
theorem allAlong_iff_eachStep {p q : σ → Prop} {c : σ → ι → Prop}
    (hq : ∀ s i t, q s → p s → step s i = .ok t → p t → q t)
    (hstep : ∀ s i t, q s → p s → step s i = .ok t → (p t ↔ c s i))
    {s : σ} (hqs : q s) (hps : p s) (is : List ι) :
    AllAlong step p s is ↔ EachStep step c s is := by
  induction is generalizing s with
  | nil => simp [AllAlong, EachStep, hps]
  | cons i is ih =>
      simp only [AllAlong, EachStep, hps, true_and]
      constructor
      · intro h t ht
        have hall := h t ht
        have hpt : p t := by
          cases is with
          | nil => exact hall
          | cons _ _ => exact hall.1
        exact ⟨(hstep s i t hqs hps ht).mp hpt, (ih (hq s i t hqs hps ht hpt) hpt).mp hall⟩
      · intro h t ht
        obtain ⟨hc, hrest⟩ := h t ht
        have hpt : p t := (hstep s i t hqs hps ht).mpr hc
        exact (ih (hq s i t hqs hps ht hpt) hpt).mpr hrest

/-- A property of the states and one of the steps hold all along a run exactly when every step of
the run meets `c`. -/
theorem allAlong_and_eachStep_iff {p : σ → Prop} {c d : σ → ι → Prop}
    (hstep : ∀ s i t, p s → step s i = .ok t → (p t ∧ d s i ↔ c s i))
    {s : σ} (hps : p s) (is : List ι) :
    AllAlong step p s is ∧ EachStep step d s is ↔ EachStep step c s is := by
  induction is generalizing s with
  | nil => simp [AllAlong, EachStep, hps]
  | cons i is ih =>
      simp only [AllAlong, EachStep, hps, true_and]
      constructor
      · rintro ⟨hall, hd⟩ t ht
        have hpt : p t := by
          cases is with
          | nil => exact hall t ht
          | cons _ _ => exact (hall t ht).1
        obtain ⟨hdt, hrest⟩ := hd t ht
        exact ⟨(hstep s i t hps ht).mp ⟨hpt, hdt⟩, (ih hpt).mp ⟨hall t ht, hrest⟩⟩
      · intro h
        refine ⟨fun t ht => ?_, fun t ht => ?_⟩
        · obtain ⟨hc, hrest⟩ := h t ht
          exact ((ih ((hstep s i t hps ht).mpr hc).1).mpr hrest).1
        · obtain ⟨hc, hrest⟩ := h t ht
          obtain ⟨hpt, hdt⟩ := (hstep s i t hps ht).mpr hc
          exact ⟨hdt, ((ih hpt).mpr hrest).2⟩

/-- Where the steps out of the states of `p` do not fault, a run gets to its end inside `p`, with
another property of its steps, exactly when every step of it meets `c`. -/
theorem completes_and_eachStep_iff {p : σ → Prop} {c d : σ → ι → Prop}
    (hok : ∀ s i, p s → ∃ t, step s i = .ok t)
    (hstep : ∀ s i t, p s → step s i = .ok t → (p t ∧ d s i ↔ c s i))
    {s : σ} (hps : p s) (is : List ι) :
    Completes step p s is ∧ EachStep step d s is ↔ EachStep step c s is := by
  induction is generalizing s with
  | nil => simp [Completes, EachStep, hps]
  | cons i is ih =>
      constructor
      · rintro ⟨⟨-, t', ht', hrest⟩, hd⟩ t ht
        obtain rfl : t = t' := Except.ok.inj (ht.symm.trans ht')
        have hpt : p t := by
          cases is with
          | nil => exact hrest
          | cons _ _ => exact hrest.1
        obtain ⟨hdt, hdrest⟩ := hd t ht
        exact ⟨(hstep s i t hps ht).mp ⟨hpt, hdt⟩, (ih hpt).mp ⟨hrest, hdrest⟩⟩
      · intro h
        obtain ⟨t, ht⟩ := hok s i hps
        obtain ⟨hc, hrest⟩ := h t ht
        obtain ⟨hpt, hdt⟩ := (hstep s i t hps ht).mpr hc
        obtain ⟨hcompletes, hdrest⟩ := (ih hpt).mpr hrest
        refine ⟨⟨hps, t, ht, hcompletes⟩, fun t' ht' => ?_⟩
        obtain rfl : t = t' := Except.ok.inj (ht.symm.trans ht')
        exact ⟨hdt, hdrest⟩

/-- Where the steps that meet `c` keep an invariant and are right, and no others are, a run from a
state of it gets to its end inside `p`, with a property of its steps, exactly when every step of it
meets `c`. -/
theorem completes_and_eachStep_iff_everyStep {p q : σ → Prop} {c d : σ → ι → Prop}
    (hqp : ∀ s, q s → p s)
    (hstep : ∀ s i, q s → c s i → ∃ t, step s i = .ok t ∧ q t ∧ d s i)
    (hneed : ∀ s i t, q s → step s i = .ok t → p t → d s i → c s i)
    {s : σ} (hqs : q s) (is : List ι) :
    Completes step p s is ∧ EachStep step d s is ↔ EveryStep step c s is := by
  induction is generalizing s with
  | nil => exact iff_of_true ⟨hqp s hqs, trivial⟩ trivial
  | cons i is ih =>
      constructor
      · rintro ⟨⟨-, t, ht, hrest⟩, hd⟩
        have hpt : p t := by
          cases is with
          | nil => exact hrest
          | cons _ _ => exact hrest.1
        obtain ⟨hdt, hdrest⟩ := hd t ht
        have hc := hneed s i t hqs ht hpt hdt
        obtain ⟨u, hu, hqu, -⟩ := hstep s i hqs hc
        obtain rfl : u = t := Except.ok.inj (hu.symm.trans ht)
        refine ⟨hc, fun t' ht' => ?_⟩
        obtain rfl : u = t' := Except.ok.inj (hu.symm.trans ht')
        exact (ih hqu).mp ⟨hrest, hdrest⟩
      · rintro ⟨hc, hrest⟩
        obtain ⟨t, ht, hqt, hd⟩ := hstep s i hqs hc
        obtain ⟨hcompletes, hdrest⟩ := (ih hqt).mpr (hrest t ht)
        refine ⟨⟨hqp s hqs, t, ht, hcompletes⟩, fun t' ht' => ?_⟩
        obtain rfl : t = t' := Except.ok.inj (ht.symm.trans ht')
        exact ⟨hd, hdrest⟩

/-- Conditions that agree on the steps out of the states of an invariant agree on a run. -/
theorem eachStep_congr {q : σ → Prop} {c d : σ → ι → Prop}
    (hq : ∀ s i t, q s → step s i = .ok t → q t)
    (hstep : ∀ s i t, q s → step s i = .ok t → (c s i ↔ d s i)) {s : σ} (hqs : q s)
    (is : List ι) : EachStep step c s is ↔ EachStep step d s is := by
  induction is generalizing s with
  | nil => exact Iff.rfl
  | cons i is ih =>
      apply forall_congr'
      intro t
      apply imp_congr_right
      intro ht
      exact and_congr (hstep s i t hqs ht) (ih (hq s i t hqs ht))

/-- The same, with the step that faults. -/
theorem everyStep_congr {q : σ → Prop} {c d : σ → ι → Prop}
    (hq : ∀ s i t, q s → step s i = .ok t → q t) (hstep : ∀ s i, q s → (c s i ↔ d s i)) {s : σ}
    (hqs : q s) (is : List ι) : EveryStep step c s is ↔ EveryStep step d s is := by
  induction is generalizing s with
  | nil => exact Iff.rfl
  | cons i is ih =>
      apply and_congr (hstep s i hqs)
      apply forall_congr'
      intro t
      apply imp_congr_right
      intro ht
      exact ih (hq s i t hqs ht)

/-- A run that gets to its end does not fault. -/
theorem Completes.exists_run {p : σ → Prop} {s : σ} {is : List ι} (h : Completes step p s is) :
    ∃ t, run step s is = .ok t := by
  induction is generalizing s with
  | nil => exact ⟨s, rfl⟩
  | cons i is ih =>
      obtain ⟨-, t, ht, hrest⟩ := h
      obtain ⟨u, hu⟩ := ih hrest
      exact ⟨u, bind_eq_ok.mpr ⟨t, ht, hu⟩⟩

/-- Where the steps out of the states of an invariant do not fault and keep it, every run from such
a state gets to its end. -/
theorem Completes.of_invariant {p q : σ → Prop} (hqp : ∀ s, q s → p s)
    (hstep : ∀ s i, q s → ∃ t, step s i = .ok t ∧ q t) {s : σ} (hqs : q s) (is : List ι) :
    Completes step p s is := by
  induction is generalizing s with
  | nil => exact hqp s hqs
  | cons i is ih =>
      obtain ⟨t, ht, hqt⟩ := hstep s i hqs
      exact ⟨hqp s hqs, t, ht, ih hqt⟩

/-- A run gets to its end inside `p` exactly when every step of it meets `c`, where the steps that
meet `c` keep a stronger invariant `q`, and those that do not leave `p`. -/
theorem completes_iff_everyStep {p q : σ → Prop} {c : σ → ι → Prop} (hqp : ∀ s, q s → p s)
    (hkeeps : ∀ s i, q s → c s i → ∃ t, step s i = .ok t ∧ q t)
    (hleaves : ∀ s i t, q s → ¬ c s i → step s i = .ok t → ¬ p t) {s : σ} (hqs : q s)
    (is : List ι) : Completes step p s is ↔ EveryStep step c s is := by
  induction is generalizing s with
  | nil => exact iff_of_true (hqp s hqs) trivial
  | cons i is ih =>
      constructor
      · rintro ⟨-, t, ht, hrest⟩
        have hpt : p t := by
          cases is with
          | nil => exact hrest
          | cons _ _ => exact hrest.1
        have hc : c s i := by
          by_contra hnot
          exact hleaves s i t hqs hnot ht hpt
        obtain ⟨t', ht', hqt⟩ := hkeeps s i hqs hc
        rw [ht] at ht'
        cases ht'
        refine ⟨hc, fun u hu => ?_⟩
        rw [ht] at hu
        cases hu
        exact (ih hqt).mp hrest
      · rintro ⟨hc, hrest⟩
        obtain ⟨t, ht, hqt⟩ := hkeeps s i hqs hc
        exact ⟨hqp s hqs, t, ht, (ih hqt).mpr (hrest t ht)⟩

end Rules

end Borked3DS.Library
