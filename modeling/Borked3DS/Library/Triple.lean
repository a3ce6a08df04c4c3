import Borked3DS.Library.Run

/-!
# Triples for programs over a state that may fault

`Triple p m q`: when `m` starts in a state with `p` and does not fault, what it returns and the
state it leaves meet `q`. `Keeps p m` is the case of an invariant; it goes through a program by
its shape, one rule for each way of composing programs. So does `NeverFaults q m`: no run of `m` ends
in a fault with `q`.
-/

set_option autoImplicit false

namespace Borked3DS.Library

universe u

variable {σ ε : Type u} {α β : Type u}

/-- A sequenced program succeeds exactly when both halves do. -/
theorem stateT_bind_eq_ok {m : StateT σ (Except ε) α} {f : α → StateT σ (Except ε) β}
    {s t : σ} {b : β} :
    (m >>= f) s = .ok (b, t) ↔ ∃ a u, m s = .ok (a, u) ∧ f a u = .ok (b, t) := by
  constructor
  · intro h
    obtain ⟨⟨a, u⟩, hm, hf⟩ := bind_eq_ok.mp h
    exact ⟨a, u, hm, hf⟩
  · rintro ⟨a, u, hm, hf⟩
    exact bind_eq_ok.mpr ⟨(a, u), hm, hf⟩

/-- A run goes on behind a part that has run. -/
theorem exists_bind_run {m : StateT σ (Except ε) α} {f : α → StateT σ (Except ε) β} {s t : σ}
    {a : α} {b : β} {p : σ → Prop} (hm : m s = .ok (a, t))
    (hf : ∃ u, f a t = .ok (b, u) ∧ p u) : ∃ u, (m >>= f) s = .ok (b, u) ∧ p u := by
  obtain ⟨u, hrun, hp⟩ := hf
  exact ⟨u, stateT_bind_eq_ok.mpr ⟨a, t, hm, hrun⟩, hp⟩

/-- A sequenced program goes on where its first half ends. -/
theorem stateT_bind_of_ok {m : StateT σ (Except ε) α} {f : α → StateT σ (Except ε) β}
    {s t : σ} {a : α} (h : m s = .ok (a, t)) : (m >>= f) s = f a t := by
  show (m s >>= fun r => f r.1 r.2) = f a t
  rw [h]
  rfl

@[simp] theorem stateT_pure_eq_ok {s t : σ} {a b : α} :
    (pure a : StateT σ (Except ε) α) s = .ok (b, t) ↔ a = b ∧ s = t := by
  constructor
  · intro h
    cases h
    exact ⟨rfl, rfl⟩
  · rintro ⟨rfl, rfl⟩
    rfl

@[simp] theorem stateT_get_eq_ok {s t a : σ} :
    (get : StateT σ (Except ε) σ) s = .ok (a, t) ↔ s = a ∧ s = t := by
  constructor
  · intro h
    cases h
    exact ⟨rfl, rfl⟩
  · rintro ⟨rfl, rfl⟩
    rfl

@[simp] theorem stateT_set_eq_ok {s t v : σ} {u : PUnit} :
    (set v : StateT σ (Except ε) PUnit) s = .ok (u, t) ↔ v = t := by
  constructor
  · intro h
    cases h
    rfl
  · rintro rfl
    rfl

@[simp] theorem stateT_modify_eq_ok {s t : σ} {f : σ → σ} {u : PUnit} :
    (modify f : StateT σ (Except ε) PUnit) s = .ok (u, t) ↔ f s = t := by
  constructor
  · intro h
    cases h
    rfl
  · rintro rfl
    rfl

@[simp] theorem stateT_throw_eq_ok {s t : σ} {e : ε} {a : α} :
    (throw e : StateT σ (Except ε) α) s = .ok (a, t) ↔ False := by
  constructor
  · intro h
    cases h
  · exact False.elim

/-- A computation without state leaves the state as it is. -/
@[simp] theorem stateT_lift_eq_ok {x : Except ε α} {s t : σ} {a : α} :
    (StateT.lift x : StateT σ (Except ε) α) s = .ok (a, t) ↔ x = .ok a ∧ s = t := by
  constructor
  · intro h
    obtain ⟨b, hx, hb⟩ := bind_eq_ok.mp h
    cases hb
    exact ⟨hx, rfl⟩
  · rintro ⟨rfl, rfl⟩
    rfl

/-- Partial correctness of a program. -/
def Triple (p : σ → Prop) (m : StateT σ (Except ε) α) (q : α → σ → Prop) : Prop :=
  ∀ s a t, p s → m s = .ok (a, t) → q a t

/-- A program that keeps an invariant. -/
def Keeps (p : σ → Prop) (m : StateT σ (Except ε) α) : Prop := Triple p m fun _ => p

section Rules

variable {p : σ → Prop} {q : α → σ → Prop}

theorem Triple.bind {m : StateT σ (Except ε) α} {f : α → StateT σ (Except ε) β}
    {r : β → σ → Prop} (hm : Triple p m q) (hf : ∀ a, Triple (q a) (f a) r) :
    Triple p (m >>= f) r := by
  intro s b t hp h
  obtain ⟨a, u, hma, hfa⟩ := stateT_bind_eq_ok.mp h
  exact hf a u b t (hm s a u hp hma) hfa

theorem Triple.pure {a : α} (h : ∀ s, p s → q a s) :
    Triple p (Pure.pure a : StateT σ (Except ε) α) q := by
  intro s b t hp hrun
  cases hrun
  exact h s hp

theorem Triple.get {q : σ → σ → Prop} (h : ∀ s, p s → q s s) :
    Triple p (MonadState.get : StateT σ (Except ε) σ) q := by
  intro s b t hp hrun
  cases hrun
  exact h s hp

theorem Triple.modify {f : σ → σ} {q : PUnit → σ → Prop} (h : ∀ s, p s → q ⟨⟩ (f s)) :
    Triple p (modify f : StateT σ (Except ε) PUnit) q := by
  intro s b t hp hrun
  cases hrun
  exact h s hp

theorem Triple.throw {e : ε} : Triple p (MonadExcept.throw e : StateT σ (Except ε) α) q := by
  intro s a t _ hrun
  cases hrun

theorem Triple.lift {x : Except ε α} (h : ∀ s a, p s → x = .ok a → q a s) :
    Triple p (StateT.lift x : StateT σ (Except ε) α) q := by
  intro s a t hp hrun
  obtain ⟨b, hx, hb⟩ := bind_eq_ok.mp hrun
  cases hb
  exact h s a hp hx

theorem Triple.weaken {m : StateT σ (Except ε) α} {p' : σ → Prop} {q' : α → σ → Prop}
    (h : Triple p' m q') (hp : ∀ s, p s → p' s) (hq : ∀ a s, q' a s → q a s) :
    Triple p m q := fun s a t hs hrun => hq a t (h s a t (hp s hs) hrun)

theorem Keeps.bind {m : StateT σ (Except ε) α} {f : α → StateT σ (Except ε) β}
    (hm : Keeps p m) (hf : ∀ a, Keeps p (f a)) : Keeps p (m >>= f) :=
  Triple.bind hm hf

theorem Keeps.pure (a : α) : Keeps p (Pure.pure a : StateT σ (Except ε) α) :=
  Triple.pure fun _ hp => hp

theorem Keeps.get : Keeps p (MonadState.get : StateT σ (Except ε) σ) :=
  Triple.get fun _ hp => hp

theorem Keeps.lift (x : Except ε α) : Keeps p (StateT.lift x : StateT σ (Except ε) α) :=
  Triple.lift fun _ _ hp _ => hp

theorem Keeps.throw (e : ε) : Keeps p (MonadExcept.throw e : StateT σ (Except ε) α) :=
  Triple.throw

/-- A loop keeps what its body keeps. -/
theorem Keeps.forM {ι : Type u} {f : ι → StateT σ (Except ε) PUnit} (xs : List ι)
    (h : ∀ x, Keeps p (f x)) : Keeps p (xs.forM f) := by
  induction xs with
  | nil => exact Keeps.pure _
  | cons x xs ih => exact Keeps.bind (h x) fun _ => ih

/-- A loop with a result keeps what its body keeps of the state and the result so far. -/
theorem Triple.foldlM {ι : Type u} {f : α → ι → StateT σ (Except ε) α} (xs : List ι) {a : α}
    (h : ∀ a x, Triple (q a) (f a x) q) : Triple (q a) (xs.foldlM f a) q := by
  induction xs generalizing a with
  | nil => exact Triple.pure fun _ hq => hq
  | cons x xs ih =>
      rw [List.foldlM_cons]
      exact Triple.bind (h a x) fun b => ih

theorem Keeps.foldlM {ι : Type u} {f : α → ι → StateT σ (Except ε) α} (xs : List ι) (a : α)
    (h : ∀ a x, Keeps p (f a x)) : Keeps p (xs.foldlM f a) :=
  Triple.foldlM xs h

theorem Keeps.anyM {σ ε : Type} {p : σ → Prop} {ι : Type} {f : ι → StateT σ (Except ε) Bool}
    (xs : List ι) (h : ∀ x, Keeps p (f x)) : Keeps p (xs.anyM f) := by
  induction xs with
  | nil => exact Keeps.pure _
  | cons x xs ih =>
      refine Keeps.bind (h x) fun b => ?_
      cases b with
      | true => exact Keeps.pure _
      | false => exact ih

end Rules

/-! ## Faults -/

/-- A sequenced program faults when one of its halves does. -/
theorem stateT_bind_eq_error {m : StateT σ (Except ε) α} {f : α → StateT σ (Except ε) β}
    {s : σ} {e : ε} :
    (m >>= f) s = .error e ↔ m s = .error e ∨ ∃ a u, m s = .ok (a, u) ∧ f a u = .error e := by
  show (m s >>= fun r => f r.1 r.2) = .error e ↔ _
  rw [bind_eq_error]
  constructor
  · rintro (hm | ⟨⟨a, u⟩, hm, hf⟩)
    · exact Or.inl hm
    · exact Or.inr ⟨a, u, hm, hf⟩
  · rintro (hm | ⟨a, u, hm, hf⟩)
    · exact Or.inl hm
    · exact Or.inr ⟨(a, u), hm, hf⟩

/-- From no state does a program end in one of these faults. -/
def NeverFaults (q : ε → Prop) (m : StateT σ (Except ε) α) : Prop := ∀ s e, q e → m s ≠ .error e

section NeverFaults

variable {q : ε → Prop}

theorem NeverFaults.bind {m : StateT σ (Except ε) α} {f : α → StateT σ (Except ε) β}
    (hm : NeverFaults q m) (hf : ∀ a, NeverFaults q (f a)) : NeverFaults q (m >>= f) := by
  intro s e he h
  rcases stateT_bind_eq_error.mp h with hfirst | ⟨a, u, -, hsecond⟩
  · exact hm s e he hfirst
  · exact hf a u e he hsecond

theorem NeverFaults.pure (a : α) : NeverFaults q (Pure.pure a : StateT σ (Except ε) α) := by
  intro s e _ h
  cases h

theorem NeverFaults.get : NeverFaults q (MonadState.get : StateT σ (Except ε) σ) := by
  intro s e _ h
  cases h

theorem NeverFaults.modify (f : σ → σ) :
    NeverFaults q (modify f : StateT σ (Except ε) PUnit) := by
  intro s e _ h
  cases h

theorem NeverFaults.throw {d : ε} (h : ¬ q d) :
    NeverFaults q (MonadExcept.throw d : StateT σ (Except ε) α) := by
  intro s e he hthrow
  cases hthrow
  exact h he

theorem NeverFaults.lift {x : Except ε α} (h : ∀ e, q e → x ≠ .error e) :
    NeverFaults q (StateT.lift x : StateT σ (Except ε) α) := by
  intro s e he hlift
  rcases bind_eq_error.mp hlift with hx | ⟨a, -, hpure⟩
  · exact h e he hx
  · cases hpure

theorem NeverFaults.forM {ι : Type u} {f : ι → StateT σ (Except ε) PUnit} (xs : List ι)
    (h : ∀ x, NeverFaults q (f x)) : NeverFaults q (xs.forM f) := by
  induction xs with
  | nil => exact NeverFaults.pure _
  | cons x xs ih => exact NeverFaults.bind (h x) fun _ => ih

theorem NeverFaults.foldlM {ι : Type u} {f : α → ι → StateT σ (Except ε) α} (xs : List ι) (a : α)
    (h : ∀ a x, NeverFaults q (f a x)) : NeverFaults q (xs.foldlM f a) := by
  induction xs generalizing a with
  | nil => exact NeverFaults.pure _
  | cons x xs ih =>
    rw [List.foldlM_cons]
    exact NeverFaults.bind (h a x) fun b => ih b

theorem NeverFaults.anyM {σ ε : Type} {q : ε → Prop} {ι : Type}
    {f : ι → StateT σ (Except ε) Bool} (xs : List ι) (h : ∀ x, NeverFaults q (f x)) :
    NeverFaults q (xs.anyM f) := by
  induction xs with
  | nil => exact NeverFaults.pure _
  | cons x xs ih =>
    refine NeverFaults.bind (h x) fun b => ?_
    cases b with
    | true => exact NeverFaults.pure _
    | false => exact ih

end NeverFaults

end Borked3DS.Library
