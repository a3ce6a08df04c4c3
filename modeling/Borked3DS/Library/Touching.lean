import Mathlib.Algebra.Order.Ring.Nat
import Mathlib.Data.List.Basic

/-!
# Computations that note the cells they touch

A computation over a state that may stop early, with the list of the cells it has touched until
then: what it touches is there also when it stops. `TouchesOnly` says that every cell touched meets
a condition, and its rules follow how the computation is put together. `walk` is a loop over the
indices below a bound whose body says how far it has come; what it touches is what its rounds touch,
and a round is any that the loop reaches.
-/

set_option autoImplicit false

namespace Borked3DS.Library

/-- What a computation touches, and its result and state unless it stops. -/
def Touching (κ σ ε α : Type) : Type := σ → List κ × Except ε (α × σ)

namespace Touching

variable {κ σ ε α β : Type}

/-- Go on with what the first half leaves, unless it stopped. -/
def andThen (x : Touching κ σ ε α) (f : α → Touching κ σ ε β) : Touching κ σ ε β := fun s =>
  match x s with
  | (touched, .error e) => (touched, .error e)
  | (touched, .ok (a, t)) => (touched ++ (f a t).1, (f a t).2)

instance : Monad (Touching κ σ ε) where
  pure a := fun s => ([], .ok (a, s))
  bind := andThen

/-- The state. -/
def get : Touching κ σ ε σ := fun s => ([], .ok (s, s))

/-- Change the state. -/
def modify (f : σ → σ) : Touching κ σ ε Unit := fun s => ([], .ok ((), f s))

/-- Touch cells. -/
def touch (cells : List κ) : Touching κ σ ε Unit := fun s => (cells, .ok ((), s))

/-- Stop. -/
def stop (e : ε) : Touching κ σ ε α := fun _ => ([], .error e)

/-- A computation that touches nothing and may stop. -/
def lift (x : Except ε α) : Touching κ σ ε α := fun s => ([], x.map fun a => (a, s))

/-- The computation returns a value and leaves a state. -/
def Returns (x : Touching κ σ ε α) (s : σ) (a : α) (t : σ) : Prop := (x s).2 = .ok (a, t)

/-- Every cell touched meets the condition. -/
def TouchesOnly (p : κ → Prop) (x : Touching κ σ ε α) (s : σ) : Prop := ∀ c ∈ (x s).1, p c

section Rules

variable {p : κ → Prop} {x : Touching κ σ ε α} {f : α → Touching κ σ ε β} {s t : σ} {a : α}
  {b : β}

@[simp] theorem touchesOnly_pure : TouchesOnly p (pure a : Touching κ σ ε α) s := by
  intro c hc
  cases hc

@[simp] theorem touchesOnly_get : TouchesOnly p (get : Touching κ σ ε σ) s := by
  intro c hc
  cases hc

@[simp] theorem touchesOnly_modify {g : σ → σ} :
    TouchesOnly p (modify g : Touching κ σ ε Unit) s := by
  intro c hc
  cases hc

@[simp] theorem touchesOnly_stop {e : ε} : TouchesOnly p (stop e : Touching κ σ ε α) s := by
  intro c hc
  cases hc

@[simp] theorem touchesOnly_touch {cells : List κ} :
    TouchesOnly p (touch cells : Touching κ σ ε Unit) s ↔ ∀ c ∈ cells, p c := Iff.rfl

@[simp] theorem returns_pure {a' : α} :
    Returns (pure a : Touching κ σ ε α) s a' t ↔ a = a' ∧ s = t := by
  unfold Returns
  constructor
  · intro h
    cases h
    exact ⟨rfl, rfl⟩
  · rintro ⟨rfl, rfl⟩
    rfl

@[simp] theorem returns_get {s' : σ} : Returns (get : Touching κ σ ε σ) s s' t ↔ s = s' ∧ s = t := by
  unfold Returns
  constructor
  · intro h
    cases h
    exact ⟨rfl, rfl⟩
  · rintro ⟨rfl, rfl⟩
    rfl

@[simp] theorem returns_modify {g : σ → σ} {u : Unit} :
    Returns (modify g : Touching κ σ ε Unit) s u t ↔ g s = t := by
  unfold Returns
  constructor
  · intro h
    cases h
    rfl
  · rintro rfl
    rfl

@[simp] theorem returns_touch {cells : List κ} {u : Unit} :
    Returns (touch cells : Touching κ σ ε Unit) s u t ↔ s = t := by
  unfold Returns
  constructor
  · intro h
    cases h
    rfl
  · rintro rfl
    rfl

@[simp] theorem not_returns_stop {e : ε} : ¬ Returns (stop e : Touching κ σ ε α) s a t := by
  intro h
  cases h

@[simp] theorem returns_lift {y : Except ε α} :
    Returns (lift y : Touching κ σ ε α) s a t ↔ y = .ok a ∧ s = t := by
  unfold Returns lift
  cases y with
  | error e => simp [Except.map]
  | ok a' => simp [Except.map]

/-- There is one result. -/
theorem Returns.unique {a' : α} {t' : σ} (h : Returns x s a t) (h' : Returns x s a' t') :
    a = a' ∧ t = t' :=
  Prod.mk.inj (Except.ok.inj (h.symm.trans h'))

/-- A computation that ends well has a state at its end. -/
theorem exists_returns (h : (x s).2.toOption.map Prod.fst = some a) : ∃ t, Returns x s a t := by
  cases hrun : (x s).2 with
  | error e =>
    rw [hrun] at h
    cases h
  | ok r =>
    rw [hrun] at h
    obtain rfl := Option.some.inj h
    exact ⟨r.2, hrun⟩

/-- Both halves return. -/
theorem returns_bind :
    Returns (x >>= f) s b t ↔ ∃ a s', Returns x s a s' ∧ Returns (f a) s' b t := by
  show (andThen x f s).2 = _ ↔ _
  unfold Returns andThen
  rcases hx : x s with ⟨touched, _ | ⟨a, s'⟩⟩
  · simp
  · simp

/-- Both halves touch only such cells, the second one from where the first one leaves off. -/
theorem touchesOnly_bind :
    TouchesOnly p (x >>= f) s ↔
      TouchesOnly p x s ∧ ∀ a t, Returns x s a t → TouchesOnly p (f a) t := by
  show (∀ c ∈ (andThen x f s).1, p c) ↔ _
  unfold TouchesOnly Returns andThen
  rcases hx : x s with ⟨touched, _ | ⟨a, t⟩⟩
  · simp
  · simp only [List.mem_append]
    constructor
    · intro h
      refine ⟨fun c hc => h c (Or.inl hc), ?_⟩
      rintro a' t' h' c hc
      cases h'
      exact h c (Or.inr hc)
    · rintro ⟨hfirst, hsecond⟩ c (hc | hc)
      · exact hfirst c hc
      · exact hsecond a t rfl c hc

/-- The first half touches nothing else, so only the second one counts. -/
theorem touchesOnly_bind_of_touchesOnly (h : TouchesOnly p x s) :
    TouchesOnly p (x >>= f) s ↔ ∀ a t, Returns x s a t → TouchesOnly p (f a) t := by
  rw [touchesOnly_bind]
  exact and_iff_right h

/-- What is only computed from the result does not count. -/
theorem touchesOnly_bind_pure {g : α → β} :
    TouchesOnly p (x >>= fun a => pure (g a)) s ↔ TouchesOnly p x s := by
  rw [touchesOnly_bind]
  exact and_iff_left fun _ _ _ => touchesOnly_pure

theorem touchesOnly_pure_bind : TouchesOnly p (pure a >>= f) s ↔ TouchesOnly p (f a) s := by
  rw [touchesOnly_bind, and_iff_right touchesOnly_pure]
  constructor
  · intro h
    exact h a s (returns_pure.mpr ⟨rfl, rfl⟩)
  · intro h a' t hreturn
    obtain ⟨rfl, rfl⟩ := returns_pure.mp hreturn
    exact h

theorem touchesOnly_touch_bind {cells : List κ} {f : Unit → Touching κ σ ε β} :
    TouchesOnly p (touch cells >>= f) s ↔ (∀ c ∈ cells, p c) ∧ TouchesOnly p (f ()) s := by
  rw [touchesOnly_bind, touchesOnly_touch]
  apply and_congr_right
  intro _
  constructor
  · intro h
    exact h () s (returns_touch.mpr rfl)
  · intro h _ t hreturn
    obtain rfl := returns_touch.mp hreturn
    exact h

/-- The rest goes on with the state. -/
theorem touchesOnly_get_bind {f : σ → Touching κ σ ε β} :
    TouchesOnly p (get >>= f) s ↔ TouchesOnly p (f s) s := by
  rw [touchesOnly_bind_of_touchesOnly touchesOnly_get]
  constructor
  · intro h
    exact h s s (returns_get.mpr ⟨rfl, rfl⟩)
  · intro h a t hreturn
    obtain ⟨rfl, rfl⟩ := returns_get.mp hreturn
    exact h

/-- The rest goes on from the changed state. -/
theorem touchesOnly_modify_bind {g : σ → σ} {f : Unit → Touching κ σ ε β} :
    TouchesOnly p (modify g >>= f) s ↔ TouchesOnly p (f ()) (g s) := by
  rw [touchesOnly_bind_of_touchesOnly touchesOnly_modify]
  constructor
  · intro h
    exact h () (g s) (returns_modify.mpr rfl)
  · intro h _ t hreturn
    obtain rfl := returns_modify.mp hreturn
    exact h

theorem touchesOnly_ite {c : Prop} [Decidable c] {y : Touching κ σ ε α} :
    TouchesOnly p (if c then x else y) s ↔
      (c → TouchesOnly p x s) ∧ (¬ c → TouchesOnly p y s) := by
  by_cases hc : c
  · simp [hc]
  · simp [hc]

end Rules

/-! ## Reading without a change -/

section Observes

variable {p : κ → Prop} {x : Touching κ σ ε α} {f : α → Touching κ σ ε β} {s : σ} {a : α} {b : β}
  {c d : Prop}

/-- The computation touches only such cells exactly under this condition, and then returns this value
and leaves the state as it is. -/
structure Observes (p : κ → Prop) (x : Touching κ σ ε α) (s : σ) (c : Prop) (a : α) : Prop where
  touches : TouchesOnly p x s ↔ c
  returns : c → Returns x s a s

theorem Observes.congr (h : Observes p x s c a) (hc : c ↔ d) : Observes p x s d a :=
  ⟨h.touches.trans hc, fun hd => h.returns (hc.mpr hd)⟩

theorem Observes.pure (a : α) : Observes p (pure a : Touching κ σ ε α) s True a :=
  ⟨by simp, fun _ => returns_pure.mpr ⟨rfl, rfl⟩⟩

theorem Observes.get : Observes p (get : Touching κ σ ε σ) s True s :=
  ⟨by simp, fun _ => returns_get.mpr ⟨rfl, rfl⟩⟩

/-- What follows is started with the value, in the same state. -/
theorem Observes.bind_iff (h : Observes p x s c a) :
    TouchesOnly p (x >>= f) s ↔ c ∧ TouchesOnly p (f a) s := by
  rw [touchesOnly_bind, h.touches]
  apply and_congr_right
  intro hc
  constructor
  · intro hrest
    exact hrest a s (h.returns hc)
  · intro hrest a' t hreturn
    obtain ⟨rfl, rfl⟩ := (h.returns hc).unique hreturn
    exact hrest

theorem Observes.bind (h : Observes p x s c a) (hf : Observes p (f a) s d b) :
    Observes p (x >>= f) s (c ∧ d) b :=
  ⟨by rw [h.bind_iff, hf.touches], fun hc =>
    returns_bind.mpr ⟨a, s, h.returns hc.1, hf.returns hc.2⟩⟩

/-- A value is computed from the result. -/
theorem Observes.map (h : Observes p x s c a) (g : α → β) :
    Observes p (x >>= fun a => Pure.pure (g a)) s c (g a) :=
  (h.bind (Observes.pure (g a))).congr (and_iff_left trivial)

end Observes

/-! ## What stays as it is -/

section Preserves

variable {ω : Type} {view : σ → ω} {x : Touching κ σ ε α} {f : α → Touching κ σ ε β}

/-- When the computation returns, this part of the state is what it was. -/
def Preserves (view : σ → ω) (x : Touching κ σ ε α) : Prop :=
  ∀ s a t, Returns x s a t → view t = view s

theorem Preserves.bind (hx : Preserves view x) (hf : ∀ a, Preserves view (f a)) :
    Preserves view (x >>= f) := by
  intro s b u h
  obtain ⟨a, t, hfirst, hsecond⟩ := returns_bind.mp h
  exact (hf a t b u hsecond).trans (hx s a t hfirst)

theorem Preserves.pure (a : α) : Preserves view (pure a : Touching κ σ ε α) := by
  intro s b t h
  obtain ⟨-, rfl⟩ := returns_pure.mp h
  rfl

theorem Preserves.get : Preserves view (get : Touching κ σ ε σ) := by
  intro s b t h
  obtain ⟨-, rfl⟩ := returns_get.mp h
  rfl

theorem Preserves.touch (cells : List κ) : Preserves view (touch cells : Touching κ σ ε Unit) := by
  intro s b t h
  obtain rfl := returns_touch.mp h
  rfl

theorem Preserves.lift (y : Except ε α) : Preserves view (lift y : Touching κ σ ε α) := by
  intro s b t h
  obtain ⟨-, rfl⟩ := returns_lift.mp h
  rfl

theorem Preserves.modify {g : σ → σ} (h : ∀ s, view (g s) = view s) :
    Preserves view (modify g : Touching κ σ ε Unit) := by
  intro s b t hreturn
  obtain rfl := returns_modify.mp hreturn
  exact h s

theorem Preserves.forM {ι : Type} {f : ι → Touching κ σ ε PUnit} (xs : List ι)
    (h : ∀ x, Preserves view (f x)) : Preserves view (xs.forM f) := by
  induction xs with
  | nil => exact Preserves.pure _
  | cons x xs ih => exact Preserves.bind (h x) fun _ => ih

theorem Preserves.stop (e : ε) : Preserves view (stop e : Touching κ σ ε α) :=
  fun _ _ _ h => absurd h not_returns_stop

/-- What is read off a part that stays as it is stays as it is. -/
theorem Preserves.comp {ω' : Type} (h : Preserves view x) (g : ω → ω') :
    Preserves (fun s => g (view s)) x :=
  fun s a t hreturn => congrArg g (h s a t hreturn)

/-- No cell is touched, whatever the state, and this part of the state stays as it is. -/
structure Quiet (view : σ → ω) (x : Touching κ σ ε α) : Prop where
  touches_nothing : ∀ s, (x s).1 = []
  preserves : Preserves view x

theorem Quiet.pure (a : α) : Quiet view (pure a : Touching κ σ ε α) :=
  ⟨fun _ => rfl, .pure a⟩

theorem Quiet.get : Quiet view (get : Touching κ σ ε σ) := ⟨fun _ => rfl, .get⟩

theorem Quiet.modify {g : σ → σ} (h : ∀ s, view (g s) = view s) :
    Quiet view (modify g : Touching κ σ ε Unit) := ⟨fun _ => rfl, .modify h⟩

theorem Quiet.stop (e : ε) : Quiet view (stop e : Touching κ σ ε α) := ⟨fun _ => rfl, .stop e⟩

theorem Quiet.lift (y : Except ε α) : Quiet view (lift y : Touching κ σ ε α) :=
  ⟨fun _ => rfl, .lift y⟩

theorem Quiet.bind (hx : Quiet view x) (hf : ∀ a, Quiet view (f a)) : Quiet view (x >>= f) := by
  refine ⟨?_, hx.preserves.bind fun a => (hf a).preserves⟩
  intro s
  show (andThen x f s).1 = []
  have hfirst := hx.touches_nothing s
  unfold andThen
  rcases h : x s with ⟨touched, _ | ⟨a, t⟩⟩
  · rw [h] at hfirst
    exact hfirst
  · rw [h] at hfirst
    have hsecond := (hf a).touches_nothing t
    simp_all

theorem Quiet.touchesOnly {p : κ → Prop} {s : σ} (h : Quiet view x) : TouchesOnly p x s := by
  intro c hc
  rw [h.touches_nothing s] at hc
  cases hc

/-- After a part that touches nothing, only the rest counts. -/
theorem Quiet.touchesOnly_bind {p : κ → Prop} {s : σ} (h : Quiet view x) :
    TouchesOnly p (x >>= f) s ↔ ∀ a t, Returns x s a t → TouchesOnly p (f a) t :=
  touchesOnly_bind_of_touchesOnly h.touchesOnly

end Preserves

/-! ## How a computation stops -/

section Stops

variable {q : ε → Prop} {x : Touching κ σ ε α} {f : α → Touching κ σ ε β} {s : σ} {e : ε}

/-- The computation stops with this. -/
def Stops (x : Touching κ σ ε α) (s : σ) (e : ε) : Prop := (x s).2 = .error e

@[simp] theorem not_stops_pure {a : α} : ¬ Stops (pure a : Touching κ σ ε α) s e := by
  intro h
  cases h

@[simp] theorem not_stops_get : ¬ Stops (get : Touching κ σ ε σ) s e := by
  intro h
  cases h

@[simp] theorem not_stops_modify {g : σ → σ} :
    ¬ Stops (modify g : Touching κ σ ε Unit) s e := by
  intro h
  cases h

@[simp] theorem not_stops_touch {cells : List κ} :
    ¬ Stops (touch cells : Touching κ σ ε Unit) s e := by
  intro h
  cases h

@[simp] theorem stops_stop {d : ε} : Stops (stop d : Touching κ σ ε α) s e ↔ d = e :=
  ⟨fun h => Except.error.inj h, fun h => congrArg Except.error h⟩

@[simp] theorem stops_lift {y : Except ε α} :
    Stops (lift y : Touching κ σ ε α) s e ↔ y = .error e := by
  unfold Stops lift
  cases y with
  | error d => simp [Except.map]
  | ok a => simp [Except.map]

/-- The first half stops, or the second one does from where the first one leaves off. -/
theorem stops_bind :
    Stops (x >>= f) s e ↔ Stops x s e ∨ ∃ a t, Returns x s a t ∧ Stops (f a) t e := by
  show (andThen x f s).2 = _ ↔ _
  unfold Stops Returns andThen
  rcases hx : x s with ⟨touched, _ | ⟨a, t⟩⟩
  · simp
  · simp

/-- However it is started, the computation does not stop with any of these. -/
def NeverStops (q : ε → Prop) (x : Touching κ σ ε α) : Prop := ∀ s e, q e → ¬ Stops x s e

theorem NeverStops.pure (a : α) : NeverStops q (pure a : Touching κ σ ε α) :=
  fun _ _ _ => not_stops_pure

theorem NeverStops.get : NeverStops q (get : Touching κ σ ε σ) := fun _ _ _ => not_stops_get

theorem NeverStops.modify (g : σ → σ) : NeverStops q (modify g : Touching κ σ ε Unit) :=
  fun _ _ _ => not_stops_modify

theorem NeverStops.touch (cells : List κ) :
    NeverStops q (touch cells : Touching κ σ ε Unit) := fun _ _ _ => not_stops_touch

theorem NeverStops.stop {d : ε} (h : ¬ q d) : NeverStops q (stop d : Touching κ σ ε α) := by
  intro s e he hstops
  obtain rfl := stops_stop.mp hstops
  exact h he

theorem NeverStops.bind (hx : NeverStops q x) (hf : ∀ a, NeverStops q (f a)) :
    NeverStops q (x >>= f) := by
  intro s e he hstops
  rcases stops_bind.mp hstops with hfirst | ⟨a, t, -, hsecond⟩
  · exact hx s e he hfirst
  · exact hf a t e he hsecond

end Stops

/-! ## Loops over indices -/

/-- `n` steps, at the indices from `i` on. -/
def each (f : ℕ → Touching κ σ ε Unit) : ℕ → ℕ → Touching κ σ ε Unit
  | 0, _ => pure ()
  | n + 1, i => do
      f i
      each f n (i + 1)

theorem touchesOnly_each {p : κ → Prop} {f : ℕ → Touching κ σ ε Unit} {n i : ℕ} {s : σ}
    (h : ∀ j, i ≤ j → j < i + n → ∀ t, TouchesOnly p (f j) t) : TouchesOnly p (each f n i) s := by
  induction n generalizing i s with
  | zero => exact touchesOnly_pure
  | succ n ih =>
    unfold each
    rw [touchesOnly_bind_of_touchesOnly (h i (Nat.le_refl i) (by omega) s)]
    intro _ t _
    apply ih
    intro j hle hlt
    exact h j (by omega) (by omega)

theorem preserves_each {ω : Type} {view : σ → ω} {f : ℕ → Touching κ σ ε Unit} {n i : ℕ}
    (h : ∀ j, i ≤ j → j < i + n → Preserves view (f j)) : Preserves view (each f n i) := by
  induction n generalizing i with
  | zero => exact Preserves.pure ()
  | succ n ih =>
    apply (h i (Nat.le_refl i) (by omega)).bind
    intro _
    apply ih
    intro j hle hlt
    exact h j (by omega) (by omega)

theorem neverStops_each {q : ε → Prop} {f : ℕ → Touching κ σ ε Unit} {n i : ℕ}
    (h : ∀ j, NeverStops q (f j)) : NeverStops q (each f n i) := by
  induction n generalizing i with
  | zero => exact NeverStops.pure ()
  | succ n ih => exact (h i).bind fun _ => ih

/-- The steps up to an index, and those from there on. -/
theorem returns_each_add {f : ℕ → Touching κ σ ε Unit} {m n i : ℕ} {s u : σ} :
    Returns (each f (m + n) i) s () u ↔
      ∃ t, Returns (each f m i) s () t ∧ Returns (each f n (i + m)) t () u := by
  induction m generalizing i s with
  | zero =>
    rw [Nat.zero_add, Nat.add_zero]
    constructor
    · intro h
      exact ⟨s, returns_pure.mpr ⟨rfl, rfl⟩, h⟩
    · rintro ⟨t, hnone, h⟩
      obtain ⟨-, rfl⟩ := returns_pure.mp hnone
      exact h
  | succ m ih =>
    rw [Nat.succ_add, each, returns_bind, each]
    constructor
    · rintro ⟨_, s', hfirst, hrest⟩
      obtain ⟨t, hsteps, h⟩ := ih.mp hrest
      rw [Nat.add_right_comm] at h
      exact ⟨t, returns_bind.mpr ⟨(), s', hfirst, hsteps⟩, h⟩
    · rintro ⟨t, hsteps, h⟩
      obtain ⟨_, s', hfirst, hrest⟩ := returns_bind.mp hsteps
      refine ⟨(), s', hfirst, ih.mpr ⟨t, hrest, ?_⟩⟩
      rw [Nat.add_right_comm]
      exact h

/-- What is left of the steps after one of them. -/
theorem returns_each_rest {f : ℕ → Touching κ σ ε Unit} {m n i : ℕ} {s t t' u : σ} (hm : m < n)
    (h : Returns (each f n i) s () u) (hsteps : Returns (each f m i) s () t)
    (hstep : Returns (f (i + m)) t () t') :
    Returns (each f (n - (m + 1)) (i + m + 1)) t' () u := by
  have hsplit : n = m + (n - (m + 1) + 1) := by omega
  rw [hsplit] at h
  obtain ⟨t₀, hsteps', hrest⟩ := returns_each_add.mp h
  obtain ⟨-, rfl⟩ := hsteps.unique hsteps'
  obtain ⟨_, t₁, hstep', hrest⟩ := returns_bind.mp hrest
  obtain ⟨-, rfl⟩ := hstep.unique hstep'
  exact hrest

/-- What every step hands on to the next one holds in the end. -/
theorem returns_each_invariant (inv : ℕ → σ → Prop) {f : ℕ → Touching κ σ ε Unit} {n i : ℕ}
    {s u : σ}
    (hstep : ∀ k t t', i ≤ k → k < i + n → inv k t → Returns (f k) t () t' → inv (k + 1) t')
    (hstart : inv i s) (h : Returns (each f n i) s () u) : inv (i + n) u := by
  induction n generalizing i s with
  | zero =>
    obtain ⟨-, rfl⟩ := returns_pure.mp h
    exact hstart
  | succ n ih =>
    obtain ⟨_, s', hfirst, hrest⟩ := returns_bind.mp h
    have hend := ih (fun k t t' hle hlt => hstep k t t' (by omega) (by omega))
      (hstep i s s' (Nat.le_refl i) (by omega) hstart hfirst) hrest
    rw [Nat.add_right_comm] at hend
    exact hend

section Walk

variable (limit : ℕ) (body : ℕ → Touching κ σ ε ℕ)

/-- `while (i < limit)`: a round takes the index, goes one on, and then as far as it says. -/
def walk (i : ℕ) : Touching κ σ ε Unit :=
  if i < limit then do
    let taken ← body i
    walk (i + 1 + taken)
  else pure ()
termination_by limit - i

/-- The loop comes to an index in a state. -/
inductive Reaches (i : ℕ) (s : σ) : ℕ → σ → Prop
  | start : Reaches i s i s
  | round {j n : ℕ} {t t' : σ} : Reaches i s j t → j < limit → Returns (body j) t n t' →
      Reaches i s (j + 1 + n) t'

variable {limit body} {p : κ → Prop} {i j : ℕ} {s t : σ}

theorem Reaches.head {n : ℕ} {s' : σ} (hi : i < limit) (hbody : Returns (body i) s n s')
    (h : Reaches limit body (i + 1 + n) s' j t) : Reaches limit body i s j t := by
  induction h with
  | start => exact .round .start hi hbody
  | round _ hj hround ih => exact .round ih hj hround

/-- Where a loop goes on from its first index, it goes on from there. -/
theorem Reaches.tail (h : Reaches limit body i s j t) :
    (j = i ∧ t = s) ∨ ∃ n s', i < limit ∧ Returns (body i) s n s' ∧
      Reaches limit body (i + 1 + n) s' j t := by
  induction h with
  | start => exact Or.inl ⟨rfl, rfl⟩
  | round hreach hj hround ih =>
    apply Or.inr
    rcases ih with ⟨rfl, rfl⟩ | ⟨n, s', hi, hbody, hrest⟩
    · exact ⟨_, _, hj, hround, .start⟩
    · exact ⟨n, s', hi, hbody, .round hrest hj hround⟩

/-- What holds at the start and after every round holds wherever the loop comes. -/
theorem Reaches.invariant (inv : ℕ → σ → Prop) (hstart : inv i s)
    (hround : ∀ j t n t', inv j t → j < limit → Returns (body j) t n t' → inv (j + 1 + n) t')
    (h : Reaches limit body i s j t) : inv j t := by
  induction h with
  | start => exact hstart
  | round _ hj hreturn ih => exact hround _ _ _ _ ih hj hreturn

/-- The loop touches only such cells if every round that it reaches does. -/
theorem touchesOnly_walk :
    TouchesOnly p (walk limit body i) s ↔
      ∀ j t, Reaches limit body i s j t → j < limit → TouchesOnly p (body j) t := by
  induction hleft : limit - i using Nat.strongRecOn generalizing i s with
  | ind left ih =>
    rw [walk, touchesOnly_ite]
    by_cases hi : i < limit
    · rw [touchesOnly_bind]
      have hrest : ∀ n s', TouchesOnly p (walk limit body (i + 1 + n)) s' ↔
          ∀ j t, Reaches limit body (i + 1 + n) s' j t → j < limit → TouchesOnly p (body j) t :=
        fun n s' => ih (limit - (i + 1 + n)) (by omega) rfl
      constructor
      · intro h j t hreach hj
        obtain ⟨hbody, hnext⟩ := h.1 hi
        rcases hreach.tail with ⟨rfl, rfl⟩ | ⟨n, s', -, hround, hfrom⟩
        · exact hbody
        · exact (hrest n s').mp (hnext n s' hround) j t hfrom hj
      · intro h
        refine ⟨fun _ => ⟨h i s .start hi, ?_⟩, fun hstop => absurd hi hstop⟩
        intro n s' hround
        apply (hrest n s').mpr
        intro j t hfrom
        exact h j t (hfrom.head hi hround)
    · constructor
      · intro _ j t hreach hj
        rcases hreach.tail with ⟨rfl, rfl⟩ | ⟨n, s', hi', -, -⟩
        · exact absurd hj hi
        · exact absurd hi' hi
      · intro _
        exact ⟨fun hi' => absurd hi' hi, fun _ => touchesOnly_pure⟩

/-- The loop stops if a round that it reaches does. -/
theorem stops_walk {e : ε} :
    Stops (walk limit body i) s e ↔
      ∃ j t, Reaches limit body i s j t ∧ j < limit ∧ Stops (body j) t e := by
  induction hleft : limit - i using Nat.strongRecOn generalizing i s with
  | ind left ih =>
    rw [walk]
    by_cases hi : i < limit
    · rw [if_pos hi, stops_bind]
      have hrest : ∀ n s', Stops (walk limit body (i + 1 + n)) s' e ↔
          ∃ j t, Reaches limit body (i + 1 + n) s' j t ∧ j < limit ∧ Stops (body j) t e :=
        fun n s' => ih (limit - (i + 1 + n)) (by omega) rfl
      constructor
      · rintro (hbody | ⟨n, s', hround, hnext⟩)
        · exact ⟨i, s, .start, hi, hbody⟩
        · obtain ⟨j, t, hreach, hj, hstops⟩ := (hrest n s').mp hnext
          exact ⟨j, t, hreach.head hi hround, hj, hstops⟩
      · rintro ⟨j, t, hreach, hj, hstops⟩
        rcases hreach.tail with ⟨rfl, rfl⟩ | ⟨n, s', -, hround, hfrom⟩
        · exact Or.inl hstops
        · exact Or.inr ⟨n, s', hround, (hrest n s').mpr ⟨j, t, hfrom, hj, hstops⟩⟩
    · rw [if_neg hi]
      refine iff_of_false not_stops_pure ?_
      rintro ⟨j, t, hreach, hj, -⟩
      rcases hreach.tail with ⟨rfl, -⟩ | ⟨n, s', hi', -, -⟩
      · exact hi hj
      · exact hi hi'

/-- Wherever the loop has come, it returns what it returns from there. -/
theorem Reaches.returns_walk {u : σ} (h : Reaches limit body i s j t) :
    Returns (walk limit body i) s () u ↔ Returns (walk limit body j) t () u := by
  induction h with
  | start => exact Iff.rfl
  | @round j n t t' _ hj hround ih =>
    rw [ih, walk, if_pos hj, returns_bind]
    constructor
    · rintro ⟨n', t'', hround', hrest⟩
      obtain ⟨rfl, rfl⟩ := hround.unique hround'
      exact hrest
    · intro hrest
      exact ⟨n, t', hround, hrest⟩

/-- What holds where the loop has come and is kept by every round holds where it ends. -/
theorem returns_walk_invariant (inv : ℕ → σ → Prop) {u : σ}
    (hround : ∀ j t n t', inv j t → j < limit → Returns (body j) t n t' → inv (j + 1 + n) t')
    (hstart : inv i s) (h : Returns (walk limit body i) s () u) : ∃ j, inv j u := by
  induction hleft : limit - i using Nat.strongRecOn generalizing i s with
  | ind left ih =>
    rw [walk] at h
    by_cases hi : i < limit
    · rw [if_pos hi] at h
      obtain ⟨n, t, hbody, hrest⟩ := returns_bind.mp h
      exact ih (limit - (i + 1 + n)) (by omega) (hround i s n t hstart hi hbody) hrest rfl
    · rw [if_neg hi] at h
      obtain ⟨-, rfl⟩ := returns_pure.mp h
      exact ⟨i, hstart⟩

/-- A part of the state that the rounds in front keep is what it was. -/
theorem Reaches.kept {ω : Type} {view : σ → ω} {c : ℕ → σ → Prop}
    (hround : ∀ j t n t', c j t → Returns (body j) t n t' → view t' = view t)
    (h : Reaches limit body i s j t)
    (hfront : ∀ k t', Reaches limit body i s k t' → k < j → c k t') : view t = view s := by
  induction h with
  | start => rfl
  | @round j n t t' hreach hj hbody ih =>
    have hhere := hround j t n t' (hfront j t hreach (by omega)) hbody
    rw [hhere]
    exact ih fun k t' hk hlt => hfront k t' hk (by omega)

end Walk

end Touching

end Borked3DS.Library
