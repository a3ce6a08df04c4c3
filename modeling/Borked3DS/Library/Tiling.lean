import Mathlib.Algebra.Order.Ring.Nat
import Mathlib.Data.List.Basic
import Mathlib.Data.List.Pairwise
import Mathlib.Tactic.Common

/-!
# Tilings of an interval

A list of pieces tiles `[lo, hi)` when its pieces have positive size, the first begins at
`lo`, each next one begins where the one before it ends, and the last ends at `hi`. The
piece over a point is unique, so a tiling denotes a function on the interval: `denote f l`
reads at `p` the value `f a p` of the piece `a` over `p`. Cutting a piece, fusing two
pieces and rewriting a run of pieces are all compared through `denote`.
-/

set_option autoImplicit false

namespace Borked3DS.Library

variable {α β : Type*} (start size : α → ℕ)

/-- The pieces of `l`, in order, cut `[lo, hi)` into consecutive intervals of positive size. -/
def Tiles : ℕ → ℕ → List α → Prop
  | lo, hi, [] => lo = hi
  | lo, hi, a :: l => start a = lo ∧ 0 < size a ∧ Tiles (lo + size a) hi l

/-- The piece over the point `p`. -/
def pieceAt (p : ℕ) (l : List α) : Option α :=
  l.find? fun a => decide (start a ≤ p ∧ p < start a + size a)

/-- The function a tiling denotes, `f a p` being the value of the piece `a` at the point `p`. -/
def denote (f : α → ℕ → β) (l : List α) (p : ℕ) : Option β :=
  (pieceAt start size p l).map fun a => f a p

variable {start size}

section Tiles

variable {lo mid hi p : ℕ} {l l₁ l₂ : List α} {a : α}

@[simp] theorem tiles_nil : Tiles start size lo hi [] ↔ lo = hi := Iff.rfl

@[simp] theorem tiles_cons : Tiles start size lo hi (a :: l) ↔
    start a = lo ∧ 0 < size a ∧ Tiles start size (lo + size a) hi l := Iff.rfl

theorem tiles_append : Tiles start size lo hi (l₁ ++ l₂) ↔
    ∃ mid, Tiles start size lo mid l₁ ∧ Tiles start size mid hi l₂ := by
  induction l₁ generalizing lo with
  | nil => simp
  | cons b l₁ ih => simp [ih, and_assoc]

theorem Tiles.append (h₁ : Tiles start size lo mid l₁) (h₂ : Tiles start size mid hi l₂) :
    Tiles start size lo hi (l₁ ++ l₂) := tiles_append.mpr ⟨mid, h₁, h₂⟩

theorem Tiles.le (h : Tiles start size lo hi l) : lo ≤ hi := by
  induction l generalizing lo with
  | nil => exact Nat.le_of_eq h
  | cons b l ih => have := ih h.2.2; omega

/-- Every piece lies inside the tiled interval. -/
theorem Tiles.bounds (h : Tiles start size lo hi l) (ha : a ∈ l) :
    lo ≤ start a ∧ 0 < size a ∧ start a + size a ≤ hi := by
  induction l generalizing lo with
  | nil => simp at ha
  | cons b l ih =>
      obtain ⟨hb, hpos, hrest⟩ := h
      rcases List.mem_cons.mp ha with rfl | ha
      · have := hrest.le
        omega
      · have := ih hrest ha
        omega

theorem Tiles.pairwise_lt (h : Tiles start size lo hi l) :
    l.Pairwise fun a b => start a < start b := by
  induction l generalizing lo with
  | nil => exact List.Pairwise.nil
  | cons b l ih =>
      refine List.Pairwise.cons (fun c hc => ?_) (ih h.2.2)
      have := h.2.2.bounds hc
      have := h.1
      have := h.2.1
      omega

/-- A piece of a tiling splits it into the tiling before it and the tiling after it. -/
theorem tiles_place : Tiles start size lo hi (l₁ ++ a :: l₂) ↔
    Tiles start size lo (start a) l₁ ∧ 0 < size a ∧
      Tiles start size (start a + size a) hi l₂ := by
  rw [tiles_append]
  constructor
  · rintro ⟨mid, h₁, rfl, hpos, h₂⟩
    exact ⟨h₁, hpos, h₂⟩
  · rintro ⟨h₁, hpos, h₂⟩
    exact ⟨start a, h₁, rfl, hpos, h₂⟩

/-- Some piece stands over every point of the tiled interval. -/
theorem Tiles.exists_place (h : Tiles start size lo hi l) (hlo : lo ≤ p) (hhi : p < hi) :
    ∃ l₁ a l₂, l = l₁ ++ a :: l₂ ∧ start a ≤ p ∧ p < start a + size a := by
  induction l generalizing lo with
  | nil => have : lo = hi := h; omega
  | cons b l ih =>
      obtain ⟨hb, hpos, hrest⟩ := h
      by_cases hp : p < lo + size b
      · exact ⟨[], b, l, rfl, by omega, by omega⟩
      · obtain ⟨l₁, a, l₂, rfl, ha⟩ := ih hrest (by omega)
        exact ⟨b :: l₁, a, l₂, rfl, ha⟩

end Tiles

section Denote

variable {lo mid hi p : ℕ} {l l₁ l₂ : List α} {a : α} {f : α → ℕ → β}

theorem pieceAt_of_lt (h : Tiles start size lo hi l) (hp : p < lo) :
    pieceAt start size p l = none :=
  List.find?_eq_none.mpr fun b hb => by have := h.bounds hb; simp; omega

theorem pieceAt_of_ge (h : Tiles start size lo hi l) (hp : hi ≤ p) :
    pieceAt start size p l = none :=
  List.find?_eq_none.mpr fun b hb => by have := h.bounds hb; simp; omega

theorem pieceAt_cons (hle : start a ≤ p) (hlt : p < start a + size a) :
    pieceAt start size p (a :: l) = some a := by
  simp [pieceAt, hle, hlt]

/-- The piece over a point of a tiling, at the place it stands. -/
theorem pieceAt_place (h : Tiles start size lo hi (l₁ ++ a :: l₂)) (hle : start a ≤ p)
    (hlt : p < start a + size a) : pieceAt start size p (l₁ ++ a :: l₂) = some a := by
  have h₁ : pieceAt start size p l₁ = none := pieceAt_of_ge (tiles_place.mp h).1 hle
  simp only [pieceAt] at h₁ ⊢
  rw [List.find?_append, h₁]
  exact pieceAt_cons hle hlt

theorem denote_place (h : Tiles start size lo hi (l₁ ++ a :: l₂)) (hle : start a ≤ p)
    (hlt : p < start a + size a) : denote start size f (l₁ ++ a :: l₂) p = some (f a p) := by
  rw [denote, pieceAt_place h hle hlt, Option.map_some]

theorem denote_of_lt (h : Tiles start size lo hi l) (hp : p < lo) :
    denote start size f l p = none := by rw [denote, pieceAt_of_lt h hp, Option.map_none]

theorem denote_of_ge (h : Tiles start size lo hi l) (hp : hi ≤ p) :
    denote start size f l p = none := by rw [denote, pieceAt_of_ge h hp, Option.map_none]

/-- A point of two tilings laid end to end is read from the one it lies in. -/
theorem denote_append (h₁ : Tiles start size lo mid l₁) (h₂ : Tiles start size mid hi l₂) :
    denote start size f (l₁ ++ l₂) p =
      if p < mid then denote start size f l₁ p else denote start size f l₂ p := by
  simp only [denote, pieceAt, List.find?_append]
  split
  next hp =>
    have : l₂.find? (fun a => decide (start a ≤ p ∧ p < start a + size a)) = none :=
      pieceAt_of_lt h₂ hp
    rw [this, Option.or_none]
  next hp =>
    have : l₁.find? (fun a => decide (start a ≤ p ∧ p < start a + size a)) = none :=
      pieceAt_of_ge h₁ (by omega)
    rw [this, Option.none_or]

theorem denote_cons (h : Tiles start size lo hi (a :: l)) :
    denote start size f (a :: l) p =
      if p < lo then none
      else if p < lo + size a then some (f a p) else denote start size f l p := by
  obtain ⟨rfl, hpos, hrest⟩ := h
  split
  next hp => exact denote_of_lt (tiles_cons.mpr ⟨rfl, hpos, hrest⟩) hp
  next hp =>
    split
    next hq => rw [denote, pieceAt_cons (by omega) hq, Option.map_some]
    next hq =>
      simp only [denote, pieceAt]
      rw [List.find?_cons_of_neg (by simp; omega)]

/-- The points a tiling denotes a value at are the points of its interval. -/
theorem denote_isSome (h : Tiles start size lo hi l) (hlo : lo ≤ p) (hhi : p < hi) :
    (denote start size f l p).isSome := by
  obtain ⟨l₁, a, l₂, rfl, hle, hlt⟩ := h.exists_place hlo hhi
  rw [denote_place h hle hlt, Option.isSome_some]

end Denote

end Borked3DS.Library
