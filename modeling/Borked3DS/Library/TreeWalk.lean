import Mathlib.Algebra.Order.Ring.Nat
import Mathlib.Data.List.Nodup
import Mathlib.Data.List.Perm.Basic
import Mathlib.Data.Set.Card
import Mathlib.Data.Set.Finite.Basic

/-!
# Walks that mark nothing

A depth-first walk over nodes that lead to further ones, without a mark on those it has been to. It
comes to an end with every node visited once exactly when the nodes form a forest: no node is led to
twice, nor led to and started from.
-/

set_option autoImplicit false

namespace Borked3DS.Library

variable {ν : Type*} (next : ν → Option (List ν))

/-- The nodes that a node leads to, none if it cannot be read. -/
def nexts (v : ν) : List ν := (next v).getD []

/-- The nodes in the order in which they are visited. The fuel bounds their number. -/
def walk : ℕ → List ν → Option (List ν)
  | 0, _ => none
  | _ + 1, [] => some []
  | fuel + 1, v :: stack => do
      let found ← next v
      let rest ← walk fuel (found ++ stack)
      some (v :: rest)

/-- A walk from some nodes comes to a node. -/
inductive Reached (starts : List ν) : ν → Prop
  | start {v : ν} : v ∈ starts → Reached starts v
  | step {v w : ν} : Reached starts v → w ∈ nexts next v → Reached starts w

/-- What is reached can be read, and no node is started from or led to twice. -/
structure Forest (starts : List ν) : Prop where
  readable : ∀ v, Reached next starts v → (next v).isSome
  distinct : starts.Nodup
  fresh : ∀ v, Reached next starts v → (nexts next v).Nodup ∧ starts.Disjoint (nexts next v)
  apart : ∀ v w, Reached next starts v → Reached next starts w → v ≠ w →
    (nexts next v).Disjoint (nexts next w)

section Rules

variable {next} {fuel : ℕ} {stack starts visited : List ν}

theorem walk_cons {v : ν} (h : walk next (fuel + 1) (v :: stack) = some visited) :
    ∃ found rest, next v = some found ∧ walk next fuel (found ++ stack) = some rest ∧
      visited = v :: rest := by
  simp only [walk, Option.bind_eq_bind, Option.bind_eq_some_iff] at h
  obtain ⟨found, hfound, rest, hrest, hvisited⟩ := h
  exact ⟨found, rest, hfound, hrest, (Option.some.inj hvisited).symm⟩

/-- Everything that was started from or led to is visited. -/
theorem walk_perm (h : walk next fuel stack = some visited) :
    visited.Perm (stack ++ visited.flatMap (nexts next)) := by
  induction fuel generalizing stack visited with
  | zero => cases h
  | succ fuel ih =>
      cases stack with
      | nil =>
          cases h
          exact List.Perm.refl _
      | cons v stack =>
          obtain ⟨found, rest, hfound, hrest, rfl⟩ := walk_cons h
          have hnexts : nexts next v = found := by
            unfold nexts
            rw [hfound]
            rfl
          rw [List.flatMap_cons, hnexts, List.cons_append]
          refine List.Perm.cons v ((ih hrest).trans ?_)
          rw [List.append_assoc]
          exact List.perm_append_comm_assoc _ _ _

theorem walk_readable (h : walk next fuel stack = some visited) {v : ν} (hv : v ∈ visited) :
    (next v).isSome := by
  induction fuel generalizing stack visited with
  | zero => cases h
  | succ fuel ih =>
      cases stack with
      | nil =>
          cases h
          cases hv
      | cons w stack =>
          obtain ⟨found, rest, hfound, hrest, rfl⟩ := walk_cons h
          rcases List.mem_cons.mp hv with rfl | hv
          · rw [hfound]
            rfl
          · exact ih hrest hv

theorem reached_mono {starts' : List ν} (hsub : ∀ v ∈ starts', Reached next starts v) {v : ν}
    (h : Reached next starts' v) : Reached next starts v := by
  induction h with
  | start hv => exact hsub _ hv
  | step _ hw ih => exact ih.step hw

/-- A walk that comes to its end visits what is reached. -/
theorem mem_walk_iff (h : walk next fuel starts = some visited) {v : ν} :
    v ∈ visited ↔ Reached next starts v := by
  constructor
  · intro hv
    induction fuel generalizing starts visited with
    | zero => cases h
    | succ fuel ih =>
        cases starts with
        | nil =>
            cases h
            cases hv
        | cons w stack =>
            obtain ⟨found, rest, hfound, hrest, rfl⟩ := walk_cons h
            have hw : Reached next (w :: stack) w := .start (List.mem_cons_self ..)
            rcases List.mem_cons.mp hv with rfl | hv
            · exact hw
            · refine reached_mono (fun u hu => ?_) (ih hrest hv)
              rcases List.mem_append.mp hu with hu | hu
              · exact hw.step (by simpa [nexts, hfound] using hu)
              · exact .start (List.mem_cons_of_mem _ hu)
  · intro hv
    induction hv with
    | start hv => exact (walk_perm h).mem_iff.mpr (List.mem_append_left _ hv)
    | step _ hw ih =>
        exact (walk_perm h).mem_iff.mpr
          (List.mem_append_right _ (List.mem_flatMap.mpr ⟨_, ih, hw⟩))

/-- A walk that visits every node once has walked over a forest. -/
theorem forest_of_walk (h : walk next fuel starts = some visited) (hnodup : visited.Nodup) :
    Forest next starts := by
  obtain ⟨hstarts, hnexts, hdisjoint⟩ := List.nodup_append'.mp ((walk_perm h).nodup_iff.mp hnodup)
  obtain ⟨heach, hapart⟩ := List.nodup_flatMap.mp hnexts
  refine ⟨fun v hv => walk_readable h ((mem_walk_iff h).mpr hv), hstarts, fun v hv => ?_, ?_⟩
  · have hmem := (mem_walk_iff h).mpr hv
    refine ⟨heach v hmem, fun w hw hw' => hdisjoint hw ?_⟩
    exact List.mem_flatMap.mpr ⟨v, hmem, hw'⟩
  · intro v w hv hw hne
    have hsymm : Std.Symm (Function.onFun List.Disjoint (nexts next)) :=
      ⟨fun _ _ hd => hd.symm⟩
    exact hapart.forall ((mem_walk_iff h).mpr hv) ((mem_walk_iff h).mpr hw) hne

/-- What has been visited of a forest and what waits to be is all different. -/
theorem Forest.nodup (h : Forest next starts) (hnodup : visited.Nodup)
    (hreached : ∀ v ∈ visited, Reached next starts v) :
    (starts ++ visited.flatMap (nexts next)).Nodup := by
  refine List.nodup_append'.mpr ⟨h.distinct, List.nodup_flatMap.mpr ⟨fun v hv => ?_, ?_⟩, ?_⟩
  · exact (h.fresh v (hreached v hv)).1
  · refine hnodup.imp_of_mem fun hv hw hne => ?_
    exact h.apart _ _ (hreached _ hv) (hreached _ hw) hne
  · intro w hw hw'
    obtain ⟨v, hv, hvw⟩ := List.mem_flatMap.mp hw'
    exact (h.fresh v (hreached v hv)).2 hw hvw

/-- What has been visited and what waits to be are all different, and reached. -/
theorem Forest.waiting (h : Forest next starts) (hnodup : visited.Nodup)
    (hreached : ∀ v ∈ visited, Reached next starts v)
    (hperm : (visited ++ stack).Perm (starts ++ visited.flatMap (nexts next))) :
    (visited ++ stack).Nodup ∧ ∀ v ∈ visited ++ stack, Reached next starts v := by
  refine ⟨hperm.nodup_iff.mpr (h.nodup hnodup hreached), fun v hv => ?_⟩
  rcases List.mem_append.mp (hperm.mem_iff.mp hv) with hv | hv
  · exact .start hv
  · obtain ⟨w, hw, hwv⟩ := List.mem_flatMap.mp hv
    exact (hreached w hw).step hwv

/-- The walk over a forest comes to an end: each turn visits a node that has not been visited. -/
theorem Forest.walk_rest (h : Forest next starts) (hfinite : {v | Reached next starts v}.Finite)
    (hnodup : visited.Nodup) (hreached : ∀ v ∈ visited, Reached next starts v)
    (hperm : (visited ++ stack).Perm (starts ++ visited.flatMap (nexts next)))
    {left : ℕ} (hleft : hfinite.toFinset.card ≤ visited.length + left) :
    ∃ rest, walk next (left + 1) stack = some rest ∧ (visited ++ rest).Nodup := by
  classical
  induction left generalizing visited stack with
  | zero =>
      obtain ⟨hall, hin⟩ := h.waiting hnodup hreached hperm
      cases stack with
      | nil => exact ⟨[], rfl, by simpa using hnodup⟩
      | cons v stack =>
          exfalso
          have hsub : (visited ++ v :: stack).toFinset ⊆ hfinite.toFinset := by
            intro w hw
            exact hfinite.mem_toFinset.mpr (hin w (List.mem_toFinset.mp hw))
          have hcard := Finset.card_le_card hsub
          rw [List.toFinset_card_of_nodup hall, List.length_append, List.length_cons] at hcard
          omega
  | succ left ih =>
      obtain ⟨hall, hin⟩ := h.waiting hnodup hreached hperm
      cases stack with
      | nil => exact ⟨[], rfl, by simpa using hnodup⟩
      | cons v stack =>
          have hv := hin v (by simp)
          obtain ⟨found, hfound⟩ := Option.isSome_iff_exists.mp (h.readable v hv)
          have hnexts : nexts next v = found := by
            unfold nexts
            rw [hfound]
            rfl
          rw [List.append_cons] at hall
          have hperm' : (visited ++ [v] ++ (found ++ stack)).Perm
              (starts ++ (visited ++ [v]).flatMap (nexts next)) := by
            rw [List.flatMap_append, List.flatMap_singleton, hnexts]
            have hmoved : (visited ++ [v] ++ (found ++ stack)).Perm
                (visited ++ v :: stack ++ found) := by
              simp only [List.append_assoc, List.nil_append, List.cons_append]
              exact (List.perm_append_comm.cons v).append_left visited
            refine hmoved.trans ?_
            rw [← List.append_assoc]
            exact hperm.append_right found
          have hreached' : ∀ w ∈ visited ++ [v], Reached next starts w := by
            intro w hw
            rcases List.mem_append.mp hw with hw | hw
            · exact hreached w hw
            · rw [List.mem_singleton.mp hw]
              exact hv
          obtain ⟨rest, hrest, hrestNodup⟩ := ih hall.of_append_left hreached' hperm'
            (by rw [List.length_append, List.length_singleton]; omega)
          refine ⟨v :: rest, ?_, ?_⟩
          · simp only [walk, hfound, hrest, Option.bind_eq_bind, Option.bind_some]
          · rwa [List.append_cons]

/-- A walk comes to its end with every node visited once exactly when the nodes are a forest. -/
theorem walk_once_iff (hfinite : {v | Reached next starts v}.Finite) :
    (∃ fuel visited, walk next fuel starts = some visited ∧ visited.Nodup) ↔
      Forest next starts := by
  constructor
  · rintro ⟨fuel, visited, h, hnodup⟩
    exact forest_of_walk h hnodup
  · intro h
    obtain ⟨rest, hrest, hnodup⟩ := h.walk_rest hfinite List.nodup_nil (by simp)
      (by simp : ([] ++ starts).Perm (starts ++ [].flatMap (nexts next)))
      (Nat.le_add_left _ _)
    exact ⟨_, rest, hrest, by simpa using hnodup⟩

end Rules

end Borked3DS.Library
