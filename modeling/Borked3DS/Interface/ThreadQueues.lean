import Mathlib.Data.List.Rotate
import Borked3DS.Model.ThreadQueueList

/-!
# An array of queues

What a thread queue list is for: a first-in, first-out queue for each level, of which the lowest
that holds something is served first. The levels that have been prepared form a chain.
-/

set_option autoImplicit false

namespace Borked3DS.Interface

open Borked3DS.Model

/-- What is in the queue of each level. -/
abbrev Lanes (T : Type) := ℕ → List T

/-- A call of a thread queue list. -/
inductive QueueCall (T : Type)
  | prepare (level : ℕ)
  | pushFront (level : ℕ) (x : T)
  | pushBack (level : ℕ) (x : T)
  | move (x : T) (oldLevel newLevel : ℕ)
  | remove (level : ℕ) (x : T)
  | rotate (level : ℕ)
  | popFirst
  | popFirstBetter (level : ℕ)
  | getFirst

/-- The lowest level below a bound that holds something. -/
def lowest {T : Type} (lanes : Lanes T) (bound : ℕ) : Option ℕ :=
  (List.range bound).find? fun i => !(lanes i).isEmpty

/-- The front of the lowest level below a bound is taken. -/
def takeLowest {T : Type} (lanes : Lanes T) (bound : ℕ) : Option T × Lanes T :=
  match lowest lanes bound with
  | none => (none, lanes)
  | some i => ((lanes i).head?, Function.update lanes i (lanes i).tail)

namespace QueueCall

variable {T : Type} [DecidableEq T]

/-- The call, with the thread that it returns. -/
def perform {N : ℕ} (q : ThreadQueueList T N) : QueueCall T → Exec (Option T × ThreadQueueList T N)
  | prepare level => do pure (none, ← q.prepare level)
  | pushFront level x => do pure (none, ← q.pushFront level x)
  | pushBack level x => do pure (none, ← q.pushBack level x)
  | move x oldLevel newLevel => do pure (none, ← q.move x oldLevel newLevel)
  | remove level x => do pure (none, ← q.remove level x)
  | rotate level => do pure (none, ← q.rotate level)
  | popFirst => q.popFirst
  | popFirstBetter level => q.popFirstBetter level
  | getFirst => do pure (← q.getFirst, q)

/-- What the call means on the queues of `N` levels. -/
def onLanes (N : ℕ) (lanes : Lanes T) : QueueCall T → Option T × Lanes T
  | prepare _ => (none, lanes)
  | pushFront level x => (none, Function.update lanes level (x :: lanes level))
  | pushBack level x => (none, Function.update lanes level (lanes level ++ [x]))
  | move x oldLevel newLevel =>
      let lanes := Function.update lanes oldLevel ((lanes oldLevel).filter (decide <| · ≠ x))
      (none, Function.update lanes newLevel (lanes newLevel ++ [x]))
  | remove level x => (none, Function.update lanes level ((lanes level).filter (decide <| · ≠ x)))
  | rotate level => (none, Function.update lanes level ((lanes level).rotate 1))
  | popFirst => takeLowest lanes N
  | popFirstBetter level => takeLowest lanes level
  | getFirst => ((takeLowest lanes N).1, lanes)

/-- The levels that are prepared after the call. -/
def prepares (prepared : List ℕ) : QueueCall T → List ℕ
  | prepare level => level :: prepared
  | move _ _ newLevel => newLevel :: prepared
  | _ => prepared

/-- The levels of the call exist, and it pushes to a level that is prepared. -/
def Proper (N : ℕ) (prepared : List ℕ) : QueueCall T → Prop
  | prepare level | remove level _ | rotate level | popFirstBetter level => level < N
  | pushFront level _ | pushBack level _ => level ∈ prepared
  | move _ oldLevel newLevel => oldLevel < N ∧ newLevel < N
  | popFirst | getFirst => True

/-- A search below a level meets a queue that holds something, or a prepared level to stop at. -/
def SearchStops (lanes : Lanes T) (prepared : List ℕ) : QueueCall T → Prop
  | popFirstBetter level => (∃ i < level, lanes i ≠ []) ∨ ∃ i ∈ prepared, level ≤ i
  | _ => True

end QueueCall

section Runs

variable {T : Type} [DecidableEq T] (N : ℕ)

/-- Every call of a run is proper. -/
def ProperRun (prepared : List ℕ) : List (QueueCall T) → Prop
  | [] => True
  | call :: calls => call.Proper N prepared ∧ ProperRun (call.prepares prepared) calls

/-- Every search of a run stops. -/
def SearchesStop (lanes : Lanes T) (prepared : List ℕ) : List (QueueCall T) → Prop
  | [] => True
  | call :: calls => call.SearchStops lanes prepared ∧
      SearchesStop (call.onLanes N lanes).2 (call.prepares prepared) calls

variable {N}

/-- From a pointer on, the chain runs through these levels and comes to its end. -/
def ChainVisits (q : ThreadQueueList T N) : QueuePtr → List ℕ → Prop
  | ptr, [] => ptr = .null
  | ptr, i :: levels => ptr = .level i ∧ ChainVisits q (q.queues i).nextNonempty levels

/-- The list holds these queues, and its chain visits the prepared levels in ascending order. -/
structure Represents (q : ThreadQueueList T N) (lanes : Lanes T) (prepared : List ℕ) : Prop where
  chain : ∃ levels, levels.Pairwise (· < ·) ∧ (∀ i, i ∈ levels ↔ i ∈ prepared) ∧
    ChainVisits q q.first levels
  lanes : ∀ i, q.lane i = lanes i

/-- All along a run the list holds the queues, and every call returns what it means on them. -/
def RefinesQueues (q : ThreadQueueList T N) (lanes : Lanes T) (prepared : List ℕ) :
    List (QueueCall T) → Prop
  | [] => Represents q lanes prepared
  | call :: calls => Represents q lanes prepared ∧
      ∃ q', call.perform q = .ok ((call.onLanes N lanes).1, q') ∧
        RefinesQueues q' (call.onLanes N lanes).2 (call.prepares prepared) calls

end Runs

end Borked3DS.Interface
