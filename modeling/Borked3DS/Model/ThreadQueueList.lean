import Mathlib.Logic.Function.Basic
import Borked3DS.Model.Basic

/-!
# The thread queue list

`thread_queue_list.h`: one queue for each priority level, and a chain through the levels that
have ever been used, from the best one on. A pointer to a queue is its level.
-/

set_option autoImplicit false

namespace Borked3DS.Model

open Borked3DS.Library

/-- A `Queue*`: `UnlinkedTag()`, `nullptr`, or the queue of a level. -/
inductive QueuePtr
  | unlinked
  | null
  | level (i : ℕ)
  deriving DecidableEq, Repr

/-- `ThreadQueueList::Queue`. -/
structure Queue (T : Type) where
  nextNonempty : QueuePtr := .unlinked
  data : List T := []

/-- `ThreadQueueList<T, N>`. -/
structure ThreadQueueList (T : Type) (N : ℕ) where
  first : QueuePtr := .null
  queues : ℕ → Queue T := fun _ => {}

namespace ThreadQueueList

variable {T : Type} {N : ℕ}

/-- The data of a level's queue. -/
def lane (q : ThreadQueueList T N) (i : ℕ) : List T := (q.queues i).data

/-- The queue of a level with other data. -/
def setData (q : ThreadQueueList T N) (i : ℕ) (data : List T) : ThreadQueueList T N :=
  { q with queues := Function.update q.queues i { q.queues i with data := data } }

/-- The queue of a level with another link. -/
def setNext (q : ThreadQueueList T N) (i : ℕ) (next : QueuePtr) : ThreadQueueList T N :=
  { q with queues := Function.update q.queues i { q.queues i with nextNonempty := next } }

/-- Indexing the array of queues: undefined past its end. -/
def index (i : ℕ) : Exec Unit := if i < N then pure () else .error .undefined

/-- The loop of `get_first`. The chain never runs twice through a level, so the number of levels
is enough fuel, here and below. -/
def getFirstFrom (q : ThreadQueueList T N) : ℕ → QueuePtr → Exec (Option T)
  | 0, _ => .error .undefined
  | fuel + 1, cur =>
      match cur with
      | .null => pure none
      | .unlinked => .error .undefined
      | .level i =>
          match (q.queues i).data with
          | x :: _ => pure (some x)
          | [] => getFirstFrom q fuel (q.queues i).nextNonempty

/-- `get_first`. -/
def getFirst (q : ThreadQueueList T N) : Exec (Option T) := q.getFirstFrom (N + 1) q.first

/-- The loop of `pop_first`. -/
def popFirstFrom (q : ThreadQueueList T N) : ℕ → QueuePtr → Exec (Option T × ThreadQueueList T N)
  | 0, _ => .error .undefined
  | fuel + 1, cur =>
      match cur with
      | .null => pure (none, q)
      | .unlinked => .error .undefined
      | .level i =>
          match (q.queues i).data with
          | x :: rest => pure (some x, q.setData i rest)
          | [] => popFirstFrom q fuel (q.queues i).nextNonempty

/-- `pop_first`.
SOURCE: thread_queue_list.h:56-67 -/
def popFirst (q : ThreadQueueList T N) : Exec (Option T × ThreadQueueList T N) :=
  q.popFirstFrom (N + 1) q.first

/-- The loop of `pop_first_better`: the null pointer compares below the queue it stops at, and is
dereferenced. -/
def popFirstBetterFrom (q : ThreadQueueList T N) (priority : ℕ) :
    ℕ → QueuePtr → Exec (Option T × ThreadQueueList T N)
  | 0, _ => .error .undefined
  | fuel + 1, cur =>
      match cur with
      | .null => .error .undefined
      | .unlinked => .error .undefined
      | .level i =>
          if i < priority then
            match (q.queues i).data with
            | x :: rest => pure (some x, q.setData i rest)
            | [] => popFirstBetterFrom q priority fuel (q.queues i).nextNonempty
          else pure (none, q)

/-- `pop_first_better`.
SOURCE: thread_queue_list.h:69-82 -/
def popFirstBetter (q : ThreadQueueList T N) (priority : ℕ) :
    Exec (Option T × ThreadQueueList T N) := do
  index (N := N) priority
  q.popFirstBetterFrom priority (N + 1) q.first

/-- `push_front`. -/
def pushFront (q : ThreadQueueList T N) (priority : ℕ) (x : T) : Exec (ThreadQueueList T N) := do
  index (N := N) priority
  pure (q.setData priority (x :: (q.queues priority).data))

/-- `push_back`. -/
def pushBack (q : ThreadQueueList T N) (priority : ℕ) (x : T) : Exec (ThreadQueueList T N) := do
  index (N := N) priority
  pure (q.setData priority ((q.queues priority).data ++ [x]))

/-- `remove`. -/
def remove [DecidableEq T] (q : ThreadQueueList T N) (priority : ℕ) (x : T) :
    Exec (ThreadQueueList T N) := do
  index (N := N) priority
  pure (q.setData priority ((q.queues priority).data.filter fun y => decide (y ≠ x)))

/-- `rotate`. -/
def rotate (q : ThreadQueueList T N) (priority : ℕ) : Exec (ThreadQueueList T N) := do
  index (N := N) priority
  match (q.queues priority).data with
  | x :: y :: rest => pure (q.setData priority (y :: rest ++ [x]))
  | _ => pure q

/-- The loop of `link`: the nearest linked level below a priority. -/
def linkedBelow (q : ThreadQueueList T N) : ℕ → Option ℕ
  | 0 => none
  | i + 1 => if (q.queues i).nextNonempty ≠ .unlinked then some i else linkedBelow q i

/-- `link`.
SOURCE: thread_queue_list.h:145-158 -/
def link (q : ThreadQueueList T N) (priority : ℕ) : ThreadQueueList T N :=
  match q.linkedBelow priority with
  | some i => (q.setNext priority (q.queues i).nextNonempty).setNext i (.level priority)
  | none => { q.setNext priority q.first with first := .level priority }

/-- `prepare`. -/
def prepare (q : ThreadQueueList T N) (priority : ℕ) : Exec (ThreadQueueList T N) := do
  index (N := N) priority
  pure (if (q.queues priority).nextNonempty = .unlinked then q.link priority else q)

/-- `move`.
SOURCE: thread_queue_list.h:94-98 -/
def move [DecidableEq T] (q : ThreadQueueList T N) (x : T) (oldPriority newPriority : ℕ) :
    Exec (ThreadQueueList T N) := do
  let q ← q.remove oldPriority x
  let q ← q.prepare newPriority
  q.pushBack newPriority x

end ThreadQueueList

end Borked3DS.Model
