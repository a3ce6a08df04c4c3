import Mathlib.Data.Nat.Notation
import Borked3DS.Library.CheckedList
import Borked3DS.Model.Basic

/-!
# The ring buffer

`RingBuffer` of `ring_buffer.h`, between one thread that pushes and one that pops. A call loads the
two indices, copies in two pieces and stores its own index, and the steps of the two threads may
interleave in any way. The indices run freely and wrap with the words that they are.
-/

set_option autoImplicit false

namespace Borked3DS.Model.Ring

open Borked3DS.Library

/-- The template arguments, with what is asserted about them, and the bits of a `std::size_t`.
SOURCE: ring_buffer.h:25-35 -/
structure RingConfig where
  bits : ℕ
  capacityLog : ℕ
  granularity : ℕ
  granularity_pos : 0 < granularity
  capacity_lt : 2 ^ capacityLog < (2 ^ bits - 1) / 2 / granularity

/-- A power of two. -/
def RingConfig.capacity (c : RingConfig) : ℕ := 2 ^ c.capacityLog

/-- The elements of the array. -/
def RingConfig.size (c : RingConfig) : ℕ := c.granularity * c.capacity

/-- Arithmetic of `std::size_t`. -/
def RingConfig.word (c : RingConfig) (x : ℕ) : ℕ := x % 2 ^ c.bits

/-- A difference of `std::size_t`s. -/
def RingConfig.wordSub (c : RingConfig) (x y : ℕ) : ℕ := c.word (x + 2 ^ c.bits - y)

section Array

variable {T : Type} (c : RingConfig)

/-- `std::memcpy` into the array. -/
def copyIn (data : ℕ → T) (offset : ℕ) (xs : List T) : Exec (ℕ → T) :=
  if offset + xs.length ≤ c.size then
    .ok fun i => if offset ≤ i then xs.getD (i - offset) (data i) else data i
  else .error .undefined

/-- `std::memcpy` out of the array. -/
def copyOut (data : ℕ → T) (offset n : ℕ) : Exec (List T) :=
  if offset + n ≤ c.size then .ok ((List.range n).map fun i => data (offset + i))
  else .error .undefined

end Array

/-- SOURCE: ring_buffer.h:120-128 -/
structure RingBuffer (T : Type) where
  readIndex : ℕ := 0
  writeIndex : ℕ := 0
  data : ℕ → T

/-- The arguments of a `Push`. The caller has as many slots as it says. -/
structure PushCall (c : RingConfig) (T : Type) where
  newSlots : List T
  slotCount : ℕ
  enough : slotCount * c.granularity ≤ newSlots.length

/-- Where the thread that pushes is in a call. -/
inductive Pushing
  | idle
  | loaded (writeIndex : ℕ)
  | counted (writeIndex pushCount : ℕ)
  | copiedFirst (writeIndex pushCount : ℕ)
  | copiedSecond (writeIndex pushCount : ℕ)
  deriving DecidableEq

/-- Where the thread that pops is in a call, and what it has copied out. -/
inductive Popping (T : Type)
  | idle
  | loaded (readIndex : ℕ)
  | counted (readIndex popCount : ℕ)
  | copiedFirst (readIndex popCount : ℕ) (out : List T)
  | copiedSecond (readIndex popCount : ℕ) (out : List T)
  deriving DecidableEq

/-- The buffer with its two threads, the calls that they have still to make, and all elements that
have been pushed and popped. -/
structure RingSystem (c : RingConfig) (T : Type) where
  buffer : RingBuffer T
  pushing : Pushing := .idle
  popping : Popping T := .idle
  pushes : List (PushCall c T)
  pops : List ℕ
  pushed : List T := []
  popped : List T := []

/-- The threads. -/
inductive RingThread
  | producer | consumer
  deriving DecidableEq

section Steps

variable {T : Type} {c : RingConfig}

/-- `first_copy`. -/
def RingConfig.firstCopy (c : RingConfig) (index count : ℕ) : ℕ :=
  min (c.capacity - index % c.capacity) count

/-- The next atomic step of a call of `Push`.
SOURCE: ring_buffer.h:39-58 -/
def pushStep (s : RingSystem c T) (call : PushCall c T) : Exec (RingSystem c T) :=
  match s.pushing with
  | .idle => .ok { s with pushing := .loaded s.buffer.writeIndex }
  | .loaded writeIndex =>
      let slotsFree := c.wordSub (c.capacity + s.buffer.readIndex) writeIndex
      .ok { s with pushing := .counted writeIndex (min call.slotCount slotsFree) }
  | .counted writeIndex pushCount => do
      let pos := writeIndex % c.capacity
      let firstCopy := c.firstCopy writeIndex pushCount
      let chunk ← readRun .undefined call.newSlots 0 (firstCopy * c.granularity)
      let data ← copyIn c s.buffer.data (pos * c.granularity) chunk
      pure { s with
        buffer := { s.buffer with data := data }, pushing := .copiedFirst writeIndex pushCount }
  | .copiedFirst writeIndex pushCount => do
      let firstCopy := c.firstCopy writeIndex pushCount
      let secondCopy := pushCount - firstCopy
      let chunk ← readRun .undefined call.newSlots (firstCopy * c.granularity)
        (secondCopy * c.granularity)
      let data ← copyIn c s.buffer.data 0 chunk
      pure { s with
        buffer := { s.buffer with data := data }, pushing := .copiedSecond writeIndex pushCount }
  | .copiedSecond writeIndex pushCount =>
      .ok { s with
        buffer := { s.buffer with writeIndex := c.word (writeIndex + pushCount) }
        pushing := .idle
        pushes := s.pushes.tail
        pushed := s.pushed ++ call.newSlots.take (pushCount * c.granularity) }

/-- The next atomic step of a call of `Pop`.
SOURCE: ring_buffer.h:68-88 -/
def popStep (s : RingSystem c T) (maxSlots : ℕ) : Exec (RingSystem c T) :=
  match s.popping with
  | .idle => .ok { s with popping := .loaded s.buffer.readIndex }
  | .loaded readIndex =>
      let slotsFilled := c.wordSub s.buffer.writeIndex readIndex
      .ok { s with popping := .counted readIndex (min slotsFilled maxSlots) }
  | .counted readIndex popCount => do
      let pos := readIndex % c.capacity
      let firstCopy := c.firstCopy readIndex popCount
      let out ← copyOut c s.buffer.data (pos * c.granularity) (firstCopy * c.granularity)
      pure { s with popping := .copiedFirst readIndex popCount out }
  | .copiedFirst readIndex popCount out => do
      let secondCopy := popCount - c.firstCopy readIndex popCount
      let rest ← copyOut c s.buffer.data 0 (secondCopy * c.granularity)
      pure { s with popping := .copiedSecond readIndex popCount (out ++ rest) }
  | .copiedSecond readIndex popCount out =>
      .ok { s with
        buffer := { s.buffer with readIndex := c.word (readIndex + popCount) }
        popping := .idle
        pops := s.pops.tail
        popped := s.popped ++ out }

/-- A thread takes its next step, if it has a call to make. -/
def RingSystem.step (s : RingSystem c T) : RingThread → Exec (RingSystem c T)
  | .producer =>
      match s.pushes with
      | [] => .ok s
      | call :: _ => pushStep s call
  | .consumer =>
      match s.pops with
      | [] => .ok s
      | maxSlots :: _ => popStep s maxSlots

/-- `Size`, where both indices are loaded at once.
SOURCE: ring_buffer.h:98-100 -/
def RingBuffer.usedSlots (c : RingConfig) (buffer : RingBuffer T) : ℕ :=
  c.wordSub buffer.writeIndex buffer.readIndex

end Steps

end Borked3DS.Model.Ring
