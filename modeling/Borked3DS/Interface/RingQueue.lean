import Borked3DS.Library.RingBuffer
import Borked3DS.Model.RingBuffer

/-!
# What a ring buffer promises

Whatever order the steps of the two threads come in, what is popped is what was pushed, in order,
and what is still in the buffer is there untouched.
-/

set_option autoImplicit false

namespace Borked3DS.Interface

open Borked3DS.Library Borked3DS.Model.Ring

variable {T : Type} {c : RingConfig}

/-- A buffer that no thread has used yet. -/
def ringStart (data : ℕ → T) (pushes : List (PushCall c T)) (pops : List ℕ) : RingSystem c T where
  buffer := { data := data }
  pushes := pushes
  pops := pops

/-- The slots that have been pushed, and those that have been popped. -/
def RingStored (s : RingSystem c T) (pushed popped : ℕ) : Prop :=
  s.pushed.length = pushed * c.granularity ∧ s.popped.length = popped * c.granularity

/-- What is popped is the beginning of what is pushed, no more slots are stored than there are, and
those that are stored lie in the array as they were pushed. -/
structure RingLossless (s : RingSystem c T) : Prop where
  inOrder : s.popped <+: s.pushed
  stored : ∃ pushed popped, RingStored s pushed popped ∧ popped ≤ pushed ∧
    pushed - popped ≤ c.capacity ∧ s.buffer.usedSlots c = pushed - popped
  untouched : ringContents c.size s.buffer.data s.popped.length
    (s.pushed.length - s.popped.length) = s.pushed.drop s.popped.length

end Borked3DS.Interface
