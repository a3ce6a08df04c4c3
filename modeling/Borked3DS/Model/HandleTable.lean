import Mathlib.Logic.Function.Basic
import Borked3DS.Model.Basic

/-!
# The handle table

`handle_table.cpp`. The objects are of any type; which thread and process the pseudo handles stand
for is an argument.
-/

set_option autoImplicit false

namespace Borked3DS.Model

/-- `KernelHandle::CurrentThread`. -/
def CurrentThread : ℕ := 0xFFFF8000

/-- `KernelHandle::CurrentProcess`. -/
def CurrentProcess : ℕ := 0xFFFF8001

/-- `HandleTable`. The generation of a slot in use is kept where a free one keeps the index of the
next. -/
structure HandleTable (Obj : Type) where
  objects : ℕ → Option Obj
  generations : ℕ → ℕ
  nextGeneration : ℕ
  nextFreeSlot : ℕ

namespace HandleTable

variable {Obj : Type}

def MAX_COUNT : ℕ := 4096

/-- `GetSlot`: the slot field of a handle, cut to 16 bits by the type of the result. -/
def getSlot (handle : ℕ) : ℕ := (handle >>> 15) % 2 ^ 16

/-- `GetGeneration`. -/
def getGeneration (handle : ℕ) : ℕ := handle &&& 0x7FFF

/-- `Clear`. The generation counter goes on. -/
def clear (t : HandleTable Obj) : HandleTable Obj :=
  { t with objects := fun _ => none, generations := fun i => i + 1, nextFreeSlot := 0 }

/-- The constructor. -/
def init : HandleTable Obj := clear ⟨fun _ => none, fun _ => 0, 1, 0⟩

/-- `Create`.
SOURCE: handle_table.cpp:36-58 -/
def create (t : HandleTable Obj) (obj : Obj) : ResultVal (ℕ × HandleTable Obj) :=
  let slot := t.nextFreeSlot
  if slot < MAX_COUNT then
    let generation := t.nextGeneration
    let nextGeneration := if 2 ^ 15 ≤ generation + 1 then 1 else generation + 1
    .ok (generation ||| slot <<< 15,
      { objects := Function.update t.objects slot (some obj)
        generations := Function.update t.generations slot generation
        nextGeneration := nextGeneration
        nextFreeSlot := t.generations slot })
  else .error .outOfHandles

/-- `IsValid`. -/
def isValid (t : HandleTable Obj) (handle : ℕ) : Bool :=
  getSlot handle < MAX_COUNT && (t.objects (getSlot handle)).isSome &&
    t.generations (getSlot handle) = getGeneration handle

/-- `GetGeneric`. -/
def getGeneric (t : HandleTable Obj) (currentThread currentProcess : Option Obj) (handle : ℕ) :
    Option Obj :=
  if handle = CurrentThread then currentThread
  else if handle = CurrentProcess then currentProcess
  else if t.isValid handle then t.objects (getSlot handle)
  else none

/-- `Duplicate`. -/
def duplicate (t : HandleTable Obj) (currentThread currentProcess : Option Obj) (handle : ℕ) :
    ResultVal (ℕ × HandleTable Obj) :=
  match t.getGeneric currentThread currentProcess handle with
  | none => .error .invalidHandle
  | some object => t.create object

/-- `Close`.
SOURCE: handle_table.cpp:66-75 -/
def close (t : HandleTable Obj) (handle : ℕ) : ResultVal (HandleTable Obj) :=
  if t.isValid handle then
    let slot := getSlot handle
    .ok { t with
      objects := Function.update t.objects slot none
      generations := Function.update t.generations slot t.nextFreeSlot
      nextFreeSlot := slot }
  else .error .invalidHandle

end HandleTable

end Borked3DS.Model
