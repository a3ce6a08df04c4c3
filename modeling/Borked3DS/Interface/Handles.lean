import Borked3DS.Interface.IpcCommands
import Borked3DS.Library.FreeList
import Borked3DS.Model.HLERequestContext
import Borked3DS.Model.HandleTable

/-!
# What a handle table promises

The calls on a table, and what holds of it after any sequence of them: the free slots form a list,
creation fails exactly when no slot is free, and a handle names one object from its creation until
it is closed, and nothing for a while afterwards.
-/

set_option autoImplicit false

namespace Borked3DS.Interface

open Borked3DS.Library Borked3DS.Model HandleTable

variable {Obj : Type}

/-- The calls that change a table. -/
inductive HandleCall (Obj : Type)
  | create (obj : Obj)
  | duplicate (currentThread currentProcess : Option Obj) (handle : ℕ)
  | close (handle : ℕ)
  | clear

/-- A call: the handle it returns, if it does, and the table it leaves. -/
def HandleCall.exec (t : HandleTable Obj) : HandleCall Obj → Option ℕ × HandleTable Obj
  | .create obj =>
      match t.create obj with
      | .ok (h, t') => (some h, t')
      | .error _ => (none, t)
  | .duplicate ct cp handle =>
      match t.duplicate ct cp handle with
      | .ok (h, t') => (some h, t')
      | .error _ => (none, t)
  | .close handle =>
      match t.close handle with
      | .ok t' => (none, t')
      | .error _ => (none, t)
  | .clear => (none, t.clear)

/-- The table after a sequence of calls. -/
def after (t : HandleTable Obj) : List (HandleCall Obj) → HandleTable Obj
  | [] => t
  | c :: cs => after (c.exec t).2 cs

/-- How many handles a sequence of calls creates. -/
def creations (t : HandleTable Obj) : List (HandleCall Obj) → ℕ
  | [] => 0
  | c :: cs => (if (c.exec t).1.isSome then 1 else 0) + creations (c.exec t).2 cs

/-- A call that closes a handle: all that the table reads of a handle is its lower 31 bits. -/
def HandleCall.Closes (handle : ℕ) : HandleCall Obj → Prop
  | .close h => h % 2 ^ 31 = handle % 2 ^ 31
  | .clear => True
  | _ => False

/-- The handle of a slot in use. -/
def LiveHandle (t : HandleTable Obj) (handle : ℕ) : Prop :=
  ∃ slot < MAX_COUNT, (t.objects slot).isSome ∧ handle = t.generations slot ||| slot <<< 15

/-- What a handle returned for an object promises, of the table before and after its creation. -/
structure HandlePromise (t t' : HandleTable Obj) (obj : Obj) (handle : ℕ) : Prop where
  nonzero : handle ≠ 0
  notPseudo : handle ≠ CurrentThread ∧ handle ≠ CurrentProcess
  live : LiveHandle t' handle
  distinct : ∀ h, LiveHandle t h → h ≠ handle
  resolves : ∀ calls, (∀ c ∈ calls, ¬ c.Closes handle) →
    ∀ ct cp, (after t' calls).getGeneric ct cp handle = some obj
  stale : ∀ calls c calls', c.Closes handle →
    creations t' (calls ++ c :: calls') ≤ 32766 →
    (after t' (calls ++ c :: calls')).isValid handle = false

/-- What a table promises. -/
structure TablePromise (t : HandleTable Obj) : Prop where
  freeList : FreeList t.generations MAX_COUNT t.nextFreeSlot
    {slot | slot < MAX_COUNT ∧ t.objects slot = none}
  full : ∀ obj, t.create obj = .error .outOfHandles ↔
    ∀ slot < MAX_COUNT, (t.objects slot).isSome
  created : ∀ obj handle t', t.create obj = .ok (handle, t') → HandlePromise t t' obj handle
  duplicated : ∀ ct cp h handle t', t.duplicate ct cp h = .ok (handle, t') →
    ∃ obj, t.getGeneric ct cp h = some obj ∧ HandlePromise t t' obj handle

/-! ## Lookups -/

/-- A call that takes an object out of a slot. -/
def HandleCall.Frees (t : HandleTable Obj) (slot : ℕ) : HandleCall Obj → Prop
  | .close handle => t.isValid handle = true ∧ getSlot handle = slot
  | .clear => True
  | _ => False

/-- The handles that have been returned and whose slots have not been freed since, after one more
call, -/
def HandleCall.issues (t : HandleTable Obj) (issued : Set ℕ) (c : HandleCall Obj) : Set ℕ :=
  {handle | (handle ∈ issued ∧ ¬ c.Frees t (getSlot handle)) ∨ (c.exec t).1 = some handle}

/-- and after a sequence of calls. -/
def issuedAfter (t : HandleTable Obj) (issued : Set ℕ) : List (HandleCall Obj) → Set ℕ
  | [] => issued
  | c :: cs => issuedAfter (c.exec t).2 (c.issues t issued) cs

/-- A handle is accepted exactly when it has been issued; one that has not, and is none of the two
that the kernel itself has a meaning for, names nothing. -/
structure LookupRight (t : HandleTable Obj) (issued : Set ℕ) (handle : ℕ) : Prop where
  valid : t.isValid handle = true ↔ handle ∈ issued
  close : handle ∉ issued → ∃ result, t.close handle = .error result
  getGeneric : handle ∉ issued → handle ≠ CurrentThread → handle ≠ CurrentProcess →
    ∀ ct cp, t.getGeneric ct cp handle = none
  duplicate : handle ∉ issued → handle ≠ CurrentThread → handle ≠ CurrentProcess →
    ∀ ct cp, ∃ result, t.duplicate ct cp handle = .error result

/-- The highest bit is not set, or no handle that is issued has the same other bits. -/
def KeepsAllBits (issued : Set ℕ) (handle : ℕ) : Prop := handle < 2 ^ 31 ∨ handle - 2 ^ 31 ∉ issued

end Borked3DS.Interface

/-!
## Handles that are handed over

What becomes of the handles behind a handle descriptor: one that is moved leaves the source, one
that is copied stays there, and the receiver gets one of its own for the same object.
-/

namespace Borked3DS.Interface

open Borked3DS.Library Borked3DS.Library.Touching Borked3DS.Model Borked3DS.Model.IPC
open HandleTable

variable {Proc Obj Mem : Type} (parties : IpcParties Proc Obj Mem)

/-- The handle table of the source, -/
def sourceTable (t : IpcState Proc Obj Mem) : HandleTable Obj :=
  (t.processes parties.src).handleTable

/-- and that of the destination. -/
def destinationTable (t : IpcState Proc Obj Mem) : HandleTable Obj :=
  (t.processes parties.dst).handleTable

/-- Every process has a table that has been worked on by the calls on it. -/
def TablesReached (s : IpcState Proc Obj Mem) : Prop :=
  ∀ p, ∃ calls, (s.processes p).handleTable = after .init calls

/-- A handle with a place in a table: it is no null handle and none of the two that the kernel
itself has a meaning for. -/
structure OwnHandle (table : HandleTable Obj) (handle : ℕ) : Prop where
  notNull : handle ≠ 0
  notPseudo : handle ≠ CurrentThread ∧ handle ≠ CurrentProcess
  valid : table.isValid handle = true

/-- A table has one handle more than before, which names the object. -/
structure FreshHandle (before after : HandleTable Obj) (object : Obj) (handle : ℕ) : Prop where
  fresh : ¬ LiveHandle before handle
  only : ∀ h, LiveHandle after h → LiveHandle before h ∨ h = handle
  live : LiveHandle after handle
  resolves : ∀ ct cp, after.getGeneric ct cp handle = some object

section Translation

variable [DecidableEq Proc] (s : IpcState Proc Obj Mem) (srcAddress dstAddress : ℕ) (reply : Bool)

/-- In the state `t` the handle at `i` behind the descriptor at `j` is translated, which leaves
`t'`. -/
structure TranslatesHandle (j i : ℕ) (t t' : IpcState Proc Obj Mem) : Prop where
  reaches : ∃ t₀, TranslationReaches parties s srcAddress dstAddress reply j t₀ ∧
    Returns (each (translateHandle parties (commandWord parties s srcAddress j)) (i - (j + 1))
      (j + 1)) t₀ () t
  inside : j < commandSize (headerAt parties s srcAddress)
  isHandle : isHandleDescriptor (commandWord parties s srcAddress j)
  behind : j < i ∧ i ≤ j + handleNumberFromDesc (commandWord parties s srcAddress j)
  returns : Returns (translateHandle parties (commandWord parties s srcAddress j) i) t () t'

/-- A descriptor `MoveHandle` for one handle stands behind `j`, and this is its handle. -/
def MovedBehind (j handle : ℕ) : Prop :=
  ∃ k t, TranslationReaches parties s srcAddress dstAddress reply k t ∧ j < k ∧
    k < commandSize (headerAt parties s srcAddress) ∧
    commandWord parties s srcAddress k = MoveHandle ∧
    commandWord parties s srcAddress (k + 1) = handle

/-- What becomes of a handle that is translated from `t` to `t'` in a translation that ends in `u`.
A process that sends to itself can name the fresh handle behind it in the same command; the tables
at the end are spoken of for two processes. -/
structure HandleTransferred (j i : ℕ) (t t' u : IpcState Proc Obj Mem) : Prop where
  word : u.cmdBuf i = t'.cmdBuf i
  fresh : ∃ object,
    (∀ ct cp, (sourceTable parties t).getGeneric ct cp (commandWord parties s srcAddress i) =
      some object) ∧
    FreshHandle (destinationTable parties t) (destinationTable parties t') object (t'.cmdBuf i) ∧
    (parties.src ≠ parties.dst →
      ∀ ct cp, (destinationTable parties u).getGeneric ct cp (u.cmdBuf i) = some object)
  moved : getDescriptorType (commandWord parties s srcAddress j) = .moveHandle →
    (sourceTable parties t').isValid (commandWord parties s srcAddress i) = false ∧
    (parties.src ≠ parties.dst →
      (sourceTable parties u).isValid (commandWord parties s srcAddress i) = false)
  copied : getDescriptorType (commandWord parties s srcAddress j) = .copyHandle →
    (sourceTable parties t').isValid (commandWord parties s srcAddress i) = true ∧
    (parties.src ≠ parties.dst →
      (∀ h, MovedBehind parties s srcAddress dstAddress reply j h →
        h % 2 ^ 31 ≠ commandWord parties s srcAddress i % 2 ^ 31) →
      (sourceTable parties u).isValid (commandWord parties s srcAddress i) = true)

/-- Every handle of its own that the source lists is handed over. -/
def TranslationTransfers (u : IpcState Proc Obj Mem) : Prop :=
  ∀ j i t t', TranslatesHandle parties s srcAddress dstAddress reply j i t t' →
    OwnHandle (sourceTable parties t) (commandWord parties s srcAddress i) →
    HandleTransferred parties s srcAddress dstAddress reply j i t t' u

/-- Where such a handle stands behind a descriptor that moves, this is the descriptor `MoveHandle`
for one handle; and a process that sends to itself is not at the creation that gives the handle
anew. -/
def MovesOneByOne : Prop :=
  ∀ j i t t', TranslatesHandle parties s srcAddress dstAddress reply j i t t' →
    OwnHandle (sourceTable parties t) (commandWord parties s srcAddress i) →
    getDescriptorType (commandWord parties s srcAddress j) = .moveHandle →
    commandWord parties s srcAddress j = MoveHandle ∧
      (parties.src = parties.dst → (sourceTable parties t).nextGeneration ≠
        getGeneration (commandWord parties s srcAddress i))

end Translation

section Request

open HLERequestContext

variable [DecidableEq Proc] (s : IpcState Proc Obj Mem) (srcCmdbuf : ℕ → ℕ)

/-- The loop of `PopulateFromIncomingCommandBuffer` comes to an index in a state. -/
def RequestReaches (j : ℕ) (t : IpcState Proc Obj Mem) : Prop :=
  let header := srcCmdbuf 0
  Reaches (commandSize header) (populateDescriptor parties srcCmdbuf (commandSize header))
    (untranslatedSize header) (copyIncoming srcCmdbuf (untranslatedSize header) s) j t

/-- In the state `t` the handle at `i` behind the descriptor at `j` is taken out of a request, which
leaves `t'`. The descriptor itself is copied first. -/
structure PopulatesHandle (j i : ℕ) (t t' : IpcState Proc Obj Mem) : Prop where
  reaches : ∃ t₀, RequestReaches parties s srcCmdbuf j t₀ ∧
    Returns (each (populateHandle parties srcCmdbuf (srcCmdbuf j)) (i - (j + 1)) (j + 1))
      { t₀ with cmdBuf := Function.update t₀.cmdBuf j (srcCmdbuf j) } () t
  inside : j < commandSize (srcCmdbuf 0)
  isHandle : isHandleDescriptor (srcCmdbuf j)
  behind : j < i ∧ i ≤ j + handleNumberFromDesc (srcCmdbuf j)
  returns : Returns (populateHandle parties srcCmdbuf (srcCmdbuf j) i) t () t'

/-- A descriptor `MoveHandle` for one handle stands behind `j`, and this is its handle. -/
def MovedBehindInRequest (j handle : ℕ) : Prop :=
  ∃ k t, RequestReaches parties s srcCmdbuf k t ∧ j < k ∧ k < commandSize (srcCmdbuf 0) ∧
    srcCmdbuf k = MoveHandle ∧ srcCmdbuf (k + 1) = handle

/-- What becomes of a handle that is taken out of a request from `t` to `t'`, in a call that ends in
`u`: the context has one object more, and its index is the word in `cmd_buf`. -/
structure HandlePopulated (j i : ℕ) (t t' u : IpcState Proc Obj Mem) : Prop where
  fresh : ∃ object,
    (∀ ct cp, (sourceTable parties t).getGeneric ct cp (srcCmdbuf i) = some object) ∧
    t'.requestHandles = t.requestHandles ++ [some object] ∧
    u.cmdBuf i = t.requestHandles.length ∧
    u.requestHandles[u.cmdBuf i]? = some (some object)
  moved : getDescriptorType (srcCmdbuf j) = .moveHandle →
    (sourceTable parties t').isValid (srcCmdbuf i) = false ∧
    (sourceTable parties u).isValid (srcCmdbuf i) = false
  copied : getDescriptorType (srcCmdbuf j) = .copyHandle →
    (sourceTable parties t').isValid (srcCmdbuf i) = true ∧
    ((∀ h, MovedBehindInRequest parties s srcCmdbuf j h → h % 2 ^ 31 ≠ srcCmdbuf i % 2 ^ 31) →
      (sourceTable parties u).isValid (srcCmdbuf i) = true)

/-- Every handle of its own that the source lists is handed over. -/
def RequestTransfers (u : IpcState Proc Obj Mem) : Prop :=
  ∀ j i t t', PopulatesHandle parties s srcCmdbuf j i t t' →
    OwnHandle (sourceTable parties t) (srcCmdbuf i) →
    HandlePopulated parties s srcCmdbuf j i t t' u

/-- Where such a handle stands behind a descriptor that moves, this is the descriptor `MoveHandle`
for one handle. -/
def RequestMovesOneByOne : Prop :=
  ∀ j i t t', PopulatesHandle parties s srcCmdbuf j i t t' →
    OwnHandle (sourceTable parties t) (srcCmdbuf i) →
    getDescriptorType (srcCmdbuf j) = .moveHandle → srcCmdbuf j = MoveHandle

end Request

end Borked3DS.Interface
