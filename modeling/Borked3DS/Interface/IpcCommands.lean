import Borked3DS.Model.HLERequestContext

/-!
# What translating a command promises

The indices that the translators use, and what a command that is refused has done.
-/

set_option autoImplicit false

namespace Borked3DS.Interface

open Borked3DS.Library Borked3DS.Library.Touching Borked3DS.Model Borked3DS.Model.IPC
open Borked3DS.Model.HLERequestContext

/-!
## The indices of a translation

When the three translators of command buffers use no index behind the end of the command. A handle
descriptor is checked against the end before its handles are used; behind a descriptor of another
known kind one word is used without a check.
-/

variable {Proc Obj Mem : Type}

/-- Every index of a command buffer that is used lies within the command. -/
def StaysInCommand {α : Type} (commandSize : ℕ) (x : Ipc Proc Obj Mem α)
    (s : IpcState Proc Obj Mem) : Prop :=
  TouchesOnly (fun c => c.area ≠ .staticBuffers → c.index < commandSize) x s

/-- Whether a descriptor takes the word behind it: in a command of a process, and in a request to
an HLE service. -/
def takesWord (descriptor : ℕ) : Bool :=
  match getDescriptorType descriptor with
  | .callingPid | .staticBuffer | .mappedBuffer => true
  | .copyHandle | .moveHandle | .pxiBuffer | .unnamed => false

/-- Whether one of a reply of an HLE service does: a static buffer that does not fit into the one
set up for it stops the translation before. -/
def replyTakesWord (s : IpcState Proc Obj Mem) (descriptor : ℕ) : Bool :=
  match getDescriptorType descriptor with
  | .mappedBuffer => true
  | .staticBuffer =>
      (s.staticBuffers (staticBufferId descriptor)).length ≤
        staticBufferSize (s.dstCmdbuf (COMMAND_BUFFER_LENGTH + 2 * staticBufferId descriptor))
  | .callingPid | .copyHandle | .moveHandle | .pxiBuffer | .unnamed => false

/-- When the loop over a command comes to a descriptor in its last word, the descriptor does not
take the word behind it. -/
def NoneEndsCommand (takes : IpcState Proc Obj Mem → ℕ → Bool) (words : ℕ → ℕ) (header : ℕ)
    (round : ℕ → Ipc Proc Obj Mem ℕ) (s : IpcState Proc Obj Mem) : Prop :=
  ∀ t, Reaches (commandSize header) round (untranslatedSize header) s (commandSize header - 1) t →
    takes t (words (commandSize header - 1)) = false

variable [DecidableEq Proc] (parties : IpcParties Proc Obj Mem) (s : IpcState Proc Obj Mem)

/-- `TranslateCommandBuffer` comes to no descriptor at the end that takes a word. -/
def TranslationFits (srcAddress dstAddress : ℕ) (reply : Bool) : Prop :=
  let header := headerAt parties s srcAddress
  let fetched := fetchCommand parties s srcAddress (commandSize header)
  NoneEndsCommand (fun _ => takesWord) fetched.cmdBuf header
    (translateDescriptor parties reply dstAddress (commandSize header)) fetched

/-- Neither does `PopulateFromIncomingCommandBuffer`. -/
def RequestFits (srcCmdbuf : ℕ → ℕ) : Prop :=
  let header := srcCmdbuf 0
  NoneEndsCommand (fun _ => takesWord) srcCmdbuf header
    (populateDescriptor parties srcCmdbuf (commandSize header))
    (copyIncoming srcCmdbuf (untranslatedSize header) s)

/-- Neither does `WriteToOutgoingCommandBuffer`. -/
def ReplyFits : Prop :=
  let header := s.cmdBuf 0
  NoneEndsCommand replyTakesWord s.cmdBuf header (writeDescriptor parties (commandSize header))
    (copyOutgoing (untranslatedSize header) s)

end Borked3DS.Interface

/-!
## What a command that is refused has done

A command is refused when the loop of `TranslateCommandBuffer` comes to a descriptor with more
handles than the command has words left. The descriptors in front of it have been translated by
then.
-/

namespace Borked3DS.Interface

open Borked3DS.Library Borked3DS.Library.Touching Borked3DS.Model Borked3DS.Model.IPC

variable {Proc Obj Mem : Type} [DecidableEq Proc] (parties : IpcParties Proc Obj Mem)
  (s : IpcState Proc Obj Mem)

/-- The loop of `TranslateCommandBuffer` comes to an index in a state. -/
def TranslationReaches (srcAddress dstAddress : ℕ) (reply : Bool) (j : ℕ)
    (t : IpcState Proc Obj Mem) : Prop :=
  let header := headerAt parties s srcAddress
  Reaches (commandSize header) (translateDescriptor parties reply dstAddress (commandSize header))
    (untranslatedSize header) (fetchCommand parties s srcAddress (commandSize header)) j t

/-- The words of the command, as they are read from the source. -/
def commandWord (srcAddress j : ℕ) : ℕ :=
  (fetchCommand parties s srcAddress (commandSize (headerAt parties s srcAddress))).cmdBuf j

/-- In the state `t` the loop comes to the descriptor at `j`, and the call returns there: the
descriptor is read only, so that `t` is the state that is left. -/
structure RefusesAt (srcAddress dstAddress : ℕ) (reply : Bool) (j : ℕ)
    (t : IpcState Proc Obj Mem) (result : Result) : Prop where
  reaches : TranslationReaches parties s srcAddress dstAddress reply j t
  inside : j < commandSize (headerAt parties s srcAddress)
  returns : Stops (translateDescriptor parties reply dstAddress
    (commandSize (headerAt parties s srcAddress)) j) t (.returns result)

/-- A descriptor that the loop has translated in front of an index. -/
def InFront (srcAddress dstAddress : ℕ) (reply : Bool) (j descriptor : ℕ) : Prop :=
  ∃ k t, TranslationReaches parties s srcAddress dstAddress reply k t ∧ k < j ∧
    commandWord parties s srcAddress k = descriptor

/-- A descriptor of handles. -/
def isHandleDescriptor (descriptor : ℕ) : Prop :=
  getDescriptorType descriptor = .copyHandle ∨ getDescriptorType descriptor = .moveHandle

/-- A descriptor of a mapped buffer that is not empty. -/
def mapsBuffer (descriptor : ℕ) : Prop :=
  getDescriptorType descriptor = .mappedBuffer ∧ mappedBufferSize descriptor ≠ 0

/-- Nothing that belongs to the two processes or to the session is another in `t`: the handle
tables, the address space of the destination, its command buffer (the memory is the same and is seen
through the same pages) and the mapped buffers. -/
structure SameForParties (t : IpcState Proc Obj Mem) : Prop where
  srcTable : (t.processes parties.src).handleTable = (s.processes parties.src).handleTable
  dstTable : (t.processes parties.dst).handleTable = (s.processes parties.dst).handleTable
  addressSpace : (t.processes parties.dst).vmManager = (s.processes parties.dst).vmManager
  memory : t.memory = s.memory
  mappedBufferContext : t.mappedBufferContext = s.mappedBufferContext

/-- A part of what belongs to them changes only through descriptors of the kind that works on it. -/
structure RefusalEffects (inFront : ℕ → Prop) (t : IpcState Proc Obj Mem) : Prop where
  handleTables : (∀ d, inFront d → ¬ isHandleDescriptor d) →
    ∀ p, (t.processes p).handleTable = (s.processes p).handleTable
  srcTable : parties.src ≠ parties.dst → (∀ d, inFront d → d ≠ MoveHandle) →
    (t.processes parties.src).handleTable = (s.processes parties.src).handleTable
  addressSpaces : (∀ d, inFront d → ¬ mapsBuffer d) →
    (∀ p, (t.processes p).vmManager = (s.processes p).vmManager) ∧
      t.mappedBufferContext = s.mappedBufferContext
  memory : (∀ d, inFront d → getDescriptorType d ≠ .staticBuffer ∧ ¬ mapsBuffer d) →
    t.memory = s.memory

end Borked3DS.Interface
