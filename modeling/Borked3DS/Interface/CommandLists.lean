import Borked3DS.Model.PicaCore

/-!
# Command lists and their bounds

The GPU is given command lists, and handles each of them a word or a command at a time. Which words
it handles without leaving the list, a table or the queue of packed words, and when it is done with
a list.
-/

set_option autoImplicit false

namespace Borked3DS.Interface

open Borked3DS.Library Borked3DS.Model

/-- A list that is submitted, or a round of the loops of `ProcessCmdList`. -/
inductive GpuTurn
  | submit (list size : ℕ) (ignoreList : Bool)
  | pass

/-- The turn of the GPU. A list is only submitted when the last one is done. -/
def gpuStep (render : PicaEvent → PicaCore → Rendered) (l : CommandLoop) :
    GpuTurn → Exec CommandLoop
  | .submit list size ignoreList =>
      if l.Finished then pure (CommandLoop.begin l.core list size ignoreList) else pure l
  | .pass => if l.Finished then pure l else l.pass render

/-- No list is under way, and no words of a vector are. -/
structure IsIdle (l : CommandLoop) : Prop where
  finished : l.Finished
  vsQueue : l.core.vsSetup.uniformQueue.index = 0
  gsQueue : l.core.gsSetup.uniformQueue.index = 0
  queue : l.core.immediate.queue.index = 0
  currentAttribute : l.core.immediate.currentAttribute = 0

/-- The current list has so many more words, and its address is known. -/
def HasWords (s : PicaCore) (n : ℕ) : Prop :=
  s.cmdList.head.isSome = true ∧ s.cmdList.currentIndex + n ≤ s.cmdList.length

/-- What a case of the registers needs: the lighting table that `lut_config` names is one of the 24,
and the words that wait for an invalid default attribute are not four already. -/
def CaseFits (s : PicaCore) : RegisterCase → Prop
  | .lutData => bitField 8 5 (s.reg PicaReg.lutConfig) < 24
  | .defaultAttributeValue =>
      s.reg PicaReg.defaultAttributeIndex ≤ 0xF ∨ s.immediate.queue.index < 4
  | _ => True

instance (s : PicaCore) (c : RegisterCase) : Decidable (CaseFits s c) := by
  unfold CaseFits
  split <;> infer_instance

/-- The register is none at all, or what its case needs is there. -/
def RegisterFits (s : PicaCore) (id : ℕ) : Prop := NUM_REGS ≤ id ∨ CaseFits s (registerCase id)

/-- The register that the next round writes. -/
def nextRegister (l : CommandLoop) : ℕ :=
  match l.extra with
  | none =>
      let list := (CommandLoop.alignReadPointer l.core).cmdList
      match list.head with
      | none => 0
      | some head => CommandHeader.cmdId
          ⟨(l.core.memory.word (head + 4 * (list.currentIndex + 1))).toNat⟩
  | some (header, i) => header.cmdId + if header.groupCommands then i + 1 else 0

/-- A command has both of its words in the list, an extra word is one of it, and the register that
is written may be. -/
def PassFits (l : CommandLoop) : Prop :=
  (match l.extra with
    | none => HasWords (CommandLoop.alignReadPointer l.core) 2
    | some _ => HasWords l.core 1) ∧ RegisterFits l.core (nextRegister l)

/-- What a turn needs. -/
def TurnFits (l : CommandLoop) : GpuTurn → Prop
  | .submit _ _ _ => True
  | .pass => l.Finished ∨ PassFits l

/-- The next round goes on to another list. -/
def Jumps (l : CommandLoop) : Prop :=
  ¬ l.Finished ∧ ∃ index, registerCase (nextRegister l) = .commandBufferTrigger index

end Borked3DS.Interface
