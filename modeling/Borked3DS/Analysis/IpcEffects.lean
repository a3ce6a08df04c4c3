import Borked3DS.Analysis.IpcBounds
import Borked3DS.Interface.Handles
import Borked3DS.Interface.IpcCommands

/-!
# What the descriptors of a command change

What a round of the loop leaves alone, depending on the descriptor it stands on, and from it what a
command that is refused leaves alone.
-/

set_option autoImplicit false

namespace Borked3DS.Analysis

open Borked3DS.Library Borked3DS.Library.Touching Borked3DS.Model Borked3DS.Model.IPC
open Borked3DS.Model.Ipc Borked3DS.Interface

variable {Proc Obj Mem : Type}

/-! ## Parts of the state -/

/-- The handle tables of all processes. -/
def tables (s : IpcState Proc Obj Mem) (p : Proc) : HandleTable Obj := (s.processes p).handleTable

/-- The address spaces, the memory and the mapped buffers. -/
def memories (s : IpcState Proc Obj Mem) :
    (Proc → VMManager) × Mem × List MappedBufferContext :=
  (fun p => (s.processes p).vmManager, s.memory, s.mappedBufferContext)

section Parts

variable {ω : Type} {view : IpcState Proc Obj Mem → ω} {i word : ℕ}

theorem preserves_writeCmdBuf_of
    (h : ∀ s words, view { s with cmdBuf := words } = view s) :
    Preserves view (writeCmdBuf i word : Ipc Proc Obj Mem Unit) :=
  (Preserves.touch _).bind fun _ => Preserves.modify fun s => h s _

variable [DecidableEq Proc]

/-- Another handle table of a process leaves the memories alone, -/
theorem preserves_memories_table {process : Proc} {f : IpcProcess Obj → IpcProcess Obj}
    (h : ∀ p, (f p).vmManager = p.vmManager) :
    Preserves memories (modifyProcess process f : Ipc Proc Obj Mem Unit) := by
  apply Preserves.modify
  intro s
  unfold memories
  dsimp only
  congr 1
  funext p
  by_cases hp : p = process
  · subst hp
    rw [Function.update_self, h]
  · rw [Function.update_of_ne hp]

/-- and another address space leaves the tables alone. -/
theorem preserves_tables_space {process : Proc} {f : IpcProcess Obj → IpcProcess Obj}
    (h : ∀ p, (f p).handleTable = p.handleTable) :
    Preserves tables (modifyProcess process f : Ipc Proc Obj Mem Unit) := by
  apply Preserves.modify
  intro s
  funext p
  unfold tables
  dsimp only
  by_cases hp : p = process
  · subst hp
    rw [Function.update_self, h]
  · rw [Function.update_of_ne hp]

theorem preserves_memories_closeMoved (process : Proc) (isMoved : Bool) (handle : ℕ) :
    Preserves memories (closeMoved process isMoved handle : Ipc Proc Obj Mem Unit) := by
  apply preserves_memories_table
  intro p
  split
  · split
    · rfl
    · rfl
  · rfl

theorem preserves_memories_createHandle (process : Proc) (object : Obj) :
    Preserves memories (Ipc.createHandle process object : Ipc Proc Obj Mem ℕ) := by
  unfold Ipc.createHandle
  apply Preserves.get.bind
  intro s
  split
  · exact Preserves.stop _
  · refine Preserves.bind (preserves_memories_table fun _ => ?_) fun _ => Preserves.pure _
    rfl

end Parts

/-! ## The rounds -/

section Rounds

variable [DecidableEq Proc] {parties : IpcParties Proc Obj Mem} {descriptor i : ℕ}

theorem preserves_memories_translateHandle :
    Preserves memories (translateHandle parties descriptor i) := by
  unfold translateHandle
  apply preserves_readCmdBuf.bind
  intro handle
  apply Preserves.get.bind
  intro s
  apply (preserves_memories_closeMoved _ _ _).bind
  intro _
  split
  · exact preserves_writeCmdBuf_of fun _ _ => rfl
  · apply (preserves_memories_createHandle _ _).bind
    intro created
    exact preserves_writeCmdBuf_of fun _ _ => rfl

/-- Only the descriptor for one handle closes handles of the source. -/
theorem preserves_srcTable_translateHandle (hne : parties.src ≠ parties.dst)
    (hdescriptor : descriptor ≠ MoveHandle) :
    Preserves (fun s => tables s parties.src) (translateHandle parties descriptor i) := by
  have hclose : ∀ isMoved handle, isMoved = false → Preserves (fun s => tables s parties.src)
      (closeMoved parties.src isMoved handle : Ipc Proc Obj Mem Unit) := by
    rintro isMoved handle rfl
    apply Preserves.modify
    intro s
    unfold tables
    dsimp only
    rw [Function.update_self]
    split
    · rfl
    · rfl
  have hcreate : ∀ object, Preserves (fun s => tables s parties.src)
      (Ipc.createHandle parties.dst object : Ipc Proc Obj Mem ℕ) := by
    intro object
    unfold Ipc.createHandle
    apply Preserves.get.bind
    intro s
    split
    · exact Preserves.stop _
    · refine Preserves.bind (Preserves.modify fun s => ?_) fun _ => Preserves.pure _
      unfold tables
      dsimp only
      rw [Function.update_of_ne hne]
  unfold translateHandle
  apply preserves_readCmdBuf.bind
  intro handle
  apply Preserves.get.bind
  intro s
  apply (hclose _ _ (by simp [hdescriptor])).bind
  intro _
  split
  · exact preserves_writeCmdBuf_of fun _ _ => rfl
  · apply (hcreate _).bind
    intro created
    exact preserves_writeCmdBuf_of fun _ _ => rfl

omit [DecidableEq Proc] in
theorem preserves_exec {ω α : Type} {view : IpcState Proc Obj Mem → ω} (x : Exec α) :
    Preserves view (exec x : Ipc Proc Obj Mem α) := Preserves.lift _

omit [DecidableEq Proc] in
theorem preserves_tables_translateStaticBuffer {dstAddress : ℕ} :
    Preserves tables (translateStaticBuffer parties dstAddress descriptor i) := by
  unfold translateStaticBuffer
  apply preserves_readCmdBuf.bind
  intro address
  apply Preserves.get.bind
  intro s
  apply (preserves_exec _).bind
  intro _
  refine Preserves.bind (Preserves.modify fun _ => ?_) fun _ => ?_
  · rfl
  · exact preserves_writeCmdBuf_of fun _ _ => rfl

omit [DecidableEq Proc] in
/-- A static buffer is written into memory and changes no address space. -/
theorem preserves_spaces_translateStaticBuffer {dstAddress : ℕ} :
    Preserves (fun s => ((memories s).1, (memories s).2.2))
      (translateStaticBuffer parties dstAddress descriptor i) := by
  unfold translateStaticBuffer
  apply preserves_readCmdBuf.bind
  intro address
  apply Preserves.get.bind
  intro s
  apply (preserves_exec _).bind
  intro _
  refine Preserves.bind (Preserves.modify fun _ => ?_) fun _ => ?_
  · rfl
  · exact preserves_writeCmdBuf_of fun _ _ => rfl

theorem preserves_tables_unmapMappedBuffer (start pages : ℕ) :
    Preserves tables (unmapMappedBuffer parties start pages) := by
  unfold unmapMappedBuffer
  apply Preserves.get.bind
  intro s
  dsimp only
  split
  · apply (preserves_exec _).bind
    intro prevVma
    apply (preserves_exec _).bind
    intro nextVma
    apply (preserves_exec _).bind
    intro _
    apply (preserves_exec _).bind
    intro unmapped
    refine Preserves.bind (preserves_tables_space fun _ => ?_) fun _ => ?_
    · rfl
    · exact preserves_exec _
  · exact Preserves.stop _

theorem preserves_tables_returnMappedBuffer (permissions size address : ℕ) :
    Preserves tables (returnMappedBuffer parties permissions size address) := by
  unfold returnMappedBuffer
  apply Preserves.get.bind
  intro s
  split
  · exact Preserves.stop _
  · refine Preserves.bind (Preserves.modify fun _ => ?_) fun _ => ?_
    · rfl
    · apply (preserves_tables_unmapMappedBuffer _ _).bind
      intro _
      exact Preserves.modify fun _ => rfl

theorem preserves_tables_guardPage (address : ℕ) :
    Preserves tables (guardPage parties address) := by
  unfold guardPage
  apply Preserves.get.bind
  intro s
  apply (preserves_exec _).bind
  intro guarded
  refine Preserves.bind (preserves_tables_space fun _ => ?_) fun _ => ?_
  · rfl
  · exact preserves_exec _

theorem preserves_tables_lendMappedBuffer (permissions size address : ℕ) :
    Preserves tables (lendMappedBuffer parties permissions size address) := by
  unfold lendMappedBuffer
  refine Preserves.bind ?_ fun buffer => Preserves.bind ?_ fun _ => ?_
  · unfold makeBuffer
    apply Preserves.get.bind
    intro s
    refine Preserves.bind (Preserves.modify fun _ => ?_) fun _ => ?_
    · rfl
    · exact Preserves.pure _
  · unfold mapBuffer
    apply Preserves.get.bind
    intro s
    apply (preserves_exec _).bind
    intro mapped
    refine Preserves.bind (preserves_tables_space fun _ => ?_) fun _ => ?_
    · rfl
    · split
      · exact Preserves.stop _
      · apply (preserves_tables_guardPage _).bind
        intro _
        apply (preserves_tables_guardPage _).bind
        intro _
        exact Preserves.pure _
  · refine Preserves.bind (Preserves.modify fun _ => ?_) fun _ => ?_
    · rfl
    · exact Preserves.pure _

theorem preserves_tables_translateMappedBuffer {reply : Bool} :
    Preserves tables (translateMappedBuffer parties reply descriptor i) := by
  unfold translateMappedBuffer
  apply preserves_readCmdBuf.bind
  intro address
  dsimp only
  split
  · exact preserves_writeCmdBuf_of fun _ _ => rfl
  · apply (preserves_exec _).bind
    intro _
    split
    · exact preserves_tables_returnMappedBuffer _ _ _
    · apply (preserves_tables_lendMappedBuffer _ _ _).bind
      intro _
      exact preserves_writeCmdBuf_of fun _ _ => rfl

/-- An empty buffer is not mapped. -/
theorem preserves_memories_translateMappedBuffer {reply : Bool}
    (hsize : mappedBufferSize descriptor = 0) :
    Preserves memories (translateMappedBuffer parties reply descriptor i) := by
  unfold translateMappedBuffer
  apply preserves_readCmdBuf.bind
  intro address
  dsimp only
  rw [if_pos hsize]
  exact preserves_writeCmdBuf_of fun _ _ => rfl

/-- A part of the state stays as it is in a round if what the round does behind its descriptor
leaves it alone. -/
theorem kept_translateDescriptor {ω : Type} (view : IpcState Proc Obj Mem → ω) {reply : Bool}
    {dstAddress commandSize j n : ℕ} {t t' : IpcState Proc Obj Mem}
    (hwords : ∀ s words, view { s with cmdBuf := words } = view s)
    (h : Returns (translateDescriptor parties reply dstAddress commandSize j) t n t')
    (hhandle : isHandleDescriptor (t.cmdBuf j) →
      ∀ i, Preserves view (translateHandle parties (t.cmdBuf j) i))
    (hstatic : getDescriptorType (t.cmdBuf j) = .staticBuffer →
      Preserves view (translateStaticBuffer parties dstAddress (t.cmdBuf j) (j + 1)))
    (hmapped : getDescriptorType (t.cmdBuf j) = .mappedBuffer →
      Preserves view (translateMappedBuffer parties reply (t.cmdBuf j) (j + 1))) :
    view t' = view t := by
  unfold translateDescriptor at h
  obtain ⟨descriptor, t₀, hread, hrest⟩ := returns_bind.mp h
  obtain ⟨hword, rfl⟩ := returns_readCmdBuf.mp hread
  rw [hword] at hhandle hstatic hmapped
  dsimp only at hrest
  cases hkind : getDescriptorType descriptor with
  | copyHandle | moveHandle =>
      have hhandles : isHandleDescriptor descriptor := by
        unfold isHandleDescriptor
        rw [hkind]
        simp
      rw [hkind] at hrest
      dsimp only at hrest
      split at hrest
      · exact absurd hrest not_returns_stop
      · obtain ⟨_, t₁, heach, hpure⟩ := returns_bind.mp hrest
        obtain ⟨-, rfl⟩ := returns_pure.mp hpure
        exact preserves_each (fun i _ _ => hhandle hhandles i) _ _ _ heach
  | callingPid =>
      rw [hkind] at hrest
      dsimp only at hrest
      obtain ⟨s, t₁, hget, hrest⟩ := returns_bind.mp hrest
      obtain ⟨rfl, rfl⟩ := returns_get.mp hget
      obtain ⟨_, t₂, hwrite, hpure⟩ := returns_bind.mp hrest
      obtain ⟨-, rfl⟩ := returns_pure.mp hpure
      exact preserves_writeCmdBuf_of hwords _ _ _ hwrite
  | staticBuffer =>
      rw [hkind] at hrest
      dsimp only at hrest
      obtain ⟨_, t₁, hbuffer, hpure⟩ := returns_bind.mp hrest
      obtain ⟨-, rfl⟩ := returns_pure.mp hpure
      exact hstatic hkind _ _ _ hbuffer
  | mappedBuffer =>
      rw [hkind] at hrest
      dsimp only at hrest
      obtain ⟨_, t₁, hbuffer, hpure⟩ := returns_bind.mp hrest
      obtain ⟨-, rfl⟩ := returns_pure.mp hpure
      exact hmapped hkind _ _ _ hbuffer
  | pxiBuffer | unnamed =>
      rw [hkind] at hrest
      obtain ⟨-, rfl⟩ := returns_pure.mp hrest
      rfl

end Rounds

/-! ## Refusals -/

section Refusals

/-- The translation ends by returning a result. -/
def isReturn (e : IpcStop) : Prop := ∃ result, e = .returns result

theorem neverReturns_exec {α : Type} (x : Exec α) :
    NeverStops isReturn (exec x : Ipc Proc Obj Mem α) := by
  rintro s _ ⟨result, rfl⟩ h
  have hstops := stops_lift.mp h
  cases x with
  | error fault => cases hstops
  | ok a => cases hstops

theorem neverReturns_fault {α : Type} (fault : Fault) :
    NeverStops isReturn (Touching.stop (.fault fault) : Ipc Proc Obj Mem α) := by
  apply NeverStops.stop
  rintro ⟨result, h⟩
  cases h

theorem neverReturns_readCmdBuf (i : ℕ) :
    NeverStops isReturn (readCmdBuf i : Ipc Proc Obj Mem ℕ) :=
  (NeverStops.touch _).bind fun _ => NeverStops.get.bind fun _ => NeverStops.pure _

theorem neverReturns_writeCmdBuf (i word : ℕ) :
    NeverStops isReturn (writeCmdBuf i word : Ipc Proc Obj Mem Unit) :=
  (NeverStops.touch _).bind fun _ => NeverStops.modify _

variable [DecidableEq Proc] {parties : IpcParties Proc Obj Mem} {descriptor i : ℕ}

theorem neverReturns_modifyProcess (process : Proc) (f : IpcProcess Obj → IpcProcess Obj) :
    NeverStops isReturn (modifyProcess process f : Ipc Proc Obj Mem Unit) := NeverStops.modify _

theorem neverReturns_translateHandle :
    NeverStops isReturn (translateHandle parties descriptor i) := by
  unfold translateHandle
  apply (neverReturns_readCmdBuf _).bind
  intro handle
  apply NeverStops.get.bind
  intro s
  apply NeverStops.bind (neverReturns_modifyProcess _ _)
  intro _
  split
  · exact neverReturns_writeCmdBuf _ _
  · refine NeverStops.bind ?_ fun _ => neverReturns_writeCmdBuf _ _
    unfold Ipc.createHandle
    apply NeverStops.get.bind
    intro s
    split
    · exact neverReturns_fault _
    · exact (neverReturns_modifyProcess _ _).bind fun _ => NeverStops.pure _

omit [DecidableEq Proc] in
theorem neverReturns_translateStaticBuffer {dstAddress : ℕ} :
    NeverStops isReturn (translateStaticBuffer parties dstAddress descriptor i) := by
  unfold translateStaticBuffer
  apply (neverReturns_readCmdBuf _).bind
  intro address
  apply NeverStops.get.bind
  intro s
  apply (neverReturns_exec _).bind
  intro _
  apply (NeverStops.modify _).bind
  intro _
  exact neverReturns_writeCmdBuf _ _

theorem neverReturns_guardPage (address : ℕ) :
    NeverStops isReturn (guardPage parties address) := by
  unfold guardPage
  apply NeverStops.get.bind
  intro s
  apply (neverReturns_exec _).bind
  intro guarded
  apply (neverReturns_modifyProcess _ _).bind
  intro _
  exact neverReturns_exec _

theorem neverReturns_returnMappedBuffer (permissions size address : ℕ) :
    NeverStops isReturn (returnMappedBuffer parties permissions size address) := by
  unfold returnMappedBuffer
  apply NeverStops.get.bind
  intro s
  split
  · exact neverReturns_fault _
  · refine NeverStops.bind (NeverStops.modify _) fun _ => NeverStops.bind ?_ fun _ =>
      NeverStops.modify _
    unfold unmapMappedBuffer
    apply NeverStops.get.bind
    intro s
    dsimp only
    split
    · apply (neverReturns_exec _).bind
      intro prevVma
      apply (neverReturns_exec _).bind
      intro nextVma
      apply (neverReturns_exec _).bind
      intro _
      apply (neverReturns_exec _).bind
      intro unmapped
      apply (neverReturns_modifyProcess _ _).bind
      intro _
      exact neverReturns_exec _
    · exact neverReturns_fault _

theorem neverReturns_lendMappedBuffer (permissions size address : ℕ) :
    NeverStops isReturn (lendMappedBuffer parties permissions size address) := by
  unfold lendMappedBuffer
  refine NeverStops.bind ?_ fun buffer => NeverStops.bind ?_ fun _ => ?_
  · unfold makeBuffer
    exact NeverStops.get.bind fun s => (NeverStops.modify _).bind fun _ => NeverStops.pure _
  · unfold mapBuffer
    apply NeverStops.get.bind
    intro s
    apply (neverReturns_exec _).bind
    intro mapped
    apply (neverReturns_modifyProcess _ _).bind
    intro _
    split
    · exact neverReturns_fault _
    · apply (neverReturns_guardPage _).bind
      intro _
      apply (neverReturns_guardPage _).bind
      intro _
      exact NeverStops.pure _
  · exact (NeverStops.modify _).bind fun _ => NeverStops.pure _

theorem neverReturns_translateMappedBuffer {reply : Bool} :
    NeverStops isReturn (translateMappedBuffer parties reply descriptor i) := by
  unfold translateMappedBuffer
  apply (neverReturns_readCmdBuf _).bind
  intro address
  dsimp only
  split
  · exact neverReturns_writeCmdBuf _ _
  · apply (neverReturns_exec _).bind
    intro _
    split
    · exact neverReturns_returnMappedBuffer _ _ _
    · apply (neverReturns_lendMappedBuffer _ _ _).bind
      intro _
      exact neverReturns_writeCmdBuf _ _

/-- A round returns a result only if it stands on a descriptor with too many handles. -/
theorem stops_translateDescriptor {reply : Bool} {dstAddress commandSize j : ℕ}
    {t : IpcState Proc Obj Mem} {result : Result} :
    Stops (translateDescriptor parties reply dstAddress commandSize j) t (.returns result) ↔
      isHandleDescriptor (t.cmdBuf j) ∧ commandSize < j + 1 + handleNumberFromDesc (t.cmdBuf j) ∧
        result = .commandTooLarge := by
  have hreturn : isReturn (.returns result) := ⟨result, rfl⟩
  unfold translateDescriptor isHandleDescriptor
  rw [stops_bind, or_iff_right (neverReturns_readCmdBuf _ _ _ hreturn)]
  constructor
  · rintro ⟨descriptor, t₀, hread, hrest⟩
    obtain ⟨rfl, rfl⟩ := returns_readCmdBuf.mp hread
    dsimp only at hrest
    cases hkind : getDescriptorType (t.cmdBuf j) with
    | copyHandle | moveHandle =>
        rw [hkind] at hrest
        dsimp only at hrest
        split at hrest
        · rename_i hlarge
          have hresult := stops_stop.mp hrest
          cases hresult
          exact ⟨by simp, hlarge, rfl⟩
        · exact absurd hrest ((NeverStops.bind (neverStops_each fun _ =>
            neverReturns_translateHandle) fun _ => NeverStops.pure _) _ _ hreturn)
    | callingPid =>
        rw [hkind] at hrest
        exact absurd hrest ((NeverStops.get.bind fun _ => NeverStops.bind
          (neverReturns_writeCmdBuf _ _) fun _ => NeverStops.pure _) _ _ hreturn)
    | staticBuffer =>
        rw [hkind] at hrest
        exact absurd hrest ((neverReturns_translateStaticBuffer.bind fun _ =>
          NeverStops.pure _) _ _ hreturn)
    | mappedBuffer =>
        rw [hkind] at hrest
        exact absurd hrest ((neverReturns_translateMappedBuffer.bind fun _ =>
          NeverStops.pure _) _ _ hreturn)
    | pxiBuffer | unnamed =>
        rw [hkind] at hrest
        exact absurd hrest not_stops_pure
  · rintro ⟨hkind, hlarge, rfl⟩
    refine ⟨_, t, returns_readCmdBuf.mpr ⟨rfl, rfl⟩, ?_⟩
    dsimp only
    rcases hkind with hkind | hkind
    · rw [hkind]
      dsimp only
      rw [if_pos hlarge]
      exact stops_stop.mpr rfl
    · rw [hkind]
      dsimp only
      rw [if_pos hlarge]
      exact stops_stop.mpr rfl

end Refusals

/-! ## Whole translations -/

section Whole

variable [DecidableEq Proc] {parties : IpcParties Proc Obj Mem} {s t : IpcState Proc Obj Mem}
  {srcAddress dstAddress j : ℕ} {reply : Bool} {result : Result}

/-- A translation that returns a result other than success returns it out of a round. -/
theorem refusesAt_of_stops
    (h : Stops (translateCommandBuffer parties srcAddress dstAddress reply) s (.returns result)) :
    ∃ j t, RefusesAt parties s srcAddress dstAddress reply j t result := by
  have hreturn : isReturn (.returns result) := ⟨result, rfl⟩
  have hrecord : ∀ area n, NeverStops isReturn
      (record parties.shouldRecord area n : Ipc Proc Obj Mem Unit) := by
    intro area n
    unfold record
    split
    · exact NeverStops.touch _
    · exact NeverStops.pure _
  unfold translateCommandBuffer at h
  rcases stops_bind.mp h with h | ⟨s₁, s₂, hget, h⟩
  · exact absurd h not_stops_get
  obtain ⟨rfl, rfl⟩ := returns_get.mp hget
  rcases stops_bind.mp h with h | ⟨_, s₃, hassert, h⟩
  · exact absurd h (neverReturns_exec _ _ _ hreturn)
  obtain ⟨-, rfl⟩ := returns_exec.mp hassert
  rcases stops_bind.mp h with h | ⟨_, s₄, htouch, h⟩
  · exact absurd h not_stops_touch
  obtain rfl := returns_touch.mp htouch
  rcases stops_bind.mp h with h | ⟨_, s₅, hmodify, h⟩
  · exact absurd h not_stops_modify
  obtain rfl := returns_modify.mp hmodify
  rcases stops_bind.mp h with h | ⟨_, s₆, hrecorded, h⟩
  · exact absurd h (hrecord _ _ _ _ hreturn)
  have hsame : fetchCommand parties s srcAddress (commandSize (headerAt parties s srcAddress)) =
      s₆ := by
    unfold record at hrecorded
    split at hrecorded
    · exact returns_touch.mp hrecorded
    · exact (returns_pure.mp hrecorded).2
  subst hsame
  rcases stops_bind.mp h with h | ⟨_, s₇, -, h⟩
  · obtain ⟨j, t, hreach, hj, hstops⟩ := stops_walk.mp h
    exact ⟨j, t, hreach, hj, hstops⟩
  · exact absurd h (((hrecord _ _).bind fun _ => (NeverStops.touch _).bind fun _ =>
      (NeverStops.modify _).bind fun _ => NeverStops.pure _) _ _ hreturn)

/-- A part of the state is what it was if the descriptors in front have left it alone. -/
theorem kept_inFront {ω : Type} (view : IpcState Proc Obj Mem → ω) (c : ℕ → Prop)
    (hwords : ∀ s words, view { s with cmdBuf := words } = view s)
    (hround : ∀ j t n t', c (t.cmdBuf j) → Returns (translateDescriptor parties reply dstAddress
      (commandSize (headerAt parties s srcAddress)) j) t n t' → view t' = view t)
    (h : TranslationReaches parties s srcAddress dstAddress reply j t)
    (hfront : ∀ d, InFront parties s srcAddress dstAddress reply j d → c d) : view t = view s := by
  have hkept := Reaches.kept (c := fun j t => c (t.cmdBuf j)) hround h ?_
  · exact hkept.trans (hwords s _)
  · intro k t' hreach hlt
    rw [word_of_reaches hreach]
    exact hfront _ ⟨k, t', hreach, hlt, rfl⟩

/-- What the descriptors in front have left alone. -/
theorem refusalEffects (h : TranslationReaches parties s srcAddress dstAddress reply j t) :
    RefusalEffects parties s (InFront parties s srcAddress dstAddress reply j) t := by
  refine ⟨?_, ?_, ?_, ?_⟩
  · intro hfront p
    have hkept : tables t = tables s := by
      refine kept_inFront tables (fun d => ¬ isHandleDescriptor d) (fun _ _ => rfl) ?_ h hfront
      intro j t n t' hd hround
      exact kept_translateDescriptor tables (fun _ _ => rfl) hround
        (fun hhandle => absurd hhandle hd) (fun _ => preserves_tables_translateStaticBuffer)
        fun _ => preserves_tables_translateMappedBuffer
    exact congrFun hkept p
  · intro hne hfront
    refine kept_inFront (fun s => tables s parties.src) (fun d => d ≠ MoveHandle)
      (fun _ _ => rfl) ?_ h hfront
    intro j t n t' hd hround
    refine kept_translateDescriptor (fun s => tables s parties.src) (fun _ _ => rfl)
      hround ?_ ?_ ?_
    · intro _ i
      exact preserves_srcTable_translateHandle hne hd
    · intro _
      exact preserves_tables_translateStaticBuffer.comp fun f => f parties.src
    · intro _
      exact preserves_tables_translateMappedBuffer.comp fun f => f parties.src
  · intro hfront
    have hkept : ((memories t).1, (memories t).2.2) = ((memories s).1, (memories s).2.2) := by
      refine kept_inFront (fun s => ((memories s).1, (memories s).2.2))
        (fun d => ¬ mapsBuffer d) (fun _ _ => rfl) ?_ h hfront
      intro j t n t' hd hround
      refine kept_translateDescriptor (fun s => ((memories s).1, (memories s).2.2))
        (fun _ _ => rfl) hround ?_ ?_ ?_
      · intro _ i
        exact preserves_memories_translateHandle.comp fun m => (m.1, m.2.2)
      · intro _
        exact preserves_spaces_translateStaticBuffer
      · intro hkind
        have hempty : mappedBufferSize (t.cmdBuf j) = 0 := by
          by_contra hsize
          exact hd ⟨hkind, hsize⟩
        exact (preserves_memories_translateMappedBuffer hempty).comp fun m => (m.1, m.2.2)
    obtain ⟨hspaces, hcontext⟩ := Prod.mk.inj hkept
    exact ⟨fun p => congrFun hspaces p, hcontext⟩
  · intro hfront
    have hkept : memories t = memories s := by
      refine kept_inFront memories
        (fun d => getDescriptorType d ≠ .staticBuffer ∧ ¬ mapsBuffer d)
        (fun _ _ => rfl) ?_ h hfront
      intro j t n t' hd hround
      refine kept_translateDescriptor memories (fun _ _ => rfl) hround ?_ ?_ ?_
      · intro _ i
        exact preserves_memories_translateHandle
      · intro hkind
        exact absurd hkind hd.1
      · intro hkind
        have hempty : mappedBufferSize (t.cmdBuf j) = 0 := by
          by_contra hsize
          exact hd.2 ⟨hkind, hsize⟩
        exact preserves_memories_translateMappedBuffer hempty
    exact congrArg (fun m => m.2.1) hkept

/-- A translation whose loop comes to a descriptor with too many handles is refused. -/
theorem stops_of_refusesAt
    (hsize : commandSize (headerAt parties s srcAddress) ≤ COMMAND_BUFFER_LENGTH)
    (h : RefusesAt parties s srcAddress dstAddress reply j t result) :
    Stops (translateCommandBuffer parties srcAddress dstAddress reply) s (.returns result) := by
  unfold translateCommandBuffer
  refine stops_bind.mpr (Or.inr ⟨s, s, returns_get.mpr ⟨rfl, rfl⟩, ?_⟩)
  dsimp only
  refine stops_bind.mpr (Or.inr ⟨(), s, returns_exec.mpr ⟨assert_eq_ok.mpr hsize, rfl⟩, ?_⟩)
  refine stops_bind.mpr (Or.inr ⟨(), s, returns_touch.mpr rfl, ?_⟩)
  refine stops_bind.mpr (Or.inr ⟨(), _, returns_modify.mpr rfl, ?_⟩)
  refine stops_bind.mpr (Or.inr ⟨(), _, ?_, stops_bind.mpr (Or.inl
    (stops_walk.mpr ⟨j, t, h.reaches, h.inside, h.returns⟩))⟩)
  unfold record
  split
  · exact returns_touch.mpr rfl
  · exact returns_pure.mpr ⟨rfl, rfl⟩

/-- A command is refused for a descriptor with more handles than there are words left, and what is
changed by then has been changed by the descriptors in front of it. -/
theorem refusal_effects (parties : IpcParties Proc Obj Mem) (s : IpcState Proc Obj Mem)
    (srcAddress dstAddress : ℕ) (reply : Bool) (result : Result)
    (h : Stops (translateCommandBuffer parties srcAddress dstAddress reply) s (.returns result)) :
    result = .commandTooLarge ∧
      (∃ j t, RefusesAt parties s srcAddress dstAddress reply j t result) ∧
      ∀ j t, RefusesAt parties s srcAddress dstAddress reply j t result →
        isHandleDescriptor (commandWord parties s srcAddress j) ∧
          commandSize (headerAt parties s srcAddress) <
            j + 1 + handleNumberFromDesc (commandWord parties s srcAddress j) ∧
          RefusalEffects parties s (InFront parties s srcAddress dstAddress reply j) t := by
  have hexists := refusesAt_of_stops h
  refine ⟨?_, hexists, fun j t hrefuses => ?_⟩
  · obtain ⟨j, t, hrefuses⟩ := hexists
    exact (stops_translateDescriptor.mp hrefuses.returns).2.2
  · obtain ⟨hhandles, hlarge, -⟩ := stops_translateDescriptor.mp hrefuses.returns
    have hword := word_of_reaches hrefuses.reaches
    rw [hword] at hhandles hlarge
    exact ⟨hhandles, hlarge, refusalEffects hrefuses.reaches⟩

end Whole

/-! ## A command that is refused after a handle was copied -/

section Refused

/-- A process that sends, and one that receives. -/
def pairParties : IpcParties Bool Unit (ℕ → UInt8) where
  memorySystem := flatMemory
  src := false
  dst := true
  srcThread := ()
  srcProcess := ()
  currentThread := none
  currentProcess := none
  shouldRecord := false

/-- One handle is copied, and then 64 of them. -/
def refusedCommand (i : ℕ) : ℕ :=
  if i = 0 then 3 else if i = 2 then 1 else if i = 3 then 0xFC000000 else 0

/-- The sender has two handles, and its command lies at address zero. -/
def pairState (words : ℕ → ℕ) : IpcState Bool Unit (ℕ → UInt8) where
  processes receives :=
    { processId := 1
      handleTable := if receives then .init else Interface.after .init [.create (), .create ()]
      vmManager := { vmaMap := [(0, VMManager.initialVma)], pageTable := .clear } }
  memory a := UInt8.ofNat (words (a / 4) / 256 ^ (a % 4))
  cmdBuf := words
  dstCmdbuf _ := 0
  mappedBufferContext := []
  requestHandles := []
  staticBuffers _ := []
  requestMappedBuffers := []

theorem headerAt_pairState : headerAt pairParties (pairState refusedCommand) 0 = 3 := by
  decide

theorem refusedCommand_last :
    commandWord pairParties (pairState refusedCommand) 0 3 = 0xFC000000 := by
  decide

/-- The first handle is the receiver's when the loop comes to the second descriptor. -/
theorem refusedCommand_copied : ∃ t,
    Returns (translateDescriptor pairParties false 0x100 4 1)
      (fetchCommand pairParties (pairState refusedCommand) 0 4) 1 t ∧
      (tables t true).nextFreeSlot = 1 := by
  have hrun : (translateDescriptor pairParties false 0x100 4 1
      (fetchCommand pairParties (pairState refusedCommand) 0 4)).2.toOption.map
        (fun r => (r.1, (tables r.2 true).nextFreeSlot)) = some (1, 1) := by
    decide
  cases h : (translateDescriptor pairParties false 0x100 4 1
      (fetchCommand pairParties (pairState refusedCommand) 0 4)).2 with
  | error e =>
    rw [h] at hrun
    cases hrun
  | ok r =>
    rw [h] at hrun
    obtain ⟨hn, hslot⟩ := Prod.mk.inj (Option.some.inj hrun)
    exact ⟨r.2, hn ▸ h, hslot⟩

/-- It is not taken back when the command is refused. -/
theorem refusedCommand_refusesAt : ∃ t,
    RefusesAt pairParties (pairState refusedCommand) 0 0x100 false 3 t .commandTooLarge ∧
      (tables t true).nextFreeSlot = 1 := by
  obtain ⟨t, hcopied, hslot⟩ := refusedCommand_copied
  have hreaches : TranslationReaches pairParties (pairState refusedCommand) 0 0x100 false 3 t := by
    unfold TranslationReaches
    rw [headerAt_pairState]
    exact .round .start (by decide) hcopied
  refine ⟨t, ⟨hreaches, ?_, ?_⟩, hslot⟩
  · rw [headerAt_pairState]
    decide
  · have hword := (word_of_reaches hreaches).trans refusedCommand_last
    rw [headerAt_pairState]
    apply stops_translateDescriptor.mpr
    rw [hword]
    exact ⟨Or.inl (by decide), by decide, rfl⟩

/-- A command with a well-formed header is refused, and the receiver keeps a handle that is new. -/
theorem refusedCommand_keepsHandle :
    ¬ ∀ result, Stops (translateCommandBuffer pairParties 0 0x100 false)
        (pairState refusedCommand) (.returns result) →
      ∀ j t, RefusesAt pairParties (pairState refusedCommand) 0 0x100 false j t result →
        SameForParties pairParties (pairState refusedCommand) t := by
  intro h
  obtain ⟨t, hrefuses, hslot⟩ := refusedCommand_refusesAt
  have hsize : commandSize (headerAt pairParties (pairState refusedCommand) 0) ≤
      COMMAND_BUFFER_LENGTH := by
    rw [headerAt_pairState]
    decide
  have hsame := (h _ (stops_of_refusesAt hsize hrefuses) 3 t hrefuses).dstTable
  have hfirst : (tables t true).nextFreeSlot = 0 := congrArg HandleTable.nextFreeSlot hsame
  rw [hslot] at hfirst
  cases hfirst

/-- The effects of this command. -/
theorem refusal_effects_refusedCommand : ∃ t,
    RefusesAt pairParties (pairState refusedCommand) 0 0x100 false 3 t .commandTooLarge ∧
      RefusalEffects pairParties (pairState refusedCommand)
        (InFront pairParties (pairState refusedCommand) 0 0x100 false 3) t := by
  obtain ⟨t, hrefuses, -⟩ := refusedCommand_refusesAt
  have hsize : commandSize (headerAt pairParties (pairState refusedCommand) 0) ≤
      COMMAND_BUFFER_LENGTH := by
    rw [headerAt_pairState]
    decide
  obtain ⟨-, -, heffects⟩ := refusal_effects pairParties (pairState refusedCommand) 0 0x100 false
    .commandTooLarge (stops_of_refusesAt hsize hrefuses)
  exact ⟨t, hrefuses, (heffects 3 t hrefuses).2.2⟩

end Refused

end Borked3DS.Analysis
