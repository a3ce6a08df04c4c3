import Borked3DS.Interface.IpcCommands

/-!
# Translations and the end of the command

What one round of each of the three loops uses, depending on the descriptor it stands on, and from
it which indices a whole translation uses.
-/

set_option autoImplicit false

namespace Borked3DS.Analysis

open Borked3DS.Library Borked3DS.Library.Touching Borked3DS.Model Borked3DS.Model.IPC
open Borked3DS.Model.Ipc Borked3DS.Model.HLERequestContext Borked3DS.Interface

variable {Proc Obj Mem : Type}

/-! ## What the parts of a translation use -/

section Parts

variable {n i : ℕ} {s : IpcState Proc Obj Mem} {p : CommandIndex → Prop}

theorem touchesOnly_readCmdBuf :
    TouchesOnly p (readCmdBuf i : Ipc Proc Obj Mem ℕ) s ↔ p ⟨.cmdBuf, i⟩ := by
  simp [readCmdBuf, touchesOnly_bind]

theorem returns_readCmdBuf {word : ℕ} {t : IpcState Proc Obj Mem} :
    Returns (readCmdBuf i) s word t ↔ s.cmdBuf i = word ∧ s = t := by
  simp [readCmdBuf, returns_bind, and_comm]

/-- The word read is used, and the rest goes on with it. -/
theorem touchesOnly_readCmdBuf_bind {α : Type} {f : ℕ → Ipc Proc Obj Mem α} :
    TouchesOnly p (readCmdBuf i >>= f) s ↔
      p ⟨.cmdBuf, i⟩ ∧ TouchesOnly p (f (s.cmdBuf i)) s := by
  rw [touchesOnly_bind, touchesOnly_readCmdBuf]
  apply and_congr_right
  intro _
  constructor
  · intro h
    exact h _ _ (returns_readCmdBuf.mpr ⟨rfl, rfl⟩)
  · intro h word t hreturn
    obtain ⟨rfl, rfl⟩ := returns_readCmdBuf.mp hreturn
    exact h

theorem touchesOnly_writeCmdBuf {word : ℕ} :
    TouchesOnly p (writeCmdBuf i word : Ipc Proc Obj Mem Unit) s ↔ p ⟨.cmdBuf, i⟩ := by
  simp [writeCmdBuf, touchesOnly_bind]

/-- The word written is used, and the rest goes on from what is written. -/
theorem touchesOnly_writeCmdBuf_bind {α : Type} {word : ℕ} {f : Unit → Ipc Proc Obj Mem α} :
    TouchesOnly p (writeCmdBuf i word >>= f) s ↔ p ⟨.cmdBuf, i⟩ ∧
      TouchesOnly p (f ()) { s with cmdBuf := Function.update s.cmdBuf i word } := by
  rw [touchesOnly_bind, touchesOnly_writeCmdBuf]
  apply and_congr_right
  intro _
  simp only [writeCmdBuf, returns_bind, returns_touch, returns_modify]
  constructor
  · intro h
    exact h () _ ⟨(), s, rfl, rfl⟩
  · rintro h _ t ⟨_, t', rfl, rfl⟩
    exact h

theorem quiet_exec {α : Type} (x : Exec α) :
    Quiet IpcState.cmdBuf (exec x : Ipc Proc Obj Mem α) := Quiet.lift _

theorem returns_exec {α : Type} {x : Exec α} {a : α} {t : IpcState Proc Obj Mem} :
    Returns (exec x) s a t ↔ x = .ok a ∧ s = t := by
  unfold exec
  rw [returns_lift]
  cases x with
  | error _ => simp [Except.mapError]
  | ok _ => simp [Except.mapError]

theorem touchesOnly_touchBelow_bind {area : CommandArea} {α : Type}
    {f : Unit → Ipc Proc Obj Mem α} (h : ∀ j < n, p ⟨area, j⟩) :
    TouchesOnly p (touchBelow area n >>= f) s ↔ TouchesOnly p (f ()) s := by
  unfold touchBelow
  rw [touchesOnly_touch_bind]
  apply and_iff_right
  simpa using h

/-- A check that succeeds changes nothing. -/
theorem touchesOnly_assert_bind {α : Type} {c : Prop} [Decidable c] {site : AssertSite}
    {f : Unit → Ipc Proc Obj Mem α} (hc : c) :
    TouchesOnly p (exec (assert c site) >>= f) s ↔ TouchesOnly p (f ()) s := by
  rw [(quiet_exec _).touchesOnly_bind]
  constructor
  · intro h
    exact h () s (returns_exec.mpr ⟨assert_eq_ok.mpr hc, rfl⟩)
  · intro h _ t hreturn
    obtain ⟨-, rfl⟩ := returns_exec.mp hreturn
    exact h

theorem touchesOnly_record_bind {shouldRecord : Bool} {area : CommandArea} {α : Type}
    {f : Unit → Ipc Proc Obj Mem α} (h : ∀ j < n, p ⟨area, j⟩) :
    TouchesOnly p (record shouldRecord area n >>= f) s ↔ TouchesOnly p (f ()) s := by
  cases shouldRecord with
  | true => exact touchesOnly_touchBelow_bind h
  | false => exact touchesOnly_pure_bind

variable [DecidableEq Proc]

theorem quiet_modifyProcess (process : Proc) (f : IpcProcess Obj → IpcProcess Obj) :
    Quiet IpcState.cmdBuf (modifyProcess process f : Ipc Proc Obj Mem Unit) := Quiet.modify fun _ => rfl

theorem quiet_closeMoved (process : Proc) (isMoved : Bool) (handle : ℕ) :
    Quiet IpcState.cmdBuf (closeMoved process isMoved handle : Ipc Proc Obj Mem Unit) := Quiet.modify fun _ => rfl

theorem quiet_createHandle (process : Proc) (object : Obj) :
    Quiet IpcState.cmdBuf (createHandle process object : Ipc Proc Obj Mem ℕ) := by
  unfold createHandle
  apply Quiet.get.bind
  intro s
  cases (s.processes process).handleTable.create object with
  | error _ => exact Quiet.stop _
  | ok created => exact (quiet_modifyProcess _ _).bind fun _ => Quiet.pure _

/-- The words of `cmd_buf` from `k` on. -/
def wordsBehind (k : ℕ) (s : IpcState Proc Obj Mem) (j : ℕ) : ℕ := s.cmdBuf (k + j)

omit [DecidableEq Proc] in
theorem preserves_readCmdBuf {ω : Type} {view : IpcState Proc Obj Mem → ω} :
    Preserves view (readCmdBuf i : Ipc Proc Obj Mem ℕ) :=
  (Preserves.touch _).bind fun _ => Preserves.get.bind fun _ => Preserves.pure _

omit [DecidableEq Proc] in
/-- Only the word at the index is written. -/
theorem preserves_writeCmdBuf {word k : ℕ} (h : k ≠ i) :
    Preserves (fun s => s.cmdBuf k) (writeCmdBuf i word : Ipc Proc Obj Mem Unit) := by
  apply (Preserves.touch _).bind
  intro _
  apply Preserves.modify
  intro t
  exact Function.update_of_ne h _ _

omit [DecidableEq Proc] in
/-- Where no word is written, the one at an index is not written either. -/
theorem preserves_of_quiet {α : Type} {x : Ipc Proc Obj Mem α} (h : Quiet IpcState.cmdBuf x)
    (k : ℕ) : Preserves (fun s => s.cmdBuf k) x :=
  h.preserves.comp fun words => words k

end Parts

/-! ## TranslateCommandBuffer -/

section Translate

variable [DecidableEq Proc] {parties : IpcParties Proc Obj Mem} {i : ℕ}
  {s : IpcState Proc Obj Mem} {p : CommandIndex → Prop}

theorem touchesOnly_translateHandle {descriptor : ℕ} (h : p ⟨.cmdBuf, i⟩) :
    TouchesOnly p (translateHandle parties descriptor i) s := by
  unfold translateHandle
  rw [touchesOnly_readCmdBuf_bind]
  apply And.intro h
  rw [touchesOnly_get_bind]
  rw [(quiet_closeMoved _ _ _).touchesOnly_bind]
  intro _ t _
  split
  · exact touchesOnly_writeCmdBuf.mpr h
  · rw [(quiet_createHandle _ _).touchesOnly_bind]
    intro _ _ _
    exact touchesOnly_writeCmdBuf.mpr h

omit [DecidableEq Proc] in
/-- The word behind the descriptor is read first; whatever follows uses no other. -/
theorem touchesOnly_translateStaticBuffer {dstAddress descriptor : ℕ} :
    TouchesOnly p (translateStaticBuffer parties dstAddress descriptor i) s ↔ p ⟨.cmdBuf, i⟩ := by
  unfold translateStaticBuffer
  rw [touchesOnly_readCmdBuf_bind]
  apply and_iff_left_of_imp
  intro h
  rw [touchesOnly_get_bind]
  rw [(quiet_exec _).touchesOnly_bind]
  intro _ _ _
  rw [touchesOnly_modify_bind]
  exact touchesOnly_writeCmdBuf.mpr h

omit [DecidableEq Proc] in
theorem quiet_copyBack (found : MappedBufferContext) (permissions size : ℕ) :
    Quiet IpcState.cmdBuf (copyBack parties found permissions size) := Quiet.modify fun _ => rfl

theorem quiet_unmapMappedBuffer (pageStart numPages : ℕ) :
    Quiet IpcState.cmdBuf (unmapMappedBuffer parties pageStart numPages) := by
  unfold unmapMappedBuffer
  apply Quiet.get.bind
  intro s
  dsimp only
  split
  · apply (quiet_exec _).bind
    intro prevVma
    apply (quiet_exec _).bind
    intro nextVma
    apply (quiet_exec _).bind
    intro _
    apply (quiet_exec _).bind
    intro unmapped
    exact (quiet_modifyProcess _ _).bind fun _ => quiet_exec _
  · exact Quiet.stop _

theorem quiet_returnMappedBuffer (permissions size sourceAddress : ℕ) :
    Quiet IpcState.cmdBuf (returnMappedBuffer parties permissions size sourceAddress) := by
  unfold returnMappedBuffer
  apply Quiet.get.bind
  intro s
  split
  · exact Quiet.stop _
  · apply (quiet_copyBack _ _ _).bind
    intro _
    apply (quiet_unmapMappedBuffer _ _).bind
    intro _
    exact Quiet.modify fun _ => rfl

theorem quiet_guardPage (address : ℕ) : Quiet IpcState.cmdBuf (guardPage parties address) := by
  unfold guardPage
  apply Quiet.get.bind
  intro s
  apply (quiet_exec _).bind
  intro guarded
  exact (quiet_modifyProcess _ _).bind fun _ => quiet_exec _

theorem quiet_mapBuffer (buffer : BackingMem) : Quiet IpcState.cmdBuf (mapBuffer parties buffer) := by
  unfold mapBuffer
  apply Quiet.get.bind
  intro s
  apply (quiet_exec _).bind
  intro mapped
  apply (quiet_modifyProcess _ _).bind
  intro _
  split
  · exact Quiet.stop _
  · apply (quiet_guardPage _).bind
    intro _
    exact (quiet_guardPage _).bind fun _ => Quiet.pure _

theorem quiet_lendMappedBuffer (permissions size sourceAddress : ℕ) :
    Quiet IpcState.cmdBuf (lendMappedBuffer parties permissions size sourceAddress) := by
  have hmake : Quiet IpcState.cmdBuf (makeBuffer parties size sourceAddress) := by
    apply Quiet.get.bind
    intro s
    exact Quiet.bind (Quiet.modify fun _ => rfl) fun _ => Quiet.pure _
  unfold lendMappedBuffer
  apply hmake.bind
  intro buffer
  apply (quiet_mapBuffer _).bind
  intro lowGuardAddress
  exact Quiet.bind (Quiet.modify fun _ => rfl) fun _ => Quiet.pure _

theorem touchesOnly_translateMappedBuffer {reply : Bool} {descriptor : ℕ} :
    TouchesOnly p (translateMappedBuffer parties reply descriptor i) s ↔ p ⟨.cmdBuf, i⟩ := by
  unfold translateMappedBuffer
  rw [touchesOnly_readCmdBuf_bind]
  apply and_iff_left_of_imp
  intro h
  dsimp only
  rw [touchesOnly_ite]
  refine ⟨fun _ => touchesOnly_writeCmdBuf.mpr h, fun _ => ?_⟩
  rw [(quiet_exec _).touchesOnly_bind]
  intro _ _ _
  rw [touchesOnly_ite]
  refine ⟨fun _ => (quiet_returnMappedBuffer _ _ _).touchesOnly, fun _ => ?_⟩
  rw [(quiet_lendMappedBuffer _ _ _).touchesOnly_bind]
  intro _ _ _
  exact touchesOnly_writeCmdBuf.mpr h

/-- A round stays in the command unless its descriptor takes the word behind the end. -/
theorem staysInCommand_translateDescriptor {reply : Bool} {dstAddress commandSize : ℕ}
    (hi : i < commandSize) :
    StaysInCommand commandSize (translateDescriptor parties reply dstAddress commandSize i) s ↔
      (takesWord (s.cmdBuf i) = true → i + 1 < commandSize) := by
  unfold StaysInCommand translateDescriptor takesWord
  rw [touchesOnly_readCmdBuf_bind, and_iff_right fun _ => hi]
  dsimp only
  cases getDescriptorType (s.cmdBuf i) with
  | copyHandle | moveHandle =>
    refine iff_of_true ?_ (fun h => absurd h Bool.false_ne_true)
    rw [touchesOnly_ite]
    refine ⟨fun _ => touchesOnly_stop, fun hfits => ?_⟩
    rw [touchesOnly_bind_pure]
    apply touchesOnly_each
    intro j _ hj t
    apply touchesOnly_translateHandle
    intro _
    dsimp only
    omega
  | callingPid =>
    rw [touchesOnly_get_bind, touchesOnly_bind_pure, touchesOnly_writeCmdBuf]
    simp
  | staticBuffer =>
    rw [touchesOnly_bind_pure, touchesOnly_translateStaticBuffer]
    simp
  | mappedBuffer =>
    rw [touchesOnly_bind_pure, touchesOnly_translateMappedBuffer]
    simp
  | pxiBuffer | unnamed =>
    exact iff_of_true touchesOnly_pure (fun h => absurd h Bool.false_ne_true)

/-! Outside what a round takes, the words stay as they are. -/

theorem preserves_translateHandle {descriptor k : ℕ} (h : k ≠ i) :
    Preserves (fun s => s.cmdBuf k) (translateHandle parties descriptor i) := by
  unfold translateHandle
  apply preserves_readCmdBuf.bind
  intro handle
  apply Preserves.get.bind
  intro s'
  apply (preserves_of_quiet (quiet_closeMoved _ _ _) k).bind
  intro _
  split
  · exact preserves_writeCmdBuf h
  · apply (preserves_of_quiet (quiet_createHandle _ _) k).bind
    intro created
    exact preserves_writeCmdBuf h

omit [DecidableEq Proc] in
theorem preserves_translateStaticBuffer {dstAddress descriptor k : ℕ} (h : k ≠ i) :
    Preserves (fun s => s.cmdBuf k) (translateStaticBuffer parties dstAddress descriptor i) := by
  unfold translateStaticBuffer
  apply preserves_readCmdBuf.bind
  intro address
  apply Preserves.get.bind
  intro s'
  apply (preserves_of_quiet (quiet_exec _) k).bind
  intro _
  exact Preserves.bind (Preserves.modify fun _ => rfl) fun _ => preserves_writeCmdBuf h

theorem preserves_translateMappedBuffer {reply : Bool} {descriptor k : ℕ} (h : k ≠ i) :
    Preserves (fun s => s.cmdBuf k) (translateMappedBuffer parties reply descriptor i) := by
  unfold translateMappedBuffer
  apply preserves_readCmdBuf.bind
  intro sourceAddress
  dsimp only
  split
  · exact preserves_writeCmdBuf h
  · apply (preserves_of_quiet (quiet_exec _) k).bind
    intro _
    split
    · exact preserves_of_quiet (quiet_returnMappedBuffer _ _ _) k
    · apply (preserves_of_quiet (quiet_lendMappedBuffer _ _ _) k).bind
      intro targetAddress
      exact preserves_writeCmdBuf h

theorem word_translateDescriptor {reply : Bool} {dstAddress commandSize n k : ℕ}
    {t : IpcState Proc Obj Mem}
    (h : Returns (translateDescriptor parties reply dstAddress commandSize i) s n t)
    (hk : k ≤ i ∨ i + 1 + n ≤ k) : t.cmdBuf k = s.cmdBuf k := by
  unfold translateDescriptor at h
  obtain ⟨descriptor, s', hread, h⟩ := returns_bind.mp h
  obtain ⟨-, rfl⟩ := returns_readCmdBuf.mp hread
  dsimp only at h
  cases hkind : getDescriptorType descriptor with
  | copyHandle | moveHandle =>
    rw [hkind] at h
    dsimp only at h
    split at h
    · exact absurd h not_returns_stop
    · obtain ⟨_, t', heach, hpure⟩ := returns_bind.mp h
      obtain ⟨rfl, rfl⟩ := returns_pure.mp hpure
      have hkept : Preserves (fun s => s.cmdBuf k) (each (translateHandle parties descriptor)
          (handleNumberFromDesc descriptor) (i + 1)) :=
        preserves_each fun j _ _ => preserves_translateHandle (by omega)
      exact hkept s _ t' heach
  | callingPid =>
    rw [hkind] at h
    obtain ⟨_, s', hget, h⟩ := returns_bind.mp h
    obtain ⟨rfl, rfl⟩ := returns_get.mp hget
    obtain ⟨_, t', hwrite, hpure⟩ := returns_bind.mp h
    obtain ⟨rfl, rfl⟩ := returns_pure.mp hpure
    exact preserves_writeCmdBuf (by omega) s _ t' hwrite
  | staticBuffer =>
    rw [hkind] at h
    obtain ⟨_, t', hbuffer, hpure⟩ := returns_bind.mp h
    obtain ⟨rfl, rfl⟩ := returns_pure.mp hpure
    exact preserves_translateStaticBuffer (by omega) s _ t' hbuffer
  | mappedBuffer =>
    rw [hkind] at h
    obtain ⟨_, t', hbuffer, hpure⟩ := returns_bind.mp h
    obtain ⟨rfl, rfl⟩ := returns_pure.mp hpure
    exact preserves_translateMappedBuffer (by omega) s _ t' hbuffer
  | pxiBuffer | unnamed =>
    rw [hkind] at h
    obtain ⟨-, rfl⟩ := returns_pure.mp h
    rfl

theorem wordsBehind_translateDescriptor {reply : Bool} {dstAddress commandSize n : ℕ}
    {t : IpcState Proc Obj Mem}
    (h : Returns (translateDescriptor parties reply dstAddress commandSize i) s n t) :
    wordsBehind (i + 1 + n) t = wordsBehind (i + 1 + n) s := by
  funext j
  exact word_translateDescriptor h (Or.inr (Nat.le_add_right _ j))

/-- The words that the loop has not come to yet are those of the command. -/
theorem words_of_reaches {reply : Bool} {dstAddress commandSize j k : ℕ}
    {t : IpcState Proc Obj Mem}
    (h : Reaches commandSize (translateDescriptor parties reply dstAddress commandSize) i s j t)
    (hk : j ≤ k) : t.cmdBuf k = s.cmdBuf k := by
  have hbehind : ∀ k, j ≤ k → t.cmdBuf k = s.cmdBuf k := by
    apply h.invariant (fun j t => ∀ k, j ≤ k → t.cmdBuf k = s.cmdBuf k) (fun _ _ => rfl)
    intro j t n t' ih _ hround k hk
    have hsame := congrFun (wordsBehind_translateDescriptor hround) (k - (j + 1 + n))
    unfold wordsBehind at hsame
    rw [Nat.add_sub_cancel' hk] at hsame
    rw [hsame]
    exact ih k (by omega)
  exact hbehind k hk

/-- The loop finds the words of the command where it comes to them. -/
theorem word_of_reaches {reply : Bool} {dstAddress commandSize j : ℕ} {t : IpcState Proc Obj Mem}
    (h : Reaches commandSize (translateDescriptor parties reply dstAddress commandSize) i s j t) :
    t.cmdBuf j = s.cmdBuf j :=
  words_of_reaches h (Nat.le_refl j)

end Translate

/-! ## Requests of HLE services -/

section Incoming

variable {srcCmdbuf : ℕ → ℕ} {i : ℕ} {s : IpcState Proc Obj Mem} {p : CommandIndex → Prop}

theorem touchesOnly_readSrcCmdbuf_bind {α : Type} {f : ℕ → Ipc Proc Obj Mem α} :
    TouchesOnly p (readSrcCmdbuf srcCmdbuf i >>= f) s ↔
      p ⟨.srcCmdbuf, i⟩ ∧ TouchesOnly p (f (srcCmdbuf i)) s := by
  rw [touchesOnly_bind]
  simp [readSrcCmdbuf, touchesOnly_bind, returns_bind]

theorem quiet_addOutgoingHandle (object : Option Obj) :
    Quiet IpcState.cmdBuf (addOutgoingHandle object : Ipc Proc Obj Mem ℕ) :=
  Quiet.bind (Quiet.modify fun _ => rfl) fun _ => Quiet.get.bind fun _ => Quiet.pure _

variable [DecidableEq Proc] {parties : IpcParties Proc Obj Mem}

theorem touchesOnly_populateHandle {descriptor : ℕ} (hsrc : p ⟨.srcCmdbuf, i⟩)
    (h : p ⟨.cmdBuf, i⟩) : TouchesOnly p (populateHandle parties srcCmdbuf descriptor i) s := by
  unfold populateHandle
  rw [touchesOnly_readSrcCmdbuf_bind]
  apply And.intro hsrc
  rw [touchesOnly_get_bind, (quiet_exec _).touchesOnly_bind]
  intro _ t _
  rw [(quiet_closeMoved _ _ _).touchesOnly_bind]
  intro _ t' _
  rw [(quiet_addOutgoingHandle _).touchesOnly_bind]
  intro id t'' _
  exact touchesOnly_writeCmdBuf.mpr h

/-- A round stays in the command unless its descriptor takes the word behind the end. -/
theorem staysInCommand_populateDescriptor {commandSize : ℕ} (hi : i < commandSize) :
    StaysInCommand commandSize (populateDescriptor parties srcCmdbuf commandSize i) s ↔
      (takesWord (srcCmdbuf i) = true → i + 1 < commandSize) := by
  unfold StaysInCommand populateDescriptor takesWord
  rw [touchesOnly_readSrcCmdbuf_bind, and_iff_right fun _ => hi, touchesOnly_writeCmdBuf_bind,
    and_iff_right fun _ => hi]
  dsimp only
  cases getDescriptorType (srcCmdbuf i) with
  | copyHandle | moveHandle =>
    refine iff_of_true ?_ (fun h => absurd h Bool.false_ne_true)
    dsimp only
    rw [(quiet_exec _).touchesOnly_bind]
    intro _ t hassert
    have hfits := assert_eq_ok.mp (returns_exec.mp hassert).1
    rw [touchesOnly_bind_pure]
    apply touchesOnly_each
    intro j _ hj t
    apply touchesOnly_populateHandle
    · intro _
      dsimp only
      omega
    · intro _
      dsimp only
      omega
  | callingPid =>
    rw [touchesOnly_get_bind, touchesOnly_bind_pure, touchesOnly_writeCmdBuf]
    simp
  | staticBuffer =>
    rw [touchesOnly_readSrcCmdbuf_bind, touchesOnly_modify_bind, touchesOnly_bind_pure,
      touchesOnly_writeCmdBuf]
    simp
  | mappedBuffer =>
    rw [touchesOnly_get_bind]
    dsimp only
    rw [touchesOnly_readSrcCmdbuf_bind, touchesOnly_modify_bind, touchesOnly_bind_pure,
      touchesOnly_writeCmdBuf]
    simp
  | pxiBuffer | unnamed =>
    exact iff_of_true touchesOnly_pure (fun h => absurd h Bool.false_ne_true)

end Incoming

/-! ## Replies of HLE services -/

section Outgoing

variable {i : ℕ} {s : IpcState Proc Obj Mem} {p : CommandIndex → Prop}

theorem touchesOnly_writeDstCmdbuf {word : ℕ} :
    TouchesOnly p (writeDstCmdbuf i word : Ipc Proc Obj Mem Unit) s ↔ p ⟨.dstCmdbuf, i⟩ := by
  simp [writeDstCmdbuf, touchesOnly_bind]

theorem touchesOnly_writeDstCmdbuf_bind {α : Type} {word : ℕ} {f : Unit → Ipc Proc Obj Mem α} :
    TouchesOnly p (writeDstCmdbuf i word >>= f) s ↔ p ⟨.dstCmdbuf, i⟩ ∧
      TouchesOnly p (f ()) { s with dstCmdbuf := Function.update s.dstCmdbuf i word } := by
  rw [touchesOnly_bind, touchesOnly_writeDstCmdbuf]
  apply and_congr_right
  intro _
  simp only [writeDstCmdbuf, returns_bind, returns_touch, returns_modify]
  constructor
  · intro h
    exact h () _ ⟨(), s, rfl, rfl⟩
  · rintro h _ t ⟨_, t', rfl, rfl⟩
    exact h

/-- Nothing of a reply is written into the words it is made from. -/
theorem preserves_writeDstCmdbuf {word : ℕ} :
    Preserves IpcState.cmdBuf (writeDstCmdbuf i word : Ipc Proc Obj Mem Unit) :=
  (Preserves.touch _).bind fun _ => Preserves.modify fun _ => rfl

theorem quiet_getIncomingHandle (id : ℕ) :
    Quiet IpcState.cmdBuf (getIncomingHandle id : Ipc Proc Obj Mem (Option Obj)) := by
  unfold getIncomingHandle
  apply Quiet.get.bind
  intro s
  split
  · exact Quiet.stop _
  · exact Quiet.pure _

variable [DecidableEq Proc] {parties : IpcParties Proc Obj Mem}

theorem touchesOnly_writeHandle (h : p ⟨.cmdBuf, i⟩) (hdst : p ⟨.dstCmdbuf, i⟩) :
    TouchesOnly p (writeHandle parties i) s := by
  unfold writeHandle
  rw [touchesOnly_readCmdBuf_bind]
  apply And.intro h
  rw [(quiet_getIncomingHandle _).touchesOnly_bind]
  intro object t _
  cases object with
  | none => exact touchesOnly_writeDstCmdbuf.mpr hdst
  | some object =>
    dsimp only
    rw [(quiet_createHandle _ _).touchesOnly_bind]
    intro _ _ _
    exact touchesOnly_writeDstCmdbuf.mpr hdst

theorem preserves_writeHandle : Preserves IpcState.cmdBuf (writeHandle parties i) := by
  unfold writeHandle
  apply preserves_readCmdBuf.bind
  intro id
  apply (quiet_getIncomingHandle _).preserves.bind
  intro object
  cases object with
  | none => exact preserves_writeDstCmdbuf
  | some object =>
    apply (quiet_createHandle _ _).preserves.bind
    intro handle
    exact preserves_writeDstCmdbuf

/-- A round stays in the command unless its descriptor takes the word behind the end. The words it
reads behind the command buffer are those of the static buffers area. -/
theorem staysInCommand_writeDescriptor {commandSize : ℕ} (hi : i < commandSize)
    (hsize : commandSize ≤ COMMAND_BUFFER_LENGTH) :
    StaysInCommand commandSize (writeDescriptor parties commandSize i) s ↔
      (replyTakesWord s (s.cmdBuf i) = true → i + 1 < commandSize) := by
  unfold StaysInCommand writeDescriptor replyTakesWord
  rw [touchesOnly_readCmdBuf_bind, and_iff_right fun _ => hi, touchesOnly_writeDstCmdbuf_bind,
    and_iff_right fun _ => hi]
  dsimp only
  cases getDescriptorType (s.cmdBuf i) with
  | copyHandle | moveHandle =>
    refine iff_of_true ?_ (fun h => absurd h Bool.false_ne_true)
    dsimp only
    rw [(quiet_exec _).touchesOnly_bind]
    intro _ t hassert
    have hfits := assert_eq_ok.mp (returns_exec.mp hassert).1
    rw [touchesOnly_bind_pure]
    apply touchesOnly_each
    intro j _ hj t
    apply touchesOnly_writeHandle
    · intro _
      dsimp only
      omega
    · intro _
      dsimp only
      omega
  | staticBuffer =>
    have hkept : ∀ id word : ℕ, Function.update s.dstCmdbuf i word
        (COMMAND_BUFFER_LENGTH + 2 * id) = s.dstCmdbuf (COMMAND_BUFFER_LENGTH + 2 * id) :=
      fun id word => Function.update_of_ne (by omega) _ _
    dsimp only
    rw [touchesOnly_touch_bind, and_iff_right (by simp), touchesOnly_get_bind,
      (quiet_exec _).touchesOnly_bind]
    simp only [returns_exec, assert_eq_ok, decide_eq_true_eq]
    rw [hkept]
    constructor
    · intro h hfits
      have hwrite := h () _ ⟨hfits, rfl⟩
      rw [touchesOnly_modify_bind, touchesOnly_bind_pure, touchesOnly_writeDstCmdbuf] at hwrite
      exact hwrite (by simp)
    · rintro h _ t ⟨hfits, rfl⟩
      rw [touchesOnly_modify_bind, touchesOnly_bind_pure, touchesOnly_writeDstCmdbuf]
      exact fun _ => h hfits
  | mappedBuffer =>
    rw [touchesOnly_readCmdBuf_bind, touchesOnly_get_bind]
    dsimp only
    constructor
    · intro h _
      exact h.1 (by simp)
    · intro h
      refine ⟨fun _ => h rfl, ?_⟩
      split
      · exact touchesOnly_stop
      · rw [touchesOnly_bind_pure, touchesOnly_writeDstCmdbuf]
        exact fun _ => h rfl
  | callingPid | pxiBuffer | unnamed =>
    exact iff_of_true touchesOnly_pure (fun h => absurd h Bool.false_ne_true)

/-- A round of a reply writes nothing into the words it is made from. -/
theorem preserves_writeDescriptor {commandSize : ℕ} :
    Preserves IpcState.cmdBuf (writeDescriptor parties commandSize i) := by
  unfold writeDescriptor
  apply preserves_readCmdBuf.bind
  intro descriptor
  apply preserves_writeDstCmdbuf.bind
  intro _
  dsimp only
  split
  · apply (quiet_exec _).preserves.bind
    intro _
    exact (preserves_each fun _ _ _ => preserves_writeHandle).bind fun _ => Preserves.pure _
  · apply (quiet_exec _).preserves.bind
    intro _
    exact (preserves_each fun _ _ _ => preserves_writeHandle).bind fun _ => Preserves.pure _
  · apply (Preserves.touch _).bind
    intro _
    apply Preserves.get.bind
    intro s'
    apply (quiet_exec _).preserves.bind
    intro _
    refine Preserves.bind (Preserves.modify fun _ => rfl) fun _ => ?_
    exact preserves_writeDstCmdbuf.bind fun _ => Preserves.pure _
  · apply preserves_readCmdBuf.bind
    intro id
    apply Preserves.get.bind
    intro s'
    split
    · exact Preserves.stop _
    · exact preserves_writeDstCmdbuf.bind fun _ => Preserves.pure _
  · exact Preserves.pure _
  · exact Preserves.pure _
  · exact Preserves.pure _

end Outgoing

/-! ## Whole translations -/

section Whole

variable {s : IpcState Proc Obj Mem}

theorem commandSize_pos (header : ℕ) : 0 < commandSize header := by
  unfold commandSize untranslatedSize
  omega

/-- A loop stays in the command if it comes to no descriptor at the end that takes a word. -/
theorem staysInCommand_walk (takes : IpcState Proc Obj Mem → ℕ → Bool) (words : ℕ → ℕ)
    (header : ℕ) (round : ℕ → Ipc Proc Obj Mem ℕ)
    (hround : ∀ j t, Reaches (commandSize header) round (untranslatedSize header) s j t →
      j < commandSize header →
        (StaysInCommand (commandSize header) (round j) t ↔
          (takes t (words j) = true → j + 1 < commandSize header))) :
    StaysInCommand (commandSize header) (walk (commandSize header) round (untranslatedSize header))
      s ↔ NoneEndsCommand takes words header round s := by
  unfold StaysInCommand
  rw [touchesOnly_walk]
  constructor
  · intro h t hreach
    have hpos := commandSize_pos header
    by_contra htakes
    have hlast := (hround _ t hreach (by omega)).mp (h _ t hreach (by omega))
      (Bool.eq_true_of_not_eq_false htakes)
    omega
  · intro h j t hreach hj
    apply (hround j t hreach hj).mpr
    intro htakes
    by_contra hlast
    obtain rfl : j = commandSize header - 1 := by omega
    rw [h t hreach] at htakes
    exact Bool.false_ne_true htakes

/-- The copies for the recorder and the reply use the words of the command only. -/
theorem staysInCommand_bind {α β : Type} {n : ℕ} {x : Ipc Proc Obj Mem α}
    {f : α → Ipc Proc Obj Mem β} (hf : ∀ a t, StaysInCommand n (f a) t) :
    TouchesOnly (fun c => c.area ≠ .staticBuffers → c.index < n) (x >>= f) s ↔
      StaysInCommand n x s := by
  rw [touchesOnly_bind]
  exact and_iff_left fun a t _ => hf a t

theorem untranslatedSize_le (header : ℕ) : untranslatedSize header ≤ commandSize header :=
  Nat.le_add_right _ _

variable [DecidableEq Proc] (parties : IpcParties Proc Obj Mem)

theorem staysInCommand_translateCommandBuffer (srcAddress dstAddress : ℕ) (reply : Bool)
    (hsize : commandSize (headerAt parties s srcAddress) ≤ COMMAND_BUFFER_LENGTH) :
    StaysInCommand (commandSize (headerAt parties s srcAddress))
        (translateCommandBuffer parties srcAddress dstAddress reply) s ↔
      TranslationFits parties s srcAddress dstAddress reply := by
  unfold StaysInCommand translateCommandBuffer
  rw [touchesOnly_get_bind]
  dsimp only
  rw [touchesOnly_assert_bind hsize, touchesOnly_touchBelow_bind (fun _ hj _ => hj),
    touchesOnly_modify_bind, touchesOnly_record_bind (fun _ hj _ => hj), staysInCommand_bind]
  · apply staysInCommand_walk (fun _ => takesWord)
    intro j t hreach hj
    rw [staysInCommand_translateDescriptor hj, word_of_reaches hreach]
  · intro _ t
    unfold StaysInCommand
    rw [touchesOnly_record_bind (fun _ hj _ => hj),
      touchesOnly_touchBelow_bind (fun _ hj _ => hj), touchesOnly_modify_bind]
    exact touchesOnly_pure

theorem staysInCommand_populate (srcCmdbuf : ℕ → ℕ)
    (hsize : commandSize (srcCmdbuf 0) ≤ COMMAND_BUFFER_LENGTH) :
    StaysInCommand (commandSize (srcCmdbuf 0))
        (populateFromIncomingCommandBuffer parties srcCmdbuf) s ↔
      RequestFits parties s srcCmdbuf := by
  have hle := untranslatedSize_le (srcCmdbuf 0)
  unfold StaysInCommand populateFromIncomingCommandBuffer
  rw [touchesOnly_readSrcCmdbuf_bind, and_iff_right fun _ => commandSize_pos _]
  dsimp only
  rw [touchesOnly_assert_bind hsize,
    touchesOnly_touchBelow_bind (fun _ hj _ => Nat.lt_of_lt_of_le hj hle),
    touchesOnly_touchBelow_bind (fun _ hj _ => Nat.lt_of_lt_of_le hj hle),
    touchesOnly_modify_bind, touchesOnly_record_bind (fun _ hj _ => hj), staysInCommand_bind]
  · apply staysInCommand_walk (fun _ => takesWord)
    intro j t _ hj
    exact staysInCommand_populateDescriptor hj
  · intro _ t
    unfold StaysInCommand
    rw [touchesOnly_record_bind (fun _ hj _ => hj)]
    exact touchesOnly_pure

theorem staysInCommand_write (hsize : commandSize (s.cmdBuf 0) ≤ COMMAND_BUFFER_LENGTH) :
    StaysInCommand (commandSize (s.cmdBuf 0)) (writeToOutgoingCommandBuffer parties) s ↔
      ReplyFits parties s := by
  have hle := untranslatedSize_le (s.cmdBuf 0)
  unfold StaysInCommand writeToOutgoingCommandBuffer
  rw [touchesOnly_readCmdBuf_bind, and_iff_right fun _ => commandSize_pos _]
  dsimp only
  rw [touchesOnly_assert_bind hsize,
    touchesOnly_touchBelow_bind (fun _ hj _ => Nat.lt_of_lt_of_le hj hle),
    touchesOnly_touchBelow_bind (fun _ hj _ => Nat.lt_of_lt_of_le hj hle),
    touchesOnly_modify_bind, touchesOnly_record_bind (fun _ hj _ => hj), staysInCommand_bind]
  · apply staysInCommand_walk replyTakesWord
    intro j t hreach hj
    have hwords : t.cmdBuf = s.cmdBuf := by
      apply hreach.invariant (fun _ t => t.cmdBuf = s.cmdBuf) rfl
      intro j t n t' ih _ hround
      exact (preserves_writeDescriptor _ _ _ hround).trans ih
    rw [staysInCommand_writeDescriptor hj hsize, hwords]
  · intro _ t
    unfold StaysInCommand
    rw [touchesOnly_record_bind (fun _ hj _ => hj)]
    exact touchesOnly_pure

/-- Every index that a translator uses lies within the command if and only if its loop comes to no
descriptor in the last word that takes the word behind it, for each of the three translators. -/
theorem ipcBounds_iff (srcAddress dstAddress : ℕ) (reply : Bool) (srcCmdbuf : ℕ → ℕ)
    (htranslate : commandSize (headerAt parties s srcAddress) ≤ COMMAND_BUFFER_LENGTH)
    (hrequest : commandSize (srcCmdbuf 0) ≤ COMMAND_BUFFER_LENGTH)
    (hreply : commandSize (s.cmdBuf 0) ≤ COMMAND_BUFFER_LENGTH) :
    (StaysInCommand (commandSize (headerAt parties s srcAddress))
        (translateCommandBuffer parties srcAddress dstAddress reply) s ↔
      TranslationFits parties s srcAddress dstAddress reply) ∧
    (StaysInCommand (commandSize (srcCmdbuf 0))
        (populateFromIncomingCommandBuffer parties srcCmdbuf) s ↔
      RequestFits parties s srcCmdbuf) ∧
    (StaysInCommand (commandSize (s.cmdBuf 0)) (writeToOutgoingCommandBuffer parties) s ↔
      ReplyFits parties s) :=
  ⟨staysInCommand_translateCommandBuffer parties srcAddress dstAddress reply htranslate,
    staysInCommand_populate parties srcCmdbuf hrequest, staysInCommand_write parties hreply⟩

end Whole

/-! ## Commands in flat memory -/

/-- Memory that every process sees alike, with new buffers behind it. -/
def flatMemory : MemorySystem (ℕ → UInt8) where
  readBlock memory _ address size := (List.range size).map fun i => memory (address + i)
  writeBlock memory _ address bytes := fun a =>
    if address ≤ a then (bytes[a - address]?).getD (memory a) else memory a
  copyBlock memory _ _ dst src size := fun a =>
    if dst ≤ a ∧ a < dst + size then memory (src + (a - dst)) else memory a
  bufferMem memory size := ({ ptr := 2 ^ 32, size := size }, memory)
  fillBuffer memory buffer offset bytes := fun a =>
    if buffer.ptr + offset ≤ a then (bytes[a - (buffer.ptr + offset)]?).getD (memory a)
    else memory a
  isCached _ _ := false

/-- One process that talks to itself. -/
def flatParties : IpcParties Unit Unit (ℕ → UInt8) where
  memorySystem := flatMemory
  src := ()
  dst := ()
  srcThread := ()
  srcProcess := ()
  currentThread := none
  currentProcess := none
  shouldRecord := false

/-- A command of a full buffer: 62 normal words, and one descriptor in the last word. -/
def fullCommand (descriptor i : ℕ) : ℕ :=
  if i = 0 then 62 * 2 ^ 6 + 1 else if i = 63 then descriptor else 0

/-- A process whose command lies at address zero and in `cmd_buf`. -/
def flatState (words : ℕ → ℕ) : IpcState Unit Unit (ℕ → UInt8) where
  processes _ :=
    { processId := 1
      handleTable := .init
      vmManager := { vmaMap := [(0, VMManager.initialVma)], pageTable := .clear } }
  memory a := UInt8.ofNat (words (a / 4) / 256 ^ (a % 4))
  cmdBuf := words
  dstCmdbuf _ := 0
  mappedBufferContext := []
  requestHandles := []
  staticBuffers _ := []
  requestMappedBuffers := []

theorem headerAt_flatState (descriptor : ℕ) :
    headerAt flatParties (flatState (fullCommand descriptor)) 0 = 62 * 2 ^ 6 + 1 := by
  have hbytes : flatMemory.readBlock (flatState (fullCommand descriptor)).memory .clear 0 4 =
      [0x81, 0x0F, 0, 0] := by
    simp [flatMemory, flatState, fullCommand, List.range, List.range.loop]
  exact congrArg (fun bytes => wordAt bytes 0) hbytes

/-- A descriptor of an unknown kind may be the last word. -/
theorem ipcBounds_iff_unknown :
    commandSize (headerAt flatParties (flatState (fullCommand 0x30)) 0) ≤ COMMAND_BUFFER_LENGTH ∧
      commandSize (fullCommand 0x30 0) ≤ COMMAND_BUFFER_LENGTH ∧
      (StaysInCommand (commandSize (fullCommand 0x30 0))
          (populateFromIncomingCommandBuffer flatParties (fullCommand 0x30))
          (flatState (fullCommand 0x30)) ↔
        RequestFits flatParties (flatState (fullCommand 0x30)) (fullCommand 0x30)) := by
  have hheader : commandSize (headerAt flatParties (flatState (fullCommand 0x30)) 0) ≤
      COMMAND_BUFFER_LENGTH := by
    rw [headerAt_flatState]
    decide
  have hcommand : commandSize (fullCommand 0x30 0) ≤ COMMAND_BUFFER_LENGTH := by decide
  exact ⟨hheader, hcommand, (ipcBounds_iff flatParties (s := flatState (fullCommand 0x30)) 0 0 false
    (fullCommand 0x30) hheader hcommand hcommand).2.1⟩

/-- With the descriptor `CallingPid` in the last word of a full buffer, the process identifier is
written behind the buffer's end; so is the address of a mapped buffer of a reply looked up there. -/
theorem ipcBounds_callingPidLast :
    commandSize (fullCommand 0x20 0) = COMMAND_BUFFER_LENGTH ∧
      ¬ StaysInCommand 64 (translateCommandBuffer flatParties 0 0 false)
        (flatState (fullCommand 0x20)) ∧
      ¬ StaysInCommand 64 (populateFromIncomingCommandBuffer flatParties (fullCommand 0x20))
        (flatState (fullCommand 0x20)) ∧
      ¬ StaysInCommand 64 (writeToOutgoingCommandBuffer flatParties)
        (flatState (fullCommand 0x08)) := by
  have hheader := headerAt_flatState 0x20
  have htranslate := staysInCommand_translateCommandBuffer (s := flatState (fullCommand 0x20))
    flatParties 0 0 false (by rw [hheader]; decide)
  have hrequest := staysInCommand_populate (s := flatState (fullCommand 0x20)) flatParties
    (fullCommand 0x20) (by decide)
  have hreply := staysInCommand_write (s := flatState (fullCommand 0x08)) flatParties (by decide)
  refine ⟨by decide, ?_, ?_, ?_⟩
  · intro h
    rw [hheader] at htranslate
    have hfits := htranslate.mp h
    unfold TranslationFits at hfits
    rw [hheader] at hfits
    exact Bool.noConfusion (hfits _ .start)
  · intro h
    exact Bool.noConfusion (hrequest.mp h _ .start)
  · intro h
    exact Bool.noConfusion (hreply.mp h _ .start)

end Borked3DS.Analysis
