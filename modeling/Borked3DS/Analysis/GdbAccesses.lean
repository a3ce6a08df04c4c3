import Borked3DS.Interface.GdbStub

/-!
# What packets of the debugger touch

What each way of reading the command touches and yields, from it what each handler does, and then a
whole stream of packets.
-/

set_option autoImplicit false

namespace Borked3DS.Analysis

open Borked3DS.Library Borked3DS.Library.Touching Borked3DS.Model Borked3DS.Model.GDBStub
open Borked3DS.Interface

variable {Mem : Type} {s t : Stub Mem}

/-! ## Reading the command -/

section Reading

theorem observes_commandByte {i : ℕ} (h : i < s.commandLength → i < GDB_BUFFER_SIZE) :
    Observes GdbAllowed (commandByte i) s (i < s.commandLength) (s.commandBuffer i) := by
  have hcells : (commandByte i s).1 = [.readCommand i s.commandLength] := by
    unfold commandByte
    by_cases hi : i < GDB_BUFFER_SIZE
    · simp only [if_pos hi]
      rfl
    · simp only [if_neg hi]
      rfl
  refine ⟨?_, fun hi => ?_⟩
  · unfold TouchesOnly
    rw [hcells]
    simp [GdbAllowed]
  · unfold Returns commandByte
    simp only [if_pos (h hi)]
    rfl

theorem observes_fieldLength {stop start : ℕ} (h : stop < 2 ^ 32) :
    Observes GdbAllowed (fieldLength stop start : StubM Mem ℕ) s (start ≤ stop) (stop - start) := by
  refine ⟨?_, fun hle => ?_⟩
  · have hcells : ((fieldLength stop start : StubM Mem ℕ) s).1 = [.fieldLength stop start] := rfl
    unfold TouchesOnly
    rw [hcells]
    simp [GdbAllowed]
  · have hvalue : u32 (stop + 2 ^ 32 - start) = stop - start := by
      unfold u32
      omega
    rw [← hvalue]
    rfl

variable (hn : s.commandLength ≤ GDB_BUFFER_SIZE)

include hn

theorem observes_hexToInt (len src output : ℕ) :
    Observes GdbAllowed (hexToInt len src output) s (len = 0 ∨ src + len ≤ s.commandLength)
      ((commandField s src (src + len)).foldl pushDigit output) := by
  induction len generalizing src output with
  | zero =>
    rw [Nat.add_zero, commandField, Nat.sub_self]
    exact (Observes.pure output).congr (by simp)
  | succ len ih =>
    have hfield : commandField s src (src + (len + 1)) =
        s.commandBuffer src :: commandField s (src + 1) (src + 1 + len) := by
      unfold commandField
      rw [show src + (len + 1) - src = len + 1 by omega, show src + 1 + len - (src + 1) = len by
        omega]
      rfl
    rw [hfield, List.foldl_cons]
    refine ((observes_commandByte (i := src) fun h => by omega).bind (ih (src + 1) _)).congr ?_
    omega

/-- The search ends at the first such character, or at the end of the command. -/
theorem observes_findFrom (c : UInt8) {fuel i : ℕ} (hi : i ≤ s.commandLength)
    (hfuel : s.commandLength - i < fuel) :
    Observes GdbAllowed (findFrom c s.commandLength fuel i) s True (separator s c i) := by
  induction fuel generalizing i with
  | zero => omega
  | succ fuel ih =>
    unfold findFrom
    by_cases hend : i = s.commandLength
    · have hplace : separator s c i = i := by
        unfold separator commandField
        rw [hend, Nat.sub_self]
        rfl
      rw [if_pos hend, hplace]
      exact Observes.pure i
    · rw [if_neg hend]
      have hfield : commandField s i s.commandLength =
          s.commandBuffer i :: commandField s (i + 1) s.commandLength := by
        unfold commandField
        rw [show s.commandLength - i = s.commandLength - (i + 1) + 1 by omega]
        rfl
      have hbyte := observes_commandByte (s := s) (i := i) fun h => by omega
      by_cases hc : s.commandBuffer i = c
      · have hplace : separator s c i = i := by
          unfold separator
          rw [hfield, List.takeWhile_cons_of_neg (by simpa using hc)]
          rfl
        refine (hbyte.bind (b := separator s c i) (d := True) ?_).congr
          (iff_true_intro ⟨by omega, trivial⟩)
        rw [if_pos hc, hplace]
        exact Observes.pure i
      · have hplace : separator s c i = separator s c (i + 1) := by
          unfold separator
          rw [hfield, List.takeWhile_cons_of_pos (by simpa using hc), List.length_cons]
          omega
        refine (hbyte.bind (b := separator s c i) (d := True) ?_).congr
          (iff_true_intro ⟨by omega, trivial⟩)
        rw [if_neg hc, hplace]
        exact ih (by omega) (by omega)

theorem observes_find (c : UInt8) (start : ℕ) :
    Observes GdbAllowed (find c start) s (start ≤ s.commandLength) (separator s c start) := by
  unfold find
  refine (Observes.get.bind (d := start ≤ s.commandLength) ?_).congr (by simp)
  by_cases hstart : start ≤ s.commandLength
  · refine (observes_findFrom hn c hstart ?_).congr (by simpa using hstart)
    omega
  · -- the first look is behind the command
    have hfalse : ¬ TouchesOnly GdbAllowed
        (findFrom c s.commandLength (GDB_BUFFER_SIZE + 1) start) s := by
      unfold findFrom
      rw [if_neg (by omega), (observes_commandByte fun h => by omega).bind_iff]
      exact fun h => hstart (by omega)
    exact ⟨iff_of_false hfalse hstart, fun h => absurd h hstart⟩

/-- The value of digits that stand from a place on, lowest byte first. -/
def digitsValue (s : Stub Mem) (src : ℕ) : ℕ → ℕ → ℕ
  | 0, output => output
  | n + 1, output => digitsValue s src n
      ((output * 16 + hexCharToValue (s.commandBuffer (src + 2 * n))) * 16 +
        hexCharToValue (s.commandBuffer (src + 2 * n + 1)))

theorem observes_gdbHexToNat (src n output : ℕ) :
    Observes GdbAllowed (gdbHexToNat src n output) s (n = 0 ∨ src + 2 * n ≤ s.commandLength)
      (digitsValue s src n output) := by
  induction n generalizing output with
  | zero => exact (Observes.pure output).congr (by simp)
  | succ n ih =>
    refine ((observes_commandByte (i := src + 2 * n) fun h => by omega).bind
      ((observes_commandByte (i := src + 2 * n + 1) fun h => by omega).bind (ih _))).congr ?_
    omega

theorem observes_gdbHexToInt (src : ℕ) :
    Observes GdbAllowed (gdbHexToInt src) s (src + 8 ≤ s.commandLength)
      (UInt32.ofNat (digitsValue s src 4 0)) :=
  ((observes_gdbHexToNat hn src 4 0).map UInt32.ofNat).congr (by omega)

theorem observes_gdbHexToLong (src : ℕ) :
    Observes GdbAllowed (gdbHexToLong src) s (src + 16 ≤ s.commandLength)
      (UInt64.ofNat (digitsValue s src 8 0)) :=
  ((observes_gdbHexToNat hn src 8 0).map UInt64.ofNat).congr (by omega)

theorem observes_gdbHexToMem (len src : ℕ) :
    ∃ data, Observes GdbAllowed (gdbHexToMem len src) s
      (len = 0 ∨ src + 2 * len ≤ s.commandLength) data := by
  induction len generalizing src with
  | zero => exact ⟨[], (Observes.pure []).congr (by simp)⟩
  | succ len ih =>
    obtain ⟨rest, hrest⟩ := ih (src + 2)
    refine ⟨_, ((observes_commandByte (i := src) fun h => by omega).bind
      ((observes_commandByte (i := src + 1) fun h => by omega).bind
        (hrest.map _))).congr ?_⟩
    omega

/-- A query is compared as far as it goes with a text, and one character further if it is
shorter. -/
theorem observes_queryIs (i : ℕ) (text : List UInt8) (hi : i ≤ s.commandLength) :
    ∃ found : Bool, Observes GdbAllowed (queryIs i text) s
      (commandField s i s.commandLength <+: text → i + text.length ≤ s.commandLength) found ∧
      (found = true ↔ text <+: commandField s i s.commandLength) := by
  induction text generalizing i with
  | nil =>
    refine ⟨true, (Observes.pure true).congr ?_, iff_of_true rfl List.nil_prefix⟩
    simpa using fun _ => hi
  | cons c text ih =>
    by_cases hend : i = s.commandLength
    · have hempty : commandField s i s.commandLength = [] := by
        unfold commandField
        rw [hend, Nat.sub_self]
        rfl
      refine ⟨false, ⟨iff_of_false ?_ ?_, fun h => absurd (h ?_) ?_⟩, iff_of_false ?_ ?_⟩
      · unfold queryIs
        rw [(observes_commandByte fun h => by omega).bind_iff]
        exact fun h => by omega
      · rw [hempty]
        intro h
        have hle := h List.nil_prefix
        rw [List.length_cons] at hle
        omega
      · rw [hempty]
        exact List.nil_prefix
      · rw [List.length_cons]
        omega
      · exact Bool.false_ne_true
      · rw [hempty, List.prefix_nil]
        exact List.cons_ne_nil c text
    · have hfield : commandField s i s.commandLength =
          s.commandBuffer i :: commandField s (i + 1) s.commandLength := by
        unfold commandField
        rw [show s.commandLength - i = s.commandLength - (i + 1) + 1 by omega]
        rfl
      have hbyte := observes_commandByte (s := s) (i := i) fun h => by omega
      rw [hfield, List.length_cons]
      by_cases hc : s.commandBuffer i = c
      · obtain ⟨found, hrest, hfound⟩ := ih (i + 1) (by omega)
        refine ⟨found, (hbyte.bind (d := commandField s (i + 1) s.commandLength <+: text →
          i + 1 + text.length ≤ s.commandLength) ?_).congr ?_, ?_⟩
        · rw [if_pos hc]
          exact hrest
        · rw [hc, List.cons_prefix_cons]
          constructor
          · rintro ⟨-, h⟩ ⟨-, hprefix⟩
            have hle := h hprefix
            omega
          · intro h
            refine ⟨by omega, fun hprefix => ?_⟩
            have hle := h ⟨rfl, hprefix⟩
            omega
        · rw [hc, List.cons_prefix_cons, hfound]
          exact (and_iff_right rfl).symm
      · refine ⟨false, (hbyte.bind (d := True) ?_).congr ?_, iff_of_false Bool.false_ne_true ?_⟩
        · rw [if_neg hc]
          exact Observes.pure false
        · rw [List.cons_prefix_cons]
          constructor
          · rintro - ⟨heq, -⟩
            exact absurd heq hc
          · exact fun _ => ⟨by omega, trivial⟩
        · rw [List.cons_prefix_cons]
          exact fun h => hc h.1.symm

end Reading

/-! ## What is always within bounds -/

section Safe

variable {α β : Type}

/-- From every state, the computation stays within bounds. -/
def GdbSafe (x : StubM Mem α) : Prop := ∀ s, TouchesOnly GdbAllowed x s

theorem GdbSafe.bind {x : StubM Mem α} {f : α → StubM Mem β} (hx : GdbSafe x)
    (hf : ∀ a, GdbSafe (f a)) : GdbSafe (x >>= f) :=
  fun s => touchesOnly_bind.mpr ⟨hx s, fun a t _ => hf a t⟩

theorem GdbSafe.pure (a : α) : GdbSafe (pure a : StubM Mem α) := fun _ => touchesOnly_pure

theorem GdbSafe.get : GdbSafe (get : StubM Mem (Stub Mem)) := fun _ => touchesOnly_get

theorem GdbSafe.modify (f : Stub Mem → Stub Mem) : GdbSafe (modify f : StubM Mem Unit) :=
  fun _ => touchesOnly_modify

theorem GdbSafe.stop (e : Fault) : GdbSafe (stop e : StubM Mem α) := fun _ => touchesOnly_stop

theorem GdbSafe.forM {ι : Type} {f : ι → StubM Mem PUnit} (xs : List ι)
    (h : ∀ x ∈ xs, GdbSafe (f x)) : GdbSafe (xs.forM f) := by
  induction xs with
  | nil => exact GdbSafe.pure _
  | cons x xs ih =>
    refine GdbSafe.bind (h x List.mem_cons_self) fun _ => ih fun y hy => ?_
    exact h y (List.mem_cons_of_mem x hy)

theorem gdbSafe_writeCommand {i : ℕ} (h : i < GDB_BUFFER_SIZE) (c : UInt8) :
    GdbSafe (writeCommand i c : StubM Mem Unit) := by
  intro s
  unfold writeCommand
  rw [touchesOnly_touch_bind, if_pos h]
  refine ⟨fun cell hcell => ?_, touchesOnly_modify⟩
  rw [List.mem_singleton.mp hcell]
  exact h

theorem gdbSafe_writeReply (b : ReplyBuffer) {i : ℕ} {text : List UInt8}
    (h : i + text.length ≤ b.size) : GdbSafe (writeReply b i text : StubM Mem Unit) := by
  induction text generalizing i with
  | nil => exact GdbSafe.pure _
  | cons c text ih =>
    rw [List.length_cons] at h
    intro s
    unfold writeReply
    rw [touchesOnly_touch_bind, if_pos (by omega)]
    refine ⟨fun cell hcell => ?_, ?_⟩
    · rw [List.mem_singleton.mp hcell]
      exact Nat.lt_of_lt_of_le (by omega) h
    · exact GdbSafe.bind (GdbSafe.modify _) (fun _ => ih (by omega)) s

@[simp] theorem length_gdbHexDigits (n v : ℕ) : (gdbHexDigits n v).length = 2 * n := by
  induction n generalizing v with
  | zero => rfl
  | succ n ih =>
    rw [gdbHexDigits, List.length_cons, List.length_cons, ih]
    omega

@[simp] theorem length_packetOf (reply : List UInt8) :
    (packetOf reply).length = reply.length + 4 := by
  simp [packetOf]

theorem gdbSafe_sendReply (reply : List UInt8) : GdbSafe (sendReply reply : StubM Mem Unit) := by
  unfold sendReply
  refine GdbSafe.bind GdbSafe.get fun s => ?_
  split
  next =>
    refine GdbSafe.bind (GdbSafe.modify _) fun _ => ?_
    split
    next hlength =>
      refine GdbSafe.bind (GdbSafe.forM _ fun ci hci => ?_) fun _ => GdbSafe.modify _
      have hi := List.snd_lt_of_mem_zipIdx hci
      rw [length_packetOf] at hi
      exact gdbSafe_writeCommand (by omega) _
    next => exact GdbSafe.pure _
  next => exact GdbSafe.pure _

theorem gdbSafe_sendBuffer (b : ReplyBuffer) : GdbSafe (sendBuffer b : StubM Mem Unit) := by
  unfold sendBuffer
  refine GdbSafe.bind GdbSafe.get fun s => ?_
  dsimp only
  split
  next => exact gdbSafe_sendReply _
  next => exact GdbSafe.stop _

theorem gdbSafe_sendSignal (thread : Option ℕ) (signal : ℕ) :
    GdbSafe (sendSignal thread signal : StubM Mem Unit) := by
  unfold sendSignal
  refine GdbSafe.bind GdbSafe.get fun s => ?_
  split
  next =>
    refine GdbSafe.bind (GdbSafe.modify _) fun _ => GdbSafe.bind GdbSafe.get fun s => ?_
    dsimp only
    split
    next => exact gdbSafe_sendReply _
    next => exact gdbSafe_sendReply _
  next => exact GdbSafe.pure _

theorem gdbSafe_readContext (thread : Option ℕ) (absent : α) (read : ThreadContext → α) :
    GdbSafe (readContext thread absent read : StubM Mem α) :=
  GdbSafe.bind GdbSafe.get fun _ => GdbSafe.pure _

theorem gdbSafe_writeContext (thread : Option ℕ) (write : ThreadContext → ThreadContext) :
    GdbSafe (writeContext thread write : StubM Mem Unit) := by
  unfold writeContext
  split
  next => exact GdbSafe.pure _
  next => exact GdbSafe.modify _

theorem gdbSafe_loadCurrentContext : GdbSafe (loadCurrentContext : StubM Mem Unit) := by
  unfold loadCurrentContext
  refine GdbSafe.bind GdbSafe.get fun s => ?_
  split
  next => exact GdbSafe.stop _
  next => exact GdbSafe.modify _

/-- What ends the writing of registers. -/
theorem gdbSafe_loadAndAnswer (text : List UInt8) : GdbSafe (do
    loadCurrentContext
    sendReply text : StubM Mem Unit) :=
  GdbSafe.bind gdbSafe_loadCurrentContext fun _ => gdbSafe_sendReply text

theorem gdbSafe_readRegisters : GdbSafe (readRegisters : StubM Mem Unit) := by
  have hint : ∀ (dest : ℕ) (v : UInt32), dest + 8 ≤ ReplyBuffer.registers.size →
      GdbSafe (intToGdbHex .registers dest v : StubM Mem Unit) := fun dest v h =>
    gdbSafe_writeReply _ (by simpa using h)
  have hlong : ∀ (dest : ℕ) (v : UInt64), dest + 16 ≤ ReplyBuffer.registers.size →
      GdbSafe (longToGdbHex .registers dest v : StubM Mem Unit) := fun dest v h =>
    gdbSafe_writeReply _ (by simpa using h)
  have hsize : ReplyBuffer.registers.size = 9996 := rfl
  unfold readRegisters
  refine GdbSafe.bind (GdbSafe.modify _) fun _ => GdbSafe.bind GdbSafe.get fun s => ?_
  refine GdbSafe.bind (GdbSafe.forM _ fun reg hreg => ?_) fun _ => ?_
  · refine GdbSafe.bind (gdbSafe_readContext _ _ _) fun v => hint _ v ?_
    have hlt := List.mem_range.mp hreg
    unfold PC_REGISTER at hlt
    omega
  refine GdbSafe.bind (gdbSafe_readContext _ _ _) fun v => ?_
  refine GdbSafe.bind (hint _ v (by omega)) fun _ => ?_
  refine GdbSafe.bind (GdbSafe.forM _ fun reg hreg => ?_) fun _ => ?_
  · refine GdbSafe.bind (gdbSafe_readContext _ _ _) fun v => hlong _ v ?_
    have hlt := (List.mem_range'_1.mp hreg).2
    unfold D0_REGISTER FPSCR_REGISTER at hlt
    omega
  refine GdbSafe.bind (gdbSafe_readContext _ _ _) fun v => ?_
  exact GdbSafe.bind (hint _ _ (by omega)) fun _ => gdbSafe_sendBuffer _

variable (memory : ProcessMemory Mem)

theorem gdbSafe_commitBreakpoint (type : BreakpointType) (addr len : ℕ) :
    GdbSafe (commitBreakpoint memory type addr len) := by
  unfold commitBreakpoint
  refine GdbSafe.bind GdbSafe.get fun s => ?_
  dsimp only
  split
  next => exact GdbSafe.bind (GdbSafe.modify _) fun _ => GdbSafe.modify _
  next => exact GdbSafe.modify _

theorem gdbSafe_eraseBreakpoint (type : BreakpointType) (addr : ℕ) :
    GdbSafe (eraseBreakpoint memory type addr) := by
  unfold eraseBreakpoint
  refine GdbSafe.bind GdbSafe.get fun s => ?_
  split
  next => exact GdbSafe.pure _
  next =>
    split
    next => exact GdbSafe.bind (GdbSafe.modify _) fun _ => GdbSafe.modify _
    next => exact GdbSafe.modify _

end Safe

/-! ## Handlers -/

section Handlers

variable (memory : ProcessMemory Mem) (hn : s.commandLength ≤ GDB_BUFFER_SIZE)

/-- The texts are tried one after the other until one is found. -/
def Tries (s : Stub Mem) : List (List UInt8) → Prop
  | [] => True
  | text :: texts =>
      (commandField s 1 s.commandLength <+: text → text.length < s.commandLength) ∧
        (text <+: commandField s 1 s.commandLength ∨ Tries s texts)

/-- A text that is found begins none of the others, so these are not compared to their end. -/
theorem tries_iff {texts : List (List UInt8)} (h : texts.Pairwise fun a b => ¬ a <+: b) :
    Tries s texts ↔ ∀ text ∈ texts, commandField s 1 s.commandLength <+: text →
      text.length < s.commandLength := by
  induction texts with
  | nil => simp [Tries]
  | cons text texts ih =>
    obtain ⟨hothers, htexts⟩ := List.pairwise_cons.mp h
    rw [Tries, List.forall_mem_cons, ih htexts]
    apply and_congr_right
    intro _
    constructor
    · rintro (hfound | hrest)
      · intro text' htext' hprefix
        exact absurd (hfound.trans hprefix) (hothers text' htext')
      · exact hrest
    · exact Or.inr

include hn

theorem queryIs_safe_iff (hpos : 0 < s.commandLength) (text : List UInt8)
    {found other : StubM Mem Unit} (hfound : GdbSafe found) :
    TouchesOnly GdbAllowed (do if ← queryIs 1 text then found else other) s ↔
      (commandField s 1 s.commandLength <+: text → text.length < s.commandLength) ∧
        (text <+: commandField s 1 s.commandLength ∨ TouchesOnly GdbAllowed other s) := by
  obtain ⟨answer, hlook, hanswer⟩ := observes_queryIs hn 1 text hpos
  rw [hlook.bind_iff]
  apply and_congr
  · constructor
    · intro h hprefix
      have hle := h hprefix
      omega
    · intro h hprefix
      have hlt := h hprefix
      omega
  · cases answer with
    | true =>
      rw [if_pos rfl]
      exact iff_of_true (hfound s) (Or.inl (hanswer.mp rfl))
    | false =>
      rw [if_neg (by decide)]
      have hnot : ¬ text <+: commandField s 1 s.commandLength := fun h => by
        cases hanswer.mpr h
      exact (or_iff_right hnot).symm

theorem handleQuery_safe_iff (hpos : 0 < s.commandLength) :
    TouchesOnly GdbAllowed handleQuery s ↔
      ∀ text ∈ queryTexts, commandField s 1 s.commandLength <+: text →
        text.length < s.commandLength := by
  rw [← tries_iff (by decide +kernel)]
  unfold handleQuery
  have hthreads : ∀ reply : Stub Mem → List UInt8,
      GdbSafe (do sendReply (reply (← get)) : StubM Mem Unit) := fun reply =>
    GdbSafe.bind GdbSafe.get fun s => gdbSafe_sendReply _
  rw [queryIs_safe_iff hn hpos _ (gdbSafe_sendReply _),
    queryIs_safe_iff hn hpos _ (gdbSafe_sendReply _),
    queryIs_safe_iff hn hpos _ (gdbSafe_sendReply _),
    queryIs_safe_iff hn hpos _ (hthreads _),
    queryIs_safe_iff hn hpos _ (gdbSafe_sendReply _),
    queryIs_safe_iff hn hpos _ (hthreads _)]
  simp only [queryTexts, Tries, iff_true_intro (gdbSafe_sendReply [] s)]

theorem handleSetThread_safe_iff :
    TouchesOnly GdbAllowed handleSetThread s ↔ 3 ≤ s.commandLength := by
  have hanswer : GdbSafe (do
      if (← get).currentThread.isSome then sendReply (ascii "OK")
      else sendReply (ascii "E01") : StubM Mem Unit) := by
    refine GdbSafe.bind GdbSafe.get fun s => ?_
    split
    next => exact gdbSafe_sendReply _
    next => exact gdbSafe_sendReply _
  have hrest : GdbSafe (do
      if (← get).currentThread.isNone then
        modify fun s => { s with currentThread := findThreadById s 1 }
      else pure ()
      if (← get).currentThread.isSome then sendReply (ascii "OK")
      else sendReply (ascii "E01") : StubM Mem Unit) := by
    refine GdbSafe.bind GdbSafe.get fun s => ?_
    dsimp only
    split
    next => exact GdbSafe.bind (GdbSafe.modify _) fun _ => hanswer
    next => exact hanswer
  unfold handleSetThread
  rw [(observes_commandByte fun h => by omega).bind_iff]
  by_cases hmark : s.commandBuffer 2 ≠ byteOf '-'
  · rw [if_pos hmark, touchesOnly_get_bind,
      (observes_fieldLength (by unfold GDB_BUFFER_SIZE at hn; omega)).bind_iff,
      (observes_hexToInt hn _ _ _).bind_iff]
    have htail : ∀ id : ℕ, GdbSafe (do
        if 1 ≤ id ∧ id < 2 ^ 31 then
          modify fun s => { s with currentThread := findThreadById s id }
        else pure ()
        if (← get).currentThread.isNone then
          modify fun s => { s with currentThread := findThreadById s 1 }
        else pure ()
        if (← get).currentThread.isSome then sendReply (ascii "OK")
        else sendReply (ascii "E01") : StubM Mem Unit) := by
      intro id
      dsimp only
      split
      next => exact GdbSafe.bind (GdbSafe.modify _) fun _ => hrest
      next => exact hrest
    simp only [htail _ s, and_true]
    omega
  · rw [if_neg hmark]
    simp only [hrest s, and_true]
    omega

theorem handleThreadAlive_safe (hpos : 0 < s.commandLength) :
    TouchesOnly GdbAllowed handleThreadAlive s := by
  unfold handleThreadAlive
  rw [touchesOnly_get_bind,
    (observes_fieldLength (by unfold GDB_BUFFER_SIZE at hn; omega)).bind_iff,
    (observes_hexToInt hn _ _ _).bind_iff]
  refine ⟨by omega, by omega, ?_⟩
  dsimp only
  generalize (if _ = 0 then 1 else _ : ℕ) = id
  refine GdbSafe.bind GdbSafe.get (fun s => ?_) s
  split
  next => exact gdbSafe_sendReply _
  next => exact gdbSafe_sendReply _

omit hn in
/-- What `ReadRegister` does once it knows the register. -/
theorem gdbSafe_answerRegister (id : ℕ) (thread : Option ℕ) : GdbSafe (do
    if id ≤ PC_REGISTER ∨ id = CPSR_REGISTER then
      intToGdbHex .register 0 (← regRead id thread)
      sendBuffer .register
    else if D0_REGISTER ≤ id ∧ id < FPSCR_REGISTER then
      longToGdbHex .register 0 (← fpuRead id thread)
      sendBuffer .register
    else if id = FPSCR_REGISTER then
      intToGdbHex .register 0 (← fpuRead id thread).toUInt32
      sendBuffer .register
    else sendReply (ascii "E01") : StubM Mem Unit) := by
  have hint : ∀ v : UInt32, GdbSafe (intToGdbHex .register 0 v : StubM Mem Unit) := fun v =>
    gdbSafe_writeReply _ (by rw [length_gdbHexDigits]; decide)
  have hlong : ∀ v : UInt64, GdbSafe (longToGdbHex .register 0 v : StubM Mem Unit) := fun v =>
    gdbSafe_writeReply _ (by rw [length_gdbHexDigits]; decide)
  split
  next =>
    refine GdbSafe.bind (gdbSafe_readContext _ _ _) fun v => ?_
    exact GdbSafe.bind (hint v) fun _ => gdbSafe_sendBuffer _
  next =>
    split
    next =>
      refine GdbSafe.bind (gdbSafe_readContext _ _ _) fun v => ?_
      exact GdbSafe.bind (hlong v) fun _ => gdbSafe_sendBuffer _
    next =>
      split
      next =>
        refine GdbSafe.bind (gdbSafe_readContext _ _ _) fun v => ?_
        exact GdbSafe.bind (hint _) fun _ => gdbSafe_sendBuffer _
      next => exact gdbSafe_sendReply _

theorem readRegister_safe_iff :
    TouchesOnly GdbAllowed readRegister s ↔ 3 ≤ s.commandLength := by
  unfold readRegister clearReply
  rw [touchesOnly_modify_bind, touchesOnly_get_bind,
    (observes_commandByte fun h => by dsimp only at h ⊢; omega).bind_iff,
    (observes_commandByte fun h => by dsimp only at h ⊢; omega).bind_iff]
  dsimp only
  simp only [gdbSafe_answerRegister _ _ _, and_true]
  omega

theorem writeRegister_safe_iff :
    TouchesOnly GdbAllowed writeRegister s ↔ 3 ≤ s.commandLength ∧
      (registerDigits (writtenRegister s) = 0 ∨
        valuePlace s + registerDigits (writtenRegister s) ≤ s.commandLength) := by
  have hwrite : ∀ write : ThreadContext → ThreadContext, GdbSafe (do
      writeContext s.currentThread write
      loadCurrentContext
      sendReply (ascii "OK") : StubM Mem Unit) := fun write =>
    GdbSafe.bind (gdbSafe_writeContext _ _) fun _ => gdbSafe_loadAndAnswer _
  unfold writeRegister
  rw [touchesOnly_get_bind, (observes_commandByte fun h => by omega).bind_iff,
    (observes_commandByte fun h => by omega).bind_iff]
  dsimp only
  rw [show (if s.commandBuffer 2 ≠ byteOf '=' then 4 else 3) = valuePlace s from rfl,
    show (if s.commandBuffer 2 ≠ byteOf '=' then
      hexCharToValue (s.commandBuffer 1) * 16 + hexCharToValue (s.commandBuffer 2)
      else hexCharToValue (s.commandBuffer 1)) = writtenRegister s from rfl]
  generalize writtenRegister s = id
  generalize valuePlace s = value
  have hvalue : TouchesOnly GdbAllowed (do
      if id ≤ PC_REGISTER ∨ id = CPSR_REGISTER then
        regWrite id (← gdbHexToInt value) s.currentThread
        loadCurrentContext
        sendReply (ascii "OK")
      else if D0_REGISTER ≤ id ∧ id < FPSCR_REGISTER then
        fpuWrite id (← gdbHexToLong value) s.currentThread
        loadCurrentContext
        sendReply (ascii "OK")
      else if id = FPSCR_REGISTER then
        fpuWrite id (← gdbHexToInt value).toUInt64 s.currentThread
        loadCurrentContext
        sendReply (ascii "OK")
      else sendReply (ascii "E01")) s ↔
      registerDigits id = 0 ∨ value + registerDigits id ≤ s.commandLength := by
    unfold registerDigits
    by_cases hcore : id ≤ PC_REGISTER ∨ id = CPSR_REGISTER
    · rw [if_pos hcore, if_pos (by tauto), (observes_gdbHexToInt hn value).bind_iff]
      simp only [regWrite, hwrite _ s, and_true]
      omega
    · rw [if_neg hcore]
      by_cases hdouble : D0_REGISTER ≤ id ∧ id < FPSCR_REGISTER
      · rw [if_pos hdouble, if_neg (by omega), if_pos hdouble,
          (observes_gdbHexToLong hn value).bind_iff]
        simp only [fpuWrite, hwrite _ s, and_true]
        omega
      · rw [if_neg hdouble]
        by_cases hfpscr : id = FPSCR_REGISTER
        · rw [if_pos hfpscr, if_pos (by tauto), (observes_gdbHexToInt hn value).bind_iff]
          simp only [fpuWrite, hwrite _ s, and_true]
          omega
        · rw [if_neg hfpscr, if_neg (by tauto), if_neg hdouble]
          simp [gdbSafe_sendReply _ s]
  rw [hvalue]
  omega

/-- The places and lengths of the values that `WriteRegisters` reads. -/
def bulkValues : ℕ → ℕ → ℕ → List (ℕ × ℕ)
  | 0, _, _ => []
  | n + 1, i, reg =>
      if reg ≤ PC_REGISTER ∨ reg = CPSR_REGISTER then
        (1 + i * 8, 8) :: bulkValues n (i + 1) (reg + 1)
      else if reg = CPSR_REGISTER - 1 then bulkValues n (i + 1) (reg + 1)
      else if reg < CPSR_REGISTER then bulkValues n (i + 3) (reg + 1)
      else if D0_REGISTER ≤ reg ∧ reg < FPSCR_REGISTER then
        (1 + i * 16, 16) :: bulkValues n (i + 2) (reg + 1)
      else (1 + i * 8, 8) :: bulkValues n (i + 1) (reg + 1)

/-- `WriteRegisters` reads its values and changes nothing. -/
theorem observes_writeRegistersFrom (n i reg : ℕ) :
    Observes GdbAllowed (writeRegistersFrom n i reg) s
      (∀ v ∈ bulkValues n i reg, v.1 + v.2 ≤ s.commandLength) () := by
  induction n generalizing i reg with
  | zero => exact (Observes.pure ()).congr (by simp [bulkValues])
  | succ n ih =>
    have hint : ∀ (write : UInt32 → StubM Mem Unit) (i' : ℕ), (∀ v, write v = pure ()) →
        Observes GdbAllowed (do
          write (← gdbHexToInt (1 + i * 8))
          writeRegistersFrom n i' (reg + 1)) s
          (∀ v ∈ (1 + i * 8, 8) :: bulkValues n i' (reg + 1), v.1 + v.2 ≤ s.commandLength) () := by
      intro write i' hwrite
      refine ((observes_gdbHexToInt hn _).bind (d := True ∧ _)
        (Observes.bind (a := ()) ?_ (ih i' (reg + 1)))).congr ?_
      · rw [hwrite]
        exact Observes.pure ()
      · rw [List.forall_mem_cons]
        tauto
    unfold writeRegistersFrom bulkValues
    by_cases hcore : reg ≤ PC_REGISTER
    · rw [if_pos hcore, if_pos (Or.inl hcore)]
      exact hint _ _ fun _ => rfl
    rw [if_neg hcore]
    by_cases hcpsr : reg = CPSR_REGISTER
    · rw [if_pos hcpsr, if_pos (Or.inr hcpsr)]
      exact hint _ _ fun _ => rfl
    have hneither : ¬ (reg ≤ PC_REGISTER ∨ reg = CPSR_REGISTER) := by tauto
    rw [if_neg hcpsr, if_neg hneither]
    by_cases hdummy : reg = CPSR_REGISTER - 1
    · rw [if_pos hdummy, if_pos hdummy]
      exact ih _ _
    rw [if_neg hdummy, if_neg hdummy]
    by_cases hdummies : reg < CPSR_REGISTER
    · rw [if_pos hdummies, if_pos hdummies]
      exact ih _ _
    rw [if_neg hdummies, if_neg hdummies]
    by_cases hdouble : D0_REGISTER ≤ reg ∧ reg < FPSCR_REGISTER
    · rw [if_pos hdouble, if_pos hdouble]
      refine ((observes_gdbHexToLong hn _).bind (d := True ∧ _)
        (Observes.bind (a := ()) (Observes.pure ()) (ih _ _))).congr ?_
      rw [List.forall_mem_cons]
      tauto
    · rw [if_neg hdouble, if_neg hdouble]
      exact hint _ _ fun _ => rfl

theorem writeRegisters_safe_iff (hkind : s.commandBuffer 0 = byteOf 'G')
    (hpos : 0 < s.commandLength) :
    TouchesOnly GdbAllowed writeRegisters s ↔ 1169 ≤ s.commandLength := by
  unfold writeRegisters
  rw [(observes_commandByte fun h => by omega).bind_iff, if_neg (by simp [hkind]),
    (observes_writeRegistersFrom hn _ _ _).bind_iff,
    iff_true_intro (gdbSafe_loadAndAnswer (ascii "OK") s)]
  have hlast : (1153, 16) ∈ bulkValues (FPSCR_REGISTER + 1) 0 0 := by decide
  have hall : ∀ v ∈ bulkValues (FPSCR_REGISTER + 1) 0 0, v.1 + v.2 ≤ 1169 := by decide
  constructor
  · rintro ⟨-, h, -⟩
    exact h _ hlast
  · intro h
    exact ⟨hpos, fun v hv => Nat.le_trans (hall v hv) h, trivial⟩

end Handlers

/-! ## Replies -/

section Replies

/-- A buffer with a text written into it. -/
def putText (f : ℕ → UInt8) : ℕ → List UInt8 → ℕ → UInt8
  | _, [] => f
  | i, c :: text => putText (Function.update f i c) (i + 1) text

/-- A text that fits is written. -/
theorem returns_writeReply (b : ReplyBuffer) {i : ℕ} {text : List UInt8}
    (h : i + text.length ≤ b.size) (s : Stub Mem) :
    Returns (writeReply b i text) s ()
      { s with replies := Function.update s.replies b (putText (s.replies b) i text) } := by
  induction text generalizing i s with
  | nil => exact returns_pure.mpr ⟨rfl, by rw [putText, Function.update_eq_self]⟩
  | cons c text ih =>
    rw [List.length_cons] at h
    unfold writeReply
    refine returns_bind.mpr ⟨(), s, returns_touch.mpr rfl, ?_⟩
    rw [if_pos (by omega)]
    refine returns_bind.mpr ⟨(), _, returns_modify.mpr rfl, ?_⟩
    have hrest := ih (i := i + 1) (by omega)
      { s with replies := Function.update s.replies b (Function.update (s.replies b) i c) }
    simpa [putText] using hrest

/-- Bytes are written into the command's buffer. -/
theorem returns_writeCommands (cells : List (UInt8 × ℕ)) (h : ∀ c ∈ cells, c.2 < GDB_BUFFER_SIZE)
    (s : Stub Mem) : ∃ buffer, Returns (cells.forM fun (c, i) => writeCommand i c) s ()
      { s with commandBuffer := buffer } := by
  induction cells generalizing s with
  | nil => exact ⟨s.commandBuffer, returns_pure.mpr ⟨rfl, rfl⟩⟩
  | cons cell cells ih =>
    obtain ⟨hcell, hcells⟩ := List.forall_mem_cons.mp h
    let s₁ := { s with commandBuffer := Function.update s.commandBuffer cell.2 cell.1 }
    obtain ⟨buffer, hrest⟩ := ih hcells s₁
    refine ⟨buffer, returns_bind.mpr ⟨(), s₁, ?_, hrest⟩⟩
    refine returns_bind.mpr ⟨(), s, returns_touch.mpr rfl, ?_⟩
    rw [if_pos hcell]
    exact returns_modify.mpr rfl

/-- A reply is sent if it fits into the buffer of commands. -/
theorem returns_sendReply (reply : List UInt8) (s : Stub Mem) (h : s.connected = true)
    (hlength : reply.length + 4 ≤ GDB_BUFFER_SIZE) :
    ∃ buffer, Returns (sendReply reply) s ()
      { s with
        commandBuffer := buffer
        commandLength := reply.length
        sent := s.sent ++ [packetOf reply] } := by
  obtain ⟨buffer, hwrites⟩ := returns_writeCommands (packetOf reply).zipIdx (fun c hc => by
    have hi := List.snd_lt_of_mem_zipIdx hc
    rw [length_packetOf] at hi
    omega) { s with commandBuffer := fun _ => 0, commandLength := reply.length }
  refine ⟨buffer, returns_bind.mpr ⟨s, s, returns_get.mpr ⟨rfl, rfl⟩, ?_⟩⟩
  rw [if_pos h]
  refine returns_bind.mpr ⟨(), _, returns_modify.mpr rfl, ?_⟩
  rw [if_pos hlength]
  exact returns_bind.mpr ⟨(), _, hwrites, returns_modify.mpr rfl⟩

/-- What sending a reply leaves: the program is as it was, and the buffer holds a packet or no
command. -/
theorem exists_returns_sendReply (reply : List UInt8) (s : Stub Mem)
    (h : s.commandLength ≤ GDB_BUFFER_SIZE) :
    ∃ t, Returns (sendReply reply) s () t ∧ t.debuggee = s.debuggee ∧
      (t.commandLength ≤ GDB_BUFFER_SIZE ∨ packetKind (t.commandBuffer 0) = .unknown) := by
  by_cases hconnected : s.connected = true
  · by_cases hlength : reply.length + 4 ≤ GDB_BUFFER_SIZE
    · obtain ⟨buffer, hrun⟩ := returns_sendReply reply s hconnected hlength
      refine ⟨_, hrun, rfl, Or.inl ?_⟩
      dsimp only
      omega
    · let t := { s with commandBuffer := fun _ => 0, commandLength := reply.length }
      have hempty : packetKind 0 = .unknown := by decide
      refine ⟨t, returns_bind.mpr ⟨s, s, returns_get.mpr ⟨rfl, rfl⟩, ?_⟩, rfl, Or.inr hempty⟩
      rw [if_pos hconnected]
      refine returns_bind.mpr ⟨(), t, returns_modify.mpr rfl, ?_⟩
      rw [if_neg hlength]
      exact returns_pure.mpr ⟨rfl, rfl⟩
  · refine ⟨s, returns_bind.mpr ⟨s, s, returns_get.mpr ⟨rfl, rfl⟩, ?_⟩, rfl, Or.inl h⟩
    rw [if_neg hconnected]
    exact returns_pure.mpr ⟨rfl, rfl⟩

theorem sendReply_leaves {reply : List UInt8} (hn : s.commandLength ≤ GDB_BUFFER_SIZE)
    (h : Returns (sendReply reply) s () t) :
    t.commandLength ≤ GDB_BUFFER_SIZE ∨ packetKind (t.commandBuffer 0) = .unknown := by
  obtain ⟨t', hrun, -, hleft⟩ := exists_returns_sendReply reply s hn
  obtain ⟨-, rfl⟩ := hrun.unique h
  exact hleft

theorem sendSignal_leaves {thread : Option ℕ} {signal : ℕ}
    (hn : s.commandLength ≤ GDB_BUFFER_SIZE) (h : Returns (sendSignal thread signal) s () t) :
    t.commandLength ≤ GDB_BUFFER_SIZE ∨ packetKind (t.commandBuffer 0) = .unknown := by
  obtain ⟨s₁, _, hget, h⟩ := returns_bind.mp h
  obtain ⟨rfl, rfl⟩ := returns_get.mp hget
  by_cases hconnected : s.connected = true
  · rw [if_pos hconnected] at h
    obtain ⟨_, s₂, hsignal, h⟩ := returns_bind.mp h
    obtain rfl := returns_modify.mp hsignal
    obtain ⟨s₃, _, hget, h⟩ := returns_bind.mp h
    obtain ⟨rfl, rfl⟩ := returns_get.mp hget
    dsimp only at h
    cases thread with
    | none => exact sendReply_leaves (s := { s with latestSignal := signal }) hn h
    | some _ => exact sendReply_leaves (s := { s with latestSignal := signal }) hn h
  · rw [if_neg hconnected] at h
    obtain ⟨-, rfl⟩ := returns_pure.mp h
    exact Or.inl hn

end Replies

/-! ## Memory and breakpoints -/

section MemoryPackets

/-- A separator is looked for between a place and the end of the command. -/
theorem separator_bounds {c : UInt8} {start : ℕ} (h : start ≤ s.commandLength) :
    start ≤ separator s c start ∧ separator s c start ≤ s.commandLength := by
  have hle := (List.takeWhile_sublist (l := commandField s start s.commandLength)
    fun b => decide (b ≠ c)).length_le
  unfold separator
  simp only [commandField, List.length_map, List.length_range'] at hle ⊢
  omega

variable (memory : ProcessMemory Mem) (hn : s.commandLength ≤ GDB_BUFFER_SIZE)
  (hpos : 0 < s.commandLength)

@[simp] theorem length_memToGdbHex (bytes : List UInt8) :
    (memToGdbHex bytes).length = bytes.length * 2 := by
  induction bytes with
  | nil => rfl
  | cons byte bytes ih =>
    have hcons : memToGdbHex (byte :: bytes) =
        [nibbleToHex (byte.toNat / 16), nibbleToHex byte.toNat] ++ memToGdbHex bytes := rfl
    rw [hcons, List.length_append, ih, List.length_cons, List.length_cons, List.length_cons,
      List.length_nil]
    omega

/-- Writing a text into a buffer of replies. -/
theorem writeReply_safe_iff (b : ReplyBuffer) (i : ℕ) (text : List UInt8) :
    TouchesOnly GdbAllowed (writeReply b i text : StubM Mem Unit) s ↔
      text = [] ∨ i + text.length ≤ b.size := by
  induction text generalizing i s with
  | nil => exact iff_of_true touchesOnly_pure (Or.inl rfl)
  | cons c text ih =>
    unfold writeReply
    rw [touchesOnly_touch_bind]
    by_cases hi : i < b.size
    · rw [if_pos hi, touchesOnly_modify_bind, ih]
      simp only [List.mem_singleton, forall_eq, GdbAllowed, List.length_cons, reduceCtorEq,
        false_or]
      constructor
      · rintro ⟨-, rfl | hrest⟩
        · rw [List.length_nil]
          omega
        · omega
      · intro h
        exact ⟨hi, Or.inr (by omega)⟩
    · simp only [List.mem_singleton, forall_eq, GdbAllowed, List.length_cons, reduceCtorEq,
        false_or]
      exact iff_of_false (fun h => hi h.1) (by omega)

/-- The answer of `ReadMemory` stays in its buffer when it fits with its end. -/
theorem answerMemory_safe_iff (len : ℕ) (data : List UInt8) (hdata : data.length = len) :
    TouchesOnly GdbAllowed (do
      touch [.copyMemory len]
      writeReply .memory 0 (memToGdbHex data)
      writeReply .memory (u32 (len * 2)) [0]
      sendBuffer .memory : StubM Mem Unit) s ↔ len * 2 < ReplyBuffer.memory.size := by
  have hsize : ReplyBuffer.memory.size = 9996 := rfl
  rw [touchesOnly_touch_bind, touchesOnly_bind, writeReply_safe_iff, length_memToGdbHex, hdata]
  simp only [List.mem_singleton, forall_eq, GdbAllowed]
  constructor
  · rintro ⟨hcopy, htext, hrest⟩
    by_contra hlong
    have hfits : 0 + (memToGdbHex data).length ≤ ReplyBuffer.memory.size := by
      rw [length_memToGdbHex, hdata]
      omega
    have hend := (touchesOnly_bind.mp (hrest () _ (returns_writeReply _ hfits s))).1
    rw [writeReply_safe_iff] at hend
    simp only [u32, List.length_singleton, reduceCtorEq, false_or] at hend
    omega
  · intro hlen
    refine ⟨by omega, by omega, fun _ t _ => ?_⟩
    refine GdbSafe.bind (gdbSafe_writeReply _ ?_) (fun _ => gdbSafe_sendBuffer _) t
    simp only [u32, List.length_singleton]
    omega

include hn hpos

theorem readMemory_safe_iff :
    TouchesOnly GdbAllowed (readMemory memory) s ↔
      separator s (byteOf ',') 1 < s.commandLength ∧
        (memory.isValidVirtualAddress s.debuggee.memory
            (fieldValue s 1 (separator s (byteOf ',') 1)) = true →
          fieldValue s (separator s (byteOf ',') 1 + 1) s.commandLength * 2 <
            ReplyBuffer.memory.size) := by
  have hsmall : s.commandLength < 2 ^ 32 := by
    unfold GDB_BUFFER_SIZE at hn
    omega
  have hanswer : ∀ (addr len : ℕ) (t : Stub Mem), t.debuggee = s.debuggee →
      (TouchesOnly GdbAllowed (do
        let mem := (← get).debuggee.memory
        if memory.isValidVirtualAddress mem addr then
          touch [.copyMemory len]
          writeReply .memory 0 (memToGdbHex (memory.readBlock mem addr len))
          writeReply .memory (u32 (len * 2)) [0]
          sendBuffer .memory
        else sendReply (ascii "E00")) t ↔
        (memory.isValidVirtualAddress s.debuggee.memory addr = true →
          len * 2 < ReplyBuffer.memory.size)) := by
    intro addr len t ht
    rw [touchesOnly_get_bind, ht]
    dsimp only
    by_cases hvalid : memory.isValidVirtualAddress s.debuggee.memory addr = true
    · rw [if_pos hvalid, answerMemory_safe_iff _ _ (memory.length_readBlock _ _ _)]
      exact ⟨fun h _ => h, fun h => h hvalid⟩
    · rw [if_neg hvalid]
      exact iff_of_true (gdbSafe_sendReply _ t) fun h => absurd h hvalid
  obtain ⟨hlo, hhi⟩ := separator_bounds (c := byteOf ',') hpos
  unfold readMemory
  rw [(observes_find hn _ _).bind_iff]
  generalize separator s (byteOf ',') 1 = comma at hlo hhi ⊢
  rw [(observes_fieldLength (by omega)).bind_iff, (observes_hexToInt hn _ _ _).bind_iff]
  dsimp only
  rw [touchesOnly_get_bind, (observes_fieldLength hsmall).bind_iff,
    (observes_hexToInt hn _ _ _).bind_iff]
  by_cases hcomma : comma < s.commandLength
  · rw [show 1 + (comma - 1) = comma by omega,
      show comma + 1 + (s.commandLength - (comma + 1)) = s.commandLength by omega]
    have hrest : ∀ addr len : ℕ, TouchesOnly GdbAllowed (do
        if ReplyBuffer.memory.size < u32 (len * 2) then sendReply (ascii "E01") else pure ()
        let mem := (← get).debuggee.memory
        if memory.isValidVirtualAddress mem addr then
          touch [.copyMemory len]
          writeReply .memory 0 (memToGdbHex (memory.readBlock mem addr len))
          writeReply .memory (u32 (len * 2)) [0]
          sendBuffer .memory
        else sendReply (ascii "E00")) s ↔
        (memory.isValidVirtualAddress s.debuggee.memory addr = true →
          len * 2 < ReplyBuffer.memory.size) := by
      intro addr len
      dsimp only
      by_cases hlong : ReplyBuffer.memory.size < u32 (len * 2)
      · obtain ⟨t, hsent, ht, -⟩ := exists_returns_sendReply (ascii "E01") s hn
        rw [if_pos hlong, touchesOnly_bind, and_iff_right (gdbSafe_sendReply _ s)]
        constructor
        · exact fun h => (hanswer addr len t ht).mp (h () t hsent)
        · intro h _ t' ht'
          obtain ⟨-, rfl⟩ := hsent.unique ht'
          exact (hanswer addr len t ht).mpr h
      · rw [if_neg hlong]
        exact hanswer addr len s rfl
    rw [hrest]
    exact ⟨fun h => ⟨hcomma, h.2.2.2.2.2⟩, fun h => ⟨hpos, hlo, by omega, by omega, by omega, h.2⟩⟩
  · exact iff_of_false (fun h => hcomma (by omega)) fun h => hcomma h.1

theorem writeMemory_safe_iff :
    TouchesOnly GdbAllowed (writeMemory memory) s ↔
      separator s (byteOf ',') 1 < s.commandLength ∧
        (memory.isValidVirtualAddress s.debuggee.memory
            (fieldValue s 1 (separator s (byteOf ',') 1)) = true →
          fieldValue s (separator s (byteOf ',') 1 + 1)
              (separator s (byteOf ':') (separator s (byteOf ',') 1 + 1)) = 0 ∨
            separator s (byteOf ':') (separator s (byteOf ',') 1 + 1) + 1 +
              2 * fieldValue s (separator s (byteOf ',') 1 + 1)
                (separator s (byteOf ':') (separator s (byteOf ',') 1 + 1)) ≤ s.commandLength) := by
  have hsmall : s.commandLength < 2 ^ 32 := by
    unfold GDB_BUFFER_SIZE at hn
    omega
  obtain ⟨hlo, hhi⟩ := separator_bounds (c := byteOf ',') hpos
  unfold writeMemory
  rw [(observes_find hn _ _).bind_iff]
  generalize separator s (byteOf ',') 1 = comma at hlo hhi ⊢
  rw [(observes_fieldLength (by omega)).bind_iff, (observes_hexToInt hn _ _ _).bind_iff]
  dsimp only
  rw [(observes_find hn _ _).bind_iff]
  by_cases hcomma : comma < s.commandLength
  · have hbehind : comma + 1 ≤ s.commandLength := hcomma
    obtain ⟨hlo', hhi'⟩ := separator_bounds (c := byteOf ':') hbehind
    generalize separator s (byteOf ':') (comma + 1) = colon at hlo' hhi' ⊢
    rw [(observes_fieldLength (by omega)).bind_iff, (observes_hexToInt hn _ _ _).bind_iff,
      touchesOnly_get_bind, show 1 + (comma - 1) = comma by omega,
      show comma + 1 + (colon - (comma + 1)) = colon by omega]
    have hwrite : TouchesOnly GdbAllowed (do
        if memory.isValidVirtualAddress s.debuggee.memory (fieldValue s 1 comma) then
          let data ← gdbHexToMem (fieldValue s (comma + 1) colon) (colon + 1)
          modify fun s' => { s' with debuggee := { s'.debuggee with
            memory := memory.writeBlock s'.debuggee.memory (fieldValue s 1 comma) data } }
          sendReply (ascii "OK")
        else sendReply (ascii "E00")) s ↔
        (memory.isValidVirtualAddress s.debuggee.memory (fieldValue s 1 comma) = true →
          fieldValue s (comma + 1) colon = 0 ∨
            colon + 1 + 2 * fieldValue s (comma + 1) colon ≤ s.commandLength) := by
      by_cases hvalid : memory.isValidVirtualAddress s.debuggee.memory (fieldValue s 1 comma) = true
      · obtain ⟨data, hdata⟩ := observes_gdbHexToMem hn (fieldValue s (comma + 1) colon) (colon + 1)
        rw [if_pos hvalid, hdata.bind_iff, touchesOnly_modify_bind,
          and_iff_left (gdbSafe_sendReply _ _)]
        exact ⟨fun h _ => h, fun h => h hvalid⟩
      · rw [if_neg hvalid]
        exact iff_of_true (gdbSafe_sendReply _ s) fun h => absurd h hvalid
    unfold fieldValue at hwrite ⊢
    rw [hwrite]
    refine ⟨fun h => ⟨hcomma, h.2.2.2.2.2.2⟩, fun h => ?_⟩
    exact ⟨hpos, hlo, by omega, hcomma, hlo', by omega, h.2⟩
  · exact iff_of_false (fun h => hcomma (by omega)) fun h => hcomma h.1

theorem step_safe_iff :
    TouchesOnly GdbAllowed (step : StubM Mem Unit) s ↔
      s.commandLength = 1 ∨ 9 ≤ s.commandLength := by
  have hend : GdbSafe (modify fun s : Stub Mem =>
      { s with stepLoop := true, haltLoop := true, sendTrap := true }) := GdbSafe.modify _
  unfold step
  rw [touchesOnly_get_bind]
  by_cases hlength : 1 < s.commandLength
  · rw [if_pos hlength, (observes_gdbHexToInt hn 1).bind_iff, touchesOnly_get_bind]
    have hrest : ∀ v : UInt32, GdbSafe (do
        regWrite PC_REGISTER v s.currentThread
        loadCurrentContext
        modify fun s : Stub Mem =>
          { s with stepLoop := true, haltLoop := true, sendTrap := true }) := fun v =>
      GdbSafe.bind (gdbSafe_writeContext _ _) fun _ =>
        GdbSafe.bind gdbSafe_loadCurrentContext fun _ => hend
    rw [and_iff_left (hrest _ s)]
    omega
  · rw [if_neg hlength]
    exact iff_of_true (hend s) (Or.inl (by omega))

theorem removeBreakpoint_safe_iff :
    TouchesOnly GdbAllowed (removeBreakpoint memory) s ↔ 2 ≤ s.commandLength ∧
      (breakpointType (hexCharToValue (s.commandBuffer 1)) = none ∨ 3 ≤ s.commandLength) := by
  have hsmall : s.commandLength < 2 ^ 32 := by
    unfold GDB_BUFFER_SIZE at hn
    omega
  unfold removeBreakpoint
  rw [(observes_commandByte fun h => by omega).bind_iff]
  apply and_congr (by omega)
  cases htype : breakpointType (hexCharToValue (s.commandBuffer 1)) with
  | none => simp [gdbSafe_sendReply _ s]
  | some type =>
    dsimp only
    rw [(observes_find hn _ _).bind_iff]
    by_cases hlength : 3 ≤ s.commandLength
    · obtain ⟨hlo, hhi⟩ := separator_bounds (c := byteOf ',') hlength
      rw [(observes_fieldLength (by omega)).bind_iff, (observes_hexToInt hn _ _ _).bind_iff]
      refine iff_of_true ⟨hlength, hlo, by omega, ?_⟩ (Or.inr hlength)
      split
      next =>
        refine GdbSafe.bind (gdbSafe_eraseBreakpoint memory _ _) (fun _ => ?_) s
        exact GdbSafe.bind (gdbSafe_eraseBreakpoint memory _ _) fun _ => gdbSafe_sendReply _
      next =>
        exact GdbSafe.bind (gdbSafe_eraseBreakpoint memory _ _) (fun _ => gdbSafe_sendReply _) s
    · exact iff_of_false (fun h => hlength h.1) (by simp [hlength])

theorem addBreakpoint_safe_iff :
    TouchesOnly GdbAllowed (addBreakpoint memory) s ↔ 2 ≤ s.commandLength ∧
      (breakpointType (hexCharToValue (s.commandBuffer 1)) = none ∨
        separator s (byteOf ',') 3 < s.commandLength) := by
  have hsmall : s.commandLength < 2 ^ 32 := by
    unfold GDB_BUFFER_SIZE at hn
    omega
  unfold addBreakpoint
  rw [(observes_commandByte fun h => by omega).bind_iff]
  apply and_congr (by omega)
  cases htype : breakpointType (hexCharToValue (s.commandBuffer 1)) with
  | none => simp [gdbSafe_sendReply _ s]
  | some type =>
    dsimp only
    rw [(observes_find hn _ _).bind_iff]
    have hstart : 3 ≤ separator s (byteOf ',') 3 := Nat.le_add_right 3 _
    by_cases hcomma : separator s (byteOf ',') 3 < s.commandLength
    · rw [(observes_fieldLength (by omega)).bind_iff, (observes_hexToInt hn _ _ _).bind_iff,
        touchesOnly_get_bind, (observes_fieldLength hsmall).bind_iff,
        (observes_hexToInt hn _ _ _).bind_iff]
      refine iff_of_true ⟨by omega, hstart, by omega, hcomma, by omega, ?_⟩ (Or.inr hcomma)
      split
      next =>
        refine GdbSafe.bind (gdbSafe_commitBreakpoint memory _ _ _) (fun _ => ?_) s
        exact GdbSafe.bind (gdbSafe_commitBreakpoint memory _ _ _) fun _ => gdbSafe_sendReply _
      next =>
        exact GdbSafe.bind (gdbSafe_commitBreakpoint memory _ _ _)
          (fun _ => gdbSafe_sendReply _) s
    · refine iff_of_false (fun h => ?_) (by simp [hcomma])
      have hbounds := separator_bounds (c := byteOf ',') h.1
      rw [(observes_fieldLength (by omega)).bind_iff, (observes_hexToInt hn _ _ _).bind_iff,
        touchesOnly_get_bind, (observes_fieldLength hsmall).bind_iff] at h
      exact hcomma h.2.2.2.1

end MemoryPackets

/-! ## Streams of packets -/

section Packets

variable (memory : ProcessMemory Mem)

theorem eq_of_packetKind_writeRegisters {c : UInt8} (h : packetKind c = .writeRegisters) :
    c = byteOf 'G' := by
  unfold packetKind at h
  simp only [ite_eq_iff, reduceCtorEq, and_false, and_true, false_or, or_false] at h
  exact h.2.2.2.2.2.2

/-- A command that has been read is handled within bounds exactly if it fits. -/
theorem handleCommand_safe_iff (hpos : 0 < s.commandLength)
    (hn : s.commandLength ≤ GDB_BUFFER_SIZE ∨ packetKind (s.commandBuffer 0) = .unknown) :
    TouchesOnly GdbAllowed (handleCommand memory) s ↔ CommandFits memory s := by
  unfold handleCommand CommandFits
  rw [(observes_commandByte fun _ => by decide).bind_iff, and_iff_right hpos]
  cases hkind : packetKind (s.commandBuffer 0) with
  | unknown => exact iff_of_true (gdbSafe_sendReply _ s) trivial
  | signal =>
    refine iff_of_true (GdbSafe.bind GdbSafe.get (fun s => ?_) s) trivial
    exact gdbSafe_sendSignal _ _
  | kill =>
    refine iff_of_true (GdbSafe.bind (GdbSafe.modify _) (fun _ => ?_) s) trivial
    exact GdbSafe.modify _
  | hioReply => exact iff_of_true (GdbSafe.pure _ s) trivial
  | readRegisters => exact iff_of_true (gdbSafe_readRegisters s) trivial
  | continueRunning => exact iff_of_true (GdbSafe.modify _ s) trivial
  | threadAlive =>
    exact iff_of_true (handleThreadAlive_safe (hn.resolve_right (by simp [hkind])) hpos) trivial
  | query => exact handleQuery_safe_iff (hn.resolve_right (by simp [hkind])) hpos
  | setThread => exact handleSetThread_safe_iff (hn.resolve_right (by simp [hkind]))
  | readRegister => exact readRegister_safe_iff (hn.resolve_right (by simp [hkind]))
  | writeRegister => exact writeRegister_safe_iff (hn.resolve_right (by simp [hkind]))
  | writeRegisters =>
    exact writeRegisters_safe_iff (hn.resolve_right (by simp [hkind]))
      (eq_of_packetKind_writeRegisters hkind) hpos
  | readMemory => exact readMemory_safe_iff memory (hn.resolve_right (by simp [hkind])) hpos
  | writeMemory => exact writeMemory_safe_iff memory (hn.resolve_right (by simp [hkind])) hpos
  | step => exact step_safe_iff (hn.resolve_right (by simp [hkind])) hpos
  | removeBreakpoint =>
    exact removeBreakpoint_safe_iff memory (hn.resolve_right (by simp [hkind])) hpos
  | addBreakpoint => exact addBreakpoint_safe_iff memory (hn.resolve_right (by simp [hkind])) hpos

theorem gdbSafe_readByte : GdbSafe (readByte : StubM Mem UInt8) := by
  unfold readByte
  refine GdbSafe.bind GdbSafe.get fun s => ?_
  split
  next => exact GdbSafe.stop _
  next => exact GdbSafe.bind (GdbSafe.modify _) fun _ => GdbSafe.pure _

theorem gdbSafe_receive (fuel : ℕ) : GdbSafe (receive fuel : StubM Mem Bool) := by
  induction fuel with
  | zero => exact GdbSafe.stop _
  | succ fuel ih =>
    unfold receive
    refine GdbSafe.bind gdbSafe_readByte fun c => ?_
    split
    next => exact GdbSafe.pure _
    next =>
      refine GdbSafe.bind GdbSafe.get fun s => ?_
      dsimp only
      split
      next => exact GdbSafe.bind (GdbSafe.modify _) fun _ => GdbSafe.pure _
      next hroom =>
        refine GdbSafe.bind (gdbSafe_writeCommand (Nat.lt_of_not_le hroom) c) fun _ => ?_
        exact GdbSafe.bind (GdbSafe.modify _) fun _ => ih

theorem gdbSafe_readCommand : GdbSafe (readCommand : StubM Mem Unit) := by
  unfold readCommand
  refine GdbSafe.bind (GdbSafe.modify _) fun _ => GdbSafe.bind gdbSafe_readByte fun c => ?_
  split
  next => exact GdbSafe.pure _
  split
  next =>
    refine GdbSafe.bind (GdbSafe.modify _) fun _ => GdbSafe.bind GdbSafe.get fun s => ?_
    exact gdbSafe_sendSignal _ _
  split
  next => exact GdbSafe.pure _
  refine GdbSafe.bind GdbSafe.get fun s => GdbSafe.bind (gdbSafe_receive _) fun found => ?_
  split
  next =>
    refine GdbSafe.bind gdbSafe_readByte fun high => GdbSafe.bind gdbSafe_readByte fun low => ?_
    refine GdbSafe.bind GdbSafe.get fun s => ?_
    dsimp only
    split
    next => exact GdbSafe.bind (GdbSafe.modify _) fun _ => GdbSafe.modify _
    next => exact GdbSafe.modify _
  next => exact GdbSafe.pure _

theorem preserves_readByte :
    Preserves Stub.commandLength (readByte : StubM Mem UInt8) := by
  unfold readByte
  refine Preserves.bind Preserves.get fun s => ?_
  split
  next => exact Preserves.stop _
  next => exact Preserves.bind (Preserves.modify fun _ => rfl) fun _ => Preserves.pure _

/-- What is received stays in the buffer of commands. -/
theorem receive_commandLength {fuel : ℕ} {found : Bool} (hn : s.commandLength ≤ GDB_BUFFER_SIZE)
    (h : Returns (receive fuel) s found t) : t.commandLength ≤ GDB_BUFFER_SIZE := by
  induction fuel generalizing s with
  | zero => exact absurd h not_returns_stop
  | succ fuel ih =>
    obtain ⟨c, s₁, hread, h⟩ := returns_bind.mp h
    have hlength := preserves_readByte _ _ _ hread
    by_cases hend : c = byteOf '#'
    · rw [if_pos hend] at h
      obtain ⟨-, rfl⟩ := returns_pure.mp h
      omega
    · rw [if_neg hend] at h
      obtain ⟨s₂, _, hget, h⟩ := returns_bind.mp h
      obtain ⟨rfl, rfl⟩ := returns_get.mp hget
      dsimp only at h
      by_cases hfull : GDB_BUFFER_SIZE ≤ s₁.commandLength
      · rw [if_pos hfull] at h
        obtain ⟨_, s₃, hsend, h⟩ := returns_bind.mp h
        obtain rfl := returns_modify.mp hsend
        obtain ⟨-, rfl⟩ := returns_pure.mp h
        dsimp only
        omega
      · rw [if_neg hfull] at h
        obtain ⟨_, s₃, hwrite, h⟩ := returns_bind.mp h
        obtain ⟨_, s₄, hcount, h⟩ := returns_bind.mp h
        obtain rfl := returns_modify.mp hcount
        refine ih ?_ h
        dsimp only
        omega

/-- What is read is a command that fits into the buffer, or what a reply has left there. -/
theorem readCommand_leaves (h : Returns readCommand s () t) :
    t.commandLength ≤ GDB_BUFFER_SIZE ∨ packetKind (t.commandBuffer 0) = .unknown := by
  obtain ⟨_, s₁, hclear, h⟩ := returns_bind.mp h
  obtain rfl := returns_modify.mp hclear
  obtain ⟨c, s₂, hread, h⟩ := returns_bind.mp h
  have hempty : s₂.commandLength = 0 := preserves_readByte _ _ _ hread
  by_cases hack : c = byteOf '+'
  · rw [if_pos hack] at h
    obtain ⟨-, rfl⟩ := returns_pure.mp h
    exact Or.inl (by omega)
  rw [if_neg hack] at h
  by_cases hbreak : c = 0x03
  · rw [if_pos hbreak] at h
    obtain ⟨_, s₃, hhalt, h⟩ := returns_bind.mp h
    obtain rfl := returns_modify.mp hhalt
    obtain ⟨s₄, _, hget, h⟩ := returns_bind.mp h
    obtain ⟨rfl, rfl⟩ := returns_get.mp hget
    exact sendSignal_leaves (by dsimp only; omega) h
  rw [if_neg hbreak] at h
  by_cases hstart : c ≠ byteOf '$'
  · rw [if_pos hstart] at h
    obtain ⟨-, rfl⟩ := returns_pure.mp h
    exact Or.inl (by omega)
  rw [if_neg hstart] at h
  obtain ⟨s₃, _, hget, h⟩ := returns_bind.mp h
  obtain ⟨rfl, rfl⟩ := returns_get.mp hget
  obtain ⟨found, s₄, hreceive, h⟩ := returns_bind.mp h
  have hlength := receive_commandLength (by omega) hreceive
  cases found with
  | false =>
    rw [if_neg (by decide)] at h
    obtain ⟨-, rfl⟩ := returns_pure.mp h
    exact Or.inl hlength
  | true =>
    rw [if_pos rfl] at h
    obtain ⟨high, s₅, hhigh, h⟩ := returns_bind.mp h
    obtain ⟨low, s₆, hlow, h⟩ := returns_bind.mp h
    obtain ⟨s₇, _, hget, h⟩ := returns_bind.mp h
    obtain ⟨rfl, rfl⟩ := returns_get.mp hget
    have hsame := (preserves_readByte _ _ _ hlow).trans (preserves_readByte _ _ _ hhigh)
    dsimp only at h
    split at h
    next =>
      obtain ⟨_, s₈, hdrop, h⟩ := returns_bind.mp h
      obtain rfl := returns_modify.mp hdrop
      obtain rfl := returns_modify.mp h
      exact Or.inl (Nat.zero_le _)
    next =>
      obtain rfl := returns_modify.mp h
      refine Or.inl ?_
      dsimp only
      omega

/-- `HandlePacket` stays within bounds exactly if the command that it reads fits. -/
theorem handlePacket_safe_iff :
    TouchesOnly GdbAllowed (handlePacket memory) s ↔
      ∀ t, s.connected ∧ s.received ≠ [] ∧ Returns readCommand s () t ∧ t.commandLength ≠ 0 →
        CommandFits memory t := by
  unfold handlePacket
  rw [touchesOnly_get_bind]
  by_cases hready : s.connected ∧ s.received ≠ []
  · rw [if_pos hready, touchesOnly_bind, and_iff_right (gdbSafe_readCommand s)]
    have hcommand : ∀ t, Returns readCommand s () t →
        (TouchesOnly GdbAllowed (do
          if (← get).commandLength = 0 then pure () else handleCommand memory) t ↔
          (t.commandLength ≠ 0 → CommandFits memory t)) := by
      intro t hread
      rw [touchesOnly_get_bind]
      by_cases hnone : t.commandLength = 0
      · rw [if_pos hnone]
        exact iff_of_true touchesOnly_pure fun h => absurd hnone h
      · rw [if_neg hnone,
          handleCommand_safe_iff memory (Nat.pos_of_ne_zero hnone) (readCommand_leaves hread)]
        exact ⟨fun h _ => h, fun h => h hnone⟩
    constructor
    · rintro h t ⟨-, -, hread, hsome⟩
      exact (hcommand t hread).mp (h () t hread) hsome
    · intro h _ t hread
      exact (hcommand t hread).mpr fun hsome => h t ⟨hready.1, hready.2, hread, hsome⟩
  · rw [if_neg hready]
    exact iff_of_true touchesOnly_pure fun t h => absurd ⟨h.1, h.2.1⟩ hready

/-- A program whose memory can be read everywhere. -/
def plainMemory : ProcessMemory Unit where
  isValidVirtualAddress _ _ := true
  readBlock _ _ len := List.replicate len 0
  writeBlock mem _ _ := mem
  length_readBlock _ _ _ := List.length_replicate

/-- The client asks for 4999 bytes of memory. -/
def longRead : Stub Unit where
  debuggee := { memory := () }
  received := ascii "$m100000,1387#8d"

end Packets

end Borked3DS.Analysis
