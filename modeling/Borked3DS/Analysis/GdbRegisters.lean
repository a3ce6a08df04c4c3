import Mathlib.Data.List.GetD
import Mathlib.Tactic.Ring
import Borked3DS.Analysis.GdbAccesses

/-!
# How the debugger's views of the registers agree

Digits are read as they are written, so a register that is written by itself is shown by itself. All
of them together are shown up to the first zero of the buffer, and written to no thread.
-/

set_option autoImplicit false

namespace Borked3DS.Analysis

open Borked3DS.Library Borked3DS.Library.Touching Borked3DS.Model Borked3DS.Model.GDBStub
open Borked3DS.Interface

variable {Mem : Type} {s t : Stub Mem}

/-! ## Digits -/

section Digits

theorem nibbleToHex_mod (n : ℕ) : nibbleToHex (n % 16) = nibbleToHex n := by
  unfold nibbleToHex
  rw [Nat.mod_mod]

@[simp] theorem hexCharToValue_nibbleToHex (n : ℕ) : hexCharToValue (nibbleToHex n) = n % 16 := by
  have hall : ∀ m < 16, hexCharToValue (nibbleToHex m) = m := by decide
  rw [← nibbleToHex_mod]
  exact hall (n % 16) (Nat.mod_lt n (by decide))

theorem nibbleToHex_ne_zero (n : ℕ) : nibbleToHex n ≠ 0 := by
  have hall : ∀ m < 16, nibbleToHex m ≠ 0 := by decide
  rw [← nibbleToHex_mod]
  exact hall (n % 16) (Nat.mod_lt n (by decide))

theorem ne_zero_of_mem_gdbHexDigits {n v : ℕ} {c : UInt8} (h : c ∈ gdbHexDigits n v) : c ≠ 0 := by
  induction n generalizing v with
  | zero => cases h
  | succ n ih =>
    rw [gdbHexDigits, List.mem_cons, List.mem_cons] at h
    rcases h with rfl | rfl | h
    · exact nibbleToHex_ne_zero _
    · exact nibbleToHex_ne_zero _
    · exact ih h

/-- The digits of the highest byte are the last ones. -/
theorem gdbHexDigits_succ (n v : ℕ) :
    gdbHexDigits (n + 1) v =
      gdbHexDigits n v ++ [nibbleToHex (v / 256 ^ n / 16), nibbleToHex (v / 256 ^ n)] := by
  induction n generalizing v with
  | zero => simp [gdbHexDigits]
  | succ n ih =>
    have hdiv : v / 256 / 256 ^ n = v / 256 ^ (n + 1) := by
      rw [Nat.div_div_eq_div_mul, ← Nat.pow_succ']
    rw [gdbHexDigits, ih, hdiv]
    rfl

/-- Digits that stand in the command are read as they were written. -/
theorem digitsValue_gdbHexDigits {src n v : ℕ} (output : ℕ)
    (h : ∀ i < 2 * n, s.commandBuffer (src + i) = (gdbHexDigits n v).getD i 0) :
    digitsValue s src n output = output * 256 ^ n + v % 256 ^ n := by
  induction n generalizing output with
  | zero => simp [digitsValue, Nat.mod_one]
  | succ n ih =>
    rw [gdbHexDigits_succ] at h
    have hlength := length_gdbHexDigits n v
    have hhigh := h (2 * n) (by omega)
    have hlow := h (2 * n + 1) (by omega)
    rw [List.getD_append_right _ _ _ _ (by omega), hlength, Nat.sub_self] at hhigh
    rw [List.getD_append_right _ _ _ _ (by omega), hlength, Nat.add_sub_cancel_left] at hlow
    rw [digitsValue, Nat.add_assoc, hhigh, hlow, ih _ fun i hi => ?_]
    · simp only [List.getD_cons_zero, List.getD_cons_succ, hexCharToValue_nibbleToHex]
      have hbyte : v / 256 ^ n % 256 = v / 256 ^ n / 16 % 16 * 16 + v / 256 ^ n % 16 := by omega
      rw [Nat.mod_pow_succ, hbyte, Nat.pow_succ]
      ring
    · rw [h i (by omega), List.getD_append _ _ _ _ (by omega)]

theorem putText_outside {f : ℕ → UInt8} {start i : ℕ} {text : List UInt8}
    (h : i < start ∨ start + text.length ≤ i) : putText f start text i = f i := by
  induction text generalizing f start with
  | nil => rfl
  | cons c text ih =>
    rw [List.length_cons] at h
    rw [putText, ih (by omega), Function.update_of_ne (by omega)]

/-- A text put into a buffer stands there. -/
theorem putText_inside {f : ℕ → UInt8} {start k : ℕ} {text : List UInt8} (h : k < text.length) :
    putText f start text (start + k) = text.getD k 0 := by
  induction text generalizing f start k with
  | nil => cases h
  | cons c text ih =>
    cases k with
    | zero =>
      rw [putText, putText_outside (Or.inl (by omega))]
      exact Function.update_self start c f
    | succ k =>
      have hplace : start + (k + 1) = start + 1 + k := by omega
      rw [putText, hplace, ih (Nat.lt_of_succ_lt_succ h)]
      rfl

end Digits

/-! ## Answers -/

section Answering

/-- What stands in a buffer in front of its first zero. -/
theorem takeWhile_map_range {f : ℕ → UInt8} {m n : ℕ} (hm : m < n) (hsome : ∀ i < m, f i ≠ 0)
    (hend : f m = 0) : ((List.range n).map f).takeWhile (· ≠ 0) = (List.range m).map f := by
  obtain ⟨k, rfl⟩ : ∃ k, n = m + (k + 1) := ⟨n - m - 1, by omega⟩
  have hfront : ∀ c ∈ (List.range m).map f, decide (c ≠ 0) = true := by
    intro c hc
    obtain ⟨i, hi, rfl⟩ := List.mem_map.mp hc
    simpa using hsome i (List.mem_range.mp hi)
  rw [List.range_add, List.map_append, List.takeWhile_append_of_pos hfront, List.range_succ_eq_map,
    List.map_cons, List.map_cons, Nat.add_zero, List.takeWhile_cons_of_neg (by simp [hend]),
    List.append_nil]

/-- A text at the front of a buffer. -/
theorem map_range_putText (f : ℕ → UInt8) (text : List UInt8) :
    (List.range text.length).map (putText f 0 text) = text := by
  apply List.ext_getElem
  · simp
  · intro i _ hi
    have hinside : putText f 0 text (0 + i) = text.getD i 0 := putText_inside hi
    rw [Nat.zero_add, List.getD_eq_getElem _ _ hi] at hinside
    simp [hinside]

/-- A run goes on from where its first part leaves off. -/
theorem returns_bind_exists {α β : Type} {x : StubM Mem α} {f : α → StubM Mem β} {a : α}
    {q : Stub Mem → Prop} {b : β} (hx : Returns x s a t) (hf : ∃ u, Returns (f a) t b u ∧ q u) :
    ∃ u, Returns (x >>= f) s b u ∧ q u := by
  obtain ⟨u, hrun, hu⟩ := hf
  exact ⟨u, returns_bind.mpr ⟨a, t, hx, hrun⟩, hu⟩

theorem returns_commandByte {i : ℕ} (h : i < GDB_BUFFER_SIZE) (s : Stub Mem) :
    Returns (commandByte i) s (s.commandBuffer i) s := by
  unfold Returns commandByte
  simp only [if_pos h]
  rfl

/-- A buffer is sent up to its first zero. -/
theorem returns_sendBuffer (b : ReplyBuffer) {m : ℕ} (hconnected : s.connected = true)
    (hm : m < b.size) (hsome : ∀ i < m, s.replies b i ≠ 0) (hend : s.replies b m = 0) :
    ∃ u, Returns (sendBuffer b) s () u ∧
      u.sent = s.sent ++ [packetOf ((List.range m).map (s.replies b))] := by
  have hsize : b.size ≤ 9996 := by
    cases b with
    | register => decide
    | registers => exact Nat.le_refl _
    | memory => exact Nat.le_refl _
  have hzero : 0 ∈ (List.range b.size).map fun i => s.replies b i :=
    List.mem_map.mpr ⟨m, List.mem_range.mpr hm, hend⟩
  have hlength : ((List.range m).map (s.replies b)).length + 4 ≤ GDB_BUFFER_SIZE := by
    rw [List.length_map, List.length_range]
    unfold GDB_BUFFER_SIZE
    omega
  obtain ⟨u, hrun, hsent⟩ : ∃ u, Returns (sendReply ((List.range m).map (s.replies b))) s () u ∧
      u.sent = s.sent ++ [packetOf ((List.range m).map (s.replies b))] := by
    obtain ⟨buffer, hrun⟩ := returns_sendReply _ s hconnected hlength
    exact ⟨_, hrun, rfl⟩
  refine ⟨u, returns_bind.mpr ⟨s, s, returns_get.mpr ⟨rfl, rfl⟩, ?_⟩, hsent⟩
  dsimp only
  rw [if_pos hzero, takeWhile_map_range hm hsome hend]
  exact hrun

/-- A text is put into a cleared buffer and sent. -/
theorem returns_putAndSend (b : ReplyBuffer) {text : List UInt8} (hconnected : s.connected = true)
    (hclear : s.replies b = fun _ => 0) (hlength : text.length < b.size)
    (hsome : ∀ c ∈ text, c ≠ 0) :
    ∃ u, Returns (do
      writeReply b 0 text
      sendBuffer b) s () u ∧ u.sent = s.sent ++ [packetOf text] := by
  let s₁ := { s with replies := Function.update s.replies b (putText (s.replies b) 0 text) }
  have hbuffer : s₁.replies b = putText (s.replies b) 0 text := Function.update_self _ _ _
  have htext : (List.range text.length).map (s₁.replies b) = text := by
    rw [hbuffer]
    exact map_range_putText _ _
  obtain ⟨u, hsend, hsent⟩ := returns_sendBuffer (s := s₁) b (m := text.length) hconnected hlength
    (fun i hi => by
      have hinside : putText (s.replies b) 0 text (0 + i) = text.getD i 0 := putText_inside hi
      rw [Nat.zero_add, List.getD_eq_getElem _ _ hi] at hinside
      rw [hbuffer, hinside]
      exact hsome _ (List.getElem_mem hi))
    (by rw [hbuffer, putText_outside (Or.inr (by omega)), hclear])
  rw [htext] at hsent
  exact ⟨u, returns_bind.mpr ⟨(), s₁, returns_writeReply b (by omega) s, hsend⟩, hsent⟩

/-- One answer is sent for a command. -/
theorem RepliesWith.unique {memory : ProcessMemory Mem} {command text text' : List UInt8}
    (h : RepliesWith memory s command text) (h' : RepliesWith memory s command text') : text = text' := by
  obtain ⟨u, hrun, hsent⟩ := h
  obtain ⟨u', hrun', hsent'⟩ := h'
  obtain ⟨-, rfl⟩ := hrun.unique hrun'
  have hpacket := List.append_cancel_left (hsent.symm.trans hsent')
  unfold packetOf at hpacket
  simp only [List.cons.injEq, and_true, List.cons_append, true_and] at hpacket
  exact List.append_inj_left' hpacket rfl

end Answering

/-! ## A single register -/

section Single

variable (memory : ProcessMemory Mem)

/-- A register of the target description is one of the core, a double one, or the status of the
floating point unit. -/
theorem mem_xmlOrder_cases {r : ℕ} (h : r ∈ xmlOrder) :
    (r ≤ PC_REGISTER ∨ r = CPSR_REGISTER) ∨ (D0_REGISTER ≤ r ∧ r < FPSCR_REGISTER) ∨
      r = FPSCR_REGISTER := by
  have hall : ∀ r ∈ xmlOrder, (r ≤ PC_REGISTER ∨ r = CPSR_REGISTER) ∨
      (D0_REGISTER ≤ r ∧ r < FPSCR_REGISTER) ∨ r = FPSCR_REGISTER := by
    decide
  exact hall r h

/-- The number of a register is read off the command that asks for it. -/
theorem readRegisterCommand_number {r : ℕ} (h : r ∈ xmlOrder) :
    (if (readRegisterCommand r).getD 2 0 ≠ 0 then
      hexCharToValue ((readRegisterCommand r).getD 1 0) * 16 +
        hexCharToValue ((readRegisterCommand r).getD 2 0)
      else hexCharToValue ((readRegisterCommand r).getD 1 0)) = r := by
  have hall : ∀ r ∈ xmlOrder, (if (readRegisterCommand r).getD 2 0 ≠ 0 then
      hexCharToValue ((readRegisterCommand r).getD 1 0) * 16 +
        hexCharToValue ((readRegisterCommand r).getD 2 0)
      else hexCharToValue ((readRegisterCommand r).getD 1 0)) = r := by
    decide
  exact hall r h

/-- A core register is no double one. -/
theorem registerDigits_eq {r : ℕ} :
    registerDigits r =
      if r ≤ PC_REGISTER ∨ r = CPSR_REGISTER then 8
      else if D0_REGISTER ≤ r ∧ r < FPSCR_REGISTER then 16
      else if r = FPSCR_REGISTER then 8
      else 0 := by
  unfold registerDigits PC_REGISTER CPSR_REGISTER D0_REGISTER FPSCR_REGISTER
  grind

theorem fpuRead_fpscr_toNat (ctx : ThreadContext) :
    (ctx.fpuRead FPSCR_REGISTER).toNat = ctx.fpscr.toNat := by
  have hread : ctx.fpuRead FPSCR_REGISTER = UInt64.ofNat ctx.fpscr.toNat := rfl
  rw [hread, UInt64.toNat_ofNat']
  exact Nat.mod_eq_of_lt (Nat.lt_of_lt_of_le ctx.fpscr.toNat_lt (by decide))

/-- The answer for a register shows its value. -/
theorem answers_readRegister {c r : ℕ} (hconnected : s.connected = true)
    (hthread : s.currentThread = some c) (hr : r ∈ xmlOrder) :
    RepliesWith memory s (readRegisterCommand r)
      (gdbHexDigits (registerDigits r / 2) (registerValue (s.debuggee.context c) r)) := by
  let s₁ := withCommand s (readRegisterCommand r)
  let s₂ := { s₁ with replies := Function.update s₁.replies .register fun _ => 0 }
  have hkind : packetKind (s₁.commandBuffer 0) = .readRegister := by
    show packetKind (byteOf 'p') = _
    decide
  have hput : ∀ n v, n ≤ 8 → ∃ u, Returns (do
      writeReply .register 0 (gdbHexDigits n v)
      sendBuffer .register) s₂ () u ∧ u.sent = s.sent ++ [packetOf (gdbHexDigits n v)] := by
    intro n v hn
    have hlength : (gdbHexDigits n v).length < ReplyBuffer.register.size := by
      rw [length_gdbHexDigits]
      exact Nat.lt_of_le_of_lt (Nat.mul_le_mul_left 2 hn) (by decide)
    have hclear : s₂.replies .register = fun _ => 0 := by
      simp [s₂]
    exact returns_putAndSend (s := s₂) .register hconnected hclear hlength fun c hc =>
      ne_zero_of_mem_gdbHexDigits hc
  obtain ⟨u, hanswer, hsent⟩ := hput (registerDigits r / 2)
    (registerValue (s.debuggee.context c) r) (by rw [registerDigits_eq]; split_ifs <;> decide)
  refine ⟨u, ?_, hsent⟩
  refine returns_bind.mpr ⟨_, s₁, returns_commandByte (by decide) s₁, ?_⟩
  rw [hkind]
  refine returns_bind.mpr ⟨(), s₂, returns_modify.mpr rfl, ?_⟩
  refine returns_bind.mpr ⟨s₂, s₂, returns_get.mpr ⟨rfl, rfl⟩, ?_⟩
  refine returns_bind.mpr ⟨_, s₂, returns_commandByte (by decide) s₂, ?_⟩
  refine returns_bind.mpr ⟨_, s₂, returns_commandByte (by decide) s₂, ?_⟩
  dsimp only
  have hnumber : (if s₂.commandBuffer 2 ≠ 0 then
      hexCharToValue (s₂.commandBuffer 1) * 16 + hexCharToValue (s₂.commandBuffer 2)
      else hexCharToValue (s₂.commandBuffer 1)) = r := readRegisterCommand_number hr
  have hcurrent : s₂.currentThread = some c := hthread
  rw [hnumber, hcurrent]
  rw [registerDigits_eq] at hanswer
  unfold registerValue at hanswer
  by_cases hcore : r ≤ PC_REGISTER ∨ r = CPSR_REGISTER
  · rw [if_pos hcore, if_pos hcore] at hanswer
    rw [if_pos hcore]
    exact returns_bind.mpr ⟨(s.debuggee.context c).regRead r, s₂, rfl, hanswer⟩
  rw [if_neg hcore, if_neg hcore] at hanswer
  rw [if_neg hcore]
  by_cases hdouble : D0_REGISTER ≤ r ∧ r < FPSCR_REGISTER
  · rw [if_pos hdouble] at hanswer
    rw [if_pos hdouble]
    exact returns_bind.mpr ⟨(s.debuggee.context c).fpuRead r, s₂, rfl, hanswer⟩
  obtain rfl : r = FPSCR_REGISTER := by
    rcases mem_xmlOrder_cases hr with h | h | h
    · exact absurd h hcore
    · exact absurd h hdouble
    · exact h
  have hword : ((s.debuggee.context c).fpuRead FPSCR_REGISTER).toUInt32.toNat =
      ((s.debuggee.context c).fpuRead FPSCR_REGISTER).toNat := by
    rw [UInt64.toNat_toUInt32, fpuRead_fpscr_toNat]
    exact Nat.mod_eq_of_lt (s.debuggee.context c).fpscr.toNat_lt
  rw [if_neg hdouble, if_pos rfl, ← hword] at hanswer
  rw [if_neg hdouble, if_pos rfl]
  exact returns_bind.mpr ⟨(s.debuggee.context c).fpuRead FPSCR_REGISTER, s₂, rfl, hanswer⟩

end Single

/-! ## Registers of a context -/

section Contexts

variable {ctx : ThreadContext} {r r' : ℕ}

/-- A register of a context is written, whichever part of it it belongs to. -/
def registerWritten (ctx : ThreadContext) (r v : ℕ) : ThreadContext :=
  if r ≤ PC_REGISTER ∨ r = CPSR_REGISTER then ctx.regWrite r (UInt32.ofNat v)
  else ctx.fpuWrite r (UInt64.ofNat v)

theorem regRead_regWrite_self (val : UInt32) (h : r ≤ PC_REGISTER ∨ r = CPSR_REGISTER) :
    (ctx.regWrite r val).regRead r = val := by
  by_cases hcore : r ≤ PC_REGISTER
  · unfold ThreadContext.regWrite ThreadContext.regRead
    rw [dif_pos hcore, dif_pos hcore]
    exact Function.update_self _ val ctx.cpuRegisters
  · obtain rfl := h.resolve_left hcore
    rfl

theorem regRead_regWrite_of_ne (val : UInt32) (h : r' ≠ r) :
    (ctx.regWrite r val).regRead r' = ctx.regRead r' := by
  unfold ThreadContext.regWrite
  split
  next hcore =>
    unfold ThreadContext.regRead
    by_cases hcore' : r' ≤ PC_REGISTER
    · have hplace : (⟨r', Nat.lt_succ_of_le hcore'⟩ : Fin 16) ≠ ⟨r, Nat.lt_succ_of_le hcore⟩ :=
        fun heq => h (Fin.mk.inj heq)
      rw [dif_pos hcore', dif_pos hcore']
      exact Function.update_of_ne hplace val ctx.cpuRegisters
    · rw [dif_neg hcore', dif_neg hcore']
  next hcore =>
    split
    next hstatus =>
      unfold ThreadContext.regRead
      rw [if_neg (hstatus ▸ h), if_neg (hstatus ▸ h)]
    next => rfl

@[simp] theorem fpuRead_regWrite (val : UInt32) :
    (ctx.regWrite r val).fpuRead r' = ctx.fpuRead r' := by
  unfold ThreadContext.regWrite
  split
  next => rfl
  next =>
    split
    next => rfl
    next => rfl

@[simp] theorem regRead_fpuWrite (val : UInt64) :
    (ctx.fpuWrite r val).regRead r' = ctx.regRead r' := by
  unfold ThreadContext.fpuWrite
  split
  next => rfl
  next =>
    split
    next => rfl
    next => rfl

theorem fpuIndex_inj {half half' : ℕ} (h : D0_REGISTER ≤ r ∧ r < FPSCR_REGISTER)
    (h' : D0_REGISTER ≤ r' ∧ r' < FPSCR_REGISTER) (hhalf : half < 2) (hhalf' : half' < 2) :
    fpuIndex r half h hhalf = fpuIndex r' half' h' hhalf' ↔ r = r' ∧ half = half' := by
  unfold fpuIndex
  rw [Fin.mk.injEq]
  omega

theorem fpuRead_fpuWrite_double (val : UInt64) (h : D0_REGISTER ≤ r ∧ r < FPSCR_REGISTER) :
    (ctx.fpuWrite r val).fpuRead r = val := by
  unfold ThreadContext.fpuWrite ThreadContext.fpuRead
  have hdistinct : fpuIndex r 0 h (by decide) ≠ fpuIndex r 1 h (by decide) := by
    rw [Ne, fpuIndex_inj]
    omega
  rw [dif_pos h, dif_pos h]
  simp only [Function.update_self, Function.update_of_ne hdistinct, UInt32.toNat_ofNat']
  apply UInt64.toNat_inj.mp
  rw [UInt64.toNat_ofNat']
  have hlt := val.toNat_lt
  omega

theorem fpuRead_fpuWrite_fpscr (val : UInt64) :
    ((ctx.fpuWrite FPSCR_REGISTER val).fpuRead FPSCR_REGISTER).toNat = val.toNat % 2 ^ 32 := by
  rw [fpuRead_fpscr_toNat]
  show (UInt32.ofNat val.toNat).toNat = _
  rw [UInt32.toNat_ofNat']

theorem fpuRead_fpuWrite_of_ne (val : UInt64) (h : r' ≠ r) :
    (ctx.fpuWrite r val).fpuRead r' = ctx.fpuRead r' := by
  unfold ThreadContext.fpuWrite
  split
  next hdouble =>
    unfold ThreadContext.fpuRead
    by_cases hdouble' : D0_REGISTER ≤ r' ∧ r' < FPSCR_REGISTER
    · have hplace : ∀ (half half' : ℕ) (hhalf : half < 2) (hhalf' : half' < 2),
          fpuIndex r' half hdouble' hhalf ≠ fpuIndex r half' hdouble hhalf' := by
        intro half half' hhalf hhalf'
        rw [Ne, fpuIndex_inj]
        exact fun heq => h heq.1
      rw [dif_pos hdouble', dif_pos hdouble']
      simp only [Function.update_of_ne (hplace _ _ _ _)]
    · rw [dif_neg hdouble', dif_neg hdouble']
  next hdouble =>
    split
    next hstatus =>
      unfold ThreadContext.fpuRead
      rw [if_neg (hstatus ▸ h), if_neg (hstatus ▸ h)]
    next => rfl

/-- A register that is written has the value. -/
theorem registerValue_written_self {v : ℕ} (hr : r ∈ xmlOrder) (hv : v < 16 ^ registerDigits r) :
    registerValue (registerWritten ctx r v) r = v := by
  unfold registerValue registerWritten
  rw [registerDigits_eq] at hv
  by_cases hcore : r ≤ PC_REGISTER ∨ r = CPSR_REGISTER
  · rw [if_pos hcore] at hv
    rw [if_pos hcore, if_pos hcore, regRead_regWrite_self _ hcore, UInt32.toNat_ofNat']
    omega
  rw [if_neg hcore] at hv
  rw [if_neg hcore, if_neg hcore]
  by_cases hdouble : D0_REGISTER ≤ r ∧ r < FPSCR_REGISTER
  · rw [if_pos hdouble] at hv
    rw [fpuRead_fpuWrite_double _ hdouble, UInt64.toNat_ofNat']
    omega
  · obtain rfl := ((mem_xmlOrder_cases hr).resolve_left hcore).resolve_left hdouble
    rw [if_neg hdouble, if_pos rfl] at hv
    rw [fpuRead_fpuWrite_fpscr, UInt64.toNat_ofNat']
    omega

/-- The other registers keep theirs. -/
theorem registerValue_written_of_ne (v : ℕ) (h : r' ≠ r) :
    registerValue (registerWritten ctx r v) r' = registerValue ctx r' := by
  unfold registerWritten
  by_cases hcore : r ≤ PC_REGISTER ∨ r = CPSR_REGISTER
  · rw [if_pos hcore]
    unfold registerValue
    rw [regRead_regWrite_of_ne _ h, fpuRead_regWrite]
  · rw [if_neg hcore]
    unfold registerValue
    rw [regRead_fpuWrite, fpuRead_fpuWrite_of_ne _ h]

end Contexts

/-! ## Writing a single register -/

section SingleWrites

variable (memory : ProcessMemory Mem)

/-- The command that writes a register, up to its value. -/
def writePrefix (r : ℕ) : List UInt8 := byteOf 'P' :: formatHex 1 r ++ [byteOf '=']

/-- The place of the value and the number of the register are read off the command. -/
theorem writePrefix_place {r : ℕ} (h : r ∈ xmlOrder) :
    3 ≤ (writePrefix r).length ∧ (writePrefix r).length ≤ 4 ∧
    (if (writePrefix r).getD 2 0 ≠ byteOf '=' then 4 else 3) = (writePrefix r).length ∧
      (if (writePrefix r).getD 2 0 ≠ byteOf '=' then
        hexCharToValue ((writePrefix r).getD 1 0) * 16 + hexCharToValue ((writePrefix r).getD 2 0)
        else hexCharToValue ((writePrefix r).getD 1 0)) = r := by
  have hall : ∀ r ∈ xmlOrder, 3 ≤ (writePrefix r).length ∧ (writePrefix r).length ≤ 4 ∧
      (if (writePrefix r).getD 2 0 ≠ byteOf '=' then 4 else 3) = (writePrefix r).length ∧
      (if (writePrefix r).getD 2 0 ≠ byteOf '=' then
        hexCharToValue ((writePrefix r).getD 1 0) * 16 + hexCharToValue ((writePrefix r).getD 2 0)
        else hexCharToValue ((writePrefix r).getD 1 0)) = r := by
    decide
  exact hall r h

/-- What `WriteRegister` does once it has read the value. -/
theorem returns_writeAndAnswer {c : ℕ} (write : ThreadContext → ThreadContext)
    (hconnected : s.connected = true) (hthread : s.currentThread = some c) :
    ∃ u, Returns (do
      writeContext (some c) write
      loadCurrentContext
      sendReply (ascii "OK")) s () u ∧ u.connected = true ∧ u.currentThread = some c ∧
      u.debuggee.context =
        Function.update s.debuggee.context c (write (s.debuggee.context c)) := by
  let s₁ : Stub Mem :=
    { s with
      debuggee := { s.debuggee with
        context := Function.update s.debuggee.context c (write (s.debuggee.context c)) } }
  let s₂ : Stub Mem :=
    { s₁ with debuggee := { s₁.debuggee with runningCore := s₁.debuggee.context c } }
  have hload : Returns loadCurrentContext s₁ () s₂ := by
    have hcurrent : s₁.currentThread = some c := hthread
    refine returns_bind.mpr ⟨s₁, s₁, returns_get.mpr ⟨rfl, rfl⟩, ?_⟩
    rw [hcurrent]
    exact returns_modify.mpr rfl
  have hlength : (ascii "OK").length + 4 ≤ GDB_BUFFER_SIZE := by decide
  obtain ⟨u, hsend, hafter⟩ : ∃ u, Returns (sendReply (ascii "OK")) s₂ () u ∧
      u.connected = true ∧ u.currentThread = some c ∧
      u.debuggee.context = s₂.debuggee.context := by
    obtain ⟨buffer, hrun⟩ := returns_sendReply (ascii "OK") s₂ hconnected hlength
    exact ⟨_, hrun, hconnected, hthread, rfl⟩
  refine ⟨u, returns_bind.mpr ⟨(), s₁, returns_modify.mpr rfl, ?_⟩, hafter⟩
  exact returns_bind.mpr ⟨(), s₂, hload, hsend⟩

/-- A command writes the value of a register into the context of the selected thread. -/
theorem returns_writeRegister {c r v : ℕ} (hconnected : s.connected = true)
    (hthread : s.currentThread = some c) (hr : r ∈ xmlOrder) (hv : v < 16 ^ registerDigits r) :
    ∃ u, Returns (handleCommand memory) (withCommand s (writeRegisterCommand r v)) () u ∧
      u.connected = true ∧ u.currentThread = some c ∧
      u.debuggee.context =
        Function.update s.debuggee.context c (registerWritten (s.debuggee.context c) r v) := by
  obtain ⟨hmin, hmax, hplace, hnumber⟩ := writePrefix_place hr
  let s₁ := withCommand s (writeRegisterCommand r v)
  have hcommand : writeRegisterCommand r v =
      writePrefix r ++ gdbHexDigits (registerDigits r / 2) v := by
    simp [writeRegisterCommand, writePrefix]
  have hfront : ∀ i < (writePrefix r).length, s₁.commandBuffer i = (writePrefix r).getD i 0 := by
    intro i hi
    show (writeRegisterCommand r v).getD i 0 = _
    rw [hcommand, List.getD_append _ _ _ _ hi]
  have hdigits : ∀ i, s₁.commandBuffer ((writePrefix r).length + i) =
      (gdbHexDigits (registerDigits r / 2) v).getD i 0 := by
    intro i
    show (writeRegisterCommand r v).getD _ 0 = _
    rw [hcommand, List.getD_append_right _ _ _ _ (by omega), Nat.add_sub_cancel_left]
  have hlength : s₁.commandLength =
      (writePrefix r).length + 2 * (registerDigits r / 2) := by
    show (writeRegisterCommand r v).length = _
    rw [hcommand, List.length_append, length_gdbHexDigits]
  have hkind : packetKind (s₁.commandBuffer 0) = .writeRegister := by
    show packetKind (byteOf 'P') = _
    decide
  have hrest : ∀ write : ThreadContext → ThreadContext,
      write (s.debuggee.context c) = registerWritten (s.debuggee.context c) r v →
      ∃ u, Returns (do
        writeContext (some c) write
        loadCurrentContext
        sendReply (ascii "OK")) s₁ () u ∧ u.connected = true ∧ u.currentThread = some c ∧
        u.debuggee.context = Function.update s.debuggee.context c
          (registerWritten (s.debuggee.context c) r v) := by
    intro write hwrite
    obtain ⟨u, hrun, hconnected', hthread', hcontext⟩ :=
      returns_writeAndAnswer (s := s₁) write hconnected hthread
    refine ⟨u, hrun, hconnected', hthread', hcontext.trans ?_⟩
    rw [← hwrite]
    rfl
  have hn : s₁.commandLength ≤ GDB_BUFFER_SIZE := by
    have hdigits : registerDigits r ≤ 16 := by
      rw [registerDigits_eq]
      split_ifs <;> decide
    unfold GDB_BUFFER_SIZE
    omega
  have hvalue : ∀ n, registerDigits r = 2 * n →
      digitsValue s₁ (writePrefix r).length n 0 = v := by
    intro n hlength
    have hhalf : registerDigits r / 2 = n := by omega
    rw [hhalf] at hdigits
    rw [hlength, Nat.pow_mul] at hv
    rw [digitsValue_gdbHexDigits 0 fun i _ => hdigits i, Nat.zero_mul, Nat.zero_add]
    exact Nat.mod_eq_of_lt hv
  refine returns_bind_exists (returns_commandByte (by decide) s₁) ?_
  rw [hkind]
  refine returns_bind_exists (returns_get.mpr ⟨rfl, rfl⟩) ?_
  refine returns_bind_exists (returns_commandByte (by decide) s₁) ?_
  refine returns_bind_exists (returns_commandByte (by decide) s₁) ?_
  have hcurrent : s₁.currentThread = some c := hthread
  dsimp only
  rw [hfront 1 (by omega), hfront 2 (by omega), hplace, hnumber, hcurrent]
  rw [registerDigits_eq] at hlength hvalue
  by_cases hcore : r ≤ PC_REGISTER ∨ r = CPSR_REGISTER
  · rw [if_pos hcore] at hlength hvalue
    rw [if_pos hcore]
    refine returns_bind_exists ((observes_gdbHexToInt hn _).returns (by omega)) ?_
    rw [hvalue 4 rfl]
    exact hrest (fun ctx => ctx.regWrite r (UInt32.ofNat v)) (if_pos hcore).symm
  rw [if_neg hcore] at hlength hvalue
  rw [if_neg hcore]
  by_cases hdouble : D0_REGISTER ≤ r ∧ r < FPSCR_REGISTER
  · rw [if_pos hdouble] at hlength hvalue
    rw [if_pos hdouble]
    refine returns_bind_exists ((observes_gdbHexToLong hn _).returns (by omega)) ?_
    rw [hvalue 8 rfl]
    exact hrest (fun ctx => ctx.fpuWrite r (UInt64.ofNat v)) (if_neg hcore).symm
  · obtain rfl := ((mem_xmlOrder_cases hr).resolve_left hcore).resolve_left hdouble
    rw [if_neg hdouble, if_pos rfl] at hlength hvalue
    rw [if_neg hdouble, if_pos rfl]
    refine returns_bind_exists ((observes_gdbHexToInt hn _).returns (by omega)) ?_
    rw [hvalue 4 rfl]
    have hword : (UInt32.ofNat v).toUInt64 = UInt64.ofNat v := by
      rw [registerDigits_eq, if_neg hcore, if_neg hdouble, if_pos rfl] at hv
      apply UInt64.toNat_inj.mp
      rw [UInt32.toNat_toUInt64, UInt32.toNat_ofNat', UInt64.toNat_ofNat']
      omega
    rw [hword]
    exact hrest (fun ctx => ctx.fpuWrite FPSCR_REGISTER (UInt64.ofNat v)) (if_neg hcore).symm

end SingleWrites

/-! ## All registers -/

section Bulk

variable (memory : ProcessMemory Mem)

/-- Texts put into a buffer one after the other. -/
def putTexts (place : ℕ → ℕ) (text : ℕ → List UInt8) (regs : List ℕ) (f : ℕ → UInt8) :
    ℕ → UInt8 :=
  regs.foldl (fun f reg => putText f (place reg) (text reg)) f

theorem putTexts_outside {place : ℕ → ℕ} {text : ℕ → List UInt8} {regs : List ℕ} {i : ℕ}
    (h : ∀ reg ∈ regs, i < place reg ∨ place reg + (text reg).length ≤ i) (f : ℕ → UInt8) :
    putTexts place text regs f i = f i := by
  induction regs generalizing f with
  | nil => rfl
  | cons reg regs ih =>
    obtain ⟨hhere, hrest⟩ := List.forall_mem_cons.mp h
    exact (ih hrest _).trans (putText_outside hhere)

/-- Texts of one length that stand side by side stay there. -/
theorem putTexts_inside {text : ℕ → List UInt8} {m n r k : ℕ} (f : ℕ → UInt8)
    (hlength : ∀ reg, (text reg).length = m) (hr : r < n) (hk : k < m) :
    putTexts (fun reg => reg * m) text (List.range n) f (r * m + k) = (text r).getD k 0 := by
  induction n with
  | zero => omega
  | succ n ih =>
    unfold putTexts at ih ⊢
    rw [List.range_succ, List.foldl_append, List.foldl_cons, List.foldl_nil]
    by_cases hlast : r = n
    · rw [hlast]
      exact putText_inside (by rw [hlength]; exact hk)
    · have hfront : r * m + k < n * m :=
        Nat.lt_of_lt_of_le (by rw [Nat.succ_mul]; omega)
          (Nat.mul_le_mul_right m (show r + 1 ≤ n by omega))
      rw [putText_outside (Or.inl hfront)]
      exact ih (by omega)

/-- A loop whose rounds put their texts into a buffer. -/
theorem returns_putTexts (b : ReplyBuffer) (place : ℕ → ℕ) (text : ℕ → List UInt8)
    (x : ℕ → StubM Mem PUnit) (program : Debuggee Mem) (regs : List ℕ)
    (hx : ∀ reg ∈ regs, ∀ s : Stub Mem, s.debuggee = program → Returns (x reg) s ()
      { s with
        replies := Function.update s.replies b (putText (s.replies b) (place reg) (text reg)) })
    (s : Stub Mem) (hs : s.debuggee = program) :
    Returns (regs.forM x) s ()
      { s with
        replies := Function.update s.replies b (putTexts place text regs (s.replies b)) } := by
  induction regs generalizing s with
  | nil => exact returns_pure.mpr ⟨rfl, by rw [putTexts, List.foldl_nil, Function.update_eq_self]⟩
  | cons reg regs ih =>
    obtain ⟨hhere, hrest⟩ := List.forall_mem_cons.mp hx
    have hlater := ih hrest { s with
      replies := Function.update s.replies b (putText (s.replies b) (place reg) (text reg)) } hs
    simp only [Function.update_self, Function.update_idem] at hlater
    exact returns_bind.mpr ⟨(), _, hhere s hs, hlater⟩

/-- What `ReadRegisters` puts into its buffer for the core registers and their status. -/
def coreBuffer (ctx : ThreadContext) : ℕ → UInt8 :=
  putText (putTexts (fun reg => reg * 8) (fun reg => gdbHexDigits 4 (ctx.regRead reg).toNat)
    (List.range (PC_REGISTER + 1)) fun _ => 0) 128
    (gdbHexDigits 4 (ctx.regRead CPSR_REGISTER).toNat)

/-- What it puts into it in all. -/
def bulkBuffer (ctx : ThreadContext) : ℕ → UInt8 :=
  putText (putTexts (fun reg => 136 + reg * 16)
    (fun reg => gdbHexDigits 8 (ctx.fpuRead reg).toNat)
    (List.range' D0_REGISTER (FPSCR_REGISTER - D0_REGISTER)) (coreBuffer ctx)) 392
    (gdbHexDigits 4 (ctx.fpuRead FPSCR_REGISTER).toUInt32.toNat)

variable (ctx : ThreadContext)

/-- The double registers are written from byte 552 on, and their status from byte 392 on. -/
theorem bulkBuffer_front {i : ℕ} (hi : i < 392) : bulkBuffer ctx i = coreBuffer ctx i := by
  unfold bulkBuffer
  rw [putText_outside (Or.inl hi)]
  apply putTexts_outside
  intro reg hreg
  have hfirst := (List.mem_range'_1.mp hreg).1
  unfold D0_REGISTER at hfirst
  omega

theorem bulkBuffer_core {r k : ℕ} (hr : r ≤ PC_REGISTER) (hk : k < 8) :
    bulkBuffer ctx (r * 8 + k) = (gdbHexDigits 4 (registerValue ctx r)).getD k 0 := by
  have hlt : r * 8 + k < 128 := by
    unfold PC_REGISTER at hr
    omega
  rw [bulkBuffer_front ctx (by omega), registerValue, if_pos (Or.inl hr), coreBuffer,
    putText_outside (Or.inl hlt)]
  exact putTexts_inside _ (fun _ => length_gdbHexDigits _ _) (Nat.lt_succ_of_le hr) hk

theorem bulkBuffer_status {k : ℕ} (hk : k < 8) :
    bulkBuffer ctx (128 + k) = (gdbHexDigits 4 (registerValue ctx CPSR_REGISTER)).getD k 0 := by
  rw [bulkBuffer_front ctx (by omega), coreBuffer]
  exact putText_inside (by rw [length_gdbHexDigits]; exact hk)

/-- Behind the status of the core there is a zero. -/
theorem bulkBuffer_end : bulkBuffer ctx 136 = 0 := by
  rw [bulkBuffer_front ctx (by omega), coreBuffer,
    putText_outside (Or.inr (by rw [length_gdbHexDigits]))]
  apply putTexts_outside
  intro reg hreg
  have hlast := List.mem_range.mp hreg
  unfold PC_REGISTER at hlast
  rw [length_gdbHexDigits]
  omega

theorem bulkBuffer_ne_zero {i : ℕ} (hi : i < 136) : bulkBuffer ctx i ≠ 0 := by
  have hdigit : ∀ v k, k < 8 → (gdbHexDigits 4 v).getD k 0 ≠ 0 := by
    intro v k hk
    rw [List.getD_eq_getElem _ _ (by rw [length_gdbHexDigits]; exact hk)]
    exact ne_zero_of_mem_gdbHexDigits (List.getElem_mem _)
  by_cases hpart : i < 128
  · have hplace := bulkBuffer_core ctx (r := i / 8) (k := i % 8)
      (by unfold PC_REGISTER; omega) (by omega)
    rw [show i / 8 * 8 + i % 8 = i by omega] at hplace
    rw [hplace]
    exact hdigit _ _ (by omega)
  · have hplace := bulkBuffer_status ctx (k := i - 128) (by omega)
    rw [show 128 + (i - 128) = i by omega] at hplace
    rw [hplace]
    exact hdigit _ _ (by omega)

/-- The answer for all registers is that for the core ones: the next byte of the buffer is zero. -/
theorem answers_readRegisters {c : ℕ} (hconnected : s.connected = true)
    (hthread : s.currentThread = some c) :
    RepliesWith memory s readRegistersCommand
      ((List.range 136).map (bulkBuffer (s.debuggee.context c))) := by
  let ctx := s.debuggee.context c
  let s₁ := withCommand s readRegistersCommand
  let holding : (ℕ → UInt8) → Stub Mem := fun g =>
    { s₁ with replies := Function.update s₁.replies .registers g }
  have hsize : ReplyBuffer.registers.size = 9996 := rfl
  have hput : ∀ (n v place : ℕ) (g : ℕ → UInt8), place + 2 * n ≤ ReplyBuffer.registers.size →
      Returns (writeReply .registers place (gdbHexDigits n v)) (holding g) ()
        (holding (putText g place (gdbHexDigits n v))) := by
    intro n v place g hfits
    have hfits' : place + (gdbHexDigits n v).length ≤ ReplyBuffer.registers.size := by
      rw [length_gdbHexDigits]
      exact hfits
    have hrun := returns_writeReply .registers hfits' (holding g)
    simpa [holding] using hrun
  have hcore : ∀ g, Returns ((List.range (PC_REGISTER + 1)).forM fun reg => do
        intToGdbHex .registers (reg * 8) (← regRead reg (some c))) (holding g) ()
      (holding (putTexts (fun reg => reg * 8) (fun reg => gdbHexDigits 4 (ctx.regRead reg).toNat)
        (List.range (PC_REGISTER + 1)) g)) := by
    intro g
    have hrun := returns_putTexts .registers (fun reg => reg * 8)
      (fun reg => gdbHexDigits 4 (ctx.regRead reg).toNat) (fun reg => do
        intToGdbHex .registers (reg * 8) (← regRead reg (some c))) s.debuggee
      (List.range (PC_REGISTER + 1)) ?_ (holding g) rfl
    · simpa [holding] using hrun
    · intro reg hreg s' hs'
      have hlast := List.mem_range.mp hreg
      unfold PC_REGISTER at hlast
      refine returns_bind.mpr ⟨ctx.regRead reg, s', ?_, returns_writeReply _ ?_ s'⟩
      · show Except.ok ((s'.debuggee.context c).regRead reg, s') = _
        rw [hs']
      · rw [length_gdbHexDigits]
        omega
  have hdoubles : ∀ g, Returns ((List.range' D0_REGISTER (FPSCR_REGISTER - D0_REGISTER)).forM
        fun reg => do longToGdbHex .registers (16 * 8 + 8 + reg * 16) (← fpuRead reg (some c)))
        (holding g) ()
      (holding (putTexts (fun reg => 136 + reg * 16)
        (fun reg => gdbHexDigits 8 (ctx.fpuRead reg).toNat)
        (List.range' D0_REGISTER (FPSCR_REGISTER - D0_REGISTER)) g)) := by
    intro g
    have hrun := returns_putTexts .registers (fun reg => 136 + reg * 16)
      (fun reg => gdbHexDigits 8 (ctx.fpuRead reg).toNat) (fun reg => do
        longToGdbHex .registers (16 * 8 + 8 + reg * 16) (← fpuRead reg (some c))) s.debuggee
      (List.range' D0_REGISTER (FPSCR_REGISTER - D0_REGISTER)) ?_ (holding g) rfl
    · simpa [holding] using hrun
    · intro reg hreg s' hs'
      have hlast := (List.mem_range'_1.mp hreg).2
      unfold D0_REGISTER FPSCR_REGISTER at hlast
      refine returns_bind.mpr ⟨ctx.fpuRead reg, s', ?_, returns_writeReply _ ?_ s'⟩
      · show Except.ok ((s'.debuggee.context c).fpuRead reg, s') = _
        rw [hs']
      · rw [length_gdbHexDigits]
        omega
  have hkind : packetKind (s₁.commandBuffer 0) = .readRegisters := by
    show packetKind (byteOf 'g') = _
    decide
  have hcurrent : s₁.currentThread = some c := hthread
  have hbuffer : (holding (bulkBuffer ctx)).replies .registers = bulkBuffer ctx := by
    simp [holding]
  obtain ⟨u, hsend, hsent⟩ := returns_sendBuffer (s := holding (bulkBuffer ctx)) .registers
    (m := 136) hconnected (by omega) (fun i hi => by
      rw [hbuffer]
      exact bulkBuffer_ne_zero ctx hi) (by
      rw [hbuffer]
      exact bulkBuffer_end ctx)
  rw [hbuffer] at hsent
  refine ⟨u, ?_, hsent⟩
  refine returns_bind.mpr ⟨_, s₁, returns_commandByte (by decide) s₁, ?_⟩
  rw [hkind]
  show Returns readRegisters s₁ () u
  refine returns_bind.mpr ⟨(), holding fun _ => 0, returns_modify.mpr rfl, ?_⟩
  refine returns_bind.mpr ⟨_, _, returns_get.mpr ⟨rfl, rfl⟩, ?_⟩
  dsimp only
  rw [show (holding fun _ => 0).currentThread = some c from hthread]
  refine returns_bind.mpr ⟨(), _, hcore _, ?_⟩
  refine returns_bind.mpr ⟨ctx.regRead CPSR_REGISTER, _, rfl, ?_⟩
  refine returns_bind.mpr ⟨(), _, hput 4 _ 128 _ (by omega), ?_⟩
  refine returns_bind.mpr ⟨(), _, hdoubles _, ?_⟩
  refine returns_bind.mpr ⟨ctx.fpuRead FPSCR_REGISTER, _, rfl, ?_⟩
  exact returns_bind.mpr ⟨(), _, hput 4 _ 392 _ (by omega), hsend⟩

/-- The contexts of the threads. -/
abbrev contexts (s : Stub Mem) : ℕ → ThreadContext := s.debuggee.context

theorem preserves_commandByte (i : ℕ) : Preserves contexts (commandByte i : StubM Mem UInt8) := by
  unfold commandByte
  refine Preserves.bind Preserves.get fun s => Preserves.bind (Preserves.touch _) fun _ => ?_
  split
  next => exact Preserves.bind Preserves.get fun _ => Preserves.pure _
  next => exact Preserves.stop _

theorem preserves_gdbHexToNat (src n output : ℕ) :
    Preserves contexts (gdbHexToNat src n output : StubM Mem ℕ) := by
  induction n generalizing output with
  | zero => exact Preserves.pure _
  | succ n ih =>
    refine Preserves.bind (preserves_commandByte _) fun high => ?_
    exact Preserves.bind (preserves_commandByte _) fun low => ih _

/-- No thread is given, so nothing is written. -/
theorem preserves_writeRegistersFrom (n i reg : ℕ) :
    Preserves contexts (writeRegistersFrom n i reg : StubM Mem Unit) := by
  have hint : ∀ src, Preserves contexts (gdbHexToInt src : StubM Mem UInt32) := fun src =>
    Preserves.bind (preserves_gdbHexToNat _ _ _) fun _ => Preserves.pure _
  have hlong : ∀ src, Preserves contexts (gdbHexToLong src : StubM Mem UInt64) := fun src =>
    Preserves.bind (preserves_gdbHexToNat _ _ _) fun _ => Preserves.pure _
  induction n generalizing i reg with
  | zero => exact Preserves.pure _
  | succ n ih =>
    unfold writeRegistersFrom
    split
    next => exact Preserves.bind (hint _) fun _ => Preserves.bind (Preserves.pure _) fun _ => ih _ _
    split
    next => exact Preserves.bind (hint _) fun _ => Preserves.bind (Preserves.pure _) fun _ => ih _ _
    split
    next => exact ih _ _
    split
    next => exact ih _ _
    split
    next =>
      exact Preserves.bind (hlong _) fun _ => Preserves.bind (Preserves.pure _) fun _ => ih _ _
    next => exact Preserves.bind (hint _) fun _ => Preserves.bind (Preserves.pure _) fun _ => ih _ _

theorem preserves_sendReply (reply : List UInt8) :
    Preserves contexts (sendReply reply : StubM Mem Unit) := by
  have hwrite : ∀ (i : ℕ) (c : UInt8), Preserves contexts (writeCommand i c : StubM Mem Unit) := by
    intro i c
    unfold writeCommand
    refine Preserves.bind (Preserves.touch _) fun _ => ?_
    split
    next => exact Preserves.modify fun _ => rfl
    next => exact Preserves.stop _
  unfold sendReply
  refine Preserves.bind Preserves.get fun s => ?_
  split
  next =>
    refine Preserves.bind (Preserves.modify fun _ => rfl) fun _ => ?_
    split
    next =>
      refine Preserves.bind (Preserves.forM _ fun c => hwrite c.2 c.1) fun _ => ?_
      exact Preserves.modify fun _ => rfl
    next => exact Preserves.pure _
  next => exact Preserves.pure _

/-- `WriteRegisters` leaves all contexts as they are. -/
theorem preserves_writeRegisters : Preserves contexts (writeRegisters : StubM Mem Unit) := by
  unfold writeRegisters
  refine Preserves.bind (preserves_commandByte _) fun first => ?_
  split
  next => exact preserves_sendReply _
  next =>
    refine Preserves.bind (preserves_writeRegistersFrom _ _ _) fun _ => ?_
    refine Preserves.bind ?_ fun _ => preserves_sendReply _
    unfold loadCurrentContext
    refine Preserves.bind Preserves.get fun s => ?_
    split
    next => exact Preserves.stop _
    next => exact Preserves.modify fun _ => rfl

end Bulk

/-! ## How the views agree -/

section Views

variable (memory : ProcessMemory Mem) {c : ℕ} (hconnected : s.connected = true)
  (hthread : s.currentThread = some c)

include hconnected hthread

/-- The answers for each register are longer than the one for all of them. -/
theorem not_readsAgree : ¬ ReadsAgree memory s := by
  rintro ⟨answer, hsingle, hbulk⟩
  have htext := RepliesWith.unique hbulk (answers_readRegisters memory hconnected hthread)
  have hlengths : xmlOrder.map (fun r => (answer r).length) =
      xmlOrder.map fun r => 2 * (registerDigits r / 2) := by
    apply List.map_congr_left
    intro r hr
    rw [RepliesWith.unique (hsingle r hr) (answers_readRegister memory hconnected hthread hr),
      length_gdbHexDigits]
  have hsum : (xmlOrder.map fun r => 2 * (registerDigits r / 2)).sum = 400 := by decide
  have hlength := congrArg List.length htext
  rw [List.length_flatMap, hlengths, hsum, List.length_map, List.length_range] at hlength
  cases hlength

/-- What is sent back reaches no thread. -/
theorem not_writeRestores : ¬ WriteRestores memory s c := by
  intro h
  let ctx := s.debuggee.context c
  let other : ThreadContext := { ctx with cpsr := if ctx.cpsr = 0 then 1 else 0 }
  let s' : Stub Mem := { s with debuggee := { s.debuggee with context := fun _ => other } }
  obtain ⟨u, hrun, hrestored⟩ :=
    h _ (answers_readRegisters memory hconnected hthread) s' hconnected hthread
  obtain ⟨first, s₁, hfirst, hwrite⟩ := returns_bind.mp hrun
  obtain ⟨rfl, rfl⟩ := (returns_commandByte (by decide) _).unique hfirst
  have hkept : contexts u = fun _ => other := preserves_writeRegisters _ _ _ hwrite
  have hsame : other = ctx := (congrFun hkept c).symm.trans hrestored
  have hstatus : (if ctx.cpsr = 0 then 1 else 0) = ctx.cpsr :=
    congrArg ThreadContext.cpsr hsame
  by_cases hzero : ctx.cpsr = 0
  · rw [if_pos hzero, hzero] at hstatus
    exact absurd hstatus (by decide)
  · rw [if_neg hzero] at hstatus
    exact hzero hstatus.symm

/-- All registers show the core registers and their status. -/
theorem bulkShows_iff {r : ℕ} (hr : r ∈ xmlOrder) :
    BulkShows memory s r (registerValue (s.debuggee.context c) r) ↔
      r ≤ PC_REGISTER ∨ r = CPSR_REGISTER := by
  have hbulk := answers_readRegisters memory hconnected hthread
  have hplaces : ∀ r ∈ xmlOrder, (r ≤ PC_REGISTER ∧ registerPlace r = r * 8) ∨
      (r = CPSR_REGISTER ∧ registerPlace r = 128) ∨
      (¬ (r ≤ PC_REGISTER ∨ r = CPSR_REGISTER) ∧ 136 ≤ registerPlace r ∧
        0 < registerDigits r / 2) := by
    decide
  constructor
  · rintro ⟨text, hanswer, hshown⟩
    by_contra hother
    obtain rfl := RepliesWith.unique hanswer hbulk
    have hlength := congrArg List.length hshown
    rw [length_gdbHexDigits, List.length_take, List.length_drop, List.length_map,
      List.length_range] at hlength
    rcases hplaces r hr with h | h | ⟨-, hplace, hdigits⟩
    · exact hother (Or.inl h.1)
    · exact hother (Or.inr h.1)
    · omega
  · intro hcore
    have hdigits : registerDigits r = 8 := by rw [registerDigits_eq, if_pos hcore]
    have hvalue : ∀ k < 8, registerPlace r + k < 136 ∧
        bulkBuffer (s.debuggee.context c) (registerPlace r + k) =
        (gdbHexDigits 4 (registerValue (s.debuggee.context c) r)).getD k 0 := by
      intro k hk
      rcases hplaces r hr with ⟨hr', hplace⟩ | ⟨rfl, hplace⟩ | ⟨hother, -⟩
      · rw [hplace]
        have hlast := hr'
        unfold PC_REGISTER at hlast
        exact ⟨by omega, bulkBuffer_core _ hr' hk⟩
      · rw [hplace]
        exact ⟨by omega, bulkBuffer_status _ hk⟩
      · exact absurd hcore hother
    have hplace := (hvalue 7 (by decide)).1
    refine ⟨_, hbulk, ?_⟩
    rw [hdigits]
    apply List.ext_getElem
    · rw [length_gdbHexDigits, List.length_take, List.length_drop, List.length_map,
        List.length_range]
      omega
    · intro k hk hk'
      rw [length_gdbHexDigits] at hk'
      have hshown := (hvalue k (by omega)).2
      rw [List.getD_eq_getElem _ _ (by rw [length_gdbHexDigits]; omega)] at hshown
      simpa using hshown

/-- The views of the registers: all of them together neither show the double registers nor restore
anything, while each of them is written and shown by itself, and the core ones also among all. -/
theorem registerViews :
    ¬ WriteRestores memory s c ∧ ¬ ReadsAgree memory s ∧
      ∀ r ∈ xmlOrder, ∀ v < 16 ^ registerDigits r,
        ∃ u, Returns (handleCommand memory) (withCommand s (writeRegisterCommand r v)) () u ∧
          SingleWriteAgrees memory s c r v u ∧
          (BulkShows memory u r v ↔ r ≤ PC_REGISTER ∨ r = CPSR_REGISTER) := by
  refine ⟨not_writeRestores memory hconnected hthread, not_readsAgree memory hconnected hthread, ?_⟩
  intro r hr v hv
  obtain ⟨u, hrun, hconnected', hthread', hcontext⟩ :=
    returns_writeRegister memory hconnected hthread hr hv
  have hwritten : u.debuggee.context c = registerWritten (s.debuggee.context c) r v := by
    rw [hcontext, Function.update_self]
  have hvalue : registerValue (u.debuggee.context c) r = v := by
    rw [hwritten, registerValue_written_self hr hv]
  have hsingle := answers_readRegister memory hconnected' hthread' hr
  have hbulk := bulkShows_iff memory hconnected' hthread' hr
  rw [hvalue] at hsingle hbulk
  refine ⟨u, hrun, ⟨hvalue, fun r' _ hne => ?_, fun c' hne => ?_, hsingle⟩, hbulk⟩
  · rw [hwritten, registerValue_written_of_ne v hne]
  · rw [hcontext, Function.update_of_ne hne]

end Views

/-- The client looks at the only thread of a program. -/
def lookingAt : Stub Unit where
  debuggee := { memory := (), threadList := [0], threadId := fun _ => 1 }
  currentThread := some 0

theorem registerViews_lookingAt :
    ¬ WriteRestores plainMemory lookingAt 0 ∧ ¬ ReadsAgree plainMemory lookingAt ∧
      ∀ r ∈ xmlOrder, ∀ v < 16 ^ registerDigits r,
        ∃ u, Returns (handleCommand plainMemory)
            (withCommand lookingAt (writeRegisterCommand r v)) () u ∧
          SingleWriteAgrees plainMemory lookingAt 0 r v u ∧
          (BulkShows plainMemory u r v ↔ r ≤ PC_REGISTER ∨ r = CPSR_REGISTER) :=
  registerViews plainMemory rfl rfl

/-- All registers are shown without the double ones. -/
theorem lookingAt_views_differ : ¬ RegisterViewsAgree plainMemory lookingAt 0 := fun h =>
  not_readsAgree plainMemory (s := lookingAt) rfl rfl h.reads

end Borked3DS.Analysis
