import Mathlib.Data.Prod.Lex
import Borked3DS.Interface.CheatRuns

/-!
# How cheats run

Whatever the lines are, a turn of the loop moves on, enters a loop, jumps back to it or leaves it.
A patch moves on by the number of its data lines, carried out or not.
-/

set_option autoImplicit false

namespace Borked3DS.Analysis

open Borked3DS.Library Borked3DS.Model Borked3DS.Model.Cheats Borked3DS.Interface

variable {M : Type} {system : CheatSystem M} {cheatLines : CheatLines}

/-! ## Patches -/

section Patches

variable {copying : Copying M}

theorem at_of_lt {lineNr : ℕ} (h : lineNr < cheatLines.lines.length) :
    cheatLines.at lineNr = .ok cheatLines.lines[lineNr] := by
  unfold CheatLines.at
  rw [List.getElem?_eq_getElem h]
  rfl

theorem at_of_le {lineNr : ℕ} (h : cheatLines.lines.length ≤ lineNr) :
    cheatLines.at lineNr = .error .undefined := by
  unfold CheatLines.at
  rw [List.getElem?_eq_none h]
  rfl

/-- The last bytes are read from one line. -/
theorem copyBytes_outcome (numBytes : ℕ) (bitOffset : UInt32) :
    (copying.currentLineNr < cheatLines.lines.length →
      ∃ copied, copyBytes system cheatLines numBytes bitOffset copying = .ok copied ∧
        copied.currentLineNr = copying.currentLineNr) ∧
    (cheatLines.lines.length ≤ copying.currentLineNr → 0 < numBytes →
      copyBytes system cheatLines numBytes bitOffset copying = .error .undefined) := by
  constructor
  · intro hlt
    induction numBytes generalizing copying bitOffset with
    | zero => exact ⟨copying, rfl, rfl⟩
    | succ numBytes ih =>
      unfold copyBytes
      rw [at_of_lt hlt, ok_bind]
      exact ih (bitOffset + 8) hlt
  · intro hle hpos
    obtain ⟨numBytes, rfl⟩ := Nat.exists_eq_succ_of_ne_zero (Nat.ne_of_gt hpos)
    unfold copyBytes
    rw [at_of_le hle]
    rfl

/-- Both loops of `PatchOp`. -/
def copyAll (system : CheatSystem M) (cheatLines : CheatLines) (numBytes : ℕ)
    (copying : Copying M) : Exec (Copying M) := do
  let copied ← copyWords system cheatLines numBytes copying
  copyBytes system cheatLines (numBytes % 4) 0 copied

theorem copyWords_of_lt {numBytes : ℕ} (h : numBytes < 4) :
    copyWords system cheatLines numBytes copying = .ok copying := by
  match numBytes, h with
  | 0, _ | 1, _ | 2, _ | 3, _ => rfl

/-- Without its first line no data is copied. -/
theorem copyAll_of_le {numBytes : ℕ} (hpos : 0 < numBytes)
    (hle : cheatLines.lines.length ≤ copying.currentLineNr) :
    copyAll system cheatLines numBytes copying = .error .undefined := by
  unfold copyAll
  by_cases hshort : numBytes < 4
  · rw [copyWords_of_lt hshort, ok_bind, Nat.mod_eq_of_lt hshort]
    exact (copyBytes_outcome numBytes 0).2 hle hpos
  · obtain ⟨rest, rfl⟩ := Nat.exists_eq_add_of_le' (Nat.le_of_not_lt hshort)
    rw [copyWords, at_of_le hle]
    rfl

/-- A word is copied. The next one is in the same line, or in the line behind. -/
theorem copyAll_word (system : CheatSystem M) (numBytes : ℕ)
    (hlt : copying.currentLineNr < cheatLines.lines.length) :
    ∃ next : Copying M, next.first = !copying.first ∧
      next.currentLineNr =
        (if copying.first = false ∧ 0 < numBytes then copying.currentLineNr + 1
        else copying.currentLineNr) ∧
      copyAll system cheatLines (numBytes + 4) copying =
        copyAll system cheatLines numBytes next := by
  have hwrap : u64 (copying.currentLineNr + 1) = copying.currentLineNr + 1 :=
    u64_of_lt (by have := cheatLines.size_lt; omega)
  unfold copyAll
  rw [copyWords, at_of_lt hlt, ok_bind, Nat.add_mod_right]
  refine ⟨_, rfl, ?_, rfl⟩
  simp [hwrap]

/-- The last line of the data. -/
theorem copyAll_last {numBytes : ℕ} (hle : numBytes ≤ 8) (hfirst : copying.first = true)
    (hlt : copying.currentLineNr < cheatLines.lines.length) :
    ∃ copied, copyAll system cheatLines numBytes copying = .ok copied ∧
      copied.currentLineNr = copying.currentLineNr := by
  by_cases hshort : numBytes < 4
  · unfold copyAll
    rw [copyWords_of_lt hshort, ok_bind]
    exact (copyBytes_outcome _ 0).1 hlt
  · obtain ⟨rest, rfl⟩ := Nat.exists_eq_add_of_le' (Nat.le_of_not_lt hshort)
    obtain ⟨next, -, hnr, hword⟩ := copyAll_word system rest hlt
    rw [hfirst, if_neg (by simp)] at hnr
    rw [hword, ← hnr]
    rw [← hnr] at hlt
    by_cases hrest : rest < 4
    · unfold copyAll
      rw [copyWords_of_lt hrest, ok_bind]
      exact (copyBytes_outcome _ 0).1 hlt
    · obtain rfl : rest = 0 + 4 := by omega
      obtain ⟨last, -, hnr', hword'⟩ := copyAll_word system 0 hlt
      rw [if_neg (by simp)] at hnr'
      rw [hword', ← hnr']
      exact ⟨last, rfl, rfl⟩

/-- A line of data that is not the last one. -/
theorem copyAll_line (system : CheatSystem M) {numBytes : ℕ} (hpos : 0 < numBytes)
    (hfirst : copying.first = true) (hlt : copying.currentLineNr < cheatLines.lines.length) :
    ∃ next : Copying M, next.first = true ∧ next.currentLineNr = copying.currentLineNr + 1 ∧
      copyAll system cheatLines (numBytes + 8) copying =
        copyAll system cheatLines numBytes next := by
  obtain ⟨half, hhalf, hnr, hword⟩ := copyAll_word system (numBytes + 4) hlt
  rw [hfirst, if_neg (by simp)] at hnr
  rw [hfirst] at hhalf
  obtain ⟨next, hnext, hnr', hword'⟩ := copyAll_word system numBytes (hnr.symm ▸ hlt)
  rw [hhalf, if_pos ⟨rfl, hpos⟩] at hnr'
  refine ⟨next, ?_, hnr'.trans (by rw [hnr]), hword.trans hword'⟩
  rw [hnext, hhalf]
  rfl

/-- The data is copied when all of its lines are there.
SOURCE: gateway_cheat.cpp:160-182 -/
theorem copyAll_outcome {numBytes : ℕ} (hpos : 0 < numBytes) (hfirst : copying.first = true) :
    (copying.currentLineNr + (numBytes + 7) / 8 ≤ cheatLines.lines.length →
      ∃ copied, copyAll system cheatLines numBytes copying = .ok copied ∧
        copied.currentLineNr + 1 = copying.currentLineNr + (numBytes + 7) / 8) ∧
    (cheatLines.lines.length < copying.currentLineNr + (numBytes + 7) / 8 →
      copyAll system cheatLines numBytes copying = .error .undefined) := by
  induction numBytes using Nat.strong_induction_on generalizing copying with
  | h numBytes ih =>
    by_cases hlt : copying.currentLineNr < cheatLines.lines.length
    · by_cases hlast : numBytes ≤ 8
      · have hone : (numBytes + 7) / 8 = 1 := by omega
        rw [hone]
        refine ⟨fun _ => ?_, fun hout => absurd hout (by omega)⟩
        obtain ⟨copied, hcopied, hnr⟩ := copyAll_last hlast hfirst hlt
        exact ⟨copied, hcopied, by rw [hnr]⟩
      · obtain ⟨rest, rfl⟩ := Nat.exists_eq_add_of_le' (Nat.le_of_not_le hlast)
        have hrest : 0 < rest := by omega
        obtain ⟨next, hnext, hnr, hstep⟩ := copyAll_line system hrest hfirst hlt
        obtain ⟨hin, hout⟩ := ih rest (by omega) hrest hnext
        have hlines : copying.currentLineNr + (rest + 8 + 7) / 8 =
            next.currentLineNr + (rest + 7) / 8 := by omega
        rw [hlines, hstep]
        exact ⟨hin, hout⟩
    · exact ⟨fun hin => absurd hin (by omega), fun _ => copyAll_of_le hpos (Nat.le_of_not_lt hlt)⟩

end Patches

section Lines

variable {line : CheatLine} {r r' : CheatRun M}

/-- A patch is carried out when its data is all there, and leads behind it.
SOURCE: gateway_cheat.cpp:148-183 -/
theorem patchOp_outcome (hflag : r.state.ifFlag = 0)
    (hlt : r.state.currentLineNr < cheatLines.lines.length) :
    (r.state.currentLineNr + patchLines line < cheatLines.lines.length →
      ∃ memory, patchOp system line r cheatLines = .ok { state := { r.state with
        currentLineNr := r.state.currentLineNr + patchLines line }, memory := memory }) ∧
    (cheatLines.lines.length ≤ r.state.currentLineNr + patchLines line →
      patchOp system line r cheatLines = .error .undefined) := by
  have hsize := cheatLines.size_lt
  have hwrap : u64 (r.state.currentLineNr + 1) = r.state.currentLineNr + 1 :=
    u64_of_lt (by omega)
  have heq : ∀ copied, copyAll system cheatLines line.value.toNat {
        addr := line.address + r.state.offset
        first := true
        currentLineNr := if 0 < line.value.toNat then r.state.currentLineNr + 1
          else r.state.currentLineNr
        memory := system.invalidateCacheRange (line.address + r.state.offset) line.value
          r.memory } = copied →
      patchOp system line r cheatLines = copied >>= fun copied =>
        pure { state := { r.state with currentLineNr := copied.currentLineNr }
               memory := copied.memory } := by
    rintro copied rfl
    unfold patchOp copyAll
    rw [hflag, if_neg (by decide), hwrap, bind_assoc]
  unfold patchLines
  by_cases hzero : line.value.toNat = 0
  · rw [hzero] at heq ⊢
    rw [heq _ rfl]
    exact ⟨fun _ => ⟨_, rfl⟩, fun hout => absurd hout (by omega)⟩
  · have hpos : 0 < line.value.toNat := Nat.pos_of_ne_zero hzero
    rw [if_pos hpos] at heq
    obtain ⟨hin, hout⟩ := @copyAll_outcome M system cheatLines {
      addr := line.address + r.state.offset
      first := true
      currentLineNr := r.state.currentLineNr + 1
      memory := system.invalidateCacheRange (line.address + r.state.offset) line.value r.memory }
      _ hpos rfl
    dsimp only at hin hout
    constructor
    · intro hfits
      obtain ⟨copied, hcopied, hnr⟩ := hin (by omega)
      refine ⟨copied.memory, ?_⟩
      rw [heq _ hcopied, ok_bind, show copied.currentLineNr =
        r.state.currentLineNr + (line.value.toNat + 7) / 8 by omega]
      rfl
    · intro hshort
      rw [heq _ (hout (by omega))]
      rfl

/-- A patch leads to the same line whether it is carried out or skipped. -/
theorem patchOp_ok (hlt : r.state.currentLineNr < cheatLines.lines.length)
    (h : patchOp system line r cheatLines = .ok r') :
    r'.state = { r.state with currentLineNr := r.state.currentLineNr + patchLines line } := by
  have hsize := cheatLines.size_lt
  by_cases hflag : r.state.ifFlag = 0
  · obtain ⟨hin, hout⟩ := @patchOp_outcome M system cheatLines line r hflag hlt
    by_cases hfits : r.state.currentLineNr + patchLines line < cheatLines.lines.length
    · obtain ⟨memory, hrun⟩ := hin hfits
      rw [h] at hrun
      cases hrun
      rfl
    · rw [hout (Nat.le_of_not_lt hfits)] at h
      cases h
  · unfold patchOp at h
    rw [if_pos (UInt32.pos_iff_ne_zero.mpr hflag)] at h
    cases h
    have hlines : patchLines line < 2 ^ 32 := by
      have := line.value.toNat_lt
      unfold patchLines
      omega
    dsimp only
    rw [u64_of_lt (by omega)]

/-- What the loop of `Execute` and the loops of the cheat go by is as it was. -/
structure SameLoop (s s' : State) : Prop where
  nr : s'.currentLineNr = s.currentLineNr
  flag : s'.loopFlag = s.loopFlag
  count : s'.loopCount = s.loopCount
  back : s'.loopBackLine = s.loopBackLine

theorem compOp_sameLoop {T : Type} (access : Access M T) (comp : T → Bool) :
    SameLoop r.state (compOp access line r comp).state := by
  unfold compOp
  dsimp only
  split <;> exact ⟨rfl, rfl, rfl, rfl⟩

theorem jokerOp_sameLoop : SameLoop r.state (jokerOp system line r).state := by
  unfold jokerOp
  split <;> exact ⟨rfl, rfl, rfl, rfl⟩

theorem terminateOp_sameLoop {s : State} : SameLoop s (terminateOp s) := by
  unfold terminateOp
  split <;> exact ⟨rfl, rfl, rfl, rfl⟩

/-- Only the lines of loops and patches do anything to where the cheat is.
SOURCE: gateway_cheat.cpp:288-424 -/
theorem executeLine_outcome (h : executeLine system line r cheatLines = .ok r') :
    match line.type with
    | .loop => r'.state = loopOp line r.state
    | .loopExecuteVariant => r'.state = loopExecuteVariantOp r.state
    | .fullTerminator => r'.state = fullTerminateOp r.state
    | .patch => patchOp system line r cheatLines = .ok r'
    | _ => SameLoop r.state r'.state := by
  unfold executeLine at h
  cases htype : line.type <;> rw [htype] at h <;> dsimp only at h ⊢
  case patch => exact h
  case greaterThan32 | lessThan32 | equalTo32 | notEqualTo32 | greaterThan16WithMask
    | lessThan16WithMask | equalTo16WithMask | notEqualTo16WithMask =>
    cases h
    exact compOp_sameLoop _ _
  case joker =>
    cases h
    exact jokerOp_sameLoop
  case terminator =>
    cases h
    exact terminateOp_sameLoop
  case loop | loopExecuteVariant | fullTerminator =>
    cases h
    rfl
  all_goals
    cases h
    exact ⟨rfl, rfl, rfl, rfl⟩

/-- SOURCE: gateway_cheat.cpp:249-286 -/
theorem skipLine_outcome (h : skipLine system line r cheatLines = .ok r') :
    match line.type with
    | .fullTerminator => r'.state = fullTerminateOp r.state
    | .patch => patchOp system line r cheatLines = .ok r'
    | _ => SameLoop r.state r'.state := by
  unfold skipLine at h
  cases htype : line.type <;> rw [htype] at h <;> dsimp only at h ⊢
  case patch => exact h
  case terminator =>
    cases h
    exact terminateOp_sameLoop
  case fullTerminator =>
    cases h
    rfl
  all_goals
    cases h
    exact ⟨rfl, rfl, rfl, rfl⟩

end Lines

/-! ## Turns -/

section Turns

variable {r r' : CheatRun M}

/-- A line moves on without touching the loop. -/
structure MovesOn (s s' : State) : Prop where
  nr : s.currentLineNr < s'.currentLineNr
  flag : s'.loopFlag = s.loopFlag
  count : s'.loopCount = s.loopCount
  back : s'.loopBackLine = s.loopBackLine

/-- A line leads back to the line of the loop. -/
structure MovesBack (s s' : State) : Prop where
  goesOn : s.loopFlag = true
  nr : s'.currentLineNr = s.loopBackLine
  flag : s'.loopFlag = true
  count : s'.loopCount = s.loopCount
  back : s'.loopBackLine = s.loopBackLine
  ifFlag : s'.ifFlag = s.ifFlag

/-- A line at the end of a loop that is over. -/
structure MovesOver (s s' : State) : Prop where
  ends : s.loopFlag = false
  nr : s'.currentLineNr = s.currentLineNr + 1
  flag : s'.loopFlag = false
  back : s'.loopBackLine = s.loopBackLine

/-- A line that a loop begins with. -/
structure MovesIn (line : CheatLine) (s s' : State) : Prop where
  nr : s'.currentLineNr = s.currentLineNr + 1
  flag : s'.loopFlag = decide (s.loopCount < line.value)
  count : s'.loopCount = s.loopCount + 1
  back : s'.loopBackLine = s.currentLineNr
  ifFlag : s'.ifFlag = s.ifFlag

/-- Everything that a turn can do. -/
structure Moves (cheatLines : CheatLines) (r r' : CheatRun M) (line : CheatLine) : Prop where
  found : cheatLines.lines[r.state.currentLineNr]? = some line
  inside : r.state.currentLineNr < cheatLines.lines.length
  loop : Executes cheatLines r line → line.type = .loop → MovesIn line r.state r'.state
  other : ¬ (Executes cheatLines r line ∧ line.type = .loop) →
    MovesOn r.state r'.state ∨ MovesOver r.state r'.state ∨
      MovesBack r.state r'.state ∧ (0 < r.state.ifFlag → line.type = .fullTerminator)

@[simp] theorem nextLine_nr :
    r.nextLine.state.currentLineNr = u64 (r.state.currentLineNr + 1) := rfl

@[simp] theorem nextLine_flag : r.nextLine.state.loopFlag = r.state.loopFlag := rfl

@[simp] theorem nextLine_count : r.nextLine.state.loopCount = r.state.loopCount := rfl

@[simp] theorem nextLine_back : r.nextLine.state.loopBackLine = r.state.loopBackLine := rfl

@[simp] theorem nextLine_ifFlag : r.nextLine.state.ifFlag = r.state.ifFlag := rfl

theorem SameLoop.movesOn {ended : CheatRun M} (h : SameLoop r.state ended.state)
    (hnr : r.state.currentLineNr < 2 ^ 63) : MovesOn r.state ended.nextLine.state := by
  refine ⟨?_, h.flag, h.count, h.back⟩
  rw [nextLine_nr, h.nr, u64_of_lt (by omega)]
  exact Nat.lt_succ_self _

theorem patchLines_le (line : CheatLine) : patchLines line ≤ 2 ^ 29 := by
  have := line.value.toNat_lt
  unfold patchLines
  omega

theorem patchOp_movesOn {line : CheatLine} {ended : CheatRun M}
    (hlt : r.state.currentLineNr < cheatLines.lines.length)
    (h : patchOp system line r cheatLines = .ok ended) :
    MovesOn r.state ended.nextLine.state := by
  have hsize := cheatLines.size_lt
  have hlines := patchLines_le line
  have hstate := patchOp_ok hlt h
  refine ⟨?_, ?_, ?_, ?_⟩
  · rw [nextLine_nr, hstate, u64_of_lt (by dsimp only; omega)]
    dsimp only
    omega
  · rw [nextLine_flag, hstate]
  · rw [nextLine_count, hstate]
  · rw [nextLine_back, hstate]

/-- The step to the next line. -/
theorem jump_wraps {back : ℕ} (h : back < 2 ^ 63) : u64 (u64Sub back 1 + 1) = back := by
  unfold u64Sub u64
  omega

/-- The end of a loop, and the full terminator. -/
theorem loopEnd_moves {ended : CheatRun M} (hback : r.state.loopBackLine < 2 ^ 63)
    (hnr : r.state.currentLineNr < 2 ^ 63)
    (h : ended.state = loopExecuteVariantOp r.state ∨ ended.state = fullTerminateOp r.state) :
    MovesOver r.state ended.nextLine.state ∨ MovesBack r.state ended.nextLine.state := by
  cases hloop : r.state.loopFlag with
  | true =>
    have hended : ended.state =
        { r.state with currentLineNr := u64Sub r.state.loopBackLine 1 } := by
      rcases h with h | h
      · rw [h, loopExecuteVariantOp, if_pos hloop]
      · rw [h, fullTerminateOp, if_pos hloop]
    refine .inr ⟨hloop, ?_, ?_, ?_, ?_, ?_⟩
    · rw [nextLine_nr, hended]
      exact jump_wraps hback
    · rw [nextLine_flag, hended]
      exact hloop
    · rw [nextLine_count, hended]
    · rw [nextLine_back, hended]
    · rw [nextLine_ifFlag, hended]
  | false =>
    have hended : ended.state.currentLineNr = r.state.currentLineNr ∧
        ended.state.loopFlag = false ∧ ended.state.loopBackLine = r.state.loopBackLine := by
      rcases h with h | h
      · rw [h, loopExecuteVariantOp, if_neg (by simp [hloop])]
        exact ⟨rfl, hloop, rfl⟩
      · rw [h, fullTerminateOp, if_neg (by simp [hloop])]
        exact ⟨rfl, rfl, rfl⟩
    refine .inl ⟨hloop, ?_, hended.2.1, hended.2.2⟩
    rw [nextLine_nr, hended.1, u64_of_lt (by omega)]

/-- SOURCE: gateway_cheat.cpp:246-426 -/
theorem executeTurn_moves (hback : r.state.loopBackLine < 2 ^ 63)
    (h : executeTurn system cheatLines r = .ok (some r')) : ∃ line, Moves cheatLines r r' line := by
  have hsize := cheatLines.size_lt
  unfold executeTurn at h
  cases hfound : cheatLines.lines[r.state.currentLineNr]? with
  | none =>
    rw [hfound] at h
    cases h
  | some line =>
    rw [hfound] at h
    obtain ⟨hlt, -⟩ := List.getElem?_eq_some_iff.mp hfound
    obtain ⟨ended, hrun, hnext⟩ := bind_eq_ok.mp h
    cases hnext
    have hon : SameLoop r.state ended.state → MovesOn r.state ended.nextLine.state :=
      fun hsame => hsame.movesOn (by omega)
    have hpatch : patchOp system line r cheatLines = .ok ended →
        MovesOn r.state ended.nextLine.state :=
      fun hpatch => patchOp_movesOn hlt hpatch
    by_cases hskip : 0 < r.state.ifFlag
    · have hnot : ¬ Executes cheatLines r line := fun hexec => by
        rw [hexec.1] at hskip
        exact absurd hskip (by decide)
      unfold runLine at hrun
      rw [if_pos hskip] at hrun
      refine ⟨line, hfound, hlt, fun hexec => absurd hexec hnot, fun _ => ?_⟩
      have houtcome := skipLine_outcome hrun
      cases htype : line.type <;> rw [htype] at houtcome <;> dsimp only at houtcome
      case patch => exact .inl (hpatch houtcome)
      case fullTerminator =>
        rcases loopEnd_moves hback (by omega) (.inr houtcome) with hover | hback
        · exact .inr (.inl hover)
        · exact .inr (.inr ⟨hback, fun _ => rfl⟩)
      all_goals exact .inl (hon houtcome)
    · have hflag : r.state.ifFlag = 0 := by
        by_contra hne
        exact hskip (UInt32.pos_iff_ne_zero.mpr hne)
      unfold runLine at hrun
      rw [if_neg hskip] at hrun
      have houtcome := executeLine_outcome hrun
      refine ⟨line, hfound, hlt, fun _ hloop => ?_, fun hnot => ?_⟩
      · rw [hloop] at houtcome
        refine ⟨?_, ?_, ?_, ?_, ?_⟩
        · rw [nextLine_nr, houtcome, loopOp, u64_of_lt (by dsimp only; omega)]
        · rw [nextLine_flag, houtcome, loopOp]
        · rw [nextLine_count, houtcome, loopOp]
        · rw [nextLine_back, houtcome, loopOp]
        · rw [nextLine_ifFlag, houtcome, loopOp]
      · have hends : ended.state = loopExecuteVariantOp r.state ∨
            ended.state = fullTerminateOp r.state →
            MovesOn r.state ended.nextLine.state ∨ MovesOver r.state ended.nextLine.state ∨
              MovesBack r.state ended.nextLine.state ∧
                (0 < r.state.ifFlag → line.type = .fullTerminator) := by
          intro hend
          rcases loopEnd_moves hback (by omega) hend with hover | hback
          · exact .inr (.inl hover)
          · exact .inr (.inr ⟨hback, fun h => absurd h hskip⟩)
        cases htype : line.type <;> rw [htype] at houtcome hnot <;> dsimp only at houtcome
        case loop => exact absurd ⟨⟨hflag, hfound⟩, rfl⟩ hnot
        case patch => exact .inl (hpatch houtcome)
        case loopExecuteVariant => exact htype ▸ hends (.inl houtcome)
        case fullTerminator => exact htype ▸ hends (.inr houtcome)
        all_goals exact .inl (hon houtcome)

/-- Every line but a patch can be carried out. -/
theorem runLine_total {line : CheatLine} (h : ¬ (r.state.ifFlag = 0 ∧ line.type = .patch)) :
    ∃ ended, runLine system cheatLines line r = .ok ended := by
  unfold runLine
  split
  next hskip =>
    unfold skipLine
    cases line.type
    case patch =>
      unfold patchOp
      rw [if_pos hskip]
      exact ⟨_, rfl⟩
    all_goals exact ⟨_, rfl⟩
  next hskip =>
    have hflag : r.state.ifFlag = 0 := by
      by_contra hne
      exact hskip (UInt32.pos_iff_ne_zero.mpr hne)
    unfold executeLine
    cases htype : line.type
    case patch => exact absurd ⟨hflag, htype⟩ h
    all_goals exact ⟨_, rfl⟩

/-- A turn faults where a patch is cut off, and nowhere else.
SOURCE: gateway_cheat.cpp:148-183 -/
theorem executeTurn_outcome (system : CheatSystem M) (cheatLines : CheatLines) (r : CheatRun M) :
    (PatchFits cheatLines r →
      (r.state.currentLineNr < cheatLines.lines.length →
        ∃ r', executeTurn system cheatLines r = .ok (some r')) ∧
      (cheatLines.lines.length ≤ r.state.currentLineNr →
        executeTurn system cheatLines r = .ok none)) ∧
    (¬ PatchFits cheatLines r → executeTurn system cheatLines r = .error .undefined) := by
  unfold executeTurn
  cases hfound : cheatLines.lines[r.state.currentLineNr]? with
  | none =>
    have hle := List.getElem?_eq_none_iff.mp hfound
    refine ⟨fun _ => ⟨fun hlt => absurd hlt (by omega), fun _ => rfl⟩, fun hcut => absurd ?_ hcut⟩
    rintro line ⟨-, hline⟩
    rw [hfound] at hline
    cases hline
  | some line =>
    obtain ⟨hlt, -⟩ := List.getElem?_eq_some_iff.mp hfound
    have hfits : PatchFits cheatLines r ↔ (r.state.ifFlag = 0 → line.type = .patch →
        r.state.currentLineNr + patchLines line < cheatLines.lines.length) := by
      constructor
      · exact fun h hflag => h line ⟨hflag, hfound⟩
      · rintro h line' ⟨hflag, hline⟩
        rw [hfound] at hline
        cases hline
        exact h hflag
    rw [hfits]
    have hgoes : ∀ ended, runLine system cheatLines line r = .ok ended →
        ∃ r', (runLine system cheatLines line r >>= fun r => pure (some r.nextLine)) =
          (.ok (some r') : Exec _) := by
      intro ended hrun
      rw [hrun]
      exact ⟨_, rfl⟩
    by_cases hpatch : r.state.ifFlag = 0 ∧ line.type = .patch
    · obtain ⟨hflag, htype⟩ := hpatch
      have hrun : runLine system cheatLines line r = patchOp system line r cheatLines := by
        unfold runLine executeLine
        rw [if_neg (by simp [hflag]), htype]
      obtain ⟨hin, hout⟩ := @patchOp_outcome M system cheatLines line r hflag hlt
      refine ⟨fun hfits => ⟨fun _ => ?_, fun hle => absurd hlt (by omega)⟩, fun hcut => ?_⟩
      · obtain ⟨memory, hok⟩ := hin (hfits hflag htype)
        exact hgoes _ (hrun.trans hok)
      · have hle : cheatLines.lines.length ≤ r.state.currentLineNr + patchLines line := by
          by_contra hlt'
          exact hcut fun _ _ => Nat.lt_of_not_le hlt'
        show (runLine system cheatLines line r >>= _) = _
        rw [hrun, hout hle]
        rfl
    · obtain ⟨ended, hrun⟩ := @runLine_total M system cheatLines r line hpatch
      exact ⟨fun _ => ⟨fun _ => hgoes _ hrun, fun hle => absurd hlt (by omega)⟩,
        fun hcut => absurd (fun hflag htype => absurd ⟨hflag, htype⟩ hpatch) hcut⟩

end Turns

/-! ## Staying inside of the lines -/

/-- In every run `Execute` stays inside of the lines exactly when the data of each patch that it
carries out is all there; a patch always leads to the same line, carried out or skipped.
SOURCE: gateway_cheat.cpp:148-183, 233-426 -/
theorem execute_staysInside_iff (system : CheatSystem M) (cheatLines : CheatLines) (memory : M) :
    StaysInside system cheatLines memory ↔
      ∀ r, CheatVisits system cheatLines memory r → PatchFits cheatLines r := by
  have hfits : ∀ r,
      executeTurn system cheatLines r ≠ .error .undefined ↔ PatchFits cheatLines r := by
    intro r
    obtain ⟨hin, hcut⟩ := executeTurn_outcome system cheatLines r
    constructor
    · intro hturn
      by_contra hnot
      exact hturn (hcut hnot)
    · intro hfits hfault
      obtain ⟨hgoes, hover⟩ := hin hfits
      rcases Nat.lt_or_ge r.state.currentLineNr cheatLines.lines.length with hlt | hle
      · obtain ⟨r', hturn⟩ := hgoes hlt
        rw [hturn] at hfault
        cases hfault
      · rw [hover hle] at hfault
        cases hfault
  constructor
  · intro h r hr
    exact (hfits r).mp (whileLoop_ne_error_iff.mp h.inside r hr)
  · intro h
    refine ⟨whileLoop_ne_error_iff.mpr fun r hr => (hfits r).mpr (h r hr), ?_⟩
    rintro line r executed skipped ifFlag ⟨hflag, hline⟩ htype hpos hexecuted hskipped
    obtain ⟨hlt, -⟩ := List.getElem?_eq_some_iff.mp hline
    have hexec := executeLine_outcome hexecuted
    have hskip := skipLine_outcome hskipped
    rw [htype] at hexec hskip
    have hends := patchOp_ok hlt hexec
    have hskips := patchOp_ok (by exact hlt) hskip
    rw [hends, hskips]

/-! ## Coming to the end -/

section Loops

variable {r r' : CheatRun M} {line : CheatLine}

/-- What holds of every state that a cheat visits: while a loop goes on, the cheat is not before the
line that it begins with, and that line is carried out when the cheat is at it. -/
structure CheatInvariant (cheatLines : CheatLines) (s : State) : Prop where
  back_lt : s.loopBackLine < 2 ^ 63
  back_le : s.loopFlag = true → s.loopBackLine ≤ s.currentLineNr
  atLoop : s.loopFlag = true → s.currentLineNr = s.loopBackLine → s.ifFlag = 0
  isLoop : s.loopFlag = true → ∃ line, cheatLines.lines[s.loopBackLine]? = some line ∧
    line.type = .loop ∧ s.loopCount.toNat ≤ line.value.toNat

theorem cheatInvariant_start (memory : M) :
    CheatInvariant cheatLines (cheatStart memory).state where
  back_lt := Nat.two_pow_pos 63
  back_le hflag := by cases hflag
  atLoop hflag := by cases hflag
  isLoop hflag := by cases hflag

/-- A loop that has not run often enough is counted on. -/
theorem loopCount_succ {count value : UInt32} (h : count < value) :
    (count + 1).toNat = count.toNat + 1 := by
  have hlt : count.toNat < value.toNat := UInt32.lt_iff_toNat_lt.mp h
  have hvalue := value.toNat_lt
  rw [UInt32.toNat_add, show (1 : UInt32).toNat = 1 from rfl]
  omega

/-- Behind the line of its loop a cheat moves on and back. -/
theorem CheatInvariant.behind (h : CheatInvariant cheatLines r.state)
    (hfound : cheatLines.lines[r.state.currentLineNr]? = some line)
    (hother : ¬ (Executes cheatLines r line ∧ line.type = .loop))
    (hflag : r.state.loopFlag = true) : r.state.loopBackLine < r.state.currentLineNr := by
  apply Nat.lt_of_le_of_ne (h.back_le hflag)
  intro heq
  obtain ⟨loop, hloop, htype, -⟩ := h.isLoop hflag
  rw [heq, hfound] at hloop
  cases hloop
  exact hother ⟨⟨h.atLoop hflag heq.symm, hfound⟩, htype⟩

/-- SOURCE: gateway_cheat.cpp:66-96 -/
theorem CheatInvariant.moves (h : CheatInvariant cheatLines r.state)
    (hmoves : Moves cheatLines r r' line) (hskipped : NoSkippedNext cheatLines r) :
    CheatInvariant cheatLines r'.state := by
  have hsize := cheatLines.size_lt
  have hinside := hmoves.inside
  by_cases hloop : Executes cheatLines r line ∧ line.type = .loop
  · obtain ⟨hnr, hflag, hcount, hback, hif⟩ := hmoves.loop hloop.1 hloop.2
    refine ⟨by omega, fun _ => by omega, fun _ heq => absurd heq (by omega), fun hgoes => ?_⟩
    rw [hflag, decide_eq_true_eq] at hgoes
    refine ⟨line, hback ▸ hmoves.found, hloop.2, ?_⟩
    rw [hcount, loopCount_succ hgoes]
    exact UInt32.lt_iff_toNat_lt.mp hgoes
  · rcases hmoves.other hloop with ⟨hnr, hflag, hcount, hback⟩ | ⟨-, -, hflag, hback⟩ |
      ⟨⟨hgoes, hnr, hflag, hcount, hback, hif⟩, hterminator⟩
    · have hbehind := fun hgoes => h.behind hmoves.found hloop (hflag ▸ hgoes)
      refine ⟨hback ▸ h.back_lt, fun hgoes => ?_, fun hgoes heq => ?_, fun hgoes => ?_⟩
      · have := hbehind hgoes
        omega
      · have := hbehind hgoes
        omega
      · rw [hback, hcount]
        exact h.isLoop (hflag ▸ hgoes)
    · refine ⟨hback ▸ h.back_lt, fun hgoes => ?_, fun hgoes => ?_, fun hgoes => ?_⟩
      all_goals
        rw [hflag] at hgoes
        cases hgoes
    · refine ⟨hback ▸ h.back_lt, fun _ => by omega, fun _ _ => ?_, fun _ => ?_⟩
      · rw [hif]
        by_contra hne
        have hpos : 0 < r.state.ifFlag := UInt32.pos_iff_ne_zero.mpr hne
        rw [hskipped line hmoves.found (hterminator hpos) hpos] at hgoes
        cases hgoes
      · rw [hback, hcount]
        exact h.isLoop hgoes

/-- The loops that are still to come, how often the loop that goes on may still begin, whether the
cheat is behind the line that it begins with, and the lines up to the end. -/
def cheatMeasure (size : ℕ) (s : State) : ℕ ×ₗ ℕ ×ₗ ℕ ×ₗ ℕ :=
  if s.loopFlag then
    toLex (size - s.loopBackLine - 1, toLex (2 ^ 32 - s.loopCount.toNat,
      toLex (if s.loopBackLine < s.currentLineNr then 1 else 0, size - s.currentLineNr)))
  else toLex (size - s.currentLineNr, toLex (0, toLex (0, 0)))

theorem measure_lt_iff {a b c d a' b' c' d' : ℕ} :
    (toLex (a, toLex (b, toLex (c, d))) : ℕ ×ₗ ℕ ×ₗ ℕ ×ₗ ℕ) <
        toLex (a', toLex (b', toLex (c', d'))) ↔
      a < a' ∨ a = a' ∧ (b < b' ∨ b = b' ∧ (c < c' ∨ c = c' ∧ d < d')) := by
  rw [Prod.Lex.toLex_lt_toLex, Prod.Lex.toLex_lt_toLex, Prod.Lex.toLex_lt_toLex]

/-- Every turn decreases the measure. -/
theorem cheatMeasure_lt (h : CheatInvariant cheatLines r.state)
    (hmoves : Moves cheatLines r r' line) :
    cheatMeasure cheatLines.lines.length r'.state <
      cheatMeasure cheatLines.lines.length r.state := by
  have hinside := hmoves.inside
  have hcount_lt := r.state.loopCount.toNat_lt
  unfold cheatMeasure
  by_cases hloop : Executes cheatLines r line ∧ line.type = .loop
  · obtain ⟨hnr, hflag, hcount, hback, -⟩ := hmoves.loop hloop.1 hloop.2
    rw [hnr, hback]
    cases hold : r.state.loopFlag <;> cases hnew : r'.state.loopFlag
    · rw [if_neg (by decide), if_neg (by decide), measure_lt_iff]
      omega
    · rw [if_pos rfl, if_pos (Nat.lt_succ_self _), if_neg (by decide), measure_lt_iff]
      omega
    · have hback_le := h.back_le hold
      rw [if_neg (by decide), if_pos rfl, measure_lt_iff]
      omega
    · -- a loop within the loop, or the same one again
      have hback_le := h.back_le hold
      rw [hflag, decide_eq_true_eq] at hnew
      rw [if_pos rfl, if_pos rfl, measure_lt_iff, hcount, loopCount_succ hnew]
      omega
  · have hbehind := h.behind hmoves.found hloop
    rcases hmoves.other hloop with ⟨hnr, hflag, hcount, hback⟩ | ⟨hover, hnr, hflag, hback⟩ |
      ⟨⟨hgoes, hnr, hflag, hcount, hback, -⟩, -⟩
    · rw [hflag, hcount, hback]
      cases hold : r.state.loopFlag
      · rw [if_neg (by decide), if_neg (by decide), measure_lt_iff]
        omega
      · have hlt := hbehind hold
        rw [if_pos rfl, if_pos rfl, if_pos hlt, if_pos (hlt.trans hnr), measure_lt_iff]
        omega
    · rw [hover, hflag, if_neg (by decide), if_neg (by decide), measure_lt_iff]
      omega
    · have hlt := hbehind hgoes
      rw [hgoes, hflag, hcount, hback, hnr, if_pos rfl, if_pos rfl, if_pos hlt,
        if_neg (Nat.lt_irrefl _), measure_lt_iff]
      omega

/-- How often a line can still be carried out that a loop begins with, when `most` times are
allowed. -/
def bodyBudget (lineNr most : ℕ) (s : State) : ℕ :=
  if s.loopFlag then
    if s.loopBackLine < lineNr then most
    else if s.loopBackLine = lineNr then most - s.loopCount.toNat
    else 0
  else if s.currentLineNr ≤ lineNr then most
  else 0

/-- Each time the line is carried out some of the budget is spent, and none is given back. -/
theorem bodyBudget_le (h : CheatInvariant cheatLines r.state) (hmoves : Moves cheatLines r r' line)
    {lineNr most : ℕ} {loop : CheatLine} (hline : cheatLines.lines[lineNr]? = some loop)
    (htype : loop.type = .loop) (hmost : Executes cheatLines r loop → 0 < most ∧
      (r.state.loopCount.toNat ≤ loop.value.toNat → r.state.loopCount.toNat < most)) :
    (if r.state.currentLineNr = lineNr ∧ r.state.ifFlag = 0 then 1 else 0) +
      bodyBudget lineNr most r'.state ≤ bodyBudget lineNr most r.state := by
  have hback_le := h.back_le
  by_cases hloop : Executes cheatLines r line ∧ line.type = .loop
  · obtain ⟨hnr, hflag, hcount, hback, -⟩ := hmoves.loop hloop.1 hloop.2
    have hcounted : r'.state.loopFlag = true →
        r'.state.loopCount.toNat = r.state.loopCount.toNat + 1 := by
      intro hgoes
      rw [hflag, decide_eq_true_eq] at hgoes
      rw [hcount, loopCount_succ hgoes]
    unfold bodyBudget
    rw [hnr, hback]
    by_cases hhere : r.state.currentLineNr = lineNr
    · -- the line itself is carried out
      subst hhere
      obtain rfl : line = loop := Option.some.inj (hmoves.found.symm.trans hline)
      obtain ⟨hpos, hless⟩ := hmost hloop.1
      have hspent : (if r'.state.loopFlag then most - r'.state.loopCount.toNat else 0) ≤
          most - (r.state.loopCount.toNat + 1) := by
        split
        next hnew => rw [hcounted hnew]
        next => exact Nat.zero_le _
      rw [if_pos ⟨rfl, hloop.1.1⟩, if_neg (Nat.lt_irrefl _), if_pos rfl,
        if_neg (Nat.not_succ_le_self _)]
      refine (Nat.add_le_add_left hspent 1).trans ?_
      cases hold : r.state.loopFlag with
      | false =>
        rw [if_neg (by decide), if_pos (Nat.le_refl _)]
        omega
      | true =>
        obtain ⟨begin, hbegin, -, hcount_le⟩ := h.isLoop hold
        have hle := hback_le hold
        rw [if_pos rfl]
        by_cases hsame : r.state.loopBackLine = r.state.currentLineNr
        · rw [hsame, hmoves.found] at hbegin
          obtain rfl := Option.some.inj hbegin
          have hlt := hless hcount_le
          rw [if_neg (by omega), if_pos hsame]
          omega
        · rw [if_pos (by omega)]
          omega
    · rw [if_neg fun hat => hhere hat.1, Nat.zero_add]
      cases hold : r.state.loopFlag with
      | false =>
        simp only [Bool.false_eq_true, if_false]
        split_ifs <;> omega
      | true =>
        have hle := hback_le hold
        simp only [if_true]
        split_ifs <;> omega
  · have hnot : ¬ (r.state.currentLineNr = lineNr ∧ r.state.ifFlag = 0) := by
      rintro ⟨rfl, hif⟩
      obtain rfl : line = loop := Option.some.inj (hmoves.found.symm.trans hline)
      exact hloop ⟨⟨hif, hline⟩, htype⟩
    unfold bodyBudget
    rw [if_neg hnot, Nat.zero_add]
    rcases hmoves.other hloop with ⟨hnr, hflag, hcount, hback⟩ | ⟨hover, hnr, hflag, -⟩ |
      ⟨⟨hgoes, -, hflag, hcount, hback, -⟩, -⟩
    · rw [hflag, hcount, hback]
      split_ifs <;> omega
    · rw [hover, hflag, hnr]
      simp only [Bool.false_eq_true, if_false]
      split_ifs <;> omega
    · rw [hgoes, hflag, hcount, hback]
      exact Nat.le_refl _

end Loops

section Runs

variable {memory : M}

theorem cheatVisits_next {r r' : CheatRun M} (hr : CheatVisits system cheatLines memory r)
    (hturn : executeTurn system cheatLines r = .ok (some r')) :
    CheatVisits system cheatLines memory r' :=
  Relation.ReflTransGen.tail hr hturn

/-- What a cheat visits and what holds there. -/
theorem cheatInvariant_visits
    (h : ∀ r, CheatVisits system cheatLines memory r → NoSkippedNext cheatLines r) {r : CheatRun M}
    (hr : CheatVisits system cheatLines memory r) : CheatInvariant cheatLines r.state := by
  induction hr with
  | refl => exact cheatInvariant_start memory
  | tail hbefore hturn ih =>
    obtain ⟨line, hmoves⟩ := executeTurn_moves ih.back_lt hturn
    exact ih.moves hmoves (h _ hbefore)

/-- How often the body of a loop runs. -/
theorem bodyRuns_le
    (h : ∀ r, CheatVisits system cheatLines memory r → NoSkippedNext cheatLines r) {lineNr most : ℕ}
    {loop : CheatLine} (hline : cheatLines.lines[lineNr]? = some loop) (htype : loop.type = .loop)
    (hmost : ∀ r, CheatVisits system cheatLines memory r → Executes cheatLines r loop →
      0 < most ∧ (r.state.loopCount.toNat ≤ loop.value.toNat → r.state.loopCount.toNat < most))
    (fuel : ℕ) : bodyRuns system cheatLines memory lineNr fuel ≤ most := by
  have hbudget : bodyBudget lineNr most (cheatStart memory).state = most := by
    simp [bodyBudget, cheatStart]
  rw [← hbudget]
  refine @countTurns_le _ _ _ _ _ (fun r => bodyBudget lineNr most r.state)
    (CheatVisits system cheatLines memory) ?_ ?_ .refl fuel
  · intro r r' hr hturn
    have hinv := cheatInvariant_visits h hr
    obtain ⟨line, hmoves⟩ := executeTurn_moves hinv.back_lt hturn
    refine ⟨cheatVisits_next hr hturn, ?_⟩
    simpa only [decide_eq_true_eq] using bodyBudget_le hinv hmoves hline htype (hmost r hr)
  · intro r hr hlast
    rw [if_neg]
    · exact Nat.zero_le _
    · -- the line of a loop is always carried out
      rw [decide_eq_true_eq]
      rintro ⟨rfl, -⟩
      obtain ⟨hlt, -⟩ := List.getElem?_eq_some_iff.mp hline
      have hfits : PatchFits cheatLines r := by
        rintro line ⟨-, hfound⟩ hpatch
        obtain rfl : line = loop := Option.some.inj (hfound.symm.trans hline)
        rw [htype] at hpatch
        cases hpatch
      obtain ⟨r', hturn⟩ := ((executeTurn_outcome system cheatLines r).1 hfits).1 hlt
      exact hlast r' hturn

/-- In every run in which no full terminator inside of a condition that does not hold finds a loop
that goes on, and in which the data of every patch that is carried out is there, `Execute` ends, and
the body of a loop runs at most once more than its line says.
SOURCE: gateway_cheat.cpp:66-96, 233-426 -/
theorem execute_finishes (system : CheatSystem M) (cheatLines : CheatLines) (memory : M)
    (h : ∀ r, CheatVisits system cheatLines memory r →
      NoSkippedNext cheatLines r ∧ PatchFits cheatLines r) :
    (∃ fuel final, execute system cheatLines fuel memory = .ok (some final)) ∧
      ∀ lineNr line, cheatLines.lines[lineNr]? = some line → line.type = .loop → ∀ fuel,
        bodyRuns system cheatLines memory lineNr fuel ≤ line.value.toNat + 1 := by
  constructor
  · refine finishes_of_measure (fun r => cheatMeasure cheatLines.lines.length r.state)
      (CheatVisits system cheatLines memory) (fun r hr => ?_) .refl
    have hinv := cheatInvariant_visits (fun r hr => (h r hr).1) hr
    obtain ⟨hgoes, hover⟩ := (executeTurn_outcome system cheatLines r).1 (h r hr).2
    rcases Nat.lt_or_ge r.state.currentLineNr cheatLines.lines.length with hlt | hle
    · obtain ⟨r', hturn⟩ := hgoes hlt
      obtain ⟨line, hmoves⟩ := executeTurn_moves hinv.back_lt hturn
      exact .inr ⟨r', hturn, cheatVisits_next hr hturn, cheatMeasure_lt hinv hmoves⟩
    · exact .inl (hover hle)
  · intro lineNr line hline htype fuel
    exact bodyRuns_le (fun r hr => (h r hr).1) hline htype
      (fun r _ _ => ⟨Nat.succ_pos _, Nat.lt_succ_of_le⟩) fuel

/-- In every run that meets the conditions `Execute` ends, and the body of each loop runs at most as
often as its line says.
SOURCE: gateway_cheat.cpp:66-96, 233-426 -/
theorem execute_terminates (system : CheatSystem M) (cheatLines : CheatLines) (memory : M)
    (h : ∀ r, CheatVisits system cheatLines memory r →
      NoSkippedNext cheatLines r ∧ PatchFits cheatLines r ∧ LoopCounts cheatLines r) :
    CheatEnds system cheatLines memory where
  finishes := (execute_finishes system cheatLines memory fun r hr =>
    ⟨(h r hr).1, (h r hr).2.1⟩).1
  counted lineNr line hline htype fuel := by
    refine bodyRuns_le (fun r hr => (h r hr).1) hline htype (fun r hr hexec => ?_) fuel
    have hlt := UInt32.lt_iff_toNat_lt.mp ((h r hr).2.2 line hexec htype)
    exact ⟨by omega, fun _ => hlt⟩

end Runs

/-! ## Cheats -/

/-- A game that has nothing mapped: reading gives zero, and what is written is lost. -/
def nothingMapped : CheatSystem Unit where
  read8 _ memory := (0, memory)
  read16 _ memory := (0, memory)
  read32 _ memory := (0, memory)
  write8 _ _ memory := memory
  write16 _ _ memory := memory
  write32 _ _ memory := memory
  invalidateCacheRange _ _ memory := memory
  padState _ := 0

/-- A loop with a patch, and a condition that does not hold around another one. -/
def patchCheat : CheatLines :=
  ⟨[⟨.loop, 0, 2, 0xC0000000⟩, ⟨.patch, 0, 9, 0xE0000000⟩, ⟨.null, 0, 7, 5⟩, ⟨.null, 0, 0, 6⟩,
    ⟨.greaterThan32, 0, 0, 0x30000000⟩, ⟨.patch, 0, 4, 0xE0000000⟩, ⟨.loop, 0, 1, 0xC0000001⟩,
    ⟨.terminator, 0, 0, 0xD0000000⟩], by decide⟩

theorem execute_terminates_patch : CheatEnds nothingMapped patchCheat () := by
  refine execute_terminates nothingMapped patchCheat () fun r hr => ?_
  have hstates : ∀ r ∈ statesOf (executeTurn nothingMapped patchCheat) 7 (cheatStart ()),
      NoSkippedNext patchCheat r ∧ PatchFits patchCheat r ∧ LoopCounts patchCheat r := by decide
  have hover : ∃ final, execute nothingMapped patchCheat 7 () = .ok (some final) := ⟨_, rfl⟩
  obtain ⟨final, hover⟩ := hover
  exact hstates r (hr.mem_statesOf hover)

/-- A loop whose full terminator is reached inside of a condition that does not hold. -/
def endlessCheat : CheatLines :=
  ⟨[⟨.loop, 0, 1, 0xC0000000⟩, ⟨.terminator, 0, 0, 0xD0000000⟩,
    ⟨.greaterThan32, 0, 0, 0x30000000⟩, ⟨.fullTerminator, 0, 0, 0xD2000000⟩], by decide⟩

/-- A loop that is to run once. -/
def onceCheat : CheatLines :=
  ⟨[⟨.loop, 0, 1, 0xC0000000⟩, ⟨.loopExecuteVariant, 0, 0, 0xD1000000⟩], by decide⟩

/-- The first cheat never ends, and the loop of the second one runs twice.
SOURCE: gateway_cheat.cpp:66-96 -/
theorem execute_not_terminates :
    ¬ CheatEnds nothingMapped endlessCheat () ∧ ¬ CheatEnds nothingMapped onceCheat () := by
  constructor
  · intro h
    -- the sixth turn comes back to a state that the cheat has been in
    have hback : ∀ r ∈ statesOf (executeTurn nothingMapped endlessCheat) 5 (cheatStart ()),
        ∃ r' ∈ statesOf (executeTurn nothingMapped endlessCheat) 5 (cheatStart ()),
          executeTurn nothingMapped endlessCheat r = .ok (some r') := by decide
    refine not_finishes_of_goes_on
      (fun r => r ∈ statesOf (executeTurn nothingMapped endlessCheat) 5 (cheatStart ()))
      (fun r hr => ?_) List.mem_cons_self h.finishes
    obtain ⟨r', hr', hturn⟩ := hback r hr
    exact ⟨r', hturn, hr'⟩
  · intro h
    have htwice := h.counted 0 _ rfl rfl 4
    revert htwice
    decide

/-- A patch without its data is read from behind the last line.
SOURCE: gateway_cheat.cpp:166-167 -/
theorem execute_leaves_lines :
    ¬ StaysInside nothingMapped ⟨[⟨.patch, 0, 8, 0xE0000000⟩], by decide⟩ () :=
  fun h => h.inside 1 rfl

end Borked3DS.Analysis
