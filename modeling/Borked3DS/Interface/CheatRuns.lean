import Borked3DS.Model.CheatExecution

/-!
# What running a cheat promises

A cheat comes to its end, it stays inside of its lines, and a line of patch data is passed over in
the same way whether it is carried out or not.
-/

set_option autoImplicit false

namespace Borked3DS.Interface

open Borked3DS.Library Borked3DS.Model.Cheats

variable {M : Type}

/-- The state that `Execute` begins in. -/
def cheatStart (memory : M) : CheatRun M := { state := {}, memory := memory }

section Runs

variable (system : CheatSystem M) (cheatLines : CheatLines)

/-- `Execute` comes to a state. -/
def CheatVisits (memory : M) (r : CheatRun M) : Prop :=
  Visits (executeTurn system cheatLines) (cheatStart memory) r

/-- A line is carried out next. -/
def Executes (r : CheatRun M) (line : CheatLine) : Prop :=
  r.state.ifFlag = 0 ∧ cheatLines.lines[r.state.currentLineNr]? = some line

/-- How often a line is carried out in so many turns. Each time the body of a loop begins. -/
def bodyRuns (memory : M) (lineNr fuel : ℕ) : ℕ :=
  countTurns (executeTurn system cheatLines)
    (fun r => decide (r.state.currentLineNr = lineNr ∧ r.state.ifFlag = 0)) fuel
    (cheatStart memory)

/-- `Execute` ends, and the body of a loop runs as often as its line says at most. -/
structure CheatEnds (memory : M) : Prop where
  finishes : ∃ fuel final, execute system cheatLines fuel memory = .ok (some final)
  counted : ∀ lineNr line, cheatLines.lines[lineNr]? = some line → line.type = .loop →
    ∀ fuel, bodyRuns system cheatLines memory lineNr fuel ≤ line.value.toNat

/-- No index is used that the lines do not have, and a patch that is carried out leads to the line
that it leads to when it is skipped. -/
structure StaysInside (memory : M) : Prop where
  inside : ∀ fuel, execute system cheatLines fuel memory ≠ .error .undefined
  aligned : ∀ (line : CheatLine) (r executed skipped : CheatRun M) (ifFlag : UInt32),
    Executes cheatLines r line → line.type = .patch → 0 < ifFlag →
    executeLine system line r cheatLines = .ok executed →
    skipLine system line { r with state := { r.state with ifFlag := ifFlag } } cheatLines =
      .ok skipped →
    executed.state.currentLineNr = skipped.state.currentLineNr

end Runs

/-! ## The conditions -/

section Conditions

variable (cheatLines : CheatLines) (r : CheatRun M)

/-- A full terminator inside of a condition that does not hold finds no loop that goes on. -/
def NoSkippedNext : Prop :=
  ∀ line, cheatLines.lines[r.state.currentLineNr]? = some line → line.type = .fullTerminator →
    0 < r.state.ifFlag → r.state.loopFlag = false

/-- The data of a patch that is carried out is all there. -/
def PatchFits : Prop :=
  ∀ line, Executes cheatLines r line → line.type = .patch →
    r.state.currentLineNr + patchLines line < cheatLines.lines.length

/-- The line of a loop is not carried out any more when it has counted as far as it says. -/
def LoopCounts : Prop :=
  ∀ line, Executes cheatLines r line → line.type = .loop → r.state.loopCount < line.value

instance : Decidable (NoSkippedNext cheatLines r) :=
  inferInstanceAs (Decidable (∀ line ∈ cheatLines.lines[r.state.currentLineNr]?, _ → _ → _))

instance : Decidable (PatchFits cheatLines r) :=
  decidable_of_iff (∀ line ∈ cheatLines.lines[r.state.currentLineNr]?, r.state.ifFlag = 0 →
      line.type = .patch →
      r.state.currentLineNr + patchLines line < cheatLines.lines.length)
    ⟨fun h line hexec => h line hexec.2 hexec.1, fun h line hline hflag => h line ⟨hflag, hline⟩⟩

instance : Decidable (LoopCounts cheatLines r) :=
  decidable_of_iff (∀ line ∈ cheatLines.lines[r.state.currentLineNr]?, r.state.ifFlag = 0 →
      line.type = .loop → r.state.loopCount < line.value)
    ⟨fun h line hexec => h line hexec.2 hexec.1, fun h line hline hflag => h line ⟨hflag, hline⟩⟩

end Conditions

end Borked3DS.Interface
