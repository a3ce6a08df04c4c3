import Borked3DS.Model.GatewayCheat

/-!
# Cheats that survive their file

What a cheat file promises, and which cheats are written so that they are read back as they were.
-/

set_option autoImplicit false

namespace Borked3DS.Interface

open Borked3DS.Model.Cheats Borked3DS.Model.Cheats.GatewayCheat

/-- The cheats that an engine saves for a title are those that a new engine loads for it. -/
def RoundTripsCheats (cheats : List GatewayCheat) : Prop :=
  ∀ (titleId : UInt64) (files : CheatFiles),
    (({} : CheatEngine).loadCheatFile titleId
      (({ cheatsList := cheats } : CheatEngine).saveCheatFile titleId files)).cheatsList = cheats

/-- No newline, bracket, star or mark of an enabled cheat in the name and the comments. -/
def PlainCheat (cheat : GatewayCheat) : Prop :=
  ∀ text ∈ [cheat.name, cheat.comments], newline ∉ text ∧ openingBracket ∉ text ∧
    closingBracket ∉ text ∧ star ∉ text ∧ ¬ enabledText <:+: text

/-- A line that is read as it stands. -/
def KeptLine (line : List UInt8) : Prop := newline ∉ line ∧ cleanLine line = line

/-- A cheat has a name on one line without NULs; comments each of whose lines ends with a newline,
is read as it stands and is not the mark of an enabled cheat; and at least one line of code, all of
them read as they stand and none of them empty, a name or a comment. -/
structure SurvivesFile (cheat : GatewayCheat) : Prop where
  name : newline ∉ cheat.name ∧ 0 ∉ cheat.name
  comments : ∃ lines : List (List UInt8),
    cheat.comments = (lines.flatMap fun line => line ++ [newline]) ∧
      ∀ line ∈ lines, KeptLine (star :: line) ∧ star :: line ≠ enabledText
  code : cheat.cheatLines ≠ []
  cheatLines : ∀ line ∈ cheat.cheatLines, KeptLine line ∧ line ≠ [] ∧ isHeader line = false ∧
    isComment line = false

end Borked3DS.Interface
