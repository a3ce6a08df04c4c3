import Mathlib.Data.List.DropRight
import Mathlib.Logic.Function.Basic
import Borked3DS.Model.PathParser

/-!
# Cheat files

`gateway_cheat.cpp` and `cheats.cpp`: how the cheats of a title are written to its cheat file and
read back. A line of code is its text; what the constructor of `CheatLine` parses out of the text is
for running the cheat and is left out.
-/

set_option autoImplicit false

namespace Borked3DS.Model.Cheats

open Borked3DS.Model.PathParser (splitString)

def newline : UInt8 := 0x0A

def openingBracket : UInt8 := 0x5B

def closingBracket : UInt8 := 0x5D

def star : UInt8 := 0x2A

/-- The bytes of an ASCII string. -/
def ascii (s : String) : List UInt8 := s.toList.map fun c => UInt8.ofNat c.toNat

/-- SOURCE: gateway_cheat.cpp:455-456 -/
def enabledText : List UInt8 := ascii "*borked3ds_enabled"

/-- The characters that `StripSpaces` removes. -/
def isSpace (c : UInt8) : Bool := c == 0x20 || c == 0x09 || c == 0x0D || c == 0x0A

/-- `Common::StripSpaces`.
SOURCE: string_util.cpp:51-58 -/
def stripSpaces (str : List UInt8) : List UInt8 := (str.dropWhile isSpace).rdropWhile isSpace

/-- SOURCE: gateway_cheat.h:49-86 -/
structure GatewayCheat where
  name : List UInt8
  cheatLines : List (List UInt8)
  comments : List UInt8
  enabled : Bool := false
  deriving DecidableEq

namespace GatewayCheat

/-- SOURCE: gateway_cheat.cpp:448-453 -/
def getCode (cheat : GatewayCheat) : List UInt8 :=
  cheat.cheatLines.flatMap fun line => line ++ [newline]

/-- SOURCE: gateway_cheat.cpp:458-471 -/
def toString (cheat : GatewayCheat) : List UInt8 :=
  (openingBracket :: cheat.name ++ [closingBracket, newline]) ++
    (if cheat.enabled then enabledText ++ [newline] else []) ++
    ((splitString cheat.comments newline).flatMap fun line => star :: line ++ [newline]) ++
    (cheat.getCode ++ [newline])

/-- The variables of the loop of `LoadFile`. -/
structure LoadState where
  cheats : List GatewayCheat := []
  comments : List UInt8 := []
  cheatLines : List (List UInt8) := []
  name : List UInt8 := []
  enabled : Bool := false

/-- The cheats with the one that is being read, if it has a line of code. -/
def LoadState.flushed (s : LoadState) : List GatewayCheat :=
  if s.cheatLines.isEmpty then s.cheats
  else s.cheats ++ [{
    name := s.name, cheatLines := s.cheatLines, comments := s.comments, enabled := s.enabled }]

/-- A line without its NULs and without the spaces at its ends. -/
def cleanLine (line : List UInt8) : List UInt8 := stripSpaces (line.filter fun c => c != 0)

/-- Whether a line is the name of a cheat. -/
def isHeader (line : List UInt8) : Bool :=
  decide (2 ≤ line.length) && line.head? == some openingBracket

/-- Whether a line is a comment or the mark of an enabled cheat. -/
def isComment (line : List UInt8) : Bool := line.head? == some star

/-- One turn of the loop of `LoadFile`. -/
def loadLine (s : LoadState) (line : List UInt8) : LoadState :=
  let line := cleanLine line
  if isHeader line then
    { cheats := s.flushed
      enabled := if s.cheatLines.isEmpty then s.enabled else false
      name := (line.drop 1).take (line.length - 2) }
  else if isComment line then
    if line = enabledText then { s with enabled := true }
    else { s with comments := s.comments ++ (line.drop 1 ++ [newline]) }
  else if !line.isEmpty then { s with cheatLines := s.cheatLines ++ [line] }
  else s

/-- SOURCE: gateway_cheat.cpp:473-518 -/
def loadFile (file : List UInt8) : List GatewayCheat :=
  ((file.splitOn newline).foldl loadLine {}).flushed

end GatewayCheat

/-- The cheat files, by title. -/
abbrev CheatFiles := UInt64 → Option (List UInt8)

/-- SOURCE: cheats.h:22-80 -/
structure CheatEngine where
  cheatsList : List GatewayCheat := []
  loadedTitleId : Option UInt64 := none

namespace CheatEngine

/-- SOURCE: cheats.cpp:64-77 -/
def saveCheatFile (engine : CheatEngine) (titleId : UInt64) (files : CheatFiles) : CheatFiles :=
  Function.update files titleId (some (engine.cheatsList.flatMap GatewayCheat.toString))

/-- SOURCE: cheats.cpp:79-104 -/
def loadCheatFile (engine : CheatEngine) (titleId : UInt64) (files : CheatFiles) : CheatEngine :=
  if engine.loadedTitleId = some titleId then engine
  else
    match files titleId with
    | none => engine
    | some file =>
        { cheatsList := GatewayCheat.loadFile file, loadedTitleId := some titleId }

end CheatEngine

end Borked3DS.Model.Cheats
