import Mathlib.Data.Int.Notation
import Borked3DS.Library.ByteOrder
import Borked3DS.Model.Words

/-!
# Guest paths

`FileSys::Path` of `archive_backend.cpp` and the `PathParser` that turns one into a path of the
host. Strings are runs of bytes, which may hold any byte, NUL too; the conversion from UTF-16 is a
parameter.
-/

set_option autoImplicit false

namespace Borked3DS.Model.PathParser

open Borked3DS.Library

/-- SOURCE: archive_backend.h -/
inductive LowPathType
  | invalid | empty | binary | char | wchar
  deriving DecidableEq, Repr

/-- SOURCE: archive_backend.h:36-92 -/
structure Path where
  type : LowPathType
  binary : List UInt8 := []
  string : List UInt8 := []
  u16str : List UInt16 := []

namespace Path

/-- `AsString`.
SOURCE: archive_backend.cpp:63-77 -/
def asString (utf16ToUtf8 : List UInt16 → List UInt8) (path : Path) : List UInt8 :=
  match path.type with
  | .char => path.string
  | .wchar => utf16ToUtf8 path.u16str
  | _ => []

end Path

/-- `'/'`. -/
def slash : UInt8 := 0x2F

/-- `"."`. -/
def dot : List UInt8 := [0x2E]

/-- `".."`. -/
def dotDot : List UInt8 := [0x2E, 0x2E]

/-- `'<'`, `'>'`, `'\\'`, `'|'`, `':'`, `'"'`, `'*'` and `'?'`. -/
def invalidChars : List UInt8 := [0x3C, 0x3E, 0x5C, 0x7C, 0x3A, 0x22, 0x2A, 0x3F]

/-- The loop of `SplitString`, with what `std::getline` has read of a piece. At the end of the string
it fails if it has read nothing. -/
def splitLoop (delim : UInt8) : List UInt8 → List UInt8 → List (List UInt8)
  | piece, [] => if piece = [] then [] else [piece]
  | piece, c :: rest =>
      if c = delim then piece :: splitLoop delim [] rest
      else splitLoop delim (piece ++ [c]) rest

/-- `Common::SplitString`.
SOURCE: string_util.cpp:118-128 -/
def splitString (str : List UInt8) (delim : UInt8) : List (List UInt8) := splitLoop delim [] str

section Split

variable {delim : UInt8} {line : List UInt8}

/-- A piece in front of a separator. -/
theorem splitLoop_piece (h : delim ∉ line) (piece rest : List UInt8) :
    splitLoop delim piece (line ++ delim :: rest) =
      (piece ++ line) :: splitLoop delim [] rest := by
  induction line generalizing piece with
  | nil => rw [List.nil_append, splitLoop, if_pos rfl, List.append_nil]
  | cons c line ih =>
      have hc : c ≠ delim := fun heq => h (heq ▸ List.mem_cons_self)
      rw [List.cons_append, splitLoop, if_neg hc, ih fun hmem => h (List.mem_cons_of_mem _ hmem),
        List.append_assoc, List.singleton_append]

/-- The last piece, which is lost when it is empty. -/
theorem splitLoop_last (h : delim ∉ line) (piece : List UInt8) :
    splitLoop delim piece line = if piece ++ line = [] then [] else [piece ++ line] := by
  induction line generalizing piece with
  | nil => rw [splitLoop, List.append_nil]
  | cons c line ih =>
      have hc : c ≠ delim := fun heq => h (heq ▸ List.mem_cons_self)
      rw [splitLoop, if_neg hc, ih fun hmem => h (List.mem_cons_of_mem _ hmem),
        List.append_assoc, List.singleton_append]

end Split

/-- The loop that checks whether a path is out of bounds: the level behind it. -/
def checkLevel : ℤ → List (List UInt8) → Option ℤ
  | level, [] => some level
  | level, node :: rest =>
      if node = dotDot then
        let level := level - 1
        if level < 0 then none else checkLevel level rest
      else checkLevel (level + 1) rest

end PathParser

/-- SOURCE: path_parser.h:18-63 -/
structure PathParser where
  pathSequence : List (List UInt8) := []
  isValid : Bool := false
  isRoot : Bool := false

namespace PathParser

/-- The constructor.
SOURCE: path_parser.cpp:14-57 -/
def ofPath (utf16ToUtf8 : List UInt16 → List UInt8) (path : Path) : PathParser :=
  if path.type ≠ .char ∧ path.type ≠ .wchar then {}
  else
    let pathString := path.asString utf16ToUtf8
    if pathString.length = 0 ∨ pathString.head? ≠ some slash then {}
    else if pathString.any fun c => c ∈ invalidChars then {}
    else
      let pathSequence := (splitString pathString slash).filter fun str => ¬ (str = [] ∨ str = dot)
      match checkLevel 0 pathSequence with
      | none => { pathSequence := pathSequence }
      | some level =>
          { pathSequence := pathSequence, isValid := true, isRoot := decide (level = 0) }

/-- The loop of `BuildHostPath`. `back` of an empty string is undefined. -/
def joinNodes : List UInt8 → List (List UInt8) → Exec (List UInt8)
  | path, [] => .ok path
  | path, node :: rest =>
      match path.getLast? with
      | none => .error .undefined
      | some c => joinNodes ((if c ≠ slash then path ++ [slash] else path) ++ node) rest

/-- `BuildHostPath`.
SOURCE: path_parser.cpp:89-97 -/
def buildHostPath (parser : PathParser) (mountPoint : List UInt8) : Exec (List UInt8) :=
  joinNodes mountPoint parser.pathSequence

end PathParser

end Borked3DS.Model
