import Mathlib.Data.List.Infix
import Borked3DS.Model.PathParser

/-!
# Where a host path leads

How the host reads a path: up to the first NUL, component by component from the directory it starts
in. A guest path is contained if it leads to the mount point or below it.
-/

set_option autoImplicit false

namespace Borked3DS.Interface

open Borked3DS.Model Borked3DS.Model.PathParser

/-- What the host takes of a string. -/
def cString (s : List UInt8) : List UInt8 := s.takeWhile (· ≠ 0)

/-- The components of a path. -/
def components : List UInt8 → List (List UInt8)
  | [] => [[]]
  | c :: rest =>
      if c = slash then [] :: components rest
      else
        match components rest with
        | [] => [[c]]
        | first :: others => (c :: first) :: others

/-- Going to a component from a directory, which is given by the names that lead to it from the
root. The parent of the root is the root. -/
def enter (directory : List (List UInt8)) (component : List UInt8) : List (List UInt8) :=
  if component = [] ∨ component = dot then directory
  else if component = dotDot then directory.dropLast
  else directory ++ [component]

/-- Where a path leads from the working directory. -/
def resolve (workingDirectory : List (List UInt8)) (path : List UInt8) : List (List UInt8) :=
  (components path).foldl enter (if path.head? = some slash then [] else workingDirectory)

/-- Some components, followed from a directory some levels below another one, never lead out of that
one. -/
def StaysBelow : ℕ → List (List UInt8) → Prop
  | _, [] => True
  | level, component :: rest =>
      if component = [] ∨ component = dot then StaysBelow level rest
      else if component = dotDot then
        match level with
        | 0 => False
        | level + 1 => StaysBelow level rest
      else StaysBelow (level + 1) rest

/-- A mount point: a path of the host. -/
def IsMountPoint (mountPoint : List UInt8) : Prop := mountPoint ≠ [] ∧ 0 ∉ mountPoint

/-- An accepted path leads to the mount point or below it. -/
def PathContained (utf16ToUtf8 : List UInt16 → List UInt8)
    (workingDirectory : List (List UInt8)) (mountPoint : List UInt8) (path : Path) : Prop :=
  (ofPath utf16ToUtf8 path).isValid = true →
    ∃ hostPath, (ofPath utf16ToUtf8 path).buildHostPath mountPoint = .ok hostPath ∧
      resolve workingDirectory mountPoint <+: resolve workingDirectory (cString hostPath)

/-- What the host takes of an accepted path does not lead out of the root of the archive, or the
mount point is the root of the host. -/
def NulSafe (utf16ToUtf8 : List UInt16 → List UInt8) (workingDirectory : List (List UInt8))
    (mountPoint : List UInt8) (path : Path) : Prop :=
  (ofPath utf16ToUtf8 path).isValid = true →
    resolve workingDirectory mountPoint = [] ∨
      StaysBelow 0 (components (cString (path.asString utf16ToUtf8)))

end Borked3DS.Interface
