import Borked3DS.Model.PathParser

/-!
# Parameter packages

`ParamPackage` of `param_package.cpp`: a map from strings to strings that is written as one string
and read back from it. Its `std::map` is the list of its entries in the order of their keys.
-/

set_option autoImplicit false

namespace Borked3DS.Model

open Borked3DS.Model.PathParser (splitString)

/-- The loop of `ReplaceAll`: the characters of an occurrence are passed over that is replaced. -/
def replaceLoop (src dest : List UInt8) : ℕ → List UInt8 → List UInt8
  | _, [] => []
  | covered + 1, _ :: rest => replaceLoop src dest covered rest
  | 0, c :: rest =>
      if src.isPrefixOf (c :: rest) then dest ++ replaceLoop src dest (src.length - 1) rest
      else c :: replaceLoop src dest 0 rest

/-- `Common::ReplaceAll`, of a string that is not empty.
SOURCE: string_util.cpp:147-159 -/
def replaceAll (result src dest : List UInt8) : List UInt8 :=
  if src = dest then result else replaceLoop src dest 0 result

/-- The entries with their keys in increasing order. -/
structure ParamPackage where
  data : List (List UInt8 × List UInt8)
  sorted : data.Pairwise fun a b => a.1 < b.1

namespace ParamPackage

/-- `':'`. -/
def keyValueSeparator : UInt8 := 0x3A

/-- `','`. -/
def paramSeparator : UInt8 := 0x2C

/-- `'$'`. -/
def escapeCharacter : UInt8 := 0x24

/-- `"$0"`. -/
def keyValueSeparatorEscape : List UInt8 := [0x24, 0x30]

/-- `"$1"`. -/
def paramSeparatorEscape : List UInt8 := [0x24, 0x31]

/-- `"$2"`. -/
def escapeCharacterEscape : List UInt8 := [0x24, 0x32]

/-- `"[empty]"`. -/
def emptyPlaceholder : List UInt8 := [0x5B, 0x65, 0x6D, 0x70, 0x74, 0x79, 0x5D]

/-- A key or a value as it is written.
SOURCE: param_package.cpp:61-65 -/
def escape (part : List UInt8) : List UInt8 :=
  let part := replaceAll part [escapeCharacter] escapeCharacterEscape
  let part := replaceAll part [paramSeparator] paramSeparatorEscape
  replaceAll part [keyValueSeparator] keyValueSeparatorEscape

/-- A key or a value as it is read.
SOURCE: param_package.cpp:41-45 -/
def unescape (part : List UInt8) : List UInt8 :=
  let part := replaceAll part keyValueSeparatorEscape [keyValueSeparator]
  let part := replaceAll part paramSeparatorEscape [paramSeparator]
  replaceAll part escapeCharacterEscape [escapeCharacter]

/-- `insert_or_assign` of `std::map`. -/
def insertOrAssign (key value : List UInt8) :
    List (List UInt8 × List UInt8) → List (List UInt8 × List UInt8)
  | [] => [(key, value)]
  | entry :: rest =>
      if key < entry.1 then (key, value) :: entry :: rest
      else if key = entry.1 then (key, value) :: rest
      else entry :: insertOrAssign key value rest

variable {key value : List UInt8} {data : List (List UInt8 × List UInt8)}

theorem mem_insertOrAssign {entry : List UInt8 × List UInt8}
    (h : entry ∈ insertOrAssign key value data) : entry = (key, value) ∨ entry ∈ data := by
  induction data with
  | nil => simpa [insertOrAssign] using h
  | cons first rest ih =>
    unfold insertOrAssign at h
    split at h
    · simpa using h
    · split at h
      · rcases List.mem_cons.mp h with h | h
        · exact .inl h
        · exact .inr (List.mem_cons_of_mem _ h)
      · rcases List.mem_cons.mp h with rfl | h
        · exact .inr List.mem_cons_self
        · exact (ih h).imp_right (List.mem_cons_of_mem _)

/-- The keys stay in order. -/
theorem sorted_insertOrAssign (h : data.Pairwise fun a b => a.1 < b.1) :
    (insertOrAssign key value data).Pairwise fun a b => a.1 < b.1 := by
  induction data with
  | nil => exact List.pairwise_singleton _ _
  | cons first rest ih =>
    obtain ⟨hfirst, hrest⟩ := List.pairwise_cons.mp h
    unfold insertOrAssign
    split
    next hlt =>
      refine List.pairwise_cons.mpr ⟨fun entry hmem => ?_, h⟩
      rcases List.mem_cons.mp hmem with rfl | hmem
      · exact hlt
      · exact List.lt_trans hlt (hfirst entry hmem)
    next hle =>
      split
      next heq => exact List.pairwise_cons.mpr ⟨fun entry hmem => heq ▸ hfirst entry hmem, hrest⟩
      next hne =>
        refine List.pairwise_cons.mpr ⟨fun entry hmem => ?_, ih hrest⟩
        rcases mem_insertOrAssign hmem with rfl | hmem
        · exact Std.lt_of_le_of_ne (List.not_lt.mp hle) (Ne.symm hne)
        · exact hfirst entry hmem

/-- SOURCE: param_package.cpp:115-117 -/
def set (p : ParamPackage) (key value : List UInt8) : ParamPackage :=
  ⟨insertOrAssign key value p.data, sorted_insertOrAssign p.sorted⟩

def empty : ParamPackage := ⟨[], List.Pairwise.nil⟩

/-- A pair of the serialized string. Anything but a key and a value is passed over. -/
def readPair (p : ParamPackage) (pair : List UInt8) : ParamPackage :=
  match splitString pair keyValueSeparator with
  | [key, value] => p.set (unescape key) (unescape value)
  | _ => p

/-- The constructor from a string.
SOURCE: param_package.cpp:28-49 -/
def parse (serialized : List UInt8) : ParamPackage :=
  if serialized = emptyPlaceholder then empty
  else (splitString serialized paramSeparator).foldl readPair empty

/-- A pair as it is written, with the separator behind it. -/
def writePair (pair : List UInt8 × List UInt8) : List UInt8 :=
  escape pair.1 ++ [keyValueSeparator] ++ escape pair.2 ++ [paramSeparator]

/-- `Serialize`.
SOURCE: param_package.cpp:53-71 -/
def serialize (p : ParamPackage) : List UInt8 :=
  if p.data = [] then emptyPlaceholder else (p.data.flatMap writePair).dropLast

end ParamPackage

end Borked3DS.Model
