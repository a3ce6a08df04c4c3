import Borked3DS.Library.ByteOrder

/-!
# Arithmetic on AES keys

`arithmetic128.cpp`: keys are arrays of sixteen bytes, the most significant one first, that are
rotated, added and combined bit by bit.
-/

set_option autoImplicit false

namespace Borked3DS.Model.AES

open Borked3DS.Library

/-- `AESKey`. -/
structure AESKey where
  bytes : List UInt8
  length_bytes : bytes.length = 16
  deriving DecidableEq

namespace AESKey

/-- The big-endian number of a key. -/
def value (key : AESKey) : ℕ := ofBigEndian key.bytes

/-- The key of a big-endian number. -/
def ofNat (n : ℕ) : AESKey := ⟨toBigEndian 16 n, length_toBigEndian 16 n⟩

/-- Indexing a key. -/
def byte (key : AESKey) (i : ℕ) : UInt8 := key.bytes.getD i 0

end AESKey

/-- A byte of a rotated key. The bytes are promoted to integers that have room for the shift.
SOURCE: arithmetic128.cpp:18-22 -/
def rotatedByte (input : AESKey) (byteShift bitShift i : ℕ) : UInt8 :=
  let wrapIndexA := (i + byteShift) % 16
  let wrapIndexB := (i + byteShift + 1) % 16
  UInt8.ofNat ((((input.byte wrapIndexA).toNat <<< bitShift) |||
    ((input.byte wrapIndexB).toNat >>> (8 - bitShift))) &&& 0xFF)

/-- `Lrot128`.
SOURCE: arithmetic128.cpp:12-24 -/
def lrot128 (input : AESKey) (rot : UInt32) : AESKey :=
  let rot := rot.toNat % 128
  ⟨(List.range 16).map (rotatedByte input (rot / 8) (rot % 8)), by simp⟩

/-- A step of the loops of `Add128`: the sum of two bytes goes in front of the bytes that follow
them, and its carry to the bytes before. -/
def addStep (pair : UInt8 × UInt8) (state : List UInt8 × UInt32) : List UInt8 × UInt32 :=
  let sum := pair.1.toUInt32 + pair.2.toUInt32 + state.2
  ((sum &&& 0xff).toUInt8 :: state.1, sum >>> 8)

/-- The loops of `Add128`, from the last pair of bytes on down to the first. -/
def addBytes (pairs : List (UInt8 × UInt8)) : List UInt8 × UInt32 := pairs.foldr addStep ([], 0)

theorem length_addBytes (pairs : List (UInt8 × UInt8)) :
    (addBytes pairs).1.length = pairs.length := by
  induction pairs with
  | nil => rfl
  | cons pair pairs ih =>
      change (addBytes pairs).1.length + 1 = pairs.length + 1
      rw [ih]

/-- `Add128` of two keys.
SOURCE: arithmetic128.cpp:26-38 -/
def add128 (a b : AESKey) : AESKey :=
  ⟨(addBytes (a.bytes.zip b.bytes)).1, by
    rw [length_addBytes, List.length_zip, a.length_bytes, b.length_bytes, Nat.min_self]⟩

/-- The bytes that a number adds, for the indices 8 to 15. -/
def counterBytes (b : UInt64) : List UInt8 :=
  (List.range 8).map fun k => ((b >>> UInt64.ofNat ((15 - (k + 8)) * 8)) &&& 0xff).toUInt8

/-- `Add128` of a key and a number: the loop stops at index 8, and its last carry is lost.
SOURCE: arithmetic128.cpp:40-52 -/
def add128Low (a : AESKey) (b : UInt64) : AESKey :=
  ⟨a.bytes.take 8 ++ (addBytes ((a.bytes.drop 8).zip (counterBytes b))).1, by
    rw [List.length_append, length_addBytes, List.length_zip, List.length_take, List.length_drop,
      a.length_bytes]
    rfl⟩

/-- `Xor128`.
SOURCE: arithmetic128.cpp:54-58 -/
def xor128 (a b : AESKey) : AESKey :=
  ⟨List.zipWith (· ^^^ ·) a.bytes b.bytes, by
    rw [List.length_zipWith, a.length_bytes, b.length_bytes, Nat.min_self]⟩

/-- `generator_constant`.
SOURCE: key.cpp:30-31 -/
def generatorConstant : AESKey :=
  ⟨[0x1F, 0xF9, 0xE9, 0xAA, 0xC5, 0xFE, 0x04, 0x08, 0x02, 0x45, 0x91, 0xDC, 0x5D, 0x52, 0x76, 0x8A],
    rfl⟩

/-- What `GenerateNormalKey` makes of two keys.
SOURCE: key.cpp:110 -/
def normalKey (x y : AESKey) : AESKey :=
  lrot128 (add128 (xor128 (lrot128 x 2) y) generatorConstant) 87

/-- `KeySlot`.
SOURCE: key.cpp:89-121 -/
structure KeySlot where
  x : Option AESKey := none
  y : Option AESKey := none
  normal : Option AESKey := none

namespace KeySlot

variable (slot : KeySlot)

/-- `GenerateNormalKey`. -/
def generateNormalKey : KeySlot :=
  match slot.x, slot.y with
  | some x, some y => { slot with normal := some (normalKey x y) }
  | _, _ => { slot with normal := none }

/-- `SetKeyX`. -/
def setKeyX (key : Option AESKey) : KeySlot := generateNormalKey { slot with x := key }

/-- `SetKeyY`. -/
def setKeyY (key : Option AESKey) : KeySlot := generateNormalKey { slot with y := key }

end KeySlot

end Borked3DS.Model.AES
