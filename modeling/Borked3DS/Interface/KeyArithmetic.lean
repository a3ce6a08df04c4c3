import Borked3DS.Model.Arithmetic128

/-!
# Exact arithmetic on keys

A key is a number of 128 bits, and the operations on keys are those on such numbers.
-/

set_option autoImplicit false

namespace Borked3DS.Interface

open Borked3DS.Model.AES

/-- The operations give what they give on numbers of 128 bits. -/
structure ArithmeticExact (a b : AESKey) (c : UInt64) (r : UInt32) : Prop where
  rotated : (lrot128 a r).value = ((BitVec.ofNat 128 a.value).rotateLeft r.toNat).toNat
  added : (add128 a b).value = (a.value + b.value) % 2 ^ 128
  addedLow : (add128Low a c).value = (a.value + c.toNat) % 2 ^ 128
  agree : add128Low a c = add128 a (.ofNat c.toNat)
  xorLeft : xor128 a (xor128 a b) = b
  xorRight : xor128 (xor128 a b) b = a

end Borked3DS.Interface
