import Mathlib

/-!
Signed words that hold natural numbers, and what arithmetic and conversions between widths and
signs make of them.
-/

namespace SignedWords

variable {value other : Nat}

theorem bmod_natCast (bits : Nat) (small : 2 * value < 2 ^ bits) :
    (value : Int).bmod (2 ^ bits) = value := by
  refine Int.bmod_eq_of_le_mul_two ?_ ?_ <;> omega

theorem toInt_add64 {left right : Int64} (isLeft : left.toInt = value)
    (isRight : right.toInt = other) (small : value + other < 2 ^ 63) :
    (left + right).toInt = (value + other : Nat) := by
  rw [Int64.toInt_add, isLeft, isRight, ← Nat.cast_add, bmod_natCast 64 (by omega)]

theorem toInt_add32 {left right : Int32} (isLeft : left.toInt = value)
    (isRight : right.toInt = other) (small : value + other < 2 ^ 31) :
    (left + right).toInt = (value + other : Nat) := by
  rw [Int32.toInt_add, isLeft, isRight, ← Nat.cast_add, bmod_natCast 32 (by omega)]

theorem toInt_sub64 {left right : Int64} (isLeft : left.toInt = value)
    (isRight : right.toInt = other) (ordered : other ≤ value) :
    (left - right).toInt = (value - other : Nat) := by
  have bound := left.toInt_lt
  rw [Int64.toInt_sub, isLeft, isRight, ← Nat.cast_sub ordered, bmod_natCast 64 (by omega)]

theorem toInt_sub32 {left right : Int32} (isLeft : left.toInt = value)
    (isRight : right.toInt = other) (ordered : other ≤ value) :
    (left - right).toInt = (value - other : Nat) := by
  have bound := left.toInt_lt
  rw [Int32.toInt_sub, isLeft, isRight, ← Nat.cast_sub ordered, bmod_natCast 32 (by omega)]

theorem toInt_div64 {left right : Int64} (isLeft : left.toInt = value)
    (isRight : right.toInt = other) : (left / right).toInt = (value / other : Nat) := by
  have bound := left.toInt_lt
  have less := Nat.div_le_self value other
  rw [Int64.toInt_div, isLeft, isRight, ← Int.ofNat_tdiv, bmod_natCast 64 (by omega)]

theorem toInt_mod64 {left right : Int64} (isLeft : left.toInt = value)
    (isRight : right.toInt = other) : (left % right).toInt = (value % other : Nat) := by
  rw [Int64.toInt_mod, isLeft, isRight, ← Int.ofNat_tmod]

theorem toInt_toInt32 {word : Int64} (isWord : word.toInt = value) (small : value < 2 ^ 31) :
    word.toInt32.toInt = value := by
  rw [Int64.toInt_toInt32, isWord, bmod_natCast 32 (by omega)]

theorem toNat_toUInt64 {word : Int64} (isWord : word.toInt = value) :
    word.toUInt64.toNat = value := by
  have nonneg : 0 ≤ word := Int64.le_iff_toInt_le.mpr (isWord ▸ Int.natCast_nonneg value)
  rw [Int64.toNat_toUInt64_of_le nonneg, Int64.toNatClampNeg, isWord, Int.toNat_natCast]

theorem toInt_toInt64 {word : UInt64} (isWord : word.toNat = value) (small : value < 2 ^ 63) :
    word.toInt64.toInt = value := by
  change word.toBitVec.toInt = value
  rw [BitVec.toInt_eq_toNat_bmod, UInt64.toNat_toBitVec, isWord, bmod_natCast 64 (by omega)]

end SignedWords
