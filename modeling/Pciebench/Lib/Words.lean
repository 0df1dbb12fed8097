import Mathlib

/-!
Fixed-width words as natural numbers: low masks, alignment, tags spliced into
the top bits of a word, and the split of a 64-bit word into two 32-bit halves.
-/

namespace Words

theorem and_not_lowMask (value width bits : Nat) (bounded : value < 2 ^ width)
    (wide : bits ≤ width) :
    value &&& (2 ^ width - 1 - (2 ^ bits - 1)) = value / 2 ^ bits * 2 ^ bits := by
  have bitsPos : 0 < 2 ^ bits := Nat.two_pow_pos bits
  have small : 2 ^ bits ≤ 2 ^ width := Nat.pow_le_pow_right (by decide) wide
  have complement : 2 ^ width - 1 - (2 ^ bits - 1) = 2 ^ width - (2 ^ bits - 1 + 1) := by omega
  apply Nat.eq_of_testBit_eq
  intro index
  rw [complement, Nat.testBit_and, Nat.testBit_two_pow_sub_succ (by omega),
    Nat.testBit_two_pow_sub_one, Nat.testBit_mul_two_pow, Nat.testBit_div_two_pow]
  by_cases low : index < bits
  · simp [low]
  · have shifted : index - bits + bits = index := by omega
    have high : bits ≤ index := by omega
    by_cases inWidth : index < width
    · simp [low, high, inWidth, shifted]
    · have clear : value.testBit index = false :=
        Nat.testBit_lt_two_pow (Nat.lt_of_lt_of_le bounded
          (Nat.pow_le_pow_right (by decide) (by omega)))
      simp [high, clear, shifted]

theorem or_shifted (low high bits : Nat) (bounded : low < 2 ^ bits) :
    low ||| high * 2 ^ bits = low + high * 2 ^ bits := by
  rw [Nat.or_comm, Nat.mul_comm, ← Nat.two_pow_add_eq_or_of_lt bounded]
  omega

theorem toNat_and_mask32 (value mask : UInt32) (bits : Nat) (isMask : mask.toNat = 2 ^ bits - 1) :
    (value &&& mask).toNat = value.toNat % 2 ^ bits := by
  rw [UInt32.toNat_and, isMask, Nat.and_two_pow_sub_one_eq_mod]

theorem toNat_and_mask64 (value mask : UInt64) (bits : Nat) (isMask : mask.toNat = 2 ^ bits - 1) :
    (value &&& mask).toNat = value.toNat % 2 ^ bits := by
  rw [UInt64.toNat_and, isMask, Nat.and_two_pow_sub_one_eq_mod]

theorem toNat_and_not_mask32 (value mask : UInt32) (bits : Nat) (narrow : bits ≤ 32)
    (isMask : mask.toNat = 2 ^ bits - 1) :
    (value &&& ~~~mask).toNat = value.toNat / 2 ^ bits * 2 ^ bits := by
  rw [UInt32.toNat_and, UInt32.toNat_not, isMask]
  exact and_not_lowMask value.toNat 32 bits value.toNat_lt narrow

theorem toNat_shiftRight32 (value shift : UInt32) (small : shift.toNat < 32) :
    (value >>> shift).toNat = value.toNat / 2 ^ shift.toNat := by
  rw [UInt32.toNat_shiftRight, Nat.mod_eq_of_lt small, Nat.shiftRight_eq_div_pow]

theorem toNat_shiftRight64 (value shift : UInt64) (small : shift.toNat < 64) :
    (value >>> shift).toNat = value.toNat / 2 ^ shift.toNat := by
  rw [UInt64.toNat_shiftRight, Nat.mod_eq_of_lt small, Nat.shiftRight_eq_div_pow]

theorem toNat_shiftLeft64 (value shift : UInt64) (small : shift.toNat < 64) :
    (value <<< shift).toNat = value.toNat * 2 ^ shift.toNat % 2 ^ 64 := by
  rw [UInt64.toNat_shiftLeft, Nat.mod_eq_of_lt small, Nat.shiftLeft_eq]

theorem toNat_shiftLeft32 (value shift : UInt32) (small : shift.toNat < 32) :
    (value <<< shift).toNat = value.toNat * 2 ^ shift.toNat % 2 ^ 32 := by
  rw [UInt32.toNat_shiftLeft, Nat.mod_eq_of_lt small, Nat.shiftLeft_eq]

/-- A field of `width` bits that stays inside the word when it is moved up by `bits`. -/
theorem toNat_shiftLeft32_field {field shift : UInt32} {width : Nat} (bits : Nat)
    (small : field.toNat < 2 ^ width) (isShift : shift.toNat = bits) (room : width + bits < 32) :
    (field <<< shift).toNat = field.toNat * 2 ^ bits := by
  have inWord : field.toNat * 2 ^ bits < 2 ^ 32 := by
    calc field.toNat * 2 ^ bits < 2 ^ width * 2 ^ bits :=
          Nat.mul_lt_mul_of_pos_right small (Nat.two_pow_pos bits)
      _ = 2 ^ (width + bits) := (Nat.pow_add 2 width bits).symm
      _ ≤ 2 ^ 32 := Nat.pow_le_pow_right (by decide) (by omega)
  rw [toNat_shiftLeft32 _ _ (by omega), isShift, Nat.mod_eq_of_lt inWord]

section Splice

/-! A tag in the bits from `shift` up, over a payload below them. -/

variable (payload tag shift : UInt64)

theorem toNat_splice (small : shift.toNat < 64) (payloadBound : payload.toNat < 2 ^ shift.toNat)
    (tagBound : tag.toNat * 2 ^ shift.toNat < 2 ^ 64) :
    (payload ||| tag <<< shift).toNat = payload.toNat + tag.toNat * 2 ^ shift.toNat := by
  rw [UInt64.toNat_or, toNat_shiftLeft64 tag shift small, Nat.mod_eq_of_lt tagBound]
  exact or_shifted payload.toNat tag.toNat shift.toNat payloadBound

theorem toNat_splice_mod (small : shift.toNat < 64) (bits : Nat) (below : bits ≤ shift.toNat) :
    (payload ||| tag <<< shift).toNat % 2 ^ bits = payload.toNat % 2 ^ bits := by
  rw [UInt64.toNat_or, toNat_shiftLeft64 tag shift small]
  apply Nat.eq_of_testBit_eq
  intro index
  have tagBits : index < bits → (tag.toNat * 2 ^ shift.toNat % 2 ^ 64).testBit index = false := by
    intro low
    rw [Nat.testBit_mod_two_pow, Nat.testBit_mul_two_pow]
    simp [show ¬ shift.toNat ≤ index by omega]
  rw [Nat.testBit_mod_two_pow, Nat.testBit_mod_two_pow, Nat.testBit_or]
  by_cases low : index < bits
  · rw [tagBits low, Bool.or_false]
  · simp [low]

end Splice

/-- The 64-bit word whose upper half is `high` and whose lower half is `low`. -/
def join (high low : UInt32) : UInt64 :=
  (high.toUInt64 <<< 32) ||| low.toUInt64

@[simp] theorem toNat_join (high low : UInt32) :
    (join high low).toNat = high.toNat * 2 ^ 32 + low.toNat := by
  have highBound := high.toNat_lt
  have lowBound := low.toNat_lt
  have shift : (32 : UInt64).toNat = 32 := rfl
  rw [join, UInt64.toNat_or, toNat_shiftLeft64 _ _ (by decide), shift, UInt32.toNat_toUInt64,
    UInt32.toNat_toUInt64, Nat.mod_eq_of_lt (by omega), Nat.or_comm,
    or_shifted _ _ 32 lowBound]
  omega

theorem join_split (word : UInt64) :
    join (word >>> 32).toUInt32 (word &&& 0xffffffff).toUInt32 = word := by
  have bound := word.toNat_lt
  have shift : (32 : UInt64).toNat = 32 := rfl
  apply UInt64.toNat_inj.mp
  rw [toNat_join, UInt64.toNat_toUInt32, UInt64.toNat_toUInt32,
    toNat_shiftRight64 _ _ (by decide), toNat_and_mask64 _ _ 32 rfl, shift]
  omega

end Words
