import Mathlib
import Pciebench.Lib.Words

/-!
The bytes of a word: what shifts by whole bytes and bitwise operations do to them, and the order
in which they lie in memory.
-/

namespace WordBytes

/-- The byte with `lane` bytes below it. -/
def laneOf (whole lane : Nat) : Nat :=
  whole / 2 ^ (8 * lane) % 2 ^ 8

section Lanes

variable (whole other : Nat) {lane width bytes : Nat}

theorem laneOf_lt : laneOf whole lane < 2 ^ 8 :=
  Nat.mod_lt _ (by decide)

variable {whole} in
theorem laneOf_beyond (small : whole < 2 ^ (8 * lane)) : laneOf whole lane = 0 := by
  rw [laneOf, Nat.div_eq_of_lt small, Nat.zero_mod]

theorem laneOf_right : laneOf (whole / 2 ^ (8 * bytes)) lane = laneOf whole (lane + bytes) := by
  rw [laneOf, laneOf, Nat.div_div_eq_div_mul, ← Nat.pow_add, Nat.mul_add, Nat.add_comm]

theorem laneOf_left : laneOf (whole * 2 ^ (8 * bytes)) lane =
    if lane < bytes then 0 else laneOf whole (lane - bytes) := by
  split
  · rename_i below
    have split : 8 * bytes = 8 * lane + (8 + 8 * (bytes - lane - 1)) := by omega
    rw [laneOf, split, Nat.pow_add, Nat.pow_add, Nat.mul_left_comm,
      Nat.mul_div_cancel_left _ (Nat.two_pow_pos _), Nat.mul_left_comm, Nat.mul_mod_right]
  · rename_i above
    have split : 8 * lane = 8 * bytes + 8 * (lane - bytes) := by omega
    rw [laneOf, laneOf, split, Nat.pow_add, Nat.mul_comm, ← Nat.div_div_eq_div_mul,
      Nat.mul_div_cancel_left _ (Nat.two_pow_pos _)]

theorem laneOf_mod (inside : lane < width) :
    laneOf (whole % 2 ^ (8 * width)) lane = laneOf whole lane := by
  have split : 8 * width = 8 * lane + (8 + 8 * (width - lane - 1)) := by omega
  rw [laneOf, laneOf, split, Nat.pow_add, Nat.mod_mul_right_div_self, Nat.pow_add,
    Nat.mod_mul_right_mod]

variable {other} in
theorem laneOf_append (small : other < 2 ^ (8 * width)) :
    laneOf (whole * 2 ^ (8 * width) + other) lane =
      if lane < width then laneOf other lane else laneOf whole (lane - width) := by
  split
  · rename_i inside
    rw [← laneOf_mod _ inside, Nat.add_comm, Nat.add_mul_mod_self_right, Nat.mod_eq_of_lt small]
  · rename_i above
    have split : 8 * lane = 8 * width + 8 * (lane - width) := by omega
    rw [laneOf, laneOf, split, Nat.pow_add, ← Nat.div_div_eq_div_mul, Nat.add_comm,
      Nat.add_mul_div_right _ _ (Nat.two_pow_pos _), Nat.div_eq_of_lt small, Nat.zero_add]

theorem laneOf_or : laneOf (whole ||| other) lane = laneOf whole lane ||| laneOf other lane := by
  rw [laneOf, Nat.or_div_two_pow, Nat.or_mod_two_pow]
  rfl

theorem laneOf_and : laneOf (whole &&& other) lane = laneOf whole lane &&& laneOf other lane := by
  rw [laneOf, Nat.and_div_two_pow, Nat.and_mod_two_pow]
  rfl

end Lanes

section Word32

/-! Shifts of 32-bit words by `bytes` whole bytes, and the masks made by shifting ones. -/

variable (word : UInt32) {shift : UInt32} {bytes lane : Nat}

theorem laneOf_word (beyond : 4 ≤ lane) : laneOf word.toNat lane = 0 :=
  laneOf_beyond (Nat.lt_of_lt_of_le word.toNat_lt
    (Nat.pow_le_pow_right (by decide) (by omega : 32 ≤ 8 * lane)))

variable (isShift : shift.toNat = 8 * bytes) (short : bytes < 4)

include isShift short

theorem laneOf_shiftRight :
    laneOf (word >>> shift).toNat lane = laneOf word.toNat (lane + bytes) := by
  rw [Words.toNat_shiftRight32 _ _ (by omega), isShift, laneOf_right]

theorem laneOf_shiftLeft (inside : lane < 4) : laneOf (word <<< shift).toNat lane =
    if lane < bytes then 0 else laneOf word.toNat (lane - bytes) := by
  rw [Words.toNat_shiftLeft32 _ _ (by omega), isShift, ← laneOf_left]
  exact laneOf_mod _ inside

omit isShift short in
theorem laneOf_ones : laneOf (0xffffffff : UInt32).toNat lane = if lane < 4 then 255 else 0 := by
  split
  · rename_i inside
    interval_cases lane <;> rfl
  · rename_i above
    exact laneOf_word _ (by omega)

omit isShift short in
theorem and_ones (part : Nat) (small : part < 2 ^ 8) : part &&& 255 = part := by
  rw [show (255 : Nat) = 2 ^ 8 - 1 from rfl, Nat.and_two_pow_sub_one_eq_mod,
    Nat.mod_eq_of_lt small]

theorem laneOf_keepHigh (inside : lane < 4) :
    laneOf (word &&& ((0xffffffff : UInt32) <<< shift)).toNat lane =
      if lane < bytes then 0 else laneOf word.toNat lane := by
  rw [UInt32.toNat_and, laneOf_and, laneOf_shiftLeft _ isShift short inside]
  split
  · exact Nat.and_zero _
  · rw [laneOf_ones, if_pos (by omega), and_ones _ (laneOf_lt _)]

theorem laneOf_keepLow :
    laneOf (word &&& ((0xffffffff : UInt32) >>> shift)).toNat lane =
      if lane + bytes < 4 then laneOf word.toNat lane else 0 := by
  rw [UInt32.toNat_and, laneOf_and, laneOf_shiftRight _ isShift short, laneOf_ones]
  split
  · exact and_ones _ (laneOf_lt _)
  · exact Nat.and_zero _

end Word32

inductive ByteOrder
  | big
  | little
  deriving DecidableEq, Repr

namespace ByteOrder

/-- The lane of the byte at an index of a word of `width` bytes. -/
def lane (order : ByteOrder) (width index : Nat) : Nat :=
  match order with
  | .big => width - 1 - index
  | .little => index

/-- The byte at an index of a word in memory. -/
def byteOf (order : ByteOrder) (width whole index : Nat) : Nat :=
  laneOf whole (order.lane width index)

/-- The 32-bit word at an address. -/
def load (order : ByteOrder) (memory : Nat → UInt8) (address : Nat) : UInt32 :=
  let part lane := (memory (address + order.lane 4 lane)).toNat * 2 ^ (8 * lane)
  UInt32.ofNat (part 0 + part 1 + part 2 + part 3)

variable (order : ByteOrder) {width index : Nat}

theorem lane_lane (inside : index < width) : order.lane width (order.lane width index) = index := by
  cases order with
  | big =>
      simp only [lane]
      omega
  | little => rfl

theorem lane_lt (inside : index < width) : order.lane width index < width := by
  cases order with
  | big =>
      simp only [lane]
      omega
  | little => exact inside

theorem byteOf_load (memory : Nat → UInt8) (address : Nat) (inside : index < 4) :
    order.byteOf 4 (order.load memory address).toNat index = (memory (address + index)).toNat := by
  have back := order.lane_lane inside
  have bound := order.lane_lt inside
  have small (lane : Nat) := (memory (address + order.lane 4 lane)).toNat_lt
  have first := small 0
  have second := small 1
  have third := small 2
  have fourth := small 3
  rw [byteOf]
  generalize order.lane 4 index = lane at back bound ⊢
  rw [← back]
  simp only [load, UInt32.toNat_ofNat', laneOf]
  clear back
  interval_cases lane <;> omega

end ByteOrder

end WordBytes
