import Mathlib

/-!
Bit fields of a 32-bit word: storing into a field keeps the digits above and below it.
-/

/-- A field of `width` bits from bit `low` up. -/
structure BitField where
  low : Nat
  width : Nat
  inWord : low + width ≤ 32 := by decide

namespace BitField

def load (field : BitField) (word : UInt32) : UInt32 :=
  UInt32.ofNat (word.toNat / 2 ^ field.low % 2 ^ field.width)

def store (field : BitField) (word value : UInt32) : UInt32 :=
  UInt32.ofNat (word.toNat % 2 ^ field.low +
    2 ^ field.low * (value.toNat % 2 ^ field.width +
      2 ^ field.width * (word.toNat / 2 ^ (field.low + field.width))))

variable (field : BitField) (word value : UInt32)

theorem load_toNat : (field.load word).toNat = word.toNat / 2 ^ field.low % 2 ^ field.width := by
  have inWord := field.inWord
  have narrow : 2 ^ field.width ≤ 2 ^ 32 := Nat.pow_le_pow_right (by decide) (by omega)
  have bound := Nat.mod_lt (word.toNat / 2 ^ field.low) (Nat.two_pow_pos field.width)
  rw [load, UInt32.toNat_ofNat', Nat.mod_eq_of_lt (by omega)]

variable {field word} in
theorem load_eq {part : UInt32}
    (digits : word.toNat / 2 ^ field.low % 2 ^ field.width = part.toNat) :
    field.load word = part := by
  rw [← UInt32.toNat_inj, load_toNat, digits]

theorem store_toNat : (field.store word value).toNat =
    word.toNat % 2 ^ field.low +
      2 ^ field.low * (value.toNat % 2 ^ field.width +
        2 ^ field.width * (word.toNat / 2 ^ (field.low + field.width))) := by
  have inWord := field.inWord
  have bound := word.toNat_lt
  have lowBound := Nat.mod_lt word.toNat (Nat.two_pow_pos field.low)
  have valueBound := Nat.mod_lt value.toNat (Nat.two_pow_pos field.width)
  have top : word.toNat / 2 ^ (field.low + field.width) <
      2 ^ (32 - (field.low + field.width)) := by
    rw [Nat.div_lt_iff_lt_mul (Nat.two_pow_pos _), ← Nat.pow_add,
      Nat.sub_add_cancel inWord]
    exact bound
  have digits : value.toNat % 2 ^ field.width +
      2 ^ field.width * (word.toNat / 2 ^ (field.low + field.width)) <
        2 ^ (32 - field.low) := by
    calc value.toNat % 2 ^ field.width +
          2 ^ field.width * (word.toNat / 2 ^ (field.low + field.width))
        < 2 ^ field.width * (word.toNat / 2 ^ (field.low + field.width) + 1) := by
          rw [Nat.mul_succ]
          omega
      _ ≤ 2 ^ field.width * 2 ^ (32 - (field.low + field.width)) :=
          Nat.mul_le_mul_left _ top
      _ = 2 ^ (32 - field.low) := by
          rw [← Nat.pow_add]
          congr 1
          omega
  have whole : word.toNat % 2 ^ field.low +
      2 ^ field.low * (value.toNat % 2 ^ field.width +
        2 ^ field.width * (word.toNat / 2 ^ (field.low + field.width))) < 2 ^ 32 := by
    calc word.toNat % 2 ^ field.low +
          2 ^ field.low * (value.toNat % 2 ^ field.width +
            2 ^ field.width * (word.toNat / 2 ^ (field.low + field.width)))
        < 2 ^ field.low * (value.toNat % 2 ^ field.width +
            2 ^ field.width * (word.toNat / 2 ^ (field.low + field.width)) + 1) := by
          rw [Nat.mul_succ]
          omega
      _ ≤ 2 ^ field.low * 2 ^ (32 - field.low) := Nat.mul_le_mul_left _ digits
      _ = 2 ^ 32 := by
          rw [← Nat.pow_add]
          congr 1
          omega
  rw [store, UInt32.toNat_ofNat', Nat.mod_eq_of_lt whole]

theorem load_store : (field.load (field.store word value)).toNat =
    value.toNat % 2 ^ field.width := by
  have lowBound := Nat.mod_lt word.toNat (Nat.two_pow_pos field.low)
  rw [load_toNat, store_toNat, Nat.add_mul_div_left _ _ (Nat.two_pow_pos _),
    Nat.div_eq_of_lt lowBound, Nat.zero_add, Nat.add_mul_mod_self_left, Nat.mod_mod]

theorem store_above :
    (field.store word value).toNat / 2 ^ (field.low + field.width) =
      word.toNat / 2 ^ (field.low + field.width) := by
  have lowBound := Nat.mod_lt word.toNat (Nat.two_pow_pos field.low)
  have valueBound := Nat.mod_lt value.toNat (Nat.two_pow_pos field.width)
  rw [store_toNat, Nat.pow_add, ← Nat.div_div_eq_div_mul, ← Nat.div_div_eq_div_mul,
    Nat.add_mul_div_left _ _ (Nat.two_pow_pos _), Nat.div_eq_of_lt lowBound, Nat.zero_add,
    Nat.add_mul_div_left _ _ (Nat.two_pow_pos _), Nat.div_eq_of_lt valueBound, Nat.zero_add]

theorem store_below : (field.store word value).toNat % 2 ^ field.low =
    word.toNat % 2 ^ field.low := by
  rw [store_toNat, Nat.add_mul_mod_self_left, Nat.mod_mod]

theorem load_store_above {other : BitField} (apart : field.low + field.width ≤ other.low) :
    other.load (field.store word value) = other.load word := by
  obtain ⟨gap, gapEq⟩ := Nat.exists_eq_add_of_le apart
  apply UInt32.toNat_inj.mp
  rw [load_toNat, load_toNat, gapEq, Nat.pow_add, ← Nat.div_div_eq_div_mul,
    ← Nat.div_div_eq_div_mul, store_above]

theorem load_store_below {other : BitField} (apart : other.low + other.width ≤ field.low) :
    other.load (field.store word value) = other.load word := by
  have part : ∀ whole : Nat, whole / 2 ^ other.low % 2 ^ other.width =
      whole % 2 ^ field.low % 2 ^ (other.low + other.width) / 2 ^ other.low := by
    intro whole
    rw [Nat.mod_mod_of_dvd _ (Nat.pow_dvd_pow 2 apart), Nat.pow_add, Nat.mod_mul_right_div_self]
  apply UInt32.toNat_inj.mp
  rw [load_toNat, load_toNat, part, part, store_below]

/-- Two fields without a bit in common. -/
def Apart (field other : BitField) : Prop :=
  field.low + field.width ≤ other.low ∨ other.low + other.width ≤ field.low
  deriving Decidable

theorem load_store_apart {other : BitField} (apart : field.Apart other) :
    other.load (field.store word value) = other.load word := by
  rcases apart with above | below
  · exact load_store_above field word value above
  · exact load_store_below field word value below

def storeAll (word : UInt32) (parts : List (BitField × UInt32)) : UInt32 :=
  parts.foldl (fun word part => part.1.store word part.2) word

variable {field word} {parts : List (BitField × UInt32)}

theorem load_storeAll_apart (apart : ∀ part ∈ parts, part.1.Apart field) :
    field.load (storeAll word parts) = field.load word := by
  induction parts generalizing word with
  | nil => rfl
  | cons part parts ih =>
      obtain ⟨here, later⟩ := List.forall_mem_cons.mp apart
      exact (ih later).trans (load_store_apart part.1 word part.2 here)

/-- Of fields that are apart, each keeps what is stored in it. -/
theorem load_storeAll (apart : parts.Pairwise fun part other => other.1.Apart part.1)
    {part : BitField × UInt32} (member : part ∈ parts) :
    (part.1.load (storeAll word parts)).toNat = part.2.toNat % 2 ^ part.1.width := by
  induction parts generalizing word with
  | nil => exact absurd member List.not_mem_nil
  | cons first parts ih =>
      obtain ⟨here, later⟩ := List.pairwise_cons.mp apart
      rcases List.mem_cons.mp member with rfl | member
      · have kept : part.1.load (storeAll word (part :: parts)) =
            part.1.load (part.1.store word part.2) := load_storeAll_apart here
        rw [kept, load_store]
      · exact ih later member

/-- A field inside the low bits of a word is found there. -/
theorem load_low {narrow : UInt32} {bits : Nat} (low : narrow.toNat = word.toNat % 2 ^ bits)
    (inside : field.low + field.width ≤ bits) : field.load narrow = field.load word := by
  apply UInt32.toNat_inj.mp
  rw [load_toNat, load_toNat, low, ← Nat.mod_mul_right_div_self, ← Nat.mod_mul_right_div_self,
    ← Nat.pow_add, Nat.mod_mod_of_dvd _ (Nat.pow_dvd_pow 2 inside)]

end BitField
