import Mathlib

/-!
Long division in base two. The digits of the dividend leave one end of a word while the digits
of the quotient enter at the other, so two numbers hold the whole state.
-/

namespace LongDivision

/-- After `seen` of the `width` digits: `hi` is the remainder of the digits seen, and `lo` holds
the digits still to come above the quotient of those seen. -/
structure Divided (width dividend divisor seen hi lo : Nat) : Prop where
  inWidth : seen ≤ width
  remainder : hi = dividend / 2 ^ (width - seen) % divisor
  quotient : lo = dividend % 2 ^ (width - seen) * 2 ^ seen +
    dividend / 2 ^ (width - seen) / divisor

variable {width dividend divisor seen hi lo : Nat}

theorem divided_start (bound : dividend < 2 ^ width) :
    Divided width dividend divisor 0 0 dividend where
  inWidth := Nat.zero_le _
  remainder := by simp [Nat.div_eq_of_lt bound]
  quotient := by simp [Nat.div_eq_of_lt bound, Nat.mod_eq_of_lt bound]

theorem Divided.finish (divided : Divided width dividend divisor width hi lo) :
    hi = dividend % divisor ∧ lo = dividend / divisor := by
  have remainder := divided.remainder
  have quotient := divided.quotient
  simp only [Nat.sub_self, Nat.pow_zero, Nat.div_one, Nat.mod_one, Nat.zero_mul,
    Nat.zero_add] at remainder quotient
  exact ⟨remainder, quotient⟩

section Seen

variable (bound : dividend < 2 ^ width)

include bound

theorem seen_lt (inWidth : seen ≤ width) : dividend / 2 ^ (width - seen) < 2 ^ seen := by
  rw [Nat.div_lt_iff_lt_mul (Nat.two_pow_pos _), ← Nat.pow_add, Nat.add_sub_cancel' inWidth]
  exact bound

/-- The remainder never has more digits than were seen, whatever the divisor. -/
theorem Divided.hi_lt (divided : Divided width dividend divisor seen hi lo) : hi < 2 ^ seen := by
  rw [divided.remainder]
  exact Nat.lt_of_le_of_lt (Nat.mod_le _ _) (seen_lt bound divided.inWidth)

end Seen

/-- The digit that the next step takes from the dividend. -/
def digit (width dividend seen : Nat) : Nat :=
  dividend / 2 ^ (width - (seen + 1)) % 2

theorem div_next (more : seen < width) :
    dividend / 2 ^ (width - (seen + 1)) =
      2 * (dividend / 2 ^ (width - seen)) + digit width dividend seen := by
  have split : width - seen = width - (seen + 1) + 1 := by omega
  rw [digit, split, Nat.pow_succ, ← Nat.div_div_eq_div_mul]
  omega

theorem mod_next (more : seen < width) :
    dividend % 2 ^ (width - seen) =
      digit width dividend seen * 2 ^ (width - (seen + 1)) +
        dividend % 2 ^ (width - (seen + 1)) := by
  have split : width - seen = width - (seen + 1) + 1 := by omega
  rw [digit, split, Nat.pow_succ, Nat.mod_mul, Nat.mul_comm, Nat.add_comm]

section Step

variable (divided : Divided width dividend divisor seen hi lo) (more : seen < width)
  (bound : dividend < 2 ^ width)

include divided more bound

/-- `lo` by its top digit, the digits to come and the quotient so far. -/
theorem Divided.lo_split : ∃ low, low < 2 ^ (width - 1) ∧
    lo = digit width dividend seen * 2 ^ (width - 1) + low ∧
    2 * low = dividend % 2 ^ (width - (seen + 1)) * 2 ^ (seen + 1) +
      2 * (dividend / 2 ^ (width - seen) / divisor) := by
  have rest := Nat.mod_lt dividend (Nat.two_pow_pos (width - (seen + 1)))
  have small := seen_lt bound divided.inWidth
  have quotient := Nat.div_le_self (dividend / 2 ^ (width - seen)) divisor
  have top : 2 ^ (width - (seen + 1)) * 2 ^ seen = 2 ^ (width - 1) := by
    rw [← Nat.pow_add]
    congr 1
    omega
  refine ⟨dividend % 2 ^ (width - (seen + 1)) * 2 ^ seen +
    dividend / 2 ^ (width - seen) / divisor, ?_, ?_, ?_⟩
  · calc dividend % 2 ^ (width - (seen + 1)) * 2 ^ seen + dividend / 2 ^ (width - seen) / divisor
        < dividend % 2 ^ (width - (seen + 1)) * 2 ^ seen + 2 ^ seen := by omega
      _ = (dividend % 2 ^ (width - (seen + 1)) + 1) * 2 ^ seen := (Nat.succ_mul _ _).symm
      _ ≤ 2 ^ (width - (seen + 1)) * 2 ^ seen := Nat.mul_le_mul_right _ rest
      _ = 2 ^ (width - 1) := top
  · rw [divided.quotient, mod_next more, Nat.add_mul, Nat.mul_assoc, top, Nat.add_assoc]
  · rw [Nat.mul_add, Nat.pow_succ]
    ring

theorem Divided.top_digit : lo / 2 ^ (width - 1) = digit width dividend seen := by
  obtain ⟨low, lowBound, loEq, _⟩ := divided.lo_split more bound
  rw [loEq, Nat.add_comm, Nat.add_mul_div_right _ _ (Nat.two_pow_pos _),
    Nat.div_eq_of_lt lowBound, Nat.zero_add]

theorem Divided.shifted : 2 * lo % 2 ^ width =
    dividend % 2 ^ (width - (seen + 1)) * 2 ^ (seen + 1) +
      2 * (dividend / 2 ^ (width - seen) / divisor) := by
  obtain ⟨low, lowBound, loEq, lowEq⟩ := divided.lo_split more bound
  have whole : 2 ^ width = 2 ^ (width - 1) * 2 := by
    rw [← Nat.pow_succ]
    congr 1
    omega
  have regroup : 2 * lo = 2 ^ (width - 1) * 2 * digit width dividend seen + 2 * low := by
    rw [loEq]
    ring
  rw [← lowEq, whole, regroup, Nat.mul_add_mod]
  exact Nat.mod_eq_of_lt (by omega)

theorem Divided.short (short : 2 * hi + digit width dividend seen < divisor) :
    Divided width dividend divisor (seen + 1) (2 * hi + digit width dividend seen)
      (2 * lo % 2 ^ width) := by
  have whole := Nat.div_add_mod (dividend / 2 ^ (width - seen)) divisor
  rw [← divided.remainder] at whole
  have next : dividend / 2 ^ (width - (seen + 1)) =
      divisor * (2 * (dividend / 2 ^ (width - seen) / divisor)) +
        (2 * hi + digit width dividend seen) := by
    rw [div_next more, Nat.mul_left_comm]
    omega
  constructor
  · exact more
  · rw [next, Nat.mul_add_mod, Nat.mod_eq_of_lt short]
  · rw [divided.shifted more bound, next, Nat.mul_add_div (by omega),
      Nat.div_eq_of_lt short]
    rfl

theorem Divided.goes (positive : 0 < divisor)
    (long : divisor ≤ 2 * hi + digit width dividend seen) :
    Divided width dividend divisor (seen + 1) (2 * hi + digit width dividend seen - divisor)
      (2 * lo % 2 ^ width + 1) := by
  have whole := Nat.div_add_mod (dividend / 2 ^ (width - seen)) divisor
  have small := Nat.mod_lt (dividend / 2 ^ (width - seen)) positive
  have binary : digit width dividend seen < 2 := Nat.mod_lt _ (by decide)
  rw [← divided.remainder] at whole small
  have rest : 2 * hi + digit width dividend seen - divisor < divisor := by omega
  have next : dividend / 2 ^ (width - (seen + 1)) =
      divisor * (2 * (dividend / 2 ^ (width - seen) / divisor) + 1) +
        (2 * hi + digit width dividend seen - divisor) := by
    rw [div_next more, Nat.mul_succ, Nat.mul_left_comm]
    omega
  constructor
  · exact more
  · rw [next, Nat.mul_add_mod, Nat.mod_eq_of_lt rest]
  · rw [divided.shifted more bound, next, Nat.mul_add_div positive, Nat.div_eq_of_lt rest,
      Nat.add_zero, Nat.add_assoc]

end Step

end LongDivision
