import Mathlib
import Pciebench.Lib.LongDivision
import Pciebench.Lib.Words

/-!
Division on the NFP-3200, which has no instruction for it (`libnfcc.c`). The compiler calls
`_div_u32` and `_mod_u32` for the operators `/` and `%`.
-/

namespace Pciebench

structure DivModState where
  lo : Int32
  hi : UInt32
  deriving DecidableEq

def divModStep (y : UInt32) (state : DivModState) : DivModState :=
  let hi := state.hi <<< 1
  let hi := if state.lo < 0 then hi ||| 1 else hi
  let lo := state.lo <<< 1
  if hi ≥ y then { hi := hi - y, lo := lo ||| 1 } else { hi, lo }

def divModAt (x y : UInt32) (i : Nat) : DivModState :=
  (divModStep y)^[i] { lo := x.toInt32, hi := 0 }

namespace Libnfcc

def divMod32 (x y mod : UInt32) : UInt32 :=
  if y = 0 then 0xffffffff
  else if mod ≠ 0 then (divModAt x y 32).hi
  else (divModAt x y 32).lo.toUInt32

def modU32 (x y : Int32) : Int32 :=
  (divMod32 x.toUInt32 y.toUInt32 1).toInt32

def divU32 (x y : Int32) : Int32 :=
  (divMod32 x.toUInt32 y.toUInt32 0).toInt32

end Libnfcc

section Step

open LongDivision

theorem negative_iff (word : Int32) : word < 0 ↔ 2 ^ 31 ≤ word.toUInt32.toNat := by
  rw [Int32.lt_iff_toInt_lt, Int32.toInt, BitVec.toInt_eq_toNat_cond]
  have bound := word.toUInt32.toNat_lt
  change (if 2 * word.toUInt32.toNat < 2 ^ 32 then _ else _) < (0 : Int) ↔ _
  split <;> omega

theorem shiftLeft_one (word : Int32) :
    (word <<< 1).toUInt32.toNat = 2 * word.toUInt32.toNat % 2 ^ 32 := by
  change (word.toUInt32 <<< 1).toNat = _
  rw [Words.toNat_shiftLeft32 _ _ (by decide), Nat.mul_comm]
  rfl

theorem or_one {word : UInt32} (even : word.toNat % 2 = 0) :
    (word ||| 1).toNat = word.toNat + 1 := by
  have halves : word.toNat = word.toNat / 2 * 2 ^ 1 := by omega
  have one : (1 : UInt32).toNat = 1 := rfl
  rw [UInt32.toNat_or, one, Nat.or_comm, halves, Words.or_shifted 1 _ 1 (by decide)]
  omega

variable {x y : UInt32} {seen : Nat} {state : DivModState}

/-- `lo` and `hi` as a long division of `x` by `y`. -/
def DivTracks (x y : UInt32) (seen : Nat) (state : DivModState) : Prop :=
  Divided 32 x.toNat y.toNat seen state.hi.toNat state.lo.toUInt32.toNat

theorem divTracks_start (x y : UInt32) : DivTracks x y 0 { lo := x.toInt32, hi := 0 } :=
  divided_start x.toNat_lt

section Tracks

variable (tracks : DivTracks x y seen state) (more : seen < 32)

include tracks more

theorem hi_shifted : (state.hi <<< 1).toNat = 2 * state.hi.toNat := by
  have small : state.hi.toNat < 2 ^ seen := Divided.hi_lt x.toNat_lt tracks
  have narrow : 2 ^ seen ≤ 2 ^ 31 := Nat.pow_le_pow_right (by decide) (by omega)
  have one : (1 : UInt32).toNat = 1 := rfl
  rw [Words.toNat_shiftLeft32 _ _ (by decide), one]
  omega

theorem broughtDown :
    (if state.lo < 0 then state.hi <<< 1 ||| 1 else state.hi <<< 1).toNat =
      2 * state.hi.toNat + digit 32 x.toNat seen := by
  have top := Divided.top_digit tracks more x.toNat_lt
  have bound := state.lo.toUInt32.toNat_lt
  have shifted := hi_shifted tracks more
  by_cases negative : state.lo < 0
  · have high := (negative_iff state.lo).mp negative
    rw [if_pos negative, or_one (by omega), shifted]
    omega
  · have low := mt (negative_iff state.lo).mpr negative
    rw [if_neg negative, shifted]
    omega

theorem divTracks_step (nonzero : y ≠ 0) : DivTracks x y (seen + 1) (divModStep y state) := by
  have down := broughtDown tracks more
  have shifted := shiftLeft_one state.lo
  have positive : 0 < y.toNat := UInt32.pos_iff_ne_zero.mpr nonzero
  simp only [divModStep]
  generalize (if state.lo < 0 then state.hi <<< 1 ||| 1 else state.hi <<< 1) = hi at down ⊢
  by_cases goes : hi ≥ y
  · have long : y.toNat ≤ hi.toNat := UInt32.le_iff_toNat_le.mp goes
    have entered : ((state.lo <<< 1) ||| 1).toUInt32.toNat =
        2 * state.lo.toUInt32.toNat % 2 ^ 32 + 1 := by
      rw [← shifted]
      exact or_one (by omega)
    rw [if_pos goes, DivTracks, UInt32.toNat_sub_of_le _ _ goes, entered, down]
    exact Divided.goes tracks more x.toNat_lt positive (by omega)
  · have short : ¬ y.toNat ≤ hi.toNat := fun long => goes (UInt32.le_iff_toNat_le.mpr long)
    rw [if_neg goes, DivTracks, shifted, down]
    exact Divided.short tracks more x.toNat_lt (by omega)

end Tracks

theorem divTracks_at (nonzero : y ≠ 0) {i : Nat} (bound : i ≤ 32) :
    DivTracks x y i (divModAt x y i) := by
  induction i with
  | zero => exact divTracks_start x y
  | succ i ih =>
      rw [divModAt, Function.iterate_succ_apply']
      exact divTracks_step (ih (by omega)) bound nonzero

theorem divMod32_remainder (nonzero : y ≠ 0) {mod : UInt32} (wanted : mod ≠ 0) :
    Libnfcc.divMod32 x y mod = x % y := by
  obtain ⟨remainder, _⟩ := Divided.finish (divTracks_at nonzero (Nat.le_refl 32))
  apply UInt32.toNat_inj.mp
  rw [Libnfcc.divMod32, if_neg nonzero, if_pos wanted, remainder, UInt32.toNat_mod]

theorem divMod32_quotient (nonzero : y ≠ 0) : Libnfcc.divMod32 x y 0 = x / y := by
  obtain ⟨_, quotient⟩ := Divided.finish (divTracks_at nonzero (Nat.le_refl 32))
  apply UInt32.toNat_inj.mp
  rw [Libnfcc.divMod32, if_neg nonzero, if_neg (not_not.mpr rfl), quotient, UInt32.toNat_div]

end Step

/-- The loop gives the quotient and the remainder, and no shift of `hi` loses a bit. -/
theorem divMod32_exact (x y : UInt32) (nonzero : y ≠ 0) :
    Libnfcc.divMod32 x y 0 = x / y ∧
      (∀ mod, mod ≠ 0 → Libnfcc.divMod32 x y mod = x % y) ∧
      (Libnfcc.divU32 x.toInt32 y.toInt32).toUInt32 = x / y ∧
      (Libnfcc.modU32 x.toInt32 y.toInt32).toUInt32 = x % y ∧
      ∀ i, i < 32 → ((divModAt x y i).hi <<< 1).toNat = 2 * (divModAt x y i).hi.toNat := by
  refine ⟨divMod32_quotient nonzero, fun mod wanted => divMod32_remainder nonzero wanted,
    divMod32_quotient nonzero, divMod32_remainder nonzero (by decide), ?_⟩
  intro i bound
  exact hi_shifted (divTracks_at nonzero (Nat.le_of_lt bound)) bound

theorem divMod32_exact_topBit :
    Libnfcc.divMod32 0xffffffff 0x80000001 0 = 1 ∧
      Libnfcc.divMod32 0xffffffff 0x80000001 1 = 0x7ffffffe := by
  obtain ⟨quotient, remainder, _⟩ := divMod32_exact 0xffffffff 0x80000001 (by decide)
  refine ⟨quotient.trans (by decide), (remainder 1 (by decide)).trans (by decide)⟩

end Pciebench
