import Mathlib
import Pciebench.DmaAddr

/-!
Where a unit of the window lies: the arithmetic of `dma_addr_init` without wrap-around, for
arguments that the tests' sanity checks leave.
-/

namespace Pciebench

theorem roundup64_toNat (addr : UInt32) (small : addr.toNat ≤ 4096) :
    (roundup64 addr).toNat = (addr.toNat + 63) / 64 * 64 := by
  have mask : (64 - 1 : UInt32).toNat = 2 ^ 6 - 1 := rfl
  rw [roundup64, Words.toNat_and_not_mask32 _ _ 6 (by decide) mask, UInt32.toNat_add, mask]
  omega

theorem AddrArgs.fits_iff (args : AddrArgs) (unit : UInt32) :
    args.fits unit = true ↔ (args.linAddr unit).toNat % 4096 + args.transSz.toNat ≤ 4096 := by
  have page : (args.linAddr unit &&& 0xfff).toNat = (args.linAddr unit).toNat % 4096 :=
    Words.toNat_and_mask32 _ _ 12 rfl
  have full : (0x1000 : UInt32).toNat = 4096 := rfl
  rw [fits, decide_eq_true_eq, UInt32.le_iff_toNat_le, UInt32.toNat_sub, page, full]
  omega

namespace AddrArgs

/-- The bytes from the start of a unit to the end of its transaction, as the firmware adds
them up. -/
def span (args : AddrArgs) : Nat :=
  (args.transSz + args.hOff).toNat

theorem unitSz_of_span {args : AddrArgs} (zero : args.span = 0) : args.unitSz = 0 := by
  have sum : args.transSz + args.hOff = 0 := UInt32.toNat_inj.mp zero
  rw [unitSz, sum]
  rfl

/-- What the host's and the firmware's checks leave, but for an empty unit. -/
structure Checked (args : AddrArgs) : Prop where
  aligned : args.winSz.toNat % 64 = 0
  spanPos : 1 ≤ args.span
  inPage : args.span ≤ 4096
  inWindow : args.span ≤ args.winSz.toNat

/-- A window of the host buffer, with a transaction that lies in one of its pages. -/
structure Valid (args : AddrArgs) : Prop where
  aligned : args.winSz.toNat % 64 = 0
  inMem : args.winSz.toNat ≤ pciebenchMaxMem
  transPos : 1 ≤ args.transSz.toNat
  inPage : args.transSz.toNat + args.hOff.toNat ≤ 4096
  inWindow : args.transSz.toNat + args.hOff.toNat ≤ args.winSz.toNat

variable {args : AddrArgs}

theorem Valid.span_eq (valid : args.Valid) :
    args.span = args.transSz.toNat + args.hOff.toNat := by
  have page := valid.inPage
  rw [span, UInt32.toNat_add]
  omega

theorem Valid.checked (valid : args.Valid) : args.Checked := by
  have spanEq := valid.span_eq
  have transPos := valid.transPos
  have inPage := valid.inPage
  have inWindow := valid.inWindow
  exact ⟨valid.aligned, by omega, by omega, by omega⟩

namespace Checked

variable (checked : args.Checked)

include checked

theorem unitSz_toNat : args.unitSz.toNat = (args.span + 63) / 64 * 64 :=
  roundup64_toNat _ checked.inPage

theorem unitSz_mod : args.unitSz.toNat % 64 = 0 := by
  rw [checked.unitSz_toNat]
  omega

theorem span_le_unitSz : args.span ≤ args.unitSz.toNat := by
  rw [checked.unitSz_toNat]
  omega

theorem unitSz_pos : 64 ≤ args.unitSz.toNat := by
  have spanPos := checked.spanPos
  rw [checked.unitSz_toNat]
  omega

theorem unitSz_le_winSz : args.unitSz.toNat ≤ args.winSz.toNat := by
  have aligned := checked.aligned
  have inWindow := checked.inWindow
  rw [checked.unitSz_toNat]
  omega

theorem unitSz_ne_zero : args.unitSz ≠ 0 := by
  intro zero
  have positive := checked.unitSz_pos
  rw [zero] at positive
  simp at positive

omit checked in
theorem unitsInWin_toNat : args.unitsInWin.toNat = args.winSz.toNat / args.unitSz.toNat :=
  UInt32.toNat_div _ _

theorem unitsInWin_pos : 1 ≤ args.unitsInWin.toNat := by
  rw [unitsInWin_toNat]
  exact Nat.div_pos checked.unitSz_le_winSz (by have := checked.unitSz_pos; omega)

theorem unitsInWin_ne_zero : args.unitsInWin ≠ 0 := by
  intro zero
  have positive := checked.unitsInWin_pos
  rw [zero] at positive
  simp at positive

theorem unitsInWin_le : args.unitsInWin.toNat * 64 ≤ args.winSz.toNat := by
  rw [unitsInWin_toNat]
  calc args.winSz.toNat / args.unitSz.toNat * 64
      ≤ args.winSz.toNat / args.unitSz.toNat * args.unitSz.toNat :=
        Nat.mul_le_mul_left _ checked.unitSz_pos
    _ ≤ args.winSz.toNat := Nat.div_mul_le_self _ _

omit checked in
theorem unit_end_le {unit : Nat} (bound : unit < args.unitsInWin.toNat) :
    (unit + 1) * args.unitSz.toNat ≤ args.winSz.toNat := by
  rw [unitsInWin_toNat] at bound
  calc (unit + 1) * args.unitSz.toNat
      ≤ args.winSz.toNat / args.unitSz.toNat * args.unitSz.toNat := Nat.mul_le_mul_right _ bound
    _ ≤ args.winSz.toNat := Nat.div_mul_le_self _ _

/-- A transaction that fits ends `span` bytes after the start of its unit, even where the
host offset makes the 32-bit sum wrap around. -/
theorem fits_end {unit : UInt32} (bound : unit < args.unitsInWin)
    (fitting : args.fits unit = true) :
    (args.linAddr unit).toNat + args.transSz.toNat =
      unit.toNat * args.unitSz.toNat + args.span := by
  have inPage := (args.fits_iff unit).mp fitting
  have unitEnd := unit_end_le (UInt32.lt_iff_toNat_lt.mp bound)
  have spanLe := checked.span_le_unitSz
  have spanPos := checked.spanPos
  have winBound := args.winSz.toNat_lt
  have linBound := (args.linAddr unit).toNat_lt
  have wrapped : args.linAddr unit + args.transSz =
      unit * args.unitSz + (args.transSz + args.hOff) := by
    rw [linAddr, UInt32.add_assoc, UInt32.add_comm args.hOff]
  have sums := congrArg UInt32.toNat wrapped
  rw [UInt32.toNat_add, UInt32.toNat_add, UInt32.toNat_mul] at sums
  change _ = (_ + args.span) % _ at sums
  rw [Nat.succ_mul] at unitEnd
  omega

theorem fits_in_window {unit : UInt32} (bound : unit < args.unitsInWin)
    (fitting : args.fits unit = true) :
    (args.linAddr unit).toNat + args.transSz.toNat ≤ args.winSz.toNat := by
  have unitEnd := unit_end_le (UInt32.lt_iff_toNat_lt.mp bound)
  have spanLe := checked.span_le_unitSz
  rw [checked.fits_end bound fitting]
  rw [Nat.succ_mul] at unitEnd
  omega

end Checked

namespace Valid

variable (valid : args.Valid)

include valid

theorem linAddr_toNat {unit : UInt32} (bound : unit < args.unitsInWin) :
    (args.linAddr unit).toNat = unit.toNat * args.unitSz.toNat + args.hOff.toNat := by
  have unitEnd := Checked.unit_end_le (UInt32.lt_iff_toNat_lt.mp bound)
  have spanLe := valid.checked.span_le_unitSz
  have spanEq := valid.span_eq
  have winBound := args.winSz.toNat_lt
  have transPos := valid.transPos
  rw [Nat.succ_mul] at unitEnd
  rw [linAddr, UInt32.toNat_add, UInt32.toNat_mul]
  omega

theorem unitsInWin_le : args.unitsInWin.toNat ≤ pciebenchAddrArraySz := by
  have small := valid.checked.unitsInWin_le
  have inMem := valid.inMem
  simp only [pciebenchMaxMem_eq, pciebenchAddrArraySz_eq] at *
  omega

theorem fits_of_mod {unit : UInt32} (bound : unit < args.unitsInWin) (page : unit.toNat % 64 = 0) :
    args.fits unit = true := by
  have inPage := valid.inPage
  have transPos := valid.transPos
  rw [args.fits_iff, valid.linAddr_toNat bound]
  obtain ⟨pages, unitEq⟩ := Nat.dvd_of_mod_eq_zero page
  obtain ⟨lines, unitSzEq⟩ := Nat.dvd_of_mod_eq_zero valid.checked.unitSz_mod
  have start : unit.toNat * args.unitSz.toNat = 4096 * (pages * lines) := by
    rw [unitEq, unitSzEq]
    ring
  rw [start]
  omega

end Valid

def crossingExample : AddrArgs where
  winSz := 8192
  transSz := 150
  hOff := 8
  flags := 0

theorem crossingExample_valid : crossingExample.Valid := by
  constructor <;> decide

end AddrArgs

end Pciebench
