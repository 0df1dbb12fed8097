import Mathlib
import Pciebench.CheckSufficiency
import Pciebench.Lib.Fuel

/-!
`dma_addr_init` on whatever the firmware's own check lets through: when its searches end, and
when the array gets filled.
-/

namespace Pciebench

open Fuel

/-- What is asked of the pseudo random numbers: for every modulus each residue comes again. -/
def Productive (rng : Nat → UInt32) : Prop :=
  ∀ units, units ≠ 0 → ∀ unit, unit < units → ∀ reads,
    ∃ gap, rng (reads + gap) % units = unit

theorem productive_counting : Productive UInt32.ofNat := by
  intro units _ unit below reads
  refine ⟨(unit - UInt32.ofNat reads).toNat, ?_⟩
  have reached : UInt32.ofNat (reads + (unit - UInt32.ofNat reads).toNat) = unit := by
    rw [UInt32.ofNat_add, UInt32.ofNat_toNat, UInt32.add_comm, UInt32.sub_add_cancel]
  rw [reached]
  apply UInt32.toNat_inj.mp
  rw [UInt32.toNat_mod, Nat.mod_eq_of_lt (UInt32.lt_iff_toNat_lt.mp below)]

section Search

variable {shift : UInt32} {table : ChunkTable} {rng : Nat → UInt32} {args : AddrArgs}
  {unitsInWin : UInt32}

theorem searchLinAddr_steady (idx add : UInt32) (reads : Nat) :
    Steady .looping fun fuel => searchLinAddr rng args unitsInWin idx fuel add reads := by
  intro fuel more ordered done
  induction fuel generalizing more add reads with
  | zero => exact absurd rfl done
  | succ fuel ih =>
      obtain ⟨rest, rfl⟩ : ∃ rest, more = rest + 1 := ⟨more - 1, by omega⟩
      simp only [searchLinAddr_succ] at done ⊢
      cases reduced : modU32 (if flagSet args.flags latFlagsRandom = true then rng reads
          else idx + add) unitsInWin with
      | error stop => rfl
      | ok unit =>
          simp only [reduced, Outcome.ok_bind] at done ⊢
          split
          · rfl
          · rename_i crossing
            rw [if_neg crossing] at done
            exact ih _ _ rest (by omega) done

theorem dmaAddrInitFrom_steady (count idx : Nat) (state : AddrState) :
    Steady .looping fun fuel =>
      dmaAddrInitFrom fuel shift table rng args unitsInWin count idx state := by
  induction count generalizing idx state with
  | zero => exact steady_const _
  | succ count ih =>
      exact (searchLinAddr_steady _ _ _).bind fun pick =>
        (steady_const (spliceChunk shift table pick.linAddr)).bind fun dmaAddr =>
          ih (idx + 1) (state.store idx pick dmaAddr)

theorem dmaAddrInit_steady (state : AddrState) :
    Steady .looping fun fuel => dmaAddrInit fuel shift table rng args state :=
  (steady_const (divU32 args.winSz args.unitSz)).bind fun _ => dmaAddrInitFrom_steady _ _ _

variable (nonzero : unitsInWin ≠ 0)

include nonzero

theorem searchLinAddr_within {idx add : UInt32} {reads : Nat} (gap : Nat)
    (fitting : args.fits ((if flagSet args.flags latFlagsRandom = true then rng (reads + gap)
      else idx + add + UInt32.ofNat gap) % unitsInWin) = true) :
    ∃ pick, searchLinAddr rng args unitsInWin idx (gap + 1) add reads = .ok pick := by
  induction gap generalizing add reads with
  | zero =>
      rw [Nat.add_zero, show UInt32.ofNat 0 = 0 from rfl, UInt32.add_zero] at fitting
      simp only [searchLinAddr_succ, modU32, if_neg nonzero, Outcome.ok_bind, fitting, if_true]
      exact ⟨_, rfl⟩
  | succ gap ih =>
      have one : UInt32.ofNat (gap + 1) = 1 + UInt32.ofNat gap := by
        rw [Nat.add_comm, UInt32.ofNat_add]
        rfl
      rw [searchLinAddr_succ]
      cases random : flagSet args.flags latFlagsRandom with
      | true =>
          simp only [random, if_true, modU32, if_neg nonzero, Outcome.ok_bind] at ih fitting ⊢
          split
          · exact ⟨_, rfl⟩
          · exact ih (by rwa [Nat.add_assoc, Nat.add_comm 1 gap])
      | false =>
          simp only [random, Bool.false_eq_true, if_false, modU32, if_neg nonzero,
            Outcome.ok_bind] at ih fitting ⊢
          split
          · exact ⟨_, rfl⟩
          · exact ih (by rwa [← UInt32.add_assoc, UInt32.add_assoc _ 1, ← one])

variable (productive : Productive rng) (first : args.fits 0 = true)

include productive first

/-- The search may not get past the multiples of the number of units, of which zero is one that
every sum comes to. -/
theorem searchLinAddr_ends (idx add : UInt32) (reads : Nat) :
    Ends .looping fun fuel => searchLinAddr rng args unitsInWin idx fuel add reads := by
  have found : ∃ gap, (if flagSet args.flags latFlagsRandom = true then rng (reads + gap)
      else idx + add + UInt32.ofNat gap) % unitsInWin = 0 := by
    split
    · exact productive unitsInWin nonzero 0 (UInt32.pos_iff_ne_zero.mpr nonzero) reads
    · refine ⟨(0 - (idx + add)).toNat, ?_⟩
      rw [UInt32.ofNat_toNat, UInt32.add_comm, UInt32.sub_add_cancel]
      exact UInt32.zero_mod
  obtain ⟨gap, zero⟩ := found
  obtain ⟨pick, done⟩ := searchLinAddr_within nonzero gap (by rw [zero]; exact first)
  exact ⟨gap + 1, by simp [done]⟩

theorem dmaAddrInitFrom_ends (count idx : Nat) (state : AddrState) :
    Ends .looping fun fuel =>
      dmaAddrInitFrom fuel shift table rng args unitsInWin count idx state := by
  induction count generalizing idx state with
  | zero => exact ends_const nofun
  | succ count ih =>
      have splices : ∀ pick : Pick, spliceChunk shift table pick.linAddr ≠ .error .looping := by
        intro pick looping
        have stop := (spliceChunk_error looping).1
        contradiction
      refine Ends.bind (searchLinAddr_steady _ _ _) ?_
        (searchLinAddr_ends nonzero productive first _ _ _) ?_
      · exact fun pick => (steady_const _).bind fun dmaAddr => dmaAddrInitFrom_steady _ _ _
      · exact fun pick => Ends.bind (steady_const _) (fun dmaAddr => dmaAddrInitFrom_steady _ _ _)
          (ends_const (splices pick)) fun dmaAddr => ih _ _

end Search

/-- The window up to the end of its last whole line; no unit reaches beyond. -/
def AddrArgs.wholeLines (args : AddrArgs) : AddrArgs :=
  { args with winSz := args.winSz / 64 * 64 }

section WholeLines

variable {shift : UInt32} {table : ChunkTable} {rng : Nat → UInt32} {args : AddrArgs}
  {state : AddrState}

theorem roundup64_mod (addr : UInt32) : (roundup64 addr).toNat % 64 = 0 := by
  have mask : (64 - 1 : UInt32).toNat = 2 ^ 6 - 1 := rfl
  rw [roundup64, Words.toNat_and_not_mask32 _ _ 6 (by decide) mask]
  omega

theorem wholeLines_winSz : args.wholeLines.winSz.toNat = args.winSz.toNat / 64 * 64 := by
  have line : (64 : UInt32).toNat = 64 := rfl
  have bound := args.winSz.toNat_lt
  rw [AddrArgs.wholeLines, UInt32.toNat_mul, UInt32.toNat_div, line]
  omega

theorem wholeLines_unitsInWin : args.wholeLines.unitsInWin = args.unitsInWin := by
  obtain ⟨lines, unitSz⟩ := Nat.dvd_of_mod_eq_zero (roundup64_mod (args.transSz + args.hOff))
  have unit : args.unitSz.toNat = 64 * lines := unitSz
  have same : args.wholeLines.unitSz = args.unitSz := rfl
  apply UInt32.toNat_inj.mp
  rw [AddrArgs.Checked.unitsInWin_toNat, AddrArgs.Checked.unitsInWin_toNat, wholeLines_winSz, same,
    unit, ← Nat.div_div_eq_div_mul, ← Nat.div_div_eq_div_mul, Nat.mul_div_cancel _ (by decide)]

theorem wholeLines_searchLinAddr (fuel : Nat) {unitsInWin idx : UInt32} (add : UInt32)
    (reads : Nat) :
    searchLinAddr rng args.wholeLines unitsInWin idx fuel add reads =
      searchLinAddr rng args unitsInWin idx fuel add reads := by
  induction fuel generalizing add reads with
  | zero => rfl
  | succ fuel ih =>
      simp only [searchLinAddr_succ, ih]
      rfl

theorem wholeLines_dmaAddrInitFrom (fuel count idx : Nat) {unitsInWin : UInt32} :
    dmaAddrInitFrom fuel shift table rng args.wholeLines unitsInWin count idx state =
      dmaAddrInitFrom fuel shift table rng args unitsInWin count idx state := by
  induction count generalizing idx state with
  | zero => rfl
  | succ count ih => simp only [dmaAddrInitFrom_succ, wholeLines_searchLinAddr, ih]

theorem wholeLines_dmaAddrInit (fuel : Nat) (nonzero : args.unitSz ≠ 0) :
    dmaAddrInit fuel shift table rng args.wholeLines state =
      dmaAddrInit fuel shift table rng args state := by
  have same : args.wholeLines.unitSz ≠ 0 := nonzero
  rw [dmaAddrInit_eq_from nonzero, dmaAddrInit_eq_from same, wholeLines_unitsInWin,
    wholeLines_dmaAddrInitFrom]

theorem wholeLines_inMem : args.wholeLines.InMem ↔ args.InMem := by
  rw [AddrArgs.InMem, AddrArgs.InMem, wholeLines_unitsInWin]
  rfl

theorem wholeLines_checked (inPage : args.span ≤ 4096) (nonempty : args.span ≠ 0)
    (oneUnit : args.unitSz ≤ args.winSz) : args.wholeLines.Checked := by
  have unitSz : args.unitSz.toNat = (args.span + 63) / 64 * 64 := roundup64_toNat _ inPage
  have room := UInt32.le_iff_toNat_le.mp oneUnit
  refine ⟨?_, Nat.pos_of_ne_zero nonempty, inPage, ?_⟩
  · rw [wholeLines_winSz]
    exact Nat.mul_mod_left _ _
  · rw [wholeLines_winSz]
    change args.span ≤ _
    omega

theorem AddrArgs.unitSz_le_winSz (some : args.unitsInWin ≠ 0) : args.unitSz ≤ args.winSz := by
  have positive : 0 < args.unitsInWin.toNat := UInt32.pos_iff_ne_zero.mpr some
  rw [AddrArgs.Checked.unitsInWin_toNat] at positive
  exact UInt32.le_iff_toNat_le.mpr (Nat.div_pos_iff.mp positive).2

theorem dmaAddrInit_oneUnit {fuel : Nat} {final : AddrState}
    (done : dmaAddrInit fuel shift table rng args state = .ok final) :
    args.span ≠ 0 ∧ args.unitSz ≤ args.winSz := by
  have first : 0 < pciebenchAddrArraySz := by decide
  obtain ⟨⟨unit, bound, _⟩, _⟩ := dmaAddrInit_ok done first
  have some : args.unitsInWin ≠ 0 := by
    rintro none
    rw [none] at bound
    exact absurd bound UInt32.not_lt_zero
  refine ⟨?_, AddrArgs.unitSz_le_winSz some⟩
  intro zero
  rw [AddrArgs.unitsInWin, AddrArgs.unitSz_of_span zero, UInt32.div_zero] at some
  exact some rfl

variable (checked : args.wholeLines.Checked)

include checked

variable (state) in
theorem dmaAddrInit_total (productive : Productive rng) (first : args.fits 0 = true)
    (safe : InitSafe shift table args.wholeLines) :
    ∃ fuel final, dmaAddrInit fuel shift table rng args state = .ok final := by
  have nonzero : args.unitSz ≠ 0 := checked.unitSz_ne_zero
  have first' : args.wholeLines.fits 0 = true := first
  obtain ⟨fuel, ends⟩ : Ends .looping fun fuel =>
      dmaAddrInitFrom fuel shift table rng args.wholeLines args.wholeLines.unitsInWin
        pciebenchAddrArraySz 0 { state with add := 0 } :=
    dmaAddrInitFrom_ends checked.unitsInWin_ne_zero productive first' _ _ _
  refine ⟨fuel, ?_⟩
  rw [← wholeLines_dmaAddrInit fuel nonzero]
  cases done : dmaAddrInit fuel shift table rng args.wholeLines state with
  | ok final => exact ⟨final, rfl⟩
  | error stop =>
      have looping := safe fuel rng state stop done
      rw [dmaAddrInit_eq_from checked.unitSz_ne_zero, looping] at done
      exact absurd done ends

variable (table) in
/-- Where a unit past the end of the table fits, some run of the generator leads to it. -/
theorem dmaAddrInit_overruns
    (overrun : ¬ (flagSet args.flags latFlagsRandom = false ∧ args.OneLine ∨ args.InMem)) :
    ∃ rng state, Productive rng ∧
      ∀ fuel final, dmaAddrInit fuel 22 table rng args state ≠ .ok final := by
  have nonzero : args.unitSz ≠ 0 := checked.unitSz_ne_zero
  obtain ⟨notLine, outside⟩ := not_or.mp overrun
  have outside' : ¬ args.wholeLines.InMem := fun inMem => outside (wholeLines_inMem.mp inMem)
  obtain ⟨rng, state, productive, enough, chunkIdx, fault⟩ : ∃ rng state, Productive rng ∧
      ∃ enough chunkIdx, dmaAddrInit enough 22 table rng args.wholeLines state =
        .error (.chunkIndex chunkIdx) := by
    cases random : flagSet args.flags latFlagsRandom with
    | true =>
        obtain ⟨unit, faults⟩ := random_overruns table checked random outside'
        obtain ⟨chunkIdx, fault⟩ := faults UInt32.ofNat
          { dmaAddrs := fun _ => 0, linAddrs := fun _ => 0, add := 0, reads := unit.toNat }
          UInt32.ofNat_toNat
        exact ⟨_, _, productive_counting, 1, chunkIdx, fault⟩
    | false =>
        have several : ¬ args.wholeLines.OneLine := fun oneLine => notLine ⟨random, oneLine⟩
        obtain ⟨enough, faults⟩ := sequential_overruns table checked random several outside'
        obtain ⟨chunkIdx, fault⟩ := faults UInt32.ofNat
          { dmaAddrs := fun _ => 0, linAddrs := fun _ => 0, add := 0, reads := 0 }
        exact ⟨_, _, productive_counting, enough, chunkIdx, fault⟩
  refine ⟨rng, state, productive, ?_⟩
  intro fuel final done
  rw [wholeLines_dmaAddrInit enough nonzero] at fault
  have same := (dmaAddrInit_steady state).unique done fault nofun nofun
  contradiction

end WholeLines

section Soft

/-! On the NFP-3200 a zero divisor gives `0xffffffff`, and the array gets filled all the same:
whatever unit the division leads to, the transaction fits there. -/

variable {division : Division} {table : ChunkTable} {rng : Nat → UInt32} {args : AddrArgs}
  {unitsInWin : UInt32}

section First

variable (every : ∀ trans, ∃ unit, division.mod trans unitsInWin = .ok unit ∧
  args.fits unit = true)

include every

theorem searchLinAddr_first (idx add : UInt32) (reads : Nat) :
    ∃ pick, division.searchLinAddr rng args unitsInWin idx 1 add reads = .ok pick := by
  obtain ⟨unit, reduced, fitting⟩ :=
    every (if flagSet args.flags latFlagsRandom = true then rng reads else idx + add)
  simp only [Division.searchLinAddr, reduced, Outcome.ok_bind, fitting, if_true]
  exact ⟨_, rfl⟩

variable (table rng) in
theorem dmaAddrInitFrom_first (count idx : Nat) (state : AddrState) :
    ∃ final, division.dmaAddrInitFrom 1 31 table rng args unitsInWin count idx state =
      .ok final := by
  induction count generalizing idx state with
  | zero => exact ⟨state, rfl⟩
  | succ count ih =>
      obtain ⟨pick, found⟩ := searchLinAddr_first every (UInt32.ofNat idx) state.add state.reads
      have inTable := shift31_inTable pick.linAddr
      rw [Division.dmaAddrInitFrom, found]
      simp only [Outcome.ok_bind, spliceChunk, chunkDmaAddr, dif_pos inTable]
      exact ih _ _

end First

variable (inPage : args.transSz.toNat + args.hOff.toNat ≤ 4096)

include inPage

theorem unitSz_inPage :
    args.unitSz.toNat = (args.transSz.toNat + args.hOff.toNat + 63) / 64 * 64 := by
  have sum : (args.transSz + args.hOff).toNat = args.transSz.toNat + args.hOff.toNat := by
    rw [UInt32.toNat_add]
    omega
  rw [AddrArgs.unitSz, roundup64_toNat _ (by omega), sum]

theorem fits_unitSz_zero (zero : args.unitSz = 0) (unit : UInt32) : args.fits unit = true := by
  have whole := unitSz_inPage inPage
  rw [zero] at whole
  rw [args.fits_iff]
  change 0 = _ at whole
  omega

theorem fits_before : args.fits 0xffffffff = true := by
  have whole := unitSz_inPage inPage
  have last : (0xffffffff : UInt32).toNat = 2 ^ 32 - 1 := rfl
  have start : (args.linAddr 0xffffffff).toNat =
      (2 ^ 32 - args.unitSz.toNat + args.hOff.toNat) % 2 ^ 32 := by
    rw [AddrArgs.linAddr, UInt32.toNat_add, UInt32.toNat_mul, last]
    omega
  rw [args.fits_iff, start]
  omega

variable (table rng) in
theorem soft_dmaAddrInit_total (zero : args.unitSz = 0 ∨ args.unitsInWin = 0)
    (state : AddrState) :
    ∃ final, Chip.nfp3200.division.dmaAddrInit 1 31 table rng args state = .ok final := by
  by_cases noUnit : args.unitSz = 0
  · have every : ∀ trans, ∃ unit, Chip.nfp3200.division.mod trans 0xffffffff = .ok unit ∧
        args.fits unit = true := by
      intro trans
      rw [(Chip.nfp3200.division_eq (by decide)).2, modU32, if_neg (by decide)]
      exact ⟨_, rfl, fits_unitSz_zero inPage noUnit _⟩
    rw [Division.dmaAddrInit, noUnit, (Chip.division_zero _).1]
    exact dmaAddrInitFrom_first table rng every _ _ _
  · have none : args.winSz / args.unitSz = 0 := zero.resolve_left noUnit
    have every : ∀ trans, ∃ unit, Chip.nfp3200.division.mod trans 0 = .ok unit ∧
        args.fits unit = true :=
      fun trans => ⟨_, (Chip.division_zero trans).2, fits_before inPage⟩
    rw [Division.dmaAddrInit, (Chip.nfp3200.division_eq noUnit).1, divU32, if_neg noUnit, none]
    exact dmaAddrInitFrom_first table rng every _ _ _

end Soft

end Pciebench
