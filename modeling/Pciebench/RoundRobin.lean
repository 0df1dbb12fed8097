import Mathlib
import Pciebench.SequentialScan

/-!
Sequential access as a round robin over the units of the window whose transaction does not
cross a page: which entry of the array belongs to which unit.
-/

namespace Pciebench

def CrossesPage (start size : Nat) : Prop :=
  start / 4096 ≠ (start + size - 1) / 4096

instance (start size : Nat) : Decidable (CrossesPage start size) :=
  inferInstanceAs (Decidable (_ ≠ _))

namespace AddrArgs

def unitStart (args : AddrArgs) (unit : Nat) : Nat :=
  unit * args.unitSz.toNat + args.hOff.toNat

def freeUnits (args : AddrArgs) : List Nat :=
  (List.range (args.winSz.toNat / args.unitSz.toNat)).filter
    (fun unit => ¬ CrossesPage (args.unitStart unit) args.transSz.toNat)

/-- The free unit with index `idx` modulo the number of free units. -/
def roundRobin (args : AddrArgs) (idx : Nat) : Nat :=
  args.freeUnits.getD (idx % args.freeUnits.length) 0

variable {args : AddrArgs}

theorem linAddr_unitStart (valid : args.Valid) {unit : Nat}
    (bound : unit < args.unitsInWin.toNat) :
    (args.linAddr (UInt32.ofNat unit)).toNat = args.unitStart unit := by
  have inRange : UInt32.ofNat unit < args.unitsInWin := by
    rw [UInt32.lt_iff_toNat_lt, unit_ofNat_toNat bound]
    exact bound
  rw [valid.linAddr_toNat inRange, unit_ofNat_toNat bound, unitStart]

theorem fittingUnits_eq (valid : args.Valid) : args.fittingUnits = args.freeUnits := by
  rw [fittingUnits, PeriodicSearch.residues, freeUnits, Checked.unitsInWin_toNat]
  apply List.filter_congr
  intro unit member
  rw [List.mem_range, ← Checked.unitsInWin_toNat] at member
  have transPos := valid.transPos
  have page := args.fits_iff (UInt32.ofNat unit)
  rw [linAddr_unitStart valid member] at page
  rw [decide_eq_decide, FitsUnit, page, CrossesPage]
  omega

theorem mem_freeUnits {unit : Nat} :
    unit ∈ args.freeUnits ↔ unit < args.winSz.toNat / args.unitSz.toNat ∧
      ¬ CrossesPage (args.unitStart unit) args.transSz.toNat := by
  simp [freeUnits]

theorem freeUnits_pairwise (args : AddrArgs) : args.freeUnits.Pairwise (· < ·) :=
  List.Pairwise.filter _ List.pairwise_lt_range

theorem freeUnits_nodup (args : AddrArgs) : args.freeUnits.Nodup :=
  args.freeUnits_pairwise.imp Nat.ne_of_lt

theorem roundRobin_getElem (free : 1 ≤ args.freeUnits.length) (idx : Nat) :
    args.freeUnits[idx % args.freeUnits.length]? = some (args.roundRobin idx) := by
  have bound : idx % args.freeUnits.length < args.freeUnits.length := Nat.mod_lt _ free
  rw [roundRobin, List.getD_eq_getElem?_getD, List.getElem?_eq_getElem bound, Option.getD_some]

theorem roundRobin_mem (free : 1 ≤ args.freeUnits.length) (idx : Nat) :
    args.roundRobin idx ∈ args.freeUnits :=
  List.mem_of_getElem? (roundRobin_getElem free idx)

theorem roundRobin_ne (free : 1 ≤ args.freeUnits.length) {first second : Nat}
    (after : first < second) (near : second < first + args.freeUnits.length) :
    args.roundRobin first ≠ args.roundRobin second := by
  intro same
  have firstAt := roundRobin_getElem free first
  have secondAt := roundRobin_getElem free second
  rw [← same] at secondAt
  obtain ⟨firstBound, firstEq⟩ := List.getElem?_eq_some_iff.mp firstAt
  obtain ⟨secondBound, secondEq⟩ := List.getElem?_eq_some_iff.mp secondAt
  have index := (List.Nodup.getElem_inj_iff args.freeUnits_nodup).mp (firstEq.trans secondEq.symm)
  have gap : (second - first) % args.freeUnits.length = 0 := by
    rw [← Nat.sub_mod_eq_zero_of_mod_eq index.symm]
  rw [Nat.mod_eq_of_lt (by omega)] at gap
  omega

theorem exists_roundRobin {unit : Nat} (member : unit ∈ args.freeUnits) :
    ∃ idx, idx < args.freeUnits.length ∧ args.roundRobin idx = unit := by
  obtain ⟨idx, bound, found⟩ := List.getElem_of_mem member
  refine ⟨idx, bound, ?_⟩
  rw [roundRobin, Nat.mod_eq_of_lt bound, List.getD_eq_getElem?_getD,
    List.getElem?_eq_getElem bound, Option.getD_some, found]

theorem freeUnit_byte (valid : args.Valid) (table : ChunkTable) {unit offset : Nat}
    (member : unit ∈ args.freeUnits) (inside : offset < args.transSz.toNat) :
    hostAddr table (args.unitStart unit) + offset = hostAddr table (args.unitStart unit + offset) ∧
      unit * args.unitSz.toNat ≤ args.unitStart unit + offset ∧
      args.unitStart unit + offset < (unit + 1) * args.unitSz.toNat ∧
      args.unitStart unit + offset < pciebenchMaxMem := by
  obtain ⟨bound, free⟩ := mem_freeUnits.mp member
  rw [← Checked.unitsInWin_toNat] at bound
  have unitEnd := Checked.unit_end_le bound
  have spanLe := valid.checked.span_le_unitSz
  have spanEq := valid.span_eq
  have inMem := valid.inMem
  have page : args.unitStart unit % 4096 + offset < 4096 := by
    rw [CrossesPage] at free
    omega
  refine ⟨(hostAddr_add page).symm, ?_, ?_, ?_⟩
  · rw [unitStart]
    omega
  · rw [unitStart, Nat.succ_mul]
    omega
  · rw [unitStart]
    rw [Nat.succ_mul] at unitEnd
    omega

theorem freeUnits_lines (valid : args.Valid) {table : ChunkTable} (aligned : table.Aligned)
    (disjoint : table.Disjoint) {first second firstOff secondOff : Nat}
    (firstMem : first ∈ args.freeUnits) (secondMem : second ∈ args.freeUnits)
    (different : first ≠ second) (firstIn : firstOff < args.transSz.toNat)
    (secondIn : secondOff < args.transSz.toNat) :
    (hostAddr table (args.unitStart first) + firstOff) / 64 ≠
      (hostAddr table (args.unitStart second) + secondOff) / 64 := by
  obtain ⟨firstHost, firstLower, firstUpper, firstBound⟩ :=
    freeUnit_byte valid table firstMem firstIn
  obtain ⟨secondHost, secondLower, secondUpper, secondBound⟩ :=
    freeUnit_byte valid table secondMem secondIn
  rw [firstHost, secondHost]
  intro sameLine
  have sameStart : hostAddr table ((args.unitStart first + firstOff) / 64 * 64) =
      hostAddr table ((args.unitStart second + secondOff) / 64 * 64) := by
    rw [← hostAddr_line aligned, ← hostAddr_line aligned, sameLine]
  have sameLinear := hostAddr_injective disjoint (by omega) (by omega) sameStart
  obtain ⟨lines, unitSzEq⟩ := Nat.dvd_of_mod_eq_zero valid.checked.unitSz_mod
  have scaled : ∀ units : Nat, units * args.unitSz.toNat = 64 * (units * lines) := by
    intro units
    rw [unitSzEq]
    ring
  rw [scaled] at firstLower firstUpper secondLower secondUpper
  rcases Nat.lt_or_gt_of_ne different with below | above
  · have order : (first + 1) * lines ≤ second * lines := Nat.mul_le_mul_right _ below
    omega
  · have order : (second + 1) * lines ≤ first * lines := Nat.mul_le_mul_right _ above
    omega

end AddrArgs

/-- With `LAT_FLAGS_RANDOM` clear the array is an exact round robin over the free units. -/
theorem dmaAddrInit_roundRobin (fuel : Nat) (table : ChunkTable) (rng : Nat → UInt32)
    (args : AddrArgs) (state : AddrState) (valid : args.Valid)
    (sequential : flagSet args.flags latFlagsRandom = false) (enough : 64 ≤ fuel) :
    1 ≤ args.freeUnits.length ∧
    (∃ final, dmaAddrInit fuel 22 table rng args state = .ok final ∧
      ∀ idx, idx < pciebenchAddrArraySz →
        (∃ linAddr : UInt32, linAddr.toNat = args.unitStart (args.roundRobin idx) ∧
          spliceChunk 22 table linAddr = .ok (final.dmaAddrs idx)) ∧
        (table.Below (2 ^ 56) → (final.dmaAddrs idx).toNat =
          hostAddr table (args.unitStart (args.roundRobin idx)) +
            args.unitStart (args.roundRobin idx) / pciebenchChunkSz * 2 ^ 56)) ∧
    (∀ unit, unit ∈ args.freeUnits →
      ∃ idx, idx < pciebenchAddrArraySz ∧ args.roundRobin idx = unit) ∧
    ∀ first second, first < second → second < first + args.freeUnits.length →
      args.roundRobin first ≠ args.roundRobin second ∧
      (table.Aligned → table.Disjoint →
        ∀ firstOff secondOff, firstOff < args.transSz.toNat → secondOff < args.transSz.toNat →
          (hostAddr table (args.unitStart (args.roundRobin first)) + firstOff) / 64 ≠
            (hostAddr table (args.unitStart (args.roundRobin second)) + secondOff) / 64) := by
  have free := fittingUnits_length_pos valid
  have few := fittingUnits_length_le valid
  rw [AddrArgs.fittingUnits_eq valid] at free few
  refine ⟨free, ?_, ?_, ?_⟩
  · obtain ⟨final, done, _, entries⟩ := dmaAddrInit_sequential table rng
      valid sequential enough (spliceChunk_placed table valid) state
    refine ⟨final, done, ?_⟩
    intro idx bound
    obtain ⟨unit, found, linEq⟩ := entries idx bound
    rw [AddrArgs.fittingUnits_eq valid, AddrArgs.roundRobin_getElem free,
      Option.some.injEq] at found
    subst unit
    have inWin := (AddrArgs.mem_freeUnits.mp (AddrArgs.roundRobin_mem free idx)).1
    rw [← AddrArgs.Checked.unitsInWin_toNat] at inWin
    have start := AddrArgs.linAddr_unitStart valid inWin
    have spliced := (dmaAddrInit_ok done bound).2
    rw [linEq] at spliced
    refine ⟨⟨_, start, spliced⟩, ?_⟩
    intro below
    rw [(spliceChunk_toNat below spliced).2, start]
  · intro unit member
    obtain ⟨idx, bound, found⟩ := AddrArgs.exists_roundRobin member
    exact ⟨idx, by omega, found⟩
  · intro first second after near
    have different := AddrArgs.roundRobin_ne free after near
    refine ⟨different, ?_⟩
    intro aligned disjoint firstOff secondOff firstIn secondIn
    exact AddrArgs.freeUnits_lines valid aligned disjoint (AddrArgs.roundRobin_mem free first)
      (AddrArgs.roundRobin_mem free second) different firstIn secondIn

theorem dmaAddrInit_roundRobin_crossing :
    ∃ idx, idx < pciebenchAddrArraySz ∧ AddrArgs.crossingExample.roundRobin idx = 22 := by
  have free : 22 ∈ AddrArgs.crossingExample.freeUnits :=
    AddrArgs.mem_freeUnits.mpr (by decide)
  exact (dmaAddrInit_roundRobin 64 (backToBack 0x40000000) (fun _ => 0)
    AddrArgs.crossingExample
    { dmaAddrs := fun _ => 0, linAddrs := fun _ => 0, add := 0, reads := 0 }
    AddrArgs.crossingExample_valid rfl (Nat.le_refl 64)).2.2.1 22 free

end Pciebench
