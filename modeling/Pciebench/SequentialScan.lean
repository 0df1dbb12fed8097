import Mathlib
import Pciebench.HostMap
import Pciebench.Placement
import Pciebench.Lib.PeriodicSearch

/-!
Sequential runs of `dma_addr_init`. The sum `idx + add` scans the natural numbers, and the
entry with index `idx` takes the first of them with `idx` fitting ones below it.
-/

namespace Pciebench

namespace AddrArgs

def FitsUnit (args : AddrArgs) (unit : Nat) : Prop :=
  args.fits (UInt32.ofNat unit) = true

instance (args : AddrArgs) : DecidablePred args.FitsUnit :=
  fun unit => inferInstanceAs (Decidable (args.fits (UInt32.ofNat unit) = true))

/-- The sum `idx + add` selects a unit that fits. -/
abbrev FitsAt (args : AddrArgs) : Nat → Prop :=
  PeriodicSearch.Hit args.FitsUnit args.unitsInWin.toNat

def fittingUnits (args : AddrArgs) : List Nat :=
  PeriodicSearch.residues args.FitsUnit args.unitsInWin.toNat

end AddrArgs

variable {fuel : Nat} {shift : UInt32} {table : ChunkTable} {rng : Nat → UInt32} {args : AddrArgs}

theorem unit_ofNat_toNat {args : AddrArgs} {unit : Nat} (bound : unit < args.unitsInWin.toNat) :
    (UInt32.ofNat unit).toNat = unit := by
  have small := args.unitsInWin.toNat_lt
  rw [UInt32.toNat_ofNat']
  omega

/-- The scan stands at `position`, with one fitting position below it for each entry written. -/
structure ScanState (args : AddrArgs) (idx : Nat) (add : UInt32) (position : Nat) : Prop where
  sum : (UInt32.ofNat idx + add).toNat = position
  counted : Nat.count args.FitsAt position = idx

theorem scanState_zero (args : AddrArgs) : ScanState args 0 0 0 where
  sum := rfl
  counted := Nat.count_zero _

theorem modU32_units (nonzero : args.unitsInWin ≠ 0) (trans : UInt32) :
    modU32 trans args.unitsInWin =
      .ok (UInt32.ofNat (trans.toNat % args.unitsInWin.toNat)) := by
  rw [modU32, if_neg nonzero]
  congr 1
  apply UInt32.toNat_inj.mp
  have bound : trans.toNat % args.unitsInWin.toNat < 2 ^ 32 :=
    Nat.lt_of_le_of_lt (Nat.mod_le _ _) trans.toNat_lt
  rw [UInt32.toNat_mod, UInt32.toNat_ofNat', Nat.mod_eq_of_lt bound]

section Sequential

variable (sequential : flagSet args.flags latFlagsRandom = false)
  (nonzero : args.unitsInWin ≠ 0)

include sequential nonzero

variable (rng) in
theorem searchLinAddr_sequential (reads : Nat) {idx add : UInt32} {position next : Nat}
    (start : (idx + add).toNat = position) (lower : position ≤ next) (upper : next < 2 ^ 32)
    (enough : next < position + fuel) (hit : args.FitsAt next)
    (first : ∀ earlier, position ≤ earlier → earlier < next → ¬ args.FitsAt earlier) :
    ∃ pick, searchLinAddr rng args args.unitsInWin idx fuel add reads = .ok pick ∧
      (idx + pick.add).toNat = next ∧ pick.reads = reads ∧
      pick.linAddr = args.linAddr (UInt32.ofNat (next % args.unitsInWin.toNat)) := by
  induction fuel generalizing add position with
  | zero => omega
  | succ fuel ih =>
      simp only [searchLinAddr_succ, sequential, Bool.false_eq_true, if_false, modU32_units nonzero,
        start, Outcome.ok_bind]
      by_cases here : position = next
      · subst next
        have fitting : args.fits (UInt32.ofNat (position % args.unitsInWin.toNat)) = true := hit
        simp only [fitting, if_true]
        exact ⟨_, rfl, start, rfl, rfl⟩
      · have crossing : ¬ args.fits (UInt32.ofNat (position % args.unitsInWin.toNat)) = true :=
          first position (Nat.le_refl _) (by omega)
        simp only [crossing, Bool.false_eq_true, if_false]
        have moved : (idx + (add + 1)).toNat = position + 1 := by
          have one : (1 : UInt32).toNat = 1 := rfl
          rw [← UInt32.add_assoc, UInt32.toNat_add, start, one]
          omega
        exact ih moved (by omega) (by omega) fun earlier after => first earlier (by omega)

variable (rng) in
theorem searchLinAddr_scan (fuel reads : Nat) {idx : Nat} {add : UInt32} {position next : Nat}
    (scan : ScanState args idx add position)
    (lower : position ≤ next) (upper : next + 1 < 2 ^ 32) (enough : next < position + fuel)
    (hit : args.FitsAt next)
    (first : ∀ earlier, position ≤ earlier → earlier < next → ¬ args.FitsAt earlier) :
    ∃ pick, searchLinAddr rng args args.unitsInWin (UInt32.ofNat idx) fuel add reads = .ok pick ∧
      ScanState args (idx + 1) pick.add (next + 1) ∧ Nat.count args.FitsAt next = idx ∧
      pick.reads = reads ∧
      pick.linAddr = args.linAddr (UInt32.ofNat (next % args.unitsInWin.toNat)) := by
  obtain ⟨pick, found, sum, kept, linEq⟩ := searchLinAddr_sequential rng sequential nonzero
    reads scan.sum lower (by omega) enough hit first
  have counted : Nat.count args.FitsAt next = idx := by
    rw [PeriodicSearch.count_of_no_hit lower first, scan.counted]
  refine ⟨pick, found, ⟨?_, ?_⟩, counted, kept, linEq⟩
  · have one : (1 : UInt32).toNat = 1 := rfl
    rw [UInt32.ofNat_add, UInt32.add_assoc, UInt32.add_comm (UInt32.ofNat 1), ← UInt32.add_assoc,
      UInt32.toNat_add, sum]
    change (next + 1) % 2 ^ 32 = next + 1
    omega
  · rw [Nat.count_succ, if_pos hit, counted]

end Sequential

section Valid

variable (valid : args.Valid)

include valid

/-- Of 64 positions in a row at least one fits: the units that start a page are 64 apart, and
so is the wrap of the window from the last of them. -/
theorem fitsAt_dense (position : Nat) :
    ∃ next, position ≤ next ∧ next < position + 64 ∧ args.FitsAt next := by
  have positive := valid.checked.unitsInWin_pos
  have fitsResidue : ∀ residue, residue < args.unitsInWin.toNat → residue % 64 = 0 →
      args.FitsUnit residue := by
    intro residue bound page
    apply valid.fits_of_mod
    · rw [UInt32.lt_iff_toNat_lt, unit_ofNat_toNat bound]
      exact bound
    · rw [unit_ofNat_toNat bound]
      exact page
  have bound : position % args.unitsInWin.toNat < args.unitsInWin.toNat := Nat.mod_lt _ positive
  have split := Nat.div_add_mod position args.unitsInWin.toNat
  generalize residueEq : position % args.unitsInWin.toNat = residue at bound split
  generalize position / args.unitsInWin.toNat = rounds at split
  have moved : ∀ offset, (position + offset) % args.unitsInWin.toNat =
      (residue + offset) % args.unitsInWin.toNat := by
    intro offset
    rw [← split, Nat.add_assoc, Nat.mul_add_mod]
  -- Every 64th unit starts a page; past the last of them the window wraps to unit 0.
  by_cases inside : (residue + 63) / 64 * 64 < args.unitsInWin.toNat
  · refine ⟨position + ((residue + 63) / 64 * 64 - residue), by omega, by omega, ?_⟩
    have target : residue + ((residue + 63) / 64 * 64 - residue) = (residue + 63) / 64 * 64 := by
      omega
    rw [AddrArgs.FitsAt, PeriodicSearch.Hit, moved, target, Nat.mod_eq_of_lt inside]
    exact fitsResidue _ inside (by omega)
  · refine ⟨position + (args.unitsInWin.toNat - residue), by omega, by omega, ?_⟩
    have target : residue + (args.unitsInWin.toNat - residue) = args.unitsInWin.toNat := by omega
    rw [AddrArgs.FitsAt, PeriodicSearch.Hit, moved, target, Nat.mod_self]
    exact fitsResidue 0 positive rfl

theorem scanState_position_le {idx : Nat} {add : UInt32} {position : Nat}
    (scan : ScanState args idx add position) : position ≤ 64 * (idx + 1) := by
  have bound := PeriodicSearch.position_le (fitsAt_dense valid) position
  rwa [scan.counted] at bound

theorem fittingUnits_length_pos : 1 ≤ args.fittingUnits.length := by
  have member : 0 ∈ args.fittingUnits := by
    rw [AddrArgs.fittingUnits, PeriodicSearch.mem_residues]
    have positive := valid.checked.unitsInWin_pos
    have first : args.FitsUnit 0 := by
      apply valid.fits_of_mod
      · rw [UInt32.lt_iff_toNat_lt, unit_ofNat_toNat positive]
        exact positive
      · rfl
    exact ⟨positive, first⟩
  exact List.length_pos_of_mem member

theorem fittingUnits_length_le : args.fittingUnits.length ≤ pciebenchAddrArraySz := by
  have units := valid.unitsInWin_le
  have filtered : args.fittingUnits.length ≤ (List.range args.unitsInWin.toNat).length :=
    List.length_filter_le _ _
  rw [List.length_range] at filtered
  omega

variable (sequential : flagSet args.flags latFlagsRandom = false)
  (enough : 64 ≤ fuel)
  (splices : ∀ linAddr, args.Placed args.unitsInWin linAddr →
    ∃ entry, spliceChunk shift table linAddr = .ok entry)

include sequential enough splices

variable (rng) in
theorem dmaAddrInitFrom_sequential (state : AddrState) {count idx position : Nat}
    (inArray : idx + count ≤ pciebenchAddrArraySz)
    (scan : ScanState args idx state.add position) :
    ∃ final, dmaAddrInitFrom fuel shift table rng args args.unitsInWin count idx state =
        .ok final ∧
      final.reads = state.reads ∧
      (∃ last, ScanState args (idx + count) final.add last) ∧
      ∀ index, idx ≤ index → index < idx + count →
        ∃ unit, args.fittingUnits[index % args.fittingUnits.length]? = some unit ∧
          final.linAddrs index = args.linAddr (UInt32.ofNat unit) := by
  induction count generalizing idx position state with
  | zero => exact ⟨state, rfl, rfl, ⟨position, scan⟩, fun _ lower upper => by omega⟩
  | succ count ih =>
      have nonzero := valid.checked.unitsInWin_ne_zero
      have low := scanState_position_le valid scan
      obtain ⟨next, lower, near, hit, first⟩ :=
        PeriodicSearch.exists_first_hit (fitsAt_dense valid) position
      simp only [pciebenchAddrArraySz_eq] at inArray
      obtain ⟨pick, found, nextScan, counted, kept, linEq⟩ := searchLinAddr_scan rng sequential
        nonzero fuel state.reads scan lower (by omega) (by omega) hit first
      obtain ⟨entry, spliced⟩ := splices _ (searchLinAddr_ok found)
      have here := PeriodicSearch.hit_residue valid.checked.unitsInWin_pos hit
      rw [counted] at here
      have nextInArray : idx + 1 + count ≤ pciebenchAddrArraySz := by
        simp only [pciebenchAddrArraySz_eq]
        omega
      obtain ⟨final, done, reads, ⟨last, lastScan⟩, later⟩ :=
        ih (state.store idx pick entry) nextInArray nextScan
      refine ⟨final, ?_, reads.trans kept, ⟨last, ?_⟩, ?_⟩
      · simp only [dmaAddrInitFrom_succ, found, spliced, Outcome.ok_bind]
        exact done
      · rwa [Nat.add_right_comm, Nat.add_assoc] at lastScan
      · intro index indexLower indexUpper
        by_cases current : index = idx
        · subst index
          obtain ⟨_, linKept⟩ := (dmaAddrInitFrom_ok done).1 idx (by omega)
          refine ⟨_, here, ?_⟩
          rw [linKept, ← linEq]
          simp [AddrState.store]
        · exact later index (by omega) (by omega)

end Valid

theorem placed_inMem (valid : args.Valid) {linAddr : UInt32}
    (placed : args.Placed args.unitsInWin linAddr) : linAddr.toNat < pciebenchMaxMem := by
  obtain ⟨unit, bound, fitting, rfl⟩ := placed
  have inWindow := valid.checked.fits_in_window bound fitting
  have inMem := valid.inMem
  have transPos := valid.transPos
  omega

variable (table) in
theorem spliceChunk_placed (valid : args.Valid) (linAddr : UInt32)
    (placed : args.Placed args.unitsInWin linAddr) :
    ∃ entry, spliceChunk 22 table linAddr = .ok entry :=
  spliceChunk_eq_ok (placed_inMem valid placed)

variable (table rng) in
/-- Without `LAT_FLAGS_RANDOM` 64 iterations of the inner loop are always enough. -/
theorem dmaAddrInit_sequential (valid : args.Valid)
    (sequential : flagSet args.flags latFlagsRandom = false) (enough : 64 ≤ fuel)
    (splices : ∀ linAddr, args.Placed args.unitsInWin linAddr →
      ∃ entry, spliceChunk shift table linAddr = .ok entry) (state : AddrState) :
    ∃ final, dmaAddrInit fuel shift table rng args state = .ok final ∧
      final.reads = state.reads ∧
      ∀ index, index < pciebenchAddrArraySz →
        ∃ unit, args.fittingUnits[index % args.fittingUnits.length]? = some unit ∧
          final.linAddrs index = args.linAddr (UInt32.ofNat unit) := by
  rw [dmaAddrInit_eq_from valid.checked.unitSz_ne_zero]
  obtain ⟨final, done, reads, _, entries⟩ := dmaAddrInitFrom_sequential rng valid sequential
    enough splices { state with add := 0 }
    (Nat.le_of_eq (Nat.zero_add _)) (scanState_zero args)
  exact ⟨final, done, reads, fun index bound => entries index (Nat.zero_le _) (by omega)⟩

section Lines

variable (valid : args.Valid) (line : args.transSz.toNat + args.hOff.toNat ≤ 64)

include valid line

theorem unitSz_line : args.unitSz.toNat = 64 := by
  have spanEq := valid.span_eq
  have transPos := valid.transPos
  rw [valid.checked.unitSz_toNat]
  omega

theorem unitsInWin_line : args.unitsInWin.toNat = args.winSz.toNat / 64 := by
  rw [AddrArgs.Checked.unitsInWin_toNat, unitSz_line valid line]

theorem fittingUnits_line : args.fittingUnits = List.range (args.winSz.toNat / 64) := by
  rw [AddrArgs.fittingUnits, PeriodicSearch.residues, unitsInWin_line valid line,
    List.filter_eq_self]
  intro unit member
  have bound : unit < args.unitsInWin.toNat := by
    rw [unitsInWin_line valid line]
    exact List.mem_range.mp member
  have inRange : UInt32.ofNat unit < args.unitsInWin := by
    rw [UInt32.lt_iff_toNat_lt, unit_ofNat_toNat bound]
    exact bound
  rw [decide_eq_true_eq, AddrArgs.FitsUnit, args.fits_iff, valid.linAddr_toNat inRange,
    unit_ofNat_toNat bound, unitSz_line valid line]
  omega

variable (table rng) in
theorem dmaAddrInit_lines (sequential : flagSet args.flags latFlagsRandom = false)
    (enough : 64 ≤ fuel)
    (splices : ∀ linAddr, args.Placed args.unitsInWin linAddr →
      ∃ entry, spliceChunk shift table linAddr = .ok entry) (state : AddrState) :
    ∃ final, dmaAddrInit fuel shift table rng args state = .ok final ∧
      final.reads = state.reads ∧
      ∀ index, index < pciebenchAddrArraySz →
        (final.linAddrs index).toNat =
          index % (args.winSz.toNat / 64) * 64 + args.hOff.toNat := by
  obtain ⟨final, done, reads, entries⟩ :=
    dmaAddrInit_sequential table rng valid sequential enough splices state
  refine ⟨final, done, reads, ?_⟩
  intro index bound
  obtain ⟨unit, found, linEq⟩ := entries index bound
  rw [fittingUnits_line valid line, List.length_range] at found
  obtain ⟨inRange, unitEq⟩ := List.getElem?_eq_some_iff.mp found
  rw [List.length_range] at inRange
  rw [List.getElem_range] at unitEq
  subst unit
  rw [← unitsInWin_line valid line] at inRange linEq ⊢
  have inWindow : UInt32.ofNat (index % args.unitsInWin.toNat) < args.unitsInWin := by
    rw [UInt32.lt_iff_toNat_lt, unit_ofNat_toNat inRange]
    exact inRange
  rw [linEq, valid.linAddr_toNat inWindow, unit_ofNat_toNat inRange, unitSz_line valid line]

end Lines

end Pciebench
