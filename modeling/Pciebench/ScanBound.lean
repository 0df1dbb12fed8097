import Mathlib
import Pciebench.ChunkLog2
import Pciebench.SequentialScan

/-!
How long the inner loop of `dma_addr_init` runs when the units are taken in order, and how far
the sum `idx + add` gets in the whole run.
-/

namespace Pciebench

section Leaves

variable (rng : Nat → UInt32) (args : AddrArgs) (idx add : UInt32) (reads tries : Nat)

/-- The inner loop leaves after raising `add` `tries` times, and not in an earlier iteration. -/
structure LeavesAfter : Prop where
  leaves : ∃ pick, searchLinAddr rng args args.unitsInWin idx (tries + 1) add reads = .ok pick ∧
    pick.add = add + UInt32.ofNat tries
  stays : ∀ iterations, iterations ≤ tries →
    searchLinAddr rng args args.unitsInWin idx iterations add reads = .error .looping

end Leaves

variable {rng : Nat → UInt32} {args : AddrArgs} {shift : UInt32} {table : ChunkTable}
  {fuel idx : Nat} {add : UInt32} {position : Nat}

section Inner

variable (sequential : flagSet args.flags latFlagsRandom = false)
  (nonzero : args.unitsInWin ≠ 0)

include sequential nonzero

variable (rng) in
theorem searchLinAddr_stays (iterations reads : Nat) {idx add : UInt32}
    (start : (idx + add).toNat = position) (upper : position + iterations < 2 ^ 32)
    (crossing : ∀ earlier, position ≤ earlier → earlier < position + iterations →
      ¬ args.FitsAt earlier) :
    searchLinAddr rng args args.unitsInWin idx iterations add reads = .error .looping := by
  induction iterations generalizing add position with
  | zero => rfl
  | succ iterations ih =>
      have here : ¬ args.fits (UInt32.ofNat (position % args.unitsInWin.toNat)) = true :=
        crossing position (Nat.le_refl _) (by omega)
      have moved : (idx + (add + 1)).toNat = position + 1 := by
        have one : (1 : UInt32).toNat = 1 := rfl
        rw [← UInt32.add_assoc, UInt32.toNat_add, start, one]
        omega
      simp only [searchLinAddr_succ, sequential, Bool.false_eq_true, if_false, modU32_units nonzero,
        start, Outcome.ok_bind, here]
      exact ih moved (by omega) fun earlier after before => crossing earlier (by omega) (by omega)

variable (rng) in
theorem leavesAfter_hit (reads : Nat) {idx add : UInt32} {tries : Nat}
    (start : (idx + add).toNat = position) (upper : position + tries < 2 ^ 32)
    (hit : args.FitsAt (position + tries))
    (first : ∀ earlier, position ≤ earlier → earlier < position + tries →
      ¬ args.FitsAt earlier) :
    LeavesAfter rng args idx add reads tries where
  leaves := by
    obtain ⟨pick, found, sum, _⟩ := searchLinAddr_sequential rng sequential nonzero reads start
      (Nat.le_add_right position tries) upper (by omega : position + tries < position + (tries + 1))
      hit first
    refine ⟨pick, found, ?_⟩
    have raised : (idx + (add + UInt32.ofNat tries)).toNat = position + tries := by
      rw [← UInt32.add_assoc, UInt32.toNat_add, start, UInt32.toNat_ofNat']
      omega
    exact (UInt32.add_right_inj idx).mp (UInt32.toNat_inj.mp (sum.trans raised.symm))
  stays := fun iterations below =>
    searchLinAddr_stays rng sequential nonzero iterations reads start (by omega)
      fun earlier after before => first earlier after (by omega)

end Inner

/-- A position counts every entry written, so the sum that gave it did not wrap around. -/
theorem ScanState.sum_eq (scan : ScanState args idx add position)
    (inArray : idx < pciebenchAddrArraySz) : idx + add.toNat = position := by
  have counted : Nat.count args.FitsAt position ≤ position := Nat.count_le _
  have sum := scan.sum
  have bound := add.toNat_lt
  rw [scan.counted] at counted
  rw [pciebenchAddrArraySz_eq] at inArray
  rw [UInt32.toNat_add, UInt32.toNat_ofNat'] at sum
  omega

section Run

variable (valid : args.Valid) (sequential : flagSet args.flags latFlagsRandom = false)

include valid

variable (table) in
theorem spliceChunk_build (build : shift = 22 ∨ shift = log2ChunkSz) {linAddr : UInt32}
    (placed : args.Placed args.unitsInWin linAddr) :
    ∃ entry, spliceChunk shift table linAddr = .ok entry := by
  rcases build with rfl | rfl
  · exact spliceChunk_placed table valid _ placed
  · obtain ⟨unit, bound, fitting, rfl⟩ := placed
    have inWindow := valid.checked.fits_in_window bound fitting
    have inMem := valid.inMem
    have transPos := valid.transPos
    exact ⟨_, spliceChunk_folded table (by omega)⟩

include sequential

variable (rng) in
theorem leavesAfter_scan (reads : Nat) (scan : ScanState args idx add position)
    (inArray : idx < pciebenchAddrArraySz) :
    ∃ tries, tries < 64 ∧ LeavesAfter rng args (UInt32.ofNat idx) add reads tries ∧
      position + tries < 2 ^ 27 := by
  have low := scanState_position_le valid scan
  rw [pciebenchAddrArraySz_eq] at inArray
  obtain ⟨next, lower, near, hit, first⟩ :=
    PeriodicSearch.exists_first_hit (fitsAt_dense valid) position
  obtain ⟨tries, rfl⟩ := Nat.exists_eq_add_of_le lower
  refine ⟨tries, by omega, ?_, by omega⟩
  exact leavesAfter_hit rng sequential valid.checked.unitsInWin_ne_zero reads scan.sum (by omega)
    hit first

variable (rng table) in
/-- Every search of the run leaves within 64 iterations, and every sum `idx + add` on the way is
below `2 ^ 27`. -/
theorem dmaAddrInit_scanBound (build : shift = 22 ∨ shift = log2ChunkSz) (state : AddrState) :
    (∃ final, dmaAddrInit 64 shift table rng args state = .ok final) ∧
      ∀ idx, idx < pciebenchAddrArraySz → ∃ before,
        dmaAddrInitFrom 64 shift table rng args args.unitsInWin idx 0 { state with add := 0 } =
          .ok before ∧
        ∃ tries, tries < 64 ∧
          LeavesAfter rng args (UInt32.ofNat idx) before.add before.reads tries ∧
          ∀ raised, raised ≤ tries →
            (UInt32.ofNat idx + (before.add + UInt32.ofNat raised)).toNat =
                idx + before.add.toNat + raised ∧
              idx + before.add.toNat + raised < 2 ^ 27 := by
  have run (count : Nat) (inArray : count ≤ pciebenchAddrArraySz) :=
    dmaAddrInitFrom_sequential rng valid sequential (Nat.le_refl 64)
      (fun _ placed => spliceChunk_build table valid build placed) { state with add := 0 }
      ((Nat.zero_add count).le.trans inArray) (scanState_zero args)
  constructor
  · rw [dmaAddrInit_eq_from valid.checked.unitSz_ne_zero]
    obtain ⟨final, done, _⟩ := run pciebenchAddrArraySz (Nat.le_refl _)
    exact ⟨final, done⟩
  · intro idx inArray
    obtain ⟨before, done, _, ⟨position, scan⟩, _⟩ := run idx (Nat.le_of_lt inArray)
    rw [Nat.zero_add] at scan
    obtain ⟨tries, few, leaves, below⟩ :=
      leavesAfter_scan rng valid sequential before.reads scan inArray
    have sum := scan.sum_eq inArray
    refine ⟨before, done, tries, few, leaves, ?_⟩
    intro raised inTries
    rw [← UInt32.add_assoc, UInt32.toNat_add, scan.sum, UInt32.toNat_ofNat']
    omega

end Run

theorem dmaAddrInit_scanBound_crossing :
    ∃ (before : AddrState) (tries : Nat), tries < 64 ∧
      LeavesAfter (fun _ => 0) AddrArgs.crossingExample 21 before.add before.reads tries ∧
      21 + before.add.toNat < 2 ^ 27 := by
  obtain ⟨before, _, tries, few, leaves, sums⟩ :=
    (dmaAddrInit_scanBound (fun _ => 0) (backToBack 0x40000000) AddrArgs.crossingExample_valid rfl
      (.inl rfl) { dmaAddrs := fun _ => 0, linAddrs := fun _ => 0, add := 0, reads := 0 }).2
        21 (by decide)
  exact ⟨before, tries, few, leaves, (sums 0 (Nat.zero_le _)).2⟩

end Pciebench
