import Mathlib
import Pciebench.ChunkLog2
import Pciebench.LatencyTargets
import Pciebench.SequentialScan

/-!
Which host lines the latency tests hit, counted over the host addresses that their commands and
descriptors go to.
-/

namespace Pciebench

/-- The transactions that go to the host line of a line of the window. -/
def lineHits (table : ChunkTable) (targets : List Nat) (line : Nat) : Nat :=
  targets.countP fun target => target / 64 = hostAddr table (64 * line) / 64

def HitsTwice (table : ChunkTable) (winSz : UInt32) (targets : List Nat) : Prop :=
  ∀ line, line < winSz.toNat / 64 → 2 ≤ lineHits table targets line

/-- The lines of the window lie below a bound in the host's memory. -/
def ChunkTable.WindowBelow (table : ChunkTable) (winSz : UInt32) (bound : Nat) : Prop :=
  ∀ line, line < winSz.toNat / 64 → hostAddr table (64 * line) < bound

/-- The line of the window that the array entry of a line leads to. -/
def Chip.foldedLine (chip : Chip) (line : Nat) : Nat :=
  match chip with
  | .nfp3200 => line % (pciebenchChunkSz / 64)
  | .nfp6000 => line

/-- The windows of which a run of the default length covers every line: not the largest, on the
NFP-3200 no larger than a chunk, and within the reach of what the test sends. -/
structure Coverable (chip : Chip) (table : ChunkTable) (winSz : UInt32) (reach : Nat) : Prop where
  notLargest : winSz.toNat < pciebenchMaxMem
  oneChunk : chip = .nfp3200 → winSz.toNat ≤ pciebenchChunkSz
  reached : table.WindowBelow winSz reach

section Lines

variable {table : ChunkTable} (aligned : table.Aligned) (disjoint : table.Disjoint)

include aligned

theorem hostAddr_line_start {offset : Nat} (inLine : offset < 64) (line : Nat) :
    hostAddr table (line * 64 + offset) / 64 = hostAddr table (64 * line) / 64 := by
  have start := hostAddr_line aligned (line * 64 + offset)
  have start' : (line * 64 + offset) / 64 * 64 = 64 * line := by omega
  rw [start'] at start
  omega

include disjoint

theorem hostAddr_line_eq {first second : Nat} (firstBound : 64 * first < pciebenchMaxMem)
    (secondBound : 64 * second < pciebenchMaxMem) :
    hostAddr table (64 * first) / 64 = hostAddr table (64 * second) / 64 ↔ first = second := by
  constructor
  · intro sameLine
    have firstStart := hostAddr_line aligned (64 * first)
    have secondStart := hostAddr_line aligned (64 * second)
    rw [Nat.mul_div_cancel_left _ (by decide), Nat.mul_comm first] at firstStart
    rw [Nat.mul_div_cancel_left _ (by decide), Nat.mul_comm second] at secondStart
    have same := hostAddr_injective disjoint firstBound secondBound (by omega)
    omega
  · rintro rfl
    rfl

end Lines

section Folded

variable {chip : Chip} {line : Nat}

theorem Chip.foldedLine_le : chip.foldedLine line ≤ line := by
  cases chip with
  | nfp3200 => exact Nat.mod_le _ _
  | nfp6000 => exact Nat.le_refl _

theorem Chip.folded_line {offset : Nat} (inLine : offset < 64) :
    chip.folded (line * 64 + offset) = chip.foldedLine line * 64 + offset := by
  cases chip with
  | nfp3200 =>
      simp only [folded, foldedLine, pciebenchChunkSz_eq]
      omega
  | nfp6000 => rfl

theorem Coverable.foldedLine {table : ChunkTable} {winSz : UInt32} {reach : Nat}
    (coverable : Coverable chip table winSz reach) (inWindow : line < winSz.toNat / 64) :
    chip.foldedLine line = line := by
  cases chip with
  | nfp3200 =>
      have small := coverable.oneChunk rfl
      simp only [pciebenchChunkSz_eq] at small
      exact Nat.mod_eq_of_lt (by simp only [pciebenchChunkSz_eq]; omega)
  | nfp6000 => rfl

end Folded

theorem lineHits_latTargets (table : ChunkTable) (reach : Nat)
    (transactions : List (UInt32 × UInt32)) (line : Nat) :
    lineHits table (latTargets reach transactions) line = transactions.countP fun words =>
      (Words.join words.1 words.2).toNat % reach / 64 = hostAddr table (64 * line) / 64 := by
  rw [lineHits, latTargets, List.countP_map]
  rfl

section Hits

variable {chip : Chip} {table : ChunkTable} {division : Division} {fuel reach : Nat}
  {rng : Nat → UInt32} {args : AddrArgs} {state final : AddrState} (valid : args.Valid)
  (oneLine : args.transSz.toNat + args.hOff.toNat ≤ 64) (aligned : table.Aligned)
  (below : table.Below (2 ^ 56)) (disjoint : table.Disjoint)
  (done : division.dmaAddrInit fuel (chunkShift chip) table rng args state = .ok final)
  (lines : ∀ index, index < pciebenchAddrArraySz →
    (final.linAddrs index).toNat = index % (args.winSz.toNat / 64) * 64 + args.hOff.toNat)
  (wholeLines : reach % 64 = 0)

section Reached

variable (reached : table.WindowBelow args.winSz reach) {line : Nat}
  (inWindow : line < args.winSz.toNat / 64)

include valid oneLine aligned below disjoint done lines wholeLines reached inWindow

theorem journalWords_line {idx : Nat} (small : idx < 2 ^ 32) :
    (Words.join (journalWords final.dmaAddrs idx).1
        (journalWords final.dmaAddrs idx).2).toNat % reach / 64 =
          hostAddr table (64 * line) / 64 ↔
      chip.foldedLine (idx % pciebenchAddrArraySz % (args.winSz.toNat / 64)) = line := by
  have inMem := valid.inMem
  have transPos := valid.transPos
  have inArray : idx % pciebenchAddrArraySz < pciebenchAddrArraySz := Nat.mod_lt _ (by decide)
  have inLine : args.hOff.toNat < 64 := by omega
  have turn : idx % pciebenchAddrArraySz % (args.winSz.toNat / 64) < args.winSz.toNat / 64 :=
    Nat.mod_lt _ (Nat.zero_lt_of_lt inWindow)
  have index : (UInt32.ofNat idx).toNat = idx := by
    rw [UInt32.toNat_ofNat', Nat.mod_eq_of_lt small]
  have addr := dmaAddrFromIdx_folded below done (UInt32.ofNat idx)
  rw [index, lines _ inArray, Chip.folded_line inLine] at addr
  have addr := addr (by omega)
  have folded : chip.foldedLine (idx % pciebenchAddrArraySz % (args.winSz.toNat / 64)) ≤
      idx % pciebenchAddrArraySz % (args.winSz.toNat / 64) := Chip.foldedLine_le
  generalize chip.foldedLine (idx % pciebenchAddrArraySz % (args.winSz.toNat / 64)) = other at *
  have start := reached other (by omega)
  have sameLine := hostAddr_line_start aligned inLine other
  simp only [journalWords]
  rw [addr, Nat.mod_eq_of_lt (by omega), sameLine,
    hostAddr_line_eq aligned disjoint (by omega) (by omega)]

theorem two_le_lineHits (notLast : line + 1 < pciebenchAddrArraySz)
    (unfolded : chip.foldedLine line = line) :
    2 ≤ lineHits table (latTargets reach (latTransactions final.dmaAddrs pciebenchLatTrans))
      line := by
  have hit : ∀ {idx : Nat}, idx < 2 ^ 32 → idx % pciebenchAddrArraySz = line →
      (Words.join (journalWords final.dmaAddrs idx).1
        (journalWords final.dmaAddrs idx).2).toNat % reach / 64 =
          hostAddr table (64 * line) / 64 := by
    intro idx small turn
    rw [journalWords_line valid oneLine aligned below disjoint done lines wholeLines reached
      inWindow small, turn, Nat.mod_eq_of_lt inWindow]
    exact unfolded
  rw [lineHits_latTargets]
  simp only [pciebenchAddrArraySz_eq] at notLast hit
  have apart : line ≠ 1048576 + line := by omega
  refine LaggedLoop.two_le_countP_shown apart ?_ ?_ (hit ?_ ?_) (hit ?_ ?_)
  · rw [pciebenchLatTrans_eq]
    omega
  · rw [pciebenchLatTrans_eq]
    omega
  all_goals omega

/-- The last line of the whole buffer is hit by the index before the end of the array, and would
be hit again by the index at which the loop ends. -/
theorem lineHits_last (last : line + 1 = pciebenchAddrArraySz) (nfp6000 : chip = .nfp6000) :
    lineHits table (latTargets reach (latTransactions final.dmaAddrs pciebenchLatTrans)) line ≤
      1 := by
  have inMem := valid.inMem
  have hit : ∀ {idx : Nat}, idx < 2 ^ 32 →
      (Words.join (journalWords final.dmaAddrs idx).1
        (journalWords final.dmaAddrs idx).2).toNat % reach / 64 =
          hostAddr table (64 * line) / 64 →
      idx % pciebenchAddrArraySz = line := by
    subst nfp6000
    intro idx small found
    rw [journalWords_line valid oneLine aligned below disjoint done lines wholeLines reached
      inWindow small, Chip.foldedLine] at found
    have whole : args.winSz.toNat / 64 = pciebenchAddrArraySz := by
      simp only [pciebenchAddrArraySz_eq, pciebenchMaxMem_eq] at *
      omega
    rw [whole, Nat.mod_mod] at found
    exact found
  simp only [pciebenchAddrArraySz_eq] at last hit
  have missed : ¬ (Words.join (journalWords final.dmaAddrs 0).1
      (journalWords final.dmaAddrs 0).2).toNat % reach / 64 =
        hostAddr table (64 * line) / 64 := by
    intro found
    have first := hit (by decide) found
    omega
  have only : ∀ other, other + 1 < pciebenchLatTrans →
      (Words.join (journalWords final.dmaAddrs other).1
        (journalWords final.dmaAddrs other).2).toNat % reach / 64 =
          hostAddr table (64 * line) / 64 →
      other = line := by
    intro other bound found
    rw [pciebenchLatTrans_eq] at bound
    have turn := hit (by omega) found
    omega
  rw [lineHits_latTargets]
  exact LaggedLoop.countP_shown_le_one missed only

theorem lineHits_folded (folded : ∀ other, chip.foldedLine other ≠ line) :
    lineHits table (latTargets reach (latTransactions final.dmaAddrs pciebenchLatTrans)) line =
      0 := by
  rw [lineHits_latTargets, latTransactions, LaggedLoop.shown_start, List.countP_map,
    List.countP_eq_zero]
  intro position early found
  have bound := List.mem_range.mp early
  rw [pciebenchLatTrans_eq] at bound
  have small : position - 1 < 2 ^ 32 := by omega
  have turn := (journalWords_line valid oneLine aligned below disjoint done lines wholeLines reached
    inWindow small).mp (of_decide_eq_true found)
  exact folded _ turn

end Reached

include wholeLines in
theorem lineHits_beyond (positive : 0 < reach) {line : Nat}
    (beyond : reach ≤ hostAddr table (64 * line)) (transactions : List (UInt32 × UInt32)) :
    lineHits table (latTargets reach transactions) line = 0 := by
  rw [lineHits_latTargets, List.countP_eq_zero]
  intro words _ found
  have cut := Nat.mod_lt (Words.join words.1 words.2).toNat positive
  have sameLine := of_decide_eq_true found
  omega

include valid oneLine aligned below disjoint done lines wholeLines

theorem hitsTwice_coverable (coverable : Coverable chip table args.winSz reach) :
    HitsTwice table args.winSz
      (latTargets reach (latTransactions final.dmaAddrs pciebenchLatTrans)) := by
  have small := coverable.notLargest
  intro line inWindow
  refine two_le_lineHits valid oneLine aligned below disjoint done lines wholeLines
    coverable.reached inWindow ?_ (coverable.foldedLine inWindow)
  simp only [pciebenchAddrArraySz_eq, pciebenchMaxMem_eq] at *
  omega

theorem hitsTwice_iff (positive : 0 < reach) :
    HitsTwice table args.winSz
        (latTargets reach (latTransactions final.dmaAddrs pciebenchLatTrans)) ↔
      Coverable chip table args.winSz reach := by
  have inMem := valid.inMem
  refine ⟨?_, hitsTwice_coverable valid oneLine aligned below disjoint done lines wholeLines⟩
  intro twice
  have reached : table.WindowBelow args.winSz reach := by
    intro line inWindow
    by_contra beyond
    have none := lineHits_beyond wholeLines positive (not_lt.mp beyond)
      (latTransactions final.dmaAddrs pciebenchLatTrans)
    have hits := twice line inWindow
    omega
  have oneChunk : chip = .nfp3200 → args.winSz.toNat ≤ pciebenchChunkSz := by
    rintro rfl
    by_contra larger
    have inWindow : pciebenchChunkSz / 64 < args.winSz.toNat / 64 := by
      have whole := valid.aligned
      simp only [pciebenchChunkSz_eq] at *
      omega
    have none := lineHits_folded valid oneLine aligned below disjoint done lines wholeLines reached
      inWindow fun other => (Nat.mod_lt other (by decide)).ne
    have hits := twice _ inWindow
    omega
  refine ⟨?_, oneChunk, reached⟩
  cases chip with
  | nfp3200 => exact (oneChunk rfl).trans_lt (by decide)
  | nfp6000 =>
      by_contra large
      have inWindow : pciebenchAddrArraySz - 1 < args.winSz.toNat / 64 := by
        simp only [pciebenchAddrArraySz_eq, pciebenchMaxMem_eq] at *
        omega
      have last := lineHits_last valid oneLine aligned below disjoint done lines wholeLines reached
        inWindow (by decide) rfl
      have hits := twice _ inWindow
      omega

end Hits

theorem latTargets_length (reach : Nat) (dmaAddrs : Nat → UInt64) (count : Nat) :
    (latTargets reach (latTransactions dmaAddrs count)).length = count := by
  rw [latTargets, List.length_map, latTransactions, LaggedLoop.shown_start, List.length_map,
    List.length_range]

theorem ChunkTable.Below.window {table : ChunkTable} {bound : Nat} (below : table.Below bound)
    (winSz : UInt32) : table.WindowBelow winSz bound :=
  fun line _ => hostAddr_lt below (64 * line)

section Tests

variable {chip : Chip} {fuel : Nat} {table : ChunkTable} {rng : Nat → UInt32} {params : TestParams}
  {test : PciebenchTest} {nfp : NfpState}
  (valid : params.addrArgs.Valid) (oneLine : params.p1.toNat + params.p3.toNat ≤ 64)
  (short : flagSet params.p0 latFlagsLong = false)
  (aligned : table.Aligned) (below : table.Below (2 ^ 56)) (disjoint : table.Disjoint)

variable (chip) in
theorem flaggedRegions_chunkShift (inMem : params.p2.toNat ≤ pciebenchMaxMem) :
    ∀ region ∈ flaggedRegions params.addrArgs, region.InTable (chunkShift chip) := by
  intro region member
  rcases mem_flaggedRegions member with rfl | ⟨_, rfl⟩
  · exact shiftInTable_chunkShift chip (by decide)
  · exact shiftInTable_chunkShift chip inMem

include valid oneLine

variable (chip table rng nfp) in
theorem dmaAddrInit_chunkShift (sequential : flagSet params.p0 latFlagsRandom = false)
    (enough : 64 ≤ fuel) :
    ∃ addrs, chip.division.dmaAddrInit fuel (chunkShift chip) table rng params.addrArgs nfp.addrs =
        .ok addrs ∧
      ∀ index, index < pciebenchAddrArraySz → (addrs.linAddrs index).toNat =
        index % (params.p2.toNat / 64) * 64 + params.p3.toNat := by
  obtain ⟨addrs, initialised, _, lines⟩ := dmaAddrInit_lines table rng valid oneLine sequential
    enough (fun _ placed => spliceChunk_chunkShift chip table (placed_inMem valid placed)) nfp.addrs
  exact ⟨addrs, chip.dmaAddrInit_of_ok initialised, lines⟩

include short aligned below disjoint

theorem cmdLat_hits (single : table.SingleBar) {addrs : AddrState}
    (filled : chip.division.dmaAddrInit fuel (chunkShift chip) table rng params.addrArgs nfp.addrs =
      .ok addrs)
    (lines : ∀ index, index < pciebenchAddrArraySz → (addrs.linAddrs index).toNat =
      index % (params.p2.toNat / 64) * 64 + params.p3.toNat)
    (supported : test = .latCmdRd ∨ test = .latCmdWrrd) :
    ∃ run targets, cmdLat chip fuel (chunkShift chip) table rng test params nfp = .ok run ∧
      run.result = .ok (UInt32.ofNat pciebenchLatTrans) ∧
      run.Reaches chip fuel (chunkShift chip) table rng test params nfp targets ∧
      targets.length = pciebenchLatTrans ∧
      (HitsTwice table params.p2 targets ↔ Coverable chip table params.p2 chip.reach) := by
  obtain ⟨run, done⟩ :=
    cmdLat_total chip rng test (flaggedRegions_chunkShift chip valid.inMem) filled
  obtain ⟨_, before, _, _, result, _⟩ := cmdLat_ok valid.accepted done
  have reaches := cmdLat_reaches valid.accepted filled single below supported done
  have wholeLines : chip.reach % 64 = 0 := by cases chip <;> decide
  have positive : 0 < chip.reach := by cases chip <;> decide
  rw [latMaxTrans, short] at result reaches
  refine ⟨run, _, done, ?_, reaches, latTargets_length _ _ _,
    hitsTwice_iff valid oneLine aligned below disjoint filled lines wholeLines positive⟩
  obtain ⟨_, loopResult⟩ := cmdLatFrom_journal supported pciebenchLatTrans 0
    (cmdLatStart chip _ before.pcie)
  rw [Nat.zero_add] at loopResult
  exact result.trans loopResult

theorem dmaLat_hits (context : DmaContext) {addrs : AddrState}
    (filled : chip.division.dmaAddrInit fuel (chunkShift chip) table rng params.addrArgs nfp.addrs =
      .ok addrs)
    (lines : ∀ index, index < pciebenchAddrArraySz → (addrs.linAddrs index).toNat =
      index % (params.p2.toNat / 64) * 64 + params.p3.toNat)
    (supported : test = .latDmaRd ∨ test = .latDmaWrrd) :
    ∃ run targets, dmaLat chip fuel (chunkShift chip) table rng context test params nfp = .ok run ∧
      run.result = .ok (UInt32.ofNat pciebenchLatTrans) ∧
      run.Reaches chip test targets ∧ targets.length = pciebenchLatTrans ∧
      (HitsTwice table params.p2 targets ↔ Coverable chip table params.p2 (2 ^ 40)) := by
  obtain ⟨run, done⟩ :=
    dmaLat_total chip rng context test (flaggedRegions_chunkShift chip valid.inMem) filled
  obtain ⟨_, _, _, _, result, _⟩ := dmaLat_ok valid.accepted done
  have reaches := dmaLat_reaches valid.accepted filled supported done
  rw [latMaxTrans, short] at result reaches
  refine ⟨run, _, done, ?_, reaches, latTargets_length _ _ _,
    hitsTwice_iff valid oneLine aligned below disjoint filled lines (by decide) (by decide)⟩
  obtain ⟨_, loopResult⟩ := dmaLatFrom_journal supported pciebenchLatTrans 0 (dmaLatStart _)
  rw [Nat.zero_add] at loopResult
  exact result.trans loopResult

end Tests

/-- A latency test with `LAT_FLAGS_LONG` clear sends at least two transactions to every line of
exactly those windows that it can cover. -/
theorem latTests_coverage (chip : Chip) (fuel : Nat) (table : ChunkTable) (rng : Nat → UInt32)
    (context : DmaContext) (params : TestParams) (nfp : NfpState)
    (valid : params.addrArgs.Valid) (oneLine : params.p1.toNat + params.p3.toNat ≤ 64)
    (sequential : flagSet params.p0 latFlagsRandom = false)
    (short : flagSet params.p0 latFlagsLong = false) (enough : 64 ≤ fuel)
    (aligned : table.Aligned) (single : table.SingleBar) (below : table.Below (2 ^ 56))
    (disjoint : table.Disjoint) :
    (∀ test, test = .latCmdRd ∨ test = .latCmdWrrd →
      ∃ run targets, cmdLat chip fuel (chunkShift chip) table rng test params nfp = .ok run ∧
        run.result = .ok (UInt32.ofNat pciebenchLatTrans) ∧
        run.Reaches chip fuel (chunkShift chip) table rng test params nfp targets ∧
        targets.length = pciebenchLatTrans ∧
        (HitsTwice table params.p2 targets ↔ Coverable chip table params.p2 chip.reach)) ∧
    ∀ test, test = .latDmaRd ∨ test = .latDmaWrrd →
      ∃ run targets, dmaLat chip fuel (chunkShift chip) table rng context test params nfp =
          .ok run ∧
        run.result = .ok (UInt32.ofNat pciebenchLatTrans) ∧
        run.Reaches chip test targets ∧ targets.length = pciebenchLatTrans ∧
        (HitsTwice table params.p2 targets ↔ Coverable chip table params.p2 (2 ^ 40)) := by
  obtain ⟨addrs, filled, lines⟩ :=
    dmaAddrInit_chunkShift chip table rng nfp valid oneLine sequential enough
  constructor
  · intro test supported
    exact cmdLat_hits valid oneLine short aligned below disjoint single filled lines supported
  · intro test supported
    exact dmaLat_hits valid oneLine short aligned below disjoint context filled lines supported

def lineParams (winSz : UInt32) : TestParams where
  p0 := 0
  p1 := 64
  p2 := winSz
  p3 := 0
  p4 := 0

def idleNfp : NfpState where
  pcie := { bars := fun _ => 0, accesses := [] }
  addrs := { dmaAddrs := fun _ => 0, linAddrs := fun _ => 0, add := 0, reads := 0 }

theorem latTests_coverage_half :
    ∃ run targets, dmaLat .nfp6000 64 (chunkShift .nfp6000) (backToBack 0x40000000) (fun _ => 0)
        ⟨0, 0, 5, 0, 0⟩ .latDmaRd (lineParams 0x2000000) idleNfp = .ok run ∧
      DmaLatRun.Reaches .nfp6000 .latDmaRd targets run ∧
      HitsTwice (backToBack 0x40000000) 0x2000000 targets := by
  have room : (0x40000000 : UInt64).toNat + pciebenchMaxMem < 2 ^ 64 := by decide
  have valid : (lineParams 0x2000000).addrArgs.Valid := by
    constructor <;> decide
  have low : (backToBack 0x40000000).Below (2 ^ 40) := backToBack_below room (by decide)
  obtain ⟨run, targets, done, _, reaches, _, hits⟩ := (latTests_coverage .nfp6000 64
    (backToBack 0x40000000) (fun _ => 0) ⟨0, 0, 5, 0, 0⟩ (lineParams 0x2000000) idleNfp valid
    (by decide) rfl rfl (Nat.le_refl 64) (backToBack_aligned room (by decide))
    (backToBack_singleBar room rfl) (backToBack_below room (by decide))
    (backToBack_disjoint room)).2 .latDmaRd (.inl rfl)
  have other : Chip.nfp6000 ≠ .nfp3200 := by decide
  exact ⟨run, targets, done, reaches,
    hits.mpr ⟨by decide, fun same => absurd same other, low.window _⟩⟩

theorem latTests_coverage_largest :
    (∃ run targets, cmdLat .nfp6000 64 (chunkShift .nfp6000) (backToBack 0x40000000) (fun _ => 0)
        .latCmdRd (lineParams 0x4000000) idleNfp = .ok run ∧
      run.Reaches .nfp6000 64 (chunkShift .nfp6000) (backToBack 0x40000000) (fun _ => 0) .latCmdRd
        (lineParams 0x4000000) idleNfp targets ∧
      ¬ HitsTwice (backToBack 0x40000000) 0x4000000 targets) ∧
    ∃ run targets, dmaLat .nfp6000 64 (chunkShift .nfp6000) (backToBack 0x40000000) (fun _ => 0)
        ⟨0, 0, 5, 0, 0⟩ .latDmaRd (lineParams 0x4000000) idleNfp = .ok run ∧
      DmaLatRun.Reaches .nfp6000 .latDmaRd targets run ∧
      ¬ HitsTwice (backToBack 0x40000000) 0x4000000 targets := by
  have room : (0x40000000 : UInt64).toNat + pciebenchMaxMem < 2 ^ 64 := by decide
  have valid : (lineParams 0x4000000).addrArgs.Valid := by
    constructor <;> decide
  have aligned := backToBack_aligned room (by decide)
  have below : (backToBack 0x40000000).Below (2 ^ 56) := backToBack_below room (by decide)
  have disjoint := backToBack_disjoint room
  have large : ¬ (0x4000000 : UInt32).toNat < pciebenchMaxMem := by decide
  obtain ⟨addrs, filled, lines⟩ := dmaAddrInit_chunkShift .nfp6000 (backToBack 0x40000000)
    (fun _ => 0) idleNfp valid (by decide) rfl (Nat.le_refl 64)
  constructor
  · obtain ⟨run, targets, done, _, reaches, _, hits⟩ := cmdLat_hits valid (by decide) rfl aligned
      below disjoint (backToBack_singleBar room rfl) filled lines (.inl rfl)
    exact ⟨run, targets, done, reaches, fun twice => large (hits.mp twice).notLargest⟩
  · obtain ⟨run, targets, done, _, reaches, _, hits⟩ := dmaLat_hits valid (by decide) rfl aligned
      below disjoint ⟨0, 0, 5, 0, 0⟩ filled lines (.inl rfl)
    exact ⟨run, targets, done, reaches, fun twice => large (hits.mp twice).notLargest⟩

end Pciebench
