import Mathlib
import Pciebench.LatencyTiming
import Pciebench.Lib.CellRing

/-!
What is found in `debug_journal` after a latency test: the address words of its last
transactions, the same ones for a PCIe command test and a DMA test.
-/

namespace Pciebench

def pciebenchDbgJournalSz : Nat := 16 * 1024 * 1024

/-- The words in the order in which a test journals them. -/
def debugWords (debugJournal : List (UInt32 × UInt32)) : List UInt32 :=
  debugJournal.flatMap fun addr => [addr.1, addr.2]

section Words

variable (debugJournal : List (UInt32 × UInt32))

theorem debugWords_cons (addr : UInt32 × UInt32) :
    debugWords (addr :: debugJournal) = addr.1 :: addr.2 :: debugWords debugJournal :=
  rfl

theorem debugWords_length : (debugWords debugJournal).length = 2 * debugJournal.length := by
  induction debugJournal with
  | nil => rfl
  | cons addr rest ih =>
      rw [debugWords_cons, List.length_cons, List.length_cons, List.length_cons, ih]
      omega

theorem debugWords_get? (trans : Nat) :
    (debugWords debugJournal)[2 * trans]? = debugJournal[trans]?.map Prod.fst ∧
      (debugWords debugJournal)[2 * trans + 1]? = debugJournal[trans]?.map Prod.snd := by
  induction debugJournal generalizing trans with
  | nil => exact ⟨rfl, rfl⟩
  | cons addr rest ih =>
      cases trans with
      | zero => exact ⟨rfl, rfl⟩
      | succ trans =>
          rw [debugWords_cons, Nat.mul_succ]
          simpa only [List.getElem?_cons_succ] using ih trans

end Words

theorem debugWords_ring {ring : CellRing UInt32 pciebenchDbgJournalSz} (fresh : ring.tail = 0)
    {debugJournal : List (UInt32 × UInt32)} {trans : Nat} (inside : trans < debugJournal.length)
    (recent : 2 * debugJournal.length ≤ 2 * trans + pciebenchDbgJournalSz) :
    let cells := (ring.pushAll (debugWords debugJournal)).cells
    (cells (2 * trans % pciebenchDbgJournalSz),
      cells ((2 * trans + 1) % pciebenchDbgJournalSz)) = debugJournal.get ⟨trans, inside⟩ := by
  have length := debugWords_length debugJournal
  obtain ⟨first, second⟩ := debugWords_get? debugJournal trans
  have high := ring.pushAll_cells (debugWords debugJournal)
    (show 2 * trans < (debugWords debugJournal).length by omega) (by omega)
  have low := ring.pushAll_cells (debugWords debugJournal)
    (show 2 * trans + 1 < (debugWords debugJournal).length by omega) (by omega)
  rw [fresh, Nat.zero_add] at high low
  rw [List.getElem?_eq_getElem (by omega), List.getElem?_eq_getElem inside] at first second
  simp only [Option.map_some, Option.some.injEq] at first second
  dsimp only
  rw [high, low, List.get_eq_getElem, List.get_eq_getElem, List.get_eq_getElem]
  exact Prod.ext first second

section Tests

variable {chip : Chip} {fuel : Nat} {env : PassEnv} {test : PciebenchTest} {params : TestParams}
  (accepted : params.addrArgs.refused = false) {addrs : AddrState}
  (filled : chip.division.dmaAddrInit fuel (chunkShift chip) env.table env.rng params.addrArgs
    env.nfp.addrs = .ok addrs)

include accepted filled

theorem cmdLat_journal (supported : test = .latCmdRd ∨ test = .latCmdWrrd) {run : LatRun}
    (done : cmdLat chip fuel (chunkShift chip) env.table env.rng test params env.nfp = .ok run) :
    run.debugJournal = latTransactions addrs.dmaAddrs (latMaxTrans params.p0) := by
  obtain ⟨again, before, refilled, _, _, _, journal⟩ := cmdLat_ok accepted done
  rw [filled] at refilled
  cases refilled
  exact journal.trans (cmdLatFrom_journal supported (latMaxTrans params.p0) 0
    (cmdLatStart chip addrs.dmaAddrs before.pcie)).1

theorem dmaLat_journal (supported : test = .latDmaRd ∨ test = .latDmaWrrd) {run : DmaLatRun}
    (done : dmaLat chip fuel (chunkShift chip) env.table env.rng env.context test params env.nfp =
      .ok run) : run.debugJournal = latTransactions addrs.dmaAddrs (latMaxTrans params.p0) := by
  obtain ⟨again, before, refilled, _, _, _, _, journal⟩ := dmaLat_ok accepted done
  rw [filled] at refilled
  cases refilled
  exact journal.trans (dmaLatFrom_journal supported (latMaxTrans params.p0) 0
    (dmaLatStart addrs.dmaAddrs)).1

end Tests

/-- Where the transactions of a test are sent, by the entries of the array. -/
def sentTargets (dmaAddrs : Nat → UInt64) (count : Nat) : List Nat :=
  (List.range count).map fun trans =>
    (Words.join (journalWords dmaAddrs (trans - 1)).1 (journalWords dmaAddrs (trans - 1)).2).toNat

/-- A ring that a test starts with shows, in the cells of each of its last transactions, where
that transaction went: of them all after a run of the default length, of the last half after a
long one. -/
def RingShows (flags : UInt32) (targets : List Nat) (debugJournal : List (UInt32 × UInt32)) :
    Prop :=
  ∀ ring : CellRing UInt32 pciebenchDbgJournalSz, ring.tail = 0 →
    ∀ trans (inside : trans < targets.length),
      (flagSet flags latFlagsLong = true → targets.length ≤ 2 * trans) →
      let cells := (ring.pushAll (debugWords debugJournal)).cells
      (Words.join (cells (2 * trans % pciebenchDbgJournalSz))
        (cells ((2 * trans + 1) % pciebenchDbgJournalSz))).toNat = targets.get ⟨trans, inside⟩

section Targets

variable {chip : Chip} {fuel : Nat} {shift : UInt32} {table : ChunkTable} {rng : Nat → UInt32}
  {args : AddrArgs} {state addrs : AddrState}

theorem latTargets_sent {reach : Nat} (within : 2 ^ 40 ≤ reach) (below : table.Below (2 ^ 40))
    (filled : chip.division.dmaAddrInit fuel shift table rng args state = .ok addrs)
    (count : Nat) :
    latTargets reach (latTransactions addrs.dmaAddrs count) = sentTargets addrs.dmaAddrs count := by
  rw [latTargets, latTransactions, LaggedLoop.shown_start, List.map_map, sentTargets]
  refine List.map_congr_left fun trans _ => ?_
  have tagged : table.Below (2 ^ 56) := fun chunk => (below chunk).trans (by decide)
  obtain ⟨chunk, off, _, addr, start, _⟩ :=
    dmaAddrFromIdx_atChunk tagged filled (UInt32.ofNat (trans - 1))
  have limit := below chunk
  rw [Function.comp_apply]
  exact Nat.mod_eq_of_lt (by simp only [journalWords, addr]; omega)

theorem ringShows_journal (flags : UInt32) (dmaAddrs : Nat → UInt64) :
    RingShows flags (sentTargets dmaAddrs (latMaxTrans flags))
      (latTransactions dmaAddrs (latMaxTrans flags)) := by
  intro ring fresh trans inside recent
  have length : (latTransactions dmaAddrs (latMaxTrans flags)).length = latMaxTrans flags := by
    rw [latTransactions, LaggedLoop.shown_start, List.length_map, List.length_range]
  have targets : (sentTargets dmaAddrs (latMaxTrans flags)).length = latMaxTrans flags := by
    rw [sentTargets, List.length_map, List.length_range]
  rw [targets] at recent
  have kept : 2 * (latTransactions dmaAddrs (latMaxTrans flags)).length ≤
      2 * trans + pciebenchDbgJournalSz := by
    rw [length]
    cases long : flagSet flags latFlagsLong with
    | true =>
        have half := recent long
        rw [latMaxTrans, long] at half ⊢
        simp only [if_true, pciebenchJournalSz, pciebenchDbgJournalSz] at half ⊢
        omega
    | false =>
        rw [latMaxTrans, long]
        simp only [Bool.false_eq_true, if_false, pciebenchLatTrans, pciebenchDbgJournalSz]
        omega
  have journaled : trans < (latTransactions dmaAddrs (latMaxTrans flags)).length := by omega
  have found := debugWords_ring fresh journaled kept
  obtain ⟨high, low⟩ := Prod.mk.inj found
  dsimp only
  rw [high, low, List.get_eq_getElem, List.get_eq_getElem]
  simp only [latTransactions, LaggedLoop.shown_start, sentTargets, List.getElem_map,
    List.getElem_range]

end Targets

/-- All latency tests with the same parameters send their transactions to the same host addresses
in the same order, and after each the ring holds the addresses of its last transactions. -/
theorem latTests_ring (chip : Chip) (env : PassEnv) (params : TestParams)
    (inBounds : params.addrArgs.InBounds) (productive : Productive env.rng)
    (runnable : ∀ test ∈ latTests, params.addrArgs.Runnable chip test)
    (single : env.table.SingleBar) (below : env.table.Below (2 ^ 40)) :
    ∃ fuel addrs,
      chip.division.dmaAddrInit fuel (chunkShift chip) env.table env.rng params.addrArgs
        env.nfp.addrs = .ok addrs ∧
      let targets := sentTargets addrs.dmaAddrs (latMaxTrans params.p0)
      (∀ test, test = .latCmdRd ∨ test = .latCmdWrrd →
        ∃ run,
          cmdLat chip fuel (chunkShift chip) env.table env.rng test params env.nfp = .ok run ∧
          run.Reaches chip fuel (chunkShift chip) env.table env.rng test params env.nfp targets ∧
          RingShows params.p0 targets run.debugJournal) ∧
      ∀ test, test = .latDmaRd ∨ test = .latDmaWrrd →
        ∃ run,
          dmaLat chip fuel (chunkShift chip) env.table env.rng env.context test params env.nfp =
            .ok run ∧
          run.Reaches chip test targets ∧ RingShows params.p0 targets run.debugJournal := by
  have accepted := inBounds.accepted
  obtain ⟨fuel, prepared⟩ :=
    prepared_of_runnable inBounds (runnable .latDmaRd (by decide)) productive
  have filling := prepared
  obtain ⟨addrs, _, filled, _⟩ := filling
  have tagged : env.table.Below (2 ^ 56) := fun chunk => (below chunk).trans (by decide)
  have within : 2 ^ 40 ≤ chip.reach := by
    cases chip with
    | nfp3200 => decide
    | nfp6000 => decide
  refine ⟨fuel, addrs, filled, ?_, ?_⟩
  · intro test supported
    obtain ⟨run, done⟩ := (cmdLat_prepared accepted).mpr prepared
    have reaches := cmdLat_reaches accepted filled single tagged supported done
    rw [latTargets_sent within below filled] at reaches
    refine ⟨run, done, reaches, ?_⟩
    rw [cmdLat_journal accepted filled supported done]
    exact ringShows_journal params.p0 addrs.dmaAddrs
  · intro test supported
    obtain ⟨run, done⟩ := (dmaLat_prepared accepted).mpr prepared
    have reaches := dmaLat_reaches accepted filled supported done
    rw [latTargets_sent (Nat.le_refl _) below filled] at reaches
    refine ⟨run, done, reaches, ?_⟩
    rw [dmaLat_journal accepted filled supported done]
    exact ringShows_journal params.p0 addrs.dmaAddrs

theorem latTests_ring_long :
    ∃ fuel, ∃ addrs : AddrState, ∃ run : DmaLatRun,
      dmaLat .nfp6000 fuel 22 (backToBack 0x40000000) UInt32.ofNat ⟨0, 0, 5, 0, 0⟩ .latDmaWrrd
        { p0 := 8, p1 := 64, p2 := 0x2000000, p3 := 0, p4 := 0 } idleNfp = .ok run ∧
      run.Reaches .nfp6000 .latDmaWrrd (sentTargets addrs.dmaAddrs (latMaxTrans 8)) ∧
      RingShows 8 (sentTargets addrs.dmaAddrs (latMaxTrans 8)) run.debugJournal := by
  have room : (0x40000000 : UInt64).toNat + pciebenchMaxMem < 2 ^ 64 := by decide
  have checked : AddrArgs.Checked
      { winSz := 0x2000000, transSz := 64, hOff := 0, flags := 8 } := by
    constructor <;> decide
  have inMem := (inMem_iff checked (by decide)).mpr fun atEnd => absurd atEnd.1 (by decide)
  obtain ⟨fuel, addrs, _, _, tests⟩ := latTests_ring .nfp6000
    (countingEnv (backToBack 0x40000000)) { p0 := 8, p1 := 64, p2 := 0x2000000, p3 := 0, p4 := 0 }
    ⟨by decide, by decide⟩ productive_counting
    (fun test _ => ⟨by decide, by decide, by cases test <;> rfl, fun _ => .inr inMem,
      fun _ flagged => absurd flagged (by decide)⟩)
    (backToBack_singleBar room rfl) (backToBack_below room (by decide))
  obtain ⟨run, done, reaches, shows⟩ := tests .latDmaWrrd (.inr rfl)
  exact ⟨fuel, addrs, run, done, reaches, shows⟩

end Pciebench
