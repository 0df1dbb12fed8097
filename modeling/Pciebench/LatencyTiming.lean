import Mathlib
import Pciebench.Handshake
import Pciebench.Lib.Stopwatch
import Pciebench.MainPass

/-!
The times that `cmd_lat` and `dma_lat` take: the timestamps around their loops, which go into
`struct test_result`, and those around each transaction, whose differences are journaled.
-/

namespace Pciebench

open Stopwatch

/-- What a latency test leaves: `r`, and what it put into `test_journal`. -/
structure TimedTest where
  run : LatRun
  testJournal : List UInt32
  r : TestResult

section Tests

variable (clock : Clock)

def startTimes (r : TestResult) : TestResult :=
  { r with startLo := clock.lo 0, startHi := clock.hi 1 }

def endTimes (reads : Nat) (result : Except Int UInt32) (r : TestResult) : TestResult :=
  match result with
  | .error _ => r
  | .ok count =>
      { r with
        endLo := clock.lo reads
        endHi := clock.hi (reads + 1)
        r0 := count
        r1 := 0
        r2 := 0
        r3 := 0 }

def cmdLatTimed (chip : Chip) (fuel : Nat) (env : PassEnv) (test : PciebenchTest)
    (params : TestParams) (r : TestResult) : Except Stop TimedTest :=
  let args := params.addrArgs
  if args.refused then
    .ok {
      run := { result := .error (-1), nfp := env.nfp, debugJournal := [] }
      testJournal := []
      r }
  else do
    let addrs ← chip.division.dmaAddrInit fuel (chunkShift chip) env.table env.rng args
      env.nfp.addrs
    let nfp ← runRegions chip (chunkShift chip) env.table env.rng (flaggedRegions args)
      { env.nfp with addrs }
    let r := startTimes clock r
    let ((final, timed), result) :=
      timedFrom (fun state => cmdLatAccess chip test args.transSz state.addr state.pcie)
        (cmdLatAdvance chip nfp.addrs.dmaAddrs) (-2) clock (latMaxTrans args.flags) 0
        (cmdLatStart chip nfp.addrs.dmaAddrs nfp.pcie) { reads := 2, journal := [] }
    let nfp := { nfp with pcie := final.pcie }
    .ok {
      run := { result, nfp, debugJournal := final.debugJournal }
      testJournal := timed.journal
      r := endTimes clock timed.reads result r }

def dmaLatTimed (chip : Chip) (fuel : Nat) (env : PassEnv) (test : PciebenchTest)
    (params : TestParams) (r : TestResult) : Except Stop TimedTest :=
  let args := params.addrArgs
  if args.refused then
    .ok {
      run := { result := .error (-1), nfp := env.nfp, debugJournal := [] }
      testJournal := []
      r }
  else do
    let addrs ← chip.division.dmaAddrInit fuel (chunkShift chip) env.table env.rng args
      env.nfp.addrs
    let nfp ← runRegions chip (chunkShift chip) env.table env.rng (flaggedRegions args)
      { env.nfp with addrs }
    let setup := pcieDmaSetup chip env.context args.transSz params.p4
    let r := startTimes clock r
    let ((final, timed), result) :=
      timedFrom (fun _ => dmaLatQueues chip test)
        (fun trans state queues => dmaLatAdvance setup nfp.addrs.dmaAddrs trans queues state) (-2)
        clock (latMaxTrans args.flags) 0 (dmaLatStart nfp.addrs.dmaAddrs)
        { reads := 2, journal := [] }
    .ok {
      run := { result, nfp, debugJournal := final.debugJournal }
      testJournal := timed.journal
      r := endTimes clock timed.reads result r }

/-- The latency tests in the `switch` of `main`; none is run for another test. -/
def latTimed (chip : Chip) (fuel : Nat) (env : PassEnv) (test : PciebenchTest)
    (params : TestParams) (r : TestResult) : Option (Except Stop TimedTest) :=
  match test with
  | .latCmdRd | .latCmdWrrd => some (cmdLatTimed clock chip fuel env test params r)
  | .latDmaRd | .latDmaWrrd => some (dmaLatTimed clock chip fuel env test params r)
  | .bwDmaRd | .bwDmaWr | .bwDmaRw => none

/-- The same, for a reader without a clock. -/
def latRun (chip : Chip) (fuel : Nat) (env : PassEnv) (test : PciebenchTest)
    (params : TestParams) : Option (Except Stop LatRun) :=
  match test with
  | .latCmdRd | .latCmdWrrd =>
      some (cmdLat chip fuel (chunkShift chip) env.table env.rng test params env.nfp)
  | .latDmaRd | .latDmaWrrd =>
      some ((dmaLat chip fuel (chunkShift chip) env.table env.rng env.context test params
        env.nfp).map DmaLatRun.toLatRun)
  | .bwDmaRd | .bwDmaWr | .bwDmaRw => none

end Tests

section Loops

variable {chip : Chip} {test : PciebenchTest} {transSz : UInt32} {dmaAddrs : Nat → UInt64}
  {setup : DmaCmd} {left : Nat} {trans : UInt32}

theorem cmdLatFrom_eq (state : CmdState) :
    cmdLatFrom chip test transSz dmaAddrs left trans state =
      loopFrom (fun state => cmdLatAccess chip test transSz state.addr state.pcie)
        (cmdLatAdvance chip dmaAddrs) (-2) left trans state := by
  induction left generalizing trans state with
  | zero => rfl
  | succ left ih =>
      rw [cmdLatFrom, loopFrom]
      cases cmdLatAccess chip test transSz state.addr state.pcie with
      | none => rfl
      | some pcie => exact ih _

theorem dmaLatFrom_eq (state : DmaLatState) :
    dmaLatFrom chip test setup dmaAddrs left trans state =
      loopFrom (fun _ => dmaLatQueues chip test)
        (fun trans state queues => dmaLatAdvance setup dmaAddrs trans queues state) (-2) left
        trans state := by
  induction left generalizing trans state with
  | zero => rfl
  | succ left ih =>
      rw [dmaLatFrom, loopFrom]
      cases issued : dmaLatQueues chip test with
      | none => rfl
      | some queues =>
          simp only [issued] at ih
          exact ih _

variable (chip transSz dmaAddrs) in
theorem cmdLatFrom_ends (supported : test = .latCmdRd ∨ test = .latCmdWrrd) (count : Nat)
    (state : CmdState) :
    (loopFrom (fun state => cmdLatAccess chip test transSz state.addr state.pcie)
      (cmdLatAdvance chip dmaAddrs) (-2) count 0 state).2 = .ok (UInt32.ofNat count) := by
  obtain ⟨_, result⟩ := cmdLatFrom_journal supported count 0 state
  rw [Nat.zero_add, cmdLatFrom_eq] at result
  exact result

variable (chip setup dmaAddrs) in
theorem dmaLatFrom_ends (supported : test = .latDmaRd ∨ test = .latDmaWrrd) (count : Nat)
    (state : DmaLatState) :
    (loopFrom (fun _ => dmaLatQueues chip test)
      (fun trans state queues => dmaLatAdvance setup dmaAddrs trans queues state) (-2) count 0
      state).2 = .ok (UInt32.ofNat count) := by
  obtain ⟨_, result⟩ := dmaLatFrom_journal supported count 0 state
  rw [Nat.zero_add, dmaLatFrom_eq] at result
  exact result

end Loops

/-- What `r` holds after `count` transactions. -/
def latResult (clock : Clock) (count : Nat) : TestResult where
  startHi := clock.hi 1
  startLo := clock.lo 0
  endHi := clock.hi (2 + 2 * count + 1)
  endLo := clock.lo (2 + 2 * count)
  r0 := UInt32.ofNat count
  r1 := 0
  r2 := 0
  r3 := 0

/-- A test that went through its transactions: one time for each, taken between its own two
readings of the clock, and `r` filled from the readings around them all. -/
structure TimedTest.Complete (clock : Clock) (count : Nat) (timed : TimedTest) : Prop where
  result : timed.run.result = .ok (UInt32.ofNat count)
  testJournal : timed.testJournal = laps clock count 2
  r : timed.r = latResult clock count

section Spec

variable (clock : Clock) {chip : Chip} {fuel : Nat} {env : PassEnv} {test : PciebenchTest}
  {params : TestParams} (r : TestResult)

theorem cmdLatTimed_run :
    (cmdLatTimed clock chip fuel env test params r).map TimedTest.run =
      cmdLat chip fuel (chunkShift chip) env.table env.rng test params env.nfp := by
  rw [cmdLatTimed, cmdLat]
  split
  · rfl
  cases chip.division.dmaAddrInit fuel (chunkShift chip) env.table env.rng params.addrArgs
      env.nfp.addrs with
  | error stop => rfl
  | ok addrs =>
      simp only [Outcome.ok_bind]
      cases runRegions chip (chunkShift chip) env.table env.rng (flaggedRegions params.addrArgs)
          { env.nfp with addrs } with
      | error stop => rfl
      | ok nfp =>
          simp only [Outcome.ok_bind]
          rw [cmdLatFrom_eq, timedFrom_erase clock { reads := 2, journal := [] }]
          rfl

theorem dmaLatTimed_run :
    (dmaLatTimed clock chip fuel env test params r).map TimedTest.run =
      (dmaLat chip fuel (chunkShift chip) env.table env.rng env.context test params env.nfp).map
        DmaLatRun.toLatRun := by
  rw [dmaLatTimed, dmaLat]
  split
  · rfl
  cases chip.division.dmaAddrInit fuel (chunkShift chip) env.table env.rng params.addrArgs
      env.nfp.addrs with
  | error stop => rfl
  | ok addrs =>
      simp only [Outcome.ok_bind]
      cases runRegions chip (chunkShift chip) env.table env.rng (flaggedRegions params.addrArgs)
          { env.nfp with addrs } with
      | error stop => rfl
      | ok nfp =>
          simp only [Outcome.ok_bind]
          rw [dmaLatFrom_eq, timedFrom_erase clock { reads := 2, journal := [] }]
          rfl

theorem latTimed_run :
    (latTimed clock chip fuel env test params r).map (Except.map TimedTest.run) =
      latRun chip fuel env test params := by
  cases test with
  | latCmdRd | latCmdWrrd => exact congrArg some (cmdLatTimed_run clock r)
  | latDmaRd | latDmaWrrd => exact congrArg some (dmaLatTimed_run clock r)
  | bwDmaRd | bwDmaWr | bwDmaRw => rfl

theorem timedFrom_complete {State Mid : Type} {access : State → Option Mid}
    {advance : UInt32 → State → Mid → State} {count : Nat} {state : State}
    (ends : (loopFrom access advance (-2) count 0 state).2 = .ok (UInt32.ofNat count)) :
    let loop := timedFrom access advance (-2) clock count 0 state { reads := 2, journal := [] }
    loop.2 = .ok (UInt32.ofNat count) ∧ loop.1.2.journal = laps clock count 2 ∧
      endTimes clock loop.1.2.reads loop.2 (startTimes clock r) = latResult clock count := by
  have times := timedFrom_journal clock { reads := 2, journal := [] } ends
  rw [timedFrom_erase clock { reads := 2, journal := [] }] at ends
  refine ⟨ends, congrArg Timed.journal times, ?_⟩
  rw [times]
  exact congrArg (fun result => endTimes clock (2 + 2 * count) result (startTimes clock r)) ends

section Accepted

variable {clock r} (accepted : params.addrArgs.refused = false)
  (prepared : Prepared chip fuel env params)

include accepted prepared

theorem cmdLatTimed_complete (supported : test = .latCmdRd ∨ test = .latCmdWrrd) :
    ∃ timed, cmdLatTimed clock chip fuel env test params r = .ok timed ∧
      timed.Complete clock (latMaxTrans params.p0) := by
  obtain ⟨addrs, before, filled, written⟩ := prepared
  obtain ⟨result, testJournal, filledR⟩ := timedFrom_complete clock r
    (cmdLatFrom_ends chip params.p1 before.addrs.dmaAddrs supported (latMaxTrans params.p0)
      (cmdLatStart chip before.addrs.dmaAddrs before.pcie))
  rw [cmdLatTimed, accepted]
  simp only [Bool.false_eq_true, if_false, filled, written, Outcome.ok_bind]
  exact ⟨_, rfl, result, testJournal, filledR⟩

theorem dmaLatTimed_complete (supported : test = .latDmaRd ∨ test = .latDmaWrrd) :
    ∃ timed, dmaLatTimed clock chip fuel env test params r = .ok timed ∧
      timed.Complete clock (latMaxTrans params.p0) := by
  obtain ⟨addrs, before, filled, written⟩ := prepared
  obtain ⟨result, testJournal, filledR⟩ := timedFrom_complete clock r
    (dmaLatFrom_ends chip before.addrs.dmaAddrs (pcieDmaSetup chip env.context params.p1 params.p4)
      supported (latMaxTrans params.p0) (dmaLatStart before.addrs.dmaAddrs))
  rw [dmaLatTimed, accepted]
  simp only [Bool.false_eq_true, if_false, filled, written, Outcome.ok_bind]
  exact ⟨_, rfl, result, testJournal, filledR⟩

variable (clock r) in
theorem latTimed_complete (lat : test ∈ latTests) :
    ∃ timed, latTimed clock chip fuel env test params r = some (.ok timed) ∧
      timed.Complete clock (latMaxTrans params.p0) := by
  cases test with
  | latCmdRd =>
      obtain ⟨timed, done, complete⟩ := cmdLatTimed_complete accepted prepared (.inl rfl)
      exact ⟨timed, congrArg some done, complete⟩
  | latCmdWrrd =>
      obtain ⟨timed, done, complete⟩ := cmdLatTimed_complete accepted prepared (.inr rfl)
      exact ⟨timed, congrArg some done, complete⟩
  | latDmaRd =>
      obtain ⟨timed, done, complete⟩ := dmaLatTimed_complete accepted prepared (.inl rfl)
      exact ⟨timed, congrArg some done, complete⟩
  | latDmaWrrd =>
      obtain ⟨timed, done, complete⟩ := dmaLatTimed_complete accepted prepared (.inr rfl)
      exact ⟨timed, congrArg some done, complete⟩
  | bwDmaRd | bwDmaWr | bwDmaRw =>
      simp [latTests] at lat

end Accepted

end Spec

/-- The time that the host takes from the result, in ticks of the clock. -/
def TestResult.ticks (r : TestResult) : Int :=
  (Words.join r.endHi r.endLo).toNat - (Words.join r.startHi r.startLo).toNat

section Times

variable (clock : Clock) (count : Nat)

/-- The halves of each timestamp are read one after the other, so a carry between the two goes
into the time. -/
theorem latResult_ticks :
    (latResult clock count).ticks =
      clock.elapsed 0 (2 + 2 * count) +
        (clock.carries (2 + 2 * count) (2 + 2 * count + 1) - clock.carries 0 1) * 2 ^ 32 := by
  have start := clock.stamp_eq (Nat.zero_le 1)
  have stop := clock.stamp_eq (Nat.le_add_right (2 + 2 * count) 1)
  have ordered := clock.monotone (Nat.zero_le (2 + 2 * count))
  rw [Clock.stamp] at start stop
  simp only [TestResult.ticks, latResult, Words.toNat_join, Clock.elapsed]
  omega

theorem latResult_r0 (small : count < 2 ^ 32) : (latResult clock count).r0.toNat = count := by
  rw [latResult, UInt32.toNat_ofNat', Nat.mod_eq_of_lt small]

theorem laps_toNat {first turn : Nat} (inside : turn < (laps clock count first).length) :
    ((laps clock count first).get ⟨turn, inside⟩).toNat =
      clock.elapsed (first + 2 * turn) (first + 2 * turn + 1) % 2 ^ 32 := by
  rw [List.get_eq_getElem]
  simp only [laps, List.getElem_map, List.getElem_range]
  exact clock.lo_sub (Nat.le_add_right _ 1)

end Times

theorem latMaxTrans_lt (flags : UInt32) : latMaxTrans flags < 2 ^ 32 := by
  rw [latMaxTrans]
  split <;> decide

theorem laps_sum_le (clock : Clock) (count : Nat) :
    ((laps clock count 2).map UInt32.toNat).sum ≤ clock.elapsed 0 (2 + 2 * count) := by
  have each : ((laps clock count 2).map UInt32.toNat).sum ≤
      ((List.range count).map fun turn =>
        clock.elapsed (2 + 2 * turn) (2 + 2 * turn + 1)).sum := by
    rw [laps, List.map_map]
    refine List.sum_le_sum ?_
    intro turn _
    change (clock.lo (2 + 2 * turn + 1) - clock.lo (2 + 2 * turn)).toNat ≤ _
    rw [clock.lo_sub (Nat.le_add_right _ 1)]
    exact Nat.mod_le _ _
  have together := sum_elapsed_le clock count 2
  have whole := clock.elapsed_add (Nat.zero_le 2) (Nat.le_add_right 2 (2 * count))
  omega

/-- Every latency test in bounds comes to an end, as it does without a clock, with as many times
in its journal as it made transactions: each the time of its own transaction, as far as 32 bits
hold it, and together no more than passed between the timestamps. What the host takes from the
timestamps is that time, but for carries between the readings of their halves. -/
theorem latTimed_times (clock : Clock) (chip : Chip) (env : PassEnv) (test : PciebenchTest)
    (params : TestParams) (r : TestResult) (lat : test ∈ latTests)
    (inBounds : params.addrArgs.InBounds) (runnable : params.addrArgs.Runnable chip test)
    (productive : Productive env.rng) :
    ∃ fuel timed, latTimed clock chip fuel env test params r = some (.ok timed) ∧
      latRun chip fuel env test params = some (.ok timed.run) ∧
      timed.run.result = .ok timed.r.r0 ∧
      timed.r.r0.toNat = latMaxTrans params.p0 ∧
      timed.testJournal.length = latMaxTrans params.p0 ∧
      (∀ trans (inside : trans < timed.testJournal.length),
        (timed.testJournal.get ⟨trans, inside⟩).toNat =
          clock.elapsed (2 + 2 * trans) (2 + 2 * trans + 1) % 2 ^ 32) ∧
      let last := 2 + 2 * timed.testJournal.length
      (timed.testJournal.map UInt32.toNat).sum ≤ clock.elapsed 0 last ∧
      timed.r.ticks = clock.elapsed 0 last +
        (clock.carries last (last + 1) - clock.carries 0 1) * 2 ^ 32 := by
  obtain ⟨fuel, prepared⟩ := prepared_of_runnable inBounds runnable productive
  obtain ⟨timed, done, complete⟩ := latTimed_complete clock r inBounds.accepted prepared lat
  have run : latRun chip fuel env test params = some (.ok timed.run) := by
    rw [← latTimed_run clock r, done]
    rfl
  have counted : timed.testJournal.length = latMaxTrans params.p0 := by
    rw [complete.testJournal, laps_length]
  refine ⟨fuel, timed, done, run, ?_, ?_, counted, ?_, ?_, ?_⟩
  · rw [complete.result, complete.r]
    rfl
  · rw [complete.r]
    exact latResult_r0 clock _ (latMaxTrans_lt _)
  · rw [complete.testJournal]
    intro trans inside
    exact laps_toNat clock _ inside
  · rw [counted, complete.testJournal]
    exact laps_sum_le clock _
  · rw [counted, complete.r]
    exact latResult_ticks clock _

def steadyClock : Clock where
  ticks reading := min (100 * reading) (2 ^ 64 - 1)
  monotone := by
    intro first last later
    simp only
    omega
  inWords := by
    intro reading
    omega

theorem latTimed_times_half :
    ∃ fuel timed, latTimed steadyClock .nfp6000 fuel (countingEnv (backToBack 0x40000000))
        .latDmaRd { p0 := 5, p1 := 256, p2 := 0x2000000, p3 := 64, p4 := 0 }
        (latResult steadyClock 0) = some (.ok timed) ∧
      timed.testJournal.length = 2097152 := by
  have checked : AddrArgs.Checked
      { winSz := 0x2000000, transSz := 256, hOff := 64, flags := 5 } := by
    constructor <;> decide
  have inMem := (inMem_iff checked (by decide)).mpr fun atEnd => absurd atEnd.1 (by decide)
  obtain ⟨fuel, timed, done, _, _, _, counted, _⟩ := latTimed_times steadyClock .nfp6000
    (countingEnv (backToBack 0x40000000)) .latDmaRd
    { p0 := 5, p1 := 256, p2 := 0x2000000, p3 := 64, p4 := 0 } (latResult steadyClock 0) (by decide)
    ⟨by decide, by decide⟩ ⟨by decide, by decide, rfl, fun _ => .inr inMem, fun _ _ => by decide⟩
    productive_counting
  exact ⟨fuel, timed, done, counted⟩

end Pciebench
