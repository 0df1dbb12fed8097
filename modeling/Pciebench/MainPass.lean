import Mathlib
import Pciebench.AddrTotal
import Pciebench.ChunkLog2
import Pciebench.IslandProgress
import Pciebench.LatencyCoverage

/-!
A pass of the main loop of `pciebench_main.c` that sees a request: the `switch` over the test
number, the test functions to their ends, and what is left in `test_ctrl`.
-/

namespace Pciebench

structure DmaBwRun where
  result : Except Int UInt32
  nfp : NfpState

/-- `dma_bw`, with the wait for the workers taken to return. -/
def dmaBw (chip : Chip) (fuel : Nat) (shift : UInt32) (table : ChunkTable) (rng : Nat → UInt32)
    (params : TestParams) (nfp : NfpState) : Except Stop DmaBwRun :=
  let args := params.addrArgs
  if args.refused then
    .ok { result := .error (-1), nfp }
  else do
    let addrs ← chip.division.dmaAddrInit fuel shift table rng args nfp.addrs
    let nfp ← runRegions chip shift table rng (flaggedRegions args) { nfp with addrs }
    .ok { result := .ok (UInt32.ofNat (bwMaxTrans args.flags)), nfp }

/-- What a pass finds on the card besides the request. -/
structure PassEnv where
  table : ChunkTable
  rng : Nat → UInt32
  context : DmaContext
  nfp : NfpState

/-- `ret` of a test function. -/
def retOf : Except Int UInt32 → Int
  | .ok _ => 0
  | .error ret => ret

/-- The loop that fills `w_data`, an array of 16 words, stays inside it. -/
def inWData (test : PciebenchTest) (transSz : UInt32) : Bool :=
  test ≠ .latCmdWrrd || transSz / 4 ≤ 16

section Pass

variable (chip : Chip) (fuel : Nat) (env : PassEnv) (params : TestParams)

def cmdLatRet (test : PciebenchTest) : Option Int :=
  match cmdLat chip fuel (chunkShift chip) env.table env.rng test params env.nfp with
  | .ok run =>
      if params.addrArgs.refused || inWData test params.p1 then some (retOf run.result) else none
  | .error _ => none

def dmaLatRet (test : PciebenchTest) : Option Int :=
  match dmaLat chip fuel (chunkShift chip) env.table env.rng env.context test params env.nfp with
  | .ok run => some (retOf run.result)
  | .error _ => none

def dmaBwRet : Option Int :=
  match dmaBw chip fuel (chunkShift chip) env.table env.rng params env.nfp with
  | .ok run => some (retOf run.result)
  | .error _ => none

/-- What a pass that sees `testCtrl` leaves in `test_ctrl`; none if it does not get there or
leaves the bounds of an array on its way. -/
def mainPass (testCtrl : Int) : Option Int :=
  if testCtrl = PciebenchTest.latCmdRd.ctrl then cmdLatRet chip fuel env params .latCmdRd
  else if testCtrl = PciebenchTest.latCmdWrrd.ctrl then cmdLatRet chip fuel env params .latCmdWrrd
  else if testCtrl = PciebenchTest.latDmaRd.ctrl then dmaLatRet chip fuel env params .latDmaRd
  else if testCtrl = PciebenchTest.latDmaWrrd.ctrl then dmaLatRet chip fuel env params .latDmaWrrd
  else if testCtrl = PciebenchTest.bwDmaRd.ctrl ∨ testCtrl = PciebenchTest.bwDmaWr.ctrl ∨
      testCtrl = PciebenchTest.bwDmaRw.ctrl then dmaBwRet chip fuel env params
  else
    -- `res = -1; continue` goes past the assignment to `test_ctrl`
    some testCtrl

/-- The address array is filled, and the flagged regions are written. -/
def Prepared : Prop :=
  ∃ addrs before,
    chip.division.dmaAddrInit fuel (chunkShift chip) env.table env.rng params.addrArgs
      env.nfp.addrs = .ok addrs ∧
    runRegions chip (chunkShift chip) env.table env.rng (flaggedRegions params.addrArgs)
      { env.nfp with addrs } = .ok before

end Pass

section Returns

variable {chip : Chip} {fuel : Nat} {env : PassEnv} {params : TestParams} {test : PciebenchTest}
  {res : Int}

theorem mainPass_unknown {testCtrl : Int} (unknown : ∀ test : PciebenchTest, testCtrl ≠ test.ctrl) :
    mainPass chip fuel env params testCtrl = some testCtrl := by
  simp only [mainPass, unknown, if_false, or_self]

theorem mainPass_refused (refused : params.addrArgs.refused = true) (test : PciebenchTest) :
    mainPass chip fuel env params test.ctrl = some (-1) := by
  have cmd : ∀ test, cmdLatRet chip fuel env params test = some (-1) := by
    intro test
    simp only [cmdLatRet, cmdLat, refused, if_true, Bool.true_or, retOf]
  have dma : ∀ test, dmaLatRet chip fuel env params test = some (-1) := by
    intro test
    simp only [dmaLatRet, dmaLat, refused, if_true, retOf]
  have bw : dmaBwRet chip fuel env params = some (-1) := by
    simp only [dmaBwRet, dmaBw, refused, if_true, retOf]
  cases test with
  | latCmdRd | latCmdWrrd => exact cmd _
  | latDmaRd | latDmaWrrd => exact dma _
  | bwDmaRd | bwDmaWr | bwDmaRw => exact bw

section Accepted

variable (accepted : params.addrArgs.refused = false)

include accepted

theorem cmdLat_prepared :
    (∃ run, cmdLat chip fuel (chunkShift chip) env.table env.rng test params env.nfp = .ok run) ↔
      Prepared chip fuel env params := by
  constructor
  · rintro ⟨run, done⟩
    obtain ⟨addrs, before, filled, written, _⟩ := cmdLat_ok accepted done
    exact ⟨addrs, before, filled, written⟩
  · rintro ⟨addrs, before, filled, written⟩
    simp only [cmdLat, accepted, Bool.false_eq_true, if_false, filled, Outcome.ok_bind, written]
    exact ⟨_, rfl⟩

theorem cmdLat_counts (supported : test = .latCmdRd ∨ test = .latCmdWrrd) {run : LatRun}
    (done : cmdLat chip fuel (chunkShift chip) env.table env.rng test params env.nfp = .ok run) :
    retOf run.result = 0 := by
  obtain ⟨addrs, before, _, _, result, _⟩ := cmdLat_ok accepted done
  obtain ⟨_, whole⟩ := cmdLatFrom_journal supported (latMaxTrans params.p0) 0
    (cmdLatStart chip addrs.dmaAddrs before.pcie)
  exact congrArg retOf (result.trans whole)

theorem dmaLat_prepared :
    (∃ run, dmaLat chip fuel (chunkShift chip) env.table env.rng env.context test params env.nfp =
      .ok run) ↔ Prepared chip fuel env params := by
  constructor
  · rintro ⟨run, done⟩
    obtain ⟨addrs, before, filled, written, _⟩ := dmaLat_ok accepted done
    exact ⟨addrs, before, filled, written⟩
  · rintro ⟨addrs, before, filled, written⟩
    simp only [dmaLat, accepted, Bool.false_eq_true, if_false, filled, Outcome.ok_bind, written]
    exact ⟨_, rfl⟩

theorem dmaLat_counts (supported : test = .latDmaRd ∨ test = .latDmaWrrd) {run : DmaLatRun}
    (done : dmaLat chip fuel (chunkShift chip) env.table env.rng env.context test params env.nfp =
      .ok run) : retOf run.result = 0 := by
  obtain ⟨addrs, before, _, _, result, _⟩ := dmaLat_ok accepted done
  obtain ⟨_, whole⟩ := dmaLatFrom_journal supported (latMaxTrans params.p0) 0
    (dmaLatStart addrs.dmaAddrs)
  exact congrArg retOf (result.trans whole)

theorem dmaBw_ok :
    (∃ run, dmaBw chip fuel (chunkShift chip) env.table env.rng params env.nfp = .ok run ∧
      retOf run.result = res) ↔ res = 0 ∧ Prepared chip fuel env params := by
  simp only [dmaBw, accepted, Bool.false_eq_true, if_false]
  constructor
  · rintro ⟨run, done, rfl⟩
    obtain ⟨addrs, filled, done⟩ := Outcome.bind_eq_ok.mp done
    obtain ⟨before, written, done⟩ := Outcome.bind_eq_ok.mp done
    cases done
    exact ⟨rfl, addrs, before, filled, written⟩
  · rintro ⟨rfl, addrs, before, filled, written⟩
    simp only [filled, Outcome.ok_bind, written]
    exact ⟨_, rfl, rfl⟩

theorem cmdLatRet_accepted (supported : test = .latCmdRd ∨ test = .latCmdWrrd) :
    cmdLatRet chip fuel env params test = some res ↔
      res = 0 ∧ Prepared chip fuel env params ∧ inWData test params.p1 = true := by
  rw [← cmdLat_prepared accepted, cmdLatRet, accepted, Bool.false_or]
  cases done : cmdLat chip fuel (chunkShift chip) env.table env.rng test params env.nfp with
  | error stop => simp only [reduceCtorEq, exists_false, false_and, and_false]
  | ok run =>
      have zero := cmdLat_counts accepted supported done
      simp only [zero, Except.ok.injEq, exists_eq', true_and]
      split
      · rename_i inside
        simp only [inside, Option.some.injEq, and_true, eq_comm]
      · rename_i outside
        simp only [outside, reduceCtorEq, and_false]

theorem dmaLatRet_accepted (supported : test = .latDmaRd ∨ test = .latDmaWrrd) :
    dmaLatRet chip fuel env params test = some res ↔
      res = 0 ∧ Prepared chip fuel env params := by
  rw [← dmaLat_prepared accepted, dmaLatRet]
  cases done : dmaLat chip fuel (chunkShift chip) env.table env.rng env.context test params
      env.nfp with
  | error stop => simp only [reduceCtorEq, exists_false, and_false]
  | ok run =>
      have zero := dmaLat_counts accepted supported done
      simp only [zero, Except.ok.injEq, exists_eq', and_true, Option.some.injEq, eq_comm]

theorem dmaBwRet_accepted :
    dmaBwRet chip fuel env params = some res ↔ res = 0 ∧ Prepared chip fuel env params := by
  rw [← dmaBw_ok accepted, dmaBwRet]
  cases dmaBw chip fuel (chunkShift chip) env.table env.rng params env.nfp with
  | error stop => simp only [reduceCtorEq, false_and, exists_false]
  | ok run => simp only [Option.some.injEq, Except.ok.injEq, exists_eq_left']

/-- A pass that goes past the check returns 0 or not at all. -/
theorem mainPass_accepted (test : PciebenchTest) :
    mainPass chip fuel env params test.ctrl = some res ↔
      res = 0 ∧ Prepared chip fuel env params ∧ inWData test params.p1 = true := by
  cases test with
  | latCmdRd => exact cmdLatRet_accepted accepted (.inl rfl)
  | latCmdWrrd => exact cmdLatRet_accepted accepted (.inr rfl)
  | latDmaRd => exact (dmaLatRet_accepted accepted (.inl rfl)).trans (by simp [inWData])
  | latDmaWrrd => exact (dmaLatRet_accepted accepted (.inr rfl)).trans (by simp [inWData])
  | bwDmaRd | bwDmaWr | bwDmaRw => exact (dmaBwRet_accepted accepted).trans (by simp [inWData])

end Accepted

end Returns

namespace AddrArgs

/-- The transaction lies in a page and in the window, with the sum taken as it is. -/
def InBounds (args : AddrArgs) : Prop :=
  args.transSz.toNat + args.hOff.toNat ≤ 4096 ∧
    args.transSz.toNat + args.hOff.toNat ≤ args.winSz.toNat

structure Runnable (chip : Chip) (test : PciebenchTest) (args : AddrArgs) : Prop where
  nonempty : chip = .nfp6000 → args.span ≠ 0
  oneUnit : chip = .nfp6000 → args.unitSz ≤ args.winSz
  wData : inWData test args.transSz = true
  inTable : chip = .nfp6000 →
    flagSet args.flags latFlagsRandom = false ∧ args.OneLine ∨ args.InMem
  warm : chip = .nfp6000 → flagSet args.flags latFlagsWarm = true →
    args.winSz.toNat ≤ pciebenchMaxMem

variable {args : AddrArgs}

theorem refused_eq_false :
    args.refused = false ↔ args.span ≤ 4096 ∧ args.span ≤ args.winSz.toNat := by
  have page : (4096 : UInt32).toNat = 4096 := rfl
  simp only [refused, Bool.or_eq_false_iff, decide_eq_false_iff_not, gt_iff_lt,
    UInt32.lt_iff_toNat_lt, page, Nat.not_lt]
  exact Iff.rfl

namespace InBounds

variable (inBounds : args.InBounds)

include inBounds

theorem span_eq : args.span = args.transSz.toNat + args.hOff.toNat := by
  have inPage := inBounds.1
  rw [span, UInt32.toNat_add]
  omega

theorem accepted : args.refused = false := by
  rw [refused_eq_false, inBounds.span_eq]
  exact inBounds

theorem first_fits : args.fits 0 = true := by
  have inPage := inBounds.1
  have start : args.linAddr 0 = args.hOff := by rw [linAddr, UInt32.zero_mul, UInt32.zero_add]
  rw [fits_iff, start]
  omega

end InBounds

end AddrArgs

section Prepare

variable {chip : Chip} {fuel : Nat} {env : PassEnv} {params : TestParams} {test : PciebenchTest}

theorem nfp3200_filled (inBounds : params.addrArgs.InBounds) (productive : Productive env.rng) :
    ∃ fuel addrs, Chip.nfp3200.division.dmaAddrInit fuel log2ChunkSz env.table env.rng
      params.addrArgs env.nfp.addrs = .ok addrs := by
  rw [log2ChunkSz_eq]
  by_cases zero : params.addrArgs.unitSz = 0 ∨ params.addrArgs.unitsInWin = 0
  · exact ⟨1, soft_dmaAddrInit_total env.table env.rng inBounds.1 zero env.nfp.addrs⟩
  · obtain ⟨nonzero, some⟩ := not_or.mp zero
    have inPage := (AddrArgs.refused_eq_false.mp inBounds.accepted).1
    have nonempty : params.addrArgs.span ≠ 0 := fun empty =>
      nonzero (AddrArgs.unitSz_of_span empty)
    have checked := wholeLines_checked inPage nonempty (AddrArgs.unitSz_le_winSz some)
    have safe : InitSafe 31 env.table params.addrArgs.wholeLines :=
      initSafe_of_placed checked fun linAddr _ => shift31_inTable linAddr
    obtain ⟨fuel, addrs, filled⟩ :=
      dmaAddrInit_total env.nfp.addrs checked productive inBounds.first_fits safe
    exact ⟨fuel, addrs, Chip.nfp3200.dmaAddrInit_of_ok filled⟩

theorem nfp6000_filled (inBounds : params.addrArgs.InBounds)
    (runnable : params.addrArgs.Runnable .nfp6000 test) (productive : Productive env.rng) :
    ∃ fuel addrs, Chip.nfp6000.division.dmaAddrInit fuel 22 env.table env.rng params.addrArgs
      env.nfp.addrs = .ok addrs := by
  have inPage := (AddrArgs.refused_eq_false.mp inBounds.accepted).1
  have checked := wholeLines_checked inPage (runnable.nonempty rfl) (runnable.oneUnit rfl)
  have transSz : params.addrArgs.transSz.toNat ≤ 4096 := by
    have whole := inBounds.1
    omega
  have safe := (initSafe_iff env.table checked transSz).mpr
    ((runnable.inTable rfl).imp_right wholeLines_inMem.mpr)
  obtain ⟨fuel, addrs, filled⟩ :=
    dmaAddrInit_total env.nfp.addrs checked productive inBounds.first_fits safe
  exact ⟨fuel, addrs, Chip.nfp6000.dmaAddrInit_of_ok filled⟩

theorem prepared_of_runnable (inBounds : params.addrArgs.InBounds)
    (runnable : params.addrArgs.Runnable chip test) (productive : Productive env.rng) :
    ∃ fuel, Prepared chip fuel env params := by
  have filling : ∃ fuel addrs, chip.division.dmaAddrInit fuel (chunkShift chip) env.table env.rng
      params.addrArgs env.nfp.addrs = .ok addrs := by
    cases chip with
    | nfp3200 => exact nfp3200_filled inBounds productive
    | nfp6000 => exact nfp6000_filled inBounds runnable productive
  have inTable : ∀ region ∈ flaggedRegions params.addrArgs, region.InTable (chunkShift chip) := by
    intro region member
    cases chip with
    | nfp3200 =>
        rw [chunkShift, log2ChunkSz_eq]
        cases region <;> exact fun linAddr _ => shift31_inTable linAddr
    | nfp6000 =>
        rcases mem_flaggedRegions member with rfl | ⟨flagged, rfl⟩
        · exact shiftInTable_mem (by decide)
        · exact shiftInTable_mem (runnable.warm rfl flagged)
  obtain ⟨fuel, addrs, filled⟩ := filling
  obtain ⟨before, written⟩ :=
    runRegions_total chip env.table env.rng inTable { env.nfp with addrs }
  exact ⟨fuel, addrs, before, filled, written⟩

theorem runRegions_warm {table : ChunkTable} {rng : Nat → UInt32} {args : AddrArgs}
    {nfp before : NfpState} (flagged : flagSet args.flags latFlagsWarm = true)
    (written : runRegions chip 22 table rng (flaggedRegions args) nfp = .ok before) :
    args.winSz.toNat ≤ pciebenchMaxMem := by
  have warmed : ∀ nfp, runRegions chip 22 table rng [.warm args.winSz] nfp = .ok before →
      args.winSz.toNat ≤ pciebenchMaxMem := by
    intro nfp done
    simp only [runRegions, runRegion, Region.write] at done
    obtain ⟨_, first, _⟩ := Outcome.bind_eq_ok.mp done
    obtain ⟨_, wrote, _⟩ := Outcome.bind_eq_ok.mp first
    exact warm_overruns wrote
  rw [flaggedRegions, if_pos flagged] at written
  split at written
  · rw [List.singleton_append, runRegions] at written
    obtain ⟨between, _, rest⟩ := Outcome.bind_eq_ok.mp written
    exact warmed between rest
  · exact warmed nfp written

def countingEnv (table : ChunkTable) : PassEnv where
  table
  rng := UInt32.ofNat
  context := ⟨0, 0, 5, 0, 0⟩
  nfp := idleNfp

theorem runnable_of_prepared (accepted : params.addrArgs.refused = false)
    (wData : inWData test params.p1 = true)
    (prepares : ∀ env : PassEnv, Productive env.rng → ∃ fuel, Prepared chip fuel env params) :
    params.addrArgs.Runnable chip test := by
  cases chip with
  | nfp3200 =>
      have other : Chip.nfp3200 ≠ .nfp6000 := by decide
      exact ⟨fun same => absurd same other, fun same => absurd same other, wData,
        fun same => absurd same other, fun same => absurd same other⟩
  | nfp6000 =>
      obtain ⟨_, addrs, before, filled, written⟩ :=
        prepares (countingEnv (backToBack 0x40000000)) productive_counting
      obtain ⟨nonempty, oneUnit⟩ := dmaAddrInit_oneUnit filled
      refine ⟨fun _ => nonempty, fun _ => oneUnit, wData, ?_, ?_⟩
      · intro _
        by_contra overrun
        have inPage := (AddrArgs.refused_eq_false.mp accepted).1
        obtain ⟨rng, addrs, productive, never⟩ := dmaAddrInit_overruns (backToBack 0x40000000)
          (wholeLines_checked inPage nonempty oneUnit) overrun
        obtain ⟨fuel, final, _, filled, _⟩ := prepares {
          table := backToBack 0x40000000
          rng
          context := ⟨0, 0, 5, 0, 0⟩
          nfp := { pcie := idleNfp.pcie, addrs } } productive
        exact never fuel final filled
      · intro _ flagged
        exact runRegions_warm flagged written

end Prepare

/-- The set-ups of an island return where they come to an end, each with what it finds on the
card. -/
def Island.Prepares {chip : Chip} (island : Island chip) (env : Nat → PassEnv) : Prop :=
  ∀ run params, (∃ fuel, Prepared chip fuel (env run) params) →
    island.setUpReturns run params = true

/-- Every pass that sees the request comes to an end, through the wait of `dma_bw` as well, and
leaves 0 for a test with its transaction in bounds, and an error for anything else. -/
structure RightlyAnswered (chip : Chip) (params : TestParams) (testCtrl : Int) : Prop where
  ends : ∀ env : PassEnv, Productive env.rng →
    ∃ fuel res, mainPass chip fuel env params testCtrl = some res
  waits : ∀ (island : Island chip) env, island.Prepares env → (∀ run, Productive (env run).rng) →
    ∀ requests state, IslandReachable island requests state → state.main = .arming →
    state.regs 0 = ⟨UInt32.ofInt testCtrl, params⟩ →
    Machine.Inevitable (islandStep island) (fun after => after.main = .publishing 0) state
  accepts : ∀ fuel env res, mainPass chip fuel env params testCtrl = some res →
    (∃ test : PciebenchTest, testCtrl = test.ctrl) → params.addrArgs.InBounds → res = 0
  rejects : ∀ fuel env res, mainPass chip fuel env params testCtrl = some res →
    ¬ ((∃ test : PciebenchTest, testCtrl = test.ctrl) ∧ params.addrArgs.InBounds) → res < 0

section Answers

variable {chip : Chip} {params : TestParams} {testCtrl : Int} {test : PciebenchTest}

theorem not_answered_unknown (positive : 0 < testCtrl)
    (unknown : ∀ test : PciebenchTest, testCtrl ≠ test.ctrl) :
    ¬ RightlyAnswered chip params testCtrl := by
  intro answered
  have left : mainPass chip 0 (countingEnv (backToBack 0)) params testCtrl = some testCtrl :=
    mainPass_unknown unknown
  have negative := answered.rejects _ _ _ left fun ⟨⟨test, same⟩, _⟩ => unknown test same
  omega

section Wait

variable {island : Island chip} {requests : List BwRequest} {state : IslandState (workerCount chip)}

theorem arming_accepted (reached : IslandReachable island requests state)
    (main : state.main = .arming) (entered : state.regs 0 = ⟨UInt32.ofInt testCtrl, params⟩) :
    params.addrArgs.refused = false := by
  obtain ⟨request, _, _, _, progress⟩ :=
    takesTurns_busy (inTurn_reached reached).turns (by simp [main])
  simp only [IslandState.MainAt, main] at progress
  obtain ⟨own, accepted⟩ := progress
  have same : request.params = params := congrArg SharedRegs.args (own.symm.trans entered)
  exact same ▸ accepted

theorem waits_of_runnable {env : Nat → PassEnv} (prepares : island.Prepares env)
    (productive : ∀ run, Productive (env run).rng) (inBounds : params.addrArgs.InBounds)
    (runnable : params.addrArgs.Runnable chip test)
    (reached : IslandReachable island requests state) (main : state.main = .arming)
    (entered : state.regs 0 = ⟨UInt32.ofInt testCtrl, params⟩) :
    Machine.Inevitable (islandStep island) (fun after => after.main = .publishing 0) state := by
  have returns := prepares state.run params
    (prepared_of_runnable inBounds runnable (productive state.run))
  exact bwWait_ends reached main (by rw [entered]; exact returns)

end Wait

theorem answered_refused (refused : params.addrArgs.refused = true) :
    RightlyAnswered chip params test.ctrl where
  ends := fun _ _ => ⟨0, -1, mainPass_refused refused test⟩
  waits := by
    intro island env _ _ requests state reached main entered
    rw [arming_accepted reached main entered] at refused
    contradiction
  accepts := by
    intro fuel env res _ _ inBounds
    rw [inBounds.accepted] at refused
    contradiction
  rejects := by
    intro fuel env res returned _
    rw [mainPass_refused refused test, Option.some.injEq] at returned
    omega

theorem answered_accepted (accepted : params.addrArgs.refused = false) :
    RightlyAnswered chip params test.ctrl ↔
      params.addrArgs.InBounds ∧ params.addrArgs.Runnable chip test := by
  constructor
  · intro answered
    have comes : ∀ env : PassEnv, Productive env.rng →
        ∃ fuel, mainPass chip fuel env params test.ctrl = some 0 := by
      intro env productive
      obtain ⟨fuel, res, returned⟩ := answered.ends env productive
      obtain ⟨rfl, _⟩ := (mainPass_accepted accepted test).mp returned
      exact ⟨fuel, returned⟩
    have prepares : ∀ env : PassEnv, Productive env.rng →
        ∃ fuel, Prepared chip fuel env params ∧ inWData test params.p1 = true := by
      intro env productive
      obtain ⟨fuel, returned⟩ := comes env productive
      exact ⟨fuel, ((mainPass_accepted accepted test).mp returned).2⟩
    obtain ⟨fuel, returned⟩ := comes (countingEnv (backToBack 0)) productive_counting
    obtain ⟨_, _, wData⟩ := prepares (countingEnv (backToBack 0)) productive_counting
    constructor
    · by_contra outside
      have negative := answered.rejects _ _ _ returned fun good => outside good.2
      contradiction
    · refine runnable_of_prepared accepted wData fun env productive => ?_
      obtain ⟨fuel, prepared, _⟩ := prepares env productive
      exact ⟨fuel, prepared⟩
  · rintro ⟨inBounds, runnable⟩
    refine ⟨?_, ?_, ?_, ?_⟩
    · intro env productive
      obtain ⟨fuel, prepared⟩ := prepared_of_runnable inBounds runnable productive
      exact ⟨fuel, 0, (mainPass_accepted accepted test).mpr ⟨rfl, prepared, runnable.wData⟩⟩
    · intro island env prepares random requests state reached main entered
      exact waits_of_runnable prepares random inBounds runnable reached main entered
    · intro fuel env res returned _ _
      exact ((mainPass_accepted accepted test).mp returned).1
    · intro fuel env res _ bad
      exact absurd ⟨⟨test, rfl⟩, inBounds⟩ bad

/-- The requests that are answered, and answered right. A number that is not a test's stays in
`test_ctrl`; a test that goes past the 32-bit check is never answered with an error. -/
theorem mainPass_answers (chip : Chip) (params : TestParams) {testCtrl : Int}
    (positive : 0 < testCtrl) :
    (RightlyAnswered chip params testCtrl ↔ ∃ test : PciebenchTest, testCtrl = test.ctrl ∧
      (params.addrArgs.refused = true ∨
        params.addrArgs.InBounds ∧ params.addrArgs.Runnable chip test)) ∧
    ((∀ test : PciebenchTest, testCtrl ≠ test.ctrl) →
      ∀ fuel env, mainPass chip fuel env params testCtrl = some testCtrl) ∧
    ∀ test : PciebenchTest, testCtrl = test.ctrl → params.addrArgs.refused = false →
      ∀ fuel env res, mainPass chip fuel env params testCtrl = some res → res = 0 := by
  refine ⟨⟨?_, ?_⟩, fun unknown _ _ => mainPass_unknown unknown, ?_⟩
  · intro answered
    by_contra unanswered
    by_cases known : ∃ test : PciebenchTest, testCtrl = test.ctrl
    · obtain ⟨test, rfl⟩ := known
      cases refused : params.addrArgs.refused with
      | true => exact unanswered ⟨test, rfl, .inl refused⟩
      | false => exact unanswered ⟨test, rfl, .inr ((answered_accepted refused).mp answered)⟩
    · exact not_answered_unknown positive (not_exists.mp known) answered
  · rintro ⟨test, rfl, refused | ⟨inBounds, runnable⟩⟩
    · exact answered_refused refused
    · exact (answered_accepted inBounds.accepted).mpr ⟨inBounds, runnable⟩
  · rintro test rfl accepted fuel env res returned
    exact ((mainPass_accepted accepted test).mp returned).1

theorem mainPass_answers_half :
    RightlyAnswered .nfp6000 { p0 := 5, p1 := 256, p2 := 0x2000000, p3 := 64, p4 := 0 } 3 := by
  have checked : AddrArgs.Checked { winSz := 0x2000000, transSz := 256, hOff := 64, flags := 5 } := by
    constructor <;> decide
  have inMem := (inMem_iff checked (by decide)).mpr fun atEnd => absurd atEnd.1 (by decide)
  exact (mainPass_answers .nfp6000 { p0 := 5, p1 := 256, p2 := 0x2000000, p3 := 64, p4 := 0 }
    (by decide)).1.mpr ⟨.latDmaRd, rfl, .inr ⟨⟨by decide, by decide⟩, fun _ => by decide,
      fun _ => by decide, rfl, fun _ => .inr inMem, fun _ _ => by decide⟩⟩

/-- Test number 8 is left to the host, a sum that wraps around to 64 is not refused, and an empty
transaction divides by zero. -/
theorem mainPass_unanswered :
    (mainPass .nfp6000 64 (countingEnv (backToBack 0x40000000)) (lineParams 4096) 8 = some 8 ∧
      ¬ RightlyAnswered .nfp6000 (lineParams 4096) 8) ∧
    ¬ RightlyAnswered .nfp6000 { p0 := 0, p1 := 0xfffffff0, p2 := 4096, p3 := 0x50, p4 := 0 } 3 ∧
    ¬ RightlyAnswered .nfp6000 { p0 := 0, p1 := 0, p2 := 4096, p3 := 0, p4 := 0 } 3 := by
  have unknown : ∀ test : PciebenchTest, (8 : Int) ≠ test.ctrl := by
    intro test
    cases test <;> decide
  have latDmaRd : (3 : Int) = PciebenchTest.latDmaRd.ctrl := rfl
  refine ⟨⟨mainPass_unknown unknown, not_answered_unknown (by decide) unknown⟩, ?_, ?_⟩
  · rw [latDmaRd, answered_accepted rfl]
    exact fun good => absurd good.1.1 (by decide)
  · rw [latDmaRd, answered_accepted rfl]
    exact fun good => good.2.nonempty rfl rfl

end Answers

end Pciebench
