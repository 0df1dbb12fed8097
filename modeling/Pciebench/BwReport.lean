import Mathlib
import Pciebench.BwCompletion
import Pciebench.LatReport
import Pciebench.TransferSize

/-!
What `bw_test` (`nfpbench.py`) makes of a bandwidth run. The master takes the end time when the
worker with the last ticket signals it, so some of the DMAs that are counted are still in flight
then, and others that are not counted have been issued.
-/

namespace Pciebench

open Machine BwState

section Unfinished

variable {config : BwConfig} {state : BwState config.workers}

/-- The tickets that a worker has drawn and whose DMA has not completed. -/
def Worker.unfinished (worker : Worker) : Multiset Nat :=
  worker.flying + worker.pending

theorem unfinished_waiting {worker : Worker} (waiting : worker.pc = .waiting) :
    worker.unfinished = 0 := by
  obtain ⟨pc, trans, sig⟩ := worker
  simp only at waiting
  subst pc
  rfl

theorem unfinished_card (worker : Worker) : worker.unfinished.card ≤ 1 := by
  obtain ⟨pc, trans, sig⟩ := worker
  cases pc <;> cases trans <;> simp [Worker.unfinished, Worker.flying, Worker.pending]

theorem holds_le (ticket : Nat) (worker : Worker) : worker.holds ticket ≤ 1 := by
  rw [Worker.holds]
  split <;> omega

theorem exists_signaller (accounts : Accounts config state) (signalled : 1 ≤ state.signals) :
    ∃ ctx, (state.worker ctx).pc = .waiting ∧ (state.worker ctx).trans = some 1 := by
  rw [accounts.signalled] at signalled
  obtain ⟨ctx, _, sent⟩ := Finset.exists_ne_zero_of_sum_ne_zero (Nat.ne_of_gt signalled)
  rw [Worker.signaller, ne_eq, ite_eq_right_iff, not_forall] at sent
  exact ⟨ctx, sent.1⟩

variable (accounts : Accounts config state)

include accounts

theorem drawn_split (p : Nat → Bool) :
    state.drawn.countP p = state.completed.countP p +
      Pool.total (fun worker => worker.unfinished.countP (p ·)) state.worker := by
  have split : (state.drawn : Multiset Nat) =
      state.completed + Pool.total Worker.unfinished state.worker := by
    rw [accounts.issued, accounts.flying, add_assoc]
    congr 1
    exact Finset.sum_add_distrib.symm
  have counted := congrArg (Multiset.countP (p ·)) split
  rw [Multiset.coe_countP, Multiset.countP_add, Multiset.coe_countP] at counted
  simp only [Bool.decide_eq_true] at counted
  rw [counted]
  congr 1
  exact map_sum (Multiset.countPAddMonoidHom (p ·)) (fun ctx => (state.worker ctx).unfinished) _

theorem drawn_countP (exhausted : config.maxTrans ≤ state.drawn.length) (p : Nat → Bool) :
    (List.range' 1 config.maxTrans).countP p ≤ state.drawn.countP p ∧
      state.drawn.countP p ≤
        (List.range' 1 config.maxTrans).countP p + state.drawn.count 0 := by
  have tickets := Dispenser.draws_perm exhausted
  rw [← accounts.order] at tickets
  have parts := state.drawn.countP_eq_countP_filter_add p (1 ≤ ·)
  rw [tickets.countP_eq p] at parts
  have zeros : (state.drawn.filter fun ticket => !decide (1 ≤ ticket)).countP p ≤
      state.drawn.count 0 := by
    refine List.countP_le_length.trans_eq ?_
    rw [List.count, List.countP_eq_length_filter]
    congr 1
    refine List.filter_congr ?_
    intro ticket _
    cases ticket with
    | zero => rfl
    | succ below => simp
  omega

/-- When the master is signalled, each of the other workers can have one DMA under way, and can
have had one done for ticket zero. -/
theorem completed_near (staffed : Staffed state) (signalled : 1 ≤ state.signals)
    (p : Nat → Bool) :
    (List.range' 1 config.maxTrans).countP p + 1 ≤ state.completed.countP p + config.workers ∧
      state.completed.countP p + 1 ≤
        (List.range' 1 config.maxTrans).countP p + config.workers := by
  obtain ⟨ctx, waiting, held⟩ := exists_signaller accounts signalled
  have spent := completed_of_signalled accounts staffed signalled
  have drawn := Multiset.mem_of_le (tickets_le_drawn accounts)
    (Multiset.mem_of_le (completed_le_tickets accounts) spent)
  have exhausted := exhausted_of_drawn accounts (Nat.le_refl 1) drawn
  obtain ⟨least, most⟩ := drawn_countP accounts exhausted p
  have split := drawn_split accounts p
  have underway :
      Pool.total (fun worker => worker.unfinished.countP (p ·)) state.worker + 1 ≤
        Fintype.card (Fin config.workers) := by
    refine Pool.total_le_others state.worker ctx ?_ ?_
    · intro other
      exact (Multiset.countP_le_card _ _).trans (unfinished_card _)
    · rw [unfinished_waiting waiting, Multiset.countP_zero]
  have zeros : Pool.total (Worker.holds 0) state.worker + 1 ≤
      Fintype.card (Fin config.workers) := by
    refine Pool.total_le_others state.worker ctx (fun other => holds_le 0 _) ?_
    simp [Worker.holds, held]
  rw [accounts.last 0 (Nat.zero_le 1)] at zeros
  rw [Fintype.card_fin] at underway zeros
  omega

end Unfinished

/-- What `dma_bw` puts into `r`, with the clock read twice before the start signal and twice
after the last one. -/
def bwResult (clock : Stopwatch.Clock) (maxTrans : Nat) : TestResult where
  startHi := clock.hi 1
  startLo := clock.lo 0
  endHi := clock.hi 3
  endLo := clock.lo 2
  r0 := UInt32.ofNat maxTrans
  r1 := 0
  r2 := 0
  r3 := 0

structure BwRow where
  test : String
  pat : String
  cache : String
  hOff : UInt32
  dOff : UInt32
  winSz : UInt32
  transSz : UInt32
  cyc : ℚ
  ns : ℚ
  tbytes : Nat
  trans : Nat
  bw : ℚ
  rate : ℚ

/-- What `bw_test` makes of the numbers, up to the row. -/
def bwRow (freqMhz : Nat) (test : PciebenchTest) (params : TestParams) (cycles : Int)
    (r0 : UInt32) : Except Python.Error BwRow := do
  let trans := if test = .bwDmaRw then r0.toNat / 2 else r0.toNat
  let tbytes := params.p1.toNat * trans
  let tavgNs ← cyc2ns freqMhz cycles
  let bw ← Python.divide (8 * tbytes) tavgNs
  let rate ← Python.divide trans (tavgNs / (1000 * 1000 * 1000))
  return {
    test := testName test
    pat := patStr params.p0
    cache := cacheStr params.p0
    hOff := params.p3
    dOff := params.p4
    winSz := params.p2
    transSz := params.p1
    cyc := cycles
    ns := tavgNs
    tbytes
    trans
    bw
    rate }

def bwTest (chip : Chip) (test : PciebenchTest) (params : TestParams) (freqMhz : Nat)
    (testResult : Rtsym) : Except HostError BwRow := do
  (bwTestChecks chip test params.addrArgs).mapError .err
  let (cycles, res) ← getResult testResult
  let r0 ← (Python.item res 0).mapError .builtin
  (bwRow freqMhz test params cycles r0).mapError .builtin

section Row

variable {clock : Stopwatch.Clock} {freqMhz maxTrans : Nat}

theorem bwRow_ok (running : 0 < freqMhz) (test : PciebenchTest) (params : TestParams)
    {cycles : Int} (took : cycles ≠ 0) (r0 : UInt32) :
    ∃ row, bwRow freqMhz test params cycles r0 = .ok row ∧
      row.trans = (if test = .bwDmaRw then r0.toNat / 2 else r0.toNat) ∧
      row.tbytes = params.p1.toNat * row.trans ∧
      row.ns = cycles * (1000 / freqMhz) ∧
      row.bw * row.ns = 8 * row.tbytes ∧
      row.rate * row.ns = row.trans * 10 ^ 9 := by
  have clocked : (freqMhz : ℚ) ≠ 0 := Nat.cast_ne_zero.mpr running.ne'
  have cyclesNe : (cycles : ℚ) ≠ 0 := Int.cast_ne_zero.mpr took
  have tavg : cyc2ns freqMhz cycles = .ok (cycles * (1000 / freqMhz)) := by
    rw [cyc2ns, Python.divide_ok (by positivity)]
    congr 1
    field_simp
  have ns : (cycles * (1000 / freqMhz) : ℚ) ≠ 0 := by positivity
  rw [bwRow, tavg]
  simp only [Outcome.ok_bind]
  rw [Python.divide_ok ns, Outcome.ok_bind, Python.divide_ok (by positivity), Outcome.ok_bind]
  refine ⟨_, rfl, rfl, rfl, rfl, ?_, ?_⟩
  · exact div_mul_cancel₀ _ ns
  · simp only
    field_simp
    norm_num

end Row

/-- A descriptor that some worker makes for a ticket. -/
def BwDescriptor (chip : Chip) (test : PciebenchTest) (params : TestParams)
    (dmaAddrs : Nat → UInt64) (ticket : Nat) (enqueue : DmaEnqueue) : Prop :=
  ∃ context, enqueue = dmaBwEnqueue chip test
    (pcieDmaSetup chip context params.p1 params.p4) dmaAddrs (UInt32.ofNat ticket)

def movedBytes (chip : Chip) (dmas : List DmaEnqueue) : Nat :=
  (dmas.map fun enqueue => enqueue.cmd.bytes chip).sum

section Moved

variable {chip : Chip} {test : PciebenchTest} {params : TestParams} {dmaAddrs : Nat → UInt64}
  {tickets : List Nat} {dmas : List DmaEnqueue}

theorem BwDescriptor.bytes {ticket : Nat} {enqueue : DmaEnqueue}
    (descriptor : BwDescriptor chip test params dmaAddrs ticket enqueue)
    (accepted : Accepted chip test params.addrArgs) (bw : test ∈ bwTests)
    (nonempty : 0 < params.p1.toNat) : enqueue.cmd.bytes chip = params.p1.toNat := by
  obtain ⟨context, rfl⟩ := descriptor
  exact (accepted.dma_bytes (.inr (.inr bw)) context params.p4 _ _).mpr (.inr nonempty.ne')

theorem BwDescriptor.queue {ticket : Nat} {enqueue : DmaEnqueue}
    (descriptor : BwDescriptor chip .bwDmaRw params dmaAddrs ticket enqueue) :
    (enqueue.queue = nfpPcieDmaFromPciLo chip ↔ ticket % 2 = 1) ∧
      (enqueue.queue = nfpPcieDmaToPciLo chip ↔ ticket % 2 = 0) := by
  obtain ⟨context, rfl⟩ := descriptor
  have parity : bwRead .bwDmaRw (UInt32.ofNat ticket).toNat = true ↔ ticket % 2 = 1 := by
    rw [bwRead_rw, UInt32.toNat_ofNat']
    omega
  have apart : nfpPcieDmaToPciLo chip ≠ nfpPcieDmaFromPciLo chip := by cases chip <;> decide
  rw [dmaBwEnqueue]
  by_cases read : bwRead .bwDmaRw (UInt32.ofNat ticket).toNat = true
  · have odd := parity.mp read
    simp only [if_pos read, true_iff, apart.symm, false_iff]
    omega
  · have even := mt parity.mpr read
    simp only [if_neg read, apart, false_iff, true_iff]
    omega

theorem moved_countP {descriptor : Nat → DmaEnqueue → Prop} {chosen : DmaEnqueue → Bool}
    {p : Nat → Bool} {size : Nat}
    (each : ∀ ticket enqueue, descriptor ticket enqueue →
      chosen enqueue = p ticket ∧ enqueue.cmd.bytes chip = size)
    (made : List.Forall₂ descriptor tickets dmas) :
    movedBytes chip (dmas.filter chosen) = size * tickets.countP p := by
  induction made with
  | nil => rfl
  | @cons ticket enqueue tickets dmas here rest ih =>
      obtain ⟨same, bytes⟩ := each ticket enqueue here
      rw [List.filter_cons, List.countP_cons, same]
      split
      · rw [Nat.mul_add, ← ih, movedBytes, List.map_cons, List.sum_cons, bytes, Nat.mul_one,
          Nat.add_comm]
        rfl
      · exact ih

theorem bytes_near {size moved counted others : Nat} (least : counted + 1 ≤ moved + others)
    (most : moved + 1 ≤ counted + others) :
    |((size * moved : Nat) : ℚ) - (size * counted : Nat)| ≤ size * (others - 1) := by
  have below : (counted : ℚ) + 1 ≤ moved + others := by exact_mod_cast least
  have above : (moved : ℚ) + 1 ≤ counted + others := by exact_mod_cast most
  have apart : |(moved : ℚ) - counted| ≤ others - 1 :=
    abs_le.mpr ⟨by linarith only [below], by linarith only [above]⟩
  rw [Nat.cast_mul, Nat.cast_mul, ← mul_sub, abs_mul, Nat.abs_cast]
  exact mul_le_mul_of_nonneg_left apart (Nat.cast_nonneg size)

end Moved

theorem bwMaxTrans_even (flags : UInt32) : ∃ rounds, bwMaxTrans flags = 2 * rounds := by
  rw [bwMaxTrans]
  split
  · exact ⟨8388608, rfl⟩
  · exact ⟨4194304, rfl⟩

theorem bwMaxTrans_lt (flags : UInt32) : bwMaxTrans flags < 2 ^ 32 := by
  rw [bwMaxTrans]
  split <;> decide

/-- How many times `bw_test` counts the bytes of a row: a run in both directions is halved. -/
def bwDirections (test : PciebenchTest) : Nat :=
  if test = .bwDmaRw then 2 else 1

/-- The row of a bandwidth run states, in total and for each direction of a read/write test, the
bytes that have been moved when the end time is taken, up to one transfer for each worker but
one. -/
theorem bwTest_report (clock : Stopwatch.Clock) (chip : Chip) (config : BwConfig) (stale : Nat)
    (params : TestParams) (freqMhz : Nat)
    (passed : bwTestChecks chip config.test params.addrArgs = .ok ())
    (unrefused : params.addrArgs.refused = false) (nonempty : 0 < params.p1.toNat)
    (requested : config.maxTrans = bwMaxTrans params.p0) (running : 0 < freqMhz)
    (took : (bwResult clock config.maxTrans).ticks ≠ 0) (state : BwState config.workers)
    (reachable : BwReachable config stale state) (finished : state.master = .done)
    (dmaAddrs : Nat → UInt64) (dmas : List DmaEnqueue)
    (made : List.Forall₂ (BwDescriptor chip config.test params dmaAddrs) state.completed dmas) :
    ∃ count, state.r0 = some count ∧
      ∀ testResult, ReadsSymbol testResult (resultBytes (bwResult clock count)) →
        ∃ row, bwTest chip config.test params freqMhz testResult = .ok row ∧
          row.trans * bwDirections config.test = count ∧
          row.ns = 16 * (bwResult clock count).ticks * (1000 / freqMhz) ∧
          row.bw * row.ns = 8 * row.tbytes ∧
          row.rate * row.ns = row.trans * 10 ^ 9 ∧
          let slack : ℚ := params.p1.toNat * (config.workers - 1)
          |(movedBytes chip dmas : ℚ) - row.tbytes * bwDirections config.test| ≤ slack ∧
          (config.test = .bwDmaRw →
            ∀ queue ∈ [nfpPcieDmaFromPciLo chip, nfpPcieDmaToPciLo chip],
              |(movedBytes chip (dmas.filter (·.queue = queue)) : ℚ) - row.tbytes| ≤ slack) := by
  have accounts := accounts_reachable reachable
  have staffed := staffed_reachable reachable
  have signalled := accounts.woken (.inr finished)
  refine ⟨config.maxTrans, accounts.reported finished, ?_⟩
  intro testResult reads
  have bw : config.test ∈ bwTests := by
    simp only [bwTestChecks, bind_ok_unit, errIf_ok, not_not] at passed
    exact passed.1
  have accepted : Accepted chip config.test params.addrArgs := ⟨.inr passed, unrefused⟩
  have r0 : (UInt32.ofNat config.maxTrans).toNat = config.maxTrans := by
    rw [UInt32.toNat_ofNat', requested, Nat.mod_eq_of_lt (bwMaxTrans_lt _)]
  obtain ⟨row, printed, trans, tbytes, ns, bandwidth, rate⟩ := bwRow_ok running config.test params
    (show (bwResult clock config.maxTrans).ticks * 16 ≠ 0 by omega)
    (UInt32.ofNat config.maxTrans)
  have counted : row.trans * bwDirections config.test = config.maxTrans := by
    obtain ⟨rounds, total⟩ := bwMaxTrans_even params.p0
    rw [trans, r0, requested, bwDirections]
    split
    · omega
    · exact Nat.mul_one _
  refine ⟨row, ?_, counted, ?_, bandwidth, rate, ?_, ?_⟩
  · rw [bwTest, passed, getResult_ok reads]
    exact congrArg (Except.mapError HostError.builtin) printed
  · rw [ns]
    push_cast
    ring
  · have moved : movedBytes chip (dmas.filter fun _ => true) =
        params.p1.toNat * state.completed.countP fun _ => true :=
      moved_countP (fun _ _ descriptor => ⟨rfl, descriptor.bytes accepted bw nonempty⟩) made
    obtain ⟨least, most⟩ := completed_near accounts staffed signalled fun _ => true
    rw [List.filter_true, List.countP_true] at moved
    rw [List.countP_true, List.length_range'] at least most
    rw [← Nat.cast_mul, tbytes, Nat.mul_assoc, counted, moved]
    exact bytes_near least most
  · intro readWrite queue member
    obtain ⟨rounds, total⟩ := bwMaxTrans_even params.p0
    have half : row.trans = rounds := by
      rw [requested, total, bwDirections, if_pos readWrite] at counted
      omega
    obtain ⟨residue, inside, chosen⟩ : ∃ residue < 2, ∀ ticket enqueue,
        BwDescriptor chip config.test params dmaAddrs ticket enqueue →
          (enqueue.queue = queue ↔ ticket % 2 = residue) := by
      rw [readWrite]
      simp only [List.mem_cons, List.not_mem_nil, or_false] at member
      rcases member with rfl | rfl
      · exact ⟨1, by decide, fun _ _ descriptor => descriptor.queue.1⟩
      · exact ⟨0, by decide, fun _ _ descriptor => descriptor.queue.2⟩
    have moved : movedBytes chip (dmas.filter (·.queue = queue)) =
        params.p1.toNat * state.completed.countP (· % 2 = residue) :=
      moved_countP (fun ticket enqueue descriptor =>
        ⟨decide_eq_decide.mpr (chosen ticket enqueue descriptor),
          descriptor.bytes accepted bw nonempty⟩) made
    obtain ⟨least, most⟩ := completed_near accounts staffed signalled (· % 2 = residue)
    rw [requested, total, PeriodicSearch.countP_residue 1 rounds inside] at least most
    rw [tbytes, half, moved]
    exact bytes_near least most

theorem exists_done (config : BwConfig) (stale : Nat) (workers : 1 ≤ config.workers)
    (tickets : 1 ≤ config.maxTrans) :
    ∃ state, BwReachable config stale state ∧ state.master = .done := by
  obtain ⟨state, reached, master, counter, worker⟩ := exists_launch config stale 1 workers
  let first : Fin config.workers := ⟨0, workers⟩
  have ready : state.worker first = ⟨.looping, none, false⟩ := by
    rw [worker]
    rfl
  obtain ⟨drained, drains, drainedMaster, _, drainedWorker⟩ := exists_drain ready
  have here : drained.worker first = ⟨.left, some 1, false⟩ := by
    rw [drainedWorker, Function.update_self, counter, Nat.min_eq_right tickets]
  let signalled : BwState config.workers := {
    drained.setWorker first ⟨.waiting, some 1, false⟩ with
    masterSig := true
    signals := drained.signals + 1
  }
  have leaves : bwStep config drained (.leave first) = some signalled := by
    simp only [bwStep, here, if_true]
    rfl
  have ready : signalled.master = .waiting ∧ signalled.masterSig = true :=
    ⟨drainedMaster.trans master, rfl⟩
  refine ⟨{ signalled with master := .done, masterSig := false, r0 := some config.maxTrans },
    ((reached.trans drains).trans (Reachable.one _ leaves)).trans
      (Reachable.one .finish ?_), rfl⟩
  simp only [bwStep, ready, and_self, if_true]

theorem bwTest_report_readWrite :
    ∃ state, ∃ dmas : List DmaEnqueue, ∃ row, BwReachable ⟨95, 8388608, .bwDmaRw⟩ 0 state ∧
      bwTest .nfp6000 .bwDmaRw { p0 := 4, p1 := 64, p2 := 8192, p3 := 0, p4 := 0 } 1200
        (rawSymbol (resultBytes (bwResult steadyClock 8388608))) = .ok row ∧
      |(movedBytes .nfp6000 (dmas.filter (·.queue = nfpPcieDmaFromPciLo .nfp6000)) : ℚ) -
        row.tbytes| ≤ (64 : Nat) * ((95 : Nat) - 1) ∧
      dmas.length = state.completed.length := by
  obtain ⟨state, reachable, finished⟩ :=
    exists_done ⟨95, 8388608, .bwDmaRw⟩ 0 (by decide) (by decide)
  let dmas := state.completed.map fun ticket => dmaBwEnqueue .nfp6000 .bwDmaRw
    (pcieDmaSetup .nfp6000 ⟨0, 0, 5, 0, 0⟩ 64 0) (fun _ => 0x40000000)
    (UInt32.ofNat ticket)
  have made : List.Forall₂ (BwDescriptor .nfp6000 .bwDmaRw
      { p0 := 4, p1 := 64, p2 := 8192, p3 := 0, p4 := 0 } fun _ => 0x40000000)
      state.completed dmas := by
    rw [List.forall₂_map_right_iff, List.forall₂_same]
    intro ticket _
    exact ⟨_, rfl⟩
  obtain ⟨count, r0, reports⟩ := bwTest_report steadyClock .nfp6000 ⟨95, 8388608, .bwDmaRw⟩ 0
    { p0 := 4, p1 := 64, p2 := 8192, p3 := 0, p4 := 0 } 1200 rfl rfl (by decide) (by decide)
    (by decide) (by decide) state reachable finished (fun _ => 0x40000000) dmas made
  have same : count = 8388608 := by
    rw [(accounts_reachable reachable).reported finished] at r0
    exact (Option.some.inj r0).symm
  subst same
  obtain ⟨row, printed, _, _, _, _, _, directions⟩ := reports _ (rawSymbol_reads _)
  exact ⟨state, dmas, row, reachable, printed, directions rfl _ (by simp),
    List.length_map _⟩

end Pciebench
