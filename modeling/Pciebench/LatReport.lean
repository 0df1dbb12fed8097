import Mathlib
import Pciebench.HostChecks
import Pciebench.LatencyTiming
import Pciebench.Lib.CellRing
import Pciebench.Lib.PackedWords
import Pciebench.Percentile

/-!
What `lat_test` (`nfpbench.py`) makes of a test that has run: the result and the journal read
back from the card, and the row of the table. `/` is that of Python 2.7, on exact fractions where
it has floats.
-/

namespace Pciebench

open Python (Error)

/-- What ends the host's program: `err`, a built-in function, or `struct.unpack`. -/
inductive HostError
  | err (msg : String)
  | builtin (error : Error)
  | struct
  deriving DecidableEq, Repr

/-- What `nfp-rtsym -R` prints of a symbol, with the length from `-l`, if there is one. -/
abbrev Rtsym := Option Nat → List UInt8

section Reading

variable (rtsym : Rtsym)

/-- `_sym_read`, for which a length of 0 is none. -/
def symRead (length : Option Nat) : List UInt8 :=
  if length = some 0 then rtsym none else rtsym length

/-- `struct.unpack('<%uIc')`, without the last character. -/
def unpackWords (count : Nat) (mem : List UInt8) : Except HostError (List UInt32) :=
  match PackedWords.unpackAll count mem with
  | some (words, _) => .ok words
  | none => .error .struct

def getResult : Except HostError (Int × List UInt32) := do
  let tmp ← unpackWords resultWordCount (symRead rtsym none)
  match tmp with
  | [startHi, startLo, endHi, endLo, r0, r1, r2, r3] =>
      let start : Int := startHi.toNat * 2 ^ 32 + startLo.toNat
      let stop : Int := endHi.toNat * 2 ^ 32 + endLo.toNat
      .ok ((stop - start) * 16, [r0, r1, r2, r3])
  | _ => .error (.builtin .indexError)

def readJournal (count : Option Nat) : Except HostError (List UInt32) :=
  let size := 4 * pciebenchJournalSz
  let byteCnt := (count.map fun count => min size (count * 4)).getD size
  unpackWords (byteCnt / 4) (symRead rtsym (some byteCnt))

def getJournal (count : Option Nat) (nullcheck : Bool) :
    Except HostError (List UInt32 × Option String) := do
  let res ← readJournal rtsym count
  let nullcount := res.countP (· = 0)
  if nullcheck ∧ nullcount ≠ 0 then
    .ok (res, some ("journal countains " ++ toString nullcount ++ " null entries"))
  else
    .ok (res, none)

end Reading

def testName : PciebenchTest → String
  | .latCmdRd => "LAT_CMD_RD"
  | .latCmdWrrd => "LAT_CMD_WRRD"
  | .latDmaRd => "LAT_DMA_RD"
  | .latDmaWrrd => "LAT_DMA_WRRD"
  | .bwDmaRd => "BW_DMA_RD"
  | .bwDmaWr => "BW_DMA_WR"
  | .bwDmaRw => "BW_DMA_RW"

def patStr (flags : UInt32) : String :=
  if flagSet flags latFlagsRandom then "Rand" else "Seq"

/-- The last flag that is set names the cache. -/
def cacheStr (flags : UInt32) : String :=
  if flagSet flags flagsHostwarm then "HWarm"
  else if flagSet flags latFlagsThrash then "DThrash"
  else if flagSet flags latFlagsWarm then "DWarm"
  else "Cold"

/-- The statistics of a row, in cycles or in nanoseconds. -/
structure LatStats where
  tavg : ℚ
  avg : ℚ
  med : ℚ
  min : ℚ
  max : ℚ
  per95 : ℚ
  per99 : ℚ

structure LatRow where
  test : String
  pat : String
  cache : String
  hOff : UInt32
  dOff : UInt32
  winSz : UInt32
  transSz : UInt32
  cyc : LatStats
  ns : LatStats
  outliers : Nat
  samples : UInt32

def ListStats.avg (stats : ListStats ℚ) : ℚ :=
  if stats.list = [] then 0 else stats.list.sum / stats.list.length

def cyc2ns (freqMhz : Nat) (cycles : ℚ) : Except Error ℚ :=
  Python.divide (cycles * (1000 * 1000 * 1000)) (freqMhz * 1000 * 1000)

def ListStats.summary (stats : ListStats ℚ) (tavg : ℚ) : Except Error LatStats := do
  let avg := stats.avg
  let med ← stats.median
  let min ← stats.min
  let max ← stats.max
  let per95 ← stats.percentile 95
  let per99 ← stats.percentile 99.9
  return { tavg, avg, med, min, max, per95, per99 }

def LatStats.toNs (freqMhz : Nat) (cyc : LatStats) : Except Error LatStats := do
  let tavg ← cyc2ns freqMhz cyc.tavg
  let avg ← cyc2ns freqMhz cyc.avg
  let med ← cyc2ns freqMhz cyc.med
  let min ← cyc2ns freqMhz cyc.min
  let max ← cyc2ns freqMhz cyc.max
  let per95 ← cyc2ns freqMhz cyc.per95
  let per99 ← cyc2ns freqMhz cyc.per99
  return { tavg, avg, med, min, max, per95, per99 }

/-- The card after a test: its clock in MHz, and its two symbols as `nfp-rtsym` prints them. -/
structure TestedCard where
  freqMhz : Nat
  testResult : Rtsym
  testJournal : Rtsym

/-- What `lat_test` makes of the numbers, up to the row. -/
def latRow (freqMhz : Nat) (test : PciebenchTest) (params : TestParams) (cycles : Int)
    (samples : UInt32) (timestamps : List UInt32) : Except Error LatRow := do
  let latCyc : List ℚ := timestamps.map fun ticks => ticks.toNat * 16
  let tavg ← Python.floorDivide cycles samples.toNat
  let cyc ← (ListStats.init latCyc).summary tavg
  let ns ← cyc.toNs freqMhz
  return {
    test := testName test
    pat := patStr params.p0
    cache := cacheStr params.p0
    hOff := params.p3
    dOff := params.p4
    winSz := params.p2
    transSz := params.p1
    cyc
    ns
    outliers := latCyc.countP (· > 3 * cyc.per95)
    samples }

/-- The row, and the warning that is printed with it, if any. -/
def latTest (chip : Chip) (test : PciebenchTest) (params : TestParams) (card : TestedCard) :
    Except HostError (LatRow × Option String) := do
  (latTestChecks chip test params.addrArgs).mapError .err
  let (cycles, res) ← getResult card.testResult
  let samples ← (Python.item res 0).mapError .builtin
  let (timestamps, warning) ← getJournal card.testJournal (some samples.toNat) true
  let row ← (latRow card.freqMhz test params cycles samples timestamps).mapError .builtin
  return (row, warning)

/-- The statistics stand in the order that their names promise. -/
structure LatStats.Ordered (stats : LatStats) : Prop where
  minMed : stats.min ≤ stats.med
  medPer95 : stats.med ≤ stats.per95
  per95Per99 : stats.per95 ≤ stats.per99
  per99Max : stats.per99 ≤ stats.max
  minAvg : stats.min ≤ stats.avg
  avgMax : stats.avg ≤ stats.max

/-- What the statistics say of the samples they are taken from. -/
structure LatStats.Of (samples : List ℚ) (tavg : ℚ) (stats : LatStats) : Prop where
  tavg : stats.tavg = tavg
  avg : stats.avg * samples.length = samples.sum
  min : stats.min ∈ samples ∧ ∀ sample ∈ samples, stats.min ≤ sample
  max : stats.max ∈ samples ∧ ∀ sample ∈ samples, sample ≤ stats.max
  ordered : stats.Ordered
  tail : 20 * samples.countP (stats.per95 < ·) ≤ samples.length + 18

section Summary

variable {samples : List ℚ} (nonempty : samples ≠ [])

include nonempty

theorem avg_mul_length : (ListStats.init samples).avg * samples.length = samples.sum := by
  have count : (samples.length : ℚ) ≠ 0 :=
    Nat.cast_ne_zero.mpr (List.length_pos_of_ne_nil nonempty).ne'
  rw [ListStats.avg, if_neg (by exact nonempty)]
  exact div_mul_cancel₀ _ count

omit nonempty in
theorem avg_between {low high avg : ℚ} (nonempty : samples ≠ [])
    (avgEq : avg * samples.length = samples.sum) (above : ∀ sample ∈ samples, low ≤ sample)
    (below : ∀ sample ∈ samples, sample ≤ high) : low ≤ avg ∧ avg ≤ high := by
  have count : (0 : ℚ) < samples.length := Nat.cast_pos.mpr (List.length_pos_of_ne_nil nonempty)
  have least := List.card_nsmul_le_sum samples low above
  have most := List.sum_le_card_nsmul samples high below
  rw [nsmul_eq_mul, ← avgEq, mul_comm] at least most
  exact ⟨le_of_mul_le_mul_right least count, le_of_mul_le_mul_right (by linarith only [most]) count⟩

theorem tail_le :
    20 * samples.countP (Samples.interpolate
        ((ListStats.init samples).ranks (sortedList_pos nonempty))
        (place (ListStats.init samples) 95) < ·) ≤ samples.length + 18 := by
  have pos := sortedList_pos nonempty
  have sorted := Python.sorted_perm samples
  have length : (ListStats.init samples).sortedList.length = samples.length := sorted.length_eq
  have floorStart : 0 ≤ ⌊place (ListStats.init samples) 95⌋ :=
    Int.floor_nonneg.mpr (place_nonneg pos (by norm_num))
  have floorLe := Int.floor_le (place (ListStats.init samples) 95)
  have floorNear := Int.lt_floor_add_one (place (ListStats.init samples) 95)
  have below := Samples.le_interpolate (ranks_monotone nonempty)
    (place (ListStats.init samples) 95)
  have placeEq : 20 * place (ListStats.init samples) 95 = 19 * (samples.length - 1) := by
    rw [place, length]
    ring
  generalize place (ListStats.init samples) 95 = index at *
  have upper : 20 * ⌊index⌋ ≤ 19 * ((samples.length : ℤ) - 1) := by
    have cast : (20 * ⌊index⌋ : ℚ) ≤ 19 * ((samples.length : ℚ) - 1) := by
      linarith only [floorLe, placeEq]
    exact_mod_cast cast
  have lower : 19 * ((samples.length : ℤ) - 1) < 20 * (⌊index⌋ + 1) := by
    have cast : 19 * ((samples.length : ℚ) - 1) < 20 * (⌊index⌋ + 1) := by
      linarith only [floorNear, placeEq]
    exact_mod_cast cast
  have inside : ⌊index⌋.toNat < (ListStats.init samples).sortedList.length := by omega
  rw [ListStats.ranks, Samples.rank_of_lt inside] at below
  generalize Samples.interpolate _ index = bound at below ⊢
  have counted : (ListStats.init samples).sortedList.countP (bound < ·) + ⌊index⌋.toNat + 1 ≤
      (ListStats.init samples).sortedList.length :=
    Samples.countP_above_le (Python.sorted_ordered samples) inside below
  have same : (ListStats.init samples).sortedList.countP (bound < ·) =
      samples.countP (bound < ·) := sorted.countP_eq _
  omega

theorem summary_of (tavg : ℚ) :
    ∃ stats, (ListStats.init samples).summary tavg = .ok stats ∧ stats.Of samples tavg := by
  have pos := sortedList_pos nonempty
  have sorted := Python.sorted_perm samples
  have ascending := ranks_monotone nonempty
  have along := Samples.interpolate_monotone ascending
  have places : Monotone (place (ListStats.init samples)) := place_monotone pos
  have first : Samples.interpolate ((ListStats.init samples).ranks pos)
      (place (ListStats.init samples) 0) = (ListStats.init samples).ranks pos 0 := by
    rw [place_zero, Samples.interpolate_intCast]
  have last : Samples.interpolate ((ListStats.init samples).ranks pos)
      (place (ListStats.init samples) 100) =
        (ListStats.init samples).ranks pos ((ListStats.init samples).sortedList.length - 1) := by
    rw [place_hundred, Samples.interpolate_intCast]
  have listed (index : ℤ) : (ListStats.init samples).ranks pos index ∈ samples :=
    sorted.mem_iff.mp (Samples.rank_mem index)
  have least (sample : ℚ) (member : sample ∈ samples) :
      (ListStats.init samples).ranks pos 0 ≤ sample :=
    Samples.rank_first (Python.sorted_ordered samples) (sorted.mem_iff.mpr member)
  have most (sample : ℚ) (member : sample ∈ samples) :
      sample ≤
        (ListStats.init samples).ranks pos ((ListStats.init samples).sortedList.length - 1) :=
    Samples.rank_last (Python.sorted_ordered samples) (sorted.mem_iff.mpr member)
  have average := avg_mul_length nonempty
  obtain ⟨minAvg, avgMax⟩ := avg_between nonempty average least most
  rw [ListStats.summary, median_eq pos, min_eq_rank nonempty, max_eq_rank nonempty,
    percentile_eq pos (by norm_num) (by norm_num), percentile_eq pos (by norm_num) (by norm_num)]
  refine ⟨_, rfl, rfl, average, ⟨listed 0, least⟩, ⟨listed _, most⟩,
    ⟨?_, ?_, ?_, ?_, minAvg, avgMax⟩, tail_le nonempty⟩
  · exact first.symm.le.trans (along (places (by norm_num)))
  · exact along (places (by norm_num))
  · exact along (places (by norm_num))
  · exact (along (places (by norm_num))).trans last.le

end Summary

def LatStats.scale (stats : LatStats) (factor : ℚ) : LatStats where
  tavg := stats.tavg * factor
  avg := stats.avg * factor
  med := stats.med * factor
  min := stats.min * factor
  max := stats.max * factor
  per95 := stats.per95 * factor
  per99 := stats.per99 * factor

theorem cyc2ns_ok {freqMhz : Nat} (running : 0 < freqMhz) (cycles : ℚ) :
    cyc2ns freqMhz cycles = .ok (cycles * (1000 / freqMhz)) := by
  have nonzero : (freqMhz : ℚ) ≠ 0 := Nat.cast_ne_zero.mpr running.ne'
  rw [cyc2ns, Python.divide_ok (by positivity)]
  congr 1
  field_simp

theorem toNs_ok {freqMhz : Nat} (running : 0 < freqMhz) (cyc : LatStats) :
    cyc.toNs freqMhz = .ok (cyc.scale (1000 / freqMhz)) := by
  simp only [LatStats.toNs, cyc2ns_ok running]
  rfl

/-- The tool prints the bytes of the symbol, as many as asked for, and one character more. -/
structure ReadsSymbol (rtsym : Rtsym) (bytes : List UInt8) : Prop where
  whole : ∃ last, rtsym none = bytes ++ [last]
  part : ∀ length, 0 < length → length ≤ bytes.length →
    ∃ last, rtsym (some length) = bytes.take length ++ [last]

def resultBytes (r : TestResult) : List UInt8 :=
  PackedWords.packAll ((List.range resultWordCount).map r.word)

def journalBytes (ring : CellRing UInt32 pciebenchJournalSz) : List UInt8 :=
  PackedWords.packAll ((List.range pciebenchJournalSz).map ring.cells)

section Card

variable {rtsym : Rtsym}

theorem unpackWords_packAll (words : List UInt32) (last : UInt8) :
    unpackWords words.length (PackedWords.packAll words ++ [last]) = .ok words := by
  rw [unpackWords, PackedWords.unpackAll_packAll]

theorem getResult_ok {r : TestResult} (reads : ReadsSymbol rtsym (resultBytes r)) :
    getResult rtsym = .ok (r.ticks * 16, [r.r0, r.r1, r.r2, r.r3]) := by
  obtain ⟨last, whole⟩ := reads.whole
  have tmp : unpackWords resultWordCount (symRead rtsym none) =
      .ok ((List.range resultWordCount).map r.word) := by
    have unpacked := unpackWords_packAll ((List.range resultWordCount).map r.word) last
    rw [List.length_map, List.length_range] at unpacked
    rw [symRead, if_neg (by simp), whole]
    exact unpacked
  rw [getResult, tmp]
  simp only [TestResult.ticks, Words.toNat_join]
  rfl

theorem readJournal_fresh {ring : CellRing UInt32 pciebenchJournalSz} (fresh : ring.tail = 0)
    {values : List UInt32} (nonempty : 0 < values.length)
    (fits : values.length ≤ pciebenchJournalSz)
    (reads : ReadsSymbol rtsym (journalBytes (ring.pushAll values))) :
    readJournal rtsym (some values.length) = .ok values := by
  have size : (journalBytes (ring.pushAll values)).length = 4 * pciebenchJournalSz := by
    rw [journalBytes, PackedWords.packAll_length, List.length_map, List.length_range]
  obtain ⟨last, part⟩ := reads.part (4 * values.length) (by omega) (by omega)
  have kept : ((List.range pciebenchJournalSz).map (ring.pushAll values).cells).take
      values.length = values := by
    rw [← List.map_take, List.take_range, Nat.min_eq_left fits]
    exact CellRing.pushAll_fresh fresh fits
  have byteCnt : min (4 * pciebenchJournalSz) (values.length * 4) = 4 * values.length := by omega
  have sized : some (4 * values.length) ≠ some 0 := by
    simp only [ne_eq, Option.some.injEq]
    omega
  rw [readJournal]
  simp only [Option.map_some, Option.getD_some, byteCnt]
  rw [symRead, if_neg sized, part, journalBytes, PackedWords.take_packAll, kept,
    Nat.mul_div_cancel_left _ (by decide)]
  exact unpackWords_packAll values last

end Card

section Report

/-- The cycles that the host makes of the time of each transaction. -/
def latCycles (clock : Stopwatch.Clock) (count : Nat) : List ℚ :=
  (List.range count).map fun trans =>
    ((clock.elapsed (2 + 2 * trans) (2 + 2 * trans + 1) % 2 ^ 32 : Nat) : ℚ) * 16

/-- The warning that is due when some transaction took no time at all, as far as 32 bits hold
it. -/
def latWarning (clock : Stopwatch.Clock) (count : Nat) : Option String :=
  let nullcount := (latCycles clock count).countP (· = 0)
  if nullcount = 0 then none
  else some ("journal countains " ++ toString nullcount ++ " null entries")

variable (clock : Stopwatch.Clock) (count : Nat)

theorem laps_cycles :
    (Stopwatch.laps clock count 2).map (fun ticks => ((ticks.toNat : ℚ) * 16)) =
      latCycles clock count := by
  rw [Stopwatch.laps, List.map_map, latCycles]
  refine List.map_congr_left ?_
  intro trans _
  change (((clock.lo (2 + 2 * trans + 1) - clock.lo (2 + 2 * trans)).toNat : ℚ)) * 16 = _
  rw [clock.lo_sub (Nat.le_add_right _ 1)]

theorem laps_nulls :
    (Stopwatch.laps clock count 2).countP (· = 0) = (latCycles clock count).countP (· = 0) := by
  rw [← laps_cycles, List.countP_map]
  refine List.countP_congr ?_
  intro ticks _
  have zero : ticks = 0 ↔ ticks.toNat = 0 := UInt32.toNat_inj.symm
  simp [zero]

theorem getJournal_fresh {rtsym : Rtsym} {ring : CellRing UInt32 pciebenchJournalSz}
    (fresh : ring.tail = 0) (nonempty : 0 < count) (fits : count ≤ pciebenchJournalSz)
    (reads : ReadsSymbol rtsym (journalBytes (ring.pushAll (Stopwatch.laps clock count 2)))) :
    getJournal rtsym (some count) true =
      .ok (Stopwatch.laps clock count 2, latWarning clock count) := by
  have length := Stopwatch.laps_length clock count 2
  have journal := readJournal_fresh fresh (by omega) (by omega) reads
  rw [length] at journal
  rw [getJournal, journal, Outcome.ok_bind, latWarning, laps_nulls]
  simp only [true_and, ne_eq, ite_not]
  split <;> rfl

theorem latCycles_length : (latCycles clock count).length = count := by
  rw [latCycles, List.length_map, List.length_range]

variable {clock count} in
theorem latCycles_nonneg {cycles : ℚ} (member : cycles ∈ latCycles clock count) : 0 ≤ cycles := by
  obtain ⟨trans, _, rfl⟩ := List.mem_map.mp member
  positivity

theorem latCycles_sum_le :
    (latCycles clock count).sum ≤ (clock.elapsed 0 (2 + 2 * count) : ℚ) * 16 := by
  have whole := laps_sum_le clock count
  have cast : (((Stopwatch.laps clock count 2).map UInt32.toNat).sum : ℚ) ≤
      clock.elapsed 0 (2 + 2 * count) := by exact_mod_cast whole
  rw [← laps_cycles, List.sum_map_mul_right]
  refine mul_le_mul_of_nonneg_right ?_ (by norm_num)
  rw [Nat.cast_list_sum, List.map_map] at cast
  exact cast

variable {clock count} in
/-- With `torn` carries too many between the halves of the timestamps. -/
theorem avg_lt_tavg {stats : LatStats} {torn tavg : ℚ}
    (of : stats.Of (latCycles clock count) tavg)
    (total : (clock.elapsed 0 (2 + 2 * count) + torn) * 16 < (tavg + 1) * count)
    (enough : 0 ≤ torn) : stats.avg < stats.tavg + 1 := by
  have length := of.avg
  have sum := latCycles_sum_le clock count
  rw [latCycles_length] at length
  rw [of.tavg]
  refine lt_of_mul_lt_mul_right ?_ (Nat.cast_nonneg count : (0 : ℚ) ≤ count)
  rw [length]
  linarith only [sum, enough, total]

variable {clock count} in
theorem outliers_le {stats : LatStats} {tavg : ℚ} (of : stats.Of (latCycles clock count) tavg) :
    20 * (latCycles clock count).countP (· > 3 * stats.per95) ≤ count + 18 := by
  have tail := of.tail
  have least := latCycles_nonneg of.min.1
  have upper := of.ordered.minMed.trans of.ordered.medPer95
  have fewer : (latCycles clock count).countP (· > 3 * stats.per95) ≤
      (latCycles clock count).countP (stats.per95 < ·) := by
    refine List.countP_mono_left ?_
    intro cycles _ far
    have far := of_decide_eq_true far
    exact decide_eq_true (by linarith only [far, least, upper])
  rw [latCycles_length] at tail
  omega

end Report

theorem latMaxTrans_pos (flags : UInt32) : 0 < latMaxTrans flags := by
  rw [latMaxTrans]
  split <;> decide

theorem latMaxTrans_le (flags : UInt32) : latMaxTrans flags ≤ pciebenchJournalSz := by
  rw [latMaxTrans]
  split <;> decide

section Row

variable {clock : Stopwatch.Clock} {count freqMhz : Nat} {samples : UInt32}
  (nonempty : 0 < count) (counted : samples.toNat = count) (running : 0 < freqMhz)

include nonempty counted running

theorem latRow_ok (test : PciebenchTest) (params : TestParams) (cycles : Int) :
    ∃ row, latRow freqMhz test params cycles samples (Stopwatch.laps clock count 2) = .ok row ∧
      row.samples = samples ∧ row.cyc.Of (latCycles clock count) (cycles / (count : ℤ) : ℤ) ∧
      row.outliers = (latCycles clock count).countP (· > 3 * row.cyc.per95) ∧
      row.ns = row.cyc.scale (1000 / freqMhz) := by
  have some' : latCycles clock count ≠ [] := by
    rw [← List.length_pos_iff, latCycles_length]
    exact nonempty
  have divisor : (0 : ℤ) < count := Int.natCast_pos.mpr nonempty
  obtain ⟨cyc, summary, of⟩ := summary_of some' (cycles / (count : ℤ) : ℤ)
  rw [latRow, laps_cycles, counted, Python.floorDivide_ok divisor]
  simp only [Outcome.ok_bind, summary, toNs_ok running]
  exact ⟨_, rfl, rfl, of, rfl, rfl⟩

end Row

theorem latTest_complete {clock : Stopwatch.Clock} {chip : Chip} {test : PciebenchTest}
    {params : TestParams} {timed : TimedTest}
    (passed : latTestChecks chip test params.addrArgs = .ok ())
    (complete : timed.Complete clock (latMaxTrans params.p0))
    {ring : CellRing UInt32 pciebenchJournalSz} {card : TestedCard} (fresh : ring.tail = 0)
    (running : 0 < card.freqMhz) (readsResult : ReadsSymbol card.testResult (resultBytes timed.r))
    (readsJournal : ReadsSymbol card.testJournal
      (journalBytes (ring.pushAll timed.testJournal))) :
    let count := latMaxTrans params.p0
    let last := 2 + 2 * count
    ∃ row, latTest chip test params card = .ok (row, latWarning clock count) ∧
      row.samples.toNat = count ∧
      row.cyc.Of (latCycles clock count) (16 * timed.r.ticks / (count : ℤ) : ℤ) ∧
      (clock.carries 0 1 ≤ clock.carries last (last + 1) → row.cyc.avg < row.cyc.tavg + 1) ∧
      row.outliers = (latCycles clock count).countP (· > 3 * row.cyc.per95) ∧
      20 * row.outliers ≤ count + 18 ∧
      row.ns = row.cyc.scale (1000 / card.freqMhz) := by
  have small := latMaxTrans_lt params.p0
  have nonempty := latMaxTrans_pos params.p0
  have fits := latMaxTrans_le params.p0
  dsimp only
  generalize latMaxTrans params.p0 = count at small nonempty fits complete ⊢
  have counted := latResult_r0 clock count small
  have ticks := latResult_ticks clock count
  rw [complete.r] at readsResult ⊢
  rw [complete.testJournal] at readsJournal
  have journal := getJournal_fresh clock count fresh nonempty fits readsJournal
  obtain ⟨row, made, samples, of, outliers, ns⟩ := latRow_ok nonempty counted running test params
    ((latResult clock count).ticks * 16)
  refine ⟨row, ?_, ?_, ?_, ?_, outliers, ?_, ns⟩
  · have first : Python.item [(latResult clock count).r0, (latResult clock count).r1,
        (latResult clock count).r2, (latResult clock count).r3] 0 =
          .ok (latResult clock count).r0 := rfl
    rw [latTest, passed, getResult_ok readsResult]
    simp only [Except.mapError, Outcome.ok_bind, first, counted, journal, made]
    rfl
  · rw [samples, counted]
  · rw [mul_comm]
    exact of
  · intro enough
    have ordered : (clock.carries 0 1 : ℚ) ≤
        clock.carries (2 + 2 * count) (2 + 2 * count + 1) := by
      exact_mod_cast enough
    have floored := Int.lt_ediv_add_one_mul_self ((latResult clock count).ticks * 16)
      (Int.natCast_pos.mpr nonempty : (0 : ℤ) < count)
    generalize (latResult clock count).ticks * 16 / (count : ℤ) = tavg at floored of
    rw [ticks] at floored
    have total : (clock.elapsed 0 (2 + 2 * count) +
        (clock.carries (2 + 2 * count) (2 + 2 * count + 1) - clock.carries 0 1) * 2 ^ 32 : ℚ) *
          16 < ((tavg : ℚ) + 1) * count := by exact_mod_cast floored
    exact avg_lt_tavg of total
      (mul_nonneg (sub_nonneg.mpr ordered) (by positivity))
  · rw [outliers]
    exact outliers_le of

theorem latTests_of_passed {chip : Chip} {test : PciebenchTest} {args : AddrArgs}
    (passed : latTestChecks chip test args = .ok ()) : test ∈ latTests := by
  simp only [latTestChecks, bind_ok_unit, errIf_ok, not_not] at passed
  exact passed.1

def rawSymbol (bytes : List UInt8) : Rtsym :=
  fun length => bytes.take (length.getD bytes.length) ++ [10]

theorem rawSymbol_reads (bytes : List UInt8) : ReadsSymbol (rawSymbol bytes) bytes where
  whole := ⟨10, by rw [rawSymbol, Option.getD_none, List.take_length]⟩
  part := fun _ _ _ => ⟨10, rfl⟩

end Pciebench
