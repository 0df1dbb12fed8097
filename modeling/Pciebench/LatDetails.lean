import Mathlib
import Pciebench.LatReport
import Pciebench.Stats
import Pciebench.TableWriter

/-!
`run_lat_details`: longer latency tests, the rows that they print, the distribution of the
samples of each in a second table, and all its samples in a raw file.
-/

namespace Pciebench

open DataSets Outcome TableWriter
open Python (Error)

structure LatDetail where
  test : PciebenchTest
  transSz : UInt32
  winSz : UInt32
  flags : UInt32

def LatDetail.params (detail : LatDetail) : TestParams where
  p0 := detail.flags
  p1 := detail.transSz
  p2 := detail.winSz
  p3 := 0
  p4 := 0

/-- The two groups of tests; each has files of its own. -/
inductive DetailGroup
  | cmd
  | dma

def DetailGroup.base : DetailGroup → String
  | .cmd => "lat_cmd_details"
  | .dma => "lat_dma_details"

def DetailGroup.transSzs : DetailGroup → List UInt32
  | .cmd => [8]
  | .dma => [64, 2048]

def DetailGroup.tests : DetailGroup → List PciebenchTest
  | .cmd => [.latCmdRd, .latCmdWrrd]
  | .dma => [.latDmaRd, .latDmaWrrd]

def DetailGroup.title : DetailGroup → String
  | .cmd => "\nPCIe CMD latencies with more details"
  | .dma => "\nPCIe DMA latencies with more details"

def detailWinSzs : List UInt32 := [8192, 64 * 1024 * 1024]

def detailFlags : List UInt32 :=
  let commonFlags := latFlagsLong ||| latFlagsRandom
  [commonFlags, commonFlags ||| flagsHostwarm]

/-- The runs of one test, in the order of the loops. -/
def DetailGroup.runs (group : DetailGroup) (test : PciebenchTest) : List LatDetail :=
  group.transSzs.flatMap fun transSz =>
    detailWinSzs.flatMap fun winSz =>
      detailFlags.map fun flags => { test, transSz, winSz, flags }

structure CdfRow where
  cycles : ℚ
  ns : ℚ
  cdf : ℚ

/-- What the two writers and the raw file are given, which do not depend on each other. -/
structure DetailLog where
  rows : List (Call LatRow)
  cdf : List (Call CdfRow)
  raw : List (Line ℚ)

/-- The files of a group, of which the raw one is opened and closed by the group itself. -/
structure DetailFiles where
  twr : TableWriter LatRow
  cdfwr : TableWriter CdfRow
  raw : List (Line ℚ)

/-- The list in the statistics that `lat_test` returns. -/
def latSamples (card : TestedCard) : Except HostError (List ℚ) := do
  let (_, res) ← getResult card.testResult
  let samples ← (Python.item res 0).mapError .builtin
  let (timestamps, _) ← getJournal card.testJournal (some samples.toNat) true
  return timestamps.map fun ticks => ticks.toNat * 16

def cdfHead (detail : LatDetail) : String :=
  "test=" ++ testName detail.test ++ " trans_sz=" ++ toString detail.transSz.toNat ++
    " win_sz=" ++ toString detail.winSz.toNat ++ " cache=" ++
    if flagSet detail.flags flagsHostwarm then "hwarm" else "cold"

def rawHead (detail : LatDetail) : String :=
  testName detail.test ++ (if flagSet detail.flags flagsHostwarm then " Warm" else " Cold") ++
    " Winsz=" ++ toString detail.winSz.toNat ++ " trans_sz=" ++ toString detail.transSz.toNat ++
    " (values in ns)"

section Run

/-! The card is read after each run: `testResult` and `testJournal` are what it holds then. -/

variable (chip : Chip) (freqMhz : Nat) (testResult testJournal : LatDetail → Rtsym)

/-- `lat_test` with the row that it prints and the samples that it returns. -/
def latTested (detail : LatDetail) : Except HostError (LatRow × List ℚ) := do
  let card := { freqMhz, testResult := testResult detail, testJournal := testJournal detail }
  let (row, _) ← latTest chip detail.test detail.params card
  let samples ← latSamples card
  return (row, samples)

def cdfOut (cdf : Python.Dict ℚ ℚ) (val : ℚ) : Except Error CdfRow := do
  let ns ← cyc2ns freqMhz val
  let frac ← cdf.get val
  return { cycles := val, ns, cdf := frac }

def cdfRows (samples : List ℚ) : Except Error (List CdfRow) := do
  let cdf ← histo2cdf (ListStats.init samples).histo
  let vals := Python.sorted cdf.keys
  let first ← Python.item vals 0
  let ns ← cyc2ns freqMhz first
  let rows ← vals.mapM (cdfOut freqMhz cdf)
  return { cycles := first, ns, cdf := 0 } :: rows

def rawSet (head : String) (values : List ℚ) : List (Line ℚ) :=
  .comment head :: values.map .data ++ [.blank, .blank]

def runDetail (log : DetailLog) (detail : LatDetail) : Except HostError DetailLog := do
  let (row, samples) ← latTested chip freqMhz testResult testJournal detail
  let cdf ← (cdfRows freqMhz samples).mapError .builtin
  let values ← (samples.mapM (cyc2ns freqMhz)).mapError .builtin
  return {
    rows := log.rows ++ [.out row]
    cdf := log.cdf ++ .sec (some (cdfHead detail)) :: cdf.map .out
    raw := log.raw ++ rawSet (rawHead detail) values }

def runDetails (group : DetailGroup) (log : DetailLog) (test : PciebenchTest) :
    Except HostError DetailLog :=
  (group.runs test).foldlM (runDetail chip freqMhz testResult testJournal)
    { log with rows := log.rows ++ [.sec none] }

/-- One group of `run_lat_details`, with the writers that it has made. -/
def runLatDetails (outdir : String) (group : DetailGroup) (files : DetailFiles) :
    Except HostError DetailFiles := do
  let log ← group.tests.foldlM (runDetails chip freqMhz testResult testJournal group)
    { rows := [.msg group.title], cdf := [], raw := [] }
  let twr ← (files.twr.table (outdir ++ group.base) log.rows).mapError .builtin
  let cdfwr ← (files.cdfwr.table (outdir ++ group.base ++ "_cdf") log.cdf).mapError .builtin
  return { twr, cdfwr, raw := log.raw }

end Run

/-- The table of a distribution: it starts at zero with the least sample, has a row for each
value, and in it the share of the samples that do not exceed it. -/
structure Distribution (freqMhz : Nat) (samples : List ℚ) (table : List CdfRow) : Prop where
  starts : ∃ least rest, table = { cycles := least, ns := least * (1000 / freqMhz), cdf := 0 } ::
    { cycles := least, ns := least * (1000 / freqMhz), cdf := Samples.empirical samples least } ::
      rest
  ascending : table.tail.Pairwise fun low high => low.cycles < high.cycles ∧ low.cdf < high.cdf
  values : ∀ val, val ∈ table.tail.map CdfRow.cycles ↔ val ∈ samples
  shares : ∀ row ∈ table.tail, row.ns = row.cycles * (1000 / freqMhz) ∧
    row.cdf * samples.length = samples.countP (· ≤ row.cycles)
  ends : ∃ row ∈ table.getLast?, row.cdf = 1

section Table

variable {freqMhz : Nat} {samples : List ℚ}

def cdfRow (freqMhz : Nat) (samples : List ℚ) (val : ℚ) : CdfRow where
  cycles := val
  ns := val * (1000 / freqMhz)
  cdf := Samples.empirical samples val

theorem sorted_sortedKeys : Python.sorted (sortedKeys samples) = sortedKeys samples :=
  Python.sorted_congr (sortedKeys_perm samples)

theorem cdfOut_ok (running : 0 < freqMhz) {cdf : Python.Dict ℚ ℚ}
    (entries : cdf.entries =
      (sortedKeys samples).map fun val => (val, Samples.empirical samples val))
    {val : ℚ} (member : val ∈ sortedKeys samples) :
    cdfOut freqMhz cdf val = .ok (cdfRow freqMhz samples val) := by
  have got : cdf.get val = .ok (Samples.empirical samples val) := by
    rw [Python.Dict.get_ok_iff, Python.Dict.find?_of_entries entries, if_pos member]
  rw [cdfOut, cyc2ns_ok running, ok_bind, got]
  rfl

theorem cdfRows_ok (running : 0 < freqMhz) {least : ℚ} {rest : List ℚ}
    (keys : sortedKeys samples = least :: rest) :
    cdfRows freqMhz samples = .ok ({ cycles := least, ns := least * (1000 / freqMhz), cdf := 0 } ::
      (sortedKeys samples).map (cdfRow freqMhz samples)) := by
  obtain ⟨cdf, ran, entries⟩ := histo2cdf_ok samples
  have named : cdf.keys = sortedKeys samples := by
    rw [Python.Dict.keys, entries, List.map_map]
    exact List.map_id _
  have rows : (sortedKeys samples).mapM (cdfOut freqMhz cdf) =
      .ok ((sortedKeys samples).map (cdfRow freqMhz samples)) :=
    mapM_ok fun val member => cdfOut_ok running entries member
  have first : Python.item (sortedKeys samples) 0 = .ok least := by
    rw [keys]
    rfl
  rw [cdfRows, ran, ok_bind]
  simp only [named, sorted_sortedKeys, first, rows, ok_bind, cyc2ns_ok running]
  rfl

theorem cdfRows_ascending : ((sortedKeys samples).map (cdfRow freqMhz samples)).Pairwise
    fun low high => low.cycles < high.cycles ∧ low.cdf < high.cdf := by
  rw [List.pairwise_map]
  refine (sortedKeys_ascending samples).imp_of_mem ?_
  intro low high _ member less
  exact ⟨less, Samples.empirical_lt ((mem_sortedKeys samples).mp member) less⟩

theorem cdfRows_last (some : sortedKeys samples ≠ []) :
    (cdfRow freqMhz samples ((sortedKeys samples).getLast some)).cdf = 1 := by
  refine Samples.empirical_greatest
    ((mem_sortedKeys samples).mp (List.getLast_mem some)) ?_
  intro sample member
  have listed := (mem_sortedKeys samples).mpr member
  have ordered : (sortedKeys samples).Pairwise (· ≤ ·) := Python.sorted_ordered _
  exact ordered.rel_getLast_of_rel_getLast_getLast listed le_rfl

theorem cdfRows_distribution (running : 0 < freqMhz) (nonempty : samples ≠ []) :
    ∃ table, cdfRows freqMhz samples = .ok table ∧ Distribution freqMhz samples table := by
  obtain ⟨sample, listed⟩ := List.exists_mem_of_ne_nil samples nonempty
  have some : sortedKeys samples ≠ [] :=
    List.ne_nil_of_mem ((mem_sortedKeys samples).mpr listed)
  obtain ⟨least, rest, keys⟩ := List.exists_cons_of_ne_nil some
  have count : (samples.length : ℚ) ≠ 0 := (Samples.length_pos_of_sample listed).ne'
  refine ⟨_, cdfRows_ok running keys, ?_, cdfRows_ascending, ?_, ?_, ?_⟩
  · rw [keys]
    exact ⟨least, _, rfl⟩
  · intro val
    rw [List.tail_cons, List.map_map, ← mem_sortedKeys samples]
    change val ∈ (sortedKeys samples).map id ↔ _
    rw [List.map_id]
  · intro row member
    obtain ⟨val, _, rfl⟩ := List.mem_map.mp member
    exact ⟨rfl, div_mul_cancel₀ _ count⟩
  · refine ⟨cdfRow freqMhz samples ((sortedKeys samples).getLast some), ?_, cdfRows_last some⟩
    have filled : (sortedKeys samples).map (cdfRow freqMhz samples) ≠ [] := by
      rwa [ne_eq, List.map_eq_nil_iff]
    rw [List.getLast?_cons_of_ne_nil filled, List.getLast?_map, List.getLast?_eq_some_getLast some]
    rfl

end Table

section Read

variable {Row : Type}

theorem sections_append (before after : List (Option String × List Row)) :
    sections (before ++ after) = sections before ++ sections after :=
  List.flatMap_append

theorem sections_grow (before : List (Option String × List Row)) (head : Option String)
    (rows : List Row) (row : Row) :
    sections (before ++ [(head, rows ++ [row])]) =
      sections (before ++ [(head, rows)]) ++ [.out row] := by
  rw [sections_append, sections_append, List.append_assoc]
  congr 1
  simp [sections]

theorem dataSets_rawSets (sets : List (String × List ℚ)) (nonempty : ∀ set ∈ sets, set.2 ≠ []) :
    dataSets (sets.flatMap fun set => rawSet set.1 set.2) = sets.map Prod.snd := by
  induction sets with
  | nil => rfl
  | cons set sets ih =>
      obtain ⟨here, later⟩ := List.forall_mem_cons.mp nonempty
      have rows : ∀ before : List ℚ, ∀ rest : List (Line ℚ),
          readFrom 0 before (set.2.map .data ++ rest) = readFrom 0 (before ++ set.2) rest := by
        intro before rest
        induction set.2 generalizing before with
        | nil => rw [List.append_nil]; rfl
        | cons row list ih' =>
            rw [List.map_cons, List.cons_append, readFrom, ih', List.append_assoc]
            rfl
      rw [List.flatMap_cons, rawSet, List.append_assoc, List.cons_append, dataSets, readFrom, rows,
        List.nil_append, List.cons_append, List.singleton_append, readFrom_break,
        filled_of_ne here, ih later]
      rfl

end Read

section Kept

def inNs (freqMhz : Nat) (samples : List ℚ) : List ℚ :=
  samples.map fun sample => sample * (1000 / freqMhz)

/-- The log of the runs so far, each with the row and the samples of its test. -/
structure DetailLog.Keeps (freqMhz : Nat) (title : String)
    (groups : List (List (LatRow × List ℚ))) (log : DetailLog) : Prop where
  sampled : ∀ ran ∈ groups.flatten, ran.2 ≠ []
  rows : log.rows = .msg title :: sections (groups.map fun group => (none, group.map Prod.fst))
  cdf : ∃ tables, log.cdf = sections tables ∧
    List.Forall₂ (fun ran each => Distribution freqMhz ran.2 each.2) groups.flatten tables
  raw : ∃ sets : List (String × List ℚ), log.raw = sets.flatMap (fun set => rawSet set.1 set.2) ∧
    sets.map Prod.snd = groups.flatten.map fun ran => inNs freqMhz ran.2

variable {chip : Chip} {freqMhz : Nat} {testResult testJournal : LatDetail → Rtsym}
variable {group : DetailGroup} {groups : List (List (LatRow × List ℚ))} {log : DetailLog}

theorem summary_sampled {samples : List ℚ} {tavg : ℚ} {stats : LatStats}
    (summed : (ListStats.init samples).summary tavg = .ok stats) : samples ≠ [] := by
  rintro rfl
  simp only [ListStats.summary, bind_eq_ok] at summed
  obtain ⟨_, _, _, least, _⟩ := summed
  cases least

theorem toNs_running {cyc ns : LatStats} (scaled : cyc.toNs freqMhz = .ok ns) : 0 < freqMhz := by
  refine Nat.pos_of_ne_zero ?_
  rintro rfl
  simp [LatStats.toNs, cyc2ns, Python.divide] at scaled

theorem latTested_sampled {detail : LatDetail} {ran : LatRow × List ℚ}
    (tested : latTested chip freqMhz testResult testJournal detail = .ok ran) :
    0 < freqMhz ∧ ran.2 ≠ [] := by
  rw [latTested, bind_eq_ok] at tested
  obtain ⟨⟨row, warning⟩, made, tested⟩ := tested
  obtain ⟨samples, read, tested⟩ := bind_eq_ok.mp tested
  cases tested
  simp only [latTest, bind_eq_ok] at made
  obtain ⟨_, _, ⟨cycles, res⟩, result, first, item, ⟨timestamps, _⟩, journal, _, built, _⟩ := made
  simp only [latSamples, result, item, journal, ok_bind] at read
  cases read
  cases rowed : latRow freqMhz detail.test detail.params cycles first timestamps with
  | error stop =>
      rw [rowed] at built
      cases built
  | ok row =>
      simp only [latRow, bind_eq_ok] at rowed
      obtain ⟨_, _, cyc, summed, ns, scaled, _⟩ := rowed
      exact ⟨toNs_running scaled, summary_sampled summed⟩

theorem runDetail_keeps {done : List (LatRow × List ℚ)} (detail : LatDetail)
    (keeps : log.Keeps freqMhz group.title (groups ++ [done])) :
    Related (fun ran (after : DetailLog) =>
        after.Keeps freqMhz group.title (groups ++ [done ++ [ran]])) (· = ·)
      (latTested chip freqMhz testResult testJournal detail)
      (runDetail chip freqMhz testResult testJournal log detail) := by
  cases tested : latTested chip freqMhz testResult testJournal detail with
  | error stop =>
      rw [runDetail, tested]
      rfl
  | ok ran =>
      obtain ⟨running, nonempty⟩ := latTested_sampled tested
      obtain ⟨table, made, distribution⟩ := cdfRows_distribution running nonempty
      have values : ran.2.mapM (cyc2ns freqMhz) = .ok (inNs freqMhz ran.2) :=
        mapM_ok fun value _ => cyc2ns_ok running value
      obtain ⟨tables, cdf, distributions⟩ := keeps.cdf
      obtain ⟨sets, raw, read⟩ := keeps.raw
      rw [runDetail, tested, ok_bind]
      simp only [made, values, Except.mapError, ok_bind]
      have flat : (groups ++ [done ++ [ran]]).flatten = (groups ++ [done]).flatten ++ [ran] := by
        simp
      refine ⟨?_, ?_, ?_, ?_⟩
      · intro other member
        rw [flat, List.mem_append, List.mem_singleton] at member
        rcases member with before | rfl
        · exact keeps.sampled other before
        · exact nonempty
      · rw [keeps.rows, List.map_append, List.map_append, List.map_singleton, List.map_singleton,
          List.map_append, List.map_singleton, sections_grow]
        rfl
      · refine ⟨tables ++ [(some (cdfHead detail), table)], ?_, ?_⟩
        · rw [cdf, sections_append]
          simp [sections]
        · rw [flat]
          exact List.rel_append distributions (.cons distribution .nil)
      · refine ⟨sets ++ [(rawHead detail, inNs freqMhz ran.2)], ?_, ?_⟩
        · rw [raw, List.flatMap_append]
          simp
        · rw [flat, List.map_append, List.map_append, read]
          rfl

theorem runDetails_keeps (test : PciebenchTest) (keeps : log.Keeps freqMhz group.title groups) :
    Related (fun ran (after : DetailLog) => after.Keeps freqMhz group.title (groups ++ [ran]))
      (· = ·)
      ((group.runs test).mapM (latTested chip freqMhz testResult testJournal))
      (runDetails chip freqMhz testResult testJournal group log test) := by
  have start : DetailLog.Keeps freqMhz group.title (groups ++ [[]])
      { log with rows := log.rows ++ [.sec none] } := by
    have flat : (groups ++ [[]]).flatten = groups.flatten := by simp
    refine ⟨?_, ?_, ?_, ?_⟩
    · rw [flat]
      exact keeps.sampled
    · rw [keeps.rows, List.map_append, sections_append]
      rfl
    · rw [flat]
      exact keeps.cdf
    · rw [flat]
      exact keeps.raw
  exact related_collect
    (fun ran (log : DetailLog) => log.Keeps freqMhz group.title (groups ++ [ran]))
    (fun _ _ detail keeps => runDetail_keeps detail keeps) (group.runs test) start

theorem Distribution.nonempty {samples : List ℚ} {table : List CdfRow}
    (distribution : Distribution freqMhz samples table) : table ≠ [] := by
  obtain ⟨_, _, rfl⟩ := distribution.starts
  exact List.cons_ne_nil _ _

theorem runs_ne_nil (group : DetailGroup) (test : PciebenchTest) : group.runs test ≠ [] := by
  cases group <;> exact List.cons_ne_nil _ _

end Kept

section Files

variable (chip : Chip) (freqMhz : Nat) (testResult testJournal : LatDetail → Rtsym)

/-- What the latency tests of a group come to, in the order in which they are run. -/
def groupTested (group : DetailGroup) : Except HostError (List (List (LatRow × List ℚ))) :=
  group.tests.mapM fun test =>
    (group.runs test).mapM (latTested chip freqMhz testResult testJournal)

/-- The files of a group hold what its tests have come to: a table of rows for each test, a
distribution for each run and the samples of each run. -/
structure DetailFiles.Holds (freqMhz : Nat) (base : String)
    (groups : List (List (LatRow × List ℚ))) (files : DetailFiles) : Prop where
  rows : dataSets (files.twr.disk base .dat) = groups.map fun group => group.map Prod.fst
  cdf : List.Forall₂ (Distribution freqMhz) (groups.flatten.map Prod.snd)
    (dataSets (files.cdfwr.disk (base ++ "_cdf") .dat))
  raw : dataSets files.raw = groups.flatten.map fun ran => inNs freqMhz ran.2

theorem details_logged (group : DetailGroup) :
    Related (DetailLog.Keeps freqMhz group.title) (· = ·)
      (groupTested chip freqMhz testResult testJournal group)
      (group.tests.foldlM (runDetails chip freqMhz testResult testJournal group)
        { rows := [.msg group.title], cdf := [], raw := [] }) := by
  have start : DetailLog.Keeps freqMhz group.title []
      { rows := [.msg group.title], cdf := [], raw := [] } :=
    ⟨by simp, rfl, ⟨[], rfl, .nil⟩, [], rfl, rfl⟩
  exact related_collect (fun groups (log : DetailLog) => log.Keeps freqMhz group.title groups)
    (fun _ _ test keeps => runDetails_keeps test keeps) group.tests start

variable {freqMhz}

theorem DetailLog.Keeps.holds {title : String} {groups : List (List (LatRow × List ℚ))}
    {log : DetailLog} (keeps : log.Keeps freqMhz title groups)
    (nonempty : ∀ group ∈ groups, group ≠ []) (base : String) (files : DetailFiles) :
    ∃ twr cdfwr, files.twr.table base log.rows = .ok twr ∧
      files.cdfwr.table (base ++ "_cdf") log.cdf = .ok cdfwr ∧
      DetailFiles.Holds freqMhz base groups { twr, cdfwr, raw := log.raw } := by
  obtain ⟨tables, cdf, distributions⟩ := keeps.cdf
  obtain ⟨sets, raw, read⟩ := keeps.raw
  obtain ⟨twr, ran, _, _, rows, _⟩ := table_written files.twr base log.rows
  obtain ⟨cdfwr, ran', _, _, dists, _⟩ := table_written files.cdfwr (base ++ "_cdf") log.cdf
  have someRows : ∀ each ∈ groups.map fun group => ((none : Option String), group.map Prod.fst),
      each.2 ≠ [] := by
    intro each member
    obtain ⟨group, listed, rfl⟩ := List.mem_map.mp member
    rw [ne_eq, List.map_eq_nil_iff]
    exact nonempty group listed
  have someDists : ∀ each ∈ tables, each.2 ≠ [] := by
    have paired := distributions.imp fun _ _ distribution =>
      And.intro distribution.nonempty distribution
    exact ((List.forall₂_and_left _ _).mp paired.flip).1
  have someSets : ∀ set ∈ sets, set.2 ≠ [] := by
    intro set member
    have listed : set.2 ∈ sets.map Prod.snd := List.mem_map_of_mem member
    rw [read] at listed
    obtain ⟨ran, member', same⟩ := List.mem_map.mp listed
    rw [← same, inNs, ne_eq, List.map_eq_nil_iff]
    exact keeps.sampled ran member'
  refine ⟨twr, cdfwr, ran, ran', ?_, ?_, ?_⟩
  · rw [rows, keeps.rows]
    change tablesFrom true [] (sections _) = _
    rw [tables_sections _ someRows, List.map_map]
    rfl
  · rw [dists, cdf, tables_sections _ someDists, List.forall₂_map_left_iff,
      List.forall₂_map_right_iff]
    exact distributions
  · change dataSets log.raw = _
    rw [raw, dataSets_rawSets sets someSets, read]

variable (freqMhz)

theorem groupTested_ne_nil {group : DetailGroup} {groups : List (List (LatRow × List ℚ))}
    (tested : groupTested chip freqMhz testResult testJournal group = .ok groups) :
    ∀ ran ∈ groups, ran ≠ [] := by
  have some {test : PciebenchTest} {ran : List (LatRow × List ℚ)}
      (here : (group.runs test).mapM (latTested chip freqMhz testResult testJournal) = .ok ran) :
      ran ≠ [] := by
    have length := (mapM_forall₂ here).length_eq
    have runs := List.length_pos_of_ne_nil (runs_ne_nil group test)
    exact List.ne_nil_of_length_pos (by omega)
  have paired := (mapM_forall₂ tested).imp fun _ _ here => And.intro (some here) here
  exact ((List.forall₂_and_left _ _).mp paired.flip).1

/-- A group ends with the first exception of a latency test. Without one its files hold all that
the tests have come to. -/
theorem runLatDetails_holds (outdir : String) (group : DetailGroup) (files : DetailFiles) :
    Related (DetailFiles.Holds freqMhz (outdir ++ group.base)) (· = ·)
      (groupTested chip freqMhz testResult testJournal group)
      (runLatDetails chip freqMhz testResult testJournal outdir group files) := by
  have logged := details_logged chip freqMhz testResult testJournal group
  rw [runLatDetails]
  generalize group.tests.foldlM (runDetails chip freqMhz testResult testJournal group) _ =
    looped at logged ⊢
  cases tested : groupTested chip freqMhz testResult testJournal group with
  | error stop =>
      rw [tested] at logged
      cases looped with
      | error other => exact logged
      | ok log => exact logged.elim
  | ok groups =>
      rw [tested] at logged
      cases looped with
      | error other => exact logged.elim
      | ok log =>
          have keeps : log.Keeps freqMhz group.title groups := logged
          obtain ⟨twr, cdfwr, written, cdfWritten, holds⟩ := keeps.holds
            (groupTested_ne_nil chip freqMhz testResult testJournal tested)
            (outdir ++ group.base) files
          simp only [written, cdfWritten, Except.mapError, ok_bind]
          exact holds

end Files

end Pciebench
