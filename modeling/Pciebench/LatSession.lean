import Mathlib
import Pciebench.LatReport
import Pciebench.RunTest
import Pciebench.WarmCache

/-!
Latency tests one after the other, through all layers: the checks of `lat_test`, what `run_test`
makes of the addresses of the driver and stores on the card, the pass of the firmware that
answers, and the row that is made of what the card holds then.
-/

namespace Pciebench

/-- The symbols of the firmware that the host uses, and the ring behind `test_journal`. -/
structure Card where
  testCtrl : UInt32
  testParams : List UInt32
  hostDmaAddrs : List UInt32
  testResult : TestResult
  testJournal : CellRing UInt32 pciebenchJournalSz

/-- What the firmware meets besides the symbols, with what stands in `result` by chance, and how
often the host polls before the answer. -/
structure Surroundings where
  clock : Stopwatch.Clock
  result : TestResult
  rng : Nat → UInt32
  context : DmaContext
  nfp : NfpState
  waits : Nat

def Surroundings.env (around : Surroundings) (table : ChunkTable) : PassEnv where
  table
  rng := around.rng
  context := around.context
  nfp := around.nfp

namespace Card

/-- `nfp-rtsym` stores its values from the start of a symbol on. -/
def overwrite (words old : List UInt32) : List UInt32 :=
  words ++ old.drop words.length

/-- A load of the firmware clears `test_ctrl` and starts the ring anew. -/
def reload (card : Card) : Card :=
  { card with
    testCtrl := 0
    testJournal := { cells := card.testJournal.cells, tail := 0, inside := by decide } }

def step (chip : Chip) (card : Card) : HostEvent → Card
  | .reload => card.reload
  | .store sym (some words) =>
      if sym = meDmaAddrs chip then
        { card with hostDmaAddrs := overwrite words card.hostDmaAddrs }
      else if sym = meTestParams chip then
        { card with testParams := overwrite words card.testParams }
      else if sym = meTestCtrl chip then
        { card with testCtrl := words.headD card.testCtrl }
      else card
  | .store _ none | .load _ | .thrash | .warm _ => card

def params (card : Card) : TestParams where
  p0 := card.testParams.getD 0 0
  p1 := card.testParams.getD 1 0
  p2 := card.testParams.getD 2 0
  p3 := card.testParams.getD 3 0
  p4 := card.testParams.getD 4 0

def env (card : Card) (around : Surroundings) : PassEnv :=
  around.env (copyDmaAddrs card.hostDmaAddrs)

/-- The pass of `main` that answers a latency test. -/
def pass (chip : Chip) (fuel : Nat) (around : Surroundings) (card : Card) : Option Card := do
  let test ← latTests.find? fun test => test.number = card.testCtrl
  let ret ← mainPass chip fuel (card.env around) card.params (signedWord card.testCtrl)
  let timed ← latTimed around.clock chip fuel (card.env around) test card.params around.result
  match timed with
  | .error _ => none
  | .ok timed =>
      some { card with
        testCtrl := UInt32.ofInt ret
        testResult := timed.r
        testJournal := card.testJournal.pushAll timed.testJournal }

end Card

/-- The host with its card: `read` is `nfp-rtsym -R`, and `bufDmaAddrs` what the driver has. -/
structure Bench where
  tools : HostTools
  read : List UInt8 → Rtsym
  chip : Chip
  freqMhz : Nat
  nfpNum : Nat
  helper : Option (List Char)
  bufDmaAddrs : ChunkTable

structure LatRequest where
  test : PciebenchTest
  params : TestParams

inductive BenchError
  | host (error : HostError)
  | run (error : RunError)

namespace Bench

def tested (bench : Bench) (card : Card) : TestedCard where
  freqMhz := bench.freqMhz
  testResult := bench.read (resultBytes card.testResult)
  testJournal := bench.read (journalBytes card.testJournal)

variable (bench : Bench) (request : LatRequest)

def checks : Except String Unit :=
  latTestChecks bench.chip request.test request.params.addrArgs

def runTest (polls : List UInt32) :
    Option (Except RunError Unit × List HostEvent × List UInt32) :=
  Pciebench.runTest bench.tools bench.chip bench.helper bench.nfpNum
    (dmaAddrsText bench.bufDmaAddrs) bufSzText request.test request.params
    (warmArg request.params.p0 request.params.p2) polls

def report (card : Card) : Except BenchError (LatRow × Option String) :=
  (latTest bench.chip request.test request.params (bench.tested card)).mapError .host

/-- `lat_test` on a card: it ends in the checks, before the test is started, or after the host
has seen the number of the test for a while and then the answer of the firmware. -/
inductive Ran (around : Surroundings) (card : Card) :
    Except BenchError (LatRow × Option String) → Card → Prop
  | refused {msg : String} (checked : bench.checks request = .error msg) :
      Ran around card (.error (.host (.err msg))) card
  | stopped {error : RunError} {events : List HostEvent}
      (checked : bench.checks request = .ok ())
      (ran : bench.runTest request [] = some (.error error, events, [])) :
      Ran around card (.error (.run error)) (events.foldl (Card.step bench.chip) card)
  | answered {fuel : Nat} {result : Except RunError Unit} {events : List HostEvent} {after : Card}
      (checked : bench.checks request = .ok ())
      (passed : (events.foldl (Card.step bench.chip) card).pass bench.chip fuel around =
        some after)
      (ran : bench.runTest request
        (List.replicate around.waits (events.foldl (Card.step bench.chip) card).testCtrl ++
          [after.testCtrl, after.testCtrl]) = some (result, events, [])) :
      Ran around card
        (match result with
        | .error error => .error (.run error)
        | .ok () => bench.report request after)
        after

end Bench

section Stored

variable {chip : Chip} {card : Card}

theorem step_addrs (words : List UInt32) :
    card.step chip (.store (meDmaAddrs chip) (some words)) =
      { card with hostDmaAddrs := Card.overwrite words card.hostDmaAddrs } :=
  if_pos rfl

theorem step_params (words : List UInt32) :
    card.step chip (.store (meTestParams chip) (some words)) =
      { card with testParams := Card.overwrite words card.testParams } := by
  have apart : meTestParams chip ≠ meDmaAddrs chip := by cases chip <;> decide
  rw [Card.step, if_neg apart, if_pos rfl]

theorem step_ctrl (word : UInt32) :
    card.step chip (.store (meTestCtrl chip) (some [word])) = { card with testCtrl := word } := by
  have addrs : meTestCtrl chip ≠ meDmaAddrs chip := by cases chip <;> decide
  have params : meTestCtrl chip ≠ meTestParams chip := by cases chip <;> decide
  rw [Card.step, if_neg addrs, if_neg params, if_pos rfl]
  rfl

theorem steps_load (sym : List Char) (count : Nat) :
    (List.replicate count (.load sym)).foldl (Card.step chip) card = card := by
  induction count with
  | zero => rfl
  | succ count ih =>
      rw [List.replicate_succ, List.foldl_cons]
      exact ih

theorem addrWords_length (addrs : List Nat) :
    (addrs.flatMap addrWords).length = 2 * addrs.length := by
  induction addrs with
  | nil => rfl
  | cons addr addrs ih =>
      rw [List.flatMap_cons, List.length_append, ih, List.length_cons]
      exact Nat.add_comm 2 _

theorem copyDmaAddrs_overwrite (bufDmaAddrs : ChunkTable) (old : List UInt32) :
    copyDmaAddrs (Card.overwrite ((npbDmaAddrsShow bufDmaAddrs).flatMap addrWords) old) =
      bufDmaAddrs := by
  have length := addrWords_length (npbDmaAddrsShow bufDmaAddrs)
  rw [npbDmaAddrsShow_length] at length
  have copied : copyDmaAddrs ((npbDmaAddrsShow bufDmaAddrs).flatMap addrWords) = bufDmaAddrs :=
    copyDmaAddrs_show
  funext chunk
  have inside := chunk.isLt
  rw [copyDmaAddrs, Card.overwrite, List.getD_append _ _ _ _ (by omega),
    List.getD_append _ _ _ _ (by omega)]
  exact congrFun copied chunk

/-- The request as it stands on the card when the firmware sees it. -/
structure Card.Asks (card : Card) (bufDmaAddrs : ChunkTable) (request : LatRequest) : Prop where
  testCtrl : card.testCtrl = request.test.number
  params : card.params = request.params
  table : copyDmaAddrs card.hostDmaAddrs = bufDmaAddrs
  fresh : card.testJournal.tail = 0

theorem asks_of_stored {tools : HostTools} (reads : ReadsValues tools.rtsym)
    (bufDmaAddrs : ChunkTable) (request : LatRequest) {warmed : List HostEvent}
    (neutral : ∀ card, warmed.foldl (Card.step chip) card = card) (loads : Nat) (card : Card) :
    let events : List HostEvent := .reload :: .store (meDmaAddrs chip)
        (tools.rtsym ((npbDmaAddrsShow bufDmaAddrs).flatMap entryText)) ::
      .store (meTestParams chip) (some [request.params.p0, request.params.p1, request.params.p2,
        request.params.p3, request.params.p4]) ::
      .thrash :: warmed ++ .store (meTestCtrl chip) (some [request.test.number]) ::
      List.replicate loads (.load (meTestCtrl chip))
    (events.foldl (Card.step chip) card).Asks bufDmaAddrs request := by
  intro events
  simp only [events]
  rw [List.foldl_append, List.foldl_cons, steps_load, List.foldl_cons, List.foldl_cons,
    List.foldl_cons, List.foldl_cons, neutral, rtsym_shown reads, step_addrs, step_params,
    step_ctrl]
  exact ⟨rfl, rfl, copyDmaAddrs_overwrite bufDmaAddrs _, rfl⟩

end Stored

section Passes

variable {chip : Chip} {card after : Card} {bufDmaAddrs : ChunkTable} {request : LatRequest}
  {fuel : Nat} {around : Surroundings} (asks : card.Asks bufDmaAddrs request)
  (lat : request.test ∈ latTests)

include asks lat

theorem asked_test :
    latTests.find? (fun test => test.number = card.testCtrl) = some request.test := by
  rw [asks.testCtrl]
  revert lat
  cases request.test <;> decide

omit lat in
theorem asked_ctrl : signedWord card.testCtrl = request.test.ctrl := by
  rw [asks.testCtrl]
  cases request.test <;> rfl

theorem pass_asked :
    card.pass chip fuel around = (do
      let ret ← mainPass chip fuel (around.env bufDmaAddrs) request.params request.test.ctrl
      let timed ← latTimed around.clock chip fuel (around.env bufDmaAddrs) request.test
        request.params around.result
      match timed with
      | .error _ => none
      | .ok timed =>
          some { card with
            testCtrl := UInt32.ofInt ret
            testResult := timed.r
            testJournal := card.testJournal.pushAll timed.testJournal }) := by
  rw [Card.pass, asked_test asks lat, asked_ctrl asks, asks.params, Card.env, asks.table]
  rfl

theorem pass_refused (refused : request.params.addrArgs.refused = true)
    (passed : card.pass chip fuel around = some after) : signedWord after.testCtrl = -1 := by
  rw [pass_asked asks lat] at passed
  obtain ⟨ret, answered, passed⟩ := Option.bind_eq_some_iff.mp passed
  rw [mainPass_refused refused] at answered
  cases answered
  obtain ⟨timed, _, passed⟩ := Option.bind_eq_some_iff.mp passed
  cases timed with
  | error stop => contradiction
  | ok timed =>
      cases passed
      rfl

theorem pass_complete (accepted : request.params.addrArgs.refused = false)
    (passed : card.pass chip fuel around = some after) :
    ∃ timed, latTimed around.clock chip fuel (around.env bufDmaAddrs) request.test request.params
        around.result = some (.ok timed) ∧
      timed.Complete around.clock (latMaxTrans request.params.p0) ∧
      after = { card with
        testCtrl := 0
        testResult := timed.r
        testJournal := card.testJournal.pushAll timed.testJournal } := by
  rw [pass_asked asks lat] at passed
  obtain ⟨ret, answered, passed⟩ := Option.bind_eq_some_iff.mp passed
  obtain ⟨rfl, prepared, _⟩ := (mainPass_accepted accepted request.test).mp answered
  obtain ⟨timed, done, complete⟩ :=
    latTimed_complete around.clock around.result accepted prepared lat
  rw [done] at passed
  cases passed
  exact ⟨timed, done, complete, rfl⟩

theorem pass_prepared (accepted : request.params.addrArgs.refused = false)
    (prepared : Prepared chip fuel (around.env bufDmaAddrs) request.params)
    (wData : inWData request.test request.params.p1 = true) :
    ∃ after, card.pass chip fuel around = some after ∧ after.testCtrl = 0 := by
  have answered := (mainPass_accepted accepted request.test).mpr ⟨rfl, prepared, wData⟩
  obtain ⟨timed, done, _⟩ := latTimed_complete around.clock around.result accepted prepared lat
  rw [pass_asked asks lat, answered, Option.bind_eq_bind, Option.bind_some, done]
  exact ⟨_, rfl, rfl⟩

end Passes

section Runs

/-- What the bench takes for granted of the tools, of the clock in the hardware information and of
the helper, if there is one. -/
structure Bench.Works (bench : Bench) : Prop where
  writes : ReadsValues bench.tools.rtsym
  reads : ∀ bytes, ReadsSymbol (bench.read bytes) bytes
  running : 0 < bench.freqMhz
  helper : ∀ helper ∈ bench.helper,
    (helper ≠ [] ∧ ∀ char ∈ helper, shellPlain char = true) ∧ bench.nfpNum < 2 ^ 31 ∧
      bench.tools.deviceOpen bench.nfpNum = true ∧
      bench.tools.rtsymLookup (meTestCtrl bench.chip) = true

variable {bench : Bench} {request : LatRequest} {polls : List UInt32}
  {result : Except RunError Unit} {events : List HostEvent}

/-- With the helper or without it the test is started in the same way, after some passes over the
buffers. -/
theorem startTest_works (works : bench.Works) (request : LatRequest) :
    ∃ warmed, (∀ card, warmed.foldl (Card.step bench.chip) card = card) ∧
      ∀ polls, startTest bench.tools bench.chip bench.helper bench.nfpNum
          request.test.number.toNat (warmArg request.params.p0 request.params.p2) polls =
        started (meTestCtrl bench.chip) request.test.number warmed polls := by
  generalize warm : warmArg request.params.p0 request.params.p2 = passes
  have passesBound : passes < 2 ^ 64 := by
    rw [← warm, warmArg]
    have bound := request.params.p2.toNat_lt
    split <;> omega
  cases helped : bench.helper with
  | none => exact ⟨_, fun card => by split <;> rfl, fun _ => startTest_none works.writes _⟩
  | some helper =>
      obtain ⟨plain, nfpBound, opens, found⟩ := works.helper helper helped
      have word := And.intro plain.1 fun char member => shellPlain_blank (plain.2 char member)
      exact ⟨_, fun card => by split <;> rfl,
        fun _ => startTest_helper request.test word nfpBound passesBound opens found⟩

/-- The addresses are all right, and the request has been put on the card; or the run has ended
before that, with the first chunk that is not. -/
theorem runTest_asks (works : bench.Works)
    (ran : bench.runTest request polls = some (result, events, [])) (card : Card) :
    ((∀ chunk, Usable (bench.bufDmaAddrs chunk).toNat) ∧
      (events.foldl (Card.step bench.chip) card).Asks bench.bufDmaAddrs request ∧
      ∃ waits stop last, polls = waits ++ [stop, last] ∧
        result = if signedWord last < 0 then
          .error (.err ("Test " ++ toString request.test.number.toNat ++ " failed with " ++
            toString (signedWord last)))
        else .ok ()) ∨
    polls = [] ∧ ∃ chunk before after, ¬ Usable (bench.bufDmaAddrs chunk).toNat ∧
      (∀ earlier < chunk, Usable (bench.bufDmaAddrs earlier).toNat) ∧
      result = .error (.addrs (.err
        (before ++ hex (bench.bufDmaAddrs chunk).toNat ++ after))) := by
  obtain ⟨warmed, neutral, starts⟩ := startTest_works works request
  have shown : setDmaAddrsVal hostDmaAddrsSz (dmaAddrsText bench.bufDmaAddrs) bufSzText = _ :=
    setDmaAddrsVal_shown
  cases outcome : checkDmaAddrs pciebenchChunkSz (npbDmaAddrsShow bench.bufDmaAddrs) with
  | error message =>
      obtain ⟨chunk, unusable, earlier, before, after, named⟩ := exists_unusable outcome
      rw [outcome] at shown
      simp only [Bench.runTest, Pciebench.runTest, shown, Except.mapError, Except.map] at ran
      cases ran
      exact .inr ⟨rfl, chunk, before, after, unusable, earlier, by rw [named]⟩
  | ok done =>
      rw [outcome] at shown
      obtain ⟨waits, stop, last, same, _, _, rfl, ended⟩ :=
        runTest_traced works.writes (starts polls) shown ran
      exact .inl ⟨checked_usable.mp outcome,
        asks_of_stored works.writes _ request neutral _ card, waits, stop, last, same, ended⟩

end Runs

section Started

variable {bench : Bench} {request : LatRequest}

theorem pollCtrl_answered {sym : List Char} {number answer : UInt32}
    (positive : 0 < signedWord number) (ends : signedWord answer ≤ 0) (rest : List UInt32)
    (waits : Nat) :
    pollCtrl sym (List.replicate waits number ++ answer :: rest) =
      some (List.replicate (waits + 1) (.load sym), rest) := by
  induction waits with
  | zero =>
      rw [List.replicate_zero, List.nil_append, pollCtrl, if_neg (not_lt.mpr ends)]
      rfl
  | succ waits ih =>
      rw [List.replicate_succ, List.cons_append, pollCtrl, if_pos positive, ih]
      rfl

theorem runTest_answered (works : bench.Works) (request : LatRequest)
    (usable : ∀ chunk, Usable (bench.bufDmaAddrs chunk).toNat) (waits : Nat) :
    ∃ events, bench.runTest request (List.replicate waits request.test.number ++ [0, 0]) =
      some (.ok (), events, []) := by
  have shown : setDmaAddrsVal hostDmaAddrsSz (dmaAddrsText bench.bufDmaAddrs) bufSzText = _ :=
    setDmaAddrsVal_shown
  rw [checked_usable.mpr usable] at shown
  have positive : 0 < signedWord request.test.number := by
    cases request.test <;> decide
  have polled : pollCtrl (meTestCtrl bench.chip)
      (List.replicate waits request.test.number ++ [0, 0]) =
        some (List.replicate (waits + 1) (.load (meTestCtrl bench.chip)), [0]) :=
    pollCtrl_answered positive (by decide) [0] waits
  obtain ⟨warmed, _, starts⟩ := startTest_works works request
  simp only [Bench.runTest, Pciebench.runTest, shown, Except.mapError, Except.map, starts, started,
    polled, Option.map_some]
  exact ⟨_, rfl⟩

end Started

/-- The row is that of the request: its transactions were timed, over the chunks of the driver. -/
structure Bench.Reports (bench : Bench) (request : LatRequest) (around : Surroundings)
    (row : LatRow) (warning : Option String) : Prop where
  checked : bench.checks request = .ok ()
  usable : ∀ chunk, Usable (bench.bufDmaAddrs chunk).toNat
  accepted : request.params.addrArgs.refused = false
  timed : ∃ fuel timed, latTimed around.clock bench.chip fuel (around.env bench.bufDmaAddrs)
      request.test request.params around.result = some (.ok timed) ∧
    timed.Complete around.clock (latMaxTrans request.params.p0) ∧
    row.cyc.Of (latCycles around.clock (latMaxTrans request.params.p0))
      (16 * timed.r.ticks / (latMaxTrans request.params.p0 : ℤ) : ℤ)
  samples : row.samples.toNat = latMaxTrans request.params.p0
  ns : row.ns = row.cyc.scale (1000 / bench.freqMhz)
  warning : warning = latWarning around.clock (latMaxTrans request.params.p0)

/-- The ways in which a request ends the program. -/
inductive Bench.Stops (bench : Bench) (request : LatRequest) : BenchError → Prop
  | refused {msg : String} (checked : bench.checks request = .error msg) :
      Stops bench request (.host (.err msg))
  | unusable {chunk : Fin pciebenchChunks} (before after : String)
      (checked : bench.checks request = .ok ())
      (unusable : ¬ Usable (bench.bufDmaAddrs chunk).toNat)
      (earlier : ∀ earlier < chunk, Usable (bench.bufDmaAddrs earlier).toNat) :
      Stops bench request
        (.run (.addrs (.err (before ++ hex (bench.bufDmaAddrs chunk).toNat ++ after))))
  | failed (checked : bench.checks request = .ok ())
      (usable : ∀ chunk, Usable (bench.bufDmaAddrs chunk).toNat)
      (refused : request.params.addrArgs.refused = true) :
      Stops bench request
        (.run (.err ("Test " ++ toString request.test.number.toNat ++ " failed with " ++ "-1")))

section Session

variable {bench : Bench} {request : LatRequest} {around : Surroundings} {card after : Card}
  {outcome : Except BenchError (LatRow × Option String)}

theorem report_complete (works : bench.Works) (checked : bench.checks request = .ok ())
    {timed : TimedTest} (complete : timed.Complete around.clock (latMaxTrans request.params.p0))
    (fresh : card.testJournal.tail = 0) (result : after.testResult = timed.r)
    (journal : after.testJournal = card.testJournal.pushAll timed.testJournal) :
    ∃ row, bench.report request after =
        .ok (row, latWarning around.clock (latMaxTrans request.params.p0)) ∧
      row.samples.toNat = latMaxTrans request.params.p0 ∧
      row.cyc.Of (latCycles around.clock (latMaxTrans request.params.p0))
        (16 * timed.r.ticks / (latMaxTrans request.params.p0 : ℤ) : ℤ) ∧
      row.ns = row.cyc.scale (1000 / bench.freqMhz) := by
  have readsResult : ReadsSymbol (bench.tested after).testResult (resultBytes timed.r) := by
    rw [← result]
    exact works.reads _
  have readsJournal : ReadsSymbol (bench.tested after).testJournal
      (journalBytes (card.testJournal.pushAll timed.testJournal)) := by
    rw [← journal]
    exact works.reads _
  obtain ⟨row, made, samples, of, _, _, _, ns⟩ :=
    latTest_complete checked complete fresh works.running readsResult readsJournal
  refine ⟨row, ?_, samples, of, ns⟩
  rw [Bench.report, made]
  rfl

theorem ran_outcome (works : bench.Works) (ran : bench.Ran request around card outcome after) :
    Outcome.Ends outcome (fun printed => bench.Reports request around printed.1 printed.2)
      (bench.Stops request) := by
  cases ran with
  | refused checked => exact .refused checked
  | stopped checked ran =>
      rcases runTest_asks works ran card with
        ⟨_, _, waits, stop, last, polls, _⟩ | ⟨_, chunk, before, after, unusable, earlier, ended⟩
      · exact absurd polls (by simp)
      · cases ended
        exact .unusable before after checked unusable earlier
  | @answered fuel result events _ checked passed ran =>
      have lat := latTests_of_passed checked
      rcases runTest_asks works ran card with
        ⟨usable, asks, waits, stop, last, polls, ended⟩ | ⟨polls, _⟩
      · have same : last = after.testCtrl := by
          have ends := congrArg List.getLast? polls
          simp only [List.getLast?_append, List.getLast?_cons_cons, List.getLast?_singleton,
            Option.some_or, Option.some.injEq] at ends
          exact ends.symm
        cases refused : request.params.addrArgs.refused with
        | true =>
            have negative := pass_refused asks lat refused passed
            rw [same, negative, if_pos (by decide)] at ended
            subst ended
            exact .failed checked usable refused
        | false =>
            obtain ⟨timed, done, complete, left⟩ := pass_complete asks lat refused passed
            have zero : signedWord after.testCtrl = 0 := by
              rw [left]
              rfl
            rw [same, zero, if_neg (by decide)] at ended
            subst ended
            obtain ⟨row, printed, samples, of, ns⟩ := report_complete works checked complete
              asks.fresh (congrArg Card.testResult left) (congrArg Card.testJournal left)
            simp only [printed]
            exact ⟨checked, usable, refused, ⟨fuel, timed, done, complete, of⟩, samples, ns, rfl⟩
      · exact absurd polls (by simp)

/-- A request that the firmware can run. -/
structure Bench.Serves (bench : Bench) (request : LatRequest) (around : Surroundings) : Prop where
  checked : bench.checks request = .ok ()
  inBounds : request.params.addrArgs.InBounds
  runnable : request.params.addrArgs.Runnable bench.chip request.test
  productive : Productive around.rng

theorem ran_serves (works : bench.Works)
    (usable : ∀ chunk, Usable (bench.bufDmaAddrs chunk).toNat)
    (serves : bench.Serves request around) (card : Card) :
    ∃ printed after, bench.Ran request around card (.ok printed) after := by
  have lat := latTests_of_passed serves.checked
  obtain ⟨events, ran⟩ := runTest_answered works request usable around.waits
  obtain ⟨fuel, prepared⟩ : ∃ fuel,
      Prepared bench.chip fuel (around.env bench.bufDmaAddrs) request.params :=
    prepared_of_runnable serves.inBounds serves.runnable serves.productive
  rcases runTest_asks works ran card with ⟨_, asks, _⟩ | ⟨polls, _⟩
  · obtain ⟨after, passed, zero⟩ := pass_prepared asks lat
      serves.inBounds.accepted prepared serves.runnable.wData
    rw [← zero, ← asks.testCtrl] at ran
    have answered := Bench.Ran.answered serves.checked passed ran
    have outcome := ran_outcome works answered
    cases printed : bench.report request after with
    | error error =>
        simp only [printed] at outcome
        have stops : bench.Stops request error := outcome
        cases stops with
        | refused checked =>
            rw [serves.checked] at checked
            contradiction
        | unusable _ _ _ unusable _ => exact absurd (usable _) unusable
        | failed _ _ refused =>
            rw [serves.inBounds.accepted] at refused
            contradiction
    | ok row =>
        simp only [printed] at answered
        exact ⟨row, after, answered⟩
  · exact absurd polls (by simp)

/-- Requests one after the other, until one of them ends the program. -/
inductive Bench.Session (bench : Bench) :
    Card → List (LatRequest × Surroundings) → List (LatRow × Option String) →
      Option BenchError → Prop
  | done (card : Card) : Session bench card [] [] none
  | next {card after : Card} {request : LatRequest} {around : Surroundings}
      {requests : List (LatRequest × Surroundings)} {printed : LatRow × Option String}
      {rows : List (LatRow × Option String)} {stop : Option BenchError}
      (ran : bench.Ran request around card (.ok printed) after)
      (later : Session bench after requests rows stop) :
      Session bench card ((request, around) :: requests) (printed :: rows) stop
  | stopped {card after : Card} {request : LatRequest} {around : Surroundings}
      {requests : List (LatRequest × Surroundings)} {error : BenchError}
      (ran : bench.Ran request around card (.error error) after) :
      Session bench card ((request, around) :: requests) [] (some error)

theorem session_outcome (works : bench.Works) {requests : List (LatRequest × Surroundings)}
    {rows : List (LatRow × Option String)} {stop : Option BenchError}
    (session : bench.Session card requests rows stop) :
    ∃ served rest, requests = served ++ rest ∧
      List.Forall₂ (fun each printed => bench.Reports each.1 each.2 printed.1 printed.2)
        served rows ∧
      (stop = none → rest = []) ∧
      ∀ error ∈ stop, ∃ each ∈ rest.head?, bench.Stops each.1 error := by
  induction session with
  | done card => exact ⟨[], [], rfl, .nil, fun _ => rfl, by simp⟩
  | next ran later ih =>
      have reports := ran_outcome works ran
      obtain ⟨served, rest, rfl, paired, finished, stops⟩ := ih
      exact ⟨_ :: served, rest, rfl, .cons reports paired, finished, stops⟩
  | stopped ran =>
      have stops := ran_outcome works ran
      refine ⟨[], _, rfl, .nil, by simp, ?_⟩
      intro error member
      cases Option.mem_some_iff.mp member
      exact ⟨_, rfl, stops⟩

theorem session_serves (works : bench.Works)
    (usable : ∀ chunk, Usable (bench.bufDmaAddrs chunk).toNat)
    {requests : List (LatRequest × Surroundings)}
    (serves : ∀ each ∈ requests, bench.Serves each.1 each.2) (card : Card) :
    ∃ rows, bench.Session card requests rows none := by
  induction requests generalizing card with
  | nil => exact ⟨[], .done card⟩
  | cons each requests ih =>
      obtain ⟨here, others⟩ := List.forall_mem_cons.mp serves
      obtain ⟨printed, after, ran⟩ := ran_serves works usable here card
      obtain ⟨rows, later⟩ := ih others after
      exact ⟨printed :: rows, .next ran later⟩

def helperBench : Bench where
  tools := ⟨readValues, fun _ => true, fun _ => true⟩
  read := rawSymbol
  chip := .nfp6000
  freqMhz := 1200
  nfpNum := 0
  helper := some ['.', '/', 'h']
  bufDmaAddrs := backToBack 0x40000000

def halfRequest : LatRequest where
  test := .latDmaRd
  params := { p0 := 5, p1 := 256, p2 := 0x2000000, p3 := 64, p4 := 0 }

def steadySurroundings : Surroundings where
  clock := steadyClock
  result := latResult steadyClock 0
  rng := UInt32.ofNat
  context := ⟨0, 0, 5, 0, 0⟩
  nfp := idleNfp
  waits := 3

end Session

end Pciebench
