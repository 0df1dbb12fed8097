import Mathlib
import Pciebench.Lib.Blocks
import Pciebench.Lib.Outcome
import Pciebench.NpbDriver

/-!
The pages behind the chunks of `npb_init`: what `alloc_pages_node` returns, the address that
`page_address` makes of it, and the blocks mapped, filled and freed at such addresses.
-/

namespace Pciebench

open Blocks

/-- The calls that allocate, with zero for NULL. What `page_address` makes of NULL is anything. -/
structure PageCalls (chunks : Nat) where
  allocPagesNode : Nat → UInt64
  pageAddress : UInt64 → UInt64
  nonNull : ∀ pages, pages ≠ 0 → pageAddress pages ≠ 0
  distinct : ∀ first second, first < chunks → second < chunks →
    allocPagesNode first ≠ 0 → allocPagesNode second ≠ 0 →
    pageAddress (allocPagesNode first) = pageAddress (allocPagesNode second) → first = second

namespace PageCalls

variable {chunks : Nat}

def address (pages : PageCalls chunks) (chunk : Nat) : UInt64 :=
  pages.pageAddress (pages.allocPagesNode chunk)

/-- The block that a call of `alloc_pages_node` allocates, if it allocates one. -/
def allocated (pages : PageCalls chunks) (chunk : Nat) : List (Event UInt64) :=
  if pages.allocPagesNode chunk = 0 then [] else [.allocate (pages.address chunk)]

/-- The same calls, as far as `npbInit` sees them. -/
def seenBy (pages : PageCalls chunks) (calls : KernelCalls) : KernelCalls :=
  { calls with pageAddress := pages.address }

end PageCalls

structure PageRun where
  npb : NfpPciebench
  events : List (Event UInt64)

section Init

variable {chunks : Nat} (pages : PageCalls chunks) (calls : KernelCalls)

def PageRun.log (run : PageRun) (events : List (Event UInt64)) : PageRun :=
  { run with events := run.events ++ events }

/-- One pass of the allocation loop, with the block that `dma_map_single` is given and the
pattern that is written into it. -/
def allocChunkPages (run : PageRun) (chunk : Nat) : Except (Int × PageRun) PageRun :=
  let run := run.log (pages.allocated chunk)
  let buf := pages.pageAddress (pages.allocPagesNode chunk)
  let run := { run with npb.buf := Function.update run.npb.buf chunk buf }
  if buf = 0 then
    .error (-enomem, run)
  else
    let run := run.log [.use buf]
    let bufDmaAddr := calls.dmaMapSingle chunk
    let run := { run with npb.bufDmaAddrs := Function.update run.npb.bufDmaAddrs chunk bufDmaAddr }
    if bufDmaAddr = 0 then
      .error (-enomem, run)
    else
      .ok (run.log [.use buf])

def createProcPages (entry : UInt64) (assign : NfpPciebench → UInt64 → NfpPciebench)
    (run : PageRun) : Except (Int × PageRun) PageRun :=
  if entry = 0 then .error (-enodev, run)
  else .ok { run with npb := assign run.npb entry }

def npbInitPagesSteps (run : PageRun) : Except (Int × PageRun) PageRun := do
  let run ← (List.range chunks).foldlM (allocChunkPages pages calls) run
  let run ← createProcPages calls.procDmaAddrs
    (fun npb pe => { npb with procDmaAddrs := pe }) run
  let run ← createProcPages calls.procBufSz (fun npb pe => { npb with procBufSz := pe }) run
  createProcPages calls.procBuffer (fun npb pe => { npb with procBuffer := pe }) run

def removeChunkPages (run : PageRun) (chunk : Nat) : PageRun :=
  if run.npb.buf chunk ≠ 0 then run.log [.free (run.npb.buf chunk)] else run

/-- `npb_init`, for the blocks that it touches. -/
def npbInitPages (npb : NfpPciebench) : Int × PageRun :=
  match npbInitPagesSteps pages calls { npb, events := [] } with
  | .ok run => (0, run)
  | .error (err, run) => (err, (List.range chunks).foldl removeChunkPages run)

/-- A return value of zero stands for blocks that were all allocated. With any other, which is
negative, every block that was mapped, written or freed was allocated then. -/
def FailuresSeen (npb : NfpPciebench) : Prop :=
  let (ret, run) := npbInitPages pages calls npb
  (ret = 0 → ∀ chunk, chunk < chunks →
    pages.allocPagesNode chunk ≠ 0 ∧ run.npb.buf chunk = pages.address chunk) ∧
  (ret ≠ 0 → ret < 0 ∧ OnlyLive ∅ run.events)

/-- The loop comes to a chunk when every earlier one was allocated and mapped. -/
def ReachesChunk (chunk : Nat) : Prop :=
  ∀ earlier, earlier < chunk → pages.allocPagesNode earlier ≠ 0 ∧ calls.dmaMapSingle earlier ≠ 0

end Init

section Driver

open Outcome

variable {chunks : Nat} {pages : PageCalls chunks} {calls : KernelCalls} {driver : Driver}
  {run : PageRun}

/-- The driver of `npbInit` and the run here hold the same `npb`. -/
def SameNpb (driver : Driver) (run : PageRun) : Prop :=
  driver.npb = run.npb

def SameStop (stop : Int × Driver) (other : Int × PageRun) : Prop :=
  stop.1 = other.1 ∧ SameNpb stop.2 other.2

theorem allocChunk_related (same : SameNpb driver run) (chunk : Nat) :
    Related SameNpb SameStop (allocChunk (pages.seenBy calls) driver chunk)
      (allocChunkPages pages calls run chunk) := by
  obtain ⟨npb, events⟩ := run
  cases same
  rw [allocChunk, allocChunkPages]
  change Related _ _ (if pages.address chunk = 0 then _ else if calls.dmaMapSingle chunk = 0 then _
    else _) (if pages.address chunk = 0 then _ else if calls.dmaMapSingle chunk = 0 then _ else _)
  split
  · exact ⟨rfl, rfl⟩
  split
  · exact ⟨rfl, rfl⟩
  · exact rfl

theorem createProc_related (same : SameNpb driver run) (entry : UInt64) (resource : NpbResource)
    (assign : NfpPciebench → UInt64 → NfpPciebench) :
    Related SameNpb SameStop (createProc entry resource assign driver)
      (createProcPages entry assign run) := by
  rw [createProc, createProcPages]
  split
  · exact ⟨rfl, same⟩
  · exact congrArg (assign · entry) same

theorem npbInitSteps_related (same : SameNpb driver run) :
    Related SameNpb SameStop (npbInitSteps (pages.seenBy calls) chunks driver)
      (npbInitPagesSteps pages calls run) := by
  rw [npbInitSteps, npbInitPagesSteps]
  refine (related_foldlM (fun _ _ chunk same => allocChunk_related same chunk) _ same).bind ?_
  intro _ _ filled
  refine (createProc_related filled _ _ _).bind ?_
  intro _ _ shown
  refine (createProc_related shown _ _ _).bind ?_
  intro _ _ sized
  exact createProc_related sized _ _ _

theorem releaseIf_npb (driver : Driver) (pointer : UInt64) (resource : NpbResource) :
    (driver.releaseIf pointer resource).npb = driver.npb := by
  rw [Driver.releaseIf]
  split <;> rfl

theorem npbRemove_npb (npb : NfpPciebench) (driver : Driver) :
    (npbRemove chunks npb driver).npb = driver.npb := by
  have chunksKeep (removed : List Nat) (driver : Driver) :
      (removed.foldl (removeChunk npb) driver).npb = driver.npb := by
    induction removed generalizing driver with
    | nil => rfl
    | cons chunk rest ih => rw [List.foldl_cons, ih, removeChunk, releaseIf_npb, releaseIf_npb]
  rw [npbRemove, chunksKeep, releaseIf_npb, releaseIf_npb, releaseIf_npb]

theorem removeChunksPages_npb (removed : List Nat) (run : PageRun) :
    (removed.foldl removeChunkPages run).npb = run.npb := by
  induction removed generalizing run with
  | nil => rfl
  | cons chunk rest ih =>
      rw [List.foldl_cons, ih, removeChunkPages]
      split <;> rfl

/-- What `npb_init` returns and leaves in `npb` is what `npbInit` says. -/
theorem npbInit_pages (pages : PageCalls chunks) (calls : KernelCalls) (driver : Driver) :
    (npbInit (pages.seenBy calls) chunks driver).1 = (npbInitPages pages calls driver.npb).1 ∧
      (npbInit (pages.seenBy calls) chunks driver).2.npb =
        (npbInitPages pages calls driver.npb).2.npb := by
  have related : Related SameNpb SameStop (npbInitSteps (pages.seenBy calls) chunks driver)
      (npbInitPagesSteps pages calls { npb := driver.npb, events := [] }) :=
    npbInitSteps_related rfl
  rw [npbInit, npbInitPages]
  generalize npbInitSteps (pages.seenBy calls) chunks driver = left at related ⊢
  generalize npbInitPagesSteps pages calls { npb := driver.npb, events := [] } = right at related ⊢
  cases left with
  | ok driver =>
      cases right with
      | ok run => exact ⟨rfl, related⟩
      | error stop => exact related.elim
  | error stop =>
      cases right with
      | ok run => exact related.elim
      | error other =>
          obtain ⟨sameErr, sameNpb⟩ := related
          exact ⟨sameErr, by rw [npbRemove_npb, removeChunksPages_npb, sameNpb]⟩

end Driver

section Runs

open Outcome

variable {chunks : Nat} (pages : PageCalls chunks) (calls : KernelCalls)

def passedEvents (count : Nat) : List (Event UInt64) :=
  (List.range count).flatMap fun chunk =>
    pages.allocated chunk ++ [.use (pages.address chunk), .use (pages.address chunk)]

/-- The loop goes on after each of the first `count` chunks. -/
def PassesChunks (count : Nat) : Prop :=
  ∀ chunk, chunk < count → pages.address chunk ≠ 0 ∧ calls.dmaMapSingle chunk ≠ 0

/-- `npb->buf` with `count` chunks. -/
def HasChunks (count : Nat) (npb : NfpPciebench) : Prop :=
  ∀ chunk, npb.buf chunk = if chunk < count then pages.address chunk else 0

structure Passed (count : Nat) (run : PageRun) : Prop where
  passes : PassesChunks pages calls count
  buf : HasChunks pages count run.npb
  events : run.events = passedEvents pages count

/-- Where `npb_init` goes to `err`: the error, the chunks in `npb->buf`, and the events so far. -/
inductive Ending : Int → Nat → List (Event UInt64) → Prop
  | noAddress (chunk : Nat) (inside : chunk < chunks) (passes : PassesChunks pages calls chunk)
      (null : pages.address chunk = 0) :
      Ending (-enomem) chunk (passedEvents pages chunk ++ pages.allocated chunk)
  | noMapping (chunk : Nat) (inside : chunk < chunks) (passes : PassesChunks pages calls chunk)
      (address : pages.address chunk ≠ 0) (unmapped : calls.dmaMapSingle chunk = 0) :
      Ending (-enomem) (chunk + 1)
        (passedEvents pages chunk ++ (pages.allocated chunk ++ [.use (pages.address chunk)]))
  | noProc (passes : PassesChunks pages calls chunks) :
      Ending (-enodev) chunks (passedEvents pages chunks)

def StopsAt (stop : Int × PageRun) : Prop :=
  ∃ count, Ending pages calls stop.1 count stop.2.events ∧ HasChunks pages count stop.2.npb

variable {pages calls} {count : Nat} {run : PageRun}

theorem passedEvents_succ : passedEvents pages (count + 1) = passedEvents pages count ++
    (pages.allocated count ++ [.use (pages.address count), .use (pages.address count)]) := by
  rw [passedEvents, List.range_succ, List.flatMap_append, List.flatMap_singleton]
  rfl

theorem PassesChunks.succ (passes : PassesChunks pages calls count)
    (address : pages.address count ≠ 0) (mapped : calls.dmaMapSingle count ≠ 0) :
    PassesChunks pages calls (count + 1) := by
  intro chunk inside
  by_cases last : chunk = count
  · subst chunk
    exact ⟨address, mapped⟩
  · exact passes chunk (by omega)

theorem HasChunks.update {npb : NfpPciebench} (has : HasChunks pages count npb) :
    HasChunks pages (count + 1)
      { npb with buf := Function.update npb.buf count (pages.address count) } := by
  intro chunk
  dsimp only
  by_cases last : chunk = count
  · subst chunk
    rw [Function.update_self, if_pos (Nat.lt_succ_self _)]
  · rw [Function.update_of_ne last, has chunk]
    exact if_congr (by omega) rfl rfl

theorem HasChunks.of_null {npb : NfpPciebench} (has : HasChunks pages (count + 1) npb)
    (null : pages.address count = 0) : HasChunks pages count npb := by
  intro chunk
  rw [has chunk]
  by_cases last : chunk = count
  · subst chunk
    rw [if_pos (Nat.lt_succ_self _), if_neg (lt_irrefl _), null]
  · exact if_congr (by omega) rfl rfl

theorem allocChunkPages_ends (passed : Passed pages calls count run) (inside : count < chunks) :
    Ends (allocChunkPages pages calls run count) (Passed pages calls (count + 1))
      (StopsAt pages calls) := by
  have grown := passed.buf.update
  rw [allocChunkPages]
  change Ends (if pages.address count = 0 then _ else _) _ _
  by_cases null : pages.address count = 0
  · rw [if_pos null]
    refine ⟨count, ?_, grown.of_null null⟩
    change Ending pages calls _ _ (run.events ++ pages.allocated count)
    rw [passed.events]
    exact .noAddress count inside passed.passes null
  rw [if_neg null]
  by_cases unmapped : calls.dmaMapSingle count = 0
  · dsimp only
    rw [if_pos unmapped]
    refine ⟨count + 1, ?_, grown⟩
    change Ending pages calls _ _
      (run.events ++ pages.allocated count ++ [.use (pages.address count)])
    rw [passed.events, List.append_assoc]
    exact .noMapping count inside passed.passes null unmapped
  · dsimp only
    rw [if_neg unmapped]
    refine ⟨passed.passes.succ null unmapped, grown, ?_⟩
    change run.events ++ pages.allocated count ++ [.use (pages.address count)] ++
      [.use (pages.address count)] = _
    rw [passed.events, passedEvents_succ, List.append_assoc, List.append_assoc]
    rfl

theorem allocChunksPages_ends (started : Passed pages calls 0 run) (count : Nat)
    (bound : count ≤ chunks) :
    Ends ((List.range count).foldlM (allocChunkPages pages calls) run)
      (Passed pages calls count) (StopsAt pages calls) := by
  induction count with
  | zero => exact started
  | succ count ih =>
      rw [List.range_succ, List.foldlM_append]
      refine (ih (by omega)).bind ?_
      intro reached passed
      rw [List.foldlM_cons]
      exact (allocChunkPages_ends passed (by omega)).bind fun _ last => last

theorem createProcPages_ends {entry : UInt64} {assign : NfpPciebench → UInt64 → NfpPciebench}
    (keeps : ∀ npb, (assign npb entry).buf = npb.buf) (passed : Passed pages calls chunks run) :
    Ends (createProcPages entry assign run) (Passed pages calls chunks) (StopsAt pages calls) := by
  rw [createProcPages]
  split
  · refine ⟨chunks, ?_, passed.buf⟩
    change Ending pages calls _ _ run.events
    rw [passed.events]
    exact .noProc passed.passes
  · refine ⟨passed.passes, ?_, passed.events⟩
    intro chunk
    rw [keeps run.npb]
    exact passed.buf chunk

theorem npbInitPagesSteps_ends (started : Passed pages calls 0 run) :
    Ends (npbInitPagesSteps pages calls run) (Passed pages calls chunks)
      (StopsAt pages calls) := by
  rw [npbInitPagesSteps]
  refine (allocChunksPages_ends started chunks (le_refl chunks)).bind ?_
  intro _ filled
  refine (createProcPages_ends (fun _ => rfl) filled).bind ?_
  intro _ shown
  refine (createProcPages_ends (fun _ => rfl) shown).bind ?_
  intro _ sized
  exact createProcPages_ends (fun _ => rfl) sized

theorem removeChunksPages (has : HasChunks pages count run.npb)
    (addresses : ∀ chunk, chunk < count → pages.address chunk ≠ 0) (removed : Nat) :
    (List.range removed).foldl removeChunkPages run = run.log
      (((List.range (min removed count)).map pages.address).map .free) := by
  induction removed with
  | zero =>
      rw [Nat.zero_min]
      exact congrArg (PageRun.mk run.npb) (List.append_nil _).symm
  | succ removed ih =>
      rw [List.range_succ, List.foldl_append, ih, List.foldl_cons, List.foldl_nil,
        removeChunkPages]
      change (if run.npb.buf removed ≠ 0 then _ else _) = _
      by_cases held : removed < count
      · have isAddress : run.npb.buf removed = pages.address removed := by
          rw [has removed, if_pos held]
        rw [isAddress, if_pos (addresses removed held), Nat.min_eq_left held.le,
          Nat.min_eq_left held, List.range_succ, List.map_append, List.map_append]
        change PageRun.mk run.npb (run.events ++ _ ++ [Event.free (run.npb.buf removed)]) =
          PageRun.mk run.npb (run.events ++ _)
        rw [isAddress, List.append_assoc]
        rfl
      · have isNull : run.npb.buf removed = 0 := by rw [has removed, if_neg held]
        rw [isNull, if_neg (not_not.mpr rfl), Nat.min_eq_right (by omega),
          Nat.min_eq_right (by omega)]

/-- The events from the `goto err` on: each chunk in `npb->buf` is freed. -/
def freedEvents (pages : PageCalls chunks) (count : Nat) : List (Event UInt64) :=
  ((List.range count).map pages.address).map .free

theorem Ending.spec {err : Int} {events : List (Event UInt64)}
    (ending : Ending pages calls err count events) :
    err < 0 ∧ count ≤ chunks ∧ ∀ chunk, chunk < count → pages.address chunk ≠ 0 := by
  cases ending with
  | noAddress _ inside passes _ =>
      exact ⟨by decide, inside.le, fun chunk earlier => (passes chunk earlier).1⟩
  | noMapping last inside passes address _ =>
      refine ⟨by decide, inside, ?_⟩
      intro chunk earlier
      by_cases here : chunk = last
      · exact here ▸ address
      · exact (passes chunk (by omega)).1
  | noProc passes =>
    exact ⟨by decide, le_refl chunks, fun chunk earlier => (passes chunk earlier).1⟩

variable (pages calls) in
theorem npbInitPages_cases (cpp nfpDevCpp : UInt64) :
    ((npbInitPages pages calls (.zeroed cpp nfpDevCpp)).1 = 0 ∧ PassesChunks pages calls chunks ∧
      HasChunks pages chunks (npbInitPages pages calls (.zeroed cpp nfpDevCpp)).2.npb) ∨
    ∃ count events,
      Ending pages calls (npbInitPages pages calls (.zeroed cpp nfpDevCpp)).1 count events ∧
      (npbInitPages pages calls (.zeroed cpp nfpDevCpp)).2.events =
        events ++ freedEvents pages count := by
  have started : Passed pages calls 0 { npb := .zeroed cpp nfpDevCpp, events := [] } :=
    ⟨fun chunk below => absurd below (Nat.not_lt_zero chunk), fun _ => rfl, rfl⟩
  have ends := npbInitPagesSteps_ends started
  rw [npbInitPages]
  cases steps : npbInitPagesSteps pages calls { npb := .zeroed cpp nfpDevCpp, events := [] } with
  | ok run =>
      rw [steps] at ends
      exact .inl ⟨rfl, ends.passes, ends.buf⟩
  | error stop =>
      rw [steps] at ends
      obtain ⟨err, run⟩ := stop
      obtain ⟨count, ending, has⟩ := ends
      obtain ⟨_, bound, addresses⟩ := ending.spec
      refine .inr ⟨count, run.events, ending, ?_⟩
      dsimp only
      rw [removeChunksPages has addresses, Nat.min_eq_right bound]
      rfl

end Runs

section Live

variable {chunks : Nat} {pages : PageCalls chunks} {calls : KernelCalls} {count : Nat}

theorem allocated_eq {chunk : Nat} (real : pages.allocPagesNode chunk ≠ 0) :
    pages.allocated chunk = [.allocate (pages.address chunk)] :=
  if_neg real

theorem allocated_null {chunk : Nat} (failed : pages.allocPagesNode chunk = 0) :
    pages.allocated chunk = [] :=
  if_pos failed

/-- After events in which only real blocks were touched, the chunks up to `count` are allocated. -/
structure Stocks (pages : PageCalls chunks) (count : Nat) (events : List (Event UInt64)) :
    Prop where
  onlyLive : OnlyLive ∅ events
  live : liveAfter ∅ events = (Finset.range count).image pages.address

theorem Stocks.allocate {events : List (Event UInt64)} (stocks : Stocks pages count events)
    (real : pages.allocPagesNode count ≠ 0) :
    Stocks pages (count + 1) (events ++ pages.allocated count) where
  onlyLive := by
    rw [allocated_eq real]
    exact onlyLive_append.mpr ⟨stocks.onlyLive, trivial, trivial⟩
  live := by
    rw [allocated_eq real, liveAfter_append, stocks.live, Finset.range_add_one,
      Finset.image_insert]
    rfl

theorem Stocks.use {events : List (Event UInt64)} (stocks : Stocks pages count events)
    {chunk : Nat} (inside : chunk < count) :
    Stocks pages count (events ++ [.use (pages.address chunk)]) where
  onlyLive := by
    refine onlyLive_append.mpr ⟨stocks.onlyLive, ?_, trivial⟩
    rw [Allowed, stocks.live]
    exact Finset.mem_image_of_mem _ (Finset.mem_range.mpr inside)
  live := by
    rw [liveAfter_append, stocks.live]
    rfl

theorem stocks_passedEvents (real : ∀ chunk, chunk < count → pages.allocPagesNode chunk ≠ 0) :
    Stocks pages count (passedEvents pages count) := by
  induction count with
  | zero => exact ⟨trivial, rfl⟩
  | succ count ih =>
      have before := ih (fun chunk earlier => real chunk (by omega))
      have used := ((before.allocate (real count (by omega))).use (Nat.lt_succ_self count)).use
        (Nat.lt_succ_self count)
      rw [List.append_assoc, List.append_assoc] at used
      rw [passedEvents_succ]
      exact used

theorem Stocks.freed {events : List (Event UInt64)} (stocks : Stocks pages count events)
    (bound : count ≤ chunks)
    (real : ∀ chunk, chunk < count → pages.allocPagesNode chunk ≠ 0) :
    OnlyLive ∅ (events ++ freedEvents pages count) := by
  refine onlyLive_append.mpr ⟨stocks.onlyLive, onlyLive_frees.mpr ⟨?_, ?_⟩⟩
  · refine List.Nodup.map_on ?_ List.nodup_range
    intro first firstIn second secondIn same
    have firstLess := List.mem_range.mp firstIn
    have secondLess := List.mem_range.mp secondIn
    exact pages.distinct first second (by omega) (by omega) (real first firstLess)
      (real second secondLess) same
  · intro address member
    obtain ⟨chunk, inside, rfl⟩ := List.mem_map.mp member
    rw [stocks.live]
    exact Finset.mem_image_of_mem _ (Finset.mem_range.mpr (List.mem_range.mp inside))

end Live

section Failures

variable {chunks : Nat} {pages : PageCalls chunks} {calls : KernelCalls} {count : Nat}

/-- `page_address` gives NULL for NULL, or no call of `alloc_pages_node` that is made returns it. -/
def NullIsSeen (pages : PageCalls chunks) (calls : KernelCalls) : Prop :=
  pages.pageAddress 0 = 0 ∨
    ∀ chunk, chunk < chunks → ReachesChunk pages calls chunk → pages.allocPagesNode chunk ≠ 0

theorem NullIsSeen.allocated (seen : NullIsSeen pages calls) (bound : count ≤ chunks)
    (addresses : ∀ chunk, chunk < count → pages.address chunk ≠ 0)
    (mapped : ∀ chunk, chunk + 1 < count → calls.dmaMapSingle chunk ≠ 0) :
    ∀ chunk, chunk < count → pages.allocPagesNode chunk ≠ 0 := by
  intro chunk
  induction chunk using Nat.strong_induction_on with
  | _ chunk ih =>
      intro inside
      rcases seen with nullToNull | allMade
      · intro failed
        have address : pages.address chunk = pages.pageAddress 0 :=
          congrArg pages.pageAddress failed
        exact addresses chunk inside (address.trans nullToNull)
      · refine allMade chunk (by omega) ?_
        intro earlier below
        exact ⟨ih earlier below (by omega), mapped earlier (by omega)⟩

theorem Ending.onlyLive {err : Int} {events : List (Event UInt64)}
    (ending : Ending pages calls err count events) (seen : NullIsSeen pages calls) :
    OnlyLive ∅ (events ++ freedEvents pages count) := by
  obtain ⟨_, bound, addresses⟩ := ending.spec
  cases ending with
  | noAddress _ _ passes null =>
      have real := seen.allocated bound addresses fun chunk below => (passes chunk (by omega)).2
      have failed : pages.allocPagesNode count = 0 :=
        by_contra fun real => pages.nonNull _ real null
      rw [allocated_null failed, List.append_nil]
      exact (stocks_passedEvents real).freed bound real
  | noMapping last _ passes _ _ =>
      have real := seen.allocated bound addresses fun chunk below => (passes chunk (by omega)).2
      have before := stocks_passedEvents fun chunk (below : chunk < last) => real chunk (by omega)
      have given := (before.allocate (real last (by omega))).use (Nat.lt_succ_self last)
      rw [List.append_assoc] at given
      exact given.freed bound real
  | noProc passes =>
      have real := seen.allocated bound addresses fun chunk below => (passes chunk (by omega)).2
      exact (stocks_passedEvents real).freed bound real

theorem passedEvents_start {chunk : Nat} (below : chunk < count) :
    passedEvents pages chunk ++ (pages.allocated chunk ++ [.use (pages.address chunk)]) <+:
      passedEvents pages count := by
  induction count with
  | zero => omega
  | succ count ih =>
      rw [passedEvents_succ]
      by_cases last : chunk = count
      · subst chunk
        refine (List.prefix_append_right_inj _).mpr ((List.prefix_append_right_inj _).mpr ?_)
        exact ⟨[.use (pages.address count)], rfl⟩
      · exact (ih (by omega)).trans (List.prefix_append _ _)

theorem Ending.maps {err : Int} {events : List (Event UInt64)}
    (ending : Ending pages calls err count events) {chunk : Nat} (inside : chunk < chunks)
    (reached : ReachesChunk pages calls chunk) (address : pages.address chunk ≠ 0) :
    chunk < count ∧
      passedEvents pages chunk ++ (pages.allocated chunk ++ [.use (pages.address chunk)]) <+:
        events := by
  cases ending with
  | noAddress _ _ passes null =>
      have below : chunk < count := by
        by_contra notBelow
        by_cases here : count = chunk
        · exact address (here ▸ null)
        · exact pages.nonNull _ (reached count (by omega)).1 null
      exact ⟨below, (passedEvents_start below).trans (List.prefix_append _ _)⟩
  | noMapping last _ _ _ unmapped =>
      by_cases here : chunk = last
      · subst chunk
        exact ⟨Nat.lt_succ_self last, List.prefix_rfl⟩
      · have below : chunk < last := by
          by_contra notBelow
          exact (reached last (by omega)).2 unmapped
        exact ⟨by omega, (passedEvents_start below).trans (List.prefix_append _ _)⟩
  | noProc passes => exact ⟨inside, passedEvents_start inside⟩

/-- A NULL that passes for a block is mapped although it is none, or freed as one that it is
not. -/
theorem Ending.not_onlyLive {err : Int} {events : List (Event UInt64)}
    (ending : Ending pages calls err count events) {chunk : Nat} (inside : chunk < chunks)
    (reached : ReachesChunk pages calls chunk) (failed : pages.allocPagesNode chunk = 0)
    (address : pages.address chunk ≠ 0) :
    ¬ OnlyLive ∅ (events ++ freedEvents pages count) := by
  intro onlyLive
  obtain ⟨below, mapped⟩ := ending.maps inside reached address
  obtain ⟨before, frees⟩ := onlyLive_append.mp onlyLive
  have real (earlier : Nat) (less : earlier < chunk) := (reached earlier less).1
  have use := (onlyLive_append.mp (before.start mapped)).2
  rw [allocated_null failed, (stocks_passedEvents real).live] at use
  obtain ⟨other, otherIn, same⟩ := Finset.mem_image.mp use.1
  have less := Finset.mem_range.mp otherIn
  have equal := List.inj_on_of_nodup_map (onlyLive_frees.mp frees).1
    (List.mem_range.mpr (by omega)) (List.mem_range.mpr below) same
  omega

theorem npbInitPages_failuresSeen (pages : PageCalls chunks) (calls : KernelCalls)
    (cpp nfpDevCpp : UInt64) :
    FailuresSeen pages calls (.zeroed cpp nfpDevCpp) ↔ NullIsSeen pages calls := by
  have cases := npbInitPages_cases pages calls cpp nfpDevCpp
  rw [FailuresSeen]
  generalize npbInitPages pages calls (.zeroed cpp nfpDevCpp) = result at cases ⊢
  obtain ⟨ret, run⟩ := result
  constructor
  · rintro ⟨zero, nonzero⟩
    by_cases null : pages.pageAddress 0 = 0
    · exact .inl null
    refine .inr ?_
    intro chunk inside reached failed
    have address : pages.address chunk ≠ 0 := by rwa [PageCalls.address, failed]
    rcases cases with ⟨success, _, _⟩ | ⟨count, events, ending, whole⟩
    · exact (zero success chunk inside).1 failed
    · have onlyLive := (nonzero ending.spec.1.ne).2
      rw [whole] at onlyLive
      exact ending.not_onlyLive inside reached failed address onlyLive
  · intro seen
    rcases cases with ⟨success, passes, has⟩ | ⟨count, events, ending, whole⟩
    · refine ⟨?_, fun failed => absurd success failed⟩
      intro _ chunk inside
      refine ⟨?_, (has chunk).trans (if_pos inside)⟩
      exact seen.allocated (le_refl chunks) (fun other below => (passes other below).1)
        (fun other below => (passes other (by omega)).2) chunk inside
    · have negative := ending.spec.1
      refine ⟨fun success => absurd success negative.ne, fun _ => ⟨negative, ?_⟩⟩
      rw [whole]
      exact ending.onlyLive seen

/-- `alloc_pages_node` fails for chunk 3, and `page_address` makes an address of NULL. -/
def chunkThreeFails : PageCalls pciebenchChunks where
  allocPagesNode chunk := if chunk = 3 then 0 else UInt64.ofNat (4194304 * (chunk + 1))
  pageAddress pages := if pages = 0 then 0x160000000000 else pages
  nonNull := by
    intro pages real
    rwa [if_neg real]
  distinct := by
    intro first second firstIn secondIn firstReal secondReal same
    rw [if_neg firstReal, if_neg secondReal] at same
    have firstOther : first ≠ 3 := fun three => firstReal (if_pos three)
    have secondOther : second ≠ 3 := fun three => secondReal (if_pos three)
    rw [if_neg firstOther, if_neg secondOther] at same
    have equal := congrArg UInt64.toNat same
    rw [UInt64.toNat_ofNat', UInt64.toNat_ofNat'] at equal
    rw [pciebenchChunks_eq] at firstIn secondIn
    omega

def callsSucceed : KernelCalls where
  enableDevice := 0
  setDmaMask := 0
  setConsistentDmaMask := 0
  requestRegions := 0
  device := .nfp6000
  cppFromNfp3200Pcie := 0
  cppFromNfp6000Pcie := 4096
  platformDeviceRegister := 4096
  kzalloc := 4096
  pageAddress := fun _ => 0
  dmaMapSingle := fun chunk => UInt64.ofNat (4194304 * (chunk + 1))
  procDmaAddrs := 4096
  procBufSz := 4096
  procBuffer := 4096

theorem npbInitPages_null_chunk :
    (npbInitPages chunkThreeFails callsSucceed (.zeroed 4096 4096)).1 = 0 ∧
      chunkThreeFails.allocPagesNode 3 = 0 ∧
      ¬ FailuresSeen chunkThreeFails callsSucceed (.zeroed 4096 4096) := by
  have success : (npbInitPages chunkThreeFails callsSucceed (.zeroed 4096 4096)).1 = 0 := by
    decide +kernel
  refine ⟨success, rfl, ?_⟩
  intro seen
  exact (seen.1 success 3 (by decide)).1 rfl

end Failures

end Pciebench
