import Mathlib
import Pciebench.SingleWorkers
import Pciebench.IslandRuns

/-!
Which test the workers of a single run perform. An ME takes the number of the test from
`test_ctrl` when the start ping reaches it. If the result has been written there by then, its
contexts draw ticket zero only, and issue a write for it.
-/

namespace Pciebench

open Machine WordCopy IslandState

/-- The DMA that a test prescribes for a ticket. -/
structure BwIssue.Faithful {chip : Chip} (island : Island chip) (request : BwRequest)
    (issue : BwIssue) : Prop where
  cmd : issue.cmd = bwSetup island issue.context request.params
  read : issue.read = bwRead request.test issue.ticket

namespace IslandState

variable {chip : Chip} {workers : Nat}

def RunsRequested (island : Island chip) (request : BwRequest) (state : IslandState workers) :
    Prop :=
  ∀ issue ∈ state.issued, issue.Faithful island request

/-- The condition on a step: an ME reads `test_ctrl` only while the request stands there. -/
def FetchesInTime (state : IslandState workers) : IslandAction workers → Prop
  | .work ctx => (state.worker ctx).pc = .fetchingTest → 0 < state.testCtrl
  | _ => True

/-- What the workers of a run know of the request. Where MEs may be `late`, some of them took
a published result for the test. -/
structure Informed (island : Island chip) (request : BwRequest) (late : Prop)
    (state : IslandState workers) : Prop where
  master : state.armed ≠ [] → state.Entered request
  woken : ∀ ctx, (state.worker ctx).joined ≠ 0 → (state.worker ctx).pc ≠ .fetchingTest →
    (state.regs (contextMe ctx)).testNo = request.test.number ∨
      (late ∧ (state.regs (contextMe ctx)).testNo = 0 ∧ state.numDmaTrans = 0 ∧
        ((state.worker ctx).pc.finishing = true → (state.worker ctx).trans = 0))
  setUp : ∀ ctx, (state.worker ctx).pc = .looping ∨ (state.worker ctx).pc.finishing = true →
    (state.worker ctx).cmd = bwSetup island (contextNumber ctx) request.params
  issued : ∀ issue ∈ state.issued, issue.Faithful island request ∨
    (late ∧ issue.ticket = 0 ∧ issue.read = false ∧
      issue.cmd = bwSetup island issue.context request.params)

end IslandState

theorem bwReadNo_number (request : BwRequest) (trans : Nat) :
    bwReadNo request.test.number trans = bwRead request.test trans := by
  obtain ⟨test, params, bw⟩ := request
  cases test <;> simp [bwTests] at bw <;> rfl

theorem bwReadNo_none (trans : Nat) : bwReadNo 0 trans = (trans &&& 1 != 0) :=
  rfl

section Steps

variable {chip : Chip} {island : Island chip} {state next : IslandState (workerCount chip)}
  {ctx : Fin (workerCount chip)} {request : BwRequest} {late : Prop}

theorem informed_main (informed : state.Informed island request late) (woken : state.WokenOnce)
    (order : state.InOrder island) (turns : state.TakesTurns) (single : state.Single request)
    (move : MainMove island state next) : next.Informed island request late := by
  -- before the first start ping no context has been woken
  have early (unsent : state.armed = [] ∨ state.main = .starting)
      (workers : ∀ ctx, ∃ more, next.worker ctx =
        { state.worker ctx with startSig := (state.worker ctx).startSig ++ more })
      (issued : next.issued = state.issued) (master : next.armed ≠ [] → next.Entered request) :
      next.Informed island request late := by
    refine ⟨master, ?_, ?_, ?_⟩
    · intro ctx joined
      obtain ⟨sig, kept⟩ := workers ctx
      rw [kept, woken.unsent order unsent ctx] at joined
      exact absurd rfl joined
    · intro ctx drawing
      obtain ⟨sig, kept⟩ := workers ctx
      rw [kept, woken.unsent order unsent ctx] at drawing
      rcases drawing with looping | finishing <;> contradiction
    · rw [issued]
      exact informed.issued
  have contexts := move.contexts
  cases move with
  | wake main positive | copyParam index main more | «switch» index main all
  | finish main signalled | publish res main =>
      exact ⟨informed.master, informed.woken, informed.setUp, informed.issued⟩
  | refuse main refused | accept main accepted =>
      have unarmed := single.unserved (.inr (.inr (.inr (.inr (.inl main)))))
      exact early (.inl unarmed) contexts rfl fun armed => absurd unarmed armed
  | arm main returned =>
      have unarmed := single.unserved (.inr (.inr (.inr (.inr (.inr main)))))
      obtain ⟨other, host, _, _, progress⟩ := takesTurns_busy turns (by simp [main])
      have same := single.asked other (by rw [host]; rfl)
      simp only [MainAt, main, same] at progress
      exact early (.inl unarmed) contexts rfl fun _ => progress.1
  | start main => exact early (.inr main) contexts rfl informed.master

theorem settingUp_args (order : state.InOrder island) (single : state.Single request)
    (pc : (state.worker ctx).pc = .settingUp) :
    (state.regs (contextMe ctx)).args = request.params := by
  obtain ⟨front, chained⟩ := order.chain
  have below := chained.drawer (.inl pc)
  have stable := stable_preparing order pc rfl
  have armed : state.armed = [request] := by
    rcases single.armed with none | one
    · have := chained.unsent.mpr (.inl none)
      omega
    · exact one
  rw [chained.args below stable, IslandState.runParams, armed]
  rfl

theorem setUp_work (informed : state.Informed island request late) (order : state.InOrder island)
    (single : state.Single request) (move : WorkMove island state ctx next)
    (other : Fin (workerCount chip))
    (drawing : (next.worker other).pc = .looping ∨ (next.worker other).pc.finishing = true) :
    (next.worker other).cmd = bwSetup island (contextNumber other) request.params := by
  by_cases same : other = ctx
  · subst same
    cases move with
    | setUp pc =>
        simp only [setWorker, Function.update_self, settingUp_args order single pc]
        rfl
    | draw pc =>
        simp only [setWorker, Function.update_self]
        exact informed.setUp other (.inl pc)
    | issue pc | complete pc | check pc | leave pc =>
        simp only [setWorker, Function.update_self]
        exact informed.setUp other (.inr (by rw [pc]; rfl))
    | join pc signalled =>
        simp only [setWorker, Function.update_self] at drawing
        split at drawing <;> rcases drawing with looping | finishing <;> contradiction
    | fetchTest pc | fetchParam index pc more | fetched index pc all | ping target pc found
    | last pc nobody => simp [setWorker, ContextPc.finishing] at drawing
  · obtain ⟨sig, kept⟩ := move.others same
    rw [kept] at drawing ⊢
    exact informed.setUp other drawing

theorem issued_work (informed : state.Informed island request late) (woken : state.WokenOnce)
    (move : WorkMove island state ctx next) (issue : BwIssue) (enqueued : issue ∈ next.issued) :
    issue.Faithful island request ∨ (late ∧ issue.ticket = 0 ∧ issue.read = false ∧
      issue.cmd = bwSetup island issue.context request.params) := by
  cases move with
  | issue pc =>
      rcases List.mem_append.mp enqueued with earlier | new
      · exact informed.issued issue earlier
      · have finishing : (state.worker ctx).pc.finishing = true := by rw [pc]; rfl
        have cmd := informed.setUp ctx (.inr finishing)
        rw [List.mem_singleton.mp new]
        rcases informed.woken ctx (woken.joined (by simp [pc])) (by simp [pc]) with
          known | ⟨tardy, none, _, zero⟩
        · refine .inl ⟨cmd, ?_⟩
          simp only [known, bwReadNo_number]
        · refine .inr ⟨tardy, zero finishing, ?_, cmd⟩
          simp only [none, zero finishing, bwReadNo_none]
          rfl
  | _ => exact informed.issued issue enqueued

theorem joined_test (informed : state.Informed island request late) (order : state.InOrder island)
    (signalled : (state.worker ctx).startSig ≠ []) (body : contextNumber ctx % 8 ≠ 0) :
    (state.regs (contextMe ctx)).testNo = request.test.number ∨
      (late ∧ (state.regs (contextMe ctx)).testNo = 0 ∧ state.numDmaTrans = 0) := by
  obtain ⟨front, chained⟩ := order.chain
  obtain ⟨at', _⟩ := chained.signalled signalled
  have inRange := contextNumber_le ctx
  obtain ⟨_, _, ran, _⟩ := chained.armed (by omega)
  have armed : state.armed ≠ [] := List.ne_nil_of_length_pos ran
  by_cases first : contextNumber ctx = 1
  · have master : contextMe ctx = 0 := by simp [contextMe, first]
    rw [master, informed.master armed]
    exact .inl rfl
  · let before : Fin (workerCount chip) := ⟨ctx.val - 1, by omega⟩
    have number : contextNumber before + 1 = contextNumber ctx := by
      simp only [contextNumber, before] at first ⊢
      omega
    have me : contextMe before = contextMe ctx := by
      simp only [contextMe]
      omega
    have passed := chained.passed before (by omega)
    have joined : (state.worker before).joined ≠ 0 := by
      rw [passed.joined]
      omega
    have beyond : (state.worker before).pc ≠ .fetchingTest := by
      intro fetching
      have holding := passed.beyond
      rw [fetching] at holding
      contradiction
    rcases informed.woken before joined beyond with known | ⟨tardy, none, exhausted, _⟩
    · exact .inl (me ▸ known)
    · exact .inr ⟨tardy, me ▸ none, exhausted⟩

theorem fetched_test (counted : state.Counted) (order : state.InOrder island)
    (turns : state.TakesTurns) (single : state.Single request)
    (pc : (state.worker ctx).pc = .fetchingTest) (inTime : ¬ late → 0 < state.testCtrl) :
    UInt32.ofInt state.testCtrl = request.test.number ∨
      (late ∧ UInt32.ofInt state.testCtrl = 0 ∧ state.numDmaTrans = 0) := by
  obtain ⟨front, chained⟩ := order.chain
  obtain ⟨at', _⟩ := chained.held pc rfl
  have inRange := contextNumber_le ctx
  obtain ⟨_, _, ran, _⟩ := chained.armed (by omega)
  by_cases posted : 0 < state.testCtrl
  · rcases takesTurns_serving turns with resting | ⟨other, host, serving⟩
    · exact absurd posted (Int.not_lt.mpr resting.1)
    · have same := single.asked other (by rw [host]; rfl)
      rw [serving.1, same, ofInt_ctrl]
      exact .inl rfl
  · obtain ⟨exhausted, none⟩ :=
      counted.published (List.ne_nil_of_length_pos ran) (Int.not_lt.mp posted)
    have tardy : late := by
      by_contra punctual
      exact posted (inTime punctual)
    rw [none]
    exact .inr ⟨tardy, rfl, exhausted⟩

theorem WorkMove.testNo (move : WorkMove island state ctx next)
    (elsewhere : (state.worker ctx).pc ≠ .fetchingTest) (me : Nat) :
    (next.regs me).testNo = (state.regs me).testNo := by
  cases move with
  | fetchTest pc => exact absurd pc elsewhere
  | fetched index pc all =>
      by_cases here : me = contextMe ctx
      · subst here
        simp
      · simp [here]
  | _ => rfl

theorem WorkMove.exhausted (move : WorkMove island state ctx next)
    (none : state.numDmaTrans = 0) : next.numDmaTrans = 0 := by
  cases move with
  | draw pc => exact (congrArg (· - 1) none).trans rfl
  | _ => exact none

/-- The other contexts of an ME that takes the test number have not been woken. -/
theorem unwoken_beside (woken : state.WokenOnce) (order : state.InOrder island)
    (heads : state.FetchesAtHead) (pc : (state.worker ctx).pc = .fetchingTest)
    {other : Fin (workerCount chip)} (apart : other ≠ ctx)
    (beside : contextMe other = contextMe ctx) : (state.worker other).joined = 0 := by
  obtain ⟨front, chained⟩ := order.chain
  obtain ⟨at', _⟩ := chained.held pc rfl
  have head := heads ctx (.inl pc)
  have different : contextNumber other ≠ contextNumber ctx := fun same =>
    apart (Fin.ext (Nat.succ_injective same))
  have above : front < contextNumber other := by
    simp only [contextMe] at beside
    omega
  rw [woken.ahead chained above]
  rfl

theorem woken_work (informed : state.Informed island request late) (woken : state.WokenOnce)
    (counted : state.Counted) (order : state.InOrder island) (inTurn : state.InTurn)
    (single : state.Single request) (move : WorkMove island state ctx next)
    (inTime : ¬ late → (state.worker ctx).pc = .fetchingTest → 0 < state.testCtrl)
    (other : Fin (workerCount chip)) (joined : (next.worker other).joined ≠ 0)
    (beyond : (next.worker other).pc ≠ .fetchingTest) :
    (next.regs (contextMe other)).testNo = request.test.number ∨
      (late ∧ (next.regs (contextMe other)).testNo = 0 ∧ next.numDmaTrans = 0 ∧
        ((next.worker other).pc.finishing = true → (next.worker other).trans = 0)) := by
  -- a context that knew the test still does, one that was late still draws nothing but zero
  have still (elsewhere : (state.worker ctx).pc ≠ .fetchingTest)
      (before : (state.worker other).joined ≠ 0 ∧ (state.worker other).pc ≠ .fetchingTest)
      (draws : state.numDmaTrans = 0 → ((state.worker other).pc.finishing = true →
        (state.worker other).trans = 0) → (next.worker other).pc.finishing = true →
        (next.worker other).trans = 0) :
      (next.regs (contextMe other)).testNo = request.test.number ∨
        (late ∧ (next.regs (contextMe other)).testNo = 0 ∧ next.numDmaTrans = 0 ∧
          ((next.worker other).pc.finishing = true → (next.worker other).trans = 0)) := by
    rw [move.testNo elsewhere]
    exact (informed.woken other before.1 before.2).imp id fun ⟨tardy, unknown, exhausted, zero⟩ =>
      ⟨tardy, unknown, move.exhausted exhausted, draws exhausted zero⟩
  by_cases same : other = ctx
  · subst same
    have exhausted := move.exhausted
    cases move with
    | join pc signalled =>
        have body : contextNumber other % 8 ≠ 0 := by
          intro head
          simp [setWorker, head] at beyond
        rcases joined_test informed order signalled body with known | ⟨tardy, none, out⟩
        · exact .inl known
        · refine .inr ⟨tardy, none, out, ?_⟩
          simp [setWorker, body, ContextPc.finishing]
    | fetchTest pc =>
        rcases fetched_test counted order inTurn.turns single pc (fun punctual =>
          inTime punctual pc) with known | ⟨tardy, none, out⟩
        · exact .inl (by simpa using known)
        · refine .inr ⟨tardy, by simpa using none, out, ?_⟩
          simp [setWorker, ContextPc.finishing]
    | draw pc =>
        refine still (by simp [pc]) ⟨woken.joined (by simp [pc]), by simp [pc]⟩ ?_
        intro out _ _
        simpa [setWorker] using out
    | issue pc | complete pc | leave pc =>
        refine still (by simp [pc]) ⟨woken.joined (by simp [pc]), by simp [pc]⟩ ?_
        intro _ zero _
        simpa [setWorker] using zero (by rw [pc]; rfl)
    | check pc =>
        refine still (by simp [pc]) ⟨woken.joined (by simp [pc]), by simp [pc]⟩ ?_
        intro _ zero _
        simpa [setWorker] using zero (by rw [pc]; rfl)
    | fetchParam index pc more | fetched index pc all | last pc nobody | setUp pc
    | ping target pc found =>
        refine still (by simp [pc]) ⟨woken.joined (by simp [pc]), by simp [pc]⟩ ?_
        intro _ _ finishing
        simp [setWorker, ContextPc.finishing] at finishing
  · obtain ⟨sig, kept⟩ := move.others same
    rw [kept] at joined beyond
    by_cases fetching : (state.worker ctx).pc = .fetchingTest
    · have apart : contextMe other ≠ contextMe ctx := fun beside =>
        joined (unwoken_beside woken order inTurn.heads fetching same beside)
      rw [kept]
      cases move with
      | fetchTest pc =>
          simp only [Function.update_of_ne apart]
          exact informed.woken other joined beyond
      | _ => simp_all
    · refine still fetching ⟨joined, beyond⟩ ?_
      rw [kept]
      exact fun _ zero => zero

theorem informed_work (informed : state.Informed island request late) (woken : state.WokenOnce)
    (counted : state.Counted) (order : state.InOrder island) (inTurn : state.InTurn)
    (single : state.Single request) (move : WorkMove island state ctx next)
    (inTime : ¬ late → (state.worker ctx).pc = .fetchingTest → 0 < state.testCtrl) :
    next.Informed island request late := by
  refine ⟨?_, woken_work informed woken counted order inTurn single move inTime,
    setUp_work informed order single move, issued_work informed woken move⟩
  rw [move.frame.2.2.2.2.2.2, Entered, move.regs_zero inTurn.heads]
  exact informed.master

end Steps

section Runs

variable {chip : Chip} {island : Island chip} {state next : IslandState (workerCount chip)}
  {ctx : Fin (workerCount chip)} {request : BwRequest} {late : Prop}

theorem informed_reached (reached : Reaches (islandStep island)
      (fun before action => ¬ late → before.FetchesInTime action) (loaded chip [request]) state) :
    state.Informed island request late := by
  refine reached.invariant ⟨fun ran => absurd rfl ran, ?_, ?_, nofun⟩ ?_
  · intro ctx joined
    exact absurd rfl joined
  · rintro ctx (looping | finishing) <;> contradiction
  · intro before action after earlier informed inTime moved
    have run := earlier.reachable
    have woken := wokenOnce_single run
    have order := inOrder_single run
    have inTurn := inTurn_reached run
    have single := single_reachable run
    rcases islandStep_moves moved with ⟨_, move⟩ | ⟨_, move⟩ | ⟨ctx, action, move⟩
    · cases move <;> exact ⟨informed.master, informed.woken, informed.setUp, informed.issued⟩
    · exact informed_main informed woken order inTurn.turns single move
    · refine informed_work informed woken (counted_single run) order inTurn single move ?_
      intro punctual pc
      rcases action with rfl | rfl
      · exact inTime punctual pc
      · simp [islandStep, pc] at moved

theorem informed_late (reached : IslandReachable island [request] state) :
    state.Informed island request True :=
  informed_reached (reached.admitted fun _ _ _ _ _ punctual => absurd trivial punctual)

theorem runsRequested_inTime (reached : Reaches (islandStep island) IslandState.FetchesInTime
      (loaded chip [request]) state) : state.RunsRequested island request := by
  have informed : state.Informed island request False :=
    informed_reached (reached.weaken fun _ _ inTime _ => inTime)
  intro issue enqueued
  rcases informed.issued issue enqueued with faithful | ⟨never, _⟩
  · exact faithful
  · exact never.elim

theorem runsRequested_other (other : request.test ≠ .bwDmaRd)
    (reached : IslandReachable island [request] state) : state.RunsRequested island request := by
  intro issue enqueued
  rcases (informed_late reached).issued issue enqueued with faithful | ⟨_, zero, write, cmd⟩
  · exact faithful
  · refine ⟨cmd, ?_⟩
    rw [write, zero]
    simp [bwRead, other]

end Runs

section Late

variable {chip : Chip} {island : Island chip} {state next : IslandState (workerCount chip)}
  {ctx : Fin (workerCount chip)} {request : BwRequest}

/-- An ME that has taken a published result for the test can go on to enqueue a write. -/
theorem exists_lateWrite (reached : IslandReachable island [request] state)
    (fetching : (state.worker ctx).pc = .fetchingTest) (tardy : state.testCtrl ≤ 0)
    (moved : islandStep island state (.work ctx) = some next) :
    ∃ last, Reachable (islandStep island) next last ∧
      ∃ issue ∈ last.issued, issue.ticket = 0 ∧ issue.read = false := by
  obtain ⟨exhausted, none⟩ : state.numDmaTrans = 0 ∧ state.testCtrl = 0 := by
    refine (counted_single reached).published ?_ tardy
    intro unarmed
    have fresh := (wokenOnce_single reached).unsent (inOrder_single reached) (.inl unarmed) ctx
    rw [fresh] at fetching
    contradiction
  simp only [islandStep, workStep, fetching, none, Option.some.injEq] at moved
  have pc : (next.worker ctx).pc = .fetchingParams 0 := by
    rw [← moved]
    simp
  have test : (next.regs (contextMe ctx)).testNo = 0 := by
    rw [← moved]
    simp only [Function.update_self]
    rfl
  have count : next.numDmaTrans = 0 := by
    rw [← moved]
    exact exhausted
  obtain ⟨words, fetches⟩ := exists_fetched island pc
  let fetched : IslandState (workerCount chip) := {
    next.setWorker ctx { next.worker ctx with pc := .pinging, params := words } with
    regs := Function.update next.regs (contextMe ctx)
      { next.regs (contextMe ctx) with args := TestParams.ofWords words } }
  obtain ⟨passed, pings, facts⟩ := exists_passOn island
    (show (fetched.worker ctx).pc = .pinging by simp [fetched])
  have settingUp : (passed.worker ctx).pc = .settingUp := by rw [facts.here]
  obtain ⟨ready, setUp, looping, regs, tickets⟩ : ∃ ready, Reachable (islandStep island) passed ready ∧
      (ready.worker ctx).pc = .looping ∧ ready.regs = passed.regs ∧
        ready.numDmaTrans = passed.numDmaTrans :=
    ⟨_, exists_setUp island settingUp, by simp, rfl, rfl⟩
  obtain ⟨last, issues, _, _, _, _, _, _, _, issued⟩ := exists_issue island looping
  have zero : ready.numDmaTrans = 0 := by
    rw [tickets, facts.numDmaTrans]
    exact count
  have unknown : (ready.regs (contextMe ctx)).testNo = 0 := by
    rw [regs, facts.regs]
    simpa [fetched] using test
  refine ⟨last, ((fetches.trans pings).trans setUp).trans issues, ?_⟩
  rw [issued, zero, unknown]
  exact ⟨_, List.mem_append_right _ (List.mem_singleton_self _), rfl, rfl⟩

/-- The first eight contexts of a run: one draws all the tickets and the result is published
before the start ping reaches the next ME. -/
theorem exists_lateFetch (island : Island chip) (accepted : request.accepted)
    (returns : island.setUpReturns 0 request.params = true) :
    ∃ state ctx, IslandReachable island [request] state ∧
      (state.worker ctx).pc = .fetchingTest ∧ state.testCtrl = 0 := by
  obtain ⟨started, starts, begun, _, first⟩ := exists_firstPing island accepted returns []
  obtain ⟨woken, wakes, relayed, fresh⟩ := exists_freshRelay island
    (show started.FreshFrom (contextNumber (context0 chip)) from first)
  rw [context0_number] at fresh
  obtain ⟨ready, setUp, looping, count, main, armed, others⟩ : ∃ ready,
      Reachable (islandStep island) woken ready ∧
      (ready.worker (context0 chip)).pc = .looping ∧ ready.numDmaTrans = woken.numDmaTrans ∧
      ready.main = woken.main ∧ ready.armed = woken.armed ∧
      ∀ other, other ≠ context0 chip → ready.worker other = woken.worker other :=
    ⟨_, exists_setUp island relayed.here.1, by simp, rfl, rfl, rfl, fun other apart => by
      simp [setWorker, apart]⟩
  have tickets : 1 ≤ ready.numDmaTrans := by
    rw [count, relayed.numDmaTrans, begun.numDmaTrans]
    exact Nat.one_le_of_lt (several_tickets _)
  obtain ⟨drained, drains, only, _, leaving, one⟩ := exists_drained island looping tickets
  obtain ⟨published, publishes, ctrl, _, _, _, armed', _, _, _, _, others'⟩ :=
    exists_published island leaving one
      (only.main.trans (main.trans (relayed.main.trans begun.main)))
  have fresh' : published.FreshFrom 2 := by
    intro ctx beyond
    have apart : ctx ≠ context0 chip := by
      rintro rfl
      simp at beyond
    have run' : published.run = woken.run :=
      congrArg List.length (armed'.trans (only.armed.trans armed))
    rw [others' ctx apart, only.others ctx apart, others ctx apart, fresh ctx beyond, run']
  have several : 8 ≤ workerCount chip := by cases chip <;> decide
  obtain ⟨relayedAll, relays, facts⟩ := exists_relays island fresh' (by decide)
    (show 2 ≤ 8 by decide) (by omega)
  let ctx : Fin (workerCount chip) := ⟨7, by omega⟩
  obtain ⟨waiting, signalled⟩ :=
    (show relayedAll.FreshFrom (contextNumber ctx) from facts.fresh).pinged
  obtain ⟨next, joined, _, same, fetching⟩ := exists_joined island waiting signalled
  have head : contextNumber ctx % 8 = 0 := by simp [contextNumber, ctx]
  rw [if_pos head] at fetching
  refine ⟨next, ctx, ?_, fetching, ?_⟩
  · exact (((((starts.trans wakes).trans setUp).trans drains).trans publishes).trans
      relays).trans (Reachable.one _ joined)
  · rw [same, facts.testCtrl, ctrl]

theorem not_requested (rd : request.test = .bwDmaRd) {issue : BwIssue}
    (enqueued : issue ∈ state.issued) (write : issue.read = false) :
    ¬ state.RunsRequested island request := by
  intro requested
  have read := (requested issue enqueued).read
  rw [write, rd] at read
  contradiction

theorem exists_wrongDirection (island : Island chip) (rd : request.test = .bwDmaRd)
    (accepted : request.accepted) (returns : island.setUpReturns 0 request.params = true) :
    ∃ state, IslandReachable island [request] state ∧
      (∃ issue ∈ state.issued, issue.read = false) ∧
      ¬ state.RunsRequested island request := by
  obtain ⟨state, ctx, reached, fetching, none⟩ := exists_lateFetch island accepted returns
  cases moved : islandStep island state (.work ctx) with
  | none => simp [islandStep, workStep, fetching] at moved
  | some next =>
      obtain ⟨last, later, issue, enqueued, _, write⟩ :=
        exists_lateWrite reached fetching none.le moved
      refine ⟨last, (reached.trans (Reachable.one _ moved)).trans later,
        ⟨issue, enqueued, write⟩, ?_⟩
      exact not_requested rd enqueued write

end Late

section Runs

variable {chip : Chip}

/-- Every DMA of a single run has the size and the offset that were asked for. Its direction is
the right one in every run of every test but reads, and in a run of reads as long as every ME
takes the test from `test_ctrl` before the result stands there. -/
theorem bwRun_requestedTest (island : Island chip) (request : BwRequest) :
    ((∀ state, IslandReachable island [request] state → state.RunsRequested island request) ↔
      request.test ≠ .bwDmaRd ∨ ¬ request.accepted ∨
        island.setUpReturns 0 request.params = false) ∧
    (∀ state, Reaches (islandStep island) IslandState.FetchesInTime (loaded chip [request]) state →
      state.RunsRequested island request) ∧
    (request.test = .bwDmaRd → ∀ state action next, IslandReachable island [request] state →
      islandStep island state action = some next → ¬ state.FetchesInTime action →
      ∃ last, Reachable (islandStep island) next last ∧
        ¬ last.RunsRequested island request) ∧
    ∀ state, IslandReachable island [request] state → ∀ issue ∈ state.issued,
      issue.cmd = bwSetup island issue.context request.params := by
  refine ⟨⟨?_, ?_⟩, fun _ => runsRequested_inTime, ?_, ?_⟩
  · intro requested
    by_contra reads
    push Not at reads
    obtain ⟨rd, accepted, returns⟩ := reads
    obtain ⟨state, reached, _, wrong⟩ := exists_wrongDirection island rd accepted
      (Bool.eq_true_of_not_eq_false returns)
    exact wrong (requested state reached)
  · rintro (other | unstarted) state reached
    · exact runsRequested_other other reached
    · have starts := startsAccepted_single reached
      intro issue enqueued
      rw [starts.quiet (starts.unarmed unstarted)] at enqueued
      contradiction
  · intro rd state action next reached moved late
    cases action with
    | work ctx =>
        obtain ⟨fetching, tardy⟩ := Classical.not_imp.mp late
        obtain ⟨last, later, issue, enqueued, _, write⟩ :=
          exists_lateWrite reached fetching (Int.not_lt.mp tardy) moved
        exact ⟨last, later, not_requested rd enqueued write⟩
    | host | main | complete ctx => exact absurd trivial late
  · intro state reached issue enqueued
    rcases (informed_late reached).issued issue enqueued with faithful | ⟨_, _, _, cmd⟩
    · exact faithful.cmd
    · exact cmd

/-- In a test that reads 64 bytes at a time the eighth context writes to host memory. -/
theorem bwRun_requestedTest_write :
    ∃ state, IslandReachable (plainIsland .nfp6000) [shortReads] state ∧
      (∃ issue ∈ state.issued, issue.read = false) ∧
      ¬ state.RunsRequested (plainIsland .nfp6000) shortReads :=
  exists_wrongDirection (plainIsland .nfp6000) rfl (rfl : shortReads.accepted) rfl

end Runs

end Pciebench
