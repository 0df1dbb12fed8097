import Mathlib
import Pciebench.IslandRuns
import Pciebench.SingleRun

/-!
Bandwidth tests one after the other on the same firmware. Tickets and start pings stay within
their runs as long as every step is in good order. A step out of order leads to a run in which
one of them crosses over: a context that joined the earlier run draws, or consumes a ping, in
the next one.
-/

namespace Pciebench

open Machine WordCopy IslandState

section Strays

/-- How many steps a context is away from its next draw. -/
def ContextPc.untilDraw : ContextPc → Nat
  | fetchingTest => paramWordCount + 4
  | fetchingParams index => paramWordCount - index + 3
  | pinging => 2
  | settingUp => 1
  | drawn => 3
  | inFlight => 2
  | completed => 1
  | _ => 0

def ContextPc.untilWaiting : ContextPc → Nat
  | drawn => 4
  | inFlight => 3
  | completed => 2
  | left => 1
  | _ => 0

namespace BwContext

/-- The context joined another run and will draw again without being pinged. -/
structure Straying (run : Nat) (here : BwContext) : Prop where
  joined : here.joined ≠ run
  draws : here.pc.preparing = true ∨ here.pc = .looping ∨
    (here.pc.finishing = true ∧ here.pc ≠ .left ∧ 2 ≤ here.trans)

/-- The context will only wait, and then find a ping of another run. -/
structure Delayed (run : Nat) (here : BwContext) : Prop where
  sig : ∃ ping ∈ here.startSig, ping ≠ run
  free : here.Free

end BwContext

variable {chip : Chip} {island : Island chip} {state next : IslandState (workerCount chip)}
  {ctx : Fin (workerCount chip)}

theorem straying_step (stray : (state.worker ctx).Straying state.run)
    (later : (state.worker ctx).pc ≠ .looping) (move : WorkMove island state ctx next) :
    (next.worker ctx).Straying next.run ∧
      (next.worker ctx).pc.untilDraw < (state.worker ctx).pc.untilDraw := by
  obtain ⟨joined, draws⟩ := stray
  obtain ⟨_, _, _, _, _, _, armed⟩ := move.frame
  have run : next.run = state.run := congrArg List.length armed
  rw [run]
  cases move with
  | join pc signalled =>
      rw [pc] at draws
      rcases draws with preparing | looping | ⟨finishing, _⟩ <;> contradiction
  | fetchTest pc =>
      simp only [setWorker, Function.update_self, pc]
      exact ⟨⟨joined, .inl rfl⟩, by simp [ContextPc.untilDraw]⟩
  | fetchParam index pc more =>
      simp only [setWorker, Function.update_self, pc]
      refine ⟨⟨joined, .inl rfl⟩, ?_⟩
      simp only [ContextPc.untilDraw]
      omega
  | fetched index pc all =>
      simp only [setWorker, Function.update_self, pc]
      refine ⟨⟨joined, .inl rfl⟩, ?_⟩
      simp only [ContextPc.untilDraw]
      omega
  | ping target pc found =>
      have apart : contextNumber ctx ≠ target := by
        rw [pingTarget_next island (contextNumber_le ctx).1 found]
        omega
      simp only [sendPing, setWorker, Function.update_self, apart, if_false, pc]
      exact ⟨⟨joined, .inl rfl⟩, by decide⟩
  | last pc nobody =>
      simp only [setWorker, Function.update_self, pc]
      exact ⟨⟨joined, .inl rfl⟩, by decide⟩
  | setUp pc =>
      simp only [setWorker, Function.update_self, pc]
      exact ⟨⟨joined, .inr (.inl rfl)⟩, by decide⟩
  | draw pc => exact absurd pc later
  | issue pc =>
      rcases draws with preparing | looping | ⟨_, _, several⟩
      · rw [pc] at preparing
        contradiction
      · exact absurd looping later
      · simp only [setWorker, Function.update_self, pc]
        exact ⟨⟨joined, .inr (.inr ⟨rfl, by simp, several⟩)⟩, by decide⟩
  | complete pc =>
      rcases draws with preparing | looping | ⟨_, _, several⟩
      · rw [pc] at preparing
        contradiction
      · exact absurd looping later
      · simp only [setWorker, Function.update_self, pc]
        exact ⟨⟨joined, .inr (.inr ⟨rfl, by simp, several⟩)⟩, by decide⟩
  | check pc =>
      rcases draws with preparing | looping | ⟨_, _, several⟩
      · rw [pc] at preparing
        contradiction
      · exact absurd looping later
      · have again : ¬ (state.worker ctx).trans ≤ 1 := by omega
        simp only [setWorker, Function.update_self, pc]
        simp only [again, if_false]
        exact ⟨⟨joined, .inr (.inl rfl)⟩, by decide⟩
  | leave pc =>
      rw [pc] at draws
      rcases draws with preparing | looping | ⟨_, staying, _⟩
      · contradiction
      · contradiction
      · exact absurd rfl staying

theorem exists_strayDraw (island : Island chip)
    (stray : (state.worker ctx).Straying state.run) :
    ∃ last, Reachable (islandStep island) state last ∧
      ∃ draw ∈ last.draws, draw.joined ≠ draw.run := by
  induction steps : (state.worker ctx).pc.untilDraw using Nat.strong_induction_on
    generalizing state with
  | _ steps ih =>
      by_cases looping : (state.worker ctx).pc = .looping
      · obtain ⟨last, reached, _, _, _, _, _, _, draws, _⟩ :=
          exists_issue island looping
        refine ⟨last, reached, ⟨state.run, state.numDmaTrans, (state.worker ctx).joined,
          contextNumber ctx, (state.worker ctx).cmd⟩, ?_, stray.joined⟩
        rw [draws]
        exact List.mem_append_right _ (List.mem_singleton_self _)
      · have busy : (state.worker ctx).pc ≠ .waiting := by
          intro waiting
          have draws := stray.draws
          rw [waiting] at draws
          rcases draws with preparing | looping | ⟨finishing, _⟩ <;> contradiction
        obtain ⟨action, next, moved, move⟩ := exists_workMove island busy
        obtain ⟨stray', fewer⟩ := straying_step stray looping move
        obtain ⟨last, reached, found⟩ := ih _ (steps ▸ fewer) stray' rfl
        exact ⟨last, (Reachable.one action moved).trans reached, found⟩

theorem delayed_step (delayed : (state.worker ctx).Delayed state.run)
    (later : (state.worker ctx).pc ≠ .waiting) (move : WorkMove island state ctx next) :
    (next.worker ctx).Delayed next.run ∧
      (next.worker ctx).pc.untilWaiting < (state.worker ctx).pc.untilWaiting := by
  obtain ⟨sig, free⟩ := delayed
  obtain ⟨finishing, final⟩ := free.resolve_left later
  obtain ⟨_, _, _, _, _, _, armed⟩ := move.frame
  have run : next.run = state.run := congrArg List.length armed
  rw [run]
  cases move with
  | join pc signalled => exact absurd pc later
  | issue pc =>
      simp only [setWorker, Function.update_self, pc]
      exact ⟨⟨sig, .inr ⟨rfl, final⟩⟩, by decide⟩
  | complete pc =>
      simp only [setWorker, Function.update_self, pc]
      exact ⟨⟨sig, .inr ⟨rfl, final⟩⟩, by decide⟩
  | check pc =>
      simp only [setWorker, Function.update_self, pc, final, if_true]
      exact ⟨⟨sig, .inr ⟨rfl, final⟩⟩, by decide⟩
  | leave pc =>
      simp only [setWorker, Function.update_self, pc]
      exact ⟨⟨sig, .inl rfl⟩, by decide⟩
  | fetchTest pc | fetchParam index pc more | fetched index pc all | ping target pc found
  | last pc nobody | setUp pc | draw pc =>
      rw [pc] at finishing
      contradiction

theorem exists_delayedJoin (island : Island chip)
    (delayed : (state.worker ctx).Delayed state.run) :
    ∃ last, Reachable (islandStep island) state last ∧
      ∃ join ∈ last.joins, ∃ ping ∈ join.pings, ping ≠ join.run := by
  induction steps : (state.worker ctx).pc.untilWaiting using Nat.strong_induction_on
    generalizing state with
  | _ steps ih =>
      by_cases waiting : (state.worker ctx).pc = .waiting
      · have signalled : (state.worker ctx).startSig ≠ [] := by
          obtain ⟨ping, member, _⟩ := delayed.sig
          exact List.ne_nil_of_mem member
        obtain ⟨last, joined, joins, _⟩ := exists_joined island waiting signalled
        refine ⟨last, Reachable.one _ joined, ⟨(state.worker ctx).startSig, state.run⟩, ?_,
          delayed.sig⟩
        rw [joins]
        exact List.mem_append_right _ (List.mem_singleton_self _)
      · obtain ⟨action, next, moved, move⟩ := exists_workMove island waiting
        obtain ⟨delayed', fewer⟩ := delayed_step delayed waiting move
        obtain ⟨last, reached, found⟩ := ih _ (steps ▸ fewer) delayed' rfl
        exact ⟨last, (Reachable.one action moved).trans reached, found⟩

/-- A stray or a delayed context can take its ticket or its ping into another run. -/
theorem exists_crossing (island : Island chip) (ctx : Fin (workerCount chip))
    (astray : (state.worker ctx).Straying state.run ∨
      (state.worker ctx).Delayed state.run) :
    ∃ last, Reachable (islandStep island) state last ∧ ¬ last.KeepsRuns island := by
  rcases astray with stray | delayed
  · obtain ⟨last, reached, draw, drawn, apart⟩ := exists_strayDraw island stray
    exact ⟨last, reached, fun keeps => apart (keeps.draws draw drawn).1⟩
  · obtain ⟨last, reached, join, joined, ping, member, apart⟩ :=
      exists_delayedJoin island delayed
    refine ⟨last, reached, fun keeps => apart ?_⟩
    rw [keeps.joins join joined] at member
    exact List.mem_singleton.mp member

end Strays

section Disorder

variable {chip : Chip} {island : Island chip} {state next : IslandState (workerCount chip)}
  {ctx : Fin (workerCount chip)}

/-- A context only leaves the loop with its last ticket. -/
def IslandState.LeavesLast {workers : Nat} (state : IslandState workers) : Prop :=
  ∀ ctx, (state.worker ctx).pc = .left → (state.worker ctx).trans ≤ 1

theorem leavesLast_reachable {requests : List BwRequest}
    (reached : IslandReachable island requests state) : state.LeavesLast := by
  refine reached.invariant nofun ?_
  intro before action after _ lasts _ moved other left
  rcases islandStep_moves moved with ⟨_, move⟩ | ⟨_, move⟩ | ⟨ctx, _, move⟩
  · cases move <;> exact lasts other left
  · obtain ⟨sig, kept⟩ := move.contexts other
    rw [kept] at left ⊢
    exact lasts other left
  · by_cases same : other = ctx
    · subst same
      cases move with
      | check pc =>
          simp only [setWorker, Function.update_self] at left ⊢
          split at left
          · assumption
          · contradiction
      | join pc signalled =>
          simp only [setWorker, Function.update_self] at left
          split at left <;> contradiction
      | _ => simp [setWorker] at left
    · obtain ⟨sig, kept⟩ := move.others same
      rw [kept] at left ⊢
      exact lasts other left

theorem straying_prepared (order : state.InOrder island) (lasts : state.LeavesLast)
    (prepared : (state.worker ctx).Prepared) (busy : ¬ (state.worker ctx).Idle) {run : Nat}
    (later : state.run ≠ run) : (state.worker ctx).Straying run := by
  obtain ⟨front, chained⟩ := order.chain
  obtain ⟨sig, preparing⟩ := prepared
  have bound : ¬ (state.worker ctx).Free := fun free => busy ⟨sig, free⟩
  have below : contextNumber ctx < front := by
    rcases lt_trichotomy (contextNumber ctx) front with below | at' | above
    · exact below
    · rcases chained.atFront ctx at' with pending | holds
      · exact absurd pending.free bound
      · have holding := holds.holding
        cases pc : (state.worker ctx).pc <;> simp [pc, ContextPc.holding, ContextPc.preparing]
          at holding preparing
    · exact absurd (chained.ahead ctx above).2 bound
  refine ⟨?_, ?_⟩
  · rw [(chained.passed ctx below).joined]
    exact later
  · by_cases looping : (state.worker ctx).pc = .looping
    · exact .inr (.inl looping)
    · have finishing : (state.worker ctx).pc.finishing = true := by
        cases pc : (state.worker ctx).pc <;> simp [pc, BwContext.Free, ContextPc.preparing,
          ContextPc.finishing] at bound preparing looping ⊢
      have several : ¬ (state.worker ctx).trans ≤ 1 := fun final =>
        bound (.inr ⟨finishing, final⟩)
      refine .inr (.inr ⟨finishing, ?_, by omega⟩)
      exact fun left => several (lasts ctx left)

/-- A context that is not prepared goes astray when the next run begins before it is. -/
theorem astray_unprepared (order : state.InOrder island)
    (unprepared : ¬ (state.worker ctx).Prepared) (run : Nat) (later : state.run ≠ run)
    (more : List Nat) :
    BwContext.Straying run { state.worker ctx with startSig := (state.worker ctx).startSig ++ more }
      ∨ BwContext.Delayed run
        { state.worker ctx with startSig := (state.worker ctx).startSig ++ more } := by
  obtain ⟨front, chained⟩ := order.chain
  by_cases signalled : (state.worker ctx).startSig = []
  · have preparing : (state.worker ctx).pc.preparing = true := by
      by_contra none
      exact unprepared ⟨signalled, Bool.eq_false_iff.mpr none⟩
    refine .inl ⟨?_, .inl preparing⟩
    by_cases holding : (state.worker ctx).pc.holding = true
    · simpa only [(chained.holder holding).2.joined] using later
    · have settingUp : (state.worker ctx).pc = .settingUp := by
        cases pc : (state.worker ctx).pc <;> simp [pc, ContextPc.holding, ContextPc.preparing]
          at holding preparing ⊢
      simpa only [(chained.passed ctx (chained.drawer (.inl settingUp))).joined] using later
  · obtain ⟨_, pending⟩ := chained.signalled signalled
    refine .inr ⟨⟨state.run, ?_, later⟩, pending.free⟩
    rw [pending.sig]
    exact List.mem_append_left _ (List.mem_singleton_self _)

theorem crossing_arm (order : state.InOrder island) (lasts : state.LeavesLast)
    (turns : state.TakesTurns) (main : state.main = .arming)
    (busy : ¬ ∀ ctx, (state.worker ctx).Idle) (moved : islandStep island state .main = some next) :
    ∃ last, Reachable (islandStep island) next last ∧ ¬ last.KeepsRuns island := by
  obtain ⟨ctx, busy⟩ := not_forall.mp busy
  have prepared := order.begun (.inr (.inr (.inr (.inr main)))) ctx
  obtain ⟨request, host, _⟩ := takesTurns_busy turns (by simp [main])
  refine exists_crossing island ctx (.inl ?_)
  simp only [islandStep, mainStep, main, Option.ite_none_right_eq_some, Option.some.injEq] at moved
  obtain ⟨_, rfl⟩ := moved
  refine straying_prepared order lasts prepared busy ?_
  simp [IslandState.run, host, BwHostPc.current]

theorem crossing_begin (order : state.InOrder island) (inTurn : state.InTurn)
    (accepted : ∀ request ∈ state.todo, request.accepted)
    (returns : island.SetUpsReturn state.todo) (host : state.host = .idle)
    (unprepared : ¬ ∀ ctx, (state.worker ctx).Prepared)
    (moved : islandStep island state .host = some next) :
    ∃ last, Reachable (islandStep island) next last ∧ ¬ last.KeepsRuns island := by
  obtain ⟨ctx, unprepared⟩ := not_forall.mp unprepared
  have inTurn' := inTurn_step inTurn moved
  cases hostStep_moves moved with
  | begin request rest idle todo =>
      have asked : request ∈ state.todo := by
        rw [todo]
        exact List.mem_cons_self
      have passes := accepted request asked
      obtain ⟨started, reached, facts⟩ := exists_written island inTurn'
        (rfl : _ = BwHostPc.settingParams request 1) passes (returns request asked passes _)
      have run : started.run = state.run + 1 := by simp [IslandState.run, facts.armed]
      have astray := astray_unprepared order unprepared started.run (by omega)
      have here : (started.worker ctx).Straying started.run ∨
          (started.worker ctx).Delayed started.run := by
        rw [facts.worker]
        simp only [sendPing]
        split
        · exact astray _
        · simpa using astray []
      obtain ⟨last, later, broken⟩ := exists_crossing island ctx here
      exact ⟨last, reached.trans later, broken⟩
  | setParam request index writing more | setCtrl request index writing all
  | finish request writing settled =>
      rw [host] at writing
      contradiction

end Disorder

section Straggler

variable {chip : Chip} {first second : BwRequest}

structure TwoUp (request : BwRequest) (rest : List BwRequest)
    (state : IslandState (workerCount chip)) : Prop where
  host : state.host = .polling request
  todo : state.todo = rest
  main : state.main = .waiting
  armed : state.armed = [request]
  numDmaTrans : state.numDmaTrans = bwMaxTrans request.params.p0
  args : (state.regs 0).args = request.params
  here : (state.worker (context0 chip)).pc = .settingUp
  there : (state.worker (context1 chip)).pc = .settingUp
  joined : (state.worker (context1 chip)).joined = 1

theorem exists_twoUp (island : Island chip) (accepted : first.accepted)
    (returns : island.setUpReturns 0 first.params = true) (rest : List BwRequest) :
    ∃ state, IslandReachable island (first :: rest) state ∧ TwoUp first rest state := by
  obtain ⟨started, starts, facts, run, fresh⟩ := exists_firstPing island accepted returns rest
  obtain ⟨woken, wakes, relayed, fresh'⟩ := exists_freshRelay island
    (show started.FreshFrom (contextNumber (context0 chip)) from fresh)
  have again : woken.run = 1 := by
    rw [IslandState.run, relayed.armed]
    exact run
  obtain ⟨both, wakes', relayed', _⟩ := exists_freshRelay island
    (show woken.FreshFrom (contextNumber (context1 chip)) from fresh')
  refine ⟨both, (starts.trans wakes).trans wakes', ?_, ?_, ?_, ?_, ?_, ?_, ?_, relayed'.here.1,
    relayed'.here.2.2.trans again⟩
  · rw [relayed'.host, relayed.host, facts.host]
  · rw [relayed'.todo, relayed.todo, facts.todo]
  · rw [relayed'.main, relayed.main, facts.main]
  · rw [relayed'.armed, relayed.armed, facts.armed]
    rfl
  · rw [relayed'.numDmaTrans, relayed.numDmaTrans, facts.numDmaTrans]
  · rw [relayed'.regs 0 (.inl (by simp)), relayed.regs 0 (.inl (by simp)), facts.regs]
  · rw [relayed'.others (context0 chip) context0_ne (by simp)]
    exact relayed.here.1

structure Straggler (island : Island chip) (first second : BwRequest)
    (state : IslandState (workerCount chip)) : Prop where
  host : state.host = .idle
  todo : state.todo = [second]
  armed : state.armed = [first]
  flying : (state.worker (context1 chip)).pc = .inFlight
  trans : 2 ≤ (state.worker (context1 chip)).trans
  joined : (state.worker (context1 chip)).joined = 1
  cmd : (state.worker (context1 chip)).cmd = bwSetup island 2 first.params

theorem exists_straggler (island : Island chip) (second : BwRequest) (accepted : first.accepted)
    (returns : island.setUpReturns 0 first.params = true) :
    ∃ state, IslandReachable island [first, second] state ∧
      Straggler island first second state := by
  obtain ⟨up, reached, facts⟩ := exists_twoUp island accepted returns [second]
  have tickets := several_tickets first.params.p0
  -- context 2 sets up and draws the first ticket
  let ready := up.setWorker (context1 chip) {
    up.worker (context1 chip) with
    pc := .looping
    cmd := bwSetup island 2 (up.regs 0).args }
  have setUp : Reachable (islandStep island) up ready := by
    simpa only [context1_number, context1_me] using exists_setUp island facts.there
  obtain ⟨flying, draws, only, counter, inFlight, trans, cmd, joined, _⟩ :=
    exists_issue island
      (show (ready.worker (context1 chip)).pc = .looping by simp [ready])
  -- context 1 draws all the others and the master publishes
  have here : (flying.worker (context0 chip)).pc = .settingUp := by
    rw [only.others (context0 chip) context0_ne]
    simp [ready, setWorker, context0_ne, facts.here]
  let ready' := flying.setWorker (context0 chip) {
    flying.worker (context0 chip) with
    pc := .looping
    cmd := bwSetup island 1 (flying.regs 0).args }
  have setUp' : Reachable (islandStep island) flying ready' := by
    simpa only [context0_number, context0_me] using exists_setUp island here
  have more : 1 ≤ ready'.numDmaTrans := by
    have rest : ready'.numDmaTrans = up.numDmaTrans - 1 := counter
    have whole := facts.numDmaTrans
    omega
  obtain ⟨drained, drains, only', _, leaving, one⟩ :=
    exists_drained island
      (show (ready'.worker (context0 chip)).pc = .looping by simp [ready']) more
  have waiting : drained.main = .waiting := by
    rw [only'.main]
    exact only.main.trans facts.main
  obtain ⟨published, publishes, ctrl, host, todo, _, armed, _, _, _, _, others⟩ :=
    exists_published island leaving one waiting
  have polling : published.host = .polling first := by
    rw [host, only'.host]
    exact only.host.trans facts.host
  have finishes : islandStep island published .host = some { published with host := .idle } := by
    simp only [islandStep, hostStep, polling, ctrl, le_refl, if_true]
  have worker : published.worker (context1 chip) = flying.worker (context1 chip) := by
    rw [others (context1 chip) context0_ne.symm, only'.others (context1 chip) context0_ne.symm]
    simp [ready', setWorker, context0_ne.symm]
  refine ⟨{ published with host := .idle }, ?_, rfl, ?_, ?_, ?_, ?_, ?_, ?_⟩
  · exact ((((((reached.trans setUp).trans draws).trans setUp').trans drains).trans
      publishes).trans (Reachable.one _ finishes))
  · exact todo.trans (only'.todo.trans (only.todo.trans facts.todo))
  · exact armed.trans (only'.armed.trans (only.armed.trans facts.armed))
  · rw [worker]
    exact inFlight
  · rw [worker, trans]
    exact facts.numDmaTrans ▸ tickets
  · rw [worker, joined]
    simpa [ready] using facts.joined
  · rw [worker, cmd]
    simp [ready, facts.args]

theorem exists_mixed (island : Island chip) (accepted : first.accepted)
    (accepted' : second.accepted) (returns : island.SetUpsReturn [first, second]) :
    ∃ state, IslandReachable island [first, second] state ∧
      ⟨2, bwMaxTrans second.params.p0, 1, 2, bwSetup island 2 first.params⟩ ∈ state.draws := by
  have returns₁ := returns first List.mem_cons_self accepted 0
  have returns₂ := returns second (List.mem_cons_of_mem _ List.mem_cons_self) accepted'
  obtain ⟨straggling, reached, facts⟩ := exists_straggler island second accepted returns₁
  obtain ⟨started, starts, facts'⟩ := exists_started island (inTurn_reached reached)
    facts.host facts.todo accepted' (returns₂ _)
  have worker : started.worker (context1 chip) = straggling.worker (context1 chip) := by
    rw [facts'.worker]
    simp [sendPing, contextNumber, context1]
  obtain ⟨checked, checks, only, counter, _, pc, _, cmd, joined⟩ :=
    exists_check island (worker ▸ facts.flying)
  have again : ¬ (started.worker (context1 chip)).trans ≤ 1 := by
    have := facts.trans
    rw [worker]
    omega
  rw [if_neg again] at pc
  obtain ⟨last, draws, _, _, _, _, _, _, drawn, _⟩ := exists_issue island pc
  refine ⟨last, ((reached.trans starts).trans checks).trans draws, ?_⟩
  have run : checked.run = 2 := by
    rw [IslandState.run, only.armed, facts'.armed, facts.armed]
    rfl
  rw [drawn, run, counter, facts'.numDmaTrans, joined, worker, facts.joined, cmd, worker, facts.cmd]
  exact List.mem_append_right _ (List.mem_singleton_self _)

end Straggler

section Runs

variable {chip : Chip} {island : Island chip} {requests : List BwRequest}
  {state next : IslandState (workerCount chip)}

/-- In runs that go in good order nothing crosses over from one run to the next; after a step
out of order something can, if the set-ups return. -/
theorem bwRuns_apart (island : Island chip) (requests : List BwRequest) :
    (∀ state, Reaches (islandStep island) IslandState.GoodOrder (loaded chip requests) state →
      state.KeepsRuns island) ∧
    ((∀ request ∈ requests, request.accepted) → island.SetUpsReturn requests →
      ∀ state action next,
      Reaches (islandStep island) IslandState.GoodOrder (loaded chip requests) state →
      islandStep island state action = some next → ¬ state.GoodOrder action →
      ∃ last, Reachable (islandStep island) next last ∧ ¬ last.KeepsRuns island) := by
  refine ⟨fun state reached => (inOrder_reached reached).keeps, ?_⟩
  intro accepted returns state action next reached moved disorder
  have order := inOrder_reached reached
  have inTurn := inTurn_reached reached
  cases action with
  | host =>
      obtain ⟨host, unprepared⟩ := Classical.not_imp.mp disorder
      have asks := (asksOnly_reachable reached.reachable).todo
      exact crossing_begin order inTurn (fun request asked => accepted request (asks request asked))
        (fun request asked => returns request (asks request asked)) host unprepared moved
  | main =>
      obtain ⟨main, busy⟩ := Classical.not_imp.mp disorder
      exact crossing_arm order (leavesLast_reachable reached.reachable) inTurn.turns main busy moved
  | work ctx | complete ctx => exact absurd trivial disorder

theorem bwRuns_apart_drawn :
    ∃ state, Reaches (islandStep (plainIsland .nfp6000)) IslandState.GoodOrder
      (loaded .nfp6000 [shortReads]) state ∧ state.draws ≠ [] ∧
      state.KeepsRuns (plainIsland .nfp6000) := by
  obtain ⟨up, reached, facts⟩ := exists_twoUp (plainIsland .nfp6000)
    (rfl : shortReads.accepted) rfl []
  obtain ⟨ready, setUp, looping⟩ : ∃ ready, Reachable (islandStep (plainIsland .nfp6000)) up ready ∧
      (ready.worker (context0 .nfp6000)).pc = .looping :=
    ⟨_, exists_setUp _ facts.here, by simp⟩
  obtain ⟨state, draws, _, _, _, _, _, _, drawn, _⟩ := exists_issue (plainIsland .nfp6000) looping
  have good := single_goodOrder ((reached.trans setUp).trans draws)
  refine ⟨state, good, ?_, (bwRuns_apart (plainIsland .nfp6000) [shortReads]).1 state good⟩
  rw [drawn]
  exact List.append_ne_nil_of_right_ne_nil _ (List.cons_ne_nil _ _)

/-- In the second of two tests a context reads 64 bytes where the host asked for 128. -/
theorem bwRuns_apart_mixed :
    ∃ state, IslandReachable (plainIsland .nfp6000) [shortReads, longReads] state ∧
      (∃ draw ∈ state.draws, draw.run = 2 ∧ draw.ticket = 8388608 ∧ draw.context = 2 ∧
        draw.cmd = bwSetup (plainIsland .nfp6000) 2 shortReads.params ∧
        draw.cmd ≠ bwSetup (plainIsland .nfp6000) 2 longReads.params) ∧
      ¬ state.KeepsRuns (plainIsland .nfp6000) := by
  obtain ⟨state, reached, drawn⟩ := exists_mixed (plainIsland .nfp6000)
    (rfl : shortReads.accepted) (rfl : longReads.accepted) fun _ _ _ _ => rfl
  refine ⟨state, reached, ⟨_, drawn, rfl, rfl, rfl, rfl, by decide⟩, ?_⟩
  intro keeps
  have joined := (keeps.draws _ drawn).1
  contradiction

end Runs

end Pciebench
