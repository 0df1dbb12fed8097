import Mathlib
import Pciebench.IslandChain

/-!
Runs of the island that exist: a request entered and the chain started, the start ping passed
on by one context, one context drawing the counter down while the others stand still, and the
result published.
-/

namespace Pciebench

open Machine WordCopy IslandState

variable {chip : Chip} {island : Island chip} {state next : IslandState (workerCount chip)}
  {ctx : Fin (workerCount chip)} {request : BwRequest}

theorem inTurn_reachable (inTurn : state.InTurn)
    (reached : Reachable (islandStep island) state next) : next.InTurn := by
  refine reached.invariant inTurn ?_
  intro _ _ _ _ before _ moved
  exact inTurn_step before moved

variable (island)

section Request

theorem exists_setParams (index : Nat) (host : state.host = .settingParams request index)
    (bound : index ≤ paramWordCount) :
    ∃ words, Reachable (islandStep island) state
      { state with testParams := words, host := .settingParams request paramWordCount } := by
  obtain ⟨left, total⟩ : ∃ left, index + left = paramWordCount := ⟨_, Nat.add_sub_cancel' bound⟩
  induction left generalizing state index with
  | zero =>
      have whole : index = paramWordCount := by omega
      subst whole
      refine ⟨state.testParams, ?_⟩
      rw [← host]
      exact Reaches.start
  | succ left ih =>
      have more : index < paramWordCount := by omega
      let written : IslandState (workerCount chip) := {
        state with
        testParams := Function.update state.testParams index (request.params.word index)
        host := .settingParams request (index + 1)
      }
      have writes : islandStep island state .host = some written := by
        simp only [islandStep, hostStep, host, more, if_true]
        rfl
      obtain ⟨words, rest⟩ : ∃ words, Reachable (islandStep island) written
          { written with testParams := words, host := .settingParams request paramWordCount } :=
        ih (index + 1) rfl more (by omega)
      exact ⟨words, (Reachable.one _ writes).trans rest⟩

theorem exists_copyParams (index : Nat) (main : state.main = .copyingParams index)
    (bound : index ≤ paramWordCount) :
    ∃ words, Reachable (islandStep island) state
      { state with mainParams := words, main := .copyingParams paramWordCount } := by
  obtain ⟨left, total⟩ : ∃ left, index + left = paramWordCount := ⟨_, Nat.add_sub_cancel' bound⟩
  induction left generalizing state index with
  | zero =>
      have whole : index = paramWordCount := by omega
      subst whole
      refine ⟨state.mainParams, ?_⟩
      rw [← main]
      exact Reaches.start
  | succ left ih =>
      have more : index < paramWordCount := by omega
      let copied : IslandState (workerCount chip) := {
        state with
        mainParams := Function.update state.mainParams index (state.testParams index)
        main := .copyingParams (index + 1)
      }
      have copies : islandStep island state .main = some copied := by
        simp only [islandStep, mainStep, main, more, if_true]
        rfl
      obtain ⟨words, rest⟩ : ∃ words, Reachable (islandStep island) copied
          { copied with mainParams := words, main := .copyingParams paramWordCount } :=
        ih (index + 1) rfl more (by omega)
      exact ⟨words, (Reachable.one _ copies).trans rest⟩

theorem switchTest_bw (request : BwRequest) :
    HandshakeState.switchTest request.test.ctrl = .passing := by
  obtain ⟨test, params, bw⟩ := request
  cases test <;> simp [bwTests] at bw <;> rfl

/-- A state in which the host waits for the request and the master for its workers; the first
of them has just been pinged. -/
structure StartedFrom (state next : IslandState (workerCount chip)) (request : BwRequest)
    (rest : List BwRequest) : Prop where
  testCtrl : next.testCtrl = request.test.ctrl
  numDmaTrans : next.numDmaTrans = bwMaxTrans request.params.p0
  host : next.host = .polling request
  todo : next.todo = rest
  main : next.main = .waiting
  mainSig : next.mainSig = state.mainSig
  worker : next.worker = (state.sendPing (state.run + 1) ⟨0, 1⟩).worker
  armed : next.armed = state.armed ++ [request]
  draws : next.draws = state.draws
  issued : next.issued = state.issued
  regs : next.regs 0 = ⟨request.test.number, request.params⟩
  pings : next.pings = [⟨0, 1⟩]

theorem exists_written (inTurn : state.InTurn) {index : Nat}
    (host : state.host = .settingParams request index) (accepted : request.accepted)
    (returns : island.setUpReturns state.run request.params = true) :
    ∃ next, Reachable (islandStep island) state next ∧
      StartedFrom state next request state.todo := by
  obtain ⟨resting, bound, _⟩ : state.Resting ∧ index ≤ paramWordCount ∧
      Agree index state.testParams request.params.word := by
    have turns := inTurn.turns
    simpa only [TakesTurns, host] using turns
  obtain ⟨words, writes⟩ : ∃ words, Reachable (islandStep island) state
      { state with testParams := words, host := .settingParams request paramWordCount } :=
    exists_setParams island index host bound
  let asked : IslandState (workerCount chip) :=
    { state with testParams := words, testCtrl := request.test.ctrl, host := .polling request }
  have asks : islandStep island
      { state with testParams := words, host := .settingParams request paramWordCount } .host =
        some asked := by
    simp only [islandStep, hostStep, lt_irrefl, if_false]
    rfl
  have positive : 0 < asked.testCtrl := request.test.ctrl_pos
  have wakes : islandStep island asked .main = some { asked with main := .copyingParams 0 } := by
    have main : asked.main = .polling := resting.2
    simp only [islandStep, mainStep, main, positive, if_true]
  obtain ⟨copy, copies⟩ : ∃ words, Reachable (islandStep island)
      { asked with main := .copyingParams 0 }
      { asked with mainParams := words, main := .copyingParams paramWordCount } :=
    exists_copyParams island 0 rfl (Nat.zero_le _)
  let passing : IslandState (workerCount chip) :=
    { asked with mainParams := copy, main := .passing }
  have passes : islandStep island
      { asked with mainParams := copy, main := .copyingParams paramWordCount } .main =
        some passing := by
    have bw : HandshakeState.switchTest asked.testCtrl = .passing := switchTest_bw request
    simp only [islandStep, mainStep, lt_irrefl, if_false, bw]
    rfl
  have toPassing : Reachable (islandStep island) state passing :=
    (((writes.trans (Reachable.one _ asks)).trans (Reachable.one _ wakes)).trans copies).trans
      (Reachable.one _ passes)
  -- the main loop holds the parameters by now
  have params : TestParams.ofWords copy = request.params := by
    obtain ⟨other, polling, _, _, progress⟩ :=
      takesTurns_busy (inTurn_reachable inTurn toPassing).turns (by simp [passing])
    cases polling
    exact ofWords_params progress
  let armed : IslandState (workerCount chip) := {
    passing with
    regs := Function.update state.regs 0 ⟨request.test.number, request.params⟩
    main := .arming
  }
  have arms : islandStep island passing .main = some armed := by
    have accepted' : request.params.addrArgs.refused = false := accepted
    have ctrl : UInt32.ofInt passing.testCtrl = request.test.number := ofInt_ctrl _
    simp only [islandStep, mainStep, passing, params, accepted', Bool.false_eq_true, if_false]
    simp only [passing] at ctrl
    rw [ctrl]
  let counting : IslandState (workerCount chip) := {
    armed with
    numDmaTrans := bwMaxTrans request.params.p0
    main := .starting
    armed := state.armed ++ [request]
    pings := []
  }
  have counts : islandStep island armed .main = some counting := by
    have arming : armed.main = .arming := rfl
    have entered : armed.regs 0 = ⟨request.test.number, request.params⟩ := by
      simp only [armed, Function.update_self]
    have returned : island.setUpReturns armed.run (armed.regs 0).args = true := by
      rw [entered]
      exact returns
    simp only [islandStep, mainStep, arming, returned, if_true]
    simp only [entered]
    rfl
  let started : IslandState (workerCount chip) :=
    { counting.sendPing counting.run ⟨0, 1⟩ with main := .waiting }
  have starts : islandStep island counting .main = some started := rfl
  refine ⟨started, ((toPassing.trans (Reachable.one _ arms)).trans (Reachable.one _ counts)).trans
    (Reachable.one _ starts), ?_⟩
  have run : counting.run = state.run + 1 := by simp [counting, IslandState.run]
  have worker : started.worker = (state.sendPing (state.run + 1) ⟨0, 1⟩).worker := by
    rw [← run]
    rfl
  exact ⟨rfl, rfl, rfl, rfl, rfl, rfl, worker, rfl, rfl, rfl, rfl, rfl⟩

theorem exists_started (inTurn : state.InTurn) {rest : List BwRequest} (host : state.host = .idle)
    (todo : state.todo = request :: rest) (accepted : request.accepted)
    (returns : island.setUpReturns state.run request.params = true) :
    ∃ next, Reachable (islandStep island) state next ∧ StartedFrom state next request rest := by
  let begun : IslandState (workerCount chip) := {
    state with
    testParams := Function.update state.testParams 0 (request.params.word 0)
    host := .settingParams request 1
    todo := rest
  }
  have begins : islandStep island state .host = some begun := by
    simp only [islandStep, hostStep, host, todo]
    rfl
  obtain ⟨next, reached, facts⟩ :=
    exists_written island (inTurn_step inTurn begins)
      (rfl : begun.host = .settingParams request 1) accepted returns
  exact ⟨next, (Reachable.one _ begins).trans reached, facts.testCtrl, facts.numDmaTrans,
    facts.host, facts.todo, facts.main, facts.mainSig, facts.worker, facts.armed, facts.draws,
    facts.issued, facts.regs, facts.pings⟩

/-- The contexts from the given one on are fresh, but for the ping that this one has got. -/
def IslandState.FreshFrom (state : IslandState (workerCount chip)) (number : Nat) : Prop :=
  ∀ ctx, number ≤ contextNumber ctx → state.worker ctx =
    { BwContext.fresh with startSig := if contextNumber ctx = number then [state.run] else [] }

theorem exists_firstPing (accepted : request.accepted)
    (returns : island.setUpReturns 0 request.params = true) (rest : List BwRequest) :
    ∃ next, IslandReachable island (request :: rest) next ∧
      StartedFrom (loaded chip (request :: rest)) next request rest ∧ next.run = 1 ∧
      next.FreshFrom 1 := by
  obtain ⟨next, reached, facts⟩ : ∃ next, Reachable (islandStep island)
      (loaded chip (request :: rest)) next ∧
        StartedFrom (loaded chip (request :: rest)) next request rest :=
    exists_started island inTurn_loaded rfl rfl accepted returns
  have run : next.run = 1 := by
    rw [IslandState.run, facts.armed]
    rfl
  refine ⟨next, reached, facts, run, ?_⟩
  intro ctx _
  rw [facts.worker, run]
  simp only [sendPing]
  split <;> rfl

end Request

section Relay

@[simp] theorem setWorker_self (state : IslandState (workerCount chip))
    (ctx : Fin (workerCount chip)) (here : BwContext) :
    (state.setWorker ctx here).worker ctx = here :=
  Function.update_self _ _ _

@[simp] theorem setWorker_again (state : IslandState (workerCount chip))
    (ctx : Fin (workerCount chip)) (here after : BwContext) :
    (state.setWorker ctx here).setWorker ctx after = state.setWorker ctx after := by
  simp only [setWorker, Function.update_idem]

theorem exists_fetchParams (index : Nat) (pc : (state.worker ctx).pc = .fetchingParams index)
    (bound : index ≤ paramWordCount) :
    ∃ words, Reachable (islandStep island) state (state.setWorker ctx {
      state.worker ctx with pc := .fetchingParams paramWordCount, params := words }) := by
  obtain ⟨left, total⟩ : ∃ left, index + left = paramWordCount := ⟨_, Nat.add_sub_cancel' bound⟩
  induction left generalizing state index with
  | zero =>
      have whole : index = paramWordCount := by omega
      subst whole
      refine ⟨(state.worker ctx).params, ?_⟩
      have same : state.setWorker ctx (state.worker ctx) = state := by
        simp only [setWorker, Function.update_eq_self]
      rw [← pc, same]
      exact Reaches.start
  | succ left ih =>
      have more : index < paramWordCount := by omega
      let read := state.setWorker ctx {
        state.worker ctx with
        pc := .fetchingParams (index + 1)
        params := Function.update (state.worker ctx).params index (state.testParams index)
      }
      have reads : islandStep island state (.work ctx) = some read := by
        simp only [islandStep, workStep, pc, more, if_true]
        rfl
      obtain ⟨words, rest⟩ : ∃ words, Reachable (islandStep island) read (read.setWorker ctx {
          read.worker ctx with pc := .fetchingParams paramWordCount, params := words }) :=
        ih (index + 1) (by simp [read]) more (by omega)
      refine ⟨words, (Reachable.one _ reads).trans ?_⟩
      simpa [read] using rest

theorem exists_fetched (pc : (state.worker ctx).pc = .fetchingParams 0) :
    ∃ words, Reachable (islandStep island) state { state.setWorker ctx {
        state.worker ctx with pc := .pinging, params := words } with
      regs := Function.update state.regs (contextMe ctx)
        { state.regs (contextMe ctx) with args := TestParams.ofWords words } } := by
  obtain ⟨words, reads⟩ := exists_fetchParams island 0 pc (Nat.zero_le _)
  refine ⟨words, reads.trans (Reachable.one (.work ctx) ?_)⟩
  simp [islandStep, workStep, setWorker]

theorem exists_fetch (pc : (state.worker ctx).pc = .fetchingTest) :
    ∃ words, Reachable (islandStep island) state { state.setWorker ctx {
        state.worker ctx with pc := .pinging, params := words } with
      regs := Function.update state.regs (contextMe ctx)
        ⟨UInt32.ofInt state.testCtrl, TestParams.ofWords words⟩ } := by
  let tested : IslandState (workerCount chip) := {
    state.setWorker ctx { state.worker ctx with pc := .fetchingParams 0 } with
    regs := Function.update state.regs (contextMe ctx)
      { state.regs (contextMe ctx) with testNo := UInt32.ofInt state.testCtrl }
  }
  have tests : islandStep island state (.work ctx) = some tested := by
    simp only [islandStep, workStep, pc]
    rfl
  obtain ⟨words, fetches⟩ := exists_fetched island
    (show (tested.worker ctx).pc = .fetchingParams 0 by simp [tested])
  refine ⟨words, (Reachable.one _ tests).trans ?_⟩
  simpa [tested, setWorker] using fetches

/-- What a context changes on its way leaves alone. -/
structure Aside (state next : IslandState (workerCount chip)) : Prop where
  testCtrl : next.testCtrl = state.testCtrl
  host : next.host = state.host
  todo : next.todo = state.todo
  main : next.main = state.main
  armed : next.armed = state.armed

theorem Aside.trans {last : IslandState (workerCount chip)} (first : Aside state next)
    (second : Aside next last) : Aside state last :=
  ⟨second.testCtrl.trans first.testCtrl, second.host.trans first.host,
    second.todo.trans first.todo, second.main.trans first.main, second.armed.trans first.armed⟩

structure Relayed (state next : IslandState (workerCount chip))
    (ctx : Fin (workerCount chip)) : Prop extends Aside state next where
  numDmaTrans : next.numDmaTrans = state.numDmaTrans
  mainSig : next.mainSig = state.mainSig
  draws : next.draws = state.draws
  issued : next.issued = state.issued
  here : (next.worker ctx).pc = .settingUp ∧ (next.worker ctx).startSig = [] ∧
    (next.worker ctx).joined = state.run
  target : ∀ other, contextNumber other = contextNumber ctx + 1 → next.worker other =
    { state.worker other with startSig := (state.worker other).startSig ++ [state.run] }
  others : ∀ other, other ≠ ctx → contextNumber other ≠ contextNumber ctx + 1 →
    next.worker other = state.worker other
  regs : ∀ me, contextNumber ctx % 8 ≠ 0 ∨ me ≠ contextMe ctx → next.regs me = state.regs me
  head : contextNumber ctx % 8 = 0 →
    (next.regs (contextMe ctx)).testNo = UInt32.ofInt state.testCtrl
  pings : next.pings = state.pings ++ ((pingTarget island (contextNumber ctx)).map
    fun target => (⟨contextNumber ctx, target⟩ : BwPing)).toList

structure Woken (state next : IslandState (workerCount chip)) (ctx : Fin (workerCount chip)) :
    Prop extends Aside state next where
  numDmaTrans : next.numDmaTrans = state.numDmaTrans
  mainSig : next.mainSig = state.mainSig
  draws : next.draws = state.draws
  issued : next.issued = state.issued
  pings : next.pings = state.pings
  here : (next.worker ctx).pc = .pinging ∧ (next.worker ctx).startSig = [] ∧
    (next.worker ctx).joined = state.run
  others : ∀ other, other ≠ ctx → next.worker other = state.worker other
  regs : ∀ me, contextNumber ctx % 8 ≠ 0 ∨ me ≠ contextMe ctx → next.regs me = state.regs me
  head : contextNumber ctx % 8 = 0 →
    (next.regs (contextMe ctx)).testNo = UInt32.ofInt state.testCtrl

theorem exists_woken (pc : (state.worker ctx).pc = .waiting)
    (signalled : (state.worker ctx).startSig ≠ []) :
    ∃ next, Reachable (islandStep island) state next ∧ Woken state next ctx := by
  let joined : IslandState (workerCount chip) := {
    state.setWorker ctx {
      state.worker ctx with
      pc := if contextNumber ctx % 8 = 0 then .fetchingTest else .pinging
      startSig := []
      joined := state.run
    } with
    joins := state.joins ++ [⟨(state.worker ctx).startSig, state.run⟩]
  }
  have joins : islandStep island state (.work ctx) = some joined := by
    simp only [islandStep, workStep, pc, signalled, if_false]
    rfl
  have elsewhere (other : Fin (workerCount chip)) (apart : other ≠ ctx) :
      joined.worker other = state.worker other := by simp [joined, setWorker, apart]
  by_cases head : contextNumber ctx % 8 = 0
  · obtain ⟨words, fetches⟩ : ∃ words, Reachable (islandStep island) joined
        { joined.setWorker ctx { joined.worker ctx with pc := .pinging, params := words } with
          regs := Function.update joined.regs (contextMe ctx)
            ⟨UInt32.ofInt joined.testCtrl, TestParams.ofWords words⟩ } :=
      exists_fetch island (by simp [joined, setWorker, head])
    refine ⟨_, (Reachable.one _ joins).trans fetches, ⟨rfl, rfl, rfl, rfl, rfl⟩, rfl, rfl, rfl, rfl,
      rfl, ?_, ?_, ?_, ?_⟩
    · simp [joined, setWorker]
    · intro other apart
      simp [joined, setWorker, apart]
    · rintro me (body | apart)
      · exact absurd head body
      · exact Function.update_of_ne apart _ _
    · intro _
      simp [joined, setWorker]
  · refine ⟨joined, Reachable.one _ joins, ⟨rfl, rfl, rfl, rfl, rfl⟩, rfl, rfl, rfl, rfl, rfl, ?_,
      elsewhere, fun _ _ => rfl, fun body => absurd body head⟩
    simp [joined, setWorker, head]

structure PassedOn (state next : IslandState (workerCount chip)) (ctx : Fin (workerCount chip)) :
    Prop extends Aside state next where
  numDmaTrans : next.numDmaTrans = state.numDmaTrans
  mainSig : next.mainSig = state.mainSig
  draws : next.draws = state.draws
  issued : next.issued = state.issued
  regs : next.regs = state.regs
  here : next.worker ctx = { state.worker ctx with pc := .settingUp }
  target : ∀ other, contextNumber other = contextNumber ctx + 1 → next.worker other =
    { state.worker other with
      startSig := (state.worker other).startSig ++ [(state.worker ctx).joined] }
  others : ∀ other, other ≠ ctx → contextNumber other ≠ contextNumber ctx + 1 →
    next.worker other = state.worker other
  pings : next.pings = state.pings ++ ((pingTarget island (contextNumber ctx)).map
    fun target => (⟨contextNumber ctx, target⟩ : BwPing)).toList

theorem exists_passOn (pc : (state.worker ctx).pc = .pinging) :
    ∃ next, Reachable (islandStep island) state next ∧ PassedOn island state next ctx := by
  let up := state.setWorker ctx { state.worker ctx with pc := .settingUp }
  cases found : pingTarget island (contextNumber ctx) with
  | none =>
      have last := pingTarget_none island (contextNumber_le ctx).1 found
      have pings : islandStep island state (.work ctx) = some up := by
        simp only [islandStep, workStep, pc, found]
        rfl
      refine ⟨up, Reachable.one _ pings, ⟨rfl, rfl, rfl, rfl, rfl⟩, rfl, rfl, rfl, rfl, rfl, ?_, ?_,
        ?_, ?_⟩
      · simp [up]
      · intro other beyond
        have := (contextNumber_le other).1
        omega
      · intro other apart _
        simp [up, setWorker, apart]
      · simp [up, setWorker, found]
  | some target =>
      have after := pingTarget_next island (contextNumber_le ctx).1 found
      subst after
      let sent := up.sendPing (state.worker ctx).joined ⟨contextNumber ctx, contextNumber ctx + 1⟩
      have pings : islandStep island state (.work ctx) = some sent := by
        simp only [islandStep, workStep, pc, found]
        rfl
      refine ⟨sent, Reachable.one _ pings, ⟨rfl, rfl, rfl, rfl, rfl⟩, rfl, rfl, rfl, rfl, rfl, ?_, ?_,
        ?_, ?_⟩
      · simp [sent, up, sendPing]
      · intro other beyond
        have apart : other ≠ ctx := by
          rintro rfl
          omega
        simp [sent, up, sendPing, setWorker, beyond, apart]
      · intro other apart notNext
        simp [sent, up, sendPing, setWorker, notNext, apart]
      · simp [sent, up, sendPing, setWorker, found]

theorem exists_relay (pc : (state.worker ctx).pc = .waiting)
    (signalled : (state.worker ctx).startSig ≠ []) :
    ∃ next, Reachable (islandStep island) state next ∧ Relayed island state next ctx := by
  obtain ⟨woken, wakes, facts⟩ := exists_woken island pc signalled
  obtain ⟨pinging, sig, joined⟩ := facts.here
  obtain ⟨next, pings, passed⟩ := exists_passOn island pinging
  refine ⟨next, wakes.trans pings, facts.toAside.trans passed.toAside,
    passed.numDmaTrans.trans facts.numDmaTrans, passed.mainSig.trans facts.mainSig,
    passed.draws.trans facts.draws, passed.issued.trans facts.issued, ?_, ?_, ?_, ?_, ?_, ?_⟩
  · rw [passed.here]
    exact ⟨rfl, sig, joined⟩
  · intro other beyond
    have apart : other ≠ ctx := by
      rintro rfl
      omega
    rw [passed.target other beyond, facts.others other apart, joined]
  · intro other apart notNext
    rw [passed.others other apart notNext, facts.others other apart]
  · intro me kept
    rw [passed.regs, facts.regs me kept]
  · intro head
    rw [passed.regs, facts.head head]
  · rw [passed.pings, facts.pings]

theorem IslandState.FreshFrom.pinged (fresh : state.FreshFrom (contextNumber ctx)) :
    (state.worker ctx).pc = .waiting ∧ (state.worker ctx).startSig ≠ [] := by
  rw [fresh ctx (le_refl _), if_pos rfl]
  exact ⟨rfl, List.cons_ne_nil _ _⟩

theorem Relayed.freshFrom (relayed : Relayed island state next ctx)
    (fresh : state.FreshFrom (contextNumber ctx)) : next.FreshFrom (contextNumber ctx + 1) := by
  have run : next.run = state.run := congrArg List.length relayed.armed
  intro other beyond
  have before := fresh other (by omega)
  rw [if_neg (by omega)] at before
  by_cases target : contextNumber other = contextNumber ctx + 1
  · rw [relayed.target other target, before, run, if_pos target]
    rfl
  · have apart : other ≠ ctx := by
      rintro rfl
      omega
    rw [relayed.others other apart target, before, if_neg target]

/-- A start ping passed on by one context after the other. -/
structure RelayedTo (state next : IslandState (workerCount chip)) (number last : Nat) :
    Prop extends Aside state next where
  numDmaTrans : next.numDmaTrans = state.numDmaTrans
  issued : next.issued = state.issued
  fresh : next.FreshFrom last
  pings : state.pings = pingsSent island number → next.pings = pingsSent island last

theorem exists_freshRelay (fresh : state.FreshFrom (contextNumber ctx)) :
    ∃ next, Reachable (islandStep island) state next ∧ Relayed island state next ctx ∧
      next.FreshFrom (contextNumber ctx + 1) := by
  obtain ⟨waiting, signalled⟩ := fresh.pinged
  obtain ⟨next, relays, relayed⟩ := exists_relay island waiting signalled
  exact ⟨next, relays, relayed, relayed.freshFrom island fresh⟩

theorem exists_relays {number : Nat} (fresh : state.FreshFrom number) (positive : 1 ≤ number)
    {last : Nat} (onwards : number ≤ last) (bound : last ≤ workerCount chip + 1) :
    ∃ next, Reachable (islandStep island) state next ∧
      RelayedTo island state next number last := by
  induction last, onwards using Nat.le_induction with
  | base => exact ⟨state, Reaches.start, ⟨rfl, rfl, rfl, rfl, rfl⟩, rfl, rfl, fresh, id⟩
  | succ last onwards ih =>
      obtain ⟨before, reached, facts⟩ := ih (by omega)
      let ctx : Fin (workerCount chip) := ⟨last - 1, by omega⟩
      have at' : contextNumber ctx = last := by
        simp only [contextNumber, ctx]
        omega
      obtain ⟨after, relays, relayed, ahead⟩ := exists_freshRelay island
        (show before.FreshFrom (contextNumber ctx) from at' ▸ facts.fresh)
      refine ⟨after, reached.trans relays, facts.toAside.trans relayed.toAside,
        relayed.numDmaTrans.trans facts.numDmaTrans, relayed.issued.trans facts.issued,
        at' ▸ ahead, ?_⟩
      intro sent
      rw [relayed.pings, facts.pings sent, pingsSent_succ island (by omega), at']

end Relay

section Work

theorem exists_workMove (busy : (state.worker ctx).pc ≠ .waiting) :
    ∃ action next, islandStep island state action = some next ∧
      WorkMove island state ctx next := by
  by_cases flying : (state.worker ctx).pc = .inFlight
  · refine ⟨.complete ctx, _, ?_, .complete flying⟩
    simp only [islandStep, flying, if_true]
  · have enabled : (state.workStep island ctx).isSome = true := by
      cases pc : (state.worker ctx).pc <;> simp only [workStep, pc] at busy flying ⊢
      case waiting | inFlight => contradiction
      case fetchingParams index => split <;> rfl
      case pinging => split <;> rfl
      all_goals rfl
    obtain ⟨next, moved⟩ := Option.isSome_iff_exists.mp enabled
    exact ⟨.work ctx, next, moved, workStep_moves moved⟩

theorem exists_joined (waiting : (state.worker ctx).pc = .waiting)
    (signalled : (state.worker ctx).startSig ≠ []) :
    ∃ next, islandStep island state (.work ctx) = some next ∧
      next.joins = state.joins ++ [⟨(state.worker ctx).startSig, state.run⟩] ∧
      next.testCtrl = state.testCtrl ∧
      (next.worker ctx).pc = if contextNumber ctx % 8 = 0 then .fetchingTest else .pinging := by
  cases moved : islandStep island state (.work ctx) with
  | none => simp [islandStep, workStep, waiting, signalled] at moved
  | some next =>
      refine ⟨next, rfl, ?_⟩
      simp only [islandStep, workStep, waiting, signalled, if_false, Option.some.injEq] at moved
      subst moved
      exact ⟨rfl, rfl, by simp⟩

theorem exists_setUp (pc : (state.worker ctx).pc = .settingUp) :
    Reachable (islandStep island) state (state.setWorker ctx {
      state.worker ctx with
      pc := .looping
      cmd := bwSetup island (contextNumber ctx) (state.regs (contextMe ctx)).args }) := by
  refine Reachable.one (.work ctx) ?_
  simp only [islandStep, workStep, pc, bwSetup]

structure DrawsOnly (state next : IslandState (workerCount chip)) (ctx : Fin (workerCount chip)) :
    Prop extends Aside state next where
  mainSig : next.mainSig = state.mainSig
  regs : next.regs = state.regs
  others : ∀ other, other ≠ ctx → next.worker other = state.worker other
  sig : (next.worker ctx).startSig = (state.worker ctx).startSig

theorem DrawsOnly.trans {last : IslandState (workerCount chip)} (first : DrawsOnly state next ctx)
    (second : DrawsOnly next last ctx) : DrawsOnly state last ctx :=
  ⟨first.toAside.trans second.toAside, second.mainSig.trans first.mainSig,
    second.regs.trans first.regs,
    fun other apart => (second.others other apart).trans (first.others other apart),
    second.sig.trans first.sig⟩

theorem exists_issue (pc : (state.worker ctx).pc = .looping) :
    ∃ next, Reachable (islandStep island) state next ∧ DrawsOnly state next ctx ∧
      next.numDmaTrans = state.numDmaTrans - 1 ∧ (next.worker ctx).pc = .inFlight ∧
      (next.worker ctx).trans = state.numDmaTrans ∧
      (next.worker ctx).cmd = (state.worker ctx).cmd ∧
      (next.worker ctx).joined = (state.worker ctx).joined ∧
      next.draws = state.draws ++ [⟨state.run, state.numDmaTrans, (state.worker ctx).joined,
        contextNumber ctx, (state.worker ctx).cmd⟩] ∧
      next.issued = state.issued ++ [⟨contextNumber ctx, state.numDmaTrans,
        bwReadNo (state.regs (contextMe ctx)).testNo state.numDmaTrans,
        (state.worker ctx).cmd⟩] := by
  let drawn : IslandState (workerCount chip) := {
    state.setWorker ctx { state.worker ctx with pc := .drawn, trans := state.numDmaTrans } with
    numDmaTrans := state.numDmaTrans - 1
    draws := state.draws ++ [⟨state.run, state.numDmaTrans, (state.worker ctx).joined,
      contextNumber ctx, (state.worker ctx).cmd⟩]
  }
  have draws : islandStep island state (.work ctx) = some drawn := by
    simp only [islandStep, workStep, pc, clsTestSub]
    rfl
  have holding : drawn.worker ctx =
      { state.worker ctx with pc := .drawn, trans := state.numDmaTrans } :=
    Function.update_self _ _ _
  let issued : IslandState (workerCount chip) := {
    drawn.setWorker ctx { drawn.worker ctx with pc := .inFlight } with
    issued := state.issued ++ [⟨contextNumber ctx, state.numDmaTrans,
      bwReadNo (state.regs (contextMe ctx)).testNo state.numDmaTrans, (state.worker ctx).cmd⟩]
  }
  have issues : islandStep island drawn (.work ctx) = some issued := by
    simp only [islandStep, workStep, holding]
    simp only [issued, holding]
    rfl
  refine ⟨issued, (Reachable.one _ draws).trans (Reachable.one _ issues),
    ⟨⟨rfl, rfl, rfl, rfl, rfl⟩, rfl, rfl, ?_, ?_⟩, rfl, ?_, ?_, ?_, ?_, rfl, rfl⟩
  · intro other apart
    simp [issued, drawn, setWorker, apart]
  all_goals simp [issued, drawn, setWorker]

theorem exists_check (pc : (state.worker ctx).pc = .inFlight) :
    ∃ next, Reachable (islandStep island) state next ∧ DrawsOnly state next ctx ∧
      next.numDmaTrans = state.numDmaTrans ∧ next.draws = state.draws ∧
      (next.worker ctx).pc = (if (state.worker ctx).trans ≤ 1 then .left else .looping) ∧
      (next.worker ctx).trans = (state.worker ctx).trans ∧
      (next.worker ctx).cmd = (state.worker ctx).cmd ∧
      (next.worker ctx).joined = (state.worker ctx).joined := by
  let done := state.setWorker ctx { state.worker ctx with pc := .completed }
  have completes : islandStep island state (.complete ctx) = some done := by
    simp only [islandStep, pc, if_true]
    rfl
  let checked := done.setWorker ctx {
    done.worker ctx with pc := if (done.worker ctx).trans ≤ 1 then .left else .looping }
  have checks : islandStep island done (.work ctx) = some checked := by
    have holding : (done.worker ctx).pc = .completed := by simp [done]
    simp only [islandStep, workStep, holding]
    rfl
  refine ⟨checked, (Reachable.one _ completes).trans (Reachable.one _ checks),
    ⟨⟨rfl, rfl, rfl, rfl, rfl⟩, rfl, rfl, ?_, ?_⟩, rfl, rfl, ?_, ?_, ?_, ?_⟩
  · intro other apart
    simp [checked, done, setWorker, apart]
  all_goals simp [checked, done]

theorem exists_drained (pc : (state.worker ctx).pc = .looping)
    (positive : 1 ≤ state.numDmaTrans) :
    ∃ next, Reachable (islandStep island) state next ∧ DrawsOnly state next ctx ∧
      next.numDmaTrans = 0 ∧ (next.worker ctx).pc = .left ∧ (next.worker ctx).trans = 1 := by
  obtain ⟨left, counter⟩ : ∃ left, state.numDmaTrans = left + 1 :=
    ⟨_, (Nat.sub_add_cancel positive).symm⟩
  induction left generalizing state with
  | zero =>
      obtain ⟨issued, issues, first, count, flying, trans, _⟩ := exists_issue island pc
      obtain ⟨next, checks, second, count', _, after, trans', _⟩ :=
        exists_check island flying
      refine ⟨next, issues.trans checks, first.trans second, by omega, ?_, by omega⟩
      rw [after, trans, counter]
      rfl
  | succ left ih =>
      obtain ⟨issued, issues, first, count, flying, trans, _⟩ := exists_issue island pc
      obtain ⟨again, checks, second, count', _, after, trans', _⟩ :=
        exists_check island flying
      have looping : (again.worker ctx).pc = .looping := by
        have more : ¬ left + 1 + 1 ≤ 1 := by omega
        rw [after, trans, counter, if_neg more]
      obtain ⟨next, rest, third, empty, leaving, one⟩ := ih looping (by omega) (by omega)
      exact ⟨next, (issues.trans checks).trans rest, (first.trans second).trans third, empty,
        leaving, one⟩

theorem exists_published (pc : (state.worker ctx).pc = .left)
    (trans : (state.worker ctx).trans = 1) (main : state.main = .waiting) :
    ∃ next, Reachable (islandStep island) state next ∧ next.testCtrl = 0 ∧
      next.host = state.host ∧ next.todo = state.todo ∧ next.main = .polling ∧
      next.armed = state.armed ∧ next.numDmaTrans = state.numDmaTrans ∧
      next.regs = state.regs ∧ (next.worker ctx).pc = .waiting ∧
      (next.worker ctx).startSig = (state.worker ctx).startSig ∧
      ∀ other, other ≠ ctx → next.worker other = state.worker other := by
  let back : IslandState (workerCount chip) := {
    state.setWorker ctx { state.worker ctx with pc := .waiting } with mainSig := true }
  have leaves : islandStep island state (.work ctx) = some back := by
    simp only [islandStep, workStep, pc]
    rw [if_pos trans]
  have finishes : islandStep island back .main =
      some { back with mainSig := false, main := .publishing 0 } := by
    have waiting : back.main = .waiting := main
    have signalled : back.mainSig = true := rfl
    simp only [islandStep, mainStep, waiting, signalled, if_true]
  refine ⟨{ back with mainSig := false, testCtrl := 0, main := .polling },
    ((Reachable.one _ leaves).trans (Reachable.one _ finishes)).trans (Reachable.one .main rfl),
    rfl, rfl, rfl, rfl, rfl, rfl, rfl, ?_, ?_, ?_⟩
  · simp [back]
  · simp [back]
  · intro other apart
    simp [back, setWorker, apart]

end Work

theorem several_tickets (flags : UInt32) : 2 ≤ bwMaxTrans flags := by
  unfold bwMaxTrans
  split <;> decide

section Plain

def context0 (chip : Chip) : Fin (workerCount chip) :=
  ⟨0, by cases chip <;> decide⟩

def context1 (chip : Chip) : Fin (workerCount chip) :=
  ⟨1, by cases chip <;> decide⟩

@[simp] theorem context0_number : contextNumber (context0 chip) = 1 :=
  rfl

@[simp] theorem context1_number : contextNumber (context1 chip) = 2 :=
  rfl

@[simp] theorem context0_me : contextMe (context0 chip) = 0 := by
  simp [contextMe]

@[simp] theorem context1_me : contextMe (context1 chip) = 0 := by
  simp [contextMe]

theorem context0_ne : context0 chip ≠ context1 chip := by
  simp [context0, context1]

/-- An island with nothing but the numbers of its MEs and contexts to tell them apart. -/
def plainIsland (chip : Chip) : Island chip where
  activeCtxSts me := UInt32.ofNat (8 * (me + 4))
  context number := {
    meid := UInt32.ofNat (number / 8)
    ctx := UInt32.ofNat (number % 8)
    signo := 1
    nfpBuf := 0
    reserved := 0
  }
  setUpReturns _ _ := true
  meBits := by
    intro me present
    have bound : me ≤ 11 := present.trans (by cases chip <;> decide)
    rw [UInt32.toNat_ofNat_of_lt' (by rw [UInt32.size]; omega)]
    omega

-- Reads of 64 and of 128 bytes.
def shortReads : BwRequest :=
  ⟨.bwDmaRd, ⟨0, 64, 4096, 0, 0⟩, by decide⟩

def longReads : BwRequest :=
  ⟨.bwDmaRd, ⟨0, 128, 4096, 0, 0⟩, by decide⟩

end Plain

end Pciebench
