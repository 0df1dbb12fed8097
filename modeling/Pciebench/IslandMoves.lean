import Mathlib
import Pciebench.BwIsland

/-!
The steps of the island, one constructor for each, and what holds between the host and the
main loop in every run.
-/

namespace Pciebench

open WordCopy IslandState

section Moves

variable {workers : Nat}

inductive HostMove (state : IslandState workers) : IslandState workers → Prop
  | begin (request : BwRequest) (rest : List BwRequest) : state.host = .idle →
      state.todo = request :: rest →
      HostMove state {
        state with
        testParams := Function.update state.testParams 0 (request.params.word 0)
        host := .settingParams request 1
        todo := rest }
  | setParam (request : BwRequest) (index : Nat) : state.host = .settingParams request index →
      index < paramWordCount →
      HostMove state {
        state with
        testParams := Function.update state.testParams index (request.params.word index)
        host := .settingParams request (index + 1) }
  | setCtrl (request : BwRequest) (index : Nat) : state.host = .settingParams request index →
      paramWordCount ≤ index →
      HostMove state { state with testCtrl := request.test.ctrl, host := .polling request }
  | finish (request : BwRequest) : state.host = .polling request → state.testCtrl ≤ 0 →
      HostMove state { state with host := .idle }

inductive MainMove {chip : Chip} (island : Island chip) (state : IslandState workers) :
    IslandState workers → Prop
  | wake : state.main = .polling → 0 < state.testCtrl →
      MainMove island state { state with main := .copyingParams 0 }
  | copyParam (index : Nat) : state.main = .copyingParams index → index < paramWordCount →
      MainMove island state {
        state with
        mainParams := Function.update state.mainParams index (state.testParams index)
        main := .copyingParams (index + 1) }
  | switch (index : Nat) : state.main = .copyingParams index → paramWordCount ≤ index →
      MainMove island state { state with main := .passing }
  | refuse : state.main = .passing →
      (TestParams.ofWords state.mainParams).addrArgs.refused = true →
      MainMove island state {
        state with
        regs := Function.update state.regs 0
          ⟨UInt32.ofInt state.testCtrl, TestParams.ofWords state.mainParams⟩
        main := .publishing (-1) }
  | accept : state.main = .passing →
      (TestParams.ofWords state.mainParams).addrArgs.refused = false →
      MainMove island state {
        state with
        regs := Function.update state.regs 0
          ⟨UInt32.ofInt state.testCtrl, TestParams.ofWords state.mainParams⟩
        main := .arming }
  | arm : state.main = .arming → island.setUpReturns state.run (state.regs 0).args = true →
      MainMove island state {
        state with
        numDmaTrans := bwMaxTrans (state.regs 0).args.p0
        main := .starting
        armed := state.armed ++ state.host.current.toList
        pings := [] }
  | start : state.main = .starting →
      MainMove island state { state.sendPing state.run ⟨0, 1⟩ with main := .waiting }
  | finish : state.main = .waiting → state.mainSig = true →
      MainMove island state { state with mainSig := false, main := .publishing 0 }
  | publish (res : Int) : state.main = .publishing res →
      MainMove island state { state with testCtrl := res, main := .polling }

/-- The steps of a worker context, and the completion of its DMA. -/
inductive WorkMove {chip : Chip} (island : Island chip) (state : IslandState workers)
    (ctx : Fin workers) : IslandState workers → Prop
  | join : (state.worker ctx).pc = .waiting → (state.worker ctx).startSig ≠ [] →
      WorkMove island state ctx {
        state.setWorker ctx {
          state.worker ctx with
          pc := if contextNumber ctx % 8 = 0 then .fetchingTest else .pinging
          startSig := []
          joined := state.run
        } with
        joins := state.joins ++ [⟨(state.worker ctx).startSig, state.run⟩] }
  | fetchTest : (state.worker ctx).pc = .fetchingTest →
      WorkMove island state ctx {
        state.setWorker ctx { state.worker ctx with pc := .fetchingParams 0 } with
        regs := Function.update state.regs (contextMe ctx)
          { state.regs (contextMe ctx) with testNo := UInt32.ofInt state.testCtrl } }
  | fetchParam (index : Nat) : (state.worker ctx).pc = .fetchingParams index →
      index < paramWordCount →
      WorkMove island state ctx (state.setWorker ctx {
        state.worker ctx with
        pc := .fetchingParams (index + 1)
        params := Function.update (state.worker ctx).params index (state.testParams index) })
  | fetched (index : Nat) : (state.worker ctx).pc = .fetchingParams index →
      paramWordCount ≤ index →
      WorkMove island state ctx {
        state.setWorker ctx { state.worker ctx with pc := .pinging } with
        regs := Function.update state.regs (contextMe ctx)
          { state.regs (contextMe ctx) with
            args := TestParams.ofWords (state.worker ctx).params } }
  | ping (target : Nat) : (state.worker ctx).pc = .pinging →
      pingTarget island (contextNumber ctx) = some target →
      WorkMove island state ctx
        ((state.setWorker ctx { state.worker ctx with pc := .settingUp }).sendPing
          (state.worker ctx).joined ⟨contextNumber ctx, target⟩)
  | last : (state.worker ctx).pc = .pinging →
      pingTarget island (contextNumber ctx) = none →
      WorkMove island state ctx (state.setWorker ctx { state.worker ctx with pc := .settingUp })
  | setUp : (state.worker ctx).pc = .settingUp →
      WorkMove island state ctx (state.setWorker ctx {
        state.worker ctx with
        pc := .looping
        cmd := pcieDmaSetup chip (island.context (contextNumber ctx))
          (state.regs (contextMe ctx)).args.p1 (state.regs (contextMe ctx)).args.p4 })
  | draw : (state.worker ctx).pc = .looping →
      WorkMove island state ctx {
        state.setWorker ctx { state.worker ctx with pc := .drawn, trans := state.numDmaTrans } with
        numDmaTrans := state.numDmaTrans - 1
        draws := state.draws ++ [⟨state.run, state.numDmaTrans, (state.worker ctx).joined,
          contextNumber ctx, (state.worker ctx).cmd⟩] }
  | issue : (state.worker ctx).pc = .drawn →
      WorkMove island state ctx {
        state.setWorker ctx { state.worker ctx with pc := .inFlight } with
        issued := state.issued ++ [⟨contextNumber ctx, (state.worker ctx).trans,
          bwReadNo (state.regs (contextMe ctx)).testNo (state.worker ctx).trans,
          (state.worker ctx).cmd⟩] }
  | complete : (state.worker ctx).pc = .inFlight →
      WorkMove island state ctx (state.setWorker ctx { state.worker ctx with pc := .completed })
  | check : (state.worker ctx).pc = .completed →
      WorkMove island state ctx (state.setWorker ctx {
        state.worker ctx with
        pc := if (state.worker ctx).trans ≤ 1 then .left else .looping })
  | leave : (state.worker ctx).pc = .left →
      WorkMove island state ctx {
        state.setWorker ctx { state.worker ctx with pc := .waiting } with
        mainSig := if (state.worker ctx).trans = 1 then true else state.mainSig }

end Moves

section Inversion

variable {workers : Nat} {state next : IslandState workers}

theorem hostStep_moves (moved : state.hostStep = some next) : HostMove state next := by
  cases host : state.host with
  | idle =>
      simp only [hostStep, host] at moved
      split at moved
      · contradiction
      · rename_i request rest todo
        cases moved
        exact .begin request rest host todo
  | settingParams request index =>
      simp only [hostStep, host] at moved
      split at moved
      · rename_i more
        cases moved
        exact .setParam request index host more
      · rename_i all
        cases moved
        exact .setCtrl request index host (Nat.le_of_not_lt all)
  | polling request =>
      simp only [hostStep, host, Option.ite_none_right_eq_some, Option.some.injEq] at moved
      obtain ⟨over', rfl⟩ := moved
      exact .finish request host over'

variable {chip : Chip} {island : Island chip} {ctx : Fin workers}

theorem mainStep_moves (moved : state.mainStep island = some next) :
    MainMove island state next := by
  cases main : state.main with
  | polling =>
      simp only [mainStep, main, Option.ite_none_right_eq_some, Option.some.injEq] at moved
      obtain ⟨posted, rfl⟩ := moved
      exact .wake main posted
  | copyingParams index =>
      simp only [mainStep, main] at moved
      split at moved
      · rename_i more
        cases moved
        exact .copyParam index main more
      · rename_i all
        split at moved
        · cases moved
          exact .switch index main (Nat.le_of_not_lt all)
        · contradiction
  | passing =>
      simp only [mainStep, main, Option.some.injEq] at moved
      subst moved
      split
      · rename_i refused
        exact .refuse main refused
      · rename_i accepted
        exact .accept main (Bool.eq_false_iff.mpr accepted)
  | arming =>
      simp only [mainStep, main, Option.ite_none_right_eq_some, Option.some.injEq] at moved
      obtain ⟨returned, rfl⟩ := moved
      exact .arm main returned
  | starting =>
      simp only [mainStep, main, Option.some.injEq] at moved
      subst moved
      exact .start main
  | waiting =>
      simp only [mainStep, main, Option.ite_none_right_eq_some, Option.some.injEq] at moved
      obtain ⟨signalled, rfl⟩ := moved
      exact .finish main signalled
  | publishing res =>
      simp only [mainStep, main, Option.some.injEq] at moved
      subst moved
      exact .publish res main

theorem workStep_moves (moved : state.workStep island ctx = some next) :
    WorkMove island state ctx next := by
  cases pc : (state.worker ctx).pc with
  | waiting =>
      simp only [workStep, pc] at moved
      split at moved
      · contradiction
      · rename_i signalled
        cases moved
        exact .join pc signalled
  | fetchingTest =>
      simp only [workStep, pc, Option.some.injEq] at moved
      subst moved
      exact .fetchTest pc
  | fetchingParams index =>
      simp only [workStep, pc] at moved
      split at moved
      · rename_i more
        cases moved
        exact .fetchParam index pc more
      · rename_i all
        cases moved
        exact .fetched index pc (Nat.le_of_not_lt all)
  | pinging =>
      simp only [workStep, pc] at moved
      split at moved
      · rename_i target found
        cases moved
        exact .ping target pc found
      · rename_i nobody
        cases moved
        exact .last pc nobody
  | settingUp =>
      simp only [workStep, pc, Option.some.injEq] at moved
      subst moved
      exact .setUp pc
  | looping =>
      simp only [workStep, pc, clsTestSub, Option.some.injEq] at moved
      subst moved
      exact .draw pc
  | drawn =>
      simp only [workStep, pc, Option.some.injEq] at moved
      subst moved
      exact .issue pc
  | inFlight =>
      simp only [workStep, pc] at moved
      contradiction
  | completed =>
      simp only [workStep, pc, Option.some.injEq] at moved
      subst moved
      exact .check pc
  | left =>
      simp only [workStep, pc, Option.some.injEq] at moved
      have moves : WorkMove island state ctx _ := .leave pc
      by_cases last : (state.worker ctx).trans = 1
      · simp only [last, if_true] at moved moves
        subst moved
        exact moves
      · simp only [last, if_false] at moved moves
        subst moved
        exact moves

theorem islandStep_moves {state next : IslandState (workerCount chip)}
    {action : IslandAction (workerCount chip)} (moved : islandStep island state action = some next) :
    (action = .host ∧ HostMove state next) ∨ (action = .main ∧ MainMove island state next) ∨
      ∃ ctx, (action = .work ctx ∨ action = .complete ctx) ∧ WorkMove island state ctx next := by
  cases action with
  | host => exact .inl ⟨rfl, hostStep_moves moved⟩
  | main => exact .inr (.inl ⟨rfl, mainStep_moves moved⟩)
  | work ctx => exact .inr (.inr ⟨ctx, .inl rfl, workStep_moves moved⟩)
  | complete ctx =>
      simp only [islandStep, Option.ite_none_right_eq_some, Option.some.injEq] at moved
      obtain ⟨flying, rfl⟩ := moved
      exact .inr (.inr ⟨ctx, .inr rfl, .complete flying⟩)

end Inversion

namespace IslandState

variable {workers : Nat}

def Posted (state : IslandState workers) (request : BwRequest) : Prop :=
  Agree paramWordCount state.testParams request.params.word

def Entered (state : IslandState workers) (request : BwRequest) : Prop :=
  state.regs 0 = ⟨request.test.number, request.params⟩

/-- How far the main loop is with the request that the host waits for. -/
def MainAt (state : IslandState workers) (request : BwRequest) : Prop :=
  match state.main with
  | .polling => True
  | .copyingParams index =>
      index ≤ paramWordCount ∧ Agree index state.mainParams request.params.word
  | .passing => Agree paramWordCount state.mainParams request.params.word
  | .arming => state.Entered request ∧ request.accepted
  | .starting | .waiting =>
      state.Entered request ∧ request.accepted ∧ state.armed.getLast? = some request
  | .publishing res => res ≤ 0

def Resting (state : IslandState workers) : Prop :=
  state.testCtrl ≤ 0 ∧ state.main = .polling

def Serving (state : IslandState workers) (request : BwRequest) : Prop :=
  state.testCtrl = request.test.ctrl ∧ state.Posted request ∧ state.MainAt request

/-- Host and main loop take turns, as in every test. -/
def TakesTurns (state : IslandState workers) : Prop :=
  match state.host with
  | .idle => state.Resting
  | .settingParams request index =>
      state.Resting ∧ index ≤ paramWordCount ∧ Agree index state.testParams request.params.word
  | .polling request => state.Serving request ∨ state.Resting

/-- The host asks for nothing but the requests of the run. -/
structure AsksOnly (requests : List BwRequest) (state : IslandState workers) : Prop where
  todo : ∀ request ∈ state.todo, request ∈ requests
  current : ∀ request, state.host.current = some request → request ∈ requests

/-- A context reads the parameters for its ME only if it is context 0, on another ME than the
master. -/
def FetchesAtHead (state : IslandState workers) : Prop :=
  ∀ ctx, (state.worker ctx).pc = .fetchingTest ∨
    (∃ index, (state.worker ctx).pc = .fetchingParams index) → contextNumber ctx % 8 = 0

structure InTurn (state : IslandState workers) : Prop where
  turns : state.TakesTurns
  heads : state.FetchesAtHead

end IslandState

section Turns

variable {chip : Chip} {island : Island chip} {workers : Nat}
  {state next : IslandState workers} {ctx : Fin workers} {request : BwRequest}

theorem contextMe_pos (head : contextNumber ctx % 8 = 0) : contextMe ctx ≠ 0 := by
  simp only [contextMe, contextNumber] at head ⊢
  omega

theorem takesTurns_host (turns : state.TakesTurns) (move : HostMove state next) :
    next.TakesTurns := by
  cases move with
  | begin request rest host todo =>
      simp only [TakesTurns, host] at turns
      exact ⟨turns, by decide, (agree_zero _ _).next⟩
  | setParam request index host more =>
      simp only [TakesTurns, host] at turns
      exact ⟨turns.1, more, turns.2.2.next⟩
  | setCtrl request index host all =>
      simp only [TakesTurns, host] at turns
      have whole : index = paramWordCount := by omega
      subst whole
      refine Or.inl ⟨rfl, turns.2.2, ?_⟩
      simp only [MainAt, turns.1.2]
  | finish request host over' =>
      simp only [TakesTurns, host] at turns
      rcases turns with serving | resting
      · have := request.test.ctrl_pos
        rw [serving.1] at over'
        omega
      · exact resting

theorem takesTurns_serving (turns : state.TakesTurns) :
    state.Resting ∨ ∃ request, state.host = .polling request ∧ state.Serving request := by
  cases host : state.host with
  | idle =>
      simp only [TakesTurns, host] at turns
      exact .inl turns
  | settingParams request index =>
      simp only [TakesTurns, host] at turns
      exact .inl turns.1
  | polling request =>
      simp only [TakesTurns, host] at turns
      exact turns.symm.imp id fun serving => ⟨request, rfl, serving⟩

theorem takesTurns_busy (turns : state.TakesTurns) (busy : state.main ≠ .polling) :
    ∃ request, state.host = .polling request ∧ state.Serving request := by
  rcases takesTurns_serving turns with resting | serving
  · exact absurd resting.2 busy
  · exact serving

theorem ofInt_ctrl (test : PciebenchTest) : UInt32.ofInt test.ctrl = test.number := by
  cases test <;> rfl

theorem serving_main (serving : state.Serving request) (host : state.host = .polling request)
    (move : MainMove island state next) : next.Serving request ∨ next.Resting := by
  obtain ⟨ctrl, posted, progress⟩ := serving
  cases move with
  | wake main positive => exact .inl ⟨ctrl, posted, Nat.zero_le _, agree_zero _ _⟩
  | copyParam index main more =>
      simp only [MainAt, main] at progress
      exact .inl ⟨ctrl, posted, more, progress.2.nextFrom posted more⟩
  | «switch» index main all =>
      simp only [MainAt, main] at progress
      exact .inl ⟨ctrl, posted, progress.2.mono all⟩
  | refuse main refused => exact .inl ⟨ctrl, posted, show (-1 : Int) ≤ 0 by decide⟩
  | accept main accepted =>
      simp only [MainAt, main] at progress
      rw [ofWords_params progress] at accepted
      refine .inl ⟨ctrl, posted, ?_, accepted⟩
      simp only [Entered, Function.update_self, ofWords_params progress, ctrl, ofInt_ctrl]
  | arm main returned =>
      simp only [MainAt, main] at progress
      refine .inl ⟨ctrl, posted, progress.1, progress.2, ?_⟩
      simp [host, BwHostPc.current]
  | start main =>
      simp only [MainAt, main] at progress
      exact .inl ⟨ctrl, posted, progress⟩
  | finish main signalled => exact .inl ⟨ctrl, posted, le_refl _⟩
  | publish res main =>
      simp only [MainAt, main] at progress
      exact .inr ⟨progress, rfl⟩

theorem takesTurns_main (turns : state.TakesTurns) (move : MainMove island state next) :
    next.TakesTurns := by
  have frame : next.host = state.host := by cases move <;> rfl
  rcases takesTurns_serving turns with ⟨ctrl, main⟩ | ⟨request, host, serving⟩
  · cases move <;> simp_all
    omega
  · simp only [TakesTurns, frame, host]
    exact serving_main serving host move

theorem WorkMove.frame (move : WorkMove island state ctx next) :
    next.testCtrl = state.testCtrl ∧ next.testParams = state.testParams ∧
      next.host = state.host ∧ next.todo = state.todo ∧ next.main = state.main ∧
      next.mainParams = state.mainParams ∧ next.armed = state.armed := by
  cases move <;> exact ⟨rfl, rfl, rfl, rfl, rfl, rfl, rfl⟩

theorem WorkMove.regs_zero (heads : state.FetchesAtHead) (move : WorkMove island state ctx next) :
    next.regs 0 = state.regs 0 := by
  cases move with
  | fetchTest pc =>
      exact Function.update_of_ne (contextMe_pos (heads ctx (.inl pc))).symm _ _
  | fetched index pc all =>
      exact Function.update_of_ne (contextMe_pos (heads ctx (.inr ⟨index, pc⟩))).symm _ _
  | _ => rfl

theorem takesTurns_work (turns : state.TakesTurns) (heads : state.FetchesAtHead)
    (move : WorkMove island state ctx next) : next.TakesTurns := by
  obtain ⟨testCtrl, testParams, host, _, main, mainParams, armed⟩ := move.frame
  have regs := move.regs_zero heads
  simpa only [TakesTurns, IslandState.Resting, IslandState.Serving, IslandState.Posted, MainAt,
    Entered, testCtrl, testParams, host, main, mainParams, armed, regs] using turns

@[simp] theorem sendPing_pc {run : Nat} {ping : BwPing} (other : Fin workers) :
    ((state.sendPing run ping).worker other).pc = (state.worker other).pc := by
  simp only [sendPing]
  split <;> rfl

theorem sendPing_worker (run : Nat) (ping : BwPing) (other : Fin workers) :
    ∃ more, (state.sendPing run ping).worker other =
      { state.worker other with startSig := (state.worker other).startSig ++ more } := by
  simp only [sendPing]
  split
  · exact ⟨[run], rfl⟩
  · exact ⟨[], by rw [List.append_nil]⟩

theorem WorkMove.others (move : WorkMove island state ctx next) {other : Fin workers}
    (apart : other ≠ ctx) :
    ∃ more, next.worker other =
      { state.worker other with startSig := (state.worker other).startSig ++ more } := by
  have kept (here : BwContext) : (state.setWorker ctx here).worker other = state.worker other :=
    Function.update_of_ne apart _ _
  cases move with
  | ping target pc found =>
      obtain ⟨more, sent⟩ := @sendPing_worker _ (state.setWorker ctx
        { state.worker ctx with pc := .settingUp }) (state.worker ctx).joined
        ⟨contextNumber ctx, target⟩ other
      rw [kept] at sent
      exact ⟨more, sent⟩
  | _ => exact ⟨[], (kept _).trans (by rw [List.append_nil])⟩

theorem MainMove.contexts (move : MainMove island state next) (other : Fin workers) :
    ∃ more, next.worker other =
      { state.worker other with startSig := (state.worker other).startSig ++ more } := by
  cases move with
  | start main => exact sendPing_worker state.run ⟨0, 1⟩ other
  | _ => exact ⟨[], by rw [List.append_nil]⟩

theorem fetchesAtHead_main (heads : state.FetchesAtHead) (move : MainMove island state next) :
    next.FetchesAtHead := by
  intro other fetching
  obtain ⟨sig, kept⟩ := move.contexts other
  rw [kept] at fetching
  exact heads other fetching

theorem fetchesAtHead_work (heads : state.FetchesAtHead)
    (move : WorkMove island state ctx next) : next.FetchesAtHead := by
  intro other fetching
  by_cases same : other = ctx
  · subst same
    cases move with
    | join pc signalled =>
        by_contra body
        simp [setWorker, body] at fetching
    | fetchTest pc => exact heads other (.inl pc)
    | fetchParam index pc more => exact heads other (.inr ⟨index, pc⟩)
    | fetched index pc all => exact heads other (.inr ⟨index, pc⟩)
    | check pc =>
        simp only [setWorker, Function.update_self] at fetching
        split at fetching <;> simp at fetching
    | _ => simp [setWorker] at fetching
  · obtain ⟨sig, kept⟩ := move.others same
    rw [kept] at fetching
    exact heads other fetching

end Turns

section Runs

variable {chip : Chip} {island : Island chip} {requests : List BwRequest}
  {state next : IslandState (workerCount chip)}

theorem inTurn_step {action : IslandAction (workerCount chip)} (inTurn : state.InTurn)
    (moved : islandStep island state action = some next) : next.InTurn := by
  obtain ⟨turns, heads⟩ := inTurn
  rcases islandStep_moves moved with ⟨_, move⟩ | ⟨_, move⟩ | ⟨ctx, _, move⟩
  · refine ⟨takesTurns_host turns move, ?_⟩
    cases move <;> exact heads
  · exact ⟨takesTurns_main turns move, fetchesAtHead_main heads move⟩
  · exact ⟨takesTurns_work turns heads move, fetchesAtHead_work heads move⟩

theorem inTurn_loaded : (loaded chip requests).InTurn := by
  refine ⟨⟨le_refl _, rfl⟩, ?_⟩
  rintro ctx (fetching | ⟨index, fetching⟩) <;> contradiction

theorem asksOnly_host (asks : state.AsksOnly requests) (move : HostMove state next) :
    next.AsksOnly requests := by
  cases move with
  | begin request rest host todo =>
      refine ⟨?_, ?_⟩
      · intro other member
        exact asks.todo other (todo ▸ List.mem_cons_of_mem _ member)
      · intro other current
        cases current
        exact asks.todo request (todo ▸ List.mem_cons_self)
  | setParam request index host more | setCtrl request index host all =>
      refine ⟨asks.todo, ?_⟩
      intro other current
      cases current
      exact asks.current request (by rw [host]; rfl)
  | finish request host answered =>
      refine ⟨asks.todo, ?_⟩
      intro other current
      cases current

theorem asksOnly_reachable (reached : IslandReachable island requests state) :
    state.AsksOnly requests := by
  refine reached.invariant ⟨fun _ => id, ?_⟩ ?_
  · intro other current
    cases current
  · intro before action after _ asks _ moved
    rcases islandStep_moves moved with ⟨_, move⟩ | ⟨_, move⟩ | ⟨ctx, _, move⟩
    · exact asksOnly_host asks move
    · cases move <;> exact ⟨asks.todo, asks.current⟩
    · obtain ⟨_, _, host, todo, _⟩ := move.frame
      exact ⟨todo ▸ asks.todo, host ▸ asks.current⟩

theorem inTurn_reached
    {allowed : IslandState (workerCount chip) → IslandAction (workerCount chip) → Prop}
    (reached : Machine.Reaches (islandStep island) allowed (loaded chip requests) state) :
    state.InTurn := by
  refine reached.invariant inTurn_loaded ?_
  intro _ _ _ _ inTurn _ moved
  exact inTurn_step inTurn moved

theorem setUp_returns (returns : island.SetUpsReturn requests)
    (reached : IslandReachable island requests state) (main : state.main = .arming) :
    island.setUpReturns state.run (state.regs 0).args = true := by
  obtain ⟨request, host, _, _, progress⟩ :=
    takesTurns_busy (inTurn_reached reached).turns (by simp [main])
  simp only [MainAt, main] at progress
  obtain ⟨entered, accepted⟩ := progress
  have asked : request ∈ requests :=
    (asksOnly_reachable reached).current request (by rw [host]; rfl)
  rw [entered]
  exact returns request asked accepted state.run

end Runs

end Pciebench
