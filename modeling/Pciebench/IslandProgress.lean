import Mathlib
import Pciebench.IslandRuns
import Pciebench.Lib.Pool

/-!
Every run of the island comes to an end: a weight falls with every step, whatever the contexts
of earlier runs still do. And while the master waits for its workers one of them can move.
-/

namespace Pciebench

open Machine WordCopy IslandState

section Weight

/-- The weight of a context by its program counter, for the worker with the given number. -/
def BwContext.effort (workers number : Nat) (here : BwContext) : Nat :=
  match here.pc with
  | .waiting => 0
  | .fetchingTest => 20 * (workers + 1 - number) + 19
  | .fetchingParams index => 20 * (workers + 1 - number) + (paramWordCount - index) + 12
  | .pinging => 20 * (workers + 1 - number) + 11
  | .settingUp => 10
  | .looping => 6
  | .drawn => if here.trans ≤ 1 then 4 else 9
  | .inFlight => if here.trans ≤ 1 then 3 else 8
  | .completed => if here.trans ≤ 1 then 2 else 7
  | .left => 1

def BwContext.weight (workers number : Nat) (here : BwContext) : Nat :=
  here.effort workers number + if here.startSig = [] then 0 else 20 * (workers + 2 - number)

/-- What starting the counter adds at most: the tickets and the start ping. -/
def startWeight (workers : Nat) : Nat :=
  10 * pciebenchJournalSz + 20 * (workers + 1)

namespace IslandState

variable {workers : Nat}

def mainWeight (state : IslandState workers) : Nat :=
  match state.main with
  | .polling => if 0 < state.testCtrl then startWeight workers + 12 else 0
  | .copyingParams index => startWeight workers + (paramWordCount - index) + 6
  | .passing => startWeight workers + 5
  | .arming => startWeight workers + 4
  | .starting => 20 * (workers + 1) + 3
  | .waiting => 2
  | .publishing _ => 1

def hostWeight (state : IslandState workers) : Nat :=
  state.todo.length * (startWeight workers + 20) +
    match state.host with
    | .idle => 0
    | .settingParams _ index => (paramWordCount - index) + startWeight workers + 14
    | .polling _ => 1

def workersWeight (state : IslandState workers) : Nat :=
  Pool.total (fun member : Nat × BwContext => member.2.weight workers member.1)
    fun ctx => (contextNumber ctx, state.worker ctx)

def weight (state : IslandState workers) : Nat :=
  state.hostWeight + state.mainWeight + 10 * state.numDmaTrans + state.workersWeight

end IslandState

end Weight

section Falls

variable {workers : Nat} {state next : IslandState workers} {ctx : Fin workers}

theorem workersWeight_set {after : BwContext}
    (worker : next.worker = Function.update state.worker ctx after) :
    (state.worker ctx).weight workers (contextNumber ctx) + next.workersWeight =
      after.weight workers (contextNumber ctx) + state.workersWeight := by
  have crowd : (fun other => (contextNumber other, next.worker other)) =
      Function.update (fun other => (contextNumber other, state.worker other)) ctx
        (contextNumber ctx, after) := by
    funext other
    by_cases same : other = ctx
    · subst same
      simp [worker]
    · simp [worker, same]
  rw [IslandState.workersWeight, IslandState.workersWeight, crowd]
  exact Pool.total_update (fun member : Nat × BwContext => member.2.weight workers member.1)
    (fun other => (contextNumber other, state.worker other)) ctx (contextNumber ctx, after)

theorem workersWeight_same (worker : next.worker = state.worker) :
    next.workersWeight = state.workersWeight := by
  rw [IslandState.workersWeight, worker]
  rfl

theorem weight_signalled (workers number : Nat) (here : BwContext) (sig : List Nat) :
    BwContext.weight workers number { here with startSig := sig } ≤
      here.weight workers number + 20 * (workers + 2 - number) := by
  have effort : BwContext.effort workers number { here with startSig := sig } =
      here.effort workers number := rfl
  rw [BwContext.weight, BwContext.weight, effort]
  split
  · omega
  · omega

theorem workersWeight_send (run : Nat) (ping : BwPing) :
    (state.sendPing run ping).workersWeight ≤
      state.workersWeight + 20 * (workers + 2 - ping.target) := by
  by_cases found : ∃ ctx : Fin workers, contextNumber ctx = ping.target
  · obtain ⟨ctx, target⟩ := found
    let after : BwContext :=
      { state.worker ctx with startSig := (state.worker ctx).startSig ++ [run] }
    have worker : (state.sendPing run ping).worker = Function.update state.worker ctx after := by
      funext other
      by_cases same : other = ctx
      · subst same
        simp [sendPing, target, after]
      · have apart : contextNumber other ≠ ping.target := by
          intro reached
          exact same (Fin.ext (Nat.succ_injective (reached.trans target.symm)))
        simp [sendPing, apart, same]
    have exchanged := workersWeight_set worker
    have heavier : after.weight workers (contextNumber ctx) ≤
        (state.worker ctx).weight workers (contextNumber ctx) +
          20 * (workers + 2 - contextNumber ctx) := weight_signalled _ _ _ _
    rw [← target]
    omega
  · have worker : (state.sendPing run ping).worker = state.worker := by
      funext other
      have apart : contextNumber other ≠ ping.target := fun reached => found ⟨other, reached⟩
      simp [sendPing, apart]
    rw [workersWeight_same worker]
    exact Nat.le_add_right _ _

theorem host_falls (turns : state.TakesTurns) (move : HostMove state next) :
    next.weight < state.weight := by
  cases move with
  | begin request rest host todo =>
      simp only [IslandState.weight, IslandState.hostWeight, IslandState.mainWeight,
        IslandState.workersWeight, host, todo, List.length_cons, Nat.succ_mul]
      have count : paramWordCount = 5 := rfl
      omega
  | setParam request index host more =>
      simp only [IslandState.weight, IslandState.hostWeight, IslandState.mainWeight,
        IslandState.workersWeight, host]
      omega
  | setCtrl request index host all =>
      simp only [TakesTurns, host] at turns
      simp only [IslandState.weight, IslandState.hostWeight, IslandState.mainWeight,
        IslandState.workersWeight, host, turns.1.2, request.test.ctrl_pos, if_true,
        Int.not_lt.mpr turns.1.1, if_false]
      omega
  | finish request host settled =>
      simp only [IslandState.weight, IslandState.hostWeight, IslandState.mainWeight,
        IslandState.workersWeight, host]
      omega

theorem bwMaxTrans_le (flags : UInt32) : bwMaxTrans flags ≤ pciebenchJournalSz := by
  unfold bwMaxTrans
  split <;> decide

theorem main_falls (turns : state.TakesTurns) (move : MainMove island state next) :
    next.weight < state.weight := by
  cases move with
  | wake main positive =>
      simp only [IslandState.weight, IslandState.hostWeight, IslandState.mainWeight,
        IslandState.workersWeight, main, positive, if_true]
      have count : paramWordCount = 5 := rfl
      omega
  | copyParam index main more =>
      simp only [IslandState.weight, IslandState.hostWeight, IslandState.mainWeight,
        IslandState.workersWeight, main]
      omega
  | «switch» index main all =>
      simp only [IslandState.weight, IslandState.hostWeight, IslandState.mainWeight,
        IslandState.workersWeight, main]
      omega
  | refuse main refused | accept main accepted =>
      simp only [IslandState.weight, IslandState.hostWeight, IslandState.mainWeight,
        IslandState.workersWeight, main]
      omega
  | arm main returned =>
      have tickets := bwMaxTrans_le (state.regs 0).args.p0
      simp only [IslandState.weight, IslandState.hostWeight, IslandState.mainWeight,
        IslandState.workersWeight, main, startWeight]
      omega
  | start main =>
      have heavier := @workersWeight_send _ state state.run ⟨0, 1⟩
      have kept : ({ state.sendPing state.run ⟨0, 1⟩ with main := .waiting } :
          IslandState workers).workersWeight =
          (state.sendPing state.run ⟨0, 1⟩).workersWeight := rfl
      simp only [IslandState.weight, IslandState.hostWeight, IslandState.mainWeight, main, kept]
      simp only [sendPing] at heavier ⊢
      omega
  | finish main signalled =>
      simp only [IslandState.weight, IslandState.hostWeight, IslandState.mainWeight,
        IslandState.workersWeight, main]
      omega
  | publish res main =>
      obtain ⟨request, _, _, _, progress⟩ := takesTurns_busy turns (by simp [main])
      simp only [MainAt, main] at progress
      simp only [IslandState.weight, IslandState.hostWeight, IslandState.mainWeight,
        IslandState.workersWeight, main, Int.not_lt.mpr progress, if_false]
      omega

theorem context_falls {after : BwContext} {more : Nat}
    (worker : next.worker = Function.update state.worker ctx after)
    (lighter : after.weight workers (contextNumber ctx) + more <
      (state.worker ctx).weight workers (contextNumber ctx)) :
    next.workersWeight + more < state.workersWeight := by
  have exchanged := workersWeight_set worker
  omega

end Falls

section Work

variable {chip : Chip} {island : Island chip} {state next : IslandState (workerCount chip)}
  {ctx : Fin (workerCount chip)}

theorem work_falls (move : WorkMove island state ctx next) : next.weight < state.weight := by
  obtain ⟨testCtrl, _, host, todo, main, _, _⟩ := move.frame
  have bound := (contextNumber_le ctx).1
  have hostSame : next.hostWeight = state.hostWeight := by
    rw [IslandState.hostWeight, IslandState.hostWeight, host, todo]
  have mainSame : next.mainWeight = state.mainWeight := by
    rw [IslandState.mainWeight, IslandState.mainWeight, main, testCtrl]
  -- all but the contexts and the counter stays
  have falls (less : next.workersWeight + 10 * next.numDmaTrans <
      state.workersWeight + 10 * state.numDmaTrans) : next.weight < state.weight := by
    rw [IslandState.weight, IslandState.weight, hostSame, mainSame]
    omega
  have steps {after : BwContext} (worker : next.worker = Function.update state.worker ctx after)
      (sig : after.startSig = (state.worker ctx).startSig)
      (effort : after.effort (workerCount chip) (contextNumber ctx) <
        (state.worker ctx).effort (workerCount chip) (contextNumber ctx)) :
      next.workersWeight < state.workersWeight := by
    refine @context_falls _ state next ctx after 0 worker ?_
    simp only [BwContext.weight, sig]
    omega
  cases move with
  | join pc signalled =>
      refine falls (Nat.add_lt_add_right (@context_falls _ state _ ctx _ 0 rfl ?_) _)
      by_cases head : contextNumber ctx % 8 = 0
      · simp only [BwContext.weight, BwContext.effort, pc, signalled, head, if_true, if_false]
        omega
      · simp only [BwContext.weight, BwContext.effort, pc, signalled, head, if_true, if_false]
        omega
  | fetchTest pc =>
      refine falls (Nat.add_lt_add_right (steps rfl rfl ?_) _)
      simp only [BwContext.effort, pc]
      have count : paramWordCount = 5 := rfl
      omega
  | fetchParam index pc more | fetched index pc all =>
      refine falls (Nat.add_lt_add_right (steps rfl rfl ?_) _)
      simp only [BwContext.effort, pc]
      omega
  | ping target pc found =>
      have after := pingTarget_next island bound found
      let up := state.setWorker ctx { state.worker ctx with pc := .settingUp }
      have lighter : up.workersWeight + 20 * (workerCount chip + 1 - contextNumber ctx) <
          state.workersWeight := by
        refine context_falls rfl ?_
        simp only [BwContext.weight, BwContext.effort, pc]
        omega
      have heavier := @workersWeight_send _ up (state.worker ctx).joined ⟨contextNumber ctx, target⟩
      refine falls (Nat.add_lt_add_right (heavier.trans_lt ?_) _)
      simp only [after]
      omega
  | last pc nobody | setUp pc =>
      refine falls (Nat.add_lt_add_right (steps rfl rfl ?_) _)
      simp only [BwContext.effort, pc]
      omega
  | draw pc =>
      refine falls ?_
      let drawn : BwContext := { state.worker ctx with pc := .drawn, trans := state.numDmaTrans }
      have exchanged : (state.worker ctx).weight (workerCount chip) (contextNumber ctx) +
          (state.setWorker ctx drawn).workersWeight =
          drawn.weight (workerCount chip) (contextNumber ctx) + state.workersWeight :=
        workersWeight_set rfl
      have less : (state.setWorker ctx drawn).workersWeight + 10 * (state.numDmaTrans - 1) <
          state.workersWeight + 10 * state.numDmaTrans := by
        by_cases final : state.numDmaTrans ≤ 1
        · have lighter : drawn.weight (workerCount chip) (contextNumber ctx) + 2 =
              (state.worker ctx).weight (workerCount chip) (contextNumber ctx) := by
            simp only [drawn, BwContext.weight, BwContext.effort, pc, final, if_true]
            omega
          omega
        · have heavier : drawn.weight (workerCount chip) (contextNumber ctx) =
              (state.worker ctx).weight (workerCount chip) (contextNumber ctx) + 3 := by
            simp only [drawn, BwContext.weight, BwContext.effort, pc, final, if_false]
            omega
          omega
      exact less
  | issue pc | complete pc =>
      refine falls (Nat.add_lt_add_right (steps rfl rfl ?_) _)
      simp only [BwContext.effort, pc]
      split <;> omega
  | check pc =>
      refine falls (Nat.add_lt_add_right (steps rfl rfl ?_) _)
      by_cases last : (state.worker ctx).trans ≤ 1
      · simp [BwContext.effort, pc, last]
      · simp [BwContext.effort, pc, last]
  | leave pc =>
      refine falls (Nat.add_lt_add_right (steps rfl rfl ?_) _)
      simp [BwContext.effort, pc]

end Work

/-- Nobody can go on, the master in its set-up included. -/
structure IslandState.Stuck {chip : Chip} (island : Island chip)
    (state : IslandState (workerCount chip)) : Prop where
  none : ∀ action, islandStep island state action = none
  setUp : state.main ≠ .arming

namespace BwContext

/-- The context will draw another ticket. -/
def Active (here : BwContext) : Prop :=
  here.startSig ≠ [] ∨ here.pc.preparing = true ∨ here.pc = .looping ∨
    (here.pc.finishing = true ∧ here.pc ≠ .left ∧ 2 ≤ here.trans)

/-- The context has drawn the ticket after which it signals the master. -/
def Signals (here : BwContext) : Prop :=
  here.pc.finishing = true ∧ here.trans = 1

end BwContext

/-- What the master waits for is on its way. -/
structure IslandState.Awaits {workers : Nat} (state : IslandState workers) : Prop where
  starting : state.main = .starting →
    state.mainSig = true ∨ (∃ ctx, (state.worker ctx).Signals) ∨ 1 ≤ state.numDmaTrans
  waiting : state.main = .waiting →
    state.mainSig = true ∨ (∃ ctx, (state.worker ctx).Signals) ∨
      (1 ≤ state.numDmaTrans ∧ ∃ ctx, (state.worker ctx).Active)

section Awaits

variable {chip : Chip} {island : Island chip} {state next : IslandState (workerCount chip)}
  {ctx : Fin (workerCount chip)} {requests : List BwRequest}

theorem awaits_main (awaits : state.Awaits) (move : MainMove island state next) : next.Awaits := by
  cases move with
  | arm main returned =>
      refine ⟨fun _ => .inr (.inr (Nat.one_le_of_lt (several_tickets _))), ?_⟩
      intro waiting
      cases waiting
  | start main =>
      refine ⟨by simp, ?_⟩
      intro _
      rcases awaits.starting main with signalled | ⟨ctx, signals⟩ | tickets
      · exact .inl signalled
      · obtain ⟨more, kept⟩ := sendPing_worker state.run ⟨0, 1⟩ ctx
        have still : ((state.sendPing state.run ⟨0, 1⟩).worker ctx).Signals := kept ▸ signals
        exact .inr (.inl ⟨ctx, still⟩)
      · refine .inr (.inr ⟨tickets, context0 chip, .inl ?_⟩)
        simp [sendPing]
  | wake main positive | copyParam index main more | «switch» index main all | refuse main refused
  | accept main accepted | finish main signalled | publish res main =>
      exact ⟨by simp, by simp⟩

theorem mainSig_work (move : WorkMove island state ctx next) (signalled : state.mainSig = true) :
    next.mainSig = true := by
  cases move with
  | leave pc =>
      simp only [signalled]
      split <;> rfl
  | _ => exact signalled

theorem signals_work {other : Fin (workerCount chip)} (signals : (state.worker other).Signals)
    (move : WorkMove island state ctx next) :
    next.mainSig = true ∨ ∃ other, (next.worker other).Signals := by
  by_cases same : other = ctx
  · subst same
    obtain ⟨finishing, one⟩ := signals
    cases move with
    | leave pc => exact .inl (by simp [one])
    | issue pc | complete pc =>
        refine .inr ⟨other, ?_⟩
        simp only [setWorker, Function.update_self]
        exact ⟨rfl, one⟩
    | check pc =>
        refine .inr ⟨other, ?_⟩
        simp only [setWorker, Function.update_self, one, le_refl, if_true]
        exact ⟨rfl, rfl⟩
    | join pc signalled | fetchTest pc | fetchParam index pc more | fetched index pc all
    | ping target pc found | last pc nobody | setUp pc | draw pc =>
        rw [pc] at finishing
        contradiction
  · obtain ⟨more, kept⟩ := move.others same
    exact .inr ⟨other, kept ▸ signals⟩

theorem tickets_work (tickets : 1 ≤ state.numDmaTrans) (move : WorkMove island state ctx next) :
    (∃ other, (next.worker other).Signals) ∨ 1 ≤ next.numDmaTrans := by
  cases move with
  | draw pc =>
      by_cases last : state.numDmaTrans = 1
      · refine .inl ⟨ctx, ?_⟩
        simp only [setWorker, Function.update_self]
        exact ⟨rfl, last⟩
      · exact .inr (by simp only; omega)
  | _ => exact .inr tickets

theorem active_work {other : Fin (workerCount chip)} (tickets : 1 ≤ state.numDmaTrans)
    (active : (state.worker other).Active) (move : WorkMove island state ctx next) :
    (∃ other, (next.worker other).Signals) ∨ (next.worker other).Active := by
  by_cases same : other = ctx
  · subst same
    have signalled (left : (next.worker other).startSig = (state.worker other).startSig)
        (quiet : ¬ ((state.worker other).pc.preparing = true ∨ (state.worker other).pc = .looping ∨
          ((state.worker other).pc.finishing = true ∧ (state.worker other).pc ≠ .left ∧
            2 ≤ (state.worker other).trans))) : (next.worker other).Active := by
      rcases active with some' | busy
      · exact .inl (left ▸ some')
      · exact absurd busy quiet
    cases move with
    | join pc signalled =>
        refine .inr (.inr (.inl ?_))
        simp only [setWorker, Function.update_self]
        split <;> rfl
    | fetchTest pc | fetchParam index pc more | fetched index pc all | last pc nobody =>
        exact .inr (.inr (.inl (by simp [setWorker, ContextPc.preparing])))
    | ping target pc found =>
        exact .inr (.inr (.inl (by simp [setWorker, ContextPc.preparing])))
    | setUp pc => exact .inr (.inr (.inr (.inl (by simp [setWorker]))))
    | draw pc =>
        by_cases last : state.numDmaTrans = 1
        · refine .inl ⟨other, ?_⟩
          simp only [setWorker, Function.update_self]
          exact ⟨rfl, last⟩
        · refine .inr (.inr (.inr (.inr ?_)))
          simp only [setWorker, Function.update_self]
          exact ⟨rfl, by simp, by omega⟩
    | issue pc | complete pc =>
        by_cases several : 2 ≤ (state.worker other).trans
        · refine .inr (.inr (.inr (.inr ?_)))
          simp only [setWorker, Function.update_self]
          exact ⟨rfl, by simp, several⟩
        · refine .inr (signalled (by simp [setWorker]) ?_)
          simp [pc, several, ContextPc.preparing]
    | check pc =>
        by_cases several : 2 ≤ (state.worker other).trans
        · refine .inr (.inr (.inr (.inl ?_)))
          have again : ¬ (state.worker other).trans ≤ 1 := by omega
          simp only [setWorker, Function.update_self, again, if_false]
        · refine .inr (signalled (by simp [setWorker]) ?_)
          simp [pc, several, ContextPc.preparing]
    | leave pc =>
        refine .inr (signalled (by simp [setWorker]) ?_)
        simp [pc, ContextPc.preparing]
  · obtain ⟨more, kept⟩ := move.others same
    refine .inr ?_
    rw [kept]
    rcases active with some' | busy
    · exact .inl (List.append_ne_nil_of_left_ne_nil some' _)
    · exact .inr busy

theorem awaits_work (awaits : state.Awaits) (move : WorkMove island state ctx next) :
    next.Awaits := by
  have main := move.frame.2.2.2.2.1
  constructor
  · intro starting
    rcases awaits.starting (main ▸ starting) with signalled | ⟨other, signals⟩ | tickets
    · exact .inl (mainSig_work move signalled)
    · exact (signals_work signals move).imp id .inl
    · exact .inr (tickets_work tickets move)
  · intro waiting
    rcases awaits.waiting (main ▸ waiting) with signalled | ⟨other, signals⟩ |
      ⟨tickets, other, active⟩
    · exact .inl (mainSig_work move signalled)
    · exact (signals_work signals move).imp id .inl
    · rcases tickets_work tickets move with signals | tickets'
      · exact .inr (.inl signals)
      · rcases active_work tickets active move with signals | active'
        · exact .inr (.inl signals)
        · exact .inr (.inr ⟨tickets', other, active'⟩)

theorem awaits_step {action : IslandAction (workerCount chip)} (awaits : state.Awaits)
    (moved : islandStep island state action = some next) : next.Awaits := by
  rcases islandStep_moves moved with ⟨_, move⟩ | ⟨_, move⟩ | ⟨ctx, _, move⟩
  · cases move <;> exact ⟨awaits.starting, awaits.waiting⟩
  · exact awaits_main awaits move
  · exact awaits_work awaits move

theorem awaits_reachable (reached : IslandReachable island requests state) : state.Awaits := by
  refine reached.invariant ⟨nofun, nofun⟩ ?_
  intro _ _ _ _ awaits _ moved
  exact awaits_step awaits moved

theorem island_falls {action : IslandAction (workerCount chip)} (inTurn : state.InTurn)
    (moved : islandStep island state action = some next) : next.weight < state.weight := by
  rcases islandStep_moves moved with ⟨_, move⟩ | ⟨_, move⟩ | ⟨ctx, _, move⟩
  · exact host_falls inTurn.turns move
  · exact main_falls inTurn.turns move
  · exact work_falls move

end Awaits

section Stuck

variable {chip : Chip} {island : Island chip} {state next : IslandState (workerCount chip)}
  {ctx : Fin (workerCount chip)} {requests : List BwRequest}

theorem stuck_context (stuck : state.Stuck island) (ctx : Fin (workerCount chip)) :
    (state.worker ctx).pc = .waiting ∧ (state.worker ctx).startSig = [] := by
  have waiting : (state.worker ctx).pc = .waiting := by
    by_contra busy
    obtain ⟨action, next, moved, _⟩ := exists_workMove island busy
    rw [stuck.none action] at moved
    contradiction
  refine ⟨waiting, ?_⟩
  by_contra signalled
  have none := stuck.none (.work ctx)
  simp only [islandStep, workStep, waiting, signalled, if_false] at none
  contradiction

theorem not_stuck_waiting (awaits : state.Awaits) (main : state.main = .waiting) :
    ¬ state.Stuck island := by
  intro stuck
  rcases awaits.waiting main with signalled | ⟨other, signals⟩ | ⟨_, other, active⟩
  · have finishes := stuck.none .main
    simp only [islandStep, mainStep, main, signalled, if_true] at finishes
    contradiction
  · have finishing := signals.1
    rw [(stuck_context stuck other).1] at finishing
    contradiction
  · obtain ⟨waiting, unsignalled⟩ := stuck_context stuck other
    rcases active with signalled | preparing | looping | ⟨finishing, _⟩
    · exact signalled unsignalled
    all_goals simp_all [ContextPc.preparing, ContextPc.finishing]

theorem stuck_not_begun (stuck : state.Stuck island) (turns : state.TakesTurns) :
    ¬ state.Begun := by
  have host := stuck.none .host
  have main := stuck.none .main
  simp only [islandStep] at host main
  rintro (⟨other, index, writing⟩ | ⟨polling, posted⟩ | ⟨index, copying⟩ | passing | arming)
  · simp only [hostStep, writing] at host
    split at host <;> contradiction
  · simp only [mainStep, polling, posted, if_true] at main
    contradiction
  · obtain ⟨other, _, serving⟩ := takesTurns_busy turns (by simp [copying])
    have bw := switchTest_bw other
    rw [← serving.1] at bw
    simp only [mainStep, copying, bw] at main
    split at main <;> contradiction
  · simp only [mainStep, passing] at main
    contradiction
  · exact stuck.setUp arming

structure IslandState.Answered (state : IslandState (workerCount chip)) : Prop where
  host : state.host = .idle
  todo : state.todo = []
  main : state.main = .polling
  testCtrl : state.testCtrl ≤ 0

theorem answered_stuck (stuck : state.Stuck island) (turns : state.TakesTurns)
    (awaits : state.Awaits) : state.Answered := by
  have notBegun := stuck_not_begun stuck turns
  have host := stuck.none .host
  have main := stuck.none .main
  simp only [islandStep] at host main
  have resting : state.Resting := by
    rcases takesTurns_serving turns with resting | ⟨request, _, serving⟩
    · exact resting
    · have posted : 0 < state.testCtrl := serving.1 ▸ request.test.ctrl_pos
      cases pc : state.main with
      | polling => exact absurd (.inr (.inl ⟨pc, posted⟩)) notBegun
      | copyingParams index => exact absurd (.inr (.inr (.inl ⟨index, pc⟩))) notBegun
      | passing => exact absurd (.inr (.inr (.inr (.inl pc)))) notBegun
      | arming => exact absurd (.inr (.inr (.inr (.inr pc)))) notBegun
      | waiting => exact absurd stuck (not_stuck_waiting awaits pc)
      | starting | publishing res =>
          simp only [mainStep, pc] at main
          contradiction
  have idle : state.host = .idle := by
    cases pc : state.host with
    | idle => rfl
    | settingParams request index => exact absurd (.inl ⟨request, index, pc⟩) notBegun
    | polling request =>
        simp only [hostStep, pc, resting.1, if_true] at host
        contradiction
  refine ⟨idle, ?_, resting.2, resting.1⟩
  cases todo : state.todo with
  | nil => rfl
  | cons request rest =>
      simp only [hostStep, idle, todo] at host
      contradiction

structure IslandState.Moving (state : IslandState (workerCount chip)) : Prop where
  inTurn : state.InTurn
  awaits : state.Awaits

theorem moving_reachable (reached : IslandReachable island requests state) : state.Moving :=
  ⟨inTurn_reached reached, awaits_reachable reached⟩

theorem moving_step {action : IslandAction (workerCount chip)} (moving : state.Moving)
    (moved : islandStep island state action = some next) : next.Moving :=
  ⟨inTurn_step moving.inTurn moved, awaits_step moving.awaits moved⟩

/-- The set-up that the master may be in returns. -/
def IslandState.SetUpReturns {chip : Chip} (island : Island chip)
    (state : IslandState (workerCount chip)) : Prop :=
  state.main = .arming → island.setUpReturns state.run (state.regs 0).args = true

theorem exists_step (returns : state.SetUpReturns island) (unstuck : ¬ state.Stuck island) :
    ∃ action next, islandStep island state action = some next := by
  by_cases main : state.main = .arming
  · refine ⟨.main, ?_⟩
    simp [islandStep, mainStep, main, returns main]
  · by_contra none
    push Not at none
    exact unstuck ⟨fun action => Option.eq_none_iff_forall_ne_some.mpr (none action), main⟩

/-- Every run of the island comes to an end, with all requests answered, if the set-ups
return. -/
theorem island_answers (returns : island.SetUpsReturn requests)
    (reached : IslandReachable island requests state) :
    Inevitable (islandStep island) (fun last => last.Stuck island ∧ last.Answered) state := by
  refine Inevitable.of_measure IslandState.weight ?_ ?_
    reached
  · intro before action after run _ moved
    exact ⟨run.step trivial moved, island_falls (inTurn_reached run) moved⟩
  · intro before run unfinished
    refine exists_step (setUp_returns returns run) fun stuck => unfinished ⟨stuck, ?_⟩
    exact answered_stuck stuck (inTurn_reached run).turns (awaits_reachable run)

/-- From the start of the counter to the end of the wait. -/
def BwMainPc.measuring : BwMainPc → Prop
  | arming | starting | waiting => True
  | publishing res => res = 0
  | _ => False

structure IslandState.Measuring {chip : Chip} (island : Island chip)
    (state : IslandState (workerCount chip)) : Prop extends IslandState.Moving state where
  measuring : state.main.measuring
  returns : state.SetUpReturns island

theorem measuring_step {action : IslandAction (workerCount chip)}
    (measuring : state.main.measuring) (unfinished : state.main ≠ .publishing 0)
    (moved : islandStep island state action = some next) : next.main.measuring := by
  rcases islandStep_moves moved with ⟨_, move⟩ | ⟨_, move⟩ | ⟨ctx, _, move⟩
  · cases move <;> exact measuring
  · cases move with
    | arm main returned | start main => trivial
    | finish main signalled => rfl
    | publish res main =>
        rw [main] at measuring unfinished
        exact absurd (congrArg BwMainPc.publishing measuring) unfinished
    | wake main positive | copyParam index main more | «switch» index main all
    | refuse main refused | accept main accepted =>
        rw [main] at measuring
        exact absurd measuring id
  · rw [move.frame.2.2.2.2.1]
    exact measuring

theorem setUpReturns_step {action : IslandAction (workerCount chip)}
    (returns : state.SetUpReturns island) (heads : state.FetchesAtHead)
    (measuring : state.main.measuring) (moved : islandStep island state action = some next) :
    next.SetUpReturns island := by
  rcases islandStep_moves moved with ⟨_, move⟩ | ⟨_, move⟩ | ⟨ctx, _, move⟩
  · cases move <;> exact returns
  · intro arming
    cases move with
    | accept main accepted =>
        rw [main] at measuring
        exact absurd measuring id
    | wake main positive | copyParam index main more | «switch» index main all
    | refuse main refused | arm main returned | start main | finish main signalled
    | publish res main => cases arming
  · obtain ⟨_, _, _, _, main, _, armed⟩ := move.frame
    simpa only [IslandState.SetUpReturns, IslandState.run, main, armed, move.regs_zero heads]
      using returns

/-- The wait of `dma_bw` ends in every run, whatever the workers still have to do for earlier
requests, if its set-up returns. -/
theorem bwWait_ends (reached : IslandReachable island requests state)
    (main : state.main = .arming)
    (returns : island.setUpReturns state.run (state.regs 0).args = true) :
    Inevitable (islandStep island) (fun after => after.main = .publishing 0) state := by
  have start : state.Measuring island :=
    ⟨moving_reachable reached, by rw [main]; trivial, fun _ => returns⟩
  refine Inevitable.of_measure IslandState.weight ?_ ?_ start
  · intro before action after run unfinished moved
    exact ⟨⟨moving_step run.toMoving moved, measuring_step run.measuring unfinished moved,
      setUpReturns_step run.returns run.inTurn.heads run.measuring moved⟩,
      island_falls run.inTurn moved⟩
  · intro before run unfinished
    refine exists_step run.returns fun stuck => ?_
    have measuring := run.measuring
    have idle := stuck.none .main
    simp only [islandStep] at idle
    cases pc : before.main with
    | arming => exact stuck.setUp pc
    | starting =>
        simp only [mainStep, pc] at idle
        contradiction
    | waiting => exact not_stuck_waiting run.awaits pc stuck
    | publishing res =>
        rw [pc] at measuring unfinished
        exact unfinished (congrArg BwMainPc.publishing measuring)
    | polling | copyingParams index | passing =>
        rw [pc] at measuring
        exact measuring

end Stuck

end Pciebench
