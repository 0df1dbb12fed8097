import Mathlib
import Pciebench.BwWorkers

/-!
What holds in every state of a bandwidth run: where the workers can stand and how the start
signal travels along them, where each ticket drawn is, and how often the master is signalled.
-/

namespace Pciebench

open Machine BwState

/-- The states of a worker in a run in which it is woken at most once. -/
inductive WorkerShape (completed : List Nat) : Worker → Prop
  | unwoken (sig : Bool) : WorkerShape completed ⟨.waiting, none, sig⟩
  | woken : WorkerShape completed ⟨.woken, none, false⟩
  | started : WorkerShape completed ⟨.looping, none, false⟩
  | again (ticket : Nat) : 2 ≤ ticket → ticket ∈ completed →
      WorkerShape completed ⟨.looping, some ticket, false⟩
  | drawn (ticket : Nat) : WorkerShape completed ⟨.drawn, some ticket, false⟩
  | inFlight (ticket : Nat) : WorkerShape completed ⟨.inFlight, some ticket, false⟩
  | completed (ticket : Nat) : ticket ∈ completed →
      WorkerShape completed ⟨.completed, some ticket, false⟩
  | left (ticket : Nat) : ticket ≤ 1 → ticket ∈ completed →
      WorkerShape completed ⟨.left, some ticket, false⟩
  | back (ticket : Nat) : ticket ≤ 1 → ticket ∈ completed →
      WorkerShape completed ⟨.waiting, some ticket, false⟩

theorem WorkerShape.mono {before after : List Nat} {worker : Worker}
    (shape : WorkerShape before worker) (grows : before ⊆ after) : WorkerShape after worker := by
  cases shape with
  | unwoken sig => exact .unwoken sig
  | woken => exact .woken
  | started => exact .started
  | again ticket more done => exact .again ticket more (grows done)
  | drawn ticket => exact .drawn ticket
  | inFlight ticket => exact .inFlight ticket
  | completed ticket done => exact .completed ticket (grows done)
  | left ticket last done => exact .left ticket last (grows done)
  | back ticket last done => exact .back ticket last (grows done)

def Worker.unpinged (worker : Worker) : Prop :=
  worker.pc = .woken ∨ (worker.pc = .waiting ∧ worker.trans = none)

structure Staffed {workers : Nat} (state : BwState workers) : Prop where
  shape : ∀ ctx, WorkerShape state.completed (state.worker ctx)
  chain : ∀ ctx later, ctx < later → (state.worker ctx).unpinged →
    state.worker later = Worker.fresh
  quiet : state.master = .setup ∨ state.master = .armed → ∀ ctx, state.worker ctx = Worker.fresh

section Chain

variable {workers : Nat} {before after : BwState workers} {ctx : Fin workers} {next : Worker}

theorem Staffed.moved (staffed : Staffed before) (master : after.master = before.master)
    (grows : before.completed ⊆ after.completed)
    (others : after.worker = Function.update before.worker ctx next)
    (shape : WorkerShape after.completed next) (reached : before.worker ctx ≠ Worker.fresh)
    (unpinged : next.unpinged → (before.worker ctx).unpinged) : Staffed after := by
  refine ⟨?_, ?_, ?_⟩
  · intro other
    rw [others]
    by_cases same : other = ctx
    · subst same
      rw [Function.update_self]
      exact shape
    · rw [Function.update_of_ne same]
      exact (staffed.shape other).mono grows
  · intro first later order holding
    rw [others] at holding ⊢
    have holdingBefore : (before.worker first).unpinged := by
      by_cases same : first = ctx
      · subst same
        rw [Function.update_self] at holding
        exact unpinged holding
      · rwa [Function.update_of_ne same] at holding
    have laterFresh := staffed.chain first later order holdingBefore
    have different : later ≠ ctx := by
      rintro rfl
      exact reached laterFresh
    rw [Function.update_of_ne different]
    exact laterFresh
  · intro early
    rw [master] at early
    exact absurd (staffed.quiet early ctx) reached

theorem Staffed.advanced (staffed : Staffed before) (master : after.master = before.master)
    (grows : before.completed ⊆ after.completed)
    (others : after.worker = Function.update before.worker ctx next)
    (shape : WorkerShape after.completed next) (running : (before.worker ctx).pc ≠ .waiting)
    (pinged : ¬ next.unpinged) : Staffed after := by
  refine staffed.moved master grows others shape ?_ ?_
  · intro fresh
    rw [fresh] at running
    exact running rfl
  · intro unpinged
    exact absurd unpinged pinged

theorem Staffed.signalled (staffed : Staffed before) (target : Nat)
    (others : after.worker = (before.signalWorker target).worker)
    (completed : after.completed = before.completed)
    (running : after.master ≠ .setup ∧ after.master ≠ .armed)
    (passed : ∀ ctx : Fin workers, ctx.val < target → ¬ (before.worker ctx).unpinged)
    (ahead : ∀ ctx : Fin workers, target ≤ ctx.val → before.worker ctx = Worker.fresh) :
    Staffed after := by
  refine ⟨?_, ?_, ?_⟩
  · intro ctx
    rw [others, completed]
    simp only [signalWorker]
    split
    · rename_i reached
      rw [ahead ctx (Nat.le_of_eq reached.symm)]
      exact .unwoken true
    · exact staffed.shape ctx
  · intro first later order holding
    rw [others] at holding ⊢
    have position : first.val < later.val := order
    have reached : target ≤ first.val := by
      by_contra earlier
      have away : first.val ≠ target := by omega
      simp only [signalWorker, away, if_false] at holding
      exact passed first (by omega) holding
    have beyond : later.val ≠ target := by omega
    simp only [signalWorker, beyond, if_false]
    exact ahead later (by omega)
  · rintro (setup | armed)
    · exact absurd setup running.1
    · exact absurd armed running.2

theorem Staffed.pinged (staffed : Staffed before)
    (here : before.worker ctx = ⟨.woken, none, false⟩) :
    Staffed ((before.setWorker ctx ⟨.looping, none, false⟩).signalWorker (ctx.val + 1)) := by
  have notFresh : before.worker ctx ≠ Worker.fresh := by simp [here, Worker.fresh]
  have holding : (before.worker ctx).unpinged := by
    rw [here]
    exact .inl rfl
  have between : Staffed (before.setWorker ctx ⟨.looping, none, false⟩) := by
    refine staffed.moved rfl (List.Subset.refl _) rfl .started notFresh ?_
    intro _
    exact holding
  refine between.signalled (ctx.val + 1) rfl rfl ?_ ?_ ?_
  · constructor
    · intro setup
      exact notFresh (staffed.quiet (.inl setup) ctx)
    · intro armed
      exact notFresh (staffed.quiet (.inr armed) ctx)
  · intro earlier reached unpinged
    simp only [setWorker] at unpinged
    by_cases same : earlier = ctx
    · rw [same, Function.update_self] at unpinged
      simp [Worker.unpinged] at unpinged
    · rw [Function.update_of_ne same] at unpinged
      have order : earlier < ctx := by
        rw [Fin.lt_def]
        have apart := Fin.val_ne_of_ne same
        omega
      exact notFresh (staffed.chain earlier ctx order unpinged)
  · intro later beyond
    have order : ctx < later := Fin.lt_def.mpr beyond
    simp only [setWorker]
    rw [Function.update_of_ne (ne_of_gt order)]
    exact staffed.chain ctx later order holding

end Chain

section Steps

variable {config : BwConfig} {state next : BwState config.workers}
  {action : BwAction config.workers}

theorem staffed_step (staffed : Staffed state) (moved : bwStep config state action = some next) :
    Staffed next := by
  cases action with
  | arm =>
      obtain ⟨setup, rfl⟩ := bwStep_arm moved
      exact ⟨staffed.shape, staffed.chain, fun _ => staffed.quiet (.inl setup)⟩
  | start =>
      obtain ⟨armed, rfl⟩ := bwStep_start moved
      have fresh := staffed.quiet (.inr armed)
      refine staffed.signalled 0 rfl rfl ⟨nofun, nofun⟩ ?_ ?_
      · intro ctx early
        omega
      · intro ctx _
        exact fresh ctx
  | finish =>
      obtain ⟨waiting, _, rfl⟩ := bwStep_finish moved
      exact ⟨staffed.shape, staffed.chain, by rintro (setup | armed) <;> contradiction⟩
  | join ctx =>
      obtain ⟨held, here, rfl⟩ := bwStep_join moved
      have shape := staffed.shape ctx
      rw [here] at shape
      cases shape with
      | unwoken =>
          refine staffed.moved rfl (List.Subset.refl _) rfl .woken ?_ ?_
          · simp [here, Worker.fresh]
          · intro _
            rw [here]
            exact .inr ⟨rfl, rfl⟩
  | ping ctx =>
      obtain ⟨held, sig, here, rfl⟩ := bwStep_ping moved
      have shape := staffed.shape ctx
      rw [here] at shape
      cases shape with
      | woken => exact staffed.pinged here
  | draw ctx =>
      obtain ⟨held, sig, here, rfl⟩ := bwStep_draw moved
      have shape := staffed.shape ctx
      rw [here] at shape
      cases shape with
      | started | again =>
          refine staffed.advanced rfl (List.Subset.refl _) rfl (.drawn _) ?_ ?_
          · simp [here]
          · simp [Worker.unpinged]
  | enqueue ctx =>
      obtain ⟨ticket, sig, here, rfl⟩ := bwStep_enqueue moved
      have shape := staffed.shape ctx
      rw [here] at shape
      cases shape with
      | drawn =>
          refine staffed.advanced rfl (List.Subset.refl _) rfl (.inFlight _) ?_ ?_
          · simp [here]
          · simp [Worker.unpinged]
  | complete ctx =>
      obtain ⟨ticket, sig, here, rfl⟩ := bwStep_complete moved
      have shape := staffed.shape ctx
      rw [here] at shape
      cases shape with
      | inFlight =>
          have done : ticket ∈ state.completed ++ [ticket] := by simp
          refine staffed.advanced rfl (List.subset_append_left _ _) rfl (.completed _ done) ?_ ?_
          · simp [here]
          · simp [Worker.unpinged]
  | check ctx =>
      obtain ⟨ticket, sig, here, rfl⟩ := bwStep_check moved
      have shape := staffed.shape ctx
      rw [here] at shape
      cases shape with
      | completed _ done =>
          by_cases last : ticket ≤ 1
          · simp only [last, if_true]
            refine staffed.advanced rfl (List.Subset.refl _) rfl (.left _ last done) ?_ ?_
            · simp [here]
            · simp [Worker.unpinged]
          · simp only [last, if_false]
            have more : 2 ≤ ticket := by omega
            refine staffed.advanced rfl (List.Subset.refl _) rfl (.again _ more done) ?_ ?_
            · simp [here]
            · simp [Worker.unpinged]
  | leave ctx =>
      obtain ⟨ticket, sig, here, rfl⟩ := bwStep_leave moved
      have shape := staffed.shape ctx
      rw [here] at shape
      cases shape with
      | left _ last done =>
          refine staffed.advanced rfl (List.Subset.refl _) rfl (.back _ last done) ?_ ?_
          · simp [here]
          · simp [Worker.unpinged]

end Steps

theorem staffed_reachable {config : BwConfig} {stale : Nat} {state : BwState config.workers}
    (reachable : BwReachable config stale state) : Staffed state := by
  refine reachable.invariant ⟨?_, ?_, ?_⟩ fun _ _ _ _ staffed _ moved => staffed_step staffed moved
  · intro ctx
    exact .unwoken false
  · intro _ _ _ _
    rfl
  · intro _ _
    rfl

/-- The ticket a worker has drawn and not yet enqueued. -/
def Worker.pending : Worker → Multiset Nat
  | ⟨.drawn, some ticket, _⟩ => {ticket}
  | _ => 0

def Worker.flying : Worker → Multiset Nat
  | ⟨.inFlight, some ticket, _⟩ => {ticket}
  | _ => 0

def Worker.holds (ticket : Nat) (worker : Worker) : Nat :=
  if worker.trans = some ticket then 1 else 0

/-- Whether a worker has left the loop after the DMA of ticket 1. -/
def Worker.signaller (worker : Worker) : Nat :=
  if worker.pc = .waiting ∧ worker.trans = some 1 then 1 else 0

/-- The same tickets in the same hands, wherever the signals are. -/
structure Worker.Alike (first second : Worker) : Prop where
  pending : first.pending = second.pending
  flying : first.flying = second.flying
  held : first.trans = second.trans
  signaller : first.signaller = second.signaller

def BwState.tickets {workers : Nat} (state : BwState workers) : List Nat :=
  state.enqueued.map BwDma.ticket

structure Accounts (config : BwConfig) (state : BwState config.workers) : Prop where
  unstarted : state.master = .setup → state.drawn = []
  counter : state.master ≠ .setup →
    state.numDmaTrans = config.maxTrans - state.drawn.length
  order : state.drawn = Dispenser.draws config.maxTrans state.drawn.length
  issued : (state.drawn : Multiset Nat) =
    state.tickets + Pool.total Worker.pending state.worker
  flying : (state.tickets : Multiset Nat) =
    state.completed + Pool.total Worker.flying state.worker
  dmas : state.enqueued = state.tickets.map (bwDma config.test)
  last : ∀ ticket, ticket ≤ 1 →
    Pool.total (Worker.holds ticket) state.worker = state.drawn.count ticket
  signalled : state.signals = Pool.total Worker.signaller state.worker
  woken : state.masterSig = true ∨ state.master = .done → 1 ≤ state.signals
  reported : state.master = .done → state.r0 = some config.maxTrans

section Alike

variable {workers : Nat} {before after : Fin workers → Worker}

theorem Worker.Alike.refl (worker : Worker) : worker.Alike worker :=
  ⟨rfl, rfl, rfl, rfl⟩

theorem Worker.Alike.trans {first second third : Worker} (left : first.Alike second)
    (right : second.Alike third) : first.Alike third :=
  ⟨left.pending.trans right.pending, left.flying.trans right.flying,
    left.held.trans right.held, left.signaller.trans right.signaller⟩

theorem Worker.Alike.startSig (worker : Worker) (sig : Bool) :
    ({ worker with startSig := sig } : Worker).Alike worker := by
  obtain ⟨pc, trans, startSig⟩ := worker
  cases pc <;> cases trans <;> exact ⟨rfl, rfl, rfl, rfl⟩

theorem total_congr {M : Type} [AddCommMonoid M] (measure : Worker → M)
    (same : ∀ ctx, measure (after ctx) = measure (before ctx)) :
    Pool.total measure after = Pool.total measure before :=
  Finset.sum_congr rfl fun ctx _ => same ctx

theorem alike_update {ctx : Fin workers} {next : Worker} (alike : next.Alike (before ctx)) :
    ∀ other, (Function.update before ctx next other).Alike (before other) := by
  intro other
  by_cases same : other = ctx
  · subst same
    rw [Function.update_self]
    exact alike
  · rw [Function.update_of_ne same]
    exact Worker.Alike.refl _

theorem alike_signalWorker (state : BwState workers) (target : Nat) :
    ∀ ctx, ((state.signalWorker target).worker ctx).Alike (state.worker ctx) := by
  intro ctx
  simp only [signalWorker]
  split
  · exact Worker.Alike.startSig _ true
  · exact Worker.Alike.refl _

end Alike

section Steps

variable {config : BwConfig} {state next : BwState config.workers}
  {action : BwAction config.workers}

theorem Accounts.unmoved (accounts : Accounts config state)
    (alike : ∀ ctx, (next.worker ctx).Alike (state.worker ctx))
    (unstarted : next.master = .setup → state.master = .setup)
    (counter : next.master ≠ .setup →
      next.numDmaTrans = config.maxTrans - next.drawn.length)
    (drawn : next.drawn = state.drawn) (enqueued : next.enqueued = state.enqueued)
    (completed : next.completed = state.completed) (signals : next.signals = state.signals)
    (woken : next.masterSig = true ∨ next.master = .done → 1 ≤ next.signals)
    (reported : next.master = .done → next.r0 = some config.maxTrans) :
    Accounts config next := by
  have tickets : next.tickets = state.tickets := by rw [tickets, tickets, enqueued]
  refine ⟨?_, counter, ?_, ?_, ?_, ?_, ?_, ?_, woken, reported⟩
  · intro setup
    rw [drawn]
    exact accounts.unstarted (unstarted setup)
  · rw [drawn]
    exact accounts.order
  · rw [drawn, tickets, total_congr Worker.pending fun ctx => (alike ctx).pending]
    exact accounts.issued
  · rw [completed, tickets, total_congr Worker.flying fun ctx => (alike ctx).flying]
    exact accounts.flying
  · rw [enqueued, tickets]
    exact accounts.dmas
  · intro ticket small
    have holds : ∀ ctx, (next.worker ctx).holds ticket = (state.worker ctx).holds ticket := by
      intro ctx
      simp only [Worker.holds, (alike ctx).held]
    rw [drawn, total_congr (Worker.holds ticket) holds]
    exact accounts.last ticket small
  · rw [signals, total_congr Worker.signaller fun ctx => (alike ctx).signaller]
    exact accounts.signalled

theorem Accounts.draw {ctx : Fin config.workers} (accounts : Accounts config state)
    (staffed : Staffed state) (moved : bwStep config state (.draw ctx) = some next) :
    Accounts config next := by
  obtain ⟨held, sig, here, rfl⟩ := bwStep_draw moved
  have running : state.master ≠ .setup := by
    intro setup
    have fresh := staffed.quiet (.inl setup) ctx
    simp [here, Worker.fresh] at fresh
  have counter := accounts.counter running
  let after : Worker := ⟨.drawn, some state.numDmaTrans, sig⟩
  have pending : Pool.total Worker.pending (Function.update state.worker ctx after) =
      {state.numDmaTrans} + Pool.total Worker.pending state.worker :=
    Pool.total_update_gain _ _ (by rw [here]; rfl) rfl
  have flying : Pool.total Worker.flying (Function.update state.worker ctx after) =
      Pool.total Worker.flying state.worker :=
    Pool.total_update_same _ _ (by rw [here]; rfl)
  have signaller : Pool.total Worker.signaller (Function.update state.worker ctx after) =
      Pool.total Worker.signaller state.worker :=
    Pool.total_update_same _ _ (by rw [here]; rfl)
  refine ⟨fun setup => absurd setup running, ?_, ?_, ?_, ?_, accounts.dmas, ?_, ?_,
    accounts.woken, accounts.reported⟩
  · intro _
    simp only [List.length_append, List.length_singleton, counter]
    omega
  · simp only [List.length_append, List.length_singleton, Dispenser.draws_succ]
    rw [← accounts.order, ← counter]
  · calc ((state.drawn ++ [state.numDmaTrans] : List Nat) : Multiset Nat)
        = state.drawn + {state.numDmaTrans} := (Multiset.coe_add _ _).symm
      _ = state.tickets + Pool.total Worker.pending state.worker + {state.numDmaTrans} := by
          rw [accounts.issued]
      _ = state.tickets + Pool.total Worker.pending (Function.update state.worker ctx after) := by
          rw [pending, add_assoc, add_comm (Pool.total Worker.pending state.worker)]
  · exact accounts.flying.trans (congrArg _ flying.symm)
  · intro ticket small
    -- A worker that draws again last drew a ticket above 1.
    have spent : (state.worker ctx).holds ticket = 0 := by
      have shape := staffed.shape ctx
      rw [here] at shape ⊢
      cases shape with
      | started => rfl
      | again old more => exact if_neg (by simp only [Option.some.injEq]; omega)
    have holds : Pool.total (Worker.holds ticket) (Function.update state.worker ctx after) =
        after.holds ticket + Pool.total (Worker.holds ticket) state.worker :=
      Pool.total_update_gain _ _ spent rfl
    have drawnHere : after.holds ticket = [state.numDmaTrans].count ticket := by
      simp [after, Worker.holds, List.count_singleton]
    calc Pool.total (Worker.holds ticket) (Function.update state.worker ctx after)
        = [state.numDmaTrans].count ticket + state.drawn.count ticket := by
          rw [holds, drawnHere, accounts.last ticket small]
      _ = (state.drawn ++ [state.numDmaTrans]).count ticket := by
          rw [List.count_append, Nat.add_comm]
  · exact accounts.signalled.trans signaller.symm

theorem Accounts.enqueue {ctx : Fin config.workers} (accounts : Accounts config state)
    (moved : bwStep config state (.enqueue ctx) = some next) : Accounts config next := by
  obtain ⟨ticket, sig, here, rfl⟩ := bwStep_enqueue moved
  let after : Worker := ⟨.inFlight, some ticket, sig⟩
  have pending : {ticket} + Pool.total Worker.pending (Function.update state.worker ctx after) =
      Pool.total Worker.pending state.worker :=
    Pool.total_update_lose _ _ (by rw [here]; rfl) rfl
  have flying : Pool.total Worker.flying (Function.update state.worker ctx after) =
      {ticket} + Pool.total Worker.flying state.worker :=
    Pool.total_update_gain _ _ (by rw [here]; rfl) rfl
  have holds : ∀ last, Pool.total (Worker.holds last) (Function.update state.worker ctx after) =
      Pool.total (Worker.holds last) state.worker := by
    intro last
    exact Pool.total_update_same _ _ (by rw [here]; rfl)
  have signaller : Pool.total Worker.signaller (Function.update state.worker ctx after) =
      Pool.total Worker.signaller state.worker :=
    Pool.total_update_same _ _ (by rw [here]; rfl)
  have tickets : (state.enqueued ++ [bwDma config.test ticket]).map BwDma.ticket =
      state.tickets ++ [ticket] := by
    rw [List.map_append]
    rfl
  refine ⟨accounts.unstarted, accounts.counter, accounts.order, ?_, ?_, ?_, ?_, ?_, accounts.woken,
    accounts.reported⟩
  · calc (state.drawn : Multiset Nat)
        = state.tickets + Pool.total Worker.pending state.worker := accounts.issued
      _ = (state.tickets ++ [ticket] : List Nat) +
            Pool.total Worker.pending (Function.update state.worker ctx after) := by
          rw [← pending, ← Multiset.coe_add, add_assoc, Multiset.coe_singleton]
      _ = _ := by rw [← tickets]; rfl
  · calc _ = ((state.tickets ++ [ticket] : List Nat) : Multiset Nat) := congrArg _ tickets
      _ = state.completed + Pool.total Worker.flying state.worker + {ticket} := by
          rw [← Multiset.coe_add, accounts.flying, Multiset.coe_singleton]
      _ = state.completed +
            Pool.total Worker.flying (Function.update state.worker ctx after) := by
          rw [flying, add_assoc, add_comm (Pool.total Worker.flying state.worker)]
  · calc state.enqueued ++ [bwDma config.test ticket]
        = (state.tickets ++ [ticket]).map (bwDma config.test) := by
          rw [List.map_append, ← accounts.dmas, List.map_singleton]
      _ = _ := congrArg _ tickets.symm
  · exact fun last small => (holds last).trans (accounts.last last small)
  · exact accounts.signalled.trans signaller.symm

theorem Accounts.complete {ctx : Fin config.workers} (accounts : Accounts config state)
    (moved : bwStep config state (.complete ctx) = some next) : Accounts config next := by
  obtain ⟨ticket, sig, here, rfl⟩ := bwStep_complete moved
  let after : Worker := ⟨.completed, some ticket, sig⟩
  have pending : Pool.total Worker.pending (Function.update state.worker ctx after) =
      Pool.total Worker.pending state.worker :=
    Pool.total_update_same _ _ (by rw [here]; rfl)
  have flying : {ticket} + Pool.total Worker.flying (Function.update state.worker ctx after) =
      Pool.total Worker.flying state.worker :=
    Pool.total_update_lose _ _ (by rw [here]; rfl) rfl
  have holds : ∀ last, Pool.total (Worker.holds last) (Function.update state.worker ctx after) =
      Pool.total (Worker.holds last) state.worker := by
    intro last
    exact Pool.total_update_same _ _ (by rw [here]; rfl)
  have signaller : Pool.total Worker.signaller (Function.update state.worker ctx after) =
      Pool.total Worker.signaller state.worker :=
    Pool.total_update_same _ _ (by rw [here]; rfl)
  refine ⟨accounts.unstarted, accounts.counter, accounts.order, ?_, ?_, accounts.dmas, ?_, ?_,
    accounts.woken, accounts.reported⟩
  · exact accounts.issued.trans (congrArg _ pending.symm)
  · simp only [setWorker]
    rw [← Multiset.coe_add, add_assoc, Multiset.coe_singleton, flying]
    exact accounts.flying
  · exact fun last small => (holds last).trans (accounts.last last small)
  · exact accounts.signalled.trans signaller.symm

theorem Accounts.leave {ctx : Fin config.workers} (accounts : Accounts config state)
    (moved : bwStep config state (.leave ctx) = some next) : Accounts config next := by
  obtain ⟨ticket, sig, here, rfl⟩ := bwStep_leave moved
  let after : Worker := ⟨.waiting, some ticket, sig⟩
  have pending : Pool.total Worker.pending (Function.update state.worker ctx after) =
      Pool.total Worker.pending state.worker :=
    Pool.total_update_same _ _ (by rw [here]; rfl)
  have flying : Pool.total Worker.flying (Function.update state.worker ctx after) =
      Pool.total Worker.flying state.worker :=
    Pool.total_update_same _ _ (by rw [here]; rfl)
  have holds : ∀ last, Pool.total (Worker.holds last) (Function.update state.worker ctx after) =
      Pool.total (Worker.holds last) state.worker := by
    intro last
    exact Pool.total_update_same _ _ (by rw [here]; rfl)
  have signaller : Pool.total Worker.signaller (Function.update state.worker ctx after) =
      (if ticket = 1 then 1 else 0) + Pool.total Worker.signaller state.worker :=
    Pool.total_update_gain _ _ (by rw [here]; rfl) (by simp [after, Worker.signaller])
  refine ⟨accounts.unstarted, accounts.counter, accounts.order, ?_, ?_, accounts.dmas, ?_, ?_, ?_,
    accounts.reported⟩
  · exact accounts.issued.trans (congrArg _ pending.symm)
  · exact accounts.flying.trans (congrArg _ flying.symm)
  · exact fun last small => (holds last).trans (accounts.last last small)
  · simp only [setWorker]
    rw [signaller, ← accounts.signalled]
    split
    · exact Nat.add_comm _ _
    · exact (Nat.zero_add _).symm
  · intro woken
    by_cases last : ticket = 1
    · simp [last]
    · simp only [last, if_false] at woken ⊢
      exact accounts.woken woken

theorem accounts_step (accounts : Accounts config state) (staffed : Staffed state)
    (moved : bwStep config state action = some next) : Accounts config next := by
  cases action with
  | arm =>
      obtain ⟨setup, rfl⟩ := bwStep_arm moved
      refine accounts.unmoved (fun _ => Worker.Alike.refl _) nofun ?_ rfl rfl rfl rfl ?_ nofun
      · intro _
        simp only [accounts.unstarted setup, List.length_nil, Nat.sub_zero]
      · rintro (signalled | done)
        · exact accounts.woken (.inl signalled)
        · contradiction
  | start =>
      obtain ⟨armed, rfl⟩ := bwStep_start moved
      have running : state.master ≠ .setup := by simp [armed]
      refine accounts.unmoved (alike_signalWorker state 0) nofun
        (fun _ => accounts.counter running) rfl rfl rfl rfl ?_ nofun
      · rintro (signalled | done)
        · exact accounts.woken (.inl signalled)
        · contradiction
  | finish =>
      obtain ⟨waiting, signalled, rfl⟩ := bwStep_finish moved
      have running : state.master ≠ .setup := by simp [waiting]
      exact accounts.unmoved (fun _ => Worker.Alike.refl _) nofun
        (fun _ => accounts.counter running) rfl rfl rfl rfl
        (fun _ => accounts.woken (.inl signalled)) (fun _ => rfl)
  | join ctx =>
      obtain ⟨held, here, rfl⟩ := bwStep_join moved
      have shape := staffed.shape ctx
      rw [here] at shape
      cases shape with
      | unwoken =>
          refine accounts.unmoved (alike_update ?_) id accounts.counter rfl rfl rfl rfl
            accounts.woken accounts.reported
          rw [here]
          exact ⟨rfl, rfl, rfl, rfl⟩
  | ping ctx =>
      obtain ⟨held, sig, here, rfl⟩ := bwStep_ping moved
      have alike : (⟨.looping, held, sig⟩ : Worker).Alike (state.worker ctx) := by
        rw [here]
        exact ⟨rfl, rfl, rfl, rfl⟩
      exact accounts.unmoved
        (fun other => (alike_signalWorker _ _ other).trans (alike_update alike other)) id
        accounts.counter rfl rfl rfl rfl accounts.woken accounts.reported
  | draw ctx => exact accounts.draw staffed moved
  | enqueue ctx => exact accounts.enqueue moved
  | complete ctx => exact accounts.complete moved
  | check ctx =>
      obtain ⟨ticket, sig, here, rfl⟩ := bwStep_check moved
      refine accounts.unmoved (alike_update ?_) id accounts.counter rfl rfl rfl rfl
        accounts.woken accounts.reported
      rw [here]
      split <;> exact ⟨rfl, rfl, rfl, rfl⟩
  | leave ctx => exact accounts.leave moved

end Steps

theorem accounts_idle (config : BwConfig) (stale : Nat) :
    Accounts config (idle stale) where
  unstarted := fun _ => rfl
  counter := fun running => absurd rfl running
  order := rfl
  issued := by
    change (0 : Multiset Nat) = 0 + Pool.total Worker.pending fun _ => Worker.fresh
    rw [zero_add]
    exact (Pool.total_eq_zero fun _ => rfl).symm
  flying := by
    change (0 : Multiset Nat) = 0 + Pool.total Worker.flying fun _ => Worker.fresh
    rw [zero_add]
    exact (Pool.total_eq_zero fun _ => rfl).symm
  dmas := rfl
  last := fun _ _ => Pool.total_eq_zero fun _ => rfl
  signalled := (Pool.total_eq_zero fun _ => rfl).symm
  woken := by rintro (signalled | done) <;> contradiction
  reported := nofun

section Reachable

variable {config : BwConfig} {stale : Nat} {state : BwState config.workers}

theorem accounts_reachable (reachable : BwReachable config stale state) :
    Accounts config state := by
  refine reachable.invariant (accounts_idle config stale) ?_
  intro before action after reached accounts _ moved
  exact accounts_step accounts (staffed_reachable reached) moved

variable (accounts : Accounts config state)

include accounts

theorem drawn_count_le_one {ticket : Nat} (positive : 1 ≤ ticket) :
    state.drawn.count ticket ≤ 1 := by
  rw [accounts.order]
  exact Dispenser.count_draws_le_one positive

theorem completed_le_tickets : (state.completed : Multiset Nat) ≤ state.tickets := by
  rw [accounts.flying]
  exact Multiset.le_add_right _ _

theorem tickets_le_drawn : (state.tickets : Multiset Nat) ≤ state.drawn := by
  rw [accounts.issued]
  exact Multiset.le_add_right _ _

theorem outstanding_not_completed {ctx : Fin config.workers} {ticket : Nat} {sig : Bool}
    (positive : 1 ≤ ticket)
    (outstanding : state.worker ctx = ⟨.drawn, some ticket, sig⟩ ∨
      state.worker ctx = ⟨.inFlight, some ticket, sig⟩) :
    ticket ∉ state.completed := by
  intro completed
  have once := drawn_count_le_one accounts positive
  have issued := congrArg (Multiset.count ticket) accounts.issued
  have flying := congrArg (Multiset.count ticket) accounts.flying
  simp only [Multiset.count_add, Multiset.coe_count] at issued flying
  have done : 1 ≤ state.completed.count ticket := List.one_le_count_iff.mpr completed
  rcases outstanding with drawn | inFlight
  · have share : {ticket} ≤ Pool.total Worker.pending state.worker := by
      refine Pool.share_le_total _ ctx ?_
      rw [drawn]
      exact le_refl _
    have counted := Multiset.count_le_of_le ticket share
    rw [Multiset.count_singleton_self] at counted
    omega
  · have share : {ticket} ≤ Pool.total Worker.flying state.worker := by
      refine Pool.share_le_total _ ctx ?_
      rw [inFlight]
      exact le_refl _
    have counted := Multiset.count_le_of_le ticket share
    rw [Multiset.count_singleton_self] at counted
    omega

end Reachable

end Pciebench
