import Mathlib
import Pciebench.BwTickets

/-!
When the end time of a bandwidth run is honest. The worker that drew ticket 1 wakes the master,
and it does not know whether the tickets drawn before it have completed.
-/

namespace Pciebench

open Machine BwState

/-- Once the end time is recorded, the DMAs of all tickets have completed. -/
def BwState.EndHonest (config : BwConfig) (state : BwState config.workers) : Prop :=
  state.master = .done →
    ∀ ticket, 1 ≤ ticket → ticket ≤ config.maxTrans → ticket ∈ state.completed

/-- A ticket above 1 in the hands of a worker, its DMA not completed. -/
def Worker.Outstanding (worker : Worker) : Prop :=
  ∃ ticket sig, 2 ≤ ticket ∧
    (worker = ⟨.drawn, some ticket, sig⟩ ∨ worker = ⟨.inFlight, some ticket, sig⟩)

/-- Whether a step sends the completion signal while no ticket above 1 is outstanding. -/
def SignalsLast {workers : Nat} (state : BwState workers) : BwAction workers → Prop
  | .leave ctx => (state.worker ctx).trans = some 1 → ∀ other, ¬ (state.worker other).Outstanding
  | _ => True

section Steps

variable {config : BwConfig} {stale : Nat} {state next : BwState config.workers}
  {ctx : Fin config.workers}

theorem ticket_of_pending {worker : Worker} {ticket : Nat} (member : ticket ∈ worker.pending) :
    ∃ sig, worker = ⟨.drawn, some ticket, sig⟩ := by
  obtain ⟨pc, trans, sig⟩ := worker
  cases pc <;> cases trans <;> simp [Worker.pending] at member
  subst member
  exact ⟨sig, rfl⟩

theorem ticket_of_flying {worker : Worker} {ticket : Nat} (member : ticket ∈ worker.flying) :
    ∃ sig, worker = ⟨.inFlight, some ticket, sig⟩ := by
  obtain ⟨pc, trans, sig⟩ := worker
  cases pc <;> cases trans <;> simp [Worker.flying] at member
  subst member
  exact ⟨sig, rfl⟩

theorem drawn_cases (accounts : Accounts config state) {ticket : Nat}
    (drawn : ticket ∈ state.drawn) :
    ticket ∈ state.completed ∨ ∃ ctx sig,
      state.worker ctx = ⟨.drawn, some ticket, sig⟩ ∨
        state.worker ctx = ⟨.inFlight, some ticket, sig⟩ := by
  have whereIs : ticket ∈ (state.drawn : Multiset Nat) := drawn
  rw [accounts.issued, accounts.flying, Multiset.mem_add, Multiset.mem_add] at whereIs
  rcases whereIs with (completed | flying) | pending
  · exact .inl completed
  · obtain ⟨ctx, _, holding⟩ := Multiset.mem_sum.mp flying
    obtain ⟨sig, here⟩ := ticket_of_flying holding
    exact .inr ⟨ctx, sig, .inr here⟩
  · obtain ⟨ctx, _, holding⟩ := Multiset.mem_sum.mp pending
    obtain ⟨sig, here⟩ := ticket_of_pending holding
    exact .inr ⟨ctx, sig, .inl here⟩

theorem outstanding_ticket (accounts : Accounts config state)
    (outstanding : (state.worker ctx).Outstanding) :
    ∃ ticket, 2 ≤ ticket ∧ ticket ≤ config.maxTrans ∧ ticket ∉ state.completed := by
  obtain ⟨ticket, sig, more, here⟩ := outstanding
  refine ⟨ticket, more, ?_, outstanding_not_completed accounts (by omega) here⟩
  have drawn : ticket ∈ state.drawn := by
    have whereIs : ticket ∈ (state.drawn : Multiset Nat) := by
      rw [accounts.issued, accounts.flying]
      rcases here with pending | flying
      · refine Multiset.mem_add.mpr (.inr (Multiset.mem_sum.mpr ⟨ctx, Finset.mem_univ _, ?_⟩))
        rw [pending]
        exact Multiset.mem_singleton_self _
      · refine Multiset.mem_add.mpr (.inl (Multiset.mem_add.mpr (.inr ?_)))
        refine Multiset.mem_sum.mpr ⟨ctx, Finset.mem_univ _, ?_⟩
        rw [flying]
        exact Multiset.mem_singleton_self _
    exact whereIs
  rw [accounts.order] at drawn
  simp only [Dispenser.draws, List.mem_map] at drawn
  obtain ⟨earlier, _, rfl⟩ := drawn
  exact Nat.sub_le _ _

theorem left_ticket_completed (staffed : Staffed state) {ticket : Nat} {sig : Bool}
    (here : state.worker ctx = ⟨.left, some ticket, sig⟩) : ticket ∈ state.completed := by
  have shape := staffed.shape ctx
  rw [here] at shape
  cases shape with
  | left _ _ done => exact done

theorem completed_of_leave (accounts : Accounts config state) (staffed : Staffed state)
    {sig : Bool} (here : state.worker ctx = ⟨.left, some 1, sig⟩)
    (nothing : ∀ other, ¬ (state.worker other).Outstanding) :
    ∀ ticket, 1 ≤ ticket → ticket ≤ config.maxTrans → ticket ∈ state.completed := by
  intro ticket positive bound
  have one := left_ticket_completed staffed here
  have oneDrawn : 1 ∈ state.drawn :=
    Multiset.mem_of_le (tickets_le_drawn accounts)
      (Multiset.mem_of_le (completed_le_tickets accounts) one)
  have exhausted := exhausted_of_drawn accounts (Nat.le_refl _) oneDrawn
  have once := drawn_count_eq_one accounts exhausted positive bound
  have drawn : ticket ∈ state.drawn := List.count_pos_iff.mp (by omega)
  rcases drawn_cases accounts drawn with completed | ⟨other, otherSig, holding⟩
  · exact completed
  · by_cases last : ticket = 1
    · exact last ▸ one
    · exact absurd ⟨ticket, otherSig, by omega, holding⟩ (nothing other)

/-- Only a completion changes which tickets are done, and only a leave changes the signals. -/
theorem bwStep_tallies {action : BwAction config.workers}
    (moved : bwStep config state action = some next) :
    (∃ ctx, action = .complete ctx) ∨ (∃ ctx, action = .leave ctx) ∨
      (next.completed = state.completed ∧ next.signals = state.signals) := by
  cases action with
  | arm =>
      obtain ⟨_, rfl⟩ := bwStep_arm moved
      exact .inr (.inr ⟨rfl, rfl⟩)
  | start =>
      obtain ⟨_, rfl⟩ := bwStep_start moved
      exact .inr (.inr ⟨rfl, rfl⟩)
  | finish =>
      obtain ⟨_, _, rfl⟩ := bwStep_finish moved
      exact .inr (.inr ⟨rfl, rfl⟩)
  | join ctx =>
      obtain ⟨_, _, rfl⟩ := bwStep_join moved
      exact .inr (.inr ⟨rfl, rfl⟩)
  | ping ctx =>
      obtain ⟨_, _, _, rfl⟩ := bwStep_ping moved
      exact .inr (.inr ⟨rfl, rfl⟩)
  | draw ctx =>
      obtain ⟨_, _, _, rfl⟩ := bwStep_draw moved
      exact .inr (.inr ⟨rfl, rfl⟩)
  | enqueue ctx =>
      obtain ⟨_, _, _, rfl⟩ := bwStep_enqueue moved
      exact .inr (.inr ⟨rfl, rfl⟩)
  | complete ctx => exact .inl ⟨ctx, rfl⟩
  | check ctx =>
      obtain ⟨_, _, _, rfl⟩ := bwStep_check moved
      exact .inr (.inr ⟨rfl, rfl⟩)
  | leave ctx => exact .inr (.inl ⟨ctx, rfl⟩)

theorem completed_grows {action : BwAction config.workers}
    (moved : bwStep config state action = some next) : state.completed ⊆ next.completed := by
  rcases bwStep_tallies moved with ⟨ctx, rfl⟩ | ⟨ctx, rfl⟩ | ⟨same, _⟩
  · obtain ⟨_, _, _, rfl⟩ := bwStep_complete moved
    exact List.subset_append_left _ _
  · obtain ⟨_, _, _, rfl⟩ := bwStep_leave moved
    exact List.Subset.refl _
  · rw [same]
    exact List.Subset.refl _

theorem signals_of_ne_leave {action : BwAction config.workers}
    (moved : bwStep config state action = some next) (other : ∀ ctx, action ≠ .leave ctx) :
    next.signals = state.signals := by
  rcases bwStep_tallies moved with ⟨ctx, rfl⟩ | ⟨ctx, leaves⟩ | ⟨_, same⟩
  · obtain ⟨_, _, _, rfl⟩ := bwStep_complete moved
    rfl
  · exact absurd leaves (other ctx)
  · exact same

end Steps

section Runs

variable {config : BwConfig} {stale : Nat} {state next : BwState config.workers}
  {ctx : Fin config.workers}

theorem signalled_of_signalsLast (reached : Reaches (bwStep config) SignalsLast (idle stale) state)
    (signalled : 1 ≤ state.signals) :
    ∀ ticket, 1 ≤ ticket → ticket ≤ config.maxTrans → ticket ∈ state.completed := by
  induction reached with
  | start => exact absurd signalled (Nat.not_succ_le_zero 0)
  | @step before after action reached last moved ih =>
      intro ticket positive bound
      apply completed_grows moved
      by_cases leaves : ∃ ctx, action = .leave ctx
      · obtain ⟨ctx, rfl⟩ := leaves
        obtain ⟨held, sig, here, rfl⟩ := bwStep_leave moved
        by_cases one : held = 1
        · subst held
          exact completed_of_leave (accounts_reachable reached.reachable)
            (staffed_reachable reached.reachable) here (last (by rw [here])) ticket positive bound
        · simp only [one, if_false] at signalled
          exact ih signalled ticket positive bound
      · rw [signals_of_ne_leave moved fun ctx equal => leaves ⟨ctx, equal⟩] at signalled
        exact ih signalled ticket positive bound

theorem endHonest_of_signalsLast
    (reached : Reaches (bwStep config) SignalsLast (idle stale) state) :
    state.EndHonest config := by
  intro finished
  have accounts := accounts_reachable reached.reachable
  exact signalled_of_signalsLast reached (accounts.woken (.inr finished))

theorem dishonest_of_early (reachable : BwReachable config stale state)
    (moved : bwStep config state (.leave ctx) = some next)
    (early : ¬ SignalsLast state (.leave ctx)) :
    ∃ last, Reachable (bwStep config) next last ∧ ¬ last.EndHonest config := by
  simp only [SignalsLast, not_forall, not_not] at early
  obtain ⟨one, other, outstanding⟩ := early
  have staffed := staffed_reachable reachable
  obtain ⟨held, sig, here, nextEq⟩ := bwStep_leave moved
  rw [here, Option.some.injEq] at one
  change held = 1 at one
  subst held
  have nextAccounts := accounts_reachable (reachable.trans (Reachable.one _ moved))
  have busy : state.worker ctx ≠ Worker.fresh := by simp [here, Worker.fresh]
  have waiting : state.master = .waiting := by
    cases master : state.master with
    | setup => exact absurd (staffed.quiet (.inl master) ctx) busy
    | armed => exact absurd (staffed.quiet (.inr master) ctx) busy
    | waiting => rfl
    -- A finished run has had its signal, and ticket 1 sends only one.
    | done =>
        have before := (accounts_reachable reachable).woken (.inr master)
        have atMostOne := (signals_le_drawn nextAccounts).trans
          (drawn_count_le_one nextAccounts (Nat.le_refl _))
        rw [nextEq] at atMostOne
        simp only [if_true] at atMostOne
        omega
  let last : BwState config.workers :=
    { next with master := .done, masterSig := false, r0 := some config.maxTrans }
  have finishes : bwStep config next .finish = some last := by
    have ready : next.master = .waiting ∧ next.masterSig = true := by
      rw [nextEq]
      exact ⟨waiting, rfl⟩
    simp only [bwStep, ready, and_self, if_true]
    rfl
  refine ⟨last, Reachable.one _ finishes, ?_⟩
  obtain ⟨ticket, more, bound, missing⟩ :=
    outstanding_ticket (accounts_reachable reachable) outstanding
  intro honest
  have completed := honest rfl ticket (by omega) bound
  change ticket ∈ next.completed at completed
  rw [nextEq] at completed
  exact missing completed

theorem signalsLast_of_single (reachable : BwReachable config stale state)
    (single : config.workers ≤ 1 ∨ config.maxTrans = 1) (action : BwAction config.workers)
    (moved : bwStep config state action = some next) : SignalsLast state action := by
  cases action with
  | leave ctx =>
      intro _ other outstanding
      rcases single with alone | one
      · have same : other = ctx := Fin.ext (by omega)
        obtain ⟨held, sig, here, _⟩ := bwStep_leave moved
        obtain ⟨ticket, otherSig, _, drawn | inFlight⟩ := outstanding
        · simp [same, here] at drawn
        · simp [same, here] at inFlight
      · obtain ⟨ticket, more, bound, _⟩ :=
          outstanding_ticket (accounts_reachable reachable) outstanding
        omega
  | _ => trivial

/-- With a second worker and a second ticket the first worker to run can stall on its ticket
while another draws the rest. -/
theorem exists_early (stale : Nat) (workers : 2 ≤ config.workers) (tickets : 2 ≤ config.maxTrans) :
    ∃ state : BwState config.workers, ∃ next ctx, BwReachable config stale state ∧
      bwStep config state (.leave ctx) = some next ∧ ¬ SignalsLast state (.leave ctx) := by
  obtain ⟨state, reached, _, counter, worker⟩ := exists_launch config stale 2 workers
  let first : Fin config.workers := ⟨0, by omega⟩
  let second : Fin config.workers := ⟨1, by omega⟩
  have apart : first ≠ second := by simp [first, second]
  have secondReady : state.worker second = ⟨.looping, none, false⟩ := by
    rw [worker]
    rfl
  let stalled : BwState config.workers := {
    state.setWorker second ⟨.drawn, some config.maxTrans, false⟩ with
    numDmaTrans := config.maxTrans - 1
    drawn := state.drawn ++ [config.maxTrans]
  }
  have stalls : bwStep config state (.draw second) = some stalled := by
    simp only [bwStep, secondReady, clsTestSub, counter]
    rfl
  have firstReady : stalled.worker first = ⟨.looping, none, false⟩ := by
    simp only [stalled, setWorker, Function.update_of_ne apart, worker]
    rfl
  obtain ⟨drained, drains, _, _, drainedWorker⟩ := exists_drain firstReady
  have last : min stalled.numDmaTrans 1 = 1 := by
    change min (config.maxTrans - 1) 1 = 1
    omega
  rw [last] at drainedWorker
  have here : drained.worker first = ⟨.left, some 1, false⟩ := by
    rw [drainedWorker, Function.update_self]
  obtain ⟨next, leaves, _, _, _⟩ := exists_leave here
  refine ⟨drained, next, first, (reached.trans (Reachable.one _ stalls)).trans drains, leaves, ?_⟩
  intro signalsLast
  refine signalsLast (by rw [here]) second ⟨config.maxTrans, false, tickets, .inl ?_⟩
  rw [drainedWorker, Function.update_of_ne apart.symm]
  simp only [stalled, setWorker, Function.update_self]

/-- The end time is honest in every run exactly when there is one worker or one ticket; a run
stays honest while no signal is sent early, and after an early signal it need not. -/
theorem bwRun_endTime (config : BwConfig) (stale : Nat) (tickets : 1 ≤ config.maxTrans) :
    ((∀ state : BwState config.workers, BwReachable config stale state →
        state.EndHonest config) ↔ config.workers ≤ 1 ∨ config.maxTrans = 1) ∧
    (∀ state, Reaches (bwStep config) SignalsLast (idle stale) state →
      state.EndHonest config) ∧
    ∀ state next ctx, BwReachable config stale state →
      bwStep config state (.leave ctx) = some next → ¬ SignalsLast state (.leave ctx) →
        ∃ last, Reachable (bwStep config) next last ∧ ¬ last.EndHonest config := by
  refine ⟨⟨?_, ?_⟩, fun _ => endHonest_of_signalsLast, fun _ _ _ => dishonest_of_early⟩
  · intro honest
    by_contra several
    obtain ⟨state, next, ctx, reached, leaves, early⟩ :=
      exists_early stale (by omega : 2 ≤ config.workers) (by omega)
    obtain ⟨last, later, dishonest⟩ := dishonest_of_early reached leaves early
    exact dishonest (honest last ((reached.trans (Reachable.one _ leaves)).trans later))
  · intro single state reachable
    have admitted : Reaches (bwStep config) SignalsLast (idle stale) state :=
      reachable.admitted fun _ _ _ before moved => signalsLast_of_single before single _ moved
    exact endHonest_of_signalsLast admitted

theorem bwRun_endTime_twoWorkers :
    ((∀ state : BwState 2, BwReachable ⟨2, 8388608, .bwDmaRd⟩ 0 state →
      state.EndHonest ⟨2, 8388608, .bwDmaRd⟩) ↔ 2 ≤ 1 ∨ 8388608 = 1) :=
  (bwRun_endTime ⟨2, 8388608, .bwDmaRd⟩ 0 (by decide)).1

/-- Two workers, two tickets: the worker with ticket 2 stands still while the end time is
recorded. -/
theorem bwRun_endTime_early :
    ∃ state, BwReachable ⟨2, 2, .bwDmaRd⟩ 0 state ∧ state.master = .done ∧
      2 ∉ state.completed := by
  have ran : exec (bwStep ⟨2, 2, .bwDmaRd⟩) (idle 0) [.arm, .start, .join 0, .ping 0, .join 1,
      .ping 1, .draw 1, .draw 0, .enqueue 0, .complete 0, .check 0, .leave 0,
      .finish] = some _ := rfl
  exact ⟨_, exec_reachable ran, rfl, by decide⟩

end Runs

end Pciebench
