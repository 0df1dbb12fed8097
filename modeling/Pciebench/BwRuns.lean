import Mathlib
import Pciebench.BwInvariant

/-!
Runs that exist: the start signal passed down the chain, one worker drawing the counter down
while the others stand still, and all workers finishing one after the other.
-/

namespace Pciebench

open Machine BwState

section Steps

variable {config : BwConfig} {state : BwState config.workers} {ctx : Fin config.workers}
  {held : Option Nat} {sig : Bool}

theorem exists_lap (here : state.worker ctx = ⟨.looping, held, sig⟩) :
    ∃ next, Reachable (bwStep config) state next ∧
      next.master = state.master ∧ next.numDmaTrans = state.numDmaTrans - 1 ∧
      next.worker = Function.update state.worker ctx
        ⟨if state.numDmaTrans ≤ 1 then .left else .looping, some state.numDmaTrans, sig⟩ := by
  let drawn : BwState config.workers := {
    state.setWorker ctx ⟨.drawn, some state.numDmaTrans, sig⟩ with
    numDmaTrans := state.numDmaTrans - 1
    drawn := state.drawn ++ [state.numDmaTrans]
  }
  have draws : bwStep config state (.draw ctx) = some drawn := by
    simp only [bwStep, here, clsTestSub]
    rfl
  let issued : BwState config.workers := {
    drawn.setWorker ctx ⟨.inFlight, some state.numDmaTrans, sig⟩ with
    enqueued := state.enqueued ++ [bwDma config.test state.numDmaTrans]
  }
  have enqueues : bwStep config drawn (.enqueue ctx) = some issued := by
    have holding : drawn.worker ctx = ⟨.drawn, some state.numDmaTrans, sig⟩ :=
      Function.update_self _ _ _
    simp only [bwStep, holding]
    rfl
  let done : BwState config.workers := {
    issued.setWorker ctx ⟨.completed, some state.numDmaTrans, sig⟩ with
    completed := state.completed ++ [state.numDmaTrans]
  }
  have completes : bwStep config issued (.complete ctx) = some done := by
    have holding : issued.worker ctx = ⟨.inFlight, some state.numDmaTrans, sig⟩ :=
      Function.update_self _ _ _
    simp only [bwStep, holding]
    rfl
  let next := done.setWorker ctx
    ⟨if state.numDmaTrans ≤ 1 then .left else .looping, some state.numDmaTrans, sig⟩
  have checks : bwStep config done (.check ctx) = some next := by
    have holding : done.worker ctx = ⟨.completed, some state.numDmaTrans, sig⟩ :=
      Function.update_self _ _ _
    simp only [bwStep, holding]
    rfl
  refine ⟨next, ?_, rfl, rfl, ?_⟩
  · exact (((Reachable.one _ draws).trans (Reachable.one _ enqueues)).trans
      (Reachable.one _ completes)).trans (Reachable.one _ checks)
  · simp only [next, done, issued, drawn, setWorker, Function.update_idem]

theorem exists_drain (here : state.worker ctx = ⟨.looping, held, sig⟩) :
    ∃ next, Reachable (bwStep config) state next ∧
      next.master = state.master ∧ next.numDmaTrans = 0 ∧
      next.worker = Function.update state.worker ctx
        ⟨.left, some (min state.numDmaTrans 1), sig⟩ := by
  generalize counter : state.numDmaTrans = left
  induction left generalizing state held with
  | zero =>
      obtain ⟨next, moved, master, count, worker⟩ := exists_lap here
      refine ⟨next, moved, master, by omega, ?_⟩
      rw [worker, counter]
      rfl
  | succ left ih =>
      obtain ⟨next, moved, master, count, worker⟩ := exists_lap here
      by_cases last : left = 0
      · subst left
        refine ⟨next, moved, master, by omega, ?_⟩
        rw [worker, counter]
        rfl
      · have more : ¬ left + 1 ≤ 1 := by omega
        rw [counter] at worker
        simp only [more, if_false] at worker
        have again : next.worker ctx = ⟨.looping, some (left + 1), sig⟩ := by
          rw [worker, Function.update_self]
        obtain ⟨final, later, finalMaster, finalCount, finalWorker⟩ := ih again (by omega)
        refine ⟨final, moved.trans later, finalMaster.trans master, finalCount, ?_⟩
        have ticket : min (left + 1) 1 = min left 1 := by omega
        rw [finalWorker, worker, Function.update_idem, ticket]

theorem exists_leave {ticket : Nat} (here : state.worker ctx = ⟨.left, some ticket, sig⟩) :
    ∃ next, bwStep config state (.leave ctx) = some next ∧
      next.master = state.master ∧ next.numDmaTrans = state.numDmaTrans ∧
      next.worker = Function.update state.worker ctx ⟨.waiting, some ticket, sig⟩ := by
  simp only [bwStep, here]
  split
  · exact ⟨_, rfl, rfl, rfl, rfl⟩
  · exact ⟨_, rfl, rfl, rfl, rfl⟩

end Steps

section Runs

variable (config : BwConfig) (stale : Nat)

def launched (passed : Nat) (ctx : Fin config.workers) : Worker :=
  if ctx.val < passed then ⟨.looping, none, false⟩
  else if ctx.val = passed then ⟨.waiting, none, true⟩
  else Worker.fresh

theorem exists_launch (passed : Nat) (bound : passed ≤ config.workers) :
    ∃ state, BwReachable config stale state ∧ state.master = .waiting ∧
      state.numDmaTrans = config.maxTrans ∧ state.worker = launched config passed := by
  induction passed with
  | zero =>
      let armed : BwState config.workers := {
        idle stale with
        master := .armed
        numDmaTrans := config.maxTrans
      }
      let started : BwState config.workers := { armed.signalWorker 0 with master := .waiting }
      have arms : bwStep config (idle stale) .arm = some armed := rfl
      have starts : bwStep config armed .start = some started := rfl
      refine ⟨started, (Reachable.one _ arms).trans (Reachable.one _ starts), rfl, rfl, ?_⟩
      funext ctx
      simp only [started, signalWorker, launched, Nat.not_lt_zero, if_false]
      split <;> rfl
  | succ passed ih =>
      obtain ⟨state, reached, master, counter, worker⟩ := ih (by omega)
      let ctx : Fin config.workers := ⟨passed, bound⟩
      have here : state.worker ctx = ⟨.waiting, none, true⟩ := by
        rw [worker]
        simp [launched, ctx]
      let joined := state.setWorker ctx ⟨.woken, none, false⟩
      have joins : bwStep config state (.join ctx) = some joined := by
        simp only [bwStep, here]
        rfl
      let pinged := (joined.setWorker ctx ⟨.looping, none, false⟩).signalWorker (passed + 1)
      have pings : bwStep config joined (.ping ctx) = some pinged := by
        have holding : joined.worker ctx = ⟨.woken, none, false⟩ := Function.update_self _ _ _
        simp only [bwStep, holding]
        rfl
      refine ⟨pinged, (reached.trans (Reachable.one _ joins)).trans (Reachable.one _ pings),
        master, counter, ?_⟩
      funext other
      simp only [pinged, joined, signalWorker, setWorker, Function.update_idem]
      by_cases same : other = ctx
      · subst same
        simp [launched, ctx]
      · have apart : other.val ≠ passed := fun equal => same (Fin.ext equal)
        rw [Function.update_of_ne same, worker]
        simp only [launched]
        by_cases earlier : other.val < passed
        · simp [earlier, show other.val < passed + 1 by omega,
            show other.val ≠ passed + 1 by omega]
        · by_cases nextInLine : other.val = passed + 1
          · simp [nextInLine, Worker.fresh]
          · simp [earlier, apart, nextInLine, show ¬ other.val < passed + 1 by omega]

/-- All workers have been woken and are back at waiting for the start signal. -/
def BwState.AllBack {workers : Nat} (state : BwState workers) : Prop :=
  ∀ ctx, (state.worker ctx).pc = .waiting ∧ (state.worker ctx).trans ≠ none

theorem exists_allBack : ∃ state, BwReachable config stale state ∧ state.AllBack := by
  have retire : ∀ retired, retired ≤ config.workers →
      ∃ state, BwReachable config stale state ∧
        ∀ ctx : Fin config.workers,
          (ctx.val < retired → (state.worker ctx).pc = .waiting ∧
            (state.worker ctx).trans ≠ none) ∧
          (retired ≤ ctx.val → state.worker ctx = ⟨.looping, none, false⟩) := by
    intro retired bound
    induction retired with
    | zero =>
        obtain ⟨state, reached, _, _, worker⟩ := exists_launch config stale config.workers
          (Nat.le_refl _)
        refine ⟨state, reached, fun ctx => ⟨fun early => by omega, fun _ => ?_⟩⟩
        rw [worker]
        simp [launched]
    | succ retired ih =>
        obtain ⟨state, reached, workers⟩ := ih (by omega)
        let ctx : Fin config.workers := ⟨retired, bound⟩
        obtain ⟨drained, drains, _, _, drainedWorker⟩ :=
          exists_drain ((workers ctx).2 (Nat.le_refl _))
        have here : drained.worker ctx = ⟨.left, some (min state.numDmaTrans 1), false⟩ := by
          rw [drainedWorker, Function.update_self]
        obtain ⟨next, leaves, _, _, nextWorker⟩ := exists_leave here
        refine ⟨next, (reached.trans drains).trans (Reachable.one _ leaves), ?_⟩
        intro other
        rw [nextWorker, drainedWorker, Function.update_idem]
        by_cases same : other = ctx
        · subst same
          rw [Function.update_self]
          exact ⟨fun _ => ⟨rfl, nofun⟩, fun later => absurd later (Nat.not_succ_le_self _)⟩
        · have apart : other.val ≠ retired := fun equal => same (Fin.ext equal)
          rw [Function.update_of_ne same]
          exact ⟨fun early => (workers other).1 (by omega),
            fun later => (workers other).2 (by omega)⟩
  obtain ⟨state, reached, workers⟩ := retire config.workers (Nat.le_refl _)
  exact ⟨state, reached, fun ctx => (workers ctx).1 ctx.isLt⟩

end Runs

end Pciebench
