import Mathlib
import Pciebench.Config
import Pciebench.Lib.Dispenser
import Pciebench.Lib.Machine
import Pciebench.Lib.Pool

/-!
One bandwidth run of `pcie_dma.c`: the master context in `dma_bw` and any number of worker
contexts in `dma_bw_worker`, interleaved step by step. A worker starts when the start signal
reaches it, pings the next one along the chain, and draws tickets from `num_dma_trans` with
`cls_test_sub` until it has drawn one or zero. The DMA engine completes the DMAs in any order.

The lists of tickets drawn, DMAs enqueued and tickets completed, and the number of completion
signals sent, are records of the run; the firmware does not keep them.
-/

namespace Pciebench

inductive WorkerPc
  | waiting     -- `wait_for_all(&dma_ctrl_sig)`
  | woken       -- has the start signal, has not pinged the next context
  | looping     -- at the top of the inner loop, about to draw
  | drawn       -- has a ticket, about to enqueue its DMA
  | inFlight    -- in `wait_for_all(&cmpl_sig, &enq_sig)`, the DMA not completed
  | completed   -- past it, about to test `trans <= 1`
  | left        -- out of the inner loop, about to test `trans == 1`
  deriving DecidableEq, Repr

/-- A worker context: its place, its variable `trans` (none before the first draw) and its
start signal, which is a single bit. -/
structure Worker where
  pc : WorkerPc
  trans : Option Nat
  startSig : Bool
  deriving DecidableEq, Repr

inductive MasterPc
  | setup       -- before `num_dma_trans = max_trans`
  | armed       -- the counter is written, the first worker not signalled
  | waiting     -- `wait_for_all(&dma_ctrl_sig)`
  | done        -- the end time is recorded
  deriving DecidableEq, Repr

/-- A DMA that a worker enqueued: the ticket, the index into `dma_addrs` and the queue. -/
structure BwDma where
  ticket : Nat
  index : Nat
  read : Bool
  deriving DecidableEq, Repr

structure BwConfig where
  workers : Nat
  maxTrans : Nat
  test : PciebenchTest

structure BwState (workers : Nat) where
  master : MasterPc
  masterSig : Bool
  numDmaTrans : Nat
  r0 : Option Nat
  worker : Fin workers → Worker
  drawn : List Nat
  enqueued : List BwDma
  completed : List Nat
  signals : Nat

inductive BwAction (workers : Nat)
  | arm
  | start
  | finish
  | join (ctx : Fin workers)
  | ping (ctx : Fin workers)
  | draw (ctx : Fin workers)
  | enqueue (ctx : Fin workers)
  | complete (ctx : Fin workers)
  | check (ctx : Fin workers)
  | leave (ctx : Fin workers)

/-- `cls_test_sub`: the old value, and the counter after a saturating subtract. -/
def clsTestSub (value sub : Nat) : Nat × Nat :=
  (value, value - sub)

-- Uneven tickets of a read/write test are reads, even ones are writes.
def bwRead (test : PciebenchTest) (trans : Nat) : Bool :=
  if test = .bwDmaRd then true
  else if test = .bwDmaWr then false
  else trans &&& 1 != 0

def bwDma (test : PciebenchTest) (trans : Nat) : BwDma where
  ticket := trans
  index := trans &&& (pciebenchAddrArraySz - 1)
  read := bwRead test trans

def Worker.fresh : Worker where
  pc := .waiting
  trans := none
  startSig := false

namespace BwState

variable {workers : Nat}

def setWorker (state : BwState workers) (ctx : Fin workers) (next : Worker) : BwState workers :=
  { state with worker := Function.update state.worker ctx next }

-- The last worker of the chain has nobody to ping.
def signalWorker (state : BwState workers) (target : Nat) : BwState workers :=
  { state with
    worker := fun ctx =>
      if ctx.val = target then { state.worker ctx with startSig := true }
      else state.worker ctx }

def idle (stale : Nat) : BwState workers where
  master := .setup
  masterSig := false
  numDmaTrans := stale
  r0 := none
  worker := fun _ => Worker.fresh
  drawn := []
  enqueued := []
  completed := []
  signals := 0

end BwState

open BwState

/-- One step of the master context in `dma_bw`, of a worker context in `dma_bw_worker`, or of
the DMA engine (`complete`). -/
def bwStep (config : BwConfig) (state : BwState config.workers) :
    BwAction config.workers → Option (BwState config.workers)
  | .arm =>
      if state.master = .setup then
        some { state with master := .armed, numDmaTrans := config.maxTrans }
      else none
  | .start =>
      if state.master = .armed then
        some { state.signalWorker 0 with master := .waiting }
      else none
  | .finish =>
      if state.master = .waiting ∧ state.masterSig = true then
        some { state with master := .done, masterSig := false, r0 := some config.maxTrans }
      else none
  | .join ctx =>
      match state.worker ctx with
      | ⟨.waiting, held, true⟩ => some (state.setWorker ctx ⟨.woken, held, false⟩)
      | _ => none
  | .ping ctx =>
      match state.worker ctx with
      | ⟨.woken, held, sig⟩ =>
          some ((state.setWorker ctx ⟨.looping, held, sig⟩).signalWorker (ctx.val + 1))
      | _ => none
  | .draw ctx =>
      match state.worker ctx with
      | ⟨.looping, _, sig⟩ =>
          let (ticket, left) := clsTestSub state.numDmaTrans 1
          some {
            state.setWorker ctx ⟨.drawn, some ticket, sig⟩ with
            numDmaTrans := left
            drawn := state.drawn ++ [ticket]
          }
      | _ => none
  | .enqueue ctx =>
      match state.worker ctx with
      | ⟨.drawn, some ticket, sig⟩ =>
          some {
            state.setWorker ctx ⟨.inFlight, some ticket, sig⟩ with
            enqueued := state.enqueued ++ [bwDma config.test ticket]
          }
      | _ => none
  | .complete ctx =>
      match state.worker ctx with
      | ⟨.inFlight, some ticket, sig⟩ =>
          some {
            state.setWorker ctx ⟨.completed, some ticket, sig⟩ with
            completed := state.completed ++ [ticket]
          }
      | _ => none
  | .check ctx =>
      match state.worker ctx with
      | ⟨.completed, some ticket, sig⟩ =>
          some (state.setWorker ctx ⟨if ticket ≤ 1 then .left else .looping, some ticket, sig⟩)
      | _ => none
  | .leave ctx =>
      match state.worker ctx with
      | ⟨.left, some ticket, sig⟩ =>
          let back := state.setWorker ctx ⟨.waiting, some ticket, sig⟩
          if ticket = 1 then
            some { back with masterSig := true, signals := state.signals + 1 }
          else
            some back
      | _ => none

abbrev BwReachable (config : BwConfig) (stale : Nat) : BwState config.workers → Prop :=
  Machine.Reachable (bwStep config) (idle stale)

section Inversion

variable {config : BwConfig} {state next : BwState config.workers} {ctx : Fin config.workers}

theorem bwStep_arm (moved : bwStep config state .arm = some next) :
    state.master = .setup ∧
      next = { state with master := .armed, numDmaTrans := config.maxTrans } := by
  simp only [bwStep, Option.ite_none_right_eq_some, Option.some.injEq] at moved
  exact ⟨moved.1, moved.2.symm⟩

theorem bwStep_start (moved : bwStep config state .start = some next) :
    state.master = .armed ∧ next = { state.signalWorker 0 with master := .waiting } := by
  simp only [bwStep, Option.ite_none_right_eq_some, Option.some.injEq] at moved
  exact ⟨moved.1, moved.2.symm⟩

theorem bwStep_finish (moved : bwStep config state .finish = some next) :
    state.master = .waiting ∧ state.masterSig = true ∧
      next = { state with master := .done, masterSig := false, r0 := some config.maxTrans } := by
  simp only [bwStep, Option.ite_none_right_eq_some, Option.some.injEq] at moved
  exact ⟨moved.1.1, moved.1.2, moved.2.symm⟩

theorem bwStep_join (moved : bwStep config state (.join ctx) = some next) :
    ∃ held, state.worker ctx = ⟨.waiting, held, true⟩ ∧
      next = state.setWorker ctx ⟨.woken, held, false⟩ := by
  simp only [bwStep] at moved
  split at moved
  · rename_i held here
    exact ⟨held, here, (Option.some.inj moved).symm⟩
  · contradiction

theorem bwStep_ping (moved : bwStep config state (.ping ctx) = some next) :
    ∃ held sig, state.worker ctx = ⟨.woken, held, sig⟩ ∧
      next = (state.setWorker ctx ⟨.looping, held, sig⟩).signalWorker (ctx.val + 1) := by
  simp only [bwStep] at moved
  split at moved
  · rename_i held sig here
    exact ⟨held, sig, here, (Option.some.inj moved).symm⟩
  · contradiction

theorem bwStep_draw (moved : bwStep config state (.draw ctx) = some next) :
    ∃ held sig, state.worker ctx = ⟨.looping, held, sig⟩ ∧
      next = {
        state.setWorker ctx ⟨.drawn, some state.numDmaTrans, sig⟩ with
        numDmaTrans := state.numDmaTrans - 1
        drawn := state.drawn ++ [state.numDmaTrans]
      } := by
  simp only [bwStep, clsTestSub] at moved
  split at moved
  · rename_i held sig here
    exact ⟨held, sig, here, (Option.some.inj moved).symm⟩
  · contradiction

theorem bwStep_enqueue (moved : bwStep config state (.enqueue ctx) = some next) :
    ∃ ticket sig, state.worker ctx = ⟨.drawn, some ticket, sig⟩ ∧
      next = {
        state.setWorker ctx ⟨.inFlight, some ticket, sig⟩ with
        enqueued := state.enqueued ++ [bwDma config.test ticket]
      } := by
  simp only [bwStep] at moved
  split at moved
  · rename_i ticket sig here
    exact ⟨ticket, sig, here, (Option.some.inj moved).symm⟩
  · contradiction

theorem bwStep_complete (moved : bwStep config state (.complete ctx) = some next) :
    ∃ ticket sig, state.worker ctx = ⟨.inFlight, some ticket, sig⟩ ∧
      next = {
        state.setWorker ctx ⟨.completed, some ticket, sig⟩ with
        completed := state.completed ++ [ticket]
      } := by
  simp only [bwStep] at moved
  split at moved
  · rename_i ticket sig here
    exact ⟨ticket, sig, here, (Option.some.inj moved).symm⟩
  · contradiction

theorem bwStep_check (moved : bwStep config state (.check ctx) = some next) :
    ∃ ticket sig, state.worker ctx = ⟨.completed, some ticket, sig⟩ ∧
      next = state.setWorker ctx
        ⟨if ticket ≤ 1 then .left else .looping, some ticket, sig⟩ := by
  simp only [bwStep] at moved
  split at moved
  · rename_i ticket sig here
    exact ⟨ticket, sig, here, (Option.some.inj moved).symm⟩
  · contradiction

theorem bwStep_leave (moved : bwStep config state (.leave ctx) = some next) :
    ∃ ticket sig, state.worker ctx = ⟨.left, some ticket, sig⟩ ∧
      next = {
        state.setWorker ctx ⟨.waiting, some ticket, sig⟩ with
        masterSig := if ticket = 1 then true else state.masterSig
        signals := if ticket = 1 then state.signals + 1 else state.signals
      } := by
  simp only [bwStep] at moved
  split at moved
  · rename_i ticket sig here
    refine ⟨ticket, sig, here, ?_⟩
    by_cases last : ticket = 1
    · simp only [last, if_true, Option.some.injEq] at moved ⊢
      exact moved.symm
    · simp only [last, if_false, Option.some.injEq] at moved ⊢
      exact moved.symm
  · contradiction

end Inversion

end Pciebench
