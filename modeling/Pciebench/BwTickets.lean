import Mathlib
import Pciebench.BwRuns
import Pciebench.Lib.PeriodicSearch

/-!
What a bandwidth run has done once the workers are back: every ticket drawn once, every index
of the address array used equally often, and how many DMAs were issued in all.
-/

namespace Pciebench

open Machine BwState

/-- Some worker has been woken, and those that were are back at waiting. -/
def BwState.Settled {workers : Nat} (state : BwState workers) : Prop :=
  (∀ ctx, (state.worker ctx).pc = .waiting) ∧ ∃ ctx, (state.worker ctx).trans ≠ none

section Settled

variable {config : BwConfig} {state : BwState config.workers}

theorem pending_waiting {worker : Worker} (waiting : worker.pc = .waiting) :
    worker.pending = 0 := by
  obtain ⟨pc, trans, sig⟩ := worker
  simp only at waiting
  subst pc
  rfl

theorem tickets_perm (accounts : Accounts config state)
    (waiting : ∀ ctx, (state.worker ctx).pc = .waiting) :
    state.drawn.Perm state.tickets := by
  have issued := accounts.issued
  rw [Pool.total_eq_zero fun ctx => pending_waiting (waiting ctx), add_zero] at issued
  exact Multiset.coe_eq_coe.mp issued

theorem held_drawn (accounts : Accounts config state) (staffed : Staffed state)
    {ctx : Fin config.workers} (waiting : (state.worker ctx).pc = .waiting)
    (woken : (state.worker ctx).trans ≠ none) :
    ∃ ticket, ticket ≤ 1 ∧ ticket ∈ state.drawn ∧ (state.worker ctx).trans = some ticket := by
  have shape := staffed.shape ctx
  generalize state.worker ctx = worker at shape waiting woken
  cases shape with
  | unwoken => exact absurd rfl woken
  | back ticket last done =>
      refine ⟨ticket, last, ?_, rfl⟩
      have spent := Multiset.mem_of_le (completed_le_tickets accounts) done
      exact Multiset.mem_of_le (tickets_le_drawn accounts) spent
  | _ => contradiction

theorem exhausted_of_drawn (accounts : Accounts config state) {ticket : Nat} (last : ticket ≤ 1)
    (drawn : ticket ∈ state.drawn) : config.maxTrans ≤ state.drawn.length := by
  rw [accounts.order] at drawn
  exact Dispenser.exhausted_of_mem last drawn

theorem drawn_count_eq_one (accounts : Accounts config state)
    (exhausted : config.maxTrans ≤ state.drawn.length) {ticket : Nat} (positive : 1 ≤ ticket)
    (bound : ticket ≤ config.maxTrans) : state.drawn.count ticket = 1 := by
  rw [accounts.order, Dispenser.count_draws positive bound, if_pos (by omega)]

theorem signals_le_drawn (accounts : Accounts config state) :
    state.signals ≤ state.drawn.count 1 := by
  rw [accounts.signalled, ← accounts.last 1 (Nat.le_refl _)]
  apply Finset.sum_le_sum
  intro ctx _
  simp only [Worker.signaller, Worker.holds]
  split
  · rename_i back
    rw [if_pos back.2]
  · exact Nat.zero_le _

theorem signals_settled (accounts : Accounts config state)
    (waiting : ∀ ctx, (state.worker ctx).pc = .waiting) :
    state.signals = state.drawn.count 1 := by
  rw [accounts.signalled, ← accounts.last 1 (Nat.le_refl _)]
  apply Finset.sum_congr rfl
  intro ctx _
  simp only [Worker.signaller, Worker.holds, waiting ctx, true_and]

theorem completed_of_signalled (accounts : Accounts config state) (staffed : Staffed state)
    (signalled : 1 ≤ state.signals) : 1 ∈ state.completed := by
  rw [accounts.signalled] at signalled
  obtain ⟨ctx, _, sent⟩ := Finset.exists_ne_zero_of_sum_ne_zero (Nat.ne_of_gt signalled)
  have shape := staffed.shape ctx
  generalize state.worker ctx = worker at shape sent
  cases shape with
  | back ticket last done =>
      by_cases one : ticket = 1
      · exact one ▸ done
      · simp [Worker.signaller, one] at sent
  | _ => simp [Worker.signaller] at sent

end Settled

section Shares

variable {config : BwConfig} {state : BwState config.workers}

/-- The DMAs of the tickets `1` to `maxTrans`. -/
def BwState.ticketDmas {workers : Nat} (state : BwState workers) : List BwDma :=
  state.enqueued.filter fun dma => 1 ≤ dma.ticket

theorem ticketDmas_perm (accounts : Accounts config state)
    (exhausted : config.maxTrans ≤ state.drawn.length)
    (waiting : ∀ ctx, (state.worker ctx).pc = .waiting) :
    state.ticketDmas.Perm ((List.range' 1 config.maxTrans).map (bwDma config.test)) := by
  have tickets : state.ticketDmas =
      (state.tickets.filter (1 ≤ ·)).map (bwDma config.test) := by
    rw [ticketDmas, accounts.dmas, List.filter_map]
    rfl
  have drawn := Dispenser.draws_perm exhausted
  rw [← accounts.order] at drawn
  rw [tickets]
  exact (((tickets_perm accounts waiting).symm.filter _).trans drawn).map _

theorem bwRead_rw (trans : Nat) : bwRead .bwDmaRw trans = true ↔ trans % 2 = 1 := by
  simp only [bwRead, reduceCtorEq, if_false, bne_iff_ne, Nat.and_one_is_mod]
  omega

theorem bwDma_index (test : PciebenchTest) (trans : Nat) :
    (bwDma test trans).index = trans % pciebenchAddrArraySz := by
  simp only [bwDma, pciebenchAddrArraySz_eq]
  exact Nat.and_two_pow_sub_one_eq_mod trans 20

section Exhausted

variable (accounts : Accounts config state)
  (exhausted : config.maxTrans ≤ state.drawn.length)
  (waiting : ∀ ctx, (state.worker ctx).pc = .waiting)

include accounts exhausted waiting

theorem index_share {index : Nat} (bound : index < pciebenchAddrArraySz)
    (whole : pciebenchAddrArraySz ∣ config.maxTrans) :
    state.ticketDmas.countP (·.index = index) = config.maxTrans / pciebenchAddrArraySz := by
  obtain ⟨rounds, total⟩ := whole
  have positive : 0 < pciebenchAddrArraySz := by decide
  rw [(ticketDmas_perm accounts exhausted waiting).countP_eq, List.countP_map, total,
    Nat.mul_div_cancel_left rounds positive]
  refine Eq.trans (List.countP_congr ?_) (PeriodicSearch.countP_residue 1 rounds bound)
  intro ticket _
  simp only [Function.comp, bwDma_index]

theorem direction_share (readWrite : config.test = .bwDmaRw) (even : 2 ∣ config.maxTrans) :
    state.ticketDmas.countP (·.read) = config.maxTrans / 2 ∧
      state.ticketDmas.countP (!·.read) = config.maxTrans / 2 := by
  obtain ⟨rounds, total⟩ := even
  have shared := ticketDmas_perm accounts exhausted waiting
  rw [readWrite, total] at shared
  have halves : 2 * rounds / 2 = rounds := by omega
  have reads := PeriodicSearch.countP_residue 1 rounds (show 1 < 2 by omega)
  have writes := PeriodicSearch.countP_residue 1 rounds (show 0 < 2 by omega)
  rw [total, halves, shared.countP_eq, shared.countP_eq, List.countP_map, List.countP_map]
  constructor
  · refine Eq.trans (List.countP_congr ?_) reads
    intro ticket _
    simp only [Function.comp, bwDma, bwRead_rw, decide_eq_true_eq]
  · refine Eq.trans (List.countP_congr ?_) writes
    intro ticket _
    simp only [Function.comp, bwDma, Bool.not_eq_true', ← Bool.not_eq_true, bwRead_rw,
      decide_eq_true_eq]
    omega

end Exhausted

end Shares

section Runs

variable {config : BwConfig} {stale : Nat} {state : BwState config.workers}

/-- No ticket is drawn twice or lost, the master is signalled once and not before the DMA of
ticket 1 has completed, and the tickets are spread evenly over the address array and over the
two directions. -/
theorem bwRun_ticketDiscipline (reachable : BwReachable config stale state)
    (tickets : config.maxTrans = pciebenchBwTrans ∨ config.maxTrans = pciebenchJournalSz) :
    (∀ ticket, 1 ≤ ticket → ticket ≤ config.maxTrans → state.drawn.count ticket ≤ 1) ∧
    state.signals ≤ 1 ∧
    (1 ≤ state.signals → 1 ∈ state.completed) ∧
    (state.Settled →
      (∀ ticket, 1 ≤ ticket → ticket ≤ config.maxTrans → state.drawn.count ticket = 1) ∧
      state.signals = 1 ∧
      (∀ index, index < pciebenchAddrArraySz →
        state.ticketDmas.countP (·.index = index) = config.maxTrans / pciebenchAddrArraySz) ∧
      (config.test = .bwDmaRw →
        state.ticketDmas.countP (·.read) = config.maxTrans / 2 ∧
          state.ticketDmas.countP (!·.read) = config.maxTrans / 2)) := by
  have accounts := accounts_reachable reachable
  have staffed := staffed_reachable reachable
  have whole : pciebenchAddrArraySz ∣ config.maxTrans := by
    rcases tickets with bw | journal
    · exact ⟨8, bw⟩
    · exact ⟨16, journal⟩
  have even : 2 ∣ config.maxTrans := Nat.dvd_trans ⟨524288, rfl⟩ whole
  have some : 1 ≤ config.maxTrans := by
    rcases tickets with bw | journal
    · simp [bw]
    · simp [journal]
  refine ⟨?_, ?_, ?_, ?_⟩
  · intro ticket positive _
    exact drawn_count_le_one accounts positive
  · exact (signals_le_drawn accounts).trans (drawn_count_le_one accounts (Nat.le_refl _))
  · exact completed_of_signalled accounts staffed
  · rintro ⟨waiting, ctx, woken⟩
    obtain ⟨ticket, last, drawn, _⟩ := held_drawn accounts staffed (waiting ctx) woken
    have exhausted := exhausted_of_drawn accounts last drawn
    refine ⟨?_, ?_, ?_, ?_⟩
    · intro ticket positive bound
      exact drawn_count_eq_one accounts exhausted positive bound
    · rw [signals_settled accounts waiting]
      exact drawn_count_eq_one accounts exhausted (Nat.le_refl _) some
    · intro index bound
      exact index_share accounts exhausted waiting bound whole
    · intro readWrite
      exact direction_share accounts exhausted waiting readWrite even

theorem bwRun_ticketDiscipline_fullRun :
    ∃ state, BwReachable ⟨95, pciebenchBwTrans, .bwDmaRw⟩ 0 state ∧ state.signals = 1 ∧
      state.ticketDmas.countP (·.read) = 4194304 := by
  obtain ⟨state, reachable, back⟩ := exists_allBack ⟨95, pciebenchBwTrans, .bwDmaRw⟩ 0
  obtain ⟨_, _, _, settled⟩ := bwRun_ticketDiscipline reachable (.inl rfl)
  have here : state.Settled := ⟨fun ctx => (back ctx).1, ⟨0, by decide⟩, (back _).2⟩
  obtain ⟨_, once, _, directions⟩ := settled here
  exact ⟨state, reachable, once, (directions rfl).1⟩

theorem back_tickets (accounts : Accounts config state) (staffed : Staffed state)
    (back : state.AllBack) :
    state.drawn.count 0 + state.drawn.count 1 = config.workers := by
  rw [← accounts.last 0 (Nat.zero_le _), ← accounts.last 1 (Nat.le_refl _)]
  simp only [Pool.total]
  rw [← Finset.sum_add_distrib]
  have each : ∀ ctx, (state.worker ctx).holds 0 + (state.worker ctx).holds 1 = 1 := by
    intro ctx
    obtain ⟨ticket, last, _, held⟩ := held_drawn accounts staffed (back ctx).1 (back ctx).2
    rcases Nat.le_one_iff_eq_zero_or_eq_one.mp last with zero | one
    · simp [Worker.holds, held, zero]
    · simp [Worker.holds, held, one]
  simp only [each, Finset.sum_const, Finset.card_univ, Fintype.card_fin, smul_eq_mul, mul_one]

theorem enqueued_length_back (accounts : Accounts config state) (staffed : Staffed state)
    (back : state.AllBack) (positive : 1 ≤ config.workers) :
    state.enqueued.length + min 1 config.maxTrans = config.maxTrans + config.workers := by
  let first : Fin config.workers := ⟨0, positive⟩
  obtain ⟨ticket, last, drawn, _⟩ :=
    held_drawn accounts staffed (back first).1 (back first).2
  have exhausted := exhausted_of_drawn accounts last drawn
  have perm := (tickets_perm accounts fun ctx => (back ctx).1).length_eq
  have length : state.tickets.length = state.enqueued.length := List.length_map _
  have counted := back_tickets accounts staffed back
  have zeros : state.drawn.count 0 = state.drawn.length - config.maxTrans := by
    conv_lhs => rw [accounts.order]
    exact Dispenser.count_draws_zero
  by_cases none : config.maxTrans = 0
  · have ones : state.drawn.count 1 = 0 := by
      rw [accounts.order, List.count_eq_zero]
      simp [Dispenser.draws, none]
    omega
  · have ones := drawn_count_eq_one accounts exhausted (Nat.le_refl 1) (by omega)
    omega

theorem drawn_nil_of_no_workers (reachable : BwReachable config stale state)
    (nobody : config.workers = 0) : state.enqueued = [] := by
  induction reachable with
  | start => rfl
  | @step before after action _ _ moved nothing =>
      cases action with
      | arm =>
          obtain ⟨_, rfl⟩ := bwStep_arm moved
          exact nothing
      | start =>
          obtain ⟨_, rfl⟩ := bwStep_start moved
          exact nothing
      | finish =>
          obtain ⟨_, _, rfl⟩ := bwStep_finish moved
          exact nothing
      | join ctx | ping ctx | draw ctx | enqueue ctx | complete ctx | check ctx | leave ctx =>
          exact absurd ctx.isLt (by omega)

/-- Every worker but one issues a DMA for ticket zero before it stops, so the DMAs of a run
are as many as the master reports for a single worker only. -/
theorem bwRun_enqueued (config : BwConfig) (stale : Nat) :
    (∃ state, BwReachable config stale state ∧ state.AllBack) ∧
    ∀ state, BwReachable config stale state → state.AllBack →
      (state.master = .done → state.r0 = some config.maxTrans) ∧
      (1 ≤ config.workers →
        state.enqueued.length + min 1 config.maxTrans = config.maxTrans + config.workers) ∧
      (state.enqueued.length = config.maxTrans ↔
        (config.workers = 1 ∧ 1 ≤ config.maxTrans) ∨
          (config.workers = 0 ∧ config.maxTrans = 0)) := by
  refine ⟨exists_allBack config stale, ?_⟩
  intro state reachable back
  have accounts := accounts_reachable reachable
  have staffed := staffed_reachable reachable
  refine ⟨accounts.reported, enqueued_length_back accounts staffed back, ?_⟩
  by_cases nobody : config.workers = 0
  · have nothing := drawn_nil_of_no_workers reachable nobody
    simp only [nothing, List.length_nil]
    omega
  · have counted := enqueued_length_back accounts staffed back (by omega)
    omega

theorem bwRun_enqueued_surplus :
    ∃ state, BwReachable ⟨2, 2, .bwDmaRd⟩ 0 state ∧ state.AllBack ∧ state.r0 = some 2 ∧
      state.enqueued.length = 3 := by
  have ran : exec (bwStep ⟨2, 2, .bwDmaRd⟩) (idle 0) [.arm, .start, .join 0, .ping 0, .join 1,
      .ping 1, .draw 0, .enqueue 0, .complete 0, .check 0, .draw 0, .draw 1, .enqueue 0,
      .enqueue 1, .complete 0, .complete 1, .check 0, .check 1, .leave 0, .leave 1,
      .finish] = some _ := rfl
  refine ⟨_, exec_reachable ran, ?_, rfl, rfl⟩
  intro ctx
  fin_cases ctx
  · exact ⟨rfl, nofun⟩
  · exact ⟨rfl, nofun⟩

end Runs

end Pciebench
