import Mathlib
import Pciebench.IslandProgress
import Pciebench.SingleWorkers

/-!
How far the wake-up chain of a single run goes. `__ME` keeps three bits of the number of the
ME, so that no ME takes itself for number 11: on the NFP-3200 the chain ends at the last
worker, on the NFP-6000 the last worker pings an ME without workers.
-/

namespace Pciebench

open Machine IslandState

section Targets

variable {chip : Chip} (island : Island chip)

theorem pingsSent_inner {number : Nat} (inner : number ≤ workerCount chip) :
    pingsSent island number = (List.range number).map fun source => ⟨source, source + 1⟩ := by
  induction number with
  | zero => rfl
  | succ number ih =>
      rcases Nat.eq_zero_or_pos number with rfl | positive
      · rfl
      · rw [pingsSent_succ island positive, pingTarget_inner island inner, ih (by omega),
          List.range_succ, List.map_append]
        rfl

theorem pingsSent_nfp3200 (island : Island .nfp3200) {number : Nat}
    (bound : number ≤ workerCount .nfp3200 + 1) :
    pingsSent island number =
      (List.range (min number (workerCount .nfp3200))).map fun source => ⟨source, source + 1⟩ := by
  rcases Nat.lt_or_eq_of_le bound with inner | last
  · rw [Nat.min_eq_left (by omega), pingsSent_inner island (by omega)]
  · rw [last, pingsSent_succ island (by decide), pingTarget_last, if_pos rfl, Option.map_none,
      Option.toList_none, List.append_nil, pingsSent_inner island (le_refl _),
      Nat.min_eq_right (Nat.le_succ _)]

end Targets

/-- The start pings of a run have gone to each worker context once when it cannot go on, and
to nobody else, and the last worker context has sent none. -/
structure IslandState.PingsWorkers {chip : Chip} (island : Island chip)
    (state : IslandState (workerCount chip)) : Prop where
  inside : ∀ ping ∈ state.pings,
    ping.source ≠ workerCount chip ∧ 1 ≤ ping.target ∧ ping.target ≤ workerCount chip
  once : state.Stuck island → ∀ ctx : Fin (workerCount chip),
    (state.pings.map BwPing.target).count (contextNumber ctx) = 1

section Stuck

variable {chip : Chip} {island : Island chip} {state : IslandState (workerCount chip)}
  {request : BwRequest}

theorem stuck_armed (stuck : state.Stuck island) (turns : state.TakesTurns)
    (single : state.Single request) (accepted : request.accepted) : state.armed = [request] := by
  have taken : state.todo = [] := by
    rcases single.todo with empty | ⟨asked, idle⟩
    · exact empty
    · have host := stuck.none .host
      simp only [islandStep, hostStep, idle, asked] at host
      contradiction
  exact single.served taken (stuck_not_begun stuck turns) accepted

theorem stuck_front {front : Nat} (stuck : state.Stuck island) (chained : state.Chained island front)
    (turns : state.TakesTurns) (single : state.Single request) (accepted : request.accepted) :
    front = workerCount chip + 1 := by
  have armed := stuck_armed stuck turns single accepted
  have sent : front ≠ 0 := by
    intro unsent
    rcases chained.unsent.mp unsent with none | starting
    · rw [none] at armed
      contradiction
    · have main := stuck.none .main
      simp only [islandStep, mainStep, starting] at main
      contradiction
  by_contra short
  have bound := chained.bound
  have at' : contextNumber (⟨front - 1, by omega⟩ : Fin (workerCount chip)) = front := by
    simp only [contextNumber]
    omega
  obtain ⟨waiting, unsignalled⟩ := stuck_context stuck ⟨front - 1, by omega⟩
  rcases chained.atFront _ at' with pending | holds
  · rw [pending.sig] at unsignalled
    contradiction
  · have holding := holds.holding
    rw [waiting] at holding
    contradiction

end Stuck

section Runs

variable {chip : Chip} {request : BwRequest}

theorem pingsWorkers_nfp3200 {island : Island .nfp3200}
    {state : IslandState (workerCount .nfp3200)} (accepted : request.accepted)
    (reached : IslandReachable island [request] state) : state.PingsWorkers island := by
  obtain ⟨front, chained⟩ := (inOrder_single reached).chain
  have pings := chained.pings.trans (pingsSent_nfp3200 island chained.bound)
  refine ⟨?_, ?_⟩
  · intro ping sent
    rw [pings] at sent
    obtain ⟨source, inner, rfl⟩ := List.mem_map.mp sent
    have below := (List.mem_range.mp inner).trans_le (Nat.min_le_right _ _)
    exact ⟨by simp only; omega, by simp only; omega, by simp only; omega⟩
  · intro stuck ctx
    have whole := stuck_front stuck chained (inTurn_reached reached).turns (single_reachable reached)
      accepted
    have targets : state.pings.map BwPing.target =
        (List.range (workerCount .nfp3200)).map Nat.succ := by
      rw [pings, whole, Nat.min_eq_right (Nat.le_succ _), List.map_map]
      rfl
    rw [targets]
    refine List.count_eq_one_of_mem (List.nodup_range.map Nat.succ_injective) ?_
    exact List.mem_map.mpr ⟨ctx.val, List.mem_range.mpr ctx.isLt, rfl⟩

theorem pingsWorkers_unstarted {island : Island chip} {state : IslandState (workerCount chip)}
    (accepted : request.accepted) (hangs : island.setUpReturns 0 request.params = false)
    (reached : IslandReachable island [request] state) : state.PingsWorkers island := by
  have unarmed : state.armed = [] := (startsAccepted_single reached).unarmed (.inr hangs)
  obtain ⟨front, chained⟩ := (inOrder_single reached).chain
  have none := chained.unsent.mpr (.inl unarmed)
  have quiet : state.pings = [] := by
    rw [chained.pings, none]
    rfl
  refine ⟨?_, ?_⟩
  · intro ping sent
    rw [quiet] at sent
    contradiction
  · intro stuck
    have armed := stuck_armed stuck (inTurn_reached reached).turns (single_reachable reached)
      accepted
    rw [unarmed] at armed
    contradiction

theorem exists_allPinged (island : Island chip) (accepted : request.accepted)
    (returns : island.setUpReturns 0 request.params = true) :
    ∃ state, IslandReachable island [request] state ∧
      state.pings = pingsSent island (workerCount chip + 1) := by
  obtain ⟨started, starts, facts, _, fresh⟩ := exists_firstPing island accepted returns []
  obtain ⟨state, relays, relayed⟩ := exists_relays island fresh (le_refl 1)
    (Nat.le_add_left 1 (workerCount chip)) (le_refl _)
  exact ⟨state, starts.trans relays, relayed.pings facts.pings⟩

/-- The chain reaches the workers and nobody else exactly on the NFP-3200, or where the set-up
does not return and no chain begins. -/
theorem bwRun_pingsWorkers (island : Island chip) (request : BwRequest)
    (accepted : request.accepted) :
    (∀ state, IslandReachable island [request] state → state.PingsWorkers island) ↔
      chip = .nfp3200 ∨ island.setUpReturns 0 request.params = false := by
  constructor
  · intro pingsWorkers
    by_contra neither
    obtain ⟨nfp6000, returns⟩ := not_or.mp neither
    obtain ⟨state, reached, pings⟩ := exists_allPinged island accepted
      (Bool.eq_true_of_not_eq_false returns)
    have beyond : (⟨workerCount chip, workerCount chip + 1⟩ : BwPing) ∈ state.pings := by
      rw [pings, pingsSent_succ island (by cases chip <;> decide), pingTarget_last,
        if_neg nfp6000]
      exact List.mem_append_right _ (List.mem_singleton_self _)
    exact ((pingsWorkers state reached).inside _ beyond).1 rfl
  · rintro (rfl | hangs) state reached
    · exact pingsWorkers_nfp3200 accepted reached
    · exact pingsWorkers_unstarted accepted hangs reached

theorem bwRun_pingsWorkers_reads :
    (∀ state, IslandReachable (plainIsland .nfp3200) [shortReads] state →
      state.PingsWorkers (plainIsland .nfp3200)) ↔
        Chip.nfp3200 = .nfp3200 ∨ (plainIsland .nfp3200).setUpReturns 0 shortReads.params = false :=
  bwRun_pingsWorkers (plainIsland .nfp3200) shortReads rfl

theorem bwRun_pingsWorkers_overrun :
    ∃ state, IslandReachable (plainIsland .nfp6000) [shortReads] state ∧
      ⟨95, 96⟩ ∈ state.pings ∧ ¬ state.PingsWorkers (plainIsland .nfp6000) := by
  obtain ⟨state, reached, pings⟩ := exists_allPinged (plainIsland .nfp6000)
    (rfl : shortReads.accepted) rfl
  have beyond : (⟨95, 96⟩ : BwPing) ∈ state.pings := by
    rw [pings, pingsSent_succ _ (by decide), pingTarget_last]
    exact List.mem_append_right _ (List.mem_singleton_self _)
  exact ⟨state, reached, beyond, fun pingsWorkers => (pingsWorkers.inside _ beyond).1 rfl⟩

end Runs

end Pciebench
