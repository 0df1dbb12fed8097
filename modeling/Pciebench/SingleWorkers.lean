import Mathlib
import Pciebench.SingleRun

/-!
The worker contexts in a single run: each is woken once, by the one ping that it gets, and
until then is as it was loaded; and the counter is exhausted by the time the result is
published.
-/

namespace Pciebench

open Machine WordCopy IslandState

section Woken

variable {chip : Chip} {island : Island chip} {front : Nat}
  {state next : IslandState (workerCount chip)} {ctx : Fin (workerCount chip)}
  {request : BwRequest}

theorem pingsSent_target {ping : BwPing} (bound : front ≤ workerCount chip + 1)
    (sent : ping ∈ pingsSent island front) : ping.target ≤ front := by
  cases front with
  | zero => contradiction
  | succ passed =>
      rcases List.mem_cons.mp sent with rfl | later
      · exact Nat.le_add_left 1 passed
      · obtain ⟨number, passedOn, pinged⟩ := List.mem_filterMap.mp later
        obtain ⟨target, found, rfl⟩ := Option.map_eq_some_iff.mp pinged
        have inner := (List.mem_range'_1.mp passedOn).2
        have after := pingTarget_next island (by omega) found
        simp only
        omega

structure IslandState.WokenOnce {workers : Nat} (state : IslandState workers) : Prop where
  fresh : ∀ ctx, (state.worker ctx).joined = 0 →
    ∃ sig, state.worker ctx = { BwContext.fresh with startSig := sig }
  pending : ∀ ctx, (state.worker ctx).startSig ≠ [] → (state.worker ctx).joined = 0
  pinged : ∀ ctx, (state.worker ctx).joined ≠ 0 ∨ (state.worker ctx).startSig ≠ [] →
    contextNumber ctx ∈ state.pings.map BwPing.target

theorem IslandState.WokenOnce.ahead (woken : state.WokenOnce) (chained : state.Chained island front)
    (above : front < contextNumber ctx) : state.worker ctx = BwContext.fresh := by
  have notPinged : contextNumber ctx ∉ state.pings.map BwPing.target := by
    rw [chained.pings]
    intro member
    obtain ⟨ping, sent, target⟩ := List.mem_map.mp member
    have := pingsSent_target chained.bound sent
    omega
  have joined : (state.worker ctx).joined = 0 := by
    by_contra some'
    exact notPinged (woken.pinged ctx (.inl some'))
  have unsignalled : (state.worker ctx).startSig = [] := by
    by_contra some'
    exact notPinged (woken.pinged ctx (.inr some'))
  obtain ⟨sig, fresh⟩ := woken.fresh ctx joined
  rw [fresh] at unsignalled ⊢
  simp only at unsignalled
  rw [unsignalled]
  rfl

theorem IslandState.WokenOnce.joined (woken : state.WokenOnce)
    (busy : (state.worker ctx).pc ≠ .waiting) : (state.worker ctx).joined ≠ 0 := by
  intro never
  obtain ⟨sig, fresh⟩ := woken.fresh ctx never
  rw [fresh] at busy
  exact busy rfl

theorem IslandState.WokenOnce.unsent (woken : state.WokenOnce) (order : state.InOrder island)
    (unsent : state.armed = [] ∨ state.main = .starting) (ctx : Fin (workerCount chip)) :
    state.worker ctx = BwContext.fresh := by
  obtain ⟨front, chained⟩ := order.chain
  have none := chained.unsent.mpr unsent
  exact woken.ahead chained (by rw [none]; exact Nat.succ_pos _)

theorem IslandState.WokenOnce.same (woken : state.WokenOnce) (worker : next.worker = state.worker)
    (pings : next.pings = state.pings) : next.WokenOnce := by
  refine ⟨?_, ?_, ?_⟩
  · rw [worker]
    exact woken.fresh
  · rw [worker]
    exact woken.pending
  · rw [worker, pings]
    exact woken.pinged

theorem IslandState.WokenOnce.goesOn {after : BwContext} (woken : state.WokenOnce)
    (busy : (state.worker ctx).pc ≠ .waiting)
    (worker : next.worker = Function.update state.worker ctx after)
    (sig : after.startSig = (state.worker ctx).startSig)
    (joined : after.joined = (state.worker ctx).joined) (pings : next.pings = state.pings) :
    next.WokenOnce := by
  have known := woken.joined busy
  refine ⟨?_, ?_, ?_⟩
  · intro other never
    by_cases same : other = ctx
    · subst same
      rw [worker, Function.update_self, joined] at never
      exact absurd never known
    · rw [worker, Function.update_of_ne same] at never ⊢
      exact woken.fresh other never
  · intro other signalled
    by_cases same : other = ctx
    · subst same
      rw [worker, Function.update_self] at signalled ⊢
      rw [sig] at signalled
      rw [joined]
      exact woken.pending other signalled
    · rw [worker, Function.update_of_ne same] at signalled ⊢
      exact woken.pending other signalled
  · intro other reached
    rw [pings]
    by_cases same : other = ctx
    · subst same
      rw [worker, Function.update_self, sig, joined] at reached
      exact woken.pinged other reached
    · rw [worker, Function.update_of_ne same] at reached
      exact woken.pinged other reached

theorem IslandState.WokenOnce.sent (woken : state.WokenOnce) (run : Nat) (ping : BwPing)
    (fresh : ∀ other, contextNumber other = ping.target →
      state.worker other = BwContext.fresh) : (state.sendPing run ping).WokenOnce := by
  refine ⟨?_, ?_, ?_⟩
  · intro other never
    simp only [sendPing] at never ⊢
    split
    · rename_i target
      rw [fresh other target]
      exact ⟨_, rfl⟩
    · rename_i apart
      rw [if_neg apart] at never
      exact woken.fresh other never
  · intro other signalled
    simp only [sendPing] at signalled ⊢
    split
    · rename_i target
      rw [fresh other target]
      rfl
    · rename_i apart
      rw [if_neg apart] at signalled
      exact woken.pending other signalled
  · intro other reached
    simp only [sendPing, List.map_append, List.mem_append] at reached ⊢
    by_cases target : contextNumber other = ping.target
    · exact .inr (by simp [target])
    · rw [if_neg target] at reached
      exact .inl (woken.pinged other reached)

theorem wokenOnce_work (woken : state.WokenOnce) (order : state.InOrder island)
    (move : WorkMove island state ctx next) : next.WokenOnce := by
  obtain ⟨front, chained⟩ := order.chain
  cases move with
  | join pc signalled =>
      obtain ⟨at', _⟩ := chained.signalled signalled
      have positive := (contextNumber_le ctx).2
      obtain ⟨_, _, ran, _⟩ := chained.armed (at' ▸ positive)
      refine ⟨?_, ?_, ?_⟩
      · intro other never
        by_cases same : other = ctx
        · subst same
          simp only [setWorker, Function.update_self] at never
          omega
        · simp only [setWorker, Function.update_of_ne same] at never ⊢
          exact woken.fresh other never
      · intro other signalled'
        by_cases same : other = ctx
        · subst same
          simp [setWorker] at signalled'
        · simp only [setWorker, Function.update_of_ne same] at signalled' ⊢
          exact woken.pending other signalled'
      · intro other reached
        by_cases same : other = ctx
        · subst same
          exact woken.pinged other (.inr signalled)
        · simp only [setWorker, Function.update_of_ne same] at reached
          exact woken.pinged other reached
  | ping target pc found =>
      obtain ⟨at', _⟩ := chained.held pc rfl
      have after := pingTarget_next island (contextNumber_le ctx).1 found
      have up : (state.setWorker ctx { state.worker ctx with pc := .settingUp }).WokenOnce :=
        woken.goesOn (by simp [pc]) rfl rfl rfl rfl
      refine up.sent _ _ ?_
      intro other target'
      simp only at target'
      have apart : other ≠ ctx := by
        rintro rfl
        omega
      simp only [setWorker, Function.update_of_ne apart]
      exact woken.ahead chained (by omega)
  | fetchTest pc | fetchParam index pc more | fetched index pc all | last pc nobody | setUp pc
  | draw pc | issue pc | complete pc | check pc | leave pc =>
      exact woken.goesOn (by simp [pc]) rfl rfl rfl rfl

theorem wokenOnce_main (woken : state.WokenOnce) (order : state.InOrder island)
    (single : state.Single request) (move : MainMove island state next) : next.WokenOnce := by
  cases move with
  | arm main returned =>
      have unarmed := single.unserved (.inr (.inr (.inr (.inr (.inr main)))))
      have fresh := woken.unsent order (.inl unarmed)
      refine ⟨woken.fresh, woken.pending, ?_⟩
      intro ctx reached
      simp only [fresh ctx] at reached
      rcases reached with joined | signalled <;> contradiction
  | start main =>
      have fresh := woken.unsent order (.inr main)
      exact (woken.sent state.run ⟨0, 1⟩ fun other _ => fresh other).same rfl rfl
  | wake main positive | copyParam index main more | «switch» index main all | refuse main refused
  | accept main accepted | finish main signalled | publish res main =>
      exact woken.same rfl rfl

theorem wokenOnce_single (reached : IslandReachable island [request] state) :
    state.WokenOnce := by
  refine reached.invariant ⟨fun _ _ => ⟨[], rfl⟩, fun _ _ => rfl, ?_⟩ ?_
  · rintro ctx (joined | signalled) <;> contradiction
  · intro before action after earlier woken _ moved
    have order := inOrder_single earlier
    rcases islandStep_moves moved with ⟨_, move⟩ | ⟨_, move⟩ | ⟨ctx, _, move⟩
    · cases move <;> exact woken.same rfl rfl
    · exact wokenOnce_main woken order (single_reachable earlier) move
    · exact wokenOnce_work woken order move

end Woken

section Counted

variable {chip : Chip} {island : Island chip} {state next : IslandState (workerCount chip)}
  {ctx : Fin (workerCount chip)} {request : BwRequest}

/-- The counter is below every ticket that is held, and exhausted once the result is out. -/
structure IslandState.Counted {workers : Nat} (state : IslandState workers) : Prop where
  held : ∀ ctx, (state.worker ctx).pc.finishing = true → 1 ≤ (state.worker ctx).trans →
    state.numDmaTrans < (state.worker ctx).trans
  signalled : state.mainSig = true → state.armed ≠ [] ∧ state.numDmaTrans = 0
  publishing : state.armed ≠ [] → ∀ res, state.main = .publishing res →
    state.numDmaTrans = 0 ∧ res = 0
  published : state.armed ≠ [] → state.testCtrl ≤ 0 → state.numDmaTrans = 0 ∧ state.testCtrl = 0

theorem counted_host (counted : state.Counted) (move : HostMove state next) : next.Counted := by
  cases move with
  | setCtrl other index host all =>
      refine ⟨counted.held, counted.signalled, counted.publishing, ?_⟩
      intro _ settled
      exact absurd other.test.ctrl_pos (Int.not_lt.mpr settled)
  | begin other rest host todo | setParam other index host more | finish other host settled =>
      exact ⟨counted.held, counted.signalled, counted.publishing, counted.published⟩

theorem counted_main (counted : state.Counted) (woken : state.WokenOnce)
    (order : state.InOrder island) (turns : state.TakesTurns) (single : state.Single request)
    (move : MainMove island state next) : next.Counted := by
  -- while a request is served the result is not out
  have serves (busy : state.main ≠ .polling) : 0 < state.testCtrl := by
    obtain ⟨other, _, ctrl, _⟩ := takesTurns_busy turns busy
    rw [ctrl]
    exact other.test.ctrl_pos
  cases move with
  | wake main positive | copyParam index main more | «switch» index main all
  | accept main accepted =>
      exact ⟨counted.held, counted.signalled, nofun, counted.published⟩
  | refuse main refused =>
      have unarmed := single.unserved (.inr (.inr (.inr (.inr (.inl main)))))
      exact ⟨counted.held, counted.signalled, fun armed => absurd unarmed armed,
        counted.published⟩
  | arm main returned =>
      have unarmed := single.unserved (.inr (.inr (.inr (.inr (.inr main)))))
      have positive := serves (by simp [main])
      refine ⟨?_, ?_, nofun, ?_⟩
      · intro ctx finishing
        simp only [woken.unsent order (.inl unarmed) ctx] at finishing
        contradiction
      · intro early
        exact absurd unarmed (counted.signalled early).1
      · intro _ settled
        exact absurd positive (Int.not_lt.mpr settled)
  | start main =>
      refine ⟨?_, counted.signalled, nofun, counted.published⟩
      intro ctx finishing
      simp only [sendPing_pc, woken.unsent order (.inr main) ctx] at finishing
      contradiction
  | finish main signalled =>
      refine ⟨counted.held, nofun, ?_, counted.published⟩
      intro _ res publishing
      cases publishing
      exact ⟨(counted.signalled signalled).2, rfl⟩
  | publish res main =>
      refine ⟨counted.held, counted.signalled, nofun, ?_⟩
      intro armed _
      exact counted.publishing armed res main

theorem counted_work (counted : state.Counted) (woken : state.WokenOnce)
    (order : state.InOrder island) (move : WorkMove island state ctx next) : next.Counted := by
  obtain ⟨testCtrl, _, _, _, main, _, armed⟩ := move.frame
  have fewer : next.numDmaTrans ≤ state.numDmaTrans := by
    cases move with
    | draw pc => exact Nat.sub_le _ _
    | _ => exact le_refl _
  have held (other : Fin (workerCount chip)) (finishing : (next.worker other).pc.finishing = true)
      (some' : 1 ≤ (next.worker other).trans) :
      next.numDmaTrans < (next.worker other).trans := by
    by_cases same : other = ctx
    · subst same
      cases move with
      | draw pc =>
          simp only [setWorker, Function.update_self] at some' ⊢
          omega
      | issue pc | complete pc | leave pc =>
          simp only [setWorker, Function.update_self] at some' ⊢
          exact counted.held other (by rw [pc]; rfl) some'
      | check pc =>
          simp only [setWorker, Function.update_self] at some' ⊢
          exact counted.held other (by rw [pc]; rfl) some'
      | join pc signalled =>
          simp only [setWorker, Function.update_self] at finishing
          split at finishing <;> contradiction
      | fetchTest pc | fetchParam index pc more | fetched index pc all | ping target pc found
      | last pc nobody | setUp pc => simp [setWorker, ContextPc.finishing] at finishing
    · obtain ⟨sig, kept⟩ := move.others same
      rw [kept] at finishing some' ⊢
      exact fewer.trans_lt (counted.held other finishing some')
  have exhausted (none : state.numDmaTrans = 0) : next.numDmaTrans = 0 := by omega
  refine ⟨held, ?_, ?_, ?_⟩
  · rw [armed]
    have kept (signalled : state.mainSig = true) : state.armed ≠ [] ∧ next.numDmaTrans = 0 :=
      ⟨(counted.signalled signalled).1, exhausted (counted.signalled signalled).2⟩
    cases move with
    | leave pc =>
        intro signalled
        simp only at signalled
        split at signalled
        · rename_i one
          have below := counted.held ctx (by rw [pc]; rfl) one.ge
          have ran : state.armed ≠ [] := by
            intro unarmed
            rw [woken.unsent order (.inl unarmed) ctx] at pc
            contradiction
          exact ⟨ran, by simp only [setWorker]; omega⟩
        · exact kept signalled
    | _ => exact kept
  · rw [armed, main]
    intro ran res publishing
    obtain ⟨none, zero⟩ := counted.publishing ran res publishing
    exact ⟨exhausted none, zero⟩
  · rw [armed, testCtrl]
    intro ran settled
    obtain ⟨none, zero⟩ := counted.published ran settled
    exact ⟨exhausted none, zero⟩

theorem counted_single (reached : IslandReachable island [request] state) : state.Counted := by
  refine reached.invariant ⟨nofun, nofun, nofun, ?_⟩ ?_
  · intro armed
    contradiction
  · intro before action after earlier counted _ moved
    have woken := wokenOnce_single earlier
    have order := inOrder_single earlier
    rcases islandStep_moves moved with ⟨_, move⟩ | ⟨_, move⟩ | ⟨ctx, _, move⟩
    · exact counted_host counted move
    · exact counted_main counted woken order (inTurn_reached earlier).turns
        (single_reachable earlier) move
    · exact counted_work counted woken order move

end Counted

section Starts

variable {chip : Chip} {island : Island chip} {request : BwRequest}
  {state : IslandState (workerCount chip)}

/-- The counter is started for requests that pass the check only, once their set-up has
returned, and nothing is enqueued before. -/
structure IslandState.StartsAccepted {chip : Chip} {workers : Nat} (island : Island chip)
    (request : BwRequest) (state : IslandState workers) : Prop where
  accepted : state.armed ≠ [] → request.accepted
  returned : state.armed ≠ [] → island.setUpReturns 0 request.params = true
  quiet : state.armed = [] → state.issued = []

theorem IslandState.StartsAccepted.unarmed (starts : state.StartsAccepted island request)
    (unstarted : ¬ request.accepted ∨ island.setUpReturns 0 request.params = false) :
    state.armed = [] := by
  by_contra ran
  rcases unstarted with refused | hangs
  · exact refused (starts.accepted ran)
  · exact Bool.false_ne_true (hangs.symm.trans (starts.returned ran))

theorem startsAccepted_single (reached : IslandReachable island [request] state) :
    state.StartsAccepted island request := by
  refine reached.invariant ⟨fun ran => absurd rfl ran, fun ran => absurd rfl ran, fun _ => rfl⟩ ?_
  intro before action after earlier starts _ moved
  rcases islandStep_moves moved with ⟨_, move⟩ | ⟨_, move⟩ | ⟨ctx, _, move⟩
  · cases move <;> exact ⟨starts.accepted, starts.returned, starts.quiet⟩
  · cases move with
    | arm main returned =>
        obtain ⟨other, host, _, _, progress⟩ :=
          takesTurns_busy (inTurn_reached earlier).turns (by simp [main])
        have same := (single_reachable earlier).asked other (by rw [host]; rfl)
        simp only [MainAt, main, same] at progress
        have first : before.run = 0 := by
          have unarmed := (single_reachable earlier).unserved
            (.inr (.inr (.inr (.inr (.inr main)))))
          simp only [IslandState.run, unarmed, List.length_nil]
        rw [progress.1, first] at returned
        refine ⟨fun _ => progress.2, fun _ => returned, ?_⟩
        intro unarmed
        simp [host, BwHostPc.current] at unarmed
    | wake main positive | copyParam index main more | «switch» index main all
    | refuse main refused | accept main accepted | start main | finish main signalled
    | publish res main => exact ⟨starts.accepted, starts.returned, starts.quiet⟩
  · obtain ⟨_, _, _, _, _, _, armed⟩ := move.frame
    refine ⟨armed ▸ starts.accepted, armed ▸ starts.returned, ?_⟩
    rw [armed]
    intro unarmed
    cases move with
    | issue pc =>
        have fresh := (wokenOnce_single earlier).unsent (inOrder_single earlier) (.inl unarmed) ctx
        rw [fresh] at pc
        contradiction
    | _ => exact starts.quiet unarmed

end Starts

end Pciebench
