import Mathlib
import Pciebench.IslandChain

/-!
A single bandwidth test on freshly loaded firmware: the counter is started once, and before
that no context has been pinged, so that every such run is in good order.
-/

namespace Pciebench

open Machine WordCopy IslandState

/-- Where the only request of the host is. -/
structure IslandState.Single {workers : Nat} (request : BwRequest) (state : IslandState workers) :
    Prop where
  todo : state.todo = [] ∨ (state.todo = [request] ∧ state.host = .idle)
  asked : ∀ other, state.host.current = some other → other = request
  armed : state.armed = [] ∨ state.armed = [request]
  unserved : state.todo ≠ [] ∨ state.Begun → state.armed = []
  served : state.todo = [] → ¬ state.Begun → request.accepted → state.armed = [request]

section Steps

variable {chip : Chip} {island : Island chip} {workers : Nat}
  {state next : IslandState workers} {request : BwRequest}

theorem IslandState.Single.taken (single : state.Single request) (busy : state.host ≠ .idle) :
    state.todo = [] := by
  rcases single.todo with empty | ⟨_, idle⟩
  · exact empty
  · exact absurd idle busy

theorem single_host (single : state.Single request) (turns : state.TakesTurns)
    (move : HostMove state next) : next.Single request := by
  cases move with
  | begin other rest host todo =>
      rcases single.todo with empty | ⟨only, _⟩
      · rw [todo] at empty
        contradiction
      · rw [todo] at only
        obtain ⟨rfl, rfl⟩ := List.cons.inj only
        have begun (tail : Prop) : (∃ asked index, BwHostPc.settingParams other 1 =
            .settingParams asked index) ∨ tail := .inl ⟨other, 1, rfl⟩
        refine ⟨.inl rfl, ?_, single.armed, ?_, ?_⟩
        · intro asked current
          exact (Option.some.inj current).symm
        · intro _
          exact single.unserved (.inl (by rw [todo]; simp))
        · intro _ notBegun
          exact absurd (begun _) notBegun
  | setParam other index host more =>
      have same := single.asked other (by rw [host]; rfl)
      have empty := single.taken (by simp [host])
      refine ⟨.inl empty, ?_, single.armed, ?_, ?_⟩
      · intro asked current
        exact (Option.some.inj current).symm.trans same
      · intro _
        exact single.unserved (.inr (.inl ⟨other, index, host⟩))
      · intro _ notBegun
        exact absurd (.inl ⟨other, index + 1, rfl⟩) notBegun
  | setCtrl other index host all =>
      have same := single.asked other (by rw [host]; rfl)
      simp only [TakesTurns, host] at turns
      have empty := single.taken (by simp [host])
      refine ⟨.inl empty, ?_, single.armed, ?_, ?_⟩
      · intro asked current
        exact (Option.some.inj current).symm.trans same
      · intro _
        exact single.unserved (.inr (.inl ⟨other, index, host⟩))
      · intro _ notBegun
        exact absurd (.inr (.inl ⟨turns.1.2, other.test.ctrl_pos⟩)) notBegun
  | finish other host settled =>
      have empty := single.taken (by simp [host])
      have begun : (∃ asked index, state.host = .settingParams asked index) ↔
          ∃ asked index, BwHostPc.idle = .settingParams asked index := by
        simp [host]
      refine ⟨.inl empty, ?_, single.armed, ?_, ?_⟩
      · intro _ current
        cases current
      · rintro (some' | later)
        · exact absurd empty some'
        · exact single.unserved (.inr (later.imp_left begun.mpr))
      · intro _ notBegun
        exact single.served empty fun later => notBegun (later.imp_left begun.mp)

theorem IslandState.Single.quiet (single : state.Single request) (taken : state.todo = [])
    (before : state.Begun) (after : next.Begun) (host : next.host = state.host)
    (todo : next.todo = state.todo) (armed : next.armed = state.armed) :
    next.Single request := by
  refine ⟨.inl (todo.trans taken), ?_, ?_, ?_, ?_⟩
  · rw [host]
    exact single.asked
  · rw [armed]
    exact single.armed
  · intro _
    rw [armed]
    exact single.unserved (.inr before)
  · intro _ notBegun
    exact absurd after notBegun

theorem IslandState.Single.settled (single : state.Single request) (taken : state.todo = [])
    (before : ¬ state.Begun) (after : ¬ next.Begun) (host : next.host = state.host)
    (todo : next.todo = state.todo) (armed : next.armed = state.armed) :
    next.Single request := by
  refine ⟨.inl (todo.trans taken), ?_, ?_, ?_, ?_⟩
  · rw [host]
    exact single.asked
  · rw [armed]
    exact single.armed
  · rintro (unasked | begun)
    · rw [todo] at unasked
      exact absurd taken unasked
    · exact absurd begun after
  · intro _ _ accepted
    rw [armed]
    exact single.served taken before accepted

theorem not_begun_published {other : BwRequest} (host : state.host = .polling other)
    (main : state.main = .polling) (ctrl : state.testCtrl ≤ 0) : ¬ state.Begun := by
  rintro (⟨asked, index, writing⟩ | ⟨_, positive⟩ | ⟨index, copying⟩ | passing | arming)
  · rw [host] at writing
    contradiction
  · omega
  all_goals simp_all

theorem single_main (single : state.Single request) (turns : state.TakesTurns)
    (move : MainMove island state next) : next.Single request := by
  obtain ⟨other, host, ctrl, posted, progress⟩ :
      ∃ other, state.host = .polling other ∧ state.Serving other := by
    rcases takesTurns_serving turns with ⟨ctrl, main⟩ | serving
    · cases move <;> simp_all
      omega
    · exact serving
  have same := single.asked other (by rw [host]; rfl)
  subst same
  have taken := single.taken (by simp [host])
  cases move with
  | wake main positive =>
      exact single.quiet taken (.inr (.inl ⟨main, positive⟩)) (.inr (.inr (.inl ⟨0, rfl⟩)))
        rfl rfl rfl
  | copyParam index main more =>
      exact single.quiet taken (.inr (.inr (.inl ⟨index, main⟩)))
        (.inr (.inr (.inl ⟨index + 1, rfl⟩))) rfl rfl rfl
  | «switch» index main all =>
      exact single.quiet taken (.inr (.inr (.inl ⟨index, main⟩)))
        (.inr (.inr (.inr (.inl rfl)))) rfl rfl rfl
  | refuse main refused =>
      simp only [MainAt, main] at progress
      rw [ofWords_params progress] at refused
      have unserved := single.unserved (.inr (.inr (.inr (.inr (.inl main)))))
      refine ⟨.inl taken, single.asked, .inl unserved, fun _ => unserved, ?_⟩
      intro _ _ accepted
      rw [BwRequest.accepted, refused] at accepted
      contradiction
  | accept main accepted =>
      exact single.quiet taken (.inr (.inr (.inr (.inl main))))
        (.inr (.inr (.inr (.inr rfl)))) rfl rfl rfl
  | arm main returned =>
      have unserved := single.unserved (.inr (.inr (.inr (.inr (.inr main)))))
      have armed : state.armed ++ state.host.current.toList = [other] := by
        simp [unserved, host, BwHostPc.current]
      refine ⟨.inl taken, single.asked, .inr armed, ?_, fun _ _ _ => armed⟩
      rintro (unasked | begun)
      · exact absurd taken unasked
      · exact absurd begun (not_begun host (.inl rfl))
  | start main =>
      exact single.settled taken (not_begun host (.inl main))
        (not_begun host (.inr (.inl rfl))) rfl rfl rfl
  | finish main signalled =>
      exact single.settled taken (not_begun host (.inr (.inl main)))
        (not_begun host (.inr (.inr ⟨0, rfl⟩))) rfl rfl rfl
  | publish res main =>
      simp only [MainAt, main] at progress
      exact single.settled taken (not_begun host (.inr (.inr ⟨res, main⟩)))
        (not_begun_published host rfl progress) rfl rfl rfl

theorem single_work {ctx : Fin workers} (single : state.Single request)
    (move : WorkMove island state ctx next) : next.Single request := by
  obtain ⟨testCtrl, _, host, todo, main, _, armed⟩ := move.frame
  have begun : next.Begun ↔ state.Begun := by
    simp only [Begun, host, main, testCtrl]
  obtain ⟨todo', asked, armed', unserved, served⟩ := single
  exact ⟨by rwa [todo, host], by rwa [host], by rwa [armed], by rwa [todo, begun, armed],
    by rwa [todo, begun, armed]⟩

end Steps

section Runs

variable {chip : Chip} {island : Island chip} {request : BwRequest}
  {state : IslandState (workerCount chip)}

theorem single_reachable (reached : IslandReachable island [request] state) :
    state.Single request := by
  refine reached.invariant ?_ ?_
  · refine ⟨.inr ⟨rfl, rfl⟩, nofun, .inl rfl, fun _ => rfl, ?_⟩
    intro empty
    contradiction
  · intro before action after earlier single _ moved
    have turns := (inTurn_reached earlier).turns
    rcases islandStep_moves moved with ⟨_, move⟩ | ⟨_, move⟩ | ⟨ctx, _, move⟩
    · exact single_host single turns move
    · exact single_main single turns move
    · exact single_work single move

theorem idle_unarmed (order : state.InOrder island) (unarmed : state.armed = [])
    (ctx : Fin (workerCount chip)) : (state.worker ctx).Idle := by
  obtain ⟨front, chained⟩ := order.chain
  have unsent := chained.unsent.mpr (.inl unarmed)
  exact chained.ahead ctx (by rw [unsent]; exact Nat.succ_pos _)

theorem single_goodOrder (reached : IslandReachable island [request] state) :
    Reaches (islandStep island) IslandState.GoodOrder (loaded chip [request]) state := by
  induction reached with
  | start => exact Reaches.start
  | @step before after action earlier _ moved ih =>
      have single := single_reachable earlier
      have order := inOrder_reached ih
      refine ih.step ?_ moved
      cases action with
      | host =>
          intro host ctx
          rcases islandStep_moves moved with ⟨_, move⟩ | ⟨_, move⟩ | ⟨other, _ | _, move⟩
          all_goals try contradiction
          cases move with
          | begin asked rest idle todo =>
              have unarmed := single.unserved (.inl (by rw [todo]; simp))
              obtain ⟨sig, free⟩ := idle_unarmed order unarmed ctx
              exact ⟨sig, (free_not_looping free).2⟩
          | setParam asked index writing more | setCtrl asked index writing all
          | finish asked writing settled =>
              rw [host] at writing
              contradiction
      | main =>
          intro arming
          exact idle_unarmed order (single.unserved (.inr (.inr (.inr (.inr (.inr arming))))))
      | work ctx | complete ctx => trivial

theorem inOrder_single (reached : IslandReachable island [request] state) :
    state.InOrder island :=
  inOrder_reached (single_goodOrder reached)

end Runs

end Pciebench
