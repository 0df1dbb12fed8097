import Mathlib
import Pciebench.IslandProgress

/-!
What becomes of the requests of a run of the island. The counter is started for those that pass
the firmware's check, one after the other as the host has them, and every answer says whether
its request was one of them.
-/

namespace Pciebench

open Machine IslandState

/-- The requests that pass the sanity check of `dma_bw`. -/
def acceptedOf (requests : List BwRequest) : List BwRequest :=
  requests.filter fun request => !request.params.addrArgs.refused

namespace IslandState

variable {workers : Nat}

/-- The request that the host is busy with, until its counter is started or it is refused. -/
def undecided (state : IslandState workers) : List BwRequest :=
  match state.host with
  | .idle => []
  | .settingParams request _ => [request]
  | .polling request =>
      match state.main with
      | .starting | .waiting | .publishing _ => []
      | .polling => if 0 < state.testCtrl then [request] else []
      | .copyingParams _ | .passing | .arming => [request]

/-- What the master has found about the request that the host polls for. -/
def AnswersFor (state : IslandState workers) (request : BwRequest) : Prop :=
  match state.main with
  | .starting | .waiting => request.accepted
  | .publishing res => res = 0 ↔ request.accepted
  | .polling => state.testCtrl ≤ 0 → (state.testCtrl = 0 ↔ request.accepted)
  | .copyingParams _ | .passing | .arming => True

structure Tallied (requests : List BwRequest) (state : IslandState workers) : Prop where
  served : state.armed ++ acceptedOf (state.undecided ++ state.todo) = acceptedOf requests
  answers : ∀ request, state.host = .polling request → state.AnswersFor request

end IslandState

theorem acceptedOf_append (first rest : List BwRequest) :
    acceptedOf (first ++ rest) = acceptedOf first ++ acceptedOf rest :=
  List.filter_append first rest

theorem acceptedOf_accepted {request : BwRequest} (accepted : request.accepted) :
    acceptedOf [request] = [request] := by
  have passes : request.params.addrArgs.refused = false := accepted
  simp [acceptedOf, passes]

theorem acceptedOf_refused {request : BwRequest} (refused : ¬ request.accepted) :
    acceptedOf [request] = [] := by
  have fails : request.params.addrArgs.refused = true := Bool.eq_true_of_not_eq_false refused
  simp [acceptedOf, fails]

section Steps

variable {chip : Chip} {island : Island chip} {workers : Nat} {requests : List BwRequest}
  {state next : IslandState workers} {ctx : Fin workers}

theorem tallied_host (tallied : state.Tallied requests) (turns : state.TakesTurns)
    (move : HostMove state next) : next.Tallied requests := by
  have served := tallied.served
  cases move with
  | begin request rest host todo =>
      rw [undecided, host, todo] at served
      exact ⟨served, fun _ polling => absurd polling (by simp)⟩
  | setParam request index host more =>
      rw [undecided, host] at served
      exact ⟨served, fun _ polling => absurd polling (by simp)⟩
  | setCtrl request index host all =>
      simp only [TakesTurns, host] at turns
      have posted := request.test.ctrl_pos
      rw [undecided, host] at served
      refine ⟨?_, ?_⟩
      · simpa only [undecided, turns.1.2, if_pos posted] using served
      · intro other _
        simp only [AnswersFor, turns.1.2]
        intro unposted
        omega
  | finish request host answered =>
      simp only [TakesTurns, host] at turns
      have main : state.main = .polling := by
        rcases turns with serving | resting
        · have posted := request.test.ctrl_pos
          rw [serving.1] at answered
          omega
        · exact resting.2
      simp only [undecided, host, main, if_neg (Int.not_lt.mpr answered)] at served
      exact ⟨served, fun _ polling => absurd polling (by simp)⟩

theorem tallied_main (tallied : state.Tallied requests) (turns : state.TakesTurns)
    (move : MainMove island state next) : next.Tallied requests := by
  rcases takesTurns_serving turns with ⟨ctrl, resting⟩ | ⟨request, host, _, _, progress⟩
  · cases move with
    | wake main positive => exact absurd positive (Int.not_lt.mpr ctrl)
    | copyParam index main | «switch» index main | refuse main | accept main | arm main
    | start main | finish main | publish res main =>
        rw [resting] at main
        contradiction
  have served := tallied.served
  have answers := tallied.answers request host
  have only {after : IslandState workers} (same : after.host = state.host)
      (answersFor : after.AnswersFor request) :
      ∀ other, after.host = .polling other → after.AnswersFor other := by
    intro other polling
    rw [same, host, BwHostPc.polling.injEq] at polling
    exact polling ▸ answersFor
  cases move with
  | wake main positive =>
      simp only [undecided, host, main, if_pos positive] at served
      refine ⟨?_, only rfl trivial⟩
      simpa only [undecided, host] using served
  | copyParam index main more =>
      simp only [undecided, host, main] at served
      refine ⟨?_, only rfl trivial⟩
      simpa only [undecided, host] using served
  | «switch» index main all =>
      simp only [undecided, host, main] at served
      refine ⟨?_, only rfl trivial⟩
      simpa only [undecided, host] using served
  | refuse main refused =>
      simp only [MainAt, main] at progress
      rw [ofWords_params progress] at refused
      have unaccepted : ¬ request.accepted := fun accepted => by
        rw [BwRequest.accepted, refused] at accepted
        contradiction
      simp only [undecided, host, main, acceptedOf_append, acceptedOf_refused unaccepted]
        at served
      refine ⟨?_, only rfl ?_⟩
      · simpa only [undecided, host, List.nil_append] using served
      · exact ⟨fun zero => absurd zero (by decide), fun accepted => absurd accepted unaccepted⟩
  | accept main accepted =>
      simp only [undecided, host, main] at served
      refine ⟨?_, only rfl trivial⟩
      simpa only [undecided, host] using served
  | arm main returned =>
      simp only [MainAt, main] at progress
      simp only [undecided, host, main, acceptedOf_append, acceptedOf_accepted progress.2]
        at served
      refine ⟨?_, only rfl progress.2⟩
      simpa only [undecided, host, BwHostPc.current, Option.toList_some, List.append_assoc,
        List.nil_append] using served
  | start main =>
      simp only [undecided, host, main] at served
      simp only [AnswersFor, main] at answers
      refine ⟨?_, only rfl answers⟩
      simpa only [undecided, sendPing, host] using served
  | finish main signalled =>
      simp only [undecided, host, main] at served
      simp only [AnswersFor, main] at answers
      refine ⟨?_, only rfl ?_⟩
      · simpa only [undecided, host] using served
      · exact ⟨fun _ => answers, fun _ => rfl⟩
  | publish res main =>
      simp only [MainAt, main] at progress
      simp only [undecided, host, main] at served
      simp only [AnswersFor, main] at answers
      refine ⟨?_, only rfl fun _ => answers⟩
      simpa only [undecided, host, if_neg (Int.not_lt.mpr progress)] using served

theorem tallied_work (tallied : state.Tallied requests) (move : WorkMove island state ctx next) :
    next.Tallied requests := by
  obtain ⟨testCtrl, _, host, todo, main, _, armed⟩ := move.frame
  refine ⟨?_, ?_⟩
  · simpa only [undecided, testCtrl, host, todo, main, armed] using tallied.served
  · simpa only [AnswersFor, testCtrl, host, main] using tallied.answers

end Steps

section Runs

variable {chip : Chip} {island : Island chip} {requests : List BwRequest}
  {state : IslandState (workerCount chip)}

theorem tallied_reachable (reached : IslandReachable island requests state) :
    state.Tallied requests := by
  refine reached.invariant ⟨rfl, fun _ polling => absurd polling (by simp [loaded])⟩ ?_
  intro before action after earlier tallied _ moved
  have turns := (inTurn_reached earlier).turns
  rcases islandStep_moves moved with ⟨_, move⟩ | ⟨_, move⟩ | ⟨ctx, _, move⟩
  · exact tallied_host tallied turns move
  · exact tallied_main tallied turns move
  · exact tallied_work tallied move

/-- The whole run is over: every request is answered, and every context waits for a start
signal that nobody has sent. -/
structure IslandState.Over {chip : Chip} (requests : List BwRequest)
    (state : IslandState (workerCount chip)) : Prop extends state.Answered where
  served : state.armed = acceptedOf requests
  back : ∀ ctx, (state.worker ctx).pc = .waiting ∧ (state.worker ctx).startSig = []

/-- Requests are served in the order in which the host makes them, none is lost and none served
twice; the answer is 0 for those that are served and below it for the others; and however the
contexts interleave the run comes to its end, if the set-ups return. -/
theorem islandRuns_served (island : Island chip) (requests : List BwRequest) :
    (∀ state, IslandReachable island requests state →
      state.armed <+: acceptedOf requests ∧
      ∀ request, state.host = .polling request → state.main = .polling → state.testCtrl ≤ 0 →
        (state.testCtrl = 0 ↔ request.accepted)) ∧
    (island.SetUpsReturn requests →
      Inevitable (islandStep island) (fun last => last.Over requests) (loaded chip requests)) := by
  refine ⟨?_, ?_⟩
  · intro state reached
    have tallied := tallied_reachable reached
    refine ⟨⟨_, tallied.served⟩, ?_⟩
    intro request host main answered
    have answers := tallied.answers request host
    simp only [AnswersFor, main] at answers
    exact answers answered
  · intro returns
    have fresh : IslandReachable island requests (loaded chip requests) := .start
    refine (island_answers returns fresh).mono ?_
    rintro last reached ⟨stuck, answered⟩
    have served := (tallied_reachable reached).served
    simp only [undecided, answered.host, answered.todo] at served
    rw [List.append_nil] at served
    exact ⟨answered, (List.append_nil _).symm.trans served, stuck_context stuck⟩

theorem islandRuns_served_reads :
    Inevitable (islandStep (plainIsland .nfp6000)) (fun last => last.Over [shortReads, longReads])
      (loaded .nfp6000 [shortReads, longReads]) :=
  (islandRuns_served (plainIsland .nfp6000) [shortReads, longReads]).2 fun _ _ _ _ => rfl

end Runs

end Pciebench
