import Mathlib
import Pciebench.Handshake

/-!
The handshake keeps requests apart. While the host prepares a request or takes an answer,
`test_ctrl` is not positive and the main loop only polls it. Between the host's write of
`test_ctrl` and the firmware's, only the firmware works on the shared words.
-/

namespace Pciebench

open WordCopy HandshakeState

section Phases

variable (run : TestCall → Option TestResult)

def resCode (outcome : Option TestResult) : Int :=
  if outcome.isSome then 0 else -1

def answeredCalls (state : HandshakeState) : List TestCall :=
  state.answers.map fun answer => answer.1.call

/-- The main loop has nothing to do and every call has been answered. -/
def Resting (state : HandshakeState) : Prop :=
  state.testCtrl ≤ 0 ∧ state.main = .polling ∧ state.executed = answeredCalls state

def Posted (request : TestRequest) (state : HandshakeState) : Prop :=
  Agree addrWordCount state.hostDmaAddrs request.addrWord ∧
    Agree paramWordCount state.testParams request.params.word

def Fetched (request : TestRequest) (state : HandshakeState) : Prop :=
  Agree addrWordCount state.chunkDmaAddrs request.addrWord ∧
    Agree paramWordCount state.params request.params.word

def Executed (request : TestRequest) (state : HandshakeState) : Prop :=
  state.executed = answeredCalls state ++ [request.call] ∧
    state.res = resCode (run request.call) ∧
    ∀ result, run request.call = some result → state.result = result

/-- How far the main loop is with a request. -/
def Progress (request : TestRequest) (state : HandshakeState) : Prop :=
  match state.main with
  | .polling => state.executed = answeredCalls state
  | .copyingParams index =>
      state.executed = answeredCalls state ∧ index ≤ paramWordCount ∧
        Agree index state.params request.params.word
  | .copyingAddrs index =>
      state.executed = answeredCalls state ∧
        Agree paramWordCount state.params request.params.word ∧ index ≤ addrWordCount ∧
        Agree index state.chunkDmaAddrs request.addrWord
  | .switching => state.executed = answeredCalls state ∧ Fetched request state
  | .passing =>
      state.executed = answeredCalls state ∧ Fetched request state ∧
        request.test.function = .dmaBw
  | .calling function test =>
      state.executed = answeredCalls state ∧ Fetched request state ∧
        function = request.test.function ∧ test = request.test.ctrl
  | .writingResult index =>
      Executed run request state ∧ index ≤ resultWordCount ∧
        Agree index state.testResult state.result.word
  | .writingCtrl =>
      Executed run request state ∧ Agree resultWordCount state.testResult state.result.word

def Serving (request : TestRequest) (state : HandshakeState) : Prop :=
  state.testCtrl = request.test.ctrl ∧ Posted request state ∧ Progress run request state

def Answered (request : TestRequest) (state : HandshakeState) : Prop :=
  state.testCtrl = resCode (run request.call) ∧ state.main = .polling ∧
    state.executed = answeredCalls state ++ [request.call] ∧
    ∀ result, run request.call = some result →
      Agree resultWordCount state.testResult result.word

/-- What holds at each place of the host. -/
def HostPhase (state : HandshakeState) : Prop :=
  match state.host with
  | .idle => Resting state
  | .settingAddrs request index =>
      Resting state ∧ index ≤ addrWordCount ∧ Agree index state.hostDmaAddrs request.addrWord
  | .settingParams request index =>
      Resting state ∧ Agree addrWordCount state.hostDmaAddrs request.addrWord ∧
        index ≤ paramWordCount ∧ Agree index state.testParams request.params.word
  | .settingCtrl request => Resting state ∧ Posted request state
  | .polling request => Serving run request state ∨ Answered run request state
  | .checking request => Answered run request state
  | .reading request index =>
      Answered run request state ∧ index ≤ resultWordCount ∧
        ∃ result, run request.call = some result ∧ Agree index state.tmp result.word

def HostPc.current : HostPc → Option TestRequest
  | .idle => none
  | .settingAddrs request _ | .settingParams request _ | .settingCtrl request
  | .polling request | .checking request | .reading request _ => some request

structure KeptApart (requests : List TestRequest) (state : HandshakeState) : Prop where
  asked : state.answers.map Prod.fst ++ state.host.current.toList ++ state.todo = requests
  exact : ∀ answer ∈ state.answers, answer.2 = run answer.1.call
  phase : HostPhase run state

end Phases

variable {run : TestCall → Option TestResult} {requests : List TestRequest}
  {request : TestRequest} {state next : HandshakeState}

theorem resCode_nonpos (outcome : Option TestResult) : resCode outcome ≤ 0 := by
  cases outcome <;> simp [resCode]

theorem resCode_neg {outcome : Option TestResult} : resCode outcome < 0 ↔ outcome = none := by
  cases outcome <;> simp [resCode]

section MainLoop

theorem mainStep_resting (main : state.main = .polling) (ctrl : state.testCtrl ≤ 0) :
    state.mainStep run = state := by
  cases state
  simp only at main ctrl
  subst main
  simp [mainStep, ctrl]

theorem serving_mainStep (serving : Serving run request state) :
    Serving run request (state.mainStep run) ∨ Answered run request (state.mainStep run) := by
  obtain ⟨ctrl, posted, progress⟩ := serving
  have positive := request.test.ctrl_pos
  cases main : state.main with
  | polling =>
      simp only [Progress, main] at progress
      have busy : ¬ state.testCtrl ≤ 0 := by omega
      simp only [mainStep, main, busy, if_false]
      exact Or.inl ⟨ctrl, posted, progress, Nat.zero_le _, agree_zero _ _⟩
  | copyingParams index =>
      simp only [Progress, main] at progress
      obtain ⟨executed, bound, agree⟩ := progress
      simp only [mainStep, main]
      split
      · rename_i more
        exact Or.inl ⟨ctrl, posted, executed, more, agree.nextFrom posted.2 more⟩
      · have all : index = paramWordCount := by omega
        subst all
        exact Or.inl ⟨ctrl, posted, executed, agree, Nat.zero_le _, agree_zero _ _⟩
  | copyingAddrs index =>
      simp only [Progress, main] at progress
      obtain ⟨executed, params, bound, agree⟩ := progress
      simp only [mainStep, main]
      split
      · rename_i more
        exact Or.inl ⟨ctrl, posted, executed, params, more, agree.nextFrom posted.1 more⟩
      · have all : index = addrWordCount := by omega
        subst all
        exact Or.inl ⟨ctrl, posted, executed, agree, params⟩
  | switching =>
      simp only [Progress, main] at progress
      obtain ⟨executed, fetched⟩ := progress
      simp only [mainStep, main]
      rcases switchTest_ctrl request.test with calling | ⟨passing, bw⟩
      · rw [← ctrl] at calling
        rw [calling]
        exact Or.inl ⟨ctrl, posted, executed, fetched, rfl, ctrl⟩
      · rw [← ctrl] at passing
        rw [passing]
        exact Or.inl ⟨ctrl, posted, executed, fetched, bw⟩
  | passing =>
      simp only [Progress, main] at progress
      obtain ⟨executed, fetched, bw⟩ := progress
      simp only [mainStep, main]
      exact Or.inl ⟨ctrl, posted, executed, fetched, bw.symm, ctrl⟩
  | calling function test =>
      simp only [Progress, main] at progress
      obtain ⟨executed, fetched, rfl, rfl⟩ := progress
      have call : (⟨request.test.function, request.test.ctrl, TestParams.ofWords state.params,
          chunkAddrs state.chunkDmaAddrs⟩ : TestCall) = request.call := by
        rw [ofWords_params fetched.2, chunkAddrs_copied fetched.1]
        rfl
      simp only [mainStep, main, call]
      refine Or.inl ⟨ctrl, posted, ⟨?_, rfl, ?_⟩, Nat.zero_le _, agree_zero _ _⟩
      · simp only [executed]
        rfl
      · intro result ran
        simp [ran]
  | writingResult index =>
      simp only [Progress, main] at progress
      obtain ⟨executed, bound, agree⟩ := progress
      simp only [mainStep, main]
      split
      · rename_i more
        exact Or.inl ⟨ctrl, posted, executed, more, agree.next⟩
      · have all : index = resultWordCount := by omega
        subst all
        exact Or.inl ⟨ctrl, posted, executed, agree⟩
  | writingCtrl =>
      simp only [Progress, main] at progress
      obtain ⟨⟨executed, res, result⟩, agree⟩ := progress
      simp only [mainStep, main]
      refine Or.inr ⟨res, rfl, executed, ?_⟩
      intro left ran
      rw [← result left ran]
      exact agree

theorem mainStep_frame :
    (state.mainStep run).host = state.host ∧ (state.mainStep run).todo = state.todo ∧
      (state.mainStep run).answers = state.answers := by
  unfold mainStep
  split <;> (try split) <;> simp only [and_self]

/-- Only a polling host leaves the main loop anything to do. -/
theorem HostPhase.resting_or_serving (phase : HostPhase run state) :
    (state.main = .polling ∧ state.testCtrl ≤ 0) ∨
      ∃ request, state.host = .polling request ∧ Serving run request state := by
  have answered {request : TestRequest} (answered : Answered run request state) :
      state.main = .polling ∧ state.testCtrl ≤ 0 :=
    ⟨answered.2.1, answered.1 ▸ resCode_nonpos _⟩
  cases host : state.host with
  | idle =>
      simp only [HostPhase, host] at phase
      exact Or.inl ⟨phase.2.1, phase.1⟩
  | settingAddrs request index | settingParams request index | settingCtrl request =>
      simp only [HostPhase, host] at phase
      exact Or.inl ⟨phase.1.2.1, phase.1.1⟩
  | polling request =>
      simp only [HostPhase, host] at phase
      rcases phase with serving | done
      · exact Or.inr ⟨request, rfl, serving⟩
      · exact Or.inl (answered done)
  | checking request =>
      simp only [HostPhase, host] at phase
      exact Or.inl (answered phase)
  | reading request index =>
      simp only [HostPhase, host] at phase
      exact Or.inl (answered phase.1)

theorem keptApart_main (kept : KeptApart run requests state) :
    KeptApart run requests (state.mainStep run) := by
  rcases kept.phase.resting_or_serving with ⟨main, ctrl⟩ | ⟨request, polling, serving⟩
  · rw [mainStep_resting main ctrl]
    exact kept
  · obtain ⟨host, todo, answers⟩ := @mainStep_frame run state
    refine ⟨?_, ?_, ?_⟩
    · rw [host, todo, answers]
      exact kept.asked
    · rw [answers]
      exact kept.exact
    · simp only [HostPhase, host, polling]
      exact serving_mainStep serving

end MainLoop

section Host

theorem keptApart_answer (kept : KeptApart run requests state)
    (current : state.host.current = some request) (answered : Answered run request state) :
    KeptApart run requests
      { state with
        host := .idle, answers := state.answers ++ [(request, run request.call)] } := by
  obtain ⟨ctrl, main, executed, _⟩ := answered
  refine ⟨?_, ?_, ?_, main, ?_⟩
  · have asked := kept.asked
    rw [current] at asked
    simpa [HostPc.current] using asked
  · intro answer member
    rcases List.mem_append.mp member with earlier | last
    · exact kept.exact answer earlier
    · rw [List.mem_singleton.mp last]
  · rw [ctrl]
    exact resCode_nonpos _
  · simp [executed, answeredCalls]

theorem keptApart_host (kept : KeptApart run requests state)
    (moved : state.hostStep = some next) : KeptApart run requests next := by
  obtain ⟨asked, exact', phase⟩ := id kept
  cases host : state.host with
  | idle =>
      simp only [HostPhase, host] at phase
      simp only [hostStep, host] at moved
      split at moved
      · contradiction
      · rename_i request rest todo
        cases moved
        refine ⟨?_, exact', phase, Nat.zero_le _, agree_zero _ _⟩
        simpa [host, todo, HostPc.current] using asked
  | settingAddrs request index =>
      simp only [HostPhase, host] at phase
      obtain ⟨resting, bound, agree⟩ := phase
      simp only [hostStep, host] at moved
      simp only [host, HostPc.current] at asked
      split at moved
      · rename_i more
        cases moved
        exact ⟨asked, exact', resting, more, agree.next⟩
      · have all : index = addrWordCount := by omega
        subst all
        cases moved
        exact ⟨asked, exact', resting, agree, Nat.zero_le _, agree_zero _ _⟩
  | settingParams request index =>
      simp only [HostPhase, host] at phase
      obtain ⟨resting, addrs, bound, agree⟩ := phase
      simp only [hostStep, host] at moved
      simp only [host, HostPc.current] at asked
      split at moved
      · rename_i more
        cases moved
        exact ⟨asked, exact', resting, addrs, more, agree.next⟩
      · have all : index = paramWordCount := by omega
        subst all
        cases moved
        exact ⟨asked, exact', resting, addrs, agree⟩
  | settingCtrl request =>
      simp only [HostPhase, host] at phase
      obtain ⟨⟨_, main, executed⟩, posted⟩ := phase
      simp only [hostStep, host, Option.some.injEq] at moved
      simp only [host, HostPc.current] at asked
      subst moved
      refine ⟨asked, exact', Or.inl ⟨rfl, posted, ?_⟩⟩
      simp only [Progress, main]
      exact executed
  | polling request =>
      simp only [HostPhase, host] at phase
      simp only [hostStep, host, Option.some.injEq] at moved
      simp only [host, HostPc.current] at asked
      subst moved
      rcases phase with serving | answered
      · have busy : 0 < state.testCtrl := serving.1 ▸ request.test.ctrl_pos
        simp only [busy, if_true]
        exact ⟨asked, exact', Or.inl serving⟩
      · have settled : ¬ 0 < state.testCtrl := by
          have := resCode_nonpos (run request.call)
          rw [answered.1]
          omega
        simp only [settled, if_false]
        exact ⟨asked, exact', answered⟩
  | checking request =>
      simp only [HostPhase, host] at phase
      simp only [hostStep, host] at moved
      simp only [host, HostPc.current] at asked
      split at moved
      · rename_i failed
        have refused : run request.call = none := resCode_neg.mp (phase.1 ▸ failed)
        have answer := keptApart_answer kept (by rw [host]; rfl) phase
        rw [refused] at answer
        cases moved
        exact answer
      · rename_i passed
        have served : run request.call ≠ none := fun refused =>
          passed (phase.1 ▸ resCode_neg.mpr refused)
        obtain ⟨result, ran⟩ := Option.ne_none_iff_exists'.mp served
        cases moved
        exact ⟨asked, exact', phase, Nat.zero_le _, result, ran, agree_zero _ _⟩
  | reading request index =>
      simp only [HostPhase, host] at phase
      obtain ⟨answered, bound, result, ran, agree⟩ := phase
      simp only [hostStep, host] at moved
      simp only [host, HostPc.current] at asked
      split at moved
      · rename_i more
        cases moved
        exact ⟨asked, exact', answered, more, result, ran,
          agree.nextFrom (answered.2.2.2 result ran) more⟩
      · have all : index = resultWordCount := by omega
        subst all
        have answer := keptApart_answer kept (by rw [host]; rfl) answered
        rw [ran, ← ofWords_result agree] at answer
        cases moved
        exact answer

end Host

section Runs

variable {start : HandshakeState}

theorem keptApart_booted (booted : Booted requests start) : KeptApart run requests start := by
  obtain ⟨ctrl, host, todo, main, executed, answers⟩ := booted
  refine ⟨?_, ?_, ?_⟩
  · simp [host, todo, answers, HostPc.current]
  · simp [answers]
  · simp only [HostPhase, host, Resting, answeredCalls, ctrl, main, executed, answers]
    simp

theorem keptApart_reached (booted : Booted requests start)
    (reached : Machine.Reachable (handshakeStep run) start state) :
    KeptApart run requests state := by
  refine reached.invariant (keptApart_booted booted) ?_
  intro before action after _ kept _ moved
  cases action with
  | host => exact keptApart_host kept moved
  | main =>
      cases moved
      exact keptApart_main kept

theorem Progress.executed (progress : Progress run request state) :
    state.executed = answeredCalls state ∨
      state.executed = answeredCalls state ++ [request.call] := by
  unfold Progress at progress
  split at progress
  · exact Or.inl progress
  · exact Or.inl progress.1
  · exact Or.inl progress.1
  · exact Or.inl progress.1
  · exact Or.inl progress.1
  · exact Or.inl progress.1
  · exact Or.inr progress.1.1
  · exact Or.inr progress.1.1

theorem HostPhase.executed (phase : HostPhase run state) :
    state.executed = answeredCalls state ∨
      ∃ request, state.host.current = some request ∧
        state.executed = answeredCalls state ++ [request.call] := by
  unfold HostPhase at phase
  split at phase <;> rename_i host
  · exact Or.inl phase.2.2
  · exact Or.inl phase.1.2.2
  · exact Or.inl phase.1.2.2
  · exact Or.inl phase.1.2.2
  · rcases phase with serving | answered
    · rcases serving.2.2.executed with before | after
      · exact Or.inl before
      · exact Or.inr ⟨_, by rw [host]; rfl, after⟩
    · exact Or.inr ⟨_, by rw [host]; rfl, answered.2.2.1⟩
  · exact Or.inr ⟨_, by rw [host]; rfl, phase.2.2.1⟩
  · exact Or.inr ⟨_, by rw [host]; rfl, phase.1.2.2.1⟩

/-- The calls that the firmware makes are those of the requests, in their order, and so are
the outcomes that the host takes. -/
theorem handshake_exact (booted : Booted requests start)
    (reached : Machine.Reachable (handshakeStep run) start state) :
    state.executed <+: requests.map TestRequest.call ∧
      state.answers <+: requests.map fun request => (request, run request.call) := by
  obtain ⟨asked, exact', phase⟩ := keptApart_reached booted reached
  have calls : answeredCalls state = (state.answers.map Prod.fst).map TestRequest.call := by
    simp [answeredCalls]
  have outcomes : state.answers =
      (state.answers.map Prod.fst).map fun request => (request, run request.call) := by
    rw [List.map_map]
    refine (List.map_id _).symm.trans (List.map_congr_left ?_)
    intro answer member
    exact Prod.ext rfl (exact' answer member)
  constructor
  · rcases phase.executed with before | ⟨request, current, after⟩
    · rw [before, calls, ← asked, List.append_assoc, List.map_append]
      exact List.prefix_append _ _
    · rw [current] at asked
      rw [after, calls, ← asked, List.map_append, List.map_append]
      exact List.prefix_append _ _
  · conv_lhs => rw [outcomes]
    rw [← asked, List.append_assoc, List.map_append]
    exact List.prefix_append _ _

-- A test that measures nothing and a host that asks for a good and for a bad transfer.
def restState (requests : List TestRequest) : HandshakeState where
  testCtrl := 0
  testParams := fun _ => 0
  testResult := fun _ => 0
  hostDmaAddrs := fun _ => 0
  host := .idle
  todo := requests
  tmp := fun _ => 0
  main := .polling
  params := fun _ => 0
  chunkDmaAddrs := fun _ => 0
  result := ⟨0, 0, 0, 0, 0, 0, 0, 0⟩
  res := 0
  executed := []
  answers := []

def quickTest (call : TestCall) : Option TestResult :=
  if call.params.p1 + call.params.p3 > call.params.p2 then none
  else some ⟨0, 0, 0, 1024, call.params.p1, 0, 0, 0⟩

def twoRequests : List TestRequest :=
  [⟨.bwDmaRd, ⟨0, 64, 4096, 0, 0⟩, fun _ => 0⟩, ⟨.latCmdRd, ⟨0, 64, 32, 0, 0⟩, fun _ => 4096⟩]

def twoRounds : List HandshakeAction :=
  List.replicate 41 .host ++ List.replicate 53 .main ++ List.replicate 11 .host ++
    List.replicate 41 .host ++ List.replicate 52 .main ++ List.replicate 2 .host

theorem handshake_exact_two :
    ∃ state, Machine.Reachable (handshakeStep quickTest) (restState twoRequests) state ∧
      state.answers.map Prod.snd = [some ⟨0, 0, 0, 1024, 64, 0, 0, 0⟩, none] ∧
      state.executed <+: twoRequests.map TestRequest.call ∧
      state.answers <+: twoRequests.map fun request => (request, quickTest request.call) := by
  have outcomes : ((Machine.exec (handshakeStep quickTest) (restState twoRequests) twoRounds).map
      fun state => state.answers.map Prod.snd) =
      some [some ⟨0, 0, 0, 1024, 64, 0, 0, 0⟩, none] := by decide +kernel
  obtain ⟨state, done, answers⟩ := Option.map_eq_some_iff.mp outcomes
  have reached := Machine.exec_reachable done
  exact ⟨state, reached, answers, handshake_exact ⟨rfl, rfl, rfl, rfl, rfl, rfl⟩ reached⟩

end Runs

end Pciebench
