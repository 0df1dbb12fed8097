import Mathlib
import Pciebench.IslandMoves

/-!
The wake-up chain in runs that follow each other in good order: the host begins a request when
every context has set up its descriptor, and the master starts the counter when no context will
draw again on its own. Then the contexts below the front of the chain have joined the run of
the counter, and those above it are idle.
-/

namespace Pciebench

open WordCopy IslandState

section Pings

variable {chip : Chip} (island : Island chip)

theorem meId_low (chip : Chip) (ctxsts : UInt32) :
    (meId chip ctxsts &&& (0xf : UInt32)).toNat = (ctxsts.toNat / 8 + 4) % 8 := by
  have bound := ctxsts.toNat_lt
  have menum : (((ctxsts >>> 3) - 4) &&& (0x7 : UInt32)).toNat = (ctxsts.toNat / 8 + 4) % 8 := by
    rw [Words.toNat_and_mask32 _ _ 3 rfl, UInt32.toNat_sub, Words.toNat_shiftRight32 _ _ (by decide)]
    have three : (3 : UInt32).toNat = 3 := rfl
    have four : (4 : UInt32).toNat = 4 := rfl
    rw [three, four]
    omega
  have low (islclnum : UInt32) :
      ((islclnum <<< 4) + (((ctxsts >>> 3) - 4) &&& (0x7 : UInt32))).toNat % 2 ^ 4 =
        (ctxsts.toNat / 8 + 4) % 8 := by
    rw [UInt32.toNat_add, Words.toNat_shiftLeft32 _ _ (by decide), menum]
    have four : (4 : UInt32).toNat = 4 := rfl
    rw [four]
    omega
  rw [Words.toNat_and_mask32 _ _ 4 rfl]
  cases chip <;> exact low _

theorem meId_menum {me : Nat} (present : me ≤ pciebenchLastWorkerMe chip) :
    (meId chip (island.activeCtxSts me) &&& (0xf : UInt32)).toNat = me % 8 := by
  have bits := island.meBits me present
  rw [meId_low]
  omega

theorem pingTarget_inner {number : Nat} (inner : number < workerCount chip) :
    pingTarget island number = some (number + 1) := by
  have present : number / 8 ≤ pciebenchLastWorkerMe chip := by
    simp only [workerCount] at inner
    omega
  have menum := meId_menum island present
  simp only [pingTarget]
  split
  · rfl
  · rename_i last
    have other : (meId chip (island.activeCtxSts (number / 8)) &&& (0xf : UInt32)).toNat ≠
        pciebenchLastWorkerMe chip := by
      rw [menum]
      cases chip <;> simp only [workerCount, pciebenchLastWorkerMe] at inner ⊢ <;> omega
    rw [if_pos other]
    congr 1
    omega

theorem pingTarget_last :
    pingTarget island (workerCount chip) =
      if chip = .nfp3200 then none else some (workerCount chip + 1) := by
  have menum := meId_menum island (le_refl (pciebenchLastWorkerMe chip))
  cases chip with
  | nfp3200 =>
      simp only [pciebenchLastWorkerMe] at menum
      simp [pingTarget, workerCount, pciebenchLastWorkerMe, menum]
  | nfp6000 =>
      simp only [pciebenchLastWorkerMe] at menum
      simp [pingTarget, workerCount, pciebenchLastWorkerMe, menum]

theorem pingTarget_next {number target : Nat} (present : number ≤ workerCount chip)
    (found : pingTarget island number = some target) : target = number + 1 := by
  rcases Nat.lt_or_eq_of_le present with inner | last
  · rw [pingTarget_inner island inner] at found
    exact (Option.some.inj found).symm
  · rw [last, pingTarget_last] at found
    split at found
    · contradiction
    · rw [last]
      exact (Option.some.inj found).symm

theorem pingTarget_none {number : Nat} (present : number ≤ workerCount chip)
    (nobody : pingTarget island number = none) : number = workerCount chip := by
  by_contra inner
  rw [pingTarget_inner island (by omega)] at nobody
  contradiction

/-- The pings of a chain whose front is at the given number. -/
def pingsSent : Nat → List BwPing
  | 0 => []
  | passed + 1 =>
      ⟨0, 1⟩ :: (List.range' 1 passed).filterMap fun number =>
        (pingTarget island number).map fun target => ⟨number, target⟩

theorem pingsSent_succ {number : Nat} (positive : 1 ≤ number) :
    pingsSent island (number + 1) = pingsSent island number ++
      ((pingTarget island number).map fun target => (⟨number, target⟩ : BwPing)).toList := by
  obtain ⟨passed, rfl⟩ : ∃ passed, number = passed + 1 := ⟨number - 1, by omega⟩
  simp only [pingsSent, List.range'_concat, List.filterMap_append, Nat.one_mul, List.cons_append]
  congr 2
  rw [Nat.add_comm 1 passed]
  cases found : pingTarget island (passed + 1) <;> simp [found]

end Pings

def ContextPc.holding : ContextPc → Bool
  | fetchingTest | fetchingParams _ | pinging => true
  | _ => false

def ContextPc.preparing : ContextPc → Bool
  | fetchingTest | fetchingParams _ | pinging | settingUp => true
  | _ => false

def ContextPc.finishing : ContextPc → Bool
  | drawn | inFlight | completed | left => true
  | _ => false

namespace BwContext

/-- The context will not draw again before it is pinged. -/
def Free (here : BwContext) : Prop :=
  here.pc = .waiting ∨ (here.pc.finishing = true ∧ here.trans ≤ 1)

def Idle (here : BwContext) : Prop :=
  here.startSig = [] ∧ here.Free

/-- The context is past the set-up of its descriptor, or was not woken. -/
def Prepared (here : BwContext) : Prop :=
  here.startSig = [] ∧ here.pc.preparing = false

structure Pending (run : Nat) (here : BwContext) : Prop where
  sig : here.startSig = [run]
  free : here.Free

structure Holding (run : Nat) (params : TestParams) (here : BwContext) : Prop where
  sig : here.startSig = []
  joined : here.joined = run
  holding : here.pc.holding = true
  words : ∀ index, here.pc = .fetchingParams index →
    index ≤ paramWordCount ∧ Agree index here.params params.word

structure Passed (run : Nat) (cmd : DmaCmd) (here : BwContext) : Prop where
  sig : here.startSig = []
  joined : here.joined = run
  beyond : here.pc.holding = false
  setUp : here.pc ≠ .waiting → here.pc ≠ .settingUp → here.cmd = cmd

end BwContext

def bwSetup {chip : Chip} (island : Island chip) (number : Nat) (params : TestParams) : DmaCmd :=
  pcieDmaSetup chip (island.context number) params.p1 params.p4

namespace IslandState

variable {chip : Chip} {workers : Nat}

/-- The parameters of the run that the counter was last started for. -/
def runParams (state : IslandState workers) : TestParams :=
  match state.armed.getLast? with
  | none => ⟨0, 0, 0, 0, 0⟩
  | some request => request.params

structure Chained (island : Island chip) (state : IslandState workers) (front : Nat) : Prop where
  passed : ∀ ctx, contextNumber ctx < front →
    (state.worker ctx).Passed state.run (bwSetup island (contextNumber ctx) state.runParams)
  atFront : ∀ ctx, contextNumber ctx = front →
    (state.worker ctx).Pending state.run ∨ (state.worker ctx).Holding state.run state.runParams
  ahead : ∀ ctx, front < contextNumber ctx → (state.worker ctx).Idle
  regs : ∀ me, 1 ≤ me → (8 * me < front ∨ ∃ ctx, contextNumber ctx = front ∧ 8 * me = front ∧
    (state.worker ctx).pc = .pinging) → (state.regs me).args = state.runParams
  pings : state.pings = pingsSent island front
  bound : front ≤ workers + 1
  unsent : front = 0 ↔ state.armed = [] ∨ state.main = .starting

/-- A request is on its way from the host to the counter. -/
def Begun (state : IslandState workers) : Prop :=
  (∃ request index, state.host = .settingParams request index) ∨
    (state.main = .polling ∧ 0 < state.testCtrl) ∨ (∃ index, state.main = .copyingParams index) ∨
    state.main = .passing ∨ state.main = .arming

/-- What a context that is woken now would set up from. -/
def Stable (state : IslandState workers) : Prop :=
  (state.regs 0).args = state.runParams ∧
    Agree paramWordCount state.testParams state.runParams.word

end IslandState

/-- The descriptor of a draw was set up in its run and from the parameters of its run. -/
def BwDraw.Right {chip : Chip} (island : Island chip) (armed : List BwRequest) (draw : BwDraw) :
    Prop :=
  draw.joined = draw.run ∧ ∃ request, armed[draw.run - 1]? = some request ∧ 1 ≤ draw.run ∧
    draw.cmd = bwSetup island draw.context request.params

def BwJoin.Right (join : BwJoin) : Prop :=
  join.pings = [join.run]

namespace IslandState

variable {chip : Chip} {workers : Nat}

/-- Tickets and pings stay within their runs. -/
structure KeepsRuns (island : Island chip) (state : IslandState workers) : Prop where
  draws : ∀ draw ∈ state.draws, draw.Right island state.armed
  joins : ∀ join ∈ state.joins, join.Right

structure InOrder (island : Island chip) (state : IslandState workers) : Prop where
  chain : ∃ front, state.Chained island front
  begun : state.Begun → ∀ ctx, (state.worker ctx).Prepared
  stable : (state.main = .starting ∨ ∃ ctx, ¬ (state.worker ctx).Prepared) → state.Stable
  keeps : state.KeepsRuns island

/-- The condition on a step: the host begins a request only when every context has set up its
descriptor, and the master starts the counter only when no context will draw unpinged. -/
def GoodOrder (state : IslandState workers) : IslandAction workers → Prop
  | .host => state.host = .idle → ∀ ctx, (state.worker ctx).Prepared
  | .main => state.main = .arming → ∀ ctx, (state.worker ctx).Idle
  | _ => True

end IslandState

section Classes

variable {run : Nat} {cmd : DmaCmd} {params : TestParams} {here : BwContext}

theorem free_not_looping (free : here.Free) : here.pc ≠ .looping ∧ here.pc.preparing = false := by
  rcases free with waiting | ⟨finishing, _⟩
  · simp [waiting, ContextPc.preparing]
  · cases pc : here.pc <;> simp [pc, ContextPc.finishing] at finishing ⊢ <;> rfl

end Classes

section Work

variable {chip : Chip} {island : Island chip} {workers front : Nat}
  {state next : IslandState workers} {ctx : Fin workers} {after : BwContext}

theorem IslandState.Chained.moved (chained : state.Chained island front)
    (others : next.worker = Function.update state.worker ctx after)
    (armed : next.armed = state.armed) (main : next.main = state.main)
    (pings : next.pings = state.pings)
    (passed : contextNumber ctx < front →
      after.Passed state.run (bwSetup island (contextNumber ctx) state.runParams))
    (atFront : contextNumber ctx = front →
      after.Pending state.run ∨ after.Holding state.run state.runParams)
    (ahead : front < contextNumber ctx → after.Idle)
    (kept : ∀ me, 1 ≤ me → (state.regs me).args = state.runParams →
      (next.regs me).args = state.runParams)
    (fetched : ∀ me, 1 ≤ me → contextNumber ctx = front → 8 * me = front → after.pc = .pinging →
      (next.regs me).args = state.runParams) :
    next.Chained island front := by
  have run : next.run = state.run := by rw [IslandState.run, IslandState.run, armed]
  have params : next.runParams = state.runParams := by
    simp only [IslandState.runParams, armed]
  have elsewhere (other : Fin workers) (apart : other ≠ ctx) :
      next.worker other = state.worker other := by
    rw [others, Function.update_of_ne apart]
  have here : next.worker ctx = after := by rw [others, Function.update_self]
  refine ⟨?_, ?_, ?_, ?_, pings.trans chained.pings, chained.bound, ?_⟩
  · intro other below
    rw [run, params]
    by_cases same : other = ctx
    · subst same
      rw [here]
      exact passed below
    · rw [elsewhere other same]
      exact chained.passed other below
  · intro other at'
    rw [run, params]
    by_cases same : other = ctx
    · subst same
      rw [here]
      exact atFront at'
    · rw [elsewhere other same]
      exact chained.atFront other at'
  · intro other above
    by_cases same : other = ctx
    · subst same
      rw [here]
      exact ahead above
    · rw [elsewhere other same]
      exact chained.ahead other above
  · rintro me positive (below | ⟨other, at', head, pinging⟩)
    · rw [params]
      exact kept me positive (chained.regs me positive (.inl below))
    · rw [params]
      by_cases same : other = ctx
      · subst same
        rw [here] at pinging
        exact fetched me positive at' head pinging
      · rw [elsewhere other same] at pinging
        exact kept me positive (chained.regs me positive (.inr ⟨other, at', head, pinging⟩))
  · rw [armed, main]
    exact chained.unsent

theorem IslandState.Chained.fetches (chained : state.Chained island front)
    (others : next.worker = Function.update state.worker ctx after)
    (armed : next.armed = state.armed) (main : next.main = state.main)
    (pings : next.pings = state.pings) (at' : contextNumber ctx = front)
    (held : after.Holding state.run state.runParams)
    (kept : ∀ me, 1 ≤ me → (state.regs me).args = state.runParams →
      (next.regs me).args = state.runParams)
    (fetched : ∀ me, 1 ≤ me → 8 * me = front → after.pc = .pinging →
      (next.regs me).args = state.runParams) :
    next.Chained island front :=
  chained.moved others armed main pings (by omega) (fun _ => .inr held) (by omega) kept
    fun me positive _ => fetched me positive

theorem IslandState.Chained.goesOn (chained : state.Chained island front)
    (others : next.worker = Function.update state.worker ctx after)
    (armed : next.armed = state.armed) (main : next.main = state.main)
    (pings : next.pings = state.pings) (regs : next.regs = state.regs)
    (below : contextNumber ctx < front)
    (passed : after.Passed state.run (bwSetup island (contextNumber ctx) state.runParams)) :
    next.Chained island front := by
  refine chained.moved others armed main pings (fun _ => passed) (by omega) (by omega) ?_
    (by omega)
  intro me _ args
  rwa [regs]

theorem IslandState.Chained.holder (chained : state.Chained island front)
    (holding : (state.worker ctx).pc.holding = true) :
    contextNumber ctx = front ∧ (state.worker ctx).Holding state.run state.runParams := by
  rcases lt_trichotomy (contextNumber ctx) front with below | at' | above
  · have beyond := (chained.passed ctx below).beyond
    rw [holding] at beyond
    contradiction
  · rcases chained.atFront ctx at' with pending | holds
    · have preparing := (free_not_looping pending.free).2
      cases pc : (state.worker ctx).pc <;> simp [pc, ContextPc.holding, ContextPc.preparing]
        at holding preparing
    · exact ⟨at', holds⟩
  · have preparing := (free_not_looping (chained.ahead ctx above).2).2
    cases pc : (state.worker ctx).pc <;> simp [pc, ContextPc.holding, ContextPc.preparing]
      at holding preparing

theorem IslandState.Chained.signalled (chained : state.Chained island front)
    (signalled : (state.worker ctx).startSig ≠ []) :
    contextNumber ctx = front ∧ (state.worker ctx).Pending state.run := by
  rcases lt_trichotomy (contextNumber ctx) front with below | at' | above
  · exact absurd (chained.passed ctx below).sig signalled
  · rcases chained.atFront ctx at' with pending | holds
    · exact ⟨at', pending⟩
    · exact absurd holds.sig signalled
  · exact absurd (chained.ahead ctx above).1 signalled

theorem IslandState.Chained.armed (chained : state.Chained island front) (positive : 1 ≤ front) :
    ∃ request, state.armed[state.run - 1]? = some request ∧ 1 ≤ state.run ∧
      request.params = state.runParams := by
  have some' : state.armed ≠ [] := fun none => by
    have := chained.unsent.mpr (.inl none)
    omega
  obtain ⟨request, last⟩ := Option.ne_none_iff_exists'.mp
    (fun none => some' (List.getLast?_eq_none_iff.mp none))
  refine ⟨request, ?_, List.length_pos_iff.mpr some', ?_⟩
  · rw [List.getLast?_eq_getElem?] at last
    exact last
  · simp only [IslandState.runParams, last]

theorem IslandState.Chained.drawer (chained : state.Chained island front)
    (drawing : (state.worker ctx).pc = .settingUp ∨ (state.worker ctx).pc = .looping) :
    contextNumber ctx < front := by
  rcases lt_trichotomy (contextNumber ctx) front with below | at' | above
  · exact below
  · rcases chained.atFront ctx at' with pending | holds
    · obtain ⟨notLooping, preparing⟩ := free_not_looping pending.free
      rcases drawing with pc | pc
      · simp [pc, ContextPc.preparing] at preparing
      · exact absurd pc notLooping
    · have holding := holds.holding
      rcases drawing with pc | pc <;> simp [pc, ContextPc.holding] at holding
  · obtain ⟨notLooping, preparing⟩ := free_not_looping (chained.ahead ctx above).2
    rcases drawing with pc | pc
    · simp [pc, ContextPc.preparing] at preparing
    · exact absurd pc notLooping

theorem IslandState.Chained.args (chained : state.Chained island front) (below : contextNumber ctx < front)
    (stable : state.Stable) : (state.regs (contextMe ctx)).args = state.runParams := by
  by_cases first : contextMe ctx = 0
  · rw [first]
    exact stable.1
  · refine chained.regs (contextMe ctx) (Nat.pos_of_ne_zero first) (.inl ?_)
    simp only [contextMe] at first ⊢
    omega

theorem IslandState.Chained.coasts (chained : state.Chained island front)
    (others : next.worker = Function.update state.worker ctx after)
    (armed : next.armed = state.armed) (main : next.main = state.main)
    (pings : next.pings = state.pings) (regs : next.regs = state.regs)
    (finishing : (state.worker ctx).pc.finishing = true)
    (sig : after.startSig = (state.worker ctx).startSig)
    (joined : after.joined = (state.worker ctx).joined)
    (cmd : after.cmd = (state.worker ctx).cmd) (beyond : after.pc.preparing = false)
    (free : (state.worker ctx).Free → after.Free) : next.Chained island front := by
  have placed : (state.worker ctx).pc.holding = false ∧ (state.worker ctx).pc ≠ .waiting ∧
      (state.worker ctx).pc ≠ .settingUp := by
    cases pc : (state.worker ctx).pc <;> simp [pc, ContextPc.finishing, ContextPc.holding]
      at finishing ⊢
  have notHolding : after.pc.holding = false ∧ after.pc ≠ .pinging := by
    cases pc : after.pc <;> simp [pc, ContextPc.preparing, ContextPc.holding] at beyond ⊢
  refine chained.moved others armed main pings ?_ ?_ ?_ ?_ ?_
  · intro below
    have passed := chained.passed ctx below
    exact ⟨sig.trans passed.sig, joined.trans passed.joined, notHolding.1, fun _ _ =>
      cmd.trans (passed.setUp placed.2.1 placed.2.2)⟩
  · intro at'
    rcases chained.atFront ctx at' with pending | holds
    · exact .inl ⟨sig.trans pending.sig, free pending.free⟩
    · have holding := holds.holding
      rw [placed.1] at holding
      contradiction
  · intro above
    have idle := chained.ahead ctx above
    exact ⟨sig.trans idle.1, free idle.2⟩
  · intro me _ args
    rwa [regs]
  · intro _ _ _ _ pinging
    exact absurd pinging notHolding.2

theorem IslandState.Chained.advances (chained : state.Chained island front)
    (at' : contextNumber ctx = front)
    (holds : (state.worker ctx).Holding state.run state.runParams)
    (pinging : (state.worker ctx).pc = .pinging)
    (here : next.worker ctx = { state.worker ctx with pc := .settingUp })
    (target : ∀ other, contextNumber other = front + 1 → next.worker other =
      { state.worker other with startSig := (state.worker other).startSig ++ [state.run] })
    (elsewhere : ∀ other, contextNumber other ≠ front → contextNumber other ≠ front + 1 →
      next.worker other = state.worker other)
    (armed : next.armed = state.armed) (main : next.main = state.main)
    (regs : next.regs = state.regs) (pings : next.pings = pingsSent island (front + 1)) :
    next.Chained island (front + 1) := by
  have run : next.run = state.run := by rw [IslandState.run, IslandState.run, armed]
  have params : next.runParams = state.runParams := by simp only [IslandState.runParams, armed]
  have unique (other : Fin workers) (same : contextNumber other = front) : other = ctx := by
    apply Fin.ext
    simp only [contextNumber] at same at'
    omega
  refine ⟨?_, ?_, ?_, ?_, pings, ?_, ?_⟩
  · intro other below
    rw [run, params]
    by_cases same : contextNumber other = front
    · rw [unique other same, here]
      exact ⟨holds.sig, holds.joined, rfl, fun _ apart => absurd rfl apart⟩
    · rw [elsewhere other same (by omega)]
      exact chained.passed other (by omega)
  · intro other next'
    have idle := chained.ahead other (by omega)
    rw [run, target other next']
    refine .inl ⟨?_, idle.2⟩
    simp only [idle.1, List.nil_append]
  · intro other above
    rw [elsewhere other (by omega) (by omega)]
    exact chained.ahead other (by omega)
  · rintro me positive (below | ⟨other, next', head, still⟩)
    · rw [regs, params]
      by_cases last : 8 * me = front
      · exact chained.regs me positive (.inr ⟨ctx, at', last, pinging⟩)
      · exact chained.regs me positive (.inl (by omega))
    · have free := (chained.ahead other (by omega)).2
      rw [target other next'] at still
      have preparing := (free_not_looping free).2
      rw [still] at preparing
      contradiction
  · have := ctx.isLt
    simp only [contextNumber] at at'
    omega
  · rw [armed, main, ← chained.unsent]
    simp only [contextNumber] at at'
    omega

end Work

section Work

variable {chip : Chip} {island : Island chip} {front : Nat}
  {state next : IslandState (workerCount chip)} {ctx : Fin (workerCount chip)}

theorem contextNumber_le (ctx : Fin (workerCount chip)) :
    contextNumber ctx ≤ workerCount chip ∧ 1 ≤ contextNumber ctx := by
  have := ctx.isLt
  simp only [contextNumber]
  omega

theorem IslandState.Chained.held (chained : state.Chained island front) {pc : ContextPc}
    (here : (state.worker ctx).pc = pc) (holding : pc.holding = true) :
    contextNumber ctx = front ∧ (state.worker ctx).Holding state.run state.runParams :=
  chained.holder (here ▸ holding)

theorem stable_preparing (order : state.InOrder island) {pc : ContextPc}
    (here : (state.worker ctx).pc = pc) (preparing : pc.preparing = true) : state.Stable := by
  refine order.stable (.inr ⟨ctx, fun prepared => ?_⟩)
  have done := prepared.2
  rw [here, preparing] at done
  contradiction

theorem chained_fetched (chained : state.Chained island front) {index : Nat}
    (pc : (state.worker ctx).pc = .fetchingParams index) (all : paramWordCount ≤ index) :
    IslandState.Chained island {
      state.setWorker ctx { state.worker ctx with pc := .pinging } with
      regs := Function.update state.regs (contextMe ctx)
        { state.regs (contextMe ctx) with args := TestParams.ofWords (state.worker ctx).params }
    } front := by
  obtain ⟨at', holds⟩ := chained.held pc rfl
  have args := ofWords_params ((holds.words index pc).2.mono all)
  refine chained.fetches rfl rfl rfl rfl at' ⟨holds.sig, holds.joined, rfl, nofun⟩ ?_ ?_
  · intro me _ kept
    by_cases same : me = contextMe ctx
    · subst same
      simpa using args
    · simpa [Function.update_of_ne same] using kept
  · intro me _ head _
    have same : me = contextMe ctx := by
      simp only [contextMe]
      omega
    subst same
    simpa using args

theorem chained_ping (chained : state.Chained island front) {target : Nat}
    (pc : (state.worker ctx).pc = .pinging)
    (found : pingTarget island (contextNumber ctx) = some target) :
    IslandState.Chained island
      ((state.setWorker ctx { state.worker ctx with pc := .settingUp }).sendPing
        (state.worker ctx).joined ⟨contextNumber ctx, target⟩) (front + 1) := by
  obtain ⟨at', holds⟩ := chained.held pc rfl
  have reached := pingTarget_next island (contextNumber_le ctx).1 found
  subst reached
  refine chained.advances at' holds pc ?_ ?_ ?_ rfl rfl rfl ?_
  · simp [sendPing, setWorker]
  · intro other next'
    have apart : other ≠ ctx := by
      rintro rfl
      omega
    simp [sendPing, setWorker, apart, next', at', holds.joined]
  · intro other notHere notNext
    have apart : other ≠ ctx := by
      rintro rfl
      exact notHere at'
    simp [sendPing, setWorker, apart, notNext, at']
  · rw [pingsSent_succ island (at' ▸ (contextNumber_le ctx).2), ← at', found, at']
    simp [sendPing, setWorker, chained.pings]

theorem chained_last (chained : state.Chained island front)
    (pc : (state.worker ctx).pc = .pinging)
    (nobody : pingTarget island (contextNumber ctx) = none) :
    IslandState.Chained island
      (state.setWorker ctx { state.worker ctx with pc := .settingUp }) (front + 1) := by
  obtain ⟨at', holds⟩ := chained.held pc rfl
  have last := pingTarget_none island (contextNumber_le ctx).1 nobody
  refine chained.advances at' holds pc ?_ ?_ ?_ rfl rfl rfl ?_
  · simp [setWorker]
  · intro other next'
    have := (contextNumber_le other).1
    omega
  · intro other notHere _
    have apart : other ≠ ctx := by
      rintro rfl
      exact notHere at'
    simp [setWorker, apart]
  · rw [pingsSent_succ island (at' ▸ (contextNumber_le ctx).2), ← at', nobody, at']
    simp [setWorker, chained.pings]

theorem chained_work (order : state.InOrder island)
    (chained : state.Chained island front) (move : WorkMove island state ctx next) :
    ∃ later, next.Chained island later := by
  cases move with
  | join pc signalled =>
      have at' := (chained.signalled signalled).1
      refine ⟨front, chained.fetches rfl rfl rfl rfl at' ⟨rfl, rfl, ?_, ?_⟩ (fun _ _ => id) ?_⟩
      · simp only
        split <;> rfl
      · intro index fetching
        simp only at fetching
        split at fetching <;> contradiction
      · intro me positive head pinging
        simp only at pinging
        split at pinging
        · contradiction
        · omega
  | fetchTest pc =>
      obtain ⟨at', holds⟩ := chained.held pc rfl
      refine ⟨front, chained.fetches rfl rfl rfl rfl at' ⟨holds.sig, holds.joined, rfl, ?_⟩ ?_
        nofun⟩
      · intro index fetching
        cases fetching
        exact ⟨Nat.zero_le _, agree_zero _ _⟩
      · intro me _ args
        by_cases same : me = contextMe ctx
        · subst same
          simpa using args
        · simpa [Function.update_of_ne same] using args
  | fetchParam index pc more =>
      obtain ⟨at', holds⟩ := chained.held pc rfl
      have stable := stable_preparing order pc rfl
      refine ⟨front, chained.fetches rfl rfl rfl rfl at' ⟨holds.sig, holds.joined, rfl, ?_⟩
        (fun _ _ => id) nofun⟩
      intro later fetching
      cases fetching
      exact ⟨more, (holds.words index pc).2.nextFrom stable.2 more⟩
  | fetched index pc all => exact ⟨front, chained_fetched chained pc all⟩
  | ping target pc found => exact ⟨front + 1, chained_ping chained pc found⟩
  | last pc nobody => exact ⟨front + 1, chained_last chained pc nobody⟩
  | setUp pc =>
      have below := chained.drawer (.inl pc)
      have passed := chained.passed ctx below
      have stable := stable_preparing order pc rfl
      refine ⟨front, chained.goesOn rfl rfl rfl rfl rfl below
        ⟨passed.sig, passed.joined, rfl, fun _ _ => ?_⟩⟩
      simp only [chained.args below stable, bwSetup]
  | draw pc =>
      have below := chained.drawer (.inr pc)
      have passed := chained.passed ctx below
      exact ⟨front, chained.goesOn rfl rfl rfl rfl rfl below
        ⟨passed.sig, passed.joined, rfl, fun _ _ => passed.setUp (by simp [pc]) (by simp [pc])⟩⟩
  | issue pc =>
      refine ⟨front, chained.coasts rfl rfl rfl rfl rfl (by rw [pc]; rfl) rfl rfl rfl rfl ?_⟩
      rintro (waiting | ⟨_, last⟩)
      · rw [pc] at waiting
        contradiction
      · exact .inr ⟨rfl, last⟩
  | complete pc =>
      refine ⟨front, chained.coasts rfl rfl rfl rfl rfl (by rw [pc]; rfl) rfl rfl rfl rfl ?_⟩
      rintro (waiting | ⟨_, last⟩)
      · rw [pc] at waiting
        contradiction
      · exact .inr ⟨rfl, last⟩
  | check pc =>
      refine ⟨front, chained.coasts rfl rfl rfl rfl rfl (by rw [pc]; rfl) rfl rfl rfl ?_ ?_⟩
      · simp only
        split <;> rfl
      · rintro (waiting | ⟨_, last⟩)
        · rw [pc] at waiting
          contradiction
        · refine .inr ⟨?_, last⟩
          simp only [last, if_true]
          rfl
  | leave pc =>
      refine ⟨front, chained.coasts rfl rfl rfl rfl rfl (by rw [pc]; rfl) rfl rfl rfl rfl ?_⟩
      intro _
      exact .inl rfl

theorem prepared_work (prepared : ∀ other, (state.worker other).Prepared)
    (move : WorkMove island state ctx next) : ∀ other, (next.worker other).Prepared := by
  obtain ⟨sig, preparing⟩ := prepared ctx
  intro other
  by_cases same : other = ctx
  · subst same
    cases move with
    | join pc signalled => exact absurd sig signalled
    | fetchTest pc | fetched index pc all | ping target pc found | last pc nobody
    | setUp pc | fetchParam index pc more =>
        rw [pc] at preparing
        contradiction
    | check pc =>
        refine ⟨by simpa [setWorker] using sig, ?_⟩
        simp only [setWorker, Function.update_self]
        split <;> rfl
    | draw pc | issue pc | complete pc | leave pc =>
        exact ⟨by simpa [setWorker] using sig, by simp [setWorker, ContextPc.preparing]⟩
  · have elsewhere : next.worker other = state.worker other := by
      cases move with
      | ping target pc found =>
          rw [pc] at preparing
          contradiction
      | _ => simp [setWorker, same]
    rw [elsewhere]
    exact prepared other

theorem BwDraw.Right.mono {armed more : List BwRequest} {draw : BwDraw}
    (right : draw.Right island armed) : draw.Right island (armed ++ more) := by
  obtain ⟨joined, request, found, positive, cmd⟩ := right
  refine ⟨joined, request, ?_, positive, cmd⟩
  rw [List.getElem?_append_left (List.getElem?_eq_some_iff.mp found).1]
  exact found

theorem keepsRuns_work (order : state.InOrder island) (move : WorkMove island state ctx next) :
    next.KeepsRuns island := by
  obtain ⟨front, chained⟩ := order.chain
  obtain ⟨draws, joins⟩ := order.keeps
  cases move with
  | join pc signalled =>
      refine ⟨draws, ?_⟩
      intro join member
      rcases List.mem_append.mp member with earlier | new
      · exact joins join earlier
      · rw [List.mem_singleton.mp new]
        exact (chained.signalled signalled).2.sig
  | draw pc =>
      refine ⟨?_, joins⟩
      intro draw member
      rcases List.mem_append.mp member with earlier | new
      · exact draws draw earlier
      · rw [List.mem_singleton.mp new]
        have below := chained.drawer (.inr pc)
        have passed := chained.passed ctx below
        obtain ⟨request, found, positive, params⟩ := chained.armed (by omega)
        refine ⟨passed.joined, request, found, positive, ?_⟩
        rw [params]
        exact passed.setUp (by simp [pc]) (by simp [pc])
  | _ => exact ⟨draws, joins⟩

theorem inOrder_work (order : state.InOrder island) (heads : state.FetchesAtHead)
    (move : WorkMove island state ctx next) : next.InOrder island := by
  obtain ⟨testCtrl, testParams, host, todo, main, mainParams, armed⟩ := move.frame
  obtain ⟨front, chained⟩ := order.chain
  refine ⟨chained_work order chained move, ?_, ?_, keepsRuns_work order move⟩
  · intro begun
    refine prepared_work (order.begun ?_) move
    simpa only [Begun, host, main, testCtrl] using begun
  · intro unprepared
    have before : state.main = .starting ∨ ∃ other, ¬ (state.worker other).Prepared := by
      rcases unprepared with starting | ⟨other, unprepared⟩
      · exact .inl (main ▸ starting)
      · refine .inr ?_
        by_contra prepared
        exact unprepared (prepared_work (fun other => by_contra fun un => prepared ⟨other, un⟩)
          move other)
    have stable := order.stable before
    have params : next.runParams = state.runParams := by simp only [IslandState.runParams, armed]
    simp only [Stable, move.regs_zero heads, testParams, params]
    exact stable

end Work

section Main

variable {chip : Chip} {island : Island chip} {workers : Nat}
  {state next : IslandState workers}

theorem IslandState.Chained.same {front : Nat} (chained : state.Chained island front)
    (worker : next.worker = state.worker) (armed : next.armed = state.armed)
    (regs : ∀ me, 1 ≤ me → next.regs me = state.regs me) (pings : next.pings = state.pings)
    (main : next.main = .starting ↔ state.main = .starting) : next.Chained island front := by
  have run : next.run = state.run := by rw [IslandState.run, IslandState.run, armed]
  have params : next.runParams = state.runParams := by simp only [IslandState.runParams, armed]
  refine ⟨?_, ?_, ?_, ?_, pings.trans chained.pings, chained.bound, ?_⟩
  · rw [worker, run, params]
    exact chained.passed
  · rw [worker, run, params]
    exact chained.atFront
  · rw [worker]
    exact chained.ahead
  · intro me positive reached
    rw [regs me positive, params]
    rw [worker] at reached
    exact chained.regs me positive reached
  · rw [armed, main]
    exact chained.unsent

theorem inOrder_host (order : state.InOrder island) (turns : state.TakesTurns)
    (good : state.GoodOrder .host) (move : HostMove state next) : next.InOrder island := by
  obtain ⟨front, chained⟩ := order.chain
  have later : next.Chained island front := by
    cases move <;> exact chained.same rfl rfl (fun _ _ => rfl) rfl Iff.rfl
  have keeps : next.KeepsRuns island := by
    cases move <;> exact ⟨order.keeps.draws, order.keeps.joins⟩
  -- while the host writes a request the main loop polls and every context is prepared
  have writes (resting : state.Resting) (prepared : ∀ ctx, (state.worker ctx).Prepared)
      (worker : next.worker = state.worker) (main : next.main = state.main) :
      next.InOrder island := by
    refine ⟨⟨front, later⟩, ?_, ?_, keeps⟩
    · intro _
      rw [worker]
      exact prepared
    · rw [worker, main, resting.2]
      rintro (starting | ⟨ctx, unprepared⟩)
      · contradiction
      · exact absurd (prepared ctx) unprepared
  cases move with
  | begin request rest host todo =>
      simp only [TakesTurns, host] at turns
      exact writes turns (good host) rfl rfl
  | setParam request index host more | setCtrl request index host all =>
      simp only [TakesTurns, host] at turns
      exact writes turns.1 (order.begun (.inl ⟨request, index, host⟩)) rfl rfl
  | finish request host settled =>
      refine ⟨⟨front, later⟩, ?_, order.stable, keeps⟩
      rintro (⟨request, index, writing⟩ | begun)
      · contradiction
      · exact order.begun (.inr begun)

theorem IslandState.InOrder.quiet (order : state.InOrder island) (begun : state.Begun)
    (before : state.main ≠ .starting) (after : next.main ≠ .starting)
    (worker : next.worker = state.worker) (armed : next.armed = state.armed)
    (regs : ∀ me, 1 ≤ me → next.regs me = state.regs me) (pings : next.pings = state.pings)
    (draws : next.draws = state.draws) (joins : next.joins = state.joins) :
    next.InOrder island := by
  obtain ⟨front, chained⟩ := order.chain
  have prepared := order.begun begun
  refine ⟨⟨front, chained.same worker armed regs pings (by simp [before, after])⟩, ?_, ?_, ?_⟩
  · intro _
    rw [worker]
    exact prepared
  · rw [worker]
    rintro (starting | ⟨ctx, unprepared⟩)
    · exact absurd starting after
    · exact absurd (prepared ctx) unprepared
  · refine ⟨?_, ?_⟩
    · rw [draws, armed]
      exact order.keeps.draws
    · rw [joins]
      exact order.keeps.joins

theorem not_begun {request : BwRequest} (host : state.host = .polling request)
    (main : state.main = .starting ∨ state.main = .waiting ∨
      ∃ res, state.main = .publishing res) : ¬ state.Begun := by
  rintro (⟨other, index, writing⟩ | ⟨polling, _⟩ | ⟨index, copying⟩ | passing | arming)
  · rw [host] at writing
    contradiction
  all_goals rcases main with main | main | ⟨res, main⟩ <;> simp_all

theorem inOrder_arm (order : state.InOrder island) (turns : state.TakesTurns)
    (idle : ∀ ctx, (state.worker ctx).Idle) (main : state.main = .arming) :
    InOrder island { state with
      numDmaTrans := bwMaxTrans (state.regs 0).args.p0
      main := .starting
      armed := state.armed ++ state.host.current.toList
      pings := [] } := by
  obtain ⟨request, host, _, posted, progress⟩ := takesTurns_busy turns (by simp [main])
  simp only [MainAt, main] at progress
  obtain ⟨entered, _⟩ := progress
  refine ⟨⟨0, ?_⟩, fun begun => absurd begun (not_begun host (.inl rfl)), fun _ => ?_, ?_, ?_⟩
  · refine ⟨?_, ?_, fun ctx _ => idle ctx, ?_, rfl, Nat.zero_le _, ?_⟩
    · intro ctx below
      omega
    · intro ctx none
      simp [contextNumber] at none
    · rintro me positive (below | ⟨ctx, none, _⟩)
      · omega
      · simp [contextNumber] at none
    · simp
  · simp only [Stable, IslandState.runParams, host, BwHostPc.current, Option.toList_some,
      List.getLast?_concat]
    exact ⟨by rw [entered], posted⟩
  · exact fun draw member => (order.keeps.draws draw member).mono
  · exact order.keeps.joins

theorem inOrder_start (order : state.InOrder island) (turns : state.TakesTurns)
    (main : state.main = .starting) :
    InOrder island { state.sendPing state.run ⟨0, 1⟩ with main := .waiting } := by
  obtain ⟨front, chained⟩ := order.chain
  have unsent : front = 0 := chained.unsent.mpr (.inr main)
  subst unsent
  obtain ⟨request, host, _, posted, progress⟩ := takesTurns_busy turns (by simp [main])
  simp only [MainAt, main] at progress
  have armed : state.armed ≠ [] := by
    intro none
    rw [none] at progress
    simp at progress
  have idle (ctx : Fin workers) : (state.worker ctx).Idle :=
    chained.ahead ctx (Nat.succ_pos _)
  refine ⟨⟨1, ?_⟩, fun begun => absurd begun (not_begun host (.inr (.inl rfl))),
    fun _ => order.stable (.inl main), order.keeps.draws, order.keeps.joins⟩
  refine ⟨?_, ?_, ?_, ?_, ?_, by omega, ?_⟩
  · intro ctx below
    simp [contextNumber] at below
  · intro ctx first
    refine .inl ⟨?_, ?_⟩
    · simp [sendPing, first, (idle ctx).1, IslandState.run]
    · simp only [sendPing, first, if_true]
      exact (idle ctx).2
  · intro ctx later
    have apart : contextNumber ctx ≠ 1 := by omega
    simpa [sendPing, apart] using idle ctx
  · rintro me positive (below | ⟨ctx, _, head, _⟩) <;> omega
  · simp [sendPing, chained.pings, pingsSent]
  · simpa [sendPing] using armed

theorem inOrder_main (order : state.InOrder island) (turns : state.TakesTurns)
    (good : state.GoodOrder .main) (move : MainMove island state next) : next.InOrder island := by
  obtain ⟨front, chained⟩ := order.chain
  have otherMes {regs : SharedRegs} (me : Nat) (positive : 1 ≤ me) :
      Function.update state.regs 0 regs me = state.regs me :=
    Function.update_of_ne (by omega) _ _
  cases move with
  | wake main positive =>
      exact order.quiet (.inr (.inl ⟨main, positive⟩)) (by simp [main]) (by simp) rfl rfl
        (fun _ _ => rfl) rfl rfl rfl
  | copyParam index main more =>
      exact order.quiet (.inr (.inr (.inl ⟨index, main⟩))) (by simp [main]) (by simp) rfl rfl
        (fun _ _ => rfl) rfl rfl rfl
  | «switch» index main all =>
      exact order.quiet (.inr (.inr (.inl ⟨index, main⟩))) (by simp [main]) (by simp) rfl rfl
        (fun _ _ => rfl) rfl rfl rfl
  | refuse main refused =>
      exact order.quiet (.inr (.inr (.inr (.inl main)))) (by simp [main]) (by simp) rfl rfl
        otherMes rfl rfl rfl
  | accept main accepted =>
      exact order.quiet (.inr (.inr (.inr (.inl main)))) (by simp [main]) (by simp) rfl rfl
        otherMes rfl rfl rfl
  | arm main returned => exact inOrder_arm order turns (good main) main
  | start main => exact inOrder_start order turns main
  | finish main signalled =>
      refine ⟨⟨front, chained.same rfl rfl (fun _ _ => rfl) rfl (by simp [main])⟩, ?_, ?_,
        order.keeps.draws, order.keeps.joins⟩
      · obtain ⟨request, host, _⟩ := takesTurns_busy turns (by simp [main])
        exact fun begun => absurd begun (not_begun host (.inr (.inr ⟨0, rfl⟩)))
      · rintro (starting | unprepared)
        · contradiction
        · exact order.stable (.inr unprepared)
  | publish res main =>
      refine ⟨⟨front, chained.same rfl rfl (fun _ _ => rfl) rfl (by simp [main])⟩, ?_, ?_,
        order.keeps.draws, order.keeps.joins⟩
      · obtain ⟨request, host, _, _, progress⟩ := takesTurns_busy turns (by simp [main])
        simp only [MainAt, main] at progress
        rintro (⟨other, index, writing⟩ | ⟨_, positive⟩ | ⟨index, copying⟩ | passing | arming)
        · rw [host] at writing
          contradiction
        · exact absurd positive (Int.not_lt.mpr progress)
        all_goals contradiction
      · rintro (starting | unprepared)
        · contradiction
        · exact order.stable (.inr unprepared)

end Main

section Runs

variable {chip : Chip} {island : Island chip} {requests : List BwRequest}
  {state : IslandState (workerCount chip)}

theorem inOrder_loaded : (loaded chip requests).InOrder island := by
  have prepared : BwContext.fresh.Prepared := ⟨rfl, rfl⟩
  refine ⟨⟨0, ?_⟩, fun _ _ => prepared, ?_, ⟨nofun, nofun⟩⟩
  · refine ⟨?_, ?_, fun _ _ => ⟨rfl, .inl rfl⟩, ?_, rfl, Nat.zero_le _, ?_⟩
    · intro ctx below
      omega
    · intro ctx none
      simp [contextNumber] at none
    · rintro me positive (below | ⟨ctx, none, _⟩)
      · omega
      · simp [contextNumber] at none
    · simp [loaded]
  · rintro (starting | ⟨ctx, unprepared⟩)
    · contradiction
    · exact absurd prepared unprepared

theorem inOrder_reached
    (reached : Machine.Reaches (islandStep island) IslandState.GoodOrder (loaded chip requests)
      state) : state.InOrder island := by
  refine reached.invariant inOrder_loaded ?_
  intro before action after earlier order good moved
  have inTurn := inTurn_reached earlier
  rcases islandStep_moves moved with ⟨rfl, move⟩ | ⟨rfl, move⟩ | ⟨ctx, _, move⟩
  · exact inOrder_host order inTurn.turns good move
  · exact inOrder_main order inTurn.turns good move
  · exact inOrder_work order inTurn.heads move

end Runs

end Pciebench
