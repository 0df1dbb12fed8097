import Mathlib
import Pciebench.BwWorkers
import Pciebench.Handshake
import Pciebench.HostChecks
import Pciebench.TransferSize

/-!
The island in full: the host, the main loop with `dma_bw` on context 0 of ME 0, and
`dma_bw_worker` on every other context of the MEs up to `PCIEBENCH_LAST_WORKER_ME`, for any
number of bandwidth tests on one firmware load. Every access to a shared word is a step. The
registers that the contexts of an ME share change in one step, since contexts only give way
when they wait for an access.

Contexts are numbered across the island, eight to an ME; the master has number 0.
-/

namespace Pciebench

def pciebenchLastWorkerMe : Chip → Nat
  | .nfp3200 => 7
  | .nfp6000 => 11

def workerCount (chip : Chip) : Nat :=
  8 * (pciebenchLastWorkerMe chip + 1) - 1

/-- `__ME`, from the value of `ACTIVE_CTX_STS`. -/
def meId (chip : Chip) (ctxsts : UInt32) : UInt32 :=
  let menum : UInt32 := ((ctxsts >>> 3) - 4) &&& 0x7
  let islclnum : UInt32 :=
    match chip with
    | .nfp3200 => (ctxsts >>> 25) &&& 0xf
    | .nfp6000 => (ctxsts >>> 25) &&& 0x3f
  (islclnum <<< 4) + menum

/-- An island as its contexts see it: the status register of each ME, with the number of the
ME plus 4 in bits 6..3, and what each context brings to a descriptor. `setUpReturns` says of each
run, by its number and parameters, whether `dma_bw` gets past `dma_addr_init` and the regions that
the flags ask for. -/
structure Island (chip : Chip) where
  activeCtxSts : Nat → UInt32
  context : Nat → DmaContext
  setUpReturns : Nat → TestParams → Bool
  meBits : ∀ me, me ≤ pciebenchLastWorkerMe chip →
    (activeCtxSts me).toNat / 8 % 16 = me + 4

/-- Whom a worker context pings: the next context of its ME, or context 0 of the next ME. -/
def pingTarget {chip : Chip} (island : Island chip) (number : Nat) : Option Nat :=
  let me := number / 8
  if number % 8 ≠ 7 then some (number + 1)
  else if (meId chip (island.activeCtxSts me) &&& (0xf : UInt32)).toNat ≠ pciebenchLastWorkerMe chip then
    some (8 * (me + 1))
  else none

structure BwRequest where
  test : PciebenchTest
  params : TestParams
  bw : test ∈ bwTests

def BwRequest.accepted (request : BwRequest) : Prop :=
  request.params.addrArgs.refused = false

/-- The set-up returns for every request that gets there. -/
def Island.SetUpsReturn {chip : Chip} (island : Island chip) (requests : List BwRequest) : Prop :=
  ∀ request ∈ requests, request.accepted → ∀ run, island.setUpReturns run request.params = true

def bwMaxTrans (flags : UInt32) : Nat :=
  if flagSet flags latFlagsLong then pciebenchJournalSz else pciebenchBwTrans

-- The direction from the registers, whatever `test_no` holds.
def bwReadNo (testNo : UInt32) (trans : Nat) : Bool :=
  if testNo = PciebenchTest.bwDmaRd.number then true
  else if testNo = PciebenchTest.bwDmaWr.number then false
  else trans &&& 1 != 0

/-- The registers shared by the contexts of an ME. -/
structure SharedRegs where
  testNo : UInt32
  args : TestParams

inductive ContextPc
  | waiting                       -- `wait_for_all(&dma_ctrl_sig)`
  | fetchingTest                  -- `test_no = test_ctrl`
  | fetchingParams (index : Nat)  -- `params = test_params`
  | pinging
  | settingUp                     -- `pcie_dma_setup`
  | looping
  | drawn
  | inFlight                      -- the DMA not completed
  | completed
  | left                          -- about to test `trans == 1`
  deriving DecidableEq, Repr

/-- A worker context. The start signal is one bit; `startSig` lists the runs of the pings that
it stands for. `joined` is the run that the context last woke up in. -/
structure BwContext where
  pc : ContextPc
  startSig : List Nat
  params : Nat → UInt32
  cmd : DmaCmd
  trans : Nat
  joined : Nat

inductive BwHostPc
  | idle
  | settingParams (request : BwRequest) (index : Nat)
  | polling (request : BwRequest)

def BwHostPc.current : BwHostPc → Option BwRequest
  | .idle => none
  | .settingParams request _ | .polling request => some request

inductive BwMainPc
  | polling
  | copyingParams (index : Nat)
  | passing             -- into `dma_bw` with a second read of `test_ctrl`
  | arming              -- in the set-up before `num_dma_trans = max_trans`
  | starting            -- `signal_next_ctx`
  | waiting
  | publishing (res : Int)
  deriving DecidableEq, Repr

structure BwDraw where
  run : Nat
  ticket : Nat
  joined : Nat
  context : Nat
  cmd : DmaCmd

structure BwIssue where
  context : Nat
  ticket : Nat
  read : Bool
  cmd : DmaCmd

structure BwPing where
  source : Nat
  target : Nat
  deriving DecidableEq, Repr

structure BwJoin where
  pings : List Nat
  run : Nat

/-- The shared words, the host and the contexts. From `armed` on, records of the run: the
requests that the counter was started for, the tickets drawn, the DMAs enqueued, the start
pings sent since the counter was started, and the start signals consumed. -/
structure IslandState (workers : Nat) where
  testCtrl : Int
  testParams : Nat → UInt32
  numDmaTrans : Nat
  host : BwHostPc
  todo : List BwRequest
  main : BwMainPc
  mainParams : Nat → UInt32
  mainSig : Bool
  regs : Nat → SharedRegs
  worker : Fin workers → BwContext
  armed : List BwRequest
  draws : List BwDraw
  issued : List BwIssue
  pings : List BwPing
  joins : List BwJoin

inductive IslandAction (workers : Nat)
  | host
  | main
  | work (ctx : Fin workers)
  | complete (ctx : Fin workers)

def contextNumber {workers : Nat} (ctx : Fin workers) : Nat :=
  ctx.val + 1

def contextMe {workers : Nat} (ctx : Fin workers) : Nat :=
  contextNumber ctx / 8

namespace IslandState

variable {workers : Nat}

def setWorker (state : IslandState workers) (ctx : Fin workers) (next : BwContext) :
    IslandState workers :=
  { state with worker := Function.update state.worker ctx next }

def sendPing (state : IslandState workers) (run : Nat) (ping : BwPing) : IslandState workers :=
  { state with
    worker := fun ctx =>
      if contextNumber ctx = ping.target then
        { state.worker ctx with startSig := (state.worker ctx).startSig ++ [run] }
      else state.worker ctx
    pings := state.pings ++ [ping] }

def run (state : IslandState workers) : Nat :=
  state.armed.length

/-- The host; where it would only poll again it takes no step. -/
def hostStep (state : IslandState workers) : Option (IslandState workers) :=
  match state.host with
  | .idle =>
      match state.todo with
      | [] => none
      | request :: rest =>
          some {
            state with
            testParams := Function.update state.testParams 0 (request.params.word 0)
            host := .settingParams request 1
            todo := rest
          }
  | .settingParams request index =>
      if index < paramWordCount then
        some {
          state with
          testParams := Function.update state.testParams index (request.params.word index)
          host := .settingParams request (index + 1)
        }
      else some { state with testCtrl := request.test.ctrl, host := .polling request }
  | .polling _ => if state.testCtrl ≤ 0 then some { state with host := .idle } else none

/-- The main loop and `dma_bw`, which stays in a set-up that does not return. -/
def mainStep {chip : Chip} (island : Island chip) (state : IslandState workers) :
    Option (IslandState workers) :=
  match state.main with
  | .polling => if 0 < state.testCtrl then some { state with main := .copyingParams 0 } else none
  | .copyingParams index =>
      if index < paramWordCount then
        some {
          state with
          mainParams := Function.update state.mainParams index (state.testParams index)
          main := .copyingParams (index + 1)
        }
      else
        match HandshakeState.switchTest state.testCtrl with
        | .passing => some { state with main := .passing }
        | _ => none
  | .passing =>
      let params := TestParams.ofWords state.mainParams
      some {
        state with
        regs := Function.update state.regs 0 ⟨UInt32.ofInt state.testCtrl, params⟩
        main := if params.addrArgs.refused then .publishing (-1) else .arming
      }
  | .arming =>
      if island.setUpReturns state.run (state.regs 0).args then
        some {
          state with
          numDmaTrans := bwMaxTrans (state.regs 0).args.p0
          main := .starting
          armed := state.armed ++ state.host.current.toList
          pings := []
        }
      else none
  | .starting => some { state.sendPing state.run ⟨0, 1⟩ with main := .waiting }
  | .waiting =>
      if state.mainSig then some { state with mainSig := false, main := .publishing 0 } else none
  | .publishing res => some { state with testCtrl := res, main := .polling }

/-- A worker context in `dma_bw_worker`. -/
def workStep {chip : Chip} (island : Island chip) (state : IslandState workers)
    (ctx : Fin workers) : Option (IslandState workers) :=
  let here := state.worker ctx
  let number := contextNumber ctx
  let me := contextMe ctx
  match here.pc with
  | .waiting =>
      if here.startSig = [] then none
      else
        some {
          state.setWorker ctx {
            here with
            pc := if number % 8 = 0 then .fetchingTest else .pinging
            startSig := []
            joined := state.run
          } with
          joins := state.joins ++ [⟨here.startSig, state.run⟩]
        }
  | .fetchingTest =>
      some {
        state.setWorker ctx { here with pc := .fetchingParams 0 } with
        regs := Function.update state.regs me
          { state.regs me with testNo := UInt32.ofInt state.testCtrl }
      }
  | .fetchingParams index =>
      if index < paramWordCount then
        some (state.setWorker ctx {
          here with
          pc := .fetchingParams (index + 1)
          params := Function.update here.params index (state.testParams index)
        })
      else
        some {
          state.setWorker ctx { here with pc := .pinging } with
          regs := Function.update state.regs me
            { state.regs me with args := TestParams.ofWords here.params }
        }
  | .pinging =>
      let next := state.setWorker ctx { here with pc := .settingUp }
      match pingTarget island number with
      | some target => some (next.sendPing here.joined ⟨number, target⟩)
      | none => some next
  | .settingUp =>
      let args := (state.regs me).args
      let cmd := pcieDmaSetup chip (island.context number) args.p1 args.p4
      some (state.setWorker ctx { here with pc := .looping, cmd })
  | .looping =>
      let (ticket, left) := clsTestSub state.numDmaTrans 1
      some {
        state.setWorker ctx { here with pc := .drawn, trans := ticket } with
        numDmaTrans := left
        draws := state.draws ++ [⟨state.run, ticket, here.joined, number, here.cmd⟩]
      }
  | .drawn =>
      let read := bwReadNo (state.regs me).testNo here.trans
      some {
        state.setWorker ctx { here with pc := .inFlight } with
        issued := state.issued ++ [⟨number, here.trans, read, here.cmd⟩]
      }
  | .inFlight => none
  | .completed =>
      some (state.setWorker ctx { here with pc := if here.trans ≤ 1 then .left else .looping })
  | .left =>
      let back := state.setWorker ctx { here with pc := .waiting }
      -- `meid >> 4` is the own island, where ME 0 and context 0 are the master
      some (if here.trans = 1 then { back with mainSig := true } else back)

end IslandState

open IslandState

def islandStep {chip : Chip} (island : Island chip) (state : IslandState (workerCount chip)) :
    IslandAction (workerCount chip) → Option (IslandState (workerCount chip))
  | .host => state.hostStep
  | .main => state.mainStep island
  | .work ctx => state.workStep island ctx
  | .complete ctx =>
      let here := state.worker ctx
      if here.pc = .inFlight then some (state.setWorker ctx { here with pc := .completed })
      else none

def BwContext.fresh : BwContext where
  pc := .waiting
  startSig := []
  params := fun _ => 0
  cmd := { raw0 := 0, raw1 := 0, raw2 := 0, raw3 := 0 }
  trans := 0
  joined := 0

def loaded (chip : Chip) (requests : List BwRequest) : IslandState (workerCount chip) where
  testCtrl := 0
  testParams := fun _ => 0
  numDmaTrans := 0
  host := .idle
  todo := requests
  main := .polling
  mainParams := fun _ => 0
  mainSig := false
  regs := fun _ => ⟨0, ⟨0, 0, 0, 0, 0⟩⟩
  worker := fun _ => .fresh
  armed := []
  draws := []
  issued := []
  pings := []
  joins := []

abbrev IslandReachable {chip : Chip} (island : Island chip) (requests : List BwRequest) :
    IslandState (workerCount chip) → Prop :=
  Machine.Reachable (islandStep island) (loaded chip requests)

end Pciebench
