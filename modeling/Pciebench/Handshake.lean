import Mathlib
import Pciebench.ChunkAddrs
import Pciebench.Lib.Machine
import Pciebench.Lib.WordCopy

/-!
The host's `run_test` (`nfpbench.py`) and the main loop of the firmware
(`pciebench_main.c`), interleaved at every access to a 32-bit word of the memory they share.
The firmware is not reloaded between the requests. A test is a function of what it is called
with: none when it refuses its parameters, otherwise the result it leaves.
-/

namespace Pciebench

/-- `struct test_result`. -/
structure TestResult where
  startHi : UInt32
  startLo : UInt32
  endHi : UInt32
  endLo : UInt32
  r0 : UInt32
  r1 : UInt32
  r2 : UInt32
  r3 : UInt32
  deriving DecidableEq, Repr

/-- A call of `run_test`, with the addresses that the driver exports at the time. -/
structure TestRequest where
  test : PciebenchTest
  params : TestParams
  bufDmaAddrs : ChunkTable

inductive TestFunction
  | cmdLat
  | dmaLat
  | dmaBw
  deriving DecidableEq, Repr

/-- What the main loop calls a test function with. -/
structure TestCall where
  function : TestFunction
  test : Int
  params : TestParams
  chunkDmaAddrs : ChunkTable

section Words

def paramWordCount : Nat := 5

def resultWordCount : Nat := 8

def addrWordCount : Nat := 2 * pciebenchChunks

def TestParams.word (params : TestParams) : Nat → UInt32
  | 0 => params.p0
  | 1 => params.p1
  | 2 => params.p2
  | 3 => params.p3
  | _ => params.p4

def TestParams.ofWords (word : Nat → UInt32) : TestParams where
  p0 := word 0
  p1 := word 1
  p2 := word 2
  p3 := word 3
  p4 := word 4

def TestResult.word (result : TestResult) : Nat → UInt32
  | 0 => result.startHi
  | 1 => result.startLo
  | 2 => result.endHi
  | 3 => result.endLo
  | 4 => result.r0
  | 5 => result.r1
  | 6 => result.r2
  | _ => result.r3

def TestResult.ofWords (word : Nat → UInt32) : TestResult where
  startHi := word 0
  startLo := word 1
  endHi := word 2
  endLo := word 3
  r0 := word 4
  r1 := word 5
  r2 := word 6
  r3 := word 7

def TestRequest.addrWord (request : TestRequest) (index : Nat) : UInt32 :=
  ((npbDmaAddrsShow request.bufDmaAddrs).flatMap addrWords).getD index 0

def chunkAddrs (word : Nat → UInt32) : ChunkTable :=
  fun chunk => Words.join (word (2 * chunk.val)) (word (2 * chunk.val + 1))

end Words

def PciebenchTest.ctrl (test : PciebenchTest) : Int :=
  test.number.toNat

def PciebenchTest.function : PciebenchTest → TestFunction
  | latCmdRd | latCmdWrrd => .cmdLat
  | latDmaRd | latDmaWrrd => .dmaLat
  | bwDmaRd | bwDmaWr | bwDmaRw => .dmaBw

def TestRequest.call (request : TestRequest) : TestCall where
  function := request.test.function
  test := request.test.ctrl
  params := request.params
  chunkDmaAddrs := request.bufDmaAddrs

/-- `run_test` between two requests (`idle`) and inside one. -/
inductive HostPc
  | idle
  | settingAddrs (request : TestRequest) (index : Nat)
  | settingParams (request : TestRequest) (index : Nat)
  | settingCtrl (request : TestRequest)
  | polling (request : TestRequest)     -- `while self._get_test_ctrl() > 0`
  | checking (request : TestRequest)    -- `ret = self._get_test_ctrl()`
  | reading (request : TestRequest) (index : Nat)

inductive MainPc
  | polling             -- `if (test_ctrl <= 0) continue`
  | copyingParams (index : Nat)
  | copyingAddrs (index : Nat)
  | switching           -- `switch (test_ctrl)`
  | passing             -- `test_ctrl` as the third argument of `dma_bw`
  | calling (function : TestFunction) (test : Int)
  | writingResult (index : Nat)
  | writingCtrl
  deriving DecidableEq, Repr

/-- The shared words, then the variables of the host and of `main`. The lists of calls made
and of answers taken are records of the run. -/
structure HandshakeState where
  testCtrl : Int
  testParams : Nat → UInt32
  testResult : Nat → UInt32
  hostDmaAddrs : Nat → UInt32
  host : HostPc
  todo : List TestRequest
  tmp : Nat → UInt32
  main : MainPc
  params : Nat → UInt32
  chunkDmaAddrs : Nat → UInt32
  result : TestResult
  res : Int
  executed : List TestCall
  answers : List (TestRequest × Option TestResult)

inductive HandshakeAction
  | host
  | main
  deriving DecidableEq, Repr

namespace HandshakeState

def hostStep (state : HandshakeState) : Option HandshakeState :=
  match state.host with
  | .idle =>
      match state.todo with
      | [] => none
      | request :: rest => some { state with host := .settingAddrs request 0, todo := rest }
  | .settingAddrs request index =>
      if index < addrWordCount then
        some {
          state with
          hostDmaAddrs := Function.update state.hostDmaAddrs index (request.addrWord index)
          host := .settingAddrs request (index + 1)
        }
      else some { state with host := .settingParams request 0 }
  | .settingParams request index =>
      if index < paramWordCount then
        some {
          state with
          testParams := Function.update state.testParams index (request.params.word index)
          host := .settingParams request (index + 1)
        }
      else some { state with host := .settingCtrl request }
  | .settingCtrl request =>
      some { state with testCtrl := request.test.ctrl, host := .polling request }
  | .polling request =>
      some { state with host := if 0 < state.testCtrl then .polling request else .checking request }
  | .checking request =>
      -- `err` leaves `run_test` without a look at the result
      if state.testCtrl < 0 then
        some { state with host := .idle, answers := state.answers ++ [(request, none)] }
      else some { state with host := .reading request 0 }
  | .reading request index =>
      if index < resultWordCount then
        some {
          state with
          tmp := Function.update state.tmp index (state.testResult index)
          host := .reading request (index + 1)
        }
      else
        some {
          state with
          host := .idle
          answers := state.answers ++ [(request, some (TestResult.ofWords state.tmp))]
        }

/-- The `switch` of the main loop: where each test number leads. -/
def switchTest (testCtrl : Int) : MainPc :=
  if testCtrl = PciebenchTest.latCmdRd.ctrl then .calling .cmdLat PciebenchTest.latCmdRd.ctrl
  else if testCtrl = PciebenchTest.latCmdWrrd.ctrl then
    .calling .cmdLat PciebenchTest.latCmdWrrd.ctrl
  else if testCtrl = PciebenchTest.latDmaRd.ctrl then .calling .dmaLat PciebenchTest.latDmaRd.ctrl
  else if testCtrl = PciebenchTest.latDmaWrrd.ctrl then
    .calling .dmaLat PciebenchTest.latDmaWrrd.ctrl
  else if testCtrl = PciebenchTest.bwDmaRd.ctrl ∨ testCtrl = PciebenchTest.bwDmaWr.ctrl ∨
      testCtrl = PciebenchTest.bwDmaRw.ctrl then .passing
  else .polling

def mainStep (run : TestCall → Option TestResult) (state : HandshakeState) : HandshakeState :=
  match state.main with
  | .polling =>
      { state with main := if state.testCtrl ≤ 0 then .polling else .copyingParams 0 }
  | .copyingParams index =>
      if index < paramWordCount then
        {
          state with
          params := Function.update state.params index (state.testParams index)
          main := .copyingParams (index + 1)
        }
      else { state with main := .copyingAddrs 0 }
  | .copyingAddrs index =>
      if index < addrWordCount then
        {
          state with
          chunkDmaAddrs := Function.update state.chunkDmaAddrs index (state.hostDmaAddrs index)
          main := .copyingAddrs (index + 1)
        }
      else { state with main := .switching }
  | .switching => { state with main := switchTest state.testCtrl }
  | .passing => { state with main := .calling .dmaBw state.testCtrl }
  | .calling function test =>
      let call : TestCall :=
        ⟨function, test, TestParams.ofWords state.params, chunkAddrs state.chunkDmaAddrs⟩
      {
        state with
        result := (run call).getD state.result
        res := if (run call).isSome then 0 else -1
        executed := state.executed ++ [call]
        main := .writingResult 0
      }
  | .writingResult index =>
      if index < resultWordCount then
        {
          state with
          testResult := Function.update state.testResult index (state.result.word index)
          main := .writingResult (index + 1)
        }
      else { state with main := .writingCtrl }
  | .writingCtrl => { state with testCtrl := state.res, main := .polling }

end HandshakeState

open HandshakeState

def handshakeStep (run : TestCall → Option TestResult) (state : HandshakeState) :
    HandshakeAction → Option HandshakeState
  | .host => state.hostStep
  | .main => some (state.mainStep run)

/-- A host with requests to make and a freshly loaded firmware; every other word is whatever
it is. -/
structure Booted (requests : List TestRequest) (state : HandshakeState) : Prop where
  testCtrl : state.testCtrl = 0
  host : state.host = .idle
  todo : state.todo = requests
  main : state.main = .polling
  executed : state.executed = []
  answers : state.answers = []

section Words

open WordCopy

theorem ofWords_params {word : Nat → UInt32} {params : TestParams}
    (agree : Agree paramWordCount word params.word) : TestParams.ofWords word = params := by
  have same (index : Nat) (bound : index < 5) : word index = params.word index :=
    agree index bound
  simp [TestParams.ofWords, same, TestParams.word]

theorem ofWords_result {word : Nat → UInt32} {result : TestResult}
    (agree : Agree resultWordCount word result.word) : TestResult.ofWords word = result := by
  have same (index : Nat) (bound : index < 8) : word index = result.word index :=
    agree index bound
  simp [TestResult.ofWords, same, TestResult.word]

theorem chunkAddrs_copied {word : Nat → UInt32} {request : TestRequest}
    (agree : Agree addrWordCount word request.addrWord) :
    chunkAddrs word = request.bufDmaAddrs := by
  calc
    chunkAddrs word = chunkAddrs request.addrWord := by
      funext chunk
      have bound := chunk.isLt
      simp only [chunkAddrs]
      rw [agree (2 * chunk.val) (by simp only [addrWordCount]; omega),
        agree (2 * chunk.val + 1) (by simp only [addrWordCount]; omega)]
    _ = request.bufDmaAddrs := copyDmaAddrs_show

end Words

theorem PciebenchTest.ctrl_pos (test : PciebenchTest) : 0 < test.ctrl := by
  cases test <;> decide

theorem switchTest_ctrl (test : PciebenchTest) :
    switchTest test.ctrl = .calling test.function test.ctrl ∨
      switchTest test.ctrl = .passing ∧ test.function = .dmaBw := by
  cases test <;> decide

end Pciebench
