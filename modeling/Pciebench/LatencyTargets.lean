import Mathlib
import Pciebench.ChunkReach
import Pciebench.Lib.LaggedLoop

/-!
The transactions of the latency tests: what is journaled of each, and the host address that its
commands or descriptors go to. Both loops use the address for index 0 twice, so they end one
index short of `PCIEBENCH_LAT_TRANS`.
-/

namespace Pciebench

def journalWords (dmaAddrs : Nat → UInt64) (idx : Nat) : UInt32 × UInt32 :=
  let addr := dmaAddrFromIdx dmaAddrs (UInt32.ofNat idx)
  (addr.addrHi, addr.addrLo)

/-- The transactions of a test, by the address each one is sent to. -/
def latTransactions (dmaAddrs : Nat → UInt64) (count : Nat) : List (UInt32 × UInt32) :=
  LaggedLoop.shown (journalWords dmaAddrs) count 0 (journalWords dmaAddrs 0)

section Journals

variable {dmaAddrs : Nat → UInt64} {chip : Chip} {test : PciebenchTest}

theorem cmdLatFrom_journal {transSz : UInt32} (supported : test = .latCmdRd ∨ test = .latCmdWrrd)
    (left position : Nat) (state : CmdState) :
    let done := cmdLatFrom chip test transSz dmaAddrs left (UInt32.ofNat position) state
    done.1.debugJournal = state.debugJournal ++
        LaggedLoop.shown (journalWords dmaAddrs) left position
          (state.addr.addrHi, state.addr.addrLo) ∧
      done.2 = .ok (UInt32.ofNat (position + left)) := by
  induction left generalizing position state with
  | zero => exact ⟨(List.append_nil _).symm, rfl⟩
  | succ left ih =>
      have issued : ∃ pcie, cmdLatAccess chip test transSz state.addr state.pcie = some pcie := by
        rcases supported with rfl | rfl
        · exact ⟨_, rfl⟩
        · exact ⟨_, rfl⟩
      obtain ⟨pcie, issued⟩ := issued
      have later := ih (position + 1)
        (cmdLatAdvance chip dmaAddrs (UInt32.ofNat position) state pcie)
      rw [UInt32.ofNat_add] at later
      simp only [cmdLatFrom, issued]
      obtain ⟨journal, result⟩ := later
      refine ⟨journal.trans ?_, result.trans ?_⟩
      · rw [LaggedLoop.shown, cmdLatAdvance, List.append_assoc]
        rfl
      · rw [Nat.add_right_comm]
        rfl

theorem dmaLatFrom_journal {setup : DmaCmd} (supported : test = .latDmaRd ∨ test = .latDmaWrrd)
    (left position : Nat) (state : DmaLatState) :
    let done := dmaLatFrom chip test setup dmaAddrs left (UInt32.ofNat position) state
    done.1.debugJournal = state.debugJournal ++
        LaggedLoop.shown (journalWords dmaAddrs) left position
          (state.addr.addrHi, state.addr.addrLo) ∧
      done.2 = .ok (UInt32.ofNat (position + left)) := by
  induction left generalizing position state with
  | zero => exact ⟨(List.append_nil _).symm, rfl⟩
  | succ left ih =>
      have accepted : ∃ queues, dmaLatQueues chip test = some queues := by
        rcases supported with rfl | rfl
        · exact ⟨_, rfl⟩
        · exact ⟨_, rfl⟩
      obtain ⟨queues, accepted⟩ := accepted
      have later := ih (position + 1)
        (dmaLatAdvance setup dmaAddrs (UInt32.ofNat position) queues state)
      rw [UInt32.ofNat_add] at later
      simp only [dmaLatFrom, accepted]
      obtain ⟨journal, result⟩ := later
      refine ⟨journal.trans ?_, result.trans ?_⟩
      · rw [LaggedLoop.shown, dmaLatAdvance, List.append_assoc]
        rfl
      · rw [Nat.add_right_comm]
        rfl

end Journals

def PcieAccess.sent (access : PcieAccess) : Bool × Nat :=
  (access.write, access.host.toNat)

def DmaEnqueue.sent (enqueue : DmaEnqueue) : UInt32 × Nat :=
  (enqueue.queue, enqueue.cmd.hostAddr.toNat)

/-- One transaction after the other, each with all its commands at its own target. -/
def eachTarget {Command : Type} (commands : List Command) (targets : List Nat) :
    List (Command × Nat) :=
  targets.flatMap fun target => commands.map fun command => (command, target)

/-- The commands of a transaction of `cmd_lat`; true stands for a write. -/
def cmdLatWrites : PciebenchTest → List Bool
  | .latCmdRd => [false]
  | .latCmdWrrd => [true, false]
  | _ => []

/-- Where transactions go, with addresses cut off at what the hardware takes of them. -/
def latTargets (reach : Nat) (transactions : List (UInt32 × UInt32)) : List Nat :=
  transactions.map fun words => (Words.join words.1 words.2).toNat % reach

/-- A run of `cmd_lat` whose transactions go to `targets`, after whatever it warms or thrashes. -/
def LatRun.Reaches (chip : Chip) (fuel : Nat) (shift : UInt32) (table : ChunkTable)
    (rng : Nat → UInt32) (test : PciebenchTest) (params : TestParams) (nfp : NfpState)
    (targets : List Nat) (run : LatRun) : Prop :=
  ∃ addrs before made,
    chip.division.dmaAddrInit fuel shift table rng params.addrArgs nfp.addrs = .ok addrs ∧
    runRegions chip shift table rng (flaggedRegions params.addrArgs) { nfp with addrs } =
      .ok before ∧
    run.nfp.pcie.accesses = before.pcie.accesses ++ made ∧
    made.map PcieAccess.sent = eachTarget (cmdLatWrites test) targets

/-- The same of `dma_lat`, whose transactions go by descriptors. -/
def DmaLatRun.Reaches (chip : Chip) (test : PciebenchTest) (targets : List Nat)
    (run : DmaLatRun) : Prop :=
  ∃ queues, dmaLatQueues chip test = some queues ∧
    run.enqueued.map DmaEnqueue.sent = eachTarget queues targets

section Accesses

variable {chip : Chip} {table : ChunkTable} {test : PciebenchTest} {size : Nat} {transSz : UInt32}
  {dmaAddrs : Nat → UInt64} (supported : test = .latCmdRd ∨ test = .latCmdWrrd)

include supported

variable (transSz) in
theorem cmdLatAccess_sent {state : CmdState}
    (setFor : state.pcie.SetFor chip (Words.join state.addr.addrHi state.addr.addrLo).toNat) :
    ∃ pcie made, cmdLatAccess chip test transSz state.addr state.pcie = some pcie ∧
      pcie.bars = state.pcie.bars ∧ pcie.accesses = state.pcie.accesses ++ made ∧
      made.map PcieAccess.sent = (cmdLatWrites test).map fun write =>
        (write, (Words.join state.addr.addrHi state.addr.addrLo).toNat % chip.reach) := by
  have host := hostOf_setFor setFor transSz
  rcases supported with rfl | rfl
  · refine ⟨_, _, rfl, rfl, rfl, ?_⟩
    simp only [List.map_cons, List.map_nil, PcieAccess.sent, cmdLatWrites, host]
  · refine ⟨_, _, rfl, rfl, List.append_assoc _ _ _, ?_⟩
    simp only [List.singleton_append, List.map_cons, List.map_nil, PcieAccess.sent, cmdLatWrites,
      PcieState.access, host]

theorem cmdLatFrom_sent (single : table.SingleBar)
    (array : ∀ idx, let found := dmaAddrFromIdx dmaAddrs idx
      AtChunk table size found.addrHi found.addrLo found.chunkIdx)
    (left position : Nat) (state : CmdState)
    (here : AtChunk table size state.addr.addrHi state.addr.addrLo state.oldChunkIdx)
    (setFor : state.pcie.SetFor chip (Words.join state.addr.addrHi state.addr.addrLo).toNat) :
    let done := cmdLatFrom chip test transSz dmaAddrs left (UInt32.ofNat position) state
    ∃ made, done.1.pcie.accesses = state.pcie.accesses ++ made ∧
      made.map PcieAccess.sent = eachTarget (cmdLatWrites test) (latTargets chip.reach
        (LaggedLoop.shown (journalWords dmaAddrs) left position
          (state.addr.addrHi, state.addr.addrLo))) := by
  induction left generalizing position state with
  | zero => exact ⟨[], (List.append_nil _).symm, rfl⟩
  | succ left ih =>
      obtain ⟨pcie, first, issued, bars, accesses, sent⟩ :=
        cmdLatAccess_sent transSz supported setFor
      have stays : pcie.SetFor chip (Words.join state.addr.addrHi state.addr.addrLo).toNat := by
        rw [PcieState.SetFor, bars]
        exact setFor
      have there := array (UInt32.ofNat position)
      obtain ⟨later, appended, laterSent⟩ := ih (position + 1)
        (cmdLatAdvance chip dmaAddrs (UInt32.ofNat position) state pcie) there
        (setFor_moved single here there stays)
      rw [UInt32.ofNat_add] at appended
      have kept : (cmdLatAdvance chip dmaAddrs (UInt32.ofNat position) state pcie).pcie.accesses =
          pcie.accesses := by
        simp only [cmdLatAdvance]
        split
        · rfl
        · rfl
      rw [kept, accesses, List.append_assoc] at appended
      simp only [cmdLatFrom, issued]
      refine ⟨first ++ later, appended, ?_⟩
      rw [List.map_append, sent, laterSent]
      rfl

end Accesses

theorem dmaLatFrom_sent {chip : Chip} {test : PciebenchTest} {setup : DmaCmd}
    {dmaAddrs : Nat → UInt64} {queues : List UInt32}
    (accepted : dmaLatQueues chip test = some queues) (left position : Nat) (state : DmaLatState) :
    let done := dmaLatFrom chip test setup dmaAddrs left (UInt32.ofNat position) state
    done.1.enqueued.map DmaEnqueue.sent = state.enqueued.map DmaEnqueue.sent ++
      eachTarget queues (latTargets (2 ^ 40) (LaggedLoop.shown (journalWords dmaAddrs) left position
        (state.addr.addrHi, state.addr.addrLo))) := by
  induction left generalizing position state with
  | zero => exact (List.append_nil _).symm
  | succ left ih =>
      have later := ih (position + 1)
        (dmaLatAdvance setup dmaAddrs (UInt32.ofNat position) queues state)
      rw [UInt32.ofNat_add] at later
      simp only [dmaLatFrom, accepted]
      have first : (queues.map fun queue =>
          ({ cmd := setup.patch state.addr.addrHi state.addr.addrLo, queue, index := state.index } :
            DmaEnqueue)).map DmaEnqueue.sent =
          queues.map fun queue =>
            (queue, (Words.join state.addr.addrHi state.addr.addrLo).toNat % 2 ^ 40) := by
        rw [List.map_map]
        refine List.map_congr_left fun queue _ => ?_
        rw [Function.comp_apply, DmaEnqueue.sent, DmaCmd.patch_hostAddr]
      refine later.trans ?_
      rw [dmaLatAdvance, List.map_append, first, List.append_assoc]
      rfl

section Runs

variable {chip : Chip} {fuel : Nat} {shift : UInt32} {table : ChunkTable} {rng : Nat → UInt32}
  {test : PciebenchTest} {params : TestParams} {nfp : NfpState} {addrs : AddrState}
  (accepted : params.addrArgs.refused = false)
  (filled : chip.division.dmaAddrInit fuel shift table rng params.addrArgs nfp.addrs = .ok addrs)

include accepted filled

theorem cmdLat_reaches (single : table.SingleBar) (below : table.Below (2 ^ 56))
    (supported : test = .latCmdRd ∨ test = .latCmdWrrd) {run : LatRun}
    (done : cmdLat chip fuel shift table rng test params nfp = .ok run) :
    run.Reaches chip fuel shift table rng test params nfp
      (latTargets chip.reach (latTransactions addrs.dmaAddrs (latMaxTrans params.p0))) := by
  obtain ⟨again, before, refilled, written, _, pcieEq, _⟩ := cmdLat_ok accepted done
  rw [filled] at refilled
  cases refilled
  have array := dmaAddrFromIdx_atChunk below filled
  obtain ⟨made, appended, sent⟩ := cmdLatFrom_sent supported single array
    (latMaxTrans params.p0) 0 (cmdLatStart chip addrs.dmaAddrs before.pcie) (array 0)
    PcieState.setFor_barcfg
  refine ⟨addrs, before, made, filled, written, ?_, sent⟩
  rw [pcieEq]
  exact appended

theorem dmaLat_reaches {context : DmaContext}
    (supported : test = .latDmaRd ∨ test = .latDmaWrrd) {run : DmaLatRun}
    (done : dmaLat chip fuel shift table rng context test params nfp = .ok run) :
    run.Reaches chip test
      (latTargets (2 ^ 40) (latTransactions addrs.dmaAddrs (latMaxTrans params.p0))) := by
  obtain ⟨again, before, refilled, written, _, _, enqueued, _⟩ := dmaLat_ok accepted done
  rw [filled] at refilled
  cases refilled
  have queued : ∃ queues, dmaLatQueues chip test = some queues := by
    rcases supported with rfl | rfl
    · exact ⟨_, rfl⟩
    · exact ⟨_, rfl⟩
  obtain ⟨queues, queued⟩ := queued
  refine ⟨queues, queued, ?_⟩
  rw [enqueued]
  exact dmaLatFrom_sent queued (latMaxTrans params.p0) 0 (dmaLatStart addrs.dmaAddrs)

end Runs

end Pciebench
