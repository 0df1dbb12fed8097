import Mathlib
import Pciebench.BwWorkers
import Pciebench.CmdLat
import Pciebench.Lib.BitFields

/-!
The DMA descriptors of `pcie_dma.c`: `pcie_dma_setup`, the addresses that `dma_lat` and
`dma_bw_worker` patch in, and `dma_lat` itself.
-/

namespace Pciebench

/-- `struct nfp_pcie_dma_cmd`. -/
structure DmaCmd where
  raw0 : UInt32
  raw1 : UInt32
  raw2 : UInt32
  raw3 : UInt32
  deriving DecidableEq, Repr

/-! The bit fields of the descriptor, which start at the top of each word. `cpp_addr_lo` and
`pcie_addr_lo` are words 0 and 2. -/

def cppAddrHi : BitField where
  low := 0
  width := 8

def cppToken : BitField where
  low := 12
  width := 2

def dmaLength : BitField where
  low := 20
  width := 12

def pcieAddrHi : BitField where
  low := 0
  width := 8

/-! Fields of words 1 and 3 that `pcie_dma_setup` leaves at zero on the NFP-6000. -/

def modeSelTop : BitField where
  low := 31
  width := 1

def dmaCfgIndex : BitField where
  low := 8
  width := 4

def dmaRid : BitField where
  low := 12
  width := 8

def dmaRidOverride : BitField where
  low := 11
  width := 1

def dmaTransClass : BitField where
  low := 8
  width := 3

/-! Fields of word 1 that only the NFP-3200 has. -/

def cppTarget : BitField where
  low := 8
  width := 4

def cppTarget64 : BitField where
  low := 12
  width := 1

def dmaToken : BitField where
  low := 14
  width := 2

def dmaCompletion : BitField where
  low := 16
  width := 16

/-! `union pcie_dma_completion`, in the low half of a word. -/

def cmplReserved : BitField where
  low := 15
  width := 1

def cmplCl : BitField where
  low := 11
  width := 4

def cmplMe : BitField where
  low := 7
  width := 4

def cmplCtx : BitField where
  low := 4
  width := 3

def cmplSigno : BitField where
  low := 0
  width := 4

/-- What a context brings to its descriptors: its numbers, the signal to complete with and the
address of `nfp_buf`. `reserved` is the bit of the completion that nothing sets. -/
structure DmaContext where
  meid : UInt32
  ctx : UInt32
  signo : UInt32
  nfpBuf : UInt32
  reserved : UInt32
  deriving DecidableEq, Repr

def pcieDmaSetup (chip : Chip) (context : DmaContext) (len dOff : UInt32) : DmaCmd :=
  match chip with
  | .nfp3200 =>
      let meid := context.meid + 0x8
      let cmpl := cmplReserved.store 0 context.reserved
      let cmpl := cmplCl.store cmpl (meid >>> 4)
      let cmpl := cmplMe.store cmpl (meid &&& 0xf)
      let cmpl := cmplCtx.store cmpl context.ctx
      let cmpl := cmplSigno.store cmpl context.signo
      let raw1 := cppTarget.store 0 7
      let raw1 := cppTarget64.store raw1 1
      let raw1 := dmaToken.store raw1 0
      let raw1 := dmaCompletion.store raw1 cmpl
      let raw1 := cppAddrHi.store raw1 0
      { raw0 := context.nfpBuf + dOff
        raw1
        raw2 := 0
        raw3 := dmaLength.store 0 len }
  | .nfp6000 =>
      let modeShf : UInt32 := 14
      let modeMskInv : UInt32 := (1 <<< modeShf) - 1
      let mode :=
        ((context.meid &&& (0xf : UInt32)) <<< 13) |||
          (((context.meid >>> 4) &&& (0x3f : UInt32)) <<< 7) |||
          ((context.ctx &&& (0x7 : UInt32)) <<< 4) ||| context.signo
      let raw1 := (mode <<< modeShf) ||| (0 &&& modeMskInv)
      let raw1 := cppToken.store raw1 0
      let raw1 := cppAddrHi.store raw1 0
      { raw0 := context.nfpBuf + dOff
        raw1
        raw2 := 0
        -- on this chip the field holds the length less one
        raw3 := dmaLength.store 0 (len - 1) }

def DmaCmd.patch (cmd : DmaCmd) (addrHi addrLo : UInt32) : DmaCmd :=
  { cmd with
    raw2 := addrLo
    raw3 := pcieAddrHi.store cmd.raw3 addrHi }

/-- The host address that the DMA engine reads from a descriptor. -/
def DmaCmd.hostAddr (cmd : DmaCmd) : UInt64 :=
  Words.join (pcieAddrHi.load cmd.raw3) cmd.raw2

def nfpPcieDmaToPciHi : Chip → UInt32
  | .nfp3200 => 0x40000
  | .nfp6000 => 0x40000

def nfpPcieDmaToPciLo : Chip → UInt32
  | .nfp3200 => 0x40010
  | .nfp6000 => 0x40040

def nfpPcieDmaFromPciHi : Chip → UInt32
  | .nfp3200 => 0x40020
  | .nfp6000 => 0x40060

def nfpPcieDmaFromPciLo : Chip → UInt32
  | .nfp3200 => 0x40030
  | .nfp6000 => 0x400a0

/-- A descriptor put on a queue. `index` records the index that its address was taken for. -/
structure DmaEnqueue where
  cmd : DmaCmd
  queue : UInt32
  index : UInt32
  deriving DecidableEq, Repr

def dmaBwEnqueue (chip : Chip) (test : PciebenchTest) (setup : DmaCmd) (dmaAddrs : Nat → UInt64)
    (trans : UInt32) : DmaEnqueue :=
  let addr := dmaAddrFromIdx dmaAddrs trans
  { cmd := setup.patch addr.addrHi addr.addrLo
    queue := if bwRead test trans.toNat then nfpPcieDmaFromPciLo chip else nfpPcieDmaToPciLo chip
    index := trans }

/-- The variables of `dma_lat` that outlive an iteration; `index` is the one behind `addr`. -/
structure DmaLatState where
  addr : DmaAddr
  index : UInt32
  enqueued : List DmaEnqueue
  debugJournal : List (UInt32 × UInt32)

def dmaLatQueues (chip : Chip) : PciebenchTest → Option (List UInt32)
  | .latDmaRd => some [nfpPcieDmaFromPciHi chip]
  | .latDmaWrrd => some [nfpPcieDmaToPciHi chip, nfpPcieDmaFromPciHi chip]
  | _ => none

def dmaLatAdvance (setup : DmaCmd) (dmaAddrs : Nat → UInt64) (trans : UInt32)
    (queues : List UInt32) (state : DmaLatState) : DmaLatState :=
  let cmd := setup.patch state.addr.addrHi state.addr.addrLo
  { addr := dmaAddrFromIdx dmaAddrs trans
    index := trans
    enqueued := state.enqueued ++ queues.map fun queue => { cmd, queue, index := state.index }
    debugJournal := state.debugJournal ++ [(state.addr.addrHi, state.addr.addrLo)] }

def dmaLatFrom (chip : Chip) (test : PciebenchTest) (setup : DmaCmd) (dmaAddrs : Nat → UInt64)
    (left : Nat) (trans : UInt32) (state : DmaLatState) : DmaLatState × Except Int UInt32 :=
  match left with
  | 0 => (state, .ok trans)
  | left + 1 =>
      match dmaLatQueues chip test with
      | none => (state, .error (-2))
      | some queues =>
          dmaLatFrom chip test setup dmaAddrs left (trans + 1)
            (dmaLatAdvance setup dmaAddrs trans queues state)

def dmaLatStart (dmaAddrs : Nat → UInt64) : DmaLatState where
  addr := dmaAddrFromIdx dmaAddrs 0
  index := 0
  enqueued := []
  debugJournal := []

structure DmaLatRun extends LatRun where
  enqueued : List DmaEnqueue

def dmaLat (chip : Chip) (fuel : Nat) (shift : UInt32) (table : ChunkTable) (rng : Nat → UInt32)
    (context : DmaContext) (test : PciebenchTest) (params : TestParams) (nfp : NfpState) :
    Except Stop DmaLatRun :=
  let args := params.addrArgs
  if args.refused then
    .ok { result := .error (-1), nfp, debugJournal := [], enqueued := [] }
  else do
    let addrs ← chip.division.dmaAddrInit fuel shift table rng args nfp.addrs
    let nfp ← runRegions chip shift table rng (flaggedRegions args) { nfp with addrs }
    let setup := pcieDmaSetup chip context args.transSz params.p4
    let (final, result) :=
      dmaLatFrom chip test setup nfp.addrs.dmaAddrs (latMaxTrans args.flags) 0
        (dmaLatStart nfp.addrs.dmaAddrs)
    .ok { result, nfp, debugJournal := final.debugJournal, enqueued := final.enqueued }

section Patch

theorem DmaCmd.patch_hostAddr (cmd : DmaCmd) (addrHi addrLo : UInt32) :
    (cmd.patch addrHi addrLo).hostAddr.toNat = (Words.join addrHi addrLo).toNat % 2 ^ 40 := by
  have lowBound := addrLo.toNat_lt
  have high := BitField.load_store pcieAddrHi cmd.raw3 addrHi
  simp only [DmaCmd.hostAddr, DmaCmd.patch, Words.toNat_join, high]
  simp only [pcieAddrHi]
  omega

end Patch

section Enqueued

variable {chip : Chip} {test : PciebenchTest} {setup : DmaCmd} {dmaAddrs : Nat → UInt64}

def DmaEnqueue.FromArray (dmaAddrs : Nat → UInt64) (enqueue : DmaEnqueue) : Prop :=
  ∃ setup : DmaCmd, enqueue.cmd =
    setup.patch (dmaAddrFromIdx dmaAddrs enqueue.index).addrHi
      (dmaAddrFromIdx dmaAddrs enqueue.index).addrLo

variable (chip test setup dmaAddrs) in
theorem dmaBwEnqueue_fromArray (trans : UInt32) :
    (dmaBwEnqueue chip test setup dmaAddrs trans).FromArray dmaAddrs :=
  ⟨setup, rfl⟩

theorem dmaLatFrom_fromArray {left : Nat} (trans : UInt32) {state : DmaLatState}
    (current : state.addr = dmaAddrFromIdx dmaAddrs state.index)
    (before : ∀ enqueue ∈ state.enqueued, enqueue.FromArray dmaAddrs) :
    ∀ enqueue ∈ (dmaLatFrom chip test setup dmaAddrs left trans state).1.enqueued,
      enqueue.FromArray dmaAddrs := by
  induction left generalizing trans state with
  | zero => exact before
  | succ left ih =>
      simp only [dmaLatFrom]
      split
      · exact before
      · rename_i queues accepted
        refine ih (trans + 1) rfl ?_
        intro enqueue member
        simp only [dmaLatAdvance, List.mem_append, List.mem_map] at member
        rcases member with earlier | ⟨queue, _, rfl⟩
        · exact before enqueue earlier
        · refine ⟨setup, ?_⟩
          rw [← current]

end Enqueued

section Run

variable {chip : Chip} {table : ChunkTable} {fuel : Nat} {rng : Nat → UInt32}
  {context : DmaContext} {test : PciebenchTest} {params : TestParams} {nfp : NfpState}
  {run : DmaLatRun}

theorem dmaLat_ok {shift : UInt32} (accepted : params.addrArgs.refused = false)
    (done : dmaLat chip fuel shift table rng context test params nfp = .ok run) :
    ∃ addrs before,
      chip.division.dmaAddrInit fuel shift table rng params.addrArgs nfp.addrs = .ok addrs ∧
      runRegions chip shift table rng (flaggedRegions params.addrArgs) { nfp with addrs } =
        .ok before ∧
      let loop := dmaLatFrom chip test (pcieDmaSetup chip context params.p1 params.p4)
        addrs.dmaAddrs (latMaxTrans params.p0) 0 (dmaLatStart addrs.dmaAddrs)
      run.result = loop.2 ∧ run.nfp = before ∧ run.enqueued = loop.1.enqueued ∧
        run.debugJournal = loop.1.debugJournal := by
  simp only [dmaLat, accepted, Bool.false_eq_true, if_false] at done
  obtain ⟨addrs, filled, done⟩ := Outcome.bind_eq_ok.mp done
  obtain ⟨before, written, done⟩ := Outcome.bind_eq_ok.mp done
  obtain ⟨dmaAddrs, _⟩ := runRegions_addrs written
  rw [dmaAddrs] at done
  cases done
  exact ⟨addrs, before, filled, written, rfl, rfl, rfl, rfl⟩

variable (chip rng context test) in
theorem dmaLat_total {shift : UInt32}
    (inTable : ∀ region ∈ flaggedRegions params.addrArgs, region.InTable shift) {addrs : AddrState}
    (filled : chip.division.dmaAddrInit fuel shift table rng params.addrArgs nfp.addrs =
      .ok addrs) :
    ∃ run, dmaLat chip fuel shift table rng context test params nfp = .ok run := by
  simp only [dmaLat]
  split
  · exact ⟨_, rfl⟩
  · obtain ⟨before, written⟩ := runRegions_total chip table rng inTable { nfp with addrs }
    simp only [filled, Outcome.ok_bind, written]
    exact ⟨_, rfl⟩

theorem dmaLat_fromArray {shift : UInt32}
    (done : dmaLat chip fuel shift table rng context test params nfp = .ok run) :
    run.enqueued = [] ∨ ∃ addrs,
      chip.division.dmaAddrInit fuel shift table rng params.addrArgs nfp.addrs = .ok addrs ∧
      run.nfp.addrs.linAddrs = addrs.linAddrs ∧
      ∀ enqueue ∈ run.enqueued, enqueue.FromArray addrs.dmaAddrs := by
  cases refused : params.addrArgs.refused with
  | true =>
      simp only [dmaLat, refused, if_true, Except.ok.injEq] at done
      subst run
      exact .inl rfl
  | false =>
      obtain ⟨addrs, before, filled, written, _, nfpEq, enqueued, _⟩ := dmaLat_ok refused done
      obtain ⟨_, linAddrs⟩ := runRegions_addrs written
      refine .inr ⟨addrs, filled, ?_, ?_⟩
      · rw [nfpEq]
        exact linAddrs
      · rw [enqueued]
        exact dmaLatFrom_fromArray 0 rfl nofun

end Run

end Pciebench
