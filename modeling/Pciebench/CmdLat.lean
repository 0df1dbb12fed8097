import Mathlib
import Pciebench.Placement
import Pciebench.WriteRegion

/-!
`cmd_lat` of `pcie_cmd.c`, and the state of the firmware it shares with the regions that are
warmed or thrashed before it.
-/

namespace Pciebench

structure NfpState where
  pcie : PcieState
  addrs : AddrState

def TestParams.addrArgs (params : TestParams) : AddrArgs where
  winSz := params.p2
  transSz := params.p1
  hOff := params.p3
  flags := params.p0

/-- The sanity check of `cmd_lat`, `dma_lat` and `dma_bw`, on 32-bit sums. -/
def AddrArgs.refused (args : AddrArgs) : Bool :=
  args.transSz + args.hOff > 4096 || args.transSz + args.hOff > args.winSz

theorem AddrArgs.Valid.accepted {args : AddrArgs} (valid : args.Valid) : args.refused = false := by
  have sum : (args.transSz + args.hOff).toNat = args.transSz.toNat + args.hOff.toNat :=
    valid.span_eq
  have page : (4096 : UInt32).toNat = 4096 := rfl
  have inPage := valid.inPage
  have inWindow := valid.inWindow
  simp only [refused, Bool.or_eq_false_iff, decide_eq_false_iff_not, gt_iff_lt,
    UInt32.lt_iff_toNat_lt, sum, page]
  omega

inductive Region
  | trash
  | warm (winSz : UInt32)
  deriving DecidableEq, Repr

def Region.write (chip : Chip) (shift : UInt32) (table : ChunkTable) (rng : Nat → UInt32)
    (nfp : NfpState) : Region → Except Stop RegionState
  | .trash => hostTrashCache chip shift table rng nfp.pcie nfp.addrs.reads
  | .warm winSz => hostWarmCache chip shift table rng winSz nfp.pcie nfp.addrs.reads

def runRegion (chip : Chip) (shift : UInt32) (table : ChunkTable) (rng : Nat → UInt32)
    (region : Region) (nfp : NfpState) : Except Stop NfpState := do
  let done ← region.write chip shift table rng nfp
  .ok { pcie := done.pcie, addrs := { nfp.addrs with reads := done.reads } }

def runRegions (chip : Chip) (shift : UInt32) (table : ChunkTable) (rng : Nat → UInt32) :
    List Region → NfpState → Except Stop NfpState
  | [], nfp => .ok nfp
  | region :: rest, nfp => do
      let next ← runRegion chip shift table rng region nfp
      runRegions chip shift table rng rest next

/-- What a test writes before it measures: first it thrashes, then it warms. -/
def flaggedRegions (args : AddrArgs) : List Region :=
  (if flagSet args.flags latFlagsThrash then [.trash] else []) ++
    (if flagSet args.flags latFlagsWarm then [.warm args.winSz] else [])

def latMaxTrans (flags : UInt32) : Nat :=
  if flagSet flags latFlagsLong then pciebenchJournalSz else pciebenchLatTrans

/-- The variables of `cmd_lat` that outlive an iteration. `debugJournal` holds `addr_hi` and
`addr_lo` of each transaction. -/
structure CmdState where
  pcie : PcieState
  addr : DmaAddr
  oldChunkIdx : UInt32
  debugJournal : List (UInt32 × UInt32)

def cmdLatAccess (chip : Chip) (test : PciebenchTest) (transSz : UInt32) (addr : DmaAddr)
    (pcie : PcieState) : Option PcieState :=
  let target := (Words.join addr.addrHi addr.addrLo).toNat
  match test with
  | .latCmdRd => some (pcie.access chip false addr.addrHi addr.addrLo transSz target)
  | .latCmdWrrd =>
      some ((pcie.access chip true addr.addrHi addr.addrLo transSz target).access chip false
        addr.addrHi addr.addrLo transSz target)
  | _ => none

/-- The end of an iteration: journal the address, take the next one, move the BAR with it. -/
def cmdLatAdvance (chip : Chip) (dmaAddrs : Nat → UInt64) (trans : UInt32) (state : CmdState)
    (pcie : PcieState) : CmdState :=
  let addr := dmaAddrFromIdx dmaAddrs trans
  { pcie :=
      if addr.chunkIdx ≠ state.oldChunkIdx then pcie.barcfg chip addr.addrHi addr.addrLo else pcie
    addr
    oldChunkIdx := addr.chunkIdx
    debugJournal := state.debugJournal ++ [(state.addr.addrHi, state.addr.addrLo)] }

def cmdLatStart (chip : Chip) (dmaAddrs : Nat → UInt64) (pcie : PcieState) : CmdState :=
  let addr := dmaAddrFromIdx dmaAddrs 0
  { pcie := pcie.barcfg chip addr.addrHi addr.addrLo
    addr
    oldChunkIdx := addr.chunkIdx
    debugJournal := [] }

/-- The measurement loop, with `left` transactions to go. Its result is the number of
transactions that goes into `r0`, or the error in `ret`. -/
def cmdLatFrom (chip : Chip) (test : PciebenchTest) (transSz : UInt32) (dmaAddrs : Nat → UInt64)
    (left : Nat) (trans : UInt32) (state : CmdState) : CmdState × Except Int UInt32 :=
  match left with
  | 0 => (state, .ok trans)
  | left + 1 =>
      match cmdLatAccess chip test transSz state.addr state.pcie with
      | none => (state, .error (-2))
      | some pcie =>
          cmdLatFrom chip test transSz dmaAddrs left (trans + 1)
            (cmdLatAdvance chip dmaAddrs trans state pcie)

structure LatRun where
  result : Except Int UInt32
  nfp : NfpState
  debugJournal : List (UInt32 × UInt32)

def cmdLat (chip : Chip) (fuel : Nat) (shift : UInt32) (table : ChunkTable) (rng : Nat → UInt32)
    (test : PciebenchTest) (params : TestParams) (nfp : NfpState) : Except Stop LatRun :=
  let args := params.addrArgs
  if args.refused then
    .ok { result := .error (-1), nfp, debugJournal := [] }
  else do
    let addrs ← chip.division.dmaAddrInit fuel shift table rng args nfp.addrs
    let nfp ← runRegions chip shift table rng (flaggedRegions args) { nfp with addrs }
    let (final, result) :=
      cmdLatFrom chip test args.transSz nfp.addrs.dmaAddrs (latMaxTrans args.flags) 0
        (cmdLatStart chip nfp.addrs.dmaAddrs nfp.pcie)
    .ok { result, nfp := { nfp with pcie := final.pcie }, debugJournal := final.debugJournal }

section Regions

variable {chip : Chip} {table : ChunkTable} {rng : Nat → UInt32}

theorem runRegion_addrs {shift : UInt32} {region : Region} {nfp next : NfpState}
    (done : runRegion chip shift table rng region nfp = .ok next) :
    next.addrs.dmaAddrs = nfp.addrs.dmaAddrs ∧ next.addrs.linAddrs = nfp.addrs.linAddrs := by
  simp only [runRegion] at done
  obtain ⟨written, _, rest⟩ := Outcome.bind_eq_ok.mp done
  cases rest
  exact ⟨rfl, rfl⟩

theorem runRegions_addrs {shift : UInt32} {regions : List Region} {nfp next : NfpState}
    (done : runRegions chip shift table rng regions nfp = .ok next) :
    next.addrs.dmaAddrs = nfp.addrs.dmaAddrs ∧ next.addrs.linAddrs = nfp.addrs.linAddrs := by
  induction regions generalizing nfp with
  | nil =>
      simp only [runRegions, Except.ok.injEq] at done
      subst next
      exact ⟨rfl, rfl⟩
  | cons region rest ih =>
      simp only [runRegions] at done
      obtain ⟨between, first, later⟩ := Outcome.bind_eq_ok.mp done
      obtain ⟨dmaAddrs, linAddrs⟩ := runRegion_addrs first
      obtain ⟨finalAddrs, finalLins⟩ := ih later
      exact ⟨finalAddrs.trans dmaAddrs, finalLins.trans linAddrs⟩

def Region.InMem : Region → Prop
  | .trash => True
  | .warm winSz => winSz.toNat ≤ pciebenchMaxMem

/-- Every chunk index made for the region is one of the table. -/
def Region.InTable (shift : UInt32) : Region → Prop
  | .trash => ShiftInTable shift (UInt32.ofNat pciebenchMaxMem)
  | .warm winSz => ShiftInTable shift winSz

theorem Region.InMem.inTable {region : Region} (inMem : region.InMem) : region.InTable 22 := by
  cases region with
  | trash => exact shiftInTable_mem (by decide)
  | warm winSz => exact shiftInTable_mem inMem

variable (chip table rng) in
theorem runRegion_total {shift : UInt32} {region : Region} (inTable : region.InTable shift)
    (nfp : NfpState) : ∃ next, runRegion chip shift table rng region nfp = .ok next := by
  cases region with
  | trash =>
      obtain ⟨final, done⟩ :=
        writeRegion_total chip table rng true inTable nfp.pcie nfp.addrs.reads
      refine ⟨{ pcie := final.pcie, addrs := { nfp.addrs with reads := final.reads } }, ?_⟩
      simp only [runRegion, Region.write, hostTrashCache, done, Outcome.ok_bind]
  | warm winSz =>
      obtain ⟨final, done⟩ :=
        writeRegion_total chip table rng false inTable nfp.pcie nfp.addrs.reads
      refine ⟨{ pcie := final.pcie, addrs := { nfp.addrs with reads := final.reads } }, ?_⟩
      simp only [runRegion, Region.write, hostWarmCache, done, Outcome.ok_bind]

variable (chip table rng) in
theorem runRegions_total {shift : UInt32} {regions : List Region}
    (inTable : ∀ region ∈ regions, region.InTable shift) (nfp : NfpState) :
    ∃ next, runRegions chip shift table rng regions nfp = .ok next := by
  induction regions generalizing nfp with
  | nil => exact ⟨nfp, rfl⟩
  | cons region rest ih =>
      obtain ⟨next, done⟩ :=
        runRegion_total chip table rng (inTable region (List.mem_cons_self ..)) nfp
      obtain ⟨final, later⟩ :=
        ih (fun other member => inTable other (List.mem_cons_of_mem _ member)) next
      refine ⟨final, ?_⟩
      simp only [runRegions, done, Outcome.ok_bind]
      exact later

variable (single : table.SingleBar) (below : table.Below chip.reach)

include single below

theorem runRegion_reached {region : Region} {nfp next : NfpState}
    (done : runRegion chip 22 table rng region nfp = .ok next) (reached : nfp.pcie.Reached) :
    next.pcie.Reached := by
  simp only [runRegion] at done
  obtain ⟨written, wrote, rest⟩ := Outcome.bind_eq_ok.mp done
  cases rest
  cases region with
  | trash => exact writeRegion_reached single below wrote reached
  | warm winSz => exact writeRegion_reached single below wrote reached

theorem runRegions_reached {regions : List Region} {nfp next : NfpState}
    (done : runRegions chip 22 table rng regions nfp = .ok next) (reached : nfp.pcie.Reached) :
    next.pcie.Reached := by
  induction regions generalizing nfp with
  | nil =>
      simp only [runRegions, Except.ok.injEq] at done
      subst next
      exact reached
  | cons region rest ih =>
      simp only [runRegions] at done
      obtain ⟨between, first, later⟩ := Outcome.bind_eq_ok.mp done
      exact ih later (runRegion_reached single below first reached)

end Regions

section Loop

variable {chip : Chip} {table : ChunkTable} {test : PciebenchTest} {transSz : UInt32}
  {dmaAddrs : Nat → UInt64}

def DmaAddr.InTable (table : ChunkTable) (addr : DmaAddr) : Prop :=
  ∃ linAddr, linAddr < pciebenchMaxMem ∧
    (Words.join addr.addrHi addr.addrLo).toNat = hostAddr table linAddr ∧
    addr.chunkIdx.toNat = linAddr / pciebenchChunkSz

theorem DmaAddr.InTable.window {first second : DmaAddr} (single : table.SingleBar)
    (firstIn : first.InTable table) (secondIn : second.InTable table)
    (sameChunk : first.chunkIdx = second.chunkIdx) :
    (Words.join first.addrHi first.addrLo).toNat / 2 ^ windowBits chip =
      (Words.join second.addrHi second.addrLo).toNat / 2 ^ windowBits chip := by
  obtain ⟨firstLin, _, firstAddr, firstChunk⟩ := firstIn
  obtain ⟨secondLin, _, secondAddr, secondChunk⟩ := secondIn
  have chunks : chunkOf firstLin = chunkOf secondLin := by
    rw [sameChunk] at firstChunk
    simp only [chunkOf, ← firstChunk, ← secondChunk]
  rw [firstAddr, secondAddr, hostAddr_window single, hostAddr_window single, chunks]

/-- What holds at the top of the loop: the BAR serves the address of the next transaction. -/
structure CmdState.Settled (chip : Chip) (table : ChunkTable) (state : CmdState) : Prop where
  inTable : state.addr.InTable table
  current : state.oldChunkIdx = state.addr.chunkIdx
  serves : state.pcie.Serves chip (Words.join state.addr.addrHi state.addr.addrLo).toNat
  reached : state.pcie.Reached

variable (single : table.SingleBar) (below : table.Below chip.reach)
  (array : ∀ idx, (dmaAddrFromIdx dmaAddrs idx).InTable table)

theorem cmdLatAccess_reached {state : CmdState} (settled : state.Settled chip table)
    {pcie : PcieState} (issued : cmdLatAccess chip test transSz state.addr state.pcie = some pcie) :
    pcie.Reached ∧ pcie.bars = state.pcie.bars := by
  have first : ∀ write, (state.pcie.access chip write state.addr.addrHi state.addr.addrLo transSz
      (Words.join state.addr.addrHi state.addr.addrLo).toNat).Reached := by
    intro write
    exact PcieState.reached_access settled.reached write transSz rfl settled.serves
  cases test with
  | latCmdRd =>
      simp only [cmdLatAccess, Option.some.injEq] at issued
      subst pcie
      exact ⟨first false, rfl⟩
  | latCmdWrrd =>
      simp only [cmdLatAccess, Option.some.injEq] at issued
      subst pcie
      exact ⟨PcieState.reached_access (first true) false transSz rfl settled.serves, rfl⟩
  | _ => simp [cmdLatAccess] at issued

include single below array

theorem cmdLatAdvance_settled {state : CmdState} (settled : state.Settled chip table)
    (trans : UInt32) {pcie : PcieState} (reached : pcie.Reached)
    (bars : pcie.bars = state.pcie.bars) :
    (cmdLatAdvance chip dmaAddrs trans state pcie).Settled chip table := by
  have inTable := array trans
  have reach : (Words.join (dmaAddrFromIdx dmaAddrs trans).addrHi
      (dmaAddrFromIdx dmaAddrs trans).addrLo).toNat < chip.reach := by
    obtain ⟨linAddr, _, addr, _⟩ := inTable
    rw [addr]
    exact hostAddr_lt below linAddr
  refine ⟨inTable, rfl, ?_, ?_⟩
  · simp only [cmdLatAdvance]
    by_cases moved : (dmaAddrFromIdx dmaAddrs trans).chunkIdx ≠ state.oldChunkIdx
    · simp only [moved, ne_eq, not_false_eq_true, if_true]
      exact PcieState.serves_barcfg reach
    · simp only [moved, if_false]
      have sameChunk := (not_not.mp moved).trans settled.current
      rw [PcieState.Serves, bars, inTable.window single settled.inTable sameChunk]
      exact settled.serves
  · simp only [cmdLatAdvance]
    split
    · exact reached
    · exact reached

theorem cmdLatFrom_reached {left : Nat} (trans : UInt32) {state : CmdState}
    (settled : state.Settled chip table) :
    (cmdLatFrom chip test transSz dmaAddrs left trans state).1.pcie.Reached := by
  induction left generalizing trans state with
  | zero => exact settled.reached
  | succ left ih =>
      simp only [cmdLatFrom]
      split
      · exact settled.reached
      · rename_i pcie issued
        obtain ⟨reached, bars⟩ := cmdLatAccess_reached settled issued
        exact ih (trans + 1)
          (cmdLatAdvance_settled single below array settled trans reached bars)

end Loop

section Run

variable {chip : Chip} {table : ChunkTable}

theorem below_of_single (single : table.SingleBar)
    (starts : ∀ chunk, (table chunk).toNat < chip.reach) : table.Below chip.reach := by
  intro chunk
  have one := single chunk
  have start := starts chunk
  cases chip with
  | nfp3200 =>
      simp only [Chip.reach, windowBits, regionBits, pciebenchChunkSz_eq] at *
      omega
  | nfp6000 =>
      simp only [Chip.reach, windowBits, regionBits, pciebenchChunkSz_eq] at *
      omega

theorem below_chunkIdx (below : table.Below chip.reach) : table.Below (2 ^ 56) := by
  intro chunk
  refine (below chunk).trans ?_
  cases chip with
  | nfp3200 => decide
  | nfp6000 => decide

theorem mem_flaggedRegions {args : AddrArgs} {region : Region}
    (member : region ∈ flaggedRegions args) :
    region = .trash ∨ flagSet args.flags latFlagsWarm = true ∧ region = .warm args.winSz := by
  simp only [flaggedRegions, List.mem_append] at member
  rcases member with trash | warm
  · split at trash
    · exact .inl (List.mem_singleton.mp trash)
    · contradiction
  · split at warm
    · rename_i flagged
      exact .inr ⟨flagged, List.mem_singleton.mp warm⟩
    · contradiction

theorem flaggedRegions_inTable (args : AddrArgs) (window : args.winSz.toNat ≤ pciebenchMaxMem) :
    ∀ region ∈ flaggedRegions args, region.InTable 22 := by
  intro region member
  apply Region.InMem.inTable
  rcases mem_flaggedRegions member with rfl | ⟨_, rfl⟩
  · trivial
  · exact window

theorem cmdLat_ok {fuel : Nat} {shift : UInt32} {rng : Nat → UInt32} {test : PciebenchTest}
    {params : TestParams} {nfp : NfpState} {run : LatRun}
    (accepted : params.addrArgs.refused = false)
    (done : cmdLat chip fuel shift table rng test params nfp = .ok run) :
    ∃ addrs before,
      chip.division.dmaAddrInit fuel shift table rng params.addrArgs nfp.addrs = .ok addrs ∧
      runRegions chip shift table rng (flaggedRegions params.addrArgs) { nfp with addrs } =
        .ok before ∧
      let loop := cmdLatFrom chip test params.p1 addrs.dmaAddrs (latMaxTrans params.p0) 0
        (cmdLatStart chip addrs.dmaAddrs before.pcie)
      run.result = loop.2 ∧ run.nfp.pcie = loop.1.pcie ∧
        run.debugJournal = loop.1.debugJournal := by
  simp only [cmdLat, accepted, Bool.false_eq_true, if_false] at done
  obtain ⟨addrs, filled, done⟩ := Outcome.bind_eq_ok.mp done
  obtain ⟨before, written, done⟩ := Outcome.bind_eq_ok.mp done
  obtain ⟨dmaAddrs, _⟩ := runRegions_addrs written
  rw [dmaAddrs] at done
  cases done
  exact ⟨addrs, before, filled, written, rfl, rfl, rfl⟩

variable (chip) in
theorem cmdLat_total {fuel : Nat} {shift : UInt32} (rng : Nat → UInt32) (test : PciebenchTest)
    {params : TestParams}
    (inTable : ∀ region ∈ flaggedRegions params.addrArgs, region.InTable shift)
    {nfp : NfpState} {addrs : AddrState}
    (filled : chip.division.dmaAddrInit fuel shift table rng params.addrArgs nfp.addrs =
      .ok addrs) :
    ∃ run, cmdLat chip fuel shift table rng test params nfp = .ok run := by
  simp only [cmdLat]
  split
  · exact ⟨_, rfl⟩
  · obtain ⟨before, written⟩ := runRegions_total chip table rng inTable { nfp with addrs }
    simp only [filled, Outcome.ok_bind, written]
    exact ⟨_, rfl⟩

theorem cmdLatStart_settled (below : table.Below chip.reach) {dmaAddrs : Nat → UInt64}
    (array : ∀ idx, (dmaAddrFromIdx dmaAddrs idx).InTable table) {pcie : PcieState}
    (reached : pcie.Reached) : (cmdLatStart chip dmaAddrs pcie).Settled chip table := by
  refine ⟨array 0, rfl, PcieState.serves_barcfg ?_, reached⟩
  obtain ⟨linAddr, _, addrEq, _⟩ := array 0
  rw [addrEq]
  exact hostAddr_lt below linAddr

end Run

/-- Every access of `cmd_lat`, and of whatever was warmed or thrashed before it, goes to the
host address it is meant for. -/
theorem cmdLat_reached (chip : Chip) (fuel : Nat) (table : ChunkTable) (rng : Nat → UInt32)
    (test : PciebenchTest) (params : TestParams) (regions : List Region) (bars : BarFile)
    (addrs : AddrState) (single : table.SingleBar)
    (starts : ∀ chunk, (table chunk).toNat < chip.reach)
    (inMem : ∀ region ∈ regions, region.InMem) (window : params.p2.toNat ≤ pciebenchMaxMem) :
    ∃ before,
      runRegions chip 22 table rng regions { pcie := { bars, accesses := [] }, addrs } =
        .ok before ∧
      before.pcie.Reached ∧
      (∀ run, cmdLat chip fuel 22 table rng test params before = .ok run →
        run.nfp.pcie.Reached) ∧
      ∀ stop, cmdLat chip fuel 22 table rng test params before = .error stop →
        chip.division.dmaAddrInit fuel 22 table rng params.addrArgs before.addrs = .error stop := by
  have below := below_of_single single starts
  obtain ⟨before, prepared⟩ := runRegions_total chip table rng
    (fun region member => (inMem region member).inTable)
    { pcie := { bars, accesses := [] }, addrs }
  have beforeReached : before.pcie.Reached := runRegions_reached single below prepared nofun
  refine ⟨before, prepared, beforeReached, ?_, ?_⟩
  · intro run done
    cases refused : params.addrArgs.refused with
    | true =>
        simp only [cmdLat, refused, if_true, Except.ok.injEq] at done
        subst run
        exact beforeReached
    | false =>
        obtain ⟨filled, ready, init, written, _, pcieEq, _⟩ := cmdLat_ok refused done
        have array : ∀ idx, (dmaAddrFromIdx filled.dmaAddrs idx).InTable table :=
          fun idx => ⟨_, dmaAddrFromIdx_linAddr (below_chunkIdx below) init idx⟩
        have readyReached := runRegions_reached single below written beforeReached
        rw [pcieEq]
        exact cmdLatFrom_reached single below array 0 (cmdLatStart_settled below array readyReached)
  · intro stop failed
    cases init : chip.division.dmaAddrInit fuel 22 table rng params.addrArgs before.addrs with
    | ok filled =>
        obtain ⟨run, done⟩ := cmdLat_total chip rng test
          (flaggedRegions_inTable params.addrArgs window) init
        rw [done] at failed
        contradiction
    | error fault =>
        simp only [cmdLat, init, Outcome.error_bind] at failed
        split at failed
        · contradiction
        · cases failed
          rfl

theorem cmdLat_reached_warmed :
    ∃ before,
      runRegions .nfp6000 22 (backToBack 0x40000000) (fun _ => 5) [.warm 8192, .trash, .warm 64]
          { pcie := { bars := fun _ => 0xffffffff, accesses := [] }
            addrs := { dmaAddrs := fun _ => 0, linAddrs := fun _ => 0, add := 0, reads := 0 } } =
        .ok before ∧
      before.pcie.Reached ∧
      ∀ run, cmdLat .nfp6000 64 22 (backToBack 0x40000000) (fun _ => 5) .latCmdWrrd
        { p0 := 3, p1 := 64, p2 := 0x4000000, p3 := 0, p4 := 0 } before = .ok run →
          run.nfp.pcie.Reached := by
  have room : (0x40000000 : UInt64).toNat + pciebenchMaxMem < 2 ^ 64 := by decide
  have starts : ∀ chunk, (backToBack 0x40000000 chunk).toNat < Chip.nfp6000.reach := by
    intro chunk
    have below := backToBack_below room (show 0x40000000 + pciebenchMaxMem ≤ 2 ^ 56 by decide) chunk
    exact Nat.lt_of_lt_of_le (Nat.lt_add_of_pos_right (by decide)) below
  have inMem : ∀ region ∈ [Region.warm 8192, .trash, .warm 64], region.InMem := by
    simp [Region.InMem]
  obtain ⟨before, prepared, reached, tested, _⟩ := cmdLat_reached .nfp6000 64
    (backToBack 0x40000000) (fun _ => 5) .latCmdWrrd
    { p0 := 3, p1 := 64, p2 := 0x4000000, p3 := 0, p4 := 0 } [.warm 8192, .trash, .warm 64]
    (fun _ => 0xffffffff) { dmaAddrs := fun _ => 0, linAddrs := fun _ => 0, add := 0, reads := 0 }
    (backToBack_singleBar room rfl) starts inMem (by decide)
  exact ⟨before, prepared, reached, tested⟩

end Pciebench
