import Mathlib
import Pciebench.ChunkReach
import Pciebench.MainPass
import Pciebench.TransferSize

/-!
Which bytes of the host the card touches: those of the driver's chunks, in whatever is warmed or
thrashed and in every transaction, also where the build splits linear addresses at the wrong bit.
-/

namespace Pciebench

/-- The bytes from `addr` on are bytes of one chunk. -/
def ChunkTable.Holds (table : ChunkTable) (addr size : Nat) : Prop :=
  ∃ chunk, (table chunk).toNat ≤ addr ∧
    addr + size ≤ (table chunk).toNat + pciebenchChunkSz

def PcieState.Kept (table : ChunkTable) (state : PcieState) : Prop :=
  ∀ access ∈ state.accesses, table.Holds access.host.toNat access.command.bytes

theorem AtChunk.holds {table : ChunkTable} {size : Nat} {addrHi addrLo chunkIdx : UInt32}
    (here : AtChunk table size addrHi addrLo chunkIdx) :
    table.Holds (Words.join addrHi addrLo).toNat size := by
  obtain ⟨chunk, off, _, addr, _, room⟩ := here
  exact ⟨chunk, by omega, by omega⟩

section Access

variable {chip : Chip} {table : ChunkTable} {addrHi addrLo chunkIdx size : UInt32}
  {pcie : PcieState}

theorem PcieState.kept_access {room : Nat} (kept : pcie.Kept table)
    (here : AtChunk table room addrHi addrLo chunkIdx)
    (serves : pcie.Serves chip (Words.join addrHi addrLo).toNat) (isSize : size.toNat = room)
    (words : room % 4 = 0) (nonempty : 0 < room) (small : room ≤ 64) (write : Bool)
    (target : Nat) :
    (pcie.access chip write addrHi addrLo size target).Kept table := by
  intro access member
  simp only [PcieState.access, List.mem_append, List.mem_singleton] at member
  rcases member with earlier | rfl
  · exact kept access earlier
  · change table.Holds (hostOf chip pcie.bars _).toNat _
    rw [hostOf_toNat (by decide) (by decide), serves, Nat.div_add_mod', pcieC2pCmd_bytes,
      if_neg (by omega)]
    have bytes : 4 * ((size.toNat / 4 - 1) % 32 + 1) = room := by omega
    rw [bytes]
    exact here.holds

theorem kept_moved {nextHi nextLo nextIdx : UInt32} (kept : pcie.Kept table) :
    (if nextIdx ≠ chunkIdx then pcie.barcfg chip nextHi nextLo else pcie).Kept table := by
  split
  · exact kept
  · exact kept

end Access

/-- What holds at the top of the loop of `write_region`. -/
structure RegionState.Safe (chip : Chip) (table : ChunkTable) (state : RegionState) : Prop where
  atChunk : AtChunk table 64 state.addrHi state.addrLo state.oldChunkIdx
  serves : state.pcie.Serves chip (Words.join state.addrHi state.addrLo).toNat
  kept : state.pcie.Kept table

section Regions

variable {chip : Chip} {shift : UInt32} {table : ChunkTable} {rng : Nat → UInt32} {winSz : UInt32}
  {rand : Bool} (single : table.SingleBar) (below : table.Below chip.reach)

theorem line_mod (idx : UInt32) (aligned : winSz.toNat % 64 = 0) :
    ((idx <<< 6) % winSz).toNat % 64 = 0 := by
  have shift6 : (6 : UInt32).toNat = 6 := rfl
  have divides : 64 ∣ winSz.toNat := Nat.dvd_of_mod_eq_zero aligned
  rw [UInt32.toNat_mod, Nat.mod_mod_of_dvd _ divides, Words.toNat_shiftLeft32 _ _ (by decide),
    shift6]
  omega

include single

theorem atChunk_line (chunk : Fin pciebenchChunks) {linAddr chunkIdx : UInt32}
    (chunkEq : chunkIdx.toNat = chunk.val) (line : linAddr.toNat % 64 = 0) :
    AtChunk table 64 (table chunk >>> 32).toUInt32
      ((table chunk &&& 0xffffffff).toUInt32 + (linAddr &&& pciebenchChunkSzMask)) chunkIdx := by
  refine ⟨chunk, linAddr.toNat % pciebenchChunkSz, chunkEq, ?_, Nat.mod_lt _ (by decide), ?_⟩
  · have one := single chunk
    have whole := congrArg UInt64.toNat (Words.join_split (table chunk))
    have lowBound := (table chunk &&& 0xffffffff).toUInt32.toNat_lt
    rw [Words.toNat_join] at whole
    rw [Words.toNat_join, UInt32.toNat_add, chunkOff_toNat]
    simp only [pciebenchChunkSz_eq] at *
    omega
  · simp only [pciebenchChunkSz_eq]
    omega

include below

theorem writeRegionStep_safe {trans : UInt32} {state next : RegionState}
    (aligned : winSz.toNat % 64 = 0) (safe : state.Safe chip table)
    (done : writeRegionStep chip shift table rng winSz rand trans state = .ok next) :
    next.Safe chip table := by
  simp only [writeRegionStep] at done
  obtain ⟨linAddr, reduced, done⟩ := Outcome.bind_eq_ok.mp done
  obtain ⟨chunkAddr, looked, done⟩ := Outcome.bind_eq_ok.mp done
  obtain ⟨_, linEq⟩ := modU32_ok reduced
  obtain ⟨inTable, baseEq⟩ := chunkDmaAddr_ok looked
  have line : linAddr.toNat % 64 = 0 := by
    rw [← linEq]
    exact line_mod _ aligned
  have there := atChunk_line single ⟨_, inTable⟩ rfl line
  have kept : (state.pcie.access chip true state.addrHi state.addrLo 64
      (hostAddr table state.linAddr.toNat)).Kept table :=
    PcieState.kept_access safe.kept safe.atChunk safe.serves rfl rfl (by decide)
      (by decide) _ _
  rw [baseEq] at there
  cases done
  refine ⟨there, ?_, kept_moved kept⟩
  exact serves_moved single below safe.atChunk there safe.serves

theorem writeRegionFrom_safe {left : Nat} {trans : UInt32} {state final : RegionState}
    (aligned : winSz.toNat % 64 = 0) (safe : state.Safe chip table)
    (done : writeRegionFrom chip shift table rng winSz rand left trans state = .ok final) :
    final.Safe chip table := by
  induction left generalizing trans state with
  | zero =>
      simp only [writeRegionFrom, Except.ok.injEq] at done
      subst final
      exact safe
  | succ left ih =>
      simp only [writeRegionFrom] at done
      obtain ⟨next, first, rest⟩ := Outcome.bind_eq_ok.mp done
      exact ih (writeRegionStep_safe single below aligned safe first) rest

theorem writeRegion_kept {pcie : PcieState} {reads : Nat} {final : RegionState}
    (aligned : winSz.toNat % 64 = 0) (kept : pcie.Kept table)
    (done : writeRegion chip shift table rng winSz rand pcie reads = .ok final) :
    final.pcie.Kept table := by
  have first : chunkDmaAddr table 0 = .ok (table (chunkOf 0)) := rfl
  have start : AtChunk table 64 (table (chunkOf 0) >>> 32).toUInt32
      (table (chunkOf 0) &&& 0xffffffff).toUInt32 0 := by
    have line : AtChunk table 64 (table (chunkOf 0) >>> 32).toUInt32
        ((table (chunkOf 0) &&& 0xffffffff).toUInt32 + (0 &&& pciebenchChunkSzMask)) 0 :=
      atChunk_line single (chunkOf 0) rfl rfl
    rwa [UInt32.zero_and, UInt32.add_zero] at line
  simp only [writeRegion, first, Outcome.ok_bind] at done
  refine (writeRegionFrom_safe single below aligned ?_ done).kept
  refine ⟨start, ?_, fun access member => kept access member⟩
  exact PcieState.serves_barcfg (start.reach below)

theorem runRegions_kept {regions : List Region} {nfp next : NfpState}
    (aligned : ∀ region ∈ regions, ∀ winSz, region = .warm winSz → winSz.toNat % 64 = 0)
    (kept : nfp.pcie.Kept table)
    (done : runRegions chip shift table rng regions nfp = .ok next) : next.pcie.Kept table := by
  induction regions generalizing nfp with
  | nil =>
      simp only [runRegions, Except.ok.injEq] at done
      subst next
      exact kept
  | cons region rest ih =>
      simp only [runRegions, runRegion] at done
      obtain ⟨between, first, later⟩ := Outcome.bind_eq_ok.mp done
      obtain ⟨written, wrote, made⟩ := Outcome.bind_eq_ok.mp first
      cases made
      refine ih (fun other member => aligned other (List.mem_cons_of_mem _ member)) ?_ later
      cases region with
      | trash => exact writeRegion_kept single below (by decide) kept wrote
      | warm winSz =>
          exact writeRegion_kept single below (aligned _ List.mem_cons_self winSz rfl) kept wrote

end Regions

/-- What holds at the top of the loop of `cmd_lat`. -/
structure CmdState.Safe (chip : Chip) (table : ChunkTable) (size : Nat) (state : CmdState) :
    Prop where
  atChunk : AtChunk table size state.addr.addrHi state.addr.addrLo state.oldChunkIdx
  serves : state.pcie.Serves chip (Words.join state.addr.addrHi state.addr.addrLo).toNat
  kept : state.pcie.Kept table

section Commands

variable {chip : Chip} {table : ChunkTable} {test : PciebenchTest} {transSz : UInt32}
  {dmaAddrs : Nat → UInt64} (words : transSz.toNat % 4 = 0) (nonempty : 0 < transSz.toNat)
  (small : transSz.toNat ≤ 64)

include words nonempty small

theorem cmdLatAccess_safe {state : CmdState} (safe : state.Safe chip table transSz.toNat)
    {pcie : PcieState} (issued : cmdLatAccess chip test transSz state.addr state.pcie = some pcie) :
    { state with pcie }.Safe chip table transSz.toNat := by
  have first : ∀ write, (state.pcie.access chip write state.addr.addrHi state.addr.addrLo transSz
      (Words.join state.addr.addrHi state.addr.addrLo).toNat).Kept table := by
    intro write
    exact PcieState.kept_access safe.kept safe.atChunk safe.serves rfl words nonempty small write _
  cases test with
  | latCmdRd =>
      cases issued
      exact ⟨safe.atChunk, safe.serves, first false⟩
  | latCmdWrrd =>
      cases issued
      refine ⟨safe.atChunk, safe.serves, ?_⟩
      exact PcieState.kept_access (first true) safe.atChunk safe.serves rfl words nonempty small _ _
  | _ => contradiction

variable (single : table.SingleBar) (below : table.Below chip.reach)
  (array : ∀ idx, let found := dmaAddrFromIdx dmaAddrs idx
    AtChunk table transSz.toNat found.addrHi found.addrLo found.chunkIdx)

include single below array

omit words nonempty small in
theorem cmdLatAdvance_safe {state : CmdState} (trans : UInt32)
    (safe : state.Safe chip table transSz.toNat) :
    (cmdLatAdvance chip dmaAddrs trans state state.pcie).Safe chip table transSz.toNat :=
  ⟨array trans, serves_moved single below safe.atChunk (array trans) safe.serves,
    kept_moved safe.kept⟩

theorem cmdLatFrom_safe {left : Nat} (trans : UInt32) {state : CmdState}
    (safe : state.Safe chip table transSz.toNat) :
    (cmdLatFrom chip test transSz dmaAddrs left trans state).1.pcie.Kept table := by
  induction left generalizing trans state with
  | zero => exact safe.kept
  | succ left ih =>
      simp only [cmdLatFrom]
      split
      · exact safe.kept
      · rename_i pcie issued
        have accessed := cmdLatAccess_safe words nonempty small safe issued
        exact ih (trans + 1)
          (cmdLatAdvance_safe single below array trans accessed)

end Commands

section Descriptors

variable {chip : Chip} {table : ChunkTable} {size : Nat} {addrHi addrLo chunkIdx : UInt32}

theorem patch_holds (below : table.Below (2 ^ 40))
    (here : AtChunk table size addrHi addrLo chunkIdx) (cmd : DmaCmd)
    (bytes : (cmd.patch addrHi addrLo).bytes chip = size) :
    table.Holds (cmd.patch addrHi addrLo).hostAddr.toNat
      ((cmd.patch addrHi addrLo).bytes chip) := by
  obtain ⟨chunk, off, _, addr, _, room⟩ := here
  have limit := below chunk
  refine ⟨chunk, ?_, ?_⟩
  · rw [DmaCmd.patch_hostAddr]
    omega
  · rw [bytes, DmaCmd.patch_hostAddr]
    omega

end Descriptors

section Tests

variable {chip : Chip} {fuel : Nat} {env : PassEnv} {test : PciebenchTest} {params : TestParams}
  (accepted : Accepted chip test params.addrArgs) (nonempty : 0 < params.p1.toNat)
  (single : env.table.SingleBar) (below : env.table.Below (2 ^ 40))
  (kept : env.nfp.pcie.Kept env.table)

include below in
theorem below_reach : env.table.Below chip.reach := by
  intro chunk
  refine (below chunk).trans ?_
  cases chip with
  | nfp3200 => decide
  | nfp6000 => decide

include below in
theorem below_tag : env.table.Below (2 ^ 56) :=
  fun chunk => (below chunk).trans (by decide)

include accepted single below kept

theorem prepare_kept {addrs : AddrState} {before : NfpState}
    (written : runRegions chip (chunkShift chip) env.table env.rng
      (flaggedRegions params.addrArgs) { env.nfp with addrs } = .ok before) :
    before.pcie.Kept env.table := by
  have start : ({ env.nfp with addrs } : NfpState).pcie.Kept env.table := kept
  refine runRegions_kept single (below_reach below) ?_ start written
  intro region member winSz isWarm
  rcases mem_flaggedRegions member with rfl | ⟨_, rfl⟩
  · contradiction
  · cases isWarm
    exact accepted.aligned

include nonempty

theorem cmdLat_kept (cmd : test = .latCmdRd ∨ test = .latCmdWrrd) {run : LatRun}
    (done : cmdLat chip fuel (chunkShift chip) env.table env.rng test params env.nfp = .ok run) :
    run.nfp.pcie.Kept env.table := by
  obtain ⟨words, small⟩ := accepted.cmdSize cmd
  obtain ⟨addrs, before, filled, written, _, pcieEq, _⟩ := cmdLat_ok accepted.2 done
  have array := dmaAddrFromIdx_atChunk (below_tag below) filled
  have prepared := prepare_kept accepted single below kept written
  rw [pcieEq]
  refine cmdLatFrom_safe words nonempty small single (below_reach below) array 0 ?_
  exact ⟨array 0, PcieState.serves_barcfg ((array 0).reach (below_reach below)), prepared⟩

theorem dmaLat_kept (dma : test = .latDmaRd ∨ test = .latDmaWrrd) {run : DmaLatRun}
    (done : dmaLat chip fuel (chunkShift chip) env.table env.rng env.context test params env.nfp =
      .ok run) :
    run.nfp.pcie.Kept env.table ∧ ∀ enqueue ∈ run.enqueued,
      env.table.Holds enqueue.cmd.hostAddr.toNat (enqueue.cmd.bytes chip) := by
  obtain ⟨addrs, before, filled, written, _, nfpEq, _⟩ := dmaLat_ok accepted.2 done
  have array := dmaAddrFromIdx_atChunk (below_tag below) filled
  constructor
  · rw [nfpEq]
    exact prepare_kept accepted single below kept written
  · intro enqueue member
    obtain ⟨addrHi, addrLo, cmdEq⟩ := dmaLat_setup done enqueue member
    have bytes : enqueue.cmd.bytes chip = params.p1.toNat := by
      rw [cmdEq]
      exact (accepted.dma_bytes (by tauto) env.context params.p4 addrHi addrLo).mpr
        (.inr nonempty.ne')
    rcases dmaLat_fromArray done with nothing | ⟨others, refilled, _, fromArray⟩
    · rw [nothing] at member
      contradiction
    · rw [filled] at refilled
      cases refilled
      obtain ⟨setup, patched⟩ := fromArray enqueue member
      rw [patched] at bytes ⊢
      exact patch_holds below (array enqueue.index) setup bytes

theorem dmaBw_kept (bw : test ∈ bwTests) {run : DmaBwRun}
    (done : dmaBw chip fuel (chunkShift chip) env.table env.rng params env.nfp = .ok run) :
    run.nfp.pcie.Kept env.table ∧ ∀ context trans,
      let enqueue := dmaBwEnqueue chip test (pcieDmaSetup chip context params.p1 params.p4)
        run.nfp.addrs.dmaAddrs trans
      env.table.Holds enqueue.cmd.hostAddr.toNat (enqueue.cmd.bytes chip) := by
  have goes : params.addrArgs.refused = false := accepted.2
  simp only [dmaBw, goes, Bool.false_eq_true, if_false] at done
  obtain ⟨addrs, filled, done⟩ := Outcome.bind_eq_ok.mp done
  obtain ⟨before, written, done⟩ := Outcome.bind_eq_ok.mp done
  cases done
  obtain ⟨dmaAddrs, _⟩ := runRegions_addrs written
  have array := dmaAddrFromIdx_atChunk (below_tag below) filled
  refine ⟨prepare_kept accepted single below kept written, ?_⟩
  intro context trans
  simp only [dmaAddrs]
  exact patch_holds below (array trans) _
    ((accepted.dma_bytes (.inr (.inr bw)) context params.p4 _ _).mpr (.inr nonempty.ne'))

end Tests

/-- Whatever an accepted test with something to transfer makes the card access, warming and
thrashing included, it is memory of one of the driver's chunks. -/
theorem tests_hostSafe (chip : Chip) (fuel : Nat) (env : PassEnv) (test : PciebenchTest)
    (params : TestParams) (accepted : Accepted chip test params.addrArgs)
    (nonempty : 0 < params.p1.toNat) (single : env.table.SingleBar)
    (below : env.table.Below (2 ^ 40)) (kept : env.nfp.pcie.Kept env.table) :
    (test = .latCmdRd ∨ test = .latCmdWrrd → ∀ run,
      cmdLat chip fuel (chunkShift chip) env.table env.rng test params env.nfp = .ok run →
      run.nfp.pcie.Kept env.table) ∧
    (test = .latDmaRd ∨ test = .latDmaWrrd → ∀ run,
      dmaLat chip fuel (chunkShift chip) env.table env.rng env.context test params env.nfp =
        .ok run →
      run.nfp.pcie.Kept env.table ∧ ∀ enqueue ∈ run.enqueued,
        env.table.Holds enqueue.cmd.hostAddr.toNat (enqueue.cmd.bytes chip)) ∧
    (test ∈ bwTests → ∀ run,
      dmaBw chip fuel (chunkShift chip) env.table env.rng params env.nfp = .ok run →
      run.nfp.pcie.Kept env.table ∧ ∀ context trans,
        let enqueue := dmaBwEnqueue chip test (pcieDmaSetup chip context params.p1 params.p4)
          run.nfp.addrs.dmaAddrs trans
        env.table.Holds enqueue.cmd.hostAddr.toNat (enqueue.cmd.bytes chip)) :=
  ⟨fun cmd _ done => cmdLat_kept accepted nonempty single below kept cmd done,
    fun dma _ done => dmaLat_kept accepted nonempty single below kept dma done,
    fun bw _ done => dmaBw_kept accepted nonempty single below kept bw done⟩

theorem tests_hostSafe_half :
    ∃ fuel run, dmaLat .nfp6000 fuel 22 (backToBack 0x40000000) UInt32.ofNat ⟨0, 0, 5, 0, 0⟩
        .latDmaRd { p0 := 5, p1 := 256, p2 := 0x2000000, p3 := 64, p4 := 0 } idleNfp = .ok run ∧
      ∀ enqueue ∈ run.enqueued, (backToBack 0x40000000).Holds enqueue.cmd.hostAddr.toNat
        (enqueue.cmd.bytes .nfp6000) := by
  have room : (0x40000000 : UInt64).toNat + pciebenchMaxMem < 2 ^ 64 := by decide
  have checked : AddrArgs.Checked
      { winSz := 0x2000000, transSz := 256, hOff := 64, flags := 5 } := by
    constructor <;> decide
  have inMem := (inMem_iff checked (by decide)).mpr fun atEnd => absurd atEnd.1 (by decide)
  have runnable : AddrArgs.Runnable .nfp6000 .latDmaRd
      { winSz := 0x2000000, transSz := 256, hOff := 64, flags := 5 } :=
    ⟨fun _ => by decide, fun _ => by decide, rfl, fun _ => .inr inMem, fun _ _ => by decide⟩
  have accepted : Accepted .nfp6000 .latDmaRd
      { winSz := 0x2000000, transSz := 256, hOff := 64, flags := 5 } := ⟨.inl rfl, rfl⟩
  have prepares : ∃ fuel, Prepared .nfp6000 fuel (countingEnv (backToBack 0x40000000))
      { p0 := 5, p1 := 256, p2 := 0x2000000, p3 := 64, p4 := 0 } :=
    prepared_of_runnable ⟨by decide, by decide⟩ runnable productive_counting
  obtain ⟨fuel, prepared⟩ := prepares
  obtain ⟨run, done⟩ := (dmaLat_prepared rfl).mpr prepared
  exact ⟨fuel, run, done, ((tests_hostSafe .nfp6000 fuel (countingEnv (backToBack 0x40000000))
    .latDmaRd { p0 := 5, p1 := 256, p2 := 0x2000000, p3 := 64, p4 := 0 } accepted (by decide)
    (backToBack_singleBar room (by decide)) (backToBack_below room (by decide))
    (fun _ member => absurd member List.not_mem_nil)).2.1 (.inl rfl) run done).2⟩

end Pciebench
