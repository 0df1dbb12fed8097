import Mathlib
import Pciebench.CppBar
import Pciebench.HostMap

/-!
`write_region` of `utils.c`, by which the device warms a window of host memory or thrashes the
host's cache, and the BAR it shares with the CMD latency tests.
-/

namespace Pciebench

/-- A `__pcie_read` or `__pcie_write`: `host` is the address it reaches through the BAR as it
stands, `target` the host address it is meant for. -/
structure PcieAccess where
  write : Bool
  command : CppCommand
  host : UInt64
  target : Nat
  deriving DecidableEq, Repr

structure PcieState where
  bars : BarFile
  accesses : List PcieAccess

namespace PcieState

def barcfg (chip : Chip) (addrHi addrLo : UInt32) (state : PcieState) : PcieState :=
  { state with
    bars := pcieC2pBarcfg chip pciebenchPcieIsl pciebenchC2pIdx addrHi addrLo 0 state.bars }

def access (chip : Chip) (write : Bool) (addrHi addrLo size : UInt32) (target : Nat)
    (state : PcieState) : PcieState :=
  let command :=
    pcieC2pCmd chip pciebenchPcieIsl pciebenchC2pIdx addrHi addrLo size .sigDone
  let host := hostOf chip state.bars command.addr
  { state with accesses := state.accesses ++ [{ write, command, host, target }] }

def Reached (state : PcieState) : Prop :=
  ∀ access, access ∈ state.accesses → access.host.toNat = access.target

/-- The BAR in use is set for the window of a host address. -/
def Serves (chip : Chip) (state : PcieState) (addr : Nat) : Prop :=
  (state.bars (c2pRegister chip pciebenchPcieIsl pciebenchC2pIdx)).toNat % 2 ^ regionBits chip =
    addr / 2 ^ windowBits chip

end PcieState

/-- The variables of `write_region` that outlive an iteration. `linAddr` records the linear
address behind `addr_hi` and `addr_lo`. -/
structure RegionState where
  pcie : PcieState
  addrHi : UInt32
  addrLo : UInt32
  oldChunkIdx : UInt32
  linAddr : UInt32
  reads : Nat

/-- One iteration of `write_region`: write to the current address, then move to the next. -/
def writeRegionStep (chip : Chip) (shift : UInt32) (table : ChunkTable) (rng : Nat → UInt32)
    (winSz : UInt32) (rand : Bool) (trans : UInt32) (state : RegionState) :
    Except Stop RegionState := do
  let pcie := state.pcie.access chip true state.addrHi state.addrLo 64
    (hostAddr table state.linAddr.toNat)
  let idx := if rand then rng state.reads else trans + 1
  let reads := if rand then state.reads + 1 else state.reads
  let linAddr ← modU32 (idx <<< 6) winSz
  let chunkIdx := linAddr >>> shift
  let chunkOff := linAddr &&& pciebenchChunkSzMask
  let chunkAddr ← chunkDmaAddr table chunkIdx
  let addrHi := (chunkAddr >>> 32).toUInt32
  let addrLo := (chunkAddr &&& 0xffffffff).toUInt32 + chunkOff
  -- reprogram the BAR if necessary
  let pcie := if chunkIdx ≠ state.oldChunkIdx then pcie.barcfg chip addrHi addrLo else pcie
  .ok { pcie, addrHi, addrLo, oldChunkIdx := chunkIdx, linAddr, reads }

def writeRegionFrom (chip : Chip) (shift : UInt32) (table : ChunkTable) (rng : Nat → UInt32)
    (winSz : UInt32) (rand : Bool) (left : Nat) (trans : UInt32) (state : RegionState) :
    Except Stop RegionState :=
  match left with
  | 0 => .ok state
  | left + 1 => do
      let next ← writeRegionStep chip shift table rng winSz rand trans state
      writeRegionFrom chip shift table rng winSz rand left (trans + 1) next

def writeRegion (chip : Chip) (shift : UInt32) (table : ChunkTable) (rng : Nat → UInt32)
    (winSz : UInt32) (rand : Bool) (pcie : PcieState) (reads : Nat) :
    Except Stop RegionState := do
  let chunkAddr ← chunkDmaAddr table 0
  let addrHi := (chunkAddr >>> 32).toUInt32
  let addrLo := (chunkAddr &&& 0xffffffff).toUInt32
  let numTrans := 2 * (winSz / 64)
  writeRegionFrom chip shift table rng winSz rand numTrans.toNat 0
    { pcie := pcie.barcfg chip addrHi addrLo
      addrHi
      addrLo
      oldChunkIdx := 0
      linAddr := 0
      reads }

def hostTrashCache (chip : Chip) (shift : UInt32) (table : ChunkTable) (rng : Nat → UInt32) :
    PcieState → Nat → Except Stop RegionState :=
  writeRegion chip shift table rng (UInt32.ofNat pciebenchMaxMem) true

def hostWarmCache (chip : Chip) (shift : UInt32) (table : ChunkTable) (rng : Nat → UInt32)
    (winSz : UInt32) : PcieState → Nat → Except Stop RegionState :=
  writeRegion chip shift table rng winSz false

/-- Each chunk can be addressed with a single setting of the BAR. -/
def ChunkTable.SingleBar (table : ChunkTable) : Prop :=
  ∀ chunk, (table chunk).toNat / 2 ^ 29 =
    ((table chunk).toNat + (pciebenchChunkSz - 1)) / 2 ^ 29

def Chip.reach (chip : Chip) : Nat :=
  2 ^ (windowBits chip + regionBits chip)

section Windows

variable {chip : Chip} {table : ChunkTable}

theorem hostAddr_window (single : table.SingleBar) (linAddr : Nat) :
    hostAddr table linAddr / 2 ^ windowBits chip =
      (table (chunkOf linAddr)).toNat / 2 ^ windowBits chip := by
  have one := single (chunkOf linAddr)
  simp only [hostAddr, pciebenchChunkSz_eq] at *
  cases chip with
  | nfp3200 =>
      simp only [windowBits]
      omega
  | nfp6000 =>
      simp only [windowBits]
      omega

end Windows

theorem backToBack_singleBar {start : UInt64} (room : start.toNat + pciebenchMaxMem < 2 ^ 64)
    (aligned : start.toNat % pciebenchChunkSz = 0) : (backToBack start).SingleBar := by
  intro chunk
  rw [backToBack_toNat room]
  simp only [pciebenchChunkSz_eq] at *
  omega

section Access

variable {chip : Chip} {state : PcieState} {addrHi addrLo : UInt32}

theorem PcieState.serves_barcfg (reach : (Words.join addrHi addrLo).toNat < chip.reach) :
    (state.barcfg chip addrHi addrLo).Serves chip (Words.join addrHi addrLo).toNat := by
  have region : (Words.join addrHi addrLo).toNat / 2 ^ windowBits chip < 2 ^ regionBits chip := by
    rw [Nat.div_lt_iff_lt_mul (Nat.two_pow_pos _), ← Nat.pow_add, Nat.add_comm]
    exact reach
  simp only [Serves, barcfg, pcieC2pBarcfg, Function.update_self]
  rw [c2pValue_toNat, Nat.mod_mod, Nat.mod_eq_of_lt region]

theorem PcieState.reached_access (reached : state.Reached) (write : Bool) (size : UInt32)
    {target : Nat} (meant : (Words.join addrHi addrLo).toNat = target)
    (serves : state.Serves chip target) :
    (state.access chip write addrHi addrLo size target).Reached := by
  intro access member
  simp only [PcieState.access, List.mem_append, List.mem_singleton] at member
  rcases member with earlier | rfl
  · exact reached access earlier
  · change (hostOf chip state.bars _).toNat = target
    rw [hostOf_toNat (by decide) (by decide), serves, meant]
    exact Nat.div_add_mod' _ _

end Access

section Loop

variable {chip : Chip} {table : ChunkTable} {rng : Nat → UInt32} {winSz : UInt32} {rand : Bool}

/-- What holds at the top of the loop: the address is that of `linAddr` and the BAR serves the
chunk in `old_chunk_idx`. -/
structure RegionState.Settled (chip : Chip) (table : ChunkTable) (state : RegionState) : Prop where
  inMem : state.linAddr.toNat < pciebenchMaxMem
  chunk : state.oldChunkIdx.toNat = state.linAddr.toNat / pciebenchChunkSz
  addr : (Words.join state.addrHi state.addrLo).toNat = hostAddr table state.linAddr.toNat
  serves : state.pcie.Serves chip (hostAddr table state.linAddr.toNat)

theorem join_chunkOff (single : table.SingleBar) (linAddr : UInt32) :
    (Words.join (table (chunkOf linAddr.toNat) >>> 32).toUInt32
      ((table (chunkOf linAddr.toNat) &&& 0xffffffff).toUInt32 +
        (linAddr &&& pciebenchChunkSzMask))).toNat = hostAddr table linAddr.toNat := by
  have one := single (chunkOf linAddr.toNat)
  rw [hostAddr]
  generalize table (chunkOf linAddr.toNat) = chunkAddr at *
  have whole := congrArg UInt64.toNat (Words.join_split chunkAddr)
  have lowBound := (chunkAddr &&& 0xffffffff).toUInt32.toNat_lt
  rw [Words.toNat_join] at whole
  rw [Words.toNat_join, UInt32.toNat_add, chunkOff_toNat]
  simp only [pciebenchChunkSz_eq] at *
  omega

variable (table) in
theorem chunkDmaAddr_chunkOf {linAddr : UInt32} (inMem : linAddr.toNat < pciebenchMaxMem) :
    chunkDmaAddr table (linAddr >>> 22) = .ok (table (chunkOf linAddr.toNat)) := by
  have inTable : (linAddr >>> 22).toNat < pciebenchChunks := by
    rw [chunkIdx_toNat, ← chunkOf_val inMem]
    exact (chunkOf linAddr.toNat).isLt
  have chunkEq : (⟨(linAddr >>> 22).toNat, inTable⟩ : Fin pciebenchChunks) =
      chunkOf linAddr.toNat := by
    apply Fin.ext
    rw [chunkOf_val inMem]
    exact chunkIdx_toNat
  rw [chunkDmaAddr, dif_pos inTable, chunkEq]

def ShiftInTable (shift winSz : UInt32) : Prop :=
  ∀ linAddr : UInt32, linAddr.toNat < winSz.toNat →
    (linAddr >>> shift).toNat < pciebenchChunks

theorem shiftInTable_mem {winSz : UInt32} (window : winSz.toNat ≤ pciebenchMaxMem) :
    ShiftInTable 22 winSz := by
  intro linAddr inWindow
  rw [chunkIdx_toNat]
  simp only [pciebenchChunks_eq, pciebenchChunkSz_eq, pciebenchMaxMem_eq] at *
  omega

def regionLinAddr (rng : Nat → UInt32) (winSz : UInt32) (rand : Bool) (trans : UInt32)
    (reads : Nat) : UInt32 :=
  ((if rand then rng reads else trans + 1) <<< 6) % winSz

variable (rng rand) in
theorem regionLinAddr_lt (nonzero : winSz ≠ 0) (trans : UInt32) (reads : Nat) :
    (regionLinAddr rng winSz rand trans reads).toNat < winSz.toNat := by
  rw [regionLinAddr, UInt32.toNat_mod]
  exact Nat.mod_lt _ (Nat.pos_of_ne_zero fun zero => nonzero (UInt32.toNat_inj.mp zero))

section Step

variable {trans : UInt32} {state next : RegionState}

variable (chip table rng rand trans state) in
theorem writeRegionStep_total {shift : UInt32} (window : ShiftInTable shift winSz)
    (nonzero : winSz ≠ 0) :
    ∃ next, writeRegionStep chip shift table rng winSz rand trans state = .ok next := by
  have inTable := window _ (regionLinAddr_lt rng rand nonzero trans state.reads)
  simp only [regionLinAddr] at inTable
  simp only [writeRegionStep, modU32, nonzero, if_false, Outcome.ok_bind, chunkDmaAddr,
    dif_pos inTable]
  exact ⟨_, rfl⟩

theorem writeRegionStep_ok
    (done : writeRegionStep chip 22 table rng winSz rand trans state = .ok next) :
    next.linAddr = regionLinAddr rng winSz rand trans state.reads ∧
      next.linAddr.toNat < pciebenchMaxMem ∧
      next.oldChunkIdx = next.linAddr >>> 22 ∧
      next.addrHi = (table (chunkOf next.linAddr.toNat) >>> 32).toUInt32 ∧
      next.addrLo = (table (chunkOf next.linAddr.toNat) &&& 0xffffffff).toUInt32 +
        (next.linAddr &&& pciebenchChunkSzMask) ∧
      next.pcie =
        (let pcie := state.pcie.access chip true state.addrHi state.addrLo 64
          (hostAddr table state.linAddr.toNat)
        if next.oldChunkIdx ≠ state.oldChunkIdx then pcie.barcfg chip next.addrHi next.addrLo
        else pcie) := by
  simp only [writeRegionStep] at done
  obtain ⟨linAddr, reduced, done⟩ := Outcome.bind_eq_ok.mp done
  obtain ⟨chunkAddr, looked, done⟩ := Outcome.bind_eq_ok.mp done
  obtain ⟨_, linEq⟩ := modU32_ok reduced
  obtain ⟨inTable, _⟩ := chunkDmaAddr_ok looked
  have inMem : linAddr.toNat < pciebenchMaxMem := by
    rw [chunkIdx_toNat] at inTable
    simp only [pciebenchChunks_eq, pciebenchChunkSz_eq, pciebenchMaxMem_eq] at *
    omega
  rw [chunkDmaAddr_chunkOf table inMem] at looked
  cases looked
  cases done
  exact ⟨linEq.symm, inMem, rfl, rfl, rfl, rfl⟩

theorem writeRegionStep_settled (single : table.SingleBar) (below : table.Below chip.reach)
    (settled : state.Settled chip table)
    (done : writeRegionStep chip 22 table rng winSz rand trans state = .ok next) :
    next.Settled chip table ∧ (state.pcie.Reached → next.pcie.Reached) := by
  obtain ⟨_, inMem, chunkEq, hiEq, loEq, pcieEq⟩ := writeRegionStep_ok done
  have chunk : next.oldChunkIdx.toNat = next.linAddr.toNat / pciebenchChunkSz := by
    rw [chunkEq, chunkIdx_toNat]
  have addr : (Words.join next.addrHi next.addrLo).toNat = hostAddr table next.linAddr.toNat := by
    rw [hiEq, loEq]
    exact join_chunkOff single next.linAddr
  have reach : (Words.join next.addrHi next.addrLo).toNat < chip.reach := by
    rw [addr]
    exact hostAddr_lt below next.linAddr.toNat
  refine ⟨⟨inMem, chunk, addr, ?_⟩, ?_⟩
  · rw [pcieEq]
    by_cases moved : next.oldChunkIdx ≠ state.oldChunkIdx
    · simp only [moved, ne_eq, not_false_eq_true, if_true]
      rw [← addr]
      exact PcieState.serves_barcfg reach
    · simp only [moved, if_false]
      have sameChunk : chunkOf next.linAddr.toNat = chunkOf state.linAddr.toNat := by
        have same := congrArg UInt32.toNat (not_not.mp moved)
        rw [chunk, settled.chunk] at same
        simp only [chunkOf, same]
      have serves := settled.serves
      rw [PcieState.Serves, hostAddr_window single] at serves ⊢
      rw [sameChunk]
      exact serves
  · intro reached
    have after := PcieState.reached_access reached true 64 settled.addr settled.serves
    rw [pcieEq]
    split
    · exact after
    · exact after

end Step

section Run

variable {left : Nat} {trans : UInt32} {state final : RegionState}

variable (chip table rng rand left trans state) in
theorem writeRegionFrom_total {shift : UInt32} (window : ShiftInTable shift winSz)
    (nonzero : left ≠ 0 → winSz ≠ 0) :
    ∃ final, writeRegionFrom chip shift table rng winSz rand left trans state = .ok final := by
  induction left generalizing trans state with
  | zero => exact ⟨state, rfl⟩
  | succ left ih =>
      have positive := nonzero (Nat.succ_ne_zero left)
      obtain ⟨next, done⟩ :=
        writeRegionStep_total chip table rng rand trans state window positive
      obtain ⟨final, rest⟩ := ih (trans + 1) next (fun _ => positive)
      refine ⟨final, ?_⟩
      simp only [writeRegionFrom, done, Outcome.ok_bind]
      exact rest

theorem writeRegionFrom_settled (single : table.SingleBar) (below : table.Below chip.reach)
    (settled : state.Settled chip table)
    (done : writeRegionFrom chip 22 table rng winSz rand left trans state = .ok final) :
    final.Settled chip table ∧ (state.pcie.Reached → final.pcie.Reached) := by
  induction left generalizing trans state with
  | zero =>
      simp only [writeRegionFrom, Except.ok.injEq] at done
      subst final
      exact ⟨settled, id⟩
  | succ left ih =>
      simp only [writeRegionFrom] at done
      obtain ⟨next, first, rest⟩ := Outcome.bind_eq_ok.mp done
      obtain ⟨nextSettled, reached⟩ := writeRegionStep_settled single below settled first
      obtain ⟨finalSettled, finalReached⟩ := ih nextSettled rest
      exact ⟨finalSettled, fun before => finalReached (reached before)⟩

variable (chip table rng rand) in
theorem writeRegion_total {shift : UInt32} (window : ShiftInTable shift winSz) (pcie : PcieState)
    (reads : Nat) :
    ∃ final, writeRegion chip shift table rng winSz rand pcie reads = .ok final := by
  have first : chunkDmaAddr table 0 = .ok (table (chunkOf 0)) := rfl
  have nonzero : (2 * (winSz / 64)).toNat ≠ 0 → winSz ≠ 0 := by
    rintro some rfl
    exact some rfl
  simp only [writeRegion, first, Outcome.ok_bind]
  exact writeRegionFrom_total chip table rng rand _ _ _ window nonzero

theorem writeRegion_reached (single : table.SingleBar) (below : table.Below chip.reach)
    {pcie : PcieState} {reads : Nat}
    (done : writeRegion chip 22 table rng winSz rand pcie reads = .ok final)
    (reached : pcie.Reached) : final.pcie.Reached := by
  have first : chunkDmaAddr table 0 = .ok (table (chunkOf 0)) := rfl
  have whole : (Words.join (table (chunkOf 0) >>> 32).toUInt32
      (table (chunkOf 0) &&& 0xffffffff).toUInt32).toNat = hostAddr table 0 := by
    rw [Words.join_split]
    rfl
  have reach : (Words.join (table (chunkOf 0) >>> 32).toUInt32
      (table (chunkOf 0) &&& 0xffffffff).toUInt32).toNat < chip.reach := by
    rw [whole]
    exact hostAddr_lt below 0
  simp only [writeRegion, first, Outcome.ok_bind] at done
  refine (writeRegionFrom_settled single below ?_ done).2 reached
  refine ⟨Nat.zero_lt_succ _, (Nat.zero_div _).symm, whole, ?_⟩
  change PcieState.Serves _ _ (hostAddr table 0)
  rw [← whole]
  exact PcieState.serves_barcfg reach

end Run

end Loop

end Pciebench
