import Mathlib
import Pciebench.Placement
import Pciebench.WriteRegion

/-!
The macro `__log2` with which the NFP-3200 build splits a linear address into a chunk and an
offset. The build for the NFP-6000 takes the macro from its standard library.
-/

namespace Pciebench

/-- The comparisons of `__log2` with `1 << bits` and all smaller powers, as `int`. -/
def log2From (val : Int32) : Nat → Int32
  | 0 => if val ≥ (1 : Int32) <<< (0 : Int32) then 0 else -1
  | bits + 1 =>
      if val ≥ (1 : Int32) <<< Int32.ofNat (bits + 1) then Int32.ofNat (bits + 1)
      else log2From val bits

-- The first comparison is with `SZ_2G`.
def log2 (val : Int32) : Int32 :=
  log2From val 31

def log2ChunkSz : UInt32 :=
  (log2 (Int32.ofNat pciebenchChunkSz)).toUInt32

/-- `__log2(PCIEBENCH_CHUNK_SZ)`, from `compat.h` on the one chip and from the standard library
on the other. -/
def chunkShift : Chip → UInt32
  | .nfp3200 => log2ChunkSz
  | .nfp6000 => 22

/-- The chunk index and the offset made from a linear address lead back to it. -/
def SplitsBack (shift linAddr : UInt32) : Prop :=
  (linAddr >>> shift).toNat * pciebenchChunkSz + (linAddr &&& pciebenchChunkSzMask).toNat =
      linAddr.toNat ∧
    (linAddr &&& pciebenchChunkSzMask).toNat < pciebenchChunkSz

/-- `SZ_2G` is the smallest `int`, so nothing is below it. -/
theorem log2_eq (val : Int32) : log2 val = 31 := by
  have smallest : (1 : Int32) <<< Int32.ofNat (30 + 1) = Int32.minValue := by decide
  have above : val ≥ Int32.minValue := Int32.minValue_le val
  rw [log2, log2From, smallest, if_pos above]
  rfl

theorem log2ChunkSz_eq : log2ChunkSz = 31 := by
  rw [log2ChunkSz, log2_eq]
  rfl

theorem log2ChunkSz_chunkIdx {linAddr : UInt32} (inMem : linAddr.toNat < pciebenchMaxMem) :
    linAddr >>> log2ChunkSz = 0 := by
  apply UInt32.toNat_inj.mp
  have shift : (31 : UInt32).toNat = 31 := rfl
  rw [log2ChunkSz_eq, Words.toNat_shiftRight32 _ _ (by decide), shift]
  rw [pciebenchMaxMem_eq] at inMem
  exact Nat.div_eq_of_lt (by omega)

theorem splitsBack_iff {linAddr : UInt32} (inMem : linAddr.toNat < pciebenchMaxMem) :
    SplitsBack log2ChunkSz linAddr ↔ linAddr.toNat < pciebenchChunkSz := by
  rw [SplitsBack, log2ChunkSz_chunkIdx inMem, chunkOff_toNat]
  have zero : (0 : UInt32).toNat = 0 := rfl
  rw [zero, Nat.zero_mul, Nat.zero_add, pciebenchChunkSz_eq]
  omega

theorem splitsBack_window {winSz : Nat} (inMem : winSz ≤ pciebenchMaxMem) :
    (∀ linAddr : UInt32, linAddr.toNat < winSz → SplitsBack log2ChunkSz linAddr) ↔
      winSz ≤ pciebenchChunkSz := by
  constructor
  · intro faithful
    by_contra larger
    have next : (UInt32.ofNat pciebenchChunkSz).toNat = pciebenchChunkSz := rfl
    have split := faithful (UInt32.ofNat pciebenchChunkSz) (by omega)
    rw [splitsBack_iff (by decide), next] at split
    omega
  · intro one linAddr bound
    exact (splitsBack_iff (by omega)).mpr (by omega)

section Folded

variable {table : ChunkTable} {linAddr : UInt32}

variable (table) in
theorem chunkDmaAddr_folded (inMem : linAddr.toNat < pciebenchMaxMem) :
    chunkDmaAddr table (linAddr >>> log2ChunkSz) = .ok (table (chunkOf 0)) := by
  rw [log2ChunkSz_chunkIdx inMem]
  rfl

variable (table) in
theorem spliceChunk_folded (inMem : linAddr.toNat < pciebenchMaxMem) :
    spliceChunk log2ChunkSz table linAddr =
      .ok (table (chunkOf 0) + (linAddr &&& pciebenchChunkSzMask).toUInt64) := by
  have first : chunkDmaAddr table 0 = .ok (table (chunkOf 0)) := rfl
  simp only [spliceChunk, log2ChunkSz_chunkIdx inMem, first, Outcome.ok_bind]
  congr 1
  exact UInt64.or_zero

theorem spliceChunk_folded_iff {first second : UInt32}
    (firstIn : first.toNat < pciebenchMaxMem) (secondIn : second.toNat < pciebenchMaxMem) :
    spliceChunk log2ChunkSz table first = spliceChunk log2ChunkSz table second ↔
      first.toNat % pciebenchChunkSz = second.toNat % pciebenchChunkSz := by
  rw [spliceChunk_folded table firstIn, spliceChunk_folded table secondIn, Except.ok.injEq,
    UInt64.add_right_inj, ← UInt64.toNat_inj, UInt32.toNat_toUInt64, UInt32.toNat_toUInt64,
    chunkOff_toNat, chunkOff_toNat]

theorem writeRegionStep_folded {chip : Chip} {rng : Nat → UInt32} {winSz trans : UInt32}
    {rand : Bool} {state next : RegionState} (window : winSz.toNat ≤ pciebenchMaxMem)
    (done : writeRegionStep chip log2ChunkSz table rng winSz rand trans state = .ok next) :
    next.oldChunkIdx = 0 ∧ next.addrHi = (table (chunkOf 0) >>> 32).toUInt32 ∧
      next.addrLo = (table (chunkOf 0) &&& 0xffffffff).toUInt32 +
        (next.linAddr &&& pciebenchChunkSzMask) := by
  simp only [writeRegionStep] at done
  obtain ⟨linAddr, reduced, done⟩ := Outcome.bind_eq_ok.mp done
  obtain ⟨nonzero, linEq⟩ := modU32_ok reduced
  have inMem : linAddr.toNat < pciebenchMaxMem := by
    rw [← linEq, UInt32.toNat_mod]
    have positive : 0 < winSz.toNat :=
      Nat.pos_of_ne_zero fun zero => nonzero (UInt32.toNat_inj.mp zero)
    exact (Nat.mod_lt _ positive).trans_le window
  rw [chunkDmaAddr_folded table inMem, Outcome.ok_bind] at done
  cases done
  exact ⟨log2ChunkSz_chunkIdx inMem, rfl, rfl⟩

theorem dmaAddrInit_folded {fuel : Nat} {rng : Nat → UInt32} {args : AddrArgs}
    {state final : AddrState} (valid : args.Valid)
    (done : dmaAddrInit fuel log2ChunkSz table rng args state = .ok final) {index : Nat}
    (bound : index < pciebenchAddrArraySz) :
    final.dmaAddrs index =
      table (chunkOf 0) + (final.linAddrs index &&& pciebenchChunkSzMask).toUInt64 := by
  obtain ⟨⟨unit, inWin, fitting, linEq⟩, spliced⟩ := dmaAddrInit_ok done bound
  have inWindow := valid.checked.fits_in_window inWin fitting
  have inMem := valid.inMem
  have transPos := valid.transPos
  rw [linEq] at inWindow
  rw [spliceChunk_folded table (by omega), Except.ok.injEq] at spliced
  exact spliced.symm

end Folded

/-- The linear address that the array entry made from one leads to. -/
def Chip.folded (chip : Chip) (linAddr : Nat) : Nat :=
  match chip with
  | .nfp3200 => linAddr % pciebenchChunkSz
  | .nfp6000 => linAddr

section Shift

variable {chip : Chip} {table : ChunkTable}

variable (chip) in
theorem shiftInTable_chunkShift {winSz : UInt32} (window : winSz.toNat ≤ pciebenchMaxMem) :
    ShiftInTable (chunkShift chip) winSz := by
  cases chip with
  | nfp3200 =>
      intro linAddr inWindow
      rw [chunkShift, log2ChunkSz_chunkIdx (by omega)]
      decide
  | nfp6000 => exact shiftInTable_mem window

variable (chip table) in
theorem spliceChunk_chunkShift {linAddr : UInt32} (inMem : linAddr.toNat < pciebenchMaxMem) :
    ∃ entry, spliceChunk (chunkShift chip) table linAddr = .ok entry := by
  cases chip with
  | nfp3200 => exact ⟨_, spliceChunk_folded table inMem⟩
  | nfp6000 => exact spliceChunk_eq_ok inMem

/-- What comes back for an index, by the `__log2` of the build. -/
theorem dmaAddrFromIdx_folded {division : Division} {fuel : Nat} {rng : Nat → UInt32}
    {args : AddrArgs} {state final : AddrState} (below : table.Below (2 ^ 56))
    (done : division.dmaAddrInit fuel (chunkShift chip) table rng args state = .ok final)
    (idx : UInt32)
    (inMem : (final.linAddrs (idx.toNat % pciebenchAddrArraySz)).toNat < pciebenchMaxMem) :
    let found := dmaAddrFromIdx final.dmaAddrs idx
    (Words.join found.addrHi found.addrLo).toNat =
      hostAddr table
        (chip.folded (final.linAddrs (idx.toNat % pciebenchAddrArraySz)).toNat) := by
  cases chip with
  | nfp3200 =>
      have inArray : idx.toNat % pciebenchAddrArraySz < pciebenchAddrArraySz :=
        Nat.mod_lt _ (by decide)
      obtain ⟨_, spliced⟩ := Division.dmaAddrInit_entry done inArray
      rw [chunkShift, spliceChunk_folded table inMem, Except.ok.injEq] at spliced
      generalize final.linAddrs (idx.toNat % pciebenchAddrArraySz) = linAddr at *
      have first : chunkOf (linAddr.toNat % pciebenchChunkSz) = chunkOf 0 := by
        refine Fin.ext ?_
        simp only [chunkOf, pciebenchChunkSz_eq, pciebenchChunks_eq]
        omega
      have limit := below (chunkOf 0)
      have inChunk : linAddr.toNat % pciebenchChunkSz < pciebenchChunkSz :=
        Nat.mod_lt _ (by decide)
      dsimp only
      rw [dmaAddrFromIdx_addr, ← spliced, UInt64.toNat_add, UInt32.toNat_toUInt64, chunkOff_toNat,
        Chip.folded, hostAddr, first, Nat.mod_mod]
      omega
  | nfp6000 => exact (dmaAddrFromIdx_linAddr below done idx).2.1

end Shift

/-- With `__log2` taken from `compat.h` the split is faithful in the first chunk only: whatever
lies beyond it is folded onto it, by `dma_addr_init` and by `write_region`. -/
theorem log2_splitsBack (table : ChunkTable) :
    (∀ linAddr : UInt32, linAddr.toNat < pciebenchMaxMem →
      (SplitsBack log2ChunkSz linAddr ↔ linAddr.toNat < pciebenchChunkSz)) ∧
    (∀ winSz, winSz ≤ pciebenchMaxMem →
      ((∀ linAddr : UInt32, linAddr.toNat < winSz → SplitsBack log2ChunkSz linAddr) ↔
        winSz ≤ pciebenchChunkSz)) ∧
    (∀ first second : UInt32, first.toNat < pciebenchMaxMem →
      second.toNat < pciebenchMaxMem →
      (spliceChunk log2ChunkSz table first = spliceChunk log2ChunkSz table second ↔
        first.toNat % pciebenchChunkSz = second.toNat % pciebenchChunkSz)) ∧
    (∀ fuel rng args state final, AddrArgs.Valid args →
      dmaAddrInit fuel log2ChunkSz table rng args state = .ok final →
      ∀ index, index < pciebenchAddrArraySz → final.dmaAddrs index =
        table (chunkOf 0) + (final.linAddrs index &&& pciebenchChunkSzMask).toUInt64) ∧
    ∀ chip rng (winSz : UInt32) rand trans state next, winSz.toNat ≤ pciebenchMaxMem →
      writeRegionStep chip log2ChunkSz table rng winSz rand trans state = .ok next →
      next.oldChunkIdx = 0 ∧ next.addrHi = (table (chunkOf 0) >>> 32).toUInt32 ∧
        next.addrLo = (table (chunkOf 0) &&& 0xffffffff).toUInt32 +
          (next.linAddr &&& pciebenchChunkSzMask) := by
  refine ⟨fun _ => splitsBack_iff, fun _ => splitsBack_window, ?_, ?_, ?_⟩
  · intro first second
    exact spliceChunk_folded_iff
  · intro fuel rng args state final valid done index
    exact dmaAddrInit_folded valid done
  · intro chip rng winSz rand trans state next
    exact writeRegionStep_folded

theorem log2_splitsBack_first : SplitsBack log2ChunkSz 0x3fffff ∧
    (∀ linAddr : UInt32, linAddr.toNat < 0x400000 → SplitsBack log2ChunkSz linAddr) :=
  ⟨((log2_splitsBack (backToBack 0x40000000)).1 0x3fffff (by decide)).mpr (by decide),
    ((log2_splitsBack (backToBack 0x40000000)).2.1 0x400000 (by decide)).mpr (by decide)⟩

theorem log2_splitsBack_second :
    ¬ SplitsBack log2ChunkSz 0x400000 ∧
      spliceChunk log2ChunkSz (backToBack 0x40000000) 0x400000 =
        spliceChunk log2ChunkSz (backToBack 0x40000000) 0 := by
  constructor
  · rw [splitsBack_iff (by decide)]
    decide
  · exact (spliceChunk_folded_iff (by decide) (by decide)).mpr rfl

end Pciebench
