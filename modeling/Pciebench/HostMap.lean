import Mathlib
import Pciebench.DmaAddr

/-!
The map from linear addresses to host addresses: chunk tables, the array entry made from a
linear address, and the address and chunk index that `dma_addr_from_idx` reads back from it.
-/

namespace Pciebench

def chunkOf (linAddr : Nat) : Fin pciebenchChunks :=
  ⟨linAddr / pciebenchChunkSz % pciebenchChunks, Nat.mod_lt _ (by decide)⟩

def hostAddr (table : ChunkTable) (linAddr : Nat) : Nat :=
  (table (chunkOf linAddr)).toNat + linAddr % pciebenchChunkSz

namespace ChunkTable

def Aligned (table : ChunkTable) : Prop :=
  ∀ chunk, (table chunk).toNat % 4096 = 0

def Below (table : ChunkTable) (limit : Nat) : Prop :=
  ∀ chunk, (table chunk).toNat + pciebenchChunkSz ≤ limit

def Disjoint (table : ChunkTable) : Prop :=
  ∀ first second, first ≠ second →
    (table first).toNat + pciebenchChunkSz ≤ (table second).toNat ∨
    (table second).toNat + pciebenchChunkSz ≤ (table first).toNat

end ChunkTable

def backToBack (start : UInt64) : ChunkTable :=
  fun chunk => start + UInt64.ofNat (chunk.val * pciebenchChunkSz)

theorem backToBack_toNat {start : UInt64} (room : start.toNat + pciebenchMaxMem < 2 ^ 64)
    (chunk : Fin pciebenchChunks) :
    (backToBack start chunk).toNat = start.toNat + chunk.val * pciebenchChunkSz := by
  have bound : chunk.val < 16 := chunk.isLt
  simp only [pciebenchMaxMem_eq] at room
  rw [backToBack, UInt64.toNat_add, UInt64.toNat_ofNat', pciebenchChunkSz_eq]
  omega

theorem backToBack_aligned {start : UInt64} (room : start.toNat + pciebenchMaxMem < 2 ^ 64)
    (aligned : start.toNat % 4096 = 0) : (backToBack start).Aligned := by
  intro chunk
  rw [backToBack_toNat room, pciebenchChunkSz_eq]
  omega

theorem backToBack_below {start : UInt64} {limit : Nat}
    (room : start.toNat + pciebenchMaxMem < 2 ^ 64)
    (below : start.toNat + pciebenchMaxMem ≤ limit) : (backToBack start).Below limit := by
  intro chunk
  have bound : chunk.val < 16 := chunk.isLt
  rw [backToBack_toNat room]
  simp only [pciebenchMaxMem_eq, pciebenchChunkSz_eq] at *
  omega

theorem backToBack_disjoint {start : UInt64} (room : start.toNat + pciebenchMaxMem < 2 ^ 64) :
    (backToBack start).Disjoint := by
  intro first second different
  have apart : first.val ≠ second.val := fun same => different (Fin.ext same)
  rw [backToBack_toNat room, backToBack_toNat room, pciebenchChunkSz_eq]
  omega

variable {table : ChunkTable}

theorem chunkOf_val {linAddr : Nat} (bound : linAddr < pciebenchMaxMem) :
    (chunkOf linAddr).val = linAddr / pciebenchChunkSz := by
  simp only [pciebenchMaxMem_eq] at bound
  simp only [chunkOf, pciebenchChunkSz_eq, pciebenchChunks_eq]
  omega

theorem hostAddr_page (aligned : table.Aligned) (linAddr : Nat) :
    hostAddr table linAddr % 4096 = linAddr % 4096 := by
  have base := aligned (chunkOf linAddr)
  simp only [hostAddr, pciebenchChunkSz_eq]
  omega

theorem hostAddr_lt {limit : Nat} (below : table.Below limit) (linAddr : Nat) :
    hostAddr table linAddr < limit := by
  have base := below (chunkOf linAddr)
  simp only [hostAddr, pciebenchChunkSz_eq] at *
  omega

theorem hostAddr_add {linAddr offset : Nat} (page : linAddr % 4096 + offset < 4096) :
    hostAddr table (linAddr + offset) = hostAddr table linAddr + offset := by
  have sameChunk : (linAddr + offset) / pciebenchChunkSz = linAddr / pciebenchChunkSz := by
    simp only [pciebenchChunkSz_eq]
    omega
  simp only [hostAddr, chunkOf, sameChunk]
  simp only [pciebenchChunkSz_eq]
  omega

theorem hostAddr_line (aligned : table.Aligned) (linAddr : Nat) :
    hostAddr table linAddr / 64 * 64 = hostAddr table (linAddr / 64 * 64) := by
  have base := aligned (chunkOf linAddr)
  have sameChunk : linAddr / 64 * 64 / pciebenchChunkSz = linAddr / pciebenchChunkSz := by
    simp only [pciebenchChunkSz_eq]
    omega
  simp only [chunkOf] at base
  simp only [hostAddr, chunkOf, sameChunk]
  simp only [pciebenchChunkSz_eq] at *
  omega

theorem hostAddr_injective (disjoint : table.Disjoint) {first second : Nat}
    (firstBound : first < pciebenchMaxMem) (secondBound : second < pciebenchMaxMem)
    (same : hostAddr table first = hostAddr table second) : first = second := by
  by_cases chunks : chunkOf first = chunkOf second
  · have values := congrArg Fin.val chunks
    rw [chunkOf_val firstBound, chunkOf_val secondBound] at values
    simp only [hostAddr, chunks, pciebenchChunkSz_eq] at same values
    omega
  · have apart := disjoint _ _ chunks
    simp only [hostAddr, pciebenchChunkSz_eq] at same apart
    omega

section Splice

variable {shift linAddr : UInt32} {entry : UInt64}

theorem chunkDmaAddr_ok {chunkIdx : UInt32} {base : UInt64}
    (found : chunkDmaAddr table chunkIdx = .ok base) :
    ∃ inTable : chunkIdx.toNat < pciebenchChunks, table ⟨chunkIdx.toNat, inTable⟩ = base := by
  unfold chunkDmaAddr at found
  split at found
  · rename_i inTable
    simp only [Except.ok.injEq] at found
    exact ⟨inTable, found⟩
  · simp at found

theorem chunkOff_toNat (linAddr : UInt32) :
    (linAddr &&& pciebenchChunkSzMask).toNat = linAddr.toNat % pciebenchChunkSz :=
  Words.toNat_and_mask32 _ _ 22 rfl

theorem spliceChunk_low (spliced : spliceChunk shift table linAddr = .ok entry) {bits : Nat}
    (below : bits ≤ 56) :
    ∃ inTable : (linAddr >>> shift).toNat < pciebenchChunks,
      entry.toNat % 2 ^ bits =
        ((table ⟨_, inTable⟩).toNat + linAddr.toNat % pciebenchChunkSz) % 2 ^ bits := by
  simp only [spliceChunk] at spliced
  obtain ⟨base, found, spliced⟩ := Outcome.bind_eq_ok.mp spliced
  obtain ⟨inTable, baseEq⟩ := chunkDmaAddr_ok found
  simp only [Except.ok.injEq] at spliced
  refine ⟨inTable, ?_⟩
  have belowTag : bits ≤ (56 : UInt64).toNat := below
  rw [← spliced, Words.toNat_splice_mod _ _ _ (by decide) bits belowTag, UInt64.toNat_add,
    Nat.mod_mod_of_dvd _ (Nat.pow_dvd_pow 2 (by omega)), UInt32.toNat_toUInt64,
    chunkOff_toNat, baseEq]

theorem chunkIdx_toNat : (linAddr >>> 22).toNat = linAddr.toNat / pciebenchChunkSz :=
  Words.toNat_shiftRight32 _ _ (by decide)

theorem spliceChunk_eq_ok (bound : linAddr.toNat < pciebenchMaxMem) :
    ∃ entry, spliceChunk 22 table linAddr = .ok entry := by
  have inTable : (linAddr >>> 22).toNat < pciebenchChunks := by
    rw [chunkIdx_toNat, pciebenchChunks_eq, pciebenchChunkSz_eq]
    simp only [pciebenchMaxMem_eq] at bound
    omega
  simp only [spliceChunk, chunkDmaAddr, dif_pos inTable]
  exact ⟨_, rfl⟩

theorem spliceChunk_toNat (below : table.Below (2 ^ 56))
    (spliced : spliceChunk 22 table linAddr = .ok entry) :
    linAddr.toNat < pciebenchMaxMem ∧
      entry.toNat = hostAddr table linAddr.toNat + linAddr.toNat / pciebenchChunkSz * 2 ^ 56 := by
  simp only [spliceChunk] at spliced
  obtain ⟨base, found, spliced⟩ := Outcome.bind_eq_ok.mp spliced
  obtain ⟨inTable, baseEq⟩ := chunkDmaAddr_ok found
  simp only [Except.ok.injEq] at spliced
  rw [chunkIdx_toNat, pciebenchChunks_eq, pciebenchChunkSz_eq] at inTable
  have linBound : linAddr.toNat < pciebenchMaxMem := by
    simp only [pciebenchMaxMem_eq]
    omega
  have chunkEq : (⟨(linAddr >>> 22).toNat, by rwa [chunkIdx_toNat]⟩ : Fin pciebenchChunks) =
      chunkOf linAddr.toNat := by
    apply Fin.ext
    rw [chunkOf_val linBound]
    exact chunkIdx_toNat
  rw [chunkEq] at baseEq
  have baseBound := below (chunkOf linAddr.toNat)
  rw [baseEq, pciebenchChunkSz_eq] at baseBound
  have sum : (base + (linAddr &&& pciebenchChunkSzMask).toUInt64).toNat =
      hostAddr table linAddr.toNat := by
    rw [UInt64.toNat_add, UInt32.toNat_toUInt64, chunkOff_toNat, hostAddr, baseEq,
      pciebenchChunkSz_eq]
    omega
  refine ⟨linBound, ?_⟩
  rw [← spliced, Words.toNat_splice _ _ _ (by decide), sum, UInt32.toNat_toUInt64, chunkIdx_toNat]
  · rfl
  · rw [sum]
    exact hostAddr_lt below _
  · rw [UInt32.toNat_toUInt64, chunkIdx_toNat, pciebenchChunkSz_eq]
    change linAddr.toNat / 4194304 * 2 ^ 56 < 2 ^ 64
    omega

end Splice

section FromIdx

variable (dmaAddrs : Nat → UInt64) (idx : UInt32)

theorem arrayIdx_toNat :
    (idx &&& pciebenchAddrArraySzMask).toNat = idx.toNat % pciebenchAddrArraySz :=
  Words.toNat_and_mask32 _ _ 20 rfl

theorem dmaAddrFromIdx_addr :
    (Words.join (dmaAddrFromIdx dmaAddrs idx).addrHi
      (dmaAddrFromIdx dmaAddrs idx).addrLo).toNat =
      (dmaAddrs (idx.toNat % pciebenchAddrArraySz)).toNat % 2 ^ 56 := by
  have bound := (dmaAddrs (idx.toNat % pciebenchAddrArraySz)).toNat_lt
  have shift : (32 : UInt64).toNat = 32 := rfl
  rw [Words.toNat_join]
  simp only [dmaAddrFromIdx]
  rw [arrayIdx_toNat, Words.toNat_and_mask32 _ _ 24 rfl, UInt64.toNat_toUInt32,
    UInt64.toNat_toUInt32, Words.toNat_shiftRight64 _ _ (by decide),
    Words.toNat_and_mask64 _ _ 32 rfl, shift]
  omega

theorem dmaAddrFromIdx_chunkIdx :
    (dmaAddrFromIdx dmaAddrs idx).chunkIdx.toNat =
      (dmaAddrs (idx.toNat % pciebenchAddrArraySz)).toNat / 2 ^ 56 := by
  have bound := (dmaAddrs (idx.toNat % pciebenchAddrArraySz)).toNat_lt
  have wide : (32 : UInt64).toNat = 32 := rfl
  have narrow : (24 : UInt32).toNat = 24 := rfl
  simp only [dmaAddrFromIdx]
  rw [arrayIdx_toNat, Words.toNat_and_mask32 _ _ 8 rfl, Words.toNat_shiftRight32 _ _ (by decide),
    UInt64.toNat_toUInt32, Words.toNat_shiftRight64 _ _ (by decide), wide, narrow]
  omega

end FromIdx

/-- What comes back for an index: the host address and the chunk of the linear address that
`dma_addr_init` chose for it. -/
theorem dmaAddrFromIdx_linAddr {division : Division} {fuel : Nat} {table : ChunkTable}
    {rng : Nat → UInt32} {args : AddrArgs} {state final : AddrState}
    (below : table.Below (2 ^ 56))
    (done : division.dmaAddrInit fuel 22 table rng args state = .ok final) (idx : UInt32) :
    let found := dmaAddrFromIdx final.dmaAddrs idx
    let linAddr := (final.linAddrs (idx.toNat % pciebenchAddrArraySz)).toNat
    linAddr < pciebenchMaxMem ∧
      (Words.join found.addrHi found.addrLo).toNat = hostAddr table linAddr ∧
      found.chunkIdx.toNat = linAddr / pciebenchChunkSz := by
  have inArray : idx.toNat % pciebenchAddrArraySz < pciebenchAddrArraySz :=
    Nat.mod_lt _ (by decide)
  obtain ⟨_, spliced⟩ := Division.dmaAddrInit_entry done inArray
  obtain ⟨linBound, entryEq⟩ := spliceChunk_toNat below spliced
  have hostBound := hostAddr_lt below (final.linAddrs (idx.toNat % pciebenchAddrArraySz)).toNat
  refine ⟨linBound, ?_, ?_⟩
  · rw [dmaAddrFromIdx_addr, entryEq]
    omega
  · rw [dmaAddrFromIdx_chunkIdx, entryEq]
    omega

end Pciebench
