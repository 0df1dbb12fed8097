import Mathlib
import Pciebench.DmaCmd

/-!
Where the entries of the address array lead: into some chunk, with room for a transaction,
whatever bit the build splits linear addresses at. A BAR that moves when the chunk changes
stays set for the address in use.
-/

namespace Pciebench

/-- Two address words lead into the chunk of an index, with room for `size` bytes. -/
def AtChunk (table : ChunkTable) (size : Nat) (addrHi addrLo chunkIdx : UInt32) : Prop :=
  ∃ chunk : Fin pciebenchChunks, ∃ off,
    chunkIdx.toNat = chunk.val ∧
    (Words.join addrHi addrLo).toNat = (table chunk).toNat + off ∧
    off < pciebenchChunkSz ∧ off + size ≤ pciebenchChunkSz

section Words

variable {chip : Chip} {table : ChunkTable} {size : Nat} {addrHi addrLo chunkIdx : UInt32}

theorem AtChunk.window {otherHi otherLo : UInt32} (single : table.SingleBar)
    (here : AtChunk table size addrHi addrLo chunkIdx)
    (there : AtChunk table size otherHi otherLo chunkIdx) :
    (Words.join addrHi addrLo).toNat / 2 ^ windowBits chip =
      (Words.join otherHi otherLo).toNat / 2 ^ windowBits chip := by
  obtain ⟨chunk, off, chunkEq, addr, start, _⟩ := here
  obtain ⟨other, otherOff, otherEq, otherAddr, otherStart, _⟩ := there
  have same : other = chunk := Fin.ext (by omega)
  subst other
  have one := single chunk
  rw [addr, otherAddr]
  simp only [pciebenchChunkSz_eq] at *
  cases chip with
  | nfp3200 =>
      simp only [windowBits]
      omega
  | nfp6000 =>
      simp only [windowBits]
      omega

theorem AtChunk.reach (below : table.Below chip.reach)
    (here : AtChunk table size addrHi addrLo chunkIdx) :
    (Words.join addrHi addrLo).toNat < chip.reach := by
  obtain ⟨chunk, off, _, addr, start, _⟩ := here
  have limit := below chunk
  omega

end Words

/-- The BAR in use is set as for an address, of which it may lack the top bits. -/
def PcieState.SetFor (chip : Chip) (state : PcieState) (addr : Nat) : Prop :=
  (state.bars (c2pRegister chip pciebenchPcieIsl pciebenchC2pIdx)).toNat % 2 ^ regionBits chip =
    addr / 2 ^ windowBits chip % 2 ^ regionBits chip

section Bars

variable {chip : Chip} {table : ChunkTable} {size : Nat} {addrHi addrLo chunkIdx : UInt32}
  {pcie : PcieState}

theorem PcieState.serves_iff_setFor {addr : Nat} (reach : addr < chip.reach) :
    pcie.Serves chip addr ↔ pcie.SetFor chip addr := by
  have region : addr / 2 ^ windowBits chip < 2 ^ regionBits chip := by
    rw [Nat.div_lt_iff_lt_mul (Nat.two_pow_pos _), ← Nat.pow_add, Nat.add_comm]
    exact reach
  rw [Serves, SetFor, Nat.mod_eq_of_lt region]

theorem PcieState.setFor_barcfg :
    (pcie.barcfg chip addrHi addrLo).SetFor chip (Words.join addrHi addrLo).toNat := by
  simp only [SetFor, barcfg, pcieC2pBarcfg, Function.update_self]
  rw [c2pValue_toNat, Nat.mod_mod]

theorem setFor_moved (single : table.SingleBar) {nextHi nextLo nextIdx : UInt32}
    (here : AtChunk table size addrHi addrLo chunkIdx)
    (there : AtChunk table size nextHi nextLo nextIdx)
    (setFor : pcie.SetFor chip (Words.join addrHi addrLo).toNat) :
    (if nextIdx ≠ chunkIdx then pcie.barcfg chip nextHi nextLo else pcie).SetFor chip
      (Words.join nextHi nextLo).toNat := by
  split
  · exact PcieState.setFor_barcfg
  · rename_i stays
    have same := not_not.mp stays
    subst nextIdx
    rw [PcieState.SetFor, there.window single here]
    exact setFor

theorem serves_moved (single : table.SingleBar) (below : table.Below chip.reach)
    {nextHi nextLo nextIdx : UInt32} (here : AtChunk table size addrHi addrLo chunkIdx)
    (there : AtChunk table size nextHi nextLo nextIdx)
    (serves : pcie.Serves chip (Words.join addrHi addrLo).toNat) :
    (if nextIdx ≠ chunkIdx then pcie.barcfg chip nextHi nextLo else pcie).Serves chip
      (Words.join nextHi nextLo).toNat := by
  rw [PcieState.serves_iff_setFor (here.reach below)] at serves
  rw [PcieState.serves_iff_setFor (there.reach below)]
  exact setFor_moved single here there serves

theorem hostOf_setFor (setFor : pcie.SetFor chip (Words.join addrHi addrLo).toNat)
    (transSz : UInt32) :
    (hostOf chip pcie.bars
      (pcieC2pCmd chip pciebenchPcieIsl pciebenchC2pIdx addrHi addrLo transSz .sigDone).addr).toNat =
        (Words.join addrHi addrLo).toNat % chip.reach := by
  rw [hostOf_toNat (by decide) (by decide), setFor, Chip.reach, Nat.pow_add, Nat.mod_mul,
    Nat.mul_comm, Nat.add_comm]

end Bars

section Entries

variable {division : Division} {table : ChunkTable} {shift linAddr : UInt32} {entry : UInt64}

theorem spliceChunk_split (below : table.Below (2 ^ 56))
    (spliced : spliceChunk shift table linAddr = .ok entry) :
    ∃ chunk : Fin pciebenchChunks,
      entry.toNat =
        (table chunk).toNat + linAddr.toNat % pciebenchChunkSz + chunk.val * 2 ^ 56 := by
  simp only [spliceChunk] at spliced
  obtain ⟨base, found, spliced⟩ := Outcome.bind_eq_ok.mp spliced
  obtain ⟨inTable, baseEq⟩ := chunkDmaAddr_ok found
  simp only [Except.ok.injEq] at spliced
  have limit := below ⟨(linAddr >>> shift).toNat, inTable⟩
  rw [baseEq] at limit
  refine ⟨⟨(linAddr >>> shift).toNat, inTable⟩, ?_⟩
  have inChunk : linAddr.toNat % pciebenchChunkSz < pciebenchChunkSz := Nat.mod_lt _ (by decide)
  have sum : (base + (linAddr &&& pciebenchChunkSzMask).toUInt64).toNat =
      base.toNat + linAddr.toNat % pciebenchChunkSz := by
    rw [UInt64.toNat_add, UInt32.toNat_toUInt64, chunkOff_toNat]
    omega
  have shift56 : (56 : UInt64).toNat = 56 := rfl
  have few : (linAddr >>> shift).toNat < 16 := inTable
  rw [← spliced, Words.toNat_splice _ _ _ (by decide), sum, UInt32.toNat_toUInt64, shift56, baseEq]
  · rw [sum, shift56]
    omega
  · rw [UInt32.toNat_toUInt64, shift56]
    omega

theorem dmaAddrFromIdx_atChunk {fuel : Nat} {rng : Nat → UInt32} {args : AddrArgs}
    {state addrs : AddrState} (below : table.Below (2 ^ 56))
    (done : division.dmaAddrInit fuel shift table rng args state = .ok addrs) (idx : UInt32) :
    let found := dmaAddrFromIdx addrs.dmaAddrs idx
    AtChunk table args.transSz.toNat found.addrHi found.addrLo found.chunkIdx := by
  have inArray : idx.toNat % pciebenchAddrArraySz < pciebenchAddrArraySz :=
    Nat.mod_lt _ (by decide)
  obtain ⟨⟨unit, fitting, linEq⟩, spliced⟩ := Division.dmaAddrInit_entry done inArray
  obtain ⟨chunk, entryEq⟩ := spliceChunk_split below spliced
  have inPage := (args.fits_iff unit).mp fitting
  rw [linEq] at inPage
  have limit := below chunk
  refine ⟨chunk, (addrs.linAddrs (idx.toNat % pciebenchAddrArraySz)).toNat % pciebenchChunkSz,
    ?_, ?_, Nat.mod_lt _ (by decide), ?_⟩
  · rw [dmaAddrFromIdx_chunkIdx, entryEq]
    simp only [pciebenchChunkSz_eq] at *
    omega
  · rw [dmaAddrFromIdx_addr, entryEq]
    simp only [pciebenchChunkSz_eq] at *
    omega
  · simp only [pciebenchChunkSz_eq]
    omega

end Entries

end Pciebench
