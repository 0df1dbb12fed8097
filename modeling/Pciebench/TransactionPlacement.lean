import Mathlib
import Pciebench.SequentialScan

/-! Every transaction of a finished array stays in its chunk, its page and the window. -/

namespace Pciebench

/-- What `dma_addr_from_idx` returns for an array made from a valid window. -/
theorem dmaAddrFromIdx_placement (fuel : Nat) (table : ChunkTable) (rng : Nat → UInt32)
    (args : AddrArgs) (state final : AddrState) (idx : UInt32)
    (valid : args.Valid) (aligned : table.Aligned) (below : table.Below (2 ^ 56))
    (done : dmaAddrInit fuel 22 table rng args state = .ok final) :
    ∃ chunk : Fin pciebenchChunks, ∃ unit : Nat,
      let found := dmaAddrFromIdx final.dmaAddrs idx
      let addr := (Words.join found.addrHi found.addrLo).toNat
      let linAddr := unit * args.unitSz.toNat + args.hOff.toNat
      found.chunkIdx.toNat = chunk.val ∧
      (table chunk).toNat ≤ addr ∧
      addr + args.transSz.toNat ≤ (table chunk).toNat + pciebenchChunkSz ∧
      addr % 4096 + args.transSz.toNat ≤ 4096 ∧
      linAddr = chunk.val * pciebenchChunkSz + (addr - (table chunk).toNat) ∧
      linAddr + args.transSz.toNat ≤ args.winSz.toNat := by
  have inArray : idx.toNat % pciebenchAddrArraySz < pciebenchAddrArraySz :=
    Nat.mod_lt _ (by decide)
  obtain ⟨⟨unit, bound, fitting, linEq⟩, _⟩ := dmaAddrInit_ok done inArray
  obtain ⟨linBound, addrEq, chunkEq⟩ := dmaAddrFromIdx_linAddr below done idx
  have start := valid.linAddr_toNat bound
  have inPage := (args.fits_iff unit).mp fitting
  have inWindow := valid.checked.fits_in_window bound fitting
  rw [linEq] at start inPage inWindow
  have page := hostAddr_page aligned (final.linAddrs (idx.toNat % pciebenchAddrArraySz)).toNat
  refine ⟨chunkOf (final.linAddrs (idx.toNat % pciebenchAddrArraySz)).toNat, unit.toNat, ?_⟩
  simp only [addrEq, chunkEq, chunkOf_val linBound, ← start, page]
  simp only [hostAddr, pciebenchChunkSz_eq] at *
  refine ⟨trivial, ?_, ?_, inPage, ?_, inWindow⟩ <;> omega

theorem dmaAddrFromIdx_placement_crossing :
    ∃ final, dmaAddrInit 64 22 (backToBack 0x40000000) (fun _ => 0) AddrArgs.crossingExample
        { dmaAddrs := fun _ => 0, linAddrs := fun _ => 0, add := 0, reads := 0 } = .ok final ∧
      let found := dmaAddrFromIdx final.dmaAddrs 20
      (Words.join found.addrHi found.addrLo).toNat % 4096 + 150 ≤ 4096 := by
  have room : (0x40000000 : UInt64).toNat + pciebenchMaxMem < 2 ^ 64 := by decide
  obtain ⟨final, done, _⟩ := dmaAddrInit_sequential (backToBack 0x40000000) (fun _ => 0)
    AddrArgs.crossingExample_valid rfl (Nat.le_refl 64)
    (spliceChunk_placed _ AddrArgs.crossingExample_valid)
    { dmaAddrs := fun _ => 0, linAddrs := fun _ => 0, add := 0, reads := 0 }
  obtain ⟨_, _, _, _, _, inPage, _⟩ := dmaAddrFromIdx_placement 64 (backToBack 0x40000000)
    (fun _ => 0) AddrArgs.crossingExample _ final 20 AddrArgs.crossingExample_valid
    (backToBack_aligned room (by decide)) (backToBack_below room (by decide)) done
  exact ⟨final, done, inPage⟩

end Pciebench
