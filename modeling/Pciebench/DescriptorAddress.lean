import Mathlib
import Pciebench.ChunkAddrs
import Pciebench.DmaCmd
import Pciebench.SequentialScan

/-!
Whether the descriptors carry the host addresses of their transactions. The array keeps 56 bits
of an address, the descriptor has room for 40.
-/

namespace Pciebench

def DmaEnqueue.linAddr (addrs : AddrState) (enqueue : DmaEnqueue) : UInt32 :=
  addrs.linAddrs (enqueue.index.toNat % pciebenchAddrArraySz)

/-- The descriptor encodes `chunk_dma_addrs[chunk_idx] + chunk_off`, given the base of the
chunk. -/
def DmaEnqueue.Carries (addrs : AddrState) (enqueue : DmaEnqueue) (base : UInt64) : Prop :=
  enqueue.cmd.hostAddr.toNat =
    base.toNat + (enqueue.linAddr addrs &&& pciebenchChunkSzMask).toNat

section Descriptor

variable {division : Division} {fuel : Nat} {shift : UInt32} {kernel : ChunkTable}
  {rng : Nat → UInt32} {args : AddrArgs} {state addrs : AddrState}

theorem enqueue_hostAddr {enqueue : DmaEnqueue} (single : kernel.SingleBar)
    (done : division.dmaAddrInit fuel shift kernel rng args state = .ok addrs)
    (fromArray : enqueue.FromArray addrs.dmaAddrs) :
    ∃ base, chunkDmaAddr kernel (enqueue.linAddr addrs >>> shift) = .ok base ∧
      (enqueue.Carries addrs base ↔ base.toNat < 2 ^ 40) := by
  have inArray : enqueue.index.toNat % pciebenchAddrArraySz < pciebenchAddrArraySz :=
    Nat.mod_lt _ (by decide)
  obtain ⟨_, spliced⟩ := Division.dmaAddrInit_entry done inArray
  obtain ⟨inTable, low⟩ := spliceChunk_low spliced (show 40 ≤ 56 by decide)
  refine ⟨kernel ⟨_, inTable⟩, ?_, ?_⟩
  · exact dif_pos inTable
  · obtain ⟨setup, cmdEq⟩ := fromArray
    have one := single ⟨_, inTable⟩
    have encoded : enqueue.cmd.hostAddr.toNat =
        ((kernel ⟨_, inTable⟩).toNat + (enqueue.linAddr addrs).toNat % pciebenchChunkSz) %
          2 ^ 40 := by
      rw [cmdEq, DmaCmd.patch_hostAddr, dmaAddrFromIdx_addr]
      change _ = ((kernel ⟨_, inTable⟩).toNat +
        (addrs.linAddrs (enqueue.index.toNat % pciebenchAddrArraySz)).toNat %
          pciebenchChunkSz) % 2 ^ 40
      rw [← low]
      omega
    rw [DmaEnqueue.Carries, encoded, chunkOff_toNat]
    simp only [pciebenchChunkSz_eq] at *
    omega

end Descriptor

/-- Every descriptor of `dma_lat` and of `dma_bw_worker`, for every valid window, carries the
host address of the linear address chosen for its index. -/
def DescriptorsCarry (chip : Chip) (shift : UInt32) (table : ChunkTable) : Prop :=
  (∀ fuel rng context test params nfp run, params.addrArgs.Valid →
    dmaLat chip fuel shift table rng context test params nfp = .ok run →
    ∀ enqueue ∈ run.enqueued, ∀ base,
      chunkDmaAddr table (enqueue.linAddr run.nfp.addrs >>> shift) = .ok base →
        enqueue.Carries run.nfp.addrs base) ∧
  ∀ fuel rng (args : AddrArgs) state addrs test setup trans, args.Valid →
    chip.division.dmaAddrInit fuel shift table rng args state = .ok addrs →
    ∀ base, chunkDmaAddr table
        ((dmaBwEnqueue chip test setup addrs.dmaAddrs trans).linAddr addrs >>> shift) = .ok base →
      (dmaBwEnqueue chip test setup addrs.dmaAddrs trans).Carries addrs base

section Table

variable {chip : Chip} {kernel : ChunkTable}

theorem dmaLat_carries {fuel : Nat} {shift : UInt32} {rng : Nat → UInt32} {context : DmaContext}
    {test : PciebenchTest} {params : TestParams} {nfp : NfpState} {run : DmaLatRun}
    (single : kernel.SingleBar)
    (done : dmaLat chip fuel shift kernel rng context test params nfp = .ok run)
    {enqueue : DmaEnqueue} (member : enqueue ∈ run.enqueued) :
    ∃ base, chunkDmaAddr kernel (enqueue.linAddr run.nfp.addrs >>> shift) = .ok base ∧
      (enqueue.Carries run.nfp.addrs base ↔ base.toNat < 2 ^ 40) := by
  rcases dmaLat_fromArray done with nothing | ⟨addrs, filled, linAddrs, fromArray⟩
  · rw [nothing] at member
    contradiction
  · have sameLin : enqueue.linAddr run.nfp.addrs = enqueue.linAddr addrs := by
      rw [DmaEnqueue.linAddr, DmaEnqueue.linAddr, linAddrs]
    simp only [DmaEnqueue.Carries, sameLin]
    exact enqueue_hostAddr single filled (fromArray enqueue member)

theorem chunkDmaAddr_mem {chunkIdx : UInt32} {base : UInt64}
    (found : chunkDmaAddr kernel chunkIdx = .ok base) : ∃ chunk, kernel chunk = base := by
  obtain ⟨inTable, baseEq⟩ := chunkDmaAddr_ok found
  exact ⟨_, baseEq⟩

def everyLine : AddrArgs where
  winSz := 0x4000000
  transSz := 64
  hOff := 0
  flags := 0

theorem everyLine_valid : everyLine.Valid := by
  constructor <;> decide

variable (kernel) in
theorem exists_chunk_entry (rng : Nat → UInt32) (state : AddrState) (chunk : Fin pciebenchChunks) :
    ∃ addrs trans, dmaAddrInit 64 22 kernel rng everyLine state = .ok addrs ∧
      (addrs.linAddrs (UInt32.toNat trans % pciebenchAddrArraySz)).toNat =
        chunk.val * pciebenchChunkSz := by
  obtain ⟨addrs, done, _, lines⟩ := dmaAddrInit_lines kernel rng everyLine_valid (by decide) rfl
    (Nat.le_refl 64) (spliceChunk_placed kernel everyLine_valid) state
  have small : chunk.val < 16 := chunk.isLt
  refine ⟨addrs, UInt32.ofNat (chunk.val * 65536), done, ?_⟩
  have index : (UInt32.ofNat (chunk.val * 65536)).toNat = chunk.val * 65536 := by
    rw [UInt32.toNat_ofNat']
    omega
  rw [index, lines _ (Nat.mod_lt _ (by decide))]
  change chunk.val * 65536 % pciebenchAddrArraySz % (67108864 / 64) * 64 + 0 = _
  simp only [pciebenchAddrArraySz_eq, pciebenchChunkSz_eq]
  omega

theorem descriptorsCarry_iff (single : kernel.SingleBar) :
    DescriptorsCarry chip 22 kernel ↔ ∀ chunk, (kernel chunk).toNat < 2 ^ 40 := by
  constructor
  · rintro ⟨_, workers⟩ chunk
    obtain ⟨addrs, trans, done, start⟩ := exists_chunk_entry kernel (fun _ => 0)
      { dmaAddrs := fun _ => 0, linAddrs := fun _ => 0, add := 0, reads := 0 } chunk
    have small : chunk.val < 16 := chunk.isLt
    let enqueue := dmaBwEnqueue chip .bwDmaRd ⟨0, 0, 0, 0⟩ addrs.dmaAddrs trans
    obtain ⟨base, found, exact⟩ := enqueue_hostAddr single done
      (dmaBwEnqueue_fromArray chip .bwDmaRd ⟨0, 0, 0, 0⟩ addrs.dmaAddrs trans)
    have carried := workers 64 (fun _ => 0) everyLine _ addrs .bwDmaRd ⟨0, 0, 0, 0⟩ trans
      everyLine_valid (chip.dmaAddrInit_of_ok done) base found
    obtain ⟨inTable, baseEq⟩ := chunkDmaAddr_ok found
    have here : (⟨_, inTable⟩ : Fin pciebenchChunks) = chunk := by
      apply Fin.ext
      change (enqueue.linAddr addrs >>> 22).toNat = chunk.val
      rw [chunkIdx_toNat]
      change (addrs.linAddrs (trans.toNat % pciebenchAddrArraySz)).toNat / _ = _
      rw [start, Nat.mul_div_cancel _ (by decide)]
    rw [here] at baseEq
    rw [baseEq]
    exact exact.mp carried
  · intro low
    constructor
    · intro fuel rng context test params nfp run _ done enqueue member base found
      obtain ⟨actual, foundActual, carries⟩ := dmaLat_carries single done member
      rw [found] at foundActual
      cases foundActual
      obtain ⟨chunk, rfl⟩ := chunkDmaAddr_mem found
      exact carries.mpr (low chunk)
    · intro fuel rng args state addrs test setup trans _ done base found
      obtain ⟨actual, foundActual, carries⟩ :=
        enqueue_hostAddr single done (dmaBwEnqueue_fromArray chip test setup addrs.dmaAddrs trans)
      rw [found] at foundActual
      cases foundActual
      obtain ⟨chunk, rfl⟩ := chunkDmaAddr_mem found
      exact carries.mpr (low chunk)

end Table

/-- For chunk addresses that pass the host's checks, a descriptor carries the address of its
transaction exactly when its chunk starts below `2 ^ 40`, and all descriptors do exactly when
all chunks start there. -/
theorem dmaDescriptor_address (chip : Chip) (kernel table : ChunkTable)
    (delivered : deliverDmaAddrs kernel = .ok table) :
    (∀ fuel shift rng context test params nfp run,
      dmaLat chip fuel shift table rng context test params nfp = .ok run →
      ∀ enqueue ∈ run.enqueued, ∃ base,
        chunkDmaAddr kernel (enqueue.linAddr run.nfp.addrs >>> shift) = .ok base ∧
          (enqueue.Carries run.nfp.addrs base ↔ base.toNat < 2 ^ 40)) ∧
    (∀ fuel shift rng args state addrs test setup trans,
      chip.division.dmaAddrInit fuel shift table rng args state = .ok addrs →
      let enqueue := dmaBwEnqueue chip test setup addrs.dmaAddrs trans
      ∃ base, chunkDmaAddr kernel (enqueue.linAddr addrs >>> shift) = .ok base ∧
        (enqueue.Carries addrs base ↔ base.toNat < 2 ^ 40)) ∧
    (DescriptorsCarry chip 22 table ↔ ∀ chunk, (kernel chunk).toNat < 2 ^ 40) := by
  obtain ⟨_, single, rfl⟩ := deliverDmaAddrs_ok.mp delivered
  refine ⟨?_, ?_, descriptorsCarry_iff single⟩
  · intro fuel shift rng context test params nfp run done enqueue member
    exact dmaLat_carries single done member
  · intro fuel shift rng args state addrs test setup trans done
    exact enqueue_hostAddr single done (dmaBwEnqueue_fromArray chip test setup addrs.dmaAddrs trans)

theorem dmaDescriptor_address_low :
    DescriptorsCarry .nfp6000 22 (backToBack 0x40000000) ↔
      ∀ chunk, (backToBack 0x40000000 chunk).toNat < 2 ^ 40 := by
  have room : (0x40000000 : UInt64).toNat + pciebenchMaxMem < 2 ^ 64 := by decide
  exact (dmaDescriptor_address .nfp6000 (backToBack 0x40000000) (backToBack 0x40000000)
    (deliverDmaAddrs_ok.mpr
      ⟨backToBack_aligned room (by decide), backToBack_singleBar room rfl, rfl⟩)).2.2

/-- Chunks from `2 ^ 40` up pass the host's checks, and the first descriptor misses them. -/
theorem dmaDescriptor_address_truncated :
    deliverDmaAddrs (backToBack 0x10000000000) = .ok (backToBack 0x10000000000) ∧
      ∃ addrs base, dmaAddrInit 64 22 (backToBack 0x10000000000) (fun _ => 0) everyLine
          { dmaAddrs := fun _ => 0, linAddrs := fun _ => 0, add := 0, reads := 0 } = .ok addrs ∧
        chunkDmaAddr (backToBack 0x10000000000)
          ((dmaBwEnqueue .nfp6000 .bwDmaWr ⟨0, 0, 0, 0⟩ addrs.dmaAddrs 0).linAddr addrs >>> 22) =
            .ok base ∧
        ¬ (dmaBwEnqueue .nfp6000 .bwDmaWr ⟨0, 0, 0, 0⟩ addrs.dmaAddrs 0).Carries addrs base := by
  have room : (0x10000000000 : UInt64).toNat + pciebenchMaxMem < 2 ^ 64 := by decide
  have single := backToBack_singleBar room rfl
  refine ⟨deliverDmaAddrs_ok.mpr ⟨backToBack_aligned room (by decide), single, rfl⟩, ?_⟩
  obtain ⟨addrs, done, _⟩ := dmaAddrInit_lines (backToBack 0x10000000000) (fun _ => 0)
    everyLine_valid (by decide) rfl (Nat.le_refl 64) (spliceChunk_placed _ everyLine_valid)
    { dmaAddrs := fun _ => 0, linAddrs := fun _ => 0, add := 0, reads := 0 }
  obtain ⟨base, found, carries⟩ := enqueue_hostAddr single done
    (dmaBwEnqueue_fromArray .nfp6000 .bwDmaWr ⟨0, 0, 0, 0⟩ addrs.dmaAddrs 0)
  refine ⟨addrs, base, done, found, ?_⟩
  obtain ⟨chunk, rfl⟩ := chunkDmaAddr_mem found
  rw [carries, backToBack_toNat room]
  have high : (0x10000000000 : UInt64).toNat = 2 ^ 40 := by decide
  omega

end Pciebench
