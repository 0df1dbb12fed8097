import Mathlib
import Pciebench.WriteRegion
import Pciebench.Lib.PeriodicSearch

/-!
`host_warm_cache` as `write_region` runs it: the window line by line from its start, twice.
-/

namespace Pciebench

def lineHi (table : ChunkTable) (line : Nat) : UInt32 :=
  (table (chunkOf (64 * line)) >>> 32).toUInt32

def lineLo (table : ChunkTable) (line : Nat) : UInt32 :=
  (table (chunkOf (64 * line)) &&& 0xffffffff).toUInt32 +
    UInt32.ofNat (64 * line % pciebenchChunkSz)

structure PcieAccess.WritesLine (chip : Chip) (table : ChunkTable) (access : PcieAccess)
    (line : Nat) : Prop where
  write : access.write = true
  command : access.command = pcieC2pCmd chip pciebenchPcieIsl pciebenchC2pIdx
    (lineHi table line) (lineLo table line) 64 .sigDone
  bytes : access.command.bytes = 64
  target : access.target = hostAddr table (64 * line)

structure RegionState.AtLine (table : ChunkTable) (state : RegionState) (line : Nat) : Prop where
  linAddr : state.linAddr.toNat = 64 * line
  addrHi : state.addrHi = lineHi table line
  addrLo : state.addrLo = lineLo table line

section Loop

variable {chip : Chip} {table : ChunkTable} {rng : Nat → UInt32} {winSz : UInt32}
  {state next final : RegionState} {line : Nat}

variable (chip) in
theorem RegionState.AtLine.access (atLine : state.AtLine table line) :
    ∃ access, (state.pcie.access chip true state.addrHi state.addrLo 64
        (hostAddr table state.linAddr.toNat)).accesses = state.pcie.accesses ++ [access] ∧
      access.WritesLine chip table line := by
  refine ⟨_, rfl, rfl, ?_, ?_, ?_⟩
  · rw [atLine.addrHi, atLine.addrLo]
  · exact pcieC2pCmd_bytes _ _ _ _ _ _ _
  · rw [atLine.linAddr]

theorem writeRegionStep_line {trans : Nat} (aligned : winSz.toNat % 64 = 0)
    (inWord : 64 * (trans + 1) < 2 ^ 32) (atLine : state.AtLine table line)
    (done : writeRegionStep chip 22 table rng winSz false (UInt32.ofNat trans) state = .ok next) :
    next.AtLine table ((trans + 1) % (winSz.toNat / 64)) ∧
      ∃ access, next.pcie.accesses = state.pcie.accesses ++ [access] ∧
        access.WritesLine chip table line := by
  obtain ⟨linEq, _, _, hiEq, loEq, pcieEq⟩ := writeRegionStep_ok done
  have shift : (6 : UInt32).toNat = 6 := rfl
  have following : (UInt32.ofNat trans + 1).toNat = trans + 1 := by
    have one : (1 : UInt32).toNat = 1 := rfl
    rw [UInt32.toNat_add, UInt32.toNat_ofNat', one]
    omega
  have linAddr : next.linAddr.toNat = 64 * ((trans + 1) % (winSz.toNat / 64)) := by
    have whole : winSz.toNat = 64 * (winSz.toNat / 64) := by omega
    rw [linEq, regionLinAddr, UInt32.toNat_mod]
    simp only [Bool.false_eq_true, if_false]
    rw [Words.toNat_shiftLeft32 _ _ (by decide), shift, following,
      Nat.mod_eq_of_lt (by omega : (trans + 1) * 2 ^ 6 < 2 ^ 32), Nat.mul_comm,
      ← Nat.mul_mod_mul_left, ← whole]
    rfl
  refine ⟨⟨linAddr, ?_, ?_⟩, ?_⟩
  · rw [hiEq, linAddr, lineHi]
  · have offset : next.linAddr &&& pciebenchChunkSzMask =
        UInt32.ofNat (64 * ((trans + 1) % (winSz.toNat / 64)) % pciebenchChunkSz) := by
      apply UInt32.toNat_inj.mp
      have small : next.linAddr.toNat % pciebenchChunkSz < pciebenchChunkSz :=
        Nat.mod_lt _ (by decide)
      rw [pciebenchChunkSz_eq] at small
      rw [chunkOff_toNat, UInt32.toNat_ofNat', ← linAddr, pciebenchChunkSz_eq,
        Nat.mod_eq_of_lt (by omega : next.linAddr.toNat % 4194304 < 2 ^ 32)]
    rw [loEq, offset, linAddr, lineLo]
  · obtain ⟨access, appended, writes⟩ := atLine.access chip
    refine ⟨access, ?_, writes⟩
    rw [pcieEq]
    split
    · exact appended
    · exact appended

theorem writeRegionFrom_lines {left trans : Nat} (aligned : winSz.toNat % 64 = 0)
    (inWord : 64 * (trans + left) < 2 ^ 32)
    (atLine : state.AtLine table (trans % (winSz.toNat / 64)))
    (done : writeRegionFrom chip 22 table rng winSz false left (UInt32.ofNat trans) state =
      .ok final) :
    ∃ writes, final.pcie.accesses = state.pcie.accesses ++ writes ∧
      List.Forall₂ (PcieAccess.WritesLine chip table) writes
        ((List.range' trans left).map fun trans => trans % (winSz.toNat / 64)) := by
  induction left generalizing trans state with
  | zero =>
      simp only [writeRegionFrom, Except.ok.injEq] at done
      subst final
      exact ⟨[], (List.append_nil _).symm, List.Forall₂.nil⟩
  | succ left ih =>
      simp only [writeRegionFrom] at done
      obtain ⟨next, first, rest⟩ := Outcome.bind_eq_ok.mp done
      obtain ⟨nextLine, access, appended, writes⟩ :=
        writeRegionStep_line aligned (by omega) atLine first
      have following : UInt32.ofNat trans + 1 = UInt32.ofNat (trans + 1) := by
        rw [UInt32.ofNat_add]
        rfl
      rw [following] at rest
      obtain ⟨later, laterEq, laterWrites⟩ := ih (by omega) nextLine rest
      refine ⟨access :: later, ?_, ?_⟩
      · rw [laterEq, appended, List.append_assoc, List.singleton_append]
      · rw [List.range'_succ, List.map_cons]
        exact List.Forall₂.cons writes laterWrites

end Loop

section Passes

variable {chip : Chip} {table : ChunkTable} {writes : List PcieAccess}

theorem forall₂_getElem? {lines : List Nat}
    (matched : List.Forall₂ (PcieAccess.WritesLine chip table) writes lines) {trans line : Nat}
    (here : lines[trans]? = some line) :
    ∃ access, writes[trans]? = some access ∧ access.WritesLine chip table line := by
  induction matched generalizing trans with
  | nil => simp at here
  | @cons access first writes lines head _ ih =>
      cases trans with
      | zero =>
          simp only [List.getElem?_cons_zero, Option.some.injEq] at here
          subst first
          exact ⟨access, rfl, head⟩
      | succ trans => exact ih here

theorem two_passes (count : Nat) :
    (List.range' 0 (2 * count)).map (fun trans => trans % count) =
      List.range count ++ List.range count := by
  have once : ∀ start, start % count = 0 →
      (List.range' start count).map (fun trans => trans % count) = List.range count := by
    intro start multiple
    rw [List.range'_eq_map_range, List.map_map]
    refine (List.map_congr_left ?_).trans (List.map_id _)
    intro line member
    have bound := List.mem_range.mp member
    simp only [Function.comp, id]
    rw [Nat.add_mod, multiple, Nat.zero_add, Nat.mod_mod, Nat.mod_eq_of_lt bound]
  have halves : List.range' 0 (2 * count) = List.range' 0 count ++ List.range' count count := by
    have joined : List.range' 0 count ++ List.range' (0 + count) count =
        List.range' 0 (count + count) := List.range'_append_1
    rw [Nat.two_mul, ← joined, Nat.zero_add]
  rw [halves, List.map_append, once 0 (Nat.zero_mod _), once count (Nat.mod_self _)]

theorem countP_line {count line : Nat} (disjoint : table.Disjoint)
    (inMem : 64 * count ≤ pciebenchMaxMem) (bound : line < count)
    (matched : List.Forall₂ (PcieAccess.WritesLine chip table) writes
      (List.range count ++ List.range count)) :
    writes.countP (fun access => access.target = hostAddr table (64 * line)) = 2 := by
  have targets : writes.map PcieAccess.target =
      (List.range count ++ List.range count).map fun line => hostAddr table (64 * line) := by
    rw [← List.forall₂_eq_eq_eq, List.forall₂_map_left_iff, List.forall₂_map_right_iff]
    exact matched.imp fun _ _ writes => writes.target
  have same : ∀ other ∈ List.range count,
      (hostAddr table (64 * other) = hostAddr table (64 * line) ↔ other = line) := by
    intro other member
    have otherBound := List.mem_range.mp member
    constructor
    · intro equal
      have linear := hostAddr_injective disjoint (by omega) (by omega) equal
      omega
    · rintro rfl
      rfl
  have once : ((List.range count).map fun line => hostAddr table (64 * line)).countP
      (fun target => target = hostAddr table (64 * line)) = 1 := by
    rw [List.countP_map, ← List.count_eq_one_of_mem List.nodup_range (List.mem_range.mpr bound),
      List.count_eq_countP]
    apply List.countP_congr
    intro other member
    simpa using same other member
  calc writes.countP (fun access => access.target = hostAddr table (64 * line))
      = (writes.map PcieAccess.target).countP
          (fun target => target = hostAddr table (64 * line)) := by
        rw [List.countP_map]
        rfl
    _ = 2 := by
        rw [targets, List.map_append, List.countP_append, once]

end Passes

/-- The device warms a window in two passes over its lines, in order, and writes nothing else. -/
theorem hostWarmCache_lines (chip : Chip) (table : ChunkTable) (rng : Nat → UInt32)
    {winSz : UInt32} (positive : 0 < winSz.toNat) (aligned : winSz.toNat % 64 = 0)
    (window : winSz.toNat ≤ pciebenchMaxMem) (pcie : PcieState) (reads : Nat) :
    ∃ final writes, hostWarmCache chip 22 table rng winSz pcie reads = .ok final ∧
      final.pcie.accesses = pcie.accesses ++ writes ∧
      List.Forall₂ (PcieAccess.WritesLine chip table) writes
        (List.range (winSz.toNat / 64) ++ List.range (winSz.toNat / 64)) ∧
      (∀ trans, trans < 2 * (winSz.toNat / 64) → ∃ access, writes[trans]? = some access ∧
        access.WritesLine chip table (trans % (winSz.toNat / 64))) ∧
      (table.Disjoint → ∀ line, line < winSz.toNat / 64 →
        writes.countP (fun access => access.target = hostAddr table (64 * line)) = 2) ∧
      (table.SingleBar → table.Below chip.reach → pcie.Reached → final.pcie.Reached) := by
  obtain ⟨final, done⟩ :=
    writeRegion_total chip table rng false (shiftInTable_mem window) pcie reads
  have first : chunkDmaAddr table 0 = .ok (table (chunkOf 0)) := rfl
  have lines : (2 * (winSz / 64)).toNat = 2 * (winSz.toNat / 64) := by
    have two : (2 : UInt32).toNat = 2 := rfl
    have line : (64 : UInt32).toNat = 64 := rfl
    have bound := winSz.toNat_lt
    rw [UInt32.toNat_mul, UInt32.toNat_div, two, line]
    omega
  have unrolled := done
  simp only [writeRegion, first, Outcome.ok_bind, lines] at unrolled
  have start : RegionState.AtLine table
      { pcie := pcie.barcfg chip (table (chunkOf 0) >>> 32).toUInt32
          (table (chunkOf 0) &&& 0xffffffff).toUInt32
        addrHi := (table (chunkOf 0) >>> 32).toUInt32
        addrLo := (table (chunkOf 0) &&& 0xffffffff).toUInt32
        oldChunkIdx := 0
        linAddr := 0
        reads } (0 % (winSz.toNat / 64)) := by
    rw [Nat.zero_mod]
    refine ⟨rfl, rfl, ?_⟩
    exact (UInt32.add_zero _).symm
  have inWord : 64 * (0 + 2 * (winSz.toNat / 64)) < 2 ^ 32 := by
    simp only [pciebenchMaxMem_eq] at window
    omega
  obtain ⟨writes, appended, matched⟩ := writeRegionFrom_lines aligned inWord start unrolled
  refine ⟨final, writes, done, appended, ?_, ?_, ?_, ?_⟩
  · rwa [two_passes] at matched
  · intro trans bound
    refine forall₂_getElem? matched ?_
    rw [List.getElem?_map, List.getElem?_range' (by omega), Option.map_some]
    simp
  · intro disjoint line bound
    rw [two_passes] at matched
    exact countP_line disjoint (by omega) bound matched
  · intro single below reached
    exact writeRegion_reached single below done reached

theorem hostWarmCache_lines_half :
    ∃ final writes, hostWarmCache .nfp3200 22 (backToBack 0x40000000) (fun _ => 0) 0x2000000
        { bars := fun _ => 0, accesses := [] } 0 = .ok final ∧
      final.pcie.accesses = writes ∧
      ∃ access, writes[1048575]? = some access ∧
        access.WritesLine .nfp3200 (backToBack 0x40000000) 524287 := by
  obtain ⟨final, writes, done, appended, _, lines, _⟩ := hostWarmCache_lines .nfp3200
    (backToBack 0x40000000) (fun _ => 0) (by decide : 0 < (0x2000000 : UInt32).toNat) (by decide)
    (by decide) { bars := fun _ => 0, accesses := [] } 0
  exact ⟨final, writes, done, appended, lines 1048575 (by decide)⟩

end Pciebench
