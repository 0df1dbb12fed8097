import Mathlib
import Pciebench.LatReport
import Pciebench.WarmCache

/-!
The `Cache` column of the tables against what is done to the host's cache before a test.
-/

namespace Pciebench

section Flags

variable (flags : UInt32)

theorem and_flag {flag : UInt32} {bit : Nat} (single : flag.toNat = 2 ^ bit) :
    flags &&& flag = if flagSet flags flag then flag else 0 := by
  have picked : (flags &&& flag).toNat = (flags.toNat.testBit bit).toNat * 2 ^ bit := by
    rw [UInt32.toNat_and, single, Nat.and_two_pow]
  have choice : flags &&& flag = 0 ∨ flags &&& flag = flag := by
    cases set : flags.toNat.testBit bit with
    | false =>
        left
        apply UInt32.toNat_inj.mp
        rw [picked, set, Bool.toNat_false, Nat.zero_mul, UInt32.toNat_zero]
    | true =>
        right
        apply UInt32.toNat_inj.mp
        rw [picked, set, Bool.toNat_true, Nat.one_mul, single]
  rcases choice with clear | whole
  · simp [flagSet, clear]
  · rw [flagSet, whole]
    split
    · rfl
    · rename_i zero
      simpa using zero

theorem and_flagsCache : flags &&& flagsCache =
    (if flagSet flags latFlagsWarm then latFlagsWarm else 0) |||
      (if flagSet flags latFlagsThrash then latFlagsThrash else 0) |||
      (if flagSet flags flagsHostwarm then flagsHostwarm else 0) := by
  have warm := and_flag flags (show latFlagsWarm.toNat = 2 ^ 0 from rfl)
  have thrash := and_flag flags (show latFlagsThrash.toNat = 2 ^ 1 from rfl)
  have hostwarm := and_flag flags (show flagsHostwarm.toNat = 2 ^ 31 from rfl)
  rw [← warm, ← thrash, ← hostwarm, flagsCache]
  apply UInt32.toNat_inj.mp
  simp only [UInt32.toNat_and, UInt32.toNat_or, Nat.and_or_distrib_left]

variable {flags}

theorem flagsCache_exclusive (one : ¬ onesInBin (flags &&& flagsCache) > 1) :
    (flagSet flags latFlagsWarm = true →
      flagSet flags latFlagsThrash = false ∧ flagSet flags flagsHostwarm = false) ∧
    (flagSet flags latFlagsThrash = true →
      flagSet flags latFlagsWarm = false ∧ flagSet flags flagsHostwarm = false) := by
  rw [and_flagsCache] at one
  revert one
  generalize flagSet flags latFlagsWarm = warm
  generalize flagSet flags latFlagsThrash = thrash
  generalize flagSet flags flagsHostwarm = hostwarm
  cases warm <;> cases thrash <;> cases hostwarm <;> decide

end Flags

section Regions

variable {chip : Chip} {shift : UInt32} {table : ChunkTable} {rng : Nat → UInt32} {winSz : UInt32}
  {rand : Bool}

/-- `lines` more writes of whole lines, and nothing else. -/
def WritesLines (lines : Nat) (before after : PcieState) : Prop :=
  ∃ writes, after.accesses = before.accesses ++ writes ∧ writes.length = lines ∧
    ∀ access ∈ writes, access.write = true ∧ access.command.bytes = 64

theorem writeRegionStep_writes {trans : UInt32} {state next : RegionState}
    (done : writeRegionStep chip shift table rng winSz rand trans state = .ok next) :
    WritesLines 1 state.pcie next.pcie := by
  simp only [writeRegionStep] at done
  obtain ⟨linAddr, _, done⟩ := Outcome.bind_eq_ok.mp done
  obtain ⟨chunkAddr, _, done⟩ := Outcome.bind_eq_ok.mp done
  have written : WritesLines 1 state.pcie (state.pcie.access chip true state.addrHi state.addrLo 64
      (hostAddr table state.linAddr.toNat)) := by
    refine ⟨_, rfl, List.length_singleton, ?_⟩
    intro access member
    rw [List.mem_singleton.mp member]
    exact ⟨rfl, pcieC2pCmd_bytes _ _ _ _ _ _ _⟩
  cases done
  split
  · exact written
  · exact written

theorem WritesLines.trans {first second : Nat} {before between after : PcieState}
    (early : WritesLines first before between) (late : WritesLines second between after) :
    WritesLines (first + second) before after := by
  obtain ⟨writes, appended, count, lines⟩ := early
  obtain ⟨later, laterEq, laterCount, laterLines⟩ := late
  refine ⟨writes ++ later, ?_, ?_, ?_⟩
  · rw [laterEq, appended, List.append_assoc]
  · rw [List.length_append, count, laterCount]
  · intro access member
    rcases List.mem_append.mp member with here | there
    · exact lines access here
    · exact laterLines access there

theorem writesLines_zero (state : PcieState) : WritesLines 0 state state :=
  ⟨[], (List.append_nil _).symm, rfl, fun _ member => absurd member List.not_mem_nil⟩

theorem writeRegionFrom_writes {left : Nat} {trans : UInt32} {state final : RegionState}
    (done : writeRegionFrom chip shift table rng winSz rand left trans state = .ok final) :
    WritesLines left state.pcie final.pcie := by
  induction left generalizing trans state with
  | zero =>
      simp only [writeRegionFrom, Except.ok.injEq] at done
      subst final
      exact writesLines_zero _
  | succ left ih =>
      simp only [writeRegionFrom] at done
      obtain ⟨next, first, rest⟩ := Outcome.bind_eq_ok.mp done
      rw [Nat.add_comm]
      exact (writeRegionStep_writes first).trans (ih rest)

theorem writeRegion_writes {pcie : PcieState} {reads : Nat} {final : RegionState}
    (done : writeRegion chip shift table rng winSz rand pcie reads = .ok final) :
    WritesLines (2 * (winSz / 64)).toNat pcie final.pcie := by
  simp only [writeRegion] at done
  obtain ⟨chunkAddr, _, done⟩ := Outcome.bind_eq_ok.mp done
  obtain ⟨writes, appended, rest⟩ := writeRegionFrom_writes done
  exact ⟨writes, appended, rest⟩

def Region.lines : Region → Nat
  | .trash => 2 * (pciebenchMaxMem / 64)
  | .warm winSz => (2 * (winSz / 64)).toNat

theorem runRegions_writes {regions : List Region} {nfp next : NfpState}
    (done : runRegions chip shift table rng regions nfp = .ok next) :
    WritesLines (regions.map Region.lines).sum nfp.pcie next.pcie := by
  induction regions generalizing nfp with
  | nil =>
      simp only [runRegions, Except.ok.injEq] at done
      subst next
      exact writesLines_zero _
  | cons region rest ih =>
      simp only [runRegions, runRegion] at done
      obtain ⟨between, first, later⟩ := Outcome.bind_eq_ok.mp done
      obtain ⟨written, wrote, made⟩ := Outcome.bind_eq_ok.mp first
      cases made
      rw [List.map_cons, List.sum_cons]
      refine WritesLines.trans ?_ (ih later)
      cases region with
      | trash => exact writeRegion_writes wrote
      | warm winSz => exact writeRegion_writes wrote

end Regions

/-- How many lines the card writes before a test with this label. -/
def deviceLines (label : String) (winSz : UInt32) : Nat :=
  if label = "DWarm" then 2 * (winSz.toNat / 64)
  else if label = "DThrash" then 2 * (pciebenchMaxMem / 64)
  else 0

section Label

variable {args : AddrArgs} (one : ¬ onesInBin (args.flags &&& flagsCache) > 1)

include one

/-- The label names the one thing that is done, if any. -/
theorem cacheStr_regions :
    (cacheStr args.flags = "Cold" ∧ flaggedRegions args = [] ∧ warmArg args.flags args.winSz = 0) ∨
    (cacheStr args.flags = "DWarm" ∧ flaggedRegions args = [.warm args.winSz] ∧
      warmArg args.flags args.winSz = 0) ∨
    (cacheStr args.flags = "DThrash" ∧ flaggedRegions args = [.trash] ∧
      warmArg args.flags args.winSz = 0) ∨
    (cacheStr args.flags = "HWarm" ∧ flaggedRegions args = [] ∧
      warmArg args.flags args.winSz = args.winSz.toNat) := by
  obtain ⟨warmAlone, thrashAlone⟩ := flagsCache_exclusive one
  simp only [cacheStr, flaggedRegions, warmArg]
  cases warm : flagSet args.flags latFlagsWarm with
  | true =>
      obtain ⟨thrash, hostwarm⟩ := warmAlone warm
      simp [thrash, hostwarm]
  | false =>
      cases thrash : flagSet args.flags latFlagsThrash with
      | true =>
          obtain ⟨_, hostwarm⟩ := thrashAlone thrash
          simp [hostwarm]
      | false =>
          cases hostwarm : flagSet args.flags flagsHostwarm <;> simp

end Label

theorem windowChecks_one {winSz flags : UInt32} (passed : windowChecks winSz flags = .ok ()) :
    ¬ onesInBin (flags &&& flagsCache) > 1 := by
  simp only [windowChecks, bind_ok_unit, errIf_ok] at passed
  exact passed.2.2

theorem Accepted.oneCacheFlag {chip : Chip} {test : PciebenchTest} {args : AddrArgs}
    (accepted : Accepted chip test args) : ¬ onesInBin (args.flags &&& flagsCache) > 1 := by
  rcases accepted.1 with lat | bw
  · simp only [latTestChecks, bind_ok_unit] at lat
    exact windowChecks_one lat.2.2.2
  · simp only [bwTestChecks, bind_ok_unit] at bw
    exact windowChecks_one bw.2.2

/-- The label of an accepted request with a window of the buffer says what was done before the
first transaction: how many lines the card wrote, and which bytes of the buffer the host did. -/
theorem cacheStr_tells (chip : Chip) (test : PciebenchTest) (args : AddrArgs)
    (accepted : Accepted chip test args) (winPos : 0 < args.winSz.toNat)
    (window : args.winSz.toNat ≤ pciebenchMaxMem) (uncopied : BufCopy → Nat)
    (readable : ∀ copy, uncopied copy = 0) (npb : NpbBuf) :
    (∀ shift table rng nfp before,
      runRegions chip shift table rng (flaggedRegions args) nfp = .ok before →
        WritesLines (deviceLines (cacheStr args.flags) args.winSz) nfp.pcie before.pcie) ∧
    (∀ byte, (helperWarm uncopied (warmArg args.flags args.winSz) npb).Written byte ↔
      npb.Written byte ∨ cacheStr args.flags = "HWarm" ∧
        BufRange 0 (4096 * ((args.winSz.toNat + 4095) / 4096)) byte) ∧
    (cacheStr args.flags = "DWarm" ↔ flaggedRegions args = [.warm args.winSz]) ∧
    (cacheStr args.flags = "DThrash" ↔ flaggedRegions args = [.trash]) := by
  have one := accepted.oneCacheFlag
  have untouched (byte : Nat × Nat) :
      (helperWarm uncopied ((0 : Nat) : Int) npb).Written byte ↔ npb.Written byte := Iff.rfl
  have lines : (2 * (args.winSz / 64)).toNat = 2 * (args.winSz.toNat / 64) := by
    have two : (2 : UInt32).toNat = 2 := rfl
    have line : (64 : UInt32).toNat = 64 := rfl
    have bound := args.winSz.toNat_lt
    rw [UInt32.toNat_mul, UInt32.toNat_div, two, line]
    omega
  have written (regions : List Region) (count : Nat) (named : flaggedRegions args = regions)
      (counted : (regions.map Region.lines).sum = count) (shift : UInt32) (table : ChunkTable)
      (rng : Nat → UInt32) (nfp before : NfpState)
      (done : runRegions chip shift table rng (flaggedRegions args) nfp = .ok before) :
      WritesLines count nfp.pcie before.pcie := by
    rw [named] at done
    rw [← counted]
    exact runRegions_writes done
  rcases cacheStr_regions one with ⟨label, regions, warm⟩ | ⟨label, regions, warm⟩ |
    ⟨label, regions, warm⟩ | ⟨label, regions, warm⟩
  · refine ⟨written [] _ regions (by simp [label, deviceLines]), ?_, ?_, ?_⟩
    · intro byte
      rw [warm, untouched]
      simp [label]
    · simp [label, regions]
    · simp [label, regions]
  · refine ⟨written [.warm args.winSz] _ regions ?_, ?_, ?_, ?_⟩
    · simp [label, deviceLines, Region.lines, lines]
    · intro byte
      rw [warm, untouched]
      simp [label]
    · simp [label, regions]
    · simp [label, regions]
  · refine ⟨written [.trash] _ regions ?_, ?_, ?_, ?_⟩
    · simp [label, deviceLines, Region.lines]
    · intro byte
      rw [warm, untouched]
      simp [label]
    · simp [label, regions]
    · simp [label, regions]
  · refine ⟨written [] _ regions (by simp [label, deviceLines]), ?_, ?_, ?_⟩
    · intro byte
      rw [warm, helperWarm_written readable winPos window]
      simp [label]
    · simp [label, regions]
    · simp [label, regions]

theorem cacheStr_tells_hostwarm :
    cacheStr 0x80000004 = "HWarm" ∧
      (helperWarm (fun _ => 0) (warmArg 0x80000004 8192)
        { buf := fun _ _ => 0, user := fun _ => 0, copies := [] }).Written (0, 8191) := by
  have tells := cacheStr_tells .nfp6000 .bwDmaRd
    { winSz := 8192, transSz := 64, hOff := 0, flags := 0x80000004 } ⟨.inr rfl, rfl⟩ (by decide)
    (by decide) (fun _ => 0) (fun _ => rfl)
    { buf := fun _ _ => 0, user := fun _ => 0, copies := [] }
  exact ⟨by decide, (tells.2.1 (0, 8191)).mpr (.inr ⟨by decide, 8191, rfl, by decide, by decide⟩)⟩

end Pciebench
