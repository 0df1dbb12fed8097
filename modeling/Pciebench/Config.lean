import Mathlib

/-!
Constants and parameter blocks shared by the firmware, the kernel module and the
control program (`pciebench.h`, `shared.c`).
-/

namespace Pciebench

inductive Chip
  | nfp3200
  | nfp6000
  deriving DecidableEq, Repr

def pciebenchMaxMem : Nat := 64 * 1024 * 1024

def pciebenchChunkSz : Nat := 4 * 1024 * 1024

def pciebenchChunks : Nat := pciebenchMaxMem / pciebenchChunkSz

def pciebenchChunkSzMask : UInt32 := UInt32.ofNat (pciebenchChunkSz - 1)

def pciebenchAddrArraySz : Nat := pciebenchMaxMem / 64

def pciebenchAddrArraySzMask : UInt32 := UInt32.ofNat (pciebenchAddrArraySz - 1)

def pciebenchJournalSz : Nat := 16 * 1024 * 1024

def pciebenchLatTrans : Nat := 2 * 1024 * 1024

def pciebenchBwTrans : Nat := 8 * 1024 * 1024

/-- `enum pciebench_tests`, which `NFPBench` repeats. -/
inductive PciebenchTest
  | latCmdRd
  | latCmdWrrd
  | latDmaRd
  | latDmaWrrd
  | bwDmaRd
  | bwDmaWr
  | bwDmaRw
  deriving DecidableEq, Repr

def PciebenchTest.number : PciebenchTest → UInt32
  | latCmdRd => 1
  | latCmdWrrd => 2
  | latDmaRd => 3
  | latDmaWrrd => 4
  | bwDmaRd => 5
  | bwDmaWr => 6
  | bwDmaRw => 7

/-! `enum lat_flags`. The top bit is left to the host. -/

def latFlagsWarm : UInt32 := (1 : UInt32) <<< 0

def latFlagsThrash : UInt32 := (1 : UInt32) <<< 1

def latFlagsRandom : UInt32 := (1 : UInt32) <<< 2

def latFlagsLong : UInt32 := (1 : UInt32) <<< 3

def flagSet (flags flag : UInt32) : Bool :=
  flags &&& flag != 0

structure TestParams where
  p0 : UInt32
  p1 : UInt32
  p2 : UInt32
  p3 : UInt32
  p4 : UInt32
  deriving DecidableEq, Repr

section Sizes

@[simp] theorem pciebenchMaxMem_eq : pciebenchMaxMem = 67108864 := rfl

@[simp] theorem pciebenchChunkSz_eq : pciebenchChunkSz = 4194304 := rfl

theorem pciebenchChunks_eq : pciebenchChunks = 16 := rfl

@[simp] theorem pciebenchAddrArraySz_eq : pciebenchAddrArraySz = 1048576 := rfl

@[simp] theorem pciebenchLatTrans_eq : pciebenchLatTrans = 2097152 := rfl

@[simp] theorem pciebenchBwTrans_eq : pciebenchBwTrans = 8388608 := rfl

@[simp] theorem pciebenchJournalSz_eq : pciebenchJournalSz = 16777216 := rfl

@[simp] theorem pciebenchChunkSzMask_toNat : pciebenchChunkSzMask.toNat = 2 ^ 22 - 1 := rfl

@[simp] theorem pciebenchAddrArraySzMask_toNat :
    pciebenchAddrArraySzMask.toNat = 2 ^ 20 - 1 := rfl

end Sizes

end Pciebench
