import Mathlib
import Pciebench.ChunkAddrs
import Pciebench.HostChecks
import Pciebench.NpbBuf
import Pciebench.SequentialScan

/-!
How the host warms a window: `run_test` passes its size to the helper program, whose `warm_cache`
writes whole pages to the buffer file.
-/

namespace Pciebench

structure BufFile where
  npb : NpbBuf
  offp : Nat

/-- `page`, as the helper fills it, byte by byte. -/
def warmPage (pos : Nat) : UInt8 :=
  ((0xf00d0000 + 1 : UInt32) >>> UInt32.ofNat (8 * (pos % 4))).toUInt8

/-- `write(fd, page, sizeof(page))`, whose result the helper ignores. -/
def writePage (uncopied : BufCopy → Nat) (file : BufFile) : BufFile :=
  let (npb, offp, _) := npbBufOp true uncopied 4096 file.offp { file.npb with user := warmPage }
  { npb, offp }

def writePages (uncopied : BufCopy → Nat) : Nat → BufFile → BufFile
  | 0, file => file
  | left + 1, file => writePages uncopied left (writePage uncopied file)

def numPages (winSz : Int) : Int :=
  (winSz - 1).tdiv 4096 + 1

def warmPasses (uncopied : BufCopy → Nat) (winSz : Int) : Nat → BufFile → BufFile
  | 0, file => file
  | left + 1, file =>
      warmPasses uncopied winSz left
        (writePages uncopied (numPages winSz).toNat { file with offp := 0 })

def warmCache (uncopied : BufCopy → Nat) (winSz : Int) (npb : NpbBuf) : NpbBuf :=
  (warmPasses uncopied winSz 4 { npb, offp := 0 }).npb

/-- What `run_test` passes to the helper as `-w`. -/
def warmArg (flags winSz : UInt32) : Nat :=
  if flagSet flags flagsHostwarm then winSz.toNat else 0

def helperWarm (uncopied : BufCopy → Nat) (optWin : Int) (npb : NpbBuf) : NpbBuf :=
  if optWin ≠ 0 then warmCache uncopied optWin npb else npb

section Pages

variable {uncopied : BufCopy → Nat} (succeeds : ∀ copy, uncopied copy = 0)

include succeeds

theorem writePage_written (file : BufFile) (inside : file.offp + 4096 ≤ pciebenchMaxMem) :
    (writePage uncopied file).offp = file.offp + 4096 ∧
      ∀ byte, (writePage uncopied file).npb.Written byte ↔
        file.npb.Written byte ∨ BufRange file.offp (file.offp + 4096) byte := by
  obtain ⟨after, result, written⟩ := npbBufOp_written succeeds file.offp inside
    { file.npb with user := warmPage }
  simp only [writePage, result, true_and]
  exact written

theorem writePages_written (pages : Nat) (file : BufFile)
    (inside : file.offp + 4096 * pages ≤ pciebenchMaxMem) (byte : Nat × Nat) :
    (writePages uncopied pages file).npb.Written byte ↔
      file.npb.Written byte ∨ BufRange file.offp (file.offp + 4096 * pages) byte := by
  induction pages generalizing file with
  | zero => simp only [writePages, Nat.mul_zero, Nat.add_zero, bufRange_empty, or_false]
  | succ pages ih =>
      have later : file.offp + 4096 + 4096 * pages = file.offp + 4096 * (pages + 1) := by
        rw [Nat.mul_succ, Nat.add_right_comm, Nat.add_assoc]
      rw [← later] at inside ⊢
      obtain ⟨offp, written⟩ := writePage_written succeeds file (Nat.le_of_add_right_le inside)
      rw [← offp] at inside ⊢
      rw [writePages, ih _ inside, written, or_assoc, offp,
        bufRange_split (Nat.le_add_right _ _) (Nat.le_add_right _ _)]

theorem warmPasses_written (winSz : Int) (passes : Nat) (file : BufFile)
    (inside : 4096 * (numPages winSz).toNat ≤ pciebenchMaxMem) (some : passes ≠ 0)
    (byte : Nat × Nat) :
    (warmPasses uncopied winSz passes file).npb.Written byte ↔
      file.npb.Written byte ∨ BufRange 0 (4096 * (numPages winSz).toNat) byte := by
  induction passes generalizing file with
  | zero => contradiction
  | succ passes ih =>
      have first := writePages_written succeeds (numPages winSz).toNat { file with offp := 0 }
      simp only [Nat.zero_add] at first
      rw [warmPasses]
      cases passes with
      | zero => exact first inside byte
      | succ passes => rw [ih _ (Nat.succ_ne_zero _), first inside byte, or_assoc, or_self]

end Pages

theorem numPages_toNat {winSz : Nat} (some : 0 < winSz) :
    (numPages winSz).toNat = (winSz + 4095) / 4096 := by
  have whole : numPages winSz = ((winSz + 4095) / 4096 : Nat) := by
    rw [numPages, Int.tdiv_eq_ediv_of_nonneg (by omega)]
    omega
  rw [whole, Int.toNat_natCast]

theorem helperWarm_written {uncopied : BufCopy → Nat} (succeeds : ∀ copy, uncopied copy = 0)
    {winSz : Nat} (some : 0 < winSz) (window : winSz ≤ pciebenchMaxMem) (npb : NpbBuf)
    (byte : Nat × Nat) :
    (helperWarm uncopied winSz npb).Written byte ↔
      npb.Written byte ∨ BufRange 0 (4096 * ((winSz + 4095) / 4096)) byte := by
  have asked : (winSz : Int) ≠ 0 := by omega
  have pages := numPages_toNat some
  have inside : 4096 * (numPages winSz).toNat ≤ pciebenchMaxMem := by
    rw [pages]
    rw [pciebenchMaxMem_eq] at window ⊢
    omega
  rw [helperWarm, if_pos asked, warmCache,
    warmPasses_written succeeds winSz 4 _ inside (by decide), pages]

section Device

variable {table : ChunkTable} {busByte : Nat → Option (Nat × Nat)}

/-- Each chunk is mapped for the device as one piece. -/
def Mapped (busByte : Nat → Option (Nat × Nat)) (bufDmaAddrs : ChunkTable) : Prop :=
  ∀ chunk off, off < pciebenchChunkSz →
    busByte ((bufDmaAddrs chunk).toNat + off) = some (chunk.val, off)

theorem Mapped.hostAddr (mapped : Mapped busByte table) {linAddr : Nat}
    (inMem : linAddr < pciebenchMaxMem) :
    busByte (hostAddr table linAddr) = some (bufByte linAddr) := by
  rw [Pciebench.hostAddr, mapped _ _ (Nat.mod_lt _ (by decide)), chunkOf_val inMem]
  rfl

end Device

def warmedLines : AddrArgs where
  winSz := 8192
  transSz := 64
  hOff := 0
  flags := 0x80000000

def identityBus (addr : Nat) : Option (Nat × Nat) :=
  if 0x40000000 ≤ addr then some (bufByte (addr - 0x40000000)) else none

theorem identityBus_mapped : Mapped identityBus (backToBack 0x40000000) := by
  intro chunk off inChunk
  have start : (0x40000000 : UInt64).toNat = 0x40000000 := rfl
  rw [backToBack_toNat (by decide), start, identityBus, if_pos (by omega), bufByte]
  have position : 0x40000000 + chunk.val * pciebenchChunkSz + off - 0x40000000 =
      off + chunk.val * pciebenchChunkSz := by omega
  rw [position, Nat.add_mul_div_right _ _ (by decide), Nat.add_mul_mod_self_right,
    Nat.div_eq_of_lt inChunk, Nat.mod_eq_of_lt inChunk, Nat.zero_add]

end Pciebench
