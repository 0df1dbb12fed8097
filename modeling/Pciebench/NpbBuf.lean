import Mathlib
import Pciebench.Config

/-!
The buffer file of the kernel module: `npb_buf_op` walks the chunks in which the buffer was
allocated. Offsets are not negative, and a count is below the limit of the VFS.
-/

namespace Pciebench

/-- One `copy_from_user` (`write`) or `copy_to_user`, between `buf[chunk_idx] + chunk_off` and
`buf + pos`. -/
structure BufCopy where
  write : Bool
  chunkIdx : Nat
  chunkOff : Nat
  pos : Nat
  len : Nat
  deriving DecidableEq, Repr

/-- The memory behind `npb->buf`, the buffer of the caller, and the copies made between them. -/
structure NpbBuf where
  buf : Nat → Nat → UInt8
  user : Nat → UInt8
  copies : List BufCopy

namespace NpbBuf

def copyFromUser (copy : BufCopy) (done : Nat) (npb : NpbBuf) : NpbBuf where
  buf := fun chunkIdx off =>
    if chunkIdx = copy.chunkIdx ∧ copy.chunkOff ≤ off ∧ off < copy.chunkOff + done then
      npb.user (copy.pos + (off - copy.chunkOff))
    else
      npb.buf chunkIdx off
  user := npb.user
  copies := npb.copies ++ [copy]

def copyToUser (copy : BufCopy) (done : Nat) (npb : NpbBuf) : NpbBuf where
  buf := npb.buf
  user := fun pos =>
    if copy.pos ≤ pos ∧ pos < copy.pos + done then
      npb.buf copy.chunkIdx (copy.chunkOff + (pos - copy.pos))
    else
      npb.user pos
  copies := npb.copies ++ [copy]

def copy (copy : BufCopy) (done : Nat) (npb : NpbBuf) : NpbBuf :=
  if copy.write then npb.copyFromUser copy done else npb.copyToUser copy done

end NpbBuf

def bufCopyAt (write : Bool) (offp count pos : Nat) : BufCopy :=
  let chunkIdx := (offp + pos) / pciebenchChunkSz
  let chunkOff := (offp + pos) % pciebenchChunkSz
  let len := count - pos
  { write
    chunkIdx
    chunkOff
    pos
    len := if chunkOff + len > pciebenchChunkSz then pciebenchChunkSz - chunkOff else len }

theorem bufCopyAt_len_pos (write : Bool) (offp : Nat) {count pos : Nat} (more : pos < count) :
    0 < (bufCopyAt write offp count pos).len := by
  have inChunk : (offp + pos) % pciebenchChunkSz < pciebenchChunkSz := Nat.mod_lt _ (by decide)
  simp only [bufCopyAt]
  split <;> omega

/-- The loop of `npb_buf_op`. `uncopied` is what each copy returns, the number of bytes it left
out. The result is the final `pos`, or nothing for the jump to `err_out`. -/
def npbBufOpFrom (write : Bool) (uncopied : BufCopy → Nat) (offp count pos : Nat)
    (npb : NpbBuf) : NpbBuf × Option Nat :=
  if pos < count then
    let copy := bufCopyAt write offp count pos
    let err := uncopied copy
    let npb := npb.copy copy (copy.len - err)
    if err ≠ 0 then
      (npb, none)
    else
      npbBufOpFrom write uncopied offp count (pos + copy.len) npb
  else
    (npb, some pos)
termination_by count - pos
decreasing_by
  have more : pos < count := by assumption
  have progress := bufCopyAt_len_pos write offp more
  omega

def efault : Int := 14

/-- `npb_buf_op`: the buffer, what `*offp` becomes, and the return value. -/
def npbBufOp (write : Bool) (uncopied : BufCopy → Nat) (count offp : Nat) (npb : NpbBuf) :
    NpbBuf × Nat × Int :=
  if count = 0 then
    (npb, offp, 0)
  else if pciebenchMaxMem ≤ offp then
    (npb, offp, 0)
  else
    let count := if offp + count > pciebenchMaxMem then pciebenchMaxMem - offp else count
    match npbBufOpFrom write uncopied offp count 0 npb with
    | (npb, none) => (npb, offp, -efault)
    | (npb, some pos) => (npb, offp + pos, pos)

/-- The byte at a file offset, by chunk and offset in the chunk. -/
def bufByte (offset : Nat) : Nat × Nat :=
  (offset / pciebenchChunkSz, offset % pciebenchChunkSz)

def BufRange (first last : Nat) (byte : Nat × Nat) : Prop :=
  ∃ offset, bufByte offset = byte ∧ first ≤ offset ∧ offset < last

def BufCopy.Holds (copy : BufCopy) (byte : Nat × Nat) : Prop :=
  byte.1 = copy.chunkIdx ∧ copy.chunkOff ≤ byte.2 ∧ byte.2 < copy.chunkOff + copy.len

def NpbBuf.Written (npb : NpbBuf) (byte : Nat × Nat) : Prop :=
  ∃ copy ∈ npb.copies, copy.write = true ∧ copy.Holds byte

section Ranges

variable {first middle last : Nat} {byte : Nat × Nat}

theorem bufRange_empty : ¬ BufRange first first byte := by
  rintro ⟨offset, _, lower, upper⟩
  omega

theorem bufRange_split (lower : first ≤ middle) (upper : middle ≤ last) :
    BufRange first middle byte ∨ BufRange middle last byte ↔ BufRange first last byte := by
  constructor
  · rintro (⟨offset, place, above, below⟩ | ⟨offset, place, above, below⟩)
    · exact ⟨offset, place, above, by omega⟩
    · exact ⟨offset, place, by omega, below⟩
  · rintro ⟨offset, place, above, below⟩
    by_cases left : offset < middle
    · exact .inl ⟨offset, place, above, left⟩
    · exact .inr ⟨offset, place, by omega, below⟩

end Ranges

section Copy

variable (write : Bool) (offp count pos : Nat)

theorem bufCopyAt_len_le : (bufCopyAt write offp count pos).len ≤ count - pos := by
  simp only [bufCopyAt]
  split <;> omega

theorem bufCopyAt_inChunk :
    (bufCopyAt write offp count pos).chunkOff + (bufCopyAt write offp count pos).len ≤
      pciebenchChunkSz := by
  have inChunk : (offp + pos) % pciebenchChunkSz < pciebenchChunkSz := Nat.mod_lt _ (by decide)
  simp only [bufCopyAt]
  split <;> omega

theorem bufCopyAt_holds (byte : Nat × Nat) :
    (bufCopyAt write offp count pos).Holds byte ↔
      BufRange (offp + pos) (offp + pos + (bufCopyAt write offp count pos).len) byte := by
  have inChunk := bufCopyAt_inChunk write offp count pos
  obtain ⟨chunkIdx, off⟩ := byte
  simp only [BufCopy.Holds, BufRange, bufByte, Prod.mk.injEq]
  generalize (bufCopyAt write offp count pos).len = len at *
  simp only [bufCopyAt, pciebenchChunkSz_eq] at *
  constructor
  · rintro ⟨sameChunk, lower, upper⟩
    exact ⟨chunkIdx * 4194304 + off, by omega, by omega, by omega⟩
  · rintro ⟨offset, ⟨sameChunk, sameOff⟩, lower, upper⟩
    omega

end Copy

theorem NpbBuf.written_copy (copy : BufCopy) (isWrite : copy.write = true) (done : Nat)
    (npb : NpbBuf) (byte : Nat × Nat) :
    (npb.copy copy done).Written byte ↔ npb.Written byte ∨ copy.Holds byte := by
  have copies : (npb.copy copy done).copies = npb.copies ++ [copy] := by
    rw [NpbBuf.copy, if_pos isWrite]
    rfl
  rw [Written, copies]
  simp only [List.mem_append, List.mem_singleton, or_and_right, exists_or, exists_eq_left,
    isWrite, true_and]
  rfl

section Loop

variable {uncopied : BufCopy → Nat} (succeeds : ∀ copy, uncopied copy = 0)
  (offp : Nat)

include succeeds

theorem npbBufOpFrom_written {count pos : Nat} (start : pos ≤ count) (npb : NpbBuf) :
    (npbBufOpFrom true uncopied offp count pos npb).2 = some count ∧
      ∀ byte, (npbBufOpFrom true uncopied offp count pos npb).1.Written byte ↔
        npb.Written byte ∨ BufRange (offp + pos) (offp + count) byte := by
  induction pos, npb using npbBufOpFrom.induct true uncopied offp count with
  | case1 pos npb more copy err failed => exact absurd (succeeds copy) failed
  | case2 pos npb more copy err next done ih =>
      have lenLe : copy.len ≤ count - pos := bufCopyAt_len_le true offp count pos
      obtain ⟨result, written⟩ := ih (by omega)
      have unfolded : npbBufOpFrom true uncopied offp count pos npb =
          npbBufOpFrom true uncopied offp count (pos + copy.len) next := by
        rw [npbBufOpFrom, if_pos more]
        exact if_neg done
      rw [unfolded]
      refine ⟨result, ?_⟩
      intro byte
      rw [written, NpbBuf.written_copy copy rfl, bufCopyAt_holds, or_assoc, ← Nat.add_assoc]
      change npb.Written byte ∨ BufRange (offp + pos) (offp + pos + copy.len) byte ∨ _ ↔ _
      rw [bufRange_split (Nat.le_add_right _ _) (by omega)]
  | case3 pos npb rest =>
      have full : pos = count := by omega
      rw [npbBufOpFrom, if_neg rest, full]
      refine ⟨rfl, ?_⟩
      intro byte
      simp only [bufRange_empty, or_false]

theorem npbBufOp_written {count : Nat} (inside : offp + count ≤ pciebenchMaxMem) (npb : NpbBuf) :
    ∃ after, npbBufOp true uncopied count offp npb = (after, offp + count, (count : Int)) ∧
      ∀ byte, after.Written byte ↔ npb.Written byte ∨ BufRange offp (offp + count) byte := by
  by_cases empty : count = 0
  · subst count
    refine ⟨npb, by simp [npbBufOp], ?_⟩
    intro byte
    simp only [Nat.add_zero, bufRange_empty, or_false]
  · obtain ⟨result, written⟩ := npbBufOpFrom_written succeeds offp (Nat.zero_le count) npb
    refine ⟨(npbBufOpFrom true uncopied offp count 0 npb).1, ?_, written⟩
    have clamped : ¬ offp + count > pciebenchMaxMem := by omega
    have before : ¬ pciebenchMaxMem ≤ offp := by omega
    simp only [npbBufOp, empty, before, clamped, if_false]
    generalize npbBufOpFrom true uncopied offp count 0 npb = done at *
    obtain ⟨after, pos⟩ := done
    cases result
    rfl

end Loop

end Pciebench
