import Mathlib
import Pciebench.Lib.Blit
import Pciebench.Lib.SignedWords
import Pciebench.NpbBuf

/-!
`npb_buf_op` in the types of the source: `int` positions in a chunk, a `size_t` count and a
`loff_t` offset. On what the VFS passes in it does what `npbBufOp` does, and the buffer file is
one flat array.
-/

namespace Pciebench

open Blit

/-- A copy between `npb->buf[chunkIdx] + chunkOff` and `buf + pos`, with its length. There is
none where an index leaves `npb->buf`. -/
def bufCopyTyped (write : Bool) (chunkIdx chunkOff pos len : Int32) : Option (BufCopy × Int32) :=
  if chunkIdx < 0 ∨ chunkIdx ≥ 16 ∨ chunkOff < 0 ∨ pos < 0 ∨ len < 0 then
    none
  else
    let copy : BufCopy :=
      { write
        chunkIdx := chunkIdx.toNatClampNeg
        chunkOff := chunkOff.toNatClampNeg
        pos := pos.toNatClampNeg
        len := len.toNatClampNeg }
    some (copy, len)

def npbBufPass (write : Bool) (offp : Int64) (count : UInt64) (pos : Int32) :
    Option (BufCopy × Int32) :=
  let chunkIdx := ((offp + pos.toInt64) / 4194304).toInt32
  let chunkOff := ((offp + pos.toInt64) % 4194304).toInt32
  let len := (count - pos.toInt64.toUInt64).toInt64.toInt32
  let len := if chunkOff + len > 4194304 then 4194304 - chunkOff else len
  bufCopyTyped write chunkIdx chunkOff pos len

/-- The loop, as long as there is fuel. -/
def npbBufPasses (write : Bool) (uncopied : BufCopy → Nat) (offp : Int64) (count : UInt64) :
    Nat → Int32 → NpbBuf → Option (NpbBuf × Option Int32)
  | 0, _, _ => none
  | fuel + 1, pos, npb =>
      if pos.toInt64.toUInt64 < count then
        match npbBufPass write offp count pos with
        | none => none
        | some (copy, len) =>
            let err := uncopied copy
            let npb := npb.copy copy (copy.len - err)
            if err ≠ 0 then
              some (npb, none)
            else
              npbBufPasses write uncopied offp count fuel (pos + len) npb
      else
        some (npb, some pos)

/-- `npb_buf_op`. Nothing comes out when the fuel does not last, or an index leaves
`npb->buf`. -/
def npbBufOpTyped (fuel : Nat) (write : Bool) (uncopied : BufCopy → Nat) (count : UInt64)
    (offp : Int64) (npb : NpbBuf) : Option (NpbBuf × Int64 × Int64) :=
  if count = 0 then
    some (npb, offp, 0)
  else if offp ≥ 67108864 then
    some (npb, offp, 0)
  else
    let count := if offp.toUInt64 + count > 67108864 then (67108864 - offp).toUInt64 else count
    match npbBufPasses write uncopied offp count fuel 0 npb with
    | none => none
    | some (npb, none) => some (npb, offp, -14)
    | some (npb, some pos) => some (npb, offp + pos.toInt64, pos.toInt64)

theorem clamp_eq {word : Int32} {value : Nat} (isWord : word.toInt = value) :
    word.toNatClampNeg = value ∧ ¬ word < 0 := by
  refine ⟨?_, ?_⟩
  · rw [Int32.toNatClampNeg, isWord, Int.toNat_natCast]
  · rw [Int32.lt_iff_toInt_lt, isWord]
    exact not_lt.mpr (Int.natCast_nonneg value)

theorem bufCopyTyped_eq {chunkIdx chunkOff pos len : Int32} {copy : BufCopy}
    (isIdx : chunkIdx.toInt = copy.chunkIdx) (isOff : chunkOff.toInt = copy.chunkOff)
    (isPos : pos.toInt = copy.pos) (isLen : len.toInt = copy.len) (inBuf : copy.chunkIdx < 16) :
    bufCopyTyped copy.write chunkIdx chunkOff pos len = some (copy, len) := by
  obtain ⟨idxEq, idxStart⟩ := clamp_eq isIdx
  obtain ⟨offEq, offStart⟩ := clamp_eq isOff
  obtain ⟨posEq, posStart⟩ := clamp_eq isPos
  obtain ⟨lenEq, lenStart⟩ := clamp_eq isLen
  have idxLast : ¬ chunkIdx ≥ 16 := by
    have sixteen : (16 : Int32).toInt = (16 : Nat) := rfl
    rw [ge_iff_le, Int32.le_iff_toInt_le, isIdx, sixteen]
    omega
  simp only [bufCopyTyped, idxStart, idxLast, offStart, posStart, lenStart, or_self, if_false,
    idxEq, offEq, posEq, lenEq]

section Pass

variable {offp : Int64} {count : UInt64} {pos : Int32} {offset size place : Nat}
  (isOffset : offp.toInt = offset) (isCount : count.toNat = size) (isPos : pos.toInt = place)
  (inside : offset + size ≤ pciebenchMaxMem) (more : place < size)

include isOffset isCount isPos inside more

theorem npbBufPass_eq (write : Bool) : ∃ len : Int32,
    len.toInt = (bufCopyAt write offset size place).len ∧
      npbBufPass write offp count pos = some (bufCopyAt write offset size place, len) := by
  have limit := pciebenchMaxMem_eq
  have chunk := pciebenchChunkSz_eq
  have chunk64 : (4194304 : Int64).toInt = (4194304 : Nat) := rfl
  have chunk32 : (4194304 : Int32).toInt = (4194304 : Nat) := rfl
  have pos64 : pos.toInt64.toInt = place := by rw [Int32.toInt_toInt64, isPos]
  have at64 := SignedWords.toInt_add64 isOffset pos64 (by omega)
  have chunkIdx := SignedWords.toInt_toInt32 (SignedWords.toInt_div64 at64 chunk64) (by omega)
  have chunkOff := SignedWords.toInt_toInt32 (SignedWords.toInt_mod64 at64 chunk64) (by omega)
  have posWord : pos.toInt64.toUInt64.toNat = place := SignedWords.toNat_toUInt64 pos64
  have rest : (count - pos.toInt64.toUInt64).toNat = size - place := by
    rw [UInt64.toNat_sub_of_le _ _ (UInt64.le_iff_toNat_le.mpr (by omega)), isCount, posWord]
  have restLen := SignedWords.toInt_toInt32
    (SignedWords.toInt_toInt64 rest (by omega)) (by omega)
  have lenEq : (if ((offp + pos.toInt64) % 4194304).toInt32 +
        (count - pos.toInt64.toUInt64).toInt64.toInt32 > 4194304 then
        4194304 - ((offp + pos.toInt64) % 4194304).toInt32
      else (count - pos.toInt64.toUInt64).toInt64.toInt32).toInt =
        (bufCopyAt write offset size place).len := by
    have sum := SignedWords.toInt_add32 chunkOff restLen (by omega)
    simp only [gt_iff_lt, Int32.lt_iff_toInt_lt, sum, chunk32, Nat.cast_lt, bufCopyAt, chunk]
    split
    · exact SignedWords.toInt_sub32 chunk32 chunkOff (by omega)
    · exact restLen
  refine ⟨_, lenEq, ?_⟩
  refine bufCopyTyped_eq ?_ ?_ isPos lenEq ?_
  · rw [chunkIdx]
    rfl
  · rw [chunkOff]
    rfl
  · change (offset + place) / 4194304 < 16
    omega

end Pass

section Refinement

variable {offp : Int64} {count : UInt64} {offset size : Nat} (write : Bool)
  (uncopied : BufCopy → Nat) (isOffset : offp.toInt = offset)

include isOffset

theorem npbBufPasses_eq (isCount : count.toNat = size)
    (inside : offset + size ≤ pciebenchMaxMem) {fuel place : Nat} (enough : size - place < fuel)
    {pos : Int32} (isPos : pos.toInt = place) (npb : NpbBuf) :
    ∃ result, npbBufPasses write uncopied offp count fuel pos npb =
        some ((npbBufOpFrom write uncopied offset size place npb).1, result) ∧
      result.map Int32.toInt =
        (npbBufOpFrom write uncopied offset size place npb).2.map Nat.cast := by
  have limit := pciebenchMaxMem_eq
  induction fuel generalizing place pos npb with
  | zero => omega
  | succ fuel ih =>
      have posWord : pos.toInt64.toUInt64.toNat = place :=
        SignedWords.toNat_toUInt64 (by rw [Int32.toInt_toInt64, isPos])
      have test : pos.toInt64.toUInt64 < count ↔ place < size := by
        rw [UInt64.lt_iff_toNat_lt, posWord, isCount]
      rw [npbBufPasses, npbBufOpFrom]
      by_cases more : place < size
      · obtain ⟨len, isLen, pass⟩ := npbBufPass_eq isOffset isCount isPos inside more write
        have progress := bufCopyAt_len_pos write offset more
        have bounded := bufCopyAt_len_le write offset size place
        rw [if_pos (test.mpr more), if_pos more, pass]
        dsimp only
        by_cases failed : uncopied (bufCopyAt write offset size place) ≠ 0
        · rw [if_pos failed, if_pos failed]
          exact ⟨none, rfl, rfl⟩
        · rw [if_neg failed, if_neg failed]
          exact ih (by omega) (SignedWords.toInt_add32 isPos isLen (by omega)) _
      · rw [if_neg (mt test.mp more), if_neg more]
        exact ⟨some pos, rfl, congrArg some isPos⟩

theorem npbBufOpTyped_eq (isCount : count.toNat = size) (bounded : size < 2 ^ 31) {fuel : Nat}
    (enough : size < fuel) (npb : NpbBuf) :
    ∃ next ret, npbBufOpTyped fuel write uncopied count offp npb =
        some ((npbBufOp write uncopied size offset npb).1, next, ret) ∧
      next.toInt = (npbBufOp write uncopied size offset npb).2.1 ∧
      ret.toInt = (npbBufOp write uncopied size offset npb).2.2 := by
  have limit := pciebenchMaxMem_eq
  have maxMem : (67108864 : Int64).toInt = (67108864 : Nat) := rfl
  rw [npbBufOpTyped, npbBufOp]
  by_cases empty : size = 0
  · have zero : count = 0 := UInt64.toNat_inj.mp (isCount.trans empty)
    rw [if_pos zero, if_pos empty]
    exact ⟨offp, 0, rfl, isOffset, rfl⟩
  have nonzero : count ≠ 0 := fun zero => empty (isCount.symm.trans (zero ▸ rfl))
  rw [if_neg nonzero, if_neg empty]
  by_cases beyond : pciebenchMaxMem ≤ offset
  · have past : offp ≥ 67108864 := by
      rw [ge_iff_le, Int64.le_iff_toInt_le, isOffset, maxMem]
      omega
    rw [if_pos past, if_pos beyond]
    exact ⟨offp, 0, rfl, isOffset, rfl⟩
  have before : ¬ offp ≥ 67108864 := by
    rw [ge_iff_le, Int64.le_iff_toInt_le, isOffset, maxMem]
    omega
  rw [if_neg before, if_neg beyond]
  have offWord : offp.toUInt64.toNat = offset := SignedWords.toNat_toUInt64 isOffset
  have sum : (offp.toUInt64 + count).toNat = offset + size := by
    rw [UInt64.toNat_add, offWord, isCount]
    omega
  have max64 : (67108864 : UInt64).toNat = 67108864 := rfl
  have room : (67108864 - offp).toInt = (67108864 - offset : Nat) :=
    SignedWords.toInt_sub64 maxMem isOffset (by omega)
  have clamped : (if offp.toUInt64 + count > 67108864 then (67108864 - offp).toUInt64
      else count).toNat =
        if offset + size > pciebenchMaxMem then pciebenchMaxMem - offset else size := by
    simp only [gt_iff_lt, UInt64.lt_iff_toNat_lt, sum, max64, limit]
    split
    · exact SignedWords.toNat_toUInt64 room
    · exact isCount
  have inside : offset + (if offset + size > pciebenchMaxMem then pciebenchMaxMem - offset
      else size) ≤ pciebenchMaxMem := by
    split <;> omega
  have lasts : (if offset + size > pciebenchMaxMem then pciebenchMaxMem - offset else size) - 0 <
      fuel := by
    split <;> omega
  obtain ⟨result, ran, same⟩ := npbBufPasses_eq write uncopied isOffset clamped inside lasts
    (rfl : (0 : Int32).toInt = (0 : Nat)) npb
  dsimp only
  rw [ran]
  generalize npbBufOpFrom write uncopied offset _ 0 npb = done at same ⊢
  obtain ⟨after, pos⟩ := done
  cases result with
  | none =>
      cases pos with
      | none => exact ⟨offp, -14, rfl, isOffset, rfl⟩
      | some place => cases same
  | some word =>
      cases pos with
      | none => cases same
      | some place =>
          have isWord : word.toInt = place := Option.some.inj same
          have word64 : word.toInt64.toInt = place := by rw [Int32.toInt_toInt64, isWord]
          have bound := word.toInt_lt
          exact ⟨offp + word.toInt64, word.toInt64, rfl,
            SignedWords.toInt_add64 isOffset word64 (by omega), word64⟩

end Refinement

namespace NpbBuf

def file (npb : NpbBuf) : Nat → UInt8 :=
  flat pciebenchChunkSz npb.buf

/-- `count` bytes went between position `pos` of the user buffer and `offset` of the file, and
every other byte is as it was. -/
def Moved (write : Bool) (offset pos count : Nat) (before after : NpbBuf) : Prop :=
  match write with
  | true =>
      after.file = blit before.user pos before.file offset count ∧ after.user = before.user ∧
        ∀ chunkIdx off, pciebenchChunkSz ≤ off →
          after.buf chunkIdx off = before.buf chunkIdx off
  | false => after.user = blit before.file offset before.user pos count ∧ after.buf = before.buf

variable {write : Bool} {offset pos count : Nat} {before between after : NpbBuf}

theorem moved_zero : Moved write offset pos 0 before before := by
  cases write with
  | true => exact ⟨blit_zero.symm, rfl, fun _ _ _ => rfl⟩
  | false => exact ⟨blit_zero.symm, rfl⟩

theorem Moved.append {more : Nat} (first : Moved write offset pos count before between)
    (second : Moved write (offset + count) (pos + count) more between after) :
    Moved write offset pos (count + more) before after := by
  cases write with
  | true =>
      obtain ⟨firstFile, firstUser, firstRest⟩ := first
      obtain ⟨secondFile, secondUser, secondRest⟩ := second
      refine ⟨?_, secondUser.trans firstUser, ?_⟩
      · rw [secondFile, firstUser, firstFile, blit_append]
      · intro chunkIdx off beyond
        rw [secondRest chunkIdx off beyond, firstRest chunkIdx off beyond]
  | false =>
      obtain ⟨firstUser, firstBuf⟩ := first
      obtain ⟨secondUser, secondBuf⟩ := second
      have sameFile : between.file = before.file := by rw [file, file, firstBuf]
      refine ⟨?_, secondBuf.trans firstBuf⟩
      rw [secondUser, firstUser, sameFile, blit_append]

theorem moved_copy (write : Bool) (offp count pos : Nat) (npb : NpbBuf) :
    Moved write (offp + pos) pos (bufCopyAt write offp count pos).len npb
      (npb.copy (bufCopyAt write offp count pos) (bufCopyAt write offp count pos).len) := by
  have inChunk : (offp + pos) % pciebenchChunkSz + (bufCopyAt write offp count pos).len ≤
      pciebenchChunkSz := bufCopyAt_inChunk write offp count pos
  have place : (offp + pos) / pciebenchChunkSz * pciebenchChunkSz +
      (offp + pos) % pciebenchChunkSz = offp + pos := Nat.div_add_mod' _ _
  generalize lenEq : (bufCopyAt write offp count pos).len = len at *
  cases write with
  | true =>
      refine ⟨?_, rfl, ?_⟩
      · have whole : flat pciebenchChunkSz (blitChunk npb.user pos npb.buf
            ((offp + pos) / pciebenchChunkSz) ((offp + pos) % pciebenchChunkSz) len) = _ :=
          flat_blitChunk inChunk npb.buf
        rw [place] at whole
        exact whole
      · intro chunkIdx off beyond
        exact blitChunk_beyond inChunk npb.buf beyond
  | false =>
      refine ⟨?_, rfl⟩
      funext index
      change (if pos ≤ index ∧ index < pos + len then
        npb.buf ((offp + pos) / pciebenchChunkSz)
          ((offp + pos) % pciebenchChunkSz + (index - pos)) else _) = _
      rw [blit]
      by_cases copied : pos ≤ index ∧ index < pos + len
      · have inside : (offp + pos) % pciebenchChunkSz + (index - pos) < pciebenchChunkSz := by
          omega
        rw [if_pos copied, if_pos copied, ← flat_of_lt inside npb.buf, ← Nat.add_assoc, place]
        rfl
      · rw [if_neg copied, if_neg copied]

end NpbBuf

section Transfers

variable {write : Bool} {uncopied : BufCopy → Nat} {offp count pos : Nat} {npb : NpbBuf}

theorem NpbBuf.copies_copy (copy : BufCopy) (done : Nat) (npb : NpbBuf) :
    (npb.copy copy done).copies = npb.copies ++ [copy] := by
  rw [NpbBuf.copy]
  split <;> rfl

/-- What the passes from `pos` on came to, with the copies that they made. -/
structure Transfers (write : Bool) (uncopied : BufCopy → Nat) (offp count pos : Nat)
    (npb : NpbBuf) (made : List BufCopy) (result : NpbBuf × Option Nat) : Prop where
  copies : result.1.copies = npb.copies ++ made
  places : ∀ copy ∈ made, ∃ place < count, copy = bufCopyAt write offp count place
  failed : (∃ copy ∈ made, uncopied copy ≠ 0) → result.2 = none
  moved : (∀ copy ∈ made, uncopied copy = 0) →
    result.2 = some count ∧ NpbBuf.Moved write (offp + pos) pos (count - pos) npb result.1

theorem transfers_end : Transfers write uncopied offp count count npb [] (npb, some count) where
  copies := (List.append_nil _).symm
  places := fun _ member => nomatch member
  failed := fun ⟨_, member, _⟩ => nomatch member
  moved := by
    intro _
    rw [Nat.sub_self]
    exact ⟨rfl, NpbBuf.moved_zero⟩

theorem transfers_failed (more : pos < count)
    (failed : uncopied (bufCopyAt write offp count pos) ≠ 0) (done : Nat) :
    Transfers write uncopied offp count pos npb [bufCopyAt write offp count pos]
      (npb.copy (bufCopyAt write offp count pos) done, none) where
  copies := NpbBuf.copies_copy _ done npb
  places := by
    intro copy member
    exact ⟨pos, more, List.mem_singleton.mp member⟩
  failed := fun _ => rfl
  moved := fun allCopied => absurd (allCopied _ List.mem_cons_self) failed

theorem Transfers.step {made : List BufCopy} {result : NpbBuf × Option Nat} (more : pos < count)
    (copied : uncopied (bufCopyAt write offp count pos) = 0)
    (later : Transfers write uncopied offp count (pos + (bufCopyAt write offp count pos).len)
      (npb.copy (bufCopyAt write offp count pos) (bufCopyAt write offp count pos).len) made
      result) :
    Transfers write uncopied offp count pos npb (bufCopyAt write offp count pos :: made)
      result where
  copies := by
    rw [later.copies, NpbBuf.copies_copy, List.append_assoc]
    rfl
  places := by
    intro copy member
    rcases List.mem_cons.mp member with first | rest
    · exact ⟨pos, more, first⟩
    · exact later.places copy rest
  failed := by
    rintro ⟨copy, member, failed⟩
    rcases List.mem_cons.mp member with first | rest
    · exact absurd (first ▸ copied) failed
    · exact later.failed ⟨copy, rest, failed⟩
  moved := by
    intro allCopied
    have bounded := bufCopyAt_len_le write offp count pos
    obtain ⟨finished, rest⟩ :=
      later.moved (fun copy member => allCopied copy (List.mem_cons_of_mem _ member))
    rw [← Nat.add_assoc] at rest
    have whole := (NpbBuf.moved_copy write offp count pos npb).append rest
    rw [show (bufCopyAt write offp count pos).len +
      (count - (pos + (bufCopyAt write offp count pos).len)) = count - pos by omega] at whole
    exact ⟨finished, whole⟩

variable (write uncopied offp) in
theorem npbBufOpFrom_transfers (start : pos ≤ count) (npb : NpbBuf) :
    ∃ made, Transfers write uncopied offp count pos npb made
      (npbBufOpFrom write uncopied offp count pos npb) := by
  induction pos, npb using npbBufOpFrom.induct write uncopied offp count with
  | case1 pos npb more copy err failed =>
      rw [npbBufOpFrom, if_pos more]
      dsimp only
      rw [if_pos failed]
      exact ⟨[copy], transfers_failed more failed _⟩
  | case2 pos npb more copy err next done ih =>
      have bounded : copy.len ≤ count - pos := bufCopyAt_len_le write offp count pos
      have copied : uncopied copy = 0 := not_not.mp done
      obtain ⟨made, later⟩ := ih (by omega)
      rw [npbBufOpFrom, if_pos more]
      dsimp only
      rw [if_neg done]
      refine ⟨copy :: made, Transfers.step more copied ?_⟩
      change Transfers write uncopied offp count _ (npb.copy copy (copy.len - uncopied copy)) _ _
        at later
      rwa [copied] at later
  | case3 pos npb rest =>
      have full : pos = count := by omega
      subst pos
      rw [npbBufOpFrom, if_neg rest]
      exact ⟨[], transfers_end⟩

end Transfers

section File

/-- The bytes that a request for `count` bytes reaches: none beyond the end. -/
def reachable (offp count : Nat) : Nat :=
  min count (pciebenchMaxMem - offp)

/-- How a call for `count` reachable bytes left the buffers, `*offp` and the return value, with
the copies that it made. -/
structure Served (write : Bool) (uncopied : BufCopy → Nat) (offp count : Nat)
    (before after : NpbBuf) (next ret : Int) (made : List BufCopy) : Prop where
  copies : after.copies = before.copies ++ made
  inChunk : ∀ copy ∈ made, copy.chunkIdx < pciebenchChunks ∧
    copy.chunkOff + copy.len ≤ pciebenchChunkSz
  failed : (∃ copy ∈ made, uncopied copy ≠ 0) → ret = -efault ∧ next = offp
  moved : (∀ copy ∈ made, uncopied copy = 0) →
    ret = count ∧ next = offp + count ∧ NpbBuf.Moved write offp 0 count before after

variable (write : Bool) (uncopied : BufCopy → Nat) (npb : NpbBuf)

theorem served_nothing (offp : Nat) : Served write uncopied offp 0 npb npb offp 0 [] where
  copies := (List.append_nil _).symm
  inChunk := fun _ member => nomatch member
  failed := fun ⟨_, member, _⟩ => nomatch member
  moved := fun _ => ⟨rfl, (Int.add_zero _).symm, NpbBuf.moved_zero⟩

theorem npbBufOp_served (offp count : Nat) : ∃ made, Served write uncopied offp
    (reachable offp count) npb (npbBufOp write uncopied count offp npb).1
    (npbBufOp write uncopied count offp npb).2.1 (npbBufOp write uncopied count offp npb).2.2
    made := by
  rw [npbBufOp]
  by_cases empty : count = 0
  · have nothing : reachable offp count = 0 := by rw [reachable, empty, Nat.zero_min]
    rw [if_pos empty, nothing]
    exact ⟨[], served_nothing write uncopied npb offp⟩
  by_cases beyond : pciebenchMaxMem ≤ offp
  · have nothing : reachable offp count = 0 := by
      rw [reachable, Nat.sub_eq_zero_of_le beyond, Nat.min_zero]
    rw [if_neg empty, if_pos beyond, nothing]
    exact ⟨[], served_nothing write uncopied npb offp⟩
  have clamped : (if offp + count > pciebenchMaxMem then pciebenchMaxMem - offp else count) =
      reachable offp count := by
    rw [reachable]
    split <;> omega
  have inside : offp + reachable offp count ≤ pciebenchMaxMem := by
    rw [reachable]
    omega
  rw [if_neg empty, if_neg beyond]
  dsimp only
  rw [clamped]
  obtain ⟨made, transfers⟩ := npbBufOpFrom_transfers write uncopied offp
    (Nat.zero_le (reachable offp count)) npb
  generalize npbBufOpFrom write uncopied offp (reachable offp count) 0 npb = result at transfers ⊢
  obtain ⟨after, pos⟩ := result
  have inChunk (copy : BufCopy) (member : copy ∈ made) : copy.chunkIdx < pciebenchChunks ∧
      copy.chunkOff + copy.len ≤ pciebenchChunkSz := by
    obtain ⟨place, within, rfl⟩ := transfers.places copy member
    refine ⟨?_, bufCopyAt_inChunk write offp _ place⟩
    change (offp + place) / pciebenchChunkSz < pciebenchChunks
    simp only [pciebenchMaxMem_eq, pciebenchChunkSz_eq, pciebenchChunks_eq] at *
    omega
  refine ⟨made, ?_⟩
  cases pos with
  | none =>
      exact
        { copies := transfers.copies
          inChunk
          failed := fun _ => ⟨rfl, rfl⟩
          moved := by
            intro allCopied
            cases (transfers.moved allCopied).1 }
  | some pos =>
      exact
        { copies := transfers.copies
          inChunk
          failed := by
            intro failed
            cases transfers.failed failed
          moved := by
            intro allCopied
            obtain ⟨finished, moved⟩ := transfers.moved allCopied
            have whole : pos = reachable offp count := Option.some.inj finished
            rw [whole]
            exact ⟨rfl, Nat.cast_add _ _, moved⟩ }

theorem npbBufOpTyped_served (count : UInt64) (offp : Int64) (start : 0 ≤ offp.toInt)
    (bounded : count.toNat < 2 ^ 31) : ∃ after next ret made,
      (∀ fuel, count.toNat < fuel →
        npbBufOpTyped fuel write uncopied count offp npb = some (after, next, ret)) ∧
      Served write uncopied offp.toInt.toNat (reachable offp.toInt.toNat count.toNat) npb after
        next.toInt ret.toInt made := by
  have isOffset : offp.toInt = (offp.toInt.toNat : Nat) := (Int.toNat_of_nonneg start).symm
  obtain ⟨made, served⟩ := npbBufOp_served write uncopied npb offp.toInt.toNat count.toNat
  obtain ⟨next, ret, _, isNext, isRet⟩ := npbBufOpTyped_eq write uncopied isOffset rfl bounded
    (Nat.lt_succ_self count.toNat) npb
  rw [← isNext, ← isRet] at served
  refine ⟨_, next, ret, made, ?_, served⟩
  intro fuel enough
  obtain ⟨other, otherRet, ran, isOther, isOtherRet⟩ :=
    npbBufOpTyped_eq write uncopied isOffset rfl bounded enough npb
  rw [ran, Int64.toInt_inj.mp (isOther.trans isNext.symm),
    Int64.toInt_inj.mp (isOtherRet.trans isRet.symm)]

variable {uncopied npb} in
theorem Served.ret_eq {offp count : Nat} {after : NpbBuf} {next ret : Int}
    {made : List BufCopy} (served : Served write uncopied offp count npb after next ret made)
    (succeeds : 0 ≤ ret) : ret = count ∧ NpbBuf.Moved write offp 0 count npb after := by
  by_cases allCopied : ∀ copy ∈ made, uncopied copy = 0
  · obtain ⟨isRet, _, moved⟩ := served.moved allCopied
    exact ⟨isRet, moved⟩
  · have failed : ∃ copy ∈ made, uncopied copy ≠ 0 := by
      simpa only [not_forall, exists_prop] using allCopied
    rw [(served.failed failed).1] at succeeds
    exact absurd succeeds (by decide)

theorem NpbBuf.Moved.read_back {offp count : Nat} {before written after : NpbBuf}
    {reader : Nat → UInt8} (wrote : NpbBuf.Moved true offp 0 count before written)
    (read : NpbBuf.Moved false offp 0 count { written with user := reader } after) {pos : Nat}
    (inside : pos < count) : after.user pos = before.user pos := by
  have file : ({ written with user := reader } : NpbBuf).file = written.file := rfl
  rw [read.1, file, wrote.1, blit_back, blit, if_pos (by omega), Nat.zero_add, Nat.sub_zero]

theorem npbBufOpTyped_flat (count : UInt64) (offp : Int64) (start : 0 ≤ offp.toInt)
    (bounded : count.toNat < 2 ^ 31) : ∃ after next ret made,
      (∀ fuel, count.toNat < fuel →
        npbBufOpTyped fuel write uncopied count offp npb = some (after, next, ret)) ∧
      Served write uncopied offp.toInt.toNat (reachable offp.toInt.toNat count.toNat) npb after
        next.toInt ret.toInt made ∧
      (write = true → 0 ≤ ret.toInt → ∀ fuel uncopiedRead reader again nextRead retRead,
        count.toNat < fuel →
        npbBufOpTyped fuel false uncopiedRead count offp { after with user := reader } =
          some (again, nextRead, retRead) →
        0 ≤ retRead.toInt → retRead = ret ∧
          ∀ pos < reachable offp.toInt.toNat count.toNat, again.user pos = npb.user pos) := by
  obtain ⟨after, next, ret, made, ran, served⟩ :=
    npbBufOpTyped_served write uncopied npb count offp start bounded
  refine ⟨after, next, ret, made, ran, served, ?_⟩
  intro isWrite succeeds fuel uncopiedRead reader again nextRead retRead enough ranRead readSucceeds
  obtain ⟨_, _, _, madeRead, onceMore, servedRead⟩ :=
    npbBufOpTyped_served false uncopiedRead { after with user := reader } count offp start bounded
  rw [onceMore fuel enough] at ranRead
  cases ranRead
  obtain ⟨isRet, wrote⟩ := served.ret_eq write succeeds
  obtain ⟨isRetRead, read⟩ := servedRead.ret_eq false readSucceeds
  subst write
  exact ⟨Int64.toInt_inj.mp (isRetRead.trans isRet.symm), fun pos inside =>
    wrote.read_back read inside⟩

theorem npbBufOpTyped_flat_boundary : ∃ after next ret made,
    npbBufOpTyped 3 true (fun _ => 0) 2 4194303
      { buf := fun _ _ => 0, user := fun pos => UInt8.ofNat (pos + 7), copies := [] } =
        some (after, next, ret) ∧
    Served true (fun _ => 0) 4194303 2
      { buf := fun _ _ => 0, user := fun pos => UInt8.ofNat (pos + 7), copies := [] } after
      next.toInt ret.toInt made := by
  obtain ⟨after, next, ret, made, ran, served, _⟩ := npbBufOpTyped_flat true (fun _ => 0)
    { buf := fun _ _ => 0, user := fun pos => UInt8.ofNat (pos + 7), copies := [] } 2 4194303
    (by decide) (by decide)
  exact ⟨after, next, ret, made, ran 3 (by decide), served⟩

end File

end Pciebench
