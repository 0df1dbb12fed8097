import Mathlib
import Pciebench.BufFile
import Pciebench.Lib.FlatFile

/-!
The buffer file of the kernel module as its users have it: opened any number of times, with a
position for each open file, read and written in any order. Whatever the chunks it is made of,
it behaves as one flat file of `NFP_PCIEBENCH_MAX_MEM` bytes.
-/

namespace Pciebench

open Blit

section Frame

variable {write : Bool} {uncopied : BufCopy → Nat} {offp count pos : Nat} {npb : NpbBuf}

theorem copy_frame {done : Nat} (part : done ≤ (bufCopyAt true offp count pos).len) {index : Nat}
    (away : ¬ (offp + pos ≤ index ∧
      index < offp + pos + (bufCopyAt true offp count pos).len)) :
    (npb.copy (bufCopyAt true offp count pos) done).file index = npb.file index := by
  have inChunk : (offp + pos) % pciebenchChunkSz + (bufCopyAt true offp count pos).len ≤
      pciebenchChunkSz := bufCopyAt_inChunk true offp count pos
  have place : (offp + pos) / pciebenchChunkSz * pciebenchChunkSz +
      (offp + pos) % pciebenchChunkSz = offp + pos := Nat.div_add_mod' _ _
  have within : (offp + pos) % pciebenchChunkSz + done ≤ pciebenchChunkSz :=
    (Nat.add_le_add_left part _).trans inChunk
  have whole : flat pciebenchChunkSz (blitChunk npb.user pos npb.buf
      ((offp + pos) / pciebenchChunkSz) ((offp + pos) % pciebenchChunkSz) done) = _ :=
    flat_blitChunk within npb.buf
  rw [place] at whole
  change flat pciebenchChunkSz (blitChunk npb.user pos npb.buf
      ((offp + pos) / pciebenchChunkSz) ((offp + pos) % pciebenchChunkSz) done) index = _
  rw [whole, blit, if_neg (by omega)]
  rfl

theorem npbBufOpFrom_frame (start : pos ≤ count) {index : Nat}
    (away : ¬ (offp + pos ≤ index ∧ index < offp + count)) :
    (npbBufOpFrom true uncopied offp count pos npb).1.file index = npb.file index := by
  induction pos, npb using npbBufOpFrom.induct true uncopied offp count with
  | case1 pos npb more copy err failed =>
      have bounded : copy.len ≤ count - pos := bufCopyAt_len_le true offp count pos
      rw [npbBufOpFrom, if_pos more]
      dsimp only
      rw [if_pos failed]
      refine copy_frame (Nat.sub_le _ _) fun inside => away ⟨inside.1, inside.2.trans_le ?_⟩
      change offp + pos + copy.len ≤ offp + count
      omega
  | case2 pos npb more copy err after done ih =>
      have bounded : copy.len ≤ count - pos := bufCopyAt_len_le true offp count pos
      rw [npbBufOpFrom, if_pos more]
      dsimp only
      rw [if_neg done]
      refine (ih (by omega) (by omega)).trans ?_
      refine copy_frame (Nat.sub_le _ _) fun inside => away ⟨inside.1, inside.2.trans_le ?_⟩
      change offp + pos + copy.len ≤ offp + count
      omega
  | case3 pos npb rest =>
      rw [npbBufOpFrom, if_neg rest]

theorem npbBufOpFrom_keeps :
    (npbBufOpFrom false uncopied offp count pos npb).1.buf = npb.buf := by
  induction pos, npb using npbBufOpFrom.induct false uncopied offp count with
  | case1 pos npb more copy err failed =>
      rw [npbBufOpFrom, if_pos more]
      dsimp only
      rw [if_pos failed]
      rfl
  | case2 pos npb more copy err after done ih =>
      rw [npbBufOpFrom, if_pos more]
      dsimp only
      rw [if_neg done]
      exact ih
  | case3 pos npb rest =>
      rw [npbBufOpFrom, if_neg rest]

end Frame

section Op

variable (write : Bool) (uncopied : BufCopy → Nat) (npb : NpbBuf)

/-- What a call leaves, whether it succeeds or not: a failed one returns `-EFAULT` from where it
started, and has changed no byte but those it was asked for. -/
structure Returned (write : Bool) (offp count : Nat) (before after : NpbBuf) (next ret : Int) :
    Prop where
  moved : 0 ≤ ret → ret = reachable offp count ∧ next = offp + reachable offp count ∧
    NpbBuf.Moved write offp 0 (reachable offp count) before after
  failed : ¬ 0 ≤ ret → ret = -efault ∧ next = offp
  kept : ∀ index, write = true → ¬ (offp ≤ index ∧ index < offp + reachable offp count) →
    after.file index = before.file index
  unwritten : write = false → after.buf = before.buf

theorem npbBufOp_kept (offp count : Nat) :
    (∀ index, write = true → ¬ (offp ≤ index ∧ index < offp + reachable offp count) →
      (npbBufOp write uncopied count offp npb).1.file index = npb.file index) ∧
    (write = false → (npbBufOp write uncopied count offp npb).1.buf = npb.buf) := by
  rw [npbBufOp]
  split
  · exact ⟨fun _ _ _ => rfl, fun _ => rfl⟩
  split
  · exact ⟨fun _ _ _ => rfl, fun _ => rfl⟩
  have clamped : (if offp + count > pciebenchMaxMem then pciebenchMaxMem - offp else count) =
      reachable offp count := by
    rw [reachable]
    split <;> omega
  dsimp only
  rw [clamped]
  have frame (index : Nat) (isWrite : write = true)
      (away : ¬ (offp ≤ index ∧ index < offp + reachable offp count)) :
      (npbBufOpFrom write uncopied offp (reachable offp count) 0 npb).1.file index =
        npb.file index := by
    subst isWrite
    exact npbBufOpFrom_frame (Nat.zero_le _) away
  have keeps (isRead : write = false) :
      (npbBufOpFrom write uncopied offp (reachable offp count) 0 npb).1.buf = npb.buf := by
    subst isRead
    exact npbBufOpFrom_keeps
  generalize npbBufOpFrom write uncopied offp (reachable offp count) 0 npb = result at frame keeps ⊢
  obtain ⟨after, pos⟩ := result
  cases pos with
  | none | some pos => exact ⟨frame, keeps⟩

theorem npbBufOpTyped_returned (count : UInt64) (offp : Int64) (start : 0 ≤ offp.toInt)
    (bounded : count.toNat < 2 ^ 31) : ∃ after next ret,
      npbBufOpTyped (count.toNat + 1) write uncopied count offp npb = some (after, next, ret) ∧
      Returned write offp.toInt.toNat count.toNat npb after next.toInt ret.toInt := by
  have isOffset : offp.toInt = (offp.toInt.toNat : Nat) := (Int.toNat_of_nonneg start).symm
  obtain ⟨made, served⟩ := npbBufOp_served write uncopied npb offp.toInt.toNat count.toNat
  obtain ⟨next, ret, ran, isNext, isRet⟩ := npbBufOpTyped_eq write uncopied isOffset rfl bounded
    (Nat.lt_succ_self count.toNat) npb
  obtain ⟨kept, unwritten⟩ := npbBufOp_kept write uncopied npb offp.toInt.toNat count.toNat
  rw [← isNext, ← isRet] at served
  refine ⟨_, next, ret, ran, ?_, ?_, kept, unwritten⟩
  · intro succeeds
    by_cases allCopied : ∀ copy ∈ made, uncopied copy = 0
    · exact served.moved allCopied
    · have failed : ∃ copy ∈ made, uncopied copy ≠ 0 := by
        simpa only [not_forall, exists_prop] using allCopied
      rw [(served.failed failed).1] at succeeds
      exact absurd succeeds (by decide)
  · intro fails
    refine served.failed ?_
    by_contra none
    have allCopied : ∀ copy ∈ made, uncopied copy = 0 := by
      simpa only [not_exists, not_and, not_not, ne_eq] using none
    rw [(served.moved allCopied).1] at fails
    exact fails (Int.natCast_nonneg _)

end Op

/-- The buffer, and `f_pos` of each open file. -/
structure OpenFiles where
  buf : Nat → Nat → UInt8
  fpos : Nat → Option Int64

/-- The system calls on the file; `user` is what the buffer of the caller holds, and `uncopied`
what its copies return. -/
inductive BufCall
  | opens (fd : Nat)
  | releases (fd : Nat)
  | seeks (fd : Nat) (offset : Int64)
  | reads (fd : Nat) (user : Nat → UInt8) (count : UInt64) (uncopied : BufCopy → Nat)
  | writes (fd : Nat) (user : Nat → UInt8) (count : UInt64) (uncopied : BufCopy → Nat)

/-- What the VFS lets through: counts below its limit, and no offset below zero. -/
def BufCall.Valid : BufCall → Prop
  | .opens _ | .releases _ => True
  | .seeks _ offset => 0 ≤ offset.toInt
  | .reads _ _ count _ | .writes _ _ count _ => count.toNat < 2 ^ 31

def BufCall.fd : BufCall → Nat
  | .opens fd | .releases fd | .seeks fd _ | .reads fd _ _ _ | .writes fd _ _ _ => fd

/-- The return value, the position from which the call went, and the caller's buffer after. -/
structure BufAnswer where
  ret : Int64
  offp : Int64
  user : Nat → UInt8

namespace OpenFiles

def goTo (file : OpenFiles) (fd : Nat) (fpos : Option Int64) : OpenFiles :=
  { file with fpos := Function.update file.fpos fd fpos }

/-- `npb_buf_read` and `npb_buf_write`, with the position that the VFS keeps for the file. -/
def op (file : OpenFiles) (write : Bool) (fd : Nat) (user : Nat → UInt8) (count : UInt64)
    (uncopied : BufCopy → Nat) : Option (OpenFiles × BufAnswer) := do
  let offp ← file.fpos fd
  let (npb, next, ret) ← npbBufOpTyped (count.toNat + 1) write uncopied count offp
    { buf := file.buf, user, copies := [] }
  some ({ file with buf := npb.buf }.goTo fd (some next), { ret, offp, user := npb.user })

def call (file : OpenFiles) : BufCall → Option (OpenFiles × BufAnswer)
  | .opens fd =>
      if file.fpos fd = none then
        some (file.goTo fd (some 0), { ret := 0, offp := 0, user := fun _ => 0 })
      else none
  | .releases fd => do
      let offp ← file.fpos fd
      some (file.goTo fd none, { ret := 0, offp, user := fun _ => 0 })
  | .seeks fd offset => do
      let offp ← file.fpos fd
      some (file.goTo fd (some offset), { ret := offset, offp, user := fun _ => 0 })
  | .reads fd user count uncopied => file.op false fd user count uncopied
  | .writes fd user count uncopied => file.op true fd user count uncopied

/-- A run of calls, each with its answer. -/
inductive Runs : OpenFiles → List (BufCall × BufAnswer) → OpenFiles → Prop
  | nil (file : OpenFiles) : Runs file [] file
  | cons {file next last : OpenFiles} {call : BufCall} {answer : BufAnswer}
      {log : List (BufCall × BufAnswer)} : call.Valid → file.call call = some (next, answer) →
      Runs next log last → Runs file ((call, answer) :: log) last

/-- No position is below zero. -/
def InFile (file : OpenFiles) : Prop :=
  ∀ fd offp, file.fpos fd = some offp → 0 ≤ offp.toInt

def flat (file : OpenFiles) : FlatFile.File Nat UInt8 where
  contents := Blit.flat pciebenchChunkSz file.buf
  place := fun fd => (file.fpos fd).map fun offp => offp.toInt.toNat

end OpenFiles

/-- What a call with its answer means for a flat file. -/
def bufEvent : BufCall × BufAnswer → FlatFile.Event Nat UInt8
  | (.opens fd, _) => .opened fd
  | (.releases fd, _) => .closed fd
  | (.seeks fd offset, _) => .sought fd offset.toInt.toNat
  | (.reads fd _ _ _, answer) =>
      if 0 ≤ answer.ret.toInt then
        .got fd answer.offp.toInt.toNat answer.user answer.ret.toInt.toNat
      else .ungot fd
  | (.writes fd user count _, answer) =>
      if 0 ≤ answer.ret.toInt then
        .wrote fd answer.offp.toInt.toNat user answer.ret.toInt.toNat
      else .unwritten fd answer.offp.toInt.toNat (reachable answer.offp.toInt.toNat count.toNat)

/-- A read or a write moves all that the file has of its count, or fails. -/
def BufAnswer.Fits (answer : BufAnswer) : BufCall → Prop
  | .reads _ _ count _ | .writes _ _ count _ =>
      answer.ret.toInt = reachable answer.offp.toInt.toNat count.toNat ∨
        answer.ret.toInt = -efault
  | _ => True

theorem Returned.fits {write : Bool} {offp count : Nat} {before after : NpbBuf}
    {place ret : Int} (returned : Returned write offp count before after place ret) :
    ret = reachable offp count ∨ ret = -efault := by
  by_cases succeeds : 0 ≤ ret
  · exact .inl (returned.moved succeeds).1
  · exact .inr (returned.failed succeeds).1

theorem reachable_le (offp count : Nat) : reachable offp count ≤ pciebenchMaxMem - offp :=
  Nat.min_le_right _ _

namespace OpenFiles

section Calls

variable {file next last : OpenFiles} {call : BufCall} {answer : BufAnswer} {fd : Nat}

theorem flat_goTo (fpos : Option Int64) :
    (file.goTo fd fpos).flat = file.flat.goTo fd (fpos.map fun offp => offp.toInt.toNat) := by
  have moved : (file.goTo fd fpos).flat.place =
      Function.update file.flat.place fd (fpos.map fun offp => offp.toInt.toNat) := by
    funext other
    exact Function.apply_update (fun _ => Option.map fun offp : Int64 => offp.toInt.toNat)
      file.fpos fd fpos other
  exact congrArg (FlatFile.File.mk _) moved

theorem InFile.goTo {fpos : Option Int64} (inFile : file.InFile)
    (start : ∀ offp, fpos = some offp → 0 ≤ offp.toInt) : (file.goTo fd fpos).InFile := by
  intro other offp here
  change Function.update file.fpos fd fpos other = some offp at here
  by_cases same : other = fd
  · subst same
    rw [Function.update_self] at here
    exact start offp here
  · rw [Function.update_of_ne same] at here
    exact inFile other offp here

theorem place_eq {offp : Int64} (here : file.fpos fd = some offp) :
    file.flat.place fd = some offp.toInt.toNat := by
  change (file.fpos fd).map _ = _
  rw [here, Option.map_some]

theorem op_returned {write : Bool} {user : Nat → UInt8} {count : UInt64}
    {uncopied : BufCopy → Nat} (inFile : file.InFile) (bounded : count.toNat < 2 ^ 31)
    (called : file.op write fd user count uncopied = some (next, answer)) :
    ∃ after place, file.fpos fd = some answer.offp ∧ 0 ≤ place.toInt ∧
      next = { file with buf := after.buf }.goTo fd (some place) ∧ answer.user = after.user ∧
      Returned write answer.offp.toInt.toNat count.toNat
        { buf := file.buf, user, copies := [] } after place.toInt answer.ret.toInt := by
  obtain ⟨offp, here, rest⟩ := Option.bind_eq_some_iff.mp called
  have start := inFile fd offp here
  obtain ⟨after, place, ret, ran, returned⟩ := npbBufOpTyped_returned write uncopied
    { buf := file.buf, user, copies := [] } count offp start bounded
  rw [ran] at rest
  cases rest
  refine ⟨after, place, here, ?_, rfl, rfl, returned⟩
  by_cases succeeds : 0 ≤ ret.toInt
  · rw [(returned.moved succeeds).2.1]
    omega
  · rw [(returned.failed succeeds).2]
    omega

theorem call_serves (inFile : file.InFile) (valid : call.Valid)
    (called : file.call call = some (next, answer)) :
    next.InFile ∧ answer.Fits call ∧
      FlatFile.Serves pciebenchMaxMem file.flat (bufEvent (call, answer)) next.flat := by
  cases call with
  | opens fd =>
      rw [OpenFiles.call, Option.ite_none_right_eq_some] at called
      obtain ⟨closed, done⟩ := called
      cases done
      refine ⟨inFile.goTo ?_, trivial, ?_⟩
      · rintro offp ⟨⟩
        decide
      · rw [flat_goTo]
        refine .opens fd ?_
        change (file.fpos fd).map _ = none
        rw [closed, Option.map_none]
  | releases fd =>
      obtain ⟨offp, here, done⟩ := Option.bind_eq_some_iff.mp called
      cases done
      refine ⟨inFile.goTo (fun _ gone => absurd gone (by simp)), trivial, ?_⟩
      rw [flat_goTo]
      exact .closes fd _ (place_eq here)
  | seeks fd offset =>
      obtain ⟨offp, here, done⟩ := Option.bind_eq_some_iff.mp called
      cases done
      refine ⟨inFile.goTo ?_, trivial, ?_⟩
      · rintro target ⟨⟩
        exact valid
      · rw [flat_goTo]
        exact .seeks fd _ _ (place_eq here)
  | reads fd user count uncopied =>
      obtain ⟨after, place, here, start, rfl, same, returned⟩ := op_returned inFile valid called
      have buf : after.buf = file.buf := returned.unwritten rfl
      rw [buf]
      refine ⟨inFile.goTo ?_, returned.fits, ?_⟩
      · rintro target ⟨⟩
        exact start
      · rw [flat_goTo, bufEvent]
        by_cases succeeds : 0 ≤ answer.ret.toInt
        · obtain ⟨ret, moved, user', _⟩ := returned.moved succeeds
          have target : place.toInt.toNat =
              answer.offp.toInt.toNat + reachable answer.offp.toInt.toNat count.toNat := by
            rw [moved]
            rfl
          rw [if_pos succeeds, ret, Int.toNat_natCast, Option.map_some, target]
          refine .reads fd _ _ _ (place_eq here) (reachable_le _ _) ?_
          intro pos inside
          rw [same, user', blit, if_pos ⟨Nat.zero_le _, by omega⟩, Nat.sub_zero]
          rfl
        · have stays := (returned.failed succeeds).2
          rw [if_neg succeeds, Option.map_some, stays, Int.toNat_natCast,
            FlatFile.File.goTo_self (place_eq here)]
          exact .balks fd _ (place_eq here)
  | writes fd user count uncopied =>
      obtain ⟨after, place, here, start, rfl, _, returned⟩ := op_returned inFile valid called
      refine ⟨inFile.goTo ?_, returned.fits, ?_⟩
      · rintro target ⟨⟩
        exact start
      · rw [flat_goTo, bufEvent]
        by_cases succeeds : 0 ≤ answer.ret.toInt
        · obtain ⟨ret, moved, contents, _⟩ := returned.moved succeeds
          have target : place.toInt.toNat =
              answer.offp.toInt.toNat + reachable answer.offp.toInt.toNat count.toNat := by
            rw [moved]
            rfl
          rw [if_pos succeeds, ret, Int.toNat_natCast, Option.map_some, target]
          have landed : Blit.flat pciebenchChunkSz after.buf = blit user 0 file.flat.contents
              answer.offp.toInt.toNat (reachable answer.offp.toInt.toNat count.toNat) := contents
          have served := FlatFile.Serves.writes fd _ user _ (place_eq here)
            (reachable_le answer.offp.toInt.toNat count.toNat)
          rw [← landed] at served
          exact served
        · have stays := (returned.failed succeeds).2
          have open' : ({ file with buf := after.buf } : OpenFiles).flat.place fd =
              some answer.offp.toInt.toNat := place_eq here
          rw [if_neg succeeds, Option.map_some, stays, Int.toNat_natCast,
            FlatFile.File.goTo_self open']
          exact .misses fd _ _ _ (place_eq here) (reachable_le _ _) fun index away =>
            returned.kept index rfl away

/-- A file is opened under a number that is free, and used under one that is not. -/
def Admits (file : OpenFiles) (call : BufCall) : Prop :=
  match call with
  | .opens fd => file.fpos fd = none
  | .releases fd | .seeks fd _ | .reads fd _ _ _ | .writes fd _ _ _ =>
      ∃ offp, file.fpos fd = some offp

theorem op_answers {offp : Int64} (inFile : file.InFile) (here : file.fpos fd = some offp)
    (write : Bool) (user : Nat → UInt8) {count : UInt64} (bounded : count.toNat < 2 ^ 31)
    (uncopied : BufCopy → Nat) :
    ∃ next answer, file.op write fd user count uncopied = some (next, answer) := by
  obtain ⟨after, place, ret, ran, _⟩ := npbBufOpTyped_returned write uncopied
    { buf := file.buf, user, copies := [] } count offp (inFile fd offp here) bounded
  rw [op, here, Option.bind_eq_bind, Option.bind_some, ran]
  exact ⟨_, _, rfl⟩

theorem call_answers (inFile : file.InFile) (valid : call.Valid) (admitted : file.Admits call) :
    ∃ next answer, file.call call = some (next, answer) := by
  cases call with
  | opens fd => exact ⟨_, _, if_pos admitted⟩
  | releases fd | seeks fd offset =>
      obtain ⟨offp, here⟩ := admitted
      rw [OpenFiles.call, here]
      exact ⟨_, _, rfl⟩
  | reads fd user count uncopied =>
      obtain ⟨offp, here⟩ := admitted
      exact op_answers inFile here false user valid uncopied
  | writes fd user count uncopied =>
      obtain ⟨offp, here⟩ := admitted
      exact op_answers inFile here true user valid uncopied

theorem runs_serves {log : List (BufCall × BufAnswer)} (inFile : file.InFile)
    (runs : file.Runs log last) :
    last.InFile ∧ (∀ entry ∈ log, entry.2.Fits entry.1) ∧
      FlatFile.Runs pciebenchMaxMem file.flat (log.map bufEvent) last.flat := by
  induction runs with
  | nil file => exact ⟨inFile, fun _ member => absurd member List.not_mem_nil, .nil _⟩
  | cons valid called runs ih =>
      obtain ⟨inFile', fits, serves⟩ := call_serves inFile valid called
      obtain ⟨lastInFile, allFit, rest⟩ := ih inFile'
      refine ⟨lastInFile, ?_, .cons serves rest⟩
      intro entry member
      rcases List.mem_cons.mp member with rfl | later
      · exact fits
      · exact allFit entry later

end Calls

end OpenFiles

section Runs

open OpenFiles

/-- In every run of calls on any number of open files, failed ones among them, the buffer is one
flat file: a call on an open file comes back, moves what there is or fails, and reads at each
offset what was last written there. -/
theorem bufRuns_flat (file last : OpenFiles) (log : List (BufCall × BufAnswer))
    (inFile : file.InFile) (runs : file.Runs log last) :
    FlatFile.Runs pciebenchMaxMem file.flat (log.map bufEvent) last.flat ∧
    (∀ entry ∈ log, entry.2.Fits entry.1) ∧
    (∀ call, call.Valid → last.Admits call →
      ∃ next answer, last.call call = some (next, answer)) ∧
    ∀ before between after writer user count writeFaults wrote reader into length readFaults got,
      log = before ++ (.writes writer user count writeFaults, wrote) ::
        (between ++ (.reads reader into length readFaults, got) :: after) →
      0 ≤ wrote.ret.toInt → 0 ≤ got.ret.toInt →
      ∀ offset, (∀ entry ∈ between, ¬ (bufEvent entry).Covers offset) →
        wrote.offp.toInt.toNat ≤ offset →
        offset < wrote.offp.toInt.toNat + wrote.ret.toInt.toNat →
        got.offp.toInt.toNat ≤ offset → offset < got.offp.toInt.toNat + got.ret.toInt.toNat →
        got.user (offset - got.offp.toInt.toNat) = user (offset - wrote.offp.toInt.toNat) := by
  obtain ⟨lastInFile, fits, flat⟩ := runs_serves inFile runs
  refine ⟨flat, fits, fun call valid admitted => call_answers lastInFile valid admitted, ?_⟩
  intro before between after writer user count writeFaults wrote reader into length readFaults got
    logged writeDone readDone offset untouched writeStart writeEnd readStart readEnd
  have wroteEvent : bufEvent (.writes writer user count writeFaults, wrote) =
      .wrote writer wrote.offp.toInt.toNat user wrote.ret.toInt.toNat := if_pos writeDone
  have gotEvent : bufEvent (.reads reader into length readFaults, got) =
      .got reader got.offp.toInt.toNat got.user got.ret.toInt.toNat := if_pos readDone
  rw [logged] at flat
  simp only [List.map_append, List.map_cons, wroteEvent, gotEvent] at flat
  refine flat.last_write ?_ ⟨writeStart, writeEnd⟩ ⟨readStart, readEnd⟩
  intro event member
  obtain ⟨entry, inBetween, rfl⟩ := List.mem_map.mp member
  exact untouched entry inBetween

/-- Two bytes written across the border of two chunks, and read back through another file. -/
theorem bufRuns_flat_boundary :
    ∃ last wrote got,
      OpenFiles.Runs { buf := fun _ _ => 0, fpos := fun _ => none }
        [(.opens 3, ⟨0, 0, fun _ => 0⟩), (.opens 4, ⟨0, 0, fun _ => 0⟩),
          (.seeks 3 4194303, ⟨4194303, 0, fun _ => 0⟩),
          (.writes 3 (fun pos => UInt8.ofNat (pos + 7)) 2 (fun _ => 0), wrote),
          (.seeks 4 4194304, ⟨4194304, 0, fun _ => 0⟩),
          (.reads 4 (fun _ => 0) 1 (fun _ => 0), got)] last ∧
      got.user 0 = 8 := by
  let fresh : OpenFiles := { buf := fun _ _ => 0, fpos := fun _ => none }
  have inFile : fresh.InFile := fun _ _ here => absurd here (by simp [fresh])
  let ready := ((fresh.goTo 3 (some 0)).goTo 4 (some 0)).goTo 3 (some 4194303)
  obtain ⟨written, wrote, writes, writeRet, writeOffp, here⟩ : ∃ written wrote, ready.call
      (.writes 3 (fun pos => UInt8.ofNat (pos + 7)) 2 fun _ => 0) = some (written, wrote) ∧
        wrote.ret = 2 ∧ wrote.offp = 4194303 ∧ written.fpos 4 = some 0 :=
    ⟨_, _, rfl, rfl, rfl, rfl⟩
  obtain ⟨last, got, reads, readRet, readOffp⟩ : ∃ last got,
      (written.goTo 4 (some 4194304)).call (.reads 4 (fun _ => 0) 1 fun _ => 0) =
        some (last, got) ∧ got.ret = 1 ∧ got.offp = 4194304 :=
    ⟨_, _, rfl, rfl, rfl⟩
  have seeks : written.call (.seeks 4 4194304) =
      some (written.goTo 4 (some 4194304), ⟨4194304, 0, fun _ => 0⟩) := by
    rw [OpenFiles.call, here]
    rfl
  have opens (fd : Nat) : (BufCall.opens fd).Valid := trivial
  have seeksLow : (BufCall.seeks 3 4194303).Valid := show 0 ≤ (4194303 : Int64).toInt by decide
  have seeksHigh : (BufCall.seeks 4 4194304).Valid := show 0 ≤ (4194304 : Int64).toInt by decide
  have writesTwo : (BufCall.writes 3 (fun pos => UInt8.ofNat (pos + 7)) 2 fun _ => 0).Valid :=
    show (2 : UInt64).toNat < 2 ^ 31 by decide
  have readsOne : (BufCall.reads 4 (fun _ => 0) 1 fun _ => 0).Valid :=
    show (1 : UInt64).toNat < 2 ^ 31 by decide
  have runs : fresh.Runs _ last :=
    .cons (opens 3) rfl <| .cons (opens 4) rfl <| .cons seeksLow rfl <| .cons writesTwo writes <|
      .cons seeksHigh seeks <| .cons readsOne reads <| .nil last
  refine ⟨last, wrote, got, runs, ?_⟩
  obtain ⟨_, _, _, readsBack⟩ := bufRuns_flat fresh last _ inFile runs
  have byte := readsBack [_, _, _] [_] [] 3 _ 2 _ wrote 4 _ 1 _ got rfl (by rw [writeRet]; decide)
    (by rw [readRet]; decide) 4194304 (by simp [bufEvent, FlatFile.Event.Covers])
    (by rw [writeOffp]; decide) (by rw [writeOffp, writeRet]; decide)
    (by rw [readOffp]; decide) (by rw [readOffp, readRet]; decide)
  rw [writeOffp, readOffp] at byte
  exact byte

end Runs

end Pciebench
