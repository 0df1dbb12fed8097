import Mathlib
import Pciebench.ChunkAddrs
import Pciebench.Lib.Numerals
import Pciebench.Lib.Python

/-!
The texts by which the chunk addresses travel: what the proc files of the kernel module print,
what `_set_dma_addrs` reads there and puts on the command line of `nfp-rtsym`, and the words
that arrive in `host_dma_addrs`.
-/

namespace Pciebench

open Numerals Outcome

inductive AddrsError
  | builtin (error : Python.Error)
  | unboundLocal
  | err (message : String)
  deriving DecidableEq, Repr

section Texts

/-- What `npb_dma_addrs_show` prints. -/
def dmaAddrsText (bufDmaAddrs : ChunkTable) : List Char :=
  (npbDmaAddrsShow bufDmaAddrs).flatMap fun addr => (hex addr).toList ++ ['\n']

/-- What `npb_buf_sz_show` prints. -/
def bufSzText : List Char :=
  Nat.toDigits 10 pciebenchMaxMem ++ ['\n']

def orValueError {value : Type} : Option value → Except AddrsError value
  | some value => .ok value
  | none => .error (.builtin .valueError)

def readDmaAddrs (inf : List Char) : Except AddrsError (List Nat) :=
  (lines inf).mapM fun line => orValueError (pyInt0 line)

/-- The number on the last line; without a line `buf_sz` is not bound. -/
def readBufSz (inf : List Char) : Except AddrsError Nat := do
  let bufSz ← (lines inf).foldlM (fun _ line => (orValueError (pyInt line)).map some) none
  match bufSz with
  | some bufSz => .ok bufSz
  | none => .error .unboundLocal

def entryText (addr : Nat) : List Char :=
  ' ' :: (hex (addr >>> 32)).toList ++ ' ' :: (hex (addr &&& 0xffffffff)).toList

/-- `_set_dma_addrs`, up to the values that it gives to `nfp-rtsym` for a symbol of `symSize`
bytes. The chunk size is a quotient of integers, as Python 2.7 has it. -/
def setDmaAddrsVal (symSize : Nat) (dmaAddrsFile bufSzFile : List Char) :
    Except AddrsError (List Char) := do
  let dmaAddrs ← readDmaAddrs dmaAddrsFile
  let bufSz ← readBufSz bufSzFile
  if dmaAddrs.length = 0 then
    .error (.builtin .zeroDivisionError)
  else do
    (checkDmaAddrs (bufSz / dmaAddrs.length) dmaAddrs).mapError .err
    .ok ((dmaAddrs.take (min (symSize / 8) dmaAddrs.length)).flatMap entryText)

/-- `nfp-rtsym` writes the values given to it, each a number as C reads it. -/
def ReadsValues (rtsym : List Char → Option (List UInt32)) : Prop :=
  ∀ val written, (words val).map strtoul = written.map (fun word => (word.toNat, [])) →
    rtsym val = some written

/-- The way of the addresses from the kernel module to the firmware. -/
def deliver (rtsym : List Char → Option (List UInt32)) (bufDmaAddrs : ChunkTable) :
    Except AddrsError (Option ChunkTable) := do
  let val ← setDmaAddrsVal hostDmaAddrsSz (dmaAddrsText bufDmaAddrs) bufSzText
  .ok ((rtsym val).map copyDmaAddrs)

end Texts

section Reading

theorem hex_toList (number : Nat) : (hex number).toList = '0' :: 'x' :: Nat.toDigits 16 number := by
  rw [hex, String.toList_append]
  simp

theorem newline_hex (number : Nat) : '\n' ∉ (hex number).toList := by
  rw [hex_toList]
  intro member
  have notBlank : blank '\n' = false := blank_hex '\n' member
  exact absurd notBlank (by decide)

theorem lines_hex (addrs : List Nat) :
    lines (addrs.flatMap fun addr => (hex addr).toList ++ ['\n']) =
      addrs.map fun addr => (hex addr).toList ++ ['\n'] := by
  induction addrs with
  | nil => rfl
  | cons addr addrs ih =>
      rw [List.flatMap_cons, List.append_assoc, List.singleton_append,
        lines_line (newline_hex addr), ih]
      rfl

theorem readDmaAddrs_shown (bufDmaAddrs : ChunkTable) :
    readDmaAddrs (dmaAddrsText bufDmaAddrs) = .ok (npbDmaAddrsShow bufDmaAddrs) := by
  rw [readDmaAddrs, dmaAddrsText, lines_hex]
  induction npbDmaAddrsShow bufDmaAddrs with
  | nil => rfl
  | cons addr addrs ih =>
      rw [List.map_cons, List.mapM_cons, ih, hex_toList, pyInt0_hex]
      rfl

theorem newline_decimal (number : Nat) : '\n' ∉ Nat.toDigits 10 number := by
  intro member
  have notBlank : blank '\n' = false := blank_toDigits (by decide) (by decide) '\n' member
  exact absurd notBlank (by decide)

theorem readBufSz_shown : readBufSz bufSzText = .ok pciebenchMaxMem := by
  have single : lines bufSzText = [bufSzText] := lines_line (newline_decimal _)
  rw [readBufSz, single, List.foldlM_cons, bufSzText, pyInt_decimal]
  rfl

def entryWords (addr : Nat) : List (List Char) :=
  [(hex (addr >>> 32)).toList, (hex (addr &&& 0xffffffff)).toList]

theorem words_entries (addrs : List Nat) :
    words (addrs.flatMap entryText) = addrs.flatMap entryWords := by
  have spaced : addrs.flatMap entryText = (addrs.flatMap entryWords).flatMap (' ' :: ·) := by
    rw [List.flatMap_assoc]
    refine List.flatMap_congr ?_
    intro addr _
    simp [entryText, entryWords]
  rw [spaced]
  refine words_spaced ?_
  intro word member
  obtain ⟨addr, _, inEntry⟩ := List.mem_flatMap.mp member
  have printed : ∃ number, word = (hex number).toList := by
    rcases List.mem_cons.mp inEntry with rfl | inEntry
    · exact ⟨_, rfl⟩
    · exact ⟨_, List.mem_singleton.mp inEntry⟩
  obtain ⟨number, rfl⟩ := printed
  rw [hex_toList]
  exact ⟨List.cons_ne_nil _ _, blank_hex⟩

theorem strtoul_hexText {number : Nat} (bound : number < 2 ^ 64) :
    strtoul (hex number).toList = (number, []) := by
  rw [hex_toList, strtoul_hex bound]

theorem entryWords_read {addr : Nat} (bound : addr < 2 ^ 64) :
    (entryWords addr).map strtoul = (addrWords addr).map fun word => (word.toNat, []) := by
  have high : addr >>> 32 < 2 ^ 32 := by
    rw [Nat.shiftRight_eq_div_pow]
    omega
  have low : addr &&& 0xffffffff < 2 ^ 32 := Nat.and_lt_two_pow addr (by decide)
  simp only [entryWords, addrWords, List.map_cons, List.map_nil, UInt32.toNat_ofNat',
    Nat.mod_eq_of_lt high, Nat.mod_eq_of_lt low]
  rw [strtoul_hexText (by omega), strtoul_hexText (by omega)]

theorem entries_read {addrs : List Nat} (bound : ∀ addr ∈ addrs, addr < 2 ^ 64) :
    (words (addrs.flatMap entryText)).map strtoul =
      (addrs.flatMap addrWords).map fun word => (word.toNat, []) := by
  rw [words_entries, List.map_flatMap, List.map_flatMap]
  exact List.flatMap_congr fun addr member => entryWords_read (bound addr member)

end Reading

section Delivery

variable {chunkSz : Nat} {addrs : List Nat} {message : String} {bufDmaAddrs : ChunkTable}
  {rtsym : List Char → Option (List UInt32)}

theorem checkDmaAddr_message {start : Nat}
    (refused : checkDmaAddr chunkSz start = .error message) :
    ∃ before after, message = before ++ hex start ++ after := by
  simp only [checkDmaAddr] at refused
  split at refused
  · cases refused
    exact ⟨_, _, rfl⟩
  split at refused
  · cases refused
    exact ⟨_, _, rfl⟩
  · contradiction

theorem checkDmaAddrs_first (refused : checkDmaAddrs chunkSz addrs = .error message) :
    ∃ before start after, addrs = before ++ start :: after ∧
      (∀ earlier ∈ before, checkDmaAddr chunkSz earlier = .ok ()) ∧
      checkDmaAddr chunkSz start = .error message := by
  induction addrs with
  | nil => contradiction
  | cons addr addrs ih =>
      rw [checkDmaAddrs] at refused
      rcases Outcome.bind_eq_error.mp refused with here | ⟨passed, _, later⟩
      · exact ⟨[], addr, addrs, rfl, fun _ none => absurd none List.not_mem_nil, here⟩
      · obtain ⟨before, start, after, same, earlier, fails⟩ := ih later
        refine ⟨addr :: before, start, after, by rw [same, List.cons_append], ?_, fails⟩
        exact List.forall_mem_cons.mpr ⟨by assumption, earlier⟩

theorem setDmaAddrsVal_shown :
    setDmaAddrsVal hostDmaAddrsSz (dmaAddrsText bufDmaAddrs) bufSzText =
      ((checkDmaAddrs pciebenchChunkSz (npbDmaAddrsShow bufDmaAddrs)).mapError .err).map
        fun _ => (npbDmaAddrsShow bufDmaAddrs).flatMap entryText := by
  have length : (npbDmaAddrsShow bufDmaAddrs).length = 16 := npbDmaAddrsShow_length
  have chunkSz : pciebenchMaxMem / 16 = pciebenchChunkSz := rfl
  have all : min (hostDmaAddrsSz / 8) 16 = 16 := rfl
  have whole : (npbDmaAddrsShow bufDmaAddrs).take 16 = npbDmaAddrsShow bufDmaAddrs :=
    List.take_of_length_le length.le
  rw [setDmaAddrsVal, readDmaAddrs_shown, ok_bind, readBufSz_shown, ok_bind, length, chunkSz, all,
    whole, if_neg (by decide)]
  cases checkDmaAddrs pciebenchChunkSz (npbDmaAddrsShow bufDmaAddrs) with
  | error message => rfl
  | ok done => rfl

theorem shown_bound (bufDmaAddrs : ChunkTable) :
    ∀ addr ∈ npbDmaAddrsShow bufDmaAddrs, addr < 2 ^ 64 := by
  intro addr member
  obtain ⟨chunk, _, rfl⟩ := List.mem_map.mp member
  exact (bufDmaAddrs chunk).toNat_lt

theorem rtsym_shown (reads : ReadsValues rtsym) (bufDmaAddrs : ChunkTable) :
    rtsym ((npbDmaAddrsShow bufDmaAddrs).flatMap entryText) =
      some ((npbDmaAddrsShow bufDmaAddrs).flatMap addrWords) :=
  reads _ _ (entries_read (shown_bound bufDmaAddrs))

theorem deliver_checked (reads : ReadsValues rtsym) :
    deliver rtsym bufDmaAddrs =
      ((checkDmaAddrs pciebenchChunkSz (npbDmaAddrsShow bufDmaAddrs)).mapError .err).map
        fun _ => some bufDmaAddrs := by
  have written := rtsym_shown reads bufDmaAddrs
  rw [deliver, setDmaAddrsVal_shown]
  cases checkDmaAddrs pciebenchChunkSz (npbDmaAddrsShow bufDmaAddrs) with
  | error message => rfl
  | ok done =>
      change Except.ok ((rtsym _).map copyDmaAddrs) = Except.ok (some bufDmaAddrs)
      rw [written, Option.map_some, copyDmaAddrs_show]

/-- A chunk that the firmware can use starts on a page and lies in one window of the BAR. -/
def Usable (start : Nat) : Prop :=
  start % 4096 = 0 ∧ start / 2 ^ 29 = (start + (pciebenchChunkSz - 1)) / 2 ^ 29

theorem usable_all :
    (∀ chunk, Usable (bufDmaAddrs chunk).toNat) ↔
      bufDmaAddrs.Aligned ∧ bufDmaAddrs.SingleBar :=
  forall_and

theorem checked_usable :
    checkDmaAddrs pciebenchChunkSz (npbDmaAddrsShow bufDmaAddrs) = .ok () ↔
      ∀ chunk, Usable (bufDmaAddrs chunk).toNat := by
  rw [checkDmaAddrs_ok]
  simp only [npbDmaAddrsShow, List.mem_map, List.mem_finRange, true_and, forall_exists_index,
    forall_apply_eq_imp_iff, checkDmaAddr_ok, Usable]

theorem exists_unusable
    (refused : checkDmaAddrs pciebenchChunkSz (npbDmaAddrsShow bufDmaAddrs) = .error message) :
    ∃ chunk, ¬ Usable (bufDmaAddrs chunk).toNat ∧
      (∀ earlier < chunk, Usable (bufDmaAddrs earlier).toNat) ∧
      ∃ before after, message = before ++ hex (bufDmaAddrs chunk).toNat ++ after := by
  obtain ⟨before, start, after, listed, passed, fails⟩ := checkDmaAddrs_first refused
  have short : before.length < pciebenchChunks := by
    have length := congrArg List.length listed
    rw [npbDmaAddrsShow_length, List.length_append, List.length_cons] at length
    omega
  let chunk : Fin pciebenchChunks := ⟨before.length, short⟩
  have shown (index : Fin pciebenchChunks) :
      (npbDmaAddrsShow bufDmaAddrs)[index.val]? = some (bufDmaAddrs index).toNat :=
    npbDmaAddrsShow_getElem? index
  have here : (bufDmaAddrs chunk).toNat = start := by
    have found := shown chunk
    rw [listed, List.getElem?_append_right le_rfl, Nat.sub_self, List.getElem?_cons_zero] at found
    exact (Option.some.inj found).symm
  refine ⟨chunk, ?_, ?_, ?_⟩
  · rw [here]
    intro usable
    rw [checkDmaAddr_ok.mpr usable] at fails
    contradiction
  · intro earlier sooner
    have found := shown earlier
    rw [listed, List.getElem?_append_left sooner] at found
    exact checkDmaAddr_ok.mp (passed _ (List.mem_of_getElem? found))
  · rw [here]
    exact checkDmaAddr_message fails

/-- Through the texts of three programs the addresses arrive as the driver has them, or the
first chunk that the firmware could not use is named. -/
theorem dmaAddrs_delivered (rtsym : List Char → Option (List UInt32)) (reads : ReadsValues rtsym)
    (bufDmaAddrs : ChunkTable) :
    (∀ table, deliver rtsym bufDmaAddrs = .ok table ↔
      (bufDmaAddrs.Aligned ∧ bufDmaAddrs.SingleBar) ∧ table = some bufDmaAddrs) ∧
    ∀ error, deliver rtsym bufDmaAddrs = .error error → ∃ chunk,
      ¬ Usable (bufDmaAddrs chunk).toNat ∧
      (∀ earlier < chunk, Usable (bufDmaAddrs earlier).toNat) ∧
      ∃ before after, error = .err (before ++ hex (bufDmaAddrs chunk).toNat ++ after) := by
  rw [deliver_checked reads, ← usable_all, ← checked_usable]
  cases outcome : checkDmaAddrs pciebenchChunkSz (npbDmaAddrsShow bufDmaAddrs) with
  | error message =>
      obtain ⟨chunk, unusable, earlier, before, after, named⟩ := exists_unusable outcome
      refine ⟨fun table => ⟨fun done => absurd done (by simp [Except.map, Except.mapError]),
        fun done => absurd done.1 (by simp)⟩, ?_⟩
      intro error stopped
      cases stopped
      exact ⟨chunk, unusable, earlier, before, after, by rw [named]⟩
  | ok done =>
      refine ⟨fun table => ⟨fun arrived => ?_, fun arrived => ?_⟩, fun error stopped => ?_⟩
      · cases arrived
        exact ⟨rfl, rfl⟩
      · rw [arrived.2]
        rfl
      · contradiction

/-- A reader of values as `nfp-rtsym` reads them. -/
def readValues (val : List Char) : Option (List UInt32) :=
  (words val).mapM fun word =>
    if (strtoul word).2 = [] then some (UInt32.ofNat (strtoul word).1) else none

theorem readValues_reads : ReadsValues readValues := by
  intro val written
  rw [readValues]
  induction words val generalizing written with
  | nil =>
      intro same
      rw [List.map_eq_nil_iff.mp same.symm]
      rfl
  | cons word rest ih =>
      intro same
      cases written with
      | nil => contradiction
      | cons value written =>
          rw [List.map_cons, List.map_cons, List.cons.injEq] at same
          rw [List.mapM_cons, ih written same.2, same.1]
          simp

theorem dmaAddrs_delivered_backToBack :
    deliver readValues (backToBack 0x40000000) = .ok (some (backToBack 0x40000000)) := by
  have aligned : (backToBack 0x40000000).Aligned := backToBack_aligned (by decide) (by decide)
  have single : (backToBack 0x40000000).SingleBar := backToBack_singleBar (by decide) (by decide)
  exact ((dmaAddrs_delivered readValues readValues_reads (backToBack 0x40000000)).1 _).mpr
    ⟨⟨aligned, single⟩, rfl⟩

end Delivery

end Pciebench
