import Mathlib
import Pciebench.Lib.Outcome
import Pciebench.WriteRegion

/-!
How the chunk addresses reach the firmware: `npb_dma_addrs_show` lists them, `_set_dma_addrs`
checks them and writes them as pairs of words, and `main` copies the words to
`chunk_dma_addrs`. A line of the list is taken as the number it spells.
-/

namespace Pciebench

def npbDmaAddrsShow (bufDmaAddrs : ChunkTable) : List Nat :=
  (List.finRange pciebenchChunks).map fun chunk => (bufDmaAddrs chunk).toNat

def hex (number : Nat) : String :=
  "0x" ++ String.ofList (Nat.toDigits 16 number)

def checkDmaAddr (chunkSz start : Nat) : Except String Unit :=
  let stop := start + chunkSz - 1
  if start &&& (4096 - 1) ≠ 0 then
    .error ("Start address " ++ hex start ++ " is not page aligned")
  else if ¬ start >>> 29 = stop >>> 29 then
    .error ("Chunk " ++ hex start ++ " can\x27t be addressed with a single c2p bar")
  else
    .ok ()

def checkDmaAddrs (chunkSz : Nat) : List Nat → Except String Unit
  | [] => .ok ()
  | start :: rest => do
      checkDmaAddr chunkSz start
      checkDmaAddrs chunkSz rest

def addrWords (addr : Nat) : List UInt32 :=
  [UInt32.ofNat (addr >>> 32), UInt32.ofNat (addr &&& 0xffffffff)]

/-- `_set_dma_addrs`: the words written to a symbol of `symSize` bytes. -/
def setDmaAddrs (symSize bufSz : Nat) (dmaAddrs : List Nat) : Except String (List UInt32) := do
  let chunkSz := bufSz / dmaAddrs.length
  checkDmaAddrs chunkSz dmaAddrs
  let entries := min (symSize / 8) dmaAddrs.length
  .ok ((dmaAddrs.take entries).flatMap addrWords)

/-- The copy that `main` makes, word by word, before each test. -/
def copyDmaAddrs (hostDmaAddrs : List UInt32) : ChunkTable :=
  fun chunk =>
    Words.join (hostDmaAddrs.getD (2 * chunk.val) 0) (hostDmaAddrs.getD (2 * chunk.val + 1) 0)

def hostDmaAddrsSz : Nat := 8 * pciebenchChunks

def deliverDmaAddrs (bufDmaAddrs : ChunkTable) : Except String ChunkTable := do
  let words ← setDmaAddrs hostDmaAddrsSz pciebenchMaxMem (npbDmaAddrsShow bufDmaAddrs)
  .ok (copyDmaAddrs words)

section Checks

theorem checkDmaAddr_ok {start : Nat} :
    checkDmaAddr pciebenchChunkSz start = .ok () ↔
      start % 4096 = 0 ∧ start / 2 ^ 29 = (start + (pciebenchChunkSz - 1)) / 2 ^ 29 := by
  have mask : start &&& (4096 - 1) = start % 4096 := Nat.and_two_pow_sub_one_eq_mod start 12
  have stop : start + pciebenchChunkSz - 1 = start + (pciebenchChunkSz - 1) := by
    simp only [pciebenchChunkSz_eq]
    omega
  simp only [checkDmaAddr, mask, stop, Nat.shiftRight_eq_div_pow]
  split
  · rename_i unaligned
    simp [unaligned]
  · rename_i aligned
    split
    · rename_i apart
      simp only [reduceCtorEq, false_iff, not_and]
      exact fun _ => apart
    · rename_i together
      exact ⟨fun _ => ⟨not_not.mp aligned, not_not.mp together⟩, fun _ => rfl⟩

theorem checkDmaAddrs_ok {chunkSz : Nat} {dmaAddrs : List Nat} :
    checkDmaAddrs chunkSz dmaAddrs = .ok () ↔
      ∀ start ∈ dmaAddrs, checkDmaAddr chunkSz start = .ok () := by
  induction dmaAddrs with
  | nil => simp [checkDmaAddrs]
  | cons start rest ih =>
      simp only [checkDmaAddrs, List.forall_mem_cons, ← ih]
      constructor
      · intro checked
        obtain ⟨_, first, others⟩ := Outcome.bind_eq_ok.mp checked
        exact ⟨first, others⟩
      · rintro ⟨first, others⟩
        rw [first, Outcome.ok_bind]
        exact others

theorem addrWords_getD {dmaAddrs : List Nat} {index : Nat} {addr : Nat}
    (found : dmaAddrs[index]? = some addr) :
    (dmaAddrs.flatMap addrWords).getD (2 * index) 0 = UInt32.ofNat (addr >>> 32) ∧
      (dmaAddrs.flatMap addrWords).getD (2 * index + 1) 0 =
        UInt32.ofNat (addr &&& 0xffffffff) := by
  induction dmaAddrs generalizing index with
  | nil => simp at found
  | cons first rest ih =>
      cases index with
      | zero =>
          simp only [List.getElem?_cons_zero, Option.some.injEq] at found
          subst addr
          exact ⟨rfl, rfl⟩
      | succ index =>
          rw [List.getElem?_cons_succ] at found
          exact ih found

theorem join_words (addr : UInt64) :
    Words.join (UInt32.ofNat (addr.toNat >>> 32)) (UInt32.ofNat (addr.toNat &&& 0xffffffff)) =
      addr := by
  have bound := addr.toNat_lt
  have low : addr.toNat &&& 0xffffffff = addr.toNat % 2 ^ 32 :=
    Nat.and_two_pow_sub_one_eq_mod addr.toNat 32
  apply UInt64.toNat_inj.mp
  rw [Words.toNat_join, UInt32.toNat_ofNat', UInt32.toNat_ofNat', Nat.shiftRight_eq_div_pow, low]
  omega

end Checks

section Delivery

variable {bufDmaAddrs table : ChunkTable}

theorem npbDmaAddrsShow_getElem? (chunk : Fin pciebenchChunks) :
    (npbDmaAddrsShow bufDmaAddrs)[chunk.val]? = some (bufDmaAddrs chunk).toNat := by
  simp [npbDmaAddrsShow]

theorem npbDmaAddrsShow_length :
    (npbDmaAddrsShow bufDmaAddrs).length = pciebenchChunks := by
  simp [npbDmaAddrsShow]

theorem copyDmaAddrs_show :
    copyDmaAddrs ((npbDmaAddrsShow bufDmaAddrs).flatMap addrWords) = bufDmaAddrs := by
  funext chunk
  obtain ⟨high, low⟩ := addrWords_getD (npbDmaAddrsShow_getElem? chunk)
  rw [copyDmaAddrs, high, low]
  exact join_words (bufDmaAddrs chunk)

theorem deliverDmaAddrs_ok :
    deliverDmaAddrs bufDmaAddrs = .ok table ↔
      bufDmaAddrs.Aligned ∧ bufDmaAddrs.SingleBar ∧ table = bufDmaAddrs := by
  have chunkSz : pciebenchMaxMem / (npbDmaAddrsShow bufDmaAddrs).length = pciebenchChunkSz := by
    rw [npbDmaAddrsShow_length]
    rfl
  have entries : min (hostDmaAddrsSz / 8) (npbDmaAddrsShow bufDmaAddrs).length =
      (npbDmaAddrsShow bufDmaAddrs).length := by
    rw [npbDmaAddrsShow_length]
    rfl
  have checked : checkDmaAddrs pciebenchChunkSz (npbDmaAddrsShow bufDmaAddrs) = .ok () ↔
      bufDmaAddrs.Aligned ∧ bufDmaAddrs.SingleBar := by
    rw [checkDmaAddrs_ok]
    simp only [npbDmaAddrsShow, List.mem_map, List.mem_finRange, true_and, forall_exists_index,
      forall_apply_eq_imp_iff, checkDmaAddr_ok]
    exact forall_and
  simp only [deliverDmaAddrs, setDmaAddrs, chunkSz, entries, List.take_length]
  cases outcome : checkDmaAddrs pciebenchChunkSz (npbDmaAddrsShow bufDmaAddrs) with
  | error message =>
      rw [outcome] at checked
      simp only [Outcome.error_bind, reduceCtorEq, false_iff] at checked ⊢
      rintro ⟨aligned, single, _⟩
      exact checked ⟨aligned, single⟩
  | ok done =>
      have passed := checked.mp outcome
      simp only [Outcome.ok_bind, copyDmaAddrs_show, Except.ok.injEq]
      constructor
      · rintro rfl
        exact ⟨passed.1, passed.2, rfl⟩
      · rintro ⟨_, _, rfl⟩
        rfl

end Delivery

end Pciebench
