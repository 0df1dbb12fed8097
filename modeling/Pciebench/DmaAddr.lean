import Mathlib
import Pciebench.Config
import Pciebench.Lib.Outcome
import Pciebench.Lib.Words
import Pciebench.SoftDivision

/-!
The host address array of `utils.c`: `dma_addr_init` fills it before a test and
`dma_addr_from_idx` reads it back. The value of `__log2(PCIEBENCH_CHUNK_SZ)` is a
parameter, because each build takes it from a macro of its own, and so is the division, which
one of the chips does in software.
-/

namespace Pciebench

/-- Why a run of the address code ends without a result. -/
inductive Stop
  | looping
  | divByZero
  | chunkIndex (chunkIdx : UInt32)
  deriving DecidableEq, Repr

def divU32 (x y : UInt32) : Except Stop UInt32 :=
  if y = 0 then .error .divByZero else .ok (x / y)

def modU32 (x y : UInt32) : Except Stop UInt32 :=
  if y = 0 then .error .divByZero else .ok (x % y)

/-- The operators `/` and `%` of unsigned integers. -/
structure Division where
  div : UInt32 → UInt32 → Except Stop UInt32
  mod : UInt32 → UInt32 → Except Stop UInt32

/-- As C has them: a zero divisor is undefined. -/
def Division.language : Division where
  div := divU32
  mod := modU32

/-- As the images for each chip compute them. -/
def Chip.division : Chip → Division
  | .nfp3200 =>
      { div := fun x y => .ok (Libnfcc.divU32 x.toInt32 y.toInt32).toUInt32
        mod := fun x y => .ok (Libnfcc.modU32 x.toInt32 y.toInt32).toUInt32 }
  | .nfp6000 => .language

def roundup64 (addr : UInt32) : UInt32 :=
  (addr + (64 - 1)) &&& ~~~(64 - 1 : UInt32)

/-- `chunk_dma_addrs`: the host address at which each chunk starts. -/
abbrev ChunkTable := Fin pciebenchChunks → UInt64

def chunkDmaAddr (table : ChunkTable) (chunkIdx : UInt32) : Except Stop UInt64 :=
  if inTable : chunkIdx.toNat < pciebenchChunks then
    .ok (table ⟨chunkIdx.toNat, inTable⟩)
  else
    .error (.chunkIndex chunkIdx)

structure AddrArgs where
  winSz : UInt32
  transSz : UInt32
  hOff : UInt32
  flags : UInt32
  deriving DecidableEq, Repr

def AddrArgs.unitSz (args : AddrArgs) : UInt32 :=
  roundup64 (args.transSz + args.hOff)

def AddrArgs.unitsInWin (args : AddrArgs) : UInt32 :=
  args.winSz / args.unitSz

def AddrArgs.linAddr (args : AddrArgs) (unit : UInt32) : UInt32 :=
  unit * args.unitSz + args.hOff

def AddrArgs.fits (args : AddrArgs) (unit : UInt32) : Bool :=
  args.transSz ≤ 0x1000 - (args.linAddr unit &&& 0xfff)

structure Pick where
  linAddr : UInt32
  add : UInt32
  reads : Nat
  deriving DecidableEq, Repr

def spliceChunk (shift : UInt32) (table : ChunkTable) (linAddr : UInt32) : Except Stop UInt64 := do
  let chunkIdx := linAddr >>> shift
  let chunkOff := linAddr &&& pciebenchChunkSzMask
  let dmaAddr ← chunkDmaAddr table chunkIdx
  .ok ((dmaAddr + chunkOff.toUInt64) ||| chunkIdx.toUInt64 <<< 56)

/-- The variables of `dma_addr_init` that outlive an iteration. `linAddrs` records the linear
address behind each entry of the array; the firmware does not keep it. -/
structure AddrState where
  dmaAddrs : Nat → UInt64
  linAddrs : Nat → UInt32
  add : UInt32
  reads : Nat

def AddrState.store (state : AddrState) (idx : Nat) (pick : Pick) (dmaAddr : UInt64) :
    AddrState where
  dmaAddrs := Function.update state.dmaAddrs idx dmaAddr
  linAddrs := Function.update state.linAddrs idx pick.linAddr
  add := pick.add
  reads := pick.reads

namespace Division

variable (division : Division)

/-- The inner `for (;;)` of `dma_addr_init`, for at most `fuel` iterations. `reads` counts
the pseudo random numbers taken so far. -/
def searchLinAddr (rng : Nat → UInt32) (args : AddrArgs) (unitsInWin idx : UInt32) :
    Nat → UInt32 → Nat → Except Stop Pick
  | 0, _, _ => .error .looping
  | fuel + 1, add, reads => do
      let random := flagSet args.flags latFlagsRandom
      let trans := if random then rng reads else idx + add
      let reads := if random then reads + 1 else reads
      let unit ← division.mod trans unitsInWin
      if args.fits unit then
        .ok { linAddr := args.linAddr unit, add, reads }
      else
        searchLinAddr rng args unitsInWin idx fuel (add + 1) reads

def dmaAddrInitFrom (fuel : Nat) (shift : UInt32) (table : ChunkTable) (rng : Nat → UInt32)
    (args : AddrArgs) (unitsInWin : UInt32) : Nat → Nat → AddrState → Except Stop AddrState
  | 0, _, state => .ok state
  | count + 1, idx, state => do
      let pick ←
        division.searchLinAddr rng args unitsInWin (UInt32.ofNat idx) fuel state.add state.reads
      let dmaAddr ← spliceChunk shift table pick.linAddr
      dmaAddrInitFrom fuel shift table rng args unitsInWin count (idx + 1)
        (state.store idx pick dmaAddr)

/-- `dma_addr_init`, where `fuel` bounds every run of the inner loop. -/
def dmaAddrInit (fuel : Nat) (shift : UInt32) (table : ChunkTable) (rng : Nat → UInt32)
    (args : AddrArgs) (state : AddrState) : Except Stop AddrState := do
  let unitsInWin ← division.div args.winSz args.unitSz
  division.dmaAddrInitFrom fuel shift table rng args unitsInWin pciebenchAddrArraySz 0
    { state with add := 0 }

end Division

/-! The same as C has it, whatever the chip. -/

def searchLinAddr (rng : Nat → UInt32) (args : AddrArgs) (unitsInWin idx : UInt32) (fuel : Nat)
    (add : UInt32) (reads : Nat) : Except Stop Pick :=
  Division.language.searchLinAddr rng args unitsInWin idx fuel add reads

def dmaAddrInitFrom (fuel : Nat) (shift : UInt32) (table : ChunkTable) (rng : Nat → UInt32)
    (args : AddrArgs) (unitsInWin : UInt32) (count idx : Nat) (state : AddrState) :
    Except Stop AddrState :=
  Division.language.dmaAddrInitFrom fuel shift table rng args unitsInWin count idx state

def dmaAddrInit (fuel : Nat) (shift : UInt32) (table : ChunkTable) (rng : Nat → UInt32)
    (args : AddrArgs) (state : AddrState) : Except Stop AddrState :=
  Division.language.dmaAddrInit fuel shift table rng args state

structure DmaAddr where
  addrHi : UInt32
  addrLo : UInt32
  chunkIdx : UInt32
  deriving DecidableEq, Repr

def dmaAddrFromIdx (dmaAddrs : Nat → UInt64) (idx : UInt32) : DmaAddr :=
  let dmaAddr := dmaAddrs (idx &&& pciebenchAddrArraySzMask).toNat
  let addrLo := (dmaAddr &&& 0xffffffff).toUInt32
  let addrHi := (dmaAddr >>> 32).toUInt32
  { addrHi := addrHi &&& 0xffffff
    addrLo
    chunkIdx := (addrHi >>> 24) &&& 0xff }

namespace Division

/-- A linear address that `dma_addr_init` may store: one of a unit that the division leads to
and that fits. -/
def Picks (division : Division) (args : AddrArgs) (unitsInWin linAddr : UInt32) : Prop :=
  ∃ trans unit, division.mod trans unitsInWin = .ok unit ∧ args.fits unit = true ∧
    args.linAddr unit = linAddr

variable {division : Division} {fuel : Nat} {shift : UInt32} {table : ChunkTable}
  {rng : Nat → UInt32} {args : AddrArgs} {unitsInWin : UInt32}

theorem searchLinAddr_picks {idx add : UInt32} {reads : Nat} {pick : Pick}
    (found : division.searchLinAddr rng args unitsInWin idx fuel add reads = .ok pick) :
    division.Picks args unitsInWin pick.linAddr := by
  induction fuel generalizing add reads with
  | zero => simp [searchLinAddr] at found
  | succ fuel ih =>
      simp only [searchLinAddr] at found
      obtain ⟨unit, reduced, found⟩ := Outcome.bind_eq_ok.mp found
      split at found
      · rename_i fitting
        simp only [Except.ok.injEq] at found
        subst found
        exact ⟨_, unit, reduced, fitting, rfl⟩
      · exact ih found

theorem dmaAddrInitFrom_entries {count idx : Nat} {state final : AddrState}
    (done : division.dmaAddrInitFrom fuel shift table rng args unitsInWin count idx state =
      .ok final) :
    (∀ index, index < idx →
      final.dmaAddrs index = state.dmaAddrs index ∧ final.linAddrs index = state.linAddrs index) ∧
    ∀ index, idx ≤ index → index < idx + count →
      division.Picks args unitsInWin (final.linAddrs index) ∧
      spliceChunk shift table (final.linAddrs index) = .ok (final.dmaAddrs index) := by
  induction count generalizing idx state with
  | zero =>
      simp only [dmaAddrInitFrom, Except.ok.injEq] at done
      subst done
      exact ⟨fun _ _ => ⟨rfl, rfl⟩, fun _ lower upper => by omega⟩
  | succ count ih =>
      simp only [dmaAddrInitFrom] at done
      obtain ⟨pick, found, done⟩ := Outcome.bind_eq_ok.mp done
      obtain ⟨dmaAddr, spliced, done⟩ := Outcome.bind_eq_ok.mp done
      obtain ⟨kept, written⟩ := ih done
      constructor
      · intro index below
        obtain ⟨dmaKept, linKept⟩ := kept index (by omega)
        have different : index ≠ idx := by omega
        exact ⟨by simpa [AddrState.store, different] using dmaKept,
          by simpa [AddrState.store, different] using linKept⟩
      · intro index lower upper
        by_cases current : index = idx
        · subst index
          obtain ⟨dmaKept, linKept⟩ := kept idx (by omega)
          simp only [AddrState.store, Function.update_self] at dmaKept linKept
          rw [dmaKept, linKept]
          exact ⟨searchLinAddr_picks found, spliced⟩
        · exact written index (by omega) (by omega)

theorem dmaAddrInit_entry {state final : AddrState}
    (done : division.dmaAddrInit fuel shift table rng args state = .ok final) {index : Nat}
    (bound : index < pciebenchAddrArraySz) :
    (∃ unit, args.fits unit = true ∧ args.linAddr unit = final.linAddrs index) ∧
      spliceChunk shift table (final.linAddrs index) = .ok (final.dmaAddrs index) := by
  simp only [dmaAddrInit] at done
  obtain ⟨unitsInWin, _, done⟩ := Outcome.bind_eq_ok.mp done
  obtain ⟨⟨_, unit, _, fitting, linEq⟩, spliced⟩ :=
    (dmaAddrInitFrom_entries done).2 index (Nat.zero_le _) (by omega)
  exact ⟨⟨unit, fitting, linEq⟩, spliced⟩

end Division

section Spec

variable {fuel : Nat} {shift : UInt32} {table : ChunkTable} {rng : Nat → UInt32}
  {args : AddrArgs} {unitsInWin : UInt32}

/-- A linear address that `dma_addr_init` may store: one of a unit of the window that fits. -/
def AddrArgs.Placed (args : AddrArgs) (unitsInWin linAddr : UInt32) : Prop :=
  ∃ unit, unit < unitsInWin ∧ args.fits unit = true ∧ args.linAddr unit = linAddr

theorem modU32_ok {x y result : UInt32} (done : modU32 x y = .ok result) :
    y ≠ 0 ∧ x % y = result := by
  unfold modU32 at done
  split at done
  · simp at done
  · rename_i nonzero
    simp only [Except.ok.injEq] at done
    exact ⟨nonzero, done⟩

theorem modU32_error {x y : UInt32} {stop : Stop} (failed : modU32 x y = .error stop) :
    stop = .divByZero ∧ y = 0 := by
  unfold modU32 at failed
  split at failed
  · rename_i zero
    simp only [Except.error.injEq] at failed
    exact ⟨failed.symm, zero⟩
  · simp at failed

theorem searchLinAddr_zero (idx add : UInt32) (reads : Nat) :
    searchLinAddr rng args unitsInWin idx 0 add reads = .error .looping :=
  rfl

theorem searchLinAddr_succ (idx add : UInt32) (reads : Nat) :
    searchLinAddr rng args unitsInWin idx (fuel + 1) add reads = (do
      let random := flagSet args.flags latFlagsRandom
      let trans := if random then rng reads else idx + add
      let reads := if random then reads + 1 else reads
      let unit ← modU32 trans unitsInWin
      if args.fits unit then
        .ok { linAddr := args.linAddr unit, add, reads }
      else
        searchLinAddr rng args unitsInWin idx fuel (add + 1) reads) :=
  rfl

theorem dmaAddrInitFrom_zero (idx : Nat) (state : AddrState) :
    dmaAddrInitFrom fuel shift table rng args unitsInWin 0 idx state = .ok state :=
  rfl

theorem dmaAddrInitFrom_succ (count idx : Nat) (state : AddrState) :
    dmaAddrInitFrom fuel shift table rng args unitsInWin (count + 1) idx state = (do
      let pick ←
        searchLinAddr rng args unitsInWin (UInt32.ofNat idx) fuel state.add state.reads
      let dmaAddr ← spliceChunk shift table pick.linAddr
      dmaAddrInitFrom fuel shift table rng args unitsInWin count (idx + 1)
        (state.store idx pick dmaAddr)) :=
  rfl

theorem Division.Picks.placed {linAddr : UInt32}
    (picks : Division.language.Picks args unitsInWin linAddr) :
    args.Placed unitsInWin linAddr := by
  obtain ⟨trans, unit, reduced, fitting, linEq⟩ := picks
  obtain ⟨nonzero, unitEq⟩ := modU32_ok reduced
  refine ⟨unit, ?_, fitting, linEq⟩
  rw [← unitEq]
  exact UInt32.mod_lt _ (UInt32.pos_iff_ne_zero.mpr nonzero)

theorem searchLinAddr_ok {idx add : UInt32} {reads : Nat} {pick : Pick}
    (found : searchLinAddr rng args unitsInWin idx fuel add reads = .ok pick) :
    args.Placed unitsInWin pick.linAddr :=
  (Division.searchLinAddr_picks found).placed

theorem searchLinAddr_error {idx add : UInt32} {reads : Nat} {stop : Stop}
    (failed : searchLinAddr rng args unitsInWin idx fuel add reads = .error stop) :
    stop = .looping ∨ stop = .divByZero ∧ unitsInWin = 0 := by
  induction fuel generalizing add reads with
  | zero =>
      simp only [searchLinAddr_zero, Except.error.injEq] at failed
      exact Or.inl failed.symm
  | succ fuel ih =>
      simp only [searchLinAddr_succ] at failed
      rcases Outcome.bind_eq_error.mp failed with divided | ⟨unit, reduced, failed⟩
      · exact Or.inr (modU32_error divided)
      · split at failed
        · simp at failed
        · exact ih failed

theorem spliceChunk_error {linAddr : UInt32} {stop : Stop}
    (failed : spliceChunk shift table linAddr = .error stop) :
    stop = .chunkIndex (linAddr >>> shift) ∧ pciebenchChunks ≤ (linAddr >>> shift).toNat := by
  simp only [spliceChunk, chunkDmaAddr] at failed
  split at failed
  · simp at failed
  · rename_i outside
    simp only [Outcome.error_bind, Except.error.injEq] at failed
    exact ⟨failed.symm, by omega⟩

theorem dmaAddrInitFrom_error {count idx : Nat} {state : AddrState} {stop : Stop}
    (failed : dmaAddrInitFrom fuel shift table rng args unitsInWin count idx state =
      .error stop) :
    stop = .looping ∨ (stop = .divByZero ∧ unitsInWin = 0) ∨
      ∃ linAddr, args.Placed unitsInWin linAddr ∧
        spliceChunk shift table linAddr = .error stop := by
  induction count generalizing idx state with
  | zero => simp [dmaAddrInitFrom_zero] at failed
  | succ count ih =>
      simp only [dmaAddrInitFrom_succ] at failed
      rcases Outcome.bind_eq_error.mp failed with searched | ⟨pick, found, failed⟩
      · rcases searchLinAddr_error searched with looping | divided
        · exact .inl looping
        · exact .inr (.inl divided)
      · rcases Outcome.bind_eq_error.mp failed with spliced | ⟨dmaAddr, _, failed⟩
        · exact .inr (.inr ⟨pick.linAddr, searchLinAddr_ok found, spliced⟩)
        · exact ih failed

theorem dmaAddrInitFrom_ok {count idx : Nat} {state final : AddrState}
    (done : dmaAddrInitFrom fuel shift table rng args unitsInWin count idx state = .ok final) :
    (∀ index, index < idx →
      final.dmaAddrs index = state.dmaAddrs index ∧ final.linAddrs index = state.linAddrs index) ∧
    ∀ index, idx ≤ index → index < idx + count →
      args.Placed unitsInWin (final.linAddrs index) ∧
      spliceChunk shift table (final.linAddrs index) = .ok (final.dmaAddrs index) := by
  obtain ⟨kept, written⟩ := Division.dmaAddrInitFrom_entries done
  refine ⟨kept, ?_⟩
  intro index lower upper
  obtain ⟨picks, spliced⟩ := written index lower upper
  exact ⟨picks.placed, spliced⟩

theorem dmaAddrInit_eq_from (nonzero : args.unitSz ≠ 0) (state : AddrState) :
    dmaAddrInit fuel shift table rng args state =
      dmaAddrInitFrom fuel shift table rng args args.unitsInWin pciebenchAddrArraySz 0
        { state with add := 0 } := by
  simp only [dmaAddrInit, Division.dmaAddrInit, Division.language, divU32, if_neg nonzero,
    Outcome.ok_bind, AddrArgs.unitsInWin, dmaAddrInitFrom]

theorem dmaAddrInit_unit_zero (zero : args.unitSz = 0) (state : AddrState) :
    dmaAddrInit fuel shift table rng args state = .error .divByZero := by
  simp only [dmaAddrInit, Division.dmaAddrInit, Division.language, divU32, zero, if_true,
    Outcome.error_bind]

theorem dmaAddrInit_ok {state final : AddrState}
    (done : dmaAddrInit fuel shift table rng args state = .ok final) {index : Nat}
    (bound : index < pciebenchAddrArraySz) :
    args.Placed args.unitsInWin (final.linAddrs index) ∧
      spliceChunk shift table (final.linAddrs index) = .ok (final.dmaAddrs index) := by
  by_cases nonzero : args.unitSz ≠ 0
  · rw [dmaAddrInit_eq_from nonzero] at done
    exact (dmaAddrInitFrom_ok done).2 index (Nat.zero_le _) (by omega)
  · have zero : args.unitSz = 0 := not_not.mp nonzero
    rw [dmaAddrInit_unit_zero zero] at done
    contradiction

end Spec

/-! Where no divisor is zero, the chips agree with C. -/

section Chips

variable {fuel : Nat} {shift : UInt32} {table : ChunkTable} {rng : Nat → UInt32}
  {args : AddrArgs} {unitsInWin : UInt32}

variable (chip : Chip)

theorem Chip.division_eq {x y : UInt32} (nonzero : y ≠ 0) :
    chip.division.div x y = divU32 x y ∧ chip.division.mod x y = modU32 x y := by
  cases chip with
  | nfp3200 =>
      have quotient : (Libnfcc.divU32 x.toInt32 y.toInt32).toUInt32 = x / y :=
        divMod32_quotient nonzero
      have remainder : (Libnfcc.modU32 x.toInt32 y.toInt32).toUInt32 = x % y :=
        divMod32_remainder nonzero (by decide)
      simp only [division, quotient, remainder, divU32, modU32, if_neg nonzero, and_self]
  | nfp6000 => exact ⟨rfl, rfl⟩

theorem Chip.division_zero (x : UInt32) :
    Chip.nfp3200.division.div x 0 = .ok 0xffffffff ∧
      Chip.nfp3200.division.mod x 0 = .ok 0xffffffff :=
  ⟨rfl, rfl⟩

theorem Chip.searchLinAddr_eq (nonzero : unitsInWin ≠ 0) (idx add : UInt32) (reads : Nat) :
    chip.division.searchLinAddr rng args unitsInWin idx fuel add reads =
      searchLinAddr rng args unitsInWin idx fuel add reads := by
  induction fuel generalizing add reads with
  | zero => rfl
  | succ fuel ih =>
      simp only [Division.searchLinAddr, (chip.division_eq nonzero).2, ih, searchLinAddr_succ]

theorem Chip.dmaAddrInitFrom_eq (nonzero : unitsInWin ≠ 0) (count idx : Nat) (state : AddrState) :
    chip.division.dmaAddrInitFrom fuel shift table rng args unitsInWin count idx state =
      dmaAddrInitFrom fuel shift table rng args unitsInWin count idx state := by
  induction count generalizing idx state with
  | zero => rfl
  | succ count ih =>
      simp only [Division.dmaAddrInitFrom, chip.searchLinAddr_eq nonzero, ih,
        dmaAddrInitFrom_succ]

theorem Chip.dmaAddrInit_eq (nonzero : args.unitSz ≠ 0) (some : args.unitsInWin ≠ 0)
    (state : AddrState) :
    chip.division.dmaAddrInit fuel shift table rng args state =
      dmaAddrInit fuel shift table rng args state := by
  rw [dmaAddrInit_eq_from nonzero, ← chip.dmaAddrInitFrom_eq some]
  simp only [Division.dmaAddrInit, (chip.division_eq nonzero).1, divU32, if_neg nonzero,
    Outcome.ok_bind, AddrArgs.unitsInWin]

theorem Chip.dmaAddrInit_of_ok {state final : AddrState}
    (done : dmaAddrInit fuel shift table rng args state = .ok final) :
    chip.division.dmaAddrInit fuel shift table rng args state = .ok final := by
  obtain ⟨⟨unit, below, _⟩, _⟩ := dmaAddrInit_ok done (by decide : 0 < pciebenchAddrArraySz)
  have some : args.unitsInWin ≠ 0 := fun none => by
    rw [none] at below
    exact absurd below UInt32.not_lt_zero
  have nonzero : args.unitSz ≠ 0 := fun zero => some (by
    rw [AddrArgs.unitsInWin, zero, UInt32.div_zero])
  rw [chip.dmaAddrInit_eq nonzero some, done]

end Chips

end Pciebench
