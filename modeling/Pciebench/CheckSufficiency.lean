import Mathlib
import Pciebench.HostChecks
import Pciebench.SequentialScan

/-!
What the checks of the host and of the firmware together leave out: the requests that divide by
zero or index past `chunk_dma_addrs`.
-/

namespace Pciebench

/-- Filling the array never faults, whatever the random numbers. -/
def InitSafe (shift : UInt32) (table : ChunkTable) (args : AddrArgs) : Prop :=
  ∀ fuel rng state stop, dmaAddrInit fuel shift table rng args state = .error stop →
    stop = .looping

def WarmSafe (chip : Chip) (shift : UInt32) (table : ChunkTable) (winSz : UInt32) : Prop :=
  ∀ rng pcie reads, ∃ final, hostWarmCache chip shift table rng winSz pcie reads = .ok final

/-- Every transaction that a test may pick starts inside the host buffer. -/
def AddrArgs.InMem (args : AddrArgs) : Prop :=
  ∀ unit, unit < args.unitsInWin → args.fits unit = true →
    (args.linAddr unit).toNat < pciebenchMaxMem

/-- One line for each transaction, without wrap-around. -/
def AddrArgs.OneLine (args : AddrArgs) : Prop :=
  args.span ≤ 64 ∧ args.hOff.toNat < 64

def AddrArgs.EmptyAtEnd (args : AddrArgs) : Prop :=
  args.transSz = 0 ∧ args.hOff.toNat % 64 = 0 ∧ pciebenchMaxMem % args.hOff.toNat = 0 ∧
    args.winSz.toNat = pciebenchMaxMem

section Init

variable {shift : UInt32} {table : ChunkTable} {args : AddrArgs}

theorem not_initSafe_of_span (zero : args.span = 0) : ¬ InitSafe shift table args := by
  intro safe
  have unitZero := AddrArgs.unitSz_of_span zero
  have divided : dmaAddrInit 0 shift table (fun _ => 0) args
      { dmaAddrs := fun _ => 0, linAddrs := fun _ => 0, add := 0, reads := 0 } =
        .error .divByZero := dmaAddrInit_unit_zero unitZero _
  have stop := safe _ _ _ _ divided
  contradiction

section Checked

variable (checked : args.Checked)

include checked

theorem initSafe_of_placed (inTable : ∀ linAddr, args.Placed args.unitsInWin linAddr →
    (linAddr >>> shift).toNat < pciebenchChunks) : InitSafe shift table args := by
  intro fuel rng state stop failed
  rw [dmaAddrInit_eq_from checked.unitSz_ne_zero] at failed
  rcases dmaAddrInitFrom_error failed with looping | ⟨_, empty⟩ | ⟨linAddr, placed, spliced⟩
  · exact looping
  · exact absurd empty checked.unitsInWin_ne_zero
  · obtain ⟨_, outside⟩ := spliceChunk_error spliced
    have inside := inTable linAddr placed
    omega

theorem initSafe_of_inMem (inMem : args.InMem) : InitSafe 22 table args := by
  apply initSafe_of_placed checked
  rintro linAddr ⟨unit, bound, fitting, rfl⟩
  have inside := inMem unit bound fitting
  rw [chunkIdx_toNat]
  simp only [pciebenchChunks_eq, pciebenchChunkSz_eq, pciebenchMaxMem_eq] at *
  omega

omit checked in
theorem dmaAddrInitFrom_outside {fuel count idx : Nat} {rng : Nat → UInt32} {unitsInWin : UInt32}
    {state : AddrState} {pick : Pick}
    (found : searchLinAddr rng args unitsInWin (UInt32.ofNat idx) fuel state.add state.reads =
      .ok pick)
    (outside : pciebenchMaxMem ≤ pick.linAddr.toNat) :
    dmaAddrInitFrom fuel 22 table rng args unitsInWin (count + 1) idx state =
      .error (.chunkIndex (pick.linAddr >>> 22)) := by
  have beyond : ¬ (pick.linAddr >>> 22).toNat < pciebenchChunks := by
    rw [chunkIdx_toNat]
    simp only [pciebenchChunks_eq, pciebenchChunkSz_eq, pciebenchMaxMem_eq] at *
    omega
  simp only [dmaAddrInitFrom_succ, found, Outcome.ok_bind, spliceChunk, chunkDmaAddr,
    dif_neg beyond, Outcome.error_bind]

variable (table) in
theorem random_overruns (random : flagSet args.flags latFlagsRandom = true)
    (overrun : ¬ args.InMem) :
    ∃ unit, ∀ (rng : Nat → UInt32) state, rng state.reads = unit → ∃ chunkIdx,
      dmaAddrInit 1 22 table rng args state = .error (.chunkIndex chunkIdx) := by
  simp only [AddrArgs.InMem, not_forall, Nat.not_lt] at overrun
  obtain ⟨unit, bound, fitting, outside⟩ := overrun
  have unitEq : unit % args.unitsInWin = unit := by
    apply UInt32.toNat_inj.mp
    rw [UInt32.toNat_mod, Nat.mod_eq_of_lt (UInt32.lt_iff_toNat_lt.mp bound)]
  refine ⟨unit, ?_⟩
  intro rng state drawn
  have picked : searchLinAddr rng args args.unitsInWin (UInt32.ofNat 0) 1 0 state.reads =
      .ok { linAddr := args.linAddr unit, add := 0, reads := state.reads + 1 } := by
    simp only [searchLinAddr_succ, random, if_true, modU32, if_neg checked.unitsInWin_ne_zero,
      drawn, unitEq, Outcome.ok_bind, fitting]
  have entries : pciebenchAddrArraySz = 1048575 + 1 := rfl
  rw [dmaAddrInit_eq_from checked.unitSz_ne_zero, entries]
  exact ⟨_, dmaAddrInitFrom_outside picked outside⟩

theorem inMem_of_random (random : flagSet args.flags latFlagsRandom = true)
    (safe : InitSafe 22 table args) : args.InMem := by
  by_contra overrun
  obtain ⟨unit, faults⟩ := random_overruns table checked random overrun
  obtain ⟨chunkIdx, fault⟩ := faults (fun _ => unit)
    { dmaAddrs := fun _ => 0, linAddrs := fun _ => 0, add := 0, reads := 0 } rfl
  have stop := safe _ _ _ _ fault
  contradiction

section Sequential

variable (sequential : flagSet args.flags latFlagsRandom = false)

include sequential

variable (table) (rng : Nat → UInt32) in
/-- The scan reaches every fitting position with fewer of them below it than there are entries,
unless it faults before. -/
theorem dmaAddrInitFrom_reaches {fuel target : Nat}
    (hit : args.FitsAt target) (upper : target + 1 < 2 ^ 32) (enough : target < fuel)
    (outside : pciebenchMaxMem ≤
      (args.linAddr (UInt32.ofNat (target % args.unitsInWin.toNat))).toNat)
    {count idx position : Nat} (state : AddrState) (scan : ScanState args idx state.add position)
    (lower : position ≤ target) (near : Nat.count args.FitsAt target < idx + count) :
    ∃ chunkIdx, dmaAddrInitFrom fuel 22 table rng args args.unitsInWin count idx state =
      .error (.chunkIndex chunkIdx) := by
  induction count generalizing idx position state with
  | zero =>
      have below := Nat.count_monotone args.FitsAt lower
      rw [scan.counted] at below
      omega
  | succ count ih =>
      obtain ⟨next, nextLower, nextUpper, nextHit, first⟩ :=
        PeriodicSearch.first_hit_before lower hit
      obtain ⟨pick, found, nextScan, _, _, linEq⟩ := searchLinAddr_scan rng sequential
        checked.unitsInWin_ne_zero fuel state.reads scan nextLower (by omega) (by omega) nextHit
        first
      by_cases arrived : next = target
      · subst next
        rw [← linEq] at outside
        exact ⟨_, dmaAddrInitFrom_outside found outside⟩
      · cases spliced : spliceChunk 22 table pick.linAddr with
        | error stop =>
            obtain ⟨rfl, _⟩ := spliceChunk_error spliced
            refine ⟨pick.linAddr >>> 22, ?_⟩
            simp only [dmaAddrInitFrom_succ, found, spliced, Outcome.ok_bind, Outcome.error_bind]
        | ok entry =>
            obtain ⟨chunkIdx, failed⟩ := ih (state.store idx pick entry) nextScan (by omega)
              (by omega)
            refine ⟨chunkIdx, ?_⟩
            simp only [dmaAddrInitFrom_succ, found, spliced, Outcome.ok_bind]
            exact failed

omit sequential in
theorem unit_end_inMem {unit : UInt32} (bound : unit < args.unitsInWin)
    (fitting : args.fits unit = true) (inside : (args.linAddr unit).toNat < pciebenchMaxMem) :
    unit.toNat * args.unitSz.toNat + args.span ≤ pciebenchMaxMem := by
  have inPage := (args.fits_iff unit).mp fitting
  rw [← checked.fits_end bound fitting]
  rw [pciebenchMaxMem_eq] at inside ⊢
  omega

omit sequential in
theorem oneLine_of_dense (long : pciebenchAddrArraySz ≤ args.unitsInWin.toNat)
    (dense : ∀ unit, unit < pciebenchAddrArraySz →
      args.FitsUnit unit ∧ (args.linAddr (UInt32.ofNat unit)).toNat < pciebenchMaxMem) :
    args.OneLine := by
  have unitPos := checked.unitSz_pos
  have spanLe := checked.span_le_unitSz
  have last : pciebenchAddrArraySz - 1 < pciebenchAddrArraySz := by decide
  obtain ⟨lastFits, lastIn⟩ := dense _ last
  have lastVal : (UInt32.ofNat (pciebenchAddrArraySz - 1)).toNat = pciebenchAddrArraySz - 1 :=
    unit_ofNat_toNat (Nat.lt_of_lt_of_le last long)
  have lastBound : UInt32.ofNat (pciebenchAddrArraySz - 1) < args.unitsInWin := by
    rw [UInt32.lt_iff_toNat_lt, lastVal]
    exact Nat.lt_of_lt_of_le last long
  have lastEnd := checked.fits_end lastBound lastFits
  have lastEndIn := unit_end_inMem checked lastBound lastFits lastIn
  obtain ⟨firstFits, _⟩ := dense 0 (by decide)
  have firstBound : UInt32.ofNat 0 < args.unitsInWin := by
    rw [UInt32.lt_iff_toNat_lt]
    exact Nat.lt_of_lt_of_le (by decide) long
  have firstEnd := checked.fits_end firstBound firstFits
  have first : (args.linAddr (UInt32.ofNat 0)).toNat = args.hOff.toNat := by
    simp [AddrArgs.linAddr]
  have zero : (UInt32.ofNat 0).toNat = 0 := rfl
  rw [lastVal] at lastEnd lastEndIn
  rw [first, zero] at firstEnd
  simp only [pciebenchAddrArraySz_eq, pciebenchMaxMem_eq] at *
  have unitSz : args.unitSz.toNat = 64 := by
    have aligned := checked.unitSz_mod
    omega
  rw [unitSz] at lastEnd spanLe
  exact ⟨spanLe, by omega⟩

omit checked sequential in
theorem fitsAt_unit {unit : Nat} (bound : unit < args.unitsInWin.toNat) :
    args.FitsAt unit ↔ args.FitsUnit unit := by
  rw [AddrArgs.FitsAt, PeriodicSearch.Hit, Nat.mod_eq_of_lt bound]

omit sequential in
theorem count_fitting_lt (several : ¬ args.OneLine) {target : Nat}
    (bound : target < args.unitsInWin.toNat)
    (before : ∀ unit, unit < target → args.FitsUnit unit →
      (args.linAddr (UInt32.ofNat unit)).toNat < pciebenchMaxMem) :
    Nat.count args.FitsAt target < pciebenchAddrArraySz := by
  by_contra full
  have below : Nat.count args.FitsAt target ≤ target := Nat.count_le _
  have small : ∀ unit, pciebenchAddrArraySz ≤ unit → unit < target → ¬ args.FitsAt unit := by
    intro unit lower unitBelow unitHit
    have inRange : unit < args.unitsInWin.toNat := by omega
    have unitFits := (fitsAt_unit inRange).mp unitHit
    have value := unit_ofNat_toNat inRange
    have unitBound : UInt32.ofNat unit < args.unitsInWin := by
      rw [UInt32.lt_iff_toNat_lt, value]
      exact inRange
    have unitEnd := unit_end_inMem checked unitBound unitFits (before unit unitBelow unitFits)
    have spanPos := checked.spanPos
    have lines := Nat.mul_le_mul_left unit checked.unitSz_pos
    rw [value] at unitEnd
    simp only [pciebenchAddrArraySz_eq, pciebenchMaxMem_eq] at *
    omega
  have counted := PeriodicSearch.count_of_no_hit (by omega) small
  have all : Nat.count args.FitsAt pciebenchAddrArraySz = pciebenchAddrArraySz :=
    Nat.le_antisymm (Nat.count_le _) (by omega)
  refine several (oneLine_of_dense checked (by omega) ?_)
  intro unit unitBound
  have unitHit := Nat.count_iff_forall.mp all unit unitBound
  have unitFits := (fitsAt_unit (by omega)).mp unitHit
  exact ⟨unitFits, before unit (by omega) unitFits⟩

variable (table) in
theorem sequential_overruns (several : ¬ args.OneLine) (overrun : ¬ args.InMem) :
    ∃ fuel, ∀ rng state, ∃ chunkIdx,
      dmaAddrInit fuel 22 table rng args state = .error (.chunkIndex chunkIdx) := by
  have outside : ∃ unit, unit < args.unitsInWin.toNat ∧ args.FitsUnit unit ∧
      pciebenchMaxMem ≤ (args.linAddr (UInt32.ofNat unit)).toNat := by
    simp only [AddrArgs.InMem, not_forall, Nat.not_lt] at overrun
    obtain ⟨unit, bound, fitting, beyond⟩ := overrun
    refine ⟨unit.toNat, UInt32.lt_iff_toNat_lt.mp bound, ?_, ?_⟩
    · rw [AddrArgs.FitsUnit, UInt32.ofNat_toNat]
      exact fitting
    · rw [UInt32.ofNat_toNat]
      exact beyond
  obtain ⟨bound, fitting, beyond⟩ := Nat.find_spec outside
  have near : Nat.count args.FitsAt (Nat.find outside) < 0 + pciebenchAddrArraySz := by
    rw [Nat.zero_add]
    refine count_fitting_lt checked several bound ?_
    intro unit below unitFits
    by_contra unitBeyond
    exact Nat.find_min outside below ⟨by omega, unitFits, Nat.le_of_not_lt unitBeyond⟩
  generalize Nat.find outside = target at *
  have units := checked.unitsInWin_le
  have winBound := args.winSz.toNat_lt
  have hit : args.FitsAt target := (fitsAt_unit bound).mpr fitting
  rw [← Nat.mod_eq_of_lt bound] at beyond
  refine ⟨target + 1, ?_⟩
  intro rng state
  rw [dmaAddrInit_eq_from checked.unitSz_ne_zero]
  exact dmaAddrInitFrom_reaches table checked sequential rng hit (by omega)
    (Nat.lt_succ_self target) beyond { state with add := 0 } (scanState_zero args)
    (Nat.zero_le _) near

theorem inMem_of_sequential (safe : InitSafe 22 table args) (several : ¬ args.OneLine) :
    args.InMem := by
  by_contra overrun
  obtain ⟨fuel, faults⟩ := sequential_overruns table checked sequential several overrun
  obtain ⟨chunkIdx, fault⟩ := faults (fun _ => 0)
    { dmaAddrs := fun _ => 0, linAddrs := fun _ => 0, add := 0, reads := 0 }
  have stop := safe _ _ _ _ fault
  contradiction

theorem dmaAddrInitFrom_dense {fuel : Nat} {rng : Nat → UInt32} {stop : Stop}
    (dense : ∀ unit, unit < args.unitsInWin.toNat → args.FitsUnit unit)
    {count idx : Nat} {state : AddrState} (start : state.add = 0)
    (inArray : idx + count ≤ pciebenchAddrArraySz)
    (failed : dmaAddrInitFrom fuel shift table rng args args.unitsInWin count idx state =
      .error stop) :
    stop = .looping ∨ ∃ entry, entry < pciebenchAddrArraySz ∧
      spliceChunk shift table (args.linAddr (UInt32.ofNat (entry % args.unitsInWin.toNat))) =
        .error stop := by
  have positive := checked.unitsInWin_pos
  induction count generalizing idx state with
  | zero => simp [dmaAddrInitFrom_zero] at failed
  | succ count ih =>
      cases fuel with
      | zero =>
          simp only [dmaAddrInitFrom_succ, searchLinAddr_zero, Outcome.error_bind,
            Except.error.injEq] at failed
          exact .inl failed.symm
      | succ fuel =>
          simp only [pciebenchAddrArraySz_eq] at *
          have position : (UInt32.ofNat idx + 0).toNat = idx := by
            rw [UInt32.add_zero, UInt32.toNat_ofNat']
            omega
          have fitting : args.fits (UInt32.ofNat (idx % args.unitsInWin.toNat)) = true :=
            dense _ (Nat.mod_lt _ positive)
          simp only [dmaAddrInitFrom_succ, searchLinAddr_succ, sequential, Bool.false_eq_true,
            if_false, start, modU32_units checked.unitsInWin_ne_zero, position, fitting, if_true,
            Outcome.ok_bind] at failed
          rcases Outcome.bind_eq_error.mp failed with spliced | ⟨dmaAddr, _, failed⟩
          · exact .inr ⟨idx, by omega, spliced⟩
          · exact ih rfl (by omega) failed

theorem initSafe_of_oneLine (transSz : args.transSz.toNat ≤ 4096) (oneLine : args.OneLine) :
    InitSafe 22 table args := by
  obtain ⟨spanLe, offLt⟩ := oneLine
  have spanPos := checked.spanPos
  have unitSz : args.unitSz.toNat = 64 := by
    rw [checked.unitSz_toNat]
    omega
  have spanEq : args.span = args.transSz.toNat + args.hOff.toNat := by
    rw [AddrArgs.span, UInt32.toNat_add]
    omega
  have units := checked.unitsInWin_le
  have winBound := args.winSz.toNat_lt
  have lin : ∀ unit, unit < args.unitsInWin.toNat →
      (args.linAddr (UInt32.ofNat unit)).toNat = unit * 64 + args.hOff.toNat := by
    intro unit bound
    rw [AddrArgs.linAddr, UInt32.toNat_add, UInt32.toNat_mul, unit_ofNat_toNat bound, unitSz]
    omega
  have dense : ∀ unit, unit < args.unitsInWin.toNat → args.FitsUnit unit := by
    intro unit bound
    rw [AddrArgs.FitsUnit, args.fits_iff, lin unit bound]
    omega
  intro fuel rng state stop failed
  rw [dmaAddrInit_eq_from checked.unitSz_ne_zero] at failed
  rcases dmaAddrInitFrom_dense checked sequential dense rfl (Nat.zero_add _).le failed with
    looping | ⟨entry, bound, spliced⟩
  · exact looping
  · obtain ⟨_, outside⟩ := spliceChunk_error spliced
    have turn : entry % args.unitsInWin.toNat ≤ entry := Nat.mod_le _ _
    have inRange : entry % args.unitsInWin.toNat < args.unitsInWin.toNat :=
      Nat.mod_lt _ checked.unitsInWin_pos
    rw [chunkIdx_toNat, lin _ inRange] at outside
    simp only [pciebenchChunks_eq, pciebenchChunkSz_eq, pciebenchAddrArraySz_eq] at *
    omega

end Sequential

end Checked

variable (table) in
theorem initSafe_iff (checked : args.Checked) (transSz : args.transSz.toNat ≤ 4096) :
    InitSafe 22 table args ↔
      flagSet args.flags latFlagsRandom = false ∧ args.OneLine ∨ args.InMem := by
  constructor
  · intro safe
    cases random : flagSet args.flags latFlagsRandom with
    | true => exact .inr (inMem_of_random checked random safe)
    | false =>
        by_cases oneLine : args.OneLine
        · exact .inl ⟨rfl, oneLine⟩
        · exact .inr (inMem_of_sequential checked random safe oneLine)
  · rintro (⟨sequential, oneLine⟩ | inMem)
    · exact initSafe_of_oneLine checked sequential transSz oneLine
    · exact initSafe_of_inMem checked inMem

theorem inMem_iff (checked : args.Checked) (window : args.winSz.toNat ≤ pciebenchMaxMem) :
    args.InMem ↔ ¬ args.EmptyAtEnd := by
  have unitPos := checked.unitSz_pos
  constructor
  · rintro inMem ⟨empty, offLines, offDivides, whole⟩
    have span : args.span = args.hOff.toNat := by
      rw [AddrArgs.span, empty, UInt32.zero_add]
    have unitSz : args.unitSz.toNat = args.hOff.toNat := by
      rw [checked.unitSz_toNat, span]
      omega
    have units : args.unitsInWin.toNat * args.unitSz.toNat = pciebenchMaxMem := by
      rw [AddrArgs.Checked.unitsInWin_toNat, whole, unitSz]
      exact Nat.div_mul_cancel (Nat.dvd_of_mod_eq_zero offDivides)
    have positive := checked.unitsInWin_pos
    have inRange : args.unitsInWin.toNat - 1 < args.unitsInWin.toNat := by omega
    have value := unit_ofNat_toNat inRange
    have bound : UInt32.ofNat (args.unitsInWin.toNat - 1) < args.unitsInWin := by
      rw [UInt32.lt_iff_toNat_lt, value]
      exact inRange
    have noBytes : args.transSz.toNat = 0 := by
      rw [empty]
      rfl
    have fitting : args.fits (UInt32.ofNat (args.unitsInWin.toNat - 1)) = true := by
      rw [args.fits_iff, noBytes]
      omega
    have unitEnd := checked.fits_end bound fitting
    have inside := inMem _ bound fitting
    rw [value, span, ← unitSz, noBytes, ← Nat.succ_mul, Nat.succ_eq_add_one,
      Nat.sub_add_cancel positive, units] at unitEnd
    omega
  -- Only an empty transaction at the very end of its unit starts where the window ends.
  · intro notAtEnd unit bound fitting
    by_contra outside
    have inWindow := checked.fits_in_window bound fitting
    have unitEnd := checked.fits_end bound fitting
    have unitLe := AddrArgs.Checked.unit_end_le (UInt32.lt_iff_toNat_lt.mp bound)
    have spanLe := checked.span_le_unitSz
    have lines := checked.unitSz_mod
    rw [Nat.succ_mul] at unitLe
    have empty : args.transSz = 0 := UInt32.toNat_inj.mp (by
      change args.transSz.toNat = 0
      omega)
    have span : args.span = args.hOff.toNat := by
      rw [AddrArgs.span, empty, UInt32.zero_add]
    have unitSz : args.unitSz.toNat = args.hOff.toNat := by omega
    refine notAtEnd ⟨empty, by omega, ?_, by omega⟩
    have whole : pciebenchMaxMem = (unit.toNat + 1) * args.hOff.toNat := by
      rw [Nat.succ_mul, ← unitSz]
      omega
    rw [whole]
    exact Nat.mul_mod_left _ _

theorem not_emptyAtEnd_of_oneLine (checked : args.Checked) (oneLine : args.OneLine) :
    ¬ args.EmptyAtEnd := by
  rintro ⟨empty, offLines, _, _⟩
  have spanPos := checked.spanPos
  have offLt := oneLine.2
  rw [AddrArgs.span, empty, UInt32.zero_add] at spanPos
  omega

theorem shift31_inTable (linAddr : UInt32) : (linAddr >>> 31).toNat < pciebenchChunks := by
  have shift : (31 : UInt32).toNat = 31 := rfl
  have bound := linAddr.toNat_lt
  rw [Words.toNat_shiftRight32 _ _ (by decide), shift]
  simp only [pciebenchChunks_eq]
  omega

end Init

section Warm

variable {chip : Chip} {table : ChunkTable} {winSz : UInt32}

theorem writeRegionFrom_inMem {rng : Nat → UInt32} {left : Nat} (trans : Nat)
    {state final : RegionState}
    (done : writeRegionFrom chip 22 table rng winSz false left (UInt32.ofNat trans) state =
      .ok final)
    {step : Nat} (bound : step < left) :
    (UInt32.ofNat (trans + step + 1) <<< 6 % winSz).toNat < pciebenchMaxMem := by
  induction left generalizing trans step state with
  | zero => omega
  | succ left ih =>
      simp only [writeRegionFrom] at done
      obtain ⟨next, first, rest⟩ := Outcome.bind_eq_ok.mp done
      cases step with
      | zero =>
          obtain ⟨linEq, inMem, _⟩ := writeRegionStep_ok first
          rw [linEq] at inMem
          rw [Nat.add_zero, UInt32.ofNat_add]
          exact inMem
      | succ step =>
          have later : UInt32.ofNat trans + 1 = UInt32.ofNat (trans + 1) := by
            rw [UInt32.ofNat_add]
            rfl
          rw [later] at rest
          have inMem := ih (trans + 1) rest (Nat.lt_of_succ_lt_succ bound)
          rw [Nat.add_right_comm trans 1 step] at inMem
          exact inMem

theorem warm_overruns {rng : Nat → UInt32} {pcie : PcieState} {reads : Nat} {final : RegionState}
    (done : hostWarmCache chip 22 table rng winSz pcie reads = .ok final) :
    winSz.toNat ≤ pciebenchMaxMem := by
  by_contra large
  simp only [hostWarmCache, writeRegion] at done
  obtain ⟨chunkAddr, _, done⟩ := Outcome.bind_eq_ok.mp done
  have winBound := winSz.toNat_lt
  have lines : (2 * (winSz / 64)).toNat = 2 * (winSz.toNat / 64) := by
    have two : (2 : UInt32).toNat = 2 := rfl
    have line : (64 : UInt32).toNat = 64 := rfl
    rw [UInt32.toNat_mul, UInt32.toNat_div, two, line]
    omega
  have reached : pciebenchAddrArraySz - 1 < (2 * (winSz / 64)).toNat := by
    rw [lines]
    simp only [pciebenchAddrArraySz_eq, pciebenchMaxMem_eq] at *
    omega
  have inMem := writeRegionFrom_inMem 0 done reached
  have next : UInt32.ofNat (0 + (pciebenchAddrArraySz - 1) + 1) <<< 6 = 67108864 := by decide
  have value : (67108864 : UInt32).toNat = 67108864 := rfl
  rw [next, UInt32.toNat_mod, value, Nat.mod_eq_of_lt (by
    simp only [pciebenchMaxMem_eq] at large
    omega)] at inMem
  simp at inMem

theorem warmSafe_iff : WarmSafe chip 22 table winSz ↔ winSz.toNat ≤ pciebenchMaxMem := by
  constructor
  · intro safe
    obtain ⟨final, done⟩ := safe (fun _ => 0) { bars := fun _ => 0, accesses := [] } 0
    exact warm_overruns done
  · intro window rng pcie reads
    exact writeRegion_total chip table rng false (shiftInTable_mem window) pcie reads

theorem warmSafe_shift31 : WarmSafe chip 31 table winSz := by
  intro rng pcie reads
  exact writeRegion_total chip table rng false (fun linAddr _ => shift31_inTable linAddr) pcie reads

end Warm

/-- The accepted requests that neither divide by zero nor index past `chunk_dma_addrs`, with
either shift. -/
theorem checks_sufficient (chip : Chip) (test : PciebenchTest) (table : ChunkTable)
    (args : AddrArgs) (accepted : Accepted chip test args) :
    (InitSafe 22 table args ∧ WarmSafe chip 22 table args.winSz ↔
      args.span ≠ 0 ∧ args.winSz.toNat ≤ pciebenchMaxMem ∧ ¬ args.EmptyAtEnd) ∧
    (InitSafe 22 table args ↔
      args.span ≠ 0 ∧
        (flagSet args.flags latFlagsRandom = false ∧ args.OneLine ∨ args.InMem)) ∧
    (WarmSafe chip 22 table args.winSz ↔ args.winSz.toNat ≤ pciebenchMaxMem) ∧
    (InitSafe 31 table args ∧ WarmSafe chip 31 table args.winSz ↔ args.span ≠ 0) := by
  have warm : WarmSafe chip 22 table args.winSz ↔ args.winSz.toNat ≤ pciebenchMaxMem := warmSafe_iff
  by_cases zero : args.span = 0
  · have unsafeInit : ∀ shift, ¬ InitSafe shift table args := fun _ => not_initSafe_of_span zero
    simp only [zero, unsafeInit, warm, ne_eq, not_true_eq_false, false_and, true_and]
  · have checked := accepted.checked zero
    have init := initSafe_iff table checked accepted.transSz_le
    have other : InitSafe 31 table args ∧ WarmSafe chip 31 table args.winSz :=
      ⟨initSafe_of_placed checked fun linAddr _ => shift31_inTable linAddr, warmSafe_shift31⟩
    refine ⟨?_, ?_, warm, ?_⟩
    · constructor
      · rintro ⟨initSafe, warmSafe⟩
        have window := warm.mp warmSafe
        refine ⟨zero, window, ?_⟩
        rcases init.mp initSafe with ⟨_, oneLine⟩ | inMem
        · exact not_emptyAtEnd_of_oneLine checked oneLine
        · exact (inMem_iff checked window).mp inMem
      · rintro ⟨_, window, notAtEnd⟩
        exact ⟨init.mpr (.inr ((inMem_iff checked window).mpr notAtEnd)), warm.mpr window⟩
    · rw [init]
      exact (and_iff_right zero).symm
    · exact ⟨fun _ => zero, fun _ => other⟩

theorem checks_sufficient_largest :
    InitSafe 22 (backToBack 0x40000000)
        { winSz := 0x4000000, transSz := 64, hOff := 0xffffffe0, flags := 4 } ∧
      WarmSafe .nfp6000 22 (backToBack 0x40000000) 0x4000000 := by
  refine (checks_sufficient .nfp6000 .bwDmaRw (backToBack 0x40000000)
    { winSz := 0x4000000, transSz := 64, hOff := 0xffffffe0, flags := 4 }
    ⟨.inr rfl, rfl⟩).1.mpr ⟨?_, ?_, ?_⟩
  · decide
  · decide
  · rintro ⟨empty, _⟩
    contradiction

theorem checks_sufficient_empty :
    (Accepted .nfp6000 .latDmaRd { winSz := 64, transSz := 0, hOff := 0, flags := 0 } ∧
      ¬ InitSafe 22 (backToBack 0x40000000)
        { winSz := 64, transSz := 0, hOff := 0, flags := 0 }) ∧
    (Accepted .nfp6000 .bwDmaRd { winSz := 0x8000000, transSz := 64, hOff := 0, flags := 1 } ∧
      ¬ WarmSafe .nfp6000 22 (backToBack 0x40000000) 0x8000000) := by
  refine ⟨⟨⟨.inl rfl, rfl⟩, not_initSafe_of_span rfl⟩, ⟨⟨.inr rfl, rfl⟩, ?_⟩⟩
  rw [warmSafe_iff]
  decide

end Pciebench
