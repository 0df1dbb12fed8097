import Mathlib

/-!
A 64-bit counter that is read one half at a time, and loops that journal how long each of their
iterations took by the lower half alone.
-/

namespace Stopwatch

/-- The counter at its successive readings. -/
structure Clock where
  ticks : Nat → Nat
  monotone : Monotone ticks
  inWords : ∀ reading, ticks reading < 2 ^ 64

namespace Clock

def lo (clock : Clock) (reading : Nat) : UInt32 :=
  UInt32.ofNat (clock.ticks reading)

def hi (clock : Clock) (reading : Nat) : UInt32 :=
  UInt32.ofNat (clock.ticks reading / 2 ^ 32)

def elapsed (clock : Clock) (first last : Nat) : Nat :=
  clock.ticks last - clock.ticks first

/-- The upper half read with one reading, the lower half with another. -/
def stamp (clock : Clock) (loReading hiReading : Nat) : Nat :=
  (clock.hi hiReading).toNat * 2 ^ 32 + (clock.lo loReading).toNat

/-- How often the lower half wrapped around between two readings. -/
def carries (clock : Clock) (first last : Nat) : Nat :=
  clock.ticks last / 2 ^ 32 - clock.ticks first / 2 ^ 32

variable (clock : Clock)

theorem stamp_eq {loReading hiReading : Nat} (later : loReading ≤ hiReading) :
    clock.stamp loReading hiReading =
      clock.ticks loReading + clock.carries loReading hiReading * 2 ^ 32 := by
  have bound := clock.inWords hiReading
  have ordered := Nat.div_le_div_right (c := 2 ^ 32) (clock.monotone later)
  rw [stamp, hi, lo, carries, UInt32.toNat_ofNat', UInt32.toNat_ofNat']
  omega

theorem lo_sub {first last : Nat} (later : first ≤ last) :
    (clock.lo last - clock.lo first).toNat = clock.elapsed first last % 2 ^ 32 := by
  have ordered := clock.monotone later
  rw [UInt32.toNat_sub, lo, lo, elapsed, UInt32.toNat_ofNat', UInt32.toNat_ofNat']
  omega

theorem elapsed_add {first middle last : Nat} (one : first ≤ middle) (two : middle ≤ last) :
    clock.elapsed first middle + clock.elapsed middle last = clock.elapsed first last := by
  have start := clock.monotone one
  have stop := clock.monotone two
  rw [elapsed, elapsed, elapsed]
  omega

end Clock

section Loops

variable {State Mid Failure : Type} (access : State → Option Mid)
  (advance : UInt32 → State → Mid → State) (failure : Failure)

/-- `left` iterations, counted on from `trans`. -/
def loopFrom (left : Nat) (trans : UInt32) (state : State) : State × Except Failure UInt32 :=
  match left with
  | 0 => (state, .ok trans)
  | left + 1 =>
      match access state with
      | none => (state, .error failure)
      | some mid => loopFrom left (trans + 1) (advance trans state mid)

structure Timed where
  reads : Nat
  journal : List UInt32
  deriving DecidableEq, Repr

/-- The same iterations, each journaled with the time that its access took. -/
def timedFrom (clock : Clock) (left : Nat) (trans : UInt32) (state : State) (timed : Timed) :
    (State × Timed) × Except Failure UInt32 :=
  match left with
  | 0 => ((state, timed), .ok trans)
  | left + 1 =>
      let t0 := clock.lo timed.reads
      match access state with
      | none => ((state, { timed with reads := timed.reads + 1 }), .error failure)
      | some mid =>
          let t1 := clock.lo (timed.reads + 1)
          timedFrom clock left (trans + 1) (advance trans state mid)
            { reads := timed.reads + 2, journal := timed.journal ++ [t1 - t0] }

/-- What `left` accesses leave in the journal when the first one starts at reading `first`. -/
def laps (clock : Clock) (left first : Nat) : List UInt32 :=
  (List.range left).map fun turn =>
    clock.lo (first + 2 * turn + 1) - clock.lo (first + 2 * turn)

variable {access advance failure} {clock : Clock} {left : Nat} {trans : UInt32} {state : State}

variable (clock) in
theorem timedFrom_erase (timed : Timed) :
    loopFrom access advance failure left trans state =
      ((timedFrom access advance failure clock left trans state timed).1.1,
        (timedFrom access advance failure clock left trans state timed).2) := by
  induction left generalizing trans state timed with
  | zero => rfl
  | succ left ih =>
      rw [timedFrom, loopFrom]
      cases access state with
      | none => rfl
      | some mid => exact ih _

theorem laps_succ (clock : Clock) (left first : Nat) :
    laps clock (left + 1) first =
      (clock.lo (first + 1) - clock.lo first) :: laps clock left (first + 2) := by
  rw [laps, laps, List.range_succ_eq_map, List.map_cons, List.map_map]
  congr 1
  refine List.map_congr_left ?_
  intro turn _
  have shifted : first + 2 * turn.succ = first + 2 + 2 * turn := by omega
  change clock.lo (first + 2 * turn.succ + 1) - clock.lo (first + 2 * turn.succ) = _
  rw [shifted]

variable (clock) in
theorem timedFrom_journal {count : UInt32} (timed : Timed)
    (ends : (loopFrom access advance failure left trans state).2 = .ok count) :
    (timedFrom access advance failure clock left trans state timed).1.2 =
      { reads := timed.reads + 2 * left
        journal := timed.journal ++ laps clock left timed.reads } := by
  induction left generalizing trans state timed with
  | zero => simp [timedFrom, laps]
  | succ left ih =>
      rw [loopFrom] at ends
      rw [timedFrom]
      cases accessed : access state with
      | none =>
          rw [accessed] at ends
          cases ends
      | some mid =>
          rw [accessed] at ends
          refine (ih _ ends).trans ?_
          rw [laps_succ, List.append_assoc]
          congr 1
          change timed.reads + 2 + 2 * left = _
          omega

variable (clock) in
theorem laps_length (left first : Nat) : (laps clock left first).length = left := by
  rw [laps, List.length_map, List.length_range]

variable (clock) in
/-- The accesses take no longer than from before the first to after the last. -/
theorem sum_elapsed_le (left first : Nat) :
    ((List.range left).map fun turn =>
        clock.elapsed (first + 2 * turn) (first + 2 * turn + 1)).sum ≤
      clock.elapsed first (first + 2 * left) := by
  induction left with
  | zero => simp
  | succ left ih =>
      have before := clock.elapsed_add (Nat.le_add_right first (2 * left))
        (Nat.le_add_right (first + 2 * left) 1)
      have after := clock.elapsed_add (Nat.le_add_right first (2 * left + 1))
        (Nat.le_add_right (first + (2 * left + 1)) 1)
      rw [List.range_succ, List.map_append, List.sum_append, List.map_singleton,
        List.sum_singleton]
      have count : first + 2 * (left + 1) = first + (2 * left + 1) + 1 := by omega
      rw [count]
      have place : first + 2 * left + 1 = first + (2 * left + 1) := by omega
      rw [place] at before ⊢
      omega

end Loops

end Stopwatch
