import Mathlib

/-!
Loops that show their current value before they take the next one, and how often such a loop
shows a value that it looks for.
-/

namespace LaggedLoop

variable {α : Type} (next : Nat → α)

def shown : Nat → Nat → α → List α
  | 0, _, _ => []
  | left + 1, position, current => current :: shown left (position + 1) (next position)

theorem shown_succ (left position : Nat) (current : α) :
    shown next (left + 1) position current = current :: (List.range' position left).map next := by
  induction left generalizing position current with
  | zero => rfl
  | succ left ih => rw [shown, ih, List.range'_succ, List.map_cons]

/-- A loop that starts with the first value shows it twice and never the last one. -/
theorem shown_start (count : Nat) :
    shown next count 0 (next 0) =
      (List.range count).map fun position => next (position - 1) := by
  cases count with
  | zero => rfl
  | succ count =>
      rw [shown_succ, List.range_succ_eq_map, List.map_cons, List.map_map, List.range_eq_range']
      rfl

variable {looked : α → Prop} [DecidablePred looked]

theorem countP_shown (count : Nat) :
    (shown next count 0 (next 0)).countP looked =
      Nat.count (fun position => looked (next (position - 1))) count := by
  rw [shown_start, List.countP_map]
  rfl

variable {next}

theorem two_le_countP_shown {count first second : Nat} (different : first ≠ second)
    (firstBound : first + 1 < count) (secondBound : second + 1 < count)
    (firstLooked : looked (next first)) (secondLooked : looked (next second)) :
    2 ≤ (shown next count 0 (next 0)).countP looked := by
  rw [countP_shown, Nat.count_eq_card_filter_range]
  refine Finset.one_lt_card.mpr ⟨first + 1, ?_, second + 1, ?_, by omega⟩
  · rw [Finset.mem_filter, Finset.mem_range]
    exact ⟨firstBound, firstLooked⟩
  · rw [Finset.mem_filter, Finset.mem_range]
    exact ⟨secondBound, secondLooked⟩

theorem countP_shown_le_one {count position : Nat} (missed : ¬ looked (next 0))
    (only : ∀ other, other + 1 < count → looked (next other) → other = position) :
    (shown next count 0 (next 0)).countP looked ≤ 1 := by
  rw [countP_shown, Nat.count_eq_card_filter_range, Finset.card_le_one]
  have unique : ∀ other, other ∈ (Finset.range count).filter
      (fun position => looked (next (position - 1))) → other = position + 1 := by
    intro other member
    obtain ⟨bound, found⟩ := Finset.mem_filter.mp member
    rw [Finset.mem_range] at bound
    cases other with
    | zero => exact absurd found missed
    | succ other => rw [only other bound found]
  intro first firstMem second secondMem
  rw [unique first firstMem, unique second secondMem]

end LaggedLoop
