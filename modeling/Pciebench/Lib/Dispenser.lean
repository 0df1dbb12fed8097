import Mathlib

/-!
A counter that hands out its old value and then counts down, and stays at zero once it is
there: the tickets of a run, in the order in which they are drawn.
-/

namespace Dispenser

def draws (initial count : Nat) : List Nat :=
  (List.range count).map fun earlier => initial - earlier

variable {initial count : Nat}

theorem draws_succ : draws initial (count + 1) = draws initial count ++ [initial - count] := by
  simp [draws, List.range_succ]

theorem count_draws {ticket : Nat} (positive : 1 ≤ ticket) (bound : ticket ≤ initial) :
    (draws initial count).count ticket = if initial - ticket < count then 1 else 0 := by
  induction count with
  | zero => simp [draws]
  | succ count ih =>
      rw [draws_succ, List.count_append, ih, List.count_singleton]
      by_cases here : initial - count = ticket
      · have now : initial - ticket = count := by omega
        simp [here, now]
      · by_cases before : initial - ticket < count
        · have still : initial - ticket < count + 1 := by omega
          simp [here, before, still]
        · have later : ¬ initial - ticket < count + 1 := by omega
          simp [here, before, later]

theorem count_draws_le_one {ticket : Nat} (positive : 1 ≤ ticket) :
    (draws initial count).count ticket ≤ 1 := by
  by_cases bound : ticket ≤ initial
  · rw [count_draws positive bound]
    split <;> omega
  · have absent : ticket ∉ draws initial count := by
      simp only [draws, List.mem_map, List.mem_range]
      rintro ⟨earlier, below, equal⟩
      omega
    rw [List.count_eq_zero_of_not_mem absent]
    omega

theorem count_draws_zero : (draws initial count).count 0 = count - initial := by
  induction count with
  | zero => simp [draws]
  | succ count ih =>
      rw [draws_succ, List.count_append, ih, List.count_singleton]
      by_cases exhausted : initial ≤ count
      · have zero : initial - count = 0 := by omega
        simp only [zero, beq_self_eq_true, if_true]
        omega
      · have positive : ¬ initial - count = 0 := by omega
        simp only [beq_iff_eq, positive, if_false]
        omega

theorem exhausted_of_mem {ticket : Nat} (last : ticket ≤ 1) (drawn : ticket ∈ draws initial count) :
    initial ≤ count := by
  simp only [draws, List.mem_map, List.mem_range] at drawn
  obtain ⟨earlier, below, equal⟩ := drawn
  omega

theorem draws_perm (exhausted : initial ≤ count) :
    ((draws initial count).filter (1 ≤ ·)).Perm (List.range' 1 initial) := by
  rw [List.perm_iff_count]
  intro ticket
  by_cases positive : 1 ≤ ticket
  · rw [List.count_filter (by simpa using positive)]
    by_cases bound : ticket ≤ initial
    · have member : ticket ∈ List.range' 1 initial := by
        rw [List.mem_range'_1]
        omega
      rw [count_draws positive bound, List.count_eq_one_of_mem List.nodup_range' member,
        if_pos (by omega)]
    · have absent : ticket ∉ List.range' 1 initial := by
        rw [List.mem_range'_1]
        omega
      rw [List.count_eq_zero_of_not_mem absent, List.count_eq_zero]
      simp only [draws, List.mem_map, List.mem_range]
      rintro ⟨earlier, below, equal⟩
      omega
  · have zero : ticket = 0 := by omega
    subst ticket
    rw [List.count_eq_zero_of_not_mem (by simp), List.count_eq_zero_of_not_mem (by simp)]

end Dispenser
