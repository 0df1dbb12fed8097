import Mathlib

/-!
Scanning the natural numbers for the next one whose residue is accepted. The accepted
residues come back in ascending order, over and over: the hit with `k` hits below it has the
residue with index `k` modulo the number of accepted residues.
-/

namespace PeriodicSearch

variable (accepts : Nat → Prop) [DecidablePred accepts] (period : Nat)

def residues : List Nat :=
  (List.range period).filter (fun residue => accepts residue)

/-- A position is a hit when its residue is accepted. -/
def Hit (position : Nat) : Prop :=
  accepts (position % period)

instance : DecidablePred (Hit accepts period) :=
  fun position => inferInstanceAs (Decidable (accepts (position % period)))

theorem residues_length : (residues accepts period).length = Nat.count accepts period := by
  rw [residues, ← List.countP_eq_length_filter]
  rfl

theorem mem_residues {residue : Nat} :
    residue ∈ residues accepts period ↔ residue < period ∧ accepts residue := by
  simp [residues]

variable {accepts period}

theorem residues_getElem? {residue : Nat} (accepted : accepts residue) (bound : residue < period) :
    (residues accepts period)[Nat.count accepts residue]? = some residue := by
  have split : List.range period =
      List.range residue ++ residue :: List.range' (residue + 1) (period - residue - 1) := by
    have joined : List.range' 0 residue ++ List.range' (0 + residue) (period - residue - 1 + 1) =
        List.range' 0 (residue + (period - residue - 1 + 1)) := List.range'_append_1
    rw [Nat.zero_add, List.range'_succ, show residue + (period - residue - 1 + 1) = period by omega]
      at joined
    rw [List.range_eq_range', List.range_eq_range', joined]
  have front : Nat.count accepts residue =
      ((List.range residue).filter (fun residue => accepts residue)).length :=
    (residues_length accepts residue).symm
  rw [residues, split, List.filter_append, front, List.getElem?_append_right (Nat.le_refl _)]
  simp [accepted]

theorem count_of_no_hit {predicate : Nat → Prop} [DecidablePred predicate] {first last : Nat}
    (ordered : first ≤ last) (none : ∀ position, first ≤ position → position < last →
      ¬ predicate position) :
    Nat.count predicate last = Nat.count predicate first := by
  obtain ⟨gap, rfl⟩ := Nat.exists_eq_add_of_le ordered
  have rest : Nat.count (fun offset => predicate (first + offset)) gap = 0 := by
    rw [Nat.count_iff_forall_not]
    intro offset below
    exact none (first + offset) (by omega) (by omega)
  rw [Nat.count_add, rest, Nat.add_zero]

theorem count_hit_rest {rest : Nat} (bound : rest ≤ period) :
    Nat.count (Hit accepts period) rest = Nat.count accepts rest := by
  have mono : ∀ position, position < rest → (Hit accepts period position ↔ accepts position) := by
    intro position below
    rw [Hit, Nat.mod_eq_of_lt (by omega)]
  apply Nat.le_antisymm
  · exact Nat.count_mono_left fun position below => (mono position below).mp
  · exact Nat.count_mono_left fun position below => (mono position below).mpr

variable (accepts) in
theorem count_hit_blocks (blocks rest : Nat) (bound : rest ≤ period) :
    Nat.count (Hit accepts period) (period * blocks + rest) =
      Nat.count accepts period * blocks + Nat.count accepts rest := by
  induction blocks with
  | zero => simpa using count_hit_rest bound
  | succ blocks ih =>
      have shifted : (fun offset => Hit accepts period (period + offset)) = Hit accepts period := by
        funext offset
        simp [Hit]
      have regroup : period * (blocks + 1) + rest = period + (period * blocks + rest) := by
        rw [Nat.mul_succ]
        omega
      rw [regroup, Nat.count_add, count_hit_rest (Nat.le_refl period)]
      simp only [shifted, ih]
      rw [Nat.mul_succ]
      omega

/-- The hit with `k` hits below it has the accepted residue with index `k` modulo their number. -/
theorem hit_residue {position : Nat} (positive : 0 < period)
    (hit : Hit accepts period position) :
    (residues accepts period)[Nat.count (Hit accepts period) position %
      (residues accepts period).length]? = some (position % period) := by
  have bound : position % period < period := Nat.mod_lt _ positive
  have below : Nat.count accepts (position % period) < Nat.count accepts period :=
    Nat.count_strict_mono hit bound
  have counted := count_hit_blocks accepts (position / period) (position % period)
    (Nat.le_of_lt bound)
  rw [Nat.div_add_mod] at counted
  rw [residues_length, counted, Nat.mul_add_mod, Nat.mod_eq_of_lt below]
  exact residues_getElem? hit bound

theorem first_hit_before {position target : Nat} (lower : position ≤ target)
    (hit : Hit accepts period target) :
    ∃ next, position ≤ next ∧ next ≤ target ∧ Hit accepts period next ∧
      ∀ earlier, position ≤ earlier → earlier < next → ¬ Hit accepts period earlier := by
  have found : ∃ next, position ≤ next ∧ Hit accepts period next := ⟨target, lower, hit⟩
  obtain ⟨firstLower, firstHit⟩ := Nat.find_spec found
  refine ⟨Nat.find found, firstLower, Nat.find_min' found ⟨lower, hit⟩, firstHit, ?_⟩
  intro earlier earlierLower below earlierHit
  exact Nat.find_min found below ⟨earlierLower, earlierHit⟩

section Dense

variable {gap : Nat}
  (dense : ∀ position, ∃ next, position ≤ next ∧ next < position + gap ∧ Hit accepts period next)

include dense

theorem exists_first_hit (position : Nat) :
    ∃ next, position ≤ next ∧ next < position + gap ∧ Hit accepts period next ∧
      ∀ earlier, position ≤ earlier → earlier < next → ¬ Hit accepts period earlier := by
  obtain ⟨target, lower, near, hit⟩ := dense position
  obtain ⟨next, nextLower, upper, nextHit, first⟩ := first_hit_before lower hit
  exact ⟨next, nextLower, by omega, nextHit, first⟩

theorem blocks_le_count (blocks : Nat) :
    blocks ≤ Nat.count (Hit accepts period) (gap * blocks) := by
  induction blocks with
  | zero => exact Nat.zero_le _
  | succ blocks ih =>
      obtain ⟨next, lower, upper, hit⟩ := dense (gap * blocks)
      have before : Nat.count (Hit accepts period) (gap * blocks) ≤
          Nat.count (Hit accepts period) next := Nat.count_monotone _ lower
      have after : Nat.count (Hit accepts period) next <
          Nat.count (Hit accepts period) (gap * (blocks + 1)) :=
        Nat.count_strict_mono hit (by rw [Nat.mul_succ]; omega)
      omega

/-- A position is at most `gap` times one more than the number of hits below it. -/
theorem position_le (position : Nat) :
    position ≤ gap * (Nat.count (Hit accepts period) position + 1) := by
  by_contra beyond
  have counted := blocks_le_count dense (Nat.count (Hit accepts period) position + 1)
  have mono : Nat.count (Hit accepts period)
      (gap * (Nat.count (Hit accepts period) position + 1)) ≤
        Nat.count (Hit accepts period) position := Nat.count_monotone _ (by omega)
  omega

end Dense

theorem countP_residue (start rounds : Nat) {period residue : Nat} (bound : residue < period) :
    (List.range' start (period * rounds)).countP (fun position => position % period = residue) =
      rounds := by
  induction rounds with
  | zero => simp
  | succ rounds ih =>
      have front : List.range' start (period * (rounds + 1)) =
          List.range' start (period * rounds) ++
            List.range' (start + period * rounds) period := by
        rw [Nat.mul_succ]
        exact List.range'_append_1.symm
      have periodic : Function.Periodic (fun position => position % period = residue) period := by
        intro position
        simp only [Nat.add_mod_right]
      have block := Nat.filter_Ico_card_eq_of_periodic (start + period * rounds) period
        (fun position => position % period = residue) periodic
      have counted : Nat.count (fun position => position % period = residue) period = 1 := by
        have classes := Nat.count_modEq_card period (by omega : 0 < period) residue
        simp only [Nat.ModEq, Nat.mod_eq_of_lt bound, Nat.mod_self, Nat.not_lt_zero, if_false,
          Nat.div_self (by omega : 0 < period), Nat.add_zero] at classes
        exact classes
      rw [counted, Nat.Ico_eq_range', Finset.card, Finset.filter_val, Nat.add_sub_cancel_left,
        Multiset.filter_coe, Multiset.coe_card] at block
      rw [front, List.countP_append, ih, List.countP_eq_length_filter, block]

end PeriodicSearch
