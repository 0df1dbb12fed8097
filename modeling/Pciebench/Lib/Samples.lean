import Mathlib

/-!
Samples of an ordered type: their empirical distribution function, and a monotone sequence
between whose neighbours one interpolates.
-/

namespace Samples

section Empirical

variable {value : Type*} [LinearOrder value]

/-- The share of the samples that do not exceed a bound. -/
def empirical (samples : List value) (bound : value) : ℚ :=
  samples.countP (· ≤ bound) / samples.length

variable {samples other : List value} {low high : value}

theorem empirical_congr (same : samples.Perm other) (bound : value) :
    empirical samples bound = empirical other bound := by
  rw [empirical, empirical, same.countP_eq, same.length_eq]

omit [LinearOrder value] in
theorem length_pos_of_sample (member : low ∈ samples) : (0 : ℚ) < samples.length :=
  Nat.cast_pos.mpr (List.length_pos_of_mem member)

theorem empirical_pos (member : low ∈ samples) : 0 < empirical samples low := by
  have counted : 0 < samples.countP (· ≤ low) :=
    List.countP_pos_iff.mpr ⟨low, member, decide_eq_true (le_refl low)⟩
  exact div_pos (Nat.cast_pos.mpr counted) (length_pos_of_sample member)

theorem empirical_le_one (bound : value) : empirical samples bound ≤ 1 :=
  div_le_one_of_le₀ (Nat.cast_le.mpr List.countP_le_length) (Nat.cast_nonneg _)

theorem countP_lt (member : high ∈ samples) (less : low < high) :
    samples.countP (· ≤ low) < samples.countP (· ≤ high) := by
  have grows (list : List value) : list.countP (· ≤ low) ≤ list.countP (· ≤ high) :=
    List.countP_mono_left (fun sample _ below =>
      decide_eq_true ((of_decide_eq_true below).trans less.le))
  induction samples with
  | nil => cases member
  | cons first rest ih =>
      have rest_le := grows rest
      simp only [List.countP_cons, decide_eq_true_eq]
      rcases List.mem_cons.mp member with here | later
      · subst first
        rw [if_neg less.not_ge, if_pos (le_refl high)]
        omega
      · have more := ih later
        by_cases counted : first ≤ low
        · rw [if_pos counted, if_pos (counted.trans less.le)]
          omega
        · rw [if_neg counted]
          omega

theorem empirical_lt (member : high ∈ samples) (less : low < high) :
    empirical samples low < empirical samples high :=
  div_lt_div_of_pos_right (Nat.cast_lt.mpr (countP_lt member less)) (length_pos_of_sample member)

theorem empirical_greatest (member : high ∈ samples)
    (greatest : ∀ sample ∈ samples, sample ≤ high) :
    empirical samples high = 1 := by
  have all : samples.countP (· ≤ high) = samples.length :=
    List.countP_eq_length.mpr (fun sample listed => decide_eq_true (greatest sample listed))
  rw [empirical, all, div_self (length_pos_of_sample member).ne']

/-- The counts of the keys up to a bound, however the keys are listed, make up the numerator. -/
theorem sum_count_keys {keys : List value} (distinct : keys.Nodup)
    (complete : ∀ key, key ∈ keys ↔ key ∈ samples) (counted : value → Bool) :
    ((keys.filter counted).map (fun key => samples.count key)).sum = samples.countP counted := by
  have listing : keys.Perm samples.dedup :=
    (List.perm_ext_iff_of_nodup distinct samples.nodup_dedup).mpr
      (fun key => (complete key).trans List.mem_dedup.symm)
  rw [((listing.filter counted).map _).sum_eq]
  exact List.sum_map_count_dedup_filter_eq_countP counted samples

end Empirical

section Interpolation

variable {number : Type*} [Field number] [LinearOrder number] [IsStrictOrderedRing number]
  [FloorRing number]

/-- Between two neighbours of a sequence, their average weighted by the distance to either. -/
def interpolate (sequence : ℤ → number) (place : number) : number :=
  sequence ⌊place⌋ * (1 - Int.fract place) + sequence (⌊place⌋ + 1) * Int.fract place

theorem interpolate_intCast (sequence : ℤ → number) (place : ℤ) :
    interpolate sequence place = sequence place := by
  rw [interpolate, Int.floor_intCast, Int.fract_intCast, sub_zero, mul_one, mul_zero, add_zero]

variable {sequence : ℤ → number} (ascending : Monotone sequence)

include ascending

omit [FloorRing number] in
theorem step_nonneg (place : ℤ) : 0 ≤ sequence (place + 1) - sequence place :=
  sub_nonneg.mpr (ascending (Int.le_add_one (le_refl place)))

omit [IsStrictOrderedRing number] ascending in
theorem interpolate_eq (place : number) : interpolate sequence place =
    sequence ⌊place⌋ + (sequence (⌊place⌋ + 1) - sequence ⌊place⌋) * Int.fract place := by
  rw [interpolate]
  ring

theorem le_interpolate (place : number) : sequence ⌊place⌋ ≤ interpolate sequence place := by
  rw [interpolate_eq]
  exact le_add_of_nonneg_right (mul_nonneg (step_nonneg ascending _) (Int.fract_nonneg place))

theorem interpolate_le (place : number) : interpolate sequence place ≤ sequence (⌊place⌋ + 1) := by
  have part := mul_le_of_le_one_right (step_nonneg ascending ⌊place⌋) (Int.fract_lt_one place).le
  rw [interpolate_eq]
  linarith only [part]

theorem interpolate_monotone : Monotone (interpolate sequence) := by
  intro low high below
  rcases (Int.floor_mono below).eq_or_lt with sameFloor | apart
  · have further : Int.fract low ≤ Int.fract high := by
      rw [Int.fract, Int.fract, sameFloor]
      exact sub_le_sub_right below _
    rw [interpolate_eq, interpolate_eq, sameFloor]
    exact add_le_add_right (mul_le_mul_of_nonneg_left further (step_nonneg ascending _)) _
  · calc interpolate sequence low ≤ sequence (⌊low⌋ + 1) := interpolate_le ascending low
      _ ≤ sequence ⌊high⌋ := ascending apart
      _ ≤ interpolate sequence high := le_interpolate ascending high

end Interpolation

section Ranks

/-- The value at a place of a list, whose ends go on for ever. -/
def rank {value : Type*} (list : List value) (nonempty : 0 < list.length) (place : ℤ) : value :=
  list.get ⟨min place.toNat (list.length - 1), by omega⟩

variable {value : Type*} [LinearOrder value] {list : List value} {nonempty : 0 < list.length}

theorem rank_monotone (ordered : list.Pairwise (· ≤ ·)) : Monotone (rank list nonempty) := by
  intro low high below
  exact ordered.rel_get_of_le (Fin.mk_le_mk.mpr (by omega))

omit [LinearOrder value] in
theorem rank_of_lt {place : ℤ} (inside : place.toNat < list.length) :
    rank list nonempty place = list.get ⟨place.toNat, inside⟩ := by
  rw [rank]
  congr 2
  omega

omit [LinearOrder value] in
theorem rank_mem (place : ℤ) : rank list nonempty place ∈ list :=
  List.get_mem list _

theorem rank_first (ordered : list.Pairwise (· ≤ ·)) {sample : value} (member : sample ∈ list) :
    rank list nonempty 0 ≤ sample := by
  obtain ⟨index, found⟩ := List.get_of_mem member
  rw [← found]
  exact ordered.rel_get_of_le (Fin.mk_le_mk.mpr (by omega))

theorem rank_last (ordered : list.Pairwise (· ≤ ·)) {sample : value} (member : sample ∈ list) :
    sample ≤ rank list nonempty (list.length - 1) := by
  obtain ⟨index, found⟩ := List.get_of_mem member
  rw [← found]
  have inside : index.val < list.length := index.isLt
  exact ordered.rel_get_of_le (Fin.mk_le_mk.mpr (by omega))

theorem countP_above_le (ordered : list.Pairwise (· ≤ ·)) {bound : value} {index : Nat}
    (inside : index < list.length) (below : list.get ⟨index, inside⟩ ≤ bound) :
    list.countP (bound < ·) + index + 1 ≤ list.length := by
  have low : (list.take (index + 1)).countP (bound < ·) = 0 := by
    rw [List.countP_eq_zero]
    intro sample member
    obtain ⟨place, placed, found⟩ := List.mem_take_iff_getElem.mp member
    have under : list[place] ≤ list.get ⟨index, inside⟩ :=
      ordered.rel_get_of_le (Fin.mk_le_mk.mpr (by omega))
    rw [decide_eq_true_eq, ← found, not_lt]
    exact under.trans below
  have high : (list.drop (index + 1)).countP (bound < ·) ≤ (list.drop (index + 1)).length :=
    List.countP_le_length
  have split := congrArg (List.countP (bound < ·)) (List.take_append_drop (index + 1) list)
  rw [List.countP_append, low] at split
  rw [List.length_drop] at high
  omega

end Ranks

end Samples
