import Mathlib
import Pciebench.Stats

/-!
The percentiles of `stats.py`: the sorted samples, with a straight line between neighbours.
-/

namespace Pciebench

open Python (Error)

namespace ListStats

def min (stats : ListStats ℚ) : Except Error ℚ :=
  Python.min stats.list

def max (stats : ListStats ℚ) : Except Error ℚ :=
  Python.max stats.list

def median (stats : ListStats ℚ) : Except Error ℚ := do
  if stats.list = [] then
    return 0
  let length := stats.sortedList.length
  if length % 2 = 0 then
    let upper ← Python.item stats.sortedList (Python.int (length / 2))
    let lower ← Python.item stats.sortedList (Python.int (length / 2 - 1))
    return (upper + lower) / 2
  Python.item stats.sortedList (Python.int (length / 2))

def percentile (stats : ListStats ℚ) (percentile : ℚ) : Except Error ℚ := do
  if stats.list = [] then
    return 0
  let idx : ℚ := (stats.sortedList.length - 1) * (percentile / 100)
  let floor : ℤ := ⌊idx⌋
  let ceil : ℤ := ⌈idx⌉
  if floor = ceil then
    Python.item stats.sortedList (Python.int idx)
  else
    let val0 := (← Python.item stats.sortedList floor) * (ceil - idx)
    let val1 := (← Python.item stats.sortedList ceil) * (idx - floor)
    return val0 + val1

end ListStats

section Percentile

variable {stats : ListStats ℚ} (nonempty : 0 < stats.sortedList.length)

abbrev ListStats.ranks (stats : ListStats ℚ) (nonempty : 0 < stats.sortedList.length) : ℤ → ℚ :=
  Samples.rank stats.sortedList nonempty

include nonempty

theorem list_ne_nil : stats.list ≠ [] := by
  intro empty
  rw [stats.isSorted, empty] at nonempty
  exact absurd nonempty (lt_irrefl 0)

theorem item_rank {index : Int} (start : 0 ≤ index) (last : index ≤ stats.sortedList.length - 1) :
    Python.item stats.sortedList index = .ok (stats.ranks nonempty index) := by
  have inside : index.toNat < stats.sortedList.length := by omega
  rw [Python.item_ok start inside, ListStats.ranks, Samples.rank_of_lt inside]

/-- The place among the samples that a percentile asks for. -/
def place (stats : ListStats ℚ) (percentile : ℚ) : ℚ :=
  (stats.sortedList.length - 1) * (percentile / 100)

theorem place_nonneg {percentile : ℚ} (lower : 0 ≤ percentile) : 0 ≤ place stats percentile := by
  have last : (1 : ℚ) ≤ stats.sortedList.length := Nat.one_le_cast.mpr nonempty
  exact mul_nonneg (sub_nonneg.mpr last) (div_nonneg lower (by norm_num))

theorem place_monotone : Monotone (place stats) := by
  intro low high below
  have last : (1 : ℚ) ≤ stats.sortedList.length := Nat.one_le_cast.mpr nonempty
  exact mul_le_mul_of_nonneg_left (div_le_div_of_nonneg_right below (by norm_num))
    (sub_nonneg.mpr last)

omit nonempty in
theorem place_hundred : place stats 100 = ((stats.sortedList.length - 1 : ℤ) : ℚ) := by
  rw [place, div_self (by norm_num), mul_one]
  push_cast
  rfl

omit nonempty in
theorem place_zero : place stats 0 = ((0 : ℤ) : ℚ) := by
  rw [place, zero_div, mul_zero, Int.cast_zero]

theorem percentile_unfold (percentile : ℚ) : stats.percentile percentile =
    if ⌊place stats percentile⌋ = ⌈place stats percentile⌉ then
      Python.item stats.sortedList (Python.int (place stats percentile))
    else do
      let val0 := (← Python.item stats.sortedList ⌊place stats percentile⌋) *
        (⌈place stats percentile⌉ - place stats percentile)
      let val1 := (← Python.item stats.sortedList ⌈place stats percentile⌉) *
        (place stats percentile - ⌊place stats percentile⌋)
      return val0 + val1 := by
  simp only [ListStats.percentile, list_ne_nil nonempty, if_false]
  rfl

theorem percentile_eq {percentile : ℚ} (lower : 0 ≤ percentile) (upper : percentile ≤ 100) :
    stats.percentile percentile =
      .ok (Samples.interpolate (stats.ranks nonempty) (place stats percentile)) := by
  have start := place_nonneg nonempty lower
  have last := place_monotone nonempty upper
  rw [place_hundred] at last
  have floorStart : 0 ≤ ⌊place stats percentile⌋ := Int.floor_nonneg.mpr start
  have ceilLast : ⌈place stats percentile⌉ ≤ stats.sortedList.length - 1 := Int.ceil_le.mpr last
  have floorCeil := Int.floor_le_ceil (place stats percentile)
  rw [percentile_unfold nonempty]
  generalize place stats percentile = idx at *
  by_cases exactIndex : ⌊idx⌋ = ⌈idx⌉
  · have whole : idx = (⌊idx⌋ : ℚ) := by
      refine le_antisymm ?_ (Int.floor_le _)
      rw [exactIndex]
      exact Int.le_ceil _
    rw [if_pos exactIndex]
    rw [whole, Python.int_intCast, Samples.interpolate_intCast,
      item_rank nonempty floorStart (by omega)]
  · have ceilEq : ⌈idx⌉ = ⌊idx⌋ + 1 := by
      have narrow := Int.ceil_le_floor_add_one (idx)
      omega
    rw [if_neg exactIndex, item_rank nonempty floorStart (by omega),
      item_rank nonempty (by omega) ceilLast]
    change Except.ok (_ * (⌈idx⌉ - idx) + _ * (idx - ⌊idx⌋)) = _
    rw [Samples.interpolate, Int.fract, ceilEq]
    push_cast
    congr 2
    ring

omit nonempty in
theorem interpolate_half (sequence : ℤ → ℚ) (index : ℤ) :
    Samples.interpolate sequence (index + 1 / 2) = (sequence (index + 1) + sequence index) / 2 := by
  have floor : ⌊(index : ℚ) + 1 / 2⌋ = index := by
    rw [Int.floor_intCast_add]
    norm_num
  rw [Samples.interpolate_eq, Int.fract, floor]
  ring

theorem median_eq : stats.median =
    .ok (Samples.interpolate (stats.ranks nonempty) (place stats 50)) := by
  have middle : place stats 50 = ((stats.sortedList.length : ℚ) - 1) / 2 := by
    rw [place]
    ring
  simp only [ListStats.median, list_ne_nil nonempty, if_false]
  by_cases even : stats.sortedList.length % 2 = 0
  · obtain ⟨half, lengthEq⟩ : ∃ half, stats.sortedList.length = 2 * (half + 1) :=
      ⟨stats.sortedList.length / 2 - 1, by omega⟩
    have upper : (stats.sortedList.length : ℚ) / 2 = ((half + 1 : ℤ) : ℚ) := by
      rw [lengthEq]
      push_cast
      ring
    have lower : (stats.sortedList.length : ℚ) / 2 - 1 = ((half : ℤ) : ℚ) := by
      rw [upper]
      push_cast
      ring
    have between : place stats 50 = ((half : ℤ) : ℚ) + 1 / 2 := by
      rw [middle, lengthEq]
      push_cast
      ring
    rw [if_pos even, lower, upper, Python.int_intCast, Python.int_intCast,
      item_rank nonempty (by omega) (by omega), item_rank nonempty (by omega) (by omega), between,
      interpolate_half]
    rfl
  · obtain ⟨half, lengthEq⟩ : ∃ half, stats.sortedList.length = 2 * half + 1 :=
      ⟨stats.sortedList.length / 2, by omega⟩
    have index : Python.int ((stats.sortedList.length : ℚ) / 2) = half := by
      rw [lengthEq]
      have split : ((2 * half + 1 : ℕ) : ℚ) / 2 = ((half : ℤ) : ℚ) + 1 / 2 := by
        push_cast
        ring
      have start : ¬ ((half : ℤ) : ℚ) + 1 / 2 < 0 := by
        have nonneg : (0 : ℚ) ≤ ((half : ℤ) : ℚ) := Int.cast_nonneg (Int.natCast_nonneg half)
        linarith only [nonneg]
      rw [split, Python.int, if_neg start, Int.floor_intCast_add]
      norm_num
    have exactly : place stats 50 = ((half : ℤ) : ℚ) := by
      rw [middle, lengthEq]
      push_cast
      ring
    rw [if_neg even, index, item_rank nonempty (by omega) (by omega), exactly,
      Samples.interpolate_intCast]

end Percentile

section Samples

variable {samples : List ℚ} (nonempty : samples ≠ [])

include nonempty

theorem sortedList_pos : 0 < (ListStats.init samples).sortedList.length := by
  rw [(ListStats.init samples).isSorted, (Python.sorted_perm _).length_eq]
  exact List.length_pos_of_ne_nil nonempty

theorem ranks_monotone : Monotone ((ListStats.init samples).ranks (sortedList_pos nonempty)) :=
  Samples.rank_monotone (Python.sorted_ordered samples)

theorem min_eq_rank :
    (ListStats.init samples).min =
      .ok ((ListStats.init samples).ranks (sortedList_pos nonempty) 0) := by
  have sorted := Python.sorted_perm samples
  refine Python.min_eq (sorted.mem_iff.mp (Samples.rank_mem 0)) ?_
  intro other listed
  exact Samples.rank_first (Python.sorted_ordered samples) (sorted.mem_iff.mpr listed)

theorem max_eq_rank :
    (ListStats.init samples).max =
      .ok ((ListStats.init samples).ranks (sortedList_pos nonempty)
        ((ListStats.init samples).sortedList.length - 1)) := by
  have sorted := Python.sorted_perm samples
  refine Python.max_eq (sorted.mem_iff.mp (Samples.rank_mem _)) ?_
  intro other listed
  exact Samples.rank_last (Python.sorted_ordered samples) (sorted.mem_iff.mpr listed)

end Samples

theorem percentile_perm {samples other : List ℚ} (same : samples.Perm other) (percentile : ℚ) :
    (ListStats.init samples).percentile percentile =
      (ListStats.init other).percentile percentile := by
  have sorted : (ListStats.init samples).sortedList = (ListStats.init other).sortedList :=
    Python.sorted_congr same
  have empty : (ListStats.init samples).list = [] ↔ (ListStats.init other).list = [] := by
    rw [← List.length_eq_zero_iff, ← List.length_eq_zero_iff]
    exact same.length_eq ▸ Iff.rfl
  simp only [ListStats.percentile, sorted, empty]

theorem percentile_interpolates (samples : List ℚ) (nonempty : samples ≠ []) (p q : ℚ)
    (lower : 0 ≤ p) (ordered : p ≤ q) (upper : q ≤ 100) :
    ∃ least low high greatest middle,
      (ListStats.init samples).min = .ok least ∧
      (ListStats.init samples).percentile p = .ok low ∧
      (ListStats.init samples).percentile q = .ok high ∧
      (ListStats.init samples).max = .ok greatest ∧
      (ListStats.init samples).median = .ok middle ∧
      least ≤ low ∧ low ≤ high ∧ high ≤ greatest ∧
      (ListStats.init samples).percentile 0 = .ok least ∧
      (ListStats.init samples).percentile 100 = .ok greatest ∧
      (ListStats.init samples).percentile 50 = .ok middle ∧
      ∀ other, samples.Perm other → (ListStats.init other).percentile p = .ok low := by
  have pos := sortedList_pos nonempty
  have monotone := Samples.interpolate_monotone (ranks_monotone nonempty)
  have placeMonotone : Monotone (place (ListStats.init samples)) := place_monotone pos
  have lowEq := percentile_eq pos lower (ordered.trans upper)
  have first := congrArg (Samples.interpolate ((ListStats.init samples).ranks pos))
    (place_zero : place (ListStats.init samples) 0 = _)
  have last := congrArg (Samples.interpolate ((ListStats.init samples).ranks pos))
    (place_hundred : place (ListStats.init samples) 100 = _)
  rw [Samples.interpolate_intCast] at first last
  refine ⟨_, _, _, _, _, min_eq_rank nonempty, lowEq,
    percentile_eq pos (lower.trans ordered) upper, max_eq_rank nonempty, median_eq pos,
    ?_, ?_, ?_, ?_, ?_, ?_, ?_⟩
  · rw [← first]
    exact monotone (placeMonotone lower)
  · exact monotone (placeMonotone ordered)
  · rw [← last]
    exact monotone (placeMonotone upper)
  · rw [percentile_eq pos (le_refl 0) (by norm_num), first]
  · rw [percentile_eq pos (by norm_num) (le_refl 100), last]
  · exact percentile_eq pos (by norm_num) (by norm_num)
  · intro other same
    rw [← percentile_perm same, lowEq]

theorem percentile_interpolates_three :
    ∃ low high, (ListStats.init [30, 10, 20]).percentile 25 = .ok low ∧
      (ListStats.init [30, 10, 20]).percentile 95 = .ok high ∧ low ≤ high := by
  obtain ⟨_, low, high, _, _, _, lowEq, highEq, _, _, _, ordered, _⟩ :=
    percentile_interpolates [30, 10, 20] (by decide) 25 95 (by norm_num) (by norm_num)
      (by norm_num)
  exact ⟨low, high, lowEq, highEq, ordered⟩

end Pciebench
