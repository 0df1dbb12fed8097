import Mathlib
import Pciebench.Lib.Python
import Pciebench.Lib.Samples

/-!
`stats.py`, with exact fractions in place of floating point: the histogram of a list of samples,
and the distribution function made from it.
-/

namespace Pciebench

open Python (Dict Error)

structure ListStats (value : Type) [LinearOrder value] where
  list : List value
  sortedList : List value
  isSorted : sortedList = Python.sorted list

section Definitions

variable {value : Type} [LinearOrder value]

namespace ListStats

def init (inlist : List value) : ListStats value where
  list := inlist
  sortedList := Python.sorted inlist
  isSorted := rfl

def histoStep (res : Dict value Nat) (val : value) : Dict value Nat :=
  match res.find? val with
  | none => res.set val 1
  | some count => res.set val (count + 1)

def histo (stats : ListStats value) : Dict value Nat :=
  stats.list.foldl histoStep Dict.empty

end ListStats

def totalStep (histo : Dict value Nat) (total : Nat) (val : value) : Except Error Nat := do
  let count ← histo.get val
  return total + count

/-- One pass of the loop over the sorted keys, from the fraction and the dictionary so far. -/
def cdfStep (histo : Dict value Nat) (total : Nat) (state : ℚ × Dict value ℚ) (val : value) :
    Except Error (ℚ × Dict value ℚ) := do
  let count ← histo.get val
  let share ← Python.divide count total
  let cdfFrac := state.1 + share
  return (cdfFrac, state.2.set val cdfFrac)

def histo2cdf (histo : Dict value Nat) : Except Error (Dict value ℚ) := do
  let total ← histo.keys.foldlM (totalStep histo) 0
  let sortedKeys := Python.sorted histo.keys
  let state ← sortedKeys.foldlM (cdfStep histo total) (0, Dict.empty)
  return state.2

end Definitions

section Histogram

variable {value : Type} [LinearOrder value]

structure Counts (seen : List value) (res : Dict value Nat) : Prop where
  keys : ∀ val, val ∈ res.keys ↔ val ∈ seen
  count : ∀ val, res.find? val = if val ∈ seen then some (seen.count val) else none

theorem counts_empty : Counts ([] : List value) Dict.empty where
  keys := fun _ => Iff.rfl
  count := fun _ => rfl

theorem Counts.set {seen : List value} {res : Dict value Nat} (counts : Counts seen res)
    (val : value) : Counts (seen ++ [val]) (res.set val (seen.count val + 1)) where
  keys := by
    intro wanted
    rw [Dict.keys_set, counts.keys, List.mem_append, List.mem_singleton, or_comm]
  count := by
    intro wanted
    rw [Dict.find?_set, counts.count, List.count_append]
    by_cases same : wanted = val
    · subst wanted
      rw [if_pos rfl, if_pos (List.mem_append_right seen List.mem_cons_self),
        List.count_singleton_self]
    · have listed : wanted ∈ seen ++ [val] ↔ wanted ∈ seen := by
        rw [List.mem_append, List.mem_singleton, or_iff_left same]
      have other : [val].count wanted = 0 :=
        List.count_eq_zero_of_not_mem (fun member => same (List.mem_singleton.mp member))
      simp only [same, if_false, listed, other, Nat.add_zero]

theorem Counts.step {seen : List value} {res : Dict value Nat} (counts : Counts seen res)
    (val : value) : Counts (seen ++ [val]) (ListStats.histoStep res val) := by
  have next := counts.set val
  rw [ListStats.histoStep, counts.count]
  by_cases known : val ∈ seen
  · rwa [if_pos known]
  · rw [if_neg known]
    rwa [List.count_eq_zero_of_not_mem known] at next

theorem Counts.foldl {seen : List value} {res : Dict value Nat} (counts : Counts seen res)
    (list : List value) : Counts (seen ++ list) (list.foldl ListStats.histoStep res) := by
  induction list generalizing seen res with
  | nil => rwa [List.append_nil]
  | cons val rest ih =>
      have later := ih (counts.step val)
      rwa [List.append_assoc] at later

theorem histo_counts (samples : List value) : Counts samples (ListStats.init samples).histo :=
  counts_empty.foldl samples

theorem Counts.get {seen : List value} {res : Dict value Nat} (counts : Counts seen res)
    {val : value} (member : val ∈ seen) : res.get val = .ok (seen.count val) := by
  rw [Dict.get_ok_iff, counts.count, if_pos member]

end Histogram

section Distribution

variable {value : Type} [LinearOrder value] {histo : Dict value Nat} {total : Nat}
  {count : value → Nat}

theorem totalStep_foldlM {keys : List value} (known : ∀ val ∈ keys, histo.get val = .ok (count val))
    (total : Nat) :
    keys.foldlM (totalStep histo) total = .ok (total + (keys.map count).sum) := by
  induction keys generalizing total with
  | nil => rfl
  | cons val rest ih =>
      have step : totalStep histo total val = .ok (total + count val) := by
        rw [totalStep, known val List.mem_cons_self]
        rfl
      have later := ih (fun next member => known next (List.mem_cons_of_mem val member))
        (total + count val)
      rw [List.foldlM_cons, step, List.map_cons, List.sum_cons, ← Nat.add_assoc]
      exact later

/-- The number of samples with one of `keys` up to `val`. -/
def countUpTo (count : value → Nat) (keys : List value) (val : value) : Nat :=
  ((keys.filter (· ≤ val)).map count).sum

theorem countUpTo_cons {first val : value} (below : first ≤ val) (rest : List value) :
    countUpTo count (first :: rest) val = count first + countUpTo count rest val := by
  simp only [countUpTo, List.filter_cons, below, decide_true, if_true, List.map_cons,
    List.sum_cons]

theorem countUpTo_first {first : value} {rest : List value} (above : ∀ next ∈ rest, first < next) :
    countUpTo count (first :: rest) first = count first := by
  have later : rest.filter (· ≤ first) = [] :=
    List.filter_eq_nil_iff.mpr (fun next member below =>
      (above next member).not_ge (of_decide_eq_true below))
  rw [countUpTo_cons (le_refl first), countUpTo, later]
  rfl

theorem cdfStep_foldlM {keys : List value} (ascending : keys.Pairwise (· < ·))
    (known : ∀ val ∈ keys, histo.get val = .ok (count val))
    (nonzero : ∀ val ∈ keys, total ≠ 0) (cdfFrac : ℚ) (res : Dict value ℚ)
    (fresh : ∀ val ∈ keys, val ∉ res.keys) :
    ∃ after, keys.foldlM (cdfStep histo total) (cdfFrac, res) = .ok after ∧
      after.2.entries = res.entries ++
        keys.map (fun val => (val, cdfFrac + countUpTo count keys val / total)) := by
  induction keys generalizing cdfFrac res with
  | nil => exact ⟨(cdfFrac, res), rfl, (List.append_nil _).symm⟩
  | cons val rest ih =>
      obtain ⟨above, restAscending⟩ := List.pairwise_cons.mp ascending
      have totalNonzero : (total : ℚ) ≠ 0 :=
        Nat.cast_ne_zero.mpr (nonzero val List.mem_cons_self)
      have step : cdfStep histo total (cdfFrac, res) val =
          .ok (cdfFrac + count val / total,
            res.set val (cdfFrac + count val / total)) := by
        rw [cdfStep, known val List.mem_cons_self]
        change (Python.divide (count val) total >>= _) = _
        rw [Python.divide_ok totalNonzero]
        rfl
      have restFresh (next : value) (member : next ∈ rest) :
          next ∉ (res.set val (cdfFrac + count val / total)).keys := by
        rw [Dict.keys_set, not_or]
        exact ⟨(above next member).ne', fresh next (List.mem_cons_of_mem val member)⟩
      obtain ⟨after, ran, entries⟩ :=
        ih restAscending (fun next member => known next (List.mem_cons_of_mem val member))
          (fun next member => nonzero next (List.mem_cons_of_mem val member))
          (cdfFrac + count val / total) _ restFresh
      refine ⟨after, ?_, ?_⟩
      · rw [List.foldlM_cons, step]
        exact ran
      · rw [entries, Dict.set_fresh (fresh val List.mem_cons_self), List.append_assoc,
          List.map_cons, List.singleton_append, countUpTo_first above]
        congr 2
        refine List.map_congr_left ?_
        intro next member
        rw [countUpTo_cons (above next member).le, Nat.cast_add, add_div, add_assoc]

end Distribution

section Empirical

variable {value : Type} [LinearOrder value] (samples : List value)

def sortedKeys : List value :=
  Python.sorted (ListStats.init samples).histo.keys

theorem sortedKeys_perm : (sortedKeys samples).Perm (ListStats.init samples).histo.keys :=
  Python.sorted_perm _

theorem mem_sortedKeys {val : value} : val ∈ sortedKeys samples ↔ val ∈ samples :=
  (sortedKeys_perm samples).mem_iff.trans ((histo_counts samples).keys val)

theorem sortedKeys_nodup : (sortedKeys samples).Nodup :=
  (sortedKeys_perm samples).nodup_iff.mpr (ListStats.init samples).histo.distinct

theorem sortedKeys_ascending : (sortedKeys samples).Pairwise (· < ·) :=
  (Python.sorted_ordered _).imp₂ (fun _ _ below different => lt_of_le_of_ne below different)
    (sortedKeys_nodup samples)

variable {samples} in
theorem sortedKeys_congr {other : List value} (same : samples.Perm other) :
    sortedKeys samples = sortedKeys other := by
  refine Python.sorted_congr ?_
  refine (List.perm_ext_iff_of_nodup (Dict.distinct _) (Dict.distinct _)).mpr ?_
  intro val
  exact ((histo_counts samples).keys val).trans
    (same.mem_iff.trans ((histo_counts other).keys val).symm)

theorem histo2cdf_ok : ∃ cdf, histo2cdf (ListStats.init samples).histo = .ok cdf ∧
    cdf.entries = (sortedKeys samples).map (fun val => (val, Samples.empirical samples val)) := by
  have counts := histo_counts samples
  generalize histoEq : (ListStats.init samples).histo = histo at counts
  have known (val : value) (member : val ∈ histo.keys) : histo.get val = .ok (samples.count val) :=
    counts.get ((counts.keys val).mp member)
  have total : histo.keys.foldlM (totalStep histo) 0 = .ok samples.length := by
    rw [totalStep_foldlM known, Nat.zero_add]
    have all := Samples.sum_count_keys histo.distinct counts.keys (fun _ => true)
    rw [List.filter_true, List.countP_true] at all
    exact congrArg _ all
  have isKey (val : value) (member : val ∈ sortedKeys samples) : val ∈ histo.keys := by
    rw [← histoEq]
    exact (sortedKeys_perm samples).mem_iff.mp member
  have nonzero (val : value) (member : val ∈ sortedKeys samples) : samples.length ≠ 0 :=
    (List.length_pos_of_mem ((mem_sortedKeys samples).mp member)).ne'
  obtain ⟨after, ran, entries⟩ := cdfStep_foldlM (sortedKeys_ascending samples)
    (fun val member => known val (isKey val member)) nonzero 0 Dict.empty
    (fun _ _ listed => nomatch listed)
  refine ⟨after.2, ?_, ?_⟩
  · rw [histo2cdf, total]
    change ((Python.sorted histo.keys).foldlM (cdfStep histo samples.length)
      (0, Dict.empty) >>= _) = _
    rw [← histoEq] at ran ⊢
    change (sortedKeys samples).foldlM _ _ >>= _ = _
    rw [ran]
    rfl
  · rw [entries]
    change [] ++ _ = _
    rw [List.nil_append]
    refine List.map_congr_left ?_
    intro val member
    rw [zero_add, countUpTo, Samples.sum_count_keys (sortedKeys_nodup samples)
      (fun val => mem_sortedKeys samples), Samples.empirical]

theorem histo2cdf_empirical : ∃ cdf, histo2cdf (ListStats.init samples).histo = .ok cdf ∧
    cdf.keys.Nodup ∧ (∀ val, val ∈ cdf.keys ↔ val ∈ samples) ∧
    (∀ val ∈ samples,
      cdf.get val = .ok ((samples.countP (· ≤ val) : ℚ) / samples.length)) ∧
    (∀ low high lowFrac highFrac, cdf.get low = .ok lowFrac → cdf.get high = .ok highFrac →
      low < high → lowFrac < highFrac) ∧
    (∀ val frac, cdf.get val = .ok frac → 0 < frac ∧ frac ≤ 1) ∧
    (∀ val ∈ samples, (∀ sample ∈ samples, sample ≤ val) → cdf.get val = .ok 1) ∧
    ∀ other, samples.Perm other → histo2cdf (ListStats.init other).histo = .ok cdf := by
  obtain ⟨cdf, ran, entries⟩ := histo2cdf_ok samples
  have keys : cdf.keys = sortedKeys samples := by
    rw [Dict.keys, entries, List.map_map]
    exact List.map_id _
  have get_iff (val : value) (frac : ℚ) :
      cdf.get val = .ok frac ↔ val ∈ samples ∧ Samples.empirical samples val = frac := by
    rw [Dict.get_ok_iff, Dict.find?_of_entries entries, ← mem_sortedKeys samples]
    by_cases member : val ∈ sortedKeys samples <;> simp [member]
  refine ⟨cdf, ran, cdf.distinct, ?_, ?_, ?_, ?_, ?_, ?_⟩
  · intro val
    rw [keys, mem_sortedKeys]
  · intro val member
    exact (get_iff val _).mpr ⟨member, rfl⟩
  · intro low high lowFrac highFrac lowGet highGet below
    obtain ⟨lowMember, lowEq⟩ := (get_iff low lowFrac).mp lowGet
    obtain ⟨highMember, highEq⟩ := (get_iff high highFrac).mp highGet
    rw [← lowEq, ← highEq]
    exact Samples.empirical_lt highMember below
  · intro val frac got
    obtain ⟨member, fracEq⟩ := (get_iff val frac).mp got
    rw [← fracEq]
    exact ⟨Samples.empirical_pos member, Samples.empirical_le_one val⟩
  · intro val member greatest
    exact (get_iff val 1).mpr ⟨member, Samples.empirical_greatest member greatest⟩
  · intro other same
    obtain ⟨otherCdf, otherRan, otherEntries⟩ := histo2cdf_ok other
    have equal : otherCdf = cdf := by
      refine Dict.ext ?_
      rw [otherEntries, entries, sortedKeys_congr same]
      refine List.map_congr_left ?_
      intro val _
      rw [Samples.empirical_congr same]
    rw [otherRan, equal]

end Empirical

end Pciebench
