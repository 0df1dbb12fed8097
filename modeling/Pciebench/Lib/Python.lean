import Mathlib

/-!
Built-in functions and dictionaries of Python. What raises an exception is an `Except`, and
floats are exact fractions.
-/

namespace Python

inductive Error
  | indexError
  | keyError
  | valueError
  | zeroDivisionError
  deriving DecidableEq, Repr

/-- `int`, which rounds towards zero. -/
def int (value : ℚ) : Int :=
  if value < 0 then ⌈value⌉ else ⌊value⌋

def divide (left right : ℚ) : Except Error ℚ :=
  if right = 0 then .error .zeroDivisionError else .ok (left / right)

/-- `//`, which is also what `/` does to integers in Python 2. -/
def floorDivide (left right : Int) : Except Error Int :=
  if right = 0 then .error .zeroDivisionError else .ok (left.fdiv right)

/-- `list[index]`, where an index below zero counts from the end. -/
def item {value : Type*} (list : List value) (index : Int) : Except Error value :=
  let place := if index < 0 then index + list.length else index
  if place < 0 then
    .error .indexError
  else
    match list[place.toNat]? with
    | some found => .ok found
    | none => .error .indexError

/-- The first of the values that no other beats. -/
def extreme {value : Type*} (beats : value → value → Prop) [DecidableRel beats] :
    List value → Except Error value
  | [] => .error .valueError
  | first :: rest =>
      .ok (rest.foldl (fun best next => if beats next best then next else best) first)

section Lists

variable {value : Type*} [LinearOrder value]

def min : List value → Except Error value :=
  extreme (· < ·)

def max : List value → Except Error value :=
  extreme (· > ·)

def sorted (list : List value) : List value :=
  list.insertionSort (· ≤ ·)

theorem sorted_perm (list : List value) : (sorted list).Perm list :=
  List.perm_insertionSort _ list

theorem sorted_ordered (list : List value) : (sorted list).Pairwise (· ≤ ·) :=
  List.pairwise_insertionSort _ list

theorem sorted_congr {list other : List value} (same : list.Perm other) :
    sorted list = sorted other :=
  List.Perm.eq_of_pairwise' (sorted_ordered list) (sorted_ordered other)
    (((sorted_perm list).trans same).trans (sorted_perm other).symm)

end Lists

section Extremes

variable {value : Type*} (beats : value → value → Prop) [DecidableRel beats]
  [IsStrictTotalOrder value beats]

theorem foldl_unbeaten (rest : List value) (first : value) :
    rest.foldl (fun best next => if beats next best then next else best) first ∈ first :: rest ∧
      ∀ other ∈ first :: rest,
        ¬ beats other
          (rest.foldl (fun best next => if beats next best then next else best) first) := by
  induction rest generalizing first with
  | nil =>
      refine ⟨List.mem_singleton_self first, ?_⟩
      intro other member
      rw [List.mem_singleton.mp member]
      exact irrefl first
  | cons next rest ih =>
      rw [List.foldl_cons]
      obtain ⟨member, unbeaten⟩ := ih (if beats next first then next else first)
      generalize rest.foldl (fun best next => if beats next best then next else best)
        (if beats next first then next else first) = found at member unbeaten
      by_cases better : beats next first
      · rw [if_pos better] at member unbeaten
        refine ⟨List.mem_cons_of_mem first member, ?_⟩
        intro other listed
        rcases List.mem_cons.mp listed with same | later
        · subst other
          intro beaten
          exact unbeaten next List.mem_cons_self (trans_of beats better beaten)
        · exact unbeaten other later
      · rw [if_neg better] at member unbeaten
        have kept := unbeaten first List.mem_cons_self
        refine ⟨?_, ?_⟩
        · rcases List.mem_cons.mp member with same | later
          · exact List.mem_cons.mpr (.inl same)
          · exact List.mem_cons_of_mem _ (List.mem_cons_of_mem _ later)
        intro other listed
        rcases List.mem_cons.mp listed with same | later
        · rw [same]
          exact kept
        rcases List.mem_cons.mp later with same | last
        · subst other
          intro beaten
          -- What beats the result would have been beaten by `first`, which the result is not.
          rcases trichotomous_of beats found first with wins | same | loses
          · exact better (trans_of beats beaten wins)
          · exact better (same ▸ beaten)
          · exact kept loses
        · exact unbeaten other (List.mem_cons_of_mem first last)

theorem extreme_eq {list : List value} {best : value} (member : best ∈ list)
    (unbeaten : ∀ other ∈ list, ¬ beats other best) : extreme beats list = .ok best := by
  cases list with
  | nil => cases member
  | cons first rest =>
      obtain ⟨listed, beatenByNone⟩ := foldl_unbeaten beats rest first
      refine congrArg Except.ok ?_
      rcases trichotomous_of beats
          (rest.foldl (fun best next => if beats next best then next else best) first) best
        with wins | same | loses
      · exact absurd wins (unbeaten _ listed)
      · exact same
      · exact absurd loses (beatenByNone best member)

end Extremes

section Sorted

variable {value : Type*} [LinearOrder value]

theorem min_eq {list : List value} {least : value} (member : least ∈ list)
    (below : ∀ other ∈ list, least ≤ other) : min list = .ok least :=
  extreme_eq (· < ·) member (fun other listed => not_lt.mpr (below other listed))

theorem max_eq {list : List value} {greatest : value} (member : greatest ∈ list)
    (above : ∀ other ∈ list, other ≤ greatest) : max list = .ok greatest :=
  extreme_eq (· > ·) member (fun other listed => not_lt.mpr (above other listed))

end Sorted

section Numbers

theorem int_intCast (index : Int) : int index = index := by
  rw [int, Int.ceil_intCast, Int.floor_intCast, ite_self]

theorem divide_ok {right : ℚ} (nonzero : right ≠ 0) (left : ℚ) :
    divide left right = .ok (left / right) :=
  if_neg nonzero

theorem floorDivide_ok {right : Int} (positive : 0 < right) (left : Int) :
    floorDivide left right = .ok (left / right) := by
  rw [floorDivide, if_neg positive.ne', Int.fdiv_eq_ediv_of_nonneg _ positive.le]

theorem item_ok {value : Type*} {list : List value} {index : Int} (start : 0 ≤ index)
    (inside : index.toNat < list.length) :
    item list index = .ok (list.get ⟨index.toNat, inside⟩) := by
  have forward : ¬ index < 0 := by omega
  simp only [item, forward, if_false, List.getElem?_eq_getElem inside, List.get_eq_getElem]

end Numbers

/-- A dictionary: its entries in the order in which their keys came in, one for each key. -/
@[ext] structure Dict (key value : Type*) where
  entries : List (key × value)
  distinct : (entries.map Prod.fst).Nodup

namespace Dict

variable {key value : Type*}

def empty : Dict key value where
  entries := []
  distinct := List.nodup_nil

def keys (dict : Dict key value) : List key :=
  dict.entries.map Prod.fst

variable [DecidableEq key]

def find? (dict : Dict key value) (wanted : key) : Option value :=
  (dict.entries.find? (fun entry => entry.1 = wanted)).map Prod.snd

/-- `dict[wanted]`. -/
def get (dict : Dict key value) (wanted : key) : Except Error value :=
  match dict.find? wanted with
  | some found => .ok found
  | none => .error .keyError

/-- The entries after `dict[changed] = new`. -/
def setEntry (changed : key) (new : value) : List (key × value) → List (key × value)
  | [] => [(changed, new)]
  | entry :: rest =>
      if entry.1 = changed then (changed, new) :: rest else entry :: setEntry changed new rest

theorem keys_setEntry (changed : key) (new : value) (entries : List (key × value)) :
    (setEntry changed new entries).map Prod.fst =
      if changed ∈ entries.map Prod.fst then entries.map Prod.fst
      else entries.map Prod.fst ++ [changed] := by
  induction entries with
  | nil => rfl
  | cons entry rest ih =>
      rw [setEntry]
      by_cases same : entry.1 = changed
      · subst changed
        rw [if_pos rfl, List.map_cons, List.map_cons, if_pos List.mem_cons_self]
      · rw [if_neg same, List.map_cons, ih, List.map_cons]
        have other : changed ≠ entry.1 := fun eq => same eq.symm
        simp only [List.mem_cons, other, false_or]
        split <;> rfl

theorem distinct_setEntry {changed : key} {new : value} {entries : List (key × value)}
    (distinct : (entries.map Prod.fst).Nodup) :
    ((setEntry changed new entries).map Prod.fst).Nodup := by
  rw [keys_setEntry]
  split
  · exact distinct
  · rename_i fresh
    exact List.nodup_append.mpr ⟨distinct, List.nodup_singleton changed, by
      intro first member second last same
      rw [List.mem_singleton.mp last] at same
      exact fresh (same ▸ member)⟩

def set (dict : Dict key value) (changed : key) (new : value) : Dict key value where
  entries := setEntry changed new dict.entries
  distinct := distinct_setEntry dict.distinct

theorem set_fresh {dict : Dict key value} {added : key} (fresh : added ∉ dict.keys) (new : value) :
    (dict.set added new).entries = dict.entries ++ [(added, new)] := by
  change setEntry added new dict.entries = _
  rw [keys] at fresh
  generalize dict.entries = entries at fresh
  induction entries with
  | nil => rfl
  | cons entry rest ih =>
      rw [List.map_cons, List.mem_cons, not_or] at fresh
      rw [setEntry, if_neg (fun same => fresh.1 same.symm), ih fresh.2, List.cons_append]

theorem keys_set (dict : Dict key value) (changed : key) (new : value) (wanted : key) :
    wanted ∈ (dict.set changed new).keys ↔ wanted = changed ∨ wanted ∈ dict.keys := by
  have listed : (dict.set changed new).keys = _ := keys_setEntry changed new dict.entries
  rw [listed]
  split
  · rename_i known
    constructor
    · exact .inr
    · rintro (same | member)
      · exact same ▸ known
      · exact member
  · rw [List.mem_append, List.mem_singleton, or_comm]
    exact Iff.rfl

theorem find?_set (dict : Dict key value) (changed : key) (new : value) (wanted : key) :
    (dict.set changed new).find? wanted =
      if wanted = changed then some new else dict.find? wanted := by
  change ((setEntry changed new dict.entries).find? _).map _ = _
  rw [find?]
  generalize dict.entries = entries
  induction entries with
  | nil =>
      by_cases same : wanted = changed
      · subst changed
        simp [setEntry]
      · have other : changed ≠ wanted := fun eq => same eq.symm
        simp [setEntry, same, other]
  | cons entry rest ih =>
      rw [setEntry]
      by_cases here : entry.1 = changed
      · rw [if_pos here]
        by_cases same : wanted = changed
        · subst changed
          simp [same]
        · have other : changed ≠ wanted := fun eq => same eq.symm
          have passed : entry.1 ≠ wanted := here ▸ other
          simp [same, other, passed]
      · rw [if_neg here]
        by_cases found : entry.1 = wanted
        · have other : wanted ≠ changed := found ▸ here
          simp [found, other]
        · simp only [List.find?_cons, found, decide_false]
          exact ih

theorem find?_of_entries {dict : Dict key value} {listed : List key} {image : key → value}
    (entries : dict.entries = listed.map (fun name => (name, image name))) (wanted : key) :
    dict.find? wanted = if wanted ∈ listed then some (image wanted) else none := by
  rw [find?, entries]
  clear entries
  induction listed with
  | nil => rfl
  | cons first rest ih =>
      by_cases here : first = wanted
      · subst first
        simp
      · have other : wanted ≠ first := fun same => here same.symm
        simpa [here, other] using ih

theorem get_ok_iff {dict : Dict key value} {wanted : key} {found : value} :
    dict.get wanted = .ok found ↔ dict.find? wanted = some found := by
  rw [get]
  cases dict.find? wanted with
  | none => simp
  | some other => simp

end Dict

end Python
