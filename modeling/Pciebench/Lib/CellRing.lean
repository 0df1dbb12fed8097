import Mathlib

/-!
A ring of cells to which values are appended for ever, each over the oldest one.
-/

structure CellRing (Value : Type) (size : Nat) where
  cells : Nat → Value
  tail : Nat
  inside : tail < size

namespace CellRing

variable {Value : Type} {size : Nat}

def push (ring : CellRing Value size) (value : Value) : CellRing Value size where
  cells := Function.update ring.cells ring.tail value
  tail := (ring.tail + 1) % size
  inside := Nat.mod_lt _ (Nat.zero_lt_of_lt ring.inside)

def pushAll (ring : CellRing Value size) (values : List Value) : CellRing Value size :=
  values.foldl push ring

theorem pushAll_concat (ring : CellRing Value size) (values : List Value) (last : Value) :
    ring.pushAll (values ++ [last]) = (ring.pushAll values).push last :=
  List.foldl_append

theorem tail_pushAll (ring : CellRing Value size) (values : List Value) :
    (ring.pushAll values).tail = (ring.tail + values.length) % size := by
  induction values using List.reverseRecOn with
  | nil => exact (Nat.mod_eq_of_lt ring.inside).symm
  | append_singleton values last ih =>
      rw [pushAll_concat, List.length_append, List.length_singleton]
      change ((ring.pushAll values).tail + 1) % size = _
      rw [ih, Nat.mod_add_mod, Nat.add_assoc]

theorem places_apart {first second : Nat} (less : first < second) (near : second < first + size) :
    first % size ≠ second % size := by
  intro same
  have divides := (Nat.modEq_iff_dvd' less.le).mp same
  have large := Nat.le_of_dvd (by omega) divides
  omega

theorem pushAll_cells (ring : CellRing Value size) (values : List Value) {index : Nat}
    (inside : index < values.length) (recent : values.length ≤ index + size) :
    (ring.pushAll values).cells ((ring.tail + index) % size) = values.get ⟨index, inside⟩ := by
  induction values using List.reverseRecOn with
  | nil => exact absurd inside (Nat.not_lt_zero index)
  | append_singleton values last ih =>
      have count : (values ++ [last]).length = values.length + 1 := by simp
      rw [pushAll_concat]
      change Function.update (ring.pushAll values).cells (ring.pushAll values).tail last _ = _
      rw [tail_pushAll]
      by_cases here : index = values.length
      · subst index
        rw [Function.update_self]
        simp
      · have earlier : index < values.length := by omega
        have apart : (ring.tail + index) % size ≠ (ring.tail + values.length) % size :=
          places_apart (by omega) (by omega)
        rw [Function.update_of_ne apart, ih earlier (by omega)]
        simp [earlier]

theorem pushAll_fresh {ring : CellRing Value size} (fresh : ring.tail = 0) {values : List Value}
    (fits : values.length ≤ size) :
    (List.range values.length).map (ring.pushAll values).cells = values := by
  refine List.ext_getElem (by simp) ?_
  intro index _ inside
  have place : (ring.tail + index) % size = index := by
    rw [fresh, Nat.zero_add, Nat.mod_eq_of_lt (by omega)]
  have found := ring.pushAll_cells values inside (by omega)
  rw [place] at found
  simpa using found

end CellRing
