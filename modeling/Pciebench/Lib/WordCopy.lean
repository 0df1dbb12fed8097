import Mathlib

/-!
Blocks of memory copied one word at a time: how much of the copy agrees with its source.
-/

namespace WordCopy

variable {Word : Type}

/-- The first `count` words of the two blocks are the same. -/
def Agree (count : Nat) (copy source : Nat → Word) : Prop :=
  ∀ index, index < count → copy index = source index

variable {count : Nat} {copy source other : Nat → Word}

theorem agree_zero (copy source : Nat → Word) : Agree 0 copy source := by
  intro index bound
  omega

theorem Agree.next (agree : Agree count copy source) :
    Agree (count + 1) (Function.update copy count (source count)) source := by
  intro index bound
  by_cases same : index = count
  · subst same
    simp
  · rw [Function.update_of_ne same]
    exact agree index (by omega)

theorem Agree.mono {fewer : Nat} (agree : Agree count copy source) (le : fewer ≤ count) :
    Agree fewer copy source :=
  fun index bound => agree index (by omega)

theorem Agree.nextFrom {total : Nat} (agree : Agree count copy other)
    (same : Agree total source other) (bound : count < total) :
    Agree (count + 1) (Function.update copy count (source count)) other := by
  rw [same count bound]
  exact agree.next

end WordCopy
