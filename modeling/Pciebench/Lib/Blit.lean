import Mathlib

/-!
Ranges copied from one sequence into another, and a sequence kept as an array of chunks.
-/

namespace Blit

variable {byte : Type*}

/-- `count` values of `source` from `start` on, copied over those of `target` from `place` on. -/
def blit (source : Nat → byte) (start : Nat) (target : Nat → byte) (place count : Nat) :
    Nat → byte :=
  fun index =>
    if place ≤ index ∧ index < place + count then source (start + (index - place))
    else target index

/-- The same into one chunk of an array of chunks, from `off` in the chunk on. -/
def blitChunk (source : Nat → byte) (start : Nat) (chunks : Nat → Nat → byte)
    (chunk off count : Nat) : Nat → Nat → byte :=
  fun index place =>
    if index = chunk ∧ off ≤ place ∧ place < off + count then source (start + (place - off))
    else chunks index place

/-- The chunks one after the other. -/
def flat (size : Nat) (chunks : Nat → Nat → byte) (index : Nat) : byte :=
  chunks (index / size) (index % size)

variable {source target : Nat → byte} {start place count : Nat}

theorem blit_zero : blit source start target place 0 = target := by
  funext index
  exact if_neg (by omega)

theorem blit_append (more : Nat) :
    blit source (start + count) (blit source start target place count) (place + count) more =
      blit source start target place (count + more) := by
  funext index
  simp only [blit]
  by_cases second : place + count ≤ index ∧ index < place + count + more
  · rw [if_pos second, if_pos (by omega)]
    congr 1
    omega
  · rw [if_neg second]
    exact if_congr (by omega) rfl rfl

theorem blit_back (other : Nat → byte) :
    blit (blit source start target place count) place other start count =
      blit source start other start count := by
  funext index
  simp only [blit]
  by_cases inside : start ≤ index ∧ index < start + count
  · rw [if_pos inside, if_pos inside, if_pos (by omega)]
    congr 1
    omega
  · rw [if_neg inside, if_neg inside]

theorem flat_of_lt {size off : Nat} (inside : off < size) (chunks : Nat → Nat → byte)
    (chunk : Nat) : flat size chunks (chunk * size + off) = chunks chunk off := by
  have index : (chunk * size + off) / size = chunk := by
    rw [Nat.add_comm, Nat.add_mul_div_right _ _ (by omega), Nat.div_eq_of_lt inside, Nat.zero_add]
  rw [flat, index, Nat.mul_add_mod_of_lt inside]

theorem flat_blitChunk {size chunk off : Nat} (inside : off + count ≤ size)
    (chunks : Nat → Nat → byte) :
    flat size (blitChunk source start chunks chunk off count) =
      blit source start (flat size chunks) (chunk * size + off) count := by
  funext index
  have split := Nat.div_add_mod' index size
  simp only [flat, blitChunk, blit]
  by_cases written : index / size = chunk ∧ off ≤ index % size ∧ index % size < off + count
  · obtain ⟨sameChunk, lower, upper⟩ := written
    rw [sameChunk] at split
    rw [if_pos ⟨sameChunk, lower, upper⟩, if_pos (by omega)]
    congr 1
    omega
  · rw [if_neg written, if_neg]
    rintro ⟨lower, upper⟩
    have sameChunk : index / size = chunk := by
      refine Nat.div_eq_of_lt_le (by omega) ?_
      rw [Nat.add_mul]
      omega
    rw [sameChunk] at split
    exact written ⟨sameChunk, by omega, by omega⟩

theorem blitChunk_beyond {size chunk off : Nat} (inside : off + count ≤ size)
    (chunks : Nat → Nat → byte) {index place : Nat} (beyond : size ≤ place) :
    blitChunk source start chunks chunk off count index place = chunks index place :=
  if_neg (by omega)

end Blit
