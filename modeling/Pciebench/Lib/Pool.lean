import Mathlib

/-!
Totals over a pool of members, each in a state of its own, when one member changes its state.
-/

namespace Pool

variable {ι α M : Type} [Fintype ι] [DecidableEq ι] [AddCommMonoid M]

def total (measure : α → M) (pool : ι → α) : M :=
  ∑ member, measure (pool member)

omit [DecidableEq ι] in
theorem total_eq_zero {measure : α → M} {pool : ι → α}
    (zero : ∀ member, measure (pool member) = 0) : total measure pool = 0 :=
  Finset.sum_eq_zero fun member _ => zero member

theorem total_split (measure : α → M) (pool : ι → α) (member : ι) :
    total measure pool =
      measure (pool member) + ∑ other ∈ Finset.univ.erase member, measure (pool other) :=
  (Finset.add_sum_erase _ _ (Finset.mem_univ member)).symm

theorem share_le_total [PartialOrder M] [CanonicallyOrderedAdd M] {measure : α → M}
    (pool : ι → α) (member : ι) {share : M} (part : share ≤ measure (pool member)) :
    share ≤ total measure pool := by
  rw [total_split measure pool member]
  exact part.trans le_self_add

theorem total_update (measure : α → M) (pool : ι → α) (member : ι) (value : α) :
    measure (pool member) + total measure (Function.update pool member value) =
      measure value + total measure pool := by
  have others : ∑ other ∈ Finset.univ.erase member,
      measure (Function.update pool member value other) =
        ∑ other ∈ Finset.univ.erase member, measure (pool other) := by
    apply Finset.sum_congr rfl
    intro other away
    rw [Function.update_of_ne (Finset.ne_of_mem_erase away)]
  rw [total_split measure (Function.update pool member value) member, others,
    total_split measure pool member, Function.update_self]
  exact add_left_comm _ _ _

theorem total_update_same {measure : α → M} (pool : ι → α) (member : ι) {value : α}
    (same : measure value = measure (pool member)) :
    total measure (Function.update pool member value) = total measure pool := by
  rw [total_split measure pool member, total_split measure (Function.update pool member value)
    member, Function.update_self, same]
  congr 1
  apply Finset.sum_congr rfl
  intro other away
  rw [Function.update_of_ne (Finset.ne_of_mem_erase away)]

theorem total_update_gain {measure : α → M} (pool : ι → α) (member : ι) {value : α} {share : M}
    (nothing : measure (pool member) = 0) (taken : measure value = share) :
    total measure (Function.update pool member value) = share + total measure pool := by
  have exchanged := total_update measure pool member value
  rwa [nothing, zero_add, taken] at exchanged

theorem total_update_lose {measure : α → M} (pool : ι → α) (member : ι) {value : α} {share : M}
    (given : measure (pool member) = share) (nothing : measure value = 0) :
    share + total measure (Function.update pool member value) = total measure pool := by
  rw [← given, total_update, nothing, zero_add]

/-- One member counts nothing, and each of the others at most one. -/
theorem total_le_others {measure : α → Nat} (pool : ι → α) (idle : ι)
    (each : ∀ member, measure (pool member) ≤ 1) (nothing : measure (pool idle) = 0) :
    total measure pool + 1 ≤ Fintype.card ι := by
  have rest : ∑ other ∈ Finset.univ.erase idle, measure (pool other) ≤
      (Finset.univ.erase idle).card • 1 :=
    Finset.sum_le_card_nsmul _ _ _ fun other _ => each other
  have somebody : 0 < Fintype.card ι := Fintype.card_pos_iff.mpr ⟨idle⟩
  rw [Finset.card_erase_of_mem (Finset.mem_univ idle), Finset.card_univ, smul_eq_mul] at rest
  rw [total_split measure pool idle, nothing]
  omega

end Pool
