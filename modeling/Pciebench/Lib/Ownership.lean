import Mathlib

/-!
Logs of resources acquired and released. A ledger says which resources are owned after a log
in which nothing is acquired twice or released unless held, and that what was held along the
way was always safe.
-/

namespace Ownership

inductive Event (Resource : Type)
  | acquire (resource : Resource)
  | release (resource : Resource)
  deriving DecidableEq, Repr

variable {Resource : Type} [DecidableEq Resource]

def acquired (log : List (Event Resource)) (resource : Resource) : Nat :=
  log.count (.acquire resource)

def released (log : List (Event Resource)) (resource : Resource) : Nat :=
  log.count (.release resource)

def Held (log : List (Event Resource)) (resource : Resource) : Prop :=
  released log resource < acquired log resource

/-- Whatever was acquired has been released once, after it was acquired, and nothing else. -/
structure Settled (log : List (Event Resource)) : Prop where
  once : ∀ resource, acquired log resource ≤ 1
  back : ∀ resource, released log resource = acquired log resource
  ordered : ∀ before, before <+: log → ∀ resource,
    released before resource ≤ acquired before resource

/-- At every point of the log, what is held is safe. -/
def Always (safe : Set Resource → Prop) (log : List (Event Resource)) : Prop :=
  ∀ before, before <+: log → safe {resource | Held before resource}

/-- What is owned has been acquired once; the rest has gone back or was never acquired. -/
structure Owns (log : List (Event Resource)) (owned : Set Resource) : Prop where
  inside : ∀ resource ∈ owned, acquired log resource = 1 ∧ released log resource = 0
  outside : ∀ resource ∉ owned,
    acquired log resource ≤ 1 ∧ released log resource = acquired log resource

structure Ledger (safe : Set Resource → Prop) (log : List (Event Resource))
    (owned : Set Resource) : Prop extends Owns log owned where
  ordered : ∀ before, before <+: log → ∀ resource,
    released before resource ≤ acquired before resource
  always : Always safe log

/-- A ledger of a log that has released nothing yet. -/
structure Opening (safe : Set Resource → Prop) (log : List (Event Resource))
    (owned : Set Resource) : Prop extends Ledger safe log owned where
  fresh : ∀ resource ∉ owned, acquired log resource = 0

section Counts

variable (log : List (Event Resource)) (resource other : Resource)

@[simp] theorem acquired_acquire :
    acquired (log ++ [.acquire resource]) other =
      acquired log other + if resource = other then 1 else 0 := by
  simp [acquired, List.count_append, List.count_singleton]

@[simp] theorem released_acquire :
    released (log ++ [.acquire resource]) other = released log other := by
  simp [released, List.count_append]

@[simp] theorem acquired_release :
    acquired (log ++ [.release resource]) other = acquired log other := by
  simp [acquired, List.count_append]

@[simp] theorem released_release :
    released (log ++ [.release resource]) other =
      released log other + if resource = other then 1 else 0 := by
  simp [released, List.count_append, List.count_singleton]

end Counts

variable {safe : Set Resource → Prop} {log : List (Event Resource)} {owned next : Set Resource}
  {resource : Resource} {event : Event Resource}

theorem Owns.held (owns : Owns log owned) : {resource | Held log resource} = owned := by
  ext resource
  simp only [Set.mem_ofPred_eq, Held]
  constructor
  · intro held
    by_contra missing
    have := (owns.outside resource missing).2
    omega
  · intro present
    have := owns.inside resource present
    omega

theorem Owns.ordered (owns : Owns log owned) (resource : Resource) :
    released log resource ≤ acquired log resource := by
  by_cases present : resource ∈ owned
  · have := owns.inside resource present
    omega
  · exact (owns.outside resource present).2.le

theorem Ledger.settled (ledger : Ledger safe log ∅) : Settled log where
  once := fun resource => (ledger.outside resource (Set.notMem_empty _)).1
  back := fun resource => (ledger.outside resource (Set.notMem_empty _)).2
  ordered := ledger.ordered

theorem Ledger.concat (ledger : Ledger safe log owned) (owns : Owns (log ++ [event]) next)
    (still : safe next) : Ledger safe (log ++ [event]) next := by
  refine ⟨owns, ?_, ?_⟩
  · intro before short
    rcases List.prefix_concat_iff.mp short with rfl | earlier
    · exact owns.ordered
    · exact ledger.ordered before earlier
  · intro before short
    rcases List.prefix_concat_iff.mp short with rfl | earlier
    · rw [owns.held]
      exact still
    · exact ledger.always before earlier

theorem opening_nil (initial : safe ∅) : Opening safe ([] : List (Event Resource)) ∅ := by
  have owns : Owns ([] : List (Event Resource)) ∅ :=
    ⟨fun resource present => absurd present (Set.notMem_empty _), fun resource _ => by
      simp [acquired, released]⟩
  refine ⟨⟨owns, ?_, ?_⟩, fun resource _ => by simp [acquired]⟩
  · intro before short
    rw [List.prefix_nil.mp short]
    exact owns.ordered
  · intro before short
    rw [List.prefix_nil.mp short, owns.held]
    exact initial

theorem Opening.acquire (opening : Opening safe log owned) (missing : resource ∉ owned)
    (still : safe (insert resource owned)) :
    Opening safe (log ++ [.acquire resource]) (insert resource owned) := by
  have unseen : ∀ other ∉ insert resource owned,
      acquired (log ++ [.acquire resource]) other = 0 := by
    intro other absent
    simp only [Set.mem_insert_iff, not_or] at absent
    simpa [Ne.symm absent.1] using opening.fresh other absent.2
  have owns : Owns (log ++ [.acquire resource]) (insert resource owned) := by
    constructor
    · intro other present
      rcases Set.mem_insert_iff.mp present with rfl | earlier
      · have before := opening.fresh other missing
        have counts := opening.outside other missing
        simp only [acquired_acquire, released_acquire, if_true]
        omega
      · have apart : resource ≠ other := fun same => missing (same ▸ earlier)
        simpa [apart] using opening.inside other earlier
    · intro other absent
      have none := unseen other absent
      simp only [Set.mem_insert_iff, not_or] at absent
      have counts := opening.outside other absent.2
      have before := opening.fresh other absent.2
      simp only [released_acquire, none]
      omega
  exact ⟨opening.concat owns still, unseen⟩

theorem Ledger.release (ledger : Ledger safe log owned) (present : resource ∈ owned)
    (still : safe (owned \ {resource})) :
    Ledger safe (log ++ [.release resource]) (owned \ {resource}) := by
  have owns : Owns (log ++ [.release resource]) (owned \ {resource}) := by
    constructor
    · rintro other ⟨earlier, apart⟩
      have apart : resource ≠ other := fun same => apart same.symm
      simpa [apart] using ledger.inside other earlier
    · intro other absent
      by_cases same : resource = other
      · subst same
        have counts := ledger.inside resource present
        simp only [acquired_release, released_release, if_true]
        omega
      · have outside : other ∉ owned := fun earlier => absent ⟨earlier, fun eq => same eq.symm⟩
        simpa [same] using ledger.outside other outside
  exact ledger.concat owns still

theorem Ledger.undo (ledger : Ledger safe log (insert resource owned))
    (missing : resource ∉ owned) (still : safe owned) :
    Ledger safe (log ++ [.release resource]) owned := by
  have left : insert resource owned \ {resource} = owned :=
    Set.insert_sdiff_self_of_notMem missing
  have back := ledger.release (Set.mem_insert resource owned) (by rwa [left])
  rwa [left] at back

end Ownership
