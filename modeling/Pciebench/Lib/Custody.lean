import Mathlib
import Pciebench.Lib.Ownership

/-!
Logs played on the set of what is held: nothing is acquired while it is held, nothing released
that is not, and every set on the way is safe. What a ledger allows once, these logs may do any
number of times, and in several parts of a system at once.
-/

namespace Ownership

section Plays

variable {Resource : Type}

inductive Plays (safe : Set Resource → Prop) :
    Set Resource → List (Event Resource) → Set Resource → Prop
  | nil {held : Set Resource} : safe held → Plays safe held [] held
  | acquire {held last : Set Resource} {resource : Resource} {rest : List (Event Resource)} :
      safe held → resource ∉ held → Plays safe (insert resource held) rest last →
      Plays safe held (.acquire resource :: rest) last
  | release {held last : Set Resource} {resource : Resource} {rest : List (Event Resource)} :
      safe held → resource ∈ held → Plays safe (held \ {resource}) rest last →
      Plays safe held (.release resource :: rest) last

variable {safe : Set Resource → Prop} {held middle last other : Set Resource}
  {before after log : List (Event Resource)}

theorem Plays.start (plays : Plays safe held log last) : safe held := by
  cases plays with
  | nil still | acquire still | release still => exact still

theorem Plays.append (first : Plays safe held before middle) (rest : Plays safe middle after last) :
    Plays safe held (before ++ after) last := by
  induction first with
  | nil still => exact rest
  | acquire still missing _ ih => exact .acquire still missing (ih rest)
  | release still present _ ih => exact .release still present (ih rest)

theorem Plays.acquired {resource : Resource} (plays : Plays safe held log last)
    (missing : resource ∉ last) (still : safe (insert resource last)) :
    Plays safe held (log ++ [.acquire resource]) (insert resource last) := by
  induction plays with
  | nil safeHere => exact .acquire safeHere missing (.nil still)
  | acquire safeHere unheld _ ih => exact .acquire safeHere unheld (ih missing still)
  | release safeHere present _ ih => exact .release safeHere present (ih missing still)

theorem Plays.released {resource : Resource} (plays : Plays safe held log last)
    (present : resource ∈ last) (still : safe (last \ {resource})) :
    Plays safe held (log ++ [.release resource]) (last \ {resource}) := by
  induction plays with
  | nil safeHere => exact .release safeHere present (.nil still)
  | acquire safeHere unheld _ ih => exact .acquire safeHere unheld (ih present still)
  | release safeHere inside _ ih => exact .release safeHere inside (ih present still)

theorem Plays.split (plays : Plays safe held (before ++ after) last) :
    ∃ middle, Plays safe held before middle ∧ Plays safe middle after last := by
  induction before generalizing held with
  | nil => exact ⟨held, .nil plays.start, plays⟩
  | cons event before ih =>
      cases plays with
      | acquire still missing plays =>
          obtain ⟨middle, early, late⟩ := ih plays
          exact ⟨middle, .acquire still missing early, late⟩
      | release still present plays =>
          obtain ⟨middle, early, late⟩ := ih plays
          exact ⟨middle, .release still present early, late⟩

theorem Plays.unique (plays : Plays safe held log last) (again : Plays safe held log other) :
    last = other := by
  induction plays with
  | nil still =>
      cases again
      rfl
  | acquire still missing _ ih =>
      cases again with
      | acquire _ _ again => exact ih again
  | release still present _ ih =>
      cases again with
      | release _ _ again => exact ih again

/-- What is held at any point of the log is safe. -/
theorem Plays.always (plays : Plays safe held log last) (early : before <+: log) :
    ∃ middle, Plays safe held before middle ∧ safe middle := by
  obtain ⟨after, rfl⟩ := early
  obtain ⟨middle, first, rest⟩ := plays.split
  exact ⟨middle, first, rest.start⟩

end Plays

section Frame

variable {Part Resource : Type}

def Event.map (tag : Part → Resource) : Event Part → Event Resource
  | .acquire resource => .acquire (tag resource)
  | .release resource => .release (tag resource)

variable {tag : Part → Resource} (injective : Function.Injective tag) {frame : Set Resource}
  (apart : ∀ resource, tag resource ∉ frame)

include injective apart

theorem tagged_mem {held : Set Part} {resource : Part} :
    tag resource ∈ tag '' held ∪ frame ↔ resource ∈ held := by
  rw [Set.mem_union, injective.mem_set_image]
  exact or_iff_left (apart resource)

theorem tagged_release (held : Set Part) (resource : Part) :
    tag '' (held \ {resource}) ∪ frame = (tag '' held ∪ frame) \ {tag resource} := by
  rw [Set.image_sdiff injective, Set.image_singleton, Set.union_sdiff_distrib,
    Set.sdiff_singleton_eq_self (apart resource)]

/-- A part of a system plays its log as it would alone, with the rest as it is. -/
theorem Plays.tagged {safe : Set Part → Prop} {safeAll : Set Resource → Prop}
    {held last : Set Part} {log : List (Event Part)}
    (still : ∀ part, safe part → safeAll (tag '' part ∪ frame)) (plays : Plays safe held log last) :
    Plays safeAll (tag '' held ∪ frame) (log.map (Event.map tag)) (tag '' last ∪ frame) := by
  induction plays with
  | nil safeHere => exact .nil (still _ safeHere)
  | acquire safeHere missing _ ih =>
      rw [Set.image_insert_eq, Set.insert_union] at ih
      exact .acquire (still _ safeHere) (mt (tagged_mem injective apart).mp missing) ih
  | release safeHere present _ ih =>
      rw [tagged_release injective apart] at ih
      exact .release (still _ safeHere) ((tagged_mem injective apart).mpr present) ih

end Frame

section Ledger

variable {Resource : Type} [DecidableEq Resource] {safe : Set Resource → Prop}
  {log before : List (Event Resource)} {owned : Set Resource}

theorem Ledger.once (ledger : Ledger safe log owned) (early : before <+: log)
    (resource : Resource) : acquired before resource ≤ 1 := by
  refine (early.sublist.count_le _).trans ?_
  by_cases present : resource ∈ owned
  · exact (ledger.inside resource present).1.le
  · exact (ledger.outside resource present).1

theorem Ledger.plays_before (ledger : Ledger safe log owned) (early : before <+: log) :
    Plays safe ∅ before {resource | Held before resource} := by
  induction before using List.reverseRecOn with
  | nil =>
      have nothing : {resource | Held ([] : List (Event Resource)) resource} = ∅ := by
        simp [Held, acquired, released]
      have safeHere := ledger.always [] early
      rw [nothing] at safeHere ⊢
      exact .nil safeHere
  | append_singleton before event ih =>
      have plays := ih ((List.prefix_append _ _).trans early)
      have safeNext := ledger.always _ early
      cases event with
      | acquire resource =>
          have once := ledger.once early resource
          have ordered := ledger.ordered before ((List.prefix_append _ _).trans early) resource
          rw [acquired_acquire, if_pos rfl] at once
          have grown : {other | Held (before ++ [.acquire resource]) other} =
              insert resource {other | Held before other} := by
            ext other
            rw [Set.mem_insert_iff, Set.mem_ofPred_eq, Set.mem_ofPred_eq, Held, Held,
              acquired_acquire, released_acquire]
            by_cases same : resource = other
            · subst same
              simp only [if_true, true_or, iff_true]
              omega
            · simp [same, Ne.symm same]
          rw [grown] at safeNext ⊢
          refine plays.acquired ?_ safeNext
          rw [Set.mem_ofPred_eq, Held]
          omega
      | release resource =>
          have once := ledger.once early resource
          have ordered := ledger.ordered _ early resource
          rw [acquired_release] at once ordered
          rw [released_release, if_pos rfl] at ordered
          have shrunk : {other | Held (before ++ [.release resource]) other} =
              {other | Held before other} \ {resource} := by
            ext other
            rw [Set.mem_sdiff, Set.mem_ofPred_eq, Set.mem_ofPred_eq, Set.mem_singleton_iff, Held,
              Held, acquired_release, released_release]
            by_cases same : resource = other
            · subst same
              simp only [if_true, not_true_eq_false, and_false, iff_false]
              omega
            · simp [same, Ne.symm same]
          rw [shrunk] at safeNext ⊢
          refine plays.released ?_ safeNext
          rw [Set.mem_ofPred_eq, Held]
          omega

theorem Ledger.plays (ledger : Ledger safe log owned) : Plays safe ∅ log owned := by
  have plays := ledger.plays_before List.prefix_rfl
  rwa [ledger.toOwns.held] at plays

/-- The events by which one ledger goes on from another. -/
theorem Ledger.plays_on {more : List (Event Resource)} {next : Set Resource}
    (ledger : Ledger safe log owned) (later : Ledger safe (log ++ more) next) :
    Plays safe owned more next := by
  obtain ⟨middle, first, rest⟩ := later.plays.split
  rwa [first.unique ledger.plays] at rest

end Ledger

end Ownership
