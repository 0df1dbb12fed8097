import Mathlib

/-!
Machines given by a partial step function: the states that runs reach, runs whose steps all
meet a condition, and the induction that carries an invariant along a run.
-/

namespace Machine

variable {State Action : Type}

/-- The states reached from `start` by steps that `allowed` admits. -/
inductive Reaches (step : State → Action → Option State) (allowed : State → Action → Prop)
    (start : State) : State → Prop
  | start : Reaches step allowed start start
  | step {state next : State} {action : Action} : Reaches step allowed start state →
      allowed state action → step state action = some next → Reaches step allowed start next

abbrev Reachable (step : State → Action → Option State) (start : State) : State → Prop :=
  Reaches step (fun _ _ => True) start

variable {step : State → Action → Option State} {allowed : State → Action → Prop}
  {start state : State}

theorem Reaches.reachable (reached : Reaches step allowed start state) :
    Reachable step start state := by
  induction reached with
  | start => exact Reaches.start
  | step _ _ moved ih => exact Reaches.step ih trivial moved

theorem Reachable.trans {last : State} (first : Reachable step start state)
    (rest : Reachable step state last) : Reachable step start last := by
  induction rest with
  | start => exact first
  | step _ _ moved ih => exact Reaches.step ih trivial moved

theorem Reachable.one {next : State} (action : Action) (moved : step start action = some next) :
    Reachable step start next :=
  Reaches.step Reaches.start trivial moved

theorem Reaches.admitted (reached : Reachable step start state)
    (admits : ∀ before action after, Reachable step start before →
      step before action = some after → allowed before action) :
    Reaches step allowed start state := by
  induction reached with
  | start => exact Reaches.start
  | step before _ moved ih => exact Reaches.step ih (admits _ _ _ before moved) moved

theorem Reaches.weaken {other : State → Action → Prop} (reached : Reaches step allowed start state)
    (weaker : ∀ before action, allowed before action → other before action) :
    Reaches step other start state := by
  induction reached with
  | start => exact Reaches.start
  | step _ admitted moved ih => exact Reaches.step ih (weaker _ _ admitted) moved

/-- What holds at the start and is kept by every admitted step holds all along the run. -/
theorem Reaches.invariant {holds : State → Prop} (reached : Reaches step allowed start state)
    (initial : holds start)
    (kept : ∀ before action after, Reaches step allowed start before → holds before →
      allowed before action → step before action = some after → holds after) : holds state := by
  induction reached with
  | start => exact initial
  | step before admitted moved ih => exact kept _ _ _ before ih admitted moved

/-- Every run that goes on as long as it can comes to the goal. -/
inductive Inevitable (step : State → Action → Option State) (goal : State → Prop) : State → Prop
  | now {state : State} : goal state → Inevitable step goal state
  | later {state next : State} {action : Action} : step state action = some next →
      (∀ action next, step state action = some next → Inevitable step goal next) →
      Inevitable step goal state

/-- The goal is inevitable where a measure falls with every step and only goal states may be
stuck. -/
theorem Inevitable.of_measure {goal holds : State → Prop} (measure : State → Nat)
    (kept : ∀ state action next, holds state → ¬ goal state → step state action = some next →
      holds next ∧ measure next < measure state)
    (progress : ∀ state, holds state → ¬ goal state →
      ∃ action next, step state action = some next) (held : holds state) :
    Inevitable step goal state := by
  induction left : measure state using Nat.strong_induction_on generalizing state with
  | _ left ih =>
      by_cases arrived : goal state
      · exact .now arrived
      · obtain ⟨action, next, moved⟩ := progress state held arrived
        refine .later moved ?_
        intro other after moved'
        obtain ⟨held', less⟩ := kept state other after held arrived moved'
        exact ih _ (left ▸ less) held' rfl

/-- What a run comes to may be read off the states that the run can reach. -/
theorem Inevitable.mono {goal other : State → Prop} (inevitable : Inevitable step goal start)
    (stronger : ∀ last, Reachable step start last → goal last → other last) :
    Inevitable step other start := by
  induction inevitable with
  | now arrived => exact .now (stronger _ .start arrived)
  | later moved _ ih =>
      refine .later moved ?_
      intro action next moved'
      refine ih action next moved' ?_
      intro last reached arrived
      exact stronger last ((Reachable.one action moved').trans reached) arrived

def exec (step : State → Action → Option State) (state : State) : List Action → Option State
  | [] => some state
  | action :: rest => (step state action).bind fun next => exec step next rest

theorem exec_reachable {actions : List Action} (done : exec step start actions = some state) :
    Reachable step start state := by
  induction actions generalizing start with
  | nil =>
      simp only [exec, Option.some.injEq] at done
      subst state
      exact Reaches.start
  | cons action rest ih =>
      simp only [exec] at done
      obtain ⟨next, moved, remaining⟩ := Option.bind_eq_some_iff.mp done
      exact (Reachable.one action moved).trans (ih remaining)

end Machine
