import Pciebench.Lib.Outcome

/-!
Computations that take fuel. A steady one gives with more fuel what it gave, unless it ran
out; one that ends has enough fuel somewhere.
-/

namespace Fuel

variable {ε α β : Type} {empty : ε}

def Steady (empty : ε) (run : Nat → Except ε α) : Prop :=
  ∀ fuel more, fuel ≤ more → run fuel ≠ .error empty → run more = run fuel

def Ends (empty : ε) (run : Nat → Except ε α) : Prop :=
  ∃ fuel, run fuel ≠ .error empty

theorem steady_const (result : Except ε α) : Steady empty fun _ => result :=
  fun _ _ _ _ => rfl

theorem ends_const {result : Except ε α} (some : result ≠ .error empty) :
    Ends empty fun _ => result :=
  ⟨0, some⟩

theorem Steady.bind {first : Nat → Except ε α} {next : α → Nat → Except ε β}
    (head : Steady empty first) (rest : ∀ value, Steady empty (next value)) :
    Steady empty fun fuel => first fuel >>= fun value => next value fuel := by
  intro fuel more ordered done
  cases start : first fuel with
  | error stop =>
      have same := head fuel more ordered fun out => done (by simp only [out, Outcome.error_bind])
      simp only [same, start, Outcome.error_bind]
  | ok value =>
      have same := head fuel more ordered (by simp [start])
      simp only [start, Outcome.ok_bind] at done
      simp only [same, start, Outcome.ok_bind]
      exact rest value fuel more ordered done

theorem Ends.bind {first : Nat → Except ε α} {next : α → Nat → Except ε β}
    (head : Steady empty first) (rest : ∀ value, Steady empty (next value))
    (headEnds : Ends empty first) (restEnds : ∀ value, Ends empty (next value)) :
    Ends empty fun fuel => first fuel >>= fun value => next value fuel := by
  obtain ⟨fuel, done⟩ := headEnds
  cases start : first fuel with
  | error stop =>
      refine ⟨fuel, ?_⟩
      simp only [start, Outcome.error_bind]
      rw [start] at done
      simpa using done
  | ok value =>
      obtain ⟨other, later⟩ := restEnds value
      refine ⟨max fuel other, ?_⟩
      have whole := head fuel (max fuel other) (Nat.le_max_left _ _) done
      have same := rest value other (max fuel other) (Nat.le_max_right _ _) later
      simp only [whole, start, Outcome.ok_bind, same]
      exact later

theorem Steady.unique {run : Nat → Except ε α} {fuel other : Nat} {first second : Except ε α}
    (steady : Steady empty run) (done : run fuel = first) (otherDone : run other = second)
    (enough : first ≠ .error empty) (otherEnough : second ≠ .error empty) : first = second := by
  subst first second
  rcases Nat.le_total fuel other with less | less
  · exact (steady fuel other less enough).symm
  · exact steady other fuel less otherEnough

end Fuel
