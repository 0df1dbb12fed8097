import Mathlib

/-!
Inversion of `Except` computations: what a successful or a failed bind says
about its two halves.
-/

namespace Outcome

variable {ε α β : Type}

@[simp] theorem ok_bind (value : α) (next : α → Except ε β) :
    (Except.ok value >>= next) = next value := rfl

@[simp] theorem error_bind (stop : ε) (next : α → Except ε β) :
    (Except.error stop >>= next) = Except.error stop := rfl

theorem bind_eq_ok {first : Except ε α} {next : α → Except ε β} {result : β} :
    first >>= next = .ok result ↔ ∃ value, first = .ok value ∧ next value = .ok result := by
  cases first <;> simp

theorem bind_eq_error {first : Except ε α} {next : α → Except ε β} {stop : ε} :
    first >>= next = .error stop ↔
      first = .error stop ∨ ∃ value, first = .ok value ∧ next value = .error stop := by
  cases first <;> simp

theorem mapM_ok {step : α → Except ε β} {result : α → β} {list : List α}
    (each : ∀ value ∈ list, step value = .ok (result value)) :
    list.mapM step = .ok (list.map result) := by
  induction list with
  | nil => rfl
  | cons value list ih =>
      obtain ⟨here, later⟩ := List.forall_mem_cons.mp each
      rw [List.mapM_cons, here, ok_bind, ih later]
      rfl

/-- A computation ends in a value or an error with the given properties. -/
def Ends (result : Except ε α) (good : α → Prop) (stopped : ε → Prop) : Prop :=
  match result with
  | .ok value => good value
  | .error stop => stopped stop

theorem Ends.imp {result : Except ε α} {good better : α → Prop} {stopped : ε → Prop}
    (ends : Ends result good stopped) (imp : ∀ value, good value → better value) :
    Ends result better stopped := by
  cases result with
  | ok value => exact imp value ends
  | error stop => exact ends

theorem Ends.bind {first : Except ε α} {next : α → Except ε β} {good : α → Prop}
    {done : β → Prop} {stopped : ε → Prop} (start : Ends first good stopped)
    (rest : ∀ value, good value → Ends (next value) done stopped) :
    Ends (first >>= next) done stopped := by
  cases first with
  | ok value => exact rest value start
  | error stop => exact start

/-- Two computations end alike. -/
def Related {δ : Type} (same : α → β → Prop) (stopped : ε → δ → Prop) (left : Except ε α)
    (right : Except δ β) : Prop :=
  match left, right with
  | .ok value, .ok other => same value other
  | .error stop, .error other => stopped stop other
  | _, _ => False

section Related

variable {δ γ ζ ι : Type} {same : α → β → Prop} {stopped : ε → δ → Prop}

theorem Related.bind {after : γ → ζ → Prop} {left : Except ε α} {right : Except δ β}
    {next : α → Except ε γ} {otherNext : β → Except δ ζ}
    (related : Related same stopped left right)
    (rest : ∀ value other, same value other →
      Related after stopped (next value) (otherNext other)) :
    Related after stopped (left >>= next) (right >>= otherNext) := by
  cases left with
  | ok value =>
      cases right with
      | ok other => exact rest value other related
      | error stop => exact related.elim
  | error stop =>
      cases right with
      | ok other => exact related.elim
      | error other => exact related

theorem related_foldlM {step : α → ι → Except ε α} {otherStep : β → ι → Except δ β}
    (steps : ∀ value other input, same value other →
      Related same stopped (step value input) (otherStep other input))
    (inputs : List ι) {value : α} {other : β} (start : same value other) :
    Related same stopped (inputs.foldlM step value) (inputs.foldlM otherStep other) := by
  induction inputs generalizing value other with
  | nil => exact start
  | cons input rest ih =>
      rw [List.foldlM_cons, List.foldlM_cons]
      exact (steps value other input start).bind fun _ _ next => ih next

/-- A loop that keeps what it has from the inputs so far ends as the list of what it has from
all of them. -/
theorem related_collect {collect : ι → Except ε β} {step : α → ι → Except ε α}
    (kept : List β → α → Prop)
    (steps : ∀ found value input, kept found value →
      Related (fun next after => kept (found ++ [next]) after) (· = ·) (collect input)
        (step value input))
    (inputs : List ι) {found : List β} {value : α} (start : kept found value) :
    Related (fun rest after => kept (found ++ rest) after) (· = ·) (inputs.mapM collect)
      (inputs.foldlM step value) := by
  induction inputs generalizing found value with
  | nil =>
      change kept (found ++ []) value
      rw [List.append_nil]
      exact start
  | cons input rest ih =>
      rw [List.mapM_cons, List.foldlM_cons]
      refine (steps found value input start).bind ?_
      intro next after grown
      have later := ih grown
      generalize rest.mapM collect = collected at later ⊢
      generalize rest.foldlM step after = looped at later ⊢
      cases collected with
      | error stop =>
          cases looped with
          | error other => exact later
          | ok last => exact later.elim
      | ok others =>
          cases looped with
          | error other => exact later.elim
          | ok last =>
              change kept (found ++ next :: others) last
              rw [List.append_cons]
              exact later

end Related

theorem mapM_forall₂ {step : α → Except ε β} {list : List α} {results : List β}
    (ran : list.mapM step = .ok results) :
    List.Forall₂ (fun value result => step value = .ok result) list results := by
  induction list generalizing results with
  | nil =>
      cases ran
      exact .nil
  | cons value list ih =>
      rw [List.mapM_cons, bind_eq_ok] at ran
      obtain ⟨first, here, rest⟩ := ran
      obtain ⟨others, later, built⟩ := bind_eq_ok.mp rest
      cases built
      exact .cons here (ih later)

end Outcome
