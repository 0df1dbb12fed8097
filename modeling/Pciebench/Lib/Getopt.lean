import Mathlib

/-!
`getopt` on an argument list. What takes a value takes it from the rest of its argument or from
the next one; arguments that are no options are passed over, and `--` ends the options.
-/

namespace Getopt

abbrev Text := List Char

inductive Found
  | flag (option : Char)
  | value (option : Char) (optarg : Text)
  | bad
  deriving DecidableEq, Repr

/-- The options in one argument, and the one at its end that still wants a value. -/
def cluster (takes : Char → Option Bool) : Text → List Found × Option Char
  | [] => ([], none)
  | option :: more =>
      match takes option with
      | none => ((cluster takes more).map (.bad :: ·) id)
      | some false => ((cluster takes more).map (.flag option :: ·) id)
      | some true =>
          if more = [] then ([], some option) else ([.value option more], none)

def scanFrom (takes : Char → Option Bool) : Option Char → List Text → List Found
  | none, [] => []
  | some _, [] => [.bad]
  | some option, arg :: args => .value option arg :: scanFrom takes none args
  | none, arg :: args =>
      match arg with
      | ['-', '-'] => []
      | '-' :: option :: more =>
          let (found, pending) := cluster takes (option :: more)
          found ++ scanFrom takes pending args
      | _ => scanFrom takes none args

def scan (takes : Char → Option Bool) : List Text → List Found :=
  scanFrom takes none

/-- Options with their values in arguments of their own. -/
def spread (options : List (Char × Text)) : List Text :=
  options.flatMap fun option => [['-', option.1], option.2]

variable {takes : Char → Option Bool}

theorem scanFrom_option {option : Char} {args : List Text} (taken : takes option = some true)
    (letter : option ≠ '-') :
    scanFrom takes none (['-', option] :: args) = scanFrom takes (some option) args := by
  rw [scanFrom]
  · rw [cluster, taken]
    rfl
  · intro same
    exact fun _ => letter same

theorem scan_spread (options : List (Char × Text))
    (all : ∀ option ∈ options, takes option.1 = some true ∧ option.1 ≠ '-') :
    scan takes (spread options) = options.map fun option => .value option.1 option.2 := by
  rw [scan]
  induction options with
  | nil => rfl
  | cons option options ih =>
      obtain ⟨taken, letter⟩ := all option List.mem_cons_self
      have rest := ih fun other member => all other (List.mem_cons_of_mem _ member)
      rw [spread] at rest
      rw [spread, List.flatMap_cons, List.cons_append, scanFrom_option taken letter,
        List.singleton_append, scanFrom, rest, List.map_cons]

end Getopt
