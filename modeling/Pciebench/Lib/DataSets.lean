import Mathlib

/-!
Files of lines that hold data sets: rows of data, comments, and blank lines, two of which in a
row end a data set.
-/

namespace DataSets

inductive Line (Row : Type)
  | blank
  | text (text : String)
  | comment (text : String)
  | data (row : Row)
  deriving DecidableEq, Repr

variable {Row : Type}

def filled (rows : List Row) : List (List Row) :=
  if rows.isEmpty then [] else [rows]

/-- The data sets of a file, the first of them going on from `rows` with `blanks` blank lines
behind it. Comments and other text are passed over. -/
def readFrom (blanks : Nat) (rows : List Row) : List (Line Row) → List (List Row)
  | [] => filled rows
  | .blank :: rest =>
      if 1 ≤ blanks then filled rows ++ readFrom (blanks + 1) [] rest
      else readFrom (blanks + 1) rows rest
  | .text _ :: rest | .comment _ :: rest => readFrom blanks rows rest
  | .data row :: rest => readFrom 0 (rows ++ [row]) rest

def dataSets (file : List (Line Row)) : List (List Row) :=
  readFrom 0 [] file

/-- All rows of a file, whatever stands between them. -/
def rowsOf (file : List (Line Row)) : List Row :=
  file.filterMap fun line =>
    match line with
    | .data row => some row
    | _ => none

variable {blanks : Nat} {rows : List Row} {rest : List (Line Row)}

theorem rowsOf_append (before after : List (Line Row)) :
    rowsOf (before ++ after) = rowsOf before ++ rowsOf after :=
  List.filterMap_append

theorem readFrom_blank : readFrom blanks [] (.blank :: rest) = readFrom (blanks + 1) [] rest := by
  rw [readFrom, filled, List.isEmpty_nil, if_pos rfl, List.nil_append, ite_self]

theorem readFrom_empty (blanks : Nat) (file : List (Line Row)) :
    readFrom blanks [] file = dataSets file := by
  rw [dataSets]
  generalize 0 = other
  induction file generalizing blanks other with
  | nil => rfl
  | cons line rest ih =>
      cases line with
      | blank =>
          rw [readFrom_blank, readFrom_blank]
          exact ih _ _
      | text text => exact ih _ _
      | comment text => exact ih _ _
      | data row => rfl

theorem readFrom_break : readFrom 0 rows (.blank :: .blank :: rest) =
    filled rows ++ dataSets rest := by
  rw [readFrom, if_neg (by decide), readFrom, if_pos (by decide), readFrom_empty]

end DataSets
