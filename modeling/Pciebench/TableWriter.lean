import Mathlib
import Pciebench.Lib.DataSets
import Pciebench.Lib.Outcome
import Pciebench.Lib.Python

/-!
`TableWriter`: rows and sections go to the screen and to the open files, and a write to a file
that is closed raises an exception. A row is a tuple with a value that suits the format of each
column, and stands for the line that is made of it.
-/

namespace Pciebench

open DataSets Outcome

/-- The files of a table, by their extension. -/
inductive TableFile
  | txt
  | dat
  | csv
  deriving DecidableEq, Repr

/-- A file object of Python. -/
structure Opened where
  base : String
  closed : Bool
  deriving DecidableEq, Repr

/-- The writer with what it has written; `std` is taken piece by piece. -/
structure TableWriter (Row : Type) where
  std : Option (List (Line Row))
  hdr : String                             -- `std_hdr`
  outHdrPrinted : Bool
  file : TableFile → Option Opened         -- `txt`, `gnp` and `csvf`
  txtFirstSec : Bool
  gnpFirstSec : Bool
  disk : String → TableFile → List (Line Row)

namespace TableWriter

variable {Row : Type}

/-- A new writer, with no file open. -/
def init (stdout : Bool) (hdr : String) : TableWriter Row where
  std := if stdout then some [] else none
  hdr := hdr
  outHdrPrinted := false
  file := fun _ => none
  txtFirstSec := true
  gnpFirstSec := true
  disk := fun _ _ => []

/-- `open(base + ..., 'w')` with the header that is written first. -/
def header (hdr : String) : TableFile → Line Row
  | .txt | .csv => .text hdr
  | .dat => .comment hdr

/-- A file that is still open is closed by its successor. -/
def opens (base : String) (mask : TableFile → Bool) (twr : TableWriter Row) : TableWriter Row :=
  { twr with
    file := fun ext => if mask ext then some ⟨base, false⟩ else twr.file ext
    txtFirstSec := if mask .txt then true else twr.txtFirstSec
    gnpFirstSec := if mask .dat then true else twr.gnpFirstSec
    disk := fun path ext =>
      if path = base ∧ mask ext then [header twr.hdr ext] else twr.disk path ext }

def closes (mask : TableFile → Bool) (twr : TableWriter Row) : TableWriter Row :=
  { twr with
    file := fun ext =>
      if mask ext then (twr.file ext).map fun opened => { opened with closed := true }
      else twr.file ext }

def append (base : String) (ext : TableFile) (lines : List (Line Row)) (twr : TableWriter Row) :
    TableWriter Row :=
  { twr with
    disk := fun path other =>
      if path = base ∧ other = ext then twr.disk path other ++ lines else twr.disk path other }

/-- `write` on one of the files, if it is there and there is something to write. -/
def put (ext : TableFile) (lines : List (Line Row)) (twr : TableWriter Row) :
    Except Python.Error (TableWriter Row) :=
  match twr.file ext with
  | none => .ok twr
  | some opened =>
      if opened.closed && !lines.isEmpty then .error .valueError
      else .ok (twr.append opened.base ext lines)

def putStd (lines : List (Line Row)) (twr : TableWriter Row) : TableWriter Row :=
  { twr with std := twr.std.map (· ++ lines) }

/-- What goes to the screen with a header or after one. -/
def toScreen (lines : List (Line Row)) (twr : TableWriter Row) : TableWriter Row :=
  { twr.putStd lines with outHdrPrinted := twr.outHdrPrinted || twr.std.isSome }

def out (vals : Row) (twr : TableWriter Row) : Except Python.Error (TableWriter Row) := do
  let twr := twr.toScreen ((if twr.outHdrPrinted then [] else [.text twr.hdr]) ++ [.data vals])
  let twr ← twr.put .txt [.data vals]
  let twr ← twr.put .dat [.data vals]
  twr.put .csv [.data vals]

def headed (line : String → Line Row) (head : Option String) : List (Line Row) :=
  ((head.filter (· ≠ "")).map line).toList

def secTxt (head : Option String) (twr : TableWriter Row) :
    Except Python.Error (TableWriter Row) := do
  let written ← twr.put .txt ((if twr.txtFirstSec then [] else [.blank]) ++ headed .text head)
  .ok { written with txtFirstSec := twr.txtFirstSec && (twr.file .txt).isNone }

def secDat (head : Option String) (twr : TableWriter Row) :
    Except Python.Error (TableWriter Row) := do
  let written ← twr.put .dat
    ((if twr.gnpFirstSec then [] else [.blank, .blank]) ++ headed .comment head)
  .ok { written with gnpFirstSec := twr.gnpFirstSec && (twr.file .dat).isNone }

def sec (head : Option String) (twr : TableWriter Row) :
    Except Python.Error (TableWriter Row) := do
  let written ← secTxt head (twr.toScreen (.blank :: headed .text head ++ [.text twr.hdr]))
  secDat head written

def msg (text : String) (twr : TableWriter Row) : TableWriter Row :=
  twr.putStd [.text text]

/-- What is called between `open` and `close`. -/
inductive Call (Row : Type)
  | out (vals : Row)
  | sec (head : Option String)
  | msg (text : String)

def call (twr : TableWriter Row) : Call Row → Except Python.Error (TableWriter Row)
  | .out vals => twr.out vals
  | .sec head => twr.sec head
  | .msg text => .ok (twr.msg text)

def all : TableFile → Bool := fun _ => true

/-- One table, from its `open` to its `close`. -/
def table (twr : TableWriter Row) (base : String) (calls : List (Call Row)) :
    Except Python.Error (TableWriter Row) := do
  let written ← calls.foldlM call (twr.opens base all)
  .ok (written.closes all)

section Calls

variable {twr next : TableWriter Row} {base : String} {ext : TableFile} {lines : List (Line Row)}

/-- What a call appends to the data file. -/
def gnpLines (first : Bool) : Call Row → List (Line Row)
  | .out vals => [.data vals]
  | .sec head => (if first then [] else [.blank, .blank]) ++ headed .comment head
  | .msg _ => []

def firstAfter (first : Bool) : Call Row → Bool
  | .sec _ => false
  | .out _ | .msg _ => first

def rowOf : Call Row → List Row
  | .out vals => [vals]
  | .sec _ | .msg _ => []

def Open (twr : TableWriter Row) (base : String) : Prop :=
  ∀ ext, twr.file ext = some ⟨base, false⟩

/-- What one call does to the table that is open. -/
structure Written (base : String) (twr : TableWriter Row) (call : Call Row)
    (next : TableWriter Row) : Prop where
  file : next.file = twr.file
  hdr : next.hdr = twr.hdr
  first : next.gnpFirstSec = firstAfter twr.gnpFirstSec call
  dat : next.disk base .dat = twr.disk base .dat ++ gnpLines twr.gnpFirstSec call
  rows : ∀ ext, rowsOf (next.disk base ext) = rowsOf (twr.disk base ext) ++ rowOf call
  others : ∀ path, path ≠ base → next.disk path = twr.disk path

theorem put_open (opened : twr.Open base) :
    twr.put ext lines = .ok (twr.append base ext lines) := by
  rw [put, opened ext]
  rfl

theorem Open.append {other : String} (opened : twr.Open base) :
    (twr.append other ext lines).Open base := opened

theorem Open.toScreen (opened : twr.Open base) : (twr.toScreen lines).Open base := opened

theorem append_disk (path : String) (other : TableFile) :
    (twr.append base ext lines).disk path other =
      if path = base ∧ other = ext then twr.disk path other ++ lines else twr.disk path other :=
  rfl

theorem toScreen_disk : (twr.toScreen lines).disk = twr.disk := rfl

theorem rowsOf_headed (head : Option String) (line : String → Line Row)
    (plain : ∀ text, rowsOf [line text] = []) : rowsOf (headed line head) = [] := by
  rw [headed]
  cases head.filter (· ≠ "") with
  | none => rfl
  | some text => exact plain text

theorem out_written (opened : twr.Open base) (vals : Row) :
    ∃ next, twr.out vals = .ok next ∧ Written base twr (.out vals) next := by
  have screen : (twr.toScreen
      ((if twr.outHdrPrinted then [] else [.text twr.hdr]) ++ [.data vals])).Open base :=
    opened.toScreen
  rw [out, put_open screen, ok_bind, put_open screen.append, ok_bind,
    put_open screen.append.append]
  refine ⟨_, rfl, rfl, rfl, rfl, ?_, ?_, ?_⟩
  · simp [append_disk, toScreen_disk, gnpLines]
  · intro ext
    cases ext <;> simp [append_disk, toScreen_disk, rowOf, rowsOf]
  · intro path other
    funext ext
    simp [append_disk, toScreen_disk, other]

theorem secTxt_open (opened : twr.Open base) (head : Option String) :
    ∃ next, secTxt head twr = .ok next ∧ next.Open base ∧ next.hdr = twr.hdr ∧
      next.gnpFirstSec = twr.gnpFirstSec ∧ next.file = twr.file ∧
      next.disk = (twr.append base .txt
        ((if twr.txtFirstSec then [] else [.blank]) ++ headed .text head)).disk := by
  rw [secTxt, put_open opened]
  exact ⟨_, rfl, opened, rfl, rfl, rfl, rfl⟩

theorem secDat_open (opened : twr.Open base) (head : Option String) :
    ∃ next, secDat head twr = .ok next ∧ next.hdr = twr.hdr ∧ next.gnpFirstSec = false ∧
      next.file = twr.file ∧
      next.disk = (twr.append base .dat
        ((if twr.gnpFirstSec then [] else [.blank, .blank]) ++ headed .comment head)).disk := by
  have later : (twr.gnpFirstSec && (twr.file .dat).isNone) = false := by
    rw [opened .dat]
    exact Bool.and_false _
  rw [secDat, put_open opened]
  exact ⟨_, rfl, rfl, later, rfl, rfl⟩

theorem rowsOf_sec (blanks : List (Line Row)) (none : rowsOf blanks = []) (first : Bool)
    (line : String → Line Row) (plain : ∀ text, rowsOf [line text] = []) (head : Option String) :
    rowsOf ((if first then [] else blanks) ++ headed line head) = [] := by
  rw [rowsOf_append, rowsOf_headed head line plain, List.append_nil]
  cases first with
  | true => rfl
  | false => exact none

theorem sec_written (opened : twr.Open base) (head : Option String) :
    ∃ next, twr.sec head = .ok next ∧ Written base twr (.sec head) next := by
  have screen : (twr.toScreen (.blank :: headed .text head ++ [.text twr.hdr])).Open base :=
    opened.toScreen
  obtain ⟨titled, titles, openTitled, hdr, first, file, disk⟩ := secTxt_open screen head
  obtain ⟨next, parts, hdr', first', file', disk'⟩ := secDat_open openTitled head
  have texts : rowsOf ((if twr.txtFirstSec then [] else [.blank]) ++ headed .text head) =
      ([] : List Row) := rowsOf_sec [.blank] rfl _ .text (fun _ => rfl) head
  have comments : rowsOf (gnpLines twr.gnpFirstSec (.sec head)) = ([] : List Row) :=
    rowsOf_sec [.blank, .blank] rfl _ .comment (fun _ => rfl) head
  have dat : next.disk base .dat =
      twr.disk base .dat ++ gnpLines twr.gnpFirstSec (.sec head) := by
    rw [disk', append_disk, if_pos ⟨rfl, rfl⟩, disk, append_disk, if_neg (by simp), first]
    rfl
  refine ⟨next, ?_, file'.trans file, hdr'.trans hdr, first', dat, ?_, ?_⟩
  · rw [sec, titles, ok_bind, parts]
  · intro ext
    rw [rowOf, List.append_nil]
    cases ext with
    | txt =>
        rw [disk', append_disk, if_neg (by simp), disk, append_disk, if_pos ⟨rfl, rfl⟩,
          rowsOf_append]
        exact (congrArg _ texts).trans (List.append_nil _)
    | dat => rw [dat, rowsOf_append, comments, List.append_nil]
    | csv =>
        rw [disk', append_disk, if_neg (by simp), disk, append_disk, if_neg (by simp)]
        rfl
  · intro path other
    funext ext
    rw [disk', append_disk, if_neg (by simp [other]), disk, append_disk, if_neg (by simp [other])]
    rfl

theorem call_written (opened : twr.Open base) (call : Call Row) :
    ∃ next, twr.call call = .ok next ∧ Written base twr call next := by
  cases call with
  | out vals => exact out_written opened vals
  | sec head => exact sec_written opened head
  | msg text =>
      exact ⟨_, rfl, rfl, rfl, rfl, (List.append_nil _).symm, fun _ => (List.append_nil _).symm,
        fun _ _ => rfl⟩

/-- The data file from its header on. -/
def gnpFile (first : Bool) : List (Call Row) → List (Line Row)
  | [] => []
  | call :: calls => gnpLines first call ++ gnpFile (firstAfter first call) calls

/-- The tables that calls make, the first of them going on from `rows`: a section ends the table
before it, unless it is the first one. -/
def tablesFrom (first : Bool) (rows : List Row) : List (Call Row) → List (List Row)
  | [] => filled rows
  | .out vals :: calls => tablesFrom first (rows ++ [vals]) calls
  | .sec _ :: calls =>
      if first then tablesFrom false rows calls else filled rows ++ tablesFrom false [] calls
  | .msg _ :: calls => tablesFrom first rows calls

theorem calls_written (opened : twr.Open base) (calls : List (Call Row)) :
    ∃ next, calls.foldlM call twr = .ok next ∧ next.file = twr.file ∧ next.hdr = twr.hdr ∧
      next.disk base .dat = twr.disk base .dat ++ gnpFile twr.gnpFirstSec calls ∧
      (∀ ext, rowsOf (next.disk base ext) =
        rowsOf (twr.disk base ext) ++ calls.flatMap rowOf) ∧
      ∀ path, path ≠ base → next.disk path = twr.disk path := by
  induction calls generalizing twr with
  | nil =>
      exact ⟨twr, rfl, rfl, rfl, (List.append_nil _).symm, fun _ => (List.append_nil _).symm,
        fun _ _ => rfl⟩
  | cons call calls ih =>
      obtain ⟨middle, called, written⟩ := call_written opened call
      have open' : middle.Open base := by
        intro ext
        rw [written.file]
        exact opened ext
      obtain ⟨next, done, file, hdr, dat, rows, others⟩ := ih open'
      refine ⟨next, ?_, file.trans written.file, hdr.trans written.hdr, ?_, ?_, ?_⟩
      · rw [List.foldlM_cons, called]
        exact done
      · rw [dat, written.dat, written.first, gnpFile, List.append_assoc]
      · intro ext
        rw [rows, written.rows, List.flatMap_cons, List.append_assoc]
      · intro path other
        rw [others path other, written.others path other]

theorem readFrom_headed (rows : List Row) (head : Option String) (rest : List (Line Row)) :
    readFrom 0 rows (headed .comment head ++ rest) = readFrom 0 rows rest := by
  rw [headed]
  cases head.filter (· ≠ "") with
  | none => rfl
  | some text => rfl

theorem readFrom_gnpFile (first : Bool) (rows : List Row) (calls : List (Call Row)) :
    readFrom 0 rows (gnpFile first calls) = tablesFrom first rows calls := by
  induction calls generalizing first rows with
  | nil => rfl
  | cons call calls ih =>
      cases call with
      | out vals => exact ih first (rows ++ [vals])
      | msg text => exact ih first rows
      | sec head =>
          cases first with
          | true =>
              rw [gnpFile, gnpLines, if_pos rfl, List.nil_append, readFrom_headed, ih]
              rfl
          | false =>
              rw [gnpFile, gnpLines, if_neg (by simp), List.append_assoc, List.cons_append,
                List.singleton_append, readFrom_break, dataSets, readFrom_headed, ih]
              rfl

theorem table_written (twr : TableWriter Row) (base : String) (calls : List (Call Row)) :
    ∃ next, twr.table base calls = .ok next ∧ next.hdr = twr.hdr ∧
      (∀ ext, next.file ext = some ⟨base, true⟩) ∧
      dataSets (next.disk base .dat) = tablesFrom true [] calls ∧
      (∀ ext, rowsOf (next.disk base ext) = calls.flatMap rowOf) ∧
      ∀ path, path ≠ base → next.disk path = twr.disk path := by
  have opened : (twr.opens base all).Open base := fun ext => rfl
  obtain ⟨next, done, file, hdr, dat, rows, others⟩ := calls_written opened calls
  refine ⟨next.closes all, ?_, hdr, ?_, ?_, ?_, ?_⟩
  · rw [table, done, ok_bind]
  · intro ext
    rw [closes, file]
    rfl
  · have fresh : (twr.opens base all).disk base .dat = [.comment twr.hdr] := by
      simp [opens, all, header]
    rw [closes, dat, fresh]
    exact readFrom_gnpFile true [] calls
  · intro ext
    have fresh : rowsOf ((twr.opens base all).disk base ext) = [] := by
      cases ext <;> simp [opens, all, header, rowsOf]
    rw [closes, rows, fresh, List.nil_append]
  · intro path other
    rw [closes, others path other]
    funext ext
    simp [opens, other]

end Calls

section Tables

variable {twr : TableWriter Row} {rows : List Row}

theorem tablesFrom_out (first : Bool) (before : List Row) (calls : List (Call Row)) :
    tablesFrom first before (rows.map .out ++ calls) = tablesFrom first (before ++ rows) calls := by
  induction rows generalizing before with
  | nil => rw [List.append_nil]; rfl
  | cons row rows ih =>
      rw [List.map_cons, List.cons_append, tablesFrom, ih, List.append_assoc]
      rfl

theorem filled_of_ne (nonempty : rows ≠ []) : filled rows = [rows] := by
  rw [filled, if_neg (by simpa using nonempty)]

/-- The calls that make one table after the other, each in a section. -/
def sections (all : List (Option String × List Row)) : List (Call Row) :=
  all.flatMap fun each => .sec each.1 :: each.2.map .out

theorem tablesFrom_sections (all : List (Option String × List Row))
    (nonempty : ∀ each ∈ all, each.2 ≠ []) (before : List Row) (some : before ≠ []) :
    tablesFrom false before (sections all) = before :: all.map Prod.snd := by
  induction all generalizing before with
  | nil => exact filled_of_ne some
  | cons each all ih =>
      obtain ⟨here, later⟩ := List.forall_mem_cons.mp nonempty
      rw [sections, List.flatMap_cons, List.cons_append, tablesFrom, if_neg (by simp),
        filled_of_ne some, tablesFrom_out, List.nil_append]
      exact congrArg _ (ih later each.2 here)

theorem tables_sections (all : List (Option String × List Row))
    (nonempty : ∀ each ∈ all, each.2 ≠ []) :
    tablesFrom true [] (sections all) = all.map Prod.snd := by
  cases all with
  | nil => rfl
  | cons each all =>
      obtain ⟨here, later⟩ := List.forall_mem_cons.mp nonempty
      rw [sections, List.flatMap_cons, List.cons_append, tablesFrom, if_pos rfl, tablesFrom_out,
        List.nil_append]
      exact tablesFrom_sections all later each.2 here

/-- Tables one after the other, each in files of its own. -/
def tables (twr : TableWriter Row) (all : List (String × List (Call Row))) :
    Except Python.Error (TableWriter Row) :=
  all.foldlM (fun twr each => twr.table each.1 each.2) twr

/-- No call raises an exception, and each data file is read back as the tables that were made,
whatever was written before and after; the other files have the same rows. -/
theorem tables_readBack (twr : TableWriter Row) (all : List (String × List (Call Row)))
    (apart : (all.map Prod.fst).Nodup) :
    ∃ last, twr.tables all = .ok last ∧
      (∀ each ∈ all, dataSets (last.disk each.1 .dat) = tablesFrom true [] each.2 ∧
        ∀ ext, rowsOf (last.disk each.1 ext) = each.2.flatMap rowOf) ∧
      ∀ path ∉ all.map Prod.fst, last.disk path = twr.disk path := by
  induction all generalizing twr with
  | nil => exact ⟨twr, rfl, by simp, fun _ _ => rfl⟩
  | cons each all ih =>
      rw [List.map_cons, List.nodup_cons] at apart
      obtain ⟨middle, done, _, _, sets, rows, others⟩ := table_written twr each.1 each.2
      obtain ⟨last, rest, written, left⟩ := ih middle apart.2
      refine ⟨last, ?_, ?_, ?_⟩
      · rw [tables, List.foldlM_cons, done]
        exact rest
      · refine List.forall_mem_cons.mpr ⟨?_, written⟩
        rw [left each.1 apart.1]
        exact ⟨sets, rows⟩
      · intro path absent
        rw [List.map_cons, List.mem_cons, not_or] at absent
        rw [left path absent.2, others path absent.1]

theorem tables_readBack_two :
    ∃ last, (init true "ns").tables
        [("lat", [.msg "", .sec none, .out 4, .out 5, .sec "DMA", .out 6]), ("bw", [.out 7])] =
          .ok last ∧
      dataSets (last.disk "lat" .dat) = [[4, 5], [6]] ∧ dataSets (last.disk "bw" .dat) = [[7]] := by
  obtain ⟨last, done, written, _⟩ := tables_readBack (init true "ns")
    [("lat", [.msg "", .sec none, .out 4, .out 5, .sec "DMA", .out 6]), ("bw", [.out 7])]
    (by decide)
  obtain ⟨lat, later⟩ := List.forall_mem_cons.mp written
  obtain ⟨bw, _⟩ := List.forall_mem_cons.mp later
  exact ⟨last, done, lat.1, bw.1⟩

theorem out_closed (closed : ∀ ext, ∃ base, twr.file ext = some ⟨base, true⟩) (vals : Row) :
    twr.out vals = .error .valueError := by
  obtain ⟨base, file⟩ := closed .txt
  have stopped : ∀ lines, (twr.toScreen lines).put .txt [.data vals] =
      (.error .valueError : Except Python.Error (TableWriter Row)) := by
    intro lines
    have same : (twr.toScreen lines).file .txt = some ⟨base, true⟩ := file
    rw [put, same]
    rfl
  rw [out, stopped, error_bind]

end Tables

end TableWriter

end Pciebench
