import Mathlib
import Pciebench.Lib.Blit

/-!
A file of fixed size that any number of open descriptors share, each with a place of its own.
Every run of calls on it reads at each offset what was last written there.
-/

namespace FlatFile

open Blit

/-- A call that came back, with the place of its descriptor when it was made and the bytes
moved. -/
inductive Event (Fd byte : Type)
  | opened (fd : Fd)
  | closed (fd : Fd)
  | sought (fd : Fd) (place : Nat)
  | wrote (fd : Fd) (place : Nat) (data : Nat → byte) (count : Nat)
  | got (fd : Fd) (place : Nat) (data : Nat → byte) (count : Nat)
  | unwritten (fd : Fd) (place count : Nat)   -- a write that failed on its way
  | ungot (fd : Fd)

/-- Whether the event may have changed what is at an offset. -/
def Event.Covers {Fd byte : Type} (event : Event Fd byte) (offset : Nat) : Prop :=
  match event with
  | .wrote _ place _ count | .unwritten _ place count => place ≤ offset ∧ offset < place + count
  | _ => False

structure File (Fd byte : Type) where
  contents : Nat → byte
  place : Fd → Option Nat

variable {Fd byte : Type} [DecidableEq Fd] {size : Nat} {file next first last : File Fd byte}
  {event : Event Fd byte} {events before after : List (Event Fd byte)} {offset : Nat}

def File.goTo (file : File Fd byte) (fd : Fd) (place : Option Nat) : File Fd byte :=
  { file with place := Function.update file.place fd place }

theorem File.goTo_self {fd : Fd} {place : Nat} (here : file.place fd = some place) :
    file.goTo fd (some place) = file := by
  rw [File.goTo, ← here, Function.update_eq_self]

/-- What a call may do. Bytes are moved inside the file only. -/
inductive Serves (size : Nat) (file : File Fd byte) : Event Fd byte → File Fd byte → Prop
  | opens (fd : Fd) : file.place fd = none → Serves size file (.opened fd) (file.goTo fd (some 0))
  | closes (fd : Fd) (place : Nat) : file.place fd = some place →
      Serves size file (.closed fd) (file.goTo fd none)
  | seeks (fd : Fd) (place target : Nat) : file.place fd = some place →
      Serves size file (.sought fd target) (file.goTo fd (some target))
  | writes (fd : Fd) (place : Nat) (data : Nat → byte) (count : Nat) :
      file.place fd = some place → count ≤ size - place →
      Serves size file (.wrote fd place data count)
        ({ file with contents := blit data 0 file.contents place count }.goTo fd
          (some (place + count)))
  | reads (fd : Fd) (place : Nat) (data : Nat → byte) (count : Nat) :
      file.place fd = some place → count ≤ size - place →
      (∀ pos < count, data pos = file.contents (place + pos)) →
      Serves size file (.got fd place data count) (file.goTo fd (some (place + count)))
  | misses (fd : Fd) (place count : Nat) (contents : Nat → byte) :
      file.place fd = some place → count ≤ size - place →
      (∀ index, ¬ (place ≤ index ∧ index < place + count) →
        contents index = file.contents index) →
      Serves size file (.unwritten fd place count) { file with contents }
  | balks (fd : Fd) (place : Nat) : file.place fd = some place → Serves size file (.ungot fd) file

inductive Runs (size : Nat) : File Fd byte → List (Event Fd byte) → File Fd byte → Prop
  | nil (file : File Fd byte) : Runs size file [] file
  | cons {file next last : File Fd byte} {event : Event Fd byte}
      {events : List (Event Fd byte)} : Serves size file event next → Runs size next events last →
      Runs size file (event :: events) last

theorem Serves.kept (serves : Serves size file event next) (uncovered : ¬ event.Covers offset) :
    next.contents offset = file.contents offset := by
  cases serves with
  | opens fd closed | closes fd place here | seeks fd place target here
  | reads fd place data count here inside same | balks fd place here => rfl
  | writes fd place data count here inside => exact if_neg uncovered
  | misses fd place count contents here inside rest => exact rest offset uncovered

theorem Runs.kept (runs : Runs size first events last)
    (uncovered : ∀ event ∈ events, ¬ event.Covers offset) :
    last.contents offset = first.contents offset := by
  induction runs with
  | nil file => rfl
  | cons serves runs ih =>
      have later := ih fun event member => uncovered event (List.mem_cons_of_mem _ member)
      exact later.trans (serves.kept (uncovered _ List.mem_cons_self))

theorem Runs.split (runs : Runs size first (before ++ after) last) :
    ∃ middle, Runs size first before middle ∧ Runs size middle after last := by
  induction before generalizing first with
  | nil => exact ⟨first, .nil first, runs⟩
  | cons event before ih =>
      cases runs with
      | cons serves runs =>
          obtain ⟨middle, early, late⟩ := ih runs
          exact ⟨middle, .cons serves early, late⟩

theorem Runs.got_eq {fd : Fd} {place : Nat} {data : Nat → byte} {count : Nat}
    (runs : Runs size first (before ++ .got fd place data count :: after) last)
    (uncovered : ∀ event ∈ before, ¬ event.Covers offset) (reached : place ≤ offset)
    (inside : offset < place + count) : data (offset - place) = first.contents offset := by
  obtain ⟨middle, early, late⟩ := runs.split
  cases late with
  | cons serves late =>
      cases serves with
      | reads _ _ _ _ here room same =>
          rw [same (offset - place) (by omega), Nat.add_sub_cancel' reached]
          exact early.kept uncovered

/-- A read gets what the last write over an offset has put there, whoever wrote it. -/
theorem Runs.last_write {writer reader : Fd} {start place count length : Nat}
    {data seen : Nat → byte} {between : List (Event Fd byte)}
    (runs : Runs size first
      (before ++ .wrote writer start data count ::
        (between ++ .got reader place seen length :: after)) last)
    (uncovered : ∀ event ∈ between, ¬ event.Covers offset)
    (written : start ≤ offset ∧ offset < start + count)
    (read : place ≤ offset ∧ offset < place + length) :
    seen (offset - place) = data (offset - start) := by
  obtain ⟨middle, _, late⟩ := runs.split
  cases late with
  | cons serves late =>
      rw [late.got_eq uncovered read.1 read.2]
      cases serves with
      | writes _ _ _ _ here room =>
          change blit data 0 middle.contents start count offset = _
          rw [blit, if_pos written, Nat.zero_add]

end FlatFile
