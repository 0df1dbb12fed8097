import Mathlib
import Pciebench.Lib.WordBytes

/-!
Words laid out as bytes, each with its lowest byte first, and read back.
-/

namespace PackedWords

open WordBytes

def pack (word : UInt32) : List UInt8 :=
  (List.range 4).map fun lane => UInt8.ofNat (laneOf word.toNat lane)

def packAll (words : List UInt32) : List UInt8 :=
  words.flatMap pack

def join (first second third fourth : UInt8) : UInt32 :=
  UInt32.ofNat
    (first.toNat + second.toNat * 2 ^ 8 + third.toNat * 2 ^ 16 + fourth.toNat * 2 ^ 24)

/-- `count` words with one more byte behind them, and nothing else. -/
def unpackAll (count : Nat) (bytes : List UInt8) : Option (List UInt32 × UInt8) :=
  match count, bytes with
  | 0, [last] => some ([], last)
  | count + 1, first :: second :: third :: fourth :: rest =>
      (unpackAll count rest).map fun (words, last) =>
        (join first second third fourth :: words, last)
  | _, _ => none

theorem join_pack (word : UInt32) :
    pack word = [UInt8.ofNat (laneOf word.toNat 0), UInt8.ofNat (laneOf word.toNat 1),
      UInt8.ofNat (laneOf word.toNat 2), UInt8.ofNat (laneOf word.toNat 3)] ∧
    join (UInt8.ofNat (laneOf word.toNat 0)) (UInt8.ofNat (laneOf word.toNat 1))
      (UInt8.ofNat (laneOf word.toNat 2)) (UInt8.ofNat (laneOf word.toNat 3)) = word := by
  have bound := word.toNat_lt
  refine ⟨rfl, ?_⟩
  apply UInt32.toNat_inj.mp
  simp only [join, laneOf, UInt32.toNat_ofNat', UInt8.toNat_ofNat']
  omega

theorem packAll_cons (word : UInt32) (words : List UInt32) :
    packAll (word :: words) = pack word ++ packAll words :=
  List.flatMap_cons

theorem pack_length (word : UInt32) : (pack word).length = 4 :=
  rfl

theorem packAll_length (words : List UInt32) : (packAll words).length = 4 * words.length := by
  induction words with
  | nil => rfl
  | cons word words ih =>
      rw [packAll_cons, List.length_append, pack_length, ih, List.length_cons]
      omega

theorem take_packAll (words : List UInt32) (count : Nat) :
    (packAll words).take (4 * count) = packAll (words.take count) := by
  induction words generalizing count with
  | nil => simp [packAll]
  | cons word words ih =>
      cases count with
      | zero => rfl
      | succ count =>
          rw [packAll_cons, List.take_succ_cons, packAll_cons, Nat.mul_succ, Nat.add_comm,
            List.take_append, pack_length, Nat.add_sub_cancel_left, ih,
            List.take_of_length_le (by rw [pack_length]; omega)]

theorem unpackAll_packAll (words : List UInt32) (last : UInt8) :
    unpackAll words.length (packAll words ++ [last]) = some (words, last) := by
  induction words with
  | nil => rfl
  | cons word words ih =>
      obtain ⟨bytes, joined⟩ := join_pack word
      rw [packAll_cons, bytes, List.length_cons]
      simp only [List.cons_append, List.nil_append, unpackAll, ih, Option.map_some, joined]

end PackedWords
