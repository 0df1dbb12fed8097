import Mathlib
import Pciebench.Lib.WordBytes

/-!
`ua_set_64_dram` of `libnfcc.c`: a 64-bit store at any address, made of an aligned read of four
words and a write back. The access ignores the low three bits of its address.
-/

namespace Pciebench

open WordBytes

/-- `fourlong`, in the order of memory. -/
structure FourLong where
  a : UInt32
  b : UInt32
  c : UInt32
  d : UInt32
  deriving DecidableEq, Repr

def FourLong.word (v : FourLong) : Nat → UInt32
  | 0 => v.a
  | 1 => v.b
  | 2 => v.c
  | _ => v.d

def FourLong.load (order : ByteOrder) (memory : Nat → UInt8) (address : Nat) : FourLong where
  a := order.load memory address
  b := order.load memory (address + 4)
  c := order.load memory (address + 8)
  d := order.load memory (address + 12)

def FourLong.store (order : ByteOrder) (v : FourLong) (address : Nat) (memory : Nat → UInt8) :
    Nat → UInt8 :=
  fun place =>
    if address ≤ place ∧ place < address + 16 then
      UInt8.ofNat (order.byteOf 4 (v.word ((place - address) / 4)).toNat ((place - address) % 4))
    else
      memory place

/-- `dbl_shr`: the low word of two words shifted right together. -/
def dblShr (hi lo shift : UInt32) : UInt32 :=
  (Words.join hi lo >>> shift.toUInt64).toUInt32

/-- `dbl_shl`: the high word of two words shifted left together. -/
def dblShl (hi lo shift : UInt32) : UInt32 :=
  ((Words.join hi lo <<< shift.toUInt64) >>> 32).toUInt32

/-- The part under `__BIGENDIAN`, without `__NFP_PERMIT_DRAM_UNALIGNED`. -/
def uaSet64Big (shift : UInt32) (val : UInt64) (v : FourLong) : FourLong :=
  let a := (val >>> 32).toUInt32
  let b := val.toUInt32
  if shift ≠ 0 then
    if shift = 32 then
      { v with c := b, b := a }
    else if shift < 32 then
      let c := b <<< (32 - shift)
      let b := dblShr a b shift
      let a := a >>> shift
      { v with
        c := v.c &&& ((0xffffffff : UInt32) >>> shift) ||| c
        b := b
        a := v.a &&& ((0xffffffff : UInt32) <<< (32 - shift)) ||| a }
    else
      let c := b <<< (64 - shift)
      let b := dblShr a b (shift - 32)
      let a := a >>> (shift - 32)
      { v with
        d := v.d &&& ((0xffffffff : UInt32) >>> (shift - 32)) ||| c
        c := b
        b := v.b &&& ((0xffffffff : UInt32) <<< (64 - shift)) ||| a }
  else
    { v with a := a, b := b }

/-- The part for the other byte order. -/
def uaSet64Little (shift : UInt32) (val : UInt64) (v : FourLong) : FourLong :=
  let a := val.toUInt32
  let b := (val >>> 32).toUInt32
  if shift ≠ 0 then
    if shift = 32 then
      { v with c := b, b := a }
    else if shift < 32 then
      let c := b >>> (32 - shift)
      let b := dblShl b a shift
      let a := a <<< shift
      { v with
        c := v.c &&& ((0xffffffff : UInt32) <<< shift) ||| c
        b := b
        a := v.a &&& ((0xffffffff : UInt32) >>> (32 - shift)) ||| a }
    else
      let c := b >>> (64 - shift)
      let b := dblShl b a (shift - 32)
      let a := a <<< (shift - 32)
      { v with
        d := v.d &&& ((0xffffffff : UInt32) <<< (shift - 32)) ||| c
        c := b
        b := v.b &&& ((0xffffffff : UInt32) >>> (64 - shift)) ||| a }
  else
    { v with a := a, b := b }

def uaSet64Dram (order : ByteOrder) (q offset : UInt32) (val : UInt64) (memory : Nat → UInt8) :
    Nat → UInt8 :=
  let p := q + offset
  let line := p.toNat / 8 * 8
  let v := FourLong.load order memory line
  let shift := (p &&& 7) <<< 3
  let v :=
    match order with
    | .big => uaSet64Big shift val v
    | .little => uaSet64Little shift val v
  v.store order line memory

/-- Eight bytes from byte `bytes` of the first of three words on: the words `front` and `back`,
between what `before` and `after` had there. -/
structure Spliced (order : ByteOrder) (bytes : Nat)
    (before after front back first middle last : UInt32) : Prop where
  first : ∀ index, index < 4 → order.byteOf 4 first.toNat index =
    if index < bytes then order.byteOf 4 before.toNat index
    else order.byteOf 4 front.toNat (index - bytes)
  middle : ∀ index, index < 4 → order.byteOf 4 middle.toNat index =
    if index < bytes then order.byteOf 4 front.toNat (4 - bytes + index)
    else order.byteOf 4 back.toNat (index - bytes)
  last : ∀ index, index < 4 → order.byteOf 4 last.toNat index =
    if index < bytes then order.byteOf 4 back.toNat (4 - bytes + index)
    else order.byteOf 4 after.toNat index

section Splice

variable {shift rest : UInt32} {bytes lane : Nat}

theorem laneOf_join (high low : UInt32) :
    laneOf (Words.join high low).toNat lane =
      if lane < 4 then laneOf low.toNat lane else laneOf high.toNat (lane - 4) := by
  rw [Words.toNat_join]
  have low32 : low.toNat < 2 ^ (8 * 4) := low.toNat_lt
  exact laneOf_append _ low32

variable (isShift : shift.toNat = 8 * bytes) (short : bytes < 4)

include isShift short

theorem laneOf_dblShr (high low : UInt32) (inside : lane < 4) :
    laneOf (dblShr high low shift).toNat lane =
      if lane + bytes < 4 then laneOf low.toNat (lane + bytes)
      else laneOf high.toNat (lane + bytes - 4) := by
  have narrow : shift.toUInt64.toNat = 8 * bytes := by
    rw [UInt32.toNat_toUInt64, isShift]
  rw [dblShr, UInt64.toNat_toUInt32, Words.toNat_shiftRight64 _ _ (by omega), narrow]
  refine (laneOf_mod _ inside).trans ?_
  rw [laneOf_right, laneOf_join]

theorem laneOf_dblShl (high low : UInt32) (inside : lane < 4) :
    laneOf (dblShl high low shift).toNat lane =
      if lane < bytes then laneOf low.toNat (lane + 4 - bytes)
      else laneOf high.toNat (lane - bytes) := by
  have narrow : shift.toUInt64.toNat = 8 * bytes := by
    rw [UInt32.toNat_toUInt64, isShift]
  have upper : (32 : UInt64).toNat = 8 * 4 := rfl
  rw [dblShl, UInt64.toNat_toUInt32, Words.toNat_shiftRight64 _ _ (by decide), upper,
    Words.toNat_shiftLeft64 _ _ (by omega), narrow]
  refine (laneOf_mod _ inside).trans ?_
  rw [laneOf_right]
  refine (laneOf_mod _ (by omega : lane + 4 < 8)).trans ?_
  rw [laneOf_left, if_neg (by omega), laneOf_join]
  split
  · rw [if_pos (by omega)]
  · rw [if_neg (by omega)]
    congr 1
    omega

variable (isRest : rest.toNat = 8 * (4 - bytes)) (some : 0 < bytes)

include isRest some

theorem spliced_big (before after front back : UInt32) :
    Spliced .big bytes before after front back
      (before &&& ((0xffffffff : UInt32) <<< rest) ||| front >>> shift) (dblShr front back shift)
      (after &&& ((0xffffffff : UInt32) >>> shift) ||| back <<< rest) where
  first := by
    intro index inside
    simp only [ByteOrder.byteOf, ByteOrder.lane]
    rw [UInt32.toNat_or, laneOf_or, laneOf_keepHigh _ isRest (by omega) (by omega),
      laneOf_shiftRight _ isShift short]
    split
    · rw [if_neg (by omega), Nat.zero_or]
      congr 1
      omega
    · have gone : laneOf front.toNat (4 - 1 - index + bytes) = 0 := laneOf_word _ (by omega)
      rw [if_pos (by omega), gone, Nat.or_zero]
  middle := by
    intro index inside
    simp only [ByteOrder.byteOf, ByteOrder.lane]
    rw [laneOf_dblShr isShift short _ _ (by omega)]
    split
    · rw [if_neg (by omega)]
      congr 1
      omega
    · rw [if_pos (by omega)]
      congr 1
      omega
  last := by
    intro index inside
    simp only [ByteOrder.byteOf, ByteOrder.lane]
    rw [UInt32.toNat_or, laneOf_or, laneOf_keepLow _ isShift short,
      laneOf_shiftLeft _ isRest (by omega) (by omega)]
    split
    · rw [if_pos (by omega), if_neg (by omega), Nat.or_zero]
    · rw [if_neg (by omega), if_pos (by omega), Nat.zero_or]
      congr 1
      omega

theorem spliced_little (before after front back : UInt32) :
    Spliced .little bytes before after front back
      (before &&& ((0xffffffff : UInt32) >>> rest) ||| front <<< shift) (dblShl back front shift)
      (after &&& ((0xffffffff : UInt32) <<< shift) ||| back >>> rest) where
  first := by
    intro index inside
    simp only [ByteOrder.byteOf, ByteOrder.lane]
    rw [UInt32.toNat_or, laneOf_or, laneOf_keepLow _ isRest (by omega),
      laneOf_shiftLeft _ isShift short inside]
    split
    · rw [if_pos (by omega), if_pos (by omega), Nat.or_zero]
    · rw [if_neg (by omega), if_neg (by omega), Nat.zero_or]
  middle := by
    intro index inside
    simp only [ByteOrder.byteOf, ByteOrder.lane]
    rw [laneOf_dblShl isShift short _ _ inside]
    split
    · congr 1
      omega
    · rfl
  last := by
    intro index inside
    simp only [ByteOrder.byteOf, ByteOrder.lane]
    rw [UInt32.toNat_or, laneOf_or, laneOf_keepHigh _ isShift short inside,
      laneOf_shiftRight _ isRest (by omega)]
    split
    · rw [Nat.zero_or]
      congr 1
      omega
    · have gone : laneOf back.toNat (index + (4 - bytes)) = 0 := laneOf_word _ (by omega)
      rw [gone, Nat.or_zero]

end Splice

def valueByte (order : ByteOrder) (front back : UInt32) (index : Nat) : Nat :=
  if index < 4 then order.byteOf 4 front.toNat index else order.byteOf 4 back.toNat (index - 4)

/-- The words of `v` hold a value from byte `bytes` on, and what `old` had besides. -/
def FourLong.Holds (order : ByteOrder) (old : FourLong) (bytes : Nat) (front back : UInt32)
    (v : FourLong) : Prop :=
  ∀ word index, word < 4 → index < 4 → order.byteOf 4 (v.word word).toNat index =
    if bytes ≤ 4 * word + index ∧ 4 * word + index < bytes + 8 then
      valueByte order front back (4 * word + index - bytes)
    else
      order.byteOf 4 (old.word word).toNat index

section Holds

variable {order : ByteOrder} {old : FourLong} {front back first middle last : UInt32} {bytes : Nat}

theorem valueByte_front {index : Nat} (inside : index < 4) :
    valueByte order front back index = order.byteOf 4 front.toNat index :=
  if_pos inside

theorem valueByte_back (index : Nat) :
    valueByte order front back (4 + index) = order.byteOf 4 back.toNat index := by
  rw [valueByte, if_neg (by omega), Nat.add_sub_cancel_left]

theorem holds_aligned : old.Holds order 0 front back { old with a := front, b := back } := by
  intro word index inLine inside
  interval_cases word
  · rw [if_pos (by omega), Nat.mul_zero, Nat.zero_add, Nat.sub_zero, valueByte_front inside]
    rfl
  · rw [if_pos (by omega), Nat.sub_zero, Nat.mul_one, valueByte_back]
    rfl
  · rw [if_neg (by omega)]
    rfl
  · rw [if_neg (by omega)]
    rfl

theorem holds_middle : old.Holds order 4 front back { old with c := back, b := front } := by
  intro word index inLine inside
  interval_cases word
  · rw [if_neg (by omega)]
    rfl
  · rw [if_pos (by omega), Nat.mul_one, Nat.add_sub_cancel_left, valueByte_front inside]
    rfl
  · rw [if_pos (by omega), show 4 * 2 + index - 4 = 4 + index by omega, valueByte_back]
    rfl
  · rw [if_neg (by omega)]
    rfl

/-- The words of a splice, as they lie in the line from the word with number `start` on. -/
theorem Spliced.holds (start : Nat)
    (spliced : Spliced order bytes (old.word start) (old.word (start + 2)) front back first middle
      last)
    (short : bytes < 4) {v : FourLong}
    (words : ∀ word, word < 4 → v.word word =
      if word = start then first else if word = start + 1 then middle
      else if word = start + 2 then last else old.word word) :
    old.Holds order (4 * start + bytes) front back v := by
  intro word index inWords inside
  rw [words word inWords]
  by_cases isFirst : word = start
  · subst word
    rw [if_pos rfl, spliced.first index inside]
    by_cases before : index < bytes
    · rw [if_pos before, if_neg (by omega)]
    · rw [if_neg before, if_pos (by omega),
        show 4 * start + index - (4 * start + bytes) = index - bytes by omega,
        valueByte_front (by omega)]
  by_cases isMiddle : word = start + 1
  · subst word
    rw [if_neg (by omega), if_pos rfl, spliced.middle index inside]
    by_cases before : index < bytes
    · rw [if_pos before, if_pos (by omega),
        show 4 * (start + 1) + index - (4 * start + bytes) = 4 - bytes + index by omega,
        valueByte_front (by omega)]
    · rw [if_neg before, if_pos (by omega),
        show 4 * (start + 1) + index - (4 * start + bytes) = 4 + (index - bytes) by omega,
        valueByte_back]
  by_cases isLast : word = start + 2
  · subst word
    rw [if_neg (by omega), if_neg (by omega), if_pos rfl, spliced.last index inside]
    by_cases before : index < bytes
    · rw [if_pos before, if_pos (by omega),
        show 4 * (start + 2) + index - (4 * start + bytes) = 4 + (4 - bytes + index) by omega,
        valueByte_back]
    · rw [if_neg before, if_neg (by omega)]
  · rw [if_neg isFirst, if_neg isMiddle, if_neg isLast, if_neg (by omega)]

theorem Spliced.holds_from_first
    (spliced : Spliced order bytes old.a old.c front back first middle last) (short : bytes < 4) :
    old.Holds order bytes front back { old with c := last, b := middle, a := first } := by
  have words (word : Nat) (inLine : word < 4) :
      FourLong.word { old with c := last, b := middle, a := first } word =
        if word = 0 then first else if word = 0 + 1 then middle
        else if word = 0 + 2 then last else old.word word := by
    interval_cases word <;> rfl
  have holds := Spliced.holds 0 spliced short words
  rwa [Nat.mul_zero, Nat.zero_add] at holds

theorem Spliced.holds_from_second
    (spliced : Spliced order bytes old.b old.d front back first middle last) (short : bytes < 4) :
    old.Holds order (4 + bytes) front back { old with d := last, c := middle, b := first } := by
  have words (word : Nat) (inLine : word < 4) :
      FourLong.word { old with d := last, c := middle, b := first } word =
        if word = 1 then first else if word = 1 + 1 then middle
        else if word = 1 + 2 then last else old.word word := by
    interval_cases word <;> rfl
  exact Spliced.holds 1 spliced short words

end Holds

section Build

variable {shift : UInt32} {bytes : Nat} (isShift : shift.toNat = 8 * bytes)

include isShift

theorem shift_zero_iff : shift ≠ 0 ↔ bytes ≠ 0 := by
  rw [ne_eq, ← UInt32.toNat_inj, isShift]
  change ¬ 8 * bytes = 0 ↔ _
  omega

theorem shift_middle_iff : shift = 32 ↔ bytes = 4 := by
  rw [← UInt32.toNat_inj, isShift]
  change 8 * bytes = 32 ↔ _
  omega

theorem shift_low_iff : shift < 32 ↔ bytes < 4 := by
  rw [UInt32.lt_iff_toNat_lt, isShift]
  change 8 * bytes < 32 ↔ _
  omega

theorem shift_rest (short : bytes ≤ 4) : (32 - shift).toNat = 8 * (4 - bytes) := by
  have whole : (32 : UInt32).toNat = 32 := rfl
  rw [UInt32.toNat_sub_of_le _ _ (UInt32.le_iff_toNat_le.mpr (by omega)), isShift, whole]
  omega

theorem shift_beyond (long : 4 ≤ bytes) : (shift - 32).toNat = 8 * (bytes - 4) := by
  have whole : (32 : UInt32).toNat = 32 := rfl
  rw [UInt32.toNat_sub_of_le _ _ (UInt32.le_iff_toNat_le.mpr (by omega)), isShift, whole]
  omega

theorem shift_rest_beyond (long : 4 ≤ bytes) (inWord : bytes < 8) :
    (64 - shift).toNat = 8 * (4 - (bytes - 4)) := by
  have whole : (64 : UInt32).toNat = 64 := rfl
  rw [UInt32.toNat_sub_of_le _ _ (UInt32.le_iff_toNat_le.mpr (by omega)), isShift, whole]
  omega

variable (inWord : bytes < 8) (val : UInt64) (v : FourLong)

include inWord

theorem uaSet64Big_holds :
    v.Holds .big bytes (val >>> 32).toUInt32 val.toUInt32 (uaSet64Big shift val v) := by
  simp only [uaSet64Big, shift_zero_iff isShift, shift_middle_iff isShift, shift_low_iff isShift]
  split
  · rename_i shifted
    split
    · rename_i middle
      subst middle
      exact holds_middle
    rename_i notMiddle
    split
    · rename_i low
      have spliced := spliced_big isShift low (shift_rest isShift low.le) (by omega) v.a v.c
        (val >>> 32).toUInt32 val.toUInt32
      exact spliced.holds_from_first low
    · rename_i high
      have long : 4 ≤ bytes := by omega
      have spliced := spliced_big (shift_beyond isShift long) (by omega)
        (shift_rest_beyond isShift long inWord) (by omega) v.b v.d
        (val >>> 32).toUInt32 val.toUInt32
      have holds := spliced.holds_from_second (by omega)
      rw [show 4 + (bytes - 4) = bytes by omega] at holds
      exact holds
  · rename_i aligned
    have zero : bytes = 0 := by omega
    subst zero
    exact holds_aligned

theorem uaSet64Little_holds :
    v.Holds .little bytes val.toUInt32 (val >>> 32).toUInt32 (uaSet64Little shift val v) := by
  simp only [uaSet64Little, shift_zero_iff isShift, shift_middle_iff isShift,
    shift_low_iff isShift]
  split
  · rename_i shifted
    split
    · rename_i middle
      subst middle
      exact holds_middle
    rename_i notMiddle
    split
    · rename_i low
      have spliced := spliced_little isShift low (shift_rest isShift low.le) (by omega) v.a v.c
        val.toUInt32 (val >>> 32).toUInt32
      exact spliced.holds_from_first low
    · rename_i high
      have long : 4 ≤ bytes := by omega
      have spliced := spliced_little (shift_beyond isShift long) (by omega)
        (shift_rest_beyond isShift long inWord) (by omega) v.b v.d
        val.toUInt32 (val >>> 32).toUInt32
      have holds := spliced.holds_from_second (by omega)
      rw [show 4 + (bytes - 4) = bytes by omega] at holds
      exact holds
  · rename_i aligned
    have zero : bytes = 0 := by omega
    subst zero
    exact holds_aligned

end Build

section Store

variable {order : ByteOrder} {memory : Nat → UInt8}

theorem FourLong.byteOf_load (line word index : Nat) (inLine : word < 4) (inside : index < 4) :
    order.byteOf 4 ((FourLong.load order memory line).word word).toNat index =
      (memory (line + 4 * word + index)).toNat := by
  interval_cases word <;> exact order.byteOf_load memory _ inside

theorem FourLong.Holds.store {line bytes : Nat} {front back : UInt32} {v : FourLong}
    (holds : (FourLong.load order memory line).Holds order bytes front back v)
    (inWord : bytes < 8) (place : Nat) :
    v.store order line memory place =
      if line + bytes ≤ place ∧ place < line + bytes + 8 then
        UInt8.ofNat (valueByte order front back (place - (line + bytes)))
      else
        memory place := by
  rw [FourLong.store]
  by_cases inLine : line ≤ place ∧ place < line + 16
  · have split : 4 * ((place - line) / 4) + (place - line) % 4 = place - line := by omega
    have inWords : (place - line) / 4 < 4 := by omega
    have inside : (place - line) % 4 < 4 := by omega
    rw [if_pos inLine, holds _ _ inWords inside, FourLong.byteOf_load _ _ _ inWords inside, split]
    by_cases written : bytes ≤ place - line ∧ place - line < bytes + 8
    · rw [if_pos written, if_pos (by omega), Nat.sub_sub]
    · rw [if_neg written, if_neg (by omega), UInt8.ofNat_toNat]
      congr 1
      omega
  · rw [if_neg inLine, if_neg (by omega)]

theorem valueByte_big (val : UInt64) {index : Nat} (inside : index < 8) :
    valueByte .big (val >>> 32).toUInt32 val.toUInt32 index =
      ByteOrder.big.byteOf 8 val.toNat index := by
  have upper : (32 : UInt64).toNat = 8 * 4 := rfl
  simp only [valueByte, ByteOrder.byteOf, ByteOrder.lane, UInt64.toNat_toUInt32]
  split
  · rw [Words.toNat_shiftRight64 _ _ (by decide), upper]
    refine (laneOf_mod _ (by omega : 4 - 1 - index < 4)).trans ?_
    rw [laneOf_right]
    congr 1
    omega
  · refine (laneOf_mod _ (by omega : 4 - 1 - (index - 4) < 4)).trans ?_
    congr 1
    omega

theorem valueByte_little (val : UInt64) {index : Nat} (inside : index < 8) :
    valueByte .little val.toUInt32 (val >>> 32).toUInt32 index =
      ByteOrder.little.byteOf 8 val.toNat index := by
  have upper : (32 : UInt64).toNat = 8 * 4 := rfl
  simp only [valueByte, ByteOrder.byteOf, ByteOrder.lane, UInt64.toNat_toUInt32]
  split
  · rename_i low
    exact laneOf_mod _ low
  · rw [Words.toNat_shiftRight64 _ _ (by decide), upper]
    refine (laneOf_mod _ (by omega : index - 4 < 4)).trans ?_
    rw [laneOf_right]
    congr 1
    omega

theorem toNat_alignmentShift (p : UInt32) : ((p &&& 7) <<< 3).toNat = 8 * (p.toNat % 8) := by
  have low : (p &&& 7).toNat = p.toNat % 2 ^ 3 := Words.toNat_and_mask32 _ _ 3 rfl
  have three : (3 : UInt32).toNat = 3 := rfl
  rw [Words.toNat_shiftLeft32 _ _ (by decide), low, three]
  omega

theorem uaSet64Dram_bytes (order : ByteOrder) (q offset : UInt32) (val : UInt64)
    (memory : Nat → UInt8) (place : Nat) :
    uaSet64Dram order q offset val memory place =
      if (q + offset).toNat ≤ place ∧ place < (q + offset).toNat + 8 then
        UInt8.ofNat (order.byteOf 8 val.toNat (place - (q + offset).toNat))
      else
        memory place := by
  have isShift := toNat_alignmentShift (q + offset)
  have inWord : (q + offset).toNat % 8 < 8 := Nat.mod_lt _ (by decide)
  have address : (q + offset).toNat / 8 * 8 + (q + offset).toNat % 8 = (q + offset).toNat := by
    omega
  cases order with
  | big =>
      refine ((uaSet64Big_holds isShift inWord val _).store inWord place).trans ?_
      rw [address]
      by_cases written : (q + offset).toNat ≤ place ∧ place < (q + offset).toNat + 8
      · rw [if_pos written, if_pos written, valueByte_big val (by omega)]
      · rw [if_neg written, if_neg written]
  | little =>
      refine ((uaSet64Little_holds isShift inWord val _).store inWord place).trans ?_
      rw [address]
      by_cases written : (q + offset).toNat ≤ place ∧ place < (q + offset).toNat + 8
      · rw [if_pos written, if_pos written, valueByte_little val (by omega)]
      · rw [if_neg written, if_neg written]

end Store

end Pciebench
