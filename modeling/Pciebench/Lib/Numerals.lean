import Mathlib

/-!
Numerals as programs print and read them: the digits at the front of a text, the readers that C
and Python build on them, and the words and lines that a text is cut into. What is printed is
read back.
-/

namespace Numerals

def blank (char : Char) : Bool :=
  char ∈ [' ', '\t', '\n', '\r']

section Digits

def digitOf (char : Char) : Option Nat :=
  if '0' ≤ char ∧ char ≤ '9' then some (char.toNat - '0'.toNat)
  else if 'a' ≤ char ∧ char ≤ 'z' then some (char.toNat - 'a'.toNat + 10)
  else if 'A' ≤ char ∧ char ≤ 'Z' then some (char.toNat - 'A'.toNat + 10)
  else none

def digitIn (base : Nat) (char : Char) : Option Nat :=
  (digitOf char).filter (· < base)

/-- What the digits at the front spell when they come after `sofar`, and what is left. -/
def span (base sofar : Nat) : List Char → Nat × List Char
  | [] => (sofar, [])
  | char :: rest =>
      match digitIn base char with
      | some digit => span base (base * sofar + digit) rest
      | none => (sofar, char :: rest)

variable {base number sofar : Nat} {char : Char} {rest : List Char}

theorem digitOf_digitChar (digit : Nat) (small : digit < 16) :
    digitOf digit.digitChar = some digit := by
  have all : ∀ digit : Fin 16, digitOf digit.val.digitChar = some digit.val := by decide
  exact all ⟨digit, small⟩

theorem digitIn_digitChar {digit : Nat} (inBase : digit < base) (small : base ≤ 16) :
    digitIn base digit.digitChar = some digit := by
  rw [digitIn, digitOf_digitChar digit (inBase.trans_le small)]
  simpa using inBase

theorem blank_digitChar (digit : Nat) (small : digit < 16) : blank digit.digitChar = false := by
  have all : ∀ digit : Fin 16, blank digit.val.digitChar = false := by decide
  exact all ⟨digit, small⟩

theorem span_digit {digit : Nat} (inBase : digit < base) (small : base ≤ 16) :
    span base sofar (digit.digitChar :: rest) = span base (base * sofar + digit) rest := by
  rw [span, digitIn_digitChar inBase small]

theorem span_toDigits (large : 1 < base) (small : base ≤ 16) :
    span base 0 (base.toDigits number ++ rest) = span base number rest := by
  induction number using Nat.base_induction base large generalizing rest with
  | single number inBase =>
      rw [Nat.toDigits_of_lt_base inBase, List.singleton_append, span_digit inBase small,
        Nat.mul_zero, Nat.zero_add]
  | digit number last inBase positive ih =>
      rw [← Nat.toDigits_append_toDigits large positive inBase, List.append_assoc, ih,
        Nat.toDigits_of_lt_base inBase, List.singleton_append, span_digit inBase small]

theorem blank_toDigits (large : 1 < base) (small : base ≤ 16) :
    ∀ char ∈ base.toDigits number, blank char = false := by
  induction number using Nat.base_induction base large with
  | single number inBase =>
      rw [Nat.toDigits_of_lt_base inBase]
      intro char member
      rw [List.mem_singleton.mp member]
      exact blank_digitChar number (inBase.trans_le small)
  | digit number last inBase positive ih =>
      rw [← Nat.toDigits_append_toDigits large positive inBase, Nat.toDigits_of_lt_base inBase]
      intro char member
      rcases List.mem_append.mp member with front | back
      · exact ih char front
      · rw [List.mem_singleton.mp back]
        exact blank_digitChar last (inBase.trans_le small)

/-- A numeral starts with a zero only where it spells zero. -/
theorem toDigits_lead (large : 1 < base) (positive : 0 < number) :
    ∃ lead rest, 0 < lead ∧ lead < base ∧ base.toDigits number = lead.digitChar :: rest := by
  induction number using Nat.base_induction base large with
  | single number inBase =>
      exact ⟨number, [], positive, inBase, Nat.toDigits_of_lt_base inBase⟩
  | digit number last inBase positive' ih =>
      obtain ⟨lead, rest, leads, leadIn, same⟩ := ih positive'
      refine ⟨lead, rest ++ base.toDigits last, leads, leadIn, ?_⟩
      rw [← Nat.toDigits_append_toDigits large positive' inBase, same, List.cons_append]

theorem toDigits_first (large : 1 < base) :
    ∃ lead rest, lead < base ∧ base.toDigits number = lead.digitChar :: rest := by
  rcases Nat.eq_zero_or_pos number with rfl | positive
  · exact ⟨0, [], by omega, Nat.toDigits_zero base⟩
  · obtain ⟨lead, rest, _, leadIn, same⟩ := toDigits_lead large positive
    exact ⟨lead, rest, leadIn, same⟩

end Digits

section Readers

/-- The number at the front of a text, its base told by its prefix as in C. -/
def magnitude : List Char → Option (Nat × List Char)
  | '0' :: mark :: char :: rest =>
      if (mark = 'x' ∨ mark = 'X') ∧ (digitIn 16 char).isSome then
        some (span 16 0 (char :: rest))
      else some (span 8 0 ('0' :: mark :: char :: rest))
  | '0' :: rest => some (span 8 0 ('0' :: rest))
  | char :: rest =>
      if (digitIn 10 char).isSome then some (span 10 0 (char :: rest)) else none
  | [] => none

def signed : List Char → Bool × List Char
  | '-' :: body => (true, body)
  | '+' :: body => (false, body)
  | body => (false, body)

/-- C's `strtoul` with base 0 and 64 bits: the value, and where the end pointer points. -/
def strtoul (text : List Char) : Nat × List Char :=
  let (negative, body) := signed (text.dropWhile blank)
  match magnitude body with
  | none => (0, text)
  | some (number, rest) =>
      if 2 ^ 64 ≤ number then (2 ^ 64 - 1, rest)
      else if negative then ((2 ^ 64 - number) % 2 ^ 64, rest)
      else (number, rest)

def strip (text : List Char) : List Char :=
  ((text.dropWhile blank).reverse.dropWhile blank).reverse

/-- The number that a whole text spells. -/
def whole (base : Nat) (text : List Char) : Option Nat :=
  if text ≠ [] ∧ (span base 0 text).2 = [] then some (span base 0 text).1 else none

/-- Python's `int(text, 0)` on texts without a sign. -/
def pyInt0 (text : List Char) : Option Nat :=
  match strip text with
  | '0' :: mark :: rest =>
      if mark = 'x' ∨ mark = 'X' then whole 16 rest
      else if mark = 'o' ∨ mark = 'O' then whole 8 rest
      else if mark = 'b' ∨ mark = 'B' then whole 2 rest
      else (whole 10 (mark :: rest)).filter (· = 0)
  | body => whole 10 body

/-- Python's `int(text)` on texts without a sign. -/
def pyInt (text : List Char) : Option Nat :=
  whole 10 (strip text)

variable {number : Nat} {rest body : List Char}

theorem span_numeral {base : Nat} (large : 1 < base) (small : base ≤ 16) :
    span base 0 (base.toDigits number) = (number, []) := by
  have spelled : span base 0 (base.toDigits number ++ []) = span base number [] :=
    span_toDigits large small
  rwa [List.append_nil] at spelled

theorem whole_toDigits {base : Nat} (large : 1 < base) (small : base ≤ 16) :
    whole base (base.toDigits number) = some number := by
  rw [whole, span_numeral large small, if_pos ⟨Nat.toDigits_ne_nil, rfl⟩]

theorem dropWhile_blank (plain : ∀ char ∈ body, blank char = false) :
    body.dropWhile blank = body := by
  cases body with
  | nil => rfl
  | cons char body => rw [List.dropWhile_cons_of_neg (by simp [plain char])]

theorem strip_line (plain : ∀ char ∈ body, blank char = false) :
    strip (body ++ ['\n']) = body := by
  have reversed : ∀ char ∈ body.reverse, blank char = false :=
    fun char member => plain char (List.mem_reverse.mp member)
  cases body with
  | nil => rfl
  | cons char body =>
      have front : (char :: body ++ ['\n']).dropWhile blank = char :: body ++ ['\n'] := by
        rw [List.cons_append, List.dropWhile_cons_of_neg (by simp [plain char])]
      rw [strip, front, List.reverse_append, List.reverse_singleton, List.singleton_append,
        List.dropWhile_cons_of_pos rfl, dropWhile_blank reversed, List.reverse_reverse]

theorem blank_hex : ∀ char ∈ '0' :: 'x' :: Nat.toDigits 16 number, blank char = false := by
  intro char member
  rcases List.mem_cons.mp member with rfl | member
  · rfl
  rcases List.mem_cons.mp member with rfl | member
  · rfl
  · exact blank_toDigits (by decide) (by decide) char member

theorem pyInt0_hex : pyInt0 ('0' :: 'x' :: Nat.toDigits 16 number ++ ['\n']) = some number := by
  rw [pyInt0, strip_line blank_hex]
  exact whole_toDigits (by decide) (by decide)

theorem pyInt_decimal : pyInt (Nat.toDigits 10 number ++ ['\n']) = some number := by
  rw [pyInt, strip_line (blank_toDigits (by decide) (by decide))]
  exact whole_toDigits (by decide) (by decide)

theorem magnitude_hex :
    magnitude ('0' :: 'x' :: Nat.toDigits 16 number) = some (number, []) := by
  have first : ∃ lead rest, lead < 16 ∧ Nat.toDigits 16 number = lead.digitChar :: rest :=
    toDigits_first (by decide)
  obtain ⟨lead, rest, leadIn, same⟩ := first
  have read : (digitIn 16 lead.digitChar).isSome = true := by
    rw [digitIn_digitChar leadIn le_rfl]
    rfl
  rw [same, magnitude, if_pos ⟨Or.inl rfl, read⟩, ← same, span_numeral (by decide) le_rfl]

theorem magnitude_decimal : magnitude (Nat.toDigits 10 number) = some (number, []) := by
  rcases Nat.eq_zero_or_pos number with rfl | positive
  · rfl
  have first : ∃ lead rest, 0 < lead ∧ lead < 10 ∧
      Nat.toDigits 10 number = lead.digitChar :: rest := toDigits_lead (by decide) positive
  obtain ⟨lead, rest, leads, leadIn, same⟩ := first
  have notZero : lead.digitChar ≠ '0' := by
    rw [Ne, Nat.digitChar_eq_zero]
    omega
  have read : (digitIn 10 lead.digitChar).isSome = true := by
    rw [digitIn_digitChar leadIn (by decide)]
    rfl
  have spelled : magnitude (lead.digitChar :: rest) =
      some (span 10 0 (lead.digitChar :: rest)) := by
    rw [magnitude, if_pos read]
    all_goals simp [notZero]
  rw [same, spelled, ← same, span_numeral (by decide) (by decide)]

theorem signed_digit {lead : Nat} (leadIn : lead < 16) :
    signed (lead.digitChar :: rest) = (false, lead.digitChar :: rest) := by
  have all : ∀ lead : Fin 16, lead.val.digitChar ≠ '-' ∧ lead.val.digitChar ≠ '+' := by decide
  obtain ⟨notMinus, notPlus⟩ := all ⟨lead, leadIn⟩
  rw [signed]
  all_goals
    intro body same
    injection same with head
    contradiction

/-- A text that starts with a digit has no sign, and no blanks to skip. -/
theorem strtoul_of_magnitude {lead : Nat} (leadIn : lead < 16)
    (starts : body = lead.digitChar :: rest) (spells : magnitude body = some (number, []))
    (bound : number < 2 ^ 64) : strtoul body = (number, []) := by
  have front : body.dropWhile blank = body := by
    rw [starts, List.dropWhile_cons_of_neg (by simp [blank_digitChar lead leadIn])]
  have unsigned : signed body = (false, body) := by
    rw [starts, signed_digit leadIn]
  rw [strtoul, front, unsigned]
  simp only [spells, not_le.mpr bound, if_false, Bool.false_eq_true]

theorem strtoul_hex (bound : number < 2 ^ 64) :
    strtoul ('0' :: 'x' :: Nat.toDigits 16 number) = (number, []) :=
  have leads : (0 : Nat) < 16 := by decide
  strtoul_of_magnitude leads rfl magnitude_hex bound

theorem strtoul_decimal (bound : number < 2 ^ 64) :
    strtoul (Nat.toDigits 10 number) = (number, []) := by
  have first : ∃ lead rest, lead < 10 ∧ Nat.toDigits 10 number = lead.digitChar :: rest :=
    toDigits_first (by decide)
  obtain ⟨lead, rest, leadIn, same⟩ := first
  exact strtoul_of_magnitude (by omega) same magnitude_decimal bound

end Readers

section Cutting

/-- The first word of a text that starts within one, and the words after it. -/
def cut : List Char → List Char × List (List Char)
  | [] => ([], [])
  | char :: rest =>
      let (word, later) := cut rest
      if blank char then ([], if word = [] then later else word :: later)
      else (char :: word, later)

def words (text : List Char) : List (List Char) :=
  let (word, later) := cut text
  if word = [] then later else word :: later

/-- The lines of a text, each with the newline that ends it. -/
def lines : List Char → List (List Char)
  | [] => []
  | char :: rest =>
      if char = '\n' then [char] :: lines rest
      else
        match lines rest with
        | [] => [[char]]
        | line :: later => (char :: line) :: later

variable {text word line : List Char}

theorem cut_word (plain : ∀ char ∈ word, blank char = false) :
    cut (word ++ text) = (word ++ (cut text).1, (cut text).2) := by
  induction word with
  | nil => rfl
  | cons char word ih =>
      have rest := ih fun other member => plain other (List.mem_cons_of_mem _ member)
      rw [List.cons_append, cut, rest]
      simp [plain char]

theorem words_blank : words (' ' :: text) = words text := by
  rw [words, cut]
  rfl

theorem cut_spaced (all : List (List Char)) :
    cut (all.flatMap (' ' :: ·)) = ([], words (all.flatMap (' ' :: ·))) := by
  cases all with
  | nil => rfl
  | cons word all =>
      rw [List.flatMap_cons, List.cons_append, words_blank, cut]
      rfl

theorem words_spaced {all : List (List Char)}
    (plain : ∀ word ∈ all, word ≠ [] ∧ ∀ char ∈ word, blank char = false) :
    words (all.flatMap (' ' :: ·)) = all := by
  induction all with
  | nil => rfl
  | cons word all ih =>
      obtain ⟨filled, letters⟩ := plain word List.mem_cons_self
      have later := ih fun other member => plain other (List.mem_cons_of_mem _ member)
      rw [List.flatMap_cons, List.cons_append, words_blank, words, cut_word letters,
        cut_spaced, later]
      simp [filled]

theorem lines_line (single : '\n' ∉ line) :
    lines (line ++ '\n' :: text) = (line ++ ['\n']) :: lines text := by
  induction line with
  | nil => rfl
  | cons char line ih =>
      rw [List.mem_cons, not_or] at single
      rw [List.cons_append, lines, if_neg (Ne.symm single.1), ih single.2]
      rfl

end Cutting

end Numerals
