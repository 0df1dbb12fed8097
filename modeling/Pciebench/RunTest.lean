import Mathlib
import Pciebench.AddrText
import Pciebench.Handshake
import Pciebench.Lib.Getopt

/-!
`run_test` with and without the C helper. The helper is started through a command line, which
its `main` takes apart again; without it `run_test` does the same by itself. What either makes
the card do is a trace of events, with one event for a whole pass over the trash or the warmed
buffer, and the words that reads of `test_ctrl` give are arbitrary.
-/

namespace Pciebench

open Numerals

inductive HostEvent
  | reload
  | store (sym : List Char) (words : Option (List UInt32))
  | load (sym : List Char)
  | thrash
  | warm (winSz : Int)
  deriving DecidableEq, Repr

/-- What is outside: `nfp-rtsym`, and the NFP library of the helper. -/
structure HostTools where
  rtsym : List Char → Option (List UInt32)
  deviceOpen : Int → Bool
  rtsymLookup : List Char → Bool

/-! The symbols: `cl1` is the cluster of the NFP-3200, `i32` the island of the NFP-6000. -/

def symLocation : Chip → List Char
  | .nfp3200 => ['c', 'l', '1']
  | .nfp6000 => ['i', '3', '2']

def meTestCtrl (chip : Chip) : List Char :=
  symLocation chip ++ ['.', '_', 't', 'e', 's', 't', '_', 'c', 't', 'r', 'l']

def meTestParams (chip : Chip) : List Char :=
  symLocation chip ++ ['.', '_', 't', 'e', 's', 't', '_', 'p', 'a', 'r', 'a', 'm', 's']

def meDmaAddrs (chip : Chip) : List Char :=
  symLocation chip ++
    ['.', '_', 'h', 'o', 's', 't', '_', 'd', 'm', 'a', '_', 'a', 'd', 'd', 'r', 's']

def signedWord (word : UInt32) : Int :=
  word.toInt32.toInt

section Helper

/-- An `unsigned long` stored in an `int`. -/
def intOf (value : Nat) : Int :=
  (value : Int).bmod (2 ^ 32)

structure HelperOpts where
  optNfp : Int
  optTest : Int
  optWin : Int
  optCtrl : List Char
  deriving DecidableEq, Repr

def helperTakes : Char → Option Bool
  | 'n' | 'c' | 't' | 'w' => some true
  | 'h' => some false
  | _ => none

def optNumber (optarg : List Char) : Option Int :=
  let (value, cp) := strtoul optarg
  if cp = optarg ∨ cp ≠ [] then none else some (intOf value)

/-- The `switch` in the loop over the options; what is `none` calls `usage`. -/
def takeOption (opts : HelperOpts) : Getopt.Found → Option HelperOpts
  | .value 'n' optarg => (optNumber optarg).map fun value => { opts with optNfp := value }
  | .value 'c' optarg => some { opts with optCtrl := optarg.take 256 }
  | .value 't' optarg => (optNumber optarg).map fun value => { opts with optTest := value }
  | .value 'w' optarg => (optNumber optarg).map fun value => { opts with optWin := value }
  | _ => none

def helperOpts (args : List (List Char)) : Option HelperOpts := do
  let opts ← (Getopt.scan helperTakes args).foldlM takeOption
    { optNfp := 0, optTest := -1, optWin := 0, optCtrl := [] }
  if opts.optTest = -1 then none else some opts

/-- `while (opt_test > 0)`, until what is read is not above zero. -/
def helperPoll (sym : List Char) (optTest : Int) :
    List UInt32 → Option (List HostEvent × List UInt32)
  | [] => if 0 < optTest then none else some ([], [])
  | word :: polls =>
      if 0 < optTest then
        (helperPoll sym (signedWord word) polls).map fun (events, rest) =>
          (.load sym :: events, rest)
      else some ([], word :: polls)

/-- The helper's `main`: its exit code, what it did and the reads that are left. -/
def helperMain (tools : HostTools) (args : List (List Char)) (polls : List UInt32) :
    Option (Int × List HostEvent × List UInt32) :=
  match helperOpts args with
  | none => some (1, [], polls)
  | some opts =>
      if ¬ tools.deviceOpen opts.optNfp ∨ ¬ tools.rtsymLookup opts.optCtrl then
        some (255, [], polls)
      else
        let warmed := if opts.optWin ≠ 0 then [.warm opts.optWin] else []
        let start := .store opts.optCtrl (some [UInt32.ofInt opts.optTest])
        (helperPoll opts.optCtrl opts.optTest polls).map fun (events, rest) =>
          (0, .thrash :: warmed ++ start :: events, rest)

end Helper

section Python

inductive RunError
  | addrs (error : AddrsError)
  | err (message : String)
  deriving DecidableEq, Repr

/-- `while self._get_test_ctrl() > 0`. -/
def pollCtrl (sym : List Char) : List UInt32 → Option (List HostEvent × List UInt32)
  | [] => none
  | word :: polls =>
      if 0 < signedWord word then
        (pollCtrl sym polls).map fun (events, rest) => (.load sym :: events, rest)
      else some ([.load sym], polls)

def decimal (number : Nat) : List Char :=
  Nat.toDigits 10 number

/-- The command line of the helper. -/
def helperCmd (helper ctrl : List Char) (nfpNum testNo warm : Nat) : List Char :=
  helper ++ " -n ".toList ++ decimal nfpNum ++ " -c ".toList ++ ctrl ++
    " -t ".toList ++ decimal testNo ++ " -w ".toList ++ decimal warm

def paramsVal (params : TestParams) : List Char :=
  (hex params.p0.toNat).toList ++
    [params.p1, params.p2, params.p3, params.p4].flatMap fun param =>
      ' ' :: (hex param.toNat).toList

/-- What the shell leaves as it is. -/
def shellPlain (char : Char) : Bool :=
  char.isAlphanum || char ∈ ['/', '.', '_', '-', '+']

/-- The part of `run_test` that the helper may do: it runs the test to its end. -/
def startTest (tools : HostTools) (chip : Chip) (helper : Option (List Char))
    (nfpNum testNo warm : Nat) (polls : List UInt32) :
    Option (Int × List HostEvent × List UInt32) :=
  let ctrl := meTestCtrl chip
  match helper with
  | some helper =>
      helperMain tools (words (helperCmd helper ctrl nfpNum testNo warm)).tail polls
  | none =>
      let warmed := if warm > 0 then [.warm warm] else []
      let start := .store ctrl (tools.rtsym (hex testNo).toList)
      (pollCtrl ctrl polls).map fun (events, rest) =>
        (0, .thrash :: warmed ++ start :: events, rest)

/-- `run_test` up to the result of the test. -/
def runTest (tools : HostTools) (chip : Chip) (helper : Option (List Char)) (nfpNum : Nat)
    (dmaAddrsFile bufSzFile : List Char) (test : PciebenchTest) (params : TestParams)
    (warm : Nat) (polls : List UInt32) :
    Option (Except RunError Unit × List HostEvent × List UInt32) :=
  match setDmaAddrsVal hostDmaAddrsSz dmaAddrsFile bufSzFile with
  | .error error => some (.error (.addrs error), [.reload], polls)
  | .ok val =>
      let begun := [.reload, .store (meDmaAddrs chip) (tools.rtsym val),
        .store (meTestParams chip) (tools.rtsym (paramsVal params))]
      let testNo := test.number.toNat
      match startTest tools chip helper nfpNum testNo warm polls with
      | none => none
      | some (ret, events, polls) =>
          if ret ≠ 0 then
            some (.error (.err ("Test helper failed with " ++ toString ret)), begun ++ events,
              polls)
          else
            match polls with
            | [] => none
            | word :: polls =>
                let ret := signedWord word
                let events := begun ++ events ++ [.load (meTestCtrl chip)]
                if ret < 0 then
                  some (.error (.err ("Test " ++ toString testNo ++ " failed with " ++
                    toString ret)), events, polls)
                else some (.ok (), events, polls)

end Python

section CommandLine

variable {number nfpNum testNo warm : Nat} {helper ctrl : List Char}

theorem word_decimal : decimal number ≠ [] ∧ ∀ char ∈ decimal number, blank char = false :=
  ⟨Nat.toDigits_ne_nil, blank_toDigits (by decide) (by decide)⟩

theorem word_option (letter : Char) (plain : blank letter = false) :
    ['-', letter] ≠ [] ∧ ∀ char ∈ ['-', letter], blank char = false := by
  refine ⟨List.cons_ne_nil _ _, ?_⟩
  intro char member
  rcases List.mem_cons.mp member with rfl | member
  · rfl
  · rw [List.mem_singleton.mp member]
    exact plain

def helperOptions (ctrl : List Char) (nfpNum testNo warm : Nat) : List (Char × List Char) :=
  [('n', decimal nfpNum), ('c', ctrl), ('t', decimal testNo), ('w', decimal warm)]

theorem words_helperCmd (plainHelper : helper ≠ [] ∧ ∀ char ∈ helper, blank char = false)
    (plainCtrl : ctrl ≠ [] ∧ ∀ char ∈ ctrl, blank char = false) :
    words (helperCmd helper ctrl nfpNum testNo warm) =
      helper :: Getopt.spread (helperOptions ctrl nfpNum testNo warm) := by
  have spaced : ' ' :: helperCmd helper ctrl nfpNum testNo warm =
      (helper :: Getopt.spread (helperOptions ctrl nfpNum testNo warm)).flatMap (' ' :: ·) := by
    simp [helperCmd, Getopt.spread, helperOptions]
  rw [← words_blank, spaced]
  refine words_spaced ?_
  intro word member
  rcases List.mem_cons.mp member with rfl | member
  · exact plainHelper
  obtain ⟨option, listed, inOption⟩ := List.mem_flatMap.mp member
  simp only [helperOptions, List.mem_cons, List.not_mem_nil, or_false] at listed inOption
  rcases listed with rfl | rfl | rfl | rfl <;> rcases inOption with rfl | rfl
  · exact word_option 'n' rfl
  · exact word_decimal
  · exact word_option 'c' rfl
  · exact plainCtrl
  · exact word_option 't' rfl
  · exact word_decimal
  · exact word_option 'w' rfl
  · exact word_decimal

theorem optNumber_decimal (bound : number < 2 ^ 64) :
    optNumber (decimal number) = some (intOf number) := by
  rw [optNumber, decimal, strtoul_decimal bound]
  simp

theorem intOf_eq (bound : number < 2 ^ 31) : intOf number = number :=
  Int.bmod_eq_of_le (by omega) (by omega)

theorem shellPlain_blank {char : Char} (plain : shellPlain char = true) : blank char = false := by
  rw [blank, decide_eq_false_iff_not]
  intro listed
  simp only [List.mem_cons, List.not_mem_nil, or_false] at listed
  rcases listed with rfl | rfl | rfl | rfl <;> exact absurd plain (by decide)

theorem helperOpts_spread (short : ctrl.length ≤ 256) (nfpBound : nfpNum < 2 ^ 31)
    (testBound : testNo < 2 ^ 31) (warmBound : warm < 2 ^ 64) :
    helperOpts (Getopt.spread (helperOptions ctrl nfpNum testNo warm)) =
      some { optNfp := nfpNum, optTest := testNo, optWin := intOf warm, optCtrl := ctrl } := by
  have found : Getopt.scan helperTakes (Getopt.spread (helperOptions ctrl nfpNum testNo warm)) =
      (helperOptions ctrl nfpNum testNo warm).map fun option => .value option.1 option.2 :=
    Getopt.scan_spread _ (by simp [helperOptions, helperTakes])
  have asked : (testNo : Int) ≠ -1 := by omega
  have nfp : optNumber (decimal nfpNum) = some (nfpNum : Int) := by
    rw [optNumber_decimal (by omega), intOf_eq nfpBound]
  have test : optNumber (decimal testNo) = some (testNo : Int) := by
    rw [optNumber_decimal (by omega), intOf_eq testBound]
  have win := optNumber_decimal warmBound
  rw [helperOpts, found]
  simp [helperOptions, takeOption, nfp, test, win, List.take_of_length_le short, asked]

end CommandLine

section Polling

variable {sym : List Char} {optTest : Int}

theorem helperPoll_eq (positive : 0 < optTest) (polls : List UInt32) :
    helperPoll sym optTest polls = pollCtrl sym polls := by
  induction polls generalizing optTest with
  | nil => rw [helperPoll, if_pos positive, pollCtrl]
  | cons word polls ih =>
      rw [helperPoll, if_pos positive, pollCtrl]
      split
      · rename_i again
        rw [ih again]
      · rename_i stop
        cases polls with
        | nil => simp [helperPoll, stop]
        | cons next polls => simp [helperPoll, stop]

theorem pollCtrl_ends {polls rest : List UInt32} {events : List HostEvent}
    (ends : pollCtrl sym polls = some (events, rest)) :
    ∃ waits stop, polls = waits ++ stop :: rest ∧ (∀ word ∈ waits, 0 < signedWord word) ∧
      signedWord stop ≤ 0 ∧ events = List.replicate (waits.length + 1) (.load sym) := by
  induction polls generalizing events with
  | nil => contradiction
  | cons word polls ih =>
      rw [pollCtrl] at ends
      split at ends
      · rename_i again
        obtain ⟨⟨more, left⟩, polled, same⟩ := Option.map_eq_some_iff.mp ends
        cases same
        obtain ⟨waits, stop, rfl, above, stops, rfl⟩ := ih polled
        exact ⟨word :: waits, stop, rfl, List.forall_mem_cons.mpr ⟨again, above⟩, stops, rfl⟩
      · rename_i stop
        cases ends
        exact ⟨[], word, rfl, by simp, not_lt.mp stop, rfl⟩

end Polling

section Paths

variable {tools : HostTools} {chip : Chip} {helper : List Char}
  {nfpNum testNo warm : Nat} {polls : List UInt32}

theorem rtsym_hex {rtsym : List Char → Option (List UInt32)} (reads : ReadsValues rtsym)
    {val : List Char} (written : List UInt32)
    (spelled : words val = written.map fun word => (hex word.toNat).toList) :
    rtsym val = some written := by
  refine reads val written ?_
  rw [spelled, List.map_map]
  refine List.map_congr_left ?_
  intro word _
  exact strtoul_hexText (word.toNat_lt.trans (by decide))

theorem word_hex (number : Nat) :
    (hex number).toList ≠ [] ∧ ∀ char ∈ (hex number).toList, blank char = false := by
  rw [hex_toList]
  exact ⟨List.cons_ne_nil _ _, blank_hex⟩

theorem words_hexes (first : UInt32) (rest : List UInt32) :
    words ((hex first.toNat).toList ++ rest.flatMap fun word => ' ' :: (hex word.toNat).toList) =
      (first :: rest).map fun word => (hex word.toNat).toList := by
  have spaced : ' ' :: ((hex first.toNat).toList ++
      rest.flatMap fun word => ' ' :: (hex word.toNat).toList) =
      ((first :: rest).map fun word => (hex word.toNat).toList).flatMap (' ' :: ·) := by
    rw [List.flatMap_map, List.flatMap_cons]
    rfl
  rw [← words_blank, spaced]
  refine words_spaced ?_
  intro text member
  obtain ⟨word, _, rfl⟩ := List.mem_map.mp member
  exact word_hex word.toNat

theorem rtsym_params (reads : ReadsValues tools.rtsym) (params : TestParams) :
    tools.rtsym (paramsVal params) =
      some [params.p0, params.p1, params.p2, params.p3, params.p4] :=
  rtsym_hex reads _ (words_hexes params.p0 [params.p1, params.p2, params.p3, params.p4])

theorem rtsym_ctrl (reads : ReadsValues tools.rtsym) (word : UInt32) :
    tools.rtsym (hex word.toNat).toList = some [word] := by
  refine rtsym_hex reads [word] ?_
  have single := words_hexes word []
  rwa [List.flatMap_nil, List.append_nil] at single

theorem meTestCtrl_word (chip : Chip) :
    meTestCtrl chip ≠ [] ∧ (∀ char ∈ meTestCtrl chip, blank char = false) ∧
      (meTestCtrl chip).length ≤ 256 := by
  have length : (meTestCtrl chip).length = 14 := by cases chip <;> rfl
  have letters : (meTestCtrl chip).all (fun char => !blank char) = true := by
    cases chip <;> decide
  refine ⟨by cases chip <;> decide, ?_, by omega⟩
  intro char member
  have letter := List.all_eq_true.mp letters char member
  rwa [Bool.not_eq_true'] at letter

/-- The trace of a test that is started, with the given passes over the buffers before it. -/
def started (ctrl : List Char) (number : UInt32) (warmed : List HostEvent) (polls : List UInt32) :
    Option (Int × List HostEvent × List UInt32) :=
  (pollCtrl ctrl polls).map fun (events, rest) =>
    (0, .thrash :: warmed ++ .store ctrl (some [number]) :: events, rest)

theorem startTest_none (reads : ReadsValues tools.rtsym) (test : PciebenchTest) :
    startTest tools chip none nfpNum test.number.toNat warm polls =
      started (meTestCtrl chip) test.number (if warm > 0 then [.warm warm] else []) polls := by
  rw [startTest, rtsym_ctrl reads]
  rfl

/-- The helper's `main` finds what `run_test` put on its command line. -/
theorem startTest_helper (test : PciebenchTest)
    (plain : helper ≠ [] ∧ ∀ char ∈ helper, blank char = false) (nfpBound : nfpNum < 2 ^ 31)
    (warmBound : warm < 2 ^ 64) (opens : tools.deviceOpen nfpNum = true)
    (found : tools.rtsymLookup (meTestCtrl chip) = true) :
    startTest tools chip (some helper) nfpNum test.number.toNat warm polls =
      started (meTestCtrl chip) test.number
        (if intOf warm ≠ 0 then [.warm (intOf warm)] else []) polls := by
  obtain ⟨named, letters, short⟩ := meTestCtrl_word chip
  have testBound : test.number.toNat < 2 ^ 31 := by cases test <;> decide
  have positive : 0 < (test.number.toNat : Int) := by cases test <;> decide
  have parsed := helperOpts_spread short nfpBound testBound warmBound
  have word : UInt32.ofInt test.number.toNat = test.number := by cases test <;> rfl
  simp only [startTest, words_helperCmd plain ⟨named, letters⟩, List.tail_cons, helperMain, parsed,
    opens, found, not_true_eq_false, or_self, if_false, helperPoll_eq positive, word, started]

theorem startTest_paths (reads : ReadsValues tools.rtsym) (test : PciebenchTest)
    (plain : helper ≠ [] ∧ ∀ char ∈ helper, blank char = false) (nfpBound : nfpNum < 2 ^ 31)
    (warmBound : warm < 2 ^ 31) (opens : tools.deviceOpen nfpNum = true)
    (found : tools.rtsymLookup (meTestCtrl chip) = true) :
    startTest tools chip (some helper) nfpNum test.number.toNat warm polls =
      startTest tools chip none nfpNum test.number.toNat warm polls := by
  have windows : ((warm : Int) ≠ 0) = (warm > 0) := propext (by omega)
  rw [startTest_helper test plain nfpBound (by omega) opens found, startTest_none reads]
  simp only [intOf_eq warmBound, windows]

theorem runTest_traced (reads : ReadsValues tools.rtsym) {helper : Option (List Char)}
    {test : PciebenchTest} {warmed : List HostEvent}
    (starts : startTest tools chip helper nfpNum test.number.toNat warm polls =
      started (meTestCtrl chip) test.number warmed polls)
    {params : TestParams} {dmaAddrsFile bufSzFile val : List Char} {result : Except RunError Unit}
    {events : List HostEvent} {rest : List UInt32}
    (accepted : setDmaAddrsVal hostDmaAddrsSz dmaAddrsFile bufSzFile = .ok val)
    (ran : runTest tools chip helper nfpNum dmaAddrsFile bufSzFile test params warm polls =
      some (result, events, rest)) :
    ∃ waits stop last, polls = waits ++ stop :: last :: rest ∧
      (∀ word ∈ waits, 0 < signedWord word) ∧ signedWord stop ≤ 0 ∧
      events = .reload :: .store (meDmaAddrs chip) (tools.rtsym val) ::
        .store (meTestParams chip)
          (some [params.p0, params.p1, params.p2, params.p3, params.p4]) ::
        .thrash :: warmed ++ .store (meTestCtrl chip) (some [test.number]) ::
        List.replicate (waits.length + 2) (.load (meTestCtrl chip)) ∧
      result = if signedWord last < 0 then
        .error (.err ("Test " ++ toString test.number.toNat ++ " failed with " ++
          toString (signedWord last)))
      else .ok () := by
  simp only [runTest, accepted, starts, started, rtsym_params reads] at ran
  cases polled : pollCtrl (meTestCtrl chip) polls with
  | none =>
      simp only [polled, Option.map_none] at ran
      contradiction
  | some polled' =>
      obtain ⟨loads, left⟩ := polled'
      obtain ⟨waits, stop, rfl, above, stops, rfl⟩ := pollCtrl_ends polled
      simp only [polled, Option.map_some] at ran
      rw [if_neg (by simp)] at ran
      cases left with
      | nil => contradiction
      | cons last left =>
          simp only at ran
          refine ⟨waits, stop, last, ?_⟩
          split at ran
          · rename_i failed
            cases ran
            refine ⟨rfl, above, stops, ?_, (if_pos failed).symm⟩
            simp [List.replicate_succ']
          · rename_i passed
            cases ran
            refine ⟨rfl, above, stops, ?_, (if_neg passed).symm⟩
            simp [List.replicate_succ']

/-- `run_test` does the same with the helper and without it: it waits for the first answer that
is not above zero, and fails if the one after it is below. -/
theorem runTest_paths (tools : HostTools) (chip : Chip) (helper : List Char) (nfpNum warm : Nat)
    (test : PciebenchTest) (params : TestParams) (dmaAddrsFile bufSzFile : List Char)
    (polls : List UInt32) (reads : ReadsValues tools.rtsym)
    (plain : helper ≠ [] ∧ ∀ char ∈ helper, shellPlain char = true) (nfpBound : nfpNum < 2 ^ 31)
    (warmBound : warm < 2 ^ 31) (opens : tools.deviceOpen nfpNum = true)
    (found : tools.rtsymLookup (meTestCtrl chip) = true) :
    let run helper := runTest tools chip helper nfpNum dmaAddrsFile bufSzFile test params warm polls
    run (some helper) = run none ∧
    ∀ val, setDmaAddrsVal hostDmaAddrsSz dmaAddrsFile bufSzFile = .ok val →
      ∀ result events rest, run (some helper) = some (result, events, rest) →
        ∃ waits stop last, polls = waits ++ stop :: last :: rest ∧
          (∀ word ∈ waits, 0 < signedWord word) ∧ signedWord stop ≤ 0 ∧
          events = .reload :: .store (meDmaAddrs chip) (tools.rtsym val) ::
            .store (meTestParams chip)
              (some [params.p0, params.p1, params.p2, params.p3, params.p4]) ::
            .thrash :: (if warm > 0 then [.warm warm] else []) ++
            .store (meTestCtrl chip) (some [test.number]) ::
            List.replicate (waits.length + 2) (.load (meTestCtrl chip)) ∧
          (result = .ok () ↔ 0 ≤ signedWord last) := by
  intro run
  have same : run (some helper) = run none := by
    have word := And.intro plain.1 fun char member => shellPlain_blank (plain.2 char member)
    simp only [run, runTest, startTest_paths reads test word nfpBound warmBound opens found]
  refine ⟨same, ?_⟩
  intro val accepted result events rest ran
  rw [same] at ran
  obtain ⟨waits, stop, last, same', above, stops, events', rfl⟩ :=
    runTest_traced reads (startTest_none reads test) accepted ran
  refine ⟨waits, stop, last, same', above, stops, events', ?_⟩
  split
  · rename_i failed
    exact iff_of_false (by simp) (not_le.mpr failed)
  · rename_i passed
    exact iff_of_true rfl (not_lt.mp passed)

theorem runTest_paths_warmed :
    let run helper := runTest ⟨readValues, fun _ => true, fun _ => true⟩ .nfp6000 helper 0
      (dmaAddrsText (backToBack 0x40000000)) bufSzText .latCmdRd
      { p0 := 0, p1 := 64, p2 := 8192, p3 := 0, p4 := 0 } 8192 [1, 0, 0]
    run (some ['.', '/', 'h']) = run none :=
  (runTest_paths ⟨readValues, fun _ => true, fun _ => true⟩ .nfp6000 ['.', '/', 'h'] 0 8192
    .latCmdRd { p0 := 0, p1 := 64, p2 := 8192, p3 := 0, p4 := 0 } _ _ [1, 0, 0]
    readValues_reads ⟨by decide, by simp [shellPlain]⟩ (by decide) (by decide) rfl rfl).1

end Paths

end Pciebench
