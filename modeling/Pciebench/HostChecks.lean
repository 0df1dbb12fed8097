import Mathlib
import Pciebench.CmdLat
import Pciebench.Lib.Outcome

/-!
The sanity checks of `lat_test` and `bw_test` in `nfpbench.py`. A call of `err` raises an
exception with its message.
-/

namespace Pciebench

/-- `if failed: err(msg)`. -/
def errIf (failed : Prop) [Decidable failed] (msg : String) : Except String Unit :=
  if failed then .error msg else .ok ()

def onlyIf (condition : Prop) [Decidable condition] (checks : Except String Unit) :
    Except String Unit :=
  if condition then checks else .ok ()

def latTests : List PciebenchTest :=
  [.latCmdRd, .latCmdWrrd, .latDmaRd, .latDmaWrrd]

def bwTests : List PciebenchTest :=
  [.bwDmaRd, .bwDmaWr, .bwDmaRw]

def flagsHostwarm : UInt32 := (1 : UInt32) <<< 31

def flagsAll : UInt32 :=
  latFlagsWarm ||| latFlagsThrash ||| latFlagsRandom ||| latFlagsLong ||| flagsHostwarm

def flagsCache : UInt32 :=
  latFlagsWarm ||| latFlagsThrash ||| flagsHostwarm

def onesInBin (flags : UInt32) : Nat :=
  (Nat.toDigits 2 flags.toNat).count '1'

/-- `%#08x`. -/
def hex08 (flags : UInt32) : String :=
  "0x" ++ String.ofList ((Nat.toDigits 16 flags.toNat).leftpad 6 '0')

def dmaSizeChecks (chip : Chip) (transSz : UInt32) : Except String Unit := do
  errIf (chip = .nfp6000 ∧ transSz > 4096)
    "For NFP-6000 the transaction must be less than 4096"
  errIf (chip = .nfp3200 ∧ transSz > 2048)
    "For NFP-3200 the transaction must be less than 2048"

def windowChecks (winSz flags : UInt32) : Except String Unit := do
  errIf (winSz % 64 ≠ 0)
    ("Window size must be a multiple of 64. Was " ++ toString winSz.toNat)
  errIf (flags &&& ~~~flagsAll ≠ 0)
    ("Illegal flags " ++ hex08 flags ++ " (valid " ++ hex08 flagsAll ++ ")")
  errIf (onesInBin (flags &&& flagsCache) > 1)
    "Only one cache related flag may be set"

def latTestChecks (chip : Chip) (test : PciebenchTest) (args : AddrArgs) :
    Except String Unit := do
  errIf (test ∉ latTests) (toString test.number.toNat ++ " is not a latency test")
  onlyIf (test = .latCmdRd ∨ test = .latCmdWrrd)
    (errIf (args.transSz % 4 ≠ 0 ∨ args.transSz > 64)
      ("Wrong argument for CMD latency test: " ++ toString args.transSz.toNat))
  onlyIf (test = .latDmaRd ∨ test = .latDmaWrrd) (dmaSizeChecks chip args.transSz)
  windowChecks args.winSz args.flags

def bwTestChecks (chip : Chip) (test : PciebenchTest) (args : AddrArgs) :
    Except String Unit := do
  errIf (test ∉ bwTests) (toString test.number.toNat ++ " is not a bandwidth test")
  dmaSizeChecks chip args.transSz
  windowChecks args.winSz args.flags

/-- The host sends the request, and the firmware goes past its own check. -/
def Accepted (chip : Chip) (test : PciebenchTest) (args : AddrArgs) : Prop :=
  (latTestChecks chip test args = .ok () ∨ bwTestChecks chip test args = .ok ()) ∧
    args.refused = false

section Passed

variable {chip : Chip} {test : PciebenchTest} {args : AddrArgs}

theorem errIf_ok {failed : Prop} [Decidable failed] {msg : String} :
    errIf failed msg = .ok () ↔ ¬ failed := by
  rw [errIf]
  split
  · rename_i bad
    simp [bad]
  · rename_i good
    simp [good]

theorem bind_ok_unit {first rest : Except String Unit} :
    (first >>= fun _ => rest) = .ok () ↔ first = .ok () ∧ rest = .ok () := by
  cases first with
  | error msg => simp
  | ok done => simp

theorem dmaSizeChecks_ok {transSz : UInt32} (passed : dmaSizeChecks chip transSz = .ok ()) :
    transSz.toNat ≤ 4096 := by
  simp only [dmaSizeChecks, bind_ok_unit, errIf_ok] at passed
  obtain ⟨large, small⟩ := passed
  cases chip with
  | nfp3200 =>
      have limit : ¬ (2048 : UInt32) < transSz := fun above => small ⟨rfl, above⟩
      have value : (2048 : UInt32).toNat = 2048 := rfl
      rw [UInt32.lt_iff_toNat_lt, value] at limit
      omega
  | nfp6000 =>
      have limit : ¬ (4096 : UInt32) < transSz := fun above => large ⟨rfl, above⟩
      have value : (4096 : UInt32).toNat = 4096 := rfl
      rw [UInt32.lt_iff_toNat_lt, value] at limit
      omega

theorem windowChecks_ok {winSz flags : UInt32} (passed : windowChecks winSz flags = .ok ()) :
    winSz.toNat % 64 = 0 := by
  simp only [windowChecks, bind_ok_unit, errIf_ok, not_not] at passed
  have aligned := congrArg UInt32.toNat passed.1
  rw [UInt32.toNat_mod] at aligned
  exact aligned

theorem onlyIf_ok {condition : Prop} [Decidable condition] {checks : Except String Unit}
    (passed : onlyIf condition checks = .ok ()) (applies : condition) : checks = .ok () := by
  rwa [onlyIf, if_pos applies] at passed

theorem latTestChecks_ok (passed : latTestChecks chip test args = .ok ()) :
    args.winSz.toNat % 64 = 0 ∧ args.transSz.toNat ≤ 4096 := by
  simp only [latTestChecks, bind_ok_unit, errIf_ok, not_not] at passed
  obtain ⟨member, cmdSize, dmaSize, window⟩ := passed
  refine ⟨windowChecks_ok window, ?_⟩
  by_cases cmd : test = .latCmdRd ∨ test = .latCmdWrrd
  · have size := errIf_ok.mp (onlyIf_ok cmdSize cmd)
    have value : (64 : UInt32).toNat = 64 := rfl
    rw [not_or, gt_iff_lt, UInt32.lt_iff_toNat_lt, value] at size
    omega
  · have dma : test = .latDmaRd ∨ test = .latDmaWrrd := by
      simp only [latTests, List.mem_cons, List.not_mem_nil, or_false] at member
      tauto
    exact dmaSizeChecks_ok (onlyIf_ok dmaSize dma)

theorem bwTestChecks_ok (passed : bwTestChecks chip test args = .ok ()) :
    args.winSz.toNat % 64 = 0 ∧ args.transSz.toNat ≤ 4096 := by
  simp only [bwTestChecks, bind_ok_unit] at passed
  obtain ⟨_, dmaSize, window⟩ := passed
  exact ⟨windowChecks_ok window, dmaSizeChecks_ok dmaSize⟩

namespace Accepted

variable (accepted : Accepted chip test args)

include accepted

theorem aligned : args.winSz.toNat % 64 = 0 := by
  rcases accepted.1 with lat | bw
  · exact (latTestChecks_ok lat).1
  · exact (bwTestChecks_ok bw).1

theorem transSz_le : args.transSz.toNat ≤ 4096 := by
  rcases accepted.1 with lat | bw
  · exact (latTestChecks_ok lat).2
  · exact (bwTestChecks_ok bw).2

theorem checked (nonzero : args.span ≠ 0) : args.Checked := by
  have page : (4096 : UInt32).toNat = 4096 := rfl
  have sums := accepted.2
  simp only [AddrArgs.refused, Bool.or_eq_false_iff, decide_eq_false_iff_not, gt_iff_lt,
    UInt32.lt_iff_toNat_lt, page] at sums
  obtain ⟨inPage, inWindow⟩ := sums
  exact ⟨accepted.aligned, Nat.pos_of_ne_zero nonzero, Nat.le_of_not_lt inPage,
    Nat.le_of_not_lt inWindow⟩

end Accepted

end Passed

end Pciebench
