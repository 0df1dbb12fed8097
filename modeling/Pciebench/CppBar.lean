import Mathlib
import Pciebench.Config
import Pciebench.Lib.Words

/-!
The CPP2PCIe BARs of `libnfp.c`: how `pcie_c2p_barcfg` sets one, which CPP address a PCIe
command carries, and which host address the two give together.
-/

namespace Pciebench

def pciebenchPcieIsl : UInt32 := 0

def pciebenchC2pIdx : UInt8 := 0

inductive Sync
  | sigDone
  | ctxSwap
  | sigNone
  deriving DecidableEq, Repr

/-- The BAR configuration registers by their CPP address. -/
abbrev BarFile := UInt64 → UInt32

def nfpPcieBarcfgC2p (chip : Chip) (bar : UInt32) : UInt32 :=
  match chip with
  | .nfp3200 => 0x30020 + 0x4 * (bar &&& 0x7)
  | .nfp6000 => 0x30180 + bar * 0x4

def nfpPcieBarcfgC2pAriEnable : Chip → UInt32
  | .nfp3200 => (0x1 : UInt32) <<< 28
  | .nfp6000 => (1 : UInt32) <<< 29

def nfpPcieBarcfgC2pAri (chip : Chip) (x : UInt32) : UInt32 :=
  match chip with
  | .nfp3200 => (x &&& 0xff) <<< 20
  | .nfp6000 => (x &&& 0xff) <<< 21

def nfpPcieBarcfgC2pAddrMsk : Chip → UInt32
  | .nfp3200 => 0x7ffff
  | .nfp6000 => 0x1fffff

/-- `dbl_shf`: the low word of two words shifted right together. -/
def dblShf (hi lo : UInt32) (amount : UInt64) : UInt32 :=
  (Words.join hi lo >>> amount).toUInt32

def c2pRegister (chip : Chip) (pcieIsl : UInt32) (barIdx : UInt8) : UInt64 :=
  let isl := pcieIsl <<< 30
  let barAddr := nfpPcieBarcfgC2p chip barIdx.toUInt32
  match chip with
  | .nfp3200 => barAddr.toUInt64
  | .nfp6000 => isl.toUInt64 <<< 8 + barAddr.toUInt64

/-- The value `pcie_c2p_barcfg` writes. Every caller passes a constant `req_id`. -/
def c2pValue (chip : Chip) (addrHi addrLo : UInt32) (reqId : UInt8) : UInt32 :=
  let tmp :=
    match chip with
    | .nfp3200 => dblShf addrHi addrLo 29
    | .nfp6000 => addrHi >>> 3
  let tmp := tmp &&& nfpPcieBarcfgC2pAddrMsk chip
  if reqId ≠ 0 then
    tmp ||| nfpPcieBarcfgC2pAriEnable chip ||| nfpPcieBarcfgC2pAri chip reqId.toUInt32
  else
    tmp

def pcieC2pBarcfg (chip : Chip) (pcieIsl : UInt32) (barIdx : UInt8) (addrHi addrLo : UInt32)
    (reqId : UInt8) (bars : BarFile) : BarFile :=
  Function.update bars (c2pRegister chip pcieIsl barIdx) (c2pValue chip addrHi addrLo reqId)

/-- A PCIe command on the CPP bus: its 40-bit address and the 5-bit length override. -/
structure CppCommand where
  addr : UInt64
  length : UInt32
  deriving DecidableEq, Repr

/-- The override counts 32-bit words, less one. -/
def CppCommand.bytes (command : CppCommand) : Nat :=
  4 * (command.length.toNat + 1)

def pcieC2pCmd (chip : Chip) (isl : UInt32) (barIdx : UInt8) (addrHi addrLo size : UInt32)
    (sync : Sync) : CppCommand :=
  let count := size >>> 2
  let length := (count - 1) &&& 0x1f
  match chip with
  | .nfp3200 =>
      let addr := (addrLo &&& (0x1fffffff : UInt32)) ||| (barIdx.toUInt32 <<< 29)
      { addr := addr.toUInt64, length }
  | .nfp6000 =>
      let addr :=
        (isl <<< 30) ||| ((barIdx.toUInt32 &&& (0x7 : UInt32)) <<< 27) |||
          ((addrHi &&& (0x7 : UInt32)) <<< 24)
      -- only the `sig_done` form uses the address built here
      let upper := if sync = .sigDone then addr else addrHi
      { addr := upper.toUInt64 <<< 8 + addrLo.toUInt64, length }

/-- Where the chip sends a command: the BAR selected by the top bits of the CPP address gives
the top bits of the host address. -/
def hostOf (chip : Chip) (bars : BarFile) (addr : UInt64) : UInt64 :=
  match chip with
  | .nfp3200 =>
      let barIdx := (addr >>> 29).toUInt8 &&& 0x7
      let window := bars (c2pRegister chip 0 barIdx) &&& nfpPcieBarcfgC2pAddrMsk chip
      (addr &&& (0x1fffffff : UInt64)) ||| window.toUInt64 <<< 29
  | .nfp6000 =>
      let isl := (addr >>> 38).toUInt32 &&& 0x3
      let barIdx := (addr >>> 35).toUInt8 &&& 0x7
      let window := bars (c2pRegister chip isl barIdx) &&& nfpPcieBarcfgC2pAddrMsk chip
      (addr &&& (0x7ffffffff : UInt64)) ||| window.toUInt64 <<< 35

/-- The host addresses behind one BAR setting are those with the same upper part. -/
def windowBits : Chip → Nat
  | .nfp3200 => 29
  | .nfp6000 => 35

def regionBits : Chip → Nat
  | .nfp3200 => 19
  | .nfp6000 => 21

section Spec

variable {chip : Chip} {bars : BarFile} {addrHi addrLo size : UInt32}

theorem c2pValue_toNat :
    (c2pValue chip addrHi addrLo 0).toNat =
      (Words.join addrHi addrLo).toNat / 2 ^ windowBits chip % 2 ^ regionBits chip := by
  have loBound := addrLo.toNat_lt
  have hiBound := addrHi.toNat_lt
  cases chip with
  | nfp3200 =>
      have shift : (29 : UInt64).toNat = 29 := rfl
      simp only [c2pValue, dblShf, ne_eq, not_true_eq_false, if_false, nfpPcieBarcfgC2pAddrMsk]
      rw [Words.toNat_and_mask32 _ _ 19 rfl, UInt64.toNat_toUInt32,
        Words.toNat_shiftRight64 _ _ (by decide), shift]
      simp only [windowBits, regionBits]
      omega
  | nfp6000 =>
      have shift : (3 : UInt32).toNat = 3 := rfl
      simp only [c2pValue, ne_eq, not_true_eq_false, if_false, nfpPcieBarcfgC2pAddrMsk]
      rw [Words.toNat_and_mask32 _ _ 21 rfl, Words.toNat_shiftRight32 _ _ (by decide), shift,
        Words.toNat_join]
      simp only [windowBits, regionBits]
      omega

theorem upperWord_toNat {isl barIdx : UInt32} (high : UInt32) (islBound : isl.toNat < 4)
    (barBound : barIdx.toNat < 8) :
    ((isl <<< 30) ||| ((barIdx &&& (0x7 : UInt32)) <<< 27) |||
        ((high &&& (0x7 : UInt32)) <<< 24)).toNat =
      isl.toNat * 2 ^ 30 + barIdx.toNat * 2 ^ 27 + high.toNat % 8 * 2 ^ 24 := by
  have islShift : (30 : UInt32).toNat = 30 := rfl
  have barShift : (27 : UInt32).toNat = 27 := rfl
  have highShift : (24 : UInt32).toNat = 24 := rfl
  have islField : (isl <<< 30).toNat = isl.toNat * 2 ^ 30 := by
    rw [Words.toNat_shiftLeft32 _ _ (by decide), islShift]
    omega
  have barField : ((barIdx &&& (0x7 : UInt32)) <<< 27).toNat = barIdx.toNat * 2 ^ 27 := by
    rw [Words.toNat_shiftLeft32 _ _ (by decide), barShift, Words.toNat_and_mask32 _ _ 3 rfl]
    omega
  have highField : ((high &&& (0x7 : UInt32)) <<< 24).toNat = high.toNat % 8 * 2 ^ 24 := by
    rw [Words.toNat_shiftLeft32 _ _ (by decide), highShift, Words.toNat_and_mask32 _ _ 3 rfl]
    omega
  have islBar : isl.toNat * 2 ^ 30 ||| barIdx.toNat * 2 ^ 27 =
      (barIdx.toNat + isl.toNat * 8) * 2 ^ 27 := by
    rw [Nat.or_comm, Words.or_shifted _ _ 30 (by omega)]
    omega
  rw [UInt32.toNat_or, UInt32.toNat_or, islField, barField, highField, islBar, Nat.or_comm,
    Words.or_shifted _ _ 27 (by omega)]
  omega

theorem pcieC2pCmd_addr {isl : UInt32} {barIdx : UInt8} (islBound : isl.toNat < 4)
    (barBound : barIdx.toNat < 8) :
    (pcieC2pCmd chip isl barIdx addrHi addrLo size .sigDone).addr.toNat =
      (match chip with
        | .nfp3200 => barIdx.toNat
        | .nfp6000 => isl.toNat * 8 + barIdx.toNat) * 2 ^ windowBits chip +
      (Words.join addrHi addrLo).toNat % 2 ^ windowBits chip := by
  have loBound := addrLo.toNat_lt
  have barWord : barIdx.toUInt32.toNat = barIdx.toNat := UInt8.toNat_toUInt32 _
  cases chip with
  | nfp3200 =>
      have shift : (29 : UInt32).toNat = 29 := rfl
      simp only [pcieC2pCmd, windowBits, UInt32.toNat_toUInt64, UInt32.toNat_or, Words.toNat_join]
      rw [Words.toNat_and_mask32 _ _ 29 rfl, Words.toNat_shiftLeft32 _ _ (by decide), shift,
        barWord, Nat.mod_eq_of_lt (by omega : barIdx.toNat * 2 ^ 29 < 2 ^ 32),
        Words.or_shifted _ _ 29 (Nat.mod_lt _ (by decide))]
      omega
  | nfp6000 =>
      have shift : (8 : UInt64).toNat = 8 := rfl
      have upper := upperWord_toNat addrHi islBound (barWord ▸ barBound)
      rw [barWord] at upper
      simp only [pcieC2pCmd, windowBits, if_true, UInt64.toNat_add, UInt32.toNat_toUInt64,
        Words.toNat_join]
      rw [Words.toNat_shiftLeft64 _ _ (by decide), shift, UInt32.toNat_toUInt64, upper]
      omega

theorem pcieC2pCmd_bytes (chip : Chip) (isl : UInt32) (barIdx : UInt8) (addrHi addrLo size : UInt32)
    (sync : Sync) :
    (pcieC2pCmd chip isl barIdx addrHi addrLo size sync).bytes =
      if size.toNat < 4 then 128 else 4 * ((size.toNat / 4 - 1) % 32 + 1) := by
  have words : (size >>> 2).toNat = size.toNat / 4 := Words.toNat_shiftRight32 _ _ (by decide)
  have bound := size.toNat_lt
  have one : (1 : UInt32).toNat = 1 := rfl
  have length : (((size >>> 2) - 1) &&& (0x1f : UInt32)).toNat =
      (2 ^ 32 - 1 + size.toNat / 4) % 2 ^ 32 % 32 := by
    rw [Words.toNat_and_mask32 _ _ 5 rfl, UInt32.toNat_sub, words, one]
    rfl
  cases chip <;> simp only [pcieC2pCmd, CppCommand.bytes, length] <;> split <;> omega

variable (chip) in
theorem masked_window (window : UInt32) :
    (window &&& nfpPcieBarcfgC2pAddrMsk chip).toNat = window.toNat % 2 ^ regionBits chip := by
  cases chip with
  | nfp3200 => exact Words.toNat_and_mask32 _ _ 19 rfl
  | nfp6000 => exact Words.toNat_and_mask32 _ _ 21 rfl

theorem selected_bar {addr : UInt64} {barIdx : UInt8} {shift : UInt64} (small : shift.toNat < 64)
    (field : addr.toNat / 2 ^ shift.toNat % 8 = barIdx.toNat) :
    (addr >>> shift).toUInt8 &&& 0x7 = barIdx := by
  have mask : (0x7 : UInt8).toNat = 2 ^ 3 - 1 := rfl
  apply UInt8.toNat_inj.mp
  rw [UInt8.toNat_and, mask, Nat.and_two_pow_sub_one_eq_mod, UInt64.toNat_toUInt8,
    Words.toNat_shiftRight64 _ _ small]
  omega

theorem placed_window (addr mask shift : UInt64) (window : UInt32) {bits : Nat}
    (isMask : mask.toNat = 2 ^ bits - 1) (isShift : shift.toNat = bits)
    (room : window.toNat * 2 ^ bits < 2 ^ 64) (small : bits < 64) :
    ((addr &&& mask) ||| window.toUInt64 <<< shift).toNat =
      window.toNat * 2 ^ bits + addr.toNat % 2 ^ bits := by
  have low := Words.toNat_and_mask64 addr mask bits isMask
  rw [Words.toNat_splice, low, UInt32.toNat_toUInt64, isShift, Nat.add_comm]
  · rw [isShift]
    exact small
  · rw [low, isShift]
    exact Nat.mod_lt _ (Nat.two_pow_pos bits)
  · rw [UInt32.toNat_toUInt64, isShift]
    exact room

theorem hostOf_toNat {isl : UInt32} {barIdx : UInt8} (islBound : isl.toNat < 4)
    (barBound : barIdx.toNat < 8) :
    (hostOf chip bars (pcieC2pCmd chip isl barIdx addrHi addrLo size .sigDone).addr).toNat =
      (bars (c2pRegister chip isl barIdx)).toNat % 2 ^ regionBits chip * 2 ^ windowBits chip +
        (Words.join addrHi addrLo).toNat % 2 ^ windowBits chip := by
  have command : (pcieC2pCmd chip isl barIdx addrHi addrLo size .sigDone).addr.toNat = _ :=
    pcieC2pCmd_addr islBound barBound
  generalize (pcieC2pCmd chip isl barIdx addrHi addrLo size .sigDone).addr = addr at command
  have window := masked_window chip (bars (c2pRegister chip isl barIdx))
  cases chip with
  | nfp3200 =>
      have shift : (29 : UInt64).toNat = 29 := rfl
      have bar : (addr >>> 29).toUInt8 &&& 0x7 = barIdx := by
        apply selected_bar (by decide)
        simp only [windowBits] at command
        rw [shift]
        omega
      have island : c2pRegister .nfp3200 0 barIdx = c2pRegister .nfp3200 isl barIdx := rfl
      simp only [hostOf, bar, island]
      simp only [windowBits, regionBits] at command window ⊢
      rw [placed_window addr 0x1fffffff 29 _ rfl shift (by rw [window]; omega) (by decide), window]
      omega
  | nfp6000 =>
      have shift : (35 : UInt64).toNat = 35 := rfl
      have bar : (addr >>> 35).toUInt8 &&& 0x7 = barIdx := by
        apply selected_bar (by decide)
        simp only [windowBits] at command
        rw [shift]
        omega
      have island : (addr >>> 38).toUInt32 &&& 0x3 = isl := by
        have islShift : (38 : UInt64).toNat = 38 := rfl
        simp only [windowBits] at command
        apply UInt32.toNat_inj.mp
        rw [Words.toNat_and_mask32 _ _ 2 rfl, UInt64.toNat_toUInt32,
          Words.toNat_shiftRight64 _ _ (by decide), islShift]
        omega
      simp only [hostOf, bar, island]
      simp only [windowBits, regionBits] at command window ⊢
      rw [placed_window addr 0x7ffffffff 35 _ rfl shift (by rw [window]; omega) (by decide), window]
      omega

variable (chip) in
theorem ari_above (reqId : UInt8) :
    (nfpPcieBarcfgC2pAriEnable chip).toNat % 2 ^ regionBits chip = 0 ∧
      (nfpPcieBarcfgC2pAri chip reqId.toUInt32).toNat % 2 ^ regionBits chip = 0 := by
  have small := reqId.toNat_lt
  have word : reqId.toUInt32.toNat = reqId.toNat := UInt8.toNat_toUInt32 _
  cases chip with
  | nfp3200 =>
      have shift : (20 : UInt32).toNat = 20 := rfl
      refine ⟨rfl, ?_⟩
      simp only [nfpPcieBarcfgC2pAri, regionBits]
      rw [Words.toNat_shiftLeft32 _ _ (by decide), shift, Words.toNat_and_mask32 _ _ 8 rfl, word]
      omega
  | nfp6000 =>
      have shift : (21 : UInt32).toNat = 21 := rfl
      refine ⟨rfl, ?_⟩
      simp only [nfpPcieBarcfgC2pAri, regionBits]
      rw [Words.toNat_shiftLeft32 _ _ (by decide), shift, Words.toNat_and_mask32 _ _ 8 rfl, word]
      omega

/-- The requester id stays out of the address part of a BAR. -/
theorem c2pValue_window (reqId : UInt8) :
    (c2pValue chip addrHi addrLo reqId).toNat % 2 ^ regionBits chip =
      (Words.join addrHi addrLo).toNat / 2 ^ windowBits chip % 2 ^ regionBits chip := by
  have plain : (c2pValue chip addrHi addrLo 0).toNat = _ := c2pValue_toNat
  obtain ⟨enable, ari⟩ := ari_above chip reqId
  by_cases unset : reqId = 0
  · rw [unset, plain, Nat.mod_mod]
  · have value : c2pValue chip addrHi addrLo reqId =
        c2pValue chip addrHi addrLo 0 ||| nfpPcieBarcfgC2pAriEnable chip |||
          nfpPcieBarcfgC2pAri chip reqId.toUInt32 := by
      simp only [c2pValue, ne_eq, unset, not_true_eq_false, not_false_eq_true, if_true, if_false]
    rw [value, UInt32.toNat_or, UInt32.toNat_or, Nat.or_mod_two_pow, Nat.or_mod_two_pow, enable,
      ari, Nat.or_zero, Nat.or_zero, plain, Nat.mod_mod]

theorem hostOf_pcieC2pBarcfg {isl : UInt32} {barIdx reqId : UInt8} {setHi setLo : UInt32}
    (islBound : isl.toNat < 4) (barBound : barIdx.toNat < 8)
    (window : (Words.join setHi setLo).toNat / 2 ^ windowBits chip =
      (Words.join addrHi addrLo).toNat / 2 ^ windowBits chip)
    (reach : (Words.join addrHi addrLo).toNat < 2 ^ (windowBits chip + regionBits chip)) :
    hostOf chip (pcieC2pBarcfg chip isl barIdx setHi setLo reqId bars)
      (pcieC2pCmd chip isl barIdx addrHi addrLo size .sigDone).addr =
        Words.join addrHi addrLo := by
  apply UInt64.toNat_inj.mp
  rw [hostOf_toNat islBound barBound, pcieC2pBarcfg, Function.update_self, c2pValue_window, window]
  have region : (Words.join addrHi addrLo).toNat / 2 ^ windowBits chip < 2 ^ regionBits chip := by
    rw [Nat.div_lt_iff_lt_mul (Nat.two_pow_pos _), ← Nat.pow_add, Nat.add_comm]
    exact reach
  rw [Nat.mod_eq_of_lt region]
  exact Nat.div_add_mod' _ _

end Spec

end Pciebench
