import Mathlib
import Pciebench.CppBar

/-!
The synchronisation modes of `__pcie_read` and `__pcie_write`. On each chip the macro behind them
spells the instruction out twice, once for `sig_done` and once for `ctx_swap`.
-/

namespace Pciebench

inductive PcieOp
  | read
  | write
  deriving DecidableEq, Repr

/-- A `pcie` instruction. The length in `command` overrides the `count` it is assembled with. -/
structure PcieInstruction where
  op : PcieOp
  command : CppCommand
  count : UInt32
  sync : Sync
  deriving DecidableEq, Repr

def pcieC2pInstruction (op : PcieOp) (chip : Chip) (isl : UInt32) (barIdx : UInt8)
    (addrHi addrLo size maxSize : UInt32) (sync : Sync) : PcieInstruction :=
  { op
    command := pcieC2pCmd chip isl barIdx addrHi addrLo size sync
    count :=
      match chip with
      | .nfp3200 => size >>> 2
      | .nfp6000 => maxSize >>> 2
    sync := if sync = .sigDone then .sigDone else .ctxSwap }

def pcieRead : Chip → UInt32 → UInt8 → UInt32 → UInt32 → UInt32 → UInt32 → Sync →
    PcieInstruction :=
  pcieC2pInstruction .read

def pcieWrite : Chip → UInt32 → UInt8 → UInt32 → UInt32 → UInt32 → UInt32 → Sync →
    PcieInstruction :=
  pcieC2pInstruction .write

section Modes

variable (chip : Chip) (isl : UInt32) (barIdx : UInt8) (addrHi addrLo : UInt32)

/-- A command arrives at a host address through the BAR that was set for it, whatever the BARs
held before. -/
def ReachesHost (command : CppCommand) : Prop :=
  ∀ reqId bars, hostOf chip (pcieC2pBarcfg chip isl barIdx addrHi addrLo reqId bars)
    command.addr = Words.join addrHi addrLo

/-- Swapping the context out sends the command that `sig_done` sends, and it arrives. -/
def SyncAgrees (access : Sync → PcieInstruction) : Prop :=
  (access .ctxSwap).command = (access .sigDone).command ∧
    ReachesHost chip isl barIdx addrHi addrLo (access .ctxSwap).command

end Modes

section Agreement

variable {chip : Chip} {isl : UInt32} {barIdx : UInt8} {addrHi addrLo size : UInt32}
  (islBound : isl.toNat < 4) (barBound : barIdx.toNat < 8)

include islBound barBound

theorem reachesHost_sigDone (host : (Words.join addrHi addrLo).toNat < 2 ^ 48) :
    ReachesHost chip isl barIdx addrHi addrLo
      (pcieC2pCmd chip isl barIdx addrHi addrLo size .sigDone) := by
  intro reqId bars
  refine hostOf_pcieC2pBarcfg islBound barBound rfl ?_
  cases chip <;> simp only [windowBits, regionBits] <;> omega

variable (addrHi) in
theorem upperWord_eq_iff (high : addrHi.toNat < 2 ^ 16) :
    (isl <<< 30) ||| ((barIdx.toUInt32 &&& (0x7 : UInt32)) <<< 27) |||
        ((addrHi &&& (0x7 : UInt32)) <<< 24) = addrHi ↔
      isl = 0 ∧ barIdx = 0 ∧ addrHi = 0 := by
  have barWord : barIdx.toUInt32.toNat = barIdx.toNat := UInt8.toNat_toUInt32 _
  have upper := upperWord_toNat addrHi islBound (barWord ▸ barBound)
  rw [← UInt32.toNat_inj, upper, barWord, ← UInt32.toNat_inj, ← UInt8.toNat_inj,
    ← UInt32.toNat_inj]
  change _ ↔ isl.toNat = 0 ∧ barIdx.toNat = 0 ∧ addrHi.toNat = 0
  omega

omit islBound barBound in
theorem cppAddr_inj {upper other : UInt32} :
    upper.toUInt64 <<< 8 + addrLo.toUInt64 = other.toUInt64 <<< 8 + addrLo.toUInt64 ↔
      upper = other := by
  have shift : (8 : UInt64).toNat = 8 := rfl
  have upperBound := upper.toNat_lt
  have otherBound := other.toNat_lt
  constructor
  · intro same
    have shifted := congrArg UInt64.toNat ((UInt64.add_left_inj _).mp same)
    rw [Words.toNat_shiftLeft64 _ _ (by decide), Words.toNat_shiftLeft64 _ _ (by decide), shift,
      UInt32.toNat_toUInt64, UInt32.toNat_toUInt64] at shifted
    apply UInt32.toNat_inj.mp
    omega
  · rintro rfl
    rfl

variable (size) in
/-- On the NFP-6000 the `ctx_swap` form sends `addr_hi` where the address word belongs. -/
theorem ctxSwap_eq_iff (host : (Words.join addrHi addrLo).toNat < 2 ^ 48) :
    pcieC2pCmd chip isl barIdx addrHi addrLo size .ctxSwap =
        pcieC2pCmd chip isl barIdx addrHi addrLo size .sigDone ↔
      chip = .nfp3200 ∨
        isl = 0 ∧ barIdx = 0 ∧ (Words.join addrHi addrLo).toNat < 2 ^ 32 := by
  cases chip with
  | nfp3200 => simp [pcieC2pCmd]
  | nfp6000 =>
      have loBound := addrLo.toNat_lt
      rw [Words.toNat_join] at host ⊢
      have low : addrHi.toNat * 2 ^ 32 + addrLo.toNat < 2 ^ 32 ↔ addrHi = 0 := by
        rw [← UInt32.toNat_inj]
        change _ ↔ addrHi.toNat = 0
        omega
      have upper := upperWord_eq_iff addrHi islBound barBound (by omega)
      rw [low, ← upper]
      simp only [pcieC2pCmd, CppCommand.mk.injEq, and_true, if_true, reduceCtorEq, if_false,
        false_or, cppAddr_inj]
      exact eq_comm

end Agreement

/-- The modes agree on the NFP-3200, and on the NFP-6000 only where the address word is zero. -/
theorem pcieSync_address (chip : Chip) {isl : UInt32} {barIdx : UInt8} {addrHi addrLo : UInt32}
    (size maxSize : UInt32) (islBound : isl.toNat < 4) (barBound : barIdx.toNat < 8)
    (host : (Words.join addrHi addrLo).toNat < 2 ^ 48) :
    (SyncAgrees chip isl barIdx addrHi addrLo
        (pcieRead chip isl barIdx addrHi addrLo size maxSize) ↔
      chip = .nfp3200 ∨
        isl = 0 ∧ barIdx = 0 ∧ (Words.join addrHi addrLo).toNat < 2 ^ 32) ∧
    (SyncAgrees chip isl barIdx addrHi addrLo
        (pcieWrite chip isl barIdx addrHi addrLo size maxSize) ↔
      chip = .nfp3200 ∨
        isl = 0 ∧ barIdx = 0 ∧ (Words.join addrHi addrLo).toNat < 2 ^ 32) := by
  have both (op : PcieOp) : SyncAgrees chip isl barIdx addrHi addrLo
        (pcieC2pInstruction op chip isl barIdx addrHi addrLo size maxSize) ↔
      chip = .nfp3200 ∨
        isl = 0 ∧ barIdx = 0 ∧ (Words.join addrHi addrLo).toNat < 2 ^ 32 := by
    rw [← ctxSwap_eq_iff size islBound barBound host]
    constructor
    · intro agrees
      exact agrees.1
    · intro same
      refine ⟨same, ?_⟩
      change ReachesHost chip isl barIdx addrHi addrLo
        (pcieC2pCmd chip isl barIdx addrHi addrLo size .ctxSwap)
      rw [same]
      exact reachesHost_sigDone islBound barBound host
  exact ⟨both .read, both .write⟩

theorem pcieSync_address_low :
    SyncAgrees .nfp6000 0 0 0 0xfffff000 (pcieRead .nfp6000 0 0 0 0xfffff000 64 64) :=
  (pcieSync_address .nfp6000 64 64 (by decide) (by decide) (by decide)).1.mpr
    (.inr ⟨rfl, rfl, by decide⟩)

/-- From 4 GB up the high address bits are lost, on island 0 through BAR 0 already. -/
theorem pcieSync_address_drift :
    ¬ SyncAgrees .nfp6000 0 0 1 0 (pcieRead .nfp6000 0 0 1 0 64 64) := by
  rintro ⟨same, _⟩
  revert same
  decide

end Pciebench
