import Mathlib
import Pciebench.DmaCmd

/-!
Reading an NFP-6000 descriptor back. `pcie_dma_setup` writes the mode word with 17 bits from bit
14 up, one more than the declared `dma_mode` has; the last is the low bit of `mode_sel`.
-/

namespace Pciebench

/-! The completion target, as packed into the mode bits. -/

def modeSigno : BitField where
  low := 14
  width := 4

def modeCtx : BitField where
  low := 18
  width := 3

def modeIsland : BitField where
  low := 21
  width := 6

def modeMe : BitField where
  low := 27
  width := 4

structure DmaTarget where
  me : UInt32
  island : UInt32
  ctx : UInt32
  signo : UInt32
  deriving DecidableEq, Repr

structure DmaDescriptor where
  target : DmaTarget
  modeSelTop : UInt32
  token : UInt32
  cfgIndex : UInt32
  cppAddr : UInt64
  hostAddr : UInt64
  bytes : Nat
  rid : UInt32
  ridOverride : UInt32
  transClass : UInt32
  deriving DecidableEq, Repr

/-- What the DMA engine of the NFP-6000 makes of the four words. -/
def DmaCmd.decode (cmd : DmaCmd) : DmaDescriptor where
  target := {
    me := modeMe.load cmd.raw1
    island := modeIsland.load cmd.raw1
    ctx := modeCtx.load cmd.raw1
    signo := modeSigno.load cmd.raw1 }
  modeSelTop := modeSelTop.load cmd.raw1
  token := cppToken.load cmd.raw1
  cfgIndex := dmaCfgIndex.load cmd.raw1
  cppAddr := Words.join (cppAddrHi.load cmd.raw1) cmd.raw0
  hostAddr := cmd.hostAddr
  bytes := (dmaLength.load cmd.raw3).toNat + 1
  rid := dmaRid.load cmd.raw3
  ridOverride := dmaRidOverride.load cmd.raw3
  transClass := dmaTransClass.load cmd.raw3

/-- The context that set a descriptor up. -/
def DmaContext.target (context : DmaContext) : DmaTarget where
  me := context.meid &&& (0xf : UInt32)
  island := (context.meid >>> 4) &&& (0x3f : UInt32)
  ctx := context.ctx
  signo := context.signo

structure DmaContext.InRange (context : DmaContext) : Prop where
  ctx : context.ctx.toNat < 8
  signo : context.signo.toNat < 16

section Mode

variable {context : DmaContext}

theorem target_me : context.target.me.toNat = context.meid.toNat % 2 ^ 4 :=
  Words.toNat_and_mask32 _ _ 4 rfl

theorem target_island : context.target.island.toNat = context.meid.toNat / 2 ^ 4 % 2 ^ 6 := by
  have shift : (4 : UInt32).toNat = 4 := rfl
  simp only [DmaContext.target]
  rw [Words.toNat_and_mask32 _ _ 6 rfl, Words.toNat_shiftRight32 _ _ (by decide), shift]

theorem target_bounds : context.target.me.toNat < 2 ^ 4 ∧ context.target.island.toNat < 2 ^ 6 := by
  rw [target_me, target_island]
  exact ⟨Nat.mod_lt _ (by decide), Nat.mod_lt _ (by decide)⟩

theorem mode_toNat (inRange : context.InRange) :
    (((context.meid &&& (0xf : UInt32)) <<< 13) |||
        (((context.meid >>> 4) &&& (0x3f : UInt32)) <<< 7) |||
        ((context.ctx &&& (0x7 : UInt32)) <<< 4) ||| context.signo).toNat =
      context.target.me.toNat * 2 ^ 13 + context.target.island.toNat * 2 ^ 7 +
        context.ctx.toNat * 2 ^ 4 + context.signo.toNat := by
  have ctxBound := inRange.ctx
  have signoBound := inRange.signo
  obtain ⟨meBound, islandBound⟩ := @target_bounds context
  have ctxField : (context.ctx &&& (0x7 : UInt32)).toNat = context.ctx.toNat := by
    rw [Words.toNat_and_mask32 _ _ 3 rfl]
    omega
  have ctxSmall : (context.ctx &&& (0x7 : UInt32)).toNat < 2 ^ 3 := by
    rw [ctxField]
    exact ctxBound
  have meIsland : context.target.me.toNat * 2 ^ 13 ||| context.target.island.toNat * 2 ^ 7 =
      (context.target.island.toNat + context.target.me.toNat * 2 ^ 6) * 2 ^ 7 := by
    rw [Nat.or_comm, Words.or_shifted _ _ 13 (by omega)]
    omega
  have upper : (context.target.island.toNat + context.target.me.toNat * 2 ^ 6) * 2 ^ 7 |||
        context.ctx.toNat * 2 ^ 4 =
      (context.ctx.toNat +
        (context.target.island.toNat + context.target.me.toNat * 2 ^ 6) * 2 ^ 3) * 2 ^ 4 := by
    rw [Nat.or_comm, Words.or_shifted _ _ 7 (by omega)]
    omega
  change ((context.target.me <<< 13) ||| (context.target.island <<< 7) |||
    ((context.ctx &&& (0x7 : UInt32)) <<< 4) ||| context.signo).toNat = _
  rw [UInt32.toNat_or, UInt32.toNat_or, UInt32.toNat_or,
    Words.toNat_shiftLeft32_field 13 meBound rfl (by decide),
    Words.toNat_shiftLeft32_field 7 islandBound rfl (by decide),
    Words.toNat_shiftLeft32_field 4 ctxSmall rfl (by decide), ctxField, meIsland, upper,
    Nat.or_comm, Words.or_shifted _ _ 4 (by omega)]
  omega

theorem setup_raw1 (inRange : context.InRange) (len dOff : UInt32) :
    (pcieDmaSetup .nfp6000 context len dOff).raw1.toNat =
      context.target.me.toNat * 2 ^ 27 + context.target.island.toNat * 2 ^ 21 +
        context.ctx.toNat * 2 ^ 18 + context.signo.toNat * 2 ^ 14 := by
  have mode := mode_toNat inRange
  have ctxBound := inRange.ctx
  have signoBound := inRange.signo
  obtain ⟨meBound, islandBound⟩ := @target_bounds context
  have zero : (0 : UInt32).toNat = 0 := rfl
  simp only [pcieDmaSetup]
  generalize (((context.meid &&& (0xf : UInt32)) <<< 13) |||
        (((context.meid >>> 4) &&& (0x3f : UInt32)) <<< 7) |||
        ((context.ctx &&& (0x7 : UInt32)) <<< 4) ||| context.signo) = word at mode ⊢
  have shifted : (word <<< 14).toNat = word.toNat * 2 ^ 14 :=
    Words.toNat_shiftLeft32_field 14 (show word.toNat < 2 ^ 17 by omega) rfl (by decide)
  rw [BitField.store_toNat, BitField.store_toNat, UInt32.zero_and, UInt32.or_zero, shifted, zero]
  simp only [cppAddrHi, cppToken]
  omega

end Mode

section Decode

variable {context : DmaContext} (inRange : context.InRange) (len dOff : UInt32)

include inRange

theorem setup_target :
    (pcieDmaSetup .nfp6000 context len dOff).decode.target = context.target := by
  have raw1 := setup_raw1 inRange len dOff
  have ctxBound := inRange.ctx
  have signoBound := inRange.signo
  obtain ⟨meBound, islandBound⟩ := @target_bounds context
  have me : modeMe.load (pcieDmaSetup .nfp6000 context len dOff).raw1 = context.target.me := by
    apply BitField.load_eq
    simp only [modeMe]
    omega
  have island : modeIsland.load (pcieDmaSetup .nfp6000 context len dOff).raw1 =
      context.target.island := by
    apply BitField.load_eq
    simp only [modeIsland]
    omega
  have ctx : modeCtx.load (pcieDmaSetup .nfp6000 context len dOff).raw1 = context.ctx := by
    apply BitField.load_eq
    simp only [modeCtx]
    omega
  have signo : modeSigno.load (pcieDmaSetup .nfp6000 context len dOff).raw1 = context.signo := by
    apply BitField.load_eq
    simp only [modeSigno]
    omega
  rw [DmaCmd.decode, me, island, ctx, signo]
  rfl

theorem setup_outside {field : BitField}
    (outside : field.low + field.width ≤ 14 ∨ 31 ≤ field.low) :
    field.load (pcieDmaSetup .nfp6000 context len dOff).raw1 = 0 := by
  have raw1 := setup_raw1 inRange len dOff
  have ctxBound := inRange.ctx
  have signoBound := inRange.signo
  obtain ⟨meBound, islandBound⟩ := @target_bounds context
  apply BitField.load_eq
  rcases outside with below | above
  · have aligned : 2 ^ 14 ∣ (pcieDmaSetup .nfp6000 context len dOff).raw1.toNat := by omega
    have clear := Nat.mod_eq_zero_of_dvd (Nat.dvd_trans (Nat.pow_dvd_pow 2 below) aligned)
    rw [Nat.pow_add] at clear
    rw [← Nat.mod_mul_right_div_self, clear, Nat.zero_div]
    rfl
  · have narrow : 2 ^ 31 ≤ 2 ^ field.low := Nat.pow_le_pow_right (by decide) above
    rw [Nat.div_eq_of_lt (by omega), Nat.zero_mod]
    rfl

omit inRange in
theorem setup_raw3 {field : BitField} (outside : field.low + field.width ≤ 20) :
    field.load (pcieDmaSetup .nfp6000 context len dOff).raw3 = 0 := by
  simp only [pcieDmaSetup]
  rw [BitField.load_store_below _ _ _ outside]
  apply BitField.load_eq
  exact (congrArg (· % 2 ^ field.width) (Nat.zero_div _)).trans (Nat.zero_mod _)

omit inRange in
theorem setup_bytes (some : 1 ≤ len.toNat) (fits : len.toNat ≤ 4096) :
    (dmaLength.load (pcieDmaSetup .nfp6000 context len dOff).raw3).toNat + 1 = len.toNat := by
  have one : (1 : UInt32).toNat = 1 := rfl
  have less : (len - 1).toNat = len.toNat - 1 :=
    UInt32.toNat_sub_of_le _ _ (UInt32.le_iff_toNat_le.mpr some)
  simp only [pcieDmaSetup]
  rw [BitField.load_store, less]
  simp only [dmaLength]
  omega

end Decode

section Patch

variable (cmd : DmaCmd) {addrHi addrLo : UInt32}

theorem decode_patch (low : (Words.join addrHi addrLo).toNat < 2 ^ 40) :
    (cmd.patch addrHi addrLo).decode =
      { cmd.decode with hostAddr := Words.join addrHi addrLo } := by
  have above {field : BitField} (apart : 8 ≤ field.low) :
      field.load (cmd.patch addrHi addrLo).raw3 = field.load cmd.raw3 :=
    BitField.load_store_above pcieAddrHi cmd.raw3 addrHi apart
  have host : (cmd.patch addrHi addrLo).hostAddr = Words.join addrHi addrLo := by
    apply UInt64.toNat_inj.mp
    rw [DmaCmd.patch_hostAddr, Nat.mod_eq_of_lt low]
  simp only [DmaCmd.decode, above (show 8 ≤ dmaLength.low by decide),
    above (show 8 ≤ dmaRid.low by decide), above (show 8 ≤ dmaRidOverride.low by decide),
    above (show 8 ≤ dmaTransClass.low by decide), host]
  rfl

end Patch

def DmaContext.descriptor (context : DmaContext) (len dOff addrHi addrLo : UInt32) :
    DmaDescriptor where
  target := context.target
  modeSelTop := 0
  token := 0
  cfgIndex := 0
  cppAddr := UInt64.ofNat (context.nfpBuf.toNat + dOff.toNat)
  hostAddr := Words.join addrHi addrLo
  bytes := len.toNat
  rid := 0
  ridOverride := 0
  transClass := 0

section RoundTrip

variable {context : DmaContext} (inRange : context.InRange) {len dOff : UInt32}
  (some : 1 ≤ len.toNat) (fits : len.toNat ≤ 4096)
  (buffer : context.nfpBuf.toNat + dOff.toNat < 2 ^ 32)

include inRange some fits buffer

theorem setup_decode :
    (pcieDmaSetup .nfp6000 context len dOff).decode = context.descriptor len dOff 0 0 := by
  have high : cppAddrHi.load (pcieDmaSetup .nfp6000 context len dOff).raw1 = 0 :=
    setup_outside inRange len dOff (.inl (by decide))
  have hostHigh : pcieAddrHi.load (pcieDmaSetup .nfp6000 context len dOff).raw3 = 0 :=
    setup_raw3 len dOff (by decide)
  have cppAddr : Words.join 0 (context.nfpBuf + dOff) =
      UInt64.ofNat (context.nfpBuf.toNat + dOff.toNat) := by
    have zero : (0 : UInt32).toNat = 0 := rfl
    apply UInt64.toNat_inj.mp
    rw [Words.toNat_join, UInt32.toNat_add, UInt64.toNat_ofNat', zero]
    omega
  simp only [DmaContext.descriptor, DmaCmd.decode, DmaDescriptor.mk.injEq]
  refine ⟨setup_target inRange len dOff, ?_, ?_, ?_, ?_, ?_, ?_, ?_, ?_, ?_⟩
  · exact setup_outside inRange len dOff (.inr (by decide))
  · exact setup_outside inRange len dOff (.inl (by decide))
  · exact setup_outside inRange len dOff (.inl (by decide))
  · rw [high]
    exact cppAddr
  · rw [DmaCmd.hostAddr, hostHigh]
    rfl
  · exact setup_bytes len dOff some fits
  · exact setup_raw3 len dOff (by decide)
  · exact setup_raw3 len dOff (by decide)
  · exact setup_raw3 len dOff (by decide)

theorem patched_decode {addrHi addrLo : UInt32} (low : (Words.join addrHi addrLo).toNat < 2 ^ 40) :
    ((pcieDmaSetup .nfp6000 context len dOff).patch addrHi addrLo).decode =
      context.descriptor len dOff addrHi addrLo := by
  rw [decode_patch _ low, setup_decode inRange some fits buffer]
  rfl

end RoundTrip

/-- The number of an ME in its island and in the chip, and the context on it. -/
def DmaTarget.thread (target : DmaTarget) : UInt32 × UInt32 × UInt32 :=
  (target.island, target.me, target.ctx)

theorem target_thread {context other : DmaContext}
    (same : context.target.thread = other.target.thread) :
    context.meid.toNat % 2 ^ 10 = other.meid.toNat % 2 ^ 10 ∧ context.ctx = other.ctx := by
  simp only [DmaTarget.thread, Prod.mk.injEq] at same
  obtain ⟨islands, mes, ctxs⟩ := same
  refine ⟨?_, ctxs⟩
  have island := congrArg UInt32.toNat islands
  have me := congrArg UInt32.toNat mes
  rw [target_island, target_island] at island
  rw [target_me, target_me] at me
  omega

/-- A descriptor gives back what went into it, and patching in another host address changes
nothing else; contexts on different MEs or with different numbers get different completions. -/
theorem dmaCmd_roundTrip (context : DmaContext) (inRange : context.InRange)
    (len dOff addrHi addrLo : UInt32) (some : 1 ≤ len.toNat) (fits : len.toNat ≤ 4096)
    (buffer : context.nfpBuf.toNat + dOff.toNat < 2 ^ 32)
    (low : (Words.join addrHi addrLo).toNat < 2 ^ 40) :
    ((pcieDmaSetup .nfp6000 context len dOff).patch addrHi addrLo).decode =
        context.descriptor len dOff addrHi addrLo ∧
      (∀ nextHi nextLo, (Words.join nextHi nextLo).toNat < 2 ^ 40 →
        (((pcieDmaSetup .nfp6000 context len dOff).patch addrHi addrLo).patch nextHi
            nextLo).decode =
          { ((pcieDmaSetup .nfp6000 context len dOff).patch addrHi addrLo).decode with
            hostAddr := Words.join nextHi nextLo }) ∧
      ∀ other : DmaContext, other.InRange →
        context.meid.toNat % 2 ^ 10 ≠ other.meid.toNat % 2 ^ 10 ∨ context.ctx ≠ other.ctx →
        ∀ otherLen otherOff otherHi otherLo,
          ((pcieDmaSetup .nfp6000 context len dOff).patch addrHi addrLo).decode.target.thread ≠
            ((pcieDmaSetup .nfp6000 other otherLen otherOff).patch otherHi
              otherLo).decode.target.thread := by
  refine ⟨patched_decode inRange some fits buffer low, ?_, ?_⟩
  · intro nextHi nextLo nextLow
    exact decode_patch _ nextLow
  · intro other otherRange different otherLen otherOff otherHi otherLo same
    change (pcieDmaSetup .nfp6000 context len dOff).decode.target.thread =
      (pcieDmaSetup .nfp6000 other otherLen otherOff).decode.target.thread at same
    rw [setup_target inRange, setup_target otherRange] at same
    obtain ⟨meid, ctx⟩ := target_thread same
    rcases different with meids | ctxs
    · exact meids meid
    · exact ctxs ctx

theorem dmaCmd_roundTrip_largest :
    ((pcieDmaSetup .nfp6000 ⟨0x3ff, 7, 15, 0xfffff000, 0⟩ 4096 0xfff).patch 0xff
        0xffffffff).decode =
      { target := { me := 15, island := 63, ctx := 7, signo := 15 }
        modeSelTop := 0
        token := 0
        cfgIndex := 0
        cppAddr := 0xffffffff
        hostAddr := 0xffffffffff
        bytes := 4096
        rid := 0
        ridOverride := 0
        transClass := 0 } :=
  (dmaCmd_roundTrip ⟨0x3ff, 7, 15, 0xfffff000, 0⟩ ⟨by decide, by decide⟩ 4096 0xfff 0xff
    0xffffffff (by decide) (by decide) (by decide) (by decide)).1.trans (by decide)

end Pciebench
