import Mathlib
import Pciebench.DmaCmd

/-!
Reading an NFP-3200 descriptor back. Its completion is a word of its own with five fields, one of
which nothing sets.
-/

namespace Pciebench

open BitField

def dmaWordOnly : BitField where
  low := 13
  width := 1

def dmaNoSnoop : BitField where
  low := 10
  width := 1

def dmaRelaxed : BitField where
  low := 9
  width := 1

def dmaReserved : BitField where
  low := 8
  width := 1

structure DmaCompletion where
  reserved : UInt32
  cl : UInt32
  me : UInt32
  ctx : UInt32
  signo : UInt32
  deriving DecidableEq, Repr

structure Nfp3200Descriptor where
  completion : DmaCompletion
  token : UInt32
  wordOnly : UInt32
  target64 : UInt32
  target : UInt32
  cppAddr : UInt64
  hostAddr : UInt64
  bytes : Nat
  reqId : UInt32
  overrideRid : UInt32
  noSnoop : UInt32
  relaxed : UInt32
  reserved : UInt32
  deriving DecidableEq, Repr

/-- The completion in `struct nfp_pcie_dma_cmd`, read as `union pcie_dma_completion`. -/
def DmaCmd.completion (cmd : DmaCmd) : DmaCompletion :=
  let cmpl := dmaCompletion.load cmd.raw1
  { reserved := cmplReserved.load cmpl
    cl := cmplCl.load cmpl
    me := cmplMe.load cmpl
    ctx := cmplCtx.load cmpl
    signo := cmplSigno.load cmpl }

def DmaCmd.decode3200 (cmd : DmaCmd) : Nfp3200Descriptor where
  completion := cmd.completion
  token := dmaToken.load cmd.raw1
  wordOnly := dmaWordOnly.load cmd.raw1
  target64 := cppTarget64.load cmd.raw1
  target := cppTarget.load cmd.raw1
  cppAddr := Words.join (cppAddrHi.load cmd.raw1) cmd.raw0
  hostAddr := cmd.hostAddr
  bytes := (dmaLength.load cmd.raw3).toNat
  reqId := dmaRid.load cmd.raw3
  overrideRid := dmaRidOverride.load cmd.raw3
  noSnoop := dmaNoSnoop.load cmd.raw3
  relaxed := dmaRelaxed.load cmd.raw3
  reserved := dmaReserved.load cmd.raw3

/-- The cluster and the ME that `pcie_dma_setup` makes of `__MEID`. -/
def DmaContext.completion (context : DmaContext) : DmaCompletion where
  reserved := context.reserved &&& (1 : UInt32)
  cl := (context.meid + 0x8) >>> 4
  me := (context.meid + 0x8) &&& (0xf : UInt32)
  ctx := context.ctx
  signo := context.signo

structure DmaContext.InClusters (context : DmaContext) : Prop where
  meid : context.meid.toNat + 8 < 256
  ctx : context.ctx.toNat < 8
  signo : context.signo.toNat < 16

def DmaContext.descriptor3200 (context : DmaContext) (len dOff addrHi addrLo : UInt32) :
    Nfp3200Descriptor where
  completion := context.completion
  token := 0
  wordOnly := 0
  target64 := 1
  target := 7
  cppAddr := UInt64.ofNat (context.nfpBuf.toNat + dOff.toNat)
  hostAddr := Words.join addrHi addrLo
  bytes := len.toNat
  reqId := 0
  overrideRid := 0
  noSnoop := 0
  relaxed := 0
  reserved := 0

section Fields

variable (context : DmaContext)

def cmplParts : List (BitField × UInt32) :=
  [(cmplReserved, context.reserved), (cmplCl, (context.meid + 0x8) >>> 4),
    (cmplMe, (context.meid + 0x8) &&& (0xf : UInt32)), (cmplCtx, context.ctx),
    (cmplSigno, context.signo)]

def raw1Parts (cmpl : UInt32) : List (BitField × UInt32) :=
  [(cppTarget, 7), (cppTarget64, 1), (dmaToken, 0), (dmaCompletion, cmpl), (cppAddrHi, 0)]

theorem setup_raw1Parts (len dOff : UInt32) :
    (pcieDmaSetup .nfp3200 context len dOff).raw1 =
      storeAll 0 (raw1Parts (storeAll 0 (cmplParts context))) := rfl

theorem cmplParts_apart :
    (cmplParts context).Pairwise fun part other => other.1.Apart part.1 := by
  simp only [cmplParts, List.pairwise_cons, List.forall_mem_cons, List.not_mem_nil,
    false_implies, implies_true, List.Pairwise.nil, and_true]
  decide

theorem raw1Parts_apart (cmpl : UInt32) :
    (raw1Parts cmpl).Pairwise fun part other => other.1.Apart part.1 := by
  simp only [raw1Parts, List.pairwise_cons, List.forall_mem_cons, List.not_mem_nil,
    false_implies, implies_true, List.Pairwise.nil, and_true]
  decide

variable (len dOff : UInt32)

theorem raw1_field {field : BitField} {value : UInt32}
    (member : (field, value) ∈ raw1Parts (storeAll 0 (cmplParts context))) :
    (field.load (pcieDmaSetup .nfp3200 context len dOff).raw1).toNat =
      value.toNat % 2 ^ field.width := by
  rw [setup_raw1Parts]
  exact load_storeAll (raw1Parts_apart _) member

theorem cmpl_field {field : BitField} {value : UInt32} (member : (field, value) ∈ cmplParts context)
    (inside : field.low + field.width ≤ 16) :
    (field.load (dmaCompletion.load (pcieDmaSetup .nfp3200 context len dOff).raw1)).toNat =
      value.toNat % 2 ^ field.width := by
  have low : (dmaCompletion.load (pcieDmaSetup .nfp3200 context len dOff).raw1).toNat =
      (storeAll 0 (cmplParts context)).toNat % 2 ^ 16 :=
    raw1_field context len dOff (by simp [raw1Parts])
  rw [load_low low inside]
  exact load_storeAll (cmplParts_apart context) member

end Fields

section Decode

variable {context : DmaContext} (inClusters : context.InClusters) (len dOff : UInt32)

theorem nfp3200_outside {field : BitField} (outside : field.low + field.width ≤ 20) :
    field.load (pcieDmaSetup .nfp3200 context len dOff).raw3 = 0 := by
  simp only [pcieDmaSetup]
  rw [load_store_below _ _ _ outside]
  apply load_eq
  exact (congrArg (· % 2 ^ field.width) (Nat.zero_div _)).trans (Nat.zero_mod _)

include inClusters

theorem meid_toNat : (context.meid + 0x8).toNat = context.meid.toNat + 8 := by
  have meid := inClusters.meid
  have eight : (0x8 : UInt32).toNat = 8 := rfl
  rw [UInt32.toNat_add, eight]
  exact Nat.mod_eq_of_lt (by omega)

theorem completion_cl : context.completion.cl.toNat = (context.meid.toNat + 8) / 2 ^ 4 := by
  change ((context.meid + 0x8) >>> 4).toNat = _
  rw [Words.toNat_shiftRight32 _ _ (by decide), meid_toNat inClusters]
  rfl

theorem completion_me : context.completion.me.toNat = (context.meid.toNat + 8) % 2 ^ 4 := by
  change ((context.meid + 0x8) &&& (0xf : UInt32)).toNat = _
  rw [Words.toNat_and_mask32 _ _ 4 rfl, meid_toNat inClusters]

theorem setup_completion :
    (pcieDmaSetup .nfp3200 context len dOff).completion = context.completion := by
  have meid := inClusters.meid
  have clDigits := completion_cl inClusters
  have meDigits := completion_me inClusters
  have field {field : BitField} {value : UInt32} (member : (field, value) ∈ cmplParts context)
      (inside : field.low + field.width ≤ 16) (fits : value.toNat < 2 ^ field.width) :
      field.load (dmaCompletion.load (pcieDmaSetup .nfp3200 context len dOff).raw1) = value := by
    apply UInt32.toNat_inj.mp
    rw [cmpl_field context len dOff member inside, Nat.mod_eq_of_lt fits]
  have reserved : cmplReserved.load
      (dmaCompletion.load (pcieDmaSetup .nfp3200 context len dOff).raw1) =
        context.completion.reserved := by
    apply UInt32.toNat_inj.mp
    have digit : (context.reserved &&& (1 : UInt32)).toNat = context.reserved.toNat % 2 ^ 1 :=
      Words.toNat_and_mask32 _ _ 1 rfl
    exact (cmpl_field context len dOff (List.mem_cons_self ..) (by decide)).trans digit.symm
  have cl : cmplCl.load (dmaCompletion.load (pcieDmaSetup .nfp3200 context len dOff).raw1) =
      context.completion.cl :=
    field (by simp [cmplParts, DmaContext.completion]) (by decide)
      (by rw [clDigits]; exact (Nat.div_lt_iff_lt_mul (by decide)).mpr meid)
  have me : cmplMe.load (dmaCompletion.load (pcieDmaSetup .nfp3200 context len dOff).raw1) =
      context.completion.me :=
    field (by simp [cmplParts, DmaContext.completion]) (by decide)
      (by rw [meDigits]; exact Nat.mod_lt _ (by decide))
  have ctx : cmplCtx.load (dmaCompletion.load (pcieDmaSetup .nfp3200 context len dOff).raw1) =
      context.ctx := field (by simp [cmplParts]) (by decide) inClusters.ctx
  have signo : cmplSigno.load (dmaCompletion.load (pcieDmaSetup .nfp3200 context len dOff).raw1) =
      context.signo := field (by simp [cmplParts]) (by decide) inClusters.signo
  simp only [DmaCmd.completion, reserved, cl, me, ctx, signo]
  rfl

theorem setup_decode3200 (fits : len.toNat < 4096)
    (buffer : context.nfpBuf.toNat + dOff.toNat < 2 ^ 32) :
    (pcieDmaSetup .nfp3200 context len dOff).decode3200 =
      context.descriptor3200 len dOff 0 0 := by
  have member (field : BitField) (value : UInt32)
      (listed : (field, value) ∈ raw1Parts (storeAll 0 (cmplParts context)))
      (small : value.toNat < 2 ^ field.width) :
      field.load (pcieDmaSetup .nfp3200 context len dOff).raw1 = value := by
    apply UInt32.toNat_inj.mp
    rw [raw1_field context len dOff listed, Nat.mod_eq_of_lt small]
  have wordOnly : dmaWordOnly.load (pcieDmaSetup .nfp3200 context len dOff).raw1 = 0 := by
    rw [setup_raw1Parts, load_storeAll_apart]
    · rfl
    · simp only [raw1Parts, List.forall_mem_cons, List.not_mem_nil, false_implies, implies_true,
        and_true]
      decide
  have hostHigh : pcieAddrHi.load (pcieDmaSetup .nfp3200 context len dOff).raw3 = 0 :=
    nfp3200_outside len dOff (by decide)
  have bytes : (dmaLength.load (pcieDmaSetup .nfp3200 context len dOff).raw3).toNat =
      len.toNat := by
    simp only [pcieDmaSetup]
    rw [load_store]
    exact Nat.mod_eq_of_lt fits
  have cppAddr : Words.join 0 (context.nfpBuf + dOff) =
      UInt64.ofNat (context.nfpBuf.toNat + dOff.toNat) := by
    have zero : (0 : UInt32).toNat = 0 := rfl
    apply UInt64.toNat_inj.mp
    rw [Words.toNat_join, UInt32.toNat_add, UInt64.toNat_ofNat', zero]
    omega
  simp only [DmaContext.descriptor3200, DmaCmd.decode3200, Nfp3200Descriptor.mk.injEq]
  refine ⟨setup_completion inClusters len dOff, ?_, wordOnly, ?_, ?_, ?_, ?_, bytes, ?_, ?_, ?_,
    ?_, ?_⟩
  · exact member dmaToken 0 (by simp [raw1Parts]) (by decide)
  · exact member cppTarget64 1 (by simp [raw1Parts]) (by decide)
  · exact member cppTarget 7 (by simp [raw1Parts]) (by decide)
  · rw [member cppAddrHi 0 (by simp [raw1Parts]) (by decide)]
    exact cppAddr
  · rw [DmaCmd.hostAddr, hostHigh]
    rfl
  · exact nfp3200_outside len dOff (by decide)
  · exact nfp3200_outside len dOff (by decide)
  · exact nfp3200_outside len dOff (by decide)
  · exact nfp3200_outside len dOff (by decide)
  · exact nfp3200_outside len dOff (by decide)

end Decode

section Patch

theorem decode3200_patch (cmd : DmaCmd) {addrHi addrLo : UInt32}
    (low : (Words.join addrHi addrLo).toNat < 2 ^ 40) :
    (cmd.patch addrHi addrLo).decode3200 =
      { cmd.decode3200 with hostAddr := Words.join addrHi addrLo } := by
  have above {field : BitField} (apart : 8 ≤ field.low) :
      field.load (cmd.patch addrHi addrLo).raw3 = field.load cmd.raw3 :=
    load_store_above pcieAddrHi cmd.raw3 addrHi apart
  have host : (cmd.patch addrHi addrLo).hostAddr = Words.join addrHi addrLo := by
    apply UInt64.toNat_inj.mp
    rw [DmaCmd.patch_hostAddr, Nat.mod_eq_of_lt low]
  simp only [DmaCmd.decode3200, above (show 8 ≤ dmaLength.low by decide),
    above (show 8 ≤ dmaRid.low by decide), above (show 8 ≤ dmaRidOverride.low by decide),
    above (show 8 ≤ dmaNoSnoop.low by decide), above (show 8 ≤ dmaRelaxed.low by decide),
    above (show 8 ≤ dmaReserved.low by decide), host]
  rfl

/-- The context that a completion goes back to. -/
def DmaCompletion.thread (completion : DmaCompletion) : UInt32 × UInt32 × UInt32 :=
  (completion.cl, completion.me, completion.ctx)

theorem completion_thread {context other : DmaContext} (inClusters : context.InClusters)
    (otherIn : other.InClusters)
    (same : context.completion.thread = other.completion.thread) :
    context.meid = other.meid ∧ context.ctx = other.ctx := by
  simp only [DmaCompletion.thread, Prod.mk.injEq] at same
  obtain ⟨cls, mes, ctxs⟩ := same
  refine ⟨?_, ctxs⟩
  have cl := congrArg UInt32.toNat cls
  have me := congrArg UInt32.toNat mes
  rw [completion_cl inClusters, completion_cl otherIn] at cl
  rw [completion_me inClusters, completion_me otherIn] at me
  apply UInt32.toNat_inj.mp
  omega

end Patch

/-- On this chip too a descriptor gives back what went into it, with whatever the unset bit of
the completion was; a patch changes the host address only, and different contexts get different
completions. -/
theorem nfp3200_roundTrip (context : DmaContext) (inClusters : context.InClusters)
    (len dOff addrHi addrLo : UInt32) (fits : len.toNat < 4096)
    (buffer : context.nfpBuf.toNat + dOff.toNat < 2 ^ 32)
    (low : (Words.join addrHi addrLo).toNat < 2 ^ 40) :
    ((pcieDmaSetup .nfp3200 context len dOff).patch addrHi addrLo).decode3200 =
        context.descriptor3200 len dOff addrHi addrLo ∧
      (∀ nextHi nextLo, (Words.join nextHi nextLo).toNat < 2 ^ 40 →
        (((pcieDmaSetup .nfp3200 context len dOff).patch addrHi addrLo).patch nextHi
            nextLo).decode3200 =
          { ((pcieDmaSetup .nfp3200 context len dOff).patch addrHi addrLo).decode3200 with
            hostAddr := Words.join nextHi nextLo }) ∧
      ∀ other : DmaContext, other.InClusters →
        context.meid ≠ other.meid ∨ context.ctx ≠ other.ctx →
        ∀ otherLen otherOff otherHi otherLo,
          ((pcieDmaSetup .nfp3200 context len dOff).patch addrHi addrLo).completion.thread ≠
            ((pcieDmaSetup .nfp3200 other otherLen otherOff).patch otherHi
              otherLo).completion.thread := by
  refine ⟨?_, ?_, ?_⟩
  · rw [decode3200_patch _ low, setup_decode3200 inClusters len dOff fits buffer]
    rfl
  · intro nextHi nextLo nextLow
    exact decode3200_patch _ nextLow
  · intro other otherIn different otherLen otherOff otherHi otherLo same
    change (pcieDmaSetup .nfp3200 context len dOff).completion.thread =
      (pcieDmaSetup .nfp3200 other otherLen otherOff).completion.thread at same
    rw [setup_completion inClusters, setup_completion otherIn] at same
    obtain ⟨meid, ctx⟩ := completion_thread inClusters otherIn same
    rcases different with meids | ctxs
    · exact meids meid
    · exact ctxs ctx

theorem nfp3200_roundTrip_largest :
    ((pcieDmaSetup .nfp3200 ⟨0xf7, 7, 15, 0xfffff000, 1⟩ 2048 0xfff).patch 0xff
        0xffffffff).decode3200 =
      { completion := { reserved := 1, cl := 15, me := 15, ctx := 7, signo := 15 }
        token := 0
        wordOnly := 0
        target64 := 1
        target := 7
        cppAddr := 0xffffffff
        hostAddr := 0xffffffffff
        bytes := 2048
        reqId := 0
        overrideRid := 0
        noSnoop := 0
        relaxed := 0
        reserved := 0 } :=
  (nfp3200_roundTrip ⟨0xf7, 7, 15, 0xfffff000, 1⟩ ⟨by decide, by decide, by decide⟩ 2048 0xfff
    0xff 0xffffffff (by decide) (by decide) (by decide)).1.trans (by decide)

end Pciebench
