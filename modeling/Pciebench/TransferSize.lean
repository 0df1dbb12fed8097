import Mathlib
import Pciebench.DmaCmd
import Pciebench.HostChecks

/-!
What a transfer moves: the length that the hardware reads from a descriptor or a PCIe command,
and the device memory that a descriptor names.
-/

namespace Pciebench

def nfpBufSz : Nat := 8 * 1024

/-- The bytes that the DMA engine moves; the NFP-6000 adds one to the field. -/
def DmaCmd.bytes (chip : Chip) (cmd : DmaCmd) : Nat :=
  match chip with
  | .nfp3200 => (dmaLength.load cmd.raw3).toNat
  | .nfp6000 => (dmaLength.load cmd.raw3).toNat + 1

def DmaCmd.cppAddr (cmd : DmaCmd) : UInt64 :=
  Words.join (cppAddrHi.load cmd.raw1) cmd.raw0

/-- The bytes from the CPP address on lie inside `nfp_buf`. -/
def DmaCmd.InNfpBuf (nfpBuf : UInt32) (size : Nat) (cmd : DmaCmd) : Prop :=
  nfpBuf.toNat ≤ cmd.cppAddr.toNat ∧ cmd.cppAddr.toNat + size ≤ nfpBuf.toNat + nfpBufSz

section Setup

variable {chip : Chip} {context : DmaContext} {len dOff addrHi addrLo : UInt32}

theorem DmaCmd.patch_bytes (cmd : DmaCmd) :
    (cmd.patch addrHi addrLo).bytes chip = cmd.bytes chip := by
  have kept : dmaLength.load (pcieAddrHi.store cmd.raw3 addrHi) = dmaLength.load cmd.raw3 :=
    BitField.load_store_above pcieAddrHi _ _ (by decide)
  cases chip <;> simp only [DmaCmd.bytes, DmaCmd.patch, kept]

theorem pcieDmaSetup_bytes : (pcieDmaSetup chip context len dOff).bytes chip =
    match chip with
    | .nfp3200 => len.toNat % 4096
    | .nfp6000 => (2 ^ 32 - 1 + len.toNat) % 4096 + 1 := by
  have one : (1 : UInt32).toNat = 1 := rfl
  cases chip with
  | nfp3200 => exact BitField.load_store dmaLength 0 len
  | nfp6000 =>
      have stored : (dmaLength.load (dmaLength.store 0 (len - 1))).toNat =
          (len - 1).toNat % 4096 := BitField.load_store dmaLength 0 (len - 1)
      change (dmaLength.load (dmaLength.store 0 (len - 1))).toNat + 1 =
        (2 ^ 32 - 1 + len.toNat) % 4096 + 1
      rw [stored, UInt32.toNat_sub, one]
      omega

theorem pcieDmaSetup_cppAddr :
    (pcieDmaSetup chip context len dOff).cppAddr.toNat =
      (context.nfpBuf.toNat + dOff.toNat) % 2 ^ 32 := by
  have low : (pcieDmaSetup chip context len dOff).raw0 = context.nfpBuf + dOff := by
    cases chip <;> rfl
  have high : (cppAddrHi.load (pcieDmaSetup chip context len dOff).raw1).toNat = 0 := by
    cases chip with
    | nfp3200 => exact BitField.load_store cppAddrHi _ 0
    | nfp6000 => exact BitField.load_store cppAddrHi _ 0
  rw [DmaCmd.cppAddr, Words.toNat_join, high, low, UInt32.toNat_add]
  omega

theorem pcieDmaSetup_bytes_iff (limit : len.toNat ≤ 4096)
    (small : chip = .nfp3200 → len.toNat ≤ 2048) :
    (pcieDmaSetup chip context len dOff).bytes chip = len.toNat ↔
      chip = .nfp3200 ∨ len.toNat ≠ 0 := by
  rw [pcieDmaSetup_bytes]
  cases chip with
  | nfp3200 =>
      have bound := small rfl
      simp only [true_or, iff_true]
      omega
  | nfp6000 =>
      simp only [reduceCtorEq, false_or]
      omega

theorem pcieDmaSetup_inNfpBuf {size : Nat} :
    (pcieDmaSetup chip context len dOff).InNfpBuf context.nfpBuf size ↔
      context.nfpBuf.toNat + dOff.toNat < 2 ^ 32 ∧ dOff.toNat + size ≤ nfpBufSz := by
  have base := context.nfpBuf.toNat_lt
  have offset := dOff.toNat_lt
  rw [DmaCmd.InNfpBuf, pcieDmaSetup_cppAddr]
  have whole : nfpBufSz = 8192 := rfl
  omega

theorem DmaCmd.patch_inNfpBuf {nfpBuf : UInt32} {size : Nat} (cmd : DmaCmd) :
    (cmd.patch addrHi addrLo).InNfpBuf nfpBuf size ↔ cmd.InNfpBuf nfpBuf size :=
  Iff.rfl

end Setup

section Enqueued

variable {chip : Chip} {test : PciebenchTest} {setup : DmaCmd} {dmaAddrs : Nat → UInt64}

theorem dmaLatFrom_setup {left : Nat} (trans : UInt32) {state : DmaLatState}
    (before : ∀ enqueue ∈ state.enqueued, ∃ addrHi addrLo, enqueue.cmd = setup.patch addrHi addrLo) :
    ∀ enqueue ∈ (dmaLatFrom chip test setup dmaAddrs left trans state).1.enqueued,
      ∃ addrHi addrLo, enqueue.cmd = setup.patch addrHi addrLo := by
  induction left generalizing trans state with
  | zero => exact before
  | succ left ih =>
      simp only [dmaLatFrom]
      split
      · exact before
      · refine ih (trans + 1) ?_
        intro enqueue member
        simp only [dmaLatAdvance, List.mem_append, List.mem_map] at member
        rcases member with earlier | ⟨queue, _, rfl⟩
        · exact before enqueue earlier
        · exact ⟨_, _, rfl⟩

theorem dmaLat_setup {fuel : Nat} {shift : UInt32} {table : ChunkTable} {rng : Nat → UInt32}
    {context : DmaContext} {params : TestParams} {nfp : NfpState} {run : DmaLatRun}
    (done : dmaLat chip fuel shift table rng context test params nfp = .ok run) :
    ∀ enqueue ∈ run.enqueued, ∃ addrHi addrLo,
      enqueue.cmd = (pcieDmaSetup chip context params.p1 params.p4).patch addrHi addrLo := by
  cases refused : params.addrArgs.refused with
  | true =>
      simp only [dmaLat, refused, if_true, Except.ok.injEq] at done
      subst run
      exact fun _ member => absurd member List.not_mem_nil
  | false =>
      obtain ⟨addrs, before, _, _, _, _, enqueued, _⟩ := dmaLat_ok refused done
      rw [enqueued]
      exact dmaLatFrom_setup 0 fun _ member => absurd member List.not_mem_nil

theorem cmdLatAccess_command {transSz : UInt32} {addr : DmaAddr} {pcie next : PcieState}
    (issued : cmdLatAccess chip test transSz addr pcie = some next) :
    ∃ new, next.accesses = pcie.accesses ++ new ∧ ∀ access ∈ new, access.command =
      pcieC2pCmd chip pciebenchPcieIsl pciebenchC2pIdx addr.addrHi addr.addrLo transSz
        .sigDone := by
  cases test with
  | latCmdRd =>
      cases issued
      refine ⟨_, rfl, ?_⟩
      intro access member
      rw [List.mem_singleton.mp member]
  | latCmdWrrd =>
      cases issued
      refine ⟨_, List.append_assoc .., ?_⟩
      intro access member
      simp only [List.mem_append, List.mem_singleton] at member
      rcases member with rfl | rfl
      · rfl
      · rfl
  | _ => contradiction

theorem cmdLatFrom_commands {transSz : UInt32} {left : Nat} (trans : UInt32) (state : CmdState) :
    ∃ new, (cmdLatFrom chip test transSz dmaAddrs left trans state).1.pcie.accesses =
        state.pcie.accesses ++ new ∧
      ∀ access ∈ new, ∃ addrHi addrLo, access.command =
        pcieC2pCmd chip pciebenchPcieIsl pciebenchC2pIdx addrHi addrLo transSz .sigDone := by
  induction left generalizing trans state with
  | zero => exact ⟨[], (List.append_nil _).symm, nofun⟩
  | succ left ih =>
      simp only [cmdLatFrom]
      split
      · exact ⟨[], (List.append_nil _).symm, nofun⟩
      · rename_i pcie issued
        obtain ⟨first, firstEq, firstSize⟩ := cmdLatAccess_command issued
        obtain ⟨rest, restEq, restSize⟩ :=
          ih (trans + 1) (cmdLatAdvance chip dmaAddrs trans state pcie)
        have kept : (cmdLatAdvance chip dmaAddrs trans state pcie).pcie.accesses =
            pcie.accesses := by
          simp only [cmdLatAdvance]
          split
          · rfl
          · rfl
        refine ⟨first ++ rest, ?_, ?_⟩
        · rw [restEq, kept, firstEq, List.append_assoc]
        · intro access member
          rcases List.mem_append.mp member with early | later
          · exact ⟨_, _, firstSize access early⟩
          · exact restSize access later

end Enqueued

section Accepted

variable {chip : Chip} {test : PciebenchTest} {args : AddrArgs}

theorem dmaSizeChecks_small {transSz : UInt32} (passed : dmaSizeChecks chip transSz = .ok ())
    (old : chip = .nfp3200) : transSz.toNat ≤ 2048 := by
  simp only [dmaSizeChecks, bind_ok_unit, errIf_ok] at passed
  have limit : ¬ (2048 : UInt32) < transSz := fun above => passed.2 ⟨old, above⟩
  have value : (2048 : UInt32).toNat = 2048 := rfl
  rw [UInt32.lt_iff_toNat_lt, value] at limit
  omega

theorem Accepted.checks (accepted : Accepted chip test args) :
    test ∈ latTests ∧ latTestChecks chip test args = .ok () ∨
      test ∈ bwTests ∧ bwTestChecks chip test args = .ok () := by
  rcases accepted.1 with lat | bw
  · have member := lat
    simp only [latTestChecks, bind_ok_unit, errIf_ok, not_not] at member
    exact .inl ⟨member.1, lat⟩
  · have member := bw
    simp only [bwTestChecks, bind_ok_unit, errIf_ok, not_not] at member
    exact .inr ⟨member.1, bw⟩

theorem Accepted.dmaSize (accepted : Accepted chip test args)
    (dma : test = .latDmaRd ∨ test = .latDmaWrrd ∨ test ∈ bwTests) :
    dmaSizeChecks chip args.transSz = .ok () := by
  rcases accepted.checks with ⟨member, lat⟩ | ⟨_, bw⟩
  · simp only [latTestChecks, bind_ok_unit] at lat
    refine onlyIf_ok lat.2.2.1 ?_
    rcases dma with rd | wrrd | bw
    · exact .inl rd
    · exact .inr wrrd
    · simp only [latTests, bwTests, List.mem_cons, List.not_mem_nil, or_false] at member bw
      rcases bw with rfl | rfl | rfl <;> simp at member
  · simp only [bwTestChecks, bind_ok_unit] at bw
    exact bw.2.1

theorem Accepted.cmdSize (accepted : Accepted chip test args)
    (cmd : test = .latCmdRd ∨ test = .latCmdWrrd) :
    args.transSz.toNat % 4 = 0 ∧ args.transSz.toNat ≤ 64 := by
  rcases accepted.checks with ⟨_, lat⟩ | ⟨member, _⟩
  · simp only [latTestChecks, bind_ok_unit] at lat
    have size := errIf_ok.mp (onlyIf_ok lat.2.1 cmd)
    have value : (64 : UInt32).toNat = 64 := rfl
    rw [not_or, not_not, gt_iff_lt, UInt32.lt_iff_toNat_lt, value] at size
    have words := congrArg UInt32.toNat size.1
    rw [UInt32.toNat_mod] at words
    exact ⟨words, by omega⟩
  · simp only [bwTests, List.mem_cons, List.not_mem_nil, or_false] at member
    rcases cmd with rfl | rfl <;> simp at member

end Accepted

theorem Accepted.dma_bytes {chip : Chip} {test : PciebenchTest} {args : AddrArgs}
    (accepted : Accepted chip test args)
    (dma : test = .latDmaRd ∨ test = .latDmaWrrd ∨ test ∈ bwTests) (context : DmaContext)
    (dOff addrHi addrLo : UInt32) :
    ((pcieDmaSetup chip context args.transSz dOff).patch addrHi addrLo).bytes chip =
        args.transSz.toNat ↔ chip = .nfp3200 ∨ args.transSz.toNat ≠ 0 := by
  have size := accepted.dmaSize dma
  rw [DmaCmd.patch_bytes]
  exact pcieDmaSetup_bytes_iff (dmaSizeChecks_ok size) (dmaSizeChecks_small size)

theorem Accepted.cmd_bytes {chip : Chip} {test : PciebenchTest} {args : AddrArgs}
    (accepted : Accepted chip test args) (cmd : test = .latCmdRd ∨ test = .latCmdWrrd)
    (addrHi addrLo : UInt32) :
    let command :=
      pcieC2pCmd chip pciebenchPcieIsl pciebenchC2pIdx addrHi addrLo args.transSz .sigDone
    command.bytes = args.transSz.toNat ∧ command.bytes ≤ 64 ↔ args.transSz.toNat ≠ 0 := by
  obtain ⟨words, limit⟩ := accepted.cmdSize cmd
  simp only [pcieC2pCmd_bytes]
  split
  · omega
  · omega

/-- Every transaction of an accepted request moves `trans_sz` bytes, except that an empty one
moves the largest transfer there is; only the DMA engine of the NFP-3200 moves nothing then. -/
theorem transfer_bytes (chip : Chip) (test : PciebenchTest) (params : TestParams)
    (accepted : Accepted chip test params.addrArgs) :
    (test = .latDmaRd ∨ test = .latDmaWrrd → ∀ fuel shift table rng context nfp run,
      dmaLat chip fuel shift table rng context test params nfp = .ok run →
      ∀ enqueue ∈ run.enqueued, enqueue.cmd.bytes chip = params.p1.toNat ↔
        chip = .nfp3200 ∨ params.p1.toNat ≠ 0) ∧
    (test ∈ bwTests → ∀ context dmaAddrs trans,
      (dmaBwEnqueue chip test (pcieDmaSetup chip context params.p1 params.p4) dmaAddrs
        trans).cmd.bytes chip = params.p1.toNat ↔ chip = .nfp3200 ∨ params.p1.toNat ≠ 0) ∧
    (test = .latCmdRd ∨ test = .latCmdWrrd → ∀ fuel shift table rng nfp run,
      cmdLat chip fuel shift table rng test params nfp = .ok run →
      ∃ addrs before new,
        chip.division.dmaAddrInit fuel shift table rng params.addrArgs nfp.addrs = .ok addrs ∧
        runRegions chip shift table rng (flaggedRegions params.addrArgs) { nfp with addrs } =
          .ok before ∧
        run.nfp.pcie.accesses = before.pcie.accesses ++ new ∧
        ∀ access ∈ new, (access.command.bytes = params.p1.toNat ∧ access.command.bytes ≤ 64 ↔
          params.p1.toNat ≠ 0)) := by
  refine ⟨?_, ?_, ?_⟩
  · intro lat fuel shift table rng context nfp run done enqueue member
    have dma : test = .latDmaRd ∨ test = .latDmaWrrd ∨ test ∈ bwTests := by tauto
    obtain ⟨addrHi, addrLo, cmdEq⟩ := dmaLat_setup done enqueue member
    rw [cmdEq]
    exact accepted.dma_bytes dma context params.p4 addrHi addrLo
  · intro bw context dmaAddrs trans
    exact accepted.dma_bytes (.inr (.inr bw)) context params.p4 _ _
  · intro cmd fuel shift table rng nfp run done
    obtain ⟨addrs, before, filled, written, _, pcieEq, _⟩ := cmdLat_ok accepted.2 done
    obtain ⟨new, appended, sizes⟩ :=
      cmdLatFrom_commands 0 (cmdLatStart chip addrs.dmaAddrs before.pcie)
    refine ⟨addrs, before, new, filled, written, ?_, ?_⟩
    · rw [pcieEq, appended]
      rfl
    · intro access member
      obtain ⟨addrHi, addrLo, command⟩ := sizes access member
      rw [command]
      exact accepted.cmd_bytes cmd addrHi addrLo

theorem transfer_bytes_page :
    (dmaBwEnqueue .nfp6000 .bwDmaWr (pcieDmaSetup .nfp6000 ⟨1, 2, 5, 0x80000, 0⟩ 4096 0)
      (fun _ => 0x40000000) 7).cmd.bytes .nfp6000 = 4096 :=
  ((transfer_bytes .nfp6000 .bwDmaWr { p0 := 0, p1 := 4096, p2 := 4096, p3 := 0, p4 := 0 }
    ⟨.inr rfl, rfl⟩).2.1 (by decide) ⟨1, 2, 5, 0x80000, 0⟩ (fun _ => 0x40000000) 7).mpr
      (.inr (by decide))

theorem transfer_bytes_empty :
    (Accepted .nfp6000 .bwDmaWr { winSz := 64, transSz := 0, hOff := 64, flags := 0 } ∧
      (dmaBwEnqueue .nfp6000 .bwDmaWr (pcieDmaSetup .nfp6000 ⟨1, 2, 5, 0x80000, 0⟩ 0 0)
        (fun _ => 0x40000000) 7).cmd.bytes .nfp6000 = 4096) ∧
    (Accepted .nfp3200 .latCmdRd { winSz := 64, transSz := 0, hOff := 64, flags := 0 } ∧
      (pcieC2pCmd .nfp3200 pciebenchPcieIsl pciebenchC2pIdx 0 0x40000000 0 .sigDone).bytes =
        128) := by
  refine ⟨⟨⟨.inr rfl, rfl⟩, ?_⟩, ⟨.inl rfl, rfl⟩, ?_⟩
  · rw [dmaBwEnqueue, DmaCmd.patch_bytes, pcieDmaSetup_bytes]
    decide
  · exact pcieC2pCmd_bytes _ _ _ _ _ _ _

/-- A DMA stays inside `nfp_buf` exactly when its device offset leaves room for it; neither
validator looks at the offset. -/
theorem transfer_inNfpBuf (chip : Chip) (test : PciebenchTest) (params : TestParams) :
    (∀ fuel shift table rng context nfp run,
      dmaLat chip fuel shift table rng context test params nfp = .ok run →
      ∀ enqueue ∈ run.enqueued, enqueue.cmd.InNfpBuf context.nfpBuf params.p1.toNat ↔
        context.nfpBuf.toNat + params.p4.toNat < 2 ^ 32 ∧
          params.p4.toNat + params.p1.toNat ≤ nfpBufSz) ∧
    ∀ context dmaAddrs trans,
      (dmaBwEnqueue chip test (pcieDmaSetup chip context params.p1 params.p4) dmaAddrs
        trans).cmd.InNfpBuf context.nfpBuf params.p1.toNat ↔
          context.nfpBuf.toNat + params.p4.toNat < 2 ^ 32 ∧
            params.p4.toNat + params.p1.toNat ≤ nfpBufSz := by
  constructor
  · intro fuel shift table rng context nfp run done enqueue member
    obtain ⟨addrHi, addrLo, cmdEq⟩ := dmaLat_setup done enqueue member
    rw [cmdEq, DmaCmd.patch_inNfpBuf]
    exact pcieDmaSetup_inNfpBuf
  · intro context dmaAddrs trans
    rw [dmaBwEnqueue, DmaCmd.patch_inNfpBuf]
    exact pcieDmaSetup_inNfpBuf

theorem transfer_inNfpBuf_end :
    (dmaBwEnqueue .nfp3200 .bwDmaRd (pcieDmaSetup .nfp3200 ⟨1, 2, 5, 0x80000, 0⟩ 2048 6144)
      (fun _ => 0x40000000) 7).cmd.InNfpBuf 0x80000 2048 :=
  ((transfer_inNfpBuf .nfp3200 .bwDmaRd
    { p0 := 0, p1 := 2048, p2 := 4096, p3 := 0, p4 := 6144 }).2 ⟨1, 2, 5, 0x80000, 0⟩
      (fun _ => 0x40000000) 7).mpr (by decide)

theorem transfer_inNfpBuf_beyond :
    Accepted .nfp3200 .bwDmaRd { winSz := 4096, transSz := 64, hOff := 0, flags := 0 } ∧
    ¬ (dmaBwEnqueue .nfp3200 .bwDmaRd (pcieDmaSetup .nfp3200 ⟨1, 2, 5, 0x80000, 0⟩ 64 8192)
      (fun _ => 0x40000000) 7).cmd.InNfpBuf 0x80000 64 := by
  refine ⟨⟨.inr rfl, rfl⟩, ?_⟩
  rw [dmaBwEnqueue, DmaCmd.patch_inNfpBuf]
  intro inside
  have bounds := @pcieDmaSetup_inNfpBuf .nfp3200 ⟨1, 2, 5, 0x80000, 0⟩ 64 8192 64
  have room := (bounds.mp inside).2
  contradiction

end Pciebench
