import Mathlib
import Pciebench.Lib.Outcome
import Pciebench.NpbDriver

/-!
The driver gives back what it took. What it owns is followed through `npb_pci_probe`: the
fields of `npb` that are not zero name exactly the chunks, mappings and proc entries owned, so
the guards of `npb_remove` release these and nothing else.
-/

namespace Pciebench

open Ownership Outcome

def NpbResource.isProc : NpbResource → Bool
  | procDmaAddrs | procBufSz | procBuffer => true
  | _ => false

/-- A proc entry needs every chunk, and a mapping needs its pages. -/
structure SafeStock (chunks : Nat) (owned : Set NpbResource) : Prop where
  exposed : ∀ entry ∈ owned, entry.isProc = true → ∀ chunk, chunk < chunks →
    .pages chunk ∈ owned ∧ .mapping chunk ∈ owned
  mapped : ∀ chunk, .mapping chunk ∈ owned → .pages chunk ∈ owned

/-- The resources that `npb_remove` looks after, and the field of `npb` for each. -/
def NpbResource.inNpb : NpbResource → Bool
  | pages _ | mapping _ | procDmaAddrs | procBufSz | procBuffer => true
  | _ => false

def NfpPciebench.field (npb : NfpPciebench) : NpbResource → UInt64
  | .pages chunk => npb.buf chunk
  | .mapping chunk => npb.bufDmaAddrs chunk
  | .procDmaAddrs => npb.procDmaAddrs
  | .procBufSz => npb.procBufSz
  | .procBuffer => npb.procBuffer
  | _ => 0

/-- The fields of `npb` tell what is owned. -/
structure Tracks (chunks : Nat) (npb : NfpPciebench) (owned : Set NpbResource) : Prop where
  field : ∀ resource, resource.inNpb = true → (npb.field resource ≠ 0 ↔ resource ∈ owned)
  inRange : ∀ chunk, .pages chunk ∈ owned → chunk < chunks

def outsideNpb (owned : Set NpbResource) : Set NpbResource :=
  {resource | resource ∈ owned ∧ resource.inNpb = false}

variable {chunks : Nat} {driver next : Driver} {npb : NfpPciebench}
  {owned : Set NpbResource} {resource : NpbResource} {pointer : UInt64}

theorem neg_errno : -enomem < 0 ∧ -enodev < 0 := by decide

@[simp] theorem acquire_log :
    (driver.acquire resource).log = driver.log ++ [.acquire resource] := rfl

@[simp] theorem release_log :
    (driver.release resource).log = driver.log ++ [.release resource] := rfl

section Safety

theorem safeStock_noProc (noProc : ∀ entry ∈ owned, entry.isProc = false)
    (mapped : ∀ chunk, .mapping chunk ∈ owned → .pages chunk ∈ owned) :
    SafeStock chunks owned where
  exposed := by
    intro entry present proc
    rw [noProc entry present] at proc
    contradiction
  mapped := mapped

theorem SafeStock.insert_proc (safe : SafeStock chunks owned) (proc : resource.isProc = true)
    (all : ∀ chunk, chunk < chunks → .pages chunk ∈ owned ∧ .mapping chunk ∈ owned) :
    SafeStock chunks (insert resource owned) where
  exposed := by
    intro _ _ _ chunk bound
    exact ⟨Set.mem_insert_of_mem _ (all chunk bound).1, Set.mem_insert_of_mem _ (all chunk bound).2⟩
  mapped := by
    intro chunk present
    rcases Set.mem_insert_iff.mp present with same | earlier
    · rw [← same] at proc
      contradiction
    · exact Set.mem_insert_of_mem _ (safe.mapped chunk earlier)

theorem SafeStock.diff_other (safe : SafeStock chunks owned)
    (notPages : ∀ chunk, resource ≠ .pages chunk) (notMapping : ∀ chunk, resource ≠ .mapping chunk) :
    SafeStock chunks (owned \ {resource}) where
  exposed := by
    intro entry present proc chunk bound
    have both := safe.exposed entry present.1 proc chunk bound
    exact ⟨⟨both.1, fun same => notPages chunk same.symm⟩,
      ⟨both.2, fun same => notMapping chunk same.symm⟩⟩
  mapped := fun chunk present =>
    ⟨safe.mapped chunk present.1, fun same => notPages chunk same.symm⟩

end Safety

section Remove

theorem ledger_releaseIf (ledger : Ledger (SafeStock chunks) driver.log owned)
    (field : pointer ≠ 0 ↔ resource ∈ owned) (still : SafeStock chunks (owned \ {resource})) :
    Ledger (SafeStock chunks) (driver.releaseIf pointer resource).log (owned \ {resource}) := by
  by_cases null : pointer = 0
  · have missing : resource ∉ owned := fun present => field.mpr present null
    simpa [Driver.releaseIf, null, Set.sdiff_singleton_eq_self missing] using ledger
  · simp only [Driver.releaseIf, ne_eq, null, not_false_eq_true, if_true, release_log]
    exact ledger.release (field.mp null) still

/-- What is left when the proc entries and the first `count` chunks are gone. -/
def leftAfter (owned : Set NpbResource) (count : Nat) : Set NpbResource :=
  {resource | resource ∈ owned ∧ resource.isProc = false ∧
    ∀ chunk, chunk < count → resource ≠ .pages chunk ∧ resource ≠ .mapping chunk}

theorem leftAfter_succ (owned : Set NpbResource) (count : Nat) :
    leftAfter owned (count + 1) = (leftAfter owned count \ {.mapping count}) \ {.pages count} := by
  ext resource
  constructor
  · rintro ⟨present, notProc, early⟩
    refine ⟨⟨⟨present, notProc, fun chunk bound => early chunk (by omega)⟩, ?_⟩, ?_⟩
    · exact (early count (by omega)).2
    · exact (early count (by omega)).1
  · rintro ⟨⟨⟨present, notProc, early⟩, notMapping⟩, notPages⟩
    refine ⟨present, notProc, fun chunk bound => ?_⟩
    by_cases last : chunk = count
    · subst last
      exact ⟨notPages, notMapping⟩
    · exact early chunk (by omega)

theorem leftAfter_all (tracks : Tracks chunks npb owned) (safe : SafeStock chunks owned) :
    leftAfter owned chunks = outsideNpb owned := by
  ext resource
  constructor
  · rintro ⟨present, notProc, early⟩
    refine ⟨present, ?_⟩
    cases resource with
    | pages chunk => exact absurd rfl (early chunk (tracks.inRange chunk present)).1
    | mapping chunk =>
        exact absurd rfl (early chunk (tracks.inRange chunk (safe.mapped chunk present))).2
    | procDmaAddrs | procBufSz | procBuffer => contradiction
    | device | regions | cpp | devCpp | npb => rfl
  · rintro ⟨present, outside⟩
    refine ⟨present, ?_, ?_⟩
    · cases resource <;> first | rfl | contradiction
    · rintro chunk -
      constructor <;> rintro rfl <;> contradiction

theorem leftAfter_safe (safe : SafeStock chunks owned) (count : Nat) :
    SafeStock chunks (leftAfter owned count) := by
  refine safeStock_noProc (fun entry present => present.2.1) ?_
  rintro chunk ⟨present, -, early⟩
  refine ⟨safe.mapped chunk present, rfl, fun other bound => ?_⟩
  refine ⟨?_, NpbResource.noConfusion⟩
  intro same
  cases same
  exact (early chunk bound).2 rfl

theorem ledger_removeChunks (tracks : Tracks chunks npb owned) (safe : SafeStock chunks owned)
    (ledger : Ledger (SafeStock chunks) driver.log (leftAfter owned 0)) (count : Nat) :
    Ledger (SafeStock chunks) ((List.range count).foldl (removeChunk npb) driver).log
      (leftAfter owned count) := by
  induction count with
  | zero => exact ledger
  | succ count ih =>
      rw [List.range_succ, List.foldl_append, leftAfter_succ]
      have mapping : npb.bufDmaAddrs count ≠ 0 ↔ .mapping count ∈ leftAfter owned count := by
        refine (tracks.field (.mapping count) rfl).trans ⟨fun present => ?_, fun left => left.1⟩
        refine ⟨present, rfl, fun chunk bound => ⟨NpbResource.noConfusion, ?_⟩⟩
        intro same
        cases same
        omega
      have pages : npb.buf count ≠ 0 ↔ .pages count ∈ leftAfter owned count \ {.mapping count} := by
        refine (tracks.field (.pages count) rfl).trans ⟨fun present => ?_, fun left => left.1.1⟩
        refine ⟨⟨present, rfl, fun chunk bound => ⟨?_, NpbResource.noConfusion⟩⟩, ?_⟩
        · intro same
          cases same
          omega
        · exact NpbResource.noConfusion
      have unmapped : SafeStock chunks (leftAfter owned count \ {.mapping count}) := by
        refine safeStock_noProc (fun entry present => present.1.2.1) ?_
        rintro chunk ⟨present, _⟩
        exact ⟨(leftAfter_safe safe count).mapped chunk present, NpbResource.noConfusion⟩
      have freed : SafeStock chunks ((leftAfter owned count \ {.mapping count}) \ {.pages count}) :=
        leftAfter_succ owned count ▸ leftAfter_safe safe (count + 1)
      exact ledger_releaseIf (ledger_releaseIf ih mapping unmapped) pages freed

theorem leftAfter_zero (owned : Set NpbResource) :
    ((owned \ {.procBuffer}) \ {.procBufSz}) \ {.procDmaAddrs} = leftAfter owned 0 := by
  ext resource
  constructor
  · rintro ⟨⟨⟨present, notBuffer⟩, notBufSz⟩, notDmaAddrs⟩
    refine ⟨present, ?_, fun chunk bound => absurd bound (Nat.not_lt_zero chunk)⟩
    cases resource <;> first | rfl | contradiction
  · rintro ⟨present, notProc, -⟩
    refine ⟨⟨⟨present, ?_⟩, ?_⟩, ?_⟩ <;> rintro rfl <;> contradiction

theorem mem_diff_of_ne {other : NpbResource} (apart : resource ≠ other) :
    resource ∈ owned \ {other} ↔ resource ∈ owned :=
  ⟨fun present => present.1, fun present => ⟨present, apart⟩⟩

theorem ledger_npbRemove (tracks : Tracks chunks npb owned)
    (ledger : Ledger (SafeStock chunks) driver.log owned) :
    Ledger (SafeStock chunks) (npbRemove chunks npb driver).log (outsideNpb owned) := by
  have safe : SafeStock chunks owned := ledger.held ▸ ledger.always _ List.prefix_rfl
  have noBuffer : SafeStock chunks (owned \ {.procBuffer}) :=
    safe.diff_other (fun _ => NpbResource.noConfusion) (fun _ => NpbResource.noConfusion)
  have noBufSz : SafeStock chunks ((owned \ {.procBuffer}) \ {.procBufSz}) :=
    noBuffer.diff_other (fun _ => NpbResource.noConfusion) (fun _ => NpbResource.noConfusion)
  have noProc : SafeStock chunks (((owned \ {.procBuffer}) \ {.procBufSz}) \ {.procDmaAddrs}) :=
    noBufSz.diff_other (fun _ => NpbResource.noConfusion) (fun _ => NpbResource.noConfusion)
  have bufSz : npb.procBufSz ≠ 0 ↔ .procBufSz ∈ owned \ {.procBuffer} :=
    (tracks.field .procBufSz rfl).trans (mem_diff_of_ne NpbResource.noConfusion).symm
  have dmaAddrs : npb.procDmaAddrs ≠ 0 ↔
      .procDmaAddrs ∈ (owned \ {.procBuffer}) \ {.procBufSz} :=
    (tracks.field .procDmaAddrs rfl).trans ((mem_diff_of_ne NpbResource.noConfusion).trans
      (mem_diff_of_ne NpbResource.noConfusion)).symm
  have entries := ledger_releaseIf (ledger_releaseIf (ledger_releaseIf ledger
    (tracks.field .procBuffer rfl) noBuffer) bufSz noBufSz) dmaAddrs noProc
  rw [leftAfter_zero] at entries
  rw [← leftAfter_all tracks safe]
  exact ledger_removeChunks tracks safe entries chunks

end Remove

section Init

variable {calls : KernelCalls} {base : Set NpbResource} {chunk : Nat}

/-- Halfway through `npb_init`: the log has released nothing, and apart from what `npb` tells
the driver owns what it owned before. -/
structure Stocked (chunks : Nat) (base : Set NpbResource) (driver : Driver)
    (owned : Set NpbResource) : Prop where
  opening : Opening (SafeStock chunks) driver.log owned
  tracks : Tracks chunks driver.npb owned
  outside : outsideNpb owned = base

/-- The first `count` chunks are allocated and mapped, no other, and there is no proc entry. -/
structure Filled (count : Nat) (owned : Set NpbResource) : Prop where
  pages : ∀ chunk, .pages chunk ∈ owned ↔ chunk < count
  mapping : ∀ chunk, .mapping chunk ∈ owned ↔ chunk < count
  noProc : ∀ entry ∈ owned, entry.isProc = false

/-- A `goto err` of `npb_init`. -/
def Stopped (chunks : Nat) (base : Set NpbResource) (stop : Int × Driver) : Prop :=
  stop.1 < 0 ∧ ∃ owned, Stocked chunks base stop.2 owned

theorem outsideNpb_insert (inside : resource.inNpb = true) :
    outsideNpb (insert resource owned) = outsideNpb owned := by
  ext other
  simp only [outsideNpb, Set.mem_insert_iff, Set.mem_ofPred_eq]
  constructor
  · rintro ⟨rfl | present, outside⟩
    · rw [inside] at outside
      contradiction
    · exact ⟨present, outside⟩
  · rintro ⟨present, outside⟩
    exact ⟨Or.inr present, outside⟩

theorem Stocked.acquire (stocked : Stocked chunks base driver owned)
    (inside : resource.inNpb = true) (missing : resource ∉ owned)
    (still : SafeStock chunks (insert resource owned)) (acquired : npb.field resource ≠ 0)
    (others : ∀ other, other ≠ resource → npb.field other = driver.npb.field other)
    (bound : ∀ chunk, resource = .pages chunk → chunk < chunks) :
    Stocked chunks base { driver.acquire resource with npb := npb } (insert resource owned) where
  opening := stocked.opening.acquire missing still
  tracks := {
    field := by
      intro other inNpb
      by_cases same : other = resource
      · subst same
        simpa using acquired
      · rw [others other same, stocked.tracks.field other inNpb]
        simp [same]
    inRange := by
      intro chunk present
      rcases Set.mem_insert_iff.mp present with same | earlier
      · exact bound chunk same.symm
      · exact stocked.tracks.inRange chunk earlier
  }
  outside := (outsideNpb_insert inside).trans stocked.outside

theorem Stocked.assignNull (stocked : Stocked chunks base driver owned)
    (missing : resource ∉ owned) (null : npb.field resource = 0)
    (others : ∀ other, other ≠ resource → npb.field other = driver.npb.field other) :
    Stocked chunks base { driver with npb := npb } owned where
  opening := stocked.opening
  tracks := {
    field := by
      intro other inNpb
      by_cases same : other = resource
      · subst same
        simp [null, missing]
      · rw [others other same, stocked.tracks.field other inNpb]
    inRange := stocked.tracks.inRange
  }
  outside := stocked.outside

theorem field_updateBuf {value : UInt64} (apart : resource ≠ .pages chunk) :
    ({ npb with buf := Function.update npb.buf chunk value } : NfpPciebench).field resource =
      npb.field resource := by
  cases resource with
  | pages other =>
      have away : other ≠ chunk := fun same => apart (same ▸ rfl)
      simp [NfpPciebench.field, away]
  | _ => rfl

theorem field_updateMapping {value : UInt64} (apart : resource ≠ .mapping chunk) :
    ({ npb with bufDmaAddrs := Function.update npb.bufDmaAddrs chunk value } :
      NfpPciebench).field resource = npb.field resource := by
  cases resource with
  | mapping other =>
      have away : other ≠ chunk := fun same => apart (same ▸ rfl)
      simp [NfpPciebench.field, away]
  | _ => rfl

theorem Filled.mapped (filled : Filled chunk owned) (other : Nat)
    (present : .mapping other ∈ owned) : .pages other ∈ owned :=
  (filled.pages other).mpr ((filled.mapping other).mp present)

theorem Filled.safe_pages (filled : Filled chunk owned) :
    SafeStock chunks (insert (.pages chunk) owned) := by
  refine safeStock_noProc ?_ ?_
  · intro entry present
    rcases Set.mem_insert_iff.mp present with rfl | earlier
    · rfl
    · exact filled.noProc entry earlier
  · intro other present
    refine Set.mem_insert_of_mem _ (filled.mapped other ?_)
    exact Set.mem_of_mem_insert_of_ne present NpbResource.noConfusion

theorem Filled.succ (filled : Filled chunk owned) :
    Filled (chunk + 1) (insert (.mapping chunk) (insert (.pages chunk) owned)) where
  pages := by
    intro other
    simp only [Set.mem_insert_iff, reduceCtorEq, NpbResource.pages.injEq, false_or,
      filled.pages other]
    omega
  mapping := by
    intro other
    simp only [Set.mem_insert_iff, reduceCtorEq, NpbResource.mapping.injEq, false_or,
      filled.mapping other]
    omega
  noProc := by
    intro entry present
    rcases Set.mem_insert_iff.mp present with rfl | earlier
    · rfl
    · rcases Set.mem_insert_iff.mp earlier with rfl | earliest
      · rfl
      · exact filled.noProc entry earliest

theorem allocChunk_stocked (stocked : Stocked chunks base driver owned)
    (filled : Filled chunk owned) (bound : chunk < chunks) :
    Ends (allocChunk calls driver chunk)
      (fun next => ∃ more, Stocked chunks base next more ∧ Filled (chunk + 1) more)
      (Stopped chunks base) := by
  have noPages : .pages chunk ∉ owned := by simp [filled.pages chunk]
  have noMapping : .mapping chunk ∉ insert (.pages chunk) owned := by
    simp [filled.mapping chunk]
  by_cases unallocated : calls.pageAddress chunk = 0
  · simp only [allocChunk, unallocated, if_true]
    refine ⟨neg_errno.1, owned, stocked.assignNull noPages ?_ fun other => field_updateBuf⟩
    simp [NfpPciebench.field]
  · let grown : NfpPciebench := { driver.npb with
      buf := Function.update driver.npb.buf chunk (calls.pageAddress chunk) }
    have allocated : Stocked chunks base { driver.acquire (.pages chunk) with npb := grown }
        (insert (.pages chunk) owned) := by
      refine stocked.acquire rfl noPages filled.safe_pages ?_ (fun other => field_updateBuf) ?_
      · simpa [NfpPciebench.field, grown] using unallocated
      · simpa using bound
    by_cases unmapped : calls.dmaMapSingle chunk = 0
    · simp only [allocChunk, unallocated, unmapped, if_false, if_true]
      refine ⟨neg_errno.1, _, allocated.assignNull noMapping ?_ fun other => field_updateMapping⟩
      simp [NfpPciebench.field]
    · simp only [allocChunk, unallocated, unmapped, if_false]
      refine ⟨_, allocated.acquire rfl noMapping ?_ ?_ (fun other => field_updateMapping) ?_,
        filled.succ⟩
      · exact safeStock_noProc filled.succ.noProc filled.succ.mapped
      · simpa [NfpPciebench.field] using unmapped
      · simp

theorem allocChunks_stocked (stocked : Stocked chunks base driver owned)
    (filled : Filled 0 owned) (count : Nat) (bound : count ≤ chunks) :
    Ends ((List.range count).foldlM (allocChunk calls) driver)
      (fun next => ∃ more, Stocked chunks base next more ∧ Filled count more)
      (Stopped chunks base) := by
  induction count with
  | zero => exact ⟨owned, stocked, filled⟩
  | succ count ih =>
      rw [List.range_succ, List.foldlM_append]
      refine (ih (by omega)).bind ?_
      rintro reached ⟨more, stocked, filled⟩
      rw [List.foldlM_cons]
      refine (allocChunk_stocked stocked filled (by omega)).bind ?_
      intro next last
      exact last

def Complete (chunks : Nat) (owned : Set NpbResource) : Prop :=
  ∀ chunk, chunk < chunks → .pages chunk ∈ owned ∧ .mapping chunk ∈ owned

theorem Complete.insert (complete : Complete chunks owned) (resource : NpbResource) :
    Complete chunks (insert resource owned) := fun chunk bound =>
  ⟨Set.mem_insert_of_mem _ (complete chunk bound).1,
    Set.mem_insert_of_mem _ (complete chunk bound).2⟩

theorem createProc_stocked {entry : UInt64} {assign : NfpPciebench → UInt64 → NfpPciebench}
    (stocked : Stocked chunks base driver owned) (complete : Complete chunks owned)
    (proc : resource.isProc = true) (missing : resource ∉ owned)
    (assigned : (assign driver.npb entry).field resource = entry)
    (others : ∀ other, other ≠ resource →
      (assign driver.npb entry).field other = driver.npb.field other) :
    Ends (createProc entry resource assign driver)
      (fun next => Stocked chunks base next (insert resource owned)) (Stopped chunks base) := by
  by_cases null : entry = 0
  · simp only [createProc, null, if_true]
    exact ⟨neg_errno.2, owned, stocked⟩
  · simp only [createProc, null, if_false]
    have safe : SafeStock chunks owned :=
      stocked.opening.held ▸ stocked.opening.always _ List.prefix_rfl
    refine stocked.acquire ?_ missing (safe.insert_proc proc complete) ?_ others ?_
    · cases resource <;> first | rfl | contradiction
    · rw [assigned]
      exact null
    · rintro chunk rfl
      contradiction

theorem npbInitSteps_stocked (stocked : Stocked chunks base driver owned)
    (filled : Filled 0 owned) :
    Ends (npbInitSteps calls chunks driver)
      (fun next => ∃ more, Stocked chunks base next more) (Stopped chunks base) := by
  refine (allocChunks_stocked stocked filled chunks le_rfl).bind ?_
  rintro mapped ⟨chunksIn, stocked, filled⟩
  have complete : Complete chunks chunksIn := fun chunk bound =>
    ⟨(filled.pages chunk).mpr bound, (filled.mapping chunk).mpr bound⟩
  have noProc (entry : NpbResource) (proc : entry.isProc = true) : entry ∉ chunksIn := by
    intro present
    rw [filled.noProc entry present] at proc
    contradiction
  refine (createProc_stocked stocked complete rfl (noProc _ rfl) rfl ?_).bind ?_
  · intro other apart
    cases other <;> first | rfl | contradiction
  intro listed stocked
  refine (createProc_stocked stocked (complete.insert _) rfl ?_ rfl ?_).bind ?_
  · simp [noProc .procBufSz rfl]
  · intro other apart
    cases other <;> first | rfl | contradiction
  intro sized stocked
  refine (createProc_stocked stocked ((complete.insert _).insert _) rfl ?_ rfl ?_).imp ?_
  · simp [noProc .procBuffer rfl]
  · intro other apart
    cases other <;> first | rfl | contradiction
  intro next stocked
  exact ⟨_, stocked⟩

theorem npbInit_leaves (stocked : Stocked chunks base driver owned) (filled : Filled 0 owned) :
    ((npbInit calls chunks driver).1 = 0 ∧
        ∃ more, Stocked chunks base (npbInit calls chunks driver).2 more) ∨
      ((npbInit calls chunks driver).1 < 0 ∧
        Ledger (SafeStock chunks) (npbInit calls chunks driver).2.log base) := by
  have ends := @npbInitSteps_stocked _ _ _ calls _ stocked filled
  simp only [npbInit]
  cases done : npbInitSteps calls chunks driver with
  | ok next =>
      rw [done] at ends
      exact Or.inl ⟨rfl, ends⟩
  | error stop =>
      rw [done] at ends
      obtain ⟨failed, more, stocked⟩ := ends
      refine Or.inr ⟨failed, ?_⟩
      rw [← stocked.outside]
      exact ledger_npbRemove stocked.tracks stocked.opening.toLedger

end Init

section Probe

variable {calls : KernelCalls} {err : Int} {event : Event NpbResource}

def Plain (owned : Set NpbResource) : Prop :=
  ∀ resource ∈ owned, resource.inNpb = false

theorem Plain.safe (plain : Plain owned) : SafeStock chunks owned := by
  refine safeStock_noProc ?_ ?_
  · intro entry present
    have outside := plain entry present
    cases entry <;> first | rfl | contradiction
  · intro chunk present
    exact absurd (plain _ present) Bool.noConfusion

theorem Plain.insert (plain : Plain owned) (outside : resource.inNpb = false) :
    Plain (insert resource owned) := by
  intro other present
  rcases Set.mem_insert_iff.mp present with rfl | earlier
  · exact outside
  · exact plain other earlier

/-! What `npb_pci_probe` owns from each of its acquisitions on. -/

def ownDevice : Set NpbResource := insert .device ∅

def ownRegions : Set NpbResource := insert .regions ownDevice

def ownCpp : Set NpbResource := insert .cpp ownRegions

def ownDevCpp : Set NpbResource := insert .devCpp ownCpp

def ownNpb : Set NpbResource := insert .npb ownDevCpp

theorem plain_device : Plain ownDevice :=
  Plain.insert (fun _ present => absurd present (Set.notMem_empty _)) rfl

theorem plain_regions : Plain ownRegions := plain_device.insert rfl

theorem plain_cpp : Plain ownCpp := plain_regions.insert rfl

theorem plain_devCpp : Plain ownDevCpp := plain_cpp.insert rfl

theorem plain_npb : Plain ownNpb := plain_devCpp.insert rfl

theorem ledger_errDmaMask (ledger : Ledger (SafeStock chunks) driver.log ownDevice) :
    Ledger (SafeStock chunks) (errDmaMask err driver).2.log ∅ :=
  ledger.undo (Set.notMem_empty _) (Plain.safe fun _ present => absurd present (Set.notMem_empty _))

theorem ledger_errNfpCpp (ledger : Ledger (SafeStock chunks) driver.log ownRegions) :
    Ledger (SafeStock chunks) (errNfpCpp err driver).2.log ∅ :=
  ledger_errDmaMask (ledger.undo (by simp [ownDevice]) plain_device.safe)

theorem errNfpCpp_code : (errNfpCpp err driver).1 = err := rfl

theorem ledger_errRegDev (ledger : Ledger (SafeStock chunks) driver.log ownCpp) :
    Ledger (SafeStock chunks) (errRegDev err driver).2.log ∅ :=
  ledger_errNfpCpp (ledger.undo (by simp [ownRegions, ownDevice]) plain_regions.safe)

theorem ledger_errKzalloc (ledger : Ledger (SafeStock chunks) driver.log ownDevCpp) :
    Ledger (SafeStock chunks) (errKzalloc err driver).2.log ∅ :=
  ledger_errRegDev (ledger.undo (by simp [ownCpp, ownRegions, ownDevice]) plain_cpp.safe)

theorem ledger_errInit (ledger : Ledger (SafeStock chunks) driver.log ownNpb) :
    Ledger (SafeStock chunks) (errInit err driver).2.log ∅ :=
  ledger_errKzalloc
    (ledger.undo (by simp [ownDevCpp, ownCpp, ownRegions, ownDevice]) plain_devCpp.safe)

theorem Plain.diff (plain : Plain owned) (gone : Set NpbResource) : Plain (owned \ gone) :=
  fun resource present => plain resource present.1

theorem ptrErr_code (pointer : UInt64) :
    (if ptrErr pointer ≥ 0 then -enomem else ptrErr pointer) < 0 := by
  have := neg_errno.1
  split <;> omega

theorem stocked_zeroed (cpp nfpDevCpp : UInt64)
    (opening : Opening (SafeStock chunks) driver.log owned) (plain : Plain owned) :
    Stocked chunks owned
      { driver with npb := .zeroed cpp nfpDevCpp } owned where
  opening := opening
  tracks := {
    field := by
      intro resource inNpb
      have missing : resource ∉ owned := fun present => by
        rw [plain resource present] at inNpb
        contradiction
      have null : (NfpPciebench.zeroed cpp nfpDevCpp).field resource = 0 := by
        cases resource <;> rfl
      simp [missing, null]
    inRange := fun chunk present => absurd (plain _ present) Bool.noConfusion
  }
  outside := Set.ext fun resource => ⟨fun left => left.1, fun present =>
    ⟨present, plain resource present⟩⟩

def Bound (chunks : Nat) (driver : Driver) : Prop :=
  ∃ npb owned, driver.drvdata = some npb ∧ Ledger (SafeStock chunks) driver.log owned ∧
    Tracks chunks npb owned ∧ outsideNpb owned = ownNpb

theorem afterInit_leaves {result : Int × Driver}
    (left : (result.1 = 0 ∧ ∃ more, Stocked chunks ownNpb result.2 more) ∨
      (result.1 < 0 ∧ Ledger (SafeStock chunks) result.2.log ownNpb)) :
    ((afterInit result).1 = 0 ∧ Bound chunks (afterInit result).2) ∨
      ((afterInit result).1 < 0 ∧ Ledger (SafeStock chunks) (afterInit result).2.log ∅) := by
  obtain ⟨err, driver⟩ := result
  simp only [afterInit]
  rcases left with ⟨passed, more, stocked⟩ | ⟨failed, ledger⟩
  · rw [if_neg (not_not.mpr passed)]
    exact Or.inl ⟨rfl, _, more, rfl, stocked.opening.toLedger, stocked.tracks, stocked.outside⟩
  · rw [if_pos (ne_of_lt failed)]
    exact Or.inr ⟨failed, ledger_errInit ledger⟩

theorem npbPciProbe_leaves (calls : KernelCalls) (chunks : Nat) :
    ((npbPciProbe calls chunks .unbound).1 = 0 ∧
        Bound chunks (npbPciProbe calls chunks .unbound).2) ∨
      ((npbPciProbe calls chunks .unbound).1 < 0 ∧
        Ledger (SafeStock chunks) (npbPciProbe calls chunks .unbound).2.log ∅) := by
  have nothing : Plain ∅ := fun _ present => absurd present (Set.notMem_empty _)
  let found := Driver.unbound.acquire .device
  let reserved := found.acquire .regions
  let opened := reserved.acquire .cpp
  let registered := opened.acquire .devCpp
  have start : Opening (SafeStock chunks) Driver.unbound.log ∅ := opening_nil nothing.safe
  have device : Opening (SafeStock chunks) found.log ownDevice :=
    start.acquire (Set.notMem_empty _) plain_device.safe
  have regions : Opening (SafeStock chunks) reserved.log ownRegions :=
    device.acquire (by simp [ownDevice]) plain_regions.safe
  have cpp : Opening (SafeStock chunks) opened.log ownCpp :=
    regions.acquire (by simp [ownRegions, ownDevice]) plain_cpp.safe
  have devCpp : Opening (SafeStock chunks) registered.log ownDevCpp :=
    cpp.acquire (by simp [ownCpp, ownRegions, ownDevice]) plain_devCpp.safe
  have npb : Opening (SafeStock chunks) (registered.acquire .npb).log ownNpb :=
    devCpp.acquire (by simp [ownDevCpp, ownCpp, ownRegions, ownDevice]) plain_npb.safe
  simp only [npbPciProbe]
  split
  · rename_i failed
    exact Or.inr ⟨failed, start.toLedger⟩
  split
  · rename_i failed
    exact Or.inr ⟨failed, ledger_errDmaMask device.toLedger⟩
  split
  · rename_i failed
    exact Or.inr ⟨failed, ledger_errDmaMask device.toLedger⟩
  split
  · rename_i failed
    exact Or.inr ⟨failed, ledger_errDmaMask device.toLedger⟩
  split
  · exact Or.inr ⟨neg_errno.2, ledger_errNfpCpp regions.toLedger⟩
  rename_i handle _
  split
  · rename_i failed
    refine Or.inr ⟨?_, ledger_errNfpCpp regions.toLedger⟩
    rw [errNfpCpp_code]
    exact ptrErr_code handle
  split
  · exact Or.inr ⟨neg_errno.2, ledger_errRegDev cpp.toLedger⟩
  split
  · exact Or.inr ⟨neg_errno.1, ledger_errKzalloc devCpp.toLedger⟩
  have stocked := stocked_zeroed handle calls.platformDeviceRegister npb plain_npb
  have empty : Filled 0 ownNpb := ⟨by simp [ownNpb, ownDevCpp, ownCpp, ownRegions, ownDevice],
    by simp [ownNpb, ownDevCpp, ownCpp, ownRegions, ownDevice],
    by simp [ownNpb, ownDevCpp, ownCpp, ownRegions, ownDevice, NpbResource.isProc]⟩
  exact afterInit_leaves (npbInit_leaves stocked empty)

theorem npbPciRemove_leaves (bound : Bound chunks driver) :
    Ledger (SafeStock chunks) (npbPciRemove chunks driver).log ∅ := by
  obtain ⟨npb, owned, drvdata, ledger, tracks, outside⟩ := bound
  have removed := ledger_npbRemove tracks ledger
  rw [outside] at removed
  have gone : ((((ownNpb \ {.devCpp}) \ {.cpp}) \ {.npb}) \ {.regions}) \ {.device} = ∅ := by
    ext resource
    simp only [ownNpb, ownDevCpp, ownCpp, ownRegions, ownDevice, Set.mem_sdiff,
      Set.mem_insert_iff, Set.mem_singleton_iff, Set.mem_empty_iff_false]
    tauto
  have unregistered := removed.release
    (show .devCpp ∈ ownNpb by simp [ownNpb, ownDevCpp]) (plain_npb.diff _).safe
  have closed := unregistered.release
    (show .cpp ∈ ownNpb \ {.devCpp} by simp [ownNpb, ownDevCpp, ownCpp])
    ((plain_npb.diff _).diff _).safe
  have freed := closed.release
    (show .npb ∈ (ownNpb \ {.devCpp}) \ {.cpp} by simp [ownNpb])
    (((plain_npb.diff _).diff _).diff _).safe
  have unreserved := freed.release
    (show .regions ∈ ((ownNpb \ {.devCpp}) \ {.cpp}) \ {.npb} by
      simp [ownNpb, ownDevCpp, ownCpp, ownRegions])
    ((((plain_npb.diff _).diff _).diff _).diff _).safe
  have disabled := unreserved.release
    (show .device ∈ (((ownNpb \ {.devCpp}) \ {.cpp}) \ {.npb}) \ {.regions} by
      simp [ownNpb, ownDevCpp, ownCpp, ownRegions, ownDevice])
    (((((plain_npb.diff _).diff _).diff _).diff _).diff _).safe
  rw [gone] at disabled
  simp only [npbPciRemove, drvdata]
  exact disabled

/-- For every chunk count and whatever the kernel calls return: a failed probe has released
all that it acquired, and so has a removal after a successful one, each resource once; proc
entries exist only over a complete buffer, and chunks are unmapped before they are freed. -/
theorem npbPciProbe_leakFree (calls : KernelCalls) (chunks : Nat) :
    Always (SafeStock chunks) (npbPciProbe calls chunks .unbound).2.log ∧
      ((npbPciProbe calls chunks .unbound).1 ≠ 0 →
        Settled (npbPciProbe calls chunks .unbound).2.log) ∧
      ((npbPciProbe calls chunks .unbound).1 = 0 →
        Settled (npbPciRemove chunks (npbPciProbe calls chunks .unbound).2).log ∧
          Always (SafeStock chunks)
            (npbPciRemove chunks (npbPciProbe calls chunks .unbound).2).log) := by
  rcases npbPciProbe_leaves calls chunks with ⟨passed, bound⟩ | ⟨failed, ledger⟩
  · have removed := npbPciRemove_leaves bound
    obtain ⟨_, _, _, ledger, _⟩ := bound
    exact ⟨ledger.always, fun failed => absurd passed failed,
      fun _ => ⟨removed.settled, removed.always⟩⟩
  · exact ⟨ledger.always, fun _ => ledger.settled, fun passed => absurd passed failed.ne⟩

end Probe

end Pciebench
