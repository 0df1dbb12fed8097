import Mathlib
import Pciebench.Lib.Custody
import Pciebench.Lib.Machine
import Pciebench.NpbLeakFree

/-!
The life of the kernel module: loaded and unloaded any number of times, and in between bound to
any number of devices. A device is probed only while the driver is registered and it is not
bound, and removed only while it is; unregistering the driver removes what is still bound.
-/

namespace Pciebench

open Ownership Machine

inductive ModuleResource
  | cppcore
  | devCpp
  | driver
  | slot (device : Nat) (resource : NpbResource)
  deriving DecidableEq, Repr

/-- What the calls of `nfp_pciebench_init` return. -/
structure InitCalls where
  cppcoreInit : Int
  devCppInit : Int
  registerDriver : Int

/-- The module with the devices that it is bound to. -/
structure ModuleState where
  loaded : Bool
  bound : List (Nat × Driver)
  log : List (Event ModuleResource)

namespace ModuleState

def unloaded : ModuleState where
  loaded := false
  bound := []
  log := []

def acquire (state : ModuleState) (resource : ModuleResource) : ModuleState :=
  { state with log := state.log ++ [.acquire resource] }

def release (state : ModuleState) (resource : ModuleResource) : ModuleState :=
  { state with log := state.log ++ [.release resource] }

/-- What a device's calls added to its own log. -/
def record (state : ModuleState) (device : Nat) (events : List (Event NpbResource)) :
    ModuleState :=
  { state with log := state.log ++ events.map (Event.map (.slot device)) }

end ModuleState

section Init

/-! The labels at the end of `nfp_pciebench_init`. -/

def failCppcoreInit (err : Int) (state : ModuleState) : Int × ModuleState :=
  (err, state)

def failDevCppInit (err : Int) (state : ModuleState) : Int × ModuleState :=
  failCppcoreInit err (state.release .cppcore)

def failPciInit (err : Int) (state : ModuleState) : Int × ModuleState :=
  failDevCppInit err (state.release .devCpp)

def nfpPciebenchInit (calls : InitCalls) (state : ModuleState) : Int × ModuleState :=
  if calls.cppcoreInit < 0 then failCppcoreInit calls.cppcoreInit state
  else
    let state := state.acquire .cppcore
    if calls.devCppInit < 0 then failDevCppInit calls.devCppInit state
    else
      let state := state.acquire .devCpp
      if calls.registerDriver < 0 then failPciInit calls.registerDriver state
      else (calls.registerDriver, state.acquire .driver)

end Init

section Devices

variable (chunks : Nat)

def probeDevice (device : Nat) (calls : KernelCalls) (state : ModuleState) : ModuleState :=
  let (err, driver) := npbPciProbe calls chunks .unbound
  let state := state.record device driver.log
  if err = 0 then { state with bound := (device, driver) :: state.bound } else state

def removeDevice (state : ModuleState) (entry : Nat × Driver) : ModuleState :=
  let after := npbPciRemove chunks entry.2
  let state := state.record entry.1 (after.log.drop entry.2.log.length)
  { state with bound := state.bound.filter (·.1 ≠ entry.1) }

def nfpPciebenchExit (state : ModuleState) : ModuleState :=
  let state := state.bound.foldl (removeDevice chunks) state
  let state := state.release .driver
  let state := state.release .devCpp
  state.release .cppcore

inductive ModuleAction
  | load (calls : InitCalls)
  | probe (device : Nat) (calls : KernelCalls)
  | remove (device : Nat)
  | unload

/-- What the kernel does with the module. It stays loaded unless `nfp_pciebench_init` fails. -/
def moduleStep (state : ModuleState) : ModuleAction → Option ModuleState
  | .load calls =>
      if state.loaded then none
      else
        let (err, state) := nfpPciebenchInit calls state
        some { state with loaded := 0 ≤ err }
  | .probe device calls =>
      if state.loaded ∧ ∀ entry ∈ state.bound, entry.1 ≠ device then
        some (probeDevice chunks device calls state)
      else none
  | .remove device =>
      (state.bound.find? (·.1 = device)).map (removeDevice chunks state)
  | .unload =>
      if state.loaded then some { nfpPciebenchExit chunks state with loaded := false } else none

end Devices

section Slices

/-- What is held for one device. -/
def slice (owned : Set ModuleResource) (device : Nat) : Set NpbResource :=
  {resource | .slot device resource ∈ owned}

/-- What is held for the module and for the other devices. -/
def others (owned : Set ModuleResource) (device : Nat) : Set ModuleResource :=
  {held | held ∈ owned ∧ ∀ resource, .slot device resource ≠ held}

def withSlice (owned : Set ModuleResource) (device : Nat) (part : Set NpbResource) :
    Set ModuleResource :=
  ModuleResource.slot device '' part ∪ others owned device

variable {owned : Set ModuleResource} {device other : Nat} {part : Set NpbResource}
  {resource : NpbResource} {held : ModuleResource}

theorem slot_injective (device : Nat) : Function.Injective (ModuleResource.slot device) := by
  intro first second same
  injection same

theorem slot_not_others (resource : NpbResource) :
    .slot device resource ∉ others owned device :=
  fun present => present.2 resource rfl

theorem mem_withSlice_slot :
    .slot device resource ∈ withSlice owned device part ↔ resource ∈ part :=
  tagged_mem (slot_injective device) slot_not_others

theorem mem_withSlice_others (apart : ∀ resource, .slot device resource ≠ held) :
    held ∈ withSlice owned device part ↔ held ∈ owned := by
  constructor
  · rintro (⟨resource, _, same⟩ | present)
    · exact absurd same (apart resource)
    · exact present.1
  · intro present
    exact Or.inr ⟨present, apart⟩

theorem withSlice_self : withSlice owned device (slice owned device) = owned := by
  ext held
  by_cases mine : ∃ resource, .slot device resource = held
  · obtain ⟨resource, rfl⟩ := mine
    exact mem_withSlice_slot
  · exact mem_withSlice_others (not_exists.mp mine)

theorem slice_withSlice :
    slice (withSlice owned device part) = Function.update (slice owned) device part := by
  funext other
  by_cases same : other = device
  · subst other
    rw [Function.update_self]
    ext resource
    exact mem_withSlice_slot
  · rw [Function.update_of_ne same]
    ext resource
    refine mem_withSlice_others ?_
    intro mine equal
    injection equal with equal
    exact same equal.symm

end Slices

section Custody

/-- The modules below are up while those above are, devices are held only by a registered
driver, and what is held for each device is safe. -/
structure ModuleSafe (chunks : Nat) (owned : Set ModuleResource) : Prop where
  below : .devCpp ∈ owned → .cppcore ∈ owned
  registered : .driver ∈ owned → .devCpp ∈ owned
  driven : ∀ device resource, .slot device resource ∈ owned → .driver ∈ owned
  stock : ∀ device, SafeStock chunks (slice owned device)

variable {chunks : Nat} {owned : Set ModuleResource} {device : Nat} {part last : Set NpbResource}
  {driver : Driver} {state next : ModuleState} {events : List (Event NpbResource)}

theorem safeStock_empty : SafeStock chunks ∅ :=
  Plain.safe fun _ present => absurd present (Set.notMem_empty _)

theorem ModuleSafe.withSlice (safe : ModuleSafe chunks owned) (driven : .driver ∈ owned)
    (still : SafeStock chunks part) : ModuleSafe chunks (withSlice owned device part) where
  below := by
    rw [mem_withSlice_others (by simp), mem_withSlice_others (by simp)]
    exact safe.below
  registered := by
    rw [mem_withSlice_others (by simp), mem_withSlice_others (by simp)]
    exact safe.registered
  driven := by
    intro _ _ _
    exact (mem_withSlice_others (by simp)).mpr driven
  stock := by
    intro other
    rw [slice_withSlice]
    by_cases same : other = device
    · rw [same, Function.update_self]
      exact still
    · rw [Function.update_of_ne same]
      exact safe.stock other

theorem device_plays (safe : ModuleSafe chunks owned) (driven : .driver ∈ owned)
    (plays : Plays (SafeStock chunks) (slice owned device) events last) :
    Plays (ModuleSafe chunks) owned (events.map (Event.map (.slot device)))
      (withSlice owned device last) := by
  have apart (resource : NpbResource) : .slot device resource ∉ others owned device :=
    slot_not_others resource
  have inside := plays.tagged (slot_injective device) apart
    fun part still => safe.withSlice driven still
  rwa [← Pciebench.withSlice, withSlice_self] at inside

theorem releaseIf_extends (pointer : UInt64) (resource : NpbResource) :
    driver.log <+: (driver.releaseIf pointer resource).log := by
  rw [Driver.releaseIf]
  split
  · exact List.prefix_append _ _
  · exact List.prefix_rfl

theorem removeChunk_extends (npb : NfpPciebench) (chunk : Nat) :
    driver.log <+: (removeChunk npb driver chunk).log :=
  (releaseIf_extends _ _).trans (releaseIf_extends _ _)

theorem removeChunks_extends (npb : NfpPciebench) (indices : List Nat) :
    driver.log <+: (indices.foldl (removeChunk npb) driver).log := by
  induction indices generalizing driver with
  | nil => exact List.prefix_rfl
  | cons chunk rest ih => exact (removeChunk_extends npb chunk).trans ih

theorem npbRemove_extends (npb : NfpPciebench) :
    driver.log <+: (npbRemove chunks npb driver).log :=
  (releaseIf_extends _ _).trans <| (releaseIf_extends _ _).trans <|
    (releaseIf_extends _ _).trans (removeChunks_extends npb _)

theorem npbPciRemove_extends : driver.log <+: (npbPciRemove chunks driver).log := by
  rw [npbPciRemove]
  split
  · exact List.prefix_rfl
  · rename_i npb _
    have freed : driver.log <+: (npbRemove chunks npb driver).log := npbRemove_extends npb
    refine freed.trans ?_
    simp only [release_log, List.append_assoc]
    exact List.prefix_append _ _

theorem npbPciRemove_plays (bound : Bound chunks driver)
    (ledger : Ledger (SafeStock chunks) driver.log part) :
    Plays (SafeStock chunks) part ((npbPciRemove chunks driver).log.drop driver.log.length) ∅ := by
  have extends_ : driver.log <+: (npbPciRemove chunks driver).log := npbPciRemove_extends
  obtain ⟨more, extended⟩ := extends_
  have removed := npbPciRemove_leaves bound
  rw [← extended] at removed ⊢
  rw [List.drop_left]
  exact ledger.plays_on removed

theorem Bound.holds (bound : Bound chunks driver)
    (ledger : Ledger (SafeStock chunks) driver.log part) : ownNpb ⊆ part := by
  obtain ⟨_, owned, _, ledger', _, outside⟩ := bound
  have same : owned = part := ledger'.held.symm.trans ledger.held
  rw [← outside, ← same]
  exact fun resource present => present.1

/-- A loaded module: each bound device's slice is what the device's own log leaves. -/
structure Loaded (chunks : Nat) (state : ModuleState) (owned : Set ModuleResource) : Prop where
  plays : Plays (ModuleSafe chunks) ∅ state.log owned
  driven : .driver ∈ owned
  apart : (state.bound.map Prod.fst).Nodup
  bound : ∀ entry ∈ state.bound, Bound chunks entry.2 ∧
    Ledger (SafeStock chunks) entry.2.log (slice owned entry.1)
  free : ∀ device, device ∉ state.bound.map Prod.fst → slice owned device = ∅

theorem Loaded.safe (serving : Loaded chunks state owned) : ModuleSafe chunks owned := by
  obtain ⟨_, plays, safe⟩ := serving.plays.always List.prefix_rfl
  rwa [← plays.unique serving.plays]

theorem probeDevice_passed {calls : KernelCalls}
    (passed : (npbPciProbe calls chunks .unbound).1 = 0) :
    probeDevice chunks device calls state =
      let driver := (npbPciProbe calls chunks .unbound).2
      { state.record device driver.log with bound := (device, driver) :: state.bound } :=
  if_pos passed

theorem probeDevice_failed {calls : KernelCalls}
    (failed : (npbPciProbe calls chunks .unbound).1 ≠ 0) :
    probeDevice chunks device calls state =
      state.record device (npbPciProbe calls chunks .unbound).2.log :=
  if_neg failed

theorem Loaded.probe (serving : Loaded chunks state owned) (calls : KernelCalls)
    (new : device ∉ state.bound.map Prod.fst) :
    ∃ after, Loaded chunks (probeDevice chunks device calls state) after := by
  have empty := serving.free device new
  rcases npbPciProbe_leaves calls chunks with ⟨passed, bound⟩ | ⟨failed, ledger⟩
  · obtain ⟨_, part, _, ledger, _⟩ := id bound
    have plays : Plays (SafeStock chunks) (slice owned device)
        (npbPciProbe calls chunks .unbound).2.log part := by
      rw [empty]
      exact ledger.plays
    rw [probeDevice_passed passed]
    refine ⟨withSlice owned device part, ?_, ?_, ?_, ?_, ?_⟩
    · exact serving.plays.append (device_plays serving.safe serving.driven plays)
    · exact (mem_withSlice_others (by simp)).mpr serving.driven
    · exact List.nodup_cons.mpr ⟨new, serving.apart⟩
    · rw [slice_withSlice]
      intro entry present
      rcases List.mem_cons.mp present with rfl | earlier
      · rw [Function.update_self]
        exact ⟨bound, ledger⟩
      · have differs : entry.1 ≠ device := fun same =>
          new (same ▸ List.mem_map_of_mem earlier)
        rw [Function.update_of_ne differs]
        exact serving.bound entry earlier
    · rw [slice_withSlice]
      intro other absent
      rw [List.map_cons, List.mem_cons, not_or] at absent
      obtain ⟨differs, absent⟩ := absent
      rw [Function.update_of_ne differs]
      exact serving.free other absent
  · have plays : Plays (SafeStock chunks) (slice owned device)
        (npbPciProbe calls chunks .unbound).2.log (slice owned device) := by
      rw [empty]
      exact ledger.plays
    have still := device_plays serving.safe serving.driven plays
    rw [withSlice_self] at still
    rw [probeDevice_failed failed.ne]
    exact ⟨owned, serving.plays.append still, serving.driven, serving.apart, serving.bound,
      serving.free⟩

theorem mem_removed {bound : List (Nat × Driver)} {entry other : Nat × Driver} :
    other ∈ bound.filter (·.1 ≠ entry.1) ↔ other ∈ bound ∧ other.1 ≠ entry.1 := by
  rw [List.mem_filter, decide_eq_true_iff]

theorem Loaded.remove (serving : Loaded chunks state owned) {entry : Nat × Driver}
    (present : entry ∈ state.bound) :
    ∃ after, Loaded chunks (removeDevice chunks state entry) after := by
  obtain ⟨bound, ledger⟩ := serving.bound entry present
  have plays := npbPciRemove_plays bound ledger
  refine ⟨withSlice owned entry.1 ∅, ?_, ?_, ?_, ?_, ?_⟩
  · exact serving.plays.append (device_plays serving.safe serving.driven plays)
  · exact (mem_withSlice_others (by simp)).mpr serving.driven
  · exact serving.apart.sublist (List.filter_sublist.map _)
  · rw [slice_withSlice]
    intro other left
    obtain ⟨earlier, differs⟩ := mem_removed.mp left
    rw [Function.update_of_ne differs]
    exact serving.bound other earlier
  · rw [slice_withSlice]
    intro other absent
    by_cases same : other = entry.1
    · rw [same, Function.update_self]
    · rw [Function.update_of_ne same]
      refine serving.free other ?_
      intro listed
      obtain ⟨found, earlier, named⟩ := List.mem_map.mp listed
      exact absent (List.mem_map.mpr
        ⟨found, mem_removed.mpr ⟨earlier, named ▸ same⟩, named⟩)

theorem removeDevice_head {entry : Nat × Driver} {rest : List (Nat × Driver)}
    (bound : state.bound = entry :: rest) (apart : (state.bound.map Prod.fst).Nodup) :
    (removeDevice chunks state entry).bound = rest := by
  rw [bound, List.map_cons, List.nodup_cons] at apart
  have kept : rest.filter (·.1 ≠ entry.1) = rest := by
    rw [List.filter_eq_self]
    intro other present
    rw [decide_eq_true_iff]
    exact fun same => apart.1 (same ▸ List.mem_map_of_mem present)
  have dropped : (entry :: rest).filter (·.1 ≠ entry.1) = rest := by
    rw [List.filter_cons_of_neg (by simp)]
    exact kept
  change state.bound.filter _ = rest
  rw [bound]
  exact dropped

theorem Loaded.removeAll {rest : List (Nat × Driver)} (serving : Loaded chunks state owned)
    (bound : state.bound = rest) :
    (rest.foldl (removeDevice chunks) state).bound = [] ∧
      ∃ after, Loaded chunks (rest.foldl (removeDevice chunks) state) after := by
  induction rest generalizing state owned with
  | nil => exact ⟨bound, owned, serving⟩
  | cons entry rest ih =>
      have present : entry ∈ state.bound := by
        rw [bound]
        exact List.mem_cons_self
      obtain ⟨after, left⟩ := serving.remove present
      exact ih left (removeDevice_head bound serving.apart)

theorem moduleSafe_of {owned : Set ModuleResource} (below : .devCpp ∈ owned → .cppcore ∈ owned)
    (registered : .driver ∈ owned → .devCpp ∈ owned)
    (noSlots : ∀ device resource, .slot device resource ∉ owned) : ModuleSafe chunks owned where
  below := below
  registered := registered
  driven := fun device resource present => absurd present (noSlots device resource)
  stock := by
    intro device
    have empty : slice owned device = ∅ :=
      Set.eq_empty_of_forall_notMem (noSlots device)
    rw [empty]
    exact safeStock_empty

/-! What the module holds from each step of `nfp_pciebench_init` on. -/

def ownCppcore : Set ModuleResource := insert .cppcore ∅

def ownAccess : Set ModuleResource := insert .devCpp ownCppcore

def ownDriver : Set ModuleResource := insert .driver ownAccess

theorem moduleSafe_none : ModuleSafe chunks ∅ :=
  moduleSafe_of (by simp) (by simp) (by simp)

theorem moduleSafe_cppcore : ModuleSafe chunks ownCppcore :=
  moduleSafe_of (by simp [ownCppcore]) (by simp [ownCppcore]) (by simp [ownCppcore])

theorem moduleSafe_access : ModuleSafe chunks ownAccess :=
  moduleSafe_of (by simp [ownAccess, ownCppcore]) (by simp [ownAccess])
    (by simp [ownAccess, ownCppcore])

theorem moduleSafe_driver : ModuleSafe chunks ownDriver :=
  moduleSafe_of (by simp [ownDriver, ownAccess, ownCppcore]) (by simp [ownDriver, ownAccess])
    (by simp [ownDriver, ownAccess, ownCppcore])

/-- With no device bound, the module holds what `nfp_pciebench_init` acquired. -/
theorem Loaded.base (serving : Loaded chunks state owned) (bound : state.bound = []) :
    owned = ownDriver := by
  have safe := serving.safe
  have access := safe.registered serving.driven
  ext held
  cases held with
  | cppcore => exact iff_of_true (safe.below access) (by simp [ownDriver, ownAccess, ownCppcore])
  | devCpp => exact iff_of_true access (by simp [ownDriver, ownAccess])
  | driver => exact iff_of_true serving.driven (Set.mem_insert _ _)
  | slot device resource =>
      have empty := serving.free device (by rw [bound]; exact List.not_mem_nil)
      have missing : resource ∉ slice owned device := by
        rw [empty]
        exact Set.notMem_empty _
      exact iff_of_false missing (by simp [ownDriver, ownAccess, ownCppcore])

/-- A module that is not loaded holds nothing. -/
structure Unloaded (chunks : Nat) (state : ModuleState) : Prop where
  bound : state.bound = []
  plays : Plays (ModuleSafe chunks) ∅ state.log ∅

theorem plays_undo {resource : ModuleResource}
    (plays : Plays (ModuleSafe chunks) ∅ state.log (insert resource owned))
    (missing : resource ∉ owned) (safe : ModuleSafe chunks owned) :
    Plays (ModuleSafe chunks) ∅ (state.release resource).log owned := by
  have left : insert resource owned \ {resource} = owned :=
    Set.insert_sdiff_self_of_notMem missing
  have back := plays.released (Set.mem_insert resource owned) (by rwa [left])
  rwa [left] at back

theorem plays_failDevCppInit {err : Int}
    (plays : Plays (ModuleSafe chunks) ∅ state.log ownCppcore) :
    Plays (ModuleSafe chunks) ∅ (failDevCppInit err state).2.log ∅ :=
  plays_undo plays (Set.notMem_empty _) moduleSafe_none

theorem plays_failPciInit {err : Int}
    (plays : Plays (ModuleSafe chunks) ∅ state.log ownAccess) :
    Plays (ModuleSafe chunks) ∅ (failPciInit err state).2.log ∅ :=
  plays_failDevCppInit (plays_undo plays (by simp [ownCppcore]) moduleSafe_cppcore)

theorem Unloaded.load (resting : Unloaded chunks state) (calls : InitCalls) :
    ((nfpPciebenchInit calls state).1 < 0 ∧ Unloaded chunks (nfpPciebenchInit calls state).2) ∨
      (0 ≤ (nfpPciebenchInit calls state).1 ∧
        ∃ after, Loaded chunks (nfpPciebenchInit calls state).2 after) := by
  let core := state.acquire .cppcore
  let access := core.acquire .devCpp
  have cppcore : Plays (ModuleSafe chunks) ∅ core.log ownCppcore :=
    resting.plays.acquired (Set.notMem_empty _) moduleSafe_cppcore
  have devCpp : Plays (ModuleSafe chunks) ∅ access.log ownAccess :=
    cppcore.acquired (by simp [ownCppcore]) moduleSafe_access
  have driver : Plays (ModuleSafe chunks) ∅ (access.acquire .driver).log ownDriver :=
    devCpp.acquired (by simp [ownAccess, ownCppcore]) moduleSafe_driver
  simp only [nfpPciebenchInit]
  split
  · rename_i failed
    exact Or.inl ⟨failed, resting⟩
  split
  · rename_i failed
    exact Or.inl ⟨failed, resting.bound, plays_failDevCppInit cppcore⟩
  split
  · rename_i failed
    exact Or.inl ⟨failed, resting.bound, plays_failPciInit devCpp⟩
  · rename_i registered
    have none : (access.acquire .driver).bound = [] := resting.bound
    refine Or.inr ⟨not_lt.mp registered, ownDriver, driver, Set.mem_insert _ _, ?_, ?_, ?_⟩
    · rw [none]
      exact List.nodup_nil
    · rw [none]
      exact fun entry present => absurd present List.not_mem_nil
    · exact fun device _ => Set.eq_empty_of_forall_notMem fun resource =>
        (by simp [slice, ownDriver, ownAccess, ownCppcore])

theorem Loaded.unload (serving : Loaded chunks state owned) :
    Unloaded chunks (nfpPciebenchExit chunks state) := by
  obtain ⟨none, left, alone⟩ := serving.removeAll rfl
  have base := alone.base none
  have plays := alone.plays
  rw [base] at plays
  have unregistered := plays_undo plays (by simp [ownAccess, ownCppcore]) moduleSafe_access
  have closed := plays_undo unregistered (by simp [ownCppcore]) moduleSafe_cppcore
  exact ⟨none, plays_undo closed (Set.notMem_empty _) moduleSafe_none⟩

def Sound (chunks : Nat) (state : ModuleState) : Prop :=
  if state.loaded then ∃ owned, Loaded chunks state owned else Unloaded chunks state

theorem sound_up (up : state.loaded = true) (serving : ∃ owned, Loaded chunks state owned) :
    Sound chunks state := by
  rw [Sound, if_pos up]
  exact serving

theorem sound_loaded {result : Int × ModuleState}
    (left : (result.1 < 0 ∧ Unloaded chunks result.2) ∨
      (0 ≤ result.1 ∧ ∃ after, Loaded chunks result.2 after)) :
    Sound chunks { result.2 with loaded := 0 ≤ result.1 } := by
  rcases left with ⟨failed, resting⟩ | ⟨passed, owned, serving⟩
  · rw [Sound, if_neg (by simpa using failed)]
    exact ⟨resting.bound, resting.plays⟩
  · refine sound_up (by simpa using passed) ?_
    exact ⟨owned, serving.plays, serving.driven, serving.apart, serving.bound, serving.free⟩

theorem probeDevice_loaded {calls : KernelCalls} :
    (probeDevice chunks device calls state).loaded = state.loaded := by
  by_cases passed : (npbPciProbe calls chunks .unbound).1 = 0
  · rw [probeDevice_passed passed]
    rfl
  · rw [probeDevice_failed passed]
    rfl

theorem unbound_of_unlisted {bound : List (Nat × Driver)}
    (apart : ∀ entry ∈ bound, entry.1 ≠ device) : device ∉ bound.map Prod.fst := by
  intro listed
  obtain ⟨entry, present, same⟩ := List.mem_map.mp listed
  exact apart entry present same

theorem moduleStep_sound {action : ModuleAction} (sound : Sound chunks state)
    (moved : moduleStep chunks state action = some next) : Sound chunks next := by
  rw [Sound] at sound
  cases action with
  | load calls =>
      rw [moduleStep] at moved
      split at moved
      · exact absurd moved (by simp)
      · rename_i down
        rw [if_neg down] at sound
        obtain rfl := Option.some.inj moved
        exact sound_loaded (sound.load calls)
  | probe device calls =>
      rw [moduleStep] at moved
      split at moved
      · rename_i allowed
        rw [if_pos allowed.1] at sound
        obtain ⟨owned, serving⟩ := sound
        obtain rfl := Option.some.inj moved
        exact sound_up (probeDevice_loaded.trans allowed.1)
          (serving.probe calls (unbound_of_unlisted allowed.2))
      · exact absurd moved (by simp)
  | remove device =>
      obtain ⟨entry, found, rfl⟩ := Option.map_eq_some_iff.mp moved
      have present := List.mem_of_find?_eq_some found
      split at sound
      · rename_i up
        obtain ⟨owned, serving⟩ := sound
        exact sound_up up (serving.remove present)
      · rw [sound.bound] at present
        exact absurd present List.not_mem_nil
  | unload =>
      rw [moduleStep] at moved
      split at moved
      · rename_i up
        rw [if_pos up] at sound
        obtain ⟨owned, serving⟩ := sound
        obtain rfl := Option.some.inj moved
        have resting := serving.unload
        exact ⟨resting.bound, resting.plays⟩
      · exact absurd moved (by simp)

/-- Whatever loads, probes, removals and unloads come in whatever order, and whatever the kernel
calls return, nothing is acquired twice or released unless held, and no device is held without
the driver nor a proc entry without the whole buffer. An unloaded module holds nothing; a loaded
one holds its three layers, a slice for each bound device, and nothing else. -/
theorem moduleRuns_custody (chunks : Nat) (state : ModuleState)
    (reached : Reachable (moduleStep chunks) .unloaded state) :
    ∃ owned, Plays (ModuleSafe chunks) ∅ state.log owned ∧
      (state.loaded = false → owned = ∅) ∧
      (state.loaded = true → ownDriver ⊆ owned) ∧
      (∀ device ∈ state.bound.map Prod.fst, ownNpb ⊆ slice owned device) ∧
      ∀ device, device ∉ state.bound.map Prod.fst → slice owned device = ∅ := by
  have sound : Sound chunks state := by
    refine reached.invariant ⟨rfl, .nil moduleSafe_none⟩ ?_
    intro before action after _ sound _ moved
    exact moduleStep_sound sound moved
  rw [Sound] at sound
  split at sound
  · rename_i up
    obtain ⟨owned, serving⟩ := sound
    refine ⟨owned, serving.plays, ?_, ?_, ?_, serving.free⟩
    · exact fun down => absurd (up.symm.trans down) (by simp)
    · intro _
      have safe := serving.safe
      have access := safe.registered serving.driven
      rintro held (rfl | rfl | rfl | nothing)
      · exact serving.driven
      · exact access
      · exact safe.below access
      · exact absurd nothing (Set.notMem_empty _)
    · intro device listed
      obtain ⟨entry, present, rfl⟩ := List.mem_map.mp listed
      obtain ⟨bound, ledger⟩ := serving.bound entry present
      exact bound.holds ledger
  · rename_i down
    refine ⟨∅, sound.plays, fun _ => rfl, fun up => absurd up down, ?_, ?_⟩
    · rw [sound.bound]
      exact fun device listed => absurd listed List.not_mem_nil
    · exact fun device _ => rfl

/-- Kernel calls that all succeed, on an NFP-6000. -/
def grantedCalls : KernelCalls where
  enableDevice := 0
  setDmaMask := 0
  setConsistentDmaMask := 0
  requestRegions := 0
  device := .nfp6000
  cppFromNfp3200Pcie := 0
  cppFromNfp6000Pcie := 0x1000
  platformDeviceRegister := 0x2000
  kzalloc := 0x3000
  pageAddress := fun _ => 0x4000
  dmaMapSingle := fun _ => 0x5000
  procDmaAddrs := 0x6000
  procBufSz := 0x6100
  procBuffer := 0x6200

def registeredModule : ModuleState :=
  { (nfpPciebenchInit ⟨0, 0, 0⟩ .unloaded).2 with loaded := true }

theorem moduleRuns_custody_bound : ∃ owned,
    Plays (ModuleSafe 2) ∅ (probeDevice 2 3 grantedCalls registeredModule).log owned ∧
      ownDriver ⊆ owned ∧ ownNpb ⊆ slice owned 3 ∧ slice owned 4 = ∅ := by
  have done : exec (moduleStep 2) .unloaded [.load ⟨0, 0, 0⟩, .probe 3 grantedCalls] =
      some (probeDevice 2 3 grantedCalls registeredModule) := rfl
  obtain ⟨owned, plays, _, driver, bound, free⟩ :=
    moduleRuns_custody 2 _ (exec_reachable done)
  exact ⟨owned, plays, driver rfl, bound 3 (by decide), free 4 (by decide)⟩

end Custody

end Pciebench
