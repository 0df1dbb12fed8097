import Mathlib

/-!
Blocks of memory that are allocated, used and freed under their addresses.
-/

namespace Blocks

inductive Event (Address : Type)
  | allocate (address : Address)
  | use (address : Address)
  | free (address : Address)
  deriving DecidableEq, Repr

variable {Address : Type} [DecidableEq Address]

/-- The blocks allocated after an event, from those before it. -/
def next (live : Finset Address) : Event Address → Finset Address
  | .allocate address => insert address live
  | .use _ => live
  | .free address => live.erase address

def liveAfter (live : Finset Address) (events : List (Event Address)) : Finset Address :=
  events.foldl next live

/-- What an event needs of the blocks that are allocated. -/
def Allowed (live : Finset Address) : Event Address → Prop
  | .allocate _ => True
  | .use address => address ∈ live
  | .free address => address ∈ live

/-- Every block is allocated at the time when it is used or freed. -/
def OnlyLive (live : Finset Address) : List (Event Address) → Prop
  | [] => True
  | event :: rest => Allowed live event ∧ OnlyLive (next live event) rest

variable {live : Finset Address}

theorem liveAfter_append (events more : List (Event Address)) :
    liveAfter live (events ++ more) = liveAfter (liveAfter live events) more :=
  List.foldl_append

theorem onlyLive_append {events more : List (Event Address)} :
    OnlyLive live (events ++ more) ↔
      OnlyLive live events ∧ OnlyLive (liveAfter live events) more := by
  induction events generalizing live with
  | nil => exact (iff_of_eq (true_and _)).symm
  | cons event rest ih =>
      rw [List.cons_append, OnlyLive, OnlyLive, ih, and_assoc]
      rfl

theorem OnlyLive.start {events whole : List (Event Address)} (onlyLive : OnlyLive live whole)
    (short : events <+: whole) : OnlyLive live events := by
  obtain ⟨more, rfl⟩ := short
  exact (onlyLive_append.mp onlyLive).1

/-- Blocks can be freed one after the other when they are allocated and none comes twice. -/
theorem onlyLive_frees {addresses : List Address} :
    OnlyLive live (addresses.map .free) ↔
      addresses.Nodup ∧ ∀ address ∈ addresses, address ∈ live := by
  induction addresses generalizing live with
  | nil => simp [OnlyLive]
  | cons first rest ih =>
      rw [List.map_cons, OnlyLive, ih, List.nodup_cons]
      simp only [Allowed, next, Finset.mem_erase, List.mem_cons, forall_eq_or_imp]
      constructor
      · rintro ⟨allocated, distinct, others⟩
        exact ⟨⟨fun again => (others first again).1 rfl, distinct⟩, allocated,
          fun address member => (others address member).2⟩
      · rintro ⟨⟨once, distinct⟩, allocated, others⟩
        exact ⟨allocated, distinct, fun address member =>
          ⟨fun same => once (same ▸ member), others address member⟩⟩

end Blocks
