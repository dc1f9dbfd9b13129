import LumioVoxel.Publication

/-!
# What a cut shows

A published cut together with the original-map baseline determines what any
reader may see of a section: the storage of a `Ready` payload, the baseline's
storage for an `Unchanged` ticket, and nothing for a section that is `Pending`,
`Unavailable` or absent.  Every read path of the engine is compared with this
one function.
-/

namespace LumioVoxel

/-- The storage behind a slot, with tickets resolved against the baseline. -/
def SectionSlot.resolve (slot : SectionSlot) (baseline : SectionStorageResolver)
    (id : SectionId) : Option SectionStorage :=
  match slot with
  | .ready payload => payload.storage
  | .unchanged => baseline id
  | .pending => none
  | .unavailable => none

/-- The two presences a reader finds blocks under. -/
def Presence.Holds (presence : Presence) : Prop := presence = .ready ∨ presence = .unchanged

instance (presence : Presence) : Decidable presence.Holds :=
  inferInstanceAs (Decidable (_ ∨ _))

theorem SectionSlot.holds_of_resolve {slot : SectionSlot} {baseline : SectionStorageResolver}
    {id : SectionId} {storage : SectionStorage} (h : slot.resolve baseline id = some storage) :
    slot.presence.Holds := by
  cases slot with
  | ready payload => exact Or.inl rfl
  | unchanged => exact Or.inr rfl
  | pending => cases h
  | unavailable => cases h

namespace PublishedStateRoot

/-- The storage a reader of the cut finds in a section. -/
def resolvedStorage (root : PublishedStateRoot) (baseline : SectionStorageResolver)
    (id : SectionId) : Option SectionStorage :=
  root.directory.entries[id]?.bind (·.resolve baseline id)

/-- Every slot that promises blocks has its storage at hand. -/
def Materializes (root : PublishedStateRoot) (baseline : SectionStorageResolver) : Prop :=
  ∀ (id : SectionId) (slot : SectionSlot), root.directory.entries[id]? = some slot →
    slot.presence.Holds → ∃ storage, slot.resolve baseline id = some storage

end PublishedStateRoot

end LumioVoxel
