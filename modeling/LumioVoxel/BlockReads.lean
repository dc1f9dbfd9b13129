import LumioVoxel.MapRebuilds
import LumioVoxel.ResolvedReads
import LumioVoxel.WorldCoordinates

/-!
# Block reads

Gameplay reads go through a world of sections materialized from one published
cut.  A cell is decomposed into its section and offset, and the answer carries
the section's presence and revision besides the block.
-/

namespace LumioVoxel

open Fallible

/-! ## 1. Errors -/

structure QueryError where
  errorId : String
  deriving DecidableEq, Repr

namespace QueryError

def budgetExceeded : QueryError := ⟨"BudgetExceeded"⟩
def invalidHandle : QueryError := ⟨"InvalidHandle"⟩
def loaderCancelled : QueryError := ⟨"LoaderCancelled"⟩
def fromKey (err : KeyError) : QueryError := ⟨err.errorId⟩

/-- An identifier of the contract's error table. -/
def contract (id : String) : QueryError := ⟨id⟩

def fromWorldY (_ : WorldYError) : QueryError := contract WORLD_Y_OUT_OF_RANGE

end QueryError

/-! ## 2. The read source -/

/-- `Ready` and `Unchanged` carry storage; missing states do not. -/
structure BlockReadSection where
  presence : Presence
  sectionRevision : UInt64
  storage : Option SectionStorage
  storage_iff : storage.isSome = true ↔ presence.Holds

@[ext] theorem BlockReadSection.ext {a b : BlockReadSection} (hpresence : a.presence = b.presence)
    (hrevision : a.sectionRevision = b.sectionRevision) (hstorage : a.storage = b.storage) :
    a = b := by
  cases a
  cases b
  simp_all

/-- From a wire presence and an optional revision. -/
def BlockReadSection.fromParts (presence : String) (sectionRevision : Option UInt64)
    (storage : Option SectionStorage) : Except QueryError BlockReadSection := do
  let presence ← someOr (SECTION_PRESENCE.find? (·.name == presence))
    (.contract CELL_READ_MISSING_PRESENCE)
  let sectionRevision ← someOr sectionRevision (.contract READ_RESULT_MISSING_REVISION)
  if h : storage.isSome = true ↔ presence.Holds then
    return ⟨presence, sectionRevision, storage, h⟩
  else
    throw .invalidHandle

structure BlockReadWorld where
  sections : BTreeMap SectionId BlockReadSection

/-- One cell's result; no block for a section that shows none. -/
structure ReadCell where
  offset : CellOffset
  blockId : Option BlockId
  deriving DecidableEq

structure CellReadResult where
  sectionId : String
  presence : Presence
  sectionRevision : UInt64
  cell : ReadCell
  deriving DecidableEq

def CellReadResult.validatePresenceGuard (result : CellReadResult) (guard : SectionPresenceGuard) :
    Except QueryError Unit :=
  (guard result.sectionId result.presence.name).mapError QueryError.contract

def admitBudget (count : Nat) : Except QueryError Unit :=
  require (count ≤ MAX_CELLS_PER_READ_REQUEST) (.contract READ_BUDGET_EXCEEDED)

namespace BlockReadWorld

def new : BlockReadWorld := ⟨∅⟩

def insert (world : BlockReadWorld) (sectionId : String) (entry : BlockReadSection) :
    Except QueryError BlockReadWorld := do
  let id ← (SectionId.parse sectionId).mapError QueryError.fromKey
  require (world.sections[id]?.isNone = true) .invalidHandle
  return ⟨world.sections.insert id entry⟩

/-- The read section of one slot: the revision is the section's entry, or the
world revision. -/
def sectionOfSlot (stamp : RevisionStamp) (baseline : SectionStorageResolver) (id : SectionId)
    (slot : SectionSlot) : Except QueryError BlockReadSection :=
  let revision := stamp.effectiveRevision id.key
  let entry := match slot.presence with
    | .ready => BlockReadSection.fromParts "Ready" (some revision) slot.storage
    | .unchanged => BlockReadSection.fromParts "Unchanged" (some revision) (baseline id)
    | .pending => BlockReadSection.fromParts "Pending" (some revision) none
    | .unavailable => BlockReadSection.fromParts "Unavailable" (some revision) none
  entry.mapError fun _ => .contract SECTION_ENCODING_MISMATCH

def insertSlot (stamp : RevisionStamp) (baseline : SectionStorageResolver) (world : BlockReadWorld)
    (item : SectionId × SectionSlot) : Except QueryError BlockReadWorld := do
  let entry ← sectionOfSlot stamp baseline item.1 item.2
  world.insert item.1.key entry

/-- Materializes a published cut, resolving `Unchanged` tickets against the
baseline. -/
def fromPublishedViewWithBaseline (view : PublishedReadView)
    (baseline : SectionStorageResolver) : Except QueryError BlockReadWorld :=
  foldSteps (insertSlot view.root.stamp baseline) new view.root.directory.entries.toList

def fromPublishedView (view : PublishedReadView) :
    Except QueryError BlockReadWorld :=
  fromPublishedViewWithBaseline view fun _ => none

/-! ## 3. Reading a cell -/

/-- The section, presence, revision and cell at a coordinate. -/
def cellAtSection (world : BlockReadWorld) (x : Int32) (y : Int64) (z : Int32) :
    Except QueryError (SectionId × Presence × UInt64 × ReadCell) := do
  let worldY ← (WorldY.new y).mapError QueryError.fromWorldY
  let id ← (SectionId.new (divEuclid16 x) worldY.sectionY.toUInt64.toInt64
    (divEuclid16 z)).mapError QueryError.fromKey
  let offset := CellOffset.fromWorld x worldY z
  match world.sections[id]? with
  | some entry =>
    match entry.storage with
    | some storage =>
      if entry.presence.Holds then
        return (id, entry.presence, entry.sectionRevision, ⟨offset, some (storage.read offset)⟩)
      else
        throw .invalidHandle
    | none => return (id, entry.presence, entry.sectionRevision, ⟨offset, none⟩)
  | none => return (id, .unavailable, 0, ⟨offset, none⟩)

def readCell (world : BlockReadWorld) (x : Int32) (y : Int64) (z : Int32) :
    Except QueryError CellReadResult := do
  admitBudget 1
  let (id, presence, sectionRevision, cell) ← world.cellAtSection x y z
  return ⟨id.key, presence, sectionRevision, cell⟩

def readCellWithPresenceGuard (world : BlockReadWorld) (x : Int32) (y : Int64) (z : Int32)
    (guard : SectionPresenceGuard) : Except QueryError CellReadResult := do
  let result ← world.readCell x y z
  result.validatePresenceGuard guard
  return result

end BlockReadWorld

/-! ## 4. The world holds what the cut shows -/

theorem BlockReadSection.fromParts_name {presence : Presence} {revision : UInt64}
    {storage : Option SectionStorage} {entry : BlockReadSection} :
    fromParts presence.name (some revision) storage = .ok entry ↔
      (storage.isSome = true ↔ presence.Holds) ∧ entry.presence = presence ∧
        entry.sectionRevision = revision ∧ entry.storage = storage := by
  have hname : SECTION_PRESENCE.find? (·.name == presence.name) = some presence := by
    cases presence <;> decide
  simp only [fromParts, hname, someOr, ok_bind]
  split
  · rename_i hstorage
    rw [pure_eq_ok]
    constructor
    · rintro rfl
      exact ⟨hstorage, rfl, rfl, rfl⟩
    · rintro ⟨-, hpresence, hrevision, hstorage'⟩
      exact BlockReadSection.ext hpresence.symm hrevision.symm hstorage'.symm
  · rename_i hstorage
    constructor
    · intro h
      cases h
    · intro h
      exact absurd h.1 hstorage

namespace BlockReadWorld

theorem sectionOfSlot_eq_fromParts (stamp : RevisionStamp) (baseline : SectionStorageResolver)
    (id : SectionId) (slot : SectionSlot) :
    sectionOfSlot stamp baseline id slot =
      (BlockReadSection.fromParts slot.presence.name (some (stamp.effectiveRevision id.key))
        (slot.resolve baseline id)).mapError fun _ => .contract SECTION_ENCODING_MISMATCH := by
  cases slot <;> rfl

/-- A slot becomes a read section when it does not promise blocks it cannot
resolve. -/
theorem sectionOfSlot_eq_ok {stamp : RevisionStamp} {baseline : SectionStorageResolver}
    {id : SectionId} {slot : SectionSlot} {entry : BlockReadSection} :
    sectionOfSlot stamp baseline id slot = .ok entry ↔
      (slot.presence.Holds → ∃ storage, slot.resolve baseline id = some storage) ∧
        entry.presence = slot.presence ∧
        entry.sectionRevision = stamp.effectiveRevision id.key ∧
        entry.storage = slot.resolve baseline id := by
  rw [sectionOfSlot_eq_fromParts, mapError_eq_ok, BlockReadSection.fromParts_name,
    Option.isSome_iff_exists]
  have hback : (∃ storage, slot.resolve baseline id = some storage) → slot.presence.Holds :=
    fun ⟨_, hstorage⟩ => SectionSlot.holds_of_resolve hstorage
  constructor
  · rintro ⟨hiff, hentry⟩
    exact ⟨hiff.mpr, hentry⟩
  · rintro ⟨hholds, hentry⟩
    exact ⟨⟨hback, hholds⟩, hentry⟩

theorem insert_eq_ok {world out : BlockReadWorld} {id : SectionId} {entry : BlockReadSection} :
    world.insert id.key entry = .ok out ↔
      world.sections[id]? = none ∧ out = ⟨world.sections.insert id entry⟩ := by
  simp only [insert, SectionId.parse_key, mapError_ok, ok_bind, bind_eq_ok, require_eq_ok,
    Option.isNone_iff_eq_none, pure_eq_ok, exists_and_left, exists_const]
  exact and_congr_right fun _ => eq_comm

theorem insertSlot_rebuilds (stamp : RevisionStamp) (baseline : SectionStorageResolver) :
    BTreeMap.RebuildStep BlockReadWorld.sections (sectionOfSlot stamp baseline)
      (insertSlot stamp baseline) where
  files := by
    intro acc out id slot _ hout
    obtain ⟨entry, hentry, hinsert⟩ := bind_eq_ok.mp hout
    obtain ⟨-, rfl⟩ := insert_eq_ok.mp hinsert
    exact ⟨entry, hentry, rfl⟩
  proceeds := by
    intro acc id slot entry hnew hentry
    refine ⟨⟨acc.sections.insert id entry⟩, bind_eq_ok.mpr ⟨entry, hentry, ?_⟩⟩
    exact insert_eq_ok.mpr ⟨hnew, rfl⟩

/-- The read world can be built exactly when every slot that promises blocks has
its storage. -/
theorem exists_fromPublishedView_iff {view : PublishedReadView}
    {baseline : SectionStorageResolver} :
    (∃ world, fromPublishedViewWithBaseline view baseline = .ok world) ↔
      view.root.Materializes baseline := by
  unfold fromPublishedViewWithBaseline
  rw [BTreeMap.exists_rebuild_iff (insertSlot_rebuilds view.root.stamp baseline)
    (rfl : new.sections = ∅)]
  constructor
  · intro hall id slot hslot
    obtain ⟨entry, hentry⟩ := hall id slot hslot
    exact (sectionOfSlot_eq_ok.mp hentry).1
  · intro hmaterializes id slot hslot
    have hholds := hmaterializes id slot hslot
    refine ⟨⟨slot.presence, view.root.stamp.effectiveRevision id.key, slot.resolve baseline id, ?_⟩,
      sectionOfSlot_eq_ok.mpr ⟨hholds, rfl, rfl, rfl⟩⟩
    rw [Option.isSome_iff_exists]
    exact ⟨fun ⟨_, hstorage⟩ => SectionSlot.holds_of_resolve hstorage, hholds⟩

/-- The revision a cell of the section is reported with. -/
def reportedRevision (root : PublishedStateRoot) (id : SectionId) : UInt64 :=
  match root.directory.entries[id]? with
  | some _ => root.stamp.effectiveRevision id.key
  | none => 0

/-- The presence a cell of the section is reported with. -/
def reportedPresence (root : PublishedStateRoot) (id : SectionId) : Presence :=
  match root.directory.entries[id]? with
  | some slot => slot.presence
  | none => .unavailable

/-- **Block reads refine the cut.** A read of a cell answers with the section of
the cell and the block the cut shows there. -/
theorem readCell_eq {view : PublishedReadView} {baseline : SectionStorageResolver}
    {world : BlockReadWorld} (h : fromPublishedViewWithBaseline view baseline = .ok world)
    {x z : Int32} {y : Int64} {worldY : WorldY} (hy : WorldY.new y = .ok worldY) :
    world.readCell x y z = .ok ⟨(SectionId.ofCell x worldY z).key,
      reportedPresence view.root (SectionId.ofCell x worldY z),
      reportedRevision view.root (SectionId.ofCell x worldY z),
      ⟨CellOffset.fromWorld x worldY z,
        (view.root.resolvedStorage baseline (SectionId.ofCell x worldY z)).map
          (·.read (CellOffset.fromWorld x worldY z))⟩⟩ := by
  have hrel := BTreeMap.rel_of_rebuild (insertSlot_rebuilds view.root.stamp baseline) rfl h
    (SectionId.ofCell x worldY z)
  have hid := SectionId.new_divEuclid16 (x := x) (z := z) worldY.toInt_sectionY
  have hbudget : admitBudget 1 = .ok () := require_of (by decide) _
  simp only [readCell, hbudget, cellAtSection, hy, hid, mapError_ok, ok_bind, reportedPresence,
    reportedRevision, PublishedStateRoot.resolvedStorage]
  generalize view.root.directory.entries[SectionId.ofCell x worldY z]? = slot? at hrel
  generalize world.sections[SectionId.ofCell x worldY z]? = entry? at hrel
  cases hrel with
  | none => rfl
  | some hentry =>
    rename_i slot entry
    obtain ⟨hholds, hpresence, hrevision, hstorage⟩ := sectionOfSlot_eq_ok.mp hentry
    simp only [hpresence, hrevision, hstorage, Option.bind_some]
    cases hslot : slot.resolve baseline (SectionId.ofCell x worldY z) with
    | none => rfl
    | some storage =>
      simp only [if_pos (SectionSlot.holds_of_resolve hslot)]
      rfl

end BlockReadWorld

end LumioVoxel
