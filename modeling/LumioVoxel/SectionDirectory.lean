import LumioVoxel.SectionSlots

/-!
# Section directory and staged replacements

The published directory maps sections to presence slots.  A builder edits a
private copy; a delta builder stages replacements against an immutable base and
only checks, when frozen, that each is a legal transition of the base slot.
-/

namespace LumioVoxel

open DebugText Fallible

/-! ## 1. The directory -/

structure SectionDirectoryRoot where
  entries : BTreeMap SectionId SectionSlot
  deriving DecidableEq

namespace SectionDirectoryRoot

def lookup (directory : SectionDirectoryRoot) (sectionId : String) :
    Except SectionError (Option SectionSlot) := do
  let id ← (SectionId.parse sectionId).mapError SectionError.key
  return directory.entries[id]?

@[simp] theorem lookup_key (directory : SectionDirectoryRoot) (id : SectionId) :
    directory.lookup id.key = .ok directory.entries[id]? := by
  simp only [lookup, SectionId.parse_key, mapError_ok, ok_bind]
  rfl

variable [UnicodeTables]

def debugEntry (entry : SectionId × SectionSlot) : Text × Text :=
  (record "SectionId" [("x", int entry.1.x), ("y", nat entry.1.y), ("z", int entry.1.z)],
    entry.2.debug)

def debug (directory : SectionDirectoryRoot) : Text :=
  record "SectionDirectoryRoot" [("entries", map (directory.entries.toList.map debugEntry))]

/-- The digest record of a slot with a storage sidecar. -/
def storageRecord (entry : SectionId × SectionSlot) : Bytes :=
  match entry.2.payload.bind SectionPayload.storageIdentityDigest with
  | some digest =>
    [0] ++ utf8 "SectionStorageV1" ++ [0] ++ utf8 entry.1.key ++ [0] ++ digest.toList
  | none => []

def identityBytes (directory : SectionDirectoryRoot) : Bytes :=
  utf8 (String.ofList directory.debug) ++ directory.entries.toList.flatMap storageRecord

end SectionDirectoryRoot

/-! ## 2. The builder -/

structure SectionDirectoryBuilder where
  entries : BTreeMap SectionId SectionSlot

namespace SectionDirectoryBuilder

def new : SectionDirectoryBuilder := ⟨∅⟩

def fromRoot (root : SectionDirectoryRoot) : SectionDirectoryBuilder := ⟨root.entries⟩

def insert (builder : SectionDirectoryBuilder) (sectionId : String) (slot : SectionSlot) :
    Except SectionError SectionDirectoryBuilder := do
  let id ← (SectionId.parse sectionId).mapError SectionError.key
  return ⟨builder.entries.insert id slot⟩

def freeze (builder : SectionDirectoryBuilder) : SectionDirectoryRoot := ⟨builder.entries⟩

@[simp] theorem insert_key (builder : SectionDirectoryBuilder) (id : SectionId)
    (slot : SectionSlot) : builder.insert id.key slot = .ok ⟨builder.entries.insert id slot⟩ := by
  simp only [insert, SectionId.parse_key, mapError_ok, ok_bind]
  rfl

theorem insert_eq_ok {builder next : SectionDirectoryBuilder} {raw : String} {slot : SectionSlot}
    (h : builder.insert raw slot = .ok next) :
    ∃ id : SectionId, raw = id.key ∧ next = ⟨builder.entries.insert id slot⟩ := by
  obtain ⟨id, hid, hnext⟩ := bind_eq_ok.mp h
  exact ⟨id, SectionId.parse_eq_ok.mp (mapError_eq_ok.mp hid), (Except.ok.inj hnext).symm⟩

end SectionDirectoryBuilder

/-! ## 3. Staged replacements -/

/-- One unpublished section replacement.  Cell ids are occupancy keys only. -/
structure StagedEdit where
  sectionId : String
  cellIds : List String
  slot : SectionSlot

/-- The replaced slots; the digest does not depend on the order of staging. -/
structure SectionReplacement where
  entries : BTreeMap SectionId SectionSlot
  deriving DecidableEq

namespace SectionReplacement

def get (replacement : SectionReplacement) (sectionId : String) :
    Except SectionError (Option SectionSlot) := do
  let id ← (SectionId.parse sectionId).mapError SectionError.key
  return replacement.entries[id]?

@[simp] theorem get_key (replacement : SectionReplacement) (id : SectionId) :
    replacement.get id.key = .ok replacement.entries[id]? := by
  simp only [get, SectionId.parse_key, mapError_ok, ok_bind]
  rfl

/-- Only canonical keys can be looked up. -/
theorem get_eq_ok {replacement : SectionReplacement} {raw : String} {slot : Option SectionSlot}
    (h : replacement.get raw = .ok slot) :
    ∃ id : SectionId, raw = id.key ∧ slot = replacement.entries[id]? := by
  obtain ⟨id, hid, hslot⟩ := bind_eq_ok.mp h
  exact ⟨id, SectionId.parse_eq_ok.mp (mapError_eq_ok.mp hid), (Except.ok.inj hslot).symm⟩

def digest (replacement : SectionReplacement) [UnicodeTables] : Digest :=
  sha256 (replacement.entries.toList.flatMap fun (id, slot) =>
    utf8 id.key ++ [0] ++ utf8 slot.presence.name ++ [0] ++
      match slot.payload with
      | some payload =>
        utf8 SECTION_PAGE_SCHEMA ++ [0] ++ payload.replacementIdentityDigest.toList
      | none => List.replicate 32 0)

end SectionReplacement

structure SectionDeltaBuilder where
  base : SectionDirectoryRoot
  staged : BTreeMap SectionId SectionSlot

namespace SectionDeltaBuilder

def new (root : SectionDirectoryRoot) : SectionDeltaBuilder := ⟨root, ∅⟩

def stage (builder : SectionDeltaBuilder) (edit : StagedEdit) :
    Except SectionError SectionDeltaBuilder := do
  let id ← (SectionId.parse edit.sectionId).mapError SectionError.key
  require ("" ∉ edit.cellIds ∧ edit.cellIds.Nodup) .invalidHandle
  require (builder.staged[id]? = none) .invalidHandle
  return { builder with staged := builder.staged.insert id edit.slot }

/-- The transition the base slot, if there is one, would make. -/
def checkStaged (base : SectionDirectoryRoot) (entry : SectionId × SectionSlot) :
    Except SectionError Unit := do
  match ← base.lookup entry.1.key with
  | some current =>
    let _ ← current.tryConvert entry.2.presence.name entry.2.payload
    return ()
  | none => return ()

def freeze (builder : SectionDeltaBuilder) : Except SectionError SectionReplacement := do
  foldSteps (fun _ entry => checkStaged builder.base entry) () builder.staged.toList
  return ⟨builder.staged⟩

theorem stage_eq_ok {builder next : SectionDeltaBuilder} {edit : StagedEdit} :
    builder.stage edit = .ok next ↔
      ∃ id : SectionId, edit.sectionId = id.key ∧ ("" ∉ edit.cellIds ∧ edit.cellIds.Nodup) ∧
        builder.staged[id]? = none ∧
        next = { builder with staged := builder.staged.insert id edit.slot } := by
  unfold stage
  simp only [bind_eq_ok, mapError_eq_ok, SectionId.parse_eq_ok, require_eq_ok, pure_eq_ok,
    exists_and_left, exists_const]
  constructor
  · rintro ⟨id, hid, hcells, hfresh, hnext⟩
    exact ⟨id, hid, hcells, hfresh, hnext.symm⟩
  · rintro ⟨id, hid, hcells, hfresh, hnext⟩
    exact ⟨id, hid, hcells, hfresh, hnext.symm⟩

/-- Freezing only checks; what it returns is what was staged. -/
theorem freeze_eq_ok {builder : SectionDeltaBuilder} {replacement : SectionReplacement}
    (h : builder.freeze = .ok replacement) : replacement = ⟨builder.staged⟩ := by
  obtain ⟨_, -, h⟩ := bind_eq_ok.mp h
  exact (Except.ok.inj h).symm

/-- Freezing succeeds when each staged slot is a legal transition. -/
theorem freeze_of_checked {builder : SectionDeltaBuilder}
    (h : ∀ entry ∈ builder.staged.toList, checkStaged builder.base entry = .ok ()) :
    builder.freeze = .ok ⟨builder.staged⟩ := by
  unfold freeze
  rw [foldSteps_of_forall h]
  rfl

@[simp] theorem freeze_new (root : SectionDirectoryRoot) : (new root).freeze = .ok ⟨∅⟩ :=
  freeze_of_checked fun entry h => by
    rw [new, BTreeMap.toList_empty] at h
    exact absurd h List.not_mem_nil

end SectionDeltaBuilder

end LumioVoxel
