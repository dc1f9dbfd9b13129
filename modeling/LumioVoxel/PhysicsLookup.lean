import LumioVoxel.MapRebuilds
import LumioVoxel.ResolvedReads
import LumioVoxel.WorldCoordinates

/-!
# Physics cell lookup

Physical queries keep their own section table, built from the same published
cuts.  A resolved `Unchanged` ticket is kept as ready storage, so the table does
not tell the two apart.  The lookup of one cell comes first; what the found
block means to a query is decided after it, by the material table.
-/

namespace LumioVoxel

open Fallible

/-! ## 1. Errors, cells and materials -/

structure PhysicsQueryError where
  errorId : String
  deriving DecidableEq, Repr

namespace PhysicsQueryError

/-- An identifier of the contract's error table. -/
def contract (id : String) : PhysicsQueryError := ⟨id⟩

def unknownMaterialClass : PhysicsQueryError := contract UNKNOWN_MATERIAL_CLASS
def worldYOutOfRange : PhysicsQueryError := contract WORLD_Y_OUT_OF_RANGE

end PhysicsQueryError

structure CellCoord where
  x : Int32
  y : Int32
  z : Int32
  deriving DecidableEq, Repr

inductive MaterialClass where
  | solid
  | liquid
  deriving DecidableEq, Repr

def MaterialClass.bit : MaterialClass → UInt8
  | .solid => 1
  | .liquid => 2

structure MaterialMask where
  raw : UInt8
  deriving DecidableEq, Repr

def MaterialMask.contains (mask : MaterialMask) (materialClass : MaterialClass) : Bool :=
  mask.raw &&& materialClass.bit != 0

abbrev MaterialClassLookup : Type := BlockType → Option MaterialClass

/-! ## 2. The section table -/

inductive SectionState where
  | ready (storage : SectionStorage)
  | pending
  | unavailable
  deriving DecidableEq

/-- The voxel half of the physics snapshot. -/
structure PhysicsWorld where
  sections : BTreeMap SectionId SectionState

namespace PhysicsWorld

def new : PhysicsWorld := ⟨∅⟩

def insertSection (world : PhysicsWorld) (id : SectionId) (state : SectionState) : PhysicsWorld :=
  ⟨world.sections.insert id state⟩

def insertReady (world : PhysicsWorld) (id : SectionId) (storage : SectionStorage) : PhysicsWorld :=
  world.insertSection id (.ready storage)

def insertPending (world : PhysicsWorld) (id : SectionId) : PhysicsWorld :=
  world.insertSection id .pending

def insertUnavailable (world : PhysicsWorld) (id : SectionId) : PhysicsWorld :=
  world.insertSection id .unavailable

def insertSlot (baseline : SectionStorageResolver) (world : PhysicsWorld)
    (item : SectionId × SectionSlot) : Except PhysicsQueryError PhysicsWorld :=
  match item.2.presence with
  | .ready => do
    let storage ← someOr item.2.storage (.contract SECTION_ENCODING_MISMATCH)
    return world.insertReady item.1 storage
  | .pending => .ok (world.insertPending item.1)
  | .unchanged => do
    let storage ← someOr (baseline item.1) (.contract SECTION_ENCODING_MISMATCH)
    return world.insertReady item.1 storage
  | .unavailable => .ok (world.insertUnavailable item.1)

/-- Materializes a published cut, resolving `Unchanged` tickets against the
baseline. -/
def fromPublishedViewWithBaseline (view : PublishedReadView) (baseline : SectionStorageResolver) :
    Except PhysicsQueryError PhysicsWorld :=
  foldSteps (insertSlot baseline) new view.root.directory.entries.toList

end PhysicsWorld

/-! ## 3. The lookup -/

/-- What is found at a cell before materials are considered. -/
inductive CellLookup where
  | outside
  | unresolved (id : SectionId)
  | block (id : BlockId)
  deriving DecidableEq

inductive CellVisit where
  | hit (id : BlockId)
  | empty
  | unresolved (id : SectionId)
  deriving DecidableEq

structure PhysicsQuery where
  world : PhysicsWorld
  materials : MaterialClassLookup
  guard : Option SectionPresenceGuard

namespace PhysicsQuery

def new (world : PhysicsWorld) (materials : MaterialClassLookup) : PhysicsQuery :=
  ⟨world, materials, none⟩

def withPresenceGuard (world : PhysicsWorld) (materials : MaterialClassLookup)
    (guard : SectionPresenceGuard) : PhysicsQuery :=
  ⟨world, materials, some guard⟩

def validatePresence (query : PhysicsQuery) (id : SectionId) (presence : String) :
    Except PhysicsQueryError Unit :=
  match query.guard with
  | some guard => (guard id.key presence).mapError PhysicsQueryError.contract
  | none => .ok ()

/-- The part of `block_at` up to the storage read. -/
def lookup (query : PhysicsQuery) (cell : CellCoord) : Except PhysicsQueryError CellLookup :=
  if cell.y.toInt < 0 ∨ WORLD_Y_MAX < cell.y.toInt then
    .ok .outside
  else do
    let worldY ← (WorldY.new cell.y.toInt64).mapError fun _ => PhysicsQueryError.worldYOutOfRange
    let id ← (SectionId.new (divEuclid16 cell.x) (divEuclid16 cell.y).toInt64
      (divEuclid16 cell.z)).mapError fun _ => PhysicsQueryError.worldYOutOfRange
    match query.world.sections[id]? with
    | none =>
      query.validatePresence id "Unavailable"
      return .unresolved id
    | some state =>
      let presence := match state with
        | .ready _ => "Ready"
        | .pending => "Pending"
        | .unavailable => "Unavailable"
      query.validatePresence id presence
      match state with
      | .ready storage => return .block (storage.readWorld cell.x worldY cell.z)
      | _ => return .unresolved id

/-- What a block means to a query: air is empty, anything else is classified. -/
def classify (query : PhysicsQuery) (filter : MaterialMask) (id : BlockId) :
    Except PhysicsQueryError CellVisit :=
  if id.blockType.raw = 0 then
    .ok .empty
  else
    match query.materials id.blockType with
    | some materialClass => .ok (if filter.contains materialClass then .hit id else .empty)
    | none => .error .unknownMaterialClass

def blockAt (query : PhysicsQuery) (cell : CellCoord) (filter : MaterialMask) :
    Except PhysicsQueryError CellVisit := do
  match ← query.lookup cell with
  | .outside => return .empty
  | .unresolved id => return .unresolved id
  | .block id => query.classify filter id

/-- Classification has one error of its own; every other one is the lookup's. -/
theorem blockAt_eq_error {query : PhysicsQuery} {cell : CellCoord} {filter : MaterialMask}
    {err : PhysicsQueryError} (hother : err ≠ .unknownMaterialClass) :
    query.blockAt cell filter = .error err ↔ query.lookup cell = .error err := by
  rw [blockAt, bind_eq_error, or_iff_left]
  rintro ⟨found, -, hfound⟩
  cases found with
  | outside => cases hfound
  | unresolved id => cases hfound
  | block id =>
    simp only [classify] at hfound
    split at hfound
    · cases hfound
    · split at hfound
      · cases hfound
      · exact hother (Except.error.inj hfound).symm

end PhysicsQuery

/-! ## 4. The table holds what the cut shows -/

namespace PhysicsWorld

/-- The table entry of one slot. -/
def stateOfSlot (baseline : SectionStorageResolver) (id : SectionId) (slot : SectionSlot) :
    Except PhysicsQueryError SectionState :=
  match slot with
  | .ready _ | .unchanged =>
    (someOr (slot.resolve baseline id) (.contract SECTION_ENCODING_MISMATCH)).map .ready
  | .pending => .ok .pending
  | .unavailable => .ok .unavailable

theorem insertSlot_eq (baseline : SectionStorageResolver) (world : PhysicsWorld) (id : SectionId)
    (slot : SectionSlot) :
    insertSlot baseline world (id, slot) =
      (stateOfSlot baseline id slot).map (world.insertSection id) := by
  cases slot with
  | ready payload =>
    simp only [insertSlot, SectionSlot.presence, stateOfSlot, SectionSlot.resolve,
      show (SectionSlot.ready payload).storage = payload.storage from rfl]
    cases payload.storage <;> rfl
  | unchanged =>
    simp only [insertSlot, SectionSlot.presence, stateOfSlot, SectionSlot.resolve]
    cases baseline id <;> rfl
  | pending => rfl
  | unavailable => rfl

theorem insertSlot_rebuilds (baseline : SectionStorageResolver) :
    BTreeMap.RebuildStep PhysicsWorld.sections (stateOfSlot baseline) (insertSlot baseline) where
  files := by
    intro acc out id slot _ hout
    rw [insertSlot_eq, map_eq_ok] at hout
    obtain ⟨state, hstate, rfl⟩ := hout
    exact ⟨state, hstate, rfl⟩
  proceeds := by
    intro acc id slot state _ hstate
    exact ⟨acc.insertSection id state, by rw [insertSlot_eq, hstate]; rfl⟩

/-- The table entry of a slot: its storage, if it promises blocks, else its
presence. -/
theorem stateOfSlot_eq_ok {baseline : SectionStorageResolver} {id : SectionId}
    {slot : SectionSlot} {state : SectionState} :
    stateOfSlot baseline id slot = .ok state ↔
      match slot.presence with
      | .ready | .unchanged => ∃ storage, slot.resolve baseline id = some storage ∧
          state = .ready storage
      | .pending => state = .pending
      | .unavailable => state = .unavailable := by
  cases slot with
  | ready payload => exact map_eq_ok.trans (exists_congr fun _ => and_congr_left' someOr_eq_ok)
  | unchanged => exact map_eq_ok.trans (exists_congr fun _ => and_congr_left' someOr_eq_ok)
  | pending => exact (Except.ok.injEq _ _).to_iff.trans eq_comm
  | unavailable => exact (Except.ok.injEq _ _).to_iff.trans eq_comm

/-- A slot has a table entry when it does not promise blocks it cannot resolve. -/
theorem exists_stateOfSlot_iff {baseline : SectionStorageResolver} {id : SectionId}
    {slot : SectionSlot} :
    (∃ state, stateOfSlot baseline id slot = .ok state) ↔
      (slot.presence.Holds → ∃ storage, slot.resolve baseline id = some storage) := by
  simp only [stateOfSlot_eq_ok, Presence.Holds]
  cases slot with
  | ready payload =>
    simp only [SectionSlot.presence, true_or, true_imp_iff]
    constructor
    · rintro ⟨_, storage, hstorage, -⟩
      exact ⟨storage, hstorage⟩
    · rintro ⟨storage, hstorage⟩
      exact ⟨_, storage, hstorage, rfl⟩
  | unchanged =>
    simp only [SectionSlot.presence, or_true, true_imp_iff]
    constructor
    · rintro ⟨_, storage, hstorage, -⟩
      exact ⟨storage, hstorage⟩
    · rintro ⟨storage, hstorage⟩
      exact ⟨_, storage, hstorage, rfl⟩
  | pending => simp [SectionSlot.presence]
  | unavailable => simp [SectionSlot.presence]

/-- The section table can be built exactly when every slot that promises blocks
has its storage. -/
theorem exists_fromPublishedView_iff {view : PublishedReadView}
    {baseline : SectionStorageResolver} :
    (∃ world, fromPublishedViewWithBaseline view baseline = .ok world) ↔
      view.root.Materializes baseline := by
  unfold fromPublishedViewWithBaseline
  rw [BTreeMap.exists_rebuild_iff (insertSlot_rebuilds baseline) (rfl : new.sections = ∅)]
  simp only [exists_stateOfSlot_iff, PublishedStateRoot.Materializes]

end PhysicsWorld

/-- The presence the lookup hands its guard: a section that shows blocks counts
as ready, however the cut stores it. -/
def observedPresence (root : PublishedStateRoot) (id : SectionId) : Presence :=
  match root.directory.entries[id]? with
  | some slot => if slot.presence.Holds then .ready else slot.presence
  | none => .unavailable

/-- A cell whose layer the world has is inside it, and its section can be built. -/
theorem CellCoord.section_of_worldY {cell : CellCoord} {worldY : WorldY}
    (hy : WorldY.new cell.y.toInt64 = .ok worldY) :
    ¬ (cell.y.toInt < 0 ∨ WORLD_Y_MAX < cell.y.toInt) ∧
      SectionId.new (divEuclid16 cell.x) (divEuclid16 cell.y).toInt64 (divEuclid16 cell.z) =
        .ok (SectionId.ofCell cell.x worldY cell.z) := by
  have hvalue : cell.y.toInt = worldY.value.toNat := by
    rw [← WorldY.new_eq_ok.mp hy, Int32.toInt_toInt64]
  constructor
  · have hlt := worldY.value.toNat_lt
    simp only [WORLD_Y_MAX]
    omega
  · apply SectionId.new_divEuclid16
    rw [Int32.toInt_toInt64, toInt_divEuclid16, hvalue]

/-- **Physics lookups refine the cut.** The guard is asked about the section of
the cell; if it admits, the answer is the block the cut shows there, or that
section unresolved. -/
theorem PhysicsQuery.lookup_eq {view : PublishedReadView} {baseline : SectionStorageResolver}
    {query : PhysicsQuery}
    (h : PhysicsWorld.fromPublishedViewWithBaseline view baseline = .ok query.world)
    {cell : CellCoord} {worldY : WorldY} (hy : WorldY.new cell.y.toInt64 = .ok worldY) :
    query.lookup cell = (do
      query.validatePresence (SectionId.ofCell cell.x worldY cell.z)
        (observedPresence view.root (SectionId.ofCell cell.x worldY cell.z)).name
      return match view.root.resolvedStorage baseline (SectionId.ofCell cell.x worldY cell.z) with
        | some storage => .block (storage.read (CellOffset.fromWorld cell.x worldY cell.z))
        | none => .unresolved (SectionId.ofCell cell.x worldY cell.z)) := by
  have hrel := BTreeMap.rel_of_rebuild (PhysicsWorld.insertSlot_rebuilds baseline) rfl h
    (SectionId.ofCell cell.x worldY cell.z)
  obtain ⟨hinside, hid⟩ := CellCoord.section_of_worldY hy
  simp only [lookup, if_neg hinside, hy, hid, mapError_ok, ok_bind, observedPresence,
    PublishedStateRoot.resolvedStorage, SectionStorage.readWorld]
  generalize view.root.directory.entries[SectionId.ofCell cell.x worldY cell.z]? = slot? at hrel
  generalize query.world.sections[SectionId.ofCell cell.x worldY cell.z]? = state? at hrel
  cases hrel with
  | none => rfl
  | some hstate =>
    rename_i slot state
    have hslot := PhysicsWorld.stateOfSlot_eq_ok.mp hstate
    cases slot with
    | ready payload =>
      obtain ⟨storage, hstorage, rfl⟩ := hslot
      simp only [Option.bind_some, hstorage]
      rfl
    | unchanged =>
      obtain ⟨storage, hstorage, rfl⟩ := hslot
      simp only [Option.bind_some, hstorage]
      rfl
    | pending =>
      obtain rfl := hslot
      rfl
    | unavailable =>
      obtain rfl := hslot
      rfl

end LumioVoxel
