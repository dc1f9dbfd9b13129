import LumioVoxel.Attempts
import LumioVoxel.BlockReads

/-!
# Bulk reads

Boxes and columns of cells are read as whole requests, in three ways: collected into segments,
shown to the caller's two visitors, or written into the caller's two buffers.  The functions
are embedded with every step that may panic; what they have in common is the list of cells of
the request, in y/z/x order.
-/

namespace LumioVoxel

open Attempts Fallible

/-! ## 1. Requests -/

/-- The contract's error table. -/
def VOXEL_WORLD_ERROR_CODES : List String :=
  ["unknown_section_key", "unknown_chunk_key", "section_y_out_of_range",
    "coordinate_out_of_bounds", "section_unavailable", "stale_section_revision",
    "palette_overflow", "section_encoding_mismatch", "section_digest_mismatch",
    "dirty_section_not_durable", "lighting_in_payload", "chunk_carries_data",
    "unknown_material_class", "material_class_not_a_cell_lane",
    "liquid_auto_propagation_unsupported", "cross_material_face_merge", "entity_binding_missing",
    "entity_binding_orphan", "entity_binding_type_mismatch", "entity_binding_not_sparse",
    "business_data_in_payload", "binding_commit_split", "block_type_scope_violation",
    "system_reserved_type_misuse", "room_local_type_without_mapping",
    "player_type_declares_behavior", "palette_reclaim_before_escalation",
    "dead_palette_entry_in_payload", "delta_base_revision_mismatch",
    "delta_used_for_first_delivery", "unresolved_hit_treated_as_air",
    "unresolved_hit_treated_as_solid", "query_buffer_overflow", "query_result_divergence",
    "collision_behavior_not_from_material_table", "query_mutates_world", "world_y_out_of_range",
    "block_catalog_not_dense", "block_catalog_name_reused", "block_catalog_row_incomplete",
    "read_budget_exceeded", "read_result_missing_revision", "write_batch_too_large",
    "unstructured_mutation_entry", "cell_offset_out_of_range", "residency_pin_exceeds_budget",
    "pin_region_not_ready", "pinned_section_evicted", "pinned_read_returned_pending",
    "unknown_behavior_template", "cell_read_missing_presence", "unregistered_block_type",
    "write_batch_partially_applied", "base_revision_on_full_encoding"]

/-- `QueryError::contract`, which panics for an identifier the table does not list. -/
def QueryError.refuse {α : Type} (id : String) : Attempt QueryError α :=
  if id ∈ VOXEL_WORLD_ERROR_CODES then .refused (.contract id) else .panicked

/-- A cell by its world coordinates. -/
abbrev CellPosition : Type := Int32 × Int64 × Int32

/-- The y range of a column; any two numbers, checked on use. -/
structure ColumnYRange where
  start : Int64
  last : Int64
  deriving DecidableEq, Repr

/-- `i64` arithmetic, where it does not overflow. -/
def checkedI64 (v : Int) : Option Int64 :=
  if -2 ^ 63 ≤ v ∧ v < 2 ^ 63 then some (Int64.ofInt v) else none

/-- `usize::try_from`. -/
def usizeOfI64 (v : Int64) : Option Nat := if 0 ≤ v.toInt then some v.toInt.toNat else none

def checkedMulUsize (a b : Nat) : Option Nat := if a * b < 2 ^ 64 then some (a * b) else none

def inclusiveAxisLen (start last : Int64) : Except QueryError Nat :=
  someOr ((checkedI64 (last.toInt - start.toInt)).bind fun delta =>
    (checkedI64 (delta.toInt + 1)).bind usizeOfI64) (.contract READ_BUDGET_EXCEEDED)

def boxCellCount (low high : CellPosition) : Except QueryError Nat := do
  require (¬ (high.1.toInt < low.1.toInt ∨ high.2.1.toInt < low.2.1.toInt ∨
    high.2.2.toInt < low.2.2.toInt)) .invalidHandle
  let _ ← (WorldY.new low.2.1).mapError QueryError.fromWorldY
  let _ ← (WorldY.new high.2.1).mapError QueryError.fromWorldY
  let width ← inclusiveAxisLen low.1.toInt64 high.1.toInt64
  let height ← inclusiveAxisLen low.2.1 high.2.1
  let depth ← inclusiveAxisLen low.2.2.toInt64 high.2.2.toInt64
  someOr ((checkedMulUsize width height).bind fun value => checkedMulUsize value depth)
    (.contract READ_BUDGET_EXCEEDED)

/-- `expect_err`, which panics on a value. -/
def expectErr {ε α β : Type} : Except ε α → Attempt β ε
  | .error err => .value err
  | .ok _ => .panicked

/-- `inclusive_len`; the subtraction and the addition are unchecked in the source and panic
where they overflow. -/
def ColumnYRange.inclusiveLen (range : ColumnYRange) : Attempt QueryError Nat := do
  if range.last.toInt < range.start.toInt then .refused .invalidHandle
  else if range.start.toInt < WORLD_Y_MIN then do
    let err ← expectErr (WorldY.new range.start)
    .refused (.fromWorldY err)
  else if WORLD_Y_MAX < range.last.toInt then do
    let err ← expectErr (WorldY.new range.last)
    .refused (.fromWorldY err)
  else do
    let delta ← Attempt.expect (checkedI64 (range.last.toInt - range.start.toInt))
    let len ← Attempt.expect (checkedI64 (delta.toInt + 1))
    let len := len.toUInt64.toNat
    Attempt.call (admitBudget len)
    return len

inductive ReadRequest where
  | box (low high : CellPosition)
  | column (x z : Int32) (range : ColumnYRange)

namespace ReadRequest

/-- How many cells the request says it has. -/
def count : ReadRequest → Attempt QueryError Nat
  | .box low high => Attempt.call (boxCellCount low high)
  | .column _ _ range => range.inclusiveLen

/-- The cells in y/z/x order. -/
def cells : ReadRequest → List CellPosition
  | .box low high =>
    (inclusive64 low.2.1 high.2.1).flatMap fun y =>
      (inclusive low.2.2 high.2.2).flatMap fun z =>
        (inclusive low.1 high.1).map fun x => (x, y, z)
  | .column x z range => (inclusive64 range.start range.last).map fun y => (x, y, z)

end ReadRequest

/-! ## 2. Collected reads -/

structure ReadSegment where
  sectionId : String
  presence : Presence
  sectionRevision : UInt64
  cells : List ReadCell
  blockIds : Option (List BlockId)
  deriving DecidableEq

structure BlockReadResult where
  segments : List ReadSegment
  cellCount : Nat
  deriving DecidableEq

/-- A segment under construction has the fields of the segment. -/
abbrev SegmentBuilder : Type := ReadSegment

namespace SegmentBuilder

def new (sectionId : String) (presence : Presence) (sectionRevision : UInt64)
    (resolved : Bool) : SegmentBuilder :=
  ⟨sectionId, presence, sectionRevision, [], if resolved then some [] else none⟩

def push (segment : SegmentBuilder) (cell : ReadCell) : SegmentBuilder where
  sectionId := segment.sectionId
  presence := segment.presence
  sectionRevision := segment.sectionRevision
  cells := segment.cells ++ [cell]
  blockIds :=
    match segment.blockIds, cell.blockId with
    | some ids, some blockId => some (ids ++ [blockId])
    | ids, _ => ids

end SegmentBuilder

/-- The segments so far and the position of each section among them. -/
structure SegmentTable where
  segments : List SegmentBuilder
  indexes : BTreeMap String Nat

/-- The index of the section's segment, which is opened if there is none. -/
def SegmentTable.indexOf (table : SegmentTable) (sectionId : String) (presence : Presence)
    (sectionRevision : UInt64) (cell : ReadCell) : SegmentTable × Nat :=
  match table.indexes[sectionId]? with
  | some index => (table, index)
  | none =>
    let index := table.segments.length
    (⟨table.segments ++
        [SegmentBuilder.new sectionId presence sectionRevision cell.blockId.isSome],
      table.indexes.insert sectionId index⟩, index)

namespace BlockReadWorld

def cellAt (world : BlockReadWorld) (position : CellPosition) :
    Except QueryError (String × Presence × UInt64 × ReadCell) := do
  let (id, presence, sectionRevision, cell) ←
    world.cellAtSection position.1 position.2.1 position.2.2
  return (id.key, presence, sectionRevision, cell)

/-- One cell of `read_cells`. -/
def fileCell (world : BlockReadWorld) (table : SegmentTable) (position : CellPosition) :
    Attempt QueryError SegmentTable := do
  let (sectionId, presence, sectionRevision, cell) ← Attempt.call (world.cellAt position)
  let (table, index) := table.indexOf sectionId presence sectionRevision cell
  let segment ← Attempt.expect table.segments[index]?
  Attempt.check (segment.presence = presence ∧ segment.sectionRevision = sectionRevision)
    .invalidHandle
  return { table with segments := table.segments.set index (SegmentBuilder.push segment cell) }

def readCells (world : BlockReadWorld) (request : ReadRequest) (count : Nat) :
    Attempt QueryError BlockReadResult := do
  Attempt.call (admitBudget count)
  let table ← Attempt.foldSteps world.fileCell ⟨[], ∅⟩ request.cells
  return ⟨table.segments, count⟩

/-- The body of `read_box` and `read_column`. -/
def read (world : BlockReadWorld) (request : ReadRequest) :
    Attempt QueryError BlockReadResult := do
  let count ← request.count
  world.readCells request count

def readBox (world : BlockReadWorld) (low high : CellPosition) :
    Attempt QueryError BlockReadResult :=
  world.read (.box low high)

def readColumn (world : BlockReadWorld) (x z : Int32) (range : ColumnYRange) :
    Attempt QueryError BlockReadResult :=
  world.read (.column x z range)

end BlockReadWorld

/-- One segment's presence, as the guard sees it. -/
def ReadSegment.validatePresence (segment : ReadSegment) (guard : SectionPresenceGuard) :
    Attempt QueryError Unit :=
  match guard segment.sectionId segment.presence.name with
  | .ok () => .value ()
  | .error code => QueryError.refuse code

def BlockReadResult.validatePresenceGuard (result : BlockReadResult)
    (guard : SectionPresenceGuard) : Attempt QueryError Unit :=
  Attempt.foldSteps (fun _ segment => segment.validatePresence guard) () result.segments

/-- `read_box_with_presence_guard` and `read_column_with_presence_guard`. -/
def BlockReadWorld.readWithPresenceGuard (world : BlockReadWorld) (request : ReadRequest)
    (guard : SectionPresenceGuard) : Attempt QueryError BlockReadResult := do
  let result ← world.read request
  result.validatePresenceGuard guard
  return result

/-! ## 3. Visited reads -/

structure BufferedReadSegment where
  sectionId : SectionId
  presence : Presence
  sectionRevision : UInt64
  firstCell : Nat
  cellCount : Nat
  deriving DecidableEq

structure BufferedReadCell where
  sectionId : SectionId
  presence : Presence
  sectionRevision : UInt64
  cell : ReadCell
  deriving DecidableEq

structure BufferedBlockReadResult where
  cellCount : Nat
  segmentCount : Nat
  fullyResolved : Bool
  deriving DecidableEq, Repr

/-- A call of one of the two visitors. -/
inductive VisitCall where
  | onCell (position : Nat) (cell : BufferedReadCell)
  | onSegment (index : Nat) (segment : BufferedReadSegment)

/-- What `preflight_cells` keeps from cell to cell. -/
structure Preflight where
  segmentCount : Nat
  previous : Option (SectionId × Presence × UInt64)
  fullyResolved : Bool

/-- What `visit_cells_after_preflight` keeps from cell to cell. -/
structure VisitState where
  calls : List VisitCall
  position : Nat
  current : Option BufferedReadSegment
  segmentIndex : Nat

namespace BlockReadWorld

/-- One cell of `preflight_cells`. -/
def preflightCell (world : BlockReadWorld) (s : Preflight) (position : CellPosition) :
    Attempt QueryError Preflight := do
  let (id, presence, sectionRevision, cell) ←
    Attempt.call (world.cellAtSection position.1 position.2.1 position.2.2)
  let key := (id, presence, sectionRevision)
  let fullyResolved := s.fullyResolved && cell.blockId.isSome
  if s.previous ≠ some key then do
    let segmentCount ← Attempt.call (someOr (checkedAddUsize s.segmentCount 1) .invalidHandle)
    return ⟨segmentCount, some key, fullyResolved⟩
  else return ⟨s.segmentCount, s.previous, fullyResolved⟩

def preflightCells (world : BlockReadWorld) (request : ReadRequest) (count : Nat) :
    Attempt QueryError BufferedBlockReadResult := do
  Attempt.call (admitBudget count)
  let s ← Attempt.foldSteps world.preflightCell ⟨0, none, true⟩ request.cells
  return ⟨count, s.segmentCount, s.fullyResolved⟩

/-- One cell of `visit_cells_after_preflight`.  It returns nothing and cannot refuse. -/
def visitCell (world : BlockReadWorld) (s : VisitState) (position : CellPosition) :
    Attempt Empty VisitState := do
  -- `expect("immutable read preflight validated every coordinate")`
  let (id, presence, sectionRevision, cell) ←
    Attempt.expect (world.cellAtSection position.1 position.2.1 position.2.2).toOption
  let calls := s.calls ++ [.onCell s.position ⟨id, presence, sectionRevision, cell⟩]
  let next : BufferedReadSegment := ⟨id, presence, sectionRevision, s.position, 1⟩
  match s.current with
  | some segment =>
    if segment.sectionId = id ∧ segment.presence = presence ∧
        segment.sectionRevision = sectionRevision then
      return ⟨calls, s.position + 1, some { segment with cellCount := segment.cellCount + 1 },
        s.segmentIndex⟩
    else
      return ⟨calls ++ [.onSegment s.segmentIndex segment], s.position + 1, some next,
        s.segmentIndex + 1⟩
  | none => return ⟨calls, s.position + 1, some next, s.segmentIndex⟩

/-- The visitor calls, in order. -/
def visitCellsAfterPreflight (world : BlockReadWorld) (request : ReadRequest)
    (summary : BufferedBlockReadResult) : Attempt Empty (List VisitCall) := do
  let s ← Attempt.foldSteps world.visitCell ⟨[], 0, none, 0⟩ request.cells
  let (calls, segmentIndex) := match s.current with
    | some segment => (s.calls ++ [.onSegment s.segmentIndex segment], s.segmentIndex + 1)
    | none => (s.calls, s.segmentIndex)
  -- `debug_assert_eq!(segment_index, summary.segment_count)`
  if segmentIndex = summary.segmentCount then return calls else .panicked

def visitCells (world : BlockReadWorld) (request : ReadRequest) (count : Nat) :
    Attempt QueryError BufferedBlockReadResult × List VisitCall :=
  match world.preflightCells request count with
  | .refused err => (.refused err, [])
  | .panicked => (.panicked, [])
  | .value summary =>
    match world.visitCellsAfterPreflight request summary with
    | .value calls => (.value summary, calls)
    | .refused err => nomatch err
    | .panicked => (.panicked, [])

/-- The body of `visit_box` and `visit_column`. -/
def visit (world : BlockReadWorld) (request : ReadRequest) :
    Attempt QueryError BufferedBlockReadResult × List VisitCall :=
  match request.count with
  | .refused err => (.refused err, [])
  | .panicked => (.panicked, [])
  | .value count => world.visitCells request count

def visitBox (world : BlockReadWorld) (low high : CellPosition) :
    Attempt QueryError BufferedBlockReadResult × List VisitCall :=
  world.visit (.box low high)

def visitColumn (world : BlockReadWorld) (x z : Int32) (range : ColumnYRange) :
    Attempt QueryError BufferedBlockReadResult × List VisitCall :=
  world.visit (.column x z range)

/-- `visit_box_with_presence_guard` and `visit_column_with_presence_guard`. -/
def visitWithPresenceGuard (world : BlockReadWorld) (request : ReadRequest)
    (guard : SectionPresenceGuard) :
    Attempt QueryError BufferedBlockReadResult × List VisitCall :=
  match world.readWithPresenceGuard request guard with
  | .refused err => (.refused err, [])
  | .panicked => (.panicked, [])
  | .value _ => world.visit request

end BlockReadWorld

/-! ## 4. Buffered reads -/

/-- The caller's buffers. -/
structure ReadBuffers where
  blockIds : List (Option BlockId)
  segments : List (Option BufferedReadSegment)

/-- The write of one visitor call; an index past the end panics. -/
def ReadBuffers.write (buffers : ReadBuffers) : VisitCall → Attempt Empty ReadBuffers
  | .onCell position cell =>
    if position < buffers.blockIds.length then
      .value { buffers with blockIds := buffers.blockIds.set position cell.cell.blockId }
    else .panicked
  | .onSegment index segment =>
    if index < buffers.segments.length then
      .value { buffers with segments := buffers.segments.set index (some segment) }
    else .panicked

namespace BlockReadWorld

def readCellsIntoBuffers (world : BlockReadWorld) (request : ReadRequest) (count : Nat)
    (buffers : ReadBuffers) : Attempt QueryError BufferedBlockReadResult × ReadBuffers :=
  match world.preflightCells request count with
  | .refused err => (.refused err, buffers)
  | .panicked => (.panicked, buffers)
  | .value summary =>
    if buffers.blockIds.length ≠ count then (.refused .invalidHandle, buffers)
    else if buffers.segments.length < summary.segmentCount then
      (.refused .invalidHandle, buffers)
    else
      match world.visitCellsAfterPreflight request summary >>=
          Attempt.foldSteps ReadBuffers.write buffers with
      | .value written => (.value summary, written)
      | .refused err => nomatch err
      | .panicked => (.panicked, buffers)

/-- The body of `read_box_into` and `read_column_into`. -/
def readInto (world : BlockReadWorld) (request : ReadRequest) (buffers : ReadBuffers) :
    Attempt QueryError BufferedBlockReadResult × ReadBuffers :=
  match request.count with
  | .refused err => (.refused err, buffers)
  | .panicked => (.panicked, buffers)
  | .value count => world.readCellsIntoBuffers request count buffers

def readBoxInto (world : BlockReadWorld) (low high : CellPosition) (buffers : ReadBuffers) :
    Attempt QueryError BufferedBlockReadResult × ReadBuffers :=
  world.readInto (.box low high) buffers

def readColumnInto (world : BlockReadWorld) (x z : Int32) (range : ColumnYRange)
    (buffers : ReadBuffers) : Attempt QueryError BufferedBlockReadResult × ReadBuffers :=
  world.readInto (.column x z range) buffers

/-- `read_box_into_with_presence_guard` and `read_column_into_with_presence_guard`. -/
def readIntoWithPresenceGuard (world : BlockReadWorld) (request : ReadRequest)
    (guard : SectionPresenceGuard) (buffers : ReadBuffers) :
    Attempt QueryError BufferedBlockReadResult × ReadBuffers :=
  match world.readWithPresenceGuard request guard with
  | .refused err => (.refused err, buffers)
  | .panicked => (.panicked, buffers)
  | .value _ => world.readInto request buffers

end BlockReadWorld

end LumioVoxel
