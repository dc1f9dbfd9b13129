import LumioVoxel.BoundedBuffers
import LumioVoxel.PhysicsRaycast

/-!
# Overlaps

A box is laid over the voxel grid and over the registered bodies, and what it overlaps is
counted and written to a buffer the caller owns.  What is found does not depend on the
buffer: a buffer that is too short takes the first of the finds and no more.
-/

namespace LumioVoxel

open Fallible BoundedBuffers

/-! ## 1. The cells of a box -/

/-- `as i32`, which saturates. -/
def saturateI32 (n : Int) : Int32 := Int32.ofInt (max (-2 ^ 31) (min n (2 ^ 31 - 1)))

/-- The canonical y/z/x order. -/
def rangeCells (low high : CellCoord) : List CellCoord :=
  (inclusive low.y high.y).flatMap fun y =>
    (inclusive low.z high.z).flatMap fun z =>
      (inclusive low.x high.x).map fun x => ⟨x, y, z⟩

/-- The cell is in the range on every axis. -/
def InRange (low high cell : CellCoord) : Prop :=
  ∀ axis, (low.get axis).toInt ≤ (cell.get axis).toInt ∧
    (cell.get axis).toInt ≤ (high.get axis).toInt

theorem mem_rangeCells {low high cell : CellCoord} :
    cell ∈ rangeCells low high ↔ InRange low high cell := by
  simp only [rangeCells, List.mem_flatMap, List.mem_map, mem_inclusive]
  constructor
  · rintro ⟨y, hy, z, hz, x, hx, rfl⟩ (_ | _ | _)
    · exact hx
    · exact hy
    · exact hz
  · intro h
    exact ⟨cell.y, h .y, cell.z, h .z, cell.x, h .x, rfl⟩

section Boxes

variable {K : Type} [Field K] [LinearOrder K] [FloorRing K]

def centerCell (shape : Aabb K) : CellCoord :=
  ⟨floorI32 shape.center.x, floorI32 shape.center.y, floorI32 shape.center.z⟩

/-- The lowest cell; below the world there are none. -/
def lowCell (shape : Aabb K) : CellCoord :=
  ⟨floorI32 shape.min.x, saturateI32 (max ⌊shape.min.y⌋ 0), floorI32 shape.min.z⟩

/-- The highest cell; above the world there are none, and the tolerance keeps out a cell
that a face only touches. -/
def highCell (epsilon : K) (shape : Aabb K) : CellCoord :=
  ⟨floorI32 (shape.max.x - epsilon), saturateI32 (min ⌊shape.max.y - epsilon⌋ WORLD_Y_MAX),
    floorI32 (shape.max.z - epsilon)⟩

def cellCount (low high : CellCoord) : Nat :=
  (high.x.toInt - low.x.toInt + 1).toNat * (high.y.toInt - low.y.toInt + 1).toNat *
    (high.z.toInt - low.z.toInt + 1).toNat

/-- The source multiplies with an overflow check, which fails only past the limit and with
the same error. -/
def cellRange (epsilon : K) (shape : Aabb K) :
    Except PhysicsQueryError (Option (CellCoord × CellCoord)) :=
  if shape.max.x < shape.min.x ∨ shape.max.y < shape.min.y ∨ shape.max.z < shape.min.z then
    .ok none
  else if (highCell epsilon shape).x < (lowCell shape).x ∨
      (highCell epsilon shape).y < (lowCell shape).y ∨
      (highCell epsilon shape).z < (lowCell shape).z then
    .ok none
  else if MAX_PHYSICS_QUERY_CELLS < cellCount (lowCell shape) (highCell epsilon shape) then
    .error .queryBufferOverflow
  else
    .ok (some (lowCell shape, highCell epsilon shape))

def aabbIntersects (left right : Aabb K) : Bool :=
  decide (left.min.x ≤ right.max.x ∧ right.min.x ≤ left.max.x ∧
    left.min.y ≤ right.max.y ∧ right.min.y ≤ left.max.y ∧
    left.min.z ≤ right.max.z ∧ right.min.z ≤ left.max.z)

end Boxes

/-- What an overlap asks of the numbers, whatever arithmetic they have. -/
structure OverlapGeometry (K : Type) where
  cellRange : Aabb K → Except PhysicsQueryError (Option (CellCoord × CellCoord))
  intersects : Aabb K → Aabb K → Bool
  centerCell : Aabb K → CellCoord

def exactGeometry {K : Type} [Field K] [LinearOrder K] [FloorRing K] (epsilon : K) :
    OverlapGeometry K :=
  ⟨cellRange epsilon, aabbIntersects, centerCell⟩

/-! ## 2. The overlap -/

structure OverlapHit where
  cell : CellCoord
  blockId : Option BlockId
  target : HitTarget
  deriving DecidableEq

structure OverlapResult where
  resolution : QueryResolution Unit
  actualCount : Nat
  writtenCount : Nat
  truncated : Bool
  deriving DecidableEq

def OverlapResult.of (s : Counter OverlapHit) (resolution : QueryResolution Unit) :
    OverlapResult :=
  ⟨resolution, s.actualCount, s.writtenCount, decide (s.buffer.length < s.actualCount)⟩

def bodyFind {K : Type} (geometry : OverlapGeometry K) (shape : Aabb K)
    (item : BodyId × Body K) : Option OverlapHit :=
  if geometry.intersects shape item.2.shape then
    some ⟨geometry.centerCell item.2.shape, none, .body item.1⟩
  else none

namespace PhysicsQuery

variable {K : Type}

/-- The loops over the cells, and what stopped them. -/
def overlapCells (query : PhysicsQuery) (filter : MaterialMask) :
    List CellCoord → Counter OverlapHit →
      Counter OverlapHit × Except PhysicsQueryError (Option SectionId)
  | [], s => (s, .ok none)
  | cell :: rest, s =>
    match query.blockAt cell filter with
    | .error err => (s, .error err)
    | .ok (.unresolved id) => (s, .ok (some id))
    | .ok (.hit id) => overlapCells query filter rest (s.count ⟨cell, some id, .block⟩)
    | .ok .empty => overlapCells query filter rest s

def overlapBodies (geometry : OverlapGeometry K) (bodies : BodyTable K) (shape : Aabb K)
    (s : Counter OverlapHit) : Counter OverlapHit :=
  (bodies.toList.filterMap (bodyFind geometry shape)).foldl Counter.count s

/-- The outcome, and the buffer as the query leaves it. -/
def overlap (geometry : OverlapGeometry K) (query : PhysicsQuery) (bodies : BodyTable K)
    (shape : Aabb K) (filter : MaterialMask) (buffer : List OverlapHit) :
    Except PhysicsQueryError OverlapResult × List OverlapHit :=
  match geometry.cellRange shape with
  | .error err => (.error err, buffer)
  | .ok none => (.ok ⟨.miss, 0, 0, false⟩, buffer)
  | .ok (some (low, high)) =>
    match query.overlapCells filter (rangeCells low high) ⟨0, 0, buffer⟩ with
    | (s, .error err) => (.error err, s.buffer)
    | (s, .ok (some id)) => (.ok (.of s (.unresolved id)), s.buffer)
    | (s, .ok none) =>
      (.ok (.of (overlapBodies geometry bodies shape s)
          (if (overlapBodies geometry bodies shape s).actualCount = 0 then .miss else .hit ())),
        (overlapBodies geometry bodies shape s).buffer)

end PhysicsQuery

/-! ## 3. What is found -/

/-- What an overlap comes upon, in order, and how it ends; the buffer has no part in it. -/
structure Survey where
  found : List OverlapHit
  ends : Except PhysicsQueryError (QueryResolution Unit)

/-- The finds of the cells, and what stopped the loops. -/
def cellFinds (query : PhysicsQuery) (filter : MaterialMask) :
    List CellCoord → List OverlapHit × Except PhysicsQueryError (Option SectionId)
  | [] => ([], .ok none)
  | cell :: rest =>
    match query.blockAt cell filter with
    | .error err => ([], .error err)
    | .ok (.unresolved id) => ([], .ok (some id))
    | .ok (.hit id) =>
      (⟨cell, some id, .block⟩ :: (cellFinds query filter rest).1, (cellFinds query filter rest).2)
    | .ok .empty => cellFinds query filter rest

def survey {K : Type} (geometry : OverlapGeometry K) (query : PhysicsQuery)
    (bodies : BodyTable K) (shape : Aabb K) (filter : MaterialMask) : Survey :=
  match geometry.cellRange shape with
  | .error err => ⟨[], .error err⟩
  | .ok none => ⟨[], .ok .miss⟩
  | .ok (some (low, high)) =>
    match cellFinds query filter (rangeCells low high) with
    | (found, .error err) => ⟨found, .error err⟩
    | (found, .ok (some id)) => ⟨found, .ok (.unresolved id)⟩
    | (found, .ok none) =>
      ⟨found ++ bodies.toList.filterMap (bodyFind geometry shape),
        .ok (if (found ++ bodies.toList.filterMap (bodyFind geometry shape)).length = 0 then .miss
          else .hit ())⟩

theorem overlapCells_after (query : PhysicsQuery) (filter : MaterialMask) (cells : List CellCoord)
    (buffer found : List OverlapHit) :
    query.overlapCells filter cells (.after buffer found) =
      (.after buffer (found ++ (cellFinds query filter cells).1),
        (cellFinds query filter cells).2) := by
  induction cells generalizing found with
  | nil => rw [PhysicsQuery.overlapCells, cellFinds, List.append_nil]
  | cons cell rest ih =>
    rw [PhysicsQuery.overlapCells, cellFinds]
    cases query.blockAt cell filter with
    | error err => simp only [List.append_nil]
    | ok visit =>
      cases visit with
      | unresolved id => simp only [List.append_nil]
      | empty => exact ih found
      | hit id =>
        simp only [Counter.count_after, ih, List.append_assoc, List.singleton_append]

variable {K : Type} {geometry : OverlapGeometry K} {query : PhysicsQuery} {bodies : BodyTable K}
  {shape : Aabb K} {filter : MaterialMask}

/-- **Overlaps fill their buffer from the survey.** -/
theorem overlap_eq (buffer : List OverlapHit) :
    query.overlap geometry bodies shape filter buffer =
      ((survey geometry query bodies shape filter).ends.map
          (OverlapResult.of (.after buffer (survey geometry query bodies shape filter).found)),
        (Counter.after buffer (survey geometry query bodies shape filter).found).buffer) := by
  unfold PhysicsQuery.overlap survey
  cases geometry.cellRange shape with
  | error err => simp only [Counter.after_nil, Except.map]
  | ok range =>
    cases range with
    | none =>
      simp only [Counter.after_nil, Except.map, OverlapResult.of, Nat.not_lt_zero, decide_false]
    | some range =>
      simp only [← Counter.after_nil buffer, overlapCells_after, List.nil_append]
      generalize cellFinds query filter (rangeCells range.1 range.2) = finds
      obtain ⟨found, stop⟩ := finds
      cases stop with
      | error err => rfl
      | ok stop =>
        cases stop with
        | some id => rfl
        | none => simp only [PhysicsQuery.overlapBodies, Counter.foldl_count]; rfl

/-! ## 4. The buffer law -/

/-- What a run says of its buffer and of the entries it wrote. -/
structure BufferLaw (buffer written : List OverlapHit)
    (run : Except PhysicsQueryError OverlapResult × List OverlapHit) : Prop where
  filled : Filled buffer written run.2
  counts : ∀ result, run.1 = .ok result → result.writtenCount = written.length ∧
    result.writtenCount = min buffer.length result.actualCount ∧
      (result.truncated = true ↔ buffer.length < result.actualCount)

/-- The same error, or the same resolution and the same count. -/
def SameOutcome : Except PhysicsQueryError OverlapResult →
    Except PhysicsQueryError OverlapResult → Prop
  | .error err, .error err' => err = err'
  | .ok result, .ok result' =>
    result.resolution = result'.resolution ∧ result.actualCount = result'.actualCount
  | _, _ => False

theorem overlap_keeps_law (buffer : List OverlapHit) :
    BufferLaw buffer ((survey geometry query bodies shape filter).found.take buffer.length)
      (query.overlap geometry bodies shape filter buffer) := by
  rw [overlap_eq]
  refine ⟨filled_after _ _, ?_⟩
  intro result hresult
  obtain ⟨resolution, -, rfl⟩ := map_eq_ok.mp hresult
  refine ⟨(List.length_take ..).symm, rfl, decide_eq_true_iff.trans ?_⟩
  rw [Counter.length_buffer_after]
  exact Iff.rfl

theorem overlap_same_outcome (buffer buffer' : List OverlapHit) :
    SameOutcome (query.overlap geometry bodies shape filter buffer).1
      (query.overlap geometry bodies shape filter buffer').1 := by
  simp only [overlap_eq]
  cases (survey geometry query bodies shape filter).ends with
  | error err => exact rfl
  | ok resolution => exact ⟨rfl, rfl⟩

/-- **The buffer only cuts off.** Two buffers get the same outcome; the shorter one has
the first of the entries of the longer, and what is not written stays as it was. -/
theorem PhysicsQuery.overlap_buffer_law (geometry : OverlapGeometry K) (query : PhysicsQuery)
    (bodies : BodyTable K) (shape : Aabb K) (filter : MaterialMask)
    {shorter longer : List OverlapHit} (h : shorter.length ≤ longer.length) :
    SameOutcome (query.overlap geometry bodies shape filter shorter).1
        (query.overlap geometry bodies shape filter longer).1 ∧
      ∃ few many, few <+: many ∧
        BufferLaw shorter few (query.overlap geometry bodies shape filter shorter) ∧
        BufferLaw longer many (query.overlap geometry bodies shape filter longer) := by
  refine ⟨overlap_same_outcome shorter longer, _, _, ?_, overlap_keeps_law shorter,
    overlap_keeps_law longer⟩
  exact List.take_prefix_take_left h

/-- One section of stone, and a body in its corner. -/
def stoneQuery : PhysicsQuery :=
  .new (PhysicsWorld.new.insertReady originSection (.uniform ⟨256⟩))
    fun _ => some .solid

def cornerBodies : BodyTable := (∅ : BodyTable).insert 7 ⟨⟨⟨1, 1, 1⟩, ⟨1, 1, 1⟩⟩⟩

def cornerBox : Aabb := ⟨⟨1, 1 / 2, 1 / 2⟩, ⟨1 / 2, 1 / 4, 1 / 4⟩⟩

theorem PhysicsQuery.overlap_buffer_law_corner :
    (stoneQuery.overlap (exactGeometry 0) cornerBodies cornerBox ⟨1⟩ []).1 =
        .ok ⟨.hit (), 3, 0, true⟩ ∧
      SameOutcome (stoneQuery.overlap (exactGeometry 0) cornerBodies cornerBox ⟨1⟩ []).1
          (stoneQuery.overlap (exactGeometry 0) cornerBodies cornerBox ⟨1⟩
            [⟨⟨0, 0, 0⟩, none, .block⟩]).1 ∧
        ∃ few many, few <+: many ∧
          BufferLaw [] few (stoneQuery.overlap (exactGeometry 0) cornerBodies cornerBox ⟨1⟩ []) ∧
          BufferLaw [⟨⟨0, 0, 0⟩, none, .block⟩] many
            (stoneQuery.overlap (exactGeometry 0) cornerBodies cornerBox ⟨1⟩
              [⟨⟨0, 0, 0⟩, none, .block⟩]) :=
  ⟨by decide +kernel, PhysicsQuery.overlap_buffer_law (exactGeometry 0) stoneQuery cornerBodies
    cornerBox ⟨1⟩ (Nat.zero_le 1)⟩

end LumioVoxel
