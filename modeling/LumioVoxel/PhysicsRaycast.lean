import LumioVoxel.LeastItems
import LumioVoxel.PhysicsGeometry
import Mathlib.Data.List.Chain

/-!
# Raycasts

The ray is followed through the voxel grid cell by cell, and the walk stops at the
first cell that is not empty or cannot be read, at the nearest body, or at the maximum
distance.  Each cell is entered where the one before is left, so the walk misses no
cell the ray passes through, and whatever it answers is the first thing in the way.
-/

namespace LumioVoxel

open Fallible GridWalks LeastItems

/-! ## 1. Bodies and results -/

abbrev BodyId : Type := UInt64

structure Body (K : Type := ℚ) where
  shape : Aabb K
  deriving DecidableEq, Repr

/-- The half of the physics snapshot that is not voxels. -/
abbrev BodyTable (K : Type := ℚ) : Type := BTreeMap BodyId (Body K)

inductive HitTarget where
  | block
  | body (id : BodyId)
  deriving DecidableEq, Repr

/-- Blocks come before bodies, and bodies in the order of their numbers. -/
def HitTarget.rank : HitTarget → Option BodyId
  | .block => none
  | .body id => some id

structure RaycastHit where
  cell : CellCoord
  blockId : Option BlockId
  point : Vec3
  normal : Vec3
  distance : ℚ
  target : HitTarget
  deriving DecidableEq

inductive QueryResolution (α : Type) where
  | hit (a : α)
  | miss
  | unresolved (id : SectionId)
  deriving DecidableEq

def PhysicsQueryError.queryBufferOverflow : PhysicsQueryError := contract "query_buffer_overflow"

def MAX_PHYSICS_QUERY_CELLS : Nat := MAX_CELLS_PER_READ_REQUEST

/-! ## 2. The walk -/

/-- A ray that begins on a face has come in through it. -/
def boundaryEntryNormal (origin direction : Vec3) : Vec3 :=
  match [Axis.x, .y, .z].find? fun axis => decide (EPSILON < |direction.get axis| ∧
      |origin.get axis - ⌊origin.get axis⌋| ≤ EPSILON) with
  | some axis => Vec3.along axis (-signum (direction.get axis))
  | none => ⟨0, 0, 0⟩

def minAxis (next : PerAxis (WithTop ℚ)) : Axis × WithTop ℚ :=
  if next.x ≤ next.y ∧ next.x ≤ next.z then (.x, next.x)
  else if next.y ≤ next.z then (.y, next.y)
  else (.z, next.z)

/-- One round of the traversal: the cell, the parameter at which it was entered, and for
each axis the parameter at which it is left. -/
structure Dda where
  cell : CellCoord
  t : ℚ
  next : PerAxis (WithTop ℚ)
  normal : Vec3

namespace Ray

def startCell (ray : Ray) : CellCoord :=
  ⟨initialCell ray.origin.x ray.direction.x, initialCell ray.origin.y ray.direction.y,
    initialCell ray.origin.z ray.direction.z⟩

def axes (ray : Ray) : PerAxis (Int32 × WithTop ℚ × WithTop ℚ) :=
  PerAxis.ofAxes fun axis =>
    ddaAxis (ray.origin.get axis) (ray.direction.get axis) (ray.startCell.get axis)

def start (ray : Ray) : Dda where
  cell := ray.startCell
  t := 0
  next := PerAxis.ofAxes fun axis => (ray.axes.get axis).2.1
  normal := boundaryEntryNormal ray.origin ray.direction

end Ray

namespace Dda

/-- Into the next cell on one axis; at the edge of the machine coordinates there is none. -/
def stepAlong (s : Dda) (ray : Ray) (axis : Axis) (t : ℚ) : Option Dda :=
  (checkedAdd (s.cell.get axis) (ray.axes.get axis).1).map fun coordinate =>
    { cell := s.cell.set axis coordinate
      t := t
      next := s.next.set axis (s.next.get axis + (ray.axes.get axis).2.2)
      normal := Vec3.along axis (-(ray.axes.get axis).1.toInt) }

/-- The end of a round; `none` is the source's `break`. -/
def advance (s : Dda) (ray : Ray) (maxDistance : ℚ) : Option Dda :=
  if (minAxis s.next).2 = ⊤ ∨
      ((maxDistance + EPSILON : ℚ) : WithTop ℚ) < (minAxis s.next).2 then
    none
  else
    s.stepAlong ray (minAxis s.next).1 ((minAxis s.next).2.untopD 0)

def blockHit (s : Dda) (ray : Ray) (id : BlockId) : RaycastHit :=
  ⟨s.cell, some id, ray.point (max s.t 0), s.normal, max s.t 0, .block⟩

end Dda

/-- The rounds in which a cell was looked up, and what the walk returned, if it did. -/
structure Walk where
  visited : List Dda
  found : Option (QueryResolution RaycastHit)

/-- The loop, with the number of cells it may still look up. -/
def PhysicsQuery.walk (query : PhysicsQuery) (ray : Ray) (maxDistance : ℚ)
    (bodyDistance : WithTop ℚ) (filter : MaterialMask) :
    Nat → Dda → Except PhysicsQueryError Walk
  | 0, s =>
    if s.t ≤ maxDistance + EPSILON ∧ (s.t : WithTop ℚ) ≤ bodyDistance + (EPSILON : WithTop ℚ) then
      .error .queryBufferOverflow
    else
      .ok ⟨[], none⟩
  | cells + 1, s =>
    if s.t ≤ maxDistance + EPSILON ∧ (s.t : WithTop ℚ) ≤ bodyDistance + (EPSILON : WithTop ℚ) then do
      match ← query.blockAt s.cell filter with
      | .unresolved id => return ⟨[s], some (.unresolved id)⟩
      | .hit id => return ⟨[s], some (.hit (s.blockHit ray id))⟩
      | .empty =>
        match s.advance ray maxDistance with
        | none => return ⟨[s], none⟩
        | some next =>
          let rest ← walk query ray maxDistance bodyDistance filter cells next
          return ⟨s :: rest.visited, rest.found⟩
    else
      .ok ⟨[], none⟩

/-! ## 3. The raycast -/

def bodyHit (ray : Ray) (item : BodyId × Body) : Option (ℚ × RaycastHit) :=
  (rayAabb ray.origin ray.direction item.2.shape).map fun entry =>
    (entry.1,
      { cell := ⟨floorI32 item.2.shape.center.x, floorI32 item.2.shape.center.y,
          floorI32 item.2.shape.center.z⟩
        blockId := none
        point := ray.point entry.1
        normal := entry.2
        distance := entry.1
        target := .body item.1 })

/-- By distance, then by target. -/
def compareHits : ℚ × RaycastHit → ℚ × RaycastHit → Ordering :=
  compareLex (compareOn Prod.fst) (compareOn fun hit => hit.2.target.rank)

instance : Std.TransCmp compareHits :=
  inferInstanceAs (Std.TransCmp (compareLex (compareOn Prod.fst)
    (compareOn fun hit : ℚ × RaycastHit => hit.2.target.rank)))

def bodyHits (bodies : BodyTable) (ray : Ray) (maxDistance : ℚ) : List (ℚ × RaycastHit) :=
  (bodies.toList.filterMap (bodyHit ray)).filter fun hit =>
    decide (0 ≤ hit.1 ∧ hit.1 ≤ maxDistance)

def nearestBody (bodies : BodyTable) (ray : Ray) (maxDistance : ℚ) : Option (ℚ × RaycastHit) :=
  minBy compareHits (bodyHits bodies ray maxDistance)

/-- Infinity when no body is in reach. -/
def bodyDistance (bodies : BodyTable) (ray : Ray) (maxDistance : ℚ) : WithTop ℚ :=
  match nearestBody bodies ray maxDistance with
  | some hit => (hit.1 : WithTop ℚ)
  | none => ⊤

namespace PhysicsQuery

def raycastWalk (query : PhysicsQuery) (bodies : BodyTable) (ray : Ray) (maxDistance : ℚ)
    (filter : MaterialMask) : Except PhysicsQueryError Walk :=
  query.walk ray maxDistance (bodyDistance bodies ray maxDistance) filter
    MAX_PHYSICS_QUERY_CELLS ray.start

/-- DDA traversal of the canonical voxel grid. -/
def raycast (query : PhysicsQuery) (bodies : BodyTable) (ray : Ray) (maxDistance : ℚ)
    (filter : MaterialMask) : Except PhysicsQueryError (QueryResolution RaycastHit) :=
  if maxDistance < 0 then
    .ok .miss
  else do
    let walk ← query.raycastWalk bodies ray maxDistance filter
    match walk.found with
    | some resolution => return resolution
    | none =>
      match nearestBody bodies ray maxDistance with
      | some hit =>
        if hit.1 ≤ maxDistance + EPSILON then return .hit hit.2 else return .miss
      | none => return .miss

/-- The rounds of a raycast in which a cell was looked up. -/
def visits (query : PhysicsQuery) (bodies : BodyTable) (ray : Ray) (maxDistance : ℚ)
    (filter : MaterialMask) : List Dda :=
  if maxDistance < 0 then []
  else
    match query.raycastWalk bodies ray maxDistance filter with
    | .ok walk => walk.visited
    | .error _ => []

end PhysicsQuery

/-! ## 4. What a round knows -/

theorem minAxis_spec (next : PerAxis (WithTop ℚ)) :
    (minAxis next).2 = next.get (minAxis next).1 ∧ ∀ axis, (minAxis next).2 ≤ next.get axis := by
  unfold minAxis
  split
  · rename_i hx
    refine ⟨rfl, ?_⟩
    rintro (_ | _ | _)
    · exact le_refl _
    · exact hx.1
    · exact hx.2
  · rename_i hx
    split
    · rename_i hyz
      refine ⟨rfl, ?_⟩
      rintro (_ | _ | _)
      · refine le_of_not_ge fun hxy => hx ⟨hxy, hxy.trans hyz⟩
      · exact le_refl _
      · exact hyz
    · rename_i hyz
      have hzy : next.z ≤ next.y := le_of_not_ge hyz
      refine ⟨rfl, ?_⟩
      rintro (_ | _ | _)
      · exact le_of_not_ge fun hxz => hx ⟨hxz.trans hzy, hxz⟩
      · exact hzy
      · exact le_refl _

/-- The cells share a face. -/
def FaceAdjacent (a b : CellCoord) : Prop :=
  ∃ axis, ((b.get axis).toInt = (a.get axis).toInt + 1 ∨
      (b.get axis).toInt = (a.get axis).toInt - 1) ∧
    ∀ other, other ≠ axis → b.get other = a.get other

/-- The cell holds the point at which it was entered, and each axis knows when the ray
leaves it. -/
structure Ray.Tracks (ray : Ray) (s : Dda) : Prop where
  holds : ray.Holds s.cell s.t
  next : ∀ axis, s.next.get axis =
    exit (ray.origin.get axis) (ray.direction.get axis) (s.cell.get axis).toInt

variable {ray : Ray} {s : Dda}

theorem Ray.tracks_start (ray : Ray) : ray.Tracks ray.start where
  holds := by
    rw [Ray.holds_iff]
    intro axis
    have hcell : ray.start.cell.get axis =
        initialCell (ray.origin.get axis) (ray.direction.get axis) := by
      cases axis <;> rfl
    rw [hcell]
    exact holds_initialCell (ray.inRange axis) _
  next := by
    intro axis
    simp only [Ray.start, Ray.axes, PerAxis.get_ofAxes, ddaAxis_exit]

/-- Up to the parameter at which the cell is left the ray is in it. -/
theorem Ray.Tracks.holds_until (h : ray.Tracks s) {t : ℚ} (hst : s.t ≤ t)
    (ht : (t : WithTop ℚ) ≤ (minAxis s.next).2) : ray.Holds s.cell t := by
  rw [Ray.holds_iff]
  intro axis
  refine (Ray.holds_iff.mp h.holds axis).of_le_exit hst ?_
  rw [← h.next]
  exact ht.trans ((minAxis_spec s.next).2 axis)

theorem Ray.Tracks.le_next (h : ray.Tracks s) : (s.t : WithTop ℚ) ≤ (minAxis s.next).2 := by
  rw [(minAxis_spec s.next).1, h.next]
  exact (Ray.holds_iff.mp h.holds _).le_exit

/-- On an axis along which the ray moves, a cell is left through the face the step
leads through. -/
theorem axis_moves {o d t : ℚ} {c : Int32} (start : Int32) (ht : exit o d c.toInt = (t : WithTop ℚ)) :
    (∀ c' : Int32, c'.toInt = c.toInt + (ddaAxis o d start).1.toInt →
      (c'.toInt = c.toInt + 1 ∨ c'.toInt = c.toInt - 1) ∧ GridWalks.Holds o d c'.toInt t ∧
        exit o d c.toInt + (ddaAxis o d start).2.2 = exit o d c'.toInt) ∧
    (checkedAdd c (ddaAxis o d start).1 = none →
      ∀ (e : Int32) (u : ℚ), t ≤ u → ¬ GridWalks.Meets o d e.toInt u) := by
  have hone : (1 : Int32).toInt = 1 := rfl
  have hneg : (-1 : Int32).toInt = -1 := rfl
  rcases lt_trichotomy d 0 with hd | rfl | hd
  · have hdda : ddaAxis o d start = (-1, (((o - start.toInt) / -d : ℚ) : WithTop ℚ),
        ((1 / -d : ℚ) : WithTop ℚ)) := by
      simp only [ddaAxis, EPSILON, neg_zero, if_neg (not_lt.mpr hd.le), if_pos hd]
    simp only [hdda, hneg]
    refine ⟨fun c' hc' => ?_, fun hnone e u htu => ?_⟩
    · have hpred : c'.toInt = c.toInt - 1 := by omega
      rw [hpred]
      exact ⟨.inr rfl, holds_pred hd ht, (exit_pred hd).symm⟩
    · have hedge := checkedAdd_eq_none.mp hnone
      have hlow := e.le_toInt
      have hhigh := c.toInt_lt
      rw [hneg] at hedge
      exact not_meets_of_exit_neg hd ht htu (by omega)
  · rw [exit_of_zero] at ht
    cases ht
  · have hdda : ddaAxis o d start = (1, (((start.toInt + 1 - o) / d : ℚ) : WithTop ℚ),
        ((1 / d : ℚ) : WithTop ℚ)) := if_pos (show EPSILON < d from hd)
    simp only [hdda, hone]
    refine ⟨fun c' hc' => ?_, fun hnone e u htu => ?_⟩
    · rw [hc']
      exact ⟨.inl rfl, holds_succ hd ht, (exit_succ hd).symm⟩
    · have hedge := checkedAdd_eq_none.mp hnone
      have hhigh := e.toInt_lt
      have hlow := c.le_toInt
      rw [hone] at hedge
      exact not_meets_of_exit_pos hd ht htu (by omega)

/-- A round that goes on is followed by one in a cell across a face, entered where the
first is left; after one that does not, no cell but its own is met. -/
theorem Ray.Tracks.advance_cases (h : ray.Tracks s) (maxDistance : ℚ) :
    (∃ next, s.advance ray maxDistance = some next ∧ ray.Tracks next ∧ s.t ≤ next.t ∧
        next.t ≤ maxDistance ∧ FaceAdjacent s.cell next.cell ∧
        ∀ u, s.t ≤ u → u ≤ next.t → ray.Holds s.cell u) ∨
      s.advance ray maxDistance = none ∧
        ∀ u cell, s.t ≤ u → u ≤ maxDistance → ray.Meets cell u → cell = s.cell := by
  have hspec := minAxis_spec s.next
  unfold Dda.advance
  simp only [EPSILON, add_zero]
  split
  · rename_i hstop
    refine .inr ⟨rfl, fun u cell hsu hu hmeets => ?_⟩
    refine (h.holds_until hsu ?_).eq_of_meets hmeets
    rcases hstop with hnever | hfar
    · rw [hnever]
      exact le_top
    · exact (WithTop.coe_le_coe.mpr hu).trans hfar.le
  · rename_i hgo
    rw [not_or, not_lt] at hgo
    obtain ⟨hfinite, hnear⟩ := hgo
    have hleave := h.le_next
    obtain ⟨t, ht⟩ := WithTop.ne_top_iff_exists.mp hfinite
    rw [← ht, WithTop.coe_le_coe] at hleave hnear
    rw [← ht, WithTop.untopD_coe]
    have huntil : ∀ u, s.t ≤ u → u ≤ t → ray.Holds s.cell u := fun u hsu hut =>
      h.holds_until hsu (ht ▸ WithTop.coe_le_coe.mpr hut)
    have haxis : s.next.get (minAxis s.next).1 = (t : WithTop ℚ) := hspec.1.symm.trans ht.symm
    generalize (minAxis s.next).1 = axis at haxis
    have hexit := (h.next axis).symm.trans haxis
    have hdda : ray.axes.get axis = ddaAxis (ray.origin.get axis) (ray.direction.get axis)
        (ray.startCell.get axis) := PerAxis.get_ofAxes _ _
    obtain ⟨hmoves, hedge⟩ := axis_moves (ray.startCell.get axis) hexit
    rw [← hdda] at hmoves hedge
    unfold Dda.stepAlong
    cases hadd : checkedAdd (s.cell.get axis) (ray.axes.get axis).1 with
    | none =>
      refine .inr ⟨rfl, fun u cell hsu hu hmeets => ?_⟩
      rcases le_total u t with hut | htu
      · exact (huntil u hsu hut).eq_of_meets hmeets
      · exact absurd (Ray.meets_iff.mp hmeets axis) (hedge hadd _ u htu)
    | some coordinate =>
      obtain ⟨hface, hholds, hnext⟩ := hmoves coordinate (checkedAdd_eq_some.mp hadd)
      refine .inl ⟨_, rfl, ⟨?_, ?_⟩, hleave, hnear, ⟨axis, ?_, ?_⟩, huntil⟩
      · rw [Ray.holds_iff]
        intro other
        by_cases hother : other = axis
        · subst hother
          simp only [CellCoord.get_set_self]
          exact hholds
        · simp only [CellCoord.get_set_ne _ hother]
          exact Ray.holds_iff.mp (huntil t hleave (le_refl t)) other
      · intro other
        by_cases hother : other = axis
        · subst hother
          simp only [CellCoord.get_set_self, PerAxis.get_set_self]
          rw [h.next, hnext]
        · simp only [CellCoord.get_set_ne _ hother, PerAxis.get_set_ne _ hother]
          exact h.next other
      · simp only [CellCoord.get_set_self]
        exact hface
      · intro other hother
        exact CellCoord.get_set_ne _ hother _

/-! ## 5. What a walk knows -/

/-- The round's cell is what the resolution answers with. -/
def Answers (query : PhysicsQuery) (filter : MaterialMask) (ray : Ray) (stop : Dda) :
    QueryResolution RaycastHit → Prop
  | .hit hit => ∃ id, query.blockAt stop.cell filter = .ok (.hit id) ∧ hit = stop.blockHit ray id
  | .unresolved id => query.blockAt stop.cell filter = .ok (.unresolved id)
  | .miss => False

/-- How a walk ends: at the round that answers, or with every cell in reach looked up. -/
def WalkEnds (query : PhysicsQuery) (filter : MaterialMask) (ray : Ray) (maxDistance : ℚ)
    (bodyDistance : WithTop ℚ) (t : ℚ) (walk : Walk) : Prop :=
  match walk.found with
  | some resolution => ∃ before stop, walk.visited = before ++ [stop] ∧
      (∀ v ∈ before, query.blockAt v.cell filter = .ok .empty) ∧
      Answers query filter ray stop resolution ∧
      ∀ u cell, t ≤ u → u < stop.t → ray.Meets cell u → ∃ v ∈ before, v.cell = cell
  | none => (∀ v ∈ walk.visited, query.blockAt v.cell filter = .ok .empty) ∧
      ∀ u cell, t ≤ u → u ≤ maxDistance → (u : WithTop ℚ) ≤ bodyDistance → ray.Meets cell u →
        ∃ v ∈ walk.visited, v.cell = cell

/-- What holds of a walk from a round on. -/
structure WalkFrom (query : PhysicsQuery) (filter : MaterialMask) (ray : Ray) (maxDistance : ℚ)
    (bodyDistance : WithTop ℚ) (s : Dda) (walk : Walk) : Prop where
  first : ∀ v ∈ walk.visited.head?, v = s
  ordered : walk.visited.IsChain fun a b => a.t ≤ b.t ∧ FaceAdjacent a.cell b.cell
  holds : ∀ v ∈ walk.visited, ray.Holds v.cell v.t ∧ s.t ≤ v.t ∧ v.t ≤ maxDistance ∧
    (v.t : WithTop ℚ) ≤ bodyDistance
  ends : WalkEnds query filter ray maxDistance bodyDistance s.t walk

variable {query : PhysicsQuery} {filter : MaterialMask} {maxDistance : ℚ}
  {distance : WithTop ℚ}

/-- A walk that looks up nothing more has everything behind it. -/
theorem walkFrom_nil
    (h : ¬ (s.t ≤ maxDistance + EPSILON ∧
      (s.t : WithTop ℚ) ≤ distance + (EPSILON : WithTop ℚ))) :
    WalkFrom query filter ray maxDistance distance s ⟨[], none⟩ where
  first v hv := by cases hv
  ordered := .nil
  holds v hv := by cases hv
  ends := by
    unfold WalkEnds
    refine ⟨fun v hv => absurd hv List.not_mem_nil, ?_⟩
    intro u cell hsu hu hbody _
    refine absurd ⟨?_, ?_⟩ h
    · simp only [EPSILON, add_zero]
      exact hsu.trans hu
    · simp only [EPSILON, WithTop.coe_zero, add_zero]
      exact (WithTop.coe_le_coe.mpr hsu).trans hbody

/-- A round in reach whose cell was looked up. -/
structure InReach (ray : Ray) (maxDistance : ℚ) (bodyDistance : WithTop ℚ) (s : Dda) : Prop where
  tracks : ray.Tracks s
  near : s.t ≤ maxDistance
  inFront : (s.t : WithTop ℚ) ≤ bodyDistance

/-- The cell answers. -/
theorem walkFrom_stop (h : InReach ray maxDistance distance s)
    {resolution : QueryResolution RaycastHit} (hanswer : Answers query filter ray s resolution) :
    WalkFrom query filter ray maxDistance distance s ⟨[s], some resolution⟩ where
  first v hv := (Option.some.inj hv).symm
  ordered := .singleton s
  holds v hv := by
    obtain rfl := List.mem_singleton.mp hv
    exact ⟨h.tracks.holds, le_refl _, h.near, h.inFront⟩
  ends := by
    unfold WalkEnds
    refine ⟨[], s, rfl, fun v hv => absurd hv List.not_mem_nil, hanswer, ?_⟩
    intro u cell hsu hus
    exact absurd hus (not_lt.mpr hsu)

/-- The cell is empty, and the ray comes to no other. -/
theorem walkFrom_last (h : InReach ray maxDistance distance s)
    (hempty : query.blockAt s.cell filter = .ok .empty)
    (hlast : ∀ u cell, s.t ≤ u → u ≤ maxDistance → ray.Meets cell u → cell = s.cell) :
    WalkFrom query filter ray maxDistance distance s ⟨[s], none⟩ where
  first v hv := (Option.some.inj hv).symm
  ordered := .singleton s
  holds v hv := by
    obtain rfl := List.mem_singleton.mp hv
    exact ⟨h.tracks.holds, le_refl _, h.near, h.inFront⟩
  ends := by
    refine ⟨fun v hv => ?_, ?_⟩
    · obtain rfl := List.mem_singleton.mp hv
      exact hempty
    · intro u cell hsu hu _ hmeets
      exact ⟨s, List.mem_cons_self, (hlast u cell hsu hu hmeets).symm⟩

/-- The cell is empty, and the walk goes on across one of its faces. -/
theorem walkFrom_cons (h : InReach ray maxDistance distance s)
    (hempty : query.blockAt s.cell filter = .ok .empty) {next : Dda} (hle : s.t ≤ next.t)
    (hface : FaceAdjacent s.cell next.cell)
    (huntil : ∀ u, s.t ≤ u → u ≤ next.t → ray.Holds s.cell u) {rest : Walk}
    (hrest : WalkFrom query filter ray maxDistance distance next rest) :
    WalkFrom query filter ray maxDistance distance s ⟨s :: rest.visited, rest.found⟩ where
  first v hv := (Option.some.inj hv).symm
  ordered := by
    refine List.isChain_cons.mpr ⟨fun v hv => ?_, hrest.ordered⟩
    rw [hrest.first v hv]
    exact ⟨hle, hface⟩
  holds v hv := by
    rcases List.mem_cons.mp hv with rfl | hv
    · exact ⟨h.tracks.holds, le_refl _, h.near, h.inFront⟩
    · obtain ⟨hholds, hfrom, hreach⟩ := hrest.holds v hv
      exact ⟨hholds, hle.trans hfrom, hreach⟩
  ends := by
    -- a cell met before the next one is entered is this one
    have hcover : ∀ {u cell} {looked : List Dda}, s.t ≤ u → ray.Meets cell u →
        (next.t ≤ u → ∃ v ∈ looked, v.cell = cell) → ∃ v ∈ s :: looked, v.cell = cell := by
      intro u cell looked hsu hmeets hlater
      rcases le_total u next.t with hun | hnu
      · exact ⟨s, List.mem_cons_self, ((huntil u hsu hun).eq_of_meets hmeets).symm⟩
      · obtain ⟨v, hv, hcell⟩ := hlater hnu
        exact ⟨v, List.mem_cons_of_mem _ hv, hcell⟩
    have hends := hrest.ends
    unfold WalkEnds at hends ⊢
    simp only
    cases hfound : rest.found with
    | some resolution =>
      simp only [hfound] at hends
      obtain ⟨before, stop, hvisited, hbefore, hanswer, hmet⟩ := hends
      refine ⟨s :: before, stop, congrArg (s :: ·) hvisited, ?_, hanswer, ?_⟩
      · intro v hv
        rcases List.mem_cons.mp hv with rfl | hv
        · exact hempty
        · exact hbefore v hv
      · intro u cell hsu hus hmeets
        exact hcover hsu hmeets fun hnu => hmet u cell hnu hus hmeets
    | none =>
      simp only [hfound] at hends
      obtain ⟨hvisited, hmet⟩ := hends
      refine ⟨?_, ?_⟩
      · intro v hv
        rcases List.mem_cons.mp hv with rfl | hv
        · exact hempty
        · exact hvisited v hv
      · intro u cell hsu hu hbody hmeets
        exact hcover hsu hmeets fun hnu => hmet u cell hnu hu hbody hmeets

/-- **The walk.** From a round that tracks the ray on, the cells follow each other across
faces as the ray goes, and the walk ends where it says. -/
theorem walk_from {cells : Nat} {walk : Walk} (h : ray.Tracks s)
    (hwalk : query.walk ray maxDistance distance filter cells s = .ok walk) :
    WalkFrom query filter ray maxDistance distance s walk := by
  induction cells generalizing s walk with
  | zero =>
    unfold PhysicsQuery.walk at hwalk
    split at hwalk
    · cases hwalk
    · rename_i hreach
      obtain rfl := Except.ok.inj hwalk
      exact walkFrom_nil hreach
  | succ cells ih =>
    unfold PhysicsQuery.walk at hwalk
    split at hwalk
    · rename_i hreach
      simp only [EPSILON, WithTop.coe_zero, add_zero] at hreach
      have hin : InReach ray maxDistance distance s := ⟨h, hreach.1, hreach.2⟩
      obtain ⟨visit, hvisit, hwalk⟩ := bind_eq_ok.mp hwalk
      cases visit with
      | unresolved id =>
        obtain rfl := Except.ok.inj hwalk
        exact walkFrom_stop hin hvisit
      | hit id =>
        obtain rfl := Except.ok.inj hwalk
        exact walkFrom_stop hin ⟨id, hvisit, rfl⟩
      | empty =>
        rcases h.advance_cases maxDistance with
          ⟨next, hnext, htracks, hle, -, hface, huntil⟩ | ⟨hnone, hlast⟩
        · simp only [hnext] at hwalk
          obtain ⟨rest, hrest, hwalk⟩ := bind_eq_ok.mp hwalk
          obtain rfl := Except.ok.inj hwalk
          exact walkFrom_cons hin hvisit hle hface huntil (ih htracks hrest)
        · simp only [hnone] at hwalk
          obtain rfl := Except.ok.inj hwalk
          exact walkFrom_last hin hvisit hlast
    · rename_i hreach
      obtain rfl := Except.ok.inj hwalk
      exact walkFrom_nil hreach

/-! ## 6. The nearest body -/

/-- At the parameter the ray is in the body. -/
def Ray.Crossed (ray : Ray) (bodies : BodyTable) (id : BodyId) (t : ℚ) : Prop :=
  ∃ body, bodies[id]? = some body ∧ 0 ≤ t ∧ ray.Crosses body.shape t

/-- The ray is first in a body at this parameter; of several bodies there it is the one
with the lowest number. -/
def Ray.Nearest (ray : Ray) (bodies : BodyTable) (id : BodyId) (t : ℚ) : Prop :=
  ray.Crossed bodies id t ∧ ∀ other u, ray.Crossed bodies other u → t < u ∨ t = u ∧ id ≤ other

variable {bodies : BodyTable}

theorem bodyHit_cases (ray : Ray) (item : BodyId × Body) :
    (∃ hit, bodyHit ray item = some hit ∧
        IsLeast {t | 0 ≤ t ∧ ray.Crosses item.2.shape t} hit.1 ∧ hit.2.target = .body item.1 ∧
          hit.2.distance = hit.1 ∧ hit.2.point = ray.point hit.1) ∨
      bodyHit ray item = none ∧ ∀ t, 0 ≤ t → ¬ ray.Crosses item.2.shape t := by
  unfold bodyHit
  rcases rayAabb_cases ray item.2.shape with ⟨t, normal, haabb, hleast⟩ | ⟨haabb, hnever⟩
  · rw [haabb]
    exact .inl ⟨_, rfl, hleast, rfl, rfl, rfl⟩
  · rw [haabb]
    exact .inr ⟨rfl, hnever⟩

theorem mem_bodyHits {hit : ℚ × RaycastHit} : hit ∈ bodyHits bodies ray maxDistance ↔
    (∃ id body, bodies[id]? = some body ∧ bodyHit ray (id, body) = some hit) ∧
      0 ≤ hit.1 ∧ hit.1 ≤ maxDistance := by
  simp only [bodyHits, List.mem_filter, List.mem_filterMap, Prod.exists, BTreeMap.mem_toList,
    decide_eq_true_iff]

/-- A body the ray comes through is hit no later. -/
theorem Ray.Crossed.bodyHits {id : BodyId} {u : ℚ} (h : ray.Crossed bodies id u) :
    ∃ hit : ℚ × RaycastHit, hit.1 ≤ u ∧ hit.2.target = .body id ∧
      (hit.1 ≤ maxDistance → hit ∈ bodyHits bodies ray maxDistance) := by
  obtain ⟨body, hbody, hpos, hcrosses⟩ := h
  rcases bodyHit_cases ray (id, body) with ⟨hit, hhit, hleast, htarget, -⟩ | ⟨-, hnever⟩
  · refine ⟨hit, hleast.2 ⟨hpos, hcrosses⟩, htarget, fun hmax => ?_⟩
    exact mem_bodyHits.mpr ⟨⟨id, body, hbody, hhit⟩, hleast.1.1, hmax⟩
  · exact absurd hcrosses (hnever u hpos)

theorem isLE_compareHits {a b : ℚ × RaycastHit} {id id' : BodyId}
    (ha : a.2.target = .body id) (hb : b.2.target = .body id') (h : (compareHits a b).isLE) :
    a.1 < b.1 ∨ a.1 = b.1 ∧ id ≤ id' := by
  simp only [compareHits, compareLex, compareOn, ha, hb, HitTarget.rank,
    Ordering.isLE_then_iff_or] at h
  rcases h with hlt | ⟨heq, hid⟩
  · exact .inl (compare_lt_iff_lt.mp hlt)
  · refine .inr ⟨compare_eq_iff_eq.mp heq, ?_⟩
    have hcompare : compare (some id) (some id') = compare id id' := rfl
    rw [hcompare] at hid
    exact Std.isLE_compare.mp hid

theorem nearestBody_eq_some {hit : ℚ × RaycastHit}
    (h : nearestBody bodies ray maxDistance = some hit) :
    hit.2.distance = hit.1 ∧ hit.2.point = ray.point hit.1 ∧ hit.1 ≤ maxDistance ∧
      ∃ id, hit.2.target = .body id ∧ ray.Nearest bodies id hit.1 := by
  obtain ⟨hmem, hleast⟩ := minBy_eq_some h
  obtain ⟨⟨id, body, hbody, hhit⟩, -, hmax⟩ := mem_bodyHits.mp hmem
  rcases bodyHit_cases ray (id, body) with
    ⟨hit', hhit', ⟨hcrosses, -⟩, htarget, hdistance, hpoint⟩ | ⟨hnone, -⟩
  · obtain rfl := Option.some.inj (hhit'.symm.trans hhit)
    refine ⟨hdistance, hpoint, hmax, id, htarget, ⟨body, hbody, hcrosses⟩, ?_⟩
    intro other u hcrossed
    obtain ⟨hit, hle, htarget', hin⟩ := hcrossed.bodyHits
    rcases le_or_gt hit.1 maxDistance with hnear | hfar
    · rcases isLE_compareHits htarget htarget' (hleast hit (hin hnear)) with hlt | ⟨heq, hid⟩
      · exact .inl (hlt.trans_le hle)
      · rcases hle.lt_or_eq with hlt | hlast
        · exact .inl (heq.trans_lt hlt)
        · exact .inr ⟨heq.trans hlast, hid⟩
    · exact .inl (hmax.trans_lt (hfar.trans_le hle))
  · rw [hnone] at hhit
    cases hhit

theorem nearestBody_eq_none (h : nearestBody bodies ray maxDistance = none) {id : BodyId} {u : ℚ}
    (hcrossed : ray.Crossed bodies id u) : maxDistance < u := by
  obtain ⟨hit, hle, -, hin⟩ := hcrossed.bodyHits
  by_contra hnear
  have hmem := hin (hle.trans (not_lt.mp hnear))
  rw [minBy_eq_none.mp h] at hmem
  exact absurd hmem List.not_mem_nil

/-- The walk stays in front of every body. -/
theorem le_crossed {t : ℚ} (hmax : t ≤ maxDistance)
    (hbody : (t : WithTop ℚ) ≤ bodyDistance bodies ray maxDistance) {id : BodyId} {u : ℚ}
    (hcrossed : ray.Crossed bodies id u) : t ≤ u := by
  unfold bodyDistance at hbody
  split at hbody
  · rename_i hit hhit
    obtain ⟨-, -, -, nearest, -, -, hnearest⟩ := nearestBody_eq_some hhit
    have hle : t ≤ hit.1 := WithTop.coe_le_coe.mp hbody
    rcases hnearest id u hcrossed with hlt | ⟨heq, -⟩
    · exact hle.trans hlt.le
    · exact hle.trans heq.le
  · rename_i hnone
    exact hmax.trans (nearestBody_eq_none hnone hcrossed).le

/-! ## 7. Raycast order -/

/-- Every cell looked up is empty, and the cells the ray meets up to a parameter are among
them. -/
def AllEmpty (query : PhysicsQuery) (filter : MaterialMask) (ray : Ray) (visited : List Dda)
    (limit : ℚ) : Prop :=
  (∀ v ∈ visited, query.blockAt v.cell filter = .ok .empty) ∧
    ∀ u cell, 0 ≤ u → u ≤ limit → ray.Meets cell u → ∃ v ∈ visited, v.cell = cell

/-- The last cell looked up answers.  Those before it are empty, the cells the ray meets
before it is entered are among them, and no body is in front of it. -/
def FirstStop (query : PhysicsQuery) (bodies : BodyTable) (filter : MaterialMask) (ray : Ray)
    (visited : List Dda) (resolution : QueryResolution RaycastHit) : Prop :=
  ∃ before stop, visited = before ++ [stop] ∧ Answers query filter ray stop resolution ∧
    (∀ v ∈ before, query.blockAt v.cell filter = .ok .empty) ∧
    (∀ u cell, 0 ≤ u → u < stop.t → ray.Meets cell u → ∃ v ∈ before, v.cell = cell) ∧
    ∀ id u, ray.Crossed bodies id u → stop.t ≤ u

/-- What each answer says about the way the ray went. -/
def RaycastEnds (query : PhysicsQuery) (bodies : BodyTable) (filter : MaterialMask) (ray : Ray)
    (maxDistance : ℚ) (visited : List Dda) (resolution : QueryResolution RaycastHit) : Prop :=
  match resolution with
  | .miss => AllEmpty query filter ray visited maxDistance ∧
      ∀ id u, ray.Crossed bodies id u → maxDistance < u
  | .unresolved _ => FirstStop query bodies filter ray visited resolution
  | .hit hit =>
    match hit.target with
    | .block => FirstStop query bodies filter ray visited resolution
    | .body id => AllEmpty query filter ray visited hit.distance ∧
        ray.Nearest bodies id hit.distance ∧ hit.distance ≤ maxDistance ∧
        hit.point = ray.point hit.distance

structure RaycastOrder (query : PhysicsQuery) (bodies : BodyTable) (filter : MaterialMask)
    (ray : Ray) (maxDistance : ℚ) (visited : List Dda)
    (resolution : QueryResolution RaycastHit) : Prop where
  ordered : visited.IsChain fun a b => a.t ≤ b.t ∧ FaceAdjacent a.cell b.cell
  holds : ∀ v ∈ visited, 0 ≤ v.t ∧ v.t ≤ maxDistance ∧ ray.Holds v.cell v.t
  ends : RaycastEnds query bodies filter ray maxDistance visited resolution

theorem firstStop_of_walk {walk : Walk} {resolution : QueryResolution RaycastHit}
    (hfound : walk.found = some resolution)
    (h : WalkFrom query filter ray maxDistance (bodyDistance bodies ray maxDistance)
      ray.start walk) :
    FirstStop query bodies filter ray walk.visited resolution := by
  have hends := h.ends
  simp only [WalkEnds, hfound] at hends
  obtain ⟨before, stop, hvisited, hbefore, hanswer, hmet⟩ := hends
  refine ⟨before, stop, hvisited, hanswer, hbefore, hmet, ?_⟩
  have hstop : stop ∈ walk.visited := hvisited ▸ List.mem_append_right _ (List.mem_singleton_self _)
  obtain ⟨-, -, hmax, hbody⟩ := h.holds stop hstop
  intro id u hcrossed
  exact le_crossed hmax hbody hcrossed

theorem allEmpty_of_walk {walk : Walk} (hfound : walk.found = none)
    (h : WalkFrom query filter ray maxDistance distance ray.start walk) {limit : ℚ}
    (hmax : limit ≤ maxDistance) (hbody : (limit : WithTop ℚ) ≤ distance) :
    AllEmpty query filter ray walk.visited limit := by
  have hends := h.ends
  simp only [WalkEnds, hfound] at hends
  refine ⟨hends.1, ?_⟩
  intro u cell hpos hu hmeets
  exact hends.2 u cell hpos (hu.trans hmax) ((WithTop.coe_le_coe.mpr hu).trans hbody) hmeets

/-- What a walk finds is a block of the cell it ends in, or that cell's section. -/
theorem raycastEnds_of_found {walk : Walk} {resolution : QueryResolution RaycastHit}
    (hfound : walk.found = some resolution)
    (h : WalkFrom query filter ray maxDistance (bodyDistance bodies ray maxDistance)
      ray.start walk) :
    RaycastEnds query bodies filter ray maxDistance walk.visited resolution := by
  have hfirst := firstStop_of_walk hfound h
  cases resolution with
  | miss =>
    obtain ⟨before, stop, -, hanswer, -⟩ := hfirst
    exact hanswer.elim
  | unresolved id => exact hfirst
  | hit hit =>
    have htarget : hit.target = .block := by
      obtain ⟨before, stop, -, ⟨id, -, rfl⟩, -⟩ := hfirst
      rfl
    simp only [RaycastEnds, htarget]
    exact hfirst

/-- **Raycasts answer in order.** The cells looked up follow the ray across faces and miss
no cell it passes through, so the answer is the first thing in its way. -/
theorem PhysicsQuery.raycast_order {resolution : QueryResolution RaycastHit}
    (h : query.raycast bodies ray maxDistance filter = .ok resolution) :
    RaycastOrder query bodies filter ray maxDistance
      (query.visits bodies ray maxDistance filter) resolution := by
  unfold PhysicsQuery.raycast at h
  unfold PhysicsQuery.visits
  split at h
  · rename_i hnegative
    obtain rfl := Except.ok.inj h
    rw [if_pos hnegative]
    refine ⟨.nil, fun v hv => absurd hv List.not_mem_nil,
      ⟨fun v hv => absurd hv List.not_mem_nil, ?_⟩, ?_⟩
    · intro u cell hpos hu _
      exact absurd (hpos.trans hu) (not_le.mpr hnegative)
    · rintro id u ⟨body, -, hpos, -⟩
      exact hnegative.trans_le hpos
  · rename_i hreach
    obtain ⟨walk, hwalk, hanswer⟩ := bind_eq_ok.mp h
    have hfrom := walk_from ray.tracks_start hwalk
    rw [if_neg hreach, hwalk]
    refine ⟨hfrom.ordered, ?_, ?_⟩
    · intro v hv
      obtain ⟨hholds, hpos, hmax, -⟩ := hfrom.holds v hv
      exact ⟨hpos, hmax, hholds⟩
    · cases hfound : walk.found with
      | some found =>
        simp only [hfound] at hanswer
        obtain rfl := Except.ok.inj hanswer
        exact raycastEnds_of_found hfound hfrom
      | none =>
        cases hnearest : nearestBody bodies ray maxDistance with
        | some hit =>
          obtain ⟨hdistance, hpoint, hmax, id, htarget, hfirst⟩ := nearestBody_eq_some hnearest
          have hnear : hit.1 ≤ maxDistance + EPSILON := by
            simp only [EPSILON, add_zero]
            exact hmax
          simp only [hfound, hnearest, if_pos hnear] at hanswer
          obtain rfl := Except.ok.inj hanswer
          simp only [RaycastEnds, htarget, hdistance]
          refine ⟨allEmpty_of_walk hfound hfrom hmax ?_, hfirst, hmax, hpoint⟩
          simp only [bodyDistance, hnearest, le_refl]
        | none =>
          simp only [hfound, hnearest] at hanswer
          obtain rfl := Except.ok.inj hanswer
          refine ⟨allEmpty_of_walk hfound hfrom (le_refl _) ?_, ?_⟩
          · simp only [bodyDistance, hnearest, le_top]
          · intro id u hcrossed
            exact nearestBody_eq_none hnearest hcrossed

/-- From a corner above the world, down and towards lower cells. -/
def cornerRay : Ray where
  origin := ⟨0, 513 / 2, 1 / 2⟩
  direction := ⟨-3 / 5, -4 / 5, 0⟩
  unit := by decide +kernel
  inRange := by
    intro axis
    cases axis <;> decide +kernel

theorem PhysicsQuery.raycast_order_corner :
    (PhysicsQuery.new PhysicsWorld.new fun _ => none).raycast ∅ cornerRay 4 ⟨1⟩ =
        .ok (.unresolved ⟨-1, 15, 0, by decide, by decide, by decide⟩) ∧
      RaycastOrder (PhysicsQuery.new PhysicsWorld.new fun _ => none) ∅ ⟨1⟩ cornerRay 4
        ((PhysicsQuery.new PhysicsWorld.new fun _ => none).visits ∅ cornerRay 4 ⟨1⟩)
        (.unresolved ⟨-1, 15, 0, by decide, by decide, by decide⟩) := by
  have hrun : (PhysicsQuery.new PhysicsWorld.new fun _ => none).raycast ∅ cornerRay 4 ⟨1⟩ =
      .ok (.unresolved ⟨-1, 15, 0, by decide, by decide, by decide⟩) := by decide +kernel
  exact ⟨hrun, PhysicsQuery.raycast_order hrun⟩

end LumioVoxel
